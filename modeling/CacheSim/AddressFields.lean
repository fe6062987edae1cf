import CacheSim.Geometry

namespace CacheSim.Geometry

open Words

variable (geo : Geometry)

theorem victimAddr_eq_clear (a : UInt64) :
    geo.victimAddr (geo.decode a).tag (geo.decode a).setIndex =
      a &&& ~~~((1 <<< geo.offsetBits) - 1) := by
  have hbits := geo.bits_lt
  have hone : (1 <<< geo.offsetBits : UInt64).toNat = 2 ^ geo.offsetBits.toNat := by
    have hlt : 2 ^ geo.offsetBits.toNat < 2 ^ 64 := Nat.pow_lt_pow_right (by omega) (by omega)
    rw [toNat_shiftLeft (by omega) (by simpa using hlt)]
    exact Nat.one_mul _
  apply UInt64.toNat_inj.mp
  rw [toNat_clear hone]
  exact geo.victimAddr_toNat a

theorem victimAddr_fields (a : UInt64) :
    (geo.victimAddr (geo.decode a).tag (geo.decode a).setIndex).toNat =
      ((geo.decode a).tag.toNat * 2 ^ geo.indexBits.toNat + (geo.decode a).setIndex.toNat) *
        2 ^ geo.offsetBits.toNat := by
  have hvictim := geo.victimAddr_toNat a
  have hblock : (geo.decode a).tag.toNat * 2 ^ geo.indexBits.toNat + (geo.decode a).setIndex.toNat =
      (geo.blockOf a).toNat := by
    rw [setIndex_toNat, show (geo.decode a).tag = geo.tagOf a from rfl, tagOf_toNat]
    exact Nat.div_add_mod' _ _
  rw [hblock, blockOf_toNat]
  exact hvictim

theorem victimAddr_add_offset (a : UInt64) :
    geo.victimAddr (geo.decode a).tag (geo.decode a).setIndex + (geo.decode a).offset = a := by
  have hvictim := geo.victimAddr_toNat a
  have hsum := Nat.div_add_mod' a.toNat (2 ^ geo.offsetBits.toNat)
  apply UInt64.toNat_inj.mp
  rw [UInt64.toNat_add, show (geo.decode a).tag = geo.tagOf a from rfl, hvictim, offset_toNat, hsum]
  exact Nat.mod_eq_of_lt a.toNat_lt

theorem same_fields_iff (a b : UInt64) :
    (geo.decode a).setIndex = (geo.decode b).setIndex ∧ (geo.decode a).tag = (geo.decode b).tag ↔
      a.toNat / geo.cfg.blockSize.toNat = b.toNat / geo.cfg.blockSize.toNat := by
  have hset : (geo.decode a).setIndex = (geo.decode b).setIndex ↔ geo.setOf a = geo.setOf b :=
    ⟨fun h => Fin.ext (congrArg UInt64.toNat h), setIndex_congr⟩
  have hblock := geo.blockOf_eq_iff a b
  rw [← UInt64.toNat_inj, blockOf_toNat, blockOf_toNat, ← blockSize_toNat] at hblock
  rw [hset, hblock]
  rfl

theorem decode_victimAddr (geo : Geometry) (a b : UInt64) :
    let d := geo.decode a
    let rebuilt := geo.victimAddr d.tag d.setIndex
    d.setIndex < geo.numSets ∧
      rebuilt = a &&& ~~~((1 <<< geo.offsetBits) - 1) ∧
      rebuilt.toNat = (d.tag.toNat * 2 ^ geo.indexBits.toNat + d.setIndex.toNat) *
        2 ^ geo.offsetBits.toNat ∧
      rebuilt + d.offset = a ∧
      (d.setIndex = (geo.decode b).setIndex ∧ d.tag = (geo.decode b).tag ↔
        a.toNat / geo.cfg.blockSize.toNat = b.toNat / geo.cfg.blockSize.toNat) ∧
      (geo.decode rebuilt).setIndex = d.setIndex ∧ (geo.decode rebuilt).tag = d.tag := by
  intro d rebuilt
  have hsame : rebuilt.toNat / geo.cfg.blockSize.toNat = a.toNat / geo.cfg.blockSize.toNat := by
    have hblock := congrArg UInt64.toNat (geo.blockOf_victimAddr a)
    rwa [blockOf_toNat, blockOf_toNat, ← blockSize_toNat] at hblock
  refine ⟨UInt64.lt_iff_toNat_lt.mpr (geo.setIndex_lt a), geo.victimAddr_eq_clear a,
    geo.victimAddr_fields a, geo.victimAddr_add_offset a, geo.same_fields_iff a b, ?_⟩
  exact (geo.same_fields_iff rebuilt a).mpr hsame

end CacheSim.Geometry
