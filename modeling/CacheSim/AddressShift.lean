import CacheSim.Geometry

namespace CacheSim

open Words

namespace Geometry

variable (geo : Geometry)

def moveBlock (k : ℕ) (b : UInt64) : UInt64 :=
  if b.toNat < 2 ^ (64 - geo.offsetBits.toNat) then
    UInt64.ofNat ((b.toNat + k / geo.cfg.blockSize.toNat) % 2 ^ (64 - geo.offsetBits.toNat))
  else b

def moveSet (k : ℕ) (s : Fin geo.sets) : Fin geo.sets :=
  ⟨(s.val + k / geo.cfg.blockSize.toNat) % geo.sets, Nat.mod_lt _ geo.sets_pos⟩

theorem moveSet_injective (k : ℕ) : Function.Injective (geo.moveSet k) := by
  intro s t h
  apply Fin.ext
  exact add_mod_inj s.isLt t.isLt (congrArg Fin.val h)

theorem moveBlock_toNat {k : ℕ} {b : UInt64} (hb : b.toNat < 2 ^ (64 - geo.offsetBits.toNat)) :
    (geo.moveBlock k b).toNat =
      (b.toNat + k / geo.cfg.blockSize.toNat) % 2 ^ (64 - geo.offsetBits.toNat) := by
  rw [moveBlock, if_pos hb]
  apply UInt64.toNat_ofNat_of_lt'
  have hpow : 2 ^ (64 - geo.offsetBits.toNat) ≤ 2 ^ 64 := by
    apply Nat.pow_le_pow_right (by omega)
    exact Nat.sub_le _ _
  exact (Nat.mod_lt _ (by positivity)).trans_le hpow

theorem moveBlock_injective (k : ℕ) : Function.Injective (geo.moveBlock k) := by
  intro b c h
  have hnat := congrArg UInt64.toNat h
  have hlt : ∀ {x : UInt64}, x.toNat < 2 ^ (64 - geo.offsetBits.toNat) →
      (geo.moveBlock k x).toNat < 2 ^ (64 - geo.offsetBits.toNat) := by
    intro x hx
    rw [geo.moveBlock_toNat hx]
    exact Nat.mod_lt _ (by positivity)
  by_cases hb : b.toNat < 2 ^ (64 - geo.offsetBits.toNat)
  · by_cases hc : c.toNat < 2 ^ (64 - geo.offsetBits.toNat)
    · rw [geo.moveBlock_toNat hb, geo.moveBlock_toNat hc] at hnat
      exact UInt64.toNat_inj.mp (add_mod_inj hb hc hnat)
    · have hcc : geo.moveBlock k c = c := if_neg hc
      rw [hcc] at hnat
      exact absurd (hnat ▸ hlt hb) hc
  · have hbb : geo.moveBlock k b = b := if_neg hb
    by_cases hc : c.toNat < 2 ^ (64 - geo.offsetBits.toNat)
    · rw [hbb] at hnat
      exact absurd (hnat.symm ▸ hlt hc) hb
    · rwa [hbb, show geo.moveBlock k c = c from if_neg hc] at h

variable {geo} {k : ℕ}

theorem blockOf_add_toNat (hk : geo.cfg.blockSize.toNat ∣ k) (a : UInt64) :
    (geo.blockOf (a + UInt64.ofNat k)).toNat =
      ((geo.blockOf a).toNat + k / geo.cfg.blockSize.toNat) % 2 ^ (64 - geo.offsetBits.toNat) := by
  have hsplit : (2 : ℕ) ^ 64 = 2 ^ geo.offsetBits.toNat * 2 ^ (64 - geo.offsetBits.toNat) := by
    have := geo.bits_lt
    rw [← pow_add]
    congr 1
    omega
  rw [blockSize_toNat] at hk ⊢
  rw [blockOf_toNat, blockOf_toNat, UInt64.toNat_add, UInt64.toNat_ofNat', Nat.add_mod_mod, hsplit,
    Nat.mod_mul_right_div_self, Nat.add_div_of_dvd_left hk]

theorem blockOf_lt (a : UInt64) : (geo.blockOf a).toNat < 2 ^ (64 - geo.offsetBits.toNat) := by
  have := geo.bits_lt
  rw [blockOf_toNat, Nat.div_lt_iff_lt_mul (by positivity), ← pow_add]
  have ha := a.toNat_lt
  rwa [Nat.sub_add_cancel (by omega)]

theorem blockOf_add (hk : geo.cfg.blockSize.toNat ∣ k) (a : UInt64) :
    geo.blockOf (a + UInt64.ofNat k) = geo.moveBlock k (geo.blockOf a) := by
  apply UInt64.toNat_inj.mp
  rw [blockOf_add_toNat hk, geo.moveBlock_toNat (blockOf_lt a)]

theorem setOf_add (hk : geo.cfg.blockSize.toNat ∣ k) (a : UInt64) :
    geo.setOf (a + UInt64.ofNat k) = geo.moveSet k (geo.setOf a) := by
  have := geo.bits_lt
  have hdvd : 2 ^ geo.indexBits.toNat ∣ 2 ^ (64 - geo.offsetBits.toNat) :=
    Nat.pow_dvd_pow 2 (by omega)
  apply Fin.ext
  rw [setOf_eq, setOf_eq]
  simp only [setOfBlock, moveSet, sets, numSets_toNat]
  rw [blockOf_add_toNat hk, Nat.mod_mod_of_dvd _ hdvd, Nat.mod_add_mod]

theorem blockOf_add_inj (hk : geo.cfg.blockSize.toNat ∣ k) (a b : UInt64) :
    geo.blockOf (a + UInt64.ofNat k) = geo.blockOf (b + UInt64.ofNat k) ↔
      geo.blockOf a = geo.blockOf b := by
  rw [blockOf_add hk, blockOf_add hk]
  exact (geo.moveBlock_injective k).eq_iff

theorem victimAddr_add (hk : geo.cfg.blockSize.toNat ∣ k) (a : UInt64) :
    geo.victimAddr (geo.tagOf (a + UInt64.ofNat k)) (geo.decode (a + UInt64.ofNat k)).setIndex =
      geo.victimAddr (geo.tagOf a) (geo.decode a).setIndex + UInt64.ofNat k := by
  have hsplit : (2 : ℕ) ^ 64 = 2 ^ (64 - geo.offsetBits.toNat) * 2 ^ geo.offsetBits.toNat := by
    have := geo.bits_lt
    rw [← pow_add]
    congr 1
    omega
  have hmoved := blockOf_add_toNat hk a
  rw [blockSize_toNat] at hk hmoved
  rw [blockOf_toNat, blockOf_toNat] at hmoved
  apply UInt64.toNat_inj.mp
  rw [UInt64.toNat_add, UInt64.toNat_ofNat', Nat.add_mod_mod, victimAddr_toNat, victimAddr_toNat, hmoved,
    hsplit]
  conv_rhs => rw [← Nat.div_mul_cancel hk, ← Nat.add_mul, Nat.mul_mod_mul_right]

end Geometry

end CacheSim
