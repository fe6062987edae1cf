import CacheSim.LRUStack

namespace CacheSim

open Service Recency Words

namespace Geometry

variable {geo₁ geo₂ : Geometry}

theorem blockOf_congr (h : geo₁.cfg.blockSize = geo₂.cfg.blockSize) : geo₁.blockOf = geo₂.blockOf := by
  have hpow : 2 ^ geo₁.offsetBits.toNat = 2 ^ geo₂.offsetBits.toNat := by
    rw [← blockSize_toNat, ← blockSize_toNat, h]
  have hbits : geo₁.offsetBits.toNat = geo₂.offsetBits.toNat := Nat.pow_right_injective le_rfl hpow
  funext a
  apply UInt64.toNat_inj.mp
  rw [blockOf_toNat, blockOf_toNat, hbits]

theorem setOfBlock_coarser (h : geo₁.numSets ≤ geo₂.numSets) {x y : UInt64}
    (hxy : geo₂.setOfBlock x = geo₂.setOfBlock y) : geo₁.setOfBlock x = geo₁.setOfBlock y := by
  have hbits : geo₁.indexBits.toNat ≤ geo₂.indexBits.toNat := by
    rw [UInt64.le_iff_toNat_le, numSets_toNat, numSets_toNat] at h
    exact (Nat.pow_le_pow_iff_right (by omega)).mp h
  have hmod := congrArg Fin.val hxy
  simp only [setOfBlock, sets, numSets_toNat] at hmod
  apply Fin.ext
  simp only [setOfBlock, sets, numSets_toNat]
  exact mod_pow_eq_of_le hbits hmod

end Geometry

namespace Cache

variable {σ₁ σ₂ : Type} [MemoryLevel RandStream σ₁] [MemoryLevel RandStream σ₂] {geo₁ geo₂ : Geometry}

theorem Recent.included (hblock : geo₁.cfg.blockSize = geo₂.cfg.blockSize)
    (hsets : geo₁.numSets ≤ geo₂.numSets) (hways : geo₁.cfg.associativity ≤ geo₂.cfg.associativity)
    {c₁ : Cache BuiltinPolicy geo₁} {c₂ : Cache BuiltinPolicy geo₂} {h : List (UInt64 × Bool)}
    (hc₁ : c₁.Recent h) (hc₂ : c₂.Recent h) (hall : ∀ x ∈ h, x.2 = true) {a : UInt64}
    (ha : c₁.Resident a) : c₂.Resident a := by
  rw [hc₁.resident_iff, Geometry.blockOf_congr hblock] at ha
  rw [hc₂.resident_iff]
  exact ha.mono geo₁.ways_pos (UInt64.le_iff_toNat_le.mp hways)
    (fun x y => Geometry.setOfBlock_coarser hsets) hall

theorem lru_inclusion (hLRU₁ : geo₁.cfg.replacement = .LRU) (hLRU₂ : geo₂.cfg.replacement = .LRU)
    (hWA₁ : geo₁.cfg.allocPolicy = .WriteAllocate) (hWA₂ : geo₂.cfg.allocPolicy = .WriteAllocate)
    (hblock : geo₁.cfg.blockSize = geo₂.cfg.blockSize) (hsets : geo₁.numSets ≤ geo₂.numSets)
    (hways : geo₁.cfg.associativity ≤ geo₂.cfg.associativity) {order₁ order₂ : HashOrder UInt64 ℕ}
    {next₁ : σ₁} {next₂ : σ₂} {reqs : List Request} {s₁ : Cache BuiltinPolicy geo₁ × σ₁}
    {s₂ : Cache BuiltinPolicy geo₂ × σ₂}
    (h₁ : Called RandStream
      (fresh order₁ (makeReplacement geo₁.cfg.replacement geo₁.sets geo₁.ways), next₁) reqs s₁)
    (h₂ : Called RandStream
      (fresh order₂ (makeReplacement geo₂.cfg.replacement geo₂.sets geo₂.ways), next₂) reqs s₂) :
    (∀ a, s₁.1.Resident a → s₂.1.Resident a) ∧
      (∀ (e₁ e₂ : RandStream) r, (serve s₁ e₁ r).1 = true → (serve s₂ e₂ r).1 = true) ∧
      s₂.1.stats.misses ≤ s₁.1.stats.misses := by
  obtain ⟨hrecent₁, hmisses₁⟩ := called_recalls hLRU₁ h₁
  obtain ⟨hrecent₂, hmisses₂⟩ := called_recalls hLRU₂ h₂
  have hrefs : references geo₁ reqs = references geo₂ reqs := by
    rw [references_writeAllocate hWA₁, references_writeAllocate hWA₂, Geometry.blockOf_congr hblock]
  have hall : ∀ x ∈ references geo₂ reqs, x.2 = true := by
    rw [references_writeAllocate hWA₂]
    simp
  have hle : geo₁.ways ≤ geo₂.ways := UInt64.le_iff_toNat_le.mp hways
  have hfiner : ∀ x y, geo₂.setOfBlock x = geo₂.setOfBlock y → geo₁.setOfBlock x = geo₁.setOfBlock y :=
    fun x y => Geometry.setOfBlock_coarser hsets
  have hresident : ∀ a, s₁.1.Resident a → s₂.1.Resident a := by
    rw [hrefs] at hrecent₁
    exact fun a => hrecent₁.included hblock hsets hways hrecent₂ hall
  refine ⟨hresident, fun e₁ e₂ r hhit => ?_, ?_⟩
  · obtain ⟨calls₁, hstep₁, -⟩ := access_step s₁.1 s₁.2 e₁ r
    obtain ⟨calls₂, hstep₂, -⟩ := access_step s₂.1 s₂.2 e₂ r
    apply hstep₂.hit_iff.mpr
    apply hresident
    exact hstep₁.hit_iff.mp hhit
  · rw [hmisses₁, hmisses₂, hrefs]
    exact absences_mono geo₁.ways_pos hle hfiner hall

theorem lru_inclusion_golden :
    ∃ s₁ s₂, s₁ = (run ((fresh .newestFirst (makeReplacement .LRU _ _), {}) :
        Cache BuiltinPolicy goldenGeometry × Memory) RandStream.zeros
        [⟨0, false⟩, ⟨16, true⟩, ⟨0, false⟩]).2.1 ∧
      s₂ = (run ((fresh .newestFirst (makeReplacement .LRU _ _), {}) :
        Cache BuiltinPolicy twoWayGeometry × Memory) RandStream.zeros
        [⟨0, false⟩, ⟨16, true⟩, ⟨0, false⟩]).2.1 ∧
      (∀ a, s₁.1.Resident a → s₂.1.Resident a) ∧ s₂.1.stats.misses ≤ s₁.1.stats.misses := by
  have h₁ := run_called ((fresh .newestFirst (makeReplacement .LRU _ _), {}) :
    Cache BuiltinPolicy goldenGeometry × Memory) RandStream.zeros [⟨0, false⟩, ⟨16, true⟩, ⟨0, false⟩]
  have h₂ := run_called ((fresh .newestFirst (makeReplacement .LRU _ _), {}) :
    Cache BuiltinPolicy twoWayGeometry × Memory) RandStream.zeros [⟨0, false⟩, ⟨16, true⟩, ⟨0, false⟩]
  obtain ⟨hresident, -, hmisses⟩ := lru_inclusion (by rfl) (by rfl) (by rfl) (by rfl) (by rfl)
    (by decide) (by decide) h₁ h₂
  exact ⟨_, _, rfl, rfl, hresident, hmisses⟩

end Cache

end CacheSim
