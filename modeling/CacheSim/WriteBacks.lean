import CacheSim.Inclusion

/-!
The dirty blocks of two LRU write-back caches, the second of which includes the first. Each write-back
of the second is paid for by one of the first, or by a block that only the second holds dirty.
-/

namespace CacheSim

open Service Recency

theorem sdiff_union_coupled {α : Type} [DecidableEq α] {D₁ D₂ out₁ out₂ W : Finset α} (hsub : D₁ ⊆ D₂)
    (hout : out₂ ⊆ D₂) (hgone : ∀ x ∈ out₂, x ∉ D₁ \ out₁) :
    (D₁ \ out₁) ∪ W ⊆ (D₂ \ out₂) ∪ W ∧
      out₂.card + (((D₂ \ out₂) ∪ W) \ ((D₁ \ out₁) ∪ W)).card ≤ out₁.card + (D₂ \ D₁).card := by
  constructor
  · apply Finset.union_subset_union_left
    intro x hx
    exact Finset.mem_sdiff.mpr ⟨hsub (Finset.mem_sdiff.mp hx).1, fun h => hgone x h hx⟩
  · have hpaid : out₂ ⊆ out₁ ∪ (D₂ \ D₁) := by
      intro x hx
      by_cases hx₁ : x ∈ D₁
      · apply Finset.mem_union_left
        by_contra hkept
        exact hgone x hx (Finset.mem_sdiff.mpr ⟨hx₁, hkept⟩)
      · exact Finset.mem_union_right _ (Finset.mem_sdiff.mpr ⟨hout hx, hx₁⟩)
    have hleft : ((D₂ \ out₂) ∪ W) \ ((D₁ \ out₁) ∪ W) ⊆ (out₁ ∪ (D₂ \ D₁)) \ out₂ := by
      intro x hx
      simp only [Finset.mem_sdiff, Finset.mem_union, not_or, not_and, not_not] at hx ⊢
      tauto
    calc out₂.card + (((D₂ \ out₂) ∪ W) \ ((D₁ \ out₁) ∪ W)).card
        ≤ out₂.card + ((out₁ ∪ (D₂ \ D₁)) \ out₂).card :=
          Nat.add_le_add_left (Finset.card_le_card hleft) _
      _ = (out₁ ∪ (D₂ \ D₁)).card := by
          rw [add_comm]
          exact Finset.card_sdiff_add_card_eq_card hpaid
      _ ≤ out₁.card + (D₂ \ D₁).card := Finset.card_union_le _ _

namespace Cache

variable {ε : Type} {ρ : ℕ → ℕ → Type} {geo : Geometry}

def dirtyBlocks (sets : Fin geo.sets → CacheSet geo.ways) : Finset UInt64 :=
  (Finset.univ.filter fun x : Fin geo.sets × Fin geo.ways => (sets x.1 x.2).dirty = true).image
    fun x => lineBlock sets x.1 x.2

theorem mem_dirtyBlocks {sets : Fin geo.sets → CacheSet geo.ways} {b : UInt64} :
    b ∈ dirtyBlocks sets ↔ ∃ s w, (sets s w).dirty = true ∧ lineBlock sets s w = b := by
  simp [dirtyBlocks]

theorem resident_of_dirty {c : Cache ρ geo} (hlines : LinesOk geo c.sets) (hreal : Addressed c.sets)
    {b : UInt64} (hb : b ∈ dirtyBlocks c.sets) : ∃ a, geo.blockOf a = b ∧ c.Resident a := by
  obtain ⟨s, w, hdirty, rfl⟩ := mem_dirtyBlocks.mp hb
  have hvalid := hlines.dirty_valid s w hdirty
  obtain ⟨a, rfl, htag⟩ := hreal s w hvalid
  exact ⟨a, (lineBlock_eq rfl htag).symm, w, hvalid, htag.symm⟩

theorem dirtyBlocks_putLine {sets : Fin geo.sets → CacheSet geo.ways} (hlines : LinesOk geo sets)
    (hreal : Addressed sets) (a : UInt64) (way : Fin geo.ways) {line : CacheLine}
    (htag : line.tag = geo.tagOf a) :
    dirtyBlocks (putLine sets (geo.setOf a) way line) =
      (dirtyBlocks sets \ if (sets (geo.setOf a) way).dirty = true
        then {lineBlock sets (geo.setOf a) way} else ∅) ∪
      if line.dirty = true then {geo.blockOf a} else ∅ := by
  have hnew : lineBlock (putLine sets (geo.setOf a) way line) (geo.setOf a) way = geo.blockOf a :=
    lineBlock_eq rfl (by rw [putLine_self, htag])
  have hkept : ∀ {s w}, ¬(s = geo.setOf a ∧ w = way) →
      putLine sets (geo.setOf a) way line s w = sets s w := fun h => by rw [putLine_apply, if_neg h]
  ext b
  rw [Finset.mem_union, Finset.mem_sdiff, mem_dirtyBlocks, mem_dirtyBlocks]
  constructor
  · rintro ⟨s, w, hdirty, hblock⟩
    by_cases hsw : s = geo.setOf a ∧ w = way
    · obtain ⟨rfl, rfl⟩ := hsw
      right
      rw [putLine_self] at hdirty
      rw [if_pos hdirty, Finset.mem_singleton, ← hblock, hnew]
    · left
      rw [lineBlock, hkept hsw] at hblock
      rw [hkept hsw] at hdirty
      refine ⟨⟨s, w, hdirty, hblock⟩, ?_⟩
      split_ifs with hold
      · intro hmem
        apply hsw
        exact lineBlock_inj hlines hreal (hlines.dirty_valid _ _ hdirty) (hlines.dirty_valid _ _ hold)
          (hblock.trans (Finset.mem_singleton.mp hmem))
      · exact Finset.notMem_empty b
  · rintro (⟨⟨s, w, hdirty, hblock⟩, hold⟩ | hmem)
    · have hsw : ¬(s = geo.setOf a ∧ w = way) := by
        rintro ⟨rfl, rfl⟩
        rw [if_pos hdirty] at hold
        exact hold (Finset.mem_singleton.mpr hblock.symm)
      refine ⟨s, w, ?_, ?_⟩
      · rwa [hkept hsw]
      · rw [lineBlock, hkept hsw]
        exact hblock
    · split_ifs at hmem with hdirty
      · refine ⟨geo.setOf a, way, by rwa [putLine_self], ?_⟩
        rw [hnew, Finset.mem_singleton.mp hmem]
      · exact absurd hmem (Finset.notMem_empty b)

theorem overwritten {sets : Fin geo.sets → CacheSet geo.ways} (hlines : LinesOk geo sets)
    (hreal : Addressed sets) {a x : UInt64} {way : Fin geo.ways} {line : CacheLine}
    (htag : line.tag = geo.tagOf a) (hmiss : findWay (sets (geo.setOf a)) (geo.tagOf a) = none)
    (hvalid : (sets (geo.setOf a) way).valid = true)
    (hx : geo.blockOf x = lineBlock sets (geo.setOf a) way) (w : Fin geo.ways)
    (hv : (putLine sets (geo.setOf a) way line (geo.setOf x) w).valid = true) :
    (putLine sets (geo.setOf a) way line (geo.setOf x) w).tag ≠ geo.tagOf x := by
  obtain ⟨y, hy, hytag⟩ := hreal _ way hvalid
  rw [lineBlock_eq hy hytag, geo.blockOf_eq_iff, hy, hytag] at hx
  obtain ⟨hset, hxtag⟩ := hx
  have hother := findWay_eq_none.mp hmiss way hvalid
  rw [hset, hxtag]
  rw [hset] at hv
  by_cases hw : w = way
  · subst hw
    rw [putLine_self, htag]
    exact Ne.symm hother
  · rw [putLine_apply, if_neg fun h => hw h.2] at hv ⊢
    exact fun h => hw (hlines.tags_unique _ w way hv hvalid h)

theorem Step.dirty [ReplacementPolicy ε ρ] (hWB : geo.cfg.writePolicy = .WriteBack)
    (hWA : geo.cfg.allocPolicy = .WriteAllocate) {c c' : Cache ρ geo} {r : Request} {b : Bool}
    {calls : List Request} (hstep : Step ε c r b calls c') (hlines : LinesOk geo c.sets)
    (hreal : Addressed c.sets) :
    ∃ out ⊆ dirtyBlocks c.sets, c'.stats.writebacks = c.stats.writebacks + out.card ∧
      (∀ a, geo.blockOf a ∈ out → ¬c'.Resident a) ∧
      dirtyBlocks c'.sets =
        (dirtyBlocks c.sets \ out) ∪ if r.isWrite = true then {geo.blockOf r.addr} else ∅ := by
  cases hstep with
  | hit w e hw =>
    obtain ⟨hvalid, htag⟩ := findWay_eq_some hw
    refine ⟨∅, Finset.empty_subset _, afterHit_writebacks c r w _, by simp, ?_⟩
    unfold afterHit
    dsimp only
    by_cases hr : r.isWrite = true
    · have hmarked : ({ c.sets (geo.setOf r.addr) w with dirty := true } : CacheLine).tag =
          geo.tagOf r.addr := htag
      have hput := dirtyBlocks_putLine hlines hreal r.addr w hmarked
      rw [if_pos ⟨hr, hWB⟩, hput, if_pos hr, if_pos rfl, lineBlock_eq rfl htag.symm, Finset.sdiff_empty]
      split_ifs
      · exact Finset.sdiff_union_self_eq_union
      · rw [Finset.sdiff_empty]
    · rw [if_neg fun h => hr h.1, if_neg hr, Finset.sdiff_empty, Finset.union_empty]
  | around hw hr ha =>
    rw [hWA] at ha
    cases ha
  | fill e e' hw ha =>
    have hput := dirtyBlocks_putLine hlines hreal r.addr (c.pickWay e (geo.setOf r.addr)).1
      (show (filledLine geo r).tag = geo.tagOf r.addr from rfl)
    have hstore : (filledLine geo r).dirty = r.isWrite := by simp [filledLine, hWB]
    rw [hstore] at hput
    refine ⟨_, ?_, ?_, ?_, hput⟩
    · split_ifs with hd
      · exact Finset.singleton_subset_iff.mpr (mem_dirtyBlocks.mpr ⟨_, _, hd, rfl⟩)
      · exact Finset.empty_subset _
    · simp only [afterFill, missed_writebacks]
      congr 1
      by_cases hd : (c.sets (geo.setOf r.addr) (c.pickWay e (geo.setOf r.addr)).1).dirty = true
      · rw [if_pos hd, if_pos ⟨hlines.dirty_valid _ _ hd, hd, hWB⟩, Finset.card_singleton]
      · rw [if_neg hd, if_neg fun h => hd h.2.1, Finset.card_empty]
    · intro a ha'
      split_ifs at ha' with hd
      · rintro ⟨w, hv, ht⟩
        exact overwritten hlines hreal rfl hw (hlines.dirty_valid _ _ hd) (Finset.mem_singleton.mp ha') w
          hv ht
      · exact absurd ha' (Finset.notMem_empty _)

section

variable {σ₁ σ₂ : Type} [MemoryLevel RandStream σ₁] [MemoryLevel RandStream σ₂] {geo₁ geo₂ : Geometry}

/-- Two caches after the same accesses `h`: the second keeps dirty what the first does, and its
write-backs and the blocks dirty there only are within the write-backs of the first. -/
structure Coupled (c₁ : Cache BuiltinPolicy geo₁) (c₂ : Cache BuiltinPolicy geo₂)
    (h : List (UInt64 × Bool)) : Prop where
  recent₁ : c₁.Recent h
  recent₂ : c₂.Recent h
  all : ∀ x ∈ h, x.2 = true
  lines₁ : c₁.WellFormed
  lines₂ : c₂.WellFormed
  dirty : dirtyBlocks c₁.sets ⊆ dirtyBlocks c₂.sets
  paid : c₂.stats.writebacks + (dirtyBlocks c₂.sets \ dirtyBlocks c₁.sets).card ≤ c₁.stats.writebacks

theorem Coupled.step (hWB₁ : geo₁.cfg.writePolicy = .WriteBack) (hWB₂ : geo₂.cfg.writePolicy = .WriteBack)
    (hWA₁ : geo₁.cfg.allocPolicy = .WriteAllocate) (hWA₂ : geo₂.cfg.allocPolicy = .WriteAllocate)
    (hblock : geo₁.cfg.blockSize = geo₂.cfg.blockSize) (hsets : geo₁.numSets ≤ geo₂.numSets)
    (hways : geo₁.cfg.associativity ≤ geo₂.cfg.associativity) {c₁ c₁' : Cache BuiltinPolicy geo₁}
    {c₂ c₂' : Cache BuiltinPolicy geo₂} {h : List (UInt64 × Bool)} (hc : Coupled c₁ c₂ h) {r : Request}
    {b₁ b₂ : Bool} {calls₁ calls₂ : List Request} (h₁ : Step RandStream c₁ r b₁ calls₁ c₁')
    (h₂ : Step RandStream c₂ r b₂ calls₂ c₂') :
    Coupled c₁' c₂' ((geo₁.blockOf r.addr, true) :: h) := by
  have hrecent₁ := hc.recent₁.step h₁
  have hrecent₂ := hc.recent₂.step h₂
  rw [show installs geo₁ r = true by simp [installs, hWA₁]] at hrecent₁
  rw [show installs geo₂ r = true by simp [installs, hWA₂], ← Geometry.blockOf_congr hblock] at hrecent₂
  have hall : ∀ x ∈ (geo₁.blockOf r.addr, true) :: h, x.2 = true :=
    List.forall_mem_cons.mpr ⟨rfl, hc.all⟩
  have hlines₁ := h₁.wellFormed hc.lines₁
  obtain ⟨out₁, -, hwb₁, -, hdirty₁⟩ := h₁.dirty hWB₁ hWA₁ hc.lines₁.lines hc.recent₁.real
  obtain ⟨out₂, hout₂, hwb₂, hgone₂, hdirty₂⟩ := h₂.dirty hWB₂ hWA₂ hc.lines₂.lines hc.recent₂.real
  -- what the second cache drops is not in the first any more, so it is not dirty there
  have hgone : ∀ x ∈ out₂, x ∉ dirtyBlocks c₁.sets \ out₁ := by
    intro x hx hkept
    have hmem : x ∈ dirtyBlocks c₁'.sets := by
      rw [hdirty₁]
      exact Finset.mem_union_left _ hkept
    obtain ⟨a, rfl, hres⟩ := resident_of_dirty hlines₁.lines hrecent₁.real hmem
    rw [Geometry.blockOf_congr hblock] at hx
    exact hgone₂ a hx (hrecent₁.included hblock hsets hways hrecent₂ hall hres)
  obtain ⟨hsub, hcard⟩ := sdiff_union_coupled
    (W := if r.isWrite = true then {geo₁.blockOf r.addr} else ∅) hc.dirty hout₂ hgone
  rw [← Geometry.blockOf_congr hblock] at hdirty₂
  rw [← hdirty₁, ← hdirty₂] at hsub hcard
  refine ⟨hrecent₁, hrecent₂, hall, hlines₁, h₂.wellFormed hc.lines₂, hsub, ?_⟩
  have hpaid := hc.paid
  omega

theorem fresh_coupled (hLRU₁ : geo₁.cfg.replacement = .LRU) (hLRU₂ : geo₂.cfg.replacement = .LRU)
    (order₁ order₂ : HashOrder UInt64 ℕ) :
    Coupled (fresh order₁ (makeReplacement geo₁.cfg.replacement geo₁.sets geo₁.ways))
      (fresh order₂ (makeReplacement geo₂.cfg.replacement geo₂.sets geo₂.ways)) [] := by
  have hclean : ∀ {geo : Geometry} (order : HashOrder UInt64 ℕ),
      dirtyBlocks (fresh order (makeReplacement geo.cfg.replacement geo.sets geo.ways)).sets = ∅ := by
    intro geo order
    simp [dirtyBlocks, fresh]
  refine ⟨fresh_recent order₁ hLRU₁, fresh_recent order₂ hLRU₂, by simp, fresh_wellFormed order₁ _,
    fresh_wellFormed order₂ _, ?_, ?_⟩
  · rw [hclean, hclean]
  · rw [hclean, hclean]
    exact le_rfl

theorem lru_writebacks_growth (hLRU₁ : geo₁.cfg.replacement = .LRU) (hLRU₂ : geo₂.cfg.replacement = .LRU)
    (hWB₁ : geo₁.cfg.writePolicy = .WriteBack) (hWB₂ : geo₂.cfg.writePolicy = .WriteBack)
    (hWA₁ : geo₁.cfg.allocPolicy = .WriteAllocate) (hWA₂ : geo₂.cfg.allocPolicy = .WriteAllocate)
    (hblock : geo₁.cfg.blockSize = geo₂.cfg.blockSize) (hsets : geo₁.numSets ≤ geo₂.numSets)
    (hways : geo₁.cfg.associativity ≤ geo₂.cfg.associativity) {order₁ order₂ : HashOrder UInt64 ℕ}
    {next₁ : σ₁} {next₂ : σ₂} {reqs : List Request} {s₁ : Cache BuiltinPolicy geo₁ × σ₁}
    {s₂ : Cache BuiltinPolicy geo₂ × σ₂}
    (h₁ : Called RandStream
      (fresh order₁ (makeReplacement geo₁.cfg.replacement geo₁.sets geo₁.ways), next₁) reqs s₁)
    (h₂ : Called RandStream
      (fresh order₂ (makeReplacement geo₂.cfg.replacement geo₂.sets geo₂.ways), next₂) reqs s₂) :
    s₂.1.stats.writebacks ≤ s₁.1.stats.writebacks := by
  have hstep : ∀ (s : Cache BuiltinPolicy geo₁ × σ₁) (t : Cache BuiltinPolicy geo₂ × σ₂)
      (e e' : RandStream) r, (∃ h, Coupled s.1 t.1 h) → ∃ h, Coupled (serve s e r).2.1.1 (serve t e' r).2.1.1 h := by
    rintro ⟨c₁, n₁⟩ ⟨c₂, n₂⟩ e e' r ⟨h, hc⟩
    obtain ⟨calls₁, hstep₁, -⟩ := access_step c₁ n₁ e r
    obtain ⟨calls₂, hstep₂, -⟩ := access_step c₂ n₂ e' r
    exact ⟨_, hc.step hWB₁ hWB₂ hWA₁ hWA₂ hblock hsets hways hstep₁ hstep₂⟩
  obtain ⟨h, hc⟩ := h₁.related (P := fun s t => ∃ h, Coupled s.1 t.1 h) hstep h₂
    ⟨[], fresh_coupled hLRU₁ hLRU₂ order₁ order₂⟩
  have hpaid := hc.paid
  omega

theorem lru_writebacks_growth_golden :
    ∃ s₁ s₂, s₁ = (run ((fresh .newestFirst (makeReplacement .LRU _ _), {}) :
        Cache BuiltinPolicy goldenGeometry × Memory) RandStream.zeros
        [⟨0, true⟩, ⟨16, true⟩, ⟨0, false⟩]).2.1 ∧
      s₂ = (run ((fresh .newestFirst (makeReplacement .LRU _ _), {}) :
        Cache BuiltinPolicy twoWayGeometry × Memory) RandStream.zeros
        [⟨0, true⟩, ⟨16, true⟩, ⟨0, false⟩]).2.1 ∧
      s₂.1.stats.writebacks ≤ s₁.1.stats.writebacks := by
  have h₁ := run_called ((fresh .newestFirst (makeReplacement .LRU _ _), {}) :
    Cache BuiltinPolicy goldenGeometry × Memory) RandStream.zeros [⟨0, true⟩, ⟨16, true⟩, ⟨0, false⟩]
  have h₂ := run_called ((fresh .newestFirst (makeReplacement .LRU _ _), {}) :
    Cache BuiltinPolicy twoWayGeometry × Memory) RandStream.zeros [⟨0, true⟩, ⟨16, true⟩, ⟨0, false⟩]
  exact ⟨_, _, rfl, rfl, lru_writebacks_growth (by rfl) (by rfl) (by rfl) (by rfl) (by rfl) (by rfl)
    (by rfl) (by decide) (by decide) h₁ h₂⟩

end

end Cache

end CacheSim
