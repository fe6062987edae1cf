import CacheSim.Hierarchy

namespace CacheSim

open Service

namespace Cache

variable {ε σ : Type} {ρ : ℕ → ℕ → Type} {geo : Geometry}

structure LinesOk (geo : Geometry) (sets : Fin geo.sets → CacheSet geo.ways) : Prop where
  tags_unique : ∀ s w w', (sets s w).valid = true → (sets s w').valid = true →
    (sets s w).tag = (sets s w').tag → w = w'
  valid_prefix : ∀ s w w', w' ≤ w → (sets s w).valid = true → (sets s w').valid = true
  dirty_valid : ∀ s w, (sets s w).dirty = true → (sets s w).valid = true
  writeThrough_clean : geo.cfg.writePolicy = .WriteThrough → ∀ s w, (sets s w).dirty = false

structure WellFormed (c : Cache ρ geo) : Prop where
  lines : LinesOk geo c.sets
  counted : c.stats.hits + c.stats.misses = c.stats.accesses
  classified : geo.cfg.classify3C = true → c.refFA.isSome = true ∧
    c.stats.compulsory + c.stats.capacity + c.stats.conflict = c.stats.misses ∧
    c.stats.compulsory = c.seen.card

theorem fresh_wellFormed (order : HashOrder UInt64 ℕ) (repl : ρ geo.sets geo.ways) :
    (fresh order repl).WellFormed where
  lines := by constructor <;> simp [fresh]
  counted := rfl
  classified := by
    intro h
    simp [fresh, h]

theorem LinesOk.markDirty {sets : Fin geo.sets → CacheSet geo.ways} (h : LinesOk geo sets)
    (hp : geo.cfg.writePolicy = .WriteBack) {set : Fin geo.sets} {way : Fin geo.ways}
    (hvalid : (sets set way).valid = true) :
    LinesOk geo (putLine sets set way { sets set way with dirty := true }) := by
  have hline : ∀ s w, (putLine sets set way { sets set way with dirty := true } s w).valid =
      (sets s w).valid ∧ (putLine sets set way { sets set way with dirty := true } s w).tag =
      (sets s w).tag := by
    intro s w
    rw [putLine_apply]
    split_ifs with hsw
    · obtain ⟨rfl, rfl⟩ := hsw
      exact ⟨rfl, rfl⟩
    · exact ⟨rfl, rfl⟩
  constructor
  · intro s w w'
    rw [(hline s w).1, (hline s w').1, (hline s w).2, (hline s w').2]
    exact h.tags_unique s w w'
  · intro s w w'
    rw [(hline s w).1, (hline s w').1]
    exact h.valid_prefix s w w'
  · intro s w hdirty
    rw [(hline s w).1]
    rw [putLine_apply] at hdirty
    split_ifs at hdirty with hsw
    · obtain ⟨rfl, rfl⟩ := hsw
      exact hvalid
    · exact h.dirty_valid s w hdirty
  · intro ht
    rw [hp] at ht
    cases ht

theorem update_tags_unique {A : ℕ} {lines : CacheSet A} {line : CacheLine} (way : Fin A)
    (hunique : ∀ w w', (lines w).valid = true → (lines w').valid = true →
      (lines w).tag = (lines w').tag → w = w')
    (habsent : ∀ w, (lines w).valid = true → (lines w).tag ≠ line.tag) (w w' : Fin A) :
    (Function.update lines way line w).valid = true →
      (Function.update lines way line w').valid = true →
      (Function.update lines way line w).tag = (Function.update lines way line w').tag → w = w' := by
  by_cases hw : w = way
  · by_cases hw' : w' = way
    · intro _ _ _
      rw [hw, hw']
    · rw [hw, Function.update_self, Function.update_of_ne hw']
      intro _ hv' ht
      exact absurd ht.symm (habsent w' hv')
  · by_cases hw' : w' = way
    · rw [hw', Function.update_self, Function.update_of_ne hw]
      intro hv _ ht
      exact absurd ht (habsent w hv)
    · rw [Function.update_of_ne hw, Function.update_of_ne hw']
      exact hunique w w'

theorem update_valid_prefix {A : ℕ} {lines : CacheSet A} {line : CacheLine} {way : Fin A}
    (hfront : ∀ w w', w' ≤ w → (lines w).valid = true → (lines w').valid = true)
    (hpick : emptyWay lines = some way ∨ emptyWay lines = none) (hvalid : line.valid = true)
    {w w' : Fin A} (hle : w' ≤ w) (hw : (Function.update lines way line w).valid = true) :
    (Function.update lines way line w').valid = true := by
  -- every way before the filled one was valid already
  have hbefore : ∀ x < way, (lines x).valid = true := by
    intro x hlt
    rcases hpick with hempty | hfull
    · exact (emptyWay_eq_some hempty).2 x hlt
    · exact emptyWay_eq_none.mp hfull x
  by_cases hw' : w' = way
  · rw [hw', Function.update_self]
    exact hvalid
  · rw [Function.update_of_ne hw']
    by_cases hfilled : w = way
    · subst hfilled
      exact hbefore w' (lt_of_le_of_ne hle hw')
    · rw [Function.update_of_ne hfilled] at hw
      exact hfront w w' hle hw

theorem LinesOk.fill {sets : Fin geo.sets → CacheSet geo.ways} (h : LinesOk geo sets) (r : Request)
    {way : Fin geo.ways} (hmiss : findWay (sets (geo.setOf r.addr)) (geo.tagOf r.addr) = none)
    (hpick : emptyWay (sets (geo.setOf r.addr)) = some way ∨ emptyWay (sets (geo.setOf r.addr)) = none) :
    LinesOk geo (putLine sets (geo.setOf r.addr) way (filledLine geo r)) := by
  constructor
  · intro s
    by_cases hs : s = geo.setOf r.addr
    · subst hs
      rw [putLine_same]
      exact update_tags_unique way (h.tags_unique _) (findWay_eq_none.mp hmiss)
    · rw [putLine_other hs]
      exact h.tags_unique s
  · intro s w w' hle
    by_cases hs : s = geo.setOf r.addr
    · subst hs
      rw [putLine_same]
      exact update_valid_prefix (h.valid_prefix _) hpick rfl hle
    · rw [putLine_other hs]
      exact h.valid_prefix s w w' hle
  · intro s w
    rw [putLine_apply]
    split_ifs with hsw
    · exact fun _ => rfl
    · exact h.dirty_valid s w
  · intro ht s w
    rw [putLine_apply]
    split_ifs with hsw
    · simp [filledLine, ht]
    · exact h.writeThrough_clean ht s w

theorem missed_classified {c : Cache ρ geo} (r : Request) (hc : c.refFA.isSome = true)
    (hsum : c.stats.compulsory + c.stats.capacity + c.stats.conflict = c.stats.misses)
    (hseen : c.stats.compulsory = c.seen.card) :
    (c.missed r).stats.compulsory + (c.missed r).stats.capacity + (c.missed r).stats.conflict =
        (c.missed r).stats.misses ∧ (c.missed r).stats.compulsory = (c.missed r).seen.card := by
  obtain ⟨f, hf⟩ := Option.isSome_iff_exists.mp hc
  obtain ⟨hinsert, hcompulsory, hconflict, hcapacity⟩ := missed_verdict c r hf
  have hmisses := (missed_counters c r).2.2.1
  rw [hinsert, hcompulsory, hconflict, hcapacity, hmisses]
  by_cases hb : geo.blockOf r.addr ∈ c.seen
  · rw [Finset.insert_eq_of_mem hb]
    cases (f.touch (geo.blockOf r.addr)).1 <;> simp [hb] <;> omega
  · rw [Finset.card_insert_of_notMem hb]
    simp [hb]
    omega

theorem Step.wellFormed [ReplacementPolicy ε ρ] {c c' : Cache ρ geo} {r : Request} {b : Bool}
    {calls : List Request} (h : Step ε c r b calls c') (hc : c.WellFormed) : c'.WellFormed := by
  have hcounted : c'.stats.hits + c'.stats.misses = c'.stats.accesses := by
    obtain ⟨h1, h2, h3, -⟩ := h.counters
    have hold := hc.counted
    cases b <;> simp at h2 h3 <;> omega
  cases h with
  | hit w e hw =>
    refine ⟨?_, hcounted, ?_⟩
    · unfold afterHit
      split_ifs with hwrite
      · exact hc.lines.markDirty hwrite.2 (findWay_eq_some hw).1
      · exact hc.lines
    · intro h3C
      obtain ⟨hsome, hsum, hseen⟩ := hc.classified h3C
      obtain ⟨h1, h2, h3, h4, h5, -⟩ := afterHit_verdicts c r w
        (ReplacementPolicy.onAccess c.repl e (geo.setOf r.addr) w).1
      rw [h1, h2, h3, h4, h5]
      exact ⟨by simpa [afterHit] using hsome, hsum, hseen⟩
  | around hw hr ha =>
    refine ⟨by rw [missed_sets]; exact hc.lines, hcounted, ?_⟩
    intro h3C
    obtain ⟨hsome, hsum, hseen⟩ := hc.classified h3C
    exact ⟨by simpa using hsome, missed_classified r hsome hsum hseen⟩
  | fill e e' hw ha =>
    refine ⟨hc.lines.fill r hw (pickWay_spec c e _), hcounted, ?_⟩
    intro h3C
    obtain ⟨hsome, hsum, hseen⟩ := hc.classified h3C
    exact ⟨by simpa [afterFill] using hsome, missed_classified r hsome hsum hseen⟩

theorem WellFormed.checkInvariants {c : Cache ρ geo} (h : c.WellFormed) :
    c.checkInvariants = true := by
  have hlines : ((List.finRange geo.sets).flatMap fun s => (List.finRange geo.ways).flatMap fun w =>
      if (c.sets s w).dirty = true ∧ (c.sets s w).valid = false then
        ["INVARIANT VIOLATED: line dirty && !valid at set " ++ toString s.val ++ " way " ++
          toString w.val ++ "\n"]
      else []) = [] := by
    simp only [List.flatMap_eq_nil_iff, List.mem_finRange, forall_const]
    intro s w
    apply if_neg
    rintro ⟨hdirty, hinvalid⟩
    rw [h.lines.dirty_valid s w hdirty] at hinvalid
    cases hinvalid
  simp only [Cache.checkInvariants, violations, hlines, h.counted]
  by_cases h3C : geo.cfg.classify3C = true
  · obtain ⟨-, hsum, hseen⟩ := h.classified h3C
    simp only [hsum, if_neg (not_not_intro hseen), if_neg (not_not_intro rfl), if_pos h3C]
    rfl
  · simp [h3C]

end Cache

namespace CacheHierarchy

variable {ε : Type} {ρ : ℕ → ℕ → Type} [ReplacementPolicy ε ρ]

theorem levels_wellFormed (order : HashOrder UInt64 ℕ) (make : Chain.Policies ρ) (geos : List Geometry)
    {μ : Type} [MemoryLevel ε μ] (mem : μ) (e : ε) (reqs : List Request) :
    ∀ c ∈ (run (Chain.fresh order make mem geos) e reqs).2.1.caches, c.2.WellFormed := by
  refine (run_serves _ e reqs).invariant (P := fun s : Chain ρ μ geos =>
    ∀ c ∈ s.caches, c.2.WellFormed) ?_ ?_
  · exact Chain.caches_invariant (fun geo c r b calls c' h hc => h.wellFormed hc) geos
  · exact Chain.caches_fresh (fun n geo => Cache.fresh_wellFormed order (make n geo)) geos

theorem reachable_wellFormed {order : HashOrder UInt64 ℕ} {make : Chain.Policies ρ}
    {cfgs : List CacheConfig} {memTime : ℚ} {h : CacheHierarchy ρ}
    (hok : new order make cfgs memTime = .ok h) (e : ε) (trace : List Access) :
    (∀ c ∈ (h.feedAll e trace).1.levels.caches, c.2.WellFormed ∧ ∀ addr,
        (c.1.decode addr).setIndex.toNat < c.1.sets ∧
        (∀ w, c.2.wayOf addr = some w → w.val < c.1.ways) ∧
        ∀ e' : ε, (c.2.pickWay e' (c.1.setOf addr)).1.val < c.1.ways) ∧
      (h.feedAll e trace).1.checkInvariants = true ∧ h.simulate e trace = 0 := by
  obtain ⟨-, hfresh⟩ := new_ok hok
  have hlevels : ∀ c ∈ (h.feedAll e trace).1.levels.caches, c.2.WellFormed := by
    rw [hfresh, feedAll_eq]
    exact levels_wellFormed order make _ _ e _
  have hcheck : (h.feedAll e trace).1.checkInvariants = true := by
    rw [checkInvariants, List.all_eq_true]
    exact fun c hc => (hlevels c hc).checkInvariants
  refine ⟨fun c hc => ⟨hlevels c hc, fun addr => ⟨c.1.setIndex_lt addr, ?_, ?_⟩⟩, hcheck, ?_⟩
  · exact fun w _ => w.isLt
  · exact fun e' => (c.2.pickWay e' (c.1.setOf addr)).1.isLt
  · rw [simulate, if_pos hcheck]

theorem reachable_wellFormed_golden :
    ∃ h : CacheHierarchy BuiltinPolicy,
      new .newestFirst builtinPolicies [golden] 100 = .ok h ∧
      h.simulate RandStream.zeros [⟨.Read, 0, 4⟩, ⟨.Write, 16, 4⟩, ⟨.Modify, 0, 4⟩] = 0 := by
  have hok : new .newestFirst builtinPolicies [golden] 100 =
      .ok (fresh .newestFirst builtinPolicies goldenGeometry [] 100) := rfl
  exact ⟨_, hok, (reachable_wellFormed hok _ _).2.2⟩

end CacheHierarchy

end CacheSim
