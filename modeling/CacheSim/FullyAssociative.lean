import CacheSim.Classification
import CacheSim.LRUStack

namespace CacheSim

open Service Recency Stamps

variable {geo : Geometry}

def FullyAssociative (geo : Geometry) : Prop :=
  geo.numSets = 1 ∧ geo.cfg.associativity = geo.cfg.sizeBytes / geo.cfg.blockSize

instance (geo : Geometry) : Decidable (FullyAssociative geo) := inferInstanceAs (Decidable (_ ∧ _))

namespace FullyAssociative

theorem ways_eq (h : FullyAssociative geo) : geo.ways = geo.totalLines := by
  rw [Geometry.ways, Geometry.totalLines, h.2]

theorem set_eq (h : FullyAssociative geo) (s t : Fin geo.sets) : s = t := by
  have hsets : geo.sets = 1 := by
    rw [Geometry.sets, h.1]
    rfl
  apply Fin.ext
  omega

theorem inSet_eq (h : FullyAssociative geo) (s : Fin geo.sets) (l : List (UInt64 × Bool)) :
    Cache.inSet geo s l = l :=
  List.filter_eq_self.mpr fun _ _ => decide_eq_true (h.set_eq _ _)

theorem held_iff (h : FullyAssociative geo) (l : List (UInt64 × Bool)) (b : UInt64) :
    Held geo.ways geo.setOfBlock l b ↔ b ∈ stack geo.ways l := by
  change b ∈ stack geo.ways (Cache.inSet geo (geo.setOfBlock b) l) ↔ _
  rw [h.inSet_eq]

end FullyAssociative

namespace Cache

variable {σ : Type} [MemoryLevel RandStream σ]

structure Judging (c : Cache BuiltinPolicy geo) (past : List Request) : Prop where
  recent : c.Recent (past.map fun r => (geo.blockOf r.addr, installs geo r))
  classified : c.Classified (past.map fun r => geo.blockOf r.addr)
  conflict_iff : c.stats.conflict = 0 ↔ ∀ new r old, past = new ++ r :: old →
    ¬Shadowed geo.ways (old.map fun r => (geo.blockOf r.addr, installs geo r)) (geo.blockOf r.addr)

theorem Judging.step (hFA : FullyAssociative geo) {c c' : Cache BuiltinPolicy geo}
    {past : List Request} {r : Request} {b : Bool} {calls : List Request} (hc : c.Judging past)
    (h : Step RandStream c r b calls c') : c'.Judging (r :: past) where
  recent := hc.recent.step h
  classified := hc.classified.step h
  conflict_iff := by
    obtain ⟨-, hconflict, -⟩ := hc.classified.judged h
    have hblocks : (past.map fun r => (geo.blockOf r.addr, installs geo r)).map Prod.fst =
        past.map fun r => geo.blockOf r.addr := by
      rw [List.map_map]
      rfl
    have hmoves : (!b && decide (verdict geo.totalLines (past.map fun r => geo.blockOf r.addr)
        (geo.blockOf r.addr) = .conflict)) = true ↔
        Shadowed geo.ways (past.map fun r => (geo.blockOf r.addr, installs geo r))
          (geo.blockOf r.addr) := by
      rw [shadowed_iff geo.ways_pos, hblocks, ← hFA.held_iff, ← hc.recent.resident_iff, ← h.hit_iff,
        hFA.ways_eq, verdict, Bool.and_eq_true, Bool.not_eq_true', decide_eq_true_iff,
        Bool.not_eq_true]
      apply and_congr_right'
      by_cases hpast : geo.blockOf r.addr ∈ past.map fun r => geo.blockOf r.addr
      · rw [if_neg (not_not_intro hpast)]
        split_ifs with hfew <;> simp [hpast, hfew]
      · simp [hpast]
    rw [hconflict]
    constructor
    · intro hzero new r' old hsplit
      rcases List.cons_eq_append_iff.mp hsplit with ⟨-, hcons⟩ | ⟨new', -, hpast⟩
      · obtain ⟨rfl, rfl⟩ := List.cons.inj hcons
        rw [← hmoves]
        intro htrue
        rw [htrue] at hzero
        simp at hzero
      · exact hc.conflict_iff.mp (by omega) new' r' old hpast
    · intro hall
      have hold := hc.conflict_iff.mpr fun new r' old hpast =>
        hall (r :: new) r' old (by rw [hpast]; rfl)
      have hnow := mt hmoves.mp (hall [] r past rfl)
      rw [hold, Bool.eq_false_iff.mpr hnow]
      rfl

theorem called_judging (hFA : FullyAssociative geo) (hLRU : geo.cfg.replacement = .LRU)
    (h3C : geo.cfg.classify3C = true) {order : HashOrder UInt64 ℕ} {next : σ} {reqs : List Request}
    {s : Cache BuiltinPolicy geo × σ}
    (hcalled : Called RandStream
      (fresh order (makeReplacement geo.cfg.replacement geo.sets geo.ways), next) reqs s) :
    s.1.Judging reqs.reverse := by
  obtain ⟨es, rfl, hes⟩ := hcalled
  have hinit : (fresh order (makeReplacement geo.cfg.replacement geo.sets geo.ways)).Judging [] :=
    ⟨fresh_recent order hLRU, fresh_classified order _ h3C, by simp [fresh]⟩
  have hstep : ∀ past (s : Cache BuiltinPolicy geo × σ) (e : RandStream) r,
      s.1.Judging (past.map Prod.fst) →
      (serve s e r).2.1.1.Judging (((r, (serve s e r).1) :: past).map Prod.fst) := by
    rintro past ⟨c, next⟩ e r hc
    obtain ⟨calls, hstep, -⟩ := access_step c next e r
    exact hc.step hFA hstep
  have hrun := hes.history_nil (P := fun past s => s.1.Judging (past.map Prod.fst)) hstep hinit
  rwa [List.map_reverse] at hrun

theorem Stacked.same_order {p : LRUPolicy geo.sets geo.ways} {sets : Fin geo.sets → CacheSet geo.ways}
    {set : Fin geo.sets} {ws : List (Fin geo.ways)} {l : List UInt64} {f : RefFACache}
    (h : Stacked p sets set ws l) (hf : f.Represents l) {w w' : Fin geo.ways} {x y : UInt64 × ℕ}
    (hw : (sets set w).valid = true) (hw' : (sets set w').valid = true)
    (hx : x ∈ f.lastUsed.entries) (hy : y ∈ f.lastUsed.entries)
    (hwx : lineBlock sets set w = x.1) (hwy : lineBlock sets set w' = y.1) :
    p.lastUsed set w < p.lastUsed set w' ↔ x.2 < y.2 := by
  obtain ⟨hnodup, es, hperm, hranked, hkeys⟩ := hf
  have hsame : ws.map (lineBlock sets set) = es.map Prod.fst := by rw [h.blocks, hkeys]
  rw [← h.blocks] at hnodup
  exact h.ranked.lt_iff_lt hranked hsame hnodup ((h.valid_iff w).mpr hw) ((h.valid_iff w').mpr hw')
    (hperm.mem_iff.mpr hx) (hperm.mem_iff.mpr hy) hwx hwy

theorem bisimilar (hFA : FullyAssociative geo) (hLRU : geo.cfg.replacement = .LRU)
    (hWA : geo.cfg.allocPolicy = .WriteAllocate) (h3C : geo.cfg.classify3C = true)
    {order : HashOrder UInt64 ℕ} {next : σ} {reqs : List Request} {s : Cache BuiltinPolicy geo × σ}
    (hcalled : Called RandStream
      (fresh order (makeReplacement geo.cfg.replacement geo.sets geo.ways), next) reqs s) :
    ∃ f p, s.1.refFA = some f ∧ s.1.repl = .lru p ∧
      {b | ∃ a, s.1.Resident a ∧ geo.blockOf a = b} = {b | f.lastUsed.contains b = true} ∧
      (∀ set w w', (s.1.sets set w).valid = true → (s.1.sets set w').valid = true →
        ∀ x ∈ f.lastUsed.entries, ∀ y ∈ f.lastUsed.entries,
          lineBlock s.1.sets set w = x.1 → lineBlock s.1.sets set w' = y.1 →
          (p.lastUsed set w < p.lastUsed set w' ↔ x.2 < y.2)) ∧
      (∀ (e : RandStream) (r : Request), (serve s e r).1 = (f.touch (geo.blockOf r.addr)).1) ∧
      s.1.stats.conflict = 0 := by
  have hjudging := called_judging hFA hLRU h3C hcalled
  have hrefs : ∀ past : List Request, past.map (fun r => (geo.blockOf r.addr, installs geo r)) =
      (past.map fun r => geo.blockOf r.addr).map (·, true) := by
    intro past
    rw [List.map_map]
    apply List.map_congr_left
    intro r _
    simp [installs, hWA]
  obtain ⟨f, hf, hcap, hrep⟩ := hjudging.classified.shadow
  obtain ⟨p, hp, hst⟩ := hjudging.recent.stacked
  set l := stack geo.totalLines ((reqs.reverse.map fun r => geo.blockOf r.addr).map (·, true)) with hl
  have hresident : ∀ a, s.1.Resident a ↔ geo.blockOf a ∈ l := by
    intro a
    rw [hjudging.recent.resident_iff, hFA.held_iff, hFA.ways_eq, hrefs]
  have hhit : ∀ b, (f.touch b).1 = decide (b ∈ l) := by
    intro b
    exact (hrep.touch (by rw [hcap]; exact stack_length_le _ _)
      (by rw [hcap]; exact geo.totalLines_pos) b).1
  refine ⟨f, p, hf, hp, ?_, ?_, ?_, ?_⟩
  · ext b
    rw [Set.mem_ofPred_eq, Set.mem_ofPred_eq, hrep.contains_iff]
    constructor
    · rintro ⟨a, ha, rfl⟩
      exact (hresident a).mp ha
    · intro hb
      have hpast := stack_subset hb
      rw [List.map_map, List.map_map, List.mem_map] at hpast
      obtain ⟨r, -, rfl⟩ := hpast
      exact ⟨r.addr, (hresident r.addr).mpr hb, rfl⟩
  · intro set w w' hw hw' x hx y hy hwx hwy
    obtain ⟨ws, hws⟩ := hst set
    rw [hFA.inSet_eq, hFA.ways_eq, hrefs] at hws
    exact hws.same_order hrep hw hw' hx hy hwx hwy
  · intro e r
    obtain ⟨calls, hstep, -⟩ := access_step s.1 s.2 e r
    rw [hhit, Bool.eq_iff_iff, decide_eq_true_iff, ← hresident]
    exact hstep.hit_iff
  · apply hjudging.conflict_iff.mpr
    intro new r old _
    apply not_shadowed
    rw [hrefs]
    simp

theorem bisimilar_pair :
    ∃ s, s = (run ((fresh .newestFirst (makeReplacement .LRU _ _), {}) :
        Cache BuiltinPolicy (pairGeometry .WriteAllocate) × Memory) RandStream.zeros
        [⟨0, true⟩, ⟨4, false⟩, ⟨8, true⟩, ⟨0, false⟩]).2.1 ∧
      ∃ f p, s.1.refFA = some f ∧ s.1.repl = .lru p ∧
        {b | ∃ a, s.1.Resident a ∧ (pairGeometry .WriteAllocate).blockOf a = b} =
          {b | f.lastUsed.contains b = true} := by
  obtain ⟨f, p, hf, hp, hsame, -⟩ := bisimilar (by decide) rfl rfl rfl
    (run_called ((fresh .newestFirst (makeReplacement .LRU _ _), {}) :
      Cache BuiltinPolicy (pairGeometry .WriteAllocate) × Memory) RandStream.zeros
      [⟨0, true⟩, ⟨4, false⟩, ⟨8, true⟩, ⟨0, false⟩])
  exact ⟨_, rfl, f, p, hf, hp, hsame⟩

/-- Without write-allocate, no miss is judged a conflict exactly when no access is to a block whose
latest access was a store around a cache that did not hold it, few others since. -/
theorem conflict_free_iff (hFA : FullyAssociative geo) (hLRU : geo.cfg.replacement = .LRU)
    (hNWA : geo.cfg.allocPolicy = .NoWriteAllocate) (h3C : geo.cfg.classify3C = true)
    {order : HashOrder UInt64 ℕ} {next : σ} {reqs : List Request} {s : Cache BuiltinPolicy geo × σ}
    (hcalled : Called RandStream
      (fresh order (makeReplacement geo.cfg.replacement geo.sets geo.ways), next) reqs s) :
    s.1.stats.conflict = 0 ↔ ∀ pre r post, reqs = pre ++ r :: post →
      ¬Shadowed geo.ways (pre.map fun r => (geo.blockOf r.addr, !r.isWrite)).reverse
        (geo.blockOf r.addr) := by
  have hinstalls : ∀ r, installs geo r = !r.isWrite := by
    intro r
    simp [installs, hNWA]
  rw [(called_judging hFA hLRU h3C hcalled).conflict_iff]
  simp only [hinstalls]
  constructor
  · intro hall pre r post hreqs
    rw [← List.map_reverse]
    apply hall post.reverse r pre.reverse
    rw [hreqs, List.reverse_append, List.reverse_cons, List.append_assoc]
    rfl
  · intro hall new r old hreqs
    have hsplit := hall old.reverse r new.reverse (by
      rw [← List.reverse_reverse reqs, hreqs, List.reverse_append, List.reverse_cons,
        List.append_assoc]
      rfl)
    rwa [← List.map_reverse, List.reverse_reverse] at hsplit

theorem conflict_free_pair :
    ∃ s, s = (run ((fresh .newestFirst (makeReplacement .LRU _ _), {}) :
        Cache BuiltinPolicy (pairGeometry .NoWriteAllocate) × Memory) RandStream.zeros
        [⟨0, false⟩, ⟨0, true⟩]).2.1 ∧
      (s.1.stats.conflict = 0 ↔ ∀ pre r post, ([⟨0, false⟩, ⟨0, true⟩] : List Request) =
        pre ++ r :: post →
        ¬Shadowed (pairGeometry .NoWriteAllocate).ways
          (pre.map fun r => ((pairGeometry .NoWriteAllocate).blockOf r.addr, !r.isWrite)).reverse
          ((pairGeometry .NoWriteAllocate).blockOf r.addr)) :=
  ⟨_, rfl, conflict_free_iff (by decide) rfl rfl rfl (run_called _ RandStream.zeros _)⟩

theorem writeAround_conflict :
    FullyAssociative (pairGeometry .NoWriteAllocate) ∧ (pair .NoWriteAllocate).replacement = .LRU ∧
      (pair .NoWriteAllocate).classify3C = true ∧
      (run ((fresh .newestFirst (makeReplacement .LRU _ _), {}) :
        Cache BuiltinPolicy (pairGeometry .NoWriteAllocate) × Memory) RandStream.zeros
        [⟨0, true⟩, ⟨0, true⟩]).2.1.1.stats.conflict = 1 := by
  refine ⟨by decide, rfl, rfl, ?_⟩
  decide

end Cache

end CacheSim
