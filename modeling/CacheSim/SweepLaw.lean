import CacheSim.Competitive
import CacheSim.Sweep

namespace CacheSim.Cache

open Service Recency Paging Sweep

variable {ε σ : Type} {ρ : ℕ → ℕ → Type} {geo : Geometry}

def visits (geo : Geometry) (s : ℕ) (reqs : List Request) : List UInt64 :=
  (reqs.filter fun r => (geo.setOf r.addr).val = s).map fun r => geo.blockOf r.addr

theorem visits_reverse (s : ℕ) (reqs : List Request) :
    visits geo s reqs.reverse = (visits geo s reqs).reverse := by
  simp [visits]

theorem visits_repeated (s n : ℕ) (pass : List Request) :
    visits geo s (List.replicate n pass).flatten = (List.replicate n (visits geo s pass)).flatten := by
  induction n with
  | zero => rfl
  | succ n ih =>
    rw [List.replicate_succ, List.replicate_succ, List.flatten_cons, List.flatten_cons, ← ih, visits,
      List.filter_append, List.map_append]
    rfl

theorem visits_toFinset (s : Fin geo.sets) (reqs : List Request) :
    (visits geo s.val reqs).toFinset = (blocks geo reqs).filter fun b => geo.setOfBlock b = s := by
  ext b
  simp only [visits, blocks, List.mem_toFinset, List.mem_map, List.mem_filter, Finset.mem_filter,
    decide_eq_true_eq]
  constructor
  · rintro ⟨r, ⟨hr, hs⟩, rfl⟩
    exact ⟨⟨r, hr, rfl⟩, by rw [← geo.setOf_eq]; exact Fin.ext hs⟩
  · rintro ⟨⟨r, hr, rfl⟩, hs⟩
    rw [← geo.setOf_eq] at hs
    exact ⟨r, ⟨hr, congrArg Fin.val hs⟩, rfl⟩

theorem Orderly.resident_sparse {c : Cache BuiltinPolicy geo} {past : List (Request × Bool)}
    (hc : c.Orderly past) (hdet : geo.cfg.replacement ≠ .Random)
    (hWA : geo.cfg.allocPolicy = .WriteAllocate) {a : UInt64} {runs : List (UInt64 × ℕ)}
    (hruns : (setLog geo (geo.setOf a).val past).map Prod.fst = expand runs)
    (hsparse : Sparse geo.ways (runs.map Prod.fst))
    (hfaults : faults (setLog geo (geo.setOf a).val past) = runs.map Prod.fst) :
    c.Resident a ↔ geo.blockOf a ∈ (runs.map Prod.fst).take geo.ways := by
  cases hp : geo.cfg.replacement with
  | LRU =>
    rw [(hc.recent hp).resident_iff, Recent.held_iff_mem, inSet_refs, hruns, stack_expand geo.ways_pos hsparse]
  | FIFO => rw [(hc.queued hp).resident_iff, fills_eq hWA, hfaults]
  | Random => exact absurd hp hdet

theorem serves_sparse [MemoryLevel RandStream σ] (hdet : geo.cfg.replacement ≠ .Random)
    (hWA : geo.cfg.allocPolicy = .WriteAllocate) {order : HashOrder UInt64 ℕ} {next : σ}
    {es : List (Request × Bool)} {s' : Cache BuiltinPolicy geo × σ}
    (h : Serves RandStream
      (fresh order (makeReplacement geo.cfg.replacement geo.sets geo.ways), next) es s') {s : ℕ}
    {runs : List (UInt64 × ℕ)} (hruns : (setLog geo s es.reverse).map Prod.fst = expand runs)
    (hsparse : Sparse geo.ways (runs.map Prod.fst)) :
    faults (setLog geo s es.reverse) = runs.map Prod.fst := by
  suffices hinv : s'.1.Orderly es.reverse ∧ ∀ s runs,
      (setLog geo s es.reverse).map Prod.fst = expand runs → Sparse geo.ways (runs.map Prod.fst) →
        faults (setLog geo s es.reverse) = runs.map Prod.fst from hinv.2 s runs hruns hsparse
  apply h.history_nil (P := fun past s' => s'.1.Orderly past ∧ ∀ s runs,
    (setLog geo s past).map Prod.fst = expand runs → Sparse geo.ways (runs.map Prod.fst) →
      faults (setLog geo s past) = runs.map Prod.fst)
  · rintro past ⟨c, next⟩ e r ⟨hc, hpast⟩
    obtain ⟨calls, hstep, -⟩ := access_step c next e r
    refine ⟨hc.step hWA hstep, fun s runs hruns hsparse => ?_⟩
    by_cases hs : (geo.setOf r.addr).val = s
    · subst hs
      have hhit := hstep.hit_iff
      rw [setLog_cons_same rfl] at hruns ⊢
      cases runs with
      | nil => cases hruns
      | cons x runs =>
        obtain ⟨b, n⟩ := x
        cases n with
        | zero =>
          -- the first reference of its run
          rw [expand_cons_zero] at hruns
          obtain ⟨rfl, hrest⟩ := List.cons.inj hruns
          have hfaults := hpast _ runs hrest hsparse.2
          rw [hc.resident_sparse hdet hWA hrest hsparse.2 hfaults] at hhit
          rw [Bool.eq_false_iff.mpr (mt hhit.mp hsparse.1), List.map_cons, ← hfaults]
          rfl
        | succ n =>
          rw [expand_cons_succ] at hruns
          obtain ⟨rfl, hrest⟩ := List.cons.inj hruns
          have hfaults := hpast _ _ hrest hsparse
          rw [hc.resident_sparse hdet hWA hrest hsparse hfaults] at hhit
          have hfront : geo.blockOf r.addr ∈
              (((geo.blockOf r.addr, n) :: runs).map Prod.fst).take geo.ways := by
            obtain ⟨m, hm⟩ : ∃ m, geo.ways = m + 1 := ⟨geo.ways - 1, by have := geo.ways_pos; omega⟩
            rw [hm, List.map_cons, List.take_succ_cons]
            exact List.mem_cons_self
          rw [hhit.mpr hfront]
          exact hfaults
    · rw [setLog_cons_other hs] at hruns ⊢
      exact hpast s runs hruns hsparse
  · refine ⟨fresh_orderly order, fun s runs hruns _ => ?_⟩
    cases runs with
    | nil => rfl
    | cons x runs => cases hruns

/-- Within a pass the references to a block come in one run, as its set sees them. -/
def Gathered (geo : Geometry) (pass : List Request) : Prop :=
  ∀ s, ((visits geo s pass).destutter (· ≠ ·)).Nodup

theorem gathered_ascending {pass : List Request} (h : pass.Pairwise fun r q => r.addr ≤ q.addr) :
    Gathered geo pass := by
  intro s
  have hblocks : (visits geo s pass).Pairwise (· ≤ ·) := by
    rw [visits, List.pairwise_map]
    apply (h.filter _).imp
    intro r q hrq
    rw [UInt64.le_iff_toNat_le] at hrq ⊢
    rw [geo.blockOf_toNat, geo.blockOf_toNat]
    exact Nat.div_le_div_right hrq
  rw [hblocks.destutter_eq_dedup]
  exact List.nodup_dedup _

section

variable {log : List (UInt64 × Bool)} {s : ℕ} {pass : List Request}

theorem asked_passes {passes : ℕ}
    (hlog : log.map Prod.fst = visits geo s (List.replicate passes pass).flatten.reverse)
    (hpasses : 0 < passes) : asked log = (visits geo s pass).toFinset := by
  rw [asked, hlog, visits_reverse, visits_repeated, List.toFinset_reverse]
  ext b
  simp only [List.mem_toFinset, List.mem_flatten, List.mem_replicate]
  constructor
  · rintro ⟨l, ⟨-, rfl⟩, hb⟩
    exact hb
  · exact fun hb => ⟨_, ⟨by omega, rfl⟩, hb⟩

theorem runs_passes (passes : ℕ) (hpass : ((visits geo s pass).destutter (· ≠ ·)).Nodup) :
    ∃ runs : List (UInt64 × ℕ), visits geo s (List.replicate passes pass).flatten.reverse = expand runs ∧
      (runs.map Prod.fst).length = passes * (visits geo s pass).toFinset.card ∧
      (geo.ways < (visits geo s pass).toFinset.card → Sparse geo.ways (runs.map Prod.fst)) := by
  obtain ⟨runs, hruns, hfirst⟩ := exists_runs (visits geo s pass)
  rw [← hfirst] at hpass
  have hcard : (visits geo s pass).toFinset.card = (runs.map Prod.fst).length := by
    rw [← List.toFinset_card_of_nodup hpass]
    congr 1
    ext b
    rw [List.mem_toFinset, List.mem_toFinset, hruns, mem_expand]
  refine ⟨(List.replicate passes runs.reverse).flatten, ?_, ?_, fun hk => ?_⟩
  · rw [visits_reverse, visits_repeated, hruns, expand_repeated, expand_reverse, List.reverse_flatten]
    simp
  · rw [hcard]
    simp
  · rw [List.map_flatten, List.map_replicate]
    apply Sparse.repeated
    · rw [List.map_reverse]
      exact List.nodup_reverse.mpr hpass
    · rw [hcard] at hk
      simpa using hk

end

theorem blocks_card_le_misses [ReplacementPolicy ε ρ] [MemoryLevel ε σ]
    (hWA : geo.cfg.allocPolicy = .WriteAllocate) (order : HashOrder UInt64 ℕ) (repl : ρ geo.sets geo.ways)
    (next : σ) (e : ε) (reqs : List Request) : (blocks geo reqs).card ≤
      (run ((fresh order repl, next) : Cache ρ geo × σ) e reqs).2.1.1.stats.misses := by
  have hserves := run_serves ((fresh order repl, next) : Cache ρ geo × σ) e reqs
  have hcard : (blocks geo reqs).card =
      ∑ s : Fin geo.sets, ((blocks geo reqs).filter fun b => geo.setOfBlock b = s).card :=
    Finset.card_eq_sum_card_fiberwise fun _ _ => Finset.mem_univ _
  rw [run_misses, Finset.sum_range, hcard]
  apply Finset.sum_le_sum
  intro s _
  obtain ⟨X, hpages⟩ := serves_pages hWA hserves s
  have hasked := hpages.card_le_misses
  rw [asked, setLog_fst, zip_reverse_fst] at hasked
  rw [← visits_toFinset, ← List.toFinset_reverse, ← visits_reverse]
  exact hasked

theorem sweep_law [MemoryLevel RandStream σ] (geo : Geometry) (hdet : geo.cfg.replacement ≠ .Random)
    (hWA : geo.cfg.allocPolicy = .WriteAllocate) (order : HashOrder UInt64 ℕ) (next : σ) (e : RandStream)
    (pass : List Request) (passes : ℕ) (hpass : Gathered geo pass) (hpasses : 0 < passes) :
    let start : Cache BuiltinPolicy geo × σ :=
      (fresh order (makeReplacement geo.cfg.replacement geo.sets geo.ways), next)
    (run start e (List.replicate passes pass).flatten).2.1.1.stats.misses = ∑ s : Fin geo.sets,
      let m := ((blocks geo pass).filter fun b => geo.setOfBlock b = s).card
      if m ≤ geo.ways then m else passes * m := by
  intro start
  let reqs := (List.replicate passes pass).flatten
  have hserves := run_serves start e reqs
  rw [run_misses, Finset.sum_range]
  apply Finset.sum_congr rfl
  intro s _
  dsimp only
  have hlog : (setLog geo s.val (reqs.zip (run start e reqs).1).reverse).map Prod.fst =
      visits geo s.val reqs.reverse := by
    rw [setLog_fst, zip_reverse_fst, visits]
  have hasked := asked_passes hlog hpasses
  rw [visits_toFinset] at hasked
  split_ifs with hroom
  -- the blocks fit, so none is missed twice; else every run of references starts with a miss
  · have hconservative := serves_conservative hdet hWA hserves s.val
    obtain ⟨X, hpages⟩ := serves_pages hWA hserves s
    apply le_antisymm
    · rw [← hasked] at hroom ⊢
      exact Conservative.misses_le (by rwa [List.append_nil]) hroom
    · rw [← hasked]
      exact hpages.card_le_misses
  · obtain ⟨runs, hruns, hlength, hsparse⟩ := runs_passes passes (hpass s.val)
    rw [visits_toFinset] at hlength hsparse
    have hfaults := serves_sparse hdet hWA hserves (hlog.trans hruns) (hsparse (not_le.mp hroom))
    rw [← hlength, ← hfaults, faults_length]

theorem sweep_law_golden :
    (run ((fresh .newestFirst (makeReplacement goldenGeometry.cfg.replacement _ _), {}) :
      Cache BuiltinPolicy goldenGeometry × Memory) RandStream.zeros
      (List.replicate 2 [⟨0, false⟩, ⟨4, true⟩, ⟨16, false⟩]).flatten).2.1.1.stats.misses = 5 := by
  have hlaw := sweep_law goldenGeometry (by decide) (by rfl) .newestFirst ({} : Memory) RandStream.zeros
    [⟨0, false⟩, ⟨4, true⟩, ⟨16, false⟩] 2 (gathered_ascending (by decide)) (by decide)
  apply hlaw.trans
  decide

end CacheSim.Cache
