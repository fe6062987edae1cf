import CacheSim.ColdMisses
import CacheSim.FIFOQueue
import CacheSim.Inclusion
import CacheSim.Paging

namespace CacheSim

open Service Recency Paging

variable {ε σ τ : Type} {ρ : ℕ → ℕ → Type} {geo geo' : Geometry}

theorem Recency.since_append_subset {α : Type} [DecidableEq α] (b : α) (mid pre : List α) :
    since (mid ++ b :: pre) b ⊆ mid.toFinset.erase b := by
  induction mid with
  | nil => simp [since_cons_self]
  | cons x mid ih =>
    by_cases hx : x = b
    · subst hx
      simp [since_cons_self]
    · rw [List.cons_append, since_cons_ne _ hx, List.toFinset_cons, Finset.erase_insert_of_ne hx]
      exact Finset.insert_subset_insert x ih

theorem Paging.card_of_pushed_out {α : Type} [DecidableEq α] {k : ℕ} {b : α} {l l₁ l₂ : List α}
    {S : Finset α} (hl : l = l₁ ++ b :: l₂) (hnodup : (l.take k).Nodup) (hout : b ∉ l.take k)
    (hS : ∀ x ∈ l₁, x ∈ S) : k ≤ (S.erase b).card := by
  have hlen : k ≤ l₁.length := by
    by_contra hlt
    apply hout
    rw [hl, List.take_append, List.mem_append]
    right
    obtain ⟨d, hd⟩ := Nat.exists_eq_add_of_lt (not_le.mp hlt)
    rw [show k - l₁.length = d + 1 by omega, List.take_succ_cons]
    exact List.mem_cons_self
  have htake : l.take k = l₁.take k := by rw [hl, List.take_append_of_le_length hlen]
  rw [htake] at hnodup hout
  calc k = (l₁.take k).toFinset.card := by
        rw [List.toFinset_card_of_nodup hnodup, List.length_take, min_eq_left hlen]
    _ ≤ _ := by
        apply Finset.card_le_card
        intro x hx
        rw [List.mem_toFinset] at hx
        refine Finset.mem_erase.mpr ⟨?_, hS x (List.mem_of_mem_take hx)⟩
        rintro rfl
        exact hout hx

namespace Cache

def setLog (geo : Geometry) (s : ℕ) (past : List (Request × Bool)) : List (UInt64 × Bool) :=
  (past.filter fun x => (geo.setOf x.1.addr).val = s).map fun x => (geo.blockOf x.1.addr, x.2)

theorem setLog_cons_same {s : ℕ} {r : Request} (hs : (geo.setOf r.addr).val = s) (b : Bool)
    (past : List (Request × Bool)) :
    setLog geo s ((r, b) :: past) = (geo.blockOf r.addr, b) :: setLog geo s past := by
  simp [setLog, hs]

theorem setLog_cons_other {s : ℕ} {r : Request} (hs : (geo.setOf r.addr).val ≠ s) (b : Bool)
    (past : List (Request × Bool)) : setLog geo s ((r, b) :: past) = setLog geo s past := by
  simp [setLog, hs]

theorem setLog_fst (s : ℕ) (past : List (Request × Bool)) : (setLog geo s past).map Prod.fst =
    ((past.map Prod.fst).filter fun r => (geo.setOf r.addr).val = s).map fun r => geo.blockOf r.addr := by
  simp [setLog, List.filter_map, Function.comp_def]

theorem setLog_misses (geo : Geometry) (past : List (Request × Bool)) :
    ∑ s ∈ Finset.range geo.sets, misses (setLog geo s past) = misses past := by
  induction past with
  | nil => simp [setLog, misses]
  | cons x past ih =>
    obtain ⟨r, b⟩ := x
    have hone : ∀ s, misses (setLog geo s ((r, b) :: past)) =
        misses (setLog geo s past) + if (geo.setOf r.addr).val = s then (!b).toNat else 0 := by
      intro s
      by_cases hs : (geo.setOf r.addr).val = s
      · rw [setLog_cons_same hs, misses_cons, if_pos hs]
      · rw [setLog_cons_other hs, if_neg hs, add_zero]
    simp only [hone, Finset.sum_add_distrib, ih, Finset.sum_ite_eq, Finset.mem_range, Fin.is_lt,
      ↓reduceIte, misses_cons]

theorem misses_stats [ReplacementPolicy ε ρ] [MemoryLevel ε σ] {s s' : Cache ρ geo × σ}
    {es : List (Request × Bool)} (h : Serves ε s es s') :
    s'.1.stats.misses = s.1.stats.misses + misses es := by
  induction h with
  | nil s => simp [misses]
  | @cons s s' es e r h ih =>
    obtain ⟨c, next⟩ := s
    obtain ⟨calls, hstep, -⟩ := access_step c next e r
    obtain ⟨-, -, hmisses, -⟩ := hstep.counters
    rw [ih, misses_cons, hmisses, add_assoc, add_comm (misses es)]

theorem run_misses [ReplacementPolicy ε ρ] [MemoryLevel ε σ] (order : HashOrder UInt64 ℕ)
    (repl : ρ geo.sets geo.ways) (next : σ) (e : ε) (reqs : List Request) :
    let start : Cache ρ geo × σ := (fresh order repl, next)
    (run start e reqs).2.1.1.stats.misses =
      ∑ s ∈ Finset.range geo.sets, misses (setLog geo s (reqs.zip (run start e reqs).1).reverse) := by
  intro start
  have hzero : start.1.stats.misses = 0 := rfl
  rw [setLog_misses, misses_stats (run_serves start e reqs), hzero, zero_add, misses, misses,
    List.countP_reverse]

theorem zip_reverse_fst [Service ε τ Request Bool] (s : τ) (e : ε) (reqs : List Request) :
    (reqs.zip (run s e reqs).1).reverse.map Prod.fst = reqs.reverse := by
  rw [List.map_reverse, List.map_fst_zip (run_length s e reqs).ge]

section

variable {c c' : Cache BuiltinPolicy geo} {past : List (Request × Bool)} {r : Request} {b : Bool}
  {calls : List Request}

theorem conservative_cons (hpast : ∀ s, Conservative geo.ways (setLog geo s past))
    (hmiss : b = false → ∀ mid pre,
      setLog geo (geo.setOf r.addr).val past = mid ++ (geo.blockOf r.addr, false) :: pre →
        geo.ways ≤ ((asked mid).erase (geo.blockOf r.addr)).card) (s : ℕ) :
    Conservative geo.ways (setLog geo s ((r, b) :: past)) := by
  by_cases hs : (geo.setOf r.addr).val = s
  · subst hs
    rw [setLog_cons_same rfl]
    exact (hpast _).cons hmiss
  · rw [setLog_cons_other hs]
    exact hpast s

theorem inSet_refs (s : Fin geo.sets) (past : List (Request × Bool)) :
    inSet geo s (past.map fun x => (geo.blockOf x.1.addr, true)) =
      ((setLog geo s.val past).map Prod.fst).map fun b => (b, true) := by
  simp only [inSet, setLog, List.filter_map, List.map_map, Function.comp_def]
  congr 2
  funext x
  apply decide_eq_decide.mpr
  rw [geo.setOf_eq, Fin.ext_iff]

theorem lru_missed (hc : c.Recent (past.map fun x => (geo.blockOf x.1.addr, true)))
    (hmiss : ¬c.Resident r.addr) {mid pre : List (UInt64 × Bool)}
    (hsplit : setLog geo (geo.setOf r.addr).val past = mid ++ (geo.blockOf r.addr, false) :: pre) :
    geo.ways ≤ ((asked mid).erase (geo.blockOf r.addr)).card := by
  have hrefs : ((mid ++ (geo.blockOf r.addr, false) :: pre).map Prod.fst).map (fun b => (b, true)) =
      ((mid.map Prod.fst ++ geo.blockOf r.addr :: pre.map Prod.fst).map fun b => (b, true)) := by
    rw [List.map_append, List.map_cons]
  rw [hc.resident_iff, Recent.held_iff_mem, inSet_refs, hsplit, hrefs, mem_stack_iff geo.ways_pos (by simp),
    List.map_map, Function.comp_def, List.map_id'] at hmiss
  have hfew := fun h => hmiss ⟨by simp, h⟩
  exact (not_lt.mp hfew).trans (Finset.card_le_card (since_append_subset _ _ _))

theorem fills_eq (hWA : geo.cfg.allocPolicy = .WriteAllocate) (s : Fin geo.sets)
    (past : List (Request × Bool)) :
    fills geo s past = faults (setLog geo s.val past) := by
  have hinstalls : ∀ r, installs geo r = true := fun r => by simp [installs, hWA]
  simp [fills, faults, setLog, hinstalls, List.filter_map, List.filter_filter, Function.comp_def, Fin.ext_iff]

theorem fifo_missed (hWA : geo.cfg.allocPolicy = .WriteAllocate) (hc : c.Queued past)
    (hmiss : ¬c.Resident r.addr) {mid pre : List (UInt64 × Bool)}
    (hsplit : setLog geo (geo.setOf r.addr).val past = mid ++ (geo.blockOf r.addr, false) :: pre) :
    geo.ways ≤ ((asked mid).erase (geo.blockOf r.addr)).card := by
  have hfills := fills_eq hWA (geo.setOf r.addr) past
  rw [hsplit, faults, List.filter_append, List.filter_cons_of_pos (by rfl), List.map_append,
    List.map_cons] at hfills
  apply card_of_pushed_out hfills (hc.distinct _) (mt (hc.resident_iff _).mpr hmiss)
  intro x hx
  obtain ⟨y, hy, rfl⟩ := List.mem_map.mp hx
  exact List.mem_toFinset.mpr (List.mem_map_of_mem (List.mem_of_mem_filter hy))

end

/-- What is known of the order in which the policy will evict, after a log that is written latest first. -/
structure Orderly (c : Cache BuiltinPolicy geo) (past : List (Request × Bool)) : Prop where
  recent : geo.cfg.replacement = .LRU → c.Recent (past.map fun x => (geo.blockOf x.1.addr, true))
  queued : geo.cfg.replacement = .FIFO → c.Queued past

theorem fresh_orderly (order : HashOrder UInt64 ℕ) :
    Orderly (fresh order (makeReplacement geo.cfg.replacement geo.sets geo.ways)) [] :=
  ⟨fun hp => fresh_recent order hp, fun hp => fresh_queued order hp⟩

theorem Orderly.step (hWA : geo.cfg.allocPolicy = .WriteAllocate) {c c' : Cache BuiltinPolicy geo}
    {past : List (Request × Bool)} {r : Request} {b : Bool} {calls : List Request} (hc : c.Orderly past)
    (hstep : Step RandStream c r b calls c') : c'.Orderly ((r, b) :: past) where
  recent := by
    intro hp
    have hnext := (hc.recent hp).step hstep
    have hinstalls : installs geo r = true := by simp [installs, hWA]
    rwa [hinstalls] at hnext
  queued := fun hp => (hc.queued hp).step hstep

theorem serves_conservative [MemoryLevel RandStream σ] (hdet : geo.cfg.replacement ≠ .Random)
    (hWA : geo.cfg.allocPolicy = .WriteAllocate) {order : HashOrder UInt64 ℕ} {next : σ}
    {es : List (Request × Bool)} {s' : Cache BuiltinPolicy geo × σ}
    (h : Serves RandStream
      (fresh order (makeReplacement geo.cfg.replacement geo.sets geo.ways), next) es s') (s : ℕ) :
    Conservative geo.ways (setLog geo s es.reverse) := by
  suffices hinv : s'.1.Orderly es.reverse ∧ ∀ s, Conservative geo.ways (setLog geo s es.reverse) from
    hinv.2 s
  apply h.history_nil (P := fun past s' => s'.1.Orderly past ∧
    ∀ s, Conservative geo.ways (setLog geo s past))
  · rintro past ⟨c, next⟩ e r ⟨hc, hcons⟩
    obtain ⟨calls, hstep, -⟩ := access_step c next e r
    refine ⟨hc.step hWA hstep, ?_⟩
    apply conservative_cons hcons
    intro hb mid pre hsplit
    have hmiss : ¬c.Resident r.addr := by
      rw [← hstep.hit_iff, hb]
      exact Bool.false_ne_true
    cases hp : geo.cfg.replacement with
    | LRU => exact lru_missed (hc.recent hp) hmiss hsplit
    | FIFO => exact fifo_missed hWA (hc.queued hp) hmiss hsplit
    | Random => exact absurd hp hdet
  · exact ⟨fresh_orderly order, fun s => Conservative.nil⟩

def content (sets : Fin geo.sets → CacheSet geo.ways) (s : Fin geo.sets) : Finset UInt64 :=
  (Finset.univ.filter fun w => (sets s w).valid = true).image (lineBlock sets s)

theorem content_card_le (sets : Fin geo.sets → CacheSet geo.ways) (s : Fin geo.sets) :
    (content sets s).card ≤ geo.ways := by
  apply Finset.card_image_le.trans
  apply (Finset.card_filter_le _ _).trans
  rw [Finset.card_univ, Fintype.card_fin]

theorem mem_content {c : Cache ρ geo} (hreal : Addressed c.sets) {s : Fin geo.sets} {b : UInt64} :
    b ∈ content c.sets s ↔ ∃ a, geo.setOf a = s ∧ geo.blockOf a = b ∧ c.Resident a := by
  simp only [content, Finset.mem_image, Finset.mem_filter, Finset.mem_univ, true_and]
  constructor
  · rintro ⟨w, hvalid, rfl⟩
    obtain ⟨a, rfl, htag⟩ := hreal s w hvalid
    exact ⟨a, rfl, (lineBlock_eq rfl htag).symm, w, hvalid, htag.symm⟩
  · rintro ⟨a, rfl, rfl, w, hvalid, htag⟩
    exact ⟨w, hvalid, lineBlock_eq rfl htag.symm⟩

theorem mem_content_self {c : Cache ρ geo} (hreal : Addressed c.sets) (a : UInt64) :
    geo.blockOf a ∈ content c.sets (geo.setOf a) ↔ c.Resident a := by
  rw [mem_content hreal]
  constructor
  · rintro ⟨a', -, hblock, hres⟩
    exact (resident_congr hblock).mp hres
  · exact fun hres => ⟨a, rfl, rfl, hres⟩

theorem Step.content_subset [ReplacementPolicy ε ρ] {c c' : Cache ρ geo} {r : Request} {b : Bool}
    {calls : List Request} (hstep : Step ε c r b calls c') (hreal : Addressed c.sets) (s : Fin geo.sets) :
    content c'.sets s ⊆
      if geo.setOf r.addr = s then insert (geo.blockOf r.addr) (content c.sets s) else content c.sets s := by
  intro x hx
  obtain ⟨a, rfl, rfl, hres⟩ := (mem_content (hstep.addressed hreal)).mp hx
  rcases hstep.resident_of_resident hres with hold | hnew
  · have hmem := (mem_content_self hreal a).mpr hold
    split_ifs
    · exact Finset.mem_insert_of_mem hmem
    · exact hmem
  · rw [if_pos ((geo.blockOf_eq_iff a r.addr).mp hnew).1.symm, hnew]
    exact Finset.mem_insert_self _ _

theorem serves_pages [ReplacementPolicy ε ρ] [MemoryLevel ε σ]
    (hWA : geo.cfg.allocPolicy = .WriteAllocate) {order : HashOrder UInt64 ℕ}
    {repl : ρ geo.sets geo.ways} {next : σ} {es : List (Request × Bool)} {s' : Cache ρ geo × σ}
    (h : Serves ε (fresh order repl, next) es s') (s : Fin geo.sets) :
    ∃ X, Pages geo.ways (setLog geo s.val es.reverse) X := by
  suffices hinv : Addressed s'.1.sets ∧
      ∀ s, Pages geo.ways (setLog geo s.val es.reverse) (content s'.1.sets s) from ⟨_, hinv.2 s⟩
  apply h.history_nil (P := fun past s' => Addressed s'.1.sets ∧
    ∀ s, Pages geo.ways (setLog geo s.val past) (content s'.1.sets s))
  · rintro past ⟨c, next⟩ e r ⟨hreal, hpages⟩
    obtain ⟨calls, hstep, -⟩ := access_step c next e r
    have hreal' := hstep.addressed hreal
    refine ⟨hreal', fun s => ?_⟩
    have hsub := hstep.content_subset hreal s
    by_cases hs : geo.setOf r.addr = s
    · subst hs
      rw [setLog_cons_same rfl]
      rw [if_pos rfl] at hsub
      apply (hpages _).ask _ hsub _ (content_card_le _ _)
      · rw [mem_content_self hreal]
        exact hstep.hit_iff
      · rw [mem_content_self hreal']
        exact hstep.resident_installed (installs_of_allocate hWA r)
    · rw [setLog_cons_other (fun h => hs (Fin.ext h))]
      rw [if_neg hs] at hsub
      exact (hpages s).drop hsub
  · refine ⟨fresh_addressed order repl, fun s => ?_⟩
    have hempty : content (fresh order repl).sets s = ∅ := by simp [content, fresh]
    rw [hempty]
    exact .nil

theorem setLog_congr (hblock : geo.cfg.blockSize = geo'.cfg.blockSize) (hsets : geo.sets = geo'.sets)
    (s : ℕ) {es fs : List (Request × Bool)} (hes : es.map Prod.fst = fs.map Prod.fst) :
    (setLog geo s es).map Prod.fst = (setLog geo' s fs).map Prod.fst := by
  have hset : ∀ a, (geo.setOf a).val = (geo'.setOf a).val := by
    intro a
    rw [geo.setOf_eq, geo'.setOf_eq, Geometry.blockOf_congr hblock]
    simp only [Geometry.setOfBlock, hsets]
  rw [setLog_fst, setLog_fst, hes, Geometry.blockOf_congr hblock]
  simp only [hset]

theorem lru_fifo_competitive [MemoryLevel RandStream σ] [ReplacementPolicy ε ρ] [MemoryLevel ε τ]
    (geo geo' : Geometry) (hdet : geo.cfg.replacement ≠ .Random) (hWA : geo.cfg.allocPolicy = .WriteAllocate)
    (hWA' : geo'.cfg.allocPolicy = .WriteAllocate) (hblock : geo.cfg.blockSize = geo'.cfg.blockSize)
    (hsets : geo.sets = geo'.sets) (hways : geo'.ways ≤ geo.ways) (order order' : HashOrder UInt64 ℕ)
    (repl : ρ geo'.sets geo'.ways) (next : σ) (next' : τ) (e : RandStream) (e' : ε) (reqs : List Request) :
    let start : Cache BuiltinPolicy geo × σ :=
      (fresh order (makeReplacement geo.cfg.replacement geo.sets geo.ways), next)
    let rival : Cache ρ geo' × τ := (fresh order' repl, next')
    (geo.ways - geo'.ways + 1) * (run start e reqs).2.1.1.stats.misses ≤
      geo.ways * (run rival e' reqs).2.1.1.stats.misses := by
  intro start rival
  have hserves := run_serves start e reqs
  have hserves' := run_serves rival e' reqs
  rw [run_misses, run_misses, ← hsets, Finset.mul_sum, Finset.mul_sum]
  -- each set is a memory of its own, and the bound of the sum is the sum of the bounds
  apply Finset.sum_le_sum
  intro s hs
  rw [Finset.mem_range, hsets] at hs
  obtain ⟨X, hpages⟩ := serves_pages hWA' hserves' ⟨s, hs⟩
  apply (serves_conservative hdet hWA hserves s).competitive geo'.ways_pos hways hpages
  apply setLog_congr hblock hsets s
  rw [zip_reverse_fst, zip_reverse_fst]

theorem lru_fifo_competitive_pair :
    ∃ n m, n = (run ((fresh .newestFirst (makeReplacement .FIFO _ _), {}) :
        Cache BuiltinPolicy fifoPair × Memory) RandStream.zeros
        [⟨0, false⟩, ⟨4, false⟩, ⟨8, true⟩, ⟨0, false⟩]).2.1.1.stats.misses ∧
      m = (run ((fresh .newestFirst .random, {}) :
        Cache BuiltinPolicy (pairGeometry .WriteAllocate) × Memory) RandStream.zeros
        [⟨0, false⟩, ⟨4, false⟩, ⟨8, true⟩, ⟨0, false⟩]).2.1.1.stats.misses ∧ 1 * n ≤ 2 * m :=
  ⟨_, _, rfl, rfl, lru_fifo_competitive fifoPair (pairGeometry .WriteAllocate) (by decide)
    (by rfl) (by rfl) (by rfl) (by rfl) (by rfl) .newestFirst .newestFirst BuiltinPolicy.random ({} : Memory)
    ({} : Memory) RandStream.zeros RandStream.zeros [⟨0, false⟩, ⟨4, false⟩, ⟨8, true⟩, ⟨0, false⟩]⟩

end Cache

end CacheSim
