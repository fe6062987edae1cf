import CacheSim.Classification
import CacheSim.ColdMisses
import CacheSim.Distances
import CacheSim.Inclusion
import CacheSim.Tally

namespace CacheSim

open Service Recency

def judge (ways lines : ℕ) : Option (ℕ × ℕ) → Option Verdict
  | none => some .compulsory
  | some (inSet, inAll) =>
    if inSet < ways then none else if inAll < lines then some .conflict else some .capacity

def Stats.verdicts (s : Stats) : Verdict → ℕ
  | .compulsory => s.compulsory
  | .capacity => s.capacity
  | .conflict => s.conflict

theorem judge_distance {ι : Type} [DecidableEq ι] {f : UInt64 → ι} {ways : ℕ} (hways : 0 < ways) (lines : ℕ)
    (h : List UInt64) (b : UInt64) : judge ways lines (distance f h b) =
      if Held ways f (installed h) b then none else some (verdict lines h b) := by
  unfold distance
  by_cases hb : b ∈ h
  · by_cases hless : ((since h b).filter fun x => f x = f b).card < ways
    · rw [if_pos hb, if_pos ((held_installed hways).mpr ⟨hb, hless⟩)]
      exact if_pos hless
    · rw [if_pos hb, if_neg fun hheld => hless ((held_installed hways).mp hheld).2]
      simp only [judge, verdict, hless, hb, not_true_eq_false, if_false]
      split_ifs <;> rfl
  · rw [if_neg hb, if_neg fun hheld => hb ((held_installed hways).mp hheld).1]
    unfold verdict
    rw [if_pos hb]
    rfl

theorem absences_profile {ι : Type} [DecidableEq ι] {f : UInt64 → ι} {ways : ℕ} (hways : 0 < ways) (lines : ℕ)
    (h : List UInt64) : absences ways f (installed h) =
      ((profile f h).map (judge ways lines)).countP Option.isSome := by
  induction h with
  | nil => rfl
  | cons b h ih =>
    rw [absences_cons, profile, List.map_cons, List.countP_cons, judge_distance hways, ih]
    split_ifs <;> simp_all

namespace Cache

variable {σ τ : Type} {geo : Geometry} [MemoryLevel RandStream σ] [MemoryLevel RandStream τ]

theorem references_installed (hWA : geo.cfg.allocPolicy = .WriteAllocate) (reqs : List Request) :
    references geo reqs = installed (reqs.map fun r => geo.blockOf r.addr).reverse := by
  rw [references_writeAllocate hWA, installed, List.map_reverse, List.map_map]
  rfl

theorem Recent.installs {c c' : Cache BuiltinPolicy geo} {h : List UInt64} {r : Request} {b : Bool}
    {calls : List Request} (hWA : geo.cfg.allocPolicy = .WriteAllocate) (hc : c.Recent (installed h))
    (hstep : Step RandStream c r b calls c') : c'.Recent (installed (geo.blockOf r.addr :: h)) := by
  have hrecent := hc.step hstep
  rwa [show Cache.installs geo r = true by simp [Cache.installs, hWA]] at hrecent

structure Profiled (c : Cache BuiltinPolicy geo) (past : List UInt64) : Prop where
  recent : c.Recent (installed past)
  classified : c.Classified past
  verdicts : ∀ v, c.stats.verdicts v =
    ((profile geo.setOfBlock past).map (judge geo.ways geo.totalLines)).count (some v)

theorem Profiled.step {c c' : Cache BuiltinPolicy geo} {past : List UInt64} {r : Request} {b : Bool}
    {calls : List Request} (hWA : geo.cfg.allocPolicy = .WriteAllocate) (hc : c.Profiled past)
    (hstep : Step RandStream c r b calls c') : c'.Profiled (geo.blockOf r.addr :: past) where
  recent := hc.recent.installs hWA hstep
  classified := hc.classified.step hstep
  verdicts := by
    intro v
    have hhit := hstep.hit_iff
    rw [hc.recent.resident_iff] at hhit
    obtain ⟨h1, h2, h3⟩ := hc.classified.judged hstep
    have hcount : c'.stats.verdicts v = c.stats.verdicts v +
        (!b && verdict geo.totalLines past (geo.blockOf r.addr) = v).toNat := by
      cases v
      · exact h1
      · exact h3
      · exact h2
    rw [hcount, hc.verdicts v, profile, List.map_cons, List.count_cons, judge_distance geo.ways_pos]
    congr 1
    by_cases hheld : Held geo.ways geo.setOfBlock (installed past) (geo.blockOf r.addr)
    · rw [if_pos hheld, hhit.mpr hheld]
      rfl
    · rw [if_neg hheld, Bool.eq_false_iff.mpr (mt hhit.mp hheld)]
      by_cases hv : verdict geo.totalLines past (geo.blockOf r.addr) = v <;> simp [hv]

theorem called_profiled (hLRU : geo.cfg.replacement = .LRU) (hWA : geo.cfg.allocPolicy = .WriteAllocate)
    (h3C : geo.cfg.classify3C = true) {order : HashOrder UInt64 ℕ} {next : σ} {reqs : List Request}
    {s : Cache BuiltinPolicy geo × σ} (hcalled : Called RandStream
      (fresh order (makeReplacement geo.cfg.replacement geo.sets geo.ways), next) reqs s) :
    s.1.Profiled (reqs.map fun r => geo.blockOf r.addr).reverse := by
  obtain ⟨es, rfl, hes⟩ := hcalled
  rw [List.map_map, ← List.map_reverse]
  apply hes.history_nil (P := fun past s => s.1.Profiled (past.map fun x => geo.blockOf x.1.addr))
  · rintro past ⟨c, next⟩ e r hc
    obtain ⟨calls, hstep, -⟩ := access_step c next e r
    exact hc.step hWA hstep
  · exact ⟨fresh_recent order hLRU, fresh_classified order _ h3C, fun v => by cases v <;> rfl⟩

theorem stack_distances (geo₀ geo : Geometry) (hLRU : geo.cfg.replacement = .LRU)
    (hWA : geo.cfg.allocPolicy = .WriteAllocate) (hblock : geo.cfg.blockSize = geo₀.cfg.blockSize)
    (hsets : geo.numSets = geo₀.numSets) (order : HashOrder UInt64 ℕ) (next : σ) (e : RandStream)
    (reqs : List Request) :
    let judged := (profile geo₀.setOfBlock (reqs.map fun r => geo₀.blockOf r.addr).reverse).map
      (judge geo.ways geo.totalLines)
    let stats := (run ((fresh order (makeReplacement geo.cfg.replacement geo.sets geo.ways), next) :
      Cache BuiltinPolicy geo × σ) e reqs).2.1.1.stats
    stats.hits = judged.count none ∧ stats.misses = judged.countP Option.isSome ∧
      (geo.cfg.classify3C = true → ∀ v, stats.verdicts v = judged.count (some v)) := by
  intro judged stats
  let start : Cache BuiltinPolicy geo × σ :=
    (fresh order (makeReplacement geo.cfg.replacement geo.sets geo.ways), next)
  have hsame : ∀ x y, geo₀.setOfBlock x = geo₀.setOfBlock y ↔ geo.setOfBlock x = geo.setOfBlock y :=
    fun x y => ⟨Geometry.setOfBlock_coarser (by simp [hsets]), Geometry.setOfBlock_coarser (by simp [hsets])⟩
  have hjudged : judged = (profile geo.setOfBlock (reqs.map fun r => geo.blockOf r.addr).reverse).map
      (judge geo.ways geo.totalLines) := by
    rw [← profile_congr hsame, Geometry.blockOf_congr hblock]
  have hmisses : stats.misses = judged.countP Option.isSome := by
    have hrecalls := (called_recalls hLRU (run_called start e reqs)).misses_eq
    rw [hjudged, ← absences_profile geo.ways_pos, ← references_installed hWA]
    exact hrecalls
  have hlength : judged.length = reqs.length := by
    rw [hjudged, List.length_map, profile_length, List.length_reverse, List.length_map]
  have htotal : stats.hits + stats.misses = reqs.length := by
    have hbalance := (run_counts order (makeReplacement geo.cfg.replacement geo.sets geo.ways) next e reqs).balance
    rwa [run_accesses] at hbalance
  refine ⟨?_, hmisses, fun h3C v => ?_⟩
  · have hnone : judged.countP Option.isSome + judged.count none = judged.length := by
      rw [List.length_eq_countP_add_countP Option.isSome, List.count]
      congr 1
      apply List.countP_congr
      rintro (_ | v) _ <;> simp
    omega
  · have hprofiled := called_profiled hLRU hWA h3C (run_called start e reqs)
    rw [hjudged]
    exact hprofiled.verdicts v

theorem stack_distances_twoWay :
    let stats := (run ((fresh .newestFirst (makeReplacement twoWayGeometry.cfg.replacement _ _), {}) :
      Cache BuiltinPolicy twoWayGeometry × Memory) RandStream.zeros
      [⟨0, false⟩, ⟨16, true⟩, ⟨0, false⟩, ⟨32, false⟩, ⟨16, false⟩]).2.1.1.stats
    stats.hits = 1 ∧ stats.misses = 4 := by
  have h := stack_distances goldenGeometry twoWayGeometry rfl rfl rfl rfl .newestFirst ({} : Memory)
    RandStream.zeros [⟨0, false⟩, ⟨16, true⟩, ⟨0, false⟩, ⟨32, false⟩, ⟨16, false⟩]
  exact ⟨h.1.trans (by decide), h.2.1.trans (by decide)⟩

def Warmed (geo : Geometry) (m : List UInt64) : Prop :=
  ∀ s, geo.ways ≤ (m.toFinset.filter fun b => geo.setOfBlock b = s).card

theorem Warmed.cons {m : List UInt64} (hm : Warmed geo m) (b : UInt64) : Warmed geo (b :: m) := by
  intro s
  apply (hm s).trans (Finset.card_le_card (Finset.filter_subset_filter _ _))
  rw [List.toFinset_cons]
  exact Finset.subset_insert b _

theorem Warmed.resident_iff {m h : List UInt64} (hm : Warmed geo m) {c c' : Cache BuiltinPolicy geo}
    (hc : c.Recent (installed (m ++ h))) (hc' : c'.Recent (installed m)) (a : UInt64) :
    c.Resident a ↔ c'.Resident a := by
  rw [hc.resident_iff, hc'.resident_iff]
  exact held_append_full geo.ways_pos (hm _)

theorem Warmed.answers (hWA : geo.cfg.allocPolicy = .WriteAllocate) {m h : List UInt64} (hm : Warmed geo m)
    {s : Cache BuiltinPolicy geo × σ} {s' : Cache BuiltinPolicy geo × τ}
    (hs : s.1.Recent (installed (m ++ h))) (hs' : s'.1.Recent (installed m)) (e e' : RandStream)
    (more : List Request) : (run s e more).1 = (run s' e' more).1 := by
  induction more generalizing m s s' e e' with
  | nil => rfl
  | cons r more ih =>
    obtain ⟨calls, hstep, -⟩ := access_step s.1 s.2 e r
    obtain ⟨calls', hstep', -⟩ := access_step s'.1 s'.2 e' r
    have hsame : (serve s e r).1 = (serve s' e' r).1 := by
      apply Bool.eq_iff_iff.mpr
      exact hstep.hit_iff.trans ((hm.resident_iff hs hs' r.addr).trans hstep'.hit_iff.symm)
    simp only [run]
    rw [hsame, ih (hm.cons _) (hs.installs hWA hstep) (hs'.installs hWA hstep')]

theorem warm_start (geo : Geometry) (hLRU : geo.cfg.replacement = .LRU)
    (hWA : geo.cfg.allocPolicy = .WriteAllocate) (order order' : HashOrder UInt64 ℕ) (next : σ) (next' : τ)
    (e e' : RandStream) (before reqs : List Request) :
    let start : Cache BuiltinPolicy geo × σ :=
      (fresh order (makeReplacement geo.cfg.replacement geo.sets geo.ways), next)
    let start' : Cache BuiltinPolicy geo × τ :=
      (fresh order' (makeReplacement geo.cfg.replacement geo.sets geo.ways), next')
    let first := (run start e before).2.1
    let warm := (run start e (before ++ reqs)).2.1
    let cold := (run start' e' reqs).2.1
    warm.1.stats.misses ≤ first.1.stats.misses + cold.1.stats.misses ∧
      first.1.stats.misses + cold.1.stats.misses ≤ warm.1.stats.misses + geo.sets * geo.ways ∧
      ((∀ s, geo.ways ≤ ((blocks geo reqs).filter fun b => geo.setOfBlock b = s).card) →
        (∀ a, warm.1.Resident a ↔ cold.1.Resident a) ∧
        ∀ more (e₁ e₂ : RandStream), (run warm e₁ more).1 = (run cold e₂ more).1) := by
  intro start start' first warm cold
  have hfirst := called_recalls hLRU (run_called start e before)
  have hwarm := called_recalls hLRU (run_called start e (before ++ reqs))
  have hcold := called_recalls hLRU (run_called start' e' reqs)
  rw [references_installed hWA] at hfirst hwarm hcold
  rw [List.map_append, List.reverse_append] at hwarm
  refine ⟨?_, ?_, fun hfull => ?_⟩
  · rw [hfirst.misses_eq, hwarm.misses_eq, hcold.misses_eq]
    exact absences_append_le geo.ways_pos _ _
  -- every miss that the past saves is on a block of it that is still held
  · have hle := le_absences_append geo.ways_pos (f := geo.setOfBlock)
      (reqs.map fun r => geo.blockOf r.addr).reverse (before.map fun r => geo.blockOf r.addr).reverse
    have hkept := kept_card_le (n := geo.ways) (f := geo.setOfBlock)
      (h := (before.map fun r => geo.blockOf r.addr).reverse)
    rw [Fintype.card_fin] at hkept
    rw [hfirst.misses_eq, hwarm.misses_eq, hcold.misses_eq]
    omega
  · have hwarmed : Warmed geo (reqs.map fun r => geo.blockOf r.addr).reverse := by
      intro s
      rw [List.toFinset_reverse]
      exact hfull s
    exact ⟨hwarmed.resident_iff hwarm.recent hcold.recent,
      fun more e₁ e₂ => hwarmed.answers hWA hwarm.recent hcold.recent e₁ e₂ more⟩

theorem warm_start_golden :
    let start : Cache BuiltinPolicy goldenGeometry × Memory :=
      (fresh .newestFirst (makeReplacement goldenGeometry.cfg.replacement _ _), {})
    let before : List Request := [⟨0, true⟩, ⟨4, false⟩]
    let reqs : List Request := [⟨4, false⟩, ⟨8, false⟩, ⟨16, true⟩, ⟨12, false⟩]
    let first := (run start RandStream.zeros before).2.1
    let warm := (run start RandStream.zeros (before ++ reqs)).2.1
    let cold := (run start RandStream.zeros reqs).2.1
    warm.1.stats.misses ≤ first.1.stats.misses + cold.1.stats.misses ∧
      first.1.stats.misses + cold.1.stats.misses ≤ warm.1.stats.misses + 4 * 1 ∧
      (∀ a, warm.1.Resident a ↔ cold.1.Resident a) ∧
      ∀ (more : List Request) (e₁ e₂ : RandStream), (run warm e₁ more).1 = (run cold e₂ more).1 := by
  have h := warm_start goldenGeometry rfl rfl .newestFirst .newestFirst ({} : Memory) ({} : Memory)
    RandStream.zeros RandStream.zeros [⟨0, true⟩, ⟨4, false⟩] [⟨4, false⟩, ⟨8, false⟩, ⟨16, true⟩, ⟨12, false⟩]
  exact ⟨h.1, h.2.1, h.2.2 (by decide)⟩

end Cache

end CacheSim
