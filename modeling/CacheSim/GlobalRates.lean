import CacheSim.Latency

namespace CacheSim

open Service

variable {ε : Type} {ρ : ℕ → ℕ → Type}

namespace Chain

def missRates {geos : List Geometry} (s : Chain ρ Memory geos) : List ℚ :=
  s.caches.map fun c => c.2.stats.missRate

theorem LoadsOnly.cons_rates {geo : Geometry} {geos : List Geometry} {s : Chain ρ Memory (geo :: geos)}
    (hs : s.LoadsOnly) {x y : ℚ} (hbelow : x * (@reads ρ geos s.2 : ℕ) = y) :
    s.1.stats.missRate * x * s.reads = y := by
  obtain ⟨-, haccesses, hmisses, hreads, -⟩ := hs
  have hrate := missRate_mul_accesses hmisses
  rw [haccesses, ← hreads] at hrate
  change s.1.stats.missRate * x * s.1.stats.reads = y
  calc s.1.stats.missRate * x * s.1.stats.reads
      = x * (s.1.stats.missRate * s.1.stats.reads) := by ring
    _ = y := by rw [hrate, hbelow]

theorem LoadsOnly.misses_eq {geos : List Geometry} {s : Chain ρ Memory geos} (hs : s.LoadsOnly) {i : ℕ}
    {c : (geo : Geometry) × Cache ρ geo} (hc : s.caches[i]? = some c) :
    (s.missRates.take (i + 1)).prod * s.reads = c.2.stats.misses := by
  induction geos generalizing i with
  | nil => simp [caches] at hc
  | cons geo geos ih =>
    cases i with
    | zero =>
      obtain rfl := Option.some.inj hc
      obtain ⟨-, haccesses, hmisses, -⟩ := hs
      have hrate := missRate_mul_accesses hmisses
      rw [haccesses] at hrate
      change (s.1.stats.missRate * 1) * (s.1.stats.reads : ℚ) = s.1.stats.misses
      rw [mul_one, hrate]
    | succ i => exact hs.cons_rates (ih hs.2.2.2.2 hc)

theorem LoadsOnly.memory_eq {geos : List Geometry} {s : Chain ρ Memory geos} (hs : s.LoadsOnly) :
    s.missRates.prod * s.reads = s.memory.reads := by
  induction geos with
  | nil => exact one_mul _
  | cons geo geos ih => exact hs.cons_rates (ih hs.2.2.2.2)

end Chain

namespace CacheHierarchy

variable [ReplacementPolicy ε ρ]

theorem global_rates {order : HashOrder UInt64 ℕ} {make : Chain.Policies ρ} {cfgs : List CacheConfig}
    {memTime : ℚ} {h : CacheHierarchy ρ} (hok : new order make cfgs memTime = .ok h) (e : ε)
    {trace : List Access} (hloads : ∀ a ∈ trace, a.op = .Read ∨ a.op = .Instr) :
    let h' := (h.feedAll e trace).1
    let total := h'.levels.1.stats.accesses
    (∀ i c, h'.levels.caches[i]? = some c →
      (if total = 0 then 0 else (c.2.stats.misses : ℚ) / total) = (h'.levels.missRates.take (i + 1)).prod) ∧
      h'.levels.missRates.prod * total = h'.levels.memory.reads := by
  intro h' total
  have hinit : h.levels.LoadsOnly := by
    rw [(new_ok hok).2]
    exact (Chain.loadsOnly_fresh order make (h.l1 :: h.lower)).1
  have hrun : Chain.LoadsOnly (run h.levels e (trace.flatMap Access.expand)).2.1 :=
    (run_called h.levels e _).invariant_of (P := fun s => Chain.LoadsOnly s)
      (fun s e r hr hs => Chain.loadsOnly_serve _ s e r (expand_loads hloads r hr) hs) hinit
  have hlevels : h'.levels.LoadsOnly := by
    have hh' : h' = { h with levels := (run h.levels e (trace.flatMap Access.expand)).2.1 } :=
      congrArg Prod.fst (h.feedAll_eq e trace)
    rw [hh']
    exact hrun
  have htotal : total = h'.levels.reads := hlevels.2.1
  constructor
  · intro i c hc
    split_ifs with hzero
    · have hrate : h'.levels.1.stats.missRate = 0 := if_pos hzero
      change 0 = (h'.levels.1.stats.missRate :: _).prod
      rw [List.prod_cons, hrate, zero_mul]
    · rw [div_eq_iff (Nat.cast_ne_zero.mpr hzero), htotal]
      exact (hlevels.misses_eq hc).symm
  · rw [htotal]
    exact hlevels.memory_eq

theorem global_rates_golden :
    ∃ h : CacheHierarchy BuiltinPolicy,
      new .newestFirst builtinPolicies [golden, golden] 100 = .ok h ∧
      ∃ h', h' = (h.feedAll RandStream.zeros [⟨.Read, 0, 4⟩, ⟨.Instr, 8, 4⟩, ⟨.Read, 16, 4⟩]).1 ∧
        h'.levels.missRates.prod * h'.levels.1.stats.accesses = h'.levels.memory.reads := by
  have hok : new .newestFirst builtinPolicies [golden, golden] 100 =
      .ok (fresh .newestFirst builtinPolicies goldenGeometry [goldenGeometry] 100) := rfl
  exact ⟨_, hok, _, rfl, (global_rates hok _ (by simp)).2⟩

end CacheHierarchy

end CacheSim
