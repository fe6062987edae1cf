import CacheSim.Traffic

namespace CacheSim

open Service

variable {ε : Type} {ρ : ℕ → ℕ → Type}

namespace Chain

def LoadsOnly : {geos : List Geometry} → Chain ρ Memory geos → Prop
  | [], _ => True
  | _ :: _, s => s.1.dirtyLines = 0 ∧ s.1.stats.accesses = s.1.stats.reads ∧
      s.1.stats.hits + s.1.stats.misses = s.1.stats.accesses ∧ Chain.reads s.2 = s.1.stats.misses ∧
      LoadsOnly s.2

theorem loadsOnly_fresh (order : HashOrder UInt64 ℕ) (make : Policies ρ) (geos : List Geometry) :
    LoadsOnly (fresh order make ({} : Memory) geos) ∧
      Chain.reads (fresh order make ({} : Memory) geos) = 0 := by
  induction geos with
  | nil => exact ⟨trivial, rfl⟩
  | cons geo geos ih =>
    have hdirty : (Cache.fresh order (make geos.length geo)).dirtyLines = 0 := by
      simp [Cache.dirtyLines, Cache.fresh]
    exact ⟨⟨hdirty, rfl, rfl, ih.2, ih.1⟩, rfl⟩

theorem loadsOnly_serve [ReplacementPolicy ε ρ] (geos : List Geometry) (s : Chain ρ Memory geos) (e : ε)
    (r : Request) (hr : r.isWrite = false) (hs : LoadsOnly s) : LoadsOnly (serve s e r).2.1 := by
  induction geos generalizing e r with
  | nil => trivial
  | cons geo geos ih =>
    obtain ⟨c, next⟩ := s
    obtain ⟨hdirty, haccesses, hmisses, hreads, hbelow⟩ := hs
    obtain ⟨calls, hstep, hcalls⟩ := Cache.access_step (σ := Chain ρ Memory geos) c next e r
    obtain ⟨h1, h2, h3, h4, -⟩ := hstep.counters
    have hstores := hstep.stores
    rw [hr] at h4 hstores
    dsimp only at hdirty haccesses hmisses hreads
    simp only [hdirty, Bool.toNat_false, Nat.add_zero, Nat.le_zero, Nat.add_eq_zero_iff] at hstores
    have hloads : ∀ r' ∈ calls, r'.isWrite = false := by
      intro r' hr'
      simpa using List.countP_eq_zero.mp hstores.1 r' hr'
    have hfetches : calls.countP isRead = (!(serve (c, next) e r).1).toNat := by
      obtain ⟨hWA, hNWA, -⟩ := hstep.traffic
      cases ha : geo.cfg.allocPolicy with
      | WriteAllocate => exact hWA ha
      | NoWriteAllocate => rw [hNWA ha, hr]; rfl
    have hcount := hcalls.count (f := Chain.reads) (p := isRead) fun s e r => (counts geos s e r).1
    refine ⟨hstores.2, h1.trans ?_, (congrArg₂ (· + ·) h2 h3).trans (Eq.trans ?_ h1.symm), ?_, ?_⟩
    · rw [haccesses]
      exact h4.symm
    · rw [← hmisses]
      cases (serve (c, next) e r).1 <;> simp <;> omega
    · exact hcount.trans (by rw [hfetches, hreads]; exact h3.symm)
    · exact hcalls.invariant_of (fun s e r' hr' hs => ih s e r' (hloads r' hr') hs) hbelow

def averageTime (memTime : ℚ) {geos : List Geometry} (s : Chain ρ Memory geos) : ℚ :=
  s.caches.foldr (fun c penalty => c.1.cfg.hitTime + c.2.stats.missRate * penalty) memTime

theorem missRate_mul_accesses {stats : Stats} (h : stats.hits + stats.misses = stats.accesses) :
    stats.missRate * stats.accesses = stats.misses := by
  unfold Stats.missRate
  split_ifs with hzero
  · have hnone : stats.misses = 0 := by omega
    rw [hnone, zero_mul, Nat.cast_zero]
  · exact div_mul_cancel₀ _ (Nat.cast_ne_zero.mpr hzero)

theorem LoadsOnly.total {geos : List Geometry} {s : Chain ρ Memory geos} (hs : s.LoadsOnly)
    (memTime : ℚ) : s.averageTime memTime * s.reads =
      (s.caches.map fun c => c.1.cfg.hitTime * (c.2.stats.accesses : ℚ)).sum + memTime * s.memory.reads := by
  induction geos with
  | nil => simp [averageTime, caches, memory, Chain.reads]
  | cons geo geos ih =>
    obtain ⟨c, next⟩ := s
    obtain ⟨-, haccesses, hmisses, hreads, hbelow⟩ := hs
    have hrate := missRate_mul_accesses hmisses
    have hnext := ih hbelow
    dsimp only at haccesses hreads hrate
    change (geo.cfg.hitTime + c.stats.missRate * averageTime memTime next) * c.stats.reads = _
    rw [← haccesses]
    calc (geo.cfg.hitTime + c.stats.missRate * averageTime memTime next) * c.stats.accesses
        = geo.cfg.hitTime * c.stats.accesses +
            averageTime memTime next * (c.stats.missRate * c.stats.accesses) := by ring
      _ = geo.cfg.hitTime * c.stats.accesses + averageTime memTime next * next.reads := by
          rw [hrate, hreads]
      _ = geo.cfg.hitTime * c.stats.accesses +
            ((next.caches.map fun c => c.1.cfg.hitTime * (c.2.stats.accesses : ℚ)).sum +
              memTime * next.memory.reads) := by rw [hnext]
      _ = _ := (add_assoc _ _ _).symm

end Chain

namespace CacheHierarchy

variable [ReplacementPolicy ε ρ]

theorem expand_loads {trace : List Access} (h : ∀ a ∈ trace, a.op = .Read ∨ a.op = .Instr) :
    ∀ r ∈ trace.flatMap Access.expand, r.isWrite = false := by
  intro r hr
  obtain ⟨a, ha, hra⟩ := List.mem_flatMap.mp hr
  rcases h a ha with hop | hop <;> simp [Access.expand, hop] at hra
  rw [hra]

theorem amat_total {order : HashOrder UInt64 ℕ} {make : Chain.Policies ρ} {cfgs : List CacheConfig}
    {memTime : ℚ} {h : CacheHierarchy ρ} (hok : new order make cfgs memTime = .ok h) (e : ε)
    {trace : List Access} (hloads : ∀ a ∈ trace, a.op = .Read ∨ a.op = .Instr) :
    let h' := (h.feedAll e trace).1
    h'.computeAMAT * h'.levels.1.stats.accesses =
        (h'.levels.caches.map fun c => c.1.cfg.hitTime * (c.2.stats.accesses : ℚ)).sum +
          memTime * h'.levels.memory.reads ∧
      (h'.levels.1.stats.accesses = 0 → h'.computeAMAT = h.l1.cfg.hitTime) := by
  obtain ⟨-, hfresh⟩ := new_ok hok
  have hlevels : h.levels = Chain.fresh order make ({} : Memory) (h.l1 :: h.lower) := by
    rw [hfresh]
    rfl
  have hmem : h.memTime = memTime := by rw [hfresh]; rfl
  have hinit : h.levels.LoadsOnly := by
    rw [hlevels]
    exact (Chain.loadsOnly_fresh order make (h.l1 :: h.lower)).1
  have hrun : Chain.LoadsOnly (run h.levels e (trace.flatMap Access.expand)).2.1 :=
    (run_called h.levels e _).invariant_of (P := fun s => Chain.LoadsOnly s)
      (fun s e r hr hs => Chain.loadsOnly_serve _ s e r (expand_loads hloads r hr) hs) hinit
  rw [feedAll_eq]
  dsimp only
  constructor
  · have htotal := Chain.LoadsOnly.total hrun memTime
    obtain ⟨-, haccesses, -⟩ := hrun
    rw [haccesses, ← htotal, ← hmem]
    rfl
  · intro hzero
    have hrate : (run h.levels e (trace.flatMap Access.expand)).2.1.1.stats.missRate = 0 := if_pos hzero
    change h.l1.cfg.hitTime + (run h.levels e (trace.flatMap Access.expand)).2.1.1.stats.missRate * _ = _
    rw [hrate, zero_mul, add_zero]

theorem amat_total_golden :
    ∃ h : CacheHierarchy BuiltinPolicy,
      new .newestFirst builtinPolicies [golden] 100 = .ok h ∧
      ∃ h', h' = (h.feedAll RandStream.zeros [⟨.Read, 0, 4⟩, ⟨.Instr, 8, 4⟩, ⟨.Read, 16, 4⟩]).1 ∧
        h'.computeAMAT * h'.levels.1.stats.accesses =
          (h'.levels.caches.map fun c => c.1.cfg.hitTime * (c.2.stats.accesses : ℚ)).sum +
            100 * h'.levels.memory.reads := by
  have hok : new .newestFirst builtinPolicies [golden] 100 =
      .ok (fresh .newestFirst builtinPolicies goldenGeometry [] 100) := rfl
  exact ⟨_, hok, _, rfl, (amat_total hok _ (by simp)).1⟩

end CacheHierarchy

end CacheSim
