import CacheSim.Traced

namespace CacheSim

open Service

variable {ε σ μ : Type} {ρ : ℕ → ℕ → Type} {geo : Geometry}

def isRead (r : Request) : Bool := !r.isWrite

namespace Cache

theorem Step.traffic [ReplacementPolicy ε ρ] {c c' : Cache ρ geo} {r : Request} {b : Bool}
    {calls : List Request} (h : Step ε c r b calls c') :
    (geo.cfg.allocPolicy = .WriteAllocate → calls.countP isRead = (!b).toNat) ∧
    (geo.cfg.allocPolicy = .NoWriteAllocate → calls.countP isRead = (!r.isWrite && !b).toNat) ∧
    (geo.cfg.writePolicy = .WriteThrough →
      calls.countP Request.isWrite = r.isWrite.toNat ∧ c'.stats.writebacks = c.stats.writebacks) ∧
    (geo.cfg.writePolicy = .WriteBack → geo.cfg.allocPolicy = .WriteAllocate →
      c'.stats.writebacks = c.stats.writebacks + calls.countP Request.isWrite) ∧
    (geo.cfg.writePolicy = .WriteBack → geo.cfg.allocPolicy = .NoWriteAllocate →
      c'.stats.writebacks + (r.isWrite && !b).toNat =
        c.stats.writebacks + calls.countP Request.isWrite) := by
  obtain ⟨addr, isWrite⟩ := r
  cases h with
  | hit w e hw =>
    cases isWrite <;> cases hp : geo.cfg.writePolicy <;>
      simp [forwarded, isRead, hp]
  | around hw hr ha =>
    obtain rfl : isWrite = true := hr
    cases hp : geo.cfg.writePolicy <;> simp [isRead, ha]
  | fill e e' hw ha =>
    by_cases hd : c.DirtyVictim (geo.setOf addr) (c.pickWay e (geo.setOf addr)).1
    · have hp := hd.2.2
      cases isWrite <;>
        simp_all [fillCalls, victimWrite, forwarded, isRead, afterFill]
    · cases isWrite <;> cases hp : geo.cfg.writePolicy <;>
        simp_all [fillCalls, victimWrite, forwarded, isRead, afterFill]

def dirtyLines (c : Cache ρ geo) : ℕ := ∑ s, ∑ w, (c.sets s w).dirty.toNat

theorem sum_change {ι : Type} [Fintype ι] [DecidableEq ι] {f g : ι → ℕ} (i : ι)
    (h : ∀ j ≠ i, g j = f j) : (∑ j, g j) + f i = (∑ j, f j) + g i := by
  have hrest : ∑ j ∈ Finset.univ.erase i, g j = ∑ j ∈ Finset.univ.erase i, f j :=
    Finset.sum_congr rfl fun j hj => h j (Finset.ne_of_mem_erase hj)
  rw [← Finset.add_sum_erase _ g (Finset.mem_univ i), ← Finset.add_sum_erase _ f (Finset.mem_univ i),
    hrest]
  omega

theorem sum_putLine (sets : Fin geo.sets → CacheSet geo.ways) (set : Fin geo.sets)
    (way : Fin geo.ways) (line : CacheLine) :
    (∑ s, ∑ w, (putLine sets set way line s w).dirty.toNat) + (sets set way).dirty.toNat =
      (∑ s, ∑ w, (sets s w).dirty.toNat) + line.dirty.toNat := by
  have houter := sum_change (f := fun s => ∑ w, (sets s w).dirty.toNat)
    (g := fun s => ∑ w, (putLine sets set way line s w).dirty.toNat) set
    (fun s hs => by simp only [putLine_apply, hs, false_and, ↓reduceIte])
  have hinner := sum_change (f := fun w => (sets set w).dirty.toNat)
    (g := fun w => (putLine sets set way line set w).dirty.toNat) way
    (fun w hw => by simp only [putLine_apply, hw, and_false, ↓reduceIte])
  simp only [putLine_self] at houter hinner
  omega

theorem Step.stores [ReplacementPolicy ε ρ] {c c' : Cache ρ geo} {r : Request} {b : Bool}
    {calls : List Request} (h : Step ε c r b calls c') :
    calls.countP Request.isWrite + c'.dirtyLines ≤ c.dirtyLines + r.isWrite.toNat := by
  cases h with
  | hit w e hw =>
    by_cases hwrite : r.isWrite = true ∧ geo.cfg.writePolicy = .WriteBack
    · have hsum := sum_putLine c.sets (geo.setOf r.addr) w
        { c.sets (geo.setOf r.addr) w with dirty := true }
      have hcalls : forwarded geo r = [] := by simp [forwarded, hwrite.2]
      simp only [dirtyLines, afterHit, if_pos hwrite, hcalls, List.countP_nil]
      rw [hwrite.1]
      simp only [Bool.toNat_true] at hsum ⊢
      omega
    · have hcalls : (forwarded geo r).countP Request.isWrite ≤ r.isWrite.toNat := by
        unfold forwarded
        split_ifs with hf
        · simp [hf.1]
        · simp
      simp only [dirtyLines, afterHit, if_neg hwrite]
      omega
  | around hw hr ha =>
    simp only [dirtyLines, missed_sets, List.countP_cons, List.countP_nil, hr]
    simp
    omega
  | fill e e' hw ha =>
    have hsum := sum_putLine c.sets (geo.setOf r.addr) (c.pickWay e (geo.setOf r.addr)).1
      (filledLine geo r)
    have hvictim : (c.victimWrite (geo.setOf r.addr) (geo.decode r.addr).setIndex
        (c.pickWay e (geo.setOf r.addr)).1).countP Request.isWrite ≤
        (c.sets (geo.setOf r.addr) (c.pickWay e (geo.setOf r.addr)).1).dirty.toNat := by
      unfold victimWrite
      split_ifs with hd
      · simp [hd.2.1]
      · simp
    have hforward : (forwarded geo r).countP Request.isWrite + (filledLine geo r).dirty.toNat ≤
        r.isWrite.toNat := by
      cases hr : r.isWrite <;> cases hp : geo.cfg.writePolicy <;> simp [forwarded, filledLine, hr, hp]
    simp only [dirtyLines, afterFill, fillCalls, List.countP_cons, List.countP_append,
      Bool.false_eq_true, ↓reduceIte]
    omega

end Cache

def Chain.reads : {geos : List Geometry} → Chain ρ Memory geos → ℕ
  | [], m => Memory.reads m
  | _ :: _, s => s.1.stats.reads

def Chain.writes : {geos : List Geometry} → Chain ρ Memory geos → ℕ
  | [], m => Memory.writes m
  | _ :: _, s => s.1.stats.writes

section

variable [ReplacementPolicy ε ρ]

theorem Chain.counts (geos : List Geometry) (s : Chain ρ Memory geos) (e : ε) (r : Request) :
    Chain.reads (serve s e r).2.1 = s.reads + (isRead r).toNat ∧
      Chain.writes (serve s e r).2.1 = s.writes + r.isWrite.toNat := by
  cases geos with
  | nil =>
    obtain ⟨addr, isWrite⟩ := r
    cases isWrite <;> exact ⟨rfl, rfl⟩
  | cons geo geos =>
    obtain ⟨c, next⟩ := s
    obtain ⟨calls, hstep, -⟩ := Cache.access_step (σ := Chain ρ Memory geos) c next e r
    obtain ⟨-, -, -, hreads, hwrites⟩ := hstep.counters
    exact ⟨hreads, hwrites⟩

def NotAmplified : {geos : List Geometry} → Chain ρ Memory geos → Prop
  | [], _ => True
  | _ :: _, s => Chain.writes s.2 + s.1.dirtyLines ≤ s.1.stats.writes ∧ NotAmplified s.2

omit [ReplacementPolicy ε ρ] in
theorem NotAmplified.memory_le {geos : List Geometry} {s : Chain ρ Memory geos}
    (h : NotAmplified s) : s.memory.writes ≤ s.writes := by
  induction geos with
  | nil => exact le_rfl
  | cons geo geos ih =>
    obtain ⟨hhere, hbelow⟩ := h
    have := ih hbelow
    change Memory.writes (Chain.memory s.2) ≤ s.1.stats.writes
    omega

theorem notAmplified_serve (geos : List Geometry) (s : Chain ρ Memory geos) (e : ε) (r : Request)
    (h : NotAmplified s) : NotAmplified (serve s e r).2.1 := by
  induction geos generalizing e r with
  | nil => trivial
  | cons geo geos ih =>
    obtain ⟨c, next⟩ := s
    obtain ⟨hhere, hbelow⟩ := h
    obtain ⟨calls, hstep, hcalls⟩ := Cache.access_step (σ := Chain ρ Memory geos) c next e r
    have hcount := hcalls.count (f := Chain.writes) (p := Request.isWrite)
      fun s e r => (Chain.counts geos s e r).2
    obtain ⟨-, -, -, -, hwrites⟩ := hstep.counters
    have hstores := hstep.stores
    refine ⟨?_, hcalls.invariant (fun s e r => ih s e r) hbelow⟩
    calc Chain.writes (serve (c, next) e r).2.1.2 + (serve (c, next) e r).2.1.1.dirtyLines
        = next.writes + (calls.countP Request.isWrite +
            (serve (c, next) e r).2.1.1.dirtyLines) := by rw [hcount, Nat.add_assoc]
      _ ≤ (next.writes + c.dirtyLines) + r.isWrite.toNat := by omega
      _ ≤ c.stats.writes + r.isWrite.toNat := Nat.add_le_add_right hhere _
      _ = (serve (c, next) e r).2.1.1.stats.writes := hwrites.symm

theorem Chain.writes_run (geos : List Geometry) (s : Chain ρ Memory geos) (e : ε)
    (reqs : List Request) :
    Chain.writes (run s e reqs).2.1 = s.writes + reqs.countP Request.isWrite :=
  (run_called s e reqs).count fun s e r => (Chain.counts geos s e r).2

theorem memory_writes_serve (geos : List Geometry)
    (hgeos : ∀ geo ∈ geos, geo.cfg.writePolicy = .WriteThrough) (s : Chain ρ Memory geos) (e : ε)
    (r : Request) : (Chain.memory (serve s e r).2.1).writes = s.memory.writes + r.isWrite.toNat := by
  induction geos generalizing e r with
  | nil => exact (Chain.counts [] s e r).2
  | cons geo geos ih =>
    obtain ⟨c, next⟩ := s
    obtain ⟨calls, hstep, hcalls⟩ := Cache.access_step (σ := Chain ρ Memory geos) c next e r
    have hcount := hcalls.count (f := fun s => (Chain.memory s).writes) (p := Request.isWrite)
      fun s e r => ih (fun geo h => hgeos geo (List.mem_cons_of_mem _ h)) s e r
    obtain ⟨hforward, -⟩ := hstep.traffic.2.2.1 (hgeos geo List.mem_cons_self)
    have hone : calls.countP Request.isWrite = r.isWrite.toNat := by
      rw [hforward]
    rw [hone] at hcount
    exact hcount

omit [ReplacementPolicy ε ρ] in
theorem notAmplified_fresh (order : HashOrder UInt64 ℕ) (make : Chain.Policies ρ)
    (geos : List Geometry) : NotAmplified (Chain.fresh order make ({} : Memory) geos) ∧
      Chain.writes (Chain.fresh order make ({} : Memory) geos) = 0 := by
  induction geos with
  | nil => exact ⟨trivial, rfl⟩
  | cons geo geos ih =>
    refine ⟨⟨?_, ih.1⟩, rfl⟩
    have hdirty : (Cache.fresh order (make geos.length geo)).dirtyLines = 0 := by
      simp [Cache.dirtyLines, Cache.fresh]
    exact Nat.add_le_add ih.2.le hdirty.le

end

theorem stores_expand (trace : List Access) :
    (trace.flatMap Access.expand).countP Request.isWrite =
      trace.countP (fun a => a.op = .Write) + trace.countP (fun a => a.op = .Modify) := by
  induction trace with
  | nil => rfl
  | cons a trace ih =>
    obtain ⟨op, addr, size⟩ := a
    rw [List.flatMap_cons, List.countP_append, ih]
    cases op <;> simp [Access.expand] <;> omega

namespace CacheHierarchy

variable [ReplacementPolicy ε ρ]

theorem stores_not_amplified {order : HashOrder UInt64 ℕ} {make : Chain.Policies ρ}
    {cfgs : List CacheConfig} {memTime : ℚ} {h : CacheHierarchy ρ}
    (hok : new order make cfgs memTime = .ok h) (e : ε) :
    (∀ reqs, NotAmplified (run h.levels e reqs).2.1 ∧
      (run h.levels e reqs).2.1.memory.writes ≤ reqs.countP Request.isWrite) ∧
    ∀ trace, NotAmplified (h.feedAll e trace).1.levels ∧
      (h.feedAll e trace).1.levels.memory.writes ≤
        trace.countP (fun a => a.op = .Write) + trace.countP (fun a => a.op = .Modify) ∧
      ((∀ cfg ∈ cfgs, cfg.writePolicy = .WriteThrough) →
        (h.feedAll e trace).1.levels.memory.writes =
          trace.countP (fun a => a.op = .Write) + trace.countP (fun a => a.op = .Modify)) := by
  obtain ⟨hcfgs, hfresh⟩ := new_ok hok
  have hlevels : h.levels = Chain.fresh order make ({} : Memory) (h.l1 :: h.lower) := by
    rw [hfresh]
    rfl
  obtain ⟨hinit, hzero⟩ := notAmplified_fresh order make (h.l1 :: h.lower)
  rw [← hlevels] at hinit hzero
  have hall : ∀ reqs, NotAmplified (run h.levels e reqs).2.1 ∧
      (run h.levels e reqs).2.1.memory.writes ≤ reqs.countP Request.isWrite := by
    intro reqs
    have hna := (run_serves h.levels e reqs).invariant (notAmplified_serve _) hinit
    refine ⟨hna, hna.memory_le.trans ?_⟩
    rw [Chain.writes_run, hzero, Nat.zero_add]
  refine ⟨hall, fun trace => ?_⟩
  rw [feedAll_eq, ← stores_expand]
  refine ⟨(hall _).1, (hall _).2, fun hWT => ?_⟩
  have hgeos : ∀ geo ∈ h.l1 :: h.lower, geo.cfg.writePolicy = .WriteThrough := by
    intro geo hgeo
    exact hWT _ (hcfgs ▸ List.mem_map_of_mem hgeo)
  have hcount := (run_called h.levels e (trace.flatMap Access.expand)).count
    (f := fun s => (Chain.memory s).writes) (memory_writes_serve _ hgeos)
  have hmem : h.levels.memory.writes = 0 := by
    have := hinit.memory_le
    omega
  rw [hcount, hmem, Nat.zero_add]

theorem stores_not_amplified_golden :
    ∃ h : CacheHierarchy BuiltinPolicy,
      new .newestFirst builtinPolicies [golden] 100 = .ok h ∧
      (h.feedAll RandStream.zeros [⟨.Write, 0, 4⟩, ⟨.Modify, 16, 4⟩]).1.levels.memory.writes
        ≤ 2 := by
  have hok : new .newestFirst builtinPolicies [golden] 100 =
      .ok (fresh .newestFirst builtinPolicies goldenGeometry [] 100) := rfl
  exact ⟨_, hok, ((stores_not_amplified hok _).2 _).2.1⟩

end CacheHierarchy

end CacheSim
