import CacheSim.Traffic

namespace CacheSim

open Service

variable {ε : Type} {ρ : ℕ → ℕ → Type} {geo : Geometry}

def isReadMiss (x : Request × Bool) : Bool := !x.1.isWrite && !x.2

def isWriteMiss (x : Request × Bool) : Bool := x.1.isWrite && !x.2

namespace Cache

structure Conserved (c : Cache ρ geo) (log : List (Request × Bool)) (reads writes : ℕ) : Prop where
  reads_allocate : geo.cfg.allocPolicy = .WriteAllocate → reads = c.stats.misses
  reads_around : geo.cfg.allocPolicy = .NoWriteAllocate → reads = log.countP isReadMiss
  writes_through : geo.cfg.writePolicy = .WriteThrough →
    writes = c.stats.writes ∧ c.stats.writebacks = 0
  writes_back : geo.cfg.writePolicy = .WriteBack → geo.cfg.allocPolicy = .WriteAllocate →
    writes = c.stats.writebacks
  writes_back_around : geo.cfg.writePolicy = .WriteBack → geo.cfg.allocPolicy = .NoWriteAllocate →
    writes = c.stats.writebacks + log.countP isWriteMiss
  counted : log.countP isReadMiss + log.countP isWriteMiss = c.stats.misses

theorem fresh_conserved (order : HashOrder UInt64 ℕ) (repl : ρ geo.sets geo.ways) :
    (fresh order repl).Conserved [] 0 0 := by
  constructor <;> simp [fresh]

theorem Conserved.step [ReplacementPolicy ε ρ] {c c' : Cache ρ geo} {log : List (Request × Bool)}
    {reads writes : ℕ} (hc : c.Conserved log reads writes) {r : Request} {b : Bool}
    {calls : List Request} (h : Step ε c r b calls c') :
    c'.Conserved (log ++ [(r, b)]) (reads + calls.countP isRead)
      (writes + calls.countP Request.isWrite) := by
  obtain ⟨hWA, hNWA, hWT, hWB, hWBN⟩ := h.traffic
  obtain ⟨-, -, hmisses, -, hwrites⟩ := h.counters
  have hread : (log ++ [(r, b)]).countP isReadMiss =
      log.countP isReadMiss + (!r.isWrite && !b).toNat := by
    cases hr : r.isWrite <;> cases b <;> simp [isReadMiss, hr]
  have hwrite : (log ++ [(r, b)]).countP isWriteMiss =
      log.countP isWriteMiss + (r.isWrite && !b).toNat := by
    cases hr : r.isWrite <;> cases b <;> simp [isWriteMiss, hr]
  constructor
  · intro ha
    rw [hc.reads_allocate ha, hWA ha, hmisses]
  · intro ha
    rw [hc.reads_around ha, hNWA ha, hread]
  · intro hp
    obtain ⟨hold, hzero⟩ := hc.writes_through hp
    obtain ⟨hnew, hsame⟩ := hWT hp
    exact ⟨by rw [hold, hnew, hwrites], by rw [hsame, hzero]⟩
  · intro hp ha
    rw [hc.writes_back hp ha, hWB hp ha]
  · intro hp ha
    have hold := hc.writes_back_around hp ha
    have hnew := hWBN hp ha
    rw [hwrite]
    omega
  · have hold := hc.counted
    rw [hread, hwrite, hmisses]
    cases r.isWrite <;> cases b <;> simp <;> omega

end Cache

namespace Traced

def reads {geos : List Geometry} (t : Traced ρ Memory geos) : ℕ := t.erase.reads

def writes {geos : List Geometry} (t : Traced ρ Memory geos) : ℕ := t.erase.writes

def Conserved : {geos : List Geometry} → Traced ρ Memory geos → Prop
  | [], _ => True
  | _ :: _, t => t.state.1.Conserved (Logged.log t) (reads t.state.2) (writes t.state.2) ∧
      Conserved t.state.2

variable [ReplacementPolicy ε ρ]

theorem counts (geos : List Geometry) (t : Traced ρ Memory geos) (e : ε) (r : Request) :
    reads (serve t e r).2.1 = t.reads + (isRead r).toNat ∧
      writes (serve t e r).2.1 = t.writes + r.isWrite.toNat := by
  have herase := (erase_commutes geos).apply t e r
  have hcounts := Chain.counts geos t.erase e r
  rwa [herase] at hcounts

theorem conserved_serve (geos : List Geometry) (t : Traced ρ Memory geos) (e : ε) (r : Request)
    (h : t.Conserved) : Conserved (serve t e r).2.1 := by
  induction geos generalizing e r with
  | nil => trivial
  | cons geo geos ih =>
    obtain ⟨⟨c, next⟩, log⟩ := t
    obtain ⟨hhere, hbelow⟩ := h
    obtain ⟨calls, hstep, hcalls⟩ := Cache.access_step (σ := Traced ρ Memory geos) c next e r
    have hreads := hcalls.count (f := reads) (p := isRead) fun t e r => (counts geos t e r).1
    have hwrites := hcalls.count (f := writes) (p := Request.isWrite) fun t e r => (counts geos t e r).2
    have hnew := hhere.step hstep
    rw [← hreads, ← hwrites] at hnew
    exact ⟨hnew, hcalls.invariant (fun t e r => ih t e r) hbelow⟩

omit [ReplacementPolicy ε ρ] in
theorem conserved_fresh (order : HashOrder UInt64 ℕ) (make : Chain.Policies ρ)
    (geos : List Geometry) : (fresh order make ({} : Memory) geos).Conserved ∧
      (fresh order make ({} : Memory) geos).reads = 0 ∧
      (fresh order make ({} : Memory) geos).writes = 0 := by
  induction geos with
  | nil => exact ⟨trivial, rfl, rfl⟩
  | cons geo geos ih =>
    obtain ⟨hbelow, hreads, hwrites⟩ := ih
    refine ⟨⟨?_, hbelow⟩, rfl, rfl⟩
    have hhere : (Cache.fresh order (make geos.length geo)).Conserved []
        (fresh order make ({} : Memory) geos).reads (fresh order make ({} : Memory) geos).writes := by
      rw [hreads, hwrites]
      exact Cache.fresh_conserved order (make geos.length geo)
    exact hhere

end Traced

namespace CacheHierarchy

variable [ReplacementPolicy ε ρ]

theorem traffic_conserved {order : HashOrder UInt64 ℕ} {make : Chain.Policies ρ}
    {cfgs : List CacheConfig} {memTime : ℚ} {h : CacheHierarchy ρ}
    (hok : new order make cfgs memTime = .ok h) (e : ε) (reqs : List Request) :
    let t := (run (Traced.fresh order make ({} : Memory) (h.l1 :: h.lower)) e reqs).2.1
    t.Conserved ∧ t.erase = (run h.levels e reqs).2.1 ∧
      ∀ trace : List Access, trace.flatMap Access.expand = reqs →
        (h.feedAll e trace).1 = { h with levels := t.erase } := by
  obtain ⟨-, hfresh⟩ := new_ok hok
  have hlevels : h.levels = Chain.fresh order make ({} : Memory) (h.l1 :: h.lower) := by
    rw [hfresh]
    rfl
  have herase := Traced.erase_run order make ({} : Memory) (h.l1 :: h.lower) e reqs
  rw [← hlevels] at herase
  refine ⟨?_, herase, ?_⟩
  · exact (run_serves _ e reqs).invariant (Traced.conserved_serve _)
      (Traced.conserved_fresh order make (h.l1 :: h.lower)).1
  · rintro trace rfl
    rw [herase, feedAll_eq]

theorem traffic_conserved_golden :
    ∃ h : CacheHierarchy BuiltinPolicy,
      new .newestFirst builtinPolicies [golden] 100 = .ok h ∧
      (run (Traced.fresh .newestFirst builtinPolicies ({} : Memory) (h.l1 :: h.lower))
        RandStream.zeros [⟨0, false⟩, ⟨16, true⟩]).2.1.Conserved := by
  have hok : new .newestFirst builtinPolicies [golden] 100 =
      .ok (fresh .newestFirst builtinPolicies goldenGeometry [] 100) := rfl
  exact ⟨_, hok, (traffic_conserved hok _ [⟨0, false⟩, ⟨16, true⟩]).1⟩

end CacheHierarchy

end CacheSim
