import CacheSim.CacheStep

namespace CacheSim

open Service

variable {ε σ : Type} {ρ : ℕ → ℕ → Type} {geo : Geometry}

structure Stats.Counts (s : Stats) (log : List (Request × Bool)) : Prop where
  accesses : s.accesses = log.length
  hits : s.hits = log.countP fun x => x.2
  misses : s.misses = log.countP fun x => !x.2
  reads : s.reads = log.countP fun x => !x.1.isWrite
  writes : s.writes = log.countP fun x => x.1.isWrite

theorem Stats.Counts.balance {s : Stats} {log : List (Request × Bool)} (h : s.Counts log) :
    s.hits + s.misses = s.accesses := by
  rw [h.hits, h.misses, h.accesses, List.length_eq_countP_add_countP fun x => x.2]
  simp

namespace Cache

theorem Step.counts [ReplacementPolicy ε ρ] {c c' : Cache ρ geo} {r : Request} {b : Bool}
    {calls : List Request} (h : Step ε c r b calls c') {log : List (Request × Bool)}
    (hc : c.stats.Counts log) : c'.stats.Counts ((r, b) :: log) := by
  obtain ⟨h1, h2, h3, h4, h5⟩ := h.counters
  constructor
  · rw [h1, hc.accesses, List.length_cons]
  · rw [h2, hc.hits, List.countP_cons]
    cases b <;> rfl
  · rw [h3, hc.misses, List.countP_cons]
    cases b <;> rfl
  · rw [h4, hc.reads, List.countP_cons]
    cases r.isWrite <;> rfl
  · rw [h5, hc.writes, List.countP_cons]
    cases r.isWrite <;> rfl

theorem run_counts [ReplacementPolicy ε ρ] [MemoryLevel ε σ] (order : HashOrder UInt64 ℕ)
    (repl : ρ geo.sets geo.ways) (next : σ) (e : ε) (reqs : List Request) :
    let out := run ((fresh order repl, next) : Cache ρ geo × σ) e reqs
    out.2.1.1.stats.Counts (reqs.zip out.1) := by
  intro out
  have hserves := run_serves ((fresh order repl, next) : Cache ρ geo × σ) e reqs
  have hcounts : out.2.1.1.stats.Counts (reqs.zip out.1).reverse := by
    apply hserves.history_nil (P := fun past s => s.1.stats.Counts past)
    · rintro past ⟨c, next⟩ e r hpast
      obtain ⟨calls, hstep, -⟩ := access_step c next e r
      exact hstep.counts hpast
    · exact ⟨rfl, rfl, rfl, rfl, rfl⟩
  obtain ⟨h1, h2, h3, h4, h5⟩ := hcounts
  simp only [List.length_reverse, List.countP_reverse] at h1 h2 h3 h4 h5
  exact ⟨h1, h2, h3, h4, h5⟩

theorem run_accesses [ReplacementPolicy ε ρ] [MemoryLevel ε σ] (order : HashOrder UInt64 ℕ)
    (repl : ρ geo.sets geo.ways) (next : σ) (e : ε) (reqs : List Request) :
    (run ((fresh order repl, next) : Cache ρ geo × σ) e reqs).2.1.1.stats.accesses = reqs.length := by
  rw [(run_counts order repl next e reqs).accesses, List.length_zip, run_length, min_self]

end Cache

end CacheSim
