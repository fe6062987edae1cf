import CacheSim.Filtering
import CacheSim.Tally

namespace CacheSim

open Service

def Access.storeOnly (a : Access) : Access := if a.op = .Modify then { a with op := .Write } else a

namespace Cache

variable {σ τ : Type} {geo : Geometry} [MemoryLevel RandStream σ] [MemoryLevel RandStream τ]

structure Twins (s : Cache BuiltinPolicy geo × Logged σ Request Bool)
    (s' : Cache BuiltinPolicy geo × Logged τ Request Bool) : Prop where
  unnoticed : Unnoticed s s'
  alike : ∀ set, SetAlike set s.1 s'.1

namespace Twins

variable {s t : Cache BuiltinPolicy geo × Logged σ Request Bool}
  {s' t' : Cache BuiltinPolicy geo × Logged τ Request Bool} {r : Request} {a : Access}
  {calls calls' : List Request}

theorem of_set (h : Twins s s') (addr : UInt64) (hcalls : ∀ q ∈ calls, q.addr = addr)
    (hcalls' : ∀ q ∈ calls', q.addr = addr) (hs : Called RandStream s calls t)
    (hs' : Called RandStream s' calls' t') (hset : SetAlike (geo.setOf addr) t.1 t'.1)
    (hnext : Unnoticed t t') : Twins t t' := by
  refine ⟨hnext, fun set => ?_⟩
  by_cases hsame : geo.setOf addr = set
  · rw [← hsame]
    exact hset
  · have hleft : SetAlike set t.1 s'.1 := by
      apply (h.alike set).called _ hs
      intro q hq
      rwa [hcalls q hq]
    apply SetAlike.symm
    apply hleft.symm.called _ hs'
    intro q hq
    rwa [hcalls' q hq]

theorem one (h : Twins s s') (hs : Called RandStream s [r] t) (hs' : Called RandStream s' [r] t') :
    Twins t t' := by
  obtain ⟨hnext, hset⟩ := h.unnoticed.one (h.alike _) hs hs'
  have haddr : ∀ q ∈ [r], q.addr = r.addr := by simp
  exact h.of_set r.addr haddr haddr hs hs' hset hnext

theorem record (hWA : geo.cfg.allocPolicy = .WriteAllocate) (h : Twins s s')
    (hs : Called RandStream s a.expand t) (hs' : Called RandStream s' a.storeOnly.expand t') :
    Twins t t' := by
  obtain ⟨op, addr, size⟩ := a
  cases op with
  | Read => exact h.one hs hs'
  | Write => exact h.one hs hs'
  | Modify =>
    obtain ⟨hnext, hset⟩ := h.unnoticed.fetched hWA (h.alike _) hs hs'
    exact h.of_set addr (by simp [Access.expand]) (by simp [Access.expand, Access.storeOnly]) hs hs' hset hnext
  | Instr =>
    obtain rfl : s = t := hs.unnil
    obtain rfl : s' = t' := hs'.unnil
    exact h

theorem run (hWA : geo.cfg.allocPolicy = .WriteAllocate) (h : Twins s s') (e e' : RandStream)
    (trace : List Access) : Twins (Service.run s e (trace.flatMap Access.expand)).2.1
      (Service.run s' e' ((trace.map Access.storeOnly).flatMap Access.expand)).2.1 := by
  induction trace generalizing s s' e e' with
  | nil => exact h
  | cons a trace ih =>
    rw [List.map_cons, List.flatMap_cons, List.flatMap_cons, run_append, run_append]
    exact ih (h.record hWA (run_called s e _) (run_called s' e' _)) _ _

end Twins

theorem storeOnly_length (trace : List Access) : (trace.flatMap Access.expand).length =
    ((trace.map Access.storeOnly).flatMap Access.expand).length + trace.countP fun a => a.op = .Modify := by
  induction trace with
  | nil => rfl
  | cons a trace ih =>
    have hone : a.expand.length = a.storeOnly.expand.length + if a.op = .Modify then 1 else 0 := by
      obtain ⟨op, addr, size⟩ := a
      cases op <;> rfl
    rw [List.map_cons, List.flatMap_cons, List.flatMap_cons, List.length_append, List.length_append, hone, ih,
      List.countP_cons]
    simp only [decide_eq_true_eq]
    omega

theorem modify_as_store (geo : Geometry) (hWA : geo.cfg.allocPolicy = .WriteAllocate)
    (hdet : geo.cfg.replacement ≠ .Random) (order order' : HashOrder UInt64 ℕ)
    (next : Logged σ Request Bool) (next' : Logged τ Request Bool)
    (hnext : next.log.map Prod.fst = next'.log.map Prod.fst) (e e' : RandStream) (trace : List Access) :
    let start : Cache BuiltinPolicy geo × Logged σ Request Bool :=
      (fresh order (makeReplacement geo.cfg.replacement geo.sets geo.ways), next)
    let start' : Cache BuiltinPolicy geo × Logged τ Request Bool :=
      (fresh order' (makeReplacement geo.cfg.replacement geo.sets geo.ways), next')
    let t := (run start e (trace.flatMap Access.expand)).2.1
    let t' := (run start' e' ((trace.map Access.storeOnly).flatMap Access.expand)).2.1
    t.2.log.map Prod.fst = t'.2.log.map Prod.fst ∧ t.1.sets = t'.1.sets ∧
      t.1.stats.misses = t'.1.stats.misses ∧ t.1.stats.writebacks = t'.1.stats.writebacks ∧
      t.1.stats.hits = t'.1.stats.hits + trace.countP fun a => a.op = .Modify := by
  intro start start' t t'
  have hstart : Twins start start' := ⟨⟨hnext, rfl, rfl⟩, fun set => fresh_setAlike hdet order order' set⟩
  have htwins : Twins t t' := hstart.run hWA e e' trace
  have hmisses := htwins.unnoticed.misses
  refine ⟨htwins.unnoticed.sent, ?_, hmisses, htwins.unnoticed.writebacks, ?_⟩
  · funext set
    exact (htwins.alike set).lines
  · have hbalance := (run_counts order (makeReplacement geo.cfg.replacement geo.sets geo.ways) next e
      (trace.flatMap Access.expand)).balance
    have hbalance' := (run_counts order' (makeReplacement geo.cfg.replacement geo.sets geo.ways) next' e'
      ((trace.map Access.storeOnly).flatMap Access.expand)).balance
    rw [run_accesses] at hbalance hbalance'
    have hlength := storeOnly_length trace
    change t.1.stats.hits + t.1.stats.misses = _ at hbalance
    change t'.1.stats.hits + t'.1.stats.misses = _ at hbalance'
    omega

theorem modify_as_store_golden :
    let start : Cache BuiltinPolicy goldenGeometry × Logged Memory Request Bool :=
      (fresh .newestFirst (makeReplacement goldenGeometry.cfg.replacement _ _), { state := {} })
    (run start RandStream.zeros
        ([⟨.Modify, 0, 4⟩, ⟨.Read, 16, 4⟩, ⟨.Modify, 0, 4⟩].flatMap Access.expand)).2.1.2.log.map Prod.fst =
      (run start RandStream.zeros (([⟨.Modify, 0, 4⟩, ⟨.Read, 16, 4⟩, ⟨.Modify, 0, 4⟩].map
        Access.storeOnly).flatMap Access.expand)).2.1.2.log.map Prod.fst := by
  have h := modify_as_store (σ := Memory) (τ := Memory) goldenGeometry (by rfl) (by decide) .newestFirst
    .newestFirst { state := {} } { state := {} } rfl RandStream.zeros RandStream.zeros
    [⟨.Modify, 0, 4⟩, ⟨.Read, 16, 4⟩, ⟨.Modify, 0, 4⟩]
  exact h.1

end Cache

end CacheSim
