import CacheSim.Hierarchy
import CacheSim.TraceFile

/-!
The workload generator `scripts/tracegen.cpp`: the loops over the data and the trace they print. Where
the data are, how the list is shuffled and what the generator picks are parameters.
-/

namespace CacheSim.Tracegen

open TraceReader

def load (p : UInt64) : Access := ⟨.Read, p, 8⟩

def store (p : UInt64) : Access := ⟨.Write, p, 8⟩

def print (trace : List Access) : List Char := trace.flatMap fun a => emit (letterOf a.op) a.addr a.size

def elem (a : UInt64) (i : ℕ) : UInt64 := a + UInt64.ofNat (8 * i)

structure Output where
  trace : List Access
  err : String := ""
  deriving DecidableEq

def impossible : String := "impossible\n"

def matmul (A B C : UInt64) (n : ℤ) : Output where
  trace := (List.range n.toNat).flatMap fun i => (List.range n.toNat).flatMap fun j =>
    (List.range n.toNat).flatMap fun k =>
      [load (elem A (i * n.toNat + k)), load (elem B (k * n.toNat + j)), load (elem C (i * n.toNat + j)),
        store (elem C (i * n.toNat + j))]

structure Node where
  next : Option ℕ := none
  payload : ℤ := 0

def nextAddr (pool : UInt64) (i : ℕ) : UInt64 := pool + UInt64.ofNat (16 * i)

def payloadAddr (pool : UInt64) (i : ℕ) : UInt64 := nextAddr pool i + 8

def link (order : List ℕ) (pool : ℕ → Node) (i : ℕ) : ℕ → Node :=
  Function.update pool (order.getD i 0) ⟨some (order.getD ((i + 1) % order.length) 0), i⟩

def links (order : List ℕ) : ℕ → Node := (List.range order.length).foldl (link order) fun _ => {}

/-- The loop over the steps; following a null pointer is undefined. -/
def walk (pool : UInt64) (nodes : ℕ → Node) : ℕ → Option ℕ → ℤ → Option (List Access × ℤ)
  | 0, _, sum => some ([], sum)
  | _ + 1, none, _ => none
  | steps + 1, some i, sum =>
    match walk pool nodes steps (nodes i).next (sum + (nodes i).payload) with
    | none => none
    | some (trace, sum) => some (load (nextAddr pool i) :: load (payloadAddr pool i) :: trace, sum)

/-- A negative number of nodes is no size of a vector, and no node is first in an empty one. -/
def listwalk (pool : UInt64) (shuffle : List ℕ → List ℕ) (nodes steps : ℤ) : Option Output :=
  if nodes ≤ 0 then none
  else
    let order := shuffle (List.range nodes.toNat)
    match walk pool (links order) steps.toNat (some (order.getD 0 0)) 0 with
    | none => none
    | some (trace, sum) => some ⟨trace, if sum = -1 then impossible else ""⟩

def vector (bytes : ℤ) : Option (List UInt64) :=
  if bytes.tdiv 8 < 0 then none else some (List.replicate (bytes.tdiv 8).toNat 1)

def seqscan (base : UInt64) (bytes passes : ℤ) : Option Output :=
  match vector bytes with
  | none => none
  | some a => some
    { trace := (List.replicate passes.toNat ((List.range a.length).map fun i => load (elem base i))).flatten
      err := if (List.replicate passes.toNat a).flatten.sum = 0 then impossible else "" }

/-- `pick hi` are the draws from the numbers up to `hi`; for an empty vector they are out of its range. -/
def randscan (base : UInt64) (pick : ℕ → ℕ → ℕ) (bytes count : ℤ) : Option Output :=
  match vector bytes with
  | none => none
  | some a =>
    if a = [] ∧ 0 < count then none
    else
      let picks := (List.range count.toNat).map (pick (a.length - 1))
      some { trace := picks.map fun i => load (elem base i)
             err := if (picks.map fun i => a.getD i 0).sum = 0 then impossible else "" }

def usage : String :=
  "usage: tracegen matmul N | listwalk NODES STEPS | seqscan BYTES PASSES | randscan BYTES COUNT\n"

structure Machine where
  A : UInt64
  B : UInt64
  C : UInt64
  shuffle : List ℕ → List ℕ
  pick : ℕ → ℕ → ℕ
  atoi : String → ℤ
  atol : String → ℤ

/-- `main`, with its exit code; it has no outcome where a vector cannot be built or behaviour is undefined. -/
def main (m : Machine) : List String → Option (ℕ × Output)
  | ["matmul", n] => some (0, matmul m.A m.B m.C (m.atoi n))
  | ["listwalk", nodes, steps] => (listwalk m.A m.shuffle (m.atoi nodes) (m.atoi steps)).map (0, ·)
  | ["seqscan", bytes, passes] => (seqscan m.A (m.atol bytes) (m.atoi passes)).map (0, ·)
  | ["randscan", bytes, count] => (randscan m.A m.pick (m.atol bytes) (m.atol count)).map (0, ·)
  | _ => some (2, ⟨[], usage⟩)

section

variable {m : Machine} {out : Output}

theorem main_listwalk {nodes steps : String}
    (h : listwalk m.A m.shuffle (m.atoi nodes) (m.atoi steps) = some out) :
    main m ["listwalk", nodes, steps] = some (0, out) := by
  rw [main, h]
  rfl

theorem main_seqscan {bytes passes : String} (h : seqscan m.A (m.atol bytes) (m.atoi passes) = some out) :
    main m ["seqscan", bytes, passes] = some (0, out) := by
  rw [main, h]
  rfl

theorem main_randscan {bytes count : String} (h : randscan m.A m.pick (m.atol bytes) (m.atol count) = some out) :
    main m ["randscan", bytes, count] = some (0, out) := by
  rw [main, h]
  rfl

end

variable {ulongBits : ℕ}

theorem records_print (hbits : 32 ≤ ulongBits) (trace : List Access) :
    records ulongBits (print trace) = trace := by
  induction trace with
  | nil => exact records_nil
  | cons a trace ih =>
    have htext : print (a :: trace) = emitLine (letterOf a.op) a.addr a.size ++ '\n' :: print trace := by
      simp [print, emit]
    have hdoc := emitLine_documented a false
    have hline := emitLine_newline a false
    rw [if_neg Bool.false_ne_true, List.append_nil] at hdoc hline
    have hrecord : recordOf ulongBits (emitLine (letterOf a.op) a.addr a.size) = some a := by
      rw [recordOf, readLine_documented hbits hdoc]
    rw [htext, records_line (getline_append hline _), hrecord, ih]
    rfl

section

variable {order : List ℕ}

theorem links_prefix (horder : order.Nodup) {m i : ℕ} (hi : i < m) (hm : m ≤ order.length) :
    (List.range m).foldl (link order) (fun _ => {}) (order.getD i 0) =
      ⟨some (order.getD ((i + 1) % order.length) 0), i⟩ := by
  induction m with
  | zero => omega
  | succ m ih =>
    rw [List.range_succ, List.foldl_append, List.foldl_cons, List.foldl_nil, link]
    by_cases him : i = m
    · rw [him, Function.update_self]
    · have hne : order.getD i 0 ≠ order.getD m 0 := by
        rw [List.getD_eq_getElem _ _ (by omega), List.getD_eq_getElem _ _ (by omega), ne_eq,
          horder.getElem_inj_iff]
        exact him
      rw [Function.update_of_ne hne, ih (by omega) (by omega)]

theorem links_at (horder : order.Nodup) {i : ℕ} (hi : i < order.length) :
    links order (order.getD i 0) = ⟨some (order.getD ((i + 1) % order.length) 0), i⟩ :=
  links_prefix horder hi le_rfl

def visit (pool : UInt64) (i : ℕ) : List Access := [load (nextAddr pool i), load (payloadAddr pool i)]

theorem walk_visits (horder : order.Nodup) (hne : 0 < order.length) (pool : UInt64) (steps k : ℕ) (sum : ℤ) :
    walk pool (links order) steps (some (order.getD (k % order.length) 0)) sum =
      some ((List.range steps).flatMap fun s => visit pool (order.getD ((k + s) % order.length) 0),
        sum + ((List.range steps).map fun s => (((k + s) % order.length : ℕ) : ℤ)).sum) := by
  induction steps generalizing k sum with
  | zero => simp [walk]
  | succ steps ih =>
    have hstep := ih (k + 1) (sum + ((k % order.length : ℕ) : ℤ))
    rw [walk, links_at horder (Nat.mod_lt k hne), Nat.mod_add_mod]
    dsimp only
    rw [hstep, List.range_succ_eq_map]
    simp only [List.flatMap_cons, List.flatMap_map, List.map_cons, List.map_map, List.sum_cons,
      Function.comp_def, Nat.add_zero, Nat.succ_eq_add_one, ← Nat.add_assoc, Nat.add_right_comm k 1]
    rw [visit, add_assoc]
    rfl

end

theorem listwalk_eq {shuffle : List ℕ → List ℕ} (hshuffle : ∀ l, (shuffle l).Perm l) (pool : UInt64)
    {nodes : ℤ} (hnodes : 0 < nodes) (steps : ℤ) :
    listwalk pool shuffle nodes steps = some ⟨(List.range steps.toNat).flatMap fun s =>
      visit pool ((shuffle (List.range nodes.toNat)).getD (s % nodes.toNat) 0), ""⟩ := by
  have hperm := hshuffle (List.range nodes.toNat)
  have hlength : (shuffle (List.range nodes.toNat)).length = nodes.toNat := by
    rw [hperm.length_eq, List.length_range]
  have hnodup : (shuffle (List.range nodes.toNat)).Nodup := hperm.nodup_iff.mpr List.nodup_range
  have hwalk := walk_visits hnodup (by omega) pool steps.toNat 0 0
  rw [Nat.zero_mod] at hwalk
  simp only [hlength, Nat.zero_add, Int.zero_add] at hwalk
  rw [listwalk, if_neg (not_le.mpr hnodes)]
  dsimp only
  rw [hwalk]
  dsimp only
  have hsum : (0 : ℤ) ≤ ((List.range steps.toNat).map fun s => ((s % nodes.toNat : ℕ) : ℤ)).sum := by
    apply List.sum_nonneg
    intro x hx
    obtain ⟨s, -, rfl⟩ := List.mem_map.mp hx
    exact Int.natCast_nonneg _
  rw [if_neg (by omega)]

theorem rounds_flatMap {α : Type} (n rounds : ℕ) (g : ℕ → List α) :
    ((List.range (rounds * n)).flatMap fun s => g (s % n)) =
      (List.replicate rounds ((List.range n).flatMap g)).flatten := by
  induction rounds with
  | zero => simp
  | succ rounds ih =>
    rw [Nat.add_mul, Nat.one_mul, List.range_add, List.flatMap_append, ih, List.replicate_succ',
      List.flatten_append, List.flatten_singleton, List.flatMap_map]
    congr 1
    apply List.flatMap_congr
    intro s hs
    rw [Nat.mul_add_mod_self_right, Nat.mod_eq_of_lt (List.mem_range.mp hs)]

end CacheSim.Tracegen
