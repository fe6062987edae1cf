import CacheSim.Recency

/-!
Sequences of references in which an item comes back only after many others. References to one item in a
row count as one. Sequences are written latest first.
-/

namespace CacheSim.Sweep

open Recency

variable {α : Type} {k : ℕ}

def Sparse (k : ℕ) : List α → Prop
  | [] => True
  | b :: l => b ∉ l.take k ∧ Sparse k l

def expand (runs : List (α × ℕ)) : List α := runs.flatMap fun x => List.replicate (x.2 + 1) x.1

theorem expand_cons_zero (b : α) (runs : List (α × ℕ)) : expand ((b, 0) :: runs) = b :: expand runs := rfl

theorem expand_cons_succ (b : α) (n : ℕ) (runs : List (α × ℕ)) :
    expand ((b, n + 1) :: runs) = b :: expand ((b, n) :: runs) := rfl

theorem expand_append (runs runs' : List (α × ℕ)) : expand (runs ++ runs') = expand runs ++ expand runs' :=
  List.flatMap_append

theorem mem_expand {b : α} {runs : List (α × ℕ)} : b ∈ expand runs ↔ b ∈ runs.map Prod.fst := by
  simp [expand, List.mem_flatMap, List.mem_map, eq_comm]

theorem Sparse.repeated {l : List α} (hnodup : l.Nodup) (hk : k < l.length) (n : ℕ) :
    Sparse k (List.replicate n l).flatten := by
  induction n with
  | zero => trivial
  | succ n ih =>
    rw [List.replicate_succ, List.flatten_cons]
    -- the part of the pass that is still to come before the item comes back
    have hpart : ∀ l₁ l₂, l = l₁ ++ l₂ → Sparse k (l₂ ++ (List.replicate n l).flatten) := by
      intro l₁ l₂ hl
      induction l₂ generalizing l₁ with
      | nil => exact ih
      | cons b l₂ ih₂ =>
        refine ⟨?_, ih₂ (l₁ ++ [b]) (by simp [hl])⟩
        rw [hl, List.nodup_append, List.nodup_cons] at hnodup
        have hlen : k - l₂.length ≤ l₁.length := by
          rw [hl, List.length_append, List.length_cons] at hk
          omega
        change b ∉ (l₂ ++ (List.replicate n l).flatten).take k
        rw [List.take_append, List.mem_append, not_or]
        refine ⟨fun h => hnodup.2.1.1 (List.mem_of_mem_take h), fun h => ?_⟩
        cases n with
        | zero => simp at h
        | succ n =>
          rw [List.replicate_succ, List.flatten_cons, hl, List.append_assoc,
            List.take_append_of_le_length hlen] at h
          exact hnodup.2.2 b (List.mem_of_mem_take h) b List.mem_cons_self rfl
    exact hpart [] l rfl

theorem expand_reverse (runs : List (α × ℕ)) : (expand runs).reverse = expand runs.reverse := by
  simp [expand, List.reverse_flatMap, Function.comp_def]

theorem expand_repeated (n : ℕ) (runs : List (α × ℕ)) :
    (List.replicate n (expand runs)).flatten = expand (List.replicate n runs).flatten := by
  induction n with
  | zero => rfl
  | succ n ih =>
    rw [List.replicate_succ, List.replicate_succ, List.flatten_cons, List.flatten_cons, ih, expand_append]

variable [DecidableEq α]

theorem stack_expand (hk : 0 < k) {runs : List (α × ℕ)} (hsparse : Sparse k (runs.map Prod.fst)) :
    stack k ((expand runs).map fun b => (b, true)) = (runs.map Prod.fst).take k := by
  induction runs with
  | nil => simp [expand, stack]
  | cons x runs ih =>
    obtain ⟨b, n⟩ := x
    obtain ⟨hb, hrest⟩ := hsparse
    dsimp only at hb
    have hshift : (b :: runs.map Prod.fst).take k = b :: (runs.map Prod.fst).take (k - 1) := by
      obtain ⟨m, rfl⟩ : ∃ m, k = m + 1 := ⟨k - 1, by omega⟩
      rfl
    rw [List.map_cons, hshift]
    induction n with
    | zero =>
      rw [expand_cons_zero, List.map_cons, stack, ih hrest, refer_absent hk hb, List.take_take,
        min_eq_left (Nat.sub_le k 1)]
    | succ n ihn =>
      rw [expand_cons_succ, List.map_cons, stack, ihn, refer, if_pos List.mem_cons_self,
        List.erase_cons_head]

theorem exists_runs (l : List α) : ∃ runs, l = expand runs ∧ runs.map Prod.fst = l.destutter (· ≠ ·) := by
  induction l with
  | nil => exact ⟨[], rfl, rfl⟩
  | cons b l ih =>
    cases l with
    | nil => exact ⟨[(b, 0)], rfl, rfl⟩
    | cons c l =>
      obtain ⟨runs, hl, hruns⟩ := ih
      rw [List.destutter_cons'] at hruns
      rw [List.destutter_cons_cons, hl]
      split_ifs with hbc
      · exact ⟨(b, 0) :: runs, rfl, by rw [List.map_cons, hruns]⟩
      · obtain rfl : b = c := not_not.mp hbc
        cases runs with
        | nil => cases hl
        | cons x runs =>
          obtain ⟨b', n⟩ := x
          -- the first run of the rest grows
          obtain rfl : b = b' := (List.cons.inj hl).1
          exact ⟨(b, n + 1) :: runs, rfl, hruns⟩

theorem destutter_replicate (b : α) (n : ℕ) (l : List α) :
    (List.replicate n b ++ l).destutter' (· ≠ ·) b = l.destutter' (· ≠ ·) b := by
  induction n with
  | zero => rfl
  | succ n ih => rw [List.replicate_succ, List.cons_append, List.destutter'_cons_neg _ (by simp), ih]

theorem destutter_expand {runs : List (α × ℕ)} (h : (runs.map Prod.fst).Nodup) :
    (expand runs).destutter (· ≠ ·) = runs.map Prod.fst := by
  induction runs with
  | nil => rfl
  | cons x runs ih =>
    obtain ⟨b, n⟩ := x
    rw [List.map_cons, List.nodup_cons] at h
    have hfirst : expand ((b, n) :: runs) = b :: (List.replicate n b ++ expand runs) := rfl
    rw [hfirst, List.destutter_cons', destutter_replicate, List.map_cons]
    cases runs with
    | nil => rfl
    | cons y runs =>
      obtain ⟨c, m⟩ := y
      have hbc : b ≠ c := fun hbc => h.1 (hbc ▸ List.mem_cons_self)
      have hrest := ih h.2
      have hnext : expand ((c, m) :: runs) = c :: (List.replicate m c ++ expand runs) := rfl
      rw [hnext, List.destutter_cons'] at hrest
      rw [hnext, List.destutter'_cons_pos _ hbc, hrest]

end CacheSim.Sweep
