import Mathlib

/-!
Writes to registers that do not overlap. What a sequence of writes leaves behind is told by the latest
write to each register. Sequences list the latest write first.
-/

namespace CacheSim.LastWrite

variable {σ χ κ : Type}

/-- `act x` writes the register `key x` of the state and nothing else. -/
structure Writes (key : χ → κ) (act : χ → σ → σ) : Prop where
  apart : ∀ x y s, key x ≠ key y → act x (act y s) = act y (act x s)
  covers : ∀ x y s, key x = key y → act x (act y s) = act x s

def latest [DecidableEq κ] (key : χ → κ) (k : κ) (h : List χ) : Option χ := h.find? fun x => key x = k

namespace Writes

variable {key : χ → κ} {act : χ → σ → σ}

theorem foldr_insert (hw : Writes key act) (s : σ) {x : χ} {p : List χ} (hp : ∀ y ∈ p, key y ≠ key x)
    (q : List χ) : (p ++ x :: q).foldr act s = act x ((p ++ q).foldr act s) := by
  induction p with
  | nil => rfl
  | cons y p ih =>
    rw [List.cons_append, List.cons_append, List.foldr_cons, List.foldr_cons,
      ih fun z hz => hp z (List.mem_cons_of_mem y hz)]
    exact hw.apart y x _ (hp y List.mem_cons_self)

theorem foldr_forget [DecidableEq κ] (hw : Writes key act) (s : σ) (x : χ) (h : List χ) :
    act x (h.foldr act s) = act x ((h.filter fun y => key y ≠ key x).foldr act s) := by
  induction h with
  | nil => rfl
  | cons y h ih =>
    by_cases hy : key y = key x
    · rw [List.foldr_cons, hw.covers x y _ hy.symm, ih, List.filter_cons_of_neg (by simpa using hy)]
    · rw [List.foldr_cons, List.filter_cons_of_pos (by simpa using hy), List.foldr_cons,
        hw.apart x y _ (Ne.symm hy), ih, hw.apart x y _ (Ne.symm hy)]

end Writes

section

variable [DecidableEq κ] {key : χ → κ}

theorem latest_cons_ne {x : χ} {k : κ} (hx : key x ≠ k) (h : List χ) :
    latest key k (x :: h) = latest key k h := List.find?_cons_of_neg (by simpa using hx)

theorem latest_append (k : κ) (p q : List χ) :
    latest key k (p ++ q) = (latest key k p).or (latest key k q) := List.find?_append

theorem latest_cons_self (x : χ) (h : List χ) : latest key (key x) (x :: h) = some x :=
  List.find?_cons_of_pos (by simp)

theorem latest_eq_none {k : κ} {h : List χ} : latest key k h = none ↔ ∀ x ∈ h, key x ≠ k := by
  simp [latest]

theorem latest_filter {k k' : κ} (hk : k ≠ k') (h : List χ) :
    latest key k (h.filter fun y => key y ≠ k') = latest key k h := by
  induction h with
  | nil => rfl
  | cons x h ih =>
    by_cases hx : key x = k'
    · rw [List.filter_cons_of_neg (by simpa using hx), ih, latest_cons_ne (by rw [hx]; exact hk.symm)]
    · rw [List.filter_cons_of_pos (by simpa using hx)]
      by_cases hxk : key x = k
      · subst hxk
        rw [latest_cons_self, latest_cons_self]
      · rw [latest_cons_ne hxk, latest_cons_ne hxk, ih]

theorem latest_filter_self (k : κ) (h : List χ) :
    latest key k (h.filter fun y => key y ≠ k) = none := by
  rw [latest_eq_none]
  intro x hx
  simpa using (List.mem_filter.mp hx).2

end

theorem Writes.foldr_eq [DecidableEq κ] {key : χ → κ} {act : χ → σ → σ} (hw : Writes key act) (s : σ) {h h' : List χ}
    (hlast : ∀ k, latest key k h = latest key k h') : h.foldr act s = h'.foldr act s := by
  induction hn : h.length using Nat.strong_induction_on generalizing h h' with
  | _ n ih =>
    cases h with
    | nil =>
      have hnone : h' = [] := by
        apply List.eq_nil_iff_forall_not_mem.mpr
        intro x hx
        exact latest_eq_none.mp (hlast (key x)).symm x hx rfl
      rw [hnone]
    | cons x t =>
      have hfind : latest key (key x) h' = some x := by rw [← hlast, latest_cons_self]
      obtain ⟨-, p, q, rfl, hp⟩ := List.find?_eq_some_iff_append.mp hfind
      have hfree : ∀ y ∈ p, key y ≠ key x := fun y hy => by simpa using hp y hy
      rw [List.foldr_cons, hw.foldr_insert s hfree, hw.foldr_forget s x t, hw.foldr_forget s x (p ++ q)]
      congr 1
      have hshort : (t.filter fun y => key y ≠ key x).length < n := by
        have hle := List.length_filter_le (fun y => decide (key y ≠ key x)) t
        rw [List.length_cons] at hn
        omega
      apply ih _ hshort _ rfl
      intro k
      by_cases hk : k = key x
      · subst hk
        rw [latest_filter_self, latest_filter_self]
      · have hrest := hlast k
        rw [latest_cons_ne (Ne.symm hk)] at hrest
        rw [latest_filter hk, latest_filter hk, hrest]
        rw [latest_append, latest_append, latest_cons_ne (Ne.symm hk)]

end CacheSim.LastWrite
