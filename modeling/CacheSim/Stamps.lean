import Mathlib

namespace CacheSim.Stamps

variable {κ : Type}

def scanMin (t : κ → ℕ) (v : κ) (l : List κ) : κ :=
  l.foldl (fun v i => if t i < t v then i else v) v

def underBound (n : ℕ) (bound : Option ℕ) : Bool := bound.all (n < ·)

/-- Scan a list from the bound above every stamp; `v` answers for the empty list. -/
def scanMinTop (t : κ → ℕ) (v : κ) (l : List κ) : κ :=
  (l.foldl (fun (p : κ × Option ℕ) i => if underBound (t i) p.2 then (i, some (t i)) else p) (v, none)).1

theorem scanMin_spec (t : κ → ℕ) (v : κ) (l : List κ) :
    scanMin t v l ∈ v :: l ∧ ∀ w ∈ v :: l, t (scanMin t v l) ≤ t w := by
  induction l generalizing v with
  | nil => simp [scanMin]
  | cons i l ih =>
    have hstep : scanMin t v (i :: l) = scanMin t (if t i < t v then i else v) l := rfl
    rw [hstep]
    obtain ⟨hmem, hle⟩ := ih (if t i < t v then i else v)
    have hnext : t (if t i < t v then i else v) ≤ t v ∧ t (if t i < t v then i else v) ≤ t i := by
      split_ifs <;> constructor <;> omega
    have hfirst := hle _ List.mem_cons_self
    constructor
    · rcases List.mem_cons.mp hmem with h | h
      · rw [h]
        split_ifs <;> simp
      · exact List.mem_cons_of_mem _ (List.mem_cons_of_mem _ h)
    · intro w hw
      rcases List.mem_cons.mp hw with rfl | hw
      · exact hfirst.trans hnext.1
      · rcases List.mem_cons.mp hw with rfl | hw
        · exact hfirst.trans hnext.2
        · exact hle w (List.mem_cons_of_mem _ hw)

theorem scanMinTop_cons (t : κ → ℕ) (v i : κ) (l : List κ) :
    scanMinTop t v (i :: l) = scanMin t i l := by
  have hfold : ∀ (l : List κ) (v : κ),
      l.foldl (fun (p : κ × Option ℕ) i => if underBound (t i) p.2 then (i, some (t i)) else p)
        (v, some (t v)) = (scanMin t v l, some (t (scanMin t v l))) := by
    intro l
    induction l with
    | nil => intro v; rfl
    | cons j l ih =>
      intro v
      have hstep : scanMin t v (j :: l) = scanMin t (if t j < t v then j else v) l := rfl
      have hbound : underBound (t j) (some (t v)) = decide (t j < t v) := rfl
      rw [List.foldl_cons, hbound, hstep, ← ih]
      by_cases h : t j < t v <;> simp [h]
  exact congrArg Prod.fst (hfold l i)

theorem scanMinTop_le (t : κ → ℕ) (v : κ) {l : List κ} {w : κ} (hw : w ∈ l) :
    t (scanMinTop t v l) ≤ t w := by
  cases l with
  | nil => simp at hw
  | cons i l =>
    rw [scanMinTop_cons]
    exact (scanMin_spec t i l).2 w hw

def SameOrder (t t' : κ → ℕ) : Prop := ∀ i j, t i < t j ↔ t' i < t' j

namespace SameOrder

variable {t t' : κ → ℕ}

theorem scanMin_eq (h : SameOrder t t') (v : κ) (l : List κ) : scanMin t v l = scanMin t' v l := by
  induction l generalizing v with
  | nil => rfl
  | cons i l ih =>
    have hstep : ∀ t : κ → ℕ, scanMin t v (i :: l) = scanMin t (if t i < t v then i else v) l := fun _ => rfl
    rw [hstep, hstep, ih]
    simp only [h i v]

theorem scanMinTop_eq (h : SameOrder t t') (v : κ) (l : List κ) :
    scanMinTop t v l = scanMinTop t' v l := by
  cases l with
  | nil => rfl
  | cons i l => rw [scanMinTop_cons, scanMinTop_cons, h.scanMin_eq]

theorem latest [DecidableEq κ] {n n' : ℕ} (h : SameOrder t t') (hn : ∀ i, t i ≤ n) (hn' : ∀ i, t' i ≤ n')
    (k : κ) : SameOrder (Function.update t k (n + 1)) (Function.update t' k (n' + 1)) := by
  intro i j
  by_cases hi : i = k <;> by_cases hj : j = k
  · rw [hi, hj]
    simp
  · have h1 := hn j
    have h2 := hn' j
    rw [hi, Function.update_self, Function.update_self, Function.update_of_ne hj, Function.update_of_ne hj]
    omega
  · have h1 := hn i
    have h2 := hn' i
    rw [hj, Function.update_self, Function.update_self, Function.update_of_ne hi, Function.update_of_ne hi]
    omega
  · rw [Function.update_of_ne hi, Function.update_of_ne hi, Function.update_of_ne hj,
      Function.update_of_ne hj]
    exact h i j

end SameOrder

structure Ranked (t : κ → ℕ) (now : ℕ) (l : List κ) : Prop where
  sorted : l.Pairwise (fun x y => t y < t x)
  bounded : ∀ x ∈ l, t x ≤ now

namespace Ranked

variable {t t' : κ → ℕ} {now : ℕ} {l : List κ}

theorem nil (t : κ → ℕ) (now : ℕ) : Ranked t now [] := ⟨.nil, by simp⟩

theorem nodup (h : Ranked t now l) : l.Nodup :=
  h.sorted.imp fun hxy => by rintro rfl; exact lt_irrefl _ hxy

theorem congr (h : Ranked t now l) (ht : ∀ x ∈ l, t' x = t x) : Ranked t' now l := by
  refine ⟨?_, fun x hx => ht x hx ▸ h.bounded x hx⟩
  apply h.sorted.imp_of_mem
  intro x y hx hy hxy
  rwa [ht x hx, ht y hy]

theorem mono {now' : ℕ} (h : Ranked t now l) (hle : now ≤ now') : Ranked t now' l :=
  ⟨h.sorted, fun x hx => (h.bounded x hx).trans hle⟩

theorem sublist {l' : List κ} (h : Ranked t now l) (hl : l'.Sublist l) : Ranked t now l' :=
  ⟨h.sorted.sublist hl, fun x hx => h.bounded x (hl.subset hx)⟩

theorem cons {k : κ} (h : Ranked t now l) (hk : now < t k) : Ranked t (t k) (k :: l) := by
  constructor
  · exact List.pairwise_cons.mpr ⟨fun x hx => (h.bounded x hx).trans_lt hk, h.sorted⟩
  · intro x hx
    rcases List.mem_cons.mp hx with rfl | hx
    · exact le_rfl
    · exact (h.bounded x hx).trans hk.le

theorem touch [DecidableEq κ] (h : Ranked t now l) (k : κ) :
    Ranked (Function.update t k (now + 1)) (now + 1) (k :: l.erase k) := by
  have hrest : Ranked (Function.update t k (now + 1)) now (l.erase k) := by
    apply (h.sublist List.erase_sublist).congr
    intro x hx
    have hne : x ≠ k := (h.nodup.mem_erase_iff.mp hx).1
    exact Function.update_of_ne hne _ _
  have hk : Function.update t k (now + 1) k = now + 1 := Function.update_self ..
  simpa only [hk] using hrest.cons (k := k) (by rw [hk]; omega)

theorem eq_append_of_min {v : κ} (h : Ranked t now l) (hv : v ∈ l) (hmin : ∀ x ∈ l, t v ≤ t x) :
    l = l.dropLast ++ [v] := by
  have hne : l ≠ [] := List.ne_nil_of_mem hv
  have hlast : l.getLast hne = v := by
    by_contra hcon
    rw [← List.dropLast_append_getLast hne] at hv
    have hv' : v ∈ l.dropLast := by
      rcases List.mem_append.mp hv with hv | hv
      · exact hv
      · exact absurd (List.mem_singleton.mp hv).symm hcon
    have hsorted := h.sorted
    rw [← List.dropLast_append_getLast hne] at hsorted
    have hlt := (List.pairwise_append.mp hsorted).2.2 v hv' _ (List.mem_singleton_self _)
    have := hmin _ (List.getLast_mem hne)
    omega
  rw [← hlast, List.dropLast_append_getLast hne]

theorem lt_iff_lt {α κ' : Type} {s : κ' → ℕ} {now' : ℕ} {l' : List κ'} {f : κ → α} {g : κ' → α}
    (h : Ranked t now l) (h' : Ranked s now' l') (hfg : l.map f = l'.map g)
    (hf : (l.map f).Nodup) {x y : κ} {x' y' : κ'} (hx : x ∈ l) (hy : y ∈ l) (hx' : x' ∈ l')
    (hy' : y' ∈ l') (hxx : f x = g x') (hyy : f y = g y') : t x < t y ↔ s x' < s y' := by
  induction l generalizing l' now now' with
  | nil => simp at hx
  | cons k l ih =>
    cases l' with
    | nil => simp at hx'
    | cons k' l' =>
      simp only [List.map_cons, List.cons.injEq] at hfg
      obtain ⟨hhead, htail⟩ := hfg
      simp only [List.map_cons, List.nodup_cons] at hf
      obtain ⟨hnot, hnodup⟩ := hf
      have hnot' : g k' ∉ l'.map g := by rwa [← htail, ← hhead]
      have hsame : ∀ {z : κ} {z' : κ'}, z ∈ k :: l → z' ∈ k' :: l' → f z = g z' →
          (z = k ∧ z' = k') ∨ (z ∈ l ∧ z' ∈ l') := by
        intro z z' hz hz' hzz
        rcases List.mem_cons.mp hz with rfl | hz
        · rcases List.mem_cons.mp hz' with rfl | hz'
          · exact .inl ⟨rfl, rfl⟩
          · exact absurd (hhead ▸ hzz ▸ List.mem_map_of_mem hz') hnot'
        · rcases List.mem_cons.mp hz' with rfl | hz'
          · exact absurd (hhead ▸ hzz ▸ List.mem_map_of_mem hz) hnot
          · exact .inr ⟨hz, hz'⟩
      obtain ⟨hlt, hsorted⟩ := List.pairwise_cons.mp h.sorted
      obtain ⟨hlt', hsorted'⟩ := List.pairwise_cons.mp h'.sorted
      rcases hsame hx hx' hxx with ⟨rfl, rfl⟩ | ⟨hxl, hxl'⟩
      · rcases hsame hy hy' hyy with ⟨rfl, rfl⟩ | ⟨hyl, hyl'⟩
        · simp
        · have h1 := hlt y hyl
          have h2 := hlt' y' hyl'
          omega
      · rcases hsame hy hy' hyy with ⟨rfl, rfl⟩ | ⟨hyl, hyl'⟩
        · have h1 := hlt x hxl
          have h2 := hlt' x' hxl'
          omega
        · exact ih ⟨hsorted, fun z hz => h.bounded z (List.mem_cons_of_mem _ hz)⟩
            ⟨hsorted', fun z hz => h'.bounded z (List.mem_cons_of_mem _ hz)⟩ htail hnodup hxl hyl hxl' hyl'

end Ranked

end CacheSim.Stamps
