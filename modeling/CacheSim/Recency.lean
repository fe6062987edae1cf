import Mathlib

/-!
Bounded lists of distinct items, most recently used first. Histories are also
written latest reference first; a reference carries a flag that says whether it
installs an absent item.
-/

namespace CacheSim.Recency

variable {α : Type} [DecidableEq α]

/-- A reference to `b` moves it to the front; an absent `b` is put in front if the reference installs. -/
def refer (n : ℕ) (install : Bool) (b : α) (l : List α) : List α :=
  if b ∈ l then b :: l.erase b else if install then (b :: l).take n else l

def stack (n : ℕ) : List (α × Bool) → List α
  | [] => []
  | (b, install) :: h => refer n install b (stack n h)

def since (h : List α) (b : α) : Finset α := (h.takeWhile (fun x => x ≠ b)).toFinset

theorem refer_nodup {n : ℕ} {l : List α} (install : Bool) (b : α) (hl : l.Nodup) :
    (refer n install b l).Nodup := by
  unfold refer
  split_ifs with hb hi
  · exact (List.perm_cons_erase hb).nodup_iff.mp hl
  · exact (List.nodup_cons.mpr ⟨hb, hl⟩).sublist (List.take_sublist n _)
  · exact hl

theorem refer_length_le {n : ℕ} {l : List α} (install : Bool) (b : α) (hl : l.length ≤ n) :
    (refer n install b l).length ≤ n := by
  unfold refer
  split_ifs with hb hi
  · have hlen := (List.perm_cons_erase hb).length_eq
    omega
  · rw [List.length_take]
    omega
  · exact hl

theorem refer_map {β : Type} [DecidableEq β] {f : α → β} (hf : Function.Injective f) (n : ℕ)
    (install : Bool) (b : α) (l : List α) :
    (refer n install b l).map f = refer n install (f b) (l.map f) := by
  have hmem : f b ∈ l.map f ↔ b ∈ l := List.mem_map_of_injective hf
  by_cases hb : b ∈ l
  · rw [refer, refer, if_pos hb, if_pos (hmem.mpr hb), List.map_cons, List.map_erase hf]
  · rw [refer, refer, if_neg hb, if_neg (mt hmem.mp hb)]
    cases install with
    | false => rfl
    | true => rw [if_pos rfl, if_pos rfl, List.map_take, List.map_cons]

theorem stack_nodup (n : ℕ) (h : List (α × Bool)) : (stack n h).Nodup := by
  induction h with
  | nil => exact .nil
  | cons r h ih => exact refer_nodup _ _ ih

theorem stack_length_le (n : ℕ) (h : List (α × Bool)) : (stack n h).length ≤ n := by
  induction h with
  | nil => exact Nat.zero_le _
  | cons r h ih => exact refer_length_le _ _ ih

theorem refer_subset {n : ℕ} {install : Bool} {b x : α} {l : List α} (hx : x ∈ refer n install b l) :
    x = b ∨ x ∈ l := by
  unfold refer at hx
  split_ifs at hx with hb hi
  · exact (List.mem_cons.mp hx).imp_right List.mem_of_mem_erase
  · exact List.mem_cons.mp (List.mem_of_mem_take hx)
  · exact .inr hx

theorem stack_subset {n : ℕ} {b : α} {h : List (α × Bool)} (hb : b ∈ stack n h) :
    b ∈ h.map Prod.fst := by
  induction h with
  | nil => exact hb
  | cons r h ih =>
    rw [List.map_cons, List.mem_cons]
    exact (refer_subset hb).imp_right ih

theorem refer_self {n : ℕ} (hn : 0 < n) (b : α) (l : List α) : ∃ l', refer n true b l = b :: l' := by
  by_cases hb : b ∈ l
  · exact ⟨l.erase b, if_pos hb⟩
  · obtain ⟨m, rfl⟩ : ∃ m, n = m + 1 := ⟨n - 1, by omega⟩
    exact ⟨l.take m, if_neg hb⟩

theorem refer_split (n : ℕ) (install : Bool) {x b : α} {l l₁ l₂ : List α} (hx : x ≠ b)
    (hl : l = l₁ ++ b :: l₂) (hnodup : l.Nodup) :
    (refer n install x l = l ∧ x ∉ l ∧ install = false) ∨
      (∃ l₁' l₂', refer n install x l = l₁' ++ b :: l₂' ∧ l₁'.toFinset = insert x l₁.toFinset) ∨
      (n ≤ l₁.length + 1 ∧ x ∉ l ∧ install = true ∧ b ∉ refer n install x l) := by
  unfold refer
  split_ifs with hmem hi
  · refine .inr (.inl ?_)
    subst hl
    by_cases h1 : x ∈ l₁
    · refine ⟨x :: l₁.erase x, l₂, by rw [List.erase_append_left _ h1]; rfl, ?_⟩
      rw [List.toFinset_cons]
      ext y
      by_cases hy : y = x
      · simp [hy]
      · simp [hy, List.mem_erase_of_ne hy]
    · refine ⟨x :: l₁, l₂.erase x, ?_, List.toFinset_cons⟩
      rw [List.erase_append_right _ h1, List.erase_cons_tail (by simpa using hx.symm)]
      rfl
  · by_cases hlen : n ≤ l₁.length + 1
    · refine .inr (.inr ⟨hlen, hmem, hi, ?_⟩)
      intro hb
      subst hl
      have hb1 : b ∉ l₁ := fun h => (List.nodup_append.mp hnodup).2.2 b h b List.mem_cons_self rfl
      rw [← List.cons_append, List.take_append_of_le_length (by simpa using hlen)] at hb
      rcases List.mem_cons.mp (List.mem_of_mem_take hb) with h | h
      · exact hx h.symm
      · exact hb1 h
    · refine .inr (.inl ⟨x :: l₁, l₂.take (n - (l₁.length + 2)), ?_, List.toFinset_cons⟩)
      subst hl
      obtain ⟨m, rfl⟩ : ∃ m, n = (x :: l₁).length + (m + 1) :=
        ⟨n - (l₁.length + 2), by simp only [List.length_cons]; omega⟩
      rw [← List.cons_append, List.take_length_add_append, List.take_succ_cons]
      congr 3
      simp only [List.length_cons]
      omega
  · exact .inl ⟨rfl, hmem, by simpa using hi⟩

theorem since_cons_ne {x b : α} (h : List α) (hx : x ≠ b) : since (x :: h) b = insert x (since h b) := by
  simp [since, hx]

theorem since_cons_self (h : List α) (b : α) : since (b :: h) b = ∅ := by
  simp [since]

theorem stack_split {n : ℕ} {b : α} {h : List (α × Bool)} (hall : ∀ r ∈ h, r.2 = true)
    (hb : b ∈ stack n h) :
    ∃ l₁ l₂, stack n h = l₁ ++ b :: l₂ ∧ l₁.toFinset = since (h.map Prod.fst) b := by
  induction h with
  | nil => simp [stack] at hb
  | cons r h ih =>
    obtain ⟨x, install⟩ := r
    obtain rfl : install = true := hall _ List.mem_cons_self
    have hn : 0 < n := Nat.pos_of_ne_zero fun h0 => by
      have := stack_length_le n ((x, true) :: h)
      rw [h0] at this hb
      exact absurd (List.length_eq_zero_iff.mp (by omega)) (List.ne_nil_of_mem hb)
    by_cases hx : x = b
    · subst hx
      obtain ⟨l', hl'⟩ := refer_self hn x (stack n h)
      exact ⟨[], l', hl', by rw [List.map_cons, since_cons_self]; rfl⟩
    · have hb' : b ∈ stack n h := (refer_subset hb).resolve_left (Ne.symm hx)
      obtain ⟨l₁, l₂, hl, hset⟩ := ih (fun r hr => hall r (List.mem_cons_of_mem _ hr)) hb'
      rw [List.map_cons, since_cons_ne _ hx, ← hset]
      rcases refer_split n true hx hl (stack_nodup n h) with hno | hyes | hout
      · exact absurd hno.2.2 (by simp)
      · exact hyes
      · exact absurd hb hout.2.2.2

theorem mem_stack_append {n : ℕ} {b : α} {mid h : List (α × Bool)} {l : List α}
    (hfront : stack n h = b :: l) (hmid : b ∉ mid.map Prod.fst)
    (hcard : (mid.map Prod.fst).toFinset.card < n) : b ∈ stack n (mid ++ h) := by
  suffices hsplit : ∃ l₁ l₂, stack n (mid ++ h) = l₁ ++ b :: l₂ ∧
      l₁.toFinset ⊆ (mid.map Prod.fst).toFinset by
    obtain ⟨l₁, l₂, hl, -⟩ := hsplit
    simp [hl]
  induction mid with
  | nil => exact ⟨[], l, hfront, by simp⟩
  | cons r mid ih =>
    obtain ⟨x, install⟩ := r
    simp only [List.map_cons, List.mem_cons, not_or] at hmid
    simp only [List.map_cons, List.toFinset_cons] at hcard ⊢
    have hle := Finset.card_le_card (Finset.subset_insert x (mid.map Prod.fst).toFinset)
    obtain ⟨l₁, l₂, hl, hsub⟩ := ih hmid.2 (by omega)
    have hnodup := stack_nodup n (mid ++ h)
    rcases refer_split n install (Ne.symm hmid.1) hl hnodup with hno | hyes | hout
    · exact ⟨l₁, l₂, hno.1.trans hl, hsub.trans (Finset.subset_insert _ _)⟩
    · obtain ⟨l₁', l₂', hl', hset⟩ := hyes
      exact ⟨l₁', l₂', hl', by rw [hset]; exact Finset.insert_subset_insert _ hsub⟩
    · exfalso
      obtain ⟨hlen, hxl, -, -⟩ := hout
      rw [hl] at hnodup hxl
      have hx1 : x ∉ l₁.toFinset := fun h0 => hxl (List.mem_append_left _ (List.mem_toFinset.mp h0))
      have hcard' := Finset.card_le_card (Finset.insert_subset_insert x hsub)
      rw [Finset.card_insert_of_notMem hx1,
        List.toFinset_card_of_nodup (List.nodup_append.mp hnodup).1] at hcard'
      omega

theorem not_mem_stack_append {n : ℕ} {b : α} {mid h : List (α × Bool)}
    (habsent : b ∉ stack n h) (hmid : b ∉ mid.map Prod.fst) : b ∉ stack n (mid ++ h) := by
  induction mid with
  | nil => exact habsent
  | cons r mid ih =>
    simp only [List.map_cons, List.mem_cons, not_or] at hmid
    intro hb
    rcases refer_subset hb with h1 | h1
    · exact hmid.1 h1
    · exact ih hmid.2 h1

theorem since_append {b : α} {mid h : List α} (hmid : b ∉ mid) :
    since (mid ++ b :: h) b = mid.toFinset := by
  induction mid with
  | nil => exact since_cons_self h b
  | cons x mid ih =>
    simp only [List.mem_cons, not_or] at hmid
    rw [List.cons_append, since_cons_ne _ (Ne.symm hmid.1), ih hmid.2, List.toFinset_cons]

theorem exists_latest {h : List (α × Bool)} {b : α} (hb : b ∈ h.map Prod.fst) :
    ∃ mid install past, h = mid ++ (b, install) :: past ∧ b ∉ mid.map Prod.fst := by
  induction h with
  | nil => simp at hb
  | cons r h ih =>
    by_cases hr : r.1 = b
    · exact ⟨[], r.2, h, by rw [← hr]; rfl, by simp⟩
    · rw [List.map_cons, List.mem_cons] at hb
      obtain ⟨mid, install, past, rfl, hmid⟩ := ih (hb.resolve_left (Ne.symm hr))
      exact ⟨r :: mid, install, past, rfl, by simpa [Ne.symm hr] using hmid⟩

theorem mem_stack_iff {n : ℕ} (hn : 0 < n) {b : α} {h : List (α × Bool)}
    (hall : ∀ r ∈ h, r.2 = true) :
    b ∈ stack n h ↔ b ∈ h.map Prod.fst ∧ (since (h.map Prod.fst) b).card < n := by
  constructor
  · intro hb
    refine ⟨stack_subset hb, ?_⟩
    obtain ⟨l₁, l₂, hl, hset⟩ := stack_split hall hb
    have hlen := stack_length_le n h
    rw [hl, List.length_append, List.length_cons] at hlen
    rw [← hset]
    exact (List.toFinset_card_le l₁).trans_lt (by omega)
  · rintro ⟨hb, hcard⟩
    obtain ⟨mid, install, past, rfl, hmid⟩ := exists_latest hb
    obtain rfl : install = true := hall (b, install) (by simp)
    obtain ⟨l', hl'⟩ := refer_self hn b (stack n past)
    rw [List.map_append, List.map_cons, since_append hmid] at hcard
    exact mem_stack_append hl' hmid hcard

theorem since_filter {p : α → Bool} {b : α} (hb : p b = true) (h : List α) :
    since (h.filter p) b = (since h b).filter (fun x => p x = true) := by
  induction h with
  | nil => rfl
  | cons x h ih =>
    by_cases hx : x = b
    · subst hx
      rw [List.filter_cons_of_pos hb, since_cons_self, since_cons_self]
      rfl
    · by_cases hp : p x = true
      · rw [List.filter_cons_of_pos hp, since_cons_ne _ hx, since_cons_ne _ hx, ih,
          Finset.filter_insert, if_pos hp]
      · rw [List.filter_cons_of_neg hp, since_cons_ne _ hx, ih, Finset.filter_insert, if_neg hp]

section

variable {ι κ : Type} [DecidableEq ι] [DecidableEq κ]

def Held (n : ℕ) (f : α → ι) (h : List (α × Bool)) (b : α) : Prop :=
  b ∈ stack n (h.filter fun x => f x.1 = f b)

instance (n : ℕ) (f : α → ι) (h : List (α × Bool)) (b : α) : Decidable (Held n f h b) :=
  inferInstanceAs (Decidable (_ ∈ _))

theorem held_iff {n : ℕ} (hn : 0 < n) {f : α → ι} {b : α} {h : List (α × Bool)}
    (hall : ∀ r ∈ h, r.2 = true) :
    Held n f h b ↔ b ∈ h.map Prod.fst ∧
      ((since (h.map Prod.fst) b).filter fun x => f x = f b).card < n := by
  have hfilter : (h.filter fun x => f x.1 = f b).map Prod.fst =
      (h.map Prod.fst).filter fun x => f x = f b := by
    rw [List.filter_map]
    rfl
  rw [Held, mem_stack_iff hn fun r hr => hall r (List.mem_of_mem_filter hr), hfilter,
    since_filter (p := fun x => decide (f x = f b)) (by simp), List.mem_filter]
  simp

theorem Held.mono {m n : ℕ} {f : α → ι} {g : α → κ} {b : α} {h : List (α × Bool)}
    (hm : 0 < m) (hmn : m ≤ n) (hfg : ∀ x y, g x = g y → f x = f y) (hall : ∀ r ∈ h, r.2 = true)
    (hb : Held m f h b) : Held n g h b := by
  rw [held_iff hm hall] at hb
  rw [held_iff (hm.trans_le hmn) hall]
  refine ⟨hb.1, (Finset.card_le_card ?_).trans_lt (hb.2.trans_le hmn)⟩
  intro x hx
  rw [Finset.mem_filter] at hx ⊢
  exact ⟨hx.1, hfg x b hx.2⟩

def absences (n : ℕ) (f : α → ι) : List (α × Bool) → ℕ
  | [] => 0
  | (b, _) :: h => absences n f h + if Held n f h b then 0 else 1

theorem absences_le {m n : ℕ} {f : α → ι} {g : α → κ} {h : List (α × Bool)}
    (hheld : ∀ h', h' <:+ h → ∀ b, Held m f h' b → Held n g h' b) : absences n g h ≤ absences m f h := by
  induction h with
  | nil => exact le_rfl
  | cons r h ih =>
    apply Nat.add_le_add (ih fun h' hh' => hheld h' (hh'.trans (List.suffix_cons r h)))
    by_cases hf : Held m f h r.1
    · rw [if_pos hf, if_pos (hheld h (List.suffix_cons r h) r.1 hf)]
    · rw [if_neg hf]
      split_ifs <;> omega

theorem absences_mono {m n : ℕ} {f : α → ι} {g : α → κ} (hm : 0 < m) (hmn : m ≤ n)
    (hfg : ∀ x y, g x = g y → f x = f y) {h : List (α × Bool)} (hall : ∀ r ∈ h, r.2 = true) :
    absences n g h ≤ absences m f h := by
  apply absences_le
  intro h' hh' b
  exact Held.mono hm hmn hfg fun r hr => hall r (hh'.subset hr)

end

/-- The latest reference to `b` neither found nor installed it, and fewer than `n` distinct others
were referred to since. -/
def Shadowed (n : ℕ) (h : List (α × Bool)) (b : α) : Prop :=
  ∃ mid old, h = mid ++ (b, false) :: old ∧ b ∉ mid.map Prod.fst ∧
    (mid.map Prod.fst).toFinset.card < n ∧ b ∉ stack n old

theorem shadowed_iff {n : ℕ} (hn : 0 < n) {b : α} {h : List (α × Bool)} :
    Shadowed n h b ↔
      b ∉ stack n h ∧ b ∈ h.map Prod.fst ∧ (since (h.map Prod.fst) b).card < n := by
  constructor
  · rintro ⟨mid, old, rfl, hmid, hcard, hold⟩
    have habsent : b ∉ stack n ((b, false) :: old) := by
      rwa [stack, refer, if_neg hold, if_neg Bool.false_ne_true]
    refine ⟨not_mem_stack_append habsent hmid, by simp, ?_⟩
    rwa [List.map_append, List.map_cons, since_append hmid]
  · rintro ⟨habsent, hb, hcard⟩
    obtain ⟨mid, install, old, rfl, hmid⟩ := exists_latest hb
    rw [List.map_append, List.map_cons, since_append hmid] at hcard
    have hfront : ∀ l, stack n ((b, install) :: old) ≠ b :: l :=
      fun l hl => habsent (mem_stack_append hl hmid hcard)
    have hold : b ∉ stack n old := by
      intro hmem
      exact hfront _ (if_pos hmem)
    obtain rfl : install = false := by
      apply Bool.eq_false_iff.mpr
      rintro rfl
      obtain ⟨l, hl⟩ := refer_self hn b (stack n old)
      exact hfront l hl
    exact ⟨mid, old, rfl, hmid, hcard, hold⟩

theorem not_shadowed {n : ℕ} {b : α} {h : List (α × Bool)} (hall : ∀ r ∈ h, r.2 = true) :
    ¬Shadowed n h b := by
  rintro ⟨mid, old, rfl, -⟩
  exact Bool.false_ne_true (hall (b, false) (by simp))

theorem refer_absent {n : ℕ} (hn : 0 < n) {b : α} {l : List α} (hb : b ∉ l) :
    refer n true b l = b :: l.take (n - 1) := by
  rw [refer, if_neg hb, if_pos rfl]
  obtain ⟨m, rfl⟩ : ∃ m, n = m + 1 := ⟨n - 1, by omega⟩
  rfl

end CacheSim.Recency
