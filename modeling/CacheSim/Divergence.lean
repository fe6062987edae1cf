import CacheSim.Recency

/-!
Two bounded recency lists fed the same references. One that does not install is ignored where its
item is absent, so the two orders come apart as soon as only one of them holds it.
-/

namespace CacheSim.Recency

variable {α : Type} [DecidableEq α]

structure Embeds (m : ℕ) (l₁ l₂ : List α) : Prop where
  sublist : l₁.Sublist l₂
  same : l₁.length < m → l₁ = l₂

omit [DecidableEq α] in
theorem take_pred_sublist {m n : ℕ} {l₁ l₂ : List α} (h : Embeds (m + 1) l₁ l₂) (hmn : m ≤ n)
    (h₁ : l₁.length ≤ m + 1) (h₂ : l₂.length ≤ n + 1) : (l₁.take m).Sublist (l₂.take n) := by
  by_cases hroom : l₂.length ≤ n
  · rw [List.take_of_length_le hroom]
    exact (List.take_sublist m l₁).trans h.sublist
  · have hfull₂ : l₂.length = n + 1 := by omega
    have hfull₁ : l₁.length = m + 1 := by
      by_contra hlt
      have hsame := congrArg List.length (h.same (by omega))
      omega
    have hlast₁ : l₁.dropLast = l₁.take m := by rw [List.dropLast_eq_take, hfull₁, Nat.add_sub_cancel]
    have hlast₂ : l₂.dropLast = l₂.take n := by rw [List.dropLast_eq_take, hfull₂, Nat.add_sub_cancel]
    have htails := h.sublist.reverse.tail
    rw [List.tail_reverse, List.tail_reverse, hlast₁, hlast₂] at htails
    exact List.reverse_sublist.mp htails

theorem Embeds.refer {m n : ℕ} {l₁ l₂ : List α} (h : Embeds m l₁ l₂) (hmn : m ≤ n)
    (h₁ : l₁.length ≤ m) (h₂ : l₂.length ≤ n) (install : Bool) (b : α) :
    Embeds m (refer m install b l₁) (refer n install b l₂) := by
  by_cases hb₁ : b ∈ l₁
  · -- found in both
    have hb₂ := h.sublist.subset hb₁
    have hlen := (List.perm_cons_erase hb₁).length_eq
    rw [Recency.refer, Recency.refer, if_pos hb₁, if_pos hb₂]
    refine ⟨(h.sublist.erase b).cons_cons b, fun hlt => ?_⟩
    rw [h.same (by omega)]
  · by_cases hb₂ : b ∈ l₂
    · -- found in the larger one only: the smaller one is full
      have hfull : l₁.length = m := by
        by_contra hne
        rw [h.same (by omega)] at hb₁
        exact hb₁ hb₂
      have hrest : l₁.Sublist (l₂.erase b) := by
        have herase := h.sublist.erase b
        rwa [List.erase_of_not_mem hb₁] at herase
      rw [Recency.refer, Recency.refer, if_neg hb₁, if_pos hb₂]
      cases install with
      | false =>
        rw [if_neg Bool.false_ne_true]
        exact ⟨hrest.trans (List.sublist_cons_self b _), fun hlt => absurd hlt (by omega)⟩
      | true =>
        rw [if_pos rfl]
        refine ⟨(List.take_sublist m _).trans (hrest.cons_cons b), fun hlt => ?_⟩
        rw [List.length_take, List.length_cons] at hlt
        omega
    · rw [Recency.refer, Recency.refer, if_neg hb₁, if_neg hb₂]
      cases install with
      | false => exact h
      | true =>
        rw [if_pos rfl, if_pos rfl]
        constructor
        · cases m with
          | zero => rw [List.take_zero]; exact List.nil_sublist _
          | succ m =>
            obtain ⟨n, rfl⟩ : ∃ n', n = n' + 1 := ⟨n - 1, by omega⟩
            rw [List.take_succ_cons, List.take_succ_cons]
            exact (take_pred_sublist h (by omega) h₁ h₂).cons_cons b
        · intro hlt
          rw [List.length_take, List.length_cons] at hlt
          have hsame := h.same (by omega)
          subst hsame
          rw [List.take_of_length_le (by rw [List.length_cons]; omega),
            List.take_of_length_le (by rw [List.length_cons]; omega)]

theorem stack_embeds {m n : ℕ} (hmn : m ≤ n) (h : List (α × Bool)) :
    Embeds m (stack m h) (stack n h) := by
  induction h with
  | nil => exact ⟨.slnil, fun _ => rfl⟩
  | cons r h ih => exact ih.refer hmn (stack_length_le m h) (stack_length_le n h) r.2 r.1

section

variable {ι κ : Type} [DecidableEq ι] [DecidableEq κ] {f : α → ι} {g : α → κ}

theorem Held.widen {m n : ℕ} (hmn : m ≤ n) (hfg : ∀ x y, f x = f y ↔ g x = g y)
    {h : List (α × Bool)} {b : α} (hb : Held m f h b) : Held n g h b := by
  have hsame : (h.filter fun x => f x.1 = f b) = h.filter fun x => g x.1 = g b :=
    List.filter_congr fun x _ => decide_eq_decide.mpr (hfg x.1 b)
  rw [Held, ← hsame]
  exact (stack_embeds hmn _).sublist.subset hb

def taken (n : ℕ) (f : α → ι) : List (α × Bool) → List (α × Bool)
  | [] => []
  | (b, install) :: h =>
    if install = true ∨ Held n f h b then (b, true) :: taken n f h else taken n f h

theorem taken_all (n : ℕ) (f : α → ι) (h : List (α × Bool)) : ∀ r ∈ taken n f h, r.2 = true := by
  induction h with
  | nil => simp [taken]
  | cons r h ih =>
    rw [taken]
    split_ifs
    · exact List.forall_mem_cons.mpr ⟨rfl, ih⟩
    · exact ih

theorem stack_taken_cons {n : ℕ} {r : α × Bool} {h : List (α × Bool)}
    (hr : r.2 = false → (Held n g h r.1 ↔ Held n f h r.1))
    (ih : ∀ s, stack n ((taken n f h).filter fun x => g x.1 = s) = stack n (h.filter fun x => g x.1 = s))
    (s : κ) : stack n ((taken n f (r :: h)).filter fun x => g x.1 = s) =
      stack n ((r :: h).filter fun x => g x.1 = s) := by
  obtain ⟨b, install⟩ := r
  by_cases hs : g b = s
  · subst hs
    have hkept : ∀ i (h' : List (α × Bool)), ((b, i) :: h').filter (fun x => decide (g x.1 = g b)) =
        (b, i) :: h'.filter fun x => decide (g x.1 = g b) :=
      fun i h' => List.filter_cons_of_pos (decide_eq_true rfl)
    rw [hkept, stack, ← ih, taken]
    cases install with
    | true => rw [if_pos (.inl rfl), hkept, stack]
    | false =>
      have hheld : b ∈ stack n ((taken n f h).filter fun x => g x.1 = g b) ↔ Held n f h b := by
        rw [ih, ← hr rfl, Held]
      by_cases hf : Held n f h b
      · rw [if_pos (.inr hf), hkept, stack, refer, refer, if_pos (hheld.mpr hf), if_pos (hheld.mpr hf)]
      · rw [if_neg (by simpa using hf), refer, if_neg (mt hheld.mp hf), if_neg Bool.false_ne_true]
  · have hdropped : ∀ i (h' : List (α × Bool)), ((b, i) :: h').filter (fun x => decide (g x.1 = s)) =
        h'.filter fun x => decide (g x.1 = s) :=
      fun i h' => List.filter_cons_of_neg (by simpa using hs)
    rw [hdropped, ← ih, taken]
    split_ifs
    · rw [hdropped]
    · rfl

def Tracks (n : ℕ) (f : α → ι) (g : α → κ) : List (α × Bool) → Prop
  | [] => True
  | (b, install) :: h => (install = false → Held n g h b → Held n f h b) ∧ Tracks n f g h

theorem Tracks.suffix {n : ℕ} {h h' : List (α × Bool)} (hh : Tracks n f g h) (hsuffix : h' <:+ h) :
    Tracks n f g h' := by
  induction h with
  | nil =>
    rw [List.suffix_nil.mp hsuffix]
    exact hh
  | cons r h ih =>
    rcases List.suffix_cons_iff.mp hsuffix with rfl | hsuffix
    · exact hh
    · exact ih hh.2 hsuffix

theorem held_of_taken {n : ℕ} (hn : 0 < n) (hfg : ∀ x y, g x = g y → f x = f y) {h : List (α × Bool)}
    (hg : ∀ s, stack n ((taken n f h).filter fun x => g x.1 = s) = stack n (h.filter fun x => g x.1 = s))
    {b : α} (hb : Held n f h b) : Held n g h b := by
  have hf : ∀ s, stack n ((taken n f h).filter fun x => f x.1 = s) =
      stack n (h.filter fun x => f x.1 = s) := by
    clear hb hg
    induction h with
    | nil => exact fun _ => rfl
    | cons r h ih => exact stack_taken_cons (fun _ => Iff.rfl) ih
  rw [Held, ← hf] at hb
  rw [Held, ← hg]
  exact Held.mono hn le_rfl hfg (taken_all n f h) hb

theorem Tracks.stack_taken {n : ℕ} (hn : 0 < n) (hfg : ∀ x y, g x = g y → f x = f y)
    {h : List (α × Bool)} (hh : Tracks n f g h) :
    ∀ s, stack n ((taken n f h).filter fun x => g x.1 = s) = stack n (h.filter fun x => g x.1 = s) := by
  induction h with
  | nil => exact fun _ => rfl
  | cons r h ih =>
    obtain ⟨htrack, hrest⟩ := hh
    apply stack_taken_cons _ (ih hrest)
    intro hr
    exact ⟨htrack hr, held_of_taken hn hfg (ih hrest)⟩

theorem Tracks.mono {n : ℕ} (hn : 0 < n) (hfg : ∀ x y, g x = g y → f x = f y)
    {h : List (α × Bool)} (hh : Tracks n f g h) {b : α} (hb : Held n f h b) : Held n g h b :=
  held_of_taken hn hfg (hh.stack_taken hn hfg) hb

theorem refer_one {b : α} {l : List α} (hl : l.length ≤ 1) : refer 1 false b l = l := by
  by_cases hb : b ∈ l
  · obtain ⟨x, rfl⟩ := List.length_eq_one_iff.mp (le_antisymm hl (List.length_pos_of_mem hb))
    rw [refer, if_pos hb, List.mem_singleton.mp hb, List.erase_cons_head]
  · rw [refer, if_neg hb, if_neg Bool.false_ne_true]

theorem stack_one (h : List (α × Bool)) : stack 1 (h.filter Prod.snd) = stack 1 h := by
  induction h with
  | nil => rfl
  | cons r h ih =>
    obtain ⟨b, install⟩ := r
    cases install with
    | true => rw [List.filter_cons_of_pos rfl, stack, stack, ih]
    | false => rw [List.filter_cons_of_neg Bool.false_ne_true, stack, refer_one (stack_length_le 1 h), ih]

theorem Held.mono_one (hfg : ∀ x y, g x = g y → f x = f y) {h : List (α × Bool)} {b : α}
    (hb : Held 1 f h b) : Held 1 g h b := by
  have hreads : ∀ (p : α × Bool → Bool), stack 1 ((h.filter Prod.snd).filter p) = stack 1 (h.filter p) := by
    intro p
    rw [List.filter_filter, ← stack_one (h.filter p), List.filter_filter]
    congr 2
    funext x
    exact Bool.and_comm _ _
  rw [Held, ← hreads] at hb ⊢
  exact Held.mono one_pos le_rfl hfg (fun r hr => List.of_mem_filter hr) hb

end

end CacheSim.Recency
