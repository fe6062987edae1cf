import CacheSim.Recency

/-!
How far back references reach, counted in distinct items; and what a history owes to what came
before it. Every reference installs.
-/

namespace CacheSim.Recency

section

variable {α : Type}

def installed (h : List α) : List (α × Bool) := h.map (·, true)

theorem installed_append (m h : List α) : installed (m ++ h) = installed m ++ installed h := List.map_append

theorem installed_fst (h : List α) : (installed h).map Prod.fst = h := by
  rw [installed, List.map_map]
  exact List.map_id h

theorem installed_all (h : List α) : ∀ r ∈ installed h, r.2 = true := by simp [installed]

end

variable {α ι κ : Type} [DecidableEq α] [DecidableEq ι] [DecidableEq κ]

/-- How many distinct items were referred to since `b` was: of its set, and in all. -/
def distance (f : α → ι) (h : List α) (b : α) : Option (ℕ × ℕ) :=
  if b ∈ h then some (((since h b).filter fun x => f x = f b).card, (since h b).card) else none

def profile (f : α → ι) : List α → List (Option (ℕ × ℕ))
  | [] => []
  | b :: h => distance f h b :: profile f h

theorem profile_length (f : α → ι) (h : List α) : (profile f h).length = h.length := by
  induction h with
  | nil => rfl
  | cons b h ih => rw [profile, List.length_cons, ih, List.length_cons]

theorem profile_congr {f : α → ι} {g : α → κ} (hfg : ∀ x y, f x = f y ↔ g x = g y) (h : List α) :
    profile f h = profile g h := by
  induction h with
  | nil => rfl
  | cons b h ih => simp only [profile, distance, hfg, ih]

section

variable {n : ℕ} {f : α → ι} {b : α} {m h : List α}

theorem held_installed (hn : 0 < n) : Held n f (installed h) b ↔
    b ∈ h ∧ ((since h b).filter fun x => f x = f b).card < n := by
  have hiff := held_iff hn (f := f) (b := b) (installed_all h)
  rwa [installed_fst] at hiff

theorem since_append_mem (hb : b ∈ m) : since (m ++ h) b = since m b := by
  induction m with
  | nil => simp at hb
  | cons x m ih =>
    by_cases hx : x = b
    · subst hx
      rw [List.cons_append, since_cons_self, since_cons_self]
    · rw [List.cons_append, since_cons_ne _ hx, since_cons_ne _ hx,
        ih ((List.mem_cons.mp hb).resolve_left (Ne.symm hx))]

theorem subset_since_append (hb : b ∉ m) : m.toFinset ⊆ since (m ++ h) b := by
  induction m with
  | nil => simp
  | cons x m ih =>
    rw [List.mem_cons, not_or] at hb
    rw [List.cons_append, since_cons_ne _ (Ne.symm hb.1), List.toFinset_cons]
    exact Finset.insert_subset_insert x (ih hb.2)

theorem held_append_mem (hn : 0 < n) (hb : b ∈ m) :
    Held n f (installed (m ++ h)) b ↔ Held n f (installed m) b := by
  rw [held_installed hn, held_installed hn, since_append_mem hb]
  simp [hb]

theorem held_before (hb : b ∉ m) (hheld : Held n f (installed (m ++ h)) b) : Held n f (installed h) b := by
  unfold Held at hheld ⊢
  rw [installed_append, List.filter_append] at hheld
  contrapose! hheld
  apply not_mem_stack_append hheld
  intro hmem
  obtain ⟨r, hr, rfl⟩ := List.mem_map.mp hmem
  apply hb
  rw [← installed_fst m]
  exact List.mem_map_of_mem (List.mem_of_mem_filter hr)

theorem held_append_full (hn : 0 < n) (hfull : n ≤ (m.toFinset.filter fun x => f x = f b).card) :
    Held n f (installed (m ++ h)) b ↔ Held n f (installed m) b := by
  by_cases hb : b ∈ m
  · exact held_append_mem hn hb
  · have hsub := Finset.filter_subset_filter (fun x => f x = f b) (subset_since_append (h := h) hb)
    have hcard := Finset.card_le_card hsub
    rw [held_installed hn, held_installed hn]
    constructor
    · rintro ⟨-, hless⟩
      omega
    · rintro ⟨hm, -⟩
      exact absurd hm hb

theorem absences_cons (b : α) (h : List α) : absences n f (installed (b :: h)) =
    absences n f (installed h) + if Held n f (installed h) b then 0 else 1 := rfl

theorem absences_append_le (hn : 0 < n) (m h : List α) :
    absences n f (installed (m ++ h)) ≤ absences n f (installed h) + absences n f (installed m) := by
  induction m with
  | nil => exact le_rfl
  | cons b m ih =>
    rw [List.cons_append, absences_cons, absences_cons]
    by_cases hm : Held n f (installed m) b
    · have hb : b ∈ m := ((held_installed hn).mp hm).1
      rw [if_pos hm, if_pos ((held_append_mem hn hb).mpr hm)]
      omega
    · rw [if_neg hm]
      split_ifs <;> omega

def kept (n : ℕ) (f : α → ι) (h : List α) : Finset α := h.toFinset.filter fun b => Held n f (installed h) b

theorem mem_kept (hn : 0 < n) : b ∈ kept n f h ↔ Held n f (installed h) b := by
  rw [kept, Finset.mem_filter, List.mem_toFinset, and_iff_right_iff_imp]
  exact fun hb => ((held_installed hn).mp hb).1

theorem kept_card_le [Fintype ι] : (kept n f h).card ≤ Fintype.card ι * n := by
  rw [mul_comm, ← Finset.card_univ]
  apply Finset.card_le_mul_card_image_of_maps_to (fun b _ => Finset.mem_univ (f b))
  intro s _
  have hsub : ((kept n f h).filter fun b => f b = s) ⊆
      (stack n ((installed h).filter fun x => f x.1 = s)).toFinset := by
    intro b hb
    rw [kept, Finset.mem_filter, Finset.mem_filter] at hb
    obtain ⟨⟨-, hheld⟩, rfl⟩ := hb
    exact List.mem_toFinset.mpr hheld
  apply (Finset.card_le_card hsub).trans
  exact (List.toFinset_card_le _).trans (stack_length_le n _)

theorem le_absences_append (hn : 0 < n) (m h : List α) :
    absences n f (installed h) + absences n f (installed m) + (kept n f h \ m.toFinset).card ≤
      absences n f (installed (m ++ h)) + (kept n f h).card := by
  induction m with
  | nil =>
    rw [List.nil_append, List.toFinset_nil, Finset.sdiff_empty]
    exact le_rfl
  | cons b m ih =>
    have hsub : kept n f h \ (b :: m).toFinset ⊆ kept n f h \ m.toFinset := by
      apply Finset.sdiff_subset_sdiff (subset_refl _)
      rw [List.toFinset_cons]
      exact Finset.subset_insert b _
    have hcard := Finset.card_le_card hsub
    rw [List.cons_append, absences_cons, absences_cons]
    by_cases hm : Held n f (installed m) b
    · rw [if_pos hm]
      omega
    · rw [if_neg hm]
      by_cases hall : Held n f (installed (m ++ h)) b
      · -- `b` was held all the time since `h`, and the reference to it is the first of `m`
        have hb : b ∉ m := fun hb => hm ((held_append_mem hn hb).mp hall)
        have hkept : b ∈ kept n f h \ m.toFinset := by
          rw [Finset.mem_sdiff, mem_kept hn, List.mem_toFinset]
          exact ⟨held_before hb hall, hb⟩
        have hless : (kept n f h \ (b :: m).toFinset).card < (kept n f h \ m.toFinset).card := by
          apply Finset.card_lt_card
          refine ⟨hsub, fun hback => ?_⟩
          have hgone := hback hkept
          simp at hgone
        rw [if_pos hall]
        omega
      · rw [if_neg hall]
        omega

end

end CacheSim.Recency
