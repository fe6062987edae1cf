import CacheSim.Recency

namespace CacheSim.Recency

structure RecencyList (α : Type) (n : ℕ) where
  items : List α
  nodup : items.Nodup
  bounded : items.length ≤ n

namespace RecencyList

variable {α : Type} [DecidableEq α] {n : ℕ}

omit [DecidableEq α] in
def empty : RecencyList α n := ⟨[], .nil, Nat.zero_le n⟩

def touch (l : RecencyList α n) (b : α) (hb : b ∈ l.items) : RecencyList α n where
  items := b :: l.items.erase b
  nodup := (List.perm_cons_erase hb).nodup_iff.mp l.nodup
  bounded := (List.perm_cons_erase hb).length_eq ▸ l.bounded

def room (l : RecencyList α n) : List α := if l.items.length < n then l.items else l.items.dropLast

omit [DecidableEq α] in
theorem room_sublist (l : RecencyList α n) : l.room.Sublist l.items := by
  unfold room
  split_ifs
  · exact List.Sublist.refl _
  · exact List.dropLast_sublist _

def push [NeZero n] (l : RecencyList α n) (b : α) (hb : b ∉ l.items) : RecencyList α n where
  items := b :: l.room
  nodup := List.nodup_cons.mpr ⟨fun h => hb (l.room_sublist.subset h), l.nodup.sublist l.room_sublist⟩
  bounded := by
    have hn := NeZero.pos n
    have hlen := l.bounded
    unfold room
    split_ifs with h
    · exact h
    · rw [List.length_cons, List.length_dropLast]
      omega

def access [NeZero n] (l : RecencyList α n) (install : Bool) (b : α) : RecencyList α n :=
  if hb : b ∈ l.items then l.touch b hb else if install then l.push b hb else l

def dropped (l : RecencyList α n) (install : Bool) (b : α) : Option α :=
  if b ∉ l.items ∧ install = true ∧ l.items.length = n then l.items.getLast? else none

theorem access_items [NeZero n] (l : RecencyList α n) (install : Bool) (b : α) :
    (l.access install b).items = refer n install b l.items := by
  unfold access
  by_cases hb : b ∈ l.items
  · rw [dif_pos hb, refer, if_pos hb]
    rfl
  · rw [dif_neg hb, refer, if_neg hb]
    cases install with
    | false => rfl
    | true =>
      obtain ⟨m, rfl⟩ : ∃ m, n = m + 1 := ⟨n - 1, (Nat.succ_pred (NeZero.ne n)).symm⟩
      have hlen := l.bounded
      rw [if_pos rfl, if_pos rfl, List.take_succ_cons]
      change b :: l.room = _
      congr 1
      unfold room
      split_ifs with h
      · rw [List.take_of_length_le (by omega)]
      · rw [List.dropLast_eq_take, show l.items.length = m + 1 by omega, Nat.add_sub_cancel]

theorem dropped_eq_some_iff [NeZero n] (l : RecencyList α n) (install : Bool) (b x : α) :
    l.dropped install b = some x ↔ x ∈ l.items ∧ x ∉ (l.access install b).items := by
  have hlen := l.bounded
  unfold dropped access
  by_cases hb : b ∈ l.items
  · rw [if_neg fun h => h.1 hb, dif_pos hb]
    refine iff_of_false (by simp) ?_
    rintro ⟨hx, hout⟩
    apply hout
    exact (List.perm_cons_erase hb).subset hx
  · rw [dif_neg hb]
    cases install with
    | false => simp
    | true =>
      by_cases hfull : l.items.length = n
      · have hne : l.items ≠ [] := List.ne_nil_of_length_pos (by rw [hfull]; exact NeZero.pos n)
        have hsplit := List.dropLast_append_getLast hne
        have hroom : l.room = l.items.dropLast := if_neg (by omega)
        have hnodup := l.nodup
        rw [← hsplit, List.nodup_append] at hnodup
        rw [if_pos ⟨hb, rfl, hfull⟩, if_pos rfl, List.getLast?_eq_some_getLast hne, Option.some.injEq]
        change l.items.getLast hne = x ↔ x ∈ l.items ∧ x ∉ b :: l.room
        rw [hroom]
        constructor
        · rintro rfl
          refine ⟨List.getLast_mem hne, ?_⟩
          intro hmem
          rcases List.mem_cons.mp hmem with hxb | hmem
          · exact hb (hxb ▸ List.getLast_mem hne)
          · exact hnodup.2.2 _ hmem _ (List.mem_singleton_self _) rfl
        · rintro ⟨hx, hout⟩
          rw [← hsplit] at hx
          rcases List.mem_append.mp hx with hx | hx
          · exact absurd (List.mem_cons_of_mem b hx) hout
          · exact (List.mem_singleton.mp hx).symm
      · rw [if_neg fun h => hfull h.2.2, if_pos rfl]
        have hroom : l.room = l.items := if_pos (by omega)
        refine iff_of_false (by simp) ?_
        rintro ⟨hx, hout⟩
        apply hout
        apply List.mem_cons_of_mem
        rwa [hroom]

end RecencyList

end CacheSim.Recency
