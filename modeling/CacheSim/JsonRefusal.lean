import CacheSim.JsonDocument

namespace CacheSim.JsonText

structure Refused (text : List Char) : Prop where
  begins : Begins text
  readValue_eq : ∀ fuel rest, readValue fuel (text ++ rest) = none

/-- The reader takes the text for a number, or it does not read on. -/
def Settled (text : List Char) : Prop := isNumber text = true ∨ Refused text

theorem Settled.begins {text : List Char} (h : Settled text) : Begins text := by
  rcases h with h | h
  · exact begins_number h
  · exact h.begins

section

variable {esc : List Char → List Char}

theorem readMember_some {k : List Char} (hk : Denotes (esc k) k) {fuel : ℕ} {cs : List Char}
    {m : (List Char × Json) × List Char}
    (h : readMember fuel ('"' :: (esc k ++ '"' :: ':' :: cs)) = some m) :
    ∃ fuel' v, readValue fuel' cs = some v ∧ m = ((k, v.1), v.2) := by
  cases fuel with
  | zero => cases h
  | succ fuel =>
    rw [readMember_key hk, Option.map_eq_some_iff] at h
    obtain ⟨v, hv, rfl⟩ := h
    exact ⟨fuel, v, hv, rfl⟩

mutual

theorem readValue_sound {fuel : ℕ} {rest : List Char} {y : Json × List Char} : ∀ {x : Json},
    Formed Settled esc x → (∀ c ∈ rest.head?, isNumberChar c = false) →
    readValue fuel (write esc x ++ rest) = some y → Proper esc x ∧ y = (x, rest)
  | x, hx, hrest, h => by
    cases fuel with
    | zero => cases h
    | succ fuel =>
      have hatom (hproper : Proper esc x) (hatom : x.atom) : Proper esc x ∧ y = (x, rest) := by
        rw [readValue_atom hproper hatom hrest] at h
        exact ⟨hproper, (Option.some.inj h).symm⟩
      match x, hx with
      | .null, _ | .bool _, _ | .array [], _ | .object [], _ => exact hatom trivial trivial
      | .string _, hx => exact hatom hx trivial
      | .number text, hx =>
        rcases hx with hnumber | hrefused
        · exact hatom hnumber trivial
        · rw [write, hrefused.readValue_eq] at h
          cases h
      | .array (z :: xs), ⟨hz, hxs⟩ =>
        obtain ⟨c, cs, hwrite, hspace, hclose⟩ := begins_write (fun _ => Settled.begins) hz
        rw [write, List.cons_append, List.append_assoc, hwrite, List.cons_append, readValue_array hspace hclose,
          ← List.cons_append, ← hwrite] at h
        simp only [Option.map_eq_some_iff, Option.bind_eq_some_iff] at h
        obtain ⟨w, ⟨v, hv, w', hw, rfl⟩, rfl⟩ := h
        obtain ⟨hproper, rfl⟩ := readValue_sound hz (items_head xs rest) hv
        obtain ⟨hitems, rfl⟩ := readItems_sound hxs hw
        exact ⟨⟨hproper, hitems⟩, rfl⟩
      | .object ((k, z) :: ms), ⟨hk, hz, hms⟩ =>
        simp only [write, List.cons_append, List.append_assoc] at h
        rw [readValue_object] at h
        simp only [Option.map_eq_some_iff, Option.bind_eq_some_iff] at h
        obtain ⟨m, hm, w, hw, rfl⟩ := h
        obtain ⟨fuel', v, hv, rfl⟩ := readMember_some hk hm
        obtain ⟨hproper, rfl⟩ := readValue_sound hz (members_head ms rest) hv
        obtain ⟨hmembers, rfl⟩ := readMembers_sound hms hw
        exact ⟨⟨hk, hproper, hmembers⟩, rfl⟩

theorem readItems_sound {fuel : ℕ} {rest : List Char} {y : List Json × List Char} : ∀ {xs : List Json},
    FormedItems Settled esc xs → readItems fuel (writeItems esc xs ++ rest) = some y →
    ProperItems esc xs ∧ y = (xs, rest)
  | xs, hxs, h => by
    cases fuel with
    | zero => cases h
    | succ fuel =>
      match xs, hxs with
      | [], _ =>
        rw [writeItems, List.cons_append, readItems, skip_cons (by decide)] at h
        exact ⟨trivial, (Option.some.inj h).symm⟩
      | z :: xs, ⟨hz, hxs⟩ =>
        rw [writeItems, List.cons_append, List.append_assoc, readItems, skip_cons (by decide)] at h
        simp only [Option.map_eq_some_iff, Option.bind_eq_some_iff] at h
        obtain ⟨v, hv, w, hw, rfl⟩ := h
        obtain ⟨hproper, rfl⟩ := readValue_sound hz (items_head xs rest) hv
        obtain ⟨hitems, rfl⟩ := readItems_sound hxs hw
        exact ⟨⟨hproper, hitems⟩, rfl⟩

theorem readMembers_sound {fuel : ℕ} {rest : List Char} {y : List (List Char × Json) × List Char} :
    ∀ {ms : List (List Char × Json)}, FormedMembers Settled esc ms →
    readMembers fuel (writeMembers esc ms ++ rest) = some y → ProperMembers esc ms ∧ y = (ms, rest)
  | ms, hms, h => by
    cases fuel with
    | zero => cases h
    | succ fuel =>
      match ms, hms with
      | [], _ =>
        rw [writeMembers, List.cons_append, readMembers, skip_cons (by decide)] at h
        exact ⟨trivial, (Option.some.inj h).symm⟩
      | (k, z) :: ms, ⟨hk, hz, hms⟩ =>
        simp only [writeMembers, List.cons_append, List.append_assoc] at h
        rw [readMembers, skip_cons (by decide)] at h
        simp only [Option.map_eq_some_iff, Option.bind_eq_some_iff] at h
        obtain ⟨m, hm, w, hw, rfl⟩ := h
        obtain ⟨fuel', v, hv, rfl⟩ := readMember_some hk hm
        obtain ⟨hproper, rfl⟩ := readValue_sound hz (members_head ms rest) hv
        obtain ⟨hmembers, rfl⟩ := readMembers_sound hms hw
        exact ⟨⟨hk, hproper, hmembers⟩, rfl⟩

end

end

end CacheSim.JsonText
