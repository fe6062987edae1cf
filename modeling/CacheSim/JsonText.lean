import CacheSim.Numerals

namespace CacheSim.JsonText

open Numerals

def escapes : List (Char × Char) :=
  [('"', '"'), ('\\', '\\'), ('/', '/'), ('b', Char.ofNat 8), ('f', Char.ofNat 12), ('n', '\n'),
    ('r', '\r'), ('t', '\t')]

structure HexQuad (u : List Char) (v : ℕ) : Prop where
  length_eq : u.length = 4
  digits : ∀ c ∈ u, isDigit 16 c = true
  value_eq : value 16 u = v

/-- The body of a string and the characters it stands for. A surrogate that is not half of a pair
stands for no character. -/
inductive Denotes : List Char → List Char → Prop
  | nil : Denotes [] []
  | unescaped {c : Char} {t m : List Char} (hc : 0x20 ≤ c.toNat) (hquote : c ≠ '"') (hslash : c ≠ '\\')
      (h : Denotes t m) : Denotes (c :: t) (c :: m)
  | escaped {x c : Char} {t m : List Char} (hx : (x, c) ∈ escapes) (h : Denotes t m) :
      Denotes ('\\' :: x :: t) (c :: m)
  | unicode {u t m : List Char} {c : Char} (hu : HexQuad u c.toNat) (h : Denotes t m) :
      Denotes ('\\' :: 'u' :: (u ++ t)) (c :: m)
  | pair {u w t m : List Char} {hi lo : ℕ} {c : Char} (hu : HexQuad u hi) (hw : HexQuad w lo)
      (hhi : 0xD800 ≤ hi ∧ hi < 0xDC00) (hlo : 0xDC00 ≤ lo ∧ lo < 0xE000)
      (hc : c.toNat = 0x10000 + (hi - 0xD800) * 0x400 + (lo - 0xDC00)) (h : Denotes t m) :
      Denotes ('\\' :: 'u' :: (u ++ '\\' :: 'u' :: (w ++ t))) (c :: m)

theorem HexQuad.unique {u u' t t' : List Char} {v v' : ℕ} (h : HexQuad u v) (h' : HexQuad u' v')
    (ht : u ++ t = u' ++ t') : u = u' ∧ t = t' ∧ v = v' := by
  obtain ⟨rfl, rfl⟩ := List.append_inj ht (h.length_eq.trans h'.length_eq.symm)
  exact ⟨rfl, rfl, h.value_eq.symm.trans h'.value_eq⟩

theorem not_escape_u (c : Char) : ('u', c) ∉ escapes := by
  simp [escapes]

theorem escapes_unique {x c c' : Char} (h : (x, c) ∈ escapes) (h' : (x, c') ∈ escapes) : c = c' := by
  simp only [escapes, List.mem_cons, Prod.mk.injEq, List.not_mem_nil, or_false] at h h'
  rcases h with ⟨rfl, rfl⟩ | ⟨rfl, rfl⟩ | ⟨rfl, rfl⟩ | ⟨rfl, rfl⟩ | ⟨rfl, rfl⟩ | ⟨rfl, rfl⟩ | ⟨rfl, rfl⟩ |
    ⟨rfl, rfl⟩ <;> simp at h' <;> exact h'.symm

theorem toNat_not_surrogate (c : Char) : ¬(0xD800 ≤ c.toNat ∧ c.toNat < 0xE000) := by
  have h := c.valid
  simp only [UInt32.isValidChar, Nat.isValidChar] at h
  change c.toNat < 0xD800 ∨ 0xDFFF < c.toNat ∧ c.toNat < 0x110000 at h
  omega

namespace Denotes

variable {t m m' : List Char}

theorem of_slash (h : Denotes ('\\' :: t) m) :
    (∃ x c t' m', (x, c) ∈ escapes ∧ t = x :: t' ∧ m = c :: m' ∧ Denotes t' m') ∨
    (∃ u c t' m', HexQuad u c.toNat ∧ t = 'u' :: (u ++ t') ∧ m = c :: m' ∧ Denotes t' m') ∨
    ∃ u w hi lo c t' m', HexQuad u hi ∧ HexQuad w lo ∧ (0xD800 ≤ hi ∧ hi < 0xDC00) ∧
      c.toNat = 0x10000 + (hi - 0xD800) * 0x400 + (lo - 0xDC00) ∧
      t = 'u' :: (u ++ '\\' :: 'u' :: (w ++ t')) ∧ m = c :: m' ∧ Denotes t' m' := by
  generalize ht : '\\' :: t = text at h
  cases h with
  | nil => cases ht
  | unescaped hc hquote hslash h => exact absurd (List.cons.inj ht).1.symm hslash
  | escaped hx h => exact .inl ⟨_, _, _, _, hx, (List.cons.inj ht).2, rfl, h⟩
  | unicode hu h => exact .inr (.inl ⟨_, _, _, _, hu, (List.cons.inj ht).2, rfl, h⟩)
  | pair hu hw hhi hlo hc h =>
    exact .inr (.inr ⟨_, _, _, _, _, _, _, hu, hw, hhi, hc, (List.cons.inj ht).2, rfl, h⟩)

theorem unique (h : Denotes t m) (h' : Denotes t m') : m = m' := by
  induction h generalizing m' with
  | nil =>
    cases h'
    rfl
  | unescaped hc hquote hslash h ih =>
    cases h' with
    | unescaped _ _ _ h' => rw [ih h']
    | _ => exact absurd rfl hslash
  | escaped hx h ih =>
    rcases h'.of_slash with ⟨x, c, t', m₁, hx', ht, rfl, h'⟩ | ⟨u, c, t', m₁, -, ht, -⟩ |
      ⟨u, w, hi, lo, c, t', m₁, -, -, -, -, ht, -⟩
    · obtain ⟨rfl, rfl⟩ := List.cons.inj ht
      rw [escapes_unique hx hx', ih h']
    · rw [(List.cons.inj ht).1] at hx
      exact absurd hx (not_escape_u _)
    · rw [(List.cons.inj ht).1] at hx
      exact absurd hx (not_escape_u _)
  | @unicode u t m c hu h ih =>
    rcases h'.of_slash with ⟨x, c', t', m₁, hx', ht, rfl, h'⟩ | ⟨u', c', t', m₁, hu', ht, rfl, h'⟩ |
      ⟨u', w', hi, lo, c', t', m₁, hu', -, hhi, -, ht, -⟩
    · rw [← (List.cons.inj ht).1] at hx'
      exact absurd hx' (not_escape_u _)
    · obtain ⟨-, rfl, hv⟩ := hu.unique hu' (List.cons.inj ht).2
      rw [Char.toNat_inj.mp hv, ih h']
    · obtain ⟨-, -, hv⟩ := hu.unique hu' (List.cons.inj ht).2
      exact absurd ⟨hv ▸ hhi.1, by omega⟩ (toNat_not_surrogate c)
  | @pair u w t m hi lo c hu hw hhi hlo hc h ih =>
    rcases h'.of_slash with ⟨x, c', t', m₁, hx', ht, rfl, h'⟩ | ⟨u', c', t', m₁, hu', ht, rfl, h'⟩ |
      ⟨u', w', hi', lo', c', t', m₁, hu', hw', -, hc', ht, rfl, h'⟩
    · rw [← (List.cons.inj ht).1] at hx'
      exact absurd hx' (not_escape_u _)
    · obtain ⟨-, -, hv⟩ := hu.unique hu' (List.cons.inj ht).2
      exact absurd ⟨hv ▸ hhi.1, by omega⟩ (toNat_not_surrogate c')
    · obtain ⟨-, hrest, rfl⟩ := hu.unique hu' (List.cons.inj ht).2
      obtain ⟨-, hrest⟩ := List.cons.inj hrest
      obtain ⟨-, rfl, rfl⟩ := hw.unique hw' (List.cons.inj hrest).2
      rw [Char.toNat_inj.mp (hc.trans hc'.symm), ih h']

theorem not_slash : ¬Denotes ['\\'] m := by
  intro h
  rcases h.of_slash with ⟨x, c, t', m', -, ht, -⟩ | ⟨u, c, t', m', -, ht, -⟩ |
    ⟨u, w, hi, lo, c, t', m', -, -, -, -, ht, -⟩
  · cases ht
  · cases ht
  · cases ht

theorem after_escape {x : Char} (h : Denotes ('\\' :: x :: t) m) (hx : x ≠ 'u') : ∃ m', Denotes t m' := by
  rcases h.of_slash with ⟨y, c, t', m', -, ht, -, h'⟩ | ⟨u, c, t', m', -, ht, -⟩ |
    ⟨u, w, hi, lo, c, t', m', -, -, -, -, ht, -⟩
  · rw [(List.cons.inj ht).2]
    exact ⟨m', h'⟩
  · exact absurd (List.cons.inj ht).1 hx
  · exact absurd (List.cons.inj ht).1 hx

theorem printable (h : Denotes t m) {c : Char} {t' : List Char} (ht : t = c :: t') :
    0x20 ≤ c.toNat := by
  cases h with
  | nil => cases ht
  | unescaped hc hquote hslash h =>
    rw [← (List.cons.inj ht).1]
    exact hc
  | escaped hx h =>
    rw [← (List.cons.inj ht).1]
    decide
  | unicode hu h =>
    rw [← (List.cons.inj ht).1]
    decide
  | pair hu hw hhi hlo hc h =>
    rw [← (List.cons.inj ht).1]
    decide

theorem of_plain {c : Char} (h : Denotes (c :: t) m) (hslash : c ≠ '\\') :
    ∃ m', m = c :: m' ∧ Denotes t m' := by
  generalize ht : c :: t = text at h
  cases h with
  | nil => cases ht
  | unescaped hc hquote _ h =>
    obtain ⟨rfl, rfl⟩ := List.cons.inj ht
    exact ⟨_, rfl, h⟩
  | escaped hx h => exact absurd (List.cons.inj ht).1 hslash
  | unicode hu h => exact absurd (List.cons.inj ht).1 hslash
  | pair hu hw hhi hlo hc h => exact absurd (List.cons.inj ht).1 hslash

end Denotes

def utf8 (cs : List Char) : List UInt8 := cs.flatMap String.utf8EncodeChar

theorem utf8_append (cs ds : List Char) : utf8 (cs ++ ds) = utf8 cs ++ utf8 ds :=
  List.flatMap_append

theorem utf8_injective : Function.Injective utf8 := by
  intro cs ds h
  have henc : cs.utf8Encode = ds.utf8Encode := congrArg List.toByteArray h
  have hdec := congrArg ByteArray.utf8Decode? henc
  rw [List.utf8Decode?_utf8Encode, List.utf8Decode?_utf8Encode] at hdec
  simpa using hdec

theorem toNat_of_mem_utf8EncodeChar {c : Char} {b : UInt8} (hb : b ∈ String.utf8EncodeChar c)
    (hlow : b.toNat < 128) : c.toNat = b.toNat := by
  unfold String.utf8EncodeChar at hb
  have hval : c.val.toNat = c.toNat := rfl
  dsimp only at hb
  rw [hval] at hb
  split_ifs at hb with h1 h2 h3 <;>
    simp only [List.mem_cons, List.not_mem_nil, or_false] at hb
  · rw [hb, UInt8.toNat_ofNat']
    omega
  all_goals
    have hhigh : 128 ≤ b.toNat := by
      rcases hb with rfl | rfl | rfl | rfl <;> rw [UInt8.toNat_ofNat'] <;> omega
    omega

end CacheSim.JsonText
