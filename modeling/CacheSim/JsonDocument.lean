import CacheSim.JsonText

/-!
JSON documents: a reader after the grammar of RFC 8259, a writer without white space, and that the reader
gives back what the writer was given. A number is kept as its text.
-/

namespace CacheSim.JsonText

open Numerals

inductive Json where
  | null
  | bool (b : Bool)
  | number (text : List Char)
  | string (s : List Char)
  | array (items : List Json)
  | object (members : List (List Char × Json))

def skip (cs : List Char) : List Char := cs.dropWhile fun c => c = ' ' ∨ c = '\t' ∨ c = '\n' ∨ c = '\r'

def isNumberChar (c : Char) : Bool := isDigit 10 c || c = '-' || c = '+' || c = '.' || c = 'e' || c = 'E'

def afterDigits : List Char → Option (List Char)
  | c :: cs => if isDigit 10 c then some (cs.dropWhile (isDigit 10)) else none
  | [] => none

def afterInt : List Char → Option (List Char)
  | '-' :: '0' :: cs | '0' :: cs => some cs
  | '-' :: cs | cs => afterDigits cs

def afterFrac : List Char → Option (List Char)
  | '.' :: cs => afterDigits cs
  | cs => some cs

def afterExp : List Char → Option (List Char)
  | 'e' :: '+' :: cs | 'e' :: '-' :: cs | 'E' :: '+' :: cs | 'E' :: '-' :: cs | 'e' :: cs | 'E' :: cs =>
    afterDigits cs
  | cs => some cs

def isNumber (cs : List Char) : Bool :=
  cs.all isNumberChar && ((afterInt cs).bind afterFrac).bind afterExp = some []

def readNumber (cs : List Char) : Option (Json × List Char) :=
  let text := cs.takeWhile isNumberChar
  if isNumber text then some (.number text, cs.dropWhile isNumberChar) else none

def readScalar : List Char → Option (Json × List Char)
  | 't' :: 'r' :: 'u' :: 'e' :: rest => some (.bool true, rest)
  | 'f' :: 'a' :: 'l' :: 's' :: 'e' :: rest => some (.bool false, rest)
  | 'n' :: 'u' :: 'l' :: 'l' :: rest => some (.null, rest)
  | cs => readNumber cs

def quad (a b c d : Char) : Option ℕ :=
  if [a, b, c, d].all (isDigit 16) then some (value 16 [a, b, c, d]) else none

def readString : List Char → Option (List Char × List Char)
  | [] => none
  | '"' :: rest => some ([], rest)
  | '\\' :: 'u' :: a :: b :: c :: d :: cs =>
    match quad a b c d with
    | none => none
    | some hi =>
      if hi < 0xD800 ∨ 0xE000 ≤ hi then (readString cs).map fun x => (Char.ofNat hi :: x.1, x.2)
      else
        match cs with
        | '\\' :: 'u' :: a :: b :: c :: d :: cs =>
          match quad a b c d with
          | none => none
          | some lo =>
            if hi < 0xDC00 ∧ 0xDC00 ≤ lo ∧ lo < 0xE000 then
              (readString cs).map fun x => (Char.ofNat (0x10000 + (hi - 0xD800) * 0x400 + (lo - 0xDC00)) :: x.1, x.2)
            else none
        | _ => none
  | '\\' :: x :: cs =>
    match escapes.lookup x with
    | none => none
    | some c => (readString cs).map fun y => (c :: y.1, y.2)
  | c :: cs => if c.toNat < 0x20 ∨ c = '\\' then none else (readString cs).map fun x => (c :: x.1, x.2)

mutual

/-- `fuel` bounds the nesting and the number of members; the length of the text is enough. -/
def readValue : ℕ → List Char → Option (Json × List Char)
  | 0, _ => none
  | fuel + 1, cs =>
    match skip cs with
    | '"' :: cs => (readString cs).map fun x => (.string x.1, x.2)
    | '[' :: cs =>
      match skip cs with
      | ']' :: rest => some (.array [], rest)
      | cs => (readValue fuel cs).bind fun x => (readItems fuel x.2).map fun y => (.array (x.1 :: y.1), y.2)
    | '{' :: cs =>
      match skip cs with
      | '}' :: rest => some (.object [], rest)
      | cs => (readMember fuel cs).bind fun x =>
          (readMembers fuel x.2).map fun y => (.object (x.1 :: y.1), y.2)
    | cs => readScalar cs

def readItems : ℕ → List Char → Option (List Json × List Char)
  | 0, _ => none
  | fuel + 1, cs =>
    match skip cs with
    | ']' :: rest => some ([], rest)
    | ',' :: cs => (readValue fuel cs).bind fun x => (readItems fuel x.2).map fun y => (x.1 :: y.1, y.2)
    | _ => none

def readMember : ℕ → List Char → Option ((List Char × Json) × List Char)
  | 0, _ => none
  | fuel + 1, cs =>
    match skip cs with
    | '"' :: cs => (readString cs).bind fun k =>
        match skip k.2 with
        | ':' :: cs => (readValue fuel cs).map fun x => ((k.1, x.1), x.2)
        | _ => none
    | _ => none

def readMembers : ℕ → List Char → Option (List (List Char × Json) × List Char)
  | 0, _ => none
  | fuel + 1, cs =>
    match skip cs with
    | '}' :: rest => some ([], rest)
    | ',' :: cs => (readMember fuel cs).bind fun x => (readMembers fuel x.2).map fun y => (x.1 :: y.1, y.2)
    | _ => none

end

def readDocument (cs : List Char) : Option Json :=
  match readValue cs.length cs with
  | some (x, rest) => if skip rest = [] then some x else none
  | none => none

mutual

/-- `esc` writes the body of a string. -/
def write (esc : List Char → List Char) : Json → List Char
  | .null => ['n', 'u', 'l', 'l']
  | .bool true => ['t', 'r', 'u', 'e']
  | .bool false => ['f', 'a', 'l', 's', 'e']
  | .number text => text
  | .string s => '"' :: (esc s ++ ['"'])
  | .array [] => ['[', ']']
  | .array (x :: xs) => '[' :: (write esc x ++ writeItems esc xs)
  | .object [] => ['{', '}']
  | .object ((k, x) :: ms) => '{' :: '"' :: (esc k ++ '"' :: ':' :: (write esc x ++ writeMembers esc ms))

def writeItems (esc : List Char → List Char) : List Json → List Char
  | [] => [']']
  | x :: xs => ',' :: (write esc x ++ writeItems esc xs)

def writeMembers (esc : List Char → List Char) : List (List Char × Json) → List Char
  | [] => ['}']
  | (k, x) :: ms => ',' :: '"' :: (esc k ++ '"' :: ':' :: (write esc x ++ writeMembers esc ms))

end

mutual

def Formed (num : List Char → Prop) (esc : List Char → List Char) : Json → Prop
  | .null | .bool _ => True
  | .number text => num text
  | .string s => Denotes (esc s) s
  | .array xs => FormedItems num esc xs
  | .object ms => FormedMembers num esc ms

def FormedItems (num : List Char → Prop) (esc : List Char → List Char) : List Json → Prop
  | [] => True
  | x :: xs => Formed num esc x ∧ FormedItems num esc xs

def FormedMembers (num : List Char → Prop) (esc : List Char → List Char) : List (List Char × Json) → Prop
  | [] => True
  | (k, x) :: ms => Denotes (esc k) k ∧ Formed num esc x ∧ FormedMembers num esc ms

end

abbrev Proper (esc : List Char → List Char) (x : Json) : Prop := Formed (fun text => isNumber text = true) esc x

abbrev ProperItems (esc : List Char → List Char) (xs : List Json) : Prop :=
  FormedItems (fun text => isNumber text = true) esc xs

abbrev ProperMembers (esc : List Char → List Char) (ms : List (List Char × Json)) : Prop :=
  FormedMembers (fun text => isNumber text = true) esc ms

theorem readString_unescaped {c : Char} {cs : List Char} (hc : 0x20 ≤ c.toNat) (hquote : c ≠ '"')
    (hslash : c ≠ '\\') : readString (c :: cs) = (readString cs).map fun x => (c :: x.1, x.2) := by
  rw [readString]
  · rw [if_neg (by simp only [not_or]; exact ⟨by omega, hslash⟩)]
  · exact fun h => hquote h
  · exact fun _ _ _ _ _ h _ => hslash h
  · exact fun _ _ h _ => hslash h

theorem quad_eq {u : List Char} {v : ℕ} (h : HexQuad u v) : ∃ a b c d, u = [a, b, c, d] ∧ quad a b c d = some v := by
  obtain ⟨a, b, c, d, rfl⟩ : ∃ a b c d, u = [a, b, c, d] := by
    match u, h.length_eq with
    | [a, b, c, d], _ => exact ⟨a, b, c, d, rfl⟩
  refine ⟨a, b, c, d, rfl, ?_⟩
  rw [quad, if_pos (List.all_eq_true.mpr h.digits), h.value_eq]

theorem readString_append {t m : List Char} (h : Denotes t m) (cs : List Char) :
    readString (t ++ cs) = (readString cs).map fun x => (m ++ x.1, x.2) := by
  induction h with
  | nil => simp
  | unescaped hc hquote hslash h ih =>
    rw [List.cons_append, readString_unescaped hc hquote hslash, ih, Option.map_map]
    rfl
  | @escaped x c t m hx h ih =>
    have hlookup : escapes.lookup x = some c := by
      simp only [escapes, List.mem_cons, Prod.mk.injEq, List.not_mem_nil, or_false] at hx
      rcases hx with ⟨rfl, rfl⟩ | ⟨rfl, rfl⟩ | ⟨rfl, rfl⟩ | ⟨rfl, rfl⟩ | ⟨rfl, rfl⟩ | ⟨rfl, rfl⟩ | ⟨rfl, rfl⟩ |
        ⟨rfl, rfl⟩ <;> rfl
    have hu : x ≠ 'u' := by
      rintro rfl
      exact not_escape_u c hx
    rw [List.cons_append, List.cons_append, readString]
    · rw [hlookup]
      simp only [ih, Option.map_map]
      rfl
    · exact fun _ _ _ _ _ h _ => hu h
  | @unicode u t m c hu h ih =>
    obtain ⟨x, y, z, w, rfl, hquad⟩ := quad_eq hu
    have hplain : c.toNat < 0xD800 ∨ 0xE000 ≤ c.toNat := by
      have hc := toNat_not_surrogate c
      omega
    simp only [List.cons_append, List.nil_append]
    rw [readString, hquad]
    simp only [if_pos hplain]
    rw [ih, Option.map_map, Char.ofNat_toNat]
    rfl
  | @pair u w t m hi lo c hu hw hhi hlo hc h ih =>
    obtain ⟨x, y, z, v, rfl, hquad⟩ := quad_eq hu
    obtain ⟨x', y', z', v', rfl, hquad'⟩ := quad_eq hw
    simp only [List.cons_append, List.nil_append]
    rw [readString, hquad]
    simp only [if_neg (show ¬(hi < 0xD800 ∨ 0xE000 ≤ hi) by omega), hquad',
      if_pos (show hi < 0xDC00 ∧ 0xDC00 ≤ lo ∧ lo < 0xE000 from ⟨hhi.2, hlo⟩)]
    rw [ih, Option.map_map, ← hc, Char.ofNat_toNat]
    rfl

theorem readString_denotes {t m : List Char} (h : Denotes t m) (rest : List Char) :
    readString (t ++ '"' :: rest) = some (m, rest) := by
  rw [readString_append h, readString, Option.map_some, List.append_nil]

theorem skip_cons {c : Char} (hc : ¬(c = ' ' ∨ c = '\t' ∨ c = '\n' ∨ c = '\r')) (cs : List Char) :
    skip (c :: cs) = c :: cs :=
  List.dropWhile_cons_of_neg (by simpa using hc)

def Begins (text : List Char) : Prop :=
  ∃ c cs, text = c :: cs ∧ ¬(c = ' ' ∨ c = '\t' ∨ c = '\n' ∨ c = '\r') ∧ c ≠ ']'

theorem numberChar_ne {c : Char} (hc : isNumberChar c = true) {x : Char} (hx : isNumberChar x = false) :
    c ≠ x := by
  rintro rfl
  rw [hc] at hx
  cases hx

theorem readNumber_append {text rest : List Char} (htext : isNumber text = true)
    (hrest : ∀ c ∈ rest.head?, isNumberChar c = false) :
    readNumber (text ++ rest) = some (.number text, rest) := by
  have hall : ∀ c ∈ text, isNumberChar c = true := by
    rw [isNumber, Bool.and_eq_true] at htext
    exact List.all_eq_true.mp htext.1
  rw [readNumber, takeWhile_run hall hrest, dropWhile_run hall hrest, if_pos htext]

theorem readScalar_number {c : Char} (hc : isNumberChar c = true) (cs : List Char) :
    readScalar (c :: cs) = readNumber (c :: cs) := by
  rw [readScalar]
  · exact fun _ h => absurd (List.cons.inj h).1 (numberChar_ne hc (by decide))
  · exact fun _ h => absurd (List.cons.inj h).1 (numberChar_ne hc (by decide))
  · exact fun _ h => absurd (List.cons.inj h).1 (numberChar_ne hc (by decide))

theorem readValue_scalar {c : Char} {cs : List Char}
    (hspace : ¬(c = ' ' ∨ c = '\t' ∨ c = '\n' ∨ c = '\r')) (hquote : c ≠ '"') (hsquare : c ≠ '[')
    (hcurly : c ≠ '\x7b') (fuel : ℕ) : readValue (fuel + 1) (c :: cs) = readScalar (c :: cs) := by
  rw [readValue, skip_cons hspace]
  split
  · rename_i h
    exact absurd (List.cons.inj h).1 hquote
  · rename_i h
    exact absurd (List.cons.inj h).1 hsquare
  · rename_i h
    exact absurd (List.cons.inj h).1 hcurly
  · rfl

theorem readValue_array {c : Char} {cs : List Char} (hspace : ¬(c = ' ' ∨ c = '\t' ∨ c = '\n' ∨ c = '\r'))
    (hclose : c ≠ ']') (fuel : ℕ) : readValue (fuel + 1) ('[' :: c :: cs) =
      ((readValue fuel (c :: cs)).bind fun x =>
        (readItems fuel x.2).map fun y => (x.1 :: y.1, y.2)).map fun y => (.array y.1, y.2) := by
  rw [readValue, skip_cons (by decide)]
  simp only [skip_cons hspace]
  split
  · rename_i h
    exact absurd (List.cons.inj h).1 hclose
  · simp only [Option.map_bind, Function.comp_def, Option.map_map]

theorem readValue_object (cs : List Char) (fuel : ℕ) : readValue (fuel + 1) ('\x7b' :: '"' :: cs) =
    (readMember fuel ('"' :: cs)).bind fun x =>
      (readMembers fuel x.2).map fun y => (.object (x.1 :: y.1), y.2) := by
  rw [readValue, skip_cons (by decide)]
  simp only [skip_cons (show ¬('"' = ' ' ∨ '"' = '\t' ∨ '"' = '\n' ∨ '"' = '\r') by decide)]
  rfl

theorem numberChar_head {c : Char} {cs : List Char} (h : isNumber (c :: cs) = true) :
    isNumberChar c = true ∧ ¬(c = ' ' ∨ c = '\t' ∨ c = '\n' ∨ c = '\r') := by
  rw [isNumber, Bool.and_eq_true] at h
  have hc : isNumberChar c = true := List.all_eq_true.mp h.1 c List.mem_cons_self
  refine ⟨hc, ?_⟩
  rintro (rfl | rfl | rfl | rfl) <;> cases hc

theorem begins_number {text : List Char} (h : isNumber text = true) : Begins text := by
  cases text with
  | nil => simp [isNumber, afterInt, afterDigits] at h
  | cons c cs =>
    obtain ⟨hc, hspace⟩ := numberChar_head h
    exact ⟨c, cs, rfl, hspace, numberChar_ne hc (by decide)⟩

section

variable {esc : List Char → List Char}

theorem begins_write {num : List Char → Prop} (hnum : ∀ text, num text → Begins text) {x : Json}
    (hx : Formed num esc x) : Begins (write esc x) := by
  match x, hx with
  | .null, _ | .bool true, _ | .bool false, _ | .string _, _ | .array [], _ | .array (_ :: _), _ | .object [], _
  | .object ((_, _) :: _), _ => exact ⟨_, _, rfl, by decide, by decide⟩
  | .number text, hx => exact hnum text hx

theorem items_head (xs : List Json) (rest : List Char) :
    ∀ c ∈ (writeItems esc xs ++ rest).head?, isNumberChar c = false := by
  cases xs <;> simp [writeItems] <;> decide

theorem members_head (ms : List (List Char × Json)) (rest : List Char) :
    ∀ c ∈ (writeMembers esc ms ++ rest).head?, isNumberChar c = false := by
  match ms with
  | [] | (_, _) :: _ => simp [writeMembers]; decide

theorem readMember_key {k : List Char} (hk : Denotes (esc k) k) (fuel : ℕ) (cs : List Char) :
    readMember (fuel + 1) ('"' :: (esc k ++ '"' :: ':' :: cs)) =
      (readValue fuel cs).map fun x => ((k, x.1), x.2) := by
  rw [readMember, skip_cons (by decide)]
  simp only [readString_denotes hk, Option.bind_some]
  rw [skip_cons (by decide)]
  rfl

def Json.atom : Json → Prop
  | .array (_ :: _) | .object (_ :: _) => False
  | _ => True

theorem readValue_atom {x : Json} (hx : Proper esc x) (hatom : x.atom) {rest : List Char}
    (hrest : ∀ c ∈ rest.head?, isNumberChar c = false) (fuel : ℕ) :
    readValue (fuel + 1) (write esc x ++ rest) = some (x, rest) := by
  match x, hx, hatom with
  | .null, _, _ => exact readValue_scalar (by decide) (by decide) (by decide) (by decide) fuel
  | .bool true, _, _ => exact readValue_scalar (by decide) (by decide) (by decide) (by decide) fuel
  | .bool false, _, _ => exact readValue_scalar (by decide) (by decide) (by decide) (by decide) fuel
  | .number [], hx, _ => simp [Formed, isNumber, afterInt, afterDigits] at hx
  | .number (c :: cs), hx, _ =>
    obtain ⟨hc, hspace⟩ := numberChar_head hx
    have hread := readNumber_append hx hrest
    rw [write, List.cons_append, readValue_scalar hspace (numberChar_ne hc (by decide))
      (numberChar_ne hc (by decide)) (numberChar_ne hc (by decide)), readScalar_number hc]
    exact hread
  | .string s, hx, _ =>
    have hread := readString_denotes hx rest
    rw [write, List.cons_append, List.append_assoc, readValue, skip_cons (by decide)]
    simp only [List.singleton_append, hread, Option.map_some]
  | .array [], _, _ =>
    rw [write, List.cons_append, readValue, skip_cons (by decide)]
    simp only [List.cons_append, List.nil_append]
    rw [skip_cons (by decide)]
    rfl
  | .object [], _, _ =>
    rw [write, List.cons_append, readValue, skip_cons (by decide)]
    simp only [List.cons_append, List.nil_append]
    rw [skip_cons (by decide)]
    rfl

structure Inverts (esc : List Char → List Char) (fuel : ℕ) : Prop where
  value : ∀ x rest, Proper esc x → (write esc x).length ≤ fuel →
    (∀ c ∈ rest.head?, isNumberChar c = false) → readValue fuel (write esc x ++ rest) = some (x, rest)
  items : ∀ xs rest, ProperItems esc xs → (writeItems esc xs).length ≤ fuel →
    readItems fuel (writeItems esc xs ++ rest) = some (xs, rest)
  members : ∀ ms rest, ProperMembers esc ms → (writeMembers esc ms).length ≤ fuel →
    readMembers fuel (writeMembers esc ms ++ rest) = some (ms, rest)

namespace Inverts

variable {fuel : ℕ}

theorem of_value (h : Inverts esc fuel) (rest : List Char) {x : Json} {xs : List Json} (hx : Proper esc x)
    (hxs : ProperItems esc xs) (hx' : (write esc x).length ≤ fuel) (hxs' : (writeItems esc xs).length ≤ fuel) :
    (readValue fuel (write esc x ++ (writeItems esc xs ++ rest))).bind
      (fun v => (readItems fuel v.2).map fun y => (v.1 :: y.1, y.2)) = some (x :: xs, rest) := by
  rw [h.value x _ hx hx' (items_head xs rest), Option.bind_some, h.items xs rest hxs hxs', Option.map_some]

theorem member (h : ∀ f < fuel, Inverts esc f) {k : List Char} {x : Json} {ms : List (List Char × Json)}
    {rest : List Char} (hk : Denotes (esc k) k) (hx : Proper esc x)
    (hfuel : (write esc x).length + 3 ≤ fuel) :
    readMember fuel ('"' :: (esc k ++ '"' :: ':' :: (write esc x ++ (writeMembers esc ms ++ rest)))) =
      some ((k, x), writeMembers esc ms ++ rest) := by
  obtain ⟨f, rfl⟩ : ∃ f, fuel = f + 1 := ⟨fuel - 1, by omega⟩
  rw [readMember_key hk, (h f (by omega)).value x _ hx (by omega) (members_head ms rest), Option.map_some]

theorem value_succ (h : ∀ f < fuel + 1, Inverts esc f) (x : Json) (rest : List Char) (hx : Proper esc x)
    (hlen : (write esc x).length ≤ fuel + 1) (hrest : ∀ c ∈ rest.head?, isNumberChar c = false) :
    readValue (fuel + 1) (write esc x ++ rest) = some (x, rest) := by
  match x, hx with
  | .null, hx | .bool _, hx | .number _, hx | .string _, hx | .array [], hx | .object [], hx =>
    exact readValue_atom hx trivial hrest fuel
  | .array (x :: xs), hx =>
    obtain ⟨hx, hxs⟩ := hx
    obtain ⟨c, cs, hwrite, hspace, hclose⟩ := begins_write (fun _ => begins_number) hx
    simp only [write, List.length_cons, List.length_append] at hlen
    have hread := (h fuel (by omega)).of_value rest hx hxs (by omega) (by omega)
    rw [hwrite, List.cons_append] at hread
    rw [write, List.cons_append, List.append_assoc, hwrite, List.cons_append, readValue_array hspace hclose]
    exact congrArg (Option.map fun y => (Json.array y.1, y.2)) hread
  | .object ((k, x) :: ms), hx =>
    obtain ⟨hk, hx, hms⟩ := hx
    simp only [write, List.length_cons, List.length_append] at hlen
    simp only [write, List.cons_append, List.append_assoc]
    rw [readValue_object]
    simp only [member (fun f hf => h f (by omega)) hk hx (show (write esc x).length + 3 ≤ fuel by omega),
      Option.bind_some, (h fuel (by omega)).members ms rest hms (by omega), Option.map_some]

theorem items_succ (h : ∀ f < fuel + 1, Inverts esc f) (xs : List Json) (rest : List Char)
    (hxs : ProperItems esc xs) (hlen : (writeItems esc xs).length ≤ fuel + 1) :
    readItems (fuel + 1) (writeItems esc xs ++ rest) = some (xs, rest) := by
  cases xs with
  | nil =>
    rw [writeItems, List.cons_append, readItems, skip_cons (by decide)]
    rfl
  | cons x xs =>
    rw [writeItems, List.length_cons, List.length_append] at hlen
    rw [writeItems, List.cons_append, List.append_assoc, readItems, skip_cons (by decide)]
    exact (h fuel (by omega)).of_value rest hxs.1 hxs.2 (by omega) (by omega)

theorem members_succ (h : ∀ f < fuel + 1, Inverts esc f) (ms : List (List Char × Json)) (rest : List Char)
    (hms : ProperMembers esc ms) (hlen : (writeMembers esc ms).length ≤ fuel + 1) :
    readMembers (fuel + 1) (writeMembers esc ms ++ rest) = some (ms, rest) := by
  match ms, hms with
  | [], _ =>
    rw [writeMembers, List.cons_append, readMembers, skip_cons (by decide)]
    rfl
  | (k, x) :: ms, hms =>
    obtain ⟨hk, hx, hms⟩ := hms
    simp only [writeMembers, List.length_cons, List.length_append] at hlen
    simp only [writeMembers, List.cons_append, List.append_assoc]
    rw [readMembers, skip_cons (by decide)]
    simp only [member (fun f hf => h f (by omega)) hk hx (show (write esc x).length + 3 ≤ fuel by omega),
      Option.bind_some, (h fuel (by omega)).members ms rest hms (by omega), Option.map_some]

end Inverts

theorem inverts (esc : List Char → List Char) (fuel : ℕ) : Inverts esc fuel := by
  -- strong, because a member of an object reads its value with two steps of fuel less
  induction fuel using Nat.strong_induction_on with
  | _ fuel ih =>
    cases fuel with
    | zero =>
      constructor
      · intro x rest hx hlen
        obtain ⟨c, cs, hwrite, -⟩ := begins_write (fun _ => begins_number) hx
        rw [hwrite] at hlen
        cases hlen
      · intro xs rest _ hlen
        cases xs <;> simp [writeItems] at hlen
      · intro ms rest _ hlen
        match ms with
        | [] | (_, _) :: _ => simp [writeMembers] at hlen
    | succ fuel => exact ⟨Inverts.value_succ ih, Inverts.items_succ ih, Inverts.members_succ ih⟩

theorem readDocument_write {x : Json} (hx : Proper esc x) {rest : List Char}
    (hrest : ∀ c ∈ rest, c = ' ' ∨ c = '\t' ∨ c = '\n' ∨ c = '\r') :
    readDocument (write esc x ++ rest) = some x := by
  have hhead : ∀ c ∈ rest.head?, isNumberChar c = false := by
    intro c hc
    rcases hrest c (List.mem_of_mem_head? hc) with rfl | rfl | rfl | rfl <;> rfl
  have hskip : skip rest = [] := by
    rw [skip, List.dropWhile_eq_nil_iff]
    simpa using hrest
  rw [readDocument, (inverts esc _).value x rest hx (by rw [List.length_append]; omega) hhead]
  exact if_pos hskip

end

theorem isNumber_digits {c : Char} {cs : List Char} (hdigits : ∀ d ∈ c :: cs, isDigit 10 d = true)
    (hzero : c = '0' → cs = []) : isNumber (c :: cs) = true := by
  have hall : (c :: cs).all isNumberChar = true := by
    rw [List.all_eq_true]
    intro d hd
    simp [isNumberChar, hdigits d hd]
  have hint : afterInt (c :: cs) = some [] := by
    by_cases hc : c = '0'
    · subst hc
      rw [hzero rfl]
      rfl
    · have hminus : c ≠ '-' := by
        rintro rfl
        exact absurd (hdigits '-' List.mem_cons_self) (by decide)
      have hdrop : cs.dropWhile (isDigit 10) = [] := by
        rw [List.dropWhile_eq_nil_iff]
        exact fun d hd => hdigits d (List.mem_cons_of_mem c hd)
      have hrest : afterInt (c :: cs) = afterDigits (c :: cs) := by
        rw [afterInt]
        · exact fun _ h => absurd (List.cons.inj h).1 hminus
        · exact fun _ h => absurd (List.cons.inj h).1 hc
        · exact fun _ h => absurd (List.cons.inj h).1 hminus
      rw [hrest, afterDigits, if_pos (hdigits c List.mem_cons_self), hdrop]
  rw [isNumber, hall, hint]
  rfl

theorem toDigits_head (n : ℕ) : ∃ c cs, Nat.toDigits 10 n = c :: cs ∧ (c = '0' → cs = []) := by
  induction n using Nat.strong_induction_on with
  | h n ih =>
    rw [Nat.toDigits_eq_if (by decide)]
    split_ifs with hlt
    · exact ⟨_, [], rfl, fun _ => rfl⟩
    · obtain ⟨c, cs, hdigits, hzero⟩ := ih (n / 10) (by omega)
      refine ⟨c, cs ++ [Nat.digitChar (n % 10)], by rw [hdigits]; rfl, ?_⟩
      rintro rfl
      -- then the quotient is zero
      obtain ⟨hvalue, -⟩ := toDigits_spec (show 1 < 10 by decide) (by decide) (n / 10)
      rw [hdigits, hzero rfl] at hvalue
      have hten : n / 10 = 0 := hvalue.symm
      omega

theorem isNumber_toDigits (n : ℕ) : isNumber (Nat.toDigits 10 n) = true := by
  obtain ⟨c, cs, hdigits, hzero⟩ := toDigits_head n
  have hall := (toDigits_spec (show 1 < 10 by decide) (by decide) n).2
  rw [hdigits] at hall ⊢
  exact isNumber_digits hall hzero

def Printable (cs : List Char) : Prop := cs.all (fun c => 0x20 ≤ c.toNat) = true

instance (cs : List Char) : Decidable (Printable cs) := inferInstanceAs (Decidable (_ = true))

theorem printable_cons {c : Char} {cs : List Char} : Printable (c :: cs) ↔ 0x20 ≤ c.toNat ∧ Printable cs := by
  simp [Printable]

theorem printable_append {cs ds : List Char} : Printable (cs ++ ds) ↔ Printable cs ∧ Printable ds := by
  simp [Printable]

theorem le_of_isDigit {base : ℕ} (hbase : base ≤ 36) {c : Char} (h : isDigit base c = true) :
    0x20 ≤ c.toNat := by
  have hdigit := of_decide_eq_true h
  unfold digitOf at hdigit
  split_ifs at hdigit <;> omega

theorem printable_quad {u : List Char} {v : ℕ} (h : HexQuad u v) : Printable u := by
  rw [Printable, List.all_eq_true]
  intro c hc
  exact decide_eq_true (le_of_isDigit (by decide) (h.digits c hc))

theorem printable_denotes {t m : List Char} (h : Denotes t m) : Printable t := by
  induction h with
  | nil => rfl
  | unescaped hc _ _ _ ih => exact printable_cons.mpr ⟨hc, ih⟩
  | @escaped x c t m hx _ ih =>
    have hall : ∀ y ∈ escapes, 0x20 ≤ y.1.toNat := by decide
    exact printable_cons.mpr ⟨by decide, printable_cons.mpr ⟨hall _ hx, ih⟩⟩
  | unicode hu _ ih =>
    exact printable_cons.mpr ⟨by decide, printable_cons.mpr ⟨by decide, printable_append.mpr ⟨printable_quad hu, ih⟩⟩⟩
  | pair hu hw _ _ _ _ ih =>
    refine printable_cons.mpr ⟨by decide, printable_cons.mpr ⟨by decide, printable_append.mpr ⟨printable_quad hu, ?_⟩⟩⟩
    exact printable_cons.mpr ⟨by decide, printable_cons.mpr ⟨by decide, printable_append.mpr ⟨printable_quad hw, ih⟩⟩⟩

section

variable {esc : List Char → List Char}

mutual

theorem printable_write : ∀ {x : Json}, Formed Printable esc x → Printable (write esc x)
  | .null, _ | .bool true, _ | .bool false, _ | .array [], _ | .object [], _ => rfl
  | .number _, hx => hx
  | .string _, hx => printable_cons.mpr ⟨by decide, printable_append.mpr ⟨printable_denotes hx, rfl⟩⟩
  | .array (_ :: _), ⟨hx, hxs⟩ =>
    printable_cons.mpr ⟨by decide, printable_append.mpr ⟨printable_write hx, printable_items hxs⟩⟩
  | .object ((_, _) :: _), ⟨hk, hx, hms⟩ => by
    simp only [write, printable_cons, printable_append]
    exact ⟨by decide, by decide, printable_denotes hk, by decide, by decide, printable_write hx, printable_members hms⟩

theorem printable_items : ∀ {xs : List Json}, FormedItems Printable esc xs → Printable (writeItems esc xs)
  | [], _ => rfl
  | _ :: _, ⟨hx, hxs⟩ =>
    printable_cons.mpr ⟨by decide, printable_append.mpr ⟨printable_write hx, printable_items hxs⟩⟩

theorem printable_members : ∀ {ms : List (List Char × Json)}, FormedMembers Printable esc ms →
    Printable (writeMembers esc ms)
  | [], _ => rfl
  | (_, _) :: _, ⟨hk, hx, hms⟩ => by
    simp only [writeMembers, printable_cons, printable_append]
    exact ⟨by decide, by decide, printable_denotes hk, by decide, by decide, printable_write hx, printable_members hms⟩

end

end

namespace Json

def get (key : String) : Json → Option Json
  | .object ms => ms.lookup key.toList
  | _ => none

def item (i : ℕ) : Json → Option Json
  | .array xs => xs[i]?
  | _ => none

def natural : Json → Option ℕ
  | .number text => if text.all (isDigit 10) then some (value 10 text) else none
  | _ => none

theorem natural_toDigits (n : ℕ) : natural (.number (Nat.toDigits 10 n)) = some n := by
  obtain ⟨hvalue, hall⟩ := toDigits_spec (show 1 < 10 by decide) (by decide) n
  rw [natural, if_pos (List.all_eq_true.mpr hall), hvalue]

end Json

end CacheSim.JsonText
