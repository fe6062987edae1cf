import Mathlib

namespace CacheSim.Numerals

section

variable {α : Type} {p : α → Bool} {l rest : List α}

theorem takeWhile_run (hl : ∀ c ∈ l, p c = true) (hrest : ∀ c ∈ rest.head?, p c = false) :
    (l ++ rest).takeWhile p = l := by
  rw [List.takeWhile_append_of_pos hl]
  cases rest with
  | nil => simp
  | cons c rest => simp [hrest c rfl]

theorem dropWhile_run (hl : ∀ c ∈ l, p c = true) (hrest : ∀ c ∈ rest.head?, p c = false) :
    (l ++ rest).dropWhile p = rest := by
  rw [List.dropWhile_append_of_pos hl]
  cases rest with
  | nil => rfl
  | cons c rest => simp [hrest c rfl]

theorem head_dropWhile (p : α → Bool) (l : List α) : ∀ c ∈ (l.dropWhile p).head?, p c = false := by
  intro c hc
  have hne : l.dropWhile p ≠ [] := by
    intro hnil
    rw [hnil] at hc
    simp at hc
  have hhead := List.head_dropWhile_not p hne
  rw [List.head?_eq_some_head hne] at hc
  rwa [Option.some.inj hc] at hhead

end

def digitOf (c : Char) : ℕ :=
  if 48 ≤ c.toNat ∧ c.toNat ≤ 57 then c.toNat - 48
  else if 97 ≤ c.toNat ∧ c.toNat ≤ 122 then c.toNat - 87
  else if 65 ≤ c.toNat ∧ c.toNat ≤ 90 then c.toNat - 55
  else 36

def isDigit (base : ℕ) (c : Char) : Bool := digitOf c < base

def value (base : ℕ) (ds : List Char) : ℕ := ds.foldl (fun n c => n * base + digitOf c) 0

def isSpace (c : Char) : Bool := c.toNat = 32 || (9 ≤ c.toNat && c.toNat ≤ 13)

inductive NumberError where
  | invalidArgument | outOfRange
  deriving DecidableEq, Repr

def takeSign : List Char → Bool × List Char
  | '-' :: s => (true, s)
  | '+' :: s => (false, s)
  | s => (false, s)

def dropPrefix (base : ℕ) : List Char → List Char
  | '0' :: x :: d :: s =>
    if base = 16 ∧ (x = 'x' ∨ x = 'X') ∧ isDigit base d = true then d :: s else '0' :: x :: d :: s
  | s => s

def stoul (bits base : ℕ) (s : List Char) : Except NumberError ℕ :=
  let (negative, s) := takeSign (s.dropWhile isSpace)
  let digits := (dropPrefix base s).takeWhile (isDigit base)
  if digits = [] then .error .invalidArgument
  else if 2 ^ bits ≤ value base digits then .error .outOfRange
  else .ok (if negative then (2 ^ bits - value base digits) % 2 ^ bits else value base digits)

structure Reads (base : ℕ) (s sp sg px ds junk : List Char) : Prop where
  text : s = sp ++ (sg ++ (px ++ (ds ++ junk)))
  spaces : ∀ c ∈ sp, isSpace c = true
  sign : sg = [] ∨ sg = ['+'] ∨ sg = ['-']
  hexPrefix : px = [] ∨ (base = 16 ∧ (px = ['0', 'x'] ∨ px = ['0', 'X']))
  nonempty : ds ≠ []
  digits : ∀ c ∈ ds, isDigit base c = true
  stop : ∀ c ∈ junk.head?, isDigit base c = false
  longest : px = [] → ds = ['0'] → base = 16 → ∀ x d t, junk = x :: d :: t → x = 'x' ∨ x = 'X' →
    isDigit base d = false

structure Bare (base limit : ℕ) (s : List Char) : Prop where
  nonempty : s ≠ []
  digits : ∀ c ∈ s, isDigit base c = true
  inRange : value base s < limit

/-- A numeral with white space, a sign or a prefix before it or text after it. -/
def Loose (base limit : ℕ) (s : List Char) : Prop :=
  ∃ sp sg px ds junk, Reads base s sp sg px ds junk ∧ value base ds < limit ∧
    sp ++ (sg ++ (px ++ junk)) ≠ []

theorem not_isDigit_of_isSpace {base : ℕ} (hb : base ≤ 16) {c : Char} (hc : isSpace c = true) :
    isDigit base c = false := by
  simp only [isSpace, Bool.or_eq_true, decide_eq_true_iff, Bool.and_eq_true] at hc
  rw [isDigit, decide_eq_false_iff_not, digitOf]
  split_ifs <;> omega

theorem not_isSpace_of_isDigit {base : ℕ} (hb : base ≤ 16) {c : Char} (hc : isDigit base c = true) :
    isSpace c = false := by
  apply Bool.eq_false_iff.mpr
  intro hs
  rw [not_isDigit_of_isSpace hb hs] at hc
  cases hc

theorem not_isDigit_sign {base : ℕ} (hb : base ≤ 16) {c : Char} (hc : c = '+' ∨ c = '-') :
    isDigit base c = false := by
  simp only [isDigit, decide_eq_false_iff_not, not_lt]
  rcases hc with rfl | rfl <;> exact hb.trans (by decide)

theorem takeSign_of_digit {base : ℕ} (hb : base ≤ 16) {s : List Char}
    (hs : ∀ c ∈ s.head?, isDigit base c = true) : takeSign s = (false, s) := by
  unfold takeSign
  split
  · have := hs '-' rfl
    rw [not_isDigit_sign hb (.inr rfl)] at this
    cases this
  · have := hs '+' rfl
    rw [not_isDigit_sign hb (.inl rfl)] at this
    cases this
  · rfl

theorem takeSign_append {base : ℕ} (hb : base ≤ 16) {sg s : List Char}
    (hsg : sg = [] ∨ sg = ['+'] ∨ sg = ['-']) (hs : ∀ c ∈ s.head?, isDigit base c = true) :
    takeSign (sg ++ s) = (decide (sg = ['-']), s) := by
  rcases hsg with rfl | rfl | rfl
  · exact takeSign_of_digit hb hs
  · rfl
  · rfl

theorem takeSign_split (s : List Char) : ∃ sg, s = sg ++ (takeSign s).2 ∧
    (sg = [] ∨ sg = ['+'] ∨ sg = ['-']) := by
  unfold takeSign
  split
  · exact ⟨['-'], rfl, .inr (.inr rfl)⟩
  · exact ⟨['+'], rfl, .inr (.inl rfl)⟩
  · exact ⟨[], rfl, .inl rfl⟩

theorem dropPrefix_split (base : ℕ) (s : List Char) : ∃ px, s = px ++ dropPrefix base s ∧
    (px = [] ∨ (base = 16 ∧ (px = ['0', 'x'] ∨ px = ['0', 'X']))) ∧
    (px = [] → base = 16 → ∀ x d t, s = '0' :: x :: d :: t → x = 'x' ∨ x = 'X' →
      isDigit base d = false) := by
  unfold dropPrefix
  split
  · next x d t =>
    split_ifs with h
    · obtain ⟨hbase, rfl | rfl, -⟩ := h
      · exact ⟨['0', 'x'], rfl, .inr ⟨hbase, .inl rfl⟩, fun h0 => by cases h0⟩
      · exact ⟨['0', 'X'], rfl, .inr ⟨hbase, .inr rfl⟩, fun h0 => by cases h0⟩
    · refine ⟨[], rfl, .inl rfl, ?_⟩
      intro _ hbase x' d' t' heq hx'
      simp only [List.cons.injEq, true_and] at heq
      obtain ⟨rfl, rfl, -⟩ := heq
      apply Bool.eq_false_iff.mpr
      exact fun hd => h ⟨hbase, hx', hd⟩
  · next hno =>
    refine ⟨[], rfl, .inl rfl, ?_⟩
    rintro - - x d t rfl -
    exact absurd rfl (hno x d t)

theorem dropPrefix_append {base : ℕ} {px ds junk : List Char}
    (hpx : px = [] ∨ (base = 16 ∧ (px = ['0', 'x'] ∨ px = ['0', 'X']))) (hne : ds ≠ [])
    (hds : ∀ c ∈ ds, isDigit base c = true)
    (hlongest : px = [] → base = 16 → ∀ x d t, ds ++ junk = '0' :: x :: d :: t → x = 'x' ∨ x = 'X' →
      isDigit base d = false) : dropPrefix base (px ++ (ds ++ junk)) = ds ++ junk := by
  obtain ⟨d, ds, rfl⟩ := List.exists_cons_of_ne_nil hne
  have hd := hds d List.mem_cons_self
  rcases hpx with rfl | ⟨hbase, rfl | rfl⟩
  · rw [List.nil_append]
    unfold dropPrefix
    split
    · next x d' t heq =>
      rw [heq]
      apply if_neg
      rintro ⟨hbase, hx, hd'⟩
      rw [hlongest rfl hbase x d' t heq hx] at hd'
      cases hd'
    · rfl
  · exact if_pos ⟨hbase, .inl rfl, hd⟩
  · exact if_pos ⟨hbase, .inr rfl, hd⟩

namespace Reads

variable {base bits : ℕ} {s sp sg px ds junk : List Char}

theorem not_digit_x {x : Char} (hx : x = 'x' ∨ x = 'X') : isDigit 16 x = false := by
  rcases hx with rfl | rfl <;> rfl

theorem head_digit (h : Reads base s sp sg px ds junk) :
    ∀ c ∈ (px ++ (ds ++ junk)).head?, isDigit base c = true := by
  obtain ⟨d, ds, rfl⟩ := List.exists_cons_of_ne_nil h.nonempty
  intro c hc
  rcases h.hexPrefix with rfl | ⟨rfl, rfl | rfl⟩
  · obtain rfl := Option.some.inj hc
    exact h.digits d List.mem_cons_self
  · obtain rfl := Option.some.inj hc
    rfl
  · obtain rfl := Option.some.inj hc
    rfl

theorem stoul_eq (h : Reads base s sp sg px ds junk) (hb : base ≤ 16) :
    stoul bits base s = if 2 ^ bits ≤ value base ds then .error .outOfRange
      else .ok (if sg = ['-'] then (2 ^ bits - value base ds) % 2 ^ bits else value base ds) := by
  have hspaces : s.dropWhile isSpace = sg ++ (px ++ (ds ++ junk)) := by
    rw [h.text]
    apply dropWhile_run h.spaces
    intro c hc
    rcases h.sign with rfl | rfl | rfl
    · exact not_isSpace_of_isDigit hb (h.head_digit c hc)
    · obtain rfl := Option.some.inj hc
      rfl
    · obtain rfl := Option.some.inj hc
      rfl
  have hprefix : dropPrefix base (px ++ (ds ++ junk)) = ds ++ junk := by
    apply dropPrefix_append h.hexPrefix h.nonempty h.digits
    rintro hpx rfl x d t heq hx
    -- the numeral is the zero alone, since an x is no digit
    obtain ⟨d₀, ds', rfl⟩ := List.exists_cons_of_ne_nil h.nonempty
    obtain ⟨rfl, htail⟩ := List.cons.inj heq
    cases ds' with
    | nil => exact h.longest hpx rfl rfl x d t htail hx
    | cons d₁ ds' =>
      obtain ⟨rfl, -⟩ := List.cons.inj htail
      have hd₁ := h.digits d₁ (by simp)
      rw [not_digit_x hx] at hd₁
      cases hd₁
  simp only [stoul, hspaces, takeSign_append hb h.sign h.head_digit, hprefix,
    takeWhile_run h.digits h.stop, if_neg h.nonempty, decide_eq_true_iff]

theorem of_stoul {v : ℕ} (h : stoul bits base s = .ok v) :
    ∃ sp sg px ds junk, Reads base s sp sg px ds junk ∧ value base ds < 2 ^ bits := by
  obtain ⟨sg, hsg, hsign⟩ := takeSign_split (s.dropWhile isSpace)
  obtain ⟨px, hpx, hprefix, hlongest⟩ := dropPrefix_split base (takeSign (s.dropWhile isSpace)).2
  unfold stoul at h
  dsimp only at h
  have hnil : (dropPrefix base (takeSign (s.dropWhile isSpace)).2).takeWhile (isDigit base) ≠ [] := by
    intro hnil
    rw [if_pos hnil] at h
    cases h
  have hrange : ¬2 ^ bits ≤ value base
      ((dropPrefix base (takeSign (s.dropWhile isSpace)).2).takeWhile (isDigit base)) := by
    intro hrange
    rw [if_neg hnil, if_pos hrange] at h
    cases h
  refine ⟨s.takeWhile isSpace, sg, px, _, (dropPrefix base (takeSign (s.dropWhile isSpace)).2).dropWhile
    (isDigit base), ⟨?_, ?_, hsign, hprefix, hnil, ?_, head_dropWhile _ _, ?_⟩, not_le.mp hrange⟩
  · rw [List.takeWhile_append_dropWhile, ← hpx, ← hsg, List.takeWhile_append_dropWhile]
  · exact fun c hc => List.mem_takeWhile_imp hc
  · exact fun c hc => List.mem_takeWhile_imp hc
  · intro hpx₀ hzero hbase x d t hjunk hx
    apply hlongest hpx₀ hbase x d t _ hx
    rw [hpx, hpx₀, List.nil_append, ← List.takeWhile_append_dropWhile (p := isDigit base)
      (l := dropPrefix base (takeSign (s.dropWhile isSpace)).2), hzero, hjunk]
    rfl

end Reads

namespace Bare

variable {base bits limit : ℕ} {s : List Char}

theorem mono {limit' : ℕ} (h : Bare base limit s) (hle : limit ≤ limit') : Bare base limit' s :=
  ⟨h.nonempty, h.digits, h.inRange.trans_le hle⟩

theorem reads (h : Bare base limit s) : Reads base s [] [] [] s [] where
  text := by simp
  spaces := by simp
  sign := .inl rfl
  hexPrefix := .inl rfl
  nonempty := h.nonempty
  digits := h.digits
  stop := by simp
  longest := by simp

theorem stoul_eq (h : Bare base limit s) (hb : base ≤ 16) (hlimit : limit ≤ 2 ^ bits) :
    stoul bits base s = .ok (value base s) := by
  rw [h.reads.stoul_eq hb, if_neg (not_le.mpr (h.inRange.trans_le hlimit)), if_neg (by simp)]

end Bare

theorem stoul_ok_iff {base bits : ℕ} (hb : base ≤ 16) (s : List Char) :
    (∃ v, stoul bits base s = .ok v) ↔ Bare base (2 ^ bits) s ∨ Loose base (2 ^ bits) s := by
  constructor
  · rintro ⟨v, hv⟩
    obtain ⟨sp, sg, px, ds, junk, hreads, hrange⟩ := Reads.of_stoul hv
    by_cases hbare : sp ++ (sg ++ (px ++ junk)) = []
    · simp only [List.append_eq_nil_iff] at hbare
      obtain ⟨rfl, rfl, rfl, rfl⟩ := hbare
      have htext : s = ds := by simpa using hreads.text
      subst htext
      exact .inl ⟨hreads.nonempty, hreads.digits, hrange⟩
    · exact .inr ⟨sp, sg, px, ds, junk, hreads, hrange, hbare⟩
  · rintro (hbare | ⟨sp, sg, px, ds, junk, hreads, hrange, -⟩)
    · exact ⟨_, hbare.stoul_eq hb le_rfl⟩
    · exact ⟨_, (hreads.stoul_eq hb).trans (if_neg (not_le.mpr hrange))⟩

theorem Loose.not_digits {base limit : ℕ} (hb : base ≤ 16) {s : List Char} (h : Loose base limit s) :
    ¬∀ c ∈ s, isDigit base c = true := by
  obtain ⟨sp, sg, px, ds, junk, hreads, -, hloose⟩ := h
  intro hall
  rw [hreads.text] at hall
  apply hloose
  have hsp : sp = [] := by
    apply List.eq_nil_iff_forall_not_mem.mpr
    intro c hc
    have hd := hall c (by simp [hc])
    rw [not_isDigit_of_isSpace hb (hreads.spaces c hc)] at hd
    cases hd
  have hsg : sg = [] := by
    rcases hreads.sign with h | rfl | rfl
    · exact h
    · have hd := hall '+' (by simp)
      rw [not_isDigit_sign hb (.inl rfl)] at hd
      cases hd
    · have hd := hall '-' (by simp)
      rw [not_isDigit_sign hb (.inr rfl)] at hd
      cases hd
  have hpx : px = [] := by
    rcases hreads.hexPrefix with h | ⟨rfl, rfl | rfl⟩
    · exact h
    · exact absurd (hall 'x' (by simp)) (by decide)
    · exact absurd (hall 'X' (by simp)) (by decide)
  have hjunk : junk = [] := by
    cases junk with
    | nil => rfl
    | cons c junk =>
      have hd := hall c (by simp)
      rw [hreads.stop c rfl] at hd
      cases hd
  rw [hsp, hsg, hpx, hjunk]
  rfl

theorem digitOf_digitChar {d : ℕ} (hd : d < 16) : digitOf (Nat.digitChar d) = d := by
  interval_cases d <;> rfl

theorem value_append_digit (base : ℕ) (ds : List Char) (c : Char) :
    value base (ds ++ [c]) = value base ds * base + digitOf c := by
  simp [value]

theorem toDigits_spec {base : ℕ} (h1 : 1 < base) (hb : base ≤ 16) (n : ℕ) :
    value base (Nat.toDigits base n) = n ∧ ∀ c ∈ Nat.toDigits base n, isDigit base c = true := by
  induction n using Nat.strong_induction_on with
  | h n ih =>
    rw [Nat.toDigits_eq_if h1]
    split_ifs with hlt
    · have hdigit : digitOf (Nat.digitChar n) = n := digitOf_digitChar (by omega)
      simp [value, isDigit, hdigit, hlt]
    · have hmod : n % base < base := Nat.mod_lt n (by omega)
      have hdigit : digitOf (Nat.digitChar (n % base)) = n % base := digitOf_digitChar (by omega)
      obtain ⟨hvalue, hdigits⟩ := ih (n / base) (Nat.div_lt_self (by omega) h1)
      constructor
      · rw [value_append_digit, hvalue, hdigit, Nat.div_add_mod']
      · intro c hc
        rcases List.mem_append.mp hc with hc | hc
        · exact hdigits c hc
        · obtain rfl := List.mem_singleton.mp hc
          rwa [isDigit, hdigit, decide_eq_true_iff]

theorem toDigits_bare {base n limit : ℕ} (h1 : 1 < base) (hb : base ≤ 16) (hn : n < limit) :
    Bare base limit (Nat.toDigits base n) where
  nonempty := Nat.toDigits_ne_nil
  digits := (toDigits_spec h1 hb n).2
  inRange := by rwa [(toDigits_spec h1 hb n).1]

end CacheSim.Numerals
