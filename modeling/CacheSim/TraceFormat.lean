import CacheSim.TraceReader

namespace CacheSim.TraceReader

open Numerals

def letters : List (Char × Op) :=
  [('L', .Read), ('S', .Write), ('M', .Modify), ('I', .Instr), ('R', .Read), ('W', .Write)]

inductive SizeField : Option (List Char) → UInt32 → Prop
  | absent : SizeField none 1
  | present {es : List Char} {n : UInt32} (h : Bare 10 (2 ^ 32) es) (hn : n.toNat = value 10 es) :
      SizeField (some es) n

/-- Up to a trailing CR: blanks, an op letter, blanks, a hexadecimal address, blanks, and maybe a
comma and a decimal size. -/
def Documented (line : List Char) (a : Access) : Prop :=
  ∃ ws c ws₁ ds ws₂ sz, stripCR line = ws ++ c :: (ws₁ ++ (ds ++ (ws₂ ++ sz.elim [] (',' :: ·)))) ∧
    (∀ b ∈ ws ++ (ws₁ ++ ws₂), isBlank b = true) ∧ (c, a.op) ∈ letters ∧
    Bare 16 (2 ^ 64) ds ∧ a.addr.toNat = value 16 ds ∧ SizeField sz a.size

def Produces (ulongBits : ℕ) (line : List Char) (a : Access) : Prop :=
  ∀ s rest out, getline s = some (line, rest) → next ulongBits ⟨s⟩ out = (true, a, ⟨rest⟩)

def Skips (ulongBits : ℕ) (line : List Char) : Prop :=
  ∀ s rest out, getline s = some (line, rest) →
    ∃ out', next ulongBits ⟨s⟩ out = next ulongBits ⟨rest⟩ out'

def sizeText (rest : List Char) : Option (List Char) :=
  match rest.dropWhile fun c => c ≠ ',' with
  | [] => none
  | _ :: s => some s

def fields (line : List Char) : Option (Op × List Char × Option (List Char)) :=
  (opAndRest (stripCR line)).map fun x =>
    (x.1, trim (x.2.takeWhile fun c => c ≠ ','), sizeText x.2)

theorem opOf_eq_some (c : Char) (op : Op) : opOf c = some op ↔ (c, op) ∈ letters := by
  unfold opOf letters
  split <;> simp_all [eq_comm]

theorem not_isBlank_of_letter {c : Char} {op : Op} (h : (c, op) ∈ letters) : isBlank c = false := by
  simp only [letters, List.mem_cons, Prod.mk.injEq, List.not_mem_nil, or_false] at h
  rcases h with h | h | h | h | h | h <;> rw [h.1] <;> rfl

theorem opAndRest_eq (line : List Char) :
    opAndRest line = match line.dropWhile isBlank with
      | [] => none
      | c :: rest => (opOf c).map fun op => (op, rest) := by
  unfold opAndRest
  split
  · rfl
  · rfl

theorem opAndRest_iff {line rest : List Char} {op : Op} :
    opAndRest line = some (op, rest) ↔
      ∃ ws c, line = ws ++ c :: rest ∧ (∀ b ∈ ws, isBlank b = true) ∧ (c, op) ∈ letters := by
  rw [opAndRest_eq]
  constructor
  · intro h
    split at h
    · cases h
    · next c rest' hdrop =>
      obtain ⟨op', hop, heq⟩ := Option.map_eq_some_iff.mp h
      obtain ⟨rfl, rfl⟩ := Prod.mk.inj heq
      refine ⟨line.takeWhile isBlank, c, ?_, fun b hb => List.mem_takeWhile_imp hb,
        (opOf_eq_some c op').mp hop⟩
      rw [← hdrop, List.takeWhile_append_dropWhile]
  · rintro ⟨ws, c, rfl, hws, hc⟩
    have hstop : ∀ b ∈ (c :: rest).head?, isBlank b = false := by
      intro b hb
      obtain rfl := Option.some.inj hb
      exact not_isBlank_of_letter hc
    rw [dropWhile_run hws hstop]
    dsimp only
    rw [(opOf_eq_some c op).mpr hc]
    rfl

theorem trim_run {ws ds ws' : List Char} (hws : ∀ b ∈ ws ++ ws', isBlank b = true) (hne : ds ≠ [])
    (hds : ∀ c ∈ ds, isBlank c = false) : trim (ws ++ (ds ++ ws')) = ds := by
  have hfirst : ∀ c ∈ (ds ++ ws').head?, isBlank c = false := by
    obtain ⟨d, ds, rfl⟩ := List.exists_cons_of_ne_nil hne
    intro c hc
    obtain rfl := Option.some.inj hc
    exact hds d List.mem_cons_self
  have hlast : ∀ c ∈ ds.reverse.head?, isBlank c = false := by
    intro c hc
    exact hds c (List.mem_reverse.mp (List.mem_of_mem_head? hc))
  have hblank : ∀ b ∈ ws'.reverse, isBlank b = true :=
    fun b hb => hws b (List.mem_append_right _ (List.mem_reverse.mp hb))
  rw [trim, dropWhile_run (fun b hb => hws b (List.mem_append_left _ hb)) hfirst, List.rdropWhile,
    List.reverse_append, dropWhile_run hblank hlast, List.reverse_reverse]

theorem trim_split (s : List Char) : ∃ ws ws', s = ws ++ (trim s ++ ws') ∧
    ∀ b ∈ ws ++ ws', isBlank b = true := by
  refine ⟨s.takeWhile isBlank, (s.dropWhile isBlank).rtakeWhile isBlank, ?_, ?_⟩
  · rw [trim, List.rdropWhile_append_rtakeWhile, List.takeWhile_append_dropWhile]
  · intro b hb
    rcases List.mem_append.mp hb with hb | hb
    · exact List.mem_takeWhile_imp hb
    · exact List.mem_rtakeWhile_imp hb

theorem sizeText_split (rest : List Char) :
    rest = (rest.takeWhile fun c => c ≠ ',') ++ (sizeText rest).elim [] (',' :: ·) := by
  conv_lhs => rw [← List.takeWhile_append_dropWhile (p := fun c => decide (c ≠ ',')) (l := rest)]
  congr 1
  unfold sizeText
  split
  · next hnil => exact hnil
  · next c s hcons =>
    have hhead := head_dropWhile (fun c => decide (c ≠ ',')) rest c (by rw [hcons]; rfl)
    obtain rfl : c = ',' := by simpa using hhead
    exact hcons

theorem sizeText_run {s : List Char} (hs : ',' ∉ s) (sz : Option (List Char)) :
    (s ++ sz.elim [] (',' :: ·)).takeWhile (fun c => c ≠ ',') = s ∧
      sizeText (s ++ sz.elim [] (',' :: ·)) = sz := by
  have hrun : ∀ c ∈ s, decide (c ≠ ',') = true := by
    intro c hc
    exact decide_eq_true fun h => hs (h ▸ hc)
  have hstop : ∀ c ∈ (sz.elim [] (',' :: ·)).head?, decide (c ≠ ',') = false := by
    cases sz with
    | none => simp
    | some es => simp
  refine ⟨takeWhile_run hrun hstop, ?_⟩
  rw [sizeText, dropWhile_run hrun hstop]
  cases sz <;> rfl

theorem not_blank_comma_of_digit {c : Char} (hc : isDigit 16 c = true) :
    isBlank c = false ∧ c ≠ ',' := by
  constructor
  · apply Bool.eq_false_iff.mpr
    intro hb
    simp only [isBlank, Bool.or_eq_true, decide_eq_true_iff] at hb
    rcases hb with rfl | rfl <;> exact absurd hc (by decide)
  · rintro rfl
    exact absurd hc (by decide)

theorem documented_iff {line : List Char} {a : Access} :
    Documented line a ↔ ∃ tok sz, fields line = some (a.op, tok, sz) ∧ Bare 16 (2 ^ 64) tok ∧
      a.addr.toNat = value 16 tok ∧ SizeField sz a.size := by
  constructor
  · rintro ⟨ws, c, ws₁, ds, ws₂, sz, hline, hblank, hc, hbare, haddr, hsize⟩
    have hop : opAndRest (stripCR line) =
        some (a.op, ws₁ ++ (ds ++ (ws₂ ++ sz.elim [] (',' :: ·)))) :=
      opAndRest_iff.mpr ⟨ws, c, hline, fun b hb => hblank b (List.mem_append_left _ hb), hc⟩
    have hcomma : ',' ∉ ws₁ ++ (ds ++ ws₂) := by
      intro hmem
      rcases List.mem_append.mp hmem with h | h
      · exact absurd (hblank ',' (by simp [h])) (by decide)
      · rcases List.mem_append.mp h with h | h
        · exact (not_blank_comma_of_digit (hbare.digits _ h)).2 rfl
        · exact absurd (hblank ',' (by simp [h])) (by decide)
    obtain ⟨htake, htext⟩ := sizeText_run hcomma sz
    have hassoc : ws₁ ++ (ds ++ (ws₂ ++ sz.elim [] (',' :: ·))) =
        ws₁ ++ (ds ++ ws₂) ++ sz.elim [] (',' :: ·) := by simp only [List.append_assoc]
    refine ⟨ds, sz, ?_, hbare, haddr, hsize⟩
    rw [fields, hop, hassoc, Option.map_some]
    dsimp only
    rw [htake, htext, trim_run (fun b hb => hblank b (List.mem_append_right _ hb)) hbare.nonempty
      fun c hc => (not_blank_comma_of_digit (hbare.digits c hc)).1]
  · rintro ⟨tok, sz, hfields, hbare, haddr, hsize⟩
    obtain ⟨⟨op, rest⟩, hop, heq⟩ := Option.map_eq_some_iff.mp hfields
    simp only [Prod.mk.injEq] at heq
    obtain ⟨rfl, rfl, rfl⟩ := heq
    obtain ⟨ws, c, hline, hws, hc⟩ := opAndRest_iff.mp hop
    obtain ⟨ws₁, ws₂, htrim, hblank⟩ := trim_split (rest.takeWhile fun c => c ≠ ',')
    refine ⟨ws, c, ws₁, _, ws₂, _, ?_, ?_, hc, hbare, haddr, hsize⟩
    · rw [hline]
      conv_lhs => rw [sizeText_split rest, htrim]
      simp only [List.append_assoc]
    · intro b hb
      rcases List.mem_append.mp hb with hb | hb
      · exact hws b hb
      · exact hblank b hb

/-- A size text that the reader takes although it is no decimal numeral below `2 ^ 32`: nothing at
all, a loose numeral, or a numeral that only fits an `unsigned long`. -/
def LooseSize (ulongBits : ℕ) : Option (List Char) → Prop
  | none => False
  | some s => s = [] ∨ Loose 10 (2 ^ ulongBits) s ∨
      (Bare 10 (2 ^ ulongBits) s ∧ 2 ^ 32 ≤ value 10 s)

def BareSize : Option (List Char) → Prop
  | none => True
  | some s => Bare 10 (2 ^ 32) s

def Flawed (ulongBits : ℕ) (line : List Char) : Prop :=
  ∃ op tok sz, fields line = some (op, tok, sz) ∧
    (Bare 16 (2 ^ 64) tok ∨ Loose 16 (2 ^ 64) tok) ∧ (BareSize sz ∨ LooseSize ulongBits sz) ∧
    (Loose 16 (2 ^ 64) tok ∨ LooseSize ulongBits sz)

theorem sizeText_getD (rest : List Char) :
    (rest.dropWhile fun c => c ≠ ',').tail = (sizeText rest).getD [] := by
  unfold sizeText
  split
  · next h => rw [h]; rfl
  · next c s h => rw [h]; rfl

theorem readLine_eq (ulongBits : ℕ) (line : List Char) (out : Access) :
    readLine ulongBits line out =
      match fields line with
      | none => (false, out)
      | some (op, tok, sz) =>
        match stoul 64 16 tok with
        | .error _ => (false, out)
        | .ok addr =>
          if sz.getD [] = [] then (true, ⟨op, UInt64.ofNat addr, 1⟩)
          else
            match stoul ulongBits 10 (sz.getD []) with
            | .error _ => (false, { out with addr := UInt64.ofNat addr })
            | .ok size => (true, ⟨op, UInt64.ofNat addr, UInt32.ofNat size⟩) := by
  unfold readLine fields
  cases hop : opAndRest (stripCR line) with
  | none => rfl
  | some x =>
    obtain ⟨op, rest⟩ := x
    simp only [Option.map_some, sizeText_getD]
    by_cases htok : trim (rest.takeWhile fun c => decide (c ≠ ',')) = []
    · rw [if_pos htok, htok]
      rfl
    · apply (if_neg htok).trans
      generalize stoul 64 16 _ = addr
      cases addr with
      | error _ => rfl
      | ok addr =>
        generalize stoul ulongBits 10 _ = size
        cases size <;> rfl

theorem size_ok_iff {ulongBits : ℕ} (hbits : 32 ≤ ulongBits) (sz : Option (List Char)) :
    (BareSize sz ∨ LooseSize ulongBits sz) ↔
      sz.getD [] = [] ∨ ∃ v, stoul ulongBits 10 (sz.getD []) = .ok v := by
  cases sz with
  | none => exact iff_of_true (.inl trivial) (.inl rfl)
  | some s =>
    have hlimit : 2 ^ 32 ≤ 2 ^ ulongBits := Nat.pow_le_pow_right (by omega) hbits
    rw [Option.getD_some, stoul_ok_iff (by omega)]
    constructor
    · rintro (hbare | hnil | hloose | ⟨hbare, -⟩)
      · exact .inr (.inl (hbare.mono hlimit))
      · exact .inl hnil
      · exact .inr (.inr hloose)
      · exact .inr (.inl hbare)
    · rintro (hnil | hbare | hloose)
      · exact .inr (.inl hnil)
      · by_cases hsmall : value 10 s < 2 ^ 32
        · exact .inl ⟨hbare.nonempty, hbare.digits, hsmall⟩
        · exact .inr (.inr (.inr ⟨hbare, not_lt.mp hsmall⟩))
      · exact .inr (.inr (.inl hloose))

theorem readLine_true_iff {ulongBits : ℕ} (hbits : 32 ≤ ulongBits) (line : List Char) (out : Access) :
    (readLine ulongBits line out).1 = true ↔ ∃ op tok sz, fields line = some (op, tok, sz) ∧
      (Bare 16 (2 ^ 64) tok ∨ Loose 16 (2 ^ 64) tok) ∧ (BareSize sz ∨ LooseSize ulongBits sz) := by
  rw [readLine_eq]
  cases hfields : fields line with
  | none => simp
  | some x =>
    obtain ⟨op, tok, sz⟩ := x
    have hone : (∃ op' tok' sz', some (op, tok, sz) = some (op', tok', sz') ∧
        (Bare 16 (2 ^ 64) tok' ∨ Loose 16 (2 ^ 64) tok') ∧
        (BareSize sz' ∨ LooseSize ulongBits sz')) ↔
        (∃ v, stoul 64 16 tok = .ok v) ∧
          (sz.getD [] = [] ∨ ∃ v, stoul ulongBits 10 (sz.getD []) = .ok v) := by
      rw [stoul_ok_iff (by omega), ← size_ok_iff hbits]
      simp
    rw [hone]
    dsimp only
    cases stoul 64 16 tok with
    | error _ => simp
    | ok addr =>
      dsimp only
      by_cases hnil : sz.getD [] = []
      · simp [hnil]
      · rw [if_neg hnil]
        cases stoul ulongBits 10 (sz.getD []) <;> simp [hnil]

theorem readLine_documented {ulongBits : ℕ} (hbits : 32 ≤ ulongBits) {line : List Char} {a : Access}
    (h : Documented line a) (out : Access) : readLine ulongBits line out = (true, a) := by
  obtain ⟨tok, sz, hfields, hbare, haddr, hsize⟩ := documented_iff.mp h
  obtain ⟨op, addr, size⟩ := a
  rw [readLine_eq, hfields]
  dsimp only at haddr hsize ⊢
  rw [hbare.stoul_eq (by omega) le_rfl, ← haddr]
  dsimp only
  rw [UInt64.ofNat_toNat]
  cases hsize with
  | absent => rfl
  | @present es n hes hn =>
    have hlimit : 2 ^ 32 ≤ 2 ^ ulongBits := Nat.pow_le_pow_right (by omega) hbits
    rw [Option.getD_some, if_neg hes.nonempty, hes.stoul_eq (by omega) hlimit, ← hn]
    dsimp only
    rw [UInt32.ofNat_toNat]

theorem skips_iff {ulongBits : ℕ} {line : List Char} (hline : '\n' ∉ line) :
    Skips ulongBits line ↔ ∀ out, (readLine ulongBits line out).1 = false := by
  constructor
  · intro hskip out
    apply Bool.eq_false_iff.mpr
    intro htrue
    -- a file that ends after the line has no next record
    have hget := getline_append hline []
    obtain ⟨out', hnext⟩ := hskip _ _ out hget
    rw [next_line ulongBits hget, if_pos htrue, next_eof] at hnext
    exact absurd (congrArg Prod.fst hnext) (by simp)
  · intro hfalse s rest out hs
    exact ⟨_, by rw [next_line ulongBits hs, if_neg (by rw [hfalse out]; exact Bool.false_ne_true)]⟩

theorem Flawed.not_documented {ulongBits : ℕ} {line : List Char} (h : Flawed ulongBits line)
    (a : Access) : ¬Documented line a := by
  obtain ⟨op, tok, sz, hfields, htok, hsz, hloose⟩ := h
  intro ha
  obtain ⟨tok', sz', hfields', hbare, -, hsize⟩ := documented_iff.mp ha
  obtain ⟨op', addr, size⟩ := a
  rw [hfields] at hfields'
  dsimp only at hfields' hsize
  simp only [Option.some.injEq, Prod.mk.injEq] at hfields'
  obtain ⟨-, rfl, rfl⟩ := hfields'
  rcases hloose with hloose | hloose
  · exact hloose.not_digits (by omega) hbare.digits
  · cases hsize with
    | absent => exact hloose
    | present hes hn =>
      rcases hloose with hnil | hloose | ⟨-, hbig⟩
      · exact hes.nonempty hnil
      · exact hloose.not_digits (by omega) hes.digits
      · exact absurd hes.inRange (not_lt.mpr hbig)

theorem documented_of_fields {line : List Char} {op : Op} {tok : List Char} {sz : Option (List Char)}
    (hfields : fields line = some (op, tok, sz)) (htok : Bare 16 (2 ^ 64) tok)
    (hsz : BareSize sz) : ∃ a, Documented line a := by
  have haddr : (UInt64.ofNat (value 16 tok)).toNat = value 16 tok :=
    UInt64.toNat_ofNat_of_lt' htok.inRange
  cases sz with
  | none =>
    exact ⟨⟨op, _, 1⟩, documented_iff.mpr ⟨tok, none, hfields, htok, haddr, .absent⟩⟩
  | some es =>
    exact ⟨⟨op, _, _⟩, documented_iff.mpr ⟨tok, some es, hfields, htok, haddr,
      .present hsz (UInt32.toNat_ofNat_of_lt' hsz.inRange)⟩⟩

/-- Every documented line is produced, and the others are skipped, exactly when the line is not one
whose numbers the C++ readers convert although they are not bare numerals in range. -/
theorem follows_format_iff {ulongBits : ℕ} (hbits : 32 ≤ ulongBits) {line : List Char}
    (hline : '\n' ∉ line) :
    ((∀ a, Documented line a → Produces ulongBits line a) ∧
        ((∀ a, ¬Documented line a) → Skips ulongBits line)) ↔ ¬Flawed ulongBits line := by
  have hproduces : ∀ a, Documented line a → Produces ulongBits line a := by
    intro a ha s rest out hs
    rw [next_line ulongBits hs, readLine_documented hbits ha, if_pos rfl]
  rw [and_iff_right hproduces, skips_iff hline]
  constructor
  · intro hall hflawed
    have hfalse := hall hflawed.not_documented ⟨.Read, 0, 0⟩
    obtain ⟨op, tok, sz, hfields, htok, hsz, -⟩ := hflawed
    rw [(readLine_true_iff hbits line _).mpr ⟨op, tok, sz, hfields, htok, hsz⟩] at hfalse
    cases hfalse
  · intro hclean hundocumented out
    apply Bool.eq_false_iff.mpr
    intro htrue
    obtain ⟨op, tok, sz, hfields, htok, hsz⟩ := (readLine_true_iff hbits line out).mp htrue
    have hbare := htok.resolve_right fun h => hclean ⟨op, tok, sz, hfields, htok, hsz, .inl h⟩
    have hbareSize := hsz.resolve_right fun h => hclean ⟨op, tok, sz, hfields, htok, hsz, .inr h⟩
    obtain ⟨a, ha⟩ := documented_of_fields hfields hbare hbareSize
    exact hundocumented a ha

theorem follows_format_banner :
    (∀ a, Documented ['=', '=', '1', '2', '='] a → Produces 64 ['=', '=', '1', '2', '='] a) ∧
        ((∀ a, ¬Documented ['=', '=', '1', '2', '='] a) → Skips 64 ['=', '=', '1', '2', '=']) ↔
      ¬Flawed 64 ['=', '=', '1', '2', '='] :=
  follows_format_iff (by decide) (by decide)

theorem junk_produces :
    Produces 64 [' ', 'L', ' ', '1', '2', 'z', 'z', ',', '4'] ⟨.Read, 0x12, 4⟩ ∧
      ∀ a, ¬Documented [' ', 'L', ' ', '1', '2', 'z', 'z', ',', '4'] a := by
  constructor
  · intro s rest out hs
    have hread : readLine 64 [' ', 'L', ' ', '1', '2', 'z', 'z', ',', '4'] out =
        (true, ⟨.Read, 0x12, 4⟩) := rfl
    rw [next_line 64 hs, hread]
    rfl
  · intro a ha
    obtain ⟨tok, sz, hfields, hbare, -⟩ := documented_iff.mp ha
    have hfields' : fields [' ', 'L', ' ', '1', '2', 'z', 'z', ',', '4'] =
        some (.Read, ['1', '2', 'z', 'z'], some ['4']) := rfl
    rw [hfields'] at hfields
    simp only [Option.some.injEq, Prod.mk.injEq] at hfields
    obtain ⟨-, rfl, -⟩ := hfields
    exact absurd (hbare.digits 'z' (by simp)) (by decide)

end CacheSim.TraceReader
