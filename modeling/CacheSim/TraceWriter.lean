import CacheSim.TraceFormat

namespace CacheSim.TraceReader

open Numerals

def emitLine (op : Char) (p : UInt64) (size : UInt32) : List Char :=
  [' '] ++ op :: ([' '] ++ (Nat.toDigits 16 p.toNat ++ ',' :: Nat.toDigits 10 size.toNat))

def emit (op : Char) (p : UInt64) (size : UInt32) : List Char := emitLine op p size ++ ['\n']

def letterOf : Op → Char
  | .Read => 'L'
  | .Write => 'S'
  | .Modify => 'M'
  | .Instr => 'I'

inductive Unparsable (line : List Char) : Prop
  | blank (h : ∀ b ∈ stripCR line, isBlank b = true)
  | badOp {ws rest : List Char} {c : Char} (hline : stripCR line = ws ++ c :: rest)
      (hws : ∀ b ∈ ws, isBlank b = true) (hc : isBlank c = false) (hop : ∀ op, (c, op) ∉ letters)
  | noAddress {ws addr : List Char} {c : Char} {op : Op} {sz : Option (List Char)}
      (hline : stripCR line = ws ++ c :: (addr ++ sz.elim [] (',' :: ·)))
      (hws : ∀ b ∈ ws, isBlank b = true) (hop : (c, op) ∈ letters)
      (haddr : ∀ b ∈ addr, isBlank b = true)
  | badAddress {ws ws₁ rest : List Char} {c d : Char} {op : Op}
      (hline : stripCR line = ws ++ c :: (ws₁ ++ d :: rest))
      (hws : ∀ b ∈ ws ++ ws₁, isBlank b = true) (hop : (c, op) ∈ letters) (hcomma : d ≠ ',')
      (hdigit : isDigit 16 d = false) (hsign : d ≠ '+' ∧ d ≠ '-') (hspace : isSpace d = false)
  | badSize {ws addr sz : List Char} {c : Char} {op : Op}
      (hline : stripCR line = ws ++ c :: (addr ++ ',' :: sz)) (hws : ∀ b ∈ ws, isBlank b = true)
      (hop : (c, op) ∈ letters) (hcomma : ',' ∉ addr) (hne : sz ≠ [])
      (hsz : ¬∃ sp sg d t, sz = sp ++ (sg ++ d :: t) ∧ (∀ b ∈ sp, isSpace b = true) ∧
        (sg = [] ∨ sg = ['+'] ∨ sg = ['-']) ∧ isDigit 10 d = true)

inductive Line where
  | record (a : Access) (cr : Bool)
  | noise (s : List Char) (hline : '\n' ∉ s) (h : Unparsable s)

namespace Line

def text : Line → List Char
  | record a cr => emitLine (letterOf a.op) a.addr a.size ++ ((if cr then ['\r'] else []) ++ ['\n'])
  | noise s _ _ => s ++ ['\n']

def accesses : Line → List Access
  | record a _ => [a]
  | noise _ _ _ => []

end Line

/-- Repeated calls of `next` return the records `as` and then `false`, whatever `out` holds before
each call. -/
def Yields (ulongBits : ℕ) : TraceReader → List Access → Prop
  | reader, [] => ∀ out, (next ulongBits reader out).1 = false
  | reader, a :: as => ∃ reader', (∀ out, next ulongBits reader out = (true, a, reader')) ∧
      Yields ulongBits reader' as

theorem emitLine_documented (a : Access) (cr : Bool) :
    Documented (emitLine (letterOf a.op) a.addr a.size ++ if cr then ['\r'] else []) a := by
  have haddr : Bare 16 (2 ^ 64) (Nat.toDigits 16 a.addr.toNat) :=
    toDigits_bare (by omega) le_rfl a.addr.toNat_lt
  have hsize : Bare 10 (2 ^ 32) (Nat.toDigits 10 a.size.toNat) :=
    toDigits_bare (by omega) (by omega) a.size.toNat_lt
  have hstrip : stripCR (emitLine (letterOf a.op) a.addr a.size ++ if cr then ['\r'] else []) =
      emitLine (letterOf a.op) a.addr a.size := by
    cases cr with
    | true => simp [stripCR]
    | false =>
      rw [if_neg Bool.false_ne_true, List.append_nil, stripCR, if_neg]
      intro hlast
      have hsplit : emitLine (letterOf a.op) a.addr a.size =
          [' ', letterOf a.op, ' '] ++ Nat.toDigits 16 a.addr.toNat ++ [','] ++
            Nat.toDigits 10 a.size.toNat := by
        simp [emitLine]
      have hmem : '\r' ∈ Nat.toDigits 10 a.size.toNat := by
        rw [hsplit, List.getLast?_append_of_ne_nil _ hsize.nonempty] at hlast
        exact List.mem_of_getLast? hlast
      exact absurd (hsize.digits _ hmem) (by decide)
  refine ⟨[' '], letterOf a.op, [' '], _, [], some (Nat.toDigits 10 a.size.toNat), ?_, by simp [isBlank], ?_,
    haddr, (toDigits_spec (by omega) le_rfl _).1.symm, .present hsize ?_⟩
  · rw [hstrip]
    rfl
  · cases a.op <;> simp [letters, letterOf]
  · exact (toDigits_spec (by omega) (by omega) _).1.symm

theorem emitLine_newline (a : Access) (cr : Bool) :
    '\n' ∉ emitLine (letterOf a.op) a.addr a.size ++ if cr then ['\r'] else [] := by
  have hdigit : ∀ {base}, base ≤ 16 → isDigit base '\n' = false := by
    intro base hb
    exact not_isDigit_of_isSpace hb rfl
  have haddr : '\n' ∉ Nat.toDigits 16 a.addr.toNat := by
    intro h
    have hd := (toDigits_spec (by omega) le_rfl _).2 _ h
    rw [hdigit le_rfl] at hd
    cases hd
  have hsize : '\n' ∉ Nat.toDigits 10 a.size.toNat := by
    intro h
    have hd := (toDigits_spec (by omega) (by omega) _).2 _ h
    rw [hdigit (by omega)] at hd
    cases hd
  have hop : letterOf a.op ≠ '\n' := by cases a.op <;> decide
  cases cr <;> simp [emitLine, haddr, hsize, hop.symm]

theorem stoul_first {base bits v : ℕ} {s : List Char}
    (h : stoul bits base s = .ok v) : ∃ sp sg d t, s = sp ++ (sg ++ d :: t) ∧
      (∀ b ∈ sp, isSpace b = true) ∧ (sg = [] ∨ sg = ['+'] ∨ sg = ['-']) ∧ isDigit base d = true := by
  obtain ⟨sp, sg, px, ds, junk, hreads, -⟩ := Reads.of_stoul h
  have hne : px ++ (ds ++ junk) ≠ [] := by simp [hreads.nonempty]
  obtain ⟨d, t, ht⟩ := List.exists_cons_of_ne_nil hne
  refine ⟨sp, sg, d, t, ?_, hreads.spaces, hreads.sign, hreads.head_digit d (by rw [ht]; rfl)⟩
  rw [hreads.text, ht]

theorem fields_of_split {line ws addr : List Char} {c : Char} {op : Op} {sz : Option (List Char)}
    (hline : stripCR line = ws ++ c :: (addr ++ sz.elim [] (',' :: ·)))
    (hws : ∀ b ∈ ws, isBlank b = true) (hop : (c, op) ∈ letters) (hcomma : ',' ∉ addr) :
    fields line = some (op, trim addr, sz) := by
  have hrest : opAndRest (stripCR line) = some (op, addr ++ sz.elim [] (',' :: ·)) :=
    opAndRest_iff.mpr ⟨ws, c, hline, hws, hop⟩
  obtain ⟨htake, htext⟩ := sizeText_run hcomma sz
  rw [fields, hrest, Option.map_some, htake, htext]

theorem trim_blank {s : List Char} (hs : ∀ b ∈ s, isBlank b = true) : trim s = [] := by
  have hdrop : s.dropWhile isBlank = [] := List.dropWhile_eq_nil_iff.mpr hs
  rw [trim, hdrop]
  rfl

theorem trim_first {ws s : List Char} {d : Char} (hws : ∀ b ∈ ws, isBlank b = true)
    (hd : isBlank d = false) : ∃ t, trim (ws ++ d :: s) = d :: t := by
  have hstop : ∀ b ∈ (d :: s).head?, isBlank b = false := by
    intro b hb
    obtain rfl := Option.some.inj hb
    exact hd
  have hne : trim (ws ++ d :: s) ≠ [] := by
    rw [trim, dropWhile_run hws hstop, ne_eq, List.rdropWhile_eq_nil_iff]
    intro hall
    rw [hall d List.mem_cons_self] at hd
    cases hd
  have hpre : trim (ws ++ d :: s) <+: d :: s := by
    rw [trim, dropWhile_run hws hstop]
    exact List.rdropWhile_prefix isBlank _
  obtain ⟨d', t, ht⟩ := List.exists_cons_of_ne_nil hne
  rw [ht] at hpre ⊢
  obtain ⟨u, hu⟩ := hpre
  obtain ⟨rfl, -⟩ := List.cons.inj hu
  exact ⟨t, rfl⟩

theorem fields_badOp {line ws rest : List Char} {c : Char} (hline : stripCR line = ws ++ c :: rest)
    (hws : ∀ b ∈ ws, isBlank b = true) (hc : isBlank c = false) (hop : ∀ op, (c, op) ∉ letters) :
    fields line = none := by
  have hstop : ∀ b ∈ (c :: rest).head?, isBlank b = false := by
    intro b hb
    obtain rfl := Option.some.inj hb
    exact hc
  have hnone : opOf c = none := by
    cases hopc : opOf c with
    | none => rfl
    | some op => exact absurd ((opOf_eq_some c op).mp hopc) (hop op)
  rw [fields, opAndRest_eq, hline, dropWhile_run hws hstop]
  simp [hnone]

theorem fields_first {line ws ws₁ rest : List Char} {c d : Char} {op : Op}
    (hline : stripCR line = ws ++ c :: (ws₁ ++ d :: rest))
    (hws : ∀ b ∈ ws ++ ws₁, isBlank b = true) (hop : (c, op) ∈ letters) (hcomma : d ≠ ',')
    (hblank : isBlank d = false) : ∃ t, fields line = some (op, d :: t, sizeText rest) := by
  have hsplit : stripCR line = ws ++ c :: (ws₁ ++ d :: (rest.takeWhile fun c => c ≠ ',') ++
      (sizeText rest).elim [] (',' :: ·)) := by
    rw [hline, List.append_assoc, List.cons_append, ← sizeText_split]
  have hno : ',' ∉ ws₁ ++ d :: (rest.takeWhile fun c => c ≠ ',') := by
    intro h
    rcases List.mem_append.mp h with h | h
    · exact absurd (hws _ (List.mem_append_right _ h)) (by decide)
    · rcases List.mem_cons.mp h with h | h
      · exact hcomma h.symm
      · simpa using List.mem_takeWhile_imp h
  have hws₁ : ∀ b ∈ ws₁, isBlank b = true := by
    intro b hb
    exact hws b (List.mem_append_right _ hb)
  obtain ⟨t, ht⟩ := trim_first (s := rest.takeWhile fun c => c ≠ ',') hws₁ hblank
  refine ⟨t, ?_⟩
  rw [fields_of_split hsplit (fun b hb => hws b (List.mem_append_left _ hb)) hop hno, ht]

theorem stoul_ne_ok_of_first {base bits : ℕ} {d : Char} {t : List Char} (hdigit : isDigit base d = false)
    (hsign : d ≠ '+' ∧ d ≠ '-') (hspace : isSpace d = false) (v : ℕ) : stoul bits base (d :: t) ≠ .ok v := by
  intro hv
  obtain ⟨sp, sg, d', t', htext, hsp, hsg, hd'⟩ := stoul_first hv
  cases sp with
  | cons b sp =>
    obtain ⟨rfl, -⟩ := List.cons.inj htext
    rw [hsp d List.mem_cons_self] at hspace
    cases hspace
  | nil =>
    rcases hsg with rfl | rfl | rfl
    · obtain ⟨rfl, -⟩ := List.cons.inj htext
      rw [hd'] at hdigit
      cases hdigit
    · exact hsign.1 (List.cons.inj htext).1
    · exact hsign.2 (List.cons.inj htext).1

theorem Unparsable.skipped {ulongBits : ℕ} {line : List Char} (h : Unparsable line) (out : Access) :
    (readLine ulongBits line out).1 = false := by
  rw [readLine_eq]
  cases h with
  | blank h =>
    have hfields : fields line = none := by
      rw [fields, opAndRest_eq, List.dropWhile_eq_nil_iff.mpr h]
      rfl
    rw [hfields]
  | badOp hline hws hc hop => rw [fields_badOp hline hws hc hop]
  | noAddress hline hws hop haddr =>
    have hcomma : ',' ∉ _ := fun h0 => absurd (haddr _ h0) (by decide)
    rw [fields_of_split hline hws hop hcomma, trim_blank haddr]
    rfl
  | @badAddress ws ws₁ rest c d op hline hws hop hcomma hdigit hsign hspace =>
    have hblank : isBlank d = false := by
      apply Bool.eq_false_iff.mpr
      intro hb
      simp only [isBlank, Bool.or_eq_true, decide_eq_true_iff] at hb
      rcases hb with rfl | rfl <;> exact absurd hspace (by decide)
    obtain ⟨t, ht⟩ := fields_first hline hws hop hcomma hblank
    rw [ht]
    dsimp only
    cases hstoul : stoul 64 16 (d :: t) with
    | error _ => rfl
    | ok v => exact absurd hstoul (stoul_ne_ok_of_first hdigit hsign hspace v)
  | @badSize ws addr sz c op hline hws hop hcomma hne hsz =>
    have hsplit : stripCR line = ws ++ c :: (addr ++ (some sz).elim [] (',' :: ·)) := hline
    rw [fields_of_split hsplit hws hop hcomma]
    dsimp only [Option.getD_some]
    cases stoul 64 16 (trim addr) with
    | error _ => rfl
    | ok a =>
      dsimp only
      rw [if_neg hne]
      cases hstoul : stoul ulongBits 10 sz with
      | error _ => rfl
      | ok v => exact absurd (stoul_first hstoul) hsz

theorem Yields.skip {ulongBits : ℕ} {line s rest : List Char} {as : List Access}
    (hs : getline s = some (line, rest)) (h : Unparsable line) (hrest : Yields ulongBits ⟨rest⟩ as) :
    Yields ulongBits ⟨s⟩ as := by
  have hnext : ∀ out, ∃ out', next ulongBits ⟨s⟩ out = next ulongBits ⟨rest⟩ out' := by
    intro out
    exact ⟨_, by rw [next_line ulongBits hs, if_neg (by rw [h.skipped out]; exact Bool.false_ne_true)]⟩
  cases as with
  | nil =>
    intro out
    obtain ⟨out', hout⟩ := hnext out
    rw [hout]
    exact hrest out'
  | cons a as =>
    obtain ⟨reader', hall, hthen⟩ := hrest
    refine ⟨reader', ?_, hthen⟩
    intro out
    obtain ⟨out', hout⟩ := hnext out
    rw [hout]
    exact hall out'

theorem Yields.take {ulongBits : ℕ} (hbits : 32 ≤ ulongBits) {line s rest : List Char} {a : Access}
    {as : List Access} (hs : getline s = some (line, rest)) (h : Documented line a)
    (hrest : Yields ulongBits ⟨rest⟩ as) : Yields ulongBits ⟨s⟩ (a :: as) := by
  refine ⟨⟨rest⟩, ?_, hrest⟩
  intro out
  rw [next_line ulongBits hs, readLine_documented hbits h, if_pos rfl]

theorem getline_last {s : List Char} (hne : s ≠ []) (hs : '\n' ∉ s) : getline s = some (s, []) := by
  have hrun : ∀ c ∈ s, decide (c ≠ '\n') = true := by
    intro c hc
    exact decide_eq_true fun h => hs (h ▸ hc)
  obtain ⟨c, t, rfl⟩ := List.exists_cons_of_ne_nil hne
  rw [getline, List.takeWhile_eq_self_iff.mpr hrun, List.dropWhile_eq_nil_iff.mpr hrun]
  rfl

theorem reads_back {ulongBits : ℕ} (hbits : 32 ≤ ulongBits) (lines : List Line) (last : List Char)
    (hline : '\n' ∉ last) (hlast : Unparsable last) :
    Yields ulongBits ⟨lines.flatMap Line.text ++ last⟩ (lines.flatMap Line.accesses) := by
  induction lines with
  | nil =>
    rw [List.flatMap_nil, List.flatMap_nil, List.nil_append]
    have hend : Yields ulongBits ⟨[]⟩ [] := fun out => by rw [next_eof]
    by_cases hnil : last = []
    · rw [hnil]
      exact hend
    · exact hend.skip (getline_last hnil hline) hlast
  | cons l lines ih =>
    rw [List.flatMap_cons, List.flatMap_cons, List.append_assoc]
    cases l with
    | record a cr =>
      have htext : (Line.record a cr).text ++ (lines.flatMap Line.text ++ last) =
          (emitLine (letterOf a.op) a.addr a.size ++ if cr then ['\r'] else []) ++
            '\n' :: (lines.flatMap Line.text ++ last) := by
        simp [Line.text]
      rw [htext]
      exact ih.take hbits (getline_append (emitLine_newline a cr) _) (emitLine_documented a cr)
    | noise s hs h =>
      have htext : (Line.noise s hs h).text ++ (lines.flatMap Line.text ++ last) =
          s ++ '\n' :: (lines.flatMap Line.text ++ last) := by
        simp [Line.text]
      rw [htext]
      exact ih.skip (getline_append hs _) h

theorem reads_back_banner :
    Yields 64 ⟨['=', '=', '\n', ' ', 'L', ' ', '1', 'f', ',', '4', '\r', '\n', '\t']⟩
      [⟨.Read, 0x1f, 4⟩] := by
  have hbanner : Unparsable ['=', '='] :=
    @Unparsable.badOp _ [] ['='] '=' rfl (by simp) rfl (by simp [letters])
  exact reads_back (by decide) [.noise ['=', '='] (by simp) hbanner, .record ⟨.Read, 0x1f, 4⟩ true]
    ['\t'] (by simp) (.blank (by simp [stripCR, isBlank]))

end CacheSim.TraceReader
