import CacheSim.Program

namespace CacheSim

namespace TraceReader

/-- A match of `^[ ]?[LSM]`. -/
def kept : List Char → Bool
  | ' ' :: c :: _ => c = 'L' || c = 'S' || c = 'M'
  | c :: _ => c = 'L' || c = 'S' || c = 'M'
  | [] => false

def matched (raw : List Char) : List Char := ((linesOf raw).filter kept).flatMap fun line => line ++ ['\n']

/-- With a NUL in it the input is binary, and no line of it is printed. -/
def grep (raw : List Char) : List Char := if '\x00' ∈ raw then [] else matched raw

def Lackey (line : List Char) : Prop :=
  kept line = true ∨ ∀ c ∈ (line.dropWhile isBlank).head?, ∀ op ∈ opOf c, op = .Instr

variable {ulongBits : ℕ} {line : List Char} {a : Access}

theorem recordOf_op (h : recordOf ulongBits line = some a) :
    ∃ rest, opAndRest (stripCR line) = some (a.op, rest) := by
  unfold recordOf at h
  split at h
  · next b hread =>
    obtain rfl := Option.some.inj h
    rw [readLine_eq] at hread
    split at hread
    · cases hread
    · next op tok sz hfields =>
      have hop : op = b.op := by
        split at hread
        · cases hread
        split_ifs at hread
        · rw [← (Prod.mk.inj hread).2]
        split at hread
        · cases hread
        · rw [← (Prod.mk.inj hread).2]
      obtain ⟨x, hx, hsame⟩ := Option.map_eq_some_iff.mp hfields
      rw [← hop, ← (Prod.mk.inj hsame).1]
      exact ⟨x.2, hx⟩
  · cases h

theorem head_stripCR {c : Char} {rest : List Char} (h : (stripCR line).dropWhile isBlank = c :: rest) :
    (line.dropWhile isBlank).head? = some c := by
  unfold stripCR at h
  split_ifs at h with hcr
  -- a line of blanks and a CR has no letter with the CR or without
  · obtain ⟨init, rfl⟩ := List.getLast?_eq_some_iff.mp hcr
    rw [List.dropLast_concat] at h
    rw [List.dropWhile_append, h]
    rfl
  · rw [h]
    rfl

theorem record_dropped (hlackey : Lackey line) (hdrop : ¬kept line = true) :
    (recordOf ulongBits line).toList.flatMap Access.expand = [] := by
  cases hrecord : recordOf ulongBits line with
  | none => rfl
  | some a =>
    have hinstr : a.op = .Instr := by
      obtain ⟨rest, hop⟩ := recordOf_op hrecord
      rw [opAndRest_eq] at hop
      split at hop
      · cases hop
      · next c rest' hdata =>
        obtain ⟨op, hop, hsame⟩ := Option.map_eq_some_iff.mp hop
        rw [← (Prod.mk.inj hsame).1]
        exact hlackey.resolve_left hdrop c (head_stripCR hdata) op hop
    simp [Access.expand, hinstr]

theorem records_matched (ulongBits : ℕ) {raw : List Char} (hlackey : ∀ line ∈ linesOf raw, Lackey line) :
    (records ulongBits (matched raw)).flatMap Access.expand =
      (records ulongBits raw).flatMap Access.expand := by
  induction raw using records_induction with
  | nil =>
    rw [matched, linesOf_nil]
    rfl
  | line raw line rest hs ih =>
    rw [linesOf_line hs] at hlackey
    have hrest := ih fun l hl => hlackey l (List.mem_cons_of_mem _ hl)
    rw [records_line hs, List.flatMap_append, ← hrest, matched, linesOf_line hs]
    by_cases hkept : kept line = true
    · have hmatched : ((line :: linesOf rest).filter kept).flatMap (fun l => l ++ ['\n']) =
          line ++ '\n' :: matched rest := by
        rw [List.filter_cons_of_pos hkept, List.flatMap_cons, List.append_assoc]
        rfl
      rw [hmatched, records_line (getline_append (getline_split hs).1 _), List.flatMap_append]
    · rw [List.filter_cons_of_neg hkept, ← matched,
        record_dropped (hlackey line List.mem_cons_self) hkept, List.nil_append]

theorem records_grep (ulongBits : ℕ) {raw : List Char} (htext : '\x00' ∉ raw)
    (hlackey : ∀ line ∈ linesOf raw, Lackey line) : (records ulongBits (grep raw)).flatMap Access.expand =
      (records ulongBits raw).flatMap Access.expand := by
  rw [grep, if_neg htext]
  exact records_matched ulongBits hlackey

end TraceReader

namespace CommandLine

open TraceReader

theorem gen_trace_main (order : HashOrder UInt64 ℕ) (stod : String → Except Numerals.NumberError ℚ)
    (showDouble showFixed : ℚ → String) (ulongBits : ℕ) (files : String → Option (List Char))
    (e : RandStream) (a : Access) (prog : String) (args : List String)
    (htext : ∀ path, ∀ raw ∈ files path, '\x00' ∉ raw)
    (hlackey : ∀ path, ∀ raw ∈ files path, ∀ line ∈ linesOf raw, Lackey line) :
    main order stod showDouble showFixed ulongBits (fun path => (files path).map grep) e a prog args =
      main order stod showDouble showFixed ulongBits files e a prog args := by
  have hopens : (fun path => ((files path).map grep).isSome) = fun path => (files path).isSome := by
    funext path
    rw [Option.isSome_map]
  cases hconf : configure order stod (fun path => (files path).isSome) args with
  | error stop =>
    unfold main
    rw [hopens, hconf]
  | ok x =>
    obtain ⟨o, h⟩ := x
    have hreqs : (records ulongBits (((files o.tracePath).map grep).getD [])).flatMap Access.expand =
        (records ulongBits ((files o.tracePath).getD [])).flatMap Access.expand := by
      cases hfile : files o.tracePath with
      | none => rfl
      | some raw => exact records_grep ulongBits (htext o.tracePath raw hfile) (hlackey o.tracePath raw hfile)
    rw [main_ok hconf, main_ok (by rwa [hopens]), hreqs]

theorem gen_trace_main_load :
    main .newestFirst (fun _ => .ok 1) toString toString 64
        (fun _ => some (grep ['I', ' ', '8', '\n', ' ', 'L', ' ', '8'])) RandStream.zeros ⟨.Read, 0, 0⟩ "sim"
        ["--trace", "t", "--l1-size", "16", "--l1-block", "4"] =
      main .newestFirst (fun _ => .ok 1) toString toString 64
        (fun _ => some ['I', ' ', '8', '\n', ' ', 'L', ' ', '8']) RandStream.zeros ⟨.Read, 0, 0⟩ "sim"
        ["--trace", "t", "--l1-size", "16", "--l1-block", "4"] := by
  have hfirst : getline ['I', ' ', '8', '\n', ' ', 'L', ' ', '8'] =
      some (['I', ' ', '8'], [' ', 'L', ' ', '8']) := rfl
  have hsecond : getline [' ', 'L', ' ', '8'] = some ([' ', 'L', ' ', '8'], []) := rfl
  apply gen_trace_main .newestFirst (fun _ => .ok 1) toString toString 64
    (fun _ => some ['I', ' ', '8', '\n', ' ', 'L', ' ', '8']) RandStream.zeros ⟨.Read, 0, 0⟩ "sim"
    ["--trace", "t", "--l1-size", "16", "--l1-block", "4"]
  · intro path raw hraw
    obtain rfl := Option.some.inj hraw
    decide
  intro path raw hraw line hline
  obtain rfl := Option.some.inj hraw
  rw [linesOf_line hfirst, linesOf_line hsecond, linesOf_nil] at hline
  simp only [List.mem_cons, List.not_mem_nil, or_false] at hline
  rcases hline with rfl | rfl
  · right
    rintro c ⟨⟩ op ⟨⟩
    rfl
  · exact .inl rfl

end CommandLine

end CacheSim
