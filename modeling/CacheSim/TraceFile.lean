import CacheSim.TraceWriter

namespace CacheSim.TraceReader

def linesOf (s : List Char) : List (List Char) :=
  match h : getline s with
  | none => []
  | some (line, rest) =>
    have := getline_length h
    line :: linesOf rest
termination_by s.length

def recordOf (ulongBits : ℕ) (line : List Char) : Option Access :=
  match readLine ulongBits line ⟨.Read, 0, 0⟩ with
  | (true, a) => some a
  | (false, _) => none

def records (ulongBits : ℕ) (s : List Char) : List Access := (linesOf s).filterMap (recordOf ulongBits)

variable {ulongBits : ℕ} {s t line rest : List Char} {a : Access} {as bs : List Access}

theorem linesOf_nil : linesOf [] = [] := by
  rw [linesOf]
  rfl

theorem linesOf_line (h : getline s = some (line, rest)) : linesOf s = line :: linesOf rest := by
  rw [linesOf]
  split
  · next hnone =>
    rw [h] at hnone
    cases hnone
  · next line' rest' hsome =>
    rw [h] at hsome
    obtain ⟨rfl, rfl⟩ := Prod.mk.inj (Option.some.inj hsome)
    rfl

theorem readLine_out {out : Access} (h : (readLine ulongBits line out).1 = true) (out' : Access) :
    readLine ulongBits line out' = readLine ulongBits line out := by
  rw [readLine_eq] at h ⊢
  rw [readLine_eq]
  split at h
  · cases h
  · split at h
    · cases h
    · split_ifs at h ⊢
      · rfl
      · split at h
        · cases h
        · rfl

theorem readLine_record (h : recordOf ulongBits line = some a) (out : Access) :
    readLine ulongBits line out = (true, a) := by
  unfold recordOf at h
  split at h
  · next b hread =>
    obtain rfl := Option.some.inj h
    rw [readLine_out (by rw [hread]) out, hread]
  · cases h

theorem readLine_noRecord (h : recordOf ulongBits line = none) (out : Access) :
    (readLine ulongBits line out).1 = false := by
  apply Bool.eq_false_iff.mpr
  intro htrue
  unfold recordOf at h
  split at h
  · cases h
  · next hread =>
    rw [readLine_out htrue ⟨.Read, 0, 0⟩] at hread
    rw [hread] at htrue
    cases htrue

theorem next_record (hs : getline s = some (line, rest)) (h : recordOf ulongBits line = some a)
    (out : Access) : next ulongBits ⟨s⟩ out = (true, a, ⟨rest⟩) := by
  rw [next_line ulongBits hs, readLine_record h, if_pos rfl]

theorem next_noRecord (hs : getline s = some (line, rest)) (h : recordOf ulongBits line = none)
    (out : Access) :
    next ulongBits ⟨s⟩ out = next ulongBits ⟨rest⟩ (readLine ulongBits line out).2 := by
  rw [next_line ulongBits hs, readLine_noRecord h, if_neg Bool.false_ne_true]

theorem records_nil : records ulongBits [] = [] := by
  rw [records, linesOf_nil]
  rfl

theorem records_line (hs : getline s = some (line, rest)) :
    records ulongBits s = (recordOf ulongBits line).toList ++ records ulongBits rest := by
  rw [records, linesOf_line hs, List.filterMap_cons]
  cases recordOf ulongBits line <;> rfl

theorem records_induction {P : List Char → Prop} (nil : P [])
    (line : ∀ s line rest, getline s = some (line, rest) → P rest → P s) (s : List Char) : P s := by
  induction s using linesOf.induct with
  | case1 s hnone =>
    cases s with
    | nil => exact nil
    | cons c s => cases hnone
  | case2 s l rest hs _ ih => exact line s l rest hs ih

theorem yields_records (ulongBits : ℕ) (s : List Char) : Yields ulongBits ⟨s⟩ (records ulongBits s) := by
  induction s using records_induction with
  | nil =>
    rw [records_nil]
    intro out
    rw [next_eof]
  | line s line rest hs ih =>
    rw [records_line hs]
    cases h : recordOf ulongBits line with
    | some a => exact ⟨⟨rest⟩, next_record hs h, ih⟩
    | none =>
      rw [Option.toList_none, List.nil_append]
      cases hrest : records ulongBits rest with
      | nil =>
        rw [hrest] at ih
        intro out
        rw [next_noRecord hs h]
        exact ih _
      | cons a as =>
        rw [hrest] at ih
        obtain ⟨reader', hnext, hthen⟩ := ih
        exact ⟨reader', fun out => by rw [next_noRecord hs h, hnext], hthen⟩

theorem getline_split (hs : getline s = some (line, rest)) :
    '\n' ∉ line ∧ (s = line ++ '\n' :: rest ∨ (s = line ∧ rest = [])) := by
  cases s with
  | nil => cases hs
  | cons c s =>
    obtain ⟨rfl, rfl⟩ := Prod.mk.inj (Option.some.inj hs)
    refine ⟨fun h => by simpa using List.mem_takeWhile_imp h, ?_⟩
    have hsplit := List.takeWhile_append_dropWhile (p := fun x => decide (x ≠ '\n')) (l := c :: s)
    cases hdrop : (c :: s).dropWhile fun x => decide (x ≠ '\n') with
    | nil =>
      rw [hdrop, List.append_nil] at hsplit
      exact .inr ⟨hsplit.symm, rfl⟩
    | cons d t =>
      have hd := Numerals.head_dropWhile (fun x => decide (x ≠ '\n')) (c :: s) d (by rw [hdrop]; rfl)
      obtain rfl : d = '\n' := by simpa using hd
      rw [hdrop] at hsplit
      exact .inl hsplit.symm

theorem recordOf_blank : recordOf ulongBits [] = none := by
  simp [recordOf, readLine, stripCR, opAndRest]

theorem records_append (s t : List Char) :
    records ulongBits (s ++ '\n' :: t) = records ulongBits s ++ records ulongBits t := by
  induction s using records_induction with
  | nil =>
    have hget : getline ([] ++ '\n' :: t) = some ([], t) := getline_append (by simp) t
    rw [records_line hget, recordOf_blank, records_nil]
    rfl
  | line s line rest hs ih =>
    rw [records_line hs]
    obtain ⟨hline, rfl | ⟨rfl, rfl⟩⟩ := getline_split hs
    · rw [List.append_assoc, List.cons_append, records_line (getline_append hline _), ih, List.append_assoc]
    · rw [records_line (getline_append hline _), records_nil, List.append_nil]

def dos (s : List Char) : List Char := s.flatMap fun c => if c = '\n' then ['\r', '\n'] else [c]

theorem dos_line (h : '\n' ∉ line) : dos line = line := by
  induction line with
  | nil => rfl
  | cons c line ih =>
    rw [List.mem_cons, not_or] at h
    rw [dos, List.flatMap_cons, if_neg (fun hc => h.1 hc.symm)]
    exact congrArg (c :: ·) (ih h.2)

theorem recordOf_cr (h : line.getLast? ≠ some '\r') :
    recordOf ulongBits (line ++ ['\r']) = recordOf ulongBits line := by
  have hstrip : stripCR (line ++ ['\r']) = stripCR line := by
    rw [stripCR, stripCR, if_neg h]
    simp
  unfold recordOf readLine
  rw [hstrip]

theorem records_dos (h : ∀ line ∈ linesOf s, line.getLast? ≠ some '\r') :
    records ulongBits (dos s) = records ulongBits s := by
  induction s using records_induction with
  | nil => rfl
  | line s line rest hs ih =>
    rw [linesOf_line hs] at h
    have hrest := ih fun l hl => h l (List.mem_cons_of_mem _ hl)
    have hcr := h line List.mem_cons_self
    rw [records_line hs]
    obtain ⟨hline, rfl | ⟨rfl, rfl⟩⟩ := getline_split hs
    · have hdos : dos (line ++ '\n' :: rest) = (line ++ ['\r']) ++ '\n' :: dos rest := by
        rw [dos, List.flatMap_append, ← dos, dos_line hline, List.flatMap_cons, if_pos rfl,
          List.append_assoc]
        rfl
      have hline' : '\n' ∉ line ++ ['\r'] := by simp [hline]
      rw [hdos, records_line (getline_append hline' _), recordOf_cr hcr, hrest]
    · rw [dos_line hline, records_line hs]

theorem lines_noCR (h : '\r' ∉ s) : ∀ line ∈ linesOf s, line.getLast? ≠ some '\r' := by
  induction s using records_induction with
  | nil => simp [linesOf_nil]
  | line s line rest hs ih =>
    intro l hl hcr
    rw [linesOf_line hs] at hl
    have hmem := List.mem_of_getLast? hcr
    obtain ⟨-, rfl | ⟨rfl, rfl⟩⟩ := getline_split hs
    · rw [List.mem_append, List.mem_cons, not_or, not_or] at h
      rcases List.mem_cons.mp hl with rfl | hl
      · exact h.1 hmem
      · exact ih h.2.2 l hl hcr
    · rw [linesOf_nil, List.mem_singleton] at hl
      exact h (hl ▸ hmem)

theorem joined_traces (ulongBits : ℕ) (parts : List (List Char × Bool))
    (hcr : ∀ p ∈ parts, p.2 = true → ∀ line ∈ linesOf p.1, line.getLast? ≠ some '\r') :
    (∀ p ∈ parts, Yields ulongBits ⟨p.1⟩ (records ulongBits p.1)) ∧
      Yields ulongBits ⟨List.intercalate ['\n'] (parts.map fun p => if p.2 then dos p.1 else p.1)⟩
        (parts.flatMap fun p => records ulongBits p.1) := by
  refine ⟨fun p _ => yields_records ulongBits p.1, ?_⟩
  suffices hrecords : records ulongBits
      (List.intercalate ['\n'] (parts.map fun p => if p.2 then dos p.1 else p.1)) =
        parts.flatMap fun p => records ulongBits p.1 by
    rw [← hrecords]
    exact yields_records ulongBits _
  have hpart : ∀ p ∈ parts, records ulongBits (if p.2 then dos p.1 else p.1) = records ulongBits p.1 := by
    intro p hp
    split_ifs with hdos
    · exact records_dos (hcr p hp hdos)
    · rfl
  clear hcr
  induction parts with
  | nil => exact records_nil
  | cons p parts ih =>
    have hp := hpart p List.mem_cons_self
    have hparts := ih fun q hq => hpart q (List.mem_cons_of_mem _ hq)
    cases parts with
    | nil =>
      rw [List.map_singleton, List.flatMap_singleton, ← hp]
      simp
    | cons q parts =>
      rw [List.flatMap_cons, ← hp, ← hparts, ← records_append]
      rfl

theorem joined_traces_pair :
    Yields 64 ⟨List.intercalate ['\n'] [dos ['L', ' ', '1', '\n', 'S', ' ', '2'], ['M', ' ', '3']]⟩
      (records 64 ['L', ' ', '1', '\n', 'S', ' ', '2'] ++ (records 64 ['M', ' ', '3'] ++ [])) := by
  apply (joined_traces 64 [(['L', ' ', '1', '\n', 'S', ' ', '2'], true), (['M', ' ', '3'], false)] ?_).2
  intro p hp
  simp only [List.mem_cons, List.not_mem_nil, or_false] at hp
  rcases hp with rfl | rfl
  · exact fun _ => lines_noCR (by simp)
  · exact fun hdos => absurd hdos Bool.false_ne_true

end CacheSim.TraceReader
