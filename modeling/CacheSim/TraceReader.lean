import CacheSim.Numerals

namespace CacheSim

open Numerals

inductive Op where
  | Read | Write | Modify | Instr
  deriving DecidableEq, Repr

structure Access where
  op : Op
  addr : UInt64
  size : UInt32
  deriving DecidableEq, Repr

def isBlank (c : Char) : Bool := c = ' ' || c = '\t'

def getline : List Char → Option (List Char × List Char)
  | [] => none
  | c :: s => some ((c :: s).takeWhile (fun x => x ≠ '\n'), ((c :: s).dropWhile (fun x => x ≠ '\n')).tail)

structure TraceReader where
  in_ : List Char

namespace TraceReader

def opOf : Char → Option Op
  | 'L' => some .Read
  | 'S' => some .Write
  | 'M' => some .Modify
  | 'I' => some .Instr
  | 'R' => some .Read
  | 'W' => some .Write
  | _ => none

def stripCR (line : List Char) : List Char :=
  if line.getLast? = some '\r' then line.dropLast else line

def opAndRest : List Char → Option (Op × List Char)
  | 'I' :: rest => some (.Instr, rest)
  | line =>
    match line.dropWhile isBlank with
    | [] => none
    | c :: rest => (opOf c).map fun op => (op, rest)

def trim (s : List Char) : List Char := (s.dropWhile isBlank).rdropWhile isBlank

/-- The body of the loop of `next` for one line: whether it returns, and the record it leaves in
`out`. `ulongBits` is the width of `unsigned long`. -/
def readLine (ulongBits : ℕ) (line : List Char) (out : Access) : Bool × Access :=
  match opAndRest (stripCR line) with
  | none => (false, out)
  | some (op, rest) =>
    let addrStr := trim (rest.takeWhile fun c => c ≠ ',')
    let sizeStr := (rest.dropWhile fun c => c ≠ ',').tail
    if addrStr = [] then (false, out)
    else
      match stoul 64 16 addrStr with
      | .error _ => (false, out)
      | .ok addr =>
        let out := { out with addr := UInt64.ofNat addr }
        if sizeStr = [] then (true, { out with size := 1, op := op })
        else
          match stoul ulongBits 10 sizeStr with
          | .error _ => (false, out)
          | .ok size => (true, { out with size := UInt32.ofNat size, op := op })

theorem getline_length {s line rest : List Char} (h : getline s = some (line, rest)) :
    rest.length < s.length := by
  cases s with
  | nil => cases h
  | cons c s =>
    obtain ⟨-, rfl⟩ := Prod.mk.inj (Option.some.inj h)
    have hle := (List.dropWhile_sublist (fun x => decide (x ≠ '\n')) (l := c :: s)).length_le
    rw [List.length_tail]
    simp only [List.length_cons] at hle ⊢
    omega

def next (ulongBits : ℕ) (reader : TraceReader) (out : Access) : Bool × Access × TraceReader :=
  match h : getline reader.in_ with
  | none => (false, out, reader)
  | some (line, rest) =>
    have := getline_length h
    let (done, out) := readLine ulongBits line out
    if done then (true, out, ⟨rest⟩) else next ulongBits ⟨rest⟩ out
termination_by reader.in_.length

theorem next_eof (ulongBits : ℕ) (out : Access) : next ulongBits ⟨[]⟩ out = (false, out, ⟨[]⟩) := by
  rw [next]
  rfl

theorem next_line (ulongBits : ℕ) {s line rest : List Char} (h : getline s = some (line, rest))
    (out : Access) :
    next ulongBits ⟨s⟩ out =
      if (readLine ulongBits line out).1 then (true, (readLine ulongBits line out).2, ⟨rest⟩)
      else next ulongBits ⟨rest⟩ (readLine ulongBits line out).2 := by
  rw [next]
  split
  · next hnone =>
    rw [h] at hnone
    cases hnone
  · next line' rest' hsome =>
    rw [h] at hsome
    obtain ⟨rfl, rfl⟩ := Prod.mk.inj (Option.some.inj hsome)
    rfl

theorem getline_append {line : List Char} (hline : '\n' ∉ line) (rest : List Char) :
    getline (line ++ '\n' :: rest) = some (line, rest) := by
  have hrun : ∀ c ∈ line, decide (c ≠ '\n') = true := by
    intro c hc
    exact decide_eq_true fun h => hline (h ▸ hc)
  have hstop : ∀ c ∈ ('\n' :: rest).head?, decide (c ≠ '\n') = false := by
    intro c hc
    obtain rfl := Option.some.inj hc
    rfl
  have hget : getline (line ++ '\n' :: rest) =
      some ((line ++ '\n' :: rest).takeWhile (fun x => decide (x ≠ '\n')),
        ((line ++ '\n' :: rest).dropWhile (fun x => decide (x ≠ '\n'))).tail) := by
    cases line <;> rfl
  rw [hget, takeWhile_run hrun hstop, dropWhile_run hrun hstop]
  rfl

end TraceReader

end CacheSim
