import CacheSim.JsonRefusal
import CacheSim.ReportReading

namespace CacheSim.Experiment

open Numerals JsonText TraceReader CommandLine

/-- The keys in the order of the dictionary; `none` is a boolean flag, and a value is as `str` writes it. -/
abbrev Settings := List (String × Option String)

def BASE : Settings :=
  [("l1-size", some "8192"), ("l1-block", some "64"), ("l1-assoc", some "4"), ("l1-repl", some "lru"),
    ("l1-write", some "back"), ("l1-alloc", some "allocate")]

def Settings.set (cfg : Settings) (x : String × Option String) : Settings :=
  if cfg.any (fun y => y.1 = x.1) then cfg.map fun y => if y.1 = x.1 then x else y else cfg ++ [x]

def Settings.update (cfg overrides : Settings) : Settings := overrides.foldl Settings.set cfg

def arguments (cfg : Settings) : List String :=
  cfg.flatMap fun x =>
    match x.2 with
    | none => ["--" ++ x.1]
    | some v => ["--" ++ x.1, v]

def command (trace : String) (cfg : Settings) : List String := "--trace" :: trace :: "--json" :: arguments cfg

def universalNewlines : List Char → List Char
  | [] => []
  | '\r' :: '\n' :: cs => '\n' :: universalNewlines cs
  | '\r' :: cs => '\n' :: universalNewlines cs
  | c :: cs => c :: universalNewlines cs

def readText (bytes : List UInt8) : Option (List Char) :=
  bytes.toByteArray.utf8Decode?.map fun cs => universalNewlines cs.toList

inductive Result where
  | object (x : Json)
  | exited
  | raised

def Result.ofOutcome : Outcome → Result
  | .exit code out _ =>
    match readText out with
    | none => .raised
    | some text =>
      if code ≠ 0 then .exited
      else
        match readDocument text with
        | none => .raised
        | some x => .object x
  | .uncaught _ | .divisionByZero => .exited

/-- The arguments of a process have no null character in them. A double that is not finite is a number
that `showDouble` shows as `nan` or `inf`. -/
def run (order : HashOrder UInt64 ℕ) (stod : String → Except NumberError ℚ) (showDouble showFixed : ℚ → String)
    (ulongBits : ℕ) (files : String → Option (List Char)) (e : RandStream) (a : Access) (prog trace : String)
    (overrides : Settings) : Result :=
  let cmd := command trace (BASE.update overrides)
  if ∃ arg ∈ cmd, '\x00' ∈ arg.toList then .raised
  else .ofOutcome (main order stod showDouble showFixed ulongBits files e a prog cmd)

end CacheSim.Experiment
