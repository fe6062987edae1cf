import CacheSim.Hierarchy
import CacheSim.Numerals

namespace CacheSim.CommandLine

open Numerals

inductive Level where
  | L1 | L2
  deriving DecidableEq

inductive Setting where
  | trace | size (l : Level) | block (l : Level) | assoc (l : Level) | repl (l : Level)
  | write (l : Level) | alloc (l : Level) | hit (l : Level) | memTime | addrBits
  deriving DecidableEq

inductive Flag where
  | classify3C | json | verbose
  deriving DecidableEq

inductive Opt where
  | setting (s : Setting) | flag (f : Flag) | help
  deriving DecidableEq

def Opt.ofArg : String → Option Opt
  | "--trace" => some (.setting .trace)
  | "--l1-size" => some (.setting (.size .L1))
  | "--l1-block" => some (.setting (.block .L1))
  | "--l1-assoc" => some (.setting (.assoc .L1))
  | "--l1-repl" => some (.setting (.repl .L1))
  | "--l1-write" => some (.setting (.write .L1))
  | "--l1-alloc" => some (.setting (.alloc .L1))
  | "--l2-size" => some (.setting (.size .L2))
  | "--l2-block" => some (.setting (.block .L2))
  | "--l2-assoc" => some (.setting (.assoc .L2))
  | "--l2-repl" => some (.setting (.repl .L2))
  | "--l2-write" => some (.setting (.write .L2))
  | "--l2-alloc" => some (.setting (.alloc .L2))
  | "--l1-hit" => some (.setting (.hit .L1))
  | "--l2-hit" => some (.setting (.hit .L2))
  | "--mem-time" => some (.setting .memTime)
  | "--addr-bits" => some (.setting .addrBits)
  | "--classify-3c" => some (.flag .classify3C)
  | "--json" => some (.flag .json)
  | "--verbose" => some (.flag .verbose)
  | "--help" => some .help
  | "-h" => some .help
  | _ => none

def parseRepl : String → Option ReplacementType
  | "lru" => some .LRU
  | "fifo" => some .FIFO
  | "random" => some .Random
  | _ => none

def parseWrite : String → Option WritePolicy
  | "back" => some .WriteBack
  | "through" => some .WriteThrough
  | _ => none

def parseAlloc : String → Option AllocPolicy
  | "allocate" => some .WriteAllocate
  | "no-allocate" => some .NoWriteAllocate
  | _ => none

def stoull (s : String) : Except NumberError ℕ := stoul 64 10 s.toList

/-- How `main` ends before it simulates: with a return code, what it printed to `cerr` and whether it
printed the usage; or in an exception that nothing catches; or in a division by zero. -/
inductive Stop where
  | exit (code : ℕ) (message : String) (usage : Bool)
  | uncaught (err : NumberError)
  | divisionByZero
  deriving DecidableEq

structure LevelArgs where
  cfg : CacheConfig
  assocStr : String := ""
  haveSize : Bool := false
  haveBlock : Bool := false

structure Options where
  tracePath : String := ""
  l1 : LevelArgs := { cfg := { name := "L1", hitTime := 1 } }
  l2 : LevelArgs := { cfg := { name := "L2", hitTime := 10 } }
  memTime : ℚ := 100
  anyL2 : Bool := false
  verbose : Bool := false
  jsonOut : Bool := false

def Options.update (o : Options) (l : Level) (f : LevelArgs → LevelArgs) : Options :=
  match l with
  | .L1 => { o with l1 := f o.l1 }
  | .L2 => { o with l2 := f o.l2, anyL2 := true }

def number {α : Type} (read : Except NumberError α) (use : α → Options) : Except Stop Options :=
  match read with
  | .error err => .error (.uncaught err)
  | .ok n => .ok (use n)

def badValue (flag got valid : String) : Stop :=
  .exit 2 ("error: " ++ flag ++ " must be " ++ valid ++ " (got '" ++ got ++ "')\n") false

def word {α : Type} (flag got valid : String) (parsed : Option α) (use : α → Options) :
    Except Stop Options :=
  match parsed with
  | none => .error (badValue flag got valid)
  | some x => .ok (use x)

/-- An option with its value. `stod` is the reader of the times. -/
def Options.set (stod : String → Except NumberError ℚ) (o : Options) (arg : String) (s : Setting)
    (v : String) : Except Stop Options :=
  match s with
  | .trace => .ok { o with tracePath := v }
  | .size l => number (stoull v) fun n =>
      o.update l fun a => { a with cfg.sizeBytes := UInt64.ofNat n, haveSize := true }
  | .block l => number (stoull v) fun n =>
      o.update l fun a => { a with cfg.blockSize := UInt64.ofNat n, haveBlock := true }
  | .assoc l => .ok (o.update l fun a => { a with assocStr := v })
  | .repl l => word arg v "lru, fifo or random" (parseRepl v) fun t =>
      o.update l fun a => { a with cfg.replacement := t }
  | .write l => word arg v "back or through" (parseWrite v) fun p =>
      o.update l fun a => { a with cfg.writePolicy := p }
  | .alloc l => word arg v "allocate or no-allocate" (parseAlloc v) fun p =>
      o.update l fun a => { a with cfg.allocPolicy := p }
  | .hit l => number (stod v) fun x => o.update l fun a => { a with cfg.hitTime := x }
  | .memTime => number (stod v) fun x => { o with memTime := x }
  | .addrBits => number (stoull v) fun n =>
      { o with l1.cfg.addrWidth := UInt64.ofNat n, l2.cfg.addrWidth := UInt64.ofNat n }

def Options.raise (o : Options) : Flag → Options
  | .classify3C => { o with l1.cfg.classify3C := true, l2.cfg.classify3C := true }
  | .json => { o with jsonOut := true }
  | .verbose => { o with verbose := true }

def parseArgs (stod : String → Except NumberError ℚ) (o : Options) :
    List String → Except Stop Options
  | [] => .ok o
  | arg :: args =>
    match Opt.ofArg arg with
    | none => .error (.exit 2 ("error: unknown option '" ++ arg ++ "'\n") true)
    | some .help => .error (.exit 0 "" true)
    | some (.flag f) => parseArgs stod (o.raise f) args
    | some (.setting s) =>
      match args with
      | [] => .error (.exit 2 ("error: " ++ arg ++ " requires a value\n") false)
      | v :: args =>
        match o.set stod arg s v with
        | .error stop => .error stop
        | .ok o => parseArgs stod o args

def resolveAssoc (s : String) (cfg : CacheConfig) : Except Stop UInt64 :=
  if s = "full" then
    if cfg.blockSize = 0 then .error .divisionByZero else .ok (cfg.sizeBytes / cfg.blockSize)
  else
    match stoull s with
    | .error err => .error (.uncaught err)
    | .ok n => .ok (UInt64.ofNat n)

def LevelArgs.resolve (a : LevelArgs) : Except Stop CacheConfig :=
  if a.assocStr = "" then .ok a.cfg
  else
    match resolveAssoc a.assocStr a.cfg with
    | .error stop => .error stop
    | .ok n => .ok { a.cfg with associativity := n }

def construct (order : HashOrder UInt64 ℕ) (cfgs : List CacheConfig) (memTime : ℚ) :
    Except Stop (CacheHierarchy BuiltinPolicy) :=
  match CacheHierarchy.new order builtinPolicies cfgs memTime with
  | .error (.invalidArgument what) =>
    .error (.exit 2 ("error: bad cache geometry: " ++ what ++ "\n") false)
  | .error .divisionByZero => .error .divisionByZero
  | .ok h => .ok h

/-- `main` from the end of the loop to the simulation. `opens` says which files can be opened. -/
def Options.build (order : HashOrder UInt64 ℕ) (opens : String → Bool) (o : Options) :
    Except Stop (CacheHierarchy BuiltinPolicy) :=
  if o.tracePath = "" ∨ o.l1.haveSize = false ∨ o.l1.haveBlock = false then
    .error (.exit 2 "error: --trace, --l1-size and --l1-block are required\n" true)
  else if o.anyL2 = true ∧ (o.l2.haveSize = false ∨ o.l2.haveBlock = false) then
    .error (.exit 2
      "error: L2 flags given but --l2-size and --l2-block are required to enable an L2\n" false)
  else
    match o.l1.resolve with
    | .error stop => .error stop
    | .ok l1 =>
      match o.l2.resolve with
      | .error stop => .error stop
      | .ok l2 =>
        if opens o.tracePath = false then
          .error (.exit 1 ("error: cannot open trace file '" ++ o.tracePath ++ "'\n") false)
        else construct order (if o.l2.haveSize then [l1, l2] else [l1]) o.memTime

def configure (order : HashOrder UInt64 ℕ) (stod : String → Except NumberError ℚ)
    (opens : String → Bool) (args : List String) :
    Except Stop (Options × CacheHierarchy BuiltinPolicy) :=
  match parseArgs stod {} args with
  | .error stop => .error stop
  | .ok o =>
    match o.build order opens with
    | .error stop => .error stop
    | .ok h => .ok (o, h)

end CacheSim.CommandLine
