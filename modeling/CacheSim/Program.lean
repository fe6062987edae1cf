import CacheSim.CommandLine
import CacheSim.Report
import CacheSim.Structure
import CacheSim.Tally
import CacheSim.TraceFile

namespace CacheSim

open Service JsonText TraceReader

def hex (n : UInt64) : String := String.ofList (Nat.toDigits 16 n.toNat)

def echo (geo : Geometry) (fed : ℕ) (opc : Char) (addr : UInt64) (hit : Bool) : String :=
  let d := geo.decode addr
  "#" ++ toString fed ++ " " ++ String.ofList [opc] ++
    " addr=0x" ++ hex addr ++
    " blk=0x" ++ hex d.blockAddr ++
    " set=" ++ toString d.setIndex.toNat ++
    " tag=0x" ++ hex d.tag ++
    " -> " ++ (if hit then "HIT" else "MISS") ++ "\n"

/-- `showFixed` is how the stream writes a double with two decimals. -/
def Cache.report (showFixed : ℚ → String) {ρ : ℕ → ℕ → Type} {geo : Geometry} (c : Cache ρ geo) : String :=
  let org := if geo.cfg.associativity = 1 then "direct-mapped"
    else if geo.numSets = 1 then "fully-associative" else "set-associative"
  let wp := if geo.cfg.writePolicy = .WriteBack then "back" else "through"
  let ap := if geo.cfg.allocPolicy = .WriteAllocate then "allocate" else "no-allocate"
  geo.cfg.name ++ " (" ++ org ++
    ", size=" ++ toString geo.cfg.sizeBytes.toNat ++ "B" ++
    ", block=" ++ toString geo.cfg.blockSize.toNat ++ "B" ++
    ", sets=" ++ toString geo.numSets.toNat ++
    ", assoc=" ++ toString geo.cfg.associativity.toNat ++
    ", repl=" ++ replName geo.cfg.replacement ++
    ", write=" ++ wp ++ ", alloc=" ++ ap ++ ")\n" ++
    "  bits: offset=" ++ toString geo.offsetBits.toNat ++
    " index=" ++ toString geo.indexBits.toNat ++
    " tag=" ++ toString geo.tagBits.toNat ++ "\n" ++
    "  accesses=" ++ toString c.stats.accesses ++
    " hits=" ++ toString c.stats.hits ++
    " misses=" ++ toString c.stats.misses ++
    " (reads=" ++ toString c.stats.reads ++
    " writes=" ++ toString c.stats.writes ++
    " writebacks=" ++ toString c.stats.writebacks ++ ")" ++
    "  hitRate=" ++ showFixed (c.stats.hitRate * 100) ++ "%" ++
    " missRate=" ++ showFixed (c.stats.missRate * 100) ++ "%\n" ++
    if geo.cfg.classify3C then
      "  3C: compulsory=" ++ toString c.stats.compulsory ++
        " capacity=" ++ toString c.stats.capacity ++
        " conflict=" ++ toString c.stats.conflict ++ "\n"
    else ""

def Memory.report (m : Memory) : String :=
  "Memory: reads=" ++ toString m.reads ++ " writes=" ++ toString m.writes ++ "\n"

variable {ε : Type} {ρ : ℕ → ℕ → Type}

def CacheHierarchy.reportAll (showFixed : ℚ → String) (h : CacheHierarchy ρ) : String :=
  let total := h.levels.1.stats.accesses
  String.join (h.levels.caches.map fun c =>
    let globalRate : ℚ := if total = 0 then 0 else c.2.stats.misses / total
    c.2.report showFixed ++
      "  global missRate=" ++ showFixed (globalRate * 100) ++
      "% (misses / " ++ toString total ++ " CPU accesses)\n") ++
    h.levels.memory.report ++
    "AMAT = " ++ showFixed h.computeAMAT ++ " cycles (mem=" ++ showFixed h.memTime ++
    String.join (h.levels.caches.map fun c =>
      ", " ++ c.1.cfg.name ++ "-hit=" ++ showFixed c.1.cfg.hitTime) ++
    ")\n"

/-- A hierarchy while `main` feeds it: `fed` counts the lines of the echo, which are in `vlog`. -/
structure Session (ρ : ℕ → ℕ → Type) where
  hier : CacheHierarchy ρ
  fed : ℕ := 0
  vlog : String := ""

namespace Session

variable [ReplacementPolicy ε ρ]

def one (s : Session ρ) (e : ε) (verbose : Bool) (addr : UInt64) (isWrite : Bool) (opc : Char) :
    Session ρ × ε :=
  let (hit, hier, e) := s.hier.access e addr isWrite
  if verbose then
    let fed := s.fed + 1
    ({ hier := hier, fed := fed, vlog := s.vlog ++ echo hier.l1 fed opc addr hit }, e)
  else ({ s with hier := hier }, e)

def feed (s : Session ρ) (e : ε) (verbose : Bool) (a : Access) : Session ρ × ε :=
  match a.op with
  | .Read => s.one e verbose a.addr false 'R'
  | .Write => s.one e verbose a.addr true 'W'
  | .Modify =>
    let (s, e) := s.one e verbose a.addr false 'R'
    s.one e verbose a.addr true 'W'
  | .Instr => (s, e)

end Session

theorem TraceReader.next_length {ulongBits : ℕ} {reader reader' : TraceReader} {out a : Access}
    (h : next ulongBits reader out = (true, a, reader')) : reader'.in_.length < reader.in_.length := by
  induction reader, out using next.induct ulongBits with
  | case1 reader out hnone =>
    rw [next] at h
    split at h
    · cases h
    · next hsome =>
      rw [hnone] at hsome
      cases hsome
  | case2 reader out line rest hs hlt out' hread =>
    rw [next_line ulongBits hs, if_pos (by rw [hread])] at h
    simp only [Prod.mk.injEq, true_and] at h
    rw [← h.2]
    exact hlt
  | case3 reader out line rest hs hlt done out' hread hdone ih =>
    rw [next_line ulongBits hs, if_neg (by rw [hread]; exact hdone), hread] at h
    exact (ih h).trans hlt

def Session.feedFile [ReplacementPolicy ε ρ] (ulongBits : ℕ) (verbose : Bool) (s : Session ρ) (e : ε)
    (reader : TraceReader) (a : Access) : Session ρ × ε :=
  match h : reader.next ulongBits a with
  | (false, _, _) => (s, e)
  | (true, a, reader') =>
    have := next_length h
    let (s, e) := s.feed e verbose a
    s.feedFile ulongBits verbose e reader' a
termination_by reader.in_.length

namespace CommandLine

open Numerals

def usage (prog : String) : String :=
  "Cache Hierarchy Simulator (phase 4: L1 -> L2 -> memory + AMAT)\n" ++
  "Usage: " ++ prog ++ " --trace <file> --l1-size <bytes> --l1-block <bytes>\n" ++
  "               [--l1-assoc N|full] [--l1-repl lru|fifo|random]\n" ++
  "               [--l1-write back|through] [--l1-alloc allocate|no-allocate]\n" ++
  "               [--l2-size <bytes> --l2-block <bytes>] [--l2-assoc N|full]\n" ++
  "               [--l2-repl P] [--l2-write W] [--l2-alloc A]\n" ++
  "               [--l1-hit C] [--l2-hit C] [--mem-time C]\n" ++
  "               [--classify-3c] [--addr-bits N] [--verbose]\n" ++
  "  --trace <file>      memory-access trace (lackey or R/W form)  [required]\n" ++
  "  --l1-size/-block    L1 capacity / block size in bytes         [required]\n" ++
  "  --l1-assoc N|full   L1 ways per set (default 1 = direct-mapped)\n" ++
  "  --l1-repl P         lru (default) | fifo | random\n" ++
  "  --l1-write W        back (default) | through\n" ++
  "  --l1-alloc A        allocate (default) | no-allocate\n" ++
  "  --l2-size/-block    add an L2 with this capacity / block size\n" ++
  "  --l2-assoc/repl/... L2 knobs, same values as the L1 forms\n" ++
  "  --l1-hit C          L1 hit time in cycles   (default 1)\n" ++
  "  --l2-hit C          L2 hit time in cycles   (default 10)\n" ++
  "  --mem-time C        memory access in cycles (default 100)\n" ++
  "  --classify-3c       tag every miss compulsory/capacity/conflict\n" ++
  "  --json              print one machine-readable JSON stats object\n" ++
  "                      instead of the human report (for scripts/sweep.py)\n" ++
  "  --addr-bits N       address width in bits (default 64)\n" ++
  "  --verbose           echo every CPU access with its L1 decode\n" ++
  "  --help, -h          show this message\n"

inductive Outcome where
  | exit (code : ℕ) (out : List UInt8) (err : String)
  | uncaught (err : NumberError)
  | divisionByZero
  deriving DecidableEq

def Stop.outcome (prog : String) : Stop → Outcome
  | .exit code message printUsage => .exit code (if printUsage then utf8 (usage prog).toList else []) message
  | .uncaught err => .uncaught err
  | .divisionByZero => .divisionByZero

def finish (showDouble showFixed : ℚ → String) (o : Options) (s : Session BuiltinPolicy) : Outcome :=
  let report := if o.jsonOut then s.hier.reportJson showDouble (utf8 o.tracePath.toList)
    else utf8 (s.hier.reportAll showFixed).toList
  let out := utf8 s.vlog.toList ++ report
  if s.hier.checkInvariants then
    .exit 0 (if o.jsonOut then out else out ++ utf8 "invariants: OK\n".toList) ""
  else
    .exit 1 out (String.join (s.hier.levels.caches.flatMap fun c => c.2.violations) ++
      "error: invariants violated — simulation results are unreliable\n")

/-- `files` has the contents of the files that can be opened, `e` the outputs of the generator, and `a`
is the `Access` that `main` leaves without a value. -/
def main (order : HashOrder UInt64 ℕ) (stod : String → Except NumberError ℚ)
    (showDouble showFixed : ℚ → String) (ulongBits : ℕ) (files : String → Option (List Char))
    (e : RandStream) (a : Access) (prog : String) (args : List String) : Outcome :=
  match configure order stod (fun path => (files path).isSome) args with
  | .error stop => stop.outcome prog
  | .ok (o, h) =>
    let reader : TraceReader := ⟨(files o.tracePath).getD []⟩
    finish showDouble showFixed o (Session.feedFile ulongBits o.verbose ⟨h, 0, ""⟩ e reader a).1

end CommandLine

def echoes (geo : Geometry) : ℕ → List (Request × Bool) → String
  | _, [] => ""
  | n, (r, hit) :: log =>
    echo geo (n + 1) (if r.isWrite then 'W' else 'R') r.addr hit ++ echoes geo (n + 1) log

theorem echoes_append (geo : Geometry) (n : ℕ) (log log' : List (Request × Bool)) :
    echoes geo n (log ++ log') = echoes geo n log ++ echoes geo (n + log.length) log' := by
  induction log generalizing n with
  | nil => simp [echoes]
  | cons x log ih =>
    obtain ⟨r, hit⟩ := x
    rw [List.cons_append, echoes, echoes, ih, String.append_assoc, List.length_cons]
    congr 3
    omega

namespace Session

variable [ReplacementPolicy ε ρ]

def served (s : Session ρ) (verbose : Bool) (levels : Chain ρ Memory (s.hier.l1 :: s.hier.lower))
    (log : List (Request × Bool)) : Session ρ where
  hier := { s.hier with levels := levels }
  fed := if verbose then s.fed + log.length else s.fed
  vlog := if verbose then s.vlog ++ echoes s.hier.l1 s.fed log else s.vlog

theorem one_eq (s : Session ρ) (e : ε) (verbose : Bool) (r : Request) :
    s.one e verbose r.addr r.isWrite (if r.isWrite then 'W' else 'R') =
      (s.served verbose (serve s.hier.levels e r).2.1 [(r, (serve s.hier.levels e r).1)],
        (serve s.hier.levels e r).2.2) := by
  cases verbose with
  | false => rfl
  | true => simp [one, served, echoes, CacheHierarchy.access, MemoryLevel.access]

omit [ReplacementPolicy ε ρ] in
theorem served_served (s : Session ρ) (verbose : Bool) {levels levels' : Chain ρ Memory (s.hier.l1 :: s.hier.lower)}
    {log log' : List (Request × Bool)} :
    (s.served verbose levels log).served verbose levels' log' = s.served verbose levels' (log ++ log') := by
  cases verbose with
  | false => rfl
  | true =>
    simp only [served, if_pos, echoes_append, List.length_append, String.append_assoc, Nat.add_assoc]

def serveAll (s : Session ρ) (e : ε) (verbose : Bool) (reqs : List Request) : Session ρ × ε :=
  let out := run s.hier.levels e reqs
  (s.served verbose out.2.1 (reqs.zip out.1), out.2.2)

theorem serveAll_append (s : Session ρ) (e : ε) (verbose : Bool) (reqs reqs' : List Request) :
    s.serveAll e verbose (reqs ++ reqs') =
      (s.serveAll e verbose reqs).1.serveAll (s.serveAll e verbose reqs).2 verbose reqs' := by
  simp only [serveAll, run_append]
  rw [List.zip_append (run_length _ _ _).symm]
  apply Prod.ext
  · exact (s.served_served verbose).symm
  · rfl

theorem feed_eq (s : Session ρ) (e : ε) (verbose : Bool) (a : Access) :
    s.feed e verbose a = s.serveAll e verbose a.expand := by
  obtain ⟨op, addr, size⟩ := a
  cases op with
  | Read => exact s.one_eq e verbose ⟨addr, false⟩
  | Write => exact s.one_eq e verbose ⟨addr, true⟩
  | Modify =>
    have happ := s.serveAll_append e verbose [⟨addr, false⟩] [⟨addr, true⟩]
    refine Eq.trans ?_ happ.symm
    have hload := s.one_eq e verbose ⟨addr, false⟩
    simp only [Bool.false_eq_true, if_false] at hload
    simp only [feed, hload]
    exact one_eq _ _ verbose ⟨addr, true⟩
  | Instr =>
    cases verbose with
    | false => rfl
    | true => simp [feed, serveAll, served, Access.expand, run, echoes]

theorem feedFile_eq {ulongBits : ℕ} (verbose : Bool) {reader : TraceReader} {trace : List Access}
    (h : Yields ulongBits reader trace) (s : Session ρ) (e : ε) (a : Access) :
    s.feedFile ulongBits verbose e reader a = s.serveAll e verbose (trace.flatMap Access.expand) := by
  induction trace generalizing reader s e a with
  | nil =>
    rw [feedFile]
    split
    · cases verbose with
      | false => rfl
      | true => simp [serveAll, served, run, echoes]
    · next hnext =>
      have hfalse := h a
      rw [hnext] at hfalse
      cases hfalse
  | cons b trace ih =>
    obtain ⟨reader', hnext, hthen⟩ := h
    rw [feedFile]
    split
    · next hfalse =>
      rw [hnext] at hfalse
      cases hfalse
    · next a' reader'' htrue =>
      rw [hnext] at htrue
      simp only [Prod.mk.injEq, true_and] at htrue
      obtain ⟨rfl, rfl⟩ := htrue
      rw [List.flatMap_cons, serveAll_append, ← feed_eq]
      exact ih hthen _ _ _

end Session

namespace CommandLine

variable {order : HashOrder UInt64 ℕ} {stod : String → Except Numerals.NumberError ℚ}
  {opens : String → Bool} {args : List String}

def Stop.Told (opens : String → Bool) (asked : Prop) : Stop → Prop
  | .exit code message printUsage => (code = 0 ∧ message = "" ∧ asked) ∨ (code = 2 ∧ message ≠ "") ∨
      (code = 1 ∧ printUsage = false ∧ ∃ path, opens path = false ∧
        message = "error: cannot open trace file '" ++ path ++ "'\n")
  | _ => True

variable {cfgs : List CacheConfig} {memTime : ℚ} {o o' : Options} {h : CacheHierarchy BuiltinPolicy}
  {stop : Stop} {asked : Prop}

theorem construct_ok (hok : construct order cfgs memTime = .ok h) :
    h = CacheHierarchy.fresh order builtinPolicies h.l1 h.lower h.memTime := by
  unfold construct at hok
  split at hok
  · cases hok
  · cases hok
  · next hnew =>
    obtain rfl := Except.ok.inj hok
    have hfresh := (CacheHierarchy.new_ok hnew).2
    have htime := congrArg CacheHierarchy.memTime hfresh
    rw [htime]
    exact hfresh

theorem construct_error (herr : construct order cfgs memTime = .error stop) : stop.Told opens asked := by
  unfold construct at herr
  split at herr
  · obtain rfl := Except.error.inj herr
    exact .inr (.inl ⟨rfl, by simp⟩)
  · obtain rfl := Except.error.inj herr
    trivial
  · cases herr

theorem resolve_told {a : LevelArgs} (herr : a.resolve = .error stop) : stop.Told opens asked := by
  unfold LevelArgs.resolve resolveAssoc at herr
  split_ifs at herr
  · obtain rfl := Except.error.inj herr
    trivial
  · cases hn : stoull a.assocStr with
    | error err =>
      rw [hn] at herr
      obtain rfl := Except.error.inj herr
      trivial
    | ok n =>
      rw [hn] at herr
      cases herr

theorem build_ok (hok : o.build order opens = .ok h) :
    h = CacheHierarchy.fresh order builtinPolicies h.l1 h.lower h.memTime := by
  unfold Options.build at hok
  split at hok
  · cases hok
  split at hok
  · cases hok
  split at hok
  · cases hok
  split at hok
  · cases hok
  split at hok
  · cases hok
  exact construct_ok hok

theorem build_told (herr : o.build order opens = .error stop) : stop.Told opens asked := by
  unfold Options.build at herr
  split at herr
  · obtain rfl := Except.error.inj herr
    exact .inr (.inl ⟨rfl, by simp⟩)
  split at herr
  · obtain rfl := Except.error.inj herr
    exact .inr (.inl ⟨rfl, by simp⟩)
  split at herr
  · next hl1 =>
    obtain rfl := Except.error.inj herr
    exact resolve_told hl1
  split at herr
  · next hl2 =>
    obtain rfl := Except.error.inj herr
    exact resolve_told hl2
  split at herr
  · next hclosed =>
    obtain rfl := Except.error.inj herr
    exact .inr (.inr ⟨rfl, rfl, _, hclosed, rfl⟩)
  · exact construct_error herr

theorem set_told {arg v : String} {s : Setting} (herr : o.set stod arg s v = .error stop) :
    stop.Told opens asked := by
  have hnumber : ∀ {α : Type} {read : Except Numerals.NumberError α} {use : α → Options},
      number read use = .error stop → stop.Told opens asked := by
    intro α read use h
    cases read with
    | error err =>
      obtain rfl := Except.error.inj h
      trivial
    | ok n => cases h
  have hword : ∀ {α : Type} {got valid : String} {parsed : Option α} {use : α → Options},
      word arg got valid parsed use = .error stop → stop.Told opens asked := by
    intro α got valid parsed use h
    cases parsed with
    | none =>
      obtain rfl := Except.error.inj h
      exact .inr (.inl ⟨rfl, by simp⟩)
    | some x => cases h
  cases s with
  | trace | assoc l => cases herr
  | size l | block l | hit l | memTime | addrBits => exact hnumber herr
  | repl l | write l | alloc l => exact hword herr

theorem parseArgs_told (hasked : ∀ arg ∈ args, Opt.ofArg arg = some .help → asked)
    (herr : parseArgs stod o args = .error stop) : stop.Told opens asked := by
  fun_induction parseArgs stod o args with
  | case1 o => cases herr
  | case2 o arg args hopt =>
    obtain rfl := Except.error.inj herr
    exact .inr (.inl ⟨rfl, by simp⟩)
  | case3 o arg args hopt =>
    obtain rfl := Except.error.inj herr
    exact .inl ⟨rfl, rfl, hasked arg List.mem_cons_self hopt⟩
  | case4 o arg args f hopt ih => exact ih (fun arg harg => hasked arg (List.mem_cons_of_mem _ harg)) herr
  | case5 o arg s hopt =>
    obtain rfl := Except.error.inj herr
    exact .inr (.inl ⟨rfl, by simp⟩)
  | case6 o arg s hopt v args stop' hset => exact set_told (hset.trans herr)
  | case7 o arg s hopt v args o₁ hset ih =>
    exact ih (fun arg harg => hasked arg (List.mem_cons_of_mem _ (List.mem_cons_of_mem _ harg))) herr

theorem configure_ok (hok : configure order stod opens args = .ok (o, h)) :
    h = CacheHierarchy.fresh order builtinPolicies h.l1 h.lower h.memTime := by
  unfold configure at hok
  split at hok
  · cases hok
  split at hok
  · cases hok
  · next hbuild =>
    obtain ⟨rfl, rfl⟩ := Prod.mk.inj (Except.ok.inj hok)
    exact build_ok hbuild

theorem configure_told (hasked : ∀ arg ∈ args, Opt.ofArg arg = some .help → asked)
    (herr : configure order stod opens args = .error stop) : stop.Told opens asked := by
  unfold configure at herr
  split at herr
  · next stop' hparse =>
    obtain rfl := Except.error.inj herr
    exact parseArgs_told hasked hparse
  split at herr
  · next stop' hbuild =>
    obtain rfl := Except.error.inj herr
    exact build_told hbuild
  · cases herr

variable {showDouble showFixed : ℚ → String} {ulongBits : ℕ} {files : String → Option (List Char)}
  {e : RandStream} {a : Access} {prog : String}

def printed (showDouble showFixed : ℚ → String) (o : Options) (h : CacheHierarchy BuiltinPolicy)
    (log : List (Request × Bool)) : List UInt8 :=
  utf8 (if o.verbose then echoes h.l1 0 log else "").toList ++
    if o.jsonOut then h.reportJson showDouble (utf8 o.tracePath.toList)
    else utf8 (h.reportAll showFixed ++ "invariants: OK\n").toList

theorem finish_ok {s : Session BuiltinPolicy} (hcheck : s.hier.checkInvariants = true) :
    finish showDouble showFixed o s = .exit 0 (utf8 s.vlog.toList ++
      if o.jsonOut then s.hier.reportJson showDouble (utf8 o.tracePath.toList)
      else utf8 (s.hier.reportAll showFixed ++ "invariants: OK\n").toList) "" := by
  rw [finish, if_pos hcheck]
  by_cases hjson : o.jsonOut = true
  · simp only [if_pos hjson]
  · simp only [if_neg hjson, String.toList_append, utf8_append, List.append_assoc]

theorem levels_fresh (hok : configure order stod opens args = .ok (o, h)) :
    h.levels = Chain.fresh order builtinPolicies ({} : Memory) (h.l1 :: h.lower) := by
  have hfresh := configure_ok hok
  generalize h.memTime = memTime at hfresh
  rw [hfresh]
  rfl

theorem simulated_checkInvariants (hok : configure order stod opens args = .ok (o, h)) (e : RandStream)
    (reqs : List Request) :
    CacheHierarchy.checkInvariants { h with levels := (run h.levels e reqs).2.1 } = true := by
  rw [CacheHierarchy.checkInvariants, List.all_eq_true]
  intro c hc
  apply Cache.WellFormed.checkInvariants
  revert c
  rw [levels_fresh hok]
  exact CacheHierarchy.levels_wellFormed order builtinPolicies (h.l1 :: h.lower) ({} : Memory) e reqs

theorem main_ok (hok : configure order stod (fun path => (files path).isSome) args = .ok (o, h)) :
    let reqs := (records ulongBits ((files o.tracePath).getD [])).flatMap Access.expand
    let out := run h.levels e reqs
    main order stod showDouble showFixed ulongBits files e a prog args =
      .exit 0 (printed showDouble showFixed o { h with levels := out.2.1 } (reqs.zip out.1)) "" := by
  intro reqs out
  have hfeed : Session.feedFile ulongBits o.verbose ⟨h, 0, ""⟩ e ⟨(files o.tracePath).getD []⟩ a =
      Session.serveAll ⟨h, 0, ""⟩ e o.verbose reqs :=
    Session.feedFile_eq o.verbose (yields_records ulongBits _) _ e a
  have hvlog : (Session.serveAll ⟨h, 0, ""⟩ e o.verbose reqs).1.vlog =
      if o.verbose then echoes h.l1 0 (reqs.zip out.1) else "" := by
    cases o.verbose with
    | false => rfl
    | true => exact String.empty_append
  rw [main, hok]
  dsimp only
  have hcheck : (Session.serveAll ⟨h, 0, ""⟩ e o.verbose reqs).1.hier.checkInvariants = true :=
    simulated_checkInvariants hok e reqs
  rw [hfeed, finish_ok hcheck, hvlog]
  rfl

theorem main_accepted (order : HashOrder UInt64 ℕ) (stod : String → Except Numerals.NumberError ℚ)
    (showDouble showFixed : ℚ → String) (ulongBits : ℕ) (files : String → Option (List Char))
    (e : RandStream) (a : Access) (prog : String) (args : List String) (o : Options)
    (h : CacheHierarchy BuiltinPolicy)
    (hok : configure order stod (fun path => (files path).isSome) args = .ok (o, h)) :
    let trace := records ulongBits ((files o.tracePath).getD [])
    let reqs := trace.flatMap Access.expand
    let log := reqs.zip (run h.levels e reqs).1
    let h' := (h.feedAll e trace).1
    log.map Prod.fst = reqs ∧ h'.levels.1.stats.Counts log ∧
      main order stod showDouble showFixed ulongBits files e a prog args =
        .exit 0 (printed showDouble showFixed o h' log) "" := by
  intro trace reqs log h'
  have hh' : h' = { h with levels := (run h.levels e reqs).2.1 } :=
    congrArg Prod.fst (h.feedAll_eq e trace)
  refine ⟨?_, ?_, ?_⟩
  · exact List.map_fst_zip (run_length h.levels e reqs).ge
  · rw [hh']
    simp only [log, levels_fresh hok]
    exact Cache.run_counts order _ (Chain.fresh order builtinPolicies ({} : Memory) h.lower) e reqs
  · rw [hh']
    exact main_ok hok

theorem main_accepted_load :
    ∃ o h out, configure .newestFirst (fun _ => .ok 1) (fun _ => true)
        ["--trace", "t", "--l1-size", "16", "--l1-block", "4", "--verbose"] = .ok (o, h) ∧
      main .newestFirst (fun _ => .ok 1) toString toString 64 (fun _ => some [' ', 'L', ' ', '8'])
        RandStream.zeros ⟨.Read, 0, 0⟩ "sim"
        ["--trace", "t", "--l1-size", "16", "--l1-block", "4", "--verbose"] = .exit 0 out "" := by
  have hok : ∃ o h, configure .newestFirst (fun _ => .ok 1) (fun _ => true)
      ["--trace", "t", "--l1-size", "16", "--l1-block", "4", "--verbose"] = .ok (o, h) := ⟨_, _, rfl⟩
  obtain ⟨o, h, hok⟩ := hok
  have hmain := main_accepted .newestFirst (fun _ => .ok 1) toString toString 64
    (fun _ => some [' ', 'L', ' ', '8']) RandStream.zeros ⟨.Read, 0, 0⟩ "sim"
    ["--trace", "t", "--l1-size", "16", "--l1-block", "4", "--verbose"] o h hok
  exact ⟨o, h, _, hok, hmain.2.2⟩

theorem exit_codes (order : HashOrder UInt64 ℕ) (stod : String → Except Numerals.NumberError ℚ)
    (showDouble showFixed : ℚ → String) (ulongBits : ℕ) (files : String → Option (List Char))
    (e : RandStream) (a : Access) (prog : String) (args : List String) (code : ℕ) (out : List UInt8)
    (err : String)
    (hmain : main order stod showDouble showFixed ulongBits files e a prog args = .exit code out err) :
    (code = 0 ∧ err = "") ∨ (code = 2 ∧ err ≠ "") ∨
      (code = 1 ∧ out = [] ∧ ∃ path, files path = none ∧
        err = "error: cannot open trace file '" ++ path ++ "'\n") := by
  cases hconf : configure order stod (fun path => (files path).isSome) args with
  | ok x =>
    rw [main_ok hconf] at hmain
    obtain ⟨rfl, -, rfl⟩ := Outcome.exit.inj hmain
    exact .inl ⟨rfl, rfl⟩
  | error stop =>
    have htold : stop.Told _ True := configure_told (fun _ _ _ => trivial) hconf
    rw [main, hconf] at hmain
    cases stop with
    | exit code' message printUsage =>
      obtain ⟨rfl, rfl, rfl⟩ := Outcome.exit.inj hmain
      rcases htold with ⟨hzero, hmessage, -⟩ | htwo | ⟨hone, rfl, path, hclosed, hmessage⟩
      · exact .inl ⟨hzero, hmessage⟩
      · exact .inr (.inl htwo)
      · exact .inr (.inr ⟨hone, rfl, path, by simpa using hclosed, hmessage⟩)
    | uncaught err' => cases hmain
    | divisionByZero => cases hmain

theorem exit_codes_missing :
    main .newestFirst (fun _ => .ok 1) toString toString 64 (fun _ => none) RandStream.zeros ⟨.Read, 0, 0⟩
        "sim" ["--trace", "t", "--l1-size", "16", "--l1-block", "4"] =
      .exit 1 [] "error: cannot open trace file 't'\n" ∧
    ∃ path, (fun _ : String => (none : Option (List Char))) path = none ∧
      "error: cannot open trace file 't'\n" = "error: cannot open trace file '" ++ path ++ "'\n" := by
  have hmain : main .newestFirst (fun _ => .ok 1) toString toString 64 (fun _ => none) RandStream.zeros
      ⟨.Read, 0, 0⟩ "sim" ["--trace", "t", "--l1-size", "16", "--l1-block", "4"] =
        .exit 1 [] "error: cannot open trace file 't'\n" := rfl
  rcases exit_codes .newestFirst (fun _ => .ok 1) toString toString 64 (fun _ => none) RandStream.zeros
      ⟨.Read, 0, 0⟩ "sim" ["--trace", "t", "--l1-size", "16", "--l1-block", "4"] 1 [] _ hmain with
    ⟨hzero, -⟩ | ⟨htwo, -⟩ | ⟨-, -, hpath⟩
  · cases hzero
  · cases htwo
  · exact ⟨hmain, hpath⟩

end CommandLine

end CacheSim
