import CacheSim.Geometry
import CacheSim.Memory
import CacheSim.RefFACache
import CacheSim.Replacement

namespace CacheSim

open MemoryLevel

structure CacheLine where
  valid : Bool := false
  dirty : Bool := false
  tag : UInt64 := 0
  deriving DecidableEq, Repr

abbrev CacheSet (A : ℕ) := Fin A → CacheLine

structure Cache (ρ : ℕ → ℕ → Type) (geo : Geometry) where
  sets : Fin geo.sets → CacheSet geo.ways := fun _ _ => {}
  repl : ρ geo.sets geo.ways
  stats : Stats := {}
  refFA : Option RefFACache
  seen : Finset UInt64 := ∅

namespace Cache

variable {ε σ : Type} {ρ : ℕ → ℕ → Type} {geo : Geometry}

def fresh (order : HashOrder UInt64 ℕ) (repl : ρ geo.sets geo.ways) : Cache ρ geo :=
  { repl := repl
    refFA := if geo.cfg.classify3C then some (RefFACache.new order geo.totalLines) else none }

def new (order : HashOrder UInt64 ℕ) (make : (geo : Geometry) → ρ geo.sets geo.ways)
    (cfg : CacheConfig) (next : Option σ) : Except CtorError ((geo : Geometry) × Cache ρ geo × σ) :=
  match next with
  | none => .error (.invalidArgument "cache requires a next level (memory or cache)")
  | some next =>
    match h : Layout.new cfg with
    | .error err => .error err
    | .ok l =>
      let geo : Geometry := ⟨l, by
        obtain ⟨-, -, -, -, -, hl⟩ := Layout.new_ok h
        have hcfg : l.cfg = cfg := congrArg Layout.cfg hl
        rw [hcfg, h]⟩
      .ok ⟨geo, fresh order (make geo), next⟩

theorem new_ok {order : HashOrder UInt64 ℕ} {make : (geo : Geometry) → ρ geo.sets geo.ways}
    {cfg : CacheConfig} {next : σ} {out : (geo : Geometry) × Cache ρ geo × σ}
    (h : new order make cfg (some next) = .ok out) :
    out.1.cfg = cfg ∧ out.2 = (fresh order (make out.1), next) := by
  unfold new at h
  split at h
  · simp at h
  · next next' hnext =>
    obtain rfl := Option.some.inj hnext
    split at h
    · simp at h
    · next l hl =>
      obtain ⟨-, -, -, -, -, hlayout⟩ := Layout.new_ok hl
      obtain rfl := Except.ok.inj h
      exact ⟨congrArg Layout.cfg hlayout, rfl⟩

theorem new_accepted (order : HashOrder UInt64 ℕ) (make : (geo : Geometry) → ρ geo.sets geo.ways)
    (geo : Geometry) (next : σ) :
    new order make geo.cfg (some next) = .ok ⟨geo, fresh order (make geo), next⟩ := by
  unfold new
  split
  · simp_all
  · next next' hnext =>
    obtain rfl := Option.some.inj hnext
    split
    · next err herr =>
      rw [geo.accepted] at herr
      cases herr
    · next l hl =>
      obtain ⟨l', hl'⟩ := geo
      rw [hl'] at hl
      obtain rfl := Except.ok.inj hl
      rfl

def setLine (c : Cache ρ geo) (set : Fin geo.sets) (way : Fin geo.ways) (line : CacheLine) :
    Cache ρ geo :=
  { c with sets := Function.update c.sets set (Function.update (c.sets set) way line) }

def classify (c : Cache ρ geo) (blockAddr : UInt64) : Cache ρ geo :=
  match c.refFA with
  | none => c
  | some refFA =>
    let (held, refFA) := refFA.touch blockAddr
    let c := { c with refFA := some refFA }
    if blockAddr ∉ c.seen then
      { c with
        seen := insert blockAddr c.seen
        stats := { c.stats with compulsory := c.stats.compulsory + 1 } }
    else if held then
      { c with stats := { c.stats with conflict := c.stats.conflict + 1 } }
    else
      { c with stats := { c.stats with capacity := c.stats.capacity + 1 } }

def findWay {A : ℕ} (lines : CacheSet A) (tag : UInt64) : Option (Fin A) :=
  (List.finRange A).find? (fun w => (lines w).valid && (lines w).tag == tag)

def emptyWay {A : ℕ} (lines : CacheSet A) : Option (Fin A) :=
  (List.finRange A).find? (fun w => !(lines w).valid)

variable [ReplacementPolicy ε ρ] [MemoryLevel ε σ]

def pickWay (c : Cache ρ geo) (e : ε) (set : Fin geo.sets) :
    Fin geo.ways × ρ geo.sets geo.ways × ε :=
  match emptyWay (c.sets set) with
  | some w => (w, c.repl, e)
  | none => ReplacementPolicy.getVictim c.repl e set

def countAccess (c : Cache ρ geo) (isWrite : Bool) : Cache ρ geo :=
  let stats := { c.stats with accesses := c.stats.accesses + 1 }
  { c with stats := if isWrite then { stats with writes := stats.writes + 1 }
                    else { stats with reads := stats.reads + 1 } }

def hit (c : Cache ρ geo) (next : σ) (e : ε) (addr : UInt64) (isWrite : Bool) (w : Fin geo.ways) :
    (Cache ρ geo × σ) × ε :=
  let set := geo.setOf addr
  let c := { c with stats := { c.stats with hits := c.stats.hits + 1 } }
  let (repl, e) := ReplacementPolicy.onAccess c.repl e set w
  let c := { c with repl := repl }
  let c := { c with refFA := c.refFA.map (fun r => (r.touch (geo.decode addr).blockAddr).2) }
  if isWrite then
    if geo.cfg.writePolicy = .WriteThrough then
      let (_, next, e) := access next e addr true
      ((c, next), e)
    else ((c.setLine set w { c.sets set w with dirty := true }, next), e)
  else ((c, next), e)

def writeBack (c : Cache ρ geo) (next : σ) (e : ε) (setIndex : UInt64) (set : Fin geo.sets)
    (way : Fin geo.ways) : (Cache ρ geo × σ) × ε :=
  let frame := c.sets set way
  if frame.valid = true ∧ frame.dirty = true ∧ geo.cfg.writePolicy = .WriteBack then
    let c := { c with stats := { c.stats with writebacks := c.stats.writebacks + 1 } }
    let (_, next, e) := access next e (geo.victimAddr frame.tag setIndex) true
    ((c, next), e)
  else ((c, next), e)

def install (c : Cache ρ geo) (next : σ) (e : ε) (addr : UInt64) (isWrite : Bool)
    (way : Fin geo.ways) : (Cache ρ geo × σ) × ε :=
  let set := geo.setOf addr
  let tag := (geo.decode addr).tag
  if isWrite then
    if geo.cfg.writePolicy = .WriteThrough then
      let c := c.setLine set way { valid := true, dirty := false, tag := tag }
      let (_, next, e) := access next e addr true
      ((c, next), e)
    else ((c.setLine set way { valid := true, dirty := true, tag := tag }, next), e)
  else ((c.setLine set way { valid := true, dirty := false, tag := tag }, next), e)

def allocate (c : Cache ρ geo) (next : σ) (e : ε) (addr : UInt64) (isWrite : Bool) :
    (Cache ρ geo × σ) × ε :=
  let set := geo.setOf addr
  let (_, next, e) := access next e addr false
  let (way, repl, e) := c.pickWay e set
  let ((c, next), e) := writeBack { c with repl := repl } next e (geo.decode addr).setIndex set way
  let ((c, next), e) := c.install next e addr isWrite way
  let (repl, e) := ReplacementPolicy.onInsert c.repl e set way
  (({ c with repl := repl }, next), e)

def access (c : Cache ρ geo) (next : σ) (e : ε) (addr : UInt64) (isWrite : Bool) :
    Bool × (Cache ρ geo × σ) × ε :=
  let c := c.countAccess isWrite
  let d := geo.decode addr
  match findWay (c.sets (geo.setOf addr)) d.tag with
  | some w => (true, c.hit next e addr isWrite w)
  | none =>
    let c := { c with stats := { c.stats with misses := c.stats.misses + 1 } }
    let c := c.classify d.blockAddr
    if isWrite = true ∧ geo.cfg.allocPolicy = .NoWriteAllocate then
      let (_, next, e) := MemoryLevel.access next e addr true
      (false, (c, next), e)
    else (false, c.allocate next e addr isWrite)

instance : MemoryLevel ε (Cache ρ geo × σ) where
  serve s e r := s.1.access s.2 e r.addr r.isWrite

omit [ReplacementPolicy ε ρ] [MemoryLevel ε σ] in
def violations (c : Cache ρ geo) : List String :=
  (if c.stats.hits + c.stats.misses ≠ c.stats.accesses then
    ["INVARIANT VIOLATED: hits(" ++ toString c.stats.hits ++ ") + misses(" ++
      toString c.stats.misses ++ ") != accesses(" ++ toString c.stats.accesses ++ ")\n"]
  else []) ++
  ((List.finRange geo.sets).flatMap fun s => (List.finRange geo.ways).flatMap fun w =>
    if (c.sets s w).dirty = true ∧ (c.sets s w).valid = false then
      ["INVARIANT VIOLATED: line dirty && !valid at set " ++ toString s.val ++ " way " ++
        toString w.val ++ "\n"]
    else []) ++
  if geo.cfg.classify3C then
    let sum := c.stats.compulsory + c.stats.capacity + c.stats.conflict
    (if sum ≠ c.stats.misses then
      ["INVARIANT VIOLATED: compulsory+capacity+conflict (" ++ toString sum ++ ") != misses (" ++
        toString c.stats.misses ++ ")\n"]
    else []) ++
    (if c.stats.compulsory ≠ c.seen.card then
      ["INVARIANT VIOLATED: compulsory (" ++ toString c.stats.compulsory ++
        ") != distinct blocks touched (" ++ toString c.seen.card ++ ")\n"]
    else [])
  else []

def checkInvariants (c : Cache ρ geo) : Bool := c.violations.isEmpty

end Cache

end CacheSim
