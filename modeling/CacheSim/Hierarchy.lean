import CacheSim.CacheStep
import CacheSim.TraceReader

namespace CacheSim

open Service

/-- Caches of the given geometries, L1 first, each pointing at the next and the last at `μ`. -/
def Chain (ρ : ℕ → ℕ → Type) (μ : Type) : List Geometry → Type
  | [] => μ
  | geo :: geos => Cache ρ geo × Chain ρ μ geos

namespace Chain

variable {ε μ : Type} {ρ : ℕ → ℕ → Type}

instance level [ReplacementPolicy ε ρ] [MemoryLevel ε μ] :
    (geos : List Geometry) → MemoryLevel ε (Chain ρ μ geos)
  | [] => inferInstanceAs (MemoryLevel ε μ)
  | geo :: geos =>
    letI := level geos
    inferInstanceAs (MemoryLevel ε (Cache ρ geo × Chain ρ μ geos))

/-- A policy object for each level; the number says how many caches are below the level. -/
abbrev Policies (ρ : ℕ → ℕ → Type) := ℕ → (geo : Geometry) → ρ geo.sets geo.ways

def fresh (order : HashOrder UInt64 ℕ) (make : Policies ρ) (mem : μ) :
    (geos : List Geometry) → Chain ρ μ geos
  | [] => mem
  | geo :: geos => (Cache.fresh order (make geos.length geo), fresh order make mem geos)

def memory : {geos : List Geometry} → Chain ρ μ geos → μ
  | [], m => m
  | _ :: _, s => memory s.2

def caches : {geos : List Geometry} → Chain ρ μ geos → List ((geo : Geometry) × Cache ρ geo)
  | [], _ => []
  | geo :: _, s => ⟨geo, s.1⟩ :: caches s.2

theorem caches_invariant [ReplacementPolicy ε ρ] [MemoryLevel ε μ]
    {P : (geo : Geometry) → Cache ρ geo → Prop}
    (step : ∀ geo (c : Cache ρ geo) r b calls c', Cache.Step ε c r b calls c' → P geo c → P geo c')
    (geos : List Geometry) (s : Chain ρ μ geos) (e : ε) (r : Request)
    (hs : ∀ c ∈ s.caches, P c.1 c.2) : ∀ c ∈ (serve s e r).2.1.caches, P c.1 c.2 := by
  induction geos generalizing e r with
  | nil => simp [caches]
  | cons geo geos ih =>
    obtain ⟨c, next⟩ := s
    obtain ⟨calls, hstep, hcalls⟩ := Cache.access_step (σ := Chain ρ μ geos) c next e r
    have hnext : ∀ c ∈ next.caches, P c.1 c.2 := fun c hc => hs c (List.mem_cons_of_mem _ hc)
    intro c₁ hc₁
    rcases List.mem_cons.mp hc₁ with rfl | hc₁
    · exact step geo c r _ _ _ hstep (hs ⟨geo, c⟩ List.mem_cons_self)
    · exact hcalls.invariant (P := fun s => ∀ c ∈ s.caches, P c.1 c.2) (fun s e r => ih s e r) hnext
        c₁ hc₁

theorem caches_fresh {order : HashOrder UInt64 ℕ} {make : Policies ρ} {mem : μ}
    {P : (geo : Geometry) → Cache ρ geo → Prop}
    (init : ∀ n geo, P geo (Cache.fresh order (make n geo))) (geos : List Geometry) :
    ∀ c ∈ (fresh order make mem geos).caches, P c.1 c.2 := by
  induction geos with
  | nil => simp [caches]
  | cons geo geos ih =>
    intro c hc
    rcases List.mem_cons.mp hc with rfl | hc
    · exact init _ geo
    · exact ih c hc

end Chain

def builtinPolicies : Chain.Policies BuiltinPolicy :=
  fun _ geo => makeReplacement geo.cfg.replacement geo.sets geo.ways

structure CacheHierarchy (ρ : ℕ → ℕ → Type) where
  l1 : Geometry
  lower : List Geometry
  levels : Chain ρ Memory (l1 :: lower)
  memTime : ℚ

namespace CacheHierarchy

variable {ε : Type} {ρ : ℕ → ℕ → Type}

def build (order : HashOrder UInt64 ℕ) (make : Chain.Policies ρ) :
    List CacheConfig → Except CtorError ((geos : List Geometry) × Chain ρ Memory geos)
  | [] => .ok ⟨[], ({} : Memory)⟩
  | cfg :: cfgs =>
    match build order make cfgs with
    | .error err => .error err
    | .ok ⟨geos, below⟩ =>
      match Cache.new order (make geos.length) cfg (some below) with
      | .error err => .error err
      | .ok ⟨geo, c, next⟩ => .ok ⟨geo :: geos, (c, next)⟩

def new (order : HashOrder UInt64 ℕ) (make : Chain.Policies ρ) (cfgs : List CacheConfig)
    (memTime : ℚ) : Except CtorError (CacheHierarchy ρ) :=
  match build order make cfgs with
  | .error err => .error err
  | .ok ⟨[], _⟩ => .error (.invalidArgument "hierarchy needs at least one cache level")
  | .ok ⟨l1 :: lower, levels⟩ => .ok ⟨l1, lower, levels, memTime⟩

def fresh (order : HashOrder UInt64 ℕ) (make : Chain.Policies ρ) (l1 : Geometry)
    (lower : List Geometry) (memTime : ℚ) : CacheHierarchy ρ :=
  ⟨l1, lower, Chain.fresh order make ({} : Memory) (l1 :: lower), memTime⟩

def computeAMAT (h : CacheHierarchy ρ) : ℚ :=
  h.levels.caches.foldr (fun c penalty => c.1.cfg.hitTime + c.2.stats.missRate * penalty) h.memTime

def checkInvariants (h : CacheHierarchy ρ) : Bool :=
  h.levels.caches.all fun c => c.2.checkInvariants

variable [ReplacementPolicy ε ρ]

def access (h : CacheHierarchy ρ) (e : ε) (addr : UInt64) (isWrite : Bool) :
    Bool × CacheHierarchy ρ × ε :=
  let (hit, levels, e) := MemoryLevel.access h.levels e addr isWrite
  (hit, { h with levels := levels }, e)

def one (h : CacheHierarchy ρ) (e : ε) (addr : UInt64) (isWrite : Bool) : CacheHierarchy ρ × ε :=
  (h.access e addr isWrite).2

def feed (h : CacheHierarchy ρ) (e : ε) (a : Access) : CacheHierarchy ρ × ε :=
  match a.op with
  | .Read => h.one e a.addr false
  | .Write => h.one e a.addr true
  | .Modify =>
    let (h, e) := h.one e a.addr false
    h.one e a.addr true
  | .Instr => (h, e)

def feedAll (h : CacheHierarchy ρ) (e : ε) : List Access → CacheHierarchy ρ × ε
  | [] => (h, e)
  | a :: trace =>
    let (h, e) := h.feed e a
    h.feedAll e trace

def simulate (h : CacheHierarchy ρ) (e : ε) (trace : List Access) : ℕ :=
  if (h.feedAll e trace).1.checkInvariants then 0 else 1

end CacheHierarchy

def Access.expand (a : Access) : List Request :=
  match a.op with
  | .Read => [⟨a.addr, false⟩]
  | .Write => [⟨a.addr, true⟩]
  | .Modify => [⟨a.addr, false⟩, ⟨a.addr, true⟩]
  | .Instr => []

namespace CacheHierarchy

variable {ε : Type} {ρ : ℕ → ℕ → Type} [ReplacementPolicy ε ρ]

theorem feed_eq (h : CacheHierarchy ρ) (e : ε) (a : Access) :
    h.feed e a = ({ h with levels := (run h.levels e a.expand).2.1 }, (run h.levels e a.expand).2.2) := by
  obtain ⟨op, addr, size⟩ := a
  cases op <;> rfl

theorem feedAll_eq (h : CacheHierarchy ρ) (e : ε) (trace : List Access) :
    h.feedAll e trace = ({ h with levels := (run h.levels e (trace.flatMap Access.expand)).2.1 },
      (run h.levels e (trace.flatMap Access.expand)).2.2) := by
  induction trace generalizing h e with
  | nil => rfl
  | cons a trace ih =>
    rw [List.flatMap_cons, run_append]
    simp only [feedAll, feed_eq, ih]

omit [ReplacementPolicy ε ρ] in
theorem build_ok {order : HashOrder UInt64 ℕ} {make : Chain.Policies ρ} {cfgs : List CacheConfig}
    {out : (geos : List Geometry) × Chain ρ Memory geos} (hok : build order make cfgs = .ok out) :
    cfgs = out.1.map (fun geo => geo.cfg) ∧ out.2 = Chain.fresh order make ({} : Memory) out.1 := by
  induction cfgs generalizing out with
  | nil =>
    obtain rfl := Except.ok.inj hok
    exact ⟨rfl, rfl⟩
  | cons cfg cfgs ih =>
    unfold build at hok
    split at hok
    · simp at hok
    · next geos below hbelow =>
      obtain ⟨hcfgs, hfresh⟩ := ih hbelow
      split at hok
      · simp at hok
      · next geo c next hnew =>
        obtain ⟨hcfg, hc⟩ := Cache.new_ok hnew
        obtain rfl := Except.ok.inj hok
        refine ⟨?_, ?_⟩
        · rw [List.map_cons, ← hcfg, hcfgs]
        · dsimp only at hc hfresh ⊢
          rw [hc, hfresh]
          rfl

omit [ReplacementPolicy ε ρ] in
theorem new_ok {order : HashOrder UInt64 ℕ} {make : Chain.Policies ρ} {cfgs : List CacheConfig}
    {memTime : ℚ} {h : CacheHierarchy ρ} (hok : new order make cfgs memTime = .ok h) :
    cfgs = (h.l1 :: h.lower).map (fun geo => geo.cfg) ∧
      h = fresh order make h.l1 h.lower memTime := by
  unfold new at hok
  split at hok
  · simp at hok
  · simp at hok
  · next l1 lower levels hbuild =>
    obtain ⟨hcfgs, hlevels⟩ := build_ok hbuild
    obtain rfl := Except.ok.inj hok
    refine ⟨hcfgs, ?_⟩
    dsimp only at hlevels
    rw [fresh, hlevels]

end CacheHierarchy

end CacheSim
