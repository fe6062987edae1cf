import CacheSim.Frames

namespace CacheSim

open Service

variable {ε : Type} {ρ : ℕ → ℕ → Type} {geo : Geometry}

theorem Layout.new_withWrite {cfg : CacheConfig} {l : Layout} (h : Layout.new cfg = .ok l)
    (p : WritePolicy) :
    Layout.new { cfg with writePolicy := p } = .ok { l with cfg := { l.cfg with writePolicy := p } } := by
  unfold Layout.new at h ⊢
  dsimp only at h ⊢
  split_ifs at h ⊢
  obtain rfl := Except.ok.inj h
  rfl

def Geometry.withWrite (geo : Geometry) (p : WritePolicy) : Geometry :=
  ⟨{ geo.toLayout with cfg := { geo.cfg with writePolicy := p } }, Layout.new_withWrite geo.accepted p⟩

def Frames.withWrite (f : Frames ρ geo) (p : WritePolicy) : Frames ρ (geo.withWrite p) :=
  { frames := f.frames, repl := f.repl }

theorem Frames.withWrite_pick [ReplacementPolicy ε ρ] (f : Frames ρ geo) (p : WritePolicy) (e : ε)
    (set : Fin geo.sets) : (f.withWrite p).pick e set = f.pick e set := by
  have hvacant : vacant ((f.withWrite p).frames set) = vacant (f.frames set) := rfl
  unfold pick
  rw [hvacant]
  cases vacant (f.frames set) <;> rfl

theorem Frames.withWrite_commutes [ReplacementPolicy ε ρ] (p : WritePolicy) :
    Commutes ε fun f : Frames ρ geo => f.withWrite p := by
  intro f e r
  change (f.withWrite p).access e r = ((f.access e r).1, (f.access e r).2.1.withWrite p,
    (f.access e r).2.2)
  have hfind : find ((f.withWrite p).frames ((geo.withWrite p).setOf r.addr))
      ((geo.withWrite p).tagOf r.addr) = find (f.frames (geo.setOf r.addr)) (geo.tagOf r.addr) := rfl
  have hfill : (f.withWrite p).fill e r.addr = ((f.fill e r.addr).1.withWrite p, (f.fill e r.addr).2) := by
    have hpick : (f.withWrite p).pick e ((geo.withWrite p).setOf r.addr) = f.pick e (geo.setOf r.addr) :=
      f.withWrite_pick p e (geo.setOf r.addr)
    unfold fill
    dsimp only
    rw [hpick]
    rfl
  unfold access
  dsimp only
  rw [hfind, hfill]
  cases find (f.frames (geo.setOf r.addr)) (geo.tagOf r.addr) with
  | some w => rfl
  | none =>
    have hcfg : (geo.withWrite p).cfg.allocPolicy = geo.cfg.allocPolicy := rfl
    dsimp only
    rw [hcfg]
    split_ifs <;> rfl

def fetches (geo : Geometry) (served : Request × Bool) : Bool :=
  !served.2 && !(served.1.isWrite && geo.cfg.allocPolicy == .NoWriteAllocate)

def stores (served : Request × Bool) : Bool := served.1.isWrite

theorem Memory.counts {m m' : Memory} {calls : List Request} (h : Called ε m calls m') :
    m'.reads = m.reads + calls.countP isRead ∧ m'.writes = m.writes + calls.countP Request.isWrite := by
  constructor
  · apply h.count (f := Memory.reads)
    rintro m e ⟨addr, isWrite⟩
    cases isWrite <;> rfl
  · apply h.count (f := Memory.writes)
    rintro m e ⟨addr, isWrite⟩
    cases isWrite <;> rfl

namespace Cache

variable [ReplacementPolicy ε ρ]

theorem Step.fetches {c c' : Cache ρ geo} {r : Request} {b : Bool} {calls : List Request}
    (h : Step ε c r b calls c') : calls.countP isRead = (CacheSim.fetches geo (r, b)).toNat := by
  obtain ⟨hWA, hNWA, -⟩ := h.traffic
  unfold CacheSim.fetches
  cases ha : geo.cfg.allocPolicy with
  | WriteAllocate =>
    rw [hWA ha]
    cases r.isWrite <;> cases b <;> rfl
  | NoWriteAllocate =>
    rw [hNWA ha]
    cases r.isWrite <;> cases b <;> rfl

/-- What memory was sent by a cache that served `past`: a read for each fetch; at most the stores that
the dirty lines do not hold back, and all of them under write-through. -/
structure Sent (past : List (Request × Bool)) (s : Cache ρ geo × Memory) : Prop where
  reads_eq : s.2.reads = past.countP (fetches geo)
  writes_le : s.2.writes + s.1.dirtyLines ≤ past.countP stores
  writeThrough : geo.cfg.writePolicy = .WriteThrough → s.2.writes = past.countP stores

theorem Sent.step {past : List (Request × Bool)} {s : Cache ρ geo × Memory} (h : Sent past s) (e : ε)
    (r : Request) : Sent ((r, (serve s e r).1) :: past) (serve s e r).2.1 := by
  obtain ⟨c, m⟩ := s
  obtain ⟨calls, hstep, hcalls⟩ := access_step c m e r
  obtain ⟨hreads, hwrites⟩ := Memory.counts hcalls
  have hstore : stores (r, (serve (c, m) e r).1) = r.isWrite := rfl
  constructor
  · rw [hreads, h.reads_eq, hstep.fetches, List.countP_cons]
    cases fetches geo (r, (serve (c, m) e r).1) <;> rfl
  · have hsent := hstep.stores
    have hbefore : m.writes + c.dirtyLines ≤ past.countP stores := h.writes_le
    rw [hwrites, List.countP_cons, hstore]
    cases hr : r.isWrite with
    | false =>
      rw [hr] at hsent
      simp only [Bool.toNat_false] at hsent
      simp only [Bool.false_eq_true, ↓reduceIte]
      omega
    | true =>
      rw [hr] at hsent
      simp only [Bool.toNat_true] at hsent
      simp only [↓reduceIte]
      omega
  · intro hWT
    obtain ⟨hone, -⟩ := hstep.traffic.2.2.1 hWT
    rw [hwrites, h.writeThrough hWT, hone, List.countP_cons, hstore]
    cases r.isWrite <;> rfl

theorem sent {order : HashOrder UInt64 ℕ} {repl : ρ geo.sets geo.ways} {es : List (Request × Bool)}
    {s : Cache ρ geo × Memory} (h : Serves ε (fresh order repl, ({} : Memory)) es s) :
    Sent es.reverse s := by
  apply h.history_nil fun past s e r hs => hs.step e r
  exact ⟨rfl, by simp [dirtyLines, fresh], fun _ => rfl⟩

end Cache

theorem Cache.write_policies_orthogonal [ReplacementPolicy ε ρ] (geo : Geometry)
    (order₁ order₂ : HashOrder UInt64 ℕ) (repl : ρ geo.sets geo.ways) (e : ε) (reqs : List Request) :
    let back := run ((fresh order₁ repl, {}) : Cache ρ (geo.withWrite .WriteBack) × Memory) e reqs
    let through := run ((fresh order₂ repl, {}) : Cache ρ (geo.withWrite .WriteThrough) × Memory) e reqs
    back.1 = through.1 ∧
      (∀ s w, (back.2.1.1.sets s w).valid = (through.2.1.1.sets s w).valid ∧
        (back.2.1.1.sets s w).tag = (through.2.1.1.sets s w).tag) ∧
      back.2.1.2.reads = through.2.1.2.reads ∧ back.2.1.2.writes ≤ through.2.1.2.writes := by
  intro back through
  let frames : Frames ρ geo := { repl := repl }
  have hframes : ∀ (p : WritePolicy) (order : HashOrder UInt64 ℕ),
      let served := run ((fresh order repl, {}) : Cache ρ (geo.withWrite p) × Memory) e reqs
      served.1 = (run frames e reqs).1 ∧ served.2.1.1.frames = (run frames e reqs).2.1.withWrite p := by
    intro p order served
    have hcache := frames_commutes.run ((fresh order repl, {}) : Cache ρ (geo.withWrite p) × Memory) e reqs
    have hpolicy := (Frames.withWrite_commutes p).run frames e reqs
    have hboth := hcache.symm.trans hpolicy
    simp only [Prod.mk.injEq] at hboth
    exact ⟨hboth.1, hboth.2.1⟩
  obtain ⟨hback, hbackFrames⟩ := hframes .WriteBack order₁
  obtain ⟨hthrough, hthroughFrames⟩ := hframes .WriteThrough order₂
  have hresults : back.1 = through.1 := hback.trans hthrough.symm
  have hsentBack := sent (run_serves _ e reqs : Serves ε _ (reqs.zip back.1) back.2.1)
  have hsentThrough := sent (run_serves _ e reqs : Serves ε _ (reqs.zip through.1) through.2.1)
  rw [hresults] at hsentBack
  refine ⟨hresults, fun s w => ?_, ?_, ?_⟩
  · have hback := congrArg (fun f => f.frames s w) hbackFrames
    have hthrough := congrArg (fun f => f.frames s w) hthroughFrames
    have hframe := hback.trans hthrough.symm
    exact ⟨congrArg Frame.valid hframe, congrArg Frame.tag hframe⟩
  · rw [hsentBack.reads_eq, hsentThrough.reads_eq]
    rfl
  · calc back.2.1.2.writes ≤ back.2.1.2.writes + back.2.1.1.dirtyLines := Nat.le_add_right _ _
      _ ≤ _ := hsentBack.writes_le
      _ = through.2.1.2.writes := (hsentThrough.writeThrough rfl).symm

end CacheSim
