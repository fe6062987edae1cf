import CacheSim.Traffic

namespace CacheSim

open Service

variable {ε : Type} {ρ : ℕ → ℕ → Type} {geo : Geometry}

structure Frame where
  valid : Bool := false
  tag : UInt64 := 0
  deriving DecidableEq

structure Frames (ρ : ℕ → ℕ → Type) (geo : Geometry) where
  frames : Fin geo.sets → Fin geo.ways → Frame := fun _ _ => {}
  repl : ρ geo.sets geo.ways

namespace Frames

def find {A : ℕ} (frames : Fin A → Frame) (tag : UInt64) : Option (Fin A) :=
  (List.finRange A).find? fun w => (frames w).valid && (frames w).tag == tag

def vacant {A : ℕ} (frames : Fin A → Frame) : Option (Fin A) :=
  (List.finRange A).find? fun w => !(frames w).valid

variable [ReplacementPolicy ε ρ]

def pick (f : Frames ρ geo) (e : ε) (set : Fin geo.sets) : Fin geo.ways × ρ geo.sets geo.ways × ε :=
  match vacant (f.frames set) with
  | some w => (w, f.repl, e)
  | none => ReplacementPolicy.getVictim f.repl e set

def fill (f : Frames ρ geo) (e : ε) (addr : UInt64) : Frames ρ geo × ε :=
  let set := geo.setOf addr
  let (w, repl, e) := f.pick e set
  let line := Function.update (f.frames set) w ⟨true, geo.tagOf addr⟩
  let (repl, e) := ReplacementPolicy.onInsert repl e set w
  ({ frames := Function.update f.frames set line, repl := repl }, e)

def access (f : Frames ρ geo) (e : ε) (r : Request) : Bool × Frames ρ geo × ε :=
  let set := geo.setOf r.addr
  match find (f.frames set) (geo.tagOf r.addr) with
  | some w =>
    let (repl, e) := ReplacementPolicy.onAccess f.repl e set w
    (true, { f with repl := repl }, e)
  | none =>
    if r.isWrite = true ∧ geo.cfg.allocPolicy = .NoWriteAllocate then (false, f, e)
    else (false, f.fill e r.addr)

instance : Service ε (Frames ρ geo) Request Bool where
  serve := access

end Frames

namespace Cache

def frames (c : Cache ρ geo) : Frames ρ geo :=
  { frames := fun s w => ⟨(c.sets s w).valid, (c.sets s w).tag⟩, repl := c.repl }

theorem frames_setLine (c : Cache ρ geo) (set : Fin geo.sets) (way : Fin geo.ways) (line : CacheLine) :
    (c.setLine set way line).frames = { c.frames with
      frames := Function.update c.frames.frames set
        (Function.update (c.frames.frames set) way ⟨line.valid, line.tag⟩) } := by
  simp only [frames, Frames.mk.injEq]
  refine ⟨?_, rfl⟩
  funext s w
  by_cases hs : s = set
  · subst hs
    by_cases hw : w = way
    · subst hw
      simp [setLine]
    · simp [setLine, hw]
  · simp [setLine, hs]

theorem frames_relabel (c : Cache ρ geo) (set : Fin geo.sets) (way : Fin geo.ways) (dirty : Bool) :
    (c.setLine set way { c.sets set way with dirty := dirty }).frames = c.frames := by
  have hsame : (⟨(c.sets set way).valid, (c.sets set way).tag⟩ : Frame) = c.frames.frames set way := rfl
  rw [frames_setLine, hsame, Function.update_eq_self, Function.update_eq_self]

variable [ReplacementPolicy ε ρ]

theorem frames_hit (c : Cache ρ geo) (m : Memory) (e : ε) (addr : UInt64) (isWrite : Bool)
    (w : Fin geo.ways) :
    (c.hit m e addr isWrite w).1.1.frames =
        { c.frames with repl := (ReplacementPolicy.onAccess c.repl e (geo.setOf addr) w).1 } ∧
      (c.hit m e addr isWrite w).2 = (ReplacementPolicy.onAccess c.repl e (geo.setOf addr) w).2 := by
  unfold hit
  dsimp only
  cases isWrite with
  | false => exact ⟨rfl, rfl⟩
  | true =>
    rw [if_pos rfl]
    split_ifs
    · exact ⟨rfl, rfl⟩
    · exact ⟨frames_relabel _ _ _ true, rfl⟩

omit [ReplacementPolicy ε ρ] in
theorem frames_writeBack (c : Cache ρ geo) (m : Memory) (e : ε) (setIndex : UInt64)
    (set : Fin geo.sets) (w : Fin geo.ways) :
    (c.writeBack m e setIndex set w).1.1.frames = c.frames ∧ (c.writeBack m e setIndex set w).2 = e := by
  unfold writeBack
  dsimp only
  split_ifs <;> exact ⟨rfl, rfl⟩

omit [ReplacementPolicy ε ρ] in
theorem frames_install (c : Cache ρ geo) (m : Memory) (e : ε) (addr : UInt64) (isWrite : Bool)
    (w : Fin geo.ways) :
    (c.install m e addr isWrite w).1.1.frames = { c.frames with
        frames := Function.update c.frames.frames (geo.setOf addr)
          (Function.update (c.frames.frames (geo.setOf addr)) w ⟨true, geo.tagOf addr⟩) } ∧
      (c.install m e addr isWrite w).2 = e := by
  unfold install
  dsimp only
  cases isWrite with
  | false => exact ⟨frames_setLine _ _ _ _, rfl⟩
  | true =>
    rw [if_pos rfl]
    split_ifs <;> exact ⟨frames_setLine _ _ _ _, rfl⟩

theorem frames_allocate (c : Cache ρ geo) (m : Memory) (e : ε) (addr : UInt64) (isWrite : Bool) :
    (c.allocate m e addr isWrite).1.1.frames = (c.frames.fill e addr).1 ∧
      (c.allocate m e addr isWrite).2 = (c.frames.fill e addr).2 := by
  let picked := c.pickWay e (geo.setOf addr)
  have hpick : c.frames.pick e (geo.setOf addr) = picked := rfl
  let chosen : Cache ρ geo := { c with repl := picked.2.1 }
  let fetched := (MemoryLevel.access m e addr false).2.1
  let wrote := chosen.writeBack fetched picked.2.2 (geo.decode addr).setIndex (geo.setOf addr) picked.1
  let done := wrote.1.1.install wrote.1.2 wrote.2 addr isWrite picked.1
  obtain ⟨hwrote, hwroteEnv⟩ := frames_writeBack chosen fetched picked.2.2 (geo.decode addr).setIndex
    (geo.setOf addr) picked.1
  obtain ⟨hdone, hdoneEnv⟩ := frames_install wrote.1.1 wrote.1.2 wrote.2 addr isWrite picked.1
  have henv : done.2 = picked.2.2 := hdoneEnv.trans hwroteEnv
  rw [show wrote.1.1.frames = chosen.frames from hwrote] at hdone
  have hrepl : done.1.1.repl = picked.2.1 := congrArg Frames.repl hdone
  have hallocate : (c.allocate m e addr isWrite).1.1.frames = { done.1.1.frames with
        repl := (ReplacementPolicy.onInsert done.1.1.repl done.2 (geo.setOf addr) picked.1).1 } ∧
      (c.allocate m e addr isWrite).2 =
        (ReplacementPolicy.onInsert done.1.1.repl done.2 (geo.setOf addr) picked.1).2 := ⟨rfl, rfl⟩
  rw [hallocate.1, hallocate.2, show done.1.1.frames = _ from hdone, hrepl, henv]
  exact ⟨rfl, rfl⟩

theorem frames_classify (c : Cache ρ geo) (b : UInt64) : (c.classify b).frames = c.frames := by
  obtain ⟨hsets, hrepl, -⟩ := classify_eq c b
  simp only [frames, hsets, hrepl]

theorem frames_commutes : Commutes ε fun s : Cache ρ geo × Memory => s.1.frames := by
  rintro ⟨c, m⟩ e ⟨addr, isWrite⟩
  have hcounted : (c.countAccess isWrite).frames = c.frames := rfl
  change c.frames.access e ⟨addr, isWrite⟩ = ((c.access m e addr isWrite).1,
    (c.access m e addr isWrite).2.1.1.frames, (c.access m e addr isWrite).2.2)
  unfold Cache.access Frames.access
  dsimp only
  rw [show Frames.find (c.frames.frames (geo.setOf addr)) (geo.tagOf addr) =
    findWay ((c.countAccess isWrite).sets (geo.setOf addr)) (geo.decode addr).tag from rfl]
  cases findWay ((c.countAccess isWrite).sets (geo.setOf addr)) (geo.decode addr).tag with
  | some w =>
    obtain ⟨hhit, henv⟩ := frames_hit (c.countAccess isWrite) m e addr isWrite w
    dsimp only
    rw [hhit, henv]
    rfl
  | none =>
    dsimp only
    split_ifs with ha
    · rw [frames_classify]
      rfl
    · let missed := { c.countAccess isWrite with
        stats := { (c.countAccess isWrite).stats with misses := (c.countAccess isWrite).stats.misses + 1 } }
      have hmissed : (missed.classify (geo.decode addr).blockAddr).frames = c.frames := by
        rw [frames_classify]
        rfl
      obtain ⟨hfill, henv⟩ := frames_allocate (missed.classify (geo.decode addr).blockAddr) m e addr isWrite
      rw [hmissed] at hfill henv
      rw [hfill, henv]

end Cache

end CacheSim
