import CacheSim.Cache

namespace CacheSim.Cache

open Service MemoryLevel

variable {ε σ : Type} {ρ : ℕ → ℕ → Type} {geo : Geometry}

def putLine (sets : Fin geo.sets → CacheSet geo.ways) (set : Fin geo.sets) (way : Fin geo.ways)
    (line : CacheLine) : Fin geo.sets → CacheSet geo.ways :=
  Function.update sets set (Function.update (sets set) way line)

def wayOf (c : Cache ρ geo) (addr : UInt64) : Option (Fin geo.ways) :=
  findWay (c.sets (geo.setOf addr)) (geo.tagOf addr)

def countMiss (c : Cache ρ geo) (r : Request) : Cache ρ geo :=
  let c := c.countAccess r.isWrite
  { c with stats := { c.stats with misses := c.stats.misses + 1 } }

def missed (c : Cache ρ geo) (r : Request) : Cache ρ geo :=
  (c.countMiss r).classify (geo.blockOf r.addr)

def afterHit (c : Cache ρ geo) (r : Request) (w : Fin geo.ways) (repl : ρ geo.sets geo.ways) :
    Cache ρ geo :=
  let stats := (c.countAccess r.isWrite).stats
  { c with
    sets := if r.isWrite = true ∧ geo.cfg.writePolicy = .WriteBack then
      putLine c.sets (geo.setOf r.addr) w { c.sets (geo.setOf r.addr) w with dirty := true } else c.sets
    repl := repl
    stats := { stats with hits := stats.hits + 1 }
    refFA := c.refFA.map (fun f => (f.touch (geo.blockOf r.addr)).2) }

def DirtyVictim (c : Cache ρ geo) (set : Fin geo.sets) (w : Fin geo.ways) : Prop :=
  (c.sets set w).valid = true ∧ (c.sets set w).dirty = true ∧ geo.cfg.writePolicy = .WriteBack

instance (c : Cache ρ geo) (set : Fin geo.sets) (w : Fin geo.ways) : Decidable (c.DirtyVictim set w) :=
  inferInstanceAs (Decidable (_ ∧ _ ∧ _))

def filledLine (geo : Geometry) (r : Request) : CacheLine :=
  { valid := true
    dirty := r.isWrite && (geo.cfg.writePolicy == .WriteBack)
    tag := geo.tagOf r.addr }

def afterFill (c : Cache ρ geo) (r : Request) (w : Fin geo.ways) (repl : ρ geo.sets geo.ways) :
    Cache ρ geo :=
  let m := c.missed r
  { m with
    sets := putLine c.sets (geo.setOf r.addr) w (filledLine geo r)
    repl := repl
    stats := { m.stats with
      writebacks := m.stats.writebacks + if c.DirtyVictim (geo.setOf r.addr) w then 1 else 0 } }

def forwarded (geo : Geometry) (r : Request) : List Request :=
  if r.isWrite = true ∧ geo.cfg.writePolicy = .WriteThrough then [r] else []

def victimWrite (c : Cache ρ geo) (set : Fin geo.sets) (setIndex : UInt64) (w : Fin geo.ways) :
    List Request :=
  if c.DirtyVictim set w then [⟨geo.victimAddr (c.sets set w).tag setIndex, true⟩] else []

def fillCalls (c : Cache ρ geo) (r : Request) (w : Fin geo.ways) : List Request :=
  ⟨r.addr, false⟩ :: (c.victimWrite (geo.setOf r.addr) (geo.decode r.addr).setIndex w ++ forwarded geo r)

inductive Step (ε : Type) [ReplacementPolicy ε ρ] (c : Cache ρ geo) (r : Request) :
    Bool → List Request → Cache ρ geo → Prop
  | hit (w : Fin geo.ways) (e : ε) (hw : c.wayOf r.addr = some w) :
      Step ε c r true (forwarded geo r)
        (c.afterHit r w (ReplacementPolicy.onAccess c.repl e (geo.setOf r.addr) w).1)
  | around (hw : c.wayOf r.addr = none) (hr : r.isWrite = true)
      (ha : geo.cfg.allocPolicy = .NoWriteAllocate) :
      Step ε c r false [r] (c.missed r)
  | fill (e e' : ε) (hw : c.wayOf r.addr = none)
      (ha : ¬(r.isWrite = true ∧ geo.cfg.allocPolicy = .NoWriteAllocate)) :
      Step ε c r false (c.fillCalls r (c.pickWay e (geo.setOf r.addr)).1)
        (c.afterFill r (c.pickWay e (geo.setOf r.addr)).1
          (ReplacementPolicy.onInsert (c.pickWay e (geo.setOf r.addr)).2.1 e' (geo.setOf r.addr)
            (c.pickWay e (geo.setOf r.addr)).1).1)

theorem classify_eq (c : Cache ρ geo) (b : UInt64) :
    (c.classify b).sets = c.sets ∧ (c.classify b).repl = c.repl ∧
      (c.classify b).refFA = c.refFA.map (fun f => (f.touch b).2) := by
  unfold classify
  split
  · next h => exact ⟨rfl, rfl, by rw [h]; rfl⟩
  · next f h =>
    rw [h]
    dsimp only
    split_ifs <;> exact ⟨rfl, rfl, rfl⟩

@[simp] theorem missed_sets (c : Cache ρ geo) (r : Request) : (c.missed r).sets = c.sets :=
  (classify_eq _ _).1

@[simp] theorem missed_repl (c : Cache ρ geo) (r : Request) : (c.missed r).repl = c.repl :=
  (classify_eq _ _).2.1

@[simp] theorem missed_refFA (c : Cache ρ geo) (r : Request) :
    (c.missed r).refFA = c.refFA.map (fun f => (f.touch (geo.blockOf r.addr)).2) :=
  (classify_eq _ _).2.2

theorem classify_counters (c : Cache ρ geo) (b : UInt64) :
    ∃ x y z, (c.classify b).stats = { c.stats with compulsory := x, capacity := y, conflict := z } := by
  unfold classify
  split
  · exact ⟨_, _, _, rfl⟩
  · dsimp only
    split_ifs <;> exact ⟨_, _, _, rfl⟩

theorem missed_counters (c : Cache ρ geo) (r : Request) :
    (c.missed r).stats.accesses = c.stats.accesses + 1 ∧ (c.missed r).stats.hits = c.stats.hits ∧
      (c.missed r).stats.misses = c.stats.misses + 1 ∧
      (c.missed r).stats.reads = c.stats.reads + (!r.isWrite).toNat ∧
      (c.missed r).stats.writes = c.stats.writes + r.isWrite.toNat ∧
      (c.missed r).stats.writebacks = c.stats.writebacks := by
  obtain ⟨x, y, z, hstats⟩ := classify_counters (c.countMiss r) (geo.blockOf r.addr)
  rw [missed, hstats]
  cases hr : r.isWrite <;> simp [countMiss, countAccess, hr]

@[simp] theorem missed_writebacks (c : Cache ρ geo) (r : Request) :
    (c.missed r).stats.writebacks = c.stats.writebacks :=
  (missed_counters c r).2.2.2.2.2

theorem classify_verdict (c : Cache ρ geo) (b : UInt64) {f : RefFACache} (hf : c.refFA = some f) :
    (c.classify b).seen = insert b c.seen ∧
      (c.classify b).stats.compulsory = c.stats.compulsory + (if b ∈ c.seen then 0 else 1) ∧
      (c.classify b).stats.conflict =
        c.stats.conflict + (if b ∈ c.seen ∧ (f.touch b).1 = true then 1 else 0) ∧
      (c.classify b).stats.capacity =
        c.stats.capacity + (if b ∈ c.seen ∧ (f.touch b).1 = false then 1 else 0) := by
  unfold classify
  rw [hf]
  by_cases hb : b ∈ c.seen
  · cases ht : (f.touch b).1 <;> simp [hb, ht]
  · simp [hb]

theorem missed_verdict (c : Cache ρ geo) (r : Request) {f : RefFACache} (hf : c.refFA = some f) :
    (c.missed r).seen = insert (geo.blockOf r.addr) c.seen ∧
      (c.missed r).stats.compulsory =
        c.stats.compulsory + (if geo.blockOf r.addr ∈ c.seen then 0 else 1) ∧
      (c.missed r).stats.conflict = c.stats.conflict +
        (if geo.blockOf r.addr ∈ c.seen ∧ (f.touch (geo.blockOf r.addr)).1 = true then 1 else 0) ∧
      (c.missed r).stats.capacity = c.stats.capacity +
        (if geo.blockOf r.addr ∈ c.seen ∧ (f.touch (geo.blockOf r.addr)).1 = false then 1 else 0) := by
  have hstats : (c.countMiss r).stats.compulsory = c.stats.compulsory ∧
      (c.countMiss r).stats.conflict = c.stats.conflict ∧
      (c.countMiss r).stats.capacity = c.stats.capacity := by
    cases hr : r.isWrite <;> simp [countMiss, countAccess, hr]
  obtain ⟨h1, h2, h3⟩ := hstats
  have h := classify_verdict (c.countMiss r) (geo.blockOf r.addr) (f := f) hf
  rwa [h1, h2, h3] at h

theorem afterHit_verdicts (c : Cache ρ geo) (r : Request) (w : Fin geo.ways)
    (repl : ρ geo.sets geo.ways) :
    (c.afterHit r w repl).seen = c.seen ∧
      (c.afterHit r w repl).stats.compulsory = c.stats.compulsory ∧
      (c.afterHit r w repl).stats.conflict = c.stats.conflict ∧
      (c.afterHit r w repl).stats.capacity = c.stats.capacity ∧
      (c.afterHit r w repl).stats.misses = c.stats.misses ∧
      (c.afterHit r w repl).stats.writebacks = c.stats.writebacks := by
  cases hr : r.isWrite <;> simp [afterHit, countAccess, hr]

@[simp] theorem afterHit_writebacks (c : Cache ρ geo) (r : Request) (w : Fin geo.ways)
    (repl : ρ geo.sets geo.ways) : (c.afterHit r w repl).stats.writebacks = c.stats.writebacks :=
  (afterHit_verdicts c r w repl).2.2.2.2.2

namespace Step

variable [ReplacementPolicy ε ρ] {c c' : Cache ρ geo} {r : Request} {b : Bool} {calls : List Request}

theorem counters (h : Step ε c r b calls c') :
    c'.stats.accesses = c.stats.accesses + 1 ∧ c'.stats.hits = c.stats.hits + b.toNat ∧
      c'.stats.misses = c.stats.misses + (!b).toNat ∧
      c'.stats.reads = c.stats.reads + (!r.isWrite).toNat ∧
      c'.stats.writes = c.stats.writes + r.isWrite.toNat := by
  cases h with
  | hit w e hw => cases hr : r.isWrite <;> simp [afterHit, countAccess, hr]
  | around hw hr ha =>
    obtain ⟨h1, h2, h3, h4, h5, -⟩ := missed_counters c r
    exact ⟨h1, h2, h3, h4, h5⟩
  | fill e e' hw ha =>
    obtain ⟨h1, h2, h3, h4, h5, -⟩ := missed_counters c r
    exact ⟨h1, h2, h3, h4, h5⟩

end Step

theorem findWay_eq_some {A : ℕ} {lines : CacheSet A} {tag : UInt64} {w : Fin A}
    (h : findWay lines tag = some w) : (lines w).valid = true ∧ (lines w).tag = tag := by
  simpa using List.find?_some h

theorem findWay_eq_none {A : ℕ} {lines : CacheSet A} {tag : UInt64} :
    findWay lines tag = none ↔ ∀ w, (lines w).valid = true → (lines w).tag ≠ tag := by
  simp [findWay]

theorem emptyWay_eq_some {A : ℕ} {lines : CacheSet A} {w : Fin A} (h : emptyWay lines = some w) :
    (lines w).valid = false ∧ ∀ w' < w, (lines w').valid = true := by
  obtain ⟨hw, as, bs, hsplit, has⟩ := List.find?_eq_some_iff_append.mp h
  refine ⟨by simpa using hw, ?_⟩
  intro w' hlt
  have hmem : w' ∈ as ++ w :: bs := hsplit ▸ List.mem_finRange w'
  have hsorted : (as ++ w :: bs).Pairwise (· < ·) := hsplit ▸ List.pairwise_lt_finRange A
  have hbs : w' ∉ w :: bs := by
    intro h0
    rcases List.mem_cons.mp h0 with rfl | h0
    · exact lt_irrefl _ hlt
    · have := (List.pairwise_cons.mp (List.pairwise_append.mp hsorted).2.1).1 w' h0
      exact lt_asymm hlt this
  have hmem' := has w' ((List.mem_append.mp hmem).resolve_right hbs)
  simpa using hmem'

theorem emptyWay_eq_none {A : ℕ} {lines : CacheSet A} :
    emptyWay lines = none ↔ ∀ w, (lines w).valid = true := by
  simp [emptyWay]

theorem putLine_same (sets : Fin geo.sets → CacheSet geo.ways) (set : Fin geo.sets)
    (way : Fin geo.ways) (line : CacheLine) :
    putLine sets set way line set = Function.update (sets set) way line :=
  Function.update_self ..

theorem putLine_other {sets : Fin geo.sets → CacheSet geo.ways} {set s : Fin geo.sets}
    {way : Fin geo.ways} {line : CacheLine} (hs : s ≠ set) : putLine sets set way line s = sets s :=
  Function.update_of_ne hs ..

@[simp] theorem putLine_self (sets : Fin geo.sets → CacheSet geo.ways) (set : Fin geo.sets)
    (way : Fin geo.ways) (line : CacheLine) : putLine sets set way line set way = line := by
  rw [putLine_same, Function.update_self]

theorem putLine_apply (sets : Fin geo.sets → CacheSet geo.ways) (set : Fin geo.sets)
    (way : Fin geo.ways) (line : CacheLine) (s : Fin geo.sets) (w : Fin geo.ways) :
    putLine sets set way line s w = if s = set ∧ w = way then line else sets s w := by
  by_cases hs : s = set
  · subst hs
    by_cases hw : w = way
    · subst hw
      simp
    · simp [putLine_same, hw]
  · simp [putLine_other hs, hs]

theorem afterHit_line (c : Cache ρ geo) (r : Request) (w : Fin geo.ways) (repl : ρ geo.sets geo.ways)
    (s : Fin geo.sets) (w' : Fin geo.ways) :
    ((c.afterHit r w repl).sets s w').valid = (c.sets s w').valid ∧
      ((c.afterHit r w repl).sets s w').tag = (c.sets s w').tag := by
  unfold afterHit
  dsimp only
  split_ifs
  · rw [putLine_apply]
    split_ifs with hsw
    · rw [hsw.1, hsw.2]
      exact ⟨rfl, rfl⟩
    · exact ⟨rfl, rfl⟩
  · exact ⟨rfl, rfl⟩

def Resident (c : Cache ρ geo) (a : UInt64) : Prop :=
  ∃ w, (c.sets (geo.setOf a) w).valid = true ∧ (c.sets (geo.setOf a) w).tag = geo.tagOf a

theorem wayOf_eq_none {c : Cache ρ geo} {a : UInt64} : c.wayOf a = none ↔ ¬c.Resident a := by
  rw [wayOf, findWay_eq_none, Resident, not_exists]
  exact forall_congr' fun w => not_and.symm

namespace Step

variable [ReplacementPolicy ε ρ] {c c' : Cache ρ geo} {r : Request} {b : Bool} {calls : List Request}

theorem hit_iff (h : Step ε c r b calls c') : b = true ↔ c.Resident r.addr := by
  cases h with
  | hit w e hw =>
    have hres : c.Resident r.addr := by
      by_contra hno
      rw [wayOf_eq_none.mpr hno] at hw
      cases hw
    exact iff_of_true rfl hres
  | around hw => exact iff_of_false Bool.false_ne_true (wayOf_eq_none.mp hw)
  | fill e e' hw => exact iff_of_false Bool.false_ne_true (wayOf_eq_none.mp hw)

theorem resident_of_resident (h : Step ε c r b calls c') {a : UInt64} (ha : c'.Resident a) :
    c.Resident a ∨ geo.blockOf a = geo.blockOf r.addr := by
  obtain ⟨w', hvalid, htag⟩ := ha
  cases h with
  | hit w e hw =>
    obtain ⟨hkept, hsame⟩ := afterHit_line c r w (ReplacementPolicy.onAccess c.repl e (geo.setOf r.addr) w).1
      (geo.setOf a) w'
    rw [hkept] at hvalid
    rw [hsame] at htag
    exact .inl ⟨w', hvalid, htag⟩
  | around hw hr ha =>
    rw [missed_sets] at hvalid htag
    exact .inl ⟨w', hvalid, htag⟩
  | fill e e' hw ha =>
    simp only [afterFill] at hvalid htag
    rw [putLine_apply] at hvalid htag
    split_ifs at hvalid htag with hsw
    · exact .inr ((geo.blockOf_eq_iff a r.addr).mpr ⟨hsw.1, htag.symm⟩)
    · exact .inl ⟨w', hvalid, htag⟩

end Step

section

variable [ReplacementPolicy ε ρ] [MemoryLevel ε σ]

theorem pickWay_spec (c : Cache ρ geo) (e : ε) (set : Fin geo.sets) :
    emptyWay (c.sets set) = some (c.pickWay e set).1 ∨ emptyWay (c.sets set) = none := by
  unfold pickWay
  split
  · next w h => exact .inl h
  · next h => exact .inr h

theorem pickWay_missed (c : Cache ρ geo) (r : Request) (e : ε) (set : Fin geo.sets) :
    (c.missed r).pickWay e set = c.pickWay e set := by
  simp only [pickWay, missed_sets, missed_repl]

theorem hit_step (c : Cache ρ geo) (next : σ) (e : ε) (r : Request) (w : Fin geo.ways) :
    ((c.countAccess r.isWrite).hit next e r.addr r.isWrite w).1.1 =
        c.afterHit r w (ReplacementPolicy.onAccess c.repl e (geo.setOf r.addr) w).1 ∧
      Called ε next (forwarded geo r) ((c.countAccess r.isWrite).hit next e r.addr r.isWrite w).1.2 := by
  obtain ⟨addr, isWrite⟩ := r
  cases isWrite with
  | false => exact ⟨by simp [hit, afterHit, countAccess, Geometry.blockOf], .nil next⟩
  | true =>
    cases hp : geo.cfg.writePolicy with
    | WriteBack =>
      refine ⟨by simp [hit, afterHit, countAccess, Geometry.blockOf, hp, setLine, putLine], ?_⟩
      simp only [hit, forwarded, hp, reduceCtorEq, and_false, ↓reduceIte]
      exact .nil next
    | WriteThrough =>
      refine ⟨by simp [hit, afterHit, countAccess, Geometry.blockOf, hp], ?_⟩
      simp only [hit, forwarded, hp, and_self, ↓reduceIte]
      exact .one _ _ _

omit [ReplacementPolicy ε ρ] in
theorem writeBack_step (c : Cache ρ geo) (next : σ) (e : ε) (setIndex : UInt64) (set : Fin geo.sets)
    (w : Fin geo.ways) :
    (c.writeBack next e setIndex set w).1.1 = { c with stats := { c.stats with
        writebacks := c.stats.writebacks + if c.DirtyVictim set w then 1 else 0 } } ∧
      Called ε next (c.victimWrite set setIndex w) (c.writeBack next e setIndex set w).1.2 := by
  by_cases hd : c.DirtyVictim set w
  · rw [victimWrite, if_pos hd, if_pos hd, writeBack, if_pos (show _ ∧ _ ∧ _ from hd)]
    exact ⟨rfl, .one _ _ _⟩
  · rw [victimWrite, if_neg hd, if_neg hd, writeBack, if_neg (show ¬(_ ∧ _ ∧ _) from hd)]
    exact ⟨rfl, .nil _⟩

omit [ReplacementPolicy ε ρ] in
theorem install_step (c : Cache ρ geo) (next : σ) (e : ε) (r : Request) (w : Fin geo.ways) :
    (c.install next e r.addr r.isWrite w).1.1 =
        { c with sets := putLine c.sets (geo.setOf r.addr) w (filledLine geo r) } ∧
      Called ε next (forwarded geo r) (c.install next e r.addr r.isWrite w).1.2 := by
  obtain ⟨addr, isWrite⟩ := r
  cases isWrite with
  | false => exact ⟨rfl, .nil next⟩
  | true =>
    cases hp : geo.cfg.writePolicy with
    | WriteBack =>
      simp only [install, forwarded, filledLine, hp, reduceCtorEq, and_false, ↓reduceIte]
      exact ⟨rfl, .nil next⟩
    | WriteThrough =>
      simp only [install, forwarded, filledLine, hp, and_self, ↓reduceIte]
      exact ⟨rfl, .one _ _ _⟩

theorem allocate_step (c : Cache ρ geo) (next : σ) (e : ε) (r : Request) :
    ∃ e₁ e₂ : ε, ((c.missed r).allocate next e r.addr r.isWrite).1.1 =
        c.afterFill r (c.pickWay e₁ (geo.setOf r.addr)).1
          (ReplacementPolicy.onInsert (c.pickWay e₁ (geo.setOf r.addr)).2.1 e₂ (geo.setOf r.addr)
            (c.pickWay e₁ (geo.setOf r.addr)).1).1 ∧
      Called ε next (c.fillCalls r (c.pickWay e₁ (geo.setOf r.addr)).1)
        ((c.missed r).allocate next e r.addr r.isWrite).1.2 := by
  -- the fetch comes first, then the choice of the frame, the write-back and the store
  let fetched := serve next e ⟨r.addr, false⟩
  let set := geo.setOf r.addr
  have hpick := pickWay_missed c r fetched.2.2 set
  let pick := c.pickWay fetched.2.2 set
  let c₁ : Cache ρ geo := { c.missed r with repl := pick.2.1 }
  let wrote := c₁.writeBack fetched.2.1 pick.2.2 (geo.decode r.addr).setIndex set pick.1
  let done := wrote.1.1.install wrote.1.2 wrote.2 r.addr r.isWrite pick.1
  have hallocate : ((c.missed r).allocate next e r.addr r.isWrite).1 =
      ({ done.1.1 with repl := (ReplacementPolicy.onInsert done.1.1.repl done.2 set pick.1).1 },
        done.1.2) := by
    simp only [allocate, MemoryLevel.access]
    rw [show (c.missed r).pickWay (serve next e ⟨r.addr, false⟩).2.2 (geo.setOf r.addr) = pick
      from hpick]
  obtain ⟨hwrote, hcalls₁⟩ := writeBack_step c₁ fetched.2.1 pick.2.2 (geo.decode r.addr).setIndex set pick.1
  obtain ⟨hdone, hcalls₂⟩ := install_step wrote.1.1 wrote.1.2 wrote.2 r pick.1
  have hsets : c₁.sets = c.sets := missed_sets c r
  have hvictim : c₁.DirtyVictim set pick.1 ↔ c.DirtyVictim set pick.1 := by
    simp only [DirtyVictim, hsets]
  refine ⟨fetched.2.2, done.2, ?_, ?_⟩
  · rw [hallocate]
    dsimp only
    rw [show done.1.1 = _ from hdone, show wrote.1.1 = _ from hwrote]
    simp only [afterFill, missed_sets, c₁]
    rfl
  · rw [hallocate]
    have hwrite : c₁.victimWrite set (geo.decode r.addr).setIndex pick.1 =
        c.victimWrite set (geo.decode r.addr).setIndex pick.1 := by
      simp only [victimWrite, hvictim, hsets]
    rw [hwrite] at hcalls₁
    exact .cons e (⟨r.addr, false⟩ : Request) (hcalls₁.append hcalls₂)

theorem access_step (c : Cache ρ geo) (next : σ) (e : ε) (r : Request) :
    ∃ calls, Step ε c r (serve (c, next) e r).1 calls (serve (c, next) e r).2.1.1 ∧
      Called ε next calls (serve (c, next) e r).2.1.2 := by
  have hserve : serve (c, next) e r = c.access next e r.addr r.isWrite := rfl
  rw [hserve, access]
  cases hw : c.wayOf r.addr with
  | some w =>
    have hfind : findWay ((c.countAccess r.isWrite).sets (geo.setOf r.addr)) (geo.decode r.addr).tag =
      some w := hw
    obtain ⟨hcache, hcalls⟩ := hit_step c next e r w
    simp only [hfind]
    rw [hcache]
    exact ⟨_, .hit w e hw, hcalls⟩
  | none =>
    have hfind : findWay ((c.countAccess r.isWrite).sets (geo.setOf r.addr)) (geo.decode r.addr).tag =
      none := hw
    simp only [hfind]
    by_cases ha : r.isWrite = true ∧ geo.cfg.allocPolicy = .NoWriteAllocate
    · rw [if_pos ha]
      have hr : (⟨r.addr, true⟩ : Request) = r := by rw [← ha.1]
      refine ⟨[r], .around hw ha.1 ha.2, ?_⟩
      dsimp only [MemoryLevel.access]
      rw [hr]
      exact .one _ _ _
    · rw [if_neg ha]
      obtain ⟨e₁, e₂, hcache, hcalls⟩ := allocate_step c next e r
      refine ⟨_, ?_, hcalls⟩
      have hstep := Step.fill e₁ e₂ hw ha
      rwa [← hcache] at hstep

end

end CacheSim.Cache
