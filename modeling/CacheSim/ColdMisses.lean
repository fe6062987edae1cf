import CacheSim.LRUStack

namespace CacheSim

open Service

variable {ε σ : Type} {ρ : ℕ → ℕ → Type} {geo : Geometry}

def blocks (geo : Geometry) (reqs : List Request) : Finset UInt64 :=
  (reqs.map fun r => geo.blockOf r.addr).toFinset

def Fits (geo : Geometry) (B : Finset UInt64) : Prop :=
  ∀ s, (B.filter fun b => geo.setOfBlock b = s).card ≤ geo.ways

theorem Fits.mono {B B' : Finset UInt64} (h : Fits geo B') (hB : B ⊆ B') : Fits geo B := fun s =>
  (Finset.card_le_card (Finset.filter_subset_filter _ hB)).trans (h s)

theorem blocks_append (pre : List Request) (r : Request) :
    blocks geo (pre ++ [r]) = insert (geo.blockOf r.addr) (blocks geo pre) := by
  ext b
  simp [blocks, eq_comm]

/-- A policy that counts how often it is asked for a victim. -/
structure Audited (ρ : ℕ → ℕ → Type) (S A : ℕ) where
  policy : ρ S A
  asked : ℕ := 0

instance [ReplacementPolicy ε ρ] : ReplacementPolicy ε (Audited ρ) where
  onAccess p e set way :=
    let (policy, e) := ReplacementPolicy.onAccess p.policy e set way
    ({ p with policy := policy }, e)
  onInsert p e set way :=
    let (policy, e) := ReplacementPolicy.onInsert p.policy e set way
    ({ p with policy := policy }, e)
  getVictim p e set :=
    let (way, policy, e) := ReplacementPolicy.getVictim p.policy e set
    (way, { policy := policy, asked := p.asked + 1 }, e)

namespace Cache

theorem resident_congr {c : Cache ρ geo} {a b : UInt64} (h : geo.blockOf a = geo.blockOf b) :
    c.Resident a ↔ c.Resident b := by
  obtain ⟨hset, htag⟩ := (geo.blockOf_eq_iff a b).mp h
  rw [Resident, Resident, hset, htag]

def plain (c : Cache (Audited ρ) geo) : Cache ρ geo := { c with repl := c.repl.policy }

theorem plain_classify (c : Cache (Audited ρ) geo) (b : UInt64) :
    (c.classify b).plain = c.plain.classify b := by
  unfold classify
  rw [show c.plain.refFA = c.refFA from rfl]
  cases c.refFA with
  | none => rfl
  | some f =>
    dsimp only
    rw [show c.plain.seen = c.seen from rfl]
    split_ifs <;> rfl

theorem plain_missed (c : Cache (Audited ρ) geo) (r : Request) : c.plain.missed r = (c.missed r).plain :=
  (plain_classify (c.countMiss r) (geo.blockOf r.addr)).symm

section

variable [ReplacementPolicy ε ρ] [MemoryLevel ε σ]

theorem plain_pickWay (c : Cache (Audited ρ) geo) (e : ε) (set : Fin geo.sets) :
    c.plain.pickWay e set = ((c.pickWay e set).1, (c.pickWay e set).2.1.policy, (c.pickWay e set).2.2) := by
  unfold pickWay
  rw [show c.plain.sets = c.sets from rfl]
  cases emptyWay (c.sets set) <;> rfl

theorem plain_hit (c : Cache (Audited ρ) geo) (next : σ) (e : ε) (addr : UInt64) (isWrite : Bool)
    (w : Fin geo.ways) :
    c.plain.hit next e addr isWrite w =
      (((c.hit next e addr isWrite w).1.1.plain, (c.hit next e addr isWrite w).1.2),
        (c.hit next e addr isWrite w).2) := by
  unfold hit
  dsimp only
  split_ifs <;> rfl

omit [ReplacementPolicy ε ρ] in
theorem plain_writeBack (c : Cache (Audited ρ) geo) (next : σ) (e : ε) (setIndex : UInt64)
    (set : Fin geo.sets) (w : Fin geo.ways) :
    c.plain.writeBack next e setIndex set w =
      (((c.writeBack next e setIndex set w).1.1.plain, (c.writeBack next e setIndex set w).1.2),
        (c.writeBack next e setIndex set w).2) := by
  unfold writeBack
  rw [show c.plain.sets = c.sets from rfl]
  dsimp only
  split_ifs <;> rfl

omit [ReplacementPolicy ε ρ] in
theorem plain_install (c : Cache (Audited ρ) geo) (next : σ) (e : ε) (addr : UInt64) (isWrite : Bool)
    (w : Fin geo.ways) :
    c.plain.install next e addr isWrite w =
      (((c.install next e addr isWrite w).1.1.plain, (c.install next e addr isWrite w).1.2),
        (c.install next e addr isWrite w).2) := by
  unfold install
  dsimp only
  split_ifs <;> rfl

theorem plain_allocate (c : Cache (Audited ρ) geo) (next : σ) (e : ε) (addr : UInt64) (isWrite : Bool) :
    c.plain.allocate next e addr isWrite =
      (((c.allocate next e addr isWrite).1.1.plain, (c.allocate next e addr isWrite).1.2),
        (c.allocate next e addr isWrite).2) := by
  have hchosen : ∀ repl : Audited ρ geo.sets geo.ways,
      ({ c.plain with repl := repl.policy } : Cache ρ geo) = plain { c with repl := repl } := fun _ => rfl
  unfold allocate
  dsimp only
  rw [plain_pickWay]
  dsimp only
  rw [hchosen, plain_writeBack]
  dsimp only
  rw [plain_install]
  rfl

theorem plain_commutes : Commutes ε fun s : Cache (Audited ρ) geo × σ => (s.1.plain, s.2) := by
  rintro ⟨c, next⟩ e ⟨addr, isWrite⟩
  change c.plain.access next e addr isWrite = ((c.access next e addr isWrite).1,
    ((c.access next e addr isWrite).2.1.1.plain, (c.access next e addr isWrite).2.1.2),
    (c.access next e addr isWrite).2.2)
  have hmissed := plain_missed c ⟨addr, isWrite⟩
  unfold access
  dsimp only
  rw [show (c.plain.countAccess isWrite).sets = (c.countAccess isWrite).sets from rfl]
  cases findWay ((c.countAccess isWrite).sets (geo.setOf addr)) (geo.decode addr).tag with
  | some w => exact congrArg (fun x => (true, x)) (plain_hit (c.countAccess isWrite) next e addr isWrite w)
  | none =>
    dsimp only
    split_ifs
    · change (false, (c.plain.missed ⟨addr, isWrite⟩, _), _) = (false, ((c.missed ⟨addr, isWrite⟩).plain, _), _)
      rw [hmissed]
    · change (false, (c.plain.missed ⟨addr, isWrite⟩).allocate next e addr isWrite) = _
      rw [hmissed, plain_allocate]
      rfl

end

structure Cold (B : Finset UInt64) (c : Cache ρ geo) : Prop where
  wellFormed : c.WellFormed
  real : Addressed c.sets
  resident_iff : ∀ a, c.Resident a ↔ geo.blockOf a ∈ B
  misses_eq : c.stats.misses = B.card
  writebacks_eq : c.stats.writebacks = 0

theorem cold_fresh (order : HashOrder UInt64 ℕ) (repl : ρ geo.sets geo.ways) :
    Cold ∅ (fresh order repl) where
  wellFormed := fresh_wellFormed order repl
  real := fresh_addressed order repl
  resident_iff a := by simp [Resident, fresh]
  misses_eq := rfl
  writebacks_eq := rfl

namespace Cold

variable {B : Finset UInt64} {c c' : Cache ρ geo} {r : Request} {b : Bool} {calls : List Request}

theorem exists_empty (hc : Cold B c) (hfit : Fits geo (insert (geo.blockOf r.addr) B))
    (hmiss : geo.blockOf r.addr ∉ B) : ∃ w, emptyWay (c.sets (geo.setOf r.addr)) = some w := by
  by_contra hfull
  have hvalid := emptyWay_eq_none.mp (Option.eq_none_iff_forall_ne_some.mpr (not_exists.mp hfull))
  have hinj : Set.InjOn (lineBlock c.sets (geo.setOf r.addr)) (Finset.univ : Finset (Fin geo.ways)) := by
    intro w _ w' _ h
    exact (lineBlock_inj hc.wellFormed.lines hc.real (hvalid w) (hvalid w') h).2
  -- the ways hold blocks of the set, all different, and the block that missed is one more
  have hmaps : ∀ w ∈ (Finset.univ : Finset (Fin geo.ways)), lineBlock c.sets (geo.setOf r.addr) w ∈
      B.filter fun b => geo.setOfBlock b = geo.setOf r.addr := by
    intro w _
    obtain ⟨a, hset, htag⟩ := hc.real _ w (hvalid w)
    rw [lineBlock_eq hset htag, Finset.mem_filter, ← geo.setOf_eq]
    refine ⟨(hc.resident_iff a).mp ⟨w, ?_, ?_⟩, hset⟩
    · rw [hset]
      exact hvalid w
    · rw [hset]
      exact htag.symm
  have hways := Finset.card_le_card_of_injOn _ hmaps hinj
  rw [Finset.card_univ, Fintype.card_fin] at hways
  have hset := hfit (geo.setOf r.addr)
  rw [Finset.filter_insert, if_pos (geo.setOf_eq r.addr).symm, Finset.card_insert_of_notMem] at hset
  · omega
  · intro h
    exact hmiss (Finset.mem_filter.mp h).1

variable [ReplacementPolicy ε ρ]

theorem pickWay (hc : Cold B c) (hfit : Fits geo (insert (geo.blockOf r.addr) B))
    (hmiss : geo.blockOf r.addr ∉ B) (e : ε) :
    (c.sets (geo.setOf r.addr) (c.pickWay e (geo.setOf r.addr)).1).valid = false ∧
      (c.pickWay e (geo.setOf r.addr)).2.1 = c.repl := by
  obtain ⟨w, hw⟩ := hc.exists_empty hfit hmiss
  unfold Cache.pickWay
  rw [hw]
  exact ⟨(emptyWay_eq_some hw).1, rfl⟩

theorem hit_iff (hc : Cold B c) (hstep : Step ε c r b calls c') : b = true ↔ geo.blockOf r.addr ∈ B :=
  hstep.hit_iff.trans (hc.resident_iff r.addr)

theorem kept (hc : Cold B c) (hfit : Fits geo (insert (geo.blockOf r.addr) B))
    (hstep : Step ε c r b calls c') (s : Fin geo.sets) (w : Fin geo.ways)
    (hvalid : (c.sets s w).valid = true) :
    (c'.sets s w).valid = true ∧ (c'.sets s w).tag = (c.sets s w).tag := by
  have hhit := hc.hit_iff hstep
  cases hstep with
  | hit way e hw =>
    obtain ⟨hkept, hsame⟩ := afterHit_line c r way
      (ReplacementPolicy.onAccess c.repl e (geo.setOf r.addr) way).1 s w
    exact ⟨hkept.trans hvalid, hsame⟩
  | around hw hr ha =>
    rw [missed_sets]
    exact ⟨hvalid, rfl⟩
  | fill e e' hw ha =>
    obtain ⟨hempty, -⟩ := hc.pickWay hfit (mt hhit.mpr Bool.false_ne_true) e
    have hother : ¬(s = geo.setOf r.addr ∧ w = (c.pickWay e (geo.setOf r.addr)).1) := by
      rintro ⟨rfl, rfl⟩
      rw [hempty] at hvalid
      cases hvalid
    simp only [afterFill, putLine_apply, if_neg hother]
    exact ⟨hvalid, trivial⟩

theorem writebacks (hc : Cold B c) (hfit : Fits geo (insert (geo.blockOf r.addr) B))
    (hstep : Step ε c r b calls c') : c'.stats.writebacks = 0 := by
  have hhit := hc.hit_iff hstep
  rw [← hc.writebacks_eq]
  cases hstep with
  | hit w e hw => exact afterHit_writebacks c r w _
  | around hw hr ha => exact missed_writebacks c r
  | fill e e' hw ha =>
    obtain ⟨hempty, -⟩ := hc.pickWay hfit (mt hhit.mpr Bool.false_ne_true) e
    have hclean : ¬c.DirtyVictim (geo.setOf r.addr) (c.pickWay e (geo.setOf r.addr)).1 := by
      rintro ⟨hvalid, -⟩
      rw [hempty] at hvalid
      cases hvalid
    simp only [afterFill, if_neg hclean, missed_writebacks]
    rfl

theorem step (hWA : geo.cfg.allocPolicy = .WriteAllocate) (hc : Cold B c)
    (hfit : Fits geo (insert (geo.blockOf r.addr) B)) (hstep : Step ε c r b calls c') :
    Cold (insert (geo.blockOf r.addr) B) c' where
  wellFormed := hstep.wellFormed hc.wellFormed
  real := hstep.addressed hc.real
  resident_iff := by
    intro a
    rw [Finset.mem_insert]
    constructor
    · intro ha
      rcases hstep.resident_of_resident ha with ha | ha
      · exact .inr ((hc.resident_iff a).mp ha)
      · exact .inl ha
    · rintro (ha | ha)
      · exact (resident_congr ha).mpr (hstep.resident_installed (installs_of_allocate hWA r))
      · obtain ⟨w, hvalid, htag⟩ := (hc.resident_iff a).mpr ha
        obtain ⟨hkept, hsame⟩ := hc.kept hfit hstep (geo.setOf a) w hvalid
        exact ⟨w, hkept, hsame.trans htag⟩
  misses_eq := by
    obtain ⟨-, -, hmisses, -⟩ := hstep.counters
    have hhit := hc.hit_iff hstep
    rw [hmisses, hc.misses_eq]
    cases b with
    | true =>
      rw [Finset.insert_eq_of_mem (hhit.mp rfl)]
      rfl
    | false =>
      rw [Finset.card_insert_of_notMem (mt hhit.mpr Bool.false_ne_true)]
      rfl
  writebacks_eq := hc.writebacks hfit hstep

theorem asked {c c' : Cache (Audited ρ) geo} (hc : Cold B c)
    (hfit : Fits geo (insert (geo.blockOf r.addr) B)) (hstep : Step ε c r b calls c') :
    c'.repl.asked = c.repl.asked := by
  have hhit := hc.hit_iff hstep
  cases hstep with
  | hit w e hw => rfl
  | around hw hr ha => rw [missed_repl]
  | fill e e' hw ha =>
    obtain ⟨-, hrepl⟩ := hc.pickWay hfit (mt hhit.mpr Bool.false_ne_true) e
    rw [← congrArg Audited.asked hrepl]
    rfl

end Cold

section

variable [ReplacementPolicy ε ρ] [MemoryLevel ε σ]

theorem cold_run (hWA : geo.cfg.allocPolicy = .WriteAllocate) (order : HashOrder UInt64 ℕ)
    (repl : ρ geo.sets geo.ways) (next : σ) (e : ε) {reqs : List Request}
    (hfit : Fits geo (blocks geo reqs)) :
    Cold (blocks geo reqs) (run (fresh order repl, next) e reqs).2.1.1 := by
  induction reqs using List.reverseRecOn with
  | nil => exact cold_fresh order repl
  | append_singleton pre r ih =>
    rw [blocks_append] at hfit ⊢
    have hpre := ih (hfit.mono (Finset.subset_insert _ _))
    rw [run_append]
    obtain ⟨calls, hstep, -⟩ := access_step (run (fresh order repl, next) e pre).2.1.1
      (run (fresh order repl, next) e pre).2.1.2 (run (fresh order repl, next) e pre).2.2 r
    exact hpre.step hWA hfit hstep

theorem cold_asked (hWA : geo.cfg.allocPolicy = .WriteAllocate) (order : HashOrder UInt64 ℕ)
    (repl : ρ geo.sets geo.ways) (next : σ) (e : ε) {reqs : List Request}
    (hfit : Fits geo (blocks geo reqs)) :
    (run (fresh order ({ policy := repl } : Audited ρ geo.sets geo.ways), next) e reqs).2.1.1.repl.asked =
      0 := by
  induction reqs using List.reverseRecOn with
  | nil => rfl
  | append_singleton pre r ih =>
    rw [blocks_append] at hfit
    have hpre := hfit.mono (Finset.subset_insert _ _)
    let s := run (fresh order ({ policy := repl } : Audited ρ geo.sets geo.ways), next) e pre
    rw [run_append]
    obtain ⟨calls, hstep, -⟩ := access_step s.2.1.1 s.2.1.2 s.2.2 r
    exact ((cold_run hWA order _ next e hpre).asked hfit hstep).trans (ih hpre)

theorem working_set_misses_cold (hWA : geo.cfg.allocPolicy = .WriteAllocate) (order : HashOrder UInt64 ℕ)
    (repl : ρ geo.sets geo.ways) (next : σ) (e : ε) (reqs : List Request)
    (hfit : ∀ s, ((blocks geo reqs).filter fun b => geo.setOfBlock b = s).card ≤ geo.ways) :
    let start := (fresh order repl, next)
    let audited := (fresh order ({ policy := repl } : Audited ρ geo.sets geo.ways), next)
    (∀ pre r post, reqs = pre ++ r :: post →
      let s := (run start e pre).2
      let out := serve s.1 s.2 r
      (out.1 = true ↔ ∃ q ∈ pre, geo.blockOf q.addr = geo.blockOf r.addr) ∧
        ∀ set w, (s.1.1.sets set w).valid = true →
          (out.2.1.1.sets set w).valid = true ∧ (out.2.1.1.sets set w).tag = (s.1.1.sets set w).tag) ∧
      ((run audited e reqs).2.1.1.plain, (run audited e reqs).2.1.2) = (run start e reqs).2.1 ∧
      (run audited e reqs).2.1.1.repl.asked = 0 ∧
      (run start e reqs).2.1.1.stats.writebacks = 0 ∧
      (run start e reqs).2.1.1.stats.misses = (blocks geo reqs).card := by
  intro start audited
  have hcold : Cold (blocks geo reqs) (run start e reqs).2.1.1 := cold_run hWA order repl next e hfit
  have hsame := congrArg (fun out => out.2.1) (plain_commutes.run audited e reqs)
  refine ⟨?_, hsame.symm, cold_asked hWA order repl next e hfit, hcold.writebacks_eq, hcold.misses_eq⟩
  rintro pre r post rfl s out
  have hsub : insert (geo.blockOf r.addr) (blocks geo pre) ⊆ blocks geo (pre ++ r :: post) := by
    rw [← blocks_append]
    intro b hb
    simp only [blocks, List.map_append, List.mem_toFinset, List.mem_append, List.map_cons,
      List.mem_cons, List.map_nil] at hb ⊢
    tauto
  have hnext : Fits geo (insert (geo.blockOf r.addr) (blocks geo pre)) := Fits.mono hfit hsub
  have hpre := cold_run hWA order repl next e (hnext.mono (Finset.subset_insert _ _))
  obtain ⟨calls, hstep, -⟩ := access_step s.1.1 s.1.2 s.2 r
  constructor
  · rw [hpre.hit_iff hstep]
    simp [blocks]
  · exact hpre.kept hnext hstep

end

theorem working_set_misses_cold_random :
    ∃ s, s = (run ((fresh .newestFirst .random, {}) : Cache BuiltinPolicy twoWayGeometry × Memory)
        RandStream.zeros [⟨0, true⟩, ⟨16, false⟩, ⟨4, true⟩, ⟨0, false⟩]).2.1.1 ∧
      s.stats.writebacks = 0 ∧ s.stats.misses = 3 := by
  have hfit : Fits twoWayGeometry (blocks twoWayGeometry [⟨0, true⟩, ⟨16, false⟩, ⟨4, true⟩, ⟨0, false⟩]) := by
    intro s
    revert s
    decide
  have hWA : twoWayGeometry.cfg.allocPolicy = .WriteAllocate := rfl
  obtain ⟨-, -, -, hwritebacks, hmisses⟩ := working_set_misses_cold hWA .newestFirst
    BuiltinPolicy.random ({} : Memory) RandStream.zeros _ hfit
  exact ⟨_, rfl, hwritebacks, hmisses.trans (by decide)⟩

end Cache

end CacheSim
