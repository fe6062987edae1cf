import CacheSim.LRUStack

/-!
Sets are independent although one clock stamps them all: an access to another set moves the clock,
which leaves the order of the stamps of this set as it is.
-/

namespace CacheSim

open Service Stamps

variable {geo : Geometry}

structure LRUPolicy.Alike {S A : ℕ} (s : Fin S) (p p' : LRUPolicy S A) : Prop where
  order : SameOrder (p.lastUsed s) (p'.lastUsed s)
  bounded : ∀ w, p.lastUsed s w ≤ p.clock
  bounded' : ∀ w, p'.lastUsed s w ≤ p'.clock

namespace LRUPolicy.Alike

variable {S A : ℕ} {s set : Fin S} {p p' : LRUPolicy S A}

theorem fresh (s : Fin S) : Alike s ({} : LRUPolicy S A) {} :=
  ⟨fun _ _ => Iff.rfl, fun _ => le_rfl, fun _ => le_rfl⟩

theorem touch (h : Alike s p p') (way : Fin A) : Alike s (p.onAccess s way) (p'.onAccess s way) := by
  have hstamps : ∀ p : LRUPolicy S A, (p.onAccess s way).lastUsed s =
      Function.update (p.lastUsed s) way (p.clock + 1) := fun p => Function.update_self ..
  have hbound : ∀ {p : LRUPolicy S A}, (∀ w, p.lastUsed s w ≤ p.clock) →
      ∀ w, (p.onAccess s way).lastUsed s w ≤ p.clock + 1 := by
    intro p hp w
    rw [hstamps, Function.update_apply]
    split_ifs
    · exact le_rfl
    · exact (hp w).trans (Nat.le_succ _)
  refine ⟨?_, hbound h.bounded, hbound h.bounded'⟩
  rw [hstamps, hstamps]
  exact h.order.latest h.bounded h.bounded' way

theorem other (h : Alike s p p') (hs : s ≠ set) (way : Fin A) : Alike s (p.onAccess set way) p' := by
  have hstamps : (p.onAccess set way).lastUsed s = p.lastUsed s := Function.update_of_ne hs ..
  refine ⟨?_, fun w => ?_, h.bounded'⟩
  · rw [hstamps]
    exact h.order
  · rw [hstamps]
    exact (h.bounded w).trans (Nat.le_succ _)

theorem getVictim_eq [NeZero A] (h : Alike s p p') : p.getVictim s = p'.getVictim s :=
  h.order.scanMinTop_eq _ _

end LRUPolicy.Alike

inductive BuiltinPolicy.Alike {S A : ℕ} (s : Fin S) : BuiltinPolicy S A → BuiltinPolicy S A → Prop
  | lru {p p' : LRUPolicy S A} (h : p.Alike s p') : Alike s (.lru p) (.lru p')
  | fifo {p p' : FIFOPolicy S A} (h : p.toLRU.Alike s p'.toLRU) : Alike s (.fifo p) (.fifo p')

namespace BuiltinPolicy.Alike

variable {S A : ℕ} {s set : Fin S} {p p' : BuiltinPolicy S A} (e e' : RandStream)

theorem onAccess (h : Alike s p p') (way : Fin A) :
    Alike s (ReplacementPolicy.onAccess p e s way).1 (ReplacementPolicy.onAccess p' e' s way).1 := by
  cases h with
  | lru h => exact .lru (h.touch way)
  | fifo h => exact .fifo h

theorem onInsert (h : Alike s p p') (way : Fin A) :
    Alike s (ReplacementPolicy.onInsert p e s way).1 (ReplacementPolicy.onInsert p' e' s way).1 := by
  cases h with
  | lru h => exact .lru (h.touch way)
  | fifo h => exact .fifo (h.touch way)

theorem onAccess_other (h : Alike s p p') (hs : s ≠ set) (way : Fin A) :
    Alike s (ReplacementPolicy.onAccess p e set way).1 p' := by
  cases h with
  | lru h => exact .lru (h.other hs way)
  | fifo h => exact .fifo h

theorem onInsert_other (h : Alike s p p') (hs : s ≠ set) (way : Fin A) :
    Alike s (ReplacementPolicy.onInsert p e set way).1 p' := by
  cases h with
  | lru h => exact .lru (h.other hs way)
  | fifo h => exact .fifo (h.other hs way)

theorem getVictim [NeZero A] (h : Alike s p p') :
    (ReplacementPolicy.getVictim p e s).1 = (ReplacementPolicy.getVictim p' e' s).1 ∧
      (ReplacementPolicy.getVictim p e s).2.1 = p ∧ (ReplacementPolicy.getVictim p' e' s).2.1 = p' := by
  cases h with
  | lru h => exact ⟨h.getVictim_eq, rfl, rfl⟩
  | fifo h => exact ⟨h.getVictim_eq, rfl, rfl⟩

theorem getVictim_kept [NeZero A] (h : Alike s p p') (set : Fin S) :
    (ReplacementPolicy.getVictim p e set).2.1 = p := by
  cases h with
  | lru h => rfl
  | fifo h => rfl

end BuiltinPolicy.Alike

namespace Cache

structure SetAlike (s : Fin geo.sets) (c c' : Cache BuiltinPolicy geo) : Prop where
  lines : c.sets s = c'.sets s
  repl : BuiltinPolicy.Alike s c.repl c'.repl

namespace SetAlike

variable {s : Fin geo.sets} {c c' c₁ c₁' : Cache BuiltinPolicy geo} {r : Request} {b b' : Bool}
  {calls calls' : List Request}

theorem pickWay (h : SetAlike s c c') (e e' : RandStream) :
    (c.pickWay e s).1 = (c'.pickWay e' s).1 ∧ (c.pickWay e s).2.1 = c.repl ∧
      (c'.pickWay e' s).2.1 = c'.repl := by
  unfold Cache.pickWay
  rw [← h.lines]
  cases emptyWay (c.sets s) with
  | some w => exact ⟨rfl, rfl, rfl⟩
  | none => exact h.repl.getVictim e e'

theorem pickWay_kept (h : SetAlike s c c') (e : RandStream) (set : Fin geo.sets) :
    (c.pickWay e set).2.1 = c.repl := by
  unfold Cache.pickWay
  cases emptyWay (c.sets set) with
  | some w => rfl
  | none => exact h.repl.getVictim_kept e set

theorem other (h : SetAlike s c c') (hs : geo.setOf r.addr ≠ s) (hstep : Step RandStream c r b calls c₁) :
    SetAlike s c₁ c' := by
  cases hstep with
  | hit w e hw =>
    refine ⟨?_, h.repl.onAccess_other e (Ne.symm hs) w⟩
    rw [← h.lines]
    unfold afterHit
    split_ifs
    · exact putLine_other (Ne.symm hs)
    · rfl
  | around hw hr ha => exact ⟨by rw [missed_sets]; exact h.lines, by rw [missed_repl]; exact h.repl⟩
  | fill e e' hw ha =>
    refine ⟨(putLine_other (Ne.symm hs)).trans h.lines, ?_⟩
    change BuiltinPolicy.Alike s (ReplacementPolicy.onInsert _ _ _ _).1 c'.repl
    rw [h.pickWay_kept]
    exact h.repl.onInsert_other e' (Ne.symm hs) _

theorem same (h : SetAlike (geo.setOf r.addr) c c') (hstep : Step RandStream c r b calls c₁)
    (hstep' : Step RandStream c' r b' calls' c₁') :
    b = b' ∧ calls = calls' ∧ (∃ n, c₁.stats.writebacks = c.stats.writebacks + n ∧
      c₁'.stats.writebacks = c'.stats.writebacks + n) ∧ SetAlike (geo.setOf r.addr) c₁ c₁' := by
  have hway : c.wayOf r.addr = c'.wayOf r.addr := by rw [wayOf, wayOf, h.lines]
  cases hstep with
  | hit w e hw =>
    cases hstep' with
    | hit w' e' hw' =>
      obtain rfl : w = w' := Option.some.inj (hw.symm.trans (hway.trans hw'))
      refine ⟨rfl, rfl, ⟨0, afterHit_writebacks c r w _, afterHit_writebacks c' r w _⟩, ?_,
        h.repl.onAccess e e' w⟩
      unfold afterHit
      dsimp only
      split_ifs
      · rw [putLine_same, putLine_same, h.lines]
      · exact h.lines
    | around hw' => rw [hway, hw'] at hw; cases hw
    | fill e₁ e₂ hw' => rw [hway, hw'] at hw; cases hw
  | around hw hr ha =>
    cases hstep' with
    | hit w' e' hw' => rw [hway, hw'] at hw; cases hw
    | around hw' =>
      refine ⟨rfl, rfl, ⟨0, missed_writebacks c r, missed_writebacks c' r⟩, ?_, ?_⟩
      · rw [missed_sets, missed_sets]
        exact h.lines
      · rw [missed_repl, missed_repl]
        exact h.repl
    | fill e₁ e₂ hw' ha' => exact absurd ⟨hr, ha⟩ ha'
  | fill e₁ e₂ hw ha =>
    cases hstep' with
    | hit w' e' hw' => rw [hway, hw'] at hw; cases hw
    | around hw' hr' ha' => exact absurd ⟨hr', ha'⟩ ha
    | fill e₁' e₂' hw' ha' =>
      obtain ⟨hpick, hkept, hkept'⟩ := h.pickWay e₁ e₁'
      rw [← hpick, hkept, hkept']
      have hvictim : c.DirtyVictim (geo.setOf r.addr) (c.pickWay e₁ (geo.setOf r.addr)).1 ↔
          c'.DirtyVictim (geo.setOf r.addr) (c.pickWay e₁ (geo.setOf r.addr)).1 := by
        rw [DirtyVictim, DirtyVictim, h.lines]
      refine ⟨rfl, ?_, ⟨if c.DirtyVictim (geo.setOf r.addr) (c.pickWay e₁ (geo.setOf r.addr)).1 then 1
        else 0, ?_, ?_⟩, ?_, h.repl.onInsert e₂ e₂' _⟩
      · simp only [fillCalls, victimWrite, hvictim, h.lines]
      · simp only [afterFill, missed_writebacks]
      · simp only [afterFill, missed_writebacks, hvictim]
      · simp only [afterFill, putLine_same, h.lines]

end SetAlike

theorem fresh_setAlike (hrandom : geo.cfg.replacement ≠ .Random) (order order' : HashOrder UInt64 ℕ)
    (s : Fin geo.sets) :
    SetAlike s (fresh order (makeReplacement geo.cfg.replacement geo.sets geo.ways))
      (fresh order' (makeReplacement geo.cfg.replacement geo.sets geo.ways)) where
  lines := rfl
  repl := by
    change BuiltinPolicy.Alike s (makeReplacement geo.cfg.replacement geo.sets geo.ways)
      (makeReplacement geo.cfg.replacement geo.sets geo.ways)
    cases hr : geo.cfg.replacement with
    | LRU => exact .lru (.fresh s)
    | FIFO => exact .fifo (.fresh s)
    | Random => exact absurd hr hrandom

structure Outcome where
  request : Request
  hit : Bool
  sent : List Request
  writebacks : ℕ
  deriving DecidableEq

variable {σ : Type} [MemoryLevel RandStream σ]

def outcome (s : Cache BuiltinPolicy geo × Logged σ Request Bool) (e : RandStream) (r : Request) : Outcome :=
  let out := serve s e r
  { request := r
    hit := out.1
    sent := (out.2.1.2.log.drop s.2.log.length).map Prod.fst
    writebacks := out.2.1.1.stats.writebacks - s.1.stats.writebacks }

def transcript (s : Cache BuiltinPolicy geo × Logged σ Request Bool) (e : RandStream) :
    List Request → List Outcome
  | [] => []
  | r :: reqs => outcome s e r :: transcript (serve s e r).2.1 (serve s e r).2.2 reqs

theorem Step.writebacks_le {c c' : Cache BuiltinPolicy geo} {r : Request} {b : Bool}
    {calls : List Request} (h : Step RandStream c r b calls c') :
    c.stats.writebacks ≤ c'.stats.writebacks := by
  cases h with
  | hit w e hw => exact (afterHit_writebacks c r w _).ge
  | around => exact (missed_writebacks c r).ge
  | fill e e' hw ha =>
    simp only [afterFill, missed_writebacks]
    exact Nat.le_add_right _ _

theorem outcome_step (s : Cache BuiltinPolicy geo × Logged σ Request Bool) (e : RandStream) (r : Request) :
    Step RandStream s.1 r (outcome s e r).hit (outcome s e r).sent (serve s e r).2.1.1 ∧
      (serve s e r).2.1.1.stats.writebacks = s.1.stats.writebacks + (outcome s e r).writebacks := by
  obtain ⟨calls, hstep, hcalls⟩ := access_step s.1 s.2 e r
  have hsent : (outcome s e r).sent = calls := by
    change ((serve s e r).2.1.2.log.drop s.2.log.length).map Prod.fst = calls
    rw [List.map_drop, hcalls.logged]
    exact List.drop_left' (List.length_map _)
  rw [hsent]
  exact ⟨hstep, (Nat.add_sub_cancel' hstep.writebacks_le).symm⟩

theorem transcript_filter {set : Fin geo.sets} (s s' : Cache BuiltinPolicy geo × Logged σ Request Bool)
    (h : SetAlike set s.1 s'.1) (e e' : RandStream) (reqs : List Request) :
    (transcript s e reqs).filter (fun o => geo.setOf o.request.addr = set) =
        transcript s' e' (reqs.filter fun r => geo.setOf r.addr = set) ∧
      SetAlike set (run s e reqs).2.1.1 (run s' e' (reqs.filter fun r => geo.setOf r.addr = set)).2.1.1 := by
  induction reqs generalizing s s' e e' with
  | nil => exact ⟨rfl, h⟩
  | cons r reqs ih =>
    obtain ⟨hstep, hwb⟩ := outcome_step s e r
    by_cases hr : geo.setOf r.addr = set
    · subst hr
      obtain ⟨hstep', hwb'⟩ := outcome_step s' e' r
      obtain ⟨hhit, hsent, ⟨n, hn, hn'⟩, hnext⟩ := h.same hstep hstep'
      have hout : outcome s e r = outcome s' e' r := by
        have hwrote : (outcome s e r).writebacks = (outcome s' e' r).writebacks := by omega
        exact Outcome.mk.injEq .. |>.mpr ⟨rfl, hhit, hsent, hwrote⟩
      obtain ⟨hrest, hfinal⟩ := ih _ _ hnext (serve s e r).2.2 (serve s' e' r).2.2
      have hreqs : (r :: reqs).filter (fun q => geo.setOf q.addr = geo.setOf r.addr) =
          r :: reqs.filter fun q => geo.setOf q.addr = geo.setOf r.addr :=
        List.filter_cons_of_pos (decide_eq_true rfl)
      have hkeep : (transcript s e (r :: reqs)).filter
          (fun o => geo.setOf o.request.addr = geo.setOf r.addr) =
          outcome s e r :: (transcript (serve s e r).2.1 (serve s e r).2.2 reqs).filter
            fun o => geo.setOf o.request.addr = geo.setOf r.addr :=
        List.filter_cons_of_pos (decide_eq_true rfl)
      rw [hreqs, hkeep, hrest, hout]
      exact ⟨rfl, hfinal⟩
    · obtain ⟨hrest, hfinal⟩ := ih _ _ (h.other hr hstep) (serve s e r).2.2 e'
      rw [List.filter_cons_of_neg (by simpa using hr)]
      refine ⟨?_, hfinal⟩
      rw [transcript, List.filter_cons_of_neg (by simpa [outcome] using hr)]
      exact hrest

theorem transcript_counts (s : Cache BuiltinPolicy geo × Logged σ Request Bool) (e : RandStream)
    (reqs : List Request) :
    (run s e reqs).2.1.1.stats.hits = s.1.stats.hits + (transcript s e reqs).countP (fun o => o.hit) ∧
      (run s e reqs).2.1.1.stats.misses =
        s.1.stats.misses + (transcript s e reqs).countP (fun o => !o.hit) ∧
      (run s e reqs).2.1.1.stats.writebacks =
        s.1.stats.writebacks + ((transcript s e reqs).map Outcome.writebacks).sum := by
  induction reqs generalizing s e with
  | nil => exact ⟨rfl, rfl, rfl⟩
  | cons r reqs ih =>
    obtain ⟨hstep, hwb⟩ := outcome_step s e r
    obtain ⟨-, hhits, hmisses, -⟩ := hstep.counters
    obtain ⟨h1, h2, h3⟩ := ih (serve s e r).2.1 (serve s e r).2.2
    refine ⟨h1.trans ?_, h2.trans ?_, h3.trans ?_⟩
    · rw [hhits, transcript, List.countP_cons]
      cases (outcome s e r).hit with
      | false => simp
      | true => simp; omega
    · rw [hmisses, transcript, List.countP_cons]
      cases (outcome s e r).hit with
      | false => simp; omega
      | true => simp
    · rw [hwb, transcript, List.map_cons, List.sum_cons, Nat.add_assoc]

theorem transcript_perm (hrandom : geo.cfg.replacement ≠ .Random) (order : HashOrder UInt64 ℕ)
    (next : Logged σ Request Bool) (e : RandStream) {reqs reqs' : List Request}
    (h : ∀ s, reqs.filter (fun r => geo.setOf r.addr = s) = reqs'.filter fun r => geo.setOf r.addr = s) :
    let c := (fresh order (makeReplacement geo.cfg.replacement geo.sets geo.ways), next)
    (transcript c e reqs).Perm (transcript c e reqs') := by
  intro c
  apply List.perm_iff_count.mpr
  intro o
  have halike := fresh_setAlike hrandom order order (geo.setOf o.request.addr)
  have hfilter := (transcript_filter c c halike e e reqs).1
  have hfilter' := (transcript_filter c c halike e e reqs').1
  have hcount : ∀ l : List Outcome, l.count o =
      (l.filter fun x => geo.setOf x.request.addr = geo.setOf o.request.addr).count o := by
    intro l
    apply (List.count_filter _).symm
    exact decide_eq_true rfl
  rw [hcount (transcript c e reqs), hcount (transcript c e reqs'), hfilter, hfilter', h]

theorem sets_independent (hrandom : geo.cfg.replacement ≠ .Random) (order : HashOrder UInt64 ℕ)
    (next : Logged σ Request Bool) (e : RandStream) :
    let c := (fresh order (makeReplacement geo.cfg.replacement geo.sets geo.ways), next)
    (∀ (s : Fin geo.sets) (reqs : List Request) (e' : RandStream),
      let alone := reqs.filter fun r => geo.setOf r.addr = s
      (transcript c e reqs).filter (fun o => geo.setOf o.request.addr = s) = transcript c e' alone ∧
        (run c e reqs).2.1.1.sets s = (run c e' alone).2.1.1.sets s) ∧
      ∀ reqs reqs' : List Request,
        (∀ s, reqs.filter (fun r => geo.setOf r.addr = s) = reqs'.filter fun r => geo.setOf r.addr = s) →
        (run c e reqs).2.1.1.stats.hits = (run c e reqs').2.1.1.stats.hits ∧
          (run c e reqs).2.1.1.stats.misses = (run c e reqs').2.1.1.stats.misses ∧
          (run c e reqs).2.1.1.stats.writebacks = (run c e reqs').2.1.1.stats.writebacks := by
  intro c
  constructor
  · intro s reqs e' alone
    have halike := fresh_setAlike hrandom order order s
    obtain ⟨hfilter, hfinal⟩ := transcript_filter c c halike e e' reqs
    exact ⟨hfilter, hfinal.lines⟩
  · intro reqs reqs' h
    have hperm : (transcript c e reqs).Perm (transcript c e reqs') :=
      transcript_perm hrandom order next e h
    obtain ⟨h1, h2, h3⟩ := transcript_counts c e reqs
    obtain ⟨h1', h2', h3'⟩ := transcript_counts c e reqs'
    rw [h1, h2, h3, h1', h2', h3', hperm.countP_eq, hperm.countP_eq, (hperm.map _).sum_eq]
    exact ⟨rfl, rfl, rfl⟩

theorem sets_independent_golden :
    ∃ c, c = ((fresh .newestFirst (makeReplacement .LRU _ _), { state := {} }) :
        Cache BuiltinPolicy goldenGeometry × Logged Memory Request Bool) ∧
      (run c RandStream.zeros [⟨0, true⟩, ⟨4, false⟩, ⟨16, false⟩]).2.1.1.stats.writebacks =
        (run c RandStream.zeros [⟨4, false⟩, ⟨0, true⟩, ⟨16, false⟩]).2.1.1.stats.writebacks :=
  ⟨_, rfl, ((sets_independent (show goldenGeometry.cfg.replacement ≠ .Random by decide) .newestFirst
    { state := ({} : Memory) }
    RandStream.zeros).2 _ _ (by decide)).2.2⟩

end Cache

end CacheSim
