import CacheSim.Structure

namespace CacheSim

open Service Recency Stamps

variable {geo : Geometry}

theorem map_erase_of_nodup {α β : Type} [DecidableEq α] [DecidableEq β] {f : α → β} {l : List α}
    (h : (l.map f).Nodup) {a : α} (ha : a ∈ l) : (l.erase a).map f = (l.map f).erase (f a) := by
  induction l with
  | nil => simp at ha
  | cons x l ih =>
    rw [List.map_cons, List.nodup_cons] at h
    by_cases hx : x = a
    · subst hx
      rw [List.erase_cons_head, List.map_cons, List.erase_cons_head]
    · have ha' : a ∈ l := (List.mem_cons.mp ha).resolve_left (Ne.symm hx)
      have hfx : f x ≠ f a := by
        intro hxa
        exact h.1 (hxa ▸ List.mem_map_of_mem ha')
      rw [List.erase_cons_tail (by simpa using hx), List.map_cons, List.map_cons,
        List.erase_cons_tail (by simpa using hfx), ih h.2 ha']

def FIFOPolicy.toLRU {S A : ℕ} (p : FIFOPolicy S A) : LRUPolicy S A := ⟨p.insertTime, p.clock⟩

def BuiltinPolicy.table {S A : ℕ} : BuiltinPolicy S A → Option (LRUPolicy S A)
  | .lru p => some p
  | .fifo p => some p.toLRU
  | .random => none

namespace Cache

def lineBlock (sets : Fin geo.sets → CacheSet geo.ways) (s : Fin geo.sets) (w : Fin geo.ways) : UInt64 :=
  geo.blockAt (sets s w).tag (UInt64.ofNat s.val)

theorem lineBlock_eq {sets : Fin geo.sets → CacheSet geo.ways} {s : Fin geo.sets} {w : Fin geo.ways}
    {a : UInt64} (hs : geo.setOf a = s) (ht : geo.tagOf a = (sets s w).tag) :
    lineBlock sets s w = geo.blockOf a := by
  rw [lineBlock, ← ht, ← hs]
  exact geo.blockAt_setOf a

def Addressed (sets : Fin geo.sets → CacheSet geo.ways) : Prop :=
  ∀ s w, (sets s w).valid = true → ∃ a, geo.setOf a = s ∧ geo.tagOf a = (sets s w).tag

theorem Addressed.putLine {sets : Fin geo.sets → CacheSet geo.ways} (h : Addressed sets) (a : UInt64)
    (way : Fin geo.ways) {line : CacheLine} (htag : line.tag = geo.tagOf a) :
    Addressed (putLine sets (geo.setOf a) way line) := by
  intro s w
  rw [putLine_apply]
  split_ifs with hsw
  · exact fun _ => ⟨a, hsw.1.symm, htag.symm⟩
  · exact h s w

theorem fresh_addressed {ρ : ℕ → ℕ → Type} (order : HashOrder UInt64 ℕ) (repl : ρ geo.sets geo.ways) :
    Addressed (fresh order repl).sets := by
  simp [Addressed, fresh]

theorem Step.addressed {ε : Type} {ρ : ℕ → ℕ → Type} [ReplacementPolicy ε ρ] {c c' : Cache ρ geo}
    {r : Request} {b : Bool} {calls : List Request} (hstep : Step ε c r b calls c')
    (h : Addressed c.sets) : Addressed c'.sets := by
  cases hstep with
  | hit w e hw =>
    unfold afterHit
    split_ifs
    · exact h.putLine r.addr w (findWay_eq_some hw).2
    · exact h
  | around hw hr ha =>
    rw [missed_sets]
    exact h
  | fill e e' hw ha => exact h.putLine r.addr _ rfl

theorem lineBlock_inj {sets : Fin geo.sets → CacheSet geo.ways} (hlines : LinesOk geo sets)
    (hreal : Addressed sets) {s s' : Fin geo.sets} {w w' : Fin geo.ways}
    (hv : (sets s w).valid = true) (hv' : (sets s' w').valid = true)
    (h : lineBlock sets s w = lineBlock sets s' w') : s = s' ∧ w = w' := by
  obtain ⟨a, rfl, ht⟩ := hreal s w hv
  obtain ⟨a', rfl, ht'⟩ := hreal s' w' hv'
  rw [lineBlock_eq rfl ht, lineBlock_eq rfl ht', geo.blockOf_eq_iff] at h
  obtain ⟨hs, htag⟩ := h
  refine ⟨hs, hlines.tags_unique (geo.setOf a) w w' hv (by rwa [hs]) ?_⟩
  rw [← ht, htag, ht', hs]

structure Stacked (p : LRUPolicy geo.sets geo.ways) (sets : Fin geo.sets → CacheSet geo.ways)
    (s : Fin geo.sets) (ws : List (Fin geo.ways)) (l : List UInt64) : Prop where
  ranked : Ranked (p.lastUsed s) p.clock ws
  valid_iff : ∀ w, w ∈ ws ↔ (sets s w).valid = true
  blocks : ws.map (lineBlock sets s) = l

namespace Stacked

variable {p : LRUPolicy geo.sets geo.ways} {sets : Fin geo.sets → CacheSet geo.ways}
  {s set : Fin geo.sets} {ws : List (Fin geo.ways)} {l : List UInt64} {way : Fin geo.ways}
  {line : CacheLine}

theorem other (h : Stacked p sets s ws l) (hs : s ≠ set) :
    Stacked (p.onAccess set way) (putLine sets set way line) s ws l where
  ranked := by
    have hstamps : (p.onAccess set way).lastUsed s = p.lastUsed s := Function.update_of_ne hs _ _
    rw [hstamps]
    exact h.ranked.mono (Nat.le_succ _)
  valid_iff := by
    intro w
    rw [putLine_other hs]
    exact h.valid_iff w
  blocks := by
    rw [← h.blocks]
    apply List.map_congr_left
    intro w hw
    rw [lineBlock, putLine_other hs]
    rfl

theorem touch (h : Stacked p sets set ws l) (hline : line.valid = true) :
    Stacked (p.onAccess set way) (putLine sets set way line) set (way :: ws.erase way)
      (geo.blockAt line.tag (UInt64.ofNat set.val) :: (ws.erase way).map (lineBlock sets set)) where
  ranked := by
    have hstamps : (p.onAccess set way).lastUsed set =
        Function.update (p.lastUsed set) way (p.clock + 1) := Function.update_self ..
    rw [hstamps]
    exact h.ranked.touch way
  valid_iff := by
    intro w
    rw [putLine_apply, List.mem_cons, h.ranked.nodup.mem_erase_iff]
    by_cases hw : w = way
    · simp [hw, hline]
    · simp [hw, h.valid_iff w]
  blocks := by
    rw [List.map_cons]
    congr 1
    · rw [lineBlock, putLine_self]
    · apply List.map_congr_left
      intro w hw
      have hne : w ≠ way := (h.ranked.nodup.mem_erase_iff.mp hw).1
      rw [lineBlock, putLine_apply, if_neg fun hsw => hne hsw.2]
      rfl

theorem relabel (h : Stacked p sets s ws l) {sets' : Fin geo.sets → CacheSet geo.ways}
    (hlines : ∀ w, (sets' s w).valid = (sets s w).valid ∧ (sets' s w).tag = (sets s w).tag) :
    Stacked p sets' s ws l where
  ranked := h.ranked
  valid_iff w := by rw [(hlines w).1]; exact h.valid_iff w
  blocks := by
    rw [← h.blocks]
    apply List.map_congr_left
    intro w hw
    rw [lineBlock, (hlines w).2]
    rfl

theorem resident_iff {ρ : ℕ → ℕ → Type} {c : Cache ρ geo} {a : UInt64}
    (h : Stacked p c.sets (geo.setOf a) ws l) (hreal : Addressed c.sets) :
    c.Resident a ↔ geo.blockOf a ∈ l := by
  rw [← h.blocks, List.mem_map]
  constructor
  · rintro ⟨w, hvalid, htag⟩
    exact ⟨w, (h.valid_iff w).mpr hvalid, lineBlock_eq rfl htag.symm⟩
  · rintro ⟨w, hw, hblock⟩
    have hvalid := (h.valid_iff w).mp hw
    obtain ⟨a', hs, ht⟩ := hreal _ w hvalid
    rw [lineBlock_eq hs ht] at hblock
    exact ⟨w, hvalid, by rw [← ht]; exact ((geo.blockOf_eq_iff a' a).mp hblock).2⟩

theorem length_eq (h : Stacked p sets s ws l) : ws.length = l.length := by
  rw [← h.blocks, List.length_map]

theorem full (h : Stacked p sets s ws l) (hfull : emptyWay (sets s) = none) :
    ws.length = geo.ways ∧ ws = ws.dropLast ++ [p.getVictim s] := by
  have hall : ∀ w, w ∈ ws := fun w => (h.valid_iff w).mpr (emptyWay_eq_none.mp hfull w)
  constructor
  · have hcard : ws.toFinset.card = geo.ways := by
      rw [Finset.eq_univ_iff_forall.mpr fun w => List.mem_toFinset.mpr (hall w), Finset.card_univ,
        Fintype.card_fin]
    exact (List.toFinset_card_of_nodup h.ranked.nodup).symm.trans hcard
  · apply h.ranked.eq_append_of_min (hall (p.getVictim s))
    exact fun w _ => scanMinTop_le (p.lastUsed s) 0 (List.mem_finRange w)

theorem erase_pick (h : Stacked p sets s ws l)
    (hway : emptyWay (sets s) = some way ∨
      (emptyWay (sets s) = none ∧ way = p.getVictim s)) :
    (ws.erase way).map (lineBlock sets s) = l.take (geo.ways - 1) := by
  rw [← h.blocks, ← List.map_take]
  congr 1
  have hnodup := h.ranked.nodup
  rcases hway with hempty | ⟨hfull, rfl⟩
  · have hnot : way ∉ ws := by
      rw [h.valid_iff, (emptyWay_eq_some hempty).1]
      exact Bool.false_ne_true
    have hlen : (way :: ws).length ≤ geo.ways := by
      have hcard := (List.nodup_cons.mpr ⟨hnot, hnodup⟩).length_le_card
      rwa [Fintype.card_fin] at hcard
    rw [List.length_cons] at hlen
    rw [List.erase_of_not_mem hnot, List.take_of_length_le (by omega)]
  · obtain ⟨hlen, hlast⟩ := h.full hfull
    have hnot : p.getVictim s ∉ ws.dropLast := by
      rw [hlast] at hnodup
      intro h0
      exact (List.nodup_append.mp hnodup).2.2 _ h0 _ (List.mem_singleton_self _) rfl
    have herase : ws.erase (p.getVictim s) = ws.dropLast := by
      conv_lhs => rw [hlast]
      rw [List.erase_append_right _ hnot, List.erase_cons_head, List.append_nil]
    rw [herase, List.dropLast_eq_take, hlen]

theorem fill {r : Request} (h : Stacked p sets (geo.setOf r.addr) ws l)
    (hway : emptyWay (sets (geo.setOf r.addr)) = some way ∨
      (emptyWay (sets (geo.setOf r.addr)) = none ∧ way = p.getVictim (geo.setOf r.addr))) :
    ∃ ws', Stacked (p.onAccess (geo.setOf r.addr) way)
      (putLine sets (geo.setOf r.addr) way (filledLine geo r)) (geo.setOf r.addr) ws'
      (geo.blockOf r.addr :: l.take (geo.ways - 1)) := by
  have htouch : Stacked (p.onAccess (geo.setOf r.addr) way)
      (putLine sets (geo.setOf r.addr) way (filledLine geo r)) (geo.setOf r.addr) _ _ := h.touch rfl
  have hblock : geo.blockAt (filledLine geo r).tag (UInt64.ofNat (geo.setOf r.addr).val) =
      geo.blockOf r.addr := geo.blockAt_setOf r.addr
  rw [h.erase_pick hway, hblock] at htouch
  exact ⟨_, htouch⟩

end Stacked

theorem pickWay_table {c : Cache BuiltinPolicy geo} {p : LRUPolicy geo.sets geo.ways}
    (hp : c.repl.table = some p) (e : RandStream) (s : Fin geo.sets) : (c.pickWay e s).2.1 = c.repl ∧
      (emptyWay (c.sets s) = some (c.pickWay e s).1 ∨
        (emptyWay (c.sets s) = none ∧ (c.pickWay e s).1 = p.getVictim s)) := by
  unfold pickWay
  cases hempty : emptyWay (c.sets s) with
  | some w => exact ⟨rfl, .inl rfl⟩
  | none =>
    cases hrepl : c.repl with
    | lru q =>
      rw [hrepl] at hp
      obtain rfl : q = p := Option.some.inj hp
      exact ⟨rfl, .inr ⟨rfl, rfl⟩⟩
    | fifo q =>
      rw [hrepl] at hp
      obtain rfl : q.toLRU = p := Option.some.inj hp
      exact ⟨rfl, .inr ⟨rfl, rfl⟩⟩
    | random =>
      rw [hrepl] at hp
      cases hp

def installs (geo : Geometry) (r : Request) : Bool :=
  !(r.isWrite && geo.cfg.allocPolicy == .NoWriteAllocate)

theorem installs_of_fill {r : Request}
    (h : ¬(r.isWrite = true ∧ geo.cfg.allocPolicy = .NoWriteAllocate)) : installs geo r = true := by
  cases hr : r.isWrite with
  | false => simp [installs, hr]
  | true => simpa [installs, hr] using h

theorem installs_of_allocate (hWA : geo.cfg.allocPolicy = .WriteAllocate) (r : Request) :
    installs geo r = true := by
  simp [installs, hWA]

theorem Step.resident_installed {ε : Type} {ρ : ℕ → ℕ → Type} [ReplacementPolicy ε ρ] {c c' : Cache ρ geo}
    {r : Request} {b : Bool} {calls : List Request} (hstep : Step ε c r b calls c')
    (hr : installs geo r = true) : c'.Resident r.addr := by
  cases hstep with
  | hit w e hw =>
    obtain ⟨hvalid, htag⟩ := findWay_eq_some hw
    obtain ⟨hkept, hsame⟩ := afterHit_line c r w
      (ReplacementPolicy.onAccess c.repl e (geo.setOf r.addr) w).1 (geo.setOf r.addr) w
    exact ⟨w, hkept.trans hvalid, hsame.trans htag⟩
  | around hw hwrite ha => simp [installs, hwrite, ha] at hr
  | fill e e' hw ha =>
    refine ⟨(c.pickWay e (geo.setOf r.addr)).1, ?_⟩
    simp only [afterFill, putLine_self]
    exact ⟨rfl, rfl⟩

/-- The references to blocks that accesses make, with whether they install; latest first. -/
def references (geo : Geometry) (reqs : List Request) : List (UInt64 × Bool) :=
  (reqs.map fun r => (geo.blockOf r.addr, installs geo r)).reverse

def inSet (geo : Geometry) (s : Fin geo.sets) (h : List (UInt64 × Bool)) : List (UInt64 × Bool) :=
  h.filter fun x => geo.setOfBlock x.1 = s

theorem inSet_cons_same {s : Fin geo.sets} {b : UInt64} {i : Bool} {h : List (UInt64 × Bool)}
    (hs : geo.setOfBlock b = s) : inSet geo s ((b, i) :: h) = (b, i) :: inSet geo s h :=
  List.filter_cons_of_pos (decide_eq_true hs)

theorem inSet_cons_other {s : Fin geo.sets} {b : UInt64} {i : Bool} {h : List (UInt64 × Bool)}
    (hs : geo.setOfBlock b ≠ s) : inSet geo s ((b, i) :: h) = inSet geo s h := by
  apply List.filter_cons_of_neg
  rwa [decide_eq_true_iff]

structure Recent (c : Cache BuiltinPolicy geo) (h : List (UInt64 × Bool)) : Prop where
  stacked : ∃ p, c.repl = .lru p ∧
    ∀ s, ∃ ws, Stacked p c.sets s ws (stack geo.ways (inSet geo s h))
  real : ∀ s w, (c.sets s w).valid = true → ∃ a, geo.setOf a = s ∧ geo.tagOf a = (c.sets s w).tag

theorem fresh_recent (order : HashOrder UInt64 ℕ) (hLRU : geo.cfg.replacement = .LRU) :
    (fresh order (makeReplacement geo.cfg.replacement geo.sets geo.ways)).Recent [] where
  stacked := by
    refine ⟨{}, by rw [hLRU]; rfl, fun s => ⟨[], ?_⟩⟩
    exact ⟨.nil _ _, by simp [fresh], rfl⟩
  real := fresh_addressed order _

namespace Recent

variable {c c' : Cache BuiltinPolicy geo} {h : List (UInt64 × Bool)} {r : Request} {b : Bool}
  {calls : List Request}

theorem resident_iff (hc : c.Recent h) (a : UInt64) :
    c.Resident a ↔ Held geo.ways geo.setOfBlock h (geo.blockOf a) := by
  obtain ⟨p, -, hst⟩ := hc.stacked
  obtain ⟨ws, hws⟩ := hst (geo.setOf a)
  rw [Held, ← geo.setOf_eq]
  exact hws.resident_iff hc.real

theorem of_touch (hc : c.Recent h) {p : LRUPolicy geo.sets geo.ways} (hrepl : c.repl = .lru p)
    {way : Fin geo.ways} {line : CacheLine} {i : Bool}
    (hsets : c'.sets = putLine c.sets (geo.setOf r.addr) way line)
    (hrepl' : c'.repl = .lru (p.onAccess (geo.setOf r.addr) way)) (hvalid : line.valid = true)
    (htag : line.tag = geo.tagOf r.addr)
    (hlist : ∀ ws l, Stacked p c.sets (geo.setOf r.addr) ws l →
      l = stack geo.ways (inSet geo (geo.setOf r.addr) h) →
      geo.blockOf r.addr :: (ws.erase way).map (lineBlock c.sets (geo.setOf r.addr)) =
        refer geo.ways i (geo.blockOf r.addr) l) :
    c'.Recent ((geo.blockOf r.addr, i) :: h) where
  stacked := by
    obtain ⟨p', hrepl₀, hst⟩ := hc.stacked
    obtain rfl : p = p' := BuiltinPolicy.lru.inj (hrepl.symm.trans hrepl₀)
    refine ⟨_, hrepl', fun s => ?_⟩
    obtain ⟨ws, hws⟩ := hst s
    rw [hsets]
    by_cases hs : s = geo.setOf r.addr
    · subst hs
      have htouch : Stacked (p.onAccess (geo.setOf r.addr) way)
          (putLine c.sets (geo.setOf r.addr) way line) (geo.setOf r.addr) (way :: ws.erase way) _ :=
        hws.touch hvalid
      rw [htag, geo.blockAt_setOf, hlist ws _ hws rfl] at htouch
      rw [inSet_cons_same (geo.setOf_eq r.addr).symm]
      exact ⟨_, htouch⟩
    · rw [inSet_cons_other (by rw [← geo.setOf_eq]; exact Ne.symm hs)]
      exact ⟨ws, hws.other hs⟩
  real := by
    rw [hsets]
    exact Addressed.putLine hc.real r.addr way htag

theorem held_iff_mem (a : UInt64) : Held geo.ways geo.setOfBlock h (geo.blockOf a) ↔
    geo.blockOf a ∈ stack geo.ways (inSet geo (geo.setOf a) h) := by
  rw [Held, inSet, geo.setOf_eq]

theorem absent (hc : c.Recent h) {b : UInt64} (hb : ¬Held geo.ways geo.setOfBlock h b) :
    c.Recent ((b, false) :: h) where
  stacked := by
    obtain ⟨p, hrepl, hst⟩ := hc.stacked
    refine ⟨p, hrepl, fun s => ?_⟩
    obtain ⟨ws, hws⟩ := hst s
    refine ⟨ws, ?_⟩
    by_cases hs : geo.setOfBlock b = s
    · have hmem : b ∉ stack geo.ways (inSet geo s h) := by
        rw [← hs]
        exact hb
      rw [inSet_cons_same hs, stack, refer, if_neg hmem, if_neg Bool.false_ne_true]
      exact hws
    · rw [inSet_cons_other hs]
      exact hws
  real := hc.real

theorem pickWay_lru {p : LRUPolicy geo.sets geo.ways} (hrepl : c.repl = .lru p) (e : RandStream)
    (s : Fin geo.sets) : (c.pickWay e s).2.1 = .lru p ∧
      (emptyWay (c.sets s) = some (c.pickWay e s).1 ∨
        (emptyWay (c.sets s) = none ∧ (c.pickWay e s).1 = p.getVictim s)) := by
  obtain ⟨hkept, hway⟩ := pickWay_table (p := p) (by rw [hrepl]; rfl) e s
  exact ⟨hkept.trans hrepl, hway⟩

theorem step (hc : c.Recent h) (hstep : Step RandStream c r b calls c') :
    c'.Recent ((geo.blockOf r.addr, installs geo r) :: h) := by
  obtain ⟨p, hrepl, -⟩ := hc.stacked
  have hhit := hstep.hit_iff
  rw [hc.resident_iff] at hhit
  cases hstep with
  | hit w e hw =>
    obtain ⟨hvalid, hmatch⟩ := findWay_eq_some hw
    have hpolicy : (ReplacementPolicy.onAccess c.repl e (geo.setOf r.addr) w).1 =
        .lru (p.onAccess (geo.setOf r.addr) w) := by
      rw [hrepl]
      rfl
    have hlist : ∀ ws l, Stacked p c.sets (geo.setOf r.addr) ws l →
        l = stack geo.ways (inSet geo (geo.setOf r.addr) h) →
        geo.blockOf r.addr :: (ws.erase w).map (lineBlock c.sets (geo.setOf r.addr)) =
          refer geo.ways (installs geo r) (geo.blockOf r.addr) l := by
      rintro ws l hws rfl
      rw [refer, if_pos ((held_iff_mem r.addr).mp (hhit.mp rfl)), ← hws.blocks,
        map_erase_of_nodup (by rw [hws.blocks]; exact stack_nodup _ _) ((hws.valid_iff w).mpr hvalid),
        lineBlock_eq rfl hmatch.symm]
    by_cases hwrite : r.isWrite = true ∧ geo.cfg.writePolicy = .WriteBack
    · exact hc.of_touch hrepl (if_pos hwrite) hpolicy hvalid hmatch hlist
    · have hsame : putLine c.sets (geo.setOf r.addr) w (c.sets (geo.setOf r.addr) w) = c.sets := by
        rw [putLine, Function.update_eq_self, Function.update_eq_self]
      exact hc.of_touch hrepl ((if_neg hwrite).trans hsame.symm) hpolicy hvalid hmatch hlist
  | around hw hr ha =>
    have hinstalls : installs geo r = false := by simp [installs, hr, ha]
    have hkept := hc.absent (mt hhit.mpr Bool.false_ne_true)
    rw [hinstalls]
    exact ⟨by rw [missed_sets, missed_repl]; exact hkept.stacked, by rw [missed_sets]; exact hkept.real⟩
  | fill e e' hw ha =>
    obtain ⟨hpick, hway⟩ := pickWay_lru hrepl e (geo.setOf r.addr)
    have hpolicy : (ReplacementPolicy.onInsert (c.pickWay e (geo.setOf r.addr)).2.1 e' (geo.setOf r.addr)
        (c.pickWay e (geo.setOf r.addr)).1).1 =
        .lru (p.onAccess (geo.setOf r.addr) (c.pickWay e (geo.setOf r.addr)).1) := by
      rw [hpick]
      rfl
    apply hc.of_touch hrepl rfl hpolicy rfl rfl
    rintro ws l hws rfl
    have habsent := mt (held_iff_mem r.addr).mpr (mt hhit.mpr Bool.false_ne_true)
    rw [hws.erase_pick hway, installs_of_fill ha, refer_absent geo.ways_pos habsent]

end Recent

structure Recalls (c : Cache BuiltinPolicy geo) (h : List (UInt64 × Bool)) : Prop where
  recent : c.Recent h
  misses_eq : c.stats.misses = absences geo.ways geo.setOfBlock h

theorem Recalls.step {c c' : Cache BuiltinPolicy geo} {h : List (UInt64 × Bool)} {r : Request}
    {b : Bool} {calls : List Request} (hc : c.Recalls h) (hstep : Step RandStream c r b calls c') :
    c'.Recalls ((geo.blockOf r.addr, installs geo r) :: h) where
  recent := hc.recent.step hstep
  misses_eq := by
    obtain ⟨-, -, hcount, -⟩ := hstep.counters
    have hhit := hstep.hit_iff
    rw [hc.recent.resident_iff] at hhit
    rw [hcount, hc.misses_eq, absences]
    congr 1
    by_cases hheld : Held geo.ways geo.setOfBlock h (geo.blockOf r.addr)
    · rw [if_pos hheld, hhit.mpr hheld]
      rfl
    · rw [if_neg hheld, Bool.eq_false_iff.mpr (mt hhit.mp hheld)]
      rfl

theorem called_recalls {σ : Type} [MemoryLevel RandStream σ] {order : HashOrder UInt64 ℕ} {next : σ}
    {reqs : List Request} {s : Cache BuiltinPolicy geo × σ} (hLRU : geo.cfg.replacement = .LRU)
    (hcalled : Called RandStream
      (fresh order (makeReplacement geo.cfg.replacement geo.sets geo.ways), next) reqs s) :
    s.1.Recalls (references geo reqs) := by
  obtain ⟨es, rfl, hes⟩ := hcalled
  have hstep : ∀ past (s : Cache BuiltinPolicy geo × σ) (e : RandStream) r,
      s.1.Recalls (past.map fun x => (geo.blockOf x.1.addr, installs geo x.1)) →
      (serve s e r).2.1.1.Recalls (((r, (serve s e r).1) :: past).map fun x =>
        (geo.blockOf x.1.addr, installs geo x.1)) := by
    rintro past ⟨c, next⟩ e r hc
    obtain ⟨calls, hstep, -⟩ := access_step c next e r
    exact hc.step hstep
  have hrun := hes.history_nil (P := fun past s =>
    s.1.Recalls (past.map fun x => (geo.blockOf x.1.addr, installs geo x.1))) hstep
    ⟨fresh_recent order hLRU, rfl⟩
  rwa [references, List.map_map, ← List.map_reverse]

theorem references_writeAllocate (hWA : geo.cfg.allocPolicy = .WriteAllocate) (reqs : List Request) :
    references geo reqs = (reqs.map fun r => (geo.blockOf r.addr, true)).reverse := by
  simp [references, installs, hWA]

end Cache

end CacheSim
