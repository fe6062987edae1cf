import CacheSim.LRUStack
import CacheSim.RecencyList

namespace CacheSim.Cache

open Service Recency

variable {geo : Geometry}

def recencyLists (geo : Geometry) (reqs : List Request) : Fin geo.sets → RecencyList UInt64 geo.ways :=
  reqs.foldl (fun L r => Function.update L (geo.setOf r.addr)
    ((L (geo.setOf r.addr)).access (installs geo r) (geo.blockOf r.addr))) fun _ => .empty

theorem recencyLists_append (geo : Geometry) (reqs : List Request) (r : Request) :
    recencyLists geo (reqs ++ [r]) = Function.update (recencyLists geo reqs) (geo.setOf r.addr)
      ((recencyLists geo reqs (geo.setOf r.addr)).access (installs geo r) (geo.blockOf r.addr)) := by
  rw [recencyLists, List.foldl_append]
  rfl

theorem recencyLists_items (geo : Geometry) (reqs : List Request) (s : Fin geo.sets) :
    (recencyLists geo reqs s).items = stack geo.ways (inSet geo s (references geo reqs)) := by
  induction reqs using List.reverseRecOn with
  | nil => rfl
  | append_singleton reqs r ih =>
    have hrefs : references geo (reqs ++ [r]) =
        (geo.blockOf r.addr, installs geo r) :: references geo reqs := by
      rw [references, List.map_append, List.reverse_append]
      rfl
    rw [recencyLists_append, hrefs]
    by_cases hs : s = geo.setOf r.addr
    · subst hs
      rw [Function.update_self, RecencyList.access_items, ih, inSet_cons_same (geo.setOf_eq r.addr).symm]
      rfl
    · rw [Function.update_of_ne hs, ih, inSet_cons_other (by rw [← geo.setOf_eq]; exact Ne.symm hs)]

def Refines (c : Cache BuiltinPolicy geo) (L : Fin geo.sets → RecencyList UInt64 geo.ways) : Prop :=
  ∃ p, c.repl = .lru p ∧ ∀ s, ∃ ws, Stacked p c.sets s ws (L s).items

theorem Recent.refines {c : Cache BuiltinPolicy geo} {reqs : List Request}
    (hc : c.Recent (references geo reqs)) : c.Refines (recencyLists geo reqs) := by
  obtain ⟨p, hrepl, hst⟩ := hc.stacked
  refine ⟨p, hrepl, fun s => ?_⟩
  rw [recencyLists_items]
  exact hst s

theorem forwarded_addr {r q : Request} (hq : q ∈ forwarded geo r) : q.addr = r.addr := by
  unfold forwarded at hq
  split_ifs at hq
  · rw [List.mem_singleton.mp hq]
  · cases hq

theorem victimWrite_toNat {c : Cache BuiltinPolicy geo} {h : List (UInt64 × Bool)} (hc : c.Recent h)
    {a : UInt64} {w : Fin geo.ways} (hvalid : (c.sets (geo.setOf a) w).valid = true) :
    (geo.victimAddr (c.sets (geo.setOf a) w).tag (geo.decode a).setIndex).toNat =
      (lineBlock c.sets (geo.setOf a) w).toNat * geo.cfg.blockSize.toNat := by
  obtain ⟨b, hset, htag⟩ := hc.real _ w hvalid
  rw [lineBlock_eq hset htag, ← htag, ← Geometry.setIndex_congr hset, geo.victimAddr_toNat, geo.blockOf_toNat, geo.blockSize_toNat]

theorem Recent.dropped {c : Cache BuiltinPolicy geo} {reqs : List Request}
    (hc : c.Recent (references geo reqs)) {r : Request} (hmiss : c.wayOf r.addr = none)
    (hinstalls : installs geo r = true) {e : RandStream}
    (hvalid : (c.sets (geo.setOf r.addr) (c.pickWay e (geo.setOf r.addr)).1).valid = true) :
    (recencyLists geo reqs (geo.setOf r.addr)).dropped (installs geo r) (geo.blockOf r.addr) =
      some (lineBlock c.sets (geo.setOf r.addr) (c.pickWay e (geo.setOf r.addr)).1) := by
  obtain ⟨p, hrepl, hst⟩ := hc.stacked
  obtain ⟨ws, hws⟩ := hst (geo.setOf r.addr)
  obtain ⟨-, hway⟩ := Recent.pickWay_lru hrepl e (geo.setOf r.addr)
  -- the victim is valid, so the set is full
  obtain ⟨hfull, hvictim⟩ := hway.resolve_left fun hempty =>
    Bool.false_ne_true ((emptyWay_eq_some hempty).1.symm.trans hvalid)
  obtain ⟨hlen, hlast⟩ := hws.full hfull
  rw [hws.length_eq] at hlen
  have habsent : geo.blockOf r.addr ∉
      stack geo.ways (inSet geo (geo.setOf r.addr) (references geo reqs)) := by
    intro hmem
    apply wayOf_eq_none.mp hmiss
    apply (hc.resident_iff r.addr).mpr
    exact (Recent.held_iff_mem r.addr).mpr hmem
  rw [RecencyList.dropped, recencyLists_items, if_pos ⟨habsent, hinstalls, hlen⟩, ← hws.blocks, hlast,
    List.map_append, hvictim]
  exact List.getLast?_concat

theorem Recent.sends {c c' : Cache BuiltinPolicy geo} {reqs : List Request}
    (hc : c.Recent (references geo reqs)) {r : Request} {b : Bool} {calls : List Request}
    (hstep : Step RandStream c r b calls c') :
    (c'.stats.writebacks = c.stats.writebacks ∧ ∀ q ∈ calls, q.addr = r.addr) ∨
      (c'.stats.writebacks = c.stats.writebacks + 1 ∧ ∃ d v,
        (recencyLists geo reqs (geo.setOf r.addr)).dropped (installs geo r) (geo.blockOf r.addr) = some d ∧
        d ∉ ((recencyLists geo reqs (geo.setOf r.addr)).access (installs geo r)
          (geo.blockOf r.addr)).items ∧
        v.toNat = d.toNat * geo.cfg.blockSize.toNat ∧ calls = [⟨r.addr, false⟩, ⟨v, true⟩]) := by
  cases hstep with
  | hit w e hw =>
    left
    refine ⟨afterHit_writebacks c r w _, fun q hq => forwarded_addr hq⟩
  | around hw hr ha =>
    left
    refine ⟨missed_writebacks c r, fun q hq => ?_⟩
    rw [List.mem_singleton.mp hq]
  | fill e e' hw ha =>
    by_cases hd : c.DirtyVictim (geo.setOf r.addr) (c.pickWay e (geo.setOf r.addr)).1
    · right
      have hdropped := hc.dropped hw (installs_of_fill ha) hd.1
      have hleaves := ((RecencyList.dropped_eq_some_iff ..).mp hdropped).2
      refine ⟨?_, _, geo.victimAddr (c.sets (geo.setOf r.addr) (c.pickWay e (geo.setOf r.addr)).1).tag
        (geo.decode r.addr).setIndex, hdropped, hleaves, ?_, ?_⟩
      · simp only [afterFill, if_pos hd, missed_writebacks]
      · exact victimWrite_toNat hc hd.1
      · rw [fillCalls, victimWrite, if_pos hd, forwarded, if_neg (by simp [hd.2.2])]
        rfl
    · left
      refine ⟨?_, fun q hq => ?_⟩
      · simp only [afterFill, if_neg hd, missed_writebacks]
        rfl
      · rw [fillCalls, victimWrite, if_neg hd, List.nil_append] at hq
        rcases List.mem_cons.mp hq with rfl | hq
        · rfl
        · exact forwarded_addr hq

theorem lru_refines_lists {σ : Type} [MemoryLevel RandStream σ] (hLRU : geo.cfg.replacement = .LRU)
    {order : HashOrder UInt64 ℕ} {next : Logged σ Request Bool} {reqs : List Request}
    {s : Cache BuiltinPolicy geo × Logged σ Request Bool}
    (h : Called RandStream
      (fresh order (makeReplacement geo.cfg.replacement geo.sets geo.ways), next) reqs s) :
    let L := recencyLists geo reqs
    s.1.Refines L ∧ (∀ a, s.1.Resident a ↔ geo.blockOf a ∈ (L (geo.setOf a)).items) ∧
      ∀ (e : RandStream) (r : Request),
        let l := L (geo.setOf r.addr)
        let out := serve s e r
        (out.1 = true ↔ geo.blockOf r.addr ∈ l.items) ∧
        out.2.1.1.Refines
          (Function.update L (geo.setOf r.addr) (l.access (installs geo r) (geo.blockOf r.addr))) ∧
        ∃ sent, out.2.1.2.log.map Prod.fst = s.2.log.map Prod.fst ++ sent ∧
          ((out.2.1.1.stats.writebacks = s.1.stats.writebacks ∧ ∀ q ∈ sent, q.addr = r.addr) ∨
            (out.2.1.1.stats.writebacks = s.1.stats.writebacks + 1 ∧ ∃ d v,
              l.dropped (installs geo r) (geo.blockOf r.addr) = some d ∧
              d ∉ (l.access (installs geo r) (geo.blockOf r.addr)).items ∧
              v.toNat = d.toNat * geo.cfg.blockSize.toNat ∧ sent = [⟨r.addr, false⟩, ⟨v, true⟩])) := by
  have hrecent := (called_recalls hLRU h).recent
  have hresident : ∀ a, s.1.Resident a ↔
      geo.blockOf a ∈ (recencyLists geo reqs (geo.setOf a)).items := by
    intro a
    rw [recencyLists_items]
    exact (hrecent.resident_iff a).trans (Recent.held_iff_mem a)
  refine ⟨hrecent.refines, hresident, fun e r => ?_⟩
  obtain ⟨calls, hstep, hcalls⟩ := access_step s.1 s.2 e r
  have hnext := (called_recalls hLRU (h.append (.one s e r))).recent.refines
  rw [recencyLists_append] at hnext
  exact ⟨hstep.hit_iff.trans (hresident r.addr), hnext, calls, hcalls.logged, hrecent.sends hstep⟩

theorem lru_refines_lists_pair :
    ∃ s, s = (run ((fresh .newestFirst (makeReplacement .LRU _ _), { state := {} }) :
        Cache BuiltinPolicy (pairGeometry .WriteAllocate) × Logged Memory Request Bool) RandStream.zeros
        [⟨0, true⟩, ⟨4, false⟩]).2.1 ∧
      s.1.Refines (recencyLists (pairGeometry .WriteAllocate) [⟨0, true⟩, ⟨4, false⟩]) := by
  have h := run_called ((fresh .newestFirst (makeReplacement .LRU _ _), { state := {} }) :
    Cache BuiltinPolicy (pairGeometry .WriteAllocate) × Logged Memory Request Bool) RandStream.zeros
    [⟨0, true⟩, ⟨4, false⟩]
  exact ⟨_, rfl, (lru_refines_lists (by rfl) h).1⟩

end CacheSim.Cache
