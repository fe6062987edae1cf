import CacheSim.AddressShift
import CacheSim.CacheStep

namespace CacheSim

open Service MemoryLevel Recency Stamps

def Draws (E : RandStream → RandStream → Prop) : Prop :=
  ∀ e e', E e e' → (rand e).1 = (rand e').1 ∧ E (rand e).2 (rand e').2

theorem draws_eq : Draws Eq := by
  rintro e _ rfl
  exact ⟨rfl, rfl⟩

inductive Agrees {S A : ℕ} (E : RandStream → RandStream → Prop) (f : Fin S → Fin S) :
    BuiltinPolicy S A → BuiltinPolicy S A → Prop
  | lru {p p' : LRUPolicy S A} (hclock : p'.clock = p.clock)
      (hstamps : ∀ s, p'.lastUsed (f s) = p.lastUsed s) : Agrees E f (.lru p) (.lru p')
  | fifo {p p' : FIFOPolicy S A} (hclock : p'.clock = p.clock)
      (hstamps : ∀ s, p'.insertTime (f s) = p.insertTime s) : Agrees E f (.fifo p) (.fifo p')
  | random (hdraw : Draws E) : Agrees E f .random .random

namespace Agrees

variable {S A : ℕ} {E : RandStream → RandStream → Prop} {f : Fin S → Fin S} {p p' : BuiltinPolicy S A}
  {e e' : RandStream}

theorem stampAt_rename (hf : Function.Injective f) {t t' : Fin S → Fin A → ℕ}
    (h : ∀ s, t' (f s) = t s) (set : Fin S) (way : Fin A) (n : ℕ) (s : Fin S) :
    stampAt t' (f set) way n (f s) = stampAt t set way n s := by
  unfold stampAt
  by_cases hs : s = set
  · rw [hs, Function.update_self, Function.update_self, h]
  · rw [Function.update_of_ne hs, Function.update_of_ne (hf.ne hs), h]

theorem onAccess (hf : Function.Injective f) (h : Agrees E f p p') (hE : E e e') (set : Fin S)
    (way : Fin A) :
    Agrees E f (ReplacementPolicy.onAccess p e set way).1
        (ReplacementPolicy.onAccess p' e' (f set) way).1 ∧
      E (ReplacementPolicy.onAccess p e set way).2 (ReplacementPolicy.onAccess p' e' (f set) way).2 := by
  cases h with
  | @lru p p' hclock hstamps =>
    refine ⟨.lru (congrArg (· + 1) hclock) fun s => ?_, hE⟩
    simp only [LRUPolicy.onAccess, hclock]
    exact stampAt_rename hf hstamps set way _ s
  | fifo hclock hstamps => exact ⟨.fifo hclock hstamps, hE⟩
  | random hdraw => exact ⟨.random hdraw, hE⟩

theorem onInsert (hf : Function.Injective f) (h : Agrees E f p p') (hE : E e e') (set : Fin S)
    (way : Fin A) :
    Agrees E f (ReplacementPolicy.onInsert p e set way).1
        (ReplacementPolicy.onInsert p' e' (f set) way).1 ∧
      E (ReplacementPolicy.onInsert p e set way).2 (ReplacementPolicy.onInsert p' e' (f set) way).2 := by
  cases h with
  | @lru p p' hclock hstamps =>
    refine ⟨.lru (congrArg (· + 1) hclock) fun s => ?_, hE⟩
    simp only [LRUPolicy.onInsert, hclock]
    exact stampAt_rename hf hstamps set way _ s
  | @fifo p p' hclock hstamps =>
    refine ⟨.fifo (congrArg (· + 1) hclock) fun s => ?_, hE⟩
    simp only [FIFOPolicy.onInsert, hclock]
    exact stampAt_rename hf hstamps set way _ s
  | random hdraw => exact ⟨.random hdraw, hE⟩

theorem getVictim [NeZero A] (h : Agrees E f p p') (hE : E e e') (set : Fin S) :
    (ReplacementPolicy.getVictim p' e' (f set)).1 = (ReplacementPolicy.getVictim p e set).1 ∧
      Agrees E f (ReplacementPolicy.getVictim p e set).2.1
        (ReplacementPolicy.getVictim p' e' (f set)).2.1 ∧
      E (ReplacementPolicy.getVictim p e set).2.2 (ReplacementPolicy.getVictim p' e' (f set)).2.2 := by
  cases h with
  | @lru p p' hclock hstamps =>
    refine ⟨?_, .lru hclock hstamps, hE⟩
    change scanMinTop (p'.lastUsed (f set)) 0 _ = scanMinTop (p.lastUsed set) 0 _
    rw [hstamps]
  | @fifo p p' hclock hstamps =>
    refine ⟨?_, .fifo hclock hstamps, hE⟩
    change scanMinTop (p'.insertTime (f set)) 0 _ = scanMinTop (p.insertTime set) 0 _
    rw [hstamps]
  | random hdraw =>
    obtain ⟨hdrawn, hrest⟩ := hdraw e e' hE
    exact ⟨congrArg (Fin.ofNat A) hdrawn.symm, .random hdraw, hrest⟩

end Agrees

structure Renamed (f : UInt64 → UInt64) (r r' : RefFACache) : Prop where
  capacity_eq : r'.capacity = r.capacity
  capacity_pos : 0 < r.capacity
  lists : ∃ l, l.length ≤ r.capacity ∧ r.Represents l ∧ r'.Represents (l.map f)

theorem Renamed.touch {f : UInt64 → UInt64} (hf : Function.Injective f) {r r' : RefFACache}
    (h : Renamed f r r') (b : UInt64) :
    (r'.touch (f b)).1 = (r.touch b).1 ∧ Renamed f (r.touch b).2 (r'.touch (f b)).2 := by
  obtain ⟨l, hlen, hl, hl'⟩ := h.lists
  have hlen' : (l.map f).length ≤ r'.capacity := by rwa [List.length_map, h.capacity_eq]
  obtain ⟨hheld, hnext⟩ := hl.touch hlen h.capacity_pos b
  obtain ⟨hheld', hnext'⟩ := hl'.touch hlen' (by rw [h.capacity_eq]; exact h.capacity_pos) (f b)
  refine ⟨?_, ?_, ?_, refer r.capacity true b l, ?_, hnext, ?_⟩
  · rw [hheld, hheld']
    exact decide_eq_decide.mpr (List.mem_map_of_injective hf)
  · rw [RefFACache.touch_capacity, RefFACache.touch_capacity, h.capacity_eq]
  · rw [RefFACache.touch_capacity]
    exact h.capacity_pos
  · rw [RefFACache.touch_capacity]
    exact refer_length_le true b hlen
  · rwa [refer_map hf, ← h.capacity_eq]

theorem Renamed.touch_map {f : UInt64 → UInt64} (hf : Function.Injective f) {r r' : Option RefFACache}
    (h : Option.Rel (Renamed f) r r') (b : UInt64) :
    Option.Rel (Renamed f) (r.map fun r => (r.touch b).2) (r'.map fun r => (r.touch (f b)).2) := by
  cases h with
  | some h => exact .some (h.touch hf b).2
  | none => exact .none

def shift (k : ℕ) (r : Request) : Request := { r with addr := r.addr + UInt64.ofNat k }

namespace Cache

variable {geo : Geometry}

structure MovedLine (geo : Geometry) (k : ℕ) (s : Fin geo.sets) (line line' : CacheLine) : Prop where
  valid_eq : line'.valid = line.valid
  dirty_eq : line'.dirty = line.dirty
  tags : line.valid = true → ∃ a, geo.setOf a = s ∧ geo.tagOf a = line.tag ∧
    geo.tagOf (a + UInt64.ofNat k) = line'.tag

structure Moved (E : RandStream → RandStream → Prop) (k : ℕ) (c c' : Cache BuiltinPolicy geo) : Prop where
  aligned : geo.cfg.blockSize.toNat ∣ k
  lines : ∀ s w, MovedLine geo k s (c.sets s w) (c'.sets (geo.moveSet k s) w)
  repl : Agrees E (geo.moveSet k) c.repl c'.repl
  stats_eq : c'.stats = c.stats
  refFA : Option.Rel (Renamed (geo.moveBlock k)) c.refFA c'.refFA
  seen_eq : c'.seen = c.seen.image (geo.moveBlock k)

namespace Moved

variable {E : RandStream → RandStream → Prop} {k : ℕ} {c c' : Cache BuiltinPolicy geo}

theorem withStats (h : Moved E k c c') (f : Stats → Stats) :
    Moved E k { c with stats := f c.stats } { c' with stats := f c'.stats } :=
  { h with stats_eq := congrArg f h.stats_eq }

theorem countAccess (h : Moved E k c c') (isWrite : Bool) :
    Moved E k (c.countAccess isWrite) (c'.countAccess isWrite) := by
  cases isWrite with
  | false => exact h.withStats fun s => { s with accesses := s.accesses + 1, reads := s.reads + 1 }
  | true => exact h.withStats fun s => { s with accesses := s.accesses + 1, writes := s.writes + 1 }

theorem setLine (h : Moved E k c c') {set : Fin geo.sets} {way : Fin geo.ways} {line line' : CacheLine}
    (hline : MovedLine geo k set line line') :
    Moved E k (c.setLine set way line) (c'.setLine (geo.moveSet k set) way line') where
  __ := h
  lines := by
    intro s w
    have hsame : geo.moveSet k s = geo.moveSet k set ↔ s = set := (geo.moveSet_injective k).eq_iff
    change MovedLine geo k s (putLine c.sets set way line s w)
      (putLine c'.sets (geo.moveSet k set) way line' (geo.moveSet k s) w)
    simp only [putLine_apply, hsame]
    split_ifs with hsw
    · rw [hsw.1]
      exact hline
    · exact h.lines s w

theorem classify (h : Moved E k c c') (a : UInt64) :
    Moved E k (c.classify (geo.blockOf a)) (c'.classify (geo.blockOf (a + UInt64.ofNat k))) := by
  have hinj := geo.moveBlock_injective k
  rw [Geometry.blockOf_add h.aligned]
  unfold Cache.classify
  rcases hf : c.refFA with _ | f <;> rcases hf' : c'.refFA with _ | f'
  · exact h
  · have hrel := h.refFA
    rw [hf, hf'] at hrel
    cases hrel
  · have hrel := h.refFA
    rw [hf, hf'] at hrel
    cases hrel
  · have hrel := h.refFA
    rw [hf, hf'] at hrel
    cases hrel with
    | some hrel =>
      obtain ⟨hheld, htouch⟩ := hrel.touch hinj (geo.blockOf a)
      have hseen : geo.moveBlock k (geo.blockOf a) ∈ c'.seen ↔ geo.blockOf a ∈ c.seen := by
        rw [h.seen_eq, hinj.mem_finset_image]
      have hinsert : insert (geo.moveBlock k (geo.blockOf a)) c'.seen =
          (insert (geo.blockOf a) c.seen).image (geo.moveBlock k) := by
        rw [Finset.image_insert, h.seen_eq]
      dsimp only
      rw [hheld]
      by_cases hb : geo.blockOf a ∈ c.seen
      · have hb' := hseen.mpr hb
        rw [if_neg (not_not_intro hb), if_neg (not_not_intro hb')]
        split_ifs
        · exact { h with refFA := .some htouch, stats_eq := by simp only [h.stats_eq] }
        · exact { h with refFA := .some htouch, stats_eq := by simp only [h.stats_eq] }
      · rw [if_pos hb, if_pos (mt hseen.mp hb)]
        exact { h with refFA := .some htouch, seen_eq := hinsert, stats_eq := by simp only [h.stats_eq] }

theorem findWay_eq (h : Moved E k c c') (a : UInt64) :
    findWay (c'.sets (geo.moveSet k (geo.setOf a))) (geo.tagOf (a + UInt64.ofNat k)) =
      findWay (c.sets (geo.setOf a)) (geo.tagOf a) := by
  unfold findWay
  congr 1
  funext w
  obtain ⟨hvalid, -, htags⟩ := h.lines (geo.setOf a) w
  rw [hvalid]
  cases hv : (c.sets (geo.setOf a) w).valid with
  | false => rfl
  | true =>
    obtain ⟨b, hset, htag, htag'⟩ := htags hv
    have hblock := Geometry.blockOf_add_inj h.aligned b a
    rw [geo.blockOf_eq_iff, geo.blockOf_eq_iff, Geometry.setOf_add h.aligned,
      Geometry.setOf_add h.aligned, hset] at hblock
    rw [← htag, ← htag', Bool.true_and, Bool.true_and, Bool.eq_iff_iff, beq_iff_eq, beq_iff_eq]
    simpa using hblock

theorem emptyWay_eq (h : Moved E k c c') (set : Fin geo.sets) :
    emptyWay (c'.sets (geo.moveSet k set)) = emptyWay (c.sets set) := by
  unfold emptyWay
  congr 1
  funext w
  rw [(h.lines set w).valid_eq]

theorem pickWay {e e' : RandStream} (h : Moved E k c c') (hE : E e e') (set : Fin geo.sets) :
    (c'.pickWay e' (geo.moveSet k set)).1 = (c.pickWay e set).1 ∧
      Agrees E (geo.moveSet k) (c.pickWay e set).2.1 (c'.pickWay e' (geo.moveSet k set)).2.1 ∧
      E (c.pickWay e set).2.2 (c'.pickWay e' (geo.moveSet k set)).2.2 := by
  unfold Cache.pickWay
  rw [h.emptyWay_eq set]
  cases emptyWay (c.sets set) with
  | some w => exact ⟨rfl, h.repl, hE⟩
  | none => exact h.repl.getVictim hE set

variable {σ τ : Type} [MemoryLevel RandStream σ] [MemoryLevel RandStream τ] {R : σ → τ → Prop}
  {next : σ} {next' : τ} {e e' : RandStream}

def Joint (E : RandStream → RandStream → Prop) (k : ℕ) (R : σ → τ → Prop)
    (x : (Cache BuiltinPolicy geo × σ) × RandStream) (y : (Cache BuiltinPolicy geo × τ) × RandStream) :
    Prop :=
  (Moved E k x.1.1 y.1.1 ∧ R x.1.2 y.1.2) ∧ E x.2 y.2

theorem hit (hnext : Follows E (shift k) R) (h : Moved E k c c') (hR : R next next') (hE : E e e')
    (r : Request) {w : Fin geo.ways} (hw : (c.sets (geo.setOf r.addr) w).valid = true) :
    Joint E k R (c.hit next e r.addr r.isWrite w)
      (c'.hit next' e' (r.addr + UInt64.ofNat k) r.isWrite w) := by
  obtain ⟨addr, isWrite⟩ := r
  dsimp only at hw ⊢
  have hset := Geometry.setOf_add h.aligned addr
  obtain ⟨hrepl, hE₁⟩ := h.repl.onAccess (geo.moveSet_injective k) hE (geo.setOf addr) w
  have hrefFA : Option.Rel (Renamed (geo.moveBlock k))
      (c.refFA.map fun r => (r.touch (geo.decode addr).blockAddr).2)
      (c'.refFA.map fun r => (r.touch (geo.decode (addr + UInt64.ofNat k)).blockAddr).2) := by
    have htouch := Renamed.touch_map (geo.moveBlock_injective k) h.refFA (geo.blockOf addr)
    rwa [← Geometry.blockOf_add h.aligned] at htouch
  rw [← hset] at hrepl hE₁
  have htouched : Moved E k
      { c with
        stats := { c.stats with hits := c.stats.hits + 1 }
        repl := (ReplacementPolicy.onAccess c.repl e (geo.setOf addr) w).1
        refFA := c.refFA.map fun r => (r.touch (geo.decode addr).blockAddr).2 }
      { c' with
        stats := { c'.stats with hits := c'.stats.hits + 1 }
        repl := (ReplacementPolicy.onAccess c'.repl e' (geo.setOf (addr + UInt64.ofNat k)) w).1
        refFA := c'.refFA.map fun r => (r.touch (geo.decode (addr + UInt64.ofNat k)).blockAddr).2 } :=
    { h with
      repl := hrepl
      refFA := hrefFA
      stats_eq := by simp only [h.stats_eq] }
  cases isWrite with
  | false => exact ⟨⟨htouched, hR⟩, hE₁⟩
  | true =>
    unfold Cache.hit
    dsimp only
    rw [if_pos rfl, if_pos rfl]
    split_ifs with hp
    · obtain ⟨hR', hE'⟩ := hnext next next' _ _ ⟨addr, true⟩ hR hE₁
      exact ⟨⟨htouched, hR'⟩, hE'⟩
    · refine ⟨⟨?_, hR⟩, hE₁⟩
      have hline := h.lines (geo.setOf addr) w
      rw [hset]
      rw [hset] at htouched
      exact htouched.setLine ⟨hline.valid_eq, rfl, hline.tags⟩

theorem writeBack (hnext : Follows E (shift k) R) (h : Moved E k c c') (hR : R next next') (hE : E e e')
    (a : UInt64) (w : Fin geo.ways) :
    Joint E k R (c.writeBack next e (geo.decode a).setIndex (geo.setOf a) w)
      (c'.writeBack next' e' (geo.decode (a + UInt64.ofNat k)).setIndex
        (geo.setOf (a + UInt64.ofNat k)) w) := by
  have hset := Geometry.setOf_add h.aligned a
  obtain ⟨hvalid, hdirty, htags⟩ := h.lines (geo.setOf a) w
  rw [← hset] at hvalid hdirty htags
  unfold Cache.writeBack
  dsimp only
  rw [hvalid, hdirty]
  split_ifs with hd
  · obtain ⟨b, hb, htag, htag'⟩ := htags hd.1
    have hb' : geo.setOf (b + UInt64.ofNat k) = geo.setOf (a + UInt64.ofNat k) := by
      rw [hset, Geometry.setOf_add h.aligned, hb]
    have haddr := Geometry.victimAddr_add h.aligned b
    rw [htag, htag', Geometry.setIndex_congr hb, Geometry.setIndex_congr hb'] at haddr
    rw [haddr]
    obtain ⟨hR', hE'⟩ := hnext next next' e e' ⟨geo.victimAddr (c.sets (geo.setOf a) w).tag
      (geo.decode a).setIndex, true⟩ hR hE
    exact ⟨⟨h.withStats fun s => { s with writebacks := s.writebacks + 1 }, hR'⟩, hE'⟩
  · exact ⟨⟨h, hR⟩, hE⟩

theorem install (hnext : Follows E (shift k) R) (h : Moved E k c c') (hR : R next next') (hE : E e e')
    (r : Request) (w : Fin geo.ways) :
    Joint E k R (c.install next e r.addr r.isWrite w)
      (c'.install next' e' (r.addr + UInt64.ofNat k) r.isWrite w) := by
  obtain ⟨addr, isWrite⟩ := r
  have hline : ∀ dirty, Moved E k
      (c.setLine (geo.setOf addr) w ⟨true, dirty, (geo.decode addr).tag⟩)
      (c'.setLine (geo.setOf (addr + UInt64.ofNat k)) w
        ⟨true, dirty, (geo.decode (addr + UInt64.ofNat k)).tag⟩) := by
    intro dirty
    rw [Geometry.setOf_add h.aligned]
    exact h.setLine ⟨rfl, rfl, fun _ => ⟨addr, rfl, rfl, rfl⟩⟩
  unfold Cache.install
  cases isWrite with
  | false => exact ⟨⟨hline false, hR⟩, hE⟩
  | true =>
    dsimp only
    rw [if_pos rfl, if_pos rfl]
    split_ifs with hp
    · obtain ⟨hR', hE'⟩ := hnext next next' e e' ⟨addr, true⟩ hR hE
      exact ⟨⟨hline false, hR'⟩, hE'⟩
    · exact ⟨⟨hline true, hR⟩, hE⟩

theorem allocate (hnext : Follows E (shift k) R) (h : Moved E k c c') (hR : R next next') (hE : E e e')
    (r : Request) :
    Joint E k R (c.allocate next e r.addr r.isWrite)
      (c'.allocate next' e' (r.addr + UInt64.ofNat k) r.isWrite) := by
  have hset := Geometry.setOf_add h.aligned r.addr
  -- the fetch, the choice of the frame, the write-back, the store and the stamp, in the source's order
  obtain ⟨hR₁, hE₁⟩ := hnext next next' e e' ⟨r.addr, false⟩ hR hE
  obtain ⟨hway, hrepl, hE₂⟩ := h.pickWay hE₁ (geo.setOf r.addr)
  rw [← hset] at hway hrepl hE₂
  have hchosen : Moved E k
      { c with repl := (c.pickWay (serve next e ⟨r.addr, false⟩).2.2 (geo.setOf r.addr)).2.1 }
      { c' with repl := (c'.pickWay (serve next' e' (shift k ⟨r.addr, false⟩)).2.2
          (geo.setOf (r.addr + UInt64.ofNat k))).2.1 } := { h with repl := hrepl }
  obtain ⟨⟨hcache₁, hR₃⟩, hE₃⟩ := hchosen.writeBack hnext hR₁ hE₂ r.addr
    (c.pickWay (serve next e ⟨r.addr, false⟩).2.2 (geo.setOf r.addr)).1
  obtain ⟨⟨hcache₂, hR₄⟩, hE₄⟩ := hcache₁.install hnext hR₃ hE₃ r
    (c.pickWay (serve next e ⟨r.addr, false⟩).2.2 (geo.setOf r.addr)).1
  obtain ⟨hrepl', hE₅⟩ := hcache₂.repl.onInsert (geo.moveSet_injective k) hE₄ (geo.setOf r.addr)
    (c.pickWay (serve next e ⟨r.addr, false⟩).2.2 (geo.setOf r.addr)).1
  rw [← hset] at hrepl' hE₅
  unfold Cache.allocate
  dsimp only [MemoryLevel.access]
  rw [show (⟨r.addr + UInt64.ofNat k, false⟩ : Request) = shift k ⟨r.addr, false⟩ from rfl, hway]
  exact ⟨⟨{ hcache₂ with repl := hrepl' }, hR₄⟩, hE₅⟩

end Moved

variable {E : RandStream → RandStream → Prop} {k : ℕ} {σ τ : Type} [MemoryLevel RandStream σ]
  [MemoryLevel RandStream τ] {R : σ → τ → Prop}

theorem moved_simulates (hnext : Follows E (shift k) R) :
    Simulates E (shift k) fun (s : Cache BuiltinPolicy geo × σ) (t : Cache BuiltinPolicy geo × τ) =>
      Moved E k s.1 t.1 ∧ R s.2 t.2 := by
  have hserve : ∀ (s : Cache BuiltinPolicy geo × σ) (t : Cache BuiltinPolicy geo × τ)
      (e e' : RandStream) (r : Request), Moved E k s.1 t.1 ∧ R s.2 t.2 → E e e' →
      (serve s e r).1 = (serve t e' (shift k r)).1 ∧
        Moved.Joint E k R (serve s e r).2 (serve t e' (shift k r)).2 := by
    rintro ⟨c, next⟩ ⟨c', next'⟩ e e' r ⟨h, hR⟩ hE
    change (c.access next e r.addr r.isWrite).1 =
        (c'.access next' e' (r.addr + UInt64.ofNat k) r.isWrite).1 ∧
      Moved.Joint E k R (c.access next e r.addr r.isWrite).2
        (c'.access next' e' (r.addr + UInt64.ofNat k) r.isWrite).2
    have hcounted := h.countAccess r.isWrite
    have hfind := hcounted.findWay_eq r.addr
    rw [← Geometry.setOf_add h.aligned] at hfind
    unfold Cache.access
    dsimp only
    change findWay ((c'.countAccess r.isWrite).sets (geo.setOf (r.addr + UInt64.ofNat k)))
      (geo.decode (r.addr + UInt64.ofNat k)).tag = findWay ((c.countAccess r.isWrite).sets
        (geo.setOf r.addr)) (geo.decode r.addr).tag at hfind
    rw [hfind]
    cases hw : findWay ((c.countAccess r.isWrite).sets (geo.setOf r.addr)) (geo.decode r.addr).tag with
    | some w => exact ⟨rfl, hcounted.hit hnext hR hE r (findWay_eq_some hw).1⟩
    | none =>
      have hmissed := (hcounted.withStats fun s => { s with misses := s.misses + 1 }).classify r.addr
      dsimp only
      split_ifs with ha
      · obtain ⟨hR', hE'⟩ := hnext next next' e e' ⟨r.addr, true⟩ hR hE
        exact ⟨rfl, ⟨hmissed, hR'⟩, hE'⟩
      · exact ⟨rfl, hmissed.allocate hnext hR hE r⟩
  exact ⟨fun s t e e' r hR hE => (hserve s t e e' r hR hE).2, fun s t e e' r hR hE =>
    (hserve s t e e' r hR hE).1⟩

theorem moved_fresh {E : RandStream → RandStream → Prop} {k : ℕ} (order order' : HashOrder UInt64 ℕ)
    (hk : geo.cfg.blockSize.toNat ∣ k) (hdraw : geo.cfg.replacement = .Random → Draws E) :
    Moved E k (fresh order (makeReplacement geo.cfg.replacement geo.sets geo.ways))
      (fresh order' (makeReplacement geo.cfg.replacement geo.sets geo.ways)) where
  aligned := hk
  lines s w := ⟨rfl, rfl, fun h => absurd h Bool.false_ne_true⟩
  repl := by
    change Agrees E _ (makeReplacement geo.cfg.replacement geo.sets geo.ways)
      (makeReplacement geo.cfg.replacement geo.sets geo.ways)
    cases hr : geo.cfg.replacement with
    | LRU => exact .lru rfl fun _ => rfl
    | FIFO => exact .fifo rfl fun _ => rfl
    | Random => exact .random (hdraw hr)
  stats_eq := rfl
  refFA := by
    unfold fresh
    split_ifs
    · exact .some ⟨rfl, geo.totalLines_pos, [], Nat.zero_le _, RefFACache.new_represents order _,
        RefFACache.new_represents order' _⟩
    · exact .none
  seen_eq := rfl

end Cache

end CacheSim
