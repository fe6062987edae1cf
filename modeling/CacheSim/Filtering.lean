import CacheSim.DirectMapped
import CacheSim.SetIndependence

/-!
A direct-mapped, write-through first level as a filter. The references it absorbs are to the block that
its set of the second level used last, so the second level would not have noticed them.
-/

namespace CacheSim

open Service Stamps

variable {ε σ τ : Type} {ρ : ℕ → ℕ → Type} {geo geo₁ geo₂ : Geometry}

namespace Stamps.SameOrder

variable {κ : Type} {t t' t'' : κ → ℕ}

theorem symm (h : SameOrder t t') : SameOrder t' t := fun i j => (h i j).symm

theorem trans (h : SameOrder t t') (h' : SameOrder t' t'') : SameOrder t t'' :=
  fun i j => (h i j).trans (h' i j)

theorem retouch [DecidableEq κ] {n : ℕ} (h : SameOrder t t') (hn : ∀ i, t i ≤ n) {k : κ}
    (hk : ∀ i, i ≠ k → t i < t k) : SameOrder (Function.update t k (n + 1)) t' := by
  refine trans (fun i j => ?_) h
  have hi := hn i
  have hj := hn j
  by_cases hik : i = k <;> by_cases hjk : j = k
  · rw [hik, hjk]
    simp
  · have hlt := hk j hjk
    rw [hik, Function.update_self, Function.update_of_ne hjk]
    omega
  · have hlt := hk i hik
    rw [hjk, Function.update_self, Function.update_of_ne hik]
    omega
  · rw [Function.update_of_ne hik, Function.update_of_ne hjk]

end Stamps.SameOrder

namespace LRUPolicy

variable {S A : ℕ} {s set : Fin S} {way : Fin A} {p p' p'' : LRUPolicy S A}

def Latest (p : LRUPolicy S A) (s : Fin S) (way : Fin A) : Prop :=
  ∀ w, w ≠ way → p.lastUsed s w < p.lastUsed s way

theorem Alike.symm (h : Alike s p p') : Alike s p' p := ⟨h.order.symm, h.bounded', h.bounded⟩

theorem Alike.trans (h : Alike s p p') (h' : Alike s p' p'') : Alike s p p'' :=
  ⟨h.order.trans h'.order, h.bounded, h'.bounded'⟩

theorem Alike.retouch (h : Alike s p p') (hlatest : p.Latest s way) : Alike s (p.onAccess s way) p' := by
  refine ⟨?_, (h.touch way).bounded, h.bounded'⟩
  have hstamps : (p.onAccess s way).lastUsed s = Function.update (p.lastUsed s) way (p.clock + 1) :=
    Function.update_self ..
  rw [hstamps]
  exact h.order.retouch h.bounded hlatest

theorem latest_touch (hbounded : ∀ w, p.lastUsed s w ≤ p.clock) : (p.onAccess s way).Latest s way := by
  intro w hw
  have hstamps : (p.onAccess s way).lastUsed s = Function.update (p.lastUsed s) way (p.clock + 1) :=
    Function.update_self ..
  have hle := hbounded w
  rw [hstamps, Function.update_self, Function.update_of_ne hw]
  omega

theorem Latest.other (h : p.Latest s way) (hs : s ≠ set) (w : Fin A) : (p.onAccess set w).Latest s way := by
  have hstamps : (p.onAccess set w).lastUsed s = p.lastUsed s := Function.update_of_ne hs ..
  rw [Latest, hstamps]
  exact h

end LRUPolicy

namespace BuiltinPolicy

variable {S A : ℕ} {s set : Fin S} {way : Fin A} {p p' p'' : BuiltinPolicy S A}

def Settled (s : Fin S) (way : Fin A) : BuiltinPolicy S A → Prop
  | .lru p => p.Latest s way
  | .fifo _ => True
  | .random => True

theorem Alike.symm (h : Alike s p p') : Alike s p' p := by
  cases h with
  | lru h => exact .lru h.symm
  | fifo h => exact .fifo h.symm

theorem Alike.trans (h : Alike s p p') (h' : Alike s p' p'') : Alike s p p'' := by
  cases h with
  | lru h => cases h' with | lru h' => exact .lru (h.trans h')
  | fifo h => cases h' with | fifo h' => exact .fifo (h.trans h')

theorem Alike.retouch (h : Alike s p p') (hsettled : p.Settled s way) (e : RandStream) :
    Alike s (ReplacementPolicy.onAccess p e s way).1 p' := by
  cases h with
  | lru h => exact .lru (h.retouch hsettled)
  | fifo h => exact .fifo h

theorem Alike.settled_onAccess (h : Alike s p p') (way : Fin A) (e : RandStream) :
    (ReplacementPolicy.onAccess p e s way).1.Settled s way := by
  cases h with
  | lru h => exact LRUPolicy.latest_touch h.bounded
  | fifo h => trivial

theorem Alike.settled_onInsert (h : Alike s p p') (way : Fin A) (e : RandStream) :
    (ReplacementPolicy.onInsert p e s way).1.Settled s way := by
  cases h with
  | lru h => exact LRUPolicy.latest_touch h.bounded
  | fifo h => trivial

theorem Settled.onAccess (h : p.Settled s way) (hs : s ≠ set) (w : Fin A) (e : RandStream) :
    (ReplacementPolicy.onAccess p e set w).1.Settled s way := by
  cases p with
  | lru p => exact LRUPolicy.Latest.other h hs w
  | fifo p => trivial
  | random => trivial

theorem Settled.onInsert (h : p.Settled s way) (hs : s ≠ set) (w : Fin A) (e : RandStream) :
    (ReplacementPolicy.onInsert p e set w).1.Settled s way := by
  cases p with
  | lru p => exact LRUPolicy.Latest.other h hs w
  | fifo p => trivial
  | random => trivial

end BuiltinPolicy

namespace Cache

theorem findWay_congr {A : ℕ} {lines lines' : CacheSet A}
    (h : ∀ w, (lines w).valid = (lines' w).valid ∧ (lines w).tag = (lines' w).tag) (tag : UInt64) :
    findWay lines tag = findWay lines' tag := by
  unfold findWay
  congr 1
  funext w
  rw [(h w).1, (h w).2]

theorem findWay_update {A : ℕ} {lines : CacheSet A} {tag : UInt64} (h : findWay lines tag = none)
    (way : Fin A) {line : CacheLine} (hvalid : line.valid = true) (htag : line.tag = tag) :
    findWay (Function.update lines way line) tag = some way := by
  have hfound : (findWay (Function.update lines way line) tag).isSome := by
    rw [Option.isSome_iff_ne_none, ne_eq, findWay_eq_none]
    intro hall
    apply hall way
    · rwa [Function.update_self]
    · rwa [Function.update_self]
  obtain ⟨w, hw⟩ := Option.isSome_iff_exists.mp hfound
  rw [hw]
  by_contra hne
  have hother : w ≠ way := fun h => hne (congrArg some h)
  have hold := findWay_eq_some hw
  rw [Function.update_of_ne hother] at hold
  exact findWay_eq_none.mp h w hold.1 hold.2

namespace SetAlike

variable {s : Fin geo.sets} {c c' c'' : Cache BuiltinPolicy geo}

theorem symm (h : SetAlike s c c') : SetAlike s c' c := ⟨h.lines.symm, h.repl.symm⟩

theorem trans (h : SetAlike s c c') (h' : SetAlike s c' c'') : SetAlike s c c'' :=
  ⟨h.lines.trans h'.lines, h.repl.trans h'.repl⟩

end SetAlike

def Foremost (c : Cache BuiltinPolicy geo) (a : UInt64) : Prop :=
  ∃ w, c.wayOf a = some w ∧ c.repl.Settled (geo.setOf a) w

theorem Foremost.congr {c : Cache BuiltinPolicy geo} {a b : UInt64} (h : c.Foremost a)
    (hab : geo.blockOf b = geo.blockOf a) : c.Foremost b := by
  obtain ⟨hset, htag⟩ := (geo.blockOf_eq_iff b a).mp hab
  rw [Foremost, wayOf, hset, htag]
  exact h

section

variable {s : Fin geo.sets} {c c' c₀ : Cache BuiltinPolicy geo} {r : Request} {b : Bool}
  {calls : List Request}

theorem Step.foremost (hstep : Step RandStream c r b calls c') (hc : SetAlike (geo.setOf r.addr) c c₀)
    (hr : installs geo r = true) : c'.Foremost r.addr := by
  cases hstep with
  | hit w e hw =>
    refine ⟨w, ?_, hc.repl.settled_onAccess w e⟩
    rw [← hw]
    exact findWay_congr (fun w' => afterHit_line c r w _ _ w') _
  | around hw hwrite ha => simp [installs, hwrite, ha] at hr
  | fill e e' hw ha =>
    refine ⟨(c.pickWay e (geo.setOf r.addr)).1, ?_, ?_⟩
    · simp only [wayOf, afterFill, putLine_same]
      exact findWay_update hw _ rfl rfl
    · rw [hc.pickWay_kept e]
      exact hc.repl.settled_onInsert _ e'

theorem Step.foremost_other (hstep : Step RandStream c r b calls c') (hc : SetAlike s c c₀) {a : UInt64}
    (ha : c.Foremost a) (hs : geo.setOf r.addr ≠ geo.setOf a) : c'.Foremost a := by
  obtain ⟨w, hw, hsettled⟩ := ha
  refine ⟨w, ?_, ?_⟩
  · rw [← hw]
    exact findWay_congr (fun w' => hstep.lines_kept (.inl hs) w') _
  · cases hstep with
    | hit w' e hw' => exact hsettled.onAccess (Ne.symm hs) w' e
    | around hw' hr ha =>
      rw [missed_repl]
      exact hsettled
    | fill e e' hw' ha =>
      change BuiltinPolicy.Settled _ _ (ReplacementPolicy.onInsert _ _ _ _).1
      rw [hc.pickWay_kept e]
      exact hsettled.onInsert (Ne.symm hs) _ e'

theorem Step.refresh (hstep : Step RandStream c r b calls c') (hc : SetAlike (geo.setOf r.addr) c c₀)
    (hforemost : c.Foremost r.addr) (hr : r.isWrite = false) :
    b = true ∧ calls = [] ∧ c'.stats.writebacks = c.stats.writebacks ∧
      SetAlike (geo.setOf r.addr) c' c₀ := by
  obtain ⟨w, hw, hsettled⟩ := hforemost
  cases hstep with
  | hit w' e hw' =>
    obtain rfl : w = w' := Option.some.inj (hw.symm.trans hw')
    refine ⟨rfl, if_neg (by simp [hr]), afterHit_writebacks c r w _, ?_, hc.repl.retouch hsettled e⟩
    rw [← hc.lines, afterHit, if_neg (by simp [hr])]
  | around hw' => rw [hw] at hw'; cases hw'
  | fill e e' hw' => rw [hw] at hw'; cases hw'

end

section

variable [ReplacementPolicy ε ρ] {c c' : Cache ρ geo} {r : Request} {b : Bool} {calls : List Request}

theorem Step.of_hit (hstep : Step ε c r b calls c') {w : Fin geo.ways} (hw : c.wayOf r.addr = some w) :
    b = true ∧ calls = forwarded geo r ∧
      ∃ e : ε, c' = c.afterHit r w (ReplacementPolicy.onAccess c.repl e (geo.setOf r.addr) w).1 := by
  cases hstep with
  | hit w' e hw' =>
    obtain rfl : w = w' := Option.some.inj (hw.symm.trans hw')
    exact ⟨rfl, rfl, e, rfl⟩
  | around hw' => rw [hw] at hw'; cases hw'
  | fill e e' hw' => rw [hw] at hw'; cases hw'

theorem Step.of_miss (hstep : Step ε c r b calls c') (hw : c.wayOf r.addr = none)
    (hr : installs geo r = true) :
    b = false ∧ ∃ e e' : ε, calls = c.fillCalls r (c.pickWay e (geo.setOf r.addr)).1 ∧
      c' = c.afterFill r (c.pickWay e (geo.setOf r.addr)).1
        (ReplacementPolicy.onInsert (c.pickWay e (geo.setOf r.addr)).2.1 e' (geo.setOf r.addr)
          (c.pickWay e (geo.setOf r.addr)).1).1 := by
  cases hstep with
  | hit w' e hw' => rw [hw] at hw'; cases hw'
  | around hw' hwrite ha => simp [installs, hwrite, ha] at hr
  | fill e e' hw' => exact ⟨rfl, e, e', rfl, rfl⟩

theorem afterHit_sets_load (c : Cache ρ geo) (a : UInt64) (w : Fin geo.ways) (repl : ρ geo.sets geo.ways) :
    (c.afterHit ⟨a, false⟩ w repl).sets = c.sets := by
  simp [afterHit]

theorem afterHit_set_store (c : Cache ρ geo) (a : UInt64) (w : Fin geo.ways) (repl : ρ geo.sets geo.ways) :
    (c.afterHit ⟨a, true⟩ w repl).sets (geo.setOf a) =
      if geo.cfg.writePolicy = .WriteBack then
        Function.update (c.sets (geo.setOf a)) w { c.sets (geo.setOf a) w with dirty := true }
      else c.sets (geo.setOf a) := by
  simp only [afterHit, true_and]
  split_ifs
  · exact putLine_same ..
  · rfl

end

section

variable {c c₁ c₂ c' : Cache BuiltinPolicy geo} {a : UInt64} {b b₁ b₂ : Bool}
  {calls calls₁ calls₂ : List Request}

theorem Step.read_then_write_hit (h₁ : Step RandStream c ⟨a, false⟩ b₁ calls₁ c₁)
    (h₂ : Step RandStream c₁ ⟨a, true⟩ b₂ calls₂ c₂) (h : Step RandStream c ⟨a, true⟩ b calls c')
    (hc : SetAlike (geo.setOf a) c c) {w : Fin geo.ways} (hw : c.wayOf a = some w) :
    b₁ = b ∧ calls₁ ++ calls₂ = calls ∧ c₂.stats.writebacks = c'.stats.writebacks ∧
      SetAlike (geo.setOf a) c₂ c' := by
  obtain ⟨rfl, rfl, e₁, rfl⟩ := h₁.of_hit hw
  obtain ⟨rfl, rfl, e, rfl⟩ := h.of_hit hw
  have hsame := afterHit_sets_load c a w (ReplacementPolicy.onAccess c.repl e₁ (geo.setOf a) w).1
  have hw₁ : (c.afterHit ⟨a, false⟩ w (ReplacementPolicy.onAccess c.repl e₁ (geo.setOf a) w).1).wayOf a =
      some w := by
    rw [wayOf, hsame]
    exact hw
  obtain ⟨-, rfl, e₂, rfl⟩ := h₂.of_hit hw₁
  refine ⟨rfl, ?_, ?_, ?_, ?_⟩
  · rw [forwarded, if_neg (by simp)]
    rfl
  · rw [afterHit_writebacks, afterHit_writebacks, afterHit_writebacks]
  · rw [afterHit_set_store, afterHit_set_store, hsame]
  · apply BuiltinPolicy.Alike.retouch (hc.repl.onAccess e₁ e w)
    exact hc.repl.settled_onAccess w e₁

theorem Step.read_then_write_miss (hWA : geo.cfg.allocPolicy = .WriteAllocate)
    (h₁ : Step RandStream c ⟨a, false⟩ b₁ calls₁ c₁) (h₂ : Step RandStream c₁ ⟨a, true⟩ b₂ calls₂ c₂)
    (h : Step RandStream c ⟨a, true⟩ b calls c') (hc : SetAlike (geo.setOf a) c c) (hw : c.wayOf a = none) :
    b₁ = b ∧ calls₁ ++ calls₂ = calls ∧ c₂.stats.writebacks = c'.stats.writebacks ∧
      SetAlike (geo.setOf a) c₂ c' := by
  obtain ⟨w, hw₁, hsettled⟩ := h₁.foremost hc rfl
  obtain ⟨rfl, e₁, e₁', rfl, rfl⟩ := h₁.of_miss hw rfl
  obtain ⟨rfl, e, e', rfl, rfl⟩ := h.of_miss hw (by simp [installs, hWA])
  obtain ⟨hpick, hkept, hkept'⟩ := hc.pickWay e₁ e
  dsimp only at hw₁ hsettled ⊢
  rw [← hpick, hkept']
  rw [hkept] at hw₁ hsettled h₂
  generalize (c.pickWay e₁ (geo.setOf a)).1 = way at *
  obtain rfl : way = w := by
    simp only [wayOf, afterFill, putLine_same] at hw₁
    rw [findWay_update hw way rfl rfl] at hw₁
    exact Option.some.inj hw₁
  obtain ⟨-, rfl, e₂, rfl⟩ := h₂.of_hit hw₁
  refine ⟨rfl, ?_, ?_, ?_, ?_⟩
  · simp [fillCalls, forwarded]
  · rw [afterHit_writebacks]
    simp only [afterFill, missed_writebacks]
  · rw [afterHit_set_store]
    simp only [afterFill, putLine_same, Function.update_self, Function.update_idem, filledLine]
    cases geo.cfg.writePolicy <;> rfl
  · apply BuiltinPolicy.Alike.retouch (hc.repl.onInsert e₁' e' way)
    exact hc.repl.settled_onInsert way e₁'

theorem Step.read_then_write (hWA : geo.cfg.allocPolicy = .WriteAllocate)
    (h₁ : Step RandStream c ⟨a, false⟩ b₁ calls₁ c₁) (h₂ : Step RandStream c₁ ⟨a, true⟩ b₂ calls₂ c₂)
    (h : Step RandStream c ⟨a, true⟩ b calls c') (hc : SetAlike (geo.setOf a) c c) :
    b₁ = b ∧ b₂ = true ∧ calls₁ ++ calls₂ = calls ∧ c₂.stats.writebacks = c'.stats.writebacks ∧
      SetAlike (geo.setOf a) c₂ c' := by
  have hb₂ : b₂ = true := h₂.hit_iff.mpr (h₁.resident_installed rfl)
  suffices hrest : b₁ = b ∧ calls₁ ++ calls₂ = calls ∧ c₂.stats.writebacks = c'.stats.writebacks ∧
      SetAlike (geo.setOf a) c₂ c' from ⟨hrest.1, hb₂, hrest.2⟩
  cases hw : c.wayOf a with
  | some w => exact Step.read_then_write_hit h₁ h₂ h hc hw
  | none => exact Step.read_then_write_miss hWA h₁ h₂ h hc hw

end

theorem Step.of_direct [ReplacementPolicy ε ρ] (hWT : geo.cfg.writePolicy = .WriteThrough)
    (hWA : geo.cfg.allocPolicy = .WriteAllocate) {c c' : Cache ρ geo} {r : Request} {b : Bool}
    {calls : List Request} (hstep : Step ε c r b calls c') :
    calls = (if b = true then [] else [⟨r.addr, false⟩]) ++ if r.isWrite = true then [r] else [] := by
  cases hstep with
  | hit w e hw => simp [forwarded, hWT]
  | around hw hr ha => rw [hWA] at ha; cases ha
  | fill e e' hw ha => simp [fillCalls, victimWrite, DirtyVictim, forwarded, hWT]

variable [MemoryLevel RandStream σ] [MemoryLevel RandStream τ]

structure Unnoticed (s : Cache BuiltinPolicy geo × Logged σ Request Bool)
    (s' : Cache BuiltinPolicy geo × Logged τ Request Bool) : Prop where
  sent : s.2.log.map Prod.fst = s'.2.log.map Prod.fst
  misses : s.1.stats.misses = s'.1.stats.misses
  writebacks : s.1.stats.writebacks = s'.1.stats.writebacks

theorem called_step {s t : Cache BuiltinPolicy geo × Logged σ Request Bool} {q : Request}
    {rest : List Request} (h : Called RandStream s (q :: rest) t) :
    ∃ b sent mid, Step RandStream s.1 q b sent mid.1 ∧
      mid.2.log.map Prod.fst = s.2.log.map Prod.fst ++ sent ∧ Called RandStream mid rest t := by
  obtain ⟨e, hrest⟩ := h.uncons
  obtain ⟨sent, hstep, hsent⟩ := access_step s.1 s.2 e q
  exact ⟨_, sent, _, hstep, hsent.logged, hrest⟩

section

variable {s t : Cache BuiltinPolicy geo × Logged σ Request Bool}
  {s' t' : Cache BuiltinPolicy geo × Logged τ Request Bool} {r : Request} {b : Bool}

theorem Unnoticed.one (h : Unnoticed s s') (hset : SetAlike (geo.setOf r.addr) s.1 s'.1)
    (hs : Called RandStream s [r] t) (hs' : Called RandStream s' [r] t') :
    Unnoticed t t' ∧ SetAlike (geo.setOf r.addr) t.1 t'.1 := by
  obtain ⟨b, sent, mid, hstep, hlog, hmid⟩ := called_step hs
  obtain ⟨b', sent', mid', hstep', hlog', hmid'⟩ := called_step hs'
  obtain rfl := hmid.unnil
  obtain rfl := hmid'.unnil
  obtain ⟨rfl, rfl, ⟨n, hn, hn'⟩, hnext⟩ := hset.same hstep hstep'
  obtain ⟨-, -, hmisses, -⟩ := hstep.counters
  obtain ⟨-, -, hmisses', -⟩ := hstep'.counters
  refine ⟨⟨?_, ?_, ?_⟩, hnext⟩
  · rw [hlog, hlog', h.sent]
  · rw [hmisses, hmisses', h.misses]
  · rw [hn, hn', h.writebacks]

omit [MemoryLevel RandStream σ] in
theorem Unnoticed.absorbed (h : Unnoticed s s') (hset : SetAlike (geo.setOf r.addr) s.1 s'.1)
    (hforemost : s'.1.Foremost r.addr) (hr : r.isWrite = false) (hs' : Called RandStream s' [r] t') :
    Unnoticed s t' ∧ SetAlike (geo.setOf r.addr) s.1 t'.1 := by
  obtain ⟨b', sent', mid', hstep', hlog', hmid'⟩ := called_step hs'
  obtain rfl := hmid'.unnil
  obtain ⟨rfl, rfl, hwritebacks, hnext⟩ := hstep'.refresh hset.symm hforemost hr
  obtain ⟨-, -, hmisses', -⟩ := hstep'.counters
  refine ⟨⟨?_, ?_, ?_⟩, hnext.symm⟩
  · rw [hlog', h.sent, List.append_nil]
  · rw [hmisses', h.misses]
    rfl
  · rw [hwritebacks, h.writebacks]

theorem Unnoticed.fetched (hWA : geo.cfg.allocPolicy = .WriteAllocate) {a : UInt64} (h : Unnoticed s s')
    (hset : SetAlike (geo.setOf a) s.1 s'.1) (hs : Called RandStream s [⟨a, false⟩, ⟨a, true⟩] t)
    (hs' : Called RandStream s' [⟨a, true⟩] t') : Unnoticed t t' ∧ SetAlike (geo.setOf a) t.1 t'.1 := by
  obtain ⟨b₁, sent₁, mid₁, hstep₁, hlog₁, hmid₁⟩ := called_step hs
  obtain ⟨b₂, sent₂, mid₂, hstep₂, hlog₂, hmid₂⟩ := called_step hmid₁
  obtain ⟨b', sent', mid', hstep', hlog', hmid'⟩ := called_step hs'
  obtain rfl := hmid₂.unnil
  obtain rfl := hmid'.unnil
  -- the store alone, made where the load and the store were
  obtain ⟨sent, hstep, -⟩ := access_step s.1 s.2 RandStream.zeros ⟨a, true⟩
  obtain ⟨rfl, rfl, rfl, hwritebacks, htwo⟩ :=
    hstep₁.read_then_write hWA hstep₂ hstep (hset.trans hset.symm)
  obtain ⟨hb, hsent, ⟨n, hn, hn'⟩, hnext⟩ := hset.same hstep hstep'
  obtain ⟨-, -, hmisses₁, -⟩ := hstep₁.counters
  obtain ⟨-, -, hmisses₂, -⟩ := hstep₂.counters
  obtain ⟨-, -, hmisses', -⟩ := hstep'.counters
  refine ⟨⟨?_, ?_, ?_⟩, htwo.trans hnext⟩
  · rw [hlog₂, hlog₁, hlog', h.sent, ← hsent, List.append_assoc]
  · rw [hmisses₂, hmisses₁, hmisses', h.misses, hb]
    rfl
  · rw [hwritebacks, hn, hn', h.writebacks]

theorem Unnoticed.step (hWA : geo.cfg.allocPolicy = .WriteAllocate) (h : Unnoticed s s')
    (hset : SetAlike (geo.setOf r.addr) s.1 s'.1) (hforemost : b = true → s'.1.Foremost r.addr)
    (hs : Called RandStream s
      ((if b = true then [] else [⟨r.addr, false⟩]) ++ if r.isWrite = true then [r] else []) t)
    (hs' : Called RandStream s' [r] t') : Unnoticed t t' ∧ SetAlike (geo.setOf r.addr) t.1 t'.1 := by
  obtain ⟨a, isWrite⟩ := r
  cases b with
  | true =>
    cases isWrite with
    | true => exact h.one hset hs hs'
    | false =>
      obtain rfl : s = t := hs.unnil
      exact h.absorbed hset (hforemost rfl) rfl hs'
  | false =>
    cases isWrite with
    | true => exact h.fetched hWA hset hs hs'
    | false => exact h.one hset hs hs'

theorem SetAlike.called {set : Fin geo.sets} {c : Cache BuiltinPolicy geo} {calls : List Request}
    (h : SetAlike set s.1 c) (hcalls : ∀ q ∈ calls, geo.setOf q.addr ≠ set)
    (hs : Called RandStream s calls t) : SetAlike set t.1 c := by
  apply hs.invariant_of (P := fun t => SetAlike set t.1 c) _ h
  rintro ⟨c₀, next⟩ e q hq hc
  obtain ⟨sent, hstep, -⟩ := access_step c₀ next e q
  exact hc.other (hcalls q hq) hstep

end

structure Filtered (c₁ : Cache ρ geo₁) (s : Cache BuiltinPolicy geo₂ × Logged σ Request Bool)
    (s' : Cache BuiltinPolicy geo₂ × Logged τ Request Bool) : Prop where
  unnoticed : Unnoticed s s'
  alike : ∀ set, SetAlike set s.1 s'.1
  foremost : ∀ a, c₁.Resident a → s'.1.Foremost a

theorem Filtered.step [ReplacementPolicy ε ρ] (hcovers : Covers geo₁ geo₂)
    (hWT : geo₁.cfg.writePolicy = .WriteThrough) (hWA₁ : geo₁.cfg.allocPolicy = .WriteAllocate)
    (hWA₂ : geo₂.cfg.allocPolicy = .WriteAllocate) {c₁ c₁' : Cache ρ geo₁} {r : Request} {b : Bool}
    {calls : List Request} (hstep : Step ε c₁ r b calls c₁')
    {s t : Cache BuiltinPolicy geo₂ × Logged σ Request Bool}
    {s' t' : Cache BuiltinPolicy geo₂ × Logged τ Request Bool} (h : Filtered c₁ s s')
    (hs : Called RandStream s calls t) (hs' : Called RandStream s' [r] t') : Filtered c₁' t t' := by
  have hcalls := hstep.of_direct hWT hWA₁
  have hcore : Unnoticed t t' ∧ SetAlike (geo₂.setOf r.addr) t.1 t'.1 := by
    rw [hcalls] at hs
    apply h.unnoticed.step hWA₂ (h.alike _) _ hs hs'
    exact fun hb => h.foremost _ (hstep.hit_iff.mp hb)
  refine ⟨hcore.1, fun set => ?_, fun a ha => ?_⟩
  -- the set of the access from the core, the others because all requests go to that set
  · by_cases hset : geo₂.setOf r.addr = set
    · rw [← hset]
      exact hcore.2
    · have hleft : SetAlike set t.1 s'.1 := by
        apply (h.alike set).called _ hs
        intro q hq
        rw [hcalls] at hq
        have haddr : q.addr = r.addr := by
          rcases List.mem_append.mp hq with hq | hq <;> split_ifs at hq
          · cases hq
          · rw [List.mem_singleton.mp hq]
          · rw [List.mem_singleton.mp hq]
          · cases hq
        rwa [haddr]
      apply SetAlike.symm
      apply hleft.symm.called _ hs'
      intro q hq
      rwa [List.mem_singleton.mp hq]
  · obtain ⟨b', sent', mid', hstep', -, hmid'⟩ := called_step hs'
    obtain rfl := hmid'.unnil
    by_cases hset : geo₁.setOf a = geo₁.setOf r.addr
    · have hblock := hstep.resident_alone hcovers.direct (by simp [installs, hWA₁]) ha hset
      rw [Geometry.blockOf_congr hcovers.block] at hblock
      apply Foremost.congr _ hblock
      exact hstep'.foremost (h.alike _).symm (by simp [installs, hWA₂])
    · have hold : c₁.Resident a := by
        apply (hstep.resident_of_resident ha).resolve_right
        exact fun hblock => hset ((geo₁.blockOf_eq_iff a r.addr).mp hblock).1
      apply hstep'.foremost_other (h.alike (geo₂.setOf a)).symm (h.foremost a hold)
      exact fun hset₂ => hset (hcovers.setOf_coarser hset₂.symm)

theorem direct_mapped_filter [ReplacementPolicy RandStream ρ] (geo₁ geo₂ : Geometry) (hone : geo₁.ways = 1)
    (hblock : geo₁.cfg.blockSize = geo₂.cfg.blockSize) (hsets : geo₁.numSets ≤ geo₂.numSets)
    (hWT : geo₁.cfg.writePolicy = .WriteThrough) (hWA₁ : geo₁.cfg.allocPolicy = .WriteAllocate)
    (hWA₂ : geo₂.cfg.allocPolicy = .WriteAllocate) (hdet : geo₂.cfg.replacement ≠ .Random)
    (order₁ order₂ order₂' : HashOrder UInt64 ℕ) (repl₁ : ρ geo₁.sets geo₁.ways)
    (next : Logged σ Request Bool) (next' : Logged τ Request Bool)
    (hnext : next.log.map Prod.fst = next'.log.map Prod.fst) (e e' : RandStream) (reqs : List Request) :
    let behind : Cache ρ geo₁ × Cache BuiltinPolicy geo₂ × Logged σ Request Bool :=
      (fresh order₁ repl₁, fresh order₂ (makeReplacement geo₂.cfg.replacement geo₂.sets geo₂.ways), next)
    let alone : Cache BuiltinPolicy geo₂ × Logged τ Request Bool :=
      (fresh order₂' (makeReplacement geo₂.cfg.replacement geo₂.sets geo₂.ways), next')
    let t := (run behind e reqs).2.1.2
    let t' := (run alone e' reqs).2.1
    t.2.log.map Prod.fst = t'.2.log.map Prod.fst ∧ t.1.stats.misses = t'.1.stats.misses ∧
      t.1.stats.writebacks = t'.1.stats.writebacks ∧ t.1.sets = t'.1.sets := by
  intro behind alone t t'
  have hcovers : Covers geo₁ geo₂ := ⟨hone, hblock, hsets, .inr ⟨hWT, hWA₁⟩⟩
  have hrel : Filtered (run behind e reqs).2.1.1 t t' := by
    apply (run_called behind e reqs).related
      (P := fun x x' => Filtered x.1 x.2 x') _ (run_called alone e' reqs)
    · refine ⟨⟨hnext, rfl, rfl⟩, fun set => fresh_setAlike hdet order₂ order₂' set, ?_⟩
      rintro a ⟨w, hvalid, -⟩
      cases hvalid
    · rintro ⟨c₁, s⟩ s' e₁ e₂ r h
      obtain ⟨calls, hstep, hcalls⟩ := access_step c₁ s e₁ r
      exact h.step hcovers hWT hWA₁ hWA₂ hstep hcalls (.one s' e₂ r)
  refine ⟨hrel.unnoticed.sent, hrel.unnoticed.misses, hrel.unnoticed.writebacks, ?_⟩
  funext set
  exact (hrel.alike set).lines

theorem direct_mapped_filter_twoWay :
    let behind : Cache BuiltinPolicy filterGeometry × Cache BuiltinPolicy twoWayGeometry ×
        Logged Memory Request Bool :=
      (fresh .newestFirst .random,
        fresh .newestFirst (makeReplacement twoWayGeometry.cfg.replacement _ _), { state := {} })
    let alone : Cache BuiltinPolicy twoWayGeometry × Logged Memory Request Bool :=
      (fresh .newestFirst (makeReplacement twoWayGeometry.cfg.replacement _ _), { state := {} })
    let reqs : List Request := [⟨0, false⟩, ⟨0, false⟩, ⟨16, true⟩, ⟨32, false⟩, ⟨0, false⟩]
    let t := (run behind RandStream.zeros reqs).2.1.2
    let t' := (run alone RandStream.zeros reqs).2.1
    t.2.log.map Prod.fst = t'.2.log.map Prod.fst ∧ t.1.stats.misses = t'.1.stats.misses ∧
      t.1.stats.writebacks = t'.1.stats.writebacks ∧ t.1.sets = t'.1.sets :=
  direct_mapped_filter (σ := Memory) (τ := Memory) (ρ := BuiltinPolicy) filterGeometry
    twoWayGeometry rfl rfl (by decide) rfl rfl rfl (by decide) .newestFirst .newestFirst .newestFirst
    .random { state := {} } { state := {} } rfl RandStream.zeros RandStream.zeros
    [⟨0, false⟩, ⟨0, false⟩, ⟨16, true⟩, ⟨32, false⟩, ⟨0, false⟩]

end Cache

end CacheSim
