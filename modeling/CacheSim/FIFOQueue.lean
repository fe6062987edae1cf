import CacheSim.LRUStack

namespace CacheSim

open Service Recency

variable {geo : Geometry}

theorem take_cons {α : Type} {n : ℕ} (hn : 0 < n) (b : α) (l : List α) :
    (b :: l).take n = b :: (l.take n).take (n - 1) := by
  obtain ⟨m, rfl⟩ : ∃ m, n = m + 1 := ⟨n - 1, by omega⟩
  rw [List.take_succ_cons, Nat.add_sub_cancel, List.take_take, min_eq_left (Nat.le_succ m)]

theorem leaves_iff {α : Type} {n : ℕ} (hn : 0 < n) {b x : α} {l : List α} (hb : b ∉ l.take n)
    (hnodup : (l.take n).Nodup) : x ∈ l.take n ∧ x ∉ (b :: l).take n ↔ l[n - 1]? = some x := by
  obtain ⟨m, rfl⟩ : ∃ m, n = m + 1 := ⟨n - 1, by omega⟩
  rw [List.take_succ_cons, Nat.add_sub_cancel]
  rw [List.take_add_one] at hb hnodup ⊢
  cases hlast : l[m]? with
  | none => simp +contextual
  | some y =>
    rw [hlast, Option.toList_some, List.mem_append, List.mem_singleton, not_or] at hb
    rw [hlast, Option.toList_some, List.nodup_append] at hnodup
    rw [Option.toList_some, List.mem_append, List.mem_singleton, List.mem_cons, not_or, Option.some.injEq]
    constructor
    · rintro ⟨hx | hx, -, hout⟩
      · exact absurd hx hout
      · exact hx.symm
    · rintro rfl
      refine ⟨.inr rfl, Ne.symm hb.2, fun hmem => ?_⟩
      exact hnodup.2.2 y hmem y (List.mem_singleton_self y) rfl

namespace Cache

def fills (geo : Geometry) (s : Fin geo.sets) (past : List (Request × Bool)) : List UInt64 :=
  (past.filter fun x => !x.2 && installs geo x.1 && decide (geo.setOf x.1.addr = s)).map
    fun x => geo.blockOf x.1.addr

structure Queued (c : Cache BuiltinPolicy geo) (past : List (Request × Bool)) : Prop where
  stacked : ∃ p, c.repl = .fifo p ∧
    ∀ s, ∃ ws, Stacked p.toLRU c.sets s ws ((fills geo s past).take geo.ways)
  distinct : ∀ s, ((fills geo s past).take geo.ways).Nodup
  real : Addressed c.sets

theorem fresh_queued (order : HashOrder UInt64 ℕ) (hFIFO : geo.cfg.replacement = .FIFO) :
    (fresh order (makeReplacement geo.cfg.replacement geo.sets geo.ways)).Queued [] where
  stacked := by
    refine ⟨{}, by rw [hFIFO]; rfl, fun s => ⟨[], ?_⟩⟩
    exact ⟨.nil _ _, by simp [fresh], by simp [fills]⟩
  distinct s := by simp [fills]
  real := fresh_addressed order _

theorem fills_hit (s : Fin geo.sets) (r : Request) (past : List (Request × Bool)) :
    fills geo s ((r, true) :: past) = fills geo s past := rfl

theorem fills_around {r : Request} (hr : installs geo r = false) (s : Fin geo.sets) (b : Bool)
    (past : List (Request × Bool)) : fills geo s ((r, b) :: past) = fills geo s past := by
  rw [fills, List.filter_cons_of_neg (by simp [hr])]
  rfl

theorem fills_other {r : Request} {s : Fin geo.sets} (hs : geo.setOf r.addr ≠ s) (b : Bool)
    (past : List (Request × Bool)) : fills geo s ((r, b) :: past) = fills geo s past := by
  rw [fills, List.filter_cons_of_neg (by simp [hs])]
  rfl

theorem fills_cons {r : Request} (hr : installs geo r = true) (past : List (Request × Bool)) :
    fills geo (geo.setOf r.addr) ((r, false) :: past) =
      geo.blockOf r.addr :: fills geo (geo.setOf r.addr) past := by
  rw [fills, List.filter_cons_of_pos (by simp [hr])]
  rfl

namespace Queued

variable {c c' : Cache BuiltinPolicy geo} {past : List (Request × Bool)} {r : Request} {b : Bool}
  {calls : List Request}

theorem resident_iff (hc : c.Queued past) (a : UInt64) :
    c.Resident a ↔ geo.blockOf a ∈ (fills geo (geo.setOf a) past).take geo.ways := by
  obtain ⟨p, -, hst⟩ := hc.stacked
  obtain ⟨ws, hws⟩ := hst (geo.setOf a)
  exact hws.resident_iff hc.real

theorem unchanged (hc : c.Queued past) (hfills : ∀ s, fills geo s ((r, b) :: past) = fills geo s past)
    (hrepl : c'.repl = c.repl) (hreal : Addressed c'.sets)
    (hlines : ∀ s w, (c'.sets s w).valid = (c.sets s w).valid ∧ (c'.sets s w).tag = (c.sets s w).tag) :
    c'.Queued ((r, b) :: past) where
  stacked := by
    obtain ⟨p, hp, hst⟩ := hc.stacked
    refine ⟨p, hrepl.trans hp, fun s => ?_⟩
    obtain ⟨ws, hws⟩ := hst s
    rw [hfills]
    exact ⟨ws, hws.relabel (hlines s)⟩
  distinct s := by rw [hfills]; exact hc.distinct s
  real := hreal

theorem step (hc : c.Queued past) (hstep : Step RandStream c r b calls c') : c'.Queued ((r, b) :: past) := by
  obtain ⟨p, hrepl, hst⟩ := hc.stacked
  have hhit := hstep.hit_iff
  rw [hc.resident_iff] at hhit
  have hreal := hstep.addressed hc.real
  cases hstep with
  | hit w e hw =>
    apply hc.unchanged (fun s => fills_hit s r past) _ hreal
    · intro s w'
      apply afterHit_line
    · change (ReplacementPolicy.onAccess c.repl e (geo.setOf r.addr) w).1 = c.repl
      rw [hrepl]
      rfl
  | around hw hr ha =>
    have hinstalls : installs geo r = false := by simp [installs, hr, ha]
    apply hc.unchanged (fun s => fills_around hinstalls s false past) (missed_repl c r) hreal
    intro s w'
    rw [missed_sets]
    exact ⟨rfl, rfl⟩
  | fill e e' hw ha =>
    have hinstalls := installs_of_fill ha
    obtain ⟨hpick, hway⟩ := pickWay_table (p := p.toLRU) (by rw [hrepl]; rfl) e (geo.setOf r.addr)
    have habsent := mt hhit.mpr Bool.false_ne_true
    refine ⟨⟨p.onInsert (geo.setOf r.addr) (c.pickWay e (geo.setOf r.addr)).1, ?_, fun s => ?_⟩, fun s => ?_,
      hreal⟩
    · change (ReplacementPolicy.onInsert (c.pickWay e (geo.setOf r.addr)).2.1 e' (geo.setOf r.addr)
        (c.pickWay e (geo.setOf r.addr)).1).1 = _
      rw [hpick, hrepl]
      rfl
    · obtain ⟨ws, hws⟩ := hst s
      by_cases hs : s = geo.setOf r.addr
      · subst hs
        rw [fills_cons hinstalls, take_cons geo.ways_pos]
        exact hws.fill hway
      · rw [fills_other (Ne.symm hs)]
        exact ⟨ws, hws.other hs⟩
    · by_cases hs : s = geo.setOf r.addr
      · subst hs
        rw [fills_cons hinstalls, take_cons geo.ways_pos]
        apply List.nodup_cons.mpr
        refine ⟨fun h => habsent (List.mem_of_mem_take h), ?_⟩
        exact (hc.distinct _).sublist (List.take_sublist _ _)
      · rw [fills_other (Ne.symm hs)]
        exact hc.distinct s

theorem evicts (hc : c.Queued past) (hstep : Step RandStream c r b calls c') (a : UInt64) :
    c.Resident a ∧ ¬c'.Resident a ↔ b = false ∧ installs geo r = true ∧ geo.setOf a = geo.setOf r.addr ∧
      (fills geo (geo.setOf a) past)[geo.ways - 1]? = some (geo.blockOf a) := by
  have hhit := hstep.hit_iff
  have hnext := hc.step hstep
  rw [hc.resident_iff, hnext.resident_iff]
  rw [hc.resident_iff] at hhit
  have hsame : fills geo (geo.setOf a) ((r, b) :: past) = fills geo (geo.setOf a) past →
      ¬(geo.blockOf a ∈ (fills geo (geo.setOf a) past).take geo.ways ∧
        geo.blockOf a ∉ (fills geo (geo.setOf a) ((r, b) :: past)).take geo.ways) := by
    rintro hfills ⟨hin, hout⟩
    rw [hfills] at hout
    exact hout hin
  cases b with
  | true =>
    apply iff_of_false (hsame (fills_hit _ r past))
    exact fun h => absurd h.1 (by decide)
  | false =>
    cases hr : installs geo r with
    | false =>
      apply iff_of_false (hsame (fills_around hr _ false past))
      exact fun h => absurd h.2.1 (by decide)
    | true =>
      by_cases hs : geo.setOf a = geo.setOf r.addr
      · rw [hs, fills_cons hr, leaves_iff geo.ways_pos (mt hhit.mpr Bool.false_ne_true) (hc.distinct _)]
        simp
      · apply iff_of_false (hsame (fills_other (Ne.symm hs) false past))
        exact fun h => hs h.2.2.1

end Queued

theorem fifo_holds_latest_fills {σ : Type} [MemoryLevel RandStream σ]
    (hFIFO : geo.cfg.replacement = .FIFO) {order : HashOrder UInt64 ℕ} {next : σ}
    {es : List (Request × Bool)} {s : Cache BuiltinPolicy geo × σ}
    (h : Serves RandStream
      (fresh order (makeReplacement geo.cfg.replacement geo.sets geo.ways), next) es s) :
    (∀ set, ((fills geo set es.reverse).take geo.ways).Nodup) ∧
      (∀ a, s.1.Resident a ↔ geo.blockOf a ∈ (fills geo (geo.setOf a) es.reverse).take geo.ways) ∧
      ∀ (e : RandStream) (r : Request) a,
        s.1.Resident a ∧ ¬(serve s e r).2.1.1.Resident a ↔
          (serve s e r).1 = false ∧ installs geo r = true ∧ geo.setOf a = geo.setOf r.addr ∧
            (fills geo (geo.setOf a) es.reverse)[geo.ways - 1]? = some (geo.blockOf a) := by
  have hstep : ∀ past (s : Cache BuiltinPolicy geo × σ) (e : RandStream) r, s.1.Queued past →
      (serve s e r).2.1.1.Queued ((r, (serve s e r).1) :: past) := by
    rintro past ⟨c, next⟩ e r hc
    obtain ⟨calls, hstep, -⟩ := access_step c next e r
    exact hc.step hstep
  have hqueued := h.history_nil (P := fun past s => s.1.Queued past) hstep (fresh_queued order hFIFO)
  refine ⟨hqueued.distinct, hqueued.resident_iff, fun e r a => ?_⟩
  obtain ⟨calls, hstep, -⟩ := access_step s.1 s.2 e r
  exact hqueued.evicts hstep a

def fifoPair : Geometry :=
  ⟨⟨{ pair .WriteAllocate with replacement := .FIFO }, 1, 2, 0, 62⟩, rfl⟩

theorem fifo_holds_latest_fills_pair :
    ∃ out, out = run ((fresh .newestFirst (makeReplacement .FIFO _ _), {}) :
        Cache BuiltinPolicy fifoPair × Memory) RandStream.zeros
        [⟨0, false⟩, ⟨4, false⟩, ⟨0, false⟩, ⟨8, false⟩] ∧
      ∀ a, out.2.1.1.Resident a ↔ fifoPair.blockOf a ∈ (fills fifoPair (fifoPair.setOf a)
        ([⟨0, false⟩, ⟨4, false⟩, ⟨0, false⟩, ⟨8, false⟩].zip out.1).reverse).take 2 := by
  have h := run_serves ((fresh .newestFirst (makeReplacement .FIFO _ _), {}) :
    Cache BuiltinPolicy fifoPair × Memory) RandStream.zeros [⟨0, false⟩, ⟨4, false⟩, ⟨0, false⟩, ⟨8, false⟩]
  exact ⟨_, rfl, (fifo_holds_latest_fills (by rfl) h).2.1⟩

end Cache

end CacheSim
