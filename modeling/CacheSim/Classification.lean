import CacheSim.Structure

namespace CacheSim

open Service Recency

inductive Verdict where
  | compulsory | capacity | conflict
  deriving DecidableEq, Repr

/-- The verdict on a miss of `b` in a cache of so many lines, by definition; `past` lists the blocks
accessed before, latest first. -/
def verdict (lines : ℕ) (past : List UInt64) (b : UInt64) : Verdict :=
  if b ∉ past then .compulsory
  else if (since past b).card < lines then .conflict
  else .capacity

namespace Cache

variable {ε σ : Type} {ρ : ℕ → ℕ → Type} {geo : Geometry}

structure Classified (c : Cache ρ geo) (past : List UInt64) : Prop where
  resident_past : ∀ a, c.Resident a → geo.blockOf a ∈ past
  seen_eq : c.seen = past.toFinset
  shadow : ∃ f, c.refFA = some f ∧ f.capacity = geo.totalLines ∧
    f.Represents (stack geo.totalLines (past.map (·, true)))

theorem fresh_classified (order : HashOrder UInt64 ℕ) (repl : ρ geo.sets geo.ways)
    (h3C : geo.cfg.classify3C = true) : (fresh order repl).Classified [] where
  resident_past := by
    rintro a ⟨w, hvalid, -⟩
    simp [fresh] at hvalid
  seen_eq := rfl
  shadow := ⟨_, if_pos h3C, rfl, RefFACache.new_represents order geo.totalLines⟩

namespace Classified

variable [ReplacementPolicy ε ρ] {c c' : Cache ρ geo} {past : List UInt64} {r : Request} {b : Bool}
  {calls : List Request}

omit [ReplacementPolicy ε ρ] in
theorem touch (hc : c.Classified past) (b : UInt64) :
    ∃ f, c.refFA = some f ∧ (f.touch b).2.capacity = geo.totalLines ∧
      (f.touch b).2.Represents (stack geo.totalLines ((b :: past).map (·, true))) ∧
      ((f.touch b).1 = true ↔ b ∈ past ∧ (since past b).card < geo.totalLines) := by
  obtain ⟨f, hf, hcap, hrep⟩ := hc.shadow
  have hlen := stack_length_le geo.totalLines (past.map (·, true))
  obtain ⟨hheld, hnext⟩ := hrep.touch (by rw [hcap]; exact hlen) (by rw [hcap]; exact geo.totalLines_pos) b
  rw [hcap] at hnext
  refine ⟨f, hf, by rw [RefFACache.touch_capacity, hcap], hnext, ?_⟩
  have hblocks : (past.map (·, true)).map Prod.fst = past := by
    rw [List.map_map]
    exact List.map_id past
  have hmem := mem_stack_iff geo.totalLines_pos (b := b) (h := past.map (·, true)) (by simp)
  rw [hblocks] at hmem
  rw [hheld, decide_eq_true_iff, hmem]

theorem step (hc : c.Classified past) (h : Step ε c r b calls c') :
    c'.Classified (geo.blockOf r.addr :: past) := by
  obtain ⟨f, hf, hcap, hrep, -⟩ := hc.touch (geo.blockOf r.addr)
  have hmap : c.refFA.map (fun f => (f.touch (geo.blockOf r.addr)).2) =
      some (f.touch (geo.blockOf r.addr)).2 := by rw [hf]; rfl
  have hresident : ∀ a, c'.Resident a → geo.blockOf a ∈ geo.blockOf r.addr :: past := by
    intro a ha
    rcases h.resident_of_resident ha with hold | hnew
    · exact List.mem_cons_of_mem _ (hc.resident_past a hold)
    · exact hnew ▸ List.mem_cons_self
  have hmissed : (c.missed r).seen = (geo.blockOf r.addr :: past).toFinset := by
    rw [(missed_verdict c r hf).1, List.toFinset_cons, hc.seen_eq]
  have hhit := h.hit_iff
  cases h with
  | hit w e hw =>
    refine ⟨hresident, ?_, _, hmap, hcap, hrep⟩
    have hpast := hc.resident_past _ (hhit.mp rfl)
    rw [(afterHit_verdicts c r w _).1, hc.seen_eq, List.toFinset_cons,
      Finset.insert_eq_of_mem (List.mem_toFinset.mpr hpast)]
  | around hw hr ha =>
    exact ⟨hresident, hmissed, _, (missed_refFA c r).trans hmap, hcap, hrep⟩
  | fill e e' hw ha =>
    exact ⟨hresident, hmissed, _, (missed_refFA c r).trans hmap, hcap, hrep⟩

theorem judged (hc : c.Classified past) (h : Step ε c r b calls c') :
    let v := verdict geo.totalLines past (geo.blockOf r.addr)
    c'.stats.compulsory = c.stats.compulsory + (!b && v = .compulsory).toNat ∧
      c'.stats.conflict = c.stats.conflict + (!b && v = .conflict).toNat ∧
      c'.stats.capacity = c.stats.capacity + (!b && v = .capacity).toNat := by
  intro v
  have hmissed : (c.missed r).stats.compulsory = c.stats.compulsory + (v = .compulsory : Bool).toNat ∧
      (c.missed r).stats.conflict = c.stats.conflict + (v = .conflict : Bool).toNat ∧
      (c.missed r).stats.capacity = c.stats.capacity + (v = .capacity : Bool).toNat := by
    obtain ⟨f, hf, -, -, hheld⟩ := hc.touch (geo.blockOf r.addr)
    obtain ⟨-, h1, h2, h3⟩ := missed_verdict c r hf
    rw [h1, h2, h3, hc.seen_eq]
    simp only [List.mem_toFinset, v, verdict]
    by_cases hpast : geo.blockOf r.addr ∈ past
    · by_cases hfew : (since past (geo.blockOf r.addr)).card < geo.totalLines
      · simp [hpast, hfew, hheld.mpr ⟨hpast, hfew⟩]
      · have hnot : (f.touch (geo.blockOf r.addr)).1 = false := by
          simpa using fun ht => hfew (hheld.mp ht).2
        simp [hpast, hfew, hnot]
    · simp [hpast]
  cases h with
  | hit w e hw =>
    obtain ⟨-, h1, h2, h3, -⟩ := afterHit_verdicts c r w
      (ReplacementPolicy.onAccess c.repl e (geo.setOf r.addr) w).1
    exact ⟨h1, h2, h3⟩
  | around hw hr ha => exact hmissed
  | fill e e' hw ha => exact hmissed

end Classified

section

variable [ReplacementPolicy ε ρ] [MemoryLevel ε σ]

theorem serves_wellFormed {order : HashOrder UInt64 ℕ} {repl : ρ geo.sets geo.ways} {next : σ}
    {es : List (Request × Bool)} {s : Cache ρ geo × σ} (hes : Serves ε (fresh order repl, next) es s) :
    s.1.WellFormed := by
  apply hes.invariant (P := fun s => s.1.WellFormed) _ (fresh_wellFormed order repl)
  rintro ⟨c, next⟩ e r hc
  obtain ⟨calls, hstep, -⟩ := access_step c next e r
  exact hstep.wellFormed hc

theorem serves_classified {order : HashOrder UInt64 ℕ} {repl : ρ geo.sets geo.ways} {next : σ}
    {es : List (Request × Bool)} {s : Cache ρ geo × σ} (h3C : geo.cfg.classify3C = true)
    (hes : Serves ε (fresh order repl, next) es s) :
    s.1.Classified ((es.map fun x => geo.blockOf x.1.addr).reverse) := by
  have hstep : ∀ past (s : Cache ρ geo × σ) (e : ε) r,
      s.1.Classified (past.map fun x => geo.blockOf x.1.addr) →
      (serve s e r).2.1.1.Classified (((r, (serve s e r).1) :: past).map fun x => geo.blockOf x.1.addr) := by
    rintro past ⟨c, next⟩ e r hc
    obtain ⟨calls, hstep, -⟩ := access_step c next e r
    exact hc.step hstep
  have hrun := hes.history_nil (P := fun past s => s.1.Classified (past.map fun x => geo.blockOf x.1.addr))
    hstep (fresh_classified order repl h3C)
  rwa [List.map_reverse] at hrun

theorem judged_by_definition {order : HashOrder UInt64 ℕ} {repl : ρ geo.sets geo.ways} {next : σ}
    {es : List (Request × Bool)} {s : Cache ρ geo × σ} (h3C : geo.cfg.classify3C = true)
    (hes : Serves ε (fresh order repl, next) es s) :
    let past := (es.map fun x => geo.blockOf x.1.addr).reverse
    (s.1.stats.compulsory + s.1.stats.capacity + s.1.stats.conflict = s.1.stats.misses ∧
        s.1.stats.compulsory = past.toFinset.card) ∧
      ∀ (e : ε) (r : Request),
        let hit := (serve s e r).1
        let c' := (serve s e r).2.1.1
        let v := verdict (geo.cfg.sizeBytes.toNat / geo.cfg.blockSize.toNat) past (geo.blockOf r.addr)
        c'.stats.compulsory = s.1.stats.compulsory + (!hit && v = .compulsory).toNat ∧
          c'.stats.conflict = s.1.stats.conflict + (!hit && v = .conflict).toNat ∧
          c'.stats.capacity = s.1.stats.capacity + (!hit && v = .capacity).toNat := by
  intro past
  have hclassified := serves_classified h3C hes
  obtain ⟨-, hsum, hcompulsory⟩ := (serves_wellFormed hes).classified h3C
  refine ⟨⟨hsum, ?_⟩, fun e r => ?_⟩
  · rw [hcompulsory, hclassified.seen_eq]
  · obtain ⟨calls, hstep, -⟩ := access_step s.1 s.2 e r
    rw [← UInt64.toNat_div]
    exact hclassified.judged hstep

theorem judged_by_definition_pair :
    ∃ s, s = (run ((fresh .newestFirst (makeReplacement .LRU _ _), {}) :
        Cache BuiltinPolicy (pairGeometry .WriteAllocate) × Memory) RandStream.zeros
        [⟨0, false⟩, ⟨4, true⟩, ⟨8, false⟩, ⟨0, false⟩]).2.1 ∧
      s.1.stats.compulsory + s.1.stats.capacity + s.1.stats.conflict = s.1.stats.misses :=
  ⟨_, rfl, (judged_by_definition rfl (run_serves _ RandStream.zeros _)).1.1⟩

end

end Cache

end CacheSim
