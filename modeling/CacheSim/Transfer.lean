import CacheSim.Durability

namespace CacheSim

open Service

variable {ε : Type} {ρ : ℕ → ℕ → Type} {l1 l2 geo : Geometry}

namespace Cache

variable [ReplacementPolicy ε ρ] {c c' : Cache ρ geo} {r : Request} {b : Bool} {calls : List Request}

theorem Step.fetched (h : Step ε c r b calls c') {a : UInt64} (hbefore : ¬c.Resident a)
    (hafter : c'.Resident a) :
    geo.blockOf r.addr = geo.blockOf a ∧ (⟨r.addr, false⟩ : Request) ∈ calls := by
  have hblock := (h.resident_of_resident hafter).resolve_left hbefore
  refine ⟨hblock.symm, ?_⟩
  obtain ⟨hset, htag⟩ := (geo.blockOf_eq_iff a r.addr).mp hblock
  have hsame : c.Resident a ↔ c.Resident r.addr := by rw [Resident, Resident, hset, htag]
  cases h with
  | hit w e hw =>
    have hno := wayOf_eq_none.mpr (mt hsame.mpr hbefore)
    rw [hw] at hno
    cases hno
  | around hw hr ha =>
    obtain ⟨w, hw'⟩ := hafter
    rw [missed_sets] at hw'
    exact absurd ⟨w, hw'⟩ hbefore
  | fill e e' hw ha => exact List.mem_cons_self

theorem Step.empty (h : Step ε c r b calls c') (hempty : ∀ s w, (c.sets s w).valid = false) :
    ((r.isWrite = true ∧ geo.cfg.allocPolicy = .NoWriteAllocate) ∧
        ∀ s w, (c'.sets s w).valid = false) ∨
      (¬(r.isWrite = true ∧ geo.cfg.allocPolicy = .NoWriteAllocate) ∧ c'.Resident r.addr ∧
        ∀ r' ∈ calls, r'.addr = r.addr) := by
  cases h with
  | hit w e hw =>
    have hvalid := (findWay_eq_some hw).1
    rw [hempty] at hvalid
    cases hvalid
  | around hw hr ha =>
    refine .inl ⟨⟨hr, ha⟩, ?_⟩
    rw [missed_sets]
    exact hempty
  | fill e e' hw ha =>
    refine .inr ⟨ha, ⟨(c.pickWay e (geo.setOf r.addr)).1, ?_⟩, ?_⟩
    · simp [afterFill, filledLine]
    · have hclean : ¬c.DirtyVictim (geo.setOf r.addr) (c.pickWay e (geo.setOf r.addr)).1 := by
        rintro ⟨hvalid, -⟩
        rw [hempty] at hvalid
        cases hvalid
      intro r' hr'
      rw [fillCalls, victimWrite, if_neg hclean, List.nil_append, forwarded] at hr'
      rcases List.mem_cons.mp hr' with rfl | hr'
      · rfl
      · split_ifs at hr'
        · rw [List.mem_singleton.mp hr']
        · simp at hr'

end Cache

def Traced.sent (t t' : Traced ρ Memory [l1, l2]) : List (Request × Bool) :=
  (Traced.log t'.state.2).drop (Traced.log t.state.2).length

/-- Between two states, every L2 block that meets a block filled in L1 was accessed at L2, and every
L2 block that meets a dirty block evicted from L1 was written at L2. -/
structure TransfersCover (t t' : Traced ρ Memory [l1, l2]) : Prop where
  fill : ∀ a, ¬t.state.1.Resident a → t'.state.1.Resident a →
    ∀ x, l1.blockOf x = l1.blockOf a → ∃ y ∈ Traced.sent t t', l2.blockOf y.1.addr = l2.blockOf x
  writeBack : ∀ a, t.state.1.HoldsDirty a → ¬t'.state.1.Resident a →
    ∀ x, l1.blockOf x = l1.blockOf a →
      ∃ y ∈ Traced.sent t t', y.1.isWrite = true ∧ l2.blockOf y.1.addr = l2.blockOf x

section

variable [ReplacementPolicy ε ρ]

theorem Traced.sent_step (t : Traced ρ Memory [l1, l2]) (e : ε) (r : Request) :
    ∃ b calls, Cache.Step ε t.state.1 r b calls (serve t e r).2.1.state.1 ∧
      (sent t (serve t e r).2.1).map Prod.fst = calls := by
  obtain ⟨calls, hstep, es, hes, hserves⟩ :=
    Cache.access_step (σ := Traced ρ Memory [l2]) t.state.1 t.state.2 e r
  have hlog : Traced.log (serve t e r).2.1.state.2 = Traced.log t.state.2 ++ es :=
    (Serves.logged (σ := Cache ρ l2 × Traced ρ Memory []) hserves).1
  refine ⟨_, calls, hstep, ?_⟩
  rw [sent, hlog, List.drop_left, hes]

theorem mem_sent {t t' : Traced ρ Memory [l1, l2]} {calls : List Request}
    (h : (Traced.sent t t').map Prod.fst = calls) {P : Request → Prop} :
    (∃ y ∈ Traced.sent t t', P y.1) ↔ ∃ r ∈ calls, P r := by
  rw [← h]
  simp

theorem transfersCover_of_le (hle : l1.cfg.blockSize ≤ l2.cfg.blockSize)
    (t : Traced ρ Memory [l1, l2]) (e : ε) (r : Request) (hc : t.state.1.WellFormed) :
    TransfersCover t (serve t e r).2.1 := by
  have hnest : ∀ {x y}, l1.blockOf x = l1.blockOf y → l2.blockOf x = l2.blockOf y :=
    fun hxy => Geometry.blockOf_nested ((Geometry.blockSize_le_iff l1 l2).mp hle) hxy
  obtain ⟨b, calls, hstep, hsent⟩ := t.sent_step e r
  constructor
  · intro a hbefore hafter x hx
    obtain ⟨hblock, hfetch⟩ := hstep.fetched hbefore hafter
    rw [mem_sent hsent (P := fun r' => l2.blockOf r'.addr = l2.blockOf x)]
    exact ⟨_, hfetch, hnest (hblock.trans hx.symm)⟩
  · intro a hdirty hafter x hx
    rw [mem_sent hsent (P := fun r' => r'.isWrite = true ∧ l2.blockOf r'.addr = l2.blockOf x)]
    rcases hstep.dirty_kept hc hdirty with ⟨w, hvalid, -, htag⟩ | ⟨r', hr', hw', hb'⟩
    · exact absurd ⟨w, hvalid, htag⟩ hafter
    · exact ⟨r', hr', hw', hnest (hb'.trans hx.symm)⟩

theorem not_transfersCover (hlt : ¬l1.cfg.blockSize ≤ l2.cfg.blockSize)
    (t : Traced ρ Memory [l1, l2]) (e : ε) (r : Request)
    (hempty : ∀ s w, (t.state.1.sets s w).valid = false)
    (hr : ¬(r.isWrite = true ∧ l1.cfg.allocPolicy = .NoWriteAllocate)) :
    ¬TransfersCover t (serve t e r).2.1 := by
  intro hcover
  obtain ⟨b, calls, hstep, hsent⟩ := t.sent_step e r
  have hbefore : ¬t.state.1.Resident r.addr := by
    rintro ⟨w, hvalid, -⟩
    rw [hempty] at hvalid
    cases hvalid
  obtain ⟨-, hafter, hown⟩ := (hstep.empty hempty).resolve_left fun h => hr h.1
  obtain ⟨x, hx, hother⟩ := Geometry.exists_sibling (mt (Geometry.blockSize_le_iff l1 l2).mpr hlt) r.addr
  obtain ⟨r', hr', hb'⟩ := (mem_sent hsent (P := fun r' => l2.blockOf r'.addr = l2.blockOf x)).mp
    (hcover.fill r.addr hbefore hafter x hx)
  rw [hown r' hr'] at hb'
  exact hother hb'.symm

theorem empty_serve (t : Traced ρ Memory [l1, l2]) (e : ε) (r : Request)
    (hr : r.isWrite = true ∧ l1.cfg.allocPolicy = .NoWriteAllocate)
    (hempty : ∀ s w, (t.state.1.sets s w).valid = false) :
    ∀ s w, ((serve t e r).2.1.state.1.sets s w).valid = false := by
  obtain ⟨b, calls, hstep, -⟩ := t.sent_step e r
  rcases hstep.empty hempty with h | h
  · exact h.2
  · exact absurd hr h.1

theorem transfersCover_of_empty (t t' : Traced ρ Memory [l1, l2])
    (hempty : ∀ s w, (t.state.1.sets s w).valid = false)
    (hempty' : ∀ s w, (t'.state.1.sets s w).valid = false) : TransfersCover t t' := by
  constructor
  · rintro a - ⟨w, hvalid, -⟩
    rw [hempty'] at hvalid
    cases hvalid
  · rintro a ⟨w, hvalid, -⟩
    rw [hempty] at hvalid
    cases hvalid

theorem transfers_cover_iff (l1 l2 : Geometry) (order : HashOrder UInt64 ℕ) (make : Chain.Policies ρ)
    (e : ε) (reqs : List Request) :
    (∀ pre r post, reqs = pre ++ r :: post →
        let s := run (Traced.fresh order make ({} : Memory) [l1, l2]) e pre
        TransfersCover s.2.1 (serve s.2.1 s.2.2 r).2.1) ↔
      l1.cfg.blockSize ≤ l2.cfg.blockSize ∨
        ∀ r ∈ reqs, r.isWrite = true ∧ l1.cfg.allocPolicy = .NoWriteAllocate := by
  have hempty : ∀ pre : List Request,
      (∀ r ∈ pre, r.isWrite = true ∧ l1.cfg.allocPolicy = .NoWriteAllocate) → ∀ s w,
        ((run (Traced.fresh order make ({} : Memory) [l1, l2]) e pre).2.1.state.1.sets s w).valid =
          false := by
    intro pre hpre
    apply (run_called (Traced.fresh order make ({} : Memory) [l1, l2]) e pre).invariant_of
      (P := fun t => ∀ s w, (t.state.1.sets s w).valid = false)
    · exact fun t e r hr ht => empty_serve t e r (hpre r hr) ht
    · exact fun s w => rfl
  constructor
  · intro hall
    by_contra hcon
    rw [not_or] at hcon
    obtain ⟨hlt, hfills⟩ := hcon
    simp only [not_forall] at hfills
    obtain ⟨r₀, hr₀, hfill₀⟩ := hfills
    -- the first access that fills a block finds L1 empty
    let around : Request → Bool := fun r => r.isWrite && l1.cfg.allocPolicy == .NoWriteAllocate
    have haround : ∀ r, around r = true ↔
        (r.isWrite = true ∧ l1.cfg.allocPolicy = .NoWriteAllocate) := by simp [around]
    obtain ⟨r, post, hsplit⟩ : ∃ r post, reqs.dropWhile around = r :: post := by
      apply List.exists_cons_of_ne_nil
      intro hnil
      exact hfill₀ ((haround r₀).mp (List.dropWhile_eq_nil_iff.mp hnil r₀ hr₀))
    have hr : ¬(r.isWrite = true ∧ l1.cfg.allocPolicy = .NoWriteAllocate) := by
      rw [← haround]
      have hhead := List.head_dropWhile_not around (l := reqs) (by simp [hsplit])
      simpa [hsplit] using hhead
    have hpre : ∀ r ∈ reqs.takeWhile around,
        r.isWrite = true ∧ l1.cfg.allocPolicy = .NoWriteAllocate :=
      fun r hr => (haround r).mp (List.mem_takeWhile_imp hr)
    refine not_transfersCover hlt _ _ r (hempty _ hpre) hr (hall (reqs.takeWhile around) r post ?_)
    rw [← hsplit, List.takeWhile_append_dropWhile]
  · rintro (hle | haround) pre r post rfl
    · apply transfersCover_of_le hle
      have hwf := CacheHierarchy.levels_wellFormed order make [l1, l2] ({} : Memory) e pre
      rw [← Traced.erase_run] at hwf
      exact hwf ⟨l1, _⟩ List.mem_cons_self
    · have hpre := hempty pre fun r hr => haround r (List.mem_append_left _ hr)
      exact transfersCover_of_empty _ _ hpre
        (empty_serve _ _ r (haround r (by simp)) hpre)

theorem wide_fill_not_covered :
    ¬TransfersCover
      (Traced.fresh .newestFirst builtinPolicies ({} : Memory) [wideGeometry, goldenGeometry])
      (serve (Traced.fresh .newestFirst builtinPolicies ({} : Memory) [wideGeometry, goldenGeometry])
        RandStream.zeros ⟨0, false⟩).2.1 :=
  not_transfersCover (by decide) _ _ _ (fun _ _ => rfl) (by decide)

end

end CacheSim
