import CacheSim.Structure
import CacheSim.Traced

namespace CacheSim

open Service

variable {ε : Type} {ρ : ℕ → ℕ → Type} {geo : Geometry}

namespace Cache

def HoldsDirty (c : Cache ρ geo) (a : UInt64) : Prop :=
  ∃ w, (c.sets (geo.setOf a) w).valid = true ∧ (c.sets (geo.setOf a) w).dirty = true ∧
    (c.sets (geo.setOf a) w).tag = geo.tagOf a

variable [ReplacementPolicy ε ρ] {c c' : Cache ρ geo} {r : Request} {b : Bool} {calls : List Request}

theorem Step.store_kept (h : Step ε c r b calls c') (hr : r.isWrite = true) {a : UInt64}
    (ha : geo.blockOf r.addr = geo.blockOf a) : c'.HoldsDirty a ∨ r ∈ calls := by
  obtain ⟨hset, htag⟩ := (geo.blockOf_eq_iff r.addr a).mp ha
  cases h with
  | hit w e hw =>
    obtain ⟨hvalid, hmatch⟩ := findWay_eq_some hw
    cases hp : geo.cfg.writePolicy with
    | WriteThrough =>
      right
      rw [forwarded, if_pos ⟨hr, hp⟩]
      exact List.mem_singleton_self r
    | WriteBack =>
      left
      refine ⟨w, ?_⟩
      rw [← hset, ← htag]
      simp [afterHit, hr, hp, hvalid, hmatch]
  | around hw hr' ha' => exact .inr (List.mem_singleton_self r)
  | fill e e' hw ha' =>
    cases hp : geo.cfg.writePolicy with
    | WriteThrough =>
      right
      rw [fillCalls, forwarded, if_pos ⟨hr, hp⟩]
      simp
    | WriteBack =>
      left
      refine ⟨(c.pickWay e (geo.setOf r.addr)).1, ?_⟩
      rw [← hset, ← htag]
      simp [afterFill, filledLine, hr, hp]

theorem Step.dirty_kept (h : Step ε c r b calls c') (hc : c.WellFormed) {a : UInt64}
    (ha : c.HoldsDirty a) :
    c'.HoldsDirty a ∨ ∃ r' ∈ calls, r'.isWrite = true ∧ geo.blockOf r'.addr = geo.blockOf a := by
  obtain ⟨w₀, hvalid, hdirty, htag⟩ := ha
  cases h with
  | hit w e hw =>
    left
    refine ⟨w₀, ?_⟩
    simp only [afterHit]
    split_ifs with hwrite
    · rw [putLine_apply]
      split_ifs with hsw
      · obtain ⟨hs, rfl⟩ := hsw
        rw [← hs]
        exact ⟨hvalid, rfl, htag⟩
      · exact ⟨hvalid, hdirty, htag⟩
    · exact ⟨hvalid, hdirty, htag⟩
  | around hw hr ha' =>
    left
    refine ⟨w₀, ?_⟩
    rw [missed_sets]
    exact ⟨hvalid, hdirty, htag⟩
  | fill e e' hw ha' =>
    by_cases hsw : geo.setOf a = geo.setOf r.addr ∧ w₀ = (c.pickWay e (geo.setOf r.addr)).1
    · right
      obtain ⟨hs, rfl⟩ := hsw
      rw [hs] at hvalid hdirty htag
      have hindex : (geo.decode r.addr).setIndex = (geo.decode a).setIndex :=
        UInt64.toNat_inj.mp (congrArg Fin.val hs).symm
      have hp : geo.cfg.writePolicy = .WriteBack := by
        cases hp : geo.cfg.writePolicy with
        | WriteBack => rfl
        | WriteThrough =>
          rw [hc.lines.writeThrough_clean hp] at hdirty
          cases hdirty
      refine ⟨⟨geo.victimAddr (geo.tagOf a) (geo.decode a).setIndex, true⟩, ?_, rfl,
        geo.blockOf_victimAddr a⟩
      rw [fillCalls, victimWrite, if_pos ⟨hvalid, hdirty, hp⟩, htag, hindex]
      simp
    · left
      refine ⟨w₀, ?_⟩
      simp only [afterFill]
      rw [putLine_apply, if_neg hsw]
      exact ⟨hvalid, hdirty, htag⟩

end Cache

/-- What makes a store that arrives at the top of a chain a store to the block containing `a`;
`P` says it of the terminal level. -/
def Aligned (P : UInt64 → Prop) (a : UInt64) : List Geometry → UInt64 → Prop
  | [] => P
  | geo :: _ => fun x => geo.blockOf x = geo.blockOf a

def Nested (P : UInt64 → Prop) (a : UInt64) : List Geometry → Prop
  | [] => True
  | geo :: geos => (∀ x, geo.blockOf x = geo.blockOf a → Aligned P a geos x) ∧ Nested P a geos

namespace Traced

/-- A dirty copy of the block containing `a` is somewhere in the chain, or memory was sent a store
to it after serving `old`. -/
def Kept (P : UInt64 → Prop) (old : List (Request × Bool)) (a : UInt64) :
    {geos : List Geometry} → Traced ρ Memory geos → Prop
  | [], t => ∃ new, Logged.log t = old ++ new ∧ ∃ x ∈ new, x.1.isWrite = true ∧ P x.1.addr
  | _ :: _, t => t.state.1.HoldsDirty a ∨ Kept P old a t.state.2

def Sound (old : List (Request × Bool)) {geos : List Geometry} (t : Traced ρ Memory geos) : Prop :=
  old <+: t.memoryLog ∧ ∀ c ∈ t.erase.caches, c.2.WellFormed

variable [ReplacementPolicy ε ρ] {P : UInt64 → Prop} {old : List (Request × Bool)} {a : UInt64}

theorem memoryLog_serve (geos : List Geometry) (t : Traced ρ Memory geos) (e : ε) (r : Request)
    (h : old <+: t.memoryLog) : old <+: memoryLog (serve t e r).2.1 := by
  induction geos generalizing e r with
  | nil => exact h.trans (List.prefix_append _ _)
  | cons geo geos ih =>
    obtain ⟨⟨c, next⟩, log⟩ := t
    obtain ⟨calls, -, hcalls⟩ := Cache.access_step (σ := Traced ρ Memory geos) c next e r
    exact hcalls.invariant (P := fun t => old <+: memoryLog t) (fun t e r => ih t e r) h

theorem sound_serve (geos : List Geometry) (t : Traced ρ Memory geos) (e : ε) (r : Request)
    (h : t.Sound old) : Sound old (serve t e r).2.1 := by
  refine ⟨memoryLog_serve geos t e r h.1, ?_⟩
  have herase := (erase_commutes geos).apply t e r
  have hcaches := Chain.caches_invariant (P := fun geo (c : Cache ρ geo) => c.WellFormed)
    (fun geo c r b calls c' hstep hc => hstep.wellFormed hc) geos t.erase e r h.2
  rwa [herase] at hcaches

theorem kept_serve (geos : List Geometry) (hnest : Nested P a geos) (t : Traced ρ Memory geos) (e : ε)
    (r : Request) (ht : t.Sound old)
    (h : t.Kept P old a ∨ (r.isWrite = true ∧ Aligned P a geos r.addr)) :
    Kept P old a (serve t e r).2.1 := by
  induction geos generalizing e r with
  | nil =>
    obtain ⟨⟨new, hnew⟩, -⟩ := ht
    refine ⟨new ++ [(r, (serve t.state e r).1)], ?_, ?_⟩
    · rw [← List.append_assoc, hnew]
      rfl
    · rcases h with ⟨new', hnew', x, hx, hxw⟩ | ⟨hr, hP⟩
      · obtain rfl : new = new' := List.append_cancel_left (hnew.trans hnew')
        exact ⟨x, List.mem_append_left _ hx, hxw⟩
      · exact ⟨_, List.mem_append_right _ (List.mem_singleton_self _), hr, hP⟩
  | cons geo geos ih =>
    obtain ⟨⟨c, next⟩, log⟩ := t
    obtain ⟨hhere, hbelow⟩ := hnest
    obtain ⟨calls, hstep, hcalls⟩ := Cache.access_step (σ := Traced ρ Memory geos) c next e r
    have hc : c.WellFormed := ht.2 ⟨geo, c⟩ List.mem_cons_self
    have hnext : next.Sound old := ⟨ht.1, fun c hc => ht.2 c (List.mem_cons_of_mem _ hc)⟩
    -- it suffices that the block is dirty here, or that a store to it is among the calls
    have hreach : next.Kept P old a ∨ (∃ r' ∈ calls, r'.isWrite = true ∧ Aligned P a geos r'.addr) →
        Kept P old a (serve (c, next) e r).2.1.2 :=
      hcalls.reaches (fun t e r => sound_serve geos t e r)
        (fun t e r ht hk => ih hbelow t e r ht (.inl hk))
        (fun t e r ht hr => ih hbelow t e r ht (.inr hr)) hnext
    rcases h with (hdirty | hkept) | ⟨hr, hblock⟩
    · rcases hstep.dirty_kept hc hdirty with hdirty' | ⟨r', hr', hw', hb'⟩
      · exact .inl hdirty'
      · exact .inr (hreach (.inr ⟨r', hr', hw', hhere _ hb'⟩))
    · exact .inr (hreach (.inl hkept))
    · rcases hstep.store_kept hr hblock with hdirty' | hmem
      · exact .inl hdirty'
      · exact .inr (hreach (.inr ⟨r, hmem, hr, hhere _ hblock⟩))

theorem kept_run (geos : List Geometry) (hnest : Nested P a geos) (t : Traced ρ Memory geos) (e : ε)
    (reqs : List Request) (ht : t.Sound old)
    (h : ∃ r ∈ reqs, r.isWrite = true ∧ Aligned P a geos r.addr) :
    Kept P old a (run t e reqs).2.1 :=
  (run_called t e reqs).reaches (I := fun t => Sound old t) (K := fun t => Kept P old a t)
    (q := fun r => r.isWrite = true ∧ Aligned P a geos r.addr)
    (fun t e r ht => sound_serve geos t e r ht)
    (fun t e r ht hk => kept_serve geos hnest t e r ht (.inl hk))
    (fun t e r ht hr => kept_serve geos hnest t e r ht (.inr hr)) ht (.inr h)

omit [ReplacementPolicy ε ρ] in
theorem Kept.cases {geos : List Geometry} {t : Traced ρ Memory geos} (h : t.Kept P old a) :
    (∃ c ∈ t.erase.caches, c.2.HoldsDirty a) ∨
      ∃ x ∈ t.memoryLog.drop old.length, x.1.isWrite = true ∧ P x.1.addr := by
  induction geos with
  | nil =>
    obtain ⟨new, hnew, hx⟩ := h
    right
    change ∃ x ∈ (Logged.log t).drop old.length, _
    rwa [hnew, List.drop_left]
  | cons geo geos ih =>
    rcases h with hdirty | hkept
    · exact .inl ⟨_, List.mem_cons_self, hdirty⟩
    · apply (ih hkept).imp_left
      rintro ⟨c, hc, hdirty⟩
      exact ⟨c, List.mem_cons_of_mem _ hc, hdirty⟩

end Traced

theorem nested_of_sizes {P : UInt64 → Prop} {a : UInt64} {geos : List Geometry}
    (hsizes : (geos.map fun geo => geo.cfg.blockSize).Pairwise (· ≤ ·))
    (hlast : ∀ geo ∈ geos.getLast?, ∀ x, geo.blockOf x = geo.blockOf a → P x) : Nested P a geos := by
  induction geos with
  | nil => trivial
  | cons geo geos ih =>
    rw [List.map_cons, List.pairwise_cons] at hsizes
    cases geos with
    | nil => exact ⟨hlast geo rfl, trivial⟩
    | cons geo' geos =>
      refine ⟨fun x hx => ?_, ih hsizes.2 (by simpa using hlast)⟩
      have hle : geo.cfg.blockSize ≤ geo'.cfg.blockSize := hsizes.1 _ (by simp)
      exact Geometry.blockOf_nested ((Geometry.blockSize_le_iff geo geo').mp hle) hx

namespace CacheHierarchy

def lastLevel (h : CacheHierarchy ρ) : Geometry := (h.l1 :: h.lower).getLast (List.cons_ne_nil _ _)

variable [ReplacementPolicy ε ρ]

theorem no_store_lost {order : HashOrder UInt64 ℕ} {make : Chain.Policies ρ}
    {cfgs : List CacheConfig} {memTime : ℚ} {h : CacheHierarchy ρ}
    (hok : new order make cfgs memTime = .ok h)
    (hsizes : (cfgs.map fun cfg => cfg.blockSize).Pairwise (· ≤ ·)) (e : ε) (pre post : List Request)
    (a : UInt64) :
    let before := run (Traced.fresh order make ({} : Memory) (h.l1 :: h.lower)) e pre
    let after := run before.2.1 before.2.2 (⟨a, true⟩ :: post)
    after.2.1.erase = (run h.levels e (pre ++ ⟨a, true⟩ :: post)).2.1 ∧
      ((∃ c ∈ after.2.1.erase.caches, c.2.HoldsDirty a) ∨
        ∃ x ∈ after.2.1.memoryLog.drop before.2.1.memoryLog.length,
          x.1.isWrite = true ∧ h.lastLevel.blockOf x.1.addr = h.lastLevel.blockOf a) := by
  intro before after
  obtain ⟨hcfgs, hfresh⟩ := new_ok hok
  have hlevels : h.levels = Chain.fresh order make ({} : Memory) (h.l1 :: h.lower) := by
    rw [hfresh]
    rfl
  have herase := Traced.erase_run order make ({} : Memory) (h.l1 :: h.lower) e
  have hnest : Nested (fun x => h.lastLevel.blockOf x = h.lastLevel.blockOf a) a (h.l1 :: h.lower) := by
    apply nested_of_sizes
    · rw [hcfgs, List.map_map] at hsizes
      exact hsizes
    · intro geo hgeo x hx
      rw [List.getLast?_eq_some_getLast (List.cons_ne_nil _ _)] at hgeo
      obtain rfl := Option.some.inj hgeo
      exact hx
  have hsound : before.2.1.Sound before.2.1.memoryLog := by
    refine ⟨List.prefix_refl _, ?_⟩
    rw [herase pre]
    exact levels_wellFormed order make _ _ e pre
  have hkept := Traced.kept_run _ hnest before.2.1 before.2.2 (⟨a, true⟩ :: post) hsound
    ⟨⟨a, true⟩, List.mem_cons_self, rfl, rfl⟩
  refine ⟨?_, hkept.cases⟩
  have hrun : after.2.1 = (run (Traced.fresh order make ({} : Memory) (h.l1 :: h.lower)) e
      (pre ++ ⟨a, true⟩ :: post)).2.1 := by
    rw [run_append]
  rw [hrun, herase, hlevels]

theorem no_store_lost_golden :
    ∃ h : CacheHierarchy BuiltinPolicy,
      new .newestFirst builtinPolicies [golden, golden] 100 = .ok h ∧
      let before := run (Traced.fresh .newestFirst builtinPolicies ({} : Memory) (h.l1 :: h.lower))
        RandStream.zeros [⟨0, false⟩]
      let after := run before.2.1 before.2.2 [⟨4, true⟩, ⟨20, true⟩, ⟨36, false⟩]
      (∃ c ∈ after.2.1.erase.caches, c.2.HoldsDirty 4) ∨
        ∃ x ∈ after.2.1.memoryLog.drop before.2.1.memoryLog.length,
          x.1.isWrite = true ∧ h.lastLevel.blockOf x.1.addr = h.lastLevel.blockOf 4 := by
  have hok : new .newestFirst builtinPolicies [golden, golden] 100 =
      .ok (fresh .newestFirst builtinPolicies goldenGeometry [goldenGeometry] 100) := rfl
  refine ⟨_, hok, ?_⟩
  exact (no_store_lost hok (by decide) RandStream.zeros [⟨0, false⟩] [⟨20, true⟩, ⟨36, false⟩] 4).2

end CacheHierarchy

end CacheSim
