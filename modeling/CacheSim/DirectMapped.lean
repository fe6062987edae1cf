import CacheSim.Inclusion
import CacheSim.ListRefinement

namespace CacheSim

open Service

variable {ε σ : Type} {ρ : ℕ → ℕ → Type} {geo geo₁ geo₂ : Geometry}

theorem Service.Called.uncons {α β : Type} [Service ε σ α β] {s t : σ} {a : α} {calls : List α}
    (h : Called ε s (a :: calls) t) : ∃ e : ε, Called ε (serve s e a).2.1 calls t := by
  obtain ⟨es, hes, hserves⟩ := h
  cases hserves with
  | nil => cases hes
  | cons e a' hserves =>
    obtain ⟨rfl, hrest⟩ := List.cons.inj hes
    exact ⟨e, _, hrest, hserves⟩

theorem Service.Called.unnil {α β : Type} [Service ε σ α β] {s t : σ} (h : Called ε s ([] : List α) t) :
    s = t := by
  obtain ⟨es, hes, hserves⟩ := h
  obtain rfl := List.map_eq_nil_iff.mp hes
  cases hserves
  rfl

namespace Cache

namespace Step

variable [ReplacementPolicy ε ρ] {c c' : Cache ρ geo} {r : Request} {b : Bool} {calls : List Request}

theorem lines_kept (hstep : Step ε c r b calls c') {s : Fin geo.sets}
    (hs : geo.setOf r.addr ≠ s ∨ b = true ∨ installs geo r = false) (w : Fin geo.ways) :
    (c'.sets s w).valid = (c.sets s w).valid ∧ (c'.sets s w).tag = (c.sets s w).tag := by
  cases hstep with
  | hit way e hw => exact afterHit_line c r way _ s w
  | around hw hr ha =>
    rw [missed_sets]
    exact ⟨rfl, rfl⟩
  | fill e e' hw ha =>
    have hother : geo.setOf r.addr ≠ s := by
      rcases hs with hs | hs | hs
      · exact hs
      · cases hs
      · rw [installs_of_fill ha] at hs
        cases hs
    simp only [afterFill, putLine_other (Ne.symm hother)]
    exact ⟨trivial, trivial⟩

theorem resident_kept (hstep : Step ε c r b calls c') {a : UInt64}
    (ha : geo.setOf r.addr ≠ geo.setOf a ∨ b = true ∨ installs geo r = false) :
    c'.Resident a ↔ c.Resident a := by
  apply exists_congr
  intro w
  obtain ⟨hvalid, htag⟩ := hstep.lines_kept ha w
  rw [hvalid, htag]

theorem resident_alone (hstep : Step ε c r b calls c') (hone : geo.ways = 1)
    (hr : installs geo r = true) {a : UInt64} (ha : c'.Resident a) (hset : geo.setOf a = geo.setOf r.addr) :
    geo.blockOf a = geo.blockOf r.addr := by
  obtain ⟨w, -, htag⟩ := ha
  obtain ⟨w', -, htag'⟩ := hstep.resident_installed hr
  have hsub : Subsingleton (Fin geo.ways) := by
    rw [hone]
    infer_instance
  obtain rfl : w = w' := Subsingleton.elim w w'
  rw [hset] at htag
  exact (geo.blockOf_eq_iff a r.addr).mpr ⟨hset, htag.symm.trans htag'⟩

end Step

variable [ReplacementPolicy ε ρ] [MemoryLevel ε σ]

theorem resident_called {s t : Cache ρ geo × σ} {calls : List Request} (h : Called ε s calls t)
    (hcalls : ∀ q ∈ calls, s.1.Resident q.addr ∨ installs geo q = false) (a : UInt64) :
    t.1.Resident a ↔ s.1.Resident a := by
  have hkept := h.invariant_of (P := fun t => ∀ a, t.1.Resident a ↔ s.1.Resident a) ?_ fun _ => Iff.rfl
  · exact hkept a
  · rintro ⟨c, next⟩ e q hq hc a
    obtain ⟨below, hstep, -⟩ := access_step c next e q
    rw [hstep.resident_kept _, hc a]
    right
    apply (hcalls q hq).imp_left
    intro hres
    exact hstep.hit_iff.mpr ((hc q.addr).mpr hres)

omit [ReplacementPolicy ε ρ] in
theorem stores_after_fetch {c : Cache ρ geo} {s : Fin geo.sets} {i : UInt64} {w : Fin geo.ways}
    {r q : Request} (hq : q ∈ c.victimWrite s i w ++ forwarded geo r) : q.isWrite = true := by
  rcases List.mem_append.mp hq with hq | hq
  · unfold victimWrite at hq
    split_ifs at hq
    · rw [List.mem_singleton.mp hq]
    · cases hq
  · unfold forwarded at hq
    split_ifs at hq with hf
    · rw [List.mem_singleton.mp hq]
      exact hf.1
    · cases hq

/-- The lower of two levels takes in all that the upper one reads, and never gives up a block that the
upper one keeps: its sets divide those of the upper one, in which a block is always alone. -/
structure Covers (geo₁ geo₂ : Geometry) : Prop where
  direct : geo₁.ways = 1
  block : geo₁.cfg.blockSize = geo₂.cfg.blockSize
  sets : geo₁.numSets ≤ geo₂.numSets
  stores : geo₂.cfg.allocPolicy = .NoWriteAllocate ∨
    (geo₁.cfg.writePolicy = .WriteThrough ∧ geo₁.cfg.allocPolicy = .WriteAllocate)

namespace Covers

omit [ReplacementPolicy ε ρ] [MemoryLevel ε σ] in
theorem setOf_coarser (h : Covers geo₁ geo₂) {a b : UInt64} (hab : geo₂.setOf a = geo₂.setOf b) :
    geo₁.setOf a = geo₁.setOf b := by
  rw [geo₂.setOf_eq, geo₂.setOf_eq] at hab
  rw [geo₁.setOf_eq, geo₁.setOf_eq, Geometry.blockOf_congr h.block]
  exact Geometry.setOfBlock_coarser h.sets hab

theorem step (h : Covers geo₁ geo₂) {c c' : Cache ρ geo₁} {r : Request} {b : Bool} {calls : List Request}
    (hstep : Step ε c r b calls c') {s t : Cache ρ geo₂ × σ} (hcalls : Called ε s calls t)
    (hin : ∀ a, c.Resident a → s.1.Resident a) {a : UInt64} (ha : c'.Resident a) : t.1.Resident a := by
  have hhit := hstep.hit_iff
  have hold := hstep.resident_of_resident (a := a)
  have halone := fun hr => hstep.resident_alone h.direct hr ha
  have hkept : b = true ∨ installs geo₁ r = false → c.Resident a := fun hr =>
    (hstep.resident_kept (.inr hr)).mp ha
  cases hstep with
  | hit w e hw =>
    apply (resident_called hcalls _ a).mpr (hin a (hkept (.inl rfl)))
    intro q hq
    rw [forwarded_addr hq]
    exact .inl (hin r.addr (hhit.mp rfl))
  | around hw hr hNWA =>
    have hinstalls : installs geo₁ r = false := by simp [installs, hr, hNWA]
    apply (resident_called hcalls _ a).mpr (hin a (hkept (.inr hinstalls)))
    intro q hq
    obtain rfl := List.mem_singleton.mp hq
    right
    rcases h.stores with hbelow | ⟨-, hWA⟩
    · simp [installs, hr, hbelow]
    · rw [hWA] at hNWA
      cases hNWA
  | fill e e' hw hinstall =>
    obtain ⟨e₂, hrest⟩ := hcalls.uncons
    obtain ⟨below, hread, -⟩ := access_step s.1 s.2 e₂ ⟨r.addr, false⟩
    have hfetched : (serve s e₂ (⟨r.addr, false⟩ : Request)).2.1.1.Resident r.addr :=
      hread.resident_installed rfl
    -- what follows the fetch are stores, and they change nothing below
    apply (resident_called hrest _ a).mpr
    · by_cases hset : geo₁.setOf a = geo₁.setOf r.addr
      · have hblock := halone (installs_of_fill hinstall) hset
        rw [Geometry.blockOf_congr h.block] at hblock
        obtain ⟨hset₂, htag₂⟩ := (geo₂.blockOf_eq_iff a r.addr).mp hblock
        rw [Resident, hset₂, htag₂]
        exact hfetched
      · apply (hread.resident_kept (.inl fun h₂ => hset (h.setOf_coarser h₂.symm))).mpr
        apply hin a
        apply (hold ha).resolve_right
        exact fun hblock => hset ((geo₁.blockOf_eq_iff a r.addr).mp hblock).1
    · intro q hq
      rcases h.stores with hbelow | ⟨hWT, -⟩
      · right
        simp [installs, stores_after_fetch hq, hbelow]
      · left
        rw [victimWrite, if_neg (by simp [DirtyVictim, hWT]), List.nil_append] at hq
        rw [forwarded_addr hq]
        exact hfetched

end Covers

end Cache

def filterConfig : CacheConfig := { sizeBytes := 16, blockSize := 4, writePolicy := .WriteThrough }

def filterGeometry : Geometry := ⟨⟨filterConfig, 4, 2, 2, 60⟩, rfl⟩

namespace Chain

variable {μ : Type}

def Inclusive : {geos : List Geometry} → Chain ρ μ geos → Prop
  | [], _ => True
  | [_], _ => True
  | geo₁ :: geo₂ :: geos, s =>
    (∀ a, (s.1 : Cache ρ geo₁).Resident a → (s.2.1 : Cache ρ geo₂).Resident a) ∧
      Inclusive (s.2 : Chain ρ μ (geo₂ :: geos))

theorem fresh_inclusive (order : HashOrder UInt64 ℕ) (make : Policies ρ) (mem : μ) (geos : List Geometry) :
    (fresh order make mem geos).Inclusive := by
  match geos with
  | [] => trivial
  | [_] => trivial
  | geo₁ :: geo₂ :: geos =>
    refine ⟨fun a => ?_, fresh_inclusive order make mem (geo₂ :: geos)⟩
    rintro ⟨w, hvalid, -⟩
    cases hvalid

theorem inclusive_serve [ReplacementPolicy ε ρ] [MemoryLevel ε μ] {geos : List Geometry}
    (hcovers : geos.IsChain Cache.Covers) (s : Chain ρ μ geos) (e : ε) (r : Request) (hs : s.Inclusive) :
    Inclusive (serve s e r).2.1 := by
  match geos, hcovers with
  | [], _ => trivial
  | [_], _ => trivial
  | geo₁ :: geo₂ :: geos, hcovers =>
    obtain ⟨c, next⟩ := s
    obtain ⟨hpair, hrest⟩ := List.isChain_cons_cons.mp hcovers
    obtain ⟨calls, hstep, hcalls⟩ := Cache.access_step (σ := Chain ρ μ (geo₂ :: geos)) c next e r
    refine ⟨fun a ha => ?_, ?_⟩
    · exact hpair.step (σ := Chain ρ μ geos) hstep hcalls hs.1 ha
    · exact hcalls.invariant (P := fun s => Inclusive s)
        (fun s e r hs => inclusive_serve hrest s e r hs) hs.2

end Chain

namespace CacheHierarchy

variable [ReplacementPolicy ε ρ]

theorem direct_mapped_inclusive {order : HashOrder UInt64 ℕ} {make : Chain.Policies ρ}
    {cfgs : List CacheConfig} {memTime : ℚ} {h : CacheHierarchy ρ}
    (hok : new order make cfgs memTime = .ok h) (hcovers : (h.l1 :: h.lower).IsChain Cache.Covers) (e : ε)
    (trace : List Access) : Chain.Inclusive (h.feedAll e trace).1.levels := by
  rw [feedAll_eq]
  apply (run_called h.levels e (trace.flatMap Access.expand)).invariant (P := fun s => Chain.Inclusive s)
  · exact fun s e r hs => Chain.inclusive_serve hcovers s e r hs
  · rw [(new_ok hok).2]
    exact Chain.fresh_inclusive order make ({} : Memory) (h.l1 :: h.lower)

theorem direct_mapped_inclusive_twoWay :
    ∃ h : CacheHierarchy BuiltinPolicy,
      new .newestFirst builtinPolicies [filterConfig, twoWayGeometry.cfg] 100 = .ok h ∧
      Chain.Inclusive (h.feedAll RandStream.zeros
        [⟨.Read, 0, 4⟩, ⟨.Modify, 16, 4⟩, ⟨.Write, 32, 4⟩, ⟨.Read, 0, 4⟩]).1.levels := by
  have hok : new .newestFirst builtinPolicies [filterConfig, twoWayGeometry.cfg] 100 =
      .ok (fresh .newestFirst builtinPolicies filterGeometry [twoWayGeometry] 100) := rfl
  have hcovers : [filterGeometry, twoWayGeometry].IsChain Cache.Covers := by
    apply List.isChain_pair.mpr
    exact ⟨rfl, rfl, by decide, .inr ⟨rfl, rfl⟩⟩
  exact ⟨_, hok, direct_mapped_inclusive hok hcovers RandStream.zeros _⟩

end CacheHierarchy

end CacheSim
