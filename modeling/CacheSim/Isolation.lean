import CacheSim.Placement

namespace CacheSim

open Service

variable {k : ℕ}

theorem shift_zero (r : Request) : shift 0 r = r := by
  obtain ⟨addr, isWrite⟩ := r
  have haddr : addr + UInt64.ofNat 0 = addr := UInt64.add_zero addr
  rw [shift, haddr]

abbrev Anywhere : RandStream → RandStream → Prop := fun _ _ => True

theorem not_draws_anywhere : ¬Draws Anywhere := by
  intro h
  have hdraw := (h RandStream.zeros (fun _ => 1) trivial).1
  exact absurd hdraw (by decide)

theorem Agrees.of_anywhere {S A : ℕ} {E : RandStream → RandStream → Prop} {f : Fin S → Fin S}
    {p p' : BuiltinPolicy S A} (h : Agrees Anywhere f p p') : Agrees E f p p' := by
  cases h with
  | lru hclock hstamps => exact .lru hclock hstamps
  | fifo hclock hstamps => exact .fifo hclock hstamps
  | random hdraw => exact absurd hdraw not_draws_anywhere

namespace Chain

theorem Moved.of_anywhere {E : RandStream → RandStream → Prop} {geos : List Geometry}
    {s t : Chain BuiltinPolicy Memory geos} (h : Moved Anywhere k s t) : Moved E k s t := by
  induction geos with
  | nil => exact h
  | cons geo geos ih => exact ⟨{ h.1 with repl := h.1.repl.of_anywhere }, ih h.2⟩

theorem quiet (geos : List Geometry) :
    Quiet RandStream fun (s : Chain BuiltinPolicy Memory geos) => Moved Anywhere 0 s s := by
  intro s e r hs
  have hkept := (moved_simulates (E := Anywhere) (k := 0) geos).1 s s e e r hs trivial
  have hfixed := (moved_simulates (E := fun e₁ _ => e₁ = e) (k := 0) geos).1 s s e e r hs.of_anywhere rfl
  rw [shift_zero] at hkept
  exact ⟨hkept.1, hfixed.2⟩

end Chain

namespace Cache

variable {geo : Geometry} {lower₁ lower₂ : List Geometry}

theorem isolated {E : RandStream → RandStream → Prop}
    {R : Chain BuiltinPolicy Memory lower₁ → Chain BuiltinPolicy Memory lower₂ → Prop}
    (hbelow : Follows E (shift 0) R) {order₁ order₂ : HashOrder UInt64 ℕ}
    (hdraw : geo.cfg.replacement = .Random → Draws E) {next₁ : Chain BuiltinPolicy Memory lower₁}
    {next₂ : Chain BuiltinPolicy Memory lower₂} (hR : R next₁ next₂) {e : RandStream} (hE : E e e)
    (reqs : List Request) :
    let s₁ := (fresh order₁ (makeReplacement geo.cfg.replacement geo.sets geo.ways), next₁)
    let s₂ := (fresh order₂ (makeReplacement geo.cfg.replacement geo.sets geo.ways), next₂)
    (run s₁ e reqs).1 = (run s₂ e reqs).1 ∧ (run s₁ e reqs).2.1.1.stats = (run s₂ e reqs).2.1.1.stats := by
  intro s₁ s₂
  have hinit : Moved E 0 s₁.1 s₂.1 ∧ R s₁.2 s₂.2 :=
    ⟨moved_fresh order₁ order₂ (Nat.dvd_zero _) hdraw, hR⟩
  obtain ⟨hresults, hstates, -⟩ := (moved_simulates hbelow).run hinit hE reqs
  have hreqs : reqs.map (shift 0) = reqs := by
    rw [funext shift_zero]
    exact List.map_id reqs
  rw [hreqs] at hresults hstates
  exact ⟨hresults, hstates.stats_eq.symm⟩

end Cache

namespace CacheHierarchy

theorem geometry_eq {geo₁ geo₂ : Geometry} (h : geo₁.cfg = geo₂.cfg) : geo₁ = geo₂ := by
  obtain ⟨l₁, h₁⟩ := geo₁
  obtain ⟨l₂, h₂⟩ := geo₂
  dsimp only at h
  rw [h, h₂] at h₁
  obtain rfl := Except.ok.inj h₁
  rfl

theorem fresh_isolated (order₁ order₂ : HashOrder UInt64 ℕ) (memTime₁ memTime₂ : ℚ) {geo : Geometry}
    {lower₁ lower₂ : List Geometry}
    (hrandom : geo.cfg.replacement ≠ .Random ∨
      ∀ below ∈ lower₁ ++ lower₂, below.cfg.replacement ≠ .Random) (e : RandStream)
    (reqs : List Request) :
    let s₁ := (fresh order₁ builtinPolicies geo lower₁ memTime₁).levels
    let s₂ := (fresh order₂ builtinPolicies geo lower₂ memTime₂).levels
    (run s₁ e reqs).1 = (run s₂ e reqs).1 ∧ (run s₁ e reqs).2.1.1.stats = (run s₂ e reqs).2.1.1.stats := by
  rcases hrandom with hl1 | hlower
  · have hany : Follows Anywhere (shift 0) fun (_ : Chain BuiltinPolicy Memory lower₁)
        (_ : Chain BuiltinPolicy Memory lower₂) => True := fun _ _ _ _ _ _ _ => ⟨trivial, trivial⟩
    exact Cache.isolated hany (fun h => absurd h hl1) trivial trivial reqs
  · have hquiet := (Chain.quiet lower₁).follows (Chain.quiet lower₂) Eq (shift 0)
    have hbelow : ∀ {order : HashOrder UInt64 ℕ} {geos : List Geometry},
        (∀ below ∈ geos, below.cfg.replacement ≠ .Random) →
        Chain.Moved Anywhere 0 (Chain.fresh order builtinPolicies ({} : Memory) geos)
          (Chain.fresh order builtinPolicies ({} : Memory) geos) := by
      intro order geos hgeos
      apply Chain.moved_fresh
      exact fun below h => ⟨Nat.dvd_zero _, fun hr => absurd hr (hgeos below h)⟩
    apply Cache.isolated hquiet (fun _ => draws_eq) _ rfl reqs
    exact ⟨hbelow fun below h => hlower below (List.mem_append_left _ h),
      hbelow fun below h => hlower below (List.mem_append_right _ h)⟩

theorem l1_isolated {order₁ order₂ : HashOrder UInt64 ℕ} {l1 : CacheConfig}
    {lower₁ lower₂ : List CacheConfig} {memTime₁ memTime₂ : ℚ} {h₁ h₂ : CacheHierarchy BuiltinPolicy}
    (hok₁ : new order₁ builtinPolicies (l1 :: lower₁) memTime₁ = .ok h₁)
    (hok₂ : new order₂ builtinPolicies (l1 :: lower₂) memTime₂ = .ok h₂)
    (hrandom : l1.replacement ≠ .Random ∨ ∀ cfg ∈ lower₁ ++ lower₂, cfg.replacement ≠ .Random)
    (e : RandStream) (trace : List Access) :
    (run h₁.levels e (trace.flatMap Access.expand)).1 =
        (run h₂.levels e (trace.flatMap Access.expand)).1 ∧
      (h₁.feedAll e trace).1.levels.1.stats = (h₂.feedAll e trace).1.levels.1.stats := by
  obtain ⟨hcfgs₁, hfresh₁⟩ := new_ok hok₁
  obtain ⟨hcfgs₂, hfresh₂⟩ := new_ok hok₂
  obtain ⟨hl1, hlower₁⟩ := List.cons.inj hcfgs₁
  obtain ⟨hl1', hlower₂⟩ := List.cons.inj hcfgs₂
  have hgeo : h₁.l1 = h₂.l1 := geometry_eq (hl1.symm.trans hl1')
  dsimp only at hl1'
  have hpolicies : h₂.l1.cfg.replacement ≠ .Random ∨
      ∀ below ∈ h₁.lower ++ h₂.lower, below.cfg.replacement ≠ .Random := by
    rw [← hl1']
    apply hrandom.imp_right
    intro h below hbelow
    apply h
    rw [hlower₁, hlower₂, ← List.map_append]
    exact List.mem_map_of_mem hbelow
  have hmain := fresh_isolated order₁ order₂ memTime₁ memTime₂ hpolicies e (trace.flatMap Access.expand)
  rw [feedAll_eq, feedAll_eq, hfresh₁, hfresh₂, hgeo]
  exact hmain

theorem l1_isolated_golden :
    ∃ h₁ h₂ : CacheHierarchy BuiltinPolicy,
      new .newestFirst builtinPolicies [golden] 100 = .ok h₁ ∧
      new .newestFirst builtinPolicies [golden, twoWayGeometry.cfg] 100 = .ok h₂ ∧
      (h₁.feedAll RandStream.zeros [⟨.Read, 0, 4⟩, ⟨.Write, 16, 4⟩]).1.levels.1.stats =
        (h₂.feedAll RandStream.zeros [⟨.Read, 0, 4⟩, ⟨.Write, 16, 4⟩]).1.levels.1.stats := by
  have hok₁ : new .newestFirst builtinPolicies [golden] 100 =
      .ok (fresh .newestFirst builtinPolicies goldenGeometry [] 100) := rfl
  have hok₂ : new .newestFirst builtinPolicies [golden, twoWayGeometry.cfg] 100 =
      .ok (fresh .newestFirst builtinPolicies goldenGeometry [twoWayGeometry] 100) := rfl
  exact ⟨_, _, hok₁, hok₂, (l1_isolated hok₁ hok₂ (.inl (by decide)) _ _).2⟩

def randomPair : CacheConfig :=
  { sizeBytes := 8, blockSize := 4, associativity := 2, replacement := .Random }

def unseeded : RandStream := fun n => [1804289383, 846930886].getD n 0

/-- With a second level that draws too, the fetch takes the number that chose the victim in the first:
its next access to address 0 misses instead of hitting. -/
theorem shared_stream_leaks :
    ∃ h₁ h₂ : CacheHierarchy BuiltinPolicy,
      new .newestFirst builtinPolicies [randomPair] 100 = .ok h₁ ∧
      new .newestFirst builtinPolicies [randomPair, randomPair] 100 = .ok h₂ ∧
      (run h₁.levels unseeded [⟨0, false⟩, ⟨4, false⟩, ⟨8, false⟩, ⟨0, false⟩]).1 =
        [false, false, false, true] ∧
      (run h₂.levels unseeded [⟨0, false⟩, ⟨4, false⟩, ⟨8, false⟩, ⟨0, false⟩]).1 =
        [false, false, false, false] ∧
      (h₁.feedAll unseeded [⟨.Read, 0, 4⟩, ⟨.Read, 4, 4⟩, ⟨.Read, 8, 4⟩, ⟨.Read, 0, 4⟩]).1.levels.1.stats.hits =
        1 ∧
      (h₂.feedAll unseeded [⟨.Read, 0, 4⟩, ⟨.Read, 4, 4⟩, ⟨.Read, 8, 4⟩, ⟨.Read, 0, 4⟩]).1.levels.1.stats.hits =
        0 :=
  ⟨_, _, rfl, rfl, by decide, by decide, by decide, by decide⟩

end CacheHierarchy

end CacheSim
