import CacheSim.Isolation
import CacheSim.Latency
import CacheSim.Traffic
import CacheSim.WriteBacks

namespace CacheSim

open Service

namespace Stats

theorem missRate_nonneg (s : Stats) : 0 ≤ s.missRate := by
  unfold missRate
  split_ifs
  · exact le_rfl
  · exact div_nonneg (Nat.cast_nonneg _) (Nat.cast_nonneg _)

theorem missRate_le {s t : Stats} (haccesses : s.accesses = t.accesses) (hmisses : s.misses ≤ t.misses) :
    s.missRate ≤ t.missRate := by
  unfold missRate
  rw [haccesses]
  split_ifs
  · exact le_rfl
  · exact div_le_div_of_nonneg_right (Nat.cast_le.mpr hmisses) (Nat.cast_nonneg _)

end Stats

variable {geo₁ geo₂ : Geometry}

namespace Geometry

structure Extends (geo₂ geo₁ : Geometry) : Prop where
  lru₁ : geo₁.cfg.replacement = .LRU
  lru₂ : geo₂.cfg.replacement = .LRU
  writeBack₁ : geo₁.cfg.writePolicy = .WriteBack
  writeBack₂ : geo₂.cfg.writePolicy = .WriteBack
  allocate₁ : geo₁.cfg.allocPolicy = .WriteAllocate
  allocate₂ : geo₂.cfg.allocPolicy = .WriteAllocate
  block : geo₁.cfg.blockSize = geo₂.cfg.blockSize
  sets : geo₁.numSets ≤ geo₂.numSets
  ways : geo₁.cfg.associativity ≤ geo₂.cfg.associativity

end Geometry

namespace Cache

def Drained {geo : Geometry} (s : Cache BuiltinPolicy geo × Memory) : Prop :=
  s.2.reads = s.1.stats.misses ∧ s.2.writes = s.1.stats.writebacks

theorem Step.drained {geo : Geometry} (hWB : geo.cfg.writePolicy = .WriteBack)
    (hWA : geo.cfg.allocPolicy = .WriteAllocate) {c c' : Cache BuiltinPolicy geo} {m m' : Memory} {r : Request}
    {b : Bool} {calls : List Request} (hstep : Step RandStream c r b calls c')
    (hcalls : Called RandStream m calls m') (h : Drained (c, m)) : Drained (c', m') := by
  have hreads : m'.reads = m.reads + calls.countP isRead :=
    hcalls.count fun (m : Memory) (e : RandStream) r => (Chain.counts (ρ := BuiltinPolicy) [] m e r).1
  have hwrites : m'.writes = m.writes + calls.countP Request.isWrite :=
    hcalls.count fun (m : Memory) (e : RandStream) r => (Chain.counts (ρ := BuiltinPolicy) [] m e r).2
  obtain ⟨-, -, hmisses, -, -⟩ := hstep.counters
  obtain ⟨hfetch, -, -, hback, -⟩ := hstep.traffic
  obtain ⟨h1, h2⟩ := h
  refine ⟨?_, ?_⟩
  · rw [hreads, hmisses, hfetch hWA, h1]
  · rw [hwrites, hback hWB hWA, h2]

structure Grown (s : Cache BuiltinPolicy geo₁ × Memory) (t : Cache BuiltinPolicy geo₂ × Memory) : Prop where
  coupled : ∃ h, Coupled s.1 t.1 h
  accesses : s.1.stats.accesses = t.1.stats.accesses
  misses : t.1.stats.misses ≤ s.1.stats.misses
  drained₁ : Drained s
  drained₂ : Drained t

theorem Grown.memory {s : Cache BuiltinPolicy geo₁ × Memory} {t : Cache BuiltinPolicy geo₂ × Memory}
    (h : Grown s t) : t.2.reads ≤ s.2.reads ∧ t.2.writes ≤ s.2.writes := by
  obtain ⟨past, hpast⟩ := h.coupled
  have hpaid := hpast.paid
  obtain ⟨h1, h2⟩ := h.drained₁
  obtain ⟨h3, h4⟩ := h.drained₂
  have hmisses := h.misses
  omega

theorem grown_serve (hgeo : geo₂.Extends geo₁) (s : Cache BuiltinPolicy geo₁ × Memory)
    (t : Cache BuiltinPolicy geo₂ × Memory) (e e' : RandStream) (r : Request) (h : Grown s t) :
    Grown (serve s e r).2.1 (serve t e' r).2.1 := by
  obtain ⟨c₁, m₁⟩ := s
  obtain ⟨c₂, m₂⟩ := t
  obtain ⟨calls₁, hstep₁, hcalls₁⟩ := access_step c₁ m₁ e r
  obtain ⟨calls₂, hstep₂, hcalls₂⟩ := access_step c₂ m₂ e' r
  obtain ⟨past, hpast⟩ := h.coupled
  -- the larger level holds what the smaller one does, so the misses cannot cross over
  have hhit : (serve (c₁, m₁) e r).1 = true → (serve (c₂, m₂) e' r).1 = true := by
    intro hhit
    apply hstep₂.hit_iff.mpr
    exact hpast.recent₁.included hgeo.block hgeo.sets hgeo.ways hpast.recent₂ hpast.all (hstep₁.hit_iff.mp hhit)
  obtain ⟨haccesses₁, -, hmisses₁, -⟩ := hstep₁.counters
  obtain ⟨haccesses₂, -, hmisses₂, -⟩ := hstep₂.counters
  refine ⟨⟨_, hpast.step hgeo.writeBack₁ hgeo.writeBack₂ hgeo.allocate₁ hgeo.allocate₂ hgeo.block hgeo.sets
    hgeo.ways hstep₁ hstep₂⟩, ?_, ?_, hstep₁.drained hgeo.writeBack₁ hgeo.allocate₁ hcalls₁ h.drained₁,
    hstep₂.drained hgeo.writeBack₂ hgeo.allocate₂ hcalls₂ h.drained₂⟩
  · rw [haccesses₁, haccesses₂, h.accesses]
  · rw [hmisses₁, hmisses₂]
    apply Nat.add_le_add h.misses
    cases hb : (serve (c₁, m₁) e r).1 with
    | false => exact Bool.toNat_le _
    | true => rw [hhit hb]

theorem grown_fresh (hgeo : geo₂.Extends geo₁) (order₁ order₂ : HashOrder UInt64 ℕ) :
    Grown (fresh order₁ (makeReplacement geo₁.cfg.replacement geo₁.sets geo₁.ways), {})
      (fresh order₂ (makeReplacement geo₂.cfg.replacement geo₂.sets geo₂.ways), {}) where
  coupled := ⟨[], fresh_coupled hgeo.lru₁ hgeo.lru₂ order₁ order₂⟩
  accesses := rfl
  misses := le_rfl
  drained₁ := ⟨rfl, rfl⟩
  drained₂ := ⟨rfl, rfl⟩

end Cache

namespace Chain

def Grown (geo₁ geo₂ : Geometry) : (upper : List Geometry) → Chain BuiltinPolicy Memory (upper ++ [geo₁]) →
    Chain BuiltinPolicy Memory (upper ++ [geo₂]) → Prop
  | [], s, t => Cache.Grown s t ∧ @Moved Anywhere 0 [geo₁] s s ∧ @Moved Anywhere 0 [geo₂] t t
  | _ :: upper, s, t => Cache.Moved Eq 0 s.1 t.1 ∧ Grown geo₁ geo₂ upper s.2 t.2

theorem grown_follows (hgeo : geo₂.Extends geo₁) (upper : List Geometry) :
    Follows (Eq : RandStream → RandStream → Prop) (shift 0) (Grown geo₁ geo₂ upper) := by
  induction upper with
  | nil =>
    have hquiet := (quiet [geo₁]).follows (quiet [geo₂]) Eq (shift 0)
    rintro s t e e' r ⟨hgrown, hmoved⟩ hE
    obtain ⟨hmoved', hE'⟩ := hquiet s t e e' r hmoved hE
    refine ⟨⟨?_, hmoved'⟩, hE'⟩
    rw [shift_zero]
    exact Cache.grown_serve hgeo s t e e' r hgrown
  | cons geo upper ih => exact (Cache.moved_simulates ih).1

theorem grown_answers (hgeo : geo₂.Extends geo₁) (l1 : Geometry) (mids : List Geometry) :
    Simulates (Eq : RandStream → RandStream → Prop) (shift 0) (Grown geo₁ geo₂ (l1 :: mids)) :=
  Cache.moved_simulates (grown_follows hgeo mids)

theorem grown_fresh (hgeo : geo₂.Extends geo₁) (order : HashOrder UInt64 ℕ) (upper : List Geometry) :
    Grown geo₁ geo₂ upper (fresh order builtinPolicies ({} : Memory) (upper ++ [geo₁]))
      (fresh order builtinPolicies ({} : Memory) (upper ++ [geo₂])) := by
  have hone : ∀ {geo : Geometry}, geo.cfg.replacement = .LRU →
      @Moved Anywhere 0 [geo] (fresh order builtinPolicies ({} : Memory) [geo])
        (fresh order builtinPolicies ({} : Memory) [geo]) := by
    intro geo hLRU
    apply moved_fresh
    intro below hbelow
    rw [List.mem_singleton.mp hbelow, hLRU]
    exact ⟨Nat.dvd_zero _, fun h => by cases h⟩
  induction upper with
  | nil => exact ⟨Cache.grown_fresh hgeo order order, hone hgeo.lru₁, hone hgeo.lru₂⟩
  | cons geo upper ih => exact ⟨Cache.moved_fresh order order (Nat.dvd_zero _) fun _ => draws_eq, ih⟩

theorem Grown.memory {upper : List Geometry} {s : Chain BuiltinPolicy Memory (upper ++ [geo₁])}
    {t : Chain BuiltinPolicy Memory (upper ++ [geo₂])} (h : Grown geo₁ geo₂ upper s t) :
    t.memory.reads ≤ s.memory.reads ∧ t.memory.writes ≤ s.memory.writes := by
  induction upper with
  | nil => exact h.1.memory
  | cons geo upper ih => exact ih h.2

theorem Grown.stats {upper : List Geometry} {s : Chain BuiltinPolicy Memory (upper ++ [geo₁])}
    {t : Chain BuiltinPolicy Memory (upper ++ [geo₂])} (h : Grown geo₁ geo₂ upper s t) :
    (t.caches.take upper.length).map (fun c => c.2.stats) =
      (s.caches.take upper.length).map fun c => c.2.stats := by
  induction upper with
  | nil => rfl
  | cons geo upper ih => exact congrArg₂ List.cons h.1.stats_eq (ih h.2)

theorem Grown.averageTime {upper : List Geometry} {s : Chain BuiltinPolicy Memory (upper ++ [geo₁])}
    {t : Chain BuiltinPolicy Memory (upper ++ [geo₂])} (h : Grown geo₁ geo₂ upper s t) {memTime : ℚ}
    (hmem : 0 ≤ memTime) (hhit : geo₂.cfg.hitTime ≤ geo₁.cfg.hitTime) :
    t.averageTime memTime ≤ s.averageTime memTime := by
  induction upper with
  | nil =>
    apply add_le_add hhit
    exact mul_le_mul_of_nonneg_right (Stats.missRate_le h.1.accesses.symm h.1.misses) hmem
  | cons geo upper ih =>
    have hrate : t.1.stats.missRate = s.1.stats.missRate := by rw [h.1.stats_eq]
    change geo.cfg.hitTime + t.1.stats.missRate * Chain.averageTime memTime t.2 ≤
      geo.cfg.hitTime + s.1.stats.missRate * Chain.averageTime memTime s.2
    rw [hrate]
    apply add_le_add le_rfl
    exact mul_le_mul_of_nonneg_left (ih h.2) (Stats.missRate_nonneg _)

end Chain

namespace CacheHierarchy

theorem larger_last_level (order : HashOrder UInt64 ℕ) (l1 : Geometry) (mids : List Geometry)
    (geo₁ geo₂ : Geometry) (hgeo : geo₂.Extends geo₁) (memTime : ℚ) (e : RandStream) (trace : List Access) :
    let small := fresh order builtinPolicies l1 (mids ++ [geo₁]) memTime
    let large := fresh order builtinPolicies l1 (mids ++ [geo₂]) memTime
    let s := (small.feedAll e trace).1
    let t := (large.feedAll e trace).1
    (run large.levels e (trace.flatMap Access.expand)).1 =
        (run small.levels e (trace.flatMap Access.expand)).1 ∧
      (t.levels.caches.take (mids.length + 1)).map (fun c => c.2.stats) =
        (s.levels.caches.take (mids.length + 1)).map (fun c => c.2.stats) ∧
      t.levels.memory.reads ≤ s.levels.memory.reads ∧ t.levels.memory.writes ≤ s.levels.memory.writes ∧
      (0 ≤ memTime → geo₂.cfg.hitTime ≤ geo₁.cfg.hitTime → t.computeAMAT ≤ s.computeAMAT) := by
  intro small large s t
  have hinit : Chain.Grown geo₁ geo₂ (l1 :: mids) small.levels large.levels :=
    Chain.grown_fresh hgeo order (l1 :: mids)
  obtain ⟨hanswers, hgrown⟩ := (Chain.grown_answers hgeo l1 mids).run hinit (rfl : e = e)
    (trace.flatMap Access.expand)
  rw [funext shift_zero, List.map_id'] at hanswers hgrown
  refine ⟨hanswers.symm, ?_⟩
  rw [show t = _ from congrArg Prod.fst (feedAll_eq large e trace),
    show s = _ from congrArg Prod.fst (feedAll_eq small e trace)]
  exact ⟨hgrown.stats, hgrown.memory.1, hgrown.memory.2, hgrown.averageTime⟩

theorem larger_last_level_twoWay :
    ∃ s t : CacheHierarchy BuiltinPolicy,
      s = ((fresh .newestFirst builtinPolicies goldenGeometry ([] ++ [goldenGeometry]) 100).feedAll
        RandStream.zeros [⟨.Write, 0, 4⟩, ⟨.Write, 16, 4⟩, ⟨.Modify, 0, 4⟩, ⟨.Read, 32, 4⟩]).1 ∧
      t = ((fresh .newestFirst builtinPolicies goldenGeometry ([] ++ [twoWayGeometry]) 100).feedAll
        RandStream.zeros [⟨.Write, 0, 4⟩, ⟨.Write, 16, 4⟩, ⟨.Modify, 0, 4⟩, ⟨.Read, 32, 4⟩]).1 ∧
      t.levels.memory.writes ≤ s.levels.memory.writes ∧ t.computeAMAT ≤ s.computeAMAT := by
  have hgeo : twoWayGeometry.Extends goldenGeometry := by
    constructor <;> decide
  obtain ⟨-, -, -, hwrites, hamat⟩ := larger_last_level .newestFirst goldenGeometry [] goldenGeometry
    twoWayGeometry hgeo 100 RandStream.zeros [⟨.Write, 0, 4⟩, ⟨.Write, 16, 4⟩, ⟨.Modify, 0, 4⟩, ⟨.Read, 32, 4⟩]
  exact ⟨_, _, rfl, rfl, hwrites, hamat (by norm_num) le_rfl⟩

end CacheHierarchy

end CacheSim
