import CacheSim.Hierarchy
import CacheSim.Relocation

namespace CacheSim

open Service

namespace Chain

variable {E : RandStream → RandStream → Prop} {k : ℕ}

def Moved (E : RandStream → RandStream → Prop) (k : ℕ) : {geos : List Geometry} →
    Chain BuiltinPolicy Memory geos → Chain BuiltinPolicy Memory geos → Prop
  | [], m, m' => m' = m
  | _ :: _, s, t => Cache.Moved E k s.1 t.1 ∧ Moved E k s.2 t.2

theorem moved_simulates (geos : List Geometry) :
    Simulates E (shift k) fun (s t : Chain BuiltinPolicy Memory geos) => Moved E k s t := by
  induction geos with
  | nil =>
    constructor
    · rintro s t e e' ⟨addr, isWrite⟩ rfl hE
      exact ⟨rfl, hE⟩
    · intro s t e e' r hm hE
      rfl
  | cons geo geos ih => exact Cache.moved_simulates ih.1

theorem moved_fresh (order : HashOrder UInt64 ℕ) (mem : Memory) (geos : List Geometry)
    (hgeos : ∀ geo ∈ geos, geo.cfg.blockSize.toNat ∣ k ∧ (geo.cfg.replacement = .Random → Draws E)) :
    Moved E k (fresh order builtinPolicies mem geos) (fresh order builtinPolicies mem geos) := by
  induction geos with
  | nil => rfl
  | cons geo geos ih =>
    obtain ⟨hk, hdraw⟩ := hgeos geo List.mem_cons_self
    exact ⟨Cache.moved_fresh order order hk hdraw, ih fun geo h => hgeos geo (List.mem_cons_of_mem _ h)⟩

theorem Moved.observed {geos : List Geometry} {s t : Chain BuiltinPolicy Memory geos} (h : Moved E k s t) :
    t.caches.map (fun c => c.2.stats) = s.caches.map (fun c => c.2.stats) ∧ t.memory = s.memory := by
  induction geos with
  | nil => exact ⟨rfl, h⟩
  | cons geo geos ih =>
    obtain ⟨hstats, hmem⟩ := ih h.2
    exact ⟨congrArg₂ List.cons h.1.stats_eq hstats, hmem⟩

end Chain

def Access.relocate (k : ℕ) (a : Access) : Access := { a with addr := a.addr + UInt64.ofNat k }

theorem expand_relocate (k : ℕ) (trace : List Access) :
    (trace.map (Access.relocate k)).flatMap Access.expand = (trace.flatMap Access.expand).map (shift k) := by
  induction trace with
  | nil => rfl
  | cons a trace ih =>
    obtain ⟨op, addr, size⟩ := a
    rw [List.map_cons, List.flatMap_cons, List.flatMap_cons, List.map_append, ih]
    cases op <;> rfl

namespace CacheHierarchy

theorem blockSize_dvd {geos : List Geometry} {B k : ℕ}
    (hB : IsGreatest {b | ∃ cfg ∈ geos.map fun geo => geo.cfg, cfg.blockSize.toNat = b} B) (hk : B ∣ k)
    {geo : Geometry} (hgeo : geo ∈ geos) : geo.cfg.blockSize.toNat ∣ k := by
  obtain ⟨⟨cfg, hcfg, rfl⟩, hupper⟩ := hB
  obtain ⟨largest, -, rfl⟩ := List.mem_map.mp hcfg
  have hle := hupper ⟨geo.cfg, List.mem_map_of_mem hgeo, rfl⟩
  apply Nat.dvd_trans _ hk
  rw [Geometry.blockSize_toNat, Geometry.blockSize_toNat] at hle ⊢
  apply Nat.pow_dvd_pow 2
  exact (Nat.pow_le_pow_iff_right (by omega)).mp hle

theorem placement_irrelevant {order : HashOrder UInt64 ℕ} {cfgs : List CacheConfig} {memTime : ℚ}
    {h : CacheHierarchy BuiltinPolicy} (hok : new order builtinPolicies cfgs memTime = .ok h)
    (e : RandStream) {B k : ℕ}
    (hB : IsGreatest {b | ∃ cfg ∈ cfgs, cfg.blockSize.toNat = b} B) (hk : B ∣ k) (trace : List Access) :
    let moved := trace.map (Access.relocate k)
    (run h.levels e (moved.flatMap Access.expand)).1 = (run h.levels e (trace.flatMap Access.expand)).1 ∧
      (h.feedAll e moved).1.levels.caches.map (fun c => c.2.stats) =
        (h.feedAll e trace).1.levels.caches.map (fun c => c.2.stats) ∧
      (h.feedAll e moved).1.levels.memory = (h.feedAll e trace).1.levels.memory := by
  obtain ⟨hcfgs, hfresh⟩ := new_ok hok
  rw [hcfgs] at hB
  have hinit : Chain.Moved Eq k h.levels h.levels := by
    rw [hfresh]
    apply Chain.moved_fresh order
    intro geo hgeo
    exact ⟨blockSize_dvd hB hk hgeo, fun _ => draws_eq⟩
  obtain ⟨hresults, hstates⟩ := (Chain.moved_simulates (h.l1 :: h.lower)).run hinit (rfl : e = e)
    (trace.flatMap Access.expand)
  dsimp only
  rw [feedAll_eq, feedAll_eq, expand_relocate]
  exact ⟨hresults.symm, hstates.observed⟩

theorem placement_irrelevant_golden :
    ∃ h : CacheHierarchy BuiltinPolicy,
      new .newestFirst builtinPolicies [golden] 100 = .ok h ∧
      (h.feedAll RandStream.zeros [⟨.Read, 20, 4⟩, ⟨.Write, 28, 4⟩]).1.levels.memory =
        (h.feedAll RandStream.zeros [⟨.Read, 0, 4⟩, ⟨.Write, 8, 4⟩]).1.levels.memory := by
  have hok : new .newestFirst builtinPolicies [golden] 100 =
      .ok (fresh .newestFirst builtinPolicies goldenGeometry [] 100) := rfl
  have hB : IsGreatest {b | ∃ cfg ∈ [golden], cfg.blockSize.toNat = b} 4 := by
    refine ⟨⟨golden, List.mem_cons_self, rfl⟩, ?_⟩
    rintro b ⟨cfg, hcfg, rfl⟩
    rw [List.mem_singleton.mp hcfg]
    rfl
  exact ⟨_, hok, (placement_irrelevant hok RandStream.zeros hB (k := 20) (by decide)
    [⟨.Read, 0, 4⟩, ⟨.Write, 8, 4⟩]).2.2⟩

end CacheHierarchy

end CacheSim
