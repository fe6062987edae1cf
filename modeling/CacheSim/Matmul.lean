import CacheSim.ColdMisses
import CacheSim.DirectMapped
import CacheSim.Tally
import CacheSim.Tracegen

namespace CacheSim

open Service TraceReader Tracegen

/-- Every store comes right after a load of its block; `prev` is the block loaded before the first request. -/
def Preloaded (geo : Geometry) : Option UInt64 → List Request → Prop
  | _, [] => True
  | prev, r :: reqs => (r.isWrite = true → prev = some (geo.blockOf r.addr)) ∧
      Preloaded geo (if r.isWrite then none else some (geo.blockOf r.addr)) reqs

namespace Preloaded

variable {geo : Geometry} {prev : Option UInt64} {reqs reqs' : List Request}

theorem of_none (h : Preloaded geo none reqs) : Preloaded geo prev reqs := by
  cases reqs with
  | nil => trivial
  | cons r reqs => exact ⟨fun hr => absurd (h.1 hr) (by simp), h.2⟩

theorem append (h : Preloaded geo prev reqs) (h' : Preloaded geo none reqs') :
    Preloaded geo prev (reqs ++ reqs') := by
  induction reqs generalizing prev with
  | nil => exact h'.of_none
  | cons r reqs ih => exact ⟨h.1, ih h.2⟩

theorem flatMap {α : Type} {xs : List α} {f : α → List Request} (h : ∀ x ∈ xs, Preloaded geo none (f x)) :
    Preloaded geo none (xs.flatMap f) := by
  induction xs with
  | nil => trivial
  | cons x xs ih =>
    rw [List.flatMap_cons]
    exact (h x List.mem_cons_self).append (ih fun y hy => h y (List.mem_cons_of_mem x hy))

theorem stores_hit {ε σ : Type} {ρ : ℕ → ℕ → Type} [ReplacementPolicy ε ρ] [MemoryLevel ε σ]
    {s : Cache ρ geo × σ} (hprev : ∀ a, prev = some (geo.blockOf a) → s.1.Resident a)
    (h : Preloaded geo prev reqs) (e : ε) :
    ∀ x ∈ reqs.zip (run s e reqs).1, x.1.isWrite = true → x.2 = true := by
  induction reqs generalizing s e prev with
  | nil => simp
  | cons r reqs ih =>
    obtain ⟨calls, hstep, -⟩ := Cache.access_step s.1 s.2 e r
    have hnext : ∀ a, (if r.isWrite then none else some (geo.blockOf r.addr)) = some (geo.blockOf a) →
        (serve s e r).2.1.1.Resident a := by
      intro a ha
      cases hr : r.isWrite with
      | true => simp [hr] at ha
      | false =>
        rw [hr, if_neg Bool.false_ne_true, Option.some.injEq] at ha
        apply (Cache.resident_congr ha).mp
        exact hstep.resident_installed (by simp [Cache.installs, hr])
    intro x hx hwrite
    rcases List.mem_cons.mp hx with rfl | hx
    · exact hstep.hit_iff.mpr (hprev _ (h.1 hwrite))
    · exact ih hnext h.2 _ x hx hwrite

end Preloaded

def region (geo : Geometry) (a : UInt64) (m : ℕ) : Finset UInt64 :=
  (Finset.range m).image fun i => geo.blockOf (elem a i)

def cell (A B C : UInt64) (m i j k : ℕ) : List Request :=
  [⟨elem A (i * m + k), false⟩, ⟨elem B (k * m + j), false⟩, ⟨elem C (i * m + j), false⟩,
    ⟨elem C (i * m + j), true⟩]

section

variable {geo : Geometry} (A B C : UInt64) (n : ℤ)

theorem expand_matmul : (matmul A B C n).trace.flatMap Access.expand =
    (List.range n.toNat).flatMap fun i => (List.range n.toNat).flatMap fun j =>
      (List.range n.toNat).flatMap fun k => cell A B C n.toNat i j k := by
  simp only [matmul, List.flatMap_assoc]
  rfl

theorem matmul_preloaded : Preloaded geo none ((matmul A B C n).trace.flatMap Access.expand) := by
  rw [expand_matmul]
  apply Preloaded.flatMap
  intro i _
  apply Preloaded.flatMap
  intro j _
  apply Preloaded.flatMap
  intro k _
  simp [cell, Preloaded]

theorem matmul_countP (p : Request → Bool) (c : ℕ) (hcell : ∀ i j k, (cell A B C n.toNat i j k).countP p = c) :
    ((matmul A B C n).trace.flatMap Access.expand).countP p = n.toNat ^ 3 * c := by
  rw [expand_matmul]
  simp only [List.countP_flatMap, Function.comp_def, hcell, List.map_const', List.sum_replicate,
    List.length_range, smul_eq_mul]
  ring

theorem mem_square {m x : ℕ} : x < m * m ↔ ∃ i < m, ∃ j < m, i * m + j = x := by
  constructor
  · intro hx
    have hm : 0 < m := Nat.pos_of_mul_pos_left (by omega : 0 < m * m)
    refine ⟨x / m, Nat.div_lt_of_lt_mul hx, x % m, Nat.mod_lt x hm, ?_⟩
    rw [Nat.mul_comm]
    exact Nat.div_add_mod x m
  · rintro ⟨i, hi, j, hj, rfl⟩
    have hrow := Nat.mul_le_mul_right m (Nat.succ_le_of_lt hi)
    rw [Nat.succ_mul] at hrow
    omega

theorem matmul_blocks : blocks geo ((matmul A B C n).trace.flatMap Access.expand) =
    region geo A (n.toNat * n.toNat) ∪ region geo B (n.toNat * n.toNat) ∪
      region geo C (n.toNat * n.toNat) := by
  rw [expand_matmul]
  ext b
  simp only [blocks, region, cell, List.mem_toFinset, List.mem_map, List.mem_flatMap, List.mem_range,
    List.mem_cons, List.not_mem_nil, or_false, Finset.mem_union, Finset.mem_image, Finset.mem_range,
    mem_square]
  constructor
  · rintro ⟨r, ⟨i, hi, j, hj, k, hk, rfl | rfl | rfl | rfl⟩, rfl⟩
    · exact .inl (.inl ⟨_, ⟨i, hi, k, hk, rfl⟩, rfl⟩)
    · exact .inl (.inr ⟨_, ⟨k, hk, j, hj, rfl⟩, rfl⟩)
    · exact .inr ⟨_, ⟨i, hi, j, hj, rfl⟩, rfl⟩
    · exact .inr ⟨_, ⟨i, hi, j, hj, rfl⟩, rfl⟩
  · rintro ((⟨_, ⟨i, hi, k, hk, rfl⟩, rfl⟩ | ⟨_, ⟨k, hk, j, hj, rfl⟩, rfl⟩) | ⟨_, ⟨i, hi, j, hj, rfl⟩, rfl⟩)
    · exact ⟨_, ⟨i, hi, i, hi, k, hk, .inl rfl⟩, rfl⟩
    · exact ⟨_, ⟨j, hj, j, hj, k, hk, .inr (.inl rfl)⟩, rfl⟩
    · exact ⟨_, ⟨i, hi, j, hj, i, hi, .inr (.inr (.inl rfl))⟩, rfl⟩

end

theorem CacheHierarchy.matmul_misses {ε : Type} {ρ : ℕ → ℕ → Type} [ReplacementPolicy ε ρ] {ulongBits : ℕ}
    (hbits : 32 ≤ ulongBits) (order : HashOrder UInt64 ℕ) (make : Chain.Policies ρ) (l1 : Geometry)
    (lower : List Geometry) (memTime : ℚ) (e : ε) (m : Machine) (arg : String) :
    ∃ out, Tracegen.main m ["matmul", arg] = some (0, out) ∧
      let trace := records ulongBits (print out.trace)
      let reqs := trace.flatMap Access.expand
      let h := fresh order make l1 lower memTime
      let stats := (h.feedAll e trace).1.levels.1.stats
      let n := (m.atoi arg).toNat
      let data := region l1 m.A (n * n) ∪ region l1 m.B (n * n) ∪ region l1 m.C (n * n)
      (∀ x ∈ reqs.zip (run h.levels e reqs).1, x.1.isWrite = true → x.2 = true) ∧
        stats.reads = n ^ 3 * 3 ∧ stats.writes = n ^ 3 ∧ stats.misses ≤ stats.reads ∧
        (l1.cfg.allocPolicy = .WriteAllocate → Fits l1 data →
          stats.misses = data.card ∧ stats.writebacks = 0) := by
  refine ⟨_, rfl, ?_⟩
  intro trace reqs h stats n data
  have htrace : trace = (matmul m.A m.B m.C (m.atoi arg)).trace := records_print hbits _
  have hreqs : reqs = (matmul m.A m.B m.C (m.atoi arg)).trace.flatMap Access.expand :=
    congrArg (List.flatMap Access.expand) htrace
  have hfed : stats = (run h.levels e reqs).2.1.1.stats := by
    rw [show stats = _ from congrArg (fun x => x.1.levels.1.stats) (feedAll_eq h e trace)]
  have hhit : ∀ x ∈ reqs.zip (run h.levels e reqs).1, x.1.isWrite = true → x.2 = true := by
    rw [hreqs]
    exact (matmul_preloaded m.A m.B m.C (m.atoi arg)).stores_hit (by simp) e
  have hcounts : stats.Counts (reqs.zip (run h.levels e reqs).1) := by
    rw [hfed]
    exact Cache.run_counts order (make lower.length l1) (Chain.fresh order make ({} : Memory) lower) e reqs
  have hzip : ∀ p : Request → Bool, (reqs.zip (run h.levels e reqs).1).countP (fun x => p x.1) = reqs.countP p := by
    intro p
    have hfst := List.map_fst_zip (run_length h.levels e reqs).ge
    rw [← congrArg (List.countP p) hfst, List.countP_map]
    rfl
  refine ⟨hhit, ?_, ?_, ?_, fun hWA hfits => ?_⟩
  · rw [hcounts.reads, hzip fun r => !r.isWrite, hreqs]
    exact matmul_countP m.A m.B m.C (m.atoi arg) _ 3 fun i j k => rfl
  · rw [hcounts.writes, hzip Request.isWrite, hreqs, matmul_countP m.A m.B m.C (m.atoi arg) _ 1 fun i j k => rfl, mul_one]
  -- a miss is a load, since the stores hit
  · rw [hcounts.misses, hcounts.reads]
    apply List.countP_mono_left
    intro x hx hmiss
    cases hwrite : x.1.isWrite with
    | false => rfl
    | true => simp [hhit x hx hwrite] at hmiss
  · have hblocks : blocks l1 reqs = data := by rw [hreqs, matmul_blocks]
    have hcold := Cache.cold_run hWA order (make lower.length l1) (Chain.fresh order make ({} : Memory) lower) e
      (hblocks.symm ▸ hfits)
    rw [hblocks] at hcold
    rw [hfed]
    exact ⟨hcold.misses_eq, hcold.writebacks_eq⟩

def matrixGeometry : Geometry := ⟨⟨{ sizeBytes := 128, blockSize := 16, associativity := 4 }, 2, 4, 1, 59⟩, rfl⟩

def matrixMachine : Machine := ⟨0, 32, 64, id, fun _ _ => 0, fun _ => 2, fun _ => 0⟩

theorem CacheHierarchy.matmul_misses_two : ∃ out, Tracegen.main matrixMachine ["matmul", "2"] = some (0, out) ∧
    let trace := records 64 (print out.trace)
    let stats := ((fresh .newestFirst builtinPolicies matrixGeometry [] 100).feedAll RandStream.zeros
      trace).1.levels.1.stats
    stats.reads = 24 ∧ stats.misses = 6 := by
  obtain ⟨out, hout, -, hreads, -, -, hmisses⟩ := matmul_misses (show 32 ≤ 64 by decide) .newestFirst
    builtinPolicies matrixGeometry [] 100 RandStream.zeros matrixMachine "2"
  have hfits : Fits matrixGeometry (region matrixGeometry 0 4 ∪ region matrixGeometry 32 4 ∪
      region matrixGeometry 64 4) := by
    unfold Fits
    decide
  exact ⟨out, hout, hreads, (hmisses rfl hfits).1⟩

end CacheSim
