import CacheSim.Stride
import CacheSim.SweepLaw
import CacheSim.Tally
import CacheSim.Tracegen

/-!
The traces of `seqscan` and `listwalk` on a hierarchy. Both go round a stretch of consecutive blocks, one
in the order of the addresses and the other in any order, and L1 misses the same number of times. With
the draws of `randscan` no order is known, and what is left is the number of blocks.
-/

namespace CacheSim

open Service Stride TraceReader Tracegen

variable {geo : Geometry}

namespace Cache

def Spans (geo : Geometry) (pass : List Request) (b K : ℕ) : Prop :=
  (blocks geo pass).image UInt64.toNat = (Finset.range K).image (b + ·)

theorem Spans.card {pass : List Request} {b K : ℕ} (h : Spans geo pass b K) (s : Fin geo.sets) :
    ((blocks geo pass).filter fun x => geo.setOfBlock x = s).card =
      ((Finset.range K).filter fun i => (b + i) % geo.sets = s.val).card := by
  have hset : ∀ x, geo.setOfBlock x = s ↔ x.toNat % geo.sets = s.val := fun x => Fin.ext_iff
  have hblocks := Finset.card_image_of_injective
    ((blocks geo pass).filter fun x => geo.setOfBlock x = s) fun x y h => UInt64.toNat_inj.mp h
  have hrange := Finset.card_image_of_injective
    ((Finset.range K).filter fun i => (b + i) % geo.sets = s.val) (add_right_injective b)
  rw [← hblocks, ← hrange]
  congr 1
  ext x
  have hx := Finset.ext_iff.mp h x
  simp only [Finset.mem_image, Finset.mem_range, Finset.mem_filter, hset] at hx ⊢
  constructor
  · rintro ⟨y, ⟨hy, hs⟩, rfl⟩
    obtain ⟨i, hi, hbi⟩ := hx.mp ⟨y, hy, rfl⟩
    exact ⟨i, ⟨hi, by rw [hbi]; exact hs⟩, hbi⟩
  · rintro ⟨i, ⟨hi, hs⟩, rfl⟩
    obtain ⟨y, hy, hyi⟩ := hx.mpr ⟨i, hi, rfl⟩
    exact ⟨y, ⟨hy, by rw [hyi]; exact hs⟩, hyi⟩

end Cache

def sweepMisses (geo : Geometry) (passes m : ℕ) : ℕ := if m ≤ geo.ways then m else passes * m

def stretchMisses (geo : Geometry) (passes K : ℕ) : ℕ :=
  K % geo.sets * sweepMisses geo passes (K / geo.sets + 1) +
    (geo.sets - K % geo.sets) * sweepMisses geo passes (K / geo.sets)

theorem split_stretch (K : ℕ) {S : ℕ} (hS : 0 < S) :
    K % S * (K / S + 1) + (S - K % S) * (K / S) = K := by
  have hrest := Nat.mod_lt K hS
  have hdiv := Nat.mod_add_div K S
  have hsplit : K % S * (K / S) + (S - K % S) * (K / S) = S * (K / S) := by
    rw [← Nat.add_mul]
    congr 1
    omega
  rw [Nat.mul_add, Nat.mul_one]
  omega

theorem stretchMisses_fits {passes K : ℕ} (h : K ≤ geo.sets * geo.ways) :
    stretchMisses geo passes K = K := by
  have hdiv : K / geo.sets ≤ geo.ways := Nat.div_le_of_le_mul h
  have hfloor : sweepMisses geo passes (K / geo.sets) = K / geo.sets := if_pos hdiv
  by_cases hceil : K / geo.sets + 1 ≤ geo.ways
  · have hmore : sweepMisses geo passes (K / geo.sets + 1) = K / geo.sets + 1 := if_pos hceil
    rw [stretchMisses, hfloor, hmore]
    exact split_stretch K geo.sets_pos
  · -- every set is full
    have hsame : K / geo.sets = geo.ways := by omega
    have hall : K = geo.sets * geo.ways + K % geo.sets := by
      have hdm := Nat.mod_add_div K geo.sets
      rw [hsame] at hdm
      omega
    have hrest : K % geo.sets = 0 := by omega
    rw [stretchMisses, hfloor, hrest, hsame, Nat.zero_mul, Nat.zero_add, Nat.sub_zero]
    omega

theorem stretchMisses_exceeds {passes K : ℕ} (h : geo.sets * (geo.ways + 1) ≤ K) :
    stretchMisses geo passes K = passes * K := by
  have hdiv : geo.ways + 1 ≤ K / geo.sets := by
    rw [Nat.le_div_iff_mul_le geo.sets_pos, Nat.mul_comm]
    exact h
  have hfloor : sweepMisses geo passes (K / geo.sets) = passes * (K / geo.sets) := if_neg (by omega)
  have hceil : sweepMisses geo passes (K / geo.sets + 1) = passes * (K / geo.sets + 1) := if_neg (by omega)
  rw [stretchMisses, hfloor, hceil, Nat.mul_left_comm, Nat.mul_left_comm _ passes, ← Nat.mul_add,
    split_stretch K geo.sets_pos]

theorem stretchMisses_one (geo : Geometry) (K : ℕ) : stretchMisses geo 1 K = K := by
  have hone : ∀ m, sweepMisses geo 1 m = m := fun m => by rw [sweepMisses, Nat.one_mul, ite_self]
  rw [stretchMisses, hone, hone]
  exact split_stretch K geo.sets_pos

namespace CacheHierarchy

theorem stretch_misses (order : HashOrder UInt64 ℕ) (l1 : Geometry) (lower : List Geometry) (memTime : ℚ)
    (e : RandStream) (hdet : l1.cfg.replacement ≠ .Random) (hWA : l1.cfg.allocPolicy = .WriteAllocate)
    {trace pass : List Access} {passes b K : ℕ} (htrace : trace = (List.replicate passes pass).flatten)
    (hpass : Cache.Gathered l1 (pass.flatMap Access.expand))
    (hspans : Cache.Spans l1 (pass.flatMap Access.expand) b K) (hpasses : 0 < passes) :
    ((fresh order builtinPolicies l1 lower memTime).feedAll e trace).1.levels.1.stats.misses =
      stretchMisses l1 passes K := by
  have hlaw := Cache.sweep_law l1 hdet hWA order (Chain.fresh order builtinPolicies ({} : Memory) lower) e
    (pass.flatMap Access.expand) passes hpass hpasses
  have hreqs : trace.flatMap Access.expand = (List.replicate passes (pass.flatMap Access.expand)).flatten := by
    simp only [htrace, List.flatMap_def, List.map_flatten, List.map_replicate, List.flatten_flatten]
  rw [feedAll_eq, hreqs]
  refine Eq.trans hlaw ?_
  simp only [hspans.card]
  exact sum_residues b K l1.sets_pos (sweepMisses l1 passes)

theorem l1_accesses (order : HashOrder UInt64 ℕ) (l1 : Geometry) (lower : List Geometry) (memTime : ℚ)
    (e : RandStream) (trace : List Access) :
    ((fresh order builtinPolicies l1 lower memTime).feedAll e trace).1.levels.1.stats.accesses =
      (trace.flatMap Access.expand).length := by
  rw [feedAll_eq]
  exact Cache.run_accesses order (makeReplacement l1.cfg.replacement l1.sets l1.ways)
    (Chain.fresh order builtinPolicies ({} : Memory) lower) e (trace.flatMap Access.expand)

end CacheHierarchy

theorem Stats.missRate_eq {s : Stats} {a m : ℕ} (haccesses : s.accesses = a) (hmisses : s.misses = m)
    (ha : a ≠ 0) : s.missRate = m / a := by
  rw [missRate, haccesses, if_neg ha, hmisses]

theorem elem_toNat {a : UInt64} {i n : ℕ} (hi : i < n) (hroom : a.toNat + 8 * n ≤ 2 ^ 64) :
    (elem a i).toNat = a.toNat + 8 * i := by
  rw [elem, UInt64.toNat_add, UInt64.toNat_ofNat', Nat.add_mod_mod]
  apply Nat.mod_eq_of_lt
  omega

theorem vector_eq {bytes : ℤ} (hbytes : 0 ≤ bytes) :
    vector bytes = some (List.replicate (bytes.toNat / 8) 1) := by
  have hdiv : bytes.tdiv 8 = ((bytes.toNat / 8 : ℕ) : ℤ) := by
    rw [Int.tdiv_eq_ediv_of_nonneg hbytes]
    omega
  rw [vector, hdiv, if_neg (by omega), Int.toNat_natCast]

def scanPass (base : UInt64) (n : ℕ) : List Access := (List.range n).map fun i => load (elem base i)

theorem seqscan_eq (base : UInt64) {bytes : ℤ} (hbytes : 0 ≤ bytes) (passes : ℤ) :
    ∃ err, seqscan base bytes passes =
      some ⟨(List.replicate passes.toNat (scanPass base (bytes.toNat / 8))).flatten, err⟩ := by
  rw [seqscan, vector_eq hbytes]
  dsimp only
  rw [List.length_replicate]
  exact ⟨_, rfl⟩

theorem expand_scanPass (base : UInt64) (n : ℕ) :
    (scanPass base n).flatMap Access.expand = (List.range n).map fun i => ⟨elem base i, false⟩ := by
  rw [scanPass, List.flatMap_map]
  exact List.flatMap_pure_eq_map _ _

section

variable {base : UInt64} {n : ℕ} (hroom : base.toNat + 8 * n ≤ 2 ^ 64)

include hroom

theorem scanPass_gathered : Cache.Gathered geo ((scanPass base n).flatMap Access.expand) := by
  rw [expand_scanPass]
  apply Cache.gathered_ascending
  rw [List.pairwise_map]
  apply List.pairwise_lt_range.imp_of_mem
  intro i j hi hj hij
  rw [UInt64.le_iff_toNat_le, elem_toNat (List.mem_range.mp hi) hroom, elem_toNat (List.mem_range.mp hj) hroom]
  omega

theorem scanPass_spans (hblock : 8 ≤ geo.cfg.blockSize.toNat) (hn : 0 < n) :
    Cache.Spans geo ((scanPass base n).flatMap Access.expand) (base.toNat / geo.cfg.blockSize.toNat)
      ((base.toNat + 8 * (n - 1)) / geo.cfg.blockSize.toNat + 1 - base.toNat / geo.cfg.blockSize.toNat) := by
  have hclimb := image_climb (f := fun i => (base.toNat + 8 * i) / geo.cfg.blockSize.toNat)
    (fun i => Nat.div_le_div_right (by omega)) (fun i => ?_) (n - 1)
  · rw [Nat.sub_add_cancel hn] at hclimb
    have himage : (blocks geo ((scanPass base n).flatMap Access.expand)).image UInt64.toNat =
        (Finset.range n).image fun i => (base.toNat + 8 * i) / geo.cfg.blockSize.toNat := by
      ext x
      simp only [expand_scanPass, blocks, List.map_map, Finset.mem_image, List.mem_toFinset, List.mem_map,
        List.mem_range, Finset.mem_range, Function.comp_apply]
      constructor
      · rintro ⟨y, ⟨i, hi, rfl⟩, rfl⟩
        refine ⟨i, hi, ?_⟩
        rw [geo.blockOf_toNat, elem_toNat hi hroom, geo.blockSize_toNat]
      · rintro ⟨i, hi, rfl⟩
        refine ⟨_, ⟨i, hi, rfl⟩, ?_⟩
        rw [geo.blockOf_toNat, elem_toNat hi hroom, geo.blockSize_toNat]
    rw [Cache.Spans, himage, hclimb]
    ext x
    simp only [Finset.mem_Icc, Finset.mem_image, Finset.mem_range, Nat.mul_zero, Nat.add_zero]
    constructor
    · rintro ⟨hlow, hhigh⟩
      exact ⟨x - base.toNat / geo.cfg.blockSize.toNat, by omega, by omega⟩
    · rintro ⟨i, hi, rfl⟩
      omega
  · -- an element is no longer than a block
    have hpos : 0 < geo.cfg.blockSize.toNat := by omega
    calc (base.toNat + 8 * (i + 1)) / geo.cfg.blockSize.toNat
        ≤ (base.toNat + 8 * i + geo.cfg.blockSize.toNat) / geo.cfg.blockSize.toNat :=
          Nat.div_le_div_right (by omega)
      _ = (base.toNat + 8 * i) / geo.cfg.blockSize.toNat + 1 := Nat.add_div_right _ hpos

end

theorem CacheHierarchy.seqscan_misses {ulongBits : ℕ} (hbits : 32 ≤ ulongBits)
    (order : HashOrder UInt64 ℕ) (l1 : Geometry) (lower : List Geometry) (memTime : ℚ) (e : RandStream)
    (hdet : l1.cfg.replacement ≠ .Random) (hWA : l1.cfg.allocPolicy = .WriteAllocate)
    (hblock : 8 ≤ l1.cfg.blockSize.toNat) (m : Machine) (bytes passes : String)
    (hbytes : 8 ≤ m.atol bytes) (hpasses : 0 < m.atoi passes)
    (hroom : m.A.toNat + (m.atol bytes).toNat ≤ 2 ^ 64) :
    ∃ out, Tracegen.main m ["seqscan", bytes, passes] = some (0, out) ∧
      let h := fresh order builtinPolicies l1 lower memTime
      let misses := (h.feedAll e (records ulongBits (print out.trace))).1.levels.1.stats.misses
      let K := (m.A.toNat + 8 * ((m.atol bytes).toNat / 8 - 1)) / l1.cfg.blockSize.toNat + 1 -
        m.A.toNat / l1.cfg.blockSize.toNat
      misses = stretchMisses l1 (m.atoi passes).toNat K ∧ (K ≤ l1.sets * l1.ways → misses = K) ∧
        (l1.sets * (l1.ways + 1) ≤ K → misses = (m.atoi passes).toNat * K) := by
  have hn : m.A.toNat + 8 * ((m.atol bytes).toNat / 8) ≤ 2 ^ 64 := by omega
  obtain ⟨err, hscan⟩ := seqscan_eq m.A (show 0 ≤ m.atol bytes by omega) (m.atoi passes)
  refine ⟨_, main_seqscan hscan, ?_⟩
  intro h misses K
  have hmisses : misses = stretchMisses l1 (m.atoi passes).toNat K := by
    dsimp only [misses]
    rw [records_print hbits]
    exact stretch_misses order l1 lower memTime e hdet hWA rfl (scanPass_gathered hn)
      (scanPass_spans hn hblock (by omega)) (Int.lt_toNat.mpr hpasses)
  refine ⟨hmisses, ?_, ?_⟩
  · intro hfits
    rw [hmisses, stretchMisses_fits hfits]
  · intro hexceeds
    rw [hmisses, stretchMisses_exceeds hexceeds]

def scanMachine : Machine := ⟨0, 32, 64, List.reverse, fun _ i => i % 3, fun _ => 2, fun _ => 24⟩

theorem CacheHierarchy.seqscan_misses_wide : ∃ out, Tracegen.main scanMachine ["seqscan", "24", "2"] = some (0, out) ∧
    ((fresh .newestFirst builtinPolicies wideGeometry [] 100).feedAll RandStream.zeros
      (records 64 (print out.trace))).1.levels.1.stats.misses = 3 := by
  obtain ⟨out, hout, -, hfits, -⟩ := seqscan_misses (show 32 ≤ 64 by decide) .newestFirst wideGeometry []
    100 RandStream.zeros (by decide) (by rfl) (by decide) scanMachine "24" "2" (by decide) (by decide) (by decide)
  exact ⟨out, hout, hfits (by decide)⟩

theorem aligned_blocks {d K : ℕ} (hd : 0 < d) (hK : 0 < K) (p : ℕ) :
    (8 * d * p + 8 * (8 * d * K / 8 - 1)) / (8 * d) + 1 - 8 * d * p / (8 * d) = K := by
  have hlast : 8 * d * p + 8 * (8 * d * K / 8 - 1) = 8 * (d - 1) + 8 * d * (p + (K - 1)) := by
    obtain ⟨k, rfl⟩ : ∃ k, K = k + 1 := ⟨K - 1, by omega⟩
    have hn : 8 * d * (k + 1) / 8 = d * k + d := by
      rw [Nat.mul_assoc, Nat.mul_div_cancel_left _ (by omega), Nat.mul_succ]
    rw [hn, Nat.add_sub_cancel, Nat.mul_add, Nat.mul_assoc 8 d k]
    omega
  rw [hlast, Nat.add_mul_div_left _ _ (by omega), Nat.div_eq_of_lt (by omega),
    Nat.mul_div_cancel_left _ (by omega)]
  omega

theorem CacheHierarchy.seqscan_rate {ulongBits : ℕ} (hbits : 32 ≤ ulongBits) (order : HashOrder UInt64 ℕ)
    (l1 : Geometry) (lower : List Geometry) (memTime : ℚ) (e : RandStream)
    (hdet : l1.cfg.replacement ≠ .Random) (hWA : l1.cfg.allocPolicy = .WriteAllocate)
    (hblock : 8 ≤ l1.cfg.blockSize.toNat) (m : Machine) (bytes passes : String)
    (hbytes : 0 < m.atol bytes) (hbase : l1.cfg.blockSize.toNat ∣ m.A.toNat)
    (hwhole : l1.cfg.blockSize.toNat ∣ (m.atol bytes).toNat)
    (hroom : m.A.toNat + (m.atol bytes).toNat ≤ 2 ^ 64)
    (hpasses : m.atoi passes = 1 ∨ 0 < m.atoi passes ∧
      l1.sets * (l1.ways + 1) * l1.cfg.blockSize.toNat ≤ (m.atol bytes).toNat) :
    ∃ out, Tracegen.main m ["seqscan", bytes, passes] = some (0, out) ∧
      ((fresh order builtinPolicies l1 lower memTime).feedAll e
        (records ulongBits (print out.trace))).1.levels.1.stats.missRate = 8 / l1.cfg.blockSize.toNat := by
  obtain ⟨d, hd⟩ : 8 ∣ l1.cfg.blockSize.toNat := by
    rw [l1.blockSize_toNat] at hblock ⊢
    exact pow_dvd_pow 2 ((Nat.pow_le_pow_iff_right (by omega : 1 < 2)).mp (show 2 ^ 3 ≤ _ from hblock))
  obtain ⟨p, hp⟩ := hbase
  obtain ⟨K, hK⟩ := hwhole
  obtain ⟨P, hP⟩ : ∃ P : ℕ, m.atoi passes = P := ⟨(m.atoi passes).toNat, by omega⟩
  rw [hP] at hpasses
  have hdpos : 0 < d := by omega
  have hKpos : 0 < K := Nat.pos_of_mul_pos_left (show 0 < l1.cfg.blockSize.toNat * K by omega)
  have hPpos : 0 < P := by omega
  have hn : (m.atol bytes).toNat / 8 = d * K := by
    rw [hK, hd, Nat.mul_assoc, Nat.mul_div_cancel_left _ (by omega)]
  obtain ⟨err, hscan⟩ := seqscan_eq m.A hbytes.le (m.atoi passes)
  refine ⟨_, main_seqscan hscan, ?_⟩
  rw [records_print hbits, hP, Int.toNat_natCast]
  have hfit : m.A.toNat + 8 * ((m.atol bytes).toNat / 8) ≤ 2 ^ 64 := by omega
  have hmisses := stretch_misses order l1 lower memTime e hdet hWA rfl (scanPass_gathered hfit)
    (scanPass_spans hfit hblock (by rw [hn]; exact Nat.mul_pos hdpos hKpos)) hPpos
  rw [show (m.A.toNat + 8 * ((m.atol bytes).toNat / 8 - 1)) / l1.cfg.blockSize.toNat + 1 -
    m.A.toNat / l1.cfg.blockSize.toNat = K by rw [hp, hK, hd]; exact aligned_blocks hdpos hKpos p] at hmisses
  have hall : stretchMisses l1 P K = P * K := by
    rcases hpasses with hone | ⟨-, hexceeds⟩
    · obtain rfl : P = 1 := by omega
      rw [stretchMisses_one, Nat.one_mul]
    · apply stretchMisses_exceeds
      rw [hK, Nat.mul_comm] at hexceeds
      exact Nat.le_of_mul_le_mul_left hexceeds (by omega)
  have hlength : ((List.replicate P (scanPass m.A ((m.atol bytes).toNat / 8))).flatten.flatMap Access.expand).length =
      P * (d * K) := by
    rw [List.flatMap_def, List.map_flatten, List.map_replicate, List.flatten_flatten, List.map_replicate,
      ← List.flatMap_def, expand_scanPass, List.length_flatten, List.map_replicate, List.sum_replicate,
      List.length_map, List.length_range, hn, smul_eq_mul]
  have haccesses := l1_accesses order l1 lower memTime e
    (List.replicate P (scanPass m.A ((m.atol bytes).toNat / 8))).flatten
  rw [Stats.missRate_eq haccesses (hmisses.trans hall) (by rw [hlength]; positivity), hlength, hd]
  push_cast
  field_simp

theorem CacheHierarchy.seqscan_rate_wide : ∃ out,
    Tracegen.main { scanMachine with atoi := fun _ => 1 } ["seqscan", "24", "1"] = some (0, out) ∧
      ((fresh .newestFirst builtinPolicies wideGeometry [] 100).feedAll RandStream.zeros
        (records 64 (print out.trace))).1.levels.1.stats.missRate = 8 / wideGeometry.cfg.blockSize.toNat :=
  seqscan_rate (by decide) .newestFirst wideGeometry [] 100 RandStream.zeros (by decide) rfl (by decide)
    { scanMachine with atoi := fun _ => 1 } "24" "1" (by decide) (by decide) (by decide) (by decide) (.inl rfl)

def walkPass (pool : UInt64) (order : List ℕ) : List Access := order.flatMap (visit pool)

theorem visit_range (pool : UInt64) (order : List ℕ) :
    ((List.range order.length).flatMap fun s => visit pool (order.getD s 0)) = walkPass pool order := by
  rw [walkPass, ← List.flatMap_map]
  congr 1
  apply List.ext_getElem
  · simp
  · intro i h1 h2
    rw [List.getElem_map, List.getElem_range, List.getD_eq_getElem _ _ h2]

section

variable {pool : UInt64} {order : List ℕ} {n : ℕ} (hblock : geo.cfg.blockSize.toNat = 16)
  (halign : pool.toNat % 16 = 0) (hroom : pool.toNat + 16 * n ≤ 2 ^ 64)

include hblock halign hroom

theorem node_block {i : ℕ} (hi : i < n) : (geo.blockOf (nextAddr pool i)).toNat = pool.toNat / 16 + i ∧
    geo.blockOf (payloadAddr pool i) = geo.blockOf (nextAddr pool i) := by
  have hnext : (nextAddr pool i).toNat = pool.toNat + 16 * i := by
    rw [nextAddr, UInt64.toNat_add, UInt64.toNat_ofNat', Nat.add_mod_mod]
    apply Nat.mod_eq_of_lt
    omega
  have hpayload : (payloadAddr pool i).toNat = pool.toNat + 16 * i + 8 := by
    rw [payloadAddr, UInt64.toNat_add, hnext]
    have height : (8 : UInt64).toNat = 8 := rfl
    omega
  constructor
  · rw [geo.blockOf_toNat, ← geo.blockSize_toNat, hblock, hnext]
    omega
  · apply UInt64.toNat_inj.mp
    rw [geo.blockOf_toNat, geo.blockOf_toNat, ← geo.blockSize_toNat, hblock, hnext, hpayload]
    omega

theorem walkPass_visits (horder : ∀ i ∈ order, i < n) (s : ℕ) :
    Cache.visits geo s ((walkPass pool order).flatMap Access.expand) =
      Sweep.expand ((order.filter fun i => (geo.setOf (nextAddr pool i)).val = s).map fun i =>
        (geo.blockOf (nextAddr pool i), 1)) := by
  induction order with
  | nil => rfl
  | cons i order ih =>
    have hi := horder i List.mem_cons_self
    have hrest := ih fun j hj => horder j (List.mem_cons_of_mem _ hj)
    have hpayload := (node_block hblock halign hroom hi).2
    have hset : geo.setOf (payloadAddr pool i) = geo.setOf (nextAddr pool i) := by
      rw [geo.setOf_eq, geo.setOf_eq, hpayload]
    have hcons : (walkPass pool (i :: order)).flatMap Access.expand =
        ⟨nextAddr pool i, false⟩ :: ⟨payloadAddr pool i, false⟩ ::
          (walkPass pool order).flatMap Access.expand := rfl
    rw [hcons, Cache.visits]
    by_cases hs : (geo.setOf (nextAddr pool i)).val = s
    · rw [List.filter_cons_of_pos (by simpa using hs), List.filter_cons_of_pos (by simpa [hset] using hs),
        List.filter_cons_of_pos (by simpa using hs), List.map_cons, List.map_cons, ← Cache.visits, hrest,
        hpayload]
      rfl
    · rw [List.filter_cons_of_neg (by simpa using hs), List.filter_cons_of_neg (by simpa [hset] using hs),
        List.filter_cons_of_neg (by simpa using hs), ← Cache.visits, hrest]

theorem walkPass_gathered (horder : ∀ i ∈ order, i < n) (hnodup : order.Nodup) :
    Cache.Gathered geo ((walkPass pool order).flatMap Access.expand) := by
  intro s
  have hfirst : ((order.filter fun i => (geo.setOf (nextAddr pool i)).val = s).map
      fun i => geo.blockOf (nextAddr pool i)).Nodup := by
    apply List.Nodup.map_on _ (hnodup.filter _)
    intro i hi j hj hij
    have h1 := (node_block hblock halign hroom (horder i (List.mem_of_mem_filter hi))).1
    have h2 := (node_block hblock halign hroom (horder j (List.mem_of_mem_filter hj))).1
    rw [hij] at h1
    omega
  rw [walkPass_visits hblock halign hroom horder, Sweep.destutter_expand]
  · rw [List.map_map]
    exact hfirst
  · rw [List.map_map]
    exact hfirst

theorem walkPass_spans (horder : ∀ i, i ∈ order ↔ i < n) :
    Cache.Spans geo ((walkPass pool order).flatMap Access.expand) (pool.toNat / 16) n := by
  rw [Cache.Spans]
  ext x
  simp only [blocks, walkPass, visit, load, Access.expand, List.flatMap_assoc, List.flatMap_cons,
    List.flatMap_nil, List.append_nil, List.cons_append, List.nil_append, Finset.mem_image,
    List.mem_toFinset, List.mem_map, List.mem_flatMap, List.mem_cons, List.not_mem_nil, or_false,
    Finset.mem_range]
  constructor
  · rintro ⟨b, ⟨r, ⟨i, hi, hr⟩, rfl⟩, rfl⟩
    have hnode := node_block hblock halign hroom ((horder i).mp hi)
    refine ⟨i, (horder i).mp hi, ?_⟩
    rcases hr with rfl | rfl
    · exact hnode.1.symm
    · rw [hnode.2]
      exact hnode.1.symm
  · rintro ⟨i, hi, rfl⟩
    exact ⟨_, ⟨_, ⟨i, (horder i).mpr hi, .inl rfl⟩, rfl⟩, (node_block hblock halign hroom hi).1⟩

end

theorem CacheHierarchy.listwalk_misses {ulongBits : ℕ} (hbits : 32 ≤ ulongBits)
    (order : HashOrder UInt64 ℕ) (l1 : Geometry) (lower : List Geometry) (memTime : ℚ) (e : RandStream)
    (hdet : l1.cfg.replacement ≠ .Random) (hWA : l1.cfg.allocPolicy = .WriteAllocate)
    (hblock : l1.cfg.blockSize.toNat = 16) (m : Machine) (halign : m.A.toNat % 16 = 0)
    (hshuffle : ∀ l, (m.shuffle l).Perm l) (nodes steps : String) (rounds : ℤ)
    (hsteps : m.atoi steps = rounds * m.atoi nodes) (hnodes : 0 < m.atoi nodes) (hrounds : 0 < rounds)
    (hroom : m.A.toNat + 16 * (m.atoi nodes).toNat ≤ 2 ^ 64) :
    ∃ out, Tracegen.main m ["listwalk", nodes, steps] = some (0, out) ∧ out.err = "" ∧
      let h := fresh order builtinPolicies l1 lower memTime
      let misses := (h.feedAll e (records ulongBits (print out.trace))).1.levels.1.stats.misses
      misses = stretchMisses l1 rounds.toNat (m.atoi nodes).toNat ∧
        ((m.atoi nodes).toNat ≤ l1.sets * l1.ways → misses = (m.atoi nodes).toNat) ∧
        (l1.sets * (l1.ways + 1) ≤ (m.atoi nodes).toNat → misses = rounds.toNat * (m.atoi nodes).toNat) := by
  have hperm := hshuffle (List.range (m.atoi nodes).toNat)
  have hmem : ∀ i, i ∈ m.shuffle (List.range (m.atoi nodes).toNat) ↔ i < (m.atoi nodes).toNat := by
    intro i
    rw [hperm.mem_iff, List.mem_range]
  have hlong : (m.atoi steps).toNat = rounds.toNat * (m.atoi nodes).toNat := by
    rw [hsteps]
    exact Int.toNat_mul hrounds.le hnodes.le
  refine ⟨_, main_listwalk (listwalk_eq hshuffle m.A hnodes (m.atoi steps)), rfl, ?_⟩
  intro h misses
  have hmisses : misses = stretchMisses l1 rounds.toNat (m.atoi nodes).toNat := by
    have htrace := rounds_flatMap (m.atoi nodes).toNat rounds.toNat
      fun s => visit m.A ((m.shuffle (List.range (m.atoi nodes).toNat)).getD s 0)
    have hpass := visit_range m.A (m.shuffle (List.range (m.atoi nodes).toNat))
    rw [hperm.length_eq, List.length_range] at hpass
    rw [hpass] at htrace
    dsimp only [misses]
    rw [records_print hbits, hlong, htrace]
    exact stretch_misses order l1 lower memTime e hdet hWA rfl
      (walkPass_gathered hblock halign hroom (fun i hi => (hmem i).mp hi)
        (hperm.nodup_iff.mpr List.nodup_range))
      (walkPass_spans hblock halign hroom hmem) (by omega)
  refine ⟨hmisses, ?_, ?_⟩
  · intro hfits
    rw [hmisses, stretchMisses_fits hfits]
  · intro hexceeds
    rw [hmisses, stretchMisses_exceeds hexceeds]

def nodeGeometry : Geometry := ⟨⟨{ sizeBytes := 32, blockSize := 16 }, 2, 4, 1, 59⟩, rfl⟩

def walkMachine : Machine := { scanMachine with atoi := fun s => if s = "3" then 3 else 6 }

theorem CacheHierarchy.listwalk_misses_reverse : ∃ out,
    Tracegen.main walkMachine ["listwalk", "3", "6"] = some (0, out) ∧
      ((fresh .newestFirst builtinPolicies nodeGeometry [] 100).feedAll RandStream.zeros
        (records 64 (print out.trace))).1.levels.1.stats.misses = 5 := by
  obtain ⟨out, hout, -, hmisses, -⟩ := listwalk_misses (show 32 ≤ 64 by decide) .newestFirst nodeGeometry
    [] 100 RandStream.zeros (by decide) (by rfl) (by decide) walkMachine (by decide) List.reverse_perm "3" "6" 2
    (by decide) (by decide) (by decide) (by decide)
  exact ⟨out, hout, hmisses.trans (by decide)⟩

theorem CacheHierarchy.randscan_misses {ε : Type} {ρ : ℕ → ℕ → Type} [ReplacementPolicy ε ρ] {ulongBits : ℕ}
    (hbits : 32 ≤ ulongBits) (order : HashOrder UInt64 ℕ) (make : Chain.Policies ρ) (l1 : Geometry)
    (lower : List Geometry) (memTime : ℚ) (e : ε) (hWA : l1.cfg.allocPolicy = .WriteAllocate) (m : Machine)
    (bytes count : String) (hbytes : 8 ≤ m.atol bytes) :
    ∃ out, Tracegen.main m ["randscan", bytes, count] = some (0, out) ∧
      let stats := ((fresh order make l1 lower memTime).feedAll e
        (records ulongBits (print out.trace))).1.levels.1.stats
      let drawn := (Finset.range (m.atol count).toNat).image fun i =>
        l1.blockOf (elem m.A (m.pick ((m.atol bytes).toNat / 8 - 1) i))
      stats.accesses = (m.atol count).toNat ∧ drawn.card ≤ stats.misses ∧
        (Fits l1 drawn → stats.misses = drawn.card ∧ stats.writebacks = 0) := by
  have hvector := vector_eq (show 0 ≤ m.atol bytes by omega)
  have hne : List.replicate ((m.atol bytes).toNat / 8) (1 : UInt64) ≠ [] := by
    rw [ne_eq, List.replicate_eq_nil_iff]
    omega
  obtain ⟨err, hscan⟩ : ∃ err, randscan m.A m.pick (m.atol bytes) (m.atol count) = some
      ⟨((List.range (m.atol count).toNat).map (m.pick ((m.atol bytes).toNat / 8 - 1))).map
        fun i => load (elem m.A i), err⟩ := by
    rw [randscan, hvector]
    dsimp only
    rw [if_neg (fun h => hne h.1), List.length_replicate]
    exact ⟨_, rfl⟩
  refine ⟨_, main_randscan hscan, ?_⟩
  dsimp only
  rw [records_print hbits]
  generalize hreqs : (((List.range (m.atol count).toNat).map (m.pick ((m.atol bytes).toNat / 8 - 1))).map
    fun i => load (elem m.A i)).flatMap Access.expand = reqs
  have hmap : reqs = (List.range (m.atol count).toNat).map fun i =>
      (⟨elem m.A (m.pick ((m.atol bytes).toNat / 8 - 1) i), false⟩ : Request) := by
    rw [← hreqs, List.map_map, List.flatMap_map, List.map_eq_flatMap]
    rfl
  have hblocks : blocks l1 reqs = (Finset.range (m.atol count).toNat).image fun i =>
      l1.blockOf (elem m.A (m.pick ((m.atol bytes).toNat / 8 - 1) i)) := by
    rw [hmap]
    ext b
    simp [blocks]
  have hfits (hfit : Fits l1 (blocks l1 reqs)) := Cache.cold_run hWA order (make lower.length l1)
    (Chain.fresh order make ({} : Memory) lower) e hfit
  rw [← hblocks, feedAll_eq, hreqs]
  refine ⟨?_, ?_, fun hfit => ⟨(hfits hfit).misses_eq, (hfits hfit).writebacks_eq⟩⟩
  · refine (Cache.run_accesses order (make lower.length l1) (Chain.fresh order make ({} : Memory) lower) e
      reqs).trans ?_
    rw [hmap, List.length_map, List.length_range]
  · exact Cache.blocks_card_le_misses hWA order (make lower.length l1)
      (Chain.fresh order make ({} : Memory) lower) e reqs

theorem CacheHierarchy.randscan_misses_wide : ∃ out,
    Tracegen.main { scanMachine with atol := fun s => if s = "24" then 24 else 5 } ["randscan", "24", "5"] =
      some (0, out) ∧
      ((fresh .newestFirst builtinPolicies wideGeometry [] 100).feedAll RandStream.zeros
        (records 64 (print out.trace))).1.levels.1.stats.misses = 3 := by
  obtain ⟨out, hout, -, -, hfits⟩ := randscan_misses (show 32 ≤ 64 by decide) .newestFirst builtinPolicies
    wideGeometry [] 100 RandStream.zeros (by rfl)
    { scanMachine with atol := fun s => if s = "24" then 24 else 5 } "24" "5" (by decide)
  have hdrawn : Fits wideGeometry ((Finset.range (5 : ℤ).toNat).image fun i =>
      wideGeometry.blockOf (elem 0 (i % 3))) := by
    unfold Fits
    decide
  exact ⟨out, hout, (hfits hdrawn).1.trans (by decide)⟩

end CacheSim
