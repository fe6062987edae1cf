import CacheSim.Divergence
import CacheSim.Inclusion

namespace CacheSim

open Service Recency

theorem Geometry.numSets_le {geo₁ geo₂ : Geometry} (hblock : geo₁.cfg.blockSize = geo₂.cfg.blockSize)
    (hways : geo₁.cfg.associativity = geo₂.cfg.associativity)
    (hsize : geo₁.cfg.sizeBytes ≤ geo₂.cfg.sizeBytes) : geo₁.numSets ≤ geo₂.numSets := by
  obtain ⟨-, -, -, -, -, hl₁⟩ := Layout.new_ok geo₁.accepted
  obtain ⟨-, -, -, -, -, hl₂⟩ := Layout.new_ok geo₂.accepted
  have hn₁ : geo₁.numSets = geo₁.cfg.sizeBytes / (geo₁.cfg.blockSize * geo₁.cfg.associativity) :=
    congrArg Layout.numSets hl₁
  have hn₂ : geo₂.numSets = geo₂.cfg.sizeBytes / (geo₂.cfg.blockSize * geo₂.cfg.associativity) :=
    congrArg Layout.numSets hl₂
  rw [hn₁, hn₂, hblock, hways, UInt64.le_iff_toNat_le, UInt64.toNat_div, UInt64.toNat_div]
  exact Nat.div_le_div_right (UInt64.le_iff_toNat_le.mp hsize)

def writeAround (sizeBytes associativity : UInt64) : CacheConfig :=
  { sizeBytes := sizeBytes, blockSize := 4, associativity := associativity, allocPolicy := .NoWriteAllocate }

def writeAroundOne : Geometry := ⟨⟨writeAround 8 2, 1, 2, 0, 62⟩, rfl⟩

def writeAroundTwo : Geometry := ⟨⟨writeAround 16 2, 2, 2, 1, 61⟩, rfl⟩

def writeAroundWide : Geometry := ⟨⟨writeAround 16 4, 1, 2, 0, 62⟩, rfl⟩

def mixed : List Request :=
  [⟨0, false⟩, ⟨4, false⟩, ⟨4, true⟩, ⟨8, false⟩, ⟨8, true⟩, ⟨0, false⟩, ⟨12, true⟩, ⟨8, false⟩]

namespace Cache

section

variable {σ₁ σ₂ : Type} [MemoryLevel RandStream σ₁] [MemoryLevel RandStream σ₂] {geo₁ geo₂ : Geometry}

theorem reference_congr (hblock : geo₁.cfg.blockSize = geo₂.cfg.blockSize)
    (halloc : geo₁.cfg.allocPolicy = geo₂.cfg.allocPolicy) :
    (fun r : Request => (geo₁.blockOf r.addr, installs geo₁ r)) =
      fun r => (geo₂.blockOf r.addr, installs geo₂ r) := by
  funext r
  rw [Geometry.blockOf_congr hblock, installs, installs, halloc]

theorem references_congr (hblock : geo₁.cfg.blockSize = geo₂.cfg.blockSize)
    (halloc : geo₁.cfg.allocPolicy = geo₂.cfg.allocPolicy) (reqs : List Request) :
    references geo₁ reqs = references geo₂ reqs := by
  rw [references, references, reference_congr hblock halloc]

theorem lru_ways_inclusion (hLRU₁ : geo₁.cfg.replacement = .LRU) (hLRU₂ : geo₂.cfg.replacement = .LRU)
    (hNWA₁ : geo₁.cfg.allocPolicy = .NoWriteAllocate) (hNWA₂ : geo₂.cfg.allocPolicy = .NoWriteAllocate)
    (hblock : geo₁.cfg.blockSize = geo₂.cfg.blockSize) (hsets : geo₁.numSets = geo₂.numSets)
    (hways : geo₁.cfg.associativity ≤ geo₂.cfg.associativity) {order₁ order₂ : HashOrder UInt64 ℕ}
    {next₁ : σ₁} {next₂ : σ₂} {reqs : List Request} {s₁ : Cache BuiltinPolicy geo₁ × σ₁}
    {s₂ : Cache BuiltinPolicy geo₂ × σ₂}
    (h₁ : Called RandStream
      (fresh order₁ (makeReplacement geo₁.cfg.replacement geo₁.sets geo₁.ways), next₁) reqs s₁)
    (h₂ : Called RandStream
      (fresh order₂ (makeReplacement geo₂.cfg.replacement geo₂.sets geo₂.ways), next₂) reqs s₂) :
    (∀ a, s₁.1.Resident a → s₂.1.Resident a) ∧
      ∀ (e₁ e₂ : RandStream) r, (serve s₁ e₁ r).1 = true → (serve s₂ e₂ r).1 = true := by
  have hrecent₁ := (called_recalls hLRU₁ h₁).recent
  have hrecent₂ := (called_recalls hLRU₂ h₂).recent
  rw [references_congr hblock (hNWA₁.trans hNWA₂.symm)] at hrecent₁
  have hsame : ∀ x y, geo₁.setOfBlock x = geo₁.setOfBlock y ↔ geo₂.setOfBlock x = geo₂.setOfBlock y :=
    fun x y => ⟨Geometry.setOfBlock_coarser (UInt64.le_of_eq hsets.symm),
      Geometry.setOfBlock_coarser (UInt64.le_of_eq hsets)⟩
  have hresident : ∀ a, s₁.1.Resident a → s₂.1.Resident a := by
    intro a ha
    rw [hrecent₁.resident_iff, Geometry.blockOf_congr hblock] at ha
    rw [hrecent₂.resident_iff]
    exact ha.widen (UInt64.le_iff_toNat_le.mp hways) hsame
  refine ⟨hresident, fun e₁ e₂ r hhit => ?_⟩
  obtain ⟨calls₁, hstep₁, -⟩ := access_step s₁.1 s₁.2 e₁ r
  obtain ⟨calls₂, hstep₂, -⟩ := access_step s₂.1 s₂.2 e₂ r
  apply hstep₂.hit_iff.mpr
  apply hresident
  exact hstep₁.hit_iff.mp hhit

theorem lru_ways_inclusion_wide :
    ∃ s₁ s₂, s₁ = (run ((fresh .newestFirst (makeReplacement .LRU _ _), {}) :
        Cache BuiltinPolicy writeAroundOne × Memory) RandStream.zeros mixed).2.1 ∧
      s₂ = (run ((fresh .newestFirst (makeReplacement .LRU _ _), {}) :
        Cache BuiltinPolicy writeAroundWide × Memory) RandStream.zeros mixed).2.1 ∧
      (∀ a, s₁.1.Resident a → s₂.1.Resident a) ∧
      ∀ (e₁ e₂ : RandStream) (r : Request), (serve s₁ e₁ r).1 = true → (serve s₂ e₂ r).1 = true := by
  have h₁ := run_called ((fresh .newestFirst (makeReplacement .LRU _ _), {}) :
    Cache BuiltinPolicy writeAroundOne × Memory) RandStream.zeros mixed
  have h₂ := run_called ((fresh .newestFirst (makeReplacement .LRU _ _), {}) :
    Cache BuiltinPolicy writeAroundWide × Memory) RandStream.zeros mixed
  exact ⟨_, _, rfl, rfl, lru_ways_inclusion (by rfl) (by rfl) (by rfl) (by rfl) (by rfl) (by rfl)
    (by decide) h₁ h₂⟩

def Answered (geo : Geometry) : List (Request × Bool) → Prop
  | [] => True
  | (r, b) :: past =>
    (b = true ↔ Held geo.ways geo.setOfBlock
      (past.map fun x => (geo.blockOf x.1.addr, installs geo x.1)) (geo.blockOf r.addr)) ∧ Answered geo past

theorem serves_answered {geo : Geometry} {σ : Type} [MemoryLevel RandStream σ]
    {order : HashOrder UInt64 ℕ} {next : σ} {es : List (Request × Bool)} {s : Cache BuiltinPolicy geo × σ}
    (hLRU : geo.cfg.replacement = .LRU)
    (hserves : Serves RandStream
      (fresh order (makeReplacement geo.cfg.replacement geo.sets geo.ways), next) es s) :
    Answered geo es.reverse := by
  have hstep : ∀ past (s : Cache BuiltinPolicy geo × σ) (e : RandStream) r,
      s.1.Recent (past.map fun x => (geo.blockOf x.1.addr, installs geo x.1)) ∧ Answered geo past →
      (serve s e r).2.1.1.Recent (((r, (serve s e r).1) :: past).map fun x =>
        (geo.blockOf x.1.addr, installs geo x.1)) ∧ Answered geo ((r, (serve s e r).1) :: past) := by
    rintro past ⟨c, next⟩ e r ⟨hc, hpast⟩
    obtain ⟨calls, hstep, -⟩ := access_step c next e r
    exact ⟨hc.step hstep, hstep.hit_iff.trans (hc.resident_iff r.addr), hpast⟩
  exact (hserves.history_nil (P := fun past s =>
    s.1.Recent (past.map fun x => (geo.blockOf x.1.addr, installs geo x.1)) ∧ Answered geo past) hstep
    ⟨fresh_recent order hLRU, trivial⟩).2

theorem tracks_of_answered {past₁ past₂ : List (Request × Bool)}
    (hreqs : past₁.map Prod.fst = past₂.map Prod.fst) (h₁ : Answered geo₁ past₁) (h₂ : Answered geo₂ past₂)
    (hstores : ∀ x ∈ past₁.zip past₂, x.1.1.isWrite = true → x.2.2 = true → x.1.2 = true)
    (hblock : geo₁.cfg.blockSize = geo₂.cfg.blockSize)
    (halloc : geo₁.cfg.allocPolicy = geo₂.cfg.allocPolicy) (hways : geo₁.ways = geo₂.ways) :
    Tracks geo₁.ways geo₁.setOfBlock geo₂.setOfBlock
      (past₁.map fun x => (geo₁.blockOf x.1.addr, installs geo₁ x.1)) := by
  induction past₁ generalizing past₂ with
  | nil => trivial
  | cons x past₁ ih =>
    obtain ⟨r, b₁⟩ := x
    obtain ⟨⟨r', b₂⟩, past₂, rfl⟩ := List.exists_cons_of_length_pos (by
      rw [← List.length_map (f := Prod.fst), ← hreqs]; simp)
    rw [List.map_cons, List.map_cons, List.cons.injEq] at hreqs
    obtain ⟨rfl : r = r', hreqs⟩ := hreqs
    obtain ⟨hb₁, h₁⟩ := h₁
    obtain ⟨hb₂, h₂⟩ := h₂
    have hpast : past₂.map (fun x => (geo₂.blockOf x.1.addr, installs geo₂ x.1)) =
        past₁.map fun x => (geo₁.blockOf x.1.addr, installs geo₁ x.1) := by
      calc past₂.map (fun x => (geo₂.blockOf x.1.addr, installs geo₂ x.1))
          = (past₂.map Prod.fst).map (fun r => (geo₂.blockOf r.addr, installs geo₂ r)) := by
            rw [List.map_map]
            rfl
        _ = (past₁.map Prod.fst).map (fun r => (geo₁.blockOf r.addr, installs geo₁ r)) := by
            rw [← hreqs, reference_congr hblock halloc]
        _ = past₁.map (fun x => (geo₁.blockOf x.1.addr, installs geo₁ x.1)) := by
            rw [List.map_map]
            rfl
    rw [hpast, ← Geometry.blockOf_congr hblock, ← hways] at hb₂
    refine ⟨fun hinstall hheld => ?_, ih hreqs h₁ h₂ fun x hx => hstores x (List.mem_cons_of_mem _ hx)⟩
    have hwrite : r.isWrite = true := by
      by_contra hread
      simp [installs, hread] at hinstall
    apply hb₁.mp
    apply hstores ((r, b₁), (r, b₂)) List.mem_cons_self hwrite
    exact hb₂.mpr hheld

theorem write_around_growth (hLRU₁ : geo₁.cfg.replacement = .LRU) (hLRU₂ : geo₂.cfg.replacement = .LRU)
    (hNWA₁ : geo₁.cfg.allocPolicy = .NoWriteAllocate) (hNWA₂ : geo₂.cfg.allocPolicy = .NoWriteAllocate)
    (hblock : geo₁.cfg.blockSize = geo₂.cfg.blockSize)
    (hways : geo₁.cfg.associativity = geo₂.cfg.associativity)
    (hsize : geo₁.cfg.sizeBytes ≤ geo₂.cfg.sizeBytes) {order₁ order₂ : HashOrder UInt64 ℕ}
    {next₁ : σ₁} {next₂ : σ₂} {es₁ es₂ : List (Request × Bool)} {s₁ : Cache BuiltinPolicy geo₁ × σ₁}
    {s₂ : Cache BuiltinPolicy geo₂ × σ₂}
    (h₁ : Serves RandStream
      (fresh order₁ (makeReplacement geo₁.cfg.replacement geo₁.sets geo₁.ways), next₁) es₁ s₁)
    (h₂ : Serves RandStream
      (fresh order₂ (makeReplacement geo₂.cfg.replacement geo₂.sets geo₂.ways), next₂) es₂ s₂)
    (hreqs : es₁.map Prod.fst = es₂.map Prod.fst)
    (hstores : geo₁.cfg.associativity = 1 ∨
      ∀ x ∈ es₁.zip es₂, x.1.1.isWrite = true → x.2.2 = true → x.1.2 = true) :
    s₂.1.stats.misses ≤ s₁.1.stats.misses := by
  have halloc := hNWA₁.trans hNWA₂.symm
  have hmisses₁ := (called_recalls hLRU₁ ⟨es₁, rfl, h₁⟩).misses_eq
  have hmisses₂ := (called_recalls hLRU₂ ⟨es₂, rfl, h₂⟩).misses_eq
  have hways' : geo₁.ways = geo₂.ways := congrArg UInt64.toNat hways
  have hcoarser : ∀ x y, geo₂.setOfBlock x = geo₂.setOfBlock y → geo₁.setOfBlock x = geo₁.setOfBlock y :=
    fun x y => Geometry.setOfBlock_coarser (Geometry.numSets_le hblock hways hsize)
  rw [hmisses₁, hmisses₂, ← hreqs, references_congr hblock halloc, ← hways']
  apply absences_le
  intro h' hsuffix b hheld
  rcases hstores with hone | hstores
  · have hways₁ : geo₁.ways = 1 := congrArg UInt64.toNat hone
    rw [hways₁] at hheld ⊢
    exact hheld.mono_one hcoarser
  · have hzip : es₁.reverse.zip es₂.reverse = (es₁.zip es₂).reverse := by
      apply (List.reverse_zipWith _).symm
      rw [← List.length_map (f := Prod.fst), hreqs, List.length_map]
    have hpasts : es₁.reverse.map Prod.fst = es₂.reverse.map Prod.fst := by
      rw [List.map_reverse, List.map_reverse, hreqs]
    have htracks := tracks_of_answered hpasts (serves_answered hLRU₁ h₁)
      (serves_answered hLRU₂ h₂) (by rw [hzip]; simpa using hstores) hblock halloc hways'
    have hrefs : references geo₂ (es₁.map Prod.fst) =
        es₁.reverse.map fun x => (geo₁.blockOf x.1.addr, installs geo₁ x.1) := by
      rw [← references_congr hblock halloc, references, List.map_map, ← List.map_reverse]
      rfl
    rw [hrefs] at hsuffix
    exact (htracks.suffix hsuffix).mono geo₁.ways_pos hcoarser hheld

end

theorem write_around_growth_reads :
    ∃ s₁ s₂, s₁ = (run ((fresh .newestFirst (makeReplacement .LRU _ _), {}) :
        Cache BuiltinPolicy writeAroundOne × Memory) RandStream.zeros mixed).2.1 ∧
      s₂ = (run ((fresh .newestFirst (makeReplacement .LRU _ _), {}) :
        Cache BuiltinPolicy writeAroundTwo × Memory) RandStream.zeros mixed).2.1 ∧
      s₂.1.stats.misses ≤ s₁.1.stats.misses ∧ s₁.1.stats.misses = 5 := by
  have h₁ := run_serves ((fresh .newestFirst (makeReplacement .LRU _ _), {}) :
    Cache BuiltinPolicy writeAroundOne × Memory) RandStream.zeros mixed
  have h₂ := run_serves ((fresh .newestFirst (makeReplacement .LRU _ _), {}) :
    Cache BuiltinPolicy writeAroundTwo × Memory) RandStream.zeros mixed
  exact ⟨_, _, rfl, rfl, write_around_growth (by rfl) (by rfl) (by rfl) (by rfl) (by rfl) (by rfl)
    (by decide) h₁ h₂ (by decide) (.inr (by decide)), by decide⟩

def anomaly : List Request :=
  [⟨8, false⟩, ⟨4, false⟩, ⟨0, false⟩, ⟨8, true⟩, ⟨16, false⟩, ⟨0, true⟩, ⟨0, true⟩]

/-- The store to block 2 refreshes it in the larger cache only, which then evicts block 0. -/
theorem write_around_anomaly :
    (run ((fresh .newestFirst (makeReplacement .LRU _ _), {}) :
        Cache BuiltinPolicy writeAroundOne × Memory) RandStream.zeros anomaly).2.1.1.stats.misses = 5 ∧
      (run ((fresh .newestFirst (makeReplacement .LRU _ _), {}) :
        Cache BuiltinPolicy writeAroundTwo × Memory) RandStream.zeros anomaly).2.1.1.stats.misses = 6 ∧
      writeAroundTwo.cfg = { writeAroundOne.cfg with sizeBytes := 16 } := by
  decide

end Cache

end CacheSim
