import CacheSim.Hierarchy

/-!
Which configurations the constructor takes. Its checks multiply in 64 bits, so a product that wraps
is neither rejected nor kept from being a divisor.
-/

namespace CacheSim.Cache

open Words

variable {σ : Type} {ρ : ℕ → ℕ → Type}

theorem new_eq_error {order : HashOrder UInt64 ℕ} {make : (geo : Geometry) → ρ geo.sets geo.ways}
    {cfg : CacheConfig} {next : σ} {err : CtorError} (h : Layout.new cfg = .error err) :
    new order make cfg (some next) = .error err := by
  unfold new
  split
  · simp_all
  · split
    · next err' herr =>
      rw [h] at herr
      exact congrArg Except.error (Except.error.inj herr).symm
    · next l hl =>
      rw [h] at hl
      cases hl

theorem new_eq_ok (order : HashOrder UInt64 ℕ) (make : (geo : Geometry) → ρ geo.sets geo.ways)
    {cfg : CacheConfig} (next : σ) {l : Layout} (h : Layout.new cfg = .ok l) :
    ∃ out, new order make cfg (some next) = .ok out ∧ out.1.toLayout = l := by
  obtain ⟨-, -, -, -, -, hl⟩ := Layout.new_ok h
  have hcfg : l.cfg = cfg := congrArg Layout.cfg hl
  subst hcfg
  exact ⟨_, new_accepted order make ⟨l, h⟩ next, rfl⟩

def Factors (cfg : CacheConfig) : Prop :=
  ∃ o i, cfg.blockSize.toNat = 2 ^ o ∧
    cfg.sizeBytes.toNat = 2 ^ i * cfg.blockSize.toNat * cfg.associativity.toNat

def Exact (cfg : CacheConfig) : Except CtorError ((geo : Geometry) × Cache ρ geo × σ) → Prop
  | .error .divisionByZero => False
  | .error (.invalidArgument _) =>
    cfg.sizeBytes = 0 ∨ cfg.blockSize = 0 ∨ cfg.associativity = 0 ∨ ¬Factors cfg
  | .ok built =>
    cfg.blockSize.toNat = 2 ^ built.1.offsetBits.toNat ∧
      built.1.numSets.toNat = 2 ^ built.1.indexBits.toNat ∧
      built.1.numSets.toNat * cfg.blockSize.toNat * cfg.associativity.toNat = cfg.sizeBytes.toNat

def wrappedProduct (cfg : CacheConfig) : ℕ := cfg.blockSize.toNat * cfg.associativity.toNat % 2 ^ 64

/-- The product of block size and associativity does not wrap, or a check that comes before it fails,
or what it wraps to is refused all the same. -/
def Unwrapped (cfg : CacheConfig) : Prop :=
  cfg.sizeBytes = 0 ∨ cfg.blockSize = 0 ∨ cfg.associativity = 0 ∨ (¬∃ o, cfg.blockSize.toNat = 2 ^ o) ∨
    cfg.blockSize.toNat * cfg.associativity.toNat < 2 ^ 64 ∨
    (wrappedProduct cfg ≠ 0 ∧ ∀ i, cfg.sizeBytes.toNat ≠ 2 ^ i * wrappedProduct cfg)

theorem product_toNat (cfg : CacheConfig) :
    (cfg.blockSize * cfg.associativity).toNat = wrappedProduct cfg :=
  UInt64.toNat_mul ..

theorem wrappedProduct_pos {cfg : CacheConfig} (h : cfg.blockSize * cfg.associativity ≠ 0) :
    0 < wrappedProduct cfg := by
  rw [← product_toNat]
  exact Nat.pos_of_ne_zero fun h0 => h (UInt64.toNat_inj.mp h0)

theorem isPow2_iff_exists (x : UInt64) : isPow2 x = true ↔ ∃ k, x.toNat = 2 ^ k := by
  rw [isPow2_iff]
  constructor
  · rintro ⟨k, -, hk⟩
    exact ⟨k, hk⟩
  · rintro ⟨k, hk⟩
    refine ⟨k, ?_, hk⟩
    have hlt := x.toNat_lt
    rw [hk] at hlt
    exact (Nat.pow_lt_pow_iff_right (by omega)).mp hlt

theorem product_le (i b a : ℕ) : b * a ≤ 2 ^ i * b * a := by
  rw [Nat.mul_assoc]
  exact Nat.le_mul_of_pos_left _ (Nat.two_pow_pos i)

theorem Factors.product {cfg : CacheConfig} (h : Factors cfg) :
    ∃ i, cfg.sizeBytes.toNat = 2 ^ i * wrappedProduct cfg := by
  obtain ⟨o, i, -, hi⟩ := h
  refine ⟨i, ?_⟩
  have hle := product_le i cfg.blockSize.toNat cfg.associativity.toNat
  rw [← hi] at hle
  rw [wrappedProduct, Nat.mod_eq_of_lt (hle.trans_lt cfg.sizeBytes.toNat_lt), hi, Nat.mul_assoc]

def Refused (cfg : CacheConfig) : Prop :=
  (cfg.blockSize = 0 ∨ cfg.associativity = 0 ∨ cfg.sizeBytes = 0) ∨ (¬∃ o, cfg.blockSize.toNat = 2 ^ o) ∨
    (wrappedProduct cfg ≠ 0 ∧ ∀ i, cfg.sizeBytes.toNat ≠ 2 ^ i * wrappedProduct cfg)

def DividesByZero (cfg : CacheConfig) : Prop :=
  ¬(cfg.blockSize = 0 ∨ cfg.associativity = 0 ∨ cfg.sizeBytes = 0) ∧ (∃ o, cfg.blockSize.toNat = 2 ^ o) ∧
    wrappedProduct cfg = 0

theorem refused {cfg : CacheConfig} {what : String}
    (h : Layout.new cfg = .error (.invalidArgument what)) : Refused cfg := by
  unfold Layout.new at h
  dsimp only at h
  split_ifs at h with hzero hpow hprod hmod hsets
  · exact .inl hzero
  · rw [← Bool.not_eq_true, isPow2_iff_exists] at hpow
    exact .inr (.inl hpow)
  · cases h
  · have hpos := wrappedProduct_pos hprod
    refine .inr (.inr ⟨hpos.ne', ?_⟩)
    intro i hi
    apply hmod
    apply UInt64.toNat_inj.mp
    rw [UInt64.toNat_mod, product_toNat, hi]
    exact Nat.mul_mod_left _ _
  · have hpos := wrappedProduct_pos hprod
    refine .inr (.inr ⟨hpos.ne', ?_⟩)
    intro i hi
    rw [← Bool.not_eq_true, isPow2_iff_exists] at hsets
    apply hsets
    rw [UInt64.toNat_div, product_toNat, hi, Nat.mul_div_cancel _ hpos]
    exact ⟨i, rfl⟩

theorem Refused.no_geometry {cfg : CacheConfig} (h : Refused cfg) :
    cfg.sizeBytes = 0 ∨ cfg.blockSize = 0 ∨ cfg.associativity = 0 ∨ ¬Factors cfg := by
  rcases h with (h | h | h) | hpow | ⟨-, hsize⟩
  · exact .inr (.inl h)
  · exact .inr (.inr (.inl h))
  · exact .inl h
  · refine .inr (.inr (.inr ?_))
    rintro ⟨o, -, ho, -⟩
    exact hpow ⟨o, ho⟩
  · refine .inr (.inr (.inr ?_))
    intro hfactors
    obtain ⟨i, hi⟩ := hfactors.product
    exact hsize i hi

theorem unwrapped_iff (cfg : CacheConfig) :
    Unwrapped cfg ↔ Refused cfg ∨ cfg.blockSize.toNat * cfg.associativity.toNat < 2 ^ 64 := by
  unfold Unwrapped Refused
  tauto

theorem dividesByZero_iff (cfg : CacheConfig) :
    Layout.new cfg = .error .divisionByZero ↔ DividesByZero cfg := by
  have hprod : cfg.blockSize * cfg.associativity = 0 ↔ wrappedProduct cfg = 0 := by
    rw [← product_toNat, ← UInt64.toNat_inj]
    rfl
  rw [DividesByZero, ← isPow2_iff_exists, ← hprod]
  unfold Layout.new
  dsimp only
  split_ifs with hzero hpow hwrap hmod hsets
  · simp [hzero]
  · simp [hpow]
  · simp [hzero, hpow, hwrap]
  · simp [hwrap]
  · simp [hwrap]
  · simp [hwrap]

theorem DividesByZero.not_unwrapped {cfg : CacheConfig} (h : DividesByZero cfg) : ¬Unwrapped cfg := by
  obtain ⟨hzero, hpow, hwrapped⟩ := h
  rw [unwrapped_iff]
  rintro ((h | h | ⟨h, -⟩) | hlt)
  · exact hzero h
  · exact h hpow
  · exact h hwrapped
  · rw [wrappedProduct, Nat.mod_eq_of_lt hlt, Nat.mul_eq_zero] at hwrapped
    apply hzero
    rcases hwrapped with h | h
    · exact .inl (UInt64.toNat_inj.mp h)
    · exact .inr (.inl (UInt64.toNat_inj.mp h))

theorem taken {cfg : CacheConfig} {l : Layout} (h : Layout.new cfg = .ok l) :
    ∃ i, l.numSets.toNat = 2 ^ i ∧ cfg.sizeBytes.toNat = 2 ^ i * wrappedProduct cfg ∧
      0 < wrappedProduct cfg := by
  obtain ⟨-, -, hprod, hmod, hsets, hl⟩ := Layout.new_ok h
  obtain ⟨i, hi⟩ := (isPow2_iff_exists _).mp hsets
  have hn := congrArg (fun l => l.numSets.toNat) hl
  dsimp only at hn
  rw [UInt64.toNat_div, product_toNat] at hn
  have hdvd : wrappedProduct cfg ∣ cfg.sizeBytes.toNat := by
    have h0 := congrArg UInt64.toNat hmod
    rw [UInt64.toNat_mod, product_toNat] at h0
    exact Nat.dvd_of_mod_eq_zero h0
  refine ⟨i, hi, ?_, wrappedProduct_pos hprod⟩
  rw [← hi, hn, Nat.div_mul_cancel hdvd]

theorem not_refused {cfg : CacheConfig} {l : Layout} (h : Layout.new cfg = .ok l) : ¬Refused cfg := by
  obtain ⟨i, -, hsize, hpos⟩ := taken h
  obtain ⟨hassoc, hpow, -⟩ := Layout.new_ok h
  rintro ((h0 | h0 | h0) | h0 | ⟨-, h0⟩)
  · rw [wrappedProduct, h0] at hpos
    simp at hpos
  · exact hassoc h0
  · rw [h0] at hsize
    exact absurd hsize (Nat.mul_pos (Nat.two_pow_pos i) hpos).ne
  · exact h0 ((isPow2_iff_exists _).mp hpow)
  · exact h0 i hsize

theorem unwrapped_iff_exact {cfg : CacheConfig} {l : Layout} (h : Layout.new cfg = .ok l) :
    Unwrapped cfg ↔
      l.numSets.toNat * cfg.blockSize.toNat * cfg.associativity.toNat = cfg.sizeBytes.toNat := by
  obtain ⟨i, hi, hsize, -⟩ := taken h
  rw [unwrapped_iff, or_iff_right (not_refused h), hi]
  constructor
  · intro hlt
    rw [hsize, wrappedProduct, Nat.mod_eq_of_lt hlt, Nat.mul_assoc]
  · intro hexact
    have hle := product_le i cfg.blockSize.toNat cfg.associativity.toNat
    rw [hexact] at hle
    exact hle.trans_lt cfg.sizeBytes.toNat_lt

/-- The constructor validates exactly when the product of block size and associativity does not wrap
to zero or to a divisor of the size. -/
theorem validation_exact_iff (order : HashOrder UInt64 ℕ)
    (make : (geo : Geometry) → ρ geo.sets geo.ways) (cfg : CacheConfig) (next : σ) :
    Exact cfg (new order make cfg (some next)) ↔ Unwrapped cfg := by
  cases hnew : Layout.new cfg with
  | error err =>
    rw [new_eq_error hnew]
    cases err with
    | divisionByZero => exact iff_of_false id ((dividesByZero_iff cfg).mp hnew).not_unwrapped
    | invalidArgument what =>
      exact iff_of_true (refused hnew).no_geometry ((unwrapped_iff cfg).mpr (.inl (refused hnew)))
  | ok l =>
    obtain ⟨out, hout, hl⟩ := new_eq_ok order make next hnew
    have hcfg := (new_ok hout).1
    have hblock := out.1.blockSize_toNat
    rw [hcfg] at hblock
    rw [hout, unwrapped_iff_exact hnew, ← hl]
    constructor
    · rintro ⟨-, -, hexact⟩
      exact hexact
    · exact fun hexact => ⟨hblock, out.1.numSets_toNat, hexact⟩

def zeroProduct : CacheConfig :=
  { sizeBytes := 4294967296, blockSize := 4294967296, associativity := 4294967296 }

def wrappingProduct : CacheConfig :=
  { sizeBytes := 4294967296, blockSize := 4294967296, associativity := 4294967297 }

theorem products_wrap :
    let make := fun geo : Geometry => makeReplacement geo.cfg.replacement geo.sets geo.ways
    new .newestFirst make zeroProduct (some ({} : Memory)) = .error .divisionByZero ∧
      ¬Exact zeroProduct (new .newestFirst make zeroProduct (some ({} : Memory))) ∧
      ¬Exact wrappingProduct (new .newestFirst make wrappingProduct (some ({} : Memory))) := by
  intro make
  have hzero : new .newestFirst make zeroProduct (some ({} : Memory)) = .error .divisionByZero :=
    new_eq_error rfl
  have hwrapping : Layout.new wrappingProduct = .ok ⟨wrappingProduct, 1, 32, 0, 32⟩ := rfl
  refine ⟨hzero, ?_, ?_⟩
  · rw [hzero]
    exact id
  · obtain ⟨out, hout, hl⟩ := new_eq_ok .newestFirst make ({} : Memory) hwrapping
    rw [hout]
    rintro ⟨-, -, hexact⟩
    rw [hl] at hexact
    exact absurd hexact (by decide)

end CacheSim.Cache

namespace CacheSim.CacheHierarchy

open Cache

variable {ρ : ℕ → ℕ → Type} {order : HashOrder UInt64 ℕ} {make : Chain.Policies ρ}

def DividesAt : List CacheConfig → Prop
  | [] => False
  | cfg :: cfgs => DividesAt cfgs ∨ (DividesByZero cfg ∧ ∀ c ∈ cfgs, ¬Refused c)

section

variable {cfg : CacheConfig} {cfgs : List CacheConfig} {err : CtorError}
  {out : (geos : List Geometry) × Chain ρ Memory geos}

theorem build_below (h : build order make cfgs = .error err) :
    build order make (cfg :: cfgs) = .error err := by
  rw [build, h]

theorem build_error (h : build order make cfgs = .ok out) (hnew : Layout.new cfg = .error err) :
    build order make (cfg :: cfgs) = .error err := by
  rw [build, h]
  dsimp only
  rw [new_eq_error hnew]

theorem build_taken (h : build order make cfgs = .ok out) {l : Layout} (hnew : Layout.new cfg = .ok l) :
    ∃ out, build order make (cfg :: cfgs) = .ok out := by
  obtain ⟨built, hbuilt, -⟩ := new_eq_ok order (make out.1.length) out.2 hnew
  rw [build, h]
  dsimp only
  rw [hbuilt]
  exact ⟨_, rfl⟩

theorem build_not_refused (h : build order make cfgs = .ok out) : ∀ c ∈ cfgs, ¬Refused c := by
  intro c hc
  rw [(build_ok h).1] at hc
  obtain ⟨geo, -, rfl⟩ := List.mem_map.mp hc
  exact not_refused geo.accepted

end

theorem build_refused {cfgs : List CacheConfig} {what : String}
    (h : build order make cfgs = .error (.invalidArgument what)) : ∃ c ∈ cfgs, Refused c := by
  induction cfgs with
  | nil => cases h
  | cons cfg cfgs ih =>
    cases hbelow : build order make cfgs with
    | error err =>
      obtain rfl := Except.error.inj ((build_below hbelow).symm.trans h)
      obtain ⟨c, hc, hrefused⟩ := ih hbelow
      exact ⟨c, List.mem_cons_of_mem _ hc, hrefused⟩
    | ok out =>
      cases hnew : Layout.new cfg with
      | error err =>
        obtain rfl := Except.error.inj ((build_error hbelow hnew).symm.trans h)
        exact ⟨cfg, List.mem_cons_self, refused hnew⟩
      | ok l =>
        obtain ⟨out', hout⟩ := build_taken hbelow hnew
        rw [hout] at h
        cases h

theorem build_divides_iff (order : HashOrder UInt64 ℕ) (make : Chain.Policies ρ) (cfgs : List CacheConfig) :
    build order make cfgs = .error .divisionByZero ↔ DividesAt cfgs := by
  induction cfgs with
  | nil => exact iff_of_false (by simp [build]) id
  | cons cfg cfgs ih =>
    constructor
    · intro h
      cases hbelow : build order make cfgs with
      | error err =>
        obtain rfl := Except.error.inj ((build_below hbelow).symm.trans h)
        exact .inl (ih.mp hbelow)
      | ok out =>
        cases hnew : Layout.new cfg with
        | error err =>
          obtain rfl := Except.error.inj ((build_error hbelow hnew).symm.trans h)
          exact .inr ⟨(dividesByZero_iff cfg).mp hnew, build_not_refused hbelow⟩
        | ok l =>
          obtain ⟨out', hout⟩ := build_taken hbelow hnew
          rw [hout] at h
          cases h
    · rintro (h | ⟨hzero, hnot⟩)
      · exact build_below (ih.mpr h)
      · cases hbelow : build order make cfgs with
        | error err =>
          cases err with
          | divisionByZero => exact build_below hbelow
          | invalidArgument what =>
            obtain ⟨c, hc, hrefused⟩ := build_refused hbelow
            exact absurd hrefused (hnot c hc)
        | ok out => exact build_error hbelow ((dividesByZero_iff cfg).mpr hzero)

theorem new_divides_iff (order : HashOrder UInt64 ℕ) (make : Chain.Policies ρ) (cfgs : List CacheConfig)
    (memTime : ℚ) :
    new order make cfgs memTime = .error .divisionByZero ↔ DividesAt cfgs := by
  rw [← build_divides_iff order make, new]
  cases build order make cfgs with
  | error err => simp
  | ok out =>
    obtain ⟨_ | ⟨l1, lower⟩, levels⟩ := out <;> simp

end CacheSim.CacheHierarchy
