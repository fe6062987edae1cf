import CacheSim.Config
import CacheSim.Words

namespace CacheSim

open Words

/-- The loop `while (x > 1) { x >>= 1; ++r; }`; `log2u_toNat` shows that 64 rounds end it. -/
def log2uLoop : ℕ → UInt64 → UInt64 → UInt64
  | 0, _, r => r
  | fuel + 1, x, r => if 1 < x then log2uLoop fuel (x >>> 1) (r + 1) else r

def log2u (x : UInt64) : UInt64 := log2uLoop 64 x 0

def isPow2 (x : UInt64) : Bool := x != 0 && (x &&& (x - 1)) == 0

/-- How a constructor ends other than by returning; a zero divisor is undefined behaviour in the source. -/
inductive CtorError where
  | invalidArgument (what : String)
  | divisionByZero
  deriving DecidableEq, Repr

structure Layout where
  cfg : CacheConfig
  numSets : UInt64
  offsetBits : UInt64
  indexBits : UInt64
  tagBits : UInt64
  deriving DecidableEq

def Layout.new (cfg : CacheConfig) : Except CtorError Layout :=
  if cfg.blockSize = 0 ∨ cfg.associativity = 0 ∨ cfg.sizeBytes = 0 then
    .error (.invalidArgument "cache size/block/associativity must be > 0")
  else if isPow2 cfg.blockSize = false then
    .error (.invalidArgument "blockSize must be a power of two")
  else if cfg.blockSize * cfg.associativity = 0 then
    -- the product wraps: the remainder below divides by zero
    .error .divisionByZero
  else if cfg.sizeBytes % (cfg.blockSize * cfg.associativity) ≠ 0 then
    .error (.invalidArgument "size must be a multiple of block * associativity")
  else
    let numSets := cfg.sizeBytes / (cfg.blockSize * cfg.associativity)
    if isPow2 numSets = false then
      .error (.invalidArgument "numSets must be a power of two")
    else
      let offsetBits := log2u cfg.blockSize
      let indexBits := log2u numSets
      .ok ⟨cfg, numSets, offsetBits, indexBits, cfg.addrWidth - indexBits - offsetBits⟩

structure Geometry extends Layout where
  accepted : Layout.new cfg = .ok toLayout

theorem log2uLoop_toNat (fuel : ℕ) (x r : UInt64) (hx : x.toNat < 2 ^ fuel)
    (hr : r.toNat + fuel ≤ 64) : (log2uLoop fuel x r).toNat = r.toNat + x.toNat.log2 := by
  induction fuel generalizing x r with
  | zero =>
    have h0 : x.toNat = 0 := by simpa using hx
    simp [log2uLoop, h0]
  | succ fuel ih =>
    unfold log2uLoop
    have hlt : (1 < x) ↔ 1 < x.toNat := by rw [UInt64.lt_iff_toNat_lt]; rfl
    split_ifs with h
    · have hsh : (x >>> 1).toNat = x.toNat / 2 := toNat_shiftRight (n := 1) (by decide) x
      have hr1 : (r + 1).toNat = r.toNat + 1 := by
        rw [UInt64.toNat_add]
        have : (1 : UInt64).toNat = 1 := rfl
        omega
      rw [ih (x >>> 1) (r + 1) (by rw [hsh]; omega) (by omega), hsh, hr1]
      have h2 : 2 ≤ x.toNat := hlt.mp h
      rw [Nat.log2_def x.toNat, if_pos h2]
      omega
    · have h1 : x.toNat < 2 := by have := mt hlt.mpr h; omega
      rw [Nat.log2_def, if_neg (by omega)]
      rfl

theorem log2u_toNat (x : UInt64) : (log2u x).toNat = x.toNat.log2 := by
  have h := log2uLoop_toNat 64 x 0 x.toNat_lt (by decide)
  rw [log2u, h]
  exact Nat.zero_add _

theorem log2u_pow {x : UInt64} {k : ℕ} (h : x.toNat = 2 ^ k) : (log2u x).toNat = k := by
  rw [log2u_toNat, h, Nat.log2_two_pow]

theorem isPow2_iff (x : UInt64) : isPow2 x = true ↔ ∃ k < 64, x.toNat = 2 ^ k := by
  simp only [isPow2, Bool.and_eq_true, bne_iff_ne, ne_eq, beq_iff_eq]
  constructor
  · rintro ⟨h0, h⟩
    exact exists_pow_of_and_sub_one h0 h
  · rintro ⟨k, -, h⟩
    exact and_sub_one_of_pow h

theorem Layout.new_ok {cfg : CacheConfig} {l : Layout} (h : Layout.new cfg = .ok l) :
    cfg.associativity ≠ 0 ∧ isPow2 cfg.blockSize = true ∧ cfg.blockSize * cfg.associativity ≠ 0 ∧
      cfg.sizeBytes % (cfg.blockSize * cfg.associativity) = 0 ∧ isPow2 l.numSets = true ∧
      l = ⟨cfg, cfg.sizeBytes / (cfg.blockSize * cfg.associativity), log2u cfg.blockSize,
        log2u l.numSets, cfg.addrWidth - log2u l.numSets - log2u cfg.blockSize⟩ := by
  unfold Layout.new at h
  dsimp only at h
  split_ifs at h with h0 h1 h2 h3 h4
  obtain rfl := Except.ok.inj h
  simp only [not_or] at h0
  refine ⟨h0.2.1, by simpa using h1, h2, by simpa using h3, by simpa using h4, rfl⟩

namespace Geometry

variable (geo : Geometry)

def sets : ℕ := geo.numSets.toNat

def ways : ℕ := geo.cfg.associativity.toNat

theorem blockSize_toNat : geo.cfg.blockSize.toNat = 2 ^ geo.offsetBits.toNat := by
  obtain ⟨-, hb, -, -, -, hl⟩ := Layout.new_ok geo.accepted
  obtain ⟨k, -, hk⟩ := (isPow2_iff _).mp hb
  have ho : geo.offsetBits = log2u geo.cfg.blockSize := congrArg Layout.offsetBits hl
  rw [ho, log2u_pow hk, hk]

theorem numSets_toNat : geo.numSets.toNat = 2 ^ geo.indexBits.toNat := by
  obtain ⟨-, -, -, -, hn, hl⟩ := Layout.new_ok geo.accepted
  obtain ⟨k, -, hk⟩ := (isPow2_iff _).mp hn
  have hi : geo.indexBits = log2u geo.numSets := congrArg Layout.indexBits hl
  rw [hi, log2u_pow hk, hk]

theorem ways_pos : 0 < geo.ways := by
  obtain ⟨ha, -⟩ := Layout.new_ok geo.accepted
  exact Nat.pos_of_ne_zero fun h => ha (UInt64.toNat_inj.mp h)

theorem sets_pos : 0 < geo.sets := by
  rw [sets, numSets_toNat]
  positivity

instance : NeZero geo.ways := ⟨geo.ways_pos.ne'⟩

instance : NeZero geo.sets := ⟨geo.sets_pos.ne'⟩

theorem blockSize_le_product :
    geo.cfg.blockSize.toNat ≤ (geo.cfg.blockSize * geo.cfg.associativity).toNat := by
  obtain ⟨-, hb, hp, -⟩ := Layout.new_ok geo.accepted
  obtain ⟨k, hk64, hk⟩ := (isPow2_iff _).mp hb
  have hdvd : geo.cfg.blockSize.toNat ∣ (geo.cfg.blockSize * geo.cfg.associativity).toNat := by
    rw [UInt64.toNat_mul]
    apply (Nat.dvd_mod_iff _).mpr (Nat.dvd_mul_right _ _)
    rw [hk]
    exact Nat.pow_dvd_pow 2 hk64.le
  exact Nat.le_of_dvd (Nat.pos_of_ne_zero fun h => hp (UInt64.toNat_inj.mp h)) hdvd

theorem sets_mul_blockSize_le : geo.sets * geo.cfg.blockSize.toNat ≤ geo.cfg.sizeBytes.toNat := by
  obtain ⟨-, -, -, -, -, hl⟩ := Layout.new_ok geo.accepted
  have hn : geo.numSets = geo.cfg.sizeBytes / (geo.cfg.blockSize * geo.cfg.associativity) :=
    congrArg Layout.numSets hl
  rw [sets, hn, UInt64.toNat_div]
  calc _ ≤ geo.cfg.sizeBytes.toNat / (geo.cfg.blockSize * geo.cfg.associativity).toNat *
        (geo.cfg.blockSize * geo.cfg.associativity).toNat :=
        Nat.mul_le_mul_left _ geo.blockSize_le_product
    _ ≤ _ := Nat.div_mul_le_self _ _

theorem bits_lt : geo.offsetBits.toNat + geo.indexBits.toNat < 64 := by
  have h := geo.sets_mul_blockSize_le
  rw [sets, numSets_toNat, blockSize_toNat, ← pow_add] at h
  have hlt := h.trans_lt geo.cfg.sizeBytes.toNat_lt
  have := (Nat.pow_lt_pow_iff_right (a := 2) (by omega)).mp hlt
  omega

def totalLines : ℕ := (geo.cfg.sizeBytes / geo.cfg.blockSize).toNat

theorem totalLines_pos : 0 < geo.totalLines := by
  have h := geo.sets_mul_blockSize_le
  have hb : 0 < geo.cfg.blockSize.toNat := by rw [blockSize_toNat]; positivity
  rw [totalLines, UInt64.toNat_div]
  exact Nat.div_pos ((Nat.le_mul_of_pos_left _ geo.sets_pos).trans h) hb

structure Decoded where
  offset : UInt64
  blockAddr : UInt64
  setIndex : UInt64
  tag : UInt64
  deriving DecidableEq, Repr

def decode (addr : UInt64) : Decoded :=
  let blockAddr := addr >>> geo.offsetBits
  { offset := addr &&& (geo.cfg.blockSize - 1)
    blockAddr := blockAddr
    setIndex := blockAddr &&& (geo.numSets - 1)
    tag := blockAddr >>> geo.indexBits }

def victimAddr (tag setIndex : UInt64) : UInt64 :=
  ((tag <<< geo.indexBits) ||| setIndex) <<< geo.offsetBits

def blockOf (addr : UInt64) : UInt64 := (geo.decode addr).blockAddr

def tagOf (addr : UInt64) : UInt64 := (geo.decode addr).tag

theorem blockOf_toNat (a : UInt64) : (geo.blockOf a).toNat = a.toNat / 2 ^ geo.offsetBits.toNat :=
  toNat_shiftRight (by have := geo.bits_lt; omega) a

theorem setIndex_toNat (a : UInt64) :
    (geo.decode a).setIndex.toNat = (geo.blockOf a).toNat % 2 ^ geo.indexBits.toNat :=
  toNat_mask geo.numSets_toNat _

theorem tagOf_toNat (a : UInt64) :
    (geo.tagOf a).toNat = (geo.blockOf a).toNat / 2 ^ geo.indexBits.toNat :=
  toNat_shiftRight (by have := geo.bits_lt; omega) _

theorem offset_toNat (a : UInt64) :
    (geo.decode a).offset.toNat = a.toNat % 2 ^ geo.offsetBits.toNat :=
  toNat_mask geo.blockSize_toNat _

theorem setIndex_lt (a : UInt64) : (geo.decode a).setIndex.toNat < geo.sets := by
  rw [setIndex_toNat, sets, numSets_toNat]
  exact Nat.mod_lt _ (by positivity)

def setOf (addr : UInt64) : Fin geo.sets := ⟨(geo.decode addr).setIndex.toNat, geo.setIndex_lt addr⟩

def setOfBlock (b : UInt64) : Fin geo.sets := ⟨b.toNat % geo.sets, Nat.mod_lt _ geo.sets_pos⟩

theorem setOf_eq (a : UInt64) : geo.setOf a = geo.setOfBlock (geo.blockOf a) := by
  apply Fin.ext
  simp only [setOf, setOfBlock, setIndex_toNat, sets, numSets_toNat]

theorem blockOf_eq_iff (a b : UInt64) :
    geo.blockOf a = geo.blockOf b ↔ geo.setOf a = geo.setOf b ∧ geo.tagOf a = geo.tagOf b := by
  constructor
  · intro h
    exact ⟨Fin.ext (by simp only [setOf, setIndex_toNat, h]),
      UInt64.toNat_inj.mp (by simp only [tagOf_toNat, h])⟩
  · rintro ⟨hs, ht⟩
    have hs' : (geo.blockOf a).toNat % 2 ^ geo.indexBits.toNat =
        (geo.blockOf b).toNat % 2 ^ geo.indexBits.toNat := by
      simpa only [setOf, setIndex_toNat] using congrArg Fin.val hs
    have ht' : (geo.blockOf a).toNat / 2 ^ geo.indexBits.toNat =
        (geo.blockOf b).toNat / 2 ^ geo.indexBits.toNat := by
      simpa only [tagOf_toNat] using congrArg UInt64.toNat ht
    apply UInt64.toNat_inj.mp
    rw [← Nat.div_add_mod' (geo.blockOf a).toNat (2 ^ geo.indexBits.toNat), ht', hs',
      Nat.div_add_mod']

def blockAt (tag setIndex : UInt64) : UInt64 := (tag <<< geo.indexBits) ||| setIndex

theorem blockAt_tagOf (a : UInt64) :
    geo.blockAt (geo.tagOf a) (geo.decode a).setIndex = geo.blockOf a := by
  have hbits := geo.bits_lt
  have hlt := (geo.blockOf a).toNat_lt
  have hblock : (geo.tagOf a).toNat * 2 ^ geo.indexBits.toNat +
      (geo.decode a).setIndex.toNat = (geo.blockOf a).toNat := by
    rw [tagOf_toNat, setIndex_toNat]
    exact Nat.div_add_mod' _ _
  apply UInt64.toNat_inj.mp
  rw [← hblock]
  apply toNat_join (by omega)
  · have := geo.setIndex_lt a
    rwa [sets, numSets_toNat] at this
  · omega

theorem blockAt_setOf (a : UInt64) :
    geo.blockAt (geo.tagOf a) (UInt64.ofNat (geo.setOf a).val) = geo.blockOf a := by
  have hindex : UInt64.ofNat (geo.setOf a).val = (geo.decode a).setIndex := UInt64.ofNat_toNat
  rw [hindex, blockAt_tagOf]

variable {geo} in
theorem setIndex_congr {a b : UInt64} (h : geo.setOf a = geo.setOf b) :
    (geo.decode a).setIndex = (geo.decode b).setIndex := by
  have hval := congrArg Fin.val h
  exact UInt64.toNat_inj.mp hval

theorem victimAddr_toNat (a : UInt64) :
    (geo.victimAddr (geo.tagOf a) (geo.decode a).setIndex).toNat =
      a.toNat / 2 ^ geo.offsetBits.toNat * 2 ^ geo.offsetBits.toNat := by
  have hbits := geo.bits_lt
  have hlt := a.toNat_lt
  have hb : (geo.blockOf a).toNat * 2 ^ geo.offsetBits.toNat ≤ a.toNat := by
    rw [blockOf_toNat]
    exact Nat.div_mul_le_self _ _
  have hvictim : geo.victimAddr (geo.tagOf a) (geo.decode a).setIndex =
      geo.blockOf a <<< geo.offsetBits := by
    rw [← blockAt_tagOf]
    rfl
  rw [hvictim, toNat_shiftLeft (by omega) (by omega), blockOf_toNat]

theorem blockOf_victimAddr (a : UInt64) :
    geo.blockOf (geo.victimAddr (geo.tagOf a) (geo.decode a).setIndex) = geo.blockOf a := by
  apply UInt64.toNat_inj.mp
  rw [blockOf_toNat, blockOf_toNat, victimAddr_toNat, Nat.mul_div_cancel _ (by positivity)]

theorem blockOf_nested {geo₁ geo₂ : Geometry} (h : geo₁.offsetBits ≤ geo₂.offsetBits) {a b : UInt64}
    (hab : geo₁.blockOf a = geo₁.blockOf b) : geo₂.blockOf a = geo₂.blockOf b := by
  apply UInt64.toNat_inj.mp
  have h1 := congrArg UInt64.toNat hab
  simp only [blockOf_toNat] at h1 ⊢
  exact div_pow_eq_of_le (UInt64.le_iff_toNat_le.mp h) h1

theorem exists_sibling {geo₁ geo₂ : Geometry} (h : ¬geo₁.offsetBits ≤ geo₂.offsetBits) (a : UInt64) :
    ∃ x, geo₁.blockOf x = geo₁.blockOf a ∧ geo₂.blockOf x ≠ geo₂.blockOf a := by
  have hlt : geo₂.offsetBits.toNat < geo₁.offsetBits.toNat := by
    rwa [UInt64.le_iff_toNat_le, not_le] at h
  have hx : (a ^^^ geo₂.cfg.blockSize).toNat = a.toNat ^^^ 2 ^ geo₂.offsetBits.toNat := by
    rw [UInt64.toNat_xor, blockSize_toNat]
  refine ⟨a ^^^ geo₂.cfg.blockSize, ?_, ?_⟩
  · apply UInt64.toNat_inj.mp
    rw [blockOf_toNat, blockOf_toNat, hx, Nat.xor_div_two_pow,
      Nat.div_eq_of_lt (Nat.pow_lt_pow_right (by omega) hlt), Nat.xor_zero]
  · intro heq
    have hnat := congrArg UInt64.toNat heq
    rw [blockOf_toNat, blockOf_toNat, hx, Nat.xor_div_two_pow, Nat.div_self (by positivity)] at hnat
    have hone := congrArg (a.toNat / 2 ^ geo₂.offsetBits.toNat ^^^ ·) hnat
    simp only [← Nat.xor_assoc, Nat.xor_self, Nat.zero_xor] at hone
    omega

theorem blockSize_le_iff (geo₁ geo₂ : Geometry) :
    geo₁.cfg.blockSize ≤ geo₂.cfg.blockSize ↔ geo₁.offsetBits ≤ geo₂.offsetBits := by
  rw [UInt64.le_iff_toNat_le, UInt64.le_iff_toNat_le, blockSize_toNat, blockSize_toNat]
  exact Nat.pow_le_pow_iff_right (by omega)

end Geometry

def golden : CacheConfig := { sizeBytes := 16, blockSize := 4 }

def goldenGeometry : Geometry := ⟨⟨golden, 4, 2, 2, 60⟩, rfl⟩

def twoWayGeometry : Geometry :=
  ⟨⟨{ sizeBytes := 32, blockSize := 4, associativity := 2 }, 4, 2, 2, 60⟩, rfl⟩

def wideGeometry : Geometry := ⟨⟨{ sizeBytes := 32, blockSize := 8 }, 4, 3, 2, 59⟩, rfl⟩

def pair (allocPolicy : AllocPolicy) : CacheConfig :=
  { sizeBytes := 8, blockSize := 4, associativity := 2, allocPolicy := allocPolicy, classify3C := true }

def pairGeometry (allocPolicy : AllocPolicy) : Geometry :=
  ⟨⟨pair allocPolicy, 1, 2, 0, 62⟩, by cases allocPolicy <;> rfl⟩

end CacheSim
