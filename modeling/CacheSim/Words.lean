import Mathlib

namespace CacheSim.Words

theorem exists_pow_of_and_sub_one {x : UInt64} (hx : x ≠ 0) (h : x &&& (x - 1) = 0) :
    ∃ k < 64, x.toNat = 2 ^ k := by
  have hpos : x.toNat ≠ 0 := fun h0 => hx (UInt64.toNat_inj.mp h0)
  have hle : (1 : UInt64) ≤ x := by
    rw [UInt64.le_iff_toNat_le]
    exact Nat.one_le_iff_ne_zero.mpr hpos
  have hand : x.toNat &&& (x.toNat - 1) = 0 := by
    have h0 := congrArg UInt64.toNat h
    rwa [UInt64.toNat_and, UInt64.toNat_sub_of_le _ _ hle] at h0
  obtain ⟨k, hk⟩ := Nat.ne_zero_and_sub_one_eq_zero_iff_isPowerOfTwo.mp ⟨hpos, hand⟩
  refine ⟨k, ?_, hk⟩
  have hlt := x.toNat_lt
  rw [hk] at hlt
  exact (Nat.pow_lt_pow_iff_right (by omega)).mp hlt

theorem and_sub_one_of_pow {x : UInt64} {k : ℕ} (h : x.toNat = 2 ^ k) :
    x ≠ 0 ∧ x &&& (x - 1) = 0 := by
  have hpos : x.toNat ≠ 0 := by rw [h]; positivity
  have hle : (1 : UInt64) ≤ x := by
    rw [UInt64.le_iff_toNat_le]
    exact Nat.one_le_iff_ne_zero.mpr hpos
  refine ⟨fun h0 => hpos (by rw [h0]; rfl), UInt64.toNat_inj.mp ?_⟩
  rw [UInt64.toNat_and, UInt64.toNat_sub_of_le _ _ hle]
  exact (Nat.ne_zero_and_sub_one_eq_zero_iff_isPowerOfTwo.mpr ⟨k, h⟩).2

theorem toNat_mask {m : UInt64} {k : ℕ} (hm : m.toNat = 2 ^ k) (x : UInt64) :
    (x &&& (m - 1)).toNat = x.toNat % 2 ^ k := by
  have hle : (1 : UInt64) ≤ m := by
    rw [UInt64.le_iff_toNat_le, hm]
    exact Nat.one_le_two_pow
  rw [UInt64.toNat_and, UInt64.toNat_sub_of_le _ _ hle, hm]
  exact Nat.and_two_pow_sub_one_eq_mod _ _

theorem testBit_clear (x m : UInt64) (i : ℕ) :
    (x &&& ~~~m).toNat.testBit i = (x.toNat.testBit i && !m.toNat.testBit i) := by
  simp only [← UInt64.toNat_toBitVec, BitVec.testBit_toNat, UInt64.toBitVec_and, UInt64.toBitVec_not,
    BitVec.getLsbD_and, BitVec.getLsbD_not]
  cases hx : x.toBitVec.getLsbD i with
  | false => rfl
  | true => simp [BitVec.lt_of_getLsbD hx]

theorem toNat_clear {m : UInt64} {k : ℕ} (hm : m.toNat = 2 ^ k) (x : UInt64) :
    (x &&& ~~~(m - 1)).toNat = x.toNat / 2 ^ k * 2 ^ k := by
  have hle : (1 : UInt64) ≤ m := by
    rw [UInt64.le_iff_toNat_le, hm]
    exact Nat.one_le_two_pow
  have hmask : (m - 1).toNat = 2 ^ k - 1 := by
    rw [UInt64.toNat_sub_of_le _ _ hle, hm]
    rfl
  apply Nat.eq_of_testBit_eq
  intro i
  rw [testBit_clear, hmask, Nat.testBit_two_pow_sub_one, Nat.testBit_mul_two_pow, Nat.testBit_div_two_pow]
  by_cases hk : k ≤ i
  · have hi : i - k + k = i := by omega
    simp [hk, hi, not_lt.mpr hk]
  · simp [hk, not_le.mp hk]

theorem toNat_shiftRight {n : UInt64} (hn : n.toNat < 64) (x : UInt64) :
    (x >>> n).toNat = x.toNat / 2 ^ n.toNat := by
  rw [UInt64.toNat_shiftRight, Nat.mod_eq_of_lt hn, Nat.shiftRight_eq_div_pow]

theorem toNat_shiftLeft {n x : UInt64} (hn : n.toNat < 64) (hx : x.toNat * 2 ^ n.toNat < 2 ^ 64) :
    (x <<< n).toNat = x.toNat * 2 ^ n.toNat := by
  rw [UInt64.toNat_shiftLeft, Nat.mod_eq_of_lt hn, Nat.shiftLeft_eq, Nat.mod_eq_of_lt hx]

theorem toNat_join {n hi lo : UInt64} (hn : n.toNat < 64) (hlo : lo.toNat < 2 ^ n.toNat)
    (hhi : hi.toNat * 2 ^ n.toNat < 2 ^ 64) :
    ((hi <<< n) ||| lo).toNat = hi.toNat * 2 ^ n.toNat + lo.toNat := by
  rw [UInt64.toNat_or, toNat_shiftLeft hn hhi, ← Nat.shiftLeft_eq, Nat.shiftLeft_add_eq_or_of_lt hlo]

theorem div_pow_eq_of_le {a b o k : ℕ} (hok : o ≤ k) (h : a / 2 ^ o = b / 2 ^ o) :
    a / 2 ^ k = b / 2 ^ k := by
  obtain ⟨j, rfl⟩ := Nat.exists_eq_add_of_le hok
  rw [pow_add, ← Nat.div_div_eq_div_mul, ← Nat.div_div_eq_div_mul, h]

theorem mod_pow_eq_of_le {a b i k : ℕ} (hik : i ≤ k) (h : a % 2 ^ k = b % 2 ^ k) :
    a % 2 ^ i = b % 2 ^ i := by
  have hdvd : 2 ^ i ∣ 2 ^ k := Nat.pow_dvd_pow 2 hik
  rw [← Nat.mod_mod_of_dvd a hdvd, h, Nat.mod_mod_of_dvd b hdvd]

theorem add_mod_inj {m x y q : ℕ} (hx : x < m) (hy : y < m) (h : (x + q) % m = (y + q) % m) :
    x = y := by
  have hmod : x ≡ y [MOD m] := Nat.ModEq.add_right_cancel' q h
  rwa [Nat.ModEq, Nat.mod_eq_of_lt hx, Nat.mod_eq_of_lt hy] at hmod

end CacheSim.Words
