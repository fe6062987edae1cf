import Mathlib

namespace CacheSim.Stride

open Finset

theorem card_residue (b K : ℕ) {S : ℕ} (hS : 0 < S) (s : Fin S) :
    ((range K).filter fun i => (b + i) % S = s.val).card =
      K / S + if (s.val + (S - b % S)) % S < K % S then 1 else 0 := by
  have hclass : ∀ i, (b + i) % S = s.val ↔ i ≡ s.val + (S - b % S) [MOD S] := by
    intro i
    have hb := Nat.mod_lt b hS
    have hsplit : b + (S - b % S) ≡ 0 [MOD S] := by
      have hdiv := Nat.mod_add_div b S
      have heq : b + (S - b % S) = S * (b / S + 1) := by
        rw [Nat.mul_add]
        omega
      rw [heq, Nat.modEq_zero_iff_dvd]
      exact Nat.dvd_mul_right _ _
    constructor
    · intro h
      apply Nat.ModEq.add_left_cancel' b
      calc b + i ≡ s.val [MOD S] := by rw [Nat.ModEq, h, Nat.mod_eq_of_lt s.isLt]
        _ ≡ s.val + (b + (S - b % S)) [MOD S] := (hsplit.symm.add_left s.val)
        _ = b + (s.val + (S - b % S)) := by omega
    · intro h
      have hsum : b + i ≡ s.val [MOD S] := by
        calc b + i ≡ b + (s.val + (S - b % S)) [MOD S] := h.add_left b
          _ = s.val + (b + (S - b % S)) := by omega
          _ ≡ s.val [MOD S] := hsplit.add_left s.val
      rwa [Nat.ModEq, Nat.mod_eq_of_lt s.isLt] at hsum
  rw [← Nat.count_eq_card_filter_range]
  simp only [hclass]
  exact Nat.count_modEq_card K hS _

theorem sum_residues (b K : ℕ) {S : ℕ} (hS : 0 < S) (f : ℕ → ℕ) :
    ∑ s : Fin S, f ((range K).filter fun i => (b + i) % S = s.val).card =
      K % S * f (K / S + 1) + (S - K % S) * f (K / S) := by
  have hrest : K % S ≤ S := (Nat.mod_lt K hS).le
  have : NeZero S := ⟨hS.ne'⟩
  simp only [card_residue b K hS]
  have hturn : ∀ s : Fin S, (s.val + (S - b % S)) % S = (s + Fin.ofNat S (S - b % S)).val := by
    intro s
    rw [Fin.val_add, Fin.val_ofNat, Nat.add_mod_mod]
  have hshift := Equiv.sum_comp (Equiv.addRight (Fin.ofNat S (S - b % S)))
    fun s : Fin S => f (K / S + if s.val < K % S then 1 else 0)
  simp only [Equiv.coe_addRight] at hshift
  refine Eq.trans (Finset.sum_congr rfl fun s _ => ?_) (hshift.trans ?_)
  · rw [hturn s]
    rfl
  rw [Fin.sum_univ_eq_sum_range fun s => f (K / S + if s < K % S then 1 else 0),
    ← Finset.sum_range_add_sum_Ico _ hrest]
  congr 1
  · rw [Finset.sum_congr rfl fun s hs => by rw [if_pos (Finset.mem_range.mp hs)]]
    simp
  · rw [Finset.sum_congr rfl fun s hs => by rw [if_neg (not_lt.mpr (Finset.mem_Ico.mp hs).1)]]
    simp

theorem image_climb {f : ℕ → ℕ} (hmono : ∀ i, f i ≤ f (i + 1)) (hstep : ∀ i, f (i + 1) ≤ f i + 1) (n : ℕ) :
    (range (n + 1)).image f = Icc (f 0) (f n) := by
  induction n with
  | zero => simp
  | succ n ih =>
    rw [range_add_one, image_insert, ih]
    have hfirst : f 0 ≤ f n := monotone_nat_of_le_succ hmono (Nat.zero_le n)
    have h1 := hmono n
    have h2 := hstep n
    ext x
    simp only [mem_insert, mem_Icc]
    omega

end CacheSim.Stride
