import Mathlib.Algebra.BigOperators.Group.Finset.Basic
import Mathlib.Tactic

/-!
# The number of ones in binary

* `weight` — the number of ones in the binary notation of a number;
* `weight_add_le` — a sum has at most as many ones as its summands together;
* `weight_sum_le_card` — **PROVED**: a sum of powers of two has at most as many ones as summands;
* `weight_pred_two_pow` — one less than a power of two has only ones.

Nothing here is about a particular program.
-/

namespace Axle.Lib.BinaryWeight

open Finset

/-- The number of ones in binary. -/
def weight (n : ℕ) : ℕ :=
  if n = 0 then 0 else weight (n / 2) + n % 2
decreasing_by omega

@[simp] theorem weight_zero : weight 0 = 0 := by
  rw [weight, if_pos rfl]

theorem weight_eq (n : ℕ) : weight n = weight (n / 2) + n % 2 := by
  by_cases hn : n = 0
  · subst hn
    rfl
  · rw [weight, if_neg hn]

@[simp] theorem weight_two_mul (n : ℕ) : weight (2 * n) = weight n := by
  rw [weight_eq, show 2 * n / 2 = n by omega, show 2 * n % 2 = 0 by omega, Nat.add_zero]

theorem weight_two_mul_add_one (n : ℕ) : weight (2 * n + 1) = weight n + 1 := by
  rw [weight_eq, show (2 * n + 1) / 2 = n by omega, show (2 * n + 1) % 2 = 1 by omega]

/-- A carry only loses ones. -/
theorem weight_add_one_le (n : ℕ) : weight (n + 1) ≤ weight n + 1 := by
  induction n using Nat.strong_induction_on with
  | _ n ih =>
    obtain ⟨m, rfl | rfl⟩ := Nat.even_or_odd' n
    · rw [weight_two_mul_add_one, weight_two_mul]
    · rw [show 2 * m + 1 + 1 = 2 * (m + 1) by omega, weight_two_mul, weight_two_mul_add_one]
      exact (ih m (by omega)).trans (Nat.le_succ _)

theorem weight_add_le (a : ℕ) : ∀ b, weight (a + b) ≤ weight a + weight b := by
  induction a using Nat.strong_induction_on with
  | _ a ih =>
    intro b
    obtain ⟨m, rfl | rfl⟩ := Nat.even_or_odd' a <;> obtain ⟨n, rfl | rfl⟩ := Nat.even_or_odd' b
    · by_cases hm : m = 0
      · simp [hm]
      · rw [← Nat.mul_add, weight_two_mul, weight_two_mul, weight_two_mul]
        exact ih m (by omega) n
    · by_cases hm : m = 0
      · simp [hm]
      · have hsum := ih m (by omega) n
        rw [← Nat.add_assoc, ← Nat.mul_add, weight_two_mul_add_one, weight_two_mul,
          weight_two_mul_add_one]
        omega
    · have hsum := ih m (by omega) n
      rw [show 2 * m + 1 + 2 * n = 2 * (m + n) + 1 by omega, weight_two_mul_add_one,
        weight_two_mul_add_one, weight_two_mul]
      omega
    · have hsum := ih m (by omega) n
      have hcarry := weight_add_one_le (m + n)
      rw [show 2 * m + 1 + (2 * n + 1) = 2 * (m + n + 1) by omega, weight_two_mul,
        weight_two_mul_add_one, weight_two_mul_add_one]
      omega

theorem weight_two_pow (k : ℕ) : weight (2 ^ k) = 1 := by
  induction k with
  | zero => rw [weight_eq]; simp
  | succ k ih => rw [Nat.pow_succ', weight_two_mul, ih]

theorem weight_pred_two_pow (k : ℕ) : weight (2 ^ k - 1) = k := by
  induction k with
  | zero => simp
  | succ k ih =>
    have hpos : 0 < 2 ^ k := Nat.two_pow_pos k
    rw [show 2 ^ (k + 1) - 1 = 2 * (2 ^ k - 1) + 1 by omega,
      weight_two_mul_add_one, ih]

/-- **A sum of powers of two has at most as many ones as summands (proved).**  Summands that are
zero do not count. -/
theorem weight_sum_le_card {ι : Type*} [DecidableEq ι] (s : Finset ι) (present : ι → Prop)
    [DecidablePred present] (f : ι → ℕ) (hpow : ∀ i ∈ s, present i → ∃ k, f i = 2 ^ k) :
    weight (∑ i ∈ s, if present i then f i else 0) ≤ ∑ i ∈ s, if present i then 1 else 0 := by
  induction s using Finset.induction_on with
  | empty => simp
  | insert i s hi ih =>
    rw [sum_insert hi, sum_insert hi]
    have hrest := ih fun j hj => hpow j (mem_insert_of_mem hj)
    refine (weight_add_le _ _).trans (Nat.add_le_add ?_ hrest)
    by_cases hpresent : present i
    · obtain ⟨k, hk⟩ := hpow i (mem_insert_self i s) hpresent
      rw [if_pos hpresent, if_pos hpresent, hk, weight_two_pow]
    · rw [if_neg hpresent, if_neg hpresent, weight_zero]

end Axle.Lib.BinaryWeight
