import Mathlib.Data.Nat.Digits.Defs
import Mathlib.Tactic.Ring

/-!
# Chains of carries

Numbers are added and subtracted digit by digit from the least significant place, with a carry or a
borrow from each place to the next one.

* `Chain` — the places of one operation; a law says what holds at each place;
* `addsAt`, `subtractsAt` — the laws of addition and subtraction, in any base;
* `Chain.sum`, `Chain.difference` — the result and the last carry, from the numbers.
-/

namespace Axle.Lib.CarryChain

/-- `law c x y z c'` says that the digit `z` and the carry `c'` come from the digits `x` and `y` and
the carry `c`. -/
abbrev PlaceLaw := ℕ → ℕ → ℕ → ℕ → ℕ → Prop

/-- `Chain law c xs ys zs c'`: the carry `c` comes in, the digits `zs` are made, `c'` goes out. -/
inductive Chain (law : PlaceLaw) : ℕ → List ℕ → List ℕ → List ℕ → ℕ → Prop
  | nil {c : ℕ} : Chain law c [] [] [] c
  | cons {c x y z c' c'' : ℕ} {xs ys zs : List ℕ} : law c x y z c' →
      Chain law c' xs ys zs c'' → Chain law c (x :: xs) (y :: ys) (z :: zs) c''

def addsAt (b : ℕ) : PlaceLaw := fun c x y z c' => z + b * c' = x + y + c

def subtractsAt (b : ℕ) : PlaceLaw := fun c x y z c' => z + y + c = x + b * c'

variable {b c c' : ℕ} {xs ys zs : List ℕ}

theorem Chain.length {law : PlaceLaw} (h : Chain law c xs ys zs c') : zs.length = xs.length := by
  induction h with
  | nil => rfl
  | cons _ _ ih => exact congrArg (· + 1) ih

/-- **The places make up the numbers.** -/
theorem Chain.add_value (h : Chain (addsAt b) c xs ys zs c') :
    Nat.ofDigits b zs + b ^ xs.length * c' = Nat.ofDigits b xs + Nat.ofDigits b ys + c := by
  induction h with
  | nil => simp
  | @cons c x y z c₁ c₂ xs ys zs hplace _ ih =>
    simp only [Nat.ofDigits_cons, List.length_cons]
    calc z + b * Nat.ofDigits b zs + b ^ (xs.length + 1) * c₂
        = z + b * (Nat.ofDigits b zs + b ^ xs.length * c₂) := by ring
      _ = z + b * c₁ + b * (Nat.ofDigits b xs + Nat.ofDigits b ys) := by rw [ih]; ring
      _ = _ := by rw [show z + b * c₁ = x + y + c from hplace]; ring

theorem Chain.subtract_value (h : Chain (subtractsAt b) c xs ys zs c') :
    Nat.ofDigits b zs + Nat.ofDigits b ys + c = Nat.ofDigits b xs + b ^ xs.length * c' := by
  induction h with
  | nil => simp
  | @cons c x y z c₁ c₂ xs ys zs hplace _ ih =>
    simp only [Nat.ofDigits_cons, List.length_cons]
    calc z + b * Nat.ofDigits b zs + (y + b * Nat.ofDigits b ys) + c
        = z + y + c + b * (Nat.ofDigits b zs + Nat.ofDigits b ys) := by ring
      _ = x + b * (Nat.ofDigits b zs + Nat.ofDigits b ys + c₁) := by
        rw [show z + y + c = x + b * c₁ from hplace]; ring
      _ = _ := by rw [ih]; ring

/-- A sum: what is left of it in that many digits, and whether it needs one more. -/
theorem Chain.sum (h : Chain (addsAt b) 0 xs ys zs c') (hc : c' ≤ 1)
    (hzs : Nat.ofDigits b zs < b ^ xs.length) :
    Nat.ofDigits b zs = (Nat.ofDigits b xs + Nat.ofDigits b ys) % b ^ xs.length ∧
      (c' = 1 ↔ b ^ xs.length ≤ Nat.ofDigits b xs + Nat.ofDigits b ys) := by
  have hvalue := h.add_value
  rw [Nat.add_zero] at hvalue
  obtain rfl | rfl : c' = 0 ∨ c' = 1 := by omega
  · rw [← hvalue, Nat.mul_zero, Nat.add_zero, Nat.mod_eq_of_lt hzs]
    exact ⟨rfl, by omega⟩
  · rw [← hvalue, Nat.mul_one, Nat.add_mod_right, Nat.mod_eq_of_lt hzs]
    exact ⟨rfl, by omega⟩

/-- A difference: what is left of it when it borrows from the next place, and whether it does. -/
theorem Chain.difference (h : Chain (subtractsAt b) 0 xs ys zs c') (hc : c' ≤ 1)
    (hzs : Nat.ofDigits b zs < b ^ xs.length) :
    Nat.ofDigits b zs = (Nat.ofDigits b xs + b ^ xs.length - Nat.ofDigits b ys) % b ^ xs.length ∧
      (c' = 1 ↔ Nat.ofDigits b xs < Nat.ofDigits b ys) := by
  have hvalue := h.subtract_value
  obtain rfl | rfl : c' = 0 ∨ c' = 1 := by omega
  · rw [show Nat.ofDigits b xs + b ^ xs.length - Nat.ofDigits b ys =
      Nat.ofDigits b zs + b ^ xs.length by omega, Nat.add_mod_right, Nat.mod_eq_of_lt hzs]
    exact ⟨rfl, by omega⟩
  · rw [show Nat.ofDigits b xs + b ^ xs.length - Nat.ofDigits b ys = Nat.ofDigits b zs by omega,
      Nat.mod_eq_of_lt hzs]
    exact ⟨rfl, by omega⟩

end Axle.Lib.CarryChain
