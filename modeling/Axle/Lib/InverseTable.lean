import Mathlib.Data.List.Range
import Mathlib.Logic.Function.Basic
import Mathlib.Tactic.Common

/-!
# Tables that are filled by inserting

A table from keys to the numbers below a bound is filled in the order of the numbers, each of which
gives at most one key.  Where two numbers give the same key, the later one stays.

* `fill` — the filling;
* `fill_eq_some_iff` — **what a key finds**: the last number that gives it;
* `fill_fill_eq_some_iff` — the table that is filled from a table: a number is found again exactly
  when it is the last one with its key.

Nothing here is about particular keys.
-/

namespace Axle.Lib.InverseTable

variable {κ : Type*} [DecidableEq κ]

/-- One round. -/
def insertAt (key : ℕ → Option κ) (table : κ → Option ℕ) (i : ℕ) : κ → Option ℕ :=
  match key i with
  | some k => Function.update table k (some i)
  | none => table

def fill (key : ℕ → Option κ) (n : ℕ) : κ → Option ℕ :=
  (List.range n).foldl (insertAt key) fun _ => none

theorem fill_succ (key : ℕ → Option κ) (n : ℕ) : fill key (n + 1) = insertAt key (fill key n) n := by
  rw [fill, List.range_succ, List.foldl_append]
  rfl

theorem insertAt_apply (key : ℕ → Option κ) (table : κ → Option ℕ) (i : ℕ) (k : κ) :
    insertAt key table i k = if key i = some k then some i else table k := by
  unfold insertAt
  cases hkey : key i with
  | none => exact (if_neg nofun).symm
  | some k' =>
    by_cases hk : k = k'
    · rw [hk, if_pos rfl]
      exact Function.update_self ..
    · rw [if_neg fun h => hk (Option.some.inj h).symm]
      exact Function.update_of_ne hk ..

/-- **What a key finds (proved).** -/
theorem fill_eq_some_iff {key : ℕ → Option κ} {n i : ℕ} {k : κ} :
    fill key n k = some i ↔
      i < n ∧ key i = some k ∧ ∀ j, i < j → j < n → key j ≠ some k := by
  induction n with
  | zero => exact ⟨nofun, fun h => absurd h.1 (Nat.not_lt_zero i)⟩
  | succ n ih =>
    rw [fill_succ, insertAt_apply]
    by_cases hkey : key n = some k
    · rw [if_pos hkey]
      constructor
      · intro h
        obtain rfl := Option.some.inj h
        exact ⟨Nat.lt_succ_self n, hkey, fun j hj hj' => absurd hj (by omega)⟩
      · rintro ⟨hi, -, hlast⟩
        rcases Nat.lt_succ_iff_lt_or_eq.mp hi with hlt | rfl
        · exact absurd hkey (hlast n hlt (Nat.lt_succ_self n))
        · rfl
    · rw [if_neg hkey, ih]
      constructor
      · rintro ⟨hi, hk, hlast⟩
        refine ⟨Nat.lt_succ_of_lt hi, hk, fun j hij hj => ?_⟩
        rcases Nat.lt_succ_iff_lt_or_eq.mp hj with hlt | rfl
        · exact hlast j hij hlt
        · exact hkey
      · rintro ⟨hi, hk, hlast⟩
        have hne : i ≠ n := by
          rintro rfl
          exact hkey hk
        exact ⟨by omega, hk, fun j hij hj => hlast j hij (Nat.lt_succ_of_lt hj)⟩

/-- **What a table filled from a table finds (proved).** -/
theorem fill_fill_eq_some_iff {key : ℕ → Option ℕ} {n m i k : ℕ} :
    fill (fill key n) m i = some k ↔
      k < m ∧ i < n ∧ key i = some k ∧ ∀ j, i < j → j < n → key j ≠ some k := by
  rw [fill_eq_some_iff, fill_eq_some_iff]
  constructor
  · rintro ⟨hk, h, -⟩
    exact ⟨hk, h⟩
  · rintro ⟨hk, h⟩
    refine ⟨hk, h, fun k' hk' _ heq => ?_⟩
    -- a number has one key only
    have hsome := (fill_eq_some_iff.mp heq).2.1
    rw [h.2.1] at hsome
    exact absurd (Option.some.inj hsome) (Nat.ne_of_lt hk')

end Axle.Lib.InverseTable
