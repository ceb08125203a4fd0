import Axle.Agx.Layer

/-!
# What two rectangles share

`area_overlapping_with` and `constrain` both ask for the common part of two rectangles.  The first
one is exact.  The second one trims at the right and at the bottom only, and takes the size of the
trimming rectangle for the place of its edges, so that it is exact only for some positions.

* `areaOverlappingWith_exact` — **PROVED**: it returns a rectangle when the two meet, the points of
  that rectangle are the shared ones, the order of the two does not matter, and with
  `area_excluding_rect` it divides the first rectangle;
* `constrain_isIntersection_iff` — **PROVED**: for which positions `constrain` is the common part.
-/

namespace Axle.Agx.Rect

variable {r s a b c : Rect}

/-! ### Rectangles and their points -/

theorem Positive.origin_mem (h : r.Positive) : r.origin ∈ r := by
  unfold Positive at h
  rw [mem_iff]
  omega

theorem Positive.last_mem (h : r.Positive) : (⟨r.maxX - 1, r.maxY - 1⟩ : Point) ∈ r := by
  unfold Positive at h
  rw [mem_iff]
  simp only [maxX, maxY, minX, minY]
  omega

/-- The points of a rectangle determine it, unless there are none. -/
theorem eq_of_mem_iff (hr : r.Positive) (h : ∀ p, p ∈ r ↔ p ∈ s) : r = s := by
  have hfirst := mem_iff.mp ((h _).mp hr.origin_mem)
  have hlast := mem_iff.mp ((h _).mp hr.last_mem)
  have hs : s.Positive := ⟨by omega, by omega⟩
  have hfirst' := mem_iff.mp ((h _).mpr hs.origin_mem)
  have hlast' := mem_iff.mp ((h _).mpr hs.last_mem)
  simp only [maxX, maxY, minX, minY] at hlast hlast'
  ext <;> omega

/-- The rectangle is the common part of the two. -/
def IsIntersection (a b c : Rect) : Prop := c.Nonneg ∧ ∀ p, p ∈ c ↔ p ∈ a ∧ p ∈ b

/-- Every point of the rectangle is in one of the pieces, and in only one. -/
def DividedInto (r : Rect) (pieces : List Rect) : Prop :=
  pieces.Pairwise Disjoint ∧ ∀ p, p ∈ r ↔ ∃ piece ∈ pieces, p ∈ piece

/-! ### `area_overlapping_with` -/

theorem areaOverlappingWith_eq_none (h : r.intersectsWith s = false) :
    r.areaOverlappingWith s = none := by
  rw [areaOverlappingWith, h]
  rfl

theorem areaOverlappingWith_isSome (hr : r.Positive) (hs : s.Positive) :
    (r.areaOverlappingWith s).isSome = true ↔ r.intersectsWith s = true := by
  cases h : r.intersectsWith s with
  | false => rw [areaOverlappingWith_eq_none h, Option.isSome_none]
  | true =>
    obtain ⟨o, ho, -⟩ := areaOverlappingWith_spec hr hs h
    rw [ho, Option.isSome_some]

theorem areaOverlappingWith_some (hr : r.Positive) (hs : s.Positive) {o : Rect}
    (ho : r.areaOverlappingWith s = some o) : o.Positive ∧ ∀ p, p ∈ o ↔ p ∈ r ∧ p ∈ s := by
  have h := (areaOverlappingWith_isSome hr hs).mp (Option.isSome_iff_exists.mpr ⟨o, ho⟩)
  obtain ⟨o', ho', hspec⟩ := areaOverlappingWith_spec hr hs h
  obtain rfl := Option.some.inj (ho.symm.trans ho')
  exact hspec

theorem isIntersection_iff (ha : a.Positive) (hb : b.Positive)
    (hmeet : a.intersectsWith b = true) :
    IsIntersection a b c ↔ a.areaOverlappingWith b = some c := by
  obtain ⟨o, ho, hpos, hmem⟩ := areaOverlappingWith_spec ha hb hmeet
  rw [ho, Option.some.injEq]
  constructor
  · intro hc
    exact eq_of_mem_iff hpos fun p => (hmem p).trans (hc.2 p).symm
  · rintro rfl
    exact ⟨hpos.nonneg, hmem⟩

theorem areaOverlappingWith_comm (hr : r.Positive) (hs : s.Positive) :
    r.areaOverlappingWith s = s.areaOverlappingWith r := by
  cases h : r.intersectsWith s with
  | false =>
    rw [areaOverlappingWith_eq_none h, areaOverlappingWith_eq_none]
    rw [intersectsWith_comm, h]
  | true =>
    obtain ⟨o, ho, hpos, hmem⟩ := areaOverlappingWith_spec hr hs h
    rw [ho, eq_comm, ← isIntersection_iff hs hr (by rw [intersectsWith_comm, h])]
    exact ⟨hpos.nonneg, fun p => (hmem p).trans and_comm⟩

theorem dividedInto_areaExcludingRect (hr : r.Positive) (hs : s.Positive)
    (h : r.intersectsWith s = true) :
    r.DividedInto (r.areaExcludingRect s ++ (r.areaOverlappingWith s).toList) := by
  obtain ⟨o, ho, -, hmem⟩ := areaOverlappingWith_spec hr hs h
  have hpieces := mem_areaExcludingRect hr.nonneg hs h
  rw [ho, Option.toList_some]
  refine ⟨List.pairwise_append.mpr ⟨areaExcludingRect_pairwise hr.nonneg hs,
    List.pairwise_singleton _ _, ?_⟩, fun p => ?_⟩
  · intro piece hpiece o' ho' p hp hpo
    rw [List.mem_singleton.mp ho'] at hpo
    exact ((hpieces p).mp ⟨piece, hpiece, hp⟩).2 ((hmem p).mp hpo).2
  · simp only [List.mem_append, List.mem_singleton]
    constructor
    · intro hp
      by_cases hps : p ∈ s
      · exact ⟨o, Or.inr rfl, (hmem p).mpr ⟨hp, hps⟩⟩
      · obtain ⟨piece, hpiece, hin⟩ := (hpieces p).mpr ⟨hp, hps⟩
        exact ⟨piece, Or.inl hpiece, hin⟩
    · rintro ⟨piece, hpiece | rfl, hin⟩
      · exact ((hpieces p).mp ⟨piece, hpiece, hin⟩).1
      · exact ((hmem p).mp hin).1

/-- **The overlap is exact (proved).**  Rectangles that do not meet are not divided: the source
returns no pieces for them. -/
theorem areaOverlappingWith_exact (hr : r.Positive) (hs : s.Positive) :
    ((r.areaOverlappingWith s).isSome = true ↔ r.intersectsWith s = true) ∧
      (∀ o, r.areaOverlappingWith s = some o → o.Positive ∧ ∀ p, p ∈ o ↔ p ∈ r ∧ p ∈ s) ∧
      r.areaOverlappingWith s = s.areaOverlappingWith r ∧
      (r.intersectsWith s = true →
        r.DividedInto (r.areaExcludingRect s ++ (r.areaOverlappingWith s).toList)) :=
  ⟨areaOverlappingWith_isSome hr hs, fun _ ho => areaOverlappingWith_some hr hs ho,
    areaOverlappingWith_comm hr hs, dividedInto_areaExcludingRect hr hs⟩

theorem areaOverlappingWith_exact_corner :
    (new 0 0 10 10).areaOverlappingWith (new 5 6 10 10) = some (new 5 6 5 4) ∧
      (new 0 0 10 10).DividedInto ((new 0 0 10 10).areaExcludingRect (new 5 6 10 10) ++
        ((new 0 0 10 10).areaOverlappingWith (new 5 6 10 10)).toList) :=
  ⟨by decide, (@areaOverlappingWith_exact (new 0 0 10 10) (new 5 6 10 10) (by decide)
    (by decide)).2.2.2 (by decide)⟩

/-- Apart from each other: nothing is left of the first rectangle. -/
theorem areaOverlappingWith_apart :
    (new 0 0 10 10).Positive ∧ (new 20 0 10 10).Positive ∧
      (new 0 0 10 10).areaExcludingRect (new 20 0 10 10) ++
        ((new 0 0 10 10).areaOverlappingWith (new 20 0 10 10)).toList = [] ∧
      ¬(new 0 0 10 10).DividedInto ((new 0 0 10 10).areaExcludingRect (new 20 0 10 10) ++
        ((new 0 0 10 10).areaOverlappingWith (new 20 0 10 10)).toList) := by
  have hnone : (new 0 0 10 10).areaExcludingRect (new 20 0 10 10) ++
      ((new 0 0 10 10).areaOverlappingWith (new 20 0 10 10)).toList = [] := by decide
  refine ⟨by decide, by decide, hnone, fun h => ?_⟩
  obtain ⟨_, hmem, -⟩ := (h.2 ⟨0, 0⟩).mp (by decide)
  cases hmem

/-! ### `constrain` -/

theorem areaOverlappingWith_eq (ha : a.Positive) (hb : b.Positive)
    (hmeet : a.intersectsWith b = true) :
    a.areaOverlappingWith b = some ⟨⟨max a.minX b.minX, max a.minY b.minY⟩,
      ⟨min a.maxX b.maxX - max a.minX b.minX, min a.maxY b.maxY - max a.minY b.minY⟩⟩ := by
  have hmeet' := intersectsWith_iff.mp hmeet
  rw [← isIntersection_iff ha hb hmeet]
  unfold Positive at ha hb
  simp only [IsIntersection, Nonneg, mem_iff, minX, minY, maxX, maxY]
  refine ⟨by omega, fun p => ?_⟩
  constructor <;> intro hp <;> omega

/-- **When trimming is exact (proved).**  The trimmed rectangle does not stick out at the left or at
the top; and in either direction the trimming one starts at zero, or the other ends before its end
and before its size. -/
theorem constrain_isIntersection_iff (ha : a.Positive) (hb : b.Positive)
    (hmeet : a.intersectsWith b = true) :
    IsIntersection a b (a.constrain b) ↔
      (a.minX ≤ b.minX ∧ a.minY ≤ b.minY) ∧
      (a.minX = 0 ∨ b.maxX ≤ a.maxX ∧ b.maxX ≤ a.width) ∧
      (a.minY = 0 ∨ b.maxY ≤ a.maxY ∧ b.maxY ≤ a.height) := by
  have hmeet' := intersectsWith_iff.mp hmeet
  rw [isIntersection_iff ha hb hmeet, areaOverlappingWith_eq ha hb hmeet, constrain_eq]
  · simp only [Option.some.injEq, Rect.ext_iff, Point.ext_iff, Size.ext_iff, minX, minY, maxX,
      maxY, width, height]
    omega
  · simp only [minX, minY, maxX, maxY]
    omega

theorem constrain_isIntersection_screen :
    IsIntersection (new 0 0 100 100) (new 90 95 30 30)
      ((new 0 0 100 100).constrain (new 90 95 30 30)) :=
  (@constrain_isIntersection_iff (new 0 0 100 100) (new 90 95 30 30) (by decide) (by decide)
    (by decide)).mpr (by decide)

/-- **Not the common part.**  A rectangle that sticks out at the left stays as it is; one inside
a frame that is not at the origin gets a negative size. -/
theorem constrain_not_intersection :
    ((new 0 0 100 100).intersectsWith (new (-10) 0 50 50) = true ∧
      (new 0 0 100 100).constrain (new (-10) 0 50 50) = new (-10) 0 50 50 ∧
      ¬IsIntersection (new 0 0 100 100) (new (-10) 0 50 50)
        ((new 0 0 100 100).constrain (new (-10) 0 50 50))) ∧
    ((new 50 50 30 30).intersectsWith (new 60 60 10 10) = true ∧
      (new 50 50 30 30).constrain (new 60 60 10 10) = new 60 60 (-30) (-30) ∧
      ¬IsIntersection (new 50 50 30 30) (new 60 60 10 10)
        ((new 50 50 30 30).constrain (new 60 60 10 10))) := by
  refine ⟨⟨by decide, by decide, fun h => ?_⟩, by decide, by decide, fun h => ?_⟩
  · exact absurd ((h.2 ⟨-10, 0⟩).mp (by decide)).1 (by decide)
  · exact absurd h.1.1 (by decide)

end Axle.Agx.Rect
