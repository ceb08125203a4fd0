import Axle.Agx.Layer

/-!
# Filled rectangles

`fill_rect` gets a rectangle in the coordinates of the slice and trims it with `constrain`, which
compares it with the edges of the slice in the parent, and which leaves what sticks out at the left
and at the top.  A rectangle with a negative origin is then not drawn at all; one that starts
between the right edge in the slice and the right edge in the parent gets a negative width.

* `fillRect_filled_iff` — **PROVED**: which filled rectangles are drawn.
-/

namespace Axle.Agx.LayerSlice

variable {slice : LayerSlice} {raw : Rect} {color : Color} {axle : Bool}

/-- The points of the rectangle in the slice get the colour, nothing else changes, and the program
does not panic. -/
def FillsExactly (axle : Bool) (slice : LayerSlice) (raw : Rect) (color : Color) : Prop :=
  ∃ new, slice.fillRect axle raw color .filled = some new ∧
    Drawn (fun p => p ∈ raw) (fun _ => color.bytes (wordLayout axle)) slice new

/-- The trimmed rectangle has rows, and the first one ends before it starts. -/
def RowReversed (frame raw : Rect) : Prop :=
  (0 ≤ raw.origin.x ∧ raw.origin.x < frame.maxX ∧ 0 ≤ raw.origin.y ∧
    raw.origin.y < frame.size.height) ∧ 0 < raw.size.height ∧
    (raw.size.width < 0 ∨ frame.size.width < raw.origin.x)

instance (frame raw : Rect) : Decidable (RowReversed frame raw) :=
  inferInstanceAs (Decidable (_ ∧ _))

/-- The points of the rectangle in the slice have the colour already. -/
def AlreadyFilled (axle : Bool) (slice : LayerSlice) (raw : Rect) (color : Color) : Prop :=
  ∀ p ∈ Rect.withSize slice.frame.size, p ∈ raw →
    slice.pixelAt p = color.bytes (wordLayout axle)

/-! ### Nothing to draw -/

theorem fillSolid_of_noRows {pixel : Pixel} (hs : slice.WellFormed)
    (hrows : raw.size.height ≤ 0 ∨ slice.frame.size.height ≤ raw.origin.y) :
    slice.fillSolid raw pixel = some slice := by
  by_cases hout : slice.frame.maxX ≤ raw.minX ∨ slice.frame.maxY ≤ raw.minY
  · exact fillSolid_of_outside hout
  · unfold fillSolid
    rw [Rect.constrain_eq hout]
    dsimp only
    rw [show (Rect.height ⟨raw.origin, ⟨min raw.size.width (slice.frame.size.width - raw.origin.x),
      min raw.size.height (slice.frame.size.height - raw.origin.y)⟩⟩).toNat = 0 by
        simp only [Rect.height]
        omega]
    exact ite_self _

/-- What is painted on a slice that stays as it is was there before. -/
theorem drawn_self_iff {area : Point → Prop} {value : Point → Pixel} (hs : slice.WellFormed) :
    Drawn area value slice slice ↔
      ∀ p ∈ Rect.withSize slice.frame.size, area p → slice.pixelAt p = value p := by
  constructor
  · intro h p hp harea
    exact h.pixelAt_eq hs hp harea
  · intro h
    refine ⟨rfl, rfl, rfl, fun p _ harea => ?_, fun _ _ _ => rfl⟩
    have hmem := Rect.mem_iff.mp harea.1
    rw [← h _ (Rect.mem_withSize.mpr ?_) harea.2, pixelAt, show
      slice.frame.origin + (p - slice.frame.origin) = p from ?_]
    · ext
      · exact add_sub_cancel _ _
      · exact add_sub_cancel _ _
    · simp only [Point.sub_x, Point.sub_y]
      omega

/-! ### What is drawn -/

theorem fillRect_eq_none_of_rowReversed (hs : slice.WellFormed)
    (h : RowReversed slice.frame raw) : slice.fillRect axle raw color .filled = none := by
  obtain ⟨hox, hoy⟩ := hs.origin_nonneg
  obtain ⟨⟨hx, hend, hy, hyh⟩, hh, hw⟩ := h
  refine fillSolid_eq_none hx hy ?_ hw hh hyh
  simp only [Rect.maxX, Rect.maxY, Rect.minX, Rect.minY] at hend ⊢
  omega

theorem fillRect_filled_drawn (hs : slice.WellFormed) (hx : 0 ≤ raw.origin.x)
    (hy : 0 ≤ raw.origin.y) (hrow : ¬RowReversed slice.frame raw) :
    FillsExactly axle slice raw color := by
  obtain ⟨hox, hoy⟩ := hs.origin_nonneg
  by_cases hend : slice.frame.maxX ≤ raw.origin.x
  · refine ⟨slice, fillSolid_of_outside (Or.inl hend), Drawn.nothing fun p hp => ?_⟩
    simp only [Rect.maxX, Rect.minX] at hend
    rw [Rect.mem_withSize] at hp
    rw [Rect.mem_iff]
    omega
  by_cases hrows : raw.size.height ≤ 0 ∨ slice.frame.size.height ≤ raw.origin.y
  · refine ⟨slice, fillSolid_of_noRows hs hrows, Drawn.nothing fun p hp => ?_⟩
    rw [Rect.mem_withSize] at hp
    rw [Rect.mem_iff]
    omega
  · have hfits : 0 ≤ raw.size.width ∧ raw.origin.x ≤ slice.frame.size.width := by
      by_contra hfits
      exact hrow ⟨⟨hx, not_le.mp hend, hy, by omega⟩, by omega, by omega⟩
    exact fillSolid_drawn raw _ hs hx hfits.2 hfits.1 hy

/-- **Which filled rectangles are drawn (proved).**  The rectangle must not start right of the
slice, as far as `constrain` lets it through, and must not be inverted; and its origin must not be
negative, unless the colour is there already. -/
theorem fillRect_filled_iff (hs : slice.WellFormed) :
    FillsExactly axle slice raw color ↔ ¬RowReversed slice.frame raw ∧
      ((0 ≤ raw.origin.x ∧ 0 ≤ raw.origin.y) ∨ AlreadyFilled axle slice raw color) := by
  by_cases hneg : raw.origin.x < 0 ∨ raw.origin.y < 0
  · have heq : slice.fillRect axle raw color .filled = some slice := fillSolid_of_negative hneg
    have hrow : ¬RowReversed slice.frame raw := by
      rintro ⟨⟨hx, -, hy, -⟩, -⟩
      omega
    unfold FillsExactly AlreadyFilled
    simp only [heq, Option.some.injEq, exists_eq_left', drawn_self_iff hs, hrow, not_false_eq_true,
      true_and]
    exact ⟨Or.inr, fun h => h.resolve_left (by omega)⟩
  · constructor
    · rintro ⟨new, hnew, -⟩
      refine ⟨fun hrow => ?_, Or.inl (by omega)⟩
      rw [fillRect_eq_none_of_rowReversed hs hrow] at hnew
      cases hnew
    · rintro ⟨hrow, -⟩
      exact fillRect_filled_drawn hs (by omega) (by omega) hrow

/-- A slice in the middle of a layer. -/
def middleSlice : LayerSlice :=
  (SingleFramebufferLayer.newExt ⟨100, 100⟩ .bgra).getSlice (.new 50 50 30 30)

/-- The rectangle of the source's test, which sticks out at the right and at the bottom. -/
theorem fillRect_filled_constrains :
    FillsExactly false middleSlice (.new 10 20 400 800) ⟨50, 100, 123⟩ :=
  (fillRect_filled_iff (by decide)).mpr ⟨by decide, Or.inl (by decide)⟩

/-- Right of the slice the program panics, and a rectangle that sticks out at the left is not
drawn. -/
theorem fillRect_filled_outside :
    middleSlice.WellFormed ∧
      middleSlice.fillRect false (.new 40 0 10 10) .white .filled = none ∧
      ¬FillsExactly false middleSlice (.new 40 0 10 10) .white ∧
      middleSlice.fillRect false (.new (-5) 0 10 10) .white .filled = some middleSlice ∧
      ¬FillsExactly false middleSlice (.new (-5) 0 10 10) .white := by
  have hsound : middleSlice.WellFormed := by decide
  refine ⟨hsound, rfl, ?_, rfl, ?_⟩
  · rintro ⟨new, hnew, -⟩
    cases hnew
  · rintro ⟨new, hnew, hdrawn⟩
    rw [fillRect, fillSolid_of_negative (Or.inl (by decide)), Option.some.injEq] at hnew
    subst hnew
    have hpixel := (drawn_self_iff hsound).mp hdrawn ⟨0, 0⟩ (by decide) (by decide)
    revert hpixel
    decide

end Axle.Agx.LayerSlice
