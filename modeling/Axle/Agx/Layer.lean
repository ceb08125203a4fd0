import Axle.Agx.Rect

/-!
# Layers and slices

The framebuffer layers of `agx_definitions` and the slices that draw into them.  A framebuffer is
one row of pixels of four bytes each; a slice knows its frame and shares the framebuffer of its
parent, so that what is drawn through a slice is read back from `parent`.

* `writeRows_painted` — **PROVED**: the loop over the rows writes exactly the points of its area;
* `fillSolid_drawn` — **PROVED**: a filled rectangle paints the part of it inside the slice;
* `fillRect_drawn` / `fillRect_eq_none` — **PROVED**: a border paints the points near the four
  edges, unless the slice is narrower than the border: then a row ends before it starts, and the
  program panics;
* `blit2_drawn` — **PROVED**: a blit copies the pixels of a slice of the same size.

The drawing functions return `none` where the source panics.  Damaged rectangles are left out.
-/

namespace Axle.Agx

/-! ### Colours and pixels -/

structure Color where
  r : UInt8
  g : UInt8
  b : UInt8
  deriving DecidableEq, Repr

def Color.white : Color := ⟨255, 255, 255⟩

inductive PixelByteLayout
  | bgra
  | rgba
  deriving DecidableEq, Repr

/-- The bytes of a pixel, in the order in which they are stored. -/
structure Pixel where
  byte0 : UInt8
  byte1 : UInt8
  byte2 : UInt8
  byte3 : UInt8
  deriving DecidableEq, Repr

def Color.bytes (c : Color) : PixelByteLayout → Pixel
  | .rgba => ⟨c.r, c.g, c.b, 0xff⟩
  | .bgra => ⟨c.b, c.g, c.r, 0xff⟩

/-- The layout of the little-endian words that a slice fills rows with: the channels are swapped
when the target is not axle. -/
def wordLayout (targetAxle : Bool) : PixelByteLayout := if targetAxle then .bgra else .rgba

theorem Color.bytes_injective (layout : PixelByteLayout) {c d : Color}
    (h : c.bytes layout = d.bytes layout) : c = d := by
  cases c
  cases layout <;> simp_all [Color.bytes]

inductive StrokeThickness
  | filled
  | width (pxCount : ℤ)
  deriving DecidableEq, Repr

/-- The points of a rectangle that are drawn: all of them, or those near an edge. -/
def Rect.Stroke (r : Rect) : StrokeThickness → Point → Prop
  | .filled, p => p ∈ r
  | .width pxCount, p =>
    p ∈ r ∧ (p.x < r.minX + pxCount ∨ p.y < r.minY + pxCount ∨ r.maxX - pxCount ≤ p.x ∨
      r.maxY - pxCount ≤ p.y)

instance (r : Rect) : ∀ thickness p, Decidable (r.Stroke thickness p)
  | .filled, p => inferInstanceAs (Decidable (p ∈ r))
  | .width pxCount, p => inferInstanceAs (Decidable
      (p ∈ r ∧ (p.x < r.minX + pxCount ∨ p.y < r.minY + pxCount ∨ r.maxX - pxCount ≤ p.x ∨
        r.maxY - pxCount ≤ p.y)))

theorem Rect.Stroke.mem {r : Rect} {p : Point} :
    ∀ {thickness : StrokeThickness}, r.Stroke thickness p → p ∈ r
  | .filled, h => h
  | .width _, h => h.1

theorem Rect.stroke_sub {r : Rect} {p q : Point} : ∀ {thickness : StrokeThickness},
    (⟨r.origin - q, r.size⟩ : Rect).Stroke thickness (p - q) ↔ r.Stroke thickness p
  | .filled => by
    simp only [Rect.Stroke, Rect.mem_iff, Point.sub_x, Point.sub_y]
    omega
  | .width n => by
    simp only [Rect.Stroke, Rect.mem_iff, Rect.minX, Rect.minY, Rect.maxX, Rect.maxY,
      Point.sub_x, Point.sub_y]
    omega

theorem Rect.stroke_withSize {r : Rect} {p : Point} {thickness : StrokeThickness} :
    (Rect.withSize r.size).Stroke thickness (p - r.origin) ↔ r.Stroke thickness p := by
  have hzero : r.origin - r.origin = Point.zero := by
    ext
    · exact sub_self _
    · exact sub_self _
  have h := @Rect.stroke_sub r p r.origin thickness
  rw [hzero] at h
  exact h

/-! ### Framebuffers -/

structure SingleFramebufferLayer where
  size : Size
  pixelLayout : PixelByteLayout
  pixels : ℤ → Pixel

structure LayerSlice where
  parent : SingleFramebufferLayer
  frame : Rect

namespace SingleFramebufferLayer

def newExt (size : Size) (pixelLayout : PixelByteLayout) : SingleFramebufferLayer :=
  ⟨size, pixelLayout, fun _ => ⟨0, 0, 0, 0⟩⟩

def len (layer : SingleFramebufferLayer) : ℤ := layer.size.width * layer.size.height

/-- The place of a point in the row of pixels. -/
def offset (layer : SingleFramebufferLayer) (p : Point) : ℤ := p.y * layer.size.width + p.x

def pixelAt (layer : SingleFramebufferLayer) (p : Point) : Pixel := layer.pixels (layer.offset p)

/-- Overwrite the pixels from `rowStart` on; a row that does not lie in the framebuffer, or that
ends before it starts, is a panic. -/
def writeRow (layer : SingleFramebufferLayer) (rowStart width : ℤ) (row : ℤ → Pixel) :
    Option SingleFramebufferLayer :=
  if 0 ≤ rowStart ∧ 0 ≤ width ∧ rowStart + width ≤ layer.len then
    some { layer with pixels := fun off =>
      if rowStart ≤ off ∧ off < rowStart + width then row (off - rowStart) else layer.pixels off }
  else none

/-- The loop over the rows of an area whose first pixel is at `start`. -/
def writeRows (layer : SingleFramebufferLayer) (start width : ℤ)
    (row : ℤ → Option (ℤ → Pixel)) : ℕ → Option SingleFramebufferLayer
  | 0 => some layer
  | y + 1 =>
    (layer.writeRows start width row y).bind fun layer =>
      (row y).bind fun pixels => layer.writeRow (start + y * layer.size.width) width pixels

def putpixel (layer : SingleFramebufferLayer) (loc : Point) (color : Color) :
    Option SingleFramebufferLayer :=
  layer.writeRow (layer.offset loc) 1 fun _ => color.bytes layer.pixelLayout

def getSlice (layer : SingleFramebufferLayer) (rect : Rect) : LayerSlice :=
  ⟨layer, (Rect.withSize layer.size).constrain rect⟩

/-- The rectangle lies in the framebuffer. -/
def Holds (layer : SingleFramebufferLayer) (r : Rect) : Prop :=
  0 ≤ r.origin.x ∧ r.origin.x + r.size.width ≤ layer.size.width ∧
    0 ≤ r.origin.y ∧ r.origin.y + r.size.height ≤ layer.size.height

end SingleFramebufferLayer

/-! ### Slices -/

namespace LayerSlice

def getSlice (slice : LayerSlice) (rect : Rect) : LayerSlice :=
  ⟨slice.parent, ⟨slice.frame.origin + rect.origin,
    ((Rect.withSize slice.frame.size).constrain rect).size⟩⟩

/-- `fill_rect` of a slice with `StrokeThickness::Filled`. -/
def fillSolid (slice : LayerSlice) (rawRect : Rect) (pixel : Pixel) : Option LayerSlice :=
  let rect := slice.frame.constrain rawRect
  if rect.isDegenerate || rect.minX < 0 || rect.minY < 0 then some slice
  else
    (slice.parent.writeRows (slice.parent.offset (slice.frame.origin + rect.origin)) rect.width
      (fun _ => some fun _ => pixel) rect.height.toNat).map fun parent => { slice with parent }

/-- `fill_rect` of a slice: a border is four filled rectangles. -/
def fillRect (targetAxle : Bool) (slice : LayerSlice) (rawRect : Rect) (color : Color) :
    StrokeThickness → Option LayerSlice
  | .filled => slice.fillSolid rawRect (color.bytes (wordLayout targetAxle))
  | .width pxCount =>
    let pixel := color.bytes (wordLayout targetAxle)
    let rect := slice.frame.constrain rawRect
    if rect.isDegenerate || rect.minX < 0 || rect.minY < 0 then some slice
    else if pxCount > 0 then
      let top : Rect := ⟨rect.origin, ⟨rect.width, pxCount⟩⟩
      let left : Rect := ⟨rect.origin, ⟨pxCount, rect.height⟩⟩
      let bottom : Rect :=
        ⟨⟨rect.origin.x + pxCount, rect.maxY - pxCount⟩, ⟨rect.width - pxCount, pxCount⟩⟩
      let right : Rect :=
        ⟨⟨rect.maxX - pxCount, rect.origin.y + pxCount⟩, ⟨pxCount, rect.height - pxCount * 2⟩⟩
      (slice.fillSolid top pixel).bind fun slice =>
        (slice.fillSolid left pixel).bind fun slice =>
          (slice.fillSolid bottom pixel).bind fun slice => slice.fillSolid right pixel
    else some slice

/-- Row `y` of a slice; the source reads it through a raw pointer, and a read outside of the
framebuffer is `none` here. -/
def pixelRow (slice : LayerSlice) (y : ℤ) : Option (ℤ → Pixel) :=
  let rowStart := slice.parent.offset slice.frame.origin + y * slice.parent.size.width
  if 0 ≤ rowStart ∧ rowStart + slice.frame.width ≤ slice.parent.len then
    some fun x => slice.parent.pixels (rowStart + x)
  else none

def blit2 (slice source : LayerSlice) : Option LayerSlice :=
  if slice.frame.isDegenerate then some slice
  else if slice.frame.size ≠ source.frame.size then none
  else if slice.frame.origin.x < 0 || slice.frame.origin.y < 0 then some slice
  else
    (slice.parent.writeRows (slice.parent.offset slice.frame.origin) slice.frame.width
      source.pixelRow slice.frame.height.toNat).map fun parent => { slice with parent }

/-- The frame is not inverted and lies in the framebuffer. -/
def WellFormed (slice : LayerSlice) : Prop :=
  slice.frame.Nonneg ∧ slice.parent.Holds slice.frame

instance (slice : LayerSlice) : Decidable slice.WellFormed :=
  inferInstanceAs (Decidable ((0 ≤ _ ∧ 0 ≤ _) ∧ 0 ≤ _ ∧ _ ≤ _ ∧ 0 ≤ _ ∧ _ ≤ _))

/-- The pixel at a point of the slice, in the coordinates of the slice. -/
def pixelAt (slice : LayerSlice) (p : Point) : Pixel :=
  slice.parent.pixelAt (slice.frame.origin + p)

end LayerSlice

/-! ### Painting -/

/-- From `old` to `new`, exactly the points of `area` are painted, with the pixels of `value`. -/
structure Painted (area : Point → Prop) (value : Point → Pixel)
    (old new : SingleFramebufferLayer) : Prop where
  size_eq : new.size = old.size
  layout_eq : new.pixelLayout = old.pixelLayout
  inside : ∀ p ∈ Rect.withSize old.size, area p → new.pixelAt p = value p
  outside : ∀ p ∈ Rect.withSize old.size, ¬area p → new.pixelAt p = old.pixelAt p

namespace Painted

variable {area area' : Point → Prop} {value : Point → Pixel} {a b c : SingleFramebufferLayer}

theorem refl : Painted (fun _ => False) value a a :=
  ⟨rfl, rfl, fun _ _ h => h.elim, fun _ _ _ => rfl⟩

theorem congr (h : Painted area value a b)
    (heq : ∀ p ∈ Rect.withSize a.size, area p ↔ area' p) : Painted area' value a b where
  size_eq := h.size_eq
  layout_eq := h.layout_eq
  inside p hp harea := h.inside p hp ((heq p hp).mpr harea)
  outside p hp harea := h.outside p hp fun harea' => harea ((heq p hp).mp harea')

/-- Nothing of the area is in the framebuffer. -/
theorem nothing (h : ∀ p ∈ Rect.withSize a.size, ¬area p) : Painted area value a a :=
  refl.congr fun p hp => iff_of_false id (h p hp)

theorem trans (h : Painted area value a b) (h' : Painted area' value b c) :
    Painted (fun p => area p ∨ area' p) value a c where
  size_eq := h'.size_eq.trans h.size_eq
  layout_eq := h'.layout_eq.trans h.layout_eq
  inside := by
    intro p hp harea
    have hp' : p ∈ Rect.withSize b.size := by rw [h.size_eq]; exact hp
    by_cases hlast : area' p
    · exact h'.inside p hp' hlast
    · rw [h'.outside p hp' hlast]
      exact h.inside p hp (harea.resolve_right hlast)
  outside := by
    intro p hp harea
    have hp' : p ∈ Rect.withSize b.size := by rw [h.size_eq]; exact hp
    rw [h'.outside p hp' fun hlast => harea (Or.inr hlast)]
    exact h.outside p hp fun hfirst => harea (Or.inl hfirst)

end Painted

namespace SingleFramebufferLayer

variable {layer : SingleFramebufferLayer}

/-- A row inside the framebuffer has the places of the points in it, since no row of the
framebuffer runs into the next one. -/
theorem mem_row_iff {p : Point} {x y width : ℤ} (hp : p ∈ Rect.withSize layer.size)
    (hx : 0 ≤ x) (hwidth : x + width ≤ layer.size.width) :
    y * layer.size.width + x ≤ layer.offset p ∧
        layer.offset p < y * layer.size.width + x + width ↔
      p.y = y ∧ x ≤ p.x ∧ p.x < x + width := by
  obtain ⟨hpx, hpw, -, -⟩ := Rect.mem_withSize.mp hp
  have hw : 0 ≤ layer.size.width := by omega
  unfold offset
  constructor
  · intro h
    have hy : p.y = y := by
      rcases lt_trichotomy p.y y with hlt | heq | hgt
      · have := mul_le_mul_of_nonneg_right (Int.add_one_le_iff.mpr hlt) hw
        rw [add_mul, one_mul] at this
        omega
      · exact heq
      · have := mul_le_mul_of_nonneg_right (Int.add_one_le_iff.mpr hgt) hw
        rw [add_mul, one_mul] at this
        omega
    subst hy
    exact ⟨rfl, by omega, by omega⟩
  · rintro ⟨rfl, hle, hlt⟩
    exact ⟨by omega, by omega⟩

section

variable (layer : SingleFramebufferLayer)

theorem row_bounds {x y : ℤ} (width : ℤ) (hx : 0 ≤ x) (hw : 0 ≤ width)
    (hwidth : x + width ≤ layer.size.width) (hy : 0 ≤ y) (hheight : y < layer.size.height) :
    0 ≤ y * layer.size.width + x ∧ y * layer.size.width + x + width ≤ layer.len := by
  have hw' : 0 ≤ layer.size.width := by omega
  have hlow : 0 ≤ y * layer.size.width := mul_nonneg hy hw'
  have hhigh := mul_le_mul_of_nonneg_right (Int.add_one_le_iff.mpr hheight) hw'
  rw [add_mul, one_mul, mul_comm layer.size.height] at hhigh
  unfold len
  exact ⟨by omega, by omega⟩

theorem writeRow_painted {x y width : ℤ} (row : ℤ → Pixel) (hx : 0 ≤ x) (hw : 0 ≤ width)
    (hwidth : x + width ≤ layer.size.width) (hy : 0 ≤ y) (hheight : y < layer.size.height) :
    ∃ new, layer.writeRow (y * layer.size.width + x) width row = some new ∧
      Painted (fun p => p.y = y ∧ x ≤ p.x ∧ p.x < x + width) (fun p => row (p.x - x))
        layer new := by
  obtain ⟨hlow, hhigh⟩ := row_bounds layer width hx hw hwidth hy hheight
  refine ⟨_, if_pos ⟨hlow, hw, hhigh⟩, rfl, rfl, ?_, ?_⟩
  · intro p hp harea
    show (if y * layer.size.width + x ≤ layer.offset p ∧
      layer.offset p < y * layer.size.width + x + width then _ else _) = _
    rw [if_pos ((mem_row_iff hp hx hwidth).mpr harea), offset, harea.1, add_sub_add_left_eq_sub]
  · intro p hp harea
    show (if y * layer.size.width + x ≤ layer.offset p ∧
      layer.offset p < y * layer.size.width + x + width then _ else _) = _
    rw [if_neg fun h => harea ((mem_row_iff hp hx hwidth).mp h)]
    rfl

/-- **The loop over the rows paints its area (proved).** -/
theorem writeRows_painted (origin : Point) (width : ℤ) (row : ℤ → Option (ℤ → Pixel))
    (value : Point → Pixel) (hw : 0 ≤ width) :
    ∀ {n : ℕ}, layer.Holds ⟨origin, ⟨width, n⟩⟩ →
      (∀ y : ℕ, y < n → row y = some fun x => value (origin + ⟨x, y⟩)) →
      ∃ new, layer.writeRows (layer.offset origin) width row n = some new ∧
        Painted (fun p => p ∈ (⟨origin, ⟨width, n⟩⟩ : Rect)) value layer new := by
  intro n
  induction n with
  | zero =>
    intro _ _
    refine ⟨layer, rfl, Painted.nothing fun p _ hp => ?_⟩
    rw [Rect.mem_iff] at hp
    dsimp only at hp
    omega
  | succ n ih =>
    intro hholds hrow
    obtain ⟨hx, hwidth, hy, hheight⟩ := hholds
    dsimp only at hx hwidth hy hheight
    obtain ⟨rows, hrows, hpainted⟩ := ih ⟨hx, hwidth, hy, by dsimp only; omega⟩
      fun y hlt => hrow y (Nat.lt_succ_of_lt hlt)
    have hsize := hpainted.size_eq
    obtain ⟨new, hnew, hlast⟩ := writeRow_painted rows (x := origin.x) (y := origin.y + n)
      (fun x => value (origin + ⟨x, n⟩)) hx hw
      (by rw [hsize]; exact hwidth) (by omega) (by rw [hsize]; omega)
    have hstart : layer.offset origin + n * rows.size.width
        = (origin.y + n) * rows.size.width + origin.x := by
      rw [offset, hsize, add_mul]
      ring
    have hlast' : Painted (fun p => p.y = origin.y + n ∧ origin.x ≤ p.x ∧ p.x < origin.x + width)
        value rows new := by
      refine ⟨hlast.size_eq, hlast.layout_eq, fun p hp harea => ?_, hlast.outside⟩
      rw [hlast.inside p hp harea]
      congr 1
      ext
      · show origin.x + (p.x - origin.x) = p.x
        omega
      · exact harea.1.symm
    refine ⟨new, ?_, (hpainted.trans hlast').congr fun p _ => ?_⟩
    · rw [writeRows, hrows, Option.bind_some, hrow n (Nat.lt_succ_self n), Option.bind_some, hstart]
      exact hnew
    · simp only [Rect.mem_iff]
      omega

end

theorem putpixel_painted {p : Point} (color : Color) (hp : p ∈ Rect.withSize layer.size) :
    ∃ new, layer.putpixel p color = some new ∧
      Painted (fun q => q = p) (fun _ => color.bytes layer.pixelLayout) layer new := by
  obtain ⟨hx, hwidth, hy, hheight⟩ := Rect.mem_withSize.mp hp
  obtain ⟨new, hnew, hpainted⟩ := writeRow_painted layer
    (fun _ => color.bytes layer.pixelLayout) hx (zero_le_one' ℤ) (by omega) hy hheight
  refine ⟨new, hnew, hpainted.congr fun q _ => ?_⟩
  rw [Point.ext_iff]
  omega

end SingleFramebufferLayer

/-! ### Trimming -/

/-- What `constrain` makes of a rectangle that starts left of the right and above the bottom edge. -/
theorem Rect.constrain_eq {frame raw : Rect}
    (hout : ¬(frame.maxX ≤ raw.minX ∨ frame.maxY ≤ raw.minY)) :
    frame.constrain raw = ⟨raw.origin, ⟨min raw.size.width (frame.size.width - raw.origin.x),
      min raw.size.height (frame.size.height - raw.origin.y)⟩⟩ := by
  unfold Rect.constrain
  rw [if_neg (by simpa only [Bool.or_eq_true, decide_eq_true_eq, ge_iff_le] using hout)]
  ext
  · rfl
  · rfl
  · simp only [Rect.maxX, Rect.minX, Rect.width]
    omega
  · simp only [Rect.maxY, Rect.minY, Rect.height]
    omega

theorem Rect.constrain_eq_zero {frame raw : Rect}
    (hout : frame.maxX ≤ raw.minX ∨ frame.maxY ≤ raw.minY) : frame.constrain raw = Rect.zero := by
  unfold Rect.constrain
  rw [if_pos (by simpa only [Bool.or_eq_true, decide_eq_true_eq, ge_iff_le] using hout)]

/-- A rectangle inside a layer or a slice of this size is not trimmed. -/
theorem Rect.constrain_withSize {size : Size} {rect : Rect}
    (hw : 0 < rect.size.width) (hh : 0 < rect.size.height)
    (hxw : rect.origin.x + rect.size.width ≤ size.width)
    (hyh : rect.origin.y + rect.size.height ≤ size.height) :
    (Rect.withSize size).constrain rect = rect := by
  rw [Rect.constrain_eq]
  · ext
    · rfl
    · rfl
    · simp only [Rect.withSize]
      omega
    · simp only [Rect.withSize]
      omega
  · simp only [Rect.maxX, Rect.minX, Rect.maxY, Rect.minY, Rect.withSize, Point.zero]
    omega

/-! ### Drawing into a slice -/

/-- Through a slice, the points of `area` (in the coordinates of the slice) are painted, and
nothing outside of the slice. -/
structure Drawn (area : Point → Prop) (value : Point → Pixel) (old new : LayerSlice) : Prop where
  frame_eq : new.frame = old.frame
  painted : Painted (fun p => p ∈ old.frame ∧ area (p - old.frame.origin))
    (fun p => value (p - old.frame.origin)) old.parent new.parent

namespace Drawn

variable {area area' : Point → Prop} {value : Point → Pixel} {a b c : LayerSlice}

theorem congr (h : Drawn area value a b)
    (heq : ∀ p ∈ Rect.withSize a.frame.size, area p ↔ area' p) : Drawn area' value a b where
  frame_eq := h.frame_eq
  painted := by
    refine h.painted.congr fun p _ => and_congr_right fun hp => heq _ ?_
    rw [Rect.mem_iff] at hp
    rw [Rect.mem_withSize]
    simp only [Point.sub_x, Point.sub_y]
    omega

theorem nothing (h : ∀ p ∈ Rect.withSize a.frame.size, ¬area p) : Drawn area value a a :=
  have hnone : Drawn (fun _ => False) value a a :=
    ⟨rfl, Painted.nothing fun _ _ hp => hp.2⟩
  hnone.congr fun p hp => iff_of_false id (h p hp)

theorem trans (h : Drawn area value a b) (h' : Drawn area' value b c) :
    Drawn (fun p => area p ∨ area' p) value a c where
  frame_eq := h'.frame_eq.trans h.frame_eq
  painted := by
    have hlast := h'.painted
    rw [h.frame_eq] at hlast
    refine (h.painted.trans hlast).congr fun p _ => ?_
    rw [and_or_left]

/-- Draw over the whole slice, then over a part of it. -/
theorem drawOver {value' whole : Point → Pixel} (h : Drawn (fun _ => True) value a b)
    (h' : Drawn area' value' b c)
    (hin : ∀ p ∈ Rect.withSize a.frame.size, area' p → value' p = whole p)
    (hout : ∀ p ∈ Rect.withSize a.frame.size, ¬area' p → value p = whole p) :
    Drawn (fun _ => True) whole a c where
  frame_eq := h'.frame_eq.trans h.frame_eq
  painted := by
    have hlast := h'.painted
    rw [h.frame_eq] at hlast
    refine ⟨hlast.size_eq.trans h.painted.size_eq, hlast.layout_eq.trans h.painted.layout_eq,
      fun p hp harea => ?_, fun p hp harea => ?_⟩
    · have hp' : p ∈ Rect.withSize b.parent.size := by rw [h.painted.size_eq]; exact hp
      have hmem : p - a.frame.origin ∈ Rect.withSize a.frame.size := by
        have hframe := Rect.mem_iff.mp harea.1
        rw [Rect.mem_withSize]
        simp only [Point.sub_x, Point.sub_y]
        omega
      by_cases hover : area' (p - a.frame.origin)
      · rw [hlast.inside p hp' ⟨harea.1, hover⟩]
        exact hin _ hmem hover
      · rw [hlast.outside p hp' fun h => hover h.2, h.painted.inside p hp harea]
        exact hout _ hmem hover
    · have hp' : p ∈ Rect.withSize b.parent.size := by rw [h.painted.size_eq]; exact hp
      rw [hlast.outside p hp' fun h => harea ⟨h.1, trivial⟩]
      exact h.painted.outside p hp harea

theorem pixelAt_eq (h : Drawn area value a b) (ha : a.WellFormed) {p : Point}
    (hp : p ∈ Rect.withSize a.frame.size) (harea : area p) : b.pixelAt p = value p := by
  obtain ⟨-, hx, hxw, hy, hyh⟩ := ha
  have hmem := Rect.mem_withSize.mp hp
  have hback : a.frame.origin + p - a.frame.origin = p := by
    ext
    · exact add_sub_cancel_left _ _
    · exact add_sub_cancel_left _ _
  have hplace : a.frame.origin + p ∈ Rect.withSize a.parent.size := by
    rw [Rect.mem_withSize]
    simp only [Point.add_x, Point.add_y]
    omega
  have hframe : a.frame.origin + p ∈ a.frame := by
    rw [Rect.mem_iff]
    simp only [Point.add_x, Point.add_y]
    omega
  have hinside := h.painted.inside _ hplace ⟨hframe, by rw [hback]; exact harea⟩
  rw [hback] at hinside
  rw [← hinside]
  show b.parent.pixelAt (b.frame.origin + p) = _
  rw [h.frame_eq]

theorem wellFormed (h : Drawn area value a b) (ha : a.WellFormed) : b.WellFormed := by
  unfold LayerSlice.WellFormed SingleFramebufferLayer.Holds at *
  rw [h.frame_eq, h.painted.size_eq]
  exact ha

end Drawn

namespace LayerSlice

variable {slice : LayerSlice} {raw : Rect} {pixel : Pixel}

theorem WellFormed.origin_nonneg (h : slice.WellFormed) :
    0 ≤ slice.frame.origin.x ∧ 0 ≤ slice.frame.origin.y := ⟨h.2.1, h.2.2.2.1⟩

theorem fillSolid_of_outside (hout : slice.frame.maxX ≤ raw.minX ∨ slice.frame.maxY ≤ raw.minY) :
    slice.fillSolid raw pixel = some slice := by
  unfold fillSolid
  rw [Rect.constrain_eq_zero hout]
  rfl

theorem fillSolid_of_negative (h : raw.origin.x < 0 ∨ raw.origin.y < 0) :
    slice.fillSolid raw pixel = some slice := by
  by_cases hout : slice.frame.maxX ≤ raw.minX ∨ slice.frame.maxY ≤ raw.minY
  · exact fillSolid_of_outside hout
  · unfold fillSolid
    rw [Rect.constrain_eq hout]
    refine if_pos ?_
    simp only [Bool.or_eq_true, decide_eq_true_eq]
    rcases h with h | h
    · exact Or.inl (Or.inr h)
    · exact Or.inr h

/-- **A filled rectangle paints the part of it inside the slice (proved).** -/
theorem fillSolid_drawn (raw : Rect) (pixel : Pixel) (hs : slice.WellFormed) (hx : 0 ≤ raw.origin.x)
    (hxw : raw.origin.x ≤ slice.frame.size.width) (hw : 0 ≤ raw.size.width)
    (hy : 0 ≤ raw.origin.y) :
    ∃ new, slice.fillSolid raw pixel = some new ∧
      Drawn (fun p => p ∈ raw) (fun _ => pixel) slice new := by
  obtain ⟨⟨hfw, hfh⟩, hfx, hfxw, hfy, hfyh⟩ := hs
  by_cases hout : slice.frame.maxX ≤ raw.minX ∨ slice.frame.maxY ≤ raw.minY
  · refine ⟨slice, fillSolid_of_outside hout, Drawn.nothing fun p hp => ?_⟩
    rw [Rect.mem_withSize] at hp
    rw [Rect.mem_iff]
    simp only [Rect.maxX, Rect.minX, Rect.maxY, Rect.minY] at hout
    omega
  · unfold fillSolid
    rw [Rect.constrain_eq hout]
    dsimp only
    split
    · rename_i hdegenerate
      simp only [Rect.isDegenerate, Bool.or_eq_true, decide_eq_true_eq] at hdegenerate
      simp only [Rect.minX, Rect.minY, Rect.width, Rect.height] at hdegenerate
      refine ⟨slice, rfl, Drawn.nothing fun p hp => ?_⟩
      rw [Rect.mem_withSize] at hp
      rw [Rect.mem_iff]
      omega
    · simp only [Rect.width, Rect.height]
      by_cases hrows : min raw.size.height (slice.frame.size.height - raw.origin.y) ≤ 0
      · rw [Int.toNat_of_nonpos hrows]
        refine ⟨slice, rfl, Drawn.nothing fun p hp => ?_⟩
        rw [Rect.mem_withSize] at hp
        rw [Rect.mem_iff]
        omega
      obtain ⟨new, hnew, hpainted⟩ := SingleFramebufferLayer.writeRows_painted
        slice.parent (slice.frame.origin + raw.origin)
        (min raw.size.width (slice.frame.size.width - raw.origin.x))
        (fun _ => some fun _ => pixel) (fun _ => pixel) (by omega)
        (n := (min raw.size.height (slice.frame.size.height - raw.origin.y)).toNat)
        ⟨by simp only [Point.add_x]; omega, by simp only [Point.add_x]; omega,
          by simp only [Point.add_y]; omega, by simp only [Point.add_y]; omega⟩ (fun _ _ => rfl)
      rw [hnew]
      refine ⟨_, rfl, rfl, hpainted.congr fun p _ => ?_⟩
      simp only [Rect.mem_iff, Point.add_x, Point.add_y, Point.sub_x, Point.sub_y]
      omega

theorem fillSolid_eq_none (hx : 0 ≤ raw.origin.x) (hy : 0 ≤ raw.origin.y)
    (hin : ¬(slice.frame.maxX ≤ raw.minX ∨ slice.frame.maxY ≤ raw.minY))
    (hw : raw.size.width < 0 ∨ slice.frame.size.width < raw.origin.x) (hh : 0 < raw.size.height)
    (hyh : raw.origin.y < slice.frame.size.height) :
    slice.fillSolid raw pixel = none := by
  unfold fillSolid
  rw [Rect.constrain_eq hin]
  rw [if_neg]
  · simp only [Rect.width, Rect.height]
    obtain ⟨n, hn⟩ := Nat.exists_eq_succ_of_ne_zero
      (n := (min raw.size.height (slice.frame.size.height - raw.origin.y)).toNat) (by omega)
    rw [hn, Option.map_eq_none_iff]
    clear hn
    induction n with
    | zero =>
      exact if_neg (by omega)
    | succ n ih =>
      rw [SingleFramebufferLayer.writeRows, ih, Option.bind_none]
  · simp only [Rect.isDegenerate, Bool.or_eq_true, decide_eq_true_eq]
    simp only [Rect.minX, Rect.minY, Rect.width, Rect.height]
    omega

theorem constrain_whole (hs : slice.WellFormed) (hpos : slice.frame.Positive) :
    slice.frame.constrain (Rect.withSize slice.frame.size) = Rect.withSize slice.frame.size := by
  obtain ⟨hx, hy⟩ := hs.origin_nonneg
  obtain ⟨hw, hh⟩ := hpos
  rw [Rect.constrain_eq]
  · simp only [Rect.withSize, Point.zero, sub_zero, min_self]
  · simp only [Rect.maxX, Rect.minX, Rect.maxY, Rect.minY, Rect.withSize, Point.zero]
    omega

/-- The border that a slice cannot draw: wider than the slice, but not than its height, while the
slice does not end within the first columns of the framebuffer. -/
def TooNarrow (frame : Rect) : StrokeThickness → Prop
  | .filled => False
  | .width pxCount =>
    frame.size.width < pxCount ∧ pxCount ≤ frame.size.height ∧ pxCount < frame.maxX

instance (frame : Rect) : ∀ thickness, Decidable (TooNarrow frame thickness)
  | .filled => inferInstanceAs (Decidable False)
  | .width pxCount => inferInstanceAs (Decidable
      (frame.size.width < pxCount ∧ pxCount ≤ frame.size.height ∧ pxCount < frame.maxX))

theorem fillRect_width_eq {axle : Bool} {color : Color} {n : ℤ} (hs : slice.WellFormed)
    (hpos : slice.frame.Positive) (hn : 0 < n) :
    slice.fillRect axle (Rect.withSize slice.frame.size) color (.width n) =
      (slice.fillSolid ⟨⟨0, 0⟩, ⟨slice.frame.size.width, n⟩⟩ (color.bytes (wordLayout axle))).bind
        fun slice' => (slice'.fillSolid ⟨⟨0, 0⟩, ⟨n, slice.frame.size.height⟩⟩
          (color.bytes (wordLayout axle))).bind
        fun slice' => (slice'.fillSolid ⟨⟨n, slice.frame.size.height - n⟩,
          ⟨slice.frame.size.width - n, n⟩⟩ (color.bytes (wordLayout axle))).bind
        fun slice' => slice'.fillSolid ⟨⟨slice.frame.size.width - n, n⟩,
          ⟨n, slice.frame.size.height - n * 2⟩⟩ (color.bytes (wordLayout axle)) := by
  obtain ⟨hw, hh⟩ := hpos
  unfold fillRect
  simp only [constrain_whole hs ⟨hw, hh⟩]
  rw [if_neg, if_pos hn]
  · simp only [Rect.withSize, Point.zero, Rect.maxX, Rect.maxY, Rect.minX, Rect.minY, Rect.width,
      Rect.height, zero_add]
  · simp only [Rect.isDegenerate, Bool.or_eq_true, decide_eq_true_eq]
    simp only [Rect.withSize, Point.zero, Rect.minX, Rect.minY, Rect.width, Rect.height]
    omega

section Border

variable (axle : Bool) (color : Color) {n : ℤ} (hs : slice.WellFormed)
  (hpos : slice.frame.Positive) (hn : 0 < n)
include hs hpos hn

/-- The top and the left side, whatever the size of the slice. -/
theorem fillTopLeft_drawn (pixel : Pixel) : ∃ top left,
    slice.fillSolid ⟨⟨0, 0⟩, ⟨slice.frame.size.width, n⟩⟩ pixel = some top ∧
      top.fillSolid ⟨⟨0, 0⟩, ⟨n, slice.frame.size.height⟩⟩ pixel = some left ∧
      Drawn (fun p => p ∈ Rect.withSize slice.frame.size ∧ (p.x < n ∨ p.y < n)) (fun _ => pixel)
        slice left := by
  obtain ⟨hw, hh⟩ := hpos
  obtain ⟨top, htop, hdrawn⟩ := fillSolid_drawn ⟨⟨0, 0⟩, ⟨slice.frame.size.width, n⟩⟩ pixel hs
    (le_refl 0) hw.le hw.le (le_refl 0)
  have hsize : top.frame = slice.frame := hdrawn.frame_eq
  obtain ⟨left, hleft, hdrawn'⟩ := fillSolid_drawn
    ⟨⟨0, 0⟩, ⟨n, slice.frame.size.height⟩⟩ pixel (hdrawn.wellFormed hs)
    (le_refl 0) (by rw [hsize]; exact hw.le) hn.le (le_refl 0)
  refine ⟨top, left, htop, hleft, (hdrawn.trans hdrawn').congr fun p hp => ?_⟩
  rw [Rect.mem_withSize] at hp ⊢
  simp only [Rect.mem_iff]
  omega

/-- **A border paints the points near the four edges (proved).** -/
theorem fillRect_width_drawn (hwide : ¬TooNarrow slice.frame (.width n)) :
    ∃ new, slice.fillRect axle (Rect.withSize slice.frame.size) color (.width n) = some new ∧
      Drawn (fun p => p ∈ Rect.withSize slice.frame.size ∧
          (p.x < n ∨ p.y < n ∨ slice.frame.size.width - n ≤ p.x ∨
            slice.frame.size.height - n ≤ p.y))
        (fun _ => color.bytes (wordLayout axle)) slice new := by
  obtain ⟨top, left, htop, hleft, hdrawn⟩ :=
    fillTopLeft_drawn hs hpos hn (color.bytes (wordLayout axle))
  have hframe : left.frame = slice.frame := hdrawn.frame_eq
  obtain ⟨hw, hh⟩ := hpos
  have hleftSound := hdrawn.wellFormed hs
  -- the bottom side
  obtain ⟨bottom, hbottom, hdrawn'⟩ : ∃ bottom,
      left.fillSolid ⟨⟨n, slice.frame.size.height - n⟩, ⟨slice.frame.size.width - n, n⟩⟩
        (color.bytes (wordLayout axle)) = some bottom ∧
      Drawn (fun p => p ∈ Rect.withSize slice.frame.size ∧ n ≤ slice.frame.size.height ∧
        n ≤ p.x ∧ slice.frame.size.height - n ≤ p.y) (fun _ => color.bytes (wordLayout axle))
        left bottom := by
    by_cases hlow : slice.frame.size.height < n
    · refine ⟨left, fillSolid_of_negative (Or.inr (by dsimp only; omega)),
        Drawn.nothing fun p _ => ?_⟩
      omega
    by_cases hnarrow : slice.frame.size.width < n
    · refine ⟨left, fillSolid_of_outside (Or.inl ?_), Drawn.nothing fun p _ hp => ?_⟩
      · have hend : ¬n < slice.frame.maxX := fun h => hwide ⟨hnarrow, by omega, h⟩
        rw [hframe]
        simp only [Rect.minX]
        omega
      · have hmem := Rect.mem_withSize.mp hp.1
        omega
    · obtain ⟨bottom, hbottom, hdrawn'⟩ := fillSolid_drawn
        ⟨⟨n, slice.frame.size.height - n⟩, ⟨slice.frame.size.width - n, n⟩⟩
        (color.bytes (wordLayout axle)) hleftSound hn.le
        (by rw [hframe]; dsimp only; omega) (by dsimp only; omega) (by dsimp only; omega)
      refine ⟨bottom, hbottom, hdrawn'.congr fun p hp => ?_⟩
      rw [hframe] at hp
      have hmem := Rect.mem_withSize.mp hp
      simp only [Rect.mem_iff, hp, true_and]
      omega
  have hframe' : bottom.frame = slice.frame := hdrawn'.frame_eq.trans hframe
  -- the right side
  obtain ⟨right, hright, hdrawn''⟩ : ∃ right,
      bottom.fillSolid ⟨⟨slice.frame.size.width - n, n⟩, ⟨n, slice.frame.size.height - n * 2⟩⟩
        (color.bytes (wordLayout axle)) = some right ∧
      Drawn (fun p => n ≤ slice.frame.size.width ∧ slice.frame.size.width - n ≤ p.x ∧ n ≤ p.y ∧
        p.y < slice.frame.size.height - n) (fun _ => color.bytes (wordLayout axle))
        bottom right := by
    by_cases hnarrow : slice.frame.size.width < n
    · refine ⟨bottom, fillSolid_of_negative (Or.inl (by dsimp only; omega)),
        Drawn.nothing fun p _ => ?_⟩
      omega
    · obtain ⟨right, hright, hdrawn''⟩ := fillSolid_drawn
        ⟨⟨slice.frame.size.width - n, n⟩, ⟨n, slice.frame.size.height - n * 2⟩⟩
        (color.bytes (wordLayout axle)) (hdrawn'.wellFormed hleftSound)
        (by dsimp only; omega) (by rw [hframe']; dsimp only; omega) hn.le hn.le
      refine ⟨right, hright, hdrawn''.congr fun p hp => ?_⟩
      rw [hframe'] at hp
      have hmem := Rect.mem_withSize.mp hp
      simp only [Rect.mem_iff]
      omega
  refine ⟨right, ?_, ((hdrawn.trans hdrawn').trans hdrawn'').congr fun p hp => ?_⟩
  · rw [fillRect_width_eq hs ⟨hw, hh⟩ hn, htop, Option.bind_some, hleft, Option.bind_some, hbottom,
      Option.bind_some]
    exact hright
  · have hmem := Rect.mem_withSize.mp hp
    simp only [hp, true_and]
    omega

/-- **Where the border is wider than the slice, a row ends before it starts (proved).** -/
theorem fillRect_width_eq_none (hnarrow : TooNarrow slice.frame (.width n)) :
    slice.fillRect axle (Rect.withSize slice.frame.size) color (.width n) = none := by
  obtain ⟨top, left, htop, hleft, hdrawn⟩ :=
    fillTopLeft_drawn hs hpos hn (color.bytes (wordLayout axle))
  have hframe : left.frame = slice.frame := hdrawn.frame_eq
  obtain ⟨hw, hh⟩ := hpos
  obtain ⟨hlt, hle, hend⟩ := hnarrow
  obtain ⟨hox, hoy⟩ := hs.origin_nonneg
  rw [fillRect_width_eq hs ⟨hw, hh⟩ hn, htop, Option.bind_some, hleft, Option.bind_some,
    fillSolid_eq_none, Option.bind_none]
  · exact hn.le
  · show 0 ≤ slice.frame.size.height - n
    omega
  · rw [hframe]
    simp only [Rect.maxX, Rect.maxY, Rect.minX, Rect.minY] at hend ⊢
    omega
  · left
    show slice.frame.size.width - n < 0
    omega
  · exact hn
  · rw [hframe]
    show slice.frame.size.height - n < slice.frame.size.height
    omega

end Border

section Fill

variable (axle : Bool) (color : Color) {thickness : StrokeThickness} (hs : slice.WellFormed)
  (hpos : slice.frame.Positive)
include hs hpos

/-- **What `fill_rect` of a whole slice paints (proved).** -/
theorem fillRect_drawn (hwide : ¬TooNarrow slice.frame thickness) :
    ∃ new, slice.fillRect axle (Rect.withSize slice.frame.size) color thickness = some new ∧
      Drawn ((Rect.withSize slice.frame.size).Stroke thickness)
        (fun _ => color.bytes (wordLayout axle)) slice new := by
  cases thickness with
  | filled => exact fillSolid_drawn _ _ hs (le_refl 0) hpos.1.le hpos.1.le (le_refl 0)
  | width n =>
    rcases le_or_gt n 0 with hn | hn
    · refine ⟨slice, ?_, Drawn.nothing fun p hp hstroke => ?_⟩
      · unfold fillRect
        dsimp only
        rw [if_neg (not_lt.mpr hn), ite_self]
      · have hmem := Rect.mem_withSize.mp hp
        have hnear := hstroke.2
        simp only [Rect.withSize, Point.zero, Rect.minX, Rect.minY, Rect.maxX, Rect.maxY] at hnear
        omega
    · obtain ⟨new, hnew, hdrawn⟩ := fillRect_width_drawn axle color hs hpos hn
        hwide
      refine ⟨new, hnew, hdrawn.congr fun p _ => ?_⟩
      simp only [Rect.Stroke, Rect.withSize, Point.zero, Rect.minX, Rect.minY, Rect.maxX,
        Rect.maxY, zero_add]

theorem fillRect_eq_none (hnarrow : TooNarrow slice.frame thickness) :
    slice.fillRect axle (Rect.withSize slice.frame.size) color thickness = none := by
  cases thickness with
  | filled => exact hnarrow.elim
  | width n =>
    exact fillRect_width_eq_none axle color hs hpos (lt_of_le_of_lt hpos.1.le hnarrow.1) hnarrow

end Fill

/-! ### Copying a slice -/

/-- **A blit copies the pixels of a slice of the same size (proved).** -/
theorem blit2_drawn {source : LayerSlice} (hs : slice.WellFormed) (hsource : source.WellFormed)
    (hsize : slice.frame.size = source.frame.size) :
    ∃ new, slice.blit2 source = some new ∧ Drawn (fun _ => True) source.pixelAt slice new := by
  obtain ⟨⟨hw, hh⟩, hholds⟩ := hs
  obtain ⟨hx, hxw, hy, hyh⟩ := hholds
  obtain ⟨-, hsx, hsxw, hsy, hsyh⟩ := hsource
  unfold blit2
  split
  · rename_i hdegenerate
    simp only [Rect.isDegenerate, Bool.or_eq_true, decide_eq_true_eq] at hdegenerate
    simp only [Rect.width, Rect.height] at hdegenerate
    refine ⟨slice, rfl, Drawn.nothing fun p hp => ?_⟩
    rw [Rect.mem_withSize] at hp
    omega
  · rw [if_neg (not_not_intro hsize), if_neg (by
      simp only [Bool.or_eq_true, decide_eq_true_eq]
      omega)]
    have hrow : ∀ y : ℕ, y < slice.frame.height.toNat → source.pixelRow y =
        some fun x => source.pixelAt (slice.frame.origin + ⟨x, y⟩ - slice.frame.origin) := by
      intro y hlt
      have hwidth : slice.frame.size.width = source.frame.size.width := by rw [hsize]
      have hheight : slice.frame.size.height = source.frame.size.height := by rw [hsize]
      have hlt' : (y : ℤ) < source.frame.size.height := by
        simp only [Rect.height] at hlt
        omega
      have hplace : source.parent.offset source.frame.origin + y * source.parent.size.width
          = (source.frame.origin.y + y) * source.parent.size.width + source.frame.origin.x := by
        rw [SingleFramebufferLayer.offset]
        ring
      have hbounds := SingleFramebufferLayer.row_bounds source.parent
        source.frame.width hsx (by simp only [Rect.width]; omega) hsxw
        (y := source.frame.origin.y + y) (by omega) (by omega)
      unfold pixelRow
      rw [hplace, if_pos hbounds]
      refine congrArg some (funext fun x => ?_)
      show source.parent.pixels _ = source.parent.pixels _
      simp only [SingleFramebufferLayer.offset, Point.add_x, Point.add_y, Point.sub_x, Point.sub_y]
      ring
    obtain ⟨new, hnew, hpainted⟩ := SingleFramebufferLayer.writeRows_painted
      slice.parent slice.frame.origin slice.frame.width source.pixelRow
      (fun p => source.pixelAt (p - slice.frame.origin)) hw (n := slice.frame.height.toNat)
      ⟨hx, hxw, hy, by simp only [Rect.height]; omega⟩ hrow
    rw [hnew]
    refine ⟨_, rfl, rfl, hpainted.congr fun p _ => ?_⟩
    simp only [Rect.mem_iff, Rect.width, Rect.height, and_true]
    omega

theorem getSlice_eq {rect : Rect} (hw : 0 < rect.size.width) (hh : 0 < rect.size.height)
    (hxw : rect.origin.x + rect.size.width ≤ slice.frame.size.width)
    (hyh : rect.origin.y + rect.size.height ≤ slice.frame.size.height) :
    slice.getSlice rect = ⟨slice.parent, ⟨slice.frame.origin + rect.origin, rect.size⟩⟩ := by
  unfold getSlice
  rw [Rect.constrain_withSize hw hh hxw hyh]

end LayerSlice

end Axle.Agx
