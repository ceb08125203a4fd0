import Axle.Agx.Layer

/-!
# The two blits

`blit` copies a frame of one slice to a place in another one, `blit2` a whole slice onto one of the
same size.  `blit` reads its source through `pixel_data`, which adds the origin of the slice twice,
and never moves on in the target: every row is written over the first one.

* `blitLoop_eq` — **PROVED**: what the loop leaves is its last row, at the place of the first;
* `blit_drawn` / `blit_eq_none` — **PROVED**: the effect of `blit`, and when it panics;
* `blitsAgree_iff` — **PROVED**: for which slices of the same size the two blits copy the slice.

Rows are counted in pixels here, four bytes each.  An offset below zero is a panic: the source casts
it to an index that is too large.
-/

namespace Axle.Agx

/-! ### The source -/

/-- The points of a rectangle, row by row. -/
def Rect.rowPoints (r : Rect) : List Point :=
  (List.range r.height.toNat).flatMap fun y : ℕ =>
    (List.range r.width.toNat).map fun x : ℕ => ⟨r.minX + x, r.minY + y⟩

namespace LayerSlice

/-- The place of a point of the frame in `pixel_data`.  The point is in the coordinates of the
parent already, and the origin of the slice is added to it. -/
def pixelDataOffset (slice : LayerSlice) (p : Point) : ℤ :=
  slice.parent.offset slice.frame.origin + slice.parent.offset p

def pixelDataAt (slice : LayerSlice) (p : Point) : Option Pixel :=
  if 0 ≤ slice.pixelDataOffset p ∧ slice.pixelDataOffset p < slice.parent.len then
    some (slice.parent.pixels (slice.pixelDataOffset p))
  else none

def pixelData (slice : LayerSlice) : Option (List Pixel) :=
  slice.frame.rowPoints.mapM slice.pixelDataAt

end LayerSlice

/-- Copy `width` pixels of the source from `srcRowStart` on. -/
def SingleFramebufferLayer.copyFromSlice (layer : SingleFramebufferLayer)
    (dstRowStart width : ℤ) (srcPixels : List Pixel) (srcRowStart : ℤ) :
    Option SingleFramebufferLayer :=
  if 0 ≤ srcRowStart ∧ srcRowStart + width ≤ srcPixels.length then
    layer.writeRow dstRowStart width fun x => srcPixels.getD (srcRowStart + x).toNat ⟨0, 0, 0, 0⟩
  else none

/-- What stays the same from row to row in `blit`.  The place in the target is one of these. -/
structure BlitArgs where
  destMaxY : ℤ
  totalPxInLayer : ℤ
  transferrablePx : ℤ
  dstRowStartToParent : ℤ
  destWidth : ℤ
  srcWidth : ℤ
  srcPixels : List Pixel

/-- The loop over the rows: `rows` of them are left, the next one is row `i`. -/
def blitLoop (args : BlitArgs) : (rows i : ℕ) → (destRowStart srcRowStart : ℤ) →
    SingleFramebufferLayer → Option SingleFramebufferLayer
  | 0, _, _, _, layer => some layer
  | rows + 1, i, destRowStart, srcRowStart, layer =>
    if args.destMaxY ≤ i then some layer
    else if args.totalPxInLayer ≤ destRowStart then some layer
    else
      (layer.copyFromSlice args.dstRowStartToParent args.transferrablePx args.srcPixels
        srcRowStart).bind
        (blitLoop args rows (i + 1) (destRowStart + args.destWidth) (srcRowStart + args.srcWidth))

namespace LayerSlice

/-- `blit`; where the two slices share their framebuffer, `pixel_data` borrows it a second time. -/
def blit (sameFramebuffer : Bool) (slice source : LayerSlice) (srcFrame : Rect)
    (destOrigin : Point) : Option LayerSlice :=
  let destFrame : Rect := ⟨destOrigin, srcFrame.size⟩
  let destRowStart := destFrame.minY * slice.frame.size.width + destFrame.minX
  let srcRowStart := srcFrame.minY * source.frame.size.width + srcFrame.minX
  let overhang := srcFrame.maxY - source.frame.size.height
  let transferrableRows := if overhang > 0 then srcFrame.height - overhang else srcFrame.height
  if sameFramebuffer then none
  else
    source.pixelData.bind fun srcPixels =>
      (blitLoop {
          destMaxY := destFrame.maxY
          totalPxInLayer := slice.frame.size.width * slice.frame.size.height
          transferrablePx := min srcFrame.width destFrame.width
          dstRowStartToParent := slice.parent.offset slice.frame.origin + destRowStart
          destWidth := slice.frame.size.width
          srcWidth := source.frame.size.width
          srcPixels
        } transferrableRows.toNat 0 destRowStart srcRowStart slice.parent).map
        fun parent => { slice with parent }

/-- `blit2` of slices that may share their framebuffer: the row pointer of the source borrows it a
second time. -/
def blit2Borrowed (sameFramebuffer : Bool) (slice source : LayerSlice) : Option LayerSlice :=
  if sameFramebuffer && !(slice.frame.isDegenerate || slice.frame.origin.x < 0 ||
      slice.frame.origin.y < 0) then none
  else slice.blit2 source

end LayerSlice

/-! ### Rows of points -/

variable {w : ℕ} {α β : Type*} {f : α → Option β} {area : Point → Prop} {value : Point → Pixel}
  {a b : LayerSlice}

theorem length_flatMap_range (f : ℕ → List α) (hf : ∀ y, (f y).length = w) (h : ℕ) :
    ((List.range h).flatMap f).length = h * w := by
  simp only [List.length_flatMap, hf, List.map_const', List.length_range, List.sum_replicate,
    smul_eq_mul]

theorem getElem?_flatMap_range (f : ℕ → List α) {w x y : ℕ} (hf : ∀ y, (f y).length = w)
    (hx : x < w) : ∀ {h : ℕ}, y < h → ((List.range h).flatMap f)[y * w + x]? = (f y)[x]?
  | h + 1, hy => by
    rw [List.range_succ, List.flatMap_append, List.flatMap_singleton]
    have hlength := length_flatMap_range f hf h
    rcases Nat.lt_succ_iff_lt_or_eq.mp hy with hlt | rfl
    · have hrow : (y + 1) * w ≤ h * w := Nat.mul_le_mul_right w hlt
      rw [add_mul, one_mul] at hrow
      rw [List.getElem?_append_left (by omega)]
      exact getElem?_flatMap_range f hf hx hlt
    · rw [List.getElem?_append_right (by omega), hlength, Nat.add_sub_cancel_left]

theorem mapM_eq_map {g : α → β} :
    ∀ {l : List α}, (∀ a ∈ l, f a = some (g a)) → l.mapM f = some (l.map g)
  | [], _ => rfl
  | a :: l, h => by
    rw [List.mapM_cons, h a List.mem_cons_self,
      mapM_eq_map fun b hb => h b (List.mem_cons_of_mem a hb)]
    rfl

theorem mapM_eq_none {a : α} (ha : f a = none) : ∀ {l : List α}, a ∈ l → l.mapM f = none
  | b :: l, hmem => by
    rw [List.mapM_cons]
    rcases List.mem_cons.mp hmem with rfl | htail
    · rw [ha]
      rfl
    · rw [mapM_eq_none ha htail]
      cases f b <;> rfl

namespace Rect

variable {r : Rect}

theorem mem_rowPoints {p : Point} : p ∈ r.rowPoints ↔ p ∈ r := by
  simp only [rowPoints, List.mem_flatMap, List.mem_map, List.mem_range, mem_iff, width, height,
    minX, minY]
  constructor
  · rintro ⟨y, hy, x, hx, rfl⟩
    dsimp only
    omega
  · intro hp
    refine ⟨(p.y - r.origin.y).toNat, by omega, (p.x - r.origin.x).toNat, by omega, ?_⟩
    ext
    · dsimp only
      omega
    · dsimp only
      omega

/-- A statement about the points of a rectangle is checked row by row. -/
instance (P : Point → Prop) [DecidablePred P] : Decidable (∀ p ∈ r, P p) :=
  decidable_of_iff (∀ p ∈ r.rowPoints, P p) (by simp only [mem_rowPoints])

theorem length_rowPoints : r.rowPoints.length = r.height.toNat * r.width.toNat :=
  length_flatMap_range _ (fun _ => by rw [List.length_map, List.length_range]) _

theorem getElem?_rowPoints {x y : ℕ} (hx : x < r.width.toNat) (hy : y < r.height.toNat) :
    r.rowPoints[y * r.width.toNat + x]? = some ⟨r.minX + x, r.minY + y⟩ := by
  rw [rowPoints, getElem?_flatMap_range _
    (fun _ => by rw [List.length_map, List.length_range]) hx hy, List.getElem?_map,
    List.getElem?_range hx, Option.map_some]

end Rect

theorem Painted.value_congr {value value' : Point → Pixel} {old new : SingleFramebufferLayer}
    (h : Painted area value old new) (heq : ∀ p, area p → value p = value' p) :
    Painted area value' old new where
  size_eq := h.size_eq
  layout_eq := h.layout_eq
  inside p hp harea := (h.inside p hp harea).trans (heq p harea)
  outside := h.outside

/-- The layers have the same size and show the same pixels. -/
def SingleFramebufferLayer.Same (a b : SingleFramebufferLayer) : Prop :=
  a.size = b.size ∧ a.pixelLayout = b.pixelLayout ∧
    ∀ p ∈ Rect.withSize a.size, a.pixelAt p = b.pixelAt p

theorem Painted.same {old a b : SingleFramebufferLayer} (ha : Painted area value old a)
    (hb : Painted area value old b) : a.Same b := by
  refine ⟨ha.size_eq.trans hb.size_eq.symm, ha.layout_eq.trans hb.layout_eq.symm, fun p hp => ?_⟩
  rw [ha.size_eq] at hp
  by_cases harea : area p
  · rw [ha.inside p hp harea, hb.inside p hp harea]
  · rw [ha.outside p hp harea, hb.outside p hp harea]

/-- Where nothing is painted, the slice shows what it did before. -/
theorem Drawn.pixelAt_old (h : Drawn area value a b) (ha : a.WellFormed) {p : Point}
    (hp : p ∈ Rect.withSize a.frame.size) (harea : ¬area p) : b.pixelAt p = a.pixelAt p := by
  obtain ⟨-, hx, hxw, hy, hyh⟩ := ha
  have hmem := Rect.mem_withSize.mp hp
  have hback : a.frame.origin + p - a.frame.origin = p := by
    ext
    · exact add_sub_cancel_left _ _
    · exact add_sub_cancel_left _ _
  rw [LayerSlice.pixelAt, h.frame_eq]
  refine h.painted.outside _ ?_ fun hin => harea (by rw [← hback]; exact hin.2)
  rw [Rect.mem_withSize]
  simp only [Point.add_x, Point.add_y]
  omega

/-- When a slice that was drawn in one place is drawn as a whole. -/
theorem Drawn.whole_iff {value whole : Point → Pixel} (h : Drawn area value a b)
    (ha : a.WellFormed) :
    Drawn (fun _ => True) whole a b ↔ ∀ p ∈ Rect.withSize a.frame.size,
      (area p → value p = whole p) ∧ (¬area p → a.pixelAt p = whole p) := by
  constructor
  · intro hwhole p hp
    have hpixel := hwhole.pixelAt_eq ha hp trivial
    refine ⟨fun harea => ?_, fun harea => ?_⟩
    · rw [← hpixel, h.pixelAt_eq ha hp harea]
    · rw [← hpixel, h.pixelAt_old ha hp harea]
  · intro hpixels
    refine ⟨h.frame_eq, h.painted.size_eq, h.painted.layout_eq, fun p hp hin => ?_, fun p hp hout =>
      h.painted.outside p hp fun hin => hout ⟨hin.1, trivial⟩⟩
    have hmem := Rect.mem_iff.mp hin.1
    obtain ⟨hdrawn, hold⟩ := hpixels (p - a.frame.origin) (by
      rw [Rect.mem_withSize]
      simp only [Point.sub_x, Point.sub_y]
      omega)
    by_cases harea : area (p - a.frame.origin)
    · rw [h.painted.inside p hp ⟨hin.1, harea⟩, hdrawn harea]
    · rw [h.painted.outside p hp fun hin => harea hin.2, ← hold harea, LayerSlice.pixelAt]
      congr 1
      ext
      · exact (add_sub_cancel _ _).symm
      · exact (add_sub_cancel _ _).symm

/-! ### The loop -/

theorem SingleFramebufferLayer.writeRow_writeRow (layer : SingleFramebufferLayer)
    (rowStart width : ℤ) (row row' : ℤ → Pixel) :
    ((layer.writeRow rowStart width row).bind fun layer => layer.writeRow rowStart width row') =
      layer.writeRow rowStart width row' := by
  unfold writeRow
  split
  · rename_i hfits
    refine (if_pos hfits).trans ?_
    congr 2
    funext off
    split
    · rfl
    · rename_i hout
      exact if_neg hout
  · rfl

/-- **What the loop leaves (proved).**  The rows are all written to the same place. -/
theorem blitLoop_eq {args : BlitArgs} (hw : 0 < args.transferrablePx)
    (hdest : args.destWidth = args.transferrablePx) (hsrc : args.srcWidth = args.transferrablePx)
    (htotal : args.totalPxInLayer = args.destMaxY * args.transferrablePx)
    (hlength : args.srcPixels.length = args.destMaxY * args.transferrablePx) :
    ∀ {rows i : ℕ} (layer : SingleFramebufferLayer), (i : ℤ) + rows < args.destMaxY →
      blitLoop args (rows + 1) i (i * args.transferrablePx) (i * args.transferrablePx) layer =
        layer.writeRow args.dstRowStartToParent args.transferrablePx fun x =>
          args.srcPixels.getD ((i + rows) * args.transferrablePx + x).toNat ⟨0, 0, 0, 0⟩ := by
  intro rows
  induction rows with
  | zero =>
    intro i layer hi
    have hrow : ((i : ℤ) + 1) * args.transferrablePx ≤ args.destMaxY * args.transferrablePx :=
      mul_le_mul_of_nonneg_right (by omega) hw.le
    have hstart : 0 ≤ (i : ℤ) * args.transferrablePx := mul_nonneg (by omega) hw.le
    rw [add_mul, one_mul] at hrow
    rw [blitLoop, if_neg (by omega), if_neg (by omega),
      SingleFramebufferLayer.copyFromSlice, if_pos (by omega), Nat.cast_zero, add_zero]
    exact Option.bind_fun_some _
  | succ rows ih =>
    intro i layer hi
    have hrow : ((i : ℤ) + 1) * args.transferrablePx ≤ args.destMaxY * args.transferrablePx :=
      mul_le_mul_of_nonneg_right (by omega) hw.le
    have hstart : 0 ≤ (i : ℤ) * args.transferrablePx := mul_nonneg (by omega) hw.le
    rw [add_mul, one_mul] at hrow
    rw [blitLoop, if_neg (by omega), if_neg (by omega),
      SingleFramebufferLayer.copyFromSlice, if_pos (by omega), hdest, hsrc]
    have hnext : (i : ℤ) * args.transferrablePx + args.transferrablePx
        = ((i + 1 : ℕ) : ℤ) * args.transferrablePx := by
      push_cast
      ring
    rw [hnext]
    have hlast : ∀ layer, blitLoop args (rows + 1) (i + 1)
        (((i + 1 : ℕ) : ℤ) * args.transferrablePx) (((i + 1 : ℕ) : ℤ) * args.transferrablePx)
        layer = _ := fun layer => ih layer (by omega)
    rw [funext hlast, SingleFramebufferLayer.writeRow_writeRow]
    push_cast
    rw [show (i : ℤ) + 1 + rows = i + (rows + 1) by omega]

namespace LayerSlice

variable {slice source : LayerSlice}

/-! ### `pixel_data` -/

/-- The frame of the source, moved by its origin once more, ends in the framebuffer. -/
def PixelDataFits (source : LayerSlice) : Prop :=
  ∀ p ∈ Rect.withSize source.frame.size,
    source.pixelDataOffset (source.frame.origin + p) < source.parent.len

/-- What `pixel_data` has for a point of the slice. -/
def pixelDataPixel (source : LayerSlice) (p : Point) : Pixel :=
  source.parent.pixels (source.pixelDataOffset (source.frame.origin + p))

theorem pixelDataOffset_nonneg (hsource : source.WellFormed) {p : Point} (hp : p ∈ source.frame) :
    0 ≤ source.pixelDataOffset p := by
  obtain ⟨⟨hw, hh⟩, hx, hxw, hy, hyh⟩ := hsource
  rw [Rect.mem_iff] at hp
  have hwidth : 0 ≤ source.parent.size.width := by omega
  have horigin := mul_nonneg hy hwidth
  have hplace := mul_nonneg (show 0 ≤ p.y by omega) hwidth
  simp only [pixelDataOffset, SingleFramebufferLayer.offset]
  omega

theorem pixelData_eq (hsource : source.WellFormed) (hfits : PixelDataFits source) :
    source.pixelData =
      some (source.frame.rowPoints.map fun p => source.parent.pixels (source.pixelDataOffset p)) := by
  refine mapM_eq_map fun p hp => ?_
  rw [Rect.mem_rowPoints] at hp
  have hlt := hfits (p - source.frame.origin) (by
    rw [Rect.mem_iff] at hp
    rw [Rect.mem_withSize]
    simp only [Point.sub_x, Point.sub_y]
    omega)
  rw [show source.frame.origin + (p - source.frame.origin) = p by
    ext
    · exact add_sub_cancel _ _
    · exact add_sub_cancel _ _] at hlt
  exact if_pos ⟨pixelDataOffset_nonneg hsource hp, hlt⟩

theorem pixelData_eq_none (hfits : ¬PixelDataFits source) : source.pixelData = none := by
  unfold PixelDataFits at hfits
  push Not at hfits
  obtain ⟨p, hp, hle⟩ := hfits
  refine mapM_eq_none (a := source.frame.origin + p) (if_neg (by omega)) ?_
  rw [Rect.mem_withSize] at hp
  rw [Rect.mem_rowPoints, Rect.mem_iff]
  simp only [Point.add_x, Point.add_y]
  omega

/-! ### `blit` -/

theorem blit_eq (hsize : slice.frame.size = source.frame.size) :
    slice.blit false source (.withSize source.frame.size) .zero =
      source.pixelData.bind fun srcPixels => (blitLoop
        ⟨slice.frame.size.height, slice.frame.size.width * slice.frame.size.height,
          slice.frame.size.width, slice.parent.offset slice.frame.origin, slice.frame.size.width,
          slice.frame.size.width, srcPixels⟩
        slice.frame.size.height.toNat 0 0 0 slice.parent).map
        fun parent => { slice with parent } := by
  unfold blit
  simp only [Rect.withSize, Point.zero, Rect.minX, Rect.minY, Rect.maxY, Rect.width, Rect.height,
    ← hsize, zero_add, zero_mul, add_zero, sub_self, gt_iff_lt, lt_self_iff_false, if_false,
    min_self, Bool.false_eq_true]

/-- **The effect of `blit` (proved).**  The first row of the target gets the last row that
`pixel_data` has. -/
theorem blit_drawn (hs : slice.WellFormed) (hsource : source.WellFormed)
    (hsize : slice.frame.size = source.frame.size) (hpos : slice.frame.Positive)
    (hfits : PixelDataFits source) :
    ∃ new, slice.blit false source (.withSize source.frame.size) .zero = some new ∧
      Drawn (fun p => p.y = 0)
        (fun p => source.pixelDataPixel ⟨p.x, source.frame.size.height - 1⟩) slice new := by
  obtain ⟨⟨-, -⟩, hx, hxw, hy, hyh⟩ := hs
  obtain ⟨hw, hh⟩ := hpos
  rw [blit_eq hsize, pixelData_eq hsource hfits, Option.bind_some]
  obtain ⟨rows, hrows⟩ := Nat.exists_eq_succ_of_ne_zero
    (n := slice.frame.size.height.toNat) (by omega)
  have hwidth : source.frame.width = slice.frame.size.width := by rw [Rect.width, hsize]
  have hheight : source.frame.height = slice.frame.size.height := by rw [Rect.height, hsize]
  have hloop := @blitLoop_eq
    ⟨slice.frame.size.height, slice.frame.size.width * slice.frame.size.height,
      slice.frame.size.width, slice.parent.offset slice.frame.origin, slice.frame.size.width,
      slice.frame.size.width,
      source.frame.rowPoints.map fun p => source.parent.pixels (source.pixelDataOffset p)⟩
    hw rfl rfl (mul_comm _ _)
    (by
      rw [List.length_map, Rect.length_rowPoints, hwidth, hheight]
      push_cast
      rw [Int.toNat_of_nonneg hw.le, Int.toNat_of_nonneg hh.le])
    rows 0 slice.parent (by dsimp only; omega)
  rw [Nat.cast_zero, zero_mul, zero_add] at hloop
  obtain ⟨new, hnew, hpainted⟩ := SingleFramebufferLayer.writeRow_painted slice.parent
    (fun x => (source.frame.rowPoints.map fun p =>
      source.parent.pixels (source.pixelDataOffset p)).getD
        ((rows : ℤ) * slice.frame.size.width + x).toNat ⟨0, 0, 0, 0⟩) hx hw.le hxw hy (by omega)
  rw [hrows, Nat.succ_eq_add_one, hloop]
  rw [SingleFramebufferLayer.offset, hnew]
  refine ⟨_, rfl, rfl, (hpainted.congr fun p _ => ?_).value_congr fun p hp => ?_⟩
  · simp only [Rect.mem_iff, Point.sub_y]
    omega
  · have hmem := Rect.mem_iff.mp hp.1
    have hcast : ((p.x - slice.frame.origin.x).toNat : ℤ) = p.x - slice.frame.origin.x :=
      Int.toNat_of_nonneg (by omega)
    have hindex : ((rows : ℤ) * slice.frame.size.width + (p.x - slice.frame.origin.x)).toNat
        = rows * source.frame.width.toNat + (p.x - slice.frame.origin.x).toNat := by
      rw [hwidth]
      have hw' : ((slice.frame.size.width.toNat : ℕ) : ℤ) = slice.frame.size.width :=
        Int.toNat_of_nonneg hw.le
      rw [← hcast, ← hw', Int.toNat_natCast]
      exact Int.toNat_natCast _
    rw [hindex, List.getD_eq_getElem?_getD, List.getElem?_map,
      Rect.getElem?_rowPoints (by omega) (by omega)]
    rw [pixelDataPixel, ← hsize, Option.map_some, Option.getD_some]
    congr 2
    ext
    · exact congrArg (source.frame.origin.x + ·) hcast
    · show source.frame.origin.y + (rows : ℤ) = source.frame.origin.y + (slice.frame.size.height - 1)
      omega

theorem blit_eq_none (hsize : slice.frame.size = source.frame.size)
    (hfits : ¬PixelDataFits source) :
    slice.blit false source (.withSize source.frame.size) .zero = none := by
  rw [blit_eq hsize, pixelData_eq_none hfits, Option.bind_none]

/-- Without pixels there is nothing to read and nothing to copy. -/
theorem blit_degenerate (hsize : slice.frame.size = source.frame.size)
    (hdegenerate : slice.frame.isDegenerate = true) :
    slice.blit false source (.withSize source.frame.size) .zero = some slice := by
  simp only [Rect.isDegenerate, Bool.or_eq_true, decide_eq_true_eq] at hdegenerate
  simp only [Rect.width, Rect.height] at hdegenerate
  have hempty : source.frame.rowPoints = [] := by
    rw [← List.length_eq_zero_iff, Rect.length_rowPoints, Rect.width, Rect.height, ← hsize]
    rcases hdegenerate with h | h
    · rw [h, Int.toNat_zero, mul_zero]
    · rw [h, Int.toNat_zero, zero_mul]
  rw [blit_eq hsize, pixelData, hempty]
  show ((blitLoop _ slice.frame.size.height.toNat 0 0 0 slice.parent).map _) = _
  cases hrows : slice.frame.size.height.toNat with
  | zero => rfl
  | succ rows =>
    rw [blitLoop, if_neg (by dsimp only; omega), if_pos, Option.map_some]
    rcases hdegenerate with h | h
    · rw [h, zero_mul]
    · omega

/-! ### Both blits -/

/-- The two copies leave the same layer, with the pixels of the source in the slice. -/
def BlitsAgree (sameFramebuffer : Bool) (slice source : LayerSlice) : Prop :=
  ∃ new new', slice.blit sameFramebuffer source (.withSize source.frame.size) .zero = some new ∧
    slice.blit2Borrowed sameFramebuffer source = some new' ∧ new.parent.Same new'.parent ∧
    Drawn (fun _ => True) source.pixelAt slice new

/-- The last row that `pixel_data` has is the first row of the source, and the target shows the
other rows already. -/
def CopiedByBlit (slice source : LayerSlice) : Prop :=
  PixelDataFits source ∧ ∀ p ∈ Rect.withSize slice.frame.size,
    (p.y = 0 → source.pixelDataPixel ⟨p.x, source.frame.size.height - 1⟩ = source.pixelAt p) ∧
      (p.y ≠ 0 → slice.pixelAt p = source.pixelAt p)

instance (source : LayerSlice) : Decidable (PixelDataFits source) :=
  inferInstanceAs (Decidable (∀ p ∈ _, _ < _))

instance (slice source : LayerSlice) : Decidable (CopiedByBlit slice source) :=
  inferInstanceAs (Decidable (_ ∧ ∀ p ∈ _, (_ = _ → _ = _) ∧ (_ ≠ _ → _ = _)))

section Agree

variable {sameFramebuffer : Bool} (hs : slice.WellFormed) (hsource : source.WellFormed)
  (hsize : slice.frame.size = source.frame.size)
include hs hsource hsize

theorem blitsAgree_of_degenerate (hdegenerate : slice.frame.isDegenerate = true) :
    BlitsAgree sameFramebuffer slice source ↔ sameFramebuffer = false := by
  constructor
  · rintro ⟨new, new', hnew, -⟩
    cases sameFramebuffer with
    | false => rfl
    | true => cases hnew
  · rintro rfl
    obtain ⟨new, hnew, hdrawn⟩ := blit2_drawn hs hsource hsize
    have hsame : slice.blit2 source = some slice := if_pos hdegenerate
    rw [hsame, Option.some.injEq] at hnew
    subst hnew
    exact ⟨slice, slice, blit_degenerate hsize hdegenerate, hsame, hdrawn.painted.same hdrawn.painted,
      hdrawn⟩

/-- **For which slices the two blits copy the slice (proved).** -/
theorem blitsAgree_iff :
    BlitsAgree sameFramebuffer slice source ↔ sameFramebuffer = false ∧
      (slice.frame.isDegenerate = true ∨ CopiedByBlit slice source) := by
  by_cases hdegenerate : slice.frame.isDegenerate = true
  · rw [blitsAgree_of_degenerate hs hsource hsize hdegenerate]
    exact ⟨fun h => ⟨h, Or.inl hdegenerate⟩, And.left⟩
  have hpos : slice.frame.Positive := by
    obtain ⟨hw, hh⟩ := hs.1
    simp only [Rect.isDegenerate, Bool.or_eq_true, decide_eq_true_eq] at hdegenerate
    simp only [Rect.width, Rect.height] at hdegenerate
    exact ⟨by omega, by omega⟩
  cases sameFramebuffer with
  | true =>
    refine iff_of_false ?_ fun h => Bool.noConfusion h.1
    rintro ⟨new, new', hnew, -⟩
    cases hnew
  | false =>
    rw [eq_self, true_and, or_iff_right hdegenerate]
    by_cases hfits : PixelDataFits source
    · obtain ⟨new, hnew, hdrawn⟩ := blit_drawn hs hsource hsize hpos hfits
      obtain ⟨new', hnew', hdrawn'⟩ := blit2_drawn hs hsource hsize
      have hwhole : Drawn (fun _ => True) source.pixelAt _ _ ↔ _ := hdrawn.whole_iff hs
      constructor
      · rintro ⟨new₁, _, hnew₁, -, -, hdrawn₁⟩
        obtain rfl := Option.some.inj (hnew.symm.trans hnew₁)
        exact ⟨hfits, hwhole.mp hdrawn₁⟩
      · rintro ⟨-, hpixels⟩
        have hcopied := hwhole.mpr hpixels
        exact ⟨new, new', hnew, hnew', hcopied.painted.same hdrawn'.painted, hcopied⟩
    · refine iff_of_false ?_ fun h => hfits h.1
      rintro ⟨new, new', hnew, -⟩
      rw [blit_eq_none hsize hfits] at hnew
      cases hnew

end Agree

/-! ### Two rows -/

/-- Four pixels of four colours. -/
def fourPixels : SingleFramebufferLayer where
  size := ⟨2, 2⟩
  pixelLayout := .bgra
  pixels off :=
    if off = 0 then ⟨1, 0, 0, 255⟩
    else if off = 1 then ⟨2, 0, 0, 255⟩
    else if off = 2 then ⟨3, 0, 0, 255⟩
    else ⟨4, 0, 0, 255⟩

/-- A part of a black layer. -/
def blackSlice (height : ℤ) : LayerSlice :=
  (SingleFramebufferLayer.newExt ⟨4, 4⟩ .bgra).getSlice (.new 1 1 2 height)

/-- One row from the origin of its layer is copied by both. -/
theorem blitsAgree_oneRow :
    BlitsAgree false (blackSlice 1) (fourPixels.getSlice (.new 0 0 2 1)) :=
  (blitsAgree_iff (by decide) (by decide) (by decide)).mpr ⟨rfl, Or.inr (by decide)⟩

/-- Of two rows `blit` writes the second one over the first. -/
theorem blit_twoRows :
    let source := fourPixels.getSlice (.new 0 0 2 2)
    (blackSlice 2).WellFormed ∧ source.WellFormed ∧
      (blackSlice 2).frame.size = source.frame.size ∧
      ((blackSlice 2).blit false source (.withSize source.frame.size) .zero).map
        (fun new => [new.pixelAt ⟨0, 0⟩, new.pixelAt ⟨0, 1⟩]) =
          some [⟨3, 0, 0, 255⟩, ⟨0, 0, 0, 0⟩] ∧
      ((blackSlice 2).blit2Borrowed false source).map
        (fun new => [new.pixelAt ⟨0, 0⟩, new.pixelAt ⟨0, 1⟩]) =
          some [⟨1, 0, 0, 255⟩, ⟨3, 0, 0, 255⟩] ∧
      ¬BlitsAgree false (blackSlice 2) source := by
  intro source
  have hsound : (blackSlice 2).WellFormed := by decide
  have hblit : ((blackSlice 2).blit false source (.withSize source.frame.size) .zero).map
      (fun new => [new.pixelAt ⟨0, 0⟩, new.pixelAt ⟨0, 1⟩]) =
        some [⟨3, 0, 0, 255⟩, ⟨0, 0, 0, 0⟩] := by decide
  refine ⟨hsound, by decide, by decide, hblit, by decide, ?_⟩
  rintro ⟨new, new', hnew, -, -, hdrawn⟩
  rw [hnew, Option.map_some, Option.some.injEq, List.cons.injEq,
    hdrawn.pixelAt_eq hsound (by decide) trivial] at hblit
  exact absurd hblit.1 (by decide)

end LayerSlice

end Axle.Agx
