import Axle.Agx.Layer
import Axle.Lib.RangeLoop
import Axle.Lib.StepRun

/-!
# The expanding layer of a scroll view

The layer behind a scroll view of `libgui`.  It is drawn into at any coordinates; the pixels are
kept in tiles of 300 x 300 points which are made when something is drawn into their part of the
plane, and the part of the plane behind a viewport is copied from the tiles that meet it.

* `tilesNeededToCoverRect_exact` — **PROVED**: the search for the tiles that cover a rectangle ends
  with the tiles of the grid that meet it, for every size of tiles;
* `expandToContainRect_spec` — **PROVED**: afterwards the rectangle is covered, tiles stay on the
  grid and apart, and no pixel changes;
* `fillRect_paints` / `fillRect_eq_none` — **PROVED**: a border is drawn around the part of the
  rectangle in each tile, not around the rectangle, and the program panics where a part is too
  narrow for it;
* `drawVisibleContentOnto_drawn` — **PROVED**: a viewport shows the picture at the scroll offset;
* `expandingLayer_iff` — **PROVED**: the layer is an unbounded canvas throughout a run if and only
  if no border is drawn along a seam between tiles where another colour is, no border is wider
  than a part of its rectangle, characters are in the font, and single pixels are written in the
  layout that rectangles are filled with.

The lookup in the font (whose places are scaled with floating point numbers) is a parameter.
-/

namespace Axle.Libgui.ScrollView

open Axle.Agx
open Axle.Lib.StepRun

/-! ### Tiles -/

/-- What does not change.  `glyph` says whether a point of a character is set in the font, for a
font size and a place in the character's frame. -/
structure Setup where
  targetAxle : Bool
  pixelByteLayout : PixelByteLayout
  glyph : Char → Size → Point → Bool

structure TileLayer where
  frame : Rect
  inner : SingleFramebufferLayer

structure ExpandingLayer where
  scrollOffset : Point
  layers : List TileLayer

namespace TileLayer

def new (frame : Rect) (layout : PixelByteLayout) : TileLayer :=
  ⟨frame, SingleFramebufferLayer.newExt frame.size layout⟩

/-- Fill the part `rect` of the tile, given in the coordinates of the tile. -/
def fillRect (targetAxle : Bool) (tile : TileLayer) (rect : Rect) (color : Color)
    (thickness : StrokeThickness) : Option TileLayer :=
  let slice := tile.inner.getSlice rect
  (slice.fillRect targetAxle (Rect.withSize slice.frame.size) color thickness).map
    fun slice => { tile with inner := slice.parent }

def putpixel (tile : TileLayer) (point : Point) (color : Color) : Option TileLayer :=
  (tile.inner.putpixel point color).map fun inner => { tile with inner }

end TileLayer

def tileSize : Size := ⟨300, 300⟩

def roundToTileBoundary (val tileLength : ℤ) : ℤ :=
  let remainder := val.tmod tileLength
  if remainder = 0 then val
  else if val < 0 then val - (tileLength - |remainder|)
  else val - remainder

def containerTileOriginForPoint (point : Point) (tileSize : Size) : Point :=
  ⟨roundToTileBoundary point.x tileSize.width, roundToTileBoundary point.y tileSize.height⟩

/-- The derived order of rectangles. -/
def FrameLe (r s : Rect) : Prop :=
  r.origin.x < s.origin.x ∨ r.origin.x = s.origin.x ∧
    (r.origin.y < s.origin.y ∨ r.origin.y = s.origin.y ∧
      (r.size.width < s.size.width ∨ r.size.width = s.size.width ∧
        r.size.height ≤ s.size.height))

instance : DecidableRel FrameLe := fun r s => inferInstanceAs (Decidable
  (r.origin.x < s.origin.x ∨ r.origin.x = s.origin.x ∧
    (r.origin.y < s.origin.y ∨ r.origin.y = s.origin.y ∧
      (r.size.width < s.size.width ∨ r.size.width = s.size.width ∧
        r.size.height ≤ s.size.height))))

/-- `insert` of the ordered sets that the tile frames are collected in. -/
def insertFrame (frames : List Rect) (frame : Rect) : List Rect :=
  if frame ∈ frames then frames else frames.orderedInsert FrameLe frame

/-- The tile that a rectangle starts in. -/
def containerTile (tileSize : Size) (rect : Rect) : Rect :=
  ⟨containerTileOriginForPoint rect.origin tileSize, tileSize⟩

/-- The tile of the grid that a point is in. -/
def tileAt (p : Point) : Rect := ⟨containerTileOriginForPoint p tileSize, tileSize⟩

/-- The loop of `tiles_needed_to_cover_rect`, in at most `fuel` rounds. -/
def tilesLoop (tileSize : Size) : ℕ → List Rect → List Rect → Option (List Rect)
  | 0, _, _ => none
  | fuel + 1, newTiles, rectsNotContained =>
    if rectsNotContained.length = 0 then some newTiles
    else
      tilesLoop tileSize fuel
        ((rectsNotContained.map (containerTile tileSize)).foldl insertFrame newTiles)
        (rectsNotContained.flatMap fun rect => rect.areaExcludingRect (containerTile tileSize rect))

/-- Every round cuts at least a column or a row off, so these rounds are enough. -/
def tilesNeededToCoverRect (rect : Rect) (tileSize : Size) : Option (List Rect) :=
  tilesLoop tileSize (rect.size.width.toNat + rect.size.height.toNat + 2) [] [rect]

namespace ExpandingLayer

/-! ### Drawing into the tiles -/

def new : ExpandingLayer := ⟨Point.zero, []⟩

def setScrollOffset (layer : ExpandingLayer) (scrollOffset : Point) : ExpandingLayer :=
  { layer with scrollOffset }

def rectsNotContainedInCurrentTiles (layer : ExpandingLayer) (rect : Rect) : List Rect :=
  layer.layers.foldl (fun rectsNotContained tile =>
    rectsNotContained.flatMap fun uncovered =>
      if !uncovered.intersectsWith tile.frame then [uncovered]
      else uncovered.areaExcludingRect tile.frame) [rect]

/-- The frames of a set of rectangles to cover, added to the frames that exist. -/
def totalNeededTiles (existing rects : List Rect) : Option (List Rect) :=
  rects.foldlM (fun total rect =>
    (tilesNeededToCoverRect rect tileSize).map fun needed => needed.foldl insertFrame total) existing

/-- A tile as it is made: filled with white. -/
def makeTile (setup : Setup) (frame : Rect) : Option TileLayer :=
  (TileLayer.new frame setup.pixelByteLayout).fillRect setup.targetAxle (Rect.withSize tileSize)
    Color.white .filled

def expandToContainRect (setup : Setup) (layer : ExpandingLayer) (rect : Rect) :
    Option ExpandingLayer :=
  let rectsNotContained := layer.rectsNotContainedInCurrentTiles rect
  let existing := (layer.layers.map TileLayer.frame).foldl insertFrame []
  (totalNeededTiles existing rectsNotContained).bind fun total =>
    ((total.filter (· ∉ existing)).mapM (makeTile setup)).map fun tiles =>
      { layer with layers := layer.layers ++ tiles }

/-- A part of a frame, in the coordinates of the frame. -/
def relativeTo (frame visible : Rect) : Rect := ⟨visible.origin - frame.origin, visible.size⟩

/-- What is drawn of a rectangle in one tile. -/
def fillTile (setup : Setup) (rect : Rect) (color : Color) (thickness : StrokeThickness)
    (tile : TileLayer) : Option TileLayer :=
  match tile.frame.areaOverlappingWith rect with
  | some visible =>
    tile.fillRect setup.targetAxle (relativeTo tile.frame visible) color thickness
  | none => some tile

def fillRectUnchecked (setup : Setup) (layer : ExpandingLayer) (rect : Rect) (color : Color)
    (thickness : StrokeThickness) : Option ExpandingLayer :=
  (layer.layers.mapM (fillTile setup rect color thickness)).map fun layers => { layer with layers }

def fillRect (setup : Setup) (layer : ExpandingLayer) (rect : Rect) (color : Color)
    (thickness : StrokeThickness) : Option ExpandingLayer :=
  (layer.expandToContainRect setup rect).bind fun layer =>
    layer.fillRectUnchecked setup rect color thickness

/-- The loop of `putpixel_unchecked` returns at the first tile that has the point. -/
def putpixelInto (point : Point) (color : Color) : List TileLayer → Option (List TileLayer)
  | [] => some []
  | tile :: tiles =>
    if tile.frame.contains point then
      (tile.putpixel (point - tile.frame.origin) color).map (· :: tiles)
    else (putpixelInto point color tiles).map (tile :: ·)

def putpixelUnchecked (layer : ExpandingLayer) (point : Point) (color : Color) :
    Option ExpandingLayer :=
  (putpixelInto point color layer.layers).map fun layers => { layer with layers }

def putpixel (setup : Setup) (layer : ExpandingLayer) (point : Point) (color : Color) :
    Option ExpandingLayer :=
  (layer.expandToContainRect setup ⟨point, ⟨800, 800⟩⟩).bind fun layer =>
    layer.putpixelUnchecked point color

/-- One row of a character. -/
def drawCharRow (setup : Setup) (frame : Rect) (ch : Char) (color : Color)
    (layer : ExpandingLayer) (y : ℕ) : Option ExpandingLayer :=
  (List.range frame.size.width.toNat).foldlM (fun layer (x : ℕ) =>
    if setup.glyph ch frame.size ⟨x, y⟩ then
      layer.putpixelUnchecked (frame.origin + ⟨x, y⟩) color
    else some layer) layer

/-- The font has 128 characters; the lookup of another one panics. -/
def drawChar (setup : Setup) (layer : ExpandingLayer) (frame : Rect) (ch : Char) (color : Color) :
    Option ExpandingLayer :=
  (layer.expandToContainRect setup frame).bind fun layer =>
    if ch.toNat < 128 then
      (List.range frame.size.height.toNat).foldlM (drawCharRow setup frame ch color) layer
    else none

/-! ### Showing the tiles -/

structure TileSegment where
  viewportFrame : Rect
  tileFrame : Rect
  tile : TileLayer

def tilesVisibleInViewport (tiles : List TileLayer) (viewportRect : Rect) : List TileSegment :=
  tiles.filterMap fun tile =>
    (viewportRect.areaOverlappingWith tile.frame).map fun intersection =>
      ⟨relativeTo viewportRect intersection, relativeTo tile.frame intersection, tile⟩

/-- Copy one segment; the slice of the viewport shares its framebuffer with the whole. -/
def drawSegment (onto : LayerSlice) (segment : TileSegment) : Option LayerSlice :=
  ((onto.getSlice segment.viewportFrame).blit2
    (segment.tile.inner.getSlice segment.tileFrame)).map fun slice =>
      { onto with parent := slice.parent }

def drawVisibleContentOnto (setup : Setup) (layer : ExpandingLayer) (onto : LayerSlice) :
    Option LayerSlice :=
  (onto.fillRect setup.targetAxle (Rect.withSize onto.frame.size) Color.white .filled).bind
    fun onto => (tilesVisibleInViewport layer.layers ⟨layer.scrollOffset, onto.frame.size⟩).foldlM
      drawSegment onto

end ExpandingLayer

/-! ### Runs -/

/-- The drawing calls; rectangles to fill have a positive size. -/
inductive Op
  | fillRect (rect : Rect) (positive : rect.Positive) (color : Color) (thickness : StrokeThickness)
  | putpixel (point : Point) (color : Color)
  | drawChar (frame : Rect) (ch : Char) (color : Color)

def step (setup : Setup) (layer : ExpandingLayer) : Op → Option ExpandingLayer
  | .fillRect rect _ color thickness => layer.fillRect setup rect color thickness
  | .putpixel point color => layer.putpixel setup point color
  | .drawChar frame ch color => layer.drawChar setup frame ch color

/-- The conceptual canvas: a colour for every point of the plane. -/
abbrev Canvas := Point → Color

/-- The points that a call draws. -/
def Op.Draws (setup : Setup) : Op → Point → Prop
  | .fillRect rect _ _ thickness, p => rect.Stroke thickness p
  | .putpixel point _, p => p = point
  | .drawChar frame ch _, p => p ∈ frame ∧ setup.glyph ch frame.size (p - frame.origin) = true

instance (setup : Setup) : ∀ op p, Decidable (Op.Draws setup op p)
  | .fillRect rect _ _ thickness, p => inferInstanceAs (Decidable (rect.Stroke thickness p))
  | .putpixel point _, p => inferInstanceAs (Decidable (p = point))
  | .drawChar frame ch _, p => inferInstanceAs
    (Decidable (p ∈ frame ∧ setup.glyph ch frame.size (p - frame.origin) = true))

def Op.color : Op → Color
  | .fillRect _ _ color _ => color
  | .putpixel _ color => color
  | .drawChar _ _ color => color

def Canvas.draw (setup : Setup) (canvas : Canvas) (op : Op) : Canvas :=
  fun p => if op.Draws setup p then op.color else canvas p

/-- The colours most recently drawn; white where nothing was. -/
def canvasOf (setup : Setup) (ops : List Op) : Canvas :=
  ops.foldl (Canvas.draw setup) fun _ => Color.white

/-! ### The grid -/

/-- The frames of tiles: 300 x 300 points, at multiples of 300. -/
def OnGrid (frame : Rect) : Prop :=
  frame.size = tileSize ∧ frame.origin.x % 300 = 0 ∧ frame.origin.y % 300 = 0

instance (frame : Rect) : Decidable (OnGrid frame) := inferInstanceAs
  (Decidable (frame.size = tileSize ∧ frame.origin.x % 300 = 0 ∧ frame.origin.y % 300 = 0))

variable {frame frame' r : Rect} {p : Point} {size : Size} {n : ℤ} {frames : List Rect}

theorem OnGrid.positive (h : OnGrid frame) : frame.Positive := by
  unfold Rect.Positive
  rw [h.1]
  exact ⟨by decide, by decide⟩

theorem OnGrid.mem_iff (h : OnGrid frame) : p ∈ frame ↔
    frame.origin.x ≤ p.x ∧ p.x < frame.origin.x + 300 ∧
      frame.origin.y ≤ p.y ∧ p.y < frame.origin.y + 300 := by
  rw [Rect.mem_iff, h.1]
  rfl

/-- The frames of tiles of any size, at multiples of it. -/
def GridTile (tileSize : Size) (frame : Rect) : Prop :=
  frame.size = tileSize ∧ tileSize.width ∣ frame.origin.x ∧ tileSize.height ∣ frame.origin.y

theorem onGrid_iff : OnGrid frame ↔ GridTile tileSize frame := by
  unfold OnGrid GridTile
  rw [Int.dvd_iff_emod_eq_zero, Int.dvd_iff_emod_eq_zero]
  rfl

/-- A multiple of `n` is the only one among the `n` numbers up to some number. -/
theorem eq_of_dvd_of_between {n a b x : ℤ} (ha : n ∣ a) (hb : n ∣ b) (hax : a ≤ x) (hxa : x < a + n)
    (hbx : b ≤ x) (hxb : x < b + n) : a = b := by
  have hdvd : n ∣ a - b := dvd_sub ha hb
  have hzero : a - b = 0 :=
    Int.eq_zero_of_abs_lt_dvd hdvd (abs_lt.mpr ⟨by omega, by omega⟩)
  omega

/-- **Different tiles of one grid are disjoint (proved).** -/
theorem GridTile.eq_of_mem (h : GridTile size frame) (h' : GridTile size frame') (hp : p ∈ frame)
    (hp' : p ∈ frame') : frame = frame' := by
  obtain ⟨hsize, hox, hoy⟩ := h
  obtain ⟨hsize', hox', hoy'⟩ := h'
  rw [Rect.mem_iff, hsize] at hp
  rw [Rect.mem_iff, hsize'] at hp'
  ext
  · exact eq_of_dvd_of_between hox hox' hp.1 hp.2.1 hp'.1 hp'.2.1
  · exact eq_of_dvd_of_between hoy hoy' hp.2.2.1 hp.2.2.2 hp'.2.2.1 hp'.2.2.2
  · rw [hsize, hsize']
  · rw [hsize, hsize']

theorem OnGrid.eq_of_mem (h : OnGrid frame) (h' : OnGrid frame') (hp : p ∈ frame)
    (hp' : p ∈ frame') : frame = frame' :=
  (onGrid_iff.mp h).eq_of_mem (onGrid_iff.mp h') hp hp'

theorem roundToTileBoundary_eq (val : ℤ) (hn : 0 < n) :
    roundToTileBoundary val n = val - val % n := by
  have hrem : val.tmod n = if 0 ≤ val ∨ n ∣ val then val % n else val % n - n := by
    rw [Int.tmod_eq_emod]
    split
    · exact sub_zero _
    · rw [Int.natAbs_of_nonneg hn.le]
  have hlt : val % n < n := Int.emod_lt_of_pos val hn
  have hdvd : n ∣ val ↔ val % n = 0 := Int.dvd_iff_emod_eq_zero
  unfold roundToTileBoundary
  dsimp only
  rw [hrem]
  split_ifs with hsign hzero hneg hzero hneg
  · omega
  · omega
  · rfl
  · omega
  · rw [abs_of_nonpos (by omega)]
    omega
  · omega

theorem containerTile_gridTile (hwidth : 0 < size.width) (hheight : 0 < size.height) (rect : Rect) :
    GridTile size (containerTile size rect) := by
  refine ⟨rfl, ?_, ?_⟩
  · show _ ∣ roundToTileBoundary rect.origin.x size.width
    rw [roundToTileBoundary_eq _ hwidth]
    exact Int.dvd_self_sub_emod
  · show _ ∣ roundToTileBoundary rect.origin.y size.height
    rw [roundToTileBoundary_eq _ hheight]
    exact Int.dvd_self_sub_emod

theorem origin_mem_containerTile_of_pos (hwidth : 0 < size.width) (hheight : 0 < size.height)
    (rect : Rect) : rect.origin ∈ containerTile size rect := by
  rw [Rect.mem_iff]
  show roundToTileBoundary rect.origin.x size.width ≤ _ ∧
    _ < roundToTileBoundary rect.origin.x size.width + size.width ∧
    roundToTileBoundary rect.origin.y size.height ≤ _ ∧
    _ < roundToTileBoundary rect.origin.y size.height + size.height
  rw [roundToTileBoundary_eq _ hwidth, roundToTileBoundary_eq _ hheight]
  have hx := Int.emod_nonneg rect.origin.x hwidth.ne'
  have hxlt := Int.emod_lt_of_pos rect.origin.x hwidth
  have hy := Int.emod_nonneg rect.origin.y hheight.ne'
  have hylt := Int.emod_lt_of_pos rect.origin.y hheight
  omega

theorem containerTile_onGrid (rect : Rect) : OnGrid (containerTile tileSize rect) :=
  onGrid_iff.mpr (containerTile_gridTile (by decide) (by decide) rect)

theorem origin_mem_containerTile (rect : Rect) : rect.origin ∈ containerTile tileSize rect :=
  origin_mem_containerTile_of_pos (by decide) (by decide) rect

theorem OnGrid.eq_tileAt (h : OnGrid frame) (hp : p ∈ frame) : frame = tileAt p :=
  h.eq_of_mem (containerTile_onGrid ⟨p, ⟨0, 0⟩⟩) hp (origin_mem_containerTile ⟨p, ⟨0, 0⟩⟩)

/-! ### Sets of frames -/

theorem mem_insertFrame : r ∈ insertFrame frames frame ↔ r = frame ∨ r ∈ frames := by
  unfold insertFrame
  split
  · rename_i hmem
    exact ⟨Or.inr, fun h => h.elim (fun heq => heq ▸ hmem) id⟩
  · exact List.mem_orderedInsert ..

theorem insertFrame_nodup (h : frames.Nodup) : (insertFrame frames frame).Nodup := by
  unfold insertFrame
  split
  · exact h
  · rename_i hmem
    exact (List.perm_orderedInsert FrameLe frame frames).nodup_iff.mpr
      (List.nodup_cons.mpr ⟨hmem, h⟩)

theorem mem_foldl_insertFrame (new : List Rect) :
    ∀ {frames : List Rect}, r ∈ new.foldl insertFrame frames ↔ r ∈ new ∨ r ∈ frames := by
  induction new with
  | nil => simp
  | cons frame new ih =>
    intro frames
    rw [List.foldl_cons, ih, mem_insertFrame, List.mem_cons]
    tauto

theorem foldl_insertFrame_nodup (new : List Rect) : ∀ {frames : List Rect}, frames.Nodup →
    (new.foldl insertFrame frames).Nodup := by
  induction new with
  | nil => exact fun h => h
  | cons frame new ih => exact fun h => ih (insertFrame_nodup h)

/-! ### Covering a rectangle -/

section Excluding

variable {rect tile piece : Rect}

theorem mem_excludeRight (h : piece ∈ (rect.excludeRight tile).1) :
    piece.size.width = rect.origin.x + rect.size.width - (tile.origin.x + tile.size.width) ∧
      0 < piece.size.width ∧ piece.size.height = rect.size.height := by
  unfold Rect.excludeRight at h
  dsimp only at h
  split at h
  · rename_i hover
    rw [List.mem_singleton.mp h]
    exact ⟨rfl, hover, rfl⟩
  · cases h

theorem excludeRight_rest (rect tile : Rect) : (rect.excludeRight tile).2.origin = rect.origin ∧
    (rect.excludeRight tile).2.size.width ≤ rect.size.width ∧
    (rect.excludeRight tile).2.size.height = rect.size.height := by
  unfold Rect.excludeRight
  dsimp only
  split
  · exact ⟨rfl, by simp only [Rect.width]; omega, rfl⟩
  · exact ⟨rfl, le_refl _, rfl⟩

theorem mem_excludeTop (h : piece ∈ (rect.excludeTop tile).1) :
    piece.size.width = rect.size.width ∧ 0 < piece.size.height ∧
      piece.size.height = rect.origin.y + rect.size.height - (tile.origin.y + tile.size.height) := by
  unfold Rect.excludeTop at h
  dsimp only at h
  split at h
  · rename_i hover
    rw [List.mem_singleton.mp h]
    exact ⟨rfl, hover, rfl⟩
  · cases h

theorem excludeTop_rest_origin : (rect.excludeTop tile).2.origin = rect.origin := by
  unfold Rect.excludeTop
  dsimp only
  split <;> rfl

/-- Of a rectangle that starts in a tile, only parts on the right and below are left. -/
theorem mem_areaExcludingRect_of_origin (hmem : rect.origin ∈ tile)
    (h : piece ∈ rect.areaExcludingRect tile) :
    piece ∈ (rect.excludeRight tile).1 ∨
      piece ∈ ((rect.excludeRight tile).2.excludeTop tile).1 := by
  obtain ⟨hx, -, hy, -⟩ := Rect.mem_iff.mp hmem
  have hleft : rect.excludeLeft tile = ([], rect) := by
    exact if_neg (by simp only [Rect.minX]; omega)
  have hbottom : ((((rect.excludeRight tile).2.excludeTop tile).2.excludeBottom tile).1) = [] := by
    unfold Rect.excludeBottom
    rw [if_neg]
    simp only [Rect.minY, excludeTop_rest_origin, (excludeRight_rest rect tile).1]
    omega
  unfold Rect.areaExcludingRect at h
  simp only [hleft, hbottom, List.nil_append, List.append_nil] at h
  split at h
  · cases h
  · split at h
    · exact Or.inl h
    · exact List.mem_append.mp (by split at h <;> exact h)

theorem excluding_smaller (hmem : rect.origin ∈ tile)
    (h : piece ∈ rect.areaExcludingRect tile) :
    piece.size.width.toNat + piece.size.height.toNat
      < rect.size.width.toNat + rect.size.height.toNat := by
  obtain ⟨hx, hxw, hy, hyh⟩ := Rect.mem_iff.mp hmem
  have hrest := excludeRight_rest rect tile
  rcases mem_areaExcludingRect_of_origin hmem h with hright | htop
  · obtain ⟨hwidth, hpos, hheight⟩ := mem_excludeRight hright
    omega
  · obtain ⟨hwidth, hpos, hheight⟩ := mem_excludeTop htop
    rw [hrest.1, hrest.2.2] at hheight
    omega

end Excluding

theorem origin_mem_of_mem {rect : Rect} (h : p ∈ rect) : rect.origin ∈ rect := by
  rw [Rect.mem_iff] at h ⊢
  omega

/-- The point is in one of the frames. -/
def Covered (frames : List Rect) (p : Point) : Prop := ∃ frame ∈ frames, p ∈ frame

/-- What the search for tiles finds, in addition to the tiles there were. -/
structure TilesFound (size : Size) (newTiles rects tiles : List Rect) : Prop where
  keeps : ∀ frame ∈ newTiles, frame ∈ tiles
  grid : ∀ frame ∈ tiles, frame ∈ newTiles ∨ GridTile size frame
  nodup : newTiles.Nodup → tiles.Nodup
  covered : (∀ r ∈ rects, r.Nonneg) → ∀ r ∈ rects, ∀ p ∈ r, Covered tiles p
  meets : (∀ r ∈ rects, r.Positive) →
    ∀ frame ∈ tiles, frame ∈ newTiles ∨ ∃ r ∈ rects, ∃ p ∈ r, p ∈ frame

/-- One round: the tiles that the rectangles start in, and then what the rounds after it find for
the pieces outside of them. -/
theorem TilesFound.round (hwidth : 0 < size.width) (hheight : 0 < size.height)
    {newTiles rects tiles : List Rect}
    (h : TilesFound size ((rects.map (containerTile size)).foldl insertFrame newTiles)
      (rects.flatMap fun rect => rect.areaExcludingRect (containerTile size rect)) tiles) :
    TilesFound size newTiles rects tiles := by
  have htilePos : ∀ rect, (containerTile size rect).Positive := fun _ => ⟨hwidth, hheight⟩
  have hmem : ∀ rect, rect.origin ∈ containerTile size rect :=
    origin_mem_containerTile_of_pos hwidth hheight
  have hfirst : ∀ rect ∈ rects, containerTile size rect ∈ tiles := fun rect hrect =>
    h.keeps _ ((mem_foldl_insertFrame _).mpr (Or.inl (List.mem_map_of_mem hrect)))
  refine ⟨fun frame hframe => ?_, fun frame hframe => ?_, fun hnodup => ?_, ?_, ?_⟩
  · exact h.keeps _ ((mem_foldl_insertFrame _).mpr (Or.inr hframe))
  · rcases h.grid frame hframe with hnew | hgrid
    · rcases (mem_foldl_insertFrame _).mp hnew with hnew | hold
      · obtain ⟨rect, -, rfl⟩ := List.mem_map.mp hnew
        exact Or.inr (containerTile_gridTile hwidth hheight rect)
      · exact Or.inl hold
    · exact Or.inr hgrid
  · exact h.nodup (foldl_insertFrame_nodup _ hnodup)
  · intro hnonneg rect hrect p hp
    by_cases htile : p ∈ containerTile size rect
    · exact ⟨_, hfirst rect hrect, htile⟩
    · have hmeets := Rect.intersectsWith_of_mem (origin_mem_of_mem hp) (hmem rect)
      obtain ⟨piece, hpiece, hinside⟩ := (Rect.mem_areaExcludingRect (hnonneg rect hrect)
        (htilePos rect) hmeets p).mpr ⟨hp, htile⟩
      refine h.covered (fun piece hpiece => ?_) piece
        (List.mem_flatMap.mpr ⟨rect, hrect, hpiece⟩) p hinside
      obtain ⟨rect, hrect, hpiece⟩ := List.mem_flatMap.mp hpiece
      exact Rect.areaExcludingRect_nonneg (hnonneg rect hrect) (htilePos rect) piece hpiece
  · intro hpos frame hframe
    have hstart : ∀ rect ∈ rects, rect.origin ∈ rect := by
      intro rect hrect
      obtain ⟨hw, hh⟩ := hpos rect hrect
      rw [Rect.mem_iff]
      omega
    have hpieces : ∀ piece ∈ rects.flatMap fun rect =>
        rect.areaExcludingRect (containerTile size rect), piece.Positive ∧
          ∃ rect ∈ rects, ∀ p ∈ piece, p ∈ rect := by
      intro piece hpiece
      obtain ⟨rect, hrect, hpiece⟩ := List.mem_flatMap.mp hpiece
      have hmeets := Rect.intersectsWith_of_mem (hstart rect hrect) (hmem rect)
      obtain ⟨hpiecePos, -, hcut⟩ :=
        Rect.areaExcludingRect_exact (hpos rect hrect) (htilePos rect) hmeets
      exact ⟨hpiecePos piece hpiece, rect, hrect, fun p hp => ((hcut p).mp ⟨piece, hpiece, hp⟩).1⟩
    rcases h.meets (fun piece hpiece => (hpieces piece hpiece).1) frame hframe with
      hnew | ⟨piece, hpiece, p, hp, hpframe⟩
    · rcases (mem_foldl_insertFrame _).mp hnew with hnew | hold
      · obtain ⟨rect, hrect, rfl⟩ := List.mem_map.mp hnew
        exact Or.inr ⟨rect, hrect, rect.origin, hstart rect hrect, hmem rect⟩
      · exact Or.inl hold
    · obtain ⟨rect, hrect, hsub⟩ := (hpieces piece hpiece).2
      exact Or.inr ⟨rect, hrect, p, hsub p hp, hpframe⟩

/-- **The search for tiles ends (proved)**: every round makes the rectangles smaller. -/
theorem tilesLoop_eq_some (hwidth : 0 < size.width) (hheight : 0 < size.height) :
    ∀ (fuel : ℕ) (newTiles rects : List Rect),
    (∀ r ∈ rects, r.size.width.toNat + r.size.height.toNat + 1 < fuel) → 0 < fuel →
    ∃ tiles, tilesLoop size fuel newTiles rects = some tiles ∧
      TilesFound size newTiles rects tiles := by
  intro fuel
  induction fuel with
  | zero => exact fun _ _ _ h => absurd h (lt_irrefl 0)
  | succ fuel ih =>
    intro newTiles rects hfuel _
    rw [tilesLoop]
    split
    · rename_i hnone
      rw [List.length_eq_zero_iff] at hnone
      subst hnone
      exact ⟨newTiles, rfl, fun _ h => h, fun _ h => Or.inl h, fun h => h,
        fun _ _ h => absurd h List.not_mem_nil, fun _ _ h => Or.inl h⟩
    · rename_i hsome
      obtain ⟨r₀, hr₀⟩ := List.exists_mem_of_length_pos (Nat.pos_of_ne_zero hsome)
      have hround : ∀ r ∈ rects.flatMap fun rect =>
          rect.areaExcludingRect (containerTile size rect),
          r.size.width.toNat + r.size.height.toNat + 1 < fuel := by
        intro piece hpiece
        obtain ⟨rect, hrect, hpiece⟩ := List.mem_flatMap.mp hpiece
        have := excluding_smaller (origin_mem_containerTile_of_pos hwidth hheight rect) hpiece
        have := hfuel rect hrect
        omega
      obtain ⟨tiles, htiles, hfound⟩ := ih
        ((rects.map (containerTile size)).foldl insertFrame newTiles) _ hround (by
          have := hfuel r₀ hr₀
          omega)
      exact ⟨tiles, htiles, hfound.round hwidth hheight⟩

theorem tilesNeededToCoverRect_found (hwidth : 0 < size.width) (hheight : 0 < size.height)
    (rect : Rect) :
    ∃ tiles, tilesNeededToCoverRect rect size = some tiles ∧ TilesFound size [] [rect] tiles :=
  tilesLoop_eq_some hwidth hheight (rect.size.width.toNat + rect.size.height.toNat + 2) [] [rect]
    (fun r hr => by rw [List.mem_singleton.mp hr]; omega) (Nat.succ_pos _)

theorem tilesNeededToCoverRect_eq_some (rect : Rect) :
    ∃ tiles, tilesNeededToCoverRect rect tileSize = some tiles ∧
      (∀ frame ∈ tiles, OnGrid frame) ∧ (rect.Nonneg → ∀ p ∈ rect, Covered tiles p) := by
  obtain ⟨tiles, htiles, hfound⟩ :=
    @tilesNeededToCoverRect_found tileSize (by decide) (by decide) rect
  refine ⟨tiles, htiles, fun frame hframe => ?_, fun hnonneg => ?_⟩
  · exact onGrid_iff.mpr ((hfound.grid frame hframe).resolve_left List.not_mem_nil)
  · refine hfound.covered (fun r hr => ?_) rect (List.mem_singleton.mpr rfl)
    rw [List.mem_singleton.mp hr]
    exact hnonneg

namespace ExpandingLayer

/-- The parts of a rectangle outside of one tile. -/
def uncoveredBy (tile : TileLayer) (uncovered : Rect) : List Rect :=
  if !uncovered.intersectsWith tile.frame then [uncovered]
  else uncovered.areaExcludingRect tile.frame

variable {r rect frame s part : Rect} {tile : TileLayer} {p scroll : Point}
  {layer : ExpandingLayer} {area : Point → Prop} {pixel : Pixel} {setup : Setup}
  {onto : LayerSlice}

theorem uncoveredBy_nonneg (hgrid : OnGrid tile.frame) (h : r.Nonneg) :
    ∀ piece ∈ uncoveredBy tile r, piece.Nonneg := by
  unfold uncoveredBy
  split
  · intro piece hpiece
    rw [List.mem_singleton.mp hpiece]
    exact h
  · exact Rect.areaExcludingRect_nonneg h hgrid.positive

theorem mem_uncoveredBy (hgrid : OnGrid tile.frame) (h : r.Nonneg) (hp : p ∈ r)
    (hout : p ∉ tile.frame) : ∃ piece ∈ uncoveredBy tile r, p ∈ piece := by
  unfold uncoveredBy
  split
  · exact ⟨r, List.mem_singleton.mpr rfl, hp⟩
  · rename_i hmeets
    rw [Bool.not_eq_true', Bool.not_eq_false] at hmeets
    exact (Rect.mem_areaExcludingRect h hgrid.positive hmeets p).mpr ⟨hp, hout⟩

theorem foldl_uncoveredBy (tiles : List TileLayer) : ∀ (rects : List Rect),
    (∀ tile ∈ tiles, OnGrid tile.frame) → (∀ r ∈ rects, r.Nonneg) →
      (∀ r ∈ tiles.foldl (fun rects tile => rects.flatMap (uncoveredBy tile)) rects, r.Nonneg) ∧
        ∀ r ∈ rects, ∀ p ∈ r, Covered (tiles.map TileLayer.frame) p ∨
          Covered (tiles.foldl (fun rects tile => rects.flatMap (uncoveredBy tile)) rects) p := by
  induction tiles with
  | nil => exact fun _ _ h => ⟨h, fun r hr p hp => Or.inr ⟨r, hr, hp⟩⟩
  | cons tile tiles ih =>
    intro rects hgrid hnonneg
    have htile := hgrid tile List.mem_cons_self
    obtain ⟨hnonneg', hcover⟩ := ih (rects.flatMap (uncoveredBy tile))
      (fun t ht => hgrid t (List.mem_cons_of_mem tile ht)) (fun piece hpiece => by
        obtain ⟨r, hr, hpiece⟩ := List.mem_flatMap.mp hpiece
        exact uncoveredBy_nonneg htile (hnonneg r hr) piece hpiece)
    refine ⟨hnonneg', fun r hr p hp => ?_⟩
    by_cases hin : p ∈ tile.frame
    · exact Or.inl ⟨tile.frame, List.mem_cons_self, hin⟩
    · obtain ⟨piece, hpiece, hmem⟩ := mem_uncoveredBy htile (hnonneg r hr) hp hin
      rcases hcover piece (List.mem_flatMap.mpr ⟨r, hr, hpiece⟩) p hmem with hold | hnew
      · obtain ⟨frame, hframe, hmem⟩ := hold
        exact Or.inl ⟨frame, List.mem_cons_of_mem _ hframe, hmem⟩
      · exact Or.inr hnew

theorem covered_of_rectsNotContained (hgrid : ∀ tile ∈ layer.layers, OnGrid tile.frame)
    (h : rect.Nonneg) :
    (∀ r ∈ layer.rectsNotContainedInCurrentTiles rect, r.Nonneg) ∧
      ∀ p ∈ rect, Covered (layer.layers.map TileLayer.frame) p ∨
        Covered (layer.rectsNotContainedInCurrentTiles rect) p := by
  obtain ⟨hnonneg, hcover⟩ := foldl_uncoveredBy layer.layers [rect] hgrid
    (fun r hr => by rw [List.mem_singleton.mp hr]; exact h)
  exact ⟨hnonneg, hcover rect (List.mem_singleton.mpr rfl)⟩

/-- The frames that are needed: those there are, and frames of the grid. -/
theorem totalNeededTiles_eq_some (rects : List Rect) : ∀ {existing : List Rect},
    existing.Nodup → ∃ total, totalNeededTiles existing rects = some total ∧ total.Nodup ∧
      (∀ frame ∈ existing, frame ∈ total) ∧
      (∀ frame ∈ total, frame ∈ existing ∨ OnGrid frame) ∧
      ∀ r ∈ rects, r.Nonneg → ∀ p ∈ r, Covered total p := by
  induction rects with
  | nil => exact fun h => ⟨_, rfl, h, fun _ h => h, fun _ h => Or.inl h, fun _ h => by cases h⟩
  | cons rect rects ih =>
    intro existing hnodup
    obtain ⟨needed, hneeded, hgrid, hcover⟩ := tilesNeededToCoverRect_eq_some rect
    obtain ⟨total, htotal, hnodup', hkeep, hgrid', hcover'⟩ :=
      ih (foldl_insertFrame_nodup needed hnodup)
    refine ⟨total, ?_, hnodup', fun frame hframe => ?_, fun frame hframe => ?_, ?_⟩
    · unfold totalNeededTiles at htotal ⊢
      rw [List.foldlM_cons, hneeded]
      exact htotal
    · exact hkeep frame ((mem_foldl_insertFrame needed).mpr (Or.inr hframe))
    · rcases hgrid' frame hframe with hold | hnew
      · rcases (mem_foldl_insertFrame needed).mp hold with hnew | hold
        · exact Or.inr (hgrid frame hnew)
        · exact Or.inl hold
      · exact Or.inr hnew
    · intro r hr hnonneg p hp
      rcases List.mem_cons.mp hr with rfl | hr
      · obtain ⟨frame, hframe, hmem⟩ := hcover hnonneg p hp
        exact ⟨frame, hkeep frame ((mem_foldl_insertFrame needed).mpr (Or.inl hframe)), hmem⟩
      · exact hcover' r hr hnonneg p hp

/-! ### The picture -/

/-- The pixel of a tile at a point of the plane. -/
def tilePixel (tile : TileLayer) (p : Point) : Pixel :=
  tile.inner.pixelAt (p - tile.frame.origin)

/-- The picture on a list of tiles: white where no tile is. -/
def pictureOn (setup : Setup) (p : Point) : List TileLayer → Pixel
  | [] => Color.white.bytes (wordLayout setup.targetAxle)
  | tile :: tiles => if p ∈ tile.frame then tilePixel tile p else pictureOn setup p tiles

/-- The picture that the layer stands for, on the whole plane. -/
def picture (setup : Setup) (layer : ExpandingLayer) (p : Point) : Pixel :=
  pictureOn setup p layer.layers

/-- The tiles are on the grid, no two at one place, each with a framebuffer of its size. -/
structure Tiled (setup : Setup) (layer : ExpandingLayer) : Prop where
  grid : ∀ tile ∈ layer.layers, OnGrid tile.frame
  framebuffer : ∀ tile ∈ layer.layers, tile.inner.size = tileSize
  layout : ∀ tile ∈ layer.layers, tile.inner.pixelLayout = setup.pixelByteLayout
  distinct : (layer.layers.map TileLayer.frame).Nodup

section Picture

variable {setup : Setup} {p : Point} {tiles : List TileLayer}

theorem pictureOn_of_mem (hgrid : ∀ tile ∈ tiles, OnGrid tile.frame)
    (hdistinct : (tiles.map TileLayer.frame).Nodup) {tile : TileLayer} (htile : tile ∈ tiles)
    (hp : p ∈ tile.frame) : pictureOn setup p tiles = tilePixel tile p := by
  induction tiles with
  | nil => cases htile
  | cons head tiles ih =>
    rw [List.map_cons, List.nodup_cons] at hdistinct
    rw [pictureOn]
    rcases List.mem_cons.mp htile with rfl | htail
    · exact if_pos hp
    · rw [if_neg]
      · exact ih (fun t ht => hgrid t (List.mem_cons_of_mem _ ht)) hdistinct.2 htail
      · intro hhead
        refine hdistinct.1 ?_
        rw [(hgrid head List.mem_cons_self).eq_of_mem (hgrid tile htile) hhead hp]
        exact List.mem_map_of_mem htail

theorem covered_iff_exists : Covered (tiles.map TileLayer.frame) p ↔
    ∃ tile ∈ tiles, p ∈ tile.frame := by
  unfold Covered
  simp only [List.mem_map, exists_exists_and_eq_and]

end Picture

/-! ### Drawing into one tile -/

/-- From `old` to `new`, exactly the points of `area` in the tile get the pixel. -/
structure TileDrawn (area : Point → Prop) (pixel : Pixel) (old new : TileLayer) : Prop where
  frame_eq : new.frame = old.frame
  size_eq : new.inner.size = old.inner.size
  layout_eq : new.inner.pixelLayout = old.inner.pixelLayout
  inside : ∀ p ∈ old.frame, area p → tilePixel new p = pixel
  outside : ∀ p ∈ old.frame, ¬area p → tilePixel new p = tilePixel old p

theorem TileDrawn.refl (h : ∀ p ∈ tile.frame, ¬area p) : TileDrawn area pixel tile tile :=
  ⟨rfl, rfl, rfl, fun p hp harea => absurd harea (h p hp), fun _ _ _ => rfl⟩

theorem getSlice_part {inner : SingleFramebufferLayer} (hpos : rect.Positive)
    (hin : inner.Holds rect) : inner.getSlice rect = ⟨inner, rect⟩ := by
  obtain ⟨-, hxw, -, hyh⟩ := hin
  unfold SingleFramebufferLayer.getSlice
  rw [Rect.constrain_withSize hpos.1 hpos.2 hxw hyh]

theorem TileDrawn.congr {area area' : Point → Prop} {a b : TileLayer} (h : TileDrawn area pixel a b)
    (heq : ∀ p ∈ a.frame, area p ↔ area' p) : TileDrawn area' pixel a b where
  frame_eq := h.frame_eq
  size_eq := h.size_eq
  layout_eq := h.layout_eq
  inside p hp harea := h.inside p hp ((heq p hp).mpr harea)
  outside p hp harea := h.outside p hp fun harea' => harea ((heq p hp).mp harea')

section Tile

variable {tile : TileLayer} (hgrid : OnGrid tile.frame) (hsize : tile.inner.size = tileSize)
include hgrid hsize

variable {p : Point}

theorem mem_withSize_of_mem (hp : p ∈ tile.frame) :
    p - tile.frame.origin ∈ Rect.withSize tile.inner.size := by
  have hmem := hgrid.mem_iff.mp hp
  rw [hsize, Rect.mem_withSize]
  simp only [Point.sub_x, Point.sub_y, tileSize]
  omega

theorem tileDrawn_of_painted {area : Point → Prop} {pixel : Pixel}
    {inner : SingleFramebufferLayer}
    (h : Painted (fun q => area (q + tile.frame.origin)) (fun _ => pixel) tile.inner inner) :
    TileDrawn area pixel tile { tile with inner } := by
  have hback : ∀ p : Point, p - tile.frame.origin + tile.frame.origin = p := by
    intro p
    ext
    · exact sub_add_cancel _ _
    · exact sub_add_cancel _ _
  refine ⟨rfl, h.size_eq, h.layout_eq, fun p hp harea => ?_, fun p hp harea => ?_⟩
  · refine h.inside _ (mem_withSize_of_mem hgrid hsize hp) ?_
    rw [hback]
    exact harea
  · refine h.outside _ (mem_withSize_of_mem hgrid hsize hp) ?_
    rw [hback]
    exact harea

theorem holds_relativeTo {part : Rect} (hpos : part.Positive) (hin : ∀ p ∈ part, p ∈ tile.frame) :
    tile.inner.Holds (relativeTo tile.frame part) := by
  obtain ⟨hw, hh⟩ := hpos
  have hfirst := hgrid.mem_iff.mp (hin part.origin (Rect.mem_iff.mpr (by omega)))
  have hlast := hgrid.mem_iff.mp (hin ⟨part.origin.x + part.size.width - 1,
    part.origin.y + part.size.height - 1⟩ (Rect.mem_iff.mpr (by dsimp only; omega)))
  unfold SingleFramebufferLayer.Holds
  rw [hsize]
  simp only [relativeTo, Point.sub_x, Point.sub_y, tileSize]
  dsimp only at hlast
  omega

section Part

variable (axle : Bool) {part : Rect} (color : Color) {thickness : StrokeThickness}
  (hpos : part.Positive) (hin : ∀ p ∈ part, p ∈ tile.frame)
include hpos hin

theorem fillRect_relativeTo_eq : tile.fillRect axle (relativeTo tile.frame part) color thickness =
    ((⟨tile.inner, relativeTo tile.frame part⟩ : LayerSlice).fillRect axle
      (Rect.withSize (relativeTo tile.frame part).size) color thickness).map
        fun slice => { tile with inner := slice.parent } := by
  have hholds := holds_relativeTo hgrid hsize hpos hin
  have hpos' : (relativeTo tile.frame part).Positive := hpos
  unfold TileLayer.fillRect
  rw [getSlice_part hpos' hholds]

/-- **A border is drawn around the part in the tile (proved).** -/
theorem fillRect_tileDrawn
    (hwide : ¬LayerSlice.TooNarrow (relativeTo tile.frame part) thickness) :
    ∃ new, tile.fillRect axle (relativeTo tile.frame part) color thickness = some new ∧
      TileDrawn (part.Stroke thickness) (color.bytes (wordLayout axle)) tile new := by
  rw [fillRect_relativeTo_eq hgrid hsize axle color hpos hin]
  have hsound : (⟨tile.inner, relativeTo tile.frame part⟩ : LayerSlice).WellFormed :=
    ⟨hpos.nonneg, holds_relativeTo hgrid hsize hpos hin⟩
  obtain ⟨new, hnew, hdrawn⟩ := LayerSlice.fillRect_drawn axle color hsound hpos hwide
  rw [hnew]
  refine ⟨_, rfl, tileDrawn_of_painted hgrid hsize (hdrawn.painted.congr fun q _ => ?_)⟩
  have hstroke := @Rect.stroke_withSize (relativeTo tile.frame part) q thickness
  have hmove : q = q + tile.frame.origin - tile.frame.origin := by
    ext
    · exact (add_sub_cancel_right _ _).symm
    · exact (add_sub_cancel_right _ _).symm
  show q ∈ relativeTo tile.frame part ∧ _ ↔ _
  rw [hstroke]
  conv_lhs => rw [hmove]
  rw [relativeTo, Rect.stroke_sub]
  refine and_iff_right_of_imp fun h => ?_
  have hmem := Rect.mem_iff.mp h.mem
  rw [Rect.mem_iff]
  simp only [Point.add_x, Point.add_y, Point.sub_x, Point.sub_y] at hmem ⊢
  omega

theorem fillRect_relativeTo_eq_none
    (hnarrow : LayerSlice.TooNarrow (relativeTo tile.frame part) thickness) :
    tile.fillRect axle (relativeTo tile.frame part) color thickness = none := by
  rw [fillRect_relativeTo_eq hgrid hsize axle color hpos hin]
  have hsound : (⟨tile.inner, relativeTo tile.frame part⟩ : LayerSlice).WellFormed :=
    ⟨hpos.nonneg, holds_relativeTo hgrid hsize hpos hin⟩
  rw [LayerSlice.fillRect_eq_none axle color hsound hpos hnarrow, Option.map_none]

end Part

theorem putpixel_tileDrawn (color : Color) (hp : p ∈ tile.frame) :
    ∃ new, tile.putpixel (p - tile.frame.origin) color = some new ∧
      TileDrawn (fun q => q = p) (color.bytes tile.inner.pixelLayout) tile new := by
  obtain ⟨inner, hinner, hpainted⟩ := SingleFramebufferLayer.putpixel_painted color
    (mem_withSize_of_mem hgrid hsize hp)
  unfold TileLayer.putpixel
  rw [hinner]
  refine ⟨_, rfl, tileDrawn_of_painted hgrid hsize (hpainted.congr fun q _ => ?_)⟩
  rw [Point.ext_iff, Point.ext_iff]
  simp only [Point.sub_x, Point.sub_y, Point.add_x, Point.add_y]
  omega

end Tile

theorem makeTile_spec (setup : Setup) (hgrid : OnGrid frame) :
    ∃ tile, makeTile setup frame = some tile ∧ tile.frame = frame ∧ tile.inner.size = tileSize ∧
      tile.inner.pixelLayout = setup.pixelByteLayout ∧
      ∀ p ∈ frame, tilePixel tile p = Color.white.bytes (wordLayout setup.targetAxle) := by
  have hframe : OnGrid (TileLayer.new frame setup.pixelByteLayout).frame := hgrid
  have hinner : (TileLayer.new frame setup.pixelByteLayout).inner.size = tileSize := hgrid.1
  have hwide : ¬LayerSlice.TooNarrow (relativeTo frame frame) .filled := id
  have hwhole : Rect.withSize tileSize = relativeTo frame frame := by
    ext
    · exact (sub_self _).symm
    · exact (sub_self _).symm
    · rw [relativeTo, hgrid.1]
      rfl
    · rw [relativeTo, hgrid.1]
      rfl
  obtain ⟨tile, htile, hdrawn⟩ := fillRect_tileDrawn hframe hinner setup.targetAxle Color.white
    hgrid.positive (fun _ h => h) hwide
  unfold makeTile
  rw [hwhole]
  exact ⟨tile, htile, hdrawn.frame_eq, hdrawn.size_eq.trans hinner, hdrawn.layout_eq,
    fun p hp => hdrawn.inside p hp hp⟩

/-! ### Making tiles -/

theorem makeTiles_spec (setup : Setup) (frames : List Rect) : (∀ frame ∈ frames, OnGrid frame) →
    ∃ tiles, frames.mapM (makeTile setup) = some tiles ∧ tiles.map TileLayer.frame = frames ∧
      ∀ tile ∈ tiles, tile.inner.size = tileSize ∧
        tile.inner.pixelLayout = setup.pixelByteLayout ∧
        ∀ p ∈ tile.frame, tilePixel tile p = Color.white.bytes (wordLayout setup.targetAxle) := by
  induction frames with
  | nil => exact fun _ => ⟨[], rfl, rfl, fun _ h => by cases h⟩
  | cons frame frames ih =>
    intro hgrid
    obtain ⟨tile, htile, hframe, hspec⟩ := makeTile_spec setup (hgrid frame List.mem_cons_self)
    obtain ⟨tiles, htiles, hframes, hspecs⟩ :=
      ih fun frame hframe => hgrid frame (List.mem_cons_of_mem _ hframe)
    refine ⟨tile :: tiles, ?_, by rw [List.map_cons, hframe, hframes], fun t ht => ?_⟩
    · rw [List.mapM_cons, htile, htiles]
      rfl
    · rcases List.mem_cons.mp ht with rfl | ht
      · rw [hframe]
        exact hspec
      · exact hspecs t ht

theorem pictureOn_append_white (tiles new : List TileLayer) (hwhite : ∀ tile ∈ new, p ∈ tile.frame →
      tilePixel tile p = Color.white.bytes (wordLayout setup.targetAxle)) :
    pictureOn setup p (tiles ++ new) = pictureOn setup p tiles := by
  induction tiles with
  | nil =>
    show pictureOn setup p new = Color.white.bytes (wordLayout setup.targetAxle)
    induction new with
    | nil => rfl
    | cons tile new ih =>
      rw [pictureOn]
      split
      · rename_i hp
        exact hwhite tile List.mem_cons_self hp
      · exact ih fun t ht => hwhite t (List.mem_cons_of_mem _ ht)
  | cons tile tiles ih => rw [List.cons_append, pictureOn, pictureOn, ih]

/-- **Making tiles (proved).**  The call succeeds, covers the rectangle, and changes no pixel of
the picture; the tiles there were stay as they are. -/
theorem expandToContainRect_spec (h : layer.Tiled setup) (rect : Rect) :
    ∃ layer', layer.expandToContainRect setup rect = some layer' ∧
      layer'.Tiled setup ∧ layer.layers <+: layer'.layers ∧
      (∀ p, layer'.picture setup p = layer.picture setup p) ∧
      (rect.Nonneg → ∀ p ∈ rect, Covered (layer'.layers.map TileLayer.frame) p) := by
  have hexisting : ∀ r, r ∈ (layer.layers.map TileLayer.frame).foldl insertFrame [] ↔
      r ∈ layer.layers.map TileLayer.frame := by
    intro r
    rw [mem_foldl_insertFrame, or_iff_left List.not_mem_nil]
  obtain ⟨total, htotal, hnodup, -, hgrid, hcover⟩ := totalNeededTiles_eq_some
    (layer.rectsNotContainedInCurrentTiles rect)
    (foldl_insertFrame_nodup (layer.layers.map TileLayer.frame) List.nodup_nil)
  have hnew : ∀ frame ∈ total.filter
      (· ∉ (layer.layers.map TileLayer.frame).foldl insertFrame []), OnGrid frame := by
    intro frame hframe
    obtain ⟨hmem, hout⟩ := List.mem_filter.mp hframe
    exact (hgrid frame hmem).resolve_left (of_decide_eq_true hout)
  obtain ⟨tiles, htiles, hframes, hspec⟩ := makeTiles_spec setup _ hnew
  refine ⟨{ layer with layers := layer.layers ++ tiles }, ?_, ⟨?_, ?_, ?_, ?_⟩,
    List.prefix_append _ _, fun p => ?_, fun hnonneg p hp => ?_⟩
  · unfold expandToContainRect
    dsimp only
    rw [htotal, Option.bind_some, htiles]
    rfl
  · intro tile htile
    rcases List.mem_append.mp htile with hold | hmade
    · exact h.grid tile hold
    · refine hnew tile.frame ?_
      rw [← hframes]
      exact List.mem_map_of_mem hmade
  · intro tile htile
    rcases List.mem_append.mp htile with hold | hmade
    · exact h.framebuffer tile hold
    · exact (hspec tile hmade).1
  · intro tile htile
    rcases List.mem_append.mp htile with hold | hmade
    · exact h.layout tile hold
    · exact (hspec tile hmade).2.1
  · show ((layer.layers ++ tiles).map TileLayer.frame).Nodup
    rw [List.map_append, List.nodup_append]
    refine ⟨h.distinct, ?_, fun r hr s hs heq => ?_⟩
    · rw [hframes]
      exact hnodup.filter _
    · rw [hframes] at hs
      subst heq
      exact of_decide_eq_true (List.mem_filter.mp hs).2 ((hexisting r).mpr hr)
  · exact pictureOn_append_white layer.layers tiles fun tile htile hp =>
      (hspec tile htile).2.2 p hp
  · show Covered ((layer.layers ++ tiles).map TileLayer.frame) p
    obtain ⟨hnonneg', hcover'⟩ := covered_of_rectsNotContained h.grid hnonneg
    rw [List.map_append]
    rcases hcover' p hp with ⟨frame, hframe, hmem⟩ | ⟨r, hr, hmem⟩
    · exact ⟨frame, List.mem_append_left _ hframe, hmem⟩
    · obtain ⟨frame, hframe, hmem⟩ := hcover r hr (hnonneg' r hr) p hmem
      by_cases hold : frame ∈ layer.layers.map TileLayer.frame
      · exact ⟨frame, List.mem_append_left _ hold, hmem⟩
      · refine ⟨frame, List.mem_append_right _ ?_, hmem⟩
        rw [hframes, List.mem_filter]
        exact ⟨hframe, decide_eq_true fun hin => hold ((hexisting frame).mp hin)⟩

/-! ### Drawing into all tiles -/

/-- The tiles keep their frames; exactly the points of `area` that they cover get the pixel. -/
structure Repainted (setup : Setup) (area : Point → Prop) (pixel : Pixel)
    (old new : ExpandingLayer) : Prop where
  tiled : new.Tiled setup
  frames_eq : new.layers.map TileLayer.frame = old.layers.map TileLayer.frame
  inside : ∀ p, Covered (old.layers.map TileLayer.frame) p → area p →
    new.picture setup p = pixel
  outside : ∀ p, ¬area p → new.picture setup p = old.picture setup p

namespace Repainted

variable {setup : Setup} {area area' : Point → Prop} {pixel : Pixel} {a b c : ExpandingLayer}

theorem refl (h : a.Tiled setup) : Repainted setup (fun _ => False) pixel a a :=
  ⟨h, rfl, fun _ _ h => h.elim, fun _ _ => rfl⟩

theorem congr (h : Repainted setup area pixel a b) (heq : ∀ p, area p ↔ area' p) :
    Repainted setup area' pixel a b where
  tiled := h.tiled
  frames_eq := h.frames_eq
  inside p hp harea := h.inside p hp ((heq p).mpr harea)
  outside p harea := h.outside p fun harea' => harea ((heq p).mp harea')

theorem trans (h : Repainted setup area pixel a b) (h' : Repainted setup area' pixel b c) :
    Repainted setup (fun p => area p ∨ area' p) pixel a c where
  tiled := h'.tiled
  frames_eq := h'.frames_eq.trans h.frames_eq
  inside := by
    intro p hp harea
    by_cases hlast : area' p
    · refine h'.inside p ?_ hlast
      rw [h.frames_eq]
      exact hp
    · rw [h'.outside p hlast]
      exact h.inside p hp (harea.resolve_right hlast)
  outside := by
    intro p harea
    rw [h'.outside p fun hlast => harea (Or.inr hlast)]
    exact h.outside p fun hfirst => harea (Or.inl hfirst)

theorem loop {f : ExpandingLayer → ℕ → Option ExpandingLayer} {area : ℕ → Point → Prop}
    (h : a.Tiled setup) : ∀ n : ℕ,
    (∀ i < n, ∀ b : ExpandingLayer, b.Tiled setup →
      b.layers.map TileLayer.frame = a.layers.map TileLayer.frame →
      ∃ c, f b i = some c ∧ Repainted setup (area i) pixel b c) →
    ∃ c, (List.range n).foldlM f a = some c ∧
      Repainted setup (fun p => ∃ i < n, area i p) pixel a c := by
  intro n
  induction n with
  | zero =>
    exact fun _ => ⟨a, rfl, (refl h).congr fun p => by simp⟩
  | succ n ih =>
    intro hround
    obtain ⟨b, hb, hpainted⟩ := ih fun i hi => hround i (Nat.lt_succ_of_lt hi)
    obtain ⟨c, hc, hlast⟩ := hround n (Nat.lt_succ_self n) b hpainted.tiled hpainted.frames_eq
    refine ⟨c, ?_, (hpainted.trans hlast).congr fun p => ?_⟩
    · rw [Lib.RangeLoop.foldlM_range_succ, hb, Option.bind_some, hc]
    · simp only [Nat.lt_succ_iff_lt_or_eq, or_and_right, exists_or, exists_eq_left]

end Repainted

/-- A drawing call: the points of `area` get the pixel, and the picture is otherwise unchanged. -/
structure Paints (setup : Setup) (area : Point → Prop) (pixel : Pixel)
    (old new : ExpandingLayer) : Prop where
  tiled : new.Tiled setup
  inside : ∀ p, area p → new.picture setup p = pixel
  outside : ∀ p, ¬area p → new.picture setup p = old.picture setup p

section Draw

variable {setup : Setup} {area : Point → Prop} {pixel : Pixel}

/-- First tiles are made, then they are drawn into. -/
theorem Repainted.paints {old made new : ExpandingLayer} (h : Repainted setup area pixel made new)
    (hsame : ∀ p, made.picture setup p = old.picture setup p)
    (hcover : ∀ p, area p → Covered (made.layers.map TileLayer.frame) p) :
    Paints setup area pixel old new where
  tiled := h.tiled
  inside p harea := h.inside p (hcover p harea) harea
  outside p harea := (h.outside p harea).trans (hsame p)

variable {tiles tiles' : List TileLayer}

section

variable (h : List.Forall₂ (TileDrawn area pixel) tiles tiles')

include h

theorem pictureOn_of_forall₂ {p : Point} :
    (area p → Covered (tiles.map TileLayer.frame) p → pictureOn setup p tiles' = pixel) ∧
      (¬area p → pictureOn setup p tiles' = pictureOn setup p tiles) := by
  induction h with
  | nil => exact ⟨fun _ ⟨_, h, _⟩ => absurd h List.not_mem_nil, fun _ => rfl⟩
  | @cons tile tile' tiles tiles' hdrawn _ ih =>
    simp only [pictureOn, hdrawn.frame_eq]
    split
    · rename_i hp
      exact ⟨fun harea _ => hdrawn.inside p hp harea, hdrawn.outside p hp⟩
    · rename_i hp
      refine ⟨fun harea ⟨frame, hframe, hmem⟩ => ih.1 harea ⟨frame, ?_, hmem⟩, ih.2⟩
      rcases List.mem_cons.mp hframe with rfl | hframe
      · exact absurd hmem hp
      · exact hframe

theorem exists_of_forall₂ : ∀ tile' ∈ tiles', ∃ tile ∈ tiles, TileDrawn area pixel tile tile' := by
  induction h with
  | nil => exact fun _ h => absurd h List.not_mem_nil
  | cons hhead _ ih =>
    intro tile' htile
    rcases List.mem_cons.mp htile with rfl | htile
    · exact ⟨_, List.mem_cons_self, hhead⟩
    · obtain ⟨tile, hmem, hdrawn⟩ := ih tile' htile
      exact ⟨tile, List.mem_cons_of_mem _ hmem, hdrawn⟩

theorem frames_of_forall₂ : tiles'.map TileLayer.frame = tiles.map TileLayer.frame := by
  induction h with
  | nil => rfl
  | cons hhead _ ih => rw [List.map_cons, List.map_cons, hhead.frame_eq, ih]

end

theorem repainted_of_forall₂ {layer : ExpandingLayer} (h : layer.Tiled setup)
    (hdrawn : List.Forall₂ (TileDrawn area pixel) layer.layers tiles) :
    Repainted setup area pixel layer { layer with layers := tiles } := by
  have hframes := frames_of_forall₂ hdrawn
  refine ⟨⟨fun tile' htile => ?_, fun tile' htile => ?_, fun tile' htile => ?_, ?_⟩, hframes,
    fun p hp harea => (pictureOn_of_forall₂ hdrawn).1 harea hp,
    fun p harea => (pictureOn_of_forall₂ hdrawn).2 harea⟩
  · obtain ⟨tile, hmem, hd⟩ := exists_of_forall₂ hdrawn tile' htile
    rw [hd.frame_eq]
    exact h.grid tile hmem
  · obtain ⟨tile, hmem, hd⟩ := exists_of_forall₂ hdrawn tile' htile
    rw [hd.size_eq]
    exact h.framebuffer tile hmem
  · obtain ⟨tile, hmem, hd⟩ := exists_of_forall₂ hdrawn tile' htile
    rw [hd.layout_eq]
    exact h.layout tile hmem
  · show (tiles.map TileLayer.frame).Nodup
    rw [hframes]
    exact h.distinct

end Draw

/-! ### Rectangles -/

/-- What `fill_rect` really draws: the border of the rectangle, and the border of each tile inside
the rectangle. -/
def DrawnPart (rect : Rect) (thickness : StrokeThickness) (p : Point) : Prop :=
  rect.Stroke thickness p ∨ p ∈ rect ∧ (tileAt p).Stroke thickness p

/-- The border can be drawn around the part of the rectangle in the tile. -/
def PartFits (rect : Rect) (thickness : StrokeThickness) (frame : Rect) : Prop :=
  ∀ part ∈ frame.areaOverlappingWith rect, ¬LayerSlice.TooNarrow (relativeTo frame part) thickness

/-- Two rectangles that meet overlap from the larger origin to the smaller end. -/
theorem overlap_eq (hr : r.Positive) (hs : s.Positive) (h : r.intersectsWith s = true) :
    r.areaOverlappingWith s =
      some ⟨⟨max r.minX s.minX, max r.minY s.minY⟩,
        ⟨min r.maxX s.maxX - max r.minX s.minX, min r.maxY s.maxY - max r.minY s.minY⟩⟩ := by
  obtain ⟨hw, hh⟩ := hr
  obtain ⟨hw', hh'⟩ := hs
  unfold Rect.areaOverlappingWith
  rw [if_neg (by simp [h])]
  split
  · rename_i heq
    subst heq
    congr 1
    ext
    · exact (max_self _).symm
    · exact (max_self _).symm
    · simp only [min_self, max_self, Rect.maxX]
      omega
    · simp only [min_self, max_self, Rect.maxY]
      omega
  · have hmeet := Rect.intersectsWith_iff.mp h
    rw [if_neg]
    simp only [Bool.not_eq_true, Bool.not_eq_false', Bool.and_eq_true, decide_eq_true_eq]
    simp only [Rect.minX, Rect.minY, Rect.maxX, Rect.maxY]
    omega

theorem overlap_spec (hr : r.Positive) (hs : s.Positive)
    (hpart : r.areaOverlappingWith s = some part) :
    r.intersectsWith s = true ∧ part.Positive ∧ ∀ p, p ∈ part ↔ p ∈ r ∧ p ∈ s := by
  have hmeet : r.intersectsWith s = true := by
    by_contra hnot
    unfold Rect.areaOverlappingWith at hpart
    rw [if_pos (by simpa using hnot)] at hpart
    cases hpart
  obtain ⟨part', hpart', hpos, hmem⟩ := Rect.areaOverlappingWith_spec hr hs hmeet
  rw [hpart] at hpart'
  cases hpart'
  exact ⟨hmeet, hpos, hmem⟩

/-- The border of a part: that of the rectangle and that of the tile. -/
theorem stroke_overlap (hframe : frame.Positive) (hrect : rect.Positive)
    (hpart : frame.areaOverlappingWith rect = some part) {thickness : StrokeThickness}
    (hp : p ∈ frame) :
    part.Stroke thickness p ↔ rect.Stroke thickness p ∨ p ∈ rect ∧ frame.Stroke thickness p := by
  rw [overlap_eq hframe hrect (overlap_spec hframe hrect hpart).1] at hpart
  cases hpart
  rw [Rect.mem_iff] at hp
  cases thickness with
  | filled =>
    simp only [Rect.Stroke, Rect.mem_iff, Rect.minX, Rect.minY, Rect.maxX, Rect.maxY]
    omega
  | width n =>
    simp only [Rect.Stroke, Rect.mem_iff, Rect.minX, Rect.minY, Rect.maxX, Rect.maxY]
    omega

section FillRect

variable (setup : Setup) {rect : Rect} (color : Color) {thickness : StrokeThickness}
  (hrect : rect.Positive)
include hrect

variable {tile : TileLayer} {layer : ExpandingLayer}

theorem fillTile_tileDrawn (hgrid : OnGrid tile.frame) (hsize : tile.inner.size = tileSize)
    (hfits : PartFits rect thickness tile.frame) :
    ∃ new, fillTile setup rect color thickness tile = some new ∧
      TileDrawn (DrawnPart rect thickness) (color.bytes (wordLayout setup.targetAxle)) tile new := by
  unfold fillTile
  cases hpart : tile.frame.areaOverlappingWith rect with
  | none =>
    refine ⟨tile, rfl, TileDrawn.refl fun p hp hdrawn => ?_⟩
    have hmem : p ∈ rect := hdrawn.elim Rect.Stroke.mem And.left
    rw [overlap_eq hgrid.positive hrect (Rect.intersectsWith_of_mem hp hmem)] at hpart
    cases hpart
  | some part =>
    obtain ⟨-, hpos, hmem⟩ := overlap_spec hgrid.positive hrect hpart
    obtain ⟨new, hnew, hdrawn⟩ := fillRect_tileDrawn hgrid hsize setup.targetAxle color hpos
      (fun p hp => ((hmem p).mp hp).1) (hfits part hpart)
    refine ⟨new, hnew, hdrawn.congr fun p hp => ?_⟩
    rw [stroke_overlap hgrid.positive hrect hpart hp, DrawnPart, ← hgrid.eq_tileAt hp]

theorem fillTile_eq_none (hgrid : OnGrid tile.frame) (hsize : tile.inner.size = tileSize)
    (hfits : ¬PartFits rect thickness tile.frame) :
    fillTile setup rect color thickness tile = none := by
  unfold PartFits at hfits
  push Not at hfits
  obtain ⟨part, hpart, hnarrow⟩ := hfits
  have hpart' : tile.frame.areaOverlappingWith rect = some part := hpart
  obtain ⟨-, hpos, hmem⟩ := overlap_spec hgrid.positive hrect hpart'
  unfold fillTile
  rw [hpart']
  exact fillRect_relativeTo_eq_none hgrid hsize setup.targetAxle color hpos
    (fun p hp => ((hmem p).mp hp).1) hnarrow

theorem mapM_fillTile {tiles : List TileLayer} (hgrid : ∀ tile ∈ tiles, OnGrid tile.frame)
    (hsize : ∀ tile ∈ tiles, tile.inner.size = tileSize) :
    ((∀ tile ∈ tiles, PartFits rect thickness tile.frame) → ∃ tiles',
      tiles.mapM (fillTile setup rect color thickness) = some tiles' ∧
        List.Forall₂ (TileDrawn (DrawnPart rect thickness)
          (color.bytes (wordLayout setup.targetAxle))) tiles tiles') ∧
      ((∃ tile ∈ tiles, ¬PartFits rect thickness tile.frame) →
        tiles.mapM (fillTile setup rect color thickness) = none) := by
  induction tiles with
  | nil => exact ⟨fun _ => ⟨[], rfl, List.Forall₂.nil⟩, fun ⟨_, h, _⟩ => absurd h List.not_mem_nil⟩
  | cons tile tiles ih =>
    obtain ⟨hall, hsome⟩ := ih (fun t ht => hgrid t (List.mem_cons_of_mem _ ht))
      fun t ht => hsize t (List.mem_cons_of_mem _ ht)
    have hhead := hgrid tile List.mem_cons_self
    have hhead' := hsize tile List.mem_cons_self
    refine ⟨fun hfits => ?_, fun ⟨bad, hbad, hfits⟩ => ?_⟩
    · obtain ⟨new, hnew, hdrawn⟩ := fillTile_tileDrawn setup color hrect
        hhead hhead' (hfits tile List.mem_cons_self)
      obtain ⟨tiles', htiles, hrest⟩ := hall fun t ht => hfits t (List.mem_cons_of_mem _ ht)
      refine ⟨new :: tiles', ?_, List.Forall₂.cons hdrawn hrest⟩
      rw [List.mapM_cons, hnew, htiles]
      rfl
    · rw [List.mapM_cons]
      by_cases hfirst : PartFits rect thickness tile.frame
      · obtain ⟨new, hnew, -⟩ := fillTile_tileDrawn setup color hrect
          hhead hhead' hfirst
        rw [hnew, hsome ⟨bad, (List.mem_cons.mp hbad).resolve_left fun heq =>
          hfits (heq ▸ hfirst), hfits⟩]
        rfl
      · rw [fillTile_eq_none setup color hrect hhead hhead' hfirst]
        rfl

/-- **A rectangle (proved).**  All points of the parts' borders are drawn. -/
theorem fillRect_paints (h : layer.Tiled setup)
    (hfits : ∀ frame, OnGrid frame → PartFits rect thickness frame) :
    ∃ layer', layer.fillRect setup rect color thickness = some layer' ∧
      Paints setup (DrawnPart rect thickness) (color.bytes (wordLayout setup.targetAxle))
        layer layer' := by
  obtain ⟨made, hmade, htiled, -, hsame, hcover⟩ := expandToContainRect_spec h rect
  obtain ⟨tiles, htiles, hdrawn⟩ := (mapM_fillTile setup color hrect htiled.grid
    htiled.framebuffer).1 fun tile htile => hfits tile.frame (htiled.grid tile htile)
  refine ⟨{ made with layers := tiles }, ?_, (repainted_of_forall₂ htiled hdrawn).paints hsame
    fun p hp => hcover hrect.nonneg p (hp.elim Rect.Stroke.mem And.left)⟩
  unfold fillRect fillRectUnchecked
  rw [hmade, Option.bind_some, htiles, Option.map_some]

/-- A part too narrow for the border: its tile is there, and drawing into it panics. -/
theorem fillRect_eq_none (h : layer.Tiled setup) {frame : Rect} (hframe : OnGrid frame)
    (hfits : ¬PartFits rect thickness frame) :
    layer.fillRect setup rect color thickness = none := by
  obtain ⟨made, hmade, htiled, -, -, hcover⟩ := expandToContainRect_spec h rect
  have hbad := hfits
  unfold PartFits at hfits
  push Not at hfits
  obtain ⟨part, hpart, -⟩ := hfits
  obtain ⟨-, ⟨hw, hh⟩, hmem⟩ := overlap_spec hframe.positive hrect hpart
  have horigin := (hmem part.origin).mp (Rect.mem_iff.mpr (by omega))
  obtain ⟨tile, htile, hp⟩ := covered_iff_exists.mp (hcover hrect.nonneg _ horigin.2)
  have heq := hframe.eq_of_mem (htiled.grid tile htile) horigin.1 hp
  unfold fillRect fillRectUnchecked
  rw [hmade, Option.bind_some, (mapM_fillTile setup color hrect htiled.grid htiled.framebuffer).2
    ⟨tile, htile, heq ▸ hbad⟩, Option.map_none]

end FillRect

/-! ### Points and characters -/

theorem putpixelInto_eq_some (point : Point) (color : Color) {layout : PixelByteLayout}
    {tiles : List TileLayer} (hgrid : ∀ tile ∈ tiles, OnGrid tile.frame)
    (hsize : ∀ tile ∈ tiles, tile.inner.size = tileSize)
    (hlayout : ∀ tile ∈ tiles, tile.inner.pixelLayout = layout)
    (hdistinct : (tiles.map TileLayer.frame).Nodup) :
    ∃ tiles', putpixelInto point color tiles = some tiles' ∧
      List.Forall₂ (TileDrawn (fun p => p = point) (color.bytes layout)) tiles tiles' := by
  induction tiles with
  | nil => exact ⟨[], rfl, List.Forall₂.nil⟩
  | cons tile tiles ih =>
    rw [List.map_cons, List.nodup_cons] at hdistinct
    have hhead := hgrid tile List.mem_cons_self
    rw [putpixelInto]
    split
    · rename_i hp
      obtain ⟨new, hnew, hdrawn⟩ :=
        putpixel_tileDrawn hhead (hsize tile List.mem_cons_self) color hp
      rw [hlayout tile List.mem_cons_self] at hdrawn
      rw [hnew]
      refine ⟨new :: tiles, rfl, List.Forall₂.cons hdrawn (List.forall₂_same.mpr ?_)⟩
      -- no later tile has the point
      intro other hother
      refine TileDrawn.refl fun p hin heq => hdistinct.1 ?_
      subst heq
      rw [hhead.eq_of_mem (hgrid other (List.mem_cons_of_mem _ hother)) hp hin]
      exact List.mem_map_of_mem hother
    · rename_i hout
      obtain ⟨tiles', htiles, hdrawn⟩ := ih
        (fun t ht => hgrid t (List.mem_cons_of_mem _ ht))
        (fun t ht => hsize t (List.mem_cons_of_mem _ ht))
        (fun t ht => hlayout t (List.mem_cons_of_mem _ ht)) hdistinct.2
      rw [htiles]
      refine ⟨tile :: tiles', rfl, List.Forall₂.cons (TileDrawn.refl fun p hp heq => hout ?_) hdrawn⟩
      exact heq ▸ hp

theorem add_sub_cancel_point (p q : Point) : p + q - p = q := by
  ext
  · exact add_sub_cancel_left _ _
  · exact add_sub_cancel_left _ _

section Points

variable {setup : Setup} {layer : ExpandingLayer}

theorem putpixelUnchecked_repainted (h : layer.Tiled setup) (point : Point) (color : Color) :
    ∃ layer', layer.putpixelUnchecked point color = some layer' ∧
      Repainted setup (fun p => p = point) (color.bytes setup.pixelByteLayout) layer layer' := by
  obtain ⟨tiles, htiles, hdrawn⟩ :=
    putpixelInto_eq_some point color h.grid h.framebuffer h.layout h.distinct
  refine ⟨{ layer with layers := tiles }, ?_, repainted_of_forall₂ h hdrawn⟩
  unfold putpixelUnchecked
  rw [htiles, Option.map_some]

theorem putpixel_paints (h : layer.Tiled setup) (point : Point) (color : Color) :
    ∃ layer', layer.putpixel setup point color = some layer' ∧
      Paints setup (fun p => p = point) (color.bytes setup.pixelByteLayout) layer layer' := by
  obtain ⟨made, hmade, htiled, -, hsame, hcover⟩ :=
    expandToContainRect_spec h ⟨point, ⟨800, 800⟩⟩
  obtain ⟨new, hnew, hdrawn⟩ := putpixelUnchecked_repainted htiled point color
  refine ⟨new, ?_, hdrawn.paints hsame fun p hp => hcover ⟨by norm_num, by norm_num⟩ p ?_⟩
  · unfold putpixel
    rw [hmade, Option.bind_some, hnew]
  · subst hp
    rw [Rect.mem_iff]
    dsimp only
    omega

variable {ch : Char}

/-- **A character of the font (proved).** -/
theorem drawChar_paints (h : layer.Tiled setup) (frame : Rect) (color : Color)
    (hch : ch.toNat < 128) :
    ∃ layer', layer.drawChar setup frame ch color = some layer' ∧
      Paints setup (fun p => p ∈ frame ∧ setup.glyph ch frame.size (p - frame.origin) = true)
        (color.bytes setup.pixelByteLayout) layer layer' := by
  obtain ⟨made, hmade, htiled, -, hsame, hcover⟩ := expandToContainRect_spec h frame
  have hrow : ∀ y : ℕ, ∀ b : ExpandingLayer, b.Tiled setup →
      ∃ c, drawCharRow setup frame ch color b y = some c ∧
        Repainted setup (fun p => ∃ x < frame.size.width.toNat,
          setup.glyph ch frame.size ⟨x, y⟩ = true ∧ p = frame.origin + ⟨x, y⟩)
          (color.bytes setup.pixelByteLayout) b c := by
    intro y b hb
    refine Repainted.loop hb _ fun x _ b hb _ => ?_
    split
    · rename_i hset
      obtain ⟨c, hc, hdrawn⟩ := putpixelUnchecked_repainted hb (frame.origin + ⟨x, y⟩) color
      exact ⟨c, hc, hdrawn.congr fun p => (and_iff_right hset).symm⟩
    · rename_i hset
      exact ⟨b, rfl, (Repainted.refl hb).congr fun p => by simp [hset]⟩
  obtain ⟨new, hnew, hdrawn⟩ := Repainted.loop htiled frame.size.height.toNat
    fun y _ b hb _ => hrow y b hb
  have harea : ∀ p, (∃ y < frame.size.height.toNat, ∃ x < frame.size.width.toNat,
      setup.glyph ch frame.size ⟨x, y⟩ = true ∧ p = frame.origin + ⟨x, y⟩) ↔
      p ∈ frame ∧ setup.glyph ch frame.size (p - frame.origin) = true := by
    intro p
    constructor
    · rintro ⟨y, hy, x, hx, hset, rfl⟩
      rw [add_sub_cancel_point]
      refine ⟨Rect.mem_iff.mpr ?_, hset⟩
      simp only [Point.add_x, Point.add_y]
      omega
    · rintro ⟨hp, hset⟩
      rw [Rect.mem_iff] at hp
      have hplace : p - frame.origin =
          ⟨((p.x - frame.origin.x).toNat : ℤ), ((p.y - frame.origin.y).toNat : ℤ)⟩ := by
        ext
        · simp only [Point.sub_x]
          omega
        · simp only [Point.sub_y]
          omega
      refine ⟨(p.y - frame.origin.y).toNat, by omega, (p.x - frame.origin.x).toNat, by omega, ?_, ?_⟩
      · rw [← hplace]
        exact hset
      · ext
        · simp only [Point.add_x]
          omega
        · simp only [Point.add_y]
          omega
  refine ⟨new, ?_, (hdrawn.congr harea).paints hsame fun p hp => ?_⟩
  · unfold drawChar
    rw [hmade, Option.bind_some, if_pos hch, hnew]
  · have hmem := Rect.mem_iff.mp hp.1
    exact hcover ⟨by omega, by omega⟩ p hp.1

theorem drawChar_eq_none (h : layer.Tiled setup) (frame : Rect) (color : Color)
    (hch : ¬ch.toNat < 128) : layer.drawChar setup frame ch color = none := by
  obtain ⟨made, hmade, -⟩ := expandToContainRect_spec h frame
  unfold drawChar
  rw [hmade, Option.bind_some, if_neg hch]

end Points

/-! ### The viewport -/

theorem positive_of_overlap {viewport frame part : Rect} (hframe : frame.Positive)
    (hpart : viewport.areaOverlappingWith frame = some part) :
    viewport.Positive := by
  unfold Rect.areaOverlappingWith at hpart
  split at hpart
  · cases hpart
  · split at hpart
    · rename_i heq
      rw [heq]
      exact hframe
    · dsimp only at hpart
      split at hpart
      · cases hpart
      · rename_i hin
        simp only [Bool.not_eq_true, Bool.not_eq_false', Bool.and_eq_true, decide_eq_true_eq]
          at hin
        simp only [Rect.minX, Rect.minY, Rect.maxX, Rect.maxY] at hin
        unfold Rect.Positive
        omega

theorem not_mem_of_overlap_none {size : Size} (hgrid : OnGrid frame)
    (hpart : (⟨scroll, size⟩ : Rect).areaOverlappingWith frame = none) :
    ∀ q ∈ Rect.withSize size, scroll + q ∉ frame := by
  intro q hq htile
  have hsizes := Rect.mem_withSize.mp hq
  have hview : (⟨scroll, size⟩ : Rect).Positive := by
    unfold Rect.Positive
    dsimp only
    omega
  have hin : scroll + q ∈ (⟨scroll, size⟩ : Rect) := by
    rw [Rect.mem_iff]
    simp only [Point.add_x, Point.add_y]
    omega
  rw [overlap_eq hview hgrid.positive (Rect.intersectsWith_of_mem hin htile)] at hpart
  cases hpart

section Segment

variable {onto : LayerSlice} {tile : TileLayer} {scroll : Point}
  (honto : onto.WellFormed) (hgrid : OnGrid tile.frame) (hsize : tile.inner.size = tileSize)
include honto hgrid hsize

/-- One segment copies what the viewport shows of the tile. -/
theorem drawSegment_drawn {part : Rect}
    (hpart : (⟨scroll, onto.frame.size⟩ : Rect).areaOverlappingWith tile.frame = some part) :
    ∃ new, drawSegment onto ⟨relativeTo ⟨scroll, onto.frame.size⟩ part,
        relativeTo tile.frame part, tile⟩ = some new ∧
      Drawn (fun q => scroll + q ∈ tile.frame) (fun q => tilePixel tile (scroll + q)) onto new := by
  have hview : (⟨scroll, onto.frame.size⟩ : Rect).Positive :=
    positive_of_overlap hgrid.positive hpart
  obtain ⟨-, hpos, hmem⟩ := overlap_spec hview hgrid.positive hpart
  obtain ⟨hw, hh⟩ := hpos
  have hfirst := Rect.mem_iff.mp ((hmem part.origin).mp (Rect.mem_iff.mpr (by omega))).1
  have hlast := Rect.mem_iff.mp ((hmem ⟨part.origin.x + part.size.width - 1,
    part.origin.y + part.size.height - 1⟩).mp (Rect.mem_iff.mpr (by dsimp only; omega))).1
  dsimp only at hfirst hlast
  obtain ⟨-, hx, hxw, hy, hyh⟩ := honto
  have hholds := holds_relativeTo hgrid hsize ⟨hw, hh⟩ fun p hp => ((hmem p).mp hp).2
  have hslice : (⟨onto.parent, ⟨onto.frame.origin + (part.origin - scroll), part.size⟩⟩ :
      LayerSlice).WellFormed := by
    refine ⟨⟨hw.le, hh.le⟩, ?_⟩
    unfold SingleFramebufferLayer.Holds
    simp only [Point.add_x, Point.add_y, Point.sub_x, Point.sub_y]
    omega
  have hsource : (⟨tile.inner, relativeTo tile.frame part⟩ : LayerSlice).WellFormed :=
    ⟨⟨hw.le, hh.le⟩, hholds⟩
  obtain ⟨new, hnew, hdrawn⟩ := LayerSlice.blit2_drawn hslice hsource rfl
  have hdst : onto.getSlice (relativeTo ⟨scroll, onto.frame.size⟩ part) =
      ⟨onto.parent, ⟨onto.frame.origin + (part.origin - scroll), part.size⟩⟩ := by
    have hpos : (relativeTo ⟨scroll, onto.frame.size⟩ part).Positive := ⟨hw, hh⟩
    exact LayerSlice.getSlice_eq hpos.1 hpos.2
      (by simp only [relativeTo, Point.sub_x]; omega) (by simp only [relativeTo, Point.sub_y]; omega)
  have hpos : (relativeTo tile.frame part).Positive := ⟨hw, hh⟩
  refine ⟨⟨new.parent, onto.frame⟩, ?_, rfl, ?_⟩
  · unfold drawSegment
    rw [hdst, getSlice_part hpos hholds, hnew, Option.map_some]
  · have harea : ∀ p, p ∈ (⟨onto.frame.origin + (part.origin - scroll), part.size⟩ : Rect) ↔
        p ∈ onto.frame ∧ scroll + (p - onto.frame.origin) ∈ tile.frame := by
      intro p
      have hp := hmem (scroll + (p - onto.frame.origin))
      rw [Rect.mem_iff, Rect.mem_iff] at hp
      rw [Rect.mem_iff, Rect.mem_iff]
      simp only [Point.add_x, Point.add_y, Point.sub_x, Point.sub_y] at hp ⊢
      constructor
      · intro h
        exact ⟨by omega, (hp.mp (by omega)).2⟩
      · rintro ⟨h, htile⟩
        have := hp.mpr ⟨by omega, htile⟩
        omega
    have hvalue : ∀ p, (⟨tile.inner, relativeTo tile.frame part⟩ : LayerSlice).pixelAt
        (p - (onto.frame.origin + (part.origin - scroll))) =
          tilePixel tile (scroll + (p - onto.frame.origin)) := by
      intro p
      show tile.inner.pixelAt _ = tile.inner.pixelAt _
      refine congrArg tile.inner.pixelAt ?_
      ext
      · simp only [relativeTo, Point.add_x, Point.sub_x]
        ring
      · simp only [relativeTo, Point.add_y, Point.sub_y]
        ring
    obtain ⟨-, hpainted⟩ := hdrawn
    refine ⟨hpainted.size_eq, hpainted.layout_eq, fun p hp hin => ?_, fun p hp hout => ?_⟩
    · rw [← hvalue]
      exact hpainted.inside p hp ⟨(harea p).mpr hin, trivial⟩
    · exact hpainted.outside p hp fun h => hout ((harea p).mp h.1)

end Segment

theorem segments_drawn {onto white : LayerSlice} (honto : onto.WellFormed)
    (hwhite : Drawn (fun _ => True) (fun _ => Color.white.bytes (wordLayout setup.targetAxle))
      onto white) (tiles : List TileLayer) :
    (∀ tile ∈ tiles, OnGrid tile.frame) → (∀ tile ∈ tiles, tile.inner.size = tileSize) →
      (tiles.map TileLayer.frame).Nodup →
      ∃ new, (tilesVisibleInViewport tiles ⟨scroll, onto.frame.size⟩).foldlM drawSegment white
          = some new ∧
        Drawn (fun _ => True) (fun q => pictureOn setup (scroll + q) tiles) onto new := by
  induction tiles using List.reverseRecOn with
  | nil => exact fun _ _ _ => ⟨white, rfl, hwhite⟩
  | append_singleton tiles tile ih =>
    intro hgrid hsize hdistinct
    have hmem : ∀ t ∈ tiles, t ∈ tiles ++ [tile] := fun t ht => List.mem_append_left _ ht
    have hlast : tile ∈ tiles ++ [tile] := List.mem_append_right _ (List.mem_singleton.mpr rfl)
    obtain ⟨mid, hmid, hdrawn⟩ := ih (fun t ht => hgrid t (hmem t ht))
      (fun t ht => hsize t (hmem t ht)) (by
        rw [List.map_append] at hdistinct
        exact hdistinct.of_append_left)
    have hframe : mid.frame = onto.frame := hdrawn.frame_eq
    obtain ⟨new, hnew, hover⟩ : ∃ new,
        (tilesVisibleInViewport [tile] ⟨scroll, onto.frame.size⟩).foldlM drawSegment mid = some new ∧
        Drawn (fun q => scroll + q ∈ tile.frame) (fun q => tilePixel tile (scroll + q)) mid new := by
      unfold tilesVisibleInViewport
      cases hpart : (⟨scroll, onto.frame.size⟩ : Rect).areaOverlappingWith tile.frame with
      | none =>
        rw [List.filterMap_cons_none (by rw [hpart]; rfl), List.filterMap_nil]
        refine ⟨mid, rfl, Drawn.nothing ?_⟩
        rw [hframe]
        exact not_mem_of_overlap_none (hgrid tile hlast) hpart
      | some part =>
        rw [← hframe] at hpart ⊢
        obtain ⟨new, hnew, hover⟩ := drawSegment_drawn (hdrawn.wellFormed honto)
          (hgrid tile hlast) (hsize tile hlast) hpart
        refine ⟨new, ?_, hover⟩
        rw [List.filterMap_cons_some (by rw [hpart]; rfl), List.filterMap_nil, List.foldlM_cons,
          hnew]
        rfl
    refine ⟨new, ?_, hdrawn.drawOver hover (fun q _ hin => ?_) fun q _ hout => ?_⟩
    · unfold tilesVisibleInViewport at hmid hnew ⊢
      rw [List.filterMap_append, List.foldlM_append, hmid]
      exact hnew
    · exact (pictureOn_of_mem hgrid hdistinct hlast hin).symm
    · refine (pictureOn_append_white tiles [tile] fun t ht hin => absurd hin ?_).symm
      rw [List.mem_singleton.mp ht]
      exact hout

/-- **A viewport shows the picture at the scroll offset (proved).** -/
theorem drawVisibleContentOnto_drawn (h : layer.Tiled setup) (honto : onto.WellFormed) :
    ∃ new, layer.drawVisibleContentOnto setup onto = some new ∧
      Drawn (fun _ => True) (fun q => layer.picture setup (layer.scrollOffset + q)) onto new := by
  obtain ⟨white, hwhite, hdrawn⟩ := LayerSlice.fillSolid_drawn (Rect.withSize onto.frame.size)
    (Color.white.bytes (wordLayout setup.targetAxle)) honto (le_refl 0) honto.1.1 honto.1.1
    (le_refl 0)
  have hall := hdrawn.congr fun p hp => iff_of_true hp trivial
  obtain ⟨new, hnew, hshown⟩ :=
    segments_drawn honto hall layer.layers h.grid h.framebuffer h.distinct
  refine ⟨new, ?_, hshown⟩
  unfold drawVisibleContentOnto
  have hfill : onto.fillRect setup.targetAxle (Rect.withSize onto.frame.size) Color.white .filled
      = some white := hwhite
  rw [hfill, Option.bind_some, hall.frame_eq]
  exact hnew

end ExpandingLayer

/-! ### The canvas -/

/-- What is asked of the layer: its tiles lie on the grid and are disjoint, making tiles changes
nothing, and every viewport at every scroll offset shows the colours of the canvas. -/
structure Shows (setup : Setup) (layer : ExpandingLayer) (canvas : Canvas) : Prop where
  grid : ∀ tile ∈ layer.layers, OnGrid tile.frame
  disjoint : (layer.layers.map TileLayer.frame).Pairwise Rect.Disjoint
  viewport : ∀ (scroll : Point) (onto : LayerSlice), onto.WellFormed → ∃ new,
    (layer.setScrollOffset scroll).drawVisibleContentOnto setup onto = some new ∧
      ∀ p ∈ Rect.withSize onto.frame.size,
        new.pixelAt p = (canvas (scroll + p)).bytes (wordLayout setup.targetAxle)
  expands : ∀ rect : Rect, ∃ layer', layer.expandToContainRect setup rect = some layer' ∧
    layer.layers <+: layer'.layers ∧
    ∀ (scroll : Point) (onto : LayerSlice), onto.WellFormed →
      ∃ new new', (layer.setScrollOffset scroll).drawVisibleContentOnto setup onto = some new ∧
        (layer'.setScrollOffset scroll).drawVisibleContentOnto setup onto = some new' ∧
        ∀ p ∈ Rect.withSize onto.frame.size, new'.pixelAt p = new.pixelAt p

/-- A colour that single pixels are written in as rectangles are. -/
def SameBytes (setup : Setup) (color : Color) : Prop :=
  color.bytes setup.pixelByteLayout = color.bytes (wordLayout setup.targetAxle)

/-- The condition on a call, given the canvas so far.  A border fits into all parts of its
rectangle, and on the seams that it is drawn along the canvas has its colour already; a character
is in the font; single pixels come out in their colour. -/
def KeepsPicture (setup : Setup) (canvas : Canvas) : Op → Prop
  | .fillRect rect _ color thickness =>
    (∀ frame, OnGrid frame → ExpandingLayer.PartFits rect thickness frame) ∧
      ∀ p ∈ rect, (tileAt p).Stroke thickness p → ¬rect.Stroke thickness p → canvas p = color
  | .putpixel _ color => SameBytes setup color
  | .drawChar frame ch color =>
    ch.toNat < 128 ∧
      ((∃ p ∈ frame, setup.glyph ch frame.size (p - frame.origin) = true) → SameBytes setup color)

open ExpandingLayer

/-- The picture of the layer is the canvas. -/
structure Displays (setup : Setup) (layer : ExpandingLayer) (canvas : Canvas) : Prop where
  tiled : layer.Tiled setup
  picture : ∀ p, layer.picture setup p = (canvas p).bytes (wordLayout setup.targetAxle)

section Canvas

variable {setup : Setup} {layer : ExpandingLayer} {canvas : Canvas}

theorem displays_new (setup : Setup) :
    Displays setup ExpandingLayer.new fun _ => Color.white :=
  ⟨⟨fun _ h => absurd h List.not_mem_nil, fun _ h => absurd h List.not_mem_nil,
    fun _ h => absurd h List.not_mem_nil, List.nodup_nil⟩, fun _ => rfl⟩

theorem setScrollOffset_tiled (h : layer.Tiled setup) (scroll : Point) :
    (layer.setScrollOffset scroll).Tiled setup := ⟨h.grid, h.framebuffer, h.layout, h.distinct⟩

theorem viewport_shows (h : layer.Tiled setup) (scroll : Point) {onto : LayerSlice}
    (honto : onto.WellFormed) : ∃ new,
      (layer.setScrollOffset scroll).drawVisibleContentOnto setup onto = some new ∧
        ∀ p ∈ Rect.withSize onto.frame.size,
          new.pixelAt p = layer.picture setup (scroll + p) := by
  obtain ⟨new, hnew, hdrawn⟩ := drawVisibleContentOnto_drawn (setScrollOffset_tiled h scroll) honto
  exact ⟨new, hnew, fun p hp => hdrawn.pixelAt_eq honto hp trivial⟩

theorem Displays.shows (h : Displays setup layer canvas) : Shows setup layer canvas where
  grid := h.tiled.grid
  disjoint := by
    have hpairwise := List.pairwise_map.mp h.tiled.distinct
    refine List.pairwise_map.mpr ((List.Pairwise.and_mem.mp hpairwise).imp ?_)
    rintro tile tile' ⟨htile, htile', hne⟩ p hp hp'
    exact hne ((h.tiled.grid tile htile).eq_of_mem (h.tiled.grid tile' htile') hp hp')
  viewport scroll onto honto := by
    obtain ⟨new, hnew, hshown⟩ := viewport_shows h.tiled scroll honto
    exact ⟨new, hnew, fun p hp => by rw [hshown p hp, h.picture]⟩
  expands rect := by
    obtain ⟨layer', hlayer, htiled, hkeep, hsame, -⟩ := expandToContainRect_spec h.tiled rect
    refine ⟨layer', hlayer, hkeep, fun scroll onto honto => ?_⟩
    obtain ⟨new, hnew, hshown⟩ := viewport_shows h.tiled scroll honto
    obtain ⟨new', hnew', hshown'⟩ := viewport_shows htiled scroll honto
    exact ⟨new, new', hnew, hnew', fun p hp => by rw [hshown p hp, hshown' p hp, hsame]⟩

/-- A viewport of one point. -/
def onePoint : LayerSlice :=
  ⟨SingleFramebufferLayer.newExt ⟨1, 1⟩ .rgba, Rect.new 0 0 1 1⟩

theorem onePoint_wellFormed : onePoint.WellFormed :=
  ⟨⟨by decide, by decide⟩, by decide, by decide, by decide, by decide⟩

theorem Shows.displays (h : Shows setup layer canvas) (htiled : layer.Tiled setup) :
    Displays setup layer canvas := by
  refine ⟨htiled, fun p => ?_⟩
  have hzero : p + Point.zero = p := by
    ext
    · exact add_zero _
    · exact add_zero _
  have hin : Point.zero ∈ Rect.withSize onePoint.frame.size := by decide
  obtain ⟨new, hnew, hshown⟩ := viewport_shows htiled p onePoint_wellFormed
  obtain ⟨new', hnew', hshown'⟩ := h.viewport p onePoint onePoint_wellFormed
  rw [hnew] at hnew'
  cases hnew'
  have heq := (hshown _ hin).symm.trans (hshown' _ hin)
  rwa [hzero] at heq

variable {area : Point → Prop} {layer' : ExpandingLayer} {op : Op} {pixel : Pixel} {p : Point}

/-- The picture behind a call that draws in its own colour. -/
theorem displays_of_paints (h : Displays setup layer canvas)
    (hpaints : Paints setup area pixel layer layer')
    (hin : ∀ p, area p → (canvas.draw setup op p).bytes (wordLayout setup.targetAxle) = pixel)
    (hout : ∀ p, op.Draws setup p → area p) : Displays setup layer' (canvas.draw setup op) := by
  refine ⟨hpaints.tiled, fun p => ?_⟩
  by_cases harea : area p
  · rw [hpaints.inside p harea, hin p harea]
  · rw [hpaints.outside p harea, h.picture, Canvas.draw, if_neg fun hdraws => harea (hout p hdraws)]

theorem Displays.bytes_eq (hpaints : Paints setup area pixel layer layer')
    (h : Displays setup layer' (canvas.draw setup op)) (harea : area p) :
    (canvas.draw setup op p).bytes (wordLayout setup.targetAxle) = pixel := by
  rw [← h.picture, hpaints.inside p harea]

theorem Canvas.draw_of_draws (op : Op) (h : op.Draws setup p) :
    canvas.draw setup op p = op.color := if_pos h

/-- **The step lemma (proved).** -/
theorem step_keeps (h : Displays setup layer canvas) (hop : KeepsPicture setup canvas op) :
    ∃ layer', step setup layer op = some layer' ∧ Displays setup layer' (canvas.draw setup op) := by
  cases op with
  | fillRect rect hpos color thickness =>
    obtain ⟨layer', hlayer, hpaints⟩ := fillRect_paints setup color hpos h.tiled hop.1
    refine ⟨layer', hlayer, displays_of_paints h hpaints (fun p harea => ?_) fun p => Or.inl⟩
    by_cases hstroke : rect.Stroke thickness p
    · rw [Canvas.draw_of_draws (.fillRect rect hpos color thickness) hstroke]
      rfl
    · have hseam := harea.resolve_left hstroke
      have hdraw : canvas.draw setup (.fillRect rect hpos color thickness) p = canvas p :=
        if_neg hstroke
      rw [hdraw, hop.2 p hseam.1 hseam.2 hstroke]
  | putpixel point color =>
    obtain ⟨layer', hlayer, hpaints⟩ := putpixel_paints h.tiled point color
    refine ⟨layer', hlayer, displays_of_paints h hpaints (fun p harea => ?_) fun p => id⟩
    rw [Canvas.draw_of_draws (.putpixel point color) harea]
    exact hop.symm
  | drawChar frame ch color =>
    obtain ⟨layer', hlayer, hpaints⟩ := drawChar_paints h.tiled frame color hop.1
    refine ⟨layer', hlayer, displays_of_paints h hpaints (fun p harea => ?_) fun p => id⟩
    rw [Canvas.draw_of_draws (.drawChar frame ch color) harea]
    exact (hop.2 ⟨p, harea⟩).symm

/-- The other way round: a step to the right picture has met the condition. -/
theorem keepsPicture_of_step (h : Displays setup layer canvas)
    (hstep : step setup layer op = some layer')
    (h' : Displays setup layer' (canvas.draw setup op)) : KeepsPicture setup canvas op := by
  cases op with
  | fillRect rect hpos color thickness =>
    have hfits : ∀ frame, OnGrid frame → PartFits rect thickness frame := by
      by_contra hnot
      push Not at hnot
      obtain ⟨frame, hframe, hbad⟩ := hnot
      have hnone := fillRect_eq_none setup color hpos h.tiled hframe hbad
      rw [step, hnone] at hstep
      cases hstep
    refine ⟨hfits, fun p hp hseam hstroke => ?_⟩
    obtain ⟨made, hmade, hpaints⟩ := fillRect_paints setup color hpos h.tiled hfits
    rw [step, hmade] at hstep
    cases hstep
    have hbytes := h'.bytes_eq hpaints (Or.inr ⟨hp, hseam⟩)
    have hdraw : canvas.draw setup (.fillRect rect hpos color thickness) p = canvas p :=
      if_neg hstroke
    rw [hdraw] at hbytes
    exact Color.bytes_injective _ hbytes
  | putpixel point color =>
    obtain ⟨made, hmade, hpaints⟩ := putpixel_paints h.tiled point color
    rw [step, hmade] at hstep
    cases hstep
    have hbytes := h'.bytes_eq hpaints (p := point) rfl
    rw [Canvas.draw_of_draws (.putpixel point color) rfl] at hbytes
    exact hbytes.symm
  | drawChar frame ch color =>
    by_cases hch : ch.toNat < 128
    · refine ⟨hch, fun ⟨p, hp, hset⟩ => ?_⟩
      obtain ⟨made, hmade, hpaints⟩ := drawChar_paints h.tiled frame color hch
      rw [step, hmade] at hstep
      cases hstep
      have hbytes := h'.bytes_eq hpaints ⟨hp, hset⟩
      rw [Canvas.draw_of_draws (.drawChar frame ch color) ⟨hp, hset⟩] at hbytes
      exact hbytes.symm
    · rw [step, drawChar_eq_none h.tiled frame color hch] at hstep
      cases hstep

end Canvas

theorem step_tiled {setup : Setup} {layer layer' : ExpandingLayer} {op : Op}
    (h : layer.Tiled setup) (hstep : step setup layer op = some layer') :
    layer'.Tiled setup := by
  cases op with
  | fillRect rect hpos color thickness =>
    by_cases hfits : ∀ frame, OnGrid frame → PartFits rect thickness frame
    · obtain ⟨made, hmade, hpaints⟩ := fillRect_paints setup color hpos h hfits
      rw [step, hmade] at hstep
      cases hstep
      exact hpaints.tiled
    · push Not at hfits
      obtain ⟨frame, hframe, hbad⟩ := hfits
      rw [step, fillRect_eq_none setup color hpos h hframe hbad] at hstep
      cases hstep
  | putpixel point color =>
    obtain ⟨made, hmade, hpaints⟩ := putpixel_paints h point color
    rw [step, hmade] at hstep
    cases hstep
    exact hpaints.tiled
  | drawChar frame ch color =>
    by_cases hch : ch.toNat < 128
    · obtain ⟨made, hmade, hpaints⟩ := drawChar_paints h frame color hch
      rw [step, hmade] at hstep
      cases hstep
      exact hpaints.tiled
    · rw [step, drawChar_eq_none h frame color hch] at hstep
      cases hstep

theorem canvasOf_append (setup : Setup) (ops : List Op) (op : Op) :
    canvasOf setup (ops ++ [op]) = (canvasOf setup ops).draw setup op := by
  unfold canvasOf
  rw [List.foldl_append, List.foldl_cons, List.foldl_nil]

theorem run_append_single (setup : Setup) (ops : List Op) (op : Op) (layer : ExpandingLayer) :
    run (step setup) layer (ops ++ [op]) =
      (run (step setup) layer ops).bind fun layer => step setup layer op := by
  rw [run_append]
  refine Option.bind_congr fun layer _ => ?_
  rw [run]
  cases step setup layer op <;> rfl

/-- **The expanding layer is an unbounded canvas (proved).**  After every part of a sequence of
calls the program has not stopped, and every viewport shows what was drawn last, if and only if
all calls meet the condition on the canvas before them. -/
theorem expandingLayer_iff (setup : Setup) (ops : List Op) :
    (∀ done, done <+: ops → ∃ layer, run (step setup) ExpandingLayer.new done = some layer ∧
      Shows setup layer (canvasOf setup done)) ↔
      ∀ done op, done ++ [op] <+: ops → KeepsPicture setup (canvasOf setup done) op := by
  have hforward : (∀ done op, done ++ [op] <+: ops →
      KeepsPicture setup (canvasOf setup done) op) → ∀ done, done <+: ops →
      ∃ layer, run (step setup) ExpandingLayer.new done = some layer ∧
        Displays setup layer (canvasOf setup done) := by
    intro hkeeps done
    induction done using List.reverseRecOn with
    | nil => exact fun _ => ⟨ExpandingLayer.new, rfl, displays_new setup⟩
    | append_singleton done op ih =>
      intro hprefix
      obtain ⟨layer, hrun, hdisplays⟩ := ih ((List.prefix_append done [op]).trans hprefix)
      obtain ⟨layer', hlayer, hdisplays'⟩ := step_keeps hdisplays (hkeeps done op hprefix)
      refine ⟨layer', ?_, ?_⟩
      · rw [run_append_single, hrun, Option.bind_some, hlayer]
      · rw [canvasOf_append]
        exact hdisplays'
  constructor
  · intro hshows
    -- every state of the run is tiled, since the steps before it have met the condition
    have hdisplays : ∀ done, done <+: ops → ∃ layer,
        run (step setup) ExpandingLayer.new done = some layer ∧
          Displays setup layer (canvasOf setup done) := by
      intro done
      induction done using List.reverseRecOn with
      | nil => exact fun _ => ⟨ExpandingLayer.new, rfl, displays_new setup⟩
      | append_singleton done op ih =>
        intro hprefix
        obtain ⟨layer, hrun, hdisplays⟩ := ih ((List.prefix_append done [op]).trans hprefix)
        obtain ⟨layer', hrun', hshows'⟩ := hshows _ hprefix
        refine ⟨layer', hrun', hshows'.displays ?_⟩
        rw [run_append_single, hrun, Option.bind_some] at hrun'
        exact step_tiled hdisplays.tiled hrun'
    intro done op hprefix
    obtain ⟨layer, hrun, hlayer⟩ := hdisplays done ((List.prefix_append done [op]).trans hprefix)
    obtain ⟨layer', hrun', hlayer'⟩ := hdisplays _ hprefix
    rw [run_append_single, hrun, Option.bind_some] at hrun'
    rw [canvasOf_append] at hlayer'
    exact keepsPicture_of_step hlayer hrun' hlayer'
  · intro hkeeps done hprefix
    obtain ⟨layer, hrun, hdisplays⟩ := hforward hkeeps done hprefix
    exact ⟨layer, hrun, hdisplays.shows⟩

/-- On a host, where rectangles are filled with words in the layout of the tiles. -/
def hostSetup : Setup := ⟨false, .rgba, fun _ _ _ => false⟩

/-- A red border of five points around a rectangle that crosses the seam at 300. -/
def crossing : Op :=
  .fillRect (Rect.new 250 10 100 40) (by decide) ⟨255, 0, 0⟩ (.width 5)

/-- The border is drawn along the seam, where nothing was drawn on the canvas. -/
theorem seam_drawnOver : ¬∃ layer,
    run (step hostSetup) ExpandingLayer.new [crossing] = some layer ∧
      Shows hostSetup layer (canvasOf hostSetup [crossing]) := by
  rintro ⟨layer, hrun, hshows⟩
  obtain ⟨new, hnew, hshown⟩ := hshows.viewport ⟨298, 30⟩ onePoint onePoint_wellFormed
  have hpixel : (((run (step hostSetup) ExpandingLayer.new [crossing]).bind fun layer =>
      (layer.setScrollOffset ⟨298, 30⟩).drawVisibleContentOnto hostSetup onePoint).map
        fun slice => slice.pixelAt ⟨0, 0⟩) = some ⟨255, 0, 0, 255⟩ := by
    decide +kernel
  rw [hrun, Option.bind_some, hnew, Option.map_some, hshown _ (by decide)] at hpixel
  revert hpixel
  decide

end Axle.Libgui.ScrollView
