import Axle.Libgui.ScrollView

/-!
# The scroll offset

A step of the mouse wheel moves the offset, unless that leads out of the scrollable region; then it
moves to one of the two ends instead.  The region starts where the content starts, above 0 when
something was drawn there, and is as high as the content without half of the viewport, which is
negative for little content.

* `step_grows` — **PROVED**: drawing leaves the offset alone and only makes the content larger;
* `top_reachable` / `bottom_reachable` — **PROVED**: wheel steps of any size reach the ends;
* `scrollOffset_iff` — **PROVED**: the offset stays within its bounds exactly as long as no step
  downwards finds too little content, and none upwards finds content above 0.
-/

namespace Axle.Libgui

open Axle.Agx Axle.Lib.StepRun

/-! ### The wheel -/

/-- The layer, and its visible frame, which the view sets. -/
structure ScrollView where
  layer : ScrollView.ExpandingLayer
  visibleFrame : Rect

namespace ScrollView

def ExpandingLayer.totalContentFrame (layer : ExpandingLayer) : Rect :=
  layer.layers.foldl (fun total tile => total.union tile.frame) Rect.zero

/-- Half of the viewport is computed in `f64` and cast back, which rounds towards zero. -/
def scrollableRegionSizeWithParams (viewportSize contentSize : Size) : Size :=
  ⟨contentSize.width, contentSize.height - viewportSize.height.tdiv 2⟩

def scrollableRegionSize (v : ScrollView) : Size :=
  scrollableRegionSizeWithParams v.visibleFrame.size v.layer.totalContentFrame.size

def scrollableRegion (v : ScrollView) : Rect :=
  ⟨v.layer.totalContentFrame.origin, v.scrollableRegionSize⟩

def scrollStep (v : ScrollView) : ℤ :=
  if v.layer.totalContentFrame.height > 10000 then 10
  else if v.layer.totalContentFrame.height > 1000 then 5
  else 1

/-- Where a step of the wheel would lead. -/
def scrolled (v : ScrollView) (deltaZ : ℤ) : Point :=
  ⟨v.layer.scrollOffset.x, v.layer.scrollOffset.y + deltaZ * v.scrollStep⟩

def handleMouseScrolled (v : ScrollView) (deltaZ : ℤ) : ScrollView :=
  let previousScrollOffset := v.layer.scrollOffset
  let scrollOffset :=
    if !v.scrollableRegion.contains (v.scrolled deltaZ) then
      if deltaZ < 0 then Point.zero else ⟨0, v.scrollableRegion.height⟩
    else v.scrolled deltaZ
  if scrollOffset ≠ previousScrollOffset then
    { v with layer := v.layer.setScrollOffset scrollOffset }
  else v

inductive ScrollEvent
  | draw (op : Op)
  | mouseScrolled (deltaZ : ℤ)

def scrollNext (setup : Setup) (v : ScrollView) : ScrollEvent → Option ScrollView
  | .draw op => (step setup v.layer op).map fun layer => { v with layer }
  | .mouseScrolled deltaZ => some (v.handleMouseScrolled deltaZ)

/-! ### Drawing -/

/-- Tiles are added, and nothing is scrolled. -/
structure Grows (old new : ExpandingLayer) : Prop where
  scrollOffset : new.scrollOffset = old.scrollOffset
  frames : old.layers.map TileLayer.frame <+: new.layers.map TileLayer.frame

namespace Grows

variable {setup : Setup} {old mid new : ExpandingLayer}

theorem refl (layer : ExpandingLayer) : Grows layer layer := ⟨rfl, List.prefix_refl _⟩

theorem trans (h : Grows old mid) (h' : Grows mid new) : Grows old new :=
  ⟨h'.scrollOffset.trans h.scrollOffset, h.frames.trans h'.frames⟩

theorem foldlM {α : Type*} {f : ExpandingLayer → α → Option ExpandingLayer}
    (hf : ∀ layer a layer', f layer a = some layer' → Grows layer layer') :
    ∀ (items : List α) {old new : ExpandingLayer}, items.foldlM f old = some new →
      Grows old new := by
  intro items
  induction items with
  | nil =>
    intro old new h
    obtain rfl := Option.some.inj h
    exact refl old
  | cons a items ih =>
    intro old new h
    obtain ⟨mid, hmid, hrest⟩ := Option.bind_eq_some_iff.mp (List.foldlM_cons.symm.trans h)
    exact (hf old a mid hmid).trans (ih hrest)

theorem expandToContainRect {rect : Rect} (h : old.expandToContainRect setup rect = some new) :
    Grows old new := by
  obtain ⟨total, -, hmade⟩ := Option.bind_eq_some_iff.mp h
  obtain ⟨tiles, -, rfl⟩ := Option.map_eq_some_iff.mp hmade
  refine ⟨rfl, ?_⟩
  rw [List.map_append]
  exact List.prefix_append _ _

theorem of_frames {layers : List TileLayer}
    (h : layers.map TileLayer.frame = old.layers.map TileLayer.frame) :
    Grows old { old with layers } :=
  ⟨rfl, by rw [h]⟩

end Grows

variable {color : Color} {setup : Setup} {point : Point} {new old : ExpandingLayer} {op : Op}
  {v : ScrollView} {deltaZ : ℤ}

theorem fillTile_frame {rect : Rect} {thickness : StrokeThickness} {tile tile' : TileLayer}
    (h : ExpandingLayer.fillTile setup rect color thickness tile = some tile') :
    tile'.frame = tile.frame := by
  unfold ExpandingLayer.fillTile at h
  split at h
  · obtain ⟨slice, -, rfl⟩ := Option.map_eq_some_iff.mp h
    rfl
  · obtain rfl := Option.some.inj h
    rfl

theorem mapM_frames {f : TileLayer → Option TileLayer}
    (hf : ∀ tile tile', f tile = some tile' → tile'.frame = tile.frame) :
    ∀ {tiles tiles' : List TileLayer}, tiles.mapM f = some tiles' →
      tiles'.map TileLayer.frame = tiles.map TileLayer.frame := by
  intro tiles
  induction tiles with
  | nil =>
    intro tiles' h
    obtain rfl := Option.some.inj h
    rfl
  | cons tile tiles ih =>
    intro tiles' h
    rw [List.mapM_cons] at h
    obtain ⟨first, hfirst, h⟩ := Option.bind_eq_some_iff.mp h
    obtain ⟨rest, hrest, h⟩ := Option.bind_eq_some_iff.mp h
    obtain rfl := Option.some.inj h
    rw [List.map_cons, List.map_cons, hf tile first hfirst, ih hrest]

theorem putpixelInto_frames :
    ∀ {tiles tiles' : List TileLayer},
      ExpandingLayer.putpixelInto point color tiles = some tiles' →
      tiles'.map TileLayer.frame = tiles.map TileLayer.frame := by
  intro tiles
  induction tiles with
  | nil =>
    intro tiles' h
    obtain rfl := Option.some.inj h
    rfl
  | cons tile tiles ih =>
    intro tiles' h
    rw [ExpandingLayer.putpixelInto] at h
    split at h
    · obtain ⟨drawn, hdrawn, rfl⟩ := Option.map_eq_some_iff.mp h
      obtain ⟨inner, -, rfl⟩ := Option.map_eq_some_iff.mp hdrawn
      rfl
    · obtain ⟨rest, hrest, rfl⟩ := Option.map_eq_some_iff.mp h
      rw [List.map_cons, List.map_cons, ih hrest]

theorem putpixelUnchecked_grows (h : old.putpixelUnchecked point color = some new) :
    Grows old new := by
  obtain ⟨layers, hlayers, rfl⟩ := Option.map_eq_some_iff.mp h
  exact .of_frames (putpixelInto_frames hlayers)

/-- **Drawing** leaves the offset alone and keeps every tile. -/
theorem step_grows (h : step setup old op = some new) : Grows old new := by
  cases op with
  | fillRect rect hpos color thickness =>
    obtain ⟨mid, hmid, hfill⟩ := Option.bind_eq_some_iff.mp h
    obtain ⟨layers, hlayers, rfl⟩ := Option.map_eq_some_iff.mp hfill
    exact (Grows.expandToContainRect hmid).trans
      (.of_frames (mapM_frames (fun _ _ htile => fillTile_frame htile) hlayers))
  | putpixel point color =>
    obtain ⟨mid, hmid, hput⟩ := Option.bind_eq_some_iff.mp h
    exact (Grows.expandToContainRect hmid).trans (putpixelUnchecked_grows hput)
  | drawChar frame ch color =>
    obtain ⟨mid, hmid, hrows⟩ := Option.bind_eq_some_iff.mp h
    split at hrows
    · refine (Grows.expandToContainRect hmid).trans (Grows.foldlM (fun row y row' hrow => ?_) _ hrows)
      refine Grows.foldlM (fun layer x layer' hpixel => ?_) _ hrow
      split at hpixel
      · exact putpixelUnchecked_grows hpixel
      · obtain rfl := Option.some.inj hpixel
        exact Grows.refl layer
    · cases hrows

/-- A content frame that starts above another one and ends below it. -/
def Spans (outer inner : Rect) : Prop := outer.minY ≤ inner.minY ∧ inner.maxY ≤ outer.maxY

theorem Spans.height_le {outer inner : Rect} (h : Spans outer inner) :
    inner.height ≤ outer.height := by
  have htop := h.1
  have hbottom := h.2
  simp only [Rect.maxY] at hbottom
  unfold Rect.height
  omega

theorem foldl_union_spans (frames : List Rect) : ∀ total : Rect,
    Spans (frames.foldl Rect.union total) total := by
  induction frames with
  | nil => exact fun total => ⟨le_rfl, le_rfl⟩
  | cons frame frames ih =>
    intro total
    obtain ⟨htop, hbottom⟩ := ih (total.union frame)
    refine ⟨htop.trans (min_le_left _ _), le_trans ?_ hbottom⟩
    simp only [Rect.union, Rect.maxY, Rect.minY]
    omega

theorem totalContentFrame_eq (layer : ExpandingLayer) : layer.totalContentFrame =
    (layer.layers.map TileLayer.frame).foldl Rect.union Rect.zero := by
  rw [ExpandingLayer.totalContentFrame, List.foldl_map]

/-- The content starts at 0 or above it, and ends at 0 or below it. -/
theorem totalContentFrame_spans (layer : ExpandingLayer) :
    Spans layer.totalContentFrame Rect.zero := by
  rw [totalContentFrame_eq]
  exact foldl_union_spans _ _

theorem Grows.height_le (h : Grows old new) :
    old.totalContentFrame.height ≤ new.totalContentFrame.height := by
  obtain ⟨added, hadded⟩ := h.frames
  rw [totalContentFrame_eq new, ← hadded, List.foldl_append, ← totalContentFrame_eq]
  exact (foldl_union_spans added _).height_le

/-! ### The bounds -/

/-- How far down the view may be scrolled. -/
def bottom (v : ScrollView) : ℤ :=
  max 0 (v.layer.totalContentFrame.height - v.visibleFrame.height.tdiv 2)

def InBounds (v : ScrollView) : Prop :=
  0 ≤ v.layer.scrollOffset.y ∧ v.layer.scrollOffset.y ≤ v.bottom

instance (v : ScrollView) : Decidable v.InBounds := inferInstanceAs (Decidable (_ ∧ _))

/-- Steps of the wheel by one `deltaZ`. -/
def wheel (deltaZ : ℤ) (v : ScrollView) : ScrollView := v.handleMouseScrolled deltaZ

/-- Steps upwards, of any size, reach the upper end; steps downwards reach the lower end where it
is below the upper one. -/
def EndsReachable (v : ScrollView) : Prop :=
  (∀ deltaZ < 0, ∃ n, ((wheel deltaZ)^[n] v).layer.scrollOffset.y = 0) ∧
    (0 < v.bottom → ∀ deltaZ > 0, ∃ n, ((wheel deltaZ)^[n] v).layer.scrollOffset.y = v.bottom)

/-- A wheel step downwards finds enough content, and one upwards does not find the scrollable region
above 0. -/
def ScrollKept (v : ScrollView) : ScrollEvent → Prop
  | .draw _ => True
  | .mouseScrolled deltaZ =>
    (0 ≤ deltaZ → v.visibleFrame.height.tdiv 2 ≤ v.layer.totalContentFrame.height) ∧
      ((v.scrolled deltaZ).y < 0 → v.scrollableRegion.contains (v.scrolled deltaZ) = false)

theorem scrollStep_pos (v : ScrollView) : 0 < v.scrollStep := by
  unfold scrollStep
  split_ifs <;> decide

section Handle

variable (v : ScrollView) (deltaZ : ℤ)

@[simp] theorem handleMouseScrolled_layers :
    (v.handleMouseScrolled deltaZ).layer.layers = v.layer.layers := by
  unfold handleMouseScrolled
  dsimp only
  split_ifs <;> rfl

@[simp] theorem handleMouseScrolled_visibleFrame :
    (v.handleMouseScrolled deltaZ).visibleFrame = v.visibleFrame := by
  unfold handleMouseScrolled
  dsimp only
  split_ifs <;> rfl

/-- **The offset after a step of the wheel.** -/
theorem handleMouseScrolled_scrollOffset :
    (v.handleMouseScrolled deltaZ).layer.scrollOffset =
      if v.scrollableRegion.contains (v.scrolled deltaZ) = true then v.scrolled deltaZ
      else if deltaZ < 0 then Point.zero
      else ⟨0, v.scrollableRegion.height⟩ := by
  have hset : ∀ target : Point, (if target ≠ v.layer.scrollOffset then
      { v with layer := v.layer.setScrollOffset target } else v).layer.scrollOffset = target := by
    intro target
    split
    · rfl
    · rename_i hsame
      exact (not_not.mp hsame).symm
  unfold handleMouseScrolled
  rw [hset]
  cases v.scrollableRegion.contains (v.scrolled deltaZ) <;> rfl

@[simp] theorem handleMouseScrolled_totalContentFrame :
    (v.handleMouseScrolled deltaZ).layer.totalContentFrame = v.layer.totalContentFrame := by
  unfold ExpandingLayer.totalContentFrame
  rw [handleMouseScrolled_layers]

@[simp] theorem handleMouseScrolled_scrollableRegion :
    (v.handleMouseScrolled deltaZ).scrollableRegion = v.scrollableRegion := by
  unfold scrollableRegion scrollableRegionSize
  rw [handleMouseScrolled_totalContentFrame, handleMouseScrolled_visibleFrame]

@[simp] theorem handleMouseScrolled_bottom : (v.handleMouseScrolled deltaZ).bottom = v.bottom := by
  unfold bottom
  rw [handleMouseScrolled_totalContentFrame, handleMouseScrolled_visibleFrame]

@[simp] theorem handleMouseScrolled_scrollStep :
    (v.handleMouseScrolled deltaZ).scrollStep = v.scrollStep := by
  unfold scrollStep
  rw [handleMouseScrolled_totalContentFrame]

end Handle

theorem scrollableRegion_height (v : ScrollView) : v.scrollableRegion.height =
    v.layer.totalContentFrame.height - v.visibleFrame.height.tdiv 2 := rfl

theorem scrollableRegion_minY (v : ScrollView) :
    v.scrollableRegion.minY = v.layer.totalContentFrame.minY := rfl

theorem contains_scrolled {p : Point} (h : v.scrollableRegion.contains p = true) :
    v.scrollableRegion.minY ≤ p.y ∧ p.y < v.scrollableRegion.minY + v.scrollableRegion.height := by
  have hmem : p ∈ v.scrollableRegion := h
  rw [Rect.mem_iff] at hmem
  exact hmem.2.2

/-! ### The ends -/

/-- **The upper end (proved)**: each step upwards leads out of the region, and to 0, or nearer to
the upper edge of it. -/
theorem top_reachable (hdelta : deltaZ < 0) : ∀ (k : ℕ) (v : ScrollView),
    v.layer.scrollOffset.y < v.scrollableRegion.minY + k →
    ∃ n, ((wheel deltaZ)^[n] v).layer.scrollOffset.y = 0 := by
  intro k
  induction k with
  | zero =>
    intro v hbelow
    refine ⟨1, ?_⟩
    have hout : ¬v.scrollableRegion.contains (v.scrolled deltaZ) = true := by
      intro hin
      have hlow := (contains_scrolled hin).1
      have hmove : deltaZ * v.scrollStep < 0 := mul_neg_of_neg_of_pos hdelta v.scrollStep_pos
      unfold scrolled at hlow
      dsimp only at hlow
      omega
    show (v.handleMouseScrolled deltaZ).layer.scrollOffset.y = 0
    rw [handleMouseScrolled_scrollOffset, if_neg hout, if_pos hdelta]
    rfl
  | succ k ih =>
    intro v hbelow
    by_cases hin : v.scrollableRegion.contains (v.scrolled deltaZ) = true
    · obtain ⟨n, hn⟩ := ih (v.handleMouseScrolled deltaZ) (by
        rw [handleMouseScrolled_scrollOffset, if_pos hin, handleMouseScrolled_scrollableRegion]
        have hmove : deltaZ * v.scrollStep < 0 := mul_neg_of_neg_of_pos hdelta v.scrollStep_pos
        unfold scrolled
        dsimp only
        omega)
      exact ⟨n + 1, hn⟩
    · refine ⟨1, ?_⟩
      show (v.handleMouseScrolled deltaZ).layer.scrollOffset.y = 0
      rw [handleMouseScrolled_scrollOffset, if_neg hin, if_pos hdelta]
      rfl

/-- **The lower end (proved)**, in the same way. -/
theorem bottom_reachable (hdelta : 0 < deltaZ) : ∀ (k : ℕ) (v : ScrollView),
    v.scrollableRegion.minY + v.scrollableRegion.height ≤ v.layer.scrollOffset.y + k →
    ∃ n, ((wheel deltaZ)^[n] v).layer.scrollOffset.y = v.scrollableRegion.height := by
  intro k
  induction k with
  | zero =>
    intro v habove
    refine ⟨1, ?_⟩
    have hout : ¬v.scrollableRegion.contains (v.scrolled deltaZ) = true := by
      intro hin
      have hhigh := (contains_scrolled hin).2
      have hmove : 0 < deltaZ * v.scrollStep := mul_pos hdelta v.scrollStep_pos
      unfold scrolled at hhigh
      dsimp only at hhigh
      omega
    show (v.handleMouseScrolled deltaZ).layer.scrollOffset.y = _
    rw [handleMouseScrolled_scrollOffset, if_neg hout, if_neg hdelta.not_gt]
  | succ k ih =>
    intro v habove
    by_cases hin : v.scrollableRegion.contains (v.scrolled deltaZ) = true
    · obtain ⟨n, hn⟩ := ih (v.handleMouseScrolled deltaZ) (by
        rw [handleMouseScrolled_scrollOffset, if_pos hin, handleMouseScrolled_scrollableRegion]
        have hmove : 0 < deltaZ * v.scrollStep := mul_pos hdelta v.scrollStep_pos
        unfold scrolled
        dsimp only
        omega)
      rw [handleMouseScrolled_scrollableRegion] at hn
      exact ⟨n + 1, hn⟩
    · refine ⟨1, ?_⟩
      show (v.handleMouseScrolled deltaZ).layer.scrollOffset.y = _
      rw [handleMouseScrolled_scrollOffset, if_neg hin, if_neg hdelta.not_gt]

theorem endsReachable (v : ScrollView) : v.EndsReachable := by
  refine ⟨fun deltaZ hdelta => ?_, fun hpos deltaZ hdelta => ?_⟩
  · exact top_reachable hdelta
      (v.layer.scrollOffset.y - v.scrollableRegion.minY + 1).toNat v (by omega)
  · have hbottom : v.bottom = v.scrollableRegion.height := by
      rw [scrollableRegion_height]
      unfold bottom at hpos ⊢
      omega
    rw [hbottom]
    exact bottom_reachable hdelta
      (v.scrollableRegion.minY + v.scrollableRegion.height - v.layer.scrollOffset.y).toNat v
      (by omega)

/-! ### Runs -/

/-- **One step of the wheel** keeps the bounds exactly under the condition. -/
theorem handleMouseScrolled_inBounds_iff (v : ScrollView) (deltaZ : ℤ) :
    (v.handleMouseScrolled deltaZ).InBounds ↔ ScrollKept v (.mouseScrolled deltaZ) := by
  have hspan : v.scrollableRegion.minY ≤ 0 := (totalContentFrame_spans v.layer).1
  have hheight := v.scrollableRegion_height
  have hbottom : v.bottom = max 0 v.scrollableRegion.height := rfl
  show 0 ≤ _ ∧ _ ≤ (v.handleMouseScrolled deltaZ).bottom ↔
    (0 ≤ deltaZ → v.visibleFrame.height.tdiv 2 ≤ v.layer.totalContentFrame.height) ∧
      ((v.scrolled deltaZ).y < 0 → v.scrollableRegion.contains (v.scrolled deltaZ) = false)
  rw [handleMouseScrolled_bottom, handleMouseScrolled_scrollOffset, hbottom]
  cases hin : v.scrollableRegion.contains (v.scrolled deltaZ) with
  | true =>
    obtain ⟨hlow, hhigh⟩ := contains_scrolled hin
    rw [if_pos rfl]
    simp only [Bool.true_eq_false, imp_false, not_lt]
    omega
  | false =>
    rw [if_neg Bool.false_ne_true]
    simp only [implies_true, and_true]
    by_cases hdelta : deltaZ < 0
    · rw [if_pos hdelta]
      simp only [Point.zero]
      omega
    · rw [if_neg hdelta]
      dsimp only
      omega

theorem InBounds.draw {layer : ExpandingLayer} (h : v.InBounds)
    (hstep : step setup v.layer op = some layer) : InBounds { v with layer } := by
  have hgrows := step_grows hstep
  have hheight := hgrows.height_le
  unfold InBounds bottom at h ⊢
  dsimp only
  rw [hgrows.scrollOffset]
  omega

/-- **The bounds of the offset (proved).**  Over every run of drawing calls and wheel steps, from
an empty view with any frame. -/
theorem scrollOffset_iff (setup : Setup) (visibleFrame : Rect) (events : List ScrollEvent) :
    (∀ v, Passes (scrollNext setup) ⟨.new, visibleFrame⟩ events v →
        v.InBounds ∧ v.EndsReachable) ↔
      Meets (scrollNext setup) ScrollKept ⟨.new, visibleFrame⟩ events := by
  have hstart : InBounds ⟨.new, visibleFrame⟩ := ⟨le_rfl, le_max_left _ _⟩
  have hstep : ∀ v event v', InBounds v → ScrollKept v event →
      scrollNext setup v event = some v' → InBounds v' := by
    intro v event v' hv hkept hnext
    cases event with
    | draw op =>
      obtain ⟨layer, hlayer, rfl⟩ := Option.map_eq_some_iff.mp hnext
      exact hv.draw hlayer
    | mouseScrolled deltaZ =>
      obtain rfl := Option.some.inj hnext
      exact (v.handleMouseScrolled_inBounds_iff deltaZ).mpr hkept
  constructor
  · intro hgood
    refine @meets_of_passes _ _ _ _ _ _ (fun _ _ => True)
      (fun v event v' hv _ => hstep v event v' hv) _ _ hstart (Meets.trivial events _) hgood fun v event hv _ hnext => ?_
    cases event with
    | draw op => exact True.intro
    | mouseScrolled deltaZ => exact (v.handleMouseScrolled_inBounds_iff deltaZ).mp (hnext _ rfl).1
  · exact fun hmeets v hpass =>
      ⟨passes_invariant hstep hstart hmeets hpass, v.endsReachable⟩

/-- One step down, before anything is drawn: half of the viewport is missing at the lower end. -/
theorem scrolled_above_top : ∃ v,
    Passes (scrollNext hostSetup) ⟨.new, Rect.new 0 0 400 600⟩ [.mouseScrolled 1] v ∧
      v.layer.scrollOffset.y = -300 ∧ v.bottom = 0 ∧ ¬v.InBounds :=
  ⟨_, ⟨_, List.prefix_refl _, rfl⟩, by decide, by decide, by decide⟩

end ScrollView

end Axle.Libgui
