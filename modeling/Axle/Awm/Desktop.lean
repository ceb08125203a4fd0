import Axle.Awm.DrawableRegions
import Mathlib.Logic.Function.Basic

/-!
# The desktop of the window manager

`awm2`'s `Desktop`: the windows and the shortcuts on it, the compositor's queues, the state of the
mouse and the animations under way, with the operations the message handlers are made of.

Windows and shortcuts are shared objects in the source.  Here they are named by the id
`next_desktop_element_id` gives them, and what an object holds is a function of the id; two
references are the same object when the ids are equal.  The desktop's own frame starts at the
origin and is given by its size.  The pixels are in `Axle.Awm.Render`.

* `Desktop.zSorted` — the elements from the foremost to the furthest back;
* `Desktop.recomputeDrawableRegionsInRect` — the loop over them, from the back;
* `Desktop.mouseInteractionStateForMouseState` / `Desktop.transitionToMouseInteractionState` —
  the state machine of the mouse, with the messages it sends;
* `recompute_scene` — **PROVED**: the loop does what a recomputation of the scene does.
-/

namespace Axle.Awm

open Axle.Agx

/-- The number `next_desktop_element_id` gives to a window or a shortcut. -/
abbrev ElementId := ℕ

/-! ### Windows, shortcuts, mouse -/

inductive ZIndexCategory where
  | floatingWindow
  | window
  | desktopView
  deriving DecidableEq, Repr

inductive TitleBarButtonsHoverState where
  | unhovered
  | hoverBackground
  | hoverClose
  | hoverMinimize
  deriving DecidableEq, Repr

structure WindowParams where
  hasTitleBar : Bool
  isResizable : Bool
  isDraggable : Bool
  zIndexCategory : ZIndexCategory
  deriving DecidableEq, Repr

namespace WindowParams

/-- The parameters of a client's window. -/
def default : WindowParams := ⟨true, true, true, .window⟩

/-- The parameters of the dock and of the menu bar. -/
def floating : WindowParams := ⟨false, false, false, .floatingWindow⟩

/-- `DEFAULT_TITLE_BAR_HEIGHT`, or nothing. -/
def titleBarHeight (params : WindowParams) : ℤ := if params.hasTitleBar then 30 else 0

end WindowParams

structure Window where
  ownerService : String
  title : Option String
  titleBarButtonsHoverState : TitleBarButtonsHoverState
  params : WindowParams
  unminimizedFrame : Option Rect
  deriving DecidableEq, Repr

inductive ShortcutMouseInteractionState where
  | unhovered
  | hover
  | leftClickDown
  | leftClickUp (timestamp : ℕ)
  deriving DecidableEq, Repr

structure DesktopShortcut where
  path : String
  title : String
  firstClickStartTime : Option ℕ
  interactionState : ShortcutMouseInteractionState
  deriving DecidableEq, Repr

structure DesktopShortcutGridSlot where
  coordinates : ℤ × ℤ
  frame : Rect
  occupant : Option ElementId
  deriving DecidableEq, Repr

inductive MouseStateChange where
  | leftClickBegan
  | leftClickEnded
  | moved (pos relShift : Point)
  | scrolled (deltaZ : ℤ)
  deriving DecidableEq, Repr

structure MouseState where
  pos : Point
  leftClickDown : Bool
  deriving DecidableEq, Repr

inductive MouseInteractionState where
  | backgroundHover
  | windowHover (w : ElementId)
  | hintingWindowDrag (w : ElementId)
  | hintingWindowResize (w : ElementId)
  | performingWindowDrag (w : ElementId)
  | performingWindowResize (w : ElementId)
  | mouseDragWithinWindow (w : ElementId)
  | shortcutHover (s : ElementId)
  | shortcutDrag (s : ElementId)
  deriving DecidableEq, Repr

namespace MouseInteractionState

/-- The window a state is about. -/
def window? : MouseInteractionState → Option ElementId
  | windowHover w | hintingWindowDrag w | hintingWindowResize w | performingWindowDrag w
  | performingWindowResize w | mouseDragWithinWindow w => some w
  | backgroundHover | shortcutHover _ | shortcutDrag _ => none

/-- The shortcut a state is about. -/
def shortcut? : MouseInteractionState → Option ElementId
  | shortcutHover s | shortcutDrag s => some s
  | _ => none

/-- The states that stay while the left button is down. -/
def isDrag : MouseInteractionState → Bool
  | performingWindowDrag _ | shortcutDrag _ | mouseDragWithinWindow _ => true
  | _ => false

/-- From the content or the resize border of a window into its own title bar. -/
def entersOwnTitleBar : MouseInteractionState → MouseInteractionState → Bool
  | windowHover w, hintingWindowDrag w' | hintingWindowResize w, hintingWindowDrag w' => w = w'
  | _, _ => false

end MouseInteractionState

/-! ### Animations, queues, messages -/

/-- The window or shortcut of an animation, its times and its two frames. -/
structure AnimationParams where
  startTime : ℕ
  endTime : ℕ
  element : ElementId
  durationMs : ℕ
  frameFrom : Rect
  frameTo : Rect
  deriving DecidableEq, Repr

inductive Animation where
  | windowOpen (params : AnimationParams)
  | windowClose (params : AnimationParams)
  | windowMinimize (params : AnimationParams)
  | windowUnminimize (params : AnimationParams)
  | shortcutSnap (params : AnimationParams)
  deriving DecidableEq, Repr

namespace Animation

def params : Animation → AnimationParams
  | windowOpen p | windowClose p | windowMinimize p | windowUnminimize p | shortcutSnap p => p

def isComplete (anim : Animation) (now : ℕ) : Bool := now ≥ anim.params.endTime

end Animation

/-- The insertion into a `BTreeSet`: in order, and not twice. -/
def btreeInsert {α : Type*} (lt : α → α → Bool) (a : α) : List α → List α
  | [] => [a]
  | b :: l =>
    if lt a b then a :: b :: l
    else if lt b a then b :: btreeInsert lt a l
    else b :: l

/-- The derived order on rectangles. -/
def rectLt (r s : Rect) : Bool :=
  r.minX < s.minX || r.minX = s.minX &&
    (r.minY < s.minY || r.minY = s.minY &&
      (r.width < s.width || r.width = s.width && r.height < s.height))

/-- `extra_draws`: the ids with something to draw, ascending, each with its rectangles. -/
abbrev ExtraDraws := List (ElementId × List Rect)

def ExtraDraws.insertRect (id : ElementId) (r : Rect) : ExtraDraws → ExtraDraws
  | [] => [(id, [r])]
  | (k, rects) :: rest =>
    if id < k then (id, [r]) :: (k, rects) :: rest
    else if k < id then (k, rects) :: ExtraDraws.insertRect id r rest
    else (k, btreeInsert rectLt r rects) :: rest

structure CompositorState where
  rectsToFullyRedraw : List Rect
  elementsToComposite : List ElementId
  /-- Every element the compositor knows, in the order it was told of them. -/
  elements : List ElementId
  /-- The ids in the table from ids to elements. -/
  elementsById : List ElementId
  extraDraws : ExtraDraws
  extraBackgroundDraws : List Rect
  deriving DecidableEq, Repr

def CompositorState.new : CompositorState := ⟨[], [], [], [], [], []⟩

inductive KeyboardModifier where
  | shift
  | control
  | command
  | option
  deriving DecidableEq, Repr

inductive RenderStrategy where
  | treeWalk
  | composite
  deriving DecidableEq, Repr

/-- The sizes of the two title bar buttons, from their images. -/
structure WindowDecorationImages where
  closeButton : Size
  minimizeButton : Size
  deriving DecidableEq, Repr

/-- The messages `awm2` sends. -/
inductive Sent where
  | mouseEntered
  | mouseExited
  | mouseMoved (pos : Point)
  | mouseDragged (pos : Point)
  | mouseScrolled (pos : Point) (deltaZ : ℤ)
  | mouseLeftClickStarted (pos : Point)
  | mouseLeftClickEnded (pos : Point)
  | windowResized (contentSize : Size)
  | closeWindow
  | keyDown (key : ℕ)
  | keyUp (key : ℕ)
  | dockWindowCreated (window : ElementId) (title : String)
  | dockWindowTitleUpdated (window : ElementId) (title : String)
  | dockWindowMinimizeRequested (window : ElementId)
  | dockWindowClosed (window : ElementId)
  | launchProgram (path : String)
  deriving DecidableEq, Repr

def awmDockServiceName : String := "com.axle.awm_dock"

def awmMenuBarServiceName : String := "com.axle.awm_menu_bar"

def fileServerServiceName : String := "com.axle.file_server"

def awmDockHeight : ℤ := 32

def awmMenuBarHeight : ℤ := 28

structure Desktop where
  desktopSize : Size
  /-- What the elements hold: their frames and their drawable rectangles, ... -/
  frame : ElementId → Rect
  drawableRects : ElementId → List Rect
  zIndexCategory : ElementId → ZIndexCategory
  /-- ... and what only a window or only a shortcut has. -/
  window : ElementId → Window
  shortcut : ElementId → DesktopShortcut
  /-- The foremost first. -/
  windows : List ElementId
  mouseState : MouseState
  mouseInteractionState : MouseInteractionState
  pressedModifiers : List KeyboardModifier
  compositorState : CompositorState
  renderStrategy : RenderStrategy
  nextDesktopElementId : ElementId
  windowsToRenderRemoteLayersThisCycle : List ElementId
  ongoingAnimations : List Animation
  windowImages : WindowDecorationImages
  slots : List DesktopShortcutGridSlot
  shortcuts : List ElementId
  /-- Every message sent so far, with the service it went to. -/
  sent : List (String × Sent)

namespace Desktop

def desktopFrame (d : Desktop) : Rect := Rect.withSize d.desktopSize

/-! ### Small updates -/

def send (d : Desktop) (destination : String) (message : Sent) : Desktop :=
  { d with sent := d.sent ++ [(destination, message)] }

/-- To the service that owns a window. -/
def sendToOwner (d : Desktop) (w : ElementId) (message : Sent) : Desktop :=
  d.send (d.window w).ownerService message

def setFrame (d : Desktop) (e : ElementId) (frame : Rect) : Desktop :=
  { d with frame := Function.update d.frame e frame }

def setDrawableRects (d : Desktop) (e : ElementId) (rects : List Rect) : Desktop :=
  { d with drawableRects := Function.update d.drawableRects e rects }

def modifyWindow (d : Desktop) (w : ElementId) (f : Window → Window) : Desktop :=
  { d with window := Function.update d.window w (f (d.window w)) }

def modifyShortcut (d : Desktop) (s : ElementId) (f : DesktopShortcut → DesktopShortcut) :
    Desktop :=
  { d with shortcut := Function.update d.shortcut s (f (d.shortcut s)) }

def modifyCompositor (d : Desktop) (f : CompositorState → CompositorState) : Desktop :=
  { d with compositorState := f d.compositorState }

/-! ### The compositor's queues -/

def queueFullRedraw (d : Desktop) (inRect : Rect) : Desktop :=
  let rect := d.desktopFrame.constrain inRect
  if rect.isDegenerate then d
  else d.modifyCompositor fun c => { c with rectsToFullyRedraw := c.rectsToFullyRedraw ++ [rect] }

def queueComposite (d : Desktop) (e : ElementId) : Desktop :=
  d.modifyCompositor fun c =>
    { c with elementsToComposite := btreeInsert (· < ·) e c.elementsToComposite }

def trackElement (d : Desktop) (e : ElementId) : Desktop :=
  d.modifyCompositor fun c =>
    { c with
      elements := c.elements ++ [e]
      elementsById := btreeInsert (· < ·) e c.elementsById }

def queueExtraDraw (d : Desktop) (e : ElementId) (r : Rect) : Desktop :=
  let rect := d.desktopFrame.constrain r
  if rect.isDegenerate then d
  else d.modifyCompositor fun c => { c with extraDraws := c.extraDraws.insertRect e rect }

def queueExtraBackgroundDraw (d : Desktop) (r : Rect) : Desktop :=
  let rect := d.desktopFrame.constrain r
  if rect.isDegenerate then d
  else d.modifyCompositor fun c =>
    { c with extraBackgroundDraws := c.extraBackgroundDraws ++ [rect] }

/-! ### Drawable regions -/

/-- Floating windows first, then the windows in their own order, then everything else. -/
def zSorted (d : Desktop) : List ElementId :=
  d.compositorState.elements.filter (fun e => d.zIndexCategory e = .floatingWindow) ++
    (d.windows.filter (fun w => d.zIndexCategory w = .window) ++
      d.compositorState.elements.filter (fun e => d.zIndexCategory e = .desktopView))

/-- One element: its new drawable rectangles, and a place in the queue if it has any. -/
def recomputeElement (d : Desktop) (occluding : List ElementId) (e : ElementId) : Desktop :=
  let rects := drawableRectsFor d.desktopSize (d.frame e) (occluding.map d.frame)
  let d := d.setDrawableRects e rects
  if rects.length > 0 then d.queueComposite e else d

/-- The loop over the sorted elements, from the furthest back to the foremost. -/
def recomputeLoop (rect : Rect) : List ElementId → List ElementId → Desktop → Desktop
  | _, [], d => d
  | occluding, e :: back, d =>
    let d := recomputeLoop rect (occluding ++ [e]) back d
    if rect.intersectsWith (d.frame e) then d.recomputeElement occluding e else d

def recomputeDrawableRegionsInRect (d : Desktop) (rect : Rect) : Desktop :=
  recomputeLoop rect [] d.zSorted d

/-! ### Parts of a window -/

/-- The content view, in the window's own coordinates. -/
def contentFrame (d : Desktop) (w : ElementId) : Rect :=
  Rect.new 0 (d.window w).params.titleBarHeight (d.frame w).width
    ((d.frame w).height - (d.window w).params.titleBarHeight)

def isPointWithinResizeInset (d : Desktop) (w : ElementId) (localPoint : Point) : Bool :=
  if !(d.window w).params.isResizable then false
  else !((d.contentFrame w).insetUniform 8).contains localPoint

/-- The title bar, at the window's origin. -/
def titleBarFrame (d : Desktop) (w : ElementId) : Rect :=
  Rect.withSize ⟨(d.frame w).width, (d.window w).params.titleBarHeight⟩

/-- The source multiplies the height as an `f64` and casts back. -/
def closeButtonFrame (d : Desktop) : Rect :=
  ⟨⟨(d.windowImages.closeButton.height * 5).tdiv 4, 5⟩, d.windowImages.closeButton⟩

def minimizeButtonFrame (d : Desktop) : Rect :=
  ⟨⟨(d.windowImages.minimizeButton.height * 11).tdiv 4, 5⟩, d.windowImages.minimizeButton⟩

def isPointWithinTitleBar (d : Desktop) (w : ElementId) (localPoint : Point) : Bool :=
  if !(d.window w).params.hasTitleBar then false
  else (d.titleBarFrame w).contains localPoint

def isPointWithinCloseButton (d : Desktop) (w : ElementId) (localPoint : Point) : Bool :=
  if !(d.window w).params.hasTitleBar then false
  else d.closeButtonFrame.contains localPoint

def isPointWithinMinimizeButton (d : Desktop) (w : ElementId) (localPoint : Point) : Bool :=
  if !(d.window w).params.hasTitleBar then false
  else d.minimizeButtonFrame.contains localPoint

/-- `redraw_title_bar` returns the rectangle it has drawn, on the screen. -/
def titleBarFrameOnScreen (d : Desktop) (w : ElementId) : Rect :=
  if !(d.window w).params.hasTitleBar then Rect.withOrigin (d.frame w).origin
  else (d.titleBarFrame w).replaceOrigin (d.frame w).origin

/-- A point of the screen, in the coordinates of a window's content view. -/
def pointWithinContentView (d : Desktop) (w : ElementId) (p : Point) : Point :=
  (d.contentFrame w).translatePoint ((d.frame w).translatePoint p)

/-! ### What is under the mouse -/

def windowContainingPoint (d : Desktop) (p : Point) : Option ElementId :=
  d.windows.find? fun w => (d.frame w).contains p

def desktopElementInCategoryContainingPoint (d : Desktop) (p : Point)
    (category : ZIndexCategory) : Option ElementId :=
  d.compositorState.elements.find? fun e =>
    d.zIndexCategory e = category && (d.frame e).contains p

def shortcutContainingPoint (d : Desktop) (p : Point) : Option ElementId :=
  d.shortcuts.find? fun s => (d.frame s).contains p

/-- The windows that are sorted by their place in `windows`: not the dock, for example. -/
def windowsInZHierarchy (d : Desktop) : List ElementId :=
  d.windows.filter fun w => d.zIndexCategory w = .window

def bottomWindow (d : Desktop) : Option ElementId := d.windowsInZHierarchy.getLast?

def topWindow (d : Desktop) : Option ElementId := d.windowsInZHierarchy.head?

def isTopmostWindow (d : Desktop) (w : ElementId) : Bool := d.topWindow = some w

def canTransitionToWindowDrag (d : Desktop) (w : ElementId) : Bool :=
  d.mouseInteractionState = .hintingWindowDrag w && d.mouseState.leftClickDown

def canTransitionToWindowResize (d : Desktop) (w : ElementId) : Bool :=
  d.mouseInteractionState = .hintingWindowResize w && d.mouseState.leftClickDown

def canTransitionToShortcutDrag (d : Desktop) (s : ElementId) : Bool :=
  d.mouseInteractionState = .shortcutHover s && d.mouseState.leftClickDown

/-- The state for a mouse over the window `w`. -/
def interactionStateOverWindow (d : Desktop) (allowTransitionFromHintToPerform : Bool)
    (w : ElementId) : MouseInteractionState :=
  let mouseWithinWindow := (d.frame w).translatePoint d.mouseState.pos
  if d.isPointWithinTitleBar w mouseWithinWindow then
    if allowTransitionFromHintToPerform && d.canTransitionToWindowDrag w then
      .performingWindowDrag w
    else .hintingWindowDrag w
  else if d.isPointWithinResizeInset w mouseWithinWindow then
    if allowTransitionFromHintToPerform && d.canTransitionToWindowResize w then
      .performingWindowResize w
    else .hintingWindowResize w
  else if d.mouseState.leftClickDown then .mouseDragWithinWindow w
  else .windowHover w

def mouseInteractionStateForMouseState (d : Desktop) (allowTransitionFromHintToPerform : Bool) :
    MouseInteractionState :=
  -- stay in drag states while the left click is ongoing
  if d.mouseInteractionState.isDrag && d.mouseState.leftClickDown then d.mouseInteractionState
  else
    match d.windowContainingPoint d.mouseState.pos with
    | some w => d.interactionStateOverWindow allowTransitionFromHintToPerform w
    | none =>
      match d.shortcutContainingPoint d.mouseState.pos with
      | some s => if d.canTransitionToShortcutDrag s then .shortcutDrag s else .shortcutHover s
      | none => .backgroundHover

/-! ### The transitions of the mouse -/

def transitionToTitleBarHoverStateForWindow (d : Desktop) (w : ElementId)
    (newState : TitleBarButtonsHoverState) : Desktop :=
  let shouldRedrawTitleBar := newState ≠ (d.window w).titleBarButtonsHoverState
  let d := d.modifyWindow w fun window => { window with titleBarButtonsHoverState := newState }
  if shouldRedrawTitleBar then d.queueFullRedraw (d.titleBarFrameOnScreen w) else d

def titleBarHoverStateForWindow (d : Desktop) (w : ElementId) : TitleBarButtonsHoverState :=
  let mouseWithinWindow := (d.frame w).translatePoint d.mouseState.pos
  if d.isPointWithinCloseButton w mouseWithinWindow then .hoverClose
  else if d.isPointWithinMinimizeButton w mouseWithinWindow then .hoverMinimize
  else if d.isPointWithinTitleBar w mouseWithinWindow then .hoverBackground
  else .unhovered

def transitionTitleBarHoverStateForWindow (d : Desktop) (w : ElementId) : Desktop :=
  d.transitionToTitleBarHoverStateForWindow w (d.titleBarHoverStateForWindow w)

/-- A shortcut redraws itself and asks for a redraw. -/
def redrawShortcut (d : Desktop) (s : ElementId) (f : DesktopShortcut → DesktopShortcut) :
    Desktop :=
  let d := d.modifyShortcut s f
  d.recomputeDrawableRegionsInRect (d.frame s)

def shortcutMouseEntered (d : Desktop) (s : ElementId) : Desktop :=
  d.redrawShortcut s fun shortcut => { shortcut with interactionState := .hover }

def shortcutMouseExited (d : Desktop) (s : ElementId) : Desktop :=
  d.redrawShortcut s fun shortcut =>
    { shortcut with interactionState := .unhovered, firstClickStartTime := none }

/-- Out of a window or a shortcut. -/
def informExited (d : Desktop) (newState : MouseInteractionState) : Desktop :=
  match d.mouseInteractionState with
  | .backgroundHover => d
  | .windowHover w | .hintingWindowDrag w | .hintingWindowResize w | .performingWindowDrag w
  | .performingWindowResize w | .mouseDragWithinWindow w =>
    if newState.window? ≠ some w then
      (d.transitionToTitleBarHoverStateForWindow w .unhovered).sendToOwner w .mouseExited
    else d
  | .shortcutHover s => if newState.shortcut? ≠ some s then d.shortcutMouseExited s else d
  | .shortcutDrag _ => d

/-- If we're transitioning into the title bar, send a mouse exited event. -/
def informEnteredTitleBar (d : Desktop) (newState : MouseInteractionState) : Desktop :=
  if d.mouseInteractionState.entersOwnTitleBar newState then
    match newState.window? with
    | some w => d.sendToOwner w .mouseExited
    | none => d
  else d

/-- Into a window. -/
def informEnteredWindow (d : Desktop) (newState : MouseInteractionState) : Desktop :=
  match newState.window? with
  | some w =>
    if d.mouseInteractionState.window? ≠ some w then d.sendToOwner w .mouseEntered else d
  | none => d

/-- Into a shortcut. -/
def informEnteredShortcut (d : Desktop) (newState : MouseInteractionState) : Desktop :=
  match newState.shortcut? with
  | some s =>
    if d.mouseInteractionState.shortcut? ≠ some s then d.shortcutMouseEntered s else d
  | none => d

def transitionToMouseInteractionState (d : Desktop) (newState : MouseInteractionState) : Desktop :=
  if d.mouseInteractionState = newState then d
  else
    let d := d.informExited newState
    let d := d.informEnteredTitleBar newState
    let d := d.informEnteredWindow newState
    let d := d.informEnteredShortcut newState
    { d with mouseInteractionState := newState }

/-! ### The place of a frame -/

/-- Keep a frame on the screen: move it back, or shorten it if there is no room to move it. -/
def bindRect (minY maxX maxY : ℤ) (r : Rect) : Rect :=
  let x := max r.origin.x 0
  let y := max r.origin.y minY
  let overhangX := x + r.size.width - maxX
  let overhangY := y + r.size.height - maxY
  let (x, width) :=
    if overhangX > 0 then
      if x ≥ overhangX then (x - overhangX, r.size.width) else (x, r.size.width - overhangX)
    else (x, r.size.width)
  let (y, height) :=
    if overhangY > 0 then
      if y ≥ overhangY then (y - overhangY, r.size.height) else (y, r.size.height - overhangY)
    else (y, r.size.height)
  Rect.new x y width height

def bindRectToScreenSize (d : Desktop) (r : Rect) : Rect :=
  bindRect 0 d.desktopSize.width d.desktopSize.height r

/-- Between the menu bar and the dock. -/
def bindRectToWindowsRegion (d : Desktop) (r : Rect) : Rect :=
  bindRect awmMenuBarHeight d.desktopSize.width (d.desktopSize.height - awmDockHeight) r

def queueCompositorUpdatesForOldAndNewElementFrame (d : Desktop)
    (oldElemFrame newElemFrame : Rect) : Desktop :=
  let updateRect := oldElemFrame.union newElemFrame
  let d := d.recomputeDrawableRegionsInRect updateRect
  if newElemFrame.intersectsWith oldElemFrame then
    (oldElemFrame.areaExcludingRect newElemFrame).foldl queueFullRedraw d
  else d.queueFullRedraw updateRect

def moveWindowToTop (d : Desktop) (w : ElementId) : Option Desktop :=
  -- `position(..).unwrap()`
  if w ∈ d.windows then
    let d := { d with windows := w :: d.windows.erase w }
    some (d.recomputeDrawableRegionsInRect (d.frame w))
  else none

/-! ### The scene of a desktop -/

/-- The desktop as far as visibility is concerned. -/
def scene (d : Desktop) : Scene ElementId :=
  ⟨d.desktopSize, d.zSorted, d.frame, d.drawableRects⟩

theorem mem_btreeInsert {a x : ElementId} {l : List ElementId} :
    x ∈ btreeInsert (· < ·) a l ↔ x = a ∨ x ∈ l := by
  induction l with
  | nil => simp [btreeInsert]
  | cons b l ih =>
    by_cases hab : a < b
    · simp [btreeInsert, hab]
    · by_cases hba : b < a
      · simp only [btreeInsert, hab, hba, decide_true, decide_false, if_true, if_false,
          List.mem_cons, ih, Bool.false_eq_true]
        tauto
      · have heq : a = b := le_antisymm (not_lt.mp hba) (not_lt.mp hab)
        simp [btreeInsert, heq]

/-- **The loop changes the drawable rectangles and the queue, and nothing else (proved).** -/
theorem recomputeLoop_eq (rect : Rect) (back : List ElementId) :
    ∀ (occluding : List ElementId) (d : Desktop), ∃ rects queue,
      recomputeLoop rect occluding back d =
        { d with
          drawableRects := rects
          compositorState := { d.compositorState with elementsToComposite := queue } } ∧
      (∀ x ∈ queue, x ∈ d.compositorState.elementsToComposite ∨ x ∈ back) ∧
      (back.Nodup → ∀ x, rects x =
        if x ∈ back ∧ rect.intersectsWith (d.frame x) = true then
          drawableRectsFor d.desktopSize (d.frame x)
            ((occluding ++ back.takeWhile (· ≠ x)).map d.frame)
        else d.drawableRects x) := by
  induction back with
  | nil =>
    intro occluding d
    exact ⟨d.drawableRects, d.compositorState.elementsToComposite, rfl,
      fun x hx => Or.inl hx, fun _ x => by simp⟩
  | cons e back ih =>
    intro occluding d
    obtain ⟨rects, queue, heq, hqueue, hrects⟩ := ih (occluding ++ [e]) d
    have htail : ∀ x, x ≠ e → occluding ++ (e :: back).takeWhile (· ≠ x) =
        occluding ++ [e] ++ back.takeWhile (· ≠ x) := by
      intro x hne
      rw [List.takeWhile_cons_of_pos (by simpa using hne.symm), List.append_assoc]
      rfl
    have hhead : occluding ++ (e :: back).takeWhile (· ≠ e) = occluding := by
      rw [List.takeWhile_cons_of_neg (by simp), List.append_nil]
    have hqueue' : ∀ x ∈ queue,
        x ∈ d.compositorState.elementsToComposite ∨ x ∈ e :: back :=
      fun x hx => (hqueue x hx).imp_right (List.mem_cons_of_mem _)
    simp only [recomputeLoop, heq]
    by_cases hmeet : rect.intersectsWith (d.frame e) = true
    · rw [if_pos hmeet]
      have hrects' : (e :: back).Nodup → ∀ x,
          Function.update rects e
            (drawableRectsFor d.desktopSize (d.frame e) (occluding.map d.frame)) x =
          if x ∈ e :: back ∧ rect.intersectsWith (d.frame x) = true then
            drawableRectsFor d.desktopSize (d.frame x)
              ((occluding ++ (e :: back).takeWhile (· ≠ x)).map d.frame)
          else d.drawableRects x := by
        intro hnodup x
        obtain ⟨hnot, hback⟩ := List.nodup_cons.mp hnodup
        by_cases hxe : x = e
        · subst hxe
          rw [Function.update_self, if_pos ⟨List.mem_cons_self, hmeet⟩, hhead]
        · rw [Function.update_of_ne hxe, hrects hback x, htail x hxe]
          simp only [List.mem_cons, hxe, false_or]
      unfold recomputeElement
      dsimp only [setDrawableRects]
      split
      · refine ⟨_, btreeInsert (· < ·) e queue, rfl, ?_, hrects'⟩
        intro x hx
        rcases mem_btreeInsert.mp hx with rfl | hx
        · exact Or.inr List.mem_cons_self
        · exact hqueue' x hx
      · exact ⟨_, queue, rfl, hqueue', hrects'⟩
    · rw [if_neg hmeet]
      refine ⟨rects, queue, rfl, hqueue', ?_⟩
      intro hnodup x
      obtain ⟨hnot, hback⟩ := List.nodup_cons.mp hnodup
      rw [hrects hback x]
      by_cases hxe : x = e
      · subst hxe
        rw [if_neg (fun h => hnot h.1), if_neg (fun h => hmeet h.2)]
      · rw [htail x hxe]
        simp only [List.mem_cons, hxe, false_or]

theorem recompute_eq (d : Desktop) (rect : Rect) : ∃ rects queue,
    d.recomputeDrawableRegionsInRect rect =
      { d with
        drawableRects := rects
        compositorState := { d.compositorState with elementsToComposite := queue } } ∧
    (∀ x ∈ queue, x ∈ d.compositorState.elementsToComposite ∨ x ∈ d.zSorted) := by
  obtain ⟨rects, queue, heq, hqueue, -⟩ := recomputeLoop_eq rect d.zSorted [] d
  exact ⟨rects, queue, heq, hqueue⟩

/-- **The loop recomputes the scene (proved).** -/
theorem recompute_scene (d : Desktop) (rect : Rect) (hnodup : d.zSorted.Nodup) :
    (d.recomputeDrawableRegionsInRect rect).scene = d.scene.recompute rect := by
  obtain ⟨rects, queue, heq, -, hrects⟩ := recomputeLoop_eq rect d.zSorted [] d
  rw [recomputeDrawableRegionsInRect, heq]
  show (⟨d.desktopSize, d.zSorted, d.frame, rects⟩ : Scene ElementId) = _
  rw [funext (hrects hnodup)]
  rfl

end Desktop

end Axle.Awm
