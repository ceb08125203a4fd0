import Axle.Awm.Desktop
import Axle.Lib.StepRun

/-!
# The handlers and the main loop of the window manager

The public functions of `awm2`'s `Desktop` and the loop of `main_axle.rs` around them: step the
animations, handle the messages that have arrived, draw a frame.

A failed `expect` or `unwrap`, and a `panic!`, is `none`.  Every handler gets the time it reads
from the clock.  The frames of an animation are computed in `f64`; the interpolation between two
integers is the parameter `lerp a b elapsed duration`, which no proof looks into.

* `Desktop.boot` — the desktop after `Desktop::new` and `load_shortcuts`;
* `Desktop.handleMousePacket`, `Desktop.handleMessage` — the messages;
* `Desktop.stepAnimations`, `Desktop.dropWindow` — the animations, and the end of a window;
* `Desktop.drawFrame` — what a draw does to the queues, with its lookups;
* `awmNext` / `InLoopOrder` — one event of the main loop, and the order of the events.
-/

namespace Axle.Awm

open Axle.Agx Axle.Lib.StepRun

/-- `lerp a b elapsed duration`: from `a` to `b` by the part `elapsed / duration`, at most 1. -/
abbrev Lerp := ℤ → ℤ → ℕ → ℕ → ℤ

/-- The interpolation without rounding errors, cut off as a cast from `f64` does. -/
def linearLerp : Lerp := fun a b elapsed duration =>
  (a * duration + min elapsed duration * (b - a)).tdiv duration

def interpolateFrame (lerp : Lerp) (frameFrom frameTo : Rect) (elapsed duration : ℕ) : Rect :=
  Rect.new (lerp frameFrom.minX frameTo.minX elapsed duration)
    (lerp frameFrom.minY frameTo.minY elapsed duration)
    (lerp frameFrom.width frameTo.width elapsed duration)
    (lerp frameFrom.height frameTo.height elapsed duration)

structure MousePacket where
  status : BitVec 8
  relX : ℤ
  relY : ℤ
  relZ : ℤ
  deriving DecidableEq, Repr

inductive KeyEventType where
  | pressed
  | released
  deriving DecidableEq, Repr

structure KeyboardPacket where
  key : ℕ
  eventType : KeyEventType
  deriving DecidableEq, Repr

/-- The messages of a client of the window manager. -/
inductive ClientMessage where
  | createWindow (width height : ℕ)
  | windowRedrawReady
  | windowPartialRedraw (rectCount : ℕ)
  | windowUpdateTitle (title : String)
  | closeWindow
  | other (event : ℕ)
  deriving DecidableEq, Repr

inductive Message where
  | mouse (packet : MousePacket)
  | keyboard (packet : KeyboardPacket)
  | desktopTraitsRequest
  | preferencesUpdated
  | dockTaskViewHovered
  | dockTaskViewHoverExited
  | dockTaskViewClicked (window : ElementId)
  | dockWindowMinimizeWithInfo (window : ElementId) (taskViewFrame : Rect)
  | serviceDied (service : String)
  | client (source : String) (message : ClientMessage)
  deriving DecidableEq, Repr

/-- A line of the file with the desktop shortcuts. -/
structure ShortcutLine where
  path : String
  title : String
  coordinates : Option (ℤ × ℤ)
  deriving DecidableEq, Repr

namespace Desktop

/-! ### The mouse -/

/-- The new state of the mouse and what has changed, in the order it is handled. -/
def computeStateChanges (d : Desktop) (newPos : Point) (deltaZ : ℤ) (status : BitVec 8) :
    MouseState × List MouseStateChange :=
  let mouse := d.mouseState
  let scrolled := if deltaZ ≠ 0 then [MouseStateChange.scrolled deltaZ] else []
  let pos : Point := ⟨min (max newPos.x 0) (d.desktopSize.width - 4),
    min (max newPos.y 0) (d.desktopSize.height - 10)⟩
  let delta := newPos - mouse.pos
  let moved := if delta.x ≠ 0 ∨ delta.y ≠ 0 then [MouseStateChange.moved pos delta] else []
  let isLeftClickDown := status.getLsbD 0
  let click :=
    if isLeftClickDown then if !mouse.leftClickDown then [MouseStateChange.leftClickBegan] else []
    else if mouse.leftClickDown then [MouseStateChange.leftClickEnded] else []
  (⟨pos, isLeftClickDown⟩, scrolled ++ moved ++ click)

def mouseFrame (d : Desktop) : Rect := ⟨d.mouseState.pos, ⟨14, 14⟩⟩

/-- A left click on a shortcut: the second one within half a second starts the program. -/
def shortcutLeftClickBegan (d : Desktop) (now : ℕ) (s : ElementId) : Desktop :=
  match (d.shortcut s).firstClickStartTime with
  | none =>
    d.redrawShortcut s fun shortcut =>
      { shortcut with interactionState := .leftClickDown, firstClickStartTime := some now }
  | some first =>
    let d :=
      if now - first ≤ 500 then
        d.send fileServerServiceName (.launchProgram (d.shortcut s).path)
      else d
    d.redrawShortcut s fun shortcut =>
      { shortcut with interactionState := .leftClickDown, firstClickStartTime := none }

def shortcutLeftClickEnded (d : Desktop) (now : ℕ) (s : ElementId) : Desktop :=
  d.redrawShortcut s fun shortcut => { shortcut with interactionState := .leftClickUp now }

/-- What a click does in the window it hits, by what the mouse hovers over in its title bar. -/
def clickWindow (d : Desktop) (w : ElementId) : Desktop :=
  match (d.window w).titleBarButtonsHoverState with
  | .hoverClose => d.sendToOwner w .closeWindow
  | .hoverMinimize => d.send awmDockServiceName (.dockWindowMinimizeRequested w)
  | _ =>
    if ((d.contentFrame w).addOrigin (d.frame w).origin).contains d.mouseState.pos then
      d.sendToOwner w (.mouseLeftClickStarted (d.pointWithinContentView w d.mouseState.pos))
    else d

def handleLeftClickBegan (d : Desktop) (now : ℕ) : Option Desktop :=
  let d := d.transitionToMouseInteractionState (d.mouseInteractionStateForMouseState true)
  match d.windowContainingPoint d.mouseState.pos with
  | some w =>
    (if d.isTopmostWindow w then some d else d.moveWindowToTop w).map fun d => d.clickWindow w
  | none =>
    match d.desktopElementInCategoryContainingPoint d.mouseState.pos .desktopView with
    | some e => some (d.shortcutLeftClickBegan now e)
    | none => some d

/-! ### Animations -/

def startAnimation (d : Desktop) (anim : Animation) : Desktop :=
  let p := anim.params
  let d := d.setFrame p.element p.frameFrom
  let d :=
    match anim with
    | .windowMinimize _ =>
      d.modifyWindow p.element fun window => { window with unminimizedFrame := some p.frameFrom }
    | _ => d
  { d with ongoingAnimations := d.ongoingAnimations ++ [anim] }

def animationParams (now duration : ℕ) (e : ElementId) (frameFrom frameTo : Rect) :
    AnimationParams :=
  ⟨now, now + duration, e, duration, frameFrom, frameTo⟩

/-- A tenth of the desktop, in the middle of its bottom edge: where windows come from and go to. -/
def smallFrameAtBottom (desktopSize : Size) : Rect :=
  let width := desktopSize.width.tdiv 10
  let height := desktopSize.height.tdiv 10
  Rect.new ((desktopSize.width - width).tdiv 2) (desktopSize.height - height) width height

/-! ### The grid of shortcuts -/

def shortcutSize : Size := ⟨100, 76⟩

def gridSlotSize : Size := shortcutSize + ⟨8, 12⟩

def shortcutOriginForSlotFrame (slotFrame : Rect) : Point :=
  ⟨slotFrame.midX - shortcutSize.width.tdiv 2, slotFrame.midY - shortcutSize.height.tdiv 2⟩

/-- The later one of two slots with the same overlap, as `max_by` has it. -/
def nearestOf (shortcutFrame : Rect) :
    DesktopShortcutGridSlot → List DesktopShortcutGridSlot → Option DesktopShortcutGridSlot
  | best, [] => some best
  | best, slot :: rest =>
    match best.frame.areaOverlappingWith shortcutFrame,
        slot.frame.areaOverlappingWith shortcutFrame with
    | some o1, some o2 => nearestOf shortcutFrame (if o1.area > o2.area then best else slot) rest
    | _, _ => none

/-- The slot a shortcut moves to, with the new slots; its own one if no free slot is near. -/
def transferShortcutToNearestSlot (d : Desktop) (s : ElementId) : Option (Rect × Desktop) :=
  match d.slots.find? (fun slot => slot.occupant = some s) with
  | none => none
  | some previous =>
    let setOccupant (c : ℤ × ℤ) (occupant : Option ElementId) :=
      List.map fun slot : DesktopShortcutGridSlot =>
        if slot.coordinates = c then { slot with occupant := occupant } else slot
    let slots := setOccupant previous.coordinates none d.slots
    let near := slots.filter fun slot =>
      slot.occupant = none && slot.frame.intersectsWith (d.frame s)
    let nearest :=
      match near with
      | [] => some previous
      | slot :: rest => nearestOf (d.frame s) slot rest
    nearest.map fun nearest =>
      (nearest.frame, { d with slots := setOccupant nearest.coordinates (some s) slots })

/-! ### The end of a click, and movement -/

/-- The state the end of a left click leads to, where it leads to another one. -/
def interactionStateAfterLeftClick (d : Desktop) : Option MouseInteractionState :=
  match d.mouseInteractionState with
  | .performingWindowDrag w => some (.hintingWindowDrag w)
  | .performingWindowResize w => some (.hintingWindowResize w)
  | .mouseDragWithinWindow _ => some (d.mouseInteractionStateForMouseState false)
  | .shortcutDrag s => some (.shortcutHover s)
  | _ => none

/-- The shortcut snaps to a slot. -/
def snapShortcut (d : Desktop) (now : ℕ) (s : ElementId) : Option Desktop :=
  (d.transferShortcutToNearestSlot s).map fun slot =>
    let frameTo := (d.frame s).replaceOrigin (shortcutOriginForSlotFrame slot.1)
    slot.2.startAnimation
      (.shortcutSnap (animationParams now 100 s (d.frame s) frameTo))

def informLeftClickEnded (d : Desktop) (now : ℕ) : Option Desktop :=
  match d.mouseInteractionState with
  | .windowHover w | .mouseDragWithinWindow w =>
    some (d.sendToOwner w (.mouseLeftClickEnded (d.pointWithinContentView w d.mouseState.pos)))
  | .shortcutHover s => some (d.shortcutLeftClickEnded now s)
  | .shortcutDrag s => (d.shortcutLeftClickEnded now s).snapShortcut now s
  | _ => some d

def handleLeftClickEnded (d : Desktop) (now : ℕ) : Option Desktop :=
  let maybeNewInteractionState := d.interactionStateAfterLeftClick
  (d.informLeftClickEnded now).map fun d =>
    match maybeNewInteractionState with
    | some newInteractionState => d.transitionToMouseInteractionState newInteractionState
    | none => d

/-- A new frame for an element, and the updates for the old and the new one. -/
def changeFrame (d : Desktop) (e : ElementId) (newFrame : Rect) : Desktop :=
  (d.setFrame e newFrame).queueCompositorUpdatesForOldAndNewElementFrame (d.frame e) newFrame

def dragWindow (d : Desktop) (w : ElementId) (relShift : Point) : Desktop :=
  d.changeFrame w
    (d.bindRectToWindowsRegion ((d.frame w).replaceOrigin ((d.frame w).origin + relShift)))

/-- The frame a window gets when its corner is dragged. -/
def resizedFrame (d : Desktop) (w : ElementId) (relShift : Point) : Rect :=
  let frame := d.bindRectToWindowsRegion
    ((d.frame w).replaceSize ((d.frame w).size + ⟨relShift.x, relShift.y⟩))
  -- don't let the window get too small
  frame.replaceSize ⟨max frame.size.width 200, max frame.size.height 200⟩

def resizeWindow (d : Desktop) (w : ElementId) (relShift : Point) : Desktop :=
  let oldFrame := d.frame w
  let newFrame := d.resizedFrame w relShift
  let d := d.setFrame w newFrame
  let d := d.sendToOwner w (.windowResized (d.contentFrame w).size)
  d.queueCompositorUpdatesForOldAndNewElementFrame oldFrame newFrame

/-- After a movement, by the state it has led to. -/
def informMouseMoved (d : Desktop) (relShift : Point) : Desktop :=
  match d.mouseInteractionState with
  | .windowHover w =>
    let d := d.transitionTitleBarHoverStateForWindow w
    d.sendToOwner w (.mouseMoved (d.pointWithinContentView w d.mouseState.pos))
  | .hintingWindowDrag w => d.transitionTitleBarHoverStateForWindow w
  -- a shortcut does not redraw itself when the mouse moves over it
  | .shortcutHover _ => d
  | .shortcutDrag s =>
    d.changeFrame s
      (d.bindRectToScreenSize ((d.frame s).replaceOrigin ((d.frame s).origin + relShift)))
  | _ => d

def handleMouseMoved (d : Desktop) (relShift : Point) : Desktop :=
  match d.mouseInteractionState with
  | .performingWindowDrag w => d.dragWindow w relShift
  | .mouseDragWithinWindow w =>
    d.sendToOwner w (.mouseDragged (d.pointWithinContentView w d.mouseState.pos))
  | .performingWindowResize w => d.resizeWindow w relShift
  | _ =>
    (d.transitionToMouseInteractionState
      (d.mouseInteractionStateForMouseState false)).informMouseMoved relShift

def handleMouseScrolled (d : Desktop) (deltaZ : ℤ) : Desktop :=
  match d.mouseInteractionState with
  | .windowHover w =>
    d.sendToOwner w (.mouseScrolled (d.pointWithinContentView w d.mouseState.pos) deltaZ)
  | _ => d

def handleMouseStateChange (now : ℕ) (d : Desktop) : MouseStateChange → Option Desktop
  | .leftClickBegan => d.handleLeftClickBegan now
  | .leftClickEnded => d.handleLeftClickEnded now
  | .moved _ relShift => some (d.handleMouseMoved relShift)
  | .scrolled deltaZ => some (d.handleMouseScrolled deltaZ)

/-- A packet up to the loop over the changes: the mouse has its new state and is queued. -/
def mousePacketStart (d : Desktop) (packet : MousePacket) : Desktop × List MouseStateChange :=
  let oldMouseFrame := d.mouseFrame
  let (mouse, changes) :=
    d.computeStateChanges (d.mouseState.pos + ⟨packet.relX, packet.relY⟩) packet.relZ packet.status
  let d := { d with mouseState := mouse }
  (d.queueFullRedraw (d.bindRectToScreenSize (oldMouseFrame.union d.mouseFrame)), changes)

def handleMousePacket (d : Desktop) (now : ℕ) (packet : MousePacket) : Option Desktop :=
  run (handleMouseStateChange now) (d.mousePacketStart packet).1 (d.mousePacketStart packet).2

/-! ### The keyboard -/

def modifierOfKey (key : ℕ) : Option KeyboardModifier :=
  if key = 0x995 ∨ key = 0x994 then some .shift
  else if key = 0x992 then some .control
  else if key = 0x991 then some .command
  else if key = 0x990 then some .option
  else none

def updateModifiers (d : Desktop) (packet : KeyboardPacket) : Desktop :=
  match modifierOfKey packet.key with
  | none => d
  | some modifier =>
    match packet.eventType with
    | .pressed => { d with pressedModifiers := d.pressedModifiers.insert modifier }
    | .released => { d with pressedModifiers := d.pressedModifiers.filter (· ≠ modifier) }

/-- Ctrl+Tab rotates the windows, Ctrl+W asks the topmost one to close, Ctrl+A panics. -/
def handleChord (d : Desktop) (packet : KeyboardPacket) : Option Desktop :=
  if packet.eventType = .pressed ∧ KeyboardModifier.control ∈ d.pressedModifiers then
    if packet.key = '\t'.toNat then
      match d.bottomWindow with
      | some w => d.moveWindowToTop w
      | none => some d
    else if packet.key = 'w'.toNat then
      match d.topWindow with
      | some w => some (d.sendToOwner w .closeWindow)
      | none => some d
    else if packet.key = 'a'.toNat then none
    else some d
  else some d

def handleKeyboardEvent (d : Desktop) (packet : KeyboardPacket) : Option Desktop :=
  ((d.updateModifiers packet).handleChord packet).map fun d =>
    match d.topWindow with
    | some w =>
      match packet.eventType with
      | .pressed => d.sendToOwner w (.keyDown packet.key)
      | .released => d.sendToOwner w (.keyUp packet.key)
    | none => d

/-! ### Windows -/

/-- The new object: no drawable rectangles, no title, not minimized. -/
def addElement (d : Desktop) (frame : Rect) (category : ZIndexCategory) : Desktop :=
  let id := d.nextDesktopElementId
  { d with
    frame := Function.update d.frame id frame
    drawableRects := Function.update d.drawableRects id []
    zIndexCategory := Function.update d.zIndexCategory id category
    nextDesktopElementId := id + 1 }

def windowParamsFor (source : String) : WindowParams :=
  if source = awmDockServiceName then WindowParams.floating
  else if source = awmMenuBarServiceName then WindowParams.floating
  else WindowParams.default

/-- The frame of a new window; in the middle of the screen unless it is told where to go. -/
def newWindowFrame (d : Desktop) (source : String) (contentSize : Size) (origin : Option Point) :
    Rect :=
  let size : Size :=
    ⟨contentSize.width, contentSize.height + (windowParamsFor source).titleBarHeight⟩
  let centered : Point := ⟨d.desktopSize.width.tdiv 2 - size.width.tdiv 2,
    d.desktopSize.height.tdiv 2 - size.height.tdiv 2⟩
  ⟨origin.getD centered, size⟩

/-- The frames between which a new window opens. -/
def openFrames (d : Desktop) (source : String) (windowFrame : Rect) : Rect × Rect :=
  let width := d.desktopSize.width
  let height := d.desktopSize.height
  if source = awmDockServiceName then
    (Rect.new 0 height width awmDockHeight,
      Rect.new 0 (height - awmDockHeight) width awmDockHeight)
  else if source = awmMenuBarServiceName then
    (Rect.new 0 (-awmMenuBarHeight) width awmMenuBarHeight,
      Rect.new 0 0 width awmMenuBarHeight)
  else (smallFrameAtBottom d.desktopSize, windowFrame)

/-- The window is there, in front of the others, and nothing has been recomputed. -/
def insertWindow (d : Desktop) (source : String) (windowFrame : Rect) : Desktop :=
  let id := d.nextDesktopElementId
  let params := windowParamsFor source
  let d := d.addElement windowFrame params.zIndexCategory
  let d := { d with
    window := Function.update d.window id ⟨source, none, .unhovered, params, none⟩
    windows := id :: d.windows }
  d.trackElement id

def informDockWindowCreated (d : Desktop) (source : String) (id : ElementId) : Desktop :=
  if source ≠ awmDockServiceName ∧ source ≠ awmMenuBarServiceName then
    d.send awmDockServiceName (.dockWindowCreated id source)
  else d

def spawnWindow (d : Desktop) (now : ℕ) (source : String) (contentSize : Size)
    (origin : Option Point) (animated : Bool) : Desktop :=
  let id := d.nextDesktopElementId
  let windowFrame := d.newWindowFrame source contentSize origin
  let frames := d.openFrames source windowFrame
  let d := d.insertWindow source windowFrame
  let d :=
    if !animated then d.recomputeDrawableRegionsInRect windowFrame
    else d.startAnimation (.windowOpen (animationParams now 200 id frames.1 frames.2))
  d.informDockWindowCreated source id

/-- `window_for_owner`, which panics without a window. -/
def windowForOwner (d : Desktop) (owner : String) : Option ElementId :=
  d.windows.find? fun w => (d.window w).ownerService = owner

def windowWithId (d : Desktop) (id : ElementId) : Option ElementId :=
  d.windows.find? fun w => w = id

def handleWindowRequestedRedraw (d : Desktop) (owner : String) : Option Desktop :=
  (d.windowForOwner owner).map fun w =>
    let d :=
      if w ∈ d.windowsToRenderRemoteLayersThisCycle then d
      else { d with
        windowsToRenderRemoteLayersThisCycle := d.windowsToRenderRemoteLayersThisCycle ++ [w] }
    d.queueComposite w

/-- Only the slice of the 64 rectangles of the message. -/
def handleWindowRequestedPartialRedraw (d : Desktop) (rectCount : ℕ) : Option Desktop :=
  if rectCount ≤ 64 then some d else none

def handleWindowUpdatedTitle (d : Desktop) (owner title : String) : Option Desktop :=
  (d.windowForOwner owner).map fun w =>
    let d := d.modifyWindow w fun window => { window with title := some title }
    let d := d.queueExtraDraw w (d.titleBarFrameOnScreen w)
    d.send awmDockServiceName (.dockWindowTitleUpdated w title)

def handleWindowClose (d : Desktop) (now : ℕ) (owner : String) : Option Desktop :=
  (d.windowForOwner owner).map fun w =>
    let anim := Animation.windowClose
      (animationParams now 200 w (d.frame w) (smallFrameAtBottom d.desktopSize))
    (d.startAnimation anim).send awmDockServiceName (.dockWindowClosed w)

def handleDockTaskViewClicked (d : Desktop) (now : ℕ) (id : ElementId) : Option Desktop :=
  (d.windowWithId id).bind fun w =>
    (d.moveWindowToTop w).map fun d =>
      match (d.window w).unminimizedFrame with
      | some unminimized =>
        d.startAnimation
          (.windowUnminimize (animationParams now 200 w (d.frame w) unminimized))
      | none => d

def handleMinimizeWindowToDock (d : Desktop) (now : ℕ) (id : ElementId) (taskViewFrame : Rect) :
    Option Desktop :=
  (d.windowWithId id).map fun w =>
    let destFrame : Rect := ⟨⟨taskViewFrame.minX, d.desktopSize.height⟩, taskViewFrame.size⟩
    d.startAnimation (.windowMinimize (animationParams now 200 w (d.frame w) destFrame))

/-! ### The end of a window, and the steps of the animations -/

/-- Out of `windows` only: the first thing `drop_window` does. -/
def removeWindow (d : Desktop) (w : ElementId) : Desktop :=
  { d with windows := d.windows.filter (· ≠ w) }

/-- Out of `windows`, out of the state of the mouse, out of the layers to fetch. -/
def leaveWindow (d : Desktop) (w : ElementId) : Desktop :=
  let d := d.removeWindow w
  let d := d.transitionToMouseInteractionState (d.mouseInteractionStateForMouseState false)
  { d with
    windowsToRenderRemoteLayersThisCycle :=
      d.windowsToRenderRemoteLayersThisCycle.filter (· ≠ w) }

/-- Out of the compositor's lists; its extra draws stay. -/
def removeElement (d : Desktop) (w : ElementId) : Desktop :=
  d.modifyCompositor fun c =>
    { c with
      elements := c.elements.filter (· ≠ w)
      elementsById := c.elementsById.filter (· ≠ w)
      elementsToComposite := c.elementsToComposite.filter (· ≠ w) }

def dropWindow (d : Desktop) (w : ElementId) : Desktop :=
  let d := (d.leaveWindow w).removeElement w
  let windowFrame := d.frame w
  (d.recomputeDrawableRegionsInRect windowFrame).queueFullRedraw windowFrame

/-- The frame an animation gives its element, at a time. -/
def animatedFrame (lerp : Lerp) (now : ℕ) (p : AnimationParams) : Rect :=
  interpolateFrame lerp p.frameFrom p.frameTo (now - p.startTime) p.durationMs

/-- Step every animation; the regions in which drawable rectangles are to be recomputed. -/
def stepEach (lerp : Lerp) (now : ℕ) : List Animation → Desktop → Desktop × List Rect
  | [], d => (d, [])
  | anim :: rest, d =>
    let p := anim.params
    let newFrame := animatedFrame lerp now p
    let region := (d.frame p.element).union newFrame
    let stepped := stepEach lerp now rest ((d.setFrame p.element newFrame).queueFullRedraw region)
    (stepped.1, region :: stepped.2)

/-- The animations moved on, and the drawable rectangles recomputed. -/
def animate (lerp : Lerp) (now : ℕ) (d : Desktop) : Desktop :=
  let stepped := stepEach lerp now d.ongoingAnimations d
  stepped.2.foldl recomputeDrawableRegionsInRect stepped.1

/-- The windows whose closing animation is complete. -/
def windowsToDrop (d : Desktop) (now : ℕ) : List ElementId :=
  d.ongoingAnimations.filterMap fun anim =>
    if anim.isComplete now then
      match anim with
      | .windowClose p => some p.element
      | _ => none
    else none

/-- The shortcuts that have landed. -/
def shortcutsToRefresh (d : Desktop) (now : ℕ) : List ElementId :=
  d.ongoingAnimations.filterMap fun anim =>
    if anim.isComplete now then
      match anim with
      | .shortcutSnap p => some p.element
      | _ => none
    else none

def finishAnimation (d : Desktop) : Animation → Desktop
  | .windowUnminimize p => d.modifyWindow p.element fun w => { w with unminimizedFrame := none }
  | _ => d

/-- The end of the step: shortcuts redrawn, animations that are complete taken off the list. -/
def finishAnimations (d : Desktop) (now : ℕ) : Desktop :=
  let d := (d.shortcutsToRefresh now).foldl queueComposite d
  let d := (d.ongoingAnimations.filter fun anim => anim.isComplete now).foldl finishAnimation d
  { d with ongoingAnimations := d.ongoingAnimations.filter fun anim => !anim.isComplete now }

def stepAnimations (lerp : Lerp) (d : Desktop) (now : ℕ) : Desktop :=
  if d.ongoingAnimations.length = 0 then d
  else
    let d := d.animate lerp now
    let d := (d.windowsToDrop now).foldl dropWindow d
    d.finishAnimations now

/-! ### Drawing -/

def updateOcclusions (freeAreas : List Rect) (exclude : Rect) : List Rect :=
  freeAreas.flatMap fun freeArea =>
    if !freeArea.intersectsWith exclude then [freeArea] else freeArea.areaExcludingRect exclude

/-- The visible regions of one element in the rectangle to redraw.  The flag says that a region
encloses the rectangle: nothing else is to be looked at. -/
def extraDrawsOfElement (redraw : Rect) (e : ElementId) :
    List Rect → Desktop → List Rect → Option (Bool × Desktop × List Rect)
  | [], d, undrawn => some (false, d, undrawn)
  | visible :: rest, d, undrawn =>
    if !visible.intersectsWith redraw then extraDrawsOfElement redraw e rest d undrawn
    else if visible.encloses redraw then
      some (true, d.queueExtraDraw e redraw, updateOcclusions undrawn redraw)
    else
      match visible.areaOverlappingWith redraw with
      | none => none
      | some intersection =>
        extraDrawsOfElement redraw e rest (d.queueExtraDraw e intersection)
          (updateOcclusions undrawn intersection)

def extraDrawsOfElements (redraw : Rect) :
    List ElementId → Desktop → List Rect → Option (Desktop × List Rect)
  | [], d, undrawn => some (d, undrawn)
  | e :: rest, d, undrawn =>
    if !(d.frame e).intersectsWith redraw then extraDrawsOfElements redraw rest d undrawn
    else
      match extraDrawsOfElement redraw e (d.drawableRects e) d undrawn with
      | none => none
      | some (true, d, undrawn) => some (d, undrawn)
      | some (false, d, undrawn) => extraDrawsOfElements redraw rest d undrawn

def extraDrawsOfRect (d : Desktop) (redraw : Rect) : Option Desktop :=
  (extraDrawsOfElements redraw d.compositorState.elements d [redraw]).map fun drawn =>
    drawn.2.foldl queueExtraBackgroundDraw drawn.1

def computeExtraDrawsFromTotalUpdateRects (d : Desktop) : Option Desktop :=
  run extraDrawsOfRect d d.compositorState.rectsToFullyRedraw

/-- Every queued id is in the table. -/
def idsKnown (d : Desktop) : Bool :=
  d.compositorState.elementsToComposite.all (· ∈ d.compositorState.elementsById) &&
    d.compositorState.extraDraws.all (fun draws => draws.1 ∈ d.compositorState.elementsById)

def drawFrameComposited (d : Desktop) : Option Desktop :=
  ({ d with windowsToRenderRemoteLayersThisCycle := [] }
      : Desktop).computeExtraDrawsFromTotalUpdateRects.bind fun d =>
    -- `elements_by_id.get(..).unwrap()`, for both tables
    if d.idsKnown then
      some (d.modifyCompositor fun c =>
        { c with
          elementsToComposite := []
          extraDraws := []
          extraBackgroundDraws := []
          rectsToFullyRedraw := [] })
    else none

def drawFrameSimple (d : Desktop) : Desktop :=
  d.modifyCompositor fun c =>
    { c with extraDraws := [], rectsToFullyRedraw := [], elementsToComposite := [] }

def drawFrame (d : Desktop) : Option Desktop :=
  match d.renderStrategy with
  | .treeWalk => some d.drawFrameSimple
  | .composite => d.drawFrameComposited

/-! ### The start -/

/-- `(start..stop).step_by(step)` -/
def stepBy (start stop step : ℤ) : List ℤ :=
  (List.range ((stop - start + step - 1) / step).toNat).map fun i => start + i * step

def gridSlots (desktopSize : Size) : List DesktopShortcutGridSlot :=
  (stepBy 0 (desktopSize.width - gridSlotSize.width) gridSlotSize.width).zipIdx.flatMap
    fun column =>
      (stepBy awmMenuBarHeight
        (desktopSize.height - gridSlotSize.height - awmMenuBarHeight - awmDockHeight)
        gridSlotSize.height).zipIdx.map fun row =>
          ⟨(column.2, row.2), ⟨⟨column.1, row.1⟩, gridSlotSize⟩, none⟩

def new (desktopSize : Size) (windowImages : WindowDecorationImages) : Desktop where
  desktopSize := desktopSize
  frame := fun _ => Rect.zero
  drawableRects := fun _ => []
  zIndexCategory := fun _ => .desktopView
  window := fun _ => ⟨"", none, .unhovered, WindowParams.default, none⟩
  shortcut := fun _ => ⟨"", "", none, .unhovered⟩
  windows := []
  mouseState := ⟨⟨(Rect.withSize desktopSize).midX, (Rect.withSize desktopSize).midY⟩, false⟩
  mouseInteractionState := .backgroundHover
  pressedModifiers := []
  compositorState := CompositorState.new
  renderStrategy := .composite
  nextDesktopElementId := 0
  windowsToRenderRemoteLayersThisCycle := []
  ongoingAnimations := []
  windowImages := windowImages
  slots := gridSlots desktopSize
  shortcuts := []
  sent := []

/-- The slot a line asks for, or the next free one. -/
def slotFor (d : Desktop) (line : ShortcutLine) : Option DesktopShortcutGridSlot :=
  match line.coordinates with
  | some coordinates => d.slots.find? fun slot => slot.coordinates = coordinates
  | none => d.slots.find? fun slot => slot.occupant = none

def shortcutFrame (slot : DesktopShortcutGridSlot) : Rect :=
  ⟨shortcutOriginForSlotFrame slot.frame, shortcutSize⟩

/-- The shortcut is in its slot, and nothing has been recomputed. -/
def insertShortcut (d : Desktop) (line : ShortcutLine) (slot : DesktopShortcutGridSlot) :
    Desktop :=
  let id := d.nextDesktopElementId
  let d := d.addElement (shortcutFrame slot) .desktopView
  let d := { d with
    shortcut := Function.update d.shortcut id ⟨line.path, line.title, none, .unhovered⟩
    shortcuts := d.shortcuts ++ [id]
    slots := d.slots.map fun other : DesktopShortcutGridSlot =>
      if other.coordinates = slot.coordinates then { other with occupant := some id }
      else other }
  d.trackElement id

def loadShortcut (d : Desktop) (line : ShortcutLine) : Option Desktop :=
  (d.slotFor line).map fun slot =>
    (d.insertShortcut line slot).recomputeDrawableRegionsInRect (shortcutFrame slot)

/-- The desktop with the shortcuts of the file. -/
def boot (desktopSize : Size) (windowImages : WindowDecorationImages)
    (lines : List ShortcutLine) : Option Desktop :=
  run loadShortcut (Desktop.new desktopSize windowImages) lines

/-! ### Messages -/

def handleClientMessage (d : Desktop) (now : ℕ) (source : String) :
    ClientMessage → Option Desktop
  | .createWindow width height => some (d.spawnWindow now source ⟨width, height⟩ none true)
  | .windowRedrawReady => d.handleWindowRequestedRedraw source
  | .windowPartialRedraw rectCount => d.handleWindowRequestedPartialRedraw rectCount
  | .windowUpdateTitle title => d.handleWindowUpdatedTitle source title
  | .closeWindow => d.handleWindowClose now source
  -- "Awm received event type"
  | .other _ => none

def handleMessage (d : Desktop) (now : ℕ) : Message → Option Desktop
  | .mouse packet => d.handleMousePacket now packet
  | .keyboard packet => d.handleKeyboardEvent packet
  | .desktopTraitsRequest => some d
  | .preferencesUpdated => some (d.queueFullRedraw d.desktopFrame)
  | .dockTaskViewHovered => some d
  | .dockTaskViewHoverExited => some d
  | .dockTaskViewClicked id => d.handleDockTaskViewClicked now id
  | .dockWindowMinimizeWithInfo id taskViewFrame =>
    d.handleMinimizeWindowToDock now id taskViewFrame
  | .serviceDied service => d.handleWindowClose now service
  | .client source message => d.handleClientMessage now source message

end Desktop

/-! ### The main loop -/

/-- What the loop does next: step the animations, or handle messages and then draw. -/
inductive Phase where
  | animations
  | messages
  deriving DecidableEq, Repr

structure AwmLoop where
  desktop : Desktop
  phase : Phase

inductive LoopEvent where
  | stepAnimations (now : ℕ)
  | message (now : ℕ) (message : Message)
  /-- A window that is opened without a message, as in the hosted build and in the tests. -/
  | spawnWindow (now : ℕ) (source : String) (contentSize : Size) (origin : Option Point)
      (animated : Bool)
  | drawFrame
  deriving DecidableEq, Repr

def awmNext (lerp : Lerp) (a : AwmLoop) : LoopEvent → Option AwmLoop
  | .stepAnimations now => some ⟨a.desktop.stepAnimations lerp now, .messages⟩
  | .message now message => (a.desktop.handleMessage now message).map fun d => ⟨d, .messages⟩
  | .spawnWindow now source contentSize origin animated =>
    some ⟨a.desktop.spawnWindow now source contentSize origin animated, .messages⟩
  | .drawFrame => a.desktop.drawFrame.map fun d => ⟨d, .animations⟩

/-- A packet of the mouse. -/
def mouseEvent (relX relY : ℤ) (leftButtonDown : Bool) : LoopEvent :=
  .message 500 (.mouse ⟨if leftButtonDown then 1 else 0, relX, relY, 0⟩)

/-- The order of the main loop. -/
def InLoopOrder (a : AwmLoop) : LoopEvent → Prop
  | .stepAnimations _ => a.phase = .animations
  | _ => a.phase = .messages

instance (a : AwmLoop) : ∀ event, Decidable (InLoopOrder a event)
  | .stepAnimations _ => inferInstanceAs (Decidable (a.phase = .animations))
  | .message _ _ | .spawnWindow _ _ _ _ _ | .drawFrame =>
    inferInstanceAs (Decidable (a.phase = .messages))

end Axle.Awm
