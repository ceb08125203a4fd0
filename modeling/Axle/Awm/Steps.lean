import Axle.Awm.MainLoop
import Mathlib.Logic.Relation

/-!
# What the handlers of the window manager do, step by step

Every handler is taken apart here once, into a few kinds of small step; the invariants of the
other modules are then proved for the small steps.

* `handleMouseStateChange_steps`, `handleMessage_steps` — **PROVED**: every handler but the one
  for new windows is a sequence of small steps.
-/

namespace Axle.Awm

open Axle.Agx Axle.Lib.StepRun

/-- The two messages about hovering. -/
def Sent.isHover : Sent → Bool
  | .mouseEntered | .mouseExited => true
  | _ => false

/-- The message of a client that opens a window. -/
def Message.opensWindow : Message → Bool
  | .client _ (.createWindow _ _) => true
  | _ => false

namespace Desktop

/-- The hover messages sent so far. -/
def hoverSent (d : Desktop) : List (String × Sent) := d.sent.filter fun m => m.2.isHover

def owner (d : Desktop) (w : ElementId) : String := (d.window w).ownerService

/-- The ids with something to draw. -/
def extraDrawIds (d : Desktop) : List ElementId := d.compositorState.extraDraws.map Prod.fst

/-! ### Quiet changes -/

theorem zSorted_congr {d d' : Desktop} (hcat : d'.zIndexCategory = d.zIndexCategory)
    (hwin : d'.windows = d.windows)
    (helem : d'.compositorState.elements = d.compositorState.elements) :
    d'.zSorted = d.zSorted := by
  unfold zSorted
  rw [hcat, hwin, helem]

/-- The same elements in the same places; elements that are known may have been queued. -/
structure SameElements (d d' : Desktop) : Prop where
  desktopSize : d'.desktopSize = d.desktopSize
  frame : d'.frame = d.frame
  zIndexCategory : d'.zIndexCategory = d.zIndexCategory
  windows : d'.windows = d.windows
  elements : d'.compositorState.elements = d.compositorState.elements
  elementsById : d'.compositorState.elementsById = d.compositorState.elementsById
  shortcuts : d'.shortcuts = d.shortcuts
  nextDesktopElementId : d'.nextDesktopElementId = d.nextDesktopElementId
  ongoingAnimations : d'.ongoingAnimations = d.ongoingAnimations
  owner : d'.owner = d.owner
  slotFrames : d'.slots.map DesktopShortcutGridSlot.frame =
    d.slots.map DesktopShortcutGridSlot.frame
  elementsToComposite : ∀ e ∈ d'.compositorState.elementsToComposite,
    e ∈ d.compositorState.elementsToComposite ∨ e ∈ d.compositorState.elementsById ∨ e ∈ d.zSorted
  extraDrawIds : ∀ e ∈ d'.extraDrawIds,
    e ∈ d.extraDrawIds ∨ e ∈ d.compositorState.elementsById

/-- Nothing of interest has changed, except that known elements may have been queued. -/
structure Queued (d d' : Desktop) : Prop extends SameElements d d' where
  drawableRects : d'.drawableRects = d.drawableRects
  mouseInteractionState : d'.mouseInteractionState = d.mouseInteractionState
  hoverSent : d'.hoverSent = d.hoverSent

/-- Outside of a draw, no part of the background is queued. -/
structure Quiet (d d' : Desktop) : Prop extends Queued d d' where
  extraBackgroundDraws :
    d'.compositorState.extraBackgroundDraws = d.compositorState.extraBackgroundDraws

theorem SameElements.refl (d : Desktop) : SameElements d d :=
  ⟨rfl, rfl, rfl, rfl, rfl, rfl, rfl, rfl, rfl, rfl, rfl, fun _ => Or.inl, fun _ => Or.inl⟩

theorem SameElements.zSorted {d d' : Desktop} (h : SameElements d d') : d'.zSorted = d.zSorted :=
  zSorted_congr h.zIndexCategory h.windows h.elements

theorem SameElements.trans {d d' d'' : Desktop} (h : SameElements d d')
    (h' : SameElements d' d'') : SameElements d d'' where
  desktopSize := h'.desktopSize.trans h.desktopSize
  frame := h'.frame.trans h.frame
  zIndexCategory := h'.zIndexCategory.trans h.zIndexCategory
  windows := h'.windows.trans h.windows
  elements := h'.elements.trans h.elements
  elementsById := h'.elementsById.trans h.elementsById
  shortcuts := h'.shortcuts.trans h.shortcuts
  nextDesktopElementId := h'.nextDesktopElementId.trans h.nextDesktopElementId
  ongoingAnimations := h'.ongoingAnimations.trans h.ongoingAnimations
  owner := h'.owner.trans h.owner
  slotFrames := h'.slotFrames.trans h.slotFrames
  elementsToComposite := by
    intro e he
    rcases h'.elementsToComposite e he with he | he | he
    · exact h.elementsToComposite e he
    · exact Or.inr (Or.inl (h.elementsById ▸ he))
    · exact Or.inr (Or.inr (h.zSorted ▸ he))
  extraDrawIds := fun e he =>
    (h'.extraDrawIds e he).elim (h.extraDrawIds e) (fun hid => Or.inr (h.elementsById ▸ hid))

theorem Queued.refl (d : Desktop) : Queued d d := ⟨SameElements.refl d, rfl, rfl, rfl⟩

theorem Queued.trans {d d' d'' : Desktop} (h : Queued d d') (h' : Queued d' d'') : Queued d d'' :=
  ⟨h.toSameElements.trans h'.toSameElements, h'.drawableRects.trans h.drawableRects,
    h'.mouseInteractionState.trans h.mouseInteractionState, h'.hoverSent.trans h.hoverSent⟩

theorem Queued.scene {d d' : Desktop} (h : Queued d d') : d'.scene = d.scene := by
  unfold Desktop.scene
  rw [h.desktopSize, h.frame, h.drawableRects, h.zSorted]

theorem Quiet.refl (d : Desktop) : Quiet d d := ⟨Queued.refl d, rfl⟩

theorem Quiet.trans {d d' d'' : Desktop} (h : Quiet d d') (h' : Quiet d' d'') : Quiet d d'' :=
  ⟨h.toQueued.trans h'.toQueued, h'.extraBackgroundDraws.trans h.extraBackgroundDraws⟩

/-- A recomputation keeps everything but the drawable rectangles. -/
theorem recompute_sameElements (d : Desktop) (rect : Rect) :
    SameElements d (d.recomputeDrawableRegionsInRect rect) ∧
    (d.recomputeDrawableRegionsInRect rect).mouseInteractionState = d.mouseInteractionState ∧
    (d.recomputeDrawableRegionsInRect rect).hoverSent = d.hoverSent := by
  obtain ⟨rects, queue, heq, hqueue⟩ := recompute_eq d rect
  rw [heq]
  exact ⟨{ SameElements.refl d with
    elementsToComposite := fun e he => (hqueue e he).imp_right Or.inr }, rfl, rfl⟩

variable {message : Sent} {e w s id : ElementId} {allow : Bool} {now : ℕ}

section

variable (d : Desktop)

theorem Quiet.send (destination : String) (hmessage : message.isHover = false) :
    Quiet d (d.send destination message) :=
  { Quiet.refl d with
    hoverSent := by
      unfold Desktop.hoverSent Desktop.send
      rw [List.filter_append, List.filter_cons_of_neg (by simp [hmessage])]
      simp }

theorem Quiet.sendToOwner (w : ElementId) (hmessage : message.isHover = false) :
    Quiet d (d.sendToOwner w message) :=
  Quiet.send d _ hmessage

theorem Quiet.modifyWindow (w : ElementId) {f : Window → Window}
    (hf : ∀ window, (f window).ownerService = window.ownerService) : Quiet d (d.modifyWindow w f) :=
  { Quiet.refl d with
    owner := by
      funext x
      show (Function.update d.window w (f (d.window w)) x).ownerService = _
      by_cases hx : x = w
      · subst hx
        rw [Function.update_self]
        exact hf _
      · rw [Function.update_of_ne hx]
        rfl }

theorem Quiet.modifyShortcut (s : ElementId) (f : DesktopShortcut → DesktopShortcut) :
    Quiet d (d.modifyShortcut s f) :=
  { Quiet.refl d with }

theorem Quiet.queueFullRedraw (r : Rect) : Quiet d (d.queueFullRedraw r) := by
  unfold Desktop.queueFullRedraw
  dsimp only
  split
  · exact Quiet.refl d
  · exact { Quiet.refl d with }

end

theorem Quiet.foldl_queueFullRedraw (rects : List Rect) :
    ∀ d : Desktop, Quiet d (rects.foldl Desktop.queueFullRedraw d) := by
  induction rects with
  | nil => exact Quiet.refl
  | cons r rects ih => exact fun d => (Quiet.queueFullRedraw d r).trans (ih _)

theorem Quiet.queueComposite (d : Desktop) (he : e ∈ d.compositorState.elementsById) :
    Quiet d (d.queueComposite e) :=
  { Quiet.refl d with
    elementsToComposite := by
      intro x hx
      rcases mem_btreeInsert.mp hx with rfl | hx
      · exact Or.inr (Or.inl he)
      · exact Or.inl hx }

theorem mem_keys_insertRect {id x : ElementId} {r : Rect} {m : ExtraDraws} :
    x ∈ (m.insertRect id r).map Prod.fst ↔ x = id ∨ x ∈ m.map Prod.fst := by
  induction m with
  | nil => simp [ExtraDraws.insertRect]
  | cons draws m ih =>
    obtain ⟨k, rects⟩ := draws
    by_cases hlt : id < k
    · simp [ExtraDraws.insertRect, hlt]
    · by_cases hgt : k < id
      · simp only [ExtraDraws.insertRect, hlt, hgt, if_true, if_false, List.map_cons,
          List.mem_cons, ih]
        tauto
      · have heq : id = k := le_antisymm (not_lt.mp hgt) (not_lt.mp hlt)
        simp [ExtraDraws.insertRect, heq]

theorem Quiet.queueExtraDraw (d : Desktop) (r : Rect) (he : e ∈ d.compositorState.elementsById) :
    Quiet d (d.queueExtraDraw e r) := by
  unfold Desktop.queueExtraDraw
  dsimp only
  split
  · exact Quiet.refl d
  · exact { Quiet.refl d with
      extraDrawIds := by
        intro x hx
        rcases mem_keys_insertRect.mp hx with rfl | hx
        · exact Or.inr he
        · exact Or.inl hx }

theorem Quiet.transitionToTitleBarHoverStateForWindow (d : Desktop) (w : ElementId)
    (state : TitleBarButtonsHoverState) :
    Quiet d (d.transitionToTitleBarHoverStateForWindow w state) := by
  have hmod : Quiet d (d.modifyWindow w fun window =>
      { window with titleBarButtonsHoverState := state }) := Quiet.modifyWindow d w (fun _ => rfl)
  unfold Desktop.transitionToTitleBarHoverStateForWindow
  dsimp only
  split
  · exact hmod.trans (Quiet.queueFullRedraw _ _)
  · exact hmod

/-! ### A transition of the mouse -/

/-- The same elements in the same places, some of them recomputed. -/
structure Recomputed (d d' : Desktop) : Prop extends SameElements d d' where
  mouseInteractionState : d'.mouseInteractionState = d.mouseInteractionState
  scene : d.zSorted.Nodup → ∃ rects : List Rect, d'.scene = rects.foldl Scene.recompute d.scene

theorem Quiet.recomputed {d d' : Desktop} (h : Quiet d d') : Recomputed d d' :=
  ⟨h.toSameElements, h.mouseInteractionState, fun _ => ⟨[], h.scene⟩⟩

theorem Recomputed.refl (d : Desktop) : Recomputed d d := (Quiet.refl d).recomputed

theorem Recomputed.trans {d d' d'' : Desktop} (h : Recomputed d d') (h' : Recomputed d' d'') :
    Recomputed d d'' where
  toSameElements := h.toSameElements.trans h'.toSameElements
  mouseInteractionState := h'.mouseInteractionState.trans h.mouseInteractionState
  scene := by
    intro hnodup
    obtain ⟨rects, heq⟩ := h.scene hnodup
    obtain ⟨rects', heq'⟩ := h'.scene (h.zSorted ▸ hnodup)
    exact ⟨rects ++ rects', by rw [heq', heq, List.foldl_append]⟩

section

variable (d : Desktop)

theorem Recomputed.recompute (rect : Rect) : Recomputed d (d.recomputeDrawableRegionsInRect rect) :=
  ⟨(recompute_sameElements d rect).1, (recompute_sameElements d rect).2.1,
    fun hnodup => ⟨[rect], recompute_scene d rect hnodup⟩⟩

theorem Recomputed.sendToOwner (w : ElementId) (message : Sent) :
    Recomputed d (d.sendToOwner w message) :=
  ⟨{ SameElements.refl d with }, rfl, fun _ => ⟨[], rfl⟩⟩

theorem Recomputed.redrawShortcut (s : ElementId) (f : DesktopShortcut → DesktopShortcut) :
    Recomputed d (d.redrawShortcut s f) :=
  (Quiet.modifyShortcut d s f).recomputed.trans (Recomputed.recompute _ _)

theorem informExited_recomputed (state : MouseInteractionState) :
    Recomputed d (d.informExited state) := by
  have hwindow : ∀ w, Recomputed d (if state.window? ≠ some w then
      (d.transitionToTitleBarHoverStateForWindow w .unhovered).sendToOwner w .mouseExited
      else d) := by
    intro w
    split
    · exact (Quiet.transitionToTitleBarHoverStateForWindow d w _).recomputed.trans
        (Recomputed.sendToOwner _ _ _)
    · exact Recomputed.refl d
  unfold informExited
  split
  · exact Recomputed.refl d
  all_goals first
    | exact hwindow _
    | exact Recomputed.refl d
    | skip
  split
  · exact Recomputed.redrawShortcut d _ _
  · exact Recomputed.refl d

theorem informEnteredTitleBar_recomputed (state : MouseInteractionState) :
    Recomputed d (d.informEnteredTitleBar state) := by
  unfold informEnteredTitleBar
  split
  · split
    · exact Recomputed.sendToOwner d _ _
    · exact Recomputed.refl d
  · exact Recomputed.refl d

theorem informEnteredWindow_recomputed (state : MouseInteractionState) :
    Recomputed d (d.informEnteredWindow state) := by
  unfold informEnteredWindow
  split
  · split
    · exact Recomputed.sendToOwner d _ _
    · exact Recomputed.refl d
  · exact Recomputed.refl d

theorem informEnteredShortcut_recomputed (state : MouseInteractionState) :
    Recomputed d (d.informEnteredShortcut state) := by
  unfold informEnteredShortcut
  split
  · split
    · exact Recomputed.redrawShortcut d _ _
    · exact Recomputed.refl d
  · exact Recomputed.refl d

/-- **A transition sets the state, sends hover messages and recomputes shortcuts (proved).** -/
theorem transition_eq (state : MouseInteractionState) : ∃ d', Recomputed d d' ∧
    d.transitionToMouseInteractionState state = { d' with mouseInteractionState := state } := by
  unfold transitionToMouseInteractionState
  split
  · rename_i hsame
    exact ⟨d, Recomputed.refl d, by rw [← hsame]⟩
  · exact ⟨_, (((informExited_recomputed d state).trans
      (informEnteredTitleBar_recomputed _ state)).trans
      (informEnteredWindow_recomputed _ state)).trans
      (informEnteredShortcut_recomputed _ state), rfl⟩

theorem transition_sameElements (state : MouseInteractionState) :
    SameElements d (d.transitionToMouseInteractionState state) ∧
    (d.transitionToMouseInteractionState state).mouseInteractionState = state := by
  obtain ⟨d', hrec, heq⟩ := transition_eq d state
  rw [heq]
  exact ⟨{ hrec.toSameElements with }, rfl⟩

end

/-! ### Small steps -/

/-- What an animation may be about. -/
def AnimationKnown (d : Desktop) : Animation → Prop
  | .shortcutSnap p => p.element ∈ d.shortcuts
  | anim => anim.params.element ∈ d.windows

/-- One thing a handler does. -/
inductive SmallStep (strict : Prop) : Desktop → Desktop → Prop where
  | quiet {d d' : Desktop} (h : Quiet d d') : SmallStep strict d d'
  | recompute (d : Desktop) (rect : Rect) :
      SmallStep strict d (d.recomputeDrawableRegionsInRect rect)
  | move (d : Desktop) (e : ElementId) (frame : Rect) :
      SmallStep strict d
        ((d.setFrame e frame).recomputeDrawableRegionsInRect ((d.frame e).union frame))
  | raise (d : Desktop) (w : ElementId) (hw : w ∈ d.windows) :
      SmallStep strict d
        (({ d with windows := w :: d.windows.erase w }
          : Desktop).recomputeDrawableRegionsInRect (d.frame w))
  | animation (d : Desktop) (anim : Animation) (h : d.AnimationKnown anim) :
      SmallStep strict d { d with ongoingAnimations := d.ongoingAnimations ++ [anim] }
  | transition (d : Desktop) (state : MouseInteractionState)
      (hwindow : ∀ w, state.window? = some w →
        w ∈ d.windows ∨ d.mouseInteractionState.window? = some w)
      (hshortcut : ∀ s, state.shortcut? = some s →
        s ∈ d.shortcuts ∨ d.mouseInteractionState.shortcut? = some s)
      (hstrict : strict → d.mouseInteractionState.entersOwnTitleBar state = false) :
      SmallStep strict d (d.transitionToMouseInteractionState state)

/-- A sequence of small steps. -/
abbrev Steps (strict : Prop) : Desktop → Desktop → Prop := Relation.ReflTransGen (SmallStep strict)

variable {strict : Prop} {d d' d'' : Desktop}

theorem Quiet.steps (h : Quiet d d') : Steps strict d d' :=
  Relation.ReflTransGen.single (SmallStep.quiet h)

theorem SmallStep.steps (h : SmallStep strict d d') : Steps strict d d' :=
  Relation.ReflTransGen.single h

/-- A property of one desktop that every small step keeps holds after a sequence of them. -/
theorem Steps.invariant {Inv : Desktop → Prop}
    (hstep : ∀ d d', SmallStep strict d d' → Inv d → Inv d') (h : Steps strict d d') (hd : Inv d) :
    Inv d' := by
  induction h with
  | refl => exact hd
  | tail _ hlast ih => exact hstep _ _ hlast ih

/-! ### The mouse -/

theorem mem_of_windowContainingPoint {p : Point} (h : d.windowContainingPoint p = some w) :
    w ∈ d.windows := List.mem_of_find?_eq_some h

theorem interactionStateOverWindow_window? (allow : Bool) (w : ElementId) :
    (d.interactionStateOverWindow allow w).window? = some w := by
  unfold interactionStateOverWindow
  dsimp only
  split
  · split <;> rfl
  · split
    · split <;> rfl
    · split <;> rfl

/-- The state a mouse position leads to is about a window or a shortcut of the desktop, or about
the one that is being dragged. -/
theorem mouseInteractionStateForMouseState_cases (d : Desktop) (allow : Bool) :
    (d.mouseInteractionState.isDrag = true ∧ d.mouseState.leftClickDown = true ∧
      d.mouseInteractionStateForMouseState allow = d.mouseInteractionState) ∨
    (∃ w ∈ d.windows, (d.mouseInteractionStateForMouseState allow).window? = some w ∧
      (d.mouseInteractionStateForMouseState allow).shortcut? = none) ∨
    (∃ s ∈ d.shortcuts, (d.mouseInteractionStateForMouseState allow).shortcut? = some s ∧
      (d.mouseInteractionStateForMouseState allow).window? = none) ∨
    d.mouseInteractionStateForMouseState allow = .backgroundHover := by
  unfold mouseInteractionStateForMouseState
  split
  · rename_i hdrag
    rw [Bool.and_eq_true] at hdrag
    exact Or.inl ⟨hdrag.1, hdrag.2, rfl⟩
  · right
    split
    · rename_i w hw
      left
      have hwin := interactionStateOverWindow_window? (d := d) allow w
      refine ⟨w, mem_of_windowContainingPoint hw, hwin, ?_⟩
      revert hwin
      cases d.interactionStateOverWindow allow w <;> simp [MouseInteractionState.window?,
        MouseInteractionState.shortcut?]
    · right
      split
      · rename_i s hs
        left
        refine ⟨s, List.mem_of_find?_eq_some hs, ?_⟩
        split <;> exact ⟨rfl, rfl⟩
      · right
        rfl

theorem mouseInteractionStateForMouseState_window?
    (h : (d.mouseInteractionStateForMouseState allow).window? = some w) :
    w ∈ d.windows ∨ d.mouseInteractionState.window? = some w := by
  rcases mouseInteractionStateForMouseState_cases d allow with hc | hc | hc | hc
  · rw [hc.2.2] at h
    exact Or.inr h
  · obtain ⟨w', hw', heq, -⟩ := hc
    rw [heq] at h
    exact Or.inl (Option.some.inj h ▸ hw')
  · obtain ⟨s, -, -, hnone⟩ := hc
    rw [hnone] at h
    exact absurd h (by simp)
  · rw [hc] at h
    exact absurd h (by simp [MouseInteractionState.window?])

theorem mouseInteractionStateForMouseState_shortcut?
    (h : (d.mouseInteractionStateForMouseState allow).shortcut? = some s) :
    s ∈ d.shortcuts ∨ d.mouseInteractionState.shortcut? = some s := by
  rcases mouseInteractionStateForMouseState_cases d allow with hc | hc | hc | hc
  · rw [hc.2.2] at h
    exact Or.inr h
  · obtain ⟨w, -, -, hnone⟩ := hc
    rw [hnone] at h
    exact absurd h (by simp)
  · obtain ⟨s', hs', heq, -⟩ := hc
    rw [heq] at h
    exact Or.inl (Option.some.inj h ▸ hs')
  · rw [hc] at h
    exact absurd h (by simp [MouseInteractionState.shortcut?])

/-- So the transition to it is a small step. -/
theorem transitionForMouseState_step (d : Desktop) (allow : Bool)
    (hstrict : strict → d.mouseInteractionState.entersOwnTitleBar
      (d.mouseInteractionStateForMouseState allow) = false) :
    SmallStep strict d
      (d.transitionToMouseInteractionState (d.mouseInteractionStateForMouseState allow)) :=
  SmallStep.transition d _ (fun _ => mouseInteractionStateForMouseState_window?)
    (fun _ => mouseInteractionStateForMouseState_shortcut?) hstrict

theorem redrawShortcut_steps (d : Desktop) (s : ElementId)
    (f : DesktopShortcut → DesktopShortcut) : Steps strict d (d.redrawShortcut s f) :=
  (Quiet.modifyShortcut d s f).steps.tail (SmallStep.recompute _ _)

theorem shortcutLeftClickBegan_steps (d : Desktop) (now : ℕ) (s : ElementId) :
    Steps strict d (d.shortcutLeftClickBegan now s) := by
  unfold shortcutLeftClickBegan
  split
  · exact redrawShortcut_steps _ _ _
  · split
    · exact (Quiet.send d _ rfl).steps.trans (redrawShortcut_steps _ _ _)
    · exact redrawShortcut_steps _ _ _

theorem moveWindowToTop_steps (h : d.moveWindowToTop w = some d') : Steps strict d d' := by
  unfold moveWindowToTop at h
  split at h
  · rename_i hw
    rw [← Option.some.inj h]
    exact (SmallStep.raise d w hw).steps
  · exact absurd h (by simp)

theorem clickWindow_steps (d : Desktop) (w : ElementId) : Steps strict d (d.clickWindow w) := by
  unfold clickWindow
  split
  · exact (Quiet.sendToOwner d w rfl).steps
  · exact (Quiet.send d _ rfl).steps
  · split
    · exact (Quiet.sendToOwner d w rfl).steps
    · exact Relation.ReflTransGen.refl

theorem handleLeftClickBegan_steps (h : d.handleLeftClickBegan now = some d')
    (hstrict : strict → d.mouseInteractionState.entersOwnTitleBar
      (d.mouseInteractionStateForMouseState true) = false) : Steps strict d d' := by
  unfold handleLeftClickBegan at h
  refine (transitionForMouseState_step d true hstrict).steps.trans ?_
  dsimp only at h
  split at h
  · rename_i w _
    obtain ⟨e', he', rfl⟩ := Option.map_eq_some_iff.mp h
    refine Relation.ReflTransGen.trans ?_ (clickWindow_steps e' w)
    split at he'
    · rw [← Option.some.inj he']
    · exact moveWindowToTop_steps he'
  · split at h
    · rw [← Option.some.inj h]
      exact shortcutLeftClickBegan_steps _ _ _
    · rw [← Option.some.inj h]

/-- Starting an animation where its element already is. -/
theorem startAnimation_steps (d : Desktop) (anim : Animation) (hknown : d.AnimationKnown anim)
    (hframe : anim.params.frameFrom = d.frame anim.params.element) :
    Steps strict d (d.startAnimation anim) := by
  have hself : d.setFrame anim.params.element anim.params.frameFrom = d := by
    unfold setFrame
    rw [hframe, Function.update_eq_self]
  unfold startAnimation
  dsimp only
  rw [hself]
  split
  · rename_i p
    have hquiet : Quiet d (d.modifyWindow p.element fun window =>
        { window with unminimizedFrame := some p.frameFrom }) :=
      Quiet.modifyWindow d _ (fun _ => rfl)
    exact hquiet.steps.tail (SmallStep.animation _ _ hknown)
  · exact (SmallStep.animation d anim hknown).steps

theorem setOccupant_frames (c : ℤ × ℤ) (occupant : Option ElementId)
    (slots : List DesktopShortcutGridSlot) :
    (slots.map fun slot : DesktopShortcutGridSlot =>
      if slot.coordinates = c then { slot with occupant := occupant } else slot).map
        DesktopShortcutGridSlot.frame = slots.map DesktopShortcutGridSlot.frame := by
  rw [List.map_map]
  apply List.map_congr_left
  intro slot _
  dsimp only [Function.comp_apply]
  split
  · rfl
  · rfl

theorem transferShortcutToNearestSlot_quiet {slot : Rect × Desktop}
    (h : d.transferShortcutToNearestSlot s = some slot) : Quiet d slot.2 := by
  unfold transferShortcutToNearestSlot at h
  split at h
  · exact absurd h (by simp)
  · obtain ⟨nearest, -, rfl⟩ := Option.map_eq_some_iff.mp h
    exact { Quiet.refl d with
      slotFrames := by
        rw [setOccupant_frames, setOccupant_frames] }

theorem snapShortcut_steps (hs : s ∈ d.shortcuts) (h : d.snapShortcut now s = some d') :
    Steps strict d d' := by
  obtain ⟨slot, hslot, rfl⟩ := Option.map_eq_some_iff.mp h
  have hquiet := transferShortcutToNearestSlot_quiet hslot
  refine hquiet.steps.trans (startAnimation_steps _ _ ?_ ?_)
  · show s ∈ slot.2.shortcuts
    rw [hquiet.shortcuts]
    exact hs
  · show d.frame s = slot.2.frame s
    rw [hquiet.frame]

/-- The state of the mouse is not about a shortcut that does not exist. -/
def ShortcutKnown (d : Desktop) : Prop :=
  ∀ s, d.mouseInteractionState.shortcut? = some s → s ∈ d.shortcuts

theorem informLeftClickEnded_steps (hknown : d.ShortcutKnown)
    (h : d.informLeftClickEnded now = some d') :
    Steps strict d d' ∧ d'.mouseInteractionState = d.mouseInteractionState ∧
      d'.windows = d.windows ∧ d'.shortcuts = d.shortcuts := by
  have hredraw : ∀ s, Recomputed d (d.shortcutLeftClickEnded now s) :=
    fun s => Recomputed.redrawShortcut d s _
  unfold informLeftClickEnded at h
  split at h
  · rw [← Option.some.inj h]
    exact ⟨(Quiet.sendToOwner d _ rfl).steps, rfl, rfl, rfl⟩
  · rw [← Option.some.inj h]
    exact ⟨(Quiet.sendToOwner d _ rfl).steps, rfl, rfl, rfl⟩
  · rw [← Option.some.inj h]
    exact ⟨redrawShortcut_steps _ _ _, (hredraw _).mouseInteractionState, (hredraw _).windows,
      (hredraw _).shortcuts⟩
  · rename_i s hmis
    have hs : s ∈ (d.shortcutLeftClickEnded now s).shortcuts := by
      rw [(hredraw s).shortcuts]
      exact hknown s (by rw [hmis]; rfl)
    have hsnap : Steps strict (d.shortcutLeftClickEnded now s) d' := snapShortcut_steps hs h
    have hsteps := (redrawShortcut_steps d s _).trans hsnap
    obtain ⟨slot, hslot, rfl⟩ := Option.map_eq_some_iff.mp h
    have hquiet := transferShortcutToNearestSlot_quiet hslot
    refine ⟨hsteps, ?_, ?_, ?_⟩
    · exact hquiet.mouseInteractionState.trans (hredraw s).mouseInteractionState
    · exact hquiet.windows.trans (hredraw s).windows
    · exact hquiet.shortcuts.trans (hredraw s).shortcuts
  · rw [← Option.some.inj h]
    exact ⟨Relation.ReflTransGen.refl, rfl, rfl, rfl⟩

/-- The end of a click leads out of a drag or a resize, so never from a window into its own title
bar. -/
theorem interactionStateAfterLeftClick_spec {state : MouseInteractionState}
    (h : d.interactionStateAfterLeftClick = some state) :
    d.mouseInteractionState.entersOwnTitleBar state = false ∧
    (∀ w, state.window? = some w →
      w ∈ d.windows ∨ d.mouseInteractionState.window? = some w) ∧
    (∀ s, state.shortcut? = some s →
      s ∈ d.shortcuts ∨ d.mouseInteractionState.shortcut? = some s) := by
  unfold interactionStateAfterLeftClick at h
  split at h
  · rename_i w hmis
    rw [← Option.some.inj h, hmis]
    exact ⟨rfl, fun _ hw => Or.inr hw,
      fun s hs => absurd hs (by simp [MouseInteractionState.shortcut?])⟩
  · rename_i w hmis
    rw [← Option.some.inj h, hmis]
    exact ⟨rfl, fun _ hw => Or.inr hw,
      fun s hs => absurd hs (by simp [MouseInteractionState.shortcut?])⟩
  · rename_i w hmis
    rw [← Option.some.inj h]
    exact ⟨by rw [hmis]; rfl, fun _ => mouseInteractionStateForMouseState_window?,
      fun _ => mouseInteractionStateForMouseState_shortcut?⟩
  · rename_i s hmis
    rw [← Option.some.inj h, hmis]
    exact ⟨rfl, fun w hw => absurd hw (by simp [MouseInteractionState.window?]),
      fun _ hs => Or.inr hs⟩
  · exact absurd h (by simp)

theorem handleLeftClickEnded_steps (hknown : d.ShortcutKnown)
    (h : d.handleLeftClickEnded now = some d') : Steps strict d d' := by
  obtain ⟨e, he, heq⟩ := Option.map_eq_some_iff.mp h
  have hinform : Steps strict d e ∧ e.mouseInteractionState = d.mouseInteractionState ∧
      e.windows = d.windows ∧ e.shortcuts = d.shortcuts := informLeftClickEnded_steps hknown he
  obtain ⟨hsteps, hmis, hwindows, hshortcuts⟩ := hinform
  cases hstate : d.interactionStateAfterLeftClick with
  | none =>
    rw [hstate] at heq
    rw [← heq]
    exact hsteps
  | some state =>
    rw [hstate] at heq
    obtain ⟨henter, hwin, hsc⟩ := interactionStateAfterLeftClick_spec hstate
    rw [← heq]
    refine hsteps.tail (SmallStep.transition e state ?_ ?_ ?_)
    · rw [hwindows, hmis]
      exact hwin
    · rw [hshortcuts, hmis]
      exact hsc
    · rw [hmis]
      exact fun _ => henter

theorem changeFrame_steps (d : Desktop) (e : ElementId) (frame : Rect) :
    Steps strict d (d.changeFrame e frame) := by
  unfold changeFrame queueCompositorUpdatesForOldAndNewElementFrame
  refine (SmallStep.move d e frame).steps.trans ?_
  split
  · exact (Quiet.foldl_queueFullRedraw _ _).steps
  · exact (Quiet.queueFullRedraw _ _).steps

theorem resizeWindow_steps (d : Desktop) (w : ElementId) (relShift : Point) :
    Steps strict d (d.resizeWindow w relShift) := by
  -- the message may as well be sent before the window gets its new frame
  have hswap : d.resizeWindow w relShift =
      (d.sendToOwner w (.windowResized
        ((d.setFrame w (d.resizedFrame w relShift)).contentFrame w).size)).changeFrame w
          (d.resizedFrame w relShift) := rfl
  exact (Quiet.sendToOwner d w rfl).steps.trans (changeFrame_steps _ _ _)

theorem transitionTitleBarHoverStateForWindow_steps (d : Desktop) (w : ElementId) :
    Steps strict d (d.transitionTitleBarHoverStateForWindow w) :=
  (Quiet.transitionToTitleBarHoverStateForWindow d w _).steps

theorem informMouseMoved_steps (d : Desktop) (relShift : Point) :
    Steps strict d (d.informMouseMoved relShift) := by
  unfold informMouseMoved
  split
  · exact (transitionTitleBarHoverStateForWindow_steps d _).trans
      (Quiet.sendToOwner _ _ rfl).steps
  · exact transitionTitleBarHoverStateForWindow_steps d _
  · exact Relation.ReflTransGen.refl
  · exact changeFrame_steps d _ _
  · exact Relation.ReflTransGen.refl

/-- The states in which a movement does not lead to another state. -/
def isPerforming (d : Desktop) : Bool :=
  match d.mouseInteractionState with
  | .performingWindowDrag _ | .mouseDragWithinWindow _ | .performingWindowResize _ => true
  | _ => false

theorem handleMouseMoved_steps (d : Desktop) (relShift : Point)
    (hstrict : strict → d.isPerforming = false → d.mouseInteractionState.entersOwnTitleBar
      (d.mouseInteractionStateForMouseState false) = false) :
    Steps strict d (d.handleMouseMoved relShift) := by
  have hother : d.isPerforming = false → Steps strict d
      ((d.transitionToMouseInteractionState
        (d.mouseInteractionStateForMouseState false)).informMouseMoved relShift) := by
    intro hidle
    exact (transitionForMouseState_step d false (fun hs => hstrict hs hidle)).steps.trans
      (informMouseMoved_steps _ _)
  unfold handleMouseMoved
  unfold isPerforming at hother
  split
  · exact changeFrame_steps d _ _
  · exact (Quiet.sendToOwner d _ rfl).steps
  · exact resizeWindow_steps d _ _
  · rename_i hdrag hwithin hresize
    apply hother
    split
    · rename_i w heq
      exact absurd heq (hdrag w)
    · rename_i w heq
      exact absurd heq (hwithin w)
    · rename_i w heq
      exact absurd heq (hresize w)
    · rfl

theorem handleMouseScrolled_steps (d : Desktop) (deltaZ : ℤ) :
    Steps strict d (d.handleMouseScrolled deltaZ) := by
  unfold handleMouseScrolled
  split
  · exact (Quiet.sendToOwner d _ rfl).steps
  · exact Relation.ReflTransGen.refl

/-- Handling a change of the mouse does not lead from a window into its own title bar. -/
def ChangeAvoidsTitleBar (d : Desktop) : MouseStateChange → Prop
  | .moved _ _ => d.isPerforming = false → d.mouseInteractionState.entersOwnTitleBar
      (d.mouseInteractionStateForMouseState false) = false
  | .leftClickBegan => d.mouseInteractionState.entersOwnTitleBar
      (d.mouseInteractionStateForMouseState true) = false
  | _ => True

/-- **The handlers of the mouse (proved).** -/
theorem handleMouseStateChange_steps {change : MouseStateChange} (hknown : d.ShortcutKnown)
    (hstrict : strict → d.ChangeAvoidsTitleBar change)
    (h : handleMouseStateChange now d change = some d') : Steps strict d d' := by
  cases change with
  | leftClickBegan => exact handleLeftClickBegan_steps h hstrict
  | leftClickEnded => exact handleLeftClickEnded_steps hknown h
  | moved pos relShift =>
    rw [← Option.some.inj h]
    exact handleMouseMoved_steps d relShift hstrict
  | scrolled deltaZ =>
    rw [← Option.some.inj h]
    exact handleMouseScrolled_steps d deltaZ

theorem SmallStep.shortcutKnown (h : SmallStep strict d d') (hd : d.ShortcutKnown) :
    d'.ShortcutKnown := by
  cases h with
  | quiet h =>
    unfold ShortcutKnown
    rw [h.mouseInteractionState, h.shortcuts]
    exact hd
  | recompute rect =>
    unfold ShortcutKnown
    rw [(recompute_sameElements d rect).2.1, (recompute_sameElements d rect).1.shortcuts]
    exact hd
  | move e frame =>
    unfold ShortcutKnown
    rw [(recompute_sameElements _ _).2.1, (recompute_sameElements _ _).1.shortcuts]
    exact hd
  | raise w hw =>
    unfold ShortcutKnown
    rw [(recompute_sameElements _ _).2.1, (recompute_sameElements _ _).1.shortcuts]
    exact hd
  | animation anim h => exact hd
  | transition state hwindow hshortcut hstrict =>
    unfold ShortcutKnown
    rw [(transition_sameElements d state).2, (transition_sameElements d state).1.shortcuts]
    exact fun s hs => (hshortcut s hs).elim id (hd s)

/-- Every change of a packet avoids the title bar, in the state it is handled in. -/
def PacketAvoidsTitleBar (d : Desktop) (now : ℕ) (packet : MousePacket) : Prop :=
  Meets (handleMouseStateChange now) ChangeAvoidsTitleBar (d.mousePacketStart packet).1
    (d.mousePacketStart packet).2

theorem mousePacketStart_quiet (d : Desktop) (packet : MousePacket) :
    Quiet d (d.mousePacketStart packet).1 := by
  have hmouse : Quiet d { d with mouseState := (d.computeStateChanges (d.mouseState.pos +
      ⟨packet.relX, packet.relY⟩) packet.relZ packet.status).1 } := { Quiet.refl d with }
  exact hmouse.trans (Quiet.queueFullRedraw _ _)

theorem handleMousePacket_steps {packet : MousePacket} (hknown : d.ShortcutKnown)
    (hstrict : strict → d.PacketAvoidsTitleBar now packet)
    (h : d.handleMousePacket now packet = some d') : Steps strict d d' := by
  have hstart := mousePacketStart_quiet d packet
  refine hstart.steps.trans ?_
  have hknown' : (d.mousePacketStart packet).1.ShortcutKnown :=
    SmallStep.shortcutKnown (SmallStep.quiet hstart : SmallStep True d _) hknown
  unfold PacketAvoidsTitleBar at hstrict
  unfold handleMousePacket at h
  generalize (d.mousePacketStart packet).1 = e at h hstrict hknown'
  generalize (d.mousePacketStart packet).2 = changes at h hstrict
  induction changes generalizing e with
  | nil => rw [← Option.some.inj h]
  | cons change changes ih =>
    obtain ⟨e', he', hrest⟩ := run_cons_eq_some.mp h
    have hfirst : Steps strict e e' :=
      handleMouseStateChange_steps hknown' (fun hs => (hstrict hs).1) he'
    exact hfirst.trans (ih e'
      (hfirst.invariant (fun _ _ => SmallStep.shortcutKnown) hknown') hrest
      (fun hs => (hstrict hs).2 e' he'))

/-! ### The other messages -/

theorem handleKeyboardEvent_steps {packet : KeyboardPacket}
    (h : d.handleKeyboardEvent packet = some d') : Steps strict d d' := by
  have hmod : Quiet d (d.updateModifiers packet) := by
    unfold updateModifiers
    split
    · exact Quiet.refl d
    · split
      · exact { Quiet.refl d with }
      · exact { Quiet.refl d with }
  refine hmod.steps.trans ?_
  unfold handleKeyboardEvent at h
  generalize d.updateModifiers packet = e at h
  obtain ⟨e', he', rfl⟩ := Option.map_eq_some_iff.mp h
  have hchord : Steps strict e e' := by
    unfold handleChord at he'
    split at he'
    · split at he'
      · split at he'
        · exact moveWindowToTop_steps he'
        · rw [← Option.some.inj he']
      · split at he'
        · split at he'
          · rw [← Option.some.inj he']
            exact (Quiet.sendToOwner e _ rfl).steps
          · rw [← Option.some.inj he']
        · split at he'
          · exact absurd he' (by simp)
          · rw [← Option.some.inj he']
    · rw [← Option.some.inj he']
  refine hchord.trans ?_
  split
  · split
    · exact (Quiet.sendToOwner e' _ rfl).steps
    · exact (Quiet.sendToOwner e' _ rfl).steps
  · exact Relation.ReflTransGen.refl

theorem windowForOwner_spec {owner : String} (h : d.windowForOwner owner = some w) :
    w ∈ d.windows ∧ d.owner w = owner := by
  refine ⟨List.mem_of_find?_eq_some h, ?_⟩
  have howner := List.find?_some h
  exact of_decide_eq_true howner

theorem windowWithId_spec (h : d.windowWithId id = some w) : w ∈ d.windows ∧ w = id :=
  ⟨List.mem_of_find?_eq_some h, by simpa using List.find?_some h⟩

/-- Every window has an entry in the table of elements. -/
def WindowsKnown (d : Desktop) : Prop :=
  ∀ w ∈ d.windows, w ∈ d.compositorState.elementsById

theorem handleWindowRequestedRedraw_steps {owner : String} (hknown : d.WindowsKnown)
    (h : d.handleWindowRequestedRedraw owner = some d') : Steps strict d d' := by
  obtain ⟨w, hw, rfl⟩ := Option.map_eq_some_iff.mp h
  have hmem := hknown w (windowForOwner_spec hw).1
  split
  · exact (Quiet.queueComposite d hmem).steps
  · have hrender : Quiet d { d with
        windowsToRenderRemoteLayersThisCycle :=
          d.windowsToRenderRemoteLayersThisCycle ++ [w] } := { Quiet.refl d with }
    exact (hrender.trans (Quiet.queueComposite _ hmem)).steps

theorem handleWindowUpdatedTitle_steps {owner title : String} (hknown : d.WindowsKnown)
    (h : d.handleWindowUpdatedTitle owner title = some d') : Steps strict d d' := by
  obtain ⟨w, hw, rfl⟩ := Option.map_eq_some_iff.mp h
  have hmem := hknown w (windowForOwner_spec hw).1
  have hmod : Quiet d (d.modifyWindow w fun window => { window with title := some title }) :=
    Quiet.modifyWindow d w (fun _ => rfl)
  exact ((hmod.trans (Quiet.queueExtraDraw _ _ hmem)).trans (Quiet.send _ _ rfl)).steps

theorem handleWindowClose_steps {owner : String} (h : d.handleWindowClose now owner = some d') :
    Steps strict d d' := by
  obtain ⟨w, hw, rfl⟩ := Option.map_eq_some_iff.mp h
  have hknown : d.AnimationKnown (.windowClose
      (animationParams now 200 w (d.frame w) (smallFrameAtBottom d.desktopSize))) :=
    (windowForOwner_spec hw).1
  exact (startAnimation_steps d _ hknown rfl).trans (Quiet.send _ _ rfl).steps

theorem handleDockTaskViewClicked_steps (h : d.handleDockTaskViewClicked now id = some d') :
    Steps strict d d' := by
  obtain ⟨w, hw, h⟩ := Option.bind_eq_some_iff.mp h
  obtain ⟨e, he, rfl⟩ := Option.map_eq_some_iff.mp h
  refine (moveWindowToTop_steps he).trans ?_
  have hmem : w ∈ e.windows := by
    unfold moveWindowToTop at he
    rw [if_pos (windowWithId_spec hw).1] at he
    rw [← Option.some.inj he, (recompute_sameElements _ _).1.windows]
    exact List.mem_cons_self
  split
  · exact startAnimation_steps e _ hmem rfl
  · exact Relation.ReflTransGen.refl

theorem handleMinimizeWindowToDock_steps {frame : Rect}
    (h : d.handleMinimizeWindowToDock now id frame = some d') : Steps strict d d' := by
  obtain ⟨w, hw, rfl⟩ := Option.map_eq_some_iff.mp h
  exact startAnimation_steps d _ (windowWithId_spec hw).1 rfl

/-- The mouse packet of a message, if it is one, avoids the title bar. -/
def MessageAvoidsTitleBar (d : Desktop) (now : ℕ) : Message → Prop
  | .mouse packet => d.PacketAvoidsTitleBar now packet
  | _ => True

/-- **Every handler but the one for new windows is a sequence of small steps (proved).** -/
theorem handleMessage_steps {message : Message} (hsc : d.ShortcutKnown) (hwin : d.WindowsKnown)
    (hmessage : message.opensWindow = false)
    (hstrict : strict → d.MessageAvoidsTitleBar now message)
    (h : d.handleMessage now message = some d') : Steps strict d d' := by
  cases message with
  | mouse packet => exact handleMousePacket_steps hsc hstrict h
  | keyboard packet => exact handleKeyboardEvent_steps h
  | desktopTraitsRequest => rw [← Option.some.inj h]
  | preferencesUpdated =>
    rw [← Option.some.inj h]
    exact (Quiet.queueFullRedraw d _).steps
  | dockTaskViewHovered => rw [← Option.some.inj h]
  | dockTaskViewHoverExited => rw [← Option.some.inj h]
  | dockTaskViewClicked id => exact handleDockTaskViewClicked_steps h
  | dockWindowMinimizeWithInfo id frame => exact handleMinimizeWindowToDock_steps h
  | serviceDied service => exact handleWindowClose_steps h
  | client source message =>
    cases message with
    | createWindow width height => exact absurd hmessage (by simp [Message.opensWindow])
    | windowRedrawReady => exact handleWindowRequestedRedraw_steps hwin h
    | windowPartialRedraw rectCount =>
      have h' : (if rectCount ≤ 64 then some d else none) = some d' := h
      split at h'
      · rw [← Option.some.inj h']
      · exact absurd h' (by simp)
    | windowUpdateTitle title => exact handleWindowUpdatedTitle_steps hwin h
    | closeWindow => exact handleWindowClose_steps h
    | other event => exact absurd h (by simp [handleMessage, handleClientMessage])

end Desktop

end Axle.Awm
