import Axle.Awm.Steps

/-!
# The lists and tables of the desktop agree

A window is in `windows`, in the compositor's list of elements and in its table; a shortcut in
`shortcuts` and in the latter two.  This module has the invariant that ties them together, for
every event of the main loop, in any order.

* `Desktop.WellFormed` — the invariant;
* `SmallStep.wellFormed`, `spawnWindow_wellFormed`, `stepAnimations_wellFormed`,
  `drawFrame_wellFormed`, `boot_wellFormed` — **PROVED**: it holds at the start and is kept;
* `awmNext_wellFormed` — **PROVED**: by every event.
-/

namespace Axle.Awm

open Axle.Agx Axle.Lib.StepRun

namespace Desktop

/-- An animation of a shortcut is about one of the shortcuts, any other one about a window that
exists or has existed. -/
def AnimationTyped (d : Desktop) : Animation → Prop
  | .shortcutSnap p => p.element ∈ d.shortcuts
  | anim => anim.params.element < d.nextDesktopElementId ∧
      d.zIndexCategory anim.params.element ≠ .desktopView

structure WellFormed (d : Desktop) : Prop where
  elements_nodup : d.compositorState.elements.Nodup
  windows_nodup : d.windows.Nodup
  windows_mem : ∀ w ∈ d.windows, w ∈ d.compositorState.elements
  windows_category : ∀ w ∈ d.windows, d.zIndexCategory w ≠ .desktopView
  mem_windows : ∀ e ∈ d.compositorState.elements, d.zIndexCategory e = .window → e ∈ d.windows
  elements_known : ∀ e ∈ d.compositorState.elements, e ∈ d.compositorState.elementsById
  known_elements : ∀ e ∈ d.compositorState.elementsById, e ∈ d.compositorState.elements
  elements_lt : ∀ e ∈ d.compositorState.elements, e < d.nextDesktopElementId
  shortcuts_mem : ∀ s ∈ d.shortcuts, s ∈ d.compositorState.elements
  shortcuts_category : ∀ s ∈ d.shortcuts, d.zIndexCategory s = .desktopView
  composite_known : ∀ e ∈ d.compositorState.elementsToComposite,
    e ∈ d.compositorState.elementsById
  shortcutKnown : d.ShortcutKnown
  slots_positive : ∀ r ∈ d.slots.map DesktopShortcutGridSlot.frame, r.Positive
  animations : ∀ anim ∈ d.ongoingAnimations, d.AnimationTyped anim

variable {strict : Prop} {d d' : Desktop}

theorem WellFormed.windowsKnown (h : d.WellFormed) : d.WindowsKnown :=
  fun w hw => h.elements_known w (h.windows_mem w hw)

variable {e w : ElementId} {now : ℕ} {redraw : Rect}

theorem WellFormed.mem_zSorted (h : d.WellFormed) :
    e ∈ d.zSorted ↔ e ∈ d.compositorState.elements := by
  simp only [zSorted, List.mem_append, List.mem_filter, decide_eq_true_eq]
  constructor
  · rintro (he | he | he)
    · exact he.1
    · exact h.windows_mem e he.1
    · exact he.1
  · intro he
    cases hcat : d.zIndexCategory e with
    | floatingWindow => exact Or.inl ⟨he, rfl⟩
    | window => exact Or.inr (Or.inl ⟨h.mem_windows e he hcat, rfl⟩)
    | desktopView => exact Or.inr (Or.inr ⟨he, rfl⟩)

/-- The three groups of elements have different categories. -/
theorem zSorted_nodup_of (helements : d.compositorState.elements.Nodup)
    (hwindows : d.windows.Nodup) : d.zSorted.Nodup := by
  refine List.nodup_append.mpr ⟨helements.filter _, List.nodup_append.mpr
    ⟨hwindows.filter _, helements.filter _, ?_⟩, ?_⟩
  · intro a ha b hb heq
    have hcat : d.zIndexCategory a = .window := by simpa using (List.mem_filter.mp ha).2
    have hcat' : d.zIndexCategory b = .desktopView := by simpa using (List.mem_filter.mp hb).2
    rw [heq, hcat'] at hcat
    exact absurd hcat (by decide)
  · intro a ha b hb heq
    have hcat : d.zIndexCategory a = .floatingWindow := by simpa using (List.mem_filter.mp ha).2
    have hcat' : d.zIndexCategory b ≠ .floatingWindow := by
      rcases List.mem_append.mp hb with hb | hb
      · rw [show d.zIndexCategory b = .window by simpa using (List.mem_filter.mp hb).2]
        decide
      · rw [show d.zIndexCategory b = .desktopView by simpa using (List.mem_filter.mp hb).2]
        decide
    exact hcat' (heq ▸ hcat)

theorem WellFormed.zSorted_nodup (h : d.WellFormed) : d.zSorted.Nodup :=
  zSorted_nodup_of h.elements_nodup h.windows_nodup

/-! ### Small steps -/

section

variable (h : d.WellFormed)

include h

theorem WellFormed.sameElements (hsame : SameElements d d') (hsc : d'.ShortcutKnown) :
    d'.WellFormed where
  elements_nodup := by
    rw [hsame.elements]
    exact h.elements_nodup
  windows_nodup := by
    rw [hsame.windows]
    exact h.windows_nodup
  windows_mem := by
    rw [hsame.windows, hsame.elements]
    exact h.windows_mem
  windows_category := by
    rw [hsame.windows, hsame.zIndexCategory]
    exact h.windows_category
  mem_windows := by
    rw [hsame.windows, hsame.elements, hsame.zIndexCategory]
    exact h.mem_windows
  elements_known := by
    rw [hsame.elements, hsame.elementsById]
    exact h.elements_known
  known_elements := by
    rw [hsame.elements, hsame.elementsById]
    exact h.known_elements
  elements_lt := by
    rw [hsame.elements, hsame.nextDesktopElementId]
    exact h.elements_lt
  shortcuts_mem := by
    rw [hsame.shortcuts, hsame.elements]
    exact h.shortcuts_mem
  shortcuts_category := by
    rw [hsame.shortcuts, hsame.zIndexCategory]
    exact h.shortcuts_category
  composite_known := by
    intro e he
    rw [hsame.elementsById]
    rcases hsame.elementsToComposite e he with he | he | he
    · exact h.composite_known e he
    · exact he
    · exact h.elements_known e (h.mem_zSorted.mp he)
  shortcutKnown := hsc
  slots_positive := by
    rw [hsame.slotFrames]
    exact h.slots_positive
  animations := by
    intro anim hanim
    rw [hsame.ongoingAnimations] at hanim
    have htyped := h.animations anim hanim
    cases anim with
    | shortcutSnap p =>
      show p.element ∈ d'.shortcuts
      rw [hsame.shortcuts]
      exact htyped
    | windowOpen p | windowClose p | windowMinimize p | windowUnminimize p =>
      show p.element < d'.nextDesktopElementId ∧ d'.zIndexCategory p.element ≠ .desktopView
      rw [hsame.nextDesktopElementId, hsame.zIndexCategory]
      exact htyped

theorem WellFormed.queued (hqueued : Queued d d') : d'.WellFormed := by
  refine h.sameElements hqueued.toSameElements ?_
  unfold ShortcutKnown
  rw [hqueued.mouseInteractionState, hqueued.shortcuts]
  exact h.shortcutKnown

theorem WellFormed.quiet (hquiet : Quiet d d') : d'.WellFormed :=
  h.queued hquiet.toQueued

theorem WellFormed.recompute (rect : Rect) : (d.recomputeDrawableRegionsInRect rect).WellFormed :=
  h.sameElements (recompute_sameElements d rect).1
    (SmallStep.shortcutKnown (SmallStep.recompute d rect : SmallStep True d _) h.shortcutKnown)

theorem WellFormed.setFrame (e : ElementId) (frame : Rect) : (d.setFrame e frame).WellFormed :=
  { h with }

theorem WellFormed.raise (hw : w ∈ d.windows) :
    ({ d with windows := w :: d.windows.erase w } : Desktop).WellFormed := by
  have hmem : ∀ x, x ∈ w :: d.windows.erase w ↔ x ∈ d.windows :=
    fun x => (List.perm_cons_erase hw).mem_iff.symm
  exact
    { h with
      windows_nodup := (List.perm_cons_erase hw).nodup_iff.mp h.windows_nodup
      windows_mem := fun x hx => h.windows_mem x ((hmem x).mp hx)
      windows_category := fun x hx => h.windows_category x ((hmem x).mp hx)
      mem_windows := fun x hx hcat => (hmem x).mpr (h.mem_windows x hx hcat) }

theorem WellFormed.animationTyped {anim : Animation} (hknown : d.AnimationKnown anim) :
    d.AnimationTyped anim := by
  cases anim with
  | shortcutSnap p => exact hknown
  | windowOpen p | windowClose p | windowMinimize p | windowUnminimize p =>
    exact ⟨h.elements_lt _ (h.windows_mem _ hknown), h.windows_category _ hknown⟩

end

theorem SmallStep.wellFormed (hstep : SmallStep strict d d') (h : d.WellFormed) :
    d'.WellFormed := by
  have hsc := hstep.shortcutKnown h.shortcutKnown
  cases hstep with
  | quiet hquiet => exact h.quiet hquiet
  | recompute rect => exact h.recompute rect
  | move e frame => exact (h.setFrame e frame).recompute _
  | raise w hw => exact (h.raise hw).recompute _
  | animation anim hknown =>
    exact
      { h with
        animations := by
          intro a ha
          rcases List.mem_append.mp ha with ha | ha
          · exact h.animations a ha
          · rw [List.mem_singleton.mp ha]
            exact h.animationTyped hknown }
  | transition state hwindow hshortcut hstrict =>
    exact h.sameElements (transition_sameElements d state).1 hsc

theorem Steps.wellFormed (hsteps : Steps strict d d') (h : d.WellFormed) : d'.WellFormed :=
  hsteps.invariant (fun _ _ hstep => hstep.wellFormed) h

/-! ### New elements -/

theorem WellFormed.addElement (h : d.WellFormed) (frame : Rect) (category : ZIndexCategory) :
    (d.addElement frame category).WellFormed := by
  have hcat : ∀ e, e < d.nextDesktopElementId →
      (d.addElement frame category).zIndexCategory e = d.zIndexCategory e :=
    fun e he => Function.update_of_ne he.ne _ _
  have hlt : ∀ {e}, e ∈ d.compositorState.elements → e < d.nextDesktopElementId :=
    fun he => h.elements_lt _ he
  exact
    { h with
      windows_category := by
        intro w hw
        rw [hcat w (hlt (h.windows_mem w hw))]
        exact h.windows_category w hw
      mem_windows := by
        intro e he hwin
        rw [hcat e (hlt he)] at hwin
        exact h.mem_windows e he hwin
      elements_lt := fun e he => (hlt he).trans (Nat.lt_succ_self _)
      shortcuts_category := by
        intro s hs
        rw [hcat s (hlt (h.shortcuts_mem s hs))]
        exact h.shortcuts_category s hs
      animations := by
        intro anim hanim
        have htyped := h.animations anim hanim
        cases anim with
        | shortcutSnap p => exact htyped
        | windowOpen p | windowClose p | windowMinimize p | windowUnminimize p =>
          refine ⟨htyped.1.trans (Nat.lt_succ_self _), ?_⟩
          rw [hcat _ htyped.1]
          exact htyped.2 }

theorem WellFormed.not_mem_next (h : d.WellFormed) :
    d.nextDesktopElementId ∉ d.compositorState.elements :=
  fun hin => lt_irrefl _ (h.elements_lt _ hin)

theorem insertWindow_wellFormed (h : d.WellFormed) (source : String) (windowFrame : Rect) :
    (d.insertWindow source windowFrame).WellFormed := by
  have hadd := h.addElement windowFrame (windowParamsFor source).zIndexCategory
  have hnew : d.nextDesktopElementId ∉ d.compositorState.elements := h.not_mem_next
  have hparams : (windowParamsFor source).zIndexCategory ≠ .desktopView := by
    unfold windowParamsFor
    split
    · decide
    · split <;> decide
  have hcat : (d.insertWindow source windowFrame).zIndexCategory d.nextDesktopElementId =
      (windowParamsFor source).zIndexCategory := Function.update_self _ _ _
  exact
    { elements_nodup := by
        refine List.nodup_append.mpr ⟨h.elements_nodup, List.nodup_singleton _, ?_⟩
        intro a ha b hb heq
        rw [List.mem_singleton.mp hb] at heq
        exact hnew (heq ▸ ha)
      windows_nodup := List.nodup_cons.mpr
        ⟨fun hin => hnew (h.windows_mem _ hin), h.windows_nodup⟩
      windows_mem := by
        intro w hw
        rcases List.mem_cons.mp hw with rfl | hw
        · exact List.mem_append_right _ List.mem_cons_self
        · exact List.mem_append_left _ (h.windows_mem w hw)
      windows_category := by
        intro w hw
        rcases List.mem_cons.mp hw with rfl | hw
        · rw [hcat]
          exact hparams
        · exact hadd.windows_category w hw
      mem_windows := by
        intro e he hwin
        rcases List.mem_append.mp he with he | he
        · exact List.mem_cons_of_mem _ (hadd.mem_windows e he hwin)
        · rw [List.mem_singleton.mp he]
          exact List.mem_cons_self
      elements_known := by
        intro e he
        refine mem_btreeInsert.mpr ?_
        rcases List.mem_append.mp he with he | he
        · exact Or.inr (h.elements_known e he)
        · exact Or.inl (List.mem_singleton.mp he)
      known_elements := by
        intro e he
        rcases mem_btreeInsert.mp he with rfl | he
        · exact List.mem_append_right _ List.mem_cons_self
        · exact List.mem_append_left _ (h.known_elements e he)
      elements_lt := by
        intro e he
        rcases List.mem_append.mp he with he | he
        · exact hadd.elements_lt e he
        · rw [List.mem_singleton.mp he]
          exact Nat.lt_succ_self _
      shortcuts_mem := fun s hs => List.mem_append_left _ (h.shortcuts_mem s hs)
      shortcuts_category := hadd.shortcuts_category
      composite_known := fun e he => mem_btreeInsert.mpr (Or.inr (h.composite_known e he))
      shortcutKnown := h.shortcutKnown
      slots_positive := h.slots_positive
      animations := hadd.animations }

theorem informDockWindowCreated_quiet (d : Desktop) (source : String) (id : ElementId) :
    Quiet d (d.informDockWindowCreated source id) := by
  unfold informDockWindowCreated
  split
  · exact Quiet.send d _ rfl
  · exact Quiet.refl d

theorem insertWindow_startAnimation_wellFormed (h : d.WellFormed) (now : ℕ) (source : String)
    (windowFrame : Rect) :
    ((d.insertWindow source windowFrame).startAnimation
      (.windowOpen (animationParams now 200 d.nextDesktopElementId
        (d.openFrames source windowFrame).1 (d.openFrames source windowFrame).2))).WellFormed := by
  have hins := insertWindow_wellFormed h source windowFrame
  have hframe := hins.setFrame d.nextDesktopElementId (d.openFrames source windowFrame).1
  exact
    { hframe with
      animations := by
        intro anim hanim
        rcases List.mem_append.mp hanim with hanim | hanim
        · exact hins.animations anim hanim
        · rw [List.mem_singleton.mp hanim]
          refine ⟨Nat.lt_succ_self _, ?_⟩
          exact hins.windows_category _ List.mem_cons_self }

theorem spawnWindow_wellFormed (h : d.WellFormed) (now : ℕ) (source : String)
    (contentSize : Size) (origin : Option Point) (animated : Bool) :
    (d.spawnWindow now source contentSize origin animated).WellFormed := by
  unfold spawnWindow
  refine WellFormed.quiet ?_ (informDockWindowCreated_quiet _ _ _)
  split
  · exact (insertWindow_wellFormed h source _).recompute _
  · exact insertWindow_startAnimation_wellFormed h now source _

theorem handleMessage_opensWindow {message : Message} (hopens : message.opensWindow = true)
    (h : d.handleMessage now message = some d') :
    ∃ (source : String) (width height : ℕ), message = .client source (.createWindow width height) ∧
      d' = d.spawnWindow now source ⟨width, height⟩ none true := by
  cases message with
  | client source message =>
    cases message with
    | createWindow width height => exact ⟨source, width, height, rfl, (Option.some.inj h).symm⟩
    | windowRedrawReady | windowPartialRedraw _ | windowUpdateTitle _ | closeWindow | other _ =>
      exact absurd hopens (by simp [Message.opensWindow])
  | mouse _ | keyboard _ | desktopTraitsRequest | preferencesUpdated | dockTaskViewHovered
  | dockTaskViewHoverExited | dockTaskViewClicked _ | dockWindowMinimizeWithInfo _ _
  | serviceDied _ => exact absurd hopens (by simp [Message.opensWindow])

/-! ### The end of a window -/

/-- Out of `windows`, then out of the compositor's lists; in between only transitions. -/
theorem removeElement_wellFormed {e : Desktop} (h : d.WellFormed)
    (hcat : d.zIndexCategory w ≠ .desktopView) (hsame : SameElements (d.removeWindow w) e)
    (hsc : e.ShortcutKnown) : (e.removeElement w).WellFormed := by
  have hwindows : e.windows = d.windows.filter (· ≠ w) := hsame.windows
  have helements : (e.removeElement w).compositorState.elements =
      d.compositorState.elements.filter (· ≠ w) := by
    show e.compositorState.elements.filter (· ≠ w) = _
    rw [hsame.elements]
    rfl
  have hbyId : (e.removeElement w).compositorState.elementsById =
      d.compositorState.elementsById.filter (· ≠ w) := by
    show e.compositorState.elementsById.filter (· ≠ w) = _
    rw [hsame.elementsById]
    rfl
  have hzcat : (e.removeElement w).zIndexCategory = d.zIndexCategory := hsame.zIndexCategory
  have hnext : (e.removeElement w).nextDesktopElementId = d.nextDesktopElementId :=
    hsame.nextDesktopElementId
  have hshortcuts : (e.removeElement w).shortcuts = d.shortcuts := hsame.shortcuts
  have hkeep : ∀ {l : List ElementId} {x : ElementId}, x ∈ l.filter (· ≠ w) ↔ x ∈ l ∧ x ≠ w := by
    simp [List.mem_filter]
  exact
    { elements_nodup := by
        rw [helements]
        exact h.elements_nodup.filter _
      windows_nodup := by
        show e.windows.Nodup
        rw [hwindows]
        exact h.windows_nodup.filter _
      windows_mem := by
        intro x hx
        change x ∈ e.windows at hx
        rw [hwindows, hkeep] at hx
        rw [helements, hkeep]
        exact ⟨h.windows_mem x hx.1, hx.2⟩
      windows_category := by
        intro x hx
        change x ∈ e.windows at hx
        rw [hwindows, hkeep] at hx
        rw [hzcat]
        exact h.windows_category x hx.1
      mem_windows := by
        intro x hx hwin
        show x ∈ e.windows
        rw [helements, hkeep] at hx
        rw [hzcat] at hwin
        rw [hwindows, hkeep]
        exact ⟨h.mem_windows x hx.1 hwin, hx.2⟩
      elements_known := by
        intro x hx
        rw [helements, hkeep] at hx
        rw [hbyId, hkeep]
        exact ⟨h.elements_known x hx.1, hx.2⟩
      known_elements := by
        intro x hx
        rw [hbyId, hkeep] at hx
        rw [helements, hkeep]
        exact ⟨h.known_elements x hx.1, hx.2⟩
      elements_lt := by
        intro x hx
        rw [helements, hkeep] at hx
        rw [hnext]
        exact h.elements_lt x hx.1
      shortcuts_mem := by
        intro x hx
        rw [hshortcuts] at hx
        rw [helements, hkeep]
        refine ⟨h.shortcuts_mem x hx, ?_⟩
        rintro rfl
        exact hcat (h.shortcuts_category x hx)
      shortcuts_category := by
        rw [hshortcuts, hzcat]
        exact h.shortcuts_category
      composite_known := by
        intro x hx
        obtain ⟨hx, hne⟩ := hkeep.mp hx
        rw [hbyId, hkeep]
        refine ⟨?_, hne⟩
        rcases hsame.elementsToComposite x hx with hx | hx | hx
        · exact h.composite_known x hx
        · exact hx
        · simp only [zSorted, List.mem_append, List.mem_filter] at hx
          rcases hx with hx | hx | hx
          · exact h.elements_known x hx.1
          · exact h.windowsKnown x (List.mem_filter.mp hx.1).1
          · exact h.elements_known x hx.1
      shortcutKnown := hsc
      slots_positive := by
        have hframes : e.slots.map DesktopShortcutGridSlot.frame =
            d.slots.map DesktopShortcutGridSlot.frame := hsame.slotFrames
        intro r hr
        exact h.slots_positive r (hframes ▸ hr)
      animations := by
        intro anim hanim
        have hin : anim ∈ d.ongoingAnimations := by
          have hsame' : e.ongoingAnimations = d.ongoingAnimations := hsame.ongoingAnimations
          exact hsame' ▸ hanim
        have htyped := h.animations anim hin
        cases anim with
        | shortcutSnap p =>
          show p.element ∈ (e.removeElement w).shortcuts
          rw [hshortcuts]
          exact htyped
        | windowOpen p | windowClose p | windowMinimize p | windowUnminimize p =>
          refine ⟨?_, ?_⟩
          · rw [hnext]
            exact htyped.1
          · rw [hzcat]
            exact htyped.2 }

theorem leaveWindow_sameElements (d : Desktop) (w : ElementId) :
    SameElements (d.removeWindow w) (d.leaveWindow w) ∧
    (d.leaveWindow w).mouseInteractionState =
      (d.removeWindow w).mouseInteractionStateForMouseState false := by
  obtain ⟨hsame, hmis⟩ := transition_sameElements (d.removeWindow w)
    ((d.removeWindow w).mouseInteractionStateForMouseState false)
  exact ⟨hsame.trans { SameElements.refl _ with }, hmis⟩

theorem leaveWindow_shortcutKnown (hsc : d.ShortcutKnown) : (d.leaveWindow w).ShortcutKnown := by
  obtain ⟨hsame, hmis⟩ := leaveWindow_sameElements d w
  intro s hs
  rw [hmis] at hs
  have hshortcuts : (d.leaveWindow w).shortcuts = d.shortcuts := hsame.shortcuts
  rw [hshortcuts]
  exact (mouseInteractionStateForMouseState_shortcut? hs).elim id (hsc s)

theorem dropWindow_wellFormed (h : d.WellFormed) (hcat : d.zIndexCategory w ≠ .desktopView) :
    (d.dropWindow w).WellFormed :=
  WellFormed.quiet (WellFormed.recompute (removeElement_wellFormed h hcat
    (leaveWindow_sameElements d w).1 (leaveWindow_shortcutKnown h.shortcutKnown)) _)
    (Quiet.queueFullRedraw _ _)

/-- What is left of a desktop when a window is dropped. -/
structure Dropped (d : Desktop) (w : ElementId) (d' : Desktop) : Prop where
  desktopSize : d'.desktopSize = d.desktopSize
  frame : d'.frame = d.frame
  zIndexCategory : d'.zIndexCategory = d.zIndexCategory
  windows : d'.windows = d.windows.filter (· ≠ w)
  elements : d'.compositorState.elements = d.compositorState.elements.filter (· ≠ w)
  elementsById : d'.compositorState.elementsById = d.compositorState.elementsById.filter (· ≠ w)
  shortcuts : d'.shortcuts = d.shortcuts
  nextDesktopElementId : d'.nextDesktopElementId = d.nextDesktopElementId
  ongoingAnimations : d'.ongoingAnimations = d.ongoingAnimations
  owner : d'.owner = d.owner
  mouseInteractionState : d'.mouseInteractionState =
    (d.removeWindow w).mouseInteractionStateForMouseState false

theorem dropWindow_dropped (d : Desktop) (w : ElementId) : Dropped d w (d.dropWindow w) := by
  obtain ⟨hleave, hmis⟩ := leaveWindow_sameElements d w
  have hrec := recompute_sameElements ((d.leaveWindow w).removeElement w)
    (((d.leaveWindow w).removeElement w).frame w)
  have hqueue := Quiet.queueFullRedraw
    (((d.leaveWindow w).removeElement w).recomputeDrawableRegionsInRect
      (((d.leaveWindow w).removeElement w).frame w)) (((d.leaveWindow w).removeElement w).frame w)
  have htail := hrec.1.trans hqueue.toSameElements
  exact
    { desktopSize := htail.desktopSize.trans hleave.desktopSize
      frame := htail.frame.trans hleave.frame
      zIndexCategory := htail.zIndexCategory.trans hleave.zIndexCategory
      windows := htail.windows.trans hleave.windows
      elements := htail.elements.trans (congrArg (List.filter (· ≠ w)) hleave.elements)
      elementsById := htail.elementsById.trans
        (congrArg (List.filter (· ≠ w)) hleave.elementsById)
      shortcuts := htail.shortcuts.trans hleave.shortcuts
      nextDesktopElementId := htail.nextDesktopElementId.trans hleave.nextDesktopElementId
      ongoingAnimations := htail.ongoingAnimations.trans hleave.ongoingAnimations
      owner := htail.owner.trans hleave.owner
      mouseInteractionState := (hqueue.mouseInteractionState.trans hrec.2.1).trans hmis }

/-! ### Animations -/

/-- Frames do not matter here. -/
theorem stepEach_wellFormed (lerp : Lerp) (now : ℕ) (anims : List Animation) :
    ∀ d : Desktop, d.WellFormed → (stepEach lerp now anims d).1.WellFormed := by
  induction anims with
  | nil => exact fun d h => h
  | cons anim rest ih =>
    intro d h
    exact ih _ ((h.setFrame _ _).quiet (Quiet.queueFullRedraw _ _))

theorem foldl_recompute_wellFormed (rects : List Rect) :
    ∀ d : Desktop, d.WellFormed → (rects.foldl recomputeDrawableRegionsInRect d).WellFormed := by
  induction rects with
  | nil => exact fun d h => h
  | cons r rects ih => exact fun d h => ih _ (h.recompute r)

theorem animate_wellFormed (h : d.WellFormed) (lerp : Lerp) (now : ℕ) :
    (d.animate lerp now).WellFormed :=
  foldl_recompute_wellFormed _ _ (stepEach_wellFormed lerp now _ d h)

/-- The windows, what the mouse is doing and what has been said about it are as before. -/
structure SameMouse (d d' : Desktop) : Prop where
  windows : d'.windows = d.windows
  mouseInteractionState : d'.mouseInteractionState = d.mouseInteractionState
  owner : d'.owner = d.owner
  hoverSent : d'.hoverSent = d.hoverSent
  nextDesktopElementId : d'.nextDesktopElementId = d.nextDesktopElementId

theorem SameMouse.refl (d : Desktop) : SameMouse d d := ⟨rfl, rfl, rfl, rfl, rfl⟩

theorem SameMouse.trans {d'' : Desktop} (h : SameMouse d d') (h' : SameMouse d' d'') :
    SameMouse d d'' :=
  ⟨h'.windows.trans h.windows, h'.mouseInteractionState.trans h.mouseInteractionState,
    h'.owner.trans h.owner, h'.hoverSent.trans h.hoverSent,
    h'.nextDesktopElementId.trans h.nextDesktopElementId⟩

theorem Queued.sameMouse (h : Queued d d') : SameMouse d d' :=
  ⟨h.windows, h.mouseInteractionState, h.owner, h.hoverSent, h.nextDesktopElementId⟩

theorem recompute_sameMouse (d : Desktop) (rect : Rect) :
    SameMouse d (d.recomputeDrawableRegionsInRect rect) :=
  ⟨(recompute_sameElements d rect).1.windows, (recompute_sameElements d rect).2.1,
    (recompute_sameElements d rect).1.owner, (recompute_sameElements d rect).2.2,
    (recompute_sameElements d rect).1.nextDesktopElementId⟩

theorem stepEach_sameMouse (lerp : Lerp) (now : ℕ) (anims : List Animation) :
    ∀ d : Desktop, SameMouse d (stepEach lerp now anims d).1 := by
  induction anims with
  | nil => exact SameMouse.refl
  | cons anim rest ih =>
    intro d
    have hset : SameMouse d
        (d.setFrame anim.params.element (animatedFrame lerp now anim.params)) :=
      ⟨rfl, rfl, rfl, rfl, rfl⟩
    exact (hset.trans (Quiet.queueFullRedraw _ _).sameMouse).trans (ih _)

theorem foldl_recompute_sameMouse (rects : List Rect) :
    ∀ d : Desktop, SameMouse d (rects.foldl recomputeDrawableRegionsInRect d) := by
  induction rects with
  | nil => exact SameMouse.refl
  | cons r rects ih => exact fun d => (recompute_sameMouse d r).trans (ih _)

theorem animate_sameMouse (lerp : Lerp) (now : ℕ) (d : Desktop) :
    SameMouse d (d.animate lerp now) :=
  (stepEach_sameMouse lerp now _ d).trans (foldl_recompute_sameMouse _ _)

theorem foldl_dropWindow_wellFormed (ws : List ElementId) :
    ∀ d : Desktop, d.WellFormed → (∀ w ∈ ws, d.zIndexCategory w ≠ .desktopView) →
      (ws.foldl dropWindow d).WellFormed := by
  induction ws with
  | nil => exact fun d h _ => h
  | cons w ws ih =>
    intro d h hcat
    refine ih _ (dropWindow_wellFormed h (hcat w List.mem_cons_self)) ?_
    intro x hx
    rw [(dropWindow_dropped d w).zIndexCategory]
    exact hcat x (List.mem_cons_of_mem _ hx)

theorem mem_windowsToDrop (h : w ∈ d.windowsToDrop now) :
    ∃ p, Animation.windowClose p ∈ d.ongoingAnimations ∧ p.element = w := by
  obtain ⟨anim, hanim, heq⟩ := List.mem_filterMap.mp h
  split at heq
  · cases anim with
    | windowClose p => exact ⟨p, hanim, Option.some.inj heq⟩
    | windowOpen p | windowMinimize p | windowUnminimize p | shortcutSnap p =>
      exact absurd heq (by simp)
  · exact absurd heq (by simp)

theorem mem_shortcutsToRefresh {s : ElementId} (h : s ∈ d.shortcutsToRefresh now) :
    ∃ p, Animation.shortcutSnap p ∈ d.ongoingAnimations ∧ p.element = s := by
  obtain ⟨anim, hanim, heq⟩ := List.mem_filterMap.mp h
  split at heq
  · cases anim with
    | shortcutSnap p => exact ⟨p, hanim, Option.some.inj heq⟩
    | windowOpen p | windowMinimize p | windowUnminimize p | windowClose p =>
      exact absurd heq (by simp)
  · exact absurd heq (by simp)

theorem WellFormed.windowsToDrop_category (h : d.WellFormed) :
    ∀ w ∈ d.windowsToDrop now, d.zIndexCategory w ≠ .desktopView := by
  intro w hw
  obtain ⟨p, hp, rfl⟩ := mem_windowsToDrop hw
  exact (h.animations _ hp).2

theorem Quiet.foldl_queueComposite (es : List ElementId) :
    ∀ d : Desktop, (∀ e ∈ es, e ∈ d.compositorState.elementsById) →
      Quiet d (es.foldl Desktop.queueComposite d) := by
  induction es with
  | nil => exact fun d _ => Quiet.refl d
  | cons e es ih =>
    intro d hes
    exact (Quiet.queueComposite d (hes e List.mem_cons_self)).trans
      (ih _ (fun x hx => hes x (List.mem_cons_of_mem _ hx)))

theorem Quiet.finishAnimation (d : Desktop) (anim : Animation) :
    Quiet d (d.finishAnimation anim) := by
  cases anim with
  | windowUnminimize p =>
    show Quiet d (d.modifyWindow p.element fun window => { window with unminimizedFrame := none })
    exact Quiet.modifyWindow d _ (fun _ => rfl)
  | windowOpen p | windowMinimize p | windowClose p | shortcutSnap p => exact Quiet.refl d

theorem Quiet.foldl_finishAnimation (anims : List Animation) :
    ∀ d : Desktop, Quiet d (anims.foldl Desktop.finishAnimation d) := by
  induction anims with
  | nil => exact Quiet.refl
  | cons anim anims ih => exact fun d => (Quiet.finishAnimation d anim).trans (ih _)

section

variable (h : d.WellFormed)

include h

/-- The end of the step is quiet, apart from the animations that are taken off the list. -/
theorem finishAnimations_eq (now : ℕ) : ∃ e, Quiet d e ∧
    d.finishAnimations now =
      { e with ongoingAnimations := d.ongoingAnimations.filter fun a => !a.isComplete now } := by
  have hknown : ∀ s ∈ d.shortcutsToRefresh now, s ∈ d.compositorState.elementsById := by
    intro s hs
    obtain ⟨p, hp, rfl⟩ := mem_shortcutsToRefresh hs
    exact h.elements_known _ (h.shortcuts_mem _ (h.animations _ hp))
  have hqueue := Quiet.foldl_queueComposite (d.shortcutsToRefresh now) d hknown
  have hquiet := hqueue.trans (Quiet.foldl_finishAnimation
    (((d.shortcutsToRefresh now).foldl Desktop.queueComposite d).ongoingAnimations.filter
      fun anim => anim.isComplete now) _)
  refine ⟨_, hquiet, ?_⟩
  unfold finishAnimations
  dsimp only
  rw [hquiet.ongoingAnimations]

theorem finishAnimations_sameMouse (now : ℕ) : SameMouse d (d.finishAnimations now) := by
  obtain ⟨e, hquiet, heq⟩ := finishAnimations_eq h now
  rw [heq]
  exact hquiet.sameMouse.trans ⟨rfl, rfl, rfl, rfl, rfl⟩

theorem finishAnimations_wellFormed (now : ℕ) : (d.finishAnimations now).WellFormed := by
  obtain ⟨e, hquiet, heq⟩ := finishAnimations_eq h now
  have he := h.quiet hquiet
  rw [heq]
  exact
    { he with
      animations := by
        intro anim hanim
        have hin : anim ∈ e.ongoingAnimations := by
          rw [hquiet.ongoingAnimations]
          exact (List.mem_filter.mp hanim).1
        exact he.animations anim hin }

theorem stepAnimations_wellFormed (lerp : Lerp) (now : ℕ) :
    (d.stepAnimations lerp now).WellFormed := by
  unfold stepAnimations
  split
  · exact h
  · have hanim := animate_wellFormed h lerp now
    exact finishAnimations_wellFormed
      (foldl_dropWindow_wellFormed _ _ hanim hanim.windowsToDrop_category) now

end

/-! ### Drawing -/

/-- Elements that are drawn must be in the table. -/
theorem extraDrawsOfElement_quiet (rects : List Rect) :
    ∀ {d : Desktop} {undrawn : List Rect} {out : Bool × Desktop × List Rect},
      e ∈ d.compositorState.elementsById →
      extraDrawsOfElement redraw e rects d undrawn = some out → Quiet d out.2.1 := by
  induction rects with
  | nil =>
    intro d undrawn out _ h
    rw [← Option.some.inj h]
    exact Quiet.refl d
  | cons visible rest ih =>
    intro d undrawn out hknown h
    rw [extraDrawsOfElement] at h
    split at h
    · exact ih hknown h
    · split at h
      · rw [← Option.some.inj h]
        exact Quiet.queueExtraDraw d _ hknown
      · split at h
        · exact absurd h (by simp)
        · rename_i intersection _
          have hquiet := Quiet.queueExtraDraw d intersection hknown
          exact hquiet.trans (ih (hquiet.elementsById ▸ hknown) h)

theorem extraDrawsOfElements_quiet (es : List ElementId) :
    ∀ {d : Desktop} {undrawn : List Rect} {out : Desktop × List Rect},
      (∀ e ∈ es, e ∈ d.compositorState.elementsById) →
      extraDrawsOfElements redraw es d undrawn = some out → Quiet d out.1 := by
  induction es with
  | nil =>
    intro d undrawn out _ h
    rw [← Option.some.inj h]
    exact Quiet.refl d
  | cons e rest ih =>
    intro d undrawn out hknown h
    have hrest : ∀ x ∈ rest, x ∈ d.compositorState.elementsById :=
      fun x hx => hknown x (List.mem_cons_of_mem _ hx)
    rw [extraDrawsOfElements] at h
    split at h
    · exact ih hrest h
    · split at h
      · exact absurd h (by simp)
      · rename_i e' undrawn' heq
        rw [← Option.some.inj h]
        exact extraDrawsOfElement_quiet _ (hknown e List.mem_cons_self) heq
      · rename_i e' undrawn' heq
        have hquiet : Quiet d e' :=
          extraDrawsOfElement_quiet _ (hknown e List.mem_cons_self) heq
        exact hquiet.trans (ih (fun x hx => hquiet.elementsById ▸ hrest x hx) h)

theorem Queued.foldl_queueExtraBackgroundDraw (rects : List Rect) :
    ∀ d : Desktop, Queued d (rects.foldl Desktop.queueExtraBackgroundDraw d) := by
  induction rects with
  | nil => exact Queued.refl
  | cons r rects ih =>
    intro d
    refine Queued.trans ?_ (ih _)
    unfold Desktop.queueExtraBackgroundDraw
    dsimp only
    split
    · exact Queued.refl d
    · exact { Queued.refl d with }

theorem extraDrawsOfRect_queued (h : d.WellFormed) (hdraw : d.extraDrawsOfRect redraw = some d') :
    Queued d d' := by
  obtain ⟨out, hout, rfl⟩ := Option.map_eq_some_iff.mp hdraw
  exact (extraDrawsOfElements_quiet _ h.elements_known hout).toQueued.trans
    (Queued.foldl_queueExtraBackgroundDraw _ _)

theorem computeExtraDraws_queued (h : d.WellFormed)
    (hdraw : d.computeExtraDrawsFromTotalUpdateRects = some d') : Queued d d' := by
  unfold computeExtraDrawsFromTotalUpdateRects at hdraw
  generalize d.compositorState.rectsToFullyRedraw = rects at hdraw
  induction rects generalizing d with
  | nil =>
    rw [← Option.some.inj hdraw]
    exact Queued.refl d
  | cons r rects ih =>
    obtain ⟨e, he, hrest⟩ := run_cons_eq_some.mp hdraw
    have hqueued := extraDrawsOfRect_queued h he
    exact hqueued.trans (ih (h.queued hqueued) hrest)

theorem drawFrame_queued (h : d.WellFormed) (hdraw : d.drawFrame = some d') : Queued d d' := by
  unfold drawFrame at hdraw
  split at hdraw
  · rw [← Option.some.inj hdraw]
    exact { Queued.refl d with
      elementsToComposite := fun e he => absurd he List.not_mem_nil
      extraDrawIds := fun e he => absurd he List.not_mem_nil }
  · obtain ⟨e, he, hrest⟩ := Option.bind_eq_some_iff.mp hdraw
    have hfetch : Queued d { d with windowsToRenderRemoteLayersThisCycle := [] } :=
      { Queued.refl d with }
    have hqueued := hfetch.trans (computeExtraDraws_queued (h.queued hfetch) he)
    split at hrest
    · rw [← Option.some.inj hrest]
      exact { hqueued with
        elementsToComposite := fun e he => absurd he List.not_mem_nil
        extraDrawIds := fun e he => absurd he List.not_mem_nil }
    · exact absurd hrest (by simp)

/-! ### The start -/

theorem gridSlots_positive (desktopSize : Size) :
    ∀ r ∈ (gridSlots desktopSize).map DesktopShortcutGridSlot.frame, r.Positive := by
  intro r hr
  obtain ⟨slot, hslot, rfl⟩ := List.mem_map.mp hr
  obtain ⟨column, -, hslot⟩ := List.mem_flatMap.mp hslot
  obtain ⟨row, -, rfl⟩ := List.mem_map.mp hslot
  show 0 < gridSlotSize.width ∧ 0 < gridSlotSize.height
  decide

theorem new_wellFormed (desktopSize : Size) (images : WindowDecorationImages) :
    (Desktop.new desktopSize images).WellFormed where
  elements_nodup := List.nodup_nil
  windows_nodup := List.nodup_nil
  windows_mem := fun w hw => absurd hw List.not_mem_nil
  windows_category := fun w hw => absurd hw List.not_mem_nil
  mem_windows := fun e he => absurd he List.not_mem_nil
  elements_known := fun e he => absurd he List.not_mem_nil
  known_elements := fun e he => absurd he List.not_mem_nil
  elements_lt := fun e he => absurd he List.not_mem_nil
  shortcuts_mem := fun s hs => absurd hs List.not_mem_nil
  shortcuts_category := fun s hs => absurd hs List.not_mem_nil
  composite_known := fun e he => absurd he List.not_mem_nil
  shortcutKnown := fun s hs => absurd hs (by simp [Desktop.new, MouseInteractionState.shortcut?])
  slots_positive := gridSlots_positive desktopSize
  animations := fun anim hanim => absurd hanim List.not_mem_nil

theorem insertShortcut_wellFormed (h : d.WellFormed) (line : ShortcutLine)
    (slot : DesktopShortcutGridSlot) : (d.insertShortcut line slot).WellFormed := by
  have hadd := h.addElement (shortcutFrame slot) .desktopView
  have hnew : d.nextDesktopElementId ∉ d.compositorState.elements := h.not_mem_next
  have hcat : (d.insertShortcut line slot).zIndexCategory d.nextDesktopElementId = .desktopView :=
    Function.update_self _ _ _
  exact
    { elements_nodup := by
        refine List.nodup_append.mpr ⟨h.elements_nodup, List.nodup_singleton _, ?_⟩
        intro a ha b hb heq
        rw [List.mem_singleton.mp hb] at heq
        exact hnew (heq ▸ ha)
      windows_nodup := h.windows_nodup
      windows_mem := fun w hw => List.mem_append_left _ (h.windows_mem w hw)
      windows_category := hadd.windows_category
      mem_windows := by
        intro e he hwin
        rcases List.mem_append.mp he with he | he
        · exact hadd.mem_windows e he hwin
        · rw [List.mem_singleton.mp he, hcat] at hwin
          exact absurd hwin (by decide)
      elements_known := by
        intro e he
        refine mem_btreeInsert.mpr ?_
        rcases List.mem_append.mp he with he | he
        · exact Or.inr (h.elements_known e he)
        · exact Or.inl (List.mem_singleton.mp he)
      known_elements := by
        intro e he
        rcases mem_btreeInsert.mp he with rfl | he
        · exact List.mem_append_right _ List.mem_cons_self
        · exact List.mem_append_left _ (h.known_elements e he)
      elements_lt := by
        intro e he
        rcases List.mem_append.mp he with he | he
        · exact hadd.elements_lt e he
        · rw [List.mem_singleton.mp he]
          exact Nat.lt_succ_self _
      shortcuts_mem := by
        intro s hs
        rcases List.mem_append.mp hs with hs | hs
        · exact List.mem_append_left _ (h.shortcuts_mem s hs)
        · exact List.mem_append_right _ hs
      shortcuts_category := by
        intro s hs
        rcases List.mem_append.mp hs with hs | hs
        · exact hadd.shortcuts_category s hs
        · rw [List.mem_singleton.mp hs]
          exact hcat
      composite_known := fun e he => mem_btreeInsert.mpr (Or.inr (h.composite_known e he))
      shortcutKnown := fun s hs => List.mem_append_left _ (h.shortcutKnown s hs)
      slots_positive := by
        intro r hr
        exact h.slots_positive r
          (setOccupant_frames slot.coordinates (some d.nextDesktopElementId) d.slots ▸ hr)
      animations := by
        intro anim hanim
        have htyped := hadd.animations anim hanim
        cases anim with
        | shortcutSnap p => exact List.mem_append_left _ htyped
        | windowOpen p | windowClose p | windowMinimize p | windowUnminimize p => exact htyped }

theorem loadShortcut_wellFormed (h : d.WellFormed) {line : ShortcutLine}
    (hload : d.loadShortcut line = some d') : d'.WellFormed := by
  obtain ⟨slot, -, rfl⟩ := Option.map_eq_some_iff.mp hload
  exact (insertShortcut_wellFormed h line slot).recompute _

theorem boot_wellFormed {desktopSize : Size} {images : WindowDecorationImages}
    {lines : List ShortcutLine} (hboot : boot desktopSize images lines = some d) :
    d.WellFormed :=
  run_invariant (fun _ _ _ h _ hload => loadShortcut_wellFormed h hload)
    lines _ d (new_wellFormed desktopSize images) (Meets.trivial lines _) hboot

end Desktop

/-- **Every event keeps the lists and tables in agreement (proved).** -/
theorem awmNext_wellFormed {lerp : Lerp} {a b : AwmLoop} {event : LoopEvent}
    (h : a.desktop.WellFormed) (hnext : awmNext lerp a event = some b) : b.desktop.WellFormed := by
  cases event with
  | stepAnimations now =>
    rw [← Option.some.inj hnext]
    exact Desktop.stepAnimations_wellFormed h lerp now
  | message now message =>
    obtain ⟨d, hd, rfl⟩ := Option.map_eq_some_iff.mp hnext
    cases hopens : message.opensWindow with
    | false =>
      have hsteps : Desktop.Steps False a.desktop d := Desktop.handleMessage_steps
        h.shortcutKnown h.windowsKnown hopens (fun hs => hs.elim) hd
      exact hsteps.wellFormed h
    | true =>
      obtain ⟨source, width, height, -, rfl⟩ := Desktop.handleMessage_opensWindow hopens hd
      exact Desktop.spawnWindow_wellFormed h now source _ none true
  | spawnWindow now source contentSize origin animated =>
    rw [← Option.some.inj hnext]
    exact Desktop.spawnWindow_wellFormed h now source contentSize origin animated
  | drawFrame =>
    obtain ⟨d, hd, rfl⟩ := Option.map_eq_some_iff.mp hnext
    exact h.queued (Desktop.drawFrame_queued h hd)

end Axle.Awm
