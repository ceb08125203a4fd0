import Axle.Awm.WellFormed

/-!
# References to elements

What the state of the mouse and the compositor's tables refer to.  The tables are looked up in
every composited draw, so each id in them has to be in the table of elements then; extra draws are
not taken back when a window is dropped, but windows are dropped only after a draw has emptied
them.  The state of the mouse is recomputed when a window is dropped, except that a drag goes on
while the left button is down.

* `dropWindow_mouseKnown_iff` — **PROVED**: dropping a window leaves it in the state of the mouse
  if and only if it is being dragged, or dragged in, with the button down;
* `no_dangling_references` — **PROVED**: in every run in the order of the main loop the tables
  refer to elements that exist; and if no window is dropped while it is held, so does the mouse.
-/

namespace Axle.Awm

open Axle.Agx Axle.Lib.StepRun

namespace Desktop

variable {strict : Prop} {d d' : Desktop}

/-! ### Extra draws -/

/-- What is to be drawn besides whole elements. -/
def extraDrawQueues (d : Desktop) : ExtraDraws × List Rect :=
  (d.compositorState.extraDraws, d.compositorState.extraBackgroundDraws)

section

variable (d : Desktop)

theorem recompute_extraDrawQueues (rect : Rect) :
    (d.recomputeDrawableRegionsInRect rect).extraDrawQueues = d.extraDrawQueues := by
  obtain ⟨rects, queue, heq, -⟩ := recompute_eq d rect
  rw [heq]
  rfl

theorem queueFullRedraw_extraDrawQueues (r : Rect) :
    (d.queueFullRedraw r).extraDrawQueues = d.extraDrawQueues := by
  unfold queueFullRedraw
  dsimp only
  split
  · rfl
  · rfl

theorem transitionToTitleBarHoverState_extraDrawQueues (w : ElementId)
    (state : TitleBarButtonsHoverState) :
    (d.transitionToTitleBarHoverStateForWindow w state).extraDrawQueues = d.extraDrawQueues := by
  unfold transitionToTitleBarHoverStateForWindow
  dsimp only
  split
  · rw [queueFullRedraw_extraDrawQueues]
    rfl
  · rfl

theorem redrawShortcut_extraDrawQueues (s : ElementId) (f : DesktopShortcut → DesktopShortcut) :
    (d.redrawShortcut s f).extraDrawQueues = d.extraDrawQueues :=
  recompute_extraDrawQueues _ _

theorem informExited_extraDrawQueues (state : MouseInteractionState) :
    (d.informExited state).extraDrawQueues = d.extraDrawQueues := by
  have hwindow : ∀ w, (if state.window? ≠ some w then
      (d.transitionToTitleBarHoverStateForWindow w .unhovered).sendToOwner w .mouseExited
      else d).extraDrawQueues = d.extraDrawQueues := by
    intro w
    split
    · exact transitionToTitleBarHoverState_extraDrawQueues d w _
    · rfl
  unfold informExited
  cases d.mouseInteractionState with
  | backgroundHover => rfl
  | windowHover w | hintingWindowDrag w | hintingWindowResize w | performingWindowDrag w
  | performingWindowResize w | mouseDragWithinWindow w => exact hwindow w
  | shortcutHover s =>
    dsimp only
    split
    · exact redrawShortcut_extraDrawQueues d s _
    · rfl
  | shortcutDrag s => rfl

theorem transition_extraDrawQueues (state : MouseInteractionState) :
    (d.transitionToMouseInteractionState state).extraDrawQueues = d.extraDrawQueues := by
  have htitle : ∀ e : Desktop, (e.informEnteredTitleBar state).extraDrawQueues =
      e.extraDrawQueues := by
    intro e
    unfold informEnteredTitleBar
    split
    · split
      · rfl
      · rfl
    · rfl
  have hwindow : ∀ e : Desktop, (e.informEnteredWindow state).extraDrawQueues =
      e.extraDrawQueues := by
    intro e
    unfold informEnteredWindow
    split
    · split
      · rfl
      · rfl
    · rfl
  have hshortcut : ∀ e : Desktop, (e.informEnteredShortcut state).extraDrawQueues =
      e.extraDrawQueues := by
    intro e
    unfold informEnteredShortcut
    split
    · split
      · exact redrawShortcut_extraDrawQueues e _ _
      · rfl
    · rfl
  unfold transitionToMouseInteractionState
  split
  · rfl
  · show ((((d.informExited state).informEnteredTitleBar state).informEnteredWindow
      state).informEnteredShortcut state).extraDrawQueues = _
    rw [hshortcut, hwindow, htitle, informExited_extraDrawQueues]

theorem dropWindow_extraDrawQueues (w : ElementId) :
    (d.dropWindow w).extraDrawQueues = d.extraDrawQueues := by
  unfold dropWindow
  rw [queueFullRedraw_extraDrawQueues, recompute_extraDrawQueues]
  exact transition_extraDrawQueues (d.removeWindow w) _

end

theorem foldl_extraDrawQueues {α : Type*} {f : Desktop → α → Desktop}
    (hf : ∀ d x, (f d x).extraDrawQueues = d.extraDrawQueues)
    (xs : List α) : ∀ d : Desktop,
      (xs.foldl f d).extraDrawQueues = d.extraDrawQueues := by
  induction xs with
  | nil => exact fun _ => rfl
  | cons x xs ih => exact fun d => (ih (f d x)).trans (hf d x)

theorem stepEach_extraDrawQueues (lerp : Lerp) (now : ℕ) (anims : List Animation) : ∀ d : Desktop,
    (stepEach lerp now anims d).1.extraDrawQueues = d.extraDrawQueues := by
  induction anims with
  | nil => exact fun _ => rfl
  | cons anim rest ih => exact fun d => (ih _).trans (queueFullRedraw_extraDrawQueues _ _)

theorem stepAnimations_extraDrawQueues (lerp : Lerp) (now : ℕ) (d : Desktop) :
    (d.stepAnimations lerp now).extraDrawQueues = d.extraDrawQueues := by
  have hfinish : ∀ (e : Desktop) (anim : Animation),
      (e.finishAnimation anim).extraDrawQueues = e.extraDrawQueues := by
    intro e anim
    cases anim <;> rfl
  have hqueue : ∀ (e : Desktop) (s : ElementId),
      (e.queueComposite s).extraDrawQueues = e.extraDrawQueues :=
    fun _ _ => rfl
  unfold stepAnimations
  split
  · rfl
  · show (List.foldl finishAnimation _ _).extraDrawQueues = _
    rw [foldl_extraDrawQueues hfinish, foldl_extraDrawQueues hqueue,
      foldl_extraDrawQueues dropWindow_extraDrawQueues, animate,
      foldl_extraDrawQueues recompute_extraDrawQueues,
      stepEach_extraDrawQueues]

/-! ### The tables -/

/-- Every id in the two tables of a composited draw is the id of an element. -/
def TablesKnown (d : Desktop) : Prop :=
  (∀ e ∈ d.compositorState.elementsToComposite, e ∈ d.compositorState.elementsById) ∧
    ∀ e ∈ d.extraDrawIds, e ∈ d.compositorState.elementsById

/-- Small steps keep the table of elements and queue only what is in it. -/
theorem SmallStep.extraDrawIds (hstep : SmallStep strict d d') :
    d'.compositorState.elementsById = d.compositorState.elementsById ∧
      ∀ e ∈ d'.extraDrawIds, e ∈ d.extraDrawIds ∨ e ∈ d.compositorState.elementsById := by
  have hrec : ∀ (e : Desktop) (rect : Rect), e.compositorState = d.compositorState →
      (e.recomputeDrawableRegionsInRect rect).compositorState.elementsById =
        d.compositorState.elementsById ∧
      ∀ x ∈ (e.recomputeDrawableRegionsInRect rect).extraDrawIds,
        x ∈ d.extraDrawIds ∨ x ∈ d.compositorState.elementsById := by
    intro e rect heq
    have hsame := (recompute_sameElements e rect).1
    have hids : e.extraDrawIds = d.extraDrawIds := by
      unfold Desktop.extraDrawIds
      rw [heq]
    rw [hsame.elementsById, heq, ← hids, ← heq]
    exact ⟨rfl, hsame.extraDrawIds⟩
  cases hstep with
  | quiet hquiet => exact ⟨hquiet.elementsById, hquiet.extraDrawIds⟩
  | recompute rect => exact hrec d rect rfl
  | move e frame => exact hrec (d.setFrame e frame) _ rfl
  | raise w hw => exact hrec { d with windows := w :: d.windows.erase w } _ rfl
  | animation anim hknown => exact ⟨rfl, fun e he => Or.inl he⟩
  | transition state hwindow hshortcut hstrict =>
    have hsame := (transition_sameElements d state).1
    exact ⟨hsame.elementsById, hsame.extraDrawIds⟩

theorem Steps.extraKnown (hsteps : Steps strict d d')
    (h : ∀ e ∈ d.extraDrawIds, e ∈ d.compositorState.elementsById) :
    ∀ e ∈ d'.extraDrawIds, e ∈ d'.compositorState.elementsById := by
  have hone : ∀ c c', SmallStep strict c c' →
      (∀ e ∈ c.extraDrawIds, e ∈ c.compositorState.elementsById) →
      ∀ e ∈ c'.extraDrawIds, e ∈ c'.compositorState.elementsById := by
    intro c c' hstep hc e he
    rw [hstep.extraDrawIds.1]
    exact (hstep.extraDrawIds.2 e he).elim (hc e) id
  exact hsteps.invariant hone h

/-! ### The mouse -/

/-- The state of the mouse names a window that exists, if it names one. -/
def MouseKnown (d : Desktop) : Prop :=
  ∀ w, d.mouseInteractionState.window? = some w → w ∈ d.windows

/-- The window is being dragged, or the mouse is dragged in it, and the button is down. -/
def Held (d : Desktop) (w : ElementId) : Prop :=
  d.mouseState.leftClickDown = true ∧ d.mouseInteractionState.isDrag = true ∧
    d.mouseInteractionState.window? = some w

instance (d : Desktop) (w : ElementId) : Decidable (d.Held w) :=
  inferInstanceAs (Decidable (_ ∧ _ ∧ _))

theorem SameMouse.mouseKnown (hsame : SameMouse d d') (h : d.MouseKnown) : d'.MouseKnown := by
  unfold MouseKnown
  rw [hsame.mouseInteractionState, hsame.windows]
  exact h

theorem SmallStep.mouseKnown (hstep : SmallStep strict d d') (h : d.MouseKnown) :
    d'.MouseKnown := by
  cases hstep with
  | quiet hquiet => exact hquiet.sameMouse.mouseKnown h
  | recompute rect => exact (recompute_sameMouse d rect).mouseKnown h
  | move e frame => exact (recompute_sameMouse (d.setFrame e frame) _).mouseKnown h
  | raise w hw =>
    refine (recompute_sameMouse ({ d with windows := w :: d.windows.erase w } : Desktop)
      _).mouseKnown ?_
    exact fun x hx => (List.perm_cons_erase hw).mem_iff.mp (h x hx)
  | animation anim hknown => exact h
  | transition state hwindow hshortcut hstrict =>
    intro w hw
    rw [(transition_sameElements d state).2] at hw
    rw [(transition_sameElements d state).1.windows]
    exact (hwindow w hw).elim id (h w)

theorem mouseInteractionStateForMouseState_of_drag (allow : Bool)
    (hdrag : d.mouseInteractionState.isDrag = true) (hdown : d.mouseState.leftClickDown = true) :
    d.mouseInteractionStateForMouseState allow = d.mouseInteractionState := by
  unfold mouseInteractionStateForMouseState
  rw [if_pos (by rw [hdrag, hdown]; rfl)]

/-- **What dropping a window leaves in the state of the mouse (proved).** -/
theorem dropWindow_mouseKnown_iff (h : d.MouseKnown) (w : ElementId) :
    (d.dropWindow w).MouseKnown ↔ ¬ d.Held w := by
  have hdrop := dropWindow_dropped d w
  unfold MouseKnown
  rw [hdrop.mouseInteractionState, hdrop.windows]
  constructor
  · rintro hall ⟨hdown, hdrag, hw⟩
    have heq := mouseInteractionStateForMouseState_of_drag (d := d.removeWindow w) false hdrag hdown
    have hin := hall w (heq ▸ hw)
    simp at hin
  · intro hfree x hx
    rcases mouseInteractionStateForMouseState_cases (d.removeWindow w) false with hc | hc | hc | hc
    · -- the drag goes on, about another window
      obtain ⟨hdrag, hdown, heq⟩ := hc
      rw [heq] at hx
      have hne : x ≠ w := by
        rintro rfl
        exact hfree ⟨hdown, hdrag, hx⟩
      exact List.mem_filter.mpr ⟨h x hx, by simpa using hne⟩
    · obtain ⟨y, hy, heq, -⟩ := hc
      rw [heq] at hx
      exact Option.some.inj hx ▸ hy
    · obtain ⟨s, -, -, hnone⟩ := hc
      rw [hnone] at hx
      exact absurd hx (by simp)
    · rw [hc] at hx
      exact absurd hx (by simp [MouseInteractionState.window?])

/-- No window that the step of the animations drops is held when its turn comes. -/
def DropsReleased (lerp : Lerp) (d : Desktop) (now : ℕ) : Prop :=
  Meets (fun d w => some (d.dropWindow w)) (fun d w => ¬ d.Held w) (d.animate lerp now)
    ((d.animate lerp now).windowsToDrop now)

theorem foldl_dropWindow_mouseKnown (ws : List ElementId) :
    ∀ {d : Desktop}, d.MouseKnown →
      Meets (fun d w => some (d.dropWindow w)) (fun d w => ¬ d.Held w) d ws →
      (ws.foldl dropWindow d).MouseKnown := by
  induction ws with
  | nil => exact fun h _ => h
  | cons w ws ih =>
    intro d h hmeets
    exact ih ((dropWindow_mouseKnown_iff h w).mpr hmeets.1) (hmeets.2 _ rfl)

theorem stepAnimations_mouseKnown (hwf : d.WellFormed) (h : d.MouseKnown) {lerp : Lerp} {now : ℕ}
    (hreleased : DropsReleased lerp d now) : (d.stepAnimations lerp now).MouseKnown := by
  have hanim := animate_wellFormed hwf lerp now
  unfold stepAnimations
  split
  · exact h
  · exact (finishAnimations_sameMouse
      (foldl_dropWindow_wellFormed _ _ hanim hanim.windowsToDrop_category) now).mouseKnown
      (foldl_dropWindow_mouseKnown _ ((animate_sameMouse lerp now d).mouseKnown h) hreleased)

/-! ### New windows -/

/-- What a new window changes, apart from what there is to draw. -/
structure Spawned (d d' : Desktop) : Prop where
  windows : d'.windows = d.nextDesktopElementId :: d.windows
  mouseInteractionState : d'.mouseInteractionState = d.mouseInteractionState
  owner : ∀ w, w ≠ d.nextDesktopElementId → d'.owner w = d.owner w
  hoverSent : d'.hoverSent = d.hoverSent
  nextDesktopElementId : d'.nextDesktopElementId = d.nextDesktopElementId + 1
  extraDrawQueues : d'.extraDrawQueues = d.extraDrawQueues
  elementsById : d'.compositorState.elementsById =
    btreeInsert (· < ·) d.nextDesktopElementId d.compositorState.elementsById

theorem insertWindow_spawned (d : Desktop) (source : String) (windowFrame : Rect) :
    Spawned d (d.insertWindow source windowFrame) where
  windows := rfl
  mouseInteractionState := rfl
  owner := by
    intro w hne
    show (Function.update d.window _ _ w).ownerService = _
    rw [Function.update_of_ne hne]
    rfl
  hoverSent := rfl
  nextDesktopElementId := rfl
  extraDrawQueues := rfl
  elementsById := rfl

theorem Spawned.trans_sameMouse {d'' : Desktop} (h : Spawned d d') (hsame : SameMouse d' d'')
    (hextra : d''.extraDrawQueues = d'.extraDrawQueues)
    (hbyId : d''.compositorState.elementsById = d'.compositorState.elementsById) :
    Spawned d d'' where
  windows := hsame.windows.trans h.windows
  mouseInteractionState := hsame.mouseInteractionState.trans h.mouseInteractionState
  owner := fun w hne => (congrFun hsame.owner w).trans (h.owner w hne)
  hoverSent := hsame.hoverSent.trans h.hoverSent
  nextDesktopElementId := hsame.nextDesktopElementId.trans h.nextDesktopElementId
  extraDrawQueues := hextra.trans h.extraDrawQueues
  elementsById := hbyId.trans h.elementsById

theorem spawnWindow_spawned (d : Desktop) (now : ℕ) (source : String) (contentSize : Size)
    (origin : Option Point) (animated : Bool) :
    Spawned d (d.spawnWindow now source contentSize origin animated) := by
  have hinform : ∀ e : Desktop, (e.informDockWindowCreated source
      d.nextDesktopElementId).compositorState = e.compositorState := by
    intro e
    unfold informDockWindowCreated
    split
    · rfl
    · rfl
  have hins := insertWindow_spawned d source (d.newWindowFrame source contentSize origin)
  have hbody : ∀ e : Desktop, Spawned d e →
      Spawned d (e.informDockWindowCreated source d.nextDesktopElementId) := by
    intro e he
    refine he.trans_sameMouse (informDockWindowCreated_quiet e _ _).sameMouse ?_ ?_
    · unfold Desktop.extraDrawQueues
      rw [hinform]
    · rw [hinform]
  apply hbody
  split
  · exact hins.trans_sameMouse (recompute_sameMouse _ _) (recompute_extraDrawQueues _ _)
      (recompute_sameElements _ _).1.elementsById
  · exact hins.trans_sameMouse ⟨rfl, rfl, rfl, rfl, rfl⟩ rfl rfl

end Desktop

/-! ### Whole runs -/

/-- The step of the animations drops no window that is held. -/
def ReleasedAtDrop (lerp : Lerp) (a : AwmLoop) : LoopEvent → Prop
  | .stepAnimations now => a.desktop.DropsReleased lerp now
  | _ => True

/-- The tables, from event to event: before a step of the animations there are no extra draws. -/
structure TablesReady (a : AwmLoop) : Prop where
  wellFormed : a.desktop.WellFormed
  extraKnown : ∀ e ∈ a.desktop.extraDrawIds, e ∈ a.desktop.compositorState.elementsById
  drawn : a.phase = .animations → a.desktop.compositorState.extraDraws = []

variable {a b : AwmLoop} {d : Desktop} {event : LoopEvent} {lerp : Lerp} {desktopSize : Size}
  {images : WindowDecorationImages} {lines : List ShortcutLine}

theorem TablesReady.tablesKnown (h : TablesReady a) : a.desktop.TablesKnown :=
  ⟨h.wellFormed.composite_known, h.extraKnown⟩

theorem spawnWindow_extraKnown {now : ℕ} {source : String} {size : Size} {origin : Option Point}
    {animated : Bool} (h : ∀ e ∈ d.extraDrawIds, e ∈ d.compositorState.elementsById) :
    ∀ e ∈ (d.spawnWindow now source size origin animated).extraDrawIds,
      e ∈ (d.spawnWindow now source size origin animated).compositorState.elementsById := by
  have hspawned := d.spawnWindow_spawned now source size origin animated
  intro e he
  have hextra := congrArg Prod.fst hspawned.extraDrawQueues
  dsimp only [Desktop.extraDrawQueues] at hextra
  unfold Desktop.extraDrawIds at he
  rw [hextra] at he
  rw [hspawned.elementsById]
  exact Desktop.mem_btreeInsert.mpr (Or.inr (h e he))

theorem drawFrame_extraDraws {d d' : Desktop} (h : d.drawFrame = some d') :
    d'.compositorState.extraDraws = [] := by
  unfold Desktop.drawFrame at h
  split at h
  · rw [← Option.some.inj h]
    rfl
  · obtain ⟨e, -, hrest⟩ := Option.bind_eq_some_iff.mp h
    split at hrest
    · rw [← Option.some.inj hrest]
      rfl
    · exact absurd hrest (by simp)

/-- **Every event in the order of the main loop keeps the tables ready (proved).** -/
theorem awmNext_tablesReady (h : TablesReady a) (horder : InLoopOrder a event)
    (hnext : awmNext lerp a event = some b) : TablesReady b := by
  have hwf := awmNext_wellFormed h.wellFormed hnext
  cases event with
  | stepAnimations now =>
    rw [← Option.some.inj hnext] at hwf ⊢
    refine ⟨hwf, ?_, fun hphase => absurd hphase (by simp)⟩
    intro e he
    have hextra := congrArg Prod.fst (Desktop.stepAnimations_extraDrawQueues lerp now a.desktop)
    dsimp only [Desktop.extraDrawQueues] at hextra
    have hids : (a.desktop.stepAnimations lerp now).extraDrawIds = [] := by
      unfold Desktop.extraDrawIds
      rw [hextra, h.drawn horder]
      rfl
    rw [hids] at he
    exact absurd he List.not_mem_nil
  | message now message =>
    obtain ⟨d, hd, rfl⟩ := Option.map_eq_some_iff.mp hnext
    refine ⟨hwf, ?_, fun hphase => absurd hphase (by simp)⟩
    cases hopens : message.opensWindow with
    | false =>
      have hsteps : Desktop.Steps False a.desktop d := Desktop.handleMessage_steps
        h.wellFormed.shortcutKnown h.wellFormed.windowsKnown hopens (fun hs => hs.elim) hd
      exact hsteps.extraKnown h.extraKnown
    | true =>
      obtain ⟨source, width, height, -, rfl⟩ := Desktop.handleMessage_opensWindow hopens hd
      exact spawnWindow_extraKnown h.extraKnown
  | spawnWindow now source size origin animated =>
    rw [← Option.some.inj hnext] at hwf ⊢
    exact ⟨hwf, spawnWindow_extraKnown h.extraKnown, fun hphase => absurd hphase (by simp)⟩
  | drawFrame =>
    obtain ⟨d, hd, rfl⟩ := Option.map_eq_some_iff.mp hnext
    have hempty := drawFrame_extraDraws hd
    refine ⟨hwf, ?_, fun _ => hempty⟩
    intro e he
    unfold Desktop.extraDrawIds at he
    rw [hempty] at he
    exact absurd he List.not_mem_nil

/-- Every event that drops no held window keeps the window of the mouse. -/
theorem awmNext_mouseKnown (hwf : a.desktop.WellFormed) (h : a.desktop.MouseKnown)
    (hreleased : ReleasedAtDrop lerp a event) (hnext : awmNext lerp a event = some b) :
    b.desktop.MouseKnown := by
  have hspawn : ∀ (now : ℕ) (source : String) (size : Size) (origin : Option Point)
      (animated : Bool),
      (a.desktop.spawnWindow now source size origin animated).MouseKnown := by
    intro now source size origin animated w hw
    have hspawned := a.desktop.spawnWindow_spawned now source size origin animated
    rw [hspawned.mouseInteractionState] at hw
    rw [hspawned.windows]
    exact List.mem_cons_of_mem _ (h w hw)
  cases event with
  | stepAnimations now =>
    rw [← Option.some.inj hnext]
    exact Desktop.stepAnimations_mouseKnown hwf h hreleased
  | message now message =>
    obtain ⟨d, hd, rfl⟩ := Option.map_eq_some_iff.mp hnext
    cases hopens : message.opensWindow with
    | false =>
      have hsteps : Desktop.Steps False a.desktop d := Desktop.handleMessage_steps
        hwf.shortcutKnown hwf.windowsKnown hopens (fun hs => hs.elim) hd
      exact hsteps.invariant (fun _ _ hstep => hstep.mouseKnown) h
    | true =>
      obtain ⟨source, width, height, -, rfl⟩ := Desktop.handleMessage_opensWindow hopens hd
      exact hspawn now source _ none true
  | spawnWindow now source size origin animated =>
    rw [← Option.some.inj hnext]
    exact hspawn now source size origin animated
  | drawFrame =>
    obtain ⟨d, hd, rfl⟩ := Option.map_eq_some_iff.mp hnext
    exact (Desktop.drawFrame_queued hwf hd).sameMouse.mouseKnown h

section

variable (hboot : Desktop.boot desktopSize images lines = some d)

include hboot

/-- At the start there is nothing to draw and no window, and nothing has been sent. -/
theorem boot_untouched :
    d.extraDrawQueues = ([], []) ∧ d.mouseInteractionState = .backgroundHover ∧
      d.hoverSent = [] := by
  have hstep : ∀ (c : Desktop) (line : ShortcutLine) (c' : Desktop),
      (c.extraDrawQueues = ([], []) ∧ c.mouseInteractionState = .backgroundHover ∧
        c.hoverSent = []) → True → c.loadShortcut line = some c' →
      c'.extraDrawQueues = ([], []) ∧ c'.mouseInteractionState = .backgroundHover ∧
        c'.hoverSent = [] := by
    intro c line c' hc _ hload
    obtain ⟨slot, -, rfl⟩ := Option.map_eq_some_iff.mp hload
    have hsame := Desktop.recompute_sameMouse (c.insertShortcut line slot)
      (Desktop.shortcutFrame slot)
    rw [Desktop.recompute_extraDrawQueues, hsame.mouseInteractionState, hsame.hoverSent]
    exact hc
  exact run_invariant hstep lines _ d ⟨rfl, rfl, rfl⟩ (Meets.trivial lines _) hboot

theorem boot_tablesReady {phase : Phase} : TablesReady ⟨d, phase⟩ := by
  have hextra : d.compositorState.extraDraws = [] :=
    congrArg Prod.fst (boot_untouched hboot).1
  refine ⟨Desktop.boot_wellFormed hboot, ?_, fun _ => hextra⟩
  intro e he
  change e ∈ d.compositorState.extraDraws.map Prod.fst at he
  rw [hextra] at he
  exact absurd he List.not_mem_nil

theorem boot_mouseKnown : d.MouseKnown := by
  obtain ⟨-, hmis, -⟩ := boot_untouched hboot
  intro w hw
  rw [hmis] at hw
  exact absurd hw (by simp [MouseInteractionState.window?])

end

/-- **No dangling references (proved).**  In every state of every run in the order of the main
loop, the tables of the compositor name elements that exist; and if no window is dropped while it
is held, the state of the mouse names a window that exists. -/
theorem no_dangling_references (lerp : Lerp) {desktopSize : Size}
    {images : WindowDecorationImages} {lines : List ShortcutLine} {d : Desktop}
    {events : List LoopEvent} (hboot : Desktop.boot desktopSize images lines = some d)
    (horder : Meets (awmNext lerp) InLoopOrder ⟨d, .animations⟩ events) :
    (∀ a, Passes (awmNext lerp) ⟨d, .animations⟩ events a → a.desktop.TablesKnown) ∧
    (Meets (awmNext lerp) (ReleasedAtDrop lerp) ⟨d, .animations⟩ events →
      ∀ a, Passes (awmNext lerp) ⟨d, .animations⟩ events a → a.desktop.MouseKnown) := by
  constructor
  · intro a hpass
    exact (passes_invariant (fun _ _ _ h ho hn => awmNext_tablesReady h ho hn)
      (boot_tablesReady hboot) horder hpass).tablesKnown
  · intro hreleased a hpass
    have hstep : ∀ (b : AwmLoop) (event : LoopEvent) (c : AwmLoop),
        b.desktop.WellFormed ∧ b.desktop.MouseKnown → ReleasedAtDrop lerp b event →
        awmNext lerp b event = some c → c.desktop.WellFormed ∧ c.desktop.MouseKnown :=
      fun _ _ _ h hr hn => ⟨awmNext_wellFormed h.1 hn, awmNext_mouseKnown h.1 h.2 hr hn⟩
    exact (passes_invariant hstep ⟨Desktop.boot_wellFormed hboot, boot_mouseKnown hboot⟩
      hreleased hpass).2

instance (lerp : Lerp) (a : AwmLoop) : ∀ event, Decidable (ReleasedAtDrop lerp a event)
  | .stepAnimations now => inferInstanceAs (Decidable (Meets _ _ (a.desktop.animate lerp now) _))
  | .message _ _ | .spawnWindow _ _ _ _ _ | .drawFrame => inferInstanceAs (Decidable True)

/-- A window is opened, the button goes down in it, it is closed, and the animation ends: with
the button up again before that, or still down. -/
def closedAfterClick (upAgain : List LoopEvent) : List LoopEvent :=
  [.stepAnimations 0, .message 0 (.client "a" (.createWindow 300 300)), .drawFrame,
    .stepAnimations 300, mouseEvent 10 0 false, mouseEvent 0 0 true,
    .message 500 (.client "a" .closeWindow)] ++ upAgain ++ [.drawFrame, .stepAnimations 800]

theorem closedAfterClick_released : ∃ d,
    Desktop.boot ⟨1000, 1000⟩ ⟨⟨12, 12⟩, ⟨12, 12⟩⟩ [] = some d ∧
    ∀ a, Passes (awmNext linearLerp) ⟨d, .animations⟩
      (closedAfterClick [mouseEvent 0 0 false]) a → a.desktop.TablesKnown ∧ a.desktop.MouseKnown := by
  refine ⟨_, rfl, ?_⟩
  have hboot : Desktop.boot ⟨1000, 1000⟩ ⟨⟨12, 12⟩, ⟨12, 12⟩⟩ [] =
      some (Desktop.new ⟨1000, 1000⟩ ⟨⟨12, 12⟩, ⟨12, 12⟩⟩) := rfl
  have horder : Meets (awmNext linearLerp) InLoopOrder
      ⟨Desktop.new ⟨1000, 1000⟩ ⟨⟨12, 12⟩, ⟨12, 12⟩⟩, .animations⟩
      (closedAfterClick [mouseEvent 0 0 false]) := by decide
  obtain ⟨htables, hmouse⟩ := no_dangling_references linearLerp hboot horder
  exact fun a ha => ⟨htables a ha, hmouse (by decide) a ha⟩

/-- **The desktop in every run (proved)**, in the order of the main loop or not: every list and
table of windows, elements, shortcuts and animations agrees with the others. -/
theorem desktop_wellFormed (lerp : Lerp) {desktopSize : Size} {images : WindowDecorationImages}
    {lines : List ShortcutLine} {d : Desktop} {events : List LoopEvent} {a : AwmLoop}
    (hboot : Desktop.boot desktopSize images lines = some d)
    (hrun : run (awmNext lerp) ⟨d, .animations⟩ events = some a) : a.desktop.WellFormed :=
  run_invariant (fun _ _ _ h _ hnext => awmNext_wellFormed h hnext) events _ a
    (Desktop.boot_wellFormed hboot) (Meets.trivial events _) hrun

theorem desktop_wellFormed_held : ∃ d a,
    Desktop.boot ⟨1000, 1000⟩ ⟨⟨12, 12⟩, ⟨12, 12⟩⟩ [] = some d ∧
    run (awmNext linearLerp) ⟨d, .animations⟩ (closedAfterClick []) = some a ∧
    a.desktop.WellFormed :=
  ⟨_, _, rfl, rfl, @desktop_wellFormed linearLerp ⟨1000, 1000⟩ ⟨⟨12, 12⟩, ⟨12, 12⟩⟩ [] _
    (closedAfterClick []) _ rfl rfl⟩

theorem closedAfterClick_held : ∃ d a,
    Desktop.boot ⟨1000, 1000⟩ ⟨⟨12, 12⟩, ⟨12, 12⟩⟩ [] = some d ∧
    Meets (awmNext linearLerp) InLoopOrder ⟨d, .animations⟩ (closedAfterClick []) ∧
    run (awmNext linearLerp) ⟨d, .animations⟩ (closedAfterClick []) = some a ∧
    ¬ a.desktop.MouseKnown := by
  refine ⟨_, _, rfl, by decide, rfl, ?_⟩
  intro hknown
  have hin := hknown 0 (by decide)
  exact absurd hin (by decide)

end Axle.Awm
