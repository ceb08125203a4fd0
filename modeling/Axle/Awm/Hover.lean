import Axle.Awm.References

/-!
# Messages about hovering

What the owner of a window is told about the mouse: that it has entered, and that it has exited.
The messages are sent when the state of the mouse changes from one window to another; besides, a
change from a window into its own title bar sends one that it has exited, and no change back sends
one that it has entered.

* `transition_hoverSent` — **PROVED**: the messages of a transition that does not lead from a
  window into its own title bar;
* `hover_alternates` — **PROVED**: in every run without such a transition the messages to every
  owner alternate, starting with the one that the mouse has entered, and the last one says what
  the state of the mouse says.
-/

namespace Axle.Awm

open Axle.Agx Axle.Lib.StepRun

/-- Entered, exited, entered, ... -/
def alternating (n : ℕ) : List Sent :=
  (List.range n).map fun i => if i % 2 = 0 then .mouseEntered else .mouseExited

theorem alternating_succ (n : ℕ) :
    alternating (n + 1) =
      alternating n ++ [if n % 2 = 0 then .mouseEntered else .mouseExited] := by
  unfold alternating
  rw [List.range_succ, List.map_append]
  rfl

/-- The messages to one service. -/
def messagesTo (service : String) (messages : List (String × Sent)) : List Sent :=
  (messages.filter fun m => m.1 = service).map Prod.snd

theorem messagesTo_append (service : String) (ms ms' : List (String × Sent)) :
    messagesTo service (ms ++ ms') = messagesTo service ms ++ messagesTo service ms' := by
  unfold messagesTo
  rw [List.filter_append, List.map_append]

namespace Desktop

variable {strict : Prop} {d d' : Desktop}

/-- The window, if there is one, belongs to the service. -/
def OwnedBy (d : Desktop) (service : String) (window? : Option ElementId) : Prop :=
  ∃ w, window? = some w ∧ d.owner w = service

/-- The state of the mouse is about a window of the service. -/
def MouseInside (d : Desktop) (service : String) : Prop :=
  d.OwnedBy service d.mouseInteractionState.window?

/-- The messages alternate, starting with the one that the mouse has entered, and there is an odd
number of them exactly while the mouse is inside. -/
def HoverMatches (d : Desktop) (service : String) : Prop :=
  ∃ n, messagesTo service d.hoverSent = alternating n ∧ (d.MouseInside service ↔ n % 2 = 1)

/-! ### The messages of a transition -/

/-- The message to the owner of a window, unless the other state is about the same window. -/
def hoverMessage (d : Desktop) (window? other : Option ElementId) (message : Sent) :
    List (String × Sent) :=
  match window? with
  | some w => if other ≠ some w then [(d.owner w, message)] else []
  | none => []

theorem sendToOwner_hoverSent (w : ElementId) {message : Sent} (h : message.isHover = true) :
    (d.sendToOwner w message).hoverSent = d.hoverSent ++ [(d.owner w, message)] := by
  unfold Desktop.hoverSent Desktop.sendToOwner Desktop.send
  rw [List.filter_append, List.filter_cons_of_pos (by simpa using h), List.filter_nil]
  rfl

theorem redrawShortcut_hoverSent (s : ElementId) (f : DesktopShortcut → DesktopShortcut) :
    (d.redrawShortcut s f).hoverSent = d.hoverSent :=
  (recompute_sameElements _ _).2.2

section

variable (state : MouseInteractionState)

theorem informExited_hoverSent :
    (d.informExited state).hoverSent =
      d.hoverSent ++ d.hoverMessage d.mouseInteractionState.window? state.window? .mouseExited := by
  have hwindow : ∀ w, (if state.window? ≠ some w then
      (d.transitionToTitleBarHoverStateForWindow w .unhovered).sendToOwner w .mouseExited
      else d).hoverSent = d.hoverSent ++ d.hoverMessage (some w) state.window? .mouseExited := by
    intro w
    have hquiet := Quiet.transitionToTitleBarHoverStateForWindow d w .unhovered
    unfold hoverMessage
    dsimp only
    split
    · rw [sendToOwner_hoverSent w rfl, hquiet.hoverSent, hquiet.owner]
    · rw [List.append_nil]
  have hnone : d.hoverSent = d.hoverSent ++ d.hoverMessage none state.window? .mouseExited :=
    (List.append_nil _).symm
  unfold informExited
  cases d.mouseInteractionState with
  | backgroundHover => exact hnone
  | windowHover w | hintingWindowDrag w | hintingWindowResize w | performingWindowDrag w
  | performingWindowResize w | mouseDragWithinWindow w => exact hwindow w
  | shortcutHover s =>
    dsimp only
    refine Eq.trans ?_ hnone
    split
    · exact redrawShortcut_hoverSent s _
    · rfl
  | shortcutDrag s => exact hnone

theorem informEnteredWindow_hoverSent :
    (d.informEnteredWindow state).hoverSent =
      d.hoverSent ++
        d.hoverMessage state.window? d.mouseInteractionState.window? .mouseEntered := by
  unfold informEnteredWindow hoverMessage
  cases state.window? with
  | none => exact (List.append_nil _).symm
  | some w =>
    dsimp only
    split
    · exact sendToOwner_hoverSent w rfl
    · exact (List.append_nil _).symm

theorem informEnteredShortcut_hoverSent :
    (d.informEnteredShortcut state).hoverSent = d.hoverSent := by
  unfold informEnteredShortcut
  split
  · split
    · exact redrawShortcut_hoverSent _ _
    · rfl
  · rfl

end

theorem hoverMessage_same (window? : Option ElementId) (message : Sent) :
    d.hoverMessage window? window? message = [] := by
  unfold hoverMessage
  cases window? with
  | none => rfl
  | some w => simp

/-- **The hover messages of a transition (proved).** -/
theorem transition_hoverSent (state : MouseInteractionState)
    (hstrict : d.mouseInteractionState.entersOwnTitleBar state = false) :
    (d.transitionToMouseInteractionState state).hoverSent =
      d.hoverSent ++
        (d.hoverMessage d.mouseInteractionState.window? state.window? .mouseExited ++
          d.hoverMessage state.window? d.mouseInteractionState.window? .mouseEntered) := by
  unfold transitionToMouseInteractionState
  split
  · rename_i hsame
    rw [hsame, hoverMessage_same, hoverMessage_same, List.append_nil, List.append_nil]
  · have hexit := informExited_recomputed d state
    have htitle : (d.informExited state).informEnteredTitleBar state = d.informExited state := by
      unfold informEnteredTitleBar
      rw [hexit.mouseInteractionState, if_neg (by rw [hstrict]; decide)]
    have howner : (d.informExited state).hoverMessage = d.hoverMessage := by
      unfold hoverMessage
      rw [hexit.owner]
    show (((d.informExited state).informEnteredTitleBar state).informEnteredWindow
      state |>.informEnteredShortcut state).hoverSent = _
    rw [htitle, informEnteredShortcut_hoverSent, informEnteredWindow_hoverSent,
      informExited_hoverSent, howner, hexit.mouseInteractionState, List.append_assoc]

/-! ### One step -/

variable {service : String}

theorem messagesTo_hoverMessage_owned {window? other : Option ElementId}
    (howned : d.OwnedBy service window?) (hne : window? ≠ other) (message : Sent) :
    messagesTo service (d.hoverMessage window? other message) = [message] := by
  obtain ⟨w, rfl, howner⟩ := howned
  unfold hoverMessage messagesTo
  dsimp only
  rw [if_pos (fun h => hne h.symm), List.filter_cons_of_pos (by simpa using howner)]
  rfl

theorem messagesTo_hoverMessage_other {window? other : Option ElementId}
    (howned : ¬ d.OwnedBy service window?) (message : Sent) :
    messagesTo service (d.hoverMessage window? other message) = [] := by
  unfold hoverMessage messagesTo
  cases window? with
  | none => rfl
  | some w =>
    have hne : d.owner w ≠ service := fun h => howned ⟨w, rfl, h⟩
    dsimp only
    split
    · rw [List.filter_cons_of_neg (by simpa using hne)]
      rfl
    · rfl

/-- What has been sent, and the state it leads to: the parities agree again. -/
theorem HoverMatches.messages {window? : Option ElementId} (h : d.HoverMatches service)
    (howner : d'.owner = d.owner) (hmis : d'.mouseInteractionState.window? = window?)
    (hsent : d'.hoverSent = d.hoverSent ++
      (d.hoverMessage d.mouseInteractionState.window? window? .mouseExited ++
        d.hoverMessage window? d.mouseInteractionState.window? .mouseEntered)) :
    d'.HoverMatches service := by
  obtain ⟨n, hmessages, hparity⟩ := h
  have hinside : d'.MouseInside service ↔ d.OwnedBy service window? := by
    unfold MouseInside OwnedBy
    rw [hmis, howner]
  have hall : messagesTo service d'.hoverSent = alternating n ++
      (messagesTo service (d.hoverMessage d.mouseInteractionState.window? window? .mouseExited) ++
        messagesTo service
          (d.hoverMessage window? d.mouseInteractionState.window? .mouseEntered)) := by
    rw [hsent, messagesTo_append, messagesTo_append, hmessages]
  by_cases hsame : d.mouseInteractionState.window? = window?
  · refine ⟨n, ?_, ?_⟩
    · rw [hall, hsame, hoverMessage_same, hoverMessage_same]
      exact List.append_nil _
    · rw [hinside, ← hsame]
      exact hparity
  · by_cases hold : d.OwnedBy service d.mouseInteractionState.window?
    · have hodd : n % 2 = 1 := hparity.mp hold
      have hexit : alternating n ++ [.mouseExited] = alternating (n + 1) := by
        rw [alternating_succ, if_neg (by omega)]
      rw [messagesTo_hoverMessage_owned hold hsame, ← List.append_assoc, hexit] at hall
      by_cases hnew : d.OwnedBy service window?
      · refine ⟨n + 2, ?_, ?_⟩
        · rw [hall, messagesTo_hoverMessage_owned hnew (fun h => hsame h.symm),
            alternating_succ (n + 1), if_pos (by omega)]
        · rw [hinside]
          exact ⟨fun _ => by omega, fun _ => hnew⟩
      · refine ⟨n + 1, ?_, ?_⟩
        · rw [hall, messagesTo_hoverMessage_other hnew, List.append_nil]
        · rw [hinside]
          exact ⟨fun h => absurd h hnew, fun h => by omega⟩
    · have heven : n % 2 ≠ 1 := fun h => hold (hparity.mpr h)
      rw [messagesTo_hoverMessage_other hold, List.nil_append] at hall
      by_cases hnew : d.OwnedBy service window?
      · refine ⟨n + 1, ?_, ?_⟩
        · rw [hall, messagesTo_hoverMessage_owned hnew (fun h => hsame h.symm),
            alternating_succ, if_pos (by omega)]
        · rw [hinside]
          exact ⟨fun _ => by omega, fun _ => hnew⟩
      · refine ⟨n, ?_, ?_⟩
        · rw [hall, messagesTo_hoverMessage_other hnew, List.append_nil]
        · rw [hinside]
          exact ⟨fun h => absurd h hnew, fun h => absurd h heven⟩

theorem HoverMatches.transition (h : d.HoverMatches service) (state : MouseInteractionState)
    (hstrict : d.mouseInteractionState.entersOwnTitleBar state = false) :
    (d.transitionToMouseInteractionState state).HoverMatches service := by
  obtain ⟨hsame, hmis⟩ := transition_sameElements d state
  exact h.messages hsame.owner (by rw [hmis]) (transition_hoverSent state hstrict)

theorem SameMouse.hoverMatches (hsame : SameMouse d d') (h : d.HoverMatches service) :
    d'.HoverMatches service := by
  unfold HoverMatches MouseInside OwnedBy
  rw [hsame.hoverSent, hsame.mouseInteractionState, hsame.owner]
  exact h

theorem SmallStep.hoverMatches (hstep : SmallStep True d d') (h : d.HoverMatches service) :
    d'.HoverMatches service := by
  cases hstep with
  | quiet hquiet => exact hquiet.sameMouse.hoverMatches h
  | recompute rect => exact (recompute_sameMouse d rect).hoverMatches h
  | move e frame => exact (recompute_sameMouse (d.setFrame e frame) _).hoverMatches h
  | raise w hw =>
    exact (recompute_sameMouse ({ d with windows := w :: d.windows.erase w } : Desktop)
      _).hoverMatches h
  | animation anim hknown => exact h
  | transition state hwindow hshortcut hstrict => exact h.transition state (hstrict True.intro)

/-! ### The end of a window -/

/-- Dropping the window does not lead from another one into its own title bar. -/
def DropAvoidsTitleBar (d : Desktop) (w : ElementId) : Prop :=
  d.mouseInteractionState.entersOwnTitleBar
    ((d.removeWindow w).mouseInteractionStateForMouseState false) = false

instance (d : Desktop) (w : ElementId) : Decidable (d.DropAvoidsTitleBar w) :=
  inferInstanceAs (Decidable (_ = false))

theorem dropWindow_hoverMatches {w : ElementId} (hstrict : d.DropAvoidsTitleBar w)
    (h : d.HoverMatches service) : (d.dropWindow w).HoverMatches service := by
  have hleave : ((d.removeWindow w).transitionToMouseInteractionState
      ((d.removeWindow w).mouseInteractionStateForMouseState false)).HoverMatches service :=
    HoverMatches.transition (d := d.removeWindow w) h _ hstrict
  have hrest : ((d.leaveWindow w).removeElement w).HoverMatches service := hleave
  exact (Quiet.queueFullRedraw _ _).sameMouse.hoverMatches
    ((recompute_sameMouse _ _).hoverMatches hrest)

theorem foldl_dropWindow_hoverMatches (ws : List ElementId) :
    ∀ {d : Desktop}, d.HoverMatches service →
      Meets (fun d w => some (d.dropWindow w)) DropAvoidsTitleBar d ws →
      (ws.foldl dropWindow d).HoverMatches service := by
  induction ws with
  | nil => exact fun h _ => h
  | cons w ws ih =>
    intro d h hmeets
    exact ih (dropWindow_hoverMatches hmeets.1 h) (hmeets.2 _ rfl)

/-- No window that the step of the animations drops leads into a title bar. -/
def DropsAvoidTitleBar (lerp : Lerp) (d : Desktop) (now : ℕ) : Prop :=
  Meets (fun d w => some (d.dropWindow w)) DropAvoidsTitleBar (d.animate lerp now)
    ((d.animate lerp now).windowsToDrop now)

theorem stepAnimations_hoverMatches {lerp : Lerp} {now : ℕ} (hwf : d.WellFormed)
    (h : d.HoverMatches service) (hstrict : d.DropsAvoidTitleBar lerp now) :
    (d.stepAnimations lerp now).HoverMatches service := by
  have hanim := animate_wellFormed hwf lerp now
  unfold stepAnimations
  split
  · exact h
  · exact (finishAnimations_sameMouse
      (foldl_dropWindow_wellFormed _ _ hanim hanim.windowsToDrop_category) now).hoverMatches
      (foldl_dropWindow_hoverMatches _ ((animate_sameMouse lerp now d).hoverMatches h) hstrict)

/-! ### The window of the mouse is not a new one -/

/-- The state of the mouse is about a window that exists or has existed. -/
def MouseOld (d : Desktop) : Prop :=
  ∀ w, d.mouseInteractionState.window? = some w → w < d.nextDesktopElementId

theorem SameMouse.mouseOld (hsame : SameMouse d d') (h : d.MouseOld) : d'.MouseOld := by
  unfold MouseOld
  rw [hsame.mouseInteractionState, hsame.nextDesktopElementId]
  exact h

theorem SmallStep.mouseOld (hstep : SmallStep strict d d') (hwf : d.WellFormed)
    (h : d.MouseOld) : d'.MouseOld := by
  cases hstep with
  | quiet hquiet => exact hquiet.sameMouse.mouseOld h
  | recompute rect => exact (recompute_sameMouse d rect).mouseOld h
  | move e frame => exact (recompute_sameMouse (d.setFrame e frame) _).mouseOld h
  | raise w hw =>
    exact (recompute_sameMouse ({ d with windows := w :: d.windows.erase w } : Desktop)
      _).mouseOld h
  | animation anim hknown => exact h
  | transition state hwindow hshortcut hstrict =>
    intro w hw
    rw [(transition_sameElements d state).2] at hw
    rw [(transition_sameElements d state).1.nextDesktopElementId]
    exact (hwindow w hw).elim (fun hin => hwf.elements_lt w (hwf.windows_mem w hin)) (h w)

theorem dropWindow_mouseOld (hwf : d.WellFormed) (h : d.MouseOld) (w : ElementId) :
    (d.dropWindow w).MouseOld := by
  have hdrop := dropWindow_dropped d w
  intro x hx
  rw [hdrop.mouseInteractionState] at hx
  rw [hdrop.nextDesktopElementId]
  rcases mouseInteractionStateForMouseState_window? hx with hin | hold
  · exact hwf.elements_lt x (hwf.windows_mem x (List.mem_filter.mp hin).1)
  · exact h x hold

theorem foldl_dropWindow_mouseOld (ws : List ElementId) :
    ∀ {d : Desktop}, d.WellFormed → (∀ w ∈ ws, d.zIndexCategory w ≠ .desktopView) →
      d.MouseOld → (ws.foldl dropWindow d).MouseOld := by
  induction ws with
  | nil => exact fun _ _ h => h
  | cons w ws ih =>
    intro d hwf hcat h
    refine ih (dropWindow_wellFormed hwf (hcat w List.mem_cons_self)) ?_
      (dropWindow_mouseOld hwf h w)
    intro x hx
    rw [(dropWindow_dropped d w).zIndexCategory]
    exact hcat x (List.mem_cons_of_mem _ hx)

theorem stepAnimations_mouseOld (hwf : d.WellFormed) (h : d.MouseOld) (lerp : Lerp) (now : ℕ) :
    (d.stepAnimations lerp now).MouseOld := by
  have hanim := animate_wellFormed hwf lerp now
  unfold stepAnimations
  split
  · exact h
  · exact (finishAnimations_sameMouse
      (foldl_dropWindow_wellFormed _ _ hanim hanim.windowsToDrop_category) now).mouseOld
      (foldl_dropWindow_mouseOld _ hanim hanim.windowsToDrop_category
        ((animate_sameMouse lerp now d).mouseOld h))

theorem Spawned.hoverMatches (hspawned : Spawned d d') (hold : d.MouseOld)
    (h : d.HoverMatches service) : d'.HoverMatches service := by
  obtain ⟨n, hmessages, hparity⟩ := h
  refine ⟨n, ?_, ?_⟩
  · rw [hspawned.hoverSent]
    exact hmessages
  · rw [← hparity]
    unfold MouseInside OwnedBy
    rw [hspawned.mouseInteractionState]
    constructor
    · rintro ⟨w, hw, howner⟩
      exact ⟨w, hw, (hspawned.owner w (hold w hw).ne).symm.trans howner⟩
    · rintro ⟨w, hw, howner⟩
      exact ⟨w, hw, (hspawned.owner w (hold w hw).ne).trans howner⟩

theorem Spawned.mouseOld (hspawned : Spawned d d') (h : d.MouseOld) : d'.MouseOld := by
  intro w hw
  rw [hspawned.mouseInteractionState] at hw
  rw [hspawned.nextDesktopElementId]
  exact (h w hw).trans (Nat.lt_succ_self _)

end Desktop

/-! ### Whole runs -/

/-- The event does not lead from a window into its own title bar. -/
def AvoidsTitleBar (lerp : Lerp) (a : AwmLoop) : LoopEvent → Prop
  | .message now message => a.desktop.MessageAvoidsTitleBar now message
  | .stepAnimations now => a.desktop.DropsAvoidTitleBar lerp now
  | _ => True

/-- The invariant: every owner knows where the mouse is. -/
structure HoverInv (a : AwmLoop) : Prop where
  wellFormed : a.desktop.WellFormed
  mouseOld : a.desktop.MouseOld
  hoverMatches : ∀ service, a.desktop.HoverMatches service

theorem awmNext_hoverInv {lerp : Lerp} {a b : AwmLoop} {event : LoopEvent} (h : HoverInv a)
    (hstrict : AvoidsTitleBar lerp a event) (hnext : awmNext lerp a event = some b) :
    HoverInv b := by
  have hwf := awmNext_wellFormed h.wellFormed hnext
  have hspawn : ∀ d', Desktop.Spawned a.desktop d' →
      d'.MouseOld ∧ ∀ service, d'.HoverMatches service :=
    fun d' hspawned => ⟨hspawned.mouseOld h.mouseOld,
      fun service => hspawned.hoverMatches h.mouseOld (h.hoverMatches service)⟩
  cases event with
  | stepAnimations now =>
    rw [← Option.some.inj hnext] at hwf ⊢
    exact ⟨hwf, Desktop.stepAnimations_mouseOld h.wellFormed h.mouseOld lerp now,
      fun service => Desktop.stepAnimations_hoverMatches h.wellFormed (h.hoverMatches service)
        hstrict⟩
  | message now message =>
    obtain ⟨d, hd, rfl⟩ := Option.map_eq_some_iff.mp hnext
    cases hopens : message.opensWindow with
    | false =>
      have hsteps : Desktop.Steps True a.desktop d := Desktop.handleMessage_steps
        h.wellFormed.shortcutKnown h.wellFormed.windowsKnown hopens (fun _ => hstrict) hd
      have hone : ∀ c c', Desktop.SmallStep True c c' →
          c.WellFormed ∧ c.MouseOld ∧ (∀ service, c.HoverMatches service) →
          c'.WellFormed ∧ c'.MouseOld ∧ ∀ service, c'.HoverMatches service :=
        fun c c' hstep hc => ⟨hstep.wellFormed hc.1, hstep.mouseOld hc.1 hc.2.1,
          fun service => hstep.hoverMatches (hc.2.2 service)⟩
      obtain ⟨-, hold, hmatches⟩ :=
        hsteps.invariant hone ⟨h.wellFormed, h.mouseOld, h.hoverMatches⟩
      exact ⟨hwf, hold, hmatches⟩
    | true =>
      obtain ⟨source, width, height, -, rfl⟩ := Desktop.handleMessage_opensWindow hopens hd
      obtain ⟨hold, hmatches⟩ := hspawn _ (a.desktop.spawnWindow_spawned now source _ none true)
      exact ⟨hwf, hold, hmatches⟩
  | spawnWindow now source size origin animated =>
    rw [← Option.some.inj hnext] at hwf ⊢
    obtain ⟨hold, hmatches⟩ :=
      hspawn _ (a.desktop.spawnWindow_spawned now source size origin animated)
    exact ⟨hwf, hold, hmatches⟩
  | drawFrame =>
    obtain ⟨d, hd, rfl⟩ := Option.map_eq_some_iff.mp hnext
    have hsame := (Desktop.drawFrame_queued h.wellFormed hd).sameMouse
    exact ⟨hwf, hsame.mouseOld h.mouseOld, fun service => hsame.hoverMatches (h.hoverMatches service)⟩

variable {d : Desktop}

theorem boot_hoverInv {desktopSize : Size} {images : WindowDecorationImages}
    {lines : List ShortcutLine} {phase : Phase}
    (hboot : Desktop.boot desktopSize images lines = some d) : HoverInv ⟨d, phase⟩ := by
  obtain ⟨-, hmis, hsent⟩ := boot_untouched hboot
  have hnone : ∀ w, d.mouseInteractionState.window? ≠ some w := by
    rw [hmis]
    simp [MouseInteractionState.window?]
  refine ⟨Desktop.boot_wellFormed hboot, fun w hw => absurd hw (hnone w), ?_⟩
  intro service
  refine ⟨0, ?_, ?_⟩
  · show messagesTo service d.hoverSent = []
    rw [hsent]
    rfl
  · constructor
    · rintro ⟨w, hw, -⟩
      exact absurd hw (hnone w)
    · intro hone
      exact absurd hone (by decide)

/-- **Hover messages alternate (proved).**  In every state of every run in which no event leads
from a window into its own title bar, the messages to every service alternate, starting with the
one that the mouse has entered, and the mouse is in a window of the service exactly when the last
one says so. -/
theorem hover_alternates (lerp : Lerp) {desktopSize : Size} {images : WindowDecorationImages}
    {lines : List ShortcutLine} {d : Desktop} {phase : Phase} {events : List LoopEvent}
    (hboot : Desktop.boot desktopSize images lines = some d)
    (hstrict : Meets (awmNext lerp) (AvoidsTitleBar lerp) ⟨d, phase⟩ events)
    {a : AwmLoop} (hpass : Passes (awmNext lerp) ⟨d, phase⟩ events a) (service : String) :
    a.desktop.HoverMatches service :=
  (passes_invariant (fun _ _ _ h hs hn => awmNext_hoverInv h hs hn) (boot_hoverInv hboot) hstrict
    hpass).hoverMatches service

instance (d : Desktop) : ∀ change, Decidable (d.ChangeAvoidsTitleBar change)
  | .moved _ _ => inferInstanceAs (Decidable (_ = false → _ = false))
  | .leftClickBegan => inferInstanceAs (Decidable (_ = false))
  | .leftClickEnded | .scrolled _ => inferInstanceAs (Decidable True)

instance (d : Desktop) (now : ℕ) : ∀ message, Decidable (d.MessageAvoidsTitleBar now message)
  | .mouse packet => inferInstanceAs (Decidable (Meets _ _ (d.mousePacketStart packet).1 _))
  | .keyboard _ | .desktopTraitsRequest | .preferencesUpdated | .dockTaskViewHovered
  | .dockTaskViewHoverExited | .dockTaskViewClicked _ | .dockWindowMinimizeWithInfo _ _
  | .serviceDied _ | .client _ _ => inferInstanceAs (Decidable True)

instance (lerp : Lerp) (a : AwmLoop) : ∀ event, Decidable (AvoidsTitleBar lerp a event)
  | .message now message =>
    inferInstanceAs (Decidable (a.desktop.MessageAvoidsTitleBar now message))
  | .stepAnimations now => inferInstanceAs (Decidable (Meets _ _ (a.desktop.animate lerp now) _))
  | .spawnWindow _ _ _ _ _ | .drawFrame => inferInstanceAs (Decidable True)

/-- The mouse moves over a window, does something there, and leaves it. -/
def visitsWindow (there : List LoopEvent) : List LoopEvent :=
  [.stepAnimations 0, .message 0 (.client "a" (.createWindow 300 300)), .drawFrame,
    .stepAnimations 300, mouseEvent 10 0 false] ++ there ++ [mouseEvent 400 0 false]

theorem visitsWindow_click_alternates : ∃ d a,
    Desktop.boot ⟨1000, 1000⟩ ⟨⟨12, 12⟩, ⟨12, 12⟩⟩ [] = some d ∧
    run (awmNext linearLerp) ⟨d, .animations⟩
      (visitsWindow [mouseEvent 0 0 true, mouseEvent 0 0 false]) = some a ∧
    messagesTo "a" a.desktop.hoverSent = [.mouseEntered, .mouseExited] ∧
    a.desktop.HoverMatches "a" := by
  refine ⟨_, _, rfl, rfl, by decide, ?_⟩
  have hboot : Desktop.boot ⟨1000, 1000⟩ ⟨⟨12, 12⟩, ⟨12, 12⟩⟩ [] =
      some (Desktop.new ⟨1000, 1000⟩ ⟨⟨12, 12⟩, ⟨12, 12⟩⟩) := rfl
  have hstrict : Meets (awmNext linearLerp) (AvoidsTitleBar linearLerp)
      ⟨Desktop.new ⟨1000, 1000⟩ ⟨⟨12, 12⟩, ⟨12, 12⟩⟩, .animations⟩
      (visitsWindow [mouseEvent 0 0 true, mouseEvent 0 0 false]) := by decide
  exact hover_alternates linearLerp hboot hstrict ⟨_, List.prefix_refl _, rfl⟩ "a"

theorem not_hoverMatches_of_exits_twice {service : String}
    (h : messagesTo service d.hoverSent = [.mouseEntered, .mouseExited, .mouseExited]) :
    ¬ d.HoverMatches service := by
  rintro ⟨n, hmessages, -⟩
  rw [h] at hmessages
  have hn : 3 = n := by simpa [alternating] using congrArg List.length hmessages
  subst hn
  exact absurd hmessages (by decide)

/-- Into the title bar and back: the owner is told twice that the mouse has exited. -/
theorem visitsWindow_titleBar_exits_twice : ∃ d a,
    Desktop.boot ⟨1000, 1000⟩ ⟨⟨12, 12⟩, ⟨12, 12⟩⟩ [] = some d ∧
    Meets (awmNext linearLerp) InLoopOrder ⟨d, .animations⟩
      (visitsWindow [mouseEvent 0 (-165) false, mouseEvent 0 165 false]) ∧
    run (awmNext linearLerp) ⟨d, .animations⟩
      (visitsWindow [mouseEvent 0 (-165) false, mouseEvent 0 165 false]) = some a ∧
    messagesTo "a" a.desktop.hoverSent = [.mouseEntered, .mouseExited, .mouseExited] ∧
    ¬ a.desktop.HoverMatches "a" := by
  refine ⟨_, _, rfl, by decide, rfl, by decide, ?_⟩
  exact not_hoverMatches_of_exits_twice (by decide)

end Axle.Awm
