import Axle.Awm.WellFormed

/-!
# The mouse and what it reports

`MouseState::compute_state_changes` binds the position of the mouse to the screen and reports how
far the packet asked it to move, not how far it has moved.

* `handleMousePacket_mouse` — **PROVED**: no handler of a packet touches the mouse again;
* `mouse_tracks_iff` — **PROVED**: the mouse stays on the screen and the movements reported add up
  to its own exactly as long as no packet takes it over an edge.
-/

namespace Axle.Awm

open Axle.Agx Axle.Lib.StepRun

namespace Desktop

/-! ### What the handlers leave alone -/

/-- The state of the mouse, the screen, and the frames that minimized windows came from. -/
structure SameMouseState (d d' : Desktop) : Prop where
  mouseState : d'.mouseState = d.mouseState
  desktopSize : d'.desktopSize = d.desktopSize
  unminimizedFrame : ∀ w, (d'.window w).unminimizedFrame = (d.window w).unminimizedFrame

namespace SameMouseState

variable {d d' d'' : Desktop}

theorem refl (d : Desktop) : SameMouseState d d := ⟨rfl, rfl, fun _ => rfl⟩

theorem trans (h : SameMouseState d d') (h' : SameMouseState d' d'') : SameMouseState d d'' :=
  ⟨h'.mouseState.trans h.mouseState, h'.desktopSize.trans h.desktopSize,
    fun w => (h'.unminimizedFrame w).trans (h.unminimizedFrame w)⟩

section

variable (d : Desktop)

theorem send (destination : String) (message : Sent) :
    SameMouseState d (d.send destination message) :=
  ⟨rfl, rfl, fun _ => rfl⟩

theorem sendToOwner (w : ElementId) (message : Sent) : SameMouseState d (d.sendToOwner w message) :=
  ⟨rfl, rfl, fun _ => rfl⟩

theorem setFrame (e : ElementId) (frame : Rect) : SameMouseState d (d.setFrame e frame) :=
  ⟨rfl, rfl, fun _ => rfl⟩

theorem modifyWindow (w : ElementId) {f : Window → Window}
    (hf : ∀ window, (f window).unminimizedFrame = window.unminimizedFrame) :
    SameMouseState d (d.modifyWindow w f) := by
  refine ⟨rfl, rfl, fun x => ?_⟩
  show (Function.update d.window w (f (d.window w)) x).unminimizedFrame = _
  by_cases hx : x = w
  · subst hx
    rw [Function.update_self]
    exact hf _
  · rw [Function.update_of_ne hx]

theorem queueFullRedraw (r : Rect) : SameMouseState d (d.queueFullRedraw r) := by
  unfold Desktop.queueFullRedraw
  dsimp only
  split
  · exact refl d
  · exact ⟨rfl, rfl, fun _ => rfl⟩

end

theorem foldl {α : Type*} {f : Desktop → α → Desktop} (hf : ∀ d a, SameMouseState d (f d a)) :
    ∀ (items : List α) (d : Desktop), SameMouseState d (items.foldl f d) := by
  intro items
  induction items with
  | nil => exact refl
  | cons a items ih => exact fun d => (hf d a).trans (ih (f d a))

section

variable (d : Desktop)

theorem recompute (rect : Rect) : SameMouseState d (d.recomputeDrawableRegionsInRect rect) := by
  obtain ⟨rects, queue, heq, -⟩ := recompute_eq d rect
  rw [heq]
  exact ⟨rfl, rfl, fun _ => rfl⟩

theorem redrawShortcut (s : ElementId) (f : DesktopShortcut → DesktopShortcut) :
    SameMouseState d (d.redrawShortcut s f) :=
  (show SameMouseState d (d.modifyShortcut s f) from ⟨rfl, rfl, fun _ => rfl⟩).trans
    (recompute _ _)

theorem transitionToTitleBarHoverStateForWindow (w : ElementId)
    (state : TitleBarButtonsHoverState) :
    SameMouseState d (d.transitionToTitleBarHoverStateForWindow w state) := by
  have hmod : SameMouseState d (d.modifyWindow w fun window =>
      { window with titleBarButtonsHoverState := state }) := modifyWindow d w fun _ => rfl
  unfold Desktop.transitionToTitleBarHoverStateForWindow
  dsimp only
  split
  · exact hmod.trans (queueFullRedraw _ _)
  · exact hmod

theorem informExited (state : MouseInteractionState) : SameMouseState d (d.informExited state) := by
  have hwindow : ∀ w, SameMouseState d (if state.window? ≠ some w then
      (d.transitionToTitleBarHoverStateForWindow w .unhovered).sendToOwner w .mouseExited
      else d) := by
    intro w
    split
    · exact (transitionToTitleBarHoverStateForWindow d w _).trans (sendToOwner _ _ _)
    · exact refl d
  unfold Desktop.informExited
  split
  · exact refl d
  all_goals first
    | exact hwindow _
    | exact refl d
    | skip
  split
  · exact redrawShortcut d _ _
  · exact refl d

theorem informEnteredTitleBar (state : MouseInteractionState) :
    SameMouseState d (d.informEnteredTitleBar state) := by
  unfold Desktop.informEnteredTitleBar
  split
  · split
    · exact sendToOwner d _ _
    · exact refl d
  · exact refl d

theorem informEnteredWindow (state : MouseInteractionState) :
    SameMouseState d (d.informEnteredWindow state) := by
  unfold Desktop.informEnteredWindow
  split
  · split
    · exact sendToOwner d _ _
    · exact refl d
  · exact refl d

theorem informEnteredShortcut (state : MouseInteractionState) :
    SameMouseState d (d.informEnteredShortcut state) := by
  unfold Desktop.informEnteredShortcut
  split
  · split
    · exact redrawShortcut d _ _
    · exact refl d
  · exact refl d

theorem transition (state : MouseInteractionState) :
    SameMouseState d (d.transitionToMouseInteractionState state) := by
  unfold transitionToMouseInteractionState
  split
  · exact refl d
  · have hinform := (((informExited d state).trans (informEnteredTitleBar _ state)).trans
      (informEnteredWindow _ state)).trans (informEnteredShortcut _ state)
    exact ⟨hinform.mouseState, hinform.desktopSize, hinform.unminimizedFrame⟩

end

theorem moveWindowToTop {w : ElementId} (h : d.moveWindowToTop w = some d') :
    SameMouseState d d' := by
  unfold Desktop.moveWindowToTop at h
  split at h
  · rw [← Option.some.inj h]
    have hraised : SameMouseState d { d with windows := w :: d.windows.erase w } :=
      ⟨rfl, rfl, fun _ => rfl⟩
    exact hraised.trans (recompute _ _)
  · cases h

/-! ### The handlers of a packet -/

theorem shortcutLeftClickBegan (d : Desktop) (now : ℕ) (s : ElementId) :
    SameMouseState d (d.shortcutLeftClickBegan now s) := by
  unfold Desktop.shortcutLeftClickBegan
  split
  · exact redrawShortcut d _ _
  · split
    · exact (send d _ _).trans (redrawShortcut _ _ _)
    · exact redrawShortcut d _ _

theorem clickWindow (d : Desktop) (w : ElementId) : SameMouseState d (d.clickWindow w) := by
  unfold Desktop.clickWindow
  split
  · exact sendToOwner d w _
  · exact send d _ _
  · split
    · exact sendToOwner d w _
    · exact refl d

variable {now : ℕ}

theorem handleLeftClickBegan (h : d.handleLeftClickBegan now = some d') : SameMouseState d d' := by
  unfold Desktop.handleLeftClickBegan at h
  refine (transition d (d.mouseInteractionStateForMouseState true)).trans ?_
  generalize d.transitionToMouseInteractionState (d.mouseInteractionStateForMouseState true) = e
    at h
  dsimp only at h
  split at h
  · rename_i w _
    obtain ⟨e', he', rfl⟩ := Option.map_eq_some_iff.mp h
    refine SameMouseState.trans ?_ (clickWindow e' w)
    split at he'
    · rw [← Option.some.inj he']
      exact refl e
    · exact moveWindowToTop he'
  · split at h
    · rw [← Option.some.inj h]
      exact shortcutLeftClickBegan _ _ _
    · rw [← Option.some.inj h]
      exact refl e

theorem snapShortcut {s : ElementId} (h : d.snapShortcut now s = some d') :
    SameMouseState d d' := by
  obtain ⟨slot, hslot, rfl⟩ := Option.map_eq_some_iff.mp h
  have htransfer : SameMouseState d slot.2 := by
    unfold transferShortcutToNearestSlot at hslot
    split at hslot
    · cases hslot
    · obtain ⟨nearest, -, rfl⟩ := Option.map_eq_some_iff.mp hslot
      exact ⟨rfl, rfl, fun _ => rfl⟩
  exact ⟨htransfer.mouseState, htransfer.desktopSize, htransfer.unminimizedFrame⟩

theorem informLeftClickEnded (h : d.informLeftClickEnded now = some d') : SameMouseState d d' := by
  unfold Desktop.informLeftClickEnded at h
  split at h
  · rw [← Option.some.inj h]
    exact sendToOwner d _ _
  · rw [← Option.some.inj h]
    exact sendToOwner d _ _
  · rw [← Option.some.inj h]
    exact redrawShortcut d _ _
  · exact (redrawShortcut d _ _).trans (snapShortcut h)
  · rw [← Option.some.inj h]
    exact refl d

theorem handleLeftClickEnded (h : d.handleLeftClickEnded now = some d') : SameMouseState d d' := by
  obtain ⟨e, he, rfl⟩ := Option.map_eq_some_iff.mp h
  refine (informLeftClickEnded he).trans ?_
  split
  · exact transition _ _
  · exact refl _

theorem queueUpdates (d : Desktop) (oldFrame newFrame : Rect) :
    SameMouseState d (d.queueCompositorUpdatesForOldAndNewElementFrame oldFrame newFrame) := by
  unfold queueCompositorUpdatesForOldAndNewElementFrame
  split
  · exact (recompute d _).trans (foldl queueFullRedraw _ _)
  · exact (recompute d _).trans (queueFullRedraw _ _)

theorem changeFrame (d : Desktop) (e : ElementId) (frame : Rect) :
    SameMouseState d (d.changeFrame e frame) :=
  (setFrame d e frame).trans (queueUpdates _ _ _)

theorem informMouseMoved (d : Desktop) (relShift : Point) :
    SameMouseState d (d.informMouseMoved relShift) := by
  unfold Desktop.informMouseMoved
  split
  · exact (transitionToTitleBarHoverStateForWindow d _ _).trans (sendToOwner _ _ _)
  · exact transitionToTitleBarHoverStateForWindow d _ _
  · exact refl d
  · exact changeFrame d _ _
  · exact refl d

theorem handleMouseMoved (d : Desktop) (relShift : Point) :
    SameMouseState d (d.handleMouseMoved relShift) := by
  unfold Desktop.handleMouseMoved
  split
  · exact changeFrame d _ _
  · exact sendToOwner d _ _
  · exact ((setFrame d _ _).trans (sendToOwner _ _ _)).trans (queueUpdates _ _ _)
  · exact (transition d _).trans (informMouseMoved _ _)

theorem handleMouseStateChange {change : MouseStateChange}
    (h : Desktop.handleMouseStateChange now d change = some d') : SameMouseState d d' := by
  cases change with
  | leftClickBegan => exact handleLeftClickBegan h
  | leftClickEnded => exact handleLeftClickEnded h
  | moved pos relShift =>
    rw [← Option.some.inj h]
    exact handleMouseMoved d relShift
  | scrolled deltaZ =>
    rw [← Option.some.inj h]
    unfold handleMouseScrolled
    split
    · exact sendToOwner d _ _
    · exact refl d

/-- **The mouse is touched by nothing but the start of a packet.** -/
theorem handleMousePacket {packet : MousePacket} (h : d.handleMousePacket now packet = some d') :
    SameMouseState (d.mousePacketStart packet).1 d' := by
  unfold Desktop.handleMousePacket at h
  generalize (d.mousePacketStart packet).1 = e at h
  generalize (d.mousePacketStart packet).2 = changes at h
  induction changes generalizing e with
  | nil =>
    rw [← Option.some.inj h]
    exact refl e
  | cons change changes ih =>
    obtain ⟨e', he', hrest⟩ := run_cons_eq_some.mp h
    exact (handleMouseStateChange he').trans (ih e' hrest)

end SameMouseState

/-! ### A run of packets -/

/-- The sum of the movements among some changes. -/
def sumMoved : List MouseStateChange → Point
  | [] => Point.zero
  | .moved _ delta :: changes => delta + sumMoved changes
  | _ :: changes => sumMoved changes

/-- A desktop, and the sum of the movements reported to it. -/
structure MouseTrack where
  desktop : Desktop
  moved : Point

/-- One packet, up to the handlers of its changes. -/
def trackNext (t : MouseTrack) (packet : MousePacket) : Option MouseTrack :=
  some ⟨(t.desktop.mousePacketStart packet).1,
    t.moved + sumMoved (t.desktop.mousePacketStart packet).2⟩

def OnScreen (d : Desktop) : Prop :=
  0 ≤ d.mouseState.pos.x ∧ d.mouseState.pos.x < d.desktopSize.width ∧
    0 ≤ d.mouseState.pos.y ∧ d.mouseState.pos.y < d.desktopSize.height

instance (d : Desktop) : Decidable d.OnScreen := inferInstanceAs (Decidable (_ ∧ _ ∧ _ ∧ _))

/-- The packet does not take the mouse over an edge of the area that it is bound to: the screen,
short of 4 columns and 10 rows. -/
def StaysWithin (t : MouseTrack) (packet : MousePacket) : Prop :=
  0 ≤ t.desktop.mouseState.pos.x + packet.relX ∧
    t.desktop.mouseState.pos.x + packet.relX ≤ t.desktop.desktopSize.width - 4 ∧
    0 ≤ t.desktop.mouseState.pos.y + packet.relY ∧
    t.desktop.mouseState.pos.y + packet.relY ≤ t.desktop.desktopSize.height - 10

/-- The mouse after a packet: at the place asked for, bound to the screen. -/
theorem mousePacketStart_pos (d : Desktop) (packet : MousePacket) :
    (d.mousePacketStart packet).1.mouseState.pos =
      ⟨min (max (d.mouseState.pos.x + packet.relX) 0) (d.desktopSize.width - 4),
        min (max (d.mouseState.pos.y + packet.relY) 0) (d.desktopSize.height - 10)⟩ := by
  have hqueue := fun e r => (SameMouseState.queueFullRedraw e r).mouseState
  unfold mousePacketStart
  rw [hqueue]
  rfl

theorem mousePacketStart_desktopSize (d : Desktop) (packet : MousePacket) :
    (d.mousePacketStart packet).1.desktopSize = d.desktopSize :=
  (mousePacketStart_quiet d packet).desktopSize

theorem sumMoved_append (changes changes' : List MouseStateChange) :
    sumMoved (changes ++ changes') = sumMoved changes + sumMoved changes' := by
  induction changes with
  | nil => ext <;> simp [sumMoved, Point.zero]
  | cons change changes ih =>
    cases change <;> simp only [List.cons_append, sumMoved, ih]
    ext <;> simp [add_assoc]

/-- What a packet reports is what it asks for. -/
theorem sumMoved_mousePacketStart (d : Desktop) (packet : MousePacket) :
    sumMoved (d.mousePacketStart packet).2 = ⟨packet.relX, packet.relY⟩ := by
  have hdelta : d.mouseState.pos + ⟨packet.relX, packet.relY⟩ - d.mouseState.pos =
      (⟨packet.relX, packet.relY⟩ : Point) := by ext <;> simp
  unfold mousePacketStart computeStateChanges
  dsimp only
  rw [hdelta, sumMoved_append, sumMoved_append]
  have hscrolled : sumMoved (if packet.relZ ≠ 0 then [.scrolled packet.relZ] else []) =
      Point.zero := by split <;> rfl
  have hmoved : ∀ pos, sumMoved (if packet.relX ≠ 0 ∨ packet.relY ≠ 0 then
      [.moved pos ⟨packet.relX, packet.relY⟩] else []) = ⟨packet.relX, packet.relY⟩ := by
    intro pos
    split
    · ext <;> simp [sumMoved, Point.zero]
    · have hx : packet.relX = 0 := by omega
      have hy : packet.relY = 0 := by omega
      rw [hx, hy]
      rfl
  have hclick : sumMoved (if packet.status.getLsbD 0 then
      if !d.mouseState.leftClickDown then [MouseStateChange.leftClickBegan] else []
      else if d.mouseState.leftClickDown then [MouseStateChange.leftClickEnded] else []) =
      Point.zero := by
    split <;> split <;> rfl
  rw [hscrolled, hmoved, hclick]
  ext <;> simp [Point.zero]

/-- The new state of the mouse is computed from the old one and the size of the screen. -/
theorem mousePacketStart_mouseState (d : Desktop) (packet : MousePacket) :
    (d.mousePacketStart packet).1.mouseState =
      ⟨(d.mousePacketStart packet).1.mouseState.pos, packet.status.getLsbD 0⟩ := by
  have hqueue := fun e r => (SameMouseState.queueFullRedraw e r).mouseState
  unfold mousePacketStart
  rw [hqueue]
  rfl

/-- **The handlers leave the mouse where the packets put it.** -/
theorem handleMousePacket_mouse : ∀ {es : List (ℕ × MousePacket)} {d d' : Desktop} {t : MouseTrack},
    d.mouseState = t.desktop.mouseState → d.desktopSize = t.desktop.desktopSize →
    run (fun d e => d.handleMousePacket e.1 e.2) d es = some d' →
    ∃ t', run trackNext t (es.map Prod.snd) = some t' ∧
      d'.mouseState = t'.desktop.mouseState ∧ d'.desktopSize = t'.desktop.desktopSize := by
  intro es
  induction es with
  | nil =>
    intro d d' t hmouse hsize hrun
    obtain rfl : d = d' := Option.some.inj hrun
    exact ⟨t, rfl, hmouse, hsize⟩
  | cons e es ih =>
    intro d d' t hmouse hsize hrun
    obtain ⟨u, hu, hrest⟩ := run_cons_eq_some.mp hrun
    have hsame := SameMouseState.handleMousePacket hu
    have hpos : (d.mousePacketStart e.2).1.mouseState =
        (t.desktop.mousePacketStart e.2).1.mouseState := by
      rw [mousePacketStart_mouseState, mousePacketStart_mouseState t.desktop,
        mousePacketStart_pos, mousePacketStart_pos, hmouse, hsize]
    have hscreen : (d.mousePacketStart e.2).1.desktopSize =
        (t.desktop.mousePacketStart e.2).1.desktopSize := by
      rw [mousePacketStart_desktopSize, mousePacketStart_desktopSize, hsize]
    obtain ⟨t', ht', hend⟩ := ih (t := ⟨(t.desktop.mousePacketStart e.2).1,
      t.moved + sumMoved (t.desktop.mousePacketStart e.2).2⟩) (hsame.mouseState.trans hpos)
      (hsame.desktopSize.trans hscreen) hrest
    exact ⟨t', ht', hend⟩

/-- What a run starting with the mouse at `start` is to keep. -/
def Tracks (start : Point) (t : MouseTrack) : Prop :=
  t.desktop.OnScreen ∧ t.moved = t.desktop.mouseState.pos - start

variable {packet : MousePacket} {t t' : MouseTrack}

/-- **One packet** keeps the mouse tracked exactly when it stays within the edges. -/
theorem tracks_next_iff {start : Point} (h : Tracks start t)
    (hnext : trackNext t packet = some t') : Tracks start t' ↔ StaysWithin t packet := by
  obtain rfl := Option.some.inj hnext
  obtain ⟨-, hmoved⟩ := h
  have hx : t.moved.x = t.desktop.mouseState.pos.x - start.x := by rw [hmoved]; rfl
  have hy : t.moved.y = t.desktop.mouseState.pos.y - start.y := by rw [hmoved]; rfl
  unfold Tracks OnScreen StaysWithin
  rw [sumMoved_mousePacketStart, mousePacketStart_pos, mousePacketStart_desktopSize,
    Point.ext_iff]
  simp only [Point.add_x, Point.add_y, Point.sub_x, Point.sub_y]
  omega

/-- On a screen with room for the mouse. -/
def OnRoomyScreen (t : MouseTrack) : Prop :=
  4 ≤ t.desktop.desktopSize.width ∧ 10 ≤ t.desktop.desktopSize.height ∧ t.desktop.OnScreen

theorem onRoomyScreen_next (h : OnRoomyScreen t) (hnext : trackNext t packet = some t') :
    OnRoomyScreen t' := by
  obtain rfl := Option.some.inj hnext
  unfold OnRoomyScreen OnScreen at h ⊢
  rw [mousePacketStart_pos, mousePacketStart_desktopSize]
  dsimp only
  omega

/-- **The mouse and what it reports.**  For every run of packets: the mouse is on the screen and
the movements reported add up to its own, in every state on the way, exactly when it starts on the
screen and no packet takes it over an edge.  On a screen of at least 4 columns and 10 rows it stays
on the screen in any case; and with the handlers of the changes it goes the same way. -/
theorem mouse_tracks_iff (d : Desktop) (packets : List MousePacket) :
    ((∀ t, Passes trackNext ⟨d, Point.zero⟩ packets t → Tracks d.mouseState.pos t) ↔
      d.OnScreen ∧ Meets trackNext StaysWithin ⟨d, Point.zero⟩ packets) ∧
    (4 ≤ d.desktopSize.width → 10 ≤ d.desktopSize.height → d.OnScreen →
      ∀ t, Passes trackNext ⟨d, Point.zero⟩ packets t → t.desktop.OnScreen) ∧
    (∀ es : List (ℕ × MousePacket), es.map Prod.snd = packets → ∀ d',
      run (fun d e => d.handleMousePacket e.1 e.2) d es = some d' →
      ∃ t, run trackNext ⟨d, Point.zero⟩ packets = some t ∧
        d'.mouseState = t.desktop.mouseState ∧ d'.desktopSize = t.desktop.desktopSize) := by
  have hzero : Point.zero = d.mouseState.pos - d.mouseState.pos := by
    ext <;> simp [Point.zero]
  refine ⟨⟨fun hlaw => ?_, ?_⟩, fun hwidth hheight hstart t ht => ?_,
    fun es hes d' hrun => ?_⟩
  · have hfirst := hlaw _ ⟨[], List.nil_prefix, rfl⟩
    refine ⟨hfirst.1, meets_of_passes
      (fun s e t hs _ hok hnext => (tracks_next_iff hs hnext).mpr hok) hfirst
      (Meets.trivial packets _) hlaw fun s e hs _ hgood => ?_⟩
    exact (tracks_next_iff hs rfl).mp (hgood _ rfl)
  · rintro ⟨hstart, hmeets⟩ t ht
    exact passes_invariant (fun s e t hs hok hnext => (tracks_next_iff hs hnext).mpr hok)
      ⟨hstart, hzero⟩ hmeets ht
  · have hroomy : OnRoomyScreen t := passes_invariant
      (fun _ _ _ hs _ hnext => onRoomyScreen_next hs hnext) ⟨hwidth, hheight, hstart⟩
      (Meets.trivial packets _) ht
    exact hroomy.2.2
  · subst hes
    exact handleMousePacket_mouse rfl rfl hrun

/-- A screen of 640 by 480, with the mouse in the middle. -/
def vgaDesktop : Desktop := Desktop.new ⟨640, 480⟩ ⟨⟨19, 19⟩, ⟨19, 19⟩⟩

/-- A packet asks for 1000 columns to the left: the mouse moves by 320, and 1000 are reported. -/
theorem mouse_over_edge : vgaDesktop.OnScreen ∧ vgaDesktop.mouseState.pos = ⟨320, 240⟩ ∧
    ∃ t, run trackNext ⟨vgaDesktop, Point.zero⟩ [⟨0, -1000, 0, 0⟩] = some t ∧
      t.desktop.mouseState.pos = ⟨0, 240⟩ ∧ t.moved = ⟨-1000, 0⟩ ∧
      ¬ Tracks vgaDesktop.mouseState.pos t := by
  refine ⟨by decide +kernel, by decide +kernel, _, rfl, by decide +kernel, by decide +kernel,
    fun h => ?_⟩
  exact absurd h.2 (by decide +kernel)

end Desktop

end Axle.Awm
