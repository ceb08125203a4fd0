import Axle.Awm.References

/-!
# The window manager and its clients

When the handlers panic.  A message of a client, a notification that a service has died and a
request of the dock are about a window, and the handler looks the window up and panics if there is
none; a window is there until its closing animation is complete, and nothing keeps its owner or
the dock from sending messages about it after that.

* `handleMessage_total` — **PROVED**: no handler panics on a message whose window is there;
* `drawFrame_total` — **PROVED**: nor does a draw, in the order of the main loop, unless an empty
  rectangle takes part in it;
* `awm_survives` — **PROVED**: a run in the order of the main loop in which every message about a
  window comes while the window is there never panics.
-/

namespace Axle.Awm

open Axle.Agx Axle.Lib.StepRun

namespace Desktop

variable {d d' : Desktop}

/-! ### Lookups -/

/-- The service has a window. -/
def HasWindow (d : Desktop) (service : String) : Prop := ∃ w ∈ d.windows, d.owner w = service

variable {service : String} {id : ElementId} {now : ℕ} {redraw : Rect}

theorem windowForOwner_total (h : d.HasWindow service) :
    ∃ w, d.windowForOwner service = some w := by
  obtain ⟨w, hw, howner⟩ := h
  rw [← Option.isSome_iff_exists]
  unfold windowForOwner
  rw [List.find?_isSome]
  exact ⟨w, hw, decide_eq_true howner⟩

theorem windowWithId_total (h : id ∈ d.windows) : d.windowWithId id = some id := by
  unfold windowWithId
  cases hfind : d.windows.find? fun w => w = id with
  | none => exact absurd (List.find?_eq_none.mp hfind id h) (by simp)
  | some w =>
    have hw := List.find?_some hfind
    rw [of_decide_eq_true hw]

theorem moveWindowToTop_total {w : ElementId} (h : w ∈ d.windows) :
    ∃ d', d.moveWindowToTop w = some d' := by
  unfold moveWindowToTop
  rw [if_pos h]
  exact ⟨_, rfl⟩

/-! ### The mouse -/

theorem nearestOf_total {shortcutFrame : Rect} (hpos : shortcutFrame.Positive)
    (slots : List DesktopShortcutGridSlot) :
    ∀ best : DesktopShortcutGridSlot,
      (∀ slot ∈ best :: slots, slot.frame.Positive ∧
        slot.frame.intersectsWith shortcutFrame = true) →
      ∃ nearest, nearestOf shortcutFrame best slots = some nearest := by
  induction slots with
  | nil => exact fun best _ => ⟨best, rfl⟩
  | cons slot rest ih =>
    intro best hall
    have hbest := hall best List.mem_cons_self
    have hslot := hall slot (List.mem_cons_of_mem _ List.mem_cons_self)
    obtain ⟨o1, h1, -⟩ := Rect.areaOverlappingWith_spec hbest.1 hpos hbest.2
    obtain ⟨o2, h2, -⟩ := Rect.areaOverlappingWith_spec hslot.1 hpos hslot.2
    unfold nearestOf
    rw [h1, h2]
    apply ih
    intro x hx
    rcases List.mem_cons.mp hx with rfl | hx
    · split
      · exact hbest
      · exact hslot
    · exact hall x (List.mem_cons_of_mem _ (List.mem_cons_of_mem _ hx))

/-- A shortcut that is in a slot has a slot to go to. -/
theorem transferShortcutToNearestSlot_total {s : ElementId}
    (hslots : ∀ r ∈ d.slots.map DesktopShortcutGridSlot.frame, r.Positive)
    (hheld : ∃ slot ∈ d.slots, slot.occupant = some s) (hpos : (d.frame s).Positive) :
    ∃ slot, d.transferShortcutToNearestSlot s = some slot := by
  obtain ⟨held, hmem, hocc⟩ := hheld
  unfold transferShortcutToNearestSlot
  split
  · rename_i hnone
    exact absurd (List.find?_eq_none.mp hnone held hmem) (by simp [hocc])
  · rename_i previous _
    dsimp only
    generalize hfree : (List.map (fun slot : DesktopShortcutGridSlot =>
      if slot.coordinates = previous.coordinates then { slot with occupant := none } else slot)
        d.slots) = slots
    have hslots' : ∀ slot ∈ slots, slot.frame.Positive := by
      intro slot hslot
      apply hslots
      rw [← setOccupant_frames previous.coordinates none d.slots, hfree]
      exact List.mem_map_of_mem hslot
    split
    · exact ⟨_, rfl⟩
    · rename_i slot rest hnear
      have hall : ∀ x ∈ slot :: rest, x.frame.Positive ∧
          x.frame.intersectsWith (d.frame s) = true := by
        intro x hx
        rw [← hnear] at hx
        obtain ⟨hin, hmeet⟩ := List.mem_filter.mp hx
        rw [Bool.and_eq_true] at hmeet
        exact ⟨hslots' x hin, hmeet.2⟩
      obtain ⟨nearest, hnearest⟩ := nearestOf_total hpos rest slot hall
      rw [hnearest]
      exact ⟨_, rfl⟩

/-- The shortcut that is being dragged. -/
def draggedShortcut? (d : Desktop) : Option ElementId :=
  match d.mouseInteractionState with
  | .shortcutDrag s => some s
  | _ => none

/-- A shortcut that is let go is in a slot, and not an empty rectangle. -/
def ChangeServed (d : Desktop) : MouseStateChange → Prop
  | .leftClickEnded => ∀ s ∈ d.draggedShortcut?,
      (∃ slot ∈ d.slots, slot.occupant = some s) ∧ (d.frame s).Positive
  | _ => True

theorem redrawShortcut_slots (s : ElementId) (f : DesktopShortcut → DesktopShortcut) :
    (d.redrawShortcut s f).slots = d.slots := by
  obtain ⟨rects, queue, heq, -⟩ := recompute_eq (d.modifyShortcut s f) ((d.modifyShortcut s f).frame s)
  unfold redrawShortcut
  rw [heq]
  rfl

theorem handleLeftClickBegan_total (now : ℕ) : ∃ d', d.handleLeftClickBegan now = some d' := by
  unfold handleLeftClickBegan
  dsimp only
  split
  · rename_i w hw
    split
    · exact ⟨_, rfl⟩
    · obtain ⟨e', he'⟩ := moveWindowToTop_total (mem_of_windowContainingPoint hw)
      rw [he']
      exact ⟨_, rfl⟩
  · split
    · exact ⟨_, rfl⟩
    · exact ⟨_, rfl⟩

theorem handleLeftClickEnded_total (h : d.WellFormed) (now : ℕ)
    (hserved : d.ChangeServed .leftClickEnded) : ∃ d', d.handleLeftClickEnded now = some d' := by
  have hinform : ∃ e, d.informLeftClickEnded now = some e := by
    unfold informLeftClickEnded
    cases hmis : d.mouseInteractionState with
    | shortcutDrag s =>
      have hdragged : d.draggedShortcut? = some s := by
        unfold draggedShortcut?
        rw [hmis]
      obtain ⟨hheld, hpos⟩ := hserved s hdragged
      have hsame : Recomputed d (d.shortcutLeftClickEnded now s) :=
        Recomputed.redrawShortcut d s _
      have hslots : (d.shortcutLeftClickEnded now s).slots = d.slots := redrawShortcut_slots s _
      have hfree : ∃ slot,
          (d.shortcutLeftClickEnded now s).transferShortcutToNearestSlot s = some slot := by
        apply transferShortcutToNearestSlot_total
        · rw [hslots]
          exact h.slots_positive
        · rw [hslots]
          exact hheld
        · rw [hsame.frame]
          exact hpos
      obtain ⟨slot, hslot⟩ := hfree
      dsimp only
      unfold snapShortcut
      rw [hslot]
      exact ⟨_, rfl⟩
    | backgroundHover | windowHover w | hintingWindowDrag w | hintingWindowResize w
    | performingWindowDrag w | performingWindowResize w | mouseDragWithinWindow w
    | shortcutHover s => exact ⟨_, rfl⟩
  obtain ⟨e, he⟩ := hinform
  unfold handleLeftClickEnded
  rw [he]
  exact ⟨_, rfl⟩

theorem handleMouseStateChange_total (h : d.WellFormed) (now : ℕ) {change : MouseStateChange}
    (hserved : d.ChangeServed change) : ∃ d', handleMouseStateChange now d change = some d' := by
  cases change with
  | leftClickBegan => exact handleLeftClickBegan_total now
  | leftClickEnded => exact handleLeftClickEnded_total h now hserved
  | moved pos relShift => exact ⟨_, rfl⟩
  | scrolled deltaZ => exact ⟨_, rfl⟩

/-- Every change of a packet is served, in the state it is handled in. -/
def PacketServed (d : Desktop) (now : ℕ) (packet : MousePacket) : Prop :=
  Meets (handleMouseStateChange now) ChangeServed (d.mousePacketStart packet).1
    (d.mousePacketStart packet).2

theorem handleMousePacket_total (h : d.WellFormed) {packet : MousePacket}
    (hserved : d.PacketServed now packet) : ∃ d', d.handleMousePacket now packet = some d' := by
  have hstart : (d.mousePacketStart packet).1.WellFormed := h.quiet (mousePacketStart_quiet d packet)
  have hstep : ∀ (e : Desktop) (change : MouseStateChange), e.WellFormed → e.ChangeServed change →
      ∃ e', handleMouseStateChange now e change = some e' ∧ e'.WellFormed := by
    intro e change he hchange
    obtain ⟨e', he'⟩ := handleMouseStateChange_total he now hchange
    have hsteps : Steps False e e' :=
      handleMouseStateChange_steps he.shortcutKnown (fun hs => hs.elim) he'
    exact ⟨e', he', hsteps.wellFormed he⟩
  obtain ⟨d', hd', -⟩ := run_total hstep _ _ hstart hserved
  exact ⟨d', hd'⟩

/-! ### The other messages -/

/-- The chord that panics on purpose. -/
def IsPanicChord (d : Desktop) (packet : KeyboardPacket) : Prop :=
  packet.eventType = .pressed ∧ packet.key = 'a'.toNat ∧
    KeyboardModifier.control ∈ d.pressedModifiers

theorem handleKeyboardEvent_total {packet : KeyboardPacket} (h : ¬ d.IsPanicChord packet) :
    ∃ d', d.handleKeyboardEvent packet = some d' := by
  have hchord : ∃ e, (d.updateModifiers packet).handleChord packet = some e := by
    have hsame : packet.key = 'a'.toNat → d.updateModifiers packet = d := by
      intro hkey
      unfold updateModifiers
      rw [hkey, show modifierOfKey 'a'.toNat = none from rfl]
    unfold handleChord
    split
    · rename_i hpressed
      split
      · cases hbottom : (d.updateModifiers packet).bottomWindow with
        | none => exact ⟨_, rfl⟩
        | some w =>
          have hin := List.mem_of_getLast? hbottom
          exact moveWindowToTop_total (List.mem_filter.mp hin).1
      · split
        · split
          · exact ⟨_, rfl⟩
          · exact ⟨_, rfl⟩
        · split
          · rename_i hkey
            rw [hsame hkey] at hpressed
            exact absurd ⟨hpressed.1, hkey, hpressed.2⟩ h
          · exact ⟨_, rfl⟩
    · exact ⟨_, rfl⟩
  obtain ⟨e, he⟩ := hchord
  unfold handleKeyboardEvent
  rw [he]
  exact ⟨_, rfl⟩

theorem handleDockTaskViewClicked_total (h : id ∈ d.windows) (now : ℕ) :
    ∃ d', d.handleDockTaskViewClicked now id = some d' := by
  obtain ⟨e, he⟩ := moveWindowToTop_total h
  unfold handleDockTaskViewClicked
  rw [windowWithId_total h, Option.bind_some, he]
  exact ⟨_, rfl⟩

/-- The message of a client is about a window that is there. -/
def ClientServed (d : Desktop) (source : String) : ClientMessage → Prop
  | .createWindow _ _ => True
  | .windowRedrawReady | .windowUpdateTitle _ | .closeWindow => d.HasWindow source
  | .windowPartialRedraw rectCount => rectCount ≤ 64
  | .other _ => False

/-- So is any other message. -/
def MessageServed (d : Desktop) (now : ℕ) : Message → Prop
  | .mouse packet => d.PacketServed now packet
  | .keyboard packet => ¬ d.IsPanicChord packet
  | .dockTaskViewClicked id | .dockWindowMinimizeWithInfo id _ => id ∈ d.windows
  | .serviceDied service => d.HasWindow service
  | .client source message => d.ClientServed source message
  | .desktopTraitsRequest | .preferencesUpdated | .dockTaskViewHovered
  | .dockTaskViewHoverExited => True

theorem map_windowForOwner_total (h : d.HasWindow service) (f : ElementId → Desktop) :
    ∃ d', (d.windowForOwner service).map f = some d' := by
  obtain ⟨w, hw⟩ := windowForOwner_total h
  rw [hw]
  exact ⟨_, rfl⟩

/-- **No handler panics on a message that is served (proved).** -/
theorem handleMessage_total (h : d.WellFormed) {message : Message}
    (hserved : d.MessageServed now message) : ∃ d', d.handleMessage now message = some d' := by
  cases message with
  | mouse packet => exact handleMousePacket_total h hserved
  | keyboard packet => exact handleKeyboardEvent_total hserved
  | desktopTraitsRequest | preferencesUpdated | dockTaskViewHovered | dockTaskViewHoverExited =>
    exact ⟨_, rfl⟩
  | dockTaskViewClicked id => exact handleDockTaskViewClicked_total hserved now
  | dockWindowMinimizeWithInfo id frame =>
    show ∃ d', (d.windowWithId id).map _ = some d'
    rw [windowWithId_total hserved]
    exact ⟨_, rfl⟩
  | serviceDied service => exact map_windowForOwner_total hserved _
  | client source message =>
    cases message with
    | createWindow width height => exact ⟨_, rfl⟩
    | windowRedrawReady | windowUpdateTitle title | closeWindow =>
      exact map_windowForOwner_total hserved _
    | windowPartialRedraw rectCount => exact ⟨d, if_pos hserved⟩
    | other event => exact hserved.elim

/-! ### Drawing -/

/-- No empty rectangle takes part in the redrawing of a rectangle. -/
def RectServed (d : Desktop) (redraw : Rect) : Prop :=
  redraw.Positive ∧ ∀ e ∈ d.compositorState.elements,
    (d.frame e).intersectsWith redraw = true →
    ∀ visible ∈ d.drawableRects e, visible.intersectsWith redraw = true → visible.Positive

theorem RectServed.queued (h : d.RectServed redraw) (hqueued : Queued d d') :
    d'.RectServed redraw := by
  unfold RectServed
  rw [hqueued.elements, hqueued.frame, hqueued.drawableRects]
  exact h

theorem extraDrawsOfElement_total (hpos : redraw.Positive) {e : ElementId} (rects : List Rect) :
    ∀ {d : Desktop} {undrawn : List Rect},
      (∀ visible ∈ rects, visible.intersectsWith redraw = true → visible.Positive) →
      ∃ out, extraDrawsOfElement redraw e rects d undrawn = some out := by
  induction rects with
  | nil => exact fun _ => ⟨_, rfl⟩
  | cons visible rest ih =>
    intro d undrawn hrects
    have hrest : ∀ r ∈ rest, r.intersectsWith redraw = true → r.Positive :=
      fun r hr => hrects r (List.mem_cons_of_mem _ hr)
    rw [extraDrawsOfElement]
    split
    · exact ih hrest
    · rename_i hmeet
      have hmeet' : visible.intersectsWith redraw = true := by simpa using hmeet
      split
      · exact ⟨_, rfl⟩
      · obtain ⟨o, ho, -⟩ := Rect.areaOverlappingWith_spec
          (hrects visible List.mem_cons_self hmeet') hpos hmeet'
        rw [ho]
        exact ih hrest

theorem extraDrawsOfElements_total (es : List ElementId) :
    ∀ {d : Desktop} {undrawn : List Rect}, d.WellFormed → d.RectServed redraw →
      (∀ e ∈ es, e ∈ d.compositorState.elements) →
      ∃ out, extraDrawsOfElements redraw es d undrawn = some out := by
  induction es with
  | nil => exact fun _ _ _ => ⟨_, rfl⟩
  | cons e rest ih =>
    intro d undrawn hwf hserved hes
    have hrest : ∀ x ∈ rest, x ∈ d.compositorState.elements :=
      fun x hx => hes x (List.mem_cons_of_mem _ hx)
    have he := hes e List.mem_cons_self
    rw [extraDrawsOfElements]
    split
    · exact ih hwf hserved hrest
    · rename_i hmeet
      obtain ⟨⟨enclosed, d', undrawn'⟩, hout⟩ :=
        extraDrawsOfElement_total (d := d) (e := e) hserved.1 (d.drawableRects e)
          (hserved.2 e he (by simpa using hmeet))
      have hquiet : Quiet d d' :=
        extraDrawsOfElement_quiet _ (hwf.elements_known e he) hout
      rw [hout]
      cases enclosed with
      | true => exact ⟨_, rfl⟩
      | false =>
        exact ih (hwf.quiet hquiet) (hserved.queued hquiet.toQueued)
          (fun x hx => hquiet.elements ▸ hrest x hx)

theorem run_extraDrawsOfRect_total (rects : List Rect) :
    ∀ {d : Desktop}, d.WellFormed → (∀ r ∈ rects, d.RectServed r) →
      ∃ d', run extraDrawsOfRect d rects = some d' := by
  induction rects with
  | nil => exact fun _ _ => ⟨_, rfl⟩
  | cons r rects ih =>
    intro d hwf hserved
    obtain ⟨out, hout⟩ := extraDrawsOfElements_total d.compositorState.elements hwf
      (hserved r List.mem_cons_self) (fun e he => he)
    have hfirst : d.extraDrawsOfRect r =
        some (out.2.foldl queueExtraBackgroundDraw out.1) := by
      unfold extraDrawsOfRect
      rw [hout]
      rfl
    have hqueued := extraDrawsOfRect_queued hwf hfirst
    obtain ⟨d', hd'⟩ := ih (hwf.queued hqueued)
      (fun x hx => (hserved x (List.mem_cons_of_mem _ hx)).queued hqueued)
    exact ⟨d', run_cons_eq_some.mpr ⟨_, hfirst, hd'⟩⟩

/-- **No draw panics if the tables are known and no empty rectangle takes part (proved).** -/
theorem drawFrame_total (hwf : d.WellFormed)
    (hextra : ∀ e ∈ d.extraDrawIds, e ∈ d.compositorState.elementsById)
    (hserved : ∀ r ∈ d.compositorState.rectsToFullyRedraw, d.RectServed r) :
    ∃ d', d.drawFrame = some d' := by
  unfold drawFrame
  split
  · exact ⟨_, rfl⟩
  · have hfetch : Queued d { d with windowsToRenderRemoteLayersThisCycle := [] } :=
      { Queued.refl d with }
    obtain ⟨e, he⟩ := run_extraDrawsOfRect_total d.compositorState.rectsToFullyRedraw
      (hwf.queued hfetch) (fun r hr => (hserved r hr).queued hfetch)
    have hqueued := hfetch.trans (computeExtraDraws_queued (hwf.queued hfetch) he)
    have hids : e.idsKnown = true := by
      unfold idsKnown
      rw [Bool.and_eq_true, List.all_eq_true, List.all_eq_true]
      constructor
      · intro x hx
        exact decide_eq_true ((hwf.queued hqueued).composite_known x hx)
      · intro draws hdraws
        refine decide_eq_true ?_
        rw [hqueued.elementsById]
        exact (hqueued.extraDrawIds draws.1 (List.mem_map_of_mem hdraws)).elim (hextra _) id
    have hcompute : ({ d with windowsToRenderRemoteLayersThisCycle := [] }
        : Desktop).computeExtraDrawsFromTotalUpdateRects = some e := he
    unfold drawFrameComposited
    rw [hcompute, Option.bind_some, if_pos hids]
    exact ⟨_, rfl⟩

end Desktop

/-! ### Whole runs -/

/-- The event is about windows that are there, and draws no empty rectangle. -/
def Serves (a : AwmLoop) : LoopEvent → Prop
  | .message now message => a.desktop.MessageServed now message
  | .drawFrame => ∀ r ∈ a.desktop.compositorState.rectsToFullyRedraw, a.desktop.RectServed r
  | _ => True

theorem awmNext_total {lerp : Lerp} {a : AwmLoop} {event : LoopEvent} (h : TablesReady a)
    (hserves : Serves a event) : ∃ b, awmNext lerp a event = some b := by
  cases event with
  | stepAnimations now => exact ⟨_, rfl⟩
  | message now message =>
    obtain ⟨d, hd⟩ := Desktop.handleMessage_total h.wellFormed hserves
    exact ⟨⟨d, .messages⟩, Option.map_eq_some_iff.mpr ⟨d, hd, rfl⟩⟩
  | spawnWindow now source size origin animated => exact ⟨_, rfl⟩
  | drawFrame =>
    obtain ⟨d, hd⟩ := Desktop.drawFrame_total h.wellFormed h.extraKnown hserves
    exact ⟨⟨d, .animations⟩, Option.map_eq_some_iff.mpr ⟨d, hd, rfl⟩⟩

/-- **The window manager survives (proved).**  A run in the order of the main loop in which every
message about a window comes while the window is there, and no empty rectangle is drawn, never
panics. -/
theorem awm_survives (lerp : Lerp) {desktopSize : Size} {images : WindowDecorationImages}
    {lines : List ShortcutLine} {d : Desktop} {events : List LoopEvent}
    (hboot : Desktop.boot desktopSize images lines = some d)
    (hmeets : Meets (awmNext lerp) (fun a event => InLoopOrder a event ∧ Serves a event)
      ⟨d, .animations⟩ events) :
    ∃ a, run (awmNext lerp) ⟨d, .animations⟩ events = some a := by
  have hstep : ∀ (a : AwmLoop) (event : LoopEvent), TablesReady a →
      InLoopOrder a event ∧ Serves a event →
      ∃ b, awmNext lerp a event = some b ∧ TablesReady b := by
    intro a event h hok
    obtain ⟨b, hb⟩ := awmNext_total h hok.2
    exact ⟨b, hb, awmNext_tablesReady h hok.1 hb⟩
  obtain ⟨a, ha, -⟩ := run_total hstep events _ (boot_tablesReady hboot) hmeets
  exact ⟨a, ha⟩

section Decide

variable (d : Desktop)

instance (service : String) : Decidable (d.HasWindow service) :=
  inferInstanceAs (Decidable (∃ w ∈ d.windows, d.owner w = service))

instance : ∀ change, Decidable (d.ChangeServed change)
  | .leftClickEnded => inferInstanceAs (Decidable (∀ s ∈ d.draggedShortcut?, _ ∧ _))
  | .leftClickBegan | .moved _ _ | .scrolled _ => inferInstanceAs (Decidable True)

instance (source : String) : ∀ message, Decidable (d.ClientServed source message)
  | .createWindow _ _ => inferInstanceAs (Decidable True)
  | .windowRedrawReady | .windowUpdateTitle _ | .closeWindow =>
    inferInstanceAs (Decidable (d.HasWindow source))
  | .windowPartialRedraw rectCount => inferInstanceAs (Decidable (rectCount ≤ 64))
  | .other _ => inferInstanceAs (Decidable False)

instance (now : ℕ) : ∀ message, Decidable (d.MessageServed now message)
  | .mouse packet => inferInstanceAs (Decidable (Meets _ _ (d.mousePacketStart packet).1 _))
  | .keyboard _ => inferInstanceAs (Decidable (¬ (_ ∧ _ ∧ _)))
  | .dockTaskViewClicked id | .dockWindowMinimizeWithInfo id _ =>
    inferInstanceAs (Decidable (id ∈ d.windows))
  | .serviceDied service => inferInstanceAs (Decidable (d.HasWindow service))
  | .client source message => inferInstanceAs (Decidable (d.ClientServed source message))
  | .desktopTraitsRequest | .preferencesUpdated | .dockTaskViewHovered
  | .dockTaskViewHoverExited => inferInstanceAs (Decidable True)

instance (redraw : Rect) : Decidable (d.RectServed redraw) :=
  inferInstanceAs (Decidable (_ ∧ ∀ e ∈ _, _ → ∀ visible ∈ _, _ → _))

instance (a : AwmLoop) : ∀ event, Decidable (Serves a event)
  | .message now message => inferInstanceAs (Decidable (a.desktop.MessageServed now message))
  | .drawFrame => inferInstanceAs (Decidable (∀ r ∈ _, a.desktop.RectServed r))
  | .stepAnimations _ | .spawnWindow _ _ _ _ _ => inferInstanceAs (Decidable True)

end Decide

/-- A client opens a window, uses it and closes it. -/
def opensAndCloses : List LoopEvent :=
  [.stepAnimations 0, .message 0 (.client "a" (.createWindow 300 300)), .drawFrame,
    .stepAnimations 300, .message 300 (.client "a" .windowRedrawReady),
    .message 300 (.client "a" (.windowUpdateTitle "b")), mouseEvent 10 0 false,
    .message 300 (.client "a" .closeWindow), .drawFrame, .stepAnimations 600, .drawFrame,
    .stepAnimations 700]

theorem opensAndCloses_survives : ∃ d a,
    Desktop.boot ⟨1000, 1000⟩ ⟨⟨12, 12⟩, ⟨12, 12⟩⟩ [] = some d ∧
    run (awmNext linearLerp) ⟨d, .animations⟩ opensAndCloses = some a := by
  have hboot : Desktop.boot ⟨1000, 1000⟩ ⟨⟨12, 12⟩, ⟨12, 12⟩⟩ [] =
      some (Desktop.new ⟨1000, 1000⟩ ⟨⟨12, 12⟩, ⟨12, 12⟩⟩) := rfl
  have hmeets : Meets (awmNext linearLerp) (fun a event => InLoopOrder a event ∧ Serves a event)
      ⟨Desktop.new ⟨1000, 1000⟩ ⟨⟨12, 12⟩, ⟨12, 12⟩⟩, .animations⟩ opensAndCloses := by decide
  obtain ⟨a, ha⟩ := awm_survives linearLerp hboot hmeets
  exact ⟨_, a, hboot, ha⟩

/-- A message of the client, or the notification that it has died, after its window is gone. -/
theorem late_message_panics : ∃ d,
    Desktop.boot ⟨1000, 1000⟩ ⟨⟨12, 12⟩, ⟨12, 12⟩⟩ [] = some d ∧
    ∀ message ∈ [.client "a" .windowRedrawReady, .client "a" (.windowUpdateTitle "b"),
        Message.serviceDied "a"],
      Meets (awmNext linearLerp) InLoopOrder ⟨d, .animations⟩
        (opensAndCloses ++ [.message 700 message]) ∧
      run (awmNext linearLerp) ⟨d, .animations⟩
        (opensAndCloses ++ [.message 700 message]) = none := by
  refine ⟨_, rfl, ?_⟩
  intro message hmessage
  fin_cases hmessage
  · exact ⟨by decide, rfl⟩
  · exact ⟨by decide, rfl⟩
  · exact ⟨by decide, rfl⟩

end Axle.Awm
