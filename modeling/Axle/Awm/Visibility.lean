import Axle.Awm.WellFormed

/-!
# What the desktop shows

The drawable rectangles over a whole run of the window manager.  A window that is opened with an
animation gets its drawable rectangles at the next step of the animations, so the invariant has
the list of the windows that are waiting for that step: everything that meets none of their frames
is up to date.

* `Settling` — the invariant, with the windows that wait;
* `SmallStep.settling`, `spawnWindow_settling`, `stepAnimations_settling` — **PROVED**: every
  handler keeps it, and a step of the animations empties the list;
* `visibilityExact_iff_edgeCovered` — **PROVED**: after any run that leaves no window waiting, if
  no frame is empty, the drawable rectangles are disjoint, on the desktop and exactly what is
  visible if and only if no element has an uncovered part beyond the left or the top edge.
-/

namespace Axle.Awm

open Axle.Agx Axle.Lib.StepRun

namespace Desktop

/-! ### The invariant -/

/-- Everything is up to date but what meets a window that waits for its first step. -/
structure Settling (waiting : List ElementId) (d : Desktop) : Prop where
  wellFormed : d.WellFormed
  fresh : d.scene.FreshOutside (waiting.map d.frame)
  opening : ∀ w ∈ waiting, ∃ p, Animation.windowOpen p ∈ d.ongoingAnimations ∧ p.element = w

variable {strict : Prop} {d d' : Desktop} {waiting : List ElementId} {rs rs' : List Rect}

variable {frame : ElementId → Rect} {q : Rect} {e w : ElementId}

theorem meets_map :
    Scene.Meets (waiting.map frame) q ↔ ∃ w ∈ waiting, (frame w).intersectsWith q = true := by
  simp [Scene.Meets]

/-- Recomputations only help. -/
theorem freshOutside_foldl_recompute {s : Scene ElementId} (rects : List Rect)
    (h : s.FreshOutside rs) : (rects.foldl Scene.recompute s).FreshOutside rs := by
  induction rects generalizing s with
  | nil => exact h
  | cons r rects ih => exact ih (h.recompute (fun q hq => Or.inr hq))

theorem recompute_freshOutside (hnodup : d.zSorted.Nodup) {rect : Rect}
    (h : d.scene.FreshOutside rs)
    (hcover : ∀ q, Scene.Meets rs q → rect.intersectsWith q = true ∨ Scene.Meets rs' q) :
    (d.recomputeDrawableRegionsInRect rect).scene.FreshOutside rs' := by
  rw [recompute_scene d rect hnodup]
  exact h.recompute hcover

theorem Recomputed.freshOutside (hrec : Recomputed d d') (hnodup : d.zSorted.Nodup)
    (h : d.scene.FreshOutside rs) : d'.scene.FreshOutside rs := by
  obtain ⟨rects, heq⟩ := hrec.scene hnodup
  rw [heq]
  exact freshOutside_foldl_recompute rects h

theorem transition_freshOutside (hnodup : d.zSorted.Nodup) (state : MouseInteractionState)
    (h : d.scene.FreshOutside rs) :
    (d.transitionToMouseInteractionState state).scene.FreshOutside rs := by
  obtain ⟨e, hrec, heq⟩ := transition_eq d state
  rw [heq]
  exact hrec.freshOutside hnodup h

/-! ### Small steps -/

theorem differsAt_setFrame (d : Desktop) (e : ElementId) (frame : Rect) :
    Scene.DiffersAt d.scene (d.setFrame e frame).scene e where
  desktop := rfl
  zOrder := rfl
  frame := fun _ hne => Function.update_of_ne hne _ _
  drawableRects := fun _ _ => rfl

theorem setFrame_frame_self (d : Desktop) (e : ElementId) (frame : Rect) :
    (d.setFrame e frame).frame e = frame := Function.update_self _ _ _

theorem setFrame_frame_of_ne (d : Desktop) {e x : ElementId} (frame : Rect) (hne : x ≠ e) :
    (d.setFrame e frame).frame x = d.frame x := Function.update_of_ne hne _ _

/-- A new frame: what meets neither the old one nor the new one stays up to date. -/
theorem setFrame_freshOutside {frame : Rect} (h : d.scene.FreshOutside rs)
    (hrs : ∀ q, Scene.Meets rs q → Scene.Meets rs' q)
    (hold : ∀ q, (d.frame e).intersectsWith q = true → Scene.Meets rs' q)
    (hnew : ∀ q, frame.intersectsWith q = true → Scene.Meets rs' q) :
    (d.setFrame e frame).scene.FreshOutside rs' := by
  refine h.change (differsAt_setFrame d e frame) hrs (fun _ => hold) ?_
  intro _ q hq
  apply hnew
  rw [← setFrame_frame_self d e frame]
  exact hq

theorem filter_erase_ne (l : List ElementId) (w : ElementId) :
    (l.erase w).filter (· ≠ w) = l.filter (· ≠ w) := by
  induction l with
  | nil => rfl
  | cons a l ih =>
    by_cases haw : a = w
    · subst haw
      rw [List.erase_cons_head, List.filter_cons_of_neg (by simp)]
    · rw [List.erase_cons_tail (by simpa using haw), List.filter_cons_of_pos (by simpa using haw),
        List.filter_cons_of_pos (by simpa using haw), ih]

/-- The order of the others is that of the others in the two lists it is made of. -/
theorem zSorted_filter_ne (hcat : ∀ x, x ≠ w → d'.zIndexCategory x = d.zIndexCategory x)
    (hwin : d'.windows.filter (· ≠ w) = d.windows.filter (· ≠ w))
    (helem : d'.compositorState.elements.filter (· ≠ w) =
      d.compositorState.elements.filter (· ≠ w)) :
    d'.zSorted.filter (· ≠ w) = d.zSorted.filter (· ≠ w) := by
  have hgroup : ∀ (category : ZIndexCategory) (l l' : List ElementId),
      l'.filter (· ≠ w) = l.filter (· ≠ w) →
      (l'.filter fun e => d'.zIndexCategory e = category).filter (· ≠ w) =
        (l.filter fun e => d.zIndexCategory e = category).filter (· ≠ w) := by
    intro category l l' heq
    have hswap := List.filter_comm (fun x => decide (x ≠ w))
      (fun e => decide (d.zIndexCategory e = category)) l
    rw [hswap, List.filter_comm, heq]
    apply List.filter_congr
    intro x hx
    rw [hcat x (by simpa using (List.mem_filter.mp hx).2)]
  unfold zSorted
  rw [List.filter_append, List.filter_append, List.filter_append, List.filter_append,
    hgroup _ _ _ helem, hgroup _ _ _ hwin, hgroup _ _ _ helem]

theorem differsAt_raise (d : Desktop) (w : ElementId) :
    Scene.DiffersAt d.scene
      ({ d with windows := w :: d.windows.erase w } : Desktop).scene w where
  desktop := rfl
  zOrder := by
    apply zSorted_filter_ne
    · exact fun _ _ => rfl
    · rw [List.filter_cons_of_neg (by simp)]
      exact filter_erase_ne d.windows w
    · rfl
  frame := fun _ _ => rfl
  drawableRects := fun _ _ => rfl

theorem Settling.queued (h : Settling waiting d) (hqueued : Queued d d') :
    Settling waiting d' := by
  refine ⟨h.wellFormed.queued hqueued, ?_, ?_⟩
  · rw [hqueued.scene, hqueued.frame]
    exact h.fresh
  · rw [hqueued.ongoingAnimations]
    exact h.opening

/-- **Every small step keeps the invariant (proved).** -/
theorem SmallStep.settling (hstep : SmallStep strict d d') (h : Settling waiting d) :
    Settling waiting d' := by
  have hwf := hstep.wellFormed h.wellFormed
  have hnodup := h.wellFormed.zSorted_nodup
  cases hstep with
  | quiet hquiet => exact h.queued hquiet.toQueued
  | recompute rect =>
    have hsame := (recompute_sameElements d rect).1
    refine ⟨hwf, ?_, ?_⟩
    · rw [hsame.frame]
      exact recompute_freshOutside hnodup h.fresh (fun q hq => Or.inr hq)
    · rw [hsame.ongoingAnimations]
      exact h.opening
  | move e frame =>
    have hsame := (recompute_sameElements (d.setFrame e frame) ((d.frame e).union frame)).1
    refine ⟨hwf, ?_, ?_⟩
    · -- the old frame of a waiting window is covered by the union as well
      have hset : (d.setFrame e frame).scene.FreshOutside
          (d.frame e :: frame :: waiting.map d.frame) :=
        setFrame_freshOutside h.fresh
          (fun q hq => Scene.meets_cons.mpr (Or.inr (Scene.meets_cons.mpr (Or.inr hq))))
          (fun q hq => Scene.meets_cons.mpr (Or.inl hq))
          (fun q hq => Scene.meets_cons.mpr (Or.inr (Scene.meets_cons.mpr (Or.inl hq))))
      rw [hsame.frame]
      refine recompute_freshOutside (d := d.setFrame e frame) hnodup hset ?_
      intro q hq
      rcases Scene.meets_cons.mp hq with hq | hq
      · exact Or.inl (Rect.intersectsWith_union_left hq)
      · rcases Scene.meets_cons.mp hq with hq | hq
        · exact Or.inl (Rect.intersectsWith_union_right hq)
        · obtain ⟨w, hw, hmeet⟩ := meets_map.mp hq
          by_cases hwe : w = e
          · rw [hwe] at hmeet
            exact Or.inl (Rect.intersectsWith_union_left hmeet)
          · refine Or.inr (meets_map.mpr ⟨w, hw, ?_⟩)
            rw [setFrame_frame_of_ne d frame hwe]
            exact hmeet
    · rw [hsame.ongoingAnimations]
      exact h.opening
  | raise w hw =>
    have hsame := (recompute_sameElements
      ({ d with windows := w :: d.windows.erase w } : Desktop) (d.frame w)).1
    refine ⟨hwf, ?_, ?_⟩
    · have hraise : ({ d with windows := w :: d.windows.erase w } : Desktop).scene.FreshOutside
          (d.frame w :: waiting.map d.frame) :=
        h.fresh.change (differsAt_raise d w)
          (fun q hq => Scene.meets_cons.mpr (Or.inr hq))
          (fun _ q hq => Scene.meets_cons.mpr (Or.inl hq))
          (fun _ q hq => Scene.meets_cons.mpr (Or.inl hq))
      rw [hsame.frame]
      exact recompute_freshOutside (h.wellFormed.raise hw).zSorted_nodup hraise
        (fun q hq => Scene.meets_cons.mp hq)
    · rw [hsame.ongoingAnimations]
      exact h.opening
  | animation anim hknown =>
    refine ⟨hwf, h.fresh, ?_⟩
    intro w hw
    obtain ⟨p, hp, heq⟩ := h.opening w hw
    exact ⟨p, List.mem_append_left _ hp, heq⟩
  | transition state hwindow hshortcut hstrict =>
    have hsame := (transition_sameElements d state).1
    refine ⟨hwf, ?_, ?_⟩
    · rw [hsame.frame]
      exact transition_freshOutside hnodup state h.fresh
    · rw [hsame.ongoingAnimations]
      exact h.opening

theorem Steps.settling (hsteps : Steps strict d d') (h : Settling waiting d) :
    Settling waiting d' :=
  hsteps.invariant (fun _ _ hstep => hstep.settling) h

/-! ### New elements -/

theorem freshOutside_insert (h : d.scene.FreshOutside rs)
    (hdiff : Scene.DiffersAt d.scene d'.scene e) (hnew : e ∉ d.zSorted)
    (hrs : ∀ q, Scene.Meets rs q → Scene.Meets rs' q)
    (hframe : ∀ q, (d'.frame e).intersectsWith q = true → Scene.Meets rs' q) :
    d'.scene.FreshOutside rs' :=
  h.change hdiff hrs (fun hin => absurd hin hnew) (fun _ => hframe)

theorem filter_append_singleton_ne (l : List ElementId) (w : ElementId) :
    (l ++ [w]).filter (· ≠ w) = l.filter (· ≠ w) := by
  rw [List.filter_append, List.filter_cons_of_neg (by simp), List.filter_nil, List.append_nil]

theorem differsAt_insertWindow (d : Desktop) (source : String) (windowFrame : Rect) :
    Scene.DiffersAt d.scene (d.insertWindow source windowFrame).scene d.nextDesktopElementId where
  desktop := rfl
  zOrder := by
    apply zSorted_filter_ne
    · exact fun x hne => Function.update_of_ne hne _ _
    · exact List.filter_cons_of_neg (by simp)
    · exact filter_append_singleton_ne _ _
  frame := fun _ hne => Function.update_of_ne hne _ _
  drawableRects := fun _ hne => Function.update_of_ne hne _ _

theorem differsAt_insertShortcut (d : Desktop) (line : ShortcutLine)
    (slot : DesktopShortcutGridSlot) :
    Scene.DiffersAt d.scene (d.insertShortcut line slot).scene d.nextDesktopElementId where
  desktop := rfl
  zOrder := by
    apply zSorted_filter_ne
    · exact fun x hne => Function.update_of_ne hne _ _
    · rfl
    · exact filter_append_singleton_ne _ _
  frame := fun _ hne => Function.update_of_ne hne _ _
  drawableRects := fun _ hne => Function.update_of_ne hne _ _

theorem WellFormed.next_not_mem_zSorted (h : d.WellFormed) : d.nextDesktopElementId ∉ d.zSorted :=
  fun hin => h.not_mem_next (h.mem_zSorted.mp hin)

section

variable (h : Settling waiting d)

include h

theorem Settling.lt (hw : w ∈ waiting) : w < d.nextDesktopElementId := by
  obtain ⟨p, hp, rfl⟩ := h.opening w hw
  exact (h.wellFormed.animations _ hp).1

theorem Settling.meets_old (hframe : ∀ x, x ≠ d.nextDesktopElementId → frame x = d.frame x)
    (hq : Scene.Meets (waiting.map d.frame) q) : Scene.Meets (waiting.map frame) q := by
  obtain ⟨w, hw, hmeet⟩ := meets_map.mp hq
  refine meets_map.mpr ⟨w, hw, ?_⟩
  rw [hframe w (h.lt hw).ne]
  exact hmeet

theorem Settling.insert_recompute (hwf : d'.WellFormed)
    (hdiff : Scene.DiffersAt d.scene d'.scene d.nextDesktopElementId)
    (hanims : d'.ongoingAnimations = d.ongoingAnimations) :
    Settling waiting (d'.recomputeDrawableRegionsInRect (d'.frame d.nextDesktopElementId)) := by
  have hsame := (recompute_sameElements d' (d'.frame d.nextDesktopElementId)).1
  have hins : d'.scene.FreshOutside
      (d'.frame d.nextDesktopElementId :: waiting.map d'.frame) :=
    freshOutside_insert h.fresh hdiff h.wellFormed.next_not_mem_zSorted
      (fun q hq => Scene.meets_cons.mpr (Or.inr (h.meets_old hdiff.frame hq)))
      (fun q hq => Scene.meets_cons.mpr (Or.inl hq))
  refine ⟨hwf.recompute _, ?_, ?_⟩
  · rw [hsame.frame]
    exact recompute_freshOutside hwf.zSorted_nodup hins (fun q hq => Scene.meets_cons.mp hq)
  · rw [hsame.ongoingAnimations, hanims]
    exact h.opening

/-- A new window whose frame is left for the next step of the animations. -/
theorem Settling.insert_wait (hwf : d'.WellFormed)
    (hdiff : Scene.DiffersAt d.scene d'.scene d.nextDesktopElementId) {p : AnimationParams}
    (helement : p.element = d.nextDesktopElementId)
    (hanims : d'.ongoingAnimations = d.ongoingAnimations ++ [.windowOpen p]) :
    Settling (d.nextDesktopElementId :: waiting) d' := by
  refine ⟨hwf, ?_, ?_⟩
  · exact freshOutside_insert h.fresh hdiff h.wellFormed.next_not_mem_zSorted
      (fun q hq => Scene.meets_cons.mpr (Or.inr (h.meets_old hdiff.frame hq)))
      (fun q hq => Scene.meets_cons.mpr (Or.inl hq))
  · intro w hw
    rw [hanims]
    rcases List.mem_cons.mp hw with rfl | hw
    · exact ⟨p, List.mem_append_right _ List.mem_cons_self, helement⟩
    · obtain ⟨p', hp', heq⟩ := h.opening w hw
      exact ⟨p', List.mem_append_left _ hp', heq⟩

/-- **A new window: with an animation, it has to wait (proved).** -/
theorem spawnWindow_settling (now : ℕ) (source : String) (contentSize : Size)
    (origin : Option Point) (animated : Bool) :
    Settling (if animated then d.nextDesktopElementId :: waiting else waiting)
      (d.spawnWindow now source contentSize origin animated) := by
  have hdiff := differsAt_insertWindow d source (d.newWindowFrame source contentSize origin)
  have hframe : (d.insertWindow source
      (d.newWindowFrame source contentSize origin)).frame d.nextDesktopElementId =
        d.newWindowFrame source contentSize origin := Function.update_self _ _ _
  refine Settling.queued ?_ (informDockWindowCreated_quiet _ _ _).toQueued
  cases animated with
  | false =>
    have hins := h.insert_recompute (insertWindow_wellFormed h.wellFormed source
      (d.newWindowFrame source contentSize origin)) hdiff rfl
    rw [hframe] at hins
    exact hins
  | true =>
    exact h.insert_wait (insertWindow_startAnimation_wellFormed h.wellFormed now source _)
      (hdiff.trans (differsAt_setFrame _ _ _)) rfl rfl

end

/-! ### Animations -/

theorem stepEach_freshOutside (lerp : Lerp) (now : ℕ) (anims : List Animation) :
    ∀ {d : Desktop} {rs : List Rect}, d.scene.FreshOutside rs →
      (stepEach lerp now anims d).1.scene.FreshOutside ((stepEach lerp now anims d).2 ++ rs) := by
  induction anims with
  | nil => exact fun h => h
  | cons anim rest ih =>
    intro d rs h
    have hset : (d.setFrame anim.params.element
        (animatedFrame lerp now anim.params)).scene.FreshOutside
          ((d.frame anim.params.element).union (animatedFrame lerp now anim.params) :: rs) :=
      setFrame_freshOutside h (fun q hq => Scene.meets_cons.mpr (Or.inr hq))
        (fun q hq => Scene.meets_cons.mpr (Or.inl (Rect.intersectsWith_union_left hq)))
        (fun q hq => Scene.meets_cons.mpr (Or.inl (Rect.intersectsWith_union_right hq)))
    rw [← (Quiet.queueFullRedraw _ ((d.frame anim.params.element).union
      (animatedFrame lerp now anim.params))).scene] at hset
    have hrest := ih hset
    intro x hx hpos hout
    apply hrest x hx hpos
    intro hin
    apply hout
    -- the same rectangles, in another order
    rw [Scene.meets_append, Scene.meets_cons] at hin
    show Scene.Meets (_ :: _ ++ rs) _
    rw [List.cons_append, Scene.meets_cons, Scene.meets_append]
    tauto

/-- The region of an element's first animation has the frame the element had before. -/
theorem stepEach_covers (lerp : Lerp) (now : ℕ) (anims : List Animation) :
    ∀ {d : Desktop} {anim : Animation}, anim ∈ anims →
      (d.frame anim.params.element).intersectsWith q = true →
      Scene.Meets (stepEach lerp now anims d).2 q := by
  induction anims with
  | nil => exact fun hin => absurd hin List.not_mem_nil
  | cons head rest ih =>
    intro d anim hin hmeet
    show Scene.Meets (_ :: _) q
    rw [Scene.meets_cons]
    by_cases hsame : anim.params.element = head.params.element
    · left
      rw [hsame] at hmeet
      exact Rect.intersectsWith_union_left hmeet
    · right
      have hrest : anim ∈ rest := by
        refine (List.mem_cons.mp hin).resolve_left ?_
        rintro rfl
        exact hsame rfl
      apply ih hrest
      rw [(Quiet.queueFullRedraw _ _).frame, setFrame_frame_of_ne d _ hsame]
      exact hmeet

theorem foldl_recompute_freshOutside (rects : List Rect) :
    ∀ {d : Desktop} {rs : List Rect}, d.zSorted.Nodup → d.scene.FreshOutside rs →
      (∀ q, Scene.Meets rs q → Scene.Meets rects q) →
      (rects.foldl recomputeDrawableRegionsInRect d).scene.FreshOutside [] := by
  induction rects with
  | nil =>
    intro d rs _ h hcover x hx hpos _
    exact h x hx hpos (fun hin => Scene.not_meets_nil _ (hcover _ hin))
  | cons r rects ih =>
    intro d rs hnodup h hcover
    have hrec : (d.recomputeDrawableRegionsInRect r).scene.FreshOutside rects :=
      recompute_freshOutside hnodup h (fun q hq => Scene.meets_cons.mp (hcover q hq))
    refine ih ?_ hrec (fun q hq => hq)
    rw [(recompute_sameElements d r).1.zSorted]
    exact hnodup

theorem Settling.animate (h : Settling waiting d) (lerp : Lerp) (now : ℕ) :
    (d.animate lerp now).scene.FreshOutside [] := by
  refine foldl_recompute_freshOutside _
    (stepEach_wellFormed lerp now _ d h.wellFormed).zSorted_nodup
    (stepEach_freshOutside lerp now _ h.fresh) ?_
  intro q hq
  rcases Scene.meets_append.mp hq with hq | hq
  · exact hq
  · obtain ⟨w, hw, hmeet⟩ := meets_map.mp hq
    obtain ⟨p, hp, rfl⟩ := h.opening w hw
    exact stepEach_covers lerp now _ hp hmeet

theorem differsAt_removeWindow (d : Desktop) (w : ElementId) :
    Scene.DiffersAt d.scene (d.removeWindow w).scene w where
  desktop := rfl
  zOrder := by
    apply zSorted_filter_ne
    · exact fun _ _ => rfl
    · show (d.windows.filter (· ≠ w)).filter (· ≠ w) = _
      simp only [List.filter_filter, Bool.and_self]
    · rfl
  frame := fun _ _ => rfl
  drawableRects := fun _ _ => rfl

theorem differsAt_removeElement (d : Desktop) (w : ElementId) :
    Scene.DiffersAt d.scene (d.removeElement w).scene w where
  desktop := rfl
  zOrder := by
    apply zSorted_filter_ne
    · exact fun _ _ => rfl
    · rfl
    · show (d.compositorState.elements.filter (· ≠ w)).filter (· ≠ w) = _
      simp only [List.filter_filter, Bool.and_self]
  frame := fun _ _ => rfl
  drawableRects := fun _ _ => rfl

theorem dropWindow_freshOutside (hwf : d.WellFormed) (hcat : d.zIndexCategory w ≠ .desktopView)
    (h : d.scene.FreshOutside []) : (d.dropWindow w).scene.FreshOutside [] := by
  have hnodup : (d.removeWindow w).zSorted.Nodup :=
    zSorted_nodup_of hwf.elements_nodup (hwf.windows_nodup.filter _)
  have hsame := (leaveWindow_sameElements d w).1
  have hremove : (d.removeWindow w).scene.FreshOutside [d.frame w] :=
    h.change (differsAt_removeWindow d w) (fun q hq => absurd hq (Scene.not_meets_nil q))
      (fun _ q hq => Scene.meets_cons.mpr (Or.inl hq))
      (fun _ q hq => Scene.meets_cons.mpr (Or.inl hq))
  have hleave : (d.leaveWindow w).scene.FreshOutside [d.frame w] :=
    transition_freshOutside hnodup _ hremove
  have hframe : (d.leaveWindow w).frame w = d.frame w := congrFun hsame.frame w
  have helement : ((d.leaveWindow w).removeElement w).scene.FreshOutside [d.frame w] := by
    refine hleave.change (differsAt_removeElement _ w) (fun q hq => hq) ?_ ?_
    · intro _ q hq
      exact Scene.meets_cons.mpr (Or.inl (hframe ▸ hq))
    · intro _ q hq
      exact Scene.meets_cons.mpr (Or.inl (hframe ▸ hq))
  have hwf' := removeElement_wellFormed hwf hcat hsame
    (leaveWindow_shortcutKnown hwf.shortcutKnown)
  unfold dropWindow
  rw [(Quiet.queueFullRedraw _ _).scene]
  refine recompute_freshOutside hwf'.zSorted_nodup helement ?_
  intro q hq
  exact (Scene.meets_cons.mp hq).imp_left (fun hmeet => hframe.symm ▸ hmeet)

theorem foldl_dropWindow_freshOutside (ws : List ElementId) :
    ∀ {d : Desktop}, d.WellFormed → (∀ w ∈ ws, d.zIndexCategory w ≠ .desktopView) →
      d.scene.FreshOutside [] → (ws.foldl dropWindow d).scene.FreshOutside [] := by
  induction ws with
  | nil => exact fun _ _ h => h
  | cons w ws ih =>
    intro d hwf hcat h
    refine ih (dropWindow_wellFormed hwf (hcat w List.mem_cons_self)) ?_
      (dropWindow_freshOutside hwf (hcat w List.mem_cons_self) h)
    intro x hx
    rw [(dropWindow_dropped d w).zIndexCategory]
    exact hcat x (List.mem_cons_of_mem _ hx)

/-- **After a step of the animations nothing waits (proved).** -/
theorem stepAnimations_settling (h : Settling waiting d) (lerp : Lerp) (now : ℕ) :
    Settling [] (d.stepAnimations lerp now) := by
  refine ⟨stepAnimations_wellFormed h.wellFormed lerp now, ?_,
    fun w hw => absurd hw List.not_mem_nil⟩
  unfold stepAnimations
  split
  · rename_i hnone
    have hempty : waiting = [] := by
      rw [List.eq_nil_iff_forall_not_mem]
      intro w hw
      obtain ⟨p, hp, -⟩ := h.opening w hw
      rw [List.length_eq_zero_iff.mp hnone] at hp
      exact absurd hp List.not_mem_nil
    have hfresh := h.fresh
    rw [hempty] at hfresh
    exact hfresh
  · have hwf := animate_wellFormed h.wellFormed lerp now
    have hdrop := foldl_dropWindow_freshOutside ((d.animate lerp now).windowsToDrop now) hwf
      hwf.windowsToDrop_category (h.animate lerp now)
    obtain ⟨e, hquiet, heq⟩ := finishAnimations_eq
      (foldl_dropWindow_wellFormed _ _ hwf hwf.windowsToDrop_category) now
    rw [heq]
    show e.scene.FreshOutside []
    rw [hquiet.scene]
    exact hdrop

/-! ### The start -/

theorem new_settling (desktopSize : Size) (images : WindowDecorationImages) :
    Settling [] (Desktop.new desktopSize images) :=
  ⟨new_wellFormed desktopSize images, fun _ hx => absurd hx List.not_mem_nil,
    fun _ hw => absurd hw List.not_mem_nil⟩

theorem loadShortcut_settling {line : ShortcutLine} (h : Settling [] d)
    (hload : d.loadShortcut line = some d') : Settling [] d' := by
  obtain ⟨slot, -, rfl⟩ := Option.map_eq_some_iff.mp hload
  have hins := h.insert_recompute (insertShortcut_wellFormed h.wellFormed line slot)
    (differsAt_insertShortcut d line slot) rfl
  have hframe : (d.insertShortcut line slot).frame d.nextDesktopElementId = shortcutFrame slot :=
    Function.update_self _ _ _
  rw [hframe] at hins
  exact hins

theorem boot_settling {desktopSize : Size} {images : WindowDecorationImages}
    {lines : List ShortcutLine} (hboot : boot desktopSize images lines = some d) :
    Settling [] d :=
  run_invariant (fun _ _ _ h _ hload => loadShortcut_settling h hload) lines _ d
    (new_settling desktopSize images) (Meets.trivial lines _) hboot

end Desktop

/-! ### Whole runs -/

/-- The event opens a window with an animation. -/
def LoopEvent.opensAnimated : LoopEvent → Bool
  | .message _ sent => sent.opensWindow
  | .spawnWindow _ _ _ _ animated => animated
  | .stepAnimations _ | .drawFrame => false

/-- A window has been opened with an animation and no step of the animations has come since. -/
def awaitsStep : Bool → List LoopEvent → Bool
  | waits, [] => waits
  | _, .stepAnimations _ :: events => awaitsStep false events
  | waits, event :: events => awaitsStep (waits || event.opensAnimated) events

theorem awmNext_settling {lerp : Lerp} {a b : AwmLoop} {event : LoopEvent}
    {waiting : List ElementId} (h : Desktop.Settling waiting a.desktop)
    (hnext : awmNext lerp a event = some b) :
    ∃ waiting', Desktop.Settling waiting' b.desktop ∧
      ((∃ now, event = .stepAnimations now) ∨ (waiting = [] ∧ event.opensAnimated = false) →
        waiting' = []) := by
  have hspawn : ∀ (now : ℕ) (source : String) (size : Size) (origin : Option Point)
      (animated : Bool), b.desktop = a.desktop.spawnWindow now source size origin animated →
      event.opensAnimated = animated → (∀ now, event ≠ .stepAnimations now) →
      ∃ waiting', Desktop.Settling waiting' b.desktop ∧
        ((∃ now, event = .stepAnimations now) ∨ (waiting = [] ∧ event.opensAnimated = false) →
          waiting' = []) := by
    intro now source size origin animated hb hanim hne
    refine ⟨_, hb ▸ Desktop.spawnWindow_settling h now source size origin animated, ?_⟩
    rintro (⟨t, ht⟩ | ⟨hw, hopens⟩)
    · exact absurd ht (hne t)
    · rw [hw, ← hanim, hopens]
      rfl
  cases event with
  | stepAnimations now =>
    rw [← Option.some.inj hnext]
    exact ⟨[], Desktop.stepAnimations_settling h lerp now, fun _ => rfl⟩
  | message now message =>
    obtain ⟨d, hd, rfl⟩ := Option.map_eq_some_iff.mp hnext
    cases hopens : message.opensWindow with
    | false =>
      have hsteps : Desktop.Steps False a.desktop d := Desktop.handleMessage_steps
        h.wellFormed.shortcutKnown h.wellFormed.windowsKnown hopens (fun hs => hs.elim) hd
      refine ⟨waiting, hsteps.settling h, ?_⟩
      rintro (⟨t, ht⟩ | ⟨hw, -⟩)
      · exact absurd ht (by simp)
      · exact hw
    | true =>
      obtain ⟨source, width, height, -, rfl⟩ := Desktop.handleMessage_opensWindow hopens hd
      exact hspawn now source _ none true rfl hopens (fun t => by simp)
  | spawnWindow now source size origin animated =>
    rw [← Option.some.inj hnext] at hspawn ⊢
    exact hspawn now source size origin animated rfl rfl (fun t => by simp)
  | drawFrame =>
    obtain ⟨d, hd, rfl⟩ := Option.map_eq_some_iff.mp hnext
    refine ⟨waiting, h.queued (Desktop.drawFrame_queued h.wellFormed hd), ?_⟩
    rintro (⟨t, ht⟩ | ⟨hw, -⟩)
    · exact absurd ht (by simp)
    · exact hw

/-- The invariant over a run, with the list that is empty when nothing awaits a step. -/
theorem run_settling (lerp : Lerp) (events : List LoopEvent) :
    ∀ {a b : AwmLoop} {waiting : List ElementId} {waits : Bool},
      Desktop.Settling waiting a.desktop → (waits = false → waiting = []) →
      run (awmNext lerp) a events = some b →
      ∃ waiting', Desktop.Settling waiting' b.desktop ∧
        (awaitsStep waits events = false → waiting' = []) := by
  induction events with
  | nil =>
    intro a b waiting waits h hwaits hrun
    rw [← Option.some.inj hrun]
    exact ⟨waiting, h, hwaits⟩
  | cons event events ih =>
    intro a b waiting waits h hwaits hrun
    obtain ⟨c, hc, hrest⟩ := run_cons_eq_some.mp hrun
    obtain ⟨waiting', h', hempty⟩ := awmNext_settling h hc
    by_cases hstep : ∃ now, event = .stepAnimations now
    · obtain ⟨now, rfl⟩ := hstep
      exact ih h' (fun _ => hempty (Or.inl ⟨now, rfl⟩)) hrest
    · have hwaits' : (waits || event.opensAnimated) = false → waiting' = [] := by
        intro hnone
        rw [Bool.or_eq_false_iff] at hnone
        exact hempty (Or.inr ⟨hwaits hnone.1, hnone.2⟩)
      have heq : awaitsStep waits (event :: events) =
          awaitsStep (waits || event.opensAnimated) events := by
        cases event with
        | stepAnimations now => exact absurd ⟨now, rfl⟩ hstep
        | message _ _ | spawnWindow _ _ _ _ _ | drawFrame => rfl
      rw [heq]
      exact ih h' hwaits' hrest

/-- **When the drawable rectangles are exactly what is visible (proved).**  After every run of the
window manager, in whatever order the events come: if no window still awaits its first step and no
frame is empty, the drawable rectangles of all elements are pairwise disjoint, on the desktop and
exactly what no element above covers, if and only if whatever an element has beyond the left or
the top edge is covered. -/
theorem visibilityExact_iff_edgeCovered (lerp : Lerp) {desktopSize : Size}
    {images : WindowDecorationImages} {lines : List ShortcutLine} {d : Desktop} {phase : Phase}
    {events : List LoopEvent} {a : AwmLoop}
    (hboot : Desktop.boot desktopSize images lines = some d)
    (hrun : run (awmNext lerp) ⟨d, phase⟩ events = some a)
    (hawaits : awaitsStep false events = false)
    (hpos : ∀ e ∈ a.desktop.compositorState.elements, (a.desktop.frame e).Positive) :
    (∀ e, e ∈ a.desktop.scene.zOrder ↔ e ∈ a.desktop.compositorState.elements) ∧
      (a.desktop.scene.VisibilityExact ↔ a.desktop.scene.EdgeCovered) := by
  obtain ⟨waiting, hsettling, hempty⟩ :=
    run_settling lerp events (Desktop.boot_settling hboot) (fun _ => rfl) hrun
  rw [hempty hawaits] at hsettling
  have hmem : ∀ e, e ∈ a.desktop.scene.zOrder ↔ e ∈ a.desktop.compositorState.elements :=
    fun e => hsettling.wellFormed.mem_zSorted
  exact ⟨hmem, Scene.visibilityExact_iff (fun x hx => hpos x ((hmem x).mp hx)) hsettling.fresh⟩

/-- Two windows that overlap, both on the desktop. -/
def overlappingWindows : List LoopEvent :=
  [.spawnWindow 0 "a" ⟨100, 70⟩ (some ⟨20, 10⟩) false,
    .spawnWindow 0 "b" ⟨100, 70⟩ (some ⟨60, 50⟩) false]

theorem overlappingWindows_visible : ∃ d a,
    Desktop.boot ⟨1000, 1000⟩ ⟨⟨12, 12⟩, ⟨12, 12⟩⟩ [] = some d ∧
    run (awmNext linearLerp) ⟨d, .animations⟩ overlappingWindows = some a ∧
    a.desktop.scene.VisibilityExact := by
  refine ⟨_, _, rfl, rfl, ?_⟩
  have hboot : Desktop.boot ⟨1000, 1000⟩ ⟨⟨12, 12⟩, ⟨12, 12⟩⟩ [] =
      some (Desktop.new ⟨1000, 1000⟩ ⟨⟨12, 12⟩, ⟨12, 12⟩⟩) := rfl
  have hrun : run (awmNext linearLerp)
      ⟨Desktop.new ⟨1000, 1000⟩ ⟨⟨12, 12⟩, ⟨12, 12⟩⟩, .animations⟩ overlappingWindows =
        some _ := rfl
  apply (visibilityExact_iff_edgeCovered linearLerp hboot hrun rfl (by decide)).2.mpr
  exact Scene.edgeCovered_of_origin_nonneg (by decide)

/-- A window partly beyond the left and the top edge is drawn there too. -/
def windowBeyondTheEdge : List LoopEvent :=
  [.spawnWindow 0 "a" ⟨100, 70⟩ (some ⟨-20, -10⟩) false]

theorem windowBeyondTheEdge_drawn_outside : ∃ d a,
    Desktop.boot ⟨1000, 1000⟩ ⟨⟨12, 12⟩, ⟨12, 12⟩⟩ [] = some d ∧
    run (awmNext linearLerp) ⟨d, .animations⟩ windowBeyondTheEdge = some a ∧
    ¬ a.desktop.scene.VisibilityExact := by
  refine ⟨_, _, rfl, rfl, ?_⟩
  intro h
  have hin := h.inside 0 (by decide) (Rect.new (-20) (-10) 100 100) (by decide) ⟨-20, -10⟩
    (by decide)
  exact absurd hin (by decide)

end Axle.Awm
