import Axle.Awm.MouseTracking
import Axle.Lib.NearestDouble

/-!
# Minimizing windows and bringing them back

A request to minimize a window saves the frame that the window has at that moment, and the frame it
goes back to is the one that was saved last.  So the window comes back to where it was as long as
requests to minimize it find it there, and not on the way to the dock or back.

* `minimize_round_trip` — **PROVED**: along every run whose requests find the window in its place,
  a window that is neither minimized nor moved by an animation is back in that place.
-/

namespace Axle.Awm

open Axle.Agx Axle.Lib.StepRun

/-! ### Interpolation in doubles -/

/-- A rational number `as isize`: towards zero, and no further than the type goes. -/
def asIsize (q : ℚ) : ℤ := max (-2 ^ 63) (min (2 ^ 63 - 1) (if q < 0 then -⌊-q⌋ else ⌊q⌋))

/-- `lerp` of two `isize`s and of the part of the duration, all as `f64`s. -/
def doubleLerp : Lerp := fun a b elapsed duration =>
  let round := BinaryFormat.double.round
  let percent := min 1 (round (round elapsed / round duration))
  asIsize (round (round a + round (percent * round (round b - round a))))

/-- Whole numbers that an `f64` holds, with their differences. -/
def Exact (z : ℤ) : Prop := |z| < 2 ^ 52

instance (z : ℤ) : Decidable (Exact z) := inferInstanceAs (Decidable (_ < _))

variable {z : ℤ} {duration elapsed : ℕ}

theorem round_exact (hz : |z| < 2 ^ 53) : BinaryFormat.double.round (z : ℚ) = z :=
  BinaryFormat.round_intCast (by decide) hz

theorem asIsize_intCast (hz : Exact z) : asIsize (z : ℚ) = z := by
  have habs := abs_lt.mp hz
  have htrunc : (if (z : ℚ) < 0 then -⌊-(z : ℚ)⌋ else ⌊(z : ℚ)⌋) = z := by
    split
    · rw [← Int.cast_neg, Int.floor_intCast, neg_neg]
    · exact Int.floor_intCast z
  rw [asIsize, htrunc]
  omega

/-- From the end of the duration on, the part of it that has passed is all of it. -/
theorem percent_eq_one (hpos : 0 < duration) (hduration : duration < 2 ^ 53)
    (hend : duration ≤ elapsed) :
    min 1 (BinaryFormat.double.round (BinaryFormat.double.round elapsed /
      BinaryFormat.double.round duration)) = 1 := by
  have hdur : BinaryFormat.double.round (duration : ℚ) = duration := by
    rw [BinaryFormat.round_of_nonneg (Nat.cast_nonneg _)]
    exact BinaryFormat.nearest_natCast (by decide) hduration
  have hdpos : (0 : ℚ) < duration := by exact_mod_cast hpos
  have hepos : (0 : ℚ) < elapsed := by exact_mod_cast hpos.trans_le hend
  have helapsed : (duration : ℚ) ≤ BinaryFormat.double.round (elapsed : ℚ) := by
    rw [BinaryFormat.round_of_nonneg hepos.le]
    exact BinaryFormat.le_nearest (by decide) hduration.le hepos (by exact_mod_cast hend)
  have hratio : (1 : ℚ) ≤ BinaryFormat.double.round (elapsed : ℚ) / duration := by
    rwa [le_div_iff₀ hdpos, one_mul]
  rw [hdur, BinaryFormat.round_of_nonneg (zero_le_one.trans hratio)]
  refine min_eq_left ?_
  exact_mod_cast BinaryFormat.le_nearest (n := 1) (by decide) (by decide)
    (zero_lt_one.trans_le hratio) (by exact_mod_cast hratio)

/-- **At its end** an interpolation is where it leads to. -/
theorem doubleLerp_end {a b : ℤ} (ha : Exact a) (hb : Exact b) (hpos : 0 < duration)
    (hduration : duration < 2 ^ 53) (hend : duration ≤ elapsed) :
    doubleLerp a b elapsed duration = b := by
  have ha' := abs_lt.mp ha
  have hb' := abs_lt.mp hb
  have hdiff : |b - a| < 2 ^ 53 := abs_lt.mpr ⟨by omega, by omega⟩
  unfold doubleLerp
  dsimp only
  rw [percent_eq_one hpos hduration hend, round_exact (ha.trans (by norm_num)),
    round_exact (hb.trans (by norm_num)), ← Int.cast_sub, round_exact hdiff, one_mul,
    round_exact hdiff, ← Int.cast_add, add_sub_cancel, round_exact (hb.trans (by norm_num)),
    asIsize_intCast hb]

/-! ### Requests, and steps of the animations -/

/-- The desktop and the clock. -/
structure ClockedDesktop where
  desktop : Desktop
  clock : ℕ

inductive MinimizeEvent where
  | dockWindowMinimizeWithInfo (window : ElementId) (taskViewFrame : Rect)
  | dockTaskViewClicked (window : ElementId)
  | stepAnimations
  deriving DecidableEq, Repr

/-- An event, some time after the one before it. -/
def minimizeNext (c : ClockedDesktop) (event : ℕ × MinimizeEvent) : Option ClockedDesktop :=
  let now := c.clock + event.1
  match event.2 with
  | .dockWindowMinimizeWithInfo window taskViewFrame =>
    (c.desktop.handleMessage now (.dockWindowMinimizeWithInfo window taskViewFrame)).map (⟨·, now⟩)
  | .dockTaskViewClicked window =>
    (c.desktop.handleMessage now (.dockTaskViewClicked window)).map (⟨·, now⟩)
  | .stepAnimations => some ⟨c.desktop.stepAnimations doubleLerp now, now⟩

namespace Animation

def isUnminimize : Animation → Bool
  | .windowUnminimize _ => true
  | _ => false

def isMinimize : Animation → Bool
  | .windowMinimize _ => true
  | _ => false

end Animation

def ExactFrame (r : Rect) : Prop := Exact r.minX ∧ Exact r.minY ∧ Exact r.width ∧ Exact r.height

instance (r : Rect) : Decidable (ExactFrame r) := inferInstanceAs (Decidable (_ ∧ _ ∧ _ ∧ _))

namespace Desktop

def unminimizedFrame (d : Desktop) (w : ElementId) : Option Rect := (d.window w).unminimizedFrame

/-- The animations of a window. -/
def animationsOf (d : Desktop) (w : ElementId) : List Animation :=
  d.ongoingAnimations.filter fun anim => anim.params.element = w

end Desktop

/-- A request to minimize the window finds it in its place: it is not on its way back, and if it is
minimized it has not left that place yet.  A request to bring it back finds coordinates that an
`f64` holds. -/
def RequestKept (w : ElementId) (c : ClockedDesktop) (event : ℕ × MinimizeEvent) : Prop :=
  match event.2 with
  | .dockWindowMinimizeWithInfo window _ => window = w →
    (∀ anim ∈ c.desktop.animationsOf w, anim.isUnminimize = false) ∧
      ∀ frame ∈ c.desktop.unminimizedFrame w, frame = c.desktop.frame w
  | .dockTaskViewClicked window => window = w →
    ExactFrame (c.desktop.frame w) ∧ ∀ frame ∈ c.desktop.unminimizedFrame w, ExactFrame frame
  | .stepAnimations => True

instance (w : ElementId) (c : ClockedDesktop) :
    (event : ℕ × MinimizeEvent) → Decidable (RequestKept w c event)
  | (_, .dockWindowMinimizeWithInfo _ _) => inferInstanceAs (Decidable (_ → _ ∧ _))
  | (_, .dockTaskViewClicked _) => inferInstanceAs (Decidable (_ → _ ∧ _))
  | (_, .stepAnimations) => inferInstanceAs (Decidable True)

namespace Desktop

/-! ### What a step of the animations does to one window -/

/-- The frame an element has after its animations have been stepped: the last one decides. -/
def steppedFrame (lerp : Lerp) (now : ℕ) (old : Rect) (anims : List Animation) : Rect :=
  match anims.getLast? with
  | none => old
  | some anim => animatedFrame lerp now anim.params

theorem steppedFrame_cons (lerp : Lerp) (now : ℕ) (old : Rect) (anim : Animation)
    (anims : List Animation) : steppedFrame lerp now old (anim :: anims) =
      steppedFrame lerp now (animatedFrame lerp now anim.params) anims := by
  cases anims with
  | nil => rfl
  | cons anim' anims => rfl

/-- What is left alone of a window. -/
structure SameWindow (w : ElementId) (d d' : Desktop) : Prop where
  frame : d'.frame w = d.frame w
  unminimizedFrame : d'.unminimizedFrame w = d.unminimizedFrame w
  ongoingAnimations : d'.ongoingAnimations = d.ongoingAnimations

variable {d d' : Desktop} {w : ElementId}

theorem SameWindow.refl (w : ElementId) (d : Desktop) : SameWindow w d d := ⟨rfl, rfl, rfl⟩

theorem SameWindow.trans {d'' : Desktop} (h : SameWindow w d d') (h' : SameWindow w d' d'') :
    SameWindow w d d'' :=
  ⟨h'.frame.trans h.frame, h'.unminimizedFrame.trans h.unminimizedFrame,
    h'.ongoingAnimations.trans h.ongoingAnimations⟩

theorem SameElements.sameWindow (h : SameElements d d') (hmouse : SameMouseState d d') :
    SameWindow w d d' :=
  ⟨congrFun h.frame w, hmouse.unminimizedFrame w, h.ongoingAnimations⟩

theorem SameWindow.recompute (d : Desktop) (rect : Rect) :
    SameWindow w d (d.recomputeDrawableRegionsInRect rect) :=
  (recompute_sameElements d rect).1.sameWindow (SameMouseState.recompute d rect)

theorem SameWindow.queueFullRedraw (d : Desktop) (rect : Rect) :
    SameWindow w d (d.queueFullRedraw rect) :=
  (Quiet.queueFullRedraw d rect).toSameElements.sameWindow (SameMouseState.queueFullRedraw d rect)

theorem SameWindow.queueComposite (d : Desktop) (e : ElementId) :
    SameWindow w d (d.queueComposite e) :=
  ⟨rfl, rfl, rfl⟩

theorem SameWindow.foldl {α : Type*} {f : Desktop → α → Desktop}
    (hf : ∀ d a, SameWindow w d (f d a)) :
    ∀ (items : List α) (d : Desktop), SameWindow w d (items.foldl f d) := by
  intro items
  induction items with
  | nil => exact SameWindow.refl w
  | cons a items ih => exact fun d => (hf d a).trans (ih (f d a))

/-- The end of a window leaves the frames and the animations. -/
theorem SameWindow.dropWindow (d : Desktop) (v : ElementId) : SameWindow w d (d.dropWindow v) := by
  have hremoved : SameWindow w d (d.removeWindow v) := ⟨rfl, rfl, rfl⟩
  have htransition : SameWindow w (d.removeWindow v) ((d.removeWindow v).transitionToMouseInteractionState
      ((d.removeWindow v).mouseInteractionStateForMouseState false)) :=
    (transition_sameElements _ _).1.sameWindow (SameMouseState.transition _ _)
  have hleft : SameWindow w d ((d.leaveWindow v).removeElement v) :=
    ⟨(hremoved.trans htransition).frame, (hremoved.trans htransition).unminimizedFrame,
      (hremoved.trans htransition).ongoingAnimations⟩
  exact (hleft.trans (SameWindow.recompute _ _)).trans (SameWindow.queueFullRedraw _ _)

theorem stepEach_window (lerp : Lerp) (now : ℕ) : ∀ (anims : List Animation) (d : Desktop),
    (stepEach lerp now anims d).1.frame w = steppedFrame lerp now (d.frame w)
        (anims.filter fun anim => anim.params.element = w) ∧
      (stepEach lerp now anims d).1.unminimizedFrame w = d.unminimizedFrame w ∧
      (stepEach lerp now anims d).1.ongoingAnimations = d.ongoingAnimations := by
  intro anims
  induction anims with
  | nil => exact fun d => ⟨rfl, rfl, rfl⟩
  | cons anim anims ih =>
    intro d
    rw [stepEach]
    set newFrame := animatedFrame lerp now anim.params with hnew
    set region := (d.frame anim.params.element).union newFrame
    have hqueue := SameWindow.queueFullRedraw (w := w) (d.setFrame anim.params.element newFrame) region
    obtain ⟨hframe, hsaved, hongoing⟩ :=
      ih ((d.setFrame anim.params.element newFrame).queueFullRedraw region)
    refine ⟨?_, hsaved.trans hqueue.unminimizedFrame, hongoing.trans hqueue.ongoingAnimations⟩
    rw [hframe, hqueue.frame]
    by_cases heq : anim.params.element = w
    · rw [List.filter_cons_of_pos (by simpa using heq), steppedFrame_cons, ← hnew]
      show steppedFrame lerp now (Function.update d.frame anim.params.element newFrame w) _ = _
      rw [heq, Function.update_self]
    · rw [List.filter_cons_of_neg (by simpa using heq)]
      show steppedFrame lerp now (Function.update d.frame anim.params.element newFrame w) _ = _
      rw [Function.update_of_ne (Ne.symm heq)]

theorem foldl_finishAnimation_window (w : ElementId) : ∀ (anims : List Animation) (d : Desktop),
    (anims.foldl finishAnimation d).frame w = d.frame w ∧
      (anims.foldl finishAnimation d).ongoingAnimations = d.ongoingAnimations ∧
      (anims.foldl finishAnimation d).unminimizedFrame w =
        if ∃ anim ∈ anims, anim.isUnminimize = true ∧ anim.params.element = w then none
        else d.unminimizedFrame w := by
  intro anims
  induction anims with
  | nil => exact fun d => ⟨rfl, rfl, by simp⟩
  | cons anim anims ih =>
    intro d
    obtain ⟨hframe, hongoing, hsaved⟩ := ih (d.finishAnimation anim)
    have hone : (d.finishAnimation anim).frame = d.frame ∧
        (d.finishAnimation anim).ongoingAnimations = d.ongoingAnimations ∧
        (d.finishAnimation anim).unminimizedFrame w =
          if anim.isUnminimize = true ∧ anim.params.element = w then none
          else d.unminimizedFrame w := by
      cases anim with
      | windowUnminimize p =>
        refine ⟨rfl, rfl, ?_⟩
        show (Function.update d.window p.element _ w).unminimizedFrame = _
        by_cases heq : p.element = w
        · rw [if_pos ⟨rfl, heq⟩, ← heq, Function.update_self]
        · rw [if_neg fun h => heq h.2, Function.update_of_ne (Ne.symm heq)]
          rfl
      | _ => exact ⟨rfl, rfl, rfl⟩
    rw [List.foldl_cons, hframe, hongoing, hsaved, hone.1, hone.2.1, hone.2.2]
    refine ⟨rfl, rfl, ?_⟩
    by_cases htail : ∃ anim ∈ anims, anim.isUnminimize = true ∧ anim.params.element = w
    · rw [if_pos htail, if_pos]
      obtain ⟨a, ha, hback⟩ := htail
      exact ⟨a, List.mem_cons_of_mem anim ha, hback⟩
    · rw [if_neg htail]
      refine if_congr ⟨fun hback => ⟨anim, List.mem_cons_self, hback⟩, ?_⟩ rfl rfl
      rintro ⟨a, ha, hback⟩
      rcases List.mem_cons.mp ha with rfl | ha
      · exact hback
      · exact absurd ⟨a, ha, hback⟩ htail

/-- **One step of the animations**, for one window: the last animation of the window decides on its
frame, the animations that are complete go, and a window that has come back is no longer
minimized. -/
theorem stepAnimations_window (lerp : Lerp) (d : Desktop) (now : ℕ) :
    (d.stepAnimations lerp now).frame w =
        steppedFrame lerp now (d.frame w) (d.animationsOf w) ∧
      (d.stepAnimations lerp now).animationsOf w =
        (d.animationsOf w).filter (fun anim => !anim.isComplete now) ∧
      (d.stepAnimations lerp now).unminimizedFrame w =
        if ∃ anim ∈ d.animationsOf w, anim.isUnminimize = true ∧ anim.isComplete now = true
        then none else d.unminimizedFrame w := by
  unfold stepAnimations
  split
  · rename_i hnone
    have hempty : d.animationsOf w = [] := by
      rw [animationsOf, List.length_eq_zero_iff.mp hnone, List.filter_nil]
    rw [hempty]
    exact ⟨rfl, rfl, by simp⟩
  · obtain ⟨hframe, hsaved, hongoing⟩ := stepEach_window (w := w) lerp now d.ongoingAnimations d
    have hanimated : SameWindow w (stepEach lerp now d.ongoingAnimations d).1 (d.animate lerp now) :=
      SameWindow.foldl (fun d r => SameWindow.recompute d r) _ _
    have hdropped := hanimated.trans
      (SameWindow.foldl (fun d v => SameWindow.dropWindow d v) ((d.animate lerp now).windowsToDrop now) _)
    dsimp only
    generalize ((d.animate lerp now).windowsToDrop now).foldl dropWindow (d.animate lerp now) = e
      at hdropped
    have hrefreshed : SameWindow w e ((e.shortcutsToRefresh now).foldl queueComposite e) :=
      SameWindow.foldl SameWindow.queueComposite _ _
    have hboth := hdropped.trans hrefreshed
    unfold finishAnimations
    dsimp only
    generalize (e.shortcutsToRefresh now).foldl queueComposite e = f at hboth
    obtain ⟨hframe', hongoing', hsaved'⟩ := foldl_finishAnimation_window w
      (f.ongoingAnimations.filter fun anim => anim.isComplete now) f
    have hall : f.ongoingAnimations = d.ongoingAnimations := hboth.ongoingAnimations.trans hongoing
    refine ⟨hframe'.trans (hboth.frame.trans hframe), ?_, ?_⟩
    · rw [hongoing', hall, animationsOf, animationsOf, List.filter_filter, List.filter_filter]
      refine List.filter_congr fun anim _ => ?_
      rw [Bool.and_comm]
    · refine hsaved'.trans ?_
      rw [hboth.unminimizedFrame, hsaved, hall]
      refine if_congr ?_ rfl rfl
      simp only [animationsOf, List.mem_filter, decide_eq_true_eq]
      constructor
      · rintro ⟨anim, ⟨hmem, hcomplete⟩, hun, helement⟩
        exact ⟨anim, ⟨hmem, helement⟩, hun, hcomplete⟩
      · rintro ⟨anim, ⟨hmem, helement⟩, hun, hcomplete⟩
        exact ⟨anim, ⟨hmem, hcomplete⟩, hun, helement⟩

/-- **The start of an animation** where its element is. -/
theorem startAnimation_window (d : Desktop) (anim : Animation) (w : ElementId)
    (hfrom : anim.params.frameFrom = d.frame anim.params.element) :
    (d.startAnimation anim).frame w = d.frame w ∧
      (d.startAnimation anim).animationsOf w =
        d.animationsOf w ++ (if anim.params.element = w then [anim] else []) ∧
      (d.startAnimation anim).unminimizedFrame w =
        if anim.isMinimize = true ∧ anim.params.element = w then some (d.frame w)
        else d.unminimizedFrame w := by
  have hself : d.setFrame anim.params.element anim.params.frameFrom = d := by
    rw [setFrame, hfrom, Function.update_eq_self]
  have hlast : [anim].filter (fun anim => decide (anim.params.element = w)) =
      if anim.params.element = w then [anim] else [] := by
    split <;> rename_i heq <;> simp [heq]
  unfold startAnimation
  dsimp only
  rw [hself]
  cases anim with
  | windowMinimize p =>
    refine ⟨rfl, ?_, ?_⟩
    · rw [← hlast]
      exact List.filter_append ..
    · show (Function.update d.window p.element _ w).unminimizedFrame = _
      by_cases heq : p.element = w
      · rw [if_pos ⟨rfl, heq⟩, ← heq, Function.update_self]
        exact congrArg some hfrom
      · rw [if_neg fun h => heq h.2, Function.update_of_ne (Ne.symm heq)]
        rfl
  | _ =>
    refine ⟨rfl, ?_, rfl⟩
    rw [← hlast]
    exact List.filter_append ..

theorem SameWindow.moveWindowToTop {v : ElementId} (h : d.moveWindowToTop v = some d') :
    SameWindow w d d' := by
  unfold Desktop.moveWindowToTop at h
  split at h
  · obtain rfl := Option.some.inj h
    have hraised : SameWindow w d { d with windows := v :: d.windows.erase v } := ⟨rfl, rfl, rfl⟩
    exact hraised.trans (SameWindow.recompute _ _)
  · cases h

theorem SameWindow.animationsOf (h : SameWindow w d d') : d'.animationsOf w = d.animationsOf w := by
  rw [Desktop.animationsOf, h.ongoingAnimations, Desktop.animationsOf]

end Desktop

/-! ### The invariant -/

/-- What holds of a window whose place is `home`, while the requests find it there. -/
structure RoundTrip (w : ElementId) (home : Rect) (c : ClockedDesktop) : Prop where
  saved : ∀ frame ∈ c.desktop.unminimizedFrame w, frame = home
  kinds : ∀ anim ∈ c.desktop.animationsOf w, anim.isMinimize = true ∨
    anim.isUnminimize = true ∧
      ∀ now ≥ anim.params.endTime, Desktop.animatedFrame doubleLerp now anim.params = home
  ordered : (c.desktop.animationsOf w).Pairwise fun a b =>
    a.params.endTime ≤ b.params.endTime ∧ (a.isUnminimize = true → b.isUnminimize = true)
  ends : ∀ anim ∈ c.desktop.animationsOf w, anim.params.endTime ≤ c.clock + 200
  unsaved : c.desktop.unminimizedFrame w = none →
    ∀ anim ∈ c.desktop.animationsOf w, anim.isUnminimize = true
  rest : c.desktop.unminimizedFrame w = none → c.desktop.animationsOf w = [] →
    c.desktop.frame w = home

/-- An animation that leads home is at home from its end on. -/
theorem animatedFrame_end {now start : ℕ} {e : ElementId} {frameFrom frameTo : Rect}
    (hfrom : ExactFrame frameFrom) (hto : ExactFrame frameTo) (hend : start + 200 ≤ now) :
    Desktop.animatedFrame doubleLerp now (Desktop.animationParams start 200 e frameFrom frameTo) =
      frameTo := by
  have hlerp : ∀ {a b : ℤ}, Exact a → Exact b → doubleLerp a b (now - start) 200 = b :=
    fun ha hb => doubleLerp_end ha hb (by decide) (by norm_num) (by omega)
  unfold Desktop.animatedFrame Desktop.animationParams interpolateFrame
  rw [hlerp hfrom.1 hto.1, hlerp hfrom.2.1 hto.2.1, hlerp hfrom.2.2.1 hto.2.2.1,
    hlerp hfrom.2.2.2 hto.2.2.2]
  rfl

namespace RoundTrip

variable {w : ElementId} {home : Rect} {c : ClockedDesktop} (h : RoundTrip w home c)

include h

variable {now : ℕ} {anim : Animation}

theorem keep {d : Desktop} (hnow : c.clock ≤ now) (hframe : d.frame w = c.desktop.frame w)
    (hanims : d.animationsOf w = c.desktop.animationsOf w)
    (hsaved : d.unminimizedFrame w = c.desktop.unminimizedFrame w) : RoundTrip w home ⟨d, now⟩ where
  saved := by rw [hsaved]; exact h.saved
  kinds := by rw [hanims]; exact h.kinds
  ordered := by rw [hanims]; exact h.ordered
  ends anim hanim := by
    rw [hanims] at hanim
    have hend := h.ends anim hanim
    dsimp only
    omega
  unsaved := by rw [hsaved, hanims]; exact h.unsaved
  rest := by rw [hsaved, hanims, hframe]; exact h.rest

/-- The animations that are still going on lie behind those that are over: a window that was
minimized and of which an animation back is over is not on its way to the dock. -/
theorem complete_of_unminimize {a u : Animation} (ha : a ∈ c.desktop.animationsOf w)
    (hu : u ∈ c.desktop.animationsOf w) (hback : u.isUnminimize = true)
    (hcomplete : u.isComplete now = true) : a.isUnminimize = true ∨ a.isComplete now = true := by
  obtain ⟨i, hi, rfl⟩ := List.getElem_of_mem ha
  obtain ⟨j, hj, rfl⟩ := List.getElem_of_mem hu
  rcases Nat.lt_trichotomy i j with hlt | rfl | hlt
  · have hle := (List.pairwise_iff_getElem.mp h.ordered i j hi hj hlt).1
    refine .inr ?_
    unfold Animation.isComplete at hcomplete ⊢
    rw [decide_eq_true_iff] at hcomplete ⊢
    exact hle.trans hcomplete
  · exact .inl hback
  · exact .inl ((List.pairwise_iff_getElem.mp h.ordered j i hj hi hlt).2 hback)

section

variable (hnow : c.clock ≤ now)

include hnow

/-- **A step of the animations.** -/
theorem stepAnimations : RoundTrip w home ⟨c.desktop.stepAnimations doubleLerp now, now⟩ := by
  obtain ⟨hframe, hanims, hsaved⟩ :=
    Desktop.stepAnimations_window (w := w) doubleLerp c.desktop now
  have hsub : ∀ anim ∈ (c.desktop.stepAnimations doubleLerp now).animationsOf w,
      anim ∈ c.desktop.animationsOf w ∧ anim.isComplete now = false := by
    intro anim hanim
    rw [hanims, List.mem_filter, Bool.not_eq_true'] at hanim
    exact hanim
  refine ⟨fun frame hmem => ?_, fun anim hanim => h.kinds anim (hsub anim hanim).1, ?_,
    fun anim hanim => ?_, fun hnone anim hanim => ?_, fun hnone hempty => ?_⟩
  · rw [hsaved] at hmem
    split at hmem
    · cases hmem
    · exact h.saved frame hmem
  · rw [hanims]
    exact h.ordered.filter _
  · have hend := h.ends anim (hsub anim hanim).1
    dsimp only
    omega
  · obtain ⟨hmem, hongoing⟩ := hsub anim hanim
    rw [hsaved] at hnone
    split at hnone
    · rename_i hover
      obtain ⟨u, hu, hback, hcomplete⟩ := hover
      rcases h.complete_of_unminimize hmem hu hback hcomplete with hun | hover
      · exact hun
      · rw [hongoing] at hover
        cases hover
    · exact h.unsaved hnone anim hmem
  · rw [hframe]
    rw [hanims] at hempty
    rw [hsaved] at hnone
    rcases List.eq_nil_or_concat (c.desktop.animationsOf w) with hnil | ⟨front, last, hlast⟩
    · rw [hnil] at hnone ⊢
      exact h.rest hnone hnil
    · -- the last animation is over, and it is one that leads home
      have hmem : last ∈ c.desktop.animationsOf w := by
        rw [hlast]
        simp
      have hover : last.isComplete now = true := by
        have hnot := List.filter_eq_nil_iff.mp hempty last hmem
        simpa using hnot
      have hback : last.isUnminimize = true := by
        split at hnone
        · rename_i hover'
          obtain ⟨u, hu, hun, -⟩ := hover'
          have hordered := h.ordered
          rw [hlast, List.concat_eq_append] at hu hordered
          rcases List.mem_append.mp hu with hfront | hself
          · exact ((List.pairwise_append.mp hordered).2.2 u hfront last List.mem_cons_self).2 hun
          · rw [← List.mem_singleton.mp hself]
            exact hun
        · exact h.unsaved hnone last hmem
      have hhome : ∀ now ≥ last.params.endTime,
          Desktop.animatedFrame doubleLerp now last.params = home := by
        rcases h.kinds last hmem with hmin | ⟨-, hhome⟩
        · cases last <;> simp_all [Animation.isMinimize, Animation.isUnminimize]
        · exact hhome
      rw [hlast, List.concat_eq_append, Desktop.steppedFrame, List.getLast?_concat]
      exact hhome now (of_decide_eq_true hover)

/-- The start of an animation of the window that leaves `home` as the frame that is saved. -/
theorem startAnimation (hfrom : anim.params.frameFrom = c.desktop.frame anim.params.element)
    (helement : anim.params.element = w) (hend : anim.params.endTime = now + 200)
    (hkind : anim.isMinimize = true ∨ anim.isUnminimize = true ∧
      ∀ later ≥ anim.params.endTime, Desktop.animatedFrame doubleLerp later anim.params = home)
    (hback : ∀ a ∈ c.desktop.animationsOf w, a.isUnminimize = true → anim.isUnminimize = true)
    (hhome : (if anim.isMinimize = true then some (c.desktop.frame w)
      else c.desktop.unminimizedFrame w) = some home) :
    RoundTrip w home ⟨c.desktop.startAnimation anim, now⟩ := by
  obtain ⟨-, hanims, hsaved⟩ := Desktop.startAnimation_window c.desktop anim w hfrom
  rw [if_pos helement] at hanims
  rw [if_congr (and_iff_left helement) rfl rfl, hhome] at hsaved
  have hcases : ∀ a ∈ (c.desktop.startAnimation anim).animationsOf w,
      a ∈ c.desktop.animationsOf w ∨ a = anim := by
    intro a ha
    rw [hanims] at ha
    exact (List.mem_append.mp ha).imp_right List.mem_singleton.mp
  have hends : ∀ a ∈ c.desktop.animationsOf w, a.params.endTime ≤ now + 200 := fun a ha =>
    (h.ends a ha).trans (Nat.add_le_add_right hnow 200)
  refine ⟨fun frame hmem => ?_, fun a ha => ?_, ?_, fun a ha => ?_, fun hnone => ?_,
    fun hnone => ?_⟩
  · rw [hsaved] at hmem
    exact (Option.some.inj hmem).symm
  · rcases hcases a ha with hold | rfl
    · exact h.kinds a hold
    · exact hkind
  · rw [hanims]
    refine List.pairwise_append.mpr ⟨h.ordered, List.pairwise_singleton _ _, fun a ha b hb => ?_⟩
    rw [List.mem_singleton.mp hb, hend]
    exact ⟨hends a ha, hback a ha⟩
  · rcases hcases a ha with hold | rfl
    · exact hends a hold
    · exact hend.le
  · exact absurd (hsaved.symm.trans hnone) (Option.some_ne_none _)
  · exact absurd (hsaved.symm.trans hnone) (Option.some_ne_none _)

/-- **A request to minimize** the window, which finds it in its place. -/
theorem minimize (destFrame : Rect)
    (hkept : ∀ anim ∈ c.desktop.animationsOf w, anim.isUnminimize = false)
    (hfound : ∀ frame ∈ c.desktop.unminimizedFrame w, frame = c.desktop.frame w) :
    RoundTrip w home ⟨c.desktop.startAnimation (.windowMinimize
      (Desktop.animationParams now 200 w (c.desktop.frame w) destFrame)), now⟩ := by
  have hhome : c.desktop.frame w = home := by
    cases hcase : c.desktop.unminimizedFrame w with
    | some frame => exact (hfound frame hcase).symm.trans (h.saved frame hcase)
    | none =>
      refine h.rest hcase (List.eq_nil_iff_forall_not_mem.mpr fun anim hanim => ?_)
      have hnot := hkept anim hanim
      rw [h.unsaved hcase anim hanim] at hnot
      cases hnot
  refine h.startAnimation hnow rfl rfl rfl (.inl rfl) (fun a ha hback => ?_) (congrArg some hhome)
  rw [hkept a ha] at hback
  cases hback

/-- **A request to bring the window back**, from coordinates an `f64` holds. -/
theorem unminimize {saved : Rect} (hsome : c.desktop.unminimizedFrame w = some saved)
    (hfrom : ExactFrame (c.desktop.frame w)) (hto : ExactFrame saved) :
    RoundTrip w home ⟨c.desktop.startAnimation (.windowUnminimize
      (Desktop.animationParams now 200 w (c.desktop.frame w) saved)), now⟩ := by
  obtain rfl : saved = home := h.saved saved hsome
  exact h.startAnimation hnow rfl rfl rfl
    (.inr ⟨rfl, fun later hlater => animatedFrame_end hfrom hto hlater⟩) (fun _ _ _ => rfl) hsome

theorem startAnimation_of_ne (hfrom : anim.params.frameFrom = c.desktop.frame anim.params.element)
    (hne : anim.params.element ≠ w) : RoundTrip w home ⟨c.desktop.startAnimation anim, now⟩ := by
  obtain ⟨hframe, hanims, hsaved⟩ := Desktop.startAnimation_window c.desktop anim w hfrom
  rw [if_neg hne, List.append_nil] at hanims
  rw [if_neg fun h => hne h.2] at hsaved
  exact h.keep hnow hframe hanims hsaved

end

/-- **Every event keeps the invariant**, as long as requests find the window in its place. -/
theorem next {event : ℕ × MinimizeEvent} {c' : ClockedDesktop} (hkept : RequestKept w c event)
    (hnext : minimizeNext c event = some c') : RoundTrip w home c' := by
  obtain ⟨wait, event⟩ := event
  have hnow : c.clock ≤ c.clock + wait := Nat.le_add_right _ _
  cases event with
  | stepAnimations =>
    obtain rfl := Option.some.inj hnext
    exact h.stepAnimations hnow
  | dockWindowMinimizeWithInfo window taskViewFrame =>
    obtain ⟨d, hd, rfl⟩ := Option.map_eq_some_iff.mp hnext
    obtain ⟨v, hv, rfl⟩ := Option.map_eq_some_iff.mp hd
    obtain rfl : v = window := (Desktop.windowWithId_spec hv).2
    by_cases heq : v = w
    · subst heq
      exact h.minimize hnow _ (hkept rfl).1 (hkept rfl).2
    · exact h.startAnimation_of_ne hnow rfl heq
  | dockTaskViewClicked window =>
    obtain ⟨d, hd, rfl⟩ := Option.map_eq_some_iff.mp hnext
    obtain ⟨v, hv, hclick⟩ := Option.bind_eq_some_iff.mp hd
    obtain rfl : v = window := (Desktop.windowWithId_spec hv).2
    obtain ⟨top, htop, rfl⟩ := Option.map_eq_some_iff.mp hclick
    have hsame : Desktop.SameWindow w c.desktop top := Desktop.SameWindow.moveWindowToTop htop
    -- the window is on top: nothing of `w` has changed
    have hraised : RoundTrip w home ⟨top, c.clock⟩ :=
      h.keep le_rfl hsame.frame hsame.animationsOf hsame.unminimizedFrame
    cases hcase : (top.window v).unminimizedFrame with
    | none => exact hraised.keep hnow rfl rfl rfl
    | some saved =>
      by_cases heq : v = w
      · subst heq
        obtain ⟨hfrom, hto⟩ := hkept rfl
        rw [← hsame.frame] at hfrom
        rw [← hsame.unminimizedFrame] at hto
        exact hraised.unminimize hnow hcase hfrom (hto saved hcase)
      · exact hraised.startAnimation_of_ne hnow rfl heq

end RoundTrip

/-- A window that is neither minimized nor moved by an animation is in its place. -/
def Settled (d : Desktop) (w : ElementId) : Prop :=
  d.unminimizedFrame w = none ∧ d.animationsOf w = []

instance (d : Desktop) (w : ElementId) : Decidable (Settled d w) :=
  inferInstanceAs (Decidable (_ ∧ _))

/-- **There and back.**  A settled window of which every request to minimize it finds it in its
place is back there whenever it is settled again. -/
theorem minimize_round_trip (w : ElementId) (d : Desktop) (clock : ℕ) (hstart : Settled d w)
    (events : List (ℕ × MinimizeEvent)) (c : ClockedDesktop)
    (hkept : Meets minimizeNext (RequestKept w) ⟨d, clock⟩ events)
    (hrun : run minimizeNext ⟨d, clock⟩ events = some c) (hend : Settled c.desktop w) :
    c.desktop.frame w = d.frame w := by
  have hinit : RoundTrip w (d.frame w) ⟨d, clock⟩ := by
    obtain ⟨hnone, hempty⟩ := hstart
    have hsaved : ∀ frame ∈ d.unminimizedFrame w, frame = d.frame w := by
      rw [hnone]
      rintro frame ⟨⟩
    refine ⟨hsaved, ?_, ?_, ?_, ?_, fun _ _ => rfl⟩ <;> dsimp only <;> rw [hempty]
    · exact fun _ hmem => absurd hmem List.not_mem_nil
    · exact .nil
    · exact fun _ hmem => absurd hmem List.not_mem_nil
    · exact fun _ _ hmem => absurd hmem List.not_mem_nil
  have hfinal := run_invariant (fun c event c' h hkept hnext => RoundTrip.next h hkept hnext)
    events ⟨d, clock⟩ c hinit hkept hrun
  exact hfinal.rest hend.1 hend.2

/-- A window of 200 by 130, with its upper left corner at (100, 100). -/
def oneWindowDesktop : Desktop :=
  Desktop.vgaDesktop.spawnWindow 0 "com.axle.crash_reporter" ⟨200, 100⟩ (some ⟨100, 100⟩) false

def dockTaskViewFrame : Rect := ⟨⟨100, 450⟩, ⟨80, 20⟩⟩

theorem ends_in (c : ClockedDesktop) (events : List (ℕ × MinimizeEvent))
    (P : ClockedDesktop → Prop) [DecidablePred P]
    (h : (run minimizeNext c events).any (fun c' => decide (P c')) = true) :
    ∃ c', run minimizeNext c events = some c' ∧ P c' := by
  obtain ⟨c', hrun, hend⟩ := (Option.any_eq_true _ _).mp h
  exact ⟨c', hrun, of_decide_eq_true hend⟩

/-- There and back, with a second request before the window has left. -/
theorem minimize_round_trip_oneWindow :
    ∃ c, run minimizeNext ⟨oneWindowDesktop, 0⟩
        [(0, .dockWindowMinimizeWithInfo 0 dockTaskViewFrame),
          (1, .dockWindowMinimizeWithInfo 0 dockTaskViewFrame), (100, .stepAnimations),
          (200, .stepAnimations), (0, .dockTaskViewClicked 0), (200, .stepAnimations)] = some c ∧
      c.desktop.frame 0 = oneWindowDesktop.frame 0 := by
  obtain ⟨c, hrun, hend⟩ := ends_in ⟨oneWindowDesktop, 0⟩
    [(0, .dockWindowMinimizeWithInfo 0 dockTaskViewFrame),
      (1, .dockWindowMinimizeWithInfo 0 dockTaskViewFrame), (100, .stepAnimations),
      (200, .stepAnimations), (0, .dockTaskViewClicked 0), (200, .stepAnimations)]
    (fun c => Settled c.desktop 0) (by decide +kernel)
  exact ⟨c, hrun, minimize_round_trip 0 oneWindowDesktop 0 (by decide +kernel) _ c
    (by decide +kernel) hrun hend⟩

/-- The second request finds the window on its way to the dock, and that is where it goes back
to. -/
theorem minimize_twice : Settled oneWindowDesktop 0 ∧
    oneWindowDesktop.frame 0 = ⟨⟨100, 100⟩, ⟨200, 130⟩⟩ ∧
    ∃ c, run minimizeNext ⟨oneWindowDesktop, 0⟩
        [(0, .dockWindowMinimizeWithInfo 0 dockTaskViewFrame), (100, .stepAnimations),
          (0, .dockWindowMinimizeWithInfo 0 dockTaskViewFrame), (200, .stepAnimations),
          (0, .dockTaskViewClicked 0), (200, .stepAnimations)] = some c ∧
      Settled c.desktop 0 ∧ c.desktop.frame 0 = ⟨⟨100, 290⟩, ⟨140, 75⟩⟩ := by
  decide +kernel

end Axle.Awm
