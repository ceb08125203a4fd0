import Axle.Awm.DrawableRegions
import Axle.Awm.MainLoop
import Axle.Lib.PairLoop
import Mathlib.Tactic

/-!
# Extra draws

Before a frame is composited, every rectangle that was queued for a full redraw is divided among
the elements that can be seen in it and the background.  The walk over the elements ends as soon as
a drawable rectangle encloses the whole rectangle.  An element whose frame misses the rectangle is
passed over, and a drawable rectangle that meets it must share a point with it, or the walk panics.
Afterwards the rectangles of each element that share an edge from side to side are merged.

* `computeExtraDraws_exact` — **PROVED**: the walk gives each point of the redraw rectangles to
  those elements that have it in a drawable rectangle, and to the background where none has;
* `walkable_of_computed` — **PROVED**: the drawable rectangles that the desktop computes keep to
  their frames;
* `mergeExtraDraws_covers` — **PROVED**: the merge ends, stays within its lists, and keeps every
  point of every element.
-/

namespace Axle.Awm

open Axle.Agx Axle.Lib.StepRun Axle.Lib.PairLoop

/-! ### What is queued -/

/-- The rectangles stored for an element. -/
def ExtraDraws.rectsOf (m : ExtraDraws) (e : ElementId) : List Rect :=
  m.flatMap fun draws => if draws.1 = e then draws.2 else []

variable {r s : Rect} {rects : List Rect} {e : ElementId} {m : ExtraDraws}

theorem eq_of_not_rectLt (hrs : rectLt r s = false) (hsr : rectLt s r = false) : r = s := by
  simp only [rectLt, Bool.or_eq_false_iff, Bool.and_eq_false_iff, decide_eq_false_iff_not]
    at hrs hsr
  simp only [Rect.minX, Rect.minY, Rect.width, Rect.height] at hrs hsr
  ext <;> omega

theorem mem_btreeInsert_rect : s ∈ btreeInsert rectLt r rects ↔ s = r ∨ s ∈ rects := by
  induction rects with
  | nil => simp [btreeInsert]
  | cons t rects ih =>
    rw [btreeInsert]
    split
    · exact List.mem_cons
    · rename_i hrt
      split
      · rw [List.mem_cons, ih, List.mem_cons]
        tauto
      · rename_i htr
        have heq : r = t := eq_of_not_rectLt (by simpa using hrt) (by simpa using htr)
        rw [heq, List.mem_cons]
        tauto

theorem mem_rectsOf : r ∈ m.rectsOf e ↔ ∃ draws ∈ m, draws.1 = e ∧ r ∈ draws.2 := by
  rw [ExtraDraws.rectsOf, List.mem_flatMap]
  refine exists_congr fun draws => and_congr_right fun _ => ?_
  split
  · rename_i heq
    exact (and_iff_right heq).symm
  · rename_i hne
    exact iff_of_false List.not_mem_nil fun h => hne h.1

theorem mem_rectsOf_cons {draws : ElementId × List Rect} :
    r ∈ ExtraDraws.rectsOf (draws :: m) e ↔ draws.1 = e ∧ r ∈ draws.2 ∨ r ∈ m.rectsOf e := by
  rw [mem_rectsOf, mem_rectsOf, List.exists_mem_cons_iff]

theorem mem_rectsOf_insertRect {e x : ElementId} :
    s ∈ (m.insertRect e r).rectsOf x ↔ e = x ∧ s = r ∨ s ∈ m.rectsOf x := by
  induction m with
  | nil =>
    rw [ExtraDraws.insertRect, mem_rectsOf_cons, List.mem_singleton]
  | cons draws m ih =>
    obtain ⟨k, rects⟩ := draws
    by_cases hlt : e < k
    · rw [ExtraDraws.insertRect, if_pos hlt, mem_rectsOf_cons, List.mem_singleton]
    · by_cases hgt : k < e
      · rw [ExtraDraws.insertRect, if_neg hlt, if_pos hgt, mem_rectsOf_cons, mem_rectsOf_cons, ih]
        tauto
      · obtain rfl : e = k := le_antisymm (not_lt.mp hgt) (not_lt.mp hlt)
        rw [ExtraDraws.insertRect, if_neg hlt, if_neg hgt, mem_rectsOf_cons, mem_rectsOf_cons,
          mem_btreeInsert_rect]
        tauto

theorem not_mem_of_isDegenerate (h : r.isDegenerate = true) (p : Point) : p ∉ r := by
  intro hp
  rw [Rect.isDegenerate, Bool.or_eq_true, decide_eq_true_eq, decide_eq_true_eq] at h
  simp only [Rect.width, Rect.height] at h
  rw [Rect.mem_iff] at hp
  omega

namespace Desktop

variable {d d' : Desktop}

/-- The rectangles queued for an element. -/
def extraDrawsOf (d : Desktop) (e : ElementId) : List Rect :=
  d.compositorState.extraDraws.rectsOf e

/-- Left of the right edge and above the bottom edge, where everything that is queued lies. -/
def Kept (d : Desktop) (p : Point) : Prop := p.x < d.desktopSize.width ∧ p.y < d.desktopSize.height

variable {p : Point} {r exclude redraw frame : Rect} {area area' : ElementId → Point → Prop}
  {d'' : Desktop} {areas : List Rect} {drawn bare bare' : Point → Prop} {desktop : Size}

theorem mem_trimmed : p ∈ d.desktopFrame.constrain r ↔ p ∈ r ∧ d.Kept p := Rect.mem_constrain

/-- Only the extra draws differ: those of `d'` have the points `area` more. -/
structure Drew (d d' : Desktop) (area : ElementId → Point → Prop) : Prop where
  frame : d'.frame = d.frame
  drawableRects : d'.drawableRects = d.drawableRects
  desktopSize : d'.desktopSize = d.desktopSize
  elements : d'.compositorState.elements = d.compositorState.elements
  background : d'.compositorState.extraBackgroundDraws = d.compositorState.extraBackgroundDraws
  covered : ∀ e p, Covered (d'.extraDrawsOf e) p ↔ Covered (d.extraDrawsOf e) p ∨ area e p

theorem Drew.refl (d : Desktop) : Drew d d fun _ _ => False :=
  ⟨rfl, rfl, rfl, rfl, rfl, fun _ _ => (or_iff_left id).symm⟩

theorem Drew.trans (h : Drew d d' area) (h' : Drew d' d'' area') :
    Drew d d'' fun e p => area e p ∨ area' e p where
  frame := h'.frame.trans h.frame
  drawableRects := h'.drawableRects.trans h.drawableRects
  desktopSize := h'.desktopSize.trans h.desktopSize
  elements := h'.elements.trans h.elements
  background := h'.background.trans h.background
  covered := fun e p => by rw [h'.covered, h.covered, or_assoc]

theorem Drew.congr (h : Drew d d' area) (heq : ∀ e p, area e p ↔ area' e p) : Drew d d' area' :=
  { h with covered := fun e p => by rw [h.covered, heq] }

theorem drew_queueExtraDraw (d : Desktop) (e : ElementId) (r : Rect) :
    Drew d (d.queueExtraDraw e r) fun x p => e = x ∧ p ∈ r ∧ d.Kept p := by
  unfold queueExtraDraw
  dsimp only
  split
  · rename_i hdegenerate
    refine (Drew.refl d).congr fun x p => ⟨False.elim, fun h => ?_⟩
    exact not_mem_of_isDegenerate hdegenerate p (mem_trimmed.mpr h.2)
  · refine ⟨rfl, rfl, rfl, rfl, rfl, fun x p => ?_⟩
    rw [← mem_trimmed]
    constructor
    · rintro ⟨s, hs, hp⟩
      rcases mem_rectsOf_insertRect.mp hs with ⟨hx, rfl⟩ | hs
      · exact .inr ⟨hx, hp⟩
      · exact .inl ⟨s, hs, hp⟩
    · rintro (⟨s, hs, hp⟩ | ⟨hx, hp⟩)
      · exact ⟨s, mem_rectsOf_insertRect.mpr (.inr hs), hp⟩
      · exact ⟨_, mem_rectsOf_insertRect.mpr (.inl ⟨hx, rfl⟩), hp⟩

/-! ### The walk over the elements -/

theorem covered_updateOcclusions (hareas : ∀ a ∈ areas, a.Nonneg) (hexclude : exclude.Positive)
    (p : Point) : Covered (updateOcclusions areas exclude) p ↔ Covered areas p ∧ p ∉ exclude := by
  have hpiece : ∀ a ∈ areas, Covered
      (if !a.intersectsWith exclude then [a] else a.areaExcludingRect exclude) p ↔
        p ∈ a ∧ p ∉ exclude := by
    intro a ha
    cases hmeet : a.intersectsWith exclude with
    | false =>
      have hout : p ∈ a → p ∉ exclude := Rect.disjoint_of_not_intersects hmeet p
      simp only [Bool.not_false, if_true, Covered, List.mem_singleton, exists_eq_left]
      tauto
    | true => exact Rect.mem_areaExcludingRect (hareas a ha) hexclude hmeet p
  constructor
  · rintro ⟨r, hr, hp⟩
    obtain ⟨a, ha, hr⟩ := List.mem_flatMap.mp hr
    obtain ⟨hpa, hout⟩ := (hpiece a ha).mp ⟨r, hr, hp⟩
    exact ⟨⟨a, ha, hpa⟩, hout⟩
  · rintro ⟨⟨a, ha, hpa⟩, hout⟩
    obtain ⟨r, hr, hp⟩ := (hpiece a ha).mpr ⟨hpa, hout⟩
    exact ⟨r, List.mem_flatMap.mpr ⟨a, ha, hr⟩, hp⟩

theorem updateOcclusions_nonneg (hareas : ∀ a ∈ areas, a.Nonneg) (hexclude : exclude.Positive) :
    ∀ a ∈ updateOcclusions areas exclude, a.Nonneg := by
  intro r hr
  obtain ⟨a, ha, hr⟩ := List.mem_flatMap.mp hr
  split at hr
  · exact List.mem_singleton.mp hr ▸ hareas a ha
  · exact Rect.areaExcludingRect_nonneg (hareas a ha) hexclude r hr

/-- What is left of a redraw rectangle: areas inside it, without the points `drawn`. -/
structure Undrawn (redraw : Rect) (areas : List Rect) (drawn : Point → Prop) : Prop where
  nonneg : ∀ a ∈ areas, a.Nonneg
  covered : ∀ p, Covered areas p ↔ p ∈ redraw ∧ ¬drawn p

theorem Undrawn.update (h : Undrawn redraw areas drawn) (hexclude : exclude.Positive) :
    Undrawn redraw (updateOcclusions areas exclude) fun p => drawn p ∨ p ∈ exclude where
  nonneg := updateOcclusions_nonneg h.nonneg hexclude
  covered := fun p => by
    rw [covered_updateOcclusions h.nonneg hexclude, h.covered, not_or, and_assoc]

theorem Undrawn.congr {drawn drawn' : Point → Prop} (h : Undrawn redraw areas drawn)
    (heq : ∀ p ∈ redraw, drawn p ↔ drawn' p) : Undrawn redraw areas drawn' where
  nonneg := h.nonneg
  covered := fun p => by
    rw [h.covered]
    exact and_congr_right fun hp => not_congr (heq p hp)

theorem Undrawn.start (h : redraw.Positive) : Undrawn redraw [redraw] fun _ => False where
  nonneg := fun a ha => List.mem_singleton.mp ha ▸ h.nonneg
  covered := fun p => by simp [Covered]

theorem mem_of_encloses {r s : Rect} (h : r.encloses s = true) (hp : p ∈ s) : p ∈ r := by
  simp only [Rect.encloses, Bool.and_eq_true, decide_eq_true_eq] at h
  simp only [Rect.minX, Rect.minY, Rect.maxX, Rect.maxY] at h
  rw [Rect.mem_iff] at hp ⊢
  omega

/-- **One element.**  It is given the points of the redraw rectangle that it has in its drawable
rectangles; and when the walk is to end, that is every point. -/
theorem extraDrawsOfElement_spec (hpos : redraw.Positive) (e : ElementId) (rects : List Rect) :
    ∀ {d : Desktop} {undrawn : List Rect} {drawn : Point → Prop}, (∀ p ∈ redraw, d.Kept p) →
      (∀ visible ∈ rects, visible.intersectsWith redraw = true → visible.Positive) →
      Undrawn redraw undrawn drawn →
      ∃ enclosed d' undrawn',
        extraDrawsOfElement redraw e rects d undrawn = some (enclosed, d', undrawn') ∧
        Drew d d' (fun x p => e = x ∧ p ∈ redraw ∧ Covered rects p) ∧
        Undrawn redraw undrawn' (fun p => drawn p ∨ Covered rects p) ∧
        (enclosed = true → ∀ p ∈ redraw, Covered rects p) := by
  induction rects with
  | nil =>
    intro d undrawn drawn _ _ hundrawn
    refine ⟨false, d, undrawn, rfl, (Drew.refl d).congr ?_, hundrawn.congr ?_, nofun⟩
    · simp [Covered]
    · simp [Covered]
  | cons visible rest ih =>
    intro d undrawn drawn hkept hrects hundrawn
    have hrest : ∀ r ∈ rest, r.intersectsWith redraw = true → r.Positive :=
      fun r hr => hrects r (List.mem_cons_of_mem _ hr)
    rw [extraDrawsOfElement]
    cases hmeet : visible.intersectsWith redraw with
    | false =>
      have hout : ∀ p ∈ redraw, p ∉ visible := fun p hp hv =>
        Rect.disjoint_of_not_intersects hmeet p hv hp
      obtain ⟨enclosed, d', undrawn', hrun, hdrew, hleft, hend⟩ := ih hkept hrest hundrawn
      refine ⟨enclosed, d', undrawn', hrun, hdrew.congr ?_, hleft.congr ?_, ?_⟩
      · intro x p
        rw [covered_cons]
        tauto
      · intro p hp
        rw [covered_cons]
        tauto
      · intro henclosed p hp
        exact covered_cons.mpr (.inr (hend henclosed p hp))
    | true =>
      rw [if_neg (by decide)]
      split
      · rename_i hencloses
        have hin : ∀ p ∈ redraw, p ∈ visible := fun p hp => mem_of_encloses hencloses hp
        refine ⟨true, _, _, rfl, (drew_queueExtraDraw d e redraw).congr ?_,
          (hundrawn.update hpos).congr ?_, fun _ p hp => covered_cons.mpr (.inl (hin p hp))⟩
        · intro x p
          have := hin p
          tauto
        · intro p hp
          have := hin p hp
          tauto
      · obtain ⟨o, ho, hopos, hmem⟩ := Rect.areaOverlappingWith_spec
          (hrects visible List.mem_cons_self hmeet) hpos hmeet
        have hqueued := drew_queueExtraDraw d e o
        have hkept' : ∀ p ∈ redraw, (d.queueExtraDraw e o).Kept p := by
          intro p hp
          rw [Kept, hqueued.desktopSize]
          exact hkept p hp
        obtain ⟨enclosed, d', undrawn', hrun, hdrew, hleft, hend⟩ :=
          ih hkept' hrest (hundrawn.update hopos)
        rw [ho]
        refine ⟨enclosed, d', undrawn', hrun, (hqueued.trans hdrew).congr ?_, hleft.congr ?_, ?_⟩
        · intro x p
          rw [covered_cons, hmem]
          tauto
        · intro p hp
          rw [covered_cons, hmem]
          tauto
        · intro henclosed p hp
          exact covered_cons.mpr (.inr (hend henclosed p hp))

/-- A redraw rectangle as the queue holds it, non-empty and trimmed to the desktop; an element whose
frame misses it has no drawable point in it; and the drawable rectangles that meet it are not
empty. -/
structure Walkable (d : Desktop) (redraw : Rect) : Prop where
  positive : redraw.Positive
  kept : ∀ p ∈ redraw, d.Kept p
  missed : ∀ e ∈ d.compositorState.elements, (d.frame e).intersectsWith redraw = false →
    ∀ p ∈ redraw, ¬Covered (d.drawableRects e) p
  nonempty : ∀ e ∈ d.compositorState.elements, (d.frame e).intersectsWith redraw = true →
    ∀ visible ∈ d.drawableRects e, visible.intersectsWith redraw = true → visible.Positive

/-- No two elements have a drawable point in common. -/
def DrawableApart (d : Desktop) : Prop :=
  ∀ x ∈ d.compositorState.elements, ∀ y ∈ d.compositorState.elements, x ≠ y →
    ∀ p, Covered (d.drawableRects x) p → ¬Covered (d.drawableRects y) p

theorem Drew.walkable (h : Drew d d' area) (hwalk : d.Walkable redraw) : d'.Walkable redraw where
  positive := hwalk.positive
  kept := fun p hp => by rw [Kept, h.desktopSize]; exact hwalk.kept p hp
  missed := by rw [h.elements, h.frame, h.drawableRects]; exact hwalk.missed
  nonempty := by rw [h.elements, h.frame, h.drawableRects]; exact hwalk.nonempty

theorem Drew.drawableApart (h : Drew d d' area) (hapart : d.DrawableApart) : d'.DrawableApart := by
  unfold DrawableApart
  rw [h.elements, h.drawableRects]
  exact hapart

/-- **The elements one after the other.**  If a drawable rectangle of one encloses the redraw
rectangle, the rest have no point in it. -/
theorem extraDrawsOfElements_spec (es : List ElementId) :
    ∀ {d : Desktop} {undrawn : List Rect} {drawn : Point → Prop}, d.Walkable redraw →
      d.DrawableApart → (∀ e ∈ es, e ∈ d.compositorState.elements) →
      Undrawn redraw undrawn drawn →
      ∃ d' undrawn', extraDrawsOfElements redraw es d undrawn = some (d', undrawn') ∧
        Drew d d' (fun x p => x ∈ es ∧ p ∈ redraw ∧ Covered (d.drawableRects x) p) ∧
        Undrawn redraw undrawn'
          (fun p => drawn p ∨ ∃ x ∈ es, Covered (d.drawableRects x) p) := by
  induction es with
  | nil =>
    intro d undrawn drawn _ _ _ hundrawn
    refine ⟨d, undrawn, rfl, (Drew.refl d).congr ?_, hundrawn.congr ?_⟩
    · simp
    · simp
  | cons e rest ih =>
    intro d undrawn drawn hwalk hapart hes hundrawn
    have he := hes e List.mem_cons_self
    have hrest : ∀ x ∈ rest, x ∈ d.compositorState.elements :=
      fun x hx => hes x (List.mem_cons_of_mem _ hx)
    rw [extraDrawsOfElements]
    cases hmeet : (d.frame e).intersectsWith redraw with
    | false =>
      have hmissed := hwalk.missed e he hmeet
      obtain ⟨d', undrawn', hrun, hdrew, hleft⟩ := ih hwalk hapart hrest hundrawn
      refine ⟨d', undrawn', hrun, hdrew.congr ?_, hleft.congr ?_⟩
      · intro x p
        constructor
        · exact fun h => ⟨List.mem_cons_of_mem _ h.1, h.2⟩
        · rintro ⟨hx, hp, hcovered⟩
          rcases List.mem_cons.mp hx with rfl | hx
          · exact absurd hcovered (hmissed p hp)
          · exact ⟨hx, hp, hcovered⟩
      · intro p hp
        rw [List.exists_mem_cons_iff, or_iff_right (hmissed p hp)]
    | true =>
      obtain ⟨enclosed, d₁, undrawn₁, hrun, hdrew, hleft, hend⟩ := extraDrawsOfElement_spec
        hwalk.positive e (d.drawableRects e) hwalk.kept (hwalk.nonempty e he hmeet) hundrawn
      rw [if_neg (by decide), hrun]
      cases enclosed with
      | true =>
        have hcovered := hend rfl
        refine ⟨d₁, undrawn₁, rfl, hdrew.congr ?_, hleft.congr ?_⟩
        · intro x p
          constructor
          · rintro ⟨rfl, h⟩
            exact ⟨List.mem_cons_self, h⟩
          · rintro ⟨hx, hp, h⟩
            refine ⟨?_, hp, hcovered p hp⟩
            by_contra hne
            exact hapart e he x (hes x hx) hne p (hcovered p hp) h
        · intro p hp
          tauto
      | false =>
        obtain ⟨d', undrawn', hrun', hdrew', hleft'⟩ := ih (hdrew.walkable hwalk)
          (hdrew.drawableApart hapart) (fun x hx => hdrew.elements ▸ hrest x hx) hleft
        refine ⟨d', undrawn', hrun', (hdrew.trans hdrew').congr ?_, hleft'.congr ?_⟩
        · intro x p
          rw [hdrew.drawableRects, List.mem_cons]
          constructor
          · rintro (⟨rfl, h⟩ | ⟨hx, h⟩)
            · exact ⟨.inl rfl, h⟩
            · exact ⟨.inr hx, h⟩
          · rintro ⟨rfl | hx, h⟩
            · exact .inl ⟨rfl, h⟩
            · exact .inr ⟨hx, h⟩
        · intro p _
          rw [hdrew.drawableRects, List.exists_mem_cons_iff, or_assoc]

/-! ### The background -/

/-- What a whole walk queues: the points `area` for elements, the points `bare` for the
background. -/
structure Divided (d d' : Desktop) (area : ElementId → Point → Prop) (bare : Point → Prop) :
    Prop where
  frame : d'.frame = d.frame
  drawableRects : d'.drawableRects = d.drawableRects
  desktopSize : d'.desktopSize = d.desktopSize
  elements : d'.compositorState.elements = d.compositorState.elements
  covered : ∀ e p, Covered (d'.extraDrawsOf e) p ↔ Covered (d.extraDrawsOf e) p ∨ area e p
  background : ∀ p, Covered d'.compositorState.extraBackgroundDraws p ↔
    Covered d.compositorState.extraBackgroundDraws p ∨ bare p

theorem Divided.refl (d : Desktop) : Divided d d (fun _ _ => False) fun _ => False :=
  ⟨rfl, rfl, rfl, rfl, fun _ _ => (or_iff_left id).symm, fun _ => (or_iff_left id).symm⟩

theorem Divided.trans (h : Divided d d' area bare) (h' : Divided d' d'' area' bare') :
    Divided d d'' (fun e p => area e p ∨ area' e p) fun p => bare p ∨ bare' p where
  frame := h'.frame.trans h.frame
  drawableRects := h'.drawableRects.trans h.drawableRects
  desktopSize := h'.desktopSize.trans h.desktopSize
  elements := h'.elements.trans h.elements
  covered := fun e p => by rw [h'.covered, h.covered, or_assoc]
  background := fun p => by rw [h'.background, h.background, or_assoc]

theorem Divided.congr (h : Divided d d' area bare) (harea : ∀ e p, area e p ↔ area' e p)
    (hbare : ∀ p, bare p ↔ bare' p) : Divided d d' area' bare' :=
  { h with
    covered := fun e p => by rw [h.covered, harea]
    background := fun p => by rw [h.background, hbare] }

theorem Drew.divided (h : Drew d d' area) : Divided d d' area fun _ => False :=
  ⟨h.frame, h.drawableRects, h.desktopSize, h.elements, h.covered,
    fun p => by rw [h.background, or_false]⟩

theorem divided_queueExtraBackgroundDraw (d : Desktop) (r : Rect) :
    Divided d (d.queueExtraBackgroundDraw r) (fun _ _ => False) fun p => p ∈ r ∧ d.Kept p := by
  unfold queueExtraBackgroundDraw
  dsimp only
  split
  · rename_i hdegenerate
    refine (Divided.refl d).congr (fun _ _ => Iff.rfl) fun p => ⟨False.elim, fun h => ?_⟩
    exact not_mem_of_isDegenerate hdegenerate p (mem_trimmed.mpr h)
  · refine ⟨rfl, rfl, rfl, rfl, fun _ _ => (or_iff_left id).symm, fun p => ?_⟩
    rw [← mem_trimmed]
    show Covered (d.compositorState.extraBackgroundDraws ++ [_]) p ↔ _
    simp [Covered]

theorem divided_foldl_background (areas : List Rect) :
    ∀ d : Desktop, Divided d (areas.foldl queueExtraBackgroundDraw d) (fun _ _ => False)
      fun p => Covered areas p ∧ d.Kept p := by
  induction areas with
  | nil =>
    intro d
    exact (Divided.refl d).congr (fun _ _ => Iff.rfl) fun p => by simp [Covered]
  | cons a areas ih =>
    intro d
    have hfirst := divided_queueExtraBackgroundDraw d a
    refine (hfirst.trans (ih _)).congr (fun _ _ => or_self_iff) fun p => ?_
    have hkept : (d.queueExtraBackgroundDraw a).Kept p ↔ d.Kept p := by
      rw [Kept, Kept, hfirst.desktopSize]
    rw [hkept, covered_cons, or_and_right]

/-- One redraw rectangle is divided among the elements and the background. -/
theorem extraDrawsOfRect_spec (hwalk : d.Walkable redraw) (hapart : d.DrawableApart) :
    ∃ d', d.extraDrawsOfRect redraw = some d' ∧ Divided d d'
      (fun x p => x ∈ d.compositorState.elements ∧ p ∈ redraw ∧ Covered (d.drawableRects x) p)
      (fun p => p ∈ redraw ∧ ∀ x ∈ d.compositorState.elements, ¬Covered (d.drawableRects x) p) := by
  obtain ⟨d₁, undrawn, hrun, hdrew, hleft⟩ := extraDrawsOfElements_spec d.compositorState.elements
    hwalk hapart (fun _ he => he) (Undrawn.start hwalk.positive)
  refine ⟨undrawn.foldl queueExtraBackgroundDraw d₁, ?_, ?_⟩
  · rw [extraDrawsOfRect, hrun]
    rfl
  · refine (hdrew.divided.trans (divided_foldl_background undrawn d₁)).congr
      (fun _ _ => or_iff_left id) fun p => ?_
    rw [hleft.covered, Kept, hdrew.desktopSize, false_or, false_or]
    have hkept := hwalk.kept p
    constructor
    · rintro ⟨⟨hp, hnone⟩, -⟩
      exact ⟨hp, fun x hx hcovered => hnone ⟨x, hx, hcovered⟩⟩
    · rintro ⟨hp, hnone⟩
      exact ⟨⟨hp, fun ⟨x, hx, hcovered⟩ => hnone x hx hcovered⟩, hkept hp⟩

theorem Divided.walkable (h : Divided d d' area bare) (hwalk : d.Walkable redraw) :
    d'.Walkable redraw where
  positive := hwalk.positive
  kept := fun p hp => by rw [Kept, h.desktopSize]; exact hwalk.kept p hp
  missed := by rw [h.elements, h.frame, h.drawableRects]; exact hwalk.missed
  nonempty := by rw [h.elements, h.frame, h.drawableRects]; exact hwalk.nonempty

theorem run_extraDrawsOfRect_spec (rects : List Rect) :
    ∀ {d : Desktop}, (∀ r ∈ rects, d.Walkable r) → d.DrawableApart →
    ∃ d', run extraDrawsOfRect d rects = some d' ∧ Divided d d'
      (fun x p => x ∈ d.compositorState.elements ∧ Covered rects p ∧ Covered (d.drawableRects x) p)
      (fun p => Covered rects p ∧ ∀ x ∈ d.compositorState.elements,
        ¬Covered (d.drawableRects x) p) := by
  induction rects with
  | nil =>
    intro d _ _
    refine ⟨d, rfl, (Divided.refl d).congr ?_ ?_⟩
    · simp [Covered]
    · simp [Covered]
  | cons r rects ih =>
    intro d hwalk hapart
    obtain ⟨d₁, hfirst, hdivided⟩ := extraDrawsOfRect_spec (hwalk r List.mem_cons_self) hapart
    have hapart₁ : d₁.DrawableApart := by
      unfold DrawableApart
      rw [hdivided.elements, hdivided.drawableRects]
      exact hapart
    obtain ⟨d', hrest, hdivided'⟩ := ih
      (fun s hs => hdivided.walkable (hwalk s (List.mem_cons_of_mem _ hs))) hapart₁
    refine ⟨d', run_cons_eq_some.mpr ⟨d₁, hfirst, hrest⟩, (hdivided.trans hdivided').congr ?_ ?_⟩
    · intro x p
      rw [covered_cons, hdivided.elements, hdivided.drawableRects]
      tauto
    · intro p
      rw [covered_cons, hdivided.elements, hdivided.drawableRects]
      tauto

/-- **The walk divides the redraw rectangles exactly (proved).**  It queues, for each element, the
points of the redraw rectangles that lie in its drawable rectangles, and for the background those
that lie in no element's; what was queued before stays. -/
theorem computeExtraDraws_exact (hapart : d.DrawableApart)
    (hwalk : ∀ r ∈ d.compositorState.rectsToFullyRedraw, d.Walkable r) :
    ∃ d', d.computeExtraDrawsFromTotalUpdateRects = some d' ∧
      (∀ e p, Covered (d'.extraDrawsOf e) p ↔ Covered (d.extraDrawsOf e) p ∨
        e ∈ d.compositorState.elements ∧ Covered d.compositorState.rectsToFullyRedraw p ∧
          Covered (d.drawableRects e) p) ∧
      ∀ p, Covered d'.compositorState.extraBackgroundDraws p ↔
        Covered d.compositorState.extraBackgroundDraws p ∨
        Covered d.compositorState.rectsToFullyRedraw p ∧
          ∀ e ∈ d.compositorState.elements, ¬Covered (d.drawableRects e) p := by
  obtain ⟨d', hrun, hdivided⟩ :=
    run_extraDrawsOfRect_spec d.compositorState.rectsToFullyRedraw hwalk hapart
  exact ⟨d', hrun, hdivided.covered, hdivided.background⟩

/-! ### Elements that keep to their frames -/

theorem constrain_positive (hframe : frame.Positive) (hpos : redraw.Positive)
    (hkept : ∀ p ∈ redraw, p.x < desktop.width ∧ p.y < desktop.height)
    (hmeet : frame.intersectsWith redraw = true) :
    ((Rect.withSize desktop).constrain frame).Positive := by
  obtain ⟨hx, hx', hy, hy'⟩ := Rect.intersectsWith_iff.mp hmeet
  have hcorner := hkept ⟨redraw.origin.x + redraw.size.width - 1,
    redraw.origin.y + redraw.size.height - 1⟩ (by
      have := hpos.1
      have := hpos.2
      rw [Rect.mem_iff]
      dsimp only
      omega)
  dsimp only at hcorner
  have hin : ¬(decide (frame.minX ≥ (Rect.withSize desktop).maxX) ||
      decide (frame.minY ≥ (Rect.withSize desktop).maxY)) = true := by
    rw [Bool.or_eq_true, decide_eq_true_eq, decide_eq_true_eq]
    simp only [Rect.minX, Rect.minY, Rect.maxX, Rect.maxY, Rect.withSize, Point.zero]
    omega
  have hw := hframe.1
  have hh := hframe.2
  rw [Rect.constrain, if_neg hin]
  unfold Rect.Positive
  simp only [Rect.minX, Rect.minY, Rect.maxX, Rect.maxY, Rect.width, Rect.height, Rect.withSize,
    gt_iff_lt]
  all_goals split <;> omega

theorem drawableRectsFor_positive {above : List Rect}
    (h : ((Rect.withSize desktop).constrain frame).Positive) :
    ∀ r ∈ drawableRectsFor desktop frame above, r.Positive := by
  induction above with
  | nil =>
    intro r hr
    exact List.mem_singleton.mp hr ▸ h
  | cons occluding above ih =>
    rw [drawableRectsFor_cons]
    split
    · intro r hr
      rcases List.mem_append.mp hr with hr | hr
      · exact ih r (List.mem_filter.mp hr).1
      · obtain ⟨a, ha, hpiece⟩ := List.mem_flatMap.mp hr
        exact Rect.areaExcludingRect_positive (ih a ha) r hpiece
    · exact ih

/-- **The drawable rectangles that the desktop computes can be walked (proved).** -/
theorem walkable_of_computed (hpos : redraw.Positive) (hkept : ∀ p ∈ redraw, d.Kept p)
    (hcomputed : ∀ e ∈ d.compositorState.elements, (d.frame e).Positive ∧
      ∃ above, (∀ r ∈ above, r.Positive) ∧
        d.drawableRects e = drawableRectsFor d.desktopSize (d.frame e) above) :
    d.Walkable redraw where
  positive := hpos
  kept := hkept
  missed := by
    intro e he hmissed p hp hcovered
    obtain ⟨hframe, above, habove, heq⟩ := hcomputed e he
    rw [heq, mem_drawableRectsFor hframe.nonneg habove, Rect.mem_constrain] at hcovered
    exact Rect.disjoint_of_not_intersects hmissed p hcovered.1.1 hp
  nonempty := by
    intro e he hmeet visible hvisible _
    obtain ⟨hframe, above, -, heq⟩ := hcomputed e he
    rw [heq] at hvisible
    exact drawableRectsFor_positive (constrain_positive hframe hpos hkept hmeet) visible hvisible

/-- Two elements on a small desktop, the second wider and behind the first. -/
def twoElements (drawable : ElementId → List Rect) (redraws : List Rect) : Desktop :=
  { Desktop.new ⟨100, 100⟩ ⟨⟨10, 10⟩, ⟨10, 10⟩⟩ with
    frame := fun e => if e = 0 then Rect.new 0 0 10 10 else Rect.new 0 0 20 10
    drawableRects := drawable
    compositorState := { CompositorState.new with
      rectsToFullyRedraw := redraws
      elements := [0, 1]
      elementsById := [0, 1] } }

/-- The drawable rectangles that the desktop computes for them. -/
def twoDrawable (e : ElementId) : List Rect :=
  if e = 0 then drawableRectsFor ⟨100, 100⟩ (Rect.new 0 0 10 10) []
  else drawableRectsFor ⟨100, 100⟩ (Rect.new 0 0 20 10) [Rect.new 0 0 10 10]

/-- Two redraw rectangles that overlap. -/
def twoRedraws : List Rect := [Rect.new 5 5 10 10, Rect.new 8 0 4 8]

/-- Behind the first element, the second has the points that stick out. -/
theorem computeExtraDraws_exact_overlapping :
    ∃ d', (twoElements twoDrawable twoRedraws).computeExtraDrawsFromTotalUpdateRects = some d' ∧
      Covered (d'.extraDrawsOf 1) ⟨11, 7⟩ ∧
      Covered d'.compositorState.extraBackgroundDraws ⟨5, 14⟩ := by
  have hids : ∀ x ∈ (twoElements twoDrawable twoRedraws).compositorState.elements,
      x = 0 ∨ x = 1 := by
    simpa [twoElements] using hx
  have hfirst : ∀ p, Covered (twoDrawable 0) p → ¬Covered (twoDrawable 1) p := by
    have hpositive : ∀ r ∈ [Rect.new 0 0 10 10], r.Positive := by decide
    intro p h h'
    have hnonneg : ∀ r : Rect, r.Positive → r.Nonneg := fun _ => Rect.Positive.nonneg
    rw [twoDrawable, if_pos rfl, mem_drawableRectsFor (hnonneg _ (by decide)) (by simp)] at h
    rw [twoDrawable, if_neg (by decide),
      mem_drawableRectsFor (hnonneg _ (by decide)) hpositive] at h'
    exact h'.2 _ (List.mem_singleton_self _) (Rect.mem_constrain.mp h.1).1
  have hapart : (twoElements twoDrawable twoRedraws).DrawableApart := by
    intro x hx y hy hne p
    rcases hids x hx with rfl | rfl <;> rcases hids y hy with rfl | rfl
    · exact absurd rfl hne
    · exact hfirst p
    · exact fun h h' => hfirst p h' h
    · exact absurd rfl hne
  have hcomputed : ∀ e ∈ (twoElements twoDrawable twoRedraws).compositorState.elements,
      ((twoElements twoDrawable twoRedraws).frame e).Positive ∧ ∃ above, (∀ r ∈ above, r.Positive) ∧
        (twoElements twoDrawable twoRedraws).drawableRects e =
          drawableRectsFor (twoElements twoDrawable twoRedraws).desktopSize
            ((twoElements twoDrawable twoRedraws).frame e) above := by
    intro e he
    rcases hids e he with rfl | rfl
    · exact ⟨by decide, [], by simp, rfl⟩
    · exact ⟨by decide, [Rect.new 0 0 10 10], by decide, rfl⟩
  have hkept : ∀ r ∈ (twoElements twoDrawable twoRedraws).compositorState.rectsToFullyRedraw,
      r.Positive ∧ ∀ p ∈ r, (twoElements twoDrawable twoRedraws).Kept p := by
    intro r hr
    obtain rfl | rfl : r = Rect.new 5 5 10 10 ∨ r = Rect.new 8 0 4 8 := by
      simpa [twoElements, twoRedraws] using hr
    all_goals
      refine ⟨by decide, fun p hp => ?_⟩
      rw [Rect.mem_iff] at hp
      simp only [Rect.new] at hp
      show p.x < 100 ∧ p.y < 100
      omega
  obtain ⟨d', hrun, hdraws, hbackground⟩ := computeExtraDraws_exact hapart fun r hr =>
    walkable_of_computed (hkept r hr).1 (hkept r hr).2 hcomputed
  refine ⟨d', hrun, (hdraws 1 ⟨11, 7⟩).mpr (.inr ?_), (hbackground ⟨5, 14⟩).mpr (.inr ?_)⟩
  · unfold Covered
    decide +kernel
  · unfold Covered
    decide +kernel

/-- An element with a drawable rectangle outside of its frame is passed over, and the background is
drawn there; an empty drawable rectangle in the redraw rectangle makes the walk panic. -/
theorem computeExtraDraws_stray :
    ((twoElements (fun e => if e = 0 then [Rect.new 50 50 10 10] else []) [Rect.new 50 50 10 10]
      ).computeExtraDrawsFromTotalUpdateRects.map fun d' =>
        (d'.extraDrawsOf 0, d'.compositorState.extraBackgroundDraws)) =
      some ([], [Rect.new 50 50 10 10]) ∧
    (twoElements (fun e => if e = 0 then [Rect.new 8 6 0 2] else []) [Rect.new 5 5 10 10]
      ).computeExtraDrawsFromTotalUpdateRects.isNone = true := by
  decide +kernel

end Desktop

/-! ### Merging -/

/-- The two share a whole side, the first on the left. -/
def adjoins (r1 r2 : Rect) : Bool :=
  r1.maxX = r2.minX && r1.minY = r2.minY && r1.maxY = r2.maxY

/-- Merge the pair found: `retain` drops every copy of the two, and `insert` panics where the index
is beyond the end. -/
def mergePair (s : PairSplit Rect) : Option (List Rect) :=
  let rects := s.join.filter fun r => r ≠ s.fst && r ≠ s.snd
  if s.before.length ≤ rects.length then
    some (rects.insertIdx s.before.length (s.fst.union s.snd))
  else none

/-- The loop, for so many rounds. -/
def mergeRounds : ℕ → List Rect → Option (List Rect)
  | 0, _ => none
  | rounds + 1, rects =>
    match firstPair adjoins rects with
    | none => some rects
    | some s => (mergePair s).bind (mergeRounds rounds)

/-- `sort_by` is stable. -/
def sortByX (rects : List Rect) : List Rect :=
  rects.insertionSort fun a b => a.origin.x ≤ b.origin.x

def mergeRects (rects : List Rect) : Option (List Rect) :=
  mergeRounds (rects.length + 1) (sortByX rects)

def CompositorState.mergeExtraDraws (c : CompositorState) : Option ExtraDraws :=
  c.extraDraws.mapM fun draws => (mergeRects draws.2).map fun rects => (draws.1, rects)

theorem adjoins_iff : adjoins r s = true ↔
    r.origin.x + r.size.width = s.origin.x ∧ r.origin.y = s.origin.y ∧
      r.origin.y + r.size.height = s.origin.y + s.size.height := by
  rw [adjoins, Bool.and_eq_true, Bool.and_eq_true, decide_eq_true_eq, decide_eq_true_eq,
    decide_eq_true_eq, and_assoc]
  rfl

/-- The union of two rectangles side by side has their points. -/
theorem union_of_adjoins (hr : r.Positive) (hs : s.Positive) (h : adjoins r s = true) :
    (r.union s).Positive ∧ (r.union s).origin.x = r.origin.x ∧
      ∀ p, p ∈ r.union s ↔ p ∈ r ∨ p ∈ s := by
  rw [adjoins_iff] at h
  unfold Rect.Positive at *
  have hunion : r.union s =
      ⟨r.origin, ⟨r.size.width + s.size.width, r.size.height⟩⟩ := by
    rw [Rect.union]
    simp only [Rect.minX, Rect.minY, Rect.maxX, Rect.maxY]
    ext <;> dsimp only <;> omega
  rw [hunion]
  refine ⟨⟨by dsimp only; omega, hr.2⟩, rfl, fun p => ?_⟩
  simp only [Rect.mem_iff]
  omega

/-- What the loop keeps: the rectangles are non-empty and in order. -/
structure Mergeable (rects : List Rect) : Prop where
  positive : ∀ r ∈ rects, r.Positive
  sorted : rects.Pairwise fun a b => a.origin.x ≤ b.origin.x

theorem insertIdx_append_right {α : Type*} (before after : List α) (a : α) :
    (before ++ after).insertIdx before.length a = before ++ a :: after := by
  induction before with
  | nil => rfl
  | cons b before ih => exact congrArg (b :: ·) ih

/-- The list without the copies of two elements. -/
def without (r1 r2 : Rect) (rects : List Rect) : List Rect :=
  rects.filter fun r => r ≠ r1 && r ≠ r2

theorem mem_without {r1 r2 r : Rect} : r ∈ without r1 r2 rects ↔ r ∈ rects ∧ r ≠ r1 ∧ r ≠ r2 := by
  rw [without, List.mem_filter, Bool.and_eq_true, decide_eq_true_eq, decide_eq_true_eq]

/-- No copy of the two stands before the first, so the union takes its place. -/
theorem mergePair_eq {s : PairSplit Rect} (h : Mergeable s.join)
    (hadjoins : adjoins s.fst s.snd = true)
    (hbefore : ∀ a ∈ s.before, adjoins a s.snd = false) :
    mergePair s = some (s.before ++
      s.fst.union s.snd :: without s.fst s.snd (s.between ++ s.snd :: s.after)) := by
  have hsorted := (List.pairwise_append.mp h.sorted).2.2
  have hwidth := (h.positive s.fst (by simp [PairSplit.join])).1
  have hleft := (adjoins_iff.mp hadjoins).1
  have hkept : without s.fst s.snd s.before = s.before := by
    refine List.filter_eq_self.mpr fun a ha => ?_
    rw [Bool.and_eq_true, decide_eq_true_eq, decide_eq_true_eq]
    constructor
    · rintro rfl
      rw [hbefore _ ha] at hadjoins
      cases hadjoins
    · rintro rfl
      have := hsorted s.snd ha s.fst List.mem_cons_self
      omega
  have hjoin : without s.fst s.snd s.join =
      s.before ++ without s.fst s.snd (s.between ++ s.snd :: s.after) := by
    rw [PairSplit.join, without, List.filter_append]
    refine congrArg₂ (· ++ ·) hkept ?_
    rw [List.filter_cons_of_neg (by simp)]
    rfl
  show (if s.before.length ≤ (without s.fst s.snd s.join).length then
    some ((without s.fst s.snd s.join).insertIdx s.before.length (s.fst.union s.snd)) else none) = _
  rw [hjoin, if_pos (by rw [List.length_append]; omega), insertIdx_append_right]

theorem length_without_lt {r1 r2 : Rect} {before after : List Rect} :
    (without r1 r2 (before ++ r2 :: after)).length < (before ++ r2 :: after).length := by
  have hdrop : without r1 r2 (before ++ r2 :: after) = without r1 r2 (before ++ after) := by
    rw [without, without, List.filter_append, List.filter_append, List.filter_cons_of_neg (by simp)]
  have hle : (without r1 r2 (before ++ after)).length ≤ (before ++ after).length :=
    List.length_filter_le _ _
  rw [hdrop]
  rw [List.length_append] at hle ⊢
  rw [List.length_cons]
  omega

/-- **One merge** shortens the list and keeps its points. -/
theorem mergePair_spec {s : PairSplit Rect} (h : Mergeable rects)
    (hs : firstPair adjoins rects = some s) :
    ∃ out, mergePair s = some out ∧ Mergeable out ∧ out.length < rects.length ∧
      ∀ p, Covered out p ↔ Covered rects p := by
  obtain ⟨rfl, hadjoins⟩ := firstPair_eq_some hs
  have hmem : ∀ r, r ∈ s.join ↔
      r ∈ s.before ∨ r = s.fst ∨ r ∈ s.between ++ s.snd :: s.after := by
    intro r
    rw [PairSplit.join, List.mem_append, List.mem_cons]
  have hsnd : s.snd ∈ s.between ++ s.snd :: s.after := by simp
  have hfst := h.positive s.fst ((hmem _).mpr (.inr (.inl rfl)))
  obtain ⟨hpositive, hx, hunion⟩ := union_of_adjoins hfst
    (h.positive s.snd ((hmem _).mpr (.inr (.inr hsnd)))) hadjoins
  refine ⟨_, mergePair_eq h hadjoins (firstPair_before hs), ⟨?_, ?_⟩, ?_, ?_⟩
  · intro r hr
    rw [List.mem_append, List.mem_cons, mem_without] at hr
    rcases hr with hr | rfl | hr
    · exact h.positive r ((hmem r).mpr (.inl hr))
    · exact hpositive
    · exact h.positive r ((hmem r).mpr (.inr (.inr hr.1)))
  · obtain ⟨hbefore, hrest, hacross⟩ := List.pairwise_append.mp h.sorted
    obtain ⟨hhead, htail⟩ := List.pairwise_cons.mp hrest
    refine List.pairwise_append.mpr ⟨hbefore, List.pairwise_cons.mpr ⟨?_, htail.filter _⟩, ?_⟩
    · intro r hr
      rw [hx]
      exact hhead r (mem_without.mp hr).1
    · intro a ha r hr
      rcases List.mem_cons.mp hr with rfl | hr
      · rw [hx]
        exact hacross a ha _ List.mem_cons_self
      · exact hacross a ha r (List.mem_cons_of_mem _ (mem_without.mp hr).1)
  · have := @length_without_lt s.fst s.snd s.between s.after
    rw [PairSplit.join, List.length_append, List.length_append, List.length_cons, List.length_cons]
    omega
  · intro p
    constructor
    · rintro ⟨r, hr, hp⟩
      rw [List.mem_append, List.mem_cons, mem_without] at hr
      rcases hr with hr | rfl | hr
      · exact ⟨r, (hmem r).mpr (.inl hr), hp⟩
      · rcases (hunion p).mp hp with hp | hp
        · exact ⟨_, (hmem _).mpr (.inr (.inl rfl)), hp⟩
        · exact ⟨_, (hmem _).mpr (.inr (.inr hsnd)), hp⟩
      · exact ⟨r, (hmem r).mpr (.inr (.inr hr.1)), hp⟩
    · rintro ⟨r, hr, hp⟩
      have hout : ∀ t, t ∈ s.before ++
          s.fst.union s.snd :: without s.fst s.snd (s.between ++ s.snd :: s.after) ↔
          t ∈ s.before ∨ t = s.fst.union s.snd ∨
            t ∈ s.between ++ s.snd :: s.after ∧ t ≠ s.fst ∧ t ≠ s.snd := by
        intro t
        rw [List.mem_append, List.mem_cons, mem_without]
      by_cases hone : r = s.fst
      · exact ⟨_, (hout _).mpr (.inr (.inl rfl)), (hunion p).mpr (.inl (hone ▸ hp))⟩
      · by_cases htwo : r = s.snd
        · exact ⟨_, (hout _).mpr (.inr (.inl rfl)), (hunion p).mpr (.inr (htwo ▸ hp))⟩
        · refine ⟨r, (hout r).mpr ?_, hp⟩
          have := (hmem r).mp hr
          tauto

/-- **The loop ends**, and no two rectangles of its result adjoin. -/
theorem mergeRounds_spec (rounds : ℕ) : ∀ rects : List Rect, Mergeable rects →
    rects.length < rounds → ∃ out, mergeRounds rounds rects = some out ∧
      firstPair adjoins out = none ∧ (∀ r ∈ out, r.Positive) ∧
      ∀ p, Covered out p ↔ Covered rects p := by
  induction rounds with
  | zero => exact fun _ _ hlt => absurd hlt (Nat.not_lt_zero _)
  | succ rounds ih =>
    intro rects h hlt
    rw [mergeRounds]
    cases hs : firstPair adjoins rects with
    | none => exact ⟨rects, rfl, hs, h.positive, fun _ => Iff.rfl⟩
    | some s =>
      obtain ⟨merged, hmerged, hmergeable, hshorter, hcovered⟩ := mergePair_spec h hs
      obtain ⟨out, hout, hdone, hpositive, hcovered'⟩ := ih merged hmergeable (by omega)
      refine ⟨out, ?_, hdone, hpositive, fun p => (hcovered' p).trans (hcovered p)⟩
      dsimp only
      rw [hmerged]
      exact hout

theorem sortByX_mergeable (h : ∀ r ∈ rects, r.Positive) : Mergeable (sortByX rects) where
  positive := fun r hr => h r ((List.mem_insertionSort _).mp hr)
  sorted := by
    exact List.pairwise_insertionSort _ rects

theorem mergeRects_spec (h : ∀ r ∈ rects, r.Positive) :
    ∃ out, mergeRects rects = some out ∧ firstPair adjoins out = none ∧
      (∀ r ∈ out, r.Positive) ∧ ∀ p, Covered out p ↔ Covered rects p := by
  obtain ⟨out, hout, hdone, hpositive, hcovered⟩ := mergeRounds_spec (rects.length + 1) _
    (sortByX_mergeable h) (by rw [sortByX, List.length_insertionSort]; exact Nat.lt_succ_self _)
  refine ⟨out, hout, hdone, hpositive, fun p => (hcovered p).trans ?_⟩
  unfold Covered
  simp only [sortByX, List.mem_insertionSort]

theorem mapM_mergeRects_spec (m : ExtraDraws) (h : ∀ e, ∀ r ∈ m.rectsOf e, r.Positive) :
    ∃ out : ExtraDraws,
      m.mapM (fun draws => (mergeRects draws.2).map fun rects => (draws.1, rects)) = some out ∧
      out.map Prod.fst = m.map Prod.fst ∧
      (∀ draws ∈ out, draws.2.Pairwise fun a b => adjoins a b = false) ∧
      ∀ e p, Covered (out.rectsOf e) p ↔ Covered (m.rectsOf e) p := by
  induction m with
  | nil => exact ⟨[], rfl, rfl, by simp, fun _ _ => Iff.rfl⟩
  | cons draws m ih =>
    obtain ⟨out, hout, hkeys, happart, hcovered⟩ := ih fun e r hr =>
      h e r (mem_rectsOf_cons.mpr (.inr hr))
    obtain ⟨rects, hrects, hdone, -, hpoints⟩ := mergeRects_spec fun r hr =>
      h draws.1 r (mem_rectsOf_cons.mpr (.inl ⟨rfl, hr⟩))
    have hcons : ∀ (id : ElementId) (l : List Rect) (n : ExtraDraws) (e : ElementId) (p : Point),
        Covered (ExtraDraws.rectsOf ((id, l) :: n) e) p ↔
          id = e ∧ Covered l p ∨ Covered (n.rectsOf e) p := by
      intro id l n e p
      unfold Covered
      simp only [mem_rectsOf_cons, or_and_right, exists_or, and_assoc, exists_and_left]
    refine ⟨(draws.1, rects) :: out, ?_, congrArg (draws.1 :: ·) hkeys, ?_, fun e p => ?_⟩
    · rw [List.mapM_cons, hrects, hout]
      rfl
    · intro x hx
      rcases List.mem_cons.mp hx with rfl | hx
      · exact firstPair_eq_none hdone
      · exact happart x hx
    · rw [hcons, hcons, hpoints, hcovered]

/-- **Merging loses nothing (proved).**  For non-empty rectangles the loop ends for every element
and no insertion is out of bounds; each element keeps its points, and no two rectangles side by side
are left. -/
theorem mergeExtraDraws_covers {c : CompositorState}
    (h : ∀ e, ∀ r ∈ c.extraDraws.rectsOf e, r.Positive) :
    ∃ out, c.mergeExtraDraws = some out ∧ out.map Prod.fst = c.extraDraws.map Prod.fst ∧
      (∀ draws ∈ out, draws.2.Pairwise fun a b => adjoins a b = false) ∧
      ∀ e p, Covered (out.rectsOf e) p ↔ Covered (c.extraDraws.rectsOf e) p :=
  mapM_mergeRects_spec c.extraDraws h

/-- Three rectangles in a row. -/
def threeInARow : CompositorState :=
  { CompositorState.new with
    extraDraws := [(7, [Rect.new 710 801 125 53, Rect.new 835 801 250 53,
      Rect.new 1085 801 115 53])] }

theorem mergeExtraDraws_covers_threeInARow :
    ∃ out, threeInARow.mergeExtraDraws = some out ∧ out.map Prod.fst = [7] ∧
      Covered (out.rectsOf 7) ⟨1199, 853⟩ := by
  have hall : ∀ draws ∈ threeInARow.extraDraws, ∀ r ∈ draws.2, r.Positive := by decide
  have hpositive : ∀ e, ∀ r ∈ threeInARow.extraDraws.rectsOf e, r.Positive := by
    intro e r hr
    obtain ⟨draws, hdraws, -, hr⟩ := mem_rectsOf.mp hr
    exact hall draws hdraws r hr
  obtain ⟨out, hout, hkeys, -, hcovered⟩ := mergeExtraDraws_covers hpositive
  unfold Covered
  decide

end Axle.Awm
