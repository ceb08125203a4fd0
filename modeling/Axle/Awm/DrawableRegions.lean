import Axle.Agx.Rect
import Mathlib.Data.List.Nodup

/-!
# Drawable regions

What of each element of the desktop can be seen.  An element's drawable rectangles are its frame,
trimmed to the desktop by `constrain`, with the frames of the elements above it cut out one after
the other, the nearest first.

`awm2` does not recompute them for every element on every change: a change is followed by
`recompute_drawable_regions_in_rect` for some rectangle, and only the elements whose frames meet
that rectangle are done again.  The rectangles that are still to be done are kept track of here:
`FreshOutside rs` says that every element whose frame meets none of `rs` has the drawable
rectangles a full computation would give it.

* `mem_drawableRectsFor` — **PROVED**: the points of the drawable rectangles;
* `FreshOutside.change` — **PROVED**: a change of one element's frame or place adds only the
  rectangles of its old and its new frame to the list;
* `FreshOutside.recompute` — **PROVED**: a recomputation takes its rectangle off the list;
* `visibilityExact_iff` — **PROVED**: in a scene with nothing left to recompute, the drawable
  rectangles are disjoint, on the desktop, and exactly what is visible, if and only if no element
  has an uncovered part beyond the left or the top edge.
-/

namespace Axle.Awm

open Axle.Agx

/-! ### The rectangles of one element -/

/-- Cut one occluding frame out of a list of rectangles. -/
def occludeBy (occluding : Rect) (rects : List Rect) : List Rect :=
  rects.filter (fun r => !r.intersectsWith occluding) ++
    rects.flatMap (fun r => r.areaExcludingRect occluding)

/-- The drawable rectangles of an element with frame `frame` below elements with the frames
`above`, foremost first: the frames are cut out from the nearest to the foremost. -/
def drawableRectsFor (desktop : Size) (frame : Rect) (above : List Rect) : List Rect :=
  above.foldr
    (fun occluding rects =>
      if frame.intersectsWith occluding then occludeBy occluding rects else rects)
    [(Rect.withSize desktop).constrain frame]

/-- Some rectangle of the list has the point. -/
def Covered (rects : List Rect) (p : Point) : Prop := ∃ r ∈ rects, p ∈ r

variable {p : Point} {rs : List Rect}

theorem covered_cons {r : Rect} :
    Covered (r :: rs) p ↔ p ∈ r ∨ Covered rs p := List.exists_mem_cons_iff _ _ _

theorem covered_append {rs ts : List Rect} :
    Covered (rs ++ ts) p ↔ Covered rs p ∨ Covered ts p := by
  simp only [Covered, List.mem_append, or_and_right, exists_or]

section Occlude

variable {occluding : Rect} {rects : List Rect}

theorem covered_occludeBy (hrects : ∀ r ∈ rects, r.Nonneg) (hocc : occluding.Positive)
    (p : Point) : Covered (occludeBy occluding rects) p ↔ Covered rects p ∧ p ∉ occluding := by
  constructor
  · rintro ⟨r, hr, hp⟩
    rcases List.mem_append.mp hr with hr | hr
    · obtain ⟨hmem, hapart⟩ := List.mem_filter.mp hr
      exact ⟨⟨r, hmem, hp⟩, Rect.disjoint_of_not_intersects (by simpa using hapart) p hp⟩
    · obtain ⟨a, ha, hpiece⟩ := List.mem_flatMap.mp hr
      cases hmeet : a.intersectsWith occluding with
      | false =>
        rw [Rect.areaExcludingRect_of_not_intersects hmeet] at hpiece
        exact absurd hpiece List.not_mem_nil
      | true =>
        have hin := (Rect.mem_areaExcludingRect (hrects a ha) hocc hmeet p).mp ⟨r, hpiece, hp⟩
        exact ⟨⟨a, ha, hin.1⟩, hin.2⟩
  · rintro ⟨⟨a, ha, hp⟩, hout⟩
    rw [occludeBy, covered_append]
    cases hmeet : a.intersectsWith occluding with
    | false => exact Or.inl ⟨a, List.mem_filter.mpr ⟨ha, by simp [hmeet]⟩, hp⟩
    | true =>
      obtain ⟨r, hr, hpr⟩ :=
        (Rect.mem_areaExcludingRect (hrects a ha) hocc hmeet p).mpr ⟨hp, hout⟩
      exact Or.inr ⟨r, List.mem_flatMap.mpr ⟨a, ha, hr⟩, hpr⟩

theorem occludeBy_nonneg (hrects : ∀ r ∈ rects, r.Nonneg) (hocc : occluding.Positive) :
    ∀ r ∈ occludeBy occluding rects, r.Nonneg := by
  intro r hr
  rcases List.mem_append.mp hr with hr | hr
  · exact hrects r (List.mem_filter.mp hr).1
  · obtain ⟨a, ha, hpiece⟩ := List.mem_flatMap.mp hr
    exact Rect.areaExcludingRect_nonneg (hrects a ha) hocc r hpiece

theorem mem_of_mem_piece {a r : Rect} (ha : a.Nonneg) (hocc : occluding.Positive)
    (hr : r ∈ a.areaExcludingRect occluding) {p : Point} (hp : p ∈ r) :
    p ∈ a ∧ a.intersectsWith occluding = true := by
  cases hmeet : a.intersectsWith occluding with
  | false =>
    rw [Rect.areaExcludingRect_of_not_intersects hmeet] at hr
    exact absurd hr List.not_mem_nil
  | true => exact ⟨((Rect.mem_areaExcludingRect ha hocc hmeet p).mp ⟨r, hr, hp⟩).1, rfl⟩

theorem pieces_pairwise (hocc : occluding.Positive) (hrects : ∀ r ∈ rects, r.Nonneg)
    (hpair : rects.Pairwise Rect.Disjoint) :
    (rects.flatMap (fun r => r.areaExcludingRect occluding)).Pairwise Rect.Disjoint := by
  induction rects with
  | nil => exact List.Pairwise.nil
  | cons a rects ih =>
    obtain ⟨hhead, htail⟩ := List.pairwise_cons.mp hpair
    have hrest := ih (fun r hr => hrects r (List.mem_cons_of_mem _ hr)) htail
    refine List.pairwise_append.mpr
      ⟨Rect.areaExcludingRect_pairwise (hrects a List.mem_cons_self) hocc, hrest, ?_⟩
    intro r hr s hs p hpr hps
    obtain ⟨b, hb, hsb⟩ := List.mem_flatMap.mp hs
    have hpa := mem_of_mem_piece (hrects a List.mem_cons_self) hocc hr hpr
    have hpb := mem_of_mem_piece (hrects b (List.mem_cons_of_mem _ hb)) hocc hsb hps
    exact hhead b hb p hpa.1 hpb.1

theorem occludeBy_pairwise (hocc : occluding.Positive) (hrects : ∀ r ∈ rects, r.Nonneg)
    (hpair : rects.Pairwise Rect.Disjoint) :
    (occludeBy occluding rects).Pairwise Rect.Disjoint := by
  refine List.pairwise_append.mpr ⟨hpair.filter _, pieces_pairwise hocc hrects hpair, ?_⟩
  intro r hr s hs p hpr hps
  -- `r` was kept because it does not meet the occluding frame, `s` is a piece of one that does
  obtain ⟨hmem, hapart⟩ := List.mem_filter.mp hr
  obtain ⟨b, hb, hsb⟩ := List.mem_flatMap.mp hs
  have hpb := mem_of_mem_piece (hrects b hb) hocc hsb hps
  have hne : r ≠ b := by
    rintro rfl
    rw [hpb.2] at hapart
    exact absurd hapart (by decide)
  exact hpair.forall hmem hb hne p hpr hpb.1

end Occlude

section Frame

variable {desktop : Size} {frame : Rect} {above : List Rect}

theorem drawableRectsFor_cons (occluding : Rect) :
    drawableRectsFor desktop frame (occluding :: above) =
      if frame.intersectsWith occluding then
        occludeBy occluding (drawableRectsFor desktop frame above)
      else drawableRectsFor desktop frame above := rfl

theorem drawableRectsFor_nonneg (hframe : frame.Nonneg) (habove : ∀ r ∈ above, r.Positive) :
    ∀ r ∈ drawableRectsFor desktop frame above, r.Nonneg := by
  induction above with
  | nil =>
    intro r hr
    rw [List.mem_singleton.mp hr]
    exact Rect.constrain_nonneg desktop hframe
  | cons occluding above ih =>
    have hrest := ih (fun r hr => habove r (List.mem_cons_of_mem _ hr))
    rw [drawableRectsFor_cons]
    split
    · exact occludeBy_nonneg hrest (habove occluding List.mem_cons_self)
    · exact hrest

/-- **The points of the drawable rectangles (proved).** -/
theorem mem_drawableRectsFor (hframe : frame.Nonneg) (habove : ∀ r ∈ above, r.Positive)
    (p : Point) :
    Covered (drawableRectsFor desktop frame above) p ↔
      p ∈ (Rect.withSize desktop).constrain frame ∧ ∀ r ∈ above, p ∉ r := by
  induction above with
  | nil => simp [drawableRectsFor, Covered]
  | cons occluding above ih =>
    have habove' : ∀ r ∈ above, r.Positive := fun r hr => habove r (List.mem_cons_of_mem _ hr)
    have hrest := ih habove'
    rw [List.forall_mem_cons, drawableRectsFor_cons]
    split
    · rw [covered_occludeBy (drawableRectsFor_nonneg hframe habove')
        (habove occluding List.mem_cons_self), hrest]
      tauto
    · rename_i hapart
      have hout : p ∈ frame → p ∉ occluding :=
        Rect.disjoint_of_not_intersects (by simpa using hapart) p
      rw [hrest, Rect.mem_constrain]
      tauto

theorem drawableRectsFor_pairwise (hframe : frame.Nonneg) (habove : ∀ r ∈ above, r.Positive) :
    (drawableRectsFor desktop frame above).Pairwise Rect.Disjoint := by
  induction above with
  | nil => exact List.pairwise_singleton _ _
  | cons occluding above ih =>
    have habove' : ∀ r ∈ above, r.Positive := fun r hr => habove r (List.mem_cons_of_mem _ hr)
    rw [drawableRectsFor_cons]
    split
    · exact occludeBy_pairwise (habove occluding List.mem_cons_self)
        (drawableRectsFor_nonneg hframe habove') (ih habove')
    · exact ih habove'

/-- Only the frames that meet the element's own frame matter. -/
theorem drawableRectsFor_filter :
    drawableRectsFor desktop frame above =
      drawableRectsFor desktop frame (above.filter (fun r => frame.intersectsWith r)) := by
  induction above with
  | nil => rfl
  | cons occluding above ih =>
    cases hmeet : frame.intersectsWith occluding with
    | false =>
      rw [List.filter_cons_of_neg (by simp [hmeet]), ← ih, drawableRectsFor_cons,
        if_neg (by simp [hmeet])]
    | true =>
      rw [List.filter_cons_of_pos (by simp [hmeet]), drawableRectsFor_cons, drawableRectsFor_cons,
        if_pos hmeet, if_pos hmeet, ← ih]

end Frame

/-! ### Scenes -/

/-- What visibility depends on, and what is recorded about it. -/
structure Scene (α : Type*) where
  desktop : Size
  /-- Foremost first. -/
  zOrder : List α
  frame : α → Rect
  drawableRects : α → List Rect

namespace Scene

variable {α : Type*} [DecidableEq α]

/-- The elements above `x`. -/
def above (s : Scene α) (x : α) : List α := s.zOrder.takeWhile (· ≠ x)

/-- The drawable rectangles a full computation gives `x`. -/
def computed (s : Scene α) (x : α) : List Rect :=
  drawableRectsFor s.desktop (s.frame x) ((s.above x).map s.frame)

/-- The recorded drawable rectangles of `x` are up to date. -/
def Fresh (s : Scene α) (x : α) : Prop := s.drawableRects x = s.computed x

/-- Some rectangle of the list meets `q`. -/
def Meets (rs : List Rect) (q : Rect) : Prop := ∃ r ∈ rs, r.intersectsWith q = true

/-- Every element whose frame meets none of `rs` is up to date. -/
def FreshOutside (s : Scene α) (rs : List Rect) : Prop :=
  ∀ x ∈ s.zOrder, (s.frame x).Positive → ¬ Meets rs (s.frame x) → s.Fresh x

/-- What a recomputation in `rect` leaves. -/
def recompute (s : Scene α) (rect : Rect) : Scene α :=
  { s with
    drawableRects := fun x =>
      if x ∈ s.zOrder ∧ rect.intersectsWith (s.frame x) = true then s.computed x
      else s.drawableRects x }

variable {q : Rect} {rs rs' : List Rect} {s t : Scene α} {w x : α}

theorem meets_append {rs ts : List Rect} : Meets (rs ++ ts) q ↔ Meets rs q ∨ Meets ts q := by
  simp only [Meets, List.mem_append, or_and_right, exists_or]

@[simp] theorem not_meets_nil (q : Rect) : ¬ Meets [] q := by simp [Meets]

theorem meets_cons {r : Rect} : Meets (r :: rs) q ↔ r.intersectsWith q = true ∨ Meets rs q := by
  simp [Meets]

/-- **A recomputation takes its rectangle off the list (proved).** -/
theorem FreshOutside.recompute {rect : Rect} (h : s.FreshOutside rs)
    (hcover : ∀ q, Meets rs q → rect.intersectsWith q = true ∨ Meets rs' q) :
    (s.recompute rect).FreshOutside rs' := by
  intro x hx hpos hout
  show (if x ∈ s.zOrder ∧ rect.intersectsWith (s.frame x) = true then s.computed x
    else s.drawableRects x) = s.computed x
  by_cases hmeet : rect.intersectsWith (s.frame x) = true
  · rw [if_pos ⟨hx, hmeet⟩]
  · rw [if_neg (fun hboth => hmeet hboth.2)]
    exact h x hx hpos (fun hin => (hcover _ hin).elim hmeet hout)

theorem takeWhile_filter_ne (hne : x ≠ w) (l : List α) :
    (l.filter (· ≠ w)).takeWhile (· ≠ x) = (l.takeWhile (· ≠ x)).filter (· ≠ w) := by
  induction l with
  | nil => rfl
  | cons a l ih =>
    by_cases haw : a = w
    · subst haw
      have hax : a ≠ x := fun h => hne h.symm
      rw [List.filter_cons_of_neg (by simp), ih, List.takeWhile_cons_of_pos (by simpa using hax),
        List.filter_cons_of_neg (by simp)]
    · rw [List.filter_cons_of_pos (by simpa using haw)]
      by_cases hax : a = x
      · rw [List.takeWhile_cons_of_neg (by simpa using hax),
          List.takeWhile_cons_of_neg (by simpa using hax)]
        rfl
      · rw [List.takeWhile_cons_of_pos (by simpa using hax),
          List.takeWhile_cons_of_pos (by simpa using hax),
          List.filter_cons_of_pos (by simpa using haw), ih]

/-- The frames above `x` that meet its own, without the frame of an element that does not. -/
theorem filter_map_above (frame : α → Rect) (q : Rect) (w : α) (l : List α)
    (hw : w ∈ l → q.intersectsWith (frame w) = false) :
    (l.map frame).filter (fun r => q.intersectsWith r) =
      ((l.filter (· ≠ w)).map frame).filter (fun r => q.intersectsWith r) := by
  induction l with
  | nil => rfl
  | cons a l ih =>
    have ih' := ih (fun hin => hw (List.mem_cons_of_mem _ hin))
    by_cases haw : a = w
    · subst haw
      rw [List.map_cons, List.filter_cons_of_neg (by simp [hw List.mem_cons_self]), ih',
        List.filter_cons_of_neg (by simp)]
    · rw [List.filter_cons_of_pos (by simpa using haw), List.map_cons, List.map_cons,
        List.filter_cons, List.filter_cons, ih']

/-- Two scenes that differ only in the element `w`: its frame, its place and its rectangles. -/
structure DiffersAt (s t : Scene α) (w : α) : Prop where
  desktop : t.desktop = s.desktop
  zOrder : t.zOrder.filter (· ≠ w) = s.zOrder.filter (· ≠ w)
  frame : ∀ x, x ≠ w → t.frame x = s.frame x
  drawableRects : ∀ x, x ≠ w → t.drawableRects x = s.drawableRects x

theorem DiffersAt.trans {s t u : Scene α} (h : DiffersAt s t w) (h' : DiffersAt t u w) :
    DiffersAt s u w where
  desktop := h'.desktop.trans h.desktop
  zOrder := h'.zOrder.trans h.zOrder
  frame := fun x hne => (h'.frame x hne).trans (h.frame x hne)
  drawableRects := fun x hne => (h'.drawableRects x hne).trans (h.drawableRects x hne)

theorem DiffersAt.computed (h : DiffersAt s t w) (hne : x ≠ w)
    (hs : w ∈ s.zOrder → (s.frame w).intersectsWith (s.frame x) = false)
    (ht : w ∈ t.zOrder → (t.frame w).intersectsWith (s.frame x) = false) :
    t.computed x = s.computed x := by
  have hleft : w ∈ s.above x → (s.frame x).intersectsWith (s.frame w) = false := by
    intro hin
    rw [Rect.intersectsWith_comm]
    exact hs (List.takeWhile_subset _ hin)
  have hright : w ∈ t.above x → (s.frame x).intersectsWith (t.frame w) = false := by
    intro hin
    rw [Rect.intersectsWith_comm]
    exact ht (List.takeWhile_subset _ hin)
  have habove : (t.above x).filter (· ≠ w) = (s.above x).filter (· ≠ w) := by
    unfold above
    rw [← takeWhile_filter_ne hne, ← takeWhile_filter_ne hne, h.zOrder]
  have hmap : ((s.above x).filter (· ≠ w)).map t.frame = ((s.above x).filter (· ≠ w)).map s.frame := by
    apply List.map_congr_left
    intro y hy
    exact h.frame y (by simpa using (List.mem_filter.mp hy).2)
  unfold Scene.computed
  rw [h.desktop, h.frame x hne, drawableRectsFor_filter, filter_map_above t.frame _ w _ hright,
    habove, hmap, ← filter_map_above s.frame _ w _ hleft, ← drawableRectsFor_filter]

/-- **A change of one element (proved).**  Everything that meets neither its old nor its new
frame stays up to date. -/
theorem FreshOutside.change (h : s.FreshOutside rs) (hdiff : DiffersAt s t w)
    (hold : ∀ q, Meets rs q → Meets rs' q)
    (hs : w ∈ s.zOrder → ∀ q, (s.frame w).intersectsWith q = true → Meets rs' q)
    (ht : w ∈ t.zOrder → ∀ q, (t.frame w).intersectsWith q = true → Meets rs' q) :
    t.FreshOutside rs' := by
  intro x hx hpos hout
  by_cases hne : x = w
  · subst hne
    exact absurd (ht hx _ hpos.intersectsWith_self) hout
  · have hxs : x ∈ s.zOrder := by
      have hmem : x ∈ t.zOrder.filter (· ≠ w) := List.mem_filter.mpr ⟨hx, by simpa using hne⟩
      rw [hdiff.zOrder] at hmem
      exact (List.mem_filter.mp hmem).1
    rw [hdiff.frame x hne] at hpos hout
    have hfresh := h x hxs hpos (fun hin => hout (hold _ hin))
    show t.drawableRects x = t.computed x
    rw [hdiff.drawableRects x hne, hdiff.computed hne]
    · exact hfresh
    · intro hw
      by_contra hmeet
      exact hout (hs hw _ (by simpa using hmeet))
    · intro hw
      by_contra hmeet
      exact hout (ht hw _ (by simpa using hmeet))

/-! ### What the rectangles show -/

/-- The drawable rectangles of all elements are pairwise disjoint, lie inside the desktop, and
have for each element exactly the points of its frame on the desktop that no frame above it has. -/
structure VisibilityExact (s : Scene α) : Prop where
  pairwise : ∀ x ∈ s.zOrder, (s.drawableRects x).Pairwise Rect.Disjoint
  apart : ∀ x ∈ s.zOrder, ∀ y ∈ s.zOrder, x ≠ y →
    ∀ r ∈ s.drawableRects x, ∀ t ∈ s.drawableRects y, r.Disjoint t
  inside : ∀ x ∈ s.zOrder, ∀ r ∈ s.drawableRects x, ∀ p ∈ r, p ∈ Rect.withSize s.desktop
  exact : ∀ x ∈ s.zOrder, ∀ p, Covered (s.drawableRects x) p ↔
    p ∈ s.frame x ∧ p ∈ Rect.withSize s.desktop ∧ ∀ y ∈ s.above x, p ∉ s.frame y

/-- Whatever an element has beyond the left or the top edge of the desktop is under another
element (or beyond the right or the bottom edge too). -/
def EdgeCovered (s : Scene α) : Prop :=
  ∀ x ∈ s.zOrder, ∀ p ∈ s.frame x, p.x < s.desktop.width → p.y < s.desktop.height →
    p.x < 0 ∨ p.y < 0 → ∃ y ∈ s.above x, p ∈ s.frame y

/-- Frames that start on the desktop have nothing beyond those edges. -/
theorem edgeCovered_of_origin_nonneg
    (h : ∀ x ∈ s.zOrder, 0 ≤ (s.frame x).origin.x ∧ 0 ≤ (s.frame x).origin.y) : s.EdgeCovered := by
  intro x hx p hp _ _ hedge
  have horigin := h x hx
  rw [Rect.mem_iff] at hp
  omega

theorem covered_of_fresh (hfresh : s.Fresh x) (hx : (s.frame x).Positive)
    (habove : ∀ y ∈ s.above x, (s.frame y).Positive) (p : Point) :
    Covered (s.drawableRects x) p ↔
      (p ∈ s.frame x ∧ p.x < s.desktop.width ∧ p.y < s.desktop.height) ∧
        ∀ y ∈ s.above x, p ∉ s.frame y := by
  have hrects : ∀ r ∈ (s.above x).map s.frame, r.Positive := by
    intro r hr
    obtain ⟨y, hy, rfl⟩ := List.mem_map.mp hr
    exact habove y hy
  rw [hfresh, Scene.computed, mem_drawableRectsFor hx.nonneg hrects, Rect.mem_constrain,
    List.forall_mem_map]

/-- Of two elements one is above the other. -/
theorem mem_takeWhile_ne_or {l : List α} {x y : α} (hx : x ∈ l) (hy : y ∈ l) (hne : x ≠ y) :
    x ∈ l.takeWhile (· ≠ y) ∨ y ∈ l.takeWhile (· ≠ x) := by
  induction l with
  | nil => exact absurd hx List.not_mem_nil
  | cons a l ih =>
    by_cases hax : a = x
    · left
      subst hax
      rw [List.takeWhile_cons_of_pos (by simpa using hne)]
      exact List.mem_cons_self
    · by_cases hay : a = y
      · right
        subst hay
        rw [List.takeWhile_cons_of_pos (by simpa using hax)]
        exact List.mem_cons_self
      · rw [List.takeWhile_cons_of_pos (by simpa using hay),
          List.takeWhile_cons_of_pos (by simpa using hax)]
        have hx' := (List.mem_cons.mp hx).resolve_left (fun h => hax h.symm)
        have hy' := (List.mem_cons.mp hy).resolve_left (fun h => hay h.symm)
        exact (ih hx' hy').imp (List.mem_cons_of_mem _) (List.mem_cons_of_mem _)

/-- **What a scene with nothing left to recompute shows (proved).** -/
theorem visibilityExact_iff (hpos : ∀ x ∈ s.zOrder, (s.frame x).Positive)
    (hfresh : s.FreshOutside []) : s.VisibilityExact ↔ s.EdgeCovered := by
  have hcov : ∀ x ∈ s.zOrder, ∀ p, Covered (s.drawableRects x) p ↔
      (p ∈ s.frame x ∧ p.x < s.desktop.width ∧ p.y < s.desktop.height) ∧
        ∀ y ∈ s.above x, p ∉ s.frame y := by
    intro x hx
    exact covered_of_fresh (hfresh x hx (hpos x hx) (not_meets_nil _)) (hpos x hx)
      (fun y hy => hpos y (List.takeWhile_subset _ hy))
  constructor
  · intro h x hx p hp hright hbottom hedge
    by_contra hnone
    have hall : ∀ y ∈ s.above x, p ∉ s.frame y := fun y hy hin => hnone ⟨y, hy, hin⟩
    have hdesk := ((h.exact x hx p).mp ((hcov x hx p).mpr ⟨⟨hp, hright, hbottom⟩, hall⟩)).2.1
    rw [Rect.mem_withSize] at hdesk
    omega
  · intro hedge
    have hdesk : ∀ x ∈ s.zOrder, ∀ p, Covered (s.drawableRects x) p →
        p ∈ Rect.withSize s.desktop := by
      intro x hx p hp
      obtain ⟨⟨hin, hright, hbottom⟩, hall⟩ := (hcov x hx p).mp hp
      rw [Rect.mem_withSize]
      by_contra hout
      obtain ⟨y, hy, hpy⟩ := hedge x hx p hin hright hbottom (by omega)
      exact hall y hy hpy
    refine ⟨?_, ?_, ?_, ?_⟩
    · intro x hx
      have hx' := hfresh x hx (hpos x hx) (not_meets_nil _)
      rw [hx', Scene.computed]
      apply drawableRectsFor_pairwise (hpos x hx).nonneg
      intro r hr
      obtain ⟨y, hy, rfl⟩ := List.mem_map.mp hr
      exact hpos y (List.takeWhile_subset _ hy)
    · intro x hx y hy hne r hr t ht p hpr hpt
      have hpx := (hcov x hx p).mp ⟨r, hr, hpr⟩
      have hpy := (hcov y hy p).mp ⟨t, ht, hpt⟩
      rcases mem_takeWhile_ne_or hx hy hne with hin | hin
      · exact hpy.2 x hin hpx.1.1
      · exact hpx.2 y hin hpy.1.1
    · intro x hx r hr p hp
      exact hdesk x hx p ⟨r, hr, hp⟩
    · intro x hx p
      constructor
      · intro hp
        have hin := (hcov x hx p).mp hp
        exact ⟨hin.1.1, hdesk x hx p hp, hin.2⟩
      · rintro ⟨hin, hp, hall⟩
        rw [Rect.mem_withSize] at hp
        exact (hcov x hx p).mpr ⟨⟨hin, hp.2.1, hp.2.2.2⟩, hall⟩

end Scene

end Axle.Awm
