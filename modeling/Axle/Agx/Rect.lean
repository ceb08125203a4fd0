import Mathlib.Data.List.Basic
import Mathlib.Tactic

/-!
# Rectangles

The rectangles of `agx_definitions`: an origin and a size, half open on the right and at the
bottom.  Coordinates are `isize` in the source and integers here.

* `Rect.constrain` — trims a rectangle at the right and the bottom edge of another one.  It does
  not trim at the left and the top edge: that part of the source is commented out;
* `Rect.areaExcludingRect` / `mem_areaExcludingRect` — **PROVED**: for a non-empty rectangle to
  exclude, the pieces have exactly the points of the area outside it;
* `areaExcludingRect_pairwise` — **PROVED**: no point is in two pieces;
* `areaExcludingRect_exact` — **PROVED**: for a non-empty area, the pieces are not empty either;
* `Rect.areaOverlappingWith` / `areaOverlappingWith_spec` — **PROVED**: two non-empty rectangles
  that meet overlap, in exactly the points they share.

The test `intersects_with` compares edges only, so it also holds of an empty rectangle inside
another one; `Positive` is the condition under which it says that the two share a point.
-/

namespace Axle.Agx

@[ext] structure Point where
  x : ℤ
  y : ℤ
  deriving DecidableEq, Repr

@[ext] structure Size where
  width : ℤ
  height : ℤ
  deriving DecidableEq, Repr

@[ext] structure Rect where
  origin : Point
  size : Size
  deriving DecidableEq, Repr

def Point.zero : Point := ⟨0, 0⟩

instance : Add Point := ⟨fun p q => ⟨p.x + q.x, p.y + q.y⟩⟩

instance : Sub Point := ⟨fun p q => ⟨p.x - q.x, p.y - q.y⟩⟩

instance : Add Size := ⟨fun s t => ⟨s.width + t.width, s.height + t.height⟩⟩

instance : Sub Size := ⟨fun s t => ⟨s.width - t.width, s.height - t.height⟩⟩

@[simp] theorem Point.add_x (p q : Point) : (p + q).x = p.x + q.x := rfl

@[simp] theorem Point.add_y (p q : Point) : (p + q).y = p.y + q.y := rfl

@[simp] theorem Point.sub_x (p q : Point) : (p - q).x = p.x - q.x := rfl

@[simp] theorem Point.sub_y (p q : Point) : (p - q).y = p.y - q.y := rfl

namespace Rect

/-! ### The operations -/

def new (x y width height : ℤ) : Rect := ⟨⟨x, y⟩, ⟨width, height⟩⟩

def withSize (size : Size) : Rect := ⟨Point.zero, size⟩

def withOrigin (origin : Point) : Rect := ⟨origin, ⟨0, 0⟩⟩

def zero : Rect := new 0 0 0 0

def replaceOrigin (r : Rect) (origin : Point) : Rect := ⟨origin, r.size⟩

def replaceSize (r : Rect) (size : Size) : Rect := ⟨r.origin, size⟩

def addOrigin (r : Rect) (addend : Point) : Rect := ⟨r.origin + addend, r.size⟩

def minX (r : Rect) : ℤ := r.origin.x

def minY (r : Rect) : ℤ := r.origin.y

def width (r : Rect) : ℤ := r.size.width

def height (r : Rect) : ℤ := r.size.height

def maxX (r : Rect) : ℤ := r.minX + r.size.width

def maxY (r : Rect) : ℤ := r.minY + r.size.height

/-- The source halves the width as an `f64` and casts back, which rounds towards zero. -/
def midX (r : Rect) : ℤ := r.minX + r.size.width.tdiv 2

def midY (r : Rect) : ℤ := r.minY + r.size.height.tdiv 2

/-- Inset every side by the same amount. -/
def insetUniform (r : Rect) (inset : ℤ) : Rect :=
  ⟨r.origin + ⟨inset, inset⟩, r.size - ⟨inset + inset, inset + inset⟩⟩

def contains (r : Rect) (p : Point) : Bool :=
  p.x ≥ r.minX && p.y ≥ r.minY && p.x < r.maxX && p.y < r.maxY

def encloses (r rhs : Rect) : Bool :=
  rhs.minX ≥ r.minX && rhs.minY ≥ r.minY && rhs.maxX ≤ r.maxX && rhs.maxY ≤ r.maxY

/-- Trims `rhs` at the right and at the bottom edge; the origin stays where it is. -/
def constrain (r rhs : Rect) : Rect :=
  if rhs.minX ≥ r.maxX || rhs.minY ≥ r.maxY then zero
  else
    let width := if rhs.maxX > r.width then rhs.width - (rhs.maxX - r.width) else rhs.width
    let height := if rhs.maxY > r.height then rhs.height - (rhs.maxY - r.height) else rhs.height
    ⟨rhs.origin, ⟨width, height⟩⟩

def intersectsWith (r other : Rect) : Bool :=
  r.maxX > other.minX && r.minX < other.maxX && r.maxY > other.minY && r.minY < other.maxY

/-- The left edge: the piece cut off, and what is left of the area. -/
def excludeLeft (area exclude : Rect) : List Rect × Rect :=
  let overlap := exclude.minX - area.minX
  if overlap > 0 then
    ([⟨area.origin, ⟨overlap, area.height⟩⟩],
      ⟨⟨area.origin.x + overlap, area.origin.y⟩, ⟨area.width - overlap, area.height⟩⟩)
  else ([], area)

def excludeRight (area exclude : Rect) : List Rect × Rect :=
  let overlap := area.maxX - exclude.maxX
  if overlap > 0 then
    ([⟨⟨exclude.maxX, area.minY⟩, ⟨overlap, area.height⟩⟩],
      ⟨area.origin, ⟨area.width - overlap, area.height⟩⟩)
  else ([], area)

/-- The part of the area below the excluded rectangle. -/
def excludeTop (area exclude : Rect) : List Rect × Rect :=
  let overlap := area.maxY - exclude.maxY
  if overlap > 0 then
    ([⟨⟨area.minX, exclude.maxY⟩, ⟨area.width, overlap⟩⟩],
      ⟨area.origin, ⟨area.width, area.height - overlap⟩⟩)
  else ([], area)

/-- The part of the area above the excluded rectangle. -/
def excludeBottom (area exclude : Rect) : List Rect × Rect :=
  let overlap := exclude.minY - area.minY
  if overlap > 0 then
    ([⟨area.origin, ⟨area.width, overlap⟩⟩],
      ⟨area.origin, ⟨area.width, area.height - overlap⟩⟩)
  else ([], area)

/-- The pieces of `r` outside `exclude`; none at all when the two do not meet. -/
def areaExcludingRect (r exclude : Rect) : List Rect :=
  if !r.intersectsWith exclude then []
  else
    let left := r.excludeLeft exclude
    if !left.2.intersectsWith exclude then left.1
    else
      let right := left.2.excludeRight exclude
      if !right.2.intersectsWith exclude then left.1 ++ right.1
      else
        let top := right.2.excludeTop exclude
        if !top.2.intersectsWith exclude then left.1 ++ right.1 ++ top.1
        else left.1 ++ right.1 ++ top.1 ++ (top.2.excludeBottom exclude).1

def areaOverlappingWith (r1 r2 : Rect) : Option Rect :=
  if !r1.intersectsWith r2 then none
  else if r1 = r2 then some r1
  else
    let origin : Point := ⟨max r1.minX r2.minX, max r1.minY r2.minY⟩
    let bottomRight : Point := ⟨min r1.maxX r2.maxX, min r1.maxY r2.maxY⟩
    if !(origin.x < bottomRight.x && origin.y < bottomRight.y) then none
    else some ⟨origin, ⟨bottomRight.x - origin.x, bottomRight.y - origin.y⟩⟩

def union (r other : Rect) : Rect :=
  let origin : Point := ⟨min r.minX other.minX, min r.minY other.minY⟩
  ⟨origin, ⟨max r.maxX other.maxX - origin.x, max r.maxY other.maxY - origin.y⟩⟩

def translatePoint (r : Rect) (p : Point) : Point := p - r.origin

def isDegenerate (r : Rect) : Bool := r.width = 0 || r.height = 0

def area (r : Rect) : ℤ := r.width * r.height

/-! ### Points -/

instance : Membership Point Rect := ⟨fun r p => r.contains p = true⟩

instance (r : Rect) (p : Point) : Decidable (p ∈ r) :=
  inferInstanceAs (Decidable (r.contains p = true))

variable {p : Point} {r s t : Rect} {desktop : Size}

theorem mem_iff : p ∈ r ↔
    r.origin.x ≤ p.x ∧ p.x < r.origin.x + r.size.width ∧
    r.origin.y ≤ p.y ∧ p.y < r.origin.y + r.size.height := by
  show r.contains p = true ↔ _
  simp only [contains, Bool.and_eq_true, decide_eq_true_eq]
  simp only [minX, minY, maxX, maxY, ge_iff_le]
  constructor <;> intro h <;> omega

theorem intersectsWith_iff : r.intersectsWith s = true ↔
    s.origin.x < r.origin.x + r.size.width ∧ r.origin.x < s.origin.x + s.size.width ∧
    s.origin.y < r.origin.y + r.size.height ∧ r.origin.y < s.origin.y + s.size.height := by
  simp only [intersectsWith, Bool.and_eq_true, decide_eq_true_eq]
  simp only [minX, minY, maxX, maxY, gt_iff_lt]
  constructor <;> intro h <;> omega

/-- At least one point wide and one point high. -/
def Positive (r : Rect) : Prop := 0 < r.size.width ∧ 0 < r.size.height

instance (r : Rect) : Decidable r.Positive :=
  inferInstanceAs (Decidable (0 < r.size.width ∧ 0 < r.size.height))

/-- Possibly empty, but not inverted. -/
def Nonneg (r : Rect) : Prop := 0 ≤ r.size.width ∧ 0 ≤ r.size.height

theorem Positive.nonneg (h : r.Positive) : r.Nonneg := ⟨h.1.le, h.2.le⟩

/-- No point is in both. -/
def Disjoint (r s : Rect) : Prop := ∀ p, p ∈ r → p ∉ s

instance : Std.Symm Disjoint := ⟨fun _ _ h p hs hr => h p hr hs⟩

theorem intersectsWith_comm (r s : Rect) : r.intersectsWith s = s.intersectsWith r := by
  rw [Bool.eq_iff_iff, intersectsWith_iff, intersectsWith_iff]
  constructor <;> intro h <;> omega

theorem intersectsWith_of_mem (hr : p ∈ r) (hs : p ∈ s) : r.intersectsWith s = true := by
  rw [mem_iff] at hr hs
  rw [intersectsWith_iff]
  omega

theorem disjoint_of_not_intersects (h : r.intersectsWith s = false) : r.Disjoint s := by
  intro p hr hs
  rw [intersectsWith_of_mem hr hs] at h
  exact absurd h (by decide)

/-! ### The union of two frames -/

theorem intersectsWith_union_left (h : r.intersectsWith t = true) :
    (r.union s).intersectsWith t = true := by
  rw [intersectsWith_iff] at h ⊢
  simp only [union, minX, minY, maxX, maxY]
  omega

theorem intersectsWith_union_right (h : s.intersectsWith t = true) :
    (r.union s).intersectsWith t = true := by
  rw [intersectsWith_iff] at h ⊢
  simp only [union, minX, minY, maxX, maxY]
  omega

theorem Positive.intersectsWith_self (h : r.Positive) : r.intersectsWith r = true := by
  rw [intersectsWith_iff]
  unfold Positive at h
  omega

/-! ### Trimming -/

theorem constrain_nonneg (desktop : Size) (h : r.Nonneg) :
    ((withSize desktop).constrain r).Nonneg := by
  unfold Nonneg at h ⊢
  simp only [constrain, withSize, Point.zero, minX, minY, maxX, maxY, width, height,
    Bool.or_eq_true, decide_eq_true_eq, ge_iff_le, gt_iff_lt, zero_add]
  split
  · exact ⟨le_refl 0, le_refl 0⟩
  · rename_i hin
    constructor
    all_goals
      dsimp only
      split <;> omega

/-- The points `constrain` keeps: those left of the right edge and above the bottom edge. -/
theorem mem_constrain :
    p ∈ (withSize desktop).constrain r ↔ p ∈ r ∧ p.x < desktop.width ∧ p.y < desktop.height := by
  simp only [mem_iff, constrain, withSize, Point.zero, minX, minY, maxX, maxY, width, height,
    Bool.or_eq_true, decide_eq_true_eq, ge_iff_le, gt_iff_lt, zero_add]
  split
  · rename_i hout
    simp only [zero, new]
    omega
  · rename_i hin
    dsimp only
    split <;> split <;> omega

theorem mem_withSize :
    p ∈ withSize desktop ↔ 0 ≤ p.x ∧ p.x < desktop.width ∧ 0 ≤ p.y ∧ p.y < desktop.height := by
  rw [mem_iff]
  simp only [withSize, Point.zero, zero_add]

/-! ### Excluding a rectangle -/

/-- Some pieces cut off an area that meets `exclude`, and the rest of it, which still does. -/
structure CutsOff (area exclude : Rect) (pieces : List Rect) (rest : Rect) : Prop where
  cover : ∀ p, p ∈ area ↔ (∃ r ∈ pieces, p ∈ r) ∨ p ∈ rest
  apart : ∀ r ∈ pieces, r.Disjoint rest
  outside : ∀ r ∈ pieces, r.Disjoint exclude
  pairwise : pieces.Pairwise Disjoint
  pieces_nonneg : ∀ r ∈ pieces, r.Nonneg
  rest_nonneg : rest.Nonneg
  meets : rest.intersectsWith exclude = true

theorem CutsOff.refl {area exclude : Rect} (h : area.Nonneg)
    (hmeets : area.intersectsWith exclude = true) : CutsOff area exclude [] area where
  cover := by simp
  apart := by simp
  outside := by simp
  pairwise := List.Pairwise.nil
  pieces_nonneg := by simp
  rest_nonneg := h
  meets := hmeets

theorem CutsOff.trans {area exclude rest rest' : Rect} {pieces pieces' : List Rect}
    (h : CutsOff area exclude pieces rest) (h' : CutsOff rest exclude pieces' rest') :
    CutsOff area exclude (pieces ++ pieces') rest' where
  cover := by
    intro p
    rw [h.cover p, h'.cover p]
    simp only [List.mem_append, or_and_right, exists_or, or_assoc]
  apart := by
    intro r hr
    rcases List.mem_append.mp hr with hr | hr
    · exact fun p hp hrest => h.apart r hr p hp ((h'.cover p).mpr (Or.inr hrest))
    · exact h'.apart r hr
  outside := by
    intro r hr
    rcases List.mem_append.mp hr with hr | hr
    · exact h.outside r hr
    · exact h'.outside r hr
  pairwise := by
    refine List.pairwise_append.mpr ⟨h.pairwise, h'.pairwise, ?_⟩
    intro r hr s hs p hp hps
    exact h.apart r hr p hp ((h'.cover p).mpr (Or.inl ⟨s, hs, hps⟩))
  pieces_nonneg := by
    intro r hr
    rcases List.mem_append.mp hr with hr | hr
    · exact h.pieces_nonneg r hr
    · exact h'.pieces_nonneg r hr
  rest_nonneg := h'.rest_nonneg
  meets := h'.meets

theorem CutsOff.single {area exclude piece rest : Rect}
    (cover : ∀ p, p ∈ area ↔ p ∈ piece ∨ p ∈ rest) (apart : piece.Disjoint rest)
    (outside : piece.Disjoint exclude) (hpiece : piece.Nonneg) (hrest : rest.Nonneg)
    (hmeets : rest.intersectsWith exclude = true) : CutsOff area exclude [piece] rest where
  cover := by simpa using cover
  apart := by simpa using apart
  outside := by simpa using outside
  pairwise := List.pairwise_singleton _ _
  pieces_nonneg := by simpa using hpiece
  rest_nonneg := hrest
  meets := hmeets

section Exclude

variable {area exclude : Rect}

theorem excludeLeft_cutsOff (ha : area.Nonneg) (he : exclude.Positive)
    (h : area.intersectsWith exclude = true) :
    CutsOff area exclude (area.excludeLeft exclude).1 (area.excludeLeft exclude).2 := by
  have h' := intersectsWith_iff.mp h
  unfold Nonneg at ha
  unfold Positive at he
  simp only [excludeLeft, minX, width, height, gt_iff_lt]
  split
  · apply CutsOff.single
    · intro p
      simp only [mem_iff]
      omega
    · intro p
      simp only [mem_iff]
      omega
    · intro p
      simp only [mem_iff]
      omega
    · unfold Nonneg
      dsimp only
      omega
    · unfold Nonneg
      dsimp only
      omega
    · rw [intersectsWith_iff]
      dsimp only
      omega
  · exact CutsOff.refl ha h

theorem excludeRight_cutsOff (ha : area.Nonneg) (he : exclude.Positive)
    (h : area.intersectsWith exclude = true) :
    CutsOff area exclude (area.excludeRight exclude).1 (area.excludeRight exclude).2 := by
  have h' := intersectsWith_iff.mp h
  unfold Nonneg at ha
  unfold Positive at he
  simp only [excludeRight, minX, minY, maxX, width, height, gt_iff_lt]
  split
  · apply CutsOff.single
    · intro p
      simp only [mem_iff]
      omega
    · intro p
      simp only [mem_iff]
      omega
    · intro p
      simp only [mem_iff]
      omega
    · unfold Nonneg
      dsimp only
      omega
    · unfold Nonneg
      dsimp only
      omega
    · rw [intersectsWith_iff]
      dsimp only
      omega
  · exact CutsOff.refl ha h

theorem excludeTop_cutsOff (ha : area.Nonneg) (he : exclude.Positive)
    (h : area.intersectsWith exclude = true) :
    CutsOff area exclude (area.excludeTop exclude).1 (area.excludeTop exclude).2 := by
  have h' := intersectsWith_iff.mp h
  unfold Nonneg at ha
  unfold Positive at he
  simp only [excludeTop, minX, minY, maxY, width, height, gt_iff_lt]
  split
  · apply CutsOff.single
    · intro p
      simp only [mem_iff]
      omega
    · intro p
      simp only [mem_iff]
      omega
    · intro p
      simp only [mem_iff]
      omega
    · unfold Nonneg
      dsimp only
      omega
    · unfold Nonneg
      dsimp only
      omega
    · rw [intersectsWith_iff]
      dsimp only
      omega
  · exact CutsOff.refl ha h

/-- After three cuts, what is left can only stick out of `exclude` at the top. -/
structure SticksOutAbove (area exclude : Rect) : Prop where
  left : exclude.origin.x ≤ area.origin.x
  right : area.origin.x + area.size.width ≤ exclude.origin.x + exclude.size.width
  bottom : area.origin.y + area.size.height ≤ exclude.origin.y + exclude.size.height

theorem sticksOutAbove_of_cuts :
    SticksOutAbove
      ((((area.excludeLeft exclude).2.excludeRight exclude).2.excludeTop exclude).2) exclude := by
  have hleft : exclude.origin.x ≤ (area.excludeLeft exclude).2.origin.x := by
    simp only [excludeLeft, minX, gt_iff_lt]
    split
    · dsimp only
      omega
    · dsimp only
      omega
  generalize (area.excludeLeft exclude).2 = a at hleft
  have hright : exclude.origin.x ≤ (a.excludeRight exclude).2.origin.x ∧
      (a.excludeRight exclude).2.origin.x + (a.excludeRight exclude).2.size.width
        ≤ exclude.origin.x + exclude.size.width := by
    simp only [excludeRight, minX, maxX, width, gt_iff_lt]
    split
    · dsimp only
      omega
    · dsimp only
      omega
  generalize (a.excludeRight exclude).2 = b at hright
  simp only [excludeTop, minX, minY, maxY, width, height, gt_iff_lt]
  split
  · exact ⟨hright.1, hright.2, by dsimp only; omega⟩
  · exact ⟨hright.1, hright.2, by dsimp only; omega⟩

theorem mem_excludeBottom (hm : area.intersectsWith exclude = true)
    (h : SticksOutAbove area exclude) (p : Point) :
    (∃ r ∈ (area.excludeBottom exclude).1, p ∈ r) ↔ p ∈ area ∧ p ∉ exclude := by
  have hm' := intersectsWith_iff.mp hm
  have hl := h.left
  have hr := h.right
  have hb := h.bottom
  simp only [excludeBottom, minY, width, gt_iff_lt]
  split
  · simp only [List.mem_singleton, exists_eq_left, mem_iff]
    constructor <;> intro h <;> omega
  · simp only [List.not_mem_nil, false_and, exists_false, false_iff, mem_iff]
    omega

theorem excludeBottom_nonneg (ha : area.Nonneg) :
    ∀ r ∈ (area.excludeBottom exclude).1, r.Nonneg := by
  unfold Nonneg at *
  simp only [excludeBottom, minY, width, gt_iff_lt]
  split
  · intro r hr
    rw [List.mem_singleton.mp hr]
    dsimp only
    omega
  · simp

theorem excludeBottom_pairwise : (area.excludeBottom exclude).1.Pairwise Disjoint := by
  unfold excludeBottom
  dsimp only
  split
  · exact List.pairwise_singleton _ _
  · exact List.Pairwise.nil

/-- The early returns are not taken for a non-empty rectangle to exclude: every cut leaves a
part that still meets it. -/
theorem areaExcludingRect_eq (ha : area.Nonneg) (he : exclude.Positive)
    (h : area.intersectsWith exclude = true) :
    ∃ pieces rest, CutsOff area exclude pieces rest ∧ SticksOutAbove rest exclude ∧
      area.areaExcludingRect exclude = pieces ++ (rest.excludeBottom exclude).1 := by
  have hl := excludeLeft_cutsOff ha he h
  have hr := excludeRight_cutsOff hl.rest_nonneg he hl.meets
  have ht := excludeTop_cutsOff hr.rest_nonneg he hr.meets
  refine ⟨_, _, (hl.trans hr).trans ht, sticksOutAbove_of_cuts, ?_⟩
  simp only [areaExcludingRect, h, hl.meets, hr.meets, ht.meets, Bool.not_true,
    Bool.false_eq_true, if_false]

theorem areaExcludingRect_of_not_intersects (h : area.intersectsWith exclude = false) :
    area.areaExcludingRect exclude = [] := by
  simp only [areaExcludingRect, h, Bool.not_false, if_true]

/-- **The pieces have exactly the points of the area outside the excluded rectangle (proved).** -/
theorem mem_areaExcludingRect (ha : area.Nonneg) (he : exclude.Positive)
    (h : area.intersectsWith exclude = true) (p : Point) :
    (∃ r ∈ area.areaExcludingRect exclude, p ∈ r) ↔ p ∈ area ∧ p ∉ exclude := by
  obtain ⟨pieces, rest, hcut, habove, heq⟩ := areaExcludingRect_eq ha he h
  have hbottom := mem_excludeBottom hcut.meets habove p
  rw [heq, hcut.cover p]
  have hout : (∃ r ∈ pieces, p ∈ r) → p ∉ exclude := by
    rintro ⟨r, hr, hp⟩
    exact hcut.outside r hr p hp
  simp only [List.mem_append, or_and_right, exists_or, hbottom]
  constructor
  · rintro (hp | hp)
    · exact Or.inl ⟨hp, hout hp⟩
    · exact Or.inr hp
  · rintro (hp | hp)
    · exact Or.inl hp.1
    · exact Or.inr hp

theorem areaExcludingRect_nonneg (ha : area.Nonneg) (he : exclude.Positive) :
    ∀ r ∈ area.areaExcludingRect exclude, r.Nonneg := by
  cases h : area.intersectsWith exclude with
  | false => simp [areaExcludingRect_of_not_intersects h]
  | true =>
    obtain ⟨pieces, rest, hcut, -, heq⟩ := areaExcludingRect_eq ha he h
    intro r hr
    rw [heq] at hr
    rcases List.mem_append.mp hr with hr | hr
    · exact hcut.pieces_nonneg r hr
    · exact excludeBottom_nonneg hcut.rest_nonneg r hr

/-- **No point is in two pieces (proved).** -/
theorem areaExcludingRect_pairwise (ha : area.Nonneg) (he : exclude.Positive) :
    (area.areaExcludingRect exclude).Pairwise Disjoint := by
  cases h : area.intersectsWith exclude with
  | false => simp [areaExcludingRect_of_not_intersects h]
  | true =>
    obtain ⟨pieces, rest, hcut, habove, heq⟩ := areaExcludingRect_eq ha he h
    rw [heq]
    refine List.pairwise_append.mpr ⟨hcut.pairwise, excludeBottom_pairwise, ?_⟩
    intro r hr s hs p hp hps
    have hrest := (mem_excludeBottom hcut.meets habove p).mp ⟨s, hs, hps⟩
    exact hcut.apart r hr p hp hrest.1

/-- A cut of a non-empty area has non-empty pieces and leaves a non-empty rest. -/
def CutsPositive (cut : List Rect × Rect) : Prop := (∀ r ∈ cut.1, r.Positive) ∧ cut.2.Positive

theorem CutsPositive.none (ha : area.Positive) : CutsPositive ([], area) :=
  ⟨fun _ hr => absurd hr List.not_mem_nil, ha⟩

theorem CutsPositive.single {piece rest : Rect} (hpiece : piece.Positive) (hrest : rest.Positive) :
    CutsPositive ([piece], rest) :=
  ⟨fun _ hr => by rw [List.mem_singleton.mp hr]; exact hpiece, hrest⟩

section

variable (ha : area.Positive)

include ha

theorem excludeLeft_positive (h : area.intersectsWith exclude = true) :
    CutsPositive (area.excludeLeft exclude) := by
  have h' := intersectsWith_iff.mp h
  simp only [excludeLeft, minX, width, height, gt_iff_lt]
  split
  · refine CutsPositive.single ?_ ?_
    · exact ⟨by dsimp only; omega, ha.2⟩
    · exact ⟨by dsimp only; omega, ha.2⟩
  · exact CutsPositive.none ha

theorem excludeRight_positive (h : area.intersectsWith exclude = true) :
    CutsPositive (area.excludeRight exclude) := by
  have h' := intersectsWith_iff.mp h
  simp only [excludeRight, minX, minY, maxX, width, height, gt_iff_lt]
  split
  · refine CutsPositive.single ?_ ?_
    · exact ⟨by dsimp only; omega, ha.2⟩
    · exact ⟨by dsimp only; omega, ha.2⟩
  · exact CutsPositive.none ha

theorem excludeTop_positive (h : area.intersectsWith exclude = true) :
    CutsPositive (area.excludeTop exclude) := by
  have h' := intersectsWith_iff.mp h
  simp only [excludeTop, minX, minY, maxY, width, height, gt_iff_lt]
  split
  · refine CutsPositive.single ?_ ?_
    · exact ⟨ha.1, by dsimp only; omega⟩
    · exact ⟨ha.1, by dsimp only; omega⟩
  · exact CutsPositive.none ha

theorem excludeBottom_positive (h : area.intersectsWith exclude = true) :
    CutsPositive (area.excludeBottom exclude) := by
  have h' := intersectsWith_iff.mp h
  simp only [excludeBottom, minY, width, height, gt_iff_lt]
  split
  · refine CutsPositive.single ?_ ?_
    · exact ⟨ha.1, by dsimp only; omega⟩
    · exact ⟨ha.1, by dsimp only; omega⟩
  · exact CutsPositive.none ha

/-- **The pieces of a non-empty area are not empty (proved).** -/
theorem areaExcludingRect_positive : ∀ r ∈ area.areaExcludingRect exclude, r.Positive := by
  unfold areaExcludingRect
  dsimp only
  split
  · exact fun r hr => absurd hr List.not_mem_nil
  · rename_i hmeets
    have hleft := excludeLeft_positive ha (by simpa using hmeets)
    split
    · exact hleft.1
    · rename_i hmeets
      have hright := excludeRight_positive hleft.2 (by simpa using hmeets)
      have hsides := List.forall_mem_append.mpr ⟨hleft.1, hright.1⟩
      split
      · exact hsides
      · rename_i hmeets
        have htop := excludeTop_positive hright.2 (by simpa using hmeets)
        have hpieces := List.forall_mem_append.mpr ⟨hsides, htop.1⟩
        split
        · exact hpieces
        · rename_i hmeets
          have hbottom := excludeBottom_positive htop.2 (by simpa using hmeets)
          exact List.forall_mem_append.mpr ⟨hpieces, hbottom.1⟩

end

/-- **Excluding a rectangle is exact (proved).**  The pieces of a non-empty area are non-empty,
disjoint, and have exactly the points of the area that lie outside of the excluded rectangle. -/
theorem areaExcludingRect_exact (ha : area.Positive) (he : exclude.Positive)
    (h : area.intersectsWith exclude = true) :
    (∀ r ∈ area.areaExcludingRect exclude, r.Positive) ∧
      (area.areaExcludingRect exclude).Pairwise Disjoint ∧
      ∀ p, (∃ r ∈ area.areaExcludingRect exclude, p ∈ r) ↔ p ∈ area ∧ p ∉ exclude :=
  ⟨areaExcludingRect_positive ha, areaExcludingRect_pairwise ha.nonneg he,
    mem_areaExcludingRect ha.nonneg he h⟩

/-- A hole in the middle of an area leaves four pieces. -/
theorem areaExcludingRect_exact_hole :
    ((new 0 0 10 10).areaExcludingRect (new 3 4 2 1)).length = 4 ∧
      ((new 0 0 10 10).areaExcludingRect (new 3 4 2 1)).Pairwise Disjoint :=
  ⟨by decide, (@areaExcludingRect_exact (new 0 0 10 10) (new 3 4 2 1) (by decide) (by decide)
    (by decide)).2.1⟩

end Exclude

/-! ### Overlaps -/

/-- **Non-empty rectangles that meet overlap in the points they share (proved).** -/
theorem areaOverlappingWith_spec (hr : r.Positive) (hs : s.Positive)
    (h : r.intersectsWith s = true) :
    ∃ o, r.areaOverlappingWith s = some o ∧ o.Positive ∧ ∀ p, p ∈ o ↔ p ∈ r ∧ p ∈ s := by
  unfold areaOverlappingWith
  rw [if_neg (by simp [h])]
  by_cases heq : r = s
  · rw [if_pos heq]
    exact ⟨r, rfl, hr, fun p => by rw [← heq, and_self]⟩
  · rw [if_neg heq]
    have h' := intersectsWith_iff.mp h
    unfold Positive at *
    refine ⟨_, if_neg ?_, ?_, ?_⟩
    · simp only [Bool.not_eq_true, Bool.not_eq_false', Bool.and_eq_true, decide_eq_true_eq]
      simp only [minX, minY, maxX, maxY]
      omega
    · simp only [minX, minY, maxX, maxY]
      omega
    · intro p
      simp only [mem_iff, minX, minY, maxX, maxY]
      constructor <;> intro hp <;> omega

end Rect

end Axle.Agx
