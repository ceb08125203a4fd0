import Axle.Agx.Rect
import Axle.Lib.StepRun
import Mathlib.Data.List.InsertIdx

/-!
# Layout of a text view

A `TextView` keeps its characters with the positions they were drawn at, and patches these
positions at each edit: an insertion lays out the later characters anew, a backspace moves each of
them to where its predecessor stood.

The font gives a width for each character and a line height; distances of a click and the fraction
0.7 of a width are computed in floating point in the source and parameters here.  Drawing is left
out.

* `step` — an insertion, a backspace, a click, or clearing the view;
* `EditRun` — the same for the text alone;
* `LaidOut` — each character and the cursor stand where the characters before them lead;
* `KeepsLayout` — when an edit keeps that: insertions always do;
* `textView_iff` — **PROVED**: all edits are the list edits, and the text is laid out at all times
  if and only if all edits meet the condition.
-/

namespace Axle.Libgui.TextView

open Axle.Agx
open Axle.Lib.StepRun

/-! ### The view -/

structure Font where
  advanceWidth : Size → Char → ℕ
  scaledLineHeight : Size → ℤ

/-- What does not change: `containerSize` is the size of the text entry frame. -/
structure Setup (δ : Type) where
  font : Font
  fontSize : Size
  containerSize : Size
  contentFrame : Rect
  distance : Point → Point → δ
  closer : δ → δ → Bool
  sevenTenths : ℤ → ℤ

structure DrawnCharacter where
  value : Char
  pos : Point
  fontSize : Size
  deriving DecidableEq, Repr

/-- The index of the next character and the point where it goes. -/
structure CursorPos where
  index : ℕ
  point : Point
  deriving DecidableEq, Repr

structure State where
  text : List DrawnCharacter
  cursorPos : CursorPos
  deriving DecidableEq, Repr

def start : State := ⟨[], ⟨0, Point.zero⟩⟩

def nextCursorPosForChar (cursorPos : Point) (ch : Char) (font : Font) (fontSize : Size)
    (containerSize : Size) : Point :=
  if ch = '\n' ∨ cursorPos.x + fontSize.width * 2 ≥ containerSize.width then
    ⟨0, cursorPos.y + font.scaledLineHeight fontSize⟩
  else ⟨cursorPos.x + font.advanceWidth fontSize ch, cursorPos.y⟩

section Edits

variable {δ : Type} (setup : Setup δ)

def Setup.next (p : Point) (ch : Char) (fontSize : Size) : Point :=
  nextCursorPosForChar p ch setup.font fontSize setup.containerSize

/-- The loop of an insertion: the later characters, from a point on. -/
def shiftLater : Point → List DrawnCharacter → List DrawnCharacter
  | _, [] => []
  | p, ch :: rest =>
    { ch with pos := p } :: shiftLater (setup.next p ch.value setup.fontSize) rest

/-- `draw_char_and_update_cursor`. -/
def drawCharAndUpdateCursor (s : State) (ch : Char) : Option State :=
  let next := setup.next s.cursorPos.point ch setup.fontSize
  let drawn : DrawnCharacter := ⟨ch, s.cursorPos.point, setup.fontSize⟩
  if s.cursorPos.index = s.text.length then
    some ⟨s.text ++ [drawn], ⟨s.cursorPos.index + 1, next⟩⟩
  else if s.cursorPos.index < s.text.length then
    let text := s.text.take s.cursorPos.index ++
      shiftLater setup next (s.text.drop s.cursorPos.index)
    some ⟨text.insertIdx s.cursorPos.index drawn, ⟨s.cursorPos.index + 1, next⟩⟩
  else none

/-- The inner loop of a backspace: the point behind each of the characters. -/
def shiftForward : Point → List DrawnCharacter → List DrawnCharacter
  | _, [] => []
  | p, ch :: rest =>
    let next := setup.next p ch.value ch.fontSize
    { ch with pos := next } :: shiftForward next rest

/-- The loop of a backspace.  The second list has the deleted character and the later ones as they
were; it is longer by one. -/
def shiftBack : List DrawnCharacter → List DrawnCharacter → List DrawnCharacter
  | ch :: rest, prev :: after =>
    { ch with pos := prev.pos } ::
      shiftBack rest (if prev.value = '\n' then shiftForward setup prev.pos after else after)
  | chars, _ => chars

/-- The point behind the text before the cursor. -/
def pointAfterErase (text : List DrawnCharacter) (index : ℕ) : Point :=
  if index = 0 then Point.zero
  else
    match text[index - 1]? with
    | some prev => setup.next prev.pos prev.value prev.fontSize
    | none => Point.zero

def eraseCharAndUpdateCursor (s : State) : Option State :=
  if s.cursorPos.index = 0 then some s
  else if s.cursorPos.index ≤ s.text.length then
    let isDeletingFromEnd := s.cursorPos.index = s.text.length
    let index := s.cursorPos.index - 1
    let charsAfterDelete := s.text.drop index
    let text := s.text.eraseIdx index
    let point := pointAfterErase setup text index
    if isDeletingFromEnd then some ⟨text, ⟨index, point⟩⟩
    else
      some ⟨text.take index ++ shiftBack setup (text.drop index) charsAfterDelete, ⟨index, point⟩⟩
  else none

def clear (_ : State) : State := ⟨[], ⟨0, Point.zero⟩⟩

/-- The loop of a click: the first of the closest characters, newlines apart. -/
def closestChar (mousePoint : Point) : ℕ → List DrawnCharacter → Option (δ × ℕ × DrawnCharacter) →
    Option (δ × ℕ × DrawnCharacter)
  | _, [], closest => closest
  | i, ch :: rest, closest =>
    closestChar mousePoint (i + 1) rest <|
      if ch.value = '\n' then closest
      else
        let charClickPos := ch.pos + ⟨setup.fontSize.width, setup.fontSize.height⟩
        let distance := setup.distance mousePoint charClickPos
        match closest with
        | none => some (distance, i, ch)
        | some best => if setup.closer distance best.1 then some (distance, i, ch) else closest

/-- The character that a click at a point of the text falls on. -/
def clicked (s : State) (mousePoint : Point) : Option (ℕ × DrawnCharacter) :=
  (closestChar setup mousePoint 0 s.text none).map Prod.snd

/-- The click is far enough to the right to go behind the character. -/
def PastCharacter (ch : DrawnCharacter) (mousePoint : Point) : Prop :=
  mousePoint.x > ch.pos.x + setup.sevenTenths ch.fontSize.width

instance (ch : DrawnCharacter) (mousePoint : Point) :
    Decidable (PastCharacter setup ch mousePoint) := inferInstanceAs (Decidable (_ > _))

/-- The point of the text under the mouse. -/
def textPoint (mousePoint scrollOffset : Point) : Point :=
  mousePoint - setup.contentFrame.origin + scrollOffset

def handleLeftClick (s : State) (mousePoint scrollOffset : Point) : State :=
  if setup.contentFrame.contains mousePoint then
    match clicked setup s (textPoint setup mousePoint scrollOffset) with
    | none => s
    | some (i, ch) =>
      if PastCharacter setup ch (textPoint setup mousePoint scrollOffset) then
        { s with cursorPos := ⟨i + 1, ch.pos + ⟨ch.fontSize.width, 0⟩⟩ }
      else { s with cursorPos := ⟨i, ch.pos⟩ }
  else s

inductive Event where
  | insert (ch : Char)
  | backspace
  | leftClick (mousePoint scrollOffset : Point)
  | clear
  deriving DecidableEq, Repr

def step (s : State) : Event → Option State
  | .insert ch => drawCharAndUpdateCursor setup s ch
  | .backspace => eraseCharAndUpdateCursor setup s
  | .leftClick mousePoint scrollOffset => some (handleLeftClick setup s mousePoint scrollOffset)
  | .clear => some (clear s)

end Edits

/-! ### What the edits are for -/

/-- The edits of a text with a cursor.  A click puts the cursor somewhere into the text. -/
inductive EditStep : List Char × ℕ → Event → List Char × ℕ → Prop
  | insert (text : List Char) (i : ℕ) (ch : Char) :
      EditStep (text, i) (.insert ch) (text.insertIdx i ch, i + 1)
  | backspaceAtStart (text : List Char) : EditStep (text, 0) .backspace (text, 0)
  | backspace (text : List Char) (i : ℕ) :
      EditStep (text, i + 1) .backspace (text.eraseIdx i, i)
  | leftClick (text : List Char) (i j : ℕ) (mousePoint scrollOffset : Point)
      (le : j ≤ text.length) : EditStep (text, i) (.leftClick mousePoint scrollOffset) (text, j)
  | clear (text : List Char) (i : ℕ) : EditStep (text, i) .clear ([], 0)

inductive EditRun : List Char × ℕ → List Event → List Char × ℕ → Prop
  | nil (c : List Char × ℕ) : EditRun c [] c
  | cons {c c' c'' : List Char × ℕ} {e : Event} {events : List Event} (step : EditStep c e c')
      (rest : EditRun c' events c'') : EditRun c (e :: events) c''

/-- The values of the characters. -/
def State.values (s : State) : List Char := s.text.map DrawnCharacter.value

section Layout

variable {δ : Type} (setup : Setup δ)

/-- Where characters lead from a point. -/
def layout (p : Point) (chars : List Char) : Point :=
  chars.foldl (fun p ch => setup.next p ch setup.fontSize) p

/-- Every character, and the cursor, stands where the characters before lead from the origin. -/
structure LaidOut (s : State) : Prop where
  characters : ∀ k ch, s.text[k]? = some ch → ch.pos = layout setup Point.zero (s.values.take k)
  cursor : s.cursorPos.point = layout setup Point.zero (s.values.take s.cursorPos.index)

/-- A backspace at the end, or on a newline, keeps the layout.  Any other does where each later
character but the first, up to the one behind the first newline, belongs where its predecessor
stands. -/
def BackspaceKeepsLayout (s : State) : Prop :=
  s.cursorPos.index = 0 ∨ s.values[s.cursorPos.index - 1]? = some '\n' ∨
    ∀ k, s.cursorPos.index + k + 1 < s.values.length →
      '\n' ∉ (s.values.drop s.cursorPos.index).take k →
      layout setup Point.zero (s.values.take (s.cursorPos.index - 1) ++
        (s.values.drop s.cursorPos.index).take (k + 1)) =
        layout setup Point.zero (s.values.take (s.cursorPos.index + k))

/-- A click before a character keeps the layout.  One behind it does where the width of the font is
that of the character, and the line goes on. -/
def ClickKeepsLayout (s : State) (mousePoint scrollOffset : Point) : Prop :=
  setup.contentFrame.contains mousePoint = true →
    ∀ i ch, clicked setup s (textPoint setup mousePoint scrollOffset) = some (i, ch) →
      PastCharacter setup ch (textPoint setup mousePoint scrollOffset) →
        setup.next ch.pos ch.value setup.fontSize = ch.pos + ⟨setup.fontSize.width, 0⟩

def KeepsLayout (s : State) : Event → Prop
  | .insert _ | .clear => True
  | .backspace => BackspaceKeepsLayout setup s
  | .leftClick mousePoint scrollOffset => ClickKeepsLayout setup s mousePoint scrollOffset

end Layout

/-! ### Characters in their places -/

section Placed

variable {δ : Type} (setup : Setup δ)

/-- Characters laid out from a point. -/
def placed : Point → List Char → List DrawnCharacter
  | _, [] => []
  | p, c :: cs => ⟨c, p, setup.fontSize⟩ :: placed (setup.next p c setup.fontSize) cs

/-- Characters at the points behind them. -/
def ahead : Point → List Char → List DrawnCharacter
  | _, [] => []
  | p, c :: cs =>
    ⟨c, setup.next p c setup.fontSize, setup.fontSize⟩ :: ahead (setup.next p c setup.fontSize) cs

/-- All characters have the size of the view. -/
def OneSize (chars : List DrawnCharacter) : Prop := ∀ ch ∈ chars, ch.fontSize = setup.fontSize

variable {setup}

section

variable (p : Point)

@[simp] theorem layout_nil : layout setup p [] = p := rfl

@[simp] theorem layout_cons (c : Char) (cs : List Char) :
    layout setup p (c :: cs) = layout setup (setup.next p c setup.fontSize) cs := rfl

theorem layout_append (cs cs' : List Char) :
    layout setup p (cs ++ cs') = layout setup (layout setup p cs) cs' :=
  List.foldl_append

@[simp] theorem values_placed (cs : List Char) :
    (placed setup p cs).map DrawnCharacter.value = cs := by
  induction cs generalizing p with
  | nil => rfl
  | cons c cs ih => rw [placed, List.map_cons, ih]

@[simp] theorem length_placed (cs : List Char) : (placed setup p cs).length = cs.length := by
  rw [← List.length_map DrawnCharacter.value, values_placed]

theorem oneSize_placed (cs : List Char) : OneSize setup (placed setup p cs) := by
  induction cs generalizing p with
  | nil => exact fun ch hch => by cases hch
  | cons c cs ih =>
    intro ch hch
    rcases List.mem_cons.mp hch with rfl | hmem
    · rfl
    · exact ih _ ch hmem

theorem placed_append (cs cs' : List Char) :
    placed setup p (cs ++ cs') = placed setup p cs ++ placed setup (layout setup p cs) cs' := by
  induction cs generalizing p with
  | nil => rfl
  | cons c cs ih => rw [List.cons_append, placed, placed, List.cons_append, ih, layout_cons]

end

variable {chars : List DrawnCharacter}

/-- The text is laid out from a point if it is what one gets by laying it out. -/
theorem eq_placed_iff (hsize : OneSize setup chars) (p : Point) :
    chars = placed setup p (chars.map DrawnCharacter.value) ↔
      ∀ k ch, chars[k]? = some ch →
        ch.pos = layout setup p ((chars.map DrawnCharacter.value).take k) := by
  induction chars generalizing p with
  | nil => exact ⟨fun _ k ch h => (by cases h), fun _ => rfl⟩
  | cons ch chars ih =>
    have hrest := ih (fun ch hch => hsize ch (List.mem_cons_of_mem _ hch))
      (setup.next p ch.value setup.fontSize)
    rw [List.map_cons, placed, List.cons.injEq, hrest]
    constructor
    · rintro ⟨hfst, hall⟩ k ch' hk
      cases k with
      | zero =>
        cases hk
        exact congrArg DrawnCharacter.pos hfst
      | succ k => exact hall k ch' hk
    · intro hall
      refine ⟨?_, fun k ch' hk => hall (k + 1) ch' hk⟩
      obtain ⟨value, pos, fontSize⟩ := ch
      obtain rfl : fontSize = setup.fontSize := hsize _ List.mem_cons_self
      obtain rfl : pos = p := hall 0 _ rfl
      rfl

theorem OneSize.append_iff {chars chars' : List DrawnCharacter} :
    OneSize setup (chars ++ chars') ↔ OneSize setup chars ∧ OneSize setup chars' :=
  List.forall_mem_append

theorem OneSize.cons_iff {ch : DrawnCharacter} :
    OneSize setup (ch :: chars) ↔ ch.fontSize = setup.fontSize ∧ OneSize setup chars :=
  List.forall_mem_cons

/-! ### The loops -/

theorem shiftLater_eq (hsize : OneSize setup chars) (p : Point) :
    shiftLater setup p chars = placed setup p (chars.map DrawnCharacter.value) := by
  induction chars generalizing p with
  | nil => rfl
  | cons ch chars ih =>
    obtain ⟨hch, hsize⟩ := OneSize.cons_iff.mp hsize
    rw [shiftLater, List.map_cons, placed, ih hsize, ← hch]

theorem shiftForward_eq (hsize : OneSize setup chars) (p : Point) :
    shiftForward setup p chars = ahead setup p (chars.map DrawnCharacter.value) := by
  induction chars generalizing p with
  | nil => rfl
  | cons ch chars ih =>
    obtain ⟨hch, hsize⟩ := OneSize.cons_iff.mp hsize
    rw [shiftForward, List.map_cons, ahead, hch, ih hsize, ← hch]

@[simp] theorem values_ahead (p : Point) (cs : List Char) :
    (ahead setup p cs).map DrawnCharacter.value = cs := by
  induction cs generalizing p with
  | nil => rfl
  | cons c cs ih => rw [ahead, List.map_cons, ih]

theorem oneSize_ahead (p : Point) (cs : List Char) : OneSize setup (ahead setup p cs) := by
  induction cs generalizing p with
  | nil => exact fun ch hch => by cases hch
  | cons c cs ih => exact OneSize.cons_iff.mpr ⟨rfl, ih _⟩

theorem shiftBack_values (chars after : List DrawnCharacter) :
    (shiftBack setup chars after).map DrawnCharacter.value = chars.map DrawnCharacter.value := by
  induction chars generalizing after with
  | nil => cases after <;> rfl
  | cons ch chars ih =>
    cases after with
    | nil => rfl
    | cons prev after => rw [shiftBack, List.map_cons, List.map_cons, ih]

section

variable (hsize : OneSize setup chars)

include hsize

theorem shiftBack_oneSize (after : List DrawnCharacter) :
    OneSize setup (shiftBack setup chars after) := by
  induction chars generalizing after with
  | nil => cases after <;> exact hsize
  | cons ch chars ih =>
    obtain ⟨hch, hsize⟩ := OneSize.cons_iff.mp hsize
    cases after with
    | nil => exact OneSize.cons_iff.mpr ⟨hch, hsize⟩
    | cons prev after => exact OneSize.cons_iff.mpr ⟨hch, ih hsize _⟩

theorem shiftBack_ahead (p : Point) (c : Char) :
    shiftBack setup chars (ahead setup p (c :: chars.map DrawnCharacter.value)) =
      placed setup (setup.next p c setup.fontSize) (chars.map DrawnCharacter.value) := by
  induction chars generalizing p c with
  | nil => rfl
  | cons ch chars ih =>
    obtain ⟨hch, hsize⟩ := OneSize.cons_iff.mp hsize
    rw [List.map_cons, ahead, shiftBack, placed, ← hch, shiftForward_eq (oneSize_ahead _ _),
      values_ahead, ite_self]
    rw [hch, ih hsize]

/-- When moving back puts the characters into their places: `c` was before them at `r`, and `q` is
where they are to begin. -/
theorem shiftBack_eq_iff (r q : Point) (c : Char) :
    shiftBack setup chars (placed setup r (c :: chars.map DrawnCharacter.value)) =
        placed setup q (chars.map DrawnCharacter.value) ↔
      ∀ k < chars.length, '\n' ∉ (c :: chars.map DrawnCharacter.value).take k →
        layout setup q ((chars.map DrawnCharacter.value).take k) =
          layout setup r ((c :: chars.map DrawnCharacter.value).take k) := by
  induction chars generalizing r q c with
  | nil => exact ⟨fun _ k hk => absurd hk (Nat.not_lt_zero k), fun _ => rfl⟩
  | cons ch chars ih =>
    obtain ⟨hch, hsize⟩ := OneSize.cons_iff.mp hsize
    show ({ ch with pos := r } :: shiftBack setup chars (if c = '\n' then
        shiftForward setup r (placed setup (setup.next r c setup.fontSize)
          (ch.value :: chars.map DrawnCharacter.value))
        else placed setup (setup.next r c setup.fontSize)
          (ch.value :: chars.map DrawnCharacter.value)) =
      ⟨ch.value, q, setup.fontSize⟩ :: placed setup (setup.next q ch.value setup.fontSize)
        (chars.map DrawnCharacter.value)) ↔ _
    rw [List.cons.injEq]
    have hhead : ({ ch with pos := r } : DrawnCharacter) = ⟨ch.value, q, setup.fontSize⟩ ↔ q = r :=
      ⟨fun h => (congrArg DrawnCharacter.pos h).symm, fun h => by rw [h, ← hch]⟩
    by_cases hc : c = '\n'
    · -- the first newline: what follows depends on this place alone
      rw [if_pos hc, shiftForward_eq (oneSize_placed _ _), values_placed, shiftBack_ahead hsize,
        hhead]
      constructor
      · rintro ⟨rfl, -⟩ k hk hnot
        cases k with
        | zero => rfl
        | succ k => exact absurd (List.mem_cons.mpr (Or.inl hc.symm)) hnot
      · intro h
        have hqr : q = r := h 0 (Nat.succ_pos _) (by exact List.not_mem_nil)
        exact ⟨hqr, by rw [hqr]⟩
    · rw [if_neg hc, ih hsize, hhead]
      constructor
      · rintro ⟨hqr, hrest⟩ k hk hnot
        cases k with
        | zero => exact hqr
        | succ k =>
          exact hrest k (Nat.lt_of_succ_lt_succ hk) fun hmem => hnot (List.mem_cons_of_mem c hmem)
      · intro h
        refine ⟨h 0 (Nat.succ_pos _) (by exact List.not_mem_nil),
          fun k hk hnot => h (k + 1) (Nat.succ_lt_succ hk) fun hmem => ?_⟩
        rcases List.mem_cons.mp hmem with heq | hmem
        · exact hc heq.symm
        · exact hnot hmem

end

end Placed

/-! ### The edits -/

section Edits

variable {δ : Type} {setup : Setup δ}

variable {α : Type} {s : State} {before : List DrawnCharacter} {ch : DrawnCharacter} {i : ℕ}

theorem insertIdx_append_length (l l' : List α) (x : α) :
    (l ++ l').insertIdx l.length x = l ++ x :: l' := by
  induction l with
  | nil => rfl
  | cons a l ih => rw [List.cons_append, List.length_cons, List.insertIdx_succ_cons, ih]; rfl

theorem eraseIdx_append_length (l l' : List α) (x : α) :
    (l ++ x :: l').eraseIdx l.length = l ++ l' := by
  rw [List.eraseIdx_append_of_length_le le_rfl, Nat.sub_self, List.eraseIdx_cons_zero]

/-- What holds however the text stands. -/
structure Sound (setup : Setup δ) (s : State) : Prop where
  index_le : s.cursorPos.index ≤ s.text.length
  oneSize : OneSize setup s.text

/-- The text before the cursor and the text behind it. -/
theorem Sound.exists_split (h : Sound setup s) :
    ∃ before after p, s = ⟨before ++ after, ⟨before.length, p⟩⟩ := by
  obtain ⟨text, index, p⟩ := s
  refine ⟨text.take index, text.drop index, p, ?_⟩
  rw [List.take_append_drop, List.length_take, Nat.min_eq_left h.index_le]

theorem values_append (before after : List DrawnCharacter) (c : CursorPos) :
    State.values ⟨before ++ after, c⟩ =
      before.map DrawnCharacter.value ++ after.map DrawnCharacter.value :=
  List.map_append

theorem take_values (before after : List DrawnCharacter) :
    (before.map DrawnCharacter.value ++ after.map DrawnCharacter.value).take before.length =
      before.map DrawnCharacter.value := by
  rw [List.take_left' (List.length_map _)]

/-- A text in two parts is laid out if both are, the second from where the first leads. -/
theorem laidOut_append_iff {before after : List DrawnCharacter}
    (hbefore : OneSize setup before) (hafter : OneSize setup after) {p : Point} :
    LaidOut setup ⟨before ++ after, ⟨before.length, p⟩⟩ ↔
      before = placed setup Point.zero (before.map DrawnCharacter.value) ∧
        p = layout setup Point.zero (before.map DrawnCharacter.value) ∧
        after = placed setup p (after.map DrawnCharacter.value) := by
  have hall := eq_placed_iff (OneSize.append_iff.mpr ⟨hbefore, hafter⟩) Point.zero
  rw [List.map_append, placed_append] at hall
  constructor
  · rintro ⟨hchars, hcursor⟩
    dsimp only at hcursor
    rw [values_append, take_values] at hcursor
    rw [values_append] at hchars
    have hlength : before.length =
        (placed setup Point.zero (before.map DrawnCharacter.value)).length := by
      rw [length_placed, List.length_map]
    have hsplit := List.append_inj (hall.mpr hchars) hlength
    exact ⟨hsplit.1, hcursor, by rw [hcursor]; exact hsplit.2⟩
  · rintro ⟨hbefore', rfl, hafter'⟩
    constructor
    · rw [values_append]
      exact hall.mp (by rw [← hbefore', ← hafter'])
    · rw [values_append, take_values]

/-! #### An insertion -/

theorem drawCharAndUpdateCursor_eq (before after : List DrawnCharacter) (p : Point) (ch : Char) :
    drawCharAndUpdateCursor setup ⟨before ++ after, ⟨before.length, p⟩⟩ ch =
      some ⟨before ++ ⟨ch, p, setup.fontSize⟩ ::
        shiftLater setup (setup.next p ch setup.fontSize) after,
        ⟨before.length + 1, setup.next p ch setup.fontSize⟩⟩ := by
  unfold drawCharAndUpdateCursor
  dsimp only
  cases after with
  | nil => rw [List.append_nil, if_pos rfl]; rfl
  | cons ch' after =>
    have hlt : before.length < (before ++ ch' :: after).length := by
      rw [List.length_append, List.length_cons]
      exact Nat.lt_add_of_pos_right (Nat.succ_pos _)
    rw [if_neg hlt.ne, if_pos hlt, List.take_left, List.drop_left, insertIdx_append_length]

theorem shiftLater_values (p : Point) (chars : List DrawnCharacter) :
    (shiftLater setup p chars).map DrawnCharacter.value = chars.map DrawnCharacter.value := by
  induction chars generalizing p with
  | nil => rfl
  | cons ch chars ih => rw [shiftLater, List.map_cons, List.map_cons, ih]

theorem insert_spec (h : Sound setup s) (ch : Char) :
    ∃ t, step setup s (.insert ch) = some t ∧ Sound setup t ∧
      EditStep (s.values, s.cursorPos.index) (.insert ch) (t.values, t.cursorPos.index) ∧
      (LaidOut setup s → LaidOut setup t) := by
  obtain ⟨before, after, p, rfl⟩ := h.exists_split
  obtain ⟨hbefore, hafter⟩ := OneSize.append_iff.mp h.oneSize
  have hshift := shiftLater_eq hafter (setup.next p ch setup.fontSize)
  refine ⟨_, drawCharAndUpdateCursor_eq before after p ch, ⟨?_, ?_⟩, ?_, fun hlaid => ?_⟩
  · rw [List.length_append, List.length_cons]
    exact Nat.add_le_add_left (Nat.le_add_left 1 _) _
  · rw [hshift]
    exact OneSize.append_iff.mpr ⟨hbefore, OneSize.cons_iff.mpr ⟨rfl, oneSize_placed _ _⟩⟩
  · have hvalues : State.values ⟨before ++ ⟨ch, p, setup.fontSize⟩ ::
        shiftLater setup (setup.next p ch setup.fontSize) after,
        ⟨before.length + 1, setup.next p ch setup.fontSize⟩⟩ =
        (State.values ⟨before ++ after, ⟨before.length, p⟩⟩).insertIdx before.length ch := by
      rw [values_append, values_append, List.map_cons, shiftLater_values,
        ← List.length_map DrawnCharacter.value, insertIdx_append_length]
    rw [hvalues]
    exact EditStep.insert _ _ ch
  · obtain ⟨hb, hp, -⟩ := (laidOut_append_iff hbefore hafter).mp hlaid
    have hone : OneSize setup [⟨ch, p, setup.fontSize⟩] :=
      OneSize.cons_iff.mpr ⟨rfl, fun ch hch => by cases hch⟩
    have hlength : before.length + 1 =
        (before ++ [(⟨ch, p, setup.fontSize⟩ : DrawnCharacter)]).length := by
      rw [List.length_append, List.length_singleton]
    rw [hshift, List.append_cons, hlength]
    refine (laidOut_append_iff (OneSize.append_iff.mpr ⟨hbefore, hone⟩)
      (oneSize_placed _ _)).mpr ⟨?_, ?_, ?_⟩
    · rw [List.map_append, placed_append, ← hb, ← hp]
      rfl
    · rw [List.map_append, layout_append, ← hp]
      rfl
    · rw [values_placed]

/-! #### A backspace -/

theorem pointAfterErase_eq (after : List DrawnCharacter) (hbefore : OneSize setup before)
    (hlaid : before = placed setup Point.zero (before.map DrawnCharacter.value)) :
    pointAfterErase setup (before ++ after) before.length =
      layout setup Point.zero (before.map DrawnCharacter.value) := by
  unfold pointAfterErase
  rcases List.eq_nil_or_concat before with rfl | ⟨init, last, rfl⟩
  · rfl
  · rw [List.concat_eq_append] at hbefore hlaid ⊢
    have hlength : (init ++ [last]).length = init.length + 1 := by
      rw [List.length_append, List.length_singleton]
    have hget : (init ++ [last] ++ after)[init.length]? = some last := by
      rw [List.append_assoc, List.getElem?_append_right le_rfl, Nat.sub_self]
      rfl
    have hpos : last.pos = layout setup Point.zero (init.map DrawnCharacter.value) := by
      have := (eq_placed_iff hbefore Point.zero).mp hlaid init.length last (by
        rw [List.getElem?_append_right le_rfl, Nat.sub_self]
        rfl)
      rwa [List.map_append, take_values init [last]] at this
    rw [hlength, if_neg (Nat.succ_ne_zero _), Nat.add_sub_cancel, hget]
    dsimp only
    rw [hpos, (OneSize.cons_iff.mp (OneSize.append_iff.mp hbefore).2).1, List.map_append,
      layout_append]
    rfl

theorem eraseCharAndUpdateCursor_eq (before after : List DrawnCharacter) (ch : DrawnCharacter)
    (p : Point) :
    eraseCharAndUpdateCursor setup ⟨before ++ ch :: after, ⟨before.length + 1, p⟩⟩ =
      some ⟨before ++ shiftBack setup after (ch :: after),
        ⟨before.length, pointAfterErase setup (before ++ after) before.length⟩⟩ := by
  have hle : before.length + 1 ≤ (before ++ ch :: after).length := by
    rw [List.length_append, List.length_cons]
    exact Nat.add_le_add_left (Nat.le_add_left 1 _) _
  unfold eraseCharAndUpdateCursor
  dsimp only
  rw [if_neg (Nat.succ_ne_zero _), if_pos hle, Nat.add_sub_cancel, eraseIdx_append_length,
    List.drop_left, List.drop_left, List.take_left]
  split
  · rename_i hend
    rw [List.length_append, List.length_cons, Nat.add_left_cancel_iff] at hend
    obtain rfl : after = [] := List.length_eq_zero_iff.mp (Nat.succ_injective hend).symm
    rfl
  · rfl

/-- The condition on a backspace, from the point where the deleted character stands. -/
theorem backspaceKeepsLayout_iff (before after : List DrawnCharacter) (ch : DrawnCharacter)
    (p : Point) :
    BackspaceKeepsLayout setup ⟨before ++ ch :: after, ⟨before.length + 1, p⟩⟩ ↔
      ∀ k < after.length, '\n' ∉ (ch.value :: after.map DrawnCharacter.value).take k →
        layout setup (layout setup Point.zero (before.map DrawnCharacter.value))
            ((after.map DrawnCharacter.value).take k) =
          layout setup (layout setup Point.zero (before.map DrawnCharacter.value))
            ((ch.value :: after.map DrawnCharacter.value).take k) := by
  unfold BackspaceKeepsLayout
  have hbefore : (before.map DrawnCharacter.value).length = before.length := List.length_map _
  have hafter : (after.map DrawnCharacter.value).length = after.length := List.length_map _
  rw [values_append, List.map_cons, Nat.add_sub_cancel, ← hbefore, ← hafter]
  generalize before.map DrawnCharacter.value = b, after.map DrawnCharacter.value = a
  have hget : (b ++ ch.value :: a)[b.length]? = some ch.value := by
    rw [List.getElem?_append_right le_rfl, Nat.sub_self]
    rfl
  have hdrop : (b ++ ch.value :: a).drop (b.length + 1) = a := by
    rw [List.drop_length_add_append, List.drop_one, List.tail_cons]
  have htake : ∀ k, (b ++ ch.value :: a).take (b.length + 1 + k) =
      b ++ ch.value :: a.take k := by
    intro k
    rw [Nat.add_assoc, List.take_length_add_append, Nat.add_comm 1 k, List.take_succ_cons]
  have hlength : (b ++ ch.value :: a).length = b.length + 1 + a.length := by
    rw [List.length_append, List.length_cons, Nat.add_assoc, Nat.add_comm 1]
  rw [hget, hdrop, List.take_left, hlength]
  simp only [htake, layout_append, Option.some.injEq]
  constructor
  · rintro (hzero | hnewline | hall) k hk hnot
    · exact absurd hzero (Nat.succ_ne_zero _)
    · cases k with
      | zero => rfl
      | succ k => exact absurd (List.mem_cons.mpr (Or.inl hnewline.symm)) hnot
    · cases k with
      | zero => rfl
      | succ k =>
        exact hall k (by omega) fun hmem => hnot (List.mem_cons_of_mem _ hmem)
  · intro h
    by_cases hnewline : ch.value = '\n'
    · exact Or.inr (Or.inl hnewline)
    · refine Or.inr (Or.inr fun k hk hnot => h (k + 1) (by omega) fun hmem => ?_)
      rcases List.mem_cons.mp hmem with heq | hmem
      · exact hnewline heq.symm
      · exact hnot hmem

theorem backspace_spec (before after : List DrawnCharacter) (ch : DrawnCharacter) (p : Point)
    (h : Sound setup ⟨before ++ ch :: after, ⟨before.length + 1, p⟩⟩) :
    ∃ t, step setup ⟨before ++ ch :: after, ⟨before.length + 1, p⟩⟩ .backspace = some t ∧
      Sound setup t ∧
      EditStep (State.values ⟨before ++ ch :: after, ⟨before.length + 1, p⟩⟩, before.length + 1)
        .backspace (t.values, t.cursorPos.index) ∧
      (LaidOut setup ⟨before ++ ch :: after, ⟨before.length + 1, p⟩⟩ →
        (LaidOut setup t ↔
          BackspaceKeepsLayout setup ⟨before ++ ch :: after, ⟨before.length + 1, p⟩⟩)) := by
  obtain ⟨hbefore, hrest⟩ := OneSize.append_iff.mp h.oneSize
  obtain ⟨hch, hafter⟩ := OneSize.cons_iff.mp hrest
  refine ⟨_, eraseCharAndUpdateCursor_eq before after ch p, ⟨?_, ?_⟩, ?_, fun hlaid => ?_⟩
  · rw [List.length_append]
    exact Nat.le_add_right _ _
  · exact OneSize.append_iff.mpr ⟨hbefore, shiftBack_oneSize hafter _⟩
  · have hvalues : State.values ⟨before ++ shiftBack setup after (ch :: after),
        ⟨before.length, pointAfterErase setup (before ++ after) before.length⟩⟩ =
        (State.values ⟨before ++ ch :: after, ⟨before.length + 1, p⟩⟩).eraseIdx
          before.length := by
      rw [values_append, values_append, List.map_cons, shiftBack_values,
        ← List.length_map DrawnCharacter.value, eraseIdx_append_length]
    rw [hvalues]
    exact EditStep.backspace _ _
  · -- the deleted character and the later ones stand in their places
    have hsplit : LaidOut setup ⟨before ++ ch :: after,
        ⟨before.length, layout setup Point.zero (before.map DrawnCharacter.value)⟩⟩ := by
      refine ⟨hlaid.characters, ?_⟩
      rw [values_append, take_values]
    obtain ⟨hb, -, hrest'⟩ := (laidOut_append_iff hbefore hrest).mp hsplit
    rw [pointAfterErase_eq after hbefore hb,
      laidOut_append_iff hbefore (shiftBack_oneSize hafter _), shiftBack_values]
    have hback := shiftBack_eq_iff hafter (layout setup Point.zero (before.map DrawnCharacter.value))
      (layout setup Point.zero (before.map DrawnCharacter.value)) ch.value
    rw [List.map_cons] at hrest'
    rw [← hrest'] at hback
    rw [backspaceKeepsLayout_iff, ← hback]
    exact ⟨fun h => h.2.2, fun h => ⟨hb, rfl, h⟩⟩

/-! #### A click -/

theorem closestChar_mem (mousePoint : Point) : ∀ (text : List DrawnCharacter) (i : ℕ)
    (closest : Option (δ × ℕ × DrawnCharacter)) {d : δ} {j : ℕ} {ch : DrawnCharacter},
    closestChar setup mousePoint i text closest = some (d, j, ch) →
    closest = some (d, j, ch) ∨ ∃ k, j = i + k ∧ text[k]? = some ch := by
  intro text
  induction text with
  | nil => exact fun i closest d j ch h => Or.inl h
  | cons c text ih =>
    intro i closest d j ch h
    rcases ih (i + 1) _ h with hnext | ⟨k, rfl, hk⟩
    · dsimp only at hnext
      split at hnext
      · exact Or.inl hnext
      · have hhere : ∀ d', some (d', i, c) = some (d, j, ch) →
            ∃ k, j = i + k ∧ (c :: text)[k]? = some ch := by
          intro d' heq
          cases heq
          exact ⟨0, rfl, rfl⟩
        split at hnext
        · exact Or.inr (hhere _ hnext)
        · split at hnext
          · exact Or.inr (hhere _ hnext)
          · exact Or.inl hnext
    · exact Or.inr ⟨k + 1, by omega, hk⟩

theorem getElem?_of_clicked {mousePoint : Point} (h : clicked setup s mousePoint = some (i, ch)) :
    s.text[i]? = some ch := by
  obtain ⟨⟨d, j, ch'⟩, hclosest, heq⟩ := Option.map_eq_some_iff.mp h
  cases heq
  rcases closestChar_mem mousePoint s.text 0 none hclosest with hnone | ⟨k, hk, hget⟩
  · cases hnone
  · rwa [hk, Nat.zero_add]

theorem laidOut_moved_iff (h : LaidOut setup s) (c : CursorPos) :
    LaidOut setup { s with cursorPos := c } ↔
      c.point = layout setup Point.zero (s.values.take c.index) :=
  ⟨fun h' => h'.cursor, fun h' => ⟨h.characters, h'⟩⟩

theorem layout_take_succ (hlaid : LaidOut setup s) (hget : s.text[i]? = some ch) :
    layout setup Point.zero (s.values.take (i + 1)) =
      setup.next ch.pos ch.value setup.fontSize := by
  have hvalue : s.values[i]? = some ch.value := by
    rw [State.values, List.getElem?_map, hget]
    rfl
  obtain ⟨hi, hv⟩ := List.getElem?_eq_some_iff.mp hvalue
  rw [← List.take_append_getElem hi, hv, layout_append, ← hlaid.characters i ch hget]
  rfl

theorem leftClick_spec (h : Sound setup s) (mousePoint scrollOffset : Point) :
    ∃ t, step setup s (.leftClick mousePoint scrollOffset) = some t ∧ Sound setup t ∧
      EditStep (s.values, s.cursorPos.index) (.leftClick mousePoint scrollOffset)
        (t.values, t.cursorPos.index) ∧
      (LaidOut setup s →
        (LaidOut setup t ↔ ClickKeepsLayout setup s mousePoint scrollOffset)) := by
  have hlength : s.values.length = s.text.length := List.length_map _
  refine ⟨_, rfl, ?_⟩
  unfold handleLeftClick ClickKeepsLayout
  by_cases hin : setup.contentFrame.contains mousePoint = true
  · rw [if_pos hin]
    cases hclicked : clicked setup s (textPoint setup mousePoint scrollOffset) with
    | none =>
      exact ⟨h, .leftClick _ _ _ _ _ (hlength ▸ h.index_le),
        fun hlaid => ⟨fun _ _ i ch hch => (by cases hch), fun _ => hlaid⟩⟩
    | some hit =>
      obtain ⟨i, ch⟩ := hit
      have hget := getElem?_of_clicked hclicked
      obtain ⟨hi, -⟩ := List.getElem?_eq_some_iff.mp hget
      dsimp only
      split
      · rename_i hpast
        refine ⟨⟨hi, h.oneSize⟩, .leftClick _ _ _ _ _ (hlength ▸ hi), fun hlaid => ?_⟩
        rw [laidOut_moved_iff hlaid]
        rw [layout_take_succ hlaid hget, h.oneSize ch (List.mem_of_getElem? hget)]
        constructor
        · intro heq _ i' ch' hch _
          cases hch
          exact heq.symm
        · exact fun heq => (heq hin i ch rfl hpast).symm
      · rename_i hpast
        refine ⟨⟨hi.le, h.oneSize⟩, .leftClick _ _ _ _ _ (hlength ▸ hi.le), fun hlaid => ?_⟩
        rw [laidOut_moved_iff hlaid]
        refine ⟨fun _ _ i' ch' hch hpast' => ?_, fun _ => hlaid.characters i ch hget⟩
        cases hch
        exact absurd hpast' hpast
  · rw [if_neg hin]
    exact ⟨h, .leftClick _ _ _ _ _ (hlength ▸ h.index_le),
      fun hlaid => ⟨fun _ hin' => absurd hin' hin, fun _ => hlaid⟩⟩

/-! ### Runs -/

theorem step_spec (h : Sound setup s) (e : Event) :
    ∃ t, step setup s e = some t ∧ Sound setup t ∧
      EditStep (s.values, s.cursorPos.index) e (t.values, t.cursorPos.index) ∧
      (LaidOut setup s → (LaidOut setup t ↔ KeepsLayout setup s e)) := by
  cases e with
  | insert ch =>
    obtain ⟨t, ht, hsound, hedit, hlaid⟩ := insert_spec h ch
    exact ⟨t, ht, hsound, hedit, fun hs => iff_of_true (hlaid hs) trivial⟩
  | backspace =>
    obtain ⟨before, after, p, rfl⟩ := h.exists_split
    rcases List.eq_nil_or_concat before with rfl | ⟨init, ch, rfl⟩
    · exact ⟨_, rfl, h, .backspaceAtStart _, fun hs => iff_of_true hs (Or.inl rfl)⟩
    · rw [List.concat_eq_append, ← List.append_cons, List.length_append, List.length_singleton]
        at h ⊢
      exact backspace_spec init after ch p h
  | leftClick mousePoint scrollOffset => exact leftClick_spec h mousePoint scrollOffset
  | clear =>
    refine ⟨⟨[], ⟨0, Point.zero⟩⟩, rfl, ⟨le_rfl, fun ch hch => by cases hch⟩, .clear _ _,
      fun _ => iff_of_true ⟨fun k ch hk => (by cases hk), rfl⟩ trivial⟩

theorem run_edits : ∀ (events : List Event) {s : State}, Sound setup s →
    ∃ t, run (step setup) s events = some t ∧ Sound setup t ∧
      EditRun (s.values, s.cursorPos.index) events (t.values, t.cursorPos.index) := by
  intro events
  induction events with
  | nil => exact fun {s} h => ⟨s, rfl, h, .nil _⟩
  | cons e events ih =>
    intro s h
    obtain ⟨u, hu, hsound, hedit, -⟩ := step_spec h e
    obtain ⟨t, ht, hsound', hedits⟩ := ih hsound
    exact ⟨t, run_cons_eq_some.mpr ⟨u, hu, ht⟩, hsound', .cons hedit hedits⟩

theorem sound_start : Sound setup start := ⟨le_rfl, fun ch hch => by cases hch⟩

theorem laidOut_start : LaidOut setup start := ⟨fun k ch hk => (by cases hk), rfl⟩

theorem step_keeps (s : State) (e : Event) (t : State) (hs : Sound setup s ∧ LaidOut setup s)
    (hkeeps : KeepsLayout setup s e) (ht : step setup s e = some t) :
    Sound setup t ∧ LaidOut setup t := by
  obtain ⟨t', ht', hsound, -, hlaid⟩ := step_spec hs.1 e
  rw [ht] at ht'
  cases ht'
  exact ⟨hsound, (hlaid hs.2).mpr hkeeps⟩

/-- **A text view has the text of the list edits, and is laid out at all times if and only if its
edits keep the layout (proved).** -/
theorem textView_iff (setup : Setup δ) (events : List Event) :
    (∀ done, done <+: events → ∃ t, run (step setup) start done = some t ∧
        EditRun ([], 0) done (t.values, t.cursorPos.index) ∧
        t.cursorPos.index ≤ t.values.length) ∧
      ((∀ t, Passes (step setup) start events t → LaidOut setup t) ↔
        Meets (step setup) (KeepsLayout setup) start events) := by
  refine ⟨fun done _ => ?_, fun hpasses => ?_, fun hmeets t hpass => ?_⟩
  · have hstart : Sound setup start := sound_start
    obtain ⟨t, ht, hsound, hedits⟩ := run_edits done hstart
    exact ⟨t, ht, hedits, by rw [State.values, List.length_map]; exact hsound.index_le⟩
  · refine meets_of_passes (fun s e t hs _ hkeeps ht => step_keeps s e t hs hkeeps ht)
      ⟨sound_start, laidOut_start⟩ (Meets.trivial events start) hpasses fun s e hs _ hgood => ?_
    obtain ⟨t, ht, -, -, hlaid⟩ := step_spec hs.1 e
    exact (hlaid hs.2).mp (hgood t ht)
  · exact (passes_invariant step_keeps ⟨sound_start, laidOut_start⟩ hmeets hpass).2

end Edits

/-- A font of one width for all characters. -/
def monospaced : Setup ℤ where
  font := ⟨fun _ _ => 8, fun _ => 10⟩
  fontSize := ⟨8, 10⟩
  containerSize := ⟨100, 100⟩
  contentFrame := Rect.new 0 0 100 100
  distance p q := (p.x - q.x) ^ 2 + (p.y - q.y) ^ 2
  closer a b := a < b
  sevenTenths w := 7 * w / 10

/-- A backspace in front of a newline leaves the character behind the newline on its line. -/
theorem newline_leftBehind : ∃ t, run (step monospaced) start
    [.insert 'a', .insert 'b', .insert '\n', .insert 'c', .leftClick ⟨7, 10⟩ ⟨0, 0⟩, .backspace] =
      some t ∧ ¬LaidOut monospaced t := by
  refine ⟨⟨[⟨'b', ⟨0, 0⟩, ⟨8, 10⟩⟩, ⟨'\n', ⟨8, 0⟩, ⟨8, 10⟩⟩, ⟨'c', ⟨16, 0⟩, ⟨8, 10⟩⟩],
    ⟨0, ⟨0, 0⟩⟩⟩, by decide +kernel, fun h => ?_⟩
  have hpos : (⟨16, 0⟩ : Point) = ⟨0, 10⟩ := h.characters 2 ⟨'c', ⟨16, 0⟩, ⟨8, 10⟩⟩ rfl
  exact absurd hpos (by decide)

end Axle.Libgui.TextView
