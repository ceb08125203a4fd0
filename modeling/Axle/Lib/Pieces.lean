import Mathlib.Data.List.Forall2

/-!
# A list cut into pieces

A list that was put together from pieces, and where each piece stands in it.

* `forall₂_of_mapM` — the pieces are made one by one;
* `start` — where piece `k` begins;
* `drop_start` — what stands there;
* `start_lt_start` — the pieces stand in order, if none is empty;
* `start_eq_start` — so that a position determines the piece that begins there;
* `getElem?_filter`, `exists_of_getElem?_filter` — the places of items in the list of those kept;
* `exists_block` — items next to each other, cut out of their list.

Nothing here is about a particular program.
-/

namespace Axle.Lib.Pieces

theorem forall₂_of_mapM {ι β : Type*} {f : ι → Option β} :
    ∀ {items : List ι} {made : List β}, items.mapM f = some made →
      List.Forall₂ (fun item b => f item = some b) items made := by
  intro items
  induction items with
  | nil =>
    intro made h
    obtain rfl : made = [] := by simpa using h.symm
    exact .nil
  | cons item items ih =>
    intro made h
    rw [List.mapM_cons] at h
    obtain ⟨b, hb, h⟩ := Option.bind_eq_some_iff.mp h
    obtain ⟨rest, hrest, h⟩ := Option.bind_eq_some_iff.mp h
    obtain rfl : b :: rest = made := Option.some.inj h
    exact .cons hb (ih hrest)

variable {α : Type*}

/-- Where the piece number `k` begins. -/
def start (pieces : List (List α)) (k : ℕ) : ℕ := (pieces.take k).flatten.length

variable {pieces : List (List α)} {piece before : List α} {k l : ℕ}

@[simp] theorem start_zero (pieces : List (List α)) : start pieces 0 = 0 := by
  simp [start]

theorem start_succ (h : pieces[k]? = some piece) :
    start pieces (k + 1) = start pieces k + piece.length := by
  obtain ⟨hk, hget⟩ := List.getElem?_eq_some_iff.mp h
  rw [start, start, List.take_succ_eq_append_getElem hk, List.flatten_append, List.length_append,
    hget]
  simp

theorem start_cons_succ (piece : List α) (pieces : List (List α)) (k : ℕ) :
    start (piece :: pieces) (k + 1) = piece.length + start pieces k := by
  simp [start]

theorem start_length (pieces : List (List α)) :
    start pieces pieces.length = pieces.flatten.length := by
  rw [start, List.take_length]

/-- What stands where a piece begins: the piece, and the pieces after it. -/
theorem drop_start (h : pieces[k]? = some piece) (before : List α) :
    (before ++ pieces.flatten).drop (before.length + start pieces k) =
      piece ++ (pieces.drop (k + 1)).flatten := by
  have hsplit : pieces.flatten = (pieces.take k).flatten ++ (pieces.drop k).flatten := by
    rw [← List.flatten_append, List.take_append_drop]
  obtain ⟨hk, hget⟩ := List.getElem?_eq_some_iff.mp h
  rw [List.drop_append, List.drop_eq_nil_of_le (Nat.le_add_right _ _), Nat.add_sub_cancel_left,
    hsplit, start, List.drop_left, List.drop_eq_getElem_cons hk, hget]
  simp

theorem start_mono (pieces : List (List α)) (h : k ≤ l) : start pieces k ≤ start pieces l := by
  obtain ⟨d, rfl⟩ := Nat.exists_eq_add_of_le h
  rw [start, start, List.take_add, List.flatten_append, List.length_append]
  exact Nat.le_add_right _ _

section Nonempty

variable (hne : ∀ piece ∈ pieces, piece ≠ [])

include hne

theorem start_lt_start (h : k < l) (hl : l ≤ pieces.length) : start pieces k < start pieces l := by
  have hk : k < pieces.length := by omega
  have hpos : 0 < pieces[k].length :=
    List.length_pos_iff.mpr (hne _ (List.getElem_mem hk))
  have hsucc := start_succ (List.getElem?_eq_getElem hk)
  have hle : start pieces (k + 1) ≤ start pieces l := start_mono pieces h
  omega

/-- No two pieces begin at the same position. -/
theorem start_eq_start (hk : k ≤ pieces.length) (hl : l ≤ pieces.length)
    (h : start pieces k = start pieces l) : k = l := by
  rcases Nat.lt_trichotomy k l with hlt | heq | hlt
  · exact absurd h (Nat.ne_of_lt (start_lt_start hne hlt hl))
  · exact heq
  · exact absurd h.symm (Nat.ne_of_lt (start_lt_start hne hlt hk))

end Nonempty

/-! ### What is kept of a list -/

section Filter

variable {p : α → Bool} {x : α} {i : ℕ}

theorem getElem?_filter : ∀ {items : List α} {i : ℕ}, items[i]? = some x → p x = true →
    (items.filter p)[(items.take i).countP p]? = some x := by
  intro items
  induction items with
  | nil => exact fun h => absurd h (by simp)
  | cons y items ih =>
    intro i hi hx
    cases i with
    | zero =>
      obtain rfl : y = x := by simpa using hi
      rw [List.filter_cons, if_pos hx]
      rfl
    | succ i =>
      have hrest := ih (by simpa using hi) hx
      rw [List.take_succ_cons, List.countP_cons, List.filter_cons]
      split
      · simpa using hrest
      · simpa using hrest

theorem exists_of_getElem?_filter : ∀ {items : List α} {k : ℕ}, (items.filter p)[k]? = some x →
    ∃ i, items[i]? = some x ∧ (items.take i).countP p = k := by
  intro items
  induction items with
  | nil => exact fun h => absurd h (by simp)
  | cons y items ih =>
    intro k hk
    rw [List.filter_cons] at hk
    split at hk
    · rename_i hy
      cases k with
      | zero => exact ⟨0, by simpa using hk, rfl⟩
      | succ k =>
        obtain ⟨i, hi, hcount⟩ := ih (by simpa using hk)
        exact ⟨i + 1, by simpa using hi, by simp [hy, hcount]⟩
    · rename_i hy
      obtain ⟨i, hi, hcount⟩ := ih hk
      exact ⟨i + 1, by simpa using hi, by simp [hy, hcount]⟩

/-- Items with a property that are next to each other form a block. -/
theorem exists_block (p : α → Bool) : ∀ items : List α,
    (∀ (k l m : ℕ) (a b d : α), k < l → l < m → items[k]? = some a → items[l]? = some b →
      items[m]? = some d → p a = true → p d = true → p b = true) →
    ∃ before block after, items = before ++ (block ++ after) ∧ (∀ x ∈ before, p x = false) ∧
      (∀ x ∈ block, p x = true) ∧ ∀ x ∈ after, p x = false := by
  intro items
  induction items with
  | nil => exact fun _ => ⟨[], [], [], rfl, by simp, by simp, by simp⟩
  | cons x items ih =>
    intro h
    obtain ⟨before, block, after, rfl, hbefore, hblock, hafter⟩ :=
      ih fun k l m a b d hkl hlm ha hb hd => h (k + 1) (l + 1) (m + 1) a b d
        (Nat.succ_lt_succ hkl) (Nat.succ_lt_succ hlm) (by simpa using ha) (by simpa using hb)
        (by simpa using hd)
    cases hx : p x with
    | false =>
      refine ⟨x :: before, block, after, rfl, ?_, hblock, hafter⟩
      exact List.forall_mem_cons.mpr ⟨hx, hbefore⟩
    | true =>
      cases before with
      | nil =>
        refine ⟨[], x :: block, after, rfl, by simp, ?_, hafter⟩
        exact List.forall_mem_cons.mpr ⟨hx, hblock⟩
      | cons b before =>
        -- what follows `b` cannot have the property again
        have hempty : block = [] := by
          cases block with
          | nil => rfl
          | cons d block =>
            have hd : (x :: (b :: before ++ (d :: block ++ after)))[before.length + 2]? = some d := by
              simp
            have := h 0 1 (before.length + 2) x b d (by omega) (by omega) rfl rfl hd hx
              (hblock d List.mem_cons_self)
            rw [hbefore b List.mem_cons_self] at this
            cases this
        subst hempty
        refine ⟨[], [x], b :: before ++ after, rfl, by simp, by simpa using hx, ?_⟩
        intro y hy
        rcases List.mem_append.mp hy with hy | hy
        · exact hbefore y hy
        · exact hafter y hy

end Filter

end Axle.Lib.Pieces
