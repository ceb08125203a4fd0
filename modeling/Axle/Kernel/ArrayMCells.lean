import Axle.Kernel.ArrayM
import Axle.Lib.StepRun
import Mathlib.Tactic

/-!
# The cells behind `array_m`

`ArrayM` is the list that an `array_m` stands for.  Here is the record as `std/array_m.c` has it:
memory from `array` on, of which `calloc` has given it the first `max_size` cells, and the number
of cells in use.  A failed assertion stops the kernel: `none`.

* `CellArray.next` — one call, with the indexes it accesses and what it returns;
* `listNext` — the same call on the list;
* `CellArray.refines_iff` — **PROVED**: every run gives the list its calls give, and it stays
  within the cells if and only if no removal finds the array full.

The loop of a removal copies `array[i + 1]` also for the last `i`, so that one from a full array
reads the cell behind the block.
-/

namespace Axle.Kernel

open Function
open Axle.Lib.StepRun

variable {α : Type}

inductive ArrayCall (α : Type) where
  | insert (item : α)
  | remove (i : ℤ)
  | lookup (i : ℤ)
  deriving DecidableEq, Repr

/-- The record, the indexes accessed so far, and what the lookups have returned. -/
structure CellArray (α : Type) where
  array : ℕ → α
  size : ℕ
  maxSize : ℤ
  accessed : List ℕ
  found : List α

namespace CellArray

def create (memory : ℕ → α) (maxSize : ℤ) : CellArray α := ⟨memory, 0, maxSize, [], []⟩

/-- `array[i] = array[i + 1]` -/
def copyBack (a : CellArray α) (i : ℕ) : CellArray α :=
  { a with array := update a.array i (a.array (i + 1)), accessed := a.accessed ++ [i + 1, i] }

/-- The loop of `_array_m_remove_unlocked`, by the number of its rounds. -/
def shiftBack : ℕ → CellArray α → ℕ → CellArray α
  | 0, a, _ => a
  | rounds + 1, a, i => shiftBack rounds (a.copyBack i) (i + 1)

def insertUnlocked (a : CellArray α) (item : α) : Option (CellArray α) :=
  if (a.size : ℤ) + 1 ≤ a.maxSize then
    some { a with
      array := update a.array a.size item
      size := a.size + 1
      accessed := a.accessed ++ [a.size] }
  else none

def lookupUnlocked (a : CellArray α) (i : ℤ) : Option (CellArray α) :=
  if i < a.size ∧ i ≥ 0 then
    some { a with
      accessed := a.accessed ++ [i.toNat]
      found := a.found ++ [a.array i.toNat] }
  else none

def removeUnlocked (a : CellArray α) (i : ℤ) : Option (CellArray α) :=
  if i ≥ a.size then none
  else if i < 0 then none
  else some { shiftBack (a.size - i.toNat) a i.toNat with size := a.size - 1 }

def next (a : CellArray α) : ArrayCall α → Option (CellArray α)
  | .insert item => a.insertUnlocked item
  | .remove i => a.removeUnlocked i
  | .lookup i => a.lookupUnlocked i

/-- The cells in use. -/
def live (a : CellArray α) : List α := (List.range a.size).map a.array

def Within (a : CellArray α) : Prop := ∀ j ∈ a.accessed, (j : ℤ) < a.maxSize

/-- A removal finds a cell that is not in use. -/
def SparesLast (a : CellArray α) : ArrayCall α → Prop
  | .remove _ => (a.size : ℤ) < a.maxSize
  | _ => True

end CellArray

/-- A call on the list, with what the lookups have returned. -/
def listNext (t : ArrayM α × List α) : ArrayCall α → Option (ArrayM α × List α)
  | .insert item => (t.1.insert item).map fun b => (b, t.2)
  | .remove i => if i < 0 then none else (t.1.remove i.toNat).map fun b => (b, t.2)
  | .lookup i => if i < 0 then none else (t.1.lookup i.toNat).map fun x => (t.1, t.2 ++ [x])

namespace CellArray

/-! ### The loop of a removal -/

theorem shiftBack_record (rounds : ℕ) (a : CellArray α) (i : ℕ) :
    (shiftBack rounds a i).maxSize = a.maxSize ∧ (shiftBack rounds a i).found = a.found := by
  induction rounds generalizing a i with
  | zero => exact ⟨rfl, rfl⟩
  | succ rounds ih => exact ih (a.copyBack i) (i + 1)

theorem shiftBack_array (rounds : ℕ) (a : CellArray α) (i j : ℕ) :
    (shiftBack rounds a i).array j =
      if i ≤ j ∧ j < i + rounds then a.array (j + 1) else a.array j := by
  induction rounds generalizing a i with
  | zero => rw [shiftBack, if_neg (by omega)]
  | succ rounds ih =>
    simp only [shiftBack, ih, copyBack]
    by_cases hj : j = i
    · subst hj
      rw [if_neg (by omega), if_pos (by omega), update_self]
    · rw [update_of_ne hj]
      by_cases hij : i ≤ j
      · rw [update_of_ne (by omega)]
        exact if_congr (by omega) rfl rfl
      · rw [if_neg (by omega), if_neg (by omega)]

theorem mem_shiftBack_accessed (rounds : ℕ) (a : CellArray α) (i j : ℕ) :
    j ∈ (shiftBack rounds a i).accessed ↔
      j ∈ a.accessed ∨ (0 < rounds ∧ i ≤ j ∧ j ≤ i + rounds) := by
  induction rounds generalizing a i with
  | zero => simp [shiftBack]
  | succ rounds ih =>
    rw [shiftBack, ih, copyBack]
    simp only [List.mem_append, List.mem_cons, List.not_mem_nil, or_false, or_assoc]
    refine or_congr_right ?_
    omega

/-! ### One call -/

/-- The record stands for the list. -/
structure Refines (a : CellArray α) (t : ArrayM α × List α) : Prop where
  live : a.live = t.1.items
  found : a.found = t.2
  maxSize : t.1.maxSize = a.maxSize.toNat

theorem Refines.size {a : CellArray α} {t : ArrayM α × List α} (h : Refines a t) :
    t.1.items.length = a.size := by
  rw [← h.live, CellArray.live, List.length_map, List.length_range]

theorem Refines.size_le {a : CellArray α} {t : ArrayM α × List α} (h : Refines a t) :
    a.size ≤ a.maxSize.toNat := h.size ▸ h.maxSize ▸ t.1.size_le

theorem Refines.getElem? {a : CellArray α} {t : ArrayM α × List α} (h : Refines a t) {i : ℕ}
    (hi : i < a.size) : t.1.items[i]? = some (a.array i) := by
  rw [← h.live, CellArray.live, List.getElem?_map, List.getElem?_range hi, Option.map_some]

theorem create_refines (memory : ℕ → α) (maxSize : ℤ) :
    Refines (create memory maxSize) (ArrayM.create maxSize.toNat, []) := ⟨rfl, rfl, rfl⟩

variable {a b : CellArray α} {t : ArrayM α × List α}

theorem Refines.insert {item : α} (h : Refines a t) (hb : a.insertUnlocked item = some b) :
    ∃ u, listNext t (.insert item) = some u ∧ Refines b u ∧ b.maxSize = a.maxSize ∧
      (b.Within ↔ a.Within) := by
  unfold insertUnlocked at hb
  split at hb
  case isFalse => cases hb
  case isTrue hlt =>
    obtain rfl := (Option.some.inj hb).symm
    have hroom : t.1.items.length < t.1.maxSize := by
      rw [h.size, h.maxSize]
      omega
    obtain ⟨c, hc, hitems, hmax⟩ := ArrayM.exists_insert item hroom
    refine ⟨(c, t.2), by rw [listNext, hc, Option.map_some], ⟨?_, h.found, hmax.trans h.maxSize⟩,
      rfl, ?_⟩
    · rw [hitems, ← h.live, CellArray.live, CellArray.live, List.range_succ, List.map_append]
      congr 1
      · refine List.map_congr_left fun j hj => update_of_ne ?_ _ _
        exact (List.mem_range.mp hj).ne
      · simp only [List.map_singleton, update_self]
    · simp only [Within, List.forall_mem_append, List.forall_mem_singleton, and_iff_left_iff_imp]
      omega

theorem Refines.lookup {i : ℤ} (h : Refines a t) (hb : a.lookupUnlocked i = some b) :
    ∃ u, listNext t (.lookup i) = some u ∧ Refines b u ∧ b.maxSize = a.maxSize ∧
      (b.Within ↔ a.Within) := by
  unfold lookupUnlocked at hb
  split at hb
  case isFalse => cases hb
  case isTrue hi =>
    obtain rfl := (Option.some.inj hb).symm
    have hget := h.getElem? (i := i.toNat) (by omega)
    have hsize := h.size_le
    refine ⟨(t.1, t.2 ++ [a.array i.toNat]), ?_, ⟨h.live, by rw [h.found], h.maxSize⟩, rfl, ?_⟩
    · rw [listNext, if_neg (by omega), ArrayM.lookup, hget, Option.map_some]
    · simp only [Within, List.forall_mem_append, List.forall_mem_singleton, and_iff_left_iff_imp]
      omega

/-- The last round of the loop reads the cell at `size`. -/
theorem Refines.remove {i : ℤ} (h : Refines a t) (hb : a.removeUnlocked i = some b) :
    ∃ u, listNext t (.remove i) = some u ∧ Refines b u ∧ b.maxSize = a.maxSize ∧
      (b.Within ↔ a.Within ∧ (a.size : ℤ) < a.maxSize) := by
  unfold removeUnlocked at hb
  split at hb
  case isTrue => cases hb
  case isFalse hlt =>
    split at hb
    case isTrue => cases hb
    case isFalse hnonneg =>
      obtain rfl := (Option.some.inj hb).symm
      obtain ⟨hmax, hfound⟩ := shiftBack_record (a.size - i.toNat) a i.toNat
      obtain ⟨c, hc, hitems, hcmax⟩ := ArrayM.exists_remove (a := t.1) (i := i.toNat)
        (by rw [h.size]; omega)
      refine ⟨(c, t.2), by rw [listNext, if_neg hnonneg, hc, Option.map_some],
        ⟨?_, hfound.trans h.found, ?_⟩, hmax, ?_⟩
      · refine List.ext_getElem? fun j => ?_
        rw [hitems, CellArray.live, List.getElem?_map, List.getElem?_eraseIdx]
        by_cases hj : j < a.size - 1
        · rw [List.getElem?_range hj, Option.map_some, shiftBack_array]
          by_cases hij : j < i.toNat
          · rw [if_neg (by omega), if_pos hij, h.getElem? (by omega)]
          · rw [if_pos (by omega), if_neg hij, h.getElem? (by omega)]
        · have hlen := h.size
          rw [List.getElem?_eq_none (by simpa using hj), Option.map_none, if_neg (by omega),
            List.getElem?_eq_none (by omega)]
      · rw [hcmax, h.maxSize]
        exact congrArg Int.toNat hmax.symm
      · have hacc := mem_shiftBack_accessed (a.size - i.toNat) a i.toNat
        simp only [Within, hacc, hmax]
        constructor
        · intro hw
          exact ⟨fun j hj => hw j (Or.inl hj), hw a.size (Or.inr (by omega))⟩
        · rintro ⟨hw, hfree⟩ j (hj | hj)
          · exact hw j hj
          · omega

theorem Refines.next {call : ArrayCall α} (h : Refines a t) (hb : a.next call = some b) :
    ∃ u, listNext t call = some u ∧ Refines b u ∧ b.maxSize = a.maxSize ∧
      (b.Within ↔ a.Within ∧ a.SparesLast call) := by
  cases call with
  | insert item => simpa only [SparesLast, and_true] using h.insert hb
  | remove i => exact h.remove hb
  | lookup i => simpa only [SparesLast, and_true] using h.lookup hb

/-! ### All calls -/

theorem Refines.run : ∀ {calls : List (ArrayCall α)} {a b : CellArray α} {t : ArrayM α × List α},
    Refines a t → run CellArray.next a calls = some b →
      ∃ u, run listNext t calls = some u ∧ Refines b u ∧ b.maxSize = a.maxSize ∧
        (b.Within ↔ a.Within ∧ Meets CellArray.next SparesLast a calls) := by
  intro calls
  induction calls with
  | nil =>
    intro a b t h hrun
    obtain rfl := Option.some.inj hrun
    exact ⟨t, rfl, h, rfl, (and_iff_left True.intro).symm⟩
  | cons call calls ih =>
    intro a b t h hrun
    obtain ⟨c, hc, hrest⟩ := run_cons_eq_some.mp hrun
    obtain ⟨u, hu, hcu, hcmax, hwithin⟩ := h.next hc
    obtain ⟨v, hv, hbv, hbmax, hiff⟩ := ih hcu hrest
    refine ⟨v, run_cons_eq_some.mpr ⟨u, hu, hv⟩, hbv, hbmax.trans hcmax, hiff.trans ?_⟩
    rw [hwithin, and_assoc]
    refine and_congr_right fun _ => and_congr_right fun _ => ?_
    exact ⟨fun hm d hd => Option.some.inj (hc.symm.trans hd) ▸ hm, fun hm => hm c hc⟩

/-- In every run whose calls all pass their checks, the cells in use are the list that the calls
give, the lookups return its items, and no index at or beyond `maxSize` is accessed if and only
if no removal finds the array full. -/
theorem refines_iff (memory : ℕ → α) (maxSize : ℤ) (calls : List (ArrayCall α)) (b : CellArray α)
    (hrun : run CellArray.next (create memory maxSize) calls = some b) :
    (∃ u, run listNext (ArrayM.create maxSize.toNat, []) calls = some u ∧
        b.live = u.1.items ∧ b.found = u.2 ∧ ∀ j ∈ b.accessed, (j : ℤ) < maxSize) ↔
      Meets CellArray.next SparesLast (create memory maxSize) calls := by
  obtain ⟨u, hu, hbu, hmax, hiff⟩ := (create_refines memory maxSize).run hrun
  rw [Within, hmax] at hiff
  have hnone : (create memory maxSize).Within := fun j hj => absurd hj List.not_mem_nil
  constructor
  · rintro ⟨-, -, -, -, hwithin⟩
    exact (hiff.mp hwithin).2
  · intro hmeets
    exact ⟨u, hu, hbu.live, hbu.found, hiff.mpr ⟨hnone, hmeets⟩⟩

/-- Two items in an array of three, the first removed, and the other looked up. -/
theorem refines_iff_spare :
    ∃ b u, run CellArray.next (create (fun _ => 0) 3)
        [.insert 5, .insert 7, .remove 0, .lookup 0] = some b ∧
      run listNext (ArrayM.create 3, []) [.insert 5, .insert 7, .remove 0, .lookup 0] = some u ∧
        b.live = u.1.items ∧ b.found = u.2 ∧ ∀ j ∈ b.accessed, (j : ℤ) < 3 := by
  obtain ⟨b, hb⟩ := Option.isSome_iff_exists.mp
    (show (run CellArray.next (create (fun _ => 0) 3)
      [.insert 5, .insert 7, .remove 0, .lookup 0]).isSome = true by decide +kernel)
  obtain ⟨u, hu⟩ := (refines_iff (fun _ => 0) 3 [.insert 5, .insert 7, .remove 0, .lookup 0] b
    hb).mpr ⟨True.intro, fun c hc => ⟨True.intro, fun d hd => by
      obtain rfl := (Option.some.inj hc).symm
      obtain rfl := (Option.some.inj hd).symm
      exact ⟨show ((2 : ℕ) : ℤ) < 3 by decide, fun _ _ => ⟨True.intro, fun _ _ => True.intro⟩⟩⟩⟩
  exact ⟨b, u, hb, hu⟩

/-- The only item of an array of one: its removal reads the cell behind it. -/
theorem removed_from_full :
    ∃ b, run CellArray.next (create (fun _ => 0) 1) [.insert 5, .remove 0] = some b ∧
      ∃ j ∈ b.accessed, ¬ (j : ℤ) < 1 :=
  ⟨_, rfl, 1, by decide, by decide⟩

end CellArray

end Axle.Kernel
