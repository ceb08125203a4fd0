import Mathlib.Data.List.Basic
import Mathlib.Logic.Basic

/-!
# `array_m`, the kernel's bounded array

`std/array_m.c` is a heap block of `max_size` pointers and the number of them in use.  Every
list the kernel keeps (the scheduler's queues, the services, the pool of undeliverable messages,
the sleeping services) is one.  An insertion past `max_size` and an index past `size` fail an
assertion, which stops the kernel: `none` here.

The bound is a field, so an array that holds more than `maxSize` items cannot be built.
-/

namespace Axle.Kernel

/-- The live items, in index order. -/
structure ArrayM (α : Type) where
  items : List α
  maxSize : ℕ
  size_le : items.length ≤ maxSize
  deriving DecidableEq, Repr

namespace ArrayM

variable {α : Type}

def create (maxSize : ℕ) : ArrayM α := ⟨[], maxSize, Nat.zero_le _⟩

def size (a : ArrayM α) : ℕ := a.items.length

def insert (a : ArrayM α) (item : α) : Option (ArrayM α) :=
  if h : a.items.length + 1 ≤ a.maxSize then
    some ⟨a.items ++ [item], a.maxSize, by simpa using h⟩
  else none

def lookup (a : ArrayM α) (i : ℕ) : Option α := a.items[i]?

/-- Delete the item at `i`, moving every later one back by one place. -/
def remove (a : ArrayM α) (i : ℕ) : Option (ArrayM α) :=
  if i < a.items.length then
    some ⟨a.items.eraseIdx i, a.maxSize, Nat.le_trans (List.length_eraseIdx_le ..) a.size_le⟩
  else none

/-- The index of the first item equal to `item`; the source returns `-1` for `none`. -/
def index [DecidableEq α] (a : ArrayM α) (item : α) : Option ℕ := a.items.idxOf? item

/-- A store through the pointer kept at index `i`: the array itself keeps its shape. -/
def store (a : ArrayM α) (i : ℕ) (item : α) : ArrayM α :=
  ⟨a.items.set i item, a.maxSize, by simpa using a.size_le⟩

@[simp] theorem create_items (maxSize : ℕ) : (create maxSize : ArrayM α).items = [] := rfl

@[simp] theorem create_maxSize (maxSize : ℕ) :
    (create maxSize : ArrayM α).maxSize = maxSize := rfl

@[simp] theorem store_items (a : ArrayM α) (i : ℕ) (item : α) :
    (a.store i item).items = a.items.set i item := rfl

@[simp] theorem store_maxSize (a : ArrayM α) (i : ℕ) (item : α) :
    (a.store i item).maxSize = a.maxSize := rfl

variable {a b : ArrayM α} {item old x : α} {i : ℕ}

theorem insert_eq_some :
    a.insert item = some b ↔
      a.items.length + 1 ≤ a.maxSize ∧ b.items = a.items ++ [item] ∧ b.maxSize = a.maxSize := by
  unfold insert
  split
  · rename_i h
    obtain ⟨items, maxSize, hle⟩ := b
    simp only [Option.some.injEq, mk.injEq, h, true_and]
    constructor
    · rintro ⟨rfl, rfl⟩
      exact ⟨rfl, rfl⟩
    · rintro ⟨rfl, rfl⟩
      exact ⟨rfl, rfl⟩
  · rename_i h
    exact iff_of_false (fun hb => by cases hb) (fun hb => h hb.1)

theorem exists_insert (item : α) (h : a.items.length < a.maxSize) :
    ∃ b, a.insert item = some b ∧ b.items = a.items ++ [item] ∧ b.maxSize = a.maxSize := by
  refine ⟨⟨a.items ++ [item], a.maxSize, by simpa using Nat.succ_le_of_lt h⟩, ?_, rfl, rfl⟩
  exact insert_eq_some.mpr ⟨h, rfl, rfl⟩

theorem remove_eq_some :
    a.remove i = some b ↔
      i < a.items.length ∧ b.items = a.items.eraseIdx i ∧ b.maxSize = a.maxSize := by
  unfold remove
  split
  · rename_i h
    obtain ⟨items, maxSize, hle⟩ := b
    simp only [Option.some.injEq, mk.injEq, h, true_and]
    constructor
    · rintro ⟨rfl, rfl⟩
      exact ⟨rfl, rfl⟩
    · rintro ⟨rfl, rfl⟩
      exact ⟨rfl, rfl⟩
  · rename_i h
    exact iff_of_false (fun hb => by cases hb) (fun hb => h hb.1)

theorem exists_remove (h : i < a.items.length) :
    ∃ b, a.remove i = some b ∧ b.items = a.items.eraseIdx i ∧ b.maxSize = a.maxSize :=
  ⟨⟨a.items.eraseIdx i, a.maxSize, Nat.le_trans (List.length_eraseIdx_le ..) a.size_le⟩,
    remove_eq_some.mpr ⟨h, rfl, rfl⟩, rfl, rfl⟩

theorem index_eq_some [DecidableEq α] (h : a.index item = some i) : a.items[i]? = some item := by
  rw [index, List.idxOf?_eq_some_iff] at h
  obtain ⟨hlt, hget, -⟩ := h
  rw [List.getElem?_eq_getElem hlt, hget]

theorem mem_store_of_ne (hi : a.items[i]? = some old) (hx : x ∈ a.items) (hne : x ≠ old) :
    x ∈ (a.store i item).items := by
  obtain ⟨j, hj⟩ := List.getElem?_of_mem hx
  have hij : i ≠ j := by
    rintro rfl
    rw [hi] at hj
    exact hne (Option.some.inj hj).symm
  rw [store_items, List.mem_iff_getElem?]
  exact ⟨j, by rw [List.getElem?_set_ne hij]; exact hj⟩

theorem mem_remove_of_ne (hi : a.items[i]? = some old) (hb : a.remove i = some b) (hx : x ∈ a.items)
    (hne : x ≠ old) : x ∈ b.items := by
  obtain ⟨-, hitems, -⟩ := remove_eq_some.mp hb
  rw [hitems, List.mem_eraseIdx_iff_getElem?]
  obtain ⟨j, hj⟩ := List.getElem?_of_mem hx
  refine ⟨j, ?_, hj⟩
  rintro rfl
  rw [hi] at hj
  exact hne (Option.some.inj hj).symm

end ArrayM

/-- A store that keeps `f` of the element keeps `f` of the list. -/
theorem map_set_of_eq {α β : Type} {f : α → β} {l : List α} {i : ℕ} {a b : α}
    (hi : l[i]? = some a) (hf : f b = f a) : (l.set i b).map f = l.map f := by
  induction l generalizing i with
  | nil => cases hi
  | cons x xs ih =>
    cases i with
    | zero =>
      obtain rfl : x = a := by simpa using hi
      simp [hf]
    | succ i => simpa using ih (by simpa using hi)

end Axle.Kernel
