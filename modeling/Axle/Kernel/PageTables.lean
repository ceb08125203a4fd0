import Axle.Lib.RadixTable
import Mathlib.Algebra.Ring.Nat
import Mathlib.Data.List.Nodup

/-!
# The four-level page tables and the frames they are made of

A page-table entry is kept as the fields the code reads and writes (`present`, `writable`,
`user_mode` and the 40-bit base); a physical frame is named by its number, the frame address
divided by `PAGE_SIZE`, and the frames the tables live in are the ones `pmm_alloc` hands out.
Every frame can be read as a table, as the kernel does through its map of all of RAM.

`_map_region_4k_pages` and `_free_region_4k_pages` are one triple loop over directories, tables
and pages with different bodies: `regionDirectories`, `regionTables` and `regionPages` are that
loop, and a `RegionVisitor` is a body.  The loop bounds are computed as the code computes them,
so an index may leave its table; C gives that access no meaning and the model stops there with
`outOfBounds`.

* `regionWalk_holds` — **PROVED**: which pages the triple loop reaches, for any body;
* `regionWalk_fits` — **PROVED**: the loop leaves no table only when the region fits.
-/

namespace Axle.Kernel

open Axle.Lib

/-! ### Entries, frames and the frame allocator -/

/-- A physical frame number: what fits the 40-bit base field of an entry. -/
abbrev Frame := Fin (2 ^ 40)

/-- The fields of `pml4e_t`, `pdpe_t`, `pde_t` and `pte_t` that the code uses. -/
structure PageEntry where
  present : Bool
  writable : Bool
  userMode : Bool
  base : Frame
deriving DecidableEq, Repr

/-- An entry of a zero-filled frame. -/
def PageEntry.zero : PageEntry :=
  { present := false, writable := false, userMode := false, base := ⟨0, by decide⟩ }

/-- Where an entry leads. -/
def PageEntry.child (e : PageEntry) : Option Frame := if e.present then some e.base else none

inductive VasRangeAccess where
  | readOnly | readWrite
deriving DecidableEq, Repr

inductive VasRangePrivilege where
  | kernel | user
deriving DecidableEq, Repr

/-- How an operation can stop: the frame queue is empty, an `assert` or an `unwrap` fails, an
access leaves its table or array, or a loop does not end. -/
inductive Fault where
  | outOfFrames | panic | outOfBounds | hang
deriving DecidableEq, Repr

/-- Physical memory read as tables, and `FREE_FRAMES`. -/
structure PhysMem where
  tables : Frame → Fin 512 → PageEntry
  free : List Frame

/-- Store an entry. -/
def PhysMem.set (m : PhysMem) (table : Frame) (i : Fin 512) (e : PageEntry) : PhysMem where
  tables := RadixTable.write m.tables table i e
  free := m.free

/-- `MAX_FRAMES_ALLOCATOR_CAN_BOOKKEEP - 1`: a `heapless` queue of that size keeps one slot
empty. -/
def pmmCapacity : Nat := 4194303

/-- `pmm_alloc`: the oldest frame of the queue, filled with zeroes. -/
def pmmAlloc (m : PhysMem) : Except Fault (Frame × PhysMem) :=
  match m.free with
  | [] => .error .outOfFrames
  | f :: rest => .ok (f, { tables := RadixTable.fill m.tables f .zero, free := rest })

/-- `pmm_free`: `enqueue(..).unwrap()`. -/
def pmmFree (m : PhysMem) (f : Frame) : Except Fault PhysMem :=
  if m.free.length < pmmCapacity then .ok { m with free := m.free ++ [f] } else .error .panic

/-- The frame of a physical address, as a base field keeps it. -/
def frameOf (addr : Nat) : Frame := ⟨addr / 0x1000 % 2 ^ 40, Nat.mod_lt _ (by decide)⟩

def vmaPml4eIdx (addr : Nat) : Nat := (addr >>> 39) &&& 0x1ff
def vmaPdpeIdx (addr : Nat) : Nat := (addr >>> 30) &&& 0x1ff
def vmaPdeIdx (addr : Nat) : Nat := (addr >>> 21) &&& 0x1ff
def vmaPteIdx (addr : Nat) : Nat := (addr >>> 12) &&& 0x1ff

/-- An index into a table. -/
def tableIndex (i : Nat) : Except Fault (Fin 512) :=
  if h : i < 512 then .ok ⟨i, h⟩ else .error .outOfBounds

/-! ### The loop over a region -/

/-- What the two region functions do at a directory, at a table and at a page. -/
structure RegionVisitor where
  /-- PDPT and index to page directory. -/
  directory : PhysMem → Frame → Fin 512 → Except Fault (Frame × PhysMem)
  /-- Page directory, the index the directory was found at, and index to page table. -/
  table : PhysMem → Frame → Fin 512 → Fin 512 → Except Fault (Frame × PhysMem)
  /-- Page table, index and the physical address for this page. -/
  page : PhysMem → Frame → Fin 512 → Nat → Except Fault PhysMem

/-- The locals `remaining_size`, `current_frame` and `current_page`, with the memory. -/
structure Cursor where
  mem : PhysMem
  remainingSize : Nat
  currentFrame : Nat
  currentPage : Nat

/-- The end of the page loop's body: three `uint64_t` updates. -/
def Cursor.advance (c : Cursor) (m : PhysMem) : Cursor where
  mem := m
  remainingSize := (c.remainingSize + 2 ^ 64 - 0x1000) % 2 ^ 64
  currentFrame := (c.currentFrame + 0x1000) % 2 ^ 64
  currentPage := (c.currentPage + 0x1000) % 2 ^ 64

/-- `(remaining_size + (unit - 1)) / unit` in `uint64_t`. -/
def unitsNeeded (remainingSize unit : Nat) : Nat := (remainingSize + (unit - 1)) % 2 ^ 64 / unit

/-- The page loop, `pages_needed` iterations from `page_idx`. -/
def regionPages (v : RegionVisitor) (pageTable : Frame) :
    Nat → Nat → Cursor → Except Fault Cursor
  | 0, _, c => .ok c
  | n + 1, pageIdx, c => do
    let i ← tableIndex pageIdx
    let m ← v.page c.mem pageTable i c.currentFrame
    regionPages v pageTable n (pageIdx + 1) (c.advance m)

/-- The body of the table loop once the page table is at hand. -/
def regionTable (v : RegionVisitor) (pageTable : Frame) (c : Cursor) : Except Fault Cursor :=
  let firstPage := vmaPteIdx c.currentPage
  let pagesNeeded := min (unitsNeeded c.remainingSize 0x1000) (512 - firstPage)
  regionPages v pageTable pagesNeeded firstPage c

/-- The table loop, `page_tables_needed` iterations from `page_table_idx`. -/
def regionTables (v : RegionVisitor) (pageDirectory : Frame) (directoryIdx : Fin 512) :
    Nat → Nat → Cursor → Except Fault Cursor
  | 0, _, c => .ok c
  | n + 1, pageTableIdx, c => do
    let i ← tableIndex pageTableIdx
    let (pageTable, m) ← v.table c.mem pageDirectory directoryIdx i
    let c ← regionTable v pageTable { c with mem := m }
    regionTables v pageDirectory directoryIdx n (pageTableIdx + 1) c

/-- The body of the directory loop once the page directory is at hand. -/
def regionDirectory (v : RegionVisitor) (pageDirectory : Frame) (directoryIdx : Fin 512)
    (c : Cursor) : Except Fault Cursor :=
  let pageTablesNeeded := min (unitsNeeded c.remainingSize 0x200000) 512
  regionTables v pageDirectory directoryIdx pageTablesNeeded (vmaPdeIdx c.currentPage) c

/-- The directory loop, `page_directories_needed` iterations from `page_directory_idx`. -/
def regionDirectories (v : RegionVisitor) (pdpt : Frame) :
    Nat → Nat → Cursor → Except Fault Cursor
  | 0, _, c => .ok c
  | n + 1, pageDirectoryIdx, c => do
    let i ← tableIndex pageDirectoryIdx
    let (pageDirectory, m) ← v.directory c.mem pdpt i
    let c ← regionDirectory v pageDirectory i { c with mem := m }
    regionDirectories v pdpt n (pageDirectoryIdx + 1) c

/-- Everything the region functions do below the PML4 entry. -/
def regionWalk (v : RegionVisitor) (pdpt : Frame) (m : PhysMem) (vmemStart vmemSize physStart : Nat) :
    Except Fault Cursor :=
  let pageDirectoriesNeeded := min (unitsNeeded vmemSize 0x40000000) 512
  regionDirectories v pdpt pageDirectoriesNeeded (vmaPdpeIdx vmemStart)
    { mem := m, remainingSize := vmemSize, currentFrame := physStart, currentPage := vmemStart }

/-! ### Mapping and freeing a region -/

/-- Re-use the table an entry leads to, or allocate a zeroed one and install it writable or not;
either way the entry's `user_mode` becomes the one of this call. -/
def getOrCreate (m : PhysMem) (table : Frame) (i : Fin 512) (createdWritable userMode : Bool) :
    Except Fault (Frame × PhysMem) :=
  if (m.tables table i).present then
    .ok ((m.tables table i).base, m.set table i { m.tables table i with userMode })
  else do
    let (f, m) ← pmmAlloc m
    .ok (f, m.set table i { present := true, writable := createdWritable, userMode, base := f })

/-- `_pdpt_get_or_create`. -/
def pdptGetOrCreate (m : PhysMem) (pml4 : Frame) (vmemBase : Nat)
    (privilege : VasRangePrivilege) : Except Fault (Frame × PhysMem) := do
  let i ← tableIndex (vmaPml4eIdx vmemBase)
  getOrCreate m pml4 i true (privilege == .user)

/-- The body of `_map_region_4k_pages`.  A new page directory is writable when this call's access
type is; a new PDPT or page table always is. -/
def mapVisitor (access : VasRangeAccess) (privilege : VasRangePrivilege) : RegionVisitor where
  directory m pdpt i := getOrCreate m pdpt i (access == .readWrite) (privilege == .user)
  table m pageDirectory _ i := getOrCreate m pageDirectory i true (privilege == .user)
  page m pageTable i currentFrame := .ok (m.set pageTable i
    { present := true, writable := access == .readWrite, userMode := privilege == .user,
      base := frameOf currentFrame })

/-- `_map_region_4k_pages`. -/
def mapRegion4kPages (m : PhysMem) (pml4 : Frame) (vmemStart vmemSize physStart : Nat)
    (access : VasRangeAccess) (privilege : VasRangePrivilege) : Except Fault PhysMem := do
  let (pdpt, m) ← pdptGetOrCreate m pml4 vmemStart privilege
  let c ← regionWalk (mapVisitor access privilege) pdpt m vmemStart vmemSize physStart
  .ok c.mem

/-- `assert(present, ..)` on an entry, and its base. -/
def presentBase (e : PageEntry) : Except Fault Frame :=
  if e.present then .ok e.base else .error .panic

/-- `_pdpt_get`. -/
def pdptGet (m : PhysMem) (pml4 : Frame) (vmemBase : Nat) : Except Fault Frame := do
  let i ← tableIndex (vmaPml4eIdx vmemBase)
  presentBase (m.tables pml4 i)

/-- The body of `_free_region_4k_pages`.  The assertion on the page table looks at the page
directory's entry at `page_directory_idx`; the page table is then read from `page_table_idx`
whether that entry is present or not. -/
def freeVisitor : RegionVisitor where
  directory m pdpt i := do
    let pageDirectory ← presentBase (m.tables pdpt i)
    .ok (pageDirectory, m)
  table m pageDirectory pageDirectoryIdx i := do
    let _ ← presentBase (m.tables pageDirectory pageDirectoryIdx)
    .ok ((m.tables pageDirectory i).base, m)
  page m pageTable i _ := do
    let frame ← presentBase (m.tables pageTable i)
    pmmFree (m.set pageTable i { m.tables pageTable i with present := false }) frame

/-- `_free_region_4k_pages`. -/
def freeRegion4kPages (m : PhysMem) (pml4 : Frame) (vmemBase size : Nat) :
    Except Fault PhysMem := do
  let pdpt ← pdptGet m pml4 vmemBase
  let c ← regionWalk freeVisitor pdpt m vmemBase size 0
  .ok c.mem

/-! ### Outcomes -/

/-- What the operation returns, if it returns, satisfies `Q`; it stops with the faults `A` only. -/
def Holds {α : Type} (A : Fault → Prop) (r : Except Fault α) (Q : α → Prop) : Prop :=
  match r with
  | .ok a => Q a
  | .error e => A e

namespace Holds

variable {α β : Type} {A : Fault → Prop} {r : Except Fault α} {P Q : α → Prop}

theorem bind {f : α → Except Fault β} {Q : β → Prop} (h : Holds A r P)
    (hf : ∀ a, P a → Holds A (f a) Q) : Holds A (r >>= f) Q := by
  cases r with
  | ok a => exact hf a h
  | error e => exact h

theorem mono (h : Holds A r P) (hPQ : ∀ a, P a → Q a) : Holds A r Q := by
  cases r with
  | ok a => exact hPQ a h
  | error e => exact h

theorem of_ok {a : α} (h : Holds A r P) (hr : r = .ok a) : P a := by
  rw [hr] at h
  exact h

end Holds

variable {α β : Type} {f : α → Except Fault β} {n size : Nat} {c : Cursor} {v : RegionVisitor}
  {pdpt : Frame}

@[simp] theorem ok_bind {a : α} : Except.ok a >>= f = f a := rfl

theorem bind_eq_ok {r : Except Fault α} {b : β} :
    r >>= f = .ok b ↔ ∃ a, r = .ok a ∧ f a = .ok b := by
  match r with
  | .ok a =>
    constructor
    · exact fun h => ⟨a, rfl, h⟩
    · rintro ⟨a', ha, h⟩
      cases ha
      exact h
  | .error e =>
    constructor
    · intro h
      cases h
    · rintro ⟨a, ha, -⟩
      cases ha

/-! ### Indices and pages

A page is named by its number, bits 12 to 47 of its address; the directory, the table and the
PML4 entry it lies under are that number divided by powers of 512. -/

/-- The index of a block within its table. -/
def idx (x : Nat) : Fin 512 := ⟨x % 512, Nat.mod_lt _ (by decide)⟩

/-- The number of the page an address lies in. -/
def pageOf (addr : Nat) : Nat := addr / 0x1000 % 2 ^ 36

/-- How many pages a size rounds up to. -/
def pagesIn (size : Nat) : Nat := (size + 0xfff) / 0x1000

theorem pagesIn_mul (n : Nat) : pagesIn (0x1000 * n) = n := by
  unfold pagesIn
  omega

theorem shiftRight_and_mask (addr k : Nat) : (addr >>> k) &&& 0x1ff = addr / 2 ^ k % 512 := by
  rw [Nat.shiftRight_eq_div_pow]
  exact Nat.and_two_pow_sub_one_eq_mod _ 9

theorem vmaPteIdx_eq (addr : Nat) : vmaPteIdx addr = pageOf addr % 512 := by
  rw [vmaPteIdx, shiftRight_and_mask, pageOf]
  omega

theorem vmaPdeIdx_eq (addr : Nat) : vmaPdeIdx addr = pageOf addr / 512 % 512 := by
  rw [vmaPdeIdx, shiftRight_and_mask, pageOf]
  omega

theorem vmaPdpeIdx_eq (addr : Nat) : vmaPdpeIdx addr = pageOf addr / 512 / 512 % 512 := by
  rw [vmaPdpeIdx, shiftRight_and_mask, pageOf]
  omega

theorem vmaPml4eIdx_eq (addr : Nat) :
    vmaPml4eIdx addr = pageOf addr / 512 / 512 / 512 % 512 := by
  rw [vmaPml4eIdx, shiftRight_and_mask, pageOf]
  omega

theorem tableIndex_mod (x : Nat) : tableIndex (x % 512) = .ok (idx x) := by
  rw [tableIndex, dif_pos (Nat.mod_lt _ (by decide))]
  rfl

theorem tableIndex_eq_ok {i : Nat} {j : Fin 512} (h : tableIndex i = .ok j) : i < 512 := by
  by_contra hi
  rw [tableIndex, dif_neg hi] at h
  cases h

/-! ### Which pages the loop reaches -/

/-- The region's walk leaves none of its tables: it needs as many tables as its size rounds up to,
counted from the first one, within one directory; a region of more than 1 GiB starts in a
directory's first table, and its directories lie under one PML4 entry. -/
def RegionFits (S n : Nat) : Prop :=
  (n ≤ 2 ^ 18 → S / 512 % 512 + (n + 511) / 512 ≤ 512) ∧
  (2 ^ 18 < n →
    S / 512 % 512 = 0 ∧ S / 512 / 512 % 512 + min ((n + (2 ^ 18 - 1)) / 2 ^ 18) 512 ≤ 512)

instance (S n : Nat) : Decidable (RegionFits S n) :=
  inferInstanceAs (Decidable (_ ∧ _))

/-- How many pages of the region, from its start, the walk reaches: as many as the tables (or
directories) it counted hold from the first page on. -/
def regionReach (S n : Nat) : Nat :=
  if n ≤ 2 ^ 18 then min n (512 * ((n + 511) / 512) - S % 512)
  else min n (2 ^ 18 * min ((n + (2 ^ 18 - 1)) / 2 ^ 18) 512 - S % 512)

theorem regionReach_le (S n : Nat) : regionReach S n ≤ n := by
  unfold regionReach
  split <;> omega

/-- What a visitor has to do for the walk over the `N` pages from `S`: `Inv m k` holds when `k`
pages are done, `Dir m k d f` when moreover directory `d` lies in frame `f`, and `Tab m k t f g`
when moreover table `t` of that directory lies in frame `g`. -/
structure RegionRule (A : Fault → Prop) (v : RegionVisitor) (pdpt : Frame) (S N phys : Nat)
    (Inv : PhysMem → Nat → Prop) (Dir : PhysMem → Nat → Nat → Frame → Prop)
    (Tab : PhysMem → Nat → Nat → Frame → Frame → Prop) : Prop where
  directory : ∀ m k, k < N → (S + k) / 512 / 512 / 512 = S / 512 / 512 / 512 → Inv m k →
    Holds A (v.directory m pdpt (idx ((S + k) / 512 / 512)))
      fun r => Dir r.2 k ((S + k) / 512 / 512) r.1
  table : ∀ m k f, k < N → Dir m k ((S + k) / 512 / 512) f →
    Holds A (v.table m f (idx ((S + k) / 512 / 512)) (idx ((S + k) / 512)))
      fun r => Tab r.2 k ((S + k) / 512) f r.1
  page : ∀ m k f g a, k < N → frameOf a = frameOf (phys + 0x1000 * k) →
    Tab m k ((S + k) / 512) f g →
    Holds A (v.page m g (idx (S + k)) a) fun m' => Tab m' (k + 1) ((S + k) / 512) f g
  leaveTable : ∀ m k f g, Tab m (k + 1) ((S + k) / 512) f g →
    Dir m (k + 1) ((S + k) / 512 / 512) f
  leaveDirectory : ∀ m k f, Dir m (k + 1) ((S + k) / 512 / 512) f → Inv m (k + 1)

theorem unitsNeeded_page (h : pagesIn size = n) (hn : n ≤ 2 ^ 36) :
    unitsNeeded size 0x1000 = n := by
  unfold pagesIn at h
  rw [unitsNeeded, Nat.mod_eq_of_lt (by omega)]
  exact h

theorem unitsNeeded_table (h : pagesIn size = n) (hn : n ≤ 2 ^ 36) :
    unitsNeeded size 0x200000 = (n + 511) / 512 := by
  unfold pagesIn at h
  rw [unitsNeeded, Nat.mod_eq_of_lt (by omega)]
  omega

theorem unitsNeeded_directory (h : pagesIn size = n) (hn : n ≤ 2 ^ 36) :
    unitsNeeded size 0x40000000 = (n + (2 ^ 18 - 1)) / 2 ^ 18 := by
  unfold pagesIn at h
  rw [unitsNeeded, Nat.mod_eq_of_lt (by omega)]
  omega

/-- The locals when `k` of the region's pages are done. -/
structure CursorAt (S n phys : Nat) (c : Cursor) (k : Nat) : Prop where
  le : k ≤ n
  remaining : k < n → pagesIn c.remainingSize = n - k
  page : k < n → pageOf c.currentPage = S + k
  frame : frameOf c.currentFrame = frameOf (phys + 0x1000 * k)

theorem frameOf_congr {a b : Nat} (h : a / 0x1000 % 2 ^ 40 = b / 0x1000 % 2 ^ 40) :
    frameOf a = frameOf b := Fin.ext h

theorem CursorAt.advance {S n phys k : Nat} (hS : S + n ≤ 2 ^ 36) (hc : CursorAt S n phys c k)
    (hk : k < n) (m : PhysMem) : CursorAt S n phys (c.advance m) (k + 1) where
  le := hk
  remaining := by
    intro hk'
    have hrem := hc.remaining hk
    show ((c.remainingSize + 2 ^ 64 - 0x1000) % 2 ^ 64 + 0xfff) / 0x1000 = _
    unfold pagesIn at hrem
    omega
  page := by
    intro hk'
    have hpage := hc.page hk
    show (c.currentPage + 0x1000) % 2 ^ 64 / 0x1000 % 2 ^ 36 = _
    unfold pageOf at hpage
    omega
  frame := by
    have hframe := congrArg Fin.val hc.frame
    apply frameOf_congr
    show (c.currentFrame + 0x1000) % 2 ^ 64 / 0x1000 % 2 ^ 40 = _
    simp only [frameOf] at hframe
    omega

section Walk

variable {A : Fault → Prop} {v : RegionVisitor} {pdpt : Frame} {S n N phys : Nat}
  {Inv : PhysMem → Nat → Prop} {Dir : PhysMem → Nat → Nat → Frame → Prop}
  {Tab : PhysMem → Nat → Nat → Frame → Frame → Prop}

variable {f g : Frame} {c : Cursor} {k : Nat}

section

variable (hS : S + n ≤ 2 ^ 36)

include hS

theorem regionPages_holds (hR : RegionRule A v pdpt S N phys Inv Dir Tab) {t : Nat} :
    ∀ j k c, k + j ≤ n → k + j ≤ N → (S + k) % 512 + j ≤ 512 → (0 < j → (S + k) / 512 = t) →
      CursorAt S n phys c k → Tab c.mem k t f g →
      Holds A (regionPages v g j ((S + k) % 512) c) fun c' =>
        CursorAt S n phys c' (k + j) ∧ Tab c'.mem (k + j) t f g := by
  intro j
  induction j with
  | zero => exact fun k c _ _ _ _ hc hT => ⟨hc, hT⟩
  | succ j ih =>
    intro k c hkn hkN hpage ht hc hT
    have hk : k < n := by omega
    have ht' := ht (by omega)
    rw [regionPages, tableIndex_mod, ok_bind]
    refine Holds.bind (P := fun m => Tab m (k + 1) t f g) ?_ fun m hm => ?_
    · rw [← ht'] at hT ⊢
      exact hR.page c.mem k f g c.currentFrame (by omega) hc.frame hT
    · rw [show k + (j + 1) = k + 1 + j by omega]
      rcases Nat.eq_zero_or_pos j with rfl | hj
      · exact ⟨hc.advance hS hk m, hm⟩
      · rw [show (S + k) % 512 + 1 = (S + (k + 1)) % 512 by omega]
        exact ih (k + 1) (c.advance m) (by omega) (by omega) (by omega) (fun _ => by omega)
          (hc.advance hS hk m) hm

theorem regionTable_holds (hR : RegionRule A v pdpt S N phys Inv Dir Tab) (hk : k < n)
    (hN : min n (512 * ((S + k) / 512 + 1) - S) ≤ N) (hc : CursorAt S n phys c k)
    (hT : Tab c.mem k ((S + k) / 512) f g) :
    Holds A (regionTable v g c) fun c' =>
      ∃ k', k' = min n (512 * ((S + k) / 512 + 1) - S) ∧ CursorAt S n phys c' k' ∧
        Dir c'.mem k' ((S + k) / 512 / 512) f := by
  have hunits := unitsNeeded_page (hc.remaining hk) (by omega)
  rw [regionTable, vmaPteIdx_eq, hc.page hk, hunits]
  refine (regionPages_holds hS hR (min (n - k) (512 - (S + k) % 512)) k c (by omega) (by omega)
    (by omega) (fun _ => rfl) hc hT).mono fun c' h => ?_
  -- at least one page is done, so the table can be left
  obtain ⟨j, hj⟩ : ∃ j, k + min (n - k) (512 - (S + k) % 512) = j + 1 :=
    ⟨k + min (n - k) (512 - (S + k) % 512) - 1, by omega⟩
  rw [hj] at h
  refine ⟨j + 1, by omega, h.1, ?_⟩
  have hsame : (S + j) / 512 = (S + k) / 512 := by omega
  rw [← hsame] at h ⊢
  exact hR.leaveTable c'.mem j f g h.2

theorem regionTables_holds (hR : RegionRule A v pdpt S N phys Inv Dir Tab) {d : Nat} :
    ∀ T k c, 512 * ((S + k) / 512 + T) < S + n + 512 → (S + k) / 512 % 512 + T ≤ 512 →
      min n (512 * ((S + k) / 512 + T) - S) ≤ N → k < n → 0 < T → (S + k) / 512 / 512 = d →
      CursorAt S n phys c k → Dir c.mem k d f →
      Holds A (regionTables v f (idx d) T ((S + k) / 512 % 512) c) fun c' =>
        ∃ k', k' = min n (512 * ((S + k) / 512 + T) - S) ∧ CursorAt S n phys c' k' ∧
          Dir c'.mem k' d f := by
  intro T
  induction T with
  | zero => exact fun k c _ _ _ _ hT => absurd hT (Nat.lt_irrefl 0)
  | succ T ih =>
    intro k c hlast hbound hN hk _ hd hc hD
    rw [regionTables, tableIndex_mod, ok_bind]
    subst hd
    refine Holds.bind (hR.table c.mem k f (by omega) hD) fun r hr => ?_
    obtain ⟨g, m⟩ := r
    have hc' : CursorAt S n phys { c with mem := m } k := ⟨hc.le, hc.remaining, hc.page, hc.frame⟩
    refine Holds.bind (regionTable_holds hS hR hk (by omega) hc' hr) fun c₁ h₁ => ?_
    obtain ⟨k₁, hk₁, hc₁, hD₁⟩ := h₁
    rcases Nat.eq_zero_or_pos T with rfl | hT
    · exact ⟨k₁, hk₁, hc₁, hD₁⟩
    · -- another table follows, so this one was filled to its end
      have hk₁' : S + k₁ = 512 * ((S + k) / 512 + 1) := by omega
      have hnext : (S + k₁) / 512 = (S + k) / 512 + 1 := by omega
      have := ih k₁ c₁ (by omega) (by omega) (by omega) (by omega) hT (by omega) hc₁ hD₁
      rw [hnext, show ((S + k) / 512 + 1) % 512 = (S + k) / 512 % 512 + 1 by omega] at this
      refine this.mono fun c' h => ?_
      obtain ⟨k', hk', h'⟩ := h
      exact ⟨k', by omega, h'⟩

/-- The body of the directory loop, with the number of tables it computes. -/
theorem regionDirectory_holds (hR : RegionRule A v pdpt S N phys Inv Dir Tab) (hk : k < n)
    (hbound : (S + k) / 512 % 512 + min ((n - k + 511) / 512) 512 ≤ 512)
    (hN : min n (512 * ((S + k) / 512 + min ((n - k + 511) / 512) 512) - S) ≤ N)
    (hc : CursorAt S n phys c k) (hD : Dir c.mem k ((S + k) / 512 / 512) f) :
    Holds A (regionDirectory v f (idx ((S + k) / 512 / 512)) c) fun c' =>
      ∃ k', k' = min n (512 * ((S + k) / 512 + min ((n - k + 511) / 512) 512) - S) ∧
        CursorAt S n phys c' k' ∧ Inv c'.mem k' := by
  have hunits := unitsNeeded_table (hc.remaining hk) (by omega)
  rw [regionDirectory, vmaPdeIdx_eq, hc.page hk, hunits]
  refine (regionTables_holds hS hR (min ((n - k + 511) / 512) 512) k c (by omega) hbound hN hk
    (by omega) rfl hc hD).mono fun c' h => ?_
  obtain ⟨k', hk', hc', hD'⟩ := h
  refine ⟨k', hk', hc', ?_⟩
  obtain ⟨j, rfl⟩ : ∃ j, k' = j + 1 := ⟨k' - 1, by omega⟩
  have hsame : (S + j) / 512 / 512 = (S + k) / 512 / 512 := by omega
  rw [← hsame] at hD'
  exact hR.leaveDirectory c'.mem j f hD'

theorem regionDirectories_succ_holds (hR : RegionRule A v pdpt S N phys Inv Dir Tab) {k D : Nat}
    {Q : Cursor → Prop} (hk : k < n) (htop : (S + k) / 512 / 512 / 512 = S / 512 / 512 / 512)
    (hbound : (S + k) / 512 % 512 + min ((n - k + 511) / 512) 512 ≤ 512)
    (hN : min n (512 * ((S + k) / 512 + min ((n - k + 511) / 512) 512) - S) ≤ N)
    (hc : CursorAt S n phys c k) (hI : Inv c.mem k)
    (hrest : ∀ k' c', k' = min n (512 * ((S + k) / 512 + min ((n - k + 511) / 512) 512) - S) →
      CursorAt S n phys c' k' → Inv c'.mem k' →
      Holds A (regionDirectories v pdpt D ((S + k) / 512 / 512 % 512 + 1) c') Q) :
    Holds A (regionDirectories v pdpt (D + 1) ((S + k) / 512 / 512 % 512) c) Q := by
  rw [regionDirectories, tableIndex_mod, ok_bind]
  refine Holds.bind (hR.directory c.mem k (by omega) htop hI) fun r hr => ?_
  obtain ⟨f, m⟩ := r
  have hc' : CursorAt S n phys { c with mem := m } k := ⟨hc.le, hc.remaining, hc.page, hc.frame⟩
  refine Holds.bind (regionDirectory_holds hS hR hk hbound hN hc' hr) fun c₁ h₁ => ?_
  obtain ⟨k₁, hk₁, hc₁, hI₁⟩ := h₁
  exact hrest k₁ c₁ hk₁ hc₁ hI₁

theorem regionDirectories_holds (hR : RegionRule A v pdpt S N phys Inv Dir Tab) :
    ∀ D k c, (S + k) % 2 ^ 18 = 0 → (S + k) / 512 / 512 / 512 = S / 512 / 512 / 512 →
      2 ^ 18 * ((S + k) / 512 / 512 + D) < S + n + 2 ^ 18 → (S + k) / 512 / 512 % 512 + D ≤ 512 →
      min n (2 ^ 18 * ((S + k) / 512 / 512 + D) - S) ≤ N → k < n → 0 < D →
      CursorAt S n phys c k → Inv c.mem k →
      Holds A (regionDirectories v pdpt D ((S + k) / 512 / 512 % 512) c) fun c' =>
        Inv c'.mem (min n (2 ^ 18 * ((S + k) / 512 / 512 + D) - S)) := by
  intro D
  induction D with
  | zero => exact fun k c _ _ _ _ _ _ hD => absurd hD (Nat.lt_irrefl 0)
  | succ D ih =>
    intro k c halign htop hlast hbound hN hk _ hc hI
    refine regionDirectories_succ_holds hS hR hk htop (by omega) (by omega) hc hI
      fun k₁ c₁ hk₁ hc₁ hI₁ => ?_
    rcases Nat.eq_zero_or_pos D with rfl | hD
    · have : k₁ = min n (2 ^ 18 * ((S + k) / 512 / 512 + (0 + 1)) - S) := by omega
      rw [← this]
      exact hI₁
    · have hk₁' : S + k₁ = 2 ^ 18 * ((S + k) / 512 / 512 + 1) := by omega
      have hnext : (S + k₁) / 512 / 512 = (S + k) / 512 / 512 + 1 := by omega
      have := ih k₁ c₁ (by omega) (by omega) (by omega) (by omega) (by omega) (by omega) hD hc₁
        hI₁
      rw [hnext, show ((S + k) / 512 / 512 + 1) % 512 = (S + k) / 512 / 512 % 512 + 1 by omega]
        at this
      rw [show (S + k) / 512 / 512 + (D + 1) = (S + k) / 512 / 512 + 1 + D by omega]
      exact this

/-- **What the walk of a region that fits reaches.**  The loop never leaves a table, and when it
ends the first `regionReach S n` pages are done. -/
theorem regionWalk_holds (hfit : RegionFits S n)
    (hR : RegionRule A v pdpt S (regionReach S n) phys Inv Dir Tab) {m : PhysMem} {start size : Nat}
    (hsize : pagesIn size = n) (hstart : 0 < n → pageOf start = S) (hI : Inv m 0) :
    Holds A (regionWalk v pdpt m start size phys) fun c => Inv c.mem (regionReach S n) := by
  have hc : CursorAt S n phys
      { mem := m, remainingSize := size, currentFrame := phys, currentPage := start } 0 :=
    ⟨by omega, fun _ => hsize, hstart, rfl⟩
  rw [regionWalk, unitsNeeded_directory hsize (by omega)]
  clear hsize
  rcases Nat.eq_zero_or_pos n with rfl | hn
  · exact hI
  rw [vmaPdpeIdx_eq, hstart hn]
  by_cases hsmall : n ≤ 2 ^ 18
  · -- one directory
    have hfit' := hfit.1 hsmall
    have hreach : regionReach S n = min n (512 * ((n + 511) / 512) - S % 512) := if_pos hsmall
    rw [show min ((n + (2 ^ 18 - 1)) / 2 ^ 18) 512 = 0 + 1 by omega]
    refine regionDirectories_succ_holds (k := 0) hS hR hn rfl (by omega) (by omega) hc hI
      fun k₁ c₁ hk₁ _ hI₁ => ?_
    have : k₁ = regionReach S n := by omega
    rw [← this]
    exact hI₁
  · -- the first directory is filled from the first page on, the others from their first table
    obtain ⟨hfirst, hdirs⟩ := hfit.2 (by omega)
    obtain ⟨D, hD⟩ : ∃ D, min ((n + (2 ^ 18 - 1)) / 2 ^ 18) 512 = D + 1 + 1 :=
      ⟨min ((n + (2 ^ 18 - 1)) / 2 ^ 18) 512 - 2, by omega⟩
    have hreach : regionReach S n = min n (2 ^ 18 * (D + 1 + 1) - S % 512) := by
      rw [regionReach, if_neg hsmall, hD]
    rw [hD] at hdirs ⊢
    refine regionDirectories_succ_holds (k := 0) hS hR hn rfl (by omega) (by omega) hc hI
      fun k₁ c₁ hk₁ hc₁ hI₁ => ?_
    have hk₁' : S + k₁ = 2 ^ 18 * (S / 512 / 512 + 1) := by omega
    have hnext : (S + k₁) / 512 / 512 = S / 512 / 512 + 1 := by omega
    have := regionDirectories_holds hS hR (D + 1) k₁ c₁ (by omega) (by omega) (by omega)
      (by omega) (by omega) (by omega) (by omega) hc₁ hI₁
    rw [hnext, show (S / 512 / 512 + 1) % 512 = S / 512 / 512 % 512 + 1 by omega] at this
    refine this.mono fun c' h => ?_
    rwa [show regionReach S n = min n (2 ^ 18 * (S / 512 / 512 + 1 + (D + 1)) - S) by omega]

end

end Walk

theorem regionTables_ok {f : Frame} {d : Fin 512} :
    ∀ T i c c', 0 < T → regionTables v f d T i c = .ok c' → i + T ≤ 512 := by
  intro T
  induction T with
  | zero => exact fun i c c' hT => absurd hT (Nat.lt_irrefl 0)
  | succ T ih =>
    intro i c c' _ h
    rw [regionTables, bind_eq_ok] at h
    obtain ⟨j, hj, h⟩ := h
    have hi := tableIndex_eq_ok hj
    obtain ⟨⟨g, m⟩, -, h⟩ := bind_eq_ok.mp h
    obtain ⟨c₁, -, h⟩ := bind_eq_ok.mp h
    rcases Nat.eq_zero_or_pos T with rfl | hT
    · omega
    · have := ih (i + 1) c₁ c' hT h
      omega

theorem regionDirectories_ok :
    ∀ D i c c', 0 < D → regionDirectories v pdpt D i c = .ok c' →
      i + D ≤ 512 ∧ (0 < min (unitsNeeded c.remainingSize 0x200000) 512 →
        vmaPdeIdx c.currentPage + min (unitsNeeded c.remainingSize 0x200000) 512 ≤ 512) := by
  intro D
  induction D with
  | zero => exact fun i c c' hD => absurd hD (Nat.lt_irrefl 0)
  | succ D ih =>
    intro i c c' _ h
    rw [regionDirectories, bind_eq_ok] at h
    obtain ⟨j, hj, h⟩ := h
    have hi := tableIndex_eq_ok hj
    obtain ⟨⟨f, m⟩, -, h⟩ := bind_eq_ok.mp h
    obtain ⟨c₁, hc₁, h⟩ := bind_eq_ok.mp h
    have hfirst : 0 < min (unitsNeeded c.remainingSize 0x200000) 512 →
        vmaPdeIdx c.currentPage + min (unitsNeeded c.remainingSize 0x200000) 512 ≤ 512 :=
      fun hpos => regionTables_ok _ _ _ _ hpos hc₁
    rcases Nat.eq_zero_or_pos D with rfl | hD
    · exact ⟨by omega, hfirst⟩
    · have := (ih (i + 1) c₁ c' hD h).1
      exact ⟨by omega, hfirst⟩

/-- **A walk that ends fits.** -/
theorem regionWalk_fits {m : PhysMem} {start size n phys : Nat} (hn : n ≤ 2 ^ 36)
    (hsize : pagesIn size = n) (h : regionWalk v pdpt m start size phys = .ok c) :
    RegionFits (pageOf start) n := by
  have hdirs := unitsNeeded_directory hsize hn
  have htables := unitsNeeded_table hsize hn
  have hpage : pageOf start < 2 ^ 36 := Nat.mod_lt _ (by decide)
  rw [regionWalk, hdirs, vmaPdpeIdx_eq] at h
  rcases Nat.eq_zero_or_pos n with rfl | hpos
  · exact ⟨fun _ => by omega, fun h => by omega⟩
  · obtain ⟨hd, ht⟩ := regionDirectories_ok _ _ _ _ (by omega) h
    simp only [htables, vmaPdeIdx_eq] at ht
    have ht' := ht (by omega)
    exact ⟨fun _ => by omega, fun _ => by omega⟩

end Axle.Kernel
