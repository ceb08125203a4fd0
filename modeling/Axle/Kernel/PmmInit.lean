import Axle.Kernel.ContiguousChunkPool
import Axle.Kernel.PageTables
import Mathlib.Data.Set.Card

/-!
# The frames that the allocator starts with

`pmm_init` walks over the memory map of the boot loader.  Each usable region is rounded inwards to
whole frames, the contiguous chunk pool is cut off the first one that is large enough, and the
other frames are put into the queue, except for the two that start the other processors.

* `enqueueFrames_eq` / `foldl_enqueue` — the loop over the frames of a region; a full queue refuses
  a frame and the program does not look;
* `initExact_iff` — **PROVED**: for which memory maps the queue gets exactly the usable frames.

The map is any list of disjoint regions that lie in 64 bits.  Sums and differences are those of
`usize`: in a build with overflow checks they end the program, in one without they wrap.
-/

namespace Axle.Kernel.Pmm

inductive PhysicalMemoryRegionType
  | usable
  | reserved
  | reservedAcpiNvm
  | reservedAxleKernelCodeAndData
  | reservedAcpiTables
  deriving DecidableEq, Repr

structure PhysicalMemoryRegion where
  regionType : PhysicalMemoryRegionType
  addr : ℕ
  len : ℕ
  deriving DecidableEq, Repr

/-- `FREE_FRAMES` and `CONTIGUOUS_CHUNK_POOL`. -/
structure PmmState where
  freeFrames : List ℕ
  pool : ContiguousChunkPool

/-- How `pmm_init` can stop: an operation overflows, or the pool has no room for a chunk. -/
inductive InitError
  | overflow
  | poolFull
  deriving DecidableEq, Repr

/-! ### Arithmetic -/

def checkedAdd (checks : Bool) (a b : ℕ) : Except InitError ℕ :=
  if checks ∧ 2 ^ 64 ≤ a + b then .error .overflow else .ok ((a + b) % 2 ^ 64)

def checkedSub (checks : Bool) (a b : ℕ) : Except InitError ℕ :=
  if checks ∧ a < b then .error .overflow else .ok ((a + (2 ^ 64 - b)) % 2 ^ 64)

def checkedMul (checks : Bool) (a b : ℕ) : Except InitError ℕ :=
  if checks ∧ 2 ^ 64 ≤ a * b then .error .overflow else .ok (a * b % 2 ^ 64)

def pageCeil (checks : Bool) (addr : ℕ) : Except InitError ℕ := do
  let sum ← checkedAdd checks addr pageSize
  let last ← checkedSub checks sum 1
  return last &&& (2 ^ 64 - pageSize)

def pageFloor (addr : ℕ) : ℕ := addr - addr % pageSize

/-! ### The source -/

def apBootstrapCodePage : ℕ := 0x8000
def apBootstrapDataPage : ℕ := 0x9000

def framesToHideFromPmm : List ℕ := [apBootstrapCodePage, apBootstrapDataPage]

/-- `enqueue`, whose result is not looked at. -/
def enqueue (freeFrames : List ℕ) (frame : ℕ) : List ℕ :=
  if freeFrames.length < pmmCapacity then freeFrames ++ [frame] else freeFrames

/-- The loop over the frames of a region: `n` are left, the next one is `pageIdx`. -/
def enqueueFrames (checks : Bool) (base : ℕ) :
    (n pageIdx : ℕ) → List ℕ → Except InitError (List ℕ)
  | 0, _, freeFrames => .ok freeFrames
  | n + 1, pageIdx, freeFrames => do
    let offset ← checkedMul checks pageIdx pageSize
    let frameAddr ← checkedAdd checks base offset
    enqueueFrames checks base n (pageIdx + 1)
      (if framesToHideFromPmm.contains frameAddr then freeFrames
        else enqueue freeFrames frameAddr)

/-- The pool is described and cut off the region. -/
def takePool (checks : Bool) (pool : ContiguousChunkPool) (base regionSize : ℕ) :
    Except InitError (ContiguousChunkPool × ℕ × ℕ) :=
  match pool.setPoolDescription base contiguousChunkPoolSize with
  | none => .error .poolFull
  | some pool => do
    let regionSize ← checkedSub checks regionSize contiguousChunkPoolSize
    let base ← checkedAdd checks base contiguousChunkPoolSize
    return (pool, base, regionSize)

/-- The first region that is large enough gives the pool. -/
def choosePool (checks : Bool) (pool : ContiguousChunkPool) (base regionSize : ℕ) :
    Except InitError (ContiguousChunkPool × ℕ × ℕ) :=
  if !pool.isPoolConfigured && contiguousChunkPoolSize ≤ regionSize then
    takePool checks pool base regionSize
  else .ok (pool, base, regionSize)

/-- The frames that are left are put into the queue. -/
def freeRegion (checks : Bool) (freeFrames : List ℕ) :
    ContiguousChunkPool × ℕ × ℕ → Except InitError PmmState
  | (pool, base, regionSize) => do
    let sum ← checkedAdd checks regionSize (pageSize - 1)
    let freeFrames ← enqueueFrames checks base (sum / pageSize) 0 freeFrames
    return ⟨freeFrames, pool⟩

/-- The body of the loop over the regions. -/
def initRegion (checks : Bool) (pmm : PmmState) (region : PhysicalMemoryRegion) :
    Except InitError PmmState :=
  if region.regionType ≠ .usable then .ok pmm
  else do
    let base ← pageCeil checks region.addr
    let extra ← checkedSub checks base region.addr
    let len ← checkedSub checks region.len extra
    let regionSize := pageFloor len
    let rest ← choosePool checks pmm.pool base regionSize
    freeRegion checks pmm.freeFrames rest

def pmmInit (checks : Bool) (memRegions : List PhysicalMemoryRegion) : Except InitError PmmState :=
  memRegions.foldlM (initRegion checks) ⟨[], .new⟩

/-! ### Rounding -/

section Arithmetic

variable {checks : Bool} {a b : ℕ}

theorem checkedAdd_eq (h : a + b < 2 ^ 64) : checkedAdd checks a b = .ok (a + b) := by
  rw [checkedAdd, if_neg fun hover => absurd hover.2 (not_le.mpr h), Nat.mod_eq_of_lt h]

theorem checkedAdd_overflow (h : 2 ^ 64 ≤ a + b) : checkedAdd true a b = .error .overflow :=
  if_pos ⟨rfl, h⟩

theorem checkedSub_eq (hle : b ≤ a) (ha : a < 2 ^ 64) : checkedSub checks a b = .ok (a - b) := by
  rw [checkedSub, if_neg fun hunder => absurd hunder.2 (not_lt.mpr hle)]
  congr 1
  omega

theorem checkedSub_underflow (h : a < b) : checkedSub true a b = .error .overflow :=
  if_pos ⟨rfl, h⟩

theorem checkedMul_eq (h : a * b < 2 ^ 64) : checkedMul checks a b = .ok (a * b) := by
  rw [checkedMul, if_neg fun hover => absurd hover.2 (not_le.mpr h), Nat.mod_eq_of_lt h]

/-- Clearing the low twelve bits. -/
theorem land_pageMask (ha : a < 2 ^ 64) : a &&& (2 ^ 64 - pageSize) = a / pageSize * pageSize := by
  have hmask : 2 ^ 64 - pageSize = (2 ^ 52 - 1) <<< 12 := by decide
  have hfloor : a / pageSize * pageSize = (a >>> 12) <<< 12 := by
    rw [Nat.shiftRight_eq_div_pow, Nat.shiftLeft_eq]
    rfl
  rw [hmask, hfloor]
  refine Nat.eq_of_testBit_eq fun i => ?_
  rw [Nat.testBit_and, Nat.testBit_shiftLeft, Nat.testBit_shiftLeft, Nat.testBit_shiftRight,
    Nat.testBit_two_pow_sub_one]
  by_cases hlow : 12 ≤ i
  · rw [show 12 + (i - 12) = i by omega]
    by_cases hhigh : i < 64
    · simp [hlow, show i - 12 < 52 by omega]
    · have hzero : a.testBit i = false := Nat.testBit_lt_two_pow
        (lt_of_lt_of_le ha (Nat.pow_le_pow_right (by omega) (not_lt.mp hhigh)))
      simp [hzero]
  · simp [hlow]

/-- The first frame boundary from an address on. -/
def ceilPage (addr : ℕ) : ℕ := (addr + (pageSize - 1)) / pageSize * pageSize

theorem pageCeil_eq (h : a + pageSize < 2 ^ 64) : pageCeil checks a = .ok (ceilPage a) := by
  unfold pageCeil
  rw [checkedAdd_eq h]
  show (checkedSub checks (a + pageSize) 1 >>= _) = _
  rw [checkedSub_eq (by unfold pageSize; omega) h]
  show Except.ok _ = _
  rw [land_pageMask (by omega)]
  rfl

theorem pageCeil_overflow (h : 2 ^ 64 ≤ a + pageSize) : pageCeil true a = .error .overflow := by
  unfold pageCeil
  rw [checkedAdd_overflow h]
  rfl

theorem ceilPage_bounds (addr : ℕ) :
    pageSize ∣ ceilPage addr ∧ addr ≤ ceilPage addr ∧ ceilPage addr < addr + pageSize := by
  unfold ceilPage pageSize
  omega

theorem pageFloor_eq (addr : ℕ) : pageFloor addr = addr / pageSize * pageSize := by
  unfold pageFloor pageSize
  omega

end Arithmetic

/-! ### The loop over the frames -/

/-- `n` frames, the first of them `pageIdx` frames behind `base`. -/
def framesFrom (base pageIdx n : ℕ) : List ℕ :=
  (List.range' pageIdx n).map fun i => base + i * pageSize

def visible (frame : ℕ) : Bool := !framesToHideFromPmm.contains frame

theorem enqueueFrames_eq {checks : Bool} {base : ℕ} : ∀ {n pageIdx : ℕ} {freeFrames : List ℕ},
    base + (pageIdx + n) * pageSize ≤ 2 ^ 64 →
      enqueueFrames checks base n pageIdx freeFrames =
        .ok (((framesFrom base pageIdx n).filter visible).foldl enqueue freeFrames) := by
  intro n
  induction n with
  | zero => exact fun _ => rfl
  | succ n ih =>
    intro pageIdx freeFrames hend
    have hnext : pageIdx + (n + 1) = pageIdx + 1 + n := by omega
    have hplace : base + pageIdx * pageSize < 2 ^ 64 := by
      unfold pageSize at hend ⊢
      omega
    unfold enqueueFrames
    rw [checkedMul_eq (by omega)]
    show (checkedAdd checks base (pageIdx * pageSize) >>= _) = _
    rw [checkedAdd_eq hplace]
    show enqueueFrames checks base n (pageIdx + 1) _ = _
    have hsplit : framesFrom base pageIdx (n + 1)
        = (base + pageIdx * pageSize) :: framesFrom base (pageIdx + 1) n := rfl
    rw [ih (by rw [← hnext]; exact hend), hsplit, List.filter_cons]
    cases hhidden : framesToHideFromPmm.contains (base + pageIdx * pageSize) with
    | false =>
      rw [show visible (base + pageIdx * pageSize) = true by rw [visible, hhidden]; rfl]
      rfl
    | true =>
      rw [show visible (base + pageIdx * pageSize) = false by rw [visible, hhidden]; rfl]
      rfl

theorem foldl_enqueue {l : List ℕ} : ∀ {frames : List ℕ},
    l.foldl enqueue (frames.take pmmCapacity) = (frames ++ l).take pmmCapacity := by
  induction l with
  | nil =>
    intro frames
    rw [List.append_nil]
    rfl
  | cons frame l ih =>
    intro frames
    have hone : enqueue (frames.take pmmCapacity) frame = (frames ++ [frame]).take pmmCapacity := by
      unfold enqueue
      rw [List.length_take]
      split
      · rw [List.take_of_length_le (by omega), List.take_of_length_le
          (by rw [List.length_append, List.length_singleton]; omega)]
      · rw [List.take_append_of_le_length (by omega)]
    rw [List.foldl_cons, hone, ih, List.append_assoc]
    rfl

theorem mem_framesFrom {base size f : ℕ} (hbase : pageSize ∣ base) (hsize : pageSize ∣ size) :
    f ∈ framesFrom base 0 (size / pageSize) ↔
      pageSize ∣ f ∧ base ≤ f ∧ f + pageSize ≤ base + size := by
  simp only [framesFrom, List.mem_map, List.mem_range'_1, zero_add, Nat.zero_le, true_and]
  unfold pageSize at *
  constructor
  · omega
  · intro h
    exact ⟨(f - base) / 0x1000, by omega, by omega⟩

theorem nodup_framesFrom (base pageIdx n : ℕ) : (framesFrom base pageIdx n).Nodup := by
  refine List.Nodup.map (fun i j h => ?_) List.nodup_range'
  unfold pageSize at h
  omega

/-! ### One region -/

namespace PhysicalMemoryRegion

/-- The whole frames of the region: the first one. -/
def base (r : PhysicalMemoryRegion) : ℕ := ceilPage r.addr

/-- The whole frames of the region: their size. -/
def size (r : PhysicalMemoryRegion) : ℕ := pageFloor (r.len - (r.base - r.addr))

def Usable (r : PhysicalMemoryRegion) : Prop := r.regionType = .usable

/-- The region is large enough for the contiguous chunk pool. -/
def TakesPool (r : PhysicalMemoryRegion) : Prop := r.Usable ∧ contiguousChunkPoolSize ≤ r.size

/-- The region does not start in the last page of the address space, and it reaches the frame
boundary behind its start. -/
def Rounds (r : PhysicalMemoryRegion) : Prop :=
  r.addr + pageSize < 2 ^ 64 ∧ r.base - r.addr ≤ r.len

instance (r : PhysicalMemoryRegion) : Decidable r.Usable :=
  inferInstanceAs (Decidable (_ = _))

instance (r : PhysicalMemoryRegion) : Decidable r.TakesPool :=
  inferInstanceAs (Decidable (_ ∧ _))

instance (r : PhysicalMemoryRegion) : Decidable r.Rounds :=
  inferInstanceAs (Decidable (_ ∧ _))

/-- Two words that stay in the address space. -/
def InMemory (r : PhysicalMemoryRegion) : Prop := r.len < 2 ^ 64 ∧ r.addr + r.len ≤ 2 ^ 64

instance (r : PhysicalMemoryRegion) : Decidable r.InMemory :=
  inferInstanceAs (Decidable (_ ∧ _))

/-- The frame lies in the region as a whole. -/
def HoldsFrame (r : PhysicalMemoryRegion) (f : ℕ) : Prop :=
  r.addr ≤ f ∧ f + pageSize ≤ r.addr + r.len

/-- The regions have no address in common. -/
def Apart (r s : PhysicalMemoryRegion) : Prop :=
  ∀ a, ¬((r.addr ≤ a ∧ a < r.addr + r.len) ∧ (s.addr ≤ a ∧ a < s.addr + s.len))

variable {r s : PhysicalMemoryRegion} {f : ℕ}

theorem dvd_size (r : PhysicalMemoryRegion) : pageSize ∣ r.size := by
  rw [size, pageFloor_eq]
  exact Nat.dvd_mul_left _ _

theorem dvd_base (r : PhysicalMemoryRegion) : pageSize ∣ r.base := (ceilPage_bounds r.addr).1

theorem Rounds.bounds (h : r.Rounds) : r.addr ≤ r.base ∧ r.base + r.size ≤ r.addr + r.len := by
  obtain ⟨-, hle, -⟩ := ceilPage_bounds r.addr
  have hfit := h.2
  have hsize : r.size ≤ r.len - (r.base - r.addr) := Nat.sub_le _ _
  unfold base at hfit hsize ⊢
  omega

theorem Rounds.holdsFrame_iff (h : r.Rounds) (hf : pageSize ∣ f) :
    r.HoldsFrame f ↔ r.base ≤ f ∧ f + pageSize ≤ r.base + r.size := by
  obtain ⟨hdvd, hle, hlt⟩ := ceilPage_bounds r.addr
  have hsize : r.size = (r.len - (r.base - r.addr)) / pageSize * pageSize := pageFloor_eq _
  unfold HoldsFrame
  unfold base pageSize at *
  omega

theorem Apart.not_holds (h : r.Apart s) (hf : r.HoldsFrame f) :
    ¬(s.addr ≤ f ∧ f < s.addr + s.len) := by
  obtain ⟨hle, hlt⟩ := hf
  unfold pageSize at hlt
  exact fun hs => h f ⟨⟨hle, by omega⟩, hs⟩

theorem Apart.symm (h : r.Apart s) : s.Apart r := fun a ha => h a ha.symm

end PhysicalMemoryRegion

section Region

variable {checks : Bool} {pmm : PmmState} {pool : ContiguousChunkPool} {r : PhysicalMemoryRegion}
  {base size : ℕ} {frames : List ℕ}

theorem freeRegion_eq (hsize : pageSize ∣ size) (hend : base + size ≤ 2 ^ 64) (hlt : size < 2 ^ 64) :
    freeRegion checks frames (pool, base, size) =
      .ok ⟨((framesFrom base 0 (size / pageSize)).filter visible).foldl enqueue frames, pool⟩ := by
  unfold freeRegion
  dsimp only
  rw [checkedAdd_eq (by unfold pageSize at *; omega)]
  show (enqueueFrames checks base ((size + (pageSize - 1)) / pageSize) 0 frames >>= _) = _
  rw [show (size + (pageSize - 1)) / pageSize = size / pageSize by unfold pageSize at *; omega,
    enqueueFrames_eq (by unfold pageSize at *; omega)]
  rfl

/-- The pool before it is cut off a region. -/
def Unconfigured (pool : ContiguousChunkPool) : Prop :=
  pool.poolDescription = none ∧ pool.freeChunks = []

theorem takePool_eq (hpool : Unconfigured pool) (hsize : contiguousChunkPoolSize ≤ size)
    (hlt : size < 2 ^ 64) : takePool checks pool base size =
      (checkedAdd checks base contiguousChunkPoolSize).map fun base' =>
        (⟨some ⟨base, contiguousChunkPoolSize⟩, pool.allocatedChunks,
          [⟨base, contiguousChunkPoolSize⟩]⟩, base', size - contiguousChunkPoolSize) := by
  have hpush : pool.setPoolDescription base contiguousChunkPoolSize =
      some ⟨some ⟨base, contiguousChunkPoolSize⟩, pool.allocatedChunks,
        [⟨base, contiguousChunkPoolSize⟩]⟩ := by
    rw [ContiguousChunkPool.setPoolDescription, hpool.2]
    rfl
  rw [takePool, hpush]
  show (checkedSub checks size contiguousChunkPoolSize >>= _) = _
  rw [checkedSub_eq hsize hlt]
  show (checkedAdd checks base contiguousChunkPoolSize >>= _) = _
  cases checkedAdd checks base contiguousChunkPoolSize <;> rfl

theorem base_lt (h : r.Rounds) : r.base < 2 ^ 64 := by
  obtain ⟨-, -, hlt⟩ := ceilPage_bounds r.addr
  have hceil : r.base = ceilPage r.addr := rfl
  have haddr := h.1
  omega

theorem initRegion_eq (husable : r.Usable) (hrounds : r.Rounds) (hin : r.InMemory) :
    initRegion checks pmm r =
      choosePool checks pmm.pool r.base r.size >>= freeRegion checks pmm.freeFrames := by
  have htype : r.regionType = .usable := husable
  unfold initRegion
  rw [if_neg (not_not_intro htype), pageCeil_eq hrounds.1]
  show (checkedSub checks r.base r.addr >>= _) = _
  rw [checkedSub_eq hrounds.bounds.1 (base_lt hrounds)]
  show (checkedSub checks r.len (r.base - r.addr) >>= _) = _
  rw [checkedSub_eq hrounds.2 hin.1]
  rfl

theorem size_lt (hin : r.InMemory) : r.size < 2 ^ 64 := by
  have hsize : r.size ≤ r.len - (r.base - r.addr) := Nat.sub_le _ _
  have hlen := hin.1
  omega

theorem initRegion_whole (husable : r.Usable) (hrounds : r.Rounds) (hin : r.InMemory)
    (hpool : pmm.pool.poolDescription ≠ none ∨ ¬r.TakesPool) : initRegion checks pmm r =
      .ok ⟨((framesFrom r.base 0 (r.size / pageSize)).filter visible).foldl enqueue pmm.freeFrames,
        pmm.pool⟩ := by
  have hend := hrounds.bounds.2
  rw [initRegion_eq husable hrounds hin, choosePool, if_neg]
  · exact freeRegion_eq r.dvd_size (hend.trans hin.2) (size_lt hin)
  · rw [Bool.and_eq_true, decide_eq_true_eq, ContiguousChunkPool.isPoolConfigured,
      Bool.not_eq_true', Option.isSome_eq_false_iff, Option.isNone_iff_eq_none]
    rintro ⟨hnone, hsize⟩
    exact hpool.elim (fun h => h hnone) fun h => h ⟨husable, hsize⟩

theorem initRegion_pool (htakes : r.TakesPool) (hrounds : r.Rounds) (hin : r.InMemory)
    (hpool : Unconfigured pmm.pool) (hroom : r.base + contiguousChunkPoolSize < 2 ^ 64) :
    initRegion checks pmm r =
      .ok ⟨((framesFrom (r.base + contiguousChunkPoolSize) 0
          ((r.size - contiguousChunkPoolSize) / pageSize)).filter visible).foldl enqueue
            pmm.freeFrames,
        ⟨some ⟨r.base, contiguousChunkPoolSize⟩, pmm.pool.allocatedChunks,
          [⟨r.base, contiguousChunkPoolSize⟩]⟩⟩ := by
  obtain ⟨husable, hsize⟩ := htakes
  have hend := hrounds.bounds.2.trans hin.2
  have hlt := size_lt hin
  rw [initRegion_eq husable hrounds hin, choosePool, if_pos, takePool_eq hpool hsize hlt,
    checkedAdd_eq hroom]
  · exact freeRegion_eq (Nat.dvd_sub r.dvd_size (by decide)) (by omega) (by omega)
  · rw [Bool.and_eq_true, decide_eq_true_eq, ContiguousChunkPool.isPoolConfigured, hpool.1]
    exact ⟨rfl, hsize⟩

/-- The end of the pool is not an address. -/
theorem initRegion_pool_overflow (htakes : r.TakesPool) (hrounds : r.Rounds) (hin : r.InMemory)
    (hpool : Unconfigured pmm.pool) (hroom : 2 ^ 64 ≤ r.base + contiguousChunkPoolSize) :
    initRegion true pmm r = .error .overflow := by
  obtain ⟨husable, hsize⟩ := htakes
  rw [initRegion_eq husable hrounds hin, choosePool, if_pos, takePool_eq hpool hsize (size_lt hin),
    checkedAdd_overflow hroom]
  · rfl
  · rw [Bool.and_eq_true, decide_eq_true_eq, ContiguousChunkPool.isPoolConfigured, hpool.1]
    exact ⟨rfl, hsize⟩

/-- The region ends before the frame boundary behind its start, or that is not an address. -/
theorem initRegion_overflow (husable : r.Usable) (hrounds : ¬r.Rounds) :
    initRegion true pmm r = .error .overflow := by
  have htype : r.regionType = .usable := husable
  obtain ⟨-, hle, -⟩ := ceilPage_bounds r.addr
  unfold initRegion
  rw [if_neg (not_not_intro htype)]
  by_cases haddr : r.addr + pageSize < 2 ^ 64
  · have hshort : r.len < ceilPage r.addr - r.addr := not_le.mp fun h => hrounds ⟨haddr, h⟩
    have hceil : ceilPage r.addr < 2 ^ 64 := lt_trans (ceilPage_bounds r.addr).2.2 haddr
    rw [pageCeil_eq haddr]
    show (checkedSub true (ceilPage r.addr) r.addr >>= _) = _
    rw [checkedSub_eq hle hceil]
    show (checkedSub true r.len (ceilPage r.addr - r.addr) >>= _) = _
    rw [checkedSub_underflow hshort]
    rfl
  · rw [pageCeil_overflow (not_lt.mp haddr)]
    rfl

theorem initRegion_other (hother : ¬r.Usable) : initRegion checks pmm r = .ok pmm := if_pos hother

end Region

/-! ### All regions -/

/-- The frame is one of those that the contiguous chunk pool gives out. -/
def InPool (pool : ContiguousChunkPool) (f : ℕ) : Prop :=
  ∃ d, pool.poolDescription = some d ∧ d.base ≤ f ∧ f < d.base + d.totalSize

/-- The frames that the queue should have: frames of a usable region, not of the pool, and not
hidden. -/
def UsableFrame (regions : List PhysicalMemoryRegion) (pool : ContiguousChunkPool) (f : ℕ) : Prop :=
  pageSize ∣ f ∧ f ∉ framesToHideFromPmm ∧ (∃ r ∈ regions, r.Usable ∧ r.HoldsFrame f) ∧
    ¬InPool pool f

/-- The first region that is large enough for the pool. -/
def poolRegion (regions : List PhysicalMemoryRegion) : Option PhysicalMemoryRegion :=
  regions.find? fun r => r.TakesPool

/-- Each usable region can be rounded, and the pool does not end with the address space. -/
structure AllRound (regions : List PhysicalMemoryRegion) : Prop where
  rounds : ∀ r ∈ regions, r.Usable → r.Rounds
  room : ∀ r, poolRegion regions = some r → r.base + contiguousChunkPoolSize < 2 ^ 64

/-- After the regions `done`: `frames` were given to the queue, and the pool, once there is one,
lies in one of the regions. -/
structure InitInv (done : List PhysicalMemoryRegion) (pmm : PmmState) (frames : List ℕ) : Prop where
  queue : pmm.freeFrames = frames.take pmmCapacity
  nodup : frames.Nodup
  mem_iff : ∀ f, f ∈ frames ↔ UsableFrame done pmm.pool f
  pool : (Unconfigured pmm.pool ∧ poolRegion done = none) ∨
    ∃ r ∈ done, poolRegion done = some r ∧ r.Rounds ∧
      pmm.pool.poolDescription = some ⟨r.base, contiguousChunkPoolSize⟩ ∧
      contiguousChunkPoolSize ≤ r.size

theorem initInv_start : InitInv [] ⟨[], .new⟩ [] where
  queue := rfl
  nodup := List.nodup_nil
  mem_iff f := iff_of_false List.not_mem_nil fun h => by
    obtain ⟨-, -, ⟨r, hr, -⟩, -⟩ := h
    exact List.not_mem_nil hr
  pool := Or.inl ⟨⟨rfl, rfl⟩, rfl⟩

theorem poolRegion_append (done rest : List PhysicalMemoryRegion) :
    poolRegion (done ++ rest) = (poolRegion done).or (poolRegion rest) :=
  List.find?_append

section Steps

variable {done rest : List PhysicalMemoryRegion} {pmm : PmmState} {frames : List ℕ}
  {r : PhysicalMemoryRegion}

theorem poolRegion_singleton (htakes : r.TakesPool) : poolRegion [r] = some r :=
  List.find?_cons_of_pos (decide_eq_true htakes)

theorem poolRegion_eq_none (htakes : ¬r.TakesPool) : poolRegion [r] = none :=
  List.find?_cons_of_neg (fun h => htakes (of_decide_eq_true h))

theorem AllRound.left (h : AllRound (done ++ rest)) : AllRound done where
  rounds r hr := h.rounds r (List.mem_append_left rest hr)
  room r hr := h.room r (by rw [poolRegion_append, hr, Option.some_or])

theorem mem_filter_visible {f : ℕ} {l : List ℕ} :
    f ∈ l.filter visible ↔ f ∈ l ∧ f ∉ framesToHideFromPmm := by
  rw [List.mem_filter, visible, Bool.not_eq_true', ← Bool.not_eq_true, List.contains_iff_mem]

section

variable (h : InitInv done pmm frames)

include h

/-- The frames of one more region are put into the queue. -/
theorem InitInv.add (hapart : ∀ r' ∈ done, r'.Apart r) {new : List ℕ} {pool : ContiguousChunkPool}
    (hnodup : new.Nodup)
    (hnew : ∀ f, f ∈ new ↔ pageSize ∣ f ∧ f ∉ framesToHideFromPmm ∧ (r.Usable ∧ r.HoldsFrame f) ∧
      ¬InPool pool f)
    (hold : ∀ f, ∀ r' ∈ done, r'.HoldsFrame f → (InPool pool f ↔ InPool pmm.pool f))
    (hpool : (Unconfigured pool ∧ poolRegion (done ++ [r]) = none) ∨
      ∃ r' ∈ done ++ [r], poolRegion (done ++ [r]) = some r' ∧ r'.Rounds ∧
        pool.poolDescription = some ⟨r'.base, contiguousChunkPoolSize⟩ ∧
        contiguousChunkPoolSize ≤ r'.size) :
    InitInv (done ++ [r]) ⟨new.foldl enqueue pmm.freeFrames, pool⟩ (frames ++ new) where
  queue := by rw [h.queue, foldl_enqueue]
  nodup := by
    refine List.Nodup.append h.nodup hnodup fun f hf hf' => ?_
    obtain ⟨-, -, ⟨r', hr', -, hholds⟩, -⟩ := (h.mem_iff f).mp hf
    obtain ⟨-, -, ⟨-, hle, hlt⟩, -⟩ := (hnew f).mp hf'
    unfold pageSize at hlt
    exact (hapart r' hr').not_holds hholds ⟨hle, by omega⟩
  mem_iff f := by
    rw [List.mem_append, h.mem_iff, hnew]
    constructor
    · rintro (⟨hdvd, hvisible, ⟨r', hr', husable, hholds⟩, hout⟩ | ⟨hdvd, hvisible, hr, hout⟩)
      · exact ⟨hdvd, hvisible, ⟨r', List.mem_append_left _ hr', husable, hholds⟩,
          fun hin => hout ((hold f r' hr' hholds).mp hin)⟩
      · exact ⟨hdvd, hvisible, ⟨r, List.mem_append_right _ List.mem_cons_self, hr⟩, hout⟩
    · rintro ⟨hdvd, hvisible, ⟨r', hr', husable, hholds⟩, hout⟩
      rcases List.mem_append.mp hr' with hdone | hlast
      · exact Or.inl ⟨hdvd, hvisible, ⟨r', hdone, husable, hholds⟩,
          fun hin => hout ((hold f r' hdone hholds).mpr hin)⟩
      · rw [List.mem_singleton] at hlast
        subst hlast
        exact Or.inr ⟨hdvd, hvisible, ⟨husable, hholds⟩, hout⟩
  pool := hpool

theorem InitInv.not_inPool (hapart : ∀ r' ∈ done, r'.Apart r) {f : ℕ} (hf : r.HoldsFrame f) :
    ¬InPool pmm.pool f := by
  rintro ⟨d, hd, hle, hlt⟩
  rcases h.pool with ⟨hnone, -⟩ | ⟨r', hr', -, hrounds, hsome, hsize⟩
  · rw [hnone.1] at hd
    cases hd
  · rw [hsome, Option.some.injEq] at hd
    subst hd
    have hbounds := hrounds.bounds
    dsimp only at hle hlt
    exact ((hapart r' hr').symm).not_holds hf ⟨by omega, by omega⟩

/-- The pool clause of a region that the pool is not cut off. -/
theorem InitInv.pool_add (hpool : pmm.pool.poolDescription ≠ none ∨ ¬r.TakesPool) :
    (Unconfigured pmm.pool ∧ poolRegion (done ++ [r]) = none) ∨
      ∃ r' ∈ done ++ [r], poolRegion (done ++ [r]) = some r' ∧ r'.Rounds ∧
        pmm.pool.poolDescription = some ⟨r'.base, contiguousChunkPoolSize⟩ ∧
        contiguousChunkPoolSize ≤ r'.size := by
  rcases h.pool with ⟨hnone, hfind⟩ | ⟨r', hr', hfind, hrest⟩
  · have htakes : ¬r.TakesPool := hpool.resolve_left fun hsome => hsome hnone.1
    refine Or.inl ⟨hnone, ?_⟩
    rw [poolRegion_append, hfind, poolRegion_eq_none htakes]
    rfl
  · refine Or.inr ⟨r', List.mem_append_left _ hr', ?_, hrest⟩
    rw [poolRegion_append, hfind, Option.some_or]

end

/-- One region of a map that is rounded without an overflow. -/
theorem InitInv.step (h : InitInv done pmm frames) (hapart : ∀ r' ∈ done, r'.Apart r)
    (hin : r.InMemory) (hround : AllRound (done ++ [r])) :
    ∃ pmm' frames', (∀ checks, initRegion checks pmm r = .ok pmm') ∧
      InitInv (done ++ [r]) pmm' frames' := by
  by_cases husable : r.Usable
  · have hrounds := hround.rounds r (List.mem_append_right _ List.mem_cons_self) husable
    by_cases hpool : pmm.pool.poolDescription ≠ none ∨ ¬r.TakesPool
    · refine ⟨_, _, fun checks => initRegion_whole husable hrounds hin hpool,
        h.add hapart ((nodup_framesFrom _ _ _).filter _) (fun f => ?_) (fun f _ _ _ => Iff.rfl)
        (h.pool_add hpool)⟩
      rw [mem_filter_visible, mem_framesFrom r.dvd_base r.dvd_size]
      constructor
      · rintro ⟨⟨hdvd, hle⟩, hvisible⟩
        have hholds := (hrounds.holdsFrame_iff hdvd).mpr hle
        exact ⟨hdvd, hvisible, ⟨husable, hholds⟩, h.not_inPool hapart hholds⟩
      · rintro ⟨hdvd, hvisible, ⟨-, hholds⟩, -⟩
        exact ⟨⟨hdvd, (hrounds.holdsFrame_iff hdvd).mp hholds⟩, hvisible⟩
    · rw [not_or, not_not, not_not] at hpool
      obtain ⟨hnone, htakes⟩ := hpool
      obtain ⟨hun, hfind⟩ : Unconfigured pmm.pool ∧ poolRegion done = none := by
        refine h.pool.resolve_right ?_
        rintro ⟨r', -, -, -, hsome, -⟩
        rw [hnone] at hsome
        cases hsome
      have hlast : poolRegion (done ++ [r]) = some r := by
        rw [poolRegion_append, hfind, poolRegion_singleton htakes]
        rfl
      have hsize := htakes.2
      have hinside : ∀ f, InPool (⟨some ⟨r.base, contiguousChunkPoolSize⟩, pmm.pool.allocatedChunks,
          [⟨r.base, contiguousChunkPoolSize⟩]⟩ : ContiguousChunkPool) f ↔
            r.base ≤ f ∧ f < r.base + contiguousChunkPoolSize := by
        intro f
        simp only [InPool, Option.some.injEq, exists_eq_left']
      refine ⟨_, _, fun checks => initRegion_pool htakes hrounds hin hun (hround.room r hlast),
        h.add hapart ((nodup_framesFrom _ _ _).filter _) (fun f => ?_) (fun f r' hr' hholds => ?_)
        (Or.inr ⟨r, List.mem_append_right _ List.mem_cons_self, hlast, hrounds, rfl, hsize⟩)⟩
      · rw [mem_filter_visible, mem_framesFrom (Nat.dvd_add r.dvd_base (by decide))
          (Nat.dvd_sub r.dvd_size (by decide)), hinside]
        constructor
        · rintro ⟨⟨hdvd, hle, hlt⟩, hvisible⟩
          exact ⟨hdvd, hvisible, ⟨husable, (hrounds.holdsFrame_iff hdvd).mpr (by omega)⟩, by omega⟩
        · rintro ⟨hdvd, hvisible, ⟨-, hholds⟩, hout⟩
          have hle := (hrounds.holdsFrame_iff hdvd).mp hholds
          exact ⟨⟨hdvd, by omega, by omega⟩, hvisible⟩
      · have hbounds := hrounds.bounds
        rw [hinside]
        refine iff_of_false (fun hf => (hapart r' hr').not_holds hholds ⟨by omega, by omega⟩) ?_
        rintro ⟨d, hd, -⟩
        rw [hnone] at hd
        cases hd
  · have hnot : ¬r.TakesPool := fun htakes => husable htakes.1
    refine ⟨pmm, frames ++ [], fun checks => initRegion_other husable,
      h.add hapart List.nodup_nil (fun f => ?_) (fun f _ _ _ => Iff.rfl) (h.pool_add (Or.inr hnot))⟩
    exact iff_of_false List.not_mem_nil fun hf => husable hf.2.2.1.1

theorem InitInv.step_overflow (h : InitInv done pmm frames) (hdone : AllRound done)
    (hin : r.InMemory) (hround : ¬AllRound (done ++ [r])) :
    initRegion true pmm r = .error .overflow := by
  by_cases hrounds : r.Usable → r.Rounds
  · have hroom : ¬∀ r', poolRegion (done ++ [r]) = some r' →
        r'.base + contiguousChunkPoolSize < 2 ^ 64 := by
      refine fun hroom => hround ⟨fun r' hr' => ?_, hroom⟩
      rcases List.mem_append.mp hr' with hdone' | hlast
      · exact hdone.rounds r' hdone'
      · rw [List.mem_singleton] at hlast
        subst hlast
        exact hrounds
    push Not at hroom
    obtain ⟨r', hfind, hover⟩ := hroom
    rw [poolRegion_append] at hfind
    rcases h.pool with ⟨hun, hnone⟩ | ⟨r₀, -, hsome, -⟩
    · rw [hnone, Option.none_or] at hfind
      by_cases htakes : r.TakesPool
      · rw [poolRegion_singleton htakes, Option.some.injEq] at hfind
        subst hfind
        exact initRegion_pool_overflow htakes (hrounds htakes.1) hin hun hover
      · rw [poolRegion_eq_none htakes] at hfind
        cases hfind
    · rw [hsome, Option.some_or, Option.some.injEq] at hfind
      subst hfind
      exact absurd (hdone.room _ hsome) (not_lt.mpr hover)
  · push Not at hrounds
    exact initRegion_overflow hrounds.1 hrounds.2

/-- **The loop over the regions (proved).** -/
theorem InitInv.run : ∀ {rest done : List PhysicalMemoryRegion} {pmm : PmmState} {frames : List ℕ},
    InitInv done pmm frames → AllRound done →
      (done ++ rest).Pairwise PhysicalMemoryRegion.Apart →
      (∀ r ∈ rest, r.InMemory) →
      (AllRound (done ++ rest) → ∃ pmm' frames',
        (∀ checks, rest.foldlM (initRegion checks) pmm = .ok pmm') ∧
          InitInv (done ++ rest) pmm' frames') ∧
      (¬AllRound (done ++ rest) → rest.foldlM (initRegion true) pmm = .error .overflow) := by
  intro rest
  induction rest with
  | nil =>
    intro done pmm frames h hdone _ _
    rw [List.append_nil]
    exact ⟨fun _ => ⟨pmm, frames, fun _ => rfl, h⟩, fun hround => absurd hdone hround⟩
  | cons r rest ih =>
    intro done pmm frames h hdone hapart hin
    have hlist : done ++ r :: rest = done ++ [r] ++ rest := by rw [List.append_assoc]; rfl
    have hfirst : ∀ r' ∈ done, r'.Apart r := fun r' hr' =>
      (List.pairwise_append.mp hapart).2.2 r' hr' r List.mem_cons_self
    rw [hlist] at hapart ⊢
    have hinr := hin r List.mem_cons_self
    by_cases hround : AllRound (done ++ [r])
    · obtain ⟨pmm', frames', hstep, hinv⟩ := h.step hfirst hinr hround
      obtain ⟨hok, hover⟩ := ih hinv hround hapart fun r' hr' => hin r' (List.mem_cons_of_mem r hr')
      constructor
      · intro hall
        obtain ⟨pmm'', frames'', hrun, hinv'⟩ := hok hall
        refine ⟨pmm'', frames'', fun checks => ?_, hinv'⟩
        rw [List.foldlM_cons, hstep]
        exact hrun checks
      · intro hall
        rw [List.foldlM_cons, hstep]
        exact hover hall
    · refine ⟨fun hall => absurd hall.left hround, fun _ => ?_⟩
      rw [List.foldlM_cons, h.step_overflow hdone hinr hround]
      rfl

end Steps

/-- No operation overflows, and the queue has the usable frames, each once, if they fit. -/
def InitExact (regions : List PhysicalMemoryRegion) : Prop :=
  ∃ pmm, (∀ checks, pmmInit checks regions = .ok pmm) ∧
    (Set.encard {f | UsableFrame regions pmm.pool f} ≤ pmmCapacity →
      pmm.freeFrames.Nodup ∧ ∀ f, f ∈ pmm.freeFrames ↔ UsableFrame regions pmm.pool f)

theorem InitInv.exact {regions : List PhysicalMemoryRegion} {pmm : PmmState} {frames : List ℕ}
    (h : InitInv regions pmm frames)
    (hfits : Set.encard {f | UsableFrame regions pmm.pool f} ≤ pmmCapacity) :
    pmm.freeFrames.Nodup ∧ ∀ f, f ∈ pmm.freeFrames ↔ UsableFrame regions pmm.pool f := by
  have hset : {f | UsableFrame regions pmm.pool f} = (frames.toFinset : Set ℕ) := by
    ext f
    rw [List.coe_toFinset]
    exact (h.mem_iff f).symm
  rw [hset, Set.encard_coe_eq_coe_finsetCard, List.toFinset_card_of_nodup h.nodup,
    Nat.cast_le] at hfits
  rw [h.queue, List.take_of_length_le hfits]
  exact ⟨h.nodup, h.mem_iff⟩

/-- **For which memory maps the queue gets the usable frames (proved).** -/
theorem initExact_iff {regions : List PhysicalMemoryRegion}
    (hapart : regions.Pairwise PhysicalMemoryRegion.Apart) (hin : ∀ r ∈ regions, r.InMemory) :
    InitExact regions ↔ AllRound regions := by
  obtain ⟨hok, hover⟩ := initInv_start.run
    ⟨fun r hr => absurd hr List.not_mem_nil, fun r hr => by cases hr⟩ hapart hin
  constructor
  · rintro ⟨pmm, hrun, -⟩
    by_contra hround
    have hstop := hover hround
    rw [show regions.foldlM (initRegion true) ⟨[], .new⟩ = .ok pmm from hrun true] at hstop
    cases hstop
  · intro hround
    obtain ⟨pmm, frames, hrun, hinv⟩ := hok hround
    exact ⟨pmm, hrun, hinv.exact⟩

/-- A small map: the hidden frames are in the first region, which is not aligned. -/
def lowMemory : List PhysicalMemoryRegion :=
  [⟨.usable, 0x6800, 0x5000⟩, ⟨.reserved, 0xb800, 0x100⟩, ⟨.usable, 0x10000, 0x1fff⟩]

theorem initExact_lowMemory :
    (pmmInit true lowMemory).map PmmState.freeFrames = .ok [0x7000, 0xa000, 0x10000] ∧
      InitExact lowMemory := by
  refine ⟨rfl, (initExact_iff ?_ (by decide)).mpr ⟨by decide, fun r hr => ?_⟩⟩
  · simp only [lowMemory, List.pairwise_cons, List.mem_cons, List.not_mem_nil, or_false,
      forall_eq_or_imp, forall_eq, false_imp_iff, implies_true, List.Pairwise.nil, and_true]
    refine ⟨⟨fun a => ?_, fun a => ?_⟩, fun a => ?_⟩ <;> dsimp only <;> omega
  · cases hr

/-- A region of sixteen bytes that is not aligned. -/
theorem initRegion_tiny :
    PhysicalMemoryRegion.InMemory ⟨.usable, 0x1001, 0x10⟩ ∧
      pmmInit true [⟨.usable, 0x1001, 0x10⟩] = .error .overflow ∧
      ¬InitExact [⟨.usable, 0x1001, 0x10⟩] := by
  have hstop : pmmInit true [⟨.usable, 0x1001, 0x10⟩] = .error .overflow := rfl
  refine ⟨by decide, hstop, ?_⟩
  rintro ⟨pmm, hrun, -⟩
  rw [hrun true] at hstop
  cases hstop

end Axle.Kernel.Pmm
