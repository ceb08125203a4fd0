import Axle.Lib.StepRun
import Mathlib.Data.List.Basic
import Mathlib.Tactic

/-!
# The contiguous chunk pool of the physical memory manager

`pmm/src/lib.rs` keeps one pool of physical memory for requests that need consecutive frames.
The pool is two vectors of chunks, `free_chunks` and `allocated_chunks`; `alloc` takes the first
free chunk that is large enough, cuts the request off its front and records the piece as
allocated.

The kernel build stores both vectors in `heapless::Vec`s of `MAX_CONTIGUOUS_CHUNK_FRAMES`
entries, whose `push` gives the item back when the vector is full; `alloc` drops that result.
When a free chunk is used up exactly, `alloc` means to remove it ("Remove the chunk entirely"),
but the closure it passes to `retain` keeps the chunk equal to the exhausted one and drops every
other.

* `ContiguousChunkPool.alloc` — the code, with `none` for the panic of `unwrap`;
* `PoolSound` — what an allocator owes its callers: chunks in use are disjoint, inside the pool,
  disjoint from the free chunks, and no byte is lost;
* `poolSound_run_iff` — **PROVED**: the states of a run are sound exactly when no request uses
  up the free memory exactly and no more requests are made than `allocated_chunks` can record.

Addresses are natural numbers.  No sum in `alloc` leaves the pool, so none wraps around for a
pool that lies in the address space.
-/

namespace Axle.Kernel.Pmm

open Axle.Lib.StepRun

/-! ### The pool and its operations -/

def pageSize : ℕ := 0x1000
def megabyte : ℕ := 1024 * 1024
def contiguousChunkPoolSize : ℕ := megabyte * 128
def maxContiguousChunkFrames : ℕ := contiguousChunkPoolSize / pageSize

structure ContiguousChunk where
  base : ℕ
  size : ℕ
  deriving DecidableEq, Repr

structure ContiguousChunkPoolDescription where
  base : ℕ
  totalSize : ℕ
  deriving DecidableEq, Repr

structure ContiguousChunkPool where
  poolDescription : Option ContiguousChunkPoolDescription
  allocatedChunks : List ContiguousChunk
  freeChunks : List ContiguousChunk
  deriving DecidableEq, Repr

/-- `heapless::Vec::push` at capacity `maxContiguousChunkFrames`: `none` gives the item back. -/
def pushChunk (chunks : List ContiguousChunk) (c : ContiguousChunk) :
    Option (List ContiguousChunk) :=
  if chunks.length < maxContiguousChunkFrames then some (chunks ++ [c]) else none

def ContiguousChunkPool.new : ContiguousChunkPool := ⟨none, [], []⟩

/-- Describe the pool and start off with a single free chunk of its size.  The `push` is
unwrapped, so a full vector panics. -/
def ContiguousChunkPool.setPoolDescription (pool : ContiguousChunkPool) (base totalSize : ℕ) :
    Option ContiguousChunkPool :=
  (pushChunk pool.freeChunks ⟨base, totalSize⟩).map fun free =>
    { pool with poolDescription := some ⟨base, totalSize⟩, freeChunks := free }

def ContiguousChunkPool.isPoolConfigured (pool : ContiguousChunkPool) : Bool :=
  pool.poolDescription.isSome

/-- The loop of `alloc` over `free_chunks.iter_mut()`: the free chunks it leaves, the chunk to
drop afterwards and the chunk it allocated. -/
def searchFreeChunks (size : ℕ) : List ContiguousChunk →
    List ContiguousChunk × Option ContiguousChunk × Option ContiguousChunk
  | [] => ([], none, none)
  | chunk :: rest =>
    if size ≤ chunk.size then
      let newSize := chunk.size - size
      if newSize = 0 then
        (chunk :: rest, some chunk, some ⟨chunk.base, size⟩)
      else
        (⟨chunk.base + size, chunk.size - size⟩ :: rest, none, some ⟨chunk.base, size⟩)
    else
      let found := searchFreeChunks size rest
      (chunk :: found.1, found.2)

/-- Allocate `size` bytes: the base of the new chunk and the pool afterwards, or `none` when no
free chunk is large enough and the final `unwrap` panics. -/
def ContiguousChunkPool.alloc (pool : ContiguousChunkPool) (size : ℕ) :
    Option (ℕ × ContiguousChunkPool) :=
  match searchFreeChunks size pool.freeChunks with
  | (_, _, none) => none
  | (free, chunkToDrop, some allocatedChunk) =>
    -- the result of this push is dropped, so a full vector keeps its contents
    let allocated := (pushChunk pool.allocatedChunks allocatedChunk).getD pool.allocatedChunks
    let free := match chunkToDrop with
      | some chunkToDrop => free.filter fun i => i = chunkToDrop
      | none => free
    some (allocatedChunk.base, { pool with allocatedChunks := allocated, freeChunks := free })

/-! ### Soundness of a pool state -/

/-- The chunks share no address. -/
def ContiguousChunk.Apart (c d : ContiguousChunk) : Prop :=
  ∀ a, ¬((c.base ≤ a ∧ a < c.base + c.size) ∧ (d.base ≤ a ∧ a < d.base + d.size))

/-- The chunks in use are pairwise disjoint, lie in `[base, base + total)`, are disjoint from
every free chunk, and together with the free chunks add up to `total`. -/
structure PoolSound (base total : ℕ) (allocated free : List ContiguousChunk) : Prop where
  disjoint : allocated.Pairwise ContiguousChunk.Apart
  inside : ∀ c ∈ allocated, base ≤ c.base ∧ c.base + c.size ≤ base + total
  apart_free : ∀ c ∈ allocated, ∀ f ∈ free, c.Apart f
  accounted : (free.map (·.size)).sum + (allocated.map (·.size)).sum = total

/-- A pool together with the chunks its callers were handed, in order. -/
structure PoolRun where
  pool : ContiguousChunkPool
  handedOut : List ContiguousChunk
  deriving DecidableEq, Repr

def PoolRun.next (r : PoolRun) (size : ℕ) : Option PoolRun :=
  (r.pool.alloc size).map fun a => ⟨a.2, r.handedOut ++ [⟨a.1, size⟩]⟩

/-- Both readings of "allocated" are sound: the chunks the callers were handed and the chunks
the pool has recorded. -/
def PoolRun.Sound (base total : ℕ) (r : PoolRun) : Prop :=
  PoolSound base total r.handedOut r.pool.freeChunks ∧
    PoolSound base total r.pool.allocatedChunks r.pool.freeChunks

/-! ### One allocation from a pool with one free chunk

A pool starts with one free chunk and `alloc` never adds one, so this is the general case. -/

variable {b n size base total : ℕ} {pool : ContiguousChunkPool} {r r' : PoolRun} {sizes : List ℕ}

section

variable (hfree : pool.freeChunks = [⟨b, n⟩])

include hfree

theorem alloc_too_large (h : n < size) : pool.alloc size = none := by
  simp [ContiguousChunkPool.alloc, searchFreeChunks, hfree, Nat.not_le.mpr h]

/-- An exact fit leaves the exhausted chunk in the free list. -/
theorem alloc_exact :
    pool.alloc n = some (b, { pool with
      allocatedChunks := (pushChunk pool.allocatedChunks ⟨b, n⟩).getD pool.allocatedChunks }) := by
  obtain ⟨d, allocated, free⟩ := pool
  subst hfree
  simp [ContiguousChunkPool.alloc, searchFreeChunks]

theorem alloc_shrinks (h : size < n) :
    pool.alloc size = some (b, { pool with
      allocatedChunks := (pushChunk pool.allocatedChunks ⟨b, size⟩).getD pool.allocatedChunks
      freeChunks := [⟨b + size, n - size⟩] }) := by
  have hne : n - size ≠ 0 := by omega
  simp [ContiguousChunkPool.alloc, searchFreeChunks, hfree, h.le, hne]

end

/-! ### The invariant of a run without an exact fit -/

/-- One free chunk `[b, b + n)` is left at the end of the pool, the chunks in use lie before it,
and the pool has recorded all of them. -/
structure Filled (base total b n : ℕ) (r : PoolRun) : Prop where
  free : r.pool.freeChunks = [⟨b, n⟩]
  recorded : r.pool.allocatedChunks = r.handedOut
  room : r.handedOut.length ≤ maxContiguousChunkFrames
  low : base ≤ b
  high : b + n = base + total
  inside : ∀ c ∈ r.handedOut, base ≤ c.base ∧ c.base + c.size ≤ b
  disjoint : r.handedOut.Pairwise ContiguousChunk.Apart
  accounted : n + (r.handedOut.map (·.size)).sum = total

theorem Filled.sound (h : Filled base total b n r) : r.Sound base total := by
  have hs : PoolSound base total r.handedOut r.pool.freeChunks := by
    refine ⟨h.disjoint, ?_, ?_, ?_⟩
    · intro c hc
      have := h.inside c hc
      have := h.high
      omega
    · intro c hc f hf a
      rw [h.free, List.mem_singleton] at hf
      subst hf
      have := (h.inside c hc).2
      rintro ⟨⟨_, h1⟩, h2, _⟩
      simp only at h2
      omega
    · rw [h.free]
      simpa using h.accounted
  refine ⟨hs, ?_⟩
  rw [h.recorded]
  exact hs

/-- A request smaller than the free chunk keeps the invariant as long as the record has room. -/
theorem Filled.step {base total b n size : ℕ} {r : PoolRun} (h : Filled base total b n r)
    (hsize : size < n) (hroom : r.handedOut.length < maxContiguousChunkFrames) :
    ∃ r', r.next size = some r' ∧ r'.handedOut.length = r.handedOut.length + 1 ∧
      Filled base total (b + size) (n - size) r' := by
  refine ⟨⟨{ r.pool with
      allocatedChunks := r.handedOut ++ [⟨b, size⟩]
      freeChunks := [⟨b + size, n - size⟩] }, r.handedOut ++ [⟨b, size⟩]⟩, ?_, ?_, ?_⟩
  · rw [PoolRun.next, alloc_shrinks h.free hsize, h.recorded, pushChunk, if_pos hroom]
    rfl
  · simp
  · have hlow := h.low
    have hhigh := h.high
    have hacc := h.accounted
    refine ⟨rfl, rfl, ?_, by omega, by omega, ?_, ?_, ?_⟩
    · rw [List.length_append, List.length_singleton]
      omega
    · intro c hc
      rcases List.mem_append.mp hc with hc | hc
      · have := h.inside c hc
        omega
      · rw [List.mem_singleton] at hc
        subst hc
        exact ⟨hlow, le_rfl⟩
    · refine List.pairwise_append.mpr ⟨h.disjoint, List.pairwise_singleton _ _, ?_⟩
      intro c hc d hd a
      rw [List.mem_singleton] at hd
      subst hd
      have := (h.inside c hc).2
      rintro ⟨⟨_, h1⟩, h2, _⟩
      simp only at h2
      omega
    · simp only [List.map_append, List.sum_append, List.map_cons, List.map_nil, List.sum_cons,
        List.sum_nil]
      omega

/-- A request that uses up the free chunk hands out memory that stays free. -/
theorem Filled.exact_unsound (h : Filled base total b n r) (hn : 0 < n) (hr : r.next n = some r') :
    ¬r'.Sound base total := by
  rw [PoolRun.next, alloc_exact h.free] at hr
  simp only [Option.map_some, Option.some.injEq] at hr
  subst hr
  rintro ⟨hs, -⟩
  refine hs.apart_free ⟨b, n⟩ (by simp) ⟨b, n⟩ (by simp [h.free]) b ?_
  simp only
  omega

/-- A request past the capacity of the record leaves a chunk that nothing accounts for. -/
theorem Filled.full_unsound (h : Filled base total b n r) (hpos : 0 < size) (hsize : size < n)
    (hfull : r.handedOut.length = maxContiguousChunkFrames) (hr : r.next size = some r') :
    ¬r'.Sound base total := by
  rw [PoolRun.next, alloc_shrinks h.free hsize, h.recorded, pushChunk, if_neg (by omega)] at hr
  simp only [Option.map_some, Option.some.injEq, Option.getD_none] at hr
  subst hr
  rintro ⟨-, hs⟩
  have hacc := hs.accounted
  have := h.accounted
  simp only [List.map_cons, List.map_nil, List.sum_cons, List.sum_nil] at hacc
  omega

/-! ### Whole runs -/

/-- The states a run of `sizes` passes through are all sound. -/
def AllSound (base total : ℕ) (r : PoolRun) (sizes : List ℕ) : Prop :=
  ∀ done, done <+: sizes → ∀ r', run PoolRun.next r done = some r' → r'.Sound base total

theorem AllSound.head (h : AllSound base total r (size :: sizes)) (hr : r.next size = some r') :
    r'.Sound base total :=
  h [size] (by simp) r' (by simp [run, hr])

theorem AllSound.tail (h : AllSound base total r (size :: sizes)) (hr : r.next size = some r') :
    AllSound base total r' sizes := by
  intro done hdone t ht
  refine h (size :: done) (by simpa using hdone) t ?_
  exact run_cons_eq_some.mpr ⟨r', hr, ht⟩

theorem AllSound.cons {base total size : ℕ} {r r' : PoolRun} {sizes : List ℕ}
    (hs : r.Sound base total) (hr : r.next size = some r') (ht : AllSound base total r' sizes) :
    AllSound base total r (size :: sizes) := by
  intro done hdone t hrun
  cases done with
  | nil =>
    exact Option.some.inj hrun ▸ hs
  | cons size' done =>
    obtain ⟨rfl, hdone'⟩ := List.cons_prefix_cons.mp hdone
    obtain ⟨u, hu, hrest⟩ := run_cons_eq_some.mp hrun
    rw [hr] at hu
    exact ht done hdone' t (Option.some.inj hu ▸ hrest)

/-- The run lemma: from a filled pool, a run that does not panic is sound throughout exactly when
no first part of it asks for all of the free chunk and the record has room for all of it. -/
theorem Filled.allSound_iff :
    ∀ (sizes : List ℕ) (b n : ℕ) (r t : PoolRun), Filled base total b n r →
      (∀ size ∈ sizes, 0 < size) → run PoolRun.next r sizes = some t →
      (AllSound base total r sizes ↔
        (∀ done, done <+: sizes → done ≠ [] → done.sum ≠ n) ∧
          r.handedOut.length + sizes.length ≤ maxContiguousChunkFrames) := by
  intro sizes
  induction sizes with
  | nil =>
    intro b n r t h _ _
    refine ⟨fun _ => ⟨fun done hdone hne => ?_, h.room⟩, fun _ done hdone r' hr' => ?_⟩
    · exact absurd (List.prefix_nil.mp hdone) hne
    · rw [List.prefix_nil.mp hdone, run_nil] at hr'
      exact Option.some.inj hr' ▸ h.sound
  | cons size sizes ih =>
    intro b n r t h hpos hrun
    have hsize : 0 < size := hpos size List.mem_cons_self
    obtain ⟨u, hu, hrest⟩ := run_cons_eq_some.mp hrun
    -- the request did not panic, so it is at most the free chunk
    have hle : size ≤ n := by
      by_contra hgt
      rw [PoolRun.next, alloc_too_large h.free (by omega)] at hu
      cases hu
    rcases Nat.lt_or_ge size n with hlt | hge
    · rcases Nat.lt_or_ge r.handedOut.length maxContiguousChunkFrames with hroom | hfull
      · obtain ⟨r', hr', hlen, hfilled⟩ := h.step hlt hroom
        rw [hr'] at hu
        obtain rfl := Option.some.inj hu
        have hiff := ih (b + size) (n - size) r' t hfilled
          (fun s hs => hpos s (List.mem_cons_of_mem size hs)) hrest
        have htail : AllSound base total r (size :: sizes) ↔ AllSound base total r' sizes :=
          ⟨fun ha => ha.tail hr', fun ha => AllSound.cons h.sound hr' ha⟩
        rw [htail, hiff, hlen, List.length_cons]
        refine and_congr ?_ (by omega)
        constructor
        · intro hne done hdone hnil hsum
          cases done with
          | nil => exact hnil rfl
          | cons size' done =>
            obtain ⟨rfl, hdone'⟩ := List.cons_prefix_cons.mp hdone
            rw [List.sum_cons] at hsum
            cases done with
            | nil => simp at hsum; omega
            | cons x xs => exact hne _ hdone' (by simp) (by omega)
        · intro hne done hdone _ hsum
          refine hne (size :: done) (by simpa using hdone) (by simp) ?_
          rw [List.sum_cons]
          omega
      · have hfull' : r.handedOut.length = maxContiguousChunkFrames := le_antisymm h.room hfull
        refine iff_of_false (fun ha => h.full_unsound hsize hlt hfull' hu (ha.head hu)) ?_
        rintro ⟨-, hlen⟩
        rw [List.length_cons] at hlen
        omega
    · obtain rfl : size = n := le_antisymm hle hge
      refine iff_of_false (fun ha => h.exact_unsound hsize hu (ha.head hu)) ?_
      rintro ⟨hne, -⟩
      exact hne [size] (by simp) (by simp) (by simp)

theorem filled_start (h : ContiguousChunkPool.new.setPoolDescription base total = some pool) :
    Filled base total base total ⟨pool, []⟩ := by
  have hcap : 0 < maxContiguousChunkFrames := by decide
  obtain rfl := Option.some.inj h
  exact ⟨rfl, rfl, Nat.zero_le _, le_rfl, rfl, by simp, List.Pairwise.nil, by simp⟩

/-- **When the pool is sound (proved).**  Take a pool of page-aligned `base` and `total` and any
sequence of positive page-multiple requests that all succeed.  Every state of the run is sound
if and only if no first part of the sequence asks for exactly `total` bytes and there are at
most `maxContiguousChunkFrames` requests. -/
theorem poolSound_run_iff (base total : ℕ) (_hbase : pageSize ∣ base) (_htotal : pageSize ∣ total)
    (pool : ContiguousChunkPool)
    (hpool : ContiguousChunkPool.new.setPoolDescription base total = some pool)
    (sizes : List ℕ) (hsizes : ∀ size ∈ sizes, 0 < size ∧ pageSize ∣ size)
    (last : PoolRun) (hrun : run PoolRun.next ⟨pool, []⟩ sizes = some last) :
    (∀ done, done <+: sizes → ∀ r, run PoolRun.next ⟨pool, []⟩ done = some r →
        r.Sound base total) ↔
      (∀ done, done <+: sizes → done ≠ [] → done.sum ≠ total) ∧
        sizes.length ≤ maxContiguousChunkFrames := by
  have h := Filled.allSound_iff sizes base total ⟨pool, []⟩ last (filled_start hpool)
    (fun size hs => (hsizes size hs).1) hrun
  simpa [AllSound] using h

/-- The pool of the source's own test: one allocation of `0x4000` out of `0x20000`. -/
theorem poolSound_basic_allocation :
    ∃ pool, ContiguousChunkPool.new.setPoolDescription 0x10000 0x20000 = some pool ∧
      ∀ done, done <+: [0x4000] → ∀ r, run PoolRun.next ⟨pool, []⟩ done = some r →
        r.Sound 0x10000 0x20000 := by
  refine ⟨_, rfl, ?_⟩
  refine (poolSound_run_iff 0x10000 0x20000 (by decide) (by decide) _ rfl [0x4000]
    (by decide) _ rfl).mpr ⟨?_, by decide⟩
  intro done hdone hne
  rcases List.prefix_cons_iff.mp hdone with rfl | ⟨t, rfl, ht⟩
  · exact absurd rfl hne
  · rw [List.prefix_nil.mp ht]
    decide

/-- A pool of `0x20000` bytes asked for all of it: the chunk that was handed out is still free,
and the same request succeeds again with the same address. -/
theorem poolSound_exact_fit_fails :
    ∃ pool r, ContiguousChunkPool.new.setPoolDescription 0x10000 0x20000 = some pool ∧
      run PoolRun.next ⟨pool, []⟩ [0x20000] = some r ∧
      ¬r.Sound 0x10000 0x20000 ∧
      (r.pool.alloc 0x20000).map (·.1) = some 0x10000 := by
  refine ⟨_, _, rfl, rfl, ?_, by decide⟩
  rintro ⟨hs, -⟩
  exact hs.apart_free ⟨0x10000, 0x20000⟩ (by decide) ⟨0x10000, 0x20000⟩ (by decide) 0x10000
    (by decide)

end Axle.Kernel.Pmm
