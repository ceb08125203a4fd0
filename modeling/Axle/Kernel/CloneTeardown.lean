import Axle.Kernel.PageMapping
import Axle.Kernel.VasClone

/-!
# A cloned address space and its teardown

What `vas_clone` promises, read through the page tables of parent and clone: every entry of the
user half with its rights, every page with its contents, the frames both are on, and what
`vas_teardown` of the clone gives back.

* `vasClone_exact` — **PROVED**: cloning is exact, and tearing the clone down returns its frames
  and no other.
-/

namespace Axle.Kernel

open Axle.Lib
open scoped List

/-! ### Reading the copy by slots -/

theorem mem_take_of_lt {i : Fin 512} (hi : i.val < 256) : i ∈ (List.finRange 512).take 256 := by
  refine List.mem_take_iff_getElem.mpr ⟨i.val, ?_, ?_⟩
  · rw [List.length_finRange]
    omega
  · rw [List.getElem_finRange]
    rfl

theorem slot_phys (m : Ram) (r : Frame) (ℓ x : Nat) :
    slot m.phys r ℓ x =
      (RadixTable.entry Word.child m.words r (path ℓ (x / 512)) (idx x)).map Word.toPageEntry := by
  rw [slot, RadixTable.entry, RadixTable.entry]
  show Option.bind (RadixTable.node Word.child m.words r (path ℓ (x / 512))) _ = _
  cases RadixTable.node Word.child m.words r (path ℓ (x / 512)) with
  | none => rfl
  | some f =>
    show (if (Word.child (m.words f (idx x))).isSome then some (m.words f (idx x)).toPageEntry
      else none) = Option.map Word.toPageEntry (if _ then _ else _)
    cases (Word.child (m.words f (idx x))).isSome <;> rfl

section Clone

variable {m m' : Ram} {r r' : Frame} {A : List Frame}

theorem below_head {ℓ x : Nat} (hx : Below 256 ℓ x) :
    ∀ i ∈ (path ℓ (x / 512) ++ [idx x]).head?, i ∈ (List.finRange 512).take 256 := by
  intro i hi
  have hhead : (path ℓ (x / 512) ++ [idx x]).head? = some (idx (x / 512 ^ ℓ)) := path_head? ℓ x
  rw [hhead] at hi
  cases hi
  refine mem_take_of_lt ?_
  show x / 512 ^ ℓ % 512 < 256
  exact Nat.lt_of_le_of_lt (Nat.mod_le _ _) hx.2

section

variable (h : UserHalfCopy m m' r r' A)

include h

theorem UserHalfCopy.rightsAt {ℓ x : Nat} (hx : Below 256 ℓ x) :
    rightsAt m'.phys r' ℓ x = Kernel.rightsAt m.phys r ℓ x := by
  have hrel := h.entry List.mem_finRange (below_head hx) (by rw [path_length]; exact hx.1)
  rw [Kernel.rightsAt, Kernel.rightsAt, slot_phys, slot_phys]
  generalize RadixTable.entry Word.child m.words r (path ℓ (x / 512)) (idx x) = a at hrel ⊢
  generalize RadixTable.entry Word.child m'.words r' (path ℓ (x / 512)) (idx x) = b at hrel ⊢
  cases hrel with
  | none => rfl
  | some hsame => exact congrArg some hsame

theorem UserHalfCopy.page {P : Nat} (hP : P < 2 ^ 35) {f : Frame}
    (hf : frameAt m.phys r P = some f) :
    ∃ f', frameAt m'.phys r' P = some f' ∧ m'.words f' = m.words f := by
  obtain ⟨i, q, hpath⟩ : ∃ i q, path 4 P = i :: q :=
    List.exists_cons_of_length_pos (by rw [path_length]; decide)
  have hq : q.length = 3 := by
    have := congrArg List.length hpath
    rw [path_length, List.length_cons] at this
    omega
  have hi : i ∈ (List.finRange 512).take 256 := by
    have hbelow : Below 256 3 P := ⟨Nat.le_refl 3, by omega⟩
    refine below_head hbelow i ?_
    show i ∈ (path 4 P).head?
    rw [hpath]
    rfl
  have hrel := h.node_cons List.mem_finRange hi (Nat.le_of_eq hq)
  rw [frameAt_eq_tableAt, tableAt, hpath] at hf ⊢
  replace hf : RadixTable.node Word.child m.words r (i :: q) = some f := hf
  show ∃ f', RadixTable.node Word.child m'.words r' (i :: q) = some f' ∧ m'.words f' = m.words f
  rw [hf, hq] at hrel
  generalize RadixTable.node Word.child m'.words r' (i :: q) = o at hrel ⊢
  cases hrel with
  | some hcopy =>
    obtain ⟨B, hcopy⟩ := hcopy
    exact ⟨_, rfl, hcopy.1⟩

/-- What teardown would free is what the copy took, and the PML4. -/
theorem UserHalfCopy.teardownFrames : (teardownFrames m'.phys r').Perm (r' :: A) := by
  rw [teardownFrames_phys]
  exact (List.perm_append_singleton r' _).trans (h.perm.cons r')

end

theorem slot_of_same_entry {m : PhysMem} {r r' : Frame} {ℓ x : Nat}
    (h : m.tables r (idx (x / 512 ^ ℓ)) = m.tables r' (idx (x / 512 ^ ℓ))) :
    slot m r ℓ x = slot m r' ℓ x := by
  cases ℓ with
  | zero =>
    rw [pow_zero, Nat.div_one] at h
    show (if (m.tables r (idx x)).child.isSome then some (m.tables r (idx x)) else none) =
      if (m.tables r' (idx x)).child.isSome then some (m.tables r' (idx x)) else none
    rw [h]
  | succ ℓ =>
    obtain ⟨i, q, hpath⟩ : ∃ i q, path (ℓ + 1) (x / 512) = i :: q :=
      List.exists_cons_of_length_pos (by rw [path_length]; exact Nat.succ_pos ℓ)
    have hi : i = idx (x / 512 ^ (ℓ + 1)) := by
      have hhead := path_head? ℓ (x / 512)
      rw [hpath, Nat.div_div_eq_div_mul, Nat.mul_comm, ← Nat.pow_succ] at hhead
      exact Option.some.inj hhead
    rw [slot, slot, hpath, hi, RadixTable.entry, RadixTable.entry, RadixTable.node_cons,
      RadixTable.node_cons, h]

theorem translate_of_same_entry {m : PhysMem} {r r' : Frame} {P : Nat}
    (h : m.tables r (idx (block P 0)) = m.tables r' (idx (block P 0))) :
    translate m r P = translate m r' P := by
  have hentry : ∀ ℓ ≤ 3, entryOf m r P ℓ = entryOf m r' P ℓ := by
    intro ℓ hℓ
    have hblock : block P ℓ / 512 ^ ℓ = block P 0 := by
      rw [block, block, Nat.div_div_eq_div_mul, ← Nat.pow_add, Nat.sub_add_cancel hℓ]
    refine slot_of_same_entry ?_
    rw [hblock, h]
  unfold translate
  rw [hentry 0 (by decide), hentry 1 (by decide), hentry 2 (by decide), hentry 3 (by decide)]

end Clone

/-! ### Giving the frames back -/

theorem foldlM_pmmFree_eq {m : PhysMem} {frames : List Frame}
    (h : m.free.length + frames.length ≤ pmmCapacity) :
    frames.foldlM pmmFree m = .ok { m with free := m.free ++ frames } := by
  induction frames generalizing m with
  | nil =>
    rw [List.append_nil]
    rfl
  | cons f frames ih =>
    rw [List.length_cons] at h
    rw [List.foldlM_cons, pmmFree, if_pos (by omega), ok_bind, ih]
    · rw [List.append_assoc]
      rfl
    · rw [List.length_append, List.length_singleton]
      omega

/-- The clone that was made from `m`, in the memory `m'` after the call, when `kcalloc` of its
`vas_state_t` took the frames `taken`. -/
structure CloneExact (heap : KernelHeap) (m : Ram) (parent cpuBaseVas : Vas) (taken : List Frame)
    (address : Nat) (clone : Vas) (m' : Ram) : Prop where
  /-- The parent's tables and pages are as before. -/
  kept : ∀ f ∈ teardownFrames m.phys parent.pml4, m'.words f = m.words f
  /-- An entry of the user half is present when the parent's is, with the same rights. -/
  rights : ∀ ℓ x, Below 256 ℓ x →
    rightsAt m'.phys clone.pml4 ℓ x = rightsAt m.phys parent.pml4 ℓ x
  /-- A page has the contents of the parent's page. -/
  pages : ∀ P < 2 ^ 35, ∀ f, frameAt m.phys parent.pml4 P = some f →
    ∃ f', frameAt m'.phys clone.pml4 P = some f' ∧ m'.words f' = m.words f
  /-- The clone's tables and pages are on different frames, all of them free before. -/
  distinct : (teardownFrames m'.phys clone.pml4).Nodup
  wereFree : ∀ f ∈ teardownFrames m'.phys clone.pml4, f ∈ m.free
  /-- The kernel half is the one of the CPU's base address space. -/
  kernelHalf : ∀ P < 2 ^ 36, 2 ^ 35 ≤ P →
    translate m'.phys clone.pml4 P = translate m'.phys cpuBaseVas.pml4 P
  /-- Teardown returns exactly these frames, and `kfree` then finds the queue as it was before but
  for what the heap took. -/
  teardown : ∃ m₃ : Ram, m'.vasTeardown heap address clone = heap.kfree address m₃ ∧
    m₃.words = m'.words ∧ m₃.free = m'.free ++ teardownFrames m'.phys clone.pml4 ∧
    (taken ++ m₃.free).Perm m.free

/-- **Cloning an address space is exact, and its teardown returns the clone's frames (proved).**
Whatever `kcalloc` took from the queue to make room for the `vas_state_t`, the call succeeds with
a clone as `CloneExact` describes it. -/
theorem vasClone_exact (heap : KernelHeap) (m : Ram) (parent cpuBaseVas : Vas) (newPml4 : Frame)
    (address : Nat) (m₁ m₂ : Ram) (taken : List Frame)
    (h : CloneReady heap m parent cpuBaseVas newPml4 address m₁ m₂ taken) :
    ∃ clone m', vasClone heap m parent cpuBaseVas = .ok (address, clone, m') ∧
      CloneExact heap m parent cpuBaseVas taken address clone m' := by
  obtain ⟨A, m', hrun, hfree, hframe, hkernel, hcopy⟩ := vasClone_copies h
  have hall : m.free = newPml4 :: (taken ++ (A ++ m'.free)) := by
    rw [h.free_eq, hfree]
  have hback : (taken ++ (m'.free ++ teardownFrames m'.phys newPml4)).Perm m.free := by
    rw [hall]
    calc
      taken ++ (m'.free ++ teardownFrames m'.phys newPml4)
      _ ~ taken ++ (m'.free ++ newPml4 :: A) :=
        (hcopy.teardownFrames.append_left _).append_left _
      _ ~ taken ++ newPml4 :: (A ++ m'.free) := List.perm_append_comm.append_left _
      _ ~ newPml4 :: (taken ++ (A ++ m'.free)) := List.perm_middle
  refine ⟨_, m', hrun, ?_, fun ℓ x hx => hcopy.rightsAt hx, fun P hP f hf => hcopy.page hP hf,
    ?_, ?_, ?_, { m' with free := m'.free ++ teardownFrames m'.phys newPml4 }, ?_, rfl, rfl,
    hback⟩
  · intro f hf
    have hused := h.used f hf
    rw [hall, List.mem_cons, List.mem_append, List.mem_append, not_or, not_or, not_or] at hused
    rw [hframe f hused.1 hused.2.2.1, h.parent_words hf]
  · exact (hback.nodup_iff.mpr h.nodup).of_append_right.of_append_right
  · intro f hf
    exact hback.subset (List.mem_append_right _ (List.mem_append_right _ hf))
  · intro P hP hlow
    refine translate_of_same_entry (congrArg Word.toPageEntry (hkernel _ ?_))
    show 256 ≤ block P 0 % 512
    rw [block_zero]
    omega
  · have hlen := hback.length_eq
    rw [List.length_append, List.length_append] at hlen
    have hcap := h.capacity
    rw [Ram.vasTeardown, vasTeardown, if_neg (Nat.lt_irrefl 255), foldlM_pmmFree_eq]
    · rfl
    · show m'.free.length + (teardownFrames m'.phys newPml4).length ≤ pmmCapacity
      omega

/-! ### An address space with one page -/

/-- A heap with room: neither call moves a frame. -/
def roomyHeap : KernelHeap where
  kcalloc := fun m => .ok (0xFFFF900000001060, m)
  kfree := fun _ m => .ok m

/-- An entry that leads to a table or page. -/
def Word.to (userMode : Bool) (f : Frame) : Word :=
  { present := true, writable := true, userMode, base := f, rest := 0 }

/-- The PML4 of the CPU's base address space is frame 0, and the one of `onePageVas` frame 4; the
page is in frame 8. -/
def onePageRam : Ram where
  words := fun f i =>
    if f = frameOf 0 ∧ i = 288 then .to false (frameOf 0x1000)
    else if f = frameOf 0x4000 ∧ i = 0 then .to true (frameOf 0x5000)
    else if f = frameOf 0x5000 ∧ i = 0 then .to true (frameOf 0x6000)
    else if f = frameOf 0x6000 ∧ i = 0 then .to true (frameOf 0x7000)
    else if f = frameOf 0x7000 ∧ i = 5 then .to true (frameOf 0x8000)
    else if f = frameOf 0x8000 then { Word.zero with rest := 7 }
    else .zero
  free := (List.range 8).map fun k => frameOf (0x100000 + k * 0x1000)

/-- An address space without ranges, as the calls see it. -/
def vasAt (pml4 : Nat) : Vas where
  pml4 := frameOf pml4
  maxRangeCount := 255
  ranges := []

theorem onePageRam_frames : teardownFrames onePageRam.phys (vasAt 0x4000).pml4 =
    [frameOf 0x8000, frameOf 0x7000, frameOf 0x6000, frameOf 0x5000, frameOf 0x4000] := by
  decide +kernel

/-- The new PML4 has been taken. -/
def onePageRam₁ : Ram where
  words := RadixTable.fill onePageRam.words (frameOf 0x100000) .zero
  free := onePageRam.free.tail

/-- The page is cloned, and the clone torn down. -/
theorem vasClone_exact_onePage :
    ∃ clone m', vasClone roomyHeap onePageRam (vasAt 0x4000) (vasAt 0) =
        .ok (0xFFFF900000001060, clone, m') ∧
      CloneExact roomyHeap onePageRam (vasAt 0x4000) (vasAt 0) [] 0xFFFF900000001060 clone m' := by
  refine vasClone_exact roomyHeap onePageRam (vasAt 0x4000) (vasAt 0) (frameOf 0x100000)
    0xFFFF900000001060 onePageRam₁ onePageRam₁ [] ?_
  have hused : ([frameOf 0x8000, frameOf 0x7000, frameOf 0x6000, frameOf 0x5000,
      frameOf 0x4000].all fun f => decide (f ∉ onePageRam.free)) = true := by decide +kernel
  refine ⟨by decide +kernel, by decide +kernel, ?_, by decide +kernel, rfl, rfl, rfl,
    fun _ _ => rfl, ?_⟩
  · rw [onePageRam_frames]
    exact fun f hf => of_decide_eq_true (List.all_eq_true.mp hused f hf)
  · rw [onePageRam_frames]
    decide +kernel

/-! ### A heap that has to grow -/

/-- Memory as an operation on the tables left it; the frames that it took were filled with
zeroes. -/
def Ram.withPhys (m : Ram) (p : PhysMem) : Ram where
  words := fun f i =>
    { p.tables f i with
      rest := if f ∈ m.free ∧ f ∉ p.free then 0 else (m.words f i).rest }
  free := p.free

/-- `VAS_KERNEL_HEAP_BASE`. -/
def vasKernelHeapBase : Nat := 0xFFFF900000000000

/-- `liballoc_alloc`: the heap grows by `pageCount` pages of the kernel's address space. -/
def liballocAlloc (kernel : Vas) (m : Ram) (pageCount : Nat) : Except Fault Ram := do
  let (p, _) ← vasAllocRange m.phys kernel vasKernelHeapBase (pageCount * 0x1000) .readWrite
    .kernel
  .ok (m.withPhys p)

/-- `liballoc_free`. -/
def liballocFree (kernel : Vas) (m : Ram) (block pageCount : Nat) : Except Fault Ram := do
  let (p, _) ← vasFreeRange m.phys kernel block (pageCount * 0x1000)
  .ok (m.withPhys p)

/-- The kernel's address space with `size` bytes of heap. -/
def heapVas (size : Nat) : Vas where
  pml4 := frameOf 0
  maxRangeCount := 255
  ranges := [{ start := vasKernelHeapBase, size }]

/-- A heap of 2 MiB without room for a `vas_state_t`: `kcalloc` puts it into a new block of 16
pages, behind the headers of the block and of the allocation, and `kfree` returns the block. -/
def fullHeap : KernelHeap where
  kcalloc := fun m => do
    let m ← liballocAlloc (heapVas 0x200000) m 16
    .ok (vasKernelHeapBase + 0x200000 + 96, m)
  kfree := fun address m => liballocFree (heapVas 0x210000) m (address - 96) 16

/-- The first frame is the kernel's PML4, the next three are the tables of the 2 MiB of heap. -/
def fullHeapRam : Ram where
  words := fun f i =>
    if f = frameOf 0 ∧ i = 288 then .to false (frameOf 0x1000)
    else if f = frameOf 0x1000 ∧ i = 0 then .to false (frameOf 0x2000)
    else if f = frameOf 0x2000 ∧ i = 0 then .to false (frameOf 0x3000)
    else if f = frameOf 0x3000 then .to false (frameOf (0x1000000 + i.val * 0x1000))
    else .zero
  free := (List.range 24).map fun k => frameOf (0x100000 + k * 0x1000)

/-- The new PML4 has been taken. -/
def fullHeapRam₁ : Ram where
  words := RadixTable.fill fullHeapRam.words (frameOf 0x100000) .zero
  free := fullHeapRam.free.tail

/-- The heap has grown. -/
def fullHeapRam₂ : Ram :=
  (liballocAlloc (heapVas 0x200000) fullHeapRam₁ 16).toOption.getD fullHeapRam₁

theorem fullHeapRam₂_eq :
    fullHeap.kcalloc fullHeapRam₁ = .ok (vasKernelHeapBase + 0x200000 + 96, fullHeapRam₂) := by
  have hsome : (liballocAlloc (heapVas 0x200000) fullHeapRam₁ 16).toOption.isSome := by
    decide +kernel
  obtain ⟨m, hm⟩ := Option.isSome_iff_exists.mp hsome
  have hm₂ : fullHeapRam₂ = m := by
    rw [fullHeapRam₂, hm, Option.getD_some]
  show (liballocAlloc (heapVas 0x200000) fullHeapRam₁ 16 >>= fun m => _) = _
  rw [toOption_eq_some.mp hm, hm₂]
  rfl

/-- Both calls. -/
def cloneAndTeardown (heap : KernelHeap) (m : Ram) (parent cpuBaseVas : Vas) :
    Except Fault Ram := do
  let (address, clone, m) ← vasClone heap m parent cpuBaseVas
  m.vasTeardown heap address clone

/-- An empty address space is cloned while the heap is full, and torn down: the frame of the page
table that maps the heap's new block was free before and is not free afterwards. -/
theorem clone_keepsHeapFrame :
    fullHeapRam.free.Nodup ∧
      (∀ f ∈ teardownFrames fullHeapRam.phys (vasAt 0x4000).pml4, f ∉ fullHeapRam.free) ∧
      ∃ m, cloneAndTeardown fullHeap fullHeapRam (vasAt 0x4000) (heapVas 0x200000) = .ok m ∧
        ∃ f ∈ fullHeapRam.free, f ∉ m.free := by
  have hparent : teardownFrames fullHeapRam.phys (vasAt 0x4000).pml4 = [frameOf 0x4000] := by
    decide +kernel
  have hrun : (cloneAndTeardown fullHeap fullHeapRam (vasAt 0x4000) (heapVas 0x200000)).toOption.map
      (fun m => decide (frameOf 0x102000 ∈ m.free)) = some false := by
    rw [cloneAndTeardown, vasClone_eq (show fullHeapRam.pmmAlloc = .ok (_, fullHeapRam₁) from rfl)
      fullHeapRam₂_eq (by decide)]
    decide +kernel
  obtain ⟨m, hm, hfree⟩ := Option.map_eq_some_iff.mp hrun
  refine ⟨by decide +kernel, ?_, m, toOption_eq_some.mp hm, frameOf 0x102000, by decide +kernel,
    of_decide_eq_false hfree⟩
  intro f hf
  rw [hparent, List.mem_singleton] at hf
  subst hf
  decide +kernel

end Axle.Kernel
