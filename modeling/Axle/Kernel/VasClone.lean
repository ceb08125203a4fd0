import Axle.Lib.TreeCopy
import Axle.Kernel.FrameOwnership

/-!
# Cloning an address space

`vas_clone` takes a fresh PML4, links the kernel half of the CPU's base address space into it and
copies the tables and pages of the parent's user half frame by frame.  A frame is 512 words here,
and a word read as an entry is the entry's fields and the bits no field is made of, so that a
page's contents and a table's entries are one memory.

The `vas_state_t` of the clone is allocated on the kernel heap, whose `kcalloc` and `kfree` are
parameters: a heap without room for it grows by frames of the same queue.

* `cloneEntry_copies` — **PROVED**: an entry is copied into fresh frames and nothing else is
  written;
* `vasClone_copies` — **PROVED**: the whole call, on memory where the heap has been served.
-/

namespace Axle.Kernel

open Axle.Lib

/-! ### Memory as words -/

/-- The 64 bits of a word: the fields an entry has there, and the rest. -/
structure Word extends PageEntry where
  rest : BitVec 21
deriving DecidableEq

/-- A word of a zero-filled frame. -/
def Word.zero : Word := { PageEntry.zero with rest := 0 }

def Word.child (w : Word) : Option Frame := w.toPageEntry.child

/-- Physical memory by frame and word, and `FREE_FRAMES`. -/
structure Ram where
  words : Frame → Fin 512 → Word
  free : List Frame

/-- The same memory read as tables. -/
def Ram.phys (m : Ram) : PhysMem where
  tables := fun f i => (m.words f i).toPageEntry
  free := m.free

/-- `pmm_alloc`. -/
def Ram.pmmAlloc (m : Ram) : Except Fault (Frame × Ram) :=
  match m.free with
  | [] => .error .outOfFrames
  | f :: rest => .ok (f, { words := RadixTable.fill m.words f .zero, free := rest })

/-- Store the fields of an entry. -/
def Ram.setEntry (m : Ram) (table : Frame) (i : Fin 512) (e : PageEntry) : Ram where
  words := RadixTable.write m.words table i { m.words table i with toPageEntry := e }
  free := m.free

/-- `memcpy` of a page. -/
def Ram.copyPage (m : Ram) (dst src : Frame) : Ram where
  words := Function.update m.words dst (m.words src)
  free := m.free

/-- `dst[i] = src[i]` for two tables. -/
def Ram.copyWord (m : Ram) (dst src : Frame) (i : Fin 512) : Ram where
  words := RadixTable.write m.words dst i (m.words src i)
  free := m.free

/-! ### The calls -/

/-- What each of the four nested loops does at an index: skip an entry that is not present,
otherwise install a new frame in the clone's table and go on with the frame the parent's entry
leads to and the new one. -/
def cloneInto (m : Ram) (src dst : Frame) (i : Fin 512)
    (fill : Ram → Frame → Frame → Except Fault Ram) : Except Fault Ram :=
  if (m.words src i).present then do
    let parentFrame := (m.words src i).base
    let (clonedFrame, m) ← m.pmmAlloc
    fill
      (m.setEntry dst i
        { present := true
          writable := (m.words src i).writable
          userMode := (m.words src i).userMode
          base := clonedFrame })
      parentFrame clonedFrame
  else .ok m

/-- The loops from an entry down: below a page-table entry (0) the page is copied, below the
entries of the levels above the 512 entries of the table they lead to. -/
def cloneEntry : Nat → Ram → Frame → Frame → Fin 512 → Except Fault Ram
  | 0, m, src, dst, i =>
    cloneInto m src dst i fun m parentFrame clonedFrame =>
      .ok (m.copyPage clonedFrame parentFrame)
  | n + 1, m, src, dst, i =>
    cloneInto m src dst i fun m parentTable clonedTable =>
      (List.finRange 512).foldlM (fun m j => cloneEntry n m parentTable clonedTable j) m

/-- `_copy_all_pages_and_tables_in_pml4e`. -/
def copyAllPagesAndTablesInPml4e (m : Ram) (srcPml4 dstPml4 : Frame) (pml4eIdx : Fin 512) :
    Except Fault Ram :=
  cloneEntry 3 m srcPml4 dstPml4 pml4eIdx

/-- The kernel heap, as far as these calls use it: `kcalloc` of a `vas_state_t` returns an
address, and `kfree` takes it back. -/
structure KernelHeap where
  kcalloc : Ram → Except Fault (Nat × Ram)
  kfree : Nat → Ram → Except Fault Ram

/-- `CPU_CORE_DATA_BASE`. -/
def cpuCoreDataBase : Nat := 0xFFFFA00000000000

/-- `(uintptr_t)0xFFFF << 48 | ((uintptr_t)i << 39)`. -/
def pml4eBase (i : Fin 512) : Nat := 0xFFFF <<< 48 ||| i.val <<< 39

/-- `vas_clone_ex`: the address of the new `vas_state_t`, and what it holds. -/
def vasCloneEx (heap : KernelHeap) (m : Ram) (parent cpuBaseVas : Vas)
    (linkCpuSpecificStorage : Bool) : Except Fault (Nat × Vas × Ram) := do
  let (newPml4, m) ← m.pmmAlloc
  let (address, m) ← heap.kcalloc m
  let m ← ((List.finRange 512).drop 256).foldlM (fun m i =>
    if linkCpuSpecificStorage = false ∧ pml4eBase i = cpuCoreDataBase then
      copyAllPagesAndTablesInPml4e m parent.pml4 newPml4 i
    else .ok (m.copyWord newPml4 cpuBaseVas.pml4 i)) m
  let m ← ((List.finRange 512).take 256).foldlM (fun m i =>
    copyAllPagesAndTablesInPml4e m parent.pml4 newPml4 i) m
  .ok (address, { pml4 := newPml4, maxRangeCount := 255, ranges := [] }, m)

/-- `vas_clone`. -/
def vasClone (heap : KernelHeap) (m : Ram) (parent cpuBaseVas : Vas) :
    Except Fault (Nat × Vas × Ram) :=
  vasCloneEx heap m parent cpuBaseVas true

/-- `vas_teardown`: the frames, and then the `vas_state_t`. -/
def Ram.vasTeardown (heap : KernelHeap) (m : Ram) (address : Nat) (vas : Vas) :
    Except Fault Ram := do
  let p ← Kernel.vasTeardown m.phys vas
  heap.kfree address { m with free := p.free }

/-! ### Reading the memory as tables -/

/-- The tables and pages below some entries of a table. -/
def framesBelow (words : Frame → Fin 512 → Word) (n : Nat) (is : List (Fin 512)) (f : Frame) :
    List Frame :=
  RadixTable.childrenThen Word.child words is
    (RadixTable.descendants Word.child words (List.finRange 512) n) f

theorem descendants_words (m : Ram) (n : Nat) :
    RadixTable.descendants Word.child m.words (List.finRange 512) n =
      RadixTable.descendants PageEntry.child m.phys.tables (List.finRange 512) n := by
  induction n with
  | zero => rfl
  | succ n ih =>
    funext f
    rw [RadixTable.descendants, RadixTable.descendants, ih]
    rfl

theorem teardownFrames_phys (m : Ram) (r : Frame) :
    teardownFrames m.phys r = framesBelow m.words 3 ((List.finRange 512).take 256) r ++ [r] := by
  rfl

/-! ### What copying has to do -/

/-- The clone's entry has the parent's rights. -/
def SameRights (w w' : Word) : Prop := w'.rights = w.rights

/-- Memory in which the frames `below` of a table can be copied under the entries `is` of another:
the frames `U`, which hold everything that is read, are in use and as they were in `w₀`, and the
table written to is not one of them. -/
structure CloneInput (w₀ : Frame → Fin 512 → Word) (U : Frame → Prop) (below : List Frame)
    (is : List (Fin 512)) (m : Ram) (src dst : Frame) : Prop where
  nodup : m.free.Nodup
  used : ∀ g, U g → m.words g = w₀ g ∧ g ∉ m.free
  source : U src
  reads : ∀ g ∈ below, U g
  target : ¬U dst ∧ dst ∉ m.free
  empty : ∀ j ∈ is, m.words dst j = .zero
  enough : below.length ≤ m.free.length

/-- From `m` to `m'` the frames `A` were taken, and nothing else was written than these and the
entries `is` of `dst`. -/
structure Takes (m m' : Ram) (A : List Frame) (dst : Frame) (is : List (Fin 512)) : Prop where
  free : m.free = A ++ m'.free
  frame : ∀ g j, g ∉ A → ¬(g = dst ∧ j ∈ is) → m'.words g j = m.words g j

/-- The run copies: it succeeds, takes the frames `A` and leaves a copy that took them. -/
def Copies (w₀ : Frame → Fin 512 → Word) (U : Frame → Prop) (below : Frame → List Frame)
    (is : List (Fin 512)) (run : Ram → Frame → Frame → Except Fault Ram)
    (IsCopy : (Frame → Fin 512 → Word) → Frame → Frame → List Frame → Prop) : Prop :=
  ∀ m src dst, CloneInput w₀ U (below src) is m src dst →
    ∃ A m', run m src dst = .ok m' ∧ Takes m m' A dst is ∧ IsCopy m'.words src dst A

/-- The run copies a table with `n` levels below it. -/
abbrev CopiesTable (w₀ : Frame → Fin 512 → Word) (U : Frame → Prop) (n : Nat)
    (run : Ram → Frame → Frame → Except Fault Ram) : Prop :=
  Copies w₀ U (RadixTable.descendants Word.child w₀ (List.finRange 512) n) (List.finRange 512) run
    fun words => RadixTable.TableCopy Word.child SameRights w₀ words (List.finRange 512) n

/-- The run copies the entries `is` of a table, and everything up to `n` levels below what they
lead to. -/
abbrev CopiesEntries (w₀ : Frame → Fin 512 → Word) (U : Frame → Prop) (n : Nat)
    (is : List (Fin 512)) (run : Ram → Frame → Frame → Except Fault Ram) : Prop :=
  Copies w₀ U (framesBelow w₀ n is) is run fun words src dst =>
    RadixTable.IndexCopy Word.child SameRights w₀ words
      (RadixTable.TableCopy Word.child SameRights w₀ words (List.finRange 512) n) src dst is

section Copying

variable {w₀ : Frame → Fin 512 → Word} {U : Frame → Prop} {n : Nat} {i : Fin 512}
  {is : List (Fin 512)} {m m' m'' : Ram} {A B below : List Frame} {src dst : Frame}

theorem framesBelow_cons :
    framesBelow w₀ n (i :: is) src = framesBelow w₀ n [i] src ++ framesBelow w₀ n is src :=
  RadixTable.childrenThen_cons _

theorem Takes.mem_free {f : Frame} (h : Takes m m' A dst is) : f ∈ m.free ↔ f ∈ A ∨ f ∈ m'.free := by
  rw [h.free, List.mem_append]

theorem Takes.used (h : Takes m m' A dst is) (hin : CloneInput w₀ U below is m src dst) :
    ∀ g, U g → m'.words g = w₀ g ∧ g ∉ m'.free := by
  intro g hg
  obtain ⟨hw, hfree⟩ := hin.used g hg
  refine ⟨?_, fun hc => hfree (h.mem_free.mpr (.inr hc))⟩
  rw [← hw]
  funext j
  exact h.frame g j (fun hc => hfree (h.mem_free.mpr (.inl hc))) fun hc =>
    hin.target.1 (hc.1 ▸ hg)

theorem Takes.append (h : Takes m m' A dst [i]) (h' : Takes m' m'' B dst is) :
    Takes m m'' (A ++ B) dst (i :: is) where
  free := by rw [h.free, h'.free, List.append_assoc]
  frame := by
    intro g j hg hj
    rw [List.mem_append, not_or] at hg
    rw [h'.frame g j hg.2 fun hc => hj ⟨hc.1, List.mem_cons_of_mem i hc.2⟩,
      h.frame g j hg.1 fun hc => hj ⟨hc.1, List.mem_singleton.mp hc.2 ▸ List.mem_cons_self⟩]

/-- The later entries of a table are copied away from what was taken for the first. -/
theorem Takes.first_kept (h : Takes m m' A dst [i]) (h' : Takes m' m'' B dst is)
    (hnodup : m.free.Nodup) (hdst : dst ∉ m.free) (hi : i ∉ is) :
    m''.words dst i = m'.words dst i ∧ ∀ g ∈ A, m''.words g = m'.words g := by
  constructor
  · exact h'.frame dst i (fun hc => hdst (h.mem_free.mpr (.inr (h'.mem_free.mpr (.inl hc)))))
      fun hc => hi hc.2
  · intro g hg
    have hdisj : A.Disjoint m'.free := by
      rw [h.free, List.nodup_append'] at hnodup
      exact hnodup.2.2
    funext j
    refine h'.frame g j (fun hc => hdisj hg (h'.mem_free.mpr (.inl hc))) ?_
    rintro ⟨rfl, -⟩
    exact hdst (h.mem_free.mpr (.inl hg))

theorem CloneInput.first
    (h : CloneInput w₀ U (framesBelow w₀ n (i :: is) src) (i :: is) m src dst) :
    CloneInput w₀ U (framesBelow w₀ n [i] src) [i] m src dst where
  nodup := h.nodup
  used := h.used
  source := h.source
  reads := fun g hg => h.reads g (framesBelow_cons ▸ List.mem_append_left _ hg)
  target := h.target
  empty := fun j hj => h.empty j (List.mem_singleton.mp hj ▸ List.mem_cons_self)
  enough := by
    have := h.enough
    rw [framesBelow_cons, List.length_append] at this
    omega

theorem CloneInput.rest
    (h : CloneInput w₀ U (framesBelow w₀ n (i :: is) src) (i :: is) m src dst) (hi : i ∉ is)
    (ht : Takes m m' A dst [i]) (hlen : (framesBelow w₀ n [i] src).length = A.length) :
    CloneInput w₀ U (framesBelow w₀ n is src) is m' src dst where
  nodup := by
    have := h.nodup
    rw [ht.free] at this
    exact this.of_append_right
  used := ht.used h.first
  source := h.source
  reads := fun g hg => h.reads g (framesBelow_cons ▸ List.mem_append_right _ hg)
  target := ⟨h.target.1, fun hc => h.target.2 (ht.mem_free.mpr (.inr hc))⟩
  empty := by
    intro j hj
    rw [ht.frame dst j (fun hc => h.target.2 (ht.mem_free.mpr (.inl hc)))
      fun hc => hi (List.mem_singleton.mp hc.2 ▸ hj)]
    exact h.empty j (List.mem_cons_of_mem i hj)
  enough := by
    have henough := h.enough
    rw [framesBelow_cons, List.length_append, ht.free, List.length_append] at henough
    omega

/-- **The loop over the entries of a table** copies them one after the other. -/
theorem copiesEntries_loop {step : Ram → Frame → Frame → Fin 512 → Except Fault Ram}
    (hstep : ∀ i, CopiesEntries w₀ U n [i] fun m src dst => step m src dst i)
    (his : is.Nodup) :
    CopiesEntries w₀ U n is fun m src dst => is.foldlM (fun m i => step m src dst i) m := by
  induction is with
  | nil =>
    intro m src dst _
    exact ⟨[], m, rfl, ⟨rfl, fun _ _ _ _ => rfl⟩, .nil⟩
  | cons i is ih =>
    intro m src dst hin
    obtain ⟨hi, his⟩ := List.nodup_cons.mp his
    obtain ⟨A, m₁, hrun₁, htakes₁, hcopy₁⟩ := hstep i m src dst hin.first
    obtain ⟨B, m₂, hrun₂, htakes₂, hcopy₂⟩ :=
      ih his m₁ src dst (hin.rest hi htakes₁ hcopy₁.length_eq)
    obtain ⟨hentry, hkept⟩ :=
      htakes₁.first_kept htakes₂ hin.nodup hin.target.2 hi
    refine ⟨A ++ B, m₂, ?_, htakes₁.append htakes₂, .cons ?_ hcopy₂⟩
    · show List.foldlM (fun m i => step m src dst i) m (i :: is) = .ok m₂
      rw [List.foldlM_cons, show step m src dst i = .ok m₁ from hrun₁]
      exact hrun₂
    · refine RadixTable.indexCopy_singleton.mp (hcopy₁.congr ?_ ?_)
      · intro j hj
        rw [List.mem_singleton.mp hj]
        exact hentry
      · exact fun f f' D hD hcopy => hcopy.congr fun g hg => hkept g (hD g hg)

/-- The memory when `f`, the oldest free frame, has been taken and installed in `dst`. -/
def Ram.installed (m : Ram) (f : Frame) (rest : List Frame) (dst : Frame) (i : Fin 512)
    (e : PageEntry) : Ram :=
  Ram.setEntry { words := RadixTable.fill m.words f .zero, free := rest } dst i e

section Installed

variable {f : Frame} {rest : List Frame} {e : PageEntry}

theorem installed_other {g : Frame} {j : Fin 512} (hg : g ≠ f) (hj : ¬(g = dst ∧ j = i)) :
    (m.installed f rest dst i e).words g j = m.words g j := by
  show RadixTable.write _ dst i _ g j = m.words g j
  rw [RadixTable.write_other hj]
  exact RadixTable.fill_other hg

theorem installed_entry : ((m.installed f rest dst i e).words dst i).toPageEntry = e := by
  show (RadixTable.write _ dst i _ dst i : Word).toPageEntry = e
  rw [RadixTable.write_same]

theorem installed_table (hf : f ≠ dst) (j : Fin 512) :
    (m.installed f rest dst i e).words f j = .zero := by
  show RadixTable.write _ dst i _ f j = Word.zero
  rw [RadixTable.write_other fun hc => hf hc.1]
  show RadixTable.fill m.words f Word.zero f j = Word.zero
  rw [RadixTable.fill, Function.update_self]

/-- Everything is ready to copy what the parent's entry leads to into the new frame. -/
theorem CloneInput.installed (hin : CloneInput w₀ U (framesBelow w₀ n [i] src) [i] m src dst)
    (hp : (w₀ src i).present = true) (hfree : m.free = f :: rest) :
    CloneInput w₀ U (RadixTable.descendants Word.child w₀ (List.finRange 512) n (w₀ src i).base)
      (List.finRange 512) (m.installed f rest dst i e) (w₀ src i).base f := by
  have hf : f ∈ m.free := hfree ▸ List.mem_cons_self
  have hrest : ∀ g ∈ rest, g ∈ m.free := fun g hg => hfree ▸ List.mem_cons_of_mem f hg
  have hne : ∀ g, U g → g ≠ f := fun g hg hc => (hin.used g hg).2 (hc ▸ hf)
  have hbelow : framesBelow w₀ n [i] src =
      RadixTable.descendants Word.child w₀ (List.finRange 512) n (w₀ src i).base ++
        [(w₀ src i).base] := RadixTable.childrenThen_of_some (if_pos hp)
  have hreads := hin.reads
  have henough := hin.enough
  rw [hbelow] at hreads henough
  rw [hfree, List.length_append, List.length_singleton, List.length_cons] at henough
  have hnodup := hin.nodup
  rw [hfree, List.nodup_cons] at hnodup
  refine ⟨hnodup.2, ?_, ?_, ?_, ?_, ?_, Nat.le_of_succ_le_succ henough⟩
  · intro g hg
    obtain ⟨hw, hgfree⟩ := hin.used g hg
    refine ⟨?_, fun hc => hgfree (hrest g hc)⟩
    rw [← hw]
    funext j
    exact installed_other (hne g hg) fun hc => hin.target.1 (hc.1 ▸ hg)
  · exact hreads _ (List.mem_append_right _ List.mem_cons_self)
  · exact fun g hg => hreads g (List.mem_append_left _ hg)
  · exact ⟨fun hc => hne f hc rfl, hnodup.1⟩
  · exact fun j _ => installed_table (fun hc : f = dst => hin.target.2 (hc ▸ hf)) j

end Installed

/-- **One entry**, when what it leads to can be copied. -/
theorem cloneInto_copies {fill : Ram → Frame → Frame → Except Fault Ram}
    (hfill : CopiesTable w₀ U n fill) :
    CopiesEntries w₀ U n [i] fun m src dst => cloneInto m src dst i fill := by
  intro m src dst hin
  obtain ⟨hsrc, -⟩ := hin.used src hin.source
  have hword : m.words src i = w₀ src i := congrFun hsrc i
  by_cases hp : (w₀ src i).present = true
  · have hchild : Word.child (w₀ src i) = some (w₀ src i).base := if_pos hp
    obtain ⟨f, rest, hfree⟩ : ∃ f rest, m.free = f :: rest := by
      have henough := hin.enough
      rw [framesBelow, RadixTable.childrenThen_of_some hchild, List.length_append] at henough
      exact List.exists_cons_of_length_pos (Nat.lt_of_lt_of_le (Nat.succ_pos _) henough)
    have hf : f ∈ m.free := hfree ▸ List.mem_cons_self
    have hsrcf : src ≠ f := fun hc => (hin.used src hin.source).2 (hc ▸ hf)
    obtain ⟨A, m', hrun, htakes, hcopy⟩ :=
      hfill _ _ _ (hin.installed (e := ⟨true, (w₀ src i).writable, (w₀ src i).userMode, f⟩) hp hfree)
    have hfreeA : m.free = f :: A ++ m'.free := by
      rw [hfree]
      exact congrArg (f :: ·) htakes.free
    have hdst : m'.words dst i = (m.installed f rest dst i _).words dst i :=
      htakes.frame dst i (fun hc => hin.target.2 (hfreeA ▸ by simp [hc])) fun hc =>
        hin.target.2 (hc.1 ▸ hf)
    refine ⟨f :: A, m', ?_, ⟨hfreeA, ?_⟩, RadixTable.indexCopy_singleton.mpr ?_⟩
    · show cloneInto m src dst i fill = .ok m'
      have hsame : RadixTable.fill m.words f Word.zero src i = w₀ src i := by
        rw [RadixTable.fill_other hsrcf, hword]
      rw [cloneInto, hword, if_pos hp, Ram.pmmAlloc, hfree]
      simp only [ok_bind, hsame]
      exact hrun
    · intro g j hg hj
      rw [List.mem_cons, not_or] at hg
      rw [htakes.frame g j hg.2 fun hc => hg.1 hc.1]
      exact installed_other hg.1 fun hc => hj ⟨hc.1, List.mem_singleton.mpr hc.2⟩
    · refine RadixTable.entryCopy_some hchild ?_ ?_ hcopy
      · rw [hdst, Word.child, installed_entry]
        rfl
      · rw [SameRights, hdst, installed_entry]
        rfl
  · have hchild : Word.child (w₀ src i) = none := if_neg hp
    refine ⟨[], m, ?_, ⟨rfl, fun _ _ _ _ => rfl⟩, RadixTable.indexCopy_singleton.mpr ?_⟩
    · show cloneInto m src dst i fill = .ok m
      rw [cloneInto, hword, if_neg hp]
    · refine RadixTable.entryCopy_none hchild ?_
      rw [hin.empty i List.mem_cons_self]
      rfl

theorem copyPage_copies :
    CopiesTable w₀ U 0 fun m parentFrame clonedFrame => .ok (m.copyPage clonedFrame parentFrame) := by
  intro m src dst hin
  refine ⟨[], m.copyPage dst src, rfl, ⟨rfl, ?_⟩, ?_, rfl⟩
  · intro g j _ hj
    have hg : g ≠ dst := fun hc => hj ⟨hc, List.mem_finRange j⟩
    show Function.update m.words dst (m.words src) g j = m.words g j
    rw [Function.update_of_ne hg]
  · show Function.update m.words dst (m.words src) dst = w₀ src
    rw [Function.update_self, (hin.used src hin.source).1]

/-- **An entry is copied with everything below it**, into frames that were free. -/
theorem cloneEntry_copies (n : Nat) (i : Fin 512) :
    CopiesEntries w₀ U n [i] fun m src dst => cloneEntry n m src dst i := by
  induction n generalizing i with
  | zero => exact cloneInto_copies copyPage_copies
  | succ n ih => exact cloneInto_copies (copiesEntries_loop ih (List.nodup_finRange 512))

end Copying

/-! ### The whole call -/

/-- What `vas_clone` meets.  `m₁` is the memory when the new PML4 has been taken and `m₂` when the
heap has returned an address for the `vas_state_t`; to do so it took the frames `taken` from the
queue. -/
structure CloneReady (heap : KernelHeap) (m : Ram) (parent cpuBaseVas : Vas) (newPml4 : Frame)
    (address : Nat) (m₁ m₂ : Ram) (taken : List Frame) : Prop where
  /-- No frame is free twice, and the queue holds what it can. -/
  nodup : m.free.Nodup
  capacity : m.free.length ≤ pmmCapacity
  /-- The parent's tables and pages and the PML4 of the CPU's base address space are in use. -/
  used : ∀ f ∈ teardownFrames m.phys parent.pml4, f ∉ m.free
  base : cpuBaseVas.pml4 ∉ m.free
  pml4 : m.pmmAlloc = .ok (newPml4, m₁)
  kcalloc : heap.kcalloc m₁ = .ok (address, m₂)
  grown : m₁.free = taken ++ m₂.free
  /-- The heap writes neither to the parent's frames nor to the new PML4. -/
  apart : ∀ f ∈ newPml4 :: teardownFrames m.phys parent.pml4, m₂.words f = m₁.words f
  /-- Besides the PML4 there is a frame for every table and page of the user half. -/
  enough : (teardownFrames m.phys parent.pml4).length ≤ m₂.free.length + 1

theorem mem_drop_iff {i : Fin 512} : i ∈ (List.finRange 512).drop 256 ↔ 256 ≤ i.val := by
  constructor
  · intro hi
    obtain ⟨k, hk, rfl⟩ := List.mem_drop_iff_getElem.mp hi
    rw [List.getElem_finRange]
    exact Nat.le_add_right 256 k
  · intro hi
    have hall := List.mem_finRange i
    rw [← List.take_append_drop 256 (List.finRange 512), List.mem_append] at hall
    exact hall.resolve_left fun hc => absurd (lt_of_mem_take hc) (by omega)

/-- The memory when the entries `p` of `dst` have been replaced by those of `base`. -/
def Ram.linked (m : Ram) (dst base : Frame) (p : Fin 512 → Bool) : Ram where
  words := fun g j => if g = dst ∧ p j then m.words base j else m.words g j
  free := m.free

theorem linked_other {m : Ram} {dst base g : Frame} {p : Fin 512 → Bool} (hg : g ≠ dst) :
    (m.linked dst base p).words g = m.words g :=
  funext fun _ => if_neg fun hc => hg hc.1

theorem linkLoop {dst base : Frame} (hne : base ≠ dst) {is : List (Fin 512)} {p : Fin 512 → Bool}
    (hp : ∀ j, p j = true ↔ j ∈ is) (copy : Ram → Fin 512 → Except Fault Ram) (m : Ram) :
    is.foldlM (fun m i =>
        if true = false ∧ pml4eBase i = cpuCoreDataBase then copy m i
        else .ok (m.copyWord dst base i)) m = .ok (m.linked dst base p) := by
  induction is generalizing m p with
  | nil =>
    have hm : m.linked dst base p = m := by
      unfold Ram.linked
      simp [hp]
    rw [hm]
    rfl
  | cons i is ih =>
    refine (ih (p := fun j => decide (j ∈ is)) (fun j => by simp) (m.copyWord dst base i)).trans ?_
    refine congrArg (fun words => Except.ok (Ram.mk words m.free)) (funext fun g => funext fun j => ?_)
    have hbase : (m.copyWord dst base i).words base j = m.words base j :=
      RadixTable.write_other fun hc => hne hc.1
    have hword : (m.copyWord dst base i).words g j =
        if g = dst ∧ j = i then m.words base j else m.words g j := by
      split
      · rename_i hc
        rw [hc.1, hc.2]
        exact RadixTable.write_same
      · rename_i hc
        exact RadixTable.write_other hc
    simp only [hbase, hword, hp, decide_eq_true_eq, List.mem_cons]
    by_cases hg : g = dst <;> by_cases hj : j ∈ is <;> simp [hg, hj]

section Clone

variable {heap : KernelHeap} {m m₁ m₂ : Ram} {parent cpuBaseVas : Vas} {newPml4 : Frame}
  {address : Nat} {taken : List Frame}

/-- The new PML4 was free and has been filled with zeroes. -/
theorem pmmAlloc_ram_ok (h : m.pmmAlloc = .ok (newPml4, m₁)) :
    m.free = newPml4 :: m₁.free ∧ m₁.words = RadixTable.fill m.words newPml4 .zero := by
  rw [Ram.pmmAlloc] at h
  split at h
  · cases h
  · rename_i f rest hfree
    cases h
    exact ⟨hfree, rfl⟩

/-- The frames that were free: the PML4, what the heap took and the rest. -/
theorem CloneReady.free_eq (h : CloneReady heap m parent cpuBaseVas newPml4 address m₁ m₂ taken) :
    m.free = newPml4 :: (taken ++ m₂.free) := by
  rw [(pmmAlloc_ram_ok h.pml4).1, h.grown]

theorem CloneReady.parent_words
    (h : CloneReady heap m parent cpuBaseVas newPml4 address m₁ m₂ taken) {f : Frame}
    (hf : f ∈ teardownFrames m.phys parent.pml4) : m₂.words f = m.words f := by
  obtain ⟨hfree, hwords⟩ := pmmAlloc_ram_ok h.pml4
  have hne : f ≠ newPml4 := fun hc => h.used f hf (by rw [hfree, hc]; exact List.mem_cons_self)
  rw [h.apart f (List.mem_cons_of_mem _ hf), hwords]
  funext j
  exact RadixTable.fill_other hne

theorem vasClone_eq (hpml4 : m.pmmAlloc = .ok (newPml4, m₁))
    (hkcalloc : heap.kcalloc m₁ = .ok (address, m₂)) (hbase : cpuBaseVas.pml4 ≠ newPml4) :
    vasClone heap m parent cpuBaseVas = (do
      let m ← ((List.finRange 512).take 256).foldlM (fun m i =>
        copyAllPagesAndTablesInPml4e m parent.pml4 newPml4 i)
        (m₂.linked newPml4 cpuBaseVas.pml4 fun j => decide (256 ≤ j.val))
      .ok (address, { pml4 := newPml4, maxRangeCount := 255, ranges := [] }, m)) := by
  show vasCloneEx heap m parent cpuBaseVas true = _
  rw [vasCloneEx, hpml4]
  simp only [ok_bind, hkcalloc]
  rw [linkLoop hbase (p := fun j => decide (256 ≤ j.val)), ok_bind]
  intro j
  rw [decide_eq_true_eq, mem_drop_iff]

section

variable (h : CloneReady heap m parent cpuBaseVas newPml4 address m₁ m₂ taken)

include h

theorem CloneReady.mem_free (f : Frame) : f ∈ m.free ↔ f = newPml4 ∨ f ∈ taken ∨ f ∈ m₂.free := by
  rw [h.free_eq, List.mem_cons, List.mem_append]

theorem CloneReady.base_ne :
    cpuBaseVas.pml4 ≠ newPml4 := fun hc => h.base ((h.mem_free _).mpr (.inl hc))

theorem CloneReady.pml4_not_free : newPml4 ∉ m₂.free := by
  have hnodup := h.nodup
  rw [h.free_eq, List.nodup_cons] at hnodup
  exact fun hc => hnodup.1 (List.mem_append_right _ hc)

/-- With the kernel half linked, the user half can be copied. -/
theorem CloneReady.cloneInput :
    CloneInput m.words (· ∈ teardownFrames m.phys parent.pml4)
      (framesBelow m.words 3 ((List.finRange 512).take 256) parent.pml4)
      ((List.finRange 512).take 256)
      (m₂.linked newPml4 cpuBaseVas.pml4 fun j => decide (256 ≤ j.val)) parent.pml4 newPml4 := by
  have hframes := teardownFrames_phys m parent.pml4
  have henough := h.enough
  rw [hframes, List.length_append, List.length_singleton] at henough
  have hnodup := h.nodup
  rw [h.free_eq, List.nodup_cons] at hnodup
  refine ⟨hnodup.2.of_append_right, ?_, ?_, ?_, ?_, ?_, Nat.le_of_succ_le_succ henough⟩
  · intro g hg
    have hgfree := h.used g hg
    rw [h.mem_free, not_or, not_or] at hgfree
    rw [linked_other hgfree.1]
    exact ⟨h.parent_words hg, hgfree.2.2⟩
  · exact List.mem_append_right _ List.mem_cons_self
  · intro g hg
    exact List.mem_append_left _ hg
  · exact ⟨fun hc => h.used newPml4 hc ((h.mem_free _).mpr (.inl rfl)), h.pml4_not_free⟩
  · intro j hj
    -- an index of the user half is not linked, and the new PML4 is zero there
    have hlow := lt_of_mem_take hj
    show (if newPml4 = newPml4 ∧ decide (256 ≤ j.val) = true then _ else m₂.words newPml4 j) = _
    rw [if_neg fun hc => Nat.not_le_of_lt hlow (of_decide_eq_true hc.2),
      h.apart newPml4 List.mem_cons_self, (pmmAlloc_ram_ok h.pml4).2, RadixTable.fill,
      Function.update_self]

end

/-- The user half of `r'` in `m'` is a copy of the one of `r` in `m` that took the
frames `A`. -/
abbrev UserHalfCopy (m m' : Ram) (r r' : Frame) (A : List Frame) : Prop :=
  RadixTable.IndexCopy Word.child SameRights m.words m'.words
    (RadixTable.TableCopy Word.child SameRights m.words m'.words (List.finRange 512) 3) r r'
    ((List.finRange 512).take 256) A

/-- **`vas_clone` copies the user half** into frames of the queue that the heap left there, links
the kernel half, and writes nothing else. -/
theorem vasClone_copies (h : CloneReady heap m parent cpuBaseVas newPml4 address m₁ m₂ taken) :
    ∃ A m', vasClone heap m parent cpuBaseVas =
        .ok (address, { pml4 := newPml4, maxRangeCount := 255, ranges := [] }, m') ∧
      m₂.free = A ++ m'.free ∧
      (∀ g, g ≠ newPml4 → g ∉ A → m'.words g = m₂.words g) ∧
      (∀ j : Fin 512, 256 ≤ j.val → m'.words newPml4 j = m'.words cpuBaseVas.pml4 j) ∧
      UserHalfCopy m m' parent.pml4 newPml4 A := by
  obtain ⟨A, m', hrun, htakes, hcopy⟩ := copiesEntries_loop (cloneEntry_copies 3)
    ((List.nodup_finRange 512).sublist (List.take_sublist 256 _)) _ parent.pml4 newPml4 h.cloneInput
  beta_reduce at hrun hcopy
  have hA : ∀ g ∈ A, g ∈ m₂.free := fun g hg => htakes.mem_free.mpr (.inl hg)
  refine ⟨A, m', ?_, htakes.free, ?_, ?_, hcopy⟩
  · rw [vasClone_eq h.pml4 h.kcalloc h.base_ne]
    unfold copyAllPagesAndTablesInPml4e
    rw [hrun, ok_bind]
  · intro g hg hgA
    funext j
    exact (htakes.frame g j hgA fun hc => hg hc.1).trans (congrFun (linked_other hg) j)
  · intro j hj
    have hpml4A : newPml4 ∉ A := fun hc => h.pml4_not_free (hA _ hc)
    have hbaseA : cpuBaseVas.pml4 ∉ A := fun hc =>
      h.base ((h.mem_free _).mpr (.inr (.inr (hA _ hc))))
    rw [htakes.frame newPml4 j hpml4A fun hc => Nat.not_le_of_lt (lt_of_mem_take hc.2) hj,
      htakes.frame cpuBaseVas.pml4 j hbaseA fun hc => h.base_ne hc.1, linked_other h.base_ne]
    exact if_pos ⟨rfl, decide_eq_true hj⟩

end Clone

end Axle.Kernel
