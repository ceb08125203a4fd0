import Axle.Lib.StepRun
import Axle.Kernel.PageMapping
import Axle.Kernel.VasRanges

/-!
# Address spaces: the operations over page tables, range lists and the frame queue

`vas_alloc_range`, `vas_map_range`, `vas_copy_phys_mapping`, `vas_free_range` and `vas_teardown`
on any number of address spaces over one physical memory.  A `Vmm` is the state of all of them,
`Vmm.next` is one call, and a call that stops in a panic, leaves an array or never ends has no
next state.

* `vasGetPhysFrame_ok` — **PROVED**: `vas_get_phys_frame` returns what the walk finds.
-/

namespace Axle.Kernel

open Axle.Lib

/-! ### The calls -/

/-- `vas_state_t`. -/
structure Vas where
  pml4 : Frame
  maxRangeCount : Nat
  ranges : List VasRange

/-- `(size + (PAGE_SIZE - 1)) & ~(PAGE_SIZE - 1)` in `uint64_t`. -/
def pageAlign (size : Nat) : Nat := (size + 0xfff) % 2 ^ 64 / 0x1000 * 0x1000

/-- `for (uint32_t i = 0; i < size / PAGE_SIZE; i++)` with a body that uses `i * PAGE_SIZE`, a
`uint32_t` product.  A count that does not fit `i` is never reached. -/
def pageLoop (size : Nat) (body : PhysMem → Nat → Except Fault PhysMem) (m : PhysMem) :
    Except Fault PhysMem :=
  if size / 0x1000 < 2 ^ 32 then
    (List.range (size / 0x1000)).foldlM (fun m i => body m (i * 0x1000 % 2 ^ 32)) m
  else .error .hang

/-- What the mapping calls have in common: mark the region as allocated, then map its pages one by
one. -/
def vasMapPages (m : PhysMem) (vas : Vas) (chosenStart size : Nat)
    (body : PhysMem → Nat → Except Fault PhysMem) : Except Fault (PhysMem × Vas) := do
  let ranges ← vasAddRange vas.maxRangeCount vas.ranges chosenStart size
  let m ← pageLoop size body m
  .ok (m, { vas with ranges })

/-- The loop body of `vas_map_range_exact`. -/
def mapBody (pml4 : Frame) (virtStart physStart : Nat) (access : VasRangeAccess)
    (privilege : VasRangePrivilege) (m : PhysMem) (offset : Nat) : Except Fault PhysMem :=
  mapRegion4kPages m pml4 ((virtStart + offset) % 2 ^ 64) 0x1000 ((physStart + offset) % 2 ^ 64)
    access privilege

/-- `vas_map_range_exact`. -/
def vasMapRangeExact (m : PhysMem) (vas : Vas) (virtStart size physStart : Nat)
    (access : VasRangeAccess) (privilege : VasRangePrivilege) : Except Fault (PhysMem × Vas) :=
  vasMapPages m vas virtStart size (mapBody vas.pml4 virtStart physStart access privilege)

/-- `vas_map_range`. -/
def vasMapRange (m : PhysMem) (vas : Vas) (minAddress size physStart : Nat)
    (access : VasRangeAccess) (privilege : VasRangePrivilege) : Except Fault (PhysMem × Vas) := do
  let chosenStart ← selectVirtualAddress vas.ranges minAddress size
  vasMapRangeExact m vas chosenStart size physStart access privilege

/-- The loop body of `vas_alloc_range`. -/
def allocBody (pml4 : Frame) (chosenStart : Nat) (access : VasRangeAccess)
    (privilege : VasRangePrivilege) (m : PhysMem) (offset : Nat) : Except Fault PhysMem := do
  let (frame, m) ← pmmAlloc m
  mapRegion4kPages m pml4 ((chosenStart + offset) % 2 ^ 64) 0x1000 (frame.val * 0x1000) access
    privilege

/-- `vas_alloc_range`. -/
def vasAllocRange (m : PhysMem) (vas : Vas) (minAddress size : Nat) (access : VasRangeAccess)
    (privilege : VasRangePrivilege) : Except Fault (PhysMem × Vas) :=
  if minAddress % 0x1000 = 0 then do
    let chosenStart ← selectVirtualAddress vas.ranges minAddress (pageAlign size)
    vasMapPages m vas chosenStart (pageAlign size) (allocBody vas.pml4 chosenStart access privilege)
  else .error .panic

/-- `vas_get_phys_frame`: an assertion at each level; the result is a frame address. -/
def vasGetPhysFrame (m : PhysMem) (pml4 : Frame) (virtAddr : Nat) : Except Fault Nat := do
  let pdpt ← pdptGet m pml4 virtAddr
  let pageDirIdx ← tableIndex (vmaPdpeIdx virtAddr)
  let pageDirectory ← presentBase (m.tables pdpt pageDirIdx)
  let pageTableIdx ← tableIndex (vmaPdeIdx virtAddr)
  let pageTable ← presentBase (m.tables pageDirectory pageTableIdx)
  let pageIdx ← tableIndex (vmaPteIdx virtAddr)
  let frame ← presentBase (m.tables pageTable pageIdx)
  .ok (frame.val * 0x1000)

/-- The loop body of `vas_copy_phys_mapping`. -/
def copyBody (pml4 pml4ToCopy : Frame) (chosenStart vasToCopyStart : Nat) (access : VasRangeAccess)
    (privilege : VasRangePrivilege) (m : PhysMem) (offset : Nat) : Except Fault PhysMem := do
  let phys ← vasGetPhysFrame m pml4ToCopy ((vasToCopyStart + offset) % 2 ^ 64)
  mapRegion4kPages m pml4 ((chosenStart + offset) % 2 ^ 64) 0x1000 phys access privilege

/-- `vas_copy_phys_mapping`. -/
def vasCopyPhysMapping (m : PhysMem) (vas vasToCopy : Vas) (minAddress size vasToCopyStart : Nat)
    (access : VasRangeAccess) (privilege : VasRangePrivilege) :
    Except Fault (PhysMem × Vas) := do
  let chosenStart ← selectVirtualAddress vas.ranges minAddress (pageAlign size)
  vasMapPages m vas chosenStart (pageAlign size)
    (copyBody vas.pml4 vasToCopy.pml4 chosenStart vasToCopyStart access privilege)

/-- `vas_free_range`. -/
def vasFreeRange (m : PhysMem) (vas : Vas) (regionBase size : Nat) :
    Except Fault (PhysMem × Vas) := do
  let m ← freeRegion4kPages m vas.pml4 regionBase size
  let ranges ← vasDeleteRange vas.maxRangeCount vas.ranges regionBase size
  .ok (m, { vas with ranges })

/-- What `vas_teardown` frees, in order: below each user-half PML4 entry the pages, page tables and
page directories, each table after what it holds, and last the PML4. -/
def teardownFrames (m : PhysMem) (pml4 : Frame) : List Frame :=
  RadixTable.childrenThen PageEntry.child m.tables ((List.finRange 512).take 256)
    (RadixTable.descendants PageEntry.child m.tables (List.finRange 512) 3) pml4 ++ [pml4]

/-- `vas_teardown`. -/
def vasTeardown (m : PhysMem) (vas : Vas) : Except Fault PhysMem :=
  if vas.maxRangeCount > 255 then .error .panic else (teardownFrames m vas.pml4).foldlM pmmFree m

/-- `vas_is_page_present`. -/
def vasIsPagePresent (vas : Vas) (virtAddr : Nat) : Bool := rangesPresent vas.ranges virtAddr

/-! ### All address spaces together -/

/-- Physical memory and the live address spaces, by the address of their `vas_state_t`. -/
structure Vmm where
  mem : PhysMem
  vases : Nat → Option Vas

inductive VmmEvent where
  | allocRange (vas : Nat) (minAddress size : UInt64) (access : VasRangeAccess)
      (privilege : VasRangePrivilege)
  | mapRange (vas : Nat) (minAddress size physStart : UInt64) (access : VasRangeAccess)
      (privilege : VasRangePrivilege)
  | copyPhysMapping (vas vasToCopy : Nat) (minAddress size vasToCopyStart : UInt64)
      (access : VasRangeAccess) (privilege : VasRangePrivilege)
  | freeRange (vas : Nat) (regionBase size : UInt64)
  | teardown (vas : Nat)

/-- Store what a call returned. -/
def Vmm.store (s : Vmm) (i : Nat) (r : Except Fault (PhysMem × Vas)) : Option Vmm :=
  r.toOption.map fun a => { mem := a.1, vases := Function.update s.vases i (some a.2) }

/-- One call on a live address space. -/
def Vmm.next (s : Vmm) : VmmEvent → Option Vmm
  | .allocRange i minAddress size access privilege => do
    let vas ← s.vases i
    s.store i (vasAllocRange s.mem vas minAddress.toNat size.toNat access privilege)
  | .mapRange i minAddress size physStart access privilege => do
    let vas ← s.vases i
    s.store i (vasMapRange s.mem vas minAddress.toNat size.toNat physStart.toNat access privilege)
  | .copyPhysMapping i j minAddress size vasToCopyStart access privilege => do
    let vas ← s.vases i
    let vasToCopy ← s.vases j
    s.store i (vasCopyPhysMapping s.mem vas vasToCopy minAddress.toNat size.toNat
      vasToCopyStart.toNat access privilege)
  | .freeRange i regionBase size => do
    let vas ← s.vases i
    s.store i (vasFreeRange s.mem vas regionBase.toNat size.toNat)
  | .teardown i => do
    let vas ← s.vases i
    let m ← (vasTeardown s.mem vas).toOption
    some { mem := m, vases := Function.update s.vases i none }

/-- The frame is the PML4 of a live address space. -/
def Vmm.Root (s : Vmm) (r : Frame) : Prop := ∃ i vas, s.vases i = some vas ∧ vas.pml4 = r

/-- Different address spaces have different PML4s. -/
def Vmm.Distinct (s : Vmm) : Prop :=
  ∀ i j vas vas', s.vases i = some vas → s.vases j = some vas' → vas.pml4 = vas'.pml4 → i = j

/-- Newly made address spaces, whose PML4s were taken from the frame queue that `pmm_init` filled
with the frames `pool`. -/
structure Vmm.Fresh (pool : List Frame) (s : Vmm) : Prop where
  ranges : ∀ i vas, s.vases i = some vas → vas.ranges = []
  empty : ∀ i vas, s.vases i = some vas → ∀ x : Fin 512, x.val < 256 →
    (s.mem.tables vas.pml4 x).present = false
  distinct : s.Distinct
  free : (∀ f ∈ s.mem.free, f ∈ pool) ∧ s.mem.free.Nodup
  taken : ∀ i vas, s.vases i = some vas → vas.pml4 ∈ pool ∧ vas.pml4 ∉ s.mem.free

/-! ### Inversion of the calls -/

theorem toOption_eq_some {α : Type} {r : Except Fault α} {a : α} :
    r.toOption = some a ↔ r = .ok a := by
  cases r with
  | ok b => exact ⟨fun h => congrArg Except.ok (Option.some.inj h), fun h => by cases h; rfl⟩
  | error e => exact ⟨fun h => (by cases h), fun h => (by cases h)⟩

variable {i size : Nat} {body : PhysMem → Nat → Except Fault PhysMem} {m m' : PhysMem}
  {vas vas' : Vas} {s : Vmm} {r : Frame} {pool : List Frame}

theorem Vmm.store_eq_some {s s' : Vmm} {r : Except Fault (PhysMem × Vas)}
    (h : s.store i r = some s') :
    ∃ m vas, r = .ok (m, vas) ∧ s' = { mem := m, vases := Function.update s.vases i (some vas) } := by
  obtain ⟨⟨m, vas⟩, hr, rfl⟩ := Option.map_eq_some_iff.mp h
  exact ⟨m, vas, toOption_eq_some.mp hr, rfl⟩

section Next

variable {s s' : Vmm} {i j : Nat} {minAddress size : UInt64} {access : VasRangeAccess}
  {privilege : VasRangePrivilege}

theorem Vmm.next_allocRange (h : s.next (.allocRange i minAddress size access privilege) = some s') :
    ∃ vas a m vas', s.vases i = some vas ∧
      selectVirtualAddress vas.ranges minAddress.toNat (pageAlign size.toNat) = .ok a ∧
      vasMapPages s.mem vas a (pageAlign size.toNat) (allocBody vas.pml4 a access privilege) =
        .ok (m, vas') ∧
      s' = { mem := m, vases := Function.update s.vases i (some vas') } := by
  obtain ⟨vas, hi, hcall⟩ := Option.bind_eq_some_iff.mp h
  obtain ⟨m, vas', hres, hs'⟩ := Vmm.store_eq_some hcall
  rw [vasAllocRange] at hres
  split at hres
  · obtain ⟨a, ha, hmap⟩ := bind_eq_ok.mp hres
    exact ⟨vas, a, m, vas', hi, ha, hmap, hs'⟩
  · cases hres

theorem Vmm.next_mapRange {physStart : UInt64}
    (h : s.next (.mapRange i minAddress size physStart access privilege) = some s') :
    ∃ vas a m vas', s.vases i = some vas ∧
      selectVirtualAddress vas.ranges minAddress.toNat size.toNat = .ok a ∧
      vasMapPages s.mem vas a size.toNat
        (mapBody vas.pml4 a physStart.toNat access privilege) = .ok (m, vas') ∧
      s' = { mem := m, vases := Function.update s.vases i (some vas') } := by
  obtain ⟨vas, hi, hcall⟩ := Option.bind_eq_some_iff.mp h
  obtain ⟨m, vas', hres, hs'⟩ := Vmm.store_eq_some hcall
  obtain ⟨a, ha, hmap⟩ := bind_eq_ok.mp hres
  exact ⟨vas, a, m, vas', hi, ha, hmap, hs'⟩

theorem Vmm.next_copyPhysMapping {vasToCopyStart : UInt64}
    (h : s.next (.copyPhysMapping i j minAddress size vasToCopyStart access privilege) = some s') :
    ∃ vas vasToCopy a m vas', s.vases i = some vas ∧ s.vases j = some vasToCopy ∧
      selectVirtualAddress vas.ranges minAddress.toNat (pageAlign size.toNat) = .ok a ∧
      vasMapPages s.mem vas a (pageAlign size.toNat)
        (copyBody vas.pml4 vasToCopy.pml4 a vasToCopyStart.toNat access privilege) =
        .ok (m, vas') ∧
      s' = { mem := m, vases := Function.update s.vases i (some vas') } := by
  obtain ⟨vas, hi, hcall⟩ := Option.bind_eq_some_iff.mp h
  obtain ⟨vasToCopy, hj, hcall⟩ := Option.bind_eq_some_iff.mp hcall
  obtain ⟨m, vas', hres, hs'⟩ := Vmm.store_eq_some hcall
  obtain ⟨a, ha, hmap⟩ := bind_eq_ok.mp hres
  exact ⟨vas, vasToCopy, a, m, vas', hi, hj, ha, hmap, hs'⟩

theorem Vmm.next_freeRange {regionBase : UInt64}
    (h : s.next (.freeRange i regionBase size) = some s') :
    ∃ vas m ranges, s.vases i = some vas ∧
      freeRegion4kPages s.mem vas.pml4 regionBase.toNat size.toNat = .ok m ∧
      vasDeleteRange vas.maxRangeCount vas.ranges regionBase.toNat size.toNat = .ok ranges ∧
      s' = { mem := m, vases := Function.update s.vases i (some { vas with ranges }) } := by
  obtain ⟨vas, hi, hcall⟩ := Option.bind_eq_some_iff.mp h
  obtain ⟨m, vas', hres, hs'⟩ := Vmm.store_eq_some hcall
  obtain ⟨m₁, hfree, hres⟩ := bind_eq_ok.mp hres
  obtain ⟨ranges, hranges, hres⟩ := bind_eq_ok.mp hres
  cases hres
  exact ⟨vas, m, ranges, hi, hfree, hranges, hs'⟩

theorem Vmm.next_teardown (h : s.next (.teardown i) = some s') :
    ∃ vas m, s.vases i = some vas ∧ vasTeardown s.mem vas = .ok m ∧
      s' = { mem := m, vases := Function.update s.vases i none } := by
  obtain ⟨vas, hi, hcall⟩ := Option.bind_eq_some_iff.mp h
  obtain ⟨m, hm, hcall⟩ := Option.bind_eq_some_iff.mp hcall
  cases hcall
  exact ⟨vas, m, hi, toOption_eq_some.mp hm, rfl⟩

end Next

/-- A mapping call that returns has selected a region, added it to the ranges and run its page
loop. -/
theorem vasMapPages_eq_ok {chosenStart size : Nat}
    (h : vasMapPages m vas chosenStart size body = .ok (m', vas')) :
    ∃ ranges, vasAddRange vas.maxRangeCount vas.ranges chosenStart size = .ok ranges ∧
      pageLoop size body m = .ok m' ∧ vas' = { vas with ranges } := by
  obtain ⟨ranges, hranges, h⟩ := bind_eq_ok.mp h
  obtain ⟨m₁, hm₁, h⟩ := bind_eq_ok.mp h
  cases h
  exact ⟨ranges, hranges, hm₁, rfl⟩

theorem pageLoop_invariant (Inv : Nat → PhysMem → Prop) (hinit : Inv 0 m)
    (hstep : ∀ k < size / 0x1000, ∀ a b, Inv k a → body a (k * 0x1000 % 2 ^ 32) = .ok b →
      Inv (k + 1) b) (h : pageLoop size body m = .ok m') : Inv (size / 0x1000) m' := by
  rw [pageLoop] at h
  split at h
  · generalize size / 0x1000 = n at h hstep
    induction n generalizing m' with
    | zero =>
      cases h
      exact hinit
    | succ n ih =>
      rw [List.range_succ, List.foldlM_append] at h
      obtain ⟨a, ha, h⟩ := bind_eq_ok.mp h
      obtain ⟨b, hb, h⟩ := bind_eq_ok.mp h
      cases h
      exact hstep n (Nat.lt_succ_self n) a m'
        (ih ha fun k hk => hstep k (Nat.lt_succ_of_lt hk)) hb
  · cases h

theorem pageLoop_one (body : PhysMem → Nat → Except Fault PhysMem) (m : PhysMem) :
    pageLoop 0x1000 body m = body m 0 := by
  show (body m 0 >>= fun m' => .ok m') = body m 0
  exact bind_pure (body m 0)

theorem Vmm.root_update (hi : s.vases i = some vas) (hpml4 : vas'.pml4 = vas.pml4) :
    Vmm.Root { mem := m, vases := Function.update s.vases i (some vas') } = s.Root := by
  funext r
  apply propext
  constructor
  · rintro ⟨j, w, hj, rfl⟩
    by_cases hji : j = i
    · subst hji
      simp only [Function.update_self, Option.some.injEq] at hj
      exact ⟨j, vas, hi, by rw [← hj, hpml4]⟩
    · simp only [Function.update_of_ne hji] at hj
      exact ⟨j, w, hj, rfl⟩
  · rintro ⟨j, w, hj, rfl⟩
    by_cases hji : j = i
    · subst hji
      rw [hi] at hj
      cases hj
      exact ⟨j, vas', Function.update_self j _ _, hpml4⟩
    · exact ⟨j, w, by simp only [Function.update_of_ne hji]; exact hj, rfl⟩

theorem Vmm.Distinct.update (h : s.Distinct) (hi : s.vases i = some vas)
    (hpml4 : vas'.pml4 = vas.pml4) :
    Vmm.Distinct { mem := m, vases := Function.update s.vases i (some vas') } := by
  -- an address space of the new state is one of the old state with the same PML4
  have hold : ∀ j w, Function.update s.vases i (some vas') j = some w →
      ∃ w', s.vases j = some w' ∧ w'.pml4 = w.pml4 := by
    intro j w hj
    by_cases hji : j = i
    · subst hji
      rw [Function.update_self] at hj
      cases hj
      exact ⟨vas, hi, hpml4.symm⟩
    · rw [Function.update_of_ne hji] at hj
      exact ⟨w, hj, rfl⟩
  intro j k w w' hj hk heq
  obtain ⟨v, hv, hvp⟩ := hold j w hj
  obtain ⟨v', hv', hvp'⟩ := hold k w' hk
  exact h j k v v' hv hv' (by rw [hvp, hvp', heq])

theorem Vmm.vases_of_teardown {i j : Nat} {w : Vas}
    (hj : Function.update s.vases i none j = some w) : j ≠ i ∧ s.vases j = some w := by
  by_cases hji : j = i
  · subst hji
    rw [Function.update_self] at hj
    cases hj
  · rw [Function.update_of_ne hji] at hj
    exact ⟨hji, hj⟩

/-! ### What the page-table functions return -/

theorem frameOf_mul (f : Frame) : frameOf (f.val * 0x1000) = f := by
  apply Fin.ext
  show f.val * 0x1000 / 0x1000 % 2 ^ 40 = f.val
  omega

theorem presentBase_eq_ok {e : PageEntry} {f : Frame} (h : presentBase e = .ok f) :
    e.present = true ∧ e.base = f := by
  rw [presentBase] at h
  split at h
  · rename_i hp
    exact ⟨hp, Except.ok.inj h⟩
  · cases h

/-- **`vas_get_phys_frame` returns what the page maps.** -/
theorem vasGetPhysFrame_ok {virtAddr addr : Nat} (h : vasGetPhysFrame m r virtAddr = .ok addr) :
    ∃ f, frameAt m r (pageOf virtAddr) = some f ∧ addr = f.val * 0x1000 := by
  rw [vasGetPhysFrame, pdptGet, vmaPml4eIdx_eq, vmaPdpeIdx_eq, vmaPdeIdx_eq, vmaPteIdx_eq] at h
  simp only [tableIndex_mod, ok_bind] at h
  obtain ⟨pdpt, hpdpt, h⟩ := bind_eq_ok.mp h
  obtain ⟨pd, hpd, h⟩ := bind_eq_ok.mp h
  obtain ⟨pt, hpt, h⟩ := bind_eq_ok.mp h
  obtain ⟨f, hf, h⟩ := bind_eq_ok.mp h
  cases h
  obtain ⟨hp₀, rfl⟩ := presentBase_eq_ok hpdpt
  obtain ⟨hp₁, rfl⟩ := presentBase_eq_ok hpd
  obtain ⟨hp₂, rfl⟩ := presentBase_eq_ok hpt
  obtain ⟨hp₃, rfl⟩ := presentBase_eq_ok hf
  refine ⟨_, ?_, rfl⟩
  rw [frameAt_eq_tableAt]
  exact tableAt_of_present (tableAt_of_present (tableAt_of_present
    (tableAt_of_present (tableAt_zero m r _) hp₀) hp₁) hp₂) hp₃

/-! ### The loop bodies of the mapping calls -/

section Bodies

variable {R : Frame → Prop} {m m' : PhysMem} {r : Frame} {a offset : Nat}
  {access : VasRangeAccess} {privilege : VasRangePrivilege}

theorem allocBody_page (hwf : m.Wf R 256) (hr : R r)
    (hP : pageOf ((a + offset) % 2 ^ 64) < 2 ^ 35)
    (hok : allocBody r a access privilege m offset = .ok m') :
    ∃ f m₁, pmmAlloc m = .ok (f, m₁) ∧
      MapsPage R 256 m₁ m' r (pageOf ((a + offset) % 2 ^ 64)) f := by
  obtain ⟨⟨f, m₁⟩, hf, hmap⟩ := bind_eq_ok.mp hok
  have hpage := mapRegion4kPages_page (by decide) (pmmAlloc_ok (by decide) hwf hf).1 hr hP hmap
  rw [frameOf_mul] at hpage
  exact ⟨f, m₁, hf, hpage⟩

theorem mapBody_page {physStart : Nat} (hwf : m.Wf R 256) (hr : R r)
    (hP : pageOf ((a + offset) % 2 ^ 64) < 2 ^ 35)
    (hok : mapBody r a physStart access privilege m offset = .ok m') :
    MapsPage R 256 m m' r (pageOf ((a + offset) % 2 ^ 64)) (frameOf (physStart + offset)) := by
  have hpage := mapRegion4kPages_page (by decide) hwf hr hP hok
  rwa [show frameOf ((physStart + offset) % 2 ^ 64) = frameOf (physStart + offset) from
    frameOf_congr (by omega)] at hpage

theorem copyBody_page {r' : Frame} {b : Nat} (hwf : m.Wf R 256) (hr : R r)
    (hP : pageOf ((a + offset) % 2 ^ 64) < 2 ^ 35)
    (hok : copyBody r r' a b access privilege m offset = .ok m') :
    ∃ f, frameAt m r' (pageOf ((b + offset) % 2 ^ 64)) = some f ∧
      MapsPage R 256 m m' r (pageOf ((a + offset) % 2 ^ 64)) f := by
  obtain ⟨phys, hphys, hmap⟩ := bind_eq_ok.mp hok
  obtain ⟨f, hf, rfl⟩ := vasGetPhysFrame_ok hphys
  have hpage := mapRegion4kPages_page (by decide) hwf hr hP hmap
  rw [frameOf_mul] at hpage
  exact ⟨f, hf, hpage⟩

theorem page_in_user_half {size k : Nat} (hk : k < size / 0x1000) (ha : a + size ≤ 2 ^ 47) :
    pageOf ((a + k * 0x1000 % 2 ^ 32) % 2 ^ 64) < 2 ^ 35 := by
  unfold pageOf
  omega

end Bodies

/-! ### Returning frames -/

theorem foldlM_pmmFree_ok {frames : List Frame} (h : frames.foldlM pmmFree m = .ok m') :
    m'.tables = m.tables ∧ m'.free = m.free ++ frames := by
  induction frames generalizing m with
  | nil =>
    cases h
    exact ⟨rfl, (List.append_nil _).symm⟩
  | cons f frames ih =>
    obtain ⟨m₁, hm₁, h⟩ := bind_eq_ok.mp h
    rw [pmmFree] at hm₁
    split at hm₁
    · cases hm₁
      obtain ⟨ht, hfree⟩ := ih h
      exact ⟨ht, by rw [hfree, List.append_assoc]; rfl⟩
    · cases hm₁

theorem vasTeardown_ok (h : vasTeardown m vas = .ok m') :
    m'.tables = m.tables ∧ m'.free = m.free ++ teardownFrames m vas.pml4 := by
  rw [vasTeardown] at h
  split at h
  · cases h
  · exact foldlM_pmmFree_ok h

/-! ### The starting state -/

theorem Vmm.Fresh.wf (h : s.Fresh pool) : s.mem.Wf s.Root 256 := by
  apply wf_of_empty
  · rintro r x ⟨i, vas, hi, rfl⟩ hx
    exact h.empty i vas hi x hx
  · rintro f hf ⟨i, vas, hi, rfl⟩
    exact (h.taken i vas hi).2 hf
  · exact h.free.2

theorem Vmm.Fresh.frameAt_none (h : s.Fresh pool) (hr : s.Root r) {P : Nat} (hP : P < 2 ^ 35) :
    frameAt s.mem r P = none := by
  cases hf : frameAt s.mem r P with
  | none => rfl
  | some f =>
    -- a page table would be needed below an empty PML4
    obtain ⟨e, he, -⟩ := Option.map_eq_some_iff.mp hf
    obtain ⟨pde, hpde⟩ := slot_above he
    have hnode : tableAt s.mem r 3 (P / 512) = some pde.base := by
      rw [tableAt_succ, hpde, Option.bind_some, PageEntry.child, if_pos (slot_present hpde)]
    have hempty : ∀ r (x : Fin 512), s.Root r → x.val < 256 →
        (s.mem.tables r x).present = false := by
      rintro r x ⟨i, vas, hi, rfl⟩ hx
      exact h.empty i vas hi x hx
    have hpos := tracked_path (R := s.Root) (B := 256) (by decide) hr (below_of_lt hP).1
    have := congrArg List.length (node_of_empty hempty hpos hnode).1
    cases this

end Axle.Kernel
