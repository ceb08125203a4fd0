import Axle.Kernel.VasAgreement

/-!
# `sbrk`: the program break and the pages below it

`elf_load_buffer` sets the break to the end of `.bss` and rounds it up to the page head; `sbrk`
moves the break and asks `vas_alloc_range` for pages when the break passes the head.  A task is
followed through any sequence of calls, from any break below the end of the user half and any
address spaces.

* `SbrkTask.sbrk` — the call; `none` when it does not return (a failed assertion, a page fault);
* `SbrkDiscipline` — what the calls are expected to do: each returns the break before it, the
  break is the sum of the increments, and the pages below it are mapped;
* `SbrkOk` — when one call does that;
* `sbrk_discipline_iff` — **PROVED**: a sequence of calls keeps the discipline exactly when every
  call of it meets `SbrkOk`;
* `sbrk_of_negative_and_aligned` — a negative increment, and a break at the start of a page.
-/

namespace Axle.Kernel

open Axle.Lib

/-! ### The call -/

/-- The running task's fields for `sbrk`, and the address spaces; `vas` is the active one. -/
structure SbrkTask where
  vmm : Vmm
  vas : Nat
  sbrkBase : Nat
  sbrkCurrentBreak : Nat
  sbrkCurrentPageHead : Nat

/-- The end of `elf_load_buffer`, for a program break that it has read from the section headers. -/
def elfSetBreak (vmm : Vmm) (vas progBreak : Nat) : SbrkTask where
  vmm := vmm
  vas := vas
  sbrkBase := progBreak
  sbrkCurrentBreak := progBreak
  sbrkCurrentPageHead := (progBreak + 0x1000) % 2 ^ 64 / 0x1000 * 0x1000

/-- A canonical address whose page is mapped in the active address space. -/
def SbrkTask.reaches (s : SbrkTask) (addr : Nat) : Bool :=
  (addr < 2 ^ 47 || 2 ^ 64 - 2 ^ 47 ≤ addr) &&
    (s.vmm.vases s.vas).any fun vas => (translate s.vmm.mem vas.pml4 (pageOf addr)).isSome

/-- `memset(brk, 0, increment)` returns when it reaches every page that it writes to. -/
def SbrkTask.memset (s : SbrkTask) (brk increment : Nat) : Bool :=
  (List.range ((brk + increment - 1) / 0x1000 + 1 - brk / 0x1000)).all fun k =>
    s.reaches ((brk / 0x1000 + k) * 0x1000 % 2 ^ 64)

/-- The part of `sbrk` that moves the page head.  `vas_alloc_range` returns the address it has
selected, and any other than the head is a failed assertion. -/
def SbrkTask.grow (s : SbrkTask) (newHigh : Nat) : Option SbrkTask :=
  if s.sbrkCurrentPageHead < newHigh then do
    let neededPages := (newHigh - s.sbrkCurrentPageHead + 0xfff) % 2 ^ 64 / 0x1000
    let vas ← s.vmm.vases s.vas
    let addr ← (selectVirtualAddress vas.ranges s.sbrkCurrentPageHead
      (pageAlign (neededPages * 0x1000))).toOption
    let vmm ← s.vmm.store s.vas (vasAllocRange s.vmm.mem vas s.sbrkCurrentPageHead
      (neededPages * 0x1000) .readWrite .user)
    if addr = s.sbrkCurrentPageHead then
      some { s with
        vmm
        sbrkCurrentPageHead := (s.sbrkCurrentPageHead + neededPages * 0x1000) % 2 ^ 64 }
    else none
  else some s

/-- `sbrk`.  A negative `int` is subtracted from an unsigned break, and `NULL` is returned. -/
def SbrkTask.sbrk (s : SbrkTask) (increment : Int32) : Option (Nat × SbrkTask) :=
  if increment.toInt < 0 then
    let brk := (((s.sbrkCurrentBreak : Int) - increment.toInt) % 2 ^ 64).toNat
    if s.sbrkBase ≤ brk then some (0, { s with sbrkCurrentBreak := brk }) else none
  else if increment.toInt = 0 then some (s.sbrkCurrentBreak, s)
  else do
    let brk := s.sbrkCurrentBreak
    let t ← s.grow ((brk + increment.toInt.toNat) % 2 ^ 64)
    let t := { t with sbrkCurrentBreak := (brk + increment.toInt.toNat) % 2 ^ 64 }
    if t.memset brk increment.toInt.toNat then some (brk, t) else none

/-- The task after the call. -/
def SbrkTask.next (s : SbrkTask) (increment : Int32) : Option SbrkTask :=
  (s.sbrk increment).map Prod.snd

/-! ### What is expected of it -/

/-- Where the break stands after the increments `done`, and that the pages below it are mapped. -/
structure BreakAt (s₀ : SbrkTask) (done : List Int32) (s : SbrkTask) : Prop where
  sum : (s.sbrkCurrentBreak : Int) = s₀.sbrkCurrentBreak + (done.map Int32.toInt).sum
  low : s₀.sbrkCurrentBreak ≤ s.sbrkCurrentBreak
  high : s.sbrkCurrentBreak ≤ s.sbrkCurrentPageHead
  mapped : ∀ v, s₀.sbrkCurrentBreak ≤ v → v < s.sbrkCurrentBreak → s.reaches v = true

/-- Every call of the sequence returns the break before it, and leaves the break where the
increments so far put it. -/
def SbrkDiscipline (s₀ : SbrkTask) (increments : List Int32) : Prop :=
  ∀ done increment, done ++ [increment] <+: increments →
    ∃ s t, StepRun.run SbrkTask.next s₀ done = some s ∧
      s.sbrk increment = some (s.sbrkCurrentBreak, t) ∧ BreakAt s₀ (done ++ [increment]) t

/-! ### When a call does it -/

/-- `vas_alloc_range` has the pages from the page head up to `newHigh` to give: no range is in
the way, and there are frames enough. -/
def SbrkTask.HasRoom (s : SbrkTask) (newHigh : Nat) : Prop :=
  ∃ vas, s.vmm.vases s.vas = some vas ∧
    selectVirtualAddress vas.ranges s.sbrkCurrentPageHead
      (pageAlign (pagesIn (newHigh - s.sbrkCurrentPageHead) * 0x1000)) =
        .ok s.sbrkCurrentPageHead ∧
    (vasAllocRange s.vmm.mem vas s.sbrkCurrentPageHead
      (pagesIn (newHigh - s.sbrkCurrentPageHead) * 0x1000) .readWrite .user).isOk = true

/-- A call that keeps the discipline: nothing is asked for, or the increment is positive, the new
break lies in the user half, the page that the break is in is mapped when it is below the head,
and there is room for the pages above the head. -/
def SbrkOk (s : SbrkTask) (increment : Int32) : Prop :=
  increment.toInt = 0 ∨
    (0 < increment.toInt ∧ s.sbrkCurrentBreak + increment.toInt.toNat ≤ 2 ^ 47 ∧
      (s.sbrkCurrentBreak < s.sbrkCurrentPageHead → s.reaches s.sbrkCurrentBreak = true) ∧
      (s.sbrkCurrentPageHead < s.sbrkCurrentBreak + increment.toInt.toNat →
        s.HasRoom (s.sbrkCurrentBreak + increment.toInt.toNat)))

section Calls

variable {s t s₀ : SbrkTask} {v newHigh brk : Nat}

theorem reaches_iff (hv : v < 2 ^ 47) :
    s.reaches v = true ↔
      ∃ vas, s.vmm.vases s.vas = some vas ∧ PageMapped s.vmm.mem vas.pml4 v := by
  have hcanonical : (decide (v < 2 ^ 47) || decide (2 ^ 64 - 2 ^ 47 ≤ v)) = true := by
    rw [decide_eq_true hv, Bool.true_or]
  rw [SbrkTask.reaches, hcanonical, Bool.true_and, Option.any_eq_true]
  simp only [translate_isSome_iff hv]

theorem reaches_page {w : Nat} (hv : v < 2 ^ 47) (h : v / 0x1000 = w / 0x1000) :
    s.reaches v = s.reaches w := by
  have hiff : s.reaches v = true ↔ s.reaches w = true := by
    rw [reaches_iff hv, reaches_iff (by omega)]
    simp only [PageMapped, h]
  exact Bool.eq_iff_iff.mpr hiff

theorem reaches_hole (hv : 2 ^ 47 ≤ v) (hv' : v < 2 ^ 48) : s.reaches v = false := by
  have hcanonical : (decide (v < 2 ^ 47) || decide (2 ^ 64 - 2 ^ 47 ≤ v)) = false := by
    simp only [Bool.or_eq_false_iff, decide_eq_false_iff_not]
    omega
  rw [SbrkTask.reaches, hcanonical, Bool.false_and]

/-- `memset` returns when every address that it writes to is reached. -/
theorem memset_iff {increment : Nat} (hbrk : brk ≤ 2 ^ 47) (hpos : 0 < increment)
    (hlt : increment < 2 ^ 31) :
    s.memset brk increment = true ↔
      brk + increment ≤ 2 ^ 47 ∧ ∀ v, brk ≤ v → v < brk + increment → s.reaches v = true := by
  simp only [SbrkTask.memset, List.all_eq_true, List.mem_range]
  have hstart : ∀ k, k < (brk + increment - 1) / 0x1000 + 1 - brk / 0x1000 →
      (brk / 0x1000 + k) * 0x1000 % 2 ^ 64 = (brk / 0x1000 + k) * 0x1000 := by
    intro k hk
    omega
  constructor
  · intro hall
    have hpage : ∀ v, brk ≤ v → v < brk + increment → s.reaches (v / 0x1000 * 0x1000) = true := by
      intro v hv hv'
      have hk := hall (v / 0x1000 - brk / 0x1000) (by omega)
      rw [hstart _ (by omega)] at hk
      rwa [show brk / 0x1000 + (v / 0x1000 - brk / 0x1000) = v / 0x1000 by omega] at hk
    have hend : brk + increment ≤ 2 ^ 47 := by
      by_contra hpast
      have hlast := hpage (brk + increment - 1) (by omega) (by omega)
      rw [reaches_hole (by omega) (by omega)] at hlast
      cases hlast
    refine ⟨hend, fun v hv hv' => ?_⟩
    rw [reaches_page (w := v / 0x1000 * 0x1000) (by omega) (by omega)]
    exact hpage v hv hv'
  · intro hall k hk
    rw [hstart k hk]
    -- the first page is entered at the break, the others at their start
    have hw := hall.2 (max brk ((brk / 0x1000 + k) * 0x1000)) (by omega) (by omega)
    rw [reaches_page (w := (brk / 0x1000 + k) * 0x1000) (by omega) (by omega)] at hw
    exact hw

theorem vasAllocRange_addsPages {R : Frame → Prop} {m m' : PhysMem} {vas vas' : Vas}
    {head size : Nat} {access : VasRangeAccess} {privilege : VasRangePrivilege}
    (hwf : m.Wf R 256) (hr : R vas.pml4) (hadd : AddOk head size)
    (hsize : pageAlign size = size)
    (hselect : selectVirtualAddress vas.ranges head (pageAlign size) = .ok head)
    (hok : vasAllocRange m vas head size access privilege = .ok (m', vas')) :
    AddsPages R vas.pml4 (head / 0x1000) m (size / 0x1000) m' ∧ vas'.pml4 = vas.pml4 := by
  rw [vasAllocRange] at hok
  split at hok
  · obtain ⟨a, ha, hmap⟩ := bind_eq_ok.mp hok
    obtain rfl : head = a := Except.ok.inj (hselect.symm.trans ha)
    rw [hsize] at hmap
    obtain ⟨ranges, -, hloop, rfl⟩ := vasMapPages_eq_ok hmap
    refine ⟨pageLoop_invariant (AddsPages R vas.pml4 (head / 0x1000) m) (AddsPages.refl hwf) ?_
      hloop, rfl⟩
    intro k hk m₁ m₂ hm₁ hbody
    have hpage := allocBody_addsPage hm₁.1 hr (hadd.page_lt hk) hbody
    rw [page_of_offset hadd hk] at hpage
    exact hm₁.page hpage
  · cases hok

/-- What a task keeps between calls: its page head is a page boundary in the user half. -/
structure SbrkTask.Wf (s : SbrkTask) : Prop where
  mem : s.vmm.mem.Wf s.vmm.Root 256
  aligned : s.sbrkCurrentPageHead % 0x1000 = 0
  user : s.sbrkCurrentPageHead ≤ 2 ^ 47
  high : s.sbrkCurrentBreak ≤ s.sbrkCurrentPageHead

/-- The head after `grow`. -/
def SbrkTask.newHead (s : SbrkTask) (newHigh : Nat) : Nat :=
  s.sbrkCurrentPageHead + pagesIn (newHigh - s.sbrkCurrentPageHead) * 0x1000

theorem newHead_bounds (h : s.Wf) (hnew : newHigh ≤ 2 ^ 47) :
    newHigh ≤ s.newHead newHigh ∧ s.newHead newHigh ≤ 2 ^ 47 ∧ s.newHead newHigh % 0x1000 = 0 := by
  have haligned := h.aligned
  have huser := h.user
  unfold SbrkTask.newHead pagesIn
  omega

/-- `grow` either has nothing to do or stores what `vas_alloc_range` has returned at the head. -/
theorem grow_cases (hnew : newHigh ≤ 2 ^ 47) (hlt : s.sbrkCurrentPageHead < newHigh) :
    s.grow newHigh = some t ↔
      ∃ vas m vas', s.vmm.vases s.vas = some vas ∧
        selectVirtualAddress vas.ranges s.sbrkCurrentPageHead
          (pageAlign (pagesIn (newHigh - s.sbrkCurrentPageHead) * 0x1000)) =
            .ok s.sbrkCurrentPageHead ∧
        vasAllocRange s.vmm.mem vas s.sbrkCurrentPageHead
          (pagesIn (newHigh - s.sbrkCurrentPageHead) * 0x1000) .readWrite .user = .ok (m, vas') ∧
        t = { s with
          vmm := { mem := m, vases := Function.update s.vmm.vases s.vas (some vas') }
          sbrkCurrentPageHead := s.newHead newHigh } := by
  have hpages : (newHigh - s.sbrkCurrentPageHead + 0xfff) % 2 ^ 64 / 0x1000 =
      pagesIn (newHigh - s.sbrkCurrentPageHead) := by
    unfold pagesIn
    omega
  have hhead : (s.sbrkCurrentPageHead + pagesIn (newHigh - s.sbrkCurrentPageHead) * 0x1000) %
      2 ^ 64 = s.newHead newHigh := by
    unfold SbrkTask.newHead pagesIn
    omega
  simp only [SbrkTask.grow, if_pos hlt, hpages, hhead, Option.bind_eq_bind,
    Option.bind_eq_some_iff, toOption_eq_some]
  constructor
  · rintro ⟨vas, hvas, addr, haddr, vmm, hstore, h⟩
    obtain ⟨m, vas', halloc, rfl⟩ := Vmm.store_eq_some hstore
    split at h
    · rename_i heq
      subst heq
      exact ⟨vas, m, vas', hvas, haddr, halloc, (Option.some.inj h).symm⟩
    · cases h
  · rintro ⟨vas, m, vas', hvas, haddr, halloc, rfl⟩
    exact ⟨vas, hvas, _, haddr, _, by rw [Vmm.store, halloc]; rfl, if_pos rfl⟩

theorem grow_isSome_iff (hnew : newHigh ≤ 2 ^ 47) :
    (∃ t, s.grow newHigh = some t) ↔ (s.sbrkCurrentPageHead < newHigh → s.HasRoom newHigh) := by
  by_cases hlt : s.sbrkCurrentPageHead < newHigh
  · simp only [grow_cases hnew hlt, hlt, true_imp_iff, SbrkTask.HasRoom]
    constructor
    · rintro ⟨t, vas, m, vas', hvas, haddr, halloc, -⟩
      exact ⟨vas, hvas, haddr, by rw [halloc]; rfl⟩
    · rintro ⟨vas, hvas, haddr, halloc⟩
      cases hres : vasAllocRange s.vmm.mem vas s.sbrkCurrentPageHead
          (pagesIn (newHigh - s.sbrkCurrentPageHead) * 0x1000) .readWrite .user with
      | ok r => exact ⟨_, vas, r.1, r.2, hvas, haddr, hres, rfl⟩
      | error e =>
        rw [hres] at halloc
        cases halloc
  · simp [SbrkTask.grow, hlt]

/-- What `grow` leaves: the head covers `newHigh`, and the pages that it has passed are mapped. -/
theorem grow_spec (h : s.Wf) (hnew : newHigh ≤ 2 ^ 47) (hgt : newHigh < s.sbrkCurrentPageHead + 2 ^ 31)
    (hgrow : s.grow newHigh = some t) :
    t.vmm.mem.Wf t.vmm.Root 256 ∧ t.sbrkBase = s.sbrkBase ∧
      t.sbrkCurrentPageHead = s.newHead newHigh ∧
      ∀ v < 2 ^ 47, (t.reaches v = true ↔
        s.reaches v = true ∨ (s.sbrkCurrentPageHead ≤ v ∧ v < s.newHead newHigh)) := by
  have hbounds := newHead_bounds h hnew
  have haligned := h.aligned
  by_cases hlt : s.sbrkCurrentPageHead < newHigh
  · obtain ⟨vas, m, vas', hvas, haddr, halloc, rfl⟩ := (grow_cases hnew hlt).mp hgrow
    have hsize : pageAlign (pagesIn (newHigh - s.sbrkCurrentPageHead) * 0x1000) =
        pagesIn (newHigh - s.sbrkCurrentPageHead) * 0x1000 := by
      unfold pageAlign pagesIn
      omega
    have hadd : AddOk s.sbrkCurrentPageHead
        (pagesIn (newHigh - s.sbrkCurrentPageHead) * 0x1000) := by
      refine .inr ⟨haligned, by omega, hbounds.2.1, ?_⟩
      unfold pagesIn
      omega
    obtain ⟨hpages, hpml4⟩ := vasAllocRange_addsPages h.mem ⟨s.vas, vas, hvas, rfl⟩ hadd hsize
      haddr halloc
    refine ⟨?_, rfl, rfl, fun v hv => ?_⟩
    · show m.Wf (Vmm.Root { mem := m, vases := Function.update s.vmm.vases s.vas (some vas') }) 256
      rw [Vmm.root_update hvas hpml4]
      exact hpages.1
    · rw [reaches_iff hv, reaches_iff hv]
      simp only [Function.update_self, hvas, Option.some.injEq, exists_eq_left', hpml4, PageMapped]
      rw [hpages.2 vas.pml4 _ ⟨s.vas, vas, hvas, rfl⟩ (by omega)]
      apply or_congr_right
      unfold SbrkTask.newHead
      constructor
      · omega
      · intro hv'
        exact ⟨rfl, by omega, by omega⟩
  · obtain rfl : s = t := by simpa [SbrkTask.grow, hlt] using hgrow
    have hhead : s.newHead newHigh = s.sbrkCurrentPageHead := by
      unfold SbrkTask.newHead pagesIn
      omega
    refine ⟨h.mem, rfl, hhead.symm, fun v _ => ?_⟩
    exact ⟨.inl, fun hv => hv.elim id fun hv => by omega⟩

/-! ### One call -/

/-- The invariant of the runs: the break stands where the increments `done` put it, and the pages
between the one that it is in and the head are mapped. -/
structure SbrkInv (s₀ : SbrkTask) (done : List Int32) (s : SbrkTask) : Prop where
  wf : s.Wf
  breakAt : BreakAt s₀ done s
  above : ∀ v, s.sbrkCurrentBreak / 0x1000 < v / 0x1000 → v < s.sbrkCurrentPageHead →
    s.reaches v = true

variable {done : List Int32} {increment : Int32} {r : Nat}

theorem sbrk_pos (hpos : 0 < increment.toInt) (hbrk : s.sbrkCurrentBreak ≤ 2 ^ 47) :
    s.sbrk increment = some (r, t) ↔
      ∃ t', s.grow (s.sbrkCurrentBreak + increment.toInt.toNat) = some t' ∧
        t'.memset s.sbrkCurrentBreak increment.toInt.toNat = true ∧
        r = s.sbrkCurrentBreak ∧
        t = { t' with sbrkCurrentBreak := s.sbrkCurrentBreak + increment.toInt.toNat } := by
  have hlt := Int32.toInt_lt increment
  have hmod : (s.sbrkCurrentBreak + increment.toInt.toNat) % 2 ^ 64 =
      s.sbrkCurrentBreak + increment.toInt.toNat := Nat.mod_eq_of_lt (by omega)
  simp only [SbrkTask.sbrk, if_neg (show ¬increment.toInt < 0 by omega),
    if_neg (show ¬increment.toInt = 0 by omega), hmod, Option.bind_eq_bind,
    Option.bind_eq_some_iff]
  apply exists_congr
  intro t'
  apply and_congr_right
  intro _
  rw [show SbrkTask.memset { t' with sbrkCurrentBreak := s.sbrkCurrentBreak +
    increment.toInt.toNat } s.sbrkCurrentBreak increment.toInt.toNat =
      t'.memset s.sbrkCurrentBreak increment.toInt.toNat from rfl]
  split
  · rename_i hmemset
    simp only [hmemset, true_and, Option.some.injEq, Prod.mk.injEq]
    exact and_congr eq_comm eq_comm
  · rename_i hmemset
    exact iff_of_false (fun h => by cases h) fun h => hmemset h.1

section

variable (h : SbrkInv s₀ done s)

include h

/-- A positive increment: which addresses the call reaches, and when it returns. -/
theorem SbrkInv.sbrk_pos (hpos : 0 < increment.toInt) (hok : SbrkOk s increment) :
    ∃ t, s.sbrk increment = some (s.sbrkCurrentBreak, t) ∧ SbrkInv s₀ (done ++ [increment]) t := by
  obtain hzero | ⟨-, hend, hpage, hroom⟩ := hok
  · omega
  have hlt := Int32.toInt_lt increment
  have hhigh := h.wf.high
  obtain ⟨t, ht⟩ := (grow_isSome_iff hend).mpr hroom
  obtain ⟨hwf, hbase, hhead, hreaches⟩ := grow_spec h.wf hend (by omega) ht
  obtain ⟨hcover, huser', haligned'⟩ := newHead_bounds h.wf hend
  have hwritten : ∀ v, s.sbrkCurrentBreak ≤ v →
      v < s.sbrkCurrentBreak + increment.toInt.toNat → t.reaches v = true := by
    intro v hv hv'
    rw [hreaches v (by omega)]
    by_cases hin : v < s.sbrkCurrentPageHead
    · left
      by_cases hsame : v / 0x1000 = s.sbrkCurrentBreak / 0x1000
      · rw [reaches_page (by omega) hsame]
        exact hpage (by omega)
      · exact h.above v (by omega) hin
    · exact .inr (by omega)
  have hmemset := (memset_iff (s := t) (by omega) (by omega) (by omega)).mpr ⟨hend, hwritten⟩
  refine ⟨_, (Kernel.sbrk_pos hpos (by omega)).mpr ⟨t, ht, hmemset, rfl, rfl⟩, ?_⟩
  have hsum := h.breakAt.sum
  have hlow := h.breakAt.low
  refine ⟨⟨hwf, ?_, ?_, ?_⟩, ⟨?_, ?_, ?_, ?_⟩, ?_⟩
  · show t.sbrkCurrentPageHead % 0x1000 = 0
    rw [hhead]
    exact haligned'
  · show t.sbrkCurrentPageHead ≤ 2 ^ 47
    rw [hhead]
    exact huser'
  · show s.sbrkCurrentBreak + increment.toInt.toNat ≤ t.sbrkCurrentPageHead
    rw [hhead]
    exact hcover
  · show ((s.sbrkCurrentBreak + increment.toInt.toNat : Nat) : Int) = _
    simp only [List.map_append, List.map_cons, List.map_nil, List.sum_append, List.sum_cons,
      List.sum_nil]
    omega
  · show s₀.sbrkCurrentBreak ≤ s.sbrkCurrentBreak + increment.toInt.toNat
    omega
  · show s.sbrkCurrentBreak + increment.toInt.toNat ≤ t.sbrkCurrentPageHead
    rw [hhead]
    exact hcover
  · intro v hv hv'
    show t.reaches v = true
    by_cases hold : v < s.sbrkCurrentBreak
    · exact (hreaches v (by omega)).mpr (.inl (h.breakAt.mapped v hv hold))
    · exact hwritten v (by omega) hv'
  · intro v hv hv'
    show t.reaches v = true
    have hv : (s.sbrkCurrentBreak + increment.toInt.toNat) / 0x1000 < v / 0x1000 := hv
    rw [hhead] at hv'
    rw [hreaches v (by omega)]
    by_cases hin : v < s.sbrkCurrentPageHead
    · exact .inl (h.above v (by omega) hin)
    · exact .inr (by omega)

theorem SbrkInv.ok_of_pos (hpos : 0 < increment.toInt) (hcall : s.sbrk increment = some (r, t)) :
    SbrkOk s increment := by
  have hlt := Int32.toInt_lt increment
  have hhigh := h.wf.high
  have huser := h.wf.user
  obtain ⟨t', ht', hmemset, -, -⟩ := (Kernel.sbrk_pos hpos (by omega)).mp hcall
  obtain ⟨hend, hwritten⟩ := (memset_iff (by omega) (by omega) (by omega)).mp hmemset
  refine .inr ⟨hpos, hend, fun hbelow => ?_, (grow_isSome_iff hend).mp ⟨t', ht'⟩⟩
  obtain ⟨-, -, -, hreaches⟩ := grow_spec h.wf hend (by omega) ht'
  have hfirst := hwritten s.sbrkCurrentBreak le_rfl (by omega)
  rw [hreaches _ (by omega)] at hfirst
  exact hfirst.elim id fun hin => absurd hin.1 (by omega)

theorem SbrkInv.not_of_neg (hneg : increment.toInt < 0) (hcall : s.sbrk increment = some (r, t)) :
    ¬BreakAt s₀ (done ++ [increment]) t := by
  intro hat
  have hafter := hat.sum
  have hsum := h.breakAt.sum
  have hhigh := h.wf.high
  have huser := h.wf.user
  simp only [SbrkTask.sbrk, if_pos hneg] at hcall
  simp only [List.map_append, List.map_cons, List.map_nil, List.sum_append, List.sum_cons,
    List.sum_nil] at hafter
  split at hcall
  · cases hcall
    simp only at hafter
    omega
  · cases hcall

theorem SbrkInv.call (hok : SbrkOk s increment) :
    ∃ t, s.sbrk increment = some (s.sbrkCurrentBreak, t) ∧ SbrkInv s₀ (done ++ [increment]) t := by
  by_cases hzero : increment.toInt = 0
  · refine ⟨s, by simp [SbrkTask.sbrk, hzero], h.wf, ⟨?_, h.breakAt.low, h.breakAt.high,
      h.breakAt.mapped⟩, h.above⟩
    rw [h.breakAt.sum]
    simp [hzero]
  · exact h.sbrk_pos (hok.resolve_left hzero).1 hok

/-- **One call**: it keeps the discipline exactly when it meets `SbrkOk`. -/
theorem SbrkInv.call_iff :
    (∃ t, s.sbrk increment = some (s.sbrkCurrentBreak, t) ∧ BreakAt s₀ (done ++ [increment]) t) ↔
      SbrkOk s increment := by
  constructor
  · rintro ⟨t, hcall, hat⟩
    rcases lt_trichotomy increment.toInt 0 with hneg | hzero | hpos
    · exact absurd hat (h.not_of_neg hneg hcall)
    · exact .inl hzero
    · exact h.ok_of_pos hpos hcall
  · intro hok
    obtain ⟨t, hcall, hinv⟩ := h.call hok
    exact ⟨t, hcall, hinv.breakAt⟩

end

/-! ### Whole runs -/

/-- The discipline over the rest of a sequence, from a state that has kept it. -/
theorem SbrkInv.discipline_iff (increments : List Int32) :
    ∀ (done : List Int32) (s : SbrkTask), StepRun.run SbrkTask.next s₀ done = some s →
      SbrkInv s₀ done s →
      ((∀ mid increment, mid ++ [increment] <+: increments →
          ∃ s t, StepRun.run SbrkTask.next s₀ (done ++ mid) = some s ∧
            s.sbrk increment = some (s.sbrkCurrentBreak, t) ∧
            BreakAt s₀ (done ++ mid ++ [increment]) t) ↔
        StepRun.Meets SbrkTask.next SbrkOk s increments) := by
  induction increments with
  | nil =>
    intro done s _ _
    exact iff_of_true (fun mid increment h => by simp at h) trivial
  | cons increment increments ih =>
    intro done s hrun h
    have hnext : ∀ t, s.sbrk increment = some (s.sbrkCurrentBreak, t) →
        StepRun.run SbrkTask.next s₀ (done ++ [increment]) = some t := by
      intro t hcall
      rw [StepRun.run_append, hrun, Option.bind_some, StepRun.run_cons_eq_some]
      exact ⟨t, by rw [SbrkTask.next, hcall]; rfl, rfl⟩
    constructor
    · intro hall
      have hok : SbrkOk s increment := by
        obtain ⟨s', t, hs', hcall, hat⟩ := hall [] increment (by simp)
        rw [List.append_nil, hrun] at hs'
        cases hs'
        rw [List.append_nil] at hat
        exact h.call_iff.mp ⟨t, hcall, hat⟩
      refine ⟨hok, fun t ht => ?_⟩
      obtain ⟨t', hcall, hinv⟩ := h.call hok
      rw [SbrkTask.next, hcall] at ht
      cases ht
      refine (ih (done ++ [increment]) t' (hnext t' hcall) hinv).mp fun mid e hmid => ?_
      have := hall (increment :: mid) e (List.cons_prefix_cons.mpr ⟨rfl, hmid⟩)
      rwa [List.append_cons] at this
    · rintro ⟨hok, hrest⟩ mid e hmid
      obtain ⟨t, hcall, hinv⟩ := h.call hok
      cases mid with
      | nil =>
        obtain ⟨rfl, -⟩ := List.cons_prefix_cons.mp hmid
        rw [List.append_nil]
        exact ⟨s, t, hrun, hcall, hinv.breakAt⟩
      | cons e' mid =>
        obtain ⟨rfl, hmid'⟩ := List.cons_prefix_cons.mp hmid
        rw [List.append_cons]
        refine (ih (done ++ [e']) t (hnext t hcall) hinv).mpr (hrest t ?_) mid e hmid'
        rw [SbrkTask.next, hcall]
        rfl

theorem elfSetBreak_inv {vmm : Vmm} {vas progBreak : Nat} (hwf : vmm.mem.Wf vmm.Root 256)
    (hbreak : progBreak < 2 ^ 47) :
    SbrkInv (elfSetBreak vmm vas progBreak) [] (elfSetBreak vmm vas progBreak) := by
  have hhead : (elfSetBreak vmm vas progBreak).sbrkCurrentPageHead =
      (progBreak / 0x1000 + 1) * 0x1000 := by
    show (progBreak + 0x1000) % 2 ^ 64 / 0x1000 * 0x1000 = (progBreak / 0x1000 + 1) * 0x1000
    omega
  have hbrk : (elfSetBreak vmm vas progBreak).sbrkCurrentBreak = progBreak := rfl
  refine ⟨⟨hwf, ?_, ?_, ?_⟩, ⟨by simp, le_rfl, ?_, fun v hv hv' => ?_⟩, fun v hv hv' => ?_⟩
  all_goals omega

end Calls

/-- **`sbrk` keeps its discipline exactly as far as its calls are good.**  From any break that the
loader sets in the user half, over any address spaces and for any sequence of increments: every
call returns the break before it, the break is the first one plus the increments and lies between
the first one and the page head, and the pages below it are mapped — exactly when no increment is
negative, the page of the break is mapped whenever it lies below the head, and `vas_alloc_range`
has room at the head whenever the break passes it. -/
theorem sbrk_discipline_iff (vmm : Vmm) (hwf : vmm.mem.Wf vmm.Root 256) (vas progBreak : Nat)
    (hbreak : progBreak < 2 ^ 47) (increments : List Int32) :
    SbrkDiscipline (elfSetBreak vmm vas progBreak) increments ↔
      StepRun.Meets SbrkTask.next SbrkOk (elfSetBreak vmm vas progBreak) increments :=
  SbrkInv.discipline_iff increments [] _ rfl (elfSetBreak_inv hwf hbreak)

/-! ### A loaded program -/

instance SbrkTask.HasRoom.decidable (s : SbrkTask) (newHigh : Nat) :
    Decidable (s.HasRoom newHigh) :=
  match h : s.vmm.vases s.vas with
  | none => isFalse fun ⟨vas, hvas, _⟩ => by rw [h] at hvas; cases hvas
  | some vas =>
    decidable_of_iff
      (selectVirtualAddress vas.ranges s.sbrkCurrentPageHead
        (pageAlign (pagesIn (newHigh - s.sbrkCurrentPageHead) * 0x1000)) =
          .ok s.sbrkCurrentPageHead ∧
      (vasAllocRange s.vmm.mem vas s.sbrkCurrentPageHead
        (pagesIn (newHigh - s.sbrkCurrentPageHead) * 0x1000) .readWrite .user).isOk = true)
      ⟨fun hr => ⟨vas, h, hr⟩, fun ⟨w, hw, hr⟩ => by
        rw [h] at hw
        cases hw
        exact hr⟩

instance SbrkOk.decidable (s : SbrkTask) (increment : Int32) : Decidable (SbrkOk s increment) :=
  inferInstanceAs (Decidable (_ ∨ _))

/-- A program of one page has been loaded at `0x7f0000000000`. -/
def loadedVmm : Vmm := (StepRun.run Vmm.next twoVases [takePage]).getD twoVases

theorem loadedVmm_eq : twoVases.next takePage = some loadedVmm := by
  have hsome : (twoVases.next takePage).isSome := by decide +kernel
  obtain ⟨t, ht⟩ := Option.isSome_iff_exists.mp hsome
  rw [loadedVmm, StepRun.run, ht, Option.bind_some, StepRun.run_nil, Option.getD_some]

theorem loadedVmm_wf : loadedVmm.mem.Wf loadedVmm.Root 256 :=
  (twoVases_fresh.agreeInv.next takePage_agreeOk loadedVmm_eq).wf

/-- `.bss` ends in the middle of the page: one call inside it, one for nothing, and one past the
page head. -/
theorem sbrk_discipline_loaded :
    SbrkDiscipline (elfSetBreak loadedVmm 0 0x7f0000000800) [0x100, 0, 0x800] :=
  (sbrk_discipline_iff loadedVmm loadedVmm_wf 0 0x7f0000000800 (by decide)
    [0x100, 0, 0x800]).mpr (by decide +kernel)

/-- Two ways to break the discipline.  One byte is taken and given back: the second call returns
`NULL`, and the break has moved up twice.  And `.bss` ends where a page does: the page that the
loader has counted below the head is not mapped, and the first call stops in a page fault. -/
theorem sbrk_of_negative_and_aligned :
    loadedVmm.mem.Wf loadedVmm.Root 256 ∧
      ((StepRun.run SbrkTask.next (elfSetBreak loadedVmm 0 0x7f0000000800) [1, -1]).map
        SbrkTask.sbrkCurrentBreak = some 0x7f0000000802 ∧
      ¬SbrkDiscipline (elfSetBreak loadedVmm 0 0x7f0000000800) [1, -1]) ∧
      ((elfSetBreak loadedVmm 0 0x7f0000001000).sbrk 1).isNone ∧
      ¬SbrkDiscipline (elfSetBreak loadedVmm 0 0x7f0000001000) [1] := by
  refine ⟨loadedVmm_wf, ⟨by decide +kernel, fun h => ?_⟩, by decide +kernel, fun h => ?_⟩
  · obtain ⟨s, t, hs, hcall, -⟩ := h [1] (-1) (by simp)
    have hreturned : (StepRun.run SbrkTask.next (elfSetBreak loadedVmm 0 0x7f0000000800) [1]).bind
        (fun s => (s.sbrk (-1)).map fun r => (r.1, s.sbrkCurrentBreak)) =
          some (0, 0x7f0000000801) := by decide +kernel
    rw [hs, Option.bind_some, hcall, Option.map_some] at hreturned
    simp only [Option.some.injEq, Prod.mk.injEq] at hreturned
    omega
  · obtain ⟨s, t, hs, hcall, -⟩ := h [] 1 (by simp)
    cases hs
    have hnone : ((elfSetBreak loadedVmm 0 0x7f0000001000).sbrk 1).isNone := by decide +kernel
    rw [hcall] at hnone
    cases hnone

end Axle.Kernel
