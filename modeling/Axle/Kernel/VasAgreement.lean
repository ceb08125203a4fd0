import Axle.Kernel.FrameOwnership

/-!
# The range list and the page tables say the same

`vas_is_page_present` reads the range list only; the walk through the four tables is what the
processor does.  The calls change both, one after the other and by different computations.

* `AddOk`, `FreeOk`, `AgreeOk` — when a call changes the two alike: whole pages, less than 4 GiB
  at once, a region that the free loop reaches to its end, and no frame returned that is free
  already or holds a table;
* `AgreeInv` — the invariant: a user address is covered by a range when its page is mapped;
* `vasIsPagePresent_agrees_iff` — **PROVED**: after any run of such calls the answer is the
  walk's, except at the end of a range that no range covers;
* `vasIsPagePresent_past_the_end` — the first address after an allocated page.
-/

namespace Axle.Kernel

open Axle.Lib

/-! ### Pages of the tree -/

/-- From `m` to `m'` page `P` becomes mapped and no other page changes. -/
def AddsPage (R : Frame → Prop) (r : Frame) (P : Nat) (m m' : PhysMem) : Prop :=
  m'.Wf R 256 ∧ ∀ r' P', R r' → P' < 2 ^ 35 →
    ((frameAt m' r' P').isSome ↔ (frameAt m r' P').isSome ∨ (r' = r ∧ P' = P))

/-- From `m₀` to `m` the `k` pages from `S` have become mapped. -/
def AddsPages (R : Frame → Prop) (r : Frame) (S : Nat) (m₀ : PhysMem) (k : Nat) (m : PhysMem) :
    Prop :=
  m.Wf R 256 ∧ ∀ r' P', R r' → P' < 2 ^ 35 →
    ((frameAt m r' P').isSome ↔
      (frameAt m₀ r' P').isSome ∨ (r' = r ∧ S ≤ P' ∧ P' < S + k))

section Pages

variable {R : Frame → Prop} {m₀ m m' : PhysMem} {r : Frame} {S k P : Nat}

theorem AddsPages.refl (hwf : m.Wf R 256) : AddsPages R r S m 0 m := by
  refine ⟨hwf, fun r' P' _ _ => ⟨.inl, ?_⟩⟩
  rintro (h | h)
  · exact h
  · omega

theorem AddsPages.page (h : AddsPages R r S m₀ k m) (hpage : AddsPage R r (S + k) m m') :
    AddsPages R r S m₀ (k + 1) m' := by
  refine ⟨hpage.1, fun r' P' hr' hP' => ?_⟩
  rw [hpage.2 r' P' hr' hP', h.2 r' P' hr' hP', or_assoc]
  apply or_congr_right
  constructor
  · rintro (⟨hr, h₁, h₂⟩ | ⟨hr, rfl⟩)
    · exact ⟨hr, h₁, by omega⟩
    · exact ⟨hr, by omega, by omega⟩
  · rintro ⟨hr, h₁, h₂⟩
    by_cases hlast : P' = S + k
    · exact .inr ⟨hr, hlast⟩
    · exact .inl ⟨hr, h₁, by omega⟩

theorem MapsPage.addsPage {f : Frame} (h : MapsPage R 256 m m' r P f) : AddsPage R r P m m' := by
  refine ⟨h.wf, fun r' P' hr' hP' => ?_⟩
  rw [h.frames r' P' hr' hP']
  by_cases hat : r' = r ∧ P' = P
  · simp [hat]
  · simp [hat]

variable {a offset : Nat} {access : VasRangeAccess} {privilege : VasRangePrivilege}

theorem allocBody_addsPage (hwf : m.Wf R 256) (hr : R r)
    (hP : pageOf ((a + offset) % 2 ^ 64) < 2 ^ 35)
    (hok : allocBody r a access privilege m offset = .ok m') :
    AddsPage R r (pageOf ((a + offset) % 2 ^ 64)) m m' := by
  obtain ⟨f, m₁, hf, hpage⟩ := allocBody_page hwf hr hP hok
  obtain ⟨-, -, -, hframes⟩ := pmmAlloc_ok (by decide) hwf hf
  have hadds := hpage.addsPage
  refine ⟨hadds.1, fun r' P' hr' hP' => ?_⟩
  rw [hadds.2 r' P' hr' hP', hframes r' P' hr' hP']

theorem mapBody_addsPage {physStart : Nat} (hwf : m.Wf R 256) (hr : R r)
    (hP : pageOf ((a + offset) % 2 ^ 64) < 2 ^ 35)
    (hok : mapBody r a physStart access privilege m offset = .ok m') :
    AddsPage R r (pageOf ((a + offset) % 2 ^ 64)) m m' :=
  (mapBody_page hwf hr hP hok).addsPage

theorem copyBody_addsPage {r' : Frame} {b : Nat} (hwf : m.Wf R 256) (hr : R r)
    (hP : pageOf ((a + offset) % 2 ^ 64) < 2 ^ 35)
    (hok : copyBody r r' a b access privilege m offset = .ok m') :
    AddsPage R r (pageOf ((a + offset) % 2 ^ 64)) m m' := by
  obtain ⟨f, -, hpage⟩ := copyBody_page hwf hr hP hok
  exact hpage.addsPage

end Pages

/-! ### Calls that change both alike -/

/-- A selected region that the page loop maps as the range list records it. -/
def AddOk (chosenStart size : Nat) : Prop :=
  size = 0 ∨ (chosenStart % 0x1000 = 0 ∧ size % 0x1000 = 0 ∧ chosenStart + size ≤ 2 ^ 47 ∧
    size ≤ 2 ^ 32)

/-- A region that the free loop reaches to its end, and whose frames may be returned. -/
structure FreeOk (R : Frame → Prop) (m : PhysMem) (pml4 : Frame) (regionBase size : Nat) :
    Prop where
  user : regionBase + size ≤ 2 ^ 47
  aligned : size = 0 ∨ (regionBase % 0x1000 = 0 ∧ size % 0x1000 = 0)
  reached : regionReach (regionBase / 0x1000) (size / 0x1000) = size / 0x1000
  nodup : (m.free ++ regionFrames m pml4 (regionBase / 0x1000) (size / 0x1000)).Nodup
  noTable : ∀ f ∈ regionFrames m pml4 (regionBase / 0x1000) (size / 0x1000), ¬IsTable R 256 m f

/-- What a call has to respect in the state before it.  No address space is torn down. -/
def AgreeOk (s : Vmm) : VmmEvent → Prop
  | .allocRange i minAddress size _ _ => ∀ vas ∈ s.vases i,
      ∀ a ∈ (selectVirtualAddress vas.ranges minAddress.toNat (pageAlign size.toNat)).toOption,
        AddOk a (pageAlign size.toNat)
  | .mapRange i minAddress size _ _ _ => ∀ vas ∈ s.vases i,
      ∀ a ∈ (selectVirtualAddress vas.ranges minAddress.toNat size.toNat).toOption,
        AddOk a size.toNat
  | .copyPhysMapping i _ minAddress size _ _ _ => ∀ vas ∈ s.vases i,
      ∀ a ∈ (selectVirtualAddress vas.ranges minAddress.toNat (pageAlign size.toNat)).toOption,
        AddOk a (pageAlign size.toNat)
  | .freeRange i regionBase size => ∀ vas ∈ s.vases i,
      FreeOk s.Root s.mem vas.pml4 regionBase.toNat size.toNat
  | .teardown _ => False

/-- The page of an address of the user half is mapped. -/
def PageMapped (m : PhysMem) (pml4 : Frame) (v : Nat) : Prop :=
  (frameAt m pml4 (v / 0x1000)).isSome

/-- The invariant of the runs. -/
structure AgreeInv (s : Vmm) : Prop where
  wf : s.mem.Wf s.Root 256
  distinct : s.Distinct
  ranges : ∀ i vas, s.vases i = some vas → RangesOk vas.ranges
  agree : ∀ i vas, s.vases i = some vas → ∀ v < 2 ^ 47,
    (Covered vas.ranges v ↔ PageMapped s.mem vas.pml4 v)

theorem Vmm.Fresh.agreeInv {pool : List Frame} {s : Vmm} (h : s.Fresh pool) : AgreeInv s := by
  refine ⟨h.wf, h.distinct, ?_, ?_⟩
  · intro i vas hi
    rw [h.ranges i vas hi]
    exact rangesOk_nil
  · intro i vas hi v hv
    rw [h.ranges i vas hi, PageMapped, h.frameAt_none ⟨i, vas, hi, rfl⟩ (by omega)]
    simp [Covered]

section Runs

variable {s s' : Vmm} {i : Nat} {vas : Vas}

variable {m : PhysMem} {vas' : Vas} {a k size : Nat}

/-- A call on one address space: its own ranges and pages still agree, and no other address space
gains or loses a page. -/
theorem AgreeInv.update (h : AgreeInv s) (hi : s.vases i = some vas) (hpml4 : vas'.pml4 = vas.pml4)
    (hwf : m.Wf s.Root 256) (hranges : RangesOk vas'.ranges)
    (hother : ∀ r v, s.Root r → r ≠ vas.pml4 → v < 2 ^ 47 →
      (PageMapped m r v ↔ PageMapped s.mem r v))
    (hagree : ∀ v < 2 ^ 47, (Covered vas'.ranges v ↔ PageMapped m vas.pml4 v)) :
    AgreeInv { mem := m, vases := Function.update s.vases i (some vas') } := by
  have hcases : ∀ j w, Function.update s.vases i (some vas') j = some w →
      w = vas' ∨ (s.vases j = some w ∧ w.pml4 ≠ vas.pml4) := by
    intro j w hj
    by_cases hji : j = i
    · subst hji
      rw [Function.update_self] at hj
      exact .inl (Option.some.inj hj).symm
    · rw [Function.update_of_ne hji] at hj
      exact .inr ⟨hj, fun heq => hji (h.distinct j i w vas hj hi heq)⟩
  refine ⟨?_, h.distinct.update hi hpml4, ?_, ?_⟩
  · rw [Vmm.root_update hi hpml4]
    exact hwf
  · intro j w hj
    rcases hcases j w hj with rfl | ⟨hj, -⟩
    · exact hranges
    · exact h.ranges j w hj
  · intro j w hj v hv
    rcases hcases j w hj with rfl | ⟨hj, hne⟩
    · rw [hpml4]
      exact hagree v hv
    · rw [h.agree j w hj v hv]
      exact (hother w.pml4 v ⟨j, w, hj, rfl⟩ hne hv).symm

theorem page_of_offset (hadd : AddOk a size) (hk : k < size / 0x1000) :
    pageOf ((a + k * 0x1000 % 2 ^ 32) % 2 ^ 64) = a / 0x1000 + k := by
  unfold AddOk at hadd
  unfold pageOf
  omega

theorem AddOk.page_lt (hadd : AddOk a size) (hk : k < size / 0x1000) :
    pageOf ((a + k * 0x1000 % 2 ^ 32) % 2 ^ 64) < 2 ^ 35 := by
  rw [page_of_offset hadd hk]
  unfold AddOk at hadd
  omega

theorem AgreeInv.mapPages (h : AgreeInv s) {minAddress a size : Nat}
    {body : PhysMem → Nat → Except Fault PhysMem} (hi : s.vases i = some vas)
    (hmin : minAddress < 2 ^ 64) (ha : selectVirtualAddress vas.ranges minAddress size = .ok a)
    (hadd : AddOk a size) (hbody : ∀ k < size / 0x1000, ∀ m m', m.Wf s.Root 256 →
      body m (k * 0x1000 % 2 ^ 32) = .ok m' →
      AddsPage s.Root vas.pml4 (pageOf ((a + k * 0x1000 % 2 ^ 32) % 2 ^ 64)) m m')
    (hok : vasMapPages s.mem vas a size body = .ok (m, vas')) :
    AgreeInv { mem := m, vases := Function.update s.vases i (some vas') } := by
  obtain ⟨ranges, hranges, hloop, rfl⟩ := vasMapPages_eq_ok hok
  have hpages : AddsPages s.Root vas.pml4 (a / 0x1000) s.mem (size / 0x1000) m := by
    refine pageLoop_invariant (AddsPages s.Root vas.pml4 (a / 0x1000) s.mem)
      (AddsPages.refl h.wf) ?_ hloop
    intro k hk m m' hm hb
    have hpage := hbody k hk m m' hm.1 hb
    rw [page_of_offset hadd hk] at hpage
    exact hm.page hpage
  have hlt := selectVirtualAddress_lt hmin ha
  have hapart := selectVirtualAddress_disjoint (h.ranges i vas hi)
    (by unfold AddOk at hadd; omega) ha
  obtain ⟨hok', hcov⟩ := vasAddRange_ok (h.ranges i vas hi)
    ⟨hlt, by unfold AddOk at hadd; simp only; omega⟩ hapart hranges
  refine h.update hi rfl hpages.1 hok' ?_ ?_
  · intro r v hr hne hv
    rw [PageMapped, hpages.2 r _ hr (by omega)]
    exact or_iff_left fun hc => hne hc.1
  · intro v hv
    rw [hcov v, h.agree i vas hi v hv, PageMapped, PageMapped,
      hpages.2 vas.pml4 _ ⟨i, vas, hi, rfl⟩ (by omega)]
    apply or_congr_right
    -- the region is made of whole pages
    unfold AddOk at hadd
    constructor
    · intro hv'
      exact ⟨rfl, by omega, by omega⟩
    · omega

theorem AgreeInv.freeRange (h : AgreeInv s) {regionBase size : Nat} {ranges : List VasRange}
    (hi : s.vases i = some vas) (hok : FreeOk s.Root s.mem vas.pml4 regionBase size)
    (hfree : freeRegion4kPages s.mem vas.pml4 regionBase size = .ok m)
    (hdelete : vasDeleteRange vas.maxRangeCount vas.ranges regionBase size = .ok ranges) :
    AgreeInv { mem := m, vases := Function.update s.vases i (some { vas with ranges }) } := by
  have hr : s.Root vas.pml4 := ⟨i, vas, hi, rfl⟩
  have huser := hok.user
  have haligned := hok.aligned
  obtain ⟨⟨r, hrmem, hinside⟩, hranges, hcov⟩ :=
    deleteFrom_ok (by omega) (.inr huser) (h.ranges i vas hi) hdelete
  have hpage : pageOf regionBase = regionBase / 0x1000 := by
    unfold pageOf
    omega
  have hsize : pagesIn size = size / 0x1000 := by
    unfold pagesIn
    omega
  have hreached := hok.reached
  -- the region lies inside a range, so its pages are mapped
  have hmapped : ∀ j < size / 0x1000, ∃ e, slot s.mem vas.pml4 3 (pageOf regionBase + j) = some e := by
    intro j hj
    have hcovered : Covered vas.ranges (regionBase + j * 0x1000) :=
      ⟨r, hrmem, hinside _ (by omega) (by omega)⟩
    have := (h.agree i vas hi _ (by omega)).mp hcovered
    rw [PageMapped, show (regionBase + j * 0x1000) / 0x1000 = pageOf regionBase + j by omega] at this
    obtain ⟨f, hf⟩ := Option.isSome_iff_exists.mp this
    obtain ⟨e, he, -⟩ := Option.map_eq_some_iff.mp hf
    exact ⟨e, he⟩
  have hstate := freeRegion4kPages_ok (by decide) h.wf.separated hr hsize
    (by omega) (by rw [hpage, hreached, ← hpage]; exact hmapped) hfree
  rw [hpage, hreached] at hstate
  refine h.update hi rfl (hstate.wf h.wf hok.nodup hok.noTable) hranges ?_ ?_
  · intro r' v hr' hne hv
    rw [PageMapped, hstate.frames hr hr' (by omega), if_neg fun hc => hne hc.1]
    rfl
  · intro v hv
    rw [hcov v, h.agree i vas hi v hv, PageMapped, PageMapped, hstate.frames hr hr (by omega)]
    by_cases hin : regionBase ≤ v ∧ v < regionBase + size
    · rw [if_pos ⟨rfl, by omega, by omega⟩]
      simp [hin]
    · rw [if_neg fun hc => hin (by omega)]
      exact and_iff_left hin

/-- **One call that changes both alike keeps the invariant.** -/
theorem AgreeInv.next (h : AgreeInv s) {e : VmmEvent} (hok : AgreeOk s e)
    (hnext : s.next e = some s') : AgreeInv s' := by
  cases e with
  | allocRange i minAddress size access privilege =>
    obtain ⟨vas, a, m, vas', hi, ha, hmap, rfl⟩ := Vmm.next_allocRange hnext
    have hadd := hok vas hi a (toOption_eq_some.mpr ha)
    exact h.mapPages hi minAddress.toNat_lt ha hadd (fun k hk m m' hm hb =>
      allocBody_addsPage hm ⟨i, vas, hi, rfl⟩ (hadd.page_lt hk) hb) hmap
  | mapRange i minAddress size physStart access privilege =>
    obtain ⟨vas, a, m, vas', hi, ha, hmap, rfl⟩ := Vmm.next_mapRange hnext
    have hadd := hok vas hi a (toOption_eq_some.mpr ha)
    exact h.mapPages hi minAddress.toNat_lt ha hadd (fun k hk m m' hm hb =>
      mapBody_addsPage hm ⟨i, vas, hi, rfl⟩ (hadd.page_lt hk) hb) hmap
  | copyPhysMapping i j minAddress size vasToCopyStart access privilege =>
    obtain ⟨vas, vasToCopy, a, m, vas', hi, -, ha, hmap, rfl⟩ := Vmm.next_copyPhysMapping hnext
    have hadd := hok vas hi a (toOption_eq_some.mpr ha)
    exact h.mapPages hi minAddress.toNat_lt ha hadd (fun k hk m m' hm hb =>
      copyBody_addsPage hm ⟨i, vas, hi, rfl⟩ (hadd.page_lt hk) hb) hmap
  | freeRange i regionBase size =>
    obtain ⟨vas, m, ranges, hi, hfree, hdelete, rfl⟩ := Vmm.next_freeRange hnext
    exact h.freeRange hi (hok vas hi) hfree hdelete
  | teardown i => exact hok.elim

/-- The walk finds a present entry at every level when the page maps a frame. -/
theorem translate_isSome_iff {r : Frame} {v : Nat} (hv : v < 2 ^ 47) :
    (translate m r (pageOf v)).isSome = true ↔ PageMapped m r v := by
  rw [PageMapped, ← translate_frame, Option.isSome_map,
    show pageOf v = v / 0x1000 by unfold pageOf; omega]

/-- **The range list agrees with the page tables.**  From newly made address spaces, through any
run of calls that all respect `AgreeOk`, in every state passed through and at every user address:
`vas_is_page_present` answers what the walk finds, except exactly at the end of a range that no
range covers. -/
theorem vasIsPagePresent_agrees_iff (pool : List Frame) (s₀ : Vmm) (hfresh : s₀.Fresh pool)
    (events : List VmmEvent) (hok : StepRun.Meets Vmm.next AgreeOk s₀ events) (s : Vmm)
    (hs : StepRun.Passes Vmm.next s₀ events s) (i : Nat) (vas : Vas) (hi : s.vases i = some vas)
    (v : Nat) (hv : v < 2 ^ 47) :
    (vasIsPagePresent vas v = true ↔ (translate s.mem vas.pml4 (pageOf v)).isSome = true) ↔
      ¬((∃ r ∈ vas.ranges, v = r.start + r.size) ∧ ∀ r ∈ vas.ranges, ¬r.Has v) := by
  have hstep : ∀ s e t, AgreeInv s → AgreeOk s e → s.next e = some t → AgreeInv t :=
    fun _ _ _ hinv hok hnext => hinv.next hok hnext
  have hinv := StepRun.passes_invariant hstep hfresh.agreeInv hok hs
  rw [vasIsPagePresent, rangesPresent_iff (hinv.ranges i vas hi), translate_isSome_iff hv,
    ← hinv.agree i vas hi v hv]
  have hcov : (∀ r ∈ vas.ranges, ¬r.Has v) ↔ ¬Covered vas.ranges v := by
    simp [Covered]
  rw [hcov, or_iff_left_iff_imp, not_and_not_right]

end Runs

/-! ### A page taken and returned -/

variable {t : Vmm}

theorem takePage_ranges (ht : twoVases.next takePage = some t) :
    ∃ vas, t.vases 0 = some vas ∧ vas.ranges = [⟨0x7f0000000000, 0x1000⟩] := by
  have hranges : (twoVases.next takePage).bind (fun t => (t.vases 0).map Vas.ranges) =
      some [⟨0x7f0000000000, 0x1000⟩] := by decide +kernel
  rw [ht, Option.bind_some] at hranges
  exact Option.map_eq_some_iff.mp hranges

theorem takePage_freeOk (ht : twoVases.next takePage = some t) :
    AgreeOk t (.freeRange 0 0x7f0000000000 0x1000) := by
  intro vas hvas
  have hinv := twoVases_fresh.ownInv.next takePage_ownOk ht
  have hreturn := hinv.owned.returnable (S := 0x7f0000000) (k := 1) ⟨0, vas, hvas, rfl⟩ (by decide)
    (fun j hj => by
      obtain rfl : j = 0 := by omega
      exact takePage_sole ht vas hvas)
  exact ⟨by decide, by decide, by decide, hreturn.1, hreturn.2⟩

theorem takePage_agreeOk : AgreeOk twoVases takePage := by
  intro vas hvas a ha
  cases hvas
  cases ha
  exact .inr (by decide)

/-- While the page is taken, its first address is present in both. -/
theorem vasIsPagePresent_agrees_taken :
    ∃ t vas, StepRun.run Vmm.next twoVases [takePage] = some t ∧ t.vases 0 = some vas ∧
      (vasIsPagePresent vas 0x7f0000000000 = true ↔
        (translate t.mem vas.pml4 (pageOf 0x7f0000000000)).isSome = true) := by
  have hsome : (twoVases.next takePage).isSome := by decide +kernel
  obtain ⟨t, ht⟩ := Option.isSome_iff_exists.mp hsome
  obtain ⟨vas, hvas, hranges⟩ := takePage_ranges ht
  have hrun : StepRun.run Vmm.next twoVases [takePage] = some t :=
    StepRun.run_cons_eq_some.mpr ⟨t, ht, rfl⟩
  refine ⟨t, vas, hrun, hvas, (vasIsPagePresent_agrees_iff smallPool twoVases twoVases_fresh
    [takePage, .freeRange 0 0x7f0000000000 0x1000] ⟨takePage_agreeOk, ?_⟩ t
    ⟨[takePage], by simp, hrun⟩ 0 vas hvas 0x7f0000000000 (by decide)).mpr ?_⟩
  · intro t' ht'
    exact ⟨takePage_freeOk ht', fun _ _ => trivial⟩
  · rw [hranges]
    simp

/-- The first address after the page that `vas_alloc_range` has mapped is reported as present, and
no page is mapped there. -/
theorem vasIsPagePresent_past_the_end :
    twoVases.Fresh smallPool ∧
      ∃ t vas, StepRun.run Vmm.next twoVases [takePage] = some t ∧ t.vases 0 = some vas ∧
        vasIsPagePresent vas 0x7f0000001000 = true ∧
        translate t.mem vas.pml4 (pageOf 0x7f0000001000) = none := by
  refine ⟨twoVases_fresh, ?_⟩
  have hsome : (twoVases.next takePage).isSome := by decide +kernel
  obtain ⟨t, ht⟩ := Option.isSome_iff_exists.mp hsome
  obtain ⟨vas, hvas, hranges⟩ := takePage_ranges ht
  refine ⟨t, vas, StepRun.run_cons_eq_some.mpr ⟨t, ht, rfl⟩, hvas, ?_, ?_⟩
  · rw [vasIsPagePresent, hranges]
    decide
  · have hwalk : (twoVases.next takePage).bind (fun t => (t.vases 0).map fun vas =>
        translate t.mem vas.pml4 (pageOf 0x7f0000001000)) = some none := by decide +kernel
    rw [ht, Option.bind_some, hvas] at hwalk
    exact Option.some.inj hwalk

end Axle.Kernel
