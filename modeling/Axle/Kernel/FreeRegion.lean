import Axle.Kernel.Vmm
import Mathlib.Order.Fin.Basic

/-!
# Freeing a region

`_free_region_4k_pages` computes from the size how many directories and tables it has to visit, and
asserts that they are present.  The count of tables does not know where in its first table the
region starts, and the assertion on a page table looks at the entry of the page directory that has
the index of the directory.

* `freesExactly_iff` — **PROVED**: which regions `_free_region_4k_pages` frees exactly;
* `deleteFrom_isOk_iff` — when the range list can be cut;
* `freesRange_iff` — **PROVED**: which regions `vas_free_range` frees exactly.
-/

namespace Axle.Kernel

open Axle.Lib

/-- The tree has lost the `n` pages from `S`, nothing else of it has changed, and each of their
frames is in the queue once more than before. -/
structure FreedExactly (R : Frame → Prop) (B : Nat) (m : PhysMem) (r : Frame) (S n : Nat)
    (m' : PhysMem) : Prop where
  slots : ∀ r' ℓ x, R r' → Below B ℓ x →
    slot m' r' ℓ x = if r' = r ∧ ℓ = 3 ∧ S ≤ x ∧ x < S + n then none else slot m r' ℓ x
  queue : ∀ f, m'.free.count f =
    m.free.count f + if f ∈ regionFrames m r S n then 1 else 0

/-- The regions that are freed exactly. -/
structure Freeable (m : PhysMem) (r : Frame) (S n : Nat) : Prop where
  /-- The PML4 entry is present, also for an empty region. -/
  top : (slot m r 0 (S / 512 / 512 / 512)).isSome
  /-- The loops stay in their tables. -/
  fits : RegionFits S n
  /-- The tables that the size asks for hold the whole region. -/
  reach : regionReach S n = n
  /-- In each directory, the entry that is asserted is present. -/
  asserted : ∀ j < n, (slot m r 2 (assertedTable ((S + j) / 512 / 512))).isSome
  /-- The queue has places for the frames. -/
  room : ∀ j < n, m.free.length + j < pmmCapacity
  /-- No two pages map one frame. -/
  distinct : (regionFrames m r S n).Nodup

/-! ### What a page costs -/

section Visit

variable {R : Frame → Prop} {B : Nat} {m₀ m : PhysMem} {r : Frame} {S n k : Nat}

variable {A : Fault → Prop} {base : Nat}

theorem pdptGet_holds (hbase : pageOf base = S)
    (htop : (slot m₀ r 0 (S / 512 / 512 / 512)).isSome ∨ A .panic) :
    Holds A (pdptGet m₀ r base) fun pdpt => tableAt m₀ r 1 (S / 512 / 512 / 512) = some pdpt ∧
      (slot m₀ r 0 (S / 512 / 512 / 512)).isSome := by
  have hslot : slot m₀ r 0 (S / 512 / 512 / 512) = _ := slot_of_tableAt (tableAt_zero m₀ r _)
  rw [pdptGet, vmaPml4eIdx_eq, hbase, tableIndex_mod, ok_bind, presentBase]
  by_cases hp : (m₀.tables r (idx (S / 512 / 512 / 512))).present = true
  · rw [if_pos hp]
    refine ⟨tableAt_of_present (tableAt_zero m₀ r _) hp, ?_⟩
    rw [hslot, if_pos hp]
    rfl
  · rw [if_neg hp] at hslot ⊢
    refine htop.resolve_left fun hsome => ?_
    rw [hslot] at hsome
    cases hsome

/-- **The tree, the queue, and what has been found, after `_free_region_4k_pages` (proved).** -/
theorem freeRegion4kPages_holds (hB : B ≤ 512)
    (hsep : RadixTable.Separated PageEntry.child m₀.tables (Tracked R B)) (hr : R r)
    (hS : S + n ≤ B * 512 ^ 3) (hmapped : ∀ j < n, ∃ e, slot m₀ r 3 (S + j) = some e)
    (hbase : pageOf base = S) (hfits : RegionFits S n)
    (htop : (slot m₀ r 0 (S / 512 / 512 / 512)).isSome ∨ A .panic) (hasserted : ∀ j < n,
      (slot m₀ r 2 (assertedTable ((S + j) / 512 / 512))).isSome ∨ A .panic)
    (hroom : ∀ j < n, m₀.free.length + j < pmmCapacity ∨ A .panic) :
    Holds A (freeRegion4kPages m₀ r base (0x1000 * n)) fun m =>
      (FreeState R B m₀ r S m (regionReach S n) ∧ PagesChecked m₀ r S (regionReach S n)) ∧
        (slot m₀ r 0 (S / 512 / 512 / 512)).isSome := by
  have hreach := regionReach_le S n
  refine Holds.bind (pdptGet_holds hbase htop) fun pdpt ⟨hpdpt, hsome⟩ => ?_
  refine Holds.bind (regionWalk_holds (by omega) hfits
    (freeVisitor_checked hB hsep hr (by omega) (fun j hj => hmapped j (by omega)) hpdpt 0
      (fun j hj => hasserted j (by omega)) fun j hj => hroom j (by omega))
    (pagesIn_mul n) (fun _ => hbase) ⟨FreeState.refl m₀, PagesChecked.zero⟩) fun c hc => ?_
  exact ⟨hc, hsome⟩

end Visit

/-! ### `_free_region_4k_pages` -/

/-- The call returns, and the region has been freed exactly. -/
def FreesExactly (R : Frame → Prop) (B : Nat) (m : PhysMem) (r : Frame) (base n : Nat) : Prop :=
  ∃ m', freeRegion4kPages m r base (0x1000 * n) = .ok m' ∧
    FreedExactly R B m r (pageOf base) n m'

section Free

variable {R : Frame → Prop} {B : Nat} {m m' : PhysMem} {r : Frame} {S n : Nat}

theorem FreeState.freedExactly (h : FreeState R B m r S m' n)
    (hdistinct : (regionFrames m r S n).Nodup) : FreedExactly R B m r S n m' where
  slots r' ℓ x hr' hx := by
    by_cases hat : r' = r ∧ ℓ = 3 ∧ S ≤ x ∧ x < S + n
    · obtain ⟨rfl, rfl, hlow, hhigh⟩ := hat
      have hcleared := h.cleared (x - S) (by omega) (by rw [Nat.add_sub_cancel' hlow]; exact hx)
      rw [Nat.add_sub_cancel' hlow] at hcleared
      rw [if_pos ⟨rfl, rfl, hlow, hhigh⟩, hcleared]
    · rw [if_neg hat, h.kept r' ℓ x hr' hx hat]
  queue f := by rw [h.free, List.count_append, hdistinct.count]

theorem FreedExactly.distinct (h : FreedExactly R B m r S n m')
    (hfree : m'.free = m.free ++ regionFrames m r S n) : (regionFrames m r S n).Nodup := by
  rw [List.nodup_iff_count_le_one]
  intro f
  have hcount := h.queue f
  rw [hfree, List.count_append] at hcount
  split at hcount <;> omega

/-- **Which regions are freed exactly (proved).** -/
theorem freesExactly_iff_freeable (hB : B ≤ 512)
    (hsep : RadixTable.Separated PageEntry.child m.tables (Tracked R B)) (hr : R r) {base : Nat}
    (hS : pageOf base + n ≤ B * 512 ^ 3)
    (hmapped : ∀ j < n, ∃ e, slot m r 3 (pageOf base + j) = some e) :
    FreesExactly R B m r base n ↔ Freeable m r (pageOf base) n := by
  have hreach := regionReach_le (pageOf base) n
  constructor
  · rintro ⟨m', hok, hexact⟩
    have hfits : RegionFits (pageOf base) n := by
      obtain ⟨pdpt, -, hrest⟩ := bind_eq_ok.mp hok
      obtain ⟨c, hc, -⟩ := bind_eq_ok.mp hrest
      exact regionWalk_fits (by omega) (pagesIn_mul n) hc
    have hholds := freeRegion4kPages_holds (A := (· = .panic)) hB hsep hr hS hmapped rfl hfits
      (Or.inr rfl) (fun _ _ => Or.inr rfl) fun _ _ => Or.inr rfl
    obtain ⟨⟨hm, hchecked⟩, htop⟩ := hholds.of_ok hok
    -- a page that the walk does not reach stays mapped
    have hall : regionReach (pageOf base) n = n := by
      by_contra hne
      obtain ⟨e, he⟩ := hmapped (regionReach (pageOf base) n) (by omega)
      have hbelow := (below_of_lt (B := B)
        (P := pageOf base + regionReach (pageOf base) n) (by omega)).1
      have hgone := hexact.slots r 3 (pageOf base + regionReach (pageOf base) n) hr hbelow
      rw [if_pos ⟨rfl, rfl, by omega, by omega⟩, hm.kept r 3 _ hr hbelow fun hc => by omega,
        he] at hgone
      cases hgone
    rw [hall] at hm hchecked
    exact ⟨htop, hfits, hall, hchecked.asserted, hchecked.room, hexact.distinct hm.free⟩
  · intro hfree
    have hholds := freeRegion4kPages_holds (A := fun _ => False) hB hsep hr hS hmapped rfl
      hfree.fits (Or.inl hfree.top) (fun j hj => Or.inl (hfree.asserted j hj))
      fun j hj => Or.inl (hfree.room j hj)
    unfold FreesExactly
    cases hres : freeRegion4kPages m r base (0x1000 * n) with
    | error e =>
      rw [hres] at hholds
      exact hholds.elim
    | ok m' =>
      obtain ⟨⟨hm, -⟩, -⟩ := hholds.of_ok hres
      rw [hfree.reach] at hm
      exact ⟨m', rfl, hm.freedExactly hfree.distinct⟩

end Free

/-! ### `vas_free_range` -/

/-- The range is the region, or holds it. -/
def VasRange.matchesRegion (regionBase size : Nat) (r : VasRange) : Bool :=
  (r.start = regionBase && r.size = size) ||
    (r.start ≤ regionBase && (regionBase + size) % 2 ^ 64 ≤ r.stop)

/-- What is left of the range behind the region. -/
def VasRange.rightEndSize (regionBase size : Nat) (r : VasRange) : Nat :=
  (r.size + 2 ^ 64 + 2 ^ 64 - (regionBase - r.start) - size) % 2 ^ 64

/-- The list has a range for the region; and if more of the first such range is behind the region,
the array has room for two more. -/
def Deletable (maxRangeCount : Nat) (ranges : List VasRange) (regionBase size : Nat) : Prop :=
  ∃ r, ranges.find? (VasRange.matchesRegion regionBase size) = some r ∧
    ((r.start = regionBase ∧ r.size = size) ∨ r.rightEndSize regionBase size = 0 ∨
      ranges.length + 2 ≤ maxRangeCount)

theorem deleteFrom_isOk_iff {room : Bool} {regionBase size : Nat} :
    ∀ {ranges : List VasRange}, (∃ l, deleteFrom room regionBase size ranges = .ok l) ↔
      ∃ r, ranges.find? (VasRange.matchesRegion regionBase size) = some r ∧
        ((r.start = regionBase ∧ r.size = size) ∨ r.rightEndSize regionBase size = 0 ∨
          room = true) := by
  intro ranges
  induction ranges with
  | nil =>
    refine iff_of_false ?_ ?_
    · rintro ⟨l, hl⟩
      cases hl
    · rintro ⟨r, hr, -⟩
      cases hr
  | cons range1 rest ih =>
    rw [deleteFrom]
    by_cases hwhole : range1.start = regionBase ∧ range1.size = size
    · have hmatch : range1.matchesRegion regionBase size = true := by
        simp only [VasRange.matchesRegion, hwhole.1, hwhole.2, decide_true, Bool.and_self,
          Bool.true_or]
      rw [if_pos hwhole, List.find?_cons_of_pos hmatch]
      exact ⟨fun _ => ⟨range1, rfl, Or.inl hwhole⟩, fun _ => ⟨rest, rfl⟩⟩
    by_cases hholds : range1.start ≤ regionBase ∧ (regionBase + size) % 2 ^ 64 ≤ range1.stop
    · have hmatch : range1.matchesRegion regionBase size = true := by
        simp only [VasRange.matchesRegion, hholds.1, hholds.2, decide_true, Bool.and_self,
          Bool.or_true]
      rw [if_neg hwhole, if_pos hholds, List.find?_cons_of_pos hmatch]
      simp only [Option.some.injEq, exists_eq_left', or_iff_right hwhole]
      show (∃ l, (if 0 < range1.rightEndSize regionBase size then _ else _) = Except.ok l) ↔ _
      by_cases hright : 0 < range1.rightEndSize regionBase size
      · rw [if_pos hright, or_iff_right (Nat.pos_iff_ne_zero.mp hright)]
        cases room with
        | true => exact ⟨fun _ => rfl, fun _ => ⟨_, rfl⟩⟩
        | false =>
          refine iff_of_false ?_ Bool.false_ne_true
          rintro ⟨l, hl⟩
          cases hl
      · rw [if_neg hright]
        exact ⟨fun _ => Or.inl (Nat.eq_zero_of_not_pos hright), fun _ => ⟨_, rfl⟩⟩
    · have hmatch : ¬range1.matchesRegion regionBase size = true := by
        simpa only [VasRange.matchesRegion, Bool.or_eq_true, Bool.and_eq_true, decide_eq_true_eq,
          not_or] using ⟨hwhole, hholds⟩
      rw [if_neg hwhole, if_neg hholds, List.find?_cons_of_neg hmatch, ← ih]
      cases deleteFrom room regionBase size rest with
      | ok l => exact ⟨fun _ => ⟨l, rfl⟩, fun _ => ⟨_, rfl⟩⟩
      | error e =>
        refine iff_of_false ?_ ?_
        · rintro ⟨l, hl⟩
          cases hl
        · rintro ⟨l, hl⟩
          cases hl

/-- The call returns, and the region has been freed exactly. -/
def FreesRange (R : Frame → Prop) (B : Nat) (m : PhysMem) (vas : Vas) (base n : Nat) : Prop :=
  ∃ m' vas', vasFreeRange m vas base (0x1000 * n) = .ok (m', vas') ∧
    FreedExactly R B m vas.pml4 (pageOf base) n m'

theorem freesRange_iff_freesExactly {R : Frame → Prop} {B : Nat} {m : PhysMem} {vas : Vas}
    {base n : Nat} : FreesRange R B m vas base n ↔ FreesExactly R B m vas.pml4 base n ∧
      Deletable vas.maxRangeCount vas.ranges base (0x1000 * n) := by
  have hdelete := @deleteFrom_isOk_iff (vas.ranges.length + 2 ≤ vas.maxRangeCount) base (0x1000 * n)
    vas.ranges
  rw [decide_eq_true_eq] at hdelete
  constructor
  · rintro ⟨m', vas', hok, hexact⟩
    obtain ⟨m₁, hfree, hrest⟩ := bind_eq_ok.mp hok
    obtain ⟨ranges, hranges, hlast⟩ := bind_eq_ok.mp hrest
    cases hlast
    exact ⟨⟨m', hfree, hexact⟩, hdelete.mp ⟨ranges, hranges⟩⟩
  · rintro ⟨⟨m', hfree, hexact⟩, hdeletable⟩
    obtain ⟨ranges, hranges⟩ := hdelete.mpr hdeletable
    refine ⟨m', { vas with ranges }, ?_, hexact⟩
    rw [vasFreeRange, hfree, ok_bind, vasDeleteRange, hranges]
    rfl

/-- **Which regions the two calls free exactly (proved).** -/
theorem freesExactly_iff {R : Frame → Prop} {B : Nat} {m : PhysMem} {vas : Vas} {base n : Nat}
    (hB : B ≤ 512) (hsep : RadixTable.Separated PageEntry.child m.tables (Tracked R B))
    (hr : R vas.pml4) (hS : pageOf base + n ≤ B * 512 ^ 3)
    (hmapped : ∀ j < n, ∃ e, slot m vas.pml4 3 (pageOf base + j) = some e) :
    (FreesExactly R B m vas.pml4 base n ↔ Freeable m vas.pml4 (pageOf base) n) ∧
      (FreesRange R B m vas base n ↔ Freeable m vas.pml4 (pageOf base) n ∧
        Deletable vas.maxRangeCount vas.ranges base (0x1000 * n)) := by
  have hiff := freesExactly_iff_freeable hB hsep hr hS hmapped
  exact ⟨hiff, by rw [freesRange_iff_freesExactly, hiff]⟩

/-! ### Two trees -/

/-- The page of `treeWithUserPage`, in a range of its own. -/
def onePageVas : Vas := ⟨emptyTreeRoot, 255, [⟨0x1000, 0x1000⟩]⟩

theorem freesExactly_onePage :
    FreesRange (· = emptyTreeRoot) 512 treeWithUserPage onePageVas 0x1000 1 := by
  refine (freesExactly_iff (le_refl 512) treeWithUserPage_wf.separated rfl (by decide) ?_).2.mpr
    ⟨⟨by decide +kernel, by decide, by decide, ?_, ?_, by decide +kernel⟩, ⟨0x1000, 0x1000⟩,
      by decide, Or.inl ⟨rfl, rfl⟩⟩
  · intro j hj
    obtain rfl : j = 0 := by omega
    exact ⟨requestedEntry 0x5000 .readWrite .user, by decide +kernel⟩
  · intro j hj
    obtain rfl : j = 0 := by omega
    decide +kernel
  · intro j hj
    obtain rfl : j = 0 := by omega
    decide +kernel

/-- `emptyTree` with one page, and then another one. -/
def twoPages (first second : Nat) : PhysMem :=
  ((mapRegion4kPages emptyTree emptyTreeRoot first 0x1000 0x5000 .readWrite .user).bind fun m =>
    mapRegion4kPages m emptyTreeRoot second 0x1000 0x6000 .readWrite .user).toOption.getD emptyTree

theorem twoPages_separated {first second : Nat} (hfirst : pageOf first < 512 * 512 ^ 3)
    (hsecond : pageOf second < 512 * 512 ^ 3) :
    RadixTable.Separated PageEntry.child (twoPages first second).tables
      (Tracked (· = emptyTreeRoot) 512) := by
  unfold twoPages
  cases h : mapRegion4kPages emptyTree emptyTreeRoot first 0x1000 0x5000 .readWrite .user with
  | error e => exact emptyTree_wf.separated
  | ok m =>
    have hwf := (mapRegion4kPages_page (le_refl 512) emptyTree_wf rfl hfirst h).wf
    show RadixTable.Separated _ ((mapRegion4kPages m _ _ _ _ _ _).toOption.getD emptyTree).tables _
    cases h' : mapRegion4kPages m emptyTreeRoot second 0x1000 0x6000 .readWrite .user with
    | error e => exact emptyTree_wf.separated
    | ok m' => exact (mapRegion4kPages_page (le_refl 512) hwf rfl hsecond h').wf.separated

/-- Two pages on both sides of the border between two page tables: the call returns, and the
second one is still present.  In the second directory the assertion fails. -/
theorem freeRegion4kPages_straddling :
    RadixTable.Separated PageEntry.child (twoPages 0x1ff000 0x200000).tables
        (Tracked (· = emptyTreeRoot) 512) ∧
      (∀ j < 2, (slot (twoPages 0x1ff000 0x200000) emptyTreeRoot 3 (511 + j)).isSome) ∧
      (freeRegion4kPages (twoPages 0x1ff000 0x200000) emptyTreeRoot 0x1ff000 0x2000).toOption.map
        (fun m => (slot m emptyTreeRoot 3 512).isSome) = some true ∧
      ¬FreesExactly (· = emptyTreeRoot) 512 (twoPages 0x1ff000 0x200000) emptyTreeRoot 0x1ff000 2 ∧
      (slot (twoPages 0x40000000 0x40000000) emptyTreeRoot 3 (512 * 512)).isSome ∧
      freeRegion4kPages (twoPages 0x40000000 0x40000000) emptyTreeRoot 0x40000000 0x1000 =
        .error .panic := by
  have hleft : (freeRegion4kPages (twoPages 0x1ff000 0x200000) emptyTreeRoot 0x1ff000
      0x2000).toOption.map (fun m => (slot m emptyTreeRoot 3 512).isSome) = some true := by
    decide +kernel
  refine ⟨twoPages_separated (by decide) (by decide), by decide +kernel, hleft, ?_,
    by decide +kernel, rfl⟩
  rintro ⟨m', hok, hexact⟩
  have hgone := hexact.slots emptyTreeRoot 3 512 rfl ⟨by decide, by decide⟩
  rw [show (0x2000 : Nat) = 0x1000 * 2 from rfl, hok] at hleft
  have hleft' : (slot m' emptyTreeRoot 3 512).isSome = true := Option.some.inj hleft
  rw [hgone] at hleft'
  cases hleft'

end Axle.Kernel
