import Axle.Lib.PairLoop
import Axle.Kernel.PageTables

/-!
# The range list of an address space

`vas_state_t` keeps the allocated regions of an address space as an array of `(start, size)`
pairs, sorted and merged on insertion.  All sums are `uint64_t` sums.

* `RangesOk` — the ranges are disjoint and end inside the user half (an empty one may lie
  anywhere);
* `vasAddRange_ok` — **PROVED**: inserting a disjoint region adds it to what is covered;
* `vasDeleteRange_ok` — **PROVED**: deleting a region takes it away from what is covered;
* `selectVirtualAddress_disjoint` — **PROVED**: a selected region meets no range.
-/

namespace Axle.Kernel

open Axle.Lib

/-- `vas_range_t`. -/
structure VasRange where
  start : Nat
  size : Nat
deriving DecidableEq, Repr

/-- `start + size`. -/
def VasRange.stop (r : VasRange) : Nat := (r.start + r.size) % 2 ^ 64

/-- The first loop of `vas_add_range`. -/
def sortRanges (ranges : List VasRange) : List VasRange :=
  PairLoop.exchangeSort VasRange.start ranges

/-- The right range of a pair is added to the left one and removed. -/
def mergePair (s : PairLoop.PairSplit VasRange) : List VasRange :=
  s.before ++ { s.fst with size := (s.fst.size + s.snd.size) % 2 ^ 64 } :: (s.between ++ s.after)

/-- The second loop of `vas_add_range`: merge a range with a later one that starts where it
ends. -/
def mergeRanges (ranges : List VasRange) : List VasRange :=
  PairLoop.repeatPair (fun a b => a.stop == b.start) mergePair ranges.length ranges

/-- `vas_add_range`. -/
def vasAddRange (maxRangeCount : Nat) (ranges : List VasRange) (start size : Nat) :
    Except Fault (List VasRange) :=
  if ranges.length + 1 ≤ maxRangeCount then
    .ok (mergeRanges (sortRanges (ranges ++ [⟨start, size⟩])))
  else .error .panic

/-- The loop of `vas_delete_range` over the ranges from some position on; `room` says whether the
shift to the right stays inside the array, which the code does not check. -/
def deleteFrom (room : Bool) (regionBase size : Nat) : List VasRange → Except Fault (List VasRange)
  | [] => .error .panic
  | range1 :: rest =>
    if range1.start = regionBase ∧ range1.size = size then .ok rest
    else if range1.start ≤ regionBase ∧ (regionBase + size) % 2 ^ 64 ≤ range1.stop then
      let leftSize := regionBase - range1.start
      let rightEndSize := (range1.size + 2 ^ 64 + 2 ^ 64 - leftSize - size) % 2 ^ 64
      if 0 < rightEndSize then
        if room then
          .ok ({ range1 with size := leftSize } ::
            { start := (regionBase + size) % 2 ^ 64, size := rightEndSize } :: rest)
        else .error .outOfBounds
      else .ok ({ range1 with size := leftSize } :: rest)
    else (deleteFrom room regionBase size rest).map fun l => range1 :: l

/-- `vas_delete_range`.  Making room copies `ranges[range_count]` to `ranges[range_count + 1]`. -/
def vasDeleteRange (maxRangeCount : Nat) (ranges : List VasRange) (regionBase size : Nat) :
    Except Fault (List VasRange) :=
  deleteFrom (ranges.length + 2 ≤ maxRangeCount) regionBase size ranges

/-- The test in the loop of `_select_virtual_address`. -/
def VasRange.collides (r : VasRange) (chosenStart size : Nat) : Bool :=
  r.start ≤ (chosenStart + size) % 2 ^ 64 && chosenStart < r.stop

/-- One pass over the ranges: `chosen_start` and `collision`. -/
def selectPass (size : Nat) (ranges : List VasRange) (chosenStart : Nat) : Nat × Bool :=
  ranges.foldl
    (fun c r => if r.collides c.1 size then (r.stop, true) else c) (chosenStart, false)

/-- At most `n` passes. -/
def selectLoop (size : Nat) (ranges : List VasRange) : Nat → Nat → Except Fault Nat
  | 0, _ => .error .hang
  | n + 1, chosenStart =>
    let c := selectPass size ranges chosenStart
    if c.2 then selectLoop size ranges n c.1 else .ok c.1

/-- `_select_virtual_address`.  After a pass with a collision `chosen_start` is the end of a range,
so a loop that has not ended after one pass more than there are ranges has come back to a start
it had before and never ends. -/
def selectVirtualAddress (ranges : List VasRange) (minAddress size : Nat) : Except Fault Nat :=
  selectLoop size ranges (ranges.length + 1) minAddress

/-- The loop of `vas_is_page_present`. -/
def rangesPresent (ranges : List VasRange) (virtAddr : Nat) : Bool :=
  ranges.any fun r => r.start ≤ virtAddr && virtAddr ≤ r.stop

/-! ### What a list of ranges covers -/

/-- The address lies in the range. -/
def VasRange.Has (r : VasRange) (v : Nat) : Prop := r.start ≤ v ∧ v < r.start + r.size

def Covered (ranges : List VasRange) (v : Nat) : Prop := ∃ r ∈ ranges, r.Has v

/-- No address lies in both ranges. -/
def VasRange.Apart (a b : VasRange) : Prop := ∀ v, ¬(a.Has v ∧ b.Has v)

/-- The range is empty or ends inside the user half. -/
def VasRange.InUserHalf (r : VasRange) : Prop :=
  r.start < 2 ^ 64 ∧ (r.size = 0 ∨ r.start + r.size ≤ 2 ^ 47)

structure RangesOk (ranges : List VasRange) : Prop where
  user : ∀ r ∈ ranges, r.InUserHalf
  apart : ranges.Pairwise VasRange.Apart

variable {a b r : VasRange} {l l' ranges : List VasRange} {regionBase size : Nat} {P : Nat → Prop}

theorem VasRange.Apart.symm (h : a.Apart b) : b.Apart a :=
  fun v hv => h v ⟨hv.2, hv.1⟩

theorem VasRange.InUserHalf.stop_eq (h : r.InUserHalf) : r.stop = r.start + r.size := by
  obtain ⟨hlt, h0 | hle⟩ := h
  · rw [VasRange.stop, h0]
    omega
  · rw [VasRange.stop]
    omega

theorem covered_cons {v : Nat} : Covered (r :: l) v ↔ r.Has v ∨ Covered l v := by
  simp [Covered]

theorem covered_perm (h : l.Perm l') (v : Nat) : Covered l v ↔ Covered l' v := by
  simp only [Covered, h.mem_iff]

theorem RangesOk.perm (h : RangesOk l) (hp : l.Perm l') : RangesOk l' where
  user := fun r hr => h.user r (hp.mem_iff.mpr hr)
  apart := (hp.pairwise_iff fun hab => VasRange.Apart.symm hab).mp h.apart

theorem rangesOk_cons : RangesOk (r :: l) ↔ r.InUserHalf ∧ (∀ s ∈ l, r.Apart s) ∧ RangesOk l := by
  constructor
  · rintro ⟨huser, hapart⟩
    rw [List.pairwise_cons] at hapart
    exact ⟨huser r List.mem_cons_self, hapart.1,
      fun s hs => huser s (List.mem_cons_of_mem r hs), hapart.2⟩
  · rintro ⟨hr, happ, hl⟩
    refine ⟨?_, List.pairwise_cons.mpr ⟨happ, hl.apart⟩⟩
    intro s hs
    rcases List.mem_cons.mp hs with rfl | hs
    · exact hr
    · exact hl.user s hs

theorem rangesOk_nil : RangesOk [] := ⟨by simp, List.Pairwise.nil⟩

/-! ### Insertion -/

theorem PairSplit_join_perm (s : PairLoop.PairSplit VasRange) :
    s.join.Perm (s.fst :: s.snd :: (s.before ++ (s.between ++ s.after))) := by
  refine List.perm_middle.trans (List.Perm.cons s.fst ?_)
  rw [← List.append_assoc, ← List.append_assoc]
  exact List.perm_middle

theorem mergePair_perm (s : PairLoop.PairSplit VasRange) :
    (mergePair s).Perm ({ s.fst with size := (s.fst.size + s.snd.size) % 2 ^ 64 } ::
      (s.before ++ (s.between ++ s.after))) := List.perm_middle

theorem merged_has (ha : a.InUserHalf) (hb : b.InUserHalf) (h : a.stop = b.start) :
    VasRange.InUserHalf { a with size := (a.size + b.size) % 2 ^ 64 } ∧
      ∀ v, VasRange.Has { a with size := (a.size + b.size) % 2 ^ 64 } v ↔ a.Has v ∨ b.Has v := by
  rw [ha.stop_eq] at h
  obtain ⟨ha₁, ha₂⟩ := ha
  obtain ⟨hb₁, hb₂⟩ := hb
  have hsum : (a.size + b.size) % 2 ^ 64 = a.size + b.size := by omega
  rw [hsum]
  refine ⟨⟨ha₁, ?_⟩, ?_⟩
  · show a.size + b.size = 0 ∨ a.start + (a.size + b.size) ≤ 2 ^ 47
    omega
  · simp only [VasRange.Has]
    omega

theorem mergeRanges_ok (hl : RangesOk l) :
    RangesOk (mergeRanges l) ∧ ∀ v, Covered (mergeRanges l) v ↔ Covered l v := by
  apply PairLoop.repeatPair_invariant fun l' => RangesOk l' ∧ ∀ v, Covered l' v ↔ Covered l v
  · intro s hp ⟨hok, hcov⟩
    have hok' := hok.perm (PairSplit_join_perm s)
    rw [rangesOk_cons, rangesOk_cons] at hok'
    obtain ⟨ha, hapart, hb, hbpart, hrest⟩ := hok'
    obtain ⟨hmerged, hhas⟩ := merged_has ha hb (beq_iff_eq.mp hp)
    refine ⟨RangesOk.perm (rangesOk_cons.mpr ⟨hmerged, ?_, hrest⟩) (mergePair_perm s).symm, ?_⟩
    · intro r hr v hv
      rcases (hhas v).mp hv.1 with hva | hvb
      · exact hapart r (List.mem_cons_of_mem s.snd hr) v ⟨hva, hv.2⟩
      · exact hbpart r hr v ⟨hvb, hv.2⟩
    · intro v
      rw [← hcov v, covered_perm (mergePair_perm s), covered_perm (PairSplit_join_perm s),
        covered_cons, covered_cons, covered_cons, hhas v, or_assoc]
  · exact ⟨hl, fun v => Iff.rfl⟩

/-- **Inserting a disjoint region.** -/
theorem vasAddRange_ok {maxRangeCount start size : Nat} {ranges ranges' : List VasRange}
    (hok : RangesOk ranges) (hnew : VasRange.InUserHalf ⟨start, size⟩)
    (hapart : ∀ r ∈ ranges, VasRange.Apart ⟨start, size⟩ r)
    (h : vasAddRange maxRangeCount ranges start size = .ok ranges') :
    RangesOk ranges' ∧
      ∀ v, Covered ranges' v ↔ Covered ranges v ∨ (start ≤ v ∧ v < start + size) := by
  rw [vasAddRange] at h
  split at h
  · cases h
    have hperm : (sortRanges (ranges ++ [⟨start, size⟩])).Perm (⟨start, size⟩ :: ranges) :=
      (PairLoop.exchangeSort_perm VasRange.start _).trans (List.perm_append_singleton _ _)
    have hsorted := RangesOk.perm (rangesOk_cons.mpr ⟨hnew, hapart, hok⟩) hperm.symm
    obtain ⟨hok', hcov⟩ := mergeRanges_ok hsorted
    refine ⟨hok', fun v => ?_⟩
    rw [hcov v, covered_perm hperm, covered_cons, or_comm]
    rfl
  · cases h

/-- What is left of a range when a region inside it goes: a piece on each side. -/
theorem split_ok {rest : List VasRange} (hok : RangesOk (r :: rest)) (hlow : r.start ≤ regionBase)
    (hhigh : regionBase + size ≤ r.start + r.size) (hsome : r.size ≠ 0) :
    RangesOk ({ r with size := regionBase - r.start } ::
        ⟨regionBase + size, r.start + r.size - (regionBase + size)⟩ :: rest) ∧
      ∀ v, Covered ({ r with size := regionBase - r.start } ::
          ⟨regionBase + size, r.start + r.size - (regionBase + size)⟩ :: rest) v ↔
        Covered (r :: rest) v ∧ ¬(regionBase ≤ v ∧ v < regionBase + size) := by
  obtain ⟨⟨hstart, hsize⟩, hapart, hrest⟩ := rangesOk_cons.mp hok
  have hleft : ∀ v, VasRange.Has { r with size := regionBase - r.start } v ↔
      r.Has v ∧ v < regionBase := by
    simp only [VasRange.Has]
    omega
  have hright : ∀ v, VasRange.Has ⟨regionBase + size, r.start + r.size - (regionBase + size)⟩ v ↔
      r.Has v ∧ regionBase + size ≤ v := by
    simp only [VasRange.Has]
    omega
  have hregion : ∀ v, regionBase ≤ v ∧ v < regionBase + size → r.Has v := by
    simp only [VasRange.Has]
    omega
  refine ⟨rangesOk_cons.mpr ⟨⟨hstart, .inr ?_⟩, ?_, rangesOk_cons.mpr
    ⟨⟨?_, .inr ?_⟩, ?_, hrest⟩⟩, ?_⟩
  · show r.start + (regionBase - r.start) ≤ 2 ^ 47
    omega
  · intro s hs v hv
    have hvl := (hleft v).mp hv.1
    rcases List.mem_cons.mp hs with rfl | hs
    · have hvr := (hright v).mp hv.2
      omega
    · exact hapart s hs v ⟨hvl.1, hv.2⟩
  · show regionBase + size < 2 ^ 64
    omega
  · show regionBase + size + (r.start + r.size - (regionBase + size)) ≤ 2 ^ 47
    omega
  · exact fun s hs v hv => hapart s hs v ⟨((hright v).mp hv.1).1, hv.2⟩
  · intro v
    rw [covered_cons, covered_cons, covered_cons, hleft v, hright v]
    constructor
    · rintro (⟨hv, hlt⟩ | ⟨hv, hle⟩ | ⟨s, hs, hv⟩)
      · exact ⟨.inl hv, by omega⟩
      · exact ⟨.inl hv, by omega⟩
      · exact ⟨.inr ⟨s, hs, hv⟩, fun hreg => hapart s hs v ⟨hregion v hreg, hv⟩⟩
    · rintro ⟨hv | hv, hnot⟩
      · by_cases hlt : v < regionBase
        · exact .inl ⟨hv, hlt⟩
        · exact .inr (.inl ⟨hv, by omega⟩)
      · exact .inr (.inr hv)

/-- **Deleting a region** that does not wrap around: it lay inside one range, and what is covered
afterwards is what was covered without it. -/
theorem deleteFrom_ok {room : Bool} (hbase : regionBase < 2 ^ 64)
    (hregion : size = 0 ∨ regionBase + size ≤ 2 ^ 47) :
    ∀ {ranges ranges' : List VasRange}, RangesOk ranges →
      deleteFrom room regionBase size ranges = .ok ranges' →
      (∃ r ∈ ranges, ∀ v, regionBase ≤ v → v < regionBase + size → r.Has v) ∧
      RangesOk ranges' ∧
      ∀ v, Covered ranges' v ↔ Covered ranges v ∧ ¬(regionBase ≤ v ∧ v < regionBase + size) := by
  intro ranges
  induction ranges with
  | nil =>
    intro ranges' _ h
    cases h
  | cons r rest ih =>
    intro ranges' hok h
    obtain ⟨huser, hapart, hrest⟩ := rangesOk_cons.mp hok
    have hstop := huser.stop_eq
    obtain ⟨hr₁, hr₂⟩ := huser
    have hoff : ∀ v, Covered rest v → ¬r.Has v := by
      rintro v ⟨s, hs, hv⟩ hrv
      exact hapart s hs v ⟨hrv, hv⟩
    rw [deleteFrom] at h
    split at h
    case isTrue hexact =>
      -- the whole range goes
      cases h
      have hhas : ∀ v, r.Has v ↔ regionBase ≤ v ∧ v < regionBase + size := by
        intro v
        rw [VasRange.Has, hexact.1, hexact.2]
      refine ⟨⟨r, List.mem_cons_self, fun v h₁ h₂ => (hhas v).mpr ⟨h₁, h₂⟩⟩, hrest, ?_⟩
      intro v
      rw [covered_cons, ← hhas v]
      exact ⟨fun hv => ⟨.inr hv, hoff v hv⟩, fun hv => hv.1.resolve_left hv.2⟩
    case isFalse hexact =>
      split at h
      case isTrue hinside =>
        rw [hstop] at hinside
        have hend : (regionBase + size) % 2 ^ 64 = regionBase + size := by omega
        have hright : (r.size + 2 ^ 64 + 2 ^ 64 - (regionBase - r.start) - size) % 2 ^ 64 =
            r.start + r.size - (regionBase + size) := by omega
        rw [hend] at hinside
        simp only [hend, hright] at h
        have hsome : r.size ≠ 0 := fun h0 => hexact (by omega)
        obtain ⟨hpieces, hcov⟩ := split_ok hok hinside.1 hinside.2 hsome
        refine ⟨⟨r, List.mem_cons_self, fun v h₁ h₂ => ⟨by omega, by omega⟩⟩, ?_⟩
        split at h
        case isTrue hpos =>
          cases room with
          | false => cases h
          | true =>
            cases h
            exact ⟨hpieces, hcov⟩
        case isFalse hpos =>
          -- the right piece is empty and is not stored
          cases h
          obtain ⟨hleft, hleftApart, hrest'⟩ := rangesOk_cons.mp hpieces
          refine ⟨rangesOk_cons.mpr ⟨hleft, fun s hs => hleftApart s (List.mem_cons_of_mem _ hs),
            hrest⟩, fun v => ?_⟩
          have hempty : ¬VasRange.Has
              ⟨regionBase + size, r.start + r.size - (regionBase + size)⟩ v := by
            simp only [VasRange.Has]
            omega
          have hv := hcov v
          rw [covered_cons, covered_cons, or_iff_right hempty, ← covered_cons] at hv
          exact hv
      case isFalse hinside =>
        obtain ⟨l, hl, hl'⟩ : ∃ l, deleteFrom room regionBase size rest = .ok l ∧
            ranges' = r :: l := by
          cases hd : deleteFrom room regionBase size rest with
          | error e =>
            rw [hd] at h
            cases h
          | ok l =>
            rw [hd] at h
            cases h
            exact ⟨l, rfl, rfl⟩
        subst hl'
        obtain ⟨⟨s, hs, hin⟩, hokl, hcov⟩ := ih hrest hl
        have hnot : ∀ v, r.Has v → ¬(regionBase ≤ v ∧ v < regionBase + size) :=
          fun v hrv hv => hapart s hs v ⟨hrv, hin v hv.1 hv.2⟩
        refine ⟨⟨s, List.mem_cons_of_mem r hs, hin⟩, rangesOk_cons.mpr ⟨⟨hr₁, hr₂⟩, ?_, hokl⟩, ?_⟩
        · intro u hu v hv
          obtain ⟨u', hu', hv'⟩ := ((hcov v).mp ⟨u, hu, hv.2⟩).1
          exact hapart u' hu' v ⟨hv.1, hv'⟩
        · intro v
          rw [covered_cons, covered_cons, hcov v]
          constructor
          · rintro (hv | hv)
            · exact ⟨.inl hv, hnot v hv⟩
            · exact ⟨.inr hv.1, hv.2⟩
          · rintro ⟨hv | hv, hout⟩
            · exact .inl hv
            · exact .inr ⟨hv, hout⟩

/-! ### Selection and the presence test -/

theorem selectPass_of_collision (size : Nat) :
    ∀ (ranges : List VasRange) (c : Nat × Bool), c.2 = true →
      (ranges.foldl (fun c r => if r.collides c.1 size then (r.stop, true) else c) c).2 = true := by
  intro ranges
  induction ranges with
  | nil => exact fun c hc => hc
  | cons r ranges ih =>
    intro c hc
    rw [List.foldl_cons]
    apply ih
    split
    · rfl
    · exact hc

/-- A pass without collision leaves the start alone and meets no range. -/
theorem selectPass_free :
    ∀ {ranges : List VasRange} {chosenStart : Nat}, (selectPass size ranges chosenStart).2 = false →
      (selectPass size ranges chosenStart).1 = chosenStart ∧
        ∀ r ∈ ranges, r.collides chosenStart size = false := by
  intro ranges
  induction ranges with
  | nil => exact fun _ => ⟨rfl, by simp⟩
  | cons r ranges ih =>
    intro chosenStart h
    unfold selectPass at h ⊢
    rw [List.foldl_cons] at h ⊢
    by_cases hr : r.collides chosenStart size = true
    · rw [if_pos hr, selectPass_of_collision size ranges _ rfl] at h
      cases h
    · rw [if_neg hr] at h ⊢
      obtain ⟨heq, hfree⟩ := ih h
      refine ⟨heq, fun s hs => ?_⟩
      rcases List.mem_cons.mp hs with rfl | hs
      · exact Bool.eq_false_iff.mpr hr
      · exact hfree s hs

theorem selectLoop_free :
    ∀ {n chosenStart a : Nat}, selectLoop size ranges n chosenStart = .ok a →
      ∀ r ∈ ranges, r.collides a size = false := by
  intro n
  induction n with
  | zero =>
    intro chosenStart a h
    cases h
  | succ n ih =>
    intro chosenStart a h
    rw [selectLoop] at h
    split at h
    · exact ih h
    · rename_i hc
      cases h
      obtain ⟨heq, hfree⟩ := selectPass_free (Bool.eq_false_iff.mpr hc)
      rw [heq]
      exact hfree

/-- What is kept by moving the start behind a range that collides holds of the selected start. -/
theorem selectPass_invariant (hP : ∀ c, P c → ∀ r ∈ ranges, r.collides c size = true → P r.stop)
    {chosenStart : Nat} (h : P chosenStart) : P (selectPass size ranges chosenStart).1 := by
  refine List.foldlRecOn (motive := fun c : Nat × Bool => P c.1) ranges _ h ?_
  intro c hc r hr
  split
  · exact hP c.1 hc r hr ‹_›
  · exact hc

theorem selectLoop_invariant (hP : ∀ c, P c → ∀ r ∈ ranges, r.collides c size = true → P r.stop) :
    ∀ {n chosenStart a : Nat}, P chosenStart → selectLoop size ranges n chosenStart = .ok a →
      P a := by
  intro n
  induction n with
  | zero =>
    intro chosenStart a _ h
    cases h
  | succ n ih =>
    intro chosenStart a hstart h
    rw [selectLoop] at h
    split at h
    · exact ih (selectPass_invariant hP hstart) h
    · cases h
      exact selectPass_invariant hP hstart

theorem selectVirtualAddress_lt {minAddress size a : Nat} (hmin : minAddress < 2 ^ 64)
    (h : selectVirtualAddress ranges minAddress size = .ok a) : a < 2 ^ 64 :=
  selectLoop_invariant (P := (· < 2 ^ 64)) (fun _ _ _ _ _ => Nat.mod_lt _ (by decide)) hmin h

/-- **A selected region meets no range.** -/
theorem selectVirtualAddress_disjoint {minAddress size a : Nat} (hok : RangesOk ranges)
    (hregion : size = 0 ∨ a + size < 2 ^ 64)
    (h : selectVirtualAddress ranges minAddress size = .ok a) :
    ∀ r ∈ ranges, VasRange.Apart ⟨a, size⟩ r := by
  intro r hr v hv
  have hfree := selectLoop_free h r hr
  rw [VasRange.collides, (hok.user r hr).stop_eq] at hfree
  obtain ⟨⟨h₁, h₂⟩, h₃, h₄⟩ := hv
  simp only at h₁ h₂
  have hmod : (a + size) % 2 ^ 64 = a + size := by omega
  simp only [hmod, Bool.and_eq_false_iff, decide_eq_false_iff_not] at hfree
  omega

/-- **What `vas_is_page_present` answers**: the address is covered, or is the end of a range. -/
theorem rangesPresent_iff (hok : RangesOk ranges) (v : Nat) :
    rangesPresent ranges v = true ↔ Covered ranges v ∨ ∃ r ∈ ranges, v = r.start + r.size := by
  simp only [rangesPresent, List.any_eq_true, Bool.and_eq_true, decide_eq_true_eq]
  constructor
  · rintro ⟨r, hr, hlow, hhigh⟩
    rw [(hok.user r hr).stop_eq] at hhigh
    rcases Nat.lt_or_eq_of_le hhigh with hlt | heq
    · exact .inl ⟨r, hr, hlow, hlt⟩
    · exact .inr ⟨r, hr, heq⟩
  · rintro (⟨r, hr, hlow, hlt⟩ | ⟨r, hr, heq⟩)
    · refine ⟨r, hr, hlow, ?_⟩
      rw [(hok.user r hr).stop_eq]
      exact Nat.le_of_lt hlt
    · refine ⟨r, hr, by omega, ?_⟩
      rw [(hok.user r hr).stop_eq]
      exact Nat.le_of_eq heq

end Axle.Kernel
