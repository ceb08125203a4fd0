import Axle.Kernel.VasRanges
import Mathlib.Data.Finset.Card
import Mathlib.Tactic.Tauto

/-!
# Which address is selected

`_select_virtual_address` moves its candidate behind every range it collides with, until a pass
over the ranges moves it no more.  Two things are off: a candidate that ends where a range starts
counts as a collision, and the end of a range that reaches up to 2⁶⁴ is zero, so that nothing ever
collides with that range.

* `selectVirtualAddress_ends` — **PROVED**: the loop ends, whatever the ranges are;
* `selectsFree_iff` — **PROVED**: a free region is found, where there is one, if and only if there
  is also one that no range follows directly, but for a range that ends at 2⁶⁴.
-/

namespace Axle.Kernel

variable {ranges : List VasRange} {minAddress size : Nat}

/-! ### The loop ends -/

theorem selectPass_moves (size : Nat) (ranges : List VasRange) (chosenStart : Nat) :
    ((selectPass size ranges chosenStart).2 = false →
      (selectPass size ranges chosenStart).1 = chosenStart) ∧
    ((selectPass size ranges chosenStart).2 = true →
      chosenStart < (selectPass size ranges chosenStart).1 ∧
        ∃ r ∈ ranges, r.stop = (selectPass size ranges chosenStart).1) := by
  refine List.foldlRecOn (motive := fun c : Nat × Bool => (c.2 = false → c.1 = chosenStart) ∧
    (c.2 = true → chosenStart < c.1 ∧ ∃ r ∈ ranges, r.stop = c.1)) ranges _
    ⟨fun _ => rfl, fun h => absurd h Bool.noConfusion⟩ ?_
  intro c hc r hr
  split
  · rename_i hcollides
    rw [VasRange.collides, Bool.and_eq_true, decide_eq_true_eq, decide_eq_true_eq] at hcollides
    refine ⟨fun h => absurd h Bool.noConfusion, fun _ => ⟨?_, r, hr, rfl⟩⟩
    have hlt : c.1 < r.stop := hcollides.2
    cases hmoved : c.2 with
    | false => rwa [hc.1 hmoved] at hlt
    | true => exact (hc.2 hmoved).1.trans hlt
  · exact hc

/-- The ends of ranges that the start can still be moved to. -/
def stopsAbove (ranges : List VasRange) (chosenStart : Nat) : Finset Nat :=
  (ranges.map VasRange.stop).toFinset.filter (chosenStart < ·)

theorem stopsAbove_card_lt {chosenStart stop : Nat} (hlt : chosenStart < stop)
    (hstop : ∃ r ∈ ranges, r.stop = stop) :
    (stopsAbove ranges stop).card < (stopsAbove ranges chosenStart).card := by
  apply Finset.card_lt_card
  rw [Finset.ssubset_iff_of_subset]
  · obtain ⟨r, hr, rfl⟩ := hstop
    refine ⟨r.stop, ?_, fun h => Nat.lt_irrefl _ (Finset.mem_filter.mp h).2⟩
    exact Finset.mem_filter.mpr ⟨List.mem_toFinset.mpr (List.mem_map_of_mem hr), hlt⟩
  · intro x hx
    obtain ⟨hmem, habove⟩ := Finset.mem_filter.mp hx
    exact Finset.mem_filter.mpr ⟨hmem, hlt.trans habove⟩

theorem selectLoop_ends :
    ∀ {n chosenStart : Nat}, (stopsAbove ranges chosenStart).card < n →
      ∃ a, selectLoop size ranges n chosenStart = .ok a := by
  intro n
  induction n with
  | zero => exact fun h => absurd h (Nat.not_lt_zero _)
  | succ n ih =>
    intro chosenStart hn
    obtain ⟨-, hmoves⟩ := selectPass_moves size ranges chosenStart
    rw [selectLoop]
    cases hc : (selectPass size ranges chosenStart).2 with
    | false => exact ⟨_, rfl⟩
    | true =>
      obtain ⟨hlt, hstop⟩ := hmoves hc
      have hless := stopsAbove_card_lt hlt hstop
      exact ih (by omega)

/-- **The loop ends (proved).**  There are no more ends of ranges than ranges. -/
theorem selectVirtualAddress_ends (ranges : List VasRange) (minAddress size : Nat) :
    ∃ a, selectVirtualAddress ranges minAddress size = .ok a := by
  apply selectLoop_ends
  have hfilter := Finset.card_filter_le (ranges.map VasRange.stop).toFinset (minAddress < ·)
  have hmap := List.toFinset_card_le (ranges.map VasRange.stop)
  rw [List.length_map] at hmap
  exact Nat.lt_succ_of_le (hfilter.trans hmap)

/-! ### Where it ends -/

/-- The region from `a` lies in the address space and meets no range. -/
def FreeAt (ranges : List VasRange) (size a : Nat) : Prop :=
  a + size ≤ 2 ^ 64 ∧ ∀ r ∈ ranges, VasRange.Apart ⟨a, size⟩ r

/-- No range starts where the region from `a` ends, but for one that ends with the address space. -/
def Unfollowed (ranges : List VasRange) (size a : Nat) : Prop :=
  ∀ r ∈ ranges, r.start = a + size → r.start + r.size = 2 ^ 64

theorem apart_iff {a : Nat} {r : VasRange} (hsize : 0 < size) (hr : 0 < r.size) :
    VasRange.Apart ⟨a, size⟩ r ↔ a + size ≤ r.start ∨ r.start + r.size ≤ a := by
  constructor
  · intro h
    by_contra hmeet
    exact h (max a r.start) ⟨⟨by dsimp only; omega, by dsimp only; omega⟩, by omega, by omega⟩
  · intro h v hv
    obtain ⟨⟨hlow, hhigh⟩, hlow', hhigh'⟩ := hv
    dsimp only at hlow hhigh
    omega

theorem collides_iff {r : VasRange} (hend : r.start + r.size ≤ 2 ^ 64) (c : Nat) :
    r.collides c size = true ↔
      r.start ≤ (c + size) % 2 ^ 64 ∧ c < r.start + r.size ∧ r.start + r.size < 2 ^ 64 := by
  rw [VasRange.collides, Bool.and_eq_true, decide_eq_true_eq, decide_eq_true_eq, VasRange.stop]
  rcases Nat.lt_or_eq_of_le hend with hlt | heq
  · rw [Nat.mod_eq_of_lt hlt]
    tauto
  · omega

section Selected

variable (hranges : ∀ r ∈ ranges, 0 < r.size ∧ r.start + r.size ≤ 2 ^ 64) (hsize : 0 < size)
include hranges hsize

/-- The start is never moved past a free region that is not followed. -/
theorem stop_le_of_collides {b c : Nat} (hfree : FreeAt ranges size b)
    (hopen : Unfollowed ranges size b) (hc : c ≤ b) {r : VasRange} (hr : r ∈ ranges)
    (hcollides : r.collides c size = true) : r.stop ≤ b := by
  obtain ⟨hpos, hend⟩ := hranges r hr
  obtain ⟨hstart, hlow, hlt⟩ := (collides_iff hend c).mp hcollides
  rw [VasRange.stop, Nat.mod_eq_of_lt hlt]
  rcases (apart_iff hsize hpos).mp (hfree.2 r hr) with hbefore | hafter
  · have hfollows := hopen r hr
    -- the range starts behind the region, so it collides only when it follows it directly
    omega
  · exact hafter

/-- What is selected is free when the start has not been moved past a free region. -/
theorem freeAt_of_selected {a b : Nat} (h : selectVirtualAddress ranges minAddress size = .ok a)
    (hfree : FreeAt ranges size b) (hle : a ≤ b) : FreeAt ranges size a := by
  have hroom := hfree.1
  refine ⟨by omega, fun r hr => ?_⟩
  obtain ⟨hpos, hend⟩ := hranges r hr
  have hnot : ¬r.collides a size = true := Bool.not_eq_true _ ▸ selectLoop_free h r hr
  rw [collides_iff hend] at hnot
  rw [apart_iff hsize hpos]
  have hapart := (apart_iff hsize hpos).mp (hfree.2 r hr)
  rcases Nat.lt_or_eq_of_le (show a + size ≤ 2 ^ 64 by omega) with hlt | heq
  · omega
  · omega

theorem unfollowed_of_selected {a : Nat}
    (h : selectVirtualAddress ranges minAddress size = .ok a) : Unfollowed ranges size a := by
  intro r hr hstart
  obtain ⟨hpos, hend⟩ := hranges r hr
  have hnot : ¬r.collides a size = true := Bool.not_eq_true _ ▸ selectLoop_free h r hr
  rw [collides_iff hend, ← hstart, Nat.mod_eq_of_lt (by omega)] at hnot
  omega

end Selected

/-- The loop ends, and it returns a free region from the smallest address on if there is one. -/
def SelectsFree (ranges : List VasRange) (minAddress size : Nat) : Prop :=
  ∃ a, selectVirtualAddress ranges minAddress size = .ok a ∧
    ((∃ b, minAddress ≤ b ∧ FreeAt ranges size b) → minAddress ≤ a ∧ FreeAt ranges size a)

/-- **When a free region is found (proved)**, for ranges that may end with the address space: if
there is one at all, one of them is not directly followed by a range. -/
theorem selectsFree_iff (hranges : ∀ r ∈ ranges, 0 < r.size ∧ r.start + r.size ≤ 2 ^ 64)
    (hsize : 0 < size) :
    SelectsFree ranges minAddress size ↔
      ((∃ b, minAddress ≤ b ∧ FreeAt ranges size b) →
        ∃ b, minAddress ≤ b ∧ FreeAt ranges size b ∧ Unfollowed ranges size b) := by
  constructor
  · rintro ⟨a, hselect, hfound⟩ hgap
    obtain ⟨hmin, hfree⟩ := hfound hgap
    exact ⟨a, hmin, hfree, unfollowed_of_selected hranges hsize hselect⟩
  · intro hopen
    obtain ⟨a, hselect⟩ := selectVirtualAddress_ends ranges minAddress size
    refine ⟨a, hselect, fun hgap => ?_⟩
    obtain ⟨b, hmin, hfree, hunfollowed⟩ := hopen hgap
    have hbetween : minAddress ≤ a ∧ a ≤ b := by
      refine selectLoop_invariant (P := fun c => minAddress ≤ c ∧ c ≤ b) ?_
        ⟨Nat.le_refl _, hmin⟩ hselect
      intro c hc r hr hcollides
      have hup : c < r.stop := by
        rw [VasRange.collides, Bool.and_eq_true, decide_eq_true_eq, decide_eq_true_eq] at hcollides
        exact hcollides.2
      exact ⟨hc.1.trans hup.le,
        stop_le_of_collides hranges hsize hfree hunfollowed hc.2 hr hcollides⟩
    exact ⟨hbetween.1, freeAt_of_selected hranges hsize hselect hfree hbetween.2⟩

/-- Below the kernel image, which ends with the address space. -/
theorem selectsFree_belowImage :
    SelectsFree [⟨0, 0x5000⟩, ⟨0x8000, 0x1000⟩, ⟨0xffffffff80000000, 0x80000000⟩] 0x2000 0x2000 :=
  (selectsFree_iff (by decide) (by decide)).mpr fun _ =>
    ⟨0x5000, by decide, ⟨by decide, fun r hr => by
      have hpos : 0 < r.size := by revert r; decide
      refine (apart_iff (by decide) hpos).mpr ?_
      revert r
      decide⟩, by unfold Unfollowed; decide⟩

/-- **An exact fit is passed over.**  The only free region is directly followed by a range; the
address returned overlaps the kernel image. -/
theorem selectVirtualAddress_exactFit :
    let ranges : List VasRange := [⟨0x2000, 0xffffffff7fffd000⟩, ⟨0xffffffff80000000, 0x80000000⟩]
    (ranges.Pairwise fun a b => a.start + a.size < b.start) ∧
      FreeAt ranges 0x2000 0 ∧
      selectVirtualAddress ranges 0 0x2000 = .ok 0xffffffff7ffff000 ∧
      ¬SelectsFree ranges 0 0x2000 := by
  have hranges : ∀ r ∈ ([⟨0x2000, 0xffffffff7fffd000⟩, ⟨0xffffffff80000000, 0x80000000⟩] :
      List VasRange), 0 < r.size ∧ r.start + r.size ≤ 2 ^ 64 := by decide
  have hfree : FreeAt [⟨0x2000, 0xffffffff7fffd000⟩, ⟨0xffffffff80000000, 0x80000000⟩] 0x2000 0 := by
    refine ⟨by decide, fun r hr => (apart_iff (by decide) (hranges r hr).1).mpr ?_⟩
    revert r
    decide
  have hselect : selectVirtualAddress [⟨0x2000, 0xffffffff7fffd000⟩,
      ⟨0xffffffff80000000, 0x80000000⟩] 0 0x2000 = .ok 0xffffffff7ffff000 := by decide
  refine ⟨by decide, hfree, hselect, ?_⟩
  rintro ⟨a, ha, hfound⟩
  obtain rfl := Except.ok.inj ha
  have hmeet := (hfound ⟨0, Nat.le_refl _, hfree⟩).2.2 ⟨0xffffffff80000000, 0x80000000⟩
    (List.mem_cons_of_mem _ List.mem_cons_self) 0xffffffff80000000
  exact hmeet ⟨⟨by decide, by decide⟩, ⟨by decide, by decide⟩⟩

end Axle.Kernel
