import Mathlib.Data.List.Range
import Mathlib.Tactic.Common

/-!
# Loops over the indexes below a bound that may fail

* `mapM_range_eq_some_iff`, `exists_mapM_range_iff` — what a loop collects, index by index;
* `foldlM_range_cases` — **the loop rule**: where a round succeeds under a guard on its index alone
  and keeps an invariant, the loop succeeds if and only if all guards hold.

Nothing here is about a particular state.
-/

namespace Axle.Lib.RangeLoop

variable {σ α : Type*}

theorem foldlM_range_succ (f : σ → ℕ → Option σ) (s : σ) (n : ℕ) :
    (List.range (n + 1)).foldlM f s = ((List.range n).foldlM f s).bind fun t => f t n := by
  rw [List.range_succ, List.foldlM_append]
  cases (List.range n).foldlM f s with
  | none => rfl
  | some t =>
    show (f t n >>= pure) = f t n
    cases f t n <;> rfl

/-- **The loop rule (proved).**  The invariant carries the index of the next round. -/
theorem foldlM_range_cases {f : σ → ℕ → Option σ} {P : ℕ → σ → Prop} {G : ℕ → Prop} {s : σ}
    (h₀ : P 0 s) {n : ℕ}
    (hstep : ∀ i < n, ∀ t, P i t →
      (G i ∧ ∃ t', f t i = some t' ∧ P (i + 1) t') ∨ (¬G i ∧ f t i = none)) :
    ((∀ i < n, G i) ∧ ∃ t, (List.range n).foldlM f s = some t ∧ P n t) ∨
      ((¬∀ i < n, G i) ∧ (List.range n).foldlM f s = none) := by
  induction n with
  | zero => exact Or.inl ⟨fun i hi => absurd hi (Nat.not_lt_zero i), s, rfl, h₀⟩
  | succ n ih =>
    rw [foldlM_range_succ]
    rcases ih fun i hi => hstep i (Nat.lt_succ_of_lt hi) with ⟨hG, t, ht, hP⟩ | ⟨hG, hnone⟩
    · rw [ht, Option.bind_some]
      rcases hstep n (Nat.lt_succ_self n) t hP with ⟨hGn, t', ht', hP'⟩ | ⟨hGn, hnone⟩
      · refine Or.inl ⟨fun i hi => ?_, t', ht', hP'⟩
        rcases Nat.lt_succ_iff_lt_or_eq.mp hi with hlt | rfl
        · exact hG i hlt
        · exact hGn
      · exact Or.inr ⟨fun h => hGn (h n (Nat.lt_succ_self n)), hnone⟩
    · rw [hnone]
      exact Or.inr ⟨fun h => hG fun i hi => h i (Nat.lt_succ_of_lt hi), rfl⟩

theorem mapM_range_succ (f : ℕ → Option α) (n : ℕ) :
    (List.range (n + 1)).mapM f =
      ((List.range n).mapM f).bind fun l => (f n).map fun a => l ++ [a] := by
  rw [List.range_succ, List.mapM_append]
  cases (List.range n).mapM f with
  | none => rfl
  | some l =>
    show ((List.mapM f [n]) >>= fun l' => pure (l ++ l')) = _
    rw [List.mapM_cons, List.mapM_nil]
    cases f n <;> rfl

/-- What the loop collects. -/
theorem mapM_range_eq_some_iff {f : ℕ → Option α} {n : ℕ} {l : List α} :
    (List.range n).mapM f = some l ↔ l.length = n ∧ ∀ i < n, l[i]? = f i := by
  induction n generalizing l with
  | zero =>
    rw [List.range_zero, List.mapM_nil, List.length_eq_zero_iff]
    constructor
    · intro h
      cases h
      exact ⟨rfl, fun i hi => absurd hi (Nat.not_lt_zero i)⟩
    · rintro ⟨rfl, -⟩
      rfl
  | succ n ih =>
    rw [mapM_range_succ]
    constructor
    · intro h
      obtain ⟨l', hl', h⟩ := Option.bind_eq_some_iff.mp h
      obtain ⟨a, ha, rfl⟩ := Option.map_eq_some_iff.mp h
      obtain ⟨hlen, hget⟩ := ih.mp hl'
      refine ⟨by rw [List.length_append, hlen]; rfl, fun i hi => ?_⟩
      rcases Nat.lt_succ_iff_lt_or_eq.mp hi with hlt | rfl
      · rw [List.getElem?_append_left (by rw [hlen]; exact hlt), hget i hlt]
      · rw [List.getElem?_append_right (by rw [hlen]), hlen, Nat.sub_self, ha]
        rfl
    · rintro ⟨hlen, hget⟩
      have hne : l ≠ [] := fun h => by rw [h] at hlen; cases hlen
      have hlen' : l.dropLast.length = n := by rw [List.length_dropLast, hlen, Nat.add_sub_cancel]
      have hlast : f n = some (l.getLast hne) := by
        rw [← hget n (Nat.lt_succ_self n), List.getLast_eq_getElem, List.getElem?_eq_getElem
          (by rw [hlen]; exact Nat.lt_succ_self n)]
        simp [hlen]
      have hinit : (List.range n).mapM f = some l.dropLast := by
        refine ih.mpr ⟨hlen', fun i hi => ?_⟩
        rw [← hget i (Nat.lt_succ_of_lt hi), List.dropLast_eq_take, List.getElem?_take_of_lt]
        rw [hlen, Nat.add_sub_cancel]
        exact hi
      rw [hinit, hlast, Option.bind_some, Option.map_some, List.dropLast_append_getLast]

theorem exists_mapM_range_iff {f : ℕ → Option α} {n : ℕ} :
    (∃ l, (List.range n).mapM f = some l) ↔ ∀ i < n, ∃ a, f i = some a := by
  constructor
  · rintro ⟨l, hl⟩ i hi
    obtain ⟨hlen, hget⟩ := mapM_range_eq_some_iff.mp hl
    rw [← hlen] at hi
    exact ⟨l[i], by rw [← hget i (hlen ▸ hi), List.getElem?_eq_getElem hi]⟩
  · intro h
    induction n with
    | zero => exact ⟨[], rfl⟩
    | succ n ih =>
      obtain ⟨l, hl⟩ := ih fun i hi => h i (Nat.lt_succ_of_lt hi)
      obtain ⟨a, ha⟩ := h n (Nat.lt_succ_self n)
      exact ⟨l ++ [a], by rw [mapM_range_succ, hl, ha]; rfl⟩

end Axle.Lib.RangeLoop
