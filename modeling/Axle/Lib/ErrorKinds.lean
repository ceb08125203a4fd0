import Axle.Lib.StepRun
import Mathlib.Tactic.Common

/-!
# Computations that avoid some of their errors

A computation in `Except` may end in errors of two kinds: those it is meant to end in (it checks
something and gives up), and those that must not happen.

* `Avoids` — the computation does not end in a bad error;
* `avoids_bind` — **the rule of sequencing**: the first part avoids them, and so does the rest on
  its result;
* `avoids_foldlM_iff_meets` — the rule for loops: every iteration avoids them in the state it
  starts from;
* `avoids_foldlM_iff_forall` — the same when it does not depend on the state.

Nothing here is about a particular program.
-/

namespace Axle.Lib.ErrorKinds

open Axle.Lib.StepRun

universe u

variable {ε ι : Type*} {α β : Type u} {bad : ε → Prop}

/-- `x` does not end in a bad error. -/
def Avoids (bad : ε → Prop) (x : Except ε α) : Prop := ∀ e, x = .error e → ¬bad e

@[simp] theorem avoids_ok (a : α) : Avoids bad (.ok a : Except ε α) := fun _ h => by cases h

@[simp] theorem avoids_pure (a : α) : Avoids bad (pure a : Except ε α) := avoids_ok a

@[simp] theorem avoids_error (e : ε) : Avoids bad (.error e : Except ε α) ↔ ¬bad e :=
  ⟨fun h => h e rfl, fun h e' he => by cases he; exact h⟩

theorem avoids_bind {x : Except ε α} {f : α → Except ε β} :
    Avoids bad (x >>= f) ↔ Avoids bad x ∧ ∀ a, x = .ok a → Avoids bad (f a) := by
  cases x with
  | error e =>
    show Avoids bad (.error e) ↔ _
    simp
  | ok a =>
    show Avoids bad (f a) ↔ _
    simp

theorem avoids_map {x : Except ε α} {f : α → β} : Avoids bad (x.map f) ↔ Avoids bad x := by
  cases x with
  | error e =>
    show Avoids bad (.error e) ↔ _
    simp
  | ok a => simp [Except.map]

/-- A check that gives up with an error of its own. -/
theorem avoids_ite {c : Prop} [Decidable c] {x y : Except ε α} :
    Avoids bad (if c then x else y) ↔ (c → Avoids bad x) ∧ (¬c → Avoids bad y) := by
  by_cases hc : c <;> simp [hc]

/-! ### Loops -/

variable {f : α → ι → Except ε α}

theorem foldlM_cons_eq (s : α) (i : ι) (l : List ι) :
    (i :: l).foldlM f s = f s i >>= fun t => l.foldlM f t := rfl

theorem avoids_foldlM_iff_meets (l : List ι) : ∀ s : α,
    Avoids bad (l.foldlM f s) ↔
      Meets (fun s i => (f s i).toOption) (fun s i => Avoids bad (f s i)) s l := by
  induction l with
  | nil => exact fun s => ⟨fun _ => trivial, fun _ => avoids_ok s⟩
  | cons i l ih =>
    intro s
    rw [foldlM_cons_eq, avoids_bind, Meets]
    refine and_congr_right fun _ => forall_congr' fun t => ?_
    rw [ih t]
    cases f s i with
    | error e => exact ⟨fun _ h => (by cases h), fun _ h => (by cases h)⟩
    | ok u => exact ⟨fun h ht => h (by cases ht; rfl), fun h ht => h (by cases ht; rfl)⟩

/-- An iteration that avoids the bad errors goes on with the state `g` says. -/
theorem foldlM_eq_foldl {ok : ι → Prop} {g : α → ι → α} : ∀ {l : List ι} {s : α},
    (∀ i ∈ l, ∀ s, ok i → f s i = .ok (g s i)) → (∀ i ∈ l, ok i) →
    l.foldlM f s = .ok (l.foldl g s) := by
  intro l
  induction l with
  | nil => exact fun _ _ => rfl
  | cons i l ih =>
    intro s hf hok
    rw [foldlM_cons_eq, hf i List.mem_cons_self s (hok i List.mem_cons_self)]
    exact ih (fun j hj => hf j (List.mem_cons_of_mem i hj))
      fun j hj => hok j (List.mem_cons_of_mem i hj)

theorem avoids_foldlM_iff_forall {ok : ι → Prop} {g : α → ι → α} : ∀ {l : List ι} {s : α},
    (∀ i ∈ l, ∀ s, ok i → f s i = .ok (g s i)) → (∀ i ∈ l, ∀ s, Avoids bad (f s i) → ok i) →
    (Avoids bad (l.foldlM f s) ↔ ∀ i ∈ l, ok i) := by
  intro l
  induction l with
  | nil => exact fun _ _ => ⟨fun _ i hi => absurd hi List.not_mem_nil, fun _ => avoids_ok _⟩
  | cons i l ih =>
    intro s hf hbad
    have hrest : ∀ t, Avoids bad (l.foldlM f t) ↔ ∀ j ∈ l, ok j := fun t =>
      ih (fun j hj => hf j (List.mem_cons_of_mem i hj))
        fun j hj => hbad j (List.mem_cons_of_mem i hj)
    rw [foldlM_cons_eq, avoids_bind, List.forall_mem_cons]
    constructor
    · rintro ⟨hfirst, hnext⟩
      have hi := hbad i List.mem_cons_self s hfirst
      exact ⟨hi, (hrest _).mp (hnext _ (hf i List.mem_cons_self s hi))⟩
    · rintro ⟨hi, hall⟩
      refine ⟨by rw [hf i List.mem_cons_self s hi]; exact avoids_ok _, fun t _ => ?_⟩
      exact (hrest t).mpr hall

end Axle.Lib.ErrorKinds
