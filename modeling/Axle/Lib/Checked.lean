import Mathlib.Logic.Basic

/-!
# Programs with and without overflow checks

The same text is compiled in two ways: with the checks on, an overflowing operation ends the
program; with the checks off it goes on with the wrapped value.  A program is given here as a
function of that choice.

* `Computes` — with the checks off the program gives a value, and with the checks on it gives the
  same value exactly under a condition, and a given error otherwise;
* `Computes.bind` — **the rule of sequencing**: the conditions add up; `Computes.last` is the case of
  a last step without checks;
* `Computes.exists_ok_iff` — when the checked program ends with a value at all.

Nothing here is about a particular program.
-/

namespace Axle.Lib.Checked

universe u

variable {ε : Type*} {α β : Type u}

/-- Unchecked, `x` gives `v`; checked, it gives `v` when `c` and otherwise ends with `e`. -/
structure Computes (e : ε) (x : Bool → Except ε α) (c : Prop) (v : α) : Prop where
  unchecked : x false = .ok v
  checked : c → x true = .ok v
  fails : ¬c → x true = .error e

variable {e : ε} {x : Bool → Except ε α} {f : Bool → α → Except ε β} {c d : Prop} {v : α} {w : β}

theorem Computes.pure (v : α) : Computes e (fun _ => .ok v) True v :=
  ⟨rfl, fun _ => rfl, fun h => absurd True.intro h⟩

/-- A single checked operation. -/
theorem Computes.guard [Decidable c] (v : α) :
    Computes e (fun checks => if checks ∧ ¬c then .error e else .ok v) c v where
  unchecked := if_neg fun h => Bool.false_ne_true h.1
  checked := fun hc => if_neg fun h => h.2 hc
  fails := fun hc => if_pos ⟨rfl, hc⟩

theorem Computes.bind (hx : Computes e x c v) (hf : Computes e (fun checks => f checks v) d w) :
    Computes e (fun checks => x checks >>= f checks) (c ∧ d) w where
  unchecked := by
    show x false >>= f false = .ok w
    rw [hx.unchecked]
    exact hf.unchecked
  checked := by
    intro h
    show x true >>= f true = .ok w
    rw [hx.checked h.1]
    exact hf.checked h.2
  fails := by
    intro h
    show x true >>= f true = .error e
    by_cases hc : c
    · rw [hx.checked hc]
      exact hf.fails fun hd => h ⟨hc, hd⟩
    · rw [hx.fails hc]
      rfl

/-- The same program under an equivalent condition. -/
theorem Computes.of_iff (h : Computes e x c v) (hcd : d ↔ c) : Computes e x d v :=
  ⟨h.unchecked, fun hd => h.checked (hcd.mp hd), fun hd => h.fails fun hc => hd (hcd.mpr hc)⟩

/-- Nothing is checked in the last step. -/
theorem Computes.last (hx : Computes e x c v) (hf : ∀ checks, f checks v = .ok w) :
    Computes e (fun checks => x checks >>= f checks) c w :=
  Computes.of_iff (Computes.bind hx ⟨hf false, fun _ => hf true, fun h => absurd True.intro h⟩)
    (by rw [and_true])

theorem Computes.exists_ok_iff (h : Computes e x c v) (P : α → Prop) :
    (∃ r, x true = .ok r ∧ x false = .ok r ∧ P r) ↔ c ∧ P v := by
  constructor
  · rintro ⟨r, hon, hoff, hr⟩
    have hv : v = r := by
      have heq := h.unchecked.symm.trans hoff
      cases heq
      rfl
    refine ⟨Classical.byContradiction fun hc => ?_, hv ▸ hr⟩
    rw [h.fails hc] at hon
    cases hon
  · rintro ⟨hc, hv⟩
    exact ⟨v, h.checked hc, h.unchecked, hv⟩

/-- No other error occurs. -/
theorem Computes.error_eq (h : Computes e x c v) {checks : Bool} {e' : ε}
    (herror : x checks = .error e') : e' = e := by
  cases checks with
  | false =>
    rw [h.unchecked] at herror
    cases herror
  | true =>
    by_cases hc : c
    · rw [h.checked hc] at herror
      cases herror
    · rw [h.fails hc] at herror
      cases herror
      rfl

end Axle.Lib.Checked
