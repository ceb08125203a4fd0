import Mathlib.Data.List.Basic
import Mathlib.Tactic.Common

/-!
# Programs that leave a trace

A program with a state that may stop, and that leaves a trace of what it did on the way: what it
touched, which calls it made.  Both sides of a statement about all runs can then be properties of
the entries of one trace.

* `Spec` — in a run from `s`, all entries are good if and only if all entries meet a condition; the
  program stops only for some reasons; and where it ends, `Q` holds;
* `Spec.bind` — **the rule of sequencing**: the specification of the rest starts from what the first
  part guarantees;
* `Ends` — a run that is known to end in a certain way, with entries of one kind only;
* `Agree` — two runs from related states whose entries all meet a condition end in the same way;
* `Agree.bind` — **the rule of sequencing** for two runs.

Nothing here is about a particular program.
-/

namespace Axle.Lib.Traced

/-- How a program ends. -/
inductive Outcome (ω σ α : Type) where
  | ok (a : α) (s : σ)
  | stop (why : ω)

/-- What a program has to say, without its last state. -/
def Outcome.result {ω σ α : Type} : Outcome ω σ α → Except ω α
  | .ok a _ => .ok a
  | .stop why => .error why

structure Result (ε ω σ α : Type) where
  trace : List ε
  outcome : Outcome ω σ α

/-- Entries `ε`, reasons to stop `ω`, states `σ`. -/
def Program (ε ω σ α : Type) := σ → Result ε ω σ α

namespace Program

variable {ε ω σ α β : Type}

def bind (m : Program ε ω σ α) (f : α → Program ε ω σ β) : Program ε ω σ β := fun s =>
  match (m s).outcome with
  | .ok a t => ⟨(m s).trace ++ (f a t).trace, (f a t).outcome⟩
  | .stop why => ⟨(m s).trace, .stop why⟩

instance : Monad (Program ε ω σ) where
  pure a := fun s => ⟨[], .ok a s⟩
  bind := bind

/-- Leave an entry that depends on the state. -/
def log (e : σ → ε) : Program ε ω σ Unit := fun s => ⟨[e s], .ok () s⟩

def read : Program ε ω σ σ := fun s => ⟨[], .ok s s⟩

def modify (f : σ → σ) : Program ε ω σ Unit := fun s => ⟨[], .ok () (f s)⟩

def stop (why : ω) : Program ε ω σ α := fun _ => ⟨[], .stop why⟩

theorem pure_apply (a : α) (s : σ) : (pure a : Program ε ω σ α) s = ⟨[], .ok a s⟩ := rfl

variable {a : α} {f : α → Program ε ω σ β} {m : Program ε ω σ α} {s t : σ}

theorem bind_of_ok (h : (m s).outcome = .ok a t) :
    (m >>= f) s = ⟨(m s).trace ++ (f a t).trace, (f a t).outcome⟩ := by
  show bind m f s = _
  rw [bind, h]

/-- What the first part leaves in the trace, the whole leaves. -/
theorem mem_trace_bind {e : ε} (h : e ∈ (m s).trace) : e ∈ ((m >>= f) s).trace := by
  show e ∈ (bind m f s).trace
  rw [bind]
  split
  · exact List.mem_append_left _ h
  · exact h

variable {why : ω}

theorem bind_of_stop (h : (m s).outcome = .stop why) : (m >>= f) s = ⟨(m s).trace, .stop why⟩ := by
  show bind m f s = _
  rw [bind, h]

theorem read_bind (f : σ → Program ε ω σ β) (s : σ) : (read >>= f) s = f s s := rfl

end Program

open Program

variable {ε ω σ α β : Type}

/-! ### One run -/

section Spec

variable {good meets : ε → Prop} {ends : ω → Prop}

/-- A run of `m` from `s`. -/
structure Spec (good meets : ε → Prop) (ends : ω → Prop) (s : σ) (m : Program ε ω σ α)
    (Q : α → σ → Prop) : Prop where
  iff : (∀ e ∈ (m s).trace, good e) ↔ ∀ e ∈ (m s).trace, meets e
  ends : ∀ why, (m s).outcome = .stop why → ends why
  post : ∀ a t, (m s).outcome = .ok a t → Q a t

variable {Q : α → σ → Prop} {s : σ} {m : Program ε ω σ α}

theorem Spec.pure {a : α} (h : Q a s) : Spec good meets ends s (pure a) Q where
  iff := by simp [pure_apply]
  ends := by simp [pure_apply]
  post := by
    intro b t heq
    cases heq
    exact h

/-- **The rule of sequencing (proved).** -/
theorem Spec.bind {f : α → Program ε ω σ β} {R : β → σ → Prop} (hm : Spec good meets ends s m Q)
    (hf : ∀ a t, Q a t → Spec good meets ends t (f a) R) : Spec good meets ends s (m >>= f) R := by
  cases h : (m s).outcome with
  | ok a t =>
    have hrest := hf a t (hm.post a t h)
    have happly := bind_of_ok (f := f) h
    refine ⟨?_, ?_, ?_⟩
    · rw [happly]
      simp only [List.forall_mem_append]
      rw [hm.iff, hrest.iff]
    · rw [happly]
      exact hrest.ends
    · rw [happly]
      exact hrest.post
  | stop why =>
    have happly := bind_of_stop (f := f) h
    refine ⟨?_, ?_, ?_⟩
    · rw [happly]
      exact hm.iff
    · rw [happly]
      intro why' heq
      cases heq
      exact hm.ends why h
    · rw [happly]
      intro b t heq
      cases heq

theorem Spec.mono {Q R : α → σ → Prop} (hm : Spec good meets ends s m Q)
    (h : ∀ a t, Q a t → R a t) : Spec good meets ends s m R :=
  ⟨hm.iff, hm.ends, fun a t heq => h a t (hm.post a t heq)⟩

/-- An entry that is good exactly where it meets the condition. -/
theorem Spec.log {e : σ → ε} {Q : Unit → σ → Prop} (h : good (e s) ↔ meets (e s)) (hQ : Q () s) :
    Spec good meets ends s (log e) Q where
  iff := by
    show (∀ e' ∈ [e s], good e') ↔ ∀ e' ∈ [e s], meets e'
    simpa only [List.mem_singleton, forall_eq] using h
  ends := by
    intro why heq
    cases heq
  post := by
    intro a t heq
    cases heq
    exact hQ

theorem Spec.read {Q : σ → σ → Prop} (h : Q s s) :
    Spec good meets ends s (read : Program ε ω σ σ) Q where
  iff := by simp [Program.read]
  ends := by
    intro why heq
    cases heq
  post := by
    intro a t heq
    cases heq
    exact h

theorem Spec.modify {g : σ → σ} {Q : Unit → σ → Prop} (h : Q () (g s)) :
    Spec good meets ends s (modify g) Q where
  iff := by simp [Program.modify]
  ends := by
    intro why heq
    cases heq
  post := by
    intro a t heq
    cases heq
    exact h

/-- A run in which something goes wrong, and some entry does not meet the condition. -/
theorem Spec.of_bad (hgood : ∃ e ∈ (m s).trace, ¬good e) (hmeets : ∃ e ∈ (m s).trace, ¬meets e)
    (hends : ∀ why, (m s).outcome = .stop why → ends why)
    (hpost : ∀ a t, (m s).outcome = .ok a t → Q a t) : Spec good meets ends s m Q where
  iff := by
    obtain ⟨e, he, hbad⟩ := hgood
    obtain ⟨e', he', hbad'⟩ := hmeets
    exact iff_of_false (fun h => hbad (h e he)) fun h => hbad' (h e' he')
  ends := hends
  post := hpost

end Spec

/-! ### A run whose end is known -/

/-- The run of `m` from `s` ends in `o`, and all entries on the way are fine. -/
structure Ends (fine : ε → Prop) (s : σ) (m : Program ε ω σ α) (o : Outcome ω σ α) : Prop where
  outcome_eq : (m s).outcome = o
  entries : ∀ e ∈ (m s).trace, fine e

section Ends

variable {fine : ε → Prop} {s t : σ}

variable {a : α} {f : α → Program ε ω σ β} {m m' : Program ε ω σ α} {o : Outcome ω σ α}

theorem Ends.pure : Ends fine s (pure a : Program ε ω σ α) (.ok a s) :=
  ⟨rfl, by simp [pure_apply]⟩

theorem Ends.read : Ends fine s (read : Program ε ω σ σ) (.ok s s) := ⟨rfl, by simp [Program.read]⟩

theorem Ends.modify {g : σ → σ} : Ends fine s (modify g : Program ε ω σ Unit) (.ok () (g s)) :=
  ⟨rfl, by simp [Program.modify]⟩

theorem Ends.stop {why : ω} : Ends fine s (stop why : Program ε ω σ α) (.stop why) :=
  ⟨rfl, by simp [Program.stop]⟩

theorem Ends.bind {o : Outcome ω σ β} (hm : Ends fine s m (.ok a t)) (hf : Ends fine t (f a) o) :
    Ends fine s (m >>= f) o := by
  have happly := bind_of_ok (f := f) hm.outcome_eq
  refine ⟨by rw [happly]; exact hf.outcome_eq, ?_⟩
  rw [happly]
  exact List.forall_mem_append.mpr ⟨hm.entries, hf.entries⟩

theorem Ends.bind_stop {why : ω} (hm : Ends fine s m (.stop why)) :
    Ends fine s (m >>= f) (.stop why) := by
  have happly := bind_of_stop (f := f) hm.outcome_eq
  exact ⟨by rw [happly], by rw [happly]; exact hm.entries⟩

/-- The run of `m` from `s` goes on as the one of `m'` from `t`, behind entries that are fine. -/
def Continues (fine : ε → Prop) (s : σ) (m : Program ε ω σ α) (t : σ) (m' : Program ε ω σ α) :
    Prop :=
  ∃ before, (∀ e ∈ before, fine e) ∧ m s = ⟨before ++ (m' t).trace, (m' t).outcome⟩

theorem Ends.continues {m' : Program ε ω σ β} (hm : Ends fine s m (.ok a t)) (hf : f a = m') :
    Continues fine s (m >>= f) t m' := by
  subst hf
  exact ⟨(m s).trace, hm.entries, bind_of_ok hm.outcome_eq⟩

theorem Continues.trans {u : σ} {m m' m'' : Program ε ω σ α} (h : Continues fine s m t m')
    (h' : Continues fine t m' u m'') : Continues fine s m u m'' := by
  obtain ⟨before, hbefore, heq⟩ := h
  obtain ⟨before', hbefore', heq'⟩ := h'
  refine ⟨before ++ before', List.forall_mem_append.mpr ⟨hbefore, hbefore'⟩, ?_⟩
  rw [heq, heq', List.append_assoc]

theorem Continues.ends (h : Continues fine s m t m') (hends : Ends fine t m' o) :
    Ends fine s m o := by
  obtain ⟨before, hbefore, heq⟩ := h
  refine ⟨by rw [heq]; exact hends.outcome_eq, ?_⟩
  rw [heq]
  exact List.forall_mem_append.mpr ⟨hbefore, hends.entries⟩

theorem Continues.outcome_eq (h : Continues fine s m t m') : (m s).outcome = (m' t).outcome := by
  obtain ⟨before, -, heq⟩ := h
  rw [heq]

theorem Continues.mem_trace (h : Continues fine s m t m') {e : ε} (he : e ∈ (m' t).trace) :
    e ∈ (m s).trace := by
  obtain ⟨before, -, heq⟩ := h
  rw [heq]
  exact List.mem_append_right _ he

/-- A run whose entries are all good and meet the condition. -/
theorem Ends.spec {good meets : ε → Prop} {ends : ω → Prop} {Q : α → σ → Prop}
    (hm : Ends fine s m o) (hfine : ∀ e, fine e → good e ∧ meets e)
    (hends : ∀ why, o = .stop why → ends why) (hpost : ∀ a t, o = .ok a t → Q a t) :
    Spec good meets ends s m Q where
  iff := iff_of_true (fun e he => (hfine e (hm.entries e he)).1)
    fun e he => (hfine e (hm.entries e he)).2
  ends why h := hends why (hm.outcome_eq.symm.trans h)
  post a t h := hpost a t (hm.outcome_eq.symm.trans h)

end Ends

/-! ### Two runs -/

/-- The runs have ended in the same way, in related states. -/
def SameEnd (R : σ → σ → Prop) : Outcome ω σ α → Outcome ω σ α → Prop
  | .ok a s, .ok b t => a = b ∧ R s t
  | .stop why, .stop why' => why = why'
  | _, _ => False

/-- Two runs of `m` from `s` and `t`. -/
def Agree (meets : ε → Prop) (R : σ → σ → Prop) (s t : σ) (m : Program ε ω σ α) : Prop :=
  (∀ e ∈ (m s).trace, meets e) → (∀ e ∈ (m t).trace, meets e) →
    SameEnd R (m s).outcome (m t).outcome

section Agree

variable {meets : ε → Prop} {R : σ → σ → Prop} {s t : σ}

theorem Agree.pure {a : α} (h : R s t) : Agree meets R s t (pure a : Program ε ω σ α) :=
  fun _ _ => ⟨rfl, h⟩

variable {R' : σ → σ → Prop} {m : Program ε ω σ α} {e : σ → ε} {o o' : Outcome ω σ α}

/-- **The rule of sequencing for two runs (proved).** -/
theorem Agree.bind {f : α → Program ε ω σ β} (hm : Agree meets R s t m)
    (hf : ∀ a s' t', R s' t' → Agree meets R' s' t' (f a)) : Agree meets R' s t (m >>= f) := by
  intro hs ht
  cases hms : (m s).outcome with
  | ok a s' =>
    rw [bind_of_ok (f := f) hms] at hs ⊢
    have hs' := List.forall_mem_append.mp hs
    cases hmt : (m t).outcome with
    | ok b t' =>
      rw [bind_of_ok (f := f) hmt] at ht ⊢
      have ht' := List.forall_mem_append.mp ht
      have hsame := hm hs'.1 ht'.1
      rw [hms, hmt] at hsame
      obtain ⟨rfl, hR⟩ := hsame
      exact hf a s' t' hR hs'.2 ht'.2
    | stop why =>
      rw [bind_of_stop (f := f) hmt] at ht
      have hsame := hm hs'.1 ht
      rw [hms, hmt] at hsame
      exact hsame.elim
  | stop why =>
    rw [bind_of_stop (f := f) hms] at hs ⊢
    cases hmt : (m t).outcome with
    | ok b t' =>
      rw [bind_of_ok (f := f) hmt] at ht
      have hsame := hm hs (List.forall_mem_append.mp ht).1
      rw [hms, hmt] at hsame
      exact hsame.elim
    | stop why' =>
      rw [bind_of_stop (f := f) hmt] at ht ⊢
      have hsame := hm hs ht
      rw [hms, hmt] at hsame
      exact hsame

theorem Agree.modify {g : σ → σ} (h : R' (g s) (g t)) :
    Agree meets R' s t (modify g : Program ε ω σ Unit) := fun _ _ => ⟨rfl, h⟩

/-- Of the state, only what is the same in both is read. -/
theorem Agree.read_bind {f : σ → Program ε ω σ β} (hsame : f s = f t)
    (hf : Agree meets R' s t (f s)) : Agree meets R' s t (read >>= f) := by
  have ht : (read >>= f) t = f s t := by
    rw [hsame]
    exact Program.read_bind f t
  rw [Agree, Program.read_bind, ht]
  exact hf

/-- What the entry in front says holds in both runs. -/
theorem Agree.log_bind {f : Unit → Program ε ω σ β}
    (hf : meets (e s) → meets (e t) → Agree meets R' s t (f ())) :
    Agree meets R' s t (Program.log e >>= f) := by
  intro hs ht
  obtain ⟨hes, hs⟩ := List.forall_mem_append.mp hs
  obtain ⟨het, ht⟩ := List.forall_mem_append.mp ht
  exact hf (hes _ (List.mem_singleton.mpr rfl)) (het _ (List.mem_singleton.mpr rfl)) hs ht

/-- Two runs whose ends are known. -/
theorem Agree.of_outcomes (hs : (m s).outcome = o) (ht : (m t).outcome = o') (h : SameEnd R o o') :
    Agree meets R s t m := by
  intro _ _
  rw [hs, ht]
  exact h

theorem SameEnd.result_eq (h : SameEnd R o o') : o.result = o'.result := by
  cases o with
  | ok a s =>
    cases o' with
    | ok b t => rw [Outcome.result, Outcome.result, h.1]
    | stop why => exact h.elim
  | stop why =>
    cases o' with
    | ok b t => exact h.elim
    | stop why' => exact congrArg Except.error h

theorem Agree.stop {why : ω} : Agree meets R s t (stop why : Program ε ω σ α) := fun _ _ => rfl

end Agree

end Axle.Lib.Traced
