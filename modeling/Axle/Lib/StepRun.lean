import Mathlib.Data.List.Basic

/-!
# Runs of a partial step function

A program with a state is given here by one function `next : σ → ε → Option σ`: the event
names what happens next and, when several outcomes are possible, which one; `none` says that
the program stops there (a failed assertion, a panic).  A run is a list of events.

* `run` — the state a list of events leads to;
* `Meets` — every step of the run meets a condition on the state before it and on the event;
* `Passes` — the states a run passes through, its end included;
* `run_invariant` — **the invariant rule**: what the start satisfies and every step that meets
  the condition keeps holds in the state the run ends in;
* `passes_invariant` — the same for every state the run passes through;
* `meets_of_passes` — the converse: a run through good states meets the condition;
* `run_total` — the same rule for a program that also never stops.

Nothing here is about a particular program.
-/

namespace Axle.Lib.StepRun

variable {σ ε : Type*}

/-- Run a list of events from a state; `none` as soon as one event has no next state. -/
def run (next : σ → ε → Option σ) : σ → List ε → Option σ
  | s, [] => some s
  | s, e :: es => (next s e).bind fun t => run next t es

/-- Every step of the run of `es` from `s` meets `ok` in the state before it. -/
def Meets (next : σ → ε → Option σ) (ok : σ → ε → Prop) : σ → List ε → Prop
  | _, [] => True
  | s, e :: es => ok s e ∧ ∀ t ∈ next s e, Meets next ok t es

/-- The run of `es` from `s` passes through `t`. -/
def Passes (next : σ → ε → Option σ) (s : σ) (es : List ε) (t : σ) : Prop :=
  ∃ done, done <+: es ∧ run next s done = some t

instance Meets.decidable (next : σ → ε → Option σ) (ok : σ → ε → Prop)
    [∀ s e, Decidable (ok s e)] : ∀ s es, Decidable (Meets next ok s es)
  | _, [] => inferInstanceAs (Decidable True)
  | s, e :: es =>
    have : DecidablePred fun t => Meets next ok t es := fun t => Meets.decidable next ok t es
    inferInstanceAs (Decidable (ok s e ∧ ∀ t ∈ next s e, Meets next ok t es))

variable {next : σ → ε → Option σ} {ok : σ → ε → Prop}

@[simp] theorem run_nil (s : σ) : run next s [] = some s := rfl

variable {es : List ε} {s t : σ} {ok' : σ → ε → Prop} {Inv : σ → Prop}

theorem run_cons_eq_some {e : ε} :
    run next s (e :: es) = some t ↔ ∃ u, next s e = some u ∧ run next u es = some t := by
  rw [run, Option.bind_eq_some_iff]

/-- A run in two parts. -/
theorem run_append (es es' : List ε) (s : σ) :
    run next s (es ++ es') = (run next s es).bind fun t => run next t es' := by
  induction es generalizing s with
  | nil => simp
  | cons e es ih =>
    rw [List.cons_append, run, run, Option.bind_assoc]
    simp only [ih]

/-- **The invariant rule.**  The condition may be used at every step. -/
theorem run_invariant {Inv : σ → Prop}
    (hstep : ∀ s e t, Inv s → ok s e → next s e = some t → Inv t) :
    ∀ (es : List ε) (s t : σ), Inv s → Meets next ok s es → run next s es = some t → Inv t := by
  intro es
  induction es with
  | nil =>
    intro s t hs _ hrun
    exact Option.some.inj hrun ▸ hs
  | cons e es ih =>
    intro s t hs hmeets hrun
    obtain ⟨u, hu, hrest⟩ := run_cons_eq_some.mp hrun
    exact ih u t (hstep s e u hs hmeets.1 hu) (hmeets.2 u hu) hrest

/-- A run meets the condition that excludes nothing. -/
theorem Meets.trivial : ∀ (es : List ε) (s : σ), Meets next (fun _ _ => True) s es := by
  intro es
  induction es with
  | nil => exact fun _ => True.intro
  | cons e es ih => exact fun s => ⟨True.intro, fun t _ => ih t⟩

/-- A condition on the events alone. -/
theorem Meets.of_forall {ok : ε → Prop} :
    ∀ (es : List ε) (s : σ), (∀ e ∈ es, ok e) → Meets next (fun _ e => ok e) s es := by
  intro es
  induction es with
  | nil => exact fun _ _ => True.intro
  | cons e es ih =>
    intro s h
    exact ⟨h e List.mem_cons_self, fun t _ => ih t fun e' he' => h e' (List.mem_cons_of_mem e he')⟩

theorem Meets.and :
    ∀ {es : List ε} {s : σ}, Meets next ok s es → Meets next ok' s es →
      Meets next (fun s e => ok s e ∧ ok' s e) s es := by
  intro es
  induction es with
  | nil => exact fun _ _ => True.intro
  | cons e es ih =>
    intro s h h'
    exact ⟨⟨h.1, h'.1⟩, fun t ht => ih (h.2 t ht) (h'.2 t ht)⟩

theorem Meets.congr (h : ∀ s e, ok s e ↔ ok' s e) :
    ∀ (es : List ε) (s : σ), Meets next ok s es ↔ Meets next ok' s es := by
  intro es
  induction es with
  | nil => exact fun _ => Iff.rfl
  | cons e es ih => exact fun s => and_congr (h s e) (forall₂_congr fun t _ => ih t)

/-- The condition at the end of a run. -/
theorem Meets.last : ∀ {es : List ε} {e : ε} {s t : σ}, Meets next ok s (es ++ [e]) →
    run next s es = some t → ok t e := by
  intro es
  induction es with
  | nil =>
    intro e s t hmeets hrun
    exact Option.some.inj hrun ▸ hmeets.1
  | cons e' es ih =>
    intro e s t hmeets hrun
    obtain ⟨u, hu, hrest⟩ := run_cons_eq_some.mp hrun
    exact ih (hmeets.2 u hu) hrest

/-- A first part of a run meets what the run meets. -/
theorem Meets.initial : ∀ {done es : List ε} {s : σ}, done <+: es → Meets next ok s es →
    Meets next ok s done := by
  intro done
  induction done with
  | nil => exact fun _ _ => True.intro
  | cons e done ih =>
    intro es s hdone hmeets
    cases es with
    | nil => exact absurd (List.prefix_nil.mp hdone) (List.cons_ne_nil e done)
    | cons e' es =>
      obtain ⟨rfl, hdone'⟩ := List.cons_prefix_cons.mp hdone
      exact ⟨hmeets.1, fun t ht => ih hdone' (hmeets.2 t ht)⟩

theorem passes_invariant (hstep : ∀ s e t, Inv s → ok s e → next s e = some t → Inv t) (hs : Inv s)
    (hmeets : Meets next ok s es) (hpass : Passes next s es t) : Inv t := by
  obtain ⟨done, hdone, hrun⟩ := hpass
  exact run_invariant hstep done s t hs (hmeets.initial hdone) hrun

/-- What every invariant state that meets the condition says of the event holds along the run. -/
theorem Meets.of_invariant (hstep : ∀ s e t, Inv s → ok s e → next s e = some t → Inv t)
    (himp : ∀ s e, Inv s → ok s e → ok' s e) :
    ∀ {es : List ε} {s : σ}, Inv s → Meets next ok s es → Meets next ok' s es := by
  intro es
  induction es with
  | nil => exact fun _ _ => True.intro
  | cons e es ih =>
    intro s hs hmeets
    exact ⟨himp s e hs hmeets.1, fun t ht => ih (hstep s e t hs hmeets.1 ht) (hmeets.2 t ht)⟩

/-- The other way round: where a step into good states has met the condition, a run through good
states meets it at every step.  `asm` is what is known of the run beforehand. -/
theorem meets_of_passes {Inv Good : σ → Prop} {asm : σ → ε → Prop}
    (hstep : ∀ s e t, Inv s → asm s e → ok s e → next s e = some t → Inv t) :
    ∀ {es : List ε} {s : σ}, Inv s → Meets next asm s es → (∀ t, Passes next s es t → Good t) →
      (∀ s e, Inv s → asm s e → (∀ t, next s e = some t → Good t) → ok s e) →
      Meets next ok s es := by
  intro es
  induction es with
  | nil => exact fun _ _ _ _ => True.intro
  | cons e es ih =>
    intro s hs hasm hgood hok
    have hfirst : ∀ t, next s e = some t → Good t := fun t ht =>
      hgood t ⟨[e], by simp, run_cons_eq_some.mpr ⟨t, ht, rfl⟩⟩
    have hmeet : ok s e := hok s e hs hasm.1 hfirst
    refine ⟨hmeet, fun t ht => ?_⟩
    refine ih (hstep s e t hs hasm.1 hmeet ht) (hasm.2 t ht) (fun u hu => ?_) hok
    obtain ⟨done, hdone, hrun⟩ := hu
    exact hgood u ⟨e :: done, List.cons_prefix_cons.mpr ⟨rfl, hdone⟩,
      run_cons_eq_some.mpr ⟨t, ht, hrun⟩⟩

/-- The invariant rule for a program that never stops: if every step from an invariant state has
a next state, so has every run. -/
theorem run_total (hstep : ∀ s e, Inv s → ok s e → ∃ t, next s e = some t ∧ Inv t) :
    ∀ (es : List ε) (s : σ), Inv s → Meets next ok s es → ∃ t, run next s es = some t ∧ Inv t := by
  intro es
  induction es with
  | nil => exact fun s hs _ => ⟨s, rfl, hs⟩
  | cons e es ih =>
    intro s hs hmeets
    obtain ⟨u, hu, hinv⟩ := hstep s e hs hmeets.1
    obtain ⟨t, ht, htinv⟩ := ih u hinv (hmeets.2 u hu)
    exact ⟨t, run_cons_eq_some.mpr ⟨u, hu, ht⟩, htinv⟩

end Axle.Lib.StepRun
