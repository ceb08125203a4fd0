import Axle.GameBoy.Ppu

/-!
# The timer of the Game Boy emulator

`Timer` of `gb_emu/src/timer.rs`.  One count of all steps serves two prescalers: every 64th step
moves the divider, and every step at a multiple of a divisor that the program chooses moves the
counter.  A panic is `none`.

* `Timer.step`, `Timer.read`, `Timer.write` — the functions of the source;
* `History` — what a program knows that has seen every step and every write;
* `TimerLaw` — the four registers and the interrupts are what the history says;
* `timer_law_iff` — **PROVED**: a run keeps the law exactly when only zero is written to `TAC`.
-/

namespace Axle.GameBoy

open Axle.Lib.StepRun

structure Timer where
  divider : Byte
  counter : Byte
  modulo : Byte
  control : Byte
  tickCounter : ℕ
  timerCounterEnabled : Bool
  counterTickDivisor : ℕ
  deriving DecidableEq, Repr

/-- The registers, with their addresses. -/
inductive TimerRegister where
  | divider
  | counter
  | modulo
  | control
  deriving DecidableEq, Repr

def TimerRegister.addr : TimerRegister → BitVec 16
  | .divider => 0xff04
  | .counter => 0xff05
  | .modulo => 0xff06
  | .control => 0xff07

namespace Timer

def new : Timer := ⟨0, 0, 0, 0, 0, false, 0⟩

/-- The divisors are for 1 MHz. -/
def divisorOf (val : Byte) : ℕ :=
  match (val &&& 0b11).toNat with
  | 0b00 => 1024 / 4
  | 0b01 => 16 / 4
  | 0b10 => 64 / 4
  | _ => 256 / 4

/-- Bit 2 of the control register. -/
def enabledBy (val : Byte) : Bool := (val >>> 2) &&& 0b1 == 1

/-- `tick_counter + 1`, on `usize`. -/
def nextTick (checks : Bool) (ticks : ℕ) : Option ℕ :=
  if checks ∧ 2 ^ 64 ≤ ticks + 1 then none else some ((ticks + 1) % 2 ^ 64)

/-- One up, or the modulo and an interrupt. -/
def countUp (t : Timer) : Timer × List InterruptType :=
  if 2 ^ 8 ≤ t.counter.toNat + 1 then ({ t with counter := t.modulo }, [.timer])
  else ({ t with counter := t.counter + 1 }, [])

/-- The new timer, and the interrupts it triggers. -/
def step (checks : Bool) (t : Timer) : Option (Timer × List InterruptType) := do
  let ticks ← nextTick checks t.tickCounter
  let t := { t with tickCounter := ticks }
  let t := if ticks % 64 = 0 then { t with divider := t.divider + 1 } else t
  if t.timerCounterEnabled then
    if t.counterTickDivisor = 0 then none
    else if ticks % t.counterTickDivisor = 0 then some t.countUp
    else some (t, [])
  else some (t, [])

def read (t : Timer) (addr : BitVec 16) : Option Byte :=
  if addr = TimerRegister.divider.addr then some t.divider
  else if addr = TimerRegister.counter.addr then some t.counter
  else if addr = TimerRegister.modulo.addr then some t.modulo
  else if addr = TimerRegister.control.addr then some t.control
  else none

/-- A write to the control register goes to its two decoded copies. -/
def write (t : Timer) (addr : BitVec 16) (val : Byte) : Option Timer :=
  if addr = TimerRegister.divider.addr then some { t with divider := 0 }
  else if addr = TimerRegister.counter.addr then some { t with counter := val }
  else if addr = TimerRegister.modulo.addr then some { t with modulo := val }
  else if addr = TimerRegister.control.addr then
    some { t with timerCounterEnabled := enabledBy val, counterTickDivisor := divisorOf val }
  else none

end Timer

/-! ### Runs -/

inductive TimerEvent where
  | step
  | write (register : TimerRegister) (val : Byte)
  deriving DecidableEq, Repr

/-- The timer, and the interrupts it has requested. -/
structure TimerRun where
  timer : Timer
  requests : List InterruptType
  deriving DecidableEq, Repr

def TimerRun.start : TimerRun := ⟨Timer.new, []⟩

def timerNext (checks : Bool) (r : TimerRun) : TimerEvent → Option TimerRun
  | .step => (r.timer.step checks).map fun stepped => ⟨stepped.1, r.requests ++ stepped.2⟩
  | .write register val => (r.timer.write register.addr val).map fun t => ⟨t, r.requests⟩

/-- What a program knows that has seen all events: how many steps there were, how many when it last
wrote to the divider, what it last wrote to the modulo and to the control register, where the counter
has come to, and how often it has overflowed. -/
structure History where
  steps : ℕ
  stepsAtDivWrite : ℕ
  modulo : Byte
  control : Byte
  counter : Byte
  overflows : ℕ
  deriving DecidableEq, Repr

namespace History

def start : History := ⟨0, 0, 0, 0, 0, 0⟩

/-- A period of the divisor that was last chosen ends with the next step, and the counter is on. -/
def counts (h : History) : Prop :=
  Timer.enabledBy h.control = true ∧ Timer.divisorOf h.control ∣ h.steps + 1

instance (h : History) : Decidable h.counts := inferInstanceAs (Decidable (_ ∧ _))

/-- One advance of the counter, with the number of overflows. -/
def countOnce (modulo : Byte) (c : Byte × ℕ) : Byte × ℕ :=
  if c.1 = 255 then (modulo, c.2 + 1) else (c.1 + 1, c.2)

def next (h : History) : TimerEvent → History
  | .step =>
    let counted :=
      if h.counts then countOnce h.modulo (h.counter, h.overflows) else (h.counter, h.overflows)
    { h with steps := h.steps + 1, counter := counted.1, overflows := counted.2 }
  | .write .divider _ => { h with stepsAtDivWrite := h.steps }
  | .write .counter val => { h with counter := val }
  | .write .modulo val => { h with modulo := val }
  | .write .control val => { h with control := val }

def of (events : List TimerEvent) : History := events.foldl next start

/-- The 64-step periods that have ended since the last write to the divider. -/
def divPeriods (h : History) : ℕ := h.steps / 64 - h.stepsAtDivWrite / 64

end History

/-- What the registers read and the interrupts there were. -/
structure TimerLaw (h : History) (r : TimerRun) : Prop where
  div : r.timer.read TimerRegister.divider.addr = some (BitVec.ofNat 8 h.divPeriods)
  tima : r.timer.read TimerRegister.counter.addr = some h.counter
  interrupts : r.requests = List.replicate h.overflows .timer
  divisor : r.timer.timerCounterEnabled = true → r.timer.counterTickDivisor ≠ 0
  tma : r.timer.read TimerRegister.modulo.addr = some h.modulo
  tac : r.timer.read TimerRegister.control.addr = some h.control

/-! ### The timer follows the history -/

section Law

variable {checks : Bool} {h : History} {r r' : TimerRun} {t : Timer}

theorem Timer.divisorOf_dvd (val : Byte) : Timer.divisorOf val ∣ 2 ^ 64 := by
  unfold Timer.divisorOf
  split <;> decide

theorem Timer.divisorOf_ne_zero (val : Byte) : Timer.divisorOf val ≠ 0 := by
  intro hzero
  have hdvd := Timer.divisorOf_dvd val
  rw [hzero] at hdvd
  exact absurd hdvd (by decide)

@[simp] theorem Timer.read_divider : t.read TimerRegister.divider.addr = some t.divider := rfl

@[simp] theorem Timer.read_counter : t.read TimerRegister.counter.addr = some t.counter := rfl

@[simp] theorem Timer.read_modulo : t.read TimerRegister.modulo.addr = some t.modulo := rfl

@[simp] theorem Timer.read_control : t.read TimerRegister.control.addr = some t.control := rfl

/-- The prescalers divide the range of `usize`, so its wrapping does not disturb them. -/
theorem Timer.nextTick_eq_some {ticks steps : ℕ} (hticks : ticks = steps % 2 ^ 64) {next : ℕ}
    (h : Timer.nextTick checks ticks = some next) :
    next = (steps + 1) % 2 ^ 64 ∧ ∀ d, d ∣ 2 ^ 64 → (next % d = 0 ↔ d ∣ steps + 1) := by
  rw [Timer.nextTick] at h
  split at h
  · cases h
  · have hnext : next = (steps + 1) % 2 ^ 64 := by
      rw [← Option.some.inj h, hticks, Nat.mod_add_mod]
    refine ⟨hnext, fun d hd => ?_⟩
    rw [hnext, Nat.mod_mod_of_dvd _ hd, Nat.dvd_iff_mod_eq_zero]

/-- The invariant: what the decoded copies and the count are. -/
structure Follows (h : History) (r : TimerRun) : Prop where
  ticks : r.timer.tickCounter = h.steps % 2 ^ 64
  before : h.stepsAtDivWrite ≤ h.steps
  divider : r.timer.divider = BitVec.ofNat 8 h.divPeriods
  counter : r.timer.counter = h.counter
  modulo : r.timer.modulo = h.modulo
  enabled : r.timer.timerCounterEnabled = Timer.enabledBy h.control
  divisor : r.timer.timerCounterEnabled = true →
    r.timer.counterTickDivisor = Timer.divisorOf h.control
  requests : r.requests = List.replicate h.overflows .timer
  control : r.timer.control = 0

theorem follows_start : Follows History.start TimerRun.start := by
  constructor <;> first | rfl | exact Nat.le_refl _ | (intro hon; cases hon)

theorem History.divPeriods_step (hbefore : h.stepsAtDivWrite ≤ h.steps) :
    (h.next .step).divPeriods = h.divPeriods + if 64 ∣ h.steps + 1 then 1 else 0 := by
  show (h.steps + 1) / 64 - h.stepsAtDivWrite / 64 = h.steps / 64 - h.stepsAtDivWrite / 64 + _
  split <;> omega

/-- What a step does: to the divider, to the counter, and to nothing else. -/
theorem Timer.step_eq_some {stepped : Timer × List InterruptType}
    (h : t.step checks = some stepped) :
    ∃ ticks, Timer.nextTick checks t.tickCounter = some ticks ∧
      stepped =
        (let up : Bool := t.timerCounterEnabled && decide (ticks % t.counterTickDivisor = 0)
        let overflow : Bool := up && decide (t.counter = 255)
        ({ t with
          tickCounter := ticks
          divider := if ticks % 64 = 0 then t.divider + 1 else t.divider
          counter := if overflow then t.modulo else if up then t.counter + 1 else t.counter },
        if overflow then [.timer] else [])) := by
  obtain ⟨ticks, hticks, h⟩ := Option.bind_eq_some_iff.mp h
  have hoverflow : 2 ^ 8 ≤ t.counter.toNat + 1 ↔ t.counter = 255 := by
    rw [← BitVec.toNat_inj]
    show _ ↔ t.counter.toNat = 255
    omega
  by_cases h64 : ticks % 64 = 0 <;> cases hon : t.timerCounterEnabled <;>
    by_cases h0 : t.counterTickDivisor = 0 <;> by_cases hup : ticks % t.counterTickDivisor = 0 <;>
    by_cases hmax : t.counter = 255 <;>
    simp_all [Timer.countUp]

theorem Follows.step (hr : Follows h r) (hnext : timerNext checks r .step = some r') :
    Follows (h.next .step) r' := by
  obtain ⟨stepped, hstep, rfl⟩ := Option.map_eq_some_iff.mp hnext
  obtain ⟨ticks, hticks, rfl⟩ := Timer.step_eq_some hstep
  obtain ⟨hticks, hmultiple⟩ := Timer.nextTick_eq_some hr.ticks hticks
  have hup : (r.timer.timerCounterEnabled && decide (ticks % r.timer.counterTickDivisor = 0)) =
      decide h.counts := by
    rw [Bool.eq_iff_iff, Bool.and_eq_true, decide_eq_true_eq, decide_eq_true_eq, History.counts,
      ← hr.enabled]
    refine and_congr_right fun hon => ?_
    rw [hr.divisor hon, hmultiple _ (Timer.divisorOf_dvd _)]
  refine ⟨hticks, Nat.le_succ_of_le hr.before, ?_, ?_, hr.modulo, hr.enabled, hr.divisor, ?_,
    hr.control⟩
  · rw [History.divPeriods_step hr.before]
    show (if ticks % 64 = 0 then r.timer.divider + 1 else r.timer.divider) = _
    rw [hr.divider]
    by_cases h64 : ticks % 64 = 0
    · rw [if_pos h64, if_pos ((hmultiple 64 (by decide)).mp h64)]
      exact (BitVec.ofNat_add _ _).symm
    · rw [if_neg h64, if_neg fun hdvd => h64 ((hmultiple 64 (by decide)).mpr hdvd)]
      rfl
  · simp only [hup, hr.counter, hr.modulo, History.next, History.countOnce]
    by_cases hcounts : h.counts <;> by_cases hmax : h.counter = 255#8 <;> simp [hcounts, hmax]
  · simp only [hup, hr.counter, hr.requests, History.next, History.countOnce]
    by_cases hcounts : h.counts <;> by_cases hmax : h.counter = 255#8 <;>
      simp [hcounts, hmax, List.replicate_succ']

theorem Follows.write (hr : Follows h r) (register : TimerRegister) (val : Byte)
    (hnext : timerNext checks r (.write register val) = some r') :
    Follows (h.next (.write register val)) r' := by
  obtain ⟨ticks, before, divider, counter, modulo, enabled, divisor, requests, control⟩ := hr
  cases register with
  | divider =>
    cases hnext
    refine ⟨ticks, Nat.le_refl _, ?_, counter, modulo, enabled, divisor, requests, control⟩
    show (0 : Byte) = BitVec.ofNat 8 (h.steps / 64 - h.steps / 64)
    rw [Nat.sub_self]
    rfl
  | counter =>
    cases hnext
    exact ⟨ticks, before, divider, rfl, modulo, enabled, divisor, requests, control⟩
  | modulo =>
    cases hnext
    exact ⟨ticks, before, divider, counter, rfl, enabled, divisor, requests, control⟩
  | control =>
    cases hnext
    exact ⟨ticks, before, divider, counter, modulo, rfl, fun _ => rfl, requests, control⟩

theorem Follows.next (hr : Follows h r) {event : TimerEvent}
    (hnext : timerNext checks r event = some r') : Follows (h.next event) r' := by
  cases event with
  | step => exact hr.step hnext
  | write register val => exact hr.write register val hnext

/-- All of the law but what the control register reads. -/
theorem Follows.law_iff (hr : Follows h r) : TimerLaw h r ↔ h.control = 0 := by
  constructor
  · intro hlaw
    have htac := hlaw.tac
    rw [Timer.read_control, hr.control] at htac
    exact (Option.some.inj htac).symm
  · intro hzero
    refine ⟨?_, ?_, hr.requests, ?_, ?_, ?_⟩
    · rw [Timer.read_divider, hr.divider]
    · rw [Timer.read_counter, hr.counter]
    · intro hon
      rw [hr.divisor hon]
      exact Timer.divisorOf_ne_zero _
    · rw [Timer.read_modulo, hr.modulo]
    · rw [Timer.read_control, hr.control, hzero]

/-- After an event that a run may have, the program still expects zero in the control register. -/
theorem History.control_next (hzero : h.control = 0) {event : TimerEvent} :
    (h.next event).control = 0 ↔ ∀ val, event = .write .control val → val = 0 := by
  cases event with
  | step => exact ⟨fun _ val hval => (nomatch hval), fun _ => hzero⟩
  | write register val =>
    cases register with
    | control => exact ⟨fun hval _ heq => by cases heq; exact hval, fun hval => hval val rfl⟩
    | _ => exact ⟨fun _ val hval => (nomatch hval), fun _ => hzero⟩

theorem timer_law_from (hr : Follows h r) (hzero : h.control = 0) (events : List TimerEvent) :
    (∀ done r', done <+: events → run (timerNext checks) r done = some r' →
      TimerLaw (done.foldl History.next h) r') ↔
    Meets (timerNext checks) (fun _ event => ∀ val, event = .write .control val → val = 0) r
      events := by
  induction events generalizing h r with
  | nil =>
    refine ⟨fun _ => trivial, fun _ done r' hdone hrun => ?_⟩
    cases List.prefix_nil.mp hdone
    cases hrun
    exact hr.law_iff.mpr hzero
  | cons event events ih =>
    constructor
    · intro hlaw
      have hstep : ∀ u, timerNext checks r event = some u → (h.next event).control = 0 :=
        fun u hu => (hr.next hu).law_iff.mp
          (hlaw [event] u (List.cons_prefix_cons.mpr ⟨rfl, List.nil_prefix⟩)
            (run_cons_eq_some.mpr ⟨u, hu, rfl⟩))
      refine ⟨fun val heq => ?_, fun u hu => (ih (hr.next hu) (hstep u hu)).mp ?_⟩
      · subst heq
        exact hstep _ rfl
      · intro done r' hdone hrun
        exact hlaw (event :: done) r' (List.cons_prefix_cons.mpr ⟨rfl, hdone⟩)
          (run_cons_eq_some.mpr ⟨u, hu, hrun⟩)
    · intro hmeets done r' hdone hrun
      cases done with
      | nil =>
        cases hrun
        exact hr.law_iff.mpr hzero
      | cons event' done =>
        obtain ⟨rfl, hrestDone⟩ := List.cons_prefix_cons.mp hdone
        obtain ⟨u, hu, hrest⟩ := run_cons_eq_some.mp hrun
        exact (ih (hr.next hu) ((History.control_next hzero).mpr hmeets.1)).mpr (hmeets.2 u hu) done
          r' hrestDone hrest

theorem Follows.run (hr : Follows h r) {events : List TimerEvent}
    (hrun : run (timerNext checks) r events = some r') :
    Follows (events.foldl History.next h) r' := by
  induction events generalizing h r with
  | nil =>
    cases hrun
    exact hr
  | cons event events ih =>
    obtain ⟨u, hu, hrest⟩ := run_cons_eq_some.mp hrun
    exact ih (hr.next hu) hrest

end Law

/-- **The timer in every run (proved)**, whatever is written to its registers: the divider, the
counter, the modulo and the interrupts are what the history says, and the control register reads
zero. -/
theorem timer_follows {checks : Bool} {events : List TimerEvent} {r : TimerRun}
    (hrun : run (timerNext checks) .start events = some r) :
    r.timer.read TimerRegister.divider.addr =
        some (BitVec.ofNat 8 (History.of events).divPeriods) ∧
      r.timer.read TimerRegister.counter.addr = some (History.of events).counter ∧
      r.timer.read TimerRegister.modulo.addr = some (History.of events).modulo ∧
      r.timer.read TimerRegister.control.addr = some 0 ∧
      r.requests = List.replicate (History.of events).overflows .timer := by
  have hr := follows_start.run hrun
  refine ⟨?_, ?_, ?_, ?_, hr.requests⟩
  · rw [Timer.read_divider, hr.divider]
    rfl
  · rw [Timer.read_counter, hr.counter]
    rfl
  · rw [Timer.read_modulo, hr.modulo]
    rfl
  · rw [Timer.read_control, hr.control]

/-- **When the timer keeps its law.**  In every state of a run the four registers, the divisor and
the interrupts are what the history says, exactly when the run writes nothing but zero to the
control register: a write to it is not stored, and it always reads zero. -/
theorem timer_law_iff (checks : Bool) (events : List TimerEvent) :
    (∀ done r, done <+: events → run (timerNext checks) .start done = some r →
      TimerLaw (.of done) r) ↔
    Meets (timerNext checks) (fun _ event => ∀ val, event = .write .control val → val = 0) .start
      events :=
  timer_law_from follows_start rfl events

/-- `TAC` is written, and reads zero. -/
theorem timer_control_not_stored :
    ¬∀ done r, done <+: [TimerEvent.write .control 5] →
      run (timerNext true) .start done = some r → TimerLaw (.of done) r := by
  intro h
  have htac := (h _ _ (List.prefix_refl _) rfl).tac
  exact absurd htac (by decide)

theorem timer_follows_enabled :
    ∃ r, run (timerNext true) .start [.write .control 5, .write .modulo 9] = some r ∧
      r.timer.read TimerRegister.modulo.addr = some 9 := by
  obtain ⟨r, hrun⟩ := Option.isSome_iff_exists.mp (show
    (run (timerNext true) .start [.write .control 5, .write .modulo 9]).isSome = true by decide)
  exact ⟨r, hrun, (timer_follows hrun).2.2.1⟩

end Axle.GameBoy
