import Axle.GameBoy.CpuTotal
import Axle.GameBoy.Ppu

/-!
# Interrupts of the Game Boy emulator

`InterruptController` and `GameBoy::step`.  The two registers of the controller are in the memory map,
at `0xff0f` and `0xffff`; everything else there is any memory.  A step of the machine is an
instruction (or nothing, when the processor is halted) and then, once for each of its clocks, a step
of the devices, which may request interrupts, and a step of the controller.

The controller holds a mutable borrow of the request register while it calls the processor, so a push
that writes to that register is a panic.

* `interruptStep` — `InterruptController::step`;
* `gameBoyNext` — the machine, event by event;
* `InterruptLaw` — an interrupt is taken when it should be and as it should be, and nothing is
  borrowed twice;
* `interrupts_delivered_iff` — **PROVED**: a run keeps the law exactly when no interrupt is taken
  with the stack at the request register.
-/

namespace Axle.GameBoy

open Axle.Lib.StepRun

/-! ### The controller -/

/-- The request and the enable register, and the rest of the memory. -/
structure Board (ν : Type) where
  flags : Byte
  enabled : Byte
  rest : ν

def interruptFlagRegisterAddr : Word := 0xff0f
def interruptEnableRegisterAddr : Word := 0xffff

section

variable {ν : Type} [Bus ν]

instance : Bus (Board ν) where
  read mem addr :=
    if addr = interruptEnableRegisterAddr then mem.enabled
    else if addr = interruptFlagRegisterAddr then mem.flags
    else Bus.read mem.rest addr
  write mem addr val :=
    if addr = interruptEnableRegisterAddr then { mem with enabled := val }
    else if addr = interruptFlagRegisterAddr then { mem with flags := val }
    else { mem with rest := Bus.write mem.rest addr val }

def bitIndexForInterruptType : InterruptType → ℕ
  | .vBlank => 0
  | .lcdStat => 1
  | .timer => 2
  | .serial => 3
  | .joypad => 4

def interruptTypeForBitIndex : ℕ → InterruptType
  | 0 => .vBlank
  | 1 => .lcdStat
  | 2 => .timer
  | 3 => .serial
  | _ => .joypad

def interruptVector : InterruptType → Word
  | .vBlank => 0x40
  | .lcdStat => 0x48
  | .timer => 0x50
  | .serial => 0x58
  | .joypad => 0x60

def triggerInterrupt (mem : Board ν) (intType : InterruptType) : Board ν :=
  { mem with flags := mem.flags ||| ((1 : Byte) <<< bitIndexForInterruptType intType) }

/-- A write while the request register is borrowed. -/
def writeBorrowed (mem : Board ν) (addr : Word) (val : Byte) : Except Panic (Board ν) :=
  if addr = interruptFlagRegisterAddr then .error .alreadyBorrowed
  else .ok (Bus.write mem addr val)

/-- `call_interrupt_vector`, as the controller calls it. -/
def callInterruptVector (checks : Bool) (s : Cpu (Board ν)) (intType : InterruptType) :
    Except Panic (Cpu (Board ν)) := do
  let s ← s.pushU16With writeBorrowed checks s.pc
  .ok { s with pc := interruptVector intType, isHalted := false }

/-- The request bit and the master flag are reset before the call. -/
def acknowledge (s : Cpu (Board ν)) (bitIndex : ℕ) : Cpu (Board ν) :=
  { s with
    mem := { s.mem with flags := s.mem.flags &&& ~~~((1 : Byte) <<< bitIndex) }
    ime := false }

/-- The loop over the bits of the request register. -/
def interruptLoop (checks : Bool) (s : Cpu (Board ν)) : List ℕ → Except Panic (Cpu (Board ν))
  | [] => .ok s
  | bitIndex :: rest =>
    if s.mem.flags.getLsbD bitIndex ∧ s.mem.enabled.getLsbD bitIndex then
      if !s.ime ∧ s.isHalted then .ok { s with isHalted := false }
      else
        callInterruptVector checks (acknowledge s bitIndex) (interruptTypeForBitIndex bitIndex)
    else interruptLoop checks s rest

def interruptStep (checks : Bool) (s : Cpu (Board ν)) : Except Panic (Cpu (Board ν)) :=
  if !s.ime ∧ !s.isHalted then .ok s else interruptLoop checks s (List.range 5)

/-! ### The machine -/

/-- The processor with its memory, and the clocks that its last instruction still takes. -/
structure Machine (ν : Type) where
  cpu : Cpu (Board ν)
  clocks : ℕ

/-- What the devices do in one clock: the interrupts they request and what becomes of the rest of
the memory, which they may read in full. -/
structure Devices (ν : Type) where
  requests : List InterruptType
  update : Board ν → ν

inductive GameBoyEvent (ν : Type) where
  | instruction
  | clock (devices : Devices ν)

/-- The processor as the controller finds it. -/
def Devices.step (devices : Devices ν) (s : Cpu (Board ν)) : Cpu (Board ν) :=
  { s with
    mem := devices.requests.foldl triggerInterrupt
      { s.mem with rest := devices.update s.mem } }

def gameBoyStep (checks : Bool) (g : Machine ν) : GameBoyEvent ν → Except Panic (Machine ν)
  | .instruction =>
    if g.cpu.isHalted then .ok { g with clocks := 1 }
    else do
      let (cpu, info) ← g.cpu.step checks
      .ok ⟨cpu, info.cycleCount⟩
  | .clock devices => do
    let cpu ← interruptStep checks (devices.step g.cpu)
    .ok ⟨cpu, g.clocks - 1⟩

/-- An instruction follows the last clock of the one before. -/
def Machine.Turn (g : Machine ν) : GameBoyEvent ν → Prop
  | .instruction => g.clocks = 0
  | .clock _ => 0 < g.clocks

instance (g : Machine ν) (e : GameBoyEvent ν) : Decidable (g.Turn e) := by
  cases e
  · exact inferInstanceAs (Decidable (g.clocks = 0))
  · exact inferInstanceAs (Decidable (0 < g.clocks))

def gameBoyNext (checks : Bool) (g : Machine ν) (e : GameBoyEvent ν) : Option (Machine ν) :=
  if g.Turn e then (gameBoyStep checks g e).toOption else none

/-! ### The law -/

/-- Requested and enabled. -/
def Pending (s : Cpu (Board ν)) (bitIndex : ℕ) : Prop :=
  bitIndex < 5 ∧ s.mem.flags.getLsbD bitIndex = true ∧ s.mem.enabled.getLsbD bitIndex = true

/-- The interrupt `bitIndex` is taken between `s` and `t`. -/
structure Dispatched (s t : Cpu (Board ν)) (bitIndex : ℕ) : Prop where
  master : s.ime = true
  pending : Pending s bitIndex
  lowest : ∀ lower < bitIndex, ¬Pending s lower
  requests : ∀ i, t.mem.flags.getLsbD i = (s.mem.flags.getLsbD i && decide (i ≠ bitIndex))
  disabled : t.ime = false
  resumed : t.isHalted = false
  vector : t.pc = interruptVector (interruptTypeForBitIndex bitIndex)
  stack : t.sp = s.sp - 2
  pushed : t.mem = Bus.write
    (Bus.write (acknowledge s bitIndex).mem (s.sp - 2) (s.pc.setWidth 8)) (s.sp - 1)
    ((s.pc >>> 8).setWidth 8)
  registers : (t.b, t.c, t.d, t.e, t.h, t.l, t.a, t.f) = (s.b, s.c, s.d, s.e, s.h, s.l, s.a, s.f)

/-- Either nothing is to be taken, and a halted processor goes on if anything is pending, or an
interrupt is taken. -/
inductive Delivered (s t : Cpu (Board ν)) : Prop where
  | idle (hnone : ∀ i, ¬Pending s i) (hsame : t = s)
  | masked (hmaster : s.ime = false) (hpending : ∃ i, Pending s i)
      (hresumed : t = { s with isHalted := false })
  | taken (bitIndex : ℕ) (h : Dispatched s t bitIndex)

/-- One event: nothing is borrowed twice, a halted processor runs nothing, and the controller
delivers what the devices have left. -/
def InterruptLaw (checks : Bool) (g : Machine ν) (e : GameBoyEvent ν) : Prop :=
  g.Turn e →
    gameBoyStep checks g e ≠ .error .alreadyBorrowed ∧
    ∀ t, gameBoyStep checks g e = .ok t →
      match e with
      | .instruction => g.cpu.isHalted = true → t.cpu = g.cpu
      | .clock devices => Delivered (devices.step g.cpu) t.cpu

/-- An interrupt is not taken while a push would write to the request register. -/
def StackClear (g : Machine ν) (e : GameBoyEvent ν) : Prop :=
  g.Turn e →
    match e with
    | .instruction => True
    | .clock devices =>
      g.cpu.ime = true → (∃ i, Pending (devices.step g.cpu) i) →
        g.cpu.sp ≠ 0xff10 ∧ g.cpu.sp ≠ 0xff11

/-! ### The push -/

/-- The four ways in which the push of the controller ends before its end. -/
theorem push_eq (checks : Bool) (s : Cpu (Board ν)) (val : Word) :
    s.pushU16With writeBorrowed checks val =
      if checks ∧ ¬(2 : Word).toNat ≤ s.sp.toNat then .error .overflow
      else if s.sp - 2 = interruptFlagRegisterAddr then .error .alreadyBorrowed
      else if checks ∧ ¬(s.sp - 2).toNat + (1 : Word).toNat < 2 ^ 16 then .error .overflow
      else if s.sp - 2 + 1 = interruptFlagRegisterAddr then .error .alreadyBorrowed
      else .ok
        { s with
          sp := s.sp - 2
          mem := Bus.write (Bus.write s.mem (s.sp - 2) (val.setWidth 8)) (s.sp - 2 + 1)
            ((val >>> 8).setWidth 8) } := by
  unfold Cpu.pushU16With subU16
  split_ifs with hsub hfirst hadd hsecond
  · rfl
  · simp only [writeU16With, writeBorrowed, Bind.bind, Except.bind, if_pos hfirst]
  · simp only [writeU16With, writeBorrowed, addU16, Bind.bind, Except.bind, if_neg hfirst,
      if_pos hadd]
  · simp only [writeU16With, writeBorrowed, addU16, Bind.bind, Except.bind, if_neg hfirst,
      if_neg hadd, if_pos hsecond]
  · simp only [writeU16With, writeBorrowed, addU16, Bind.bind, Except.bind, if_neg hfirst,
      if_neg hadd, if_neg hsecond]

variable {checks : Bool} {s t : Cpu (Board ν)} {val : Word}

theorem push_borrowed (h : s.pushU16With writeBorrowed checks val = .error .alreadyBorrowed) :
    s.sp = 0xff10 ∨ s.sp = 0xff11 := by
  rw [push_eq] at h
  unfold interruptFlagRegisterAddr at h
  split_ifs at h with hsub hfirst hadd hsecond
  · cases h
  · exact .inr (by bv_omega)
  · cases h
  · exact .inl (by bv_omega)

theorem push_ok (h : s.pushU16With writeBorrowed checks val = .ok t) :
    s.sp ≠ 0xff10 ∧ s.sp ≠ 0xff11 ∧
      t = { s with
        sp := s.sp - 2
        mem := Bus.write (Bus.write s.mem (s.sp - 2) (val.setWidth 8)) (s.sp - 1)
          ((val >>> 8).setWidth 8) } := by
  rw [push_eq] at h
  have hnext : s.sp - 2 + 1 = s.sp - 1 := by bv_omega
  unfold interruptFlagRegisterAddr at h
  split_ifs at h with hsub hfirst hadd hsecond
  cases h
  refine ⟨by bv_omega, by bv_omega, ?_⟩
  rw [hnext]

theorem push_at_the_register {checks : Bool} {s : Cpu (Board ν)} (val : Word)
    (h : s.sp = 0xff10 ∨ s.sp = 0xff11) :
    s.pushU16With writeBorrowed checks val = .error .alreadyBorrowed := by
  rw [push_eq]
  rcases h with h | h
  · rw [h, if_neg (by decide +revert), if_neg (by decide), if_neg (by decide +revert),
      if_pos (by decide)]
  · rw [h, if_neg (by decide +revert), if_pos (by decide)]

/-! ### One step of the controller -/

/-- What the loop does with the first bit that is requested and enabled. -/
def handleInterrupt (checks : Bool) (s : Cpu (Board ν)) (bitIndex : ℕ) :
    Except Panic (Cpu (Board ν)) :=
  if !s.ime ∧ s.isHalted then .ok { s with isHalted := false }
  else
    callInterruptVector checks (acknowledge s bitIndex) (interruptTypeForBitIndex bitIndex)

theorem interruptLoop_cases (checks : Bool) (s : Cpu (Board ν)) :
    ∀ n k, ((∀ i, k ≤ i → i < k + n →
          ¬(s.mem.flags.getLsbD i = true ∧ s.mem.enabled.getLsbD i = true)) ∧
        interruptLoop checks s (List.range' k n) = .ok s) ∨
      ∃ i, k ≤ i ∧ i < k + n ∧ (s.mem.flags.getLsbD i = true ∧ s.mem.enabled.getLsbD i = true) ∧
        (∀ j, k ≤ j → j < i →
          ¬(s.mem.flags.getLsbD j = true ∧ s.mem.enabled.getLsbD j = true)) ∧
        interruptLoop checks s (List.range' k n) = handleInterrupt checks s i := by
  intro n
  induction n with
  | zero => exact fun k => .inl ⟨fun i hk hi => by omega, rfl⟩
  | succ n ih =>
    intro k
    rw [List.range'_succ, interruptLoop]
    split_ifs with hpending hresume
    · exact .inr ⟨k, le_refl k, by omega, hpending, fun j hk hj => by omega,
        by rw [handleInterrupt, if_pos hresume]⟩
    · exact .inr ⟨k, le_refl k, by omega, hpending, fun j hk hj => by omega,
        by rw [handleInterrupt, if_neg hresume]⟩
    · rcases ih (k + 1) with ⟨hnone, heq⟩ | ⟨i, hki, hi, hpend, hlow, heq⟩
      · refine .inl ⟨fun i hk hi => ?_, heq⟩
        rcases Nat.eq_or_lt_of_le hk with rfl | hlt
        · exact hpending
        · exact hnone i hlt (by omega)
      · refine .inr ⟨i, by omega, by omega, hpend, fun j hk hj => ?_, heq⟩
        rcases Nat.eq_or_lt_of_le hk with rfl | hlt
        · exact hpending
        · exact hlow j hlt hj

/-- **The controller**: it does nothing, resumes the processor, or handles the lowest interrupt. -/
theorem interruptStep_cases (checks : Bool) (s : Cpu (Board ν)) :
    ((∀ i, ¬Pending s i) ∧ interruptStep checks s = .ok s) ∨
    (s.ime = false ∧ (∃ i, Pending s i) ∧
      interruptStep checks s = .ok { s with isHalted := false }) ∨
    (s.ime = true ∧ ∃ i, Pending s i ∧ (∀ j < i, ¬Pending s j) ∧
      interruptStep checks s = handleInterrupt checks s i) := by
  by_cases hoff : s.ime = false ∧ s.isHalted = false
  · have hstep : interruptStep checks s = .ok s := by
      rw [interruptStep, if_pos (by simp [hoff.1, hoff.2])]
    by_cases hany : ∃ i, Pending s i
    · refine .inr (.inl ⟨hoff.1, hany, hstep.trans ?_⟩)
      rw [← hoff.2]
    · exact .inl ⟨fun i hi => hany ⟨i, hi⟩, hstep⟩
  · have hstep : interruptStep checks s = interruptLoop checks s (List.range' 0 5) := by
      rw [interruptStep, if_neg (by simpa using hoff), List.range_eq_range']
    rw [hstep]
    rcases interruptLoop_cases checks s 5 0 with ⟨hnone, heq⟩ | ⟨i, -, hi, hpend, hlow, heq⟩
    · exact .inl ⟨fun i h => hnone i (Nat.zero_le i) (by have := h.1; omega) h.2, heq⟩
    · have hfirst : Pending s i := ⟨by omega, hpend⟩
      cases hime : s.ime with
      | false =>
        refine .inr (.inl ⟨rfl, ⟨i, hfirst⟩, heq.trans ?_⟩)
        have hhalted : s.isHalted = true := by
          cases h : s.isHalted with
          | true => rfl
          | false => exact absurd ⟨hime, h⟩ hoff
        rw [handleInterrupt, if_pos (by simp [hime, hhalted]), hime]
      | true =>
        exact .inr (.inr ⟨rfl, i, hfirst, fun j hj h => hlow j (Nat.zero_le j) hj h.2, heq⟩)

theorem getLsbD_clear (flags : Byte) (bitIndex i : ℕ) :
    (flags &&& ~~~((1 : Byte) <<< bitIndex)).getLsbD i
      = (flags.getLsbD i && decide (i ≠ bitIndex)) := by
  by_cases hi : i < 8
  · rw [BitVec.getLsbD_and, BitVec.getLsbD_not, BitVec.getLsbD_shiftLeft]
    have hone : (1 : Byte).getLsbD (i - bitIndex) = decide (i - bitIndex = 0) := by
      simp
    simp only [hi, decide_true, Bool.true_and]
    by_cases hlt : i < bitIndex
    · simp [hlt, Nat.ne_of_lt hlt]
    · by_cases heq : i = bitIndex
      · simp [heq]
      · simp [hlt, heq]
        omega
  · rw [BitVec.getLsbD_of_ge _ _ (Nat.le_of_not_lt hi), BitVec.getLsbD_of_ge _ _ (Nat.le_of_not_lt hi)]
    rfl

theorem flags_write (mem : Board ν) {addr : Word} (val : Byte)
    (haddr : addr ≠ interruptFlagRegisterAddr) : (Bus.write mem addr val).flags = mem.flags := by
  show (ite _ _ _ : Board ν).flags = _
  split_ifs
  · rfl
  · rfl

theorem flags_pushed {sp : Word} (hlast : sp ≠ 0xff10) (hfirst : sp ≠ 0xff11) (mem : Board ν)
    (low high : Byte) :
    (Bus.write (Bus.write mem (sp - 2) low) (sp - 1) high).flags = mem.flags := by
  have htop : sp - 1 ≠ interruptFlagRegisterAddr := by
    unfold interruptFlagRegisterAddr
    bv_omega
  have hbottom : sp - 2 ≠ interruptFlagRegisterAddr := by
    unfold interruptFlagRegisterAddr
    bv_omega
  rw [flags_write _ high htop, flags_write _ low hbottom]

theorem handleInterrupt_taken {i : ℕ} (hime : s.ime = true) (hpending : Pending s i)
    (hlow : ∀ j < i, ¬Pending s j) (h : handleInterrupt checks s i = .ok t) : Dispatched s t i := by
  rw [handleInterrupt, if_neg (by simp [hime]), callInterruptVector] at h
  cases hpush : (acknowledge s i).pushU16With writeBorrowed checks (acknowledge s i).pc with
  | error e =>
    rw [hpush] at h
    cases h
  | ok u =>
    rw [hpush] at h
    obtain ⟨hlast, hfirst, rfl⟩ := push_ok hpush
    cases h
    refine ⟨hime, hpending, hlow, fun j => ?_, rfl, rfl, rfl, rfl, rfl, rfl⟩
    show (Bus.write (Bus.write (acknowledge s i).mem (s.sp - 2) _) (s.sp - 1) _).flags.getLsbD j = _
    rw [@flags_pushed _ _ s.sp hlast hfirst]
    exact getLsbD_clear s.mem.flags i j

theorem handleInterrupt_borrowed {checks : Bool} {s : Cpu (Board ν)} {i : ℕ} (hime : s.ime = true) :
    handleInterrupt checks s i = .error .alreadyBorrowed ↔ s.sp = 0xff10 ∨ s.sp = 0xff11 := by
  rw [handleInterrupt, if_neg (by simp [hime]), callInterruptVector]
  constructor
  · intro h
    cases hpush : (acknowledge s i).pushU16With writeBorrowed checks (acknowledge s i).pc with
    | error e =>
      rw [hpush] at h
      cases h
      exact push_borrowed (s := acknowledge s i) hpush
    | ok u =>
      rw [hpush] at h
      cases h
  · intro h
    rw [push_at_the_register (s := acknowledge s i) _ h]
    rfl

/-! ### Runs of the machine -/

/-- **One event**: the law is kept exactly when the stack is clear. -/
theorem interruptLaw_iff (checks : Bool) (g : Machine ν) (e : GameBoyEvent ν) :
    InterruptLaw checks g e ↔ StackClear g e := by
  refine forall_congr' fun _ => ?_
  cases e with
  | instruction =>
    refine iff_of_true ⟨fun herror => ?_, fun t ht hhalted => ?_⟩ True.intro
    · rw [gameBoyStep] at herror
      split_ifs at herror with hhalted
      obtain ⟨u, hu⟩ := g.cpu.step_computes
      cases hstep : g.cpu.step checks with
      | ok r =>
        rw [hstep] at herror
        cases herror
      | error e =>
        rw [hstep] at herror
        cases herror
        exact absurd (hu.error_eq hstep) (by decide)
    · rw [gameBoyStep, if_pos hhalted] at ht
      cases ht
      rfl
  | clock devices =>
    have hime : (devices.step g.cpu).ime = g.cpu.ime := rfl
    have hsp : (devices.step g.cpu).sp = g.cpu.sp := rfl
    rw [gameBoyStep]
    rcases interruptStep_cases checks (devices.step g.cpu) with
      ⟨hnone, hstep⟩ | ⟨hmasked, hany, hstep⟩ | ⟨hmaster, i, hpending, hlow, hstep⟩
    · rw [hstep]
      refine iff_of_true ⟨fun herror => ?_, fun t ht => ?_⟩ fun _ ⟨i, hi⟩ => absurd hi (hnone i)
      · cases herror
      · cases ht
        exact .idle hnone rfl
    · rw [hstep]
      refine iff_of_true ⟨fun herror => ?_, fun t ht => ?_⟩ fun hon _ => ?_
      · cases herror
      · cases ht
        exact .masked hmasked hany rfl
      · rw [← hime, hmasked] at hon
        cases hon
    · rw [hstep]
      constructor
      · rintro ⟨hno, -⟩ - -
        by_contra hbad
        have hborrowed := (@handleInterrupt_borrowed _ _ checks _ i hmaster).mpr
          (by tauto)
        rw [hborrowed] at hno
        exact hno rfl
      · intro hclear
        obtain ⟨hlast, hfirst⟩ := hclear (hime ▸ hmaster) ⟨i, hpending⟩
        refine ⟨fun herror => ?_, fun t ht => ?_⟩
        · cases hhandle : handleInterrupt checks (devices.step g.cpu) i with
          | ok cpu =>
            rw [hhandle] at herror
            cases herror
          | error e =>
            rw [hhandle] at herror
            cases herror
            rcases (handleInterrupt_borrowed hmaster).mp hhandle with h | h
            · exact hlast h
            · exact hfirst h
        · cases hhandle : handleInterrupt checks (devices.step g.cpu) i with
          | ok cpu =>
            rw [hhandle] at ht
            cases ht
            exact .taken i (handleInterrupt_taken hmaster hpending hlow hhandle)
          | error e =>
            rw [hhandle] at ht
            cases ht

/-- **When interrupts are delivered.**  For every program, every memory, every state to start from
and all that the devices may do. -/
theorem interrupts_delivered_iff (checks : Bool) (g : Machine ν) (es : List (GameBoyEvent ν)) :
    Meets (gameBoyNext checks) (InterruptLaw checks) g es ↔
      Meets (gameBoyNext checks) StackClear g es :=
  Meets.congr (interruptLaw_iff checks) es g

end

/-- `LD SP, 0xff10`, `LD A, 1` and `LDH (0xff), A`, which enables the vertical blank. -/
def stackProgram : Memory := fun addr =>
  match addr.toNat with
  | 0xc000 => 0x31
  | 0xc001 => 0x10
  | 0xc002 => 0xff
  | 0xc003 => 0x3e
  | 0xc004 => 0x01
  | 0xc005 => 0xe0
  | 0xc006 => 0xff
  | _ => 0

def stackMachine : Machine Memory :=
  ⟨⟨0, 0, 0, 0, 0, 0, 0, 0, 0, 0xc000, false, true, ⟨0, 0, stackProgram⟩⟩, 0⟩

/-- A clock in which the devices request interrupts and leave the memory alone. -/
def plainClock (requests : List InterruptType) : GameBoyEvent Memory :=
  .clock ⟨requests, fun mem => mem.rest⟩

/-- The three instructions with their clocks, up to the first clock of the last. -/
def stackRun : List (GameBoyEvent Memory) :=
  [.instruction, plainClock [], plainClock [], plainClock [], .instruction, plainClock [],
    plainClock [], .instruction]

/-- The vertical blank, requested right after that, is the end of the emulator. -/
theorem stack_at_the_register :
    ∃ g, run (gameBoyNext true) stackMachine stackRun = some g ∧ g.cpu.sp = 0xff10 ∧
      gameBoyStep true g (plainClock [.vBlank]) = .error .alreadyBorrowed ∧
      ¬Meets (gameBoyNext true) (InterruptLaw true) stackMachine
        (stackRun ++ [plainClock [.vBlank]]) := by
  have hrun : ∃ g, run (gameBoyNext true) stackMachine stackRun = some g ∧ g.cpu.sp = 0xff10 ∧
      g.Turn (plainClock [.vBlank]) ∧
      gameBoyStep true g (plainClock [.vBlank]) = .error .alreadyBorrowed :=
    ⟨_, rfl, rfl, by decide, rfl⟩
  obtain ⟨g, hg, hsp, hturn, herror⟩ := hrun
  exact ⟨g, hg, hsp, herror, fun hmeets => (hmeets.last hg hturn).1 herror⟩

end Axle.GameBoy
