import Axle.GameBoy.Cpu

/-!
# Which instructions run in which states

Every plain `+` and `-` of `decode` and `step` is on an address, and each arm has only a few of them:
the bytes behind the opcode, the stack, `HL` when it moves on, and the next program counter.  The
rule of sequencing for checked programs adds their conditions up.

* `Op.Fits` — the conditions of the arms;
* `execute_computes` — **PROVED**: for every opcode and every state, what an arm gives and when;
* `Runs` — the instruction and the next program counter fit, and the opcode is known;
* `cpu_total_iff` — **PROVED**: over flat memory a step has no overflow, agrees with arithmetic
  modulo `2 ^ 16` and takes a cycle exactly then.
-/

namespace Axle.GameBoy

open Axle.Lib.Checked

namespace Cpu

variable {μ : Type} [Bus μ]

/-! ### Conditions -/

/-- The byte behind the opcode. -/
def immediate8 (s : Cpu μ) : Byte := Bus.read s.mem (s.pc + 1)

/-- The word behind the opcode. -/
def immediate16 (s : Cpu μ) : Word := Bus.read s.mem (s.pc + 1 + 1) ++ Bus.read s.mem (s.pc + 1)

/-- The program counter plus two and a signed byte, on `i16`. -/
def JumpFits (s : Cpu μ) : Prop :=
  s.pc.toNat + 2 < 2 ^ 16 ∧
    -2 ^ 15 ≤ (s.pc + 2).toInt + (s.immediate8.signExtend 16).toInt ∧
    (s.pc + 2).toInt + (s.immediate8.signExtend 16).toInt < 2 ^ 15

/-- The stack pointer plus a signed byte. -/
def OffsetFits (s : Cpu μ) : Prop :=
  if 0 < s.immediate8.toInt then s.sp.toNat + s.immediate8.toNat < 2 ^ 16
  else s.immediate8 ≠ 0x80 ∧
    ((if s.immediate8.msb then -s.immediate8 else s.immediate8).signExtend 16).toNat ≤ s.sp.toNat

/-- A register pair that moves on does not leave the address space. -/
def MovesWithin (s : Cpu μ) (p : RegPair) : AddressingMode → Prop
  | .deref => True
  | .derefThenIncrement => (s.readPair p).toNat + 1 < 2 ^ 16
  | .derefThenDecrement => 1 ≤ (s.readPair p).toNat

/-- The address arithmetic of an arm fits. -/
def Fits (s : Cpu μ) : Op → Prop
  | .jr => s.JumpFits
  | .jrCond cond => s.isFlagConditionMet cond = true → s.JumpFits
  | .jp | .jpCond _ | .ld16Imm _ | .ldAbs _ => s.pc.toNat + 2 < 2 ^ 16
  | .call => s.pc.toNat + 3 < 2 ^ 16 ∧ 2 ≤ s.sp.toNat
  | .callCond cond => s.pc.toNat + 2 < 2 ^ 16 ∧
      (s.isFlagConditionMet cond = true → s.pc.toNat + 3 < 2 ^ 16 ∧ 2 ≤ s.sp.toNat)
  | .rst _ => s.pc.toNat + 1 < 2 ^ 16 ∧ 2 ≤ s.sp.toNat
  | .push _ => 2 ≤ s.sp.toNat
  | .ret | .reti | .pop _ => s.sp.toNat + 2 < 2 ^ 16
  | .retCond cond => s.isFlagConditionMet cond = true → s.sp.toNat + 2 < 2 ^ 16
  | .ldPtrSp => s.pc.toNat + 2 < 2 ^ 16 ∧ s.immediate16.toNat + 1 < 2 ^ 16
  | .addSp | .ldHlSp => s.pc.toNat + 1 < 2 ^ 16 ∧ s.OffsetFits
  | .cbPrefixed | .aluImm _ | .ld8Imm _ | .ldHigh _ => s.pc.toNat + 1 < 2 ^ 16
  | .ldMemA p mode | .ldAMem p mode => s.MovesWithin p mode
  | _ => True

/-- The size and the cycles of an arm, and whether it sets the program counter itself. -/
def info (s : Cpu μ) : Op → InstrInfo
  | .jr => .jump 2 3
  | .halt => .seq 1 4
  | .jp => .jump 3 4
  | .call => .jump 3 6
  | .ret | .reti | .rst _ => .jump 1 4
  | .jpHl => .jump 1 1
  | .ldPtrSp => .seq 3 5
  | .addSp => .seq 2 4
  | .ldHlSp | .ldHigh _ => .seq 2 3
  | .cbPrefixed | .aluImm _ | .ld8Imm _ => .seq 2 2
  | .ld16Imm _ => .seq 3 3
  | .ld8 _ src => .seq 1 (if src = .derefHl then 2 else 1)
  | .ldSpHl | .ldMemA _ _ | .ldAMem _ _ | .ldHighC _ | .inc16 _ | .dec16 _ | .addHl _ => .seq 1 2
  | .push _ => .seq 1 4
  | .pop _ => .seq 1 3
  | .ldAbs _ => .seq 3 4
  | .jrCond cond => if s.isFlagConditionMet cond then .jump 2 3 else .seq 2 2
  | .retCond cond => if s.isFlagConditionMet cond then .jump 1 5 else .seq 1 2
  | .jpCond cond => if s.isFlagConditionMet cond then .jump 3 4 else .seq 3 3
  | .callCond cond => if s.isFlagConditionMet cond then .jump 3 6 else .seq 3 3
  | .unimplemented => .seq 0 0
  | _ => .seq 1 1

/-! ### The operations -/

theorem addU16_computes (a b : Word) :
    Computes Panic.overflow (fun checks => addU16 checks a b) (a.toNat + b.toNat < 2 ^ 16) (a + b) :=
  Computes.guard _

theorem subU16_computes (a b : Word) :
    Computes Panic.overflow (fun checks => subU16 checks a b) (b.toNat ≤ a.toNat) (a - b) :=
  Computes.guard _

theorem addI16_computes (a b : Word) :
    Computes Panic.overflow (fun checks => addI16 checks a b)
      (-2 ^ 15 ≤ a.toInt + b.toInt ∧ a.toInt + b.toInt < 2 ^ 15) (a + b) := Computes.guard _

theorem absI8_computes (a : Byte) :
    Computes Panic.overflow (fun checks => absI8 checks a) (a ≠ 0x80) (if a.msb then -a else a) :=
  Computes.guard _

theorem readU16_computes (mem : μ) (addr : Word) :
    Computes Panic.overflow (fun checks => readU16 checks mem addr) (addr.toNat + 1 < 2 ^ 16)
      (Bus.read mem (addr + 1) ++ Bus.read mem addr) := by
  exact Computes.last (addU16_computes addr 1) fun _ => rfl

theorem writeU16_computes (mem : μ) (addr val : Word) :
    ∃ mem', Computes Panic.overflow (fun checks => writeU16With writeByte checks mem addr val)
      (addr.toNat + 1 < 2 ^ 16) mem' := by
  refine ⟨_, Computes.of_iff
    (Computes.bind (Computes.pure _) (Computes.bind (addU16_computes addr 1) (Computes.pure _))) ?_⟩
  simp

theorem pushU16_computes (s : Cpu μ) (val : Word) :
    ∃ t, Computes Panic.overflow (fun checks => s.pushU16 checks val) (2 ≤ s.sp.toNat) t := by
  obtain ⟨mem, hmem⟩ := writeU16_computes s.mem (s.sp - 2) val
  refine ⟨_, Computes.of_iff
    (Computes.bind (subU16_computes s.sp 2) (Computes.bind hmem (Computes.pure _))) ?_⟩
  rw [and_true]
  exact ⟨fun h => ⟨h, by bv_omega⟩, And.left⟩

theorem popU16_computes (s : Cpu μ) :
    Computes Panic.overflow (fun checks => s.popU16 checks) (s.sp.toNat + 2 < 2 ^ 16)
      ({ s with sp := s.sp + 2 }, Bus.read s.mem (s.sp + 1) ++ Bus.read s.mem s.sp) := by
  refine Computes.of_iff (Computes.bind (readU16_computes s.mem s.sp)
    (Computes.bind (addU16_computes s.sp 2) (Computes.pure _))) ?_
  rw [and_true]
  exact ⟨fun h => ⟨by omega, h⟩, And.right⟩

theorem readImm8_computes (s : Cpu μ) :
    Computes Panic.overflow (fun checks => s.readImm8 checks) (s.pc.toNat + 1 < 2 ^ 16)
      s.immediate8 := by
  refine Computes.of_iff (Computes.bind (addU16_computes s.pc 1) (Computes.pure _)) ?_
  simp

theorem readImm16_computes (s : Cpu μ) :
    Computes Panic.overflow (fun checks => s.readImm16 checks) (s.pc.toNat + 2 < 2 ^ 16)
      s.immediate16 := by
  refine Computes.of_iff
    (Computes.bind (addU16_computes s.pc 1) (readU16_computes s.mem (s.pc + 1))) ?_
  bv_omega

theorem callAddr_computes (s : Cpu μ) {size : ℕ} (hsize : size < 2 ^ 16) (target : Word) :
    ∃ t, Computes Panic.overflow (fun checks => s.callAddr checks size target)
      (s.pc.toNat + size < 2 ^ 16 ∧ 2 ≤ s.sp.toNat) t := by
  obtain ⟨t, ht⟩ := s.pushU16_computes (s.pc + BitVec.ofNat 16 size)
  refine ⟨_, Computes.of_iff (Computes.bind (addU16_computes s.pc (BitVec.ofNat 16 size))
    (Computes.bind ht (Computes.pure _))) ?_⟩
  rw [BitVec.toNat_ofNat, Nat.mod_eq_of_lt hsize, and_true]

omit [Bus μ] in
theorem jumpRelative_computes (s : Cpu μ) (relTarget : Byte) :
    ∃ t, Computes Panic.overflow (fun checks => s.jumpRelative checks relTarget)
      (s.pc.toNat + 2 < 2 ^ 16 ∧ -2 ^ 15 ≤ (s.pc + 2).toInt + (relTarget.signExtend 16).toInt ∧
        (s.pc + 2).toInt + (relTarget.signExtend 16).toInt < 2 ^ 15) t := by
  refine ⟨_, Computes.of_iff (Computes.bind (addU16_computes s.pc 2)
    (Computes.bind (addI16_computes (s.pc + 2) (relTarget.signExtend 16)) (Computes.pure _))) ?_⟩
  rw [and_true]
  rfl

theorem offsetSp_computes (s : Cpu μ) :
    ∃ v, Computes Panic.overflow (fun checks => s.offsetSp checks s.immediate8) s.OffsetFits v := by
  unfold offsetSp OffsetFits
  by_cases hpos : 0 < s.immediate8.toInt
  · simp only [if_pos hpos]
    refine ⟨_, (addU16_computes s.sp (s.immediate8.setWidth 16)).of_iff ?_⟩
    rw [BitVec.toNat_setWidth]
    omega
  · simp only [if_neg hpos]
    exact ⟨_, Computes.bind (absI8_computes s.immediate8) (subU16_computes s.sp _)⟩

theorem writeU8WithMode_computes (s : Cpu μ) (p : RegPair) (mode : AddressingMode) (val : Byte) :
    ∃ t, Computes Panic.overflow (fun checks => s.writeU8WithMode checks p mode val)
      (s.MovesWithin p mode) t := by
  cases mode with
  | deref => exact ⟨_, Computes.pure _⟩
  | derefThenIncrement =>
    refine ⟨_, Computes.of_iff
      (Computes.bind (addU16_computes (s.readPair p) 1) (Computes.pure _)) ?_⟩
    simp [MovesWithin]
  | derefThenDecrement =>
    refine ⟨_, Computes.of_iff
      (Computes.bind (subU16_computes (s.readPair p) 1) (Computes.pure _)) ?_⟩
    simp [MovesWithin]

theorem readU8WithMode_computes (s : Cpu μ) (p : RegPair) (mode : AddressingMode) :
    ∃ t, Computes Panic.overflow (fun checks => s.readU8WithMode checks p mode)
      (s.MovesWithin p mode) t := by
  cases mode with
  | deref => exact ⟨_, Computes.pure _⟩
  | derefThenIncrement =>
    refine ⟨_, Computes.of_iff
      (Computes.bind (addU16_computes (s.readPair p) 1) (Computes.pure _)) ?_⟩
    simp [MovesWithin]
  | derefThenDecrement =>
    refine ⟨_, Computes.of_iff
      (Computes.bind (subU16_computes (s.readPair p) 1) (Computes.pure _)) ?_⟩
    simp [MovesWithin]

/-! ### The arms -/

theorem decodeCbPrefixedInstr_cycles (s : Cpu μ) (instructionByte : Byte) :
    (s.decodeCbPrefixedInstr instructionByte).2 = 2 := by
  unfold decodeCbPrefixedInstr
  dsimp only
  split
  · rfl
  · rfl
  · rfl
  · split <;> rfl

/-- `0xff00` plus a byte is an address. -/
theorem highAddr_fits (off : Byte) : (0xff00 : Word).toNat + (off.setWidth 16).toNat < 2 ^ 16 := by
  rw [BitVec.toNat_setWidth]
  have htop : (0xff00 : Word).toNat = 0xff00 := rfl
  omega

/-- **The arms of `decode`**, one by one. -/
theorem execute_computes (s : Cpu μ) (op : Op) :
    ∃ t, Computes Panic.overflow (fun checks => s.execute checks op) (s.Fits op) (t, s.info op) := by
  cases op with
  | jr =>
    obtain ⟨t, ht⟩ := s.jumpRelative_computes s.immediate8
    refine ⟨t, Computes.of_iff
      (Computes.bind s.readImm8_computes (Computes.last ht fun _ => rfl)) ?_⟩
    exact ⟨fun h => ⟨by have := h.1; omega, h⟩, And.right⟩
  | jrCond cond =>
    by_cases hmet : s.isFlagConditionMet cond = true
    · obtain ⟨t, ht⟩ := s.jumpRelative_computes s.immediate8
      simp only [execute, Fits, info, if_pos hmet]
      refine ⟨t, Computes.of_iff
      (Computes.bind s.readImm8_computes (Computes.last ht fun _ => rfl)) ?_⟩
      exact ⟨fun h => ⟨by have := (h hmet).1; omega, h hmet⟩, fun h _ => h.2⟩
    · simp only [execute, Fits, info, if_neg hmet]
      exact ⟨s, Computes.of_iff (Computes.pure _) (by simp [hmet])⟩
  | jp => exact ⟨_, Computes.last s.readImm16_computes fun _ => rfl⟩
  | jpCond cond =>
    by_cases hmet : s.isFlagConditionMet cond = true
    · simp only [execute, Fits, info, if_pos hmet]
      exact ⟨_, Computes.last s.readImm16_computes fun _ => rfl⟩
    · simp only [execute, Fits, info, if_neg hmet]
      exact ⟨_, Computes.last s.readImm16_computes fun _ => rfl⟩
  | call =>
    obtain ⟨t, ht⟩ := s.callAddr_computes (by decide : 3 < 2 ^ 16) s.immediate16
    refine ⟨t, Computes.of_iff
      (Computes.bind s.readImm16_computes (Computes.last ht fun _ => rfl)) ?_⟩
    exact ⟨fun h => ⟨by have := h.1; omega, h⟩, And.right⟩
  | callCond cond =>
    by_cases hmet : s.isFlagConditionMet cond = true
    · obtain ⟨t, ht⟩ := s.callAddr_computes (by decide : 3 < 2 ^ 16) s.immediate16
      simp only [execute, Fits, info, if_pos hmet]
      refine ⟨t, Computes.of_iff
      (Computes.bind s.readImm16_computes (Computes.last ht fun _ => rfl)) ?_⟩
      exact ⟨fun h => ⟨h.1, h.2 hmet⟩, fun h => ⟨h.1, fun _ => h.2⟩⟩
    · simp only [execute, Fits, info, if_neg hmet]
      refine ⟨s, Computes.of_iff (Computes.last s.readImm16_computes fun _ => rfl) ?_⟩
      exact ⟨And.left, fun h => ⟨h, fun hm => absurd hm hmet⟩⟩
  | rst target =>
    obtain ⟨t, ht⟩ := s.callAddr_computes (by decide : 1 < 2 ^ 16)
      (BitVec.ofNat 16 (target * 8))
    exact ⟨t, Computes.last ht fun _ => rfl⟩
  | ret =>
    exact ⟨_, Computes.last s.popU16_computes fun _ => rfl⟩
  | reti =>
    exact ⟨_, Computes.last ({ s with ime := true } : Cpu μ).popU16_computes fun _ => rfl⟩
  | retCond cond =>
    by_cases hmet : s.isFlagConditionMet cond = true
    · simp only [execute, Fits, info, if_pos hmet]
      refine ⟨_, Computes.of_iff (Computes.last s.popU16_computes fun _ => rfl) ?_⟩
      exact ⟨fun h => h hmet, fun h _ => h⟩
    · simp only [execute, Fits, info, if_neg hmet]
      exact ⟨s, Computes.of_iff (Computes.pure _) (by simp [hmet])⟩
  | push p =>
    obtain ⟨t, ht⟩ := s.pushU16_computes (s.readPair p)
    exact ⟨t, Computes.last ht fun _ => rfl⟩
  | pop p =>
    exact ⟨_, Computes.last s.popU16_computes fun _ => rfl⟩
  | ldPtrSp =>
    obtain ⟨mem, hmem⟩ := writeU16_computes s.mem s.immediate16 s.sp
    exact ⟨_, Computes.bind s.readImm16_computes (Computes.last hmem fun _ => rfl)⟩
  | addSp =>
    obtain ⟨sp, hsp⟩ := s.offsetSp_computes
    exact ⟨_, Computes.bind s.readImm8_computes (Computes.last hsp fun _ => rfl)⟩
  | ldHlSp =>
    obtain ⟨sp, hsp⟩ := s.offsetSp_computes
    exact ⟨_, Computes.bind s.readImm8_computes (Computes.last hsp fun _ => rfl)⟩
  | cbPrefixed =>
    refine ⟨(s.decodeCbPrefixedInstr s.immediate8).1,
      Computes.last s.readImm8_computes fun _ => ?_⟩
    show Except.ok _ = _
    rw [decodeCbPrefixedInstr_cycles]
    rfl
  | aluImm op =>
    exact ⟨_, Computes.last s.readImm8_computes fun _ => rfl⟩
  | ld8Imm dest => exact ⟨_, Computes.last s.readImm8_computes fun _ => rfl⟩
  | ld16Imm dest => exact ⟨_, Computes.last s.readImm16_computes fun _ => rfl⟩
  | ldMemA p mode =>
    obtain ⟨t, ht⟩ := s.writeU8WithMode_computes p mode s.a
    exact ⟨t, Computes.last ht fun _ => rfl⟩
  | ldAMem p mode =>
    obtain ⟨t, ht⟩ := s.readU8WithMode_computes p mode
    exact ⟨_, Computes.last ht fun _ => rfl⟩
  | ldHigh writeToA =>
    have hsum := highAddr_fits s.immediate8
    cases writeToA with
    | true =>
      refine ⟨_, Computes.of_iff (Computes.bind s.readImm8_computes (Computes.last
        (addU16_computes 0xff00 (s.immediate8.setWidth 16)) fun _ => rfl)) ?_⟩
      exact ⟨fun h => ⟨h, hsum⟩, And.left⟩
    | false =>
      refine ⟨_, Computes.of_iff (Computes.bind s.readImm8_computes (Computes.last
        (addU16_computes 0xff00 (s.immediate8.setWidth 16)) fun _ => rfl)) ?_⟩
      exact ⟨fun h => ⟨h, hsum⟩, And.left⟩
  | ldHighC writeToA =>
    have hsum := highAddr_fits s.c
    cases writeToA with
    | true =>
      refine ⟨_, Computes.of_iff (Computes.last
        (addU16_computes 0xff00 (s.c.setWidth 16)) fun _ => rfl) ?_⟩
      exact iff_of_true True.intro hsum
    | false =>
      refine ⟨_, Computes.of_iff (Computes.last
        (addU16_computes 0xff00 (s.c.setWidth 16)) fun _ => rfl) ?_⟩
      exact iff_of_true True.intro hsum
  | ldAbs loadIntoA =>
    cases loadIntoA with
    | true => exact ⟨_, Computes.last s.readImm16_computes fun _ => rfl⟩
    | false => exact ⟨_, Computes.last s.readImm16_computes fun _ => rfl⟩
  | _ => exact ⟨_, Computes.pure _⟩

/-! ### One step -/

/-- The opcode is known, its address arithmetic fits, and so does the next program counter. -/
structure Runs (s : Cpu μ) : Prop where
  known : decodeOp (Bus.read s.mem s.pc) ≠ .unimplemented
  fits : s.Fits (decodeOp (Bus.read s.mem s.pc))
  next : ∀ n, (s.info (decodeOp (Bus.read s.mem s.pc))).pcIncrement = some n →
    s.pc.toNat + n < 2 ^ 16

/-- With the checks on a step ends without a panic, with the result of arithmetic modulo `2 ^ 16`,
and takes at least one cycle. -/
def StepLaw (s : Cpu μ) : Prop :=
  ∃ r, s.step true = .ok r ∧ s.step false = .ok r ∧ 1 ≤ r.2.cycleCount

omit [Bus μ] in
/-- An arm either sets the program counter or is followed by the next instruction. -/
theorem info_cases (s : Cpu μ) (op : Op) :
    (∃ size cycles, size < 2 ^ 16 ∧ s.info op = .seq size cycles) ∨
      ∃ size cycles, s.info op = .jump size cycles := by
  cases op with
  | jr | jp | call | ret | reti | jpHl => exact .inr ⟨_, _, rfl⟩
  | rst target => exact .inr ⟨_, _, rfl⟩
  | jrCond cond | retCond cond | jpCond cond | callCond cond =>
    simp only [info]
    split
    · exact .inr ⟨_, _, rfl⟩
    · exact .inl ⟨_, _, by decide, rfl⟩
  | _ => exact .inl ⟨_, _, by decide, rfl⟩

omit [Bus μ] in
theorem advance_computes (s t : Cpu μ) (op : Op) :
    ∃ u, Computes Panic.overflow (fun checks => advance checks s.pc (t, s.info op))
      (∀ n, (s.info op).pcIncrement = some n → s.pc.toNat + n < 2 ^ 16) (u, s.info op) := by
  rcases s.info_cases op with ⟨size, cycles, hsize, hinfo⟩ | ⟨size, cycles, hinfo⟩
  · rw [hinfo]
    refine ⟨_, Computes.of_iff (Computes.last
      (addU16_computes s.pc (BitVec.ofNat 16 size)) fun _ => rfl) ?_⟩
    rw [BitVec.toNat_ofNat, Nat.mod_eq_of_lt hsize]
    exact ⟨fun h => h size rfl, fun h n hn => Option.some.inj hn ▸ h⟩
  · rw [hinfo]
    refine ⟨t, Computes.of_iff (Computes.pure _) ?_⟩
    exact ⟨fun _ => True.intro, fun _ n hn => nomatch hn⟩

omit [Bus μ] in
theorem cycles_pos (s : Cpu μ) (op : Op) : 1 ≤ (s.info op).cycleCount ↔ op ≠ .unimplemented := by
  cases op with
  | jrCond cond | retCond cond | jpCond cond | callCond cond =>
    simp only [info]
    split <;> simp [InstrInfo.seq, InstrInfo.jump]
  | ld8 dest src =>
    simp only [info]
    split <;> simp [InstrInfo.seq]
  | _ => simp [info, InstrInfo.seq, InstrInfo.jump]

theorem step_computes (s : Cpu μ) :
    ∃ t, Computes Panic.overflow (fun checks => s.step checks)
      (s.Fits (decodeOp (Bus.read s.mem s.pc)) ∧
        ∀ n, (s.info (decodeOp (Bus.read s.mem s.pc))).pcIncrement = some n →
          s.pc.toNat + n < 2 ^ 16) (t, s.info (decodeOp (Bus.read s.mem s.pc))) := by
  obtain ⟨t, ht⟩ := s.execute_computes (decodeOp (Bus.read s.mem s.pc))
  obtain ⟨u, hu⟩ := s.advance_computes t (decodeOp (Bus.read s.mem s.pc))
  exact ⟨u, Computes.bind ht hu⟩

theorem stepLaw_iff (s : Cpu μ) : s.StepLaw ↔ s.Runs := by
  obtain ⟨t, ht⟩ := s.step_computes
  rw [StepLaw, ht.exists_ok_iff fun r => 1 ≤ r.2.cycleCount, s.cycles_pos]
  exact ⟨fun h => ⟨h.2, h.1.1, h.1.2⟩, fun h => ⟨⟨h.fits, h.next⟩, h.known⟩⟩

end Cpu

/-! ### Flat memory -/

/-- 64 KiB of RAM. -/
instance : Bus Memory where
  read mem addr := mem addr
  write mem addr val := fun a => if a = addr then val else mem a

/-- **When a step is total.**  For every contents of the registers and of a flat memory. -/
theorem cpu_total_iff (s : Cpu Memory) : s.StepLaw ↔ s.Runs := s.stepLaw_iff

/-- A processor at `pc` whose memory is the byte `op` everywhere. -/
def Cpu.filled (pc : Word) (op : Byte) : Cpu Memory :=
  ⟨0, 0, 0, 0, 0, 0, 0, 0, 0xfffe, pc, false, true, fun _ => op⟩

/-- `NOP` at the last address overflows the program counter, and the opcode `0x10` takes no cycle
and stays where it is. -/
theorem nop_at_the_top :
    (Cpu.filled 0xffff 0x00).step true = .error .overflow ∧ ¬(Cpu.filled 0xffff 0x00).StepLaw ∧
      (Cpu.filled 0xc000 0x10).step true = .ok (Cpu.filled 0xc000 0x10, .seq 0 0) ∧
      ¬(Cpu.filled 0xc000 0x10).StepLaw := by
  have hnop : (Cpu.filled 0xffff 0x00).step true = .error .overflow := rfl
  have hstop : (Cpu.filled 0xc000 0x10).step true = .ok (Cpu.filled 0xc000 0x10, .seq 0 0) := rfl
  refine ⟨hnop, fun ⟨r, hr, _⟩ => ?_, hstop, fun ⟨r, hr, _, hcycles⟩ => ?_⟩
  · cases hr
  · cases hr
    exact absurd hcycles (by decide)

end Axle.GameBoy
