import Mathlib.Tactic.IntervalCases
import Axle.Compiler.Simulator

/-!
# Encoding and decoding instructions

`Instr::assemble`, `Instr::assembled_len` and `InstrDisassembler`, with the ModR/M byte and the REX
prefix.  The encoder and the decoder are written apart from each other: the encoder drops the width
of most operands and cuts immediates and displacements to the width of their field, and the decoder
puts a fixed width back and sign-extends.

* `Instr.assemble`, `Instr.assembledLen`, `disassemble` — the three functions; a panic is `none`;
* `Instr.Decodable` — the operands that survive the field they are written to;
* `disassemble_assemble_iff` — **PROVED**: what `assemble` emits has the length that
  `assembled_len` says and is decoded back to the same instruction, whatever bytes follow, exactly
  for those operands;
* `jne_past_127` — a `jne` that the encoder accepts and that comes back as a jump backwards.
-/

namespace Axle.Compiler

/-! ### ModR/M and REX -/

def RexPrefix.for64bitOperand : BitVec 8 := 0x48

/-- `ModRmByte::register_index`; `rip` and `rflags` have none. -/
def ModRmByte.registerIndex : Register → Option Nat
  | .rax => some 0b000
  | .rcx => some 0b001
  | .rdx => some 0b010
  | .rbx => some 0b011
  | .rsp => some 0b100
  | .rbp => some 0b101
  | .rsi => some 0b110
  | .rdi => some 0b111
  | .rip | .rflags => none

def ModRmByte.indexToRegister : BitVec 8 → Option Register
  | 0b000#8 => some .rax
  | 0b001#8 => some .rcx
  | 0b010#8 => some .rdx
  | 0b011#8 => some .rbx
  | 0b100#8 => some .rsp
  | 0b101#8 => some .rbp
  | 0b110#8 => some .rsi
  | 0b111#8 => some .rdi
  | _ => none

/-- `ModRmByte::from`, with two registers. -/
def ModRmByte.ofRegs (register register2 : Register) : Option (BitVec 8) := do
  let index ← registerIndex register
  let index2 ← registerIndex register2
  some (BitVec.ofNat 8 (0b11 <<< 6 ||| index ||| index2 <<< 3))

/-- `ModRmByte::with_opcode_extension`. -/
def ModRmByte.withOpcodeExtension (opcodeExtension : Nat) (register : RegView) :
    Option (BitVec 8) := do
  let index ← registerIndex register.reg
  some (BitVec.ofNat 8 (0b11 <<< 6 ||| opcodeExtension <<< 3 ||| index))

def ModRmByte.getOpcodeExtension (byte : BitVec 8) : BitVec 8 := byte >>> 3 &&& 0b111

def ModRmByte.getReg (byte : BitVec 8) : Option Register := indexToRegister (byte &&& 0b111)

def ModRmByte.getRegs (byte : BitVec 8) : Option (Register × Register) := do
  let register ← indexToRegister (byte &&& 0b111)
  let register2 ← indexToRegister (byte >>> 3 &&& 0b111)
  some (register, register2)

/-! ### The encoder -/

/-- `u64::to_le_bytes`. -/
def toLeBytes64 (value : BitVec 64) : List (BitVec 8) :=
  toNeBytes (value.setWidth 32) ++ toNeBytes ((value >>> 32).setWidth 32)

def Instr.assemble : Instr → Option (List (BitVec 8))
  | .pushFromReg reg => do
    let modRm ← ModRmByte.withOpcodeExtension 6 reg
    some [0xff, modRm]
  | .popIntoReg reg => do
    let modRm ← ModRmByte.withOpcodeExtension 0 reg
    some [0x8f, modRm]
  | .moveRegToReg source dest => do
    let modRm ← ModRmByte.ofRegs dest.reg source.reg
    some [RexPrefix.for64bitOperand, 0x89, modRm]
  | .moveImmToReg imm dest =>
    match dest.accessType with
    | .rx => do
      let index ← ModRmByte.registerIndex dest.reg
      some (RexPrefix.for64bitOperand :: BitVec.ofNat 8 (0xb8 + index) :: toLeBytes64 imm)
    | .ex => do
      let modRm ← ModRmByte.withOpcodeExtension 0 dest
      some (0xc7 :: modRm :: toNeBytes (imm.setWidth 32))
    | _ => none
  | .addRegToReg augend addend => do
    let modRm ← ModRmByte.ofRegs augend.reg addend.reg
    some [RexPrefix.for64bitOperand, 0x01, modRm]
  | .return => some [0xc3]
  | .compareImmWithReg imm reg =>
    if imm.toNat < 2 ^ 32 - 1 ∧ reg.accessType = .ex then do
      let modRm ← ModRmByte.withOpcodeExtension 7 reg
      some (0x81 :: modRm :: toNeBytes (imm.setWidth 32))
    else none
  | .compareRegWithReg reg1 reg2 =>
    if reg1.accessType = .rx ∧ reg2.accessType = .rx then do
      let modRm ← ModRmByte.ofRegs reg1.reg reg2.reg
      some [RexPrefix.for64bitOperand, 0x39, modRm]
    else none
  | .jumpToRelOffIfEqual relOff => some (0x0f :: 0x84 :: toNeBytes (relOff.setWidth 32))
  -- `assert!(*rel_off < (u8::MAX as isize))`
  | .jumpToRelOffIfNotEqual relOff =>
    if relOff.toInt < 255 then some [0x75, relOff.setWidth 8] else none
  | .simulatorShimGetInput => some [0x66, 0x90]
  | _ => none

def Instr.assembledLen : Instr → Option Nat
  | .pushFromReg _ | .popIntoReg _ => some 2
  | .moveRegToReg _ _ => some 3
  | .moveImmToReg _ dest =>
    match dest.accessType with
    | .rx => some 10
    | .ex => some 6
    | _ => none
  | .addRegToReg _ _ => some 3
  | .return => some 1
  | .jumpToLabelIfEqual _ => some 6
  | .jumpToLabelIfNotEqual _ => some 2
  | .compareImmWithReg _ _ => some 6
  | .compareRegWithReg _ _ => some 3
  | .jumpToRelOffIfEqual _ => some 6
  | .jumpToRelOffIfNotEqual _ => some 2
  | .simulatorShimGetInput => some 2
  | _ => none

/-! ### The decoder -/

inductive InstrContinuation where
  | seq
  | jump
  | condJump
deriving DecidableEq, Repr

structure InstrInfo where
  instr : Instr
  instrSize : Nat
  ripIncrement : Option Nat
  continuation : InstrContinuation
deriving DecidableEq, Repr

def InstrInfo.seq (instr : Instr) (instrSize : Nat) : InstrInfo :=
  ⟨instr, instrSize, some instrSize, .seq⟩

/-- The instruction changes the program counter itself. -/
def InstrInfo.jump (instr : Instr) (instrSize : Nat) : InstrInfo := ⟨instr, instrSize, none, .jump⟩

def InstrInfo.condJump (instr : Instr) (instrSize : Nat) : InstrInfo :=
  ⟨instr, instrSize, some instrSize, .condJump⟩

section Decoder

-- The bytes by offset; `none` where the provider panics.
variable (getByte : Nat → Option (BitVec 8))

def getU32 (cursor : Nat) : Option (BitVec 32) := do
  let b0 ← getByte cursor
  let b1 ← getByte (cursor + 1)
  let b2 ← getByte (cursor + 2)
  let b3 ← getByte (cursor + 3)
  some (fromNeBytes b0 b1 b2 b3)

def getU64 (cursor : Nat) : Option (BitVec 64) := do
  let low ← getU32 getByte cursor
  let high ← getU32 getByte (cursor + 4)
  some (high ++ low)

def getModrmOpcodeAndReg (cursor : Nat) (operandSize : AccessType) :
    Option (BitVec 8 × RegView) := do
  let modRmByte ← getByte cursor
  let reg ← ModRmByte.getReg modRmByte
  some (ModRmByte.getOpcodeExtension modRmByte, ⟨reg, operandSize⟩)

def getModrmRegs (cursor : Nat) (operandSize : AccessType) : Option (RegView × RegView) := do
  let modRmByte ← getByte cursor
  let regs ← ModRmByte.getRegs modRmByte
  some (⟨regs.1, operandSize⟩, ⟨regs.2, operandSize⟩)

/-- `disassemble` after the prefix; `cursor` is past the opcode. -/
def disassembleOpcode (cursor : Nat) (operandSize : AccessType) (instrByte : BitVec 8) :
    Option InstrInfo :=
  match instrByte with
  | 0x01#8 => do
    let (augend, addend) ← getModrmRegs getByte cursor operandSize
    some (.seq (.addRegToReg augend addend) (cursor + 1))
  | 0x0f#8 => do
    let nextByte ← getByte cursor
    if nextByte = 0x84 then do
      let relOff ← getU32 getByte (cursor + 1)
      some (.condJump (.jumpToRelOffIfEqual (relOff.signExtend 64)) (cursor + 5))
    else none
  | 0x66#8 => do
    let nextByte ← getByte cursor
    if nextByte = 0x90 then some (.seq .simulatorShimGetInput (cursor + 1)) else none
  | 0x75#8 => do
    let relOff ← getByte cursor
    some (.condJump (.jumpToRelOffIfNotEqual (relOff.signExtend 64)) (cursor + 1))
  | 0x81#8 => do
    let (opcodeExtension, reg) ← getModrmOpcodeAndReg getByte cursor operandSize
    if opcodeExtension = 7 ∧ operandSize = .ex then do
      let imm ← getU32 getByte (cursor + 1)
      some (.seq (.compareImmWithReg (imm.setWidth 64) reg) (cursor + 5))
    else none
  | 0x89#8 => do
    let (dst, src) ← getModrmRegs getByte cursor operandSize
    some (.seq (.moveRegToReg src dst) (cursor + 1))
  -- "Assume 64bit reg size for now"
  | 0x8f#8 => do
    let (opcodeExtension, reg) ← getModrmOpcodeAndReg getByte cursor .rx
    if opcodeExtension = 0 then some (.seq (.popIntoReg reg) (cursor + 1)) else none
  | 0xc3#8 => some (.jump .return cursor)
  | 0xc7#8 => do
    let (opcodeExtension, reg) ← getModrmOpcodeAndReg getByte cursor operandSize
    if opcodeExtension = 0 then do
      let imm ← getU32 getByte (cursor + 1)
      some (.seq (.moveImmToReg (imm.setWidth 64) reg) (cursor + 5))
    else none
  | 0x39#8 =>
    if operandSize = .rx then do
      let (reg1, reg2) ← getModrmRegs getByte cursor operandSize
      some (.seq (.compareRegWithReg reg1 reg2) (cursor + 1))
    else none
  | 0xff#8 => do
    let (opcodeExtension, reg) ← getModrmOpcodeAndReg getByte cursor .rx
    if opcodeExtension = 6 then some (.seq (.pushFromReg reg) (cursor + 1)) else none
  | instrByte =>
    -- `10111iii`
    if instrByte >>> 3 = 0b10111 ∧ operandSize = .rx then do
      let destReg ← ModRmByte.indexToRegister (instrByte &&& 0b111)
      let imm ← getU64 getByte cursor
      some (.seq (.moveImmToReg imm ⟨destReg, operandSize⟩) (cursor + 8))
    else none

/-- `InstrDisassembler::disassemble`: a REX prefix sets the operand size. -/
def disassemble : Option InstrInfo := do
  let instrByte ← getByte 0
  if instrByte = 0x48 then do
    let instrByte ← getByte 1
    disassembleOpcode getByte 2 .rx instrByte
  else disassembleOpcode getByte 1 .ex instrByte

end Decoder

/-! ### What survives -/

/-- The operands that the encoder writes in full and the decoder reads with the same width. -/
def Instr.Decodable : Instr → Prop
  | .pushFromReg reg | .popIntoReg reg => reg.accessType = .rx
  | .moveRegToReg reg1 reg2 | .addRegToReg reg1 reg2 => reg1.accessType = .rx ∧ reg2.accessType = .rx
  | .moveImmToReg imm dest => dest.accessType = .rx ∨ imm.toNat < 2 ^ 32
  | .jumpToRelOffIfEqual relOff => -2 ^ 31 ≤ relOff.toInt ∧ relOff.toInt < 2 ^ 31
  | .jumpToRelOffIfNotEqual relOff => -128 ≤ relOff.toInt ∧ relOff.toInt < 128
  | _ => True

/-! ### Fields -/

section Fields

variable {register register2 : Register} {byte : BitVec 8} {getByte : Nat → Option (BitVec 8)}
  {cursor : Nat}

theorem getRegs_ofRegs (h : ModRmByte.ofRegs register register2 = some byte) :
    ModRmByte.getRegs byte = some (register, register2) := by
  cases register <;> cases register2 <;> cases h <;> rfl

theorem getReg_withOpcodeExtension {extension : Nat} {reg : RegView} (hext : extension < 8)
    (h : ModRmByte.withOpcodeExtension extension reg = some byte) :
    ModRmByte.getReg byte = some reg.reg ∧
      ModRmByte.getOpcodeExtension byte = BitVec.ofNat 8 extension := by
  obtain ⟨register, accessType⟩ := reg
  interval_cases extension <;> cases register <;> cases h <;> exact ⟨rfl, rfl⟩

theorem getU32_toNeBytes {value : BitVec 32}
    (h : ∀ i < 4, getByte (cursor + i) = (toNeBytes value)[i]?) :
    getU32 getByte cursor = some value := by
  obtain ⟨b0, b1, b2, b3, hbytes, hvalue⟩ := fromNeBytes_toNeBytes value
  have h0 : getByte cursor = some b0 := by simpa [hbytes] using h 0 (by decide)
  have h1 : getByte (cursor + 1) = some b1 := by simpa [hbytes] using h 1 (by decide)
  have h2 : getByte (cursor + 2) = some b2 := by simpa [hbytes] using h 2 (by decide)
  have h3 : getByte (cursor + 3) = some b3 := by simpa [hbytes] using h 3 (by decide)
  simp only [getU32, h0, h1, h2, h3, Option.bind_eq_bind, Option.bind_some, hvalue]

theorem append_halves (value : BitVec 64) :
    (value >>> 32).setWidth 32 ++ value.setWidth 32 = value := by
  apply BitVec.eq_of_getLsbD_eq
  intro i hi
  rw [BitVec.getLsbD_append]
  by_cases hlow : i < 32
  · simp [hlow]
  · simp only [hlow, if_false, BitVec.getLsbD_setWidth, BitVec.getLsbD_ushiftRight]
    rw [show 32 + (i - 32) = i by omega]
    simp [show i - 32 < 32 by omega]

theorem getU64_toLeBytes64 {value : BitVec 64}
    (h : ∀ i < 8, getByte (cursor + i) = (toLeBytes64 value)[i]?) :
    getU64 getByte cursor = some value := by
  have hlow : getU32 getByte cursor = some (value.setWidth 32) := by
    apply getU32_toNeBytes
    intro i hi
    rw [h i (by omega), toLeBytes64, List.getElem?_append_left hi]
  have hhigh : getU32 getByte (cursor + 4) = some ((value >>> 32).setWidth 32) := by
    apply getU32_toNeBytes
    intro i hi
    rw [Nat.add_assoc, h (4 + i) (by omega), toLeBytes64,
      List.getElem?_append_right (Nat.le_add_right 4 i)]
    congr 1
    exact Nat.add_sub_cancel_left 4 i
  simp only [getU64, hlow, hhigh, Option.bind_eq_bind, Option.bind_some, append_halves]

end Fields

/-! ### What the decoder makes of an encoded instruction -/

/-- The instruction that comes back. -/
def Instr.decoded : Instr → Instr
  | .pushFromReg reg => .pushFromReg ⟨reg.reg, .rx⟩
  | .popIntoReg reg => .popIntoReg ⟨reg.reg, .rx⟩
  | .moveRegToReg source dest => .moveRegToReg ⟨source.reg, .rx⟩ ⟨dest.reg, .rx⟩
  | .addRegToReg augend addend => .addRegToReg ⟨augend.reg, .rx⟩ ⟨addend.reg, .rx⟩
  | .moveImmToReg imm dest =>
    .moveImmToReg (if dest.accessType = .rx then imm else (imm.setWidth 32).setWidth 64) dest
  | .compareImmWithReg imm reg => .compareImmWithReg ((imm.setWidth 32).setWidth 64) reg
  | .jumpToRelOffIfEqual relOff => .jumpToRelOffIfEqual ((relOff.setWidth 32).signExtend 64)
  | .jumpToRelOffIfNotEqual relOff => .jumpToRelOffIfNotEqual ((relOff.setWidth 8).signExtend 64)
  | i => i

section Decode

variable {i : Instr} {bytes rest : List (BitVec 8)}

/-- Decoding a four-byte field in the middle of the bytes. -/
theorem getU32_cons (l : List (BitVec 8)) (value : BitVec 32) (rest : List (BitVec 8)) :
    getU32 (fun k => (l ++ toNeBytes value ++ rest)[k]?) l.length = some value := by
  apply getU32_toNeBytes
  intro k hk
  rw [List.append_assoc, List.getElem?_append_right (Nat.le_add_right _ k),
    Nat.add_sub_cancel_left, List.getElem?_append_left hk]

theorem getU64_cons (l : List (BitVec 8)) (value : BitVec 64) (rest : List (BitVec 8)) :
    getU64 (fun k => (l ++ toLeBytes64 value ++ rest)[k]?) l.length = some value := by
  apply getU64_toLeBytes64
  intro k hk
  rw [List.append_assoc, List.getElem?_append_right (Nat.le_add_right _ k),
    Nat.add_sub_cancel_left, List.getElem?_append_left hk]

theorem disassemble_moveImmToReg {imm : BitVec 64} {dest : RegView}
    (h : (Instr.moveImmToReg imm dest).assemble = some bytes) (rest : List (BitVec 8)) :
    (Instr.moveImmToReg imm dest).assembledLen = some bytes.length ∧
      ∃ info, disassemble (fun k => (bytes ++ rest)[k]?) = some info ∧
        info.instr = (Instr.moveImmToReg imm dest).decoded ∧ info.instrSize = bytes.length := by
  obtain ⟨reg, accessType⟩ := dest
  cases accessType with
  | rx =>
    obtain ⟨index, hindex, heq⟩ := Option.bind_eq_some_iff.mp h
    cases heq
    have himm : getU64 (fun k => (0x48#8 :: BitVec.ofNat 8 (0xb8 + index) ::
        (toLeBytes64 imm ++ rest))[k]?) 2 = some imm :=
      getU64_cons [0x48, BitVec.ofNat 8 (0xb8 + index)] imm rest
    refine ⟨rfl, .seq (.moveImmToReg imm ⟨reg, .rx⟩) 10, ?_, rfl, rfl⟩
    cases reg <;> cases hindex <;> simp only [Nat.reduceAdd] at himm <;>
      simp [disassemble, disassembleOpcode, RexPrefix.for64bitOperand, himm,
        ModRmByte.indexToRegister]
  | ex =>
    obtain ⟨modRm, hmod, heq⟩ := Option.bind_eq_some_iff.mp h
    cases heq
    obtain ⟨hreg, hext⟩ := getReg_withOpcodeExtension (by decide) hmod
    have himm : getU32 (fun k => (0xc7#8 :: modRm :: (toNeBytes (imm.setWidth 32) ++ rest))[k]?) 2 =
        some (imm.setWidth 32) := getU32_cons [0xc7, modRm] (imm.setWidth 32) rest
    refine ⟨rfl, .seq (.moveImmToReg ((imm.setWidth 32).setWidth 64) ⟨reg, .ex⟩) 6, ?_, rfl, rfl⟩
    simp [disassemble, disassembleOpcode, getModrmOpcodeAndReg, hreg, hext, himm]
  | l => cases h
  | h => cases h
  | x => cases h

/-- **Every encoding is decoded**, to the instruction with its operands as the fields keep them. -/
theorem disassemble_assemble (h : i.assemble = some bytes) (rest : List (BitVec 8)) :
    i.assembledLen = some bytes.length ∧
      ∃ info, disassemble (fun k => (bytes ++ rest)[k]?) = some info ∧
        info.instr = i.decoded ∧ info.instrSize = bytes.length := by
  cases i with
  | pushFromReg reg =>
    obtain ⟨modRm, hmod, heq⟩ := Option.bind_eq_some_iff.mp h
    cases heq
    obtain ⟨hreg, hext⟩ := getReg_withOpcodeExtension (by decide) hmod
    refine ⟨rfl, .seq (.pushFromReg ⟨reg.reg, .rx⟩) 2, ?_, rfl, rfl⟩
    simp [disassemble, disassembleOpcode, getModrmOpcodeAndReg, hreg, hext]
  | popIntoReg reg =>
    obtain ⟨modRm, hmod, heq⟩ := Option.bind_eq_some_iff.mp h
    cases heq
    obtain ⟨hreg, hext⟩ := getReg_withOpcodeExtension (by decide) hmod
    refine ⟨rfl, .seq (.popIntoReg ⟨reg.reg, .rx⟩) 2, ?_, rfl, rfl⟩
    simp [disassemble, disassembleOpcode, getModrmOpcodeAndReg, hreg, hext]
  | moveRegToReg source dest =>
    obtain ⟨modRm, hmod, heq⟩ := Option.bind_eq_some_iff.mp h
    cases heq
    refine ⟨rfl, .seq (.moveRegToReg ⟨source.reg, .rx⟩ ⟨dest.reg, .rx⟩) 3, ?_, rfl, rfl⟩
    simp [disassemble, disassembleOpcode, getModrmRegs, RexPrefix.for64bitOperand,
      getRegs_ofRegs hmod]
  | addRegToReg augend addend =>
    obtain ⟨modRm, hmod, heq⟩ := Option.bind_eq_some_iff.mp h
    cases heq
    refine ⟨rfl, .seq (.addRegToReg ⟨augend.reg, .rx⟩ ⟨addend.reg, .rx⟩) 3, ?_, rfl, rfl⟩
    simp [disassemble, disassembleOpcode, getModrmRegs, RexPrefix.for64bitOperand,
      getRegs_ofRegs hmod]
  | moveImmToReg imm dest => exact disassemble_moveImmToReg h rest
  | compareImmWithReg imm reg =>
    obtain ⟨hassert, h⟩ := Option.ite_none_right_eq_some.mp h
    obtain ⟨modRm, hmod, heq⟩ := Option.bind_eq_some_iff.mp h
    cases heq
    obtain ⟨hreg, hext⟩ := getReg_withOpcodeExtension (by decide) hmod
    have himm : getU32 (fun k => (0x81#8 :: modRm :: (toNeBytes (imm.setWidth 32) ++ rest))[k]?)
        2 = some (imm.setWidth 32) := getU32_cons [0x81, modRm] (imm.setWidth 32) rest
    refine ⟨rfl, .seq (.compareImmWithReg ((imm.setWidth 32).setWidth 64) ⟨reg.reg, .ex⟩) 6, ?_,
      ?_, rfl⟩
    · simp [disassemble, disassembleOpcode, getModrmOpcodeAndReg, hreg, hext, himm]
    · rw [Instr.decoded, ← hassert.2]
      rfl
  | compareRegWithReg reg1 reg2 =>
    obtain ⟨hassert, h⟩ := Option.ite_none_right_eq_some.mp h
    obtain ⟨modRm, hmod, heq⟩ := Option.bind_eq_some_iff.mp h
    cases heq
    refine ⟨rfl, .seq (.compareRegWithReg ⟨reg1.reg, .rx⟩ ⟨reg2.reg, .rx⟩) 3, ?_, ?_, rfl⟩
    · simp [disassemble, disassembleOpcode, getModrmRegs, RexPrefix.for64bitOperand,
        getRegs_ofRegs hmod]
    · have h1 : (⟨reg1.reg, .rx⟩ : RegView) = reg1 := by rw [← hassert.1]
      have h2 : (⟨reg2.reg, .rx⟩ : RegView) = reg2 := by rw [← hassert.2]
      rw [h1, h2]
      rfl
  | jumpToRelOffIfEqual relOff =>
    cases h
    have hoff : getU32 (fun k => (0x0f#8 :: 0x84#8 :: (toNeBytes (relOff.setWidth 32) ++ rest))[k]?)
        2 = some (relOff.setWidth 32) := getU32_cons [0x0f, 0x84] (relOff.setWidth 32) rest
    refine ⟨rfl, .condJump (.jumpToRelOffIfEqual ((relOff.setWidth 32).signExtend 64)) 6, ?_,
      rfl, rfl⟩
    simp [disassemble, disassembleOpcode, hoff]
  | jumpToRelOffIfNotEqual relOff =>
    obtain ⟨-, h⟩ := Option.ite_none_right_eq_some.mp h
    cases h
    refine ⟨rfl, .condJump (.jumpToRelOffIfNotEqual ((relOff.setWidth 8).signExtend 64)) 2, ?_,
      rfl, rfl⟩
    simp [disassemble, disassembleOpcode]
  | «return» =>
    cases h
    exact ⟨rfl, _, rfl, rfl, rfl⟩
  | simulatorShimGetInput =>
    cases h
    exact ⟨rfl, _, rfl, rfl, rfl⟩
  | _ => cases h

theorem setWidth_setWidth_eq_iff (imm : BitVec 64) :
    (imm.setWidth 32).setWidth 64 = imm ↔ imm.toNat < 2 ^ 32 := by
  rw [← BitVec.toNat_inj, BitVec.toNat_setWidth, BitVec.toNat_setWidth]
  omega

/-- A displacement that is cut to `w` bits comes back when it is a signed number of `w` bits. -/
theorem signExtend_setWidth_eq_iff {w : Nat} (hw : w < 64) (relOff : BitVec 64) :
    (relOff.setWidth (w + 1)).signExtend 64 = relOff ↔
      -2 ^ w ≤ relOff.toInt ∧ relOff.toInt < 2 ^ w := by
  rw [← BitVec.toInt_inj, BitVec.toInt_signExtend_of_le (by omega)]
  constructor
  · intro h
    have hle := BitVec.le_toInt (relOff.setWidth (w + 1))
    have hlt := BitVec.toInt_lt (x := relOff.setWidth (w + 1))
    rw [h] at hle hlt
    exact ⟨by simpa using hle, by simpa using hlt⟩
  · rintro ⟨hle, hlt⟩
    have hdvd : 2 ^ (w + 1) ∣ 2 ^ 64 := Nat.pow_dvd_pow 2 (by omega)
    rw [BitVec.toInt_setWidth, ← Int.bmod_bmod_of_dvd hdvd, ← BitVec.toInt_eq_toNat_bmod]
    have hpow : ((2 ^ (w + 1) : Nat) : Int) = 2 ^ w * 2 := by
      push_cast
      exact pow_succ 2 w
    apply Int.bmod_eq_of_le
    · omega
    · omega

theorem decoded_eq_iff (h : i.assemble = some bytes) : i.decoded = i ↔ i.Decodable := by
  have hview : ∀ reg : RegView, (⟨reg.reg, .rx⟩ : RegView) = reg ↔ reg.accessType = .rx := by
    intro reg
    constructor
    · intro heq
      rw [← heq]
    · intro hrx
      rw [← hrx]
  cases i with
  | pushFromReg reg => simp [Instr.decoded, Instr.Decodable, hview]
  | popIntoReg reg => simp [Instr.decoded, Instr.Decodable, hview]
  | moveRegToReg source dest => simp [Instr.decoded, Instr.Decodable, hview]
  | addRegToReg augend addend => simp [Instr.decoded, Instr.Decodable, hview]
  | moveImmToReg imm dest =>
    by_cases hrx : dest.accessType = .rx
    · simp [Instr.decoded, Instr.Decodable, hrx]
    · simp only [Instr.decoded, Instr.Decodable, hrx, if_false, Instr.moveImmToReg.injEq, and_true,
        false_or, setWidth_setWidth_eq_iff]
  | compareImmWithReg imm reg =>
    obtain ⟨hassert, -⟩ := Option.ite_none_right_eq_some.mp h
    simp only [Instr.decoded, Instr.Decodable, Instr.compareImmWithReg.injEq, and_true,
      setWidth_setWidth_eq_iff, iff_true]
    omega
  | jumpToRelOffIfEqual relOff =>
    simp only [Instr.decoded, Instr.Decodable, Instr.jumpToRelOffIfEqual.injEq,
      signExtend_setWidth_eq_iff (show 31 < 64 by decide)]
  | jumpToRelOffIfNotEqual relOff =>
    simp only [Instr.decoded, Instr.Decodable, Instr.jumpToRelOffIfNotEqual.injEq,
      signExtend_setWidth_eq_iff (show 7 < 64 by decide)]
    norm_num
  | _ => simp [Instr.decoded, Instr.Decodable]

end Decode

/-- **Encoding and decoding.**  For every instruction that `assemble` accepts and whatever bytes
follow it: the encoding has the length that `assembled_len` says, and the decoder returns the same
instruction after consuming exactly the encoding — exactly when the operands survive the fields
they are written to. -/
theorem disassemble_assemble_iff (i : Instr) (bytes : List (BitVec 8))
    (h : i.assemble = some bytes) (rest : List (BitVec 8)) :
    (i.assembledLen = some bytes.length ∧
        ∃ info, disassemble (fun k => (bytes ++ rest)[k]?) = some info ∧
          info.instr = i ∧ info.instrSize = bytes.length) ↔ i.Decodable := by
  obtain ⟨hlen, info, hinfo, hinstr, hsize⟩ := disassemble_assemble h rest
  rw [← decoded_eq_iff h]
  constructor
  · rintro ⟨-, info', hinfo', hinstr', -⟩
    rw [hinfo] at hinfo'
    cases hinfo'
    exact hinstr.symm.trans hinstr'
  · intro hdecoded
    exact ⟨hlen, info, hinfo, hinstr.trans hdecoded, hsize⟩

/-- A 64-bit immediate in `rsp`, with a `ret` after it. -/
theorem disassemble_assemble_movabs :
    ∃ info, disassemble (fun k => ([0x48, 0xbc, 0xef, 0xbe, 0xad, 0xde, 0xbe, 0xba, 0xfe, 0xca] ++
        [0xc3])[k]?) = some info ∧
      info.instr = .moveImmToReg 0xcafebabedeadbeef ⟨.rsp, .rx⟩ ∧ info.instrSize = 10 :=
  ((disassemble_assemble_iff (.moveImmToReg 0xcafebabedeadbeef ⟨.rsp, .rx⟩)
    [0x48, 0xbc, 0xef, 0xbe, 0xad, 0xde, 0xbe, 0xba, 0xfe, 0xca] (by decide) [0xc3]).mpr
      (.inl rfl)).2

/-- A `jne` over 200 bytes is accepted, and decoded as one 56 bytes back. -/
theorem jne_past_127 :
    (Instr.jumpToRelOffIfNotEqual 200).assemble = some [0x75, 0xc8] ∧
      disassemble (fun k => [0x75, 0xc8][k]?) =
        some (.condJump (.jumpToRelOffIfNotEqual (-56)) 2) ∧
      Instr.jumpToRelOffIfNotEqual (-56) ≠ .jumpToRelOffIfNotEqual 200 := by
  decide

end Axle.Compiler
