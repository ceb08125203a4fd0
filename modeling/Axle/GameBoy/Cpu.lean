import Axle.GameBoy.Cartridge
import Axle.Lib.Checked

/-!
# The processor of the Game Boy emulator

`CpuState` of `gb_emu/src/cpu.rs`, over any memory that answers reads and takes writes.  An opcode is
first recognised (`decodeOp`, in the order of the source: single opcodes, then the groups) and then
executed.  Where the source writes a plain `+` or `-` on an address, the model takes the checked
operation; where it writes `overflowing_add` or `wrapping_add`, the wrapping one.

* `Cpu` — the registers, `is_halted` and the interrupt controller's master flag;
* `Op`, `decodeOp` — the arms of `decode`;
* `Cpu.execute`, `Cpu.step` — one instruction.
-/

namespace Axle.GameBoy

/-! ### Memory and checked arithmetic -/

/-- What the processor sees of the memory. -/
class Bus (μ : Type) where
  read : μ → BitVec 16 → Byte
  write : μ → BitVec 16 → Byte → μ

/-- Why the emulator stops. -/
inductive Panic where
  | overflow
  | assertion
  | alreadyBorrowed
deriving DecidableEq, Repr

abbrev Word := BitVec 16

/-- `a + b` on `u16`. -/
def addU16 (checks : Bool) (a b : Word) : Except Panic Word :=
  if checks ∧ ¬a.toNat + b.toNat < 2 ^ 16 then .error .overflow else .ok (a + b)

/-- `a - b` on `u16`. -/
def subU16 (checks : Bool) (a b : Word) : Except Panic Word :=
  if checks ∧ ¬b.toNat ≤ a.toNat then .error .overflow else .ok (a - b)

/-- `a + b` on `i16`. -/
def addI16 (checks : Bool) (a b : Word) : Except Panic Word :=
  if checks ∧ ¬(-2 ^ 15 ≤ a.toInt + b.toInt ∧ a.toInt + b.toInt < 2 ^ 15) then .error .overflow
  else .ok (a + b)

/-- `a.abs()` on `i8`: there is no `128`. -/
def absI8 (checks : Bool) (a : Byte) : Except Panic Byte :=
  if checks ∧ ¬a ≠ 0x80 then .error .overflow else .ok (if a.msb then -a else a)

section

variable {μ : Type} [Bus μ]

/-- `Mmu::read_u16`: the low byte first. -/
def readU16 (checks : Bool) (mem : μ) (addr : Word) : Except Panic Word := do
  let low := Bus.read mem addr
  let addr ← addU16 checks addr 1
  .ok (Bus.read mem addr ++ low)

/-- `Mmu::write_u16` with a given way to write a byte. -/
def writeU16With (write : μ → Word → Byte → Except Panic μ) (checks : Bool) (mem : μ) (addr : Word)
    (val : Word) : Except Panic μ := do
  let mem ← write mem addr (val.setWidth 8)
  let addr ← addU16 checks addr 1
  write mem addr ((val >>> 8).setWidth 8)

def writeByte (mem : μ) (addr : Word) (val : Byte) : Except Panic μ := .ok (Bus.write mem addr val)

end

/-! ### Registers -/

inductive Reg8 where
  | b | c | d | e | h | l | a | f
deriving DecidableEq, Repr

inductive RegPair where
  | bc | de | hl | af
deriving DecidableEq, Repr

inductive Flag where
  | zero | subtract | carry | halfCarry
deriving DecidableEq, Repr

inductive FlagCondition where
  | notZero | zero | notCarry | carry
deriving DecidableEq, Repr

inductive AddressingMode where
  | deref | derefThenIncrement | derefThenDecrement
deriving DecidableEq, Repr

/-- An operand of the first lookup table. -/
inductive Operand8 where
  | reg (r : Reg8)
  | derefHl
deriving DecidableEq, Repr

/-- An operand of the second lookup table. -/
inductive Operand16 where
  | pair (p : RegPair)
  | sp
deriving DecidableEq, Repr

def lookupTab1 : ℕ → Operand8
  | 0 => .reg .b
  | 1 => .reg .c
  | 2 => .reg .d
  | 3 => .reg .e
  | 4 => .reg .h
  | 5 => .reg .l
  | 6 => .derefHl
  | _ => .reg .a

def lookupTab2 : ℕ → Operand16
  | 0 => .pair .bc
  | 1 => .pair .de
  | 2 => .pair .hl
  | _ => .sp

def lookupTab3 : ℕ → RegPair × AddressingMode
  | 0 => (.bc, .deref)
  | 1 => (.de, .deref)
  | 2 => (.hl, .derefThenIncrement)
  | _ => (.hl, .derefThenDecrement)

/-- The four conditions of jumps, calls and returns. -/
def flagCondition : ℕ → FlagCondition
  | 0 => .notZero
  | 1 => .zero
  | 2 => .notCarry
  | _ => .carry

def pushPair : ℕ → RegPair
  | 0 => .bc
  | 1 => .de
  | 2 => .hl
  | _ => .af

/-- `ime` is the master flag of the interrupt controller. -/
structure Cpu (μ : Type) where
  b : Byte
  c : Byte
  d : Byte
  e : Byte
  h : Byte
  l : Byte
  a : Byte
  f : Byte
  sp : Word
  pc : Word
  isHalted : Bool
  ime : Bool
  mem : μ

structure InstrInfo where
  instructionSize : ℕ
  cycleCount : ℕ
  pcIncrement : Option ℕ
  jumped : Bool
deriving DecidableEq, Repr

def InstrInfo.seq (instructionSize cycleCount : ℕ) : InstrInfo :=
  ⟨instructionSize, cycleCount, some instructionSize, false⟩

def InstrInfo.jump (instructionSize cycleCount : ℕ) : InstrInfo :=
  ⟨instructionSize, cycleCount, none, true⟩

namespace Cpu

variable {μ : Type}

def readReg (s : Cpu μ) : Reg8 → Byte
  | .b => s.b
  | .c => s.c
  | .d => s.d
  | .e => s.e
  | .h => s.h
  | .l => s.l
  | .a => s.a
  | .f => s.f

/-- The flags register has only its high nibble. -/
def writeReg (s : Cpu μ) (r : Reg8) (val : Byte) : Cpu μ :=
  match r with
  | .b => { s with b := val }
  | .c => { s with c := val }
  | .d => { s with d := val }
  | .e => { s with e := val }
  | .h => { s with h := val }
  | .l => { s with l := val }
  | .a => { s with a := val }
  | .f => { s with f := val &&& 0xf0 }

def upper : RegPair → Reg8
  | .bc => .b
  | .de => .d
  | .hl => .h
  | .af => .a

def lower : RegPair → Reg8
  | .bc => .c
  | .de => .e
  | .hl => .l
  | .af => .f

def readPair (s : Cpu μ) (p : RegPair) : Word := s.readReg (upper p) ++ s.readReg (lower p)

def writePair (s : Cpu μ) (p : RegPair) (val : Word) : Cpu μ :=
  (s.writeReg (upper p) ((val >>> 8).setWidth 8)).writeReg (lower p) (val.setWidth 8)

def read16 (s : Cpu μ) : Operand16 → Word
  | .pair p => s.readPair p
  | .sp => s.sp

def write16 (s : Cpu μ) (op : Operand16) (val : Word) : Cpu μ :=
  match op with
  | .pair p => s.writePair p val
  | .sp => { s with sp := val }

/-! ### Flags -/

def flagBit : Flag → ℕ
  | .zero => 7
  | .subtract => 6
  | .halfCarry => 5
  | .carry => 4

def isFlagSet (s : Cpu μ) (flag : Flag) : Bool := s.f.getLsbD (flagBit flag)

def updateFlag (s : Cpu μ) (flag : Flag) (on : Bool) : Cpu μ :=
  let mask : Byte := 1 <<< flagBit flag
  s.writeReg .f (if on then s.f ||| mask else s.f &&& ~~~mask)

def setFlags (s : Cpu μ) (z n h c : Bool) : Cpu μ :=
  s.writeReg .f (BitVec.ofNat 8 (16 * (c.toNat + 2 * h.toNat + 4 * n.toNat + 8 * z.toNat)))

def isFlagConditionMet (s : Cpu μ) : FlagCondition → Bool
  | .notZero => !s.isFlagSet .zero
  | .zero => s.isFlagSet .zero
  | .notCarry => !s.isFlagSet .carry
  | .carry => s.isFlagSet .carry

/-- An update that some instructions leave out. -/
def updateFlagUnless (s : Cpu μ) (ignored : List Flag) (flag : Flag) (on : Bool) : Cpu μ :=
  if flag ∈ ignored then s else s.updateFlag flag on

/-! ### Arithmetic -/

def sub8UpdateFlags (s : Cpu μ) (a b : Byte) (ignored : List Flag) : Cpu μ × Byte :=
  let s := s.updateFlagUnless ignored .halfCarry (((a &&& 0x0f) - (b &&& 0x0f)) &&& 0x10 != 0)
  let s := s.updateFlagUnless ignored .subtract true
  let s := s.updateFlagUnless ignored .carry (decide (a.toNat < b.toNat))
  let s := s.updateFlagUnless ignored .zero (a - b == 0)
  (s, a - b)

def add8UpdateFlags (s : Cpu μ) (a b : Byte) (ignored : List Flag) : Cpu μ × Byte :=
  let s := s.updateFlagUnless ignored .halfCarry (((a &&& 0x0f) + (b &&& 0x0f)) &&& 0x10 == 0x10)
  let s := s.updateFlagUnless ignored .subtract false
  let s := s.updateFlagUnless ignored .carry (decide (2 ^ 8 ≤ a.toNat + b.toNat))
  let s := s.updateFlagUnless ignored .zero (a + b == 0)
  (s, a + b)

/-- The flags of an operation with carry, from its 32-bit result. -/
def updateCarryFlags (s : Cpu μ) (a b result : BitVec 32) (isSubtract : Bool) : Cpu μ :=
  let s := s.updateFlag .zero (result.setWidth 8 == (0 : Byte))
  let s := s.updateFlag .halfCarry ((a ^^^ b ^^^ result) &&& 0x10 != 0)
  let s := s.updateFlag .carry (result &&& 0x100 != 0)
  s.updateFlag .subtract isSubtract

def carryIn (s : Cpu μ) : BitVec 32 := if s.isFlagSet .carry then 1 else 0

def add8WithCarryAndUpdateFlags (s : Cpu μ) (a b : Byte) : Cpu μ × Byte :=
  let result := a.setWidth 32 + b.setWidth 32 + s.carryIn
  (s.updateCarryFlags (a.setWidth 32) (b.setWidth 32) result false, result.setWidth 8)

def sub8WithCarryAndUpdateFlags (s : Cpu μ) (a b : Byte) : Cpu μ × Byte :=
  let result := a.setWidth 32 - b.setWidth 32 - s.carryIn
  (s.updateCarryFlags (a.setWidth 32) (b.setWidth 32) result true, result.setWidth 8)

def add16UpdateFlags (s : Cpu μ) (a b : Word) (ignored : List Flag) : Cpu μ × Word :=
  let s := s.updateFlagUnless ignored .halfCarry
    (((a &&& 0xfff) + (b &&& 0xfff)) &&& 0x1000 == 0x1000)
  let s := s.updateFlagUnless ignored .subtract false
  let s := s.updateFlagUnless ignored .carry (decide (2 ^ 16 ≤ a.toNat + b.toNat))
  let s := s.updateFlagUnless ignored .zero (a + b == 0)
  (s, a + b)

/-- The result of an operation goes to `A`. -/
def toA (r : Cpu μ × Byte) : Cpu μ := r.1.writeReg .a r.2

def instrCp (s : Cpu μ) (val : Byte) : Cpu μ := (s.sub8UpdateFlags s.a val []).1

def adcAU8 (s : Cpu μ) (val : Byte) : Cpu μ := toA (s.add8WithCarryAndUpdateFlags s.a val)

/-! ### Operands in memory -/

variable [Bus μ]

def read8 (s : Cpu μ) : Operand8 → Byte
  | .reg r => s.readReg r
  | .derefHl => Bus.read s.mem (s.readPair .hl)

def write8 (s : Cpu μ) (op : Operand8) (val : Byte) : Cpu μ :=
  match op with
  | .reg r => s.writeReg r val
  | .derefHl => { s with mem := Bus.write s.mem (s.readPair .hl) val }

/-- `read_u8_with_mode` of a register pair. -/
def readU8WithMode (checks : Bool) (s : Cpu μ) (p : RegPair) (mode : AddressingMode) :
    Except Panic (Cpu μ × Byte) :=
  let address := s.readPair p
  match mode with
  | .deref => .ok (s, Bus.read s.mem address)
  | .derefThenIncrement => do
    let next ← addU16 checks address 1
    .ok (s.writePair p next, Bus.read s.mem address)
  | .derefThenDecrement => do
    let next ← subU16 checks address 1
    .ok (s.writePair p next, Bus.read s.mem address)

/-- `write_u8_with_mode` of a register pair. -/
def writeU8WithMode (checks : Bool) (s : Cpu μ) (p : RegPair) (mode : AddressingMode)
    (val : Byte) : Except Panic (Cpu μ) :=
  let address := s.readPair p
  match mode with
  | .deref => .ok { s with mem := Bus.write s.mem address val }
  | .derefThenIncrement => do
    let next ← addU16 checks address 1
    .ok { s.writePair p next with mem := Bus.write s.mem address val }
  | .derefThenDecrement => do
    let next ← subU16 checks address 1
    .ok { s.writePair p next with mem := Bus.write s.mem address val }

/-- `push_u16` with a given way to write a byte. -/
def pushU16With (write : μ → Word → Byte → Except Panic μ) (checks : Bool) (s : Cpu μ)
    (val : Word) : Except Panic (Cpu μ) := do
  let sp ← subU16 checks s.sp 2
  let mem ← writeU16With write checks s.mem sp val
  .ok { s with sp := sp, mem := mem }

def pushU16 (checks : Bool) (s : Cpu μ) (val : Word) : Except Panic (Cpu μ) :=
  pushU16With writeByte checks s val

def popU16 (checks : Bool) (s : Cpu μ) : Except Panic (Cpu μ × Word) := do
  let val ← readU16 checks s.mem s.sp
  let sp ← addU16 checks s.sp 2
  .ok ({ s with sp := sp }, val)

/-- The byte behind the opcode. -/
def readImm8 (checks : Bool) (s : Cpu μ) : Except Panic Byte := do
  let addr ← addU16 checks s.pc 1
  .ok (Bus.read s.mem addr)

/-- The word behind the opcode. -/
def readImm16 (checks : Bool) (s : Cpu μ) : Except Panic Word := do
  let addr ← addU16 checks s.pc 1
  readU16 checks s.mem addr

def callAddr (checks : Bool) (s : Cpu μ) (instructionSize : ℕ) (target : Word) :
    Except Panic (Cpu μ) := do
  let returnAddr ← addU16 checks s.pc (BitVec.ofNat 16 instructionSize)
  let s ← s.pushU16 checks returnAddr
  .ok { s with pc := target }

/-- The target of a relative jump of two bytes. -/
def jumpRelative (checks : Bool) (s : Cpu μ) (relTarget : Byte) : Except Panic (Cpu μ) := do
  let pc ← addU16 checks s.pc 2
  let pc ← addI16 checks pc (relTarget.signExtend 16)
  .ok { s with pc := pc }

/-- `sp + offset` for a signed offset. -/
def offsetSp (checks : Bool) (s : Cpu μ) (offset : Byte) : Except Panic Word :=
  if 0 < offset.toInt then addU16 checks s.sp (offset.setWidth 16)
  else do
    let magnitude ← absI8 checks offset
    subU16 checks s.sp (magnitude.signExtend 16)

/-! ### Rotations and the instructions behind `0xcb` -/

def rlcOrRl (s : Cpu μ) (op : Operand8) (isRlc : Bool) : Cpu μ :=
  let contents := s.read8 op
  let highBit := contents.getLsbD 7
  let low := if isRlc then highBit else s.isFlagSet .carry
  let rotated := (contents <<< 1) ||| BitVec.ofNat 8 low.toNat
  let s := s.write8 op rotated
  let s := s.updateFlag .carry highBit
  let s := s.updateFlag .zero (rotated == 0)
  let s := s.updateFlag .halfCarry false
  s.updateFlag .subtract false

/-- The flags of a shift. -/
def shiftFlags (s : Cpu μ) (result : Byte) (out : Bool) : Cpu μ :=
  let s := s.updateFlag .zero (result == 0)
  let s := s.updateFlag .carry out
  let s := s.updateFlag .halfCarry false
  s.updateFlag .subtract false

def rrReg8 (s : Cpu μ) (op : Operand8) : Cpu μ :=
  let val := s.read8 op
  let newVal := (val >>> 1) ||| (BitVec.ofNat 8 (s.isFlagSet .carry).toNat <<< 7)
  (s.write8 op newVal).shiftFlags newVal (val.getLsbD 0)

def rrcReg8 (s : Cpu μ) (op : Operand8) : Cpu μ :=
  let contents := s.read8 op
  let newContents := (contents >>> 1) ||| (contents <<< 7)
  (s.setFlags (newContents == 0) false false (contents.getLsbD 0)).write8 op newContents

/-- The new state and the number of cycles. -/
def decodeCbPrefixedInstr (s : Cpu μ) (instructionByte : Byte) : Cpu μ × ℕ :=
  let bit := instructionByte.toNat / 8 % 8
  let op := lookupTab1 (instructionByte.toNat % 8)
  let contents := s.read8 op
  let mask : Byte := 1 <<< bit
  match instructionByte.toNat / 64 with
  | 1 =>
    -- BIT
    let s := s.updateFlag .zero (contents &&& mask == 0)
    let s := s.updateFlag .subtract false
    (s.updateFlag .halfCarry true, 2)
  -- RES, SET
  | 2 => (s.write8 op (contents &&& ~~~mask), 2)
  | 3 => (s.write8 op (contents ||| mask), 2)
  | _ =>
    match bit with
    | 0 => (s.rlcOrRl op true, 2)
    | 1 => (s.rrcReg8 op, 2)
    | 2 => (s.rlcOrRl op false, 2)
    | 3 => (s.rrReg8 op, 2)
    | 4 =>
      -- SLA
      ((s.write8 op (contents <<< 1)).shiftFlags (contents <<< 1) (contents.getLsbD 7), 2)
    | 5 =>
      -- SRA
      let newContents := (contents >>> 1) ||| (contents &&& 0x80)
      ((s.setFlags (newContents == 0) false false (contents.getLsbD 0)).write8 op newContents, 2)
    | 6 =>
      -- SWAP
      let result := ((contents &&& 0x0f) <<< 4) ||| ((contents &&& 0xf0) >>> 4)
      ((s.write8 op result).setFlags (result == 0) false false false, 2)
    | _ =>
      -- SRL
      ((s.write8 op (contents >>> 1)).shiftFlags (contents >>> 1) (contents.getLsbD 0), 2)

def daa (s : Cpu μ) : Cpu μ :=
  let ra := s.a
  let low : Byte :=
    if s.isFlagSet .halfCarry || (!s.isFlagSet .subtract && decide (9 < (ra &&& 0x0f).toNat)) then 6
    else 0
  let high := s.isFlagSet .carry || (!s.isFlagSet .subtract && decide (0x99 < ra.toNat))
  let u := if high then low ||| 0x60 else low
  let s := if high then s.updateFlag .carry true else s
  let ra := ra + (if s.isFlagSet .subtract then -u else u)
  let s := s.updateFlag .zero (ra == 0)
  let s := s.updateFlag .halfCarry false
  s.writeReg .a ra

end Cpu

/-! ### Opcodes -/

/-- The operations of `A` with a byte. -/
inductive AluOp where
  | add | adc | sub | sbc | and | xor | or | cp
deriving DecidableEq, Repr

/-- The arms of `decode`. -/
inductive Op where
  | nop | jr | halt | jp | call | ret | reti | di | ei | cpl | jpHl | rra | ldPtrSp | ldSpHl | scf
  | ccf | rrca | addSp | ldHlSp | daa | cbPrefixed | unimplemented
  | aluImm (op : AluOp)
  | alu (op : AluOp) (src : Operand8)
  | inc8 (op : Operand8)
  | dec8 (op : Operand8)
  | ld8 (dest src : Operand8)
  | ld8Imm (dest : Operand8)
  | ld16Imm (dest : Operand16)
  | ldMemA (p : RegPair) (mode : AddressingMode)
  | ldAMem (p : RegPair) (mode : AddressingMode)
  | jrCond (cond : FlagCondition)
  | ldHigh (writeToA : Bool)
  | ldHighC (writeToA : Bool)
  | push (p : RegPair)
  | pop (p : RegPair)
  | rlA (isRlc : Bool)
  | inc16 (dest : Operand16)
  | dec16 (dest : Operand16)
  | ldAbs (loadIntoA : Bool)
  | retCond (cond : FlagCondition)
  | jpCond (cond : FlagCondition)
  | callCond (cond : FlagCondition)
  | rst (target : ℕ)
  | addHl (op : Operand16)
deriving DecidableEq, Repr

/-- `10ooo…` and `11ooo110`. -/
def aluOp : ℕ → AluOp
  | 0 => .add
  | 1 => .adc
  | 2 => .sub
  | 3 => .sbc
  | 4 => .and
  | 5 => .xor
  | 6 => .or
  | _ => .cp

/-- The groups of opcodes, by their three octal digits. -/
def decodeGroup (x y z : ℕ) : Op :=
  match x with
  | 0 =>
    match z with
    | 0 => if 4 ≤ y then .jrCond (flagCondition (y - 4)) else .unimplemented
    | 1 => if y % 2 = 0 then .ld16Imm (lookupTab2 (y / 2)) else .addHl (lookupTab2 (y / 2))
    | 2 =>
      let operand := lookupTab3 (y / 2)
      if y % 2 = 0 then .ldMemA operand.1 operand.2 else .ldAMem operand.1 operand.2
    | 3 => if y % 2 = 0 then .inc16 (lookupTab2 (y / 2)) else .dec16 (lookupTab2 (y / 2))
    | 4 => .inc8 (lookupTab1 y)
    | 5 => .dec8 (lookupTab1 y)
    | 6 => .ld8Imm (lookupTab1 y)
    | _ => if y = 0 then .rlA true else if y = 2 then .rlA false else .unimplemented
  | 1 => .ld8 (lookupTab1 y) (lookupTab1 z)
  | 2 => .alu (aluOp y) (lookupTab1 z)
  | _ =>
    match z with
    | 0 =>
      if y < 4 then .retCond (flagCondition y)
      else if y = 4 then .ldHigh false
      else if y = 6 then .ldHigh true
      else .unimplemented
    | 1 => if y % 2 = 0 then .pop (pushPair (y / 2)) else .unimplemented
    | 2 =>
      if y < 4 then .jpCond (flagCondition y)
      else if y = 4 then .ldHighC false
      else if y = 5 then .ldAbs false
      else if y = 6 then .ldHighC true
      else .ldAbs true
    | 4 => if y < 4 then .callCond (flagCondition y) else .unimplemented
    | 5 => if y % 2 = 0 then .push (pushPair (y / 2)) else .unimplemented
    | 7 => .rst y
    | _ => .unimplemented

def decodeOp (instructionByte : Byte) : Op :=
  match instructionByte.toNat with
  | 0xcb => .cbPrefixed
  | 0x00 => .nop
  | 0x18 => .jr
  | 0x76 => .halt
  | 0xc3 => .jp
  | 0xcd => .call
  | 0xc9 => .ret
  | 0xd9 => .reti
  | 0xfe => .aluImm .cp
  | 0xf3 => .di
  | 0xfb => .ei
  | 0x2f => .cpl
  | 0xe6 => .aluImm .and
  | 0xc6 => .aluImm .add
  | 0xd6 => .aluImm .sub
  | 0xe9 => .jpHl
  | 0x1f => .rra
  | 0xee => .aluImm .xor
  | 0xce => .aluImm .adc
  | 0x08 => .ldPtrSp
  | 0xf9 => .ldSpHl
  | 0x37 => .scf
  | 0x3f => .ccf
  | 0x0f => .rrca
  | 0xe8 => .addSp
  | 0xf8 => .ldHlSp
  | 0xf6 => .aluImm .or
  | 0x27 => .daa
  | 0xde => .aluImm .sbc
  | n => decodeGroup (n / 64) (n / 8 % 8) (n % 8)

namespace Cpu

variable {μ : Type}

/-- `A` and a byte. -/
def aluA (s : Cpu μ) (op : AluOp) (val : Byte) : Cpu μ :=
  match op with
  | .add => toA (s.add8UpdateFlags s.a val [])
  | .adc => s.adcAU8 val
  | .sub => toA (s.sub8UpdateFlags s.a val [])
  | .sbc => toA (s.sub8WithCarryAndUpdateFlags s.a val)
  | .and => (s.writeReg .a (s.a &&& val)).setFlags (s.a &&& val == 0) false true false
  | .xor => (s.writeReg .a (s.a ^^^ val)).setFlags (s.a ^^^ val == 0) false false false
  | .or => (s.writeReg .a (s.a ||| val)).setFlags (s.a ||| val == 0) false false false
  | .cp => s.instrCp val

/-- `AND u8` sets the flags one by one. -/
def andImm (s : Cpu μ) (val : Byte) : Cpu μ :=
  let result := s.a &&& val
  let s := s.writeReg .a result
  let s := s.updateFlag .zero (result == 0)
  let s := s.updateFlag .halfCarry true
  let s := s.updateFlag .carry false
  s.updateFlag .subtract false

/-- Both instructions that add a byte to `SP` take the flags from its low byte. -/
def offsetSpFlags (s : Cpu μ) (offset : Byte) : Cpu μ :=
  (s.add8UpdateFlags (s.sp.setWidth 8) offset []).1

def clearZeroSubtract (s : Cpu μ) : Cpu μ :=
  (s.updateFlag .zero false).updateFlag .subtract false

variable [Bus μ]

def execute (checks : Bool) (s : Cpu μ) : Op → Except Panic (Cpu μ × InstrInfo)
  | .nop => .ok (s, .seq 1 1)
  | .jr => do
    let relTarget ← s.readImm8 checks
    let s ← s.jumpRelative checks relTarget
    .ok (s, .jump 2 3)
  | .halt => .ok ({ s with isHalted := true }, .seq 1 4)
  | .jp => do
    let target ← s.readImm16 checks
    .ok ({ s with pc := target }, .jump 3 4)
  | .call => do
    let target ← s.readImm16 checks
    let s ← s.callAddr checks 3 target
    .ok (s, .jump 3 6)
  | .ret => do
    let (s, target) ← s.popU16 checks
    .ok ({ s with pc := target }, .jump 1 4)
  | .reti => do
    let (s, target) ← { s with ime := true }.popU16 checks
    .ok ({ s with pc := target }, .jump 1 4)
  | .di => .ok ({ s with ime := false }, .seq 1 1)
  | .ei => .ok ({ s with ime := true }, .seq 1 1)
  | .cpl =>
    .ok (((s.writeReg .a (~~~s.a)).updateFlag .subtract true).updateFlag .halfCarry true, .seq 1 1)
  | .jpHl => .ok ({ s with pc := s.readPair .hl }, .jump 1 1)
  | .rra => .ok ((s.rrReg8 (.reg .a)).updateFlag .zero false, .seq 1 1)
  | .ldPtrSp => do
    let pointerAddr ← s.readImm16 checks
    let mem ← writeU16With writeByte checks s.mem pointerAddr s.sp
    .ok ({ s with mem := mem }, .seq 3 5)
  | .ldSpHl => .ok ({ s with sp := s.readPair .hl }, .seq 1 2)
  | .scf =>
    .ok (((s.updateFlag .subtract false).updateFlag .halfCarry false).updateFlag .carry true,
      .seq 1 1)
  | .ccf =>
    .ok (((s.updateFlag .subtract false).updateFlag .halfCarry false).updateFlag .carry
      (!s.isFlagSet .carry), .seq 1 1)
  | .rrca => .ok ((s.rrcReg8 (.reg .a)).updateFlag .zero false, .seq 1 1)
  | .addSp => do
    let offset ← s.readImm8 checks
    let sp ← s.offsetSp checks offset
    .ok (({ s.offsetSpFlags offset with sp := sp } : Cpu μ).clearZeroSubtract, .seq 2 4)
  | .ldHlSp => do
    let offset ← s.readImm8 checks
    let result ← s.offsetSp checks offset
    .ok (((s.offsetSpFlags offset).writePair .hl result).clearZeroSubtract, .seq 2 3)
  | .daa => .ok (s.daa, .seq 1 1)
  | .cbPrefixed => do
    let instructionByte2 ← s.readImm8 checks
    let decoded := s.decodeCbPrefixedInstr instructionByte2
    .ok (decoded.1, .seq 2 decoded.2)
  | .aluImm op => do
    let val ← s.readImm8 checks
    .ok (if op = .and then s.andImm val else s.aluA op val, .seq 2 2)
  | .alu op src => .ok (s.aluA op (s.read8 src), .seq 1 1)
  | .inc8 op =>
    let result := s.add8UpdateFlags (s.read8 op) 1 [.carry]
    .ok (result.1.write8 op result.2, .seq 1 1)
  | .dec8 op =>
    let result := s.sub8UpdateFlags (s.read8 op) 1 [.carry]
    .ok (result.1.write8 op result.2, .seq 1 1)
  | .ld8 dest src =>
    .ok (s.write8 dest (s.read8 src), .seq 1 (if src = .derefHl then 2 else 1))
  | .ld8Imm dest => do
    let val ← s.readImm8 checks
    .ok (s.write8 dest val, .seq 2 2)
  | .ld16Imm dest => do
    let val ← s.readImm16 checks
    .ok (s.write16 dest val, .seq 3 3)
  | .ldMemA p mode => do
    let s ← s.writeU8WithMode checks p mode s.a
    .ok (s, .seq 1 2)
  | .ldAMem p mode => do
    let (s, val) ← s.readU8WithMode checks p mode
    .ok (s.writeReg .a val, .seq 1 2)
  | .jrCond cond =>
    if s.isFlagConditionMet cond then do
      let relTarget ← s.readImm8 checks
      let s ← s.jumpRelative checks relTarget
      .ok (s, .jump 2 3)
    else .ok (s, .seq 2 2)
  | .ldHigh writeToA => do
    let off ← s.readImm8 checks
    let address ← addU16 checks 0xff00 (off.setWidth 16)
    if writeToA then .ok (s.writeReg .a (Bus.read s.mem address), .seq 2 3)
    else .ok ({ s with mem := Bus.write s.mem address s.a }, .seq 2 3)
  | .ldHighC writeToA => do
    let address ← addU16 checks 0xff00 (s.c.setWidth 16)
    if writeToA then .ok (s.writeReg .a (Bus.read s.mem address), .seq 1 2)
    else .ok ({ s with mem := Bus.write s.mem address s.a }, .seq 1 2)
  | .push p => do
    let s ← s.pushU16 checks (s.readPair p)
    .ok (s, .seq 1 4)
  | .pop p => do
    let (s, val) ← s.popU16 checks
    .ok (s.writePair p val, .seq 1 3)
  | .rlA isRlc => .ok ((s.rlcOrRl (.reg .a) isRlc).updateFlag .zero false, .seq 1 1)
  | .inc16 dest => .ok (s.write16 dest (s.read16 dest + 1), .seq 1 2)
  | .dec16 dest => .ok (s.write16 dest (s.read16 dest - 1), .seq 1 2)
  | .ldAbs loadIntoA => do
    let address ← s.readImm16 checks
    if loadIntoA then .ok (s.writeReg .a (Bus.read s.mem address), .seq 3 4)
    else .ok ({ s with mem := Bus.write s.mem address s.a }, .seq 3 4)
  | .retCond cond =>
    if s.isFlagConditionMet cond then do
      let (s, target) ← s.popU16 checks
      .ok ({ s with pc := target }, .jump 1 5)
    else .ok (s, .seq 1 2)
  | .jpCond cond => do
    let target ← s.readImm16 checks
    if s.isFlagConditionMet cond then .ok ({ s with pc := target }, .jump 3 4)
    else .ok (s, .seq 3 3)
  | .callCond cond => do
    let target ← s.readImm16 checks
    if s.isFlagConditionMet cond then do
      let s ← s.callAddr checks 3 target
      .ok (s, .jump 3 6)
    else .ok (s, .seq 3 3)
  | .rst target => do
    let s ← s.callAddr checks 1 (BitVec.ofNat 16 (target * 8))
    .ok (s, .jump 1 4)
  | .addHl op =>
    let result := s.add16UpdateFlags (s.readPair .hl) (s.read16 op) [.zero]
    .ok (result.1.writePair .hl result.2, .seq 1 2)
  | .unimplemented => .ok (s, .seq 0 0)

/-- The increment of the program counter, from where the instruction was. -/
def advance (checks : Bool) (pc : Word) (executed : Cpu μ × InstrInfo) :
    Except Panic (Cpu μ × InstrInfo) :=
  match executed.2.pcIncrement with
  | some pcIncrement =>
    if executed.2.jumped then .error .assertion
    else do
      let pc ← addU16 checks pc (BitVec.ofNat 16 pcIncrement)
      .ok ({ executed.1 with pc := pc }, executed.2)
  | none => .ok executed

def step (checks : Bool) (s : Cpu μ) : Except Panic (Cpu μ × InstrInfo) := do
  let executed ← s.execute checks (decodeOp (Bus.read s.mem s.pc))
  advance checks s.pc executed

end Cpu

end Axle.GameBoy
