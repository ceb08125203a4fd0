import Axle.GameBoy.CpuTotal
import Axle.Lib.CarryChain
import Mathlib.Data.Nat.Digits.Lemmas

/-!
# Arithmetic on numbers of several bytes

A program adds numbers of any length with `ADD` on their lowest bytes and `ADC` on the others, and
subtracts them with `SUB` and `SBC`; for packed decimal digits it puts `DAA` behind each of these.
Only the flags go from one byte to the next.

* `Cpu.Operates` — one arithmetic instruction, with its operand wherever it is;
* `Cpu.Bytewise` — the instructions for the bytes of two numbers, and whatever else the program
  does in between that leaves the flags alone;
* `multiByte_arithmetic` — **PROVED**: the result and Carry, in binary and in decimal.
-/

namespace Axle.GameBoy

open Axle.Lib.CarryChain

namespace Cpu

/-! ### Flags -/

section Flags

variable {μ : Type} (s : Cpu μ)

@[simp] theorem isFlagSet_updateFlag (flag other : Flag) (on : Bool) :
    (s.updateFlag flag on).isFlagSet other = if flag = other then on else s.isFlagSet other := by
  cases flag <;> cases other <;> cases on <;> simp [updateFlag, isFlagSet, flagBit, writeReg]

@[simp] theorem isFlagSet_writeReg_a (val : Byte) (flag : Flag) :
    (s.writeReg .a val).isFlagSet flag = s.isFlagSet flag := rfl

@[simp] theorem updateFlag_a (flag : Flag) (on : Bool) : (s.updateFlag flag on).a = s.a := rfl

@[simp] theorem writeReg_a (val : Byte) : (s.writeReg .a val).a = val := rfl

theorem isFlagSet_congr {s t : Cpu μ} (h : t.f = s.f) (flag : Flag) :
    t.isFlagSet flag = s.isFlagSet flag := by
  rw [isFlagSet, isFlagSet, h]

end Flags

/-! ### One byte -/

section Byte

variable {μ : Type} {s : Cpu μ}

/-- The carry flag as a number. -/
def carryBit (s : Cpu μ) : ℕ := (s.isFlagSet .carry).toNat

/-- What an addition of `x`, `y` and a carry `c` leaves. -/
structure Added (x y : Byte) (c : ℕ) (t : Cpu μ) : Prop where
  value : t.a.toNat + 256 * t.carryBit = x.toNat + y.toNat + c
  half : t.isFlagSet .halfCarry = decide (16 ≤ x.toNat % 16 + y.toNat % 16 + c)
  subtract : t.isFlagSet .subtract = false

/-- What a subtraction of `y` and a borrow `c` from `x` leaves. -/
structure Subtracted (x y : Byte) (c : ℕ) (t : Cpu μ) : Prop where
  value : t.a.toNat + y.toNat + c = x.toNat + 256 * t.carryBit
  half : t.isFlagSet .halfCarry = decide (x.toNat % 16 < y.toNat % 16 + c)
  subtract : t.isFlagSet .subtract = true

theorem low_nibble (x : Byte) : (x &&& 0x0f).toNat = x.toNat % 16 := by
  exact Nat.and_two_pow_sub_one_eq_mod x.toNat 4

theorem bit_iff {w : ℕ} (x : BitVec w) (i : ℕ) :
    x.getLsbD i = decide (x.toNat / 2 ^ i % 2 = 1) := Nat.testBit_eq_decide_div_mod_eq

theorem mask_ne_zero {x mask : BitVec 32} {i : ℕ} (hi : i < 32) (hmask : mask = BitVec.twoPow 32 i) :
    (x &&& mask != 0) = x.getLsbD i := by
  have hne : BitVec.twoPow 32 i ≠ 0#32 := by
    intro h
    have hbit := congrArg (·.getLsbD i) h
    simp [hi] at hbit
  rw [hmask, BitVec.and_twoPow]
  cases x.getLsbD i <;> simp [hne]

/-- The fifth bit of a sum is that of the exclusive or, and the carry into it. -/
theorem xor_bit4 {a b r c : ℕ} (h : r % 32 = (a + b + c) % 32) (hc : c ≤ 1) :
    (decide (a / 2 ^ 4 % 2 = 1) ^^ decide (b / 2 ^ 4 % 2 = 1) ^^ decide (r / 2 ^ 4 % 2 = 1)) =
      decide (16 ≤ a % 16 + b % 16 + c) := by
  by_cases ha : a / 2 ^ 4 % 2 = 1 <;> by_cases hb : b / 2 ^ 4 % 2 = 1 <;>
    by_cases hr : r / 2 ^ 4 % 2 = 1 <;> simp only [ha, hb, hr] <;> simp <;> omega

theorem aluA_add (y : Byte) : Added s.a y 0 (s.aluA .add y) := by
  have hflag (flag : Flag) : (s.aluA .add y).isFlagSet flag =
      match flag with
      | .carry => decide (2 ^ 8 ≤ s.a.toNat + y.toNat)
      | .halfCarry => ((s.a &&& 0x0f) + (y &&& 0x0f)) &&& 0x10 == 0x10
      | .subtract => false
      | .zero => s.a + y == 0 := by
    cases flag <;> simp [aluA, toA, add8UpdateFlags, updateFlagUnless]
  refine ⟨?_, ?_, hflag .subtract⟩
  · rw [carryBit, hflag .carry, show (s.aluA .add y).a = s.a + y from rfl, BitVec.toNat_add]
    by_cases h : 2 ^ 8 ≤ s.a.toNat + y.toNat <;> simp only [h] <;> simp <;> omega
  · have hmask : ∀ x : Byte, (x &&& 0x10 == 0x10) = x.getLsbD 4 := by decide +kernel
    rw [hflag .halfCarry, hmask, bit_iff, BitVec.toNat_add, low_nibble, low_nibble,
      decide_eq_decide]
    omega

theorem aluA_sub (y : Byte) : Subtracted s.a y 0 (s.aluA .sub y) := by
  have hflag (flag : Flag) : (s.aluA .sub y).isFlagSet flag =
      match flag with
      | .carry => decide (s.a.toNat < y.toNat)
      | .halfCarry => ((s.a &&& 0x0f) - (y &&& 0x0f)) &&& 0x10 != 0
      | .subtract => true
      | .zero => s.a - y == 0 := by
    cases flag <;> simp [aluA, toA, sub8UpdateFlags, updateFlagUnless]
  refine ⟨?_, ?_, hflag .subtract⟩
  · rw [carryBit, hflag .carry, show (s.aluA .sub y).a = s.a - y from rfl, BitVec.toNat_sub]
    by_cases h : s.a.toNat < y.toNat <;> simp only [h] <;> simp <;> omega
  · have hmask : ∀ x : Byte, (x &&& 0x10 != 0) = x.getLsbD 4 := by decide +kernel
    rw [hflag .halfCarry, hmask, bit_iff, BitVec.toNat_sub, low_nibble, low_nibble,
      decide_eq_decide]
    omega

theorem updateCarryFlags_spec (a b : Byte) (result : BitVec 32) (isSubtract : Bool) (t : Cpu μ)
    (ht : t = toA (s.updateCarryFlags (a.setWidth 32) (b.setWidth 32) result isSubtract,
      result.setWidth 8)) :
    t.a.toNat = result.toNat % 2 ^ 8 ∧ t.carryBit = result.toNat / 2 ^ 8 % 2 ∧
      t.isFlagSet .halfCarry = (decide (a.toNat / 2 ^ 4 % 2 = 1) ^^
        decide (b.toNat / 2 ^ 4 % 2 = 1) ^^ decide (result.toNat / 2 ^ 4 % 2 = 1)) ∧
      t.isFlagSet .subtract = isSubtract := by
  have ha : a.toNat % 2 ^ 32 = a.toNat := Nat.mod_eq_of_lt (a.isLt.trans (by decide))
  have hb : b.toNat % 2 ^ 32 = b.toNat := Nat.mod_eq_of_lt (b.isLt.trans (by decide))
  have hcarry : (result &&& 0x100 != 0) = result.getLsbD 8 := mask_ne_zero (by decide) (by decide)
  have hhalf : ((a.setWidth 32 ^^^ b.setWidth 32 ^^^ result) &&& 0x10 != 0) =
      (a.setWidth 32 ^^^ b.setWidth 32 ^^^ result).getLsbD 4 := mask_ne_zero (by decide) (by decide)
  subst ht
  refine ⟨BitVec.toNat_setWidth _ _, ?_, ?_, ?_⟩
  · simp only [carryBit, toA, isFlagSet_writeReg_a, updateCarryFlags, isFlagSet_updateFlag, hcarry,
      reduceCtorEq, ↓reduceIte]
    rw [bit_iff]
    by_cases h : result.toNat / 2 ^ 8 % 2 = 1 <;> simp only [h] <;> simp
    omega
  · simp only [toA, isFlagSet_writeReg_a, updateCarryFlags, isFlagSet_updateFlag, hhalf,
      reduceCtorEq, ↓reduceIte]
    rw [BitVec.getLsbD_xor, BitVec.getLsbD_xor, bit_iff, bit_iff, bit_iff, BitVec.toNat_setWidth,
      BitVec.toNat_setWidth, ha, hb]
  · simp only [toA, isFlagSet_writeReg_a, updateCarryFlags, isFlagSet_updateFlag, ↓reduceIte]

theorem toNat_carryIn : s.carryIn.toNat = s.carryBit := by
  rw [carryIn, carryBit]
  cases s.isFlagSet .carry <;> rfl

theorem carryBit_le : s.carryBit ≤ 1 := Bool.toNat_le _

theorem aluA_adc (y : Byte) : Added s.a y s.carryBit (s.aluA .adc y) := by
  have hc := s.carryBit_le
  generalize hresult : s.a.setWidth 32 + y.setWidth 32 + s.carryIn = result
  have hnat : result.toNat = s.a.toNat + y.toNat + s.carryBit := by
    rw [← hresult, BitVec.toNat_add, BitVec.toNat_add, toNat_carryIn, BitVec.toNat_setWidth,
      BitVec.toNat_setWidth]
    omega
  obtain ⟨hvalue, hcarry, hhalf, hsubtract⟩ :=
    updateCarryFlags_spec s.a y result false (s.aluA .adc y) (by rw [← hresult]; rfl)
  refine ⟨?_, ?_, hsubtract⟩
  · omega
  · rw [hhalf, xor_bit4 (by omega) hc]

theorem aluA_sbc (y : Byte) : Subtracted s.a y s.carryBit (s.aluA .sbc y) := by
  have hc := s.carryBit_le
  generalize hresult : s.a.setWidth 32 - y.setWidth 32 - s.carryIn = result
  have hnat : (result.toNat + y.toNat + s.carryBit) % 2 ^ 32 = s.a.toNat := by
    rw [← hresult, BitVec.toNat_sub, BitVec.toNat_sub, toNat_carryIn, BitVec.toNat_setWidth,
      BitVec.toNat_setWidth]
    omega
  obtain ⟨hvalue, hcarry, hhalf, hsubtract⟩ :=
    updateCarryFlags_spec s.a y result true (s.aluA .sbc y) (by rw [← hresult]; rfl)
  refine ⟨?_, ?_, hsubtract⟩
  · omega
  · -- the difference and the operand add up to what was in the register
    rw [hhalf, Bool.xor_comm, Bool.xor_comm (decide (s.a.toNat / _ % _ = _)), ← Bool.xor_assoc,
      xor_bit4 (by omega) hc, decide_eq_decide]
    omega

/-! ### Packed decimal digits -/

/-- Two decimal digits. -/
def IsBcd (b : Byte) : Prop := b.toNat / 16 ≤ 9 ∧ b.toNat % 16 ≤ 9

instance (b : Byte) : Decidable (IsBcd b) := inferInstanceAs (Decidable (_ ∧ _))

/-- What the two digits stand for. -/
def fromBcd (b : Byte) : ℕ := 10 * (b.toNat / 16) + b.toNat % 16

theorem fromBcd_lt {b : Byte} (h : IsBcd b) : fromBcd b < 100 := by
  obtain ⟨hhigh, hlow⟩ := h
  rw [fromBcd]
  omega

/-- Whether `DAA` corrects the low digit. -/
def daaLow (s : Cpu μ) : Bool :=
  s.isFlagSet .halfCarry || (!s.isFlagSet .subtract && decide (9 < s.a.toNat % 16))

/-- Whether `DAA` corrects the high digit. -/
def daaHigh (s : Cpu μ) : Bool :=
  s.isFlagSet .carry || (!s.isFlagSet .subtract && decide (0x99 < s.a.toNat))

/-- What is added, or subtracted. -/
def daaCorrection (s : Cpu μ) : ℕ := 6 * s.daaLow.toNat + 0x60 * s.daaHigh.toNat

theorem daa_spec : s.daa.carryBit = s.daaHigh.toNat ∧ s.daa.a.toNat = (s.a.toNat +
    if s.isFlagSet .subtract then 256 - s.daaCorrection else s.daaCorrection) % 256 := by
  have hlow : (s.isFlagSet .halfCarry ||
      (!s.isFlagSet .subtract && decide (9 < (s.a &&& 0x0f).toNat))) = s.daaLow := by
    rw [low_nibble]
    rfl
  have hhigh : (s.isFlagSet .carry || (!s.isFlagSet .subtract && decide (0x99 < s.a.toNat))) =
    s.daaHigh := rfl
  have hkept : s.daaHigh = false → s.isFlagSet .carry = false := fun h =>
    (Bool.or_eq_false_iff.mp (hhigh.trans h)).1
  have hmod : s.a.toNat % 256 = s.a.toNat := Nat.mod_eq_of_lt s.a.isLt
  simp only [daa, hlow, hhigh, daaCorrection, carryBit, writeReg_a, isFlagSet_writeReg_a]
  cases s.daaLow <;> cases h : s.daaHigh <;> cases hsubtract : s.isFlagSet .subtract <;>
    simp [hsubtract, hkept, h, hmod, BitVec.toNat_add]

theorem isFlagSet_carry_iff : s.isFlagSet .carry = true ↔ s.carryBit = 1 := by
  rw [carryBit]
  cases s.isFlagSet .carry <;> decide

variable {c : ℕ} {x y : Byte}

/-- **`DAA` behind an addition** of two digits to two digits. -/
theorem Added.daa (h : Added x y c s) (hc : c ≤ 1) (hx : IsBcd x) (hy : IsBcd y) :
    IsBcd s.daa.a ∧ fromBcd s.daa.a + 100 * s.daa.carryBit = fromBcd x + fromBcd y + c := by
  obtain ⟨hvalue, hhalf, hsubtract⟩ := h
  obtain ⟨hcarry, ha⟩ := s.daa_spec
  obtain ⟨hx1, hx0⟩ := hx
  obtain ⟨hy1, hy0⟩ := hy
  have hlow : s.daaLow = decide (10 ≤ x.toNat % 16 + y.toNat % 16 + c) := by
    rw [daaLow, hhalf, hsubtract, Bool.eq_iff_iff]
    simp only [Bool.or_eq_true, decide_eq_true_eq, Bool.not_false, Bool.true_and]
    omega
  have hhigh : s.daaHigh = decide (0x9a ≤ x.toNat + y.toNat + c) := by
    rw [daaHigh, hsubtract, Bool.eq_iff_iff]
    simp only [Bool.or_eq_true, decide_eq_true_eq, Bool.not_false, Bool.true_and,
      isFlagSet_carry_iff]
    omega
  rw [hsubtract, daaCorrection, hlow, hhigh, if_neg (by decide)] at ha
  rw [IsBcd, fromBcd, fromBcd, fromBcd, hcarry, hhigh]
  by_cases h0 : 10 ≤ x.toNat % 16 + y.toNat % 16 + c <;>
    by_cases h1 : 0x9a ≤ x.toNat + y.toNat + c <;>
    simp only [h0, h1, decide_true, decide_false, Bool.toNat_true, Bool.toNat_false] at ha ⊢ <;>
    omega

/-- **`DAA` behind a subtraction** of two digits from two digits. -/
theorem Subtracted.daa (h : Subtracted x y c s) (hc : c ≤ 1) (hx : IsBcd x) (hy : IsBcd y) :
    IsBcd s.daa.a ∧ fromBcd s.daa.a + fromBcd y + c = fromBcd x + 100 * s.daa.carryBit := by
  obtain ⟨hvalue, hhalf, hsubtract⟩ := h
  obtain ⟨hcarry, ha⟩ := s.daa_spec
  obtain ⟨hx1, hx0⟩ := hx
  obtain ⟨hy1, hy0⟩ := hy
  have hlow : s.daaLow = decide (x.toNat % 16 < y.toNat % 16 + c) := by
    rw [daaLow, hhalf, hsubtract, Bool.not_true, Bool.false_and, Bool.or_false]
  have hhigh : s.daaHigh = decide (x.toNat < y.toNat + c) := by
    rw [daaHigh, hsubtract, Bool.not_true, Bool.false_and, Bool.or_false, Bool.eq_iff_iff,
      isFlagSet_carry_iff, decide_eq_true_eq]
    omega
  rw [hsubtract, daaCorrection, hlow, hhigh, if_pos rfl] at ha
  rw [IsBcd, fromBcd, fromBcd, fromBcd, hcarry, hhigh]
  by_cases h0 : x.toNat % 16 < y.toNat % 16 + c <;> by_cases h1 : x.toNat < y.toNat + c <;>
    simp only [h0, h1, decide_true, decide_false, Bool.toNat_true, Bool.toNat_false] at ha ⊢ <;>
    omega

end Byte

/-! ### Numbers of several bytes -/

variable {μ : Type} [Bus μ]

/-- `ADD` or `SUB` for the lowest bytes, `ADC` or `SBC` for the others. -/
def opAt (subtract lowest : Bool) : AluOp :=
  match subtract, lowest with
  | false, true => .add
  | false, false => .adc
  | true, true => .sub
  | true, false => .sbc

/-- The instruction for one byte, whatever form its operand `y` has. -/
inductive Operates (checks : Bool) (op : AluOp) (y : Byte) (t u : Cpu μ) : Prop
  | operand (src : Operand8) (info : InstrInfo) : t.read8 src = y →
      t.execute checks (.alu op src) = .ok (u, info) → Operates checks op y t u
  | immediate (info : InstrInfo) : t.readImm8 checks = .ok y →
      t.execute checks (.aluImm op) = .ok (u, info) → Operates checks op y t u

/-- `DAA`, or nothing. -/
def Adjusts (checks adjust : Bool) (u v : Cpu μ) : Prop :=
  if adjust then ∃ info, u.execute checks .daa = .ok (v, info) else v = u

/-- The bytes of `xs` and `ys`, the lowest ones first, with the bytes `zs` in `A` one after the
other.  Between two of them the program does what it wants to, except to the flags. -/
inductive Bytewise (checks adjust subtract : Bool) :
    Bool → Cpu μ → List Byte → List Byte → List Byte → Cpu μ → Prop
  | nil {lowest : Bool} {s : Cpu μ} : Bytewise checks adjust subtract lowest s [] [] [] s
  | cons {lowest : Bool} {s t u v s' : Cpu μ} {x y : Byte} {xs ys zs : List Byte} :
      t.f = s.f → t.a = x → Operates checks (opAt subtract lowest) y t u →
      Adjusts checks adjust u v → Bytewise checks adjust subtract false v xs ys zs s' →
      Bytewise checks adjust subtract lowest s (x :: xs) (y :: ys) (v.a :: zs) s'

/-- The carry the operation on a byte takes in. -/
def carryInto (lowest : Bool) (s : Cpu μ) : ℕ := if lowest then 0 else s.carryBit

section Runs

variable {checks adjust subtract lowest : Bool} {s t u v s' : Cpu μ} {y : Byte}
  {xs ys zs : List Byte}

theorem Operates.aluA (h : Operates checks (opAt subtract lowest) y t u) :
    u = t.aluA (opAt subtract lowest) y := by
  cases h with
  | operand src info hy hu =>
    cases hu
    rw [hy]
  | immediate info hy hu =>
    rw [execute, hy] at hu
    cases hu
    cases subtract <;> cases lowest <;> rfl

theorem Operates.added (h : Operates checks (opAt false lowest) y t u) :
    Added t.a y (carryInto lowest t) u := by
  rw [h.aluA]
  cases lowest with
  | true => exact aluA_add y
  | false => exact aluA_adc y

theorem Operates.subtracted (h : Operates checks (opAt true lowest) y t u) :
    Subtracted t.a y (carryInto lowest t) u := by
  rw [h.aluA]
  cases lowest with
  | true => exact aluA_sub y
  | false => exact aluA_sbc y

theorem Adjusts.eq (h : Adjusts checks adjust u v) : v = if adjust then u.daa else u := by
  cases adjust with
  | false => exact h
  | true =>
    obtain ⟨info, h⟩ := h
    cases h
    rfl

omit [Bus μ] in
theorem carryInto_le : carryInto lowest s ≤ 1 := by
  cases lowest with
  | true => exact Nat.zero_le 1
  | false => exact carryBit_le

variable {digit : Byte → ℕ} {b : ℕ}

/-- **From one byte to all of them**: a law of the single bytes is a law of the places. -/
theorem Bytewise.chain {law : PlaceLaw} {ok : Byte → Prop}
    (hplace : ∀ lowest (t u v : Cpu μ) y, ok t.a → ok y →
      Operates checks (opAt subtract lowest) y t u → Adjusts checks adjust u v →
      ok v.a ∧ law (carryInto lowest t) (digit t.a) (digit y) (digit v.a) v.carryBit)
    (h : Bytewise checks adjust subtract lowest s xs ys zs s') (hne : xs ≠ [])
    (hxs : ∀ x ∈ xs, ok x) (hys : ∀ y ∈ ys, ok y) :
    (∀ z ∈ zs, ok z) ∧
      Chain law (carryInto lowest s) (xs.map digit) (ys.map digit) (zs.map digit) s'.carryBit := by
  induction h with
  | nil => exact absurd rfl hne
  | @cons lowest s t u v s' x y xs ys zs hf ha hop hadjust hrest ih =>
    have hcarry : carryInto lowest t = carryInto lowest s := by
      rw [carryInto, carryInto, carryBit, carryBit, isFlagSet_congr hf]
    subst ha
    obtain ⟨hok, hlaw⟩ := hplace lowest t u v y (hxs _ List.mem_cons_self)
      (hys _ List.mem_cons_self) hop hadjust
    rw [hcarry] at hlaw
    cases xs with
    | nil =>
      cases hrest
      exact ⟨by simpa using hok, .cons hlaw .nil⟩
    | cons x xs =>
      obtain ⟨hoks, hchain⟩ := ih (List.cons_ne_nil _ _) (fun z hz => hxs z (.tail _ hz))
        fun z hz => hys z (.tail _ hz)
      exact ⟨List.forall_mem_cons.mpr ⟨hok, hoks⟩, .cons hlaw hchain⟩

/-- The number the bytes make up. -/
def binaryValue (bytes : List Byte) : ℕ := Nat.ofDigits 256 (bytes.map BitVec.toNat)

/-- The number the packed digits make up. -/
def decimalValue (bytes : List Byte) : ℕ := Nat.ofDigits 100 (bytes.map fromBcd)

/-- What is left of a sum below the modulus, and whether something is lost. -/
def IsSum (modulus x y z : ℕ) (carry : Bool) : Prop :=
  z = (x + y) % modulus ∧ carry = decide (modulus ≤ x + y)

/-- The difference below the modulus, and whether it borrows. -/
def IsDifference (modulus x y z : ℕ) (borrow : Bool) : Prop :=
  z = (x + modulus - y) % modulus ∧ borrow = decide (x < y)

theorem binaryValue_lt (bytes : List Byte) : binaryValue bytes < 256 ^ bytes.length := by
  have h := Nat.ofDigits_lt_base_pow_length (b := 256) (l := bytes.map BitVec.toNat) (by decide)
    (List.forall_mem_map.mpr fun b _ => b.isLt)
  rwa [List.length_map] at h

theorem decimalValue_lt {bytes : List Byte} (h : ∀ b ∈ bytes, IsBcd b) :
    decimalValue bytes < 100 ^ bytes.length := by
  have h := Nat.ofDigits_lt_base_pow_length (b := 100) (l := bytes.map fromBcd) (by decide)
    (List.forall_mem_map.mpr fun b hb => fromBcd_lt (h b hb))
  rwa [List.length_map] at h

omit [Bus μ] in
theorem isSum_of_chain
    (h : Chain (addsAt b) 0 (xs.map digit) (ys.map digit) (zs.map digit) s'.carryBit)
    (hzs : Nat.ofDigits b (zs.map digit) < b ^ zs.length) :
    IsSum (b ^ xs.length) (Nat.ofDigits b (xs.map digit)) (Nat.ofDigits b (ys.map digit))
      (Nat.ofDigits b (zs.map digit)) (s'.isFlagSet .carry) := by
  have hlength := h.length
  rw [List.length_map, List.length_map] at hlength
  obtain ⟨hvalue, hcarry⟩ := h.sum carryBit_le (by rwa [List.length_map, ← hlength])
  rw [List.length_map] at hvalue hcarry
  exact ⟨hvalue, by rw [Bool.eq_iff_iff, isFlagSet_carry_iff, hcarry, decide_eq_true_eq]⟩

omit [Bus μ] in
theorem isDifference_of_chain
    (h : Chain (subtractsAt b) 0 (xs.map digit) (ys.map digit) (zs.map digit) s'.carryBit)
    (hzs : Nat.ofDigits b (zs.map digit) < b ^ zs.length) :
    IsDifference (b ^ xs.length) (Nat.ofDigits b (xs.map digit)) (Nat.ofDigits b (ys.map digit))
      (Nat.ofDigits b (zs.map digit)) (s'.isFlagSet .carry) := by
  have hlength := h.length
  rw [List.length_map, List.length_map] at hlength
  obtain ⟨hvalue, hcarry⟩ := h.difference carryBit_le (by rwa [List.length_map, ← hlength])
  rw [List.length_map] at hvalue
  exact ⟨hvalue, by rw [Bool.eq_iff_iff, isFlagSet_carry_iff, hcarry, decide_eq_true_eq]⟩

theorem Bytewise.isSum (h : Bytewise checks false false true s xs ys zs s') (hne : xs ≠ []) :
    IsSum (256 ^ xs.length) (binaryValue xs) (binaryValue ys) (binaryValue zs)
      (s'.isFlagSet .carry) := by
  have hplace (lowest : Bool) (t u v : Cpu μ) (y : Byte) (_ : True) (_ : True)
      (hop : Operates checks (opAt false lowest) y t u) (hadjust : Adjusts checks false u v) :
      True ∧ addsAt 256 (carryInto lowest t) t.a.toNat y.toNat v.a.toNat v.carryBit := by
    cases hadjust
    exact ⟨trivial, hop.added.value⟩
  exact isSum_of_chain (h.chain hplace hne (fun _ _ => trivial) fun _ _ => trivial).2
    (binaryValue_lt zs)

theorem Bytewise.isDifference (h : Bytewise checks false true true s xs ys zs s') (hne : xs ≠ []) :
    IsDifference (256 ^ xs.length) (binaryValue xs) (binaryValue ys) (binaryValue zs)
      (s'.isFlagSet .carry) := by
  have hplace (lowest : Bool) (t u v : Cpu μ) (y : Byte) (_ : True) (_ : True)
      (hop : Operates checks (opAt true lowest) y t u) (hadjust : Adjusts checks false u v) :
      True ∧ subtractsAt 256 (carryInto lowest t) t.a.toNat y.toNat v.a.toNat v.carryBit := by
    cases hadjust
    exact ⟨trivial, hop.subtracted.value⟩
  exact isDifference_of_chain (h.chain hplace hne (fun _ _ => trivial) fun _ _ => trivial).2
    (binaryValue_lt zs)

theorem Bytewise.isDecimalSum (h : Bytewise checks true false true s xs ys zs s') (hne : xs ≠ [])
    (hxs : ∀ x ∈ xs, IsBcd x) (hys : ∀ y ∈ ys, IsBcd y) :
    (∀ z ∈ zs, IsBcd z) ∧ IsSum (100 ^ xs.length) (decimalValue xs) (decimalValue ys)
      (decimalValue zs) (s'.isFlagSet .carry) := by
  have hplace (lowest : Bool) (t u v : Cpu μ) (y : Byte) (hx : IsBcd t.a) (hy : IsBcd y)
      (hop : Operates checks (opAt false lowest) y t u) (hadjust : Adjusts checks true u v) :
      IsBcd v.a ∧
        addsAt 100 (carryInto lowest t) (fromBcd t.a) (fromBcd y) (fromBcd v.a) v.carryBit := by
    rw [hadjust.eq]
    exact hop.added.daa carryInto_le hx hy
  obtain ⟨hzs, hchain⟩ := h.chain hplace hne hxs hys
  exact ⟨hzs, isSum_of_chain hchain (decimalValue_lt hzs)⟩

theorem Bytewise.isDecimalDifference (h : Bytewise checks true true true s xs ys zs s')
    (hne : xs ≠ []) (hxs : ∀ x ∈ xs, IsBcd x) (hys : ∀ y ∈ ys, IsBcd y) :
    (∀ z ∈ zs, IsBcd z) ∧ IsDifference (100 ^ xs.length) (decimalValue xs) (decimalValue ys)
      (decimalValue zs) (s'.isFlagSet .carry) := by
  have hplace (lowest : Bool) (t u v : Cpu μ) (y : Byte) (hx : IsBcd t.a) (hy : IsBcd y)
      (hop : Operates checks (opAt true lowest) y t u) (hadjust : Adjusts checks true u v) :
      IsBcd v.a ∧
        subtractsAt 100 (carryInto lowest t) (fromBcd t.a) (fromBcd y) (fromBcd v.a) v.carryBit := by
    rw [hadjust.eq]
    exact hop.subtracted.daa carryInto_le hx hy
  obtain ⟨hzs, hchain⟩ := h.chain hplace hne hxs hys
  exact ⟨hzs, isDifference_of_chain hchain (decimalValue_lt hzs)⟩

end Runs

/-- There is a program for any two numbers: the operand in `B`. -/
theorem exists_bytewise (checks adjust subtract lowest : Bool) (s : Cpu μ) (xs ys : List Byte)
    (hlen : xs.length = ys.length) :
    ∃ zs s', Bytewise checks adjust subtract lowest s xs ys zs s' := by
  induction xs generalizing s ys lowest with
  | nil =>
    cases ys with
    | nil => exact ⟨[], s, .nil⟩
    | cons y ys => cases hlen
  | cons x xs ih =>
    cases ys with
    | nil => cases hlen
    | cons y ys =>
      let t := (s.writeReg .b y).writeReg .a x
      let u := t.aluA (opAt subtract lowest) y
      let v := if adjust then u.daa else u
      obtain ⟨zs, s', hrest⟩ := ih false v ys (Nat.succ.inj hlen)
      have hadjust : Adjusts checks adjust u v := by
        cases adjust with
        | false => rfl
        | true => exact ⟨_, rfl⟩
      exact ⟨v.a :: zs, s', .cons (t := t) rfl rfl (.operand (.reg .b) _ rfl rfl) hadjust hrest⟩

/-- **Arithmetic on numbers of `n` bytes.**  `ADD` on the lowest bytes and `ADC` on the others leave
the sum and its carry, `SUB` and `SBC` the difference and its borrow; and with `DAA` behind each of
them they do the same to numbers of `2 n` packed decimal digits. -/
theorem multiByte_arithmetic (checks : Bool) (s s' : Cpu μ) (xs ys zs : List Byte) (hne : xs ≠ []) :
    (Bytewise checks false false true s xs ys zs s' →
      IsSum (2 ^ (8 * xs.length)) (binaryValue xs) (binaryValue ys) (binaryValue zs)
        (s'.isFlagSet .carry)) ∧
    (Bytewise checks false true true s xs ys zs s' →
      IsDifference (2 ^ (8 * xs.length)) (binaryValue xs) (binaryValue ys) (binaryValue zs)
        (s'.isFlagSet .carry)) ∧
    ((∀ x ∈ xs, IsBcd x) → (∀ y ∈ ys, IsBcd y) →
      (Bytewise checks true false true s xs ys zs s' → (∀ z ∈ zs, IsBcd z) ∧
        IsSum (10 ^ (2 * xs.length)) (decimalValue xs) (decimalValue ys) (decimalValue zs)
          (s'.isFlagSet .carry)) ∧
      (Bytewise checks true true true s xs ys zs s' → (∀ z ∈ zs, IsBcd z) ∧
        IsDifference (10 ^ (2 * xs.length)) (decimalValue xs) (decimalValue ys) (decimalValue zs)
          (s'.isFlagSet .carry))) := by
  rw [pow_mul, pow_mul]
  exact ⟨fun h => h.isSum hne, fun h => h.isDifference hne, fun hxs hys =>
    ⟨fun h => h.isDecimalSum hne hxs hys, fun h => h.isDecimalDifference hne hxs hys⟩⟩

/-- `0199 + 0001`, digit by digit. -/
theorem multiByte_arithmetic_199 :
    ∃ zs s', Bytewise true true false true (filled 0 0) [0x99, 0x01] [0x01, 0x00] zs s' ∧
      decimalValue zs = 200 ∧ s'.isFlagSet .carry = false := by
  obtain ⟨zs, s', h⟩ := exists_bytewise true true false true (filled 0 0)
    [0x99, 0x01] [0x01, 0x00] rfl
  have hsum := (((multiByte_arithmetic true _ s' [0x99, 0x01] [0x01, 0x00] zs (by decide)).2.2
    (by decide) (by decide)).1 h).2
  exact ⟨zs, s', h, hsum.1.trans (by decide), hsum.2.trans (by decide)⟩

end Cpu

end Axle.GameBoy
