import Axle.Compiler.Simulator

/-!
# Code generation for expressions

`codegen_expression` leaves the value of an expression in `rax` and keeps the operands of an
operator on the stack.  The slots hold 32 bits and `pop` writes the low half of a register only,
while the operators and the comparison work on whole registers: what the high halves hold then
depends on what was computed before, and on what `rbx` held at the start.

* `codegenExpression` — the code generator;
* `raxValue` — the 64 bits that end up in `rax`, with the high half of the initial `rbx`;
* `raxValue_low` — **PROVED**: their low half is the value of the expression modulo `2 ^ 32`;
* `codegen_runs` — **PROVED**: the generated code computes `raxValue`, restores `rsp` and leaves the
  memory from there on alone; with overflow checks it panics exactly when an operator overflows;
* `codegenExpression_correct_iff` — **PROVED**: when the result and the `Zero` flag are right.
-/

namespace Axle.Compiler

/-! ### Expressions and the code generator -/

/-- Floating-point values are kept as their bits; the code generator does not handle them. -/
inductive Token where
  | comma | curlyBraceLeft | curlyBraceRight | dot
  | float (bits : BitVec 64)
  | identifier (name : String)
  | int (value : BitVec 64)
  | plus | minus | parenLeft | parenRight | percent | quote | semicolon | tilde | bang | asterisk
  | carat | equals | doubleEquals | forwardSlash | question | colon
deriving DecidableEq, Repr

inductive PrefixOperator where
  | plus | minus | tilde | bang | parenLeft
deriving DecidableEq, Repr

inductive InfixOperator where
  | plus | minus | asterisk | parenLeft | carat | equals | doubleEquals | forwardSlash | question
deriving DecidableEq, Repr

inductive Expr where
  | nameExpr (token : Token)
  | intExpr (value : BitVec 64)
  | floatExpr (bits : BitVec 64)
  | prefixExpr (op : PrefixOperator) (expr : Expr)
  | operatorExpr (lhs : Expr) (op : InfixOperator) (rhs : Expr)
  | callExpr (lhs : Expr) (args : List Expr)
  | assignmentExpr (name : String) (rhs : Expr)
  | ternaryExpr (cond thenExpr elseExpr : Expr)
  | testExpr (lhs rhs : Expr)

/-- What follows the two pushes of the operands. -/
def applyOperator : InfixOperator → Option (List Instr)
  | .plus => some [.popIntoReg .rax, .popIntoReg .rbx, .addRegToReg .rax .rbx]
  | .minus => some [.popIntoReg .rbx, .popIntoReg .rax, .subRegFromReg .rax .rbx]
  | .asterisk => some [.popIntoReg .rax, .popIntoReg .rbx, .mulRegByReg .rax .rbx]
  | .doubleEquals => some [.popIntoReg .rbx, .popIntoReg .rax, .compareRegWithReg .rax .rbx]
  | _ => none

/-- `CodeGenerator::codegen_expression`; `none` is `todo!()` or the failed `assert_eq!`. -/
def codegenExpression : Expr → Option (List Instr)
  | .operatorExpr lhs op rhs => do
    let lhsInstrs ← codegenExpression lhs
    let rhsInstrs ← codegenExpression rhs
    let operatorInstrs ← applyOperator op
    some (lhsInstrs ++ [.pushFromReg .rax] ++ rhsInstrs ++ [.pushFromReg .rax] ++ operatorInstrs)
  | .intExpr val => some [.moveImmToReg val .rax]
  | .callExpr (.nameExpr (.identifier "sim_shim_get_input")) _ => some [.simulatorShimGetInput]
  | _ => none

/-! ### The expressions in question and their values -/

/-- Trees of integer literals with `+`, `-` and `*`. -/
inductive Arith : Expr → Prop where
  | int (val : BitVec 64) : Arith (.intExpr val)
  | plus {l r : Expr} : Arith l → Arith r → Arith (.operatorExpr l .plus r)
  | minus {l r : Expr} : Arith l → Arith r → Arith (.operatorExpr l .minus r)
  | times {l r : Expr} : Arith l → Arith r → Arith (.operatorExpr l .asterisk r)

/-- The value of such an expression. -/
def value : Expr → Int
  | .intExpr val => val.toNat
  | .operatorExpr l .plus r => value l + value r
  | .operatorExpr l .minus r => value l - value r
  | .operatorExpr l .asterisk r => value l * value r
  | _ => 0

/-- The stack slots that evaluation needs. -/
def slotsNeeded : Expr → Nat
  | .operatorExpr l _ r => max (slotsNeeded l) (max (slotsNeeded r + 1) 2)
  | _ => 0

/-- What ends up in `rax`: each operator sees the high half that its right operand left in `rax`,
and the high half of the initial `rbx`. -/
def raxValue (rbx : BitVec 64) : Expr → BitVec 64
  | .intExpr val => val
  | .operatorExpr l .plus r => raxValue rbx r + writeLow 32 rbx (raxValue rbx l)
  | .operatorExpr l .minus r =>
    writeLow 32 (raxValue rbx r) (raxValue rbx l) - writeLow 32 rbx (raxValue rbx r)
  | .operatorExpr l .asterisk r => raxValue rbx r * writeLow 32 rbx (raxValue rbx l)
  | _ => 0

/-- No operator overflows 64 bits. -/
def NoOverflow (rbx : BitVec 64) : Expr → Prop
  | .operatorExpr l .plus r => NoOverflow rbx l ∧ NoOverflow rbx r ∧
      (raxValue rbx r).uaddOverflow (writeLow 32 rbx (raxValue rbx l)) = false
  | .operatorExpr l .minus r => NoOverflow rbx l ∧ NoOverflow rbx r ∧
      (writeLow 32 (raxValue rbx r) (raxValue rbx l)).usubOverflow
        (writeLow 32 rbx (raxValue rbx r)) = false
  | .operatorExpr l .asterisk r => NoOverflow rbx l ∧ NoOverflow rbx r ∧
      (raxValue rbx r).umulOverflow (writeLow 32 rbx (raxValue rbx l)) = false
  | _ => True

theorem writeLow_low (b x : BitVec 64) : (writeLow 32 b x).setWidth 32 = x.setWidth 32 := by
  apply BitVec.eq_of_toNat_eq
  rw [BitVec.toNat_setWidth, BitVec.toNat_setWidth, writeLow_toNat]
  omega

theorem writeLow_writeLow (b x y : BitVec 64) :
    writeLow 32 (writeLow 32 b x) y = writeLow 32 b y := by
  apply BitVec.eq_of_toNat_eq
  rw [writeLow_toNat, writeLow_toNat, writeLow_toNat]
  omega

variable {x y b b' : BitVec 64} {e l r : Expr} {checks : Bool} {li ri : List Instr}
  {m : MachineState}

theorem writeLow_congr (b : BitVec 64) (h : x.setWidth 32 = y.setWidth 32) :
    writeLow 32 b x = writeLow 32 b y := by
  apply BitVec.eq_of_toNat_eq
  have hlow := congrArg BitVec.toNat h
  rw [BitVec.toNat_setWidth, BitVec.toNat_setWidth] at hlow
  rw [writeLow_toNat, writeLow_toNat, hlow]

theorem setWidth_sub_low (x y : BitVec 64) :
    (x - y).setWidth 32 = x.setWidth 32 - y.setWidth 32 := by
  apply BitVec.eq_of_toNat_eq
  simp only [BitVec.toNat_setWidth, BitVec.toNat_sub]
  omega

/-- **The low half is the value**, whatever the high halves are. -/
theorem raxValue_low (he : Arith e) (rbx : BitVec 64) :
    (raxValue rbx e).setWidth 32 = BitVec.ofInt 32 (value e) := by
  induction he with
  | int val =>
    apply BitVec.eq_of_toNat_eq
    rw [raxValue, value, BitVec.toNat_setWidth, BitVec.ofInt_natCast, BitVec.toNat_ofNat]
  | plus _ _ ihl ihr =>
    rw [raxValue, value, BitVec.setWidth_add _ _ (by decide), writeLow_low, ihl, ihr,
      BitVec.ofInt_add, BitVec.add_comm]
  | minus _ _ ihl ihr =>
    rw [raxValue, value, setWidth_sub_low, writeLow_low, writeLow_low, ihl, ihr, Int.sub_eq_add_neg,
      BitVec.ofInt_add, BitVec.ofInt_neg, BitVec.sub_eq_add_neg]
  | times _ _ ihl ihr =>
    rw [raxValue, value, BitVec.setWidth_mul _ _ (by decide), writeLow_low, ihl, ihr,
      BitVec.ofInt_mul, BitVec.mul_comm]

/-! ### Room on the stack -/

open MachineState

/-- The next `n` slots below the stack pointer can be written. -/
def HasRoom (checks : Bool) (m : MachineState) (n : Nat) : Prop :=
  ∀ k < n, 4 * (k + 1) ≤ (m.registers .rsp).toNat ∧
    ∀ word, ∃ ram, m.ram.writeU32 checks
      (BitVec.ofNat 64 ((m.registers .rsp).toNat - 4 * (k + 1))) word = some ram

section Stack

variable {checks : Bool} {m t : MachineState} {n : Nat}

theorem HasRoom.mono {n' : Nat} (h : HasRoom checks m n) (hle : n' ≤ n) : HasRoom checks m n' :=
  fun k hk => h k (Nat.lt_of_lt_of_le hk hle)

theorem HasRoom.congr (h : HasRoom checks m n) (hrsp : t.registers .rsp = m.registers .rsp)
    (hshape : m.ram.shape = t.ram.shape) : HasRoom checks t n := by
  intro k hk
  rw [hrsp]
  refine ⟨(h k hk).1, fun word => ?_⟩
  obtain ⟨ram, hram⟩ := (h k hk).2 word
  exact writeU32_congr hshape hram

theorem HasRoom.push (h : HasRoom checks m (n + 1)) (view : RegView) :
    ∃ slot t, m.runInstruction checks (.pushFromReg view) = some t ∧
      t.registers = Function.update m.registers .rsp slot ∧
      slot.toNat + 4 = (m.registers .rsp).toNat ∧
      t.ram.readU32 checks slot = some ((m.registers view.reg).setWidth 32) ∧
      m.ram.AgreeFrom (m.registers .rsp).toNat t.ram ∧ HasRoom checks t n := by
  obtain ⟨hle, hwrite⟩ := h 0 (Nat.succ_pos n)
  obtain ⟨ram, hram⟩ := hwrite ((m.registers view.reg).setWidth 32)
  have hslot : (BitVec.ofNat 64 ((m.registers .rsp).toNat - 4 * (0 + 1))).toNat + 4 =
      (m.registers .rsp).toNat := by
    rw [BitVec.toNat_ofNat]
    omega
  refine ⟨_, _, push_of_write view hslot hram, rfl, hslot, readU32_writeU32 hram, ?_, ?_⟩
  · rw [← hslot]
    exact agreeFrom_writeU32 hram
  · intro k hk
    obtain ⟨hle', hwrite'⟩ := h (k + 1) (Nat.succ_lt_succ hk)
    rw [setReg_registers, Function.update_self]
    refine ⟨by omega, fun word => ?_⟩
    obtain ⟨ram', hram'⟩ := hwrite' word
    rw [show (BitVec.ofNat 64 ((m.registers .rsp).toNat - 4 * (0 + 1))).toNat - 4 * (k + 1) =
      (m.registers .rsp).toNat - 4 * (k + 1 + 1) by omega]
    exact writeU32_congr (writeU32_shape hram).symm hram'

theorem pop_known {word : BitVec 32} (hread : m.ram.readU32 checks (m.registers .rsp) = some word)
    (view : RegView) :
    ∃ rsp t, m.runInstruction checks (.popIntoReg view) = some t ∧
      rsp.toNat = (m.registers .rsp).toNat + 4 ∧
      t.registers = Function.update (Function.update m.registers view.reg
        (writeLow 32 (m.registers view.reg) (word.setWidth 64))) .rsp rsp ∧
      t.ram = m.ram := by
  obtain ⟨t, ht⟩ := pop_of_read view hread
  obtain ⟨word', rsp, hread', hrsp, hregs, hram, -⟩ := pop_eq_some ht
  rw [hread] at hread'
  cases hread'
  exact ⟨rsp, t, ht, hrsp, hregs, hram⟩

end Stack

/-! ### Running the generated code -/

/-- The build does not check, or no operator overflows. -/
def Fine (checks : Bool) (rbx : BitVec 64) (e : Expr) : Prop := checks = true → NoOverflow rbx e

/-- From `m` to `t` a value has been computed. -/
structure Computed (m t : MachineState) (a : BitVec 64) : Prop where
  rax : t.registers .rax = a
  rbx : ∀ y, writeLow 32 (t.registers .rbx) y = writeLow 32 (m.registers .rbx) y
  rsp : t.registers .rsp = m.registers .rsp
  ram : m.ram.AgreeFrom (m.registers .rsp).toNat t.ram

/-- The code computes `raxValue`, or panics when an operator overflows. -/
def Runs (checks : Bool) (e : Expr) (instrs : List Instr) : Prop :=
  ∀ m, HasRoom checks m (slotsNeeded e) →
    (Fine checks (m.registers .rbx) e → ∃ t, m.runInstructions checks instrs = some t ∧
      Computed m t (raxValue (m.registers .rbx) e)) ∧
    (¬Fine checks (m.registers .rbx) e → m.runInstructions checks instrs = none)

/-- Only the high half of `rbx` matters. -/
theorem raxValue_congr (h : ∀ y, writeLow 32 b y = writeLow 32 b' y) (he : Arith e) :
    raxValue b e = raxValue b' e := by
  induction he with
  | int val => rfl
  | plus _ _ ihl ihr => rw [raxValue, raxValue, ihl, ihr, h]
  | minus _ _ ihl ihr => rw [raxValue, raxValue, ihl, ihr, h]
  | times _ _ ihl ihr => rw [raxValue, raxValue, ihl, ihr, h]

theorem noOverflow_congr (h : ∀ y, writeLow 32 b y = writeLow 32 b' y) (he : Arith e) :
    NoOverflow b e ↔ NoOverflow b' e := by
  induction he with
  | int val => exact Iff.rfl
  | plus hl hr ihl ihr =>
    rw [NoOverflow, NoOverflow, ihl, ihr, raxValue_congr h hl, raxValue_congr h hr, h]
  | minus hl hr ihl ihr =>
    rw [NoOverflow, NoOverflow, ihl, ihr, raxValue_congr h hl, raxValue_congr h hr, h]
  | times hl hr ihl ihr =>
    rw [NoOverflow, NoOverflow, ihl, ihr, raxValue_congr h hl, raxValue_congr h hr, h]

/-- Both operands have been computed and pushed. -/
structure Operands (checks : Bool) (m t : MachineState) (l r : BitVec 64) : Prop where
  rax : t.registers .rax = r
  rbx : ∀ y, writeLow 32 (t.registers .rbx) y = writeLow 32 (m.registers .rbx) y
  rsp : (t.registers .rsp).toNat + 8 = (m.registers .rsp).toNat
  top : t.ram.readU32 checks (t.registers .rsp) = some (r.setWidth 32)
  next : ∀ slot : BitVec 64, slot.toNat = (t.registers .rsp).toNat + 4 →
    t.ram.readU32 checks slot = some (l.setWidth 32)
  ram : m.ram.AgreeFrom (m.registers .rsp).toNat t.ram

theorem operands_run (hr : Arith r) (ihl : Runs checks l li) (ihr : Runs checks r ri)
    (m : MachineState)
    (hroom : HasRoom checks m (max (slotsNeeded l) (max (slotsNeeded r + 1) 2))) :
    (Fine checks (m.registers .rbx) l ∧ Fine checks (m.registers .rbx) r →
      ∃ t, m.runInstructions checks (li ++ [.pushFromReg .rax] ++ ri ++ [.pushFromReg .rax]) =
        some t ∧
        Operands checks m t (raxValue (m.registers .rbx) l) (raxValue (m.registers .rbx) r)) ∧
    (¬(Fine checks (m.registers .rbx) l ∧ Fine checks (m.registers .rbx) r) →
      m.runInstructions checks (li ++ [.pushFromReg .rax] ++ ri ++ [.pushFromReg .rax]) =
        none) := by
  rw [runInstructions_append, runInstructions_append, runInstructions_append]
  by_cases hfl : Fine checks (m.registers .rbx) l
  · obtain ⟨t₁, ht₁, hc₁⟩ := (ihl m (hroom.mono (by omega))).1 hfl
    have hroom₁ : HasRoom checks t₁ (max (slotsNeeded r) 1 + 1) :=
      (hroom.mono (by omega)).congr hc₁.rsp hc₁.ram.1
    obtain ⟨slot₁, t₂, ht₂, hregs₂, hslot₁, hread₁, hram₂, hroom₂⟩ := hroom₁.push .rax
    have hrbx₂ : ∀ y, writeLow 32 (t₂.registers .rbx) y = writeLow 32 (m.registers .rbx) y := by
      intro y
      rw [hregs₂, Function.update_of_ne (by decide), hc₁.rbx]
    have hrsp₂ : t₂.registers .rsp = slot₁ := by rw [hregs₂, Function.update_self]
    have hfine : Fine checks (t₂.registers .rbx) r ↔ Fine checks (m.registers .rbx) r := by
      rw [Fine, Fine, noOverflow_congr hrbx₂ hr]
    rw [ht₁, Option.bind_some, runInstructions_singleton, ht₂, Option.bind_some]
    by_cases hfr : Fine checks (m.registers .rbx) r
    · refine ⟨fun _ => ?_, fun h => absurd ⟨hfl, hfr⟩ h⟩
      obtain ⟨t₃, ht₃, hc₃⟩ := (ihr t₂ (hroom₂.mono (by omega))).1 (hfine.mpr hfr)
      have hroom₃ : HasRoom checks t₃ (0 + 1) :=
        (hroom₂.mono (by omega)).congr hc₃.rsp hc₃.ram.1
      obtain ⟨slot₂, t₄, ht₄, hregs₄, hslot₂, hread₂, hram₄, -⟩ := hroom₃.push .rax
      have hrsp₄ : t₄.registers .rsp = slot₂ := by rw [hregs₄, Function.update_self]
      rw [hc₁.rsp] at hslot₁ hram₂
      rw [hc₃.rsp, hrsp₂] at hslot₂ hram₄
      have hram₃ := hc₃.ram
      rw [hrsp₂] at hram₃
      rw [ht₃, Option.bind_some, runInstructions_singleton, ht₄]
      refine ⟨t₄, rfl, ?_, ?_, ?_, ?_, ?_, ?_⟩
      · rw [hregs₄, Function.update_of_ne (by decide), hc₃.rax, raxValue_congr hrbx₂ hr]
      · intro y
        rw [hregs₄, Function.update_of_ne (by decide), hc₃.rbx, hrbx₂]
      · rw [hrsp₄]
        omega
      · rw [hrsp₄, hread₂, RegView.rax, hc₃.rax, raxValue_congr hrbx₂ hr]
      · -- the first slot is above everything written since
        intro slot hslot
        rw [hrsp₄] at hslot
        obtain rfl : slot = slot₁ := BitVec.eq_of_toNat_eq (by omega)
        rw [← hram₄.readU32 (Nat.le_refl _), ← hram₃.readU32 (Nat.le_refl _), hread₁, RegView.rax,
          hc₁.rax]
      · refine hc₁.ram.trans (hram₂.trans ((hram₃.mono ?_).trans (hram₄.mono ?_)))
        · omega
        · omega
    · refine ⟨fun h => absurd h.2 hfr, fun _ => ?_⟩
      rw [(ihr t₂ (hroom₂.mono (by omega))).2 fun h => hfr (hfine.mp h)]
      rfl
  · refine ⟨fun h => absurd h.1 hfl, fun _ => ?_⟩
    rw [(ihl m (hroom.mono (by omega))).2 hfl]
    rfl

theorem Operands.pop {m t : MachineState} {l r : BitVec 64} (h : Operands checks m t l r)
    (v₁ v₂ : RegView) (hne : v₁.reg ≠ v₂.reg) (h₁ : v₁.reg ≠ .rsp) (h₂ : v₂.reg ≠ .rsp) :
    ∃ t', t.runInstructions checks [.popIntoReg v₁, .popIntoReg v₂] = some t' ∧
      t'.registers v₁.reg = writeLow 32 (t.registers v₁.reg) r ∧
      t'.registers v₂.reg = writeLow 32 (t.registers v₂.reg) l ∧
      t'.registers .rsp = m.registers .rsp ∧ t'.ram = t.ram := by
  obtain ⟨rsp₁, t₁, ht₁, hrsp₁, hregs₁, hram₁⟩ := pop_known h.top v₁
  have hrspEq : t₁.registers .rsp = rsp₁ := by rw [hregs₁, Function.update_self]
  have hnext : t₁.ram.readU32 checks (t₁.registers .rsp) = some (l.setWidth 32) := by
    rw [hram₁, hrspEq]
    exact h.next rsp₁ hrsp₁
  obtain ⟨rsp₂, t₂, ht₂, hrsp₂, hregs₂, hram₂⟩ := pop_known hnext v₂
  have hlow : ∀ b x : BitVec 64, writeLow 32 b ((x.setWidth 32).setWidth 64) = writeLow 32 b x := by
    intro b x
    apply writeLow_congr
    rw [BitVec.setWidth_setWidth_of_le _ (by decide), BitVec.setWidth_eq]
  refine ⟨t₂, ?_, ?_, ?_, ?_, ?_⟩
  · rw [runInstructions, ht₁, Option.bind_eq_bind, Option.bind_some, runInstructions_singleton, ht₂]
  · rw [hregs₂, Function.update_of_ne h₁, Function.update_of_ne hne, hregs₁,
      Function.update_of_ne h₁, Function.update_self, hlow]
  · rw [hregs₂, Function.update_of_ne h₂, Function.update_self, hregs₁, Function.update_of_ne h₂,
      Function.update_of_ne hne.symm, hlow]
  · rw [hregs₂, Function.update_self]
    apply BitVec.eq_of_toNat_eq
    have := h.rsp
    rw [hrspEq] at hrsp₂
    omega
  · rw [hram₂, hram₁]

theorem writeLow_self (x : BitVec 64) : writeLow 32 x x = x := by
  apply BitVec.eq_of_toNat_eq
  rw [writeLow_toNat]
  omega

/-- One operator, given what its last instruction does to the two popped registers. -/
theorem runs_operator {v₁ v₂ : RegView} {i : Instr} {overflow : BitVec 64 → Bool} (hr : Arith r)
    (ihl : Runs checks l li) (ihr : Runs checks r ri)
    (hviews : (v₁ = .rax ∧ v₂ = .rbx) ∨ (v₁ = .rbx ∧ v₂ = .rax))
    (hslots : slotsNeeded e = max (slotsNeeded l) (max (slotsNeeded r + 1) 2))
    (hover : ∀ b, NoOverflow b e ↔ NoOverflow b l ∧ NoOverflow b r ∧ overflow b = false)
    (hi : ∀ (b : BitVec 64) (t : MachineState),
      t.registers v₁.reg = writeLow 32 (if v₁ = .rax then raxValue b r else b) (raxValue b r) →
      t.registers v₂.reg = writeLow 32 (if v₂ = .rax then raxValue b r else b) (raxValue b l) →
      t.runInstruction checks i =
        (checked checks (overflow b) (raxValue b e)).map (t.setReg .rax)) :
    Runs checks e (li ++ [.pushFromReg .rax] ++ ri ++ [.pushFromReg .rax] ++
      [.popIntoReg v₁, .popIntoReg v₂, i]) := by
  intro m hroom
  rw [hslots] at hroom
  obtain ⟨hgood, hbad⟩ := operands_run hr ihl ihr m hroom
  have hfine : Fine checks (m.registers .rbx) e ↔
      (Fine checks (m.registers .rbx) l ∧ Fine checks (m.registers .rbx) r) ∧
        (checks && overflow (m.registers .rbx)) = false := by
    rw [Fine, Fine, Fine, hover]
    cases checks <;> simp [and_assoc]
  rw [runInstructions_append]
  by_cases hops : Fine checks (m.registers .rbx) l ∧ Fine checks (m.registers .rbx) r
  · obtain ⟨t, ht, hop⟩ := hgood hops
    have hviews' : v₁.reg ≠ v₂.reg ∧ v₁.reg ≠ .rsp ∧ v₂.reg ≠ .rsp := by
      rcases hviews with ⟨rfl, rfl⟩ | ⟨rfl, rfl⟩ <;> decide
    obtain ⟨t', ht', h₁, h₂, hrsp, hram⟩ := hop.pop v₁ v₂ hviews'.1 hviews'.2.1 hviews'.2.2
    have hstale : ∀ v : RegView, v = .rax ∨ v = .rbx → ∀ y, writeLow 32 (t.registers v.reg) y =
        writeLow 32 (if v = .rax then raxValue (m.registers .rbx) r else m.registers .rbx) y := by
      rintro v (rfl | rfl) y
      · exact congrArg (writeLow 32 · y) hop.rax
      · exact hop.rbx y
    rw [hstale v₁ (hviews.elim (fun h => .inl h.1) fun h => .inr h.1)] at h₁
    rw [hstale v₂ (hviews.elim (fun h => .inr h.2) fun h => .inl h.2)] at h₂
    have hlast : (t.runInstructions checks [.popIntoReg v₁, .popIntoReg v₂, i]) =
        (checked checks (overflow (m.registers .rbx)) (raxValue (m.registers .rbx) e)).map
          (t'.setReg .rax) := by
      rw [show [Instr.popIntoReg v₁, .popIntoReg v₂, i] = [.popIntoReg v₁, .popIntoReg v₂] ++ [i]
        from rfl, runInstructions_append, ht', Option.bind_some, runInstructions_singleton,
        hi _ t' h₁ h₂]
    rw [ht, Option.bind_some, hlast]
    constructor
    · intro h
      rw [checked, if_neg (Bool.eq_false_iff.mp (hfine.mp h).2)]
      refine ⟨_, rfl, ?_, ?_, ?_, ?_⟩
      · rw [setReg_registers, Function.update_self]
      · -- `rbx` holds its initial high half
        intro y
        rw [setReg_registers, Function.update_of_ne (by decide)]
        rcases hviews with ⟨rfl, rfl⟩ | ⟨rfl, rfl⟩
        · rw [show Register.rbx = RegView.rbx.reg from rfl, h₂, if_neg (by decide),
            writeLow_writeLow]
          rfl
        · rw [show Register.rbx = RegView.rbx.reg from rfl, h₁, if_neg (by decide),
            writeLow_writeLow]
          rfl
      · rw [setReg_registers, Function.update_of_ne (by decide), hrsp]
      · rw [setReg_ram, hram]
        exact hop.ram
    · intro h
      have hov : (checks && overflow (m.registers .rbx)) = true := by
        by_contra hc
        exact h (hfine.mpr ⟨hops, Bool.eq_false_iff.mpr hc⟩)
      rw [checked, if_pos hov]
      rfl
  · refine ⟨fun h => absurd (hfine.mp h).1 hops, fun _ => ?_⟩
    rw [hbad hops]
    rfl

/-- **The generated code computes the value**, for every arithmetic expression. -/
theorem codegen_runs (checks : Bool) (he : Arith e) :
    ∃ instrs, codegenExpression e = some instrs ∧ Runs checks e instrs := by
  induction he with
  | int val =>
    refine ⟨_, rfl, fun m _ => ⟨fun _ => ⟨_, rfl, ?_, ?_, ?_, ?_⟩, fun h => ?_⟩⟩
    · rfl
    · intro y
      rw [writeView, setReg_registers, Function.update_of_ne (by decide)]
    · rw [writeView, setReg_registers, Function.update_of_ne (by decide)]
    · exact Ram.AgreeFrom.refl _ _
    · exact absurd (fun _ => trivial) h
  | plus hl hr ihl ihr =>
    obtain ⟨li, hli, hrunl⟩ := ihl
    obtain ⟨ri, hri, hrunr⟩ := ihr
    refine ⟨_, by rw [codegenExpression, hli, hri]; rfl, ?_⟩
    refine runs_operator hr hrunl hrunr (.inl ⟨rfl, rfl⟩) rfl (fun b => Iff.rfl) ?_
    intro b t h₁ h₂
    rw [if_pos rfl, writeLow_self] at h₁
    rw [Option.map_eq_bind]
    show (uadd checks (t.registers RegView.rax.reg) (t.registers RegView.rbx.reg)).bind _ = _
    rw [h₁, h₂]
    rfl
  | minus hl hr ihl ihr =>
    obtain ⟨li, hli, hrunl⟩ := ihl
    obtain ⟨ri, hri, hrunr⟩ := ihr
    refine ⟨_, by rw [codegenExpression, hli, hri]; rfl, ?_⟩
    refine runs_operator hr hrunl hrunr (.inr ⟨rfl, rfl⟩) rfl (fun b => Iff.rfl) ?_
    intro b t h₁ h₂
    rw [Option.map_eq_bind]
    show (usub checks (t.registers RegView.rax.reg) (t.registers RegView.rbx.reg)).bind _ = _
    rw [h₁, h₂]
    rfl
  | times hl hr ihl ihr =>
    obtain ⟨li, hli, hrunl⟩ := ihl
    obtain ⟨ri, hri, hrunr⟩ := ihr
    refine ⟨_, by rw [codegenExpression, hli, hri]; rfl, ?_⟩
    refine runs_operator hr hrunl hrunr (.inl ⟨rfl, rfl⟩) rfl (fun b => Iff.rfl) ?_
    intro b t h₁ h₂
    rw [if_pos rfl, writeLow_self] at h₁
    rw [Option.map_eq_bind]
    show (umul checks (t.registers RegView.rax.reg) (t.registers RegView.rbx.reg)).bind _ = _
    rw [h₁, h₂]
    rfl

/-! ### The comparison -/

theorem zeroFlag_updateZero (m : MachineState) (on : Bool) :
    (m.updateFlag 6 on).zeroFlag = on := by
  cases on <;> simp [zeroFlag, updateFlag]

theorem zeroFlag_updateCarry (m : MachineState) (on : Bool) :
    (m.updateFlag 0 on).zeroFlag = m.zeroFlag := by
  cases on <;> simp [zeroFlag, updateFlag]

theorem zeroFlag_compareFlags (m : MachineState) (result : BitVec 64) :
    (m.compareFlags result).zeroFlag = decide (result = 0) := by
  unfold compareFlags
  split
  · rename_i h
    rw [zeroFlag_updateCarry, zeroFlag_updateZero, decide_eq_true h]
  · rename_i h
    rw [zeroFlag_updateCarry, zeroFlag_updateZero, decide_eq_false h]

/-- The high halves of two registers are the same. -/
def SameHigh (x y : BitVec 64) : Prop := x.toNat / 2 ^ 32 = y.toNat / 2 ^ 32

instance (x y : BitVec 64) : Decidable (SameHigh x y) :=
  inferInstanceAs (Decidable (x.toNat / 2 ^ 32 = y.toNat / 2 ^ 32))

/-- No operator of a comparison overflows, the comparison's subtraction included. -/
def CompareNoOverflow (rbx : BitVec 64) (l r : Expr) : Prop :=
  NoOverflow rbx l ∧ NoOverflow rbx r ∧
    (writeLow 32 rbx (raxValue rbx r)).ssubOverflow
      (writeLow 32 (raxValue rbx r) (raxValue rbx l)) = false

theorem writeLow_sub_eq_zero :
    writeLow 32 b y - writeLow 32 y x = 0 ↔ SameHigh b y ∧ x.setWidth 32 = y.setWidth 32 := by
  rw [SameHigh, ← BitVec.toNat_inj, ← BitVec.toNat_inj, BitVec.toNat_sub, writeLow_toNat,
    writeLow_toNat, BitVec.toNat_setWidth, BitVec.toNat_setWidth,
    show (0 : BitVec 64).toNat = 0 from rfl]
  omega

theorem compare_runs (checks : Bool) (hl : Arith l) (hr : Arith r) :
    ∃ instrs, codegenExpression (.operatorExpr l .doubleEquals r) = some instrs ∧
      ∀ m, HasRoom checks m (slotsNeeded (.operatorExpr l .doubleEquals r)) →
        ((checks = true → CompareNoOverflow (m.registers .rbx) l r) →
          ∃ t, m.runInstructions checks instrs = some t ∧
            (t.zeroFlag = true ↔ SameHigh (m.registers .rbx) (raxValue (m.registers .rbx) r) ∧
              BitVec.ofInt 32 (value l) = BitVec.ofInt 32 (value r))) ∧
        (¬(checks = true → CompareNoOverflow (m.registers .rbx) l r) →
          m.runInstructions checks instrs = none) := by
  obtain ⟨li, hli, hrunl⟩ := codegen_runs checks hl
  obtain ⟨ri, hri, hrunr⟩ := codegen_runs checks hr
  refine ⟨_, by rw [codegenExpression, hli, hri]; rfl, fun m hroom => ?_⟩
  obtain ⟨hgood, hbad⟩ := operands_run hr hrunl hrunr m hroom
  rw [runInstructions_append]
  by_cases hops : Fine checks (m.registers .rbx) l ∧ Fine checks (m.registers .rbx) r
  · obtain ⟨t, ht, hop⟩ := hgood hops
    obtain ⟨t', ht', h₁, h₂, -, -⟩ := hop.pop .rbx .rax (by decide) (by decide) (by decide)
    rw [show RegView.rbx.reg = Register.rbx from rfl, hop.rbx] at h₁
    rw [show RegView.rax.reg = Register.rax from rfl, hop.rax] at h₂
    have hlast : t.runInstructions checks
        [.popIntoReg .rbx, .popIntoReg .rax, .compareRegWithReg .rax .rbx] =
        (isub checks (t'.registers .rbx) (t'.registers .rax)).map t'.compareFlags := by
      rw [show [Instr.popIntoReg .rbx, .popIntoReg .rax, .compareRegWithReg .rax .rbx] =
        [.popIntoReg .rbx, .popIntoReg .rax] ++ [.compareRegWithReg .rax .rbx] from rfl,
        runInstructions_append, ht', Option.bind_some, runInstructions_singleton,
        Option.map_eq_bind]
      rfl
    rw [ht, Option.bind_some, hlast, h₁, h₂, isub, checked]
    constructor
    · intro h
      rw [if_neg]
      · refine ⟨_, rfl, ?_⟩
        rw [zeroFlag_compareFlags, decide_eq_true_iff, writeLow_sub_eq_zero, raxValue_low hl,
          raxValue_low hr]
      · rw [Bool.and_eq_true]
        intro hc
        exact Bool.eq_false_iff.mp (h hc.1).2.2 hc.2
    · intro h
      rw [if_pos]
      · rfl
      · by_contra hc
        refine h fun hchecks => ⟨hops.1 hchecks, hops.2 hchecks, ?_⟩
        rw [Bool.and_eq_true, not_and, Bool.not_eq_true] at hc
        exact hc hchecks
  · refine ⟨fun h => absurd ⟨fun hc => (h hc).1, fun hc => (h hc).2.1⟩ hops, fun _ => ?_⟩
    rw [hbad hops]
    rfl

/-- **When the generated code is right.**  For every arithmetic expression, on every machine with
room on the stack: `rax` ends up with the value modulo `2 ^ 32`, `rsp` as it was and the memory
from there on unchanged exactly when the build does not check for overflow or no operator
overflows 64 bits; and after a comparison the `Zero` flag says whether the values are equal modulo
`2 ^ 32` exactly when, besides, equal values meet equal high halves. -/
theorem codegenExpression_correct_iff (checks : Bool) :
    (∀ e, Arith e → ∃ instrs, codegenExpression e = some instrs ∧
      ∀ m, HasRoom checks m (slotsNeeded e) →
        ((∃ t, m.runInstructions checks instrs = some t ∧
          (t.registers .rax).setWidth 32 = BitVec.ofInt 32 (value e) ∧
          t.registers .rsp = m.registers .rsp ∧
          m.ram.AgreeFrom (m.registers .rsp).toNat t.ram) ↔
            (checks = true → NoOverflow (m.registers .rbx) e))) ∧
    ∀ l r, Arith l → Arith r → ∃ instrs,
      codegenExpression (.operatorExpr l .doubleEquals r) = some instrs ∧
      ∀ m, HasRoom checks m (slotsNeeded (.operatorExpr l .doubleEquals r)) →
        ((∃ t, m.runInstructions checks instrs = some t ∧
          (t.zeroFlag = true ↔ BitVec.ofInt 32 (value l) = BitVec.ofInt 32 (value r))) ↔
            (checks = true → CompareNoOverflow (m.registers .rbx) l r) ∧
            (BitVec.ofInt 32 (value l) = BitVec.ofInt 32 (value r) →
              SameHigh (m.registers .rbx) (raxValue (m.registers .rbx) r))) := by
  constructor
  · intro e he
    obtain ⟨instrs, hinstrs, hruns⟩ := codegen_runs checks he
    refine ⟨instrs, hinstrs, fun m hroom => ⟨?_, fun h => ?_⟩⟩
    · rintro ⟨t, ht, -⟩
      by_contra hnot
      rw [(hruns m hroom).2 hnot] at ht
      cases ht
    · obtain ⟨t, ht, hc⟩ := (hruns m hroom).1 h
      exact ⟨t, ht, by rw [hc.rax, raxValue_low he], hc.rsp, hc.ram⟩
  · intro l r hl hr
    obtain ⟨instrs, hinstrs, hruns⟩ := compare_runs checks hl hr
    refine ⟨instrs, hinstrs, fun m hroom => ⟨?_, ?_⟩⟩
    · rintro ⟨t, ht, hflag⟩
      by_cases hover : checks = true → CompareNoOverflow (m.registers .rbx) l r
      · obtain ⟨t', ht', hflag'⟩ := (hruns m hroom).1 hover
        rw [ht] at ht'
        cases ht'
        exact ⟨hover, fun heq => (hflag'.mp (hflag.mpr heq)).1⟩
      · rw [(hruns m hroom).2 hover] at ht
        cases ht
    · rintro ⟨hover, hhigh⟩
      obtain ⟨t, ht, hflag⟩ := (hruns m hroom).1 hover
      exact ⟨t, ht, hflag.trans ⟨fun h => h.2, fun h => ⟨hhigh h, h⟩⟩⟩

/-! ### Two expressions on a small machine -/

/-- The stack pointer is inside a region that starts low enough. -/
theorem hasRoom_of_region {r : VirtualMemoryRegion} {n : Nat} (hram : m.ram = [r])
    (hlow : r.base.toNat + 4 * n ≤ (m.registers .rsp).toNat)
    (hhigh : (m.registers .rsp).toNat ≤ r.base.toNat + r.store.length)
    (hwrap : r.base.toNat + r.store.length < 2 ^ 64) : HasRoom checks m n := by
  intro k hk
  refine ⟨by omega, fun word => ?_⟩
  generalize haddr : BitVec.ofNat 64 ((m.registers .rsp).toNat - 4 * (k + 1)) = addr
  have haddr' : addr.toNat = (m.registers .rsp).toNat - 4 * (k + 1) := by
    rw [← haddr, BitVec.toNat_ofNat]
    omega
  have hstop : uadd checks r.base (BitVec.ofNat 64 r.store.length) =
      some (r.base + BitVec.ofNat 64 r.store.length) := by
    refine checked_eq_some.mpr ⟨?_, rfl⟩
    rw [Bool.and_eq_false_iff, BitVec.uaddOverflow, decide_eq_false_iff_not, BitVec.toNat_ofNat]
    omega
  have hcontains : r.contains checks addr = some true := by
    rw [VirtualMemoryRegion.contains, if_pos (by omega), hstop, Option.map_some, Option.some.injEq,
      decide_eq_true_iff, BitVec.toNat_add, BitVec.toNat_ofNat]
    omega
  rw [hram]
  simp only [Ram.writeU32, regionContainingAddr, hcontains, Option.bind_eq_bind, Option.bind_some,
    if_true, List.getElem?_cons_zero, VirtualMemoryRegion.writeU32]
  rw [if_pos (by omega), Option.bind_some]
  exact ⟨_, rfl⟩

theorem smallMachine_hasRoom : HasRoom checks smallMachine 3 :=
  hasRoom_of_region rfl (by decide) (by decide) (by decide)

/-- `2 + 3 * 4` on a small machine, in a build with overflow checks. -/
theorem codegenExpression_correct_example :
    ∃ instrs t, codegenExpression (.operatorExpr (.intExpr 2) .plus
        (.operatorExpr (.intExpr 3) .asterisk (.intExpr 4))) = some instrs ∧
      smallMachine.runInstructions true instrs = some t ∧
      (t.registers .rax).setWidth 32 = 14 := by
  obtain ⟨instrs, hinstrs, hiff⟩ := (codegenExpression_correct_iff true).1
    (.operatorExpr (.intExpr 2) .plus (.operatorExpr (.intExpr 3) .asterisk (.intExpr 4)))
    (.plus (.int 2) (.times (.int 3) (.int 4)))
  obtain ⟨t, ht, hrax, -, -⟩ := (hiff smallMachine smallMachine_hasRoom).mpr fun _ =>
    ⟨trivial, ⟨trivial, trivial, by decide⟩, by decide⟩
  exact ⟨instrs, t, hinstrs, ht, hrax⟩

/-- `0 == 4294967295 + 1`: both sides are zero modulo `2 ^ 32`, and the `Zero` flag is not set, in
either build. -/
theorem codegenExpression_compares_high_halves :
    HasRoom true smallMachine 3 ∧
    ∀ checks, ∃ instrs t, codegenExpression (.operatorExpr (.intExpr 0) .doubleEquals
        (.operatorExpr (.intExpr 4294967295) .plus (.intExpr 1))) = some instrs ∧
      smallMachine.runInstructions checks instrs = some t ∧ t.zeroFlag = false ∧
      BitVec.ofInt 32 (value (.intExpr 0)) =
        BitVec.ofInt 32 (value (.operatorExpr (.intExpr 4294967295) .plus (.intExpr 1))) := by
  refine ⟨smallMachine_hasRoom, fun checks => ?_⟩
  have hrun : ((codegenExpression (.operatorExpr (.intExpr 0) .doubleEquals
      (.operatorExpr (.intExpr 4294967295) .plus (.intExpr 1)))).bind
      (smallMachine.runInstructions checks)).map MachineState.zeroFlag = some false := by
    cases checks <;> decide +kernel
  obtain ⟨t, ht, hflag⟩ := Option.map_eq_some_iff.mp hrun
  obtain ⟨instrs, hinstrs, ht⟩ := Option.bind_eq_some_iff.mp ht
  exact ⟨instrs, t, hinstrs, ht, hflag, by decide⟩

end Axle.Compiler
