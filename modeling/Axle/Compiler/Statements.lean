import Axle.Compiler.Codegen

/-!
# Code generation for statements

`codegen_statement`, `codegen_block` and `codegen_function`.  An `if` has to test a comparison; it
gets two labels, numbered before those of its body, and a jump past an `else` that does not exist.

* `codegenStatement`, `codegenBlock`, `codegenFunction` — the code generator.
-/

namespace Axle.Compiler

/-! ### Statements and the code generator -/

inductive Statement where
  | returnStatement (returnExpr : Expr)
  | ifStatement (test : Expr) (consequent : List Statement)
  | blockStatement (statements : List Statement)

/-- A function; code generation does not look at its return type. -/
structure Function where
  name : String
  body : List Statement

def RegView.rsp : RegView := ⟨.rsp, .rx⟩
def RegView.rbp : RegView := ⟨.rbp, .rx⟩

def generateLabelWithContext (labelId : Nat) (context : String) : String :=
  "_L" ++ toString labelId ++ "_" ++ context

/-- The label behind a body, for when the test fails. -/
def testFailedLabel (labelId : Nat) : String := generateLabelWithContext labelId "if_test_failed"

/-- The label behind the whole statement; its number is the next one. -/
def finishedLabel (labelId : Nat) : String :=
  generateLabelWithContext (labelId + 1) "if_statement_finished"

/-- What `assert_matches!` asks of the last instruction of a test. -/
def Instr.isComparison : Instr → Bool
  | .compareImmWithReg _ _ | .compareRegWithReg _ _ => true
  | _ => false

mutual

/-- `CodeGenerator::codegen_statement`, with the number of the next label before and after. -/
def codegenStatement (nextLabelId : Nat) : Statement → Option (List Instr × Nat)
  | .returnStatement returnExpr => do
    let exprInstrs ← codegenExpression returnExpr
    some (exprInstrs ++ [.popIntoReg .rbp, .return], nextLabelId)
  | .ifStatement test consequent => do
    let testInstrs ← codegenExpression test
    let lastInstr ← testInstrs.getLast?
    if lastInstr.isComparison then do
      let (block, next) ← codegenBlock (nextLabelId + 2) consequent
      some (testInstrs ++ [.jumpToLabelIfNotEqual (testFailedLabel nextLabelId)] ++ block ++
        [.jumpToLabel (finishedLabel nextLabelId),
          .directiveDeclareLabel (testFailedLabel nextLabelId),
          .directiveDeclareLabel (finishedLabel nextLabelId)], next)
    else none
  -- `todo!()`
  | .blockStatement _ => none

/-- `CodeGenerator::codegen_block`. -/
def codegenBlock (nextLabelId : Nat) : List Statement → Option (List Instr × Nat)
  | [] => some ([], nextLabelId)
  | statement :: statements => do
    let (instrs, next) ← codegenStatement nextLabelId statement
    let (rest, next) ← codegenBlock next statements
    some (instrs ++ rest, next)

end

/-- The function's own label. -/
def Function.label (f : Function) : String := "_" ++ f.name

/-- What stands in front of the body. -/
def functionEntry (label : String) : List Instr :=
  [.directiveDeclareGlobalSymbol label, .directiveDeclareLabel label, .pushFromReg .rbp,
    .moveRegToReg .rsp .rbp]

/-- `CodeGenerator::codegen_function`. -/
def codegenFunction (f : Function) : Option (List Instr) := do
  let (instrs, _) ← codegenBlock 0 f.body
  some (functionEntry f.label ++ instrs)

end Axle.Compiler
