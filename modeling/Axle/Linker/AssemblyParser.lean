import Axle.Compiler.Encoding
import Axle.Compiler.Parser

/-!
# Reading assembly

The lexer and the parser of the linker.  The lexer keeps a cursor into the characters of the
source; an identifier that the source ends in is never delivered, and `peek_token` rewinds by the
number of *bytes* of an identifier.  The parser reads the whole source into statements and then
sorts them into labels, `.equ` expressions and atoms: what has bytes in the output.

A panic is `none`.  The parser's loop is given a number of rounds, as rewinding can make it read
the same text for ever.

* `AssemblyLexer`, `nextToken`, `peekToken` — the lexer;
* `parseStatement`, `parseStatements` — from the text to statements;
* `parse` — from statements to `MainContents`: labels waiting for an atom are attached to the next
  one, and those that wait at the end are dropped.
-/

namespace Axle.Linker

open Axle.Compiler

/-! ### The lexer -/

inductive Token where
  | colon
  | comma
  | dollar
  | dot
  | hash
  | leftParen
  | minus
  | percent
  | quote
  | rightParen
  | identifier (name : String)
deriving DecidableEq, Repr

def singleCharacterToken : Char → Option Token
  | '.' => some .dot
  | '$' => some .dollar
  | '#' => some .hash
  | '%' => some .percent
  | ',' => some .comma
  | '(' => some .leftParen
  | ')' => some .rightParen
  | ':' => some .colon
  | '"' => some .quote
  | '-' => some .minus
  | _ => none

/-- Skip whitespace and comments, which end with their line. -/
def skipBlank : Bool → List Char → List Char
  | _, [] => []
  | true, c :: rest => skipBlank (c != '\n') rest
  | false, c :: rest =>
    if isWhitespace c then skipBlank false rest
    else if c = '#' then skipBlank true rest
    else c :: rest

/-- The character is part of an identifier. -/
def isPart (c : Char) : Bool := !isWhitespace c && (singleCharacterToken c).isNone

/-- The next token of a text and what follows it.  An identifier has to be followed by something. -/
def lexToken (text : List Char) : Option Token × List Char :=
  match skipBlank false text with
  | [] => (none, [])
  | c :: rest =>
    match singleCharacterToken c with
    | some token => (some token, rest)
    | none =>
      match (c :: rest).dropWhile isPart with
      | [] => (none, [])
      | next => (some (.identifier (String.ofList ((c :: rest).takeWhile isPart))), next)

structure AssemblyLexer where
  rawText : List Char
  cursor : Nat

def AssemblyLexer.new (rawText : List Char) : AssemblyLexer := ⟨rawText, 0⟩

def AssemblyLexer.rest (lexer : AssemblyLexer) : List Char := lexer.rawText.drop lexer.cursor

/-- What moves the cursor or panics. -/
abbrev LexM := StateT AssemblyLexer Option

/-- Move the cursor on to where `rest` is left. -/
def AssemblyLexer.advanceTo (lexer : AssemblyLexer) (rest : List Char) : AssemblyLexer :=
  { lexer with cursor := lexer.cursor + (lexer.rest.length - rest.length) }

def nextToken : LexM (Option Token) := fun lexer =>
  let (token, rest) := lexToken lexer.rest
  some (token, lexer.advanceTo rest)

def readTo (delimiter : Char) : LexM String := fun lexer =>
  let out := lexer.rest.takeWhile (· != delimiter)
  if delimiter ∈ lexer.rest then
    some (String.ofList out, { lexer with cursor := lexer.cursor + out.length })
  else none

/-- How far `peek_token` rewinds: in bytes. -/
def Token.len : Token → Nat
  | .identifier name => name.utf8ByteSize
  | _ => 1

section

-- A build may check integer operations for overflow.
variable (checks : Bool)

def rewind (tokenLen : Nat) : LexM Unit := fun lexer =>
  if tokenLen ≤ lexer.cursor then some ((), { lexer with cursor := lexer.cursor - tokenLen })
  else if checks then none
  else some ((), { lexer with cursor := lexer.cursor + 2 ^ 64 - tokenLen })

def peekToken : LexM (Option Token) := do
  match ← nextToken with
  | none => return none
  | some token =>
    rewind checks token.len
    return some token

/-! ### Statements -/

def matchIdentifier : LexM String := do
  match ← nextToken with
  | some (.identifier name) => return name
  | _ => failure

def matchToken (expectedToken : Token) : LexM Unit := do
  if (← nextToken) = some expectedToken then return () else failure

def registerFromStr (regStr : String) : Option RegView :=
  if regStr = "rax" then some ⟨.rax, .rx⟩
  else if regStr = "eax" then some ⟨.rax, .ex⟩
  else if regStr = "ax" then some ⟨.rax, .x⟩
  else if regStr = "ah" then some ⟨.rax, .h⟩
  else if regStr = "al" then some ⟨.rax, .l⟩
  else if regStr = "rcx" then some ⟨.rcx, .rx⟩
  else if regStr = "rdx" then some ⟨.rdx, .rx⟩
  else if regStr = "rbx" then some ⟨.rbx, .rx⟩
  else if regStr = "rsp" then some ⟨.rsp, .rx⟩
  else if regStr = "rbp" then some ⟨.rbp, .rx⟩
  else if regStr = "rsi" then some ⟨.rsi, .rx⟩
  else if regStr = "rdi" then some ⟨.rdi, .rx⟩
  else none

def matchRegister : LexM RegView := do
  let registerName ← matchIdentifier
  StateT.lift (registerFromStr registerName)

/-- `char::to_digit`. -/
def toDigit (radix : Nat) (c : Char) : Option Nat :=
  let n := c.toNat
  let digit :=
    if 48 ≤ n ∧ n < 58 then n - 48
    else if 97 ≤ n ∧ n < 123 then n - 97 + 10
    else if 65 ≤ n ∧ n < 91 then n - 65 + 10
    else radix
  if digit < radix then some digit else none

/-- The digits of a number, which has to fit into 64 bits. -/
def digitsValue (radix : Nat) (digits : List Char) : Option Nat :=
  digits.foldlM (fun value c => do
    let digit ← toDigit radix c
    if value * radix + digit < 2 ^ 64 then some (value * radix + digit) else none) 0

/-- `usize::from_str_radix`: digits, of which there must be one, after an optional plus sign. -/
def fromStrRadix (radix : Nat) (text : List Char) : Option (BitVec 64) :=
  let digits := match text with
    | '+' :: digits => digits
    | digits => digits
  if digits = [] then none else (digitsValue radix digits).map (BitVec.ofNat 64)

/-- `trim_start_matches("0x")`. -/
def trimHexMarks : List Char → List Char
  | '0' :: 'x' :: rest => trimHexMarks rest
  | text => text

def intFromHexString (s : String) : Option (BitVec 64) := fromStrRadix 16 (trimHexMarks s.toList)

def startsWithHexMark (s : String) : Bool := ['0', 'x'].isPrefixOf s.toList

def parseDirective (directiveName : String) : LexM Instr := do
  if directiveName = "section" then
    matchToken .dot
    let sectionName ← matchIdentifier
    return .directiveSetCurrentSection sectionName
  else if directiveName = "ascii" then
    matchToken .quote
    let literalStringData ← readTo '"'
    matchToken .quote
    return .directiveEmbedAscii literalStringData
  else if directiveName = "equ" then
    let labelName ← matchIdentifier
    matchToken .comma
    matchToken .dot
    matchToken .minus
    let op2Name ← matchIdentifier
    return .directiveEqu labelName (.subtract .outputCursor (.startOfSymbol op2Name))
  else if directiveName = "word" then
    matchToken .dollar
    let value ← matchIdentifier
    let immediate ← StateT.lift
      (if startsWithHexMark value then intFromHexString value else fromStrRadix 10 value.toList)
    return .directiveEmbedU32 (immediate.setWidth 32)
  else failure

def parseMov : LexM Instr := do
  let leadingSymbol ← nextToken
  let source ← matchIdentifier
  matchToken .comma
  matchToken .percent
  let destRegister ← matchRegister
  if leadingSymbol = some .dollar then
    if startsWithHexMark source then
      let immediate ← StateT.lift (intFromHexString source)
      return .moveImmToReg immediate destRegister
    else failure
  else if leadingSymbol = some .percent then
    let sourceRegister ← StateT.lift (registerFromStr source)
    return .moveRegToReg sourceRegister destRegister
  else failure

def parseCmp : LexM Instr := do
  let leadingSymbol ← nextToken
  if leadingSymbol = some .dollar then
    let identifier ← matchIdentifier
    let imm ← StateT.lift (intFromHexString identifier)
    matchToken .comma
    matchToken .percent
    let reg ← matchRegister
    return .compareImmWithReg imm reg
  else if leadingSymbol = some .percent then
    let reg1 ← matchRegister
    matchToken .comma
    matchToken .percent
    let reg2 ← matchRegister
    return .compareRegWithReg reg1 reg2
  else failure

/-- What stands after a mnemonic. -/
def parseMnemonic (name : String) : LexM Instr := do
  if name = "mov" then parseMov
  else if name = "int" then
    matchToken .dollar
    let interruptVectorStr ← matchIdentifier
    let interruptVector ← StateT.lift (intFromHexString interruptVectorStr)
    return .interrupt (interruptVector.setWidth 8)
  else if name = "jmp" then return .jumpToLabel (← matchIdentifier)
  else if name = "push" then
    matchToken .percent
    return .pushFromReg (← matchRegister)
  else if name = "pop" then
    matchToken .percent
    return .popIntoReg (← matchRegister)
  else if name = "add" then
    matchToken .percent
    let augend ← matchRegister
    matchToken .comma
    matchToken .percent
    let addend ← matchRegister
    return .addRegToReg augend addend
  else if name = "ret" then return .return
  else if name = "cmp" then parseCmp
  else if name = "je" then return .jumpToLabelIfEqual (← matchIdentifier)
  else if name = "jne" then return .jumpToLabelIfNotEqual (← matchIdentifier)
  else if name = "sim_shim_get_input" then return .simulatorShimGetInput
  else failure

def parseStatement : Nat → LexM (Option Instr)
  | 0 => failure
  | rounds + 1 => do
    match ← nextToken with
    | none => return none
    | some .dot =>
      let directiveName ← matchIdentifier
      if directiveName = "global" then
        -- the symbol's name is ignored
        let _ ← matchIdentifier
        parseStatement rounds
      else return some (← parseDirective directiveName)
    | some (.identifier name) =>
      if (← peekToken checks) = some .colon then
        matchToken .colon
        return some (.directiveDeclareLabel name)
      else return some (← parseMnemonic name)
    | some _ => failure

/-- The loop at the start of `parse`. -/
def parseStatements : Nat → LexM (List Instr)
  | 0 => failure
  | rounds + 1 => do
    match ← parseStatement checks rounds with
    | none => return []
    | some instr => return instr :: (← parseStatements rounds)

/-- The statements of a source, when the loop ends. -/
def Reads (source : List Char) (instructions : List Instr) : Prop :=
  ∃ rounds, (parseStatements checks rounds (AssemblyLexer.new source)).map Prod.fst =
    some instructions

end

/-! ### Labels, expressions and atoms -/

inductive BinarySection where
  | text
  | readOnlyData
deriving DecidableEq, Repr

/-- The kinds of `PotentialLabelTarget`. -/
inductive DataUnit where
  | instrDataUnit (instr : Instr)
  | interrupt (vector : BitVec 8)
  | jump (target : String)
  | jumpToLabelIfEqual (target : String)
  | jumpToLabelIfNotEqual (target : String)
  | constantData (containerSection : BinarySection) (inner : List (BitVec 8))
deriving DecidableEq, Repr

/-- An atom: each gets an id of its own when it is made, so that two pointers to atoms are the same
exactly when the ids are. -/
structure Atom where
  id : Nat
  unit : DataUnit
deriving DecidableEq, Repr

structure Label where
  name : String
  dataUnit : Atom
deriving DecidableEq, Repr

structure EquExpression where
  name : String
  expression : AsmExpr
  previousDataUnit : Option Atom
deriving DecidableEq, Repr

structure MainContents where
  labels : List Label
  equExpressions : List EquExpression
  atoms : List Atom
deriving DecidableEq, Repr

/-- The UTF-8 encoding of a text. -/
def utf8Bytes (text : String) : List (BitVec 8) :=
  text.toList.flatMap fun c => (String.utf8EncodeChar c).map UInt8.toBitVec

/-- `CString::new(text).unwrap().into_bytes_with_nul()`. -/
def bytesWithNul (text : String) : Option (List (BitVec 8)) :=
  if 0 ∈ utf8Bytes text then none else some (utf8Bytes text ++ [0])

structure ParseState where
  labels : List Label
  dataUnits : List Atom
  equExpressions : List EquExpression
  currentSection : BinarySection
  labelsAwaitingAtom : List String
  previousAtom : Option Atom
  nextAtomId : Nat
deriving DecidableEq, Repr

/-- The ids go on from those of what has been assembled before. -/
def ParseState.init (nextAtomId : Nat) : ParseState := ⟨[], [], [], .text, [], none, nextAtomId⟩

def ParseState.appendDataUnit (s : ParseState) (unit : DataUnit) : ParseState :=
  let atom : Atom := ⟨s.nextAtomId, unit⟩
  { s with
    labels := s.labels ++ s.labelsAwaitingAtom.map fun name => ⟨name, atom⟩
    labelsAwaitingAtom := []
    previousAtom := some atom
    dataUnits := s.dataUnits ++ [atom]
    nextAtomId := s.nextAtomId + 1 }

def sectionNamed (name : String) : Option BinarySection :=
  if name = "text" then some .text
  else if name = "rodata" then some .readOnlyData
  else none

/-- The atom that a statement makes in a section; `none` for a statement that makes none. -/
def dataUnitOf (currentSection : BinarySection) : Instr → Option DataUnit
  | .directiveEmbedAscii text => (bytesWithNul text).map (.constantData currentSection)
  | .directiveEmbedU32 immediate => some (.constantData currentSection (toNeBytes immediate))
  | .interrupt vector => some (.interrupt vector)
  | .jumpToLabel target => some (.jump target)
  | .jumpToLabelIfEqual target => some (.jumpToLabelIfEqual target)
  | .jumpToLabelIfNotEqual target => some (.jumpToLabelIfNotEqual target)
  | .moveImmToReg imm dest => some (.instrDataUnit (.moveImmToReg imm dest))
  | .moveRegToReg source dest => some (.instrDataUnit (.moveRegToReg source dest))
  | .pushFromReg reg => some (.instrDataUnit (.pushFromReg reg))
  | .popIntoReg reg => some (.instrDataUnit (.popIntoReg reg))
  | .addRegToReg augend addend => some (.instrDataUnit (.addRegToReg augend addend))
  | .return => some (.instrDataUnit .return)
  | .compareImmWithReg imm reg => some (.instrDataUnit (.compareImmWithReg imm reg))
  | .compareRegWithReg reg1 reg2 => some (.instrDataUnit (.compareRegWithReg reg1 reg2))
  | .jumpToRelOffIfEqual relOff => some (.instrDataUnit (.jumpToRelOffIfEqual relOff))
  | .jumpToRelOffIfNotEqual relOff => some (.instrDataUnit (.jumpToRelOffIfNotEqual relOff))
  | .simulatorShimGetInput => some (.instrDataUnit .simulatorShimGetInput)
  | _ => none

/-- The second loop of `parse`, for one statement. -/
def ParseState.step (s : ParseState) : Instr → Option ParseState
  | .directiveSetCurrentSection name =>
    (sectionNamed name).map fun currentSection => { s with currentSection }
  | .directiveDeclareLabel name =>
    some { s with labelsAwaitingAtom := s.labelsAwaitingAtom ++ [name] }
  | .directiveEqu labelName expression =>
    some { s with equExpressions := s.equExpressions ++ [⟨labelName, expression, s.previousAtom⟩] }
  | instr => (dataUnitOf s.currentSection instr).map s.appendDataUnit

def ParseState.contents (s : ParseState) : MainContents :=
  ⟨s.labels, s.equExpressions, s.dataUnits⟩

def parse (nextAtomId : Nat) (instructions : List Instr) : Option MainContents :=
  (instructions.foldlM ParseState.step (ParseState.init nextAtomId)).map ParseState.contents

end Axle.Linker
