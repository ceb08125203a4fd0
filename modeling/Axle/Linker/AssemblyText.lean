import Axle.Linker.AssemblyParser

/-!
# Instructions as assembly text

`Instr::render`, and the way back: the text of an instruction is lexed into the tokens that the
parser wants.

* `Instr.render` — the text;
* `Instr.Readable` — the instructions that are written as they are read.
-/

namespace Axle.Compiler

/-! ### Rendering -/

def Register.unsizedAsmName : Register → String
  | .rax => "ax"
  | .rcx => "cx"
  | .rdx => "dx"
  | .rbx => "bx"
  | .rsp => "sp"
  | .rbp => "bp"
  | .rsi => "si"
  | .rdi => "di"
  | .rip => "ip"
  | .rflags => "flags"

def Register.asmName (reg : Register) : String := "r" ++ reg.unsizedAsmName

/-- `rsi`, `rdi`, `rsp` and `rbp` keep their name in the byte views and have no high byte. -/
def Register.isPointer : Register → Bool
  | .rsi | .rdi | .rsp | .rbp => true
  | _ => false

/-- `RegView::asm_name`; the assertion on the high bytes is `none`. -/
def RegView.asmName (view : RegView) : Option String :=
  let regName := view.reg.unsizedAsmName
  let bytePrefix := if view.reg.isPointer then regName else String.ofList regName.toList.dropLast
  match view.accessType with
  | .l => some (bytePrefix ++ "l")
  | .h => if view.reg.isPointer then none else some (bytePrefix ++ "h")
  | .x => some regName
  | .ex => some ("e" ++ regName)
  | .rx => some ("r" ++ regName)

/-- A mnemonic with two registers. -/
def renderRegs (mnemonic : String) (reg1 reg2 : RegView) : Option (List Char) := do
  let name1 ← reg1.asmName
  let name2 ← reg2.asmName
  some (mnemonic.toList ++ [' ', '%'] ++ name1.toList ++ [',', ' ', '%'] ++ name2.toList)

/-- A mnemonic with an immediate and a register. -/
def renderImm (mnemonic : String) (imm : BitVec 64) (reg : RegView) : Option (List Char) := do
  let name ← reg.asmName
  some (mnemonic.toList ++ [' ', '$', '0', 'x'] ++ Nat.toDigits 16 imm.toNat ++ [',', ' ', '%'] ++
    name.toList)

/-- A mnemonic and what it is applied to. -/
def renderWith (mnemonic : String) (operand : List Char) : List Char :=
  mnemonic.toList ++ ' ' :: operand

def Instr.render : Instr → Option (List Char)
  | .return => some "ret".toList
  | .pushFromReg src => src.asmName.map fun name => renderWith "push" ('%' :: name.toList)
  | .popIntoReg dst => dst.asmName.map fun name => renderWith "pop" ('%' :: name.toList)
  | .moveRegToReg source dest => renderRegs "mov" source dest
  | .moveImmToReg imm dest => renderImm "mov" imm dest
  | .directiveDeclareGlobalSymbol symbolName => some (renderWith ".global" symbolName.toList)
  | .directiveDeclareLabel labelName => some (labelName.toList ++ [':'])
  | .negateRegister reg => some (renderWith "neg" ('%' :: reg.asmName.toList))
  | .addRegToReg augend addend => renderRegs "add" augend addend
  | .directiveSetCurrentSection sectionName => some (renderWith ".section" sectionName.toList)
  | .compareImmWithReg imm reg => renderImm "cmp" imm reg
  | .compareRegWithReg reg1 reg2 => renderRegs "cmp" reg1 reg2
  | .jumpToLabelIfEqual label => some (renderWith "je" label.toList)
  | .jumpToLabelIfNotEqual label => some (renderWith "jne" label.toList)
  | .jumpToLabel label => some (renderWith "jmp" label.toList)
  | .jumpToRelOffIfEqual relOff => some (renderWith "je" (toString relOff.toInt).toList)
  | .jumpToRelOffIfNotEqual relOff => some (renderWith "jne" (toString relOff.toInt).toList)
  | .simulatorShimGetInput => some "sim_shim_get_input".toList
  -- `todo!`
  | _ => none

end Axle.Compiler

namespace Axle.Linker

open Axle.Compiler

/-! ### Tokens -/

variable {c : Char} {name : String} {lexer : AssemblyLexer} {α β : Type} {a : α}
  {next : α → LexM β} {read : LexM α} {n : Nat}

/-- A character that starts no comment and stands for no token. -/
theorem isPart_spec (h : isPart c = true) :
    isWhitespace c = false ∧ singleCharacterToken c = none ∧ c ≠ '#' := by
  rw [isPart, Bool.and_eq_true, Bool.not_eq_true', Option.isNone_iff_eq_none] at h
  refine ⟨h.1, h.2, ?_⟩
  rintro rfl
  cases h.2

theorem skipBlank_suffix (comment : Bool) (text : List Char) : skipBlank comment text <:+ text := by
  induction text generalizing comment with
  | nil =>
    cases comment <;> exact List.suffix_refl _
  | cons c rest ih =>
    cases comment with
    | true => exact (ih _).trans (List.suffix_cons c rest)
    | false =>
      rw [skipBlank]
      split
      · exact (ih _).trans (List.suffix_cons c rest)
      · split
        · exact (ih _).trans (List.suffix_cons c rest)
        · exact List.suffix_refl _

theorem lexToken_suffix (text : List Char) : (lexToken text).2 <:+ text := by
  have hskip := skipBlank_suffix false text
  rw [lexToken]
  split
  · exact List.nil_suffix
  · rename_i c rest heq
    rw [heq] at hskip
    split
    · exact (List.suffix_cons c rest).trans hskip
    · split
      · exact List.nil_suffix
      · exact (List.dropWhile_suffix _).trans hskip

theorem lexToken_blank (h : isWhitespace c = true) (text : List Char) :
    lexToken (c :: text) = lexToken text := by
  rw [lexToken, skipBlank, if_pos h]
  rfl

theorem lexToken_single {token : Token} (hc : singleCharacterToken c = some token)
    (hblank : isWhitespace c = false) (hhash : c ≠ '#') (rest : List Char) :
    lexToken (c :: rest) = (some token, rest) := by
  rw [lexToken, skipBlank, if_neg (by rw [hblank]; decide), if_neg hhash]
  simp only [hc]

theorem lexToken_identifier (hne : name.toList ≠ []) (hparts : ∀ c ∈ name.toList, isPart c = true)
    (hc : isPart c = false) (rest : List Char) :
    lexToken (name.toList ++ c :: rest) = (some (.identifier name), c :: rest) := by
  have htake : (name.toList ++ c :: rest).takeWhile isPart = name.toList := by
    rw [List.takeWhile_append_of_pos hparts, List.takeWhile_cons, if_neg (by rw [hc]; decide),
      List.append_nil]
  have hdrop : (name.toList ++ c :: rest).dropWhile isPart = c :: rest := by
    rw [List.dropWhile_append_of_pos hparts, List.dropWhile_cons, if_neg (by rw [hc]; decide)]
  cases hlist : name.toList with
  | nil => exact absurd hlist hne
  | cons d ds =>
    rw [hlist] at hparts htake hdrop
    obtain ⟨hblank, hsingle, hhash⟩ := isPart_spec (hparts d List.mem_cons_self)
    rw [List.cons_append] at htake hdrop ⊢
    rw [lexToken, skipBlank, if_neg (by rw [hblank]; decide), if_neg hhash]
    simp only [hsingle, hdrop, htake]
    rw [← hlist, String.ofList_toList]

theorem lexToken_nil : lexToken [] = (none, []) := rfl

/-! ### Moving the cursor -/

theorem AssemblyLexer.rest_advanceTo {rest : List Char} (h : rest <:+ lexer.rest) :
    (lexer.advanceTo rest).rest = rest := by
  obtain ⟨before, hbefore⟩ := h
  show lexer.rawText.drop (lexer.cursor + (lexer.rest.length - rest.length)) = rest
  rw [← List.drop_drop]
  show lexer.rest.drop (lexer.rest.length - rest.length) = rest
  rw [← hbefore, List.length_append, Nat.add_sub_cancel, List.drop_left]

/-- The reader succeeds with `a` and leaves `text`. -/
def Lexed {α : Type} (read : LexM α) (lexer : AssemblyLexer) (a : α) (text : List Char) : Prop :=
  ∃ lexer', read lexer = some (a, lexer') ∧ lexer'.rest = text

theorem Lexed.pure (a : α) : Lexed (Pure.pure a) lexer a lexer.rest := ⟨lexer, rfl, rfl⟩

theorem bind_lexer {lexer lexer' : AssemblyLexer} (h : read lexer = some (a, lexer')) :
    (read >>= next) lexer = next a lexer' := by
  show (read lexer).bind _ = _
  rw [h]
  rfl

theorem Lexed.bind {b : β} {text text' : List Char} (h : Lexed read lexer a text)
    (hnext : ∀ lexer', lexer'.rest = text → Lexed (next a) lexer' b text') :
    Lexed (read >>= next) lexer b text' := by
  obtain ⟨lexer', hread, hrest⟩ := h
  obtain ⟨lexer'', hread', hrest'⟩ := hnext lexer' hrest
  exact ⟨lexer'', (bind_lexer hread).trans hread', hrest'⟩

section Tokens

variable {lexer : AssemblyLexer} {token : Token} (rest : List Char)

theorem nextToken_lexed {maybeToken : Option Token} (h : lexToken lexer.rest = (maybeToken, rest)) :
    Lexed nextToken lexer maybeToken rest := by
  have hsuffix := lexToken_suffix lexer.rest
  rw [h] at hsuffix
  refine ⟨lexer.advanceTo rest, ?_, AssemblyLexer.rest_advanceTo hsuffix⟩
  rw [nextToken, h]

theorem matchToken_lexed (h : lexToken lexer.rest = (some token, rest)) :
    Lexed (matchToken token) lexer () rest := by
  refine (nextToken_lexed rest h).bind fun lexer' hrest => ?_
  rw [if_pos rfl]
  exact hrest ▸ Lexed.pure ()

theorem matchIdentifier_lexed (name : String)
    (h : lexToken lexer.rest = (some (.identifier name), rest)) :
    Lexed matchIdentifier lexer name rest := by
  refine (nextToken_lexed rest h).bind fun lexer' hrest => ?_
  exact hrest ▸ Lexed.pure name

theorem matchRegister_lexed {name : String} {reg : RegView}
    (h : lexToken lexer.rest = (some (.identifier name), rest))
    (hreg : registerFromStr name = some reg) : Lexed matchRegister lexer reg rest := by
  refine (matchIdentifier_lexed rest name h).bind fun lexer' hrest => ⟨lexer', ?_, hrest⟩
  rw [hreg]
  rfl

/-- Looking at a token: the cursor is left where its text begins. -/
theorem peekToken_lexed (checks : Bool) (blank tokenText : List Char)
    (h : lexToken lexer.rest = (some token, rest)) (htext : lexer.rest = blank ++ tokenText ++ rest)
    (hlen : tokenText.length = token.len) :
    Lexed (peekToken checks) lexer (some token) (tokenText ++ rest) := by
  have hcursor : (lexer.advanceTo rest).cursor = lexer.cursor + (blank ++ tokenText).length := by
    show lexer.cursor + (lexer.rest.length - rest.length) = _
    rw [htext, List.length_append, Nat.add_sub_cancel]
  have hnext : nextToken lexer = some (some token, lexer.advanceTo rest) := by rw [nextToken, h]
  rw [List.length_append] at hcursor
  refine ⟨{ lexer with cursor := lexer.cursor + blank.length }, ?_, ?_⟩
  · have hrewind : rewind checks token.len (lexer.advanceTo rest) =
        some ((), { lexer with cursor := lexer.cursor + blank.length }) := by
      rw [rewind, if_pos (by omega), hcursor, ← hlen,
        show lexer.cursor + (blank.length + tokenText.length) - tokenText.length =
          lexer.cursor + blank.length by omega]
      rfl
    rw [peekToken, bind_lexer hnext]
    exact bind_lexer hrewind
  · show lexer.rawText.drop (lexer.cursor + blank.length) = _
    rw [← List.drop_drop]
    show lexer.rest.drop blank.length = _
    rw [htext, List.append_assoc, List.drop_left]

theorem peekToken_end (checks : Bool) (h : lexToken lexer.rest = (none, rest)) :
    Lexed (peekToken checks) lexer none rest := by
  refine (nextToken_lexed rest h).bind fun lexer' hrest => ?_
  exact hrest ▸ Lexed.pure none

end Tokens

/-! ### Names -/

/-- A text that is one identifier, with as many characters as bytes. -/
structure IsName (name : String) : Prop where
  nonempty : name.toList ≠ []
  parts : ∀ c ∈ name.toList, isPart c = true
  ascii : name.toList.length = name.utf8ByteSize

theorem IsName.lexToken (h : IsName name) (hc : isPart c = false) (rest : List Char) :
    lexToken (name.toList ++ c :: rest) = (some (.identifier name), c :: rest) :=
  lexToken_identifier h.nonempty h.parts hc rest

/-- The views whose names are read back. -/
def Named (reg : RegView) (name : String) : Prop :=
  reg.asmName = some name ∧ registerFromStr name = some reg ∧ IsName name

theorem utf8ByteSize_ofList (chars : List Char) :
    (String.ofList chars).utf8ByteSize = (chars.map Char.utf8Size).sum := by
  induction chars with
  | nil => rfl
  | cons c chars ih =>
    rw [String.ofList_cons, String.utf8ByteSize_append, String.utf8ByteSize_singleton, ih,
      List.map_cons, List.sum_cons]

theorem named_rx {reg : Register} (h : reg ≠ .rip) (h' : reg ≠ .rflags) :
    Named ⟨reg, .rx⟩ ("r" ++ reg.unsizedAsmName) := by
  refine ⟨rfl, ?_, ?_, ?_, ?_⟩
  · cases reg <;> first | decide | contradiction
  · cases reg <;> decide
  · exact List.all_eq_true.mp (by cases reg <;> decide)
  · cases reg <;> decide

/-! ### Hexadecimal numbers -/

theorem mem_toDigits_sixteen (h : c ∈ Nat.toDigits 16 n) : ∃ d < 16, c = Nat.digitChar d := by
  induction n using Nat.strongRecOn with
  | ind n ih =>
    by_cases hlt : n < 16
    · rw [Nat.toDigits_of_lt_base hlt, List.mem_singleton] at h
      exact ⟨n, hlt, h⟩
    · rw [Nat.toDigits_of_base_le (by decide) (by omega), List.mem_append,
        List.mem_singleton] at h
      rcases h with h | h
      · exact ih _ (by omega) h
      · exact ⟨n % 16, Nat.mod_lt _ (by decide), h⟩

theorem digitsValue_toDigits (hn : n < 2 ^ 64) : digitsValue 16 (Nat.toDigits 16 n) = some n := by
  have hdigit : ∀ d < 16, toDigit 16 (Nat.digitChar d) = some d := by decide
  induction n using Nat.strongRecOn with
  | ind n ih =>
    by_cases hlt : n < 16
    · rw [Nat.toDigits_of_lt_base hlt, digitsValue]
      show (toDigit 16 (Nat.digitChar n)).bind _ >>= _ = _
      rw [hdigit n hlt, Option.bind_some, if_pos (by omega)]
      simp
    · rw [Nat.toDigits_of_base_le (by decide) (by omega), digitsValue, List.foldlM_append]
      have hinit := ih (n / 16) (by omega) (by omega)
      rw [digitsValue] at hinit
      rw [hinit]
      show (toDigit 16 (Nat.digitChar (n % 16))).bind _ >>= _ = _
      rw [hdigit _ (Nat.mod_lt _ (by decide)), Option.bind_some, if_pos (by omega)]
      show some (n / 16 * 16 + n % 16) = some n
      rw [Nat.div_add_mod']

theorem trimHexMarks_toDigits (n : Nat) :
    trimHexMarks (Nat.toDigits 16 n) = Nat.toDigits 16 n := by
  have hx : ∀ d < 16, Nat.digitChar d ≠ 'x' := by decide
  rw [trimHexMarks.eq_def]
  split
  · rename_i rest heq
    obtain ⟨d, hd, hc⟩ := mem_toDigits_sixteen (show 'x' ∈ Nat.toDigits 16 n by rw [heq]; simp)
    exact absurd hc.symm (hx d hd)
  · rfl

/-- The text of an immediate. -/
def hexString (imm : BitVec 64) : String := String.ofList ('0' :: 'x' :: Nat.toDigits 16 imm.toNat)

theorem hexString_toList (imm : BitVec 64) :
    (hexString imm).toList = '0' :: 'x' :: Nat.toDigits 16 imm.toNat := String.toList_ofList

theorem hexString_parts (imm : BitVec 64) : ∀ c ∈ (hexString imm).toList, isPart c = true := by
  have hdigit : ∀ d < 16, isPart (Nat.digitChar d) = true := by decide
  intro c hc
  rw [hexString_toList, List.mem_cons, List.mem_cons] at hc
  rcases hc with rfl | rfl | hc
  · decide
  · decide
  · obtain ⟨d, hd, rfl⟩ := mem_toDigits_sixteen hc
    exact hdigit d hd

/-- **Immediates are read back.** -/
theorem intFromHexString_hexString (imm : BitVec 64) :
    intFromHexString (hexString imm) = some imm := by
  have hplus : ∀ d < 16, Nat.digitChar d ≠ '+' := by decide
  have hsign : ∀ digits, Nat.toDigits 16 imm.toNat = '+' :: digits → False := by
    intro digits heq
    obtain ⟨d, hd, hc⟩ :=
      mem_toDigits_sixteen (show '+' ∈ Nat.toDigits 16 imm.toNat by rw [heq]; simp)
    exact hplus d hd hc.symm
  rw [intFromHexString, hexString_toList, trimHexMarks, trimHexMarks_toDigits, fromStrRadix]
  · simp only [if_neg Nat.toDigits_ne_nil, digitsValue_toDigits imm.isLt, Option.map_some,
      BitVec.ofNat_toNat, BitVec.setWidth_eq]
  · exact hsign

theorem startsWithHexMark_hexString (imm : BitVec 64) :
    startsWithHexMark (hexString imm) = true := by
  rw [startsWithHexMark, hexString_toList]
  rfl

/-! ### Lines -/

/-- The next token is the first of `text`. -/
def AtLine (lexer : AssemblyLexer) (text : List Char) : Prop := lexToken lexer.rest = lexToken text

section Lines

variable {checks : Bool} {rounds : Nat} {lexer : AssemblyLexer} {more : List Char}

variable {c : Char} {instr : Instr} {mnemonic name : String} {operand text' text : List Char}
  {reg : RegView}

section

variable (hname : IsName mnemonic)

include hname

/-- A line that begins with a mnemonic: the next token is looked at first. -/
theorem parseStatement_mnemonic (hc : isPart c = false) (text : List Char) (peeked : Option Token)
    {after text' : List Char} (hline : AtLine lexer (mnemonic.toList ++ c :: after))
    (hpeek : ∀ lexer' : AssemblyLexer, lexer'.rest = c :: after →
      Lexed (peekToken checks) lexer' peeked text) (hcolon : peeked ≠ some .colon)
    (hparse : ∀ lexer' : AssemblyLexer, lexer'.rest = text →
      Lexed (parseMnemonic mnemonic) lexer' instr text') :
    Lexed (parseStatement checks (rounds + 1)) lexer (some instr) text' := by
  rw [AtLine, hname.lexToken hc] at hline
  refine (nextToken_lexed _ hline).bind fun lexer₁ hrest₁ => ?_
  refine (hpeek lexer₁ hrest₁).bind fun lexer₂ hrest₂ => ?_
  rw [if_neg hcolon]
  refine (hparse lexer₂ hrest₂).bind fun lexer₃ hrest₃ => ?_
  exact hrest₃ ▸ Lexed.pure _

/-- The operand of a mnemonic begins with a token of one character. -/
theorem parseStatement_operand {token : Token} (hc : singleCharacterToken c = some token)
    (hcolon : token ≠ .colon) (hblank : isWhitespace c = false) (hhash : c ≠ '#')
    (hlen : token.len = 1)
    (hline : AtLine lexer (renderWith mnemonic (c :: operand) ++ '\n' :: more))
    (hparse : ∀ lexer' : AssemblyLexer,
      lexToken lexer'.rest = (some token, operand ++ '\n' :: more) →
      Lexed (parseMnemonic mnemonic) lexer' instr text') :
    Lexed (parseStatement checks (rounds + 1)) lexer (some instr) text' := by
  rw [renderWith, List.append_assoc] at hline
  have htoken := lexToken_single hc hblank hhash (operand ++ '\n' :: more)
  refine parseStatement_mnemonic hname (c := ' ') (by decide) (c :: (operand ++ '\n' :: more))
    (some token) hline (fun lexer' hrest => ?_) (by simpa using hcolon) fun lexer' hrest => ?_
  · refine peekToken_lexed _ checks [' '] [c] ?_ hrest hlen.symm
    rw [hrest]
    exact (lexToken_blank (by decide) _).trans htoken
  · exact hparse lexer' (by rw [hrest, htoken])

theorem percent_operand
    (hline : AtLine lexer (renderWith mnemonic ('%' :: operand) ++ '\n' :: more))
    (hparse : ∀ lexer' : AssemblyLexer,
      lexToken lexer'.rest = (some .percent, operand ++ '\n' :: more) →
      Lexed (parseMnemonic mnemonic) lexer' instr text') :
    Lexed (parseStatement checks (rounds + 1)) lexer (some instr) text' :=
  parseStatement_operand hname rfl (by decide) (by decide) (by decide) rfl hline hparse

theorem dollar_operand (hline : AtLine lexer (renderWith mnemonic ('$' :: operand) ++ '\n' :: more))
    (hparse : ∀ lexer' : AssemblyLexer,
      lexToken lexer'.rest = (some .dollar, operand ++ '\n' :: more) →
      Lexed (parseMnemonic mnemonic) lexer' instr text') :
    Lexed (parseStatement checks (rounds + 1)) lexer (some instr) text' :=
  parseStatement_operand hname rfl (by decide) (by decide) (by decide) rfl hline hparse

end

theorem registers_lexed {reg1 reg2 : RegView} {name1 name2 : String} (h1 : Named reg1 name1)
    (h2 : Named reg2 name2) {make : RegView → RegView → Instr}
    (hrest : lexer.rest = name1.toList ++ [',', ' ', '%'] ++ name2.toList ++ '\n' :: more) :
    Lexed (do
      let reg1 ← matchRegister
      matchToken .comma
      matchToken .percent
      let reg2 ← matchRegister
      return make reg1 reg2) lexer (make reg1 reg2) ('\n' :: more) := by
  rw [List.append_assoc, List.append_assoc] at hrest
  refine (matchRegister_lexed (',' :: ' ' :: '%' :: (name2.toList ++ '\n' :: more)) ?_
    h1.2.1).bind fun lexer₁ hrest₁ => ?_
  · rw [hrest]
    exact h1.2.2.lexToken (by decide) _
  refine (matchToken_lexed (' ' :: '%' :: (name2.toList ++ '\n' :: more)) ?_).bind
    fun lexer₂ hrest₂ => ?_
  · rw [hrest₁]
    exact lexToken_single rfl (by decide) (by decide) _
  refine (matchToken_lexed (name2.toList ++ '\n' :: more) ?_).bind fun lexer₃ hrest₃ => ?_
  · rw [hrest₂, lexToken_blank (by decide)]
    exact lexToken_single rfl (by decide) (by decide) _
  refine (matchRegister_lexed ('\n' :: more) ?_ h2.2.1).bind fun lexer₄ hrest₄ => ?_
  · rw [hrest₃]
    exact h2.2.2.lexToken (by decide) _
  exact hrest₄ ▸ Lexed.pure _

/-- A line of assembly and the instruction it is written for. -/
inductive Line : Instr → List Char → Prop where
  | ret : Line .return "ret".toList
  | push {reg : RegView} {name : String} : Named reg name →
      Line (.pushFromReg reg) (renderWith "push" ('%' :: name.toList))
  | pop {reg : RegView} {name : String} : Named reg name →
      Line (.popIntoReg reg) (renderWith "pop" ('%' :: name.toList))
  | move {reg1 reg2 : RegView} {name1 name2 : String} : Named reg1 name1 → Named reg2 name2 →
      Line (.moveRegToReg reg1 reg2)
        (renderWith "mov" ('%' :: (name1.toList ++ [',', ' ', '%'] ++ name2.toList)))
  | add {reg1 reg2 : RegView} {name1 name2 : String} : Named reg1 name1 → Named reg2 name2 →
      Line (.addRegToReg reg1 reg2)
        (renderWith "add" ('%' :: (name1.toList ++ [',', ' ', '%'] ++ name2.toList)))
  | compare {reg1 reg2 : RegView} {name1 name2 : String} : Named reg1 name1 → Named reg2 name2 →
      Line (.compareRegWithReg reg1 reg2)
        (renderWith "cmp" ('%' :: (name1.toList ++ [',', ' ', '%'] ++ name2.toList)))
  | moveImm {reg : RegView} {name : String} (imm : BitVec 64) : Named reg name →
      Line (.moveImmToReg imm reg)
        (renderWith "mov" ('$' :: ((hexString imm).toList ++ [',', ' ', '%'] ++ name.toList)))
  | label {name : String} : IsName name →
      Line (.directiveDeclareLabel name) (name.toList ++ [':'])
  | jump {name : String} : IsName name → Line (.jumpToLabel name) (renderWith "jmp" name.toList)
  | jumpIfNotEqual {name : String} : IsName name →
      Line (.jumpToLabelIfNotEqual name) (renderWith "jne" name.toList)

theorem Line.render (h : Line instr text) : instr.render = some text := by
  have hregs : ∀ {mnemonic : String} {reg1 reg2 : RegView} {name1 name2 : String},
      Named reg1 name1 → Named reg2 name2 → renderRegs mnemonic reg1 reg2 =
        some (renderWith mnemonic ('%' :: (name1.toList ++ [',', ' ', '%'] ++ name2.toList))) := by
    intro mnemonic reg1 reg2 name1 name2 h1 h2
    rw [renderRegs, h1.1, h2.1]
    simp [renderWith]
  cases h with
  | ret => rfl
  | push hreg =>
    show Option.map _ _ = _
    rw [hreg.1]
    rfl
  | pop hreg =>
    show Option.map _ _ = _
    rw [hreg.1]
    rfl
  | move h1 h2 => exact hregs h1 h2
  | add h1 h2 => exact hregs h1 h2
  | compare h1 h2 => exact hregs h1 h2
  | moveImm imm hreg =>
    show renderImm _ _ _ = _
    rw [renderImm, hreg.1, hexString_toList]
    simp [renderWith]
  | label hname => rfl
  | jump hname => rfl
  | jumpIfNotEqual hname => rfl

theorem isName_mnemonic (name : String)
    (h : name ∈ ["ret", "push", "pop", "mov", "add", "cmp", "jmp", "jne"]) : IsName name := by
  simp only [List.mem_cons, List.not_mem_nil, or_false] at h
  rcases h with rfl | rfl | rfl | rfl | rfl | rfl | rfl | rfl <;>
    exact ⟨by decide, List.all_eq_true.mp (by decide), by decide⟩

/-! ### From a line to its instruction -/

theorem parseMnemonic_push : parseMnemonic "push" = do
    matchToken .percent
    return .pushFromReg (← matchRegister) := by
  simp [parseMnemonic]

theorem parseMnemonic_pop : parseMnemonic "pop" = do
    matchToken .percent
    return .popIntoReg (← matchRegister) := by
  simp [parseMnemonic]

theorem parseMnemonic_add : parseMnemonic "add" = do
    matchToken .percent
    let augend ← matchRegister
    matchToken .comma
    matchToken .percent
    let addend ← matchRegister
    return .addRegToReg augend addend := by
  simp [parseMnemonic]

theorem parseMnemonic_mov : parseMnemonic "mov" = parseMov := by simp [parseMnemonic]

theorem parseMnemonic_cmp : parseMnemonic "cmp" = parseCmp := by simp [parseMnemonic]

theorem parseMnemonic_ret : parseMnemonic "ret" = return .return := by simp [parseMnemonic]

theorem parseMnemonic_jmp : parseMnemonic "jmp" = do return .jumpToLabel (← matchIdentifier) := by
  simp [parseMnemonic]

theorem parseMnemonic_jne :
    parseMnemonic "jne" = do return .jumpToLabelIfNotEqual (← matchIdentifier) := by
  simp [parseMnemonic]

theorem register_lexed (hreg : Named reg name) {make : RegView → Instr}
    (hpercent : lexToken lexer.rest = (some .percent, name.toList ++ '\n' :: more)) :
    Lexed (do
      matchToken .percent
      return make (← matchRegister)) lexer (make reg) ('\n' :: more) := by
  refine (matchToken_lexed _ hpercent).bind fun lexer₁ hrest₁ => ?_
  refine (matchRegister_lexed ('\n' :: more) ?_ hreg.2.1).bind fun lexer₂ hrest₂ => ?_
  · rw [hrest₁]
    exact hreg.2.2.lexToken (by decide) _
  exact hrest₂ ▸ Lexed.pure _

/-- The label that a jump is written with is looked at first. -/
theorem label_operand (hmnemonic : IsName mnemonic) (hname : IsName name) {make : String → Instr}
    (hparse : parseMnemonic mnemonic = do return make (← matchIdentifier))
    (hline : AtLine lexer (renderWith mnemonic name.toList ++ '\n' :: more)) :
    Lexed (parseStatement checks (rounds + 1)) lexer (some (make name)) ('\n' :: more) := by
  rw [renderWith, List.append_assoc] at hline
  have htoken := hname.lexToken (c := '\n') (by decide) more
  refine parseStatement_mnemonic hmnemonic (c := ' ') (by decide) (name.toList ++ '\n' :: more)
    (some (.identifier name)) hline (fun lexer' hrest => ?_) (by simp) fun lexer' hrest => ?_
  · refine peekToken_lexed _ checks [' '] name.toList ?_ hrest hname.ascii
    rw [hrest]
    exact (lexToken_blank (by decide) _).trans htoken
  · rw [hparse]
    refine (matchIdentifier_lexed ('\n' :: more) name ?_).bind fun lexer'' hrest'' => ?_
    · rw [hrest, htoken]
    exact hrest'' ▸ Lexed.pure _

/-- The source operand of `mov`, behind `$` or `%`, and its destination. -/
theorem mov_operands {leading : Token} {source : String} (hsource : source.toList ≠ [])
    (hparts : ∀ c ∈ source.toList, isPart c = true) (hreg : Named reg name)
    (hleading : lexToken lexer.rest =
      (some leading, source.toList ++ [',', ' ', '%'] ++ name.toList ++ '\n' :: more))
    (hmake : ∀ lexer' : AssemblyLexer, (if some leading = some Token.dollar then
      if startsWithHexMark source then do
        let immediate ← StateT.lift (intFromHexString source)
        return .moveImmToReg immediate reg
      else failure
    else if some leading = some Token.percent then do
      let sourceRegister ← StateT.lift (registerFromStr source)
      return .moveRegToReg sourceRegister reg
    else failure : LexM Instr) lexer' = some (instr, lexer')) :
    Lexed parseMov lexer instr ('\n' :: more) := by
  refine (nextToken_lexed _ hleading).bind fun lexer₁ hrest₁ => ?_
  rw [List.append_assoc, List.append_assoc] at hrest₁
  refine (matchIdentifier_lexed (',' :: ' ' :: '%' :: (name.toList ++ '\n' :: more)) source ?_).bind
    fun lexer₂ hrest₂ => ?_
  · rw [hrest₁]
    exact lexToken_identifier hsource hparts (by decide) _
  refine (matchToken_lexed (' ' :: '%' :: (name.toList ++ '\n' :: more)) ?_).bind
    fun lexer₃ hrest₃ => ?_
  · rw [hrest₂]
    exact lexToken_single rfl (by decide) (by decide) _
  refine (matchToken_lexed (name.toList ++ '\n' :: more) ?_).bind fun lexer₄ hrest₄ => ?_
  · rw [hrest₃, lexToken_blank (by decide)]
    exact lexToken_single rfl (by decide) (by decide) _
  refine (matchRegister_lexed ('\n' :: more) ?_ hreg.2.1).bind fun lexer₅ hrest₅ => ?_
  · rw [hrest₄]
    exact hreg.2.2.lexToken (by decide) _
  exact ⟨lexer₅, hmake lexer₅, hrest₅⟩

theorem label_line (hne : name.toList ≠ []) (hparts : ∀ c ∈ name.toList, isPart c = true)
    (hline : AtLine lexer (name.toList ++ ':' :: '\n' :: more)) :
    Lexed (parseStatement checks (rounds + 1)) lexer (some (.directiveDeclareLabel name))
      ('\n' :: more) := by
  rw [AtLine, lexToken_identifier hne hparts (by decide)] at hline
  refine (nextToken_lexed _ hline).bind fun lexer₁ hrest₁ => ?_
  have hcolon := lexToken_single (c := ':') rfl (by decide) (by decide) ('\n' :: more)
  refine (peekToken_lexed _ checks [] [':'] (by rw [hrest₁, hcolon]) hrest₁ rfl).bind
    fun lexer₂ hrest₂ => ?_
  refine (matchToken_lexed ('\n' :: more) ?_).bind fun lexer₃ hrest₃ => ?_
  · rw [hrest₂]
    exact hcolon
  exact hrest₃ ▸ Lexed.pure _

/-- **A line is read as its instruction**, up to its newline; `ret` looks further. -/
theorem Line.lexed (h : Line instr text) (hret : instr ≠ .return)
    (hline : AtLine lexer (text ++ '\n' :: more)) :
    Lexed (parseStatement checks (rounds + 1)) lexer (some instr) ('\n' :: more) := by
  cases h with
  | ret => exact absurd rfl hret
  | push hreg =>
    refine percent_operand (isName_mnemonic _ (by simp)) hline fun lexer' hpercent => ?_
    exact register_lexed hreg hpercent
  | pop hreg =>
    refine percent_operand (isName_mnemonic _ (by simp)) hline fun lexer' hpercent => ?_
    exact register_lexed hreg hpercent
  | add h1 h2 =>
    refine percent_operand (isName_mnemonic _ (by simp)) hline fun lexer' hpercent => ?_
    refine (matchToken_lexed _ hpercent).bind fun lexer₁ hrest₁ => ?_
    exact registers_lexed h1 h2 hrest₁
  | compare h1 h2 =>
    refine percent_operand (isName_mnemonic _ (by simp)) hline fun lexer' hpercent => ?_
    refine (nextToken_lexed _ hpercent).bind fun lexer₁ hrest₁ => ?_
    exact registers_lexed h1 h2 hrest₁
  | move h1 h2 =>
    refine percent_operand (isName_mnemonic _ (by simp)) hline fun lexer' hpercent => ?_
    refine mov_operands h1.2.2.nonempty h1.2.2.parts h2 hpercent fun lexer'' => ?_
    rw [if_neg (by decide), if_pos rfl, h1.2.1]
    rfl
  | moveImm imm hreg =>
    refine dollar_operand (isName_mnemonic _ (by simp)) hline fun lexer' hdollar => ?_
    refine mov_operands (by rw [hexString_toList]; simp) (hexString_parts imm) hreg hdollar
      fun lexer'' => ?_
    rw [if_pos rfl, if_pos (startsWithHexMark_hexString imm), intFromHexString_hexString]
    rfl
  | label hname =>
    rw [List.append_assoc] at hline
    exact label_line hname.nonempty hname.parts hline
  | jump hname => exact label_operand (isName_mnemonic _ (by simp)) hname parseMnemonic_jmp hline
  | jumpIfNotEqual hname =>
    exact label_operand (isName_mnemonic _ (by simp)) hname parseMnemonic_jne hline

/-- A mnemonic without operands, on the last line: nothing is left. -/
theorem bare_line (hname : IsName mnemonic) (hparse : parseMnemonic mnemonic = Pure.pure instr)
    (hline : AtLine lexer (mnemonic.toList ++ ['\n'])) :
    Lexed (parseStatement checks (rounds + 1)) lexer (some instr) [] := by
  refine parseStatement_mnemonic hname (c := '\n') (by decide) [] none hline
    (fun lexer' hrest => peekToken_end _ checks (by rw [hrest]; rfl)) (by simp)
    fun lexer' hrest => ?_
  rw [hparse]
  exact hrest ▸ Lexed.pure _

/-! ### From the text to the statements -/

end Lines

section Source

variable {checks : Bool}

end Source

end Axle.Linker
