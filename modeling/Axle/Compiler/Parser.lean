import Axle.Compiler.Codegen

/-!
# The lexer and the parser of the C compiler

`Lexer`, `Parser::parse_expression` and `Display for Expr`.  The lexer is a function from the rest
of the text to a token and what follows it; the parser climbs precedences over it with one token of
lookahead.  A panic is `none`; so is running out of fuel, which `parse_expression` has twice the
length of the text of.

* `nextToken`, `parseExpressionWithPrecedence`, `Expr.display` — the functions of the source;
* `Printable` — trees of integers, identifiers and binary operators;
* `parseExpression_display` — **PROVED**: the parser reads such a tree back from what `Display`
  writes.
-/

namespace Axle.Compiler

/-! ### The lexer -/

/-- What the standard library does with floats: from the digits before and after the point, and to
text. -/
structure FloatText where
  parse : BitVec 64 → BitVec 64 → BitVec 64
  display : BitVec 64 → List Char

/-- `char::is_whitespace`. -/
def isWhitespace (c : Char) : Bool :=
  let n := c.toNat
  (9 ≤ n && n ≤ 13) || n = 0x20 || n = 0x85 || n = 0xa0 || n = 0x1680 ||
    (0x2000 ≤ n && n ≤ 0x200a) || n = 0x2028 || n = 0x2029 || n = 0x202f || n = 0x205f ||
    n = 0x3000

def singleCharacterToken : Char → Option Token
  | '%' => some .percent
  | ',' => some .comma
  | '"' => some .quote
  | '+' => some .plus
  | '-' => some .minus
  | '(' => some .parenLeft
  | ')' => some .parenRight
  | '{' => some .curlyBraceLeft
  | '}' => some .curlyBraceRight
  | ';' => some .semicolon
  | '~' => some .tilde
  | '!' => some .bang
  | '*' => some .asterisk
  | '^' => some .carat
  | '=' => some .equals
  | '/' => some .forwardSlash
  | '?' => some .question
  | ':' => some .colon
  | _ => none

def isDelimiter (c : Char) : Bool := isWhitespace c || (singleCharacterToken c).isSome

section Lexer

variable (checks : Bool) (floats : FloatText)

def digitCharsToValue (digits : List Char) : Option (BitVec 64) :=
  digits.foldlM (fun acc digitCh => do
    let shifted ← umul checks acc 10
    uadd checks shifted (BitVec.ofNat 64 (digitCh.toNat - '0'.toNat))) 0

/-- `Lexer::next_token`: the token, if there is one, and the text after it.  A second `=` is looked
for with the whole lexer, so white space may stand before it. -/
def nextToken : List Char → Option (Option Token × List Char)
  | [] => some (none, [])
  | c :: rest =>
    if isWhitespace c then nextToken rest
    else if c.isDigit then do
      let value ← digitCharsToValue checks ((c :: rest).takeWhile Char.isDigit)
      match (c :: rest).dropWhile Char.isDigit with
      | '.' :: rest => do
        let valueAfter ← digitCharsToValue checks (rest.takeWhile Char.isDigit)
        some (some (.float (floats.parse value valueAfter)), rest.dropWhile Char.isDigit)
      | rest => some (some (.int value), rest)
    else
      match singleCharacterToken c with
      | some .equals =>
        match nextToken rest with
        | none => none
        | some (some .equals, rest) => some (some .doubleEquals, rest)
        | some _ => some (some .equals, rest)
      | some token => some (some token, rest)
      | none =>
        some (some (.identifier (String.ofList ((c :: rest).takeWhile fun c => !isDelimiter c))),
          (c :: rest).dropWhile fun c => !isDelimiter c)

def peekToken (text : List Char) : Option (Option Token) := (nextToken checks floats text).map Prod.fst

def matchToken (expectedToken : Token) (text : List Char) : Option (List Char) := do
  let (token, text) ← nextToken checks floats text
  if token = some expectedToken then some text else none

end Lexer

/-! ### The parser -/

inductive Precedence where
  | lowest
  | assignment
  | ternary
  | sum
  | product
  | exponent
  /-- `Prefix` of the source. -/
  | prefixed
  | postfixed
  | call
deriving DecidableEq, Repr

namespace Precedence

def rank : Precedence → Nat
  | lowest => 0
  | assignment => 1
  | ternary => 2
  | sum => 3
  | product => 4
  | exponent => 5
  | prefixed => 6
  | postfixed => 7
  | call => 8

instance : LT Precedence := ⟨fun a b => a.rank < b.rank⟩

instance (a b : Precedence) : Decidable (a < b) := inferInstanceAs (Decidable (a.rank < b.rank))

def previous : Precedence → Precedence
  | lowest => lowest
  | assignment => lowest
  | ternary => assignment
  | sum => ternary
  | product => sum
  | exponent => product
  | prefixed => exponent
  | postfixed => prefixed
  | call => postfixed

end Precedence

def PrefixOperator.ofToken : Token → Option PrefixOperator
  | .plus => some .plus
  | .minus => some .minus
  | .tilde => some .tilde
  | .bang => some .bang
  | .parenLeft => some .parenLeft
  | _ => none

def InfixOperator.ofToken : Token → Option InfixOperator
  | .plus => some .plus
  | .minus => some .minus
  | .asterisk => some .asterisk
  | .parenLeft => some .parenLeft
  | .carat => some .carat
  | .equals => some .equals
  | .doubleEquals => some .doubleEquals
  | .forwardSlash => some .forwardSlash
  | .question => some .question
  | _ => none

def InfixOperator.precedence : InfixOperator → Precedence
  | .plus | .minus => .sum
  | .asterisk | .forwardSlash => .product
  | .parenLeft => .call
  | .carat => .exponent
  | .equals => .assignment
  | .question => .ternary
  | .doubleEquals => .ternary

/-- `get_precedence_of_next_token`, of the token that was looked at. -/
def precedenceOfToken (peek : Option Token) : Precedence :=
  match peek.bind InfixOperator.ofToken with
  | none => .lowest
  | some op => op.precedence

/-- The expressions that are one token. -/
def Expr.ofToken : Token → Option Expr
  | .identifier name => some (.nameExpr (.identifier name))
  | .int value => some (.intExpr value)
  | .float value => some (.floatExpr value)
  | _ => none

/-- The left-hand side of an assignment; anything but a name is a panic. -/
def Expr.label : Expr → Option String
  | .nameExpr (.identifier name) => some name
  | _ => none

section Parser

variable (checks : Bool) (floats : FloatText)

mutual

/-- `parse_expression_with_precedence`: the part before the first operator. -/
def parseExpressionWithPrecedence : Nat → Precedence → List Char → Option (Expr × List Char)
  | 0, _, _ => none
  | fuel + 1, precedence, text => do
    let (token, text) ← nextToken checks floats text
    let token ← token
    let (lhs, text) ← match Expr.ofToken token with
      | some lhs => some (lhs, text)
      | none =>
        if token = .parenLeft then do
          let (inner, text) ← parseExpressionWithPrecedence fuel .lowest text
          let text ← matchToken checks floats .parenRight text
          some (inner, text)
        else do
          let op ← PrefixOperator.ofToken token
          let (expr, text) ← parseExpressionWithPrecedence fuel .prefixed text
          some (.prefixExpr op expr, text)
    parseInfix fuel precedence lhs text

/-- The `while` loop of `parse_expression_with_precedence`. -/
def parseInfix : Nat → Precedence → Expr → List Char → Option (Expr × List Char)
  | 0, _, _, _ => none
  | fuel + 1, precedence, lhs, text => do
    let peek ← peekToken checks floats text
    if precedence < precedenceOfToken peek then do
      let token ← peek
      let (lhs, text) ←
        if token = .parenLeft then do
          let text ← matchToken checks floats .parenLeft text
          let peek ← peekToken checks floats text
          let (args, text) ←
            if peek = some .parenRight then some ([], text) else parseArgs fuel text
          let text ← matchToken checks floats .parenRight text
          some (Expr.callExpr lhs args, text)
        else if token = .equals then do
          let text ← matchToken checks floats .equals text
          let peek ← peekToken checks floats text
          let peek ← peek
          if peek = .equals then do
            let text ← matchToken checks floats .equals text
            let (rhs, text) ← parseExpressionWithPrecedence fuel .lowest text
            some (.testExpr lhs rhs, text)
          else do
            let label ← lhs.label
            let (rhs, text) ← parseExpressionWithPrecedence fuel
              (precedenceOfToken (some token)).previous text
            some (.assignmentExpr label rhs, text)
        else if token = .question then do
          let text ← matchToken checks floats .question text
          let (thenExpr, text) ← parseExpressionWithPrecedence fuel .lowest text
          let text ← matchToken checks floats .colon text
          let (elseExpr, text) ← parseExpressionWithPrecedence fuel Precedence.ternary.previous text
          some (.ternaryExpr lhs thenExpr elseExpr, text)
        else do
          let (operator, text) ← nextToken checks floats text
          let operator ← operator
          let rhsPrecedence :=
            if operator = .carat then (precedenceOfToken (some token)).previous
            else precedenceOfToken (some token)
          let (rhs, text) ← parseExpressionWithPrecedence fuel rhsPrecedence text
          let op ← InfixOperator.ofToken operator
          some (.operatorExpr lhs op rhs, text)
      parseInfix fuel precedence lhs text
    else some (lhs, text)

/-- The comma-separated arguments of a call. -/
def parseArgs : Nat → List Char → Option (List Expr × List Char)
  | 0, _ => none
  | fuel + 1, text => do
    let (arg, text) ← parseExpressionWithPrecedence fuel .lowest text
    let peek ← peekToken checks floats text
    if peek = some .parenRight then some ([arg], text)
    else do
      let text ← matchToken checks floats .comma text
      let (args, text) ← parseArgs fuel text
      some (arg :: args, text)

end

/-- `parse_expression`: every call but the first of an argument comes after a token. -/
def parseExpression (text : List Char) : Option (Expr × List Char) :=
  parseExpressionWithPrecedence checks floats (2 * text.length + 2) .lowest text

end Parser

/-! ### The printer -/

def PrefixOperator.opStr : PrefixOperator → Option (List Char)
  | .plus => some ['+']
  | .minus => some ['-']
  | .tilde => some ['~']
  | .bang => some ['!']
  | .parenLeft => none

def InfixOperator.opStr : InfixOperator → Option (List Char)
  | .plus => some ['+']
  | .minus => some ['-']
  | .asterisk => some ['*']
  | .carat => some ['^']
  | .forwardSlash => some ['/']
  | .doubleEquals => some ['=', '=']
  | .equals | .parenLeft | .question => none

section Printer

variable (floats : FloatText)

mutual

/-- `Display for Expr`. -/
def Expr.display : Expr → Option (List Char)
  | .nameExpr (.identifier name) => some name.toList
  | .nameExpr _ => none
  | .intExpr value => some (Nat.toDigits 10 value.toNat)
  | .floatExpr bits => some (floats.display bits)
  | .prefixExpr op expr => do
    let opStr ← op.opStr
    let text ← display expr
    some ('(' :: (opStr ++ text ++ [')']))
  | .operatorExpr lhs op rhs => do
    let opStr ← op.opStr
    let left ← display lhs
    let right ← display rhs
    some ('(' :: (left ++ ' ' :: (opStr ++ ' ' :: (right ++ [')']))))
  | .callExpr lhs args => do
    let left ← display lhs
    let formattedArgs ← displayArgs args
    some (left ++ '(' :: (([',', ' '].intercalate formattedArgs) ++ [')']))
  | .assignmentExpr name rhs => do
    let right ← display rhs
    some ('(' :: (name.toList ++ ' ' :: '=' :: ' ' :: (right ++ [')'])))
  | .ternaryExpr cond thenExpr elseExpr => do
    let condText ← display cond
    let thenText ← display thenExpr
    let elseText ← display elseExpr
    some ('(' :: (condText ++ [' ', '?', ' '] ++ thenText ++ [' ', ':', ' '] ++ elseText ++ [')']))
  -- the closing parenthesis is missing in the source
  | .testExpr lhs rhs => do
    let left ← display lhs
    let right ← display rhs
    some ('(' :: (left ++ [' ', '=', '=', ' '] ++ right))

def Expr.displayArgs : List Expr → Option (List (List Char))
  | [] => some []
  | arg :: args => do
    let text ← display arg
    let texts ← displayArgs args
    some (text :: texts)

end

end Printer

/-! ### Lexing what the printer writes -/

/-- The text ends here, or goes on with a space or a closing parenthesis. -/
inductive Follows : List Char → Prop where
  | nil : Follows []
  | space (text : List Char) : Follows (' ' :: text)
  | paren (text : List Char) : Follows (')' :: text)

/-- What the lexer reads as one identifier. -/
structure IsIdentifier (name : String) : Prop where
  nonempty : name.toList ≠ []
  plain : ∀ c ∈ name.toList, isDelimiter c = false
  start : ∀ c ∈ name.toList.head?, c.isDigit = false

section Lexing

variable {checks : Bool} {floats : FloatText} {text rest : List Char}

theorem takeWhile_append_of_head {p : Char → Bool} (hall : ∀ c ∈ text, p c = true)
    (hrest : ∀ c, rest.head? = some c → p c = false) :
    (text ++ rest).takeWhile p = text ∧ (text ++ rest).dropWhile p = rest := by
  rw [List.takeWhile_append_of_pos hall, List.dropWhile_append_of_pos hall]
  cases rest with
  | nil => simp
  | cons c rest => simp [hrest c rfl]

theorem takeWhile_append_of_follows {p : Char → Bool} (hall : ∀ c ∈ text, p c = true)
    (hspace : p ' ' = false) (hparen : p ')' = false) (hrest : Follows rest) :
    (text ++ rest).takeWhile p = text ∧ (text ++ rest).dropWhile p = rest := by
  refine takeWhile_append_of_head hall fun c hc => ?_
  cases hrest <;> cases hc <;> assumption

theorem umul_of_lt {a b : BitVec 64} (h : a.toNat * b.toNat < 2 ^ 64) :
    umul checks a b = some (a * b) := by
  have hover : a.umulOverflow b = false := by
    rw [BitVec.umulOverflow, decide_eq_false_iff_not]
    omega
  rw [umul, checked_eq_some, hover, Bool.and_false]
  exact ⟨rfl, rfl⟩

theorem uadd_of_lt {a b : BitVec 64} (h : a.toNat + b.toNat < 2 ^ 64) :
    uadd checks a b = some (a + b) := by
  have hover : a.uaddOverflow b = false := by
    rw [BitVec.uaddOverflow, decide_eq_false_iff_not]
    omega
  rw [uadd, checked_eq_some, hover, Bool.and_false]
  exact ⟨rfl, rfl⟩

theorem digitCharsToValue_step (checks : Bool) {n d : Nat} (hd : d < 10) (hn : n * 10 + d < 2 ^ 64) :
    (do
      let shifted ← umul checks (BitVec.ofNat 64 n) 10
      uadd checks shifted (BitVec.ofNat 64 ((Nat.digitChar d).toNat - '0'.toNat))) =
      some (BitVec.ofNat 64 (n * 10 + d)) := by
  have hdigit : ∀ d < 10, (Nat.digitChar d).toNat - '0'.toNat = d := by decide
  have hshift : (BitVec.ofNat 64 n * 10).toNat = n * 10 := by
    rw [BitVec.toNat_mul, BitVec.toNat_ofNat, Nat.mod_eq_of_lt (show n < 2 ^ 64 by omega)]
    show n * 10 % 2 ^ 64 = n * 10
    exact Nat.mod_eq_of_lt (by omega)
  rw [hdigit d hd, umul_of_lt]
  · show uadd checks (BitVec.ofNat 64 n * 10) (BitVec.ofNat 64 d) = _
    rw [uadd_of_lt]
    · congr 1
      apply BitVec.eq_of_toNat_eq
      rw [BitVec.toNat_add, hshift, BitVec.toNat_ofNat, BitVec.toNat_ofNat]
      omega
    · rw [hshift, BitVec.toNat_ofNat]
      omega
  · show n % 2 ^ 64 * 10 < 2 ^ 64
    omega

/-- The digits of a number that fits are read as this number, without overflow on the way. -/
theorem digitCharsToValue_toDigits (checks : Bool) {n : Nat} (hn : n < 2 ^ 64) :
    digitCharsToValue checks (Nat.toDigits 10 n) = some (BitVec.ofNat 64 n) := by
  induction n using Nat.strongRecOn with
  | ind n ih =>
    by_cases hlt : n < 10
    · rw [Nat.toDigits_of_lt_base hlt]
      have hstep := digitCharsToValue_step checks (n := 0) hlt (by omega)
      simpa [digitCharsToValue] using hstep
    · rw [Nat.toDigits_of_base_le (by decide) (by omega)]
      have hstep := digitCharsToValue_step checks (n := n / 10) (d := n % 10)
        (by omega) (by omega)
      rw [show n / 10 * 10 + n % 10 = n by omega] at hstep
      unfold digitCharsToValue at ih ⊢
      rw [List.foldlM_append, ih (n / 10) (by omega) (by omega)]
      simpa using hstep

theorem isWhitespace_of_isDigit {c : Char} (h : c.isDigit = true) : isWhitespace c = false := by
  have hrange : 48 ≤ c.toNat ∧ c.toNat ≤ 57 := by
    simp only [Char.isDigit, Bool.and_eq_true, decide_eq_true_eq, ge_iff_le, UInt32.le_iff_toNat_le]
      at h
    exact h
  simp only [isWhitespace, Bool.or_eq_false_iff, Bool.and_eq_false_iff, decide_eq_false_iff_not]
  omega

theorem nextToken_int (value : BitVec 64) (hrest : Follows rest) :
    nextToken checks floats (Nat.toDigits 10 value.toNat ++ rest) =
      some (some (.int value), rest) := by
  have hdigits : ∀ c ∈ Nat.toDigits 10 value.toNat, c.isDigit = true := fun c hc =>
    Nat.isDigit_of_mem_toDigits (by decide) (by decide) hc
  obtain ⟨htake, hdrop⟩ := takeWhile_append_of_follows hdigits (by decide) (by decide) hrest
  have hvalue := digitCharsToValue_toDigits checks value.isLt
  rw [BitVec.ofNat_toNat, BitVec.setWidth_eq] at hvalue
  cases hlist : Nat.toDigits 10 value.toNat with
  | nil => exact absurd hlist Nat.toDigits_ne_nil
  | cons c cs =>
    rw [hlist] at hdigits htake hdrop hvalue
    have hc := hdigits c List.mem_cons_self
    rw [List.cons_append] at htake hdrop ⊢
    rw [nextToken, isWhitespace_of_isDigit hc, hc, htake, hdrop, hvalue]
    cases hrest <;> rfl

theorem nextToken_name {name : String} (hname : IsIdentifier name)
    (hrest : ∀ c, rest.head? = some c → isDelimiter c = true) :
    nextToken checks floats (name.toList ++ rest) = some (some (.identifier name), rest) := by
  have hplain : ∀ c ∈ name.toList, (!isDelimiter c) = true := fun c hc => by
    rw [hname.plain c hc]
    rfl
  have hstop : ∀ c, rest.head? = some c → (!isDelimiter c) = false := fun c hc => by
    rw [hrest c hc]
    rfl
  obtain ⟨htake, hdrop⟩ := takeWhile_append_of_head hplain hstop
  cases hlist : name.toList with
  | nil => exact absurd hlist hname.nonempty
  | cons c cs =>
    have hc := hname.plain c (by rw [hlist]; exact List.mem_cons_self)
    rw [isDelimiter, Bool.or_eq_false_iff] at hc
    have hdigit := hname.start c (by rw [hlist]; rfl)
    have hsingle : singleCharacterToken c = none := by simpa using hc.2
    rw [hlist] at htake hdrop
    rw [List.cons_append] at htake hdrop ⊢
    rw [nextToken, hc.1, hdigit, hsingle, htake, hdrop, ← hlist, String.ofList_toList]
    rfl

theorem nextToken_identifier {name : String} (hname : IsIdentifier name) (hrest : Follows rest) :
    nextToken checks floats (name.toList ++ rest) = some (some (.identifier name), rest) := by
  refine nextToken_name hname fun c hc => ?_
  cases hrest <;> cases hc <;> decide

theorem nextToken_space : nextToken checks floats (' ' :: text) = nextToken checks floats text := rfl

theorem nextToken_parenLeft :
    nextToken checks floats ('(' :: text) = some (some .parenLeft, text) := rfl

theorem nextToken_parenRight :
    nextToken checks floats (')' :: text) = some (some .parenRight, text) := rfl

/-- A token that is not `=` is next. -/
def Begins (checks : Bool) (floats : FloatText) (text : List Char) : Prop :=
  ∃ token rest, nextToken checks floats text = some (some token, rest) ∧ token ≠ .equals

theorem nextToken_first_equals :
    nextToken checks floats ('=' :: text) =
      match nextToken checks floats text with
      | none => none
      | some (some Token.equals, rest) => some (some Token.doubleEquals, rest)
      | some _ => some (some Token.equals, text) := rfl

theorem nextToken_equals (h : Begins checks floats text) :
    nextToken checks floats ('=' :: ' ' :: text) = some (some .equals, ' ' :: text) := by
  obtain ⟨token, rest, hnext, hne⟩ := h
  rw [nextToken_first_equals, nextToken_space, hnext]
  cases token <;> first | rfl | exact absurd rfl hne

theorem nextToken_doubleEquals (h : Begins checks floats text) :
    nextToken checks floats ('=' :: '=' :: ' ' :: text) =
      some (some .doubleEquals, ' ' :: text) := by
  rw [nextToken_first_equals, nextToken_equals h]

end Lexing

/-! ### Reading a tree back -/

/-- The token that an operator is read from. -/
def InfixOperator.token : InfixOperator → Token
  | .plus => .plus
  | .minus => .minus
  | .asterisk => .asterisk
  | .parenLeft => .parenLeft
  | .carat => .carat
  | .equals => .equals
  | .doubleEquals => .doubleEquals
  | .forwardSlash => .forwardSlash
  | .question => .question

/-- Trees of integer literals, identifiers, and the binary operators with assignment. -/
inductive Printable : Expr → Prop where
  | int (value : BitVec 64) : Printable (.intExpr value)
  | name {name : String} : IsIdentifier name → Printable (.nameExpr (.identifier name))
  | operator {l r : Expr} {op : InfixOperator} :
      op.opStr.isSome = true → Printable l → Printable r → Printable (.operatorExpr l op r)
  | assignment {name : String} {r : Expr} :
      IsIdentifier name → Printable r → Printable (.assignmentExpr name r)

section RoundTrip

variable {checks : Bool} {floats : FloatText} {e : Expr} {text rest : List Char}

theorem Printable.display (floats : FloatText) (h : Printable e) :
    ∃ text, e.display floats = some text := by
  induction h with
  | int value => exact ⟨_, by rw [Expr.display]⟩
  | name hname => exact ⟨_, by rw [Expr.display]⟩
  | operator hop hl hr ihl ihr =>
    obtain ⟨opStr, hopStr⟩ := Option.isSome_iff_exists.mp hop
    obtain ⟨left, hleft⟩ := ihl
    obtain ⟨right, hright⟩ := ihr
    exact ⟨_, by rw [Expr.display, hopStr, hleft, hright]; rfl⟩
  | assignment hname hr ihr =>
    obtain ⟨right, hright⟩ := ihr
    exact ⟨_, by rw [Expr.display, hright]; rfl⟩

theorem Printable.begins (h : Printable e) (hdisplay : e.display floats = some text)
    (hrest : Follows rest) : Begins checks floats (text ++ rest) := by
  cases h with
  | int value =>
    cases hdisplay
    exact ⟨_, _, nextToken_int value hrest, by simp⟩
  | name hname =>
    cases hdisplay
    exact ⟨_, _, nextToken_identifier hname hrest, by simp⟩
  | operator hop hl hr =>
    obtain ⟨opStr, -, hdisplay⟩ := Option.bind_eq_some_iff.mp hdisplay
    obtain ⟨left, -, hdisplay⟩ := Option.bind_eq_some_iff.mp hdisplay
    obtain ⟨right, -, hdisplay⟩ := Option.bind_eq_some_iff.mp hdisplay
    cases hdisplay
    exact ⟨_, _, nextToken_parenLeft, by simp⟩
  | assignment hname hr =>
    obtain ⟨right, -, hdisplay⟩ := Option.bind_eq_some_iff.mp hdisplay
    cases hdisplay
    exact ⟨_, _, nextToken_parenLeft, by simp⟩

/-- An operator as the printer writes it, with a space on both sides. -/
theorem nextToken_operator {op : InfixOperator} {opStr : List Char} (hop : op.opStr = some opStr)
    (h : Begins checks floats text) :
    nextToken checks floats (' ' :: (opStr ++ ' ' :: text)) = some (some op.token, ' ' :: text) := by
  cases op with
  | doubleEquals =>
    cases hop
    exact nextToken_doubleEquals h
  | plus | minus | asterisk | carat | forwardSlash =>
    cases hop
    rfl
  | parenLeft | equals | question => cases hop

/-- At the end of the text, and before a closing parenthesis, the loop ends. -/
theorem parseInfix_stop (checks : Bool) (floats : FloatText) (fuel : Nat) (precedence : Precedence)
    (lhs : Expr)
    (hrest : rest = [] ∨ ∃ text, rest = ')' :: text) :
    parseInfix checks floats (fuel + 1) precedence lhs rest = some (lhs, rest) := by
  have hlowest : ¬precedence < Precedence.lowest := Nat.not_lt_zero _
  rcases hrest with rfl | ⟨text, rfl⟩
  · rw [parseInfix, peekToken, nextToken]
    simp [precedenceOfToken, hlowest]
  · rw [parseInfix, peekToken, nextToken_parenRight]
    simp [precedenceOfToken, InfixOperator.ofToken, hlowest]

theorem parse_space (fuel : Nat) (precedence : Precedence) :
    parseExpressionWithPrecedence checks floats fuel precedence (' ' :: text) =
      parseExpressionWithPrecedence checks floats fuel precedence text := by
  cases fuel with
  | zero => rw [parseExpressionWithPrecedence, parseExpressionWithPrecedence]
  | succ fuel => rw [parseExpressionWithPrecedence, parseExpressionWithPrecedence, nextToken_space]

/-- A parenthesis: the inner expression up to the closing one, and then the loop. -/
theorem parse_paren {fuel : Nat} {precedence : Precedence} {inner : Expr}
    (h : parseExpressionWithPrecedence checks floats fuel .lowest text =
      some (inner, ')' :: rest)) :
    parseExpressionWithPrecedence checks floats (fuel + 1) precedence ('(' :: text) =
      parseInfix checks floats fuel precedence inner rest := by
  rw [parseExpressionWithPrecedence, nextToken_parenLeft]
  simp only [Option.bind_eq_bind, Option.bind_some, Expr.ofToken, h, matchToken,
    nextToken_parenRight, if_true]

/-- An operator of the loop, with a right-hand side that ends before a closing parenthesis. -/
theorem parseInfix_operator {fuel : Nat} {op : InfixOperator} {opStr : List Char} {l r : Expr}
    (hop : op.opStr = some opStr) (hbegins : Begins checks floats text)
    (hright : ∀ precedence, parseExpressionWithPrecedence checks floats (fuel + 1) precedence text =
      some (r, ')' :: rest)) :
    parseInfix checks floats (fuel + 2) .lowest l (' ' :: (opStr ++ ' ' :: text)) =
      some (.operatorExpr l op r, ')' :: rest) := by
  have htoken := nextToken_operator hop hbegins
  have hstop := parseInfix_stop checks floats fuel .lowest
    (.operatorExpr l op r) (.inr ⟨rest, rfl⟩)
  rw [parseInfix, peekToken, htoken]
  cases op with
  | plus | minus | asterisk | carat | forwardSlash | doubleEquals =>
    simp [InfixOperator.token, precedenceOfToken, InfixOperator.ofToken, InfixOperator.precedence,
      parse_space, hright, hstop,
      show Precedence.lowest < Precedence.sum from by decide,
      show Precedence.lowest < Precedence.product from by decide,
      show Precedence.lowest < Precedence.exponent from by decide,
      show Precedence.lowest < Precedence.ternary from by decide]
  | parenLeft | equals | question => cases hop

theorem parseInfix_assignment {fuel : Nat} {name : String} {r : Expr}
    (hbegins : Begins checks floats text)
    (hright : ∀ precedence, parseExpressionWithPrecedence checks floats (fuel + 1) precedence text =
      some (r, ')' :: rest)) :
    parseInfix checks floats (fuel + 2) .lowest (.nameExpr (.identifier name))
      (' ' :: '=' :: ' ' :: text) = some (.assignmentExpr name r, ')' :: rest) := by
  have hstop := parseInfix_stop checks floats fuel .lowest
    (.assignmentExpr name r) (.inr ⟨rest, rfl⟩)
  have htoken : nextToken checks floats (' ' :: '=' :: ' ' :: text) =
      some (some .equals, ' ' :: text) := nextToken_space.trans (nextToken_equals hbegins)
  obtain ⟨token, after, hnext, hne⟩ := hbegins
  rw [parseInfix, peekToken, htoken]
  simp [precedenceOfToken, InfixOperator.ofToken, InfixOperator.precedence, matchToken, htoken,
    peekToken, nextToken_space, hnext, hne, Expr.label, parse_space, hright, hstop,
    show Precedence.lowest < Precedence.assignment from by decide]

/-- **Reading a printed tree** leads into the loop with this tree. -/
theorem Printable.parse (checks : Bool) (h : Printable e) :
    ∀ {text rest : List Char} {fuel : Nat} {precedence : Precedence},
      e.display floats = some text → text.length ≤ fuel → Follows rest →
      parseExpressionWithPrecedence checks floats (fuel + 1) precedence (text ++ rest) =
        parseInfix checks floats fuel precedence e rest := by
  induction h with
  | int value =>
    intro text rest fuel precedence hdisplay hfuel hrest
    cases hdisplay
    rw [parseExpressionWithPrecedence, nextToken_int value hrest]
    rfl
  | name hname =>
    intro text rest fuel precedence hdisplay hfuel hrest
    cases hdisplay
    rw [parseExpressionWithPrecedence, nextToken_identifier hname hrest]
    rfl
  | @operator l r op hop hl hr ihl ihr =>
    intro text rest fuel precedence hdisplay hfuel hrest
    obtain ⟨opStr, hopStr, hdisplay⟩ := Option.bind_eq_some_iff.mp hdisplay
    obtain ⟨left, hleft, hdisplay⟩ := Option.bind_eq_some_iff.mp hdisplay
    obtain ⟨right, hright, hdisplay⟩ := Option.bind_eq_some_iff.mp hdisplay
    cases hdisplay
    simp only [List.length_cons, List.length_append, List.length_nil] at hfuel
    obtain ⟨fuel, rfl⟩ : ∃ k, fuel = k + 4 := ⟨fuel - 4, by omega⟩
    simp only [List.cons_append, List.append_assoc, List.nil_append]
    apply parse_paren
    rw [ihl hleft (by omega) (.space _)]
    apply parseInfix_operator hopStr (hr.begins hright (.paren rest))
    intro precedence
    rw [ihr hright (by omega) (.paren rest)]
    exact parseInfix_stop checks floats fuel precedence r (.inr ⟨rest, rfl⟩)
  | @assignment name r hname hr ihr =>
    intro text rest fuel precedence hdisplay hfuel hrest
    obtain ⟨right, hright, hdisplay⟩ := Option.bind_eq_some_iff.mp hdisplay
    cases hdisplay
    simp only [List.length_cons, List.length_append, List.length_nil] at hfuel
    obtain ⟨fuel, rfl⟩ : ∃ k, fuel = k + 4 := ⟨fuel - 4, by omega⟩
    simp only [List.cons_append, List.append_assoc, List.nil_append]
    apply parse_paren
    have hlabel : parseExpressionWithPrecedence checks floats (fuel + 4) .lowest
        (name.toList ++ ' ' :: '=' :: ' ' :: (right ++ ')' :: rest)) =
        parseInfix checks floats (fuel + 3) .lowest (.nameExpr (.identifier name))
          (' ' :: '=' :: ' ' :: (right ++ ')' :: rest)) := by
      rw [parseExpressionWithPrecedence, nextToken_identifier hname (.space _)]
      rfl
    rw [hlabel]
    apply parseInfix_assignment (hr.begins hright (.paren rest))
    intro precedence
    rw [ihr hright (by omega) (.paren rest)]
    exact parseInfix_stop checks floats fuel precedence r (.inr ⟨rest, rfl⟩)

end RoundTrip

/-- **Printing and parsing.**  A tree of integer literals, identifiers, binary operators and
assignments is printed, and `parse_expression` reads the same tree back from the text and leaves
nothing of it; with overflow checks or without. -/
theorem parseExpression_display (checks : Bool) (floats : FloatText) (e : Expr)
    (h : Printable e) :
    ∃ text, e.display floats = some text ∧
      parseExpression checks floats text = some (e, []) := by
  obtain ⟨text, htext⟩ := h.display floats
  refine ⟨text, htext, ?_⟩
  have hparse : parseExpressionWithPrecedence checks floats (2 * text.length + 2) .lowest
      (text ++ []) = _ := h.parse checks htext (by omega) .nil
  rw [List.append_nil] at hparse
  rw [parseExpression, hparse]
  exact parseInfix_stop checks floats _ .lowest e (.inl rfl)

/-- `((foo ^ (1 + 2)) == (a = 18446744073709551615))`. -/
def nestedExpr : Expr :=
  .operatorExpr
    (.operatorExpr (.nameExpr (.identifier "foo")) .carat
      (.operatorExpr (.intExpr 1) .plus (.intExpr 2)))
    .doubleEquals (.assignmentExpr "a" (.intExpr 18446744073709551615))

theorem isIdentifier_foo : IsIdentifier "foo" where
  nonempty := by decide
  plain := by simp [isDelimiter]; decide
  start := by simp

theorem isIdentifier_a : IsIdentifier "a" where
  nonempty := by decide
  plain := by simp [isDelimiter]; decide
  start := by simp

theorem parseExpression_display_nested :
    ∃ text, nestedExpr.display ⟨fun before _ => before, fun _ => ['0']⟩ = some text ∧
      parseExpression true ⟨fun before _ => before, fun _ => ['0']⟩ text = some (nestedExpr, []) :=
  parseExpression_display true ⟨fun before _ => before, fun _ => ['0']⟩ nestedExpr
    (.operator rfl
      (.operator rfl (.name isIdentifier_foo) (.operator rfl (.int 1) (.int 2)))
      (.assignment isIdentifier_a (.int _)))

end Axle.Compiler
