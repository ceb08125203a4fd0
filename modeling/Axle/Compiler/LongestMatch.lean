import Axle.Lib.MaximalMunch
import Axle.Compiler.Literals
import Axle.Compiler.OperatorChains

/-!
# The C lexer and maximal munch

The tokens of the language are numbers, identifiers, the characters of `single_character_tokens`
and `==`.  A tokenizer takes the longest of them each time.  `Lexer::next_token` looks for the second
`=` of `==` with the whole lexer, so over white space, and so that in a row of `=` it is the last
two that come together first; and a number becomes a `usize`, or two of them around a point.

* `IsLexeme`, `Denotes` — the lexemes of the language, and the token that carries a lexeme;
* `lexesLongest_iff` — **PROVED**: for every text, the lexer is a maximal munch tokenizer exactly if
  every number is kept, and no `=` comes next after `=` or `==`.
-/

namespace Axle.Compiler

/-! ### Lexemes -/

structure IsDigits (digits : List Char) : Prop where
  nonempty : digits ≠ []
  digits : ∀ c ∈ digits, c.isDigit = true

inductive IsLexeme : List Char → Prop where
  | int {digits : List Char} : IsDigits digits → IsLexeme digits
  | float {before after : List Char} : IsDigits before → (∀ c ∈ after, c.isDigit = true) →
      IsLexeme (before ++ '.' :: after)
  | identifier {name : String} : IsIdentifier name → IsLexeme name.toList
  | symbol {c : Char} {token : Token} : singleCharacterToken c = some token → IsLexeme [c]
  | doubleEquals : IsLexeme ['=', '=']

/-- The token of a lexeme; a number is the one that the digits denote. -/
def Denotes (lexeme : List Char) : Token → Prop
  | .int value => IsDigits lexeme ∧ value.toNat = digitsValue lexeme
  | .float bits => ∃ before after, IsDigits before ∧ (∀ c ∈ after, c.isDigit = true) ∧
      lexeme = before ++ '.' :: after ∧ bits = parseFloat before after
  | .identifier name => IsIdentifier name ∧ lexeme = name.toList
  | .doubleEquals => lexeme = ['=', '=']
  | token => ∃ c, lexeme = [c] ∧ singleCharacterToken c = some token

/-- The cut of a text into lexemes, with white space between them. -/
abbrev MunchedText : List Char → List (List Char) → Prop :=
  Munched (fun c => isWhitespace c = true) IsLexeme

theorem symbol_plain {c : Char} {token : Token} (h : singleCharacterToken c = some token) :
    isWhitespace c = false ∧ c.isDigit = false := by
  unfold singleCharacterToken at h
  split at h
  case h_19 => cases h
  all_goals exact ⟨by decide, by decide⟩

theorem startsPlain_isLexeme : StartsPlain (fun c => isWhitespace c = true) IsLexeme := by
  have hdigits : ∀ {digits : List Char}, IsDigits digits →
      ∃ c rest, digits = c :: rest ∧ ¬isWhitespace c = true := by
    intro digits h
    cases digits with
    | nil => exact absurd rfl h.nonempty
    | cons c rest =>
      refine ⟨c, rest, rfl, ?_⟩
      rw [isWhitespace_of_isDigit (h.digits c List.mem_cons_self)]
      exact Bool.false_ne_true
  intro lexeme h
  cases h with
  | int h => exact hdigits h
  | float h _ =>
    obtain ⟨c, rest, heq, hc⟩ := hdigits h
    exact ⟨c, _, by rw [heq, List.cons_append], hc⟩
  | @identifier name h =>
    cases hname : name.toList with
    | nil => exact absurd hname h.nonempty
    | cons c rest =>
      have hplain := h.plain c (by rw [hname]; exact List.mem_cons_self)
      rw [isDelimiter, Bool.or_eq_false_iff] at hplain
      exact ⟨c, rest, rfl, by simp [hplain.1]⟩
  | @symbol c token h => exact ⟨c, [], rfl, by simp [(symbol_plain h).1]⟩
  | doubleEquals => exact ⟨'=', ['='], rfl, by decide⟩

theorem isLexeme_singleton (c : Char) (h : ¬isWhitespace c = true) : IsLexeme [c] := by
  cases htoken : singleCharacterToken c with
  | some token => exact .symbol htoken
  | none =>
    by_cases hdigit : c.isDigit = true
    · exact .int ⟨by simp, by simpa using hdigit⟩
    · have hname : IsIdentifier (String.ofList [c]) :=
        ⟨by simp, by simp [isDelimiter, h, htoken], by simp [hdigit]⟩
      simpa using IsLexeme.identifier hname

/-! ### Repeated `next_token` -/

section Lexes

variable (checks : Bool) (floats : FloatText)

/-- `next_token` until there is no token. -/
inductive Lexes : List Char → List Token → Prop where
  | done {text rest : List Char} : nextToken checks floats text = some (none, rest) →
      Lexes text []
  | next {text rest : List Char} {token : Token} {tokens : List Token} :
      nextToken checks floats text = some (some token, rest) → Lexes rest tokens →
      Lexes text (token :: tokens)

/-- The tokens are those of the lexemes. -/
def Agrees (text : List Char) (lexemes : List (List Char)) : Prop :=
  ∃ tokens, Lexes checks floats text tokens ∧ List.Forall₂ Denotes lexemes tokens

/-- The lexer gives the tokens of the maximal munch. -/
def LexesLongest (text : List Char) : Prop :=
  ∃ lexemes, MunchedText text lexemes ∧ Agrees checks floats text lexemes

end Lexes

/-- The number of the digits around the point is kept: below `2 ^ 48` and `2 ^ 53`, the digits
behind the point do not start with a zero or are all zeros; otherwise, the values of the digits, as
they are written, have the same nearest double, and fit if that is checked. -/
def FractionKept (checks : Bool) (before after : List Char) : Prop :=
  if digitsValue before < 2 ^ 48 ∧ digitsValue after < 2 ^ 53 then
    digitsValue after = 0 ∨ after.head? ≠ some '0'
  else
    (checks = true → digitsValue before < 2 ^ 64 ∧ digitsValue after < 2 ^ 64) ∧
      binary64.code (decimalValue (displayF64 (BitVec.ofNat 64 (digitsValue before)))
        (displayF64 (BitVec.ofNat 64 (digitsValue after)))) =
      binary64.code (decimalValue before after)

/-- A literal without a point is below `2 ^ 64`, and the number of one with a point is kept. -/
structure LiteralKept (checks : Bool) (lexeme : List Char) : Prop where
  int : IsDigits lexeme → digitsValue lexeme < 2 ^ 64
  float : ∀ before after, IsDigits before → (∀ c ∈ after, c.isDigit = true) →
    lexeme = before ++ '.' :: after → FractionKept checks before after

/-- `=` is not next after `=` or `==`. -/
def EqualsApart (lexeme next : List Char) : Prop :=
  next = ['='] → lexeme ≠ ['='] ∧ lexeme ≠ ['=', '=']

structure Kept (checks : Bool) (lexemes : List (List Char)) : Prop where
  apart : lexemes.IsChain EqualsApart
  literals : ∀ lexeme ∈ lexemes, LiteralKept checks lexeme

/-! ### Literals -/

section Literals

variable {checks : Bool} {lexeme before after : List Char}

variable {c : Char} {rest : List Char}

theorem isDigits_cons (h : IsDigits (c :: rest)) : c.isDigit = true := h.digits c List.mem_cons_self

theorem literalKept_of_head (h : c.isDigit = false) : LiteralKept checks (c :: rest) where
  int := fun hdigits => by
    rw [isDigits_cons hdigits] at h
    cases h
  float := by
    intro before after hbefore _ heq
    cases before with
    | nil => exact absurd rfl hbefore.nonempty
    | cons d before =>
      obtain ⟨rfl, -⟩ := List.cons.inj heq
      rw [isDigits_cons hbefore] at h
      cases h

theorem literalKept_int (h : IsDigits lexeme) :
    LiteralKept checks lexeme ↔ digitsValue lexeme < 2 ^ 64 := by
  refine ⟨fun hkept => hkept.int h, fun hlt => ⟨fun _ => hlt, ?_⟩⟩
  rintro before after - - rfl
  have hpoint := h.digits '.' (by simp)
  exact absurd hpoint (by decide)

theorem split_point {before' after' : List Char} (h : IsDigits before) (h' : IsDigits before')
    (heq : before ++ '.' :: after = before' ++ '.' :: after') : before = before' ∧ after = after' := by
  have hpoint : ∀ (rest : List Char) (c : Char), ('.' :: rest).head? = some c → c.isDigit = false := by
    rintro rest c hc
    cases hc
    rfl
  obtain ⟨htake, hdrop⟩ := takeWhile_append_of_head h.digits (hpoint after)
  obtain ⟨htake', hdrop'⟩ := takeWhile_append_of_head h'.digits (hpoint after')
  rw [heq] at htake hdrop
  exact ⟨htake.symm.trans htake', (List.cons.inj (hdrop.symm.trans hdrop')).2⟩

theorem literalKept_float (hbefore : IsDigits before) (hafter : ∀ c ∈ after, c.isDigit = true) :
    LiteralKept checks (before ++ '.' :: after) ↔ FractionKept checks before after := by
  refine ⟨fun hkept => hkept.float before after hbefore hafter rfl, fun hkept => ⟨?_, ?_⟩⟩
  · intro hdigits
    have hpoint := hdigits.digits '.' (by simp)
    exact absurd hpoint (by decide)
  · intro before' after' hbefore' _ heq
    obtain ⟨rfl, rfl⟩ := split_point hbefore hbefore' heq
    exact hkept

theorem fractionKept_iff (hafter : ∀ c ∈ after, c.isDigit = true) :
    FractionKept checks before after ↔
      (checks = true → digitsValue before < 2 ^ 64 ∧ digitsValue after < 2 ^ 64) ∧
        parseFormatted (BitVec.ofNat 64 (digitsValue before)) (BitVec.ofNat 64 (digitsValue after)) =
          parseFloat before after := by
  unfold FractionKept
  split
  · rename_i hsmall
    rw [parseFormatted_eq_iff hafter hsmall.1 hsmall.2]
    refine ⟨fun h => ⟨fun _ => ⟨?_, ?_⟩, h⟩, fun h => h.2⟩
    · exact hsmall.1.trans (by norm_num)
    · exact hsmall.2.trans (by norm_num)
  · rw [parseFormatted, parseFloat_eq_iff]

end Literals

/-! ### One token -/

section Step

variable {checks : Bool} {floats : FloatText} {lexeme rest : List Char}

variable {gap : List Char} {c : Char} {token : Token} {display : BitVec 64 → List Char}

theorem nextToken_gap (hgap : ∀ c ∈ gap, isWhitespace c = true) (text : List Char) :
    nextToken checks floats (gap ++ text) = nextToken checks floats text := by
  induction gap with
  | nil => rfl
  | cons c gap ih =>
    rw [List.cons_append, nextToken, if_pos (hgap c List.mem_cons_self)]
    exact ih fun d hd => hgap d (List.mem_cons_of_mem _ hd)

theorem nextToken_blank (hgap : ∀ c ∈ gap, isWhitespace c = true) :
    nextToken checks floats gap = some (none, []) := by
  rw [← List.append_nil gap, nextToken_gap hgap]
  rfl

theorem nextToken_digits (checks : Bool) (floats : FloatText) (h : IsDigits lexeme)
    (hrest : ∀ c, rest.head? = some c → c.isDigit = false) :
    nextToken checks floats (lexeme ++ rest) =
      (digitCharsToValue checks lexeme).bind fun value =>
        match rest with
        | '.' :: rest =>
          (digitCharsToValue checks (rest.takeWhile Char.isDigit)).bind fun valueAfter =>
            some (some (.float (floats.parse value valueAfter)), rest.dropWhile Char.isDigit)
        | rest => some (some (.int value), rest) := by
  obtain ⟨htake, hdrop⟩ := takeWhile_append_of_head h.digits hrest
  cases lexeme with
  | nil => exact absurd rfl h.nonempty
  | cons c lexeme =>
    have hc := isDigits_cons h
    rw [List.cons_append] at htake hdrop ⊢
    rw [nextToken, if_neg (by simp [isWhitespace_of_isDigit hc]), if_pos hc, htake, hdrop]
    rfl

theorem nextToken_symbol (h : singleCharacterToken c = some token) (hne : token ≠ .equals)
    (rest : List Char) : nextToken checks floats (c :: rest) = some (some token, rest) := by
  obtain ⟨hspace, hdigit⟩ := symbol_plain h
  rw [nextToken, if_neg (by simp [hspace]), if_neg (by simp [hdigit]), h]
  cases token <;> first | rfl | exact absurd rfl hne

/-- The lexer takes the lexeme, or fails on it; the token is not `=`, and it is that of the lexeme
exactly if a literal is kept. -/
def TakesPlain (checks : Bool) (display : BitVec 64 → List Char) (lexeme rest : List Char) : Prop :=
  ∃ token : Option Token,
    nextToken checks ⟨parseFormatted, display⟩ (lexeme ++ rest) =
      token.map (fun t => (some t, rest)) ∧
    token ≠ some .equals ∧
    ((∃ t, token = some t ∧ Denotes lexeme t) ↔ LiteralKept checks lexeme)

theorem takesPlain_of_some
    (hnext : nextToken checks ⟨parseFormatted, display⟩ (lexeme ++ rest) = some (some token, rest))
    (hne : token ≠ .equals) (hdenotes : Denotes lexeme token ↔ LiteralKept checks lexeme) :
    TakesPlain checks display lexeme rest := by
  refine ⟨some token, hnext, fun h => hne (Option.some.inj h), ?_⟩
  rw [← hdenotes]
  simp

theorem takesPlain_of_none
    (hnext : nextToken checks ⟨parseFormatted, display⟩ (lexeme ++ rest) = none)
    (hkept : ¬LiteralKept checks lexeme) : TakesPlain checks display lexeme rest :=
  ⟨none, hnext, by simp, by simpa using hkept⟩

theorem digit_stop (h : LongestLexeme IsLexeme lexeme rest)
    (hmore : ∀ c : Char, c.isDigit = true → IsLexeme (lexeme ++ [c])) (c : Char)
    (hc : rest.head? = some c) : c.isDigit = false := by
  by_contra hdigit
  exact h.not_continued hc (hmore c (by simpa using hdigit))

section

variable (display : BitVec 64 → List Char)

theorem int_step (hint : IsDigits lexeme) (h : LongestLexeme IsLexeme lexeme rest) :
    TakesPlain checks display lexeme rest := by
  have hmore : ∀ c : Char, c.isDigit = true → IsLexeme (lexeme ++ [c]) := by
    intro c hc
    refine .int ⟨by simp, fun d hd => ?_⟩
    rcases List.mem_append.mp hd with hd | hd
    · exact hint.digits d hd
    · rwa [List.mem_singleton.mp hd]
  have hpoint : ∀ more, rest ≠ '.' :: more := by
    rintro more rfl
    exact h.not_continued rfl (.float hint (by simp))
  have hnext := nextToken_digits checks ⟨parseFormatted, display⟩ hint (digit_stop h hmore)
  rw [digitCharsToValue_eq checks hint.digits] at hnext
  split at hnext
  · rename_i hover
    refine takesPlain_of_none hnext ?_
    rw [literalKept_int hint]
    exact not_lt.mpr hover.2
  · have htoken : nextToken checks ⟨parseFormatted, display⟩ (lexeme ++ rest) =
        some (some (.int (BitVec.ofNat 64 (digitsValue lexeme))), rest) := by
      rw [hnext, Option.bind_some]
      split
      · exact absurd rfl (hpoint _)
      · rfl
    refine takesPlain_of_some htoken (by simp) ?_
    rw [literalKept_int hint]
    constructor
    · rintro ⟨-, hvalue⟩
      rw [← hvalue]
      exact BitVec.isLt _
    · intro hlt
      refine ⟨hint, ?_⟩
      rw [BitVec.toNat_ofNat, Nat.mod_eq_of_lt hlt]

theorem float_step {before after : List Char} (hbefore : IsDigits before)
    (hafter : ∀ c ∈ after, c.isDigit = true)
    (h : LongestLexeme IsLexeme (before ++ '.' :: after) rest) :
    TakesPlain checks display (before ++ '.' :: after) rest := by
  have hmore : ∀ c : Char, c.isDigit = true → IsLexeme (before ++ '.' :: after ++ [c]) := by
    intro c hc
    rw [List.append_assoc]
    refine .float hbefore fun d hd => ?_
    rcases List.mem_append.mp hd with hd | hd
    · exact hafter d hd
    · rwa [List.mem_singleton.mp hd]
  obtain ⟨htake, hdrop⟩ := takeWhile_append_of_head hafter (digit_stop h hmore)
  have hpoint : ∀ c, ('.' :: (after ++ rest)).head? = some c → c.isDigit = false := by
    rintro c hc
    cases hc
    rfl
  have hnext : nextToken checks ⟨parseFormatted, display⟩ (before ++ '.' :: (after ++ rest)) =
      (digitCharsToValue checks before).bind fun value =>
        (digitCharsToValue checks ((after ++ rest).takeWhile Char.isDigit)).bind fun valueAfter =>
          some (some (.float (parseFormatted value valueAfter)),
            (after ++ rest).dropWhile Char.isDigit) :=
    nextToken_digits checks ⟨parseFormatted, display⟩ hbefore hpoint
  rw [digitCharsToValue_eq checks hbefore.digits, htake, hdrop, digitCharsToValue_eq checks hafter,
    show before ++ '.' :: (after ++ rest) = before ++ '.' :: after ++ rest by simp] at hnext
  have hdenotes : ∀ bits, Denotes (before ++ '.' :: after) (.float bits) ↔
      bits = parseFloat before after := by
    intro bits
    constructor
    · rintro ⟨before', after', hbefore', -, heq, hbits⟩
      obtain ⟨rfl, rfl⟩ := split_point hbefore hbefore' heq
      exact hbits
    · exact fun hbits => ⟨before, after, hbefore, hafter, rfl, hbits⟩
  have hkept : LiteralKept checks (before ++ '.' :: after) ↔ _ :=
    (literalKept_float hbefore hafter).trans (fractionKept_iff hafter)
  by_cases hover : checks = true ∧ 2 ^ 64 ≤ digitsValue before
  · rw [if_pos hover] at hnext
    refine takesPlain_of_none hnext fun h => ?_
    exact absurd ((hkept.mp h).1 hover.1).1 (not_lt.mpr hover.2)
  by_cases hover' : checks = true ∧ 2 ^ 64 ≤ digitsValue after
  · rw [if_neg hover, if_pos hover'] at hnext
    refine takesPlain_of_none hnext fun h => ?_
    exact absurd ((hkept.mp h).1 hover'.1).2 (not_lt.mpr hover'.2)
  · rw [if_neg hover, if_neg hover'] at hnext
    refine takesPlain_of_some hnext (by simp) ?_
    rw [hdenotes, hkept]
    refine ⟨fun heq => ⟨fun hchecks => ⟨?_, ?_⟩, heq⟩, fun h => h.2⟩
    · exact not_le.mp fun hle => hover ⟨hchecks, hle⟩
    · exact not_le.mp fun hle => hover' ⟨hchecks, hle⟩

theorem name_step {name : String} (hname : IsIdentifier name)
    (h : LongestLexeme IsLexeme name.toList rest) : TakesPlain checks display name.toList rest := by
  obtain ⟨c, more, hlist⟩ := List.exists_cons_of_ne_nil hname.nonempty
  have hhead : c.isDigit = false := hname.start c (by rw [hlist]; rfl)
  have hstop : ∀ d, rest.head? = some d → isDelimiter d = true := by
    intro d hd
    by_contra hplain
    have hlonger : IsIdentifier (String.ofList (name.toList ++ [d])) := by
      refine ⟨by simp, ?_, ?_⟩
      · intro e he
        rw [String.toList_ofList] at he
        rcases List.mem_append.mp he with he | he
        · exact hname.plain e he
        · rw [List.mem_singleton.mp he]
          simpa using hplain
      · rw [String.toList_ofList, hlist]
        rintro e he
        cases he
        exact hhead
    have hlexeme := IsLexeme.identifier hlonger
    rw [String.toList_ofList] at hlexeme
    exact h.not_continued hd hlexeme
  refine takesPlain_of_some (nextToken_name hname hstop) (by simp) ?_
  refine iff_of_true ⟨hname, rfl⟩ ?_
  rw [hlist]
  exact literalKept_of_head hhead

end

theorem equals_iff : singleCharacterToken c = some .equals ↔ c = '=' := by
  refine ⟨fun h => ?_, fun h => h ▸ rfl⟩
  unfold singleCharacterToken at h
  split at h
  case h_15 => rfl
  all_goals cases h

theorem denotes_symbol (h : singleCharacterToken c = some token) : Denotes [c] token := by
  have hone : ∃ d, [c] = [d] ∧ singleCharacterToken d = some token := ⟨c, rfl, h⟩
  cases token
  case float | identifier | int | doubleEquals =>
    unfold singleCharacterToken at h
    split at h <;> cases h
  all_goals exact hone

theorem symbol_step (display : BitVec 64 → List Char)
    (hsymbol : singleCharacterToken c = some token) (hne : c ≠ '=') :
    TakesPlain checks display [c] rest := by
  have htoken : token ≠ .equals := fun heq => hne (equals_iff.mp (heq ▸ hsymbol))
  refine takesPlain_of_some (nextToken_symbol hsymbol htoken rest) htoken ?_
  exact iff_of_true (denotes_symbol hsymbol) (literalKept_of_head (symbol_plain hsymbol).2)

theorem plain_step (checks : Bool) (display : BitVec 64 → List Char)
    (h : LongestLexeme IsLexeme lexeme rest) (hequals : lexeme ≠ ['='])
    (hdouble : lexeme ≠ ['=', '=']) : TakesPlain checks display lexeme rest := by
  cases h.taken with
  | int hint => exact int_step display hint h
  | float hbefore hafter => exact float_step display hbefore hafter h
  | identifier hname => exact name_step display hname h
  | symbol hsymbol => exact symbol_step display hsymbol fun heq => hequals (by rw [heq])
  | doubleEquals => exact absurd rfl hdouble

end Step

/-! ### Rows of `=` -/

/-- The number of single `=` before another lexeme. -/
def leadingEquals : List (List Char) → ℕ
  | ['='] :: lexemes => leadingEquals lexemes + 1
  | ['=', '='] :: lexemes => leadingEquals lexemes
  | _ => 0

variable {lexeme : List Char} {lexemes : List (List Char)}

theorem leadingEquals_plain (hequals : lexeme ≠ ['=']) (hdouble : lexeme ≠ ['=', '='])
    (lexemes : List (List Char)) : leadingEquals (lexeme :: lexemes) = 0 := by
  unfold leadingEquals
  split
  · exact absurd (by simp_all) hequals
  · exact absurd (by simp_all) hdouble
  · rfl

/-- Behind `=` and `==` there is no single `=` in the row. -/
theorem leadingEquals_eq_zero (hlexeme : lexeme = ['='] ∨ lexeme = ['=', '='])
    (h : (lexeme :: lexemes).IsChain EqualsApart) : leadingEquals lexemes = 0 := by
  induction lexemes generalizing lexeme with
  | nil => rfl
  | cons next lexemes ih =>
    rw [List.isChain_cons_cons] at h
    by_cases hequals : next = ['=']
    · obtain ⟨hne, hne'⟩ := h.1 hequals
      rcases hlexeme with heq | heq
      · exact absurd heq hne
      · exact absurd heq hne'
    · by_cases hdouble : next = ['=', '=']
      · subst hdouble
        exact ih (.inr rfl) h.2
      · exact leadingEquals_plain hequals hdouble lexemes

/-- With an even number of them, the row does not start with one. -/
theorem apart_of_even (h : lexemes.IsChain EqualsApart) (heven : leadingEquals lexemes % 2 = 0)
    (lexeme : List Char) : (lexeme :: lexemes).IsChain EqualsApart := by
  cases lexemes with
  | nil => exact List.isChain_singleton lexeme
  | cons next lexemes =>
    refine List.isChain_cons_cons.mpr ⟨fun hequals => ?_, h⟩
    subst hequals
    have hzero := leadingEquals_eq_zero (.inl rfl) h
    rw [leadingEquals, hzero] at heven
    cases heven

section Row

variable {checks : Bool} {display : BitVec 64 → List Char} {text rest : List Char}
  {lexemes : List (List Char)}

variable {floats : FloatText} {token : Option Token} {lexeme : List Char}

theorem nextToken_equals_cons (h : nextToken checks floats text = some (token, rest)) :
    nextToken checks floats ('=' :: text) =
      some (if token = some .equals then (some .doubleEquals, rest) else (some .equals, text)) := by
  rw [nextToken_first_equals, h]
  cases token with
  | none => rfl
  | some token => cases token <;> rfl

theorem nextToken_equals_equals (h : nextToken checks floats text = some (token, rest)) :
    nextToken checks floats ('=' :: '=' :: text) =
      some (if token = some .equals then (some .equals, '=' :: text)
        else (some .doubleEquals, text)) := by
  have hinner := nextToken_equals_cons h
  by_cases htoken : token = some .equals
  · rw [if_pos htoken] at hinner ⊢
    rw [nextToken_equals_cons hinner, if_neg (by simp)]
  · rw [if_neg htoken] at hinner ⊢
    rw [nextToken_equals_cons hinner, if_pos rfl]

/-- **The parity (proved)** of a row decides whether `=` is the next token. -/
theorem nextToken_munched (display : BitVec 64 → List Char) (h : MunchedText text lexemes)
    (hkept : ∀ lexeme ∈ lexemes, LiteralKept checks lexeme) :
    ∃ token rest, nextToken checks ⟨parseFormatted, display⟩ text = some (token, rest) ∧
      (token = some .equals ↔ leadingEquals lexemes % 2 = 1) := by
  induction h with
  | done hgap => exact ⟨none, [], nextToken_blank hgap, by simp [leadingEquals]⟩
  | @next gap lexeme rest lexemes hgap hlongest hrest ih =>
    rw [nextToken_gap hgap]
    obtain ⟨hlexeme, hlexemes⟩ := List.forall_mem_cons.mp hkept
    obtain ⟨token, after, hnext, hparity⟩ := ih hlexemes
    by_cases hequals : lexeme = ['=']
    · subst hequals
      have hstep := nextToken_equals_cons hnext
      rw [leadingEquals]
      by_cases htoken : token = some .equals
      · have hodd := hparity.mp htoken
        rw [if_pos htoken] at hstep
        exact ⟨_, _, hstep, iff_of_false (by simp) (by omega)⟩
      · have heven := mt hparity.mpr htoken
        rw [if_neg htoken] at hstep
        exact ⟨_, _, hstep, iff_of_true rfl (by omega)⟩
    by_cases hdouble : lexeme = ['=', '=']
    · subst hdouble
      have hstep := nextToken_equals_equals hnext
      rw [leadingEquals, ← hparity]
      by_cases htoken : token = some .equals
      · rw [if_pos htoken] at hstep
        exact ⟨_, _, hstep, iff_of_true rfl htoken⟩
      · rw [if_neg htoken] at hstep
        exact ⟨_, _, hstep, iff_of_false (by simp) htoken⟩
    · obtain ⟨taken, htaken, hne, hiff⟩ :=
        plain_step checks display hlongest hequals hdouble
      obtain ⟨t, rfl, -⟩ := hiff.mpr hlexeme
      refine ⟨some t, rest, htaken, ?_⟩
      rw [leadingEquals_plain hequals hdouble]
      exact iff_of_false hne (by decide)

/-! ### The whole text -/

theorem agrees_cons :
    Agrees checks floats text (lexeme :: lexemes) ↔ ∃ token rest,
      nextToken checks floats text = some (some token, rest) ∧ Denotes lexeme token ∧
        Agrees checks floats rest lexemes := by
  constructor
  · rintro ⟨tokens, hlexes, hdenotes⟩
    cases hdenotes with
    | cons hdenotes hrest =>
      cases hlexes with
      | next hnext hlexes => exact ⟨_, _, hnext, hdenotes, _, hlexes, hrest⟩
  · rintro ⟨token, rest, hnext, hdenotes, tokens, hlexes, hrest⟩
    exact ⟨token :: tokens, .next hnext hlexes, .cons hdenotes hrest⟩

theorem kept_cons :
    Kept checks (lexeme :: lexemes) ↔
      LiteralKept checks lexeme ∧ (lexeme :: lexemes).IsChain EqualsApart ∧ Kept checks lexemes := by
  constructor
  · rintro ⟨hapart, hliterals⟩
    obtain ⟨hlexeme, hlexemes⟩ := List.forall_mem_cons.mp hliterals
    exact ⟨hlexeme, hapart, List.IsChain.tail hapart, hlexemes⟩
  · rintro ⟨hlexeme, hapart, hkept⟩
    exact ⟨hapart, List.forall_mem_cons.mpr ⟨hlexeme, hkept.literals⟩⟩

theorem denotes_row {token : Token} (hlexeme : lexeme = ['='] ∨ lexeme = ['=', '='])
    (h : Denotes lexeme token) :
    token = .equals ∧ lexeme = ['='] ∨ token = .doubleEquals ∧ lexeme = ['=', '='] := by
  have hhead : lexeme.head? = some '=' := by rcases hlexeme with rfl | rfl <;> rfl
  have hdigits : ∀ digits : List Char, IsDigits digits → digits.head? ≠ some '=' := by
    intro digits hdigits heq
    have := hdigits.digits '=' (List.mem_of_head? heq)
    exact absurd this (by decide)
  cases token with
  | int value => exact absurd hhead (hdigits _ h.1)
  | float bits =>
    obtain ⟨before, after, hbefore, -, rfl, -⟩ := h
    rw [List.head?_append_of_ne_nil _ hbefore.nonempty] at hhead
    exact absurd hhead (hdigits _ hbefore)
  | identifier name =>
    obtain ⟨hname, rfl⟩ := h
    have := hname.plain '=' (List.mem_of_head? hhead)
    exact absurd this (by decide)
  | doubleEquals => exact .inr ⟨rfl, h⟩
  | _ =>
    obtain ⟨c, rfl, htoken⟩ := h
    obtain rfl := Option.some.inj hhead
    exact .inl ⟨Option.some.inj (htoken.symm.trans (equals_iff.mpr rfl)), rfl⟩

theorem denotes_equals (token : Token) : Denotes ['='] token ↔ token = .equals := by
  refine ⟨fun h => ?_, fun h => h ▸ denotes_symbol rfl⟩
  rcases denotes_row (.inl rfl) h with ⟨heq, -⟩ | ⟨-, hlexeme⟩
  · exact heq
  · cases hlexeme

theorem denotes_doubleEquals (token : Token) :
    Denotes ['=', '='] token ↔ token = .doubleEquals := by
  refine ⟨fun h => ?_, fun h => h ▸ rfl⟩
  rcases denotes_row (.inr rfl) h with ⟨-, hlexeme⟩ | ⟨heq, -⟩
  · cases hlexeme
  · exact heq

/-- A lexeme of a row of `=`: the lexer takes it, unless a single `=` comes next for it. -/
theorem agrees_row {token : Token} (other : Token) (display : BitVec 64 → List Char)
    (hlexeme : lexeme = ['='] ∨ lexeme = ['=', '=']) (hdenotes : ∀ t, Denotes lexeme t ↔ t = token)
    (hother : other ≠ token) (hnone : nextToken checks ⟨parseFormatted, display⟩ rest = none →
      nextToken checks ⟨parseFormatted, display⟩ text = none) (hnext : ∀ peeked more,
      nextToken checks ⟨parseFormatted, display⟩ rest = some (peeked, more) →
      ∃ after, nextToken checks ⟨parseFormatted, display⟩ text =
        some (if peeked = some .equals then (some other, after) else (some token, rest)))
    (hrest : MunchedText rest lexemes)
    (ih : Agrees checks ⟨parseFormatted, display⟩ rest lexemes ↔ Kept checks lexemes) :
    Agrees checks ⟨parseFormatted, display⟩ text (lexeme :: lexemes) ↔
      Kept checks (lexeme :: lexemes) := by
  rw [agrees_cons, kept_cons]
  constructor
  · rintro ⟨t, rest', htext, ht, hagrees⟩
    obtain rfl := (hdenotes t).mp ht
    cases hpeek : nextToken checks ⟨parseFormatted, display⟩ rest with
    | none =>
      rw [hnone hpeek] at htext
      cases htext
    | some peeked =>
      obtain ⟨after, heq⟩ := hnext peeked.1 peeked.2 hpeek
      rw [heq] at htext
      by_cases htoken : peeked.1 = some .equals
      · rw [if_pos htoken] at htext
        cases htext
        exact absurd rfl hother
      · rw [if_neg htoken] at htext
        cases htext
        have hkept := ih.mp hagrees
        obtain ⟨_, _, hmunched, hparity⟩ := nextToken_munched display hrest hkept.literals
        rw [hpeek] at hmunched
        cases hmunched
        have heven : leadingEquals lexemes % 2 = 0 := by
          have := mt hparity.mpr htoken
          omega
        refine ⟨?_, apart_of_even hkept.apart heven _, hkept⟩
        rcases hlexeme with rfl | rfl <;> exact literalKept_of_head (by decide)
  · rintro ⟨-, hapart, hkept⟩
    obtain ⟨peeked, more, hpeek, hparity⟩ := nextToken_munched display hrest hkept.literals
    rw [leadingEquals_eq_zero hlexeme hapart] at hparity
    obtain ⟨after, heq⟩ := hnext peeked more hpeek
    rw [if_neg (mt hparity.mp (by decide))] at heq
    exact ⟨token, rest, heq, (hdenotes token).mpr rfl, ih.mpr hkept⟩

/-- **One cut (proved)**: the tokens agree with it exactly if it is kept. -/
theorem agrees_iff (checks : Bool) (display : BitVec 64 → List Char)
    (h : MunchedText text lexemes) :
    Agrees checks ⟨parseFormatted, display⟩ text lexemes ↔ Kept checks lexemes := by
  induction h with
  | done hgap =>
    refine iff_of_true ⟨[], .done (nextToken_blank hgap), .nil⟩ ⟨List.isChain_nil, by simp⟩
  | @next gap lexeme rest lexemes hgap hlongest hrest ih =>
    have hgaps : ∀ text, nextToken checks ⟨parseFormatted, display⟩ (gap ++ text) =
        nextToken checks ⟨parseFormatted, display⟩ text := nextToken_gap hgap
    by_cases hequals : lexeme = ['=']
    · subst hequals
      refine agrees_row .doubleEquals display (.inl rfl) denotes_equals (by simp) ?_ ?_ hrest ih
      · intro hnone
        rw [hgaps, List.singleton_append, nextToken_first_equals, hnone]
      · intro peeked more hpeek
        rw [hgaps]
        exact ⟨more, nextToken_equals_cons hpeek⟩
    by_cases hdouble : lexeme = ['=', '=']
    · subst hdouble
      refine agrees_row .equals display (.inr rfl) denotes_doubleEquals (by simp) ?_ ?_ hrest ih
      · intro hnone
        rw [hgaps]
        show nextToken checks ⟨parseFormatted, display⟩ ('=' :: '=' :: rest) = none
        rw [nextToken_first_equals, nextToken_first_equals, hnone]
      · intro peeked more hpeek
        rw [hgaps]
        exact ⟨'=' :: rest, nextToken_equals_equals hpeek⟩
    · obtain ⟨token, htoken, -, hiff⟩ :=
        plain_step checks display hlongest hequals hdouble
      have hapart : (lexeme :: lexemes).IsChain EqualsApart ↔ lexemes.IsChain EqualsApart := by
        cases lexemes with
        | nil => exact iff_of_true (List.isChain_singleton lexeme) List.isChain_nil
        | cons next lexemes =>
          rw [List.isChain_cons_cons]
          exact and_iff_right fun _ => ⟨hequals, hdouble⟩
      rw [agrees_cons, kept_cons, hgaps, htoken, hapart, ← ih, ← hiff]
      constructor
      · rintro ⟨t, rest', hnext, hdenotes, hagrees⟩
        obtain ⟨t', rfl, heq⟩ := Option.map_eq_some_iff.mp hnext
        cases heq
        exact ⟨⟨t, rfl, hdenotes⟩, (ih.mp hagrees).apart, hagrees⟩
      · rintro ⟨⟨t, rfl, hdenotes⟩, -, hagrees⟩
        exact ⟨t, rest, rfl, hdenotes, hagrees⟩

theorem munched_single (h : IsLexeme text) : MunchedText text [text] := by
  have hlongest : LongestLexeme IsLexeme text [] := by
    refine ⟨h, fun other hother _ => ?_⟩
    rw [List.append_nil] at hother
    exact hother.length_le
  have hdone : MunchedText [] [] := .done (by simp)
  have hmunched : MunchedText ([] ++ (text ++ [])) [text] := .next (by simp) hlongest hdone
  simpa using hmunched

/-- **The C lexer and maximal munch (proved)**: the tokens of a text are those of its longest
lexemes exactly if the number of every literal is kept and no `=` comes next after `=` or `==`. -/
theorem lexesLongest_iff (checks : Bool) (display : BitVec 64 → List Char) (text : List Char) :
    LexesLongest checks ⟨parseFormatted, display⟩ text ↔
      ∀ lexemes, MunchedText text lexemes → Kept checks lexemes := by
  constructor
  · rintro ⟨lexemes, hmunched, hagrees⟩ lexemes' hmunched'
    rw [hmunched'.unique startsPlain_isLexeme hmunched]
    exact (agrees_iff checks display hmunched).mp hagrees
  · intro hkept
    obtain ⟨lexemes, hmunched⟩ := exists_munched startsPlain_isLexeme isLexeme_singleton text
    exact ⟨lexemes, hmunched, (agrees_iff checks display hmunched).mpr (hkept lexemes hmunched)⟩

end Row


/-- Two `=` with a space between them are read as `==`, and `5.05` as `5.5`. -/
theorem lexesLongest_differences :
    ¬LexesLongest true ⟨parseFormatted, fun _ => []⟩ ['=', ' ', '='] ∧
      ¬LexesLongest true ⟨parseFormatted, fun _ => []⟩ ['5', '.', '0', '5'] := by
  constructor
  · rintro ⟨lexemes, hmunched, tokens, hlexes, hdenotes⟩
    have hnext : nextToken true ⟨parseFormatted, fun _ => []⟩ ['=', ' ', '='] =
        some (some .doubleEquals, []) := rfl
    cases hlexes with
    | done hdone =>
      cases hdone
    | next hfirst _ =>
      cases hfirst
      cases hdenotes with
      | @cons lexeme _ _ _ hlexeme _ =>
        obtain rfl : lexeme = ['=', '='] := hlexeme
        generalize htext : ['=', ' ', '='] = text at hmunched
        cases hmunched with
        | @next gap _ rest _ hgap _ _ =>
          cases gap with
          | nil => simp at htext
          | cons c gap =>
            obtain ⟨rfl, -⟩ := List.cons.inj htext
            exact absurd (hgap _ List.mem_cons_self) (by decide)
  · rintro ⟨lexemes, hmunched, hagrees⟩
    have hdigits : IsDigits ['5'] := ⟨by decide, List.forall_mem_singleton.mpr (by decide)⟩
    have hafter : ∀ c ∈ ['0', '5'], c.isDigit = true := List.all_eq_true.mp (by decide)
    have hlexeme : IsLexeme (['5'] ++ '.' :: ['0', '5']) := .float hdigits hafter
    rw [hmunched.unique startsPlain_isLexeme (munched_single hlexeme)] at hagrees
    have hkept := ((agrees_iff _ _ (munched_single hlexeme)).mp hagrees).literals _ List.mem_cons_self
    rw [literalKept_float hdigits hafter, FractionKept, if_pos (by decide)] at hkept
    exact absurd hkept (by decide)

end Axle.Compiler
