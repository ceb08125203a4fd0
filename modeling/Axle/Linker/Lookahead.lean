import Axle.Linker.AssemblyText
import Mathlib.Data.List.DropRight
import Mathlib.Tactic

/-!
# Lookahead in the assembly lexer

`peek_token` reads the next token and moves the cursor back by the length of the token.  What was
skipped before the token stays skipped, the length of an identifier is counted in bytes while the
cursor counts characters, and where there is no token the cursor stays at the end.  An identifier
that the text ends with is never delivered.

* `Transparent` — the lookahead answers what comes next, and leaves the cursor where it is;
* `PeeksInPlace` — nothing is left, or a token stands right here whose bytes are its characters (or
  as many blanks stand before an identifier as it has bytes beyond its characters);
* `transparent_iff` — **PROVED**: the lookahead is transparent exactly there;
* `tokens_newline_iff` — **PROVED**: a newline at the end changes the tokens exactly where the text
  ends in an identifier;
* `lookahead_iff` — **PROVED**: both, over everything the lexer reaches in a text.
-/

namespace Axle.Linker

open Axle.Compiler

/-! ### What stands before a token -/

/-- Whitespace and whole comments. -/
inductive Blank : List Char → Prop
  | nil : Blank []
  | space {c : Char} {rest : List Char} : isWhitespace c = true → Blank rest → Blank (c :: rest)
  | comment {line rest : List Char} :
      '\n' ∉ line → Blank rest → Blank ('#' :: (line ++ '\n' :: rest))

/-- The text starts with `blank` and then the characters `name` of an identifier. -/
structure StartsWithName (text blank name : List Char) (next : Char) (rest : List Char) : Prop where
  splits : text = blank ++ (name ++ next :: rest)
  blank : Blank blank
  nonempty : name ≠ []
  parts : ∀ c ∈ name, isPart c = true
  ends : isPart next = false

/-- The text starts with `blank` and then a token of a single character. -/
structure StartsWithSingle (text blank : List Char) (c : Char) (token : Token) (rest : List Char) :
    Prop where
  splits : text = blank ++ c :: rest
  blank : Blank blank
  notHash : c ≠ '#'
  single : singleCharacterToken c = some token

theorem skipBlank_line {line : List Char} (h : '\n' ∉ line) (text : List Char) :
    skipBlank true (line ++ '\n' :: text) = skipBlank false text := by
  induction line with
  | nil => rfl
  | cons c line ih =>
    have hc : c ≠ '\n' := (List.ne_of_not_mem_cons h).symm
    show skipBlank (c != '\n') (line ++ '\n' :: text) = _
    rw [bne_iff_ne.mpr hc]
    exact ih (List.not_mem_of_not_mem_cons h)

variable {blank text rest name : List Char} {c : Char} {token : Token}

theorem Blank.skip (h : Blank blank) (text : List Char) :
    skipBlank false (blank ++ text) = skipBlank false text := by
  induction h with
  | nil => rfl
  | space hc _ ih =>
    rw [List.cons_append, skipBlank, if_pos hc]
    exact ih
  | comment hline _ ih =>
    rw [List.cons_append, List.append_assoc, List.cons_append, skipBlank, if_neg (by decide),
      if_pos rfl, skipBlank_line hline]
    exact ih

theorem Blank.lexToken (h : Blank blank) (text : List Char) :
    lexToken (blank ++ text) = lexToken text := by
  rw [Axle.Linker.lexToken, Axle.Linker.lexToken, h.skip]

theorem isWhitespace_of_single (h : singleCharacterToken c = some token) :
    isWhitespace c = false := by
  unfold singleCharacterToken at h
  split at h <;> first | decide | cases h

section Starts

variable {text blank name rest : List Char} {c next : Char} {token : Token}

theorem StartsWithSingle.lexToken (h : StartsWithSingle text blank c token rest) :
    lexToken text = (some token, rest) := by
  rw [h.splits, h.blank.lexToken]
  exact lexToken_single h.single (isWhitespace_of_single h.single) h.notHash rest

theorem StartsWithName.lexToken (h : StartsWithName text blank name next rest) :
    lexToken text = (some (.identifier (String.ofList name)), next :: rest) := by
  have hname : (String.ofList name).toList = name := String.toList_ofList
  have hne : (String.ofList name).toList ≠ [] := hname.symm ▸ h.nonempty
  have htoken := lexToken_identifier hne (hname.symm ▸ h.parts) h.ends rest
  rw [h.splits, h.blank.lexToken]
  rwa [hname] at htoken

end Starts

/-! ### Every text starts in one of five ways -/

/-- Nothing but whitespace and comments, of which the last may be open. -/
inductive AllBlank (text : List Char) : Prop
  | whole (h : Blank text)
  | openComment {blank line : List Char} (h : Blank blank) (hline : '\n' ∉ line)
      (htext : text = blank ++ '#' :: line)

theorem blank_or_starts (text : List Char) :
    AllBlank text ∨ ∃ blank c rest, Blank blank ∧ text = blank ++ c :: rest ∧
      isWhitespace c = false ∧ c ≠ '#' := by
  induction hn : text.length using Nat.strong_induction_on generalizing text with
  | _ n ih =>
    cases text with
    | nil => exact .inl (.whole .nil)
    | cons c rest =>
      subst hn
      by_cases hspace : isWhitespace c = true
      · rcases ih rest.length (Nat.lt_succ_self _) rest rfl with hblank | hstarts
        · cases hblank with
          | whole h => exact .inl (.whole (.space hspace h))
          | openComment h hline htext =>
            exact .inl (.openComment (.space hspace h) hline (congrArg (c :: ·) htext))
        · obtain ⟨blank, d, more, hblank, hrest, hd⟩ := hstarts
          exact .inr ⟨c :: blank, d, more, .space hspace hblank, congrArg (c :: ·) hrest, hd⟩
      · by_cases hhash : c = '#'
        · subst hhash
          by_cases hmem : '\n' ∈ rest
          · obtain ⟨line, after, hrest, hline⟩ := List.eq_append_cons_of_mem hmem
            subst hrest
            have hshorter : after.length < ('#' :: (line ++ '\n' :: after)).length := by
              rw [List.length_cons, List.length_append, List.length_cons]
              omega
            rcases ih after.length hshorter after rfl with hblank | hstarts
            · cases hblank with
              | whole h => exact .inl (.whole (.comment hline h))
              | openComment h hline' htext =>
                exact .inl (.openComment (.comment hline h) hline' (by rw [htext]; simp))
            · obtain ⟨blank, d, more, hblank, hrest, hd⟩ := hstarts
              exact .inr ⟨_, d, more, .comment hline hblank, by rw [hrest]; simp, hd⟩
          · exact .inl (.openComment .nil hmem rfl)
        · exact .inr ⟨[], c, rest, .nil, rfl, Bool.eq_false_iff.mpr hspace, hhash⟩

/-- A text without a token: blank, or an identifier at its very end. -/
inductive NoToken (text : List Char) : Prop
  | allBlank (h : AllBlank text)
  | nameAtEnd {blank name : List Char} (h : Blank blank) (hne : name ≠ [])
      (hparts : ∀ c ∈ name, isPart c = true) (htext : text = blank ++ name)

theorem lexToken_cases (text : List Char) :
    NoToken text ∨
    (∃ blank c token rest, StartsWithSingle text blank c token rest) ∨
    ∃ blank name next rest, StartsWithName text blank name next rest := by
  rcases blank_or_starts text with hblank | ⟨blank, c, rest, hblank, htext, hspace, hhash⟩
  · exact .inl (.allBlank hblank)
  cases hsingle : singleCharacterToken c with
  | some token => exact .inr (.inl ⟨blank, c, token, rest, htext, hblank, hhash, hsingle⟩)
  | none =>
    have hc : isPart c = true := by rw [isPart, hspace, hsingle]; rfl
    have hne : (c :: rest).takeWhile isPart ≠ [] := by
      rw [List.takeWhile_cons, if_pos hc]
      exact List.cons_ne_nil _ _
    have hparts : ∀ d ∈ (c :: rest).takeWhile isPart, isPart d = true := by
      intro d hd
      exact List.mem_takeWhile_imp hd
    have hsplit := List.takeWhile_append_dropWhile (p := isPart) (l := c :: rest)
    cases hdrop : (c :: rest).dropWhile isPart with
    | nil =>
      rw [hdrop, List.append_nil] at hsplit
      exact .inl (.nameAtEnd hblank hne hparts (by rw [hsplit, htext]))
    | cons next more =>
      have hnext : isPart next = false := by
        have hhead := List.head?_dropWhile_not isPart (c :: rest)
        rw [hdrop] at hhead
        simpa using hhead
      rw [hdrop] at hsplit
      exact .inr (.inr ⟨blank, _, next, more, by rw [hsplit, htext], hblank, hne, hparts, hnext⟩)

theorem AllBlank.lexToken (h : AllBlank text) : lexToken text = (none, []) := by
  cases h with
  | whole h =>
    have hskip := h.lexToken []
    rwa [List.append_nil] at hskip
  | openComment h hline htext =>
    rename_i blank line
    have hopen : ∀ line : List Char, '\n' ∉ line → skipBlank true line = [] := by
      intro line hline
      induction line with
      | nil => rfl
      | cons c line ih =>
        show skipBlank (c != '\n') line = []
        rw [bne_iff_ne.mpr (List.ne_of_not_mem_cons hline).symm]
        exact ih (List.not_mem_of_not_mem_cons hline)
    rw [htext, h.lexToken, Axle.Linker.lexToken, skipBlank, if_neg (by decide), if_pos rfl,
      hopen line hline]

theorem NoToken.lexToken (h : NoToken text) : lexToken text = (none, []) := by
  cases h with
  | allBlank h => exact h.lexToken
  | nameAtEnd h hne hparts htext =>
    rename_i blank name
    rw [htext, h.lexToken]
    cases name with
    | nil => exact absurd rfl hne
    | cons c rest =>
      obtain ⟨hspace, hsingle, hhash⟩ := isPart_spec (hparts c List.mem_cons_self)
      have hdrop : (c :: rest).dropWhile isPart = [] := List.dropWhile_eq_nil_iff.mpr hparts
      rw [Axle.Linker.lexToken, skipBlank, if_neg (by rw [hspace]; decide), if_neg hhash]
      simp only [hsingle, hdrop]

/-! ### Peeking -/

/-- `peek_token` answers what the `next_token` after it answers, and does not move the cursor. -/
def Transparent (checks : Bool) (lexer : AssemblyLexer) : Prop :=
  ∃ token after, peekToken checks lexer = some (token, lexer) ∧
    nextToken lexer = some (token, after)

/-- The length of a text in bytes. -/
def utf8Length (text : List Char) : ℕ := (String.ofList text).utf8ByteSize

/-- Nothing is left; or a token of one character stands here; or an identifier, with as many blanks
before it as it has bytes beyond its characters. -/
inductive PeeksInPlace (text : List Char) : Prop
  | nothing (h : text = [])
  | single {c : Char} {token : Token} {rest : List Char} (h : StartsWithSingle text [] c token rest)
  | name {blank name : List Char} {next : Char} {rest : List Char}
      (h : StartsWithName text blank name next rest)
      (hbytes : blank.length + name.length = utf8Length name)

theorem utf8Length_append (a b : List Char) :
    utf8Length (a ++ b) = utf8Length a + utf8Length b := by
  rw [utf8Length, String.ofList_append, String.utf8ByteSize_append]
  rfl

section Peeking

variable (checks : Bool) {lexer : AssemblyLexer} {rest : List Char}

theorem nextToken_eq {maybeToken : Option Token} (h : lexToken lexer.rest = (maybeToken, rest)) :
    nextToken lexer = some (maybeToken, lexer.advanceTo rest) := by
  rw [nextToken, h]

/-- A lookahead that finds no token leaves the cursor at the end. -/
theorem peekToken_none (h : lexToken lexer.rest = (none, rest)) :
    peekToken checks lexer = some (none, lexer.advanceTo rest) := by
  rw [peekToken, bind_lexer (nextToken_eq h)]
  rfl

variable {token : Token} {read : List Char}

theorem peekToken_some (h : lexToken lexer.rest = (some token, rest)) :
    peekToken checks lexer =
      (rewind checks token.len (lexer.advanceTo rest)).map fun after => (some token, after.2) := by
  rw [peekToken, bind_lexer (nextToken_eq h)]
  show (rewind checks token.len (lexer.advanceTo rest)).bind _ = _
  cases rewind checks token.len (lexer.advanceTo rest) with
  | none => rfl
  | some after => rfl

/-- Rewinding from behind a token comes back to the cursor exactly if the characters read are as
many as the bytes of the token. -/
theorem rewind_back_iff {tokenLen : ℕ} (htext : lexer.rest = read ++ rest)
    (hlen : tokenLen < 2 ^ 64) :
    rewind checks tokenLen (lexer.advanceTo rest) = some ((), lexer) ↔ read.length = tokenLen := by
  have hcursor : lexer.advanceTo rest = { lexer with cursor := lexer.cursor + read.length } := by
    rw [AssemblyLexer.advanceTo, htext, List.length_append, Nat.add_sub_cancel]
  rw [hcursor, rewind]
  dsimp only
  constructor
  · intro h
    split at h
    · injection h with h
      have hc : lexer.cursor + read.length - tokenLen = lexer.cursor :=
        congrArg (fun after : Unit × AssemblyLexer => after.2.cursor) h
      omega
    · split at h
      · cases h
      · injection h with h
        have hc : lexer.cursor + read.length + 2 ^ 64 - tokenLen = lexer.cursor :=
          congrArg (fun after : Unit × AssemblyLexer => after.2.cursor) h
        omega
  · intro h
    rw [if_pos (by omega), show lexer.cursor + read.length - tokenLen = lexer.cursor by omega]

theorem transparent_none_iff (h : lexToken lexer.rest = (none, [])) :
    Transparent checks lexer ↔ lexer.rest = [] := by
  have hnext := nextToken_eq h
  have hpeek := peekToken_none checks h
  constructor
  · rintro ⟨token, after, hpeek', -⟩
    rw [hpeek] at hpeek'
    injection hpeek' with hpeek'
    have hc : lexer.cursor + (lexer.rest.length - 0) = lexer.cursor :=
      congrArg (fun after : Option Token × AssemblyLexer => after.2.cursor) hpeek'
    exact List.length_eq_zero_iff.mp (by omega)
  · intro hrest
    have hstay : lexer.advanceTo [] = lexer := by
      rw [AssemblyLexer.advanceTo, hrest]
      rfl
    rw [hstay] at hnext hpeek
    exact ⟨none, lexer, hpeek, hnext⟩

theorem transparent_some_iff (h : lexToken lexer.rest = (some token, rest))
    (htext : lexer.rest = read ++ rest) (hlen : token.len < 2 ^ 64) :
    Transparent checks lexer ↔ read.length = token.len := by
  have hnext := nextToken_eq h
  have hpeek := peekToken_some checks h
  rw [← rewind_back_iff checks htext hlen]
  constructor
  · rintro ⟨token', after, hpeek', -⟩
    rw [hpeek, Option.map_eq_some_iff] at hpeek'
    obtain ⟨⟨⟨⟩, back⟩, hrewind, hback⟩ := hpeek'
    injection hback with _ hback
    exact hback ▸ hrewind
  · intro hrewind
    rw [hrewind] at hpeek
    exact ⟨some token, _, hpeek, hnext⟩

/-- **Where the lookahead is transparent (proved).**  Wherever the lexer stands in a text of fewer
than 2^64 bytes: `peek_token` answers what comes next and leaves the cursor where it is exactly if
nothing is left, or a token stands right here with as many characters as bytes (or with as many
blanks before it as it has bytes beyond its characters). -/
theorem transparent_iff (hsize : utf8Length lexer.rawText < 2 ^ 64) :
    Transparent checks lexer ↔ PeeksInPlace lexer.rest := by
  have hname : ∀ {blank name next rest}, StartsWithName lexer.rest blank name next rest →
      (Transparent checks lexer ↔ blank.length + name.length = utf8Length name) := by
    intro blank name next rest h
    have hraw : lexer.rawText =
        lexer.rawText.take lexer.cursor ++ (blank ++ (name ++ next :: rest)) := by
      rw [← h.splits]
      exact (List.take_append_drop _ _).symm
    have hlen : utf8Length name < 2 ^ 64 := by
      rw [hraw, utf8Length_append, utf8Length_append, utf8Length_append] at hsize
      omega
    have htext : lexer.rest = (blank ++ name) ++ next :: rest := by
      rw [h.splits, List.append_assoc]
    rw [transparent_some_iff checks h.lexToken htext hlen, List.length_append]
    rfl
  have hsingle : ∀ {blank c token rest}, StartsWithSingle lexer.rest blank c token rest →
      (Transparent checks lexer ↔ blank = []) := by
    intro blank c token rest h
    have hlen : token.len = 1 := by
      have hc := h.single
      unfold singleCharacterToken at hc
      split at hc <;> cases hc <;> rfl
    have htext : lexer.rest = (blank ++ [c]) ++ rest := by
      rw [h.splits, List.append_assoc]
      rfl
    rw [transparent_some_iff checks h.lexToken htext (by rw [hlen]; norm_num), hlen,
      List.length_append, List.length_singleton, Nat.add_eq_right, List.length_eq_zero_iff]
  constructor
  · intro h
    rcases lexToken_cases lexer.rest with hnone | ⟨blank, c, token, rest, hstarts⟩ |
      ⟨blank, name, next, rest, hstarts⟩
    · exact .nothing ((transparent_none_iff checks hnone.lexToken).mp h)
    · have hblank := (hsingle hstarts).mp h
      subst hblank
      exact .single hstarts
    · exact .name hstarts ((hname hstarts).mp h)
  · intro h
    cases h with
    | nothing h => exact (transparent_none_iff checks (by rw [h]; rfl)).mpr h
    | single h => exact (hsingle h).mpr rfl
    | name h hbytes => exact (hname h).mpr hbytes

end Peeking

/-! ### A newline at the end -/

/-- All tokens, one `next_token` after the other. -/
def lexAll : ℕ → AssemblyLexer → List Token
  | 0, _ => []
  | rounds + 1, lexer =>
    match nextToken lexer with
    | some (some token, lexer') => token :: lexAll rounds lexer'
    | _ => []

/-- The tokens of a text, each of which takes a character at least. -/
def tokens (text : List Char) : List Token := lexAll (text.length + 1) (.new text)

/-- The last character is one of an identifier, and no comment is open. -/
def EndsInIdentifier (text : List Char) : Prop :=
  (∃ c ∈ text.getLast?, isPart c = true) ∧ '#' ∉ text.rtakeWhile (· != '\n')

theorem lexAll_none (rounds : ℕ) {lexer : AssemblyLexer} {rest : List Char}
    (h : lexToken lexer.rest = (none, rest)) : lexAll rounds lexer = [] := by
  cases rounds with
  | zero => rfl
  | succ rounds => rw [lexAll, nextToken_eq h]

theorem lexAll_some (rounds : ℕ) {lexer : AssemblyLexer} {token : Token} {rest : List Char}
    (h : lexToken lexer.rest = (some token, rest)) :
    lexAll (rounds + 1) lexer = token :: lexAll rounds (lexer.advanceTo rest) := by
  rw [lexAll, nextToken_eq h]

theorem lexToken_shorter (h : lexToken text = (some token, rest)) : rest.length < text.length := by
  rcases lexToken_cases text with hnone | ⟨blank, c, token', rest', hstarts⟩ |
    ⟨blank, name, next, rest', hstarts⟩
  · rw [hnone.lexToken] at h
    cases h
  · rw [hstarts.lexToken] at h
    cases h
    rw [hstarts.splits, List.length_append, List.length_cons]
    omega
  · rw [hstarts.lexToken] at h
    cases h
    have hname := List.length_pos_iff.mpr hstarts.nonempty
    rw [hstarts.splits, List.length_append, List.length_append]
    omega

/-- Where the lexer stands only matters for what is left, and there are rounds enough. -/
theorem lexAll_eq_tokens {rounds : ℕ} {lexer : AssemblyLexer} (h : lexer.rest.length < rounds) :
    lexAll rounds lexer = tokens lexer.rest := by
  have hall : ∀ (rounds rounds' : ℕ) (lexer lexer' : AssemblyLexer), lexer.rest = lexer'.rest →
      lexer.rest.length < rounds → lexer.rest.length < rounds' →
      lexAll rounds lexer = lexAll rounds' lexer' := by
    intro rounds
    induction rounds with
    | zero =>
      intro _ _ _ _ hlt
      exact absurd hlt (Nat.not_lt_zero _)
    | succ rounds ih =>
      intro rounds' lexer lexer' hrest hlt hlt'
      obtain ⟨rounds', rfl⟩ := Nat.exists_eq_succ_of_ne_zero (Nat.ne_zero_of_lt hlt')
      rcases hlex : lexToken lexer.rest with ⟨_ | token, rest⟩
      · rw [lexAll_none _ hlex, lexAll_none _ (hrest ▸ hlex)]
      · have hsuffix := lexToken_suffix lexer.rest
        have hshorter := lexToken_shorter hlex
        rw [hlex] at hsuffix
        have hafter : (lexer.advanceTo rest).rest = rest := AssemblyLexer.rest_advanceTo hsuffix
        rw [lexAll_some _ hlex, lexAll_some _ (hrest ▸ hlex)]
        refine congrArg (token :: ·) (ih rounds' _ _ ?_ ?_ ?_)
        · rw [hafter, AssemblyLexer.rest_advanceTo (hrest ▸ hsuffix)]
        · rw [hafter]
          omega
        · rw [hafter]
          omega
  exact hall _ _ lexer (.new lexer.rest) rfl h (Nat.lt_succ_self _)

theorem tokens_none (h : lexToken text = (none, rest)) : tokens text = [] :=
  @lexAll_none _ (.new text) _ h

theorem tokens_some (h : lexToken text = (some token, rest)) :
    tokens text = token :: tokens rest := by
  have hsuffix : rest <:+ (AssemblyLexer.new text).rest := by
    have hsuffix := lexToken_suffix text
    rwa [h] at hsuffix
  have hafter := AssemblyLexer.rest_advanceTo hsuffix
  rw [tokens, @lexAll_some _ (.new text) _ _ h, lexAll_eq_tokens, hafter]
  rw [hafter]
  exact lexToken_shorter h

/-! ### The last line -/

theorem hash_mem_lastLine_append (a b : List Char) :
    '#' ∈ (a ++ b).rtakeWhile (· != '\n') ↔
      '#' ∈ b.rtakeWhile (· != '\n') ∨ '\n' ∉ b ∧ '#' ∈ a.rtakeWhile (· != '\n') := by
  induction b using List.reverseRecOn with
  | nil => simp
  | append_singleton b c ih =>
    rw [← List.append_assoc]
    by_cases hc : c = '\n'
    · rw [List.rtakeWhile_concat_neg _ _ _ (by simp [hc]),
        List.rtakeWhile_concat_neg _ _ _ (by simp [hc])]
      simp [hc]
    · rw [List.rtakeWhile_concat_pos _ _ _ (by simpa using hc),
        List.rtakeWhile_concat_pos _ _ _ (by simpa using hc)]
      simp only [List.mem_append, ih, List.mem_singleton, not_or]
      tauto

/-- A comment that is whole is over before the last line, or on it nothing stands. -/
theorem Blank.lastLine (h : Blank blank) : '#' ∉ blank.rtakeWhile (· != '\n') := by
  induction h with
  | nil => simp
  | @space c rest hc _ ih =>
    rw [show c :: rest = [c] ++ rest from rfl, hash_mem_lastLine_append]
    rintro (h | ⟨-, h⟩)
    · exact ih h
    · have hmem := (List.rtakeWhile_suffix _ _).subset h
      rw [List.mem_singleton] at hmem
      rw [← hmem] at hc
      exact absurd hc (by decide)
  | @comment line rest hline _ ih =>
    rw [show '#' :: (line ++ '\n' :: rest) = ('#' :: line ++ ['\n']) ++ rest by simp,
      hash_mem_lastLine_append]
    rintro (h | ⟨-, h⟩)
    · exact ih h
    · rw [List.rtakeWhile_concat_neg _ _ _ (by simp)] at h
      exact absurd h List.not_mem_nil

theorem Blank.last {blank : List Char} (h : Blank blank) :
    ∀ c ∈ blank.getLast?, isPart c = false := by
  induction h with
  | nil => simp
  | @space c rest hc _ ih =>
    intro d hd
    cases rest with
    | nil =>
      obtain rfl : c = d := by simpa using hd
      rw [isPart, hc]
      rfl
    | cons e more => exact ih d (by simpa using hd)
  | @comment line rest _ _ ih =>
    intro d hd
    rw [show '#' :: (line ++ '\n' :: rest) = ('#' :: line ++ ['\n']) ++ rest by simp] at hd
    cases rest with
    | nil =>
      rw [List.append_nil, List.getLast?_concat] at hd
      cases hd
      rfl
    | cons e more =>
      rw [List.getLast?_append_of_ne_nil _ (List.cons_ne_nil e more)] at hd
      exact ih d hd

theorem endsInIdentifier_append {before rest : List Char}
    (hquiet : '#' ∉ before.rtakeWhile (· != '\n')) (hne : rest ≠ []) :
    EndsInIdentifier (before ++ rest) ↔ EndsInIdentifier rest := by
  rw [EndsInIdentifier, EndsInIdentifier, List.getLast?_append_of_ne_nil _ hne,
    hash_mem_lastLine_append]
  tauto

theorem hash_not_mem_of_parts (h : ∀ c ∈ name, isPart c = true) :
    '#' ∉ name.rtakeWhile (· != '\n') := by
  intro hmem
  have hpart : isPart '#' = true := h '#' ((List.rtakeWhile_suffix _ _).subset hmem)
  exact absurd hpart (by decide)

/-! ### The newline -/

theorem Blank.append {a b : List Char} (ha : Blank a) (hb : Blank b) : Blank (a ++ b) := by
  induction ha with
  | nil => exact hb
  | space hc _ ih => exact .space hc ih
  | comment hline _ ih =>
    rw [List.cons_append, List.append_assoc, List.cons_append]
    exact .comment hline ih

theorem Blank.newline : Blank ['\n'] := .space (by decide) .nil

theorem StartsWithSingle.newline (h : StartsWithSingle text blank c token rest) :
    StartsWithSingle (text ++ ['\n']) blank c token (rest ++ ['\n']) := by
  refine ⟨?_, h.blank, h.notHash, h.single⟩
  rw [h.splits, List.append_assoc, List.cons_append]

theorem StartsWithName.newline {next : Char} (h : StartsWithName text blank name next rest) :
    StartsWithName (text ++ ['\n']) blank name next (rest ++ ['\n']) := by
  refine ⟨?_, h.blank, h.nonempty, h.parts, h.ends⟩
  rw [h.splits, List.append_assoc, List.append_assoc, List.cons_append]

theorem AllBlank.newline (h : AllBlank text) : AllBlank (text ++ ['\n']) := by
  cases h with
  | whole h => exact .whole (h.append .newline)
  | openComment h hline htext =>
    rw [htext, List.append_assoc]
    exact .whole (h.append (.comment hline .nil))

theorem AllBlank.not_endsInIdentifier (h : AllBlank text) : ¬EndsInIdentifier text := by
  rintro ⟨⟨c, hc, hpart⟩, hhash⟩
  cases h with
  | whole h =>
    rw [h.last c hc] at hpart
    cases hpart
  | @openComment blank line h hline htext =>
    refine hhash ?_
    have hkeep : ∀ d ∈ '#' :: line, (d != '\n') = true := by
      intro d hd
      rw [bne_iff_ne]
      rintro rfl
      exact hline (by simpa using hd)
    rw [htext, hash_mem_lastLine_append, List.rtakeWhile_eq_self_iff.mpr hkeep]
    exact .inl List.mem_cons_self

/-- An identifier at the end is a token once a newline stands behind it. -/
theorem tokens_nameAtEnd (h : Blank blank) (hne : name ≠ [])
    (hparts : ∀ c ∈ name, isPart c = true) :
    tokens (blank ++ name ++ ['\n']) = [.identifier (String.ofList name)] := by
  have hstarts : StartsWithName (blank ++ name ++ ['\n']) blank name '\n' [] :=
    ⟨List.append_assoc _ _ _, h, hne, hparts, by decide⟩
  rw [tokens_some hstarts.lexToken, tokens_none (AllBlank.whole Blank.newline).lexToken]

theorem endsInIdentifier_nameAtEnd (h : Blank blank) (hne : name ≠ [])
    (hparts : ∀ c ∈ name, isPart c = true) : EndsInIdentifier (blank ++ name) := by
  rw [endsInIdentifier_append h.lastLine hne]
  refine ⟨⟨_, List.getLast?_eq_some_getLast hne, hparts _ (List.getLast_mem hne)⟩, ?_⟩
  exact hash_not_mem_of_parts hparts

theorem StartsWithSingle.endsInIdentifier_iff (h : StartsWithSingle text blank c token rest) :
    EndsInIdentifier text ↔ EndsInIdentifier rest := by
  have hc : isPart c = false := by rw [isPart, h.single, Option.isNone_some, Bool.and_false]
  have hsplits : text = (blank ++ [c]) ++ rest := by rw [h.splits, List.append_assoc]; rfl
  cases rest with
  | nil =>
    rw [hsplits, List.append_nil]
    refine iff_of_false ?_ ?_
    · rintro ⟨⟨d, hd, hpart⟩, -⟩
      rw [List.getLast?_concat] at hd
      cases hd
      rw [hc] at hpart
      cases hpart
    · rintro ⟨⟨d, hd, -⟩, -⟩
      cases hd
  | cons d rest =>
    rw [hsplits]
    refine endsInIdentifier_append ?_ (List.cons_ne_nil _ _)
    rw [hash_mem_lastLine_append]
    rintro (hhash | ⟨-, hhash⟩)
    · have hmem := (List.rtakeWhile_suffix _ _).subset hhash
      exact h.notHash (List.mem_singleton.mp hmem).symm
    · exact h.blank.lastLine hhash

/-- **When a newline at the end matters (proved).**  The tokens of a text are those of the text with
a newline behind it, except if the text ends in an identifier: which is then lost. -/
theorem tokens_newline_iff (text : List Char) :
    tokens (text ++ ['\n']) = tokens text ↔ ¬EndsInIdentifier text := by
  induction hn : text.length using Nat.strong_induction_on generalizing text with
  | _ n ih =>
    subst hn
    rcases lexToken_cases text with hnone | ⟨blank, c, token, rest, hstarts⟩ |
      ⟨blank, name, next, rest, hstarts⟩
    · rw [tokens_none hnone.lexToken]
      cases hnone with
      | allBlank h =>
        rw [tokens_none h.newline.lexToken]
        exact iff_of_true rfl h.not_endsInIdentifier
      | nameAtEnd h hne hparts htext =>
        rw [htext, tokens_nameAtEnd h hne hparts]
        exact iff_of_false (List.cons_ne_nil _ _)
          (not_not_intro (endsInIdentifier_nameAtEnd h hne hparts))
    · have hshorter := lexToken_shorter hstarts.lexToken
      rw [tokens_some hstarts.newline.lexToken, tokens_some hstarts.lexToken, List.cons_inj_right,
        ih rest.length hshorter rest rfl, hstarts.endsInIdentifier_iff]
    · have hshorter := lexToken_shorter hstarts.lexToken
      rw [tokens_some hstarts.newline.lexToken, tokens_some hstarts.lexToken, List.cons_inj_right,
        ← List.cons_append, ih _ hshorter _ rfl, not_iff_not, hstarts.splits,
        endsInIdentifier_append hstarts.blank.lastLine (by simp),
        endsInIdentifier_append (hash_not_mem_of_parts hstarts.parts) (List.cons_ne_nil _ _)]

/-! ### Lexing a text -/

section Reached

variable (checks : Bool)

/-- Where the lexer can stand in a text. -/
inductive Reached (text : List Char) : AssemblyLexer → Prop
  | start : Reached text (.new text)
  | next {lexer lexer' : AssemblyLexer} {token : Option Token} :
      Reached text lexer → nextToken lexer = some (token, lexer') → Reached text lexer'
  | peek {lexer lexer' : AssemblyLexer} {token : Option Token} :
      Reached text lexer → peekToken checks lexer = some (token, lexer') → Reached text lexer'

variable {lexer lexer' : AssemblyLexer} {token : Option Token}

theorem nextToken_rawText (h : nextToken lexer = some (token, lexer')) :
    lexer'.rawText = lexer.rawText := by
  cases h
  rfl

theorem peekToken_rawText (h : peekToken checks lexer = some (token, lexer')) :
    lexer'.rawText = lexer.rawText := by
  rcases hlex : lexToken lexer.rest with ⟨_ | token, rest⟩
  · rw [peekToken_none checks hlex] at h
    cases h
    rfl
  · rw [peekToken_some checks hlex, Option.map_eq_some_iff] at h
    obtain ⟨after, hrewind, hafter⟩ := h
    cases hafter
    rw [rewind] at hrewind
    split at hrewind
    · cases hrewind
      rfl
    · split at hrewind
      · cases hrewind
      · cases hrewind
        rfl

theorem Reached.rawText {text : List Char} (h : Reached checks text lexer) :
    lexer.rawText = text := by
  induction h with
  | start => rfl
  | next _ hnext ih => exact (nextToken_rawText hnext).trans ih
  | peek _ hpeek ih => exact (peekToken_rawText checks hpeek).trans ih

/-- **The lookahead over a whole text (proved).**  At every place that the lexer reaches in a text
(of fewer than 2^64 bytes), whether or not the build checks for overflow, the lookahead is
transparent exactly if nothing is left or the next token stands right there, as long in bytes as in
characters; and the text has the tokens that it has with a newline behind it exactly if it does not
end in an identifier. -/
theorem lookahead_iff (text : List Char) (hsize : utf8Length text < 2 ^ 64) :
    (∀ lexer, Reached checks text lexer →
      (Transparent checks lexer ↔ PeeksInPlace lexer.rest)) ∧
    (tokens (text ++ ['\n']) = tokens text ↔ ¬EndsInIdentifier text) := by
  refine ⟨fun lexer hreached => ?_, tokens_newline_iff text⟩
  exact transparent_iff checks (by rwa [hreached.rawText])

theorem lookahead_iff_mov :
    utf8Length "mov %rax, %é".toList < 2 ^ 64 ∧
      ((∀ lexer, Reached true "mov %rax, %é".toList lexer →
        (Transparent true lexer ↔ PeeksInPlace lexer.rest)) ∧
      (tokens ("mov %rax, %é".toList ++ ['\n']) = tokens "mov %rax, %é".toList ↔
        ¬EndsInIdentifier "mov %rax, %é".toList)) :=
  ⟨by decide +kernel, lookahead_iff true _ (by decide +kernel)⟩

/-- Peeking at `a` in ` a,` takes the blank; peeking at `é` in `é,` panics where the build checks
for overflow; and the last token of `foo` is never delivered. -/
theorem lookahead_moves :
    ¬Transparent false (.new " a,".toList) ∧ ¬Transparent true (.new "é,".toList) ∧
      tokens "foo".toList = [] ∧ tokens ("foo".toList ++ ['\n']) = [.identifier "foo"] := by
  have hmoved : (peekToken false (.new " a,".toList)).map (fun after => after.2.cursor) =
      some 1 := by decide +kernel
  have hpanic : (peekToken true (.new "é,".toList)).map Prod.fst = none := by decide +kernel
  refine ⟨?_, ?_, by decide +kernel, by decide +kernel⟩
  · rintro ⟨token, after, hpeek, -⟩
    rw [hpeek] at hmoved
    cases hmoved
  · rintro ⟨token, after, hpeek, -⟩
    rw [hpeek] at hpanic
    cases hpanic

end Reached

end Axle.Linker
