import Axle.Netclient.HtmlLexer

/-!
# The HTML parser and a hostile server

`html_parse_from_socket` reads the status line, the headers and a document from a TCP stream.  The
document becomes a tree of nodes; the tags that are still open stand on a stack.  Nothing in the
stream can be trusted, and most of what the parser takes for granted is tested nowhere: that a
token fits into what is left of its buffer, that the byte to give back is in the current chunk,
that the stack of open tags is not empty.

* `htmlParseFromSocket` — the parser, with every access to a buffer and to a node in its trace;
* `documentLoop_contract`, `headersLoop_contract` — **PROVED**: the loops end on every stream;
* `respond_safe_iff` — **PROVED**: on every stream, however it is cut, the parser ends, and it stays
  inside of its buffers and objects if and only if all its calls are safe.
-/

namespace Axle.Netclient.Html

open Axle.Lib.Traced

/-! ### Characters and numbers -/

def isspace (ch : Byte) : Bool := ch = 32 || (9 ≤ ch && ch ≤ 13)

def strIsWhitespace (s : List Byte) : Bool := s.all isspace

/-- `squeezespaces`, with whether the last character was a space. -/
def squeezespaces (separator : Byte) : Bool → List Byte → List Byte
  | _, [] => []
  | spacing, c :: row =>
    if isspace c then
      if spacing then squeezespaces separator true row
      else separator :: squeezespaces separator true row
    else c :: squeezespaces separator false row

def isdigit (ch : Byte) : Bool := 48 ≤ ch && ch ≤ 57

def digitsValue (digits : List Byte) : ℕ :=
  digits.foldl (fun value d => 10 * value + (d.toNat - 48)) 0

/-- `strtol` in base 10, for a `long` of 64 bits. -/
def strtol (text : List Byte) : ℤ :=
  match text.dropWhile isspace with
  | [] => 0
  | c :: rest =>
    if c = 45 then -(min (digitsValue (rest.takeWhile isdigit)) (2 ^ 63) : ℕ)
    else if c = 43 then (min (digitsValue (rest.takeWhile isdigit)) (2 ^ 63 - 1) : ℕ)
    else (min (digitsValue ((c :: rest).takeWhile isdigit)) (2 ^ 63 - 1) : ℕ)

/-! ### The tree -/

def OpenNode.close (n : OpenNode) : DomNode := .mk n.type n.name n.attrs n.children

def OpenNode.addChild (n : OpenNode) (child : DomNode) : OpenNode :=
  { n with children := n.children ++ [child] }

/-- `html_dom_node_add_child` on `curr_deepest_tag`. -/
def Lexer.addChild (s : Lexer) (child : DomNode) : Lexer :=
  match s.path with
  | [] => s
  | n :: up => { s with path := n.addChild child :: up }

def Lexer.pushTag (s : Lexer) (tag : HtmlTag) : Lexer :=
  { s with
    tagStack := tag :: s.tagStack
    path := ⟨.htmlTag, tag.name, tag.attrs, []⟩ :: s.path }

/-- Pop the stack, and go to the parent of `curr_deepest_tag`. -/
def Lexer.popTag (s : Lexer) : Lexer :=
  { s with
    tagStack := s.tagStack.tail
    path :=
      match s.path with
      | n :: up :: above => up.addChild n.close :: above
      | _ => [] }

/-- The node at the end of the path, with all nodes closed. -/
def rootNode : List OpenNode → Option DomNode
  | [] => none
  | n :: up => some (up.foldl (fun child parent => parent.addChild child.close) n).close

def whitespaceCollapseName (type : DomNodeType) (name : List Byte) : List Byte :=
  if type = .text then
    if strIsWhitespace name then ascii " " else squeezespaces 32 false name
  else name

mutual

def whitespaceCollapse : DomNode → DomNode
  | .mk type name attrs children =>
    .mk type (whitespaceCollapseName type name) attrs (whitespaceCollapseAll children)

def whitespaceCollapseAll : List DomNode → List DomNode
  | [] => []
  | child :: children => whitespaceCollapse child :: whitespaceCollapseAll children

end

/-! ### Tags -/

def tagsWithoutClosingTag : List (List Byte) :=
  ["area", "base", "br", "col", "embed", "hr", "img", "input", "meta", "link", "param", "source",
    "track", "wbr", "?xml", "!DOCTYPE", "!doctype"].map ascii

/-- A tag that is no comment. -/
def namedTag (isCloseTag : Bool) (name : List Byte) (attrs : Option (List Byte)) : HtmlTag where
  name := cString name
  attrs := attrs.map cString
  isCloseTag
  requiresCloseTag := !decide (cString name ∈ tagsWithoutClosingTag)
  isComment := false

/-- The slash of a closing tag. -/
def closeMark : Parse Bool := do
  let ch ← peekchar
  if ch = 47 then
    let _ ← getchar
    pure true
  else pure false

def parseComment (isCloseTag : Bool) : Parse (Option HtmlTag) := do
  let _ ← matchText (ascii "!--")
  let name ← getTokenSequenceDelimitedBy (ascii "-->") false
  let _ ← matchText (ascii "-->")
  pure (some ⟨cString name, none, isCloseTag, false, true⟩)

def parseNamedTag (isCloseTag : Bool) : Parse (Option HtmlTag) := do
  let name ← getTokenSequenceDelimitedByAny (ascii " >\t\n")
  let ch ← peekchar
  if isspace ch then
    let _ ← getchar
    let attrs ← getTokenSequenceDelimitedBy (ascii ">") true
    pure (some (namedTag isCloseTag name (some attrs)))
  else
    let closed ← matchText (ascii ">")
    if closed then pure (some (namedTag isCloseTag name none)) else pure none

/-- `_parse_html_tag` behind the `<`. -/
def parseOpenedTag : Parse (Option HtmlTag) := do
  let isCloseTag ← closeMark
  let comment ← checkStream (ascii "!--")
  if comment then parseComment isCloseTag else parseNamedTag isCloseTag

def parseHtmlTag : Parse (Option HtmlTag) := do
  let opened ← matchText (ascii "<")
  if opened then parseOpenedTag
  else
    -- the message that goes with the failure prints the next character
    let _ ← peekchar
    pure none

/-- Dereference `curr_deepest_tag`. -/
def derefDeepestTag : Parse Unit := do
  let s ← Program.read
  access (.deref (!s.path.isEmpty))

def openTag (tag : HtmlTag) : Parse Unit := do
  derefDeepestTag
  if tag.requiresCloseTag then Program.modify fun s => s.pushTag tag
  else Program.modify fun s => s.addChild (.mk .htmlTag tag.name tag.attrs [])

def closeTag : Parse Unit := do
  call .popTag
  let s ← Program.read
  access (.deref (!s.tagStack.isEmpty))
  derefDeepestTag
  Program.modify Lexer.popTag

def processHtmlTag : Parse Unit := do
  call .processTag
  let tag ← parseHtmlTag
  access (.deref tag.isSome)
  match tag with
  | none => pure ()
  | some tag => if tag.isCloseTag then closeTag else openTag tag

/-! ### Documents -/

def addText (content : List Byte) : Parse Unit :=
  if content.length > 0 then do
    derefDeepestTag
    Program.modify fun s => s.addChild (.mk .text (cString content) none [])
  else pure ()

/-- Print the character behind `read_off`. -/
def lastChar : Parse Unit := do
  call .lastChar
  let s ← Program.read
  let _ ← readChunk (s.readOff + 1)
  pure ()

/-- The loop of `_parse_html_document`, with the rounds that are left. -/
def documentLoop (htmlEndOffset : ℕ) : ℕ → Parse Unit
  | 0 => Program.stop .outOfFuel
  | fuel + 1 => do
    processHtmlTag
    let s ← Program.read
    if (s.readOff + s.previouslyReadByteCount + 2) % 2 ^ 32 ≥ htmlEndOffset then lastChar
    else
      let content ← getTokenSequenceDelimitedBy (ascii "<") false
      addText content
      documentLoop htmlEndOffset fuel

def parseHtmlDocument (fuel htmlEndOffset : ℕ) : Parse (Option DomNode) := do
  Program.modify fun s => { s with path := [⟨.document, [], none, []⟩] }
  documentLoop htmlEndOffset fuel
  let s ← Program.read
  pure ((rootNode s.path).map whitespaceCollapse)

/-! ### Responses -/

def noteHeader (key value : List Byte) : Parse Unit :=
  if cString key = ascii "Content-Length" then
    Program.modify fun s =>
      { s with contentLength := (strtol (cString value) % 2 ^ 32).toNat }
  else pure ()

/-- The loop over the headers, with the rounds that are left. -/
def headersLoop : ℕ → Parse Unit
  | 0 => Program.stop .outOfFuel
  | fuel + 1 => do
    let newline ← checkNewline
    if newline then pure ()
    else
      let key ← getTokenSequenceDelimitedBy (ascii ": ") true
      let value ← getTokenSequenceDelimitedBy (ascii "\n") true
      noteHeader key value
      headersLoop fuel

def parseBody (fuel : ℕ) : Parse (Option DomNode) := do
  let s ← Program.read
  if s.contentLength = 0 then pure none
  else
    call .bodyStart
    parseHtmlDocument fuel ((s.readOff + s.contentLength) % 2 ^ 32)

def htmlParseFromSocket (fuel : ℕ) : Parse (Option DomNode) := do
  let _ ← getTokenSequenceDelimitedBy (ascii " ") true
  let _ ← getTokenSequenceDelimitedBy (ascii " ") true
  let _ ← getTokenSequenceDelimitedBy (ascii "\n") true
  headersLoop fuel
  let ended ← matchNewline
  if ended then parseBody fuel else pure none

/-- `_lexer_create`, on a connection that will send these chunks. -/
def lexerCreate (chunks : List Chunk) : Lexer where
  coming := chunks
  currentChunk := List.replicate 2048 0
  currentChunkSize := 0
  readOff := 0
  previouslyReadByteCount := 0
  contentLength := 0
  tagStack := []
  path := []

/-- The run of the parser on what a server sends. -/
def respond (chunks : List Chunk) : Result Entry Stop Lexer (Option DomNode) :=
  htmlParseFromSocket ((chunks.map Chunk.bytes).flatten.length + 1) (lexerCreate chunks)

/-! ### Safe calls -/

/-- A sequence of tokens fits into its buffer, and the bytes to give back lie in the chunk in which
the sequence ends. -/
structure SequenceSafe (ends : List Byte → Bool) (rewound : ℕ) (s : Lexer) : Prop where
  fits : ∀ stop, ¬SequenceEnds ends [] s.unread (.overflow stop)
  stays : ∀ toks, SequenceEnds ends [] s.unread (.found toks) →
    rewound ≤ (s.afterTokens toks).readOff

/-- What the stream and the state must be like before a call. -/
def Call.Safe (s : Lexer) : Call → Prop
  | .sequence delim consumeDelim =>
    SequenceSafe (fun buf => strEndsWith buf delim) (if consumeDelim then 0 else delim.length) s
  | .sequenceAny delims => SequenceSafe (fun buf => delims.any fun d => strEndsWith buf [d]) 1 s
  | .checkStream expected =>
    s.readOff = s.currentChunkSize → ∀ c coming, s.coming = c :: coming →
      ¬(c.bytes <+: expected ∧ c.bytes ≠ expected)
  | .bodyStart => True
  | .processTag => ∀ tok rest, nextToken s.unread = some (tok, rest) → rest ≠ [] →
    tok.head? = some 60
  | .popTag => s.tagStack ≠ []
  | .lastChar => s.readOff + 1 < s.currentChunkSize

def Entry.Safe : Entry → Prop
  | .access _ => True
  | .call c s => c.Safe s

/-- In a run from `s`, all accesses are good if and only if all calls are safe; it does not run out
of rounds; and where it ends, `Q` holds. -/
abbrev Contract {α : Type} (s : Lexer) (m : Parse α) (Q : α → Lexer → Prop) : Prop :=
  Spec Entry.Good Entry.Safe (fun why => why ≠ .outOfFuel) s m Q

section Contracts

variable {α : Type} {s : Lexer}

variable {Q : α → Lexer → Prop} {m : Parse α} {o : Outcome Stop Lexer α} {c : Call}
  {ends : List Byte → Bool} {bytes delim expected : List Byte} {t : Lexer} {rewound : ℕ}

theorem Contract.of_ends (h : Ends Fine s m o) (hends : o ≠ .stop .outOfFuel)
    (hpost : ∀ a t, o = .ok a t → Q a t) : Contract s m Q := by
  refine h.spec (fun e he => ?_) (fun why hwhy heq => hends (by rw [hwhy, heq])) hpost
  cases e with
  | access a => exact ⟨he, trivial⟩
  | call c s => exact he.elim

theorem Contract.of_call (hsafe : c.Safe s → ∀ e ∈ (m s).trace, Fine e)
    (hbad : ¬c.Safe s → ∃ e ∈ (m s).trace, ¬e.Good) (hends : (m s).outcome ≠ .stop .outOfFuel)
    (hpost : ∀ a t, (m s).outcome = .ok a t → Q a t) : Contract s (call c >>= fun _ => m) Q := by
  have happly : (call c >>= fun _ => m) s = ⟨.call c s :: (m s).trace, (m s).outcome⟩ := rfl
  by_cases h : c.Safe s
  · refine ⟨?_, ?_, ?_⟩
    · refine iff_of_true (fun e he => ?_) fun e he => ?_
      · rcases List.mem_cons.mp he with rfl | he
        · exact trivial
        · have hfine := hsafe h e he
          cases e with
          | access a => exact hfine
          | call c s => exact hfine.elim
      · rcases List.mem_cons.mp he with rfl | he
        · exact h
        · have hfine := hsafe h e he
          cases e with
          | access a => exact trivial
          | call c s => exact hfine.elim
    · rw [happly]
      exact fun why hwhy heq => hends (by rw [hwhy, heq])
    · exact hpost
  · obtain ⟨e, he, hnot⟩ := hbad h
    refine Spec.of_bad ?_ ?_ ?_ ?_
    · exact ⟨e, List.mem_cons_of_mem _ he, hnot⟩
    · exact ⟨.call c s, List.mem_cons_self, h⟩
    · rw [happly]
      exact fun why hwhy heq => hends (by rw [hwhy, heq])
    · exact hpost

theorem Contract.call_ends (hsafe : c.Safe s) (h : Ends Fine s m o) (hends : o ≠ .stop .outOfFuel)
    (hpost : ∀ a t, o = .ok a t → Q a t) : Contract s (call c >>= fun _ => m) Q := by
  have houtcome := h.outcome_eq
  subst houtcome
  exact Contract.of_call (fun _ => h.entries) (fun hnot => absurd hsafe hnot) hends hpost

theorem Contract.call_bad {why : Stop} (hnot : ¬c.Safe s) (hstop : (m s).outcome = .stop why)
    (hwhy : why ≠ .outOfFuel) (hbad : ∃ e ∈ (m s).trace, ¬e.Good) :
    Contract s (call c >>= fun _ => m) Q := by
  refine Contract.of_call (fun h => absurd h hnot) (fun _ => hbad) (fun heq => ?_) fun a t heq => ?_
  · rw [hstop] at heq
    cases heq
    exact hwhy rfl
  · rw [hstop] at heq
    cases heq

/-- **A reader of sequences is safe exactly where its call is (proved).** -/
theorem readSequence_contract {delimLen rewound : ℕ} {Q : List Byte → Lexer → Prop} (hs : s.Valid)
    (hdelim : 0 < delimLen) (hc : c.Safe s ↔ SequenceSafe ends rewound s)
    (hQ : ∀ toks out, SequenceEnds ends [] s.unread (.found toks) →
      rewound ≤ (s.afterTokens toks).readOff → Q out ((s.afterTokens toks).rewound rewound)) :
    Contract s (call c >>= fun _ => readSequence ends delimLen rewound) Q := by
  have he := sequenceEnd_spec ends 2048 [] s.unread (by decide)
  generalize sequenceEnd ends 2048 [] s.unread = e at he
  have honly : ∀ {e' : SequenceEnd}, SequenceEnds ends [] s.unread e' → e = e' := fun h' =>
    he.unique h'
  cases e with
  | found toks =>
    by_cases hoff : rewound ≤ (s.afterTokens toks).readOff
    · refine Contract.call_ends (hc.mpr ⟨fun stop hstop => ?_, fun toks' htoks => ?_⟩)
        (readSequence_found hs he hdelim hoff) (fun heq => ?_) fun out t heq => ?_
      · cases honly hstop
      · cases honly htoks
        exact hoff
      · cases heq
      · cases heq
        exact hQ toks _ he hoff
    · obtain ⟨houtcome, hbad⟩ := readSequence_found_bad hs he hdelim hoff
      refine Contract.call_bad (fun h => hoff ((hc.mp h).stays toks he)) houtcome ?_ hbad
      exact fun heq => by cases heq
  | full toks =>
    refine Contract.call_ends (hc.mpr ⟨fun stop hstop => ?_, fun toks' htoks => ?_⟩)
      (readSequence_full delimLen rewound hs he) (fun heq => ?_) fun out t heq => ?_
    · cases honly hstop
    · cases honly htoks
    · cases heq
    · cases heq
  | overflow stop =>
    obtain ⟨houtcome, hbad⟩ := readSequence_overflow delimLen rewound hs he
    refine Contract.call_bad (fun h => (hc.mp h).fits stop he) houtcome ?_ hbad
    exact fun heq => by cases heq
  | noData =>
    refine Contract.call_ends (hc.mpr ⟨fun stop hstop => ?_, fun toks' htoks => ?_⟩)
      (readSequence_noData delimLen rewound hs he) (fun heq => ?_) fun out t heq => ?_
    · cases honly hstop
    · cases honly htoks
    · cases heq
    · cases heq

/-- What is behind the state `s`: it holds the rest of the stream of `s`, and the same tags. -/
structure Lexer.Later (s t : Lexer) : Prop where
  valid : t.Valid
  length_le : t.unread.length ≤ s.unread.length
  tagStack_eq : t.tagStack = s.tagStack
  path_eq : t.path = s.path

theorem Lexer.Later.trans {t u : Lexer} (h : s.Later t) (h' : t.Later u) : s.Later u :=
  ⟨h'.valid, h'.length_le.trans h.length_le, h'.tagStack_eq.trans h.tagStack_eq,
    h'.path_eq.trans h.path_eq⟩

theorem Lexer.Reads.length_eq (h : s.Reads bytes t) :
    s.unread.length = bytes.length + t.unread.length := by
  rw [h.unread_eq, List.length_append]

theorem Lexer.Reads.later (h : s.Reads bytes t) : s.Later t :=
  ⟨h.valid, by rw [h.length_eq]; omega, h.tagStack_eq, h.path_eq⟩

/-- The tokens of a sequence, without the bytes that are given back. -/
theorem found_reads {toks : List (List Byte)} (hs : s.Valid)
    (h : SequenceEnds ends [] s.unread (.found toks)) (hlen : rewound ≤ toks.flatten.length)
    (hoff : rewound ≤ (s.afterTokens toks).readOff) :
    s.Reads (toks.flatten.take (toks.flatten.length - rewound))
      ((s.afterTokens toks).rewound rewound) := by
  obtain ⟨hreads, -⟩ := sequenceLoop_spec h 2048 hs rfl (by decide)
  rw [← List.take_append_drop (toks.flatten.length - rewound) toks.flatten] at hreads
  have hback : (toks.flatten.drop (toks.flatten.length - rewound)).length = rewound := by
    rw [List.length_drop]
    omega
  have hrewind := hreads.rewind (by rw [hback]; exact hoff)
  rwa [hback] at hrewind

theorem strEndsWith_length {buf delim : List Byte} (h : strEndsWith buf delim = true) :
    delim.length ≤ buf.length := by
  rw [strEndsWith, Bool.and_eq_true, decide_eq_true_eq] at h
  exact h.1

/-- **The contract of `_get_token_sequence_delimited_by` (proved).** -/
theorem sequence_contract (consumeDelim : Bool) (hs : s.Valid) (hdelim : 0 < delim.length) :
    Contract s (getTokenSequenceDelimitedBy delim consumeDelim) fun _ t =>
      s.Later t ∧ (consumeDelim = true → t.unread.length < s.unread.length) := by
  refine readSequence_contract hs hdelim Iff.rfl fun toks out h hoff => ?_
  obtain ⟨htrue, -, hpos⟩ := h.of_found rfl
  rw [List.nil_append] at htrue
  have hlen := strEndsWith_length htrue
  rw [length_flatMap_copied] at hlen
  have hreads := found_reads hs h (by split <;> omega) hoff
  refine ⟨hreads.later, fun hconsume => ?_⟩
  subst hconsume
  have hsum := hreads.length_eq
  rw [if_pos rfl, Nat.sub_zero, List.take_length] at hsum
  rw [if_pos rfl]
  omega

theorem forall₂_flatMap_copied (toks : List (List Byte)) :
    List.Forall₂ (fun x y => x = y ∨ x = 0) (toks.flatMap copied) toks.flatten := by
  induction toks with
  | nil => exact List.Forall₂.nil
  | cons tok toks ih =>
    exact List.rel_append (forall₂_copied tok) ih

/-- **The contract of `_get_token_sequence_delimited_by_any` (proved).**  The delimiter is the next
character. -/
theorem sequenceAny_contract {delims : List Byte} (hs : s.Valid) (hzero : 0 ∉ delims) :
    Contract s (getTokenSequenceDelimitedByAny delims) fun _ t =>
      s.Later t ∧ ∃ d rest, d ∈ delims ∧ t.unread = d :: rest := by
  refine readSequence_contract hs (by decide) Iff.rfl fun toks out h hoff => ?_
  obtain ⟨htrue, -, hpos⟩ := h.of_found rfl
  rw [List.nil_append, List.any_eq_true] at htrue
  obtain ⟨d, hd, htrue⟩ := htrue
  rw [strEndsWith, Bool.and_eq_true, decide_eq_true_eq, decide_eq_true_eq,
    length_flatMap_copied] at htrue
  have hlast := List.forall₂_drop (toks.flatten.length - [d].length) (forall₂_flatMap_copied toks)
  rw [htrue.2] at hlast
  -- the last byte of the buffer is not zero, so it is the one of the stream
  have hback : toks.flatten.drop (toks.flatten.length - [d].length) = [d] := by
    generalize toks.flatten.drop (toks.flatten.length - [d].length) = back at hlast
    cases hlast with
    | cons hb hnil =>
      cases hnil
      rcases hb with rfl | rfl
      · rfl
      · exact absurd hd hzero
  have hreads := found_reads hs h hpos hoff
  obtain ⟨hall, -⟩ := sequenceLoop_spec h 2048 hs rfl (by decide)
  refine ⟨hreads.later, d, (s.afterTokens toks).unread, hd, ?_⟩
  have hsplit : s.unread = toks.flatten.take (toks.flatten.length - 1) ++
      ([d] ++ (s.afterTokens toks).unread) := by
    rw [← hback, ← List.append_assoc, List.length_singleton, List.take_append_drop]
    exact hall.unread_eq
  exact List.append_cancel_left (hreads.unread_eq.symm.trans hsplit)

theorem fetched_chunkFrom (s : Lexer) (c : Chunk) (coming : List Chunk) :
    (s.fetched c coming).chunkFrom 0 = c.bytes := List.take_left' rfl

/-- **The contract of `_check_stream` (proved).**  Only a chunk that ends inside of the text leads
the comparison behind the chunk. -/
theorem checkStream_contract (hs : s.Valid) (hpos : 0 < expected.length) :
    Contract s (checkStream expected) fun _ t => s.Later t := by
  have hstay : s.Later s := (Lexer.Reads.refl hs).later
  have hoff := hs.off_le
  by_cases hend : s.readOff = s.currentChunkSize
  · cases hcoming : s.coming with
    | nil =>
      refine Contract.call_ends (fun _ c coming hc => ?_) (lookAhead_noData hpos hend hcoming)
        (fun heq => ?_) fun b t heq => ?_
      · rw [hcoming] at hc
        cases hc
      · cases heq
      · cases heq
    | cons c coming =>
      have hround := lookAhead_fetch hpos hend hcoming
      have hreads := Lexer.fetched_reads hs (by omega) hcoming
      have hentries := strncmpChunk_entries hreads.valid.size_le expected 0 (Nat.zero_le _)
      rw [fetched_chunkFrom] at hentries
      have houtcome := hround.outcome_eq.trans (strncmpChunk_outcome _ expected 0)
      refine Contract.of_call (fun h => ?_) (fun h => ?_) ?_ fun b t heq => ?_
      · refine (hround.ends ⟨rfl, hentries.1 (h hend c coming hcoming)⟩).entries
      · have hproper : c.bytes <+: expected ∧ c.bytes ≠ expected := by
          refine not_not.mp fun hnot => h fun _ c' coming' hc => ?_
          rw [hcoming] at hc
          cases hc
          exact hnot
        obtain ⟨e, he, hnot⟩ := hentries.2 hproper
        exact ⟨e, hround.mem_trace he, hnot⟩
      · rw [houtcome]
        exact fun heq => by cases heq
      · rw [houtcome] at heq
        cases heq
        exact hreads.later
  · have hsafe : Call.Safe s (.checkStream expected) := fun hend' => absurd hend' hend
    by_cases hlen : s.readOff + expected.length ≤ s.currentChunkSize
    · refine Contract.call_ends hsafe (lookAhead_inside hs hlen) (fun heq => ?_) fun b t heq => ?_
      · cases heq
      · cases heq
        exact hstay
    · refine Contract.call_ends hsafe (lookAhead_short hs (by omega) (by omega)) ?_ ?_
      · split
        · exact fun heq => by cases heq
        · exact fun heq => by cases heq
      · intro b t heq
        split at heq
        · cases heq
        · cases heq
          exact hstay

/-- **The contract of `_match` (proved).** -/
theorem matchText_contract (hs : s.Valid) (hpos : 0 < expected.length)
    (hexpected : expected.length ≤ 128) :
    Contract s (matchText expected) fun _ t => s.Later t ∧ t.unread.length < s.unread.length := by
  rcases matchText_ends hpos hexpected hs with hstop | ⟨ok, bytes, t, hends, hreads, hlen⟩
  · exact Contract.of_ends hstop (fun heq => by cases heq) fun b t heq => by cases heq
  · refine Contract.of_ends hends (fun heq => by cases heq) fun b u heq => ?_
    cases heq
    have hsum := hreads.length_eq
    exact ⟨hreads.later, by omega⟩

theorem peekchar_contract (hs : s.Valid) : Contract s peekchar fun _ t => s.Later t := by
  cases hmore : s.unread with
  | nil =>
    exact Contract.of_ends (peekchar_ends_stop hs hmore) (fun heq => by cases heq)
      fun b t heq => by cases heq
  | cons b rest =>
    refine Contract.of_ends (peekchar_ends hs hmore) (fun heq => by cases heq) fun b t heq => ?_
    cases heq
    exact (Lexer.settle_reads hs).later

theorem getchar_contract (hs : s.Valid) : Contract s getchar fun _ t => s.Later t := by
  cases hmore : s.unread with
  | nil =>
    exact Contract.of_ends (getchar_ends_stop hs hmore) (fun heq => by cases heq)
      fun b t heq => by cases heq
  | cons b rest =>
    refine Contract.of_ends (getchar_ends hs hmore) (fun heq => by cases heq) fun b t heq => ?_
    cases heq
    exact (Lexer.pop_reads hs hmore).later

end Contracts

/-! ### Tags -/

section Tags

variable {s : Lexer}

theorem closeMark_contract (hs : s.Valid) : Contract s closeMark fun _ t => s.Later t := by
  refine Spec.bind (peekchar_contract hs) fun ch t ht => ?_
  split
  · exact Spec.bind (getchar_contract ht.valid) fun _ u hu => Spec.pure (ht.trans hu)
  · exact Spec.pure ht

theorem parseComment_contract (hs : s.Valid) (isCloseTag : Bool) :
    Contract s (parseComment isCloseTag) fun tag t => s.Later t ∧ tag.isSome = true := by
  refine Spec.bind (matchText_contract hs (by decide) (by decide)) fun _ t ht => ?_
  refine Spec.bind (sequence_contract false ht.1.valid (by decide)) fun name u hu => ?_
  refine Spec.bind (matchText_contract hu.1.valid (by decide) (by decide)) fun _ v hv => ?_
  exact Spec.pure ⟨(ht.1.trans hu.1).trans hv.1, rfl⟩

/-- **A tag with a name is always read to its end (proved).**  A name that no space follows is
followed by `>`. -/
theorem parseNamedTag_contract (hs : s.Valid) (isCloseTag : Bool) :
    Contract s (parseNamedTag isCloseTag) fun tag t => s.Later t ∧ tag.isSome = true := by
  refine Spec.bind (sequenceAny_contract hs (by decide)) fun name t ht => ?_
  obtain ⟨ht, d, rest, hd, hmore⟩ := ht
  have hsettle := Lexer.settle_reads ht.valid
  have hmore' : t.settle.unread = d :: rest := by
    rw [← hmore, hsettle.unread_eq, List.nil_append]
  have hpeek : Contract t peekchar fun ch u => ch = d ∧ u = t.settle := by
    refine Contract.of_ends (peekchar_ends ht.valid hmore) (fun heq => by cases heq)
      fun b u heq => ?_
    cases heq
    exact ⟨rfl, rfl⟩
  refine Spec.bind hpeek fun ch u hu => ?_
  obtain ⟨rfl, rfl⟩ := hu
  have hlater := ht.trans hsettle.later
  split
  · refine Spec.bind (getchar_contract hsettle.valid) fun _ v hv => ?_
    refine Spec.bind (sequence_contract true hv.valid (by decide)) fun attrs w hw => ?_
    exact Spec.pure ⟨(hlater.trans hv).trans hw.1, rfl⟩
  · rename_i hspace
    have hclose : ch = 62 := by
      have hall : (ascii " >\t\n").all (fun b => isspace b || b == 62) = true := by decide
      have hch := List.all_eq_true.mp hall ch hd
      rw [Bool.or_eq_true, beq_iff_eq] at hch
      exact hch.resolve_left hspace
    subst hclose
    have hnext : nextToken t.settle.unread = some ([62], rest) := by
      rw [hmore']
      exact nextToken_delimiter (by decide) rest
    have hmatch := matchText_singleton hsettle.valid (d := 62) (by decide) hnext
    obtain ⟨hreads, -, -⟩ := (gettok_spec hsettle.valid).2 [62] rest hnext
    have hclosed : Contract t.settle (matchText (ascii ">")) fun closed u =>
        closed = true ∧ t.settle.Later u := by
      refine Contract.of_ends hmatch (fun heq => by cases heq) fun b u heq => ?_
      cases heq
      exact ⟨rfl, hreads.later⟩
    refine Spec.bind hclosed fun closed u hu => ?_
    rw [if_pos hu.1]
    exact Spec.pure ⟨hlater.trans hu.2, rfl⟩

theorem parseOpenedTag_contract (hs : s.Valid) :
    Contract s parseOpenedTag fun tag t => s.Later t ∧ tag.isSome = true := by
  refine Spec.bind (closeMark_contract hs) fun isCloseTag t ht => ?_
  refine Spec.bind (checkStream_contract ht.valid (by decide)) fun comment u hu => ?_
  have hlater := ht.trans hu
  split
  · exact (parseComment_contract hu.valid isCloseTag).mono fun tag v hv => ⟨hlater.trans hv.1, hv.2⟩
  · exact (parseNamedTag_contract hu.valid isCloseTag).mono fun tag v hv =>
      ⟨hlater.trans hv.1, hv.2⟩

/-- The path leads from `curr_deepest_tag` through the open tags to the root. -/
def Lexer.Tree (s : Lexer) : Prop := s.path.length = s.tagStack.length + 1

theorem derefDeepestTag_ends (htree : s.Tree) : Ends Fine s derefDeepestTag (.ok () s) := by
  have haccess : (Access.deref (!s.path.isEmpty)).Ok := by
    show (!s.path.isEmpty) = true
    unfold Lexer.Tree at htree
    cases hpath : s.path with
    | nil =>
      rw [hpath, List.length_nil] at htree
      omega
    | cons n up => rfl
  exact Ends.bind Ends.read (access_ends haccess)

/-- What a tag or a text does to the tree. -/
structure Lexer.Grows (s t : Lexer) : Prop where
  valid : t.Valid
  unread_eq : t.unread = s.unread
  tree : t.Tree

theorem addChild_grows (hs : s.Valid) (htree : s.Tree) (child : DomNode) :
    s.Grows (s.addChild child) := by
  unfold Lexer.Tree at htree
  cases hpath : s.path with
  | nil =>
    rw [hpath, List.length_nil] at htree
    omega
  | cons n up =>
    rw [hpath] at htree
    rw [Lexer.addChild, hpath]
    exact ⟨⟨hs.off_le, hs.size_le⟩, rfl, htree⟩

theorem openTag_contract (hs : s.Valid) (htree : s.Tree) (tag : HtmlTag) :
    Contract s (openTag tag) fun _ t => s.Grows t := by
  have hderef : Contract s derefDeepestTag fun _ t => t = s := by
    refine Contract.of_ends (derefDeepestTag_ends htree) (fun heq => by cases heq) fun _ t heq => ?_
    cases heq
    rfl
  refine Spec.bind hderef fun _ t ht => ?_
  subst ht
  split
  · refine Spec.modify ⟨⟨hs.off_le, hs.size_le⟩, rfl, ?_⟩
    exact congrArg (· + 1) htree
  · exact Spec.modify (addChild_grows hs htree _)

/-- **A closing tag needs an open one (proved).** -/
theorem closeTag_contract (hs : s.Valid) (htree : s.Tree) :
    Contract s closeTag fun _ t => s.Grows t := by
  by_cases hsafe : s.tagStack = []
  · have hbad : ¬(Access.deref (!s.tagStack.isEmpty)).Ok := by
      rw [hsafe]
      exact Bool.false_ne_true
    obtain ⟨hstop, hmem⟩ := access_bad (s := s) hbad fun _ =>
      derefDeepestTag >>= fun _ => Program.modify Lexer.popTag
    exact Contract.call_bad (fun h => h hsafe) hstop (fun heq => by cases heq) hmem
  · have haccess : (Access.deref (!s.tagStack.isEmpty)).Ok := by
      show (!s.tagStack.isEmpty) = true
      cases hstack : s.tagStack with
      | nil => exact absurd hstack hsafe
      | cons tag tags => rfl
    have hends : Ends Fine s (do
        let s ← Program.read
        access (.deref (!s.tagStack.isEmpty))
        derefDeepestTag
        Program.modify Lexer.popTag) (.ok () s.popTag) :=
      Ends.bind Ends.read (Ends.bind (access_ends haccess)
        (Ends.bind (derefDeepestTag_ends htree) Ends.modify))
    refine Contract.call_ends hsafe hends (fun heq => by cases heq) fun _ t heq => ?_
    cases heq
    refine ⟨⟨hs.off_le, hs.size_le⟩, rfl, ?_⟩
    unfold Lexer.Tree at htree ⊢
    rw [Lexer.popTag]
    cases hstack : s.tagStack with
    | nil => exact absurd hstack hsafe
    | cons tag tags =>
      rw [hstack, List.length_cons] at htree
      cases hpath : s.path with
      | nil =>
        rw [hpath, List.length_nil] at htree
        omega
      | cons n up =>
        rw [hpath, List.length_cons] at htree
        cases up with
        | nil =>
          rw [List.length_nil] at htree
          omega
        | cons parent above =>
          rw [List.length_cons] at htree
          show (parent.addChild n.close :: above).length = tags.length + 1
          rw [List.length_cons]
          omega

theorem Lexer.Later.tree {t : Lexer} (h : s.Later t) (htree : s.Tree) : t.Tree := by
  unfold Lexer.Tree at htree ⊢
  rw [h.path_eq, h.tagStack_eq]
  exact htree

variable {rest tok : List Byte}

theorem parseHtmlTag_other (hs : s.Valid) (hnext : nextToken s.unread = some (tok, rest))
    (hother : tok.head? ≠ some 60) :
    (rest = [] → Ends Fine s parseHtmlTag (.stop .noStreamData)) ∧
      (rest ≠ [] → Ends Fine s parseHtmlTag (.ok none (s.afterToken tok).settle)) := by
  have hmatch := matchText_singleton hs (d := 60) (by decide) hnext
  obtain ⟨hreads, hrest, -⟩ := (gettok_spec hs).2 tok rest hnext
  rw [decide_eq_false hother] at hmatch
  refine ⟨fun hempty => Ends.bind hmatch ?_, fun hmore => Ends.bind hmatch ?_⟩
  · exact Ends.bind_stop (peekchar_ends_stop hreads.valid (hrest.trans hempty))
  · obtain ⟨b, rest, rfl⟩ := List.exists_cons_of_ne_nil hmore
    exact Ends.bind (peekchar_ends hreads.valid hrest) Ends.pure

theorem parseHtmlTag_contract (hs : s.Valid) (hnext : nextToken s.unread = some (tok, rest))
    (hopen : tok.head? = some 60) :
    Contract s parseHtmlTag fun tag t =>
      s.Later t ∧ t.unread.length < s.unread.length ∧ tag.isSome = true := by
  have hmatch := matchText_singleton hs (d := 60) (by decide) hnext
  obtain ⟨hreads, -, -⟩ := (gettok_spec hs).2 tok rest hnext
  obtain ⟨-, hpos, -⟩ := nextToken_eq_some hnext
  have hsum := hreads.length_eq
  rw [decide_eq_true hopen] at hmatch
  have hopened : Contract s (matchText (ascii "<")) fun opened t =>
      opened = true ∧ t = s.afterToken tok := by
    refine Contract.of_ends hmatch (fun heq => by cases heq) fun b t heq => ?_
    cases heq
    exact ⟨rfl, rfl⟩
  refine Spec.bind hopened fun opened t ht => ?_
  obtain ⟨rfl, rfl⟩ := ht
  refine (parseOpenedTag_contract hreads.valid).mono fun tag t ht => ?_
  have hlen := ht.1.length_le
  exact ⟨hreads.later.trans ht.1, by omega, ht.2⟩

/-- **The contract of `_process_html_tag` (proved).**  Only at a `<` does it get a tag. -/
theorem processHtmlTag_contract (hs : s.Valid) (htree : s.Tree) :
    Contract s processHtmlTag fun _ t =>
      t.Valid ∧ t.Tree ∧ t.unread.length < s.unread.length := by
  cases hnext : nextToken s.unread with
  | none =>
    have hparse : Ends Fine s parseHtmlTag (.stop .noStreamData) :=
      Ends.bind_stop (Ends.bind_stop ((gettok_spec hs).1 hnext))
    refine Contract.call_ends (fun tok rest htok => ?_) (Ends.bind_stop hparse)
      (fun heq => by cases heq) fun _ t heq => by cases heq
    rw [hnext] at htok
    cases htok
  | some p =>
    obtain ⟨tok, rest⟩ := p
    by_cases hopen : tok.head? = some 60
    · have hlog : Contract s (call .processTag) fun _ t => s = t := by
        refine Spec.log (iff_of_true trivial fun tok' rest' htok _ => ?_) rfl
        rw [hnext] at htok
        cases htok
        exact hopen
      refine Spec.bind hlog fun _ t ht => ?_
      subst ht
      refine Spec.bind (parseHtmlTag_contract hs hnext hopen) fun tag t ht => ?_
      obtain ⟨hlater, hless, htag⟩ := ht
      have haccess : (Access.deref tag.isSome).Ok := htag
      have hderef : Contract t (access (.deref tag.isSome)) fun _ u => u = t := by
        refine Contract.of_ends (access_ends haccess) (fun heq => by cases heq) fun _ u heq => ?_
        cases heq
        rfl
      refine Spec.bind hderef fun _ u hu => ?_
      subst hu
      have htree' := hlater.tree htree
      cases tag with
      | none => cases htag
      | some tag =>
        have hgrows : ∀ v, u.Grows v → v.Valid ∧ v.Tree ∧ v.unread.length < s.unread.length := by
          intro v hv
          rw [hv.unread_eq]
          exact ⟨hv.valid, hv.tree, hless⟩
        dsimp only
        split
        · exact (closeTag_contract hlater.valid htree').mono fun _ v hv => hgrows v hv
        · exact (openTag_contract hlater.valid htree' tag).mono fun _ v hv => hgrows v hv
    · obtain ⟨hstop, hnone⟩ := parseHtmlTag_other hs hnext hopen
      by_cases hempty : rest = []
      · refine Contract.call_ends (fun tok' rest' htok hmore => ?_) (Ends.bind_stop (hstop hempty))
          (fun heq => by cases heq) fun _ t heq => by cases heq
        rw [hnext] at htok
        cases htok
        exact absurd hempty hmore
      · have hbad : ¬(Access.deref (none : Option HtmlTag).isSome).Ok := Bool.false_ne_true
        obtain ⟨houtcome, e, he, hnot⟩ := access_bad (s := (s.afterToken tok).settle) hbad fun _ =>
          (pure () : Parse Unit)
        have hround := (hnone hempty).continues (f := fun tag => access (.deref tag.isSome) >>=
          fun _ => match tag with
            | none => pure ()
            | some tag => if tag.isCloseTag then closeTag else openTag tag) rfl
        refine Contract.call_bad (fun h => hopen (h tok rest hnext hempty))
          (hround.outcome_eq.trans houtcome) (fun heq => by cases heq) ?_
        exact ⟨e, hround.mem_trace he, hnot⟩

end Tags

/-! ### Documents and responses -/

section Documents

variable {s : Lexer}

theorem addText_contract (hs : s.Valid) (htree : s.Tree) (content : List Byte) :
    Contract s (addText content) fun _ t => s.Grows t := by
  unfold addText
  split
  · refine Contract.of_ends (Ends.bind (derefDeepestTag_ends htree) Ends.modify)
      (fun heq => by cases heq) fun _ t heq => ?_
    cases heq
    exact addChild_grows hs htree _
  · exact Spec.pure ⟨hs, rfl, htree⟩

theorem lastChar_contract (s : Lexer) : Contract s lastChar fun _ _ => True := by
  refine Contract.of_call (fun h e he => ?_) (fun h => ?_) (fun heq => by cases heq)
    fun _ _ _ => trivial
  · rw [List.mem_singleton.mp he]
    exact h
  · exact ⟨.access (.read (s.readOff + 1) s.currentChunkSize), List.mem_singleton.mpr rfl, h⟩

/-- **The loop over a document (proved).**  Every round consumes a tag, so the loop ends before its
rounds do. -/
theorem documentLoop_contract (htmlEndOffset fuel : ℕ) : ∀ s : Lexer, s.Valid → s.Tree →
    s.unread.length < fuel →
      Contract s (documentLoop htmlEndOffset fuel) fun _ _ => True := by
  induction fuel with
  | zero => exact fun s _ _ hfuel => absurd hfuel (Nat.not_lt_zero _)
  | succ fuel ih =>
    intro s hs htree hfuel
    refine Spec.bind (processHtmlTag_contract hs htree) fun _ t ht => ?_
    obtain ⟨hvalid, htree', hless⟩ := ht
    refine Spec.bind (Q := fun a u => a = t ∧ u = t) (Spec.read ⟨rfl, rfl⟩) fun a u hu => ?_
    obtain ⟨rfl, rfl⟩ := hu
    split
    · exact lastChar_contract u
    · refine Spec.bind (sequence_contract false hvalid (by decide)) fun content v hv => ?_
      have hlen := hv.1.length_le
      refine Spec.bind (addText_contract hv.1.valid (hv.1.tree htree') content) fun _ w hw => ?_
      exact ih w hw.valid hw.tree (by rw [hw.unread_eq]; omega)

variable {fuel : ℕ}

theorem parseHtmlDocument_contract (htmlEndOffset : ℕ) (hs : s.Valid) (hstack : s.tagStack = [])
    (hfuel : s.unread.length < fuel) :
    Contract s (parseHtmlDocument fuel htmlEndOffset) fun _ _ => True := by
  have hopen : Contract s (Program.modify fun s : Lexer =>
      { s with path := [⟨.document, [], none, []⟩] }) fun _ t =>
        t.Valid ∧ t.Tree ∧ t.unread = s.unread := by
    refine Spec.modify ⟨⟨hs.off_le, hs.size_le⟩, ?_, rfl⟩
    show 1 = s.tagStack.length + 1
    rw [hstack, List.length_nil]
  refine Spec.bind hopen fun _ t ht => ?_
  refine Spec.bind (documentLoop_contract htmlEndOffset fuel t ht.1 ht.2.1
    (by rw [ht.2.2]; exact hfuel)) fun _ u _ => ?_
  exact Spec.bind (Q := fun _ _ => True) (Spec.read trivial) fun _ _ _ => Spec.pure trivial

theorem checkNewline_contract (hs : s.Valid) : Contract s checkNewline fun _ t => s.Later t := by
  refine Spec.bind (checkStream_contract hs (by decide)) fun crlf t ht => ?_
  split
  · exact Spec.pure ht
  · exact (checkStream_contract ht.valid (by decide)).mono fun _ u hu => ht.trans hu

theorem matchNewline_contract (hs : s.Valid) : Contract s matchNewline fun _ t => s.Later t := by
  refine Spec.bind (checkStream_contract hs (by decide)) fun crlf t ht => ?_
  split
  · exact (matchText_contract ht.valid (by decide) (by decide)).mono fun _ u hu => ht.trans hu.1
  · refine Spec.bind (checkStream_contract ht.valid (by decide)) fun lf u hu => ?_
    split
    · exact (matchText_contract hu.valid (by decide) (by decide)).mono fun _ v hv =>
        (ht.trans hu).trans hv.1
    · exact Spec.pure (ht.trans hu)

theorem noteHeader_contract (hs : s.Valid) (key value : List Byte) :
    Contract s (noteHeader key value) fun _ t => s.Later t := by
  unfold noteHeader
  split
  · exact Spec.modify ⟨⟨hs.off_le, hs.size_le⟩, le_refl _, rfl, rfl⟩
  · exact Spec.pure (Lexer.Reads.refl hs).later

/-- **The loop over the headers (proved).**  Every round consumes a key, so the loop ends before
its rounds do. -/
theorem headersLoop_contract (fuel : ℕ) : ∀ s : Lexer, s.Valid → s.unread.length < fuel →
    Contract s (headersLoop fuel) fun _ t => s.Later t := by
  induction fuel with
  | zero => exact fun s _ hfuel => absurd hfuel (Nat.not_lt_zero _)
  | succ fuel ih =>
    intro s hs hfuel
    refine Spec.bind (checkNewline_contract hs) fun newline t ht => ?_
    split
    · exact Spec.pure ht
    · refine Spec.bind (sequence_contract true ht.valid (by decide)) fun key u hu => ?_
      refine Spec.bind (sequence_contract true hu.1.valid (by decide)) fun value v hv => ?_
      refine Spec.bind (noteHeader_contract hv.1.valid key value) fun _ w hw => ?_
      have hlater := ((ht.trans hu.1).trans hv.1).trans hw
      have hkey := hu.2 rfl
      have htlen := ht.length_le
      have hvlen := hv.1.length_le
      have hwlen := hw.length_le
      exact (ih w hw.valid (by omega)).mono fun _ x hx => hlater.trans hx

theorem parseBody_contract (hs : s.Valid) (hstack : s.tagStack = [])
    (hfuel : s.unread.length < fuel) : Contract s (parseBody fuel) fun _ _ => True := by
  refine Spec.bind (Q := fun a u => a = s ∧ u = s) (Spec.read ⟨rfl, rfl⟩) fun a u hu => ?_
  obtain ⟨rfl, rfl⟩ := hu
  split
  · exact Spec.pure trivial
  · refine Spec.bind (Q := fun _ t => t = u) (Spec.log Iff.rfl rfl) fun _ t ht => ?_
    subst ht
    exact parseHtmlDocument_contract _ hs hstack hfuel

theorem htmlParseFromSocket_contract (hs : s.Valid) (hstack : s.tagStack = [])
    (hfuel : s.unread.length < fuel) : Contract s (htmlParseFromSocket fuel) fun _ _ => True := by
  refine Spec.bind (sequence_contract true hs (by decide)) fun _ t ht => ?_
  refine Spec.bind (sequence_contract true ht.1.valid (by decide)) fun _ u hu => ?_
  refine Spec.bind (sequence_contract true hu.1.valid (by decide)) fun _ v hv => ?_
  have hlater := (ht.1.trans hu.1).trans hv.1
  refine Spec.bind (headersLoop_contract fuel v hv.1.valid
    (lt_of_le_of_lt hlater.length_le hfuel)) fun _ w hw => ?_
  refine Spec.bind (matchNewline_contract hw.valid) fun ended x hx => ?_
  have hlater' := (hlater.trans hw).trans hx
  split
  · exact parseBody_contract hx.valid (hlater'.tagStack_eq.trans hstack)
      (lt_of_le_of_lt hlater'.length_le hfuel)
  · exact Spec.pure trivial

theorem lexerCreate_valid (chunks : List Chunk) : (lexerCreate chunks).Valid :=
  ⟨le_refl 0, Nat.zero_le _⟩

theorem respond_contract (chunks : List Chunk) : Contract (lexerCreate chunks)
    (htmlParseFromSocket ((chunks.map Chunk.bytes).flatten.length + 1)) fun _ _ => True :=
  htmlParseFromSocket_contract (lexerCreate_valid chunks) rfl (Nat.lt_succ_self _)

/-- **A hostile server (proved).**  On every stream, however it is cut, the parser ends; and it
stays inside of its buffers and objects if and only if all its calls are safe. -/
theorem respond_safe_iff (chunks : List Chunk) :
    (respond chunks).outcome ≠ .stop .outOfFuel ∧
      ((∀ e ∈ (respond chunks).trace, e.Good) ↔ ∀ e ∈ (respond chunks).trace, e.Safe) := by
  have h := respond_contract chunks
  exact ⟨fun heq => h.ends _ heq rfl, h.iff⟩

def Entry.isBad : Entry → Bool
  | .access a => !decide a.Ok
  | .call _ _ => false

theorem Entry.not_good_of_isBad {e : Entry} (h : e.isBad = true) : ¬e.Good := by
  cases e with
  | access a =>
    rw [Entry.isBad, Bool.not_eq_true', decide_eq_false_iff_not] at h
    exact h
  | call c s => cases h

def strayClose : List Chunk :=
  [⟨ascii "HTTP/1.1 200 OK\r\nContent-Length: 4\r\n\r\n</a>", by decide, by decide⟩]

/-- A closing tag with no tag open: the stack is empty, and its entry is dereferenced. -/
theorem strayClose_notGood : ¬∀ chunks : List Chunk, ∀ e ∈ (respond chunks).trace, e.Good := by
  intro h
  have hany : (respond strayClose).trace.any Entry.isBad = true := by decide +kernel
  obtain ⟨e, he, hbad⟩ := List.any_eq_true.mp hany
  exact Entry.not_good_of_isBad hbad (h strayClose e he)

end Documents

end Axle.Netclient.Html
