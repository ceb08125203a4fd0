import Axle.Lib.Traced
import Mathlib.Tactic

/-!
# The lexer of the HTML parser

The lexer reads a TCP stream in chunks of at most 2048 bytes into one buffer and looks at the
buffer from `read_off` on.  It looks ahead by comparing bytes of the buffer, and it gives a
delimiter back by moving `read_off` to the left.

Every program leaves a trace of what it touches (`Access`) and of the calls it makes, with the
state before each (`Call`).  A write behind the end of a buffer, a subtraction below zero and a
missing object stop the program here; a read outside of the current chunk sees the older bytes of
the buffer and goes on.

* `gettok_spec` — **PROVED**: the tokens of the lexer are the tokens of the stream;
* `sequenceLoop_spec` — **PROVED**: a sequence of tokens is read up to its delimiter, the end of the
  buffer or the end of the data;
* `Lexer.Reads.rewind` — **PROVED**: what was read can be given back inside of the current chunk;
* `strncmpChunk_entries` — **PROVED**: which comparison leaves the current chunk;
* `matchLoop_ends` — **PROVED**: what is matched fits into its buffer.
-/

namespace Axle.Netclient.Html

open Axle.Lib.Traced

abbrev Byte := UInt8

/-- The bytes of a text of ASCII characters. -/
def ascii (s : String) : List Byte := s.toList.map fun c => UInt8.ofNat c.toNat

/-- What one call of `html_read_tcp_stream` returns. -/
structure Chunk where
  bytes : List Byte
  nonempty : 0 < bytes.length
  bounded : bytes.length ≤ 2048

structure HtmlTag where
  name : List Byte
  attrs : Option (List Byte)
  isCloseTag : Bool
  requiresCloseTag : Bool
  isComment : Bool
  deriving DecidableEq, Repr

inductive DomNodeType where
  | document
  | htmlTag
  | text
  deriving DecidableEq, Repr

inductive DomNode where
  | mk (type : DomNodeType) (name : List Byte) (attrs : Option (List Byte))
      (children : List DomNode)

/-- A node that is still open, with the children it has so far. -/
structure OpenNode where
  type : DomNodeType
  name : List Byte
  attrs : Option (List Byte)
  children : List DomNode

/-- `tcp_lexer_t`.  `coming` are the chunks that the server has yet to send; `currentChunk` is the
whole buffer, of which the first `currentChunkSize` bytes are the current chunk; `path` are the
nodes from `curr_deepest_tag` along the parent pointers to the root. -/
structure Lexer where
  coming : List Chunk
  currentChunk : List Byte
  currentChunkSize : ℕ
  readOff : ℕ
  previouslyReadByteCount : ℕ
  contentLength : ℕ
  tagStack : List HtmlTag
  path : List OpenNode

/-! ### The trace -/

inductive Access where
  | read (index size : ℕ)
  | write (stop size : ℕ)
  | rewind (count readOff : ℕ)
  | deref (present : Bool)
  deriving DecidableEq, Repr

def Access.Ok : Access → Prop
  | .read index size => index < size
  | .write stop size => stop ≤ size
  | .rewind count readOff => count ≤ readOff
  | .deref present => present = true

instance : DecidablePred Access.Ok
  | .read index size => inferInstanceAs (Decidable (index < size))
  | .write stop size => inferInstanceAs (Decidable (stop ≤ size))
  | .rewind count readOff => inferInstanceAs (Decidable (count ≤ readOff))
  | .deref present => inferInstanceAs (Decidable (present = true))

inductive Call where
  | sequence (delim : List Byte) (consumeDelim : Bool)
  | sequenceAny (delims : List Byte)
  | checkStream (expected : List Byte)
  | bodyStart
  | processTag
  | popTag
  | lastChar
  deriving DecidableEq, Repr

inductive Entry where
  | access (a : Access)
  | call (c : Call) (s : Lexer)

/-- The assertions of the lexer, an access that goes wrong, and the bound on the rounds of the
loops of the parser. -/
inductive Stop where
  | bufferedData
  | noStreamData
  | exceededReadBuffer
  | badAccess (a : Access)
  | outOfFuel
  deriving DecidableEq, Repr

abbrev Parse (α : Type) := Program Entry Stop Lexer α

def call (c : Call) : Parse Unit := Program.log fun s => .call c s

/-- An access that the program does not survive when it goes wrong. -/
def access (a : Access) : Parse Unit := fun s =>
  ⟨[.access a], if a.Ok then .ok () s else .stop (.badAccess a)⟩

/-- A byte of the buffer; outside of the current chunk, an older one. -/
def readChunk (index : ℕ) : Parse Byte := fun s =>
  ⟨[.access (.read index s.currentChunkSize)], .ok (s.currentChunk.getD index 0) s⟩

/-! ### Characters -/

def Lexer.fetched (s : Lexer) (c : Chunk) (coming : List Chunk) : Lexer :=
  { s with
    coming
    currentChunk := c.bytes ++ s.currentChunk.drop c.bytes.length
    currentChunkSize := c.bytes.length
    readOff := 0
    previouslyReadByteCount := (s.previouslyReadByteCount + s.currentChunkSize) % 2 ^ 32 }

def fetchNextStreamChunk : Parse Unit := do
  let s ← Program.read
  if s.currentChunkSize = 0 ∨ s.readOff ≥ s.currentChunkSize then
    match s.coming with
    | [] => Program.stop .noStreamData
    | c :: coming => Program.modify fun s => s.fetched c coming
  else Program.stop .bufferedData

/-- The first half of `_peekchar`. -/
def fetchIfOutOfData : Parse Unit := do
  let s ← Program.read
  if s.currentChunkSize = 0 ∨ s.readOff ≥ s.currentChunkSize then fetchNextStreamChunk
  else pure ()

def peekchar : Parse Byte := do
  fetchIfOutOfData
  let s ← Program.read
  readChunk s.readOff

def getchar : Parse Byte := do
  let ret ← peekchar
  Program.modify fun s => { s with readOff := s.readOff + 1 }
  pure ret

def delimiters : List Byte := ascii " <>\r\n:-=,?!"

def charIsDelimiter (ch : Byte) : Bool := ch ∈ delimiters

/-! ### Tokens -/

/-- The rounds of `_gettok` that are left, and the bytes so far. -/
def gettokLoop : ℕ → List Byte → Parse (List Byte)
  | 0, buf => pure buf
  | room + 1, buf => do
    let peek ← peekchar
    if charIsDelimiter peek then
      if buf.length > 0 then pure buf
      else
        let ch ← getchar
        pure (buf ++ [ch])
    else
      let ch ← getchar
      gettokLoop room (buf ++ [ch])

def gettok : Parse (List Byte) := gettokLoop 128 []

/-- What `strndup` and `strncpy` make of the bytes of a token: zeros behind a first zero. -/
def copied (tok : List Byte) : List Byte :=
  tok.takeWhile (· ≠ 0) ++
    List.replicate (tok.length - (tok.takeWhile (· ≠ 0)).length) 0

def matchLoop (expected : List Byte) : ℕ → List Byte → Parse Bool
  | 0, _ => pure false
  | fuel + 1, buf =>
    if buf.length < 256 then do
      let tok ← gettok
      access (.write (buf.length + tok.length) 256)
      let buf := buf ++ copied tok
      if buf.length ≥ expected.length then pure (buf.take expected.length = expected)
      else matchLoop expected fuel buf
    else pure false

/-- `_match`. -/
def matchText (expected : List Byte) : Parse Bool := matchLoop expected 256 []

/-! ### Lookahead -/

/-- `strncmp` of the buffer from `index` on, up to the first difference. -/
def strncmpChunk : ℕ → List Byte → Parse Bool
  | _, [] => pure true
  | index, e :: expected => do
    let b ← readChunk index
    if b = e then strncmpChunk (index + 1) expected else pure false

/-- The body of `_check_stream`. -/
def lookAhead (expected : List Byte) : Parse Bool := do
  let s ← Program.read
  if s.readOff + expected.length > s.currentChunkSize then
    let readableLen := s.currentChunkSize - s.readOff
    let same ← strncmpChunk s.readOff (expected.take readableLen)
    if !same then pure false
    else
      fetchNextStreamChunk
      let s ← Program.read
      strncmpChunk s.readOff (expected.drop readableLen)
  else strncmpChunk s.readOff expected

def checkStream (expected : List Byte) : Parse Bool := do
  call (.checkStream expected)
  lookAhead expected

def checkNewline : Parse Bool := do
  let crlf ← checkStream (ascii "\r\n")
  if crlf then pure true else checkStream (ascii "\n")

def matchNewline : Parse Bool := do
  let crlf ← checkStream (ascii "\r\n")
  if crlf then matchText (ascii "\r\n")
  else
    let lf ← checkStream (ascii "\n")
    if lf then matchText (ascii "\n") else pure false

/-! ### Sequences of tokens -/

def strEndsWith (s t : List Byte) : Bool :=
  s.length ≥ t.length && s.drop (s.length - t.length) = t

/-- The loop of both sequence readers: whether `ends` held behind a token, and the bytes so far. -/
def sequenceLoop (ends : List Byte → Bool) : ℕ → List Byte → Parse (Bool × List Byte)
  | 0, buf => pure (false, buf)
  | fuel + 1, buf =>
    if buf.length < 2048 then do
      let tok ← gettok
      access (.write (buf.length + tok.length) 2048)
      let buf := buf ++ copied tok
      if ends buf then pure (true, buf) else sequenceLoop ends fuel buf
    else pure (false, buf)

/-- Move `read_off` to the left. -/
def rewind (count : ℕ) : Parse Unit := do
  let s ← Program.read
  access (.rewind count s.readOff)
  Program.modify fun s => { s with readOff := s.readOff - count }

/-- Read the sequence, trim the delimiter and give `rewound` bytes back. -/
def readSequence (ends : List Byte → Bool) (delimLen rewound : ℕ) : Parse (List Byte) := do
  let (found, buf) ← sequenceLoop ends 2048 []
  let buf := if found then buf.take (buf.length - delimLen) else buf
  if buf.length < 2048 then
    rewind rewound
    pure buf
  else Program.stop .exceededReadBuffer

def getTokenSequenceDelimitedBy (delim : List Byte) (consumeDelim : Bool) :
    Parse (List Byte) := do
  call (.sequence delim consumeDelim)
  readSequence (fun buf => strEndsWith buf delim) delim.length
    (if consumeDelim then 0 else delim.length)

def getTokenSequenceDelimitedByAny (delims : List Byte) : Parse (List Byte) := do
  call (.sequenceAny delims)
  readSequence (fun buf => delims.any fun d => strEndsWith buf [d]) 1 1

/-- A C string ends at its first zero. -/
def cString (buf : List Byte) : List Byte := buf.takeWhile (· ≠ 0)

/-! ### The stream -/

namespace Lexer

/-- `read_off` lies in the chunk or at its end, and the chunk in the buffer. -/
structure Valid (s : Lexer) : Prop where
  off_le : s.readOff ≤ s.currentChunkSize
  size_le : s.currentChunkSize ≤ s.currentChunk.length

/-- The bytes of the stream that the lexer has not consumed. -/
def unread (s : Lexer) : List Byte :=
  (s.currentChunk.take s.currentChunkSize).drop s.readOff ++
    (s.coming.map Chunk.bytes).flatten

/-- The place in the stream, counted as the source does. -/
def position (s : Lexer) : ℕ := (s.previouslyReadByteCount + s.readOff) % 2 ^ 32

/-- At the end of a chunk, the next one is fetched. -/
def settle (s : Lexer) : Lexer :=
  if s.readOff < s.currentChunkSize then s
  else
    match s.coming with
    | [] => s
    | c :: coming => s.fetched c coming

/-- One byte further. -/
def pop (s : Lexer) : Lexer := { s.settle with readOff := s.settle.readOff + 1 }

/-- The part of the current chunk that lies before `read_off`. -/
def consumed (s : Lexer) : List Byte := s.currentChunk.take s.readOff

/-- From `s`, exactly these bytes were consumed. -/
structure Reads (s : Lexer) (bytes : List Byte) (t : Lexer) : Prop where
  valid : t.Valid
  unread_eq : s.unread = bytes ++ t.unread
  consumed_suffix : t.consumed <:+ s.consumed ++ bytes
  contentLength_eq : t.contentLength = s.contentLength
  tagStack_eq : t.tagStack = s.tagStack
  path_eq : t.path = s.path
  position_eq : t.position = (s.position + bytes.length) % 2 ^ 32

variable {s t u : Lexer} {bytes bytes' : List Byte}

theorem Reads.refl (h : s.Valid) : s.Reads [] s :=
  ⟨h, rfl, by rw [List.append_nil], rfl, rfl, rfl, (Nat.mod_mod _ _).symm⟩

theorem Reads.trans (h : s.Reads bytes t) (h' : t.Reads bytes' u) :
    s.Reads (bytes ++ bytes') u where
  valid := h'.valid
  unread_eq := by rw [h.unread_eq, h'.unread_eq, List.append_assoc]
  consumed_suffix := by
    rw [← List.append_assoc]
    exact h'.consumed_suffix.trans (List.suffix_append_self_iff.mpr h.consumed_suffix)
  contentLength_eq := h'.contentLength_eq.trans h.contentLength_eq
  tagStack_eq := h'.tagStack_eq.trans h.tagStack_eq
  path_eq := h'.path_eq.trans h.path_eq
  position_eq := by
    rw [h'.position_eq, h.position_eq, List.length_append]
    omega

theorem fetched_reads (h : s.Valid) (hend : ¬s.readOff < s.currentChunkSize) {c : Chunk}
    {coming : List Chunk} (hcoming : s.coming = c :: coming) : s.Reads [] (s.fetched c coming) where
  valid := ⟨Nat.zero_le _, by
    show c.bytes.length ≤ (c.bytes ++ s.currentChunk.drop c.bytes.length).length
    rw [List.length_append]
    omega⟩
  unread_eq := by
    have hall : (s.currentChunk.take s.currentChunkSize).drop s.readOff = [] := by
      refine List.drop_eq_nil_of_le ?_
      rw [List.length_take]
      omega
    show _ = [] ++ (((c.bytes ++ s.currentChunk.drop c.bytes.length).take c.bytes.length).drop 0 ++
      (coming.map Chunk.bytes).flatten)
    rw [unread, hall, hcoming, List.take_left', List.drop_zero, List.map_cons, List.flatten_cons]
    rfl
  consumed_suffix := List.nil_suffix
  contentLength_eq := rfl
  tagStack_eq := rfl
  path_eq := rfl
  position_eq := by
    have hoff := h.off_le
    show ((s.previouslyReadByteCount + s.currentChunkSize) % 2 ^ 32 + 0) % 2 ^ 32 =
      ((s.previouslyReadByteCount + s.readOff) % 2 ^ 32 + 0) % 2 ^ 32
    have heq : s.readOff = s.currentChunkSize := by omega
    rw [heq]

theorem settle_reads (h : s.Valid) : s.Reads [] s.settle := by
  unfold settle
  split
  · exact Reads.refl h
  · rename_i hend
    split
    · exact Reads.refl h
    · rename_i c coming hcoming
      exact fetched_reads h hend hcoming

/-- With bytes to come, the next one is in the chunk. -/
theorem settle_lt (hmore : s.unread ≠ []) :
    s.settle.readOff < s.settle.currentChunkSize := by
  unfold settle
  split
  · rename_i hlt
    exact hlt
  · split
    · rename_i hcoming
      refine absurd ?_ hmore
      rw [unread, hcoming, List.drop_eq_nil_of_le (by rw [List.length_take]; omega)]
      rfl
    · rename_i c coming hcoming
      exact c.nonempty

theorem settle_of_lt (h : s.readOff < s.currentChunkSize) : s.settle = s := if_pos h

theorem settle_settle (s : Lexer) : s.settle.settle = s.settle := by
  by_cases hlt : s.readOff < s.currentChunkSize
  · rw [settle_of_lt hlt, settle_of_lt hlt]
  · cases hcoming : s.coming with
    | nil =>
      have hstay : s.settle = s := by rw [settle, if_neg hlt, hcoming]
      rw [hstay, hstay]
    | cons c coming =>
      have hnext : s.settle = s.fetched c coming := by rw [settle, if_neg hlt, hcoming]
      rw [hnext]
      exact settle_of_lt c.nonempty

variable {b : Byte} {rest : List Byte}

theorem settle_head (h : s.Valid) (hmore : s.unread = b :: rest) :
    s.settle.currentChunk.getD s.settle.readOff 0 = b := by
  have hlt := settle_lt (by rw [hmore]; exact List.cons_ne_nil b rest)
  have hreads := settle_reads h
  have hsize := hreads.valid.size_le
  have hunread := hreads.unread_eq
  rw [hmore, List.nil_append, unread] at hunread
  have hdrop := List.drop_eq_getElem_cons
    (l := s.settle.currentChunk.take s.settle.currentChunkSize)
    (i := s.settle.readOff) (by rw [List.length_take]; omega)
  rw [hdrop, List.cons_append, List.cons.injEq] at hunread
  rw [hunread.1, List.getElem_take, List.getD_eq_getElem?_getD, List.getElem?_eq_getElem (by omega)]
  rfl

theorem pop_reads (h : s.Valid) (hmore : s.unread = b :: rest) : s.Reads [b] s.pop := by
  have hlt := settle_lt (by rw [hmore]; exact List.cons_ne_nil b rest)
  have hreads := settle_reads h
  have hsize := hreads.valid.size_le
  refine ⟨⟨hlt, hsize⟩, ?_, ?_, hreads.contentLength_eq, hreads.tagStack_eq, hreads.path_eq, ?_⟩
  · have hunread := hreads.unread_eq
    have hdrop := List.drop_eq_getElem_cons
      (l := s.settle.currentChunk.take s.settle.currentChunkSize)
      (i := s.settle.readOff) (by rw [List.length_take]; omega)
    rw [List.nil_append, unread.eq_1 s.settle, hdrop, List.cons_append] at hunread
    rw [hunread] at hmore
    rw [hunread, (List.cons.inj hmore).1]
    rfl
  · have hhead := settle_head h hmore
    rw [List.getD_eq_getElem?_getD, List.getElem?_eq_getElem (by omega), Option.getD_some] at hhead
    have hsuffix := hreads.consumed_suffix
    rw [List.append_nil] at hsuffix
    show s.settle.currentChunk.take (s.settle.readOff + 1) <:+ _
    rw [List.take_add_one, List.getElem?_eq_getElem (by omega), hhead]
    exact List.suffix_append_self_iff.mpr hsuffix
  · have hpos := hreads.position_eq
    show (s.settle.previouslyReadByteCount + (s.settle.readOff + 1)) % 2 ^ 32 = _
    unfold position at hpos ⊢
    rw [List.length_nil] at hpos
    rw [List.length_singleton]
    omega

end Lexer

/-! ### What the characters and tokens are -/

/-- An access that is all right. -/
def Fine : Entry → Prop
  | .access a => a.Ok
  | .call _ _ => False

section Characters

variable {s : Lexer}

theorem fetch_ends_stop (hend : ¬s.readOff < s.currentChunkSize) (hcoming : s.coming = []) :
    Ends Fine s fetchNextStreamChunk (.stop .noStreamData) := by
  refine Ends.bind Ends.read ?_
  rw [if_pos (Or.inr (not_lt.mp hend)), hcoming]
  exact Ends.stop

theorem fetch_ends {c : Chunk} {coming : List Chunk} (hend : ¬s.readOff < s.currentChunkSize)
    (hcoming : s.coming = c :: coming) :
    Ends Fine s fetchNextStreamChunk (.ok () (s.fetched c coming)) := by
  refine Ends.bind Ends.read ?_
  rw [if_pos (Or.inr (not_lt.mp hend)), hcoming]
  exact Ends.modify

theorem fetch_ends_buffered (hlt : s.readOff < s.currentChunkSize) :
    Ends Fine s fetchNextStreamChunk (.stop .bufferedData) := by
  refine Ends.bind Ends.read ?_
  rw [if_neg (by omega)]
  exact Ends.stop

theorem readChunk_ends {index : ℕ} (h : index < s.currentChunkSize) :
    Ends Fine s (readChunk index) (.ok (s.currentChunk.getD index 0) s) := by
  refine ⟨rfl, ?_⟩
  show ∀ e ∈ [Entry.access (.read index s.currentChunkSize)], Fine e
  rw [List.forall_mem_singleton]
  exact h

variable {b : Byte} {rest : List Byte}

theorem peekchar_ends (h : s.Valid) (hmore : s.unread = b :: rest) :
    Ends Fine s peekchar (.ok b s.settle) := by
  have hlt := s.settle_lt (by rw [hmore]; exact List.cons_ne_nil b rest)
  have hfetch : Ends Fine s fetchIfOutOfData (.ok () s.settle) := by
    refine Ends.bind Ends.read ?_
    split
    · have hend' : ¬s.readOff < s.currentChunkSize := by omega
      cases hcoming : s.coming with
      | nil =>
        rw [Lexer.settle, if_neg hend', hcoming] at hlt
        exact absurd hlt hend'
      | cons c coming =>
        rw [Lexer.settle, if_neg hend', hcoming]
        exact fetch_ends hend' hcoming
    · rw [Lexer.settle_of_lt (by omega)]
      exact Ends.pure
  refine Ends.bind hfetch (Ends.bind Ends.read ?_)
  rw [← Lexer.settle_head h hmore]
  exact readChunk_ends hlt

theorem peekchar_ends_stop (h : s.Valid) (hmore : s.unread = []) :
    Ends Fine s peekchar (.stop .noStreamData) := by
  have hend : ¬s.readOff < s.currentChunkSize := by
    have hsize := h.size_le
    rw [Lexer.unread, List.append_eq_nil_iff, List.drop_eq_nil_iff, List.length_take] at hmore
    omega
  have hcoming : s.coming = [] := by
    rw [Lexer.unread, List.append_eq_nil_iff, List.flatten_eq_nil_iff] at hmore
    cases hlist : s.coming with
    | nil => rfl
    | cons c coming =>
      have hnil := hmore.2 c.bytes (by rw [hlist]; exact List.mem_cons_self)
      have hpos := c.nonempty
      rw [hnil] at hpos
      exact absurd hpos (Nat.lt_irrefl 0)
  refine Ends.bind_stop (Ends.bind Ends.read ?_)
  rw [if_pos (Or.inr (not_lt.mp hend))]
  exact fetch_ends_stop hend hcoming

theorem getchar_ends (h : s.Valid) (hmore : s.unread = b :: rest) :
    Ends Fine s getchar (.ok b s.pop) :=
  Ends.bind (peekchar_ends h hmore) (Ends.bind Ends.modify Ends.pure)

theorem getchar_ends_stop (h : s.Valid) (hmore : s.unread = []) :
    Ends Fine s getchar (.stop .noStreamData) := Ends.bind_stop (peekchar_ends_stop h hmore)

theorem pop_settle (s : Lexer) : s.settle.pop = s.pop := by
  unfold Lexer.pop
  rw [Lexer.settle_settle]

end Characters

/-- The loop of `_gettok` on a stream without chunks. -/
def tokenLoop : ℕ → List Byte → List Byte → Option (List Byte × List Byte)
  | 0, buf, stream => some (buf, stream)
  | _ + 1, _, [] => none
  | room + 1, buf, b :: stream =>
    if charIsDelimiter b then
      if buf.length > 0 then some (buf, b :: stream) else some (buf ++ [b], stream)
    else tokenLoop room (buf ++ [b]) stream

/-- The next token of a stream, if it is known where it ends, and what is left. -/
def nextToken (stream : List Byte) : Option (List Byte × List Byte) := tokenLoop 128 [] stream

/-- Whether the end of a token was found by looking at the byte behind it. -/
def EndsAtPeek (tok : List Byte) : Prop :=
  tok.length < 128 ∧ charIsDelimiter (tok.headD 0) = false

instance (tok : List Byte) : Decidable (EndsAtPeek tok) :=
  inferInstanceAs (Decidable (tok.length < 128 ∧ charIsDelimiter (tok.headD 0) = false))

/-- The lexer behind a token that lies ahead. -/
def Lexer.afterToken (s : Lexer) (tok : List Byte) : Lexer :=
  if EndsAtPeek tok then (Lexer.pop^[tok.length] s).settle else Lexer.pop^[tok.length] s

section Tokens

variable {s : Lexer}

theorem gettokLoop_ends (room : ℕ) : ∀ (buf : List Byte) (s : Lexer), s.Valid →
    buf.length + room = 128 → (∀ b ∈ buf, charIsDelimiter b = false) →
    (tokenLoop room buf s.unread = none →
      Ends Fine s (gettokLoop room buf) (.stop .noStreamData)) ∧
      ∀ tok rest, tokenLoop room buf s.unread = some (tok, rest) →
        ∃ new, tok = buf ++ new ∧ ∃ t, t = (if EndsAtPeek tok
          then (Lexer.pop^[new.length] s).settle else Lexer.pop^[new.length] s) ∧
            s.Reads new t ∧ t.unread = rest ∧ Ends Fine s (gettokLoop room buf) (.ok tok t) := by
  induction room with
  | zero =>
    intro buf s h hroom _
    refine ⟨fun hnone => (by cases hnone), fun tok rest hsome => ?_⟩
    cases hsome
    refine ⟨[], (List.append_nil buf).symm, s, ?_, Lexer.Reads.refl h, rfl, Ends.pure⟩
    rw [if_neg fun hpeek => absurd hpeek.1 (by omega)]
    rfl
  | succ room ih =>
    intro buf s h hroom hbuf
    cases hmore : s.unread with
    | nil =>
      refine ⟨fun _ => Ends.bind_stop (peekchar_ends_stop h hmore), fun tok rest hsome => ?_⟩
      cases hsome
    | cons b stream =>
      have hsettled := Lexer.settle_reads h
      have hmore' : s.settle.unread = b :: stream := by
        rw [← hmore, hsettled.unread_eq, List.nil_append]
      have hpop := Lexer.pop_reads h hmore
      have hnext : s.pop.unread = stream := by
        have heq := hpop.unread_eq
        rw [hmore, List.singleton_append, List.cons.injEq] at heq
        exact heq.2.symm
      rw [tokenLoop]
      cases hdelim : charIsDelimiter b with
      | true =>
        by_cases hstarted : buf.length > 0
        · rw [if_pos hstarted]
          refine ⟨fun hnone => (by cases hnone), fun tok rest hsome => ?_⟩
          cases hsome
          refine ⟨[], (List.append_nil buf).symm, s.settle, ?_, hsettled, hmore', ?_⟩
          · have hpeek : EndsAtPeek buf := by
              refine ⟨by omega, ?_⟩
              cases buf with
              | nil => exact absurd hstarted (lt_irrefl 0)
              | cons c buf => exact hbuf c List.mem_cons_self
            rw [if_pos hpeek]
            rfl
          · refine Ends.bind (peekchar_ends h hmore) ?_
            rw [hdelim, if_pos rfl, if_pos hstarted]
            exact Ends.pure
        · have hempty : buf = [] := List.eq_nil_of_length_eq_zero (by omega)
          subst hempty
          refine ⟨fun hnone => (by cases hnone), fun tok rest hsome => ?_⟩
          cases hsome
          refine ⟨[b], rfl, s.pop, ?_, hpop, hnext, ?_⟩
          · have hpeek : ¬EndsAtPeek ([] ++ [b]) := fun hpeek => by
              have hhead : charIsDelimiter b = false := hpeek.2
              rw [hdelim] at hhead
              cases hhead
            rw [if_neg hpeek]
            rfl
          · refine Ends.bind (peekchar_ends h hmore) ?_
            rw [hdelim, if_pos rfl, if_neg hstarted]
            refine Ends.bind (getchar_ends hsettled.valid hmore') ?_
            rw [pop_settle]
            exact Ends.pure
      | false =>
        obtain ⟨hstop, hok⟩ := ih (buf ++ [b]) s.pop hpop.valid
          (by rw [List.length_append, List.length_singleton]; omega) (by
            intro c hc
            rcases List.mem_append.mp hc with hc | hc
            · exact hbuf c hc
            · rw [List.mem_singleton.mp hc]
              exact hdelim)
        rw [hnext] at hstop hok
        have hround : ∀ o, Ends Fine s.pop (gettokLoop room (buf ++ [b])) o →
            Ends Fine s (gettokLoop (room + 1) buf) o := by
          intro o ho
          refine Ends.bind (peekchar_ends h hmore) ?_
          rw [hdelim, if_neg Bool.false_ne_true]
          refine Ends.bind (getchar_ends hsettled.valid hmore') ?_
          rw [pop_settle]
          exact ho
        refine ⟨fun hnone => hround _ (hstop hnone), fun tok rest hsome => ?_⟩
        obtain ⟨new, htok, t, ht, hreads, hrest, hends⟩ := hok tok rest hsome
        refine ⟨b :: new, by rw [htok, List.append_assoc, List.singleton_append], t, ?_,
          hpop.trans hreads, hrest, hround _ hends⟩
        exact ht

/-- **The tokens of the lexer are those of the stream (proved).** -/
theorem gettok_spec (h : s.Valid) :
    (nextToken s.unread = none → Ends Fine s gettok (.stop .noStreamData)) ∧
      ∀ tok rest, nextToken s.unread = some (tok, rest) →
        s.Reads tok (s.afterToken tok) ∧ (s.afterToken tok).unread = rest ∧
          Ends Fine s gettok (.ok tok (s.afterToken tok)) := by
  obtain ⟨hstop, hok⟩ := gettokLoop_ends 128 [] s h rfl fun b hb => absurd hb List.not_mem_nil
  refine ⟨hstop, fun tok rest hsome => ?_⟩
  obtain ⟨new, htok, t, ht, hreads, hrest, hends⟩ := hok tok rest hsome
  subst htok
  have hafter : t = s.afterToken tok := ht
  subst hafter
  exact ⟨hreads, hrest, hends⟩

theorem tokenLoop_eq_some (room : ℕ) : ∀ {buf stream tok rest : List Byte},
    tokenLoop room buf stream = some (tok, rest) →
      ∃ new, tok = buf ++ new ∧ stream = new ++ rest ∧ (0 < room → 0 < tok.length) ∧
        new.length ≤ room := by
  induction room with
  | zero =>
    intro buf stream tok rest h
    cases h
    exact ⟨[], (List.append_nil buf).symm, rfl, fun h => absurd h (lt_irrefl 0), le_refl 0⟩
  | succ room ih =>
    intro buf stream tok rest h
    cases stream with
    | nil => cases h
    | cons b stream =>
      rw [tokenLoop] at h
      split at h
      · split at h
        · rename_i hstarted
          cases h
          exact ⟨[], (List.append_nil buf).symm, rfl, fun _ => hstarted, Nat.zero_le _⟩
        · cases h
          refine ⟨[b], rfl, rfl, fun _ => ?_, by rw [List.length_singleton]; omega⟩
          rw [List.length_append, List.length_singleton]
          omega
      · obtain ⟨new, htok, hstream, -, hlen⟩ := ih h
        refine ⟨b :: new, ?_, by rw [hstream, List.cons_append], fun _ => ?_, ?_⟩
        · rw [htok, List.append_assoc, List.singleton_append]
        · rw [htok, List.length_append, List.length_append, List.length_singleton]
          omega
        · rw [List.length_cons]
          omega

theorem nextToken_eq_some {stream tok rest : List Byte} (h : nextToken stream = some (tok, rest)) :
    stream = tok ++ rest ∧ 0 < tok.length ∧ tok.length ≤ 128 := by
  obtain ⟨new, htok, hstream, hpos, hlen⟩ := tokenLoop_eq_some 128 h
  subst htok
  exact ⟨hstream, hpos (by decide), hlen⟩

theorem nextToken_delimiter {b : Byte} (h : charIsDelimiter b = true) (rest : List Byte) :
    nextToken (b :: rest) = some ([b], rest) := by
  rw [nextToken, tokenLoop, if_pos h, if_neg (by decide), List.nil_append]

theorem length_copied (tok : List Byte) : (copied tok).length = tok.length := by
  have hle := (List.takeWhile_prefix (l := tok) (· ≠ 0)).length_le
  rw [copied, List.length_append, List.length_replicate]
  omega

theorem length_flatMap_copied (toks : List (List Byte)) :
    (toks.flatMap copied).length = toks.flatten.length := by
  induction toks with
  | nil => rfl
  | cons tok toks ih =>
    rw [List.flatMap_cons, List.flatten_cons, List.length_append, List.length_append, ih,
      length_copied]

theorem forall₂_copied (tok : List Byte) :
    List.Forall₂ (fun x y => x = y ∨ x = 0) (copied tok) tok := by
  have hsplit := List.takeWhile_append_dropWhile (p := (· ≠ 0)) (l := tok)
  have hlen : tok.length - (tok.takeWhile (· ≠ 0)).length = (tok.dropWhile (· ≠ 0)).length := by
    have hsum := congrArg List.length hsplit
    rw [List.length_append] at hsum
    omega
  rw [copied, hlen]
  conv => arg 3; rw [← hsplit]
  refine List.rel_append ?_ ?_
  · exact List.forall₂_same.mpr fun _ _ => Or.inl rfl
  · generalize tok.dropWhile (· ≠ 0) = tail
    induction tail with
    | nil => exact List.Forall₂.nil
    | cons b tail ih => exact List.Forall₂.cons (Or.inr rfl) ih

end Tokens

/-! ### Sequences of the stream -/

/-- How a sequence of tokens ends: with the delimiter, with a full buffer, with a token that ends
behind the buffer, or with the stream. -/
inductive SequenceEnd where
  | found (toks : List (List Byte))
  | full (toks : List (List Byte))
  | overflow (stop : ℕ)
  | noData

def SequenceEnd.after (tok : List Byte) : SequenceEnd → SequenceEnd
  | .found toks => .found (tok :: toks)
  | .full toks => .full (tok :: toks)
  | .overflow stop => .overflow stop
  | .noData => .noData

/-- The end of a sequence, with the bytes before and the stream from here on. -/
inductive SequenceEnds (ends : List Byte → Bool) : List Byte → List Byte → SequenceEnd → Prop
  | full {buf stream : List Byte} (hroom : ¬buf.length < 2048) :
    SequenceEnds ends buf stream (.full [])
  | noData {buf stream : List Byte} (hroom : buf.length < 2048) (hnext : nextToken stream = none) :
    SequenceEnds ends buf stream .noData
  | overflow {buf stream tok rest : List Byte} (hroom : buf.length < 2048)
    (hnext : nextToken stream = some (tok, rest)) (hstop : ¬buf.length + tok.length ≤ 2048) :
    SequenceEnds ends buf stream (.overflow (buf.length + tok.length))
  | found {buf stream tok rest : List Byte} (hroom : buf.length < 2048)
    (hnext : nextToken stream = some (tok, rest)) (hstop : buf.length + tok.length ≤ 2048)
    (hends : ends (buf ++ copied tok) = true) : SequenceEnds ends buf stream (.found [tok])
  | more {buf stream tok rest : List Byte} {e : SequenceEnd} (hroom : buf.length < 2048)
    (hnext : nextToken stream = some (tok, rest)) (hstop : buf.length + tok.length ≤ 2048)
    (hends : ends (buf ++ copied tok) = false)
    (hmore : SequenceEnds ends (buf ++ copied tok) rest e) :
    SequenceEnds ends buf stream (e.after tok)

section Sequences

variable {ends : List Byte → Bool}

/-- The end of a sequence, computed. -/
def sequenceEnd (ends : List Byte → Bool) : ℕ → List Byte → List Byte → SequenceEnd
  | 0, _, _ => .full []
  | fuel + 1, buf, stream =>
    if buf.length < 2048 then
      match nextToken stream with
      | none => .noData
      | some (tok, rest) =>
        if buf.length + tok.length ≤ 2048 then
          if ends (buf ++ copied tok) then .found [tok]
          else (sequenceEnd ends fuel (buf ++ copied tok) rest).after tok
        else .overflow (buf.length + tok.length)
    else .full []

theorem sequenceEnd_spec (ends : List Byte → Bool) (fuel : ℕ) : ∀ buf stream : List Byte,
    2048 ≤ buf.length + fuel → SequenceEnds ends buf stream (sequenceEnd ends fuel buf stream) := by
  induction fuel with
  | zero => exact fun buf stream hfuel => .full (by omega)
  | succ fuel ih =>
    intro buf stream hfuel
    rw [sequenceEnd]
    split
    · rename_i hroom
      split
      · rename_i hnext
        exact .noData hroom hnext
      · rename_i tok rest hnext
        split
        · rename_i hstop
          obtain ⟨-, hpos, -⟩ := nextToken_eq_some hnext
          split
          · rename_i hends
            exact .found hroom hnext hstop hends
          · rename_i hends
            refine .more hroom hnext hstop (Bool.eq_false_iff.mpr hends) (ih _ rest ?_)
            rw [List.length_append, length_copied]
            omega
        · rename_i hstop
          exact .overflow hroom hnext hstop
    · rename_i hroom
      exact .full hroom

variable {buf stream : List Byte} {e : SequenceEnd} {a : Access} {s : Lexer}

theorem SequenceEnds.unique (h : SequenceEnds ends buf stream e) :
    ∀ {e' : SequenceEnd}, SequenceEnds ends buf stream e' → e = e' := by
  induction h with
  | full hroom => exact fun h' => by cases h' <;> grind
  | noData hroom hnext => exact fun h' => by cases h' <;> grind
  | overflow hroom hnext hstop => exact fun h' => by cases h' <;> grind
  | found hroom hnext hstop hends => exact fun h' => by cases h' <;> grind
  | more hroom hnext hstop hends _ ih =>
    intro e' h'
    cases h' with
    | more _ hnext' _ _ hmore' =>
      rw [hnext] at hnext'
      cases hnext'
      rw [ih hmore']
    | full | noData | overflow | found => grind

/-- The lexer behind tokens that lie ahead. -/
def Lexer.afterTokens (s : Lexer) (toks : List (List Byte)) : Lexer :=
  toks.foldl Lexer.afterToken s

/-- An entry that corrupts nothing. -/
def Entry.Good : Entry → Prop
  | .access a => a.Ok
  | .call _ _ => True

theorem access_ends (h : a.Ok) : Ends Fine s (access a) (.ok () s) := by
  refine ⟨?_, ?_⟩
  · show (if a.Ok then Outcome.ok () s else _) = _
    rw [if_pos h]
  · show ∀ e ∈ [Entry.access a], Fine e
    rw [List.forall_mem_singleton]
    exact h

theorem access_bad {α : Type} (h : ¬a.Ok) (f : Unit → Parse α) :
    ((access a >>= f) s).outcome = .stop (.badAccess a) ∧
      ∃ e ∈ ((access a >>= f) s).trace, ¬e.Good := by
  have hstop : (access a s).outcome = .stop (.badAccess a) := if_neg h
  rw [Program.bind_of_stop hstop]
  exact ⟨rfl, .access a, List.mem_singleton.mpr rfl, h⟩

/-- What a sequence reader does on a sequence that ends so. -/
def RunsTo (s : Lexer) (m : Parse (Bool × List Byte)) (buf : List Byte) : SequenceEnd → Prop
  | .found toks => s.Reads toks.flatten (s.afterTokens toks) ∧
      Ends Fine s m (.ok (true, buf ++ toks.flatMap copied) (s.afterTokens toks))
  | .full toks => s.Reads toks.flatten (s.afterTokens toks) ∧
      Ends Fine s m (.ok (false, buf ++ toks.flatMap copied) (s.afterTokens toks))
  | .overflow stop => (m s).outcome = .stop (.badAccess (.write stop 2048)) ∧
      ∃ e ∈ (m s).trace, ¬e.Good
  | .noData => Ends Fine s m (.stop .noStreamData)

theorem RunsTo.after {m m' : Parse (Bool × List Byte)} {buf tok : List Byte}
    (hreads : s.Reads tok (s.afterToken tok)) (hm : Continues Fine s m (s.afterToken tok) m')
    (h : RunsTo (s.afterToken tok) m' (buf ++ copied tok) e) : RunsTo s m buf (e.after tok) := by
  cases e with
  | found toks =>
    obtain ⟨hmore, hends⟩ := h
    refine ⟨hreads.trans hmore, ?_⟩
    rw [List.flatMap_cons, ← List.append_assoc]
    exact hm.ends hends
  | full toks =>
    obtain ⟨hmore, hends⟩ := h
    refine ⟨hreads.trans hmore, ?_⟩
    rw [List.flatMap_cons, ← List.append_assoc]
    exact hm.ends hends
  | overflow stop =>
    obtain ⟨hstop, bad, hbad, hnot⟩ := h
    exact ⟨hm.outcome_eq.trans hstop, bad, hm.mem_trace hbad, hnot⟩
  | noData => exact hm.ends h

section

variable (h : SequenceEnds ends buf stream e)

include h

/-- **The loop follows the sequence of the stream (proved).** -/
theorem sequenceLoop_spec : ∀ (fuel : ℕ) {s : Lexer}, s.Valid →
      s.unread = stream → 2048 ≤ buf.length + fuel →
        RunsTo s (sequenceLoop ends fuel buf) buf e := by
  induction h with
  | @full buf stream hroom =>
    intro fuel s hs _ _
    have hpure : sequenceLoop ends fuel buf = pure (false, buf) := by
      cases fuel with
      | zero => rfl
      | succ fuel => rw [sequenceLoop, if_neg hroom]
    refine ⟨Lexer.Reads.refl hs, ?_⟩
    rw [hpure, List.flatMap_nil, List.append_nil]
    exact Ends.pure
  | @noData buf stream hroom hnext =>
    intro fuel s hs hstream hfuel
    obtain ⟨fuel, rfl⟩ := Nat.exists_eq_succ_of_ne_zero (n := fuel) (by omega)
    subst hstream
    show Ends Fine s (sequenceLoop ends (fuel + 1) buf) _
    rw [sequenceLoop, if_pos hroom]
    exact Ends.bind_stop ((gettok_spec hs).1 hnext)
  | @overflow buf stream tok rest hroom hnext hstop =>
    intro fuel s hs hstream hfuel
    obtain ⟨fuel, rfl⟩ := Nat.exists_eq_succ_of_ne_zero (n := fuel) (by omega)
    subst hstream
    obtain ⟨-, -, hends⟩ := (gettok_spec hs).2 tok rest hnext
    have hbad := access_bad (s := s.afterToken tok)
      (a := .write (buf.length + tok.length) 2048) hstop fun _ =>
        if ends (buf ++ copied tok) then pure (true, buf ++ copied tok)
        else sequenceLoop ends fuel (buf ++ copied tok)
    obtain ⟨houtcome, bad, hmem, hnot⟩ := hbad
    rw [sequenceLoop, if_pos hroom]
    have hround := hends.continues (f := fun tok =>
      access (.write (buf.length + tok.length) 2048) >>= fun _ =>
        if ends (buf ++ copied tok) then pure (true, buf ++ copied tok)
        else sequenceLoop ends fuel (buf ++ copied tok)) rfl
    exact ⟨hround.outcome_eq.trans houtcome, bad, hround.mem_trace hmem, hnot⟩
  | @found buf stream tok rest hroom hnext hstop hends =>
    intro fuel s hs hstream hfuel
    obtain ⟨fuel, rfl⟩ := Nat.exists_eq_succ_of_ne_zero (n := fuel) (by omega)
    subst hstream
    obtain ⟨hreads, -, hgettok⟩ := (gettok_spec hs).2 tok rest hnext
    rw [sequenceLoop, if_pos hroom]
    refine ⟨?_, Ends.bind hgettok (Ends.bind (access_ends hstop) ?_)⟩
    · rw [List.flatten_cons, List.flatten_nil, List.append_nil]
      exact hreads
    · dsimp only
      rw [hends, if_pos rfl, List.flatMap_cons, List.flatMap_nil, List.append_nil]
      exact Ends.pure
  | @more buf stream tok rest e hroom hnext hstop hends _ ih =>
    intro fuel s hs hstream hfuel
    obtain ⟨fuel, rfl⟩ := Nat.exists_eq_succ_of_ne_zero (n := fuel) (by omega)
    subst hstream
    obtain ⟨hreads, hrest, hgettok⟩ := (gettok_spec hs).2 tok rest hnext
    obtain ⟨-, hpos, -⟩ := nextToken_eq_some hnext
    have hmore := ih fuel hreads.valid hrest (by
      rw [List.length_append, length_copied]
      omega)
    rw [sequenceLoop, if_pos hroom]
    have hwrite : (Access.write (buf.length + tok.length) 2048).Ok := hstop
    refine RunsTo.after hreads ((hgettok.continues rfl).trans
      ((access_ends hwrite).continues ?_)) hmore
    dsimp only
    rw [hends, if_neg Bool.false_ne_true]

theorem SequenceEnds.of_found :
    ∀ {toks : List (List Byte)}, e = .found toks →
      ends (buf ++ toks.flatMap copied) = true ∧ buf.length + toks.flatten.length ≤ 2048 ∧
        0 < toks.flatten.length := by
  induction h with
  | full | noData | overflow => exact fun heq => by cases heq
  | @found buf stream tok rest hroom hnext hstop hends =>
    intro toks heq
    cases heq
    rw [List.flatMap_cons, List.flatMap_nil, List.append_nil, List.flatten_cons, List.flatten_nil,
      List.append_nil]
    exact ⟨hends, hstop, (nextToken_eq_some hnext).2.1⟩
  | @more buf stream tok rest e hroom hnext hstop hends _ ih =>
    intro toks heq
    cases e with
    | full | overflow | noData => cases heq
    | found toks' =>
      cases heq
      obtain ⟨htrue, hlen, hpos⟩ := ih rfl
      rw [List.length_append, length_copied] at hlen
      rw [List.flatMap_cons, ← List.append_assoc, List.flatten_cons, List.length_append]
      exact ⟨htrue, by omega, by omega⟩

theorem SequenceEnds.of_full :
    ∀ {toks : List (List Byte)}, e = .full toks → ¬(buf ++ toks.flatMap copied).length < 2048 := by
  induction h with
  | noData | overflow | found => exact fun heq => by cases heq
  | full hroom =>
    intro toks heq
    cases heq
    rw [List.flatMap_nil, List.append_nil]
    exact hroom
  | @more buf stream tok rest e hroom hnext hstop hends _ ih =>
    intro toks heq
    cases e with
    | found | overflow | noData => cases heq
    | full toks' =>
      cases heq
      rw [List.flatMap_cons, ← List.append_assoc]
      exact ih rfl

end

end Sequences

/-! ### Giving bytes back -/

def Lexer.rewound (s : Lexer) (count : ℕ) : Lexer := { s with readOff := s.readOff - count }

section Rewind

variable {s t : Lexer}

/-- **Bytes of the current chunk can be given back (proved).** -/
theorem Lexer.Reads.rewind {front back : List Byte} (h : s.Reads (front ++ back) t)
    (hoff : back.length ≤ t.readOff) : s.Reads front (t.rewound back.length) := by
  have hle := h.valid.off_le
  have hsize := h.valid.size_le
  have hlen : t.consumed.length = t.readOff := by
    rw [Lexer.consumed, List.length_take]
    omega
  -- the bytes to give back are the last ones before `read_off`
  have hsuffix : t.consumed <:+ (s.consumed ++ front) ++ back := by
    rw [List.append_assoc]
    exact h.consumed_suffix
  obtain ⟨kept, hkept⟩ := List.suffix_of_suffix_length_le (List.suffix_append _ back) hsuffix
    (by rw [hlen]; exact hoff)
  have hkept_len : kept.length = t.readOff - back.length := by
    have hsum := congrArg List.length hkept
    rw [List.length_append] at hsum
    omega
  have hstarts : t.currentChunk.take (t.readOff - back.length) = kept := by
    have htake : t.currentChunk.take (t.readOff - back.length) =
        t.consumed.take (t.readOff - back.length) := by
      rw [Lexer.consumed, List.take_take, Nat.min_eq_left (Nat.sub_le _ _)]
    rw [htake, ← hkept, ← hkept_len, List.take_left']
    rfl
  refine ⟨⟨(Nat.sub_le _ _).trans hle, hsize⟩, ?_, ?_, h.contentLength_eq, h.tagStack_eq, h.path_eq,
    ?_⟩
  · have hchunk : (t.currentChunk.take t.currentChunkSize).drop (t.readOff - back.length) =
        back ++ (t.currentChunk.take t.currentChunkSize).drop t.readOff := by
      have hsplit : t.currentChunk.take t.currentChunkSize =
          kept ++ (back ++ (t.currentChunk.take t.currentChunkSize).drop t.readOff) := by
        rw [← List.append_assoc, hkept, Lexer.consumed]
        nth_rewrite 1 [← List.take_append_drop t.readOff (t.currentChunk.take t.currentChunkSize)]
        rw [List.take_take, Nat.min_eq_left hle]
      nth_rewrite 1 [hsplit]
      exact List.drop_left' hkept_len
    rw [h.unread_eq, List.append_assoc]
    show _ = front ++ ((t.currentChunk.take t.currentChunkSize).drop (t.readOff - back.length) ++ _)
    rw [hchunk, List.append_assoc]
    rfl
  · show t.currentChunk.take (t.readOff - back.length) <:+ s.consumed ++ front
    rw [hstarts]
    rw [← hkept] at hsuffix
    exact List.suffix_append_self_iff.mp hsuffix
  · have hpos := h.position_eq
    show (t.previouslyReadByteCount + (t.readOff - back.length)) % 2 ^ 32 = _
    unfold Lexer.position at hpos ⊢
    rw [List.length_append] at hpos
    omega

variable {ends : List Byte → Bool} {delimLen rewound : ℕ}

variable {toks : List (List Byte)}

theorem readSequence_found (hs : s.Valid) (h : SequenceEnds ends [] s.unread (.found toks))
    (hdelim : 0 < delimLen) (hoff : rewound ≤ (s.afterTokens toks).readOff) :
    Ends Fine s (readSequence ends delimLen rewound)
      (.ok ((toks.flatMap copied).take ((toks.flatMap copied).length - delimLen))
        ((s.afterTokens toks).rewound rewound)) := by
  obtain ⟨-, hloop⟩ := sequenceLoop_spec h 2048 hs rfl (by decide)
  obtain ⟨-, hlen, hpos⟩ := h.of_found rfl
  rw [List.nil_append] at hloop
  refine Ends.bind hloop ?_
  dsimp only
  rw [if_pos rfl, if_pos (by
    rw [List.length_take, length_flatMap_copied]
    omega)]
  have haccess : (Access.rewind rewound (s.afterTokens toks).readOff).Ok := hoff
  have hrewind : Ends Fine (s.afterTokens toks) (rewind rewound)
      (.ok () ((s.afterTokens toks).rewound rewound)) :=
    Ends.bind Ends.read (Ends.bind (access_ends haccess) Ends.modify)
  exact Ends.bind hrewind Ends.pure

/-- The delimiter ends in one chunk, and the bytes to give back lie in the one before. -/
theorem readSequence_found_bad (hs : s.Valid) (h : SequenceEnds ends [] s.unread (.found toks))
    (hdelim : 0 < delimLen) (hoff : ¬rewound ≤ (s.afterTokens toks).readOff) :
    (readSequence ends delimLen rewound s).outcome =
        .stop (.badAccess (.rewind rewound (s.afterTokens toks).readOff)) ∧
      ∃ e ∈ (readSequence ends delimLen rewound s).trace, ¬e.Good := by
  obtain ⟨-, hloop⟩ := sequenceLoop_spec h 2048 hs rfl (by decide)
  obtain ⟨-, hlen, hpos⟩ := h.of_found rfl
  rw [List.nil_append] at hloop
  have hstop : ¬(Access.rewind rewound (s.afterTokens toks).readOff).Ok := hoff
  have hrewind : Ends (fun _ => True) (s.afterTokens toks) (rewind rewound)
      (.stop (.badAccess (.rewind rewound (s.afterTokens toks).readOff))) :=
    Ends.bind Ends.read ⟨(access_bad hstop _).1, fun _ _ => trivial⟩
  obtain ⟨bad, hbad, hnot⟩ := (access_bad hstop fun _ => Program.modify fun s : Lexer =>
    { s with readOff := s.readOff - rewound }).2
  have hround : Continues Fine s (readSequence ends delimLen rewound) (s.afterTokens toks)
      (rewind rewound >>= fun _ =>
        pure ((toks.flatMap copied).take ((toks.flatMap copied).length - delimLen))) := by
    refine hloop.continues ?_
    dsimp only
    rw [if_pos rfl, if_pos (by
      rw [List.length_take, length_flatMap_copied]
      omega)]
  have hmem : bad ∈ (rewind rewound (s.afterTokens toks)).trace := hbad
  exact ⟨hround.outcome_eq.trans (Ends.bind_stop hrewind).outcome_eq, bad,
    hround.mem_trace (Program.mem_trace_bind hmem), hnot⟩

theorem readSequence_full (delimLen rewound : ℕ) (hs : s.Valid)
    (h : SequenceEnds ends [] s.unread (.full toks)) :
    Ends Fine s (readSequence ends delimLen rewound) (.stop .exceededReadBuffer) := by
  obtain ⟨-, hloop⟩ := sequenceLoop_spec h 2048 hs rfl (by decide)
  refine Ends.bind hloop ?_
  dsimp only
  rw [if_neg Bool.false_ne_true, if_neg (h.of_full rfl)]
  exact Ends.stop

theorem readSequence_noData (delimLen rewound : ℕ) (hs : s.Valid)
    (h : SequenceEnds ends [] s.unread .noData) :
    Ends Fine s (readSequence ends delimLen rewound) (.stop .noStreamData) :=
  Ends.bind_stop (sequenceLoop_spec h 2048 hs rfl (by decide))

theorem readSequence_overflow (delimLen rewound : ℕ) {stop : ℕ} (hs : s.Valid)
    (h : SequenceEnds ends [] s.unread (.overflow stop)) :
    (readSequence ends delimLen rewound s).outcome = .stop (.badAccess (.write stop 2048)) ∧
      ∃ e ∈ (readSequence ends delimLen rewound s).trace, ¬e.Good := by
  obtain ⟨hstop, bad, hbad, hnot⟩ := sequenceLoop_spec h 2048 hs rfl (by decide)
  have hloop : Ends (fun _ => True) s (sequenceLoop ends 2048 [])
      (.stop (.badAccess (.write stop 2048))) := ⟨hstop, fun _ _ => trivial⟩
  exact ⟨(Ends.bind_stop hloop).outcome_eq, bad,
    Program.mem_trace_bind hbad, hnot⟩

end Rewind

/-! ### What the lookahead sees -/

/-- The comparison of `strncmpChunk`. -/
def chunkHas (chunk : List Byte) : ℕ → List Byte → Bool
  | _, [] => true
  | index, e :: expected => chunk.getD index 0 = e && chunkHas chunk (index + 1) expected

section LookAhead

variable {s : Lexer}

theorem strncmpChunk_outcome (s : Lexer) (expected : List Byte) : ∀ index,
    (strncmpChunk index expected s).outcome = .ok (chunkHas s.currentChunk index expected) s := by
  induction expected with
  | nil => exact fun _ => rfl
  | cons e expected ih =>
    intro index
    rw [strncmpChunk, Program.bind_of_ok (a := s.currentChunk.getD index 0) (t := s) rfl, chunkHas]
    by_cases hsame : s.currentChunk.getD index 0 = e
    · rw [if_pos hsame, decide_eq_true hsame, Bool.true_and]
      exact ih (index + 1)
    · rw [if_neg hsame, decide_eq_false hsame, Bool.false_and]
      rfl

/-- The part of the current chunk from `index` on. -/
def Lexer.chunkFrom (s : Lexer) (index : ℕ) : List Byte :=
  (s.currentChunk.take s.currentChunkSize).drop index

/-- **The comparison leaves the chunk where the chunk ends inside of the text (proved).** -/
theorem strncmpChunk_entries (hs : s.currentChunkSize ≤ s.currentChunk.length)
    (expected : List Byte) : ∀ index, index ≤ s.currentChunkSize →
      (¬(s.chunkFrom index <+: expected ∧ s.chunkFrom index ≠ expected) →
        ∀ e ∈ (strncmpChunk index expected s).trace, Fine e) ∧
      (s.chunkFrom index <+: expected ∧ s.chunkFrom index ≠ expected →
        ∃ e ∈ (strncmpChunk index expected s).trace, ¬e.Good) := by
  induction expected with
  | nil =>
    intro index _
    refine ⟨fun _ e he => absurd he List.not_mem_nil, fun hbad => ?_⟩
    exact absurd (List.prefix_nil.mp hbad.1) hbad.2
  | cons e expected ih =>
    intro index hindex
    rw [strncmpChunk, Program.bind_of_ok (a := s.currentChunk.getD index 0) (t := s) rfl]
    by_cases hlt : index < s.currentChunkSize
    · have hfrom : s.chunkFrom index = s.currentChunk.getD index 0 :: s.chunkFrom (index + 1) := by
        rw [Lexer.chunkFrom, List.drop_eq_getElem_cons (by rw [List.length_take]; omega),
          List.getElem_take, List.getD_eq_getElem?_getD, List.getElem?_eq_getElem (by omega)]
        rfl
      have hfine : ∀ x ∈ [Entry.access (.read index s.currentChunkSize)], Fine x := by
        rw [List.forall_mem_singleton]
        exact hlt
      obtain ⟨hok, hbad⟩ := ih (index + 1) hlt
      rw [hfrom, List.cons_prefix_cons, ne_eq, List.cons.injEq]
      by_cases hsame : s.currentChunk.getD index 0 = e
      · rw [if_pos hsame]
        refine ⟨fun h => ?_, fun h => ?_⟩
        · refine List.forall_mem_append.mpr ⟨hfine, hok fun hstarts => h ⟨⟨hsame, hstarts.1⟩, ?_⟩⟩
          exact fun heq => hstarts.2 heq.2
        · obtain ⟨x, hx, hnot⟩ := hbad ⟨h.1.2, fun heq => h.2 ⟨hsame, heq⟩⟩
          exact ⟨x, List.mem_append_right _ hx, hnot⟩
      · rw [if_neg hsame]
        refine ⟨fun _ => List.forall_mem_append.mpr ⟨hfine, ?_⟩, fun h => absurd h.1.1 hsame⟩
        exact fun x hx => absurd hx List.not_mem_nil
    · have hfrom : s.chunkFrom index = [] := by
        refine List.drop_eq_nil_of_le ?_
        rw [List.length_take]
        omega
      have hproper : s.chunkFrom index <+: e :: expected ∧ s.chunkFrom index ≠ e :: expected := by
        rw [hfrom]
        exact ⟨List.nil_prefix, (List.cons_ne_nil e expected).symm⟩
      refine ⟨fun h => absurd hproper h, fun _ => ?_⟩
      refine ⟨.access (.read index s.currentChunkSize), ?_, hlt⟩
      exact List.mem_append_left _ (List.mem_singleton.mpr rfl)

variable {expected : List Byte} {index : ℕ}

theorem strncmpChunk_ends (hs : s.currentChunkSize ≤ s.currentChunk.length)
    (hindex : index ≤ s.currentChunkSize)
    (h : ¬(s.chunkFrom index <+: expected ∧ s.chunkFrom index ≠ expected)) :
    Ends Fine s (strncmpChunk index expected) (.ok (chunkHas s.currentChunk index expected) s) :=
  ⟨strncmpChunk_outcome s expected index, (strncmpChunk_entries hs expected index hindex).1 h⟩

/-- A chunk with room for the text does not end inside of it. -/
theorem not_prefix_of_le (hs : s.currentChunkSize ≤ s.currentChunk.length)
    (h : index + expected.length ≤ s.currentChunkSize) :
    ¬(s.chunkFrom index <+: expected ∧ s.chunkFrom index ≠ expected) := by
  rintro ⟨hstarts, hne⟩
  refine hne (hstarts.eq_of_length_le ?_)
  rw [Lexer.chunkFrom, List.length_drop, List.length_take]
  omega

theorem lookAhead_inside (hs : s.Valid) (h : s.readOff + expected.length ≤ s.currentChunkSize) :
    Ends Fine s (lookAhead expected) (.ok (chunkHas s.currentChunk s.readOff expected) s) := by
  refine Ends.bind Ends.read ?_
  rw [if_neg (by omega)]
  exact strncmpChunk_ends hs.size_le hs.off_le (not_prefix_of_le hs.size_le h)

/-- Some bytes of the text are in the chunk: where they match, the program stops. -/
theorem lookAhead_short (hs : s.Valid) (hlt : s.readOff < s.currentChunkSize)
    (h : s.currentChunkSize < s.readOff + expected.length) : Ends Fine s (lookAhead expected)
      (if chunkHas s.currentChunk s.readOff (expected.take (s.currentChunkSize - s.readOff))
        then .stop .bufferedData else .ok false s) := by
  refine Ends.bind Ends.read ?_
  rw [if_pos h]
  refine Ends.bind (strncmpChunk_ends hs.size_le hs.off_le (not_prefix_of_le hs.size_le ?_)) ?_
  · rw [List.length_take]
    omega
  · cases chunkHas s.currentChunk s.readOff (expected.take (s.currentChunkSize - s.readOff)) with
    | true => exact Ends.bind_stop (fetch_ends_buffered hlt)
    | false => exact Ends.pure

theorem lookAhead_noData (hpos : 0 < expected.length) (hend : s.readOff = s.currentChunkSize)
    (hcoming : s.coming = []) : Ends Fine s (lookAhead expected) (.stop .noStreamData) := by
  refine Ends.bind Ends.read ?_
  rw [if_pos (by omega)]
  dsimp only
  rw [hend, Nat.sub_self, List.take_zero]
  exact Ends.bind Ends.pure (Ends.bind_stop (fetch_ends_stop (by omega) hcoming))

/-- At the end of a chunk, the text is compared with the next one. -/
theorem lookAhead_fetch {c : Chunk} {coming : List Chunk} (hpos : 0 < expected.length)
    (hend : s.readOff = s.currentChunkSize) (hcoming : s.coming = c :: coming) :
    Continues Fine s (lookAhead expected) (s.fetched c coming) (strncmpChunk 0 expected) := by
  refine (Ends.read.continues rfl).trans ?_
  rw [if_pos (by omega)]
  dsimp only
  rw [hend, Nat.sub_self, List.take_zero, List.drop_zero]
  exact ((fetch_ends (by omega) hcoming).continues rfl).trans (Ends.read.continues rfl)

end LookAhead

/-! ### What is matched -/

section Match

variable {s : Lexer}

variable {rest tok expected : List Byte} {d : Byte}

theorem matchLoop_token (expected buf : List Byte) (fuel : ℕ) (hs : s.Valid)
    (hbuf : buf.length ≤ 128) (hnext : nextToken s.unread = some (tok, rest)) :
    Continues Fine s (matchLoop expected (fuel + 1) buf) (s.afterToken tok)
      (if (buf ++ copied tok).length ≥ expected.length
        then pure ((buf ++ copied tok).take expected.length = expected)
        else matchLoop expected fuel (buf ++ copied tok)) := by
  obtain ⟨-, -, hgettok⟩ := (gettok_spec hs).2 tok rest hnext
  obtain ⟨-, -, hlen⟩ := nextToken_eq_some hnext
  have hwrite : (Access.write (buf.length + tok.length) 256).Ok := by
    show buf.length + tok.length ≤ 256
    omega
  rw [matchLoop, if_pos (by omega)]
  exact (hgettok.continues rfl).trans ((access_ends hwrite).continues rfl)

/-- **The match buffer never overflows (proved).** -/
theorem matchLoop_ends (hexpected : expected.length ≤ 128) (fuel : ℕ) :
    ∀ (buf : List Byte) (s : Lexer), s.Valid → buf.length < expected.length →
      Ends Fine s (matchLoop expected fuel buf) (.stop .noStreamData) ∨
        ∃ ok bytes t, Ends Fine s (matchLoop expected fuel buf) (.ok ok t) ∧
          s.Reads bytes t ∧ (0 < fuel → 0 < bytes.length) := by
  induction fuel with
  | zero =>
    intro buf s hs _
    exact Or.inr ⟨false, [], s, Ends.pure, Lexer.Reads.refl hs, fun h => absurd h (lt_irrefl 0)⟩
  | succ fuel ih =>
    intro buf s hs hbuf
    cases hnext : nextToken s.unread with
    | none =>
      rw [matchLoop, if_pos (by omega)]
      exact Or.inl (Ends.bind_stop ((gettok_spec hs).1 hnext))
    | some p =>
      obtain ⟨tok, rest⟩ := p
      have hround := matchLoop_token expected buf fuel hs (by omega) hnext
      obtain ⟨hreads, -, -⟩ := (gettok_spec hs).2 tok rest hnext
      obtain ⟨-, hpos, -⟩ := nextToken_eq_some hnext
      by_cases henough : (buf ++ copied tok).length ≥ expected.length
      · rw [if_pos henough] at hround
        exact Or.inr ⟨_, tok, s.afterToken tok, hround.ends Ends.pure, hreads, fun _ => hpos⟩
      · rw [if_neg henough] at hround
        rcases ih _ _ hreads.valid (not_le.mp henough) with hstop | ⟨ok, bytes, t, hends, hmore, -⟩
        · exact Or.inl (hround.ends hstop)
        · refine Or.inr ⟨ok, tok ++ bytes, t, hround.ends hends, hreads.trans hmore, fun _ => ?_⟩
          rw [List.length_append]
          omega

/-- **What `_match` consumes (proved).** -/
theorem matchText_ends (hpos : 0 < expected.length) (hexpected : expected.length ≤ 128)
    (hs : s.Valid) :
    Ends Fine s (matchText expected) (.stop .noStreamData) ∨
      ∃ ok bytes t, Ends Fine s (matchText expected) (.ok ok t) ∧ s.Reads bytes t ∧
        0 < bytes.length := by
  rcases matchLoop_ends hexpected 256 [] s hs hpos with hstop | ⟨ok, bytes, t, hends, hreads, hlen⟩
  · exact Or.inl hstop
  · exact Or.inr ⟨ok, bytes, t, hends, hreads, hlen (by decide)⟩

/-- The first byte of a token survives unless it is zero. -/
theorem take_one_copied (hd : d ≠ 0) (hpos : 0 < tok.length) :
    (copied tok).take 1 = [d] ↔ tok.head? = some d := by
  cases tok with
  | nil => exact absurd hpos (lt_irrefl 0)
  | cons b tok =>
    by_cases hb : b = 0
    · subst hb
      refine iff_of_false (fun h => ?_) fun h => hd (Option.some.inj h).symm
      exact hd (List.head_eq_of_cons_eq h).symm
    · have hfirst : (b :: tok).takeWhile (· ≠ 0) = b :: tok.takeWhile (· ≠ 0) :=
        List.takeWhile_cons_of_pos (decide_eq_true hb)
      rw [copied, hfirst, List.cons_append, List.head?_cons, List.take_succ_cons, List.take_zero]
      simp

/-- One byte is matched with the first byte of the next token. -/
theorem matchText_singleton (hs : s.Valid) (hd : d ≠ 0)
    (hnext : nextToken s.unread = some (tok, rest)) :
    Ends Fine s (matchText [d]) (.ok (decide (tok.head? = some d)) (s.afterToken tok)) := by
  obtain ⟨-, hpos, -⟩ := nextToken_eq_some hnext
  have hround := matchLoop_token [d] [] 255 hs (by decide) hnext
  rw [List.nil_append, if_pos (by rw [length_copied]; exact hpos)] at hround
  refine hround.ends ?_
  rw [List.length_singleton, decide_eq_decide.mpr (take_one_copied hd hpos)]
  exact Ends.pure

end Match

end Axle.Netclient.Html
