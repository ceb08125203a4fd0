import Axle.Netclient.HtmlParser

/-!
# One page, cut into chunks in two ways

The server sends a stream of bytes, and the network cuts it into chunks.  The page should be the
same for every cut.  The lexer has one buffer for one chunk, so it depends on the cut wherever it
looks ahead, gives bytes back, or takes a place in the chunk for a place in the stream.

* `lookAhead_outcome` — **PROVED**: away from the end of a chunk, the lookahead sees the stream;
* `respond_result_eq` — **PROVED**: two runs on the same stream whose calls are all safe have the
  same result.
-/

namespace Axle.Netclient.Html

open Axle.Lib.Traced

/-- The same stream ahead, and the same page so far. -/
structure Lexer.Alike (s t : Lexer) : Prop where
  valid : s.Valid
  valid' : t.Valid
  unread_eq : s.unread = t.unread
  contentLength_eq : s.contentLength = t.contentLength
  tagStack_eq : s.tagStack = t.tagStack
  path_eq : s.path = t.path
  position_eq : s.position = t.position

/-- The comparison of a text with what lies ahead stays in the chunk, or it sees what the stream
says. -/
structure LookAheadSafe (expected : List Byte) (s : Lexer) : Prop where
  whole : s.readOff < s.currentChunkSize → s.currentChunkSize < s.readOff + expected.length →
    ¬s.chunkFrom s.readOff <+: expected
  next : s.readOff = s.currentChunkSize → ∀ c coming, s.coming = c :: coming →
    (chunkHas (s.fetched c coming).currentChunk 0 expected = true ↔ expected <+: s.unread)

/-- The bytes to give back lie in the chunk in which the sequence ends. -/
def StaysInChunk (ends : List Byte → Bool) (rewound : ℕ) (s : Lexer) : Prop :=
  ∀ toks, SequenceEnds ends [] s.unread (.found toks) → rewound ≤ (s.afterTokens toks).readOff

/-- Where the end of the chunk must not lie before a call.  A document starts in the first chunk. -/
def Call.ChunkSafe (s : Lexer) : Call → Prop
  | .sequence delim consumeDelim =>
    StaysInChunk (fun buf => strEndsWith buf delim) (if consumeDelim then 0 else delim.length) s
  | .sequenceAny delims => StaysInChunk (fun buf => delims.any fun d => strEndsWith buf [d]) 1 s
  | .checkStream expected => LookAheadSafe expected s
  | .bodyStart => s.previouslyReadByteCount = 0
  | .processTag => True
  | .popTag => True
  | .lastChar => True

def Entry.ChunkSafe : Entry → Prop
  | .access _ => True
  | .call c s => c.ChunkSafe s

/-- Whether the bytes to give back stay in the chunk can be computed. -/
theorem staysInChunk_iff (ends : List Byte → Bool) (rewound : ℕ) (s : Lexer) :
    StaysInChunk ends rewound s ↔ ∀ toks, sequenceEnd ends 2048 [] s.unread = .found toks →
      rewound ≤ (s.afterTokens toks).readOff := by
  have he := sequenceEnd_spec ends 2048 [] s.unread (by decide)
  refine ⟨fun h toks heq => h toks ?_, fun h toks htoks => h toks (he.unique htoks)⟩
  rw [← heq]
  exact he

instance (ends : List Byte → Bool) (rewound : ℕ) (s : Lexer) :
    Decidable (StaysInChunk ends rewound s) :=
  match h : sequenceEnd ends 2048 [] s.unread with
  | .found toks =>
    decidable_of_iff (rewound ≤ (s.afterTokens toks).readOff)
      ((staysInChunk_iff ends rewound s).trans (by rw [h]; simp)).symm
  | .full _ => isTrue ((staysInChunk_iff ends rewound s).mpr fun toks heq => by
      rw [h] at heq
      cases heq)
  | .overflow _ => isTrue ((staysInChunk_iff ends rewound s).mpr fun toks heq => by
      rw [h] at heq
      cases heq)
  | .noData => isTrue ((staysInChunk_iff ends rewound s).mpr fun toks heq => by
      rw [h] at heq
      cases heq)

theorem lookAheadSafe_iff (expected : List Byte) (s : Lexer) :
    LookAheadSafe expected s ↔
      (s.readOff < s.currentChunkSize → s.currentChunkSize < s.readOff + expected.length →
        ¬s.chunkFrom s.readOff <+: expected) ∧
      (s.readOff = s.currentChunkSize → ∀ c ∈ s.coming.head?,
        (chunkHas (s.fetched c s.coming.tail).currentChunk 0 expected = true ↔
          expected <+: s.unread)) := by
  refine ⟨fun h => ⟨h.whole, fun hend c hc => ?_⟩, fun h => ⟨h.1, fun hend c coming hc => ?_⟩⟩
  · cases hcoming : s.coming with
    | nil =>
      rw [hcoming] at hc
      cases hc
    | cons d coming =>
      rw [hcoming] at hc
      cases hc
      exact h.next hend _ _ hcoming
  · have hnext := h.2 hend c (by rw [hc]; rfl)
    exact hnext

instance (expected : List Byte) (s : Lexer) : Decidable (LookAheadSafe expected s) :=
  decidable_of_iff _ (lookAheadSafe_iff expected s).symm

instance (s : Lexer) : DecidablePred (Call.ChunkSafe s)
  | .sequence delim consumeDelim => inferInstanceAs (Decidable (StaysInChunk
      (fun buf => strEndsWith buf delim) (if consumeDelim then 0 else delim.length) s))
  | .sequenceAny delims => inferInstanceAs (Decidable (StaysInChunk
      (fun buf => delims.any fun d => strEndsWith buf [d]) 1 s))
  | .checkStream expected => inferInstanceAs (Decidable (LookAheadSafe expected s))
  | .bodyStart => inferInstanceAs (Decidable (s.previouslyReadByteCount = 0))
  | .processTag => isTrue trivial
  | .popTag => isTrue trivial
  | .lastChar => isTrue trivial

instance : DecidablePred Entry.ChunkSafe
  | .access _ => isTrue trivial
  | .call c s => inferInstanceAs (Decidable (c.ChunkSafe s))

section Lexing

variable {s t : Lexer}

theorem Lexer.Alike.reads {u v : Lexer} {bytes : List Byte} (h : s.Alike t) (hs : s.Reads bytes u)
    (ht : t.Reads bytes v) : u.Alike v where
  valid := hs.valid
  valid' := ht.valid
  unread_eq := by
    have heq := hs.unread_eq.symm.trans (h.unread_eq.trans ht.unread_eq)
    exact List.append_cancel_left heq
  contentLength_eq := hs.contentLength_eq.trans (h.contentLength_eq.trans ht.contentLength_eq.symm)
  tagStack_eq := hs.tagStack_eq.trans (h.tagStack_eq.trans ht.tagStack_eq.symm)
  path_eq := hs.path_eq.trans (h.path_eq.trans ht.path_eq.symm)
  position_eq := by rw [hs.position_eq, ht.position_eq, h.position_eq]

/-- Two runs of a part of the lexer. -/
abbrev Agrees {α : Type} (s t : Lexer) (m : Parse α) : Prop :=
  Agree Entry.ChunkSafe Lexer.Alike s t m

theorem access_agrees (h : s.Alike t) (a : Access) : Agrees s t (access a) := by
  intro _ _
  show SameEnd Lexer.Alike (if a.Ok then Outcome.ok () s else .stop (Stop.badAccess a))
    (if a.Ok then Outcome.ok () t else .stop (Stop.badAccess a))
  split
  · exact ⟨rfl, h⟩
  · rfl

theorem peekchar_agrees (h : s.Alike t) : Agrees s t peekchar := by
  cases hmore : s.unread with
  | nil =>
    have hmore' : t.unread = [] := h.unread_eq.symm.trans hmore
    exact Agree.of_outcomes (peekchar_ends_stop h.valid hmore).outcome_eq
      (peekchar_ends_stop h.valid' hmore').outcome_eq rfl
  | cons b rest =>
    have hmore' : t.unread = b :: rest := h.unread_eq.symm.trans hmore
    exact Agree.of_outcomes (peekchar_ends h.valid hmore).outcome_eq
      (peekchar_ends h.valid' hmore').outcome_eq
      ⟨rfl, h.reads (Lexer.settle_reads h.valid) (Lexer.settle_reads h.valid')⟩

theorem getchar_agrees (h : s.Alike t) : Agrees s t getchar := by
  cases hmore : s.unread with
  | nil =>
    have hmore' : t.unread = [] := h.unread_eq.symm.trans hmore
    exact Agree.of_outcomes (getchar_ends_stop h.valid hmore).outcome_eq
      (getchar_ends_stop h.valid' hmore').outcome_eq rfl
  | cons b rest =>
    have hmore' : t.unread = b :: rest := h.unread_eq.symm.trans hmore
    exact Agree.of_outcomes (getchar_ends h.valid hmore).outcome_eq
      (getchar_ends h.valid' hmore').outcome_eq
      ⟨rfl, h.reads (Lexer.pop_reads h.valid hmore) (Lexer.pop_reads h.valid' hmore')⟩

theorem gettok_agrees (h : s.Alike t) : Agrees s t gettok := by
  obtain ⟨hstop, hok⟩ := gettok_spec h.valid
  obtain ⟨hstop', hok'⟩ := gettok_spec h.valid'
  rw [← h.unread_eq] at hstop' hok'
  cases hnext : nextToken s.unread with
  | none => exact Agree.of_outcomes (hstop hnext).outcome_eq (hstop' hnext).outcome_eq rfl
  | some p =>
    obtain ⟨tok, rest⟩ := p
    obtain ⟨hreads, -, hends⟩ := hok tok rest hnext
    obtain ⟨hreads', -, hends'⟩ := hok' tok rest hnext
    exact Agree.of_outcomes hends.outcome_eq hends'.outcome_eq ⟨rfl, h.reads hreads hreads'⟩

theorem matchLoop_agrees (expected : List Byte) (fuel : ℕ) : ∀ (buf : List Byte) (s t : Lexer),
    s.Alike t → Agrees s t (matchLoop expected fuel buf) := by
  induction fuel with
  | zero => exact fun _ _ _ h => Agree.pure h
  | succ fuel ih =>
    intro buf s t h
    rw [matchLoop]
    split
    · refine Agree.bind (gettok_agrees h) fun tok u v huv => ?_
      refine Agree.bind (access_agrees huv _) fun _ u v huv => ?_
      dsimp only
      split
      · exact Agree.pure huv
      · exact ih _ u v huv
    · exact Agree.pure h

theorem matchText_agrees (h : s.Alike t) (expected : List Byte) :
    Agrees s t (matchText expected) := matchLoop_agrees expected 256 [] s t h

/-- **Sequences agree where the bytes to give back stay in the chunk (proved).** -/
theorem readSequence_agrees {c : Call} {ends : List Byte → Bool} {delimLen rewound : ℕ}
    (h : s.Alike t) (hdelim : 0 < delimLen) (hlen : ∀ buf, ends buf = true → rewound ≤ buf.length)
    (hs : c.ChunkSafe s → StaysInChunk ends rewound s)
    (ht : c.ChunkSafe t → StaysInChunk ends rewound t) :
    Agrees s t (call c >>= fun _ => readSequence ends delimLen rewound) := by
  refine Agree.log_bind fun hcs hct => ?_
  have he := sequenceEnd_spec ends 2048 [] s.unread (by decide)
  generalize sequenceEnd ends 2048 [] s.unread = e at he
  have he' : SequenceEnds ends [] t.unread e := by
    rw [← h.unread_eq]
    exact he
  cases e with
  | found toks =>
    have hoff := hs hcs toks he
    have hoff' := ht hct toks he'
    obtain ⟨htrue, -, -⟩ := he.of_found rfl
    have htoks : rewound ≤ toks.flatten.length := by
      rw [← length_flatMap_copied]
      exact hlen _ htrue
    refine Agree.of_outcomes (readSequence_found h.valid he hdelim hoff).outcome_eq
      (readSequence_found h.valid' he' hdelim hoff').outcome_eq ⟨rfl, ?_⟩
    exact h.reads (found_reads h.valid he htoks hoff) (found_reads h.valid' he' htoks hoff')
  | full toks =>
    exact Agree.of_outcomes (readSequence_full delimLen rewound h.valid he).outcome_eq
      (readSequence_full delimLen rewound h.valid' he').outcome_eq rfl
  | overflow stop =>
    exact Agree.of_outcomes (readSequence_overflow delimLen rewound h.valid he).1
      (readSequence_overflow delimLen rewound h.valid' he').1 rfl
  | noData =>
    exact Agree.of_outcomes (readSequence_noData delimLen rewound h.valid he).outcome_eq
      (readSequence_noData delimLen rewound h.valid' he').outcome_eq rfl

theorem sequence_agrees (h : s.Alike t) {delim : List Byte} (consumeDelim : Bool)
    (hdelim : 0 < delim.length) :
    Agrees s t (getTokenSequenceDelimitedBy delim consumeDelim) := by
  refine readSequence_agrees h hdelim (fun buf hends => ?_) id id
  have hle := strEndsWith_length hends
  split
  · exact Nat.zero_le _
  · exact hle

theorem sequenceAny_agrees (h : s.Alike t) (delims : List Byte) :
    Agrees s t (getTokenSequenceDelimitedByAny delims) := by
  refine readSequence_agrees h (by decide) (fun buf hends => ?_) id id
  obtain ⟨d, -, hd⟩ := List.any_eq_true.mp hends
  exact strEndsWith_length hd

theorem chunkHas_iff (hs : s.currentChunkSize ≤ s.currentChunk.length) (expected : List Byte) :
    ∀ index, index + expected.length ≤ s.currentChunkSize →
      (chunkHas s.currentChunk index expected = true ↔ expected <+: s.chunkFrom index) := by
  induction expected with
  | nil => exact fun index _ => iff_of_true rfl List.nil_prefix
  | cons e expected ih =>
    intro index hindex
    rw [List.length_cons] at hindex
    have hfrom : s.chunkFrom index = s.currentChunk.getD index 0 :: s.chunkFrom (index + 1) := by
      rw [Lexer.chunkFrom, List.drop_eq_getElem_cons (by rw [List.length_take]; omega),
        List.getElem_take, List.getD_eq_getElem?_getD, List.getElem?_eq_getElem (by omega)]
      rfl
    rw [chunkHas, hfrom, List.cons_prefix_cons, Bool.and_eq_true, decide_eq_true_eq,
      ih (index + 1) (by omega), eq_comm]

theorem length_chunkFrom (h : s.Valid) :
    (s.chunkFrom s.readOff).length = s.currentChunkSize - s.readOff := by
  have hsize := h.size_le
  rw [Lexer.chunkFrom, List.length_drop, List.length_take]
  omega

theorem unread_eq_chunkFrom (s : Lexer) :
    s.unread = s.chunkFrom s.readOff ++ (s.coming.map Chunk.bytes).flatten := rfl

/-- **Away from the end of a chunk, the lookahead sees the stream (proved).** -/
theorem lookAhead_outcome {expected : List Byte} (hs : s.Valid) (hpos : 0 < expected.length)
    (hsafe : LookAheadSafe expected s) :
    (s.unread = [] → (lookAhead expected s).outcome = .stop .noStreamData) ∧
      (s.unread ≠ [] → ∃ u, s.Reads [] u ∧
        (lookAhead expected s).outcome = .ok (decide (expected <+: s.unread)) u) := by
  have hoff := hs.off_le
  have hlen := length_chunkFrom hs
  have hunread := unread_eq_chunkFrom s
  by_cases hend : s.readOff = s.currentChunkSize
  · have hnil : s.chunkFrom s.readOff = [] := List.eq_nil_of_length_eq_zero (by omega)
    rw [hnil, List.nil_append] at hunread
    cases hcoming : s.coming with
    | nil =>
      refine ⟨fun _ => (lookAhead_noData hpos hend hcoming).outcome_eq, fun hmore => ?_⟩
      rw [hcoming] at hunread
      exact absurd hunread hmore
    | cons c coming =>
      refine ⟨fun hempty => ?_, fun _ => ⟨s.fetched c coming,
        Lexer.fetched_reads hs (by omega) hcoming, ?_⟩⟩
      · have hpos := c.nonempty
        rw [hempty, hcoming, List.map_cons, List.flatten_cons] at hunread
        rw [(List.append_eq_nil_iff.mp hunread.symm).1] at hpos
        exact absurd hpos (lt_irrefl 0)
      · have hiff := hsafe.next hend c coming hcoming
        rw [(lookAhead_fetch hpos hend hcoming).outcome_eq, strncmpChunk_outcome]
        rw [Bool.eq_iff_iff.mpr (hiff.trans decide_eq_true_iff.symm)]
  · have hmore : s.unread ≠ [] := by
      intro hempty
      rw [hempty] at hunread
      rw [(List.append_eq_nil_iff.mp hunread.symm).1, List.length_nil] at hlen
      omega
    refine ⟨fun hempty => absurd hempty hmore, fun _ => ⟨s, Lexer.Reads.refl hs, ?_⟩⟩
    by_cases hinside : s.readOff + expected.length ≤ s.currentChunkSize
    · rw [(lookAhead_inside hs hinside).outcome_eq]
      have hiff : chunkHas s.currentChunk s.readOff expected = true ↔ expected <+: s.unread := by
        rw [chunkHas_iff hs.size_le expected s.readOff hinside, hunread]
        refine ⟨fun hprefix => hprefix.trans (List.prefix_append _ _), fun hprefix => ?_⟩
        exact List.prefix_of_prefix_length_le hprefix (List.prefix_append _ _) (by omega)
      rw [Bool.eq_iff_iff.mpr (hiff.trans decide_eq_true_iff.symm)]
    · have hmiss := hsafe.whole (by omega) (by omega)
      have htake : (expected.take (s.currentChunkSize - s.readOff)).length =
          s.currentChunkSize - s.readOff := by
        rw [List.length_take]
        omega
      have hfalse : ¬chunkHas s.currentChunk s.readOff
          (expected.take (s.currentChunkSize - s.readOff)) = true := by
        rw [chunkHas_iff hs.size_le _ s.readOff (by omega)]
        intro hprefix
        have heq := hprefix.eq_of_length (by omega)
        rw [← heq] at hmiss
        exact hmiss (List.take_prefix _ _)
      have hnot : ¬expected <+: s.unread := by
        intro hprefix
        exact hmiss (List.prefix_of_prefix_length_le (List.prefix_append _ _) hprefix (by omega))
      rw [(lookAhead_short hs (by omega) (by omega)).outcome_eq, if_neg hfalse,
        decide_eq_false hnot]

theorem checkStream_agrees (h : s.Alike t) {expected : List Byte} (hpos : 0 < expected.length) :
    Agrees s t (checkStream expected) := by
  refine Agree.log_bind fun hs ht => ?_
  obtain ⟨hempty, hmore⟩ := lookAhead_outcome h.valid hpos hs
  obtain ⟨hempty', hmore'⟩ := lookAhead_outcome h.valid' hpos ht
  rw [← h.unread_eq] at hempty' hmore'
  by_cases hunread : s.unread = []
  · exact Agree.of_outcomes (hempty hunread) (hempty' hunread) rfl
  · obtain ⟨u, hu, houtcome⟩ := hmore hunread
    obtain ⟨v, hv, houtcome'⟩ := hmore' hunread
    exact Agree.of_outcomes houtcome houtcome' ⟨rfl, h.reads hu hv⟩

end Lexing

/-! ### The parser -/

section Parsing

variable {s t : Lexer}

section

variable (h : s.Alike t)

include h

theorem closeMark_agrees : Agrees s t closeMark := by
  refine Agree.bind (peekchar_agrees h) fun ch u v huv => ?_
  split
  · exact Agree.bind (getchar_agrees huv) fun _ u v huv => Agree.pure huv
  · exact Agree.pure huv

theorem parseComment_agrees (isCloseTag : Bool) : Agrees s t (parseComment isCloseTag) := by
  refine Agree.bind (matchText_agrees h _) fun _ u v huv => ?_
  refine Agree.bind (sequence_agrees huv false (by decide)) fun name u v huv => ?_
  exact Agree.bind (matchText_agrees huv _) fun _ u v huv => Agree.pure huv

theorem parseNamedTag_agrees (isCloseTag : Bool) : Agrees s t (parseNamedTag isCloseTag) := by
  refine Agree.bind (sequenceAny_agrees h _) fun name u v huv => ?_
  refine Agree.bind (peekchar_agrees huv) fun ch u v huv => ?_
  split
  · refine Agree.bind (getchar_agrees huv) fun _ u v huv => ?_
    exact Agree.bind (sequence_agrees huv true (by decide)) fun attrs u v huv => Agree.pure huv
  · refine Agree.bind (matchText_agrees huv _) fun closed u v huv => ?_
    split
    · exact Agree.pure huv
    · exact Agree.pure huv

theorem parseHtmlTag_agrees : Agrees s t parseHtmlTag := by
  refine Agree.bind (matchText_agrees h _) fun opened u v huv => ?_
  split
  · refine Agree.bind (closeMark_agrees huv) fun isCloseTag u v huv => ?_
    refine Agree.bind (checkStream_agrees huv (by decide)) fun comment u v huv => ?_
    split
    · exact parseComment_agrees huv isCloseTag
    · exact parseNamedTag_agrees huv isCloseTag
  · exact Agree.bind (peekchar_agrees huv) fun _ u v huv => Agree.pure huv

theorem Lexer.Alike.nodes {tags : List HtmlTag} {path : List OpenNode} :
    Lexer.Alike { s with tagStack := tags, path := path }
      { t with tagStack := tags, path := path } :=
  ⟨⟨h.valid.off_le, h.valid.size_le⟩, ⟨h.valid'.off_le, h.valid'.size_le⟩, h.unread_eq,
    h.contentLength_eq, rfl, rfl, h.position_eq⟩

theorem Lexer.Alike.withPath (path : List OpenNode) :
    Lexer.Alike { s with path := path } { t with path := path } :=
  ⟨⟨h.valid.off_le, h.valid.size_le⟩, ⟨h.valid'.off_le, h.valid'.size_le⟩, h.unread_eq,
    h.contentLength_eq, h.tagStack_eq, rfl, h.position_eq⟩

theorem Lexer.Alike.addChild (child : DomNode) : (s.addChild child).Alike (t.addChild child) := by
  rw [Lexer.addChild, Lexer.addChild, ← h.path_eq]
  cases s.path with
  | nil => exact h
  | cons n up => exact h.withPath _

theorem derefDeepestTag_agrees : Agrees s t derefDeepestTag := by
  refine Agree.read_bind ?_ (access_agrees h _)
  rw [h.path_eq]

theorem openTag_agrees (tag : HtmlTag) : Agrees s t (openTag tag) := by
  refine Agree.bind (derefDeepestTag_agrees h) fun _ u v huv => ?_
  split
  · refine Agree.modify ?_
    rw [Lexer.pushTag, Lexer.pushTag, huv.tagStack_eq, huv.path_eq]
    exact huv.nodes
  · exact Agree.modify (huv.addChild _)

theorem closeTag_agrees : Agrees s t closeTag := by
  refine Agree.log_bind fun _ _ => ?_
  refine Agree.read_bind (by rw [h.tagStack_eq]) ?_
  refine Agree.bind (access_agrees h _) fun _ u v huv => ?_
  refine Agree.bind (derefDeepestTag_agrees huv) fun _ u v huv => ?_
  refine Agree.modify ?_
  rw [Lexer.popTag, Lexer.popTag, huv.tagStack_eq, huv.path_eq]
  exact huv.nodes

theorem processHtmlTag_agrees : Agrees s t processHtmlTag := by
  refine Agree.log_bind fun _ _ => ?_
  refine Agree.bind (parseHtmlTag_agrees h) fun tag u v huv => ?_
  refine Agree.bind (access_agrees huv _) fun _ u v huv => ?_
  cases tag with
  | none => exact Agree.pure huv
  | some tag =>
    dsimp only
    split
    · exact closeTag_agrees huv
    · exact openTag_agrees huv tag

theorem addText_agrees (content : List Byte) : Agrees s t (addText content) := by
  unfold addText
  split
  · refine Agree.bind (derefDeepestTag_agrees h) fun _ u v huv => ?_
    exact Agree.modify (huv.addChild _)
  · exact Agree.pure h

/-- The character that is printed does not matter. -/
theorem lastChar_agrees : Agrees s t lastChar := fun _ _ => ⟨rfl, h⟩

end

theorem documentLoop_agrees (htmlEndOffset fuel : ℕ) : ∀ s t : Lexer, s.Alike t →
    Agrees s t (documentLoop htmlEndOffset fuel) := by
  induction fuel with
  | zero => exact fun _ _ _ => Agree.stop
  | succ fuel ih =>
    intro s t h
    refine Agree.bind (processHtmlTag_agrees h) fun _ u v huv => ?_
    have hplace : (u.readOff + u.previouslyReadByteCount + 2) % 2 ^ 32 =
        (v.readOff + v.previouslyReadByteCount + 2) % 2 ^ 32 := by
      have hpos := huv.position_eq
      unfold Lexer.position at hpos
      omega
    refine Agree.read_bind (by rw [hplace]) ?_
    split
    · exact lastChar_agrees huv
    · refine Agree.bind (sequence_agrees huv false (by decide)) fun content u v huv => ?_
      exact Agree.bind (addText_agrees huv content) fun _ u v huv => ih u v huv

theorem parseHtmlDocument_agrees (h : s.Alike t) (fuel htmlEndOffset : ℕ) :
    Agrees s t (parseHtmlDocument fuel htmlEndOffset) := by
  have hopen : Agrees s t (Program.modify fun s : Lexer =>
      { s with path := [⟨.document, [], none, []⟩] }) := Agree.modify (h.withPath _)
  refine Agree.bind hopen fun _ u v huv => ?_
  refine Agree.bind (documentLoop_agrees htmlEndOffset fuel u v huv) fun _ u v huv => ?_
  refine Agree.read_bind (by rw [huv.path_eq]) (Agree.pure huv)

theorem checkNewline_agrees (h : s.Alike t) : Agrees s t checkNewline := by
  refine Agree.bind (checkStream_agrees h (by decide)) fun crlf u v huv => ?_
  split
  · exact Agree.pure huv
  · exact checkStream_agrees huv (by decide)

theorem matchNewline_agrees (h : s.Alike t) : Agrees s t matchNewline := by
  refine Agree.bind (checkStream_agrees h (by decide)) fun crlf u v huv => ?_
  split
  · exact matchText_agrees huv _
  · refine Agree.bind (checkStream_agrees huv (by decide)) fun lf u v huv => ?_
    split
    · exact matchText_agrees huv _
    · exact Agree.pure huv

theorem noteHeader_agrees (h : s.Alike t) (key value : List Byte) :
    Agrees s t (noteHeader key value) := by
  unfold noteHeader
  split
  · exact Agree.modify ⟨⟨h.valid.off_le, h.valid.size_le⟩, ⟨h.valid'.off_le, h.valid'.size_le⟩,
      h.unread_eq, rfl, h.tagStack_eq, h.path_eq, h.position_eq⟩
  · exact Agree.pure h

theorem headersLoop_agrees (fuel : ℕ) : ∀ s t : Lexer, s.Alike t →
    Agrees s t (headersLoop fuel) := by
  induction fuel with
  | zero => exact fun _ _ _ => Agree.stop
  | succ fuel ih =>
    intro s t h
    refine Agree.bind (checkNewline_agrees h) fun newline u v huv => ?_
    split
    · exact Agree.pure huv
    · refine Agree.bind (sequence_agrees huv true (by decide)) fun key u v huv => ?_
      refine Agree.bind (sequence_agrees huv true (by decide)) fun value u v huv => ?_
      exact Agree.bind (noteHeader_agrees huv key value) fun _ u v huv => ih u v huv

theorem parseBody_zero {fuel : ℕ} (hzero : s.contentLength = 0) :
    (parseBody fuel s).outcome = .ok none s := by
  rw [parseBody, Program.read_bind, if_pos hzero]
  rfl

theorem parseBody_document {fuel : ℕ} (hzero : s.contentLength ≠ 0) :
    parseBody fuel s = (call .bodyStart >>= fun _ =>
      parseHtmlDocument fuel ((s.readOff + s.contentLength) % 2 ^ 32)) s := by
  rw [parseBody, Program.read_bind, if_neg hzero]

/-- **In the first chunk, a place in the chunk is the place in the stream (proved).** -/
theorem parseBody_agrees (h : s.Alike t) (fuel : ℕ) : Agrees s t (parseBody fuel) := by
  by_cases hzero : s.contentLength = 0
  · have hzero' : t.contentLength = 0 := h.contentLength_eq.symm.trans hzero
    exact Agree.of_outcomes (parseBody_zero hzero) (parseBody_zero hzero') ⟨rfl, h⟩
  · have hzero' : t.contentLength ≠ 0 := fun heq => hzero (h.contentLength_eq.trans heq)
    intro hs ht
    rw [parseBody_document hzero] at hs ⊢
    rw [parseBody_document hzero'] at ht ⊢
    have hfirst : s.previouslyReadByteCount = 0 :=
      hs (.call .bodyStart s) (Program.mem_trace_bind (List.mem_singleton.mpr rfl))
    have hfirst' : t.previouslyReadByteCount = 0 :=
      ht (.call .bodyStart t) (Program.mem_trace_bind (List.mem_singleton.mpr rfl))
    have hplace : (s.readOff + s.contentLength) % 2 ^ 32 =
        (t.readOff + t.contentLength) % 2 ^ 32 := by
      have hpos := h.position_eq
      unfold Lexer.position at hpos
      rw [h.contentLength_eq]
      omega
    rw [← hplace] at ht ⊢
    exact Agree.log_bind (fun _ _ => parseHtmlDocument_agrees h fuel _) hs ht

theorem htmlParseFromSocket_agrees (h : s.Alike t) (fuel : ℕ) :
    Agrees s t (htmlParseFromSocket fuel) := by
  refine Agree.bind (sequence_agrees h true (by decide)) fun _ u v huv => ?_
  refine Agree.bind (sequence_agrees huv true (by decide)) fun _ u v huv => ?_
  refine Agree.bind (sequence_agrees huv true (by decide)) fun _ u v huv => ?_
  refine Agree.bind (headersLoop_agrees fuel u v huv) fun _ u v huv => ?_
  refine Agree.bind (matchNewline_agrees huv) fun ended u v huv => ?_
  split
  · exact parseBody_agrees huv fuel
  · exact Agree.pure huv

/-- **Where all calls stay away from the ends of the chunks, the cut does not matter (proved).** -/
theorem respond_result_eq (chunks chunks' : List Chunk)
    (hbytes : (chunks.map Chunk.bytes).flatten = (chunks'.map Chunk.bytes).flatten)
    (hs : ∀ e ∈ (respond chunks).trace, e.ChunkSafe)
    (ht : ∀ e ∈ (respond chunks').trace, e.ChunkSafe) :
    (respond chunks).outcome.result = (respond chunks').outcome.result := by
  have halike : (lexerCreate chunks).Alike (lexerCreate chunks') :=
    ⟨lexerCreate_valid chunks, lexerCreate_valid chunks', hbytes, rfl, rfl, rfl, rfl⟩
  rw [respond] at hs ⊢
  rw [respond, ← hbytes] at ht ⊢
  exact (htmlParseFromSocket_agrees halike _ hs ht).result_eq

/-- A page in one chunk. -/
def page : Chunk :=
  ⟨ascii "HTTP/1.1 200 OK\r\nContent-Length: 24\r\n\r\n<html><p>Hi</p></html>\n\n", by decide,
    by decide⟩

/-- The same page, cut behind its first tag. -/
def pageCut : List Chunk :=
  [⟨ascii "HTTP/1.1 200 OK\r\nContent-Length: 24\r\n\r\n<html>", by decide, by decide⟩,
    ⟨ascii "<p>Hi</p></html>\n\n", by decide, by decide⟩]

/-- The same page, cut before the empty line that ends the headers. -/
def pageCutInHeaders : List Chunk :=
  [⟨ascii "HTTP/1.1 200 OK\r\nContent-Length: 24\r\n", by decide, by decide⟩,
    ⟨ascii "\r\n<html><p>Hi</p></html>\n\n", by decide, by decide⟩]

theorem respond_result_eq_pageCut :
    (respond [page]).outcome.result = (respond pageCut).outcome.result :=
  respond_result_eq [page] pageCut (by decide +kernel) (by decide +kernel) (by decide +kernel)

mutual

def DomNode.count : DomNode → ℕ
  | .mk _ _ _ children => DomNode.countAll children + 1

def DomNode.countAll : List DomNode → ℕ
  | [] => 0
  | child :: children => child.count + DomNode.countAll children

end

/-- How many nodes a run has built. -/
def builtNodes : Except Stop (Option DomNode) → ℕ
  | .ok (some root) => root.count
  | _ => 0

/-- The end of the document is taken for a place in the second chunk, so it is found behind the
first tag: the rest of the page is lost. -/
theorem respond_pageCutInHeaders :
    ([page].map Chunk.bytes).flatten = (pageCutInHeaders.map Chunk.bytes).flatten ∧
      builtNodes (respond [page]).outcome.result = 4 ∧
      builtNodes (respond pageCutInHeaders).outcome.result = 2 ∧
      (respond [page]).outcome.result ≠ (respond pageCutInHeaders).outcome.result := by
  have hwhole : builtNodes (respond [page]).outcome.result = 4 := by decide +kernel
  have hcut : builtNodes (respond pageCutInHeaders).outcome.result = 2 := by decide +kernel
  refine ⟨by decide +kernel, hwhole, hcut, fun heq => ?_⟩
  rw [heq, hcut] at hwhole
  exact absurd hwhole (by decide)

end Parsing

end Axle.Netclient.Html
