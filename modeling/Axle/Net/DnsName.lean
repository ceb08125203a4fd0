import Axle.Net.DnsCache
import Mathlib.Data.List.TakeWhile

/-!
# Names in DNS messages

`_parse_dns_name` of `net/dns.c` reads a name with its compression pointers into a buffer of 256
bytes.  A pointer into a buffer is the list of the bytes from there to the end of the buffer; every
turn of the loop and every call of the function takes one of the `rounds` it is given.

* `parseDnsName` — the function, with what it would do outside of its buffers;
* `parseDnsName_spelled` — **PROVED**: what the function makes of a name that is spelled out;
* `safe_iff_wellSpelled` — **PROVED**: it is safe exactly on the names that are well spelled.
-/

namespace Axle.Net.Dns

/-! ### The function -/

/-- Why a call does not return: it has used up its rounds, an assertion fails, or it is about to
read or write outside of a buffer. -/
inductive Stop where
  | rounds
  | assertion
  | readOutside
  | writeOutside
deriving DecidableEq, Repr

structure DnsNameParseState where
  labelCount : ℕ
  nameLen : Byte
  name : List Byte
deriving DecidableEq, Repr

def sizeofName : ℕ := 256

/-- `memset(out_state, 0, sizeof(dns_name_parse_state_t))` -/
def DnsNameParseState.zeroed : DnsNameParseState := ⟨0, 0, List.replicate sizeofName 0⟩

/-- A string up to its NUL. -/
def cString (bytes : List Byte) : List Byte := bytes.takeWhile (· != 0)

/-- What stands in `name`. -/
def DnsNameParseState.text (st : DnsNameParseState) : List Byte := cString st.name

/-- `name_len += snprintf(name + name_len, sizeof(name), …)` for a string `s`.  The size does not
become smaller with the room that is left. -/
def DnsNameParseState.snprintf (st : DnsNameParseState) (s : List Byte) :
    Except Stop DnsNameParseState :=
  let written := s.take (sizeofName - 1) ++ [0]
  let start := st.nameLen.toNat
  if start + written.length ≤ sizeofName then
    .ok { st with
      nameLen := st.nameLen + BitVec.ofNat 8 s.length
      name := st.name.take start ++ written ++ st.name.drop (start + written.length) }
  else .error .writeOutside

/-- `out_state->name[--out_state->name_len] = '\0'` -/
def DnsNameParseState.trim (st : DnsNameParseState) : DnsNameParseState :=
  { st with nameLen := st.nameLen - 1, name := st.name.set (st.nameLen - 1).toNat 0 }

/-- `*(data_ptr++)` -/
def readByte : List Byte → Except Stop (Byte × List Byte)
  | [] => .error .readOutside
  | b :: dataPtr => .ok (b, dataPtr)

/-- `strncpy` of `_dns_name_read_label`, which does not read on behind a NUL. -/
def dnsNameReadLabel (dataPtr : List Byte) (labelLen : Byte) :
    Except Stop (List Byte × List Byte) :=
  let label := dataPtr.take labelLen.toNat
  if label.length = labelLen.toNat ∨ 0 ∈ label then
    .ok (cString label, dataPtr.drop labelLen.toNat)
  else .error .readOutside

/-- The high two bits of the label are set. -/
def IsPointer (labelLen : Byte) : Prop := labelLen >>> 6 = 3

instance (labelLen : Byte) : Decidable (IsPointer labelLen) :=
  inferInstanceAs (Decidable (_ = _))

/-- `string_offset` -/
def stringOffset (labelLen b2 : Byte) : ℕ := ((labelLen &&& 0x3f) ++ b2 : BitVec 16).toNat

/-- What a call leaves: the state, where the data pointer stands, and how often a length of zero was
decremented, which is bookkeeping. -/
structure NameParse where
  state : DnsNameParseState
  dataPtr : List Byte
  zeroTrims : ℕ
deriving DecidableEq, Repr

def dot : Byte := 0x2e

/-- The loop of `_parse_dns_name`. -/
def nameLoop (packet : List Byte) : ℕ → DnsNameParseState → List Byte → Except Stop NameParse
  | 0, _, _ => .error .rounds
  | rounds + 1, st, dataPtr => do
    let (labelLen, dataPtr) ← readByte dataPtr
    if IsPointer labelLen then
      let (b2, dataPtr) ← readByte dataPtr
      let pointerParse ← nameLoop packet rounds .zeroed (packet.drop (stringOffset labelLen b2))
      let st ← { st with labelCount := st.labelCount + 1 }.snprintf pointerParse.state.text
      .ok ⟨st, dataPtr, pointerParse.zeroTrims⟩
    else if labelLen = 0 then .ok ⟨st.trim, dataPtr, if st.nameLen = 0 then 1 else 0⟩
    else if sizeofName ≤ st.nameLen.toNat + labelLen.toNat then .error .assertion
    else
      let (buf, dataPtr) ← dnsNameReadLabel dataPtr labelLen
      let st ← st.snprintf (buf ++ [dot])
      nameLoop packet rounds st dataPtr

def parseDnsName (packet : List Byte) (rounds : ℕ) (dataPtr : List Byte) : Except Stop NameParse :=
  nameLoop packet rounds .zeroed dataPtr

/-! ### The grammar -/

abbrev Label := List Byte

/-- Where a spelling ends: behind a whole name, or before the length byte of a label. -/
inductive NameEnd where
  | finished (rest : List Byte)
  | next (labelLen : Byte)
deriving DecidableEq, Repr

/-- Behind a pointer the name is over, wherever the name it points to ends. -/
def NameEnd.after (rest : List Byte) : NameEnd → NameEnd
  | .finished _ => .finished rest
  | .next labelLen => .next labelLen

/-- A length byte of a label. -/
def IsLiteral (labelLen : Byte) : Prop := ¬IsPointer labelLen ∧ labelLen ≠ 0

instance (labelLen : Byte) : Decidable (IsLiteral labelLen) :=
  inferInstanceAs (Decidable (_ ∧ _))

/-- The labels spelled from some byte on, those behind each pointer on a level of their own. -/
inductive SpelledAt (packet : List Byte) : List Byte → List (List Label) → NameEnd → Prop
  | zero (rest : List Byte) : SpelledAt packet (0 :: rest) [[]] (.finished rest)
  | next {labelLen : Byte} (hliteral : IsLiteral labelLen) (rest : List Byte) :
    SpelledAt packet (labelLen :: rest) [[]] (.next labelLen)
  | label {labelLen : Byte} {label rest : List Byte} {labels : List Label}
    {levels : List (List Label)} {e : NameEnd} (hliteral : IsLiteral labelLen)
    (hlength : label.length = labelLen.toNat) (h : SpelledAt packet rest (labels :: levels) e) :
    SpelledAt packet (labelLen :: (label ++ rest)) ((label :: labels) :: levels) e
  | pointer {labelLen : Byte} {levels : List (List Label)} {e : NameEnd}
    (hpointer : IsPointer labelLen) (b2 : Byte) (rest : List Byte)
    (h : SpelledAt packet (packet.drop (stringOffset labelLen b2)) levels e) :
    SpelledAt packet (labelLen :: b2 :: rest) ([] :: levels) (e.after rest)

/-- Each label up to a NUL, with a dot behind it. -/
def dotted (labels : List Label) : List Byte := labels.flatMap fun label => cString label ++ [dot]

/-- The name of these levels, of which the last loses its dot. -/
def nameText : List (List Label) → List Byte
  | [] => []
  | [labels] => (dotted labels).dropLast
  | labels :: levels => dotted labels ++ nameText levels

/-- Each label of a level passes the check of its size and leaves room for its dot and a NUL. -/
def LabelsFit (labels : List Label) : Prop :=
  ∀ front label back, labels = front ++ label :: back →
    (dotted front).length + label.length < sizeofName ∧
      (dotted front).length + (cString label).length + 1 < sizeofName

/-- Where it ends: `finished` behind a label of the last level, with a name that leaves room for a
NUL; `next` before a label that is too long for what its level has before it. -/
def EndsWell (levels : List (List Label)) : NameEnd → Prop
  | .finished _ => levels.getLast? ≠ some [] ∧ (nameText levels).length < sizeofName
  | .next labelLen => ∃ labels, levels.getLast? = some labels ∧
      sizeofName ≤ (dotted labels).length + labelLen.toNat

def WellSpelled (packet dataPtr : List Byte) : Prop :=
  ∃ levels e, SpelledAt packet dataPtr levels e ∧ (∀ labels ∈ levels, LabelsFit labels) ∧
    EndsWell levels e

/-! ### The buffer -/

/-- The state with this text in the buffer, and zeros behind it. -/
def stateOf (labelCount : ℕ) (text : List Byte) : DnsNameParseState where
  labelCount
  nameLen := BitVec.ofNat 8 text.length
  name := text ++ List.replicate (sizeofName - text.length) 0

theorem cString_append_zero {text : List Byte} (htext : 0 ∉ text) (more : List Byte) :
    cString (text ++ 0 :: more) = text := by
  rw [cString, List.takeWhile_append_of_pos]
  · simp
  · intro b hb
    simpa using fun h : b = 0 => htext (h ▸ hb)

theorem cString_no_zero (bytes : List Byte) : 0 ∉ cString bytes := by
  intro h
  simpa using List.all_eq_true.mp List.all_takeWhile 0 h

theorem DnsNameParseState.text_no_zero (st : DnsNameParseState) : 0 ∉ st.text :=
  cString_no_zero st.name

theorem cString_length_le (bytes : List Byte) : (cString bytes).length ≤ bytes.length :=
  (List.takeWhile_prefix _).length_le

theorem stateOf_text {text : List Byte} (htext : 0 ∉ text) (hlen : text.length < sizeofName)
    (labelCount : ℕ) : (stateOf labelCount text).text = text := by
  obtain ⟨k, hk⟩ : ∃ k, sizeofName - text.length = k + 1 := ⟨sizeofName - text.length - 1, by omega⟩
  rw [DnsNameParseState.text, stateOf, hk, List.replicate_succ]
  exact cString_append_zero htext _

theorem stateOf_nameLen {text : List Byte} (hlen : text.length < sizeofName) (labelCount : ℕ) :
    (stateOf labelCount text).nameLen.toNat = text.length :=
  (BitVec.toNat_ofNat _ _).trans (Nat.mod_eq_of_lt hlen)

/-- **Appending**: a string goes behind the text, if there is room for it and its NUL. -/
theorem snprintf_stateOf {text s : List Byte} (htext : text.length < sizeofName)
    (hs : s.length < sizeofName) (labelCount : ℕ) :
    (stateOf labelCount text).snprintf s =
      if text.length + s.length < sizeofName then .ok (stateOf labelCount (text ++ s))
      else .error .writeOutside := by
  have htake : s.take (sizeofName - 1) = s := List.take_of_length_le (by omega)
  have hwritten : (s ++ [(0 : Byte)]).length = s.length + 1 := by simp
  rw [DnsNameParseState.snprintf, htake, stateOf_nameLen htext, hwritten]
  split
  · rw [if_pos (by omega)]
    congr 1
    rw [stateOf, stateOf, DnsNameParseState.mk.injEq]
    refine ⟨rfl, ?_, ?_⟩
    · rw [List.length_append, BitVec.ofNat_add]
    · obtain ⟨k, hk⟩ : ∃ k, sizeofName - text.length = s.length + 1 + k :=
        ⟨sizeofName - text.length - (s.length + 1), by omega⟩
      have hrest : sizeofName - (text ++ s).length = k + 1 := by
        rw [List.length_append]
        omega
      rw [hk, hrest, List.take_left, List.drop_append, List.drop_replicate,
        List.drop_of_length_le (by omega), List.replicate_succ]
      simp
  · rw [if_neg (by omega)]

theorem trim_stateOf {text : List Byte} (hlen : text.length < sizeofName) (hne : text ≠ [])
    (labelCount : ℕ) : (stateOf labelCount text).trim = stateOf labelCount text.dropLast := by
  obtain ⟨front, last, rfl⟩ : ∃ front last, text = front ++ [last] :=
    ⟨_, _, (List.dropLast_append_getLast hne).symm⟩
  have hlength : (front ++ [last]).length = front.length + 1 := by simp
  have hnameLen : BitVec.ofNat 8 (front.length + 1) - 1 = BitVec.ofNat 8 front.length := by
    rw [BitVec.ofNat_add]
    exact BitVec.add_sub_cancel _ _
  have hindex : (BitVec.ofNat 8 front.length).toNat = front.length :=
    (BitVec.toNat_ofNat _ _).trans (Nat.mod_eq_of_lt (by unfold sizeofName at hlen; omega))
  have hzeros : sizeofName - front.length = sizeofName - (front.length + 1) + 1 := by omega
  rw [DnsNameParseState.trim, List.dropLast_concat]
  simp only [stateOf, hlength]
  rw [hnameLen, hindex, hzeros, List.append_assoc, List.set_append_right _ _ (Nat.le_refl _), Nat.sub_self]
  rfl

theorem trim_stateOf_nil (labelCount : ℕ) :
    (stateOf labelCount []).trim = { stateOf labelCount [] with nameLen := 255 } := by
  rw [DnsNameParseState.trim, DnsNameParseState.mk.injEq]
  exact ⟨rfl, rfl, List.set_replicate_self⟩

/-! ### Texts of labels -/

theorem dotted_append (front back : List Label) : dotted (front ++ back) = dotted front ++ dotted back :=
  List.flatMap_append

theorem dotted_singleton (label : Label) : dotted [label] = cString label ++ [dot] := by
  rw [dotted, List.flatMap_singleton]

variable {labels front : List Label} {levels : List (List Label)} {label : Label}
  {dataPtr packet rest : List Byte} {e : NameEnd} {labelLen : Byte} {p : NameParse}

theorem dotted_eq_nil : dotted labels = [] ↔ labels = [] := by
  cases labels <;> simp [dotted]

theorem dotted_no_zero (labels : List Label) : 0 ∉ dotted labels := by
  intro h
  obtain ⟨label, -, hmem⟩ := List.mem_flatMap.mp h
  rcases List.mem_append.mp hmem with hmem | hmem
  · exact cString_no_zero label hmem
  · exact absurd (List.mem_singleton.mp hmem) (by decide)

theorem nameText_no_zero : ∀ levels : List (List Label), 0 ∉ nameText levels
  | [] => by simp [nameText]
  | [labels] => fun h => dotted_no_zero labels (List.mem_of_mem_dropLast h)
  | labels :: next :: levels => fun h => by
    rcases List.mem_append.mp h with h | h
    · exact dotted_no_zero labels h
    · exact nameText_no_zero (next :: levels) h

theorem nameText_cons_of_ne_nil (labels : List Label) (hne : levels ≠ []) :
    nameText (labels :: levels) = dotted labels ++ nameText levels := by
  cases levels with
  | nil => exact absurd rfl hne
  | cons => rfl

theorem cString_eq_self (h : 0 ∉ label) : cString label = label := by
  refine List.takeWhile_eq_self_iff.mpr fun b hb => ?_
  simpa using fun hzero : b = 0 => h (hzero ▸ hb)

theorem dotted_eq_intercalate (hne : labels ≠ []) (hzero : ∀ label ∈ labels, 0 ∉ label) :
    dotted labels = List.intercalate [dot] labels ++ [dot] := by
  induction labels with
  | nil => exact absurd rfl hne
  | cons label labels ih =>
    obtain ⟨hlabel, hrest⟩ := List.forall_mem_cons.mp hzero
    by_cases hlabels : labels = []
    · subst hlabels
      rw [dotted_singleton, cString_eq_self hlabel, List.intercalate_singleton]
    · rw [List.intercalate_cons_of_ne_nil hlabels, dotted, List.flatMap_cons, cString_eq_self hlabel]
      rw [← dotted, ih hlabels hrest]
      simp only [List.append_assoc]

theorem LabelsFit.nil : LabelsFit [] := fun _ _ _ h => by simp at h

theorem LabelsFit.length (h : LabelsFit labels) : (dotted labels).length < sizeofName := by
  rcases List.eq_nil_or_concat labels with rfl | ⟨front, label, rfl⟩
  · decide
  · rw [List.concat_eq_append] at h ⊢
    have hlast := (h front label [] rfl).2
    rw [dotted_append, dotted_singleton]
    simpa [Nat.add_assoc] using hlast

theorem LabelsFit.append (h : LabelsFit (front ++ label :: labels)) :
    (dotted front).length + label.length < sizeofName ∧
      (dotted front).length + (cString label ++ [dot]).length < sizeofName := by
  have hlabel := h front label labels rfl
  rw [List.length_append, List.length_singleton]
  exact ⟨hlabel.1, by omega⟩

theorem LabelsFit.concat (h : LabelsFit front)
    (hcheck : (dotted front).length + label.length < sizeofName)
    (hroom : (dotted front).length + (cString label ++ [dot]).length < sizeofName) :
    LabelsFit (front ++ [label]) := by
  intro front' label' back heq
  rcases List.eq_nil_or_concat back with rfl | ⟨back, last, rfl⟩
  · obtain ⟨rfl, hlabel⟩ := List.append_inj' heq rfl
    obtain rfl := (List.cons.inj hlabel).1
    rw [List.length_append, List.length_singleton] at hroom
    exact ⟨hcheck, by omega⟩
  · rw [List.concat_eq_append, ← List.cons_append, ← List.append_assoc] at heq
    exact h front' label' back (List.append_inj' heq rfl).1

theorem SpelledAt.levels_ne_nil (h : SpelledAt packet dataPtr levels e) : levels ≠ [] := by
  cases h <;> simp

/-! ### Turns of the loop -/

theorem nameLoop_cons (packet : List Byte) (rounds : ℕ) (st : DnsNameParseState) (labelLen : Byte)
    (dataPtr : List Byte) :
    nameLoop packet (rounds + 1) st (labelLen :: dataPtr) =
      if IsPointer labelLen then
        (readByte dataPtr).bind fun (b2, dataPtr) =>
          (nameLoop packet rounds .zeroed (packet.drop (stringOffset labelLen b2))).bind fun p =>
            ({ st with labelCount := st.labelCount + 1 }.snprintf p.state.text).bind fun st =>
              .ok ⟨st, dataPtr, p.zeroTrims⟩
      else if labelLen = 0 then .ok ⟨st.trim, dataPtr, if st.nameLen = 0 then 1 else 0⟩
      else if sizeofName ≤ st.nameLen.toNat + labelLen.toNat then .error .assertion
      else
        (dnsNameReadLabel dataPtr labelLen).bind fun (buf, dataPtr) =>
          (st.snprintf (buf ++ [dot])).bind fun st => nameLoop packet rounds st dataPtr := rfl

theorem isLiteral_length (h : IsLiteral labelLen) : labelLen.toNat < 192 := by
  by_contra hge
  refine h.1 (BitVec.eq_of_toNat_eq ?_)
  rw [BitVec.toNat_ushiftRight, Nat.shiftRight_eq_div_pow]
  change _ = 3
  omega

theorem dnsNameReadLabel_append (hlength : label.length = labelLen.toNat) (rest : List Byte) :
    dnsNameReadLabel (label ++ rest) labelLen = .ok (cString label, rest) := by
  rw [dnsNameReadLabel, ← hlength, List.take_left, List.drop_left]
  exact if_pos (.inl rfl)

theorem nameLoop_label (hliteral : IsLiteral labelLen) (hlength : label.length = labelLen.toNat)
    (hfront : (dotted front).length < sizeofName)
    (hcheck : (dotted front).length + label.length < sizeofName) (rounds labelCount : ℕ) :
    nameLoop packet (rounds + 1) (stateOf labelCount (dotted front)) (labelLen :: (label ++ rest)) =
      if (dotted front).length + (cString label ++ [dot]).length < sizeofName then
        nameLoop packet rounds (stateOf labelCount (dotted (front ++ [label]))) rest
      else .error .writeOutside := by
  have htext : (cString label ++ [dot]).length < sizeofName := by
    have hle := cString_length_le label
    have hlit := isLiteral_length hliteral
    rw [List.length_append, List.length_singleton, sizeofName]
    omega
  rw [nameLoop_cons, if_neg hliteral.1, if_neg hliteral.2, stateOf_nameLen hfront,
    if_neg (by omega), dnsNameReadLabel_append hlength]
  change ((stateOf labelCount (dotted front)).snprintf _).bind _ = _
  rw [snprintf_stateOf hfront htext, dotted_append, dotted_singleton]
  split <;> rfl

theorem nameLoop_pointer (b2 : Byte) (hpointer : IsPointer labelLen) (rounds : ℕ)
    (st : DnsNameParseState) :
    nameLoop packet (rounds + 1) st (labelLen :: b2 :: rest) =
      (nameLoop packet rounds .zeroed (packet.drop (stringOffset labelLen b2))).bind fun p =>
        ({ st with labelCount := st.labelCount + 1 }.snprintf p.state.text).bind fun st =>
          .ok ⟨st, rest, p.zeroTrims⟩ := by
  rw [nameLoop_cons, if_pos hpointer]
  rfl

/-- What a call leaves of a name. -/
structure Leaves (levels : List (List Label)) (rest : List Byte) (p : NameParse) : Prop where
  text : p.state.text = nameText levels
  dataPtr : p.dataPtr = rest
  zeroTrims : p.zeroTrims = 0 ↔ levels.getLast? ≠ some []
  nameLen : p.state.nameLen =
    if levels = [[]] then 255 else BitVec.ofNat 8 (nameText levels).length

theorem Leaves.nameLen_toNat (h : Leaves levels rest p)
    (hroom : (nameText levels).length < sizeofName) (hne : levels ≠ [[]]) :
    p.state.nameLen.toNat = (nameText levels).length := by
  rw [h.nameLen, if_neg hne]
  exact (BitVec.toNat_ofNat _ _).trans (Nat.mod_eq_of_lt hroom)

theorem leaves_trim (hfit : LabelsFit front) (labelCount : ℕ) (rest : List Byte) :
    Leaves [front] rest ⟨(stateOf labelCount (dotted front)).trim, rest,
      if (stateOf labelCount (dotted front)).nameLen = 0 then 1 else 0⟩ := by
  by_cases hnil : front = []
  · subst hnil
    have htext : cString (List.replicate sizeofName 0) = [] := by
      rfl
    exact ⟨by rw [show dotted [] = [] from rfl, trim_stateOf_nil]; exact htext, rfl,
      by simp [stateOf, dotted], rfl⟩
  · have hlen := hfit.length
    have hne := mt dotted_eq_nil.mp hnil
    have hpos := List.length_pos_of_ne_nil hne
    have hshort : (dotted front).dropLast.length < sizeofName := by
      rw [List.length_dropLast]
      omega
    have hnameLen : (stateOf labelCount (dotted front)).nameLen ≠ 0 := by
      intro h
      have htoNat := stateOf_nameLen hlen labelCount
      rw [h] at htoNat
      exact hpos.ne htoNat
    rw [if_neg hnameLen, trim_stateOf hlen hne]
    refine ⟨stateOf_text (nameText_no_zero [front]) hshort labelCount, rfl, by simpa using hnil, ?_⟩
    rw [if_neg (by simpa using hnil)]
    rfl

theorem leaves_pointer {restAt : List Byte} (hne : levels ≠ []) (hp : Leaves levels restAt p)
    (hfit : LabelsFit front) (hroom : (nameText (front :: levels)).length < sizeofName)
    (labelCount : ℕ) (rest : List Byte) :
    ∃ st, (stateOf labelCount (dotted front)).snprintf p.state.text = .ok st ∧
      Leaves (front :: levels) rest ⟨st, rest, p.zeroTrims⟩ := by
  have htext := nameText_cons_of_ne_nil front hne
  rw [htext, List.length_append] at hroom
  refine ⟨stateOf labelCount (nameText (front :: levels)), ?_, ?_⟩
  · rw [hp.text, snprintf_stateOf hfit.length (by omega), if_pos hroom, htext]
  · have hshort : (nameText (front :: levels)).length < sizeofName := by
      rwa [htext, List.length_append]
    refine ⟨stateOf_text (nameText_no_zero _) hshort _, rfl, ?_, ?_⟩
    · rw [List.getLast?_cons_of_ne_nil hne]
      exact hp.zeroTrims
    · rw [if_neg (by simp [hne])]
      rfl

/-- The labels so far go before the first level. -/
def prepend (front : List Label) : List (List Label) → List (List Label)
  | [] => []
  | labels :: levels => (front ++ labels) :: levels

theorem prepend_zero (front : List Label) (levels : List (List Label)) :
    prepend front ([] :: levels) = front :: levels := by
  rw [prepend, List.append_nil]

theorem prepend_label (front labels : List Label) (label : Label) (levels : List (List Label)) :
    prepend front ((label :: labels) :: levels) =
      prepend (front ++ [label]) (labels :: levels) := by
  rw [prepend, prepend, List.append_assoc, List.singleton_append]

theorem prepend_nil (levels : List (List Label)) : prepend [] levels = levels := by
  cases levels <;> rfl

/-- **A whole name**, read after the labels `front` of its first level. -/
theorem nameLoop_finished (h : SpelledAt packet dataPtr levels e) :
    ∀ front : List Label, (∀ labels ∈ prepend front levels, LabelsFit labels) →
      (nameText (prepend front levels)).length < sizeofName → ∀ rest, e = .finished rest →
      ∃ enough, ∀ rounds ≥ enough, ∀ labelCount, ∃ p,
        nameLoop packet rounds (stateOf labelCount (dotted front)) dataPtr = .ok p ∧
          Leaves (prepend front levels) rest p := by
  induction h with
  | zero rest =>
    rintro front hfit - _ ⟨⟩
    rw [prepend_zero] at hfit ⊢
    refine ⟨1, fun rounds hrounds labelCount => ?_⟩
    obtain ⟨rounds, rfl⟩ := Nat.exists_eq_add_of_le' hrounds
    refine ⟨_, ?_, leaves_trim (hfit front List.mem_cons_self) labelCount rest⟩
    rw [nameLoop_cons, if_neg (by decide), if_pos rfl]
  | next hliteral rest =>
    rintro front - - _ ⟨⟩
  | label hliteral hlength h ih =>
    intro front hfit hroom rest he
    obtain ⟨hcheck, hdot⟩ := (hfit _ List.mem_cons_self).append
    rw [prepend_label] at hfit hroom ⊢
    obtain ⟨enough, hparse⟩ := ih _ hfit hroom rest he
    refine ⟨enough + 1, fun rounds hrounds labelCount => ?_⟩
    obtain ⟨rounds, rfl⟩ := Nat.exists_eq_add_of_le' hrounds
    rw [← Nat.add_assoc, nameLoop_label hliteral hlength (by omega) hcheck, if_pos hdot]
    exact hparse _ (Nat.le_add_left _ _) labelCount
  | @pointer labelLen levels e hpointer b2 rest h ih =>
    intro front hfit hroom rest' he
    obtain ⟨restAt, rfl⟩ : ∃ restAt, e = .finished restAt := by
      cases e with
      | finished restAt => exact ⟨restAt, rfl⟩
      | next labelLen => cases he
    cases he
    rw [prepend_zero] at hfit hroom ⊢
    have hne := h.levels_ne_nil
    have hinner : (nameText levels).length < sizeofName := by
      rw [nameText_cons_of_ne_nil front hne, List.length_append] at hroom
      omega
    obtain ⟨enough, hparse⟩ := ih []
      (by rw [prepend_nil]; exact fun labels hl => hfit labels (.tail _ hl))
      (by rwa [prepend_nil]) restAt rfl
    refine ⟨enough + 1, fun rounds hrounds labelCount => ?_⟩
    obtain ⟨rounds, rfl⟩ := Nat.exists_eq_add_of_le' hrounds
    obtain ⟨p, hp, hleaves⟩ := hparse (rounds + enough) (Nat.le_add_left _ _) 0
    rw [prepend_nil] at hleaves
    obtain ⟨st, hst, hleft⟩ := leaves_pointer hne hleaves (hfit front List.mem_cons_self) hroom
      (labelCount + 1) rest
    refine ⟨_, ?_, hleft⟩
    rw [← Nat.add_assoc, nameLoop_pointer b2 hpointer]
    change (nameLoop packet _ (stateOf 0 (dotted [])) _).bind _ = _
    rw [hp]
    change ((stateOf (labelCount + 1) (dotted front)).snprintf p.state.text).bind _ = _
    rw [hst]
    rfl

/-- **A label that is too long** stops the program, at whatever depth. -/
theorem nameLoop_next (h : SpelledAt packet dataPtr levels e) :
    ∀ front : List Label, (∀ labels ∈ prepend front levels, LabelsFit labels) →
      ∀ labelLen, e = .next labelLen → EndsWell (prepend front levels) (.next labelLen) →
      ∃ enough, ∀ rounds ≥ enough, ∀ labelCount,
        nameLoop packet rounds (stateOf labelCount (dotted front)) dataPtr = .error .assertion := by
  induction h with
  | zero rest =>
    rintro front - _ ⟨⟩
  | next hliteral rest =>
    rintro front hfit _ ⟨⟩ ⟨labels, hlast, hlong⟩
    rw [prepend_zero] at hfit hlast
    obtain rfl : front = labels := Option.some.inj hlast
    refine ⟨1, fun rounds hrounds labelCount => ?_⟩
    obtain ⟨rounds, rfl⟩ := Nat.exists_eq_add_of_le' hrounds
    rw [nameLoop_cons, if_neg hliteral.1, if_neg hliteral.2,
      stateOf_nameLen (hfit front List.mem_cons_self).length, if_pos hlong]
  | label hliteral hlength h ih =>
    intro front hfit labelLen he hends
    obtain ⟨hcheck, hdot⟩ := (hfit _ List.mem_cons_self).append
    rw [prepend_label] at hfit hends
    obtain ⟨enough, hparse⟩ := ih _ hfit labelLen he hends
    refine ⟨enough + 1, fun rounds hrounds labelCount => ?_⟩
    obtain ⟨rounds, rfl⟩ := Nat.exists_eq_add_of_le' hrounds
    rw [← Nat.add_assoc, nameLoop_label hliteral hlength (by omega) hcheck, if_pos hdot]
    exact hparse _ (Nat.le_add_left _ _) labelCount
  | @pointer labelLen levels e hpointer b2 rest h ih =>
    rintro front hfit nextLen he ⟨labels, hlast, hlong⟩
    obtain rfl : e = .next nextLen := by
      cases e with
      | finished restAt => cases he
      | next labelLen => exact he
    rw [prepend_zero] at hfit hlast
    rw [List.getLast?_cons_of_ne_nil h.levels_ne_nil] at hlast
    obtain ⟨enough, hparse⟩ := ih []
      (by rw [prepend_nil]; exact fun labels hl => hfit labels (.tail _ hl)) nextLen rfl
      (by rw [prepend_nil]; exact ⟨labels, hlast, hlong⟩)
    refine ⟨enough + 1, fun rounds hrounds labelCount => ?_⟩
    obtain ⟨rounds, rfl⟩ := Nat.exists_eq_add_of_le' hrounds
    rw [← Nat.add_assoc, nameLoop_pointer b2 hpointer]
    change (nameLoop packet _ (stateOf 0 (dotted [])) _).bind _ = _
    rw [hparse _ (Nat.le_add_left _ _) 0]
    rfl

/-! ### Safe calls -/

/-- The call returns without having decremented a length of zero, or an assertion fails. -/
def Fine : Except Stop NameParse → Prop
  | .ok p => p.zeroTrims = 0
  | .error stop => stop = .assertion

/-- Behind a label that is read stands the label, if anything is left. -/
theorem dnsNameReadLabel_cases (dataPtr : List Byte) (labelLen : Byte) :
    dnsNameReadLabel dataPtr labelLen = .error .readOutside ∨
      (∃ buf, dnsNameReadLabel dataPtr labelLen = .ok (buf, [])) ∨
      ∃ label rest, label.length = labelLen.toNat ∧ dataPtr = label ++ rest := by
  by_cases hlong : labelLen.toNat < dataPtr.length
  · exact .inr (.inr ⟨dataPtr.take labelLen.toNat, _, List.length_take_of_le hlong.le,
      (List.take_append_drop _ _).symm⟩)
  · rw [dnsNameReadLabel, List.drop_of_length_le (Nat.not_lt.mp hlong)]
    split
    · exact .inr (.inl ⟨_, rfl⟩)
    · exact .inl rfl

theorem snprintf_cases (st : DnsNameParseState) (s : List Byte) :
    (∃ st', st.snprintf s = .ok st') ∨ st.snprintf s = .error .writeOutside := by
  rw [DnsNameParseState.snprintf]
  split
  · exact .inl ⟨_, rfl⟩
  · exact .inr rfl

theorem not_fine_nil (packet : List Byte) (rounds : ℕ) (st : DnsNameParseState) :
    ¬Fine (nameLoop packet rounds st []) := by
  cases rounds <;> exact fun h => by cases h

/-- How a call that was safe has ended on a spelling: behind the name, with its text, or before a
label. -/
def EndsAt (levels : List (List Label)) (e : NameEnd) : Except Stop NameParse → Prop
  | .ok p => e = .finished p.dataPtr ∧ p.state.text = nameText levels
  | .error _ => ∃ labelLen, e = .next labelLen

/-- A spelling of the bytes, with the labels `front` before it, as a safe call needs it. -/
def SpelledWell (packet dataPtr : List Byte) (front : List Label) (r : Except Stop NameParse) :
    Prop :=
  ∃ levels e, SpelledAt packet dataPtr levels e ∧
    (∀ labels ∈ prepend front levels, LabelsFit labels) ∧ EndsWell (prepend front levels) e ∧
    EndsAt (prepend front levels) e r

theorem spelledWell_pointer {packet rest : List Byte} {labelLen b2 : Byte}
    {inner : Except Stop NameParse} (hpointer : IsPointer labelLen) (hfit : LabelsFit front)
    (labelCount : ℕ) (hinner : Fine inner →
      SpelledWell packet (packet.drop (stringOffset labelLen b2)) [] inner) :
    let r := inner.bind fun p =>
      ({ stateOf labelCount (dotted front) with labelCount := labelCount + 1 }.snprintf
        p.state.text).bind fun st => .ok ⟨st, rest, p.zeroTrims⟩
    Fine r → SpelledWell packet (labelLen :: b2 :: rest) front r := by
  intro r hfine
  cases inner with
  | error stop =>
    obtain ⟨levels, e, hspelled, hfits, hends, next, rfl⟩ := hinner hfine
    rw [prepend_nil] at hfits hends
    obtain ⟨labels, hlast, hlong⟩ := hends
    refine ⟨[] :: levels, _, .pointer hpointer b2 rest hspelled, ?_, ?_, next, rfl⟩
    all_goals rw [prepend_zero]
    · exact List.forall_mem_cons.mpr ⟨hfit, hfits⟩
    · exact ⟨labels, by rwa [List.getLast?_cons_of_ne_nil hspelled.levels_ne_nil], hlong⟩
  | ok p =>
    have htrims : Fine (.ok p) := by
      obtain ⟨st, hst⟩ | hst := snprintf_cases (stateOf (labelCount + 1) (dotted front)) p.state.text
      all_goals
        change Fine (((stateOf (labelCount + 1) (dotted front)).snprintf p.state.text).bind _) at hfine
        rw [hst] at hfine
      · exact hfine
      · cases hfine
    obtain ⟨levels, e, hspelled, hfits, hends, rfl, htext⟩ := hinner htrims
    rw [prepend_nil] at hfits hends htext
    have hne := hspelled.levels_ne_nil
    have hname := nameText_cons_of_ne_nil front hne
    have happend := snprintf_stateOf hfit.length hends.2 (labelCount + 1)
    change Fine (((stateOf (labelCount + 1) (dotted front)).snprintf p.state.text).bind _) at hfine
    change SpelledWell _ _ _
      (((stateOf (labelCount + 1) (dotted front)).snprintf p.state.text).bind _)
    rw [htext, happend] at hfine ⊢
    split at hfine
    · rename_i hroom
      rw [if_pos hroom]
      rw [← List.length_append, ← hname] at hroom
      refine ⟨[] :: levels, _, .pointer hpointer b2 rest hspelled, ?_, ?_, rfl, ?_⟩
      all_goals rw [prepend_zero]
      · exact List.forall_mem_cons.mpr ⟨hfit, hfits⟩
      · exact ⟨by rw [List.getLast?_cons_of_ne_nil hne]; exact hends.1, hroom⟩
      · rw [← hname]
        exact stateOf_text (nameText_no_zero _) hroom _
    · cases hfine

/-- **What a safe call has read** is well spelled. -/
theorem spelledWell_of_nameLoop (packet : List Byte) : ∀ (rounds : ℕ) (dataPtr : List Byte)
    (front : List Label) (labelCount : ℕ), LabelsFit front →
    Fine (nameLoop packet rounds (stateOf labelCount (dotted front)) dataPtr) →
    SpelledWell packet dataPtr front
      (nameLoop packet rounds (stateOf labelCount (dotted front)) dataPtr) := by
  intro rounds
  induction rounds with
  | zero => exact fun _ _ _ _ h => by cases h
  | succ rounds ih =>
    intro dataPtr front labelCount hfit hfine
    have hlen := hfit.length
    rcases dataPtr with _ | ⟨labelLen, dataPtr⟩
    · exact absurd hfine (not_fine_nil _ _ _)
    by_cases hpointer : IsPointer labelLen
    · rcases dataPtr with _ | ⟨b2, rest⟩
      · rw [nameLoop_cons, if_pos hpointer] at hfine
        cases hfine
      · rw [nameLoop_pointer b2 hpointer] at hfine ⊢
        exact spelledWell_pointer hpointer hfit labelCount
          (ih (packet.drop (stringOffset labelLen b2)) [] 0 LabelsFit.nil) hfine
    by_cases hzero : labelLen = 0
    · subst hzero
      have hleaves := leaves_trim hfit labelCount dataPtr
      refine ⟨[[]], _, .zero dataPtr, ?_, ?_, ?_⟩
      all_goals rw [prepend_zero]
      · exact List.forall_mem_singleton.mpr hfit
      · refine ⟨hleaves.zeroTrims.mp hfine, ?_⟩
        rw [nameText, List.length_dropLast]
        omega
      · exact ⟨rfl, hleaves.text⟩
    have hliteral : IsLiteral labelLen := ⟨hpointer, hzero⟩
    by_cases hlong : sizeofName ≤ (dotted front).length + labelLen.toNat
    · rw [nameLoop_cons, if_neg hpointer, if_neg hzero, stateOf_nameLen hlen, if_pos hlong]
      refine ⟨[[]], _, .next hliteral dataPtr, ?_, ?_, labelLen, rfl⟩
      all_goals rw [prepend_zero]
      · exact List.forall_mem_singleton.mpr hfit
      · exact ⟨front, rfl, hlong⟩
    rcases dnsNameReadLabel_cases dataPtr labelLen with hread | ⟨buf, hread⟩ |
      ⟨label, rest, hlength, rfl⟩
    · rw [nameLoop_cons, if_neg hpointer, if_neg hzero, stateOf_nameLen hlen, if_neg hlong,
        hread] at hfine
      cases hfine
    · rw [nameLoop_cons, if_neg hpointer, if_neg hzero, stateOf_nameLen hlen, if_neg hlong,
        hread] at hfine
      change Fine (((stateOf labelCount (dotted front)).snprintf _).bind _) at hfine
      obtain ⟨st, hst⟩ | hst := snprintf_cases (stateOf labelCount (dotted front)) (buf ++ [dot])
      all_goals rw [hst] at hfine
      · exact absurd hfine (not_fine_nil _ _ _)
      · cases hfine
    · have hcheck : (dotted front).length + label.length < sizeofName := by omega
      rw [nameLoop_label hliteral hlength hlen hcheck] at hfine ⊢
      split at hfine
      · rename_i hroom
        rw [if_pos hroom]
        obtain ⟨levels, e, hspelled, hfits, hends, htext⟩ :=
          ih rest (front ++ [label]) labelCount (hfit.concat hcheck hroom) hfine
        obtain ⟨labels, levels, rfl⟩ := List.exists_cons_of_ne_nil hspelled.levels_ne_nil
        rw [← prepend_label] at hfits hends htext
        exact ⟨_, e, .label hliteral hlength hspelled, hfits, hends, htext⟩
      · cases hfine

/-- What a call must not do: it ends, at an assertion or with a state for which no length of zero was
decremented and whose length is that of its text, and it has not come to the end of a buffer. -/
def EndsSafely : Except Stop NameParse → Prop
  | .ok p => p.zeroTrims = 0 ∧ p.state.nameLen.toNat = p.state.text.length
  | .error stop => stop = .assertion

def Safe (packet dataPtr : List Byte) : Prop :=
  ∃ rounds, EndsSafely (parseDnsName packet rounds dataPtr)

/-- **Parsing a name is safe** exactly on what is well spelled, whatever the bytes of the message and
wherever the name is, in the message or in a copy of a record's data. -/
theorem safe_iff_wellSpelled (packet dataPtr : List Byte) :
    Safe packet dataPtr ↔ WellSpelled packet dataPtr := by
  constructor
  · rintro ⟨rounds, hsafe⟩
    have hfine : Fine (parseDnsName packet rounds dataPtr) := by
      cases h : parseDnsName packet rounds dataPtr with
      | ok p => exact (h ▸ hsafe : EndsSafely (.ok p)).1
      | error stop => exact (h ▸ hsafe : EndsSafely (.error stop))
    obtain ⟨levels, e, hspelled, hfits, hends, -⟩ :=
      spelledWell_of_nameLoop packet rounds dataPtr [] 0 LabelsFit.nil hfine
    rw [prepend_nil] at hfits hends
    exact ⟨levels, e, hspelled, hfits, hends⟩
  · rintro ⟨levels, e, hspelled, hfits, hends⟩
    have hfits' : ∀ labels ∈ prepend [] levels, LabelsFit labels := by rwa [prepend_nil]
    cases e with
    | finished rest =>
      obtain ⟨enough, hparse⟩ :=
        nameLoop_finished hspelled [] hfits' (by rw [prepend_nil]; exact hends.2) rest rfl
      obtain ⟨p, hp, hleaves⟩ := hparse enough (Nat.le_refl _) 0
      rw [prepend_nil] at hleaves
      refine ⟨enough, ?_⟩
      change EndsSafely (nameLoop packet enough (stateOf 0 (dotted [])) dataPtr)
      rw [hp]
      refine ⟨hleaves.zeroTrims.mpr hends.1, ?_⟩
      rw [hleaves.text]
      exact hleaves.nameLen_toNat hends.2 fun h => hends.1 (by rw [h]; rfl)
    | next labelLen =>
      obtain ⟨enough, hparse⟩ :=
        nameLoop_next hspelled [] hfits' labelLen rfl (by rwa [prepend_nil])
      refine ⟨enough, ?_⟩
      change EndsSafely (nameLoop packet enough (stateOf 0 (dotted [])) dataPtr)
      rw [hparse enough (Nat.le_refl _) 0]
      exact rfl

/-! ### What a call stores -/

/-- The text fits, and `name_len` is its length or, for a name without labels, 255. -/
structure Stored (st : DnsNameParseState) : Prop where
  fits : st.text.length < sizeofName
  len : st.nameLen.toNat = st.text.length ∨ st.text = [] ∧ st.nameLen = 255

theorem stored_stateOf {text : List Byte} (htext : 0 ∉ text) (hlen : text.length < sizeofName)
    (labelCount : ℕ) : Stored (stateOf labelCount text) where
  fits := by rwa [stateOf_text htext hlen]
  len := by
    rw [stateOf_text htext hlen]
    exact .inl (stateOf_nameLen hlen labelCount)

theorem snprintf_eq_ok {labelCount : ℕ} {text s : List Byte} {st : DnsNameParseState}
    (htext : text.length < sizeofName) (hs : s.length < sizeofName)
    (h : (stateOf labelCount text).snprintf s = .ok st) :
    (text ++ s).length < sizeofName ∧ st = stateOf labelCount (text ++ s) := by
  rw [snprintf_stateOf htext hs] at h
  split at h
  · exact ⟨by rwa [List.length_append], (Except.ok.inj h).symm⟩
  · cases h

theorem dnsNameReadLabel_text {buf : List Byte} (hliteral : IsLiteral labelLen)
    (h : dnsNameReadLabel dataPtr labelLen = .ok (buf, rest)) :
    0 ∉ buf ++ [dot] ∧ (buf ++ [dot]).length < sizeofName := by
  rw [dnsNameReadLabel] at h
  split at h
  · obtain ⟨rfl, -⟩ := Prod.mk.inj (Except.ok.inj h)
    have hlen := (cString_length_le (dataPtr.take labelLen.toNat)).trans (List.length_take_le _ _)
    have hlit := isLiteral_length hliteral
    have hzero : 0#8 ≠ dot := by decide
    rw [List.length_append, List.length_singleton, sizeofName]
    exact ⟨by simpa [hzero] using cString_no_zero _, by omega⟩
  · cases h

theorem bind_eq_ok {ε α β : Type} {x : Except ε α} {f : α → Except ε β} {b : β}
    (h : x.bind f = .ok b) : ∃ a, x = .ok a ∧ f a = .ok b := by
  cases x with
  | error e => cases h
  | ok a => exact ⟨a, rfl, h⟩

/-- **Whatever the message is**, a call that returns has stored a text. -/
theorem stored_of_nameLoop (packet : List Byte) : ∀ (rounds : ℕ) (dataPtr text : List Byte)
    (labelCount : ℕ) (p : NameParse), 0 ∉ text → text.length < sizeofName →
    nameLoop packet rounds (stateOf labelCount text) dataPtr = .ok p → Stored p.state := by
  intro rounds
  induction rounds with
  | zero =>
    intro _ _ _ _ _ _ h
    cases h
  | succ rounds ih =>
    intro dataPtr text labelCount p htext hlen h
    rcases dataPtr with _ | ⟨labelLen, dataPtr⟩
    · cases h
    rw [nameLoop_cons] at h
    split at h
    · obtain ⟨⟨b2, rest⟩, -, h⟩ := bind_eq_ok h
      obtain ⟨inner, hinner, h⟩ := bind_eq_ok h
      obtain ⟨st, hst, h⟩ := bind_eq_ok h
      have hstored := ih _ [] 0 inner (by simp) (by decide) hinner
      obtain ⟨hroom, rfl⟩ := @snprintf_eq_ok (labelCount + 1) _ _ _ hlen hstored.fits hst
      cases h
      refine stored_stateOf ?_ hroom _
      rw [List.mem_append, not_or]
      exact ⟨htext, cString_no_zero _⟩
    · rename_i hpointer
      split at h
      · cases h
        by_cases hnil : text = []
        · subst hnil
          have hempty : cString (stateOf labelCount []).name = [] := stateOf_text htext hlen _
          rw [trim_stateOf_nil]
          exact ⟨by rw [DnsNameParseState.text, hempty]; decide, .inr ⟨hempty, rfl⟩⟩
        · rw [trim_stateOf hlen hnil]
          refine stored_stateOf (fun h => htext (List.mem_of_mem_dropLast h)) ?_ _
          rw [List.length_dropLast]
          omega
      · rename_i hzero
        split at h
        · cases h
        · obtain ⟨⟨buf, rest⟩, hread, h⟩ := bind_eq_ok h
          obtain ⟨st, hst, h⟩ := bind_eq_ok h
          obtain ⟨hbuf, hbuflen⟩ := dnsNameReadLabel_text ⟨hpointer, hzero⟩ hread
          obtain ⟨hroom, rfl⟩ := snprintf_eq_ok hlen hbuflen hst
          refine ih rest _ labelCount p ?_ hroom h
          rw [List.mem_append, not_or]
          exact ⟨htext, hbuf⟩

/-- A header with one question, whose name is a pointer to itself, and the name of the root. -/
def selfPointer : List Byte := [0, 1, 0, 0, 0, 1, 0, 0, 0, 0, 0, 0, 0xc0, 0x0c, 0, 1, 0, 1]

def rootName : List Byte := [0, 1, 0, 0, 0, 1, 0, 0, 0, 0, 0, 0, 0, 0, 1, 0, 1]

/-- Labels of 127 and 127 characters, and of none but a zero byte behind them. -/
def fullName : List Byte :=
  [0, 1, 0, 0, 0, 1, 0, 0, 0, 0, 0, 0] ++ 127 :: List.replicate 127 0x61 ++
    127 :: List.replicate 127 0x61 ++ [0, 0, 1, 0, 1]

theorem unsafe_names :
    (∀ rounds, parseDnsName selfPointer rounds (selfPointer.drop 12) = .error .rounds) ∧
      parseDnsName rootName 1 (rootName.drop 12) =
        .ok ⟨⟨0, 255, List.replicate 256 0⟩, [0, 1, 0, 1], 1⟩ ∧
      parseDnsName fullName 3 (fullName.drop 12) = .error .writeOutside ∧
      ¬Safe selfPointer (selfPointer.drop 12) := by
  have hself : ∀ rounds, parseDnsName selfPointer rounds (selfPointer.drop 12) = .error .rounds := by
    intro rounds
    induction rounds with
    | zero => rfl
    | succ rounds ih =>
      change (parseDnsName selfPointer rounds (selfPointer.drop 12)).bind _ = _
      rw [ih]
      rfl
  refine ⟨hself, by decide +kernel, by decide +kernel, ?_⟩
  rintro ⟨rounds, hsafe⟩
  rw [hself] at hsafe
  cases hsafe

end Axle.Net.Dns
