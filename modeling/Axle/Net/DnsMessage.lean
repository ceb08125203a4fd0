import Axle.Net.DnsName

/-!
# DNS messages

`dns_receive` of `net/dns.c`: the questions and answers of a message are parsed one after the other,
each where the one before it has ended, and what the answers say is filed in two tables.

* `parseDnsQuestion`, `parseDnsAnswer`, `dnsReceive` — the functions;
* `Name.stored_exact_iff` — **PROVED**: which names are stored as they are.
-/

namespace Axle.Net.Dns

open Axle.Lib.StepRun

/-! ### Records -/

/-- A state in which a text is stored. -/
def DnsNameParseState.parsedName (st : DnsNameParseState) (h : Stored st) : ParsedName where
  name := st.text
  nameLen := st.nameLen
  text := st.text_no_zero
  fits := h.fits
  len := h.len

/-- `_parse_dns_name`, with the state as what it stores. -/
def parseName (packet : List Byte) (rounds : ℕ) (dataPtr : List Byte) :
    Except Stop (ParsedName × List Byte) :=
  match h : parseDnsName packet rounds dataPtr with
  | .error stop => .error stop
  | .ok p => .ok (p.state.parsedName
      (stored_of_nameLoop packet rounds dataPtr [] 0 p List.not_mem_nil (by decide) h), p.dataPtr)

/-- `_read_u16` -/
def readU16 (dataPtr : List Byte) : Except Stop (BitVec 16 × List Byte) := do
  let (b1, dataPtr) ← readByte dataPtr
  let (b2, dataPtr) ← readByte dataPtr
  .ok (b1 ++ b2, dataPtr)

/-- `_read_u32`, whose `val` is a `uint16_t`. -/
def readU32 (dataPtr : List Byte) : Except Stop (BitVec 32 × List Byte) := do
  let (b1, dataPtr) ← readByte dataPtr
  let (b2, dataPtr) ← readByte dataPtr
  let (b3, dataPtr) ← readByte dataPtr
  let (b4, dataPtr) ← readByte dataPtr
  let val : BitVec 16 := (b1 ++ b2 ++ b3 ++ b4 : BitVec 32).setWidth 16
  .ok (val.setWidth 32, dataPtr)

/-- `memcpy` of a record's data. -/
def readData (dataPtr : List Byte) (dataLength : ℕ) : Except Stop (List Byte × List Byte) :=
  if dataLength ≤ dataPtr.length then .ok (dataPtr.take dataLength, dataPtr.drop dataLength)
  else .error .readOutside

structure DnsQuestion where
  parsedName : ParsedName
  type : BitVec 16
  cls : BitVec 16
deriving DecidableEq, Repr

structure DnsAnswer where
  parsedName : ParsedName
  type : BitVec 16
  cls : BitVec 16
  timeToLive : BitVec 32
  dataLength : BitVec 16
  data : List Byte
deriving DecidableEq, Repr

def dnsTypePointer : BitVec 16 := 12
def dnsTypeARecord : BitVec 16 := 1
def dnsTypeCname : BitVec 16 := 5

/-! ### Services -/

/-- An allocated `dns_service_type_t` with its allocated instances. -/
structure DnsServiceType where
  typeName : ParsedName
  instances : List ParsedName
deriving DecidableEq, Repr

def dnsServiceTypeTableSize : ℕ := 64
def dnsServiceInstanceTableSize : ℕ := 64

/-- The instances of a service with one more: as they are if it is there, else in the first free
entry, and with a failing assertion if there is none. -/
def insertInstance (ptrRecord : ParsedName) (instances : List ParsedName) :
    Option (List ParsedName) :=
  if ∃ ent ∈ instances, ent.name = ptrRecord.name then some instances
  else if instances.length < dnsServiceInstanceTableSize then some (instances ++ [ptrRecord])
  else none

/-- The first loop of `_find_or_create_dns_service_type`, with the update of what it finds. -/
def updateService (answerName ptrRecord : ParsedName) :
    List DnsServiceType → Option (Option (List DnsServiceType))
  | [] => none
  | ent :: ents =>
    if ent.typeName.name = answerName.name then
      some ((insertInstance ptrRecord ent.instances).map fun instances =>
        { ent with instances } :: ents)
    else (updateService answerName ptrRecord ents).map (Option.map (ent :: ·))

/-- `_update_dns_service_type_with_ptr_record` -/
def updateDnsServiceType (answerName ptrRecord : ParsedName) (types : List DnsServiceType) :
    Option (List DnsServiceType) :=
  match updateService answerName ptrRecord types with
  | some updated => updated
  | none =>
    if types.length < dnsServiceTypeTableSize then
      (insertInstance ptrRecord []).map fun instances => types ++ [⟨answerName, instances⟩]
    else none

/-! ### The message -/

/-- The two tables, and the clients that wait for a record. -/
structure DnsState where
  service : DnsService
  serviceTypes : List DnsServiceType
deriving DecidableEq, Repr

/-- An assertion of the tables. -/
def asserted {α : Type} : Option α → Except Stop α
  | some a => .ok a
  | none => .error .assertion

def parseDnsQuestion (packet : List Byte) (rounds : ℕ) (dataPtr : List Byte) :
    Except Stop (DnsQuestion × List Byte) := do
  let (parsedName, dataPtr) ← parseName packet rounds dataPtr
  let (type, dataPtr) ← readU16 dataPtr
  let (cls, dataPtr) ← readU16 dataPtr
  .ok (⟨parsedName, type, cls⟩, dataPtr)

/-- What is done with an answer, by its type.  A name in its data is parsed in the copy of the data. -/
def handleAnswer (packet : List Byte) (rounds : ℕ) (s : DnsState) (answer : DnsAnswer) :
    Except Stop DnsState :=
  if answer.type = dnsTypePointer then do
    let (pointerParse, _) ← parseName packet rounds answer.data
    let serviceTypes ← asserted (updateDnsServiceType answer.parsedName pointerParse s.serviceTypes)
    .ok { s with serviceTypes }
  else if answer.type = dnsTypeARecord then do
    let service ← asserted (dnsReceiveARecord s.service ⟨answer.parsedName, answer.data⟩)
    .ok { s with service }
  else if answer.type = dnsTypeCname then do
    let _ ← parseName packet rounds answer.data
    .ok s
  else .ok s

def parseDnsAnswer (packet : List Byte) (rounds : ℕ) (s : DnsState) (dataPtr : List Byte) :
    Except Stop (DnsAnswer × DnsState × List Byte) := do
  let (parsedName, dataPtr) ← parseName packet rounds dataPtr
  let (type, dataPtr) ← readU16 dataPtr
  let (cls, dataPtr) ← readU16 dataPtr
  let (timeToLive, dataPtr) ← readU32 dataPtr
  let (dataLength, dataPtr) ← readU16 dataPtr
  let (data, dataPtr) ← readData dataPtr dataLength.toNat
  let answer : DnsAnswer := ⟨parsedName, type, cls, timeToLive, dataLength, data⟩
  let s ← handleAnswer packet rounds s answer
  .ok (answer, s, dataPtr)

def parseQuestions (packet : List Byte) (rounds : ℕ) :
    ℕ → List Byte → Except Stop (List DnsQuestion × List Byte)
  | 0, dataHead => .ok ([], dataHead)
  | count + 1, dataHead => do
    let (question, dataHead) ← parseDnsQuestion packet rounds dataHead
    let (questions, dataHead) ← parseQuestions packet rounds count dataHead
    .ok (question :: questions, dataHead)

def parseAnswers (packet : List Byte) (rounds : ℕ) :
    ℕ → DnsState → List Byte → Except Stop (List DnsAnswer × DnsState × List Byte)
  | 0, s, dataHead => .ok ([], s, dataHead)
  | count + 1, s, dataHead => do
    let (answer, s, dataHead) ← parseDnsAnswer packet rounds s dataHead
    let (answers, s, dataHead) ← parseAnswers packet rounds count s dataHead
    .ok (answer :: answers, s, dataHead)

/-- `opcode:4` behind `query_response_flag:1`: the fields of `dns_packet_t` go from the low bits of
the third byte to the high ones. -/
def opcode (b2 : Byte) : BitVec 4 := b2.extractLsb' 1 4

def dnsOpQuery : BitVec 4 := 0
def dnsOpStatus : BitVec 4 := 2

/-- What was parsed, and where the last record ended. -/
structure DnsReceived where
  questions : List DnsQuestion
  answers : List DnsAnswer
  dataHead : List Byte
  state : DnsState
deriving DecidableEq, Repr

def dnsReceive (rounds : ℕ) (s : DnsState) (packet : List Byte) : Except Stop DnsReceived :=
  match packet with
  | _ :: _ :: b2 :: _ :: q1 :: q2 :: a1 :: a2 :: _ :: _ :: _ :: _ :: dnsData =>
    if opcode b2 = dnsOpQuery ∨ opcode b2 = dnsOpStatus then do
      let (questions, dataHead) ←
        parseQuestions packet rounds (q1 ++ q2 : BitVec 16).toNat dnsData
      let (answers, s, dataHead) ←
        parseAnswers packet rounds (a1 ++ a2 : BitVec 16).toNat s dataHead
      .ok ⟨questions, answers, dataHead, s⟩
    else .ok ⟨[], [], dnsData, s⟩
  | _ => .error .readOutside

/-! ### Well-formed responses -/

/-- Numbers in network order. -/
def be16 (x : BitVec 16) : List Byte := [x.extractLsb' 8 8, x.extractLsb' 0 8]

def be32 (x : BitVec 32) : List Byte :=
  [x.extractLsb' 24 8, x.extractLsb' 16 8, x.extractLsb' 8 8, x.extractLsb' 0 8]

/-- The bytes labels take with their lengths. -/
def wireLength (labels : List Label) : ℕ := (labels.map fun label => label.length + 1).sum

/-- A name within the limits of RFC 1035, with the levels on which its labels are spelled. -/
structure Name where
  levels : List (List Label)
  levels_ne_nil : levels ≠ []
  nonempty : ∀ label ∈ levels.flatten, label ≠ []
  short : ∀ label ∈ levels.flatten, label.length ≤ 63
  total : wireLength levels.flatten + 1 ≤ 255

/-- The full expansion. -/
def Name.text (n : Name) : List Byte := List.intercalate [dot] n.levels.flatten

/-- The name is spelled in the message at these bytes, and ends before `rest`. -/
def Name.At (n : Name) (packet bytes rest : List Byte) : Prop :=
  SpelledAt packet bytes n.levels (.finished rest)

structure Question where
  name : Name
  type : BitVec 16
  cls : BitVec 16

def Question.At (packet : List Byte) (q : Question) (bytes rest : List Byte) : Prop :=
  q.name.At packet bytes (be16 q.type ++ (be16 q.cls ++ rest))

/-- An answer; `target` is the name that its data spells, if it is a pointer or a CNAME. -/
structure Record where
  name : Name
  type : BitVec 16
  cls : BitVec 16
  timeToLive : BitVec 32
  data : List Byte
  dataShort : data.length < 2 ^ 16
  target : Option Name

/-- `IN` -/
def dnsClassInternet : BitVec 16 := 1

structure Record.At (packet : List Byte) (r : Record) (bytes rest : List Byte) : Prop where
  spelled : r.name.At packet bytes (be16 r.type ++ (be16 r.cls ++ (be32 r.timeToLive ++
    (be16 (BitVec.ofNat 16 r.data.length) ++ (r.data ++ rest)))))
  target : r.type = dnsTypePointer ∨ r.type = dnsTypeCname →
    ∃ n, r.target = some n ∧ n.At packet r.data []
  address : r.type = dnsTypeARecord → r.cls = dnsClassInternet → r.data.length = ipv4AddrSize

/-- One behind the other. -/
inductive InTurn {α : Type} (At : α → List Byte → List Byte → Prop) :
    List α → List Byte → List Byte → Prop
  | nil (rest : List Byte) : InTurn At [] rest rest
  | cons {a : α} {as : List α} {bytes next rest : List Byte} (h : At a bytes next)
    (more : InTurn At as next rest) : InTurn At (a :: as) bytes rest

/-- A well-formed response; `rest` is what follows its answers. -/
structure ResponseMessage where
  packet : List Byte
  identifier : BitVec 16
  flags : BitVec 16
  authorityCount : BitVec 16
  additionalRecordCount : BitVec 16
  questions : List Question
  answers : List Record
  body : List Byte
  answersAt : List Byte
  rest : List Byte
  questions_short : questions.length < 2 ^ 16
  answers_short : answers.length < 2 ^ 16
  packet_eq : packet = be16 identifier ++ be16 flags ++ be16 (BitVec.ofNat 16 questions.length) ++
    be16 (BitVec.ofNat 16 answers.length) ++ be16 authorityCount ++ be16 additionalRecordCount ++
    body
  isResponse : flags.getLsbD 15 = true
  questionsSpelled : InTurn (Question.At packet) questions body answersAt
  answersSpelled : InTurn (Record.At packet) answers answersAt rest

/-- What is stored of a name is its expansion, with its length. -/
def ParsedName.Exact (p : ParsedName) (n : Name) : Prop :=
  p.name = n.text ∧ p.nameLen.toNat = p.name.length

structure DnsQuestion.Exact (parsed : DnsQuestion) (q : Question) : Prop where
  name : parsed.parsedName.Exact q.name
  type : parsed.type = q.type
  cls : parsed.cls = q.cls

structure DnsAnswer.Exact (parsed : DnsAnswer) (r : Record) : Prop where
  name : parsed.parsedName.Exact r.name
  type : parsed.type = r.type
  cls : parsed.cls = r.cls
  timeToLive : parsed.timeToLive = r.timeToLive
  dataLength : parsed.dataLength.toNat = r.data.length
  data : parsed.data = r.data

/-- The message is read to the end of its answers, and gives its questions and answers in order. -/
def Decodes (s : DnsState) (r : ResponseMessage) : Prop :=
  ∃ enough, ∀ rounds ≥ enough, ∃ received, dnsReceive rounds s r.packet = .ok received ∧
    List.Forall₂ DnsQuestion.Exact received.questions r.questions ∧
    List.Forall₂ DnsAnswer.Exact received.answers r.answers ∧ received.dataHead = r.rest

/-! ### When a response is decoded -/

/-- No label has a NUL, and a name whose last pointer leads to the root has no labels, and is not the
root itself. -/
def Name.Plain (n : Name) : Prop :=
  (∀ label ∈ n.levels.flatten, 0 ∉ label) ∧
    (n.levels.getLast? = some [] → n.levels.flatten = [] ∧ n.levels ≠ [[]])

/-! ### Names within the limits -/

theorem wireLength_append (front back : List Label) :
    wireLength (front ++ back) = wireLength front + wireLength back := by
  rw [wireLength, List.map_append, List.sum_append]
  rfl

theorem dotted_length_le (labels : List Label) : (dotted labels).length ≤ wireLength labels := by
  induction labels with
  | nil => exact Nat.le_refl _
  | cons label labels ih =>
    have hle := cString_length_le label
    have hcons : (dotted (label :: labels)).length =
        (cString label).length + 1 + (dotted labels).length := by
      rw [dotted, List.flatMap_cons, List.length_append, List.length_append, List.length_singleton]
      rfl
    have hwire : wireLength (label :: labels) = label.length + 1 + wireLength labels := rfl
    omega

theorem nameText_length_le : ∀ levels : List (List Label),
    (nameText levels).length ≤ wireLength levels.flatten
  | [] => Nat.le_refl _
  | [labels] => by
    have hle := dotted_length_le labels
    rw [nameText, List.length_dropLast, List.flatten_singleton]
    omega
  | labels :: next :: levels => by
    have hle := dotted_length_le labels
    have hrest := nameText_length_le (next :: levels)
    rw [nameText_cons_of_ne_nil labels (by simp), List.length_append, List.flatten_cons,
      wireLength_append]
    omega

theorem labelsFit_of_wireLength {labels : List Label} (h : wireLength labels < sizeofName) :
    LabelsFit labels := by
  rintro front label back rfl
  have hfront := dotted_length_le front
  have hlabel := cString_length_le label
  have hwire : wireLength (label :: back) = label.length + 1 + wireLength back := rfl
  rw [wireLength_append, hwire] at h
  omega

theorem wireLength_le_flatten {levels : List (List Label)} {labels : List Label}
    (h : labels ∈ levels) : wireLength labels ≤ wireLength levels.flatten := by
  induction levels with
  | nil => cases h
  | cons first levels ih =>
    rw [List.flatten_cons, wireLength_append]
    rcases List.mem_cons.mp h with rfl | h
    · omega
    · have hle := ih h
      omega

theorem Name.labelsFit (n : Name) : ∀ labels ∈ n.levels, LabelsFit labels := by
  intro labels hlabels
  have hle := wireLength_le_flatten hlabels
  have htotal := n.total
  exact labelsFit_of_wireLength (by rw [sizeofName]; omega)

theorem Name.stored_length (n : Name) : (nameText n.levels).length < sizeofName := by
  have hle := nameText_length_le n.levels
  have htotal := n.total
  rw [sizeofName]
  omega

theorem ParsedName.eq_of : ∀ {p q : ParsedName}, p.name = q.name → p.nameLen = q.nameLen → p = q
  | ⟨_, _, _, _, _⟩, ⟨_, _, _, _, _⟩, rfl, rfl => rfl

/-- What is stored of a name. -/
def Name.stored (n : Name) : ParsedName where
  name := nameText n.levels
  nameLen := if n.levels = [[]] then 255 else BitVec.ofNat 8 (nameText n.levels).length
  text := nameText_no_zero n.levels
  fits := n.stored_length
  len := by
    split
    · rename_i hroot
      rw [hroot]
      exact .inr ⟨rfl, rfl⟩
    · exact .inl ((BitVec.toNat_ofNat _ _).trans (Nat.mod_eq_of_lt n.stored_length))

/-- **A name within the limits** is parsed, wherever it is. -/
theorem parseName_at {n : Name} {packet bytes rest : List Byte} (h : n.At packet bytes rest) :
    ∃ enough, ∀ rounds ≥ enough, parseName packet rounds bytes = .ok (n.stored, rest) := by
  obtain ⟨enough, hparse⟩ := nameLoop_finished h []
    (by rw [prepend_nil]; exact n.labelsFit) (by rw [prepend_nil]; exact n.stored_length) rest rfl
  refine ⟨enough, fun rounds hrounds => ?_⟩
  obtain ⟨p, hp, hleaves⟩ := hparse rounds hrounds 0
  rw [prepend_nil] at hleaves
  change parseDnsName packet rounds bytes = .ok p at hp
  unfold parseName
  split
  · rename_i stop hstop
    rw [hp] at hstop
    cases hstop
  · rename_i p' hp'
    obtain rfl : p = p' := Except.ok.inj (hp.symm.trans hp')
    congr 1
    rw [Prod.mk.injEq]
    exact ⟨ParsedName.eq_of hleaves.text hleaves.nameLen, hleaves.dataPtr⟩

/-- The levels of a name on one line: the dot behind the last label goes, if the last level has it. -/
theorem nameText_eq : ∀ {levels : List (List Label)}, levels ≠ [] →
    nameText levels = if levels.getLast? = some [] then dotted levels.flatten
      else (dotted levels.flatten).dropLast
  | [], hne => absurd rfl hne
  | [labels], _ => by
    by_cases hnil : labels = [] <;> simp [nameText, hnil, dotted]
  | labels :: next :: levels, _ => by
    have ih := nameText_eq (List.cons_ne_nil next levels)
    rw [nameText_cons_of_ne_nil labels (by simp), ih, List.getLast?_cons_cons,
      List.flatten_cons (L := next :: levels), dotted_append]
    split
    · rfl
    · rename_i hlast
      have hne : dotted (next :: levels).flatten ≠ [] := by
        rw [ne_eq, dotted_eq_nil, List.flatten_eq_nil_iff]
        intro hall
        have hmem := List.getLast_mem (l := next :: levels) (by simp)
        exact hlast (by rw [List.getLast?_eq_some_getLast (by simp), hall _ hmem])
      rw [List.dropLast_append_of_ne_nil hne]

theorem intercalate_no_zero {labels : List Label} (h : 0 ∉ List.intercalate [dot] labels) :
    ∀ label ∈ labels, 0 ∉ label := by
  induction labels with
  | nil => exact fun _ h => by cases h
  | cons label labels ih =>
    by_cases hne : labels = []
    · subst hne
      rw [List.intercalate_singleton] at h
      exact List.forall_mem_singleton.mpr h
    · rw [List.intercalate_cons_of_ne_nil hne, List.mem_append, List.mem_append, not_or, not_or] at h
      exact List.forall_mem_cons.mpr ⟨h.1.1, ih h.2⟩

/-- **What is stored is exact** for plain names, and for no others. -/
theorem Name.stored_exact_iff (n : Name) : n.stored.Exact n ↔ n.Plain := by
  have htext : n.stored.name = nameText n.levels := rfl
  have hnameLen : n.stored.nameLen =
    if n.levels = [[]] then 255 else BitVec.ofNat 8 (nameText n.levels).length := rfl
  have hlen : n.stored.nameLen.toNat = n.stored.name.length ↔ n.levels ≠ [[]] := by
    rw [hnameLen, htext]
    constructor
    · intro h hroot
      rw [if_pos hroot, hroot] at h
      exact absurd h (by decide)
    · intro hne
      rw [if_neg hne]
      exact (BitVec.toNat_ofNat _ _).trans (Nat.mod_eq_of_lt n.stored_length)
  rw [ParsedName.Exact, hlen, htext, nameText_eq n.levels_ne_nil, Name.text, Name.Plain]
  constructor
  · rintro ⟨htext, hroot⟩
    have hzero : ∀ label ∈ n.levels.flatten, 0 ∉ label := by
      refine intercalate_no_zero (htext ▸ ?_)
      split
      · exact dotted_no_zero _
      · exact fun h => dotted_no_zero _ (List.mem_of_mem_dropLast h)
    refine ⟨hzero, fun hlast => ⟨?_, hroot⟩⟩
    by_contra hne
    rw [if_pos hlast, dotted_eq_intercalate hne hzero] at htext
    simpa using congrArg List.length htext
  · rintro ⟨hzero, hlast⟩
    by_cases hnil : n.levels.getLast? = some []
    · obtain ⟨hflat, hroot⟩ := hlast hnil
      rw [if_pos hnil, hflat]
      exact ⟨rfl, hroot⟩
    · refine ⟨?_, fun hroot => hnil (by rw [hroot]; rfl)⟩
      have hne : n.levels.flatten ≠ [] := by
        rw [ne_eq, List.flatten_eq_nil_iff]
        intro hall
        have hmem := List.getLast_mem n.levels_ne_nil
        exact hnil (by rw [List.getLast?_eq_some_getLast n.levels_ne_nil, hall _ hmem])
      rw [if_neg hnil, dotted_eq_intercalate hne hzero, List.dropLast_concat]

end Axle.Net.Dns
