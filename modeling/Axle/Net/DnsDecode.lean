import Axle.Net.DnsMessage

/-!
# Decoding DNS responses

What `dns_receive` makes of a well-formed response, record by record.  A record is parsed whenever
the tables have room for what it says, and everything but its time to live and its name is parsed as
it is.

* `Decodable` — the flags are read as those of a query, no time to live needs more than 16 bits,
  the names are plain, and the tables have room;
* `decodes_iff_decodable` — **PROVED**: exactly these responses are decoded.
-/

namespace Axle.Net.Dns

open Axle.Lib.StepRun

/-! ### Numbers -/

theorem be16_bytes (x : BitVec 16) : x.extractLsb' 8 8 ++ x.extractLsb' 0 8 = x := by
  ext i hi
  simp only [BitVec.getElem_append, BitVec.getElem_extractLsb']
  split
  · rw [Nat.zero_add, BitVec.getLsbD_eq_getElem hi]
  · rw [show 8 + (i - 8) = i by omega, BitVec.getLsbD_eq_getElem hi]

theorem be32_bytes (x : BitVec 32) :
    x.extractLsb' 24 8 ++ x.extractLsb' 16 8 ++ x.extractLsb' 8 8 ++ x.extractLsb' 0 8 = x := by
  ext i hi
  simp only [BitVec.getElem_append, BitVec.getElem_extractLsb']
  split
  · rw [Nat.zero_add, BitVec.getLsbD_eq_getElem hi]
  · split
    · rw [show 8 + (i - 8) = i by omega, BitVec.getLsbD_eq_getElem hi]
    · split
      · rw [show 16 + (i - 8 - 8) = i by omega, BitVec.getLsbD_eq_getElem hi]
      · rw [show 24 + (i - 8 - 8 - 8) = i by omega, BitVec.getLsbD_eq_getElem hi]

theorem readU16_be16 (x : BitVec 16) (rest : List Byte) :
    readU16 (be16 x ++ rest) = .ok (x, rest) := by
  change Except.ok (x.extractLsb' 8 8 ++ x.extractLsb' 0 8, rest) = _
  rw [be16_bytes]

/-- What is left of a number of 32 bits. -/
def lowerHalf (x : BitVec 32) : BitVec 32 := (x.setWidth 16).setWidth 32

theorem readU32_be32 (x : BitVec 32) (rest : List Byte) :
    readU32 (be32 x ++ rest) = .ok (lowerHalf x, rest) := by
  change Except.ok (lowerHalf (x.extractLsb' 24 8 ++ x.extractLsb' 16 8 ++ x.extractLsb' 8 8 ++
    x.extractLsb' 0 8), rest) = _
  rw [be32_bytes]

theorem lowerHalf_eq_self_iff (x : BitVec 32) : lowerHalf x = x ↔ x.toNat < 2 ^ 16 := by
  rw [← BitVec.toNat_inj, lowerHalf, BitVec.toNat_setWidth, BitVec.toNat_setWidth]
  omega

theorem readData_append (data rest : List Byte) :
    readData (data ++ rest) data.length = .ok (data, rest) := by
  rw [readData, if_pos (by simp), List.take_left, List.drop_left]

variable {α β : Type} {bytes packet rest : List Byte} {r : Record} {s : DnsState}
  {At : α → List Byte → List Byte → Prop} {as : List α}

theorem ok_bind (a : α) (f : α → Except Stop β) : (.ok a >>= f) = f a := rfl

/-! ### Questions -/

/-- What is parsed of a question. -/
def Question.parsed (q : Question) : DnsQuestion := ⟨q.name.stored, q.type, q.cls⟩

theorem Question.parsed_exact_iff (q : Question) : q.parsed.Exact q ↔ q.name.Plain := by
  rw [← q.name.stored_exact_iff]
  exact ⟨fun h => h.name, fun h => ⟨h, rfl, rfl⟩⟩

theorem parseDnsQuestion_at {q : Question} (h : q.At packet bytes rest) :
    ∃ enough, ∀ rounds ≥ enough, parseDnsQuestion packet rounds bytes = .ok (q.parsed, rest) := by
  obtain ⟨enough, hname⟩ := parseName_at h
  refine ⟨enough, fun rounds hrounds => ?_⟩
  rw [parseDnsQuestion, hname rounds hrounds]
  simp only [ok_bind, readU16_be16]
  rfl

theorem parseQuestions_at {questions : List Question}
    (h : InTurn (Question.At packet) questions bytes rest) :
    ∃ enough, ∀ rounds ≥ enough,
      parseQuestions packet rounds questions.length bytes =
        .ok (questions.map Question.parsed, rest) := by
  induction h with
  | nil rest => exact ⟨0, fun _ _ => rfl⟩
  | cons h more ih =>
    obtain ⟨enough, hfirst⟩ := parseDnsQuestion_at h
    obtain ⟨enough', hmore⟩ := ih
    refine ⟨max enough enough', fun rounds hrounds => ?_⟩
    rw [List.length_cons, parseQuestions, hfirst rounds ((le_max_left _ _).trans hrounds)]
    simp only [ok_bind, hmore rounds ((le_max_right _ _).trans hrounds)]
    rfl

/-! ### Answers -/

/-- What is parsed of an answer. -/
def Record.parsed (r : Record) : DnsAnswer :=
  ⟨r.name.stored, r.type, r.cls, lowerHalf r.timeToLive, BitVec.ofNat 16 r.data.length, r.data⟩

theorem Record.dataLength (r : Record) : (BitVec.ofNat 16 r.data.length).toNat = r.data.length :=
  (BitVec.toNat_ofNat _ _).trans (Nat.mod_eq_of_lt r.dataShort)

theorem Record.parsed_exact_iff (r : Record) :
    r.parsed.Exact r ↔ r.name.Plain ∧ r.timeToLive.toNat < 2 ^ 16 := by
  rw [← r.name.stored_exact_iff, ← lowerHalf_eq_self_iff]
  exact ⟨fun h => ⟨h.name, h.timeToLive⟩, fun h => ⟨h.1, rfl, rfl, h.2, r.dataLength, rfl⟩⟩

/-- What the tables become by an answer, if they have room. -/
def recordNext (s : DnsState) (r : Record) : Option DnsState :=
  if r.type = dnsTypePointer then
    (r.target.bind fun n => updateDnsServiceType r.name.stored n.stored s.serviceTypes).map
      fun serviceTypes => { s with serviceTypes }
  else if r.type = dnsTypeARecord then
    (dnsReceiveARecord s.service ⟨r.name.stored, r.data⟩).map fun service => { s with service }
  else some s

theorem asserted_map_bind (x : Option α) (f : α → β) :
    (asserted x >>= fun a => .ok (f a)) = asserted (x.map f) := by
  cases x <;> rfl

theorem handleAnswer_at (h : r.At packet bytes rest) :
    ∃ enough, ∀ rounds ≥ enough, ∀ s,
      handleAnswer packet rounds s r.parsed = asserted (recordNext s r) := by
  have htype : r.parsed.type = r.type := rfl
  by_cases hpointer : r.type = dnsTypePointer
  · obtain ⟨n, htarget, hn⟩ := h.target (.inl hpointer)
    obtain ⟨enough, hname⟩ := parseName_at hn
    refine ⟨enough, fun rounds hrounds s => ?_⟩
    have hdata : parseName packet rounds r.parsed.data = .ok (n.stored, []) := hname rounds hrounds
    rw [handleAnswer, htype, if_pos hpointer, recordNext, if_pos hpointer, htarget, hdata]
    simp only [ok_bind, asserted_map_bind, Option.bind_some]
    rfl
  by_cases haddress : r.type = dnsTypeARecord
  · refine ⟨0, fun rounds _ s => ?_⟩
    rw [handleAnswer, htype, if_neg hpointer, if_pos haddress, recordNext, if_neg hpointer,
      if_pos haddress, asserted_map_bind]
    rfl
  by_cases hcname : r.type = dnsTypeCname
  · obtain ⟨n, -, hn⟩ := h.target (.inr hcname)
    obtain ⟨enough, hname⟩ := parseName_at hn
    refine ⟨enough, fun rounds hrounds s => ?_⟩
    have hdata : parseName packet rounds r.parsed.data = .ok (n.stored, []) := hname rounds hrounds
    rw [handleAnswer, htype, if_neg hpointer, if_neg haddress, if_pos hcname, recordNext,
      if_neg hpointer, if_neg haddress, hdata]
    rfl
  · refine ⟨0, fun rounds _ s => ?_⟩
    rw [handleAnswer, htype, if_neg hpointer, if_neg haddress, if_neg hcname, recordNext,
      if_neg hpointer, if_neg haddress]
    rfl

theorem parseDnsAnswer_at (h : r.At packet bytes rest) :
    ∃ enough, ∀ rounds ≥ enough, ∀ s, parseDnsAnswer packet rounds s bytes =
      (asserted (recordNext s r) >>= fun s => .ok (r.parsed, s, rest)) := by
  obtain ⟨enough, hname⟩ := parseName_at h.spelled
  obtain ⟨enough', hhandle⟩ := handleAnswer_at h
  refine ⟨max enough enough', fun rounds hrounds s => ?_⟩
  have hanswer := hhandle rounds ((le_max_right _ _).trans hrounds) s
  rw [Record.parsed] at hanswer
  rw [parseDnsAnswer, hname rounds ((le_max_left _ _).trans hrounds)]
  simp only [ok_bind, readU16_be16, readU32_be32, r.dataLength, readData_append, hanswer]
  rfl

/-- **The answers in turn**: all of them, when the tables have room for each. -/
theorem parseAnswers_at {answers : List Record} (h : InTurn (Record.At packet) answers bytes rest) :
    ∃ enough, ∀ rounds ≥ enough, ∀ s, parseAnswers packet rounds answers.length s bytes =
      (asserted (run recordNext s answers) >>= fun s =>
        .ok (answers.map Record.parsed, s, rest)) := by
  induction h with
  | nil rest => exact ⟨0, fun _ _ _ => rfl⟩
  | @cons r answers bytes next rest h more ih =>
    obtain ⟨enough, hfirst⟩ := parseDnsAnswer_at h
    obtain ⟨enough', hmore⟩ := ih
    refine ⟨max enough enough', fun rounds hrounds s => ?_⟩
    rw [List.length_cons, parseAnswers, hfirst rounds ((le_max_left _ _).trans hrounds), run]
    cases recordNext s r with
    | none => rfl
    | some t =>
      simp only [asserted, ok_bind, Option.bind_some,
        hmore rounds ((le_max_right _ _).trans hrounds)]
      cases run recordNext t answers <;> rfl

/-! ### Room in the tables -/

/-- A service type has room for an instance: it is there, or an entry is free. -/
def InstanceFits (instances : List ParsedName) (ptrRecord : ParsedName) : Prop :=
  (∃ ent ∈ instances, ent.name = ptrRecord.name) ∨ instances.length < dnsServiceInstanceTableSize

/-- The table has room for a service type with an instance: the type is there and has room for it,
or an entry is free. -/
def ServiceFits (types : List DnsServiceType) (answerName ptrRecord : ParsedName) : Prop :=
  match types.find? fun ent => ent.typeName.name = answerName.name with
  | some ent => InstanceFits ent.instances ptrRecord
  | none => types.length < dnsServiceTypeTableSize

theorem insertInstance_isSome_iff (ptrRecord : ParsedName) (instances : List ParsedName) :
    (insertInstance ptrRecord instances).isSome ↔ InstanceFits instances ptrRecord := by
  rw [insertInstance, InstanceFits]
  split
  · rename_i hthere
    simp [hthere]
  · rename_i hthere
    split <;> simp [*]

theorem updateService_eq_none {answerName ptrRecord : ParsedName} : ∀ {types : List DnsServiceType},
    (types.find? fun ent => ent.typeName.name = answerName.name) = none →
    updateService answerName ptrRecord types = none
  | [], _ => rfl
  | ent :: ents, h => by
    obtain ⟨hent, hents⟩ : ent.typeName.name ≠ answerName.name ∧
        (ents.find? fun ent => ent.typeName.name = answerName.name) = none := by
      simpa using h
    rw [updateService, if_neg hent, updateService_eq_none hents]
    rfl

theorem exists_updateService {answerName ptrRecord : ParsedName} {found : DnsServiceType} :
    ∀ {types : List DnsServiceType},
    (types.find? fun ent => ent.typeName.name = answerName.name) = some found →
    ∃ updated, updateService answerName ptrRecord types = some updated ∧
      (updated.isSome ↔ InstanceFits found.instances ptrRecord)
  | [], h => by cases h
  | ent :: ents, h => by
    by_cases hent : ent.typeName.name = answerName.name
    · obtain rfl : ent = found := by simpa [hent] using h
      refine ⟨_, by rw [updateService, if_pos hent], ?_⟩
      rw [Option.isSome_map, insertInstance_isSome_iff]
    · obtain ⟨updated, hupdated, hfits⟩ := @exists_updateService answerName ptrRecord found
        ents (by simpa [hent] using h)
      refine ⟨_, by rw [updateService, if_neg hent, hupdated]; rfl, ?_⟩
      rw [Option.isSome_map, hfits]

theorem updateDnsServiceType_isSome_iff (answerName ptrRecord : ParsedName)
    (types : List DnsServiceType) :
    (updateDnsServiceType answerName ptrRecord types).isSome ↔
      ServiceFits types answerName ptrRecord := by
  rw [updateDnsServiceType, ServiceFits]
  cases hfind : types.find? fun ent => ent.typeName.name = answerName.name with
  | some found =>
    obtain ⟨updated, hupdated, hfits⟩ := @exists_updateService answerName ptrRecord found types hfind
    rw [hupdated]
    exact hfits
  | none =>
    rw [updateService_eq_none hfind]
    dsimp only
    split
    · rename_i hroom
      have hempty : InstanceFits [] ptrRecord := .inr (by decide)
      rw [Option.isSome_map, insertInstance_isSome_iff]
      exact iff_of_true hempty hroom
    · rename_i hroom
      exact iff_of_false Bool.false_ne_true hroom

theorem dnsReceiveARecord_isSome_iff (s : DnsService) (r : ARecord) :
    (dnsReceiveARecord s r).isSome ↔ r.data.length = ipv4AddrSize := by
  rw [dnsReceiveARecord, updateDomainNameWithARecord]
  split
  · rename_i hdata
    obtain ⟨t, ht, -⟩ := exists_callbackListInvokeReadyCallbacks
      { s with
        domainRecords := (updateExisting r s.domainRecords).getD (createNew r s.domainRecords)
        received := s.received ++ [r] }
    simp [ht, hdata]
  · rename_i hdata
    simpa using hdata

/-- What the service types become by an answer. -/
def servicesNext (types : List DnsServiceType) (r : Record) : Option (List DnsServiceType) :=
  if r.type = dnsTypePointer then
    r.target.bind fun n => updateDnsServiceType r.name.stored n.stored types
  else some types

/-- An address has four bytes, and the table has room for a service. -/
structure RecordFits (types : List DnsServiceType) (r : Record) : Prop where
  address : r.type = dnsTypeARecord → r.data.length = ipv4AddrSize
  service : r.type = dnsTypePointer → ∀ n ∈ r.target, ServiceFits types r.name.stored n.stored

theorem recordNext_isSome_iff (htarget : r.type = dnsTypePointer → ∃ n, r.target = some n) :
    (recordNext s r).isSome ↔ RecordFits s.serviceTypes r := by
  by_cases hpointer : r.type = dnsTypePointer
  · obtain ⟨n, hn⟩ := htarget hpointer
    have haddress : r.type ≠ dnsTypeARecord := by
      rw [hpointer]
      decide
    rw [recordNext, if_pos hpointer, hn, Option.isSome_map, Option.bind_some,
      updateDnsServiceType_isSome_iff]
    refine ⟨fun h => ⟨fun h' => absurd h' haddress, fun _ n' hn' => ?_⟩,
      fun h => h.service hpointer n hn⟩
    obtain rfl : n = n' := Option.some.inj (hn.symm.trans hn')
    exact h
  · rw [recordNext, if_neg hpointer]
    by_cases haddress : r.type = dnsTypeARecord
    · rw [if_pos haddress, Option.isSome_map, dnsReceiveARecord_isSome_iff]
      exact ⟨fun h => ⟨fun _ => h, fun h' => absurd h' hpointer⟩, fun h => h.address haddress⟩
    · rw [if_neg haddress]
      exact iff_of_true rfl ⟨fun h => absurd h haddress, fun h => absurd h hpointer⟩

theorem servicesNext_of_recordNext {s t : DnsState} (h : recordNext s r = some t) :
    servicesNext s.serviceTypes r = some t.serviceTypes := by
  rw [recordNext] at h
  rw [servicesNext]
  split at h
  · rename_i hpointer
    obtain ⟨types, htypes, rfl⟩ := Option.map_eq_some_iff.mp h
    rw [if_pos hpointer, htypes]
  · rename_i hpointer
    rw [if_neg hpointer]
    split at h
    · obtain ⟨service, -, rfl⟩ := Option.map_eq_some_iff.mp h
      rfl
    · rw [Option.some.inj h]

/-- **All the answers are filed** when there is room for each in its turn. -/
theorem run_recordNext_isSome_iff : ∀ {answers : List Record} {s : DnsState},
    (∀ r ∈ answers, r.type = dnsTypePointer → ∃ n, r.target = some n) →
    ((run recordNext s answers).isSome ↔ Meets servicesNext RecordFits s.serviceTypes answers)
  | [], s, _ => by simp [Meets]
  | r :: answers, s, htargets => by
    obtain ⟨htarget, htargets⟩ := List.forall_mem_cons.mp htargets
    have hstep := recordNext_isSome_iff (s := s) htarget
    rw [run, Meets, ← hstep]
    cases hnext : recordNext s r with
    | none => simp
    | some t =>
      have hservices := servicesNext_of_recordNext hnext
      rw [Option.bind_some, run_recordNext_isSome_iff htargets, hservices]
      simp

/-! ### Responses -/

/-- The flags of a response that is not truncated, with an operation the code takes for a query or a
status: in network order, the bits are read from the wrong side. -/
def ReadsAsQuery (flags : BitVec 16) : Prop :=
  flags.getLsbD 9 = false ∧ flags.getLsbD 11 = false ∧ flags.getLsbD 12 = false

instance (flags : BitVec 16) : Decidable (ReadsAsQuery flags) := by
  unfold ReadsAsQuery
  infer_instance

theorem opcode_iff (flags : BitVec 16) :
    opcode (flags.extractLsb' 8 8) = dnsOpQuery ∨ opcode (flags.extractLsb' 8 8) = dnsOpStatus ↔
      ReadsAsQuery flags := by
  have hbits : ∀ x : BitVec 4, x = dnsOpQuery ∨ x = dnsOpStatus ↔
      x.getLsbD 0 = false ∧ x.getLsbD 2 = false ∧ x.getLsbD 3 = false := by
    decide
  rw [hbits, ReadsAsQuery]
  simp [opcode]

theorem InTurn.forall (h : InTurn At as bytes rest) : ∀ a ∈ as, ∃ bytes rest, At a bytes rest := by
  induction h with
  | nil rest => exact fun _ h => by cases h
  | cons h more ih => exact List.forall_mem_cons.mpr ⟨⟨_, _, h⟩, ih⟩

/-- **What is made of a response**: its records, if the flags are read as a query and the tables have
room, else an assertion fails or nothing is parsed. -/
theorem dnsReceive_response (s : DnsState) (r : ResponseMessage) :
    ∃ enough, ∀ rounds ≥ enough, dnsReceive rounds s r.packet =
      if ReadsAsQuery r.flags then
        asserted (run recordNext s r.answers) >>= fun t => .ok
          ⟨r.questions.map Question.parsed, r.answers.map Record.parsed, r.rest, t⟩
      else .ok ⟨[], [], r.body, s⟩ := by
  obtain ⟨enough, hquestions⟩ := parseQuestions_at r.questionsSpelled
  obtain ⟨enough', hanswers⟩ := parseAnswers_at r.answersSpelled
  refine ⟨max enough enough', fun rounds hrounds => ?_⟩
  have hq := hquestions rounds ((le_max_left _ _).trans hrounds)
  have ha := hanswers rounds ((le_max_right _ _).trans hrounds) s
  have hquestionCount : (BitVec.ofNat 16 r.questions.length).toNat = r.questions.length :=
    (BitVec.toNat_ofNat _ _).trans (Nat.mod_eq_of_lt r.questions_short)
  have hanswerCount : (BitVec.ofNat 16 r.answers.length).toNat = r.answers.length :=
    (BitVec.toNat_ofNat _ _).trans (Nat.mod_eq_of_lt r.answers_short)
  have hpacket := r.packet_eq
  generalize r.packet = packet at hq ha hpacket ⊢
  subst hpacket
  simp only [be16, List.cons_append, List.nil_append] at hq ha ⊢
  rw [dnsReceive]
  simp only [opcode_iff, be16_bytes, hquestionCount, hanswerCount, hq, ha, ok_bind]
  split
  · cases run recordNext s r.answers <;> rfl
  · rfl

/-- When a response is decoded.
* `flags`: it has no records, or its flags are read as those of a query;
* `questions`, `answers`: the names are plain, and a time to live needs no more than 16 bits;
* `tables`: an address has four bytes, and the tables have room for each service. -/
structure Decodable (s : DnsState) (r : ResponseMessage) : Prop where
  flags : r.questions = [] ∧ r.answers = [] ∨ ReadsAsQuery r.flags
  questions : ∀ q ∈ r.questions, q.name.Plain
  answers : ∀ a ∈ r.answers, a.name.Plain ∧ a.timeToLive.toNat < 2 ^ 16
  tables : Meets servicesNext RecordFits s.serviceTypes r.answers

theorem forall₂_map_left {R : β → α → Prop} {f : α → β} :
    List.Forall₂ R (as.map f) as ↔ ∀ a ∈ as, R (f a) a := by
  rw [List.forall₂_map_left_iff, List.forall₂_same]

theorem InTurn.eq_of_nil (h : InTurn At [] bytes rest) : bytes = rest := by
  cases h
  rfl

theorem ResponseMessage.targets (r : ResponseMessage) :
    ∀ a ∈ r.answers, a.type = dnsTypePointer → ∃ n, a.target = some n := by
  intro a ha hpointer
  obtain ⟨_, _, hat⟩ := r.answersSpelled.forall a ha
  obtain ⟨n, hn, -⟩ := hat.target (.inl hpointer)
  exact ⟨n, hn⟩

theorem decodable_of_decodes {r : ResponseMessage} (h : Decodes s r) : Decodable s r := by
  obtain ⟨enough, hreceive⟩ := dnsReceive_response s r
  obtain ⟨enough', hdecodes⟩ := h
  obtain ⟨received, hreceived, hquestions, hanswers, -⟩ :=
    hdecodes (max enough enough') (le_max_right _ _)
  rw [hreceive _ (le_max_left _ _)] at hreceived
  split at hreceived
  · rename_i hflags
    have hfiled := run_recordNext_isSome_iff (s := s) r.targets
    cases hrun : run recordNext s r.answers with
    | none =>
      rw [hrun] at hreceived
      cases hreceived
    | some t =>
      rw [hrun] at hreceived hfiled
      cases hreceived
      have hq := forall₂_map_left.mp hquestions
      have ha := forall₂_map_left.mp hanswers
      exact ⟨.inr hflags, fun q hmem => q.parsed_exact_iff.mp (hq q hmem),
        fun a hmem => a.parsed_exact_iff.mp (ha a hmem), hfiled.mp rfl⟩
  · cases hreceived
    have hnoQuestions := List.forall₂_nil_left_iff.mp hquestions
    have hnoAnswers := List.forall₂_nil_left_iff.mp hanswers
    refine ⟨.inl ⟨hnoQuestions, hnoAnswers⟩, ?_, ?_, ?_⟩
    · rw [hnoQuestions]
      exact fun _ h => by cases h
    · rw [hnoAnswers]
      exact fun _ h => by cases h
    · rw [hnoAnswers]
      trivial

theorem decodes_of_decodable {r : ResponseMessage} (h : Decodable s r) : Decodes s r := by
  obtain ⟨enough, hreceive⟩ := dnsReceive_response s r
  refine ⟨enough, fun rounds hrounds => ?_⟩
  rw [hreceive rounds hrounds]
  split
  · obtain ⟨t, ht⟩ := Option.isSome_iff_exists.mp
      ((run_recordNext_isSome_iff (s := s) r.targets).mpr h.tables)
    rw [ht]
    exact ⟨_, rfl, forall₂_map_left.mpr fun q hq => q.parsed_exact_iff.mpr (h.questions q hq),
      forall₂_map_left.mpr fun a ha => a.parsed_exact_iff.mpr (h.answers a ha), rfl⟩
  · rename_i hflags
    obtain ⟨hnoQuestions, hnoAnswers⟩ := h.flags.resolve_right hflags
    have hq := r.questionsSpelled
    have ha := r.answersSpelled
    rw [hnoQuestions] at hq
    rw [hnoAnswers] at ha
    refine ⟨_, rfl, ?_, ?_, hq.eq_of_nil.trans ha.eq_of_nil⟩
    · rw [hnoQuestions]
      exact .nil
    · rw [hnoAnswers]
      exact .nil

/-- **Decoding a response** gives its questions and answers exactly when it is decodable. -/
theorem decodes_iff_decodable (s : DnsState) (r : ResponseMessage) :
    Decodes s r ↔ Decodable s r :=
  ⟨decodable_of_decodes, decodes_of_decodable⟩

/-- `a`, spelled out and by a pointer. -/
def nameA : Name where
  levels := [[[0x61]]]
  levels_ne_nil := by decide
  nonempty := by decide
  short := by decide
  total := by decide

def pointerToA : Name where
  levels := [[], [[0x61]]]
  levels_ne_nil := by decide
  nonempty := by decide
  short := by decide
  total := by decide

def questionOfA : Question := ⟨nameA, 1, 1⟩

/-- The address of `a`, for a day. -/
def dayOfA : Record where
  name := pointerToA
  type := 1
  cls := 1
  timeToLive := 86400
  data := [10, 0, 0, 1]
  dataShort := by decide
  target := none

def answerBytes : List Byte :=
  [0xc0, 0x0c, 0, 1, 0, 1, 0x00, 0x01, 0x51, 0x80, 0, 4, 10, 0, 0, 1]

def questionBytes : List Byte := [1, 0x61, 0, 0, 1, 0, 1] ++ answerBytes

def dayPacket : List Byte := [0x45, 0x46, 0x81, 0x80, 0, 1, 0, 1, 0, 0, 0, 0] ++ questionBytes

theorem nameA_spelledAt (packet rest : List Byte) :
    SpelledAt packet (1 :: 0x61 :: 0 :: rest) [[[0x61]]] (.finished rest) :=
  @SpelledAt.label packet 1 [0x61] _ _ _ _ (by decide) rfl (.zero rest)

theorem dayPacket_drop : dayPacket.drop (stringOffset 0xc0 0x0c) =
    1 :: 0x61 :: 0 :: ([0, 1, 0, 1] ++ answerBytes) := by
  decide

theorem dayOfA_at : Record.At dayPacket dayOfA answerBytes [] where
  spelled := SpelledAt.pointer (e := .finished ([0, 1, 0, 1] ++ answerBytes)) (by decide) 0x0c _
    (dayPacket_drop ▸ nameA_spelledAt dayPacket _)
  target := by rintro (h | h) <;> exact absurd h (by decide)
  address := fun _ _ => rfl

/-- A recursive answer to a query. -/
def dayResponse : ResponseMessage where
  packet := dayPacket
  identifier := 0x4546
  flags := 0x8180
  authorityCount := 0
  additionalRecordCount := 0
  questions := [questionOfA]
  answers := [dayOfA]
  body := questionBytes
  answersAt := answerBytes
  rest := []
  questions_short := by decide
  answers_short := by decide
  packet_eq := by decide
  isResponse := by decide
  questionsSpelled := .cons (nameA_spelledAt dayPacket _) (.nil _)
  answersSpelled := .cons dayOfA_at (.nil _)

theorem timeToLive_cut_off : ¬∃ s : DnsState, Decodes s dayResponse := by
  rintro ⟨s, h⟩
  have hlarge := ((decodable_of_decodes h).answers dayOfA (List.mem_singleton.mpr rfl)).2
  exact absurd hlarge (by decide)

end Axle.Net.Dns
