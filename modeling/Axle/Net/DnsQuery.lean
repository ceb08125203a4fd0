import Axle.Net.DnsName

/-!
# Asking for a domain

`dns_query_domain_name` of `net/dns.c` encodes a domain name as labels.  The handler of the request
passes the length of the name plus one, so that the byte behind the name in the client's message is
read with it.

* `DomainName` — dot-separated labels, as a text and as RFC 1035 encodes them;
* `query_roundTrips_iff` — **PROVED**: the name goes out and comes back exactly when the byte behind
  it is no dot.
-/

namespace Axle.Net.Dns

/-! ### The encoder -/

/-- `strndup` stops at a NUL, so the tokens of `strsep` are split at the dots of the text alone. -/
def tokens (domainName : List Byte) (domainNameLen : ℕ) : List (List Byte) :=
  (strndup domainName domainNameLen).splitOn dot

/-- The loop over `strlen(token)` that computes `label_len`; `written` is how far `dns_name_ptr` is. -/
def labelLenLoop (domainNameLen written : ℕ) : ℕ → ℕ → ℕ
  | 0, labelLen => labelLen
  | left + 1, labelLen =>
    if domainNameLen ≤ written + labelLen + 1 then labelLen
    else labelLenLoop domainNameLen written left (labelLen + 1)

/-- The loop over the tokens, from what has been written so far. -/
def encodeTokens (domainNameLen : ℕ) (written : List Byte) : List (List Byte) → List Byte
  | [] => written
  | token :: rest =>
    let labelLen := labelLenLoop domainNameLen written.length token.length 0
    encodeTokens domainNameLen (written ++ BitVec.ofNat 8 labelLen :: token.take labelLen) rest

/-- `type` and `class` of the question: A and IN. -/
def questionTail : List Byte := [0x0, 0x1, 0x0, 0x1]

/-- What stands in front of the question. -/
def queryHeader : List Byte := [0x45, 0x46, 0x01, 0x00, 0, 1, 0, 0, 0, 0, 0, 0]

/-- The packet that is sent. -/
def dnsQueryDomainName (domainName : List Byte) (domainNameLen : ℕ) : Except Stop (List Byte) :=
  let dnsNameLen := domainNameLen + 1 + 2 + 2
  let dnsName := encodeTokens domainNameLen [] (tokens domainName domainNameLen) ++ 0 :: questionTail
  if dnsName.length ≤ dnsNameLen then .ok (queryHeader ++ dnsName) else .error .writeOutside

/-! ### Domain names -/

structure DomainName where
  labels : List Label
  labels_ne_nil : labels ≠ []
  nonempty : ∀ label ∈ labels, label ≠ []
  short : ∀ label ∈ labels, label.length ≤ 63
  noDot : ∀ label ∈ labels, dot ∉ label
  noZero : ∀ label ∈ labels, 0 ∉ label
  total : (List.intercalate [dot] labels).length ≤ 253

def DomainName.text (d : DomainName) : List Byte := List.intercalate [dot] d.labels

/-- A label behind its length. -/
def encodeLabel (label : Label) : List Byte := BitVec.ofNat 8 label.length :: label

/-- The encoding of RFC 1035. -/
def DomainName.encoding (d : DomainName) : List Byte := d.labels.flatMap encodeLabel ++ [0]

/-- The name fits, is encoded as it has to be, and parsing it gives it back and stops behind its
zero byte. -/
def RoundTrips (d : DomainName) (behind : List Byte) : Prop :=
  ∃ packet, dnsQueryDomainName (d.text ++ behind) (d.text.length + 1) = .ok packet ∧
    packet = queryHeader ++ (d.encoding ++ questionTail) ∧
    ∃ rounds p, parseDnsName packet rounds (packet.drop queryHeader.length) = .ok p ∧
      p.state.text = d.text ∧ p.state.nameLen.toNat = d.text.length ∧ p.dataPtr = questionTail

/-! ### Encoding -/

theorem labelLenLoop_eq (domainNameLen written : ℕ) : ∀ left labelLen : ℕ,
    written + labelLen < domainNameLen →
    labelLenLoop domainNameLen written left labelLen =
      min (labelLen + left) (domainNameLen - 1 - written) := by
  intro left
  induction left with
  | zero =>
    intro labelLen h
    rw [labelLenLoop]
    omega
  | succ left ih =>
    intro labelLen h
    rw [labelLenLoop]
    split
    · omega
    · rw [ih (labelLen + 1) (by omega)]
      omega

theorem encodeTokens_append (domainNameLen : ℕ) (front back : List (List Byte)) :
    ∀ written, encodeTokens domainNameLen written (front ++ back) =
      encodeTokens domainNameLen (encodeTokens domainNameLen written front) back := by
  induction front with
  | nil => exact fun _ => rfl
  | cons token front ih => exact fun written => ih _

/-- What is behind a text goes to its last label. -/
theorem intercalate_concat_append (front : List Label) (last tail : List Byte) :
    List.intercalate [dot] (front ++ [last ++ tail]) =
      List.intercalate [dot] (front ++ [last]) ++ tail := by
  induction front with
  | nil => simp
  | cons label front ih =>
    rw [List.cons_append, List.cons_append, List.intercalate_cons_of_ne_nil (by simp),
      List.intercalate_cons_of_ne_nil (by simp), ih]
    simp only [List.append_assoc]

theorem intercalate_concat_nil {labels : List Label} (hne : labels ≠ []) :
    List.intercalate [dot] (labels ++ [[]]) = List.intercalate [dot] labels ++ [dot] := by
  induction labels with
  | nil => exact absurd rfl hne
  | cons label labels ih =>
    rw [List.cons_append, List.intercalate_cons_of_ne_nil (by simp)]
    rcases List.eq_nil_or_concat labels with rfl | hlabels
    · simp
    · have hne' : labels ≠ [] := by
        rintro rfl
        simp at hlabels
      rw [ih hne', List.intercalate_cons_of_ne_nil hne']
      simp

theorem intercalate_length (front : List Label) (last : Label) :
    (List.intercalate [dot] (front ++ [last])).length + 1 =
      ((front ++ [last]).flatMap encodeLabel).length := by
  induction front with
  | nil => simp [encodeLabel]
  | cons label front ih =>
    rw [List.cons_append, List.intercalate_cons_of_ne_nil (by simp), List.flatMap_cons]
    simp only [List.length_append, encodeLabel, List.length_cons, List.length_nil] at ih ⊢
    omega

/-- **The labels are encoded**, and of what is behind the last one no byte. -/
theorem encodeTokens_labels (last tail : List Byte) : ∀ (front : List Label) (written : List Byte),
    encodeTokens (written.length + (List.intercalate [dot] (front ++ [last])).length + 1) written
      (front ++ [last ++ tail]) = written ++ (front ++ [last]).flatMap encodeLabel := by
  intro front
  induction front with
  | nil =>
    intro written
    have hloop : labelLenLoop (written.length + last.length + 1) written.length
        (last ++ tail).length 0 = last.length := by
      rw [labelLenLoop_eq _ _ _ _ (by omega), List.length_append]
      omega
    rw [List.nil_append, List.nil_append, List.intercalate_singleton, encodeTokens, hloop,
      List.take_left, encodeTokens, List.flatMap_singleton, encodeLabel]
  | cons label front ih =>
    intro written
    have hloop : labelLenLoop (written.length +
        (List.intercalate [dot] (label :: (front ++ [last]))).length + 1) written.length
        label.length 0 = label.length := by
      rw [labelLenLoop_eq _ _ _ _ (by omega), List.intercalate_cons_of_ne_nil (by simp)]
      simp only [List.length_append]
      omega
    have hrest := ih (written ++ encodeLabel label)
    rw [List.cons_append, List.cons_append, encodeTokens, hloop, List.flatMap_cons,
      List.intercalate_cons_of_ne_nil (by simp)]
    simp only [List.take_length, List.length_append, List.length_cons, List.length_nil, encodeLabel,
      List.append_assoc] at hrest ⊢
    rw [show written.length + (label.length + (0 + 1 +
        (List.intercalate [dot] (front ++ [last])).length)) + 1 =
      written.length + (label.length + 1) + (List.intercalate [dot] (front ++ [last])).length + 1
      by omega]
    exact hrest

theorem strndup_text {text : List Byte} (htext : 0 ∉ text) (next : Byte) (more : List Byte) :
    strndup (text ++ next :: more) (text.length + 1) =
      text ++ if next = 0 then [] else [next] := by
  have htake : (text ++ next :: more).take (text.length + 1) = text ++ [next] := by
    rw [List.take_length_add_append, List.take_succ_cons, List.take_zero]
  rw [strndup, htake, List.takeWhile_append_of_pos]
  · by_cases hzero : next = 0#8 <;> simp [hzero]
  · intro b hb
    simpa using fun h : b = 0 => htext (h ▸ hb)

theorem DomainName.text_no_zero (d : DomainName) : 0 ∉ d.text := by
  have h : ∀ labels : List Label, (∀ label ∈ labels, 0 ∉ label) →
      0 ∉ List.intercalate [dot] labels := by
    intro labels
    induction labels with
    | nil => intro _ h; cases h
    | cons label labels ih =>
      intro hlabels
      obtain ⟨hlabel, hrest⟩ := List.forall_mem_cons.mp hlabels
      by_cases hne : labels = []
      · simpa [hne] using hlabel
      · rw [List.intercalate_cons_of_ne_nil hne]
        have hdot : 0#8 ≠ dot := by decide
        simpa [hdot] using ⟨hlabel, ih hrest⟩
  exact h d.labels d.noZero

/-- **The name field** behind a byte that is no dot. -/
theorem encodeTokens_of_ne_dot (d : DomainName) {next : Byte} (hnext : next ≠ dot)
    (more : List Byte) :
    encodeTokens (d.text.length + 1) [] (tokens (d.text ++ next :: more) (d.text.length + 1)) =
      d.labels.flatMap encodeLabel := by
  obtain ⟨front, last, hlabels⟩ : ∃ front last, d.labels = front ++ [last] :=
    ⟨_, _, (List.dropLast_append_getLast d.labels_ne_nil).symm⟩
  have hnoDot := d.noDot
  rw [hlabels] at hnoDot
  set tail : List Byte := if next = 0 then [] else [next] with htail
  have htailDot : dot ∉ tail := by
    rw [htail]
    split <;> simp [hnext.symm]
  have htokens : tokens (d.text ++ next :: more) (d.text.length + 1) = front ++ [last ++ tail] := by
    rw [tokens, strndup_text d.text_no_zero, ← htail, DomainName.text, hlabels,
      ← intercalate_concat_append]
    refine List.splitOn_intercalate dot ?_ (by simp)
    intro label hlabel
    rcases List.mem_append.mp hlabel with hlabel | hlabel
    · exact hnoDot label (List.mem_append_left _ hlabel)
    · rw [List.mem_singleton.mp hlabel, List.mem_append, not_or]
      exact ⟨hnoDot last (by simp), htailDot⟩
  have hencode := encodeTokens_labels last tail front []
  rw [List.length_nil, Nat.zero_add, List.nil_append, ← hlabels] at hencode
  rw [htokens]
  exact hencode

/-- A dot behind the name is one more, empty, token. -/
theorem encodeTokens_of_dot (d : DomainName) (more : List Byte) :
    (encodeTokens (d.text.length + 1) []
      (tokens (d.text ++ dot :: more) (d.text.length + 1))).length = d.text.length + 2 := by
  obtain ⟨front, last, hlabels⟩ : ∃ front last, d.labels = front ++ [last] :=
    ⟨_, _, (List.dropLast_append_getLast d.labels_ne_nil).symm⟩
  have htokens : tokens (d.text ++ dot :: more) (d.text.length + 1) = d.labels ++ [[]] := by
    rw [tokens, strndup_text d.text_no_zero, if_neg (by decide), DomainName.text,
      ← intercalate_concat_nil d.labels_ne_nil]
    refine List.splitOn_intercalate dot ?_ (by simp)
    intro label hlabel
    rcases List.mem_append.mp hlabel with hlabel | hlabel
    · exact d.noDot label hlabel
    · rw [List.mem_singleton.mp hlabel]
      exact List.not_mem_nil
  have hencode := encodeTokens_labels last [] front []
  rw [List.length_nil, Nat.zero_add, List.nil_append, List.append_nil, ← hlabels] at hencode
  have hlength := intercalate_length front last
  rw [← hlabels] at hlength
  rw [htokens, encodeTokens_append, DomainName.text, hencode, encodeTokens, encodeTokens]
  simp [labelLenLoop, ← hlength]

/-! ### Parsing the encoding -/

theorem spelledAt_encoding (packet rest : List Byte) : ∀ {labels : List Label},
    (∀ label ∈ labels, label ≠ []) → (∀ label ∈ labels, label.length ≤ 63) →
    SpelledAt packet (labels.flatMap encodeLabel ++ 0 :: rest) [labels] (.finished rest) := by
  intro labels
  induction labels with
  | nil => exact fun _ _ => .zero rest
  | cons label labels ih =>
    intro hnonempty hshort
    obtain ⟨hlabel, hnonempty⟩ := List.forall_mem_cons.mp hnonempty
    obtain ⟨hlen, hshort⟩ := List.forall_mem_cons.mp hshort
    have hpos := List.length_pos_of_ne_nil hlabel
    have htoNat : (BitVec.ofNat 8 label.length).toNat = label.length :=
      (BitVec.toNat_ofNat _ _).trans (Nat.mod_eq_of_lt (by omega))
    have hliteral : IsLiteral (BitVec.ofNat 8 label.length) := by
      constructor
      · intro h
        have h' := congrArg BitVec.toNat (show BitVec.ofNat 8 label.length >>> 6 = 3 from h)
        rw [BitVec.toNat_ushiftRight, htoNat, Nat.shiftRight_eq_div_pow] at h'
        change label.length / 64 = 3 at h'
        omega
      · intro h
        rw [h] at htoNat
        exact hpos.ne htoNat
    rw [List.flatMap_cons, encodeLabel, List.cons_append, List.cons_append, List.append_assoc]
    exact .label hliteral htoNat.symm (ih hnonempty hshort)

theorem parse_encoding (d : DomainName) (packet rest : List Byte) :
    ∃ rounds p, parseDnsName packet rounds (d.encoding ++ rest) = .ok p ∧
      p.state.text = d.text ∧ p.state.nameLen.toNat = d.text.length ∧ p.dataPtr = rest := by
  have hspelled := spelledAt_encoding packet rest d.nonempty d.short
  have hdotted : dotted d.labels = d.text ++ [dot] :=
    dotted_eq_intercalate d.labels_ne_nil d.noZero
  have hname : nameText [d.labels] = d.text := by
    rw [nameText, hdotted, List.dropLast_concat]
  have htotal : d.text.length ≤ 253 := d.total
  have hfit : LabelsFit d.labels := by
    intro front label back hlabels
    have hlength := congrArg List.length hdotted
    rw [hlabels, dotted_append, List.length_append, List.length_append, List.length_singleton]
      at hlength
    have hself := cString_eq_self (d.noZero label (by rw [hlabels]; simp))
    have hback : (dotted (label :: back)).length = label.length + 1 + (dotted back).length := by
      rw [dotted, List.flatMap_cons, hself, List.length_append, List.length_append,
        List.length_singleton]
      rfl
    rw [hself, sizeofName]
    omega
  obtain ⟨enough, hparse⟩ := nameLoop_finished hspelled []
    (by exact List.forall_mem_singleton.mpr hfit)
    (by rw [prepend_nil, hname, sizeofName]; omega) rest rfl
  obtain ⟨p, hp, hleaves⟩ := hparse enough (Nat.le_refl _) 0
  rw [prepend_nil] at hleaves
  have htext := hleaves.text
  have hnameLen := hleaves.nameLen_toNat (by rw [hname, sizeofName]; omega)
    fun h => d.labels_ne_nil (List.cons.inj h).1
  rw [hname] at htext hnameLen
  refine ⟨enough, p, ?_, htext, hnameLen, hleaves.dataPtr⟩
  rw [DomainName.encoding, List.append_assoc]
  exact hp

/-- **The round trip** of every domain name, passed with one byte more than it has: it holds exactly
when that byte is no dot. -/
theorem query_roundTrips_iff (d : DomainName) (next : Byte) (more : List Byte) :
    RoundTrips d (next :: more) ↔ next ≠ dot := by
  constructor
  · rintro ⟨packet, hpacket, -⟩ rfl
    have hlength := encodeTokens_of_dot d more
    rw [dnsQueryDomainName, if_neg] at hpacket
    · cases hpacket
    · rw [List.length_append, hlength]
      simp [questionTail]
  · intro hnext
    obtain ⟨front, last, hlabels⟩ : ∃ front last, d.labels = front ++ [last] :=
      ⟨_, _, (List.dropLast_append_getLast d.labels_ne_nil).symm⟩
    have hlength := intercalate_length front last
    rw [← hlabels] at hlength
    have hencoding : d.labels.flatMap encodeLabel ++ 0 :: questionTail =
        d.encoding ++ questionTail := by
      rw [DomainName.encoding, List.append_assoc, List.singleton_append]
    refine ⟨_, ?_, rfl, ?_⟩
    · rw [dnsQueryDomainName, encodeTokens_of_ne_dot d hnext more, if_pos, hencoding]
      rw [List.length_append, ← hlength]
      exact Nat.le_refl _
    · exact parse_encoding d _ questionTail

/-- `a.b` -/
def shortName : DomainName where
  labels := [[0x61], [0x62]]
  labels_ne_nil := by decide
  nonempty := by decide
  short := by decide
  noDot := by decide
  noZero := by decide
  total := by decide

theorem query_followed_by_dot :
    dnsQueryDomainName (shortName.text ++ [dot]) (shortName.text.length + 1) =
      .error .writeOutside ∧ ¬RoundTrips shortName [dot] := by
  have hquery : dnsQueryDomainName (shortName.text ++ [dot]) (shortName.text.length + 1) =
      .error .writeOutside := by decide +kernel
  refine ⟨hquery, ?_⟩
  rintro ⟨packet, hpacket, -⟩
  cases hpacket

end Axle.Net.Dns
