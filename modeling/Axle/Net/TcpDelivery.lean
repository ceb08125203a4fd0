import Axle.Net.TcpHandshake

/-!
# In-order delivery of a TCP stream

An established connection receives segments of the peer's stream in any order, some lost, some
repeated, some overlapping, while clients read from it and other connections go on.
`_tcp_conn_recv` decides with plain 32-bit comparisons whether a segment is old or comes too early,
takes the whole of a segment that overlaps what is there already, and copies from `packet->data`,
where the options of the header stand.

* `StreamLaw` — after every step the connection expects the byte behind those ingested in order,
  acknowledges that one, and the bytes handed out and buffered are the stream up to there;
* `InStep.step_iff` — **PROVED**: one step keeps the law exactly when its segment fits (`Fits`);
* `tcp_delivery_iff` — **PROVED**: a run keeps the law exactly when every segment fits when it
  arrives.
-/

namespace Axle.Net.Tcp

open Axle.Kernel (ArrayM)
open Axle.Lib.StepRun

/-! ### The peer's stream -/

/-- What follows the header, its options included. -/
def TcpPacket.payload (p : TcpPacket) : List Byte :=
  p.data.drop (p.header.headerLength.toNat * 4 - sizeofTcpHeader)

/-- The sequence number of the byte at this position of the peer's stream. -/
def TcpConn.expected (c : TcpConn) (position : ℕ) : BitVec 32 :=
  c.recvInitialSeqnum + 1 + BitVec.ofNat 32 position

/-- The packet reaches the connection and carries the bytes of the stream from `offset` on; the
length field of the IPv4 header has 16 bits. -/
structure Carries (localIpv4 : IPv4) (c : TcpConn) (stream : List Byte) (offset : ℕ) (a : Arrival) :
    Prop where
  reaches : reaches localIpv4 c a = true
  header : 5 ≤ a.packet.header.headerLength.toNat
  header_le : a.packet.header.headerLength.toNat * 4 ≤ sizeofTcpHeader + a.packet.data.length
  size : sizeofTcpHeader + a.packet.data.length < 2 ^ 16
  sequenceNumber : a.packet.header.sequenceNumber = c.expected offset
  offset_le : offset + a.packet.payload.length ≤ stream.length
  payload : a.packet.payload = (stream.drop offset).take a.packet.payload.length

/-- A segment, with its place in the stream, or anything else that happens to the service. -/
inductive StreamEvent where
  | segment (offset : ℕ) (a : Arrival)
  | other (e : TcpEvent)
deriving DecidableEq, Repr

def streamNext (s : TcpService) : StreamEvent → Option TcpService
  | .segment _ a => receive s a
  | .other e => tcpNext s e

/-- Every packet for the connection is a segment of the stream. -/
def Genuine (localIpv4 : IPv4) (c : TcpConn) (stream : List Byte) : StreamEvent → Prop
  | .segment offset a => Carries localIpv4 c stream offset a
  | .other (.receive info p) => reaches localIpv4 c ⟨info, p⟩ = false
  | .other _ => True

/-- The number of bytes ingested in order after an event. -/
def ingest (k : ℕ) : StreamEvent → ℕ
  | .segment offset a => if offset ≤ k then max k (offset + a.packet.payload.length) else k
  | .other _ => k

/-! ### The law -/

/-- One step from `s` to `t`, after which `k` bytes have been ingested in order. -/
def StepLaw (i : ℕ) (c₀ : TcpConn) (stream : List Byte) (k : ℕ) (s t : TcpService) : Prop :=
  ∃ c, t.tcpConns.items[i]? = some c ∧ c.recvNextSeqnum = c₀.expected k ∧
    (∀ m ∈ t.sent.drop s.sent.length, m.conn = i → m.flags &&& tcpFlagAck ≠ 0 →
      m.acknowledgeNum = c₀.expected k) ∧
    taken t i = stream.take k

/-- Every step of a run, `k` bytes having been ingested before it. -/
def StreamLaw (i : ℕ) (c₀ : TcpConn) (stream : List Byte) (k : ℕ) (s : TcpService)
    (events : List StreamEvent) : Prop :=
  ∀ done e after s₁ s₂, events = done ++ e :: after → run streamNext s done = some s₁ →
    streamNext s₁ e = some s₂ → StepLaw i c₀ stream ((done ++ [e]).foldl ingest k) s₁ s₂

/-- A segment that brings the next byte starts with it, ends before the sequence numbers wrap
around and has its payload where `packet->data` points; any other one is empty or is taken for an
old or an early one by the comparisons of 32-bit numbers. -/
def Fits (i : ℕ) (s : TcpService) : StreamEvent → Prop
  | .other _ => True
  | .segment offset a =>
    ∀ c ∈ s.tcpConns.items[i]?,
      if offset ≤ (taken s i).length ∧
          (taken s i).length < offset + a.packet.payload.length then
        offset = (taken s i).length ∧
          c.recvNextSeqnum.toNat + a.packet.payload.length < 2 ^ 32 ∧
          a.packet.data.take a.packet.payload.length = a.packet.payload
      else
        a.packet.payload = [] ∨
          a.packet.header.sequenceNumber + BitVec.ofNat 32 a.packet.payload.length ≤
            c.recvNextSeqnum ∨
          c.recvNextSeqnum < a.packet.header.sequenceNumber

instance (i : ℕ) (s : TcpService) : (e : StreamEvent) → Decidable (Fits i s e)
  | .other _ => inferInstanceAs (Decidable True)
  | .segment offset a => by
    unfold Fits
    infer_instance

/-! ### The state between two steps -/

/-- The fields that concern the receiving side. -/
structure ReceiveSide where
  destIp : IPv4
  srcPort : BitVec 16
  dstPort : BitVec 16
  status : TcpConnStatus
  recvInitialSeqnum : BitVec 32
  recvNextSeqnum : BitVec 32
deriving DecidableEq, Repr

def TcpConn.receiveSide (c : TcpConn) : ReceiveSide where
  destIp := c.destIp
  srcPort := c.srcPort
  dstPort := c.dstPort
  status := c.status
  recvInitialSeqnum := c.recvInitialSeqnum
  recvNextSeqnum := c.recvNextSeqnum

/-- `k` bytes of the stream have been ingested, and the sequence numbers have not wrapped around
since the first of them. -/
structure InStep (i : ℕ) (localIpv4 : IPv4) (c₀ : TcpConn) (stream : List Byte) (k : ℕ)
    (s : TcpService) : Prop where
  localIpv4 : s.localIpv4 = localIpv4
  established : c₀.status = .established
  conn : ∃ c, connAt s i = some c ∧
    c.receiveSide = { c₀.receiveSide with recvNextSeqnum := c₀.expected k }
  taken : taken s i = stream.take k
  le : k ≤ stream.length
  inOrder : InOrder s i
  fits : (c₀.recvInitialSeqnum + 1).toNat + k < 2 ^ 32

section Step

variable {i k : ℕ} {localIpv4 : IPv4} {c₀ c : TcpConn} {stream : List Byte} {s t : TcpService}

theorem InStep.taken_length (h : InStep i localIpv4 c₀ stream k s) :
    (Tcp.taken s i).length = k := by
  rw [h.taken, List.length_take]
  exact Nat.min_eq_left h.le

variable {a : Arrival} {offset descriptor : ℕ} {service : String} {e : StreamEvent}
  {events : List StreamEvent}

theorem payload_length (h : Carries localIpv4 c₀ stream offset a) :
    a.packet.payload.length < 2 ^ 16 ∧
      a.packet.dataLen = BitVec.ofNat 32 a.packet.payload.length := by
  have hsize := h.size
  have hheader := h.header
  have hle := h.header_le
  have hlen : a.packet.payload.length =
      a.packet.data.length - (a.packet.header.headerLength.toNat * 4 - 20) :=
    List.length_drop
  rw [sizeofTcpHeader] at hsize hle
  constructor
  · omega
  · apply BitVec.eq_of_toNat_eq
    rw [TcpPacket.dataLen, TcpPacket.packetSize, TcpPacket.packetHeaderLen, BitVec.toNat_sub,
      BitVec.toNat_ofNat, BitVec.toNat_ofNat, BitVec.toNat_ofNat, hlen, sizeofTcpHeader]
    omega

/-- Two positions less than `2 ^ 32` apart have different sequence numbers. -/
theorem expected_inj {a b : ℕ} (hab : a ≤ b) (hb : b < a + 2 ^ 32)
    (h : c.expected a = c.expected b) : a = b := by
  rw [TcpConn.expected, TcpConn.expected] at h
  generalize c.recvInitialSeqnum + 1 = first at h
  have hnat := congrArg BitVec.toNat h
  rw [BitVec.toNat_add, BitVec.toNat_add, BitVec.toNat_ofNat, BitVec.toNat_ofNat] at hnat
  omega

theorem expected_add (c : TcpConn) (a n : ℕ) :
    c.expected a + BitVec.ofNat 32 n = c.expected (a + n) := by
  rw [TcpConn.expected, TcpConn.expected, BitVec.ofNat_add, BitVec.add_assoc]

theorem InStep.recvNextSeqnum (h : InStep i localIpv4 c₀ stream k s)
    (hc : s.tcpConns.items[i]? = some c) : c.recvNextSeqnum = c₀.expected k := by
  obtain ⟨d, hd, hside⟩ := h.conn
  rw [connAt, hc] at hd
  obtain rfl : c.withoutBuffer = d := Option.some.inj hd
  exact congrArg ReceiveSide.recvNextSeqnum hside

theorem InStep.expected_toNat (h : InStep i localIpv4 c₀ stream k s) :
    (c₀.expected k).toNat = (c₀.recvInitialSeqnum + 1).toNat + k := by
  have := h.fits
  rw [TcpConn.expected, BitVec.toNat_add, BitVec.toNat_ofNat]
  omega

theorem onData_receiveSide (c : TcpConn) (p : TcpPacket) :
    (c.onData p).receiveSide =
      { c.receiveSide with recvNextSeqnum := (c.onData p).recvNextSeqnum } := by
  unfold TcpConn.onData bumpOldestUnacked
  split <;> split <;> rfl

theorem onData_recvNextSeqnum (c : TcpConn) (p : TcpPacket) :
    (c.onData p).recvNextSeqnum =
      if c.takesData p then c.recvNextSeqnum + p.dataLen else c.recvNextSeqnum := by
  unfold TcpConn.onData bumpOldestUnacked
  split <;> split <;> rfl

/-- What is known after a segment has been received by a connection in step. -/
structure SegmentReceived (i : ℕ) (c : TcpConn) (a : Arrival) (s t : TcpService) : Prop where
  localIpv4 : t.localIpv4 = s.localIpv4
  connAt : connAt t i = some (c.onData a.packet)
  newSegment : c.newSegment a.info a.packet = if c.takesData a.packet then
      some ⟨a.packet.data.take a.packet.dataLen.toNat, a.packet.dataLen,
        a.packet.header.sequenceNumber - c.recvInitialSeqnum⟩
    else none
  onPacket : c.onPacket a.info a.packet = c.onData a.packet
  acks : ∀ m ∈ t.sent.drop s.sent.length, m.conn = i →
    m.acknowledgeNum = (c.onData a.packet).recvNextSeqnum
  bytes : c.Continues a.info a.packet → InOrder t i ∧
    taken t i = taken s i ++ ((c.newSegment a.info a.packet).map TcpSegment.buf).getD []

theorem mem_range_of_connAt (hc : connAt s i = some c) : i ∈ List.range s.tcpConns.size := by
  obtain ⟨d, hd, -⟩ := exists_of_connAt hc
  exact List.mem_range.mpr (List.getElem?_eq_some_iff.mp hd).1

theorem matchesPacket_congr
    (hside : c.receiveSide = { c₀.receiveSide with recvNextSeqnum := c₀.expected k })
    (info : PacketInfo) (p : TcpPacket) : c.matchesPacket info p = c₀.matchesPacket info p := by
  have hdest : c.destIp = c₀.destIp := congrArg ReceiveSide.destIp hside
  have hsrc : c.srcPort = c₀.srcPort := congrArg ReceiveSide.srcPort hside
  have hdst : c.dstPort = c₀.dstPort := congrArg ReceiveSide.dstPort hside
  rw [TcpConn.matchesPacket, TcpConn.matchesPacket, hdest, hsrc, hdst]

theorem InStep.segment_received (h : InStep i localIpv4 c₀ stream k s)
    (hcar : Carries localIpv4 c₀ stream offset a) (hc : Tcp.connAt s i = some c)
    (hside : c.receiveSide = { c₀.receiveSide with recvNextSeqnum := c₀.expected k })
    (hrec : receive s a = some t) : SegmentReceived i c a s t := by
  obtain ⟨hlocal, hmatch₀⟩ : a.info.dstIpv4 = localIpv4 ∧
      c₀.matchesPacket a.info a.packet = true := by
    simpa [Tcp.reaches] using hcar.reaches
  have hmatch : c.matchesPacket a.info a.packet = true :=
    (matchesPacket_congr hside a.info a.packet).trans hmatch₀
  have hest : c.status = .established :=
    (congrArg ReceiveSide.status hside).trans h.established
  have hon : c.onPacket a.info a.packet = c.onData a.packet := by
    simp [TcpConn.onPacket, hmatch, hest]
  have hreceived := tcpReceive_received (hlocal.trans h.localIpv4.symm) hrec
  have hmem := mem_range_of_connAt hc
  refine ⟨hreceived.localIpv4, ?_, ?_, hon, ?_, ?_⟩
  · rw [hreceived.connAt, if_pos hmem, hc, ← hon]
    rfl
  · simp [TcpConn.newSegment, hmatch, hest]
  · intro m hm hconn
    obtain ⟨new, hnew, hacks⟩ := hreceived.sent
    rw [hnew, List.drop_left] at hm
    rw [(hacks m hm).2 c (hconn ▸ hc) hest, hon]
  · exact fun hcont => hreceived.own i hmem c hc hest h.inOrder hcont

/-- The decision of `_tcp_conn_recv` on a segment of the stream. -/
theorem takesData_iff (hcar : Carries localIpv4 c₀ stream offset a)
    (hside : c.receiveSide = { c₀.receiveSide with recvNextSeqnum := c₀.expected k }) :
    c.takesData a.packet = true ↔ a.packet.payload ≠ [] ∧
      c₀.expected k < c₀.expected (offset + a.packet.payload.length) ∧
      c₀.expected offset ≤ c₀.expected k := by
  have hnext : c.recvNextSeqnum = c₀.expected k := congrArg ReceiveSide.recvNextSeqnum hside
  obtain ⟨hsmall, hlen⟩ := payload_length hcar
  have hzero : BitVec.ofNat 32 a.packet.payload.length = 0 ↔ a.packet.payload = [] := by
    rw [← List.length_eq_zero_iff]
    constructor
    · intro heq
      have := congrArg BitVec.toNat heq
      rw [BitVec.toNat_ofNat] at this
      have h0 : (0 : BitVec 32).toNat = 0 := rfl
      omega
    · intro heq
      rw [heq]
      rfl
  simp only [TcpConn.takesData, Bool.and_eq_true, bne_iff_ne, ne_eq, hlen, hzero,
    Bool.not_eq_true', decide_eq_false_iff_not, BitVec.not_le, BitVec.not_lt, hnext,
    hcar.sequenceNumber, expected_add, and_assoc]

theorem InStep.continues (h : InStep i localIpv4 c₀ stream k s)
    (hcar : Carries localIpv4 c₀ stream k a)
    (hside : c.receiveSide = { c₀.receiveSide with recvNextSeqnum := c₀.expected k })
    (hrec : SegmentReceived i c a s t) (htake : c.takesData a.packet = true)
    (hwrap : (c₀.expected k).toNat + a.packet.payload.length < 2 ^ 32) :
    c.Continues a.info a.packet := by
  have hnext : c.recvNextSeqnum = c₀.expected k := congrArg ReceiveSide.recvNextSeqnum hside
  have hinit : c.recvInitialSeqnum = c₀.recvInitialSeqnum :=
    congrArg ReceiveSide.recvInitialSeqnum hside
  have hnext' : (c.onData a.packet).recvNextSeqnum = c₀.expected (k + a.packet.payload.length) := by
    rw [onData_recvNextSeqnum, htake, if_pos rfl, hnext, (payload_length hcar).2, expected_add]
  have hinit' : (c.onData a.packet).recvInitialSeqnum = c₀.recvInitialSeqnum :=
    (congrArg ReceiveSide.recvInitialSeqnum (onData_receiveSide c a.packet)).trans hinit
  have hpos : a.packet.payload.length ≠ 0 :=
    fun h0 => ((takesData_iff hcar hside).mp htake).1 (List.length_eq_zero_iff.mp h0)
  rw [h.expected_toNat] at hwrap
  intro seg hseg
  rw [hrec.newSegment, htake, if_pos rfl] at hseg
  cases hseg
  rw [hrec.onPacket, TcpConn.bytesBefore, TcpSegment.Within, TcpConn.bytesBefore, hnext', hinit',
    hnext, hinit, hcar.sequenceNumber, TcpConn.expected, TcpConn.expected]
  generalize c₀.recvInitialSeqnum = first at hwrap ⊢
  have hoffset : ∀ y : BitVec 32, first + 1 + y - first = 1 + y := by
    bv_omega
  refine ⟨BitVec.le_refl _, ?_, ?_⟩
  · bv_omega
  · bv_omega

/-- After a segment the law is about the next number and the bytes; the acknowledgements follow. -/
theorem SegmentReceived.stepLaw_iff (hrec : SegmentReceived i c a s t) (k' : ℕ) :
    StepLaw i c₀ stream k' s t ↔
      (c.onData a.packet).recvNextSeqnum = c₀.expected k' ∧ taken t i = stream.take k' := by
  obtain ⟨d, hd, hview⟩ := exists_of_connAt hrec.connAt
  have hnext : d.recvNextSeqnum = (c.onData a.packet).recvNextSeqnum := by
    rw [← hview]
    rfl
  constructor
  · rintro ⟨e, he, hexp, -, hbytes⟩
    rw [hd] at he
    cases he
    exact ⟨hnext ▸ hexp, hbytes⟩
  · rintro ⟨hexp, hbytes⟩
    refine ⟨d, hd, hnext.trans hexp, fun m hm hconn _ => ?_, hbytes⟩
    rw [hrec.acks m hm hconn, hexp]

theorem InStep.after_segment (h : InStep i localIpv4 c₀ stream k s) {k' : ℕ}
    (hside : c.receiveSide = { c₀.receiveSide with recvNextSeqnum := c₀.expected k })
    (hrec : SegmentReceived i c a s t) (hcont : c.Continues a.info a.packet)
    (hlaw : StepLaw i c₀ stream k' s t) (hle : k' ≤ stream.length)
    (hfits : (c₀.recvInitialSeqnum + 1).toNat + k' < 2 ^ 32) :
    InStep i localIpv4 c₀ stream k' t where
  localIpv4 := hrec.localIpv4.trans h.localIpv4
  established := h.established
  conn := by
    refine ⟨_, hrec.connAt, ?_⟩
    rw [onData_receiveSide, hside, ((hrec.stepLaw_iff k').mp hlaw).1]
  taken := ((hrec.stepLaw_iff k').mp hlaw).2
  le := hle
  inOrder := (hrec.bytes hcont).1
  fits := hfits

theorem lt_add_ofNat_iff {x : BitVec 32} {n : ℕ} (hpos : 0 < n) (hn : n < 2 ^ 32) :
    x < x + BitVec.ofNat 32 n ↔ x.toNat + n < 2 ^ 32 := by
  rw [BitVec.lt_def, BitVec.toNat_add, BitVec.toNat_ofNat]
  omega

section

variable (h : InStep i localIpv4 c₀ stream k s)

include h

theorem InStep.new_segment (hcar : Carries localIpv4 c₀ stream offset a)
    (hside : c.receiveSide = { c₀.receiveSide with recvNextSeqnum := c₀.expected k })
    (hrec : SegmentReceived i c a s t) (hoffset : offset ≤ k)
    (hnew : k < offset + a.packet.payload.length) :
    (StepLaw i c₀ stream (offset + a.packet.payload.length) s t ↔
      offset = k ∧ (c₀.expected k).toNat + a.packet.payload.length < 2 ^ 32 ∧
        a.packet.data.take a.packet.payload.length = a.packet.payload) ∧
    (StepLaw i c₀ stream (offset + a.packet.payload.length) s t →
      InStep i localIpv4 c₀ stream (offset + a.packet.payload.length) t) := by
  obtain ⟨hsmall, hlen⟩ := payload_length hcar
  have hnext : c.recvNextSeqnum = c₀.expected k := congrArg ReceiveSide.recvNextSeqnum hside
  have htakes := takesData_iff hcar hside
  -- a law that is kept needs the segment taken, and at the expected byte
  have haccept : StepLaw i c₀ stream (offset + a.packet.payload.length) s t →
      c.takesData a.packet = true ∧ offset = k := by
    intro hlaw
    have hexp := ((hrec.stepLaw_iff _).mp hlaw).1
    rw [onData_recvNextSeqnum] at hexp
    split at hexp
    · rename_i htake
      rw [hnext, hlen, expected_add] at hexp
      have := expected_inj (c := c₀) (by omega) (by omega) hexp.symm
      exact ⟨htake, by omega⟩
    · rw [hnext] at hexp
      have := expected_inj (c := c₀) (by omega) (by omega) hexp
      omega
  -- a segment at the expected byte is taken exactly when its end does not wrap around
  have hwrap : offset = k → (c.takesData a.packet = true ↔
      (c₀.expected k).toNat + a.packet.payload.length < 2 ^ 32) := by
    rintro rfl
    have hne : a.packet.payload ≠ [] := List.ne_nil_of_length_pos (by omega)
    rw [htakes, ← expected_add, lt_add_ofNat_iff (by omega) (by omega)]
    exact ⟨fun hlaw => hlaw.2.1, fun hlt => ⟨hne, hlt, BitVec.le_refl _⟩⟩
  -- the bytes of such a segment
  have hbytes : offset = k → c.takesData a.packet = true → c.Continues a.info a.packet ∧
      (Tcp.taken t i = stream.take (offset + a.packet.payload.length) ↔
        a.packet.data.take a.packet.payload.length = a.packet.payload) := by
    rintro rfl htake
    have hcont := h.continues hcar hside hrec htake ((hwrap rfl).mp htake)
    have hsum := (hrec.bytes hcont).2
    have hnat : (BitVec.ofNat 32 a.packet.payload.length).toNat = a.packet.payload.length := by
      rw [BitVec.toNat_ofNat]
      omega
    rw [hrec.newSegment, htake, if_pos rfl, h.taken, hlen, hnat] at hsum
    refine ⟨hcont, ?_⟩
    rw [hsum, List.take_add, ← hcar.payload]
    exact List.append_right_inj _
  refine ⟨⟨fun hlaw => ?_, ?_⟩, fun hlaw => ?_⟩
  · obtain ⟨htake, rfl⟩ := haccept hlaw
    exact ⟨rfl, (hwrap rfl).mp htake,
      (hbytes rfl htake).2.mp ((hrec.stepLaw_iff _).mp hlaw).2⟩
  · rintro ⟨rfl, hlt, hdata⟩
    have htake := (hwrap rfl).mpr hlt
    refine (hrec.stepLaw_iff _).mpr ⟨?_, (hbytes rfl htake).2.mpr hdata⟩
    rw [onData_recvNextSeqnum, htake, if_pos rfl, hnext, hlen, expected_add]
  · obtain ⟨htake, rfl⟩ := haccept hlaw
    have hlt := (hwrap rfl).mp htake
    rw [h.expected_toNat] at hlt
    exact h.after_segment hside hrec (hbytes rfl htake).1 hlaw hcar.offset_le (by omega)

theorem InStep.idle_segment (hcar : Carries localIpv4 c₀ stream offset a)
    (hside : c.receiveSide = { c₀.receiveSide with recvNextSeqnum := c₀.expected k })
    (hrec : SegmentReceived i c a s t) :
    (StepLaw i c₀ stream k s t ↔ a.packet.payload = [] ∨
      a.packet.header.sequenceNumber + BitVec.ofNat 32 a.packet.payload.length ≤ c₀.expected k ∨
      c₀.expected k < a.packet.header.sequenceNumber) ∧
    (StepLaw i c₀ stream k s t → InStep i localIpv4 c₀ stream k t) := by
  obtain ⟨hsmall, hlen⟩ := payload_length hcar
  have hnext : c.recvNextSeqnum = c₀.expected k := congrArg ReceiveSide.recvNextSeqnum hside
  have htakes := takesData_iff hcar hside
  have hquiet : c.takesData a.packet = false → c.Continues a.info a.packet ∧
      StepLaw i c₀ stream k s t := by
    intro htake
    have hseg : c.newSegment a.info a.packet = none := by rw [hrec.newSegment, htake]; rfl
    have hcont : c.Continues a.info a.packet := by
      intro seg hmem
      rw [hseg] at hmem
      cases hmem
    refine ⟨hcont, (hrec.stepLaw_iff _).mpr ⟨?_, ?_⟩⟩
    · rw [onData_recvNextSeqnum, htake]
      exact hnext
    · rw [(hrec.bytes hcont).2, hseg, h.taken]
      simp
  have htaken : StepLaw i c₀ stream k s t → c.takesData a.packet = false := by
    intro hlaw
    by_contra htake
    have htake' : c.takesData a.packet = true := by simpa using htake
    have hexp := ((hrec.stepLaw_iff _).mp hlaw).1
    rw [onData_recvNextSeqnum, htake', if_pos rfl, hnext, hlen, expected_add] at hexp
    have hzero := expected_inj (c := c₀) (by omega) (by omega) hexp.symm
    exact (htakes.mp htake').1 (List.length_eq_zero_iff.mp (by omega))
  have hfalse : c.takesData a.packet = false ↔ a.packet.payload = [] ∨
      a.packet.header.sequenceNumber + BitVec.ofNat 32 a.packet.payload.length ≤ c₀.expected k ∨
      c₀.expected k < a.packet.header.sequenceNumber := by
    rw [← Bool.not_eq_true, htakes, hcar.sequenceNumber, expected_add, Ne, not_and_or, not_and_or,
      not_not, BitVec.not_lt, BitVec.not_le]
  refine ⟨⟨fun hlaw => hfalse.mp (htaken hlaw), fun hold => (hquiet (hfalse.mpr hold)).2⟩,
    fun hlaw => ?_⟩
  exact h.after_segment hside hrec (hquiet (htaken hlaw)).1 hlaw h.le h.fits

theorem InStep.segment_step (hcar : Carries localIpv4 c₀ stream offset a)
    (hrec : receive s a = some t) :
    (StepLaw i c₀ stream (ingest k (.segment offset a)) s t ↔ Fits i s (.segment offset a)) ∧
    (StepLaw i c₀ stream (ingest k (.segment offset a)) s t →
      InStep i localIpv4 c₀ stream (ingest k (.segment offset a)) t) := by
  obtain ⟨c, hc, hside⟩ := h.conn
  have hreceived := h.segment_received hcar hc hside hrec
  obtain ⟨d, hd, -⟩ := exists_of_connAt hc
  have hfits : Fits i s (.segment offset a) ↔
      if offset ≤ k ∧ k < offset + a.packet.payload.length then
        offset = k ∧ (c₀.expected k).toNat + a.packet.payload.length < 2 ^ 32 ∧
          a.packet.data.take a.packet.payload.length = a.packet.payload
      else a.packet.payload = [] ∨
        a.packet.header.sequenceNumber + BitVec.ofNat 32 a.packet.payload.length ≤ c₀.expected k ∨
        c₀.expected k < a.packet.header.sequenceNumber := by
    simp only [Fits, h.taken_length, hd, Option.mem_def, Option.some.injEq, forall_eq',
      h.recvNextSeqnum hd]
  rw [hfits]
  by_cases hnew : offset ≤ k ∧ k < offset + a.packet.payload.length
  · have hingest : ingest k (.segment offset a) = offset + a.packet.payload.length := by
      rw [ingest, if_pos hnew.1]
      omega
    rw [if_pos hnew, hingest]
    exact h.new_segment hcar hside hreceived hnew.1 hnew.2
  · have hingest : ingest k (.segment offset a) = k := by
      rw [ingest]
      split <;> omega
    rw [if_neg hnew, hingest]
    exact h.idle_segment hcar hside hreceived

theorem InStep.aside (hip : t.localIpv4 = s.localIpv4)
    (hside : ∀ c, connAt s i = some c → ∃ d, connAt t i = some d ∧ d.receiveSide = c.receiveSide)
    (hbytes : InOrder t i ∧ Tcp.taken t i = Tcp.taken s i) {new : List SentPacket}
    (hsent : t.sent = s.sent ++ new) (hacks : ∀ m ∈ new, m.conn = i → ∀ c, connAt s i = some c →
      m.acknowledgeNum = c.recvNextSeqnum) :
    StepLaw i c₀ stream k s t ∧ InStep i localIpv4 c₀ stream k t := by
  obtain ⟨c, hc, hc₀⟩ := h.conn
  obtain ⟨d, hd, hdc⟩ := hside c hc
  obtain ⟨e, he, hview⟩ := exists_of_connAt hd
  have hnext : c.recvNextSeqnum = c₀.expected k := congrArg ReceiveSide.recvNextSeqnum hc₀
  refine ⟨⟨e, he, ?_, fun m hm hconn _ => ?_, ?_⟩, ?_⟩
  · have hed : e.recvNextSeqnum = d.recvNextSeqnum := by
      rw [← hview]
      rfl
    exact hed.trans ((congrArg ReceiveSide.recvNextSeqnum hdc).trans hnext)
  · rw [hsent, List.drop_left] at hm
    exact (hacks m hm hconn c hc).trans hnext
  · rw [hbytes.2, h.taken]
  · exact ⟨hip.trans h.localIpv4, h.established, ⟨d, hd, hdc.trans hc₀⟩,
      hbytes.2.trans h.taken, h.le, hbytes.1, h.fits⟩

theorem Served.aside (hserved : Served s t) :
    StepLaw i c₀ stream k s t ∧ InStep i localIpv4 c₀ stream k t := by
  refine h.aside hserved.localIpv4 (fun c hc => ⟨c, (hserved.connAt i).trans hc, rfl⟩)
    ⟨hserved.inOrder i h.inOrder, hserved.taken i h.inOrder⟩
    (hserved.sent.trans (List.append_nil _).symm) fun m hm => ?_
  cases hm

theorem InStep.receive_aside (hother : reaches localIpv4 c₀ a = false)
    (hrec : receive s a = some t) :
    StepLaw i c₀ stream k s t ∧ InStep i localIpv4 c₀ stream k t := by
  by_cases hlocal : a.info.dstIpv4 = s.localIpv4
  · have hreceived := tcpReceive_received hlocal hrec
    obtain ⟨c, hc, hside⟩ := h.conn
    have hmem := mem_range_of_connAt hc
    have hmatch : c.matchesPacket a.info a.packet = false := by
      rw [matchesPacket_congr hside]
      simpa [reaches, hlocal, h.localIpv4] using hother
    have hest : c.status = .established :=
      (congrArg ReceiveSide.status hside).trans h.established
    have hon : c.onPacket a.info a.packet = c := by simp [TcpConn.onPacket, hmatch]
    have hseg : c.newSegment a.info a.packet = none := by simp [TcpConn.newSegment, hmatch]
    have hcont : c.Continues a.info a.packet := by
      intro seg hmem
      rw [hseg] at hmem
      cases hmem
    have hbytes := hreceived.own i hmem c hc hest h.inOrder hcont
    rw [hseg, Option.map_none, Option.getD_none, List.append_nil] at hbytes
    obtain ⟨new, hnew, hacks⟩ := hreceived.sent
    refine h.aside hreceived.localIpv4 (fun d hd => ⟨d, ?_, rfl⟩) hbytes hnew
      fun m hm hconn d hd => ?_
    · obtain rfl : c = d := Option.some.inj (hc.symm.trans hd)
      rw [hreceived.connAt, if_pos hmem, hc, Option.map_some, hon]
    · obtain rfl : c = d := Option.some.inj (hc.symm.trans hd)
      rw [(hacks m hm).2 c (hconn ▸ hc) hest, hon]
  · unfold receive tcpReceive at hrec
    rw [if_pos hlocal] at hrec
    cases hrec
    exact Served.aside h (Served.refl s)

theorem InStep.connOpen_aside {srcPort dstPort : BitVec 16} {dstIpv4 : IPv4} {rand : BitVec 32}
    (hopen : tcpPerformConnOpen s service srcPort dstPort dstIpv4 rand = some t) :
    StepLaw i c₀ stream k s t ∧ InStep i localIpv4 c₀ stream k t := by
  obtain ⟨conns, hconns, callbacks, -, ht⟩ : ∃ conns,
      s.tcpConns.insert (tcpConnAlloc srcPort dstPort dstIpv4 rand) = some conns ∧
      ∃ callbacks, s.tcpCallbacks.insert (.connOpen service s.tcpConns.size) = some callbacks ∧
        TcpService.tcpSend { s with tcpConns := conns, tcpCallbacks := callbacks }
          s.tcpConns.size (tcpConnAlloc srcPort dstPort dstIpv4 rand) rand 0 tcpFlagSyn [] = t := by
    simp only [tcpPerformConnOpen, Option.bind_eq_bind, Option.bind_eq_some_iff,
      Option.some.injEq] at hopen
    exact hopen
  subst ht
  obtain ⟨c, hc, -⟩ := h.conn
  obtain ⟨d, hd, -⟩ := exists_of_connAt hc
  have hlt : i < s.tcpConns.items.length := (List.getElem?_eq_some_iff.mp hd).1
  have hitem : conns.items[i]? = s.tcpConns.items[i]? := by
    rw [(ArrayM.insert_eq_some.mp hconns).2.1, List.getElem?_append_left hlt]
  refine h.aside rfl (fun c hc => ⟨c, ?_, rfl⟩) ⟨fun e he => h.inOrder e (hitem ▸ he), ?_⟩ rfl ?_
  · show conns.items[i]?.map _ = some c
    rw [hitem]
    exact hc
  · show handed i s.responses ++ (conns.items[i]?.map buffered).getD [] = _
    rw [hitem]
    rfl
  · intro m hm hconn
    rw [List.mem_singleton.mp hm] at hconn
    exact absurd hconn (Nat.ne_of_gt hlt)

theorem InStep.connSend_aside {data : List Byte}
    (hsend : tcpPerformConnSend s descriptor data = some t) :
    StepLaw i c₀ stream k s t ∧ InStep i localIpv4 c₀ stream k t := by
  obtain ⟨c, hc, ht⟩ : ∃ c, s.tcpConns.items[descriptor]? = some c ∧
      (s.tcpSend descriptor c c.sendNextSeqnum c.recvNextSeqnum
        (tcpFlagAck ||| tcpFlagPush) data).setConn descriptor
        { c with sendNextSeqnum := c.sendNextSeqnum + BitVec.ofNat 32 data.length } = t := by
    simpa only [tcpPerformConnSend, Option.bind_eq_bind, Option.bind_eq_some_iff,
      Option.some.injEq, ArrayM.lookup] using hsend
  subst ht
  have hitems := setConn_getElem? (s := s.tcpSend descriptor c c.sendNextSeqnum c.recvNextSeqnum
    (tcpFlagAck ||| tcpFlagPush) data) hc
    { c with sendNextSeqnum := c.sendNextSeqnum + BitVec.ofNat 32 data.length }
  by_cases hi : i = descriptor
  · subst hi
    have hitem := (hitems i).trans (if_pos rfl)
    refine h.aside rfl (fun d hd => ⟨_, congrArg (Option.map _) hitem, ?_⟩)
      ⟨fun e he => ?_, ?_⟩ rfl ?_
    · rw [connAt, hc] at hd
      cases hd
      rfl
    · cases hitem.symm.trans he
      exact h.inOrder c hc
    · show handed i s.responses ++ (Option.map buffered _).getD [] = _
      rw [hitem, Tcp.taken, hc]
      rfl
    · intro m hm _ d hd
      rw [connAt, hc] at hd
      cases hd
      rw [List.mem_singleton.mp hm]
      rfl
  · have hitem := (hitems i).trans (if_neg hi)
    refine h.aside rfl (fun d hd => ⟨d, ?_, rfl⟩) ⟨fun e he => ?_, ?_⟩ rfl ?_
    · exact (congrArg (Option.map _) hitem).trans hd
    · exact h.inOrder e (hitem.symm.trans he)
    · show handed i s.responses ++ (Option.map buffered _).getD [] = _
      rw [hitem]
      rfl
    · intro m hm hconn
      rw [List.mem_singleton.mp hm] at hconn
      exact absurd hconn.symm hi

theorem InStep.connRead_aside {len : BitVec 32}
    (hread : tcpPerformConnRead s service descriptor len = some t) :
    StepLaw i c₀ stream k s t ∧ InStep i localIpv4 c₀ stream k t := by
  obtain ⟨c, -, hread⟩ := Option.bind_eq_some_iff.mp hread
  obtain ⟨callbacks, -, hread⟩ := Option.bind_eq_some_iff.mp hread
  obtain ⟨ready, -, hread⟩ := Option.bind_eq_some_iff.mp hread
  have hadded : Served s { s with tcpCallbacks := callbacks } :=
    ⟨rfl, rfl, fun _ => rfl, fun _ h => h, fun _ _ => rfl⟩
  cases ready with
  | true => exact Served.aside h (hadded.trans (dispatchCallback_served hread))
  | false =>
    cases hread
    exact Served.aside h hadded

theorem InStep.other_step {e : TcpEvent} (hgen : Genuine localIpv4 c₀ stream (.other e))
    (hnext : tcpNext s e = some t) :
    StepLaw i c₀ stream k s t ∧ InStep i localIpv4 c₀ stream k t := by
  cases e with
  | receive info p => exact h.receive_aside (a := ⟨info, p⟩) hgen hnext
  | connOpen service srcPort dstPort dstIpv4 rand => exact h.connOpen_aside hnext
  | connSend descriptor data => exact h.connSend_aside hnext
  | connRead service descriptor len => exact h.connRead_aside hnext

/-- **One step** keeps the law exactly when its segment, if it is one, fits. -/
theorem InStep.step_iff (hgen : Genuine localIpv4 c₀ stream e) (hnext : streamNext s e = some t) :
    (StepLaw i c₀ stream (ingest k e) s t ↔ Fits i s e) ∧
    (StepLaw i c₀ stream (ingest k e) s t → InStep i localIpv4 c₀ stream (ingest k e) t) := by
  cases e with
  | segment offset a => exact h.segment_step hgen hnext
  | other e =>
    have hstep := h.other_step hgen hnext
    exact ⟨iff_of_true hstep.1 trivial, fun _ => hstep.2⟩

end

theorem streamLaw_cons {u : TcpService} (hnext : streamNext s e = some u) :
    StreamLaw i c₀ stream k s (e :: events) ↔
      StepLaw i c₀ stream (ingest k e) s u ∧ StreamLaw i c₀ stream (ingest k e) u events := by
  have hrun : ∀ rest, run streamNext s (e :: rest) = run streamNext u rest := by
    intro rest
    rw [run, hnext]
    rfl
  constructor
  · intro hlaw
    refine ⟨hlaw [] e events s u rfl rfl hnext, ?_⟩
    intro done f after s₁ s₂ hevents hs₁ hs₂
    exact hlaw (e :: done) f after s₁ s₂ (by rw [hevents]; rfl) ((hrun done).trans hs₁) hs₂
  · rintro ⟨hstep, hlaw⟩ done f after s₁ s₂ hevents hs₁ hs₂
    cases done with
    | nil =>
      obtain ⟨rfl, -⟩ := List.cons.inj hevents
      cases hs₁
      rw [hnext] at hs₂
      cases hs₂
      exact hstep
    | cons g done =>
      obtain ⟨rfl, hevents'⟩ := List.cons.inj hevents
      exact hlaw done f after s₁ s₂ hevents' ((hrun done).symm.trans hs₁) hs₂

theorem InStep.streamLaw_iff (h : InStep i localIpv4 c₀ stream k s)
    (hgen : ∀ e ∈ events, Genuine localIpv4 c₀ stream e) (hrun : run streamNext s events = some t) :
    StreamLaw i c₀ stream k s events ↔ Meets streamNext (Fits i) s events := by
  induction events generalizing s k with
  | nil => exact iff_of_true (fun done e after _ _ hevents => by simp at hevents) trivial
  | cons e events ih =>
    obtain ⟨u, hu, hrest⟩ := run_cons_eq_some.mp hrun
    have hstep := h.step_iff (hgen e List.mem_cons_self) hu
    rw [streamLaw_cons hu, Meets, hu]
    constructor
    · rintro ⟨hlaw, hlater⟩
      refine ⟨hstep.1.mp hlaw, fun v hv => ?_⟩
      cases hv
      exact (ih (hstep.2 hlaw) (fun f hf => hgen f (List.mem_cons_of_mem _ hf)) hrest).mp hlater
    · rintro ⟨hfits, hlater⟩
      have hlaw := hstep.1.mpr hfits
      exact ⟨hlaw, (ih (hstep.2 hlaw) (fun f hf => hgen f (List.mem_cons_of_mem _ hf)) hrest).mpr
        (hlater u rfl)⟩

end Step

/-- Established, with no data received yet. -/
structure JustEstablished (s : TcpService) (i : ℕ) (c : TcpConn) : Prop where
  conn : s.tcpConns.items[i]? = some c
  status : c.status = .established
  recvNextSeqnum : c.recvNextSeqnum = c.recvInitialSeqnum + 1
  receiveBuffer : c.receiveBuffer.items = []
  responses : handed i s.responses = []

/-- **In-order delivery.**  From a connection that has just been established, any events follow,
with any genuine segments of the peer's stream among them.  The law holds at every step exactly
when every segment fits when it arrives. -/
theorem tcp_delivery_iff {s t : TcpService} {i : ℕ} {c : TcpConn} {stream : List Byte}
    {events : List StreamEvent} (hstart : JustEstablished s i c)
    (hgen : ∀ e ∈ events, Genuine s.localIpv4 c stream e)
    (hrun : run streamNext s events = some t) :
    StreamLaw i c stream 0 s events ↔ Meets streamNext (Fits i) s events := by
  refine InStep.streamLaw_iff ?_ hgen hrun
  have hfirst := (c.recvInitialSeqnum + 1).isLt
  refine ⟨rfl, hstart.status, ⟨c.withoutBuffer, ?_, ?_⟩, ?_, Nat.zero_le _, ?_, hfirst⟩
  · rw [connAt, hstart.conn]
    rfl
  · have : c.expected 0 = c.recvNextSeqnum := by
      rw [hstart.recvNextSeqnum]
      exact BitVec.add_zero _
    rw [this]
    rfl
  · rw [taken, hstart.responses, hstart.conn]
    simp [buffered, hstart.receiveBuffer]
  · intro d hd
    rw [hstart.conn] at hd
    cases hd
    rw [hstart.receiveBuffer]
    exact ⟨List.Pairwise.nil, fun seg hseg => by cases hseg⟩

/-- A connection whose peer's first byte has number 101. -/
def downloadConn : TcpConn :=
  { tcpConnAlloc 4000 80 2 7 with
    status := .established
    sendNextSeqnum := 8
    recvInitialSeqnum := 100
    recvNextSeqnum := 101 }

def downloadService : TcpService where
  localIpv4 := 1
  tcpConns := ⟨[downloadConn], 64, by decide⟩
  tcpCallbacks := ArrayM.create 64
  sent := []
  responses := []

/-- A segment of the stream `10, 11, 12, 13` with this header length in words. -/
def downloadSegment (headerLength : BitVec 4) (offset : ℕ) (data : List Byte) : StreamEvent :=
  .segment offset ⟨⟨2, 1⟩,
    ⟨⟨80, 4000, 101 + BitVec.ofNat 32 offset, 8, headerLength, tcpFlagAck⟩, data⟩⟩

/-- The second half comes first and is repeated; a read waits for the first half. -/
def downloadEvents : List StreamEvent :=
  [downloadSegment 5 2 [12, 13], .other (.connRead "browser" 0 1460), downloadSegment 5 0 [10, 11],
    downloadSegment 5 2 [12, 13], downloadSegment 5 2 [12, 13],
    .other (.connRead "browser" 0 1460)]

theorem tcp_delivery_download :
    StreamLaw 0 downloadConn [10, 11, 12, 13] 0 downloadService downloadEvents := by
  have hgen : ∀ e ∈ downloadEvents, Genuine 1 downloadConn [10, 11, 12, 13] e := by
    have hsecond : Genuine 1 downloadConn [10, 11, 12, 13] (downloadSegment 5 2 [12, 13]) :=
      ⟨by decide, by decide, by decide, by decide, by decide, by decide, by decide⟩
    have hfirst : Genuine 1 downloadConn [10, 11, 12, 13] (downloadSegment 5 0 [10, 11]) :=
      ⟨by decide, by decide, by decide, by decide, by decide, by decide, by decide⟩
    intro e he
    simp only [downloadEvents, List.mem_cons, List.not_mem_nil, or_false] at he
    obtain rfl | rfl | rfl | rfl | rfl | rfl := he
    · exact hsecond
    · trivial
    · exact hfirst
    · exact hsecond
    · exact hsecond
    · trivial
  exact (tcp_delivery_iff (s := downloadService) ⟨rfl, rfl, by decide, rfl, rfl⟩ hgen rfl).mpr
    (by decide)

/-- A header of six words: its four bytes of options are taken for data. -/
theorem options_taken_for_data :
    ¬StreamLaw 0 downloadConn [10, 11, 12, 13] 0 downloadService
      [downloadSegment 6 0 [1, 1, 1, 0, 10, 11]] := by
  intro hlaw
  have hnext : (streamNext downloadService (downloadSegment 6 0 [1, 1, 1, 0, 10, 11])).map
      (fun t => taken t 0) = some [1, 1] := by decide
  obtain ⟨t, ht, htaken⟩ := Option.map_eq_some_iff.mp hnext
  obtain ⟨c, -, -, -, hbytes⟩ := hlaw [] _ [] downloadService t rfl rfl ht
  rw [htaken] at hbytes
  exact absurd hbytes (by decide)

end Axle.Net.Tcp
