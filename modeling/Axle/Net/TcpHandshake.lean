import Axle.Net.Tcp

/-!
# The TCP handshake

A connection is allocated in `TCP_SYN_SENT` and sends a SYN.  `_tcp_handle_syn_response` takes any
packet with the SYN flag for the answer, since its condition tests `flags && TCP_FLAG_ACK` where it
means `flags & TCP_FLAG_ACK`, and `_tcp_complete_handshake` advances `send_next_seqnum` before it
looks at the acknowledgement number.  A wrong packet with the SYN flag therefore either establishes
the connection or leaves it unable to recognise the right answer.

* `HandshakeLaw` — the connection is established by the first right answer, and only there;
* `tcp_handshake_iff` — **PROVED**: that law holds of a run exactly when no packet that reaches the
  connection before the first right answer has the SYN flag.
-/

namespace Axle.Net.Tcp

open Axle.Lib.StepRun

structure Arrival where
  info : PacketInfo
  packet : TcpPacket
deriving DecidableEq, Repr

def receive (s : TcpService) (a : Arrival) : Option TcpService := tcpReceive s a.info a.packet

/-- The packet is for this machine and for this connection. -/
def reaches (localIpv4 : IPv4) (c : TcpConn) (a : Arrival) : Bool :=
  a.info.dstIpv4 == localIpv4 && c.matchesPacket a.info a.packet

/-- The right answer to the SYN of the connection. -/
def completes (localIpv4 : IPv4) (c : TcpConn) (a : Arrival) : Bool :=
  reaches localIpv4 c a && a.packet.hasFlag tcpFlagSyn && a.packet.hasFlag tcpFlagAck &&
    a.packet.header.acknowledgementNumber == c.sendInitialSeqnum + 1

/-- The status and the sequence numbers of a connection. -/
structure Sequencing where
  status : TcpConnStatus
  sendInitialSeqnum : BitVec 32
  sendOldestUnackedSeqnum : BitVec 32
  sendNextSeqnum : BitVec 32
  recvInitialSeqnum : BitVec 32
  recvNextSeqnum : BitVec 32
deriving DecidableEq, Repr

def TcpConn.sequencing (c : TcpConn) : Sequencing where
  status := c.status
  sendInitialSeqnum := c.sendInitialSeqnum
  sendOldestUnackedSeqnum := c.sendOldestUnackedSeqnum
  sendNextSeqnum := c.sendNextSeqnum
  recvInitialSeqnum := c.recvInitialSeqnum
  recvNextSeqnum := c.recvNextSeqnum

/-- Connection `i`, which is `c` in `s`: up to the first right answer every packet leaves its state
as it was, and the right answer establishes it. -/
def HandshakeLaw (s : TcpService) (i : ℕ) (c : TcpConn) (arrivals : List Arrival) : Prop :=
  ∀ before a after, arrivals = before ++ a :: after →
    (∀ b ∈ before, completes s.localIpv4 c b = false) →
    ∃ u d, run receive s (before ++ [a]) = some u ∧ u.tcpConns.items[i]? = some d ∧
      if completes s.localIpv4 c a then
        d.status = .established ∧ d.sendNextSeqnum = c.sendInitialSeqnum + 1 ∧
          d.recvNextSeqnum = a.packet.header.sequenceNumber + 1
      else d.sequencing = c.sequencing

/-- Waiting for the answer, with nothing sent but the SYN. -/
structure AwaitsAnswer (c : TcpConn) : Prop where
  status : c.status = .synSent
  sendNextSeqnum : c.sendNextSeqnum = c.sendInitialSeqnum

section Step

variable {s t : TcpService} {i : ℕ} {c d : TcpConn} {a : Arrival}

theorem receive_connAt (hc : connAt s i = some c) (h : receive s a = some t) :
    t.localIpv4 = s.localIpv4 ∧ connAt t i =
      some (if a.info.dstIpv4 = s.localIpv4 then c.onPacket a.info a.packet else c) := by
  by_cases hlocal : a.info.dstIpv4 = s.localIpv4
  · have hrec := tcpReceive_received hlocal h
    have hmem : i ∈ List.range s.tcpConns.size := by
      obtain ⟨d, hd, -⟩ := Option.map_eq_some_iff.mp hc
      exact List.mem_range.mpr (List.getElem?_eq_some_iff.mp hd).1
    refine ⟨hrec.localIpv4, ?_⟩
    rw [hrec.connAt, if_pos hmem, hc, if_pos hlocal]
    rfl
  · unfold receive tcpReceive at h
    rw [if_pos hlocal] at h
    cases h
    exact ⟨rfl, by rw [if_neg hlocal, hc]⟩

/-- A packet that does not reach the connection, or has no SYN flag, changes nothing. -/
theorem receive_ignored (hc : connAt s i = some c) (hwait : AwaitsAnswer c)
    (hquiet : reaches s.localIpv4 c a = true → a.packet.hasFlag tcpFlagSyn = false)
    (h : receive s a = some t) : t.localIpv4 = s.localIpv4 ∧ connAt t i = some c := by
  obtain ⟨hip, ht⟩ := receive_connAt hc h
  refine ⟨hip, ht.trans (congrArg some ?_)⟩
  split
  · rename_i hlocal
    unfold TcpConn.onPacket
    split
    · rfl
    · rename_i hmatch
      have hsyn := hquiet (by simpa [reaches, hlocal] using hmatch)
      simp [hwait.status, hsyn]
  · rfl

/-- A packet with the SYN flag advances `send_next_seqnum`, whatever it acknowledges. -/
theorem receive_syn (hc : connAt s i = some c) (hwait : AwaitsAnswer c)
    (hreach : reaches s.localIpv4 c a = true) (hsyn : a.packet.hasFlag tcpFlagSyn = true)
    (h : receive s a = some t) : connAt t i = some (c.onSynResponse a.packet) := by
  obtain ⟨-, ht⟩ := receive_connAt hc h
  obtain ⟨hlocal, hmatch⟩ : a.info.dstIpv4 = s.localIpv4 ∧
      c.matchesPacket a.info a.packet = true := by
    simpa [reaches] using hreach
  rw [ht, if_pos hlocal]
  simp [TcpConn.onPacket, hmatch, hwait.status, hsyn]

theorem onSynResponse_sendNextSeqnum (c : TcpConn) (p : TcpPacket) :
    (c.onSynResponse p).sendNextSeqnum = c.sendNextSeqnum + 1 := by
  unfold TcpConn.onSynResponse
  split <;> rfl

theorem onSynResponse_of_completes (hwait : AwaitsAnswer c)
    (h : completes s.localIpv4 c a = true) :
    (c.onSynResponse a.packet).status = .established ∧
      (c.onSynResponse a.packet).sendNextSeqnum = c.sendInitialSeqnum + 1 ∧
      (c.onSynResponse a.packet).recvNextSeqnum = a.packet.header.sequenceNumber + 1 := by
  have hack : a.packet.header.acknowledgementNumber = c.sendNextSeqnum + 1 := by
    rw [hwait.sendNextSeqnum]
    simp only [completes, Bool.and_eq_true, beq_iff_eq] at h
    exact h.2
  rw [TcpConn.onSynResponse, if_pos hack]
  exact ⟨rfl, congrArg (· + 1) hwait.sendNextSeqnum, rfl⟩

/-- What the view of a connection says of the connection. -/
theorem exists_of_connAt (hc : connAt s i = some c) :
    ∃ d, s.tcpConns.items[i]? = some d ∧ d.withoutBuffer = c :=
  Option.map_eq_some_iff.mp hc

end Step

/-- No packet that reaches the connection before the first right answer has the SYN flag. -/
def NoEarlySyn (localIpv4 : IPv4) (c : TcpConn) (arrivals : List Arrival) : Prop :=
  ∀ a ∈ arrivals.takeWhile (fun a => !completes localIpv4 c a),
    reaches localIpv4 c a = true → a.packet.hasFlag tcpFlagSyn = false

instance (localIpv4 : IPv4) (c : TcpConn) (arrivals : List Arrival) :
    Decidable (NoEarlySyn localIpv4 c arrivals) :=
  inferInstanceAs (Decidable (∀ a ∈ arrivals.takeWhile (fun a => !completes localIpv4 c a),
    reaches localIpv4 c a = true → a.packet.hasFlag tcpFlagSyn = false))

section Run

variable {s t u : TcpService} {i : ℕ} {c : TcpConn} {a : Arrival} {arrivals : List Arrival}

/-- The law, one packet that is no right answer taken off. -/
theorem handshakeLaw_cons (hip : u.localIpv4 = s.localIpv4) (h : receive s a = some u)
    (hcomp : completes s.localIpv4 c a = false) :
    HandshakeLaw s i c (a :: arrivals) ↔
      (∃ d, u.tcpConns.items[i]? = some d ∧ d.sequencing = c.sequencing) ∧
        HandshakeLaw u i c arrivals := by
  have hrun : ∀ rest, run receive s (a :: rest) = run receive u rest := by
    intro rest
    rw [run, h]
    rfl
  constructor
  · intro hlaw
    constructor
    · obtain ⟨v, d, hv, hd, hstate⟩ := hlaw [] a arrivals rfl (by simp)
      rw [List.nil_append, hrun] at hv
      cases hv
      rw [if_neg (by simp [hcomp])] at hstate
      exact ⟨d, hd, hstate⟩
    · intro before b after harr hbefore
      rw [hip] at hbefore ⊢
      have := hlaw (a :: before) b after (by rw [harr]; rfl) (by simpa [hcomp] using hbefore)
      rw [List.cons_append, hrun] at this
      exact this
  · rintro ⟨⟨d, hd, hstate⟩, hlaw⟩ before b after harr hbefore
    cases before with
    | nil =>
      obtain ⟨rfl, -⟩ := List.cons.inj harr
      exact ⟨u, d, hrun [], hd, by rw [if_neg (by simp [hcomp])]; exact hstate⟩
    | cons x before =>
      obtain ⟨rfl, harr'⟩ := List.cons.inj harr
      have := hlaw before b after harr' (by
        rw [hip]
        exact fun y hy => hbefore y (List.mem_cons_of_mem _ hy))
      rw [hip] at this
      rw [List.cons_append, hrun]
      exact this

theorem noEarlySyn_cons {localIpv4 : IPv4} (hcomp : completes localIpv4 c a = false) :
    NoEarlySyn localIpv4 c (a :: arrivals) ↔
      (reaches localIpv4 c a = true → a.packet.hasFlag tcpFlagSyn = false) ∧
        NoEarlySyn localIpv4 c arrivals := by
  simp [NoEarlySyn, hcomp]

/-- The right answer at once: nothing stands before it. -/
theorem handshakeLaw_of_completes (hwait : AwaitsAnswer c) (hc : connAt s i = some c)
    (h : receive s a = some u) (hcomp : completes s.localIpv4 c a = true) :
    HandshakeLaw s i c (a :: arrivals) := by
  intro before b after harr hbefore
  cases before with
  | cons x before =>
    obtain ⟨rfl, -⟩ := List.cons.inj harr
    have := hbefore a List.mem_cons_self
    rw [hcomp] at this
    cases this
  | nil =>
    obtain ⟨rfl, -⟩ := List.cons.inj harr
    have hflags : (reaches s.localIpv4 c a = true ∧ a.packet.hasFlag tcpFlagSyn = true) := by
      simp only [completes, Bool.and_eq_true] at hcomp
      exact hcomp.1.1
    obtain ⟨d, hd, hview⟩ := exists_of_connAt (receive_syn hc hwait hflags.1 hflags.2 h)
    refine ⟨u, d, ?_, hd, ?_⟩
    · show (receive s a).bind _ = some u
      rw [h]
      rfl
    · rw [if_pos hcomp]
      have hdone := onSynResponse_of_completes (s := s) hwait hcomp
      rw [← hview] at hdone
      exact hdone

theorem handshakeLaw_iff (hwait : AwaitsAnswer c) (hc : connAt s i = some c)
    (hrun : run receive s arrivals = some t) :
    HandshakeLaw s i c arrivals ↔ NoEarlySyn s.localIpv4 c arrivals := by
  induction arrivals generalizing s with
  | nil =>
    refine iff_of_true (fun before a after h _ => ?_) fun a ha => ?_
    · exact absurd h.symm (by simp)
    · cases ha
  | cons a arrivals ih =>
    obtain ⟨u, hu, hrest⟩ := run_cons_eq_some.mp hrun
    cases hcomp : completes s.localIpv4 c a with
    | true =>
      refine iff_of_true (handshakeLaw_of_completes hwait hc hu hcomp) fun b hb => ?_
      rw [List.takeWhile_cons, if_neg (by simp [hcomp])] at hb
      cases hb
    | false =>
      have hip := (receive_connAt hc hu).1
      rw [handshakeLaw_cons hip hu hcomp, noEarlySyn_cons hcomp]
      by_cases hquiet : reaches s.localIpv4 c a = true → a.packet.hasFlag tcpFlagSyn = false
      · have hc' := (receive_ignored hc hwait hquiet hu).2
        obtain ⟨d, hd, hview⟩ := exists_of_connAt hc'
        have hsame : d.sequencing = c.sequencing := by
          rw [← hview]
          rfl
        rw [ih hc' hrest, hip]
        exact ⟨fun h => ⟨hquiet, h.2⟩, fun h => ⟨⟨d, hd, hsame⟩, h.2⟩⟩
      · -- a SYN that is no right answer moves `send_next_seqnum`
        refine iff_of_false (fun h => ?_) fun h => hquiet h.1
        obtain ⟨hreach, hsyn⟩ := Classical.not_imp.mp hquiet
        obtain ⟨d, hd, hstate⟩ := h.1
        have hview : connAt u i = some d.withoutBuffer := by rw [connAt, hd]; rfl
        rw [receive_syn hc hwait hreach (by simpa using hsyn) hu] at hview
        have hnext : (c.onSynResponse a.packet).sendNextSeqnum = d.withoutBuffer.sendNextSeqnum :=
          congrArg TcpConn.sendNextSeqnum (Option.some.inj hview)
        change _ = d.sendNextSeqnum at hnext
        have hsame : d.sendNextSeqnum = c.sendNextSeqnum :=
          congrArg Sequencing.sendNextSeqnum hstate
        rw [onSynResponse_sendNextSeqnum, hsame] at hnext
        bv_omega

end Run

/-- **The handshake.**  Packets arrive at a service with a connection that has just been allocated.
The law holds exactly when no packet that reaches the connection before the first right answer has
the SYN flag. -/
theorem tcp_handshake_iff {s t : TcpService} {i : ℕ} {srcPort dstPort : BitVec 16} {destIp : IPv4}
    {rand : BitVec 32} {arrivals : List Arrival}
    (hi : s.tcpConns.items[i]? = some (tcpConnAlloc srcPort dstPort destIp rand))
    (hrun : run receive s arrivals = some t) :
    HandshakeLaw s i (tcpConnAlloc srcPort dstPort destIp rand) arrivals ↔
      NoEarlySyn s.localIpv4 (tcpConnAlloc srcPort dstPort destIp rand) arrivals := by
  have hc : connAt s i = some (tcpConnAlloc srcPort dstPort destIp rand).withoutBuffer := by
    rw [connAt, hi]
    rfl
  have hwait : AwaitsAnswer (tcpConnAlloc srcPort dstPort destIp rand).withoutBuffer := ⟨rfl, rfl⟩
  have hiff := handshakeLaw_iff hwait hc hrun
  exact hiff

/-- One connection from port 4000 to port 80, whose SYN has number 7. -/
def oneConn : TcpService where
  localIpv4 := 1
  tcpConns := ⟨[tcpConnAlloc 4000 80 2 7], 64, by decide⟩
  tcpCallbacks := ⟨[.connOpen "browser" 0], 64, by decide⟩
  sent := []
  responses := []

/-- A packet from the other end, with sequence number 100. -/
def answer (acknowledgementNumber : BitVec 32) (flags : BitVec 8) : Arrival where
  info := ⟨2, 1⟩
  packet := ⟨⟨80, 4000, 100, acknowledgementNumber, 5, flags⟩, []⟩

/-- A stray reset, then the right answer. -/
theorem tcp_handshake_after_reset :
    HandshakeLaw oneConn 0 (tcpConnAlloc 4000 80 2 7)
      [answer 3 tcpFlagRst, answer 8 (tcpFlagSyn ||| tcpFlagAck)] :=
  (tcp_handshake_iff (s := oneConn) (i := 0) rfl rfl).mpr (by decide)

/-- A SYN-ACK for another number comes before the right answer, which then is not recognised. -/
theorem handshake_lost_after_wrong_answer :
    ¬HandshakeLaw oneConn 0 (tcpConnAlloc 4000 80 2 7)
      [answer 9 (tcpFlagSyn ||| tcpFlagAck), answer 8 (tcpFlagSyn ||| tcpFlagAck)] := by
  intro hlaw
  obtain ⟨u, d, hu, hd, hstate⟩ := hlaw [answer 9 (tcpFlagSyn ||| tcpFlagAck)] _ [] rfl (by decide)
  have hstays : ((run receive oneConn
      [answer 9 (tcpFlagSyn ||| tcpFlagAck), answer 8 (tcpFlagSyn ||| tcpFlagAck)]).bind
        fun u => u.tcpConns.items[0]?.map TcpConn.status) = some .synSent := by decide
  rw [List.singleton_append] at hu
  rw [hu, Option.bind_some, hd] at hstays
  rw [Option.map_some, hstate.1] at hstays
  cases hstays

end Axle.Net.Tcp
