import Axle.Kernel.ArrayM
import Axle.Lib.StepRun
import Mathlib.Data.BitVec

/-!
# TCP connections of the network service

`programs/subprojects/net/tcp.c`: one process owns every connection and the callbacks of the
clients that wait for one of them, and handles one event at a time, a packet or a request of a
client.  The arrays are those of `libutils/array.c`, which are bounded as the kernel's are; an
assertion that fails, or an insertion into a full array, ends the process: `none`.

Header fields are in host byte order.  `data` of a packet is `packet->data`, everything behind the
twenty bytes of the fixed header, so that options come first.  A connection is named by its index
in `_tcp_conns`, from which nothing is ever removed.

* `tcpReceive` — the dispatch of a packet to the connections it is addressed to;
* `callbackListInvokeReadyCallbacks` — which callbacks are ready is decided before any is completed;
* `tcpNext` — one event.
-/

namespace Axle.Net.Tcp

open Axle.Kernel (ArrayM)
open Axle.Lib.StepRun

abbrev Byte := BitVec 8

/-- The four bytes of an address. -/
abbrev IPv4 := BitVec 32

/-! ### Packets -/

def tcpFlagSyn : BitVec 8 := 0x02
def tcpFlagRst : BitVec 8 := 0x04
def tcpFlagPush : BitVec 8 := 0x08
def tcpFlagAck : BitVec 8 := 0x10

structure TcpHeader where
  sourcePort : BitVec 16
  destPort : BitVec 16
  sequenceNumber : BitVec 32
  acknowledgementNumber : BitVec 32
  headerLength : BitVec 4
  flags : BitVec 8
deriving DecidableEq, Repr

def sizeofTcpHeader : ℕ := 20

structure TcpPacket where
  header : TcpHeader
  data : List Byte
deriving DecidableEq, Repr

structure PacketInfo where
  srcIpv4 : IPv4
  dstIpv4 : IPv4
deriving DecidableEq, Repr

namespace TcpPacket

def packetSize (p : TcpPacket) : BitVec 32 := BitVec.ofNat 32 (sizeofTcpHeader + p.data.length)

def packetHeaderLen (p : TcpPacket) : BitVec 32 := BitVec.ofNat 32 (p.header.headerLength.toNat * 4)

/-- `data_len` of `tcp_receive`. -/
def dataLen (p : TcpPacket) : BitVec 32 := p.packetSize - p.packetHeaderLen

/-- `flags & flag`. -/
def hasFlag (p : TcpPacket) (flag : BitVec 8) : Bool := p.header.flags &&& flag != 0

end TcpPacket

/-! ### Connections -/

inductive TcpConnStatus where
  | synSent | synAckRecv | established
deriving DecidableEq, Repr

structure TcpSegment where
  buf : List Byte
  len : BitVec 32
  sequenceStart : BitVec 32
deriving DecidableEq, Repr

structure TcpConn where
  destIp : IPv4
  srcPort : BitVec 16
  dstPort : BitVec 16
  status : TcpConnStatus
  sendInitialSeqnum : BitVec 32
  sendOldestUnackedSeqnum : BitVec 32
  sendNextSeqnum : BitVec 32
  recvInitialSeqnum : BitVec 32
  recvNextSeqnum : BitVec 32
  receiveBuffer : ArrayM TcpSegment
deriving DecidableEq, Repr

/-- What `_tcp_conn_alloc` makes; `rand` is the initial sequence number drawn. -/
def tcpConnAlloc (srcPort dstPort : BitVec 16) (destIp : IPv4) (rand : BitVec 32) : TcpConn where
  destIp := destIp
  srcPort := srcPort
  dstPort := dstPort
  status := .synSent
  sendInitialSeqnum := rand
  sendOldestUnackedSeqnum := 0
  sendNextSeqnum := rand
  recvInitialSeqnum := 0
  recvNextSeqnum := 0
  receiveBuffer := ArrayM.create 64

/-- A packet handed to `ipv4_send`; `conn` says whose it is: bookkeeping, not in the code. -/
structure SentPacket where
  conn : ℕ
  srcPort : BitVec 16
  dstPort : BitVec 16
  destIp : IPv4
  sequenceNum : BitVec 32
  acknowledgeNum : BitVec 32
  flags : BitVec 8
  data : List Byte
deriving DecidableEq, Repr

/-- A client waits for a connection to be established, or for the next segment of one. -/
inductive TcpCallback where
  | connOpen (amcService : String) (conn : ℕ)
  | connRead (amcService : String) (conn : ℕ) (len nextSeqnumToDeliver : BitVec 32)
deriving DecidableEq, Repr

/-- What is sent back to a client. -/
inductive NetResponse where
  | tcpOpen (amcService : String) (tcpConnDescriptor : ℕ)
  | tcpRead (amcService : String) (tcpConnDescriptor : ℕ) (len : BitVec 32) (data : List Byte)
deriving DecidableEq, Repr

/-- The state of the process; `sent` and `responses` are all it has sent so far. -/
structure TcpService where
  localIpv4 : IPv4
  tcpConns : ArrayM TcpConn
  tcpCallbacks : ArrayM TcpCallback
  sent : List SentPacket
  responses : List NetResponse
deriving DecidableEq, Repr

namespace TcpService

/-- A store through the pointer to connection `i`. -/
def setConn (s : TcpService) (i : ℕ) (c : TcpConn) : TcpService :=
  { s with tcpConns := s.tcpConns.store i c }

def respond (s : TcpService) (r : NetResponse) : TcpService :=
  { s with responses := s.responses ++ [r] }

/-- `tcp_send`, to the other end of connection `i`. -/
def tcpSend (s : TcpService) (i : ℕ) (c : TcpConn) (sequenceNum acknowledgeNum : BitVec 32)
    (flags : BitVec 8) (data : List Byte) : TcpService :=
  { s with sent := s.sent ++
      [⟨i, c.srcPort, c.dstPort, c.destIp, sequenceNum, acknowledgeNum, flags, data⟩] }

end TcpService

/-! ### Callbacks -/

/-- `_tcp_is_amc_rpc__conn_read_satisfied`, over the segments from the first on. -/
def connReadSatisfied (len next : BitVec 32) : List TcpSegment → Option Bool
  | [] => some false
  | seg :: segs =>
    if next < seg.sequenceStart then connReadSatisfied len next segs
    else if seg.len ≤ len then some true
    else none

def isCallbackSatisfied (s : TcpService) : TcpCallback → Option Bool
  | .connOpen _ i => (s.tcpConns.lookup i).map fun c => c.status == .established
  | .connRead _ i len next =>
    (s.tcpConns.lookup i).bind fun c => connReadSatisfied len next c.receiveBuffer.items

/-- `_tcp_complete_amc_rpc__conn_read`: the first segment that is not further along is handed out
and removed. -/
def completeConnRead (s : TcpService) (service : String) (i : ℕ) (next : BitVec 32) :
    Option TcpService := do
  let c ← s.tcpConns.lookup i
  let k ← c.receiveBuffer.items.findIdx? fun seg => !decide (next < seg.sequenceStart)
  let seg ← c.receiveBuffer.lookup k
  let buffer ← c.receiveBuffer.remove k
  some ((s.respond (.tcpRead service i seg.len seg.buf)).setConn i
    { c with receiveBuffer := buffer })

def completeCallback (s : TcpService) : TcpCallback → Option TcpService
  | .connOpen service i => some (s.respond (.tcpOpen service i))
  | .connRead service i _ next => completeConnRead s service i next

/-- The callback at this index is taken out of the list and completed. -/
def dispatchCallback (s : TcpService) (idx : ℕ) : Option TcpService := do
  let cb ← s.tcpCallbacks.lookup idx
  let callbacks ← s.tcpCallbacks.remove idx
  completeCallback { s with tcpCallbacks := callbacks } cb

/-- `callback_indexes_to_complete`. -/
def callbackIndexesToComplete (s : TcpService) : Option (List ℕ) :=
  (List.range s.tcpCallbacks.size).filterM fun i =>
    (s.tcpCallbacks.lookup i).bind (isCallbackSatisfied s)

/-- `callback_list_invoke_ready_callbacks`: from high indexes to low ones. -/
def callbackListInvokeReadyCallbacks (s : TcpService) : Option TcpService := do
  let indexes ← callbackIndexesToComplete s
  run dispatchCallback s indexes.reverse

/-- `callback_list_add_callback`, then `callback_list_invoke_callback_if_ready` for the callback
just added. -/
def addCallbackAndInvokeIfReady (s : TcpService) (cb : TcpCallback) : Option TcpService := do
  let callbacks ← s.tcpCallbacks.insert cb
  let s : TcpService := { s with tcpCallbacks := callbacks }
  if ← isCallbackSatisfied s cb then dispatchCallback s (callbacks.size - 1) else some s

/-! ### Receiving -/

/-- `_tcp_complete_handshake`. -/
def tcpCompleteHandshake (s : TcpService) (i : ℕ) (c : TcpConn) (p : TcpPacket) :
    Option TcpService :=
  let c : TcpConn := { c with sendNextSeqnum := c.sendNextSeqnum + 1 }
  if p.header.acknowledgementNumber = c.sendNextSeqnum then
    let c : TcpConn :=
      { c with
        recvInitialSeqnum := p.header.sequenceNumber
        recvNextSeqnum := p.header.sequenceNumber + 1
        status := .established }
    callbackListInvokeReadyCallbacks
      ((s.setConn i c).tcpSend i c c.sendNextSeqnum c.recvNextSeqnum tcpFlagAck [])
  else some (s.setConn i c)

/-- `_tcp_handle_syn_response`.  The condition reads `flags & SYN && flags && ACK`. -/
def tcpHandleSynResponse (s : TcpService) (i : ℕ) (c : TcpConn) (p : TcpPacket) :
    Option TcpService :=
  if p.hasFlag tcpFlagSyn && p.header.flags != 0 && tcpFlagAck != 0 then
    tcpCompleteHandshake s i c p
  else
    some ((s.tcpSend i c p.header.acknowledgementNumber 0 tcpFlagRst []).tcpSend i c
      c.sendInitialSeqnum c.recvInitialSeqnum tcpFlagSyn [])

/-- The acknowledgement of `_tcp_conn_recv`. -/
def bumpOldestUnacked (c : TcpConn) (p : TcpPacket) : TcpConn :=
  if p.hasFlag tcpFlagAck && decide (c.sendOldestUnackedSeqnum < p.header.acknowledgementNumber) then
    { c with sendOldestUnackedSeqnum := p.header.acknowledgementNumber }
  else c

/-- `_tcp_conn_recv`.  The bytes kept are those at `packet->data`. -/
def tcpConnRecv (s : TcpService) (i : ℕ) (c : TcpConn) (p : TcpPacket) (dataLen : BitVec 32) :
    Option TcpService :=
  let c := bumpOldestUnacked c p
  let s := s.setConn i c
  let recvSeqNum := p.header.sequenceNumber
  if dataLen = 0 then some s
  else if recvSeqNum + dataLen ≤ c.recvNextSeqnum then some s
  else if c.recvNextSeqnum < recvSeqNum then
    some (s.tcpSend i c c.sendNextSeqnum c.recvNextSeqnum tcpFlagAck [])
  else do
    let c : TcpConn := { c with recvNextSeqnum := c.recvNextSeqnum + dataLen }
    let s := s.tcpSend i c c.sendNextSeqnum c.recvNextSeqnum tcpFlagAck []
    let buffer ← c.receiveBuffer.insert
      ⟨p.data.take dataLen.toNat, dataLen, recvSeqNum - c.recvInitialSeqnum⟩
    callbackListInvokeReadyCallbacks (s.setConn i { c with receiveBuffer := buffer })

/-- The packet comes from the other end of the connection. -/
def TcpConn.matchesPacket (c : TcpConn) (info : PacketInfo) (p : TcpPacket) : Bool :=
  c.srcPort == p.header.destPort && c.dstPort == p.header.sourcePort && c.destIp == info.srcIpv4

/-- The body of the loop of `tcp_receive`. -/
def tcpReceiveAt (info : PacketInfo) (p : TcpPacket) (s : TcpService) (i : ℕ) :
    Option TcpService := do
  let c ← s.tcpConns.lookup i
  if !c.matchesPacket info p then some s
  else match c.status with
    | .synSent => tcpHandleSynResponse s i c p
    | .established => tcpConnRecv s i c p p.dataLen
    | .synAckRecv => some s

/-- `tcp_receive`. -/
def tcpReceive (s : TcpService) (info : PacketInfo) (p : TcpPacket) : Option TcpService :=
  if info.dstIpv4 ≠ s.localIpv4 then some s
  else run (tcpReceiveAt info p) s (List.range s.tcpConns.size)

/-! ### Requests of clients -/

/-- `tcp_perform_amc_rpc__conn_open`. -/
def tcpPerformConnOpen (s : TcpService) (service : String) (srcPort dstPort : BitVec 16)
    (dstIpv4 : IPv4) (rand : BitVec 32) : Option TcpService := do
  let c := tcpConnAlloc srcPort dstPort dstIpv4 rand
  let conns ← s.tcpConns.insert c
  let callbacks ← s.tcpCallbacks.insert (.connOpen service s.tcpConns.size)
  let t : TcpService := { s with tcpConns := conns, tcpCallbacks := callbacks }
  some (t.tcpSend s.tcpConns.size c c.sendInitialSeqnum c.recvInitialSeqnum tcpFlagSyn [])

/-- `tcp_perform_amc_rpc__conn_send`. -/
def tcpPerformConnSend (s : TcpService) (tcpConnDescriptor : ℕ) (data : List Byte) :
    Option TcpService := do
  let c ← s.tcpConns.lookup tcpConnDescriptor
  let s := s.tcpSend tcpConnDescriptor c c.sendNextSeqnum c.recvNextSeqnum
    (tcpFlagAck ||| tcpFlagPush) data
  some (s.setConn tcpConnDescriptor
    { c with sendNextSeqnum := c.sendNextSeqnum + BitVec.ofNat 32 data.length })

/-- `tcp_perform_amc_rpc__conn_read`. -/
def tcpPerformConnRead (s : TcpService) (service : String) (tcpConnDescriptor : ℕ)
    (len : BitVec 32) : Option TcpService := do
  let c ← s.tcpConns.lookup tcpConnDescriptor
  addCallbackAndInvokeIfReady s
    (.connRead service tcpConnDescriptor len (c.recvNextSeqnum - c.recvInitialSeqnum))

inductive TcpEvent where
  | receive (info : PacketInfo) (p : TcpPacket)
  | connOpen (service : String) (srcPort dstPort : BitVec 16) (dstIpv4 : IPv4) (rand : BitVec 32)
  | connSend (tcpConnDescriptor : ℕ) (data : List Byte)
  | connRead (service : String) (tcpConnDescriptor : ℕ) (len : BitVec 32)
deriving DecidableEq, Repr

def tcpNext (s : TcpService) : TcpEvent → Option TcpService
  | .receive info p => tcpReceive s info p
  | .connOpen service srcPort dstPort dstIpv4 rand =>
    tcpPerformConnOpen s service srcPort dstPort dstIpv4 rand
  | .connSend descriptor data => tcpPerformConnSend s descriptor data
  | .connRead service descriptor len => tcpPerformConnRead s service descriptor len

/-! ### What serving callbacks leaves alone -/

/-- A connection, its receive buffer aside. -/
def TcpConn.withoutBuffer (c : TcpConn) : TcpConn := { c with receiveBuffer := ArrayM.create 0 }

/-- Connection `i`, its receive buffer aside. -/
def connAt (s : TcpService) (i : ℕ) : Option TcpConn :=
  s.tcpConns.items[i]?.map TcpConn.withoutBuffer

/-- The bytes of the reads of connection `i` among these responses. -/
def handed (i : ℕ) (responses : List NetResponse) : List Byte :=
  responses.flatMap fun
    | .tcpRead _ j _ data => if j = i then data else []
    | .tcpOpen _ _ => []

def buffered (c : TcpConn) : List Byte := c.receiveBuffer.items.flatMap TcpSegment.buf

/-- The bytes handed to the reads of connection `i`, then those still in its buffer. -/
def taken (s : TcpService) (i : ℕ) : List Byte :=
  handed i s.responses ++ (s.tcpConns.items[i]?.map buffered).getD []

/-- The bytes of the peer's stream before the next one that is expected. -/
def TcpConn.bytesBefore (c : TcpConn) : BitVec 32 := c.recvNextSeqnum - c.recvInitialSeqnum - 1

/-- The segment stands in the stream, and not after the next byte that is expected. -/
def TcpSegment.Within (seg : TcpSegment) (bytesBefore : BitVec 32) : Prop :=
  seg.sequenceStart ≠ 0 ∧ seg.sequenceStart - 1 ≤ bytesBefore

/-- The segments of the buffer start in the order in which they stand there, and none of them
after the next byte that is expected. -/
def InOrder (s : TcpService) (i : ℕ) : Prop :=
  ∀ c, s.tcpConns.items[i]? = some c →
    (c.receiveBuffer.items.Pairwise fun a b => a.sequenceStart ≤ b.sequenceStart) ∧
    ∀ seg ∈ c.receiveBuffer.items, seg.Within c.bytesBefore

/-- From `s` to `t` clients have been served. -/
structure Served (s t : TcpService) : Prop where
  localIpv4 : t.localIpv4 = s.localIpv4
  sent : t.sent = s.sent
  connAt : ∀ i, connAt t i = connAt s i
  inOrder : ∀ i, InOrder s i → InOrder t i
  taken : ∀ i, InOrder s i → taken t i = taken s i

theorem Served.refl (s : TcpService) : Served s s :=
  ⟨rfl, rfl, fun _ => rfl, fun _ h => h, fun _ _ => rfl⟩

theorem Served.trans {s t u : TcpService} (h : Served s t) (h' : Served t u) : Served s u where
  localIpv4 := h'.localIpv4.trans h.localIpv4
  sent := h'.sent.trans h.sent
  connAt i := (h'.connAt i).trans (h.connAt i)
  inOrder i hi := h'.inOrder i (h.inOrder i hi)
  taken i hi := (h'.taken i (h.inOrder i hi)).trans (h.taken i hi)

theorem handed_append (i : ℕ) (a b : List NetResponse) :
    handed i (a ++ b) = handed i a ++ handed i b := List.flatMap_append

variable {next : BitVec 32} {c : TcpConn} {i : ℕ} {s t : TcpService}

theorem findIdx?_of_inOrder {segs : List TcpSegment} {k : ℕ}
    (hord : segs.Pairwise fun a b => a.sequenceStart ≤ b.sequenceStart)
    (hk : segs.findIdx? (fun seg => !decide (next < seg.sequenceStart)) = some k) : k = 0 := by
  cases segs with
  | nil => cases hk
  | cons seg segs =>
    by_contra hne
    obtain ⟨hlt, hgood, hbad⟩ := List.findIdx?_eq_some_iff_getElem.mp hk
    have hfirst := hbad 0 (Nat.pos_of_ne_zero hne)
    have hle : seg.sequenceStart ≤ ((seg :: segs)[k]).sequenceStart :=
      List.pairwise_iff_getElem.mp hord 0 k (by simp) hlt (Nat.pos_of_ne_zero hne)
    simp only [List.getElem_cons_zero, Bool.not_eq_true', decide_eq_false_iff_not] at hfirst hgood
    exact hgood (by bv_omega)

theorem setConn_getElem? (hi : s.tcpConns.items[i]? = some c) (c' : TcpConn) (j : ℕ) :
    (s.setConn i c').tcpConns.items[j]? = if j = i then some c' else s.tcpConns.items[j]? := by
  show (s.tcpConns.items.set i c')[j]? = _
  split
  · rename_i h
    rw [h, List.getElem?_set_self (List.getElem?_eq_some_iff.mp hi).1]
  · rename_i h
    rw [List.getElem?_set_ne (Ne.symm h)]

theorem setConn_setConn_getElem? (hi : s.tcpConns.items[i]? = some c) (c' c'' : TcpConn) (j : ℕ) :
    ((s.setConn i c').setConn i c'').tcpConns.items[j]? =
      if j = i then some c'' else s.tcpConns.items[j]? := by
  rw [setConn_getElem? ((setConn_getElem? hi c' i).trans (if_pos rfl)), setConn_getElem? hi]
  split <;> rfl

theorem completeConnRead_served {service : String} {j : ℕ}
    (h : completeConnRead s service j next = some t) : Served s t := by
  obtain ⟨c, hc, k, hk, seg, hseg, buffer, hbuffer, ht⟩ : ∃ c, s.tcpConns.items[j]? = some c ∧
      ∃ k, c.receiveBuffer.items.findIdx? (fun seg => !decide (next < seg.sequenceStart)) = some k ∧
      ∃ seg, c.receiveBuffer.items[k]? = some seg ∧
      ∃ buffer, c.receiveBuffer.remove k = some buffer ∧
        (s.respond (.tcpRead service j seg.len seg.buf)).setConn j
          { c with receiveBuffer := buffer } = t := by
    simpa only [completeConnRead, Option.bind_eq_bind, Option.bind_eq_some_iff,
      Option.some.injEq, ArrayM.lookup] using h
  obtain ⟨-, hitems, -⟩ := ArrayM.remove_eq_some.mp hbuffer
  have hconn : ∀ i, t.tcpConns.items[i]? =
      if i = j then some { c with receiveBuffer := buffer } else s.tcpConns.items[i]? := by
    intro i
    rw [← ht, setConn_getElem? (s := s.respond _) hc]
    rfl
  have hresponses : t.responses = s.responses ++ [.tcpRead service j seg.len seg.buf] := by
    rw [← ht]
    rfl
  refine ⟨by rw [← ht]; rfl, by rw [← ht]; rfl, ?_, ?_, ?_⟩
  · intro i
    rw [connAt, connAt, hconn]
    split
    · rename_i hi
      rw [hi, hc]
      rfl
    · rfl
  · intro i hord d hd
    rw [hconn] at hd
    split at hd
    · rename_i hi
      subst hi
      cases hd
      show buffer.items.Pairwise _ ∧ ∀ seg ∈ buffer.items, seg.Within c.bytesBefore
      rw [hitems]
      exact ⟨(hord c hc).1.sublist (List.eraseIdx_sublist _ _),
        fun seg hmem => (hord c hc).2 seg (List.mem_of_mem_eraseIdx hmem)⟩
    · exact hord d hd
  · intro i hord
    rw [taken, taken, hresponses, handed_append, hconn]
    split
    · rename_i hi
      subst hi
      obtain rfl := findIdx?_of_inOrder (hord c hc).1 hk
      cases hsegs : c.receiveBuffer.items with
      | nil => rw [hsegs] at hseg; cases hseg
      | cons first segs =>
        rw [hsegs] at hseg hitems
        obtain rfl : first = seg := by simpa using hseg
        rw [hc]
        simp [handed, buffered, hsegs, hitems]
    · rename_i hi
      have : handed i [.tcpRead service j seg.len seg.buf] = [] := by
        simp [handed, Ne.symm hi]
      rw [this, List.append_nil]

theorem dispatchCallback_served {idx : ℕ} (h : dispatchCallback s idx = some t) : Served s t := by
  obtain ⟨cb, -, callbacks, -, ht⟩ : ∃ cb, s.tcpCallbacks.items[idx]? = some cb ∧
      ∃ callbacks, s.tcpCallbacks.remove idx = some callbacks ∧
        completeCallback { s with tcpCallbacks := callbacks } cb = some t := by
    simpa only [dispatchCallback, Option.bind_eq_bind, Option.bind_eq_some_iff,
      ArrayM.lookup] using h
  have hcallbacks : Served s { s with tcpCallbacks := callbacks } :=
    ⟨rfl, rfl, fun _ => rfl, fun _ h => h, fun _ _ => rfl⟩
  refine hcallbacks.trans ?_
  cases cb with
  | connOpen service i =>
    cases ht
    refine ⟨rfl, rfl, fun _ => rfl, fun _ h => h, fun i _ => ?_⟩
    show handed i (s.responses ++ [_]) ++ _ = handed i s.responses ++ _
    simp [handed, TcpService.respond]
  | connRead service i len next => exact completeConnRead_served ht

theorem callbackListInvokeReadyCallbacks_served (h : callbackListInvokeReadyCallbacks s = some t) :
    Served s t := by
  obtain ⟨indexes, -, hrun⟩ : ∃ indexes, callbackIndexesToComplete s = some indexes ∧
      run dispatchCallback s indexes.reverse = some t := by
    simpa only [callbackListInvokeReadyCallbacks, Option.bind_eq_bind,
      Option.bind_eq_some_iff] using h
  have hstep : ∀ (a : TcpService) (e : ℕ) (b : TcpService), Served s a → True →
      dispatchCallback a e = some b → Served s b :=
    fun a e b ha _ hb => ha.trans (dispatchCallback_served hb)
  exact run_invariant hstep indexes.reverse s t (Served.refl s) (Meets.trivial _ _) hrun

/-! ### What a packet does to a connection -/

namespace TcpConn

/-- The handshake, without the packets it sends. -/
def onSynResponse (c : TcpConn) (p : TcpPacket) : TcpConn :=
  if p.header.acknowledgementNumber = c.sendNextSeqnum + 1 then
    { c with
      sendNextSeqnum := c.sendNextSeqnum + 1
      recvInitialSeqnum := p.header.sequenceNumber
      recvNextSeqnum := p.header.sequenceNumber + 1
      status := .established }
  else { c with sendNextSeqnum := c.sendNextSeqnum + 1 }

/-- The data of the packet is put into the receive buffer. -/
def takesData (c : TcpConn) (p : TcpPacket) : Bool :=
  p.dataLen != 0 && !decide (p.header.sequenceNumber + p.dataLen ≤ c.recvNextSeqnum) &&
    !decide (c.recvNextSeqnum < p.header.sequenceNumber)

def onData (c : TcpConn) (p : TcpPacket) : TcpConn :=
  if c.takesData p then
    { bumpOldestUnacked c p with recvNextSeqnum := c.recvNextSeqnum + p.dataLen }
  else bumpOldestUnacked c p

/-- What a packet does to a connection, the receive buffer aside. -/
def onPacket (c : TcpConn) (info : PacketInfo) (p : TcpPacket) : TcpConn :=
  if !c.matchesPacket info p then c
  else match c.status with
    | .synSent => if p.hasFlag tcpFlagSyn then c.onSynResponse p else c
    | .established => c.onData p
    | .synAckRecv => c

/-- The segment that a packet adds to the receive buffer. -/
def newSegment (c : TcpConn) (info : PacketInfo) (p : TcpPacket) : Option TcpSegment :=
  if c.matchesPacket info p && c.status == .established && c.takesData p then
    some ⟨p.data.take p.dataLen.toNat, p.dataLen, p.header.sequenceNumber - c.recvInitialSeqnum⟩
  else none

end TcpConn

theorem bumpOldestUnacked_receiveBuffer (c : TcpConn) (p : TcpPacket) :
    (bumpOldestUnacked c p).receiveBuffer = c.receiveBuffer := by
  unfold bumpOldestUnacked
  split <;> rfl

theorem bumpOldestUnacked_recvNextSeqnum (c : TcpConn) (p : TcpPacket) :
    (bumpOldestUnacked c p).recvNextSeqnum = c.recvNextSeqnum := by
  unfold bumpOldestUnacked
  split <;> rfl

theorem bumpOldestUnacked_recvInitialSeqnum (c : TcpConn) (p : TcpPacket) :
    (bumpOldestUnacked c p).recvInitialSeqnum = c.recvInitialSeqnum := by
  unfold bumpOldestUnacked
  split <;> rfl

namespace TcpConn

/-- A segment that the packet adds comes behind the others. -/
def Continues (c : TcpConn) (info : PacketInfo) (p : TcpPacket) : Prop :=
  ∀ seg ∈ c.newSegment info p, c.bytesBefore ≤ seg.sequenceStart - 1 ∧
    seg.Within (c.onPacket info p).bytesBefore

variable {c : TcpConn} {info : PacketInfo} {p : TcpPacket}

theorem bytesBefore_of_newSegment (hest : c.status = .established)
    (h : c.newSegment info p = none) : (c.onPacket info p).bytesBefore = c.bytesBefore := by
  unfold onPacket
  split
  · rfl
  · rename_i hmatch
    have hmatch' : c.matchesPacket info p = true := by simpa using hmatch
    have htake : c.takesData p = false := by simpa [newSegment, hest, hmatch'] using h
    simp only [hest, onData, htake, Bool.false_eq_true, if_false, bytesBefore,
      bumpOldestUnacked_recvNextSeqnum, bumpOldestUnacked_recvInitialSeqnum]

theorem Continues.bytesBefore_le (h : c.Continues info p) (hest : c.status = .established) :
    c.bytesBefore ≤ (c.onPacket info p).bytesBefore := by
  cases hseg : c.newSegment info p with
  | none =>
    rw [bytesBefore_of_newSegment hest hseg]
    exact BitVec.le_refl _
  | some seg => exact BitVec.le_trans (h seg hseg).1 (h seg hseg).2.2

end TcpConn

/-- Connection `i`, which was `c`, has received a packet. -/
structure ReceivedAt (info : PacketInfo) (p : TcpPacket) (s : TcpService) (i : ℕ) (c : TcpConn)
    (t : TcpService) : Prop where
  localIpv4 : t.localIpv4 = s.localIpv4
  connAt : ∀ j,
    connAt t j = if j = i then some (c.onPacket info p).withoutBuffer else connAt s j
  sent : ∃ new, t.sent = s.sent ++ new ∧ ∀ m ∈ new, m.conn = i ∧
    (c.status = .established → m.acknowledgeNum = (c.onPacket info p).recvNextSeqnum)
  others : ∀ j, j ≠ i → InOrder s j → InOrder t j ∧ taken t j = taken s j
  own : c.status = .established → InOrder s i → c.Continues info p →
    InOrder t i ∧ taken t i = taken s i ++ ((c.newSegment info p).map TcpSegment.buf).getD []

section Received

variable {info : PacketInfo} {p : TcpPacket} {s t u : TcpService} {i : ℕ} {c c' : TcpConn}

theorem ReceivedAt.served (h : ReceivedAt info p s i c u) (hserved : Served u t) :
    ReceivedAt info p s i c t where
  localIpv4 := hserved.localIpv4.trans h.localIpv4
  connAt j := (hserved.connAt j).trans (h.connAt j)
  sent := by rw [hserved.sent]; exact h.sent
  others j hj hord :=
    have hu := h.others j hj hord
    ⟨hserved.inOrder j hu.1, (hserved.taken j hu.1).trans hu.2⟩
  own hest hord hseg :=
    have hu := h.own hest hord hseg
    ⟨hserved.inOrder i hu.1, (hserved.taken i hu.1).trans hu.2⟩

theorem ReceivedAt.of_store (hc : s.tcpConns.items[i]? = some c)
    (hitems : ∀ j, t.tcpConns.items[j]? = if j = i then some c' else s.tcpConns.items[j]?)
    (hc' : c'.withoutBuffer = (c.onPacket info p).withoutBuffer)
    (hbuffer : c'.receiveBuffer.items = c.receiveBuffer.items ++ (c.newSegment info p).toList)
    (hip : t.localIpv4 = s.localIpv4) (hresponses : t.responses = s.responses)
    {new : List SentPacket} (hsent : t.sent = s.sent ++ new)
    (hnew : ∀ m ∈ new, m.conn = i ∧
      (c.status = .established → m.acknowledgeNum = (c.onPacket info p).recvNextSeqnum)) :
    ReceivedAt info p s i c t where
  localIpv4 := hip
  connAt j := by
    show (t.tcpConns.items[j]?).map TcpConn.withoutBuffer = _
    rw [hitems]
    split
    · exact congrArg some hc'
    · rfl
  sent := ⟨new, hsent, hnew⟩
  others j hj hord := by
    have hj' : t.tcpConns.items[j]? = s.tcpConns.items[j]? := by rw [hitems, if_neg hj]
    refine ⟨fun d hd => hord d (hj' ▸ hd), ?_⟩
    rw [taken, taken, hresponses, hj']
  own hest hord hseg := by
    have hi : t.tcpConns.items[i]? = some c' := by rw [hitems, if_pos rfl]
    have hnext : c'.bytesBefore = (c.onPacket info p).bytesBefore :=
      by
      have := congrArg TcpConn.bytesBefore hc'
      exact this
    constructor
    · intro d hd
      rw [hi] at hd
      cases hd
      rw [hbuffer, hnext, List.pairwise_append]
      have hadded : ∀ seg ∈ (c.newSegment info p).toList, c.bytesBefore ≤ seg.sequenceStart - 1 ∧
          seg.Within (c.onPacket info p).bytesBefore :=
        fun seg hmem => hseg seg (by simpa using hmem)
      refine ⟨⟨(hord c hc).1, ?_, fun old hold seg hmem => ?_⟩, fun seg hmem => ?_⟩
      · cases c.newSegment info p <;> simp
      · obtain ⟨hne, hle⟩ := (hord c hc).2 old hold
        obtain ⟨hle', hne', -⟩ := hadded seg hmem
        bv_omega
      · rcases List.mem_append.mp hmem with hmem | hmem
        · obtain ⟨hne, hle⟩ := (hord c hc).2 seg hmem
          exact ⟨hne, BitVec.le_trans hle (hseg.bytesBefore_le hest)⟩
        · exact (hadded seg hmem).2
    · rw [taken, taken, hresponses, hi, hc]
      show _ ++ buffered c' = _ ++ buffered c ++ _
      rw [buffered, hbuffer, List.flatMap_append, ← List.append_assoc]
      cases c.newSegment info p <;> simp [buffered]

theorem hasFlag_syn_and (p : TcpPacket) :
    (p.hasFlag tcpFlagSyn && p.header.flags != 0 && tcpFlagAck != 0) = p.hasFlag tcpFlagSyn := by
  have hack : (tcpFlagAck != 0) = true := by decide
  rw [hack, Bool.and_true, Bool.and_eq_left_iff_imp]
  intro hsyn
  by_contra hzero
  have hflags : p.header.flags = 0 := by simpa using hzero
  rw [TcpPacket.hasFlag, hflags] at hsyn
  exact absurd hsyn (by decide)

section

variable (hc : s.tcpConns.items[i]? = some c)

include hc

theorem getElem?_unchanged (j : ℕ) :
    s.tcpConns.items[j]? = if j = i then some c else s.tcpConns.items[j]? := by
  split
  · rename_i hj
    rw [hj, hc]
  · rfl

theorem tcpHandleSynResponse_received (hmatch : c.matchesPacket info p = true)
    (hstatus : c.status = .synSent) (h : tcpHandleSynResponse s i c p = some t) :
    ReceivedAt info p s i c t := by
  have hseg : c.newSegment info p = none := by simp [TcpConn.newSegment, hstatus]
  have hne : c.status ≠ .established := by simp [hstatus]
  unfold tcpHandleSynResponse at h
  rw [hasFlag_syn_and] at h
  split at h
  · rename_i hsyn
    have hon : c.onPacket info p = c.onSynResponse p := by
      simp [TcpConn.onPacket, hmatch, hstatus, hsyn]
    unfold tcpCompleteHandshake at h
    simp only at h
    split at h
    · rename_i hack
      refine ReceivedAt.served ?_ (callbackListInvokeReadyCallbacks_served h)
      refine ReceivedAt.of_store hc (setConn_getElem? hc _) ?_ ?_ rfl rfl rfl ?_
      · rw [hon, TcpConn.onSynResponse, if_pos hack]
      · rw [hseg, Option.toList_none, List.append_nil]
      · intro m hm
        rw [List.mem_singleton.mp hm]
        exact ⟨rfl, fun h => absurd h hne⟩
    · rename_i hack
      cases h
      refine ReceivedAt.of_store hc (setConn_getElem? hc _) ?_ ?_ rfl rfl
        (List.append_nil _).symm ?_
      · rw [hon, TcpConn.onSynResponse, if_neg hack]
      · rw [hseg, Option.toList_none, List.append_nil]
      · exact fun m hm => absurd hm List.not_mem_nil
  · rename_i hsyn
    cases h
    refine ReceivedAt.of_store hc (getElem?_unchanged hc) ?_ ?_ rfl rfl
      (List.append_assoc _ _ _) ?_
    · simp [TcpConn.onPacket, hmatch, hstatus, hsyn]
    · rw [hseg, Option.toList_none, List.append_nil]
    · intro m hm
      refine ⟨?_, fun h => absurd h hne⟩
      rcases List.mem_append.mp hm with hm | hm
      · rw [List.mem_singleton.mp hm]
      · rw [List.mem_singleton.mp hm]

theorem tcpConnRecv_received (hmatch : c.matchesPacket info p = true)
    (hstatus : c.status = .established) (h : tcpConnRecv s i c p p.dataLen = some t) :
    ReceivedAt info p s i c t := by
  have hon : c.onPacket info p = c.onData p := by simp [TcpConn.onPacket, hmatch, hstatus]
  unfold tcpConnRecv at h
  simp only [bumpOldestUnacked_recvNextSeqnum, bumpOldestUnacked_recvInitialSeqnum,
    bumpOldestUnacked_receiveBuffer] at h
  -- every branch but the last leaves the buffer alone
  have hignored : ∀ {new : List SentPacket}, c.takesData p = false →
      t.tcpConns = (s.setConn i (bumpOldestUnacked c p)).tcpConns →
      t.localIpv4 = s.localIpv4 → t.responses = s.responses → t.sent = s.sent ++ new →
      (∀ m ∈ new, m.conn = i ∧ m.acknowledgeNum = c.recvNextSeqnum) →
      ReceivedAt info p s i c t := by
    intro new htake hconns hip hresponses hsent hnew
    have hdata : c.onData p = bumpOldestUnacked c p := by rw [TcpConn.onData, htake]; rfl
    refine ReceivedAt.of_store hc (hconns ▸ setConn_getElem? hc _) ?_ ?_ hip hresponses hsent ?_
    · rw [hon, hdata]
    · simp [TcpConn.newSegment, htake, bumpOldestUnacked_receiveBuffer]
    · intro m hm
      refine ⟨(hnew m hm).1, fun _ => ?_⟩
      rw [(hnew m hm).2, hon, hdata, bumpOldestUnacked_recvNextSeqnum]
  split at h
  · rename_i hlen
    cases h
    exact hignored (by simp [TcpConn.takesData, hlen]) rfl rfl rfl (List.append_nil _).symm
      fun m hm => absurd hm List.not_mem_nil
  · rename_i hlen
    split at h
    · rename_i hold
      cases h
      exact hignored (by simp [TcpConn.takesData, hold]) rfl rfl rfl (List.append_nil _).symm
        fun m hm => absurd hm List.not_mem_nil
    · rename_i hold
      split at h
      · rename_i hahead
        cases h
        refine hignored (by simp [TcpConn.takesData, hahead]) rfl rfl rfl rfl fun m hm => ?_
        rw [List.mem_singleton.mp hm]
        exact ⟨rfl, rfl⟩
      · rename_i hahead
        have htake : c.takesData p = true := by
          simpa [TcpConn.takesData, hold, hahead] using hlen
        obtain ⟨buffer, hbuffer, ht⟩ := Option.bind_eq_some_iff.mp h
        obtain ⟨-, hitems, -⟩ := ArrayM.insert_eq_some.mp hbuffer
        refine ReceivedAt.served ?_ (callbackListInvokeReadyCallbacks_served ht)
        refine ReceivedAt.of_store hc (setConn_setConn_getElem? hc (bumpOldestUnacked c p) _) ?_ ?_
          rfl rfl rfl ?_
        · rw [hon, TcpConn.onData, if_pos htake]
          simp only [TcpConn.withoutBuffer, bumpOldestUnacked_recvInitialSeqnum]
        · show buffer.items = _
          rw [hitems]
          simp [TcpConn.newSegment, hmatch, hstatus, htake]
        · intro m hm
          rw [List.mem_singleton.mp hm, hon, TcpConn.onData, if_pos htake]
          exact ⟨rfl, fun _ => rfl⟩

end

theorem tcpReceiveAt_received (h : tcpReceiveAt info p s i = some t) :
    ∃ c, s.tcpConns.items[i]? = some c ∧ ReceivedAt info p s i c t := by
  obtain ⟨c, hc, h⟩ := Option.bind_eq_some_iff.mp h
  refine ⟨c, hc, ?_⟩
  -- a packet for another connection, or in a status that takes none
  have hignored : t = s → c.onPacket info p = c → c.newSegment info p = none →
      ReceivedAt info p s i c t := by
    intro ht hon hseg
    subst ht
    refine ReceivedAt.of_store hc (getElem?_unchanged hc) (by rw [hon]) ?_ rfl rfl
      (List.append_nil _).symm fun m hm => absurd hm List.not_mem_nil
    rw [hseg, Option.toList_none, List.append_nil]
  split at h
  · rename_i hmatch
    refine hignored (Option.some.inj h).symm (by simp [TcpConn.onPacket, hmatch]) ?_
    have hmatch' : c.matchesPacket info p = false := by simpa using hmatch
    simp [TcpConn.newSegment, hmatch']
  · rename_i hmatch
    have hmatch' : c.matchesPacket info p = true := by simpa using hmatch
    split at h
    · rename_i hstatus
      exact tcpHandleSynResponse_received hc hmatch' hstatus h
    · rename_i hstatus
      exact tcpConnRecv_received hc hmatch' hstatus h
    · rename_i hstatus
      exact hignored (Option.some.inj h).symm (by simp [TcpConn.onPacket, hstatus])
        (by simp [TcpConn.newSegment, hstatus])

/-- The connections of `l` have received a packet. -/
structure Received (info : PacketInfo) (p : TcpPacket) (l : List ℕ) (s t : TcpService) : Prop where
  localIpv4 : t.localIpv4 = s.localIpv4
  connAt : ∀ j,
    connAt t j = if j ∈ l then (connAt s j).map (·.onPacket info p) else connAt s j
  sent : ∃ new, t.sent = s.sent ++ new ∧ ∀ m ∈ new, m.conn ∈ l ∧ ∀ c,
    Tcp.connAt s m.conn = some c → c.status = .established →
      m.acknowledgeNum = (c.onPacket info p).recvNextSeqnum
  others : ∀ j, j ∉ l → InOrder s j → InOrder t j ∧ taken t j = taken s j
  own : ∀ j ∈ l, ∀ c, Tcp.connAt s j = some c → c.status = .established → InOrder s j →
    c.Continues info p →
    InOrder t j ∧ taken t j = taken s j ++ ((c.newSegment info p).map TcpSegment.buf).getD []

theorem bumpOldestUnacked_withoutBuffer (c : TcpConn) :
    (bumpOldestUnacked c p).withoutBuffer = bumpOldestUnacked c.withoutBuffer p := by
  show (bumpOldestUnacked c p).withoutBuffer =
    if p.hasFlag tcpFlagAck && decide (c.sendOldestUnackedSeqnum < p.header.acknowledgementNumber)
    then { c.withoutBuffer with sendOldestUnackedSeqnum := p.header.acknowledgementNumber }
    else c.withoutBuffer
  unfold bumpOldestUnacked
  split <;> rfl

theorem onSynResponse_withoutBuffer (c : TcpConn) :
    (c.onSynResponse p).withoutBuffer = c.withoutBuffer.onSynResponse p := by
  show (c.onSynResponse p).withoutBuffer =
    if p.header.acknowledgementNumber = c.sendNextSeqnum + 1 then _ else _
  unfold TcpConn.onSynResponse
  split <;> rfl

theorem onData_withoutBuffer (c : TcpConn) :
    (c.onData p).withoutBuffer = c.withoutBuffer.onData p := by
  show (c.onData p).withoutBuffer = if c.takesData p then
    { bumpOldestUnacked c.withoutBuffer p with recvNextSeqnum := c.recvNextSeqnum + p.dataLen }
    else bumpOldestUnacked c.withoutBuffer p
  rw [← bumpOldestUnacked_withoutBuffer]
  unfold TcpConn.onData
  split <;> rfl

theorem onPacket_withoutBuffer (c : TcpConn) :
    (c.onPacket info p).withoutBuffer = c.withoutBuffer.onPacket info p := by
  have hmatch : c.withoutBuffer.matchesPacket info p = c.matchesPacket info p := rfl
  have hstatus : c.withoutBuffer.status = c.status := rfl
  unfold TcpConn.onPacket
  rw [hmatch, hstatus]
  split
  · rfl
  · cases c.status with
    | synSent =>
      show (if p.hasFlag tcpFlagSyn then c.onSynResponse p else c).withoutBuffer =
        if p.hasFlag tcpFlagSyn then c.withoutBuffer.onSynResponse p else c.withoutBuffer
      rw [← onSynResponse_withoutBuffer]
      split <;> rfl
    | synAckRecv => rfl
    | established => exact onData_withoutBuffer c

theorem Received.cons {l : List ℕ} (hi : i ∉ l) (hc : s.tcpConns.items[i]? = some c)
    (h : ReceivedAt info p s i c u) (hrest : Received info p l u t) :
    Received info p (i :: l) s t where
  localIpv4 := hrest.localIpv4.trans h.localIpv4
  connAt j := by
    rw [hrest.connAt, h.connAt]
    by_cases hj : j = i
    · subst hj
      rw [if_neg hi, if_pos rfl, if_pos List.mem_cons_self, onPacket_withoutBuffer]
      show _ = (s.tcpConns.items[j]?.map TcpConn.withoutBuffer).map _
      rw [hc]
      rfl
    · simp [hj]
  sent := by
    obtain ⟨new, hnew, hacks⟩ := h.sent
    obtain ⟨rest, hrest', hacks'⟩ := hrest.sent
    refine ⟨new ++ rest, by rw [hrest', hnew, List.append_assoc], fun m hm => ?_⟩
    rcases List.mem_append.mp hm with hm | hm
    · obtain ⟨hconn, hack⟩ := hacks m hm
      refine ⟨hconn ▸ List.mem_cons_self, fun d hd hest => ?_⟩
      rw [hconn] at hd
      obtain rfl : c.withoutBuffer = d := by
        rw [Tcp.connAt, hc] at hd
        exact Option.some.inj hd
      rw [hack hest, ← onPacket_withoutBuffer]
      rfl
    · obtain ⟨hmem, hack⟩ := hacks' m hm
      have hne : m.conn ≠ i := fun heq => hi (heq ▸ hmem)
      refine ⟨List.mem_cons_of_mem i hmem, fun d hd hest => hack d ?_ hest⟩
      rw [h.connAt, if_neg hne, hd]
  others j hj hord := by
    have hji : j ≠ i := fun heq => hj (heq ▸ List.mem_cons_self)
    have hjl : j ∉ l := fun hmem => hj (List.mem_cons_of_mem i hmem)
    obtain ⟨hu, htaken⟩ := h.others j hji hord
    obtain ⟨ht, htaken'⟩ := hrest.others j hjl hu
    exact ⟨ht, htaken'.trans htaken⟩
  own j hj d hd hest hord hcont := by
    rcases List.mem_cons.mp hj with rfl | hjl
    · obtain rfl : c.withoutBuffer = d := by
        rw [Tcp.connAt, hc] at hd
        exact Option.some.inj hd
      obtain ⟨hu, htaken⟩ := h.own hest hord (by
        intro seg hseg
        have := hcont seg hseg
        rw [← onPacket_withoutBuffer] at this
        exact this)
      obtain ⟨ht, htaken'⟩ := hrest.others j hi hu
      exact ⟨ht, htaken'.trans htaken⟩
    · have hji : j ≠ i := fun heq => hi (heq ▸ hjl)
      obtain ⟨hu, htaken⟩ := h.others j hji hord
      have hd' : Tcp.connAt u j = some d := by rw [h.connAt, if_neg hji, hd]
      rw [← htaken]
      exact hrest.own j hjl d hd' hest hu hcont

theorem run_tcpReceiveAt_received {l : List ℕ} (hl : l.Nodup)
    (h : run (tcpReceiveAt info p) s l = some t) : Received info p l s t := by
  induction l generalizing s with
  | nil =>
    cases h
    exact ⟨rfl, fun j => by simp, ⟨[], by simp⟩, fun j _ hord => ⟨hord, rfl⟩, fun j hj => by
      cases hj⟩
  | cons i l ih =>
    obtain ⟨u, hu, hrest⟩ := run_cons_eq_some.mp h
    obtain ⟨hi, hl'⟩ := List.nodup_cons.mp hl
    obtain ⟨c, hc, hrec⟩ := tcpReceiveAt_received hu
    exact Received.cons hi hc hrec (ih hl' hrest)

theorem tcpReceive_received (hlocal : info.dstIpv4 = s.localIpv4)
    (h : tcpReceive s info p = some t) : Received info p (List.range s.tcpConns.size) s t := by
  unfold tcpReceive at h
  rw [if_neg (not_not.mpr hlocal)] at h
  exact run_tcpReceiveAt_received List.nodup_range h

end Received

end Axle.Net.Tcp
