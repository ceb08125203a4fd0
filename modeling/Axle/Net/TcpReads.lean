import Axle.Net.ReadDispatch

/-!
# Reads that wait for a segment

A read is answered with the first segment of its connection's buffer that does not start behind
`next_seqnum_to_deliver`, which is fixed when the request comes in; without one it waits.  Which
waiting requests are ready is decided before any of them is completed, and completing one takes the
segment away: of two that wait for the same segment the second finds none, which is an assertion.
And a request that was made before the connection was established waits for a place in the stream
that no segment starts at.

* `ReadsLaw` — requests and segments of a connection are matched one to one and in order;
* `DispatchSucceeds` — no callback that is dispatched fails to find its segment;
* `tcpReceiveAt_quiet`, `addCallbackAndInvokeIfReady_quiet` — **PROVED**: what a packet and a
  request to read do for those who wait;
* `reads_answered` — **PROVED**: both laws hold along every run in which no segment arrives for two
  reads at once, for a read that has been given a place before it, or out of order.
-/

namespace Axle.Net.Tcp

open Axle.Kernel (ArrayM)
open Axle.Lib.EraseIndexes
open Axle.Lib.StepRun

/-! ### The law -/

/-- The process, with what has been asked and what has been received so far: bookkeeping. -/
structure ReadHistory where
  service : TcpService
  requests : ℕ → List String
  segments : ℕ → List TcpSegment

def historyInit (localIpv4 : IPv4) : ReadHistory := ⟨tcpInit localIpv4, fun _ => [], fun _ => []⟩

/-- The request of an event to read from connection `i`. -/
def requestOf (i : ℕ) : TcpEvent → List String
  | .connRead service j _ => if j = i then [service] else []
  | _ => []

/-- The segment that a packet puts into the buffer of connection `i`. -/
def segmentOf (s : TcpService) (i : ℕ) : TcpEvent → List TcpSegment
  | .receive info p =>
    if info.dstIpv4 = s.localIpv4 then
      ((s.tcpConns.items[i]?).bind fun c => c.newSegment info p).toList
    else []
  | _ => []

def historyNext (h : ReadHistory) (e : TcpEvent) : Option ReadHistory :=
  (tcpNext h.service e).map fun t =>
    { service := t
      requests := fun i => h.requests i ++ requestOf i e
      segments := fun i => h.segments i ++ segmentOf h.service i e }

/-- Each request of connection `i` is answered with one segment of it, in the order of both, as far
as there are requests and segments; and segments are in the order of the stream. -/
structure ReadsLaw (h : ReadHistory) (i : ℕ) : Prop where
  answered : answersOf i h.service.responses = List.zipWith readAnswer (h.requests i) (h.segments i)
  inOrder : (h.segments i).Pairwise fun a b => a.sequenceStart ≤ b.sequenceStart

/-- While the event is handled, no callback that is dispatched fails to find its segment. -/
def DispatchSucceeds (s : TcpService) : TcpEvent → Prop
  | .receive info p => info.dstIpv4 = s.localIpv4 → ∀ i u v,
      run (tcpReceiveAt info p) s (List.range i) = some u → invokedAt info p u i = some v →
        CompletesReady v
  | .connRead service descriptor len => ∀ c callbacks, s.tcpConns.lookup descriptor = some c →
      let cb := .connRead service descriptor len (c.recvNextSeqnum - c.recvInitialSeqnum)
      s.tcpCallbacks.insert cb = some callbacks →
      isCallbackSatisfied { s with tcpCallbacks := callbacks } cb = some true →
        ∃ t, dispatchCallback { s with tcpCallbacks := callbacks } (callbacks.size - 1) = some t
  | _ => True

/-- The place in the stream of the next byte that is expected. -/
def TcpConn.nextPlace (c : TcpConn) : BitVec 32 := c.recvNextSeqnum - c.recvInitialSeqnum

/-- A segment that is put into the buffer of connection `i`, which is `c`, finds at most one read
that waits for it, and for a place it does not start behind; it starts where the stream goes on or
before, but not before an earlier segment; and the place in the stream does not wrap around. -/
structure ComesInTurn (h : ReadHistory) (info : PacketInfo) (p : TcpPacket) (i : ℕ) (c : TcpConn)
    (seg : TcpSegment) : Prop where
  one : (pendingReads i h.service.tcpCallbacks.items).length ≤ 1
  reached : ∀ r ∈ pendingReads i h.service.tcpCallbacks.items,
    seg.sequenceStart ≤ r.nextSeqnumToDeliver
  behind : ∀ old ∈ h.segments i, old.sequenceStart ≤ seg.sequenceStart
  start_le : seg.sequenceStart ≤ c.nextPlace
  nextPlace_le : c.nextPlace ≤ (c.onPacket info p).nextPlace

/-- Every segment that the event puts into a buffer comes in turn. -/
def SegmentsInTurn (h : ReadHistory) : TcpEvent → Prop
  | .receive info p => info.dstIpv4 = h.service.localIpv4 →
    ∀ i < h.service.tcpConns.items.length, ∀ c ∈ h.service.tcpConns.items[i]?,
      ∀ seg ∈ c.newSegment info p, ComesInTurn h info p i c seg
  | _ => True

/-! ### Receiving a packet -/

section Receiving

variable {info : PacketInfo} {p : TcpPacket} {s t : TcpService} {i : ℕ} {c : TcpConn}

/-- One connection takes the packet: nothing fails, it is served, and the others are as before. -/
theorem tcpReceiveAt_quiet (hc : s.tcpConns.items[i]? = some c) (hquiet : ∀ j, (viewAt s j).Quiet)
    (htakes : ∀ seg ∈ c.newSegment info p, (viewAt s i).Takes seg) :
    (∀ u, invokedAt info p s i = some u → CompletesReady u) ∧
      ∀ t, tcpReceiveAt info p s i = some t → ∀ j, (viewAt t j).Quiet ∧
        if j = i then ((viewAt s i).receive (c.newSegment info p)).Served (viewAt t i)
        else viewAt t j = viewAt s j := by
  cases tcpReceiveCase info p hc with
  | invokes u c' hinvoked hreceive hstored hbuffer =>
    have hview := hstored.viewAt hc hbuffer
    have hdispatchable : ∀ j, (viewAt u j).Dispatchable := fun j => by
      rw [hview]
      split
      · exact (hquiet i).dispatchable_receive htakes
      · exact (hquiet j).dispatchable
    obtain ⟨hcompletes, hafter⟩ := callbackListInvokeReadyCallbacks_quiet hdispatchable
    rw [hinvoked, hreceive]
    constructor
    · intro v hv
      obtain rfl : u = v := Option.some.inj hv
      exact hcompletes
    · intro t ht j
      obtain ⟨hserved, hquiet'⟩ := hafter t ht j
      refine ⟨hquiet', ?_⟩
      rw [hview] at hserved
      split
      · rename_i hj
        rw [if_pos hj, hj] at hserved
        exact hserved
      · rename_i hj
        rw [if_neg hj] at hserved
        exact (hquiet j).served_eq hserved
  | ignored t' c' hinvoked hreceive hseg hstored hbuffer =>
    rw [hinvoked, hreceive]
    refine ⟨fun v hv => (by cases hv), fun t ht j => ?_⟩
    obtain rfl : t' = t := Option.some.inj ht
    rw [hstored.viewAt_of_same hc hbuffer, hstored.viewAt_of_same hc hbuffer, hseg,
      ReadView.receive, Option.toList_none, List.append_nil]
    refine ⟨hquiet j, ?_⟩
    split
    · exact .inl rfl
    · rfl
  | full seg hinvoked hreceive =>
    rw [hinvoked, hreceive]
    exact ⟨fun v hv => (by cases hv), fun t ht => (by cases ht)⟩

theorem run_tcpReceiveAt_quiet {l : List ℕ} (hl : l.Nodup) (hquiet : ∀ j, (viewAt s j).Quiet)
    (htakes : ∀ i ∈ l, ∀ c, connAt s i = some c → ∀ seg ∈ c.newSegment info p,
      (viewAt s i).Takes seg)
    (h : run (tcpReceiveAt info p) s l = some t) (j : ℕ) : (viewAt t j).Quiet ∧
      if j ∈ l then ∃ c, connAt s j = some c ∧
        ((viewAt s j).receive (c.newSegment info p)).Served (viewAt t j)
      else viewAt t j = viewAt s j := by
  induction l generalizing s with
  | nil =>
    obtain rfl : s = t := Option.some.inj h
    exact ⟨hquiet j, by simp⟩
  | cons i l ih =>
    obtain ⟨u, hu, hrest⟩ := run_cons_eq_some.mp h
    obtain ⟨hi, hl⟩ := List.nodup_cons.mp hl
    obtain ⟨c, hc, hreceived⟩ := tcpReceiveAt_received hu
    have hown : connAt s i = some c.withoutBuffer := by rw [connAt, hc]; rfl
    have hview := (tcpReceiveAt_quiet hc hquiet
      (htakes i List.mem_cons_self c.withoutBuffer hown)).2 u hu
    have hconn : ∀ k ∈ l, connAt u k = connAt s k ∧ viewAt u k = viewAt s k := fun k hk => by
      have hne : k ≠ i := fun heq => hi (heq ▸ hk)
      exact ⟨(hreceived.connAt k).trans (if_neg hne), by simpa [hne] using (hview k).2⟩
    obtain ⟨hquiet', hafter⟩ := ih hl (fun k => (hview k).1) (fun k hk d hd => by
      rw [(hconn k hk).1] at hd
      rw [(hconn k hk).2]
      exact htakes k (List.mem_cons_of_mem i hk) d hd) hrest
    refine ⟨hquiet', ?_⟩
    by_cases hji : j = i
    · subst hji
      rw [if_neg hi] at hafter
      rw [if_pos List.mem_cons_self, hafter]
      have hserved := (hview j).2
      rw [if_pos rfl] at hserved
      exact ⟨c.withoutBuffer, hown, hserved⟩
    · by_cases hjl : j ∈ l
      · rw [if_pos hjl, (hconn j hjl).1, (hconn j hjl).2] at hafter
        rw [if_pos (List.mem_cons_of_mem i hjl)]
        exact hafter
      · have hsame : viewAt u j = viewAt s j := by simpa [hji] using (hview j).2
        rw [if_neg hjl, hsame] at hafter
        rw [if_neg fun hmem => (List.mem_cons.mp hmem).elim hji hjl]
        exact hafter

end Receiving

/-! ### Asking to read -/

namespace ReadView

def request (w : ReadView) (r : PendingRead) : ReadView := { w with pending := w.pending ++ [r] }

/-- Who asks for a connection that has segments is the only one to wait. -/
theorem Quiet.dispatchable_request {w : ReadView} {r : PendingRead} (hw : w.Quiet)
    (hreach : ∀ seg ∈ w.buffer, seg.sequenceStart ≤ r.nextSeqnumToDeliver) :
    (w.request r).Dispatchable := by
  rcases hw with hw | hw
  · have hpending : (w.request r).pending = [r] := by
      rw [request, hw]
      rfl
    refine ⟨fun _ => by rw [hpending]; exact Nat.le_refl 1, fun r' hr' seg hseg => ?_⟩
    rw [hpending, List.mem_singleton] at hr'
    rw [hr']
    exact hreach seg hseg
  · exact ⟨fun hne => absurd hw hne, fun _ _ seg hseg => by
      have hseg : seg ∈ w.buffer := hseg
      rw [hw] at hseg
      cases hseg⟩

end ReadView

variable {callbacks : ArrayM TcpCallback} {i : ℕ} {len next : BitVec 32} {s : TcpService}
  {service : String} {h : ReadHistory}

theorem viewAt_insert (h : s.tcpCallbacks.insert (.connRead service i len next) = some callbacks)
    (j : ℕ) :
    viewAt { s with tcpCallbacks := callbacks } j =
      if j = i then (viewAt s i).request ⟨service, next⟩ else viewAt s j := by
  have hpending : pendingReads j callbacks.items =
      pendingReads j s.tcpCallbacks.items ++ pendingReads j [.connRead service i len next] := by
    rw [(ArrayM.insert_eq_some.mp h).2.1, pendingReads_append]
  split
  · rename_i hj
    subst hj
    rw [viewAt, hpending]
    simp [pendingReads, ReadView.request, viewAt, bufferAt]
  · rename_i hj
    rw [viewAt, hpending]
    simp [pendingReads, Ne.symm hj, viewAt, bufferAt]

/-- A request to read: if it is found ready it is completed, and the others are as before. -/
theorem addCallbackAndInvokeIfReady_quiet (hquiet : ∀ j, (viewAt s j).Quiet)
    (hreach : ∀ seg ∈ bufferAt s i, seg.sequenceStart ≤ next)
    (hinsert : s.tcpCallbacks.insert (.connRead service i len next) = some callbacks) :
    (isCallbackSatisfied { s with tcpCallbacks := callbacks } (.connRead service i len next) =
        some true →
      ∃ t, dispatchCallback { s with tcpCallbacks := callbacks } (callbacks.size - 1) = some t) ∧
    ∀ t, addCallbackAndInvokeIfReady s (.connRead service i len next) = some t → ∀ j,
      (viewAt t j).Quiet ∧ if j = i then ((viewAt s i).request ⟨service, next⟩).Served (viewAt t i)
        else viewAt t j = viewAt s j := by
  have hview := viewAt_insert hinsert
  have hdispatchable : ∀ j, (viewAt { s with tcpCallbacks := callbacks } j).Dispatchable := by
    intro j
    rw [hview]
    split
    · exact (hquiet i).dispatchable_request hreach
    · exact (hquiet j).dispatchable
  have hitems := (ArrayM.insert_eq_some.mp hinsert).2.1
  have hlast : callbacks.items[callbacks.size - 1]? = some (.connRead service i len next) := by
    rw [ArrayM.size, hitems, List.length_append]
    exact List.getElem?_concat_length
  have hdispatch := fun hsat => exists_dispatchCallback
    (u := { s with tcpCallbacks := callbacks }) hlast hsat hdispatchable
  constructor
  · intro hsat
    obtain ⟨t, ht, -⟩ := hdispatch hsat
    exact ⟨t, ht⟩
  · intro t ht j
    obtain ⟨callbacks', hcallbacks', ht⟩ := Option.bind_eq_some_iff.mp ht
    obtain rfl : callbacks' = callbacks := Option.some.inj (hcallbacks'.symm.trans hinsert)
    obtain ⟨ready, hready, ht⟩ := Option.bind_eq_some_iff.mp ht
    cases ready with
    | true =>
      obtain ⟨t', ht', -, hserved⟩ := hdispatch hready
      obtain rfl : t' = t := Option.some.inj (ht'.symm.trans ht)
      have h := hserved j
      by_cases hj : j = i
      · subst hj
        rw [if_neg (by simp [pendingReads]), hview, if_pos rfl] at h
        rw [if_pos rfl]
        obtain ⟨r, seg, rest, -, -, hafter⟩ := id h
        exact ⟨.inl (congrArg ReadView.pending hafter), .inr h⟩
      · rw [if_pos (by simp [pendingReads, Ne.symm hj]), hview, if_neg hj] at h
        rw [if_neg hj, h]
        exact ⟨hquiet j, rfl⟩
    | false =>
      cases ht
      rw [hview]
      by_cases hj : j = i
      · subst hj
        rw [if_pos rfl, if_pos rfl, hview, if_pos rfl]
        rw [isCallbackSatisfied_connRead] at hready
        obtain ⟨c, -, hread⟩ := Option.bind_eq_some_iff.mp hready
        have hempty : bufferAt s j = [] := by simpa using connReadSatisfied_eq_some hreach hread
        exact ⟨.inr hempty, .inl rfl⟩
      · rw [if_neg hj, if_neg hj]
        exact ⟨hquiet j, rfl⟩

/-! ### The matching of requests and segments -/

namespace ReadView

/-- The answers are those to the first requests, with the first segments; the other requests wait,
and the other segments are in the buffer. -/
def Matches (w : ReadView) (requests : List String) (segments : List TcpSegment) : Prop :=
  ∃ services segs, services.length = segs.length ∧ w.answers = List.zipWith readAnswer services segs ∧
    requests = services ++ w.pending.map PendingRead.service ∧ segments = segs ++ w.buffer

variable {requests : List String} {segments : List TcpSegment} {w w' : ReadView}

theorem Matches.served (h : w.Matches requests segments) (hserved : w.Served w') :
    w'.Matches requests segments := by
  rcases hserved with rfl | ⟨r, seg, rest, hpending, hbuffer, rfl⟩
  · exact h
  · obtain ⟨services, segs, hlen, hanswers, hrequests, hsegments⟩ := h
    refine ⟨services ++ [r.service], segs ++ [seg], ?_, ?_, ?_, ?_⟩
    · rw [List.length_append, List.length_append, hlen]
      rfl
    · show w.answers ++ _ = _
      rw [hanswers, List.zipWith_append hlen]
      rfl
    · rw [hrequests, hpending]
      exact (List.append_nil _).symm
    · rw [hsegments, hbuffer, List.append_assoc]
      rfl

theorem Matches.receive (h : w.Matches requests segments) (seg : Option TcpSegment) :
    (w.receive seg).Matches requests (segments ++ seg.toList) := by
  obtain ⟨services, segs, hlen, hanswers, hrequests, rfl⟩ := h
  exact ⟨services, segs, hlen, hanswers, hrequests, List.append_assoc _ _ _⟩

theorem Matches.request (h : w.Matches requests segments) (r : PendingRead) :
    (w.request r).Matches (requests ++ [r.service]) segments := by
  obtain ⟨services, segs, hlen, hanswers, rfl, hsegments⟩ := h
  refine ⟨services, segs, hlen, hanswers, ?_, hsegments⟩
  rw [ReadView.request, List.map_append, List.append_assoc]
  rfl

/-- What waits or is left over is of one kind, so that the matching stops there. -/
theorem Matches.zipWith (h : w.Matches requests segments) (hquiet : w.Quiet) :
    w.answers = List.zipWith readAnswer requests segments := by
  obtain ⟨services, segs, hlen, hanswers, rfl, rfl⟩ := h
  rw [hanswers, List.zipWith_append hlen]
  rcases hquiet with hnone | hnone
  · rw [hnone, List.map_nil, List.zipWith_nil_left, List.append_nil]
  · rw [hnone, List.zipWith_nil_right, List.append_nil]

theorem Served.buffer_subset (h : w.Served w') : w'.buffer ⊆ w.buffer := by
  rcases h with rfl | ⟨r, seg, rest, -, hbuffer, rfl⟩
  · exact fun _ h => h
  · rw [hbuffer]
    exact List.subset_cons_self seg rest

end ReadView

/-- What holds between events. -/
structure ReadsInv (h : ReadHistory) : Prop where
  quiet : ∀ i, (viewAt h.service i).Quiet
  matched : ∀ i, (viewAt h.service i).Matches (h.requests i) (h.segments i)
  inOrder : ∀ i, (h.segments i).Pairwise fun a b => a.sequenceStart ≤ b.sequenceStart
  reached : ∀ i c, connAt h.service i = some c → ∀ seg ∈ bufferAt h.service i,
    c.status = .established ∧ seg.sequenceStart ≤ c.nextPlace

theorem ReadsInv.law (hinv : ReadsInv h) (i : ℕ) : ReadsLaw h i :=
  ⟨(hinv.matched i).zipWith (hinv.quiet i), hinv.inOrder i⟩

theorem readsInv_init (localIpv4 : IPv4) : ReadsInv (historyInit localIpv4) where
  quiet _ := .inl rfl
  matched _ := ⟨[], [], rfl, rfl, rfl, rfl⟩
  inOrder _ := List.Pairwise.nil
  reached _ _ _ _ hseg := by cases hseg

theorem ReadsInv.aside {t : TcpService} {e : TcpEvent} (hinv : ReadsInv h)
    (hnone : ∀ i, requestOf i e = [] ∧ segmentOf h.service i e = [])
    (hview : ∀ i, viewAt t i = viewAt h.service i)
    (hconn : ∀ i c', connAt t i = some c' → bufferAt h.service i = [] ∨
      ∃ c, connAt h.service i = some c ∧ c'.status = c.status ∧ c'.nextPlace = c.nextPlace) :
    ReadsInv ⟨t, fun i => h.requests i ++ requestOf i e,
      fun i => h.segments i ++ segmentOf h.service i e⟩ where
  quiet i := by
    rw [hview]
    exact hinv.quiet i
  matched i := by
    obtain ⟨hrequest, hsegment⟩ := hnone i
    show (viewAt t i).Matches (h.requests i ++ requestOf i e)
      (h.segments i ++ segmentOf h.service i e)
    rw [hview, hrequest, hsegment, List.append_nil, List.append_nil]
    exact hinv.matched i
  inOrder i := by
    show (h.segments i ++ segmentOf h.service i e).Pairwise _
    rw [(hnone i).2, List.append_nil]
    exact hinv.inOrder i
  reached i c' hc' seg hseg := by
    have hbuffer : bufferAt t i = bufferAt h.service i := congrArg ReadView.buffer (hview i)
    rw [hbuffer] at hseg
    rcases hconn i c' hc' with hempty | ⟨c, hc, hstatus, hplace⟩
    · rw [hempty] at hseg
      cases hseg
    · rw [hstatus, hplace]
      exact hinv.reached i c hc seg hseg

/-! ### The steps -/

section Steps

variable {h h' : ReadHistory} {t : TcpService}

variable {service : String} {descriptor i : ℕ} {c : TcpConn} {info : PacketInfo} {p : TcpPacket}
  {s : TcpService}

theorem ReadsInv.connOpen (hinv : ReadsInv h) {srcPort dstPort : BitVec 16} {dstIpv4 : IPv4}
    {rand : BitVec 32}
    (hnext : historyNext h (.connOpen service srcPort dstPort dstIpv4 rand) = some h') :
    ReadsInv h' := by
  obtain ⟨t, hopen, rfl⟩ := Option.map_eq_some_iff.mp hnext
  obtain ⟨conns, hconns, hopen⟩ := Option.bind_eq_some_iff.mp hopen
  obtain ⟨callbacks, hcallbacks, ht⟩ := Option.bind_eq_some_iff.mp hopen
  have hpending : ∀ i, pendingReads i callbacks.items =
      pendingReads i h.service.tcpCallbacks.items := fun i => by
    rw [(ArrayM.insert_eq_some.mp hcallbacks).2.1, pendingReads_append]
    exact List.append_nil _
  have hitem := getElem?_concat_cases h.service.tcpConns.items
    (tcpConnAlloc srcPort dstPort dstIpv4 rand)
  rw [← (ArrayM.insert_eq_some.mp hconns).2.1] at hitem
  cases ht
  refine hinv.aside (fun i => ⟨rfl, rfl⟩) (fun i => ?_) fun i c' hc' => ?_
  · have hbuffer : ((conns.items[i]?).map fun c => c.receiveBuffer.items).getD [] =
        bufferAt h.service i := by
      rw [bufferAt]
      rcases hitem i with hsame | ⟨hnone, hnew⟩
      · rw [hsame]
      · rw [hnone, hnew]
        rfl
    rw [viewAt, viewAt]
    congr 1
    exact hpending i
  · have hc' : (conns.items[i]?).map TcpConn.withoutBuffer = some c' := hc'
    rcases hitem i with hsame | ⟨hnone, -⟩
    · rw [hsame] at hc'
      exact .inr ⟨c', hc', rfl, rfl⟩
    · left
      rw [bufferAt, hnone]
      rfl

theorem ReadsInv.connSend (hinv : ReadsInv h) {data : List Byte}
    (hnext : historyNext h (.connSend descriptor data) = some h') : ReadsInv h' := by
  obtain ⟨t, hsend, rfl⟩ := Option.map_eq_some_iff.mp hnext
  obtain ⟨c, hc, ht⟩ := Option.bind_eq_some_iff.mp hsend
  have hc : h.service.tcpConns.items[descriptor]? = some c := hc
  have hitems := setConn_getElem? hc
    { c with sendNextSeqnum := c.sendNextSeqnum + BitVec.ofNat 32 data.length }
  cases ht
  refine hinv.aside (fun i => ⟨rfl, rfl⟩) ((Stored.mk hitems rfl rfl).viewAt_of_same hc rfl)
    fun i c' hc' => ?_
  right
  have hc' := (congrArg (Option.map TcpConn.withoutBuffer) (hitems i)).symm.trans hc'
  split at hc'
  · rename_i hi
    cases hc'
    rw [connAt, hi, hc]
    exact ⟨c.withoutBuffer, rfl, rfl, rfl⟩
  · exact ⟨c', hc', rfl, rfl⟩

theorem ReadsInv.connRead (hinv : ReadsInv h) {len : BitVec 32} :
    DispatchSucceeds h.service (.connRead service descriptor len) ∧
      ∀ h', historyNext h (.connRead service descriptor len) = some h' → ReadsInv h' := by
  have hreach : ∀ c, h.service.tcpConns.items[descriptor]? = some c →
      ∀ seg ∈ bufferAt h.service descriptor, seg.sequenceStart ≤ c.nextPlace := by
    intro c hc seg hseg
    have hown : connAt h.service descriptor = some c.withoutBuffer := by rw [connAt, hc]; rfl
    exact (hinv.reached descriptor c.withoutBuffer hown seg hseg).2
  constructor
  · intro c callbacks hc cb hinsert hsat
    exact (addCallbackAndInvokeIfReady_quiet hinv.quiet (hreach c hc) hinsert).1 hsat
  · intro h' hnext
    obtain ⟨t, hread, rfl⟩ := Option.map_eq_some_iff.mp hnext
    obtain ⟨c, hc, hadd⟩ := Option.bind_eq_some_iff.mp hread
    obtain ⟨callbacks, hinsert, hinvoke⟩ := Option.bind_eq_some_iff.mp hadd
    have hview := (addCallbackAndInvokeIfReady_quiet hinv.quiet (hreach c hc) hinsert).2 t hadd
    have hconn : ∀ i, connAt t i = connAt h.service i := by
      obtain ⟨ready, -, hinvoke⟩ := Option.bind_eq_some_iff.mp hinvoke
      cases ready with
      | true => exact (dispatchCallback_served hinvoke).connAt
      | false =>
        cases hinvoke
        exact fun _ => rfl
    refine ⟨fun i => (hview i).1, fun i => ?_, fun i => ?_, fun i d hd seg hseg => ?_⟩
    · show (viewAt t i).Matches (h.requests i ++ if descriptor = i then [service] else [])
        (h.segments i ++ [])
      rw [List.append_nil]
      have hafter := (hview i).2
      split at hafter
      · rename_i hi
        subst hi
        rw [if_pos rfl]
        exact ((hinv.matched i).request _).served hafter
      · rename_i hi
        rw [if_neg (Ne.symm hi), List.append_nil, hafter]
        exact hinv.matched i
    · show (h.segments i ++ []).Pairwise _
      rw [List.append_nil]
      exact hinv.inOrder i
    · rw [hconn] at hd
      refine hinv.reached i d hd seg ?_
      have hafter := (hview i).2
      split at hafter
      · rename_i hi
        subst hi
        exact hafter.buffer_subset hseg
      · have hbuffer : bufferAt t i = bufferAt h.service i := congrArg ReadView.buffer hafter
        rw [← hbuffer]
        exact hseg

theorem nextPlace_of_newSegment (hest : c.status = .established)
    (hseg : c.newSegment info p = none) : (c.onPacket info p).nextPlace = c.nextPlace := by
  have := TcpConn.bytesBefore_of_newSegment hest hseg
  unfold TcpConn.bytesBefore at this
  unfold TcpConn.nextPlace
  bv_omega

theorem status_of_newSegment {seg : TcpSegment} (hseg : c.newSegment info p = some seg) :
    c.status = .established := by
  unfold TcpConn.newSegment at hseg
  split at hseg
  · rename_i hcond
    simp only [Bool.and_eq_true, beq_iff_eq] at hcond
    exact hcond.1.2
  · cases hseg

theorem onPacket_status (hest : c.status = .established) :
    (c.onPacket info p).status = .established := by
  have hbump : (bumpOldestUnacked c p).status = .established := by
    unfold bumpOldestUnacked
    split
    · exact hest
    · exact hest
  unfold TcpConn.onPacket
  split
  · exact hest
  · rw [hest]
    show (c.onData p).status = .established
    unfold TcpConn.onData
    split
    · exact hbump
    · exact hbump

theorem segmentOf_of_some (hlocal : info.dstIpv4 = s.localIpv4) (hc : connAt s i = some c) :
    segmentOf s i (.receive info p) = (c.newSegment info p).toList := by
  obtain ⟨d, hd, rfl⟩ := Option.map_eq_some_iff.mp hc
  rw [segmentOf, if_pos hlocal, hd]
  rfl

theorem segmentOf_of_none (hc : connAt s i = none) : segmentOf s i (.receive info p) = [] := by
  have hnone : s.tcpConns.items[i]? = none := Option.map_eq_none_iff.mp hc
  rw [segmentOf, hnone]
  split <;> rfl

/-- A packet: what it adds to a buffer is handed to the one who waits for it, if there is one. -/
theorem ReadsInv.receive (hinv : ReadsInv h) (hturn : SegmentsInTurn h (.receive info p)) :
    DispatchSucceeds h.service (.receive info p) ∧
      ∀ h', historyNext h (.receive info p) = some h' → ReadsInv h' := by
  by_cases hlocal : info.dstIpv4 = h.service.localIpv4
  swap
  · refine ⟨fun heq => absurd heq hlocal, fun h' hnext => ?_⟩
    obtain ⟨t, hreceive, rfl⟩ := Option.map_eq_some_iff.mp hnext
    have hreceive : tcpReceive h.service info p = some t := hreceive
    rw [tcpReceive, if_pos hlocal] at hreceive
    cases hreceive
    exact hinv.aside (fun i => ⟨rfl, if_neg hlocal⟩) (fun i => rfl)
      fun i c hc => .inr ⟨c, hc, rfl, rfl⟩
  · have hcomes : ∀ i c, connAt h.service i = some c → ∀ seg ∈ c.newSegment info p,
        ComesInTurn h info p i c seg := by
      intro i c hc seg hseg
      obtain ⟨d, hd, rfl⟩ := Option.map_eq_some_iff.mp hc
      obtain ⟨hone, hreached, hbehind, hstart, hplace⟩ :=
        hturn hlocal i (List.getElem?_eq_some_iff.mp hd).1 d hd seg hseg
      refine ⟨hone, hreached, hbehind, hstart, ?_⟩
      rw [← onPacket_withoutBuffer]
      exact hplace
    have htakes : ∀ i c, connAt h.service i = some c → ∀ seg ∈ c.newSegment info p,
        (viewAt h.service i).Takes seg := fun i c hc seg hseg =>
      ⟨(hcomes i c hc seg hseg).one, (hcomes i c hc seg hseg).reached⟩
    constructor
    · intro _ i u v hrun hinvoked
      have hview := run_tcpReceiveAt_quiet List.nodup_range hinv.quiet
        (fun k _ c hc => htakes k c hc) hrun
      have hi : i ∉ List.range i := List.not_mem_range_self
      have hsame := (hview i).2
      have hconn := (run_tcpReceiveAt_received List.nodup_range hrun).connAt i
      rw [if_neg hi] at hsame hconn
      obtain ⟨c, hc, -⟩ := Option.bind_eq_some_iff.mp hinvoked
      have hc : u.tcpConns.items[i]? = some c := hc
      have hown : connAt h.service i = some c.withoutBuffer := by
        rw [← hconn, connAt, hc]
        rfl
      refine (tcpReceiveAt_quiet hc (fun j => (hview j).1) ?_).1 v hinvoked
      rw [hsame]
      exact htakes i c.withoutBuffer hown
    · intro h' hnext
      obtain ⟨t, hreceive, rfl⟩ := Option.map_eq_some_iff.mp hnext
      have hreceive : tcpReceive h.service info p = some t := hreceive
      have hreceived := tcpReceive_received hlocal hreceive
      rw [tcpReceive, if_neg (not_not.mpr hlocal)] at hreceive
      have hview := run_tcpReceiveAt_quiet List.nodup_range hinv.quiet
        (fun k _ c hc => htakes k c hc) hreceive
      have hconns : ∀ i c, connAt h.service i = some c →
          i ∈ List.range h.service.tcpConns.size := fun i c hc => by
        obtain ⟨d, hd, -⟩ := Option.map_eq_some_iff.mp hc
        exact List.mem_range.mpr (List.getElem?_eq_some_iff.mp hd).1
      refine ⟨fun i => (hview i).1, fun i => ?_, fun i => ?_, fun i c' hc' seg hseg => ?_⟩
      · show (viewAt t i).Matches (h.requests i ++ [])
          (h.segments i ++ segmentOf h.service i (.receive info p))
        rw [List.append_nil]
        cases hc : connAt h.service i with
        | none =>
          have hafter := (hview i).2
          rw [segmentOf_of_none hc, List.append_nil]
          split at hafter
          · obtain ⟨c, hc', -⟩ := hafter
            rw [hc] at hc'
            cases hc'
          · rw [hafter]
            exact hinv.matched i
        | some c =>
          obtain ⟨d, hd, hserved⟩ := (if_pos (hconns i c hc)) ▸ (hview i).2
          obtain rfl : c = d := Option.some.inj (hc.symm.trans hd)
          rw [segmentOf_of_some hlocal hc]
          exact ((hinv.matched i).receive _).served hserved
      · show (h.segments i ++ segmentOf h.service i (.receive info p)).Pairwise _
        cases hc : connAt h.service i with
        | none =>
          rw [segmentOf_of_none hc, List.append_nil]
          exact hinv.inOrder i
        | some c =>
          rw [segmentOf_of_some hlocal hc, List.pairwise_append]
          refine ⟨hinv.inOrder i, ?_, fun old hold seg hseg => ?_⟩
          · cases c.newSegment info p <;> simp
          · exact (hcomes i c hc seg (by simpa using hseg)).behind old hold
      · have hc : ∃ c, connAt h.service i = some c ∧ c' = c.onPacket info p := by
          have hconn := hreceived.connAt i
          split at hconn
          · rw [hconn] at hc'
            obtain ⟨c, hc, hon⟩ := Option.map_eq_some_iff.mp hc'
            exact ⟨c, hc, hon.symm⟩
          · rename_i hi
            exact absurd (hconns i c' (hconn ▸ hc')) hi
        obtain ⟨c, hc, rfl⟩ := hc
        obtain ⟨d, hd, hserved⟩ := (if_pos (hconns i c hc)) ▸ (hview i).2
        obtain rfl : c = d := Option.some.inj (hc.symm.trans hd)
        have hmem : seg ∈ bufferAt h.service i ++ (c.newSegment info p).toList :=
          hserved.buffer_subset hseg
        rcases List.mem_append.mp hmem with hold | hnew
        · obtain ⟨hest, hle⟩ := hinv.reached i c hc seg hold
          refine ⟨onPacket_status hest, BitVec.le_trans hle ?_⟩
          cases hnone : c.newSegment info p with
          | none =>
            rw [nextPlace_of_newSegment hest hnone]
            exact BitVec.le_refl _
          | some new => exact (hcomes i c hc new hnone).nextPlace_le
        · have hnew : c.newSegment info p = some seg := by simpa using hnew
          obtain ⟨-, -, -, hstart, hplace⟩ := hcomes i c hc seg hnew
          exact ⟨onPacket_status (status_of_newSegment hnew), BitVec.le_trans hstart hplace⟩

theorem ReadsInv.step {h : ReadHistory} {e : TcpEvent} (hinv : ReadsInv h)
    (hturn : SegmentsInTurn h e) : DispatchSucceeds h.service e ∧
      ∀ h', historyNext h e = some h' → ReadsInv h' := by
  cases e with
  | receive info p => exact hinv.receive hturn
  | connOpen service srcPort dstPort dstIpv4 rand => exact ⟨trivial, fun _ => hinv.connOpen⟩
  | connSend descriptor data => exact ⟨trivial, fun _ => hinv.connSend⟩
  | connRead service descriptor len => exact hinv.connRead

end Steps

/-! ### Every run -/

/-- **Reads are answered.**  Along every run in which segments come in turn, the requests of each
connection are answered one to one and in order with its segments, and no callback that is
dispatched fails to find its segment. -/
theorem reads_answered (localIpv4 : IPv4) (es : List TcpEvent)
    (hturn : Meets historyNext SegmentsInTurn (historyInit localIpv4) es) :
    (∀ h, Passes historyNext (historyInit localIpv4) es h → ∀ i, ReadsLaw h i) ∧
      Meets historyNext (fun h e => DispatchSucceeds h.service e) (historyInit localIpv4) es := by
  have hstep : ∀ (h : ReadHistory) (e : TcpEvent) (h' : ReadHistory), ReadsInv h →
      SegmentsInTurn h e → historyNext h e = some h' → ReadsInv h' :=
    fun h e h' hinv hok hnext => (hinv.step hok).2 h' hnext
  constructor
  · intro h hpass i
    exact (passes_invariant hstep (readsInv_init localIpv4) hturn hpass).law i
  · exact Meets.of_invariant hstep (fun h e hinv hok => (hinv.step hok).1)
      (readsInv_init localIpv4) hturn

instance (h : ReadHistory) (info : PacketInfo) (p : TcpPacket) (i : ℕ) (c : TcpConn)
    (seg : TcpSegment) : Decidable (ComesInTurn h info p i c seg) :=
  decidable_of_iff
    (((pendingReads i h.service.tcpCallbacks.items).length ≤ 1 ∧
      ∀ r ∈ pendingReads i h.service.tcpCallbacks.items,
        seg.sequenceStart ≤ r.nextSeqnumToDeliver) ∧
      (∀ old ∈ h.segments i, old.sequenceStart ≤ seg.sequenceStart) ∧
      seg.sequenceStart ≤ c.nextPlace ∧ c.nextPlace ≤ (c.onPacket info p).nextPlace)
    ⟨fun h => ⟨h.1.1, h.1.2, h.2.1, h.2.2.1, h.2.2.2⟩,
      fun h => ⟨⟨h.one, h.reached⟩, h.behind, h.start_le, h.nextPlace_le⟩⟩

instance (h : ReadHistory) : (e : TcpEvent) → Decidable (SegmentsInTurn h e)
  | .receive info p =>
    inferInstanceAs (Decidable (info.dstIpv4 = h.service.localIpv4 →
      ∀ i < h.service.tcpConns.items.length, ∀ c ∈ h.service.tcpConns.items[i]?,
        ∀ seg ∈ c.newSegment info p, ComesInTurn h info p i c seg))
  | .connOpen .. => inferInstanceAs (Decidable True)
  | .connSend .. => inferInstanceAs (Decidable True)
  | .connRead .. => inferInstanceAs (Decidable True)

/-- A packet from the server at address 2 to the browser's connection, here at address 1. -/
def fromServer (sequenceNumber : BitVec 32) (flags : BitVec 8) (data : List Byte) : TcpEvent :=
  .receive ⟨2, 1⟩ ⟨⟨80, 4000, sequenceNumber, 8, 5, flags⟩, data⟩

/-- The handshake. -/
def browserOpens : List TcpEvent :=
  [.connOpen "browser" 4000 80 2 7, fromServer 100 (tcpFlagSyn ||| tcpFlagAck) []]

/-- A read that waits for its segment, and a read that finds it there. -/
def browserReads : List TcpEvent :=
  browserOpens ++ [.connRead "browser" 0 1460, fromServer 101 tcpFlagAck [10, 11],
    fromServer 103 tcpFlagAck [12], .connRead "browser" 0 1460]

theorem reads_answered_browserReads :
    (∀ h, Passes historyNext (historyInit 1) browserReads h → ∀ i, ReadsLaw h i) ∧
      Meets historyNext (fun h e => DispatchSucceeds h.service e) (historyInit 1) browserReads :=
  reads_answered 1 browserReads (by decide +kernel)

/-- Two reads wait and one segment comes: both are found ready, and the second one that is
dispatched finds nothing. -/
theorem two_reads_one_segment :
    ¬Meets historyNext (fun h e => DispatchSucceeds h.service e) (historyInit 1)
      (browserOpens ++ [.connRead "browser" 0 1460, .connRead "browser" 0 1460,
        fromServer 101 tcpFlagAck [10, 11]]) := by
  intro hmeets
  obtain ⟨-, h⟩ := hmeets
  obtain ⟨-, h⟩ := h _ rfl
  obtain ⟨-, h⟩ := h _ rfl
  obtain ⟨-, h⟩ := h _ rfl
  obtain ⟨hwaiting, -⟩ := h _ rfl
  obtain ⟨t, ht⟩ := hwaiting rfl 0 _ _ rfl rfl [0, 1] (by decide +kernel)
  cases ht

end Axle.Net.Tcp
