import Axle.Lib.EraseIndexes
import Axle.Net.Tcp

/-!
# Dispatching the reads that are ready

Which of the callbacks are ready is decided before any of them is completed, and they are completed
from high indexes to low ones.  Completing a read takes the first segment of its connection's buffer
that does not start behind `next_seqnum_to_deliver`.  What a reader sees of a connection is a
`ReadView`; in terms of it a dispatch either changes nothing or answers the one request that waits.

* `run_dispatchCallback` — **PROVED**: callbacks that are ready are all completed, as long as no two
  of them read from the same connection;
* `callbackListInvokeReadyCallbacks_quiet` — **PROVED**: and then nobody waits for a connection that
  has a segment.
-/

namespace Axle.Net.Tcp

open Axle.Kernel (ArrayM)
open Axle.Lib.StepRun

/-- `tcp_init`. -/
def tcpInit (localIpv4 : IPv4) : TcpService where
  localIpv4 := localIpv4
  tcpConns := ArrayM.create 64
  tcpCallbacks := ArrayM.create 64
  sent := []
  responses := []

/-- What a client is sent for a read. -/
abbrev Answer := String × BitVec 32 × List Byte

/-- The answers to reads of connection `i`. -/
def answersOf (i : ℕ) (responses : List NetResponse) : List Answer :=
  responses.filterMap fun
    | .tcpRead service j len data => if j = i then some (service, len, data) else none
    | .tcpOpen _ _ => none

/-- The answer to a request with a segment. -/
def readAnswer (service : String) (seg : TcpSegment) : Answer := (service, seg.len, seg.buf)

/-- A request that waits. -/
structure PendingRead where
  service : String
  nextSeqnumToDeliver : BitVec 32
deriving DecidableEq, Repr

def pendingReads (i : ℕ) (callbacks : List TcpCallback) : List PendingRead :=
  callbacks.filterMap fun
    | .connRead service j _ next => if j = i then some ⟨service, next⟩ else none
    | .connOpen _ _ => none

/-- The callbacks found ready in `u` are all completed. -/
def CompletesReady (u : TcpService) : Prop :=
  ∀ indexes, callbackIndexesToComplete u = some indexes →
    ∃ t, run dispatchCallback u indexes.reverse = some t

/-! ### A connection seen from its readers -/

/-- The requests that wait for a connection, its buffer, and the answers sent. -/
structure ReadView where
  pending : List PendingRead
  buffer : List TcpSegment
  answers : List Answer
deriving DecidableEq, Repr

def bufferAt (s : TcpService) (i : ℕ) : List TcpSegment :=
  ((s.tcpConns.items[i]?).map fun c => c.receiveBuffer.items).getD []

def viewAt (s : TcpService) (i : ℕ) : ReadView where
  pending := pendingReads i s.tcpCallbacks.items
  buffer := bufferAt s i
  answers := answersOf i s.responses

namespace ReadView

/-- If there is a segment, at most one request waits; and it waits for any segment. -/
structure Dispatchable (w : ReadView) : Prop where
  one : w.buffer ≠ [] → w.pending.length ≤ 1
  reach : ∀ r ∈ w.pending, ∀ seg ∈ w.buffer, seg.sequenceStart ≤ r.nextSeqnumToDeliver

/-- The one request that waited has been answered with the first segment. -/
def Answered (w w' : ReadView) : Prop :=
  ∃ r seg rest, w.pending = [r] ∧ w.buffer = seg :: rest ∧
    w' = ⟨[], rest, w.answers ++ [readAnswer r.service seg]⟩

/-- Nothing has changed, or the request that waited has been answered. -/
def Served (w w' : ReadView) : Prop := w' = w ∨ w.Answered w'

theorem Served.trans {w w' w'' : ReadView} (h : w.Served w') (h' : w'.Served w'') : w.Served w'' := by
  rcases h with rfl | h
  · exact h'
  · rcases h' with rfl | ⟨r, seg, rest, hpending, -, -⟩
    · exact .inr h
    · obtain ⟨r', seg', rest', -, -, rfl⟩ := h
      cases hpending

variable {w w' : ReadView}

theorem Served.dispatchable (h : w.Served w') (hw : w.Dispatchable) : w'.Dispatchable := by
  rcases h with rfl | ⟨r, seg, rest, -, -, rfl⟩
  · exact hw
  · exact ⟨fun _ => Nat.zero_le _, fun r hr => by cases hr⟩

/-- Nobody waits for a connection that has a segment. -/
def Quiet (w : ReadView) : Prop := w.pending = [] ∨ w.buffer = []

/-- The segment is one that may be put into the buffer. -/
structure Takes (w : ReadView) (seg : TcpSegment) : Prop where
  one : w.pending.length ≤ 1
  reached : ∀ r ∈ w.pending, seg.sequenceStart ≤ r.nextSeqnumToDeliver

def receive (w : ReadView) (seg : Option TcpSegment) : ReadView :=
  { w with buffer := w.buffer ++ seg.toList }

theorem Quiet.served_eq (hw : w.Quiet) (h : w.Served w') : w' = w := by
  rcases h with h | ⟨r, seg, rest, hpending, hbuffer, -⟩
  · exact h
  · rcases hw with hw | hw
    · rw [hw] at hpending
      cases hpending
    · rw [hw] at hbuffer
      cases hbuffer

theorem Quiet.dispatchable_receive {seg : Option TcpSegment} (hw : w.Quiet)
    (htakes : ∀ seg' ∈ seg, w.Takes seg') : (w.receive seg).Dispatchable := by
  rcases hw with hw | hw
  · exact ⟨fun _ => by rw [receive, hw]; exact Nat.zero_le _, fun r hr => by
      rw [receive, hw] at hr
      cases hr⟩
  · cases seg with
    | none =>
      have hbuffer : (w.receive none).buffer = [] := (List.append_nil _).trans hw
      exact ⟨fun hne => absurd hbuffer hne, fun r _ seg hseg => by
        rw [hbuffer] at hseg
        cases hseg⟩
    | some seg =>
      have hbuffer : (w.receive (some seg)).buffer = [seg] := by
        rw [receive, hw]
        rfl
      refine ⟨fun _ => (htakes seg rfl).one, fun r hr seg' hseg' => ?_⟩
      rw [hbuffer, List.mem_singleton] at hseg'
      rw [hseg']
      exact (htakes seg rfl).reached r hr

theorem Quiet.dispatchable (hw : w.Quiet) : w.Dispatchable := by
  have h : (w.receive none).Dispatchable := hw.dispatchable_receive fun _ h => by cases h
  rwa [receive, Option.toList_none, List.append_nil] at h

theorem Served.pending_nil (h : w.Served w') (hw : w.pending = []) : w'.pending = [] := by
  rcases h with rfl | ⟨r, seg, rest, -, -, rfl⟩
  · exact hw
  · rfl

end ReadView

theorem pendingReads_append (i : ℕ) (a b : List TcpCallback) :
    pendingReads i (a ++ b) = pendingReads i a ++ pendingReads i b := List.filterMap_append

theorem answersOf_append (i : ℕ) (a b : List NetResponse) :
    answersOf i (a ++ b) = answersOf i a ++ answersOf i b := List.filterMap_append

variable {callbacks : List TcpCallback} {cb : TcpCallback} {idx i : ℕ} {c : TcpConn}
  {s u : TcpService} {next : BitVec 32} {α : Type} {f : α → Option Bool} {l r : List α}

theorem pendingReads_split (hcb : callbacks[idx]? = some cb) (i : ℕ) :
    pendingReads i callbacks = pendingReads i (callbacks.take idx) ++ (pendingReads i [cb] ++
        pendingReads i (callbacks.drop (idx + 1))) ∧
      pendingReads i (callbacks.eraseIdx idx) =
        pendingReads i (callbacks.take idx) ++ pendingReads i (callbacks.drop (idx + 1)) := by
  obtain ⟨hlt, rfl⟩ := List.getElem?_eq_some_iff.mp hcb
  constructor
  · rw [← pendingReads_append, ← pendingReads_append, List.singleton_append,
      ← List.drop_eq_getElem_cons hlt, List.take_append_drop]
  · rw [← pendingReads_append, List.eraseIdx_eq_take_drop_succ]

/-! ### Completing callbacks -/

theorem connReadSatisfied_eq_some {len next : BitVec 32} {segs : List TcpSegment} {b : Bool}
    (hreach : ∀ seg ∈ segs, seg.sequenceStart ≤ next)
    (h : connReadSatisfied len next segs = some b) : b = !segs.isEmpty := by
  cases segs with
  | nil => exact (Option.some.inj h).symm
  | cons seg segs =>
    have hle := hreach seg List.mem_cons_self
    rw [connReadSatisfied, if_neg (by bv_omega)] at h
    split at h
    · exact (Option.some.inj h).symm
    · cases h

theorem bufferAt_eq (hc : s.tcpConns.items[i]? = some c) :
    bufferAt s i = c.receiveBuffer.items := by
  rw [bufferAt, hc]
  rfl

theorem bufferAt_setConn (hc : s.tcpConns.items[i]? = some c) (c' : TcpConn) (j : ℕ) :
    bufferAt (s.setConn i c') j = if j = i then c'.receiveBuffer.items else bufferAt s j := by
  rw [bufferAt, setConn_getElem? hc]
  split <;> rfl

theorem exists_completeConnRead {j : ℕ} {seg : TcpSegment} {rest : List TcpSegment}
    (service : String) (hc : s.tcpConns.items[j]? = some c)
    (hbuffer : c.receiveBuffer.items = seg :: rest) (hreach : seg.sequenceStart ≤ next) :
    ∃ buffer : ArrayM TcpSegment, buffer.items = rest ∧ completeConnRead s service j next =
      some ((s.respond (.tcpRead service j seg.len seg.buf)).setConn j
        { c with receiveBuffer := buffer }) := by
  have hlt : 0 < c.receiveBuffer.items.length := by
    rw [hbuffer]
    exact Nat.succ_pos _
  obtain ⟨buffer, hremove, hitems, -⟩ := ArrayM.exists_remove hlt
  have hfind : c.receiveBuffer.items.findIdx? (fun seg => !decide (next < seg.sequenceStart)) =
      some 0 := by
    have hfirst : (!decide (next < seg.sequenceStart)) = true := by
      rw [Bool.not_eq_true', decide_eq_false_iff_not]
      bv_omega
    rw [hbuffer, List.findIdx?_cons, if_pos hfirst]
  have hget : c.receiveBuffer.items[0]? = some seg := by
    rw [hbuffer]
    rfl
  refine ⟨buffer, by rw [hitems, hbuffer]; rfl, ?_⟩
  simp only [completeConnRead, ArrayM.lookup, hc, hfind, hget, hremove, Option.bind_eq_bind,
    Option.bind_some]

/-- **One callback that is ready**: it is completed, and only those that read from its connection
see a difference. -/
theorem exists_dispatchCallback (hcb : u.tcpCallbacks.items[idx]? = some cb)
    (hsat : isCallbackSatisfied u cb = some true) (hview : ∀ i, (viewAt u i).Dispatchable) :
    ∃ v, dispatchCallback u idx = some v ∧
      v.tcpCallbacks.items = u.tcpCallbacks.items.eraseIdx idx ∧
      ∀ i, if pendingReads i [cb] = [] then viewAt v i = viewAt u i
        else (viewAt u i).Answered (viewAt v i) := by
  obtain ⟨callbacks, hremove, hitems, -⟩ :=
    ArrayM.exists_remove (List.getElem?_eq_some_iff.mp hcb).1
  have hpending : ∀ i, pendingReads i [cb] = [] →
      pendingReads i callbacks.items = pendingReads i u.tcpCallbacks.items := fun i hnone => by
    obtain ⟨hall, herase⟩ := pendingReads_split hcb i
    rw [hitems, herase, hall, hnone, List.nil_append]
  cases cb with
  | connOpen service j =>
    refine ⟨({ u with tcpCallbacks := callbacks } : TcpService).respond (.tcpOpen service j), ?_,
      hitems, fun i => ?_⟩
    · simp only [dispatchCallback, ArrayM.lookup, hcb, hremove, completeCallback,
        Option.bind_eq_bind, Option.bind_some]
    · have hnone : pendingReads i [TcpCallback.connOpen service j] = [] := rfl
      rw [if_pos hnone, viewAt, viewAt]
      congr 1
      · exact hpending i hnone
      · exact (answersOf_append i u.responses _).trans (List.append_nil _)
  | connRead service j len next =>
    obtain ⟨c, hc, hready⟩ := Option.bind_eq_some_iff.mp hsat
    obtain ⟨seg, rest, hbuffer⟩ : ∃ seg rest, c.receiveBuffer.items = seg :: rest := by
      cases hsegs : c.receiveBuffer.items with
      | nil => rw [hsegs] at hready; cases hready
      | cons seg rest => exact ⟨seg, rest, rfl⟩
    -- the request is the only one for its connection
    have hself : pendingReads j [TcpCallback.connRead service j len next] = [⟨service, next⟩] := by
      simp [pendingReads]
    obtain ⟨hall, herase⟩ := pendingReads_split hcb j
    rw [hself] at hall
    have hone : (pendingReads j u.tcpCallbacks.items).length ≤ 1 := (hview j).one (by
      show bufferAt u j ≠ []
      rw [bufferAt_eq hc, hbuffer]
      exact List.cons_ne_nil _ _)
    rw [hall] at hone
    simp only [List.length_append, List.length_cons] at hone
    have hbefore : pendingReads j (u.tcpCallbacks.items.take idx) = [] :=
      List.length_eq_zero_iff.mp (by omega)
    have hbehind : pendingReads j (u.tcpCallbacks.items.drop (idx + 1)) = [] :=
      List.length_eq_zero_iff.mp (by omega)
    rw [hbefore, hbehind] at hall herase
    have hreach : seg.sequenceStart ≤ next := by
      refine (hview j).reach ⟨service, next⟩ ?_ seg ?_
      · show _ ∈ pendingReads j u.tcpCallbacks.items
        rw [hall]
        exact List.mem_cons_self
      · show seg ∈ bufferAt u j
        rw [bufferAt_eq hc, hbuffer]
        exact List.mem_cons_self
    obtain ⟨buffer, hrest, hcomplete⟩ := exists_completeConnRead
      (s := { u with tcpCallbacks := callbacks }) service hc hbuffer hreach
    refine ⟨(({ u with tcpCallbacks := callbacks } : TcpService).respond
      (.tcpRead service j seg.len seg.buf)).setConn j { c with receiveBuffer := buffer }, ?_,
      hitems, fun i => ?_⟩
    · simp only [dispatchCallback, ArrayM.lookup, hcb, hremove, completeCallback,
        Option.bind_eq_bind, Option.bind_some]
      exact hcomplete
    · have hbufferAt := bufferAt_setConn
        (s := ({ u with tcpCallbacks := callbacks } : TcpService).respond
          (.tcpRead service j seg.len seg.buf)) hc { c with receiveBuffer := buffer } i
      have hanswers := answersOf_append i u.responses [.tcpRead service j seg.len seg.buf]
      by_cases hij : j = i
      · subst hij
        rw [hself, if_neg (List.cons_ne_nil _ _)]
        rw [if_pos rfl] at hbufferAt
        refine ⟨⟨service, next⟩, seg, rest, hall, (bufferAt_eq hc).trans hbuffer, ?_⟩
        rw [viewAt]
        congr 1
        · exact (congrArg (pendingReads j) hitems).trans herase
        · exact hbufferAt.trans hrest
        · refine hanswers.trans ?_
          simp [answersOf, readAnswer, viewAt]
      · have hnone : pendingReads i [TcpCallback.connRead service j len next] = [] := by
          simp [pendingReads, hij]
        rw [if_pos hnone, viewAt, viewAt]
        rw [if_neg (Ne.symm hij)] at hbufferAt
        congr 1
        · exact hpending i hnone
        · refine hanswers.trans ?_
          simp [answersOf, hij]

theorem isCallbackSatisfied_connRead (s : TcpService) (service : String) (i : ℕ)
    (len next : BitVec 32) : isCallbackSatisfied s (.connRead service i len next) =
      (connAt s i).bind fun _ => connReadSatisfied len next (bufferAt s i) := by
  show (s.tcpConns.items[i]?).bind _ = _
  rw [connAt, bufferAt]
  cases s.tcpConns.items[i]? <;> rfl

/-- Whether a callback is ready depends on the connections and on the buffer it reads from. -/
theorem isCallbackSatisfied_congr {s t : TcpService} (hconn : ∀ i, connAt t i = connAt s i)
    (hbuffer : ∀ i, pendingReads i [cb] ≠ [] → bufferAt t i = bufferAt s i) :
    isCallbackSatisfied t cb = isCallbackSatisfied s cb := by
  cases cb with
  | connOpen service i =>
    have hopen : ∀ u : TcpService, isCallbackSatisfied u (.connOpen service i) =
        (connAt u i).map fun c => c.status == .established := by
      intro u
      rw [connAt, Option.map_map]
      rfl
    rw [hopen, hopen, hconn]
  | connRead service i len next =>
    have hself := hbuffer i (by simp [pendingReads])
    rw [isCallbackSatisfied_connRead, isCallbackSatisfied_connRead, hconn, hself]

/-- **All callbacks that are ready**, from high indexes to low ones: all are completed, and whoever
read through one of them waits no more. -/
theorem run_dispatchCallback {l : List ℕ} (hl : l.Pairwise fun a b => b < a)
    (hsat : ∀ idx ∈ l, ∃ cb, u.tcpCallbacks.items[idx]? = some cb ∧
      isCallbackSatisfied u cb = some true) (hview : ∀ i, (viewAt u i).Dispatchable) :
    ∃ v, run dispatchCallback u l = some v ∧ (∀ i, (viewAt u i).Served (viewAt v i)) ∧
      ∀ idx ∈ l, ∀ cb, u.tcpCallbacks.items[idx]? = some cb →
        ∀ i, pendingReads i [cb] ≠ [] → (viewAt v i).pending = [] := by
  induction l generalizing u with
  | nil => exact ⟨u, rfl, fun i => .inl rfl, fun idx hidx => by cases hidx⟩
  | cons idx l ih =>
    obtain ⟨hlow, hl⟩ := List.pairwise_cons.mp hl
    obtain ⟨cb, hcb, hready⟩ := hsat idx List.mem_cons_self
    obtain ⟨w, hw, hitems, hone⟩ := exists_dispatchCallback hcb hready hview
    have hserved : ∀ i, (viewAt u i).Served (viewAt w i) := fun i => by
      have h := hone i
      split at h
      · exact .inl h
      · exact .inr h
    have hkept : ∀ idx' ∈ l, w.tcpCallbacks.items[idx']? = u.tcpCallbacks.items[idx']? :=
      fun idx' hidx' => by rw [hitems, List.getElem?_eraseIdx_of_lt (hlow idx' hidx')]
    have hsat' : ∀ idx' ∈ l, ∃ cb, w.tcpCallbacks.items[idx']? = some cb ∧
        isCallbackSatisfied w cb = some true := by
      intro idx' hidx'
      obtain ⟨cb', hcb', hready'⟩ := hsat idx' (List.mem_cons_of_mem idx hidx')
      have hcb'' := (hkept idx' hidx').trans hcb'
      refine ⟨cb', hcb'', ?_⟩
      rw [isCallbackSatisfied_congr (dispatchCallback_served hw).connAt, hready']
      intro i hi
      rcases hserved i with hsame | ⟨r, seg, rest, -, -, hafter⟩
      · exact congrArg ReadView.buffer hsame
      · -- nothing waits for `i` any more, but this callback does
        exfalso
        have hnone : pendingReads i w.tcpCallbacks.items = [] := congrArg ReadView.pending hafter
        rw [(pendingReads_split hcb'' i).1, List.append_eq_nil_iff, List.append_eq_nil_iff] at hnone
        exact hi hnone.2.1
    obtain ⟨v, hv, hserved', hnone⟩ := ih hl hsat' fun i => (hserved i).dispatchable (hview i)
    refine ⟨v, run_cons_eq_some.mpr ⟨w, hw, hv⟩, fun i => (hserved i).trans (hserved' i), ?_⟩
    intro idx' hidx' cb' hcb' i hi
    rcases List.mem_cons.mp hidx' with rfl | hmem
    · obtain rfl : cb' = cb := Option.some.inj (hcb'.symm.trans hcb)
      have h := hone i
      rw [if_neg hi] at h
      obtain ⟨r, seg, rest, -, -, hafter⟩ := h
      exact (hserved' i).pending_nil (congrArg ReadView.pending hafter)
    · exact hnone idx' hmem cb' ((hkept idx' hmem).trans hcb') i hi

theorem filterAuxM_eq_some {l acc r : List α} (h : List.filterAuxM f l acc = some r) :
    r = (l.filter fun x => f x == some true).reverse ++ acc ∧ ∀ x ∈ l, (f x).isSome := by
  induction l generalizing acc with
  | nil => exact ⟨(Option.some.inj h).symm, fun x hx => by cases hx⟩
  | cons x l ih =>
    obtain ⟨b, hb, hrest⟩ := Option.bind_eq_some_iff.mp h
    obtain ⟨hr, hsome⟩ := ih hrest
    refine ⟨?_, List.forall_mem_cons.mpr ⟨by rw [hb]; rfl, hsome⟩⟩
    rw [hr]
    cases b <;> simp [hb]

theorem filterM_eq_some (h : l.filterM f = some r) :
    r = l.filter (fun x => f x == some true) ∧ ∀ x ∈ l, (f x).isSome := by
  obtain ⟨acc, hacc, hr⟩ := Option.bind_eq_some_iff.mp h
  obtain ⟨rfl, hsome⟩ := filterAuxM_eq_some hacc
  refine ⟨?_, hsome⟩
  rw [← Option.some.inj hr, List.append_nil, List.reverse_reverse]

theorem callbackIndexesToComplete_eq_some {indexes : List ℕ}
    (h : callbackIndexesToComplete u = some indexes) :
    indexes.reverse.Pairwise (fun a b => b < a) ∧
      (∀ idx ∈ indexes, idx < u.tcpCallbacks.items.length) ∧
      ∀ (idx : ℕ) (cb : TcpCallback), u.tcpCallbacks.items[idx]? = some cb →
        ∃ b, isCallbackSatisfied u cb = some b ∧ (idx ∈ indexes ↔ b = true) := by
  obtain ⟨rfl, hsome⟩ := filterM_eq_some h
  refine ⟨?_, fun idx hidx => List.mem_range.mp (List.mem_of_mem_filter hidx), ?_⟩
  · rw [List.pairwise_reverse]
    exact List.Pairwise.filter _ List.pairwise_lt_range
  · intro idx cb hcb
    have hmem : idx ∈ List.range u.tcpCallbacks.size :=
      List.mem_range.mpr (List.getElem?_eq_some_iff.mp hcb).1
    have hask : (u.tcpCallbacks.lookup idx).bind (isCallbackSatisfied u) =
        isCallbackSatisfied u cb := by
      rw [ArrayM.lookup, hcb, Option.bind_some]
    obtain ⟨b, hb⟩ := Option.isSome_iff_exists.mp (hsome idx hmem)
    rw [hask] at hb
    simp [List.mem_filter, List.mem_range.mp hmem, hask, hb]

theorem exists_of_mem_pendingReads {r : PendingRead} (h : r ∈ pendingReads i callbacks) :
    ∃ (idx : ℕ) (len : BitVec 32),
      callbacks[idx]? = some (.connRead r.service i len r.nextSeqnumToDeliver) := by
  obtain ⟨cb, hcb, hr⟩ := List.mem_filterMap.mp h
  obtain ⟨idx, hidx⟩ := List.mem_iff_getElem?.mp hcb
  cases cb with
  | connOpen service j => cases hr
  | connRead service j len next =>
    dsimp only at hr
    split at hr
    · rename_i hj
      subst hj
      cases hr
      exact ⟨idx, len, hidx⟩
    · cases hr

/-- **Invoking the callbacks that are ready** never fails to find a segment, and leaves nobody to
wait for one that is there. -/
theorem callbackListInvokeReadyCallbacks_quiet (hview : ∀ i, (viewAt u i).Dispatchable) :
    CompletesReady u ∧ ∀ v, callbackListInvokeReadyCallbacks u = some v →
      ∀ i, (viewAt u i).Served (viewAt v i) ∧ (viewAt v i).Quiet := by
  have hready : ∀ indexes, callbackIndexesToComplete u = some indexes →
      ∃ v, run dispatchCallback u indexes.reverse = some v ∧
        ∀ i, (viewAt u i).Served (viewAt v i) ∧ (viewAt v i).Quiet := by
    intro indexes hindexes
    obtain ⟨hdesc, hlt, hmem⟩ := callbackIndexesToComplete_eq_some hindexes
    have hsat : ∀ idx ∈ indexes.reverse, ∃ cb, u.tcpCallbacks.items[idx]? = some cb ∧
        isCallbackSatisfied u cb = some true := by
      intro idx hidx
      have hidx' := List.mem_reverse.mp hidx
      have hcb := List.getElem?_eq_getElem (hlt idx hidx')
      obtain ⟨b, hb, hiff⟩ := hmem idx _ hcb
      exact ⟨_, hcb, hb.trans (congrArg some (hiff.mp hidx'))⟩
    obtain ⟨v, hv, hserved, hnone⟩ := run_dispatchCallback hdesc hsat hview
    refine ⟨v, hv, fun i => ⟨hserved i, ?_⟩⟩
    by_contra hquiet
    obtain ⟨hpending, hbuffer⟩ := not_or.mp hquiet
    -- the view is as it was, so the request that waits had been found ready
    rcases hserved i with hsame | ⟨r, seg, rest, -, -, hafter⟩
    · rw [hsame] at hpending hbuffer
      obtain ⟨r, hr⟩ := List.exists_mem_of_ne_nil _ hpending
      obtain ⟨idx, len, hcb⟩ := exists_of_mem_pendingReads hr
      obtain ⟨b, hb, hiff⟩ := hmem idx _ hcb
      rw [isCallbackSatisfied_connRead] at hb
      obtain ⟨c, -, hread⟩ := Option.bind_eq_some_iff.mp hb
      have hb' := connReadSatisfied_eq_some ((hview i).reach r hr) hread
      have hself : pendingReads i [.connRead r.service i len r.nextSeqnumToDeliver] ≠ [] := by
        simp [pendingReads]
      have hnil := hnone idx (List.mem_reverse.mpr (hiff.mpr ?_)) _ hcb i hself
      · rw [hsame] at hnil
        exact hpending hnil
      · simpa [hb', List.isEmpty_eq_false_iff] using hbuffer
    · exact hpending (congrArg ReadView.pending hafter)
  constructor
  · intro indexes hindexes
    obtain ⟨v, hv, -⟩ := hready indexes hindexes
    exact ⟨v, hv⟩
  · intro v hv i
    obtain ⟨indexes, hindexes, hrun⟩ := Option.bind_eq_some_iff.mp hv
    obtain ⟨v', hv', h⟩ := hready indexes hindexes
    obtain rfl : v' = v := Option.some.inj (hv'.symm.trans hrun)
    exact h i

/-! ### Handling a packet -/

/-- The state in which the handling of a packet for connection `i` invokes the callbacks that are
ready, if it does. -/
def invokedAt (info : PacketInfo) (p : TcpPacket) (s : TcpService) (i : ℕ) : Option TcpService := do
  let c ← s.tcpConns.lookup i
  if !c.matchesPacket info p then none
  else match c.status with
    | .synSent =>
      if p.hasFlag tcpFlagSyn && p.header.acknowledgementNumber == c.sendNextSeqnum + 1 then
        let c := c.onSynResponse p
        some ((s.setConn i c).tcpSend i c c.sendNextSeqnum c.recvNextSeqnum tcpFlagAck [])
      else none
    | .established =>
      if c.takesData p then do
        let d := c.onData p
        let s := (s.setConn i (bumpOldestUnacked c p)).tcpSend i d d.sendNextSeqnum d.recvNextSeqnum
          tcpFlagAck []
        let buffer ← c.receiveBuffer.insert
          ⟨p.data.take p.dataLen.toNat, p.dataLen, p.header.sequenceNumber - c.recvInitialSeqnum⟩
        some (s.setConn i { d with receiveBuffer := buffer })
      else none
    | .synAckRecv => none

/-- `u` is `s` with `c'` for connection `i`, as far as the readers see. -/
structure Stored (s : TcpService) (i : ℕ) (c' : TcpConn) (u : TcpService) : Prop where
  items : ∀ j, u.tcpConns.items[j]? = if j = i then some c' else s.tcpConns.items[j]?
  callbacks : u.tcpCallbacks = s.tcpCallbacks
  responses : u.responses = s.responses

theorem bumpOldestUnacked_status (c : TcpConn) (p : TcpPacket) :
    (bumpOldestUnacked c p).status = c.status := by
  unfold bumpOldestUnacked
  split <;> rfl

section Handling

variable {s u : TcpService} {i : ℕ} {c c' : TcpConn}

theorem Stored.viewAt {seg : Option TcpSegment} (h : Stored s i c' u)
    (hc : s.tcpConns.items[i]? = some c)
    (hbuffer : c'.receiveBuffer.items = c.receiveBuffer.items ++ seg.toList) (j : ℕ) :
    viewAt u j = if j = i then (viewAt s i).receive seg else viewAt s j := by
  rw [Tcp.viewAt, h.callbacks, h.responses]
  split
  · rename_i hj
    subst hj
    rw [bufferAt_eq ((h.items j).trans (if_pos rfl)), hbuffer, ← bufferAt_eq hc]
    rfl
  · rename_i hj
    rw [bufferAt, h.items, if_neg hj]
    rfl

theorem Stored.viewAt_of_same (h : Stored s i c' u) (hc : s.tcpConns.items[i]? = some c)
    (hbuffer : c'.receiveBuffer = c.receiveBuffer) (j : ℕ) : Tcp.viewAt u j = Tcp.viewAt s j := by
  have hitems : c'.receiveBuffer.items =
      c.receiveBuffer.items ++ (none : Option TcpSegment).toList := by
    rw [hbuffer, Option.toList_none, List.append_nil]
  rw [h.viewAt hc hitems]
  split
  · rename_i hj
    rw [hj, ReadView.receive, Option.toList_none, List.append_nil]
  · rfl

/-- What the handling of a packet for connection `i`, which is `c`, comes to: the callbacks that
are ready are invoked with the new segment in the buffer; or nothing changes for those who wait; or
the buffer is full. -/
inductive ReceiveCase (info : PacketInfo) (p : TcpPacket) (s : TcpService) (i : ℕ) (c : TcpConn) :
    Prop where
  | invokes (u : TcpService) (c' : TcpConn) (invoked : invokedAt info p s i = some u)
      (receive : tcpReceiveAt info p s i = callbackListInvokeReadyCallbacks u)
      (stored : Stored s i c' u)
      (buffer : c'.receiveBuffer.items = c.receiveBuffer.items ++ (c.newSegment info p).toList)
      (status : c'.status = .established)
      (room : ∀ seg ∈ c.newSegment info p,
        c.status = .established ∧ c.receiveBuffer.items.length < c.receiveBuffer.maxSize)
  | ignored (t : TcpService) (c' : TcpConn) (invoked : invokedAt info p s i = none)
      (receive : tcpReceiveAt info p s i = some t) (noSegment : c.newSegment info p = none)
      (stored : Stored s i c' t) (buffer : c'.receiveBuffer = c.receiveBuffer)
      (status : c'.status = c.status)
  | full (seg : TcpSegment) (invoked : invokedAt info p s i = none)
      (receive : tcpReceiveAt info p s i = none) (segment : c.newSegment info p = some seg)
      (noRoom : ¬c.receiveBuffer.items.length < c.receiveBuffer.maxSize)

theorem tcpReceiveCase_synSent (info : PacketInfo) (p : TcpPacket)
    (hc : s.tcpConns.items[i]? = some c) (hmatch : c.matchesPacket info p = true)
    (hstatus : c.status = .synSent) : ReceiveCase info p s i c := by
  have hlookup : s.tcpConns.lookup i = some c := hc
  have hseg : c.newSegment info p = none := by simp [TcpConn.newSegment, hstatus]
  have hreceive : tcpReceiveAt info p s i = tcpHandleSynResponse s i c p := by
    simp [tcpReceiveAt, hlookup, hmatch, hstatus]
  have hinvoked : invokedAt info p s i =
      if p.hasFlag tcpFlagSyn && p.header.acknowledgementNumber == c.sendNextSeqnum + 1 then
        some ((s.setConn i (c.onSynResponse p)).tcpSend i (c.onSynResponse p)
          (c.onSynResponse p).sendNextSeqnum (c.onSynResponse p).recvNextSeqnum tcpFlagAck [])
      else none := by
    simp [invokedAt, hlookup, hmatch, hstatus]
  rw [tcpHandleSynResponse, hasFlag_syn_and] at hreceive
  by_cases hsyn : p.hasFlag tcpFlagSyn = true
  · rw [if_pos hsyn, tcpCompleteHandshake] at hreceive
    by_cases hack : p.header.acknowledgementNumber = c.sendNextSeqnum + 1
    · rw [if_pos hack] at hreceive
      refine .invokes _ (c.onSynResponse p) (hinvoked.trans (if_pos (by simp [hsyn, hack])))
        (hreceive.trans ?_) ⟨setConn_getElem? hc _, rfl, rfl⟩ ?_ ?_ fun seg hmem => ?_
      · rw [TcpConn.onSynResponse, if_pos hack]
      · rw [hseg, TcpConn.onSynResponse, if_pos hack]
        exact (List.append_nil _).symm
      · rw [TcpConn.onSynResponse, if_pos hack]
      · rw [hseg] at hmem
        cases hmem
    · rw [if_neg hack] at hreceive
      refine .ignored _ _ (hinvoked.trans (if_neg ?_)) hreceive hseg
        ⟨setConn_getElem? hc _, rfl, rfl⟩ rfl rfl
      rwa [hsyn, Bool.true_and, beq_iff_eq]
  · rw [if_neg hsyn] at hreceive
    exact .ignored _ c (hinvoked.trans (if_neg (by simp [hsyn]))) hreceive hseg
      ⟨getElem?_unchanged hc, rfl, rfl⟩ rfl rfl

theorem tcpReceiveCase_established (info : PacketInfo) (p : TcpPacket)
    (hc : s.tcpConns.items[i]? = some c) (hmatch : c.matchesPacket info p = true)
    (hstatus : c.status = .established) : ReceiveCase info p s i c := by
  have hlookup : s.tcpConns.lookup i = some c := hc
  have hreceive : tcpReceiveAt info p s i = tcpConnRecv s i c p p.dataLen := by
    simp [tcpReceiveAt, hlookup, hmatch, hstatus]
  simp only [tcpConnRecv, bumpOldestUnacked_recvNextSeqnum, bumpOldestUnacked_receiveBuffer,
    bumpOldestUnacked_recvInitialSeqnum] at hreceive
  by_cases htake : c.takesData p = true
  · obtain ⟨⟨hlen, hold⟩, hahead⟩ : (p.dataLen ≠ 0 ∧
        ¬p.header.sequenceNumber + p.dataLen ≤ c.recvNextSeqnum) ∧
        ¬c.recvNextSeqnum < p.header.sequenceNumber := by
      simpa only [TcpConn.takesData, Bool.and_eq_true, bne_iff_ne, Bool.not_eq_true',
        decide_eq_false_iff_not] using htake
    rw [if_neg hlen, if_neg hold, if_neg hahead] at hreceive
    have hseg : c.newSegment info p = some ⟨p.data.take p.dataLen.toNat, p.dataLen,
        p.header.sequenceNumber - c.recvInitialSeqnum⟩ := by
      simp [TcpConn.newSegment, hmatch, hstatus, htake]
    have hinvoked : invokedAt info p s i = (c.receiveBuffer.insert ⟨p.data.take p.dataLen.toNat,
        p.dataLen, p.header.sequenceNumber - c.recvInitialSeqnum⟩).map fun buffer =>
          ((s.setConn i (bumpOldestUnacked c p)).tcpSend i (c.onData p)
            (c.onData p).sendNextSeqnum (c.onData p).recvNextSeqnum tcpFlagAck []).setConn i
            { c.onData p with receiveBuffer := buffer } := by
      simp only [invokedAt, hlookup, hmatch, hstatus, htake, Option.bind_eq_bind, Option.bind_some,
        Bool.not_true, Bool.false_eq_true, if_false, if_true]
      cases c.receiveBuffer.insert _ <;> rfl
    by_cases hroom : c.receiveBuffer.items.length < c.receiveBuffer.maxSize
    · obtain ⟨buffer, hinsert, hitems, -⟩ := ArrayM.exists_insert
        ⟨p.data.take p.dataLen.toNat, p.dataLen, p.header.sequenceNumber - c.recvInitialSeqnum⟩
        hroom
      rw [hinsert] at hinvoked hreceive
      refine .invokes _ { c.onData p with receiveBuffer := buffer } hinvoked (hreceive.trans ?_)
        ⟨setConn_setConn_getElem? hc (bumpOldestUnacked c p) _, rfl, rfl⟩ ?_ ?_
        fun seg hmem => ⟨hstatus, hroom⟩
      · rw [TcpConn.onData, if_pos htake]
        simp only [bumpOldestUnacked_recvInitialSeqnum, bumpOldestUnacked_receiveBuffer,
          Option.bind_eq_bind, Option.bind_some]
      · rw [hseg]
        exact hitems
      · show (c.onData p).status = .established
        rw [TcpConn.onData, if_pos htake]
        exact (bumpOldestUnacked_status c p).trans hstatus
    · have hinsert : c.receiveBuffer.insert ⟨p.data.take p.dataLen.toNat, p.dataLen,
          p.header.sequenceNumber - c.recvInitialSeqnum⟩ = none := dif_neg hroom
      rw [hinsert] at hinvoked hreceive
      exact .full _ hinvoked hreceive hseg hroom
  · have hseg : c.newSegment info p = none := by simp [TcpConn.newSegment, htake]
    have hinvoked : invokedAt info p s i = none := by
      simp [invokedAt, hlookup, hmatch, hstatus, htake]
    have hstored := setConn_getElem? hc (bumpOldestUnacked c p)
    have hkept := bumpOldestUnacked_receiveBuffer c p
    have hstatus' := bumpOldestUnacked_status c p
    split at hreceive
    · exact .ignored _ _ hinvoked hreceive hseg ⟨hstored, rfl, rfl⟩ hkept hstatus'
    · rename_i hlen
      split at hreceive
      · exact .ignored _ _ hinvoked hreceive hseg ⟨hstored, rfl, rfl⟩ hkept hstatus'
      · rename_i hold
        split at hreceive
        · exact .ignored _ _ hinvoked hreceive hseg ⟨hstored, rfl, rfl⟩ hkept hstatus'
        · rename_i hahead
          exact absurd (by simpa [TcpConn.takesData, hold, hahead] using hlen) htake

theorem tcpReceiveCase (info : PacketInfo) (p : TcpPacket) (hc : s.tcpConns.items[i]? = some c) :
    ReceiveCase info p s i c := by
  have hlookup : s.tcpConns.lookup i = some c := hc
  by_cases hmatch : c.matchesPacket info p = true
  · cases hstatus : c.status with
    | synSent => exact tcpReceiveCase_synSent info p hc hmatch hstatus
    | established => exact tcpReceiveCase_established info p hc hmatch hstatus
    | synAckRecv =>
      exact .ignored s c (by simp [invokedAt, hlookup, hmatch, hstatus])
        (by simp [tcpReceiveAt, hlookup, hmatch, hstatus]) (by simp [TcpConn.newSegment, hstatus])
        ⟨getElem?_unchanged hc, rfl, rfl⟩ rfl rfl
  · exact .ignored s c (by simp [invokedAt, hlookup, hmatch])
      (by simp [tcpReceiveAt, hlookup, hmatch]) (by simp [TcpConn.newSegment, hmatch])
      ⟨getElem?_unchanged hc, rfl, rfl⟩ rfl rfl

end Handling

end Axle.Net.Tcp
