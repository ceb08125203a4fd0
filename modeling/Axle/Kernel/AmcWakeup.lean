import Axle.Kernel.AmcMessage
import Axle.Kernel.TaskState
import Axle.Lib.StepRun
import Mathlib.Logic.Function.Basic
import Mathlib.Tactic

/-!
# Waiting for a message against sending one

A receiver looks through its inbox under its service's lock; when nothing there is wanted it
releases the lock and only then stores `AMC_AWAIT_MESSAGE` in its status.  A sender appends to
the inbox under the same lock, and unblocks the receiver only if it finds that flag in the
status.  Each step between two of these actions is a separate one here, so that any other party
may run there.

A send that falls completely between the release of the lock and the store of the status finds
the receiver runnable, unblocks nobody, and the receiver goes to sleep with the message in its
inbox.

* `receiverStep`, `senderStep` — the two loops, one atomic action at a time;
* `LostWakeup` — nobody is sending, the receiver sleeps, and a message it wants arrived since it
  last looked;
* `no_lost_wakeup` — **PROVED**: the gap before the store is the only way there.  A run in which
  no sender tests the status, for a message the receiver wants, while the receiver is in that gap
  never reaches a lost wakeup;
* `lost_wakeup_in_gap` — the schedule that reaches one.
-/

namespace Axle.Kernel.AmcWakeup

open Axle.Kernel.Amc Axle.Kernel.TaskState Axle.Lib.StepRun

/-! ### The two loops -/

/-- Where the receiver is in `_amc_message_await_from_services_ex`. -/
inductive ReceiverPc where
  | running
  | acquire (sources : List ServiceName)
  | select (sources : List ServiceName)
  | deliver (m : Message)
  | release (sources : List ServiceName)
  /-- The lock is released and the status not yet stored. -/
  | block (sources : List ServiceName)
  | blocked (sources : List ServiceName)
  deriving DecidableEq

/-- Where a sender is in `_amc_message_add_to_delivery_queue`. -/
inductive SenderPc where
  | idle
  | acquire (m : Message)
  | append (m : Message)
  | test (m : Message)
  | unblock (m : Message)
  | release
  deriving DecidableEq

/-- One receiving service and any number of sending tasks. -/
structure AwaitState where
  receiver : ReceiverPc
  senders : TaskPtr → SenderPc
  /-- Who holds the service's spinlock. -/
  holder : Option TaskPtr
  inbox : List Message
  /-- The receiver's `blocked_info`. -/
  info : BlockedInfo
  /-- What was appended since the receiver last looked; the code does not keep it. -/
  sinceCheck : List Message

def AwaitState.init : AwaitState :=
  ⟨.running, fun _ => .idle, none, [], BlockedInfo.new, []⟩

inductive AwaitEvent where
  /-- The receiver calls `amc_message_await_from_services`. -/
  | await (sources : List ServiceName)
  | receiver
  /-- A task calls `amc_message_send` and has found the receiver's service. -/
  | send (sender : TaskPtr) (m : Message)
  | sender (sender : TaskPtr)

variable (me : TaskPtr)

/-- The receiver's next action; none while it spins on the lock or is not runnable. -/
def receiverStep (s : AwaitState) : Option AwaitState :=
  match s.receiver with
  | .running => none
  | .acquire sources =>
    if s.holder = none then some { s with receiver := .select sources, holder := some me }
    else none
  | .select sources =>
    match amcSelectMessageToDeliver sources none s.inbox with
    | none => none
    | some (some m, inbox) =>
      some { s with receiver := .deliver m, inbox := inbox, sinceCheck := [] }
    | some (none, inbox) =>
      some { s with receiver := .release sources, inbox := inbox, sinceCheck := [] }
  | .deliver _ => some { s with receiver := .running, holder := none }
  | .release sources => some { s with receiver := .block sources, holder := none }
  | .block sources =>
    (taskingBlockTask amcAwaitMessage s.info).map fun info =>
      { s with receiver := .blocked sources, info := info }
  | .blocked sources =>
    if s.info.status = runnable then some { s with receiver := .acquire sources } else none

def AwaitState.setSender (s : AwaitState) (i : TaskPtr) (pc : SenderPc) : AwaitState :=
  { s with senders := Function.update s.senders i pc }

/-- A sender's next action.  Nobody sleeps on a timestamp here, so the sleep list is empty and
the assertion that the receiver is in it would fail. -/
def senderStep (s : AwaitState) (i : TaskPtr) : Option AwaitState :=
  match s.senders i with
  | .idle => none
  | .acquire m =>
    if s.holder = none then some { s.setSender i (.append m) with holder := some i } else none
  | .append m =>
    some { s.setSender i (.test m) with inbox := s.inbox ++ [m], sinceCheck := s.sinceCheck ++ [m] }
  | .test m =>
    if hasFlag s.info.status amcAwaitMessage then
      if hasFlag s.info.status amcAwaitTimestamp then none
      else some (s.setSender i (.unblock m))
    else some (s.setSender i .release)
  | .unblock _ =>
    some { s.setSender i .release with
      info := taskingUnblockTaskWithReason i me amcAwaitMessage s.info }
  | .release => some { s.setSender i .idle with holder := none }

/-- The receiver itself does not send while it waits. -/
def awaitNext (s : AwaitState) : AwaitEvent → Option AwaitState
  | .await sources =>
    if s.receiver = .running then some { s with receiver := .acquire sources } else none
  | .receiver => receiverStep me s
  | .send i m => if i ≠ me ∧ s.senders i = .idle then some (s.setSender i (.acquire m)) else none
  | .sender i => senderStep me s i

/-- Nobody is sending, the receiver is blocked for a message, and its inbox holds one it wants
that was delivered after it last looked. -/
def LostWakeup (s : AwaitState) : Prop :=
  (∀ i, s.senders i = .idle) ∧ ∃ sources, s.receiver = .blocked sources ∧
    s.info.status = amcAwaitMessage ∧
    ∃ m ∈ s.sinceCheck, m ∈ s.inbox ∧ admitsSource sources m = true

/-- The step is a test of the status, for a message the receiver wants, in the gap between the
release of the lock and the store of the status. -/
def testsInGap (s : AwaitState) : AwaitEvent → Bool
  | .sender i =>
    match s.senders i, s.receiver with
    | .test m, .block sources => admitsSource sources m
    | _, _ => false
  | _ => false

def OutsideGap (s : AwaitState) (e : AwaitEvent) : Prop := testsInGap s e = false

instance (s : AwaitState) (e : AwaitEvent) : Decidable (OutsideGap s e) :=
  inferInstanceAs (Decidable (testsInGap s e = false))

/-! ### The invariant -/

def ReceiverPc.critical : ReceiverPc → Bool
  | .select _ | .deliver _ | .release _ => true
  | _ => false

def SenderPc.critical : SenderPc → Bool
  | .append _ | .test _ | .unblock _ | .release => true
  | _ => false

/-- The receiver looked, found nothing from `sources`, and is not runnable or will not be. -/
def AwaitState.Waits (s : AwaitState) (sources : List ServiceName) : Prop :=
  s.receiver = .release sources ∨ s.receiver = .block sources ∨
    s.receiver = .blocked sources ∧ s.info.status = amcAwaitMessage

structure AwaitInv (s : AwaitState) : Prop where
  status : s.info.status = runnable ∨
    (∃ sources, s.receiver = .blocked sources) ∧ s.info.status = amcAwaitMessage
  me_idle : s.senders me = .idle
  receiver_holds : s.receiver.critical = true → s.holder = some me
  sender_holds : ∀ i, (s.senders i).critical = true → s.holder = some i
  unblocking : ∀ i m, s.senders i = .unblock m → s.info.status = amcAwaitMessage
  /-- Whoever appended a message the receiver waits for is on its way to unblock it. -/
  pending : ∀ sources, s.Waits sources → ∀ m ∈ s.sinceCheck, admitsSource sources m = true →
    ∃ i, s.senders i = .test m ∨ s.senders i = .unblock m

variable {me}

theorem AwaitInv.init : AwaitInv me AwaitState.init := by
  refine ⟨Or.inl rfl, rfl, ?_, ?_, ?_, ?_⟩
  · intro h
    cases h
  · intro i h
    cases h
  · intro i m h
    cases h
  · intro sources _ m hm
    cases hm

variable {s t : AwaitState} {info : BlockedInfo} {sources : List ServiceName} {i : TaskPtr}
  {m : Message}

theorem AwaitInv.excludes (h : AwaitInv me s) (hr : s.receiver.critical = true) (i : TaskPtr) :
    (s.senders i).critical = false := by
  by_contra hi
  have hholder := h.sender_holds i (by simpa using hi)
  rw [h.receiver_holds hr] at hholder
  obtain rfl := Option.some.inj hholder
  rw [h.me_idle] at hi
  exact hi rfl

theorem AwaitInv.runnable (h : AwaitInv me s) (hr : ∀ sources, s.receiver ≠ .blocked sources) :
    s.info.status = runnable := by
  rcases h.status with hrun | ⟨⟨sources, hb⟩, -⟩
  · exact hrun
  · exact absurd hb (hr sources)

/-! ### The receiver's steps -/

section

variable (h : AwaitInv me s)

include h

/-- Whoever takes the lock, nobody else is in it. -/
theorem AwaitInv.lock (hfree : s.holder = none) (i : TaskPtr) :
    AwaitInv me { s with holder := some i } := by
  refine ⟨h.status, h.me_idle, ?_, ?_, h.unblocking, h.pending⟩
  · intro hr
    have hholder := h.receiver_holds hr
    rw [hfree] at hholder
    cases hholder
  · intro j hj
    have hholder := h.sender_holds j hj
    rw [hfree] at hholder
    cases hholder

theorem AwaitInv.moveReceiver (hrun : s.info.status = TaskState.runnable) (pc : ReceiverPc)
    (hcrit : pc.critical = true → s.holder = some me)
    (hwaits : ∀ sources, pc = .release sources ∨ pc = .block sources →
      s.Waits sources ∨ s.sinceCheck = []) : AwaitInv me { s with receiver := pc } := by
  refine ⟨Or.inl hrun, h.me_idle, hcrit, h.sender_holds, h.unblocking, ?_⟩
  intro sources hw m hm
  have hpc : pc = .release sources ∨ pc = .block sources := by
    rcases hw with hw | hw | ⟨-, hawait⟩
    · exact Or.inl hw
    · exact Or.inr hw
    · rw [show s.info.status = TaskState.runnable from hrun] at hawait
      exact absurd hawait (by decide)
  rcases hwaits sources hpc with hw' | hnil
  · exact h.pending sources hw' m hm
  · rw [show s.sinceCheck = [] from hnil] at hm
    cases hm

theorem AwaitInv.checked (inbox : List Message) :
    AwaitInv me { s with inbox := inbox, sinceCheck := [] } := by
  refine ⟨h.status, h.me_idle, h.receiver_holds, h.sender_holds, h.unblocking, ?_⟩
  intro sources _ m hm
  cases hm

theorem AwaitInv.unlockReceiver (hr : s.receiver.critical = true) (pc : ReceiverPc)
    (hpc : pc.critical = false) (hwaits : ∀ sources, pc = .release sources ∨ pc = .block sources →
      s.Waits sources ∨ s.sinceCheck = []) :
    AwaitInv me { s with receiver := pc, holder := none } := by
  have hrun : s.info.status = TaskState.runnable := by
    refine h.runnable ?_
    intro sources hb
    rw [hb] at hr
    cases hr
  have hmoved := h.moveReceiver hrun pc (by simp [hpc]) hwaits
  refine ⟨hmoved.status, hmoved.me_idle, by simp [hpc], ?_, hmoved.unblocking, hmoved.pending⟩
  intro i hi
  rw [h.excludes hr i] at hi
  cases hi

theorem AwaitInv.block (hr : s.receiver = .block sources)
    (hinfo : taskingBlockTask amcAwaitMessage s.info = some info) :
    AwaitInv me { s with receiver := .blocked sources, info := info } := by
  have hstatus : info.status = amcAwaitMessage := by
    exact Option.some.inj hinfo ▸ rfl
  refine ⟨Or.inr ⟨⟨sources, rfl⟩, hstatus⟩, h.me_idle, ?_, h.sender_holds, ?_, ?_⟩
  · intro hc
    cases hc
  · exact fun _ _ _ => hstatus
  · rintro sources' (hw | hw | ⟨hw, -⟩)
    · cases hw
    · cases hw
    · obtain rfl : sources = sources' := by injection hw
      exact h.pending sources (Or.inr (Or.inl hr))

theorem receiverStep_inv (hs : receiverStep me s = some t) : AwaitInv me t := by
  unfold receiverStep at hs
  split at hs
  · cases hs
  · rename_i sources hr
    split at hs
    · rename_i hfree
      have hrun := h.runnable (by simp [hr])
      exact Option.some.inj hs ▸
        (h.lock hfree me).moveReceiver hrun (.select sources) (fun _ => rfl) (by simp)
    · cases hs
  · rename_i sources hr
    have hrun := h.runnable (by simp [hr])
    have hholds := h.receiver_holds (by rw [hr]; rfl)
    split at hs
    · cases hs
    · exact Option.some.inj hs ▸
        (h.checked _).moveReceiver hrun _ (fun _ => hholds) (fun _ _ => Or.inr rfl)
    · exact Option.some.inj hs ▸
        (h.checked _).moveReceiver hrun _ (fun _ => hholds) (fun _ _ => Or.inr rfl)
  · rename_i m hr
    exact Option.some.inj hs ▸ h.unlockReceiver (by rw [hr]; rfl) .running rfl (by simp)
  · rename_i sources hr
    refine Option.some.inj hs ▸ h.unlockReceiver (by rw [hr]; rfl) (.block sources) rfl ?_
    intro sources' hpc
    obtain rfl : sources = sources' := by simpa using hpc
    exact Or.inl (Or.inl hr)
  · rename_i sources hr
    obtain ⟨info, hinfo, rfl⟩ := Option.map_eq_some_iff.mp hs
    exact h.block hr hinfo
  · rename_i sources hr
    split at hs
    · rename_i hrun
      exact Option.some.inj hs ▸ h.moveReceiver hrun (.acquire sources) (by simp [ReceiverPc.critical])
        (by simp)
    · cases hs

end

/-! ### The senders' steps -/

@[simp] theorem setSender_self (s : AwaitState) (i : TaskPtr) (pc : SenderPc) :
    (s.setSender i pc).senders i = pc := by
  simp [AwaitState.setSender]

theorem setSender_of_ne (s : AwaitState) {i j : TaskPtr} (pc : SenderPc) (h : j ≠ i) :
    (s.setSender i pc).senders j = s.senders j := by
  simp [AwaitState.setSender, h]

section

variable (h : AwaitInv me s)

include h

/-- A sender that moves on, apart from the lock: a message it was on its way to unblock the
receiver for either is still the one it is at, or is not waited for any more. -/
theorem AwaitInv.moveSender (hi : i ≠ me) (pc : SenderPc)
    (hcrit : pc.critical = true → s.holder = some i)
    (hunblock : ∀ m, pc = .unblock m → s.info.status = amcAwaitMessage)
    (hleft : ∀ sources, s.Waits sources → ∀ m, admitsSource sources m = true →
      s.senders i = .test m ∨ s.senders i = .unblock m → pc = .test m ∨ pc = .unblock m) :
    AwaitInv me (s.setSender i pc) := by
  refine ⟨h.status, ?_, h.receiver_holds, ?_, ?_, ?_⟩
  · rw [setSender_of_ne s pc (Ne.symm hi)]
    exact h.me_idle
  · intro j hj
    by_cases hji : j = i
    · subst hji
      rw [setSender_self] at hj
      exact hcrit hj
    · rw [setSender_of_ne s pc hji] at hj
      exact h.sender_holds j hj
  · intro j m hj
    by_cases hji : j = i
    · subst hji
      rw [setSender_self] at hj
      exact hunblock m hj
    · rw [setSender_of_ne s pc hji] at hj
      exact h.unblocking j m hj
  · intro sources hw m hm hadm
    obtain ⟨j, hj⟩ := h.pending sources hw m hm hadm
    refine ⟨j, ?_⟩
    by_cases hji : j = i
    · subst hji
      rw [setSender_self]
      exact hleft sources hw m hadm hj
    · rw [setSender_of_ne s pc hji]
      exact hj

/-- The message arrives, with its sender about to test the status. -/
theorem AwaitInv.append (hi : s.senders i = .test m) :
    AwaitInv me { s with inbox := s.inbox ++ [m], sinceCheck := s.sinceCheck ++ [m] } := by
  refine ⟨h.status, h.me_idle, h.receiver_holds, h.sender_holds, h.unblocking, ?_⟩
  intro sources hw m' hm' hadm
  rcases List.mem_append.mp hm' with hold | hnew
  · exact h.pending sources hw m' hold hadm
  · obtain rfl := List.mem_singleton.mp hnew
    exact ⟨i, Or.inl hi⟩

theorem AwaitInv.ne_me (hi : s.senders i ≠ .idle) : i ≠ me := by
  intro he
  exact hi (he ▸ h.me_idle)

/-- While a sender is in the lock, a waiting receiver is in the gap or asleep. -/
theorem AwaitInv.waits_of_critical (hi : (s.senders i).critical = true) (hw : s.Waits sources) :
    s.receiver = .block sources ∨ s.info.status = amcAwaitMessage := by
  rcases hw with hw | hw | ⟨-, hawait⟩
  · have hfree := h.excludes (by rw [hw]; rfl) i
    rw [hi] at hfree
    cases hfree
  · exact Or.inl hw
  · exact Or.inr hawait

/-- A test that finds the receiver awake, for a message it does not want or outside the gap. -/
theorem AwaitInv.testAwake (hi : s.senders i = .test m) (hok : OutsideGap s (.sender i))
    (hawake : ¬hasFlag s.info.status amcAwaitMessage = true) :
    AwaitInv me (s.setSender i .release) := by
  have hcrit : (s.senders i).critical = true := by rw [hi]; rfl
  refine h.moveSender (h.ne_me (by simp [hi])) .release (fun _ => h.sender_holds i hcrit)
    (fun _ hpc => by cases hpc) ?_
  intro sources hw m' hadm hat
  obtain rfl : m = m' := by simpa [hi] using hat
  rcases h.waits_of_critical hcrit hw with hgap | hawait
  · have hnot : admitsSource sources m = false := by
      simpa [OutsideGap, testsInGap, hi, hgap] using hok
    rw [hnot] at hadm
    cases hadm
  · rw [hawait] at hawake
    exact absurd (by decide) hawake

theorem AwaitInv.testAsleep (hi : s.senders i = .test m)
    (hasleep : hasFlag s.info.status amcAwaitMessage = true) :
    AwaitInv me (s.setSender i (.unblock m)) := by
  have hcrit : (s.senders i).critical = true := by rw [hi]; rfl
  refine h.moveSender (h.ne_me (by simp [hi])) _ (fun _ => h.sender_holds i hcrit) ?_ ?_
  · intro _ _
    rcases h.status with hrun | ⟨-, hawait⟩
    · rw [hrun] at hasleep
      exact absurd hasleep (by decide)
    · exact hawait
  · intro sources _ m' _ hat
    obtain rfl : m = m' := by simpa [hi] using hat
    exact Or.inr rfl

theorem AwaitInv.unblock (hi : s.senders i = .unblock m)
    (hinfo : info.status = TaskState.runnable) :
    AwaitInv me { s.setSender i .release with info := info } := by
  have hcrit : (s.senders i).critical = true := by rw [hi]; rfl
  have hholds := h.sender_holds i hcrit
  have hawait := h.unblocking i m hi
  -- it was blocked, so it is in none of the places where it still waits when runnable
  have hblocked : ∃ sources, s.receiver = .blocked sources := by
    rcases h.status with hrun | ⟨hb, -⟩
    · rw [hrun] at hawait
      exact absurd hawait (by decide)
    · exact hb
  obtain ⟨sources₀, hblocked⟩ := hblocked
  refine ⟨Or.inl hinfo, ?_, h.receiver_holds, ?_, ?_, ?_⟩
  · show (s.setSender i .release).senders me = .idle
    rw [setSender_of_ne s _ (Ne.symm (h.ne_me (by simp [hi])))]
    exact h.me_idle
  · intro j hj
    by_cases hji : j = i
    · exact hji ▸ hholds
    · refine h.sender_holds j ?_
      rwa [← setSender_of_ne s .release hji]
  · intro j m' hj
    have hj' : (s.setSender i .release).senders j = .unblock m' := hj
    by_cases hji : j = i
    · rw [hji, setSender_self] at hj'
      cases hj'
    · rw [setSender_of_ne s _ hji] at hj'
      have hholder := h.sender_holds j (by rw [hj']; rfl)
      rw [hholds] at hholder
      exact absurd (Option.some.inj hholder).symm hji
  · rintro sources (hw | hw | ⟨-, hw⟩)
    · rw [show s.receiver = _ from hw] at hblocked
      cases hblocked
    · rw [show s.receiver = _ from hw] at hblocked
      cases hblocked
    · rw [show info.status = _ from hw] at hinfo
      exact absurd hinfo (by decide)

theorem AwaitInv.unlockSender (hi : s.senders i = .release) :
    AwaitInv me { s.setSender i .idle with holder := none } := by
  have hne := h.ne_me (i := i) (by simp [hi])
  have hholds := h.sender_holds i (by rw [hi]; rfl)
  have hmoved : AwaitInv me (s.setSender i .idle) := by
    refine h.moveSender hne .idle (fun hc => by cases hc) (fun _ hpc => by cases hpc) ?_
    intro sources _ m _ hat
    simp [hi] at hat
  refine ⟨hmoved.status, hmoved.me_idle, ?_, ?_, hmoved.unblocking, hmoved.pending⟩
  · intro hr
    have hholder := h.receiver_holds hr
    rw [hholds] at hholder
    exact absurd (Option.some.inj hholder) hne
  · intro j hj
    have hj' : ((s.setSender i .idle).senders j).critical = true := hj
    by_cases hji : j = i
    · rw [hji, setSender_self] at hj'
      cases hj'
    · rw [setSender_of_ne s _ hji] at hj'
      have hholder := h.sender_holds j hj'
      rw [hholds] at hholder
      exact absurd (Option.some.inj hholder).symm hji

theorem senderStep_inv (hok : OutsideGap s (.sender i)) (hs : senderStep me s i = some t) :
    AwaitInv me t := by
  unfold senderStep at hs
  split at hs
  · cases hs
  · rename_i m hi
    split at hs
    · rename_i hfree
      refine Option.some.inj hs ▸ (h.lock hfree i).moveSender (h.ne_me (by simp [hi])) (.append m)
        (fun _ => rfl) (by simp) ?_
      intro sources _ m' _ hat
      simp [hi] at hat
    · cases hs
  · rename_i m hi
    have hholds := h.sender_holds i (by rw [hi]; rfl)
    have htest : AwaitInv me (s.setSender i (.test m)) := by
      refine h.moveSender (h.ne_me (by simp [hi])) _ (fun _ => hholds) (by simp) ?_
      intro sources _ m' _ hat
      simp [hi] at hat
    exact Option.some.inj hs ▸ htest.append (setSender_self s i _)
  · rename_i m hi
    split at hs
    · rename_i hasleep
      split at hs
      · cases hs
      · exact Option.some.inj hs ▸ h.testAsleep hi hasleep
    · rename_i hawake
      exact Option.some.inj hs ▸ h.testAwake hi hok hawake
  · rename_i m hi
    have hne := h.ne_me (i := i) (by simp [hi])
    exact Option.some.inj hs ▸ h.unblock hi (taskingUnblock_of_ne (Ne.symm hne) _ _)
  · rename_i hi
    exact Option.some.inj hs ▸ h.unlockSender hi

end

/-! ### Every run -/

theorem awaitNext_inv (s : AwaitState) (e : AwaitEvent) (t : AwaitState) (h : AwaitInv me s)
    (hok : OutsideGap s e) (hs : awaitNext me s e = some t) : AwaitInv me t := by
  cases e with
  | await sources =>
    rw [awaitNext] at hs
    split at hs
    · rename_i hr
      have hrun := h.runnable (by simp [hr])
      exact Option.some.inj hs ▸ h.moveReceiver hrun (.acquire sources)
        (by simp [ReceiverPc.critical]) (by simp)
    · cases hs
  | receiver => exact receiverStep_inv h hs
  | send i m =>
    rw [awaitNext] at hs
    split at hs
    · rename_i hi
      refine Option.some.inj hs ▸ h.moveSender hi.1 (.acquire m) (by simp [SenderPc.critical])
        (by simp) ?_
      intro sources _ m' _ hat
      simp [hi.2] at hat
    · cases hs
  | sender i => exact senderStep_inv h hok hs

/-- **No lost wakeup outside the gap.**  Whatever the schedule, as long as no sender tests the
status in the gap for a message the receiver wants, no state the run passes through is a lost
wakeup. -/
theorem no_lost_wakeup (me : TaskPtr) (events : List AwaitEvent)
    (hok : Meets (awaitNext me) OutsideGap AwaitState.init events) (s : AwaitState)
    (hs : Passes (awaitNext me) AwaitState.init events s) : ¬LostWakeup s := by
  have h : AwaitInv me s := passes_invariant awaitNext_inv AwaitInv.init hok hs
  rintro ⟨hidle, sources, hblocked, hawait, m, hm, -, hadm⟩
  obtain ⟨i, hi⟩ := h.pending sources (Or.inr (Or.inr ⟨hblocked, hawait⟩)) m hm hadm
  rw [hidle i] at hi
  simp at hi

/-- A message to a service that waits for anything. -/
def hello : Message := ⟨['a'], ['b'], [], 0⟩

/-- The receiver is asleep when the message comes, and is woken. -/
def wakeSchedule : List AwaitEvent :=
  [.await [], .receiver, .receiver, .receiver, .receiver, .send 1 hello, .sender 1, .sender 1,
    .sender 1, .sender 1, .sender 1, .receiver]

theorem no_lost_wakeup_wakeSchedule :
    ∃ s, run (awaitNext 0) AwaitState.init wakeSchedule = some s ∧ s.inbox = [hello] ∧
      s.info.status = runnable ∧ ¬LostWakeup s := by
  refine ⟨_, rfl, rfl, rfl, ?_⟩
  exact no_lost_wakeup 0 wakeSchedule (by decide) _ ⟨wakeSchedule, List.prefix_rfl, rfl⟩

/-- The same actions, with the whole send in the gap. -/
def gapSchedule : List AwaitEvent :=
  [.await [], .receiver, .receiver, .receiver, .send 1 hello, .sender 1, .sender 1, .sender 1,
    .sender 1, .receiver]

/-- **The lost wakeup.**  The receiver finds its inbox empty and releases the lock; the message
is appended and its sender finds the receiver runnable; the receiver stores its status and
sleeps, with the message in its inbox and nobody left to wake it. -/
theorem lost_wakeup_in_gap :
    ∃ s, run (awaitNext 0) AwaitState.init gapSchedule = some s ∧ LostWakeup s := by
  refine ⟨_, rfl, ?_, [], rfl, rfl, hello, by decide, by decide, rfl⟩
  intro i
  by_cases hi : i = 1
  · subst hi
    rfl
  · simp [AwaitState.setSender, AwaitState.init]

end Axle.Kernel.AmcWakeup
