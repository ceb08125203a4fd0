import Axle.Kernel.ArrayM
import Axle.Kernel.TaskState
import Axle.Lib.StepRun
import Mathlib.Logic.Function.Basic
import Mathlib.Tactic

/-!
# Driver interrupts

`adi.c` keeps one record per interrupt line: the driver's task and the number of interrupts the
driver has still to acknowledge.  The handler counts an interrupt and unblocks the driver with
the reason `IRQ_WAIT`; the driver waits in `adi_event_await` for an interrupt or a message, tells
the two apart by the one reason its `blocked_info` keeps, and acknowledges with `adi_send_eoi`.
Messages, the end of a sleep and the interrupts of the task's other lines store to the same
field.

Handlers run on any CPU: counting and unblocking are two steps here, and so are the tests of
`adi_event_await`, its store of the status, and its return.  Which task runs is left open: a task
that is runnable may take its next action at any time.

* `adiNext` — `adi_register_driver`, the interrupt handler, `adi_event_await`, `adi_send_eoi`,
  messages, sleeping and waking, the exit and the destruction of a task;
* `AdiOk` — line 127 is not used; a recorded driver does not exit; the handler and the wake-up
  pass unblock no driver that waits in `adi_event_await` for something else;
* `adi_bookkeeping` — **PROVED**: in a run of such steps every access is inside the table, every
  recorded task is alive, the counts are exact, `adi_event_await` reports only pending interrupts
  and the two assertions hold;
* `adi_bookkeeping_fails` — runs that break each part.
-/

namespace Axle.Kernel.AdiDrivers

open Axle.Kernel.TaskState Axle.Lib.StepRun

/-! ### The driver table and the tasks -/

/-- The number of entries of `_adi_drivers`. -/
def maxIrq : ℕ := 127

/-- The bound the functions test a line against. -/
def maxIntVector : ℕ := 128

structure AdiDriver where
  pendingIrqCount : BitVec 32
  name : String
  task : Option TaskPtr
  deriving DecidableEq, Repr

inductive Life where
  | unborn
  | alive
  | zombie
  deriving DecidableEq, Repr

/-- Where a task is in `adi_event_await`. -/
inductive AwaitPc where
  | running
  /-- It has found nothing to do and is about to store its status. -/
  | blocking (irq : ℕ)
  /-- Inside `tasking_block_task`. -/
  | waiting (irq : ℕ)
  deriving DecidableEq, Repr

structure DriverTask where
  life : Life
  blockedInfo : BlockedInfo
  pc : AwaitPc
  /-- The messages in the inbox of the task's service. -/
  inbox : ℕ
  deriving DecidableEq, Repr

/-- A failure that stops the kernel. -/
inductive AdiFault where
  | outOfBounds
  /-- "ADI driver awoke for unknown reason" -/
  | unknownReason
  /-- "adi_send_eoi without any interrupt to ack" -/
  | eoiWithoutInterrupt
  deriving DecidableEq, Repr

structure AdiState where
  drivers : List AdiDriver
  tasks : TaskPtr → DriverTask
  /-- Lines with `_adi_interrupt_handler` as their callback. -/
  callbacks : List ℕ
  /-- Lines whose handler has counted the interrupt and has still to unblock the driver. -/
  handlers : List ℕ
  asleepProcs : ArrayM TaskPtr
  fault : Option AdiFault
  /-- Lines whose last report was not acknowledged; like the rest, not kept by the code. -/
  reported : ℕ → Bool
  received : ℕ → ℕ
  acknowledged : ℕ → ℕ
  /-- An interrupt was reported with none pending. -/
  falseReport : Bool

def AdiState.init : AdiState where
  drivers := List.replicate maxIrq ⟨0#32, "", none⟩
  tasks := fun _ => ⟨.unborn, BlockedInfo.new, .running, 0⟩
  callbacks := []
  handlers := []
  asleepProcs := ArrayM.create 64
  fault := none
  reported := fun _ => false
  received := fun _ => 0
  acknowledged := fun _ => 0
  falseReport := false

def AdiState.setTask (s : AdiState) (t : TaskPtr) (task : DriverTask) : AdiState :=
  { s with tasks := Function.update s.tasks t task }

def AdiState.setInfo (s : AdiState) (t : TaskPtr) (info : BlockedInfo) : AdiState :=
  s.setTask t { s.tasks t with blockedInfo := info }

def AdiState.fail (s : AdiState) (fault : AdiFault) : AdiState := { s with fault := some fault }

/-- The task executes code of its own. -/
def AdiState.Runs (s : AdiState) (t : TaskPtr) : Prop :=
  (s.tasks t).life = .alive ∧ (s.tasks t).blockedInfo.status = runnable ∧ (s.tasks t).pc = .running

instance (s : AdiState) (t : TaskPtr) : Decidable (s.Runs t) :=
  inferInstanceAs (Decidable (_ ∧ _ ∧ _))

def validIrq (irq : ℕ) : Bool := 0 < irq ∧ irq < maxIntVector

/-! ### The operations -/

/-- `task_die`, as far as the driver table is concerned. -/
def taskDie (s : AdiState) (t : TaskPtr) : AdiState :=
  s.setTask t { s.tasks t with
    life := .zombie, blockedInfo := { (s.tasks t).blockedInfo with status := zombie } }

/-- A failed `task_assert` kills the task. -/
def adiRegisterDriver (s : AdiState) (t : TaskPtr) (name : String) (irq : ℕ) : AdiState :=
  if validIrq irq then
    match s.drivers[irq]? with
    | none => s.fail .outOfBounds
    | some driver =>
      if driver.task.isSome then taskDie s t
      else
        { s with
          drivers := s.drivers.set irq ⟨0#32, name, some t⟩
          callbacks := irq :: s.callbacks
          reported := Function.update s.reported irq false
          received := Function.update s.received irq 0
          acknowledged := Function.update s.acknowledged irq 0 }
  else taskDie s t

/-- `_adi_interrupt_handler` up to the count; it fails on a line without a driver. -/
def adiInterruptHandler (s : AdiState) (irq : ℕ) : Option AdiState :=
  if irq ∈ s.callbacks ∧ validIrq irq then
    match s.drivers[irq]? with
    | none => some (s.fail .outOfBounds)
    | some driver =>
      if driver.task.isSome then
        some { s with
          drivers := s.drivers.set irq
            { driver with pendingIrqCount := driver.pendingIrqCount + 1 }
          handlers := irq :: s.handlers
          received := Function.update s.received irq (s.received irq + 1) }
      else none
  else none

/-- The rest of the handler: unblock the driver, on a CPU that runs `current`. -/
def adiInterruptUnblock (s : AdiState) (irq : ℕ) (current : TaskPtr) : Option AdiState :=
  if irq ∈ s.handlers then
    match s.drivers[irq]? with
    | none => some (s.fail .outOfBounds)
    | some driver =>
      match driver.task with
      | none => none
      | some t => some { s.setInfo t (taskingUnblockTaskWithReason current t irqWait
          (s.tasks t).blockedInfo) with handlers := s.handlers.erase irq }
  else none

/-- An interrupt is pending on a line. -/
def AdiState.pending (s : AdiState) (irq : ℕ) : Bool :=
  s.drivers[irq]?.any fun driver => driver.pendingIrqCount != 0#32

/-- `adi_event_await` returns `true` for a line. -/
def reportInterrupt (s : AdiState) (irq : ℕ) : AdiState :=
  { s with
    reported := Function.update s.reported irq true
    falseReport := s.falseReport || !s.pending irq }

/-- `adi_event_await` up to the store of the status.  The first two assertions are about the
caller. -/
def adiEventAwait (s : AdiState) (t : TaskPtr) (irq : ℕ) : Option AdiState :=
  if validIrq irq then
    match s.drivers[irq]? with
    | none => some (s.fail .outOfBounds)
    | some driver =>
      if driver.task = some t then
        if driver.pendingIrqCount ≠ 0#32 then some (reportInterrupt s irq)
        else if 0 < (s.tasks t).inbox then some s
        else some (s.setTask t { s.tasks t with pc := .blocking irq })
      else none
  else none

/-- `tasking_block_task(task, IRQ_WAIT | AMC_AWAIT_MESSAGE)`. -/
def adiEventBlock (s : AdiState) (t : TaskPtr) : Option AdiState :=
  match (s.tasks t).pc with
  | .blocking irq => do
    let info ← taskingBlockTask (irqWait ||| amcAwaitMessage) (s.tasks t).blockedInfo
    return s.setTask t { s.tasks t with blockedInfo := info, pc := .waiting irq }
  | _ => none

/-- `adi_event_await` from the return of `tasking_block_task` on. -/
def adiEventResume (s : AdiState) (t : TaskPtr) : Option AdiState :=
  match (s.tasks t).pc with
  | .waiting irq =>
    if (s.tasks t).life = .alive ∧ (s.tasks t).blockedInfo.status = runnable then
      let unblockReason := (s.tasks t).blockedInfo.unblockReason
      let s := s.setTask t { s.tasks t with
        blockedInfo := { (s.tasks t).blockedInfo with unblockReason := 0#32 }, pc := .running }
      if unblockReason = irqWait then some (reportInterrupt s irq)
      else if unblockReason = amcAwaitMessage then some s
      else some (s.fail .unknownReason)
    else none
  | _ => none

/-- `adi_send_eoi` by the driver of a line, after `adi_event_await` reported an interrupt there. -/
def adiSendEoi (s : AdiState) (t : TaskPtr) (irq : ℕ) : Option AdiState :=
  if s.reported irq then
    match s.drivers[irq]? with
    | none => some (s.fail .outOfBounds)
    | some driver =>
      if driver.task = some t then
        if driver.pendingIrqCount = 0#32 then some (s.fail .eoiWithoutInterrupt)
        else some { s with
          drivers := s.drivers.set irq
            { driver with pendingIrqCount := driver.pendingIrqCount - 1 }
          reported := Function.update s.reported irq false
          acknowledged := Function.update s.acknowledged irq (s.acknowledged irq + 1) }
      else none
  else none

/-- `_amc_remove_service_from_sleep_list`; it fails when the service is not there. -/
def amcRemoveFromSleepList (s : AdiState) (t : TaskPtr) : Option AdiState := do
  let i ← s.asleepProcs.index t
  let asleepProcs ← s.asleepProcs.remove i
  return { s with asleepProcs := asleepProcs }

/-- `_amc_message_add_to_delivery_queue`, on a CPU that runs `current`. -/
def amcSend (s : AdiState) (t : TaskPtr) (current : TaskPtr) : Option AdiState :=
  let info := (s.tasks t).blockedInfo
  let sent := s.setTask t { s.tasks t with inbox := (s.tasks t).inbox + 1 }
  if hasFlag info.status amcAwaitMessage then
    let removed :=
      if hasFlag info.status amcAwaitTimestamp then amcRemoveFromSleepList sent t else some sent
    removed.map fun s => s.setInfo t (taskingUnblockTaskWithReason current t amcAwaitMessage info)
  else some sent

/-- `_amc_core_put_service_to_sleep`. -/
def amcSleep (s : AdiState) (t : TaskPtr) (ms now : BitVec 32) (awakeOnMessage : Bool) :
    Option AdiState := do
  let asleepProcs ← s.asleepProcs.insert t
  let reason := if awakeOnMessage then amcAwaitTimestamp ||| amcAwaitMessage else amcAwaitTimestamp
  let info ← taskingBlockTask reason
    { (s.tasks t).blockedInfo with wakeTimestamp := now + ms }
  return { s.setInfo t info with asleepProcs := asleepProcs }

/-- One service found by the loop of `amc_wake_sleeping_services`. -/
def amcWake (s : AdiState) (t : TaskPtr) (current : TaskPtr) (now : BitVec 32) :
    Option AdiState :=
  if (s.tasks t).blockedInfo.wakeTimestamp ≤ now then do
    let s ← amcRemoveFromSleepList s t
    return s.setInfo t
      (taskingUnblockTaskWithReason current t amcAwaitTimestamp (s.tasks t).blockedInfo)
  else none

/-! ### Runs -/

inductive AdiEvent where
  | spawn (t : TaskPtr)
  | register (t : TaskPtr) (name : String) (irq : ℕ)
  | interrupt (irq : ℕ)
  | interruptUnblock (irq : ℕ) (current : TaskPtr)
  | await (t : TaskPtr) (irq : ℕ)
  | block (t : TaskPtr)
  | resume (t : TaskPtr)
  | sendEoi (t : TaskPtr) (irq : ℕ)
  | send (t : TaskPtr) (current : TaskPtr)
  /-- The task takes a message out of its inbox. -/
  | receive (t : TaskPtr)
  /-- The task finds no message and blocks in `amc_message_await`. -/
  | awaitMessage (t : TaskPtr)
  | sleep (t : TaskPtr) (ms now : BitVec 32) (awakeOnMessage : Bool)
  | wake (t : TaskPtr) (current : TaskPtr) (now : BitVec 32)
  | exit (t : TaskPtr)
  /-- `_thread_destroy`, from the reaper. -/
  | destroy (t : TaskPtr)

def adiStep (s : AdiState) : AdiEvent → Option AdiState
  | .spawn t =>
    if (s.tasks t).life = .unborn then some (s.setTask t ⟨.alive, BlockedInfo.new, .running, 0⟩)
    else none
  | .register t name irq => if s.Runs t then some (adiRegisterDriver s t name irq) else none
  | .interrupt irq => adiInterruptHandler s irq
  | .interruptUnblock irq current => adiInterruptUnblock s irq current
  | .await t irq => if s.Runs t then adiEventAwait s t irq else none
  | .block t => adiEventBlock s t
  | .resume t => adiEventResume s t
  | .sendEoi t irq => if s.Runs t then adiSendEoi s t irq else none
  | .send t current => if (s.tasks t).life = .unborn then none else amcSend s t current
  | .receive t =>
    if s.Runs t ∧ 0 < (s.tasks t).inbox then
      some (s.setTask t { s.tasks t with inbox := (s.tasks t).inbox - 1 })
    else none
  | .awaitMessage t =>
    if s.Runs t then
      (taskingBlockTask amcAwaitMessage (s.tasks t).blockedInfo).map (s.setInfo t)
    else none
  | .sleep t ms now awakeOnMessage =>
    if s.Runs t then amcSleep s t ms now awakeOnMessage else none
  | .wake t current now => amcWake s t current now
  | .exit t => if s.Runs t then some (taskDie s t) else none
  | .destroy t =>
    if (s.tasks t).life = .zombie then
      some (s.setTask t { s.tasks t with life := .unborn })
    else none

/-- Nothing happens any more once the kernel has stopped. -/
def adiNext (s : AdiState) (e : AdiEvent) : Option AdiState :=
  if s.fault = none then adiStep s e else none

/-- The task is in the driver table. -/
def AdiState.Recorded (s : AdiState) (t : TaskPtr) : Prop :=
  ∃ driver ∈ s.drivers, driver.task = some t

instance (s : AdiState) (t : TaskPtr) : Decidable (s.Recorded t) :=
  inferInstanceAs (Decidable (∃ driver ∈ s.drivers, driver.task = some t))

def AwaitPc.waitingLine : AwaitPc → Option ℕ
  | .waiting irq => some irq
  | _ => none

/-- The registration of the line fails a `task_assert`. -/
def AdiState.refuses (s : AdiState) (irq : ℕ) : Bool :=
  !validIrq irq || (s.drivers[irq]?.any fun driver => driver.task.isSome)

/-- What keeps the bookkeeping right, on the state before each step. -/
def AdiOk (s : AdiState) : AdiEvent → Prop
  | .register t _ irq => irq ≠ maxIrq ∧ (s.refuses irq = true → ¬s.Recorded t)
  | .await _ irq => irq ≠ maxIrq
  | .interrupt irq => ∀ driver ∈ s.drivers[irq]?, driver.pendingIrqCount ≠ BitVec.allOnes 32
  | .interruptUnblock irq current =>
    ∀ driver ∈ s.drivers[irq]?, ∀ t ∈ driver.task, t ≠ current →
      ∀ line ∈ (s.tasks t).pc.waitingLine, line = irq ∧ s.pending irq = true
  | .wake t current _ => t ≠ current → (s.tasks t).pc.waitingLine = none
  | .exit t => ¬s.Recorded t
  | _ => True

instance (s : AdiState) : ∀ e, Decidable (AdiOk s e)
  | .register _ _ _ => inferInstanceAs (Decidable (_ ∧ (_ → _)))
  | .await _ _ => inferInstanceAs (Decidable (_ ≠ _))
  | .interrupt irq => inferInstanceAs (Decidable (∀ driver ∈ s.drivers[irq]?, _))
  | .interruptUnblock irq current => inferInstanceAs (Decidable (∀ driver ∈ s.drivers[irq]?,
      ∀ t ∈ driver.task, t ≠ current → ∀ line ∈ (s.tasks t).pc.waitingLine, _))
  | .wake _ _ _ => inferInstanceAs (Decidable (_ → _))
  | .exit _ => inferInstanceAs (Decidable (¬_))
  | .spawn _ | .block _ | .resume _ | .sendEoi _ _ | .send _ _ | .receive _ | .awaitMessage _
  | .sleep _ _ _ _ | .destroy _ => inferInstanceAs (Decidable True)

/-! ### The invariant -/

/-- The task is the driver of the line. -/
def AdiState.Drives (s : AdiState) (t : TaskPtr) (irq : ℕ) : Prop :=
  ∃ driver, s.drivers[irq]? = some driver ∧ driver.task = some t

/-- What is known of a task inside `adi_event_await`: it is the driver of the line, and once it
is unblocked, the reason is a message, or an interrupt that is pending. -/
def AwaitOk (s : AdiState) (t : TaskPtr) (task : DriverTask) : Prop :=
  match task.pc with
  | .running => True
  | .blocking irq => s.Drives t irq
  | .waiting irq => s.Drives t irq ∧ (task.blockedInfo.status = runnable →
      task.blockedInfo.unblockReason = amcAwaitMessage ∨
        task.blockedInfo.unblockReason = irqWait ∧ s.pending irq = true)

structure AdiInv (s : AdiState) : Prop where
  size : s.drivers.length = maxIrq
  callbacks : ∀ irq ∈ s.callbacks, irq < maxIrq
  handlers : ∀ irq ∈ s.handlers, irq < maxIrq
  alive : ∀ t, s.Recorded t → (s.tasks t).life = .alive
  counted : ∀ irq driver, s.drivers[irq]? = some driver →
    driver.pendingIrqCount.toNat + s.acknowledged irq = s.received irq
  reported : ∀ irq, s.reported irq = true → s.pending irq = true
  await : ∀ t, AwaitOk s t (s.tasks t)
  fault : s.fault = none
  falseReport : s.falseReport = false

variable {irq : ℕ} {s u : AdiState} {t current : TaskPtr} {task : DriverTask} {driver : AdiDriver}
  {name : String}

theorem AdiState.Drives.recorded (h : s.Drives t irq) : s.Recorded t := by
  obtain ⟨driver, hget, ht⟩ := h
  exact ⟨driver, List.mem_of_getElem? hget, ht⟩

theorem awaitOk_running (h : task.pc = .running) : AwaitOk s t task := by
  unfold AwaitOk
  rw [h]
  trivial

theorem AdiInv.init : AdiInv AdiState.init := by
  refine ⟨List.length_replicate, by simp [AdiState.init], by simp [AdiState.init], ?_, ?_, ?_,
    fun t => awaitOk_running rfl, rfl, rfl⟩
  · intro t h
    obtain ⟨driver, hmem, ht⟩ := h
    rw [List.eq_of_mem_replicate hmem] at ht
    cases ht
  · intro irq driver h
    rw [List.eq_of_mem_replicate (List.mem_of_getElem? h)]
    rfl
  · intro irq h
    cases h

section

variable (h : AdiInv s)

include h

/-- An access to a line below the table's size finds its record. -/
theorem AdiInv.lookup (hvalid : validIrq irq = true) (hirq : irq ≠ maxIrq) :
    ∃ driver, s.drivers[irq]? = some driver := by
  have hlt : irq < s.drivers.length := by
    rw [h.size]
    have hbounds : 0 < irq ∧ irq < maxIntVector := of_decide_eq_true hvalid
    simp only [maxIntVector, maxIrq] at hbounds hirq ⊢
    omega
  exact ⟨_, List.getElem?_eq_getElem hlt⟩

theorem AdiInv.setTask (halive : s.Recorded t → task.life = .alive) (hawait : AwaitOk s t task) :
    AdiInv (s.setTask t task) := by
  refine ⟨h.size, h.callbacks, h.handlers, ?_, h.counted, h.reported, ?_, h.fault, h.falseReport⟩
  · intro u hu
    by_cases hut : u = t
    · subst hut
      simpa [AdiState.setTask] using halive hu
    · simpa [AdiState.setTask, hut] using h.alive u hu
  · intro u
    show AwaitOk s u (Function.update s.tasks t task u)
    by_cases hut : u = t
    · subst hut
      rw [Function.update_self]
      exact hawait
    · rw [Function.update_of_ne hut]
      exact h.await u

theorem AdiInv.frame (handlers : List ℕ) (asleepProcs : ArrayM TaskPtr)
    (hhandlers : ∀ irq ∈ handlers, irq < maxIrq) :
    AdiInv { s with handlers := handlers, asleepProcs := asleepProcs } :=
  ⟨h.size, h.callbacks, hhandlers, h.alive, h.counted, h.reported, h.await, h.fault, h.falseReport⟩

theorem AdiInv.unblock (t current : TaskPtr) (reason : TaskStatus)
    (hok : t ≠ current → ∀ irq, (s.tasks t).pc = .waiting irq →
      reason = amcAwaitMessage ∨ reason = irqWait ∧ s.pending irq = true) :
    AdiInv (s.setInfo t
      (taskingUnblockTaskWithReason current t reason (s.tasks t).blockedInfo)) := by
  refine h.setTask (h.alive t) ?_
  have hold := h.await t
  unfold taskingUnblockTaskWithReason
  split
  · exact hold
  · rename_i hne
    unfold AwaitOk at hold ⊢
    show match (s.tasks t).pc with
      | .running => True
      | .blocking irq => s.Drives t irq
      | .waiting irq => s.Drives t irq ∧ (runnable = runnable →
          reason = amcAwaitMessage ∨ reason = irqWait ∧ s.pending irq = true)
    split
    · trivial
    · rename_i irq hpc
      rw [hpc] at hold
      exact hold
    · rename_i irq hpc
      rw [hpc] at hold
      exact ⟨hold.1, fun _ => hok hne irq hpc⟩

/-- One line's count changes, from a record that keeps its task. -/
theorem AdiInv.setCount (hget : s.drivers[irq]? = some driver) {count : BitVec 32}
    {handlers : List ℕ} {reported : ℕ → Bool} {received acknowledged : ℕ → ℕ}
    (hhandlers : ∀ line ∈ handlers, line < maxIrq)
    (hcount : count.toNat + acknowledged irq = received irq)
    (hreceived : ∀ line, line ≠ irq → received line = s.received line)
    (hacknowledged : ∀ line, line ≠ irq → acknowledged line = s.acknowledged line)
    (hreported : ∀ line, reported line = true → s.reported line = true ∧
      (line = irq → count ≠ 0#32))
    (hwaiting : ∀ t, (s.tasks t).pc = .waiting irq → count ≠ 0#32 ∨ driver.pendingIrqCount = 0#32) :
    AdiInv { s with
      drivers := s.drivers.set irq { driver with pendingIrqCount := count }
      handlers := handlers
      reported := reported
      received := received
      acknowledged := acknowledged } := by
  have hlt := (List.getElem?_eq_some_iff.mp hget).1
  generalize ht : ({ s with
      drivers := s.drivers.set irq { driver with pendingIrqCount := count }
      handlers := handlers
      reported := reported
      received := received
      acknowledged := acknowledged } : AdiState) = t
  have hself : t.drivers[irq]? = some { driver with pendingIrqCount := count } := by
    rw [← ht]
    exact List.getElem?_set_self hlt
  have hother : ∀ line, line ≠ irq → t.drivers[line]? = s.drivers[line]? := by
    intro line hne
    rw [← ht]
    exact List.getElem?_set_ne (Ne.symm hne)
  have hdrives : ∀ u line, s.Drives u line ↔ t.Drives u line := by
    intro u line
    unfold AdiState.Drives
    by_cases hline : line = irq
    · subst hline
      simp [hget, hself]
    · rw [hother line hline]
  have hpending : ∀ line, line ≠ irq → t.pending line = s.pending line := by
    intro line hne
    rw [AdiState.pending, AdiState.pending, hother line hne]
  have hpself : count ≠ 0#32 → t.pending irq = true := by
    intro hne
    simp [AdiState.pending, hself, hne]
  refine ⟨?_, ?_, ?_, ?_, ?_, ?_, ?_, ?_, ?_⟩
  · rw [← ht]
    simpa using h.size
  · rw [← ht]
    exact h.callbacks
  · rw [← ht]
    exact hhandlers
  · intro u hu
    have hu' : s.Recorded u := by
      obtain ⟨d, hmem, hd⟩ := hu
      obtain ⟨line, hline⟩ := List.getElem?_of_mem hmem
      exact ((hdrives u line).mpr ⟨d, hline, hd⟩).recorded
    rw [← ht]
    exact h.alive u hu'
  · intro line d hd
    by_cases hline : line = irq
    · subst hline
      rw [hself] at hd
      obtain rfl := Option.some.inj hd
      rw [← ht]
      exact hcount
    · rw [hother line hline] at hd
      rw [← ht]
      show _ + acknowledged line = received line
      rw [hreceived line hline, hacknowledged line hline]
      exact h.counted line d hd
  · intro line hr
    have hr' : reported line = true := by
      rw [← ht] at hr
      exact hr
    obtain ⟨hold, hcnt⟩ := hreported line hr'
    by_cases hline : line = irq
    · rw [hline]
      exact hpself (hcnt hline)
    · rw [hpending line hline]
      exact h.reported line hold
  · intro u
    have htask : t.tasks u = s.tasks u := by rw [← ht]
    rw [htask]
    have hold := h.await u
    unfold AwaitOk at hold ⊢
    split
    · trivial
    · rename_i line hpc
      rw [hpc] at hold
      exact (hdrives u line).mp hold
    · rename_i line hpc
      rw [hpc] at hold
      refine ⟨(hdrives u line).mp hold.1, ?_⟩
      intro hrun
      rcases hold.2 hrun with hmsg | ⟨hirq, hp⟩
      · exact Or.inl hmsg
      · refine Or.inr ⟨hirq, ?_⟩
        by_cases hline : line = irq
        · subst hline
          rcases hwaiting u hpc with hne | hzero
          · exact hpself hne
          · rw [AdiState.pending, hget] at hp
            simp [hzero] at hp
        · rw [hpending line hline]
          exact hp
  · rw [← ht]
    exact h.fault
  · rw [← ht]
    exact h.falseReport

theorem AdiInv.newDriver (hget : s.drivers[irq]? = some driver) (hfree : driver.task = none)
    (halive : (s.tasks t).life = .alive) :
    AdiInv { s with
      drivers := s.drivers.set irq ⟨0#32, name, some t⟩
      callbacks := irq :: s.callbacks
      reported := Function.update s.reported irq false
      received := Function.update s.received irq 0
      acknowledged := Function.update s.acknowledged irq 0 } := by
  have hlt := (List.getElem?_eq_some_iff.mp hget).1
  have hother : ∀ line, line ≠ irq →
      (s.drivers.set irq ⟨0#32, name, some t⟩)[line]? = s.drivers[line]? :=
    fun line hne => List.getElem?_set_ne (Ne.symm hne)
  -- whoever is in `adi_event_await` is so on another line
  have hline : ∀ u line, s.Drives u line → line ≠ irq := by
    rintro u line ⟨d, hd, hu⟩ rfl
    rw [hget] at hd
    obtain rfl := Option.some.inj hd
    rw [hfree] at hu
    cases hu
  refine ⟨?_, ?_, h.handlers, ?_, ?_, ?_, ?_, h.fault, h.falseReport⟩
  · simpa using h.size
  · intro line hline
    rcases List.mem_cons.mp hline with rfl | hold
    · exact h.size ▸ hlt
    · exact h.callbacks line hold
  · intro u hu
    obtain ⟨d, hmem, hd⟩ := hu
    rcases List.mem_or_eq_of_mem_set hmem with hold | rfl
    · exact h.alive u ⟨d, hold, hd⟩
    · obtain rfl := Option.some.inj hd
      exact halive
  · intro line d hd
    by_cases hirq : line = irq
    · subst hirq
      rw [List.getElem?_set_self hlt] at hd
      obtain rfl := Option.some.inj hd
      simp
    · rw [hother line hirq] at hd
      simpa [hirq] using h.counted line d hd
  · intro line hr
    have hirq : line ≠ irq := by
      rintro rfl
      simp at hr
    rw [AdiState.pending, hother line hirq]
    exact h.reported line (by simpa [hirq] using hr)
  · intro u
    have hold := h.await u
    unfold AwaitOk AdiState.Drives AdiState.pending at hold ⊢
    show match (s.tasks u).pc with
      | .running => True
      | .blocking line => _
      | .waiting line => _
    split
    · trivial
    · rename_i line hpc
      rw [hpc] at hold
      rw [hother line (hline u line hold)]
      exact hold
    · rename_i line hpc
      rw [hpc] at hold
      rw [hother line (hline u line hold.1)]
      exact hold

end

/-! ### The steps -/

section

variable (h : AdiInv s)

include h

theorem AdiInv.report (hpending : s.pending irq = true) : AdiInv (reportInterrupt s irq) := by
  refine ⟨h.size, h.callbacks, h.handlers, h.alive, h.counted, ?_, h.await, h.fault, ?_⟩
  · intro line hline
    by_cases hirq : line = irq
    · rw [hirq]
      exact hpending
    · refine h.reported line ?_
      simpa [reportInterrupt, hirq] using hline
  · show (s.falseReport || !s.pending irq) = false
    rw [h.falseReport, hpending]
    rfl

theorem AdiInv.die (hpc : (s.tasks t).pc = .running) (hnot : ¬s.Recorded t) :
    AdiInv (taskDie s t) :=
  h.setTask (fun hrec => absurd hrec hnot) (awaitOk_running hpc)

theorem AdiInv.register (hruns : s.Runs t) (hok : AdiOk s (.register t name irq)) :
    AdiInv (adiRegisterDriver s t name irq) := by
  obtain ⟨hirq, hrefuses⟩ := hok
  unfold adiRegisterDriver
  split
  · rename_i hvalid
    obtain ⟨driver, hget⟩ := h.lookup hvalid hirq
    rw [hget]
    show AdiInv (if driver.task.isSome then _ else _)
    split
    · rename_i hsome
      refine h.die hruns.2.2 (hrefuses ?_)
      simp [AdiState.refuses, hget, hsome]
    · rename_i hfree
      have hnone : driver.task = none := by simpa using hfree
      exact h.newDriver hget hnone hruns.1
  · rename_i hvalid
    refine h.die hruns.2.2 (hrefuses ?_)
    simp [AdiState.refuses, hvalid]

theorem AdiInv.awaitEvent (hruns : s.Runs t) (hirq : irq ≠ maxIrq)
    (hs : adiEventAwait s t irq = some u) : AdiInv u := by
  unfold adiEventAwait at hs
  split at hs
  · rename_i hvalid
    obtain ⟨driver, hget⟩ := h.lookup hvalid hirq
    rw [hget] at hs
    change (if driver.task = some t then _ else _) = some u at hs
    split at hs
    · rename_i htask
      split at hs
      · rename_i hne
        obtain rfl := Option.some.inj hs
        exact h.report (by simp [AdiState.pending, hget, hne])
      · split at hs
        · exact Option.some.inj hs ▸ h
        · obtain rfl := Option.some.inj hs
          exact h.setTask (fun _ => hruns.1) ⟨driver, hget, htask⟩
    · cases hs
  · cases hs

theorem AdiInv.resume (hs : adiEventResume s t = some u) : AdiInv u := by
  unfold adiEventResume at hs
  split at hs
  · rename_i irq hpc
    split at hs
    · rename_i hrun
      have hold := h.await t
      rw [AwaitOk, hpc] at hold
      have hset : AdiInv (s.setTask t { s.tasks t with
          blockedInfo := { (s.tasks t).blockedInfo with unblockReason := 0#32 }
          pc := .running }) :=
        h.setTask (fun _ => hrun.1) (awaitOk_running rfl)
      rcases hold.2 hrun.2 with hmsg | ⟨hirq, hpending⟩
      · rw [hmsg] at hs
        obtain rfl := Option.some.inj hs
        exact hset
      · rw [hirq] at hs
        obtain rfl := Option.some.inj hs
        exact hset.report hpending
    · cases hs
  · cases hs

theorem AdiInv.sendEoi (hruns : s.Runs t) (hs : adiSendEoi s t irq = some u) : AdiInv u := by
  unfold adiSendEoi at hs
  split at hs
  · rename_i hreported
    have hpending := h.reported irq hreported
    obtain ⟨driver, hget, hne⟩ : ∃ driver, s.drivers[irq]? = some driver ∧
        driver.pendingIrqCount ≠ 0#32 := by
      simpa [AdiState.pending, Option.any_eq_true] using hpending
    rw [hget] at hs
    change (if driver.task = some t then _ else _) = some u at hs
    split at hs
    · rename_i htask
      obtain rfl := Option.some.inj hs
      have hpos : 0 < driver.pendingIrqCount.toNat := by
        rw [Nat.pos_iff_ne_zero]
        intro hzero
        exact hne (BitVec.eq_of_toNat_eq hzero)
      have hsub : (driver.pendingIrqCount - 1).toNat = driver.pendingIrqCount.toNat - 1 := by
        have hle : (1 : BitVec 32) ≤ driver.pendingIrqCount := by
          exact hpos
        rw [BitVec.toNat_sub_of_le hle]
        rfl
      refine h.setCount hget h.handlers ?_ (fun _ _ => rfl) ?_ ?_ ?_
      · rw [hsub, Function.update_self, ← h.counted irq driver hget]
        omega
      · intro line hline
        rw [Function.update_of_ne hline]
      · intro line hline
        by_cases hirq : line = irq
        · subst hirq
          rw [Function.update_self] at hline
          cases hline
        · rw [Function.update_of_ne hirq] at hline
          exact ⟨hline, fun hh => absurd hh hirq⟩
      · intro w hw
        -- the driver itself is running, so nobody waits on its line
        have hdrives := h.await w
        rw [AwaitOk, hw] at hdrives
        obtain ⟨⟨d, hd, hwt⟩, -⟩ := hdrives
        rw [hget] at hd
        obtain rfl := Option.some.inj hd
        rw [htask] at hwt
        obtain rfl := Option.some.inj hwt
        rw [hruns.2.2] at hw
        cases hw
    · cases hs
  · cases hs

theorem AdiInv.interrupt (hok : AdiOk s (.interrupt irq))
    (hs : adiInterruptHandler s irq = some u) : AdiInv u := by
  unfold adiInterruptHandler at hs
  split at hs
  · rename_i hcallback
    have hlt : irq < s.drivers.length := h.size ▸ h.callbacks irq hcallback.1
    split at hs
    · rename_i hnone
      rw [List.getElem?_eq_none_iff] at hnone
      omega
    · rename_i driver hget
      split at hs
      · obtain rfl := Option.some.inj hs
        have hmax : driver.pendingIrqCount.toNat + 1 < 2 ^ 32 := by
          have hne : driver.pendingIrqCount.toNat ≠ 2 ^ 32 - 1 := by
            intro heq
            refine hok driver hget (BitVec.eq_of_toNat_eq ?_)
            rw [heq, BitVec.toNat_allOnes]
          omega
        have hadd : (driver.pendingIrqCount + 1).toNat = driver.pendingIrqCount.toNat + 1 := by
          rw [BitVec.toNat_add_of_lt (by simpa using hmax)]
          rfl
        have hne : driver.pendingIrqCount + 1 ≠ 0#32 := by
          intro hzero
          rw [hzero] at hadd
          simp at hadd
        refine h.setCount hget ?_ ?_ ?_ (fun _ _ => rfl) ?_ (fun _ _ => Or.inl hne)
        · intro line hline
          rcases List.mem_cons.mp hline with rfl | hold
          · exact h.callbacks line hcallback.1
          · exact h.handlers line hold
        · rw [hadd, Function.update_self, ← h.counted irq driver hget]
          omega
        · intro line hline
          rw [Function.update_of_ne hline]
        · exact fun line hline => ⟨hline, fun _ => hne⟩
      · cases hs
  · cases hs

theorem AdiInv.interruptUnblock (hok : AdiOk s (.interruptUnblock irq current))
    (hs : adiInterruptUnblock s irq current = some u) : AdiInv u := by
  unfold adiInterruptUnblock at hs
  split at hs
  · rename_i hmem
    have hlt : irq < s.drivers.length := h.size ▸ h.handlers irq hmem
    split at hs
    · rename_i hnone
      rw [List.getElem?_eq_none_iff] at hnone
      omega
    · rename_i driver hget
      split at hs
      · cases hs
      · rename_i t htask
        obtain rfl := Option.some.inj hs
        have hunblocked := h.unblock t current irqWait (by
          intro hne line hpc
          have hline : line ∈ (s.tasks t).pc.waitingLine := by
            rw [hpc]
            rfl
          obtain ⟨rfl, hpending⟩ := hok driver hget t htask hne line hline
          exact Or.inr ⟨rfl, hpending⟩)
        exact hunblocked.frame _ _ fun line hline =>
          h.handlers line (List.mem_of_mem_erase hline)
  · cases hs

theorem AdiInv.block (hruns : s.Runs t) (info : BlockedInfo) : AdiInv (s.setInfo t info) :=
  h.setTask (fun _ => hruns.1) (awaitOk_running hruns.2.2)

theorem AdiInv.blockEvent (hs : adiEventBlock s t = some u) : AdiInv u := by
  unfold adiEventBlock at hs
  split at hs
  · rename_i irq hpc
    obtain ⟨info, hinfo, hs⟩ := Option.bind_eq_some_iff.mp hs
    obtain rfl := Option.some.inj hs
    have hdrives := h.await t
    rw [AwaitOk, hpc] at hdrives
    have hstatus : info.status ≠ runnable := by
      obtain rfl := Option.some.inj hinfo
      show irqWait ||| amcAwaitMessage ≠ runnable
      decide
    exact h.setTask (h.alive t) ⟨hdrives, fun hrun => absurd hrun hstatus⟩
  · cases hs

theorem AdiInv.setInbox (t : TaskPtr) (inbox : ℕ) :
    AdiInv (s.setTask t { s.tasks t with inbox := inbox }) :=
  h.setTask (h.alive t) (h.await t)

theorem AdiInv.removeFromSleepList (hs : amcRemoveFromSleepList s t = some u) :
    AdiInv u ∧ u.tasks = s.tasks := by
  obtain ⟨i, -, hs⟩ := Option.bind_eq_some_iff.mp hs
  obtain ⟨asleepProcs, -, hs⟩ := Option.bind_eq_some_iff.mp hs
  obtain rfl := Option.some.inj hs
  exact ⟨h.frame s.handlers asleepProcs h.handlers, rfl⟩

theorem AdiInv.send (hs : amcSend s t current = some u) : AdiInv u := by
  have hsent := h.setInbox t ((s.tasks t).inbox + 1)
  have hinfo : ((s.setTask t { s.tasks t with inbox := (s.tasks t).inbox + 1 }).tasks t).blockedInfo
      = (s.tasks t).blockedInfo := by
    simp [AdiState.setTask]
  unfold amcSend at hs
  generalize s.setTask t { s.tasks t with inbox := (s.tasks t).inbox + 1 } = sent at hs hsent hinfo
  simp only at hs
  split at hs
  · obtain ⟨removed, hremoved, rfl⟩ := Option.map_eq_some_iff.mp hs
    have hboth : AdiInv removed ∧ removed.tasks = sent.tasks := by
      split at hremoved
      · exact hsent.removeFromSleepList hremoved
      · obtain rfl := Option.some.inj hremoved
        exact ⟨hsent, rfl⟩
    rw [← hinfo, ← hboth.2]
    exact hboth.1.unblock t current amcAwaitMessage fun _ _ _ => Or.inl rfl
  · exact Option.some.inj hs ▸ hsent

theorem AdiInv.wake {now : BitVec 32} (hok : AdiOk s (.wake t current now))
    (hs : amcWake s t current now = some u) : AdiInv u := by
  unfold amcWake at hs
  split at hs
  · obtain ⟨removed, hremoved, hs⟩ := Option.bind_eq_some_iff.mp hs
    obtain ⟨hinv, htasks⟩ := h.removeFromSleepList hremoved
    obtain rfl := Option.some.inj hs
    refine hinv.unblock t current amcAwaitTimestamp ?_
    intro hne irq hpc
    have hnone := hok hne
    rw [← htasks, hpc] at hnone
    cases hnone
  · cases hs

end

/-- **The step lemma.** -/
theorem adiNext_inv (s : AdiState) (e : AdiEvent) (u : AdiState) (h : AdiInv s) (hok : AdiOk s e)
    (hs : adiNext s e = some u) : AdiInv u := by
  rw [adiNext, if_pos h.fault] at hs
  cases e with
  | spawn t =>
    simp only [adiStep] at hs
    split at hs
    · obtain rfl := Option.some.inj hs
      exact h.setTask (fun _ => rfl) (awaitOk_running rfl)
    · cases hs
  | register t name irq =>
    simp only [adiStep] at hs
    split at hs
    · rename_i hruns
      exact Option.some.inj hs ▸ h.register hruns hok
    · cases hs
  | interrupt irq => exact h.interrupt hok hs
  | interruptUnblock irq current => exact h.interruptUnblock hok hs
  | await t irq =>
    simp only [adiStep] at hs
    split at hs
    · rename_i hruns
      exact h.awaitEvent hruns hok hs
    · cases hs
  | block t => exact h.blockEvent hs
  | resume t => exact h.resume hs
  | sendEoi t irq =>
    simp only [adiStep] at hs
    split at hs
    · rename_i hruns
      exact h.sendEoi hruns hs
    · cases hs
  | send t current =>
    simp only [adiStep] at hs
    split at hs
    · cases hs
    · exact h.send hs
  | receive t =>
    simp only [adiStep] at hs
    split at hs
    · exact Option.some.inj hs ▸ h.setInbox t _
    · cases hs
  | awaitMessage t =>
    simp only [adiStep] at hs
    split at hs
    · rename_i hruns
      obtain ⟨info, -, rfl⟩ := Option.map_eq_some_iff.mp hs
      exact h.block hruns info
    · cases hs
  | sleep t ms now awakeOnMessage =>
    simp only [adiStep] at hs
    split at hs
    · rename_i hruns
      obtain ⟨asleepProcs, -, hs⟩ := Option.bind_eq_some_iff.mp hs
      obtain ⟨info, -, hs⟩ := Option.bind_eq_some_iff.mp hs
      obtain rfl := Option.some.inj hs
      exact (h.block hruns info).frame s.handlers asleepProcs h.handlers
    · cases hs
  | wake t current now => exact h.wake hok hs
  | exit t =>
    simp only [adiStep] at hs
    split at hs
    · rename_i hruns
      exact Option.some.inj hs ▸ h.die hruns.2.2 hok
    · cases hs
  | destroy t =>
    simp only [adiStep] at hs
    split at hs
    · rename_i hzombie
      obtain rfl := Option.some.inj hs
      refine h.setTask ?_ (h.await t)
      intro hrec
      rw [h.alive t hrec] at hzombie
      cases hzombie
    · cases hs

/-- **The bookkeeping is right.**  In every state of a run whose steps meet the condition: no
access was outside the driver table, every recorded task is alive, the pending count of each line
is the number of its interrupts less those acknowledged, no interrupt was reported with none
pending, and neither assertion failed. -/
theorem adi_bookkeeping (es : List AdiEvent) (hes : Meets adiNext AdiOk AdiState.init es)
    (s : AdiState) (hs : Passes adiNext AdiState.init es s) :
    s.fault = none ∧
    (∀ driver ∈ s.drivers, ∀ t, driver.task = some t → (s.tasks t).life = .alive) ∧
    (∀ irq driver, s.drivers[irq]? = some driver →
      s.acknowledged irq ≤ s.received irq ∧
      driver.pendingIrqCount.toNat = s.received irq - s.acknowledged irq) ∧
    s.falseReport = false := by
  have hinv : AdiInv s := passes_invariant adiNext_inv AdiInv.init hes hs
  refine ⟨hinv.fault, ?_, ?_, hinv.falseReport⟩
  · intro driver hmem t ht
    exact hinv.alive t ⟨driver, hmem, ht⟩
  · intro irq driver hget
    have hcounted := hinv.counted irq driver hget
    omega

/-- The driver waits, an interrupt wakes it, a second one comes while it works, and a message
while it waits again. -/
def keyboardRun : List AdiEvent :=
  [.spawn 1, .register 1 "com.axle.kb_driver" 65, .await 1 65, .block 1, .interrupt 65,
    .interruptUnblock 65 2, .resume 1, .interrupt 65, .interruptUnblock 65 1, .sendEoi 1 65,
    .await 1 65, .sendEoi 1 65, .await 1 65, .block 1, .send 1 2, .resume 1]

theorem adi_bookkeeping_keyboardRun :
    ∃ s, run adiNext AdiState.init keyboardRun = some s ∧ s.received 65 = 2 ∧
      s.fault = none ∧
      (∀ driver ∈ s.drivers, ∀ t, driver.task = some t → (s.tasks t).life = .alive) ∧
      (∀ irq driver, s.drivers[irq]? = some driver →
        s.acknowledged irq ≤ s.received irq ∧
        driver.pendingIrqCount.toNat = s.received irq - s.acknowledged irq) ∧
      s.falseReport = false := by
  have hrun : ∃ s, run adiNext AdiState.init keyboardRun = some s ∧ s.received 65 = 2 :=
    ⟨_, rfl, rfl⟩
  obtain ⟨s, hs, hreceived⟩ := hrun
  exact ⟨s, hs, hreceived, adi_bookkeeping keyboardRun (by decide) s ⟨_, List.prefix_rfl, hs⟩⟩

/-- **Each part fails.**  A registration of line 127 stores past the table; a destroyed driver
stays recorded; a driver of two lines that waits on one is told of an interrupt there when the
other interrupts, and its acknowledgement fails; and a driver woken from a sleep by an interrupt
is woken once more when the sleep ends, for a reason it does not know. -/
theorem adi_bookkeeping_fails :
    (∃ s, run adiNext AdiState.init [.spawn 1, .register 1 "driver" 127] = some s ∧
      s.fault = some .outOfBounds) ∧
    (∃ s, run adiNext AdiState.init [.spawn 1, .register 1 "driver" 65, .exit 1, .destroy 1]
        = some s ∧ (s.drivers.map (·.task))[65]? = some (some 1) ∧
      (s.tasks 1).life = .unborn) ∧
    (∃ s, run adiNext AdiState.init [.spawn 1, .register 1 "driver" 65, .register 1 "driver" 66,
        .await 1 65, .block 1, .interrupt 66, .interruptUnblock 66 2, .resume 1, .sendEoi 1 65]
        = some s ∧ s.falseReport = true ∧ s.fault = some .eoiWithoutInterrupt) ∧
    ∃ s, run adiNext AdiState.init [.spawn 1, .register 1 "driver" 65, .sleep 1 100 0 true,
        .interrupt 65, .interruptUnblock 65 2, .await 1 65, .sendEoi 1 65, .await 1 65, .block 1,
        .wake 1 2 100, .resume 1] = some s ∧ s.fault = some .unknownReason := by
  refine ⟨⟨_, rfl, rfl⟩, ⟨_, rfl, rfl, rfl⟩, ⟨_, rfl, rfl, rfl⟩, _, rfl, rfl⟩

end Axle.Kernel.AdiDrivers
