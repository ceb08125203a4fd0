import Axle.Kernel.AmcReferences
import Axle.Lib.LockOrder

/-!
# The locks of AMC

Every list of `amc.c` is an `array_m` with a spinlock of its own, which the locked operations
take and release; each service has a spinlock besides, and the inboxes and the list of all tasks
are behind mutexes of the Rust part of the kernel.  All of them are test-and-set flags: taking one
twice hangs the CPU.  The locks of the heap, the address spaces and the scheduler are not here:
they are taken and released below the functions that AMC calls, and nothing there calls AMC.

Every operation but one takes its locks in one order: the list of tasks, the pool of messages to
unknown services, a service, the list of services, and then one of the others.  The exception is
the flush of undelivered messages, which holds the pool's lock and calls the locked
`array_m_lookup` on the pool.

* `amcCoreHandleMessage`, `amcRegisterService`, `amcMessageSend`, `amcMessageAwait`,
  `amcWakeSleepingServices`, `amcTeardownServiceForTask` — the code, with its locks;
* `FlushOk` — a flush to a name that is not registered finds the pool empty;
* `amc_lock_discipline_iff` — **PROVED**: in every reachable state, every operation neither takes
  a lock it holds nor keeps one, if and only if the flush condition is met;
* `flush_hangs` — a message to an unknown service, and then a flush.
-/

namespace Axle.Kernel.AmcLocks

open Axle.Kernel.Amc Axle.Kernel.AmcDelivery Axle.Kernel.TaskState Axle.Lib.LockOrder
open Axle.Lib.StepRun

/-! ### Locks and state -/

inductive LockId where
  | coresToTasks
  | allTasks
  | unknownServicesPool
  /-- The spinlock of a service. -/
  | service (addr : ServicePtr)
  | amcServices
  | asleepProcs
  | inboxes
  | messageQueue (addr : ServicePtr)
  | servicesToNotify (addr : ServicePtr)
  /-- The local array of `amc_teardown_service_for_task`. -/
  | recipients
  deriving DecidableEq, Repr

/-- The lock order. -/
def LockId.rank : LockId → ℕ
  | .coresToTasks => 1
  | .allTasks => 2
  | .unknownServicesPool => 3
  | .service _ => 4
  | .amcServices => 5
  | .asleepProcs | .inboxes | .messageQueue _ | .servicesToNotify _ | .recipients => 6

structure AmcService where
  addr : ServicePtr
  name : ServiceName
  task : TaskPtr
  messageQueue : ArrayM Message
  shmemRegions : ArrayM ℕ
  servicesToNotifyUponDeath : ArrayM ServicePtr
  deliveryEnabled : Bool
  deriving DecidableEq

structure AmcState where
  services : ArrayM AmcService
  asleepProcs : ArrayM ServicePtr
  pool : ArrayM Message
  inboxes : ServicePtr → List Message
  tasks : TaskPtr → BlockedInfo
  /-- What the memory of a freed service reads as. -/
  freed : ServicePtr → AmcService

def AmcState.init (freed : ServicePtr → AmcService) : AmcState where
  services := ArrayM.create 256
  asleepProcs := ArrayM.create 64
  pool := ArrayM.create messagesToUnknownServicesPoolSize
  inboxes := fun _ => []
  tasks := fun _ => BlockedInfo.new
  freed := freed

abbrev AmcM := LockM LockId AmcState

/-- Read through a pointer to a service, which may be gone. -/
def AmcState.deref (s : AmcState) (p : ServicePtr) : AmcService :=
  (s.services.items.find? fun service => service.addr = p).getD (s.freed p)

def AmcState.setTask (s : AmcState) (task : TaskPtr) (info : BlockedInfo) : AmcState :=
  { s with tasks := Function.update s.tasks task info }

/-- Store into the control block of a service. -/
def AmcState.updateService (s : AmcState) (addr : ServicePtr) (f : AmcService → AmcService) :
    AmcState :=
  match s.services.items.findIdx? fun service => service.addr = addr with
  | some i => { s with services := s.services.store i (f (s.deref addr)) }
  | none => s

/-- What a call finds around it. -/
structure CallEnv where
  /-- The task that runs on the CPU. -/
  current : TaskPtr
  now : BitVec 32
  /-- The tasks the scheduler knows. -/
  allTasks : List TaskPtr
  /-- How many nested calls the kernel stack has room for. -/
  depth : ℕ
  /-- What stands behind a reply in memory, when it is read as a command. -/
  stray : ServiceName

/-! ### The locked arrays -/

def arrayMLookup {α : Type} (lock : LockId) (array : AmcState → ArrayM α) (i : ℕ) : AmcM α :=
  withLock lock do
    let a ← gets array
    ofOption (a.lookup i)

def poolInsert (m : Message) : AmcM Unit :=
  withLock .unknownServicesPool
    (modifyOption fun s => (s.pool.insert m).map fun pool => { s with pool := pool })

def poolRemove (i : ℕ) : AmcM Unit :=
  withLock .unknownServicesPool
    (modifyOption fun s => (s.pool.remove i).map fun pool => { s with pool := pool })

def asleepProcsInsert (p : ServicePtr) : AmcM Unit :=
  withLock .asleepProcs (modifyOption fun s =>
    (s.asleepProcs.insert p).map fun asleepProcs => { s with asleepProcs := asleepProcs })

def amcServicesInsert (service : AmcService) : AmcM Unit :=
  withLock .amcServices (modifyOption fun s =>
    (s.services.insert service).map fun services => { s with services := services })

/-! ### Looking a service up -/

/-- The loop of `_amc_service_matching_data` over `n` services from index `i` on. -/
def amcServiceMatchingDataFrom (p : AmcService → Bool) : ℕ → ℕ → AmcM (Option AmcService)
  | 0, _ => return none
  | n + 1, i => do
    let service ← arrayMLookup .amcServices (·.services) i
    if p service then return some service else amcServiceMatchingDataFrom p n (i + 1)

def amcServiceMatchingData (p : AmcService → Bool) : AmcM (Option AmcService) := do
  let size ← gets fun s => s.services.size
  amcServiceMatchingDataFrom p size 0

def amcServiceWithName (name : ServiceName) : AmcM (Option AmcService) :=
  amcServiceMatchingData fun service => service.name = name

def amcServiceOfTask (task : TaskPtr) : AmcM (Option AmcService) :=
  amcServiceMatchingData fun service => service.task = task

/-- `tasking_get_current_task` looks its own task up in the scheduler's list. -/
def taskingGetCurrentTask (env : CallEnv) : AmcM TaskPtr := withLock .allTasks (return env.current)

def amcServiceOfActiveTask (env : CallEnv) : AmcM (Option AmcService) := do
  let task ← taskingGetCurrentTask env
  amcServiceOfTask task

/-! ### The inboxes -/

/-- A new inbox is empty, as a missing one is here. -/
def trackInboxForServiceIfNecessary : AmcM Unit := withLock .inboxes (return ())

def amcAppendMessageToServiceInbox (addr : ServicePtr) (m : Message) : AmcM Unit := do
  trackInboxForServiceIfNecessary
  withLock .inboxes (modify fun s =>
    { s with inboxes := Function.update s.inboxes addr (s.inboxes addr ++ [m]) })

def selectMessageToDeliver (addr : ServicePtr) (sources : List ServiceName)
    (event : Option (BitVec 32)) : AmcM (Option Message) := do
  trackInboxForServiceIfNecessary
  withLock .inboxes do
    let inbox ← gets fun s => s.inboxes addr
    let (m, inbox) ← ofOption (amcSelectMessageToDeliver sources event inbox)
    modify fun s => { s with inboxes := Function.update s.inboxes addr inbox }
    return m

def amcServiceInboxLen (addr : ServicePtr) : AmcM ℕ := do
  trackInboxForServiceIfNecessary
  withLock .inboxes (gets fun s => (s.inboxes addr).length)

/-! ### Delivery -/

/-- The assertion is that the service is in the list. -/
def amcRemoveServiceFromSleepListWithHeldLock (addr : ServicePtr) : AmcM Unit :=
  modifyOption fun s => do
    let i ← s.asleepProcs.index addr
    let asleepProcs ← s.asleepProcs.remove i
    return { s with asleepProcs := asleepProcs }

def amcRemoveServiceFromSleepList (addr : ServicePtr) : AmcM Unit :=
  withLock .asleepProcs (amcRemoveServiceFromSleepListWithHeldLock addr)

def amcMessageAddToDeliveryQueue (env : CallEnv) (dest : AmcService) (m : Message) : AmcM Unit :=
  withLock (.service dest.addr) do
    amcAppendMessageToServiceInbox dest.addr m
    let info ← gets fun s => s.tasks dest.task
    if hasFlag info.status amcAwaitMessage then
      whenever (hasFlag info.status amcAwaitTimestamp) (amcRemoveServiceFromSleepList dest.addr)
      modify fun s => s.setTask dest.task
        (taskingUnblockTaskWithReason env.current dest.task amcAwaitMessage info)

/-- `_amc_message_send_from_service_name` for a message that is not to `com.axle.core`. -/
def amcQueueMessage (env : CallEnv) (m : Message) : AmcM Unit := do
  ensure (m.body.length < amcMaxMessageSize)
  match ← amcServiceWithName m.dest with
  | none => poolInsert m
  | some dest =>
    if dest.deliveryEnabled then amcMessageAddToDeliveryQueue env dest m else poolInsert m

/-! ### Core commands -/

inductive CoreCommand where
  | copyServices
  | awmMapFramebuffer
  | sleepUntilTimestamp (ms : BitVec 32)
  | sleepUntilTimestampOrMessage (ms : BitVec 32)
  | fileManagerMapInitrd
  | fileManagerExecBuffer (withSupervisor : Bool)
  | sharedMemoryDestroy
  | systemProfileRequest
  | registerNotificationServiceDied (remoteService : ServiceName)
  | flushMessagesToService (remoteService : ServiceName)
  | sharedMemoryCreateRequest (remoteService : ServiceName)
  | queryServiceRequest (remoteService : ServiceName)
  | mapPhysicalRangeRequest
  | allocPhysicalRangeRequest
  | freePhysicalRangeRequest
  | memwalkerRequestPml1Entry
  | taskViewerGetTaskInfo
  /-- Any other first word. -/
  | unknown
  deriving DecidableEq

/-- What the kernel sends under the name `com.axle.core`. -/
inductive CoreMessage where
  | copyServicesResponse
  | awmMapFramebufferResponse
  | fileManagerMapInitrdResponse
  | serviceDiedNotification (deadService : ServiceName)
  | sharedMemoryCreateResponse
  | queryServiceResponse (remoteService : ServiceName)
  | mapPhysicalRangeResponse
  | allocPhysicalRangeResponse
  | freePhysicalRangeResponse
  | memwalkerRequestPml1Response
  | taskViewerGetTaskInfoResponse
  | supervisedProcessEvent
  /-- `task_die` tells the reaper. -/
  | zombieTask
  deriving DecidableEq

def CoreMessage.event : CoreMessage → BitVec 32
  | .copyServicesResponse => 200
  | .awmMapFramebufferResponse => 201
  | .fileManagerMapInitrdResponse => 203
  | .serviceDiedNotification _ => 208
  | .sharedMemoryCreateResponse => 210
  | .queryServiceResponse _ => 211
  | .mapPhysicalRangeResponse => 212
  | .allocPhysicalRangeResponse => 213
  | .freePhysicalRangeResponse => 214
  | .memwalkerRequestPml1Response => 666
  | .taskViewerGetTaskInfoResponse => 777
  | .supervisedProcessEvent => 215
  -- the first word is the low half of the task's address
  | .zombieTask => 0

/-- A response has the event of its request: sent to a service that calls itself
`com.axle.core`, it comes back as a command. -/
def CoreMessage.reread (stray : ServiceName) : CoreMessage → CoreCommand
  | .copyServicesResponse => .copyServices
  | .awmMapFramebufferResponse => .awmMapFramebuffer
  | .fileManagerMapInitrdResponse => .fileManagerMapInitrd
  | .serviceDiedNotification deadService => .registerNotificationServiceDied deadService
  | .sharedMemoryCreateResponse => .sharedMemoryCreateRequest stray
  | .queryServiceResponse remoteService => .queryServiceRequest remoteService
  | .mapPhysicalRangeResponse => .mapPhysicalRangeRequest
  | .allocPhysicalRangeResponse => .allocPhysicalRangeRequest
  | .freePhysicalRangeResponse => .freePhysicalRangeRequest
  | .memwalkerRequestPml1Response => .memwalkerRequestPml1Entry
  | .taskViewerGetTaskInfoResponse => .taskViewerGetTaskInfo
  | .supervisedProcessEvent | .zombieTask => .unknown

/-- The first word of the message, which receivers select by; the rest is not read here. -/
def CoreMessage.toMessage (dest : ServiceName) (m : CoreMessage) : Message :=
  let event := m.event
  ⟨axleCoreServiceName, dest,
    [event.extractLsb' 0 8, event.extractLsb' 8 8, event.extractLsb' 16 8, event.extractLsb' 24 8],
    0⟩

def awmServiceName : ServiceName := "com.axle.awm".toList

def fileServerServiceName : ServiceName := "com.axle.file_server".toList

/-- The services `_amc_core_file_server_exec_buffer` admits. -/
def execBufferServiceNames : List ServiceName :=
  [fileServerServiceName, "com.axle.linker".toList, "com.axle.ide".toList]

section Commands

variable (env : CallEnv) (reply : ServiceName → CoreMessage → AmcM Unit)

/-- The first round of the loop over the services ends in `NotImplemented()`. -/
def amcCoreCopyAmcServices (source : ServiceName) : AmcM Unit := do
  let size ← gets fun s => s.services.size
  if 0 < size then
    let _ ← arrayMLookup .amcServices (·.services) 0
    halt
  else reply source .copyServicesResponse

def amcCoreAwmMapFramebuffer (source : ServiceName) : AmcM Unit := do
  ensure (source = awmServiceName)
  let _ ← amcServiceWithName source
  reply source .awmMapFramebufferResponse

def amcCorePutServiceToSleep (source : ServiceName) (ms : BitVec 32) (awakeOnMessage : Bool) :
    AmcM Unit := do
  let service ← ofOption (← amcServiceWithName source)
  modify fun s => s.setTask service.task
    { s.tasks service.task with wakeTimestamp := env.now + ms }
  asleepProcsInsert service.addr
  let blockReason := if awakeOnMessage then amcAwaitTimestamp ||| amcAwaitMessage
    else amcAwaitTimestamp
  modifyOption fun s =>
    (taskingBlockTask blockReason (s.tasks service.task)).map (s.setTask service.task)

def amcCoreFileServerMapInitrd (source : ServiceName) : AmcM Unit := do
  ensure (source = fileServerServiceName)
  let service ← ofOption (← amcServiceWithName source)
  withLock (.service service.addr) (return ())
  reply source .fileManagerMapInitrdResponse

/-- `_thread_create` registers the new task with the scheduler. -/
def schedulerTrackTask : AmcM Unit := withLock .coresToTasks (withLock .allTasks (return ()))

def amcCoreFileServerExecBuffer (source : ServiceName) (withSupervisor : Bool) : AmcM Unit := do
  ensure (source ∈ execBufferServiceNames)
  schedulerTrackTask
  whenever withSupervisor do
    let parent ← ofOption (← amcServiceOfActiveTask env)
    reply parent.name .supervisedProcessEvent

def amcCoreHandleNotifyServiceDied (source remoteService : ServiceName) : AmcM Unit := do
  let service ← ofOption (← amcServiceWithName source)
  match ← amcServiceWithName remoteService with
  | none => return ()
  | some remote =>
    withLock (.servicesToNotify remote.addr) do
      let listeners ← ofOption (remote.servicesToNotifyUponDeath.insert service.addr)
      modify fun s => s.updateService remote.addr fun remote =>
        { remote with servicesToNotifyUponDeath := listeners }

/-- The loop over the pool, from the last message to the first. -/
def flushPool (source remoteService : ServiceName) : ℕ → AmcM Unit
  | 0 => return ()
  | i + 1 => do
    let m ← arrayMLookup .unknownServicesPool (·.pool) i
    whenever (m.source = source ∧ m.dest = remoteService) (poolRemove i)
    flushPool source remoteService i

def amcCoreFlushMessagesFromServiceToService (source remoteService : ServiceName) :
    AmcM Unit := do
  let _ ← ofOption (← amcServiceWithName source)
  let remote ← amcServiceWithName remoteService
  -- `NotImplemented()` when the destination is registered
  ensure (remote = none)
  withLock .unknownServicesPool do
    let size ← gets fun s => s.pool.size
    flushPool source remoteService size

def amcSharedMemoryCreate (source remoteService : ServiceName) : AmcM Unit := do
  let _ ← ofOption (← amcServiceWithName source)
  let remote ← amcServiceWithName remoteService
  whenever remote.isSome (reply source .sharedMemoryCreateResponse)

def amcQueryService (source remoteService : ServiceName) : AmcM Unit := do
  let _ ← ofOption (← amcServiceWithName source)
  let _ ← amcServiceWithName remoteService
  reply source (.queryServiceResponse remoteService)

/-- The three physical-range commands find the caller, work on its address space and reply. -/
def amcCorePhysicalRange (response : CoreMessage) (source : ServiceName) : AmcM Unit := do
  let _ ← ofOption (← amcServiceWithName source)
  reply source response

def amcCoreGrantPml1Entry (source : ServiceName) : AmcM Unit := do
  let _ ← amcServiceWithName source
  reply source .memwalkerRequestPml1Response

/-- The service of a task and the messages in its inbox, as `tasking_populate_tasks_info` reads
them. -/
def pendingAmcMessages (task : TaskPtr) : AmcM (Option ℕ) := do
  match ← amcServiceOfTask task with
  | none => return none
  | some service =>
    let len ← amcServiceInboxLen service.addr
    return some len

/-- The loop of `tasking_populate_tasks_info`. -/
def populateTasksInfo : List TaskPtr → AmcM (List (Option ℕ))
  | [] => return []
  | task :: tasks => do
    let pending ← pendingAmcMessages task
    let rest ← populateTasksInfo tasks
    return pending :: rest

def amcCoreSendTaskInfo (source : ServiceName) : AmcM Unit := do
  let _ ← withLock .allTasks (populateTasksInfo env.allTasks)
  reply source .taskViewerGetTaskInfoResponse

def amcCoreHandleMessage (source : ServiceName) : CoreCommand → AmcM Unit
  | .copyServices => amcCoreCopyAmcServices reply source
  | .awmMapFramebuffer => amcCoreAwmMapFramebuffer reply source
  | .sleepUntilTimestamp ms => amcCorePutServiceToSleep env source ms false
  | .sleepUntilTimestampOrMessage ms => amcCorePutServiceToSleep env source ms true
  | .fileManagerMapInitrd => amcCoreFileServerMapInitrd reply source
  | .fileManagerExecBuffer withSupervisor =>
    amcCoreFileServerExecBuffer env reply source withSupervisor
  -- `assert(false, "shmem destroy amccmd")` and `NotImplemented()`
  | .sharedMemoryDestroy | .systemProfileRequest => halt
  | .registerNotificationServiceDied remoteService =>
    amcCoreHandleNotifyServiceDied source remoteService
  | .flushMessagesToService remoteService =>
    amcCoreFlushMessagesFromServiceToService source remoteService
  | .sharedMemoryCreateRequest remoteService => amcSharedMemoryCreate reply source remoteService
  | .queryServiceRequest remoteService => amcQueryService reply source remoteService
  | .mapPhysicalRangeRequest => amcCorePhysicalRange reply .mapPhysicalRangeResponse source
  | .allocPhysicalRangeRequest => amcCorePhysicalRange reply .allocPhysicalRangeResponse source
  | .freePhysicalRangeRequest => amcCorePhysicalRange reply .freePhysicalRangeResponse source
  | .memwalkerRequestPml1Entry => amcCoreGrantPml1Entry reply source
  | .taskViewerGetTaskInfo => amcCoreSendTaskInfo env reply source
  | .unknown => halt

end Commands

/-- `amc_message_send__from_core`; it stops when the stack is used up. -/
def amcMessageSendFromCore (env : CallEnv) : ℕ → ServiceName → CoreMessage → AmcM Unit
  | depth, dest, m =>
    if dest = axleCoreServiceName then
      match depth with
      | 0 => halt
      | depth + 1 => amcCoreHandleMessage env (amcMessageSendFromCore env depth) dest
          (m.reread env.stray)
    else amcQueueMessage env (m.toMessage dest)

/-! ### The operations -/

def amcMessageSend (env : CallEnv) (dest : ServiceName) (body : List (BitVec 8)) : AmcM Unit := do
  let source ← ofOption (← amcServiceOfActiveTask env)
  -- see `amcSendCommand` for messages to `com.axle.core`
  ensure (dest ≠ axleCoreServiceName)
  amcQueueMessage env ⟨source.name, dest, body, 0⟩

/-- `amc_message_send` to `com.axle.core`. -/
def amcSendCommand (env : CallEnv) (command : CoreCommand) : AmcM Unit := do
  let source ← ofOption (← amcServiceOfActiveTask env)
  amcCoreHandleMessage env (amcMessageSendFromCore env env.depth) source.name command

/-- The second loop of `_amc_deliver_pending_messages_to_new_service`. -/
def deliverPendingMessages (env : CallEnv) (service : AmcService) : List ℕ → ℕ → AmcM Unit
  | [], _ => return ()
  | idx :: indexes, idxShift => do
    let pool ← gets (·.pool)
    let (m, pool) ← ofOption (deliverPendingMessage service.name idx idxShift pool)
    modify fun s => { s with pool := pool }
    amcMessageAddToDeliveryQueue env service m
    deliverPendingMessages env service indexes (idxShift + 1)

def amcDeliverPendingMessagesToNewService (env : CallEnv) (service : AmcService) : AmcM Unit :=
  withLock .unknownServicesPool do
    let pool ← gets (·.pool)
    deliverPendingMessages env service (messageIndexesToDeliver service.name 0 pool.items) 0

def amcDisableDelivery : Option AmcService → AmcM Unit
  | none => return ()
  | some service => modify fun s => s.updateService service.addr fun service =>
      { service with deliveryEnabled := false }

/-- A task whose name is taken registers under another one and is then killed by `task_assert`,
which first disables the delivery to it.  `addr` is a new allocation. -/
def amcRegisterService (env : CallEnv) (addr : ServicePtr) : ℕ → ServiceName → AmcM Unit
  | 0, _ => halt
  | depth + 1, name => do
    ensure (name.length < amcMaxServiceNameLen)
    let task ← taskingGetCurrentTask env
    let existing ← amcServiceOfTask task
    ensure (existing = none)
    if (← amcServiceWithName name).isSome then
      amcRegisterService env addr depth (invalidServiceName name env.now.toNat)
      let service ← amcServiceOfActiveTask env
      amcDisableDelivery service
    else
      let service : AmcService :=
        ⟨addr, name, task, ArrayM.create 2048, ArrayM.create 32, ArrayM.create 32, true⟩
      withLock (.service addr) (amcServicesInsert service)
      amcDeliverPendingMessagesToNewService env service

/-- One round of `_amc_message_await_from_services_ex`: without a message the task blocks, and
starts over once it is unblocked. -/
def amcMessageAwait (env : CallEnv) (sources : List ServiceName) (event : Option (BitVec 32)) :
    AmcM Unit := do
  let service ← ofOption (← amcServiceOfActiveTask env)
  let m ← withLock (.service service.addr) (selectMessageToDeliver service.addr sources event)
  match m with
  | some _ => return ()
  | none => modifyOption fun s =>
      (taskingBlockTask amcAwaitMessage (s.tasks service.task)).map (s.setTask service.task)

def amcHasMessageFrom (env : CallEnv) (source : ServiceName) : AmcM Bool := do
  let service ← ofOption (← amcServiceOfActiveTask env)
  withLock (.service service.addr) do
    trackInboxForServiceIfNecessary
    withLock .inboxes (gets fun s => (s.inboxes service.addr).any fun m => m.source = source)

def amcHasMessage (env : CallEnv) : AmcM Bool := do
  let service ← ofOption (← amcServiceOfActiveTask env)
  let len ← amcServiceInboxLen service.addr
  return 0 < len

/-- The loops of the wake-up pass, with the lock held; each round takes one service off the
list. -/
def wakeDueServices (env : CallEnv) : ℕ → AmcM Unit
  | 0 => return ()
  | n + 1 => do
    let due ← gets fun s => (s.asleepProcs.items.map s.deref).find? fun service =>
      (s.tasks service.task).wakeTimestamp ≤ env.now
    match due with
    | none => return ()
    | some service =>
      amcRemoveServiceFromSleepListWithHeldLock service.addr
      modify fun s => s.setTask service.task (taskingUnblockTaskWithReason env.current service.task
        amcAwaitTimestamp (s.tasks service.task))
      wakeDueServices env n

def amcWakeSleepingServices (env : CallEnv) : AmcM Unit := do
  let inactive ← gets fun s => s.services.size == 0 || s.asleepProcs.size == 0
  whenever (!inactive) do
    withLock .asleepProcs do
      let size ← gets fun s => s.asleepProcs.size
      wakeDueServices env size

/-- The loop that frees the message queue: a locked lookup and a locked removal each. -/
def freeMessageQueue (addr : ServicePtr) : List Message → AmcM Unit
  | [] => return ()
  | _ :: queue => do
    withLock (.messageQueue addr) (return ())
    withLock (.messageQueue addr) (return ())
    freeMessageQueue addr queue

/-- The names of the listeners, copied to a local array. -/
def copyRecipients (service : AmcService) : List ServicePtr → AmcM (List ServiceName)
  | [] => return []
  | listener :: listeners => do
    withLock (.servicesToNotify service.addr) (return ())
    let name ← gets fun s =>
      if listener = service.addr then service.name else (s.deref listener).name
    withLock .recipients (return ())
    let names ← copyRecipients service listeners
    return name :: names

def informRecipients (env : CallEnv) (deadService : ServiceName) : List ServiceName → AmcM Unit
  | [] => return ()
  | recipient :: recipients => do
    withLock .recipients (return ())
    amcMessageSendFromCore env env.depth recipient (.serviceDiedNotification deadService)
    informRecipients env deadService recipients

def amcTeardownServiceForTask (env : CallEnv) (task : TaskPtr) : AmcM Unit := do
  match ← amcServiceOfTask task with
  | none => return ()
  | some service =>
    let recipients ← withLock .amcServices do
      modifyOption fun s => do
        let i ← s.services.index service
        let services ← s.services.remove i
        return { s with services := services }
      freeMessageQueue service.addr service.messageQueue.items
      -- `_amc_core_shared_memory_destroy` is `Deprecated()`
      ensure (service.shmemRegions.size = 0)
      copyRecipients service service.servicesToNotifyUponDeath.items
    informRecipients env service.name recipients.reverse

/-! ### The lock order -/

section LockOrder

variable {r : ℕ}

theorem arrayMLookup_ordered {α : Type} {lock : LockId} (h : r < lock.rank)
    (array : AmcState → ArrayM α) (i : ℕ) : Ordered LockId.rank r (arrayMLookup lock array i) := by
  refine Ordered.withLock h ?_
  exact Ordered.bind (Ordered.gets _) fun _ => Ordered.ofOption _

theorem poolInsert_ordered (h : r < 3) (m : Message) : Ordered LockId.rank r (poolInsert m) :=
  Ordered.withLock h (Ordered.modifyOption _)

theorem amcServiceMatchingDataFrom_ordered (h : r < 5) (p : AmcService → Bool) :
    ∀ n i, Ordered LockId.rank r (amcServiceMatchingDataFrom p n i) := by
  intro n
  induction n with
  | zero => exact fun i => Ordered.pure none
  | succ n ih =>
    intro i
    refine Ordered.bind (arrayMLookup_ordered h _ i) fun service => ?_
    exact Ordered.ite (Ordered.pure _) (ih (i + 1))

theorem amcServiceMatchingData_ordered (h : r < 5) (p : AmcService → Bool) :
    Ordered LockId.rank r (amcServiceMatchingData p) :=
  Ordered.bind (Ordered.gets _) fun size => amcServiceMatchingDataFrom_ordered h p size 0

theorem taskingGetCurrentTask_ordered (h : r < 2) (env : CallEnv) :
    Ordered LockId.rank r (taskingGetCurrentTask env) :=
  Ordered.withLock h (Ordered.pure _)

theorem amcServiceOfActiveTask_ordered (h : r < 2) (env : CallEnv) :
    Ordered LockId.rank r (amcServiceOfActiveTask env) :=
  Ordered.bind (taskingGetCurrentTask_ordered h env) fun task =>
    amcServiceMatchingData_ordered (by omega) _

theorem trackInbox_ordered (h : r < 6) :
    Ordered LockId.rank r trackInboxForServiceIfNecessary :=
  Ordered.withLock h (Ordered.pure _)

theorem amcAppendMessageToServiceInbox_ordered (h : r < 6) (addr : ServicePtr) (m : Message) :
    Ordered LockId.rank r (amcAppendMessageToServiceInbox addr m) :=
  Ordered.bind (trackInbox_ordered h) fun _ => Ordered.withLock h (Ordered.modify _)

theorem selectMessageToDeliver_ordered (h : r < 6) (addr : ServicePtr)
    (sources : List ServiceName) (event : Option (BitVec 32)) :
    Ordered LockId.rank r (selectMessageToDeliver addr sources event) := by
  refine Ordered.bind (trackInbox_ordered h) fun _ => Ordered.withLock h ?_
  refine Ordered.bind (Ordered.gets _) fun inbox => ?_
  refine Ordered.bind (Ordered.ofOption _) fun selected => ?_
  exact Ordered.bind (Ordered.modify _) fun _ => Ordered.pure _

theorem amcServiceInboxLen_ordered (h : r < 6) (addr : ServicePtr) :
    Ordered LockId.rank r (amcServiceInboxLen addr) :=
  Ordered.bind (trackInbox_ordered h) fun _ => Ordered.withLock h (Ordered.gets _)

theorem amcMessageAddToDeliveryQueue_ordered (h : r < 4) (env : CallEnv) (dest : AmcService)
    (m : Message) : Ordered LockId.rank r (amcMessageAddToDeliveryQueue env dest m) := by
  refine Ordered.withLock h ?_
  have hr : (LockId.service dest.addr).rank < 6 := Nat.lt_of_sub_eq_succ rfl
  refine Ordered.bind (amcAppendMessageToServiceInbox_ordered hr dest.addr m) fun _ => ?_
  refine Ordered.bind (Ordered.gets _) fun info => ?_
  refine Ordered.ite ?_ (Ordered.pure _)
  refine Ordered.bind ?_ fun _ => Ordered.modify _
  exact Ordered.whenever _ (Ordered.withLock hr (Ordered.modifyOption _))

theorem amcQueueMessage_ordered (h : r < 3) (env : CallEnv) (m : Message) :
    Ordered LockId.rank r (amcQueueMessage env m) := by
  refine Ordered.bind (Ordered.ensure _) fun _ => ?_
  refine Ordered.bind (amcServiceMatchingData_ordered (by omega) _) fun dest => ?_
  cases dest with
  | none => exact poolInsert_ordered h m
  | some dest =>
    exact Ordered.ite (amcMessageAddToDeliveryQueue_ordered (by omega) env dest m)
      (poolInsert_ordered h m)

/-! #### Core commands -/

section Commands

variable {env : CallEnv} {reply : ServiceName → CoreMessage → AmcM Unit}

theorem populateTasksInfo_ordered : ∀ tasks : List TaskPtr,
    Ordered LockId.rank 2 (populateTasksInfo tasks) := by
  intro tasks
  induction tasks with
  | nil => exact Ordered.pure ()
  | cons task tasks ih =>
    have hpending : Ordered LockId.rank 2 (pendingAmcMessages task) := by
      refine Ordered.bind (amcServiceMatchingData_ordered (by decide) _) fun service => ?_
      cases service with
      | none => exact Ordered.pure none
      | some service =>
        have hlen : Ordered LockId.rank 2 (amcServiceInboxLen service.addr) :=
          amcServiceInboxLen_ordered (by decide) _
        exact Ordered.bind hlen fun _ => Ordered.pure _
    refine Ordered.bind hpending fun _ => ?_
    exact Ordered.bind ih fun _ => Ordered.pure _

theorem amcCorePutServiceToSleep_ordered (source : ServiceName) (ms : BitVec 32)
    (awakeOnMessage : Bool) :
    Ordered LockId.rank 0 (amcCorePutServiceToSleep env source ms awakeOnMessage) := by
  refine Ordered.bind (amcServiceMatchingData_ordered (by decide) _) fun found => ?_
  refine Ordered.bind (Ordered.ofOption found) fun service => ?_
  refine Ordered.bind (Ordered.modify _) fun _ => ?_
  refine Ordered.bind (Ordered.withLock (by decide) (Ordered.modifyOption _)) fun _ => ?_
  exact Ordered.modifyOption _

theorem amcCoreHandleNotifyServiceDied_ordered (source remoteService : ServiceName) :
    Ordered LockId.rank 0 (amcCoreHandleNotifyServiceDied source remoteService) := by
  refine Ordered.bind (amcServiceMatchingData_ordered (by decide) _) fun found => ?_
  refine Ordered.bind (Ordered.ofOption found) fun service => ?_
  refine Ordered.bind (amcServiceMatchingData_ordered (by decide) _) fun remote => ?_
  cases remote with
  | none => exact Ordered.pure _
  | some remote =>
    refine Ordered.withLock (Nat.succ_pos 5) ?_
    exact Ordered.bind (Ordered.ofOption _) fun _ => Ordered.modify _

/-- **Every command but the flush** keeps to the lock order, if the reply does. -/
theorem amcCoreHandleMessage_ordered (hreply : ∀ dest m, Ordered LockId.rank 0 (reply dest m))
    (source : ServiceName) {command : CoreCommand}
    (hcommand : ∀ remoteService, command ≠ .flushMessagesToService remoteService) :
    Ordered LockId.rank 0 (amcCoreHandleMessage env reply source command) := by
  have hlookup : ∀ p, Ordered LockId.rank 0 (amcServiceMatchingData p) :=
    fun p => amcServiceMatchingData_ordered (by decide) p
  cases command with
  | copyServices =>
    refine Ordered.bind (Ordered.gets _) fun size => ?_
    refine Ordered.ite ?_ (hreply source _)
    exact Ordered.bind (arrayMLookup_ordered (by decide) _ 0) fun _ => Ordered.halt
  | awmMapFramebuffer =>
    refine Ordered.bind (Ordered.ensure _) fun _ => ?_
    exact Ordered.bind (hlookup _) fun _ => hreply source _
  | sleepUntilTimestamp ms => exact amcCorePutServiceToSleep_ordered source ms false
  | sleepUntilTimestampOrMessage ms => exact amcCorePutServiceToSleep_ordered source ms true
  | fileManagerMapInitrd =>
    refine Ordered.bind (Ordered.ensure _) fun _ => ?_
    refine Ordered.bind (hlookup _) fun found => ?_
    refine Ordered.bind (Ordered.ofOption found) fun service => ?_
    refine Ordered.bind (Ordered.withLock (Nat.succ_pos 3) (Ordered.pure _)) fun _ => ?_
    exact hreply source _
  | fileManagerExecBuffer withSupervisor =>
    refine Ordered.bind (Ordered.ensure _) fun _ => ?_
    have htrack : Ordered LockId.rank 0 schedulerTrackTask :=
      Ordered.withLock (by decide) (Ordered.withLock (by decide) (Ordered.pure _))
    refine Ordered.bind htrack fun _ => ?_
    refine Ordered.whenever _ ?_
    refine Ordered.bind (amcServiceOfActiveTask_ordered (by decide) env) fun found => ?_
    exact Ordered.bind (Ordered.ofOption found) fun parent => hreply parent.name _
  | sharedMemoryDestroy => exact Ordered.halt
  | systemProfileRequest => exact Ordered.halt
  | registerNotificationServiceDied remoteService =>
    exact amcCoreHandleNotifyServiceDied_ordered source remoteService
  | flushMessagesToService remoteService => exact absurd rfl (hcommand remoteService)
  | sharedMemoryCreateRequest remoteService =>
    refine Ordered.bind (hlookup _) fun found => ?_
    refine Ordered.bind (Ordered.ofOption found) fun _ => ?_
    exact Ordered.bind (hlookup _) fun remote => Ordered.whenever _ (hreply source _)
  | queryServiceRequest remoteService =>
    refine Ordered.bind (hlookup _) fun found => ?_
    refine Ordered.bind (Ordered.ofOption found) fun _ => ?_
    exact Ordered.bind (hlookup _) fun _ => hreply source _
  | mapPhysicalRangeRequest =>
    refine Ordered.bind (hlookup _) fun found => ?_
    exact Ordered.bind (Ordered.ofOption found) fun _ => hreply source _
  | allocPhysicalRangeRequest =>
    refine Ordered.bind (hlookup _) fun found => ?_
    exact Ordered.bind (Ordered.ofOption found) fun _ => hreply source _
  | freePhysicalRangeRequest =>
    refine Ordered.bind (hlookup _) fun found => ?_
    exact Ordered.bind (Ordered.ofOption found) fun _ => hreply source _
  | memwalkerRequestPml1Entry => exact Ordered.bind (hlookup _) fun _ => hreply source _
  | taskViewerGetTaskInfo =>
    refine Ordered.bind ?_ fun _ => hreply source _
    exact Ordered.withLock (by decide) (populateTasksInfo_ordered env.allTasks)
  | unknown => exact Ordered.halt

end Commands

theorem reread_ne_flush (stray : ServiceName) (m : CoreMessage) (remoteService : ServiceName) :
    m.reread stray ≠ .flushMessagesToService remoteService := by
  cases m <;> exact fun h => by cases h

theorem amcMessageSendFromCore_ordered (env : CallEnv) : ∀ depth dest m,
    Ordered LockId.rank 0 (amcMessageSendFromCore env depth dest m) := by
  intro depth
  induction depth with
  | zero =>
    intro dest m
    exact Ordered.ite Ordered.halt (amcQueueMessage_ordered (by decide) env _)
  | succ depth ih =>
    intro dest m
    refine Ordered.ite ?_ (amcQueueMessage_ordered (by decide) env _)
    exact amcCoreHandleMessage_ordered ih dest (reread_ne_flush env.stray m)

/-! #### The other operations -/

section

variable (env : CallEnv)

theorem amcMessageSend_ordered (dest : ServiceName) (body : List (BitVec 8)) :
    Ordered LockId.rank 0 (amcMessageSend env dest body) := by
  refine Ordered.bind (amcServiceOfActiveTask_ordered (by decide) env) fun found => ?_
  refine Ordered.bind (Ordered.ofOption found) fun source => ?_
  exact Ordered.bind (Ordered.ensure _) fun _ => amcQueueMessage_ordered (by decide) env _

theorem deliverPendingMessages_ordered (service : AmcService) :
    ∀ indexes idxShift,
      Ordered LockId.rank 3 (deliverPendingMessages env service indexes idxShift) := by
  intro indexes
  induction indexes with
  | nil => exact fun _ => Ordered.pure ()
  | cons idx indexes ih =>
    intro idxShift
    refine Ordered.bind (Ordered.gets _) fun pool => ?_
    refine Ordered.bind (Ordered.ofOption _) fun taken => ?_
    refine Ordered.bind (Ordered.modify _) fun _ => ?_
    refine Ordered.bind (amcMessageAddToDeliveryQueue_ordered (by decide) env service _) fun _ => ?_
    exact ih (idxShift + 1)

theorem amcRegisterService_ordered (addr : ServicePtr) :
    ∀ depth name, Ordered LockId.rank 0 (amcRegisterService env addr depth name) := by
  intro depth
  induction depth with
  | zero => exact fun name => Ordered.halt
  | succ depth ih =>
    intro name
    refine Ordered.bind (Ordered.ensure _) fun _ => ?_
    refine Ordered.bind (taskingGetCurrentTask_ordered (by decide) env) fun task => ?_
    refine Ordered.bind (amcServiceMatchingData_ordered (by decide) _) fun existing => ?_
    refine Ordered.bind (Ordered.ensure _) fun _ => ?_
    refine Ordered.bind (amcServiceMatchingData_ordered (by decide) _) fun taken => ?_
    refine Ordered.ite ?_ ?_
    · -- the name is taken: register under another one, then die
      refine Ordered.bind (ih _) fun _ => ?_
      refine Ordered.bind (amcServiceOfActiveTask_ordered (by decide) env) fun service => ?_
      cases service with
      | none => exact Ordered.pure ()
      | some service => exact Ordered.modify _
    · refine Ordered.bind ?_ fun _ => ?_
      · refine Ordered.withLock (Nat.succ_pos 3) ?_
        exact Ordered.withLock (Nat.lt_succ_self 4) (Ordered.modifyOption _)
      · refine Ordered.withLock (by decide) ?_
        exact Ordered.bind (Ordered.gets _) fun pool =>
          deliverPendingMessages_ordered env _ _ 0

theorem amcMessageAwait_ordered (sources : List ServiceName) (event : Option (BitVec 32)) :
    Ordered LockId.rank 0 (amcMessageAwait env sources event) := by
  refine Ordered.bind (amcServiceOfActiveTask_ordered (by decide) env) fun found => ?_
  refine Ordered.bind (Ordered.ofOption found) fun service => ?_
  have hselect : Ordered LockId.rank 4 (selectMessageToDeliver service.addr sources event) :=
    selectMessageToDeliver_ordered (by decide) _ _ _
  refine Ordered.bind (Ordered.withLock (Nat.succ_pos 3) hselect) fun m => ?_
  cases m with
  | none => exact Ordered.modifyOption _
  | some m => exact Ordered.pure ()

theorem amcHasMessageFrom_ordered (source : ServiceName) :
    Ordered LockId.rank 0 (amcHasMessageFrom env source) := by
  refine Ordered.bind (amcServiceOfActiveTask_ordered (by decide) env) fun found => ?_
  refine Ordered.bind (Ordered.ofOption found) fun service => ?_
  refine Ordered.withLock (Nat.succ_pos 3) ?_
  have hr : (LockId.service service.addr).rank < 6 := Nat.lt_of_sub_eq_succ rfl
  exact Ordered.bind (trackInbox_ordered hr) fun _ => Ordered.withLock hr (Ordered.gets _)

theorem amcHasMessage_ordered : Ordered LockId.rank 0 (amcHasMessage env) := by
  refine Ordered.bind (amcServiceOfActiveTask_ordered (by decide) env) fun found => ?_
  refine Ordered.bind (Ordered.ofOption found) fun service => ?_
  exact Ordered.bind (amcServiceInboxLen_ordered (by decide) _) fun len => Ordered.pure _

theorem wakeDueServices_ordered : ∀ n, Ordered LockId.rank 6 (wakeDueServices env n) := by
  intro n
  induction n with
  | zero => exact Ordered.pure ()
  | succ n ih =>
    refine Ordered.bind (Ordered.gets _) fun due => ?_
    cases due with
    | none => exact Ordered.pure ()
    | some service =>
      refine Ordered.bind (Ordered.modifyOption _) fun _ => ?_
      exact Ordered.bind (Ordered.modify _) fun _ => ih

theorem amcWakeSleepingServices_ordered : Ordered LockId.rank 0 (amcWakeSleepingServices env) := by
  refine Ordered.bind (Ordered.gets _) fun inactive => ?_
  refine Ordered.whenever _ (Ordered.withLock (by decide) ?_)
  exact Ordered.bind (Ordered.gets _) fun size => wakeDueServices_ordered env size

end

theorem freeMessageQueue_ordered (addr : ServicePtr) : ∀ queue : List Message,
    Ordered LockId.rank 5 (freeMessageQueue addr queue) := by
  intro queue
  induction queue with
  | nil => exact Ordered.pure ()
  | cons m queue ih =>
    have hlock : Ordered LockId.rank 5 (withLock (.messageQueue addr) (pure ()) : AmcM Unit) :=
      Ordered.withLock (Nat.lt_succ_self 5) (Ordered.pure ())
    exact Ordered.bind hlock fun _ => Ordered.bind hlock fun _ => ih

theorem copyRecipients_ordered (service : AmcService) : ∀ listeners : List ServicePtr,
    Ordered LockId.rank 5 (copyRecipients service listeners) := by
  intro listeners
  induction listeners with
  | nil => exact Ordered.pure []
  | cons listener listeners ih =>
    refine Ordered.bind (Ordered.withLock (Nat.lt_succ_self 5) (Ordered.pure ())) fun _ => ?_
    refine Ordered.bind (Ordered.gets _) fun name => ?_
    refine Ordered.bind (Ordered.withLock (by decide) (Ordered.pure ())) fun _ => ?_
    exact Ordered.bind ih fun names => Ordered.pure _

theorem informRecipients_ordered (env : CallEnv) (deadService : ServiceName) :
    ∀ recipients : List ServiceName,
      Ordered LockId.rank 0 (informRecipients env deadService recipients) := by
  intro recipients
  induction recipients with
  | nil => exact Ordered.pure ()
  | cons recipient recipients ih =>
    refine Ordered.bind (Ordered.withLock (by decide) (Ordered.pure ())) fun _ => ?_
    exact Ordered.bind (amcMessageSendFromCore_ordered env _ _ _) fun _ => ih

theorem amcTeardownServiceForTask_ordered (env : CallEnv) (task : TaskPtr) :
    Ordered LockId.rank 0 (amcTeardownServiceForTask env task) := by
  refine Ordered.bind (amcServiceMatchingData_ordered (by decide) _) fun found => ?_
  cases found with
  | none => exact Ordered.pure ()
  | some service =>
    refine Ordered.bind (Ordered.withLock (by decide) ?_) fun recipients =>
      informRecipients_ordered env _ _
    refine Ordered.bind (Ordered.modifyOption _) fun _ => ?_
    refine Ordered.bind (freeMessageQueue_ordered _ _) fun _ => ?_
    exact Ordered.bind (Ordered.ensure _) fun _ => copyRecipients_ordered service _

end LockOrder

/-! ### The flush -/

/-- A lookup finds the first service that matches, and leaves everything as it is. -/
theorem amcServiceMatchingDataFrom_apply (p : AmcService → Bool) (s : AmcState)
    {held : List LockId} (hfree : LockId.amcServices ∉ held) :
    ∀ n i, i + n = s.services.items.length →
      amcServiceMatchingDataFrom p n i s held
        = .done ((s.services.items.drop i).find? p) s held := by
  intro n
  induction n with
  | zero =>
    intro i hi
    rw [List.drop_of_length_le (by omega)]
    rfl
  | succ n ih =>
    intro i hi
    have hlt : i < s.services.items.length := by omega
    have hlookup : arrayMLookup .amcServices (·.services) i s held
        = .done s.services.items[i] s held := by
      refine withLock_of_done hfree ?_
      show ofOption (s.services.lookup i) s _ = _
      rw [ArrayM.lookup, List.getElem?_eq_getElem hlt]
      rfl
    rw [amcServiceMatchingDataFrom, bind_of_done hlookup, List.drop_eq_getElem_cons hlt,
      List.find?_cons]
    by_cases hp : p s.services.items[i]
    · rw [if_pos hp, hp]
      rfl
    · rw [if_neg hp, ih (i + 1) (by omega)]
      simp [hp]

theorem amcServiceMatchingData_apply (p : AmcService → Bool) (s : AmcState) {held : List LockId}
    (hfree : LockId.amcServices ∉ held) :
    amcServiceMatchingData p s held = .done (s.services.items.find? p) s held := by
  show amcServiceMatchingDataFrom p s.services.items.length 0 s held = _
  rw [amcServiceMatchingDataFrom_apply p s hfree _ 0 (Nat.zero_add _), List.drop_zero]

theorem amcServiceOfActiveTask_apply (env : CallEnv) (s : AmcState) :
    amcServiceOfActiveTask env s []
      = .done (s.services.items.find? fun service => service.task = env.current) s [] := by
  have htask : taskingGetCurrentTask env s [] = .done env.current s [] :=
    withLock_of_done List.not_mem_nil rfl
  exact amcServiceMatchingData_apply _ s List.not_mem_nil

def AmcState.registered (s : AmcState) (name : ServiceName) : Bool :=
  s.services.items.any fun service => service.name = name

theorem flush_apply {source remoteService : ServiceName} {s : AmcState}
    (hsource : s.registered source = true) :
    amcCoreFlushMessagesFromServiceToService source remoteService s [] =
      if s.registered remoteService then .halt
      else if s.pool.items = [] then .done () s [] else .hang .unknownServicesPool := by
  have hlookup : ∀ name, amcServiceWithName name s []
      = .done (s.services.items.find? fun service => service.name = name) s [] :=
    fun name => amcServiceMatchingData_apply _ s List.not_mem_nil
  obtain ⟨service, hservice⟩ : ∃ service,
      (s.services.items.find? fun service => service.name = source) = some service :=
    Option.isSome_iff_exists.mp (List.find?_isSome.mpr (List.any_eq_true.mp hsource))
  have hsome : (ofOption (s.services.items.find? fun service => service.name = source) :
      AmcM AmcService) s [] = .done service s [] := by
    rw [hservice]
    rfl
  rw [amcCoreFlushMessagesFromServiceToService, bind_of_done (hlookup source),
    bind_of_done hsome, bind_of_done (hlookup remoteService)]
  by_cases hremote : s.registered remoteService
  · rw [if_pos hremote]
    have hfound : (s.services.items.find? fun service => service.name = remoteService) ≠ none := by
      rw [Ne, List.find?_eq_none]
      intro hnone
      obtain ⟨x, hx, hname⟩ := List.any_eq_true.mp hremote
      exact hnone x hx hname
    rw [bind_apply, ensure, if_neg hfound]
    rfl
  · rw [if_neg hremote]
    have hnone : (s.services.items.find? fun service => service.name = remoteService) = none := by
      rw [List.find?_eq_none]
      intro x hx hname
      exact hremote (List.any_eq_true.mpr ⟨x, hx, hname⟩)
    have hensure : (ensure ((s.services.items.find? fun service => service.name = remoteService)
        = none) : AmcM Unit) s [] = .done () s [] := by
      rw [ensure, if_pos hnone]
      rfl
    rw [bind_of_done hensure]
    cases hpool : s.pool.items with
    | nil =>
      refine withLock_of_done List.not_mem_nil ?_
      show flushPool source remoteService s.pool.items.length s _ = _
      rw [hpool]
      rfl
    | cons m pool =>
      refine withLock_of_hang List.not_mem_nil ?_
      show flushPool source remoteService s.pool.items.length s _ = _
      rw [hpool]
      -- the locked lookup takes the lock that is held
      exact bind_of_hang (withLock_of_mem List.mem_cons_self)

/-! ### Runs of operations -/

/-- An operation run alone, with what it finds around it. -/
inductive AmcOp where
  | register (env : CallEnv) (name : ServiceName) (addr : ServicePtr)
  | send (env : CallEnv) (dest : ServiceName) (body : List (BitVec 8))
  | command (env : CallEnv) (cmd : CoreCommand)
  /-- The kernel itself sends: to a supervisor, to the reaper. -/
  | sendFromCore (env : CallEnv) (dest : ServiceName) (m : CoreMessage)
  | await (env : CallEnv) (sources : List ServiceName) (event : Option (BitVec 32))
  | hasMessageFrom (env : CallEnv) (source : ServiceName)
  | hasMessage (env : CallEnv)
  | wake (env : CallEnv)
  | teardown (env : CallEnv) (task : TaskPtr)

def AmcOp.exec : AmcOp → AmcM Unit
  | .register env name addr => amcRegisterService env addr env.depth name
  | .send env dest body => amcMessageSend env dest body
  | .command env cmd => amcSendCommand env cmd
  | .sendFromCore env dest m => amcMessageSendFromCore env env.depth dest m
  | .await env sources event => amcMessageAwait env sources event
  | .hasMessageFrom env source => do
    let _ ← amcHasMessageFrom env source
    return ()
  | .hasMessage env => do
    let _ ← amcHasMessage env
    return ()
  | .wake env => amcWakeSleepingServices env
  | .teardown env task => amcTeardownServiceForTask env task

/-- The kernel between two operations. -/
structure LockedKernel where
  state : AmcState
  held : List LockId

def amcNext (k : LockedKernel) (op : AmcOp) : Option LockedKernel :=
  match op.exec k.state k.held with
  | .done _ state held => some ⟨state, held⟩
  | .hang _ | .halt => none

/-- A flush by a registered service, to a name nobody has registered, finds no undelivered
message at all. -/
def FlushOk (s : AmcState) : AmcOp → Prop
  | .command env (.flushMessagesToService remoteService) =>
    (s.services.items.any fun service => service.task = env.current) = true →
      s.registered remoteService = false → s.pool.items = []
  | _ => True

theorem flush_exec {s : AmcState} {env : CallEnv} {remoteService : ServiceName} :
    (AmcOp.command env (.flushMessagesToService remoteService)).exec s [] =
      if (s.services.items.any fun service => service.task = env.current) then
        if s.registered remoteService then .halt
        else if s.pool.items = [] then .done () s [] else .hang .unknownServicesPool
      else .halt := by
  show amcSendCommand env (.flushMessagesToService remoteService) s [] = _
  rw [amcSendCommand, bind_of_done (amcServiceOfActiveTask_apply env s)]
  by_cases hany : (s.services.items.any fun service => service.task = env.current) = true
  · obtain ⟨service, hservice⟩ : ∃ service,
        (s.services.items.find? fun service => service.task = env.current) = some service :=
      Option.isSome_iff_exists.mp (List.find?_isSome.mpr (List.any_eq_true.mp hany))
    have hsome : (ofOption (s.services.items.find? fun service => service.task = env.current) :
        AmcM AmcService) s [] = .done service s [] := by
      rw [hservice]
      rfl
    have hregistered : s.registered service.name = true :=
      List.any_eq_true.mpr ⟨service, List.mem_of_find?_eq_some hservice, by simp⟩
    rw [bind_of_done hsome, if_pos hany]
    exact flush_apply hregistered
  · have hnone : (s.services.items.find? fun service => service.task = env.current) = none := by
      rw [List.find?_eq_none]
      intro x hx htask
      exact hany (List.any_eq_true.mpr ⟨x, hx, htask⟩)
    rw [if_neg hany, bind_apply, hnone]
    rfl

/-- Every operation but the flush keeps to the lock order. -/
theorem exec_ordered {op : AmcOp}
    (hop : ∀ env remoteService, op ≠ .command env (.flushMessagesToService remoteService)) :
    Ordered LockId.rank 0 op.exec := by
  cases op with
  | register env name addr => exact amcRegisterService_ordered env addr env.depth name
  | send env dest body => exact amcMessageSend_ordered env dest body
  | command env cmd =>
    have hactive : Ordered LockId.rank 0 (amcServiceOfActiveTask env) :=
      amcServiceOfActiveTask_ordered (by decide) env
    refine Ordered.bind hactive fun found => ?_
    refine Ordered.bind (Ordered.ofOption found) fun source => ?_
    refine amcCoreHandleMessage_ordered (amcMessageSendFromCore_ordered env env.depth)
      source.name ?_
    intro remoteService heq
    exact hop env remoteService (by rw [heq])
  | sendFromCore env dest m => exact amcMessageSendFromCore_ordered env env.depth dest m
  | await env sources event => exact amcMessageAwait_ordered env sources event
  | hasMessageFrom env source =>
    exact Ordered.bind (amcHasMessageFrom_ordered env source) fun _ => Ordered.pure ()
  | hasMessage env => exact Ordered.bind (amcHasMessage_ordered env) fun _ => Ordered.pure ()
  | wake env => exact amcWakeSleepingServices_ordered env
  | teardown env task => exact amcTeardownServiceForTask_ordered env task

/-- **One operation**: it finishes when the flush condition is met, and hangs otherwise. -/
theorem exec_finishes_or_hangs (s : AmcState) (op : AmcOp) :
    FlushOk s op ∧ Finishes op.exec s [] ∨ ¬FlushOk s op ∧ ∃ l, op.exec s [] = .hang l := by
  by_cases hflush : ∃ env remoteService, op = .command env (.flushMessagesToService remoteService)
  · obtain ⟨env, remoteService, rfl⟩ := hflush
    unfold Finishes FlushOk
    rw [flush_exec]
    by_cases hany : (s.services.items.any fun service => service.task = env.current) = true
    · by_cases hremote : s.registered remoteService = true
      · simp [hany, hremote]
      · by_cases hpool : s.pool.items = []
        · simp [hpool, hremote, hany]
        · simp [hpool, hremote, hany]
    · simp [hany]
  · have hop : ∀ env remoteService,
        op ≠ .command env (.flushMessagesToService remoteService) :=
      fun env remoteService h => hflush ⟨env, remoteService, h⟩
    refine Or.inl ⟨?_, exec_ordered hop s [] (by simp)⟩
    unfold FlushOk
    split
    · exact absurd rfl (hop _ _)
    · trivial

/-- **The step lemma**: an operation that returns leaves no lock set. -/
theorem amcNext_held (k : LockedKernel) (op : AmcOp) (k' : LockedKernel) (h : k.held = [])
    (hs : amcNext k op = some k') : k'.held = [] := by
  obtain ⟨state, held⟩ := k
  subst h
  change (match op.exec state [] with
    | .done _ state held => some (⟨state, held⟩ : LockedKernel)
    | .hang _ | .halt => none) = some k' at hs
  rcases exec_finishes_or_hangs state op with ⟨-, hfin⟩ | ⟨-, l, hhang⟩
  · unfold Finishes at hfin
    cases hrun : op.exec state [] with
    | done a state' held' =>
      rw [hrun] at hs hfin
      obtain rfl := Option.some.inj hs
      exact hfin
    | hang l =>
      rw [hrun] at hs
      cases hs
    | halt =>
      rw [hrun] at hs
      cases hs
  · rw [hhang] at hs
    cases hs

/-- **The lock discipline.**  In every state that operations run one after the other reach, no
lock is set, and the next operation acquires no lock it holds and returns with every lock
released, if and only if it is not a flush to an unregistered name with a message in the pool. -/
theorem amc_lock_discipline_iff (freed : ServicePtr → AmcService) (ops : List AmcOp)
    (k : LockedKernel) (hrun : run amcNext ⟨AmcState.init freed, []⟩ ops = some k) (op : AmcOp) :
    k.held = [] ∧ (Finishes op.exec k.state k.held ↔ FlushOk k.state op) := by
  have hheld : k.held = [] := by
    have hmeets : ∀ (es : List AmcOp) (j : LockedKernel), Meets amcNext (fun _ _ => True) j es := by
      intro es
      induction es with
      | nil => exact fun _ => trivial
      | cons e es ih => exact fun j => ⟨trivial, fun t _ => ih t⟩
    exact run_invariant (fun k op k' h _ hs => amcNext_held k op k' h hs) ops _ k rfl
      (hmeets ops _) hrun
  refine ⟨hheld, ?_⟩
  rw [hheld]
  rcases exec_finishes_or_hangs k.state op with ⟨hok, hfin⟩ | ⟨hnot, l, hhang⟩
  · exact iff_of_true hfin hok
  · refine iff_of_false ?_ hnot
    rw [Finishes, hhang]
    exact id

/-- A call by `task` at the start of the machine's time. -/
def callBy (task : TaskPtr) : CallEnv := ⟨task, 0#32, [1, 2], 16, []⟩

/-- Nothing is freed in the runs below. -/
def noService : ServicePtr → AmcService := fun addr =>
  ⟨addr, [], 0, ArrayM.create 0, ArrayM.create 0, ArrayM.create 0, false⟩

/-- One service registers and asks about another. -/
def registerAndQuery : List AmcOp :=
  [.register (callBy 1) ['a'] 100, .command (callBy 1) (.queryServiceRequest ['b']),
    .await (callBy 1) [] none]

theorem amc_lock_discipline_registerAndQuery :
    ∃ k, run amcNext ⟨AmcState.init noService, []⟩ registerAndQuery = some k ∧
      k.held = [] ∧
      (Finishes (AmcOp.command (callBy 1) (.flushMessagesToService ['b'])).exec k.state k.held ↔
        FlushOk k.state (.command (callBy 1) (.flushMessagesToService ['b']))) := by
  have hrun : ∃ k, run amcNext ⟨AmcState.init noService, []⟩ registerAndQuery = some k :=
    ⟨_, rfl⟩
  obtain ⟨k, hk⟩ := hrun
  exact ⟨k, hk, amc_lock_discipline_iff noService registerAndQuery k hk _⟩

/-- **The flush hangs.**  A service sends to a name nobody has registered and then asks for the
undelivered messages to that name to be flushed: the flush holds the pool's lock and takes it
again. -/
theorem flush_hangs :
    ∃ k, run amcNext ⟨AmcState.init noService, []⟩
        [.register (callBy 1) ['a'] 100, .send (callBy 1) ['b'] [1, 2, 3, 4]] = some k ∧
      (AmcOp.command (callBy 1) (.flushMessagesToService ['b'])).exec k.state k.held
        = .hang .unknownServicesPool :=
  ⟨_, rfl, rfl⟩

end Axle.Kernel.AmcLocks
