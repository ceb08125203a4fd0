import Axle.Kernel.AmcDelivery

/-!
# Pointers to services

Besides the list of services, two kinds of arrays hold raw pointers to services: each service's
list of those to notify upon its death, and the list of those asleep until a time.  Tearing a
service down takes it off the list of services, notifies its listeners by name and frees it; it
stays in the arrays that hold its pointer.

Reading through a pointer to a service that is gone is reading freed memory: the run stops there.

* `amcTeardownServiceForTask`, `amcCorePutServiceToSleep`, `amcCoreHandleNotifyServiceDied`,
  `amcWakeSleepingServices`, `amcMessageSendFromServiceName` — the code;
* `ReferencesOk` — a service is torn down only when no other service notifies it and it is not
  asleep;
* `references_live` — **PROVED**: in a run of such steps every pointer in these arrays is the
  address of a registered service.
-/

namespace Axle.Kernel.AmcReferences

open Axle.Kernel.Amc Axle.Kernel.AmcDelivery Axle.Kernel.TaskState Axle.Lib.StepRun

/-! ### The services -/

structure AmcService where
  addr : ServicePtr
  name : ServiceName
  task : TaskPtr
  servicesToNotifyUponDeath : ArrayM ServicePtr
  deliveryEnabled : Bool
  deriving DecidableEq

/-- The lists of `amc.c` and what the kernel keeps of each task; the inboxes are left out. -/
structure ReferenceState where
  services : ArrayM AmcService
  asleepProcs : ArrayM ServicePtr
  pool : ArrayM Message
  tasks : TaskPtr → BlockedInfo

def ReferenceState.init : ReferenceState :=
  ⟨ArrayM.create 256, ArrayM.create 64, ArrayM.create messagesToUnknownServicesPoolSize,
    fun _ => BlockedInfo.new⟩

def ReferenceState.live (s : ReferenceState) : List ServicePtr := s.services.items.map (·.addr)

/-- Read through a pointer. -/
def ReferenceState.deref (s : ReferenceState) (p : ServicePtr) : Option AmcService :=
  s.services.items.find? fun service => service.addr = p

def ReferenceState.serviceWithName (s : ReferenceState) (name : ServiceName) : Option AmcService :=
  s.services.items.find? fun service => service.name = name

def ReferenceState.serviceOfTask (s : ReferenceState) (task : TaskPtr) : Option AmcService :=
  s.services.items.find? fun service => service.task = task

def ReferenceState.setTask (s : ReferenceState) (task : TaskPtr) (info : BlockedInfo) :
    ReferenceState :=
  { s with tasks := Function.update s.tasks task info }

/-! ### Sending -/

/-- The assertion that the service is in the list is `none`. -/
def amcRemoveServiceFromSleepList (asleepProcs : ArrayM ServicePtr) (service : ServicePtr) :
    Option (ArrayM ServicePtr) := do
  let i ← asleepProcs.index service
  asleepProcs.remove i

/-- What the arrival of a message does to its destination; `current` runs on the sender's CPU. -/
def amcMessageAddToDeliveryQueue (current : TaskPtr) (s : ReferenceState) (dest : AmcService) :
    Option ReferenceState :=
  let info := s.tasks dest.task
  if hasFlag info.status amcAwaitMessage then
    (if hasFlag info.status amcAwaitTimestamp then
      amcRemoveServiceFromSleepList s.asleepProcs dest.addr
    else some s.asleepProcs).map fun asleepProcs =>
      { s.setTask dest.task (taskingUnblockTaskWithReason current dest.task amcAwaitMessage info)
        with asleepProcs := asleepProcs }
  else some s

def amcMessageSendFromServiceName (current : TaskPtr) (s : ReferenceState) (m : Message) :
    Option ReferenceState :=
  if amcMaxMessageSize ≤ m.body.length then none
  else if m.dest = axleCoreServiceName then some s
  else
    let park := (s.pool.insert m).map fun pool => { s with pool := pool }
    match s.serviceWithName m.dest with
    | none => park
    | some dest => if dest.deliveryEnabled then amcMessageAddToDeliveryQueue current s dest else park

/-! ### Registration, subscription and sleep -/

def amcRegisterService (s : ReferenceState) (task : TaskPtr) (name : ServiceName)
    (addr : ServicePtr) : Option ReferenceState :=
  if addr ∉ s.live ∧ s.serviceOfTask task = none ∧ s.serviceWithName name = none ∧
      name.length < amcMaxServiceNameLen then do
    let services ← s.services.insert ⟨addr, name, task, ArrayM.create 32, true⟩
    return { s with services := services }
  else none

/-- Store into the control block of a service. -/
def ReferenceState.update (s : ReferenceState) (service service' : AmcService) :
    Option ReferenceState :=
  (s.services.index service).map fun i => { s with services := s.services.store i service' }

def amcCoreHandleNotifyServiceDied (s : ReferenceState) (sourceService remoteService : ServiceName) :
    Option ReferenceState := do
  let source ← s.serviceWithName sourceService
  match s.serviceWithName remoteService with
  | none => return s
  | some remote =>
    let listeners ← remote.servicesToNotifyUponDeath.insert source.addr
    s.update remote { remote with servicesToNotifyUponDeath := listeners }

def amcCorePutServiceToSleep (s : ReferenceState) (sourceService : ServiceName) (now ms : BitVec 32)
    (awakeOnMessage : Bool) : Option ReferenceState := do
  let service ← s.serviceWithName sourceService
  let asleepProcs ← s.asleepProcs.insert service.addr
  let blockReason := if awakeOnMessage then amcAwaitTimestamp ||| amcAwaitMessage
    else amcAwaitTimestamp
  let info ← taskingBlockTask blockReason
    { s.tasks service.task with wakeTimestamp := now + ms }
  return { s.setTask service.task info with asleepProcs := asleepProcs }

/-! ### The wake-up pass -/

/-- The inner loop: the first service in the list whose time has come. -/
def firstDue (s : ReferenceState) (now : BitVec 32) :
    List ServicePtr → Option (Option AmcService)
  | [] => some none
  | p :: ps => do
    let service ← s.deref p
    if (s.tasks service.task).wakeTimestamp ≤ now then return some service
    else firstDue s now ps

/-- The outer loop.  Every round but the last takes one service off the list, so as many rounds as
there are services in it are enough. -/
def wakeLoop (current : TaskPtr) (now : BitVec 32) : ℕ → ReferenceState → Option ReferenceState
  | 0, s => some s
  | n + 1, s => do
    match ← firstDue s now s.asleepProcs.items with
    | none => return s
    | some service =>
      let asleepProcs ← amcRemoveServiceFromSleepList s.asleepProcs service.addr
      wakeLoop current now n { s.setTask service.task (taskingUnblockTaskWithReason current
        service.task amcAwaitTimestamp (s.tasks service.task)) with asleepProcs := asleepProcs }

def amcWakeSleepingServices (current : TaskPtr) (now : BitVec 32) (s : ReferenceState) :
    Option ReferenceState :=
  if s.services.size = 0 ∨ s.asleepProcs.size = 0 then some s
  else wakeLoop current now s.asleepProcs.size s

/-! ### Teardown -/

def amcServiceDiedNotification : BitVec 32 := 208

/-- The notification: the event and the name, in the order of the C structure. -/
def serviceDiedNotification (recipient deadService : ServiceName) : Message :=
  let event := amcServiceDiedNotification
  let name := (deadService.take (amcMaxServiceNameLen - 1)).map fun c => BitVec.ofNat 8 c.toNat
  ⟨axleCoreServiceName, recipient,
    [event.extractLsb' 0 8, event.extractLsb' 8 8, event.extractLsb' 16 8, event.extractLsb' 24 8]
      ++ name ++ List.replicate (amcMaxServiceNameLen - name.length) 0#8, 0⟩

def informRecipients (current : TaskPtr) (deadService : ServiceName) :
    List ServiceName → ReferenceState → Option ReferenceState
  | [], s => some s
  | recipient :: recipients, s => do
    let s ← amcMessageSendFromServiceName current s (serviceDiedNotification recipient deadService)
    informRecipients current deadService recipients s

/-- The listeners' names are read while the service's own memory is still there, and the
notifications are sent, last listener first, after it is freed. -/
def amcTeardownServiceForTask (current : TaskPtr) (s : ReferenceState) (task : TaskPtr) :
    Option ReferenceState :=
  match s.serviceOfTask task with
  | none => some s
  | some service => do
    let i ← s.services.index service
    let services ← s.services.remove i
    let recipients ← service.servicesToNotifyUponDeath.items.mapM fun listener =>
      (s.deref listener).map (·.name)
    informRecipients current service.name recipients.reverse { s with services := services }

/-! ### Runs -/

inductive ReferenceEvent where
  | register (task : TaskPtr) (name : ServiceName) (addr : ServicePtr)
  | notifyServiceDied (sourceService remoteService : ServiceName)
  | sleep (sourceService : ServiceName) (now ms : BitVec 32) (awakeOnMessage : Bool)
  | wake (current : TaskPtr) (now : BitVec 32)
  | send (current : TaskPtr) (m : Message)
  | teardown (current task : TaskPtr)

def referenceNext (s : ReferenceState) : ReferenceEvent → Option ReferenceState
  | .register task name addr => amcRegisterService s task name addr
  | .notifyServiceDied sourceService remoteService =>
    amcCoreHandleNotifyServiceDied s sourceService remoteService
  | .sleep sourceService now ms awakeOnMessage =>
    amcCorePutServiceToSleep s sourceService now ms awakeOnMessage
  | .wake current now => amcWakeSleepingServices current now s
  | .send current m => amcMessageSendFromServiceName current s m
  | .teardown current task => amcTeardownServiceForTask current s task

/-- No other service notifies this one, and it is not asleep. -/
def unreferenced (s : ReferenceState) (service : AmcService) : Bool :=
  (s.services.items.all fun other =>
      other = service || !other.servicesToNotifyUponDeath.items.contains service.addr)
    && !s.asleepProcs.items.contains service.addr

def referencesKept (s : ReferenceState) : ReferenceEvent → Bool
  | .teardown _ task => (s.serviceOfTask task).all fun service => unreferenced s service
  | _ => true

def ReferencesOk (s : ReferenceState) (e : ReferenceEvent) : Prop := referencesKept s e = true

instance (s : ReferenceState) (e : ReferenceEvent) : Decidable (ReferencesOk s e) :=
  inferInstanceAs (Decidable (referencesKept s e = true))

/-! ### What each operation keeps -/

/-- The services stay, and nobody new is asleep. -/
structure Shrinks (s t : ReferenceState) : Prop where
  services : t.services = s.services
  asleep : ∀ p ∈ t.asleepProcs.items, p ∈ s.asleepProcs.items

theorem Shrinks.refl (s : ReferenceState) : Shrinks s s := ⟨rfl, fun _ hp => hp⟩

theorem Shrinks.trans {s t u : ReferenceState} (h : Shrinks s t) (h' : Shrinks t u) :
    Shrinks s u :=
  ⟨h'.services.trans h.services, fun p hp => h.asleep p (h'.asleep p hp)⟩

theorem mem_of_removed {asleepProcs asleepProcs' : ArrayM ServicePtr} {service p : ServicePtr}
    (h : amcRemoveServiceFromSleepList asleepProcs service = some asleepProcs')
    (hp : p ∈ asleepProcs'.items) : p ∈ asleepProcs.items := by
  obtain ⟨i, -, hrem⟩ := Option.bind_eq_some_iff.mp h
  rw [(ArrayM.remove_eq_some.mp hrem).2.1] at hp
  exact List.mem_of_mem_eraseIdx hp

variable {current task : TaskPtr} {s t : ReferenceState} {now : BitVec 32} {service : AmcService}
  {sourceService : ServiceName}

theorem addToDeliveryQueue_shrinks {dest : AmcService}
    (h : amcMessageAddToDeliveryQueue current s dest = some t) : Shrinks s t := by
  rw [amcMessageAddToDeliveryQueue] at h
  split at h
  · obtain ⟨asleepProcs, hremove, rfl⟩ := Option.map_eq_some_iff.mp h
    refine ⟨rfl, ?_⟩
    intro p hp
    split at hremove
    · exact mem_of_removed hremove hp
    · exact Option.some.inj hremove ▸ hp
  · exact Option.some.inj h ▸ Shrinks.refl s

theorem send_shrinks {m : Message} (h : amcMessageSendFromServiceName current s m = some t) :
    Shrinks s t := by
  have hpark : ∀ u, ((s.pool.insert m).map fun pool => { s with pool := pool }) = some u →
      Shrinks s u := by
    intro u hu
    obtain ⟨pool, -, rfl⟩ := Option.map_eq_some_iff.mp hu
    exact ⟨rfl, fun _ hp => hp⟩
  rw [amcMessageSendFromServiceName] at h
  split at h
  · cases h
  · split at h
    · exact Option.some.inj h ▸ Shrinks.refl s
    · split at h
      · exact hpark t h
      · split at h
        · exact addToDeliveryQueue_shrinks h
        · exact hpark t h

theorem informRecipients_shrinks {deadService : ServiceName} :
    ∀ {recipients : List ServiceName} {s t : ReferenceState},
    informRecipients current deadService recipients s = some t → Shrinks s t := by
  intro recipients
  induction recipients with
  | nil => exact fun h => Option.some.inj h ▸ Shrinks.refl _
  | cons recipient recipients ih =>
    intro s t h
    obtain ⟨u, hsend, hrest⟩ := Option.bind_eq_some_iff.mp h
    exact (send_shrinks hsend).trans (ih hrest)

theorem wakeLoop_shrinks :
    ∀ {n : ℕ} {s t : ReferenceState}, wakeLoop current now n s = some t → Shrinks s t := by
  intro n
  induction n with
  | zero => exact fun h => Option.some.inj h ▸ Shrinks.refl _
  | succ n ih =>
    intro s t h
    obtain ⟨due, -, h⟩ := Option.bind_eq_some_iff.mp h
    cases due with
    | none => exact Option.some.inj h ▸ Shrinks.refl s
    | some service =>
      obtain ⟨asleepProcs, hremove, hrest⟩ := Option.bind_eq_some_iff.mp h
      have hone : Shrinks s { s.setTask service.task (taskingUnblockTaskWithReason current
          service.task amcAwaitTimestamp (s.tasks service.task)) with
            asleepProcs := asleepProcs } :=
        ⟨rfl, fun p hp => mem_of_removed hremove hp⟩
      exact hone.trans (ih hrest)

/-! ### Every pointer is live -/

/-- Every pointer the arrays hold is the address of a service on the list. -/
structure ReferencesLive (s : ReferenceState) : Prop where
  addrs : s.live.Nodup
  listeners : ∀ service ∈ s.services.items, ∀ p ∈ service.servicesToNotifyUponDeath.items,
    p ∈ s.live
  asleep : ∀ p ∈ s.asleepProcs.items, p ∈ s.live

theorem ReferencesLive.shrinks (h : ReferencesLive s) (ht : Shrinks s t) : ReferencesLive t := by
  have hlive : t.live = s.live := by rw [ReferenceState.live, ht.services, ReferenceState.live]
  refine ⟨hlive ▸ h.addrs, ?_, ?_⟩
  · rw [ht.services, hlive]
    exact h.listeners
  · intro p hp
    rw [hlive]
    exact h.asleep p (ht.asleep p hp)

theorem mem_live (h : service ∈ s.services.items) : service.addr ∈ s.live := List.mem_map_of_mem h

section

variable (h : ReferencesLive s)

include h

theorem ReferencesLive.register {name : ServiceName} {addr : ServicePtr}
    (hs : amcRegisterService s task name addr = some t) : ReferencesLive t := by
  rw [amcRegisterService] at hs
  split at hs
  · rename_i hfree
    obtain ⟨services, hins, hs⟩ := Option.bind_eq_some_iff.mp hs
    obtain rfl := Option.some.inj hs
    have hitems := (ArrayM.insert_eq_some.mp hins).2.1
    have hgrow : ∀ p, p ∈ s.live → p ∈ services.items.map (·.addr) := by
      intro p hp
      rw [hitems, List.map_append]
      exact List.mem_append_left _ hp
    refine ⟨?_, ?_, fun p hp => hgrow p (h.asleep p hp)⟩
    · show (services.items.map (·.addr)).Nodup
      rw [hitems, List.map_append, List.nodup_append]
      refine ⟨h.addrs, by simp, ?_⟩
      intro x hx y hy he
      obtain rfl : y = addr := by simpa using hy
      exact hfree.1 (he ▸ hx)
    · intro service hservice p hp
      have hservice' : service ∈ services.items := hservice
      rw [hitems, List.mem_append, List.mem_singleton] at hservice'
      rcases hservice' with hold | rfl
      · exact hgrow p (h.listeners service hold p hp)
      · cases hp
  · cases hs

theorem ReferencesLive.subscribe {sourceService remoteService : ServiceName}
    (hs : amcCoreHandleNotifyServiceDied s sourceService remoteService = some t) :
    ReferencesLive t := by
  obtain ⟨source, hsource, hs⟩ := Option.bind_eq_some_iff.mp hs
  split at hs
  · exact Option.some.inj hs ▸ h
  · rename_i remote hremote
    obtain ⟨listeners, hins, hs⟩ := Option.bind_eq_some_iff.mp hs
    obtain ⟨i, hi, rfl⟩ := Option.map_eq_some_iff.mp hs
    have hget := ArrayM.index_eq_some hi
    have hlive : (s.services.store i
        { remote with servicesToNotifyUponDeath := listeners }).items.map (·.addr) = s.live :=
      map_set_of_eq hget rfl
    refine ⟨?_, ?_, ?_⟩
    · show ((s.services.store i _).items.map (·.addr)).Nodup
      rw [hlive]
      exact h.addrs
    · intro service hservice p hp
      show p ∈ (s.services.store i _).items.map (·.addr)
      rw [hlive]
      rcases List.mem_or_eq_of_mem_set hservice with hold | rfl
      · exact h.listeners service hold p hp
      · have hp' : p ∈ listeners.items := hp
        rw [(ArrayM.insert_eq_some.mp hins).2.1, List.mem_append, List.mem_singleton] at hp'
        rcases hp' with hold | rfl
        · exact h.listeners remote (List.mem_of_getElem? hget) p hold
        · exact mem_live (List.mem_of_find?_eq_some hsource)
    · intro p hp
      show p ∈ (s.services.store i _).items.map (·.addr)
      rw [hlive]
      exact h.asleep p hp

theorem ReferencesLive.sleep {now ms : BitVec 32} {awakeOnMessage : Bool}
    (hs : amcCorePutServiceToSleep s sourceService now ms awakeOnMessage = some t) :
    ReferencesLive t := by
  obtain ⟨service, hservice, hs⟩ := Option.bind_eq_some_iff.mp hs
  obtain ⟨asleepProcs, hins, hs⟩ := Option.bind_eq_some_iff.mp hs
  obtain ⟨info, -, hs⟩ := Option.bind_eq_some_iff.mp hs
  obtain rfl := Option.some.inj hs
  refine ⟨h.addrs, h.listeners, ?_⟩
  intro p hp
  have hp' : p ∈ asleepProcs.items := hp
  rw [(ArrayM.insert_eq_some.mp hins).2.1, List.mem_append, List.mem_singleton] at hp'
  rcases hp' with hold | rfl
  · exact h.asleep p hold
  · exact mem_live (List.mem_of_find?_eq_some hservice)

theorem ReferencesLive.remove (hfree : unreferenced s service = true) {i : ℕ}
    (hi : s.services.index service = some i) {services : ArrayM AmcService}
    (hrem : s.services.remove i = some services) :
    ReferencesLive { s with services := services } := by
  rw [unreferenced, Bool.and_eq_true] at hfree
  obtain ⟨hlisteners, hasleep⟩ := hfree
  have hkeep : ∀ p, p ∈ s.live → p ≠ service.addr → p ∈ services.items.map (·.addr) := by
    intro p hp hne
    obtain ⟨x, hx, rfl⟩ := List.mem_map.mp hp
    refine List.mem_map_of_mem (ArrayM.mem_remove_of_ne (ArrayM.index_eq_some hi) hrem hx ?_)
    rintro rfl
    exact hne rfl
  have hsub : services.items = s.services.items.eraseIdx i := (ArrayM.remove_eq_some.mp hrem).2.1
  refine ⟨?_, ?_, ?_⟩
  · show (services.items.map (·.addr)).Nodup
    rw [hsub]
    exact h.addrs.sublist ((List.eraseIdx_sublist _ _).map _)
  · intro other hother p hp
    have hother' : other ∈ services.items := hother
    rw [hsub] at hother'
    have hold : other ∈ s.services.items := List.mem_of_mem_eraseIdx hother'
    refine hkeep p (h.listeners other hold p hp) ?_
    rintro rfl
    have hnot := List.all_eq_true.mp hlisteners other hold
    have hself : other = service := by simpa [hp] using hnot
    -- its address occurs once, so it is gone from the list
    have hget := ArrayM.index_eq_some hi
    have hnodup : s.services.items.Nodup := h.addrs.of_map _
    rw [List.mem_eraseIdx_iff_getElem?] at hother'
    obtain ⟨j, hj, hget'⟩ := hother'
    rw [hself, ← hget] at hget'
    exact hj ((List.getElem?_inj (List.getElem?_eq_some_iff.mp hget).1 hnodup).mp hget'.symm).symm
  · intro p hp
    refine hkeep p (h.asleep p hp) ?_
    rintro rfl
    simp [show service.addr ∈ s.asleepProcs.items from hp] at hasleep

end

/-! ### Every run -/

theorem ReferencesLive.init : ReferencesLive ReferenceState.init := by
  refine ⟨List.nodup_nil, ?_, ?_⟩
  · intro service hservice
    cases hservice
  · intro p hp
    cases hp

theorem ReferencesLive.teardown (h : ReferencesLive s)
    (hok : ReferencesOk s (.teardown current task))
    (hs : amcTeardownServiceForTask current s task = some t) : ReferencesLive t := by
  rw [amcTeardownServiceForTask] at hs
  split at hs
  · exact Option.some.inj hs ▸ h
  · rename_i service hservice
    rw [ReferencesOk, referencesKept, hservice] at hok
    obtain ⟨i, hi, hs⟩ := Option.bind_eq_some_iff.mp hs
    obtain ⟨services, hrem, hs⟩ := Option.bind_eq_some_iff.mp hs
    obtain ⟨recipients, -, hs⟩ := Option.bind_eq_some_iff.mp hs
    exact (h.remove hok hi hrem).shrinks (informRecipients_shrinks hs)

/-- **The step lemma.** -/
theorem referenceNext_live (s : ReferenceState) (e : ReferenceEvent) (t : ReferenceState)
    (h : ReferencesLive s) (hok : ReferencesOk s e) (hs : referenceNext s e = some t) :
    ReferencesLive t := by
  cases e with
  | register task name addr => exact h.register hs
  | notifyServiceDied sourceService remoteService => exact h.subscribe hs
  | sleep sourceService now ms awakeOnMessage => exact h.sleep hs
  | wake current now =>
    rw [referenceNext, amcWakeSleepingServices] at hs
    split at hs
    · exact Option.some.inj hs ▸ h
    · exact h.shrinks (wakeLoop_shrinks hs)
  | send current m => exact h.shrinks (send_shrinks hs)
  | teardown current task => exact h.teardown hok hs

/-- **References stay live.**  In every state a run of such steps passes through, every pointer in
a service's list of listeners and in the list of sleeping services is the address of a registered
service. -/
theorem references_live (events : List ReferenceEvent)
    (hok : Meets referenceNext ReferencesOk ReferenceState.init events) (s : ReferenceState)
    (hs : Passes referenceNext ReferenceState.init events s) :
    (∀ service ∈ s.services.items, ∀ p ∈ service.servicesToNotifyUponDeath.items,
        ∃ listener ∈ s.services.items, listener.addr = p) ∧
      ∀ p ∈ s.asleepProcs.items, ∃ sleeper ∈ s.services.items, sleeper.addr = p := by
  have h : ReferencesLive s := passes_invariant referenceNext_live ReferencesLive.init hok hs
  refine ⟨?_, ?_⟩
  · intro service hservice p hp
    exact List.mem_map.mp (h.listeners service hservice p hp)
  · intro p hp
    exact List.mem_map.mp (h.asleep p hp)

/-- `b` listens to `a`, sleeps and is woken; then `a` dies and `b` is told. -/
def orderlySchedule : List ReferenceEvent :=
  [.register 1 nameA 100, .register 2 nameB 200, .notifyServiceDied nameB nameA,
    .sleep nameB 10#32 5#32 true, .wake 9 12#32, .wake 9 15#32, .teardown 9 1]

theorem references_live_orderlySchedule :
    ∃ s, run referenceNext ReferenceState.init orderlySchedule = some s ∧ s.live = [200] ∧
      (∀ service ∈ s.services.items, ∀ p ∈ service.servicesToNotifyUponDeath.items,
        ∃ listener ∈ s.services.items, listener.addr = p) ∧
      ∀ p ∈ s.asleepProcs.items, ∃ sleeper ∈ s.services.items, sleeper.addr = p := by
  refine ⟨_, rfl, rfl, ?_⟩
  exact references_live orderlySchedule (by decide) _ ⟨orderlySchedule, List.prefix_rfl, rfl⟩

/-- The listener dies first. -/
def listenerDies : List ReferenceEvent :=
  [.register 1 nameA 100, .register 2 nameB 200, .notifyServiceDied nameB nameA, .teardown 9 2]

/-- **Dangling.**  `a` still holds the pointer of the listener that is gone. -/
theorem listener_torn_down :
    ∃ s, run referenceNext ReferenceState.init listenerDies = some s ∧
      ∃ service ∈ s.services.items, 200 ∈ service.servicesToNotifyUponDeath.items ∧
        ¬∃ listener ∈ s.services.items, listener.addr = 200 := by
  refine ⟨_, rfl, _, List.mem_singleton_self _, by decide, by decide⟩

end Axle.Kernel.AmcReferences
