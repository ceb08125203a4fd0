import Axle.Kernel.AmcReferences

/-!
# Sleeping services

`_amc_core_put_service_to_sleep` puts a service on the list of those asleep and blocks its task
until a time; `amc_wake_sleeping_services` takes those whose time has come off the list again, and
so does a message for a service that also waits for messages.  A task is blocked or not by a word
of its own, which other parts of the kernel write too: an interrupt makes a driver runnable
whatever it waits for, and leaves it on the list.

The calls are atomic here and made by running tasks; the clock never goes back.  With each service
the state keeps the time it has asked to be woken at, which the kernel has modulo `2 ^ 32`.

* `SleepEvent`, `sleepNext` — the calls that touch the list or a task's word;
* `SleepLaw` — who is on the list, and what a wake-up pass does;
* `SleepKept` — no task is unblocked behind the back of the list, and no wake time wraps around;
* `sleeping_services` — **PROVED**: in a run of such steps the law holds in every state;
* `interrupted_sleeper` — an interrupt for a driver that is asleep.
-/

namespace Axle.Kernel.SleepingServices

open Axle.Kernel.Amc Axle.Kernel.AmcDelivery Axle.Kernel.AmcReferences Axle.Kernel.TaskState
  Axle.Lib.StepRun

/-! ### States and events -/

structure SleepState where
  refs : ReferenceState
  /-- The last time that `ms_since_boot` has returned. -/
  clock : BitVec 32
  /-- What the last sleep command of a service has asked for. -/
  wakeAt : ServicePtr → ℕ

def SleepState.init : SleepState := ⟨ReferenceState.init, 0, fun _ => 0⟩

/-- The task may run. -/
def running (s : ReferenceState) (task : TaskPtr) : Prop := (s.tasks task).status = runnable

instance (s : ReferenceState) (task : TaskPtr) : Decidable (running s task) :=
  inferInstanceAs (Decidable ((s.tasks task).status = runnable))

inductive SleepEvent where
  | register (task : TaskPtr) (name : ServiceName) (addr : ServicePtr)
  | notifyServiceDied (sourceService remoteService : ServiceName)
  | sleep (sourceService : ServiceName) (now ms : BitVec 32) (awakeOnMessage : Bool)
  | send (current : TaskPtr) (m : Message)
  | wake (current : TaskPtr) (now : BitVec 32)
  /-- `tasking_unblock_task_with_reason` from elsewhere: an interrupt for a driver. -/
  | unblock (current task : TaskPtr) (reason : TaskStatus)
  /-- A running task waits for a message, or for an interrupt or a message. -/
  | await (task : TaskPtr) (interrupt : Bool)
  /-- A running task becomes a zombie, ... -/
  | exit (task : TaskPtr)
  /-- ... and the reaper tears its service down. -/
  | teardown (current task : TaskPtr)
  /-- A new task, at an address that no service's task has. -/
  | threadCreate (task : TaskPtr)

/-- Who makes the call is running, time does not go back, and the reaper is given zombies. -/
def enabled (s : SleepState) : SleepEvent → Prop
  | .register task _ _ => running s.refs task
  | .notifyServiceDied _ _ => True
  | .sleep sourceService now _ _ => s.clock ≤ now ∧
      ∀ service ∈ s.refs.serviceWithName sourceService, running s.refs service.task
  | .send current _ => running s.refs current
  | .wake current now => s.clock ≤ now ∧ running s.refs current
  | .unblock current _ _ => running s.refs current
  | .await task _ => running s.refs task
  | .exit task => running s.refs task
  | .teardown current task => running s.refs current ∧ (s.refs.tasks task).status = zombie
  | .threadCreate task => s.refs.serviceOfTask task = none

instance (s : SleepState) : ∀ e : SleepEvent, Decidable (enabled s e)
  | .register task _ _ => inferInstanceAs (Decidable (running s.refs task))
  | .notifyServiceDied _ _ => inferInstanceAs (Decidable True)
  | .sleep sourceService now _ _ => inferInstanceAs (Decidable (s.clock ≤ now ∧
      ∀ service ∈ s.refs.serviceWithName sourceService, running s.refs service.task))
  | .send current _ => inferInstanceAs (Decidable (running s.refs current))
  | .wake current now => inferInstanceAs (Decidable (s.clock ≤ now ∧ running s.refs current))
  | .unblock current _ _ => inferInstanceAs (Decidable (running s.refs current))
  | .await task _ => inferInstanceAs (Decidable (running s.refs task))
  | .exit task => inferInstanceAs (Decidable (running s.refs task))
  | .teardown current task =>
    inferInstanceAs (Decidable (running s.refs current ∧ (s.refs.tasks task).status = zombie))
  | .threadCreate task => inferInstanceAs (Decidable (s.refs.serviceOfTask task = none))

def awaitReason (interrupt : Bool) : TaskStatus :=
  if interrupt then irqWait ||| amcAwaitMessage else amcAwaitMessage

/-- What an event does to the lists and the tasks. -/
def refsNext (s : ReferenceState) : SleepEvent → Option ReferenceState
  | .register task name addr => amcRegisterService s task name addr
  | .notifyServiceDied sourceService remoteService =>
    amcCoreHandleNotifyServiceDied s sourceService remoteService
  | .sleep sourceService now ms awakeOnMessage =>
    amcCorePutServiceToSleep s sourceService now ms awakeOnMessage
  | .send current m => amcMessageSendFromServiceName current s m
  | .wake current now => amcWakeSleepingServices current now s
  | .unblock current task reason =>
    some (s.setTask task (taskingUnblockTaskWithReason current task reason (s.tasks task)))
  | .await task interrupt =>
    (taskingBlockTask (awaitReason interrupt) (s.tasks task)).map (s.setTask task)
  | .exit task => some (s.setTask task { s.tasks task with status := zombie })
  | .teardown current task => amcTeardownServiceForTask current s task
  | .threadCreate task => some (s.setTask task BlockedInfo.new)

/-- The time that an event reads. -/
def clockNext (clock : BitVec 32) : SleepEvent → BitVec 32
  | .sleep _ now _ _ | .wake _ now => now
  | _ => clock

def wakeAtNext (s : SleepState) : SleepEvent → ServicePtr → ℕ
  | .sleep sourceService now ms _ =>
    match s.refs.serviceWithName sourceService with
    | some service => Function.update s.wakeAt service.addr (now.toNat + ms.toNat)
    | none => s.wakeAt
  | _ => s.wakeAt

def sleepNext (s : SleepState) (e : SleepEvent) : Option SleepState :=
  if enabled s e then
    (refsNext s.refs e).map fun refs => ⟨refs, clockNext s.clock e, wakeAtNext s e⟩
  else none

/-! ### What is expected -/

/-- The task waits for a time. -/
def awaitsTimestamp (s : ReferenceState) (task : TaskPtr) : Bool :=
  hasFlag (s.tasks task).status amcAwaitTimestamp

/-- A service's time has come. -/
def due (s : SleepState) (now : BitVec 32) (p : ServicePtr) : Prop :=
  p ∈ s.refs.asleepProcs.items ∧ s.wakeAt p ≤ now.toNat

/-- A wake-up pass at the time `now`: however many rounds its loop may take from the size of the
list on, it ends in the same state; exactly the services whose time has come have left the list,
and exactly their tasks have been made runnable. -/
def PassesRightly (s : SleepState) (current : TaskPtr) (now : BitVec 32) : Prop :=
  ∃ t, amcWakeSleepingServices current now s.refs = some t ∧
    (∀ rounds, s.refs.asleepProcs.size ≤ rounds → wakeLoop current now rounds s.refs = some t) ∧
    t.services = s.refs.services ∧
    (∀ p, p ∈ t.asleepProcs.items ↔ p ∈ s.refs.asleepProcs.items ∧ ¬due s now p) ∧
    ∀ service ∈ s.refs.services.items,
      (due s now service.addr → running t service.task) ∧
      (¬due s now service.addr → t.tasks service.task = s.refs.tasks service.task)

structure SleepLaw (s : SleepState) : Prop where
  once : s.refs.asleepProcs.items.Nodup
  listed : ∀ p ∈ s.refs.asleepProcs.items, p ∈ s.refs.live
  exactly : ∀ service ∈ s.refs.services.items,
    (service.addr ∈ s.refs.asleepProcs.items ↔ awaitsTimestamp s.refs service.task = true)
  pass : ∀ current now, running s.refs current → s.clock ≤ now → PassesRightly s current now

/-- A task that waits for a time is not made runnable by anyone but the list, and the time that a
sleep command asks for fits into 32 bits. -/
def SleepKept (s : SleepState) : SleepEvent → Prop
  | .sleep _ now ms _ => now.toNat + ms.toNat < 2 ^ 32
  | .unblock current task _ => task = current ∨ awaitsTimestamp s.refs task = false
  | _ => True

/-! ### The invariant -/

/-- The services with their tasks. -/
def owners (s : ReferenceState) : List (ServicePtr × TaskPtr) :=
  s.services.items.map fun service => (service.addr, service.task)

theorem mem_owners {s : ReferenceState} {service : AmcService} (h : service ∈ s.services.items) :
    (service.addr, service.task) ∈ owners s :=
  List.mem_map_of_mem (f := fun service : AmcService => (service.addr, service.task)) h

structure SleepInv (s : ReferenceState) (wakeAt : ServicePtr → ℕ) : Prop where
  addrs : ((owners s).map Prod.fst).Nodup
  tasks : ((owners s).map Prod.snd).Nodup
  nodup : s.asleepProcs.items.Nodup
  listed : ∀ p ∈ s.asleepProcs.items, ∃ task, (p, task) ∈ owners s
  owned : ∀ task, awaitsTimestamp s task = true → ∃ p, (p, task) ∈ owners s
  asleep : ∀ p task, (p, task) ∈ owners s →
    (p ∈ s.asleepProcs.items ↔ awaitsTimestamp s task = true)
  time : ∀ p task, (p, task) ∈ owners s → p ∈ s.asleepProcs.items →
    (s.tasks task).wakeTimestamp.toNat = wakeAt p

section Invariant

variable {s t : ReferenceState} {wakeAt : ServicePtr → ℕ} {p : ServicePtr} {task current : TaskPtr}
  {info : BlockedInfo}

theorem awaitsTimestamp_setTask (task' : TaskPtr) :
    awaitsTimestamp (s.setTask task info) task' =
      if task' = task then hasFlag info.status amcAwaitTimestamp else awaitsTimestamp s task' := by
  unfold awaitsTimestamp ReferenceState.setTask
  by_cases heq : task' = task
  · rw [if_pos heq, heq]
    simp only [Function.update_self]
  · rw [if_neg heq]
    simp only [Function.update_of_ne heq]

theorem runnable_not_timestamp : hasFlag runnable amcAwaitTimestamp = false := by decide

theorem zombie_not_timestamp : hasFlag zombie amcAwaitTimestamp = false := by decide

theorem running_not_awaits (h : running s task) : awaitsTimestamp s task = false := by
  rw [awaitsTimestamp, h]
  exact runnable_not_timestamp

theorem taskingBlockTask_eq {blockedState : TaskStatus} {info' : BlockedInfo}
    (h : taskingBlockTask blockedState info = some info') :
    info' = { info with status := blockedState } := by
  rw [taskingBlockTask] at h
  split at h
  · cases h
  · exact (Option.some.inj h).symm

/-- The lists stay, and a task that does not wait for a time gets another word of that kind. -/
theorem SleepInv.setTask (h : SleepInv s wakeAt) (hbefore : awaitsTimestamp s task = false)
    (hafter : hasFlag info.status amcAwaitTimestamp = false) :
    SleepInv (s.setTask task info) wakeAt := by
  have hsame : ∀ task', awaitsTimestamp (s.setTask task info) task' = awaitsTimestamp s task' := by
    intro task'
    rw [awaitsTimestamp_setTask]
    split
    · rename_i heq
      rw [heq, hbefore, hafter]
    · rfl
  refine ⟨h.addrs, h.tasks, h.nodup, h.listed, fun task' h' => h.owned task' (hsame task' ▸ h'),
    fun p task' hp => ?_, fun p task' hp hasleep => ?_⟩
  · rw [hsame]
    exact h.asleep p task' hp
  · have hne : task' ≠ task := by
      rintro rfl
      have := (h.asleep p task' hp).mp hasleep
      rw [hbefore] at this
      cases this
    show (Function.update s.tasks task info task').wakeTimestamp.toNat = wakeAt p
    rw [Function.update_of_ne hne]
    exact h.time p task' hp hasleep

variable {services : ArrayM AmcService} {asleepProcs : ArrayM ServicePtr}
  {name sourceService : ServiceName} {service : AmcService}

/-- The services get other fields, but keep their addresses and tasks. -/
theorem SleepInv.ofOwners (h : SleepInv s wakeAt) {pool : ArrayM Message}
    (howners : owners { s with services, pool } = owners s) :
    SleepInv { s with services, pool } wakeAt := by
  refine ⟨?_, ?_, h.nodup, ?_, ?_, ?_, ?_⟩ <;> rw [howners]
  · exact h.addrs
  · exact h.tasks
  · exact h.listed
  · exact h.owned
  · exact h.asleep
  · exact h.time

theorem owner_task_unique (h : SleepInv s wakeAt) {task' : TaskPtr} (hp : (p, task) ∈ owners s)
    (hp' : (p, task') ∈ owners s) : task = task' :=
  congrArg Prod.snd (List.inj_on_of_nodup_map h.addrs hp hp' rfl)

theorem owner_addr_unique (h : SleepInv s wakeAt) {p' : ServicePtr} (hp : (p, task) ∈ owners s)
    (hp' : (p', task) ∈ owners s) : p = p' :=
  congrArg Prod.fst (List.inj_on_of_nodup_map h.tasks hp hp' rfl)

/-! ### One service leaves the list -/

/-- A service on the list can be removed, and the others stay. -/
theorem amcRemoveServiceFromSleepList_spec (hp : p ∈ asleepProcs.items) :
    ∃ asleepProcs', amcRemoveServiceFromSleepList asleepProcs p = some asleepProcs' ∧
      asleepProcs'.items = asleepProcs.items.erase p := by
  cases hindex : asleepProcs.index p with
  | none => exact absurd hp (by simpa [ArrayM.index] using hindex)
  | some i =>
    have hget := ArrayM.index_eq_some hindex
    obtain ⟨b, hb, hitems, -⟩ := ArrayM.exists_remove (a := asleepProcs)
      (List.getElem?_eq_some_iff.mp hget).1
    refine ⟨b, by rw [amcRemoveServiceFromSleepList, hindex]; exact hb, ?_⟩
    rw [hitems, List.erase_eq_eraseIdx]
    rw [ArrayM.index] at hindex
    rw [hindex]

theorem SleepInv.wakeOne (h : SleepInv s wakeAt) (hp : (p, task) ∈ owners s)
    (hasleep : p ∈ s.asleepProcs.items) (hitems : asleepProcs.items = s.asleepProcs.items.erase p)
    (hafter : hasFlag info.status amcAwaitTimestamp = false) :
    SleepInv { s.setTask task info with asleepProcs := asleepProcs } wakeAt := by
  have hmem : ∀ p', p' ∈ asleepProcs.items ↔ p' ≠ p ∧ p' ∈ s.asleepProcs.items := by
    intro p'
    rw [hitems, h.nodup.mem_erase_iff]
  have hawaits : ∀ task', awaitsTimestamp { s.setTask task info with asleepProcs := asleepProcs }
      task' = if task' = task then false else awaitsTimestamp s task' := by
    intro task'
    show awaitsTimestamp (s.setTask task info) task' = _
    rw [awaitsTimestamp_setTask, hafter]
  refine ⟨h.addrs, h.tasks, ?_, ?_, ?_, ?_, ?_⟩
  · show asleepProcs.items.Nodup
    rw [hitems]
    exact h.nodup.erase p
  · exact fun p' hp' => h.listed p' ((hmem p').mp hp').2
  · intro task' h'
    rw [hawaits] at h'
    split at h'
    · cases h'
    · exact h.owned task' h'
  · intro p' task' hp'
    rw [hawaits, hmem p']
    split
    · rename_i heq
      subst heq
      simp [owner_addr_unique h hp' hp]
    · rename_i hne
      have hpne : p' ≠ p := by
        rintro rfl
        exact hne (owner_task_unique h hp' hp)
      rw [and_iff_right hpne]
      exact h.asleep p' task' hp'
  · intro p' task' hp' hasleep'
    obtain ⟨hpne, hold⟩ := (hmem p').mp hasleep'
    have hne : task' ≠ task := by
      rintro rfl
      exact hpne (owner_addr_unique h hp' hp)
    show (Function.update s.tasks task info task').wakeTimestamp.toNat = wakeAt p'
    rw [Function.update_of_ne hne]
    exact h.time p' task' hp' hold

/-! ### Messages -/

/-- What a call made by `current` keeps beside the invariant. -/
structure Kept (s t : ReferenceState) (wakeAt : ServicePtr → ℕ) (current : TaskPtr) : Prop where
  inv : SleepInv t wakeAt
  services : t.services = s.services
  current : running t current

theorem awaits_of_serviceWithName (h : s.serviceWithName name = some service) :
    (service.addr, service.task) ∈ owners s :=
  mem_owners (List.mem_of_find?_eq_some h)

theorem running_setTask_of_ne (hne : current ≠ task) (h : running s current) :
    running (s.setTask task info) current := by
  show (Function.update s.tasks task info current).status = runnable
  rw [Function.update_of_ne hne]
  exact h

theorem SleepInv.deliver (h : SleepInv s wakeAt) (hcurrent : running s current)
    {dest : AmcService} (hdest : dest ∈ s.services.items)
    (hsend : amcMessageAddToDeliveryQueue current s dest = some t) : Kept s t wakeAt current := by
  have howner := mem_owners hdest
  rw [amcMessageAddToDeliveryQueue] at hsend
  split at hsend
  · rename_i hmessage
    obtain ⟨asleepProcs, hremove, rfl⟩ := Option.map_eq_some_iff.mp hsend
    -- the one who sends is not waiting
    have hne : dest.task ≠ current := by
      intro heq
      rw [heq, hcurrent] at hmessage
      exact absurd hmessage (by decide)
    have hafter : hasFlag (taskingUnblockTaskWithReason current dest.task amcAwaitMessage
        (s.tasks dest.task)).status amcAwaitTimestamp = false := by
      rw [taskingUnblock_of_ne hne]
      exact runnable_not_timestamp
    refine ⟨?_, rfl, running_setTask_of_ne (Ne.symm hne) hcurrent⟩
    split at hremove
    · rename_i htimestamp
      have hasleep := (h.asleep dest.addr dest.task howner).mpr htimestamp
      obtain ⟨asleepProcs', hremove', hitems⟩ := amcRemoveServiceFromSleepList_spec hasleep
      rw [hremove] at hremove'
      cases hremove'
      exact h.wakeOne howner hasleep hitems hafter
    · rename_i htimestamp
      cases hremove
      exact h.setTask (Bool.eq_false_iff.mpr htimestamp) hafter
  · cases hsend
    exact ⟨h, rfl, hcurrent⟩

theorem SleepInv.send (h : SleepInv s wakeAt) (hcurrent : running s current) {m : Message}
    (hsend : amcMessageSendFromServiceName current s m = some t) : Kept s t wakeAt current := by
  have hpark : ∀ u, ((s.pool.insert m).map fun pool => { s with pool := pool }) = some u →
      Kept s u wakeAt current := by
    intro u hu
    obtain ⟨pool, -, rfl⟩ := Option.map_eq_some_iff.mp hu
    exact ⟨h.ofOwners rfl, rfl, hcurrent⟩
  rw [amcMessageSendFromServiceName] at hsend
  split at hsend
  · cases hsend
  · split at hsend
    · cases hsend
      exact ⟨h, rfl, hcurrent⟩
    · split at hsend
      · exact hpark t hsend
      · rename_i dest hdest
        split at hsend
        · exact h.deliver hcurrent (List.mem_of_find?_eq_some hdest) hsend
        · exact hpark t hsend

theorem SleepInv.informRecipients {deadService : ServiceName} :
    ∀ {recipients : List ServiceName} {s t : ReferenceState}, SleepInv s wakeAt →
      running s current → informRecipients current deadService recipients s = some t →
      Kept s t wakeAt current := by
  intro recipients
  induction recipients with
  | nil =>
    intro s t h hcurrent hinform
    cases hinform
    exact ⟨h, rfl, hcurrent⟩
  | cons recipient recipients ih =>
    intro s t h hcurrent hinform
    obtain ⟨u, hsend, hrest⟩ := Option.bind_eq_some_iff.mp hinform
    have hu := h.send hcurrent hsend
    have ht := ih hu.inv hu.current hrest
    exact ⟨ht.inv, ht.services.trans hu.services, ht.current⟩

/-! ### Registration and teardown -/

theorem SleepInv.register (h : SleepInv s wakeAt) (hrunning : running s task) {addr : ServicePtr}
    (hreg : amcRegisterService s task name addr = some t) : SleepInv t wakeAt := by
  rw [amcRegisterService] at hreg
  split at hreg
  · rename_i hfree
    obtain ⟨hlive, hnone, -, -⟩ := hfree
    obtain ⟨services, hins, hreg⟩ := Option.bind_eq_some_iff.mp hreg
    cases hreg
    have howners : owners { s with services := services } = owners s ++ [(addr, task)] := by
      rw [owners, (ArrayM.insert_eq_some.mp hins).2.1, List.map_append]
      rfl
    have haddr : ∀ task', (addr, task') ∉ owners s := by
      intro task' hmem
      obtain ⟨service, hservice, heq⟩ := List.mem_map.mp hmem
      have hsame : service.addr = addr := congrArg Prod.fst heq
      exact hlive (hsame ▸ mem_live hservice)
    have htask : ∀ p, (p, task) ∉ owners s := by
      intro p hmem
      obtain ⟨service, hservice, heq⟩ := List.mem_map.mp hmem
      exact absurd (congrArg Prod.snd heq)
        (by simpa using List.find?_eq_none.mp hnone service hservice)
    have hcases : ∀ p task', (p, task') ∈ owners { s with services := services } →
        (p, task') ∈ owners s ∨ (p = addr ∧ task' = task) := by
      intro p task' hmem
      rw [howners, List.mem_append, List.mem_singleton, Prod.mk.injEq] at hmem
      exact hmem
    -- the new service is not on the list, and its task is running
    have hnot : addr ∉ s.asleepProcs.items := fun hmem => by
      obtain ⟨task', hmem'⟩ := h.listed addr hmem
      exact haddr task' hmem'
    refine ⟨?_, ?_, h.nodup, ?_, ?_, ?_, ?_⟩
    · rw [howners, List.map_append, List.nodup_append]
      refine ⟨h.addrs, by simp, fun a ha b hb heq => ?_⟩
      obtain ⟨⟨a', task'⟩, hmem, rfl⟩ := List.mem_map.mp ha
      obtain rfl : b = addr := by simpa using hb
      exact haddr task' (heq ▸ hmem)
    · rw [howners, List.map_append, List.nodup_append]
      refine ⟨h.tasks, by simp, fun a ha b hb heq => ?_⟩
      obtain ⟨⟨p, a'⟩, hmem, rfl⟩ := List.mem_map.mp ha
      obtain rfl : b = task := by simpa using hb
      exact htask p (heq ▸ hmem)
    · intro p hp
      obtain ⟨task', hmem⟩ := h.listed p hp
      exact ⟨task', by rw [howners]; exact List.mem_append_left _ hmem⟩
    · intro task' hawaits
      obtain ⟨p, hmem⟩ := h.owned task' hawaits
      exact ⟨p, by rw [howners]; exact List.mem_append_left _ hmem⟩
    · intro p task' hmem
      rcases hcases p task' hmem with hold | ⟨rfl, rfl⟩
      · exact h.asleep p task' hold
      · refine iff_of_false hnot ?_
        show ¬awaitsTimestamp s task' = true
        rw [running_not_awaits hrunning]
        exact Bool.false_ne_true
    · intro p task' hmem hasleep
      rcases hcases p task' hmem with hold | ⟨rfl, rfl⟩
      · exact h.time p task' hold hasleep
      · exact absurd hasleep hnot
  · cases hreg

theorem SleepInv.subscribe (h : SleepInv s wakeAt) {sourceService remoteService : ServiceName}
    (hs : amcCoreHandleNotifyServiceDied s sourceService remoteService = some t) :
    SleepInv t wakeAt := by
  obtain ⟨source, -, hs⟩ := Option.bind_eq_some_iff.mp hs
  split at hs
  · cases hs
    exact h
  · obtain ⟨listeners, -, hs⟩ := Option.bind_eq_some_iff.mp hs
    obtain ⟨i, hi, rfl⟩ := Option.map_eq_some_iff.mp hs
    exact h.ofOwners (map_set_of_eq (ArrayM.index_eq_some hi) rfl)

theorem awaitReason_not_timestamp : ∀ interrupt : Bool,
    hasFlag (awaitReason interrupt) amcAwaitTimestamp = false := by
  decide

theorem sleepReason_awaits : ∀ awakeOnMessage : Bool,
    hasFlag (if awakeOnMessage = true then amcAwaitTimestamp ||| amcAwaitMessage
      else amcAwaitTimestamp) amcAwaitTimestamp = true := by
  decide

theorem SleepInv.sleep (h : SleepInv s wakeAt) {now ms : BitVec 32} {awakeOnMessage : Bool}
    (hservice : s.serviceWithName sourceService = some service) (hrunning : running s service.task)
    (hfits : now.toNat + ms.toNat < 2 ^ 32)
    (hs : amcCorePutServiceToSleep s sourceService now ms awakeOnMessage = some t) :
    SleepInv t (Function.update wakeAt service.addr (now.toNat + ms.toNat)) := by
  obtain ⟨service', hservice', hs⟩ := Option.bind_eq_some_iff.mp hs
  rw [hservice] at hservice'
  cases hservice'
  obtain ⟨asleepProcs, hins, hs⟩ := Option.bind_eq_some_iff.mp hs
  obtain ⟨info, hblock, hs⟩ := Option.bind_eq_some_iff.mp hs
  cases hs
  have howner := awaits_of_serviceWithName hservice
  have hitems := (ArrayM.insert_eq_some.mp hins).2.1
  have hnot : service.addr ∉ s.asleepProcs.items := fun hmem => by
    have hawaits := (h.asleep _ _ howner).mp hmem
    rw [running_not_awaits hrunning] at hawaits
    cases hawaits
  -- the task's word and time
  have hinfo : hasFlag info.status amcAwaitTimestamp = true ∧
      info.wakeTimestamp.toNat = now.toNat + ms.toNat := by
    rw [taskingBlockTask_eq hblock]
    refine ⟨?_, ?_⟩
    · exact sleepReason_awaits awakeOnMessage
    · show (now + ms).toNat = now.toNat + ms.toNat
      rw [BitVec.toNat_add, Nat.mod_eq_of_lt hfits]
  have hmem : ∀ p, p ∈ asleepProcs.items ↔ p ∈ s.asleepProcs.items ∨ p = service.addr := by
    intro p
    rw [hitems, List.mem_append, List.mem_singleton]
  have hawaits : ∀ task, awaitsTimestamp { s.setTask service.task info with
      asleepProcs := asleepProcs } task =
        if task = service.task then true else awaitsTimestamp s task := by
    intro task
    show awaitsTimestamp (s.setTask service.task info) task = _
    rw [awaitsTimestamp_setTask, hinfo.1]
  refine ⟨h.addrs, h.tasks, ?_, ?_, ?_, ?_, ?_⟩
  · show asleepProcs.items.Nodup
    rw [hitems, List.nodup_append]
    refine ⟨h.nodup, by simp, fun a ha b hb heq => ?_⟩
    obtain rfl : b = service.addr := by simpa using hb
    exact hnot (heq ▸ ha)
  · intro p hp
    rcases (hmem p).mp hp with hold | rfl
    · exact h.listed p hold
    · exact ⟨service.task, howner⟩
  · intro task htask
    rw [hawaits] at htask
    split at htask
    · rename_i heq
      exact ⟨service.addr, heq ▸ howner⟩
    · exact h.owned task htask
  · intro p task hp
    rw [hawaits, hmem p]
    split
    · rename_i heq
      subst heq
      simp [owner_addr_unique h hp howner]
    · rename_i hne
      have hpne : p ≠ service.addr := by
        rintro rfl
        exact hne (owner_task_unique h hp howner)
      rw [or_iff_left hpne]
      exact h.asleep p task hp
  · intro p task hp hasleep
    show (Function.update s.tasks service.task info task).wakeTimestamp.toNat = _
    by_cases heq : p = service.addr
    · subst heq
      rw [owner_task_unique h hp howner, Function.update_self, Function.update_self]
      exact hinfo.2
    · have hne : task ≠ service.task := by
        rintro rfl
        exact heq (owner_addr_unique h hp howner)
      rw [Function.update_of_ne hne, Function.update_of_ne heq]
      exact h.time p task hp (((hmem p).mp hasleep).resolve_right heq)

/-- A service whose task does not wait for a time can go. -/
theorem SleepInv.remove (h : SleepInv s wakeAt) {i : ℕ} (hi : s.services.index service = some i)
    (hawaits : awaitsTimestamp s service.task = false)
    (hrem : s.services.remove i = some services) :
    SleepInv { s with services := services } wakeAt := by
  have hget := ArrayM.index_eq_some hi
  have hitems := (ArrayM.remove_eq_some.mp hrem).2.1
  have hsub : (owners { s with services := services }).Sublist (owners s) := by
    show (services.items.map _).Sublist _
    rw [hitems]
    exact (List.eraseIdx_sublist _ _).map _
  have hkeep : ∀ p task, (p, task) ∈ owners s → awaitsTimestamp s task = true →
      (p, task) ∈ owners { s with services := services } := by
    intro p task hmem htask
    obtain ⟨x, hx, heq⟩ := List.mem_map.mp hmem
    refine List.mem_map.mpr ⟨x, ArrayM.mem_remove_of_ne hget hrem hx ?_, heq⟩
    rintro rfl
    have hsame : x.task = task := congrArg Prod.snd heq
    rw [← hsame, hawaits] at htask
    cases htask
  refine ⟨h.addrs.sublist (hsub.map _), h.tasks.sublist (hsub.map _), h.nodup, ?_, ?_, ?_, ?_⟩
  · intro p hp
    obtain ⟨task, hmem⟩ := h.listed p hp
    exact ⟨task, hkeep p task hmem ((h.asleep p task hmem).mp hp)⟩
  · intro task htask
    obtain ⟨p, hmem⟩ := h.owned task htask
    exact ⟨p, hkeep p task hmem htask⟩
  · exact fun p task hmem => h.asleep p task (hsub.subset hmem)
  · exact fun p task hmem hasleep => h.time p task (hsub.subset hmem) hasleep

theorem SleepInv.teardown (h : SleepInv s wakeAt) (hcurrent : running s current)
    (hzombie : (s.tasks task).status = zombie)
    (hs : amcTeardownServiceForTask current s task = some t) : SleepInv t wakeAt := by
  rw [amcTeardownServiceForTask] at hs
  split at hs
  · cases hs
    exact h
  · rename_i service hservice
    obtain ⟨i, hi, hs⟩ := Option.bind_eq_some_iff.mp hs
    obtain ⟨services, hrem, hs⟩ := Option.bind_eq_some_iff.mp hs
    obtain ⟨recipients, -, hs⟩ := Option.bind_eq_some_iff.mp hs
    have htask : service.task = task := by
      have hfound := List.find?_some hservice
      exact of_decide_eq_true hfound
    have hawaits : awaitsTimestamp s service.task = false := by
      rw [awaitsTimestamp, htask, hzombie]
      exact zombie_not_timestamp
    have hcurrent' : running { s with services := services } current := hcurrent
    exact ((h.remove hi hawaits hrem).informRecipients hcurrent' hs).inv

/-! ### The wake-up pass -/

theorem SleepInv.deref (h : SleepInv s wakeAt) (hservice : service ∈ s.services.items) :
    s.deref service.addr = some service := by
  cases hfind : s.deref service.addr with
  | none =>
    have hnot := List.find?_eq_none.mp hfind service hservice
    exact absurd (decide_eq_true rfl) hnot
  | some other =>
    have hother : other ∈ s.services.items := List.mem_of_find?_eq_some hfind
    have haddr := List.find?_some hfind
    have hnodup : (s.services.items.map (·.addr)).Nodup := by
      have := h.addrs
      rwa [owners, List.map_map] at this
    exact congrArg some (List.inj_on_of_nodup_map hnodup hother hservice (of_decide_eq_true haddr))

/-- The inner loop stops at the first service whose time has come. -/
theorem firstDue_spec (h : SleepInv s wakeAt) (now : BitVec 32) :
    ∀ items : List ServicePtr, (∀ p ∈ items, p ∈ s.asleepProcs.items) →
      (firstDue s now items = some none ∧ ∀ p ∈ items, now.toNat < wakeAt p) ∨
      ∃ service ∈ s.services.items, firstDue s now items = some (some service) ∧
        service.addr ∈ items ∧ wakeAt service.addr ≤ now.toNat := by
  intro items
  induction items with
  | nil => exact fun _ => .inl ⟨rfl, fun p hp => absurd hp List.not_mem_nil⟩
  | cons p items ih =>
    intro hitems
    have hp := hitems p List.mem_cons_self
    obtain ⟨task, hmem⟩ := h.listed p hp
    obtain ⟨service, hservice, heq⟩ := List.mem_map.mp hmem
    obtain ⟨rfl, rfl⟩ := Prod.mk.inj heq
    have htime := h.time _ _ hmem hp
    have hstep : firstDue s now (service.addr :: items) =
        if (s.tasks service.task).wakeTimestamp ≤ now then some (some service)
        else firstDue s now items := by
      rw [firstDue, h.deref hservice]
      rfl
    by_cases hdue : (s.tasks service.task).wakeTimestamp ≤ now
    · refine .inr ⟨service, hservice, by rw [hstep, if_pos hdue], List.mem_cons_self, ?_⟩
      rw [← htime]
      exact BitVec.le_def.mp hdue
    · have hlater : now.toNat < wakeAt service.addr := by
        rw [← htime]
        exact BitVec.lt_def.mp (BitVec.not_le.mp hdue)
      rw [hstep, if_neg hdue]
      rcases ih fun q hq => hitems q (List.mem_cons_of_mem _ hq) with
        ⟨hnone, hall⟩ | ⟨x, hx, hsome, hin, hx'⟩
      · refine .inl ⟨hnone, fun q hq => ?_⟩
        rcases List.mem_cons.mp hq with rfl | hq
        · exact hlater
        · exact hall q hq
      · exact .inr ⟨x, hx, hsome, List.mem_cons_of_mem _ hin, hx'⟩

/-- What a wake-up pass at `now` leaves. -/
structure Woken (s t : ReferenceState) (wakeAt : ServicePtr → ℕ) (now : BitVec 32) : Prop where
  items : ∀ p, p ∈ t.asleepProcs.items ↔ p ∈ s.asleepProcs.items ∧ now.toNat < wakeAt p
  woken : ∀ p task, (p, task) ∈ owners s → p ∈ s.asleepProcs.items → wakeAt p ≤ now.toNat →
    running t task
  others : ∀ p task, (p, task) ∈ owners s →
    ¬(p ∈ s.asleepProcs.items ∧ wakeAt p ≤ now.toNat) → t.tasks task = s.tasks task

/-- **The outer loop**: with a round for every service on the list, or more, it wakes those whose
time has come, one after the other, and no other. -/
theorem wakeLoop_spec (now : BitVec 32) : ∀ {size : ℕ} {s : ReferenceState},
    SleepInv s wakeAt → running s current → s.asleepProcs.size ≤ size →
    ∃ t, (∀ rounds, size ≤ rounds → wakeLoop current now rounds s = some t) ∧
      Kept s t wakeAt current ∧ Woken s t wakeAt now := by
  intro size
  induction size with
  | zero =>
    intro s h hcurrent hsize
    have hempty : s.asleepProcs.items = [] := List.eq_nil_of_length_eq_zero (Nat.le_zero.mp hsize)
    refine ⟨s, ?_, ⟨h, rfl, hcurrent⟩, ⟨?_, ?_, fun _ _ _ _ => rfl⟩⟩
    · intro rounds _
      cases rounds with
      | zero => rfl
      | succ rounds => rw [wakeLoop, hempty]; rfl
    · simp [hempty]
    · intro p task _ hp
      rw [hempty] at hp
      cases hp
  | succ size ih =>
    intro s h hcurrent hsize
    rcases firstDue_spec h now s.asleepProcs.items fun _ hp => hp with
      ⟨hnone, hall⟩ | ⟨service, hservice, hsome, hasleep, hdue⟩
    · refine ⟨s, ?_, ⟨h, rfl, hcurrent⟩, ⟨?_, ?_, fun _ _ _ _ => rfl⟩⟩
      · intro rounds hrounds
        obtain ⟨rounds, rfl⟩ : ∃ n, rounds = n + 1 :=
          Nat.exists_eq_succ_of_ne_zero (Nat.ne_of_gt (Nat.lt_of_lt_of_le size.succ_pos hrounds))
        rw [wakeLoop, hnone]
        rfl
      · exact fun p => ⟨fun hp => ⟨hp, hall p hp⟩, fun hp => hp.1⟩
      · exact fun p task _ hp hdue => absurd (hall p hp) (Nat.not_lt.mpr hdue)
    · have howner := mem_owners hservice
      obtain ⟨asleepProcs, hremove, hitems⟩ := amcRemoveServiceFromSleepList_spec hasleep
      have hne : service.task ≠ current := by
        intro heq
        have hawaits := (h.asleep _ _ howner).mp hasleep
        rw [heq, running_not_awaits hcurrent] at hawaits
        cases hawaits
      have hstatus : (taskingUnblockTaskWithReason current service.task amcAwaitTimestamp
          (s.tasks service.task)).status = runnable := taskingUnblock_of_ne hne _ _
      have hnext : SleepInv { s.setTask service.task (taskingUnblockTaskWithReason current
          service.task amcAwaitTimestamp (s.tasks service.task)) with
            asleepProcs := asleepProcs } wakeAt :=
        h.wakeOne howner hasleep hitems (by rw [hstatus]; exact runnable_not_timestamp)
      have hsize' : asleepProcs.size ≤ size := by
        rw [ArrayM.size, hitems, List.length_erase_of_mem hasleep]
        rw [ArrayM.size] at hsize
        omega
      obtain ⟨t, ht, hkept, hwoken⟩ := ih hnext
        (running_setTask_of_ne (Ne.symm hne) hcurrent) hsize'
      refine ⟨t, ?_, ⟨hkept.inv, hkept.services, hkept.current⟩, ?_⟩
      · intro rounds hrounds
        obtain ⟨rounds, rfl⟩ : ∃ n, rounds = n + 1 :=
          Nat.exists_eq_succ_of_ne_zero (Nat.ne_of_gt (Nat.lt_of_lt_of_le size.succ_pos hrounds))
        rw [wakeLoop, hsome]
        show (amcRemoveServiceFromSleepList s.asleepProcs service.addr).bind _ = some t
        rw [hremove]
        exact ht rounds (Nat.le_of_succ_le_succ hrounds)
      have hmem : ∀ p, p ∈ asleepProcs.items ↔ p ≠ service.addr ∧ p ∈ s.asleepProcs.items := by
        intro p
        rw [hitems, h.nodup.mem_erase_iff]
      refine ⟨?_, ?_, ?_⟩
      · intro p
        rw [hwoken.items p]
        show p ∈ asleepProcs.items ∧ _ ↔ _
        rw [hmem p]
        constructor
        · exact fun hp => ⟨hp.1.2, hp.2⟩
        · refine fun hp => ⟨⟨?_, hp.1⟩, hp.2⟩
          rintro rfl
          omega
      · intro p task hp hin hpdue
        by_cases heq : p = service.addr
        · -- it has been made runnable in this round, and nothing is done to it later
          subst heq
          obtain rfl := owner_task_unique h hp howner
          have hlater := hwoken.others service.addr service.task hp fun hc =>
            ((hmem service.addr).mp hc.1).1 rfl
          show (t.tasks service.task).status = runnable
          rw [hlater]
          show (Function.update s.tasks service.task _ service.task).status = runnable
          rw [Function.update_self]
          exact hstatus
        · exact hwoken.woken p task hp ((hmem p).mpr ⟨heq, hin⟩) hpdue
      · intro p task hp hnot
        have hpne : p ≠ service.addr := by
          rintro rfl
          exact hnot ⟨hasleep, hdue⟩
        have htask : task ≠ service.task := by
          rintro rfl
          exact hpne (owner_addr_unique h hp howner)
        rw [hwoken.others p task hp fun hc => hnot ⟨((hmem p).mp hc.1).2, hc.2⟩]
        show Function.update s.tasks service.task _ task = s.tasks task
        rw [Function.update_of_ne htask]

theorem SleepInv.pass (h : SleepInv s wakeAt) (hcurrent : running s current) (now : BitVec 32) :
    ∃ t, amcWakeSleepingServices current now s = some t ∧
      (∀ rounds, s.asleepProcs.size ≤ rounds → wakeLoop current now rounds s = some t) ∧
      Kept s t wakeAt current ∧ Woken s t wakeAt now := by
  obtain ⟨t, ht, hkept, hwoken⟩ := wakeLoop_spec now h hcurrent le_rfl
  refine ⟨t, ?_, ht, hkept, hwoken⟩
  rw [amcWakeSleepingServices]
  split
  · rename_i hearly
    -- where there are no services, there are none on the list
    have hempty : s.asleepProcs.size = 0 := by
      rcases hearly with hservices | hasleep
      · refine List.length_eq_zero_iff.mpr (List.eq_nil_iff_forall_not_mem.mpr fun p hp => ?_)
        obtain ⟨task, hmem⟩ := h.listed p hp
        rw [owners, List.length_eq_zero_iff.mp hservices] at hmem
        cases hmem
      · exact hasleep
    rw [← ht 0 (Nat.le_zero.mpr hempty)]
    rfl
  · exact ht _ le_rfl

end Invariant

/-! ### Every run -/

theorem SleepInv.init : SleepInv SleepState.init.refs SleepState.init.wakeAt := by
  have hawaits : ∀ task, awaitsTimestamp SleepState.init.refs task = false := fun _ =>
    runnable_not_timestamp
  refine ⟨List.nodup_nil, List.nodup_nil, List.nodup_nil, ?_, ?_, ?_, ?_⟩
  · exact fun p hp => absurd hp List.not_mem_nil
  · intro task htask
    rw [hawaits] at htask
    cases htask
  · exact fun p task hp => absurd hp List.not_mem_nil
  · exact fun p task hp => absurd hp List.not_mem_nil

/-- **One step**: one case for each call. -/
theorem sleepInv_step (s : SleepState) (e : SleepEvent) (t : SleepState)
    (h : SleepInv s.refs s.wakeAt) (hkept : SleepKept s e) (hstep : sleepNext s e = some t) :
    SleepInv t.refs t.wakeAt := by
  obtain ⟨henabled, hnext⟩ := Option.ite_none_right_eq_some.mp hstep
  obtain ⟨refs, hrefs, rfl⟩ := Option.map_eq_some_iff.mp hnext
  show SleepInv refs (wakeAtNext s e)
  cases e with
  | register task name addr => exact h.register henabled hrefs
  | notifyServiceDied sourceService remoteService => exact h.subscribe hrefs
  | sleep sourceService now ms awakeOnMessage =>
    obtain ⟨service, hservice, -⟩ := Option.bind_eq_some_iff.mp hrefs
    have hat : wakeAtNext s (.sleep sourceService now ms awakeOnMessage) =
        Function.update s.wakeAt service.addr (now.toNat + ms.toNat) := by
      rw [wakeAtNext, hservice]
    rw [hat]
    exact h.sleep hservice (henabled.2 service hservice) hkept hrefs
  | send current m => exact (h.send henabled hrefs).inv
  | wake current now =>
    obtain ⟨t, ht, -, hpass, -⟩ := h.pass henabled.2 now
    have hsame : refs = t := Option.some.inj (hrefs.symm.trans ht)
    rw [hsame]
    exact hpass.inv
  | unblock current task reason =>
    cases hrefs
    by_cases hself : task = current
    · -- the caller itself is left alone
      have hawaits : awaitsTimestamp s.refs task = false := running_not_awaits (hself ▸ henabled)
      refine h.setTask hawaits ?_
      rw [taskingUnblockTaskWithReason, if_pos hself]
      exact hawaits
    · refine h.setTask (hkept.resolve_left hself) ?_
      rw [taskingUnblock_of_ne hself]
      exact runnable_not_timestamp
  | await task interrupt =>
    obtain ⟨info, hblock, rfl⟩ := Option.map_eq_some_iff.mp hrefs
    refine h.setTask (running_not_awaits henabled) ?_
    rw [taskingBlockTask_eq hblock]
    exact awaitReason_not_timestamp interrupt
  | exit task =>
    cases hrefs
    exact h.setTask (running_not_awaits henabled) zombie_not_timestamp
  | teardown current task => exact h.teardown henabled.1 henabled.2 hrefs
  | threadCreate task =>
    cases hrefs
    refine h.setTask (Bool.eq_false_iff.mpr fun hawaits => ?_) runnable_not_timestamp
    obtain ⟨p, hmem⟩ := h.owned task hawaits
    obtain ⟨service, hservice, heq⟩ := List.mem_map.mp hmem
    have hnot := List.find?_eq_none.mp henabled service hservice
    exact hnot (decide_eq_true (congrArg Prod.snd heq))

/-- What the invariant says of the list and of a pass. -/
theorem SleepInv.law {s : SleepState} (h : SleepInv s.refs s.wakeAt) : SleepLaw s := by
  refine ⟨h.nodup, ?_, ?_, ?_⟩
  · intro p hp
    obtain ⟨task, hmem⟩ := h.listed p hp
    obtain ⟨service, hservice, heq⟩ := List.mem_map.mp hmem
    exact List.mem_map.mpr ⟨service, hservice, congrArg Prod.fst heq⟩
  · exact fun service hservice => h.asleep _ _ (mem_owners hservice)
  · intro current now hcurrent _
    obtain ⟨t, ht, hrounds, hkept, hwoken⟩ := h.pass hcurrent now
    refine ⟨t, ht, hrounds, hkept.services, ?_, ?_⟩
    · intro p
      rw [hwoken.items p]
      refine and_congr_right fun hp => ?_
      rw [due, and_iff_right hp, Nat.not_le]
    · intro service hservice
      refine ⟨fun hdue => ?_, fun hnot => ?_⟩
      · exact hwoken.woken _ _ (mem_owners hservice) hdue.1 hdue.2
      · exact hwoken.others _ _ (mem_owners hservice) hnot

/-- **Services asleep.**  In every state of a run in which no sleeping task is made runnable from
elsewhere and every wake time fits into 32 bits, a service is on the list once at most, and exactly
while its task waits for a time; a wake-up pass then ends, wakes those whose time has come and
takes exactly them off the list. -/
theorem sleeping_services (es : List SleepEvent)
    (hkept : Meets sleepNext SleepKept SleepState.init es) :
    ∀ s, Passes sleepNext SleepState.init es s → SleepLaw s := by
  intro s hpass
  exact (passes_invariant sleepInv_step SleepInv.init hkept hpass).law

instance (s : SleepState) : ∀ e : SleepEvent, Decidable (SleepKept s e)
  | .sleep _ now ms _ => inferInstanceAs (Decidable (now.toNat + ms.toNat < 2 ^ 32))
  | .unblock current task _ =>
    inferInstanceAs (Decidable (task = current ∨ awaitsTimestamp s.refs task = false))
  | .register .. | .notifyServiceDied .. | .send .. | .wake .. | .await .. | .exit .. |
    .teardown .. | .threadCreate .. => inferInstanceAs (Decidable True)

/-- Two services fall asleep, one for a time and one until a message comes as well; the message
comes before the time of either, and the pass wakes the one that is left. -/
theorem sleeping_services_two :
    Meets sleepNext SleepKept SleepState.init
      [.register 1 nameA 100, .register 2 nameB 200, .sleep nameA 5 10 false,
        .sleep nameB 6 10 true, .send 9 ⟨nameA, nameB, [], 0⟩, .wake 9 15] ∧
    ∀ s, Passes sleepNext SleepState.init
      [.register 1 nameA 100, .register 2 nameB 200, .sleep nameA 5 10 false,
        .sleep nameB 6 10 true, .send 9 ⟨nameA, nameB, [], 0⟩, .wake 9 15] s → SleepLaw s :=
  ⟨by decide +kernel, sleeping_services _ (by decide +kernel)⟩

/-- **Runnable, and on the list.**  The service of task 1 falls asleep for 10 ms, and an interrupt
makes its task runnable: the list still has it. -/
theorem interrupted_sleeper :
    ∃ s, run sleepNext SleepState.init
        [.register 1 nameA 100, .sleep nameA 5 10 false, .unblock 9 1 irqWait] = some s ∧
      ¬SleepLaw s := by
  refine ⟨_, rfl, fun hlaw => ?_⟩
  have hawaits := (hlaw.exactly _ (List.mem_singleton_self _)).mp (List.mem_singleton_self _)
  exact absurd hawaits (by decide)

end Axle.Kernel.SleepingServices
