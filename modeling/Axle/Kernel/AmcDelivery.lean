import Axle.Kernel.AmcMessage
import Axle.Kernel.ArrayM
import Axle.Kernel.TaskState
import Axle.Lib.StepRun
import Mathlib.Logic.Function.Basic
import Mathlib.Tactic

/-!
# Registration, sending and receiving

A message to a name nobody has registered is parked in a pool; a task that registers the name
puts its service on the list of services, where senders find it, and *after that* drains the pool
into the new inbox.  A sender looks the name up and acts on the answer later.  Every task runs
`amc_register_service` once and then sends and awaits; the schedule decides whose next action
comes next.

Two answers can be out of date when they are acted on.  A sender that found no service may park
its message after the pool was drained, and the message stays there; a sender that found the
service may append to its inbox before the pool is drained, ahead of an earlier message of its
own.  Two tasks may also both find a name free and register it.

* `DeliveryOk` — none of the three happens at this step;
* `delivery_sound` — **PROVED**: in a run of such steps messages from one sender to one
  destination are received in the order they were sent, each at most once, and one sent to a
  registered name is received, in its inbox, or still in its sender's hands;
* `parked_after_drain`, `overtaken_by_direct` — schedules that lose and reorder a message.
-/

namespace Axle.Kernel.AmcDelivery

open Axle.Kernel.Amc Axle.Kernel.TaskState Axle.Lib.StepRun

/-! ### The pool of messages to unknown services -/

def messagesToUnknownServicesPoolSize : ℕ := 512

/-- The first loop of `_amc_deliver_pending_messages_to_new_service`: the indexes, counted from
`i`, of the messages to `name`. -/
def messageIndexesToDeliver (name : ServiceName) : ℕ → List Message → List ℕ
  | _, [] => []
  | i, m :: ms =>
    if m.dest = name then i :: messageIndexesToDeliver name (i + 1) ms
    else messageIndexesToDeliver name (i + 1) ms

/-- One round of the second loop: `idxShift` messages were taken out before. -/
def deliverPendingMessage (name : ServiceName) (idx idxShift : ℕ) (pool : ArrayM Message) :
    Option (Message × ArrayM Message) := do
  let msg ← pool.lookup (idx - idxShift)
  if msg.dest = name then
    let pool ← pool.remove (idx - idxShift)
    return (msg, pool)
  else none

variable {name a d : ServiceName} {idx idxShift : ℕ} {pool : ArrayM Message}
  {t task dest : TaskPtr} {inbox after before : List Message} {m : Message} {doomed : Bool}
  {services : ArrayM (TaskPtr × ServiceName)} {sources : List ServiceName}

theorem messageIndexes_append : ∀ (before after : List Message) (i : ℕ),
    (∀ m ∈ before, m.dest ≠ name) →
    messageIndexesToDeliver name i (before ++ after)
      = messageIndexesToDeliver name (i + before.length) after := by
  intro before
  induction before with
  | nil => exact fun after i _ => rfl
  | cons m before ih =>
    intro after i h
    rw [List.cons_append, messageIndexesToDeliver, if_neg (h m List.mem_cons_self),
      ih after (i + 1) (fun m' hm' => h m' (List.mem_cons_of_mem m hm')), List.length_cons]
    congr 1
    omega

theorem messageIndexes_eq_nil : ∀ {pool : List Message} {i : ℕ},
    messageIndexesToDeliver name i pool = [] → ∀ m ∈ pool, m.dest ≠ name := by
  intro pool
  induction pool with
  | nil => exact fun _ m hm => absurd hm List.not_mem_nil
  | cons m pool ih =>
    intro i h
    rw [messageIndexesToDeliver] at h
    split at h
    · cases h
    · rename_i hne
      intro m' hm'
      rcases List.mem_cons.mp hm' with rfl | hm'
      · exact hne
      · exact ih h m' hm'

theorem messageIndexes_eq_cons : ∀ {pool : List Message} {i idx : ℕ}
    {rest : List ℕ}, messageIndexesToDeliver name i pool = idx :: rest →
    ∃ before m after, pool = before ++ m :: after ∧ idx = i + before.length ∧ m.dest = name ∧
      (∀ m' ∈ before, m'.dest ≠ name) ∧ rest = messageIndexesToDeliver name (idx + 1) after := by
  intro pool
  induction pool with
  | nil =>
    intro i idx rest h
    cases h
  | cons m pool ih =>
    intro i idx rest h
    rw [messageIndexesToDeliver] at h
    split at h
    · rename_i hm
      obtain ⟨rfl, rfl⟩ := List.cons.inj h
      exact ⟨[], m, pool, rfl, rfl, hm, by simp, rfl⟩
    · rename_i hm
      obtain ⟨before, m', after, rfl, hidx, hm', hbefore, hrest⟩ := ih h
      refine ⟨m :: before, m', after, rfl, ?_, hm', ?_, hrest⟩
      · rw [List.length_cons]
        omega
      · intro x hx
        rcases List.mem_cons.mp hx with rfl | hx
        · exact hm
        · exact hbefore x hx

/-- **One round of the drain**, in a pool whose remaining indexes are `idx :: rest`: it takes out
the first message to `name`, and `rest` are the indexes that remain. -/
theorem deliverPendingMessage_spec {rest : List ℕ}
    (h : messageIndexesToDeliver name idxShift pool.items = idx :: rest) :
    ∃ before m after pool', pool.items = before ++ m :: after ∧ m.dest = name ∧
      (∀ m' ∈ before, m'.dest ≠ name) ∧
      deliverPendingMessage name idx idxShift pool = some (m, pool') ∧
      pool'.items = before ++ after ∧
      messageIndexesToDeliver name (idxShift + 1) pool'.items = rest := by
  obtain ⟨before, m, after, hpool, hidx, hm, hbefore, hrest⟩ := messageIndexes_eq_cons h
  have hpos : idx - idxShift = before.length := by omega
  have hlt : before.length < pool.items.length := by
    rw [hpool, List.length_append, List.length_cons]
    omega
  obtain ⟨pool', hrem, hitems, -⟩ := pool.exists_remove hlt
  have hitems' : pool'.items = before ++ after := by
    rw [hitems, hpool, List.eraseIdx_append_of_length_le (le_refl _)]
    simp
  refine ⟨before, m, after, pool', hpool, hm, hbefore, ?_, hitems', ?_⟩
  · have hlookup : pool.lookup before.length = some m := by
      rw [ArrayM.lookup, hpool]
      simp
    simp [deliverPendingMessage, hpos, hlookup, hm, hrem]
  · rw [hitems', messageIndexes_append before after _ hbefore, hrest, hidx]
    congr 1
    omega

/-! ### The tasks -/

/-- Where a task is.  `doomed` marks a registration under a substitute name, made for a task
whose name was taken and which is killed as soon as it returns. -/
inductive TaskPc where
  | fresh
  | check (name : ServiceName) (doomed : Bool)
  | insert (name : ServiceName) (doomed : Bool)
  | drain (name : ServiceName) (doomed : Bool)
  /-- Draining, with the pool's lock, what is left of the indexes. -/
  | draining (name : ServiceName) (doomed : Bool) (indexes : List ℕ) (idxShift : ℕ)
  | ready (name : ServiceName)
  | dead (name : ServiceName)
  /-- Sending: no service was found. -/
  | park (name : ServiceName) (m : Message)
  /-- Sending: the service of `dest` was found. -/
  | deliver (name : ServiceName) (m : Message) (dest : TaskPtr)
  deriving DecidableEq

structure DeliveryState where
  pcs : TaskPtr → TaskPc
  /-- `_amc_services`: the task and the name of each service. -/
  services : ArrayM (TaskPtr × ServiceName)
  pool : ArrayM Message
  poolHolder : Option TaskPtr
  inbox : TaskPtr → List Message
  /-- Every message sent, in the order of the calls, and every message received; the code keeps
  neither. -/
  sent : List Message
  received : List Message

def DeliveryState.init : DeliveryState :=
  ⟨fun _ => .fresh, ArrayM.create 256, ArrayM.create messagesToUnknownServicesPoolSize, none,
    fun _ => [], [], []⟩

inductive DeliveryEvent where
  | register (task : TaskPtr) (name : ServiceName)
  | send (task : TaskPtr) (dest : ServiceName) (body : List (BitVec 8))
  | await (task : TaskPtr) (sources : List ServiceName)
  /-- The next action of the kernel call the task is in, at `now` ms since boot. -/
  | step (task : TaskPtr) (now : ℕ)

def amcServiceWithName (services : ArrayM (TaskPtr × ServiceName)) (name : ServiceName) :
    Option TaskPtr :=
  (services.items.find? fun service => service.2 = name).map (·.1)

/-- The name a task gets whose own is taken, cut off as `snprintf` does. -/
def invalidServiceName (name : ServiceName) (now : ℕ) : ServiceName :=
  ("com.axle.invalid_service_name_".toList ++ name ++ "_time_".toList
    ++ (toString now).toList).take (amcMaxServiceNameLen - 1)

def DeliveryState.setPc (s : DeliveryState) (task : TaskPtr) (pc : TaskPc) : DeliveryState :=
  { s with pcs := Function.update s.pcs task pc }

def DeliveryState.setInbox (s : DeliveryState) (task : TaskPtr) (inbox : List Message) :
    DeliveryState :=
  { s with inbox := Function.update s.inbox task inbox }

def DeliveryState.append (s : DeliveryState) (task : TaskPtr) (m : Message) : DeliveryState :=
  s.setInbox task (s.inbox task ++ [m])

def taskStep (s : DeliveryState) (task : TaskPtr) (now : ℕ) : Option DeliveryState :=
  match s.pcs task with
  | .fresh | .ready _ | .dead _ => none
  | .check name doomed =>
    match amcServiceWithName s.services name with
    | some _ => some (s.setPc task (.check (invalidServiceName name now) true))
    | none => some (s.setPc task (.insert name doomed))
  | .insert name doomed => do
    let services ← s.services.insert (task, name)
    return { s.setPc task (.drain name doomed) with services := services }
  | .drain name doomed =>
    if s.poolHolder = none then
      some { s.setPc task (.draining name doomed
        (messageIndexesToDeliver name 0 s.pool.items) 0) with poolHolder := some task }
    else none
  | .draining name doomed (idx :: indexes) idxShift => do
    let (m, pool) ← deliverPendingMessage name idx idxShift s.pool
    return { (s.setPc task (.draining name doomed indexes (idxShift + 1))).append task m with
      pool := pool }
  | .draining name doomed [] _ =>
    some { s.setPc task (if doomed then .dead name else .ready name) with poolHolder := none }
  | .park name m =>
    if s.poolHolder = none then do
      let pool ← s.pool.insert m
      return { s.setPc task (.ready name) with pool := pool }
    else none
  | .deliver name m dest => some ((s.setPc task (.ready name)).append dest m)

def deliveryNext (s : DeliveryState) : DeliveryEvent → Option DeliveryState
  | .register task name =>
    if s.pcs task = .fresh ∧ name.length < amcMaxServiceNameLen then
      some (s.setPc task (.check name false))
    else none
  | .send task dest body =>
    match s.pcs task with
    | .ready name =>
      if amcMaxMessageSize ≤ body.length then none
      else if dest = axleCoreServiceName then some s
      else
        let m : Message := ⟨name, dest, body, s.sent.length⟩
        let pc := match amcServiceWithName s.services dest with
          | none => .park name m
          | some destTask => .deliver name m destTask
        some { s.setPc task pc with sent := s.sent ++ [m] }
    | _ => none
  | .await task sources =>
    match s.pcs task with
    | .ready _ =>
      match amcSelectMessageToDeliver sources none (s.inbox task) with
      | none => none
      | some (none, _) => some s
      | some (some m, inbox) =>
        some { s.setInbox task inbox with received := s.received ++ [m] }
    | _ => none
  | .step task now => taskStep s task now

/-! ### When an answer is out of date -/

/-- The service of the name is registered and the pool was drained for it. -/
def TaskPc.drained : TaskPc → Bool
  | .ready _ | .dead _ | .park _ _ | .deliver _ _ _ => true
  | _ => false

def between (a d : ServiceName) (m : Message) : Bool := m.source = a && m.dest = d

/-- A message is parked only while the pool has still to be drained for its destination; it is
appended directly only when no message from the same sender to the same destination is in the
pool; a name is registered only when it still is free. -/
def upToDate (s : DeliveryState) : DeliveryEvent → Bool
  | .step task _ =>
    match s.pcs task with
    | .park _ m =>
      s.services.items.all fun service => service.2 ≠ m.dest || !(s.pcs service.1).drained
    | .deliver _ m _ => s.pool.items.all fun m' => !between m.source m.dest m'
    | .insert name _ => s.services.items.all fun service => service.2 ≠ name
    | _ => true
  | _ => true

def DeliveryOk (s : DeliveryState) (e : DeliveryEvent) : Prop := upToDate s e = true

instance (s : DeliveryState) (e : DeliveryEvent) : Decidable (DeliveryOk s e) :=
  inferInstanceAs (Decidable (upToDate s e = true))

section

variable (s : DeliveryState)

@[simp] theorem setPc_self (task : TaskPtr) (pc : TaskPc) : (s.setPc task pc).pcs task = pc := by
  simp [DeliveryState.setPc]

theorem setPc_of_ne (pc : TaskPc) (h : t ≠ task) : (s.setPc task pc).pcs t = s.pcs t := by
  simp [DeliveryState.setPc, h]

@[simp] theorem setInbox_self (task : TaskPtr) (inbox : List Message) :
    (s.setInbox task inbox).inbox task = inbox := by
  simp [DeliveryState.setInbox]

theorem setInbox_of_ne (inbox : List Message) (h : t ≠ task) :
    (s.setInbox task inbox).inbox t = s.inbox t := by
  simp [DeliveryState.setInbox, h]

end

/-! ### The shape of a state -/

/-- The name of the task's service, once it is on the list. -/
def TaskPc.serviceName : TaskPc → Option ServiceName
  | .fresh | .check _ _ | .insert _ _ => none
  | .drain name _ | .draining name _ _ _ | .ready name | .dead name | .park name _
  | .deliver name _ _ => some name

/-- The message the task is sending. -/
def TaskPc.inFlight : TaskPc → List Message
  | .park _ m | .deliver _ m _ => [m]
  | _ => []

/-- A message found its destination: the task it holds has that name. -/
def TaskPc.TargetOk (pcs : TaskPtr → TaskPc) : TaskPc → Prop
  | .deliver _ m dest => (pcs dest).serviceName = some m.dest
  | _ => True

structure ShapeInv (s : DeliveryState) : Prop where
  names : (s.services.items.map (·.2)).Nodup
  service : ∀ t name, (t, name) ∈ s.services.items ↔ (s.pcs t).serviceName = some name
  inbox_dest : ∀ t, ∀ m ∈ s.inbox t, (s.pcs t).serviceName = some m.dest
  flight_source : ∀ t, ∀ m ∈ (s.pcs t).inFlight, (s.pcs t).serviceName = some m.source
  target : ∀ t, (s.pcs t).TargetOk s.pcs

def DeliveryState.inboxOf (s : DeliveryState) (d : ServiceName) : List Message :=
  match amcServiceWithName s.services d with
  | some t => s.inbox t
  | none => []

def DeliveryState.flightOf (s : DeliveryState) (a : ServiceName) : List Message :=
  match amcServiceWithName s.services a with
  | some t => (s.pcs t).inFlight
  | none => []

theorem find_of_mem_nodup {services : List (TaskPtr × ServiceName)}
    (hnodup : (services.map (·.2)).Nodup) (hmem : (t, name) ∈ services) :
    services.find? (fun service => service.2 = name) = some (t, name) := by
  induction services with
  | nil => cases hmem
  | cons service services ih =>
    rw [List.map_cons, List.nodup_cons] at hnodup
    rcases List.mem_cons.mp hmem with rfl | hmem
    · simp
    · have hne : service.2 ≠ name := by
        intro he
        exact hnodup.1 (he ▸ List.mem_map_of_mem hmem)
      rw [List.find?_cons_of_neg (by simpa using hne)]
      exact ih hnodup.2 hmem

variable {s : DeliveryState} {pc : TaskPc}

section

variable (h : ShapeInv s)

include h

theorem ShapeInv.owner_iff :
    amcServiceWithName s.services name = some t ↔ (s.pcs t).serviceName = some name := by
  rw [← h.service t name, amcServiceWithName, Option.map_eq_some_iff]
  constructor
  · rintro ⟨⟨t', name'⟩, hfind, rfl⟩
    have hname : name' = name := by simpa using List.find?_some hfind
    exact hname ▸ List.mem_of_find?_eq_some hfind
  · intro hmem
    exact ⟨(t, name), find_of_mem_nodup h.names hmem, rfl⟩

theorem ShapeInv.owner_none (hfree : ∀ service ∈ s.services.items, service.2 ≠ name) :
    amcServiceWithName s.services name = none := by
  rw [Option.eq_none_iff_forall_ne_some]
  intro t ht
  exact hfree (t, name) ((h.service t name).mpr (h.owner_iff.mp ht)) rfl

theorem ShapeInv.inboxOf_eq (ht : (s.pcs t).serviceName = some name) :
    s.inboxOf name = s.inbox t := by
  rw [DeliveryState.inboxOf, h.owner_iff.mpr ht]

theorem ShapeInv.flightOf_eq (ht : (s.pcs t).serviceName = some name) :
    s.flightOf name = (s.pcs t).inFlight := by
  rw [DeliveryState.flightOf, h.owner_iff.mpr ht]

theorem ShapeInv.flightOf_setPc (ht : (s.pcs task).serviceName = some a) (pc : TaskPc) :
    (s.setPc task pc).flightOf a = pc.inFlight := by
  have howner : amcServiceWithName (s.setPc task pc).services a = some task := h.owner_iff.mpr ht
  rw [DeliveryState.flightOf, howner]
  show ((s.setPc task pc).pcs task).inFlight = pc.inFlight
  rw [setPc_self]

theorem ShapeInv.flightOf_setPc_of_ne (ht : (s.pcs task).serviceName ≠ some a) (pc : TaskPc) :
    (s.setPc task pc).flightOf a = s.flightOf a := by
  have hsame : amcServiceWithName (s.setPc task pc).services a
      = amcServiceWithName s.services a := rfl
  rw [DeliveryState.flightOf, DeliveryState.flightOf, hsame]
  cases howner : amcServiceWithName s.services a with
  | none => rfl
  | some t =>
    have hne : t ≠ task := fun he => ht (he ▸ h.owner_iff.mp howner)
    show ((s.setPc task pc).pcs t).inFlight = (s.pcs t).inFlight
    rw [setPc_of_ne s pc hne]

theorem ShapeInv.inboxOf_setInbox (ht : (s.pcs task).serviceName = some d) (inbox : List Message) :
    (s.setInbox task inbox).inboxOf d = inbox := by
  have howner : amcServiceWithName (s.setInbox task inbox).services d = some task :=
    h.owner_iff.mpr ht
  rw [DeliveryState.inboxOf, howner]
  exact setInbox_self s task inbox

theorem ShapeInv.inboxOf_setInbox_of_ne (ht : (s.pcs task).serviceName ≠ some d)
    (inbox : List Message) : (s.setInbox task inbox).inboxOf d = s.inboxOf d := by
  have hsame : amcServiceWithName (s.setInbox task inbox).services d
      = amcServiceWithName s.services d := rfl
  rw [DeliveryState.inboxOf, DeliveryState.inboxOf, hsame]
  cases howner : amcServiceWithName s.services d with
  | none => rfl
  | some t =>
    have hne : t ≠ task := fun he => ht (he ▸ h.owner_iff.mp howner)
    exact setInbox_of_ne s inbox hne

theorem ShapeInv.setPc (task : TaskPtr) (pc : TaskPc)
    (hname : pc.serviceName = (s.pcs task).serviceName)
    (hflight : ∀ m ∈ pc.inFlight, pc.serviceName = some m.source) (htarget : pc.TargetOk s.pcs) :
    ShapeInv (s.setPc task pc) := by
  have hnames : ∀ t, ((s.setPc task pc).pcs t).serviceName = (s.pcs t).serviceName := by
    intro t
    by_cases ht : t = task
    · rw [ht, setPc_self, hname]
    · rw [setPc_of_ne s pc ht]
  have htargets : ∀ pc' : TaskPc, pc'.TargetOk s.pcs → pc'.TargetOk (s.setPc task pc).pcs := by
    intro pc' hpc'
    cases pc' with
    | deliver name m dest =>
      show ((s.setPc task pc).pcs dest).serviceName = some m.dest
      rw [hnames dest]
      exact hpc'
    | _ => trivial
  refine ⟨h.names, ?_, ?_, ?_, ?_⟩
  · intro t name
    rw [hnames t]
    exact h.service t name
  · intro t m hm
    rw [hnames t]
    exact h.inbox_dest t m hm
  · intro t m hm
    by_cases ht : t = task
    · rw [ht, setPc_self] at hm ⊢
      exact hflight m hm
    · rw [setPc_of_ne s pc ht] at hm ⊢
      exact h.flight_source t m hm
  · intro t
    by_cases ht : t = task
    · rw [ht, setPc_self]
      exact htargets pc htarget
    · rw [setPc_of_ne s pc ht]
      exact htargets _ (h.target t)

theorem ShapeInv.setInbox (hinbox : ∀ m ∈ inbox, (s.pcs task).serviceName = some m.dest) :
    ShapeInv (s.setInbox task inbox) := by
  refine ⟨h.names, h.service, ?_, h.flight_source, h.target⟩
  intro t m hm
  by_cases ht : t = task
  · rw [ht, setInbox_self] at hm
    exact ht ▸ hinbox m hm
  · rw [setInbox_of_ne s inbox ht] at hm
    exact h.inbox_dest t m hm

theorem ShapeInv.append (task : TaskPtr) (hm : (s.pcs task).serviceName = some m.dest) :
    ShapeInv (s.append task m) := by
  refine h.setInbox ?_
  intro m' hm'
  rcases List.mem_append.mp hm' with hold | hnew
  · exact h.inbox_dest task m' hold
  · rw [List.mem_singleton.mp hnew]
    exact hm

theorem ShapeInv.withPool (pool : ArrayM Message) (holder : Option TaskPtr) :
    ShapeInv { s with pool := pool, poolHolder := holder } :=
  ⟨h.names, h.service, h.inbox_dest, h.flight_source, h.target⟩

/-- A service comes onto the list under a name that is free. -/
theorem ShapeInv.insert (htask : (s.pcs task).serviceName = none)
    (hfree : ∀ service ∈ s.services.items, service.2 ≠ name)
    (hitems : services.items = s.services.items ++ [(task, name)]) :
    ShapeInv { s.setPc task (.drain name doomed) with services := services } := by
  have hempty : s.inbox task = [] := by
    rw [List.eq_nil_iff_forall_not_mem]
    intro m hm
    have := h.inbox_dest task m hm
    rw [htask] at this
    cases this
  have hpcs : ∀ t, t ≠ task → (s.setPc task (.drain name doomed)).pcs t = s.pcs t :=
    fun t ht => setPc_of_ne s _ ht
  refine ⟨?_, ?_, ?_, ?_, ?_⟩
  · show (services.items.map (·.2)).Nodup
    rw [hitems, List.map_append, List.nodup_append]
    refine ⟨h.names, by simp, ?_⟩
    intro x hx y hy
    obtain ⟨service, hservice, rfl⟩ := List.mem_map.mp hx
    obtain rfl : y = name := by simpa using hy
    exact hfree service hservice
  · intro t n
    show (t, n) ∈ services.items ↔ ((s.setPc task (.drain name doomed)).pcs t).serviceName = some n
    rw [hitems, List.mem_append, h.service t n]
    by_cases ht : t = task
    · rw [ht, setPc_self, htask]
      simp [TaskPc.serviceName, eq_comm]
    · rw [hpcs t ht]
      simp [ht]
  · intro t m hm
    show ((s.setPc task (.drain name doomed)).pcs t).serviceName = some m.dest
    have hm' : m ∈ s.inbox t := hm
    by_cases ht : t = task
    · rw [ht, hempty] at hm'
      cases hm'
    · rw [hpcs t ht]
      exact h.inbox_dest t m hm'
  · intro t m hm
    have hm' : m ∈ ((s.setPc task (.drain name doomed)).pcs t).inFlight := hm
    show ((s.setPc task (.drain name doomed)).pcs t).serviceName = some m.source
    by_cases ht : t = task
    · rw [ht, setPc_self] at hm'
      cases hm'
    · rw [hpcs t ht] at hm' ⊢
      exact h.flight_source t m hm'
  · intro t
    show ((s.setPc task (.drain name doomed)).pcs t).TargetOk (s.setPc task (.drain name doomed)).pcs
    by_cases ht : t = task
    · rw [ht, setPc_self]
      trivial
    · rw [hpcs t ht]
      have htarget := h.target t
      cases hpc : s.pcs t with
      | deliver n m dest =>
        rw [hpc] at htarget
        have hdest : dest ≠ task := by
          intro he
          have hsome : (s.pcs dest).serviceName = some m.dest := htarget
          rw [he, htask] at hsome
          cases hsome
        show ((s.setPc task (.drain name doomed)).pcs dest).serviceName = some m.dest
        rw [hpcs dest hdest]
        exact htarget
      | _ => trivial

end

/-! ### The ledger -/

@[simp] theorem between_eq_true : between a d m = true ↔ m.source = a ∧ m.dest = d := by
  simp [between]

theorem between_of_source (h : m.source ≠ a) : between a d m = false := by
  simp [between, h]

theorem between_of_dest (h : m.dest ≠ d) : between a d m = false := by
  simp [between, h]

/-- Where the messages from `a` to `d` are, the oldest first. -/
def DeliveryState.path (s : DeliveryState) (a d : ServiceName) : List Message :=
  (s.received ++ s.inboxOf d ++ s.pool.items ++ s.flightOf a).filter (between a d)

def LedgerInv (s : DeliveryState) : Prop :=
  ∀ a d, s.sent.filter (between a d) = s.path a d

section

variable (h : ShapeInv s)

include h

/-- A step of a task that neither takes up a message nor parts with one. -/
theorem ShapeInv.path_setPc (task : TaskPtr) (pc : TaskPc)
    (hflight : pc.inFlight = (s.pcs task).inFlight) (a d : ServiceName) :
    (s.setPc task pc).path a d = s.path a d := by
  have hsame : (s.setPc task pc).flightOf a = s.flightOf a := by
    by_cases ht : (s.pcs task).serviceName = some a
    · rw [h.flightOf_setPc ht, h.flightOf_eq ht, hflight]
    · exact h.flightOf_setPc_of_ne ht pc
  show (s.received ++ s.inboxOf d ++ s.pool.items ++ (s.setPc task pc).flightOf a).filter _ = _
  rw [hsame]
  rfl

theorem owner_insert (hfree : ∀ service ∈ s.services.items, service.2 ≠ name)
    (hitems : services.items = s.services.items ++ [(task, name)]) (n : ServiceName) :
    amcServiceWithName services n
      = if n = name then some task else amcServiceWithName s.services n := by
  have hfind : services.items.find? (fun service => service.2 = n)
      = (s.services.items.find? fun service => service.2 = n).or
          ([(task, name)].find? fun service => service.2 = n) := by
    rw [hitems, List.find?_append]
  by_cases hn : n = name
  · have hnone := h.owner_none hfree
    rw [amcServiceWithName, Option.map_eq_none_iff] at hnone
    rw [if_pos hn, amcServiceWithName, hfind, hn, hnone]
    simp
  · rw [if_neg hn, amcServiceWithName, amcServiceWithName, hfind]
    simp [Ne.symm hn]

/-- Coming onto the list, a task has neither received nor sent anything. -/
theorem ShapeInv.path_insert (htask : (s.pcs task).serviceName = none)
    (hfree : ∀ service ∈ s.services.items, service.2 ≠ name)
    (hitems : services.items = s.services.items ++ [(task, name)]) (a d : ServiceName) :
    DeliveryState.path { s.setPc task (.drain name doomed) with services := services } a d
      = s.path a d := by
  have hnone := h.owner_none hfree
  have hempty : s.inbox task = [] := by
    rw [List.eq_nil_iff_forall_not_mem]
    intro m hm
    have := h.inbox_dest task m hm
    rw [htask] at this
    cases this
  have hinbox : DeliveryState.inboxOf
      { s.setPc task (.drain name doomed) with services := services } d = s.inboxOf d := by
    rw [DeliveryState.inboxOf, DeliveryState.inboxOf, owner_insert h hfree hitems]
    by_cases hd : d = name
    · rw [if_pos hd, hd, hnone]
      exact hempty
    · rw [if_neg hd]
      rfl
  have hflight : DeliveryState.flightOf
      { s.setPc task (.drain name doomed) with services := services } a = s.flightOf a := by
    have hsame := h.flightOf_setPc_of_ne (a := a) (by rw [htask]; simp) (.drain name doomed)
    rw [DeliveryState.flightOf, owner_insert h hfree hitems]
    by_cases ha : a = name
    · rw [if_pos ha, DeliveryState.flightOf, ha, hnone]
      show ((s.setPc task (.drain name doomed)).pcs task).inFlight = []
      rw [setPc_self]
      rfl
    · rw [if_neg ha, ← hsame]
      rfl
  rw [DeliveryState.path, hinbox, hflight]
  rfl

theorem ShapeInv.path_send (htask : s.pcs task = .ready name) (hpc : pc.inFlight = [m])
    (hm : m.source = name) (a d : ServiceName) :
    (s.setPc task pc).path a d = s.path a d ++ [m].filter (between a d) := by
  have hname : (s.pcs task).serviceName = some name := by rw [htask]; rfl
  have hpath : (s.setPc task pc).path a d
      = (s.received ++ s.inboxOf d ++ s.pool.items ++ (s.setPc task pc).flightOf a).filter
          (between a d) := rfl
  rw [hpath]
  by_cases ha : name = a
  · have hbefore : s.flightOf name = [] := by
      rw [h.flightOf_eq hname, htask]
      rfl
    rw [← ha, h.flightOf_setPc hname, hpc, DeliveryState.path, hbefore]
    simp
  · rw [h.flightOf_setPc_of_ne (by rw [hname]; simpa using ha), DeliveryState.path]
    rw [show [m].filter (between a d) = [] by simp [between_of_source (hm ▸ ha)]]
    simp

theorem ShapeInv.path_park (htask : s.pcs task = .park name m)
    (hpool : pool.items = s.pool.items ++ [m]) (a d : ServiceName) :
    DeliveryState.path { s.setPc task (.ready name) with pool := pool } a d = s.path a d := by
  have hname : (s.pcs task).serviceName = some name := by rw [htask]; rfl
  have hm : name = m.source := by
    have := h.flight_source task m (by rw [htask]; exact List.mem_singleton_self m)
    rw [hname] at this
    exact Option.some.inj this
  have hpath : DeliveryState.path { s.setPc task (.ready name) with pool := pool } a d
      = (s.received ++ s.inboxOf d ++ pool.items ++ (s.setPc task (.ready name)).flightOf a).filter
          (between a d) := rfl
  rw [hpath, hpool, DeliveryState.path]
  by_cases ha : name = a
  · have hbefore : s.flightOf a = [m] := by
      rw [← ha, h.flightOf_eq hname, htask]
      rfl
    have hafter : (s.setPc task (.ready name)).flightOf a = [] := by
      rw [← ha, h.flightOf_setPc hname]
      rfl
    rw [hbefore, hafter]
    simp
  · rw [h.flightOf_setPc_of_ne (by rw [hname]; simpa using ha)]
    simp [between_of_source (show m.source ≠ a from hm ▸ ha)]

/-- A task appends the message it holds to an inbox; nothing from it to that destination is left
in the pool. -/
theorem ShapeInv.path_deliver (htask : s.pcs task = .deliver name m dest)
    (hpool : ∀ m' ∈ s.pool.items, between m.source m.dest m' = false) (a d : ServiceName) :
    ((s.setPc task (.ready name)).append dest m).path a d = s.path a d := by
  have hname : (s.pcs task).serviceName = some name := by rw [htask]; rfl
  have hm : name = m.source := by
    have := h.flight_source task m (by rw [htask]; exact List.mem_singleton_self m)
    rw [hname] at this
    exact Option.some.inj this
  have hdest : (s.pcs dest).serviceName = some m.dest := by
    have := h.target task
    rw [htask] at this
    exact this
  -- the two changes are independent: the inbox of `dest` and what `task` holds
  have hpath : ((s.setPc task (.ready name)).append dest m).path a d
      = (s.received ++ (s.append dest m).inboxOf d ++ s.pool.items
          ++ (s.setPc task (.ready name)).flightOf a).filter (between a d) := rfl
  have hinbox : ((s.append dest m).inboxOf d).filter (between a d)
      = (s.inboxOf d).filter (between a d) ++ [m].filter (between a d) := by
    by_cases hd : m.dest = d
    · rw [DeliveryState.append, ← hd, h.inboxOf_setInbox hdest, h.inboxOf_eq hdest,
        List.filter_append]
    · rw [DeliveryState.append, h.inboxOf_setInbox_of_ne (by rw [hdest]; simpa using hd)]
      simp [between_of_dest hd]
  rw [hpath, DeliveryState.path]
  simp only [List.filter_append, hinbox]
  by_cases ha : name = a
  · have hbefore : s.flightOf a = [m] := by
      rw [← ha, h.flightOf_eq hname, htask]
      rfl
    have hafter : (s.setPc task (.ready name)).flightOf a = [] := by
      rw [← ha, h.flightOf_setPc hname]
      rfl
    rw [hbefore, hafter]
    by_cases hd : m.dest = d
    · have hnone : s.pool.items.filter (between a d) = [] := by
        rw [List.filter_eq_nil_iff]
        intro m' hm'
        rw [← ha, hm, ← hd, hpool m' hm']
        simp
      rw [hnone]
      simp
    · simp [between_of_dest hd]
  · rw [h.flightOf_setPc_of_ne (by rw [hname]; simpa using ha)]
    simp [between_of_source (show m.source ≠ a from hm ▸ ha)]

/-- One round of the drain: the first message to the name goes from the pool to the inbox. -/
theorem ShapeInv.path_drain (hname : (s.pcs task).serviceName = some m.dest)
    (hpc : pc.inFlight = (s.pcs task).inFlight) (hitems : s.pool.items = before ++ m :: after)
    (hbefore : ∀ m' ∈ before, m'.dest ≠ m.dest) (hpool : pool.items = before ++ after)
    (a d : ServiceName) :
    DeliveryState.path { (s.setPc task pc).append task m with pool := pool } a d = s.path a d := by
  have hpath : DeliveryState.path { (s.setPc task pc).append task m with pool := pool } a d
      = (s.received ++ (s.append task m).inboxOf d ++ pool.items
          ++ (s.setPc task pc).flightOf a).filter (between a d) := rfl
  have hflight : ((s.setPc task pc).flightOf a) = s.flightOf a := by
    by_cases ht : (s.pcs task).serviceName = some a
    · rw [h.flightOf_setPc ht, h.flightOf_eq ht, hpc]
    · exact h.flightOf_setPc_of_ne ht pc
  rw [hpath, hflight, hpool, DeliveryState.path, hitems]
  by_cases hd : m.dest = d
  · have hnone : before.filter (between a d) = [] := by
      rw [List.filter_eq_nil_iff]
      intro m' hm'
      rw [between_of_dest (hd ▸ hbefore m' hm')]
      simp
    rw [DeliveryState.append, ← hd, h.inboxOf_setInbox hname, h.inboxOf_eq hname]
    rw [hd]
    simp only [List.filter_append, List.filter_cons, hnone]
    by_cases ha : m.source = a <;> simp [ha, hd]
  · rw [DeliveryState.append, h.inboxOf_setInbox_of_ne (by rw [hname]; simpa using hd)]
    simp [between_of_dest hd]

/-- An await takes out the first message of an admitted source. -/
theorem ShapeInv.path_await (hinbox : s.inbox task = before ++ m :: after)
    (hadm : admitsSource sources m = true)
    (hbefore : ∀ m' ∈ before, admitsSource sources m' = false) (a d : ServiceName) :
    DeliveryState.path
      { s.setInbox task (before ++ after) with received := s.received ++ [m] } a d
      = s.path a d := by
  have hname : (s.pcs task).serviceName = some m.dest :=
    h.inbox_dest task m (by rw [hinbox]; simp)
  have hpath : DeliveryState.path
      { s.setInbox task (before ++ after) with received := s.received ++ [m] } a d
      = (s.received ++ [m] ++ (s.setInbox task (before ++ after)).inboxOf d ++ s.pool.items
          ++ s.flightOf a).filter (between a d) := rfl
  rw [hpath, DeliveryState.path]
  by_cases hd : m.dest = d
  · rw [← hd, h.inboxOf_setInbox hname, h.inboxOf_eq hname, hinbox, hd]
    by_cases ha : m.source = a
    · -- every message from `a` is admitted, so none was passed over
      have hnone : before.filter (between a d) = [] := by
        rw [List.filter_eq_nil_iff]
        intro m' hm' hb
        have hsource : m'.source = m.source := by rw [(between_eq_true.mp hb).1, ha]
        have hsame : admitsSource sources m' = admitsSource sources m := by
          rw [admitsSource, admitsSource, hsource]
        rw [hbefore m' hm', hadm] at hsame
        cases hsame
      simp only [List.filter_append, List.filter_cons, hnone]
      simp [ha, hd]
    · simp [between_of_source ha]
  · rw [h.inboxOf_setInbox_of_ne (by rw [hname]; simpa using hd)]
    simp [between_of_dest hd]

end

/-! ### The pool and its lock -/

structure PoolInv (s : DeliveryState) : Prop where
  drained : ∀ t name, (s.pcs t).drained = true → (s.pcs t).serviceName = some name →
    ∀ m ∈ s.pool.items, m.dest ≠ name
  draining : ∀ t name doomed indexes idxShift, s.pcs t = .draining name doomed indexes idxShift →
    s.poolHolder = some t ∧ messageIndexesToDeliver name idxShift s.pool.items = indexes

theorem PoolInv.setPc (h : PoolInv s)
    (hdrained : pc.drained = true → ∀ name, pc.serviceName = some name →
      ∀ m ∈ s.pool.items, m.dest ≠ name)
    (hpc : ∀ name doomed indexes idxShift, pc ≠ .draining name doomed indexes idxShift) :
    PoolInv (s.setPc task pc) := by
  refine ⟨?_, ?_⟩
  · intro t name hd hn
    by_cases ht : t = task
    · rw [ht, setPc_self] at hd hn
      exact hdrained hd name hn
    · rw [setPc_of_ne s pc ht] at hd hn
      exact h.drained t name hd hn
  · intro t name doomed indexes idxShift hdraining
    by_cases ht : t = task
    · rw [ht, setPc_self] at hdraining
      exact absurd hdraining (hpc name doomed indexes idxShift)
    · rw [setPc_of_ne s pc ht] at hdraining
      exact h.draining t name doomed indexes idxShift hdraining

theorem PoolInv.not_draining (h : PoolInv s)
    (hlock : s.poolHolder = none ∨ s.poolHolder = some task) (ht : t ≠ task) (name : ServiceName)
    (doomed : Bool) (indexes : List ℕ) (idxShift : ℕ) :
    s.pcs t ≠ .draining name doomed indexes idxShift := by
  intro hdraining
  have hholder := (h.draining t name doomed indexes idxShift hdraining).1
  rcases hlock with hlock | hlock
  · rw [hlock] at hholder
    cases hholder
  · rw [hlock] at hholder
    exact ht (Option.some.inj hholder).symm

/-- A step under the lock: the task that holds it, or takes it, changes the pool. -/
theorem PoolInv.locked (h : PoolInv s) (hlock : s.poolHolder = none ∨ s.poolHolder = some task)
    {holder : Option TaskPtr} (hself : pc.drained = true → ∀ name, pc.serviceName = some name →
      ∀ m ∈ pool.items, m.dest ≠ name) (hothers : ∀ t, t ≠ task → (s.pcs t).drained = true → ∀ name,
      (s.pcs t).serviceName = some name → ∀ m ∈ pool.items, m.dest ≠ name)
    (hpc : ∀ name doomed indexes idxShift, pc = .draining name doomed indexes idxShift →
      holder = some task ∧ messageIndexesToDeliver name idxShift pool.items = indexes) :
    PoolInv { s.setPc task pc with pool := pool, poolHolder := holder } := by
  refine ⟨?_, ?_⟩
  · intro t name hd hn
    have hd' : ((s.setPc task pc).pcs t).drained = true := hd
    have hn' : ((s.setPc task pc).pcs t).serviceName = some name := hn
    by_cases ht : t = task
    · rw [ht, setPc_self] at hd' hn'
      exact hself hd' name hn'
    · rw [setPc_of_ne s pc ht] at hd' hn'
      exact hothers t ht hd' name hn'
  · intro t name doomed indexes idxShift hdraining
    have hd' : (s.setPc task pc).pcs t = .draining name doomed indexes idxShift := hdraining
    by_cases ht : t = task
    · rw [ht, setPc_self] at hd'
      rw [ht]
      exact hpc name doomed indexes idxShift hd'
    · rw [setPc_of_ne s pc ht] at hd'
      exact absurd hd' (h.not_draining hlock ht name doomed indexes idxShift)

/-! ### The invariant -/

structure DeliveryInv (s : DeliveryState) : Prop where
  shape : ShapeInv s
  ledger : LedgerInv s
  pool : PoolInv s
  marks : s.sent.map (·.mark) = List.range s.sent.length

theorem DeliveryInv.init : DeliveryInv DeliveryState.init := by
  refine ⟨⟨by simp [DeliveryState.init], ?_, ?_, ?_, ?_⟩, ?_, ⟨?_, ?_⟩, rfl⟩
  · simp [DeliveryState.init, TaskPc.serviceName]
  · intro t m hm
    cases hm
  · intro t m hm
    cases hm
  · intro t
    trivial
  · intro a d
    rfl
  · intro t name hd
    cases hd
  · intro t name doomed indexes idxShift hd
    cases hd

theorem DeliveryInv.setPc (h : DeliveryInv s) (hname : pc.serviceName = (s.pcs task).serviceName)
    (hnone : pc.serviceName = none) (hflight : pc.inFlight = (s.pcs task).inFlight)
    (hempty : pc.inFlight = []) (htarget : pc.TargetOk s.pcs) : DeliveryInv (s.setPc task pc) := by
  refine ⟨h.shape.setPc task pc hname (by simp [hempty]) htarget, ?_, h.pool.setPc ?_ ?_,
    h.marks⟩
  · intro a d
    rw [h.shape.path_setPc task pc hflight]
    exact h.ledger a d
  · intro _ name hn
    rw [hnone] at hn
    cases hn
  · intro name doomed indexes idxShift hpc
    rw [hpc] at hnone
    cases hnone

theorem DeliveryInv.insertService (h : DeliveryInv s) (htask : s.pcs task = .insert name doomed)
    (hfree : ∀ service ∈ s.services.items, service.2 ≠ name)
    (hins : s.services.insert (task, name) = some services) :
    DeliveryInv { s.setPc task (.drain name doomed) with services := services } := by
  have hname : (s.pcs task).serviceName = none := by rw [htask]; rfl
  have hitems := (ArrayM.insert_eq_some.mp hins).2.1
  have hpool : PoolInv (s.setPc task (.drain name doomed)) :=
    h.pool.setPc (fun hd => by cases hd) (by simp)
  refine ⟨h.shape.insert hname hfree hitems, ?_, ⟨hpool.drained, hpool.draining⟩, h.marks⟩
  intro a d
  rw [h.shape.path_insert hname hfree hitems]
  exact h.ledger a d

theorem DeliveryInv.startDrain (h : DeliveryInv s) (htask : s.pcs task = .drain name doomed)
    (hlock : s.poolHolder = none) :
    DeliveryInv { s.setPc task (.draining name doomed
      (messageIndexesToDeliver name 0 s.pool.items) 0) with poolHolder := some task } := by
  have hshape := h.shape.setPc task
    (.draining name doomed (messageIndexesToDeliver name 0 s.pool.items) 0)
    (by rw [htask]; rfl) (by simp [TaskPc.inFlight]) trivial
  have hpool : PoolInv { s.setPc task (.draining name doomed
      (messageIndexesToDeliver name 0 s.pool.items) 0) with
        pool := s.pool, poolHolder := some task } := by
    refine h.pool.locked (Or.inl hlock) (fun hd => by cases hd)
      (fun t _ hd name' hn => h.pool.drained t name' hd hn) ?_
    intro name' doomed' indexes idxShift hpc
    injection hpc with hname hdoomed hindexes hshift
    subst hname hshift
    exact ⟨rfl, hindexes⟩
  refine ⟨hshape.withPool _ _, ?_, hpool, h.marks⟩
  intro a d
  have hpath := h.shape.path_setPc task
    (.draining name doomed (messageIndexesToDeliver name 0 s.pool.items) 0)
    (by rw [htask]; rfl) a d
  exact (h.ledger a d).trans hpath.symm

theorem DeliveryInv.drainOne (h : DeliveryInv s) {indexes : List ℕ}
    (htask : s.pcs task = .draining name doomed (idx :: indexes) idxShift)
    (hone : deliverPendingMessage name idx idxShift s.pool = some (m, pool)) :
    DeliveryInv { (s.setPc task (.draining name doomed indexes (idxShift + 1))).append task m with
      pool := pool } := by
  obtain ⟨hlock, hindexes⟩ := h.pool.draining task name doomed (idx :: indexes) idxShift htask
  obtain ⟨before, m', after, pool', hitems, hm, hbefore, hone', hpool', hrest⟩ :=
    deliverPendingMessage_spec hindexes
  rw [hone] at hone'
  obtain ⟨rfl, rfl⟩ : m = m' ∧ pool = pool' := by simpa using hone'
  have hname : (s.pcs task).serviceName = some m.dest := by rw [htask, hm]; rfl
  have hsub : ∀ m' ∈ pool.items, m' ∈ s.pool.items := by
    intro m' hm'
    rw [hpool'] at hm'
    rw [hitems]
    rcases List.mem_append.mp hm' with hin | hin
    · exact List.mem_append_left _ hin
    · exact List.mem_append_right _ (List.mem_cons_of_mem _ hin)
  have hmoved := h.shape.setPc task (.draining name doomed indexes (idxShift + 1))
    (by rw [htask]; rfl) (by simp [TaskPc.inFlight]) trivial
  have hshape := hmoved.append task (m := m) (by rw [setPc_self, hm]; rfl)
  have hpool : PoolInv { s.setPc task (.draining name doomed indexes (idxShift + 1)) with
      pool := pool, poolHolder := s.poolHolder } := by
    refine h.pool.locked (Or.inr hlock) (fun hd => by cases hd) ?_ ?_
    · intro t _ hd name' hn m' hm'
      exact h.pool.drained t name' hd hn m' (hsub m' hm')
    · intro name' doomed' indexes' idxShift' hpc
      injection hpc with hname' hdoomed hindexes' hshift
      subst hname' hindexes' hshift
      exact ⟨hlock, hrest⟩
  refine ⟨hshape.withPool _ _, ?_, ⟨hpool.drained, hpool.draining⟩, h.marks⟩
  intro a d
  rw [h.shape.path_drain hname (by rw [htask]; rfl) hitems (fun m' hm' => hm ▸ hbefore m' hm')
    hpool']
  exact h.ledger a d

theorem DeliveryInv.endDrain (h : DeliveryInv s)
    (htask : s.pcs task = .draining name doomed [] idxShift) (hpcname : pc.serviceName = some name)
    (hpcflight : pc.inFlight = []) (hpctarget : pc.TargetOk s.pcs)
    (hpc : ∀ name doomed indexes idxShift, pc ≠ .draining name doomed indexes idxShift) :
    DeliveryInv { s.setPc task pc with poolHolder := none } := by
  obtain ⟨hlock, hindexes⟩ := h.pool.draining task name doomed [] idxShift htask
  have hshape := h.shape.setPc task pc (by rw [htask, hpcname]; rfl)
    (by simp [hpcflight]) hpctarget
  have hpool : PoolInv { s.setPc task pc with pool := s.pool, poolHolder := none } := by
    refine h.pool.locked (Or.inr hlock) ?_
      (fun t _ hd name' hn => h.pool.drained t name' hd hn) ?_
    · intro _ name' hn
      rw [hpcname] at hn
      obtain rfl := Option.some.inj hn
      exact messageIndexes_eq_nil hindexes
    · intro name' doomed' indexes idxShift' hpc'
      exact absurd hpc' (hpc name' doomed' indexes idxShift')
  refine ⟨hshape.withPool _ _, ?_, hpool, h.marks⟩
  intro a d
  have hpath := h.shape.path_setPc task pc (by rw [htask, hpcflight]; rfl) a d
  exact (h.ledger a d).trans hpath.symm

theorem DeliveryInv.parkMessage (h : DeliveryInv s) (htask : s.pcs task = .park name m)
    (hok : ∀ service ∈ s.services.items, service.2 = m.dest → (s.pcs service.1).drained = false)
    (hlock : s.poolHolder = none) (hins : s.pool.insert m = some pool) :
    DeliveryInv { s.setPc task (.ready name) with pool := pool } := by
  have hitems := (ArrayM.insert_eq_some.mp hins).2.1
  have hname : (s.pcs task).serviceName = some name := by rw [htask]; rfl
  -- what is parked is for none of the names already drained
  have hnew : ∀ t, (s.pcs t).drained = true → ∀ name', (s.pcs t).serviceName = some name' →
      ∀ m' ∈ pool.items, m'.dest ≠ name' := by
    intro t hd name' hn m' hm'
    rw [hitems, List.mem_append, List.mem_singleton] at hm'
    rcases hm' with hold | rfl
    · exact h.pool.drained t name' hd hn m' hold
    · intro he
      have := hok (t, name') ((h.shape.service t name').mpr hn) he.symm
      rw [hd] at this
      cases this
  have hshape := h.shape.setPc task (.ready name) (by rw [htask]; rfl)
    (by simp [TaskPc.inFlight]) trivial
  have hpool :
      PoolInv { s.setPc task (.ready name) with pool := pool, poolHolder := s.poolHolder } := by
    refine h.pool.locked (Or.inl hlock) ?_ (fun t _ hd => hnew t hd) (by simp)
    intro _ name' hn
    exact hnew task (by rw [htask]; rfl) name' (hname.trans hn)
  refine ⟨hshape.withPool _ _, ?_, ⟨hpool.drained, hpool.draining⟩, h.marks⟩
  intro a d
  rw [h.shape.path_park htask hitems]
  exact h.ledger a d

theorem DeliveryInv.deliverMessage (h : DeliveryInv s) (htask : s.pcs task = .deliver name m dest)
    (hok : ∀ m' ∈ s.pool.items, between m.source m.dest m' = false) :
    DeliveryInv ((s.setPc task (.ready name)).append dest m) := by
  have hname : (s.pcs task).serviceName = some name := by rw [htask]; rfl
  have hdest : (s.pcs dest).serviceName = some m.dest := by
    have := h.shape.target task
    rw [htask] at this
    exact this
  have hmoved := h.shape.setPc task (.ready name) (by rw [htask]; rfl)
    (by simp [TaskPc.inFlight]) trivial
  have hdest' : ((s.setPc task (.ready name)).pcs dest).serviceName = some m.dest := by
    by_cases ht : dest = task
    · rw [ht] at hdest
      rw [ht, setPc_self]
      exact hname.symm.trans hdest
    · rw [setPc_of_ne s _ ht]
      exact hdest
  have hpool : PoolInv (s.setPc task (.ready name)) := by
    refine h.pool.setPc ?_ (by simp)
    intro _ name' hn
    exact h.pool.drained task name' (by rw [htask]; rfl) (hname.trans hn)
  refine ⟨hmoved.append dest hdest', ?_, ⟨hpool.drained, hpool.draining⟩, h.marks⟩
  intro a d
  rw [h.shape.path_deliver htask hok]
  exact h.ledger a d

theorem taskStep_inv {s t : DeliveryState} (h : DeliveryInv s) {now : ℕ}
    (hok : DeliveryOk s (.step task now)) (hs : taskStep s task now = some t) : DeliveryInv t := by
  rw [DeliveryOk, upToDate] at hok
  unfold taskStep at hs
  split at hs
  · cases hs
  · cases hs
  · cases hs
  · rename_i name doomed htask
    split at hs
    · exact Option.some.inj hs ▸ h.setPc (by rw [htask]; rfl) rfl (by rw [htask]; rfl) rfl trivial
    · exact Option.some.inj hs ▸ h.setPc (by rw [htask]; rfl) rfl (by rw [htask]; rfl) rfl trivial
  · rename_i name doomed htask
    obtain ⟨services, hins, hs⟩ := Option.bind_eq_some_iff.mp hs
    rw [htask] at hok
    exact Option.some.inj hs ▸ h.insertService htask (by simpa using hok) hins
  · rename_i name doomed htask
    split at hs
    · rename_i hlock
      exact Option.some.inj hs ▸ h.startDrain htask hlock
    · cases hs
  · rename_i name doomed idx indexes idxShift htask
    obtain ⟨⟨m, pool⟩, hone, hs⟩ := Option.bind_eq_some_iff.mp hs
    exact Option.some.inj hs ▸ h.drainOne htask hone
  · rename_i name doomed idxShift htask
    refine Option.some.inj hs ▸ h.endDrain htask ?_ ?_ ?_ ?_ <;> cases doomed <;> simp
    all_goals first | rfl | trivial
  · rename_i name m htask
    split at hs
    · rename_i hlock
      obtain ⟨pool, hins, hs⟩ := Option.bind_eq_some_iff.mp hs
      rw [htask] at hok
      refine Option.some.inj hs ▸ h.parkMessage htask ?_ hlock hins
      intro service hservice hdest
      have := List.all_eq_true.mp hok service hservice
      simpa [hdest] using this
    · cases hs
  · rename_i name m dest htask
    rw [htask] at hok
    refine Option.some.inj hs ▸ h.deliverMessage htask ?_
    intro m' hm'
    simpa using List.all_eq_true.mp hok m' hm'

/-- A task takes a message up: the next number goes with it. -/
theorem DeliveryInv.sendMessage (h : DeliveryInv s) (htask : s.pcs task = .ready name)
    (hm : m.source = name) (hmark : m.mark = s.sent.length) (hpcname : pc.serviceName = some name)
    (hpcflight : pc.inFlight = [m]) (hpctarget : pc.TargetOk s.pcs)
    (hpc : ∀ name doomed indexes idxShift, pc ≠ .draining name doomed indexes idxShift) :
    DeliveryInv { s.setPc task pc with sent := s.sent ++ [m] } := by
  have hname : (s.pcs task).serviceName = some name := by rw [htask]; rfl
  have hshape := h.shape.setPc task pc (hpcname.trans hname.symm)
    (by simp [hpcflight, hpcname, hm]) hpctarget
  have hpool : PoolInv (s.setPc task pc) := by
    refine h.pool.setPc ?_ hpc
    intro _ name' hn
    refine h.pool.drained task name' (by rw [htask]; rfl) ?_
    rw [hname, ← hpcname]
    exact hn
  refine ⟨⟨hshape.names, hshape.service, hshape.inbox_dest, hshape.flight_source, hshape.target⟩,
    ?_, ⟨hpool.drained, hpool.draining⟩, ?_⟩
  · intro a d
    have hpath := h.shape.path_send htask hpcflight hm a d
    have hledger := h.ledger a d
    show (s.sent ++ [m]).filter (between a d) = (s.setPc task pc).path a d
    rw [hpath, List.filter_append, hledger]
  · show (s.sent ++ [m]).map (·.mark) = List.range (s.sent ++ [m]).length
    rw [List.map_append, h.marks, List.length_append, List.length_singleton, List.range_succ]
    simp [hmark]

theorem DeliveryInv.receiveMessage (h : DeliveryInv s)
    (hselect : amcSelectMessageToDeliver sources none (s.inbox task) = some (some m, inbox)) :
    DeliveryInv { s.setInbox task inbox with received := s.received ++ [m] } := by
  obtain ⟨before, after, hinbox, rfl, hadm, hbefore⟩ := select_some hselect
  have hshape : ShapeInv (s.setInbox task (before ++ after)) := by
    refine h.shape.setInbox ?_
    intro m' hm'
    refine h.shape.inbox_dest task m' ?_
    rw [hinbox]
    rcases List.mem_append.mp hm' with hin | hin
    · exact List.mem_append_left _ hin
    · exact List.mem_append_right _ (List.mem_cons_of_mem _ hin)
  refine ⟨⟨hshape.names, hshape.service, hshape.inbox_dest, hshape.flight_source, hshape.target⟩,
    ?_, ⟨h.pool.drained, h.pool.draining⟩, h.marks⟩
  intro a d
  rw [h.shape.path_await hinbox hadm hbefore]
  exact h.ledger a d

/-- **The step lemma.** -/
theorem deliveryNext_inv (s : DeliveryState) (e : DeliveryEvent) (t : DeliveryState)
    (h : DeliveryInv s) (hok : DeliveryOk s e) (hs : deliveryNext s e = some t) :
    DeliveryInv t := by
  cases e with
  | register task name =>
    rw [deliveryNext] at hs
    split at hs
    · rename_i hfresh
      exact Option.some.inj hs ▸
        h.setPc (by rw [hfresh.1]; rfl) rfl (by rw [hfresh.1]; rfl) rfl trivial
    · cases hs
  | send task dest body =>
    rw [deliveryNext] at hs
    split at hs
    · rename_i name htask
      split at hs
      · cases hs
      · split at hs
        · exact Option.some.inj hs ▸ h
        · cases howner : amcServiceWithName s.services dest with
          | none =>
            rw [howner] at hs
            exact Option.some.inj hs ▸ h.sendMessage htask rfl rfl rfl rfl trivial (by simp)
          | some destTask =>
            rw [howner] at hs
            exact Option.some.inj hs ▸ h.sendMessage htask rfl rfl rfl rfl
              (h.shape.owner_iff.mp howner) (by simp)
    · cases hs
  | await task sources =>
    rw [deliveryNext] at hs
    split at hs
    · split at hs
      · cases hs
      · exact Option.some.inj hs ▸ h
      · rename_i hselect
        exact Option.some.inj hs ▸ h.receiveMessage hselect
    · cases hs
  | step task now => exact taskStep_inv h hok hs

/-! ### What the invariant says -/

section

variable (h : DeliveryInv s)

include h

theorem DeliveryInv.sent_nodup : s.sent.Nodup := by
  refine List.Nodup.of_map (·.mark) ?_
  rw [h.marks]
  exact List.nodup_range

theorem DeliveryInv.received_first (a d : ServiceName) :
    s.received.filter (between a d) <+: s.sent.filter (between a d) := by
  rw [h.ledger a d, DeliveryState.path, List.append_assoc, List.append_assoc, List.filter_append]
  exact List.prefix_append _ _

theorem DeliveryInv.received_nodup : s.received.Nodup := by
  rw [List.nodup_iff_count_le_one]
  intro m
  have hself : between m.source m.dest m = true := by simp
  calc s.received.count m
      = (s.received.filter (between m.source m.dest)).count m := (List.count_filter hself).symm
    _ ≤ (s.sent.filter (between m.source m.dest)).count m :=
        (h.received_first m.source m.dest).sublist.count_le m
    _ ≤ 1 := List.nodup_iff_count_le_one.mp (h.sent_nodup.filter _) m

theorem DeliveryInv.sent_mem (hm : m ∈ s.sent) :
    m ∈ s.received ∨ m ∈ s.inboxOf m.dest ∨ m ∈ s.pool.items ∨ m ∈ s.flightOf m.source := by
  have hin : m ∈ s.path m.source m.dest := by
    rw [← h.ledger]
    exact List.mem_filter.mpr ⟨hm, by simp⟩
  have hmem := (List.mem_filter.mp hin).1
  simpa [List.mem_append, or_assoc] using hmem

end

/-- The registration under this name is complete. -/
def DeliveryState.Registered (s : DeliveryState) (name : ServiceName) : Prop :=
  ∃ t, (t, name) ∈ s.services.items ∧ (s.pcs t).drained = true

/-- The message is in the hands of its sender, inside `amc_message_send`. -/
def DeliveryState.InHand (s : DeliveryState) (m : Message) : Prop :=
  ∃ t name, s.pcs t = .park name m ∨ ∃ dest, s.pcs t = .deliver name m dest

theorem inHand_of_flightOf (hm : m ∈ s.flightOf a) : s.InHand m := by
  rw [DeliveryState.flightOf] at hm
  cases howner : amcServiceWithName s.services a with
  | none =>
    rw [howner] at hm
    cases hm
  | some t =>
    rw [howner] at hm
    have hflight : m ∈ (s.pcs t).inFlight := hm
    cases hpc : s.pcs t with
    | park name m' =>
      rw [hpc] at hflight
      obtain rfl := List.mem_singleton.mp hflight
      exact ⟨t, name, Or.inl hpc⟩
    | deliver name m' dest =>
      rw [hpc] at hflight
      obtain rfl := List.mem_singleton.mp hflight
      exact ⟨t, name, Or.inr ⟨dest, hpc⟩⟩
    | _ =>
      rw [hpc] at hflight
      cases hflight

/-- **Delivery.**  In every state a run of such steps passes through: no message is received
twice or without having been sent; what was received from one sender by one destination is, in
order, the first part of what was sent; and a message to a name whose registration is complete
was received, is in the inbox of that name, or is still in its sender's hands. -/
theorem delivery_sound (events : List DeliveryEvent)
    (hok : Meets deliveryNext DeliveryOk DeliveryState.init events) (s : DeliveryState)
    (hs : Passes deliveryNext DeliveryState.init events s) :
    s.received.Nodup ∧ (∀ m ∈ s.received, m ∈ s.sent) ∧
      (∀ a d, s.received.filter (between a d) <+: s.sent.filter (between a d)) ∧
      (∀ m ∈ s.sent, s.Registered m.dest →
        m ∈ s.received ∨ m ∈ s.inboxOf m.dest ∨ s.InHand m) ∧
      ∀ m ∈ s.sent, m ∈ s.received ∨ m ∈ s.inboxOf m.dest ∨ m ∈ s.pool.items ∨ s.InHand m := by
  have h : DeliveryInv s := passes_invariant deliveryNext_inv DeliveryInv.init hok hs
  refine ⟨h.received_nodup, ?_, h.received_first, ?_, ?_⟩
  · intro m hm
    have hfirst := h.received_first m.source m.dest
    have hin : m ∈ s.sent.filter (between m.source m.dest) :=
      hfirst.subset (List.mem_filter.mpr ⟨hm, by simp⟩)
    exact (List.mem_filter.mp hin).1
  · rintro m hm ⟨t, hservice, hdrained⟩
    rcases h.sent_mem hm with hr | hi | hp | hf
    · exact Or.inl hr
    · exact Or.inr (Or.inl hi)
    · exact absurd rfl (h.pool.drained t m.dest hdrained ((h.shape.service t m.dest).mp hservice)
        m hp)
    · exact Or.inr (Or.inr (inHand_of_flightOf hf))
  · intro m hm
    rcases h.sent_mem hm with hr | hi | hp | hf
    · exact Or.inl hr
    · exact Or.inr (Or.inl hi)
    · exact Or.inr (Or.inr (Or.inl hp))
    · exact Or.inr (Or.inr (Or.inr (inHand_of_flightOf hf)))

/-! ### Schedules -/

def nameA : ServiceName := ['a']

def nameB : ServiceName := ['b']

/-- A registration with nothing in the pool, from the call to its return. -/
def registers (task : TaskPtr) (name : ServiceName) : List DeliveryEvent :=
  [.register task name, .step task 0, .step task 0, .step task 0, .step task 0]

/-- A message parked before its destination registers, drained, and received. -/
def parkedSchedule : List DeliveryEvent :=
  registers 1 nameA ++ [.send 1 nameB [], .step 1 0, .register 2 nameB, .step 2 0, .step 2 0,
    .step 2 0, .step 2 0, .step 2 0, .await 2 [nameA]]

theorem delivery_sound_parkedSchedule :
    ∃ s, run deliveryNext DeliveryState.init parkedSchedule = some s ∧
      s.received = [⟨nameA, nameB, [], 0⟩] ∧ s.received.Nodup ∧
      ∀ a d, s.received.filter (between a d) <+: s.sent.filter (between a d) := by
  refine ⟨_, rfl, rfl, ?_⟩
  have h := delivery_sound parkedSchedule (by decide) _ ⟨parkedSchedule, List.prefix_rfl, rfl⟩
  exact ⟨h.1, h.2.2.1⟩

/-- The first message is parked; the service becomes visible; the second message is appended
directly; only then is the pool drained. -/
def overtakingSchedule : List DeliveryEvent :=
  registers 1 nameA ++ [.send 1 nameB [], .step 1 0, .register 2 nameB, .step 2 0, .step 2 0,
    .send 1 nameB [], .step 1 0, .step 2 0, .step 2 0, .step 2 0, .await 2 [], .await 2 []]

/-- **Reordered.**  The destination receives the second message of the sender before the
first. -/
theorem overtaken_by_direct :
    ∃ s, run deliveryNext DeliveryState.init overtakingSchedule = some s ∧
      s.sent.map (·.mark) = [0, 1] ∧ s.received.map (·.mark) = [1, 0] ∧
      ¬s.received.filter (between nameA nameB) <+: s.sent.filter (between nameA nameB) := by
  decide

end Axle.Kernel.AmcDelivery
