import Axle.Kernel.AmcDelivery

/-!
# Inboxes and the lifetime of services

The inboxes are entries of a Rust map whose keys are *references* to services, compared by what
the referenced memory holds at that moment; the services themselves are allocated and freed by
the C side, and tearing one down leaves its entry in the map.  A service allocated later at the
same address finds that entry again, with whatever it still holds.  A sender also keeps the
address it has looked up until it appends its message there.

The map is searched by contents, so a search for a live service ends at an entry whose key is
that service's own address or a freed one (live services differ in contents), or at none at all,
since freeing and reusing the memory of keys breaks the order the map relies on.  Which one is
left to the event.

* `trackInboxForServiceIfNecessary`, `amcAppendMessageToServiceInbox`, `selectFromInbox` — the
  Rust side;
* `IsolationOk` — a service is torn down only when no entry under its address holds a message and
  no sender holds its address, and a search ends at the service's own address;
* `inbox_isolation` — **PROVED**: in a run of such steps, every message an await returns was sent
  to the very service that received it.
-/

namespace Axle.Kernel.AmcIsolation

open Axle.Kernel.Amc Axle.Kernel.AmcDelivery Axle.Kernel.TaskState Axle.Lib.StepRun

structure AmcService where
  addr : ServicePtr
  name : ServiceName
  task : TaskPtr
  deliveryEnabled : Bool
  /-- Still inside `amc_register_service`, draining the pool. -/
  draining : Bool
  /-- The number of the registration, which the code does not keep. -/
  registration : ℕ
  deriving DecidableEq, Repr

/-- The entries of `SERVICES_TO_INBOXES`: the key's address and the queue. -/
abbrev Inboxes := List (ServicePtr × List Message)

/-! ### The Rust side -/

/-- Find the entry `choice`, or add one.  A search cannot end at the key of another live
service. -/
def trackInboxForServiceIfNecessary (live : List ServicePtr) (inboxes : Inboxes)
    (addr : ServicePtr) : Option ℕ → Option (ℕ × Inboxes)
  | none => some (inboxes.length, inboxes ++ [(addr, [])])
  | some i => do
    let entry ← inboxes[i]?
    if entry.1 = addr ∨ entry.1 ∉ live then return (i, inboxes) else none

def amcAppendMessageToServiceInbox (live : List ServicePtr) (inboxes : Inboxes)
    (addr : ServicePtr) (choice : Option ℕ) (m : Message) : Option Inboxes := do
  let (i, inboxes) ← trackInboxForServiceIfNecessary live inboxes addr choice
  let entry ← inboxes[i]?
  return inboxes.set i (entry.1, entry.2 ++ [m])

/-- `amc_select_message_to_deliver` on the entry the search ends at. -/
def selectFromInbox (live : List ServicePtr) (inboxes : Inboxes) (addr : ServicePtr)
    (choice : Option ℕ) (sources : List ServiceName) : Option (Option Message × Inboxes) := do
  let (i, inboxes) ← trackInboxForServiceIfNecessary live inboxes addr choice
  let entry ← inboxes[i]?
  let (found, queue) ← amcSelectMessageToDeliver sources none entry.2
  return (found, inboxes.set i (entry.1, queue))

/-! ### The C side -/

/-- A sender between its lookup and its last action: the address it found, if any. -/
structure Flight where
  message : Message
  found : Option ServicePtr
  deriving DecidableEq, Repr

structure IsolationState where
  services : ArrayM AmcService
  inboxes : Inboxes
  pool : ArrayM Message
  flights : List Flight
  registrations : ℕ
  /-- What every await returned, with the service it returned it to. -/
  received : List (AmcService × Message)

def IsolationState.init : IsolationState :=
  ⟨ArrayM.create 256, [], ArrayM.create messagesToUnknownServicesPoolSize, [], 0, []⟩

inductive IsolationEvent where
  /-- A registration under a free name, at the free address the heap returned. -/
  | register (task : TaskPtr) (name : ServiceName) (addr : ServicePtr)
  /-- One round of the drain that ends a registration; `none` left ends it. -/
  | deliverPending (task : TaskPtr) (choice : Option ℕ)
  | disableDelivery (task : TaskPtr)
  /-- A send, up to the lookup of its destination. -/
  | send (source dest : ServiceName) (body : List (BitVec 8))
  /-- The rest of the send at this index. -/
  | land (i : ℕ) (choice : Option ℕ)
  | await (task : TaskPtr) (sources : List ServiceName) (choice : Option ℕ)
  | teardown (task : TaskPtr)

def IsolationState.live (s : IsolationState) : List ServicePtr := s.services.items.map (·.addr)

def amcServiceOfTask (s : IsolationState) (task : TaskPtr) : Option AmcService :=
  s.services.items.find? fun service => service.task = task

def serviceWithName (s : IsolationState) (name : ServiceName) : Option AmcService :=
  s.services.items.find? fun service => service.name = name

/-- A store into the control block of a service. -/
def IsolationState.update (s : IsolationState) (service service' : AmcService) : IsolationState :=
  match s.services.index service with
  | some i => { s with services := s.services.store i service' }
  | none => s

def isolationNext (s : IsolationState) : IsolationEvent → Option IsolationState
  | .register task name addr =>
    if addr ∉ s.live ∧ amcServiceOfTask s task = none ∧ serviceWithName s name = none ∧
        name.length < amcMaxServiceNameLen then do
      let services ← s.services.insert ⟨addr, name, task, true, true, s.registrations⟩
      return { s with services := services, registrations := s.registrations + 1 }
    else none
  | .deliverPending task choice => do
    let service ← amcServiceOfTask s task
    if !service.draining then none
    else match messageIndexesToDeliver service.name 0 s.pool.items with
      | [] => return s.update service { service with draining := false }
      | idx :: _ =>
        let (m, pool) ← deliverPendingMessage service.name idx 0 s.pool
        let inboxes ← amcAppendMessageToServiceInbox s.live s.inboxes service.addr choice
          { m with mark := service.registration }
        return { s with inboxes := inboxes, pool := pool }
  | .disableDelivery task =>
    match amcServiceOfTask s task with
    | none => some s
    | some service => some (s.update service { service with deliveryEnabled := false })
  | .send source dest body =>
    if amcMaxMessageSize ≤ body.length then none
    else if dest = axleCoreServiceName then some s
    else match serviceWithName s dest with
      | some service =>
        if service.deliveryEnabled then
          some { s with flights :=
            s.flights ++ [⟨⟨source, dest, body, service.registration⟩, some service.addr⟩] }
        else some { s with flights := s.flights ++ [⟨⟨source, dest, body, 0⟩, none⟩] }
      | none => some { s with flights := s.flights ++ [⟨⟨source, dest, body, 0⟩, none⟩] }
  | .land i choice => do
    let flight ← s.flights[i]?
    let flights := s.flights.eraseIdx i
    match flight.found with
    | none => do
      let pool ← s.pool.insert flight.message
      return { s with pool := pool, flights := flights }
    | some addr => do
      let inboxes ← amcAppendMessageToServiceInbox s.live s.inboxes addr choice flight.message
      return { s with inboxes := inboxes, flights := flights }
  | .await task sources choice => do
    let service ← amcServiceOfTask s task
    if service.draining then none
    else
      let (found, inboxes) ← selectFromInbox s.live s.inboxes service.addr choice sources
      return { s with
        inboxes := inboxes, received := s.received ++ (found.map fun m => (service, m)).toList }
  | .teardown task =>
    match amcServiceOfTask s task with
    | none => some s
    | some service => do
      let i ← s.services.index service
      let services ← s.services.remove i
      return { s with services := services }

/-! ### Steps that keep the two sides together -/

/-- The search ends at an entry under the service's own address. -/
def ownEntry (inboxes : Inboxes) (addr : ServicePtr) : Option ℕ → Bool
  | none => true
  | some i => inboxes[i]?.all fun entry => entry.1 = addr

/-- Nothing refers to the service any more: no message is left under its address and no sender
holds it. -/
def abandoned (s : IsolationState) (addr : ServicePtr) : Bool :=
  (s.inboxes.all fun entry => entry.1 ≠ addr || entry.2.isEmpty)
    && s.flights.all fun flight => flight.found ≠ some addr

def isolated (s : IsolationState) : IsolationEvent → Bool
  | .deliverPending task choice | .await task _ choice =>
    (amcServiceOfTask s task).all fun service => ownEntry s.inboxes service.addr choice
  | .land i choice =>
    (s.flights[i]?.bind (·.found)).all fun addr => ownEntry s.inboxes addr choice
  | .teardown task => (amcServiceOfTask s task).all fun service => abandoned s service.addr
  | _ => true

def IsolationOk (s : IsolationState) (e : IsolationEvent) : Prop := isolated s e = true

instance (s : IsolationState) (e : IsolationEvent) : Decidable (IsolationOk s e) :=
  inferInstanceAs (Decidable (isolated s e = true))

/-! ### Inboxes of owned messages -/

section Owned

variable {Own : ServicePtr → Message → Prop}

/-- Every message under an address satisfies `Own` there. -/
def InboxesOwn (Own : ServicePtr → Message → Prop) (inboxes : Inboxes) : Prop :=
  ∀ entry ∈ inboxes, ∀ m ∈ entry.2, Own entry.1 m

variable {i : ℕ} {inboxes inboxes' : Inboxes} {addr : ServicePtr} {choice : Option ℕ}

section

variable (h : InboxesOwn Own inboxes)

include h

theorem InboxesOwn.set {entry : ServicePtr × List Message} (hentry : ∀ m ∈ entry.2, Own entry.1 m) :
    InboxesOwn Own (inboxes.set i entry) := by
  intro e he
  rcases List.mem_or_eq_of_mem_set he with hold | rfl
  · exact h e hold
  · exact hentry

theorem InboxesOwn.track {live : List ServicePtr} (hown : ownEntry inboxes addr choice = true)
    (htrack : trackInboxForServiceIfNecessary live inboxes addr choice = some (i, inboxes')) :
    InboxesOwn Own inboxes' ∧ ∀ entry, inboxes'[i]? = some entry → entry.1 = addr := by
  cases choice with
  | none =>
    obtain ⟨rfl, rfl⟩ : inboxes.length = i ∧ inboxes ++ [(addr, [])] = inboxes' := by
      simpa [trackInboxForServiceIfNecessary] using htrack
    refine ⟨?_, ?_⟩
    · intro entry hentry
      rcases List.mem_append.mp hentry with hold | hnew
      · exact h entry hold
      · rw [List.mem_singleton.mp hnew]
        intro m hm
        cases hm
    · intro entry hentry
      have : (addr, []) = entry := by simpa using hentry
      exact this ▸ rfl
  | some j =>
    obtain ⟨entry₀, hentry₀, hsome⟩ := Option.bind_eq_some_iff.mp htrack
    split at hsome
    · obtain ⟨rfl, rfl⟩ : j = i ∧ inboxes = inboxes' := by simpa using hsome
      refine ⟨h, ?_⟩
      intro entry hentry
      rw [ownEntry, hentry] at hown
      simpa using hown
    · cases hsome

theorem InboxesOwn.append {live : List ServicePtr} {m : Message}
    (hown : ownEntry inboxes addr choice = true) (hm : Own addr m)
    (happend : amcAppendMessageToServiceInbox live inboxes addr choice m = some inboxes') :
    InboxesOwn Own inboxes' := by
  obtain ⟨⟨i, inboxes₁⟩, htrack, hrest⟩ := Option.bind_eq_some_iff.mp happend
  obtain ⟨entry, hentry, hset⟩ := Option.bind_eq_some_iff.mp hrest
  obtain rfl := Option.some.inj hset
  obtain ⟨h₁, haddr⟩ := h.track hown htrack
  refine h₁.set ?_
  intro m' hm'
  rcases List.mem_append.mp hm' with hold | hnew
  · exact h₁ entry (List.mem_of_getElem? hentry) m' hold
  · rw [List.mem_singleton.mp hnew, haddr entry hentry]
    exact hm

theorem InboxesOwn.select {live : List ServicePtr} {sources : List ServiceName}
    (hown : ownEntry inboxes addr choice = true) {found : Option Message}
    (hselect : selectFromInbox live inboxes addr choice sources = some (found, inboxes')) :
    InboxesOwn Own inboxes' ∧ ∀ m, found = some m → Own addr m := by
  obtain ⟨⟨i, inboxes₁⟩, htrack, hrest⟩ := Option.bind_eq_some_iff.mp hselect
  obtain ⟨entry, hentry, hrest⟩ := Option.bind_eq_some_iff.mp hrest
  obtain ⟨⟨found', queue⟩, hqueue, hset⟩ := Option.bind_eq_some_iff.mp hrest
  obtain ⟨rfl, rfl⟩ : found' = found ∧ inboxes₁.set i (entry.1, queue) = inboxes' := by
    simpa using hset
  obtain ⟨h₁, haddr⟩ := h.track hown htrack
  have hold := h₁ entry (List.mem_of_getElem? hentry)
  cases found' with
  | none =>
    obtain ⟨rfl, -⟩ := select_none hqueue
    exact ⟨h₁.set hold, fun m hm => by cases hm⟩
  | some m =>
    obtain ⟨before, after, hitems, rfl, -, -⟩ := select_some hqueue
    refine ⟨h₁.set ?_, ?_⟩
    · intro m' hm'
      refine hold m' ?_
      rw [hitems]
      rcases List.mem_append.mp hm' with hin | hin
      · exact List.mem_append_left _ hin
      · exact List.mem_append_right _ (List.mem_cons_of_mem _ hin)
    · intro m' hm'
      obtain rfl := Option.some.inj hm'
      rw [← haddr entry hentry]
      exact hold m (by rw [hitems]; simp)

end

end Owned

/-! ### The invariant -/

/-- The message was sent to the service at this address. -/
def SentTo (services : List AmcService) (addr : ServicePtr) (m : Message) : Prop :=
  ∃ service ∈ services, service.addr = addr ∧ m.mark = service.registration ∧
    m.dest = service.name

structure IsolationInv (s : IsolationState) : Prop where
  addrs : s.live.Nodup
  inboxes : InboxesOwn (SentTo s.services.items) s.inboxes
  flights : ∀ flight ∈ s.flights, ∀ addr, flight.found = some addr →
    SentTo s.services.items addr flight.message
  received : ∀ r ∈ s.received, r.2.mark = r.1.registration ∧ r.2.dest = r.1.name

theorem IsolationInv.init : IsolationInv IsolationState.init := by
  refine ⟨List.nodup_nil, ?_, ?_, ?_⟩
  · intro entry hentry
    cases hentry
  · intro flight hflight
    cases hflight
  · intro r hr
    cases hr

theorem eq_of_addr {services : List AmcService} (h : (services.map (·.addr)).Nodup)
    {x y : AmcService} (hx : x ∈ services) (hy : y ∈ services) (he : x.addr = y.addr) : x = y :=
  List.inj_on_of_nodup_map h hx hy he

variable {s : IsolationState} {service : AmcService} {services : ArrayM AmcService}

theorem amcServiceOfTask_mem {task : TaskPtr} (h : amcServiceOfTask s task = some service) :
    service ∈ s.services.items :=
  List.mem_of_find?_eq_some h

section

variable (h : IsolationInv s)

include h

/-- A list of services in which every old one has a successor with the same identity. -/
theorem IsolationInv.withServices (services : ArrayM AmcService) (registrations : ℕ)
    (haddrs : (services.items.map (·.addr)).Nodup)
    (hkeep : ∀ addr m, SentTo s.services.items addr m →
      (∃ entry ∈ s.inboxes, entry.1 = addr ∧ m ∈ entry.2) ∨
        (∃ flight ∈ s.flights, flight.found = some addr ∧ m = flight.message) →
      SentTo services.items addr m) :
    IsolationInv { s with services := services, registrations := registrations } := by
  refine ⟨haddrs, ?_, ?_, h.received⟩
  · intro entry hentry m hm
    exact hkeep entry.1 m (h.inboxes entry hentry m hm) (Or.inl ⟨entry, hentry, rfl, hm⟩)
  · intro flight hflight addr haddr
    exact hkeep addr flight.message (h.flights flight hflight addr haddr)
      (Or.inr ⟨flight, hflight, haddr, rfl⟩)

theorem IsolationInv.withFlights (flights : List Flight)
    (hflights : ∀ flight ∈ flights, flight ∈ s.flights ∨
      ∀ addr, flight.found = some addr → SentTo s.services.items addr flight.message) :
    IsolationInv { s with flights := flights } := by
  refine ⟨h.addrs, h.inboxes, ?_, h.received⟩
  intro flight hflight
  rcases hflights flight hflight with hold | hnew
  · exact h.flights flight hold
  · exact hnew

theorem IsolationInv.update {service service' : AmcService} (haddr : service'.addr = service.addr)
    (hname : service'.name = service.name)
    (hregistration : service'.registration = service.registration) :
    IsolationInv (s.update service service') := by
  rw [IsolationState.update]
  split
  · rename_i i hi
    have hget := ArrayM.index_eq_some hi
    refine h.withServices (s.services.store i service') s.registrations ?_ ?_
    · rw [ArrayM.store_items, map_set_of_eq hget haddr]
      exact h.addrs
    · rintro addr m ⟨x, hx, hxaddr, hmark, hdest⟩ -
      by_cases he : x = service
      · refine ⟨service', ?_, ?_, ?_, ?_⟩
        · exact List.mem_set (List.getElem?_eq_some_iff.mp hget).1 _
        · rw [haddr, ← he, hxaddr]
        · rw [hregistration, ← he, hmark]
        · rw [hname, ← he, hdest]
      · exact ⟨x, ArrayM.mem_store_of_ne hget hx he, hxaddr, hmark, hdest⟩
  · exact h

theorem IsolationInv.register (hfree : service.addr ∉ s.live)
    (hins : s.services.insert service = some services) (registrations : ℕ) :
    IsolationInv { s with services := services, registrations := registrations } := by
  have hitems := (ArrayM.insert_eq_some.mp hins).2.1
  refine h.withServices services registrations ?_ ?_
  · rw [hitems, List.map_append, List.nodup_append]
    refine ⟨h.addrs, by simp, ?_⟩
    intro x hx y hy he
    obtain rfl : y = service.addr := by simpa using hy
    exact hfree (he ▸ hx)
  · rintro addr m ⟨x, hx, hrest⟩ -
    exact ⟨x, by rw [hitems]; exact List.mem_append_left _ hx, hrest⟩

/-- A service goes when nothing refers to it: whatever is still on its way has another
destination. -/
theorem IsolationInv.teardown (habandoned : abandoned s service.addr = true) {i : ℕ}
    (hi : s.services.index service = some i) (hrem : s.services.remove i = some services) :
    IsolationInv { s with services := services } := by
  obtain ⟨-, hitems, -⟩ := ArrayM.remove_eq_some.mp hrem
  rw [abandoned, Bool.and_eq_true] at habandoned
  obtain ⟨hinboxes, hflights⟩ := habandoned
  refine h.withServices services s.registrations ?_ ?_
  · rw [hitems]
    exact h.addrs.sublist ((List.eraseIdx_sublist _ _).map _)
  · rintro addr m ⟨x, hx, hxaddr, hrest⟩ hsomewhere
    have hne : addr ≠ service.addr := by
      rintro rfl
      rcases hsomewhere with ⟨entry, hentry, hkey, hm⟩ | ⟨flight, hflight, hfound, -⟩
      · have hempty := List.all_eq_true.mp hinboxes entry hentry
        rw [hkey] at hempty
        have hnil : entry.2 = [] := by simpa using hempty
        rw [hnil] at hm
        cases hm
      · have hnot := List.all_eq_true.mp hflights flight hflight
        rw [hfound] at hnot
        simp at hnot
    refine ⟨x, ArrayM.mem_remove_of_ne (ArrayM.index_eq_some hi) hrem hx ?_, hxaddr, hrest⟩
    rintro rfl
    exact hne hxaddr.symm

end

/-- **The step lemma.** -/
theorem isolationNext_inv (s : IsolationState) (e : IsolationEvent) (t : IsolationState)
    (h : IsolationInv s) (hok : IsolationOk s e) (hs : isolationNext s e = some t) :
    IsolationInv t := by
  rw [IsolationOk] at hok
  cases e with
  | register task name addr =>
    rw [isolationNext] at hs
    split at hs
    · rename_i hfree
      obtain ⟨services, hins, hs⟩ := Option.bind_eq_some_iff.mp hs
      exact Option.some.inj hs ▸ h.register hfree.1 hins _
    · cases hs
  | deliverPending task choice =>
    obtain ⟨service, hservice, hs⟩ := Option.bind_eq_some_iff.mp hs
    rw [isolated, hservice] at hok
    split at hs
    · cases hs
    · split at hs
      · exact Option.some.inj hs ▸ h.update rfl rfl rfl
      · rename_i idx rest hindexes
        obtain ⟨_, m, _, pool, -, hdest, -, hone, -, -⟩ := deliverPendingMessage_spec hindexes
        rw [hone, Option.bind_eq_bind, Option.bind_some] at hs
        obtain ⟨inboxes, happend, hs⟩ := Option.bind_eq_some_iff.mp hs
        have hsent : SentTo s.services.items service.addr
            { m with mark := service.registration } :=
          ⟨service, amcServiceOfTask_mem hservice, rfl, rfl, hdest⟩
        exact Option.some.inj hs ▸
          ⟨h.addrs, h.inboxes.append hok hsent happend, h.flights, h.received⟩
  | disableDelivery task =>
    rw [isolationNext] at hs
    split at hs
    · exact Option.some.inj hs ▸ h
    · exact Option.some.inj hs ▸ h.update rfl rfl rfl
  | send source dest body =>
    rw [isolationNext] at hs
    have hadd : ∀ flight : Flight, (∀ addr, flight.found = some addr →
        SentTo s.services.items addr flight.message) →
        IsolationInv { s with flights := s.flights ++ [flight] } := by
      intro flight hflight
      refine h.withFlights _ ?_
      intro f hf
      rcases List.mem_append.mp hf with hold | hnew
      · exact Or.inl hold
      · rw [List.mem_singleton.mp hnew]
        exact Or.inr hflight
    split at hs
    · cases hs
    · split at hs
      · exact Option.some.inj hs ▸ h
      · split at hs
        · rename_i service hservice
          split at hs
          · refine Option.some.inj hs ▸ hadd _ ?_
            intro addr haddr
            obtain rfl := Option.some.inj haddr
            have hname : service.name = dest := by simpa using List.find?_some hservice
            exact ⟨service, List.mem_of_find?_eq_some hservice, rfl, rfl, hname.symm⟩
          · exact Option.some.inj hs ▸ hadd _ (fun addr haddr => by cases haddr)
        · exact Option.some.inj hs ▸ hadd _ (fun addr haddr => by cases haddr)
  | land i choice =>
    obtain ⟨flight, hflight, hs⟩ := Option.bind_eq_some_iff.mp hs
    have herased := h.withFlights (s.flights.eraseIdx i)
      fun f hf => Or.inl (List.mem_of_mem_eraseIdx hf)
    rw [isolated, hflight] at hok
    split at hs
    · obtain ⟨pool, -, hs⟩ := Option.bind_eq_some_iff.mp hs
      exact Option.some.inj hs ▸ ⟨h.addrs, h.inboxes, herased.flights, h.received⟩
    · rename_i addr hfound
      obtain ⟨inboxes, happend, hs⟩ := Option.bind_eq_some_iff.mp hs
      rw [Option.bind_some, hfound] at hok
      have hsent := h.flights flight (List.mem_of_getElem? hflight) addr hfound
      exact Option.some.inj hs ▸
        ⟨h.addrs, h.inboxes.append hok hsent happend, herased.flights, h.received⟩
  | await task sources choice =>
    obtain ⟨service, hservice, hs⟩ := Option.bind_eq_some_iff.mp hs
    rw [isolated, hservice] at hok
    split at hs
    · cases hs
    · obtain ⟨⟨found, inboxes⟩, hselect, hs⟩ := Option.bind_eq_some_iff.mp hs
      obtain ⟨hinboxes, hfound⟩ := h.inboxes.select hok hselect
      refine Option.some.inj hs ▸ ⟨h.addrs, hinboxes, h.flights, ?_⟩
      intro r hr
      rcases List.mem_append.mp hr with hold | hnew
      · exact h.received r hold
      · obtain ⟨m, hm, rfl⟩ : ∃ m, found = some m ∧ (service, m) = r := by
          simpa [Option.mem_toList] using hnew
        obtain ⟨x, hx, haddr, hmark, hdest⟩ := hfound m hm
        obtain rfl := eq_of_addr h.addrs hx (amcServiceOfTask_mem hservice) haddr
        exact ⟨hmark, hdest⟩
  | teardown task =>
    rw [isolationNext] at hs
    split at hs
    · exact Option.some.inj hs ▸ h
    · rename_i service hservice
      rw [isolated, hservice] at hok
      obtain ⟨i, hi, hs⟩ := Option.bind_eq_some_iff.mp hs
      obtain ⟨services, hrem, hs⟩ := Option.bind_eq_some_iff.mp hs
      exact Option.some.inj hs ▸ h.teardown hok hi hrem

/-- **Isolation.**  In every state a run of such steps passes through, every message an await has
returned carries the name of the service it was returned to and was sent to that very
registration of it. -/
theorem inbox_isolation (events : List IsolationEvent)
    (hok : Meets isolationNext IsolationOk IsolationState.init events) (s : IsolationState)
    (hs : Passes isolationNext IsolationState.init events s) :
    ∀ r ∈ s.received, r.2.mark = r.1.registration ∧ r.2.dest = r.1.name :=
  (passes_invariant isolationNext_inv IsolationInv.init hok hs).received

/-- Two services; the first is torn down with an empty inbox, and a third takes its address and
its name. -/
def quietTeardown : List IsolationEvent :=
  [.register 1 nameA 100, .deliverPending 1 none, .register 2 nameB 200, .deliverPending 2 none,
    .send nameA nameB [], .land 0 none, .await 2 [] (some 0), .teardown 2, .register 3 nameB 200,
    .deliverPending 3 none, .send nameA nameB [], .land 0 (some 0), .await 3 [] (some 0)]

theorem inbox_isolation_quietTeardown :
    ∃ s, run isolationNext IsolationState.init quietTeardown = some s ∧
      s.received.map (fun r => (r.1.task, r.2.mark)) = [(2, 1), (3, 2)] ∧
      ∀ r ∈ s.received, r.2.mark = r.1.registration ∧ r.2.dest = r.1.name := by
  refine ⟨_, rfl, rfl, ?_⟩
  exact inbox_isolation quietTeardown (by decide) _ ⟨quietTeardown, List.prefix_rfl, rfl⟩

/-- The first service of the name is torn down with a message in its inbox; the next service at
that address has another name. -/
def reuseSchedule : List IsolationEvent :=
  [.register 1 nameA 100, .deliverPending 1 none, .register 2 nameB 200, .deliverPending 2 none,
    .send nameA nameB [], .land 0 none, .teardown 2, .register 3 ['c'] 200,
    .deliverPending 3 none, .await 3 [] (some 0)]

/-- **Leaked.**  Service `c` receives the message that was sent to service `b`. -/
theorem reused_address_leaks :
    ∃ s, run isolationNext IsolationState.init reuseSchedule = some s ∧
      ∃ r ∈ s.received, r.1.name = ['c'] ∧ r.2.dest = nameB ∧ r.2.mark ≠ r.1.registration :=
  ⟨_, rfl, _, List.mem_singleton_self _, rfl, rfl, by decide⟩

end Axle.Kernel.AmcIsolation
