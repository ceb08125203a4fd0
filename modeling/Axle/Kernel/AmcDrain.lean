import Axle.Kernel.AmcDelivery

/-!
# Draining the pool of messages to unknown services

`_amc_deliver_pending_messages_to_new_service` as one function.  Its first loop collects the
indexes of the messages to the new service; the second takes them out of the pool one after the
other.  Every removal moves the later messages back by one place, so each index is shifted by the
number of messages taken out before.

* `deliverPendingMessages_eq` — **PROVED**: the second loop, for any pool it may start with;
* `amcDeliverPendingMessages_exact` — **PROVED**: the messages to the service are delivered in their
  order, and the others stay in theirs;
* `drain_run` — **PROVED**: the steps of a task that drains the pool by itself do this.
-/

namespace Axle.Kernel.AmcDelivery

open Axle.Kernel.Amc Axle.Kernel.TaskState Axle.Lib.StepRun

/-- The second loop, from the inbox and the pool with `idxShift` messages taken out. -/
def deliverPendingMessages (name : ServiceName) :
    List ℕ → ℕ → List Message → ArrayM Message → Option (List Message × ArrayM Message)
  | [], _, inbox, pool => some (inbox, pool)
  | idx :: indexes, idxShift, inbox, pool => do
    let (msg, pool) ← deliverPendingMessage name idx idxShift pool
    deliverPendingMessages name indexes (idxShift + 1) (inbox ++ [msg]) pool

/-- The inbox of the new service and the pool, after the drain. -/
def amcDeliverPendingMessagesToNewService (name : ServiceName) (inbox : List Message)
    (pool : ArrayM Message) : Option (List Message × ArrayM Message) :=
  deliverPendingMessages name (messageIndexesToDeliver name 0 pool.items) 0 inbox pool

variable {m : Message} {name : ServiceName}

theorem deliverPendingMessages_cons {idx idxShift : ℕ} {indexes : List ℕ} {inbox : List Message}
    {pool pool' : ArrayM Message}
    (h : deliverPendingMessage name idx idxShift pool = some (m, pool')) :
    deliverPendingMessages name (idx :: indexes) idxShift inbox pool =
      deliverPendingMessages name indexes (idxShift + 1) (inbox ++ [m]) pool' := by
  rw [deliverPendingMessages, h]
  rfl

theorem filter_takeOut {before : List Message} (after : List Message) (hm : m.dest = name)
    (hbefore : ∀ m' ∈ before, m'.dest ≠ name) :
    ((before ++ m :: after).filter fun m' => m'.dest = name) =
        m :: (before ++ after).filter (fun m' => m'.dest = name) ∧
      ((before ++ m :: after).filter fun m' => m'.dest ≠ name) =
        (before ++ after).filter fun m' => m'.dest ≠ name := by
  have hnone : (before.filter fun m' => m'.dest = name) = [] :=
    List.filter_eq_nil_iff.mpr fun m' hm' => by simpa using hbefore m' hm'
  constructor
  · simp [List.filter_append, hnone, hm]
  · simp [List.filter_append, hm]

/-- **The second loop (proved)**, by induction on the indexes that remain: they are those of the
messages to `name` in the pool, shifted. -/
theorem deliverPendingMessages_eq :
    ∀ {indexes : List ℕ} {idxShift : ℕ} {inbox : List Message} {pool : ArrayM Message},
      messageIndexesToDeliver name idxShift pool.items = indexes →
      ∃ pool', deliverPendingMessages name indexes idxShift inbox pool =
          some (inbox ++ pool.items.filter (fun m => m.dest = name), pool') ∧
        pool'.items = pool.items.filter fun m => m.dest ≠ name := by
  intro indexes
  induction indexes with
  | nil =>
    intro idxShift inbox pool h
    have hothers := messageIndexes_eq_nil h
    have hnone : (pool.items.filter fun m => m.dest = name) = [] :=
      List.filter_eq_nil_iff.mpr fun m hm => by simpa using hothers m hm
    refine ⟨pool, ?_, ?_⟩
    · rw [hnone, List.append_nil]
      rfl
    · symm
      exact List.filter_eq_self.mpr fun m hm => by simpa using hothers m hm
  | cons idx indexes ih =>
    intro idxShift inbox pool h
    obtain ⟨before, m, after, pool₁, hpool, hm, hbefore, hone, hitems, hrest⟩ :=
      deliverPendingMessage_spec h
    obtain ⟨pool', hloop, hleft⟩ := @ih (idxShift + 1) (inbox ++ [m]) pool₁ hrest
    obtain ⟨hto, hother⟩ := filter_takeOut after hm hbefore
    refine ⟨pool', ?_, ?_⟩
    · rw [deliverPendingMessages_cons hone, hloop, hitems, hpool, hto, List.append_assoc]
      rfl
    · rw [hleft, hitems, hpool, hother]

/-- **The drain is exact (proved)**: the messages to the new service, and only they, are delivered in
the order in which they were parked, and the others stay in the pool in theirs. -/
theorem amcDeliverPendingMessages_exact (name : ServiceName) (inbox : List Message)
    (pool : ArrayM Message) :
    ∃ pool', amcDeliverPendingMessagesToNewService name inbox pool =
        some (inbox ++ pool.items.filter (fun m => m.dest = name), pool') ∧
      pool'.items = pool.items.filter fun m => m.dest ≠ name :=
  deliverPendingMessages_eq rfl

/-- Two in a row, and one at either end. -/
example : (amcDeliverPendingMessagesToNewService ['a'] []
    ⟨[⟨[], ['a'], [], 0⟩, ⟨[], ['b'], [], 1⟩, ⟨[], ['a'], [], 2⟩, ⟨[], ['a'], [], 3⟩,
      ⟨[], ['c'], [], 4⟩, ⟨[], ['a'], [], 5⟩], 512, by decide⟩).map
      (fun r => (r.1.map Message.mark, r.2.items.map Message.mark)) =
    some ([0, 2, 3, 5], [1, 4]) := by decide

/-! ### The drain among the tasks -/

/-- The steps of a task that drains are the rounds of the loop. -/
theorem run_draining {task : TaskPtr} {now : ℕ} {doomed : Bool} :
    ∀ {indexes : List ℕ} {idxShift : ℕ} {s : DeliveryState} {inbox : List Message}
      {pool : ArrayM Message},
      s.pcs task = .draining name doomed indexes idxShift →
      deliverPendingMessages name indexes idxShift (s.inbox task) s.pool = some (inbox, pool) →
      ∃ t, run deliveryNext s (indexes.map fun _ => .step task now) = some t ∧
        t.pcs task = .draining name doomed [] (idxShift + indexes.length) ∧
        t.inbox task = inbox ∧ t.pool = pool := by
  intro indexes
  induction indexes with
  | nil =>
    intro idxShift s inbox pool hpc h
    cases h
    exact ⟨s, rfl, hpc, rfl, rfl⟩
  | cons idx indexes ih =>
    intro idxShift s inbox pool hpc h
    obtain ⟨⟨m, pool₁⟩, hone, hloop⟩ := Option.bind_eq_some_iff.mp h
    let s₁ : DeliveryState :=
      { (s.setPc task (.draining name doomed indexes (idxShift + 1))).append task m with
        pool := pool₁ }
    have hstep : deliveryNext s (.step task now) = some s₁ := by
      show taskStep s task now = some s₁
      rw [taskStep, hpc]
      exact Option.bind_eq_some_iff.mpr ⟨(m, pool₁), hone, rfl⟩
    have hpc₁ : s₁.pcs task = .draining name doomed indexes (idxShift + 1) := setPc_self _ _ _
    have hinbox₁ : s₁.inbox task = s.inbox task ++ [m] := setInbox_self _ _ _
    obtain ⟨t, hrun, hpct, hinbox, hpool⟩ := ih hpc₁ (by rw [hinbox₁]; exact hloop)
    refine ⟨t, run_cons_eq_some.mpr ⟨s₁, hstep, hrun⟩, ?_, hinbox, hpool⟩
    rw [hpct, List.length_cons, Nat.add_right_comm, Nat.add_assoc]

/-- **A drain that nobody interrupts (proved)**, from the moment at which the lock is free: the task
gets the messages to its service in their order, the others stay, and the lock is free again. -/
theorem drain_run {task : TaskPtr} (now : ℕ) {doomed : Bool} {s : DeliveryState}
    (hpc : s.pcs task = .drain name doomed) (hlock : s.poolHolder = none) :
    ∃ n t, run deliveryNext s (List.replicate n (.step task now)) = some t ∧
      t.pcs task = (if doomed then .dead name else .ready name) ∧ t.poolHolder = none ∧
      t.inbox task = s.inbox task ++ s.pool.items.filter (fun m => m.dest = name) ∧
      t.pool.items = s.pool.items.filter fun m => m.dest ≠ name := by
  let indexes := messageIndexesToDeliver name 0 s.pool.items
  let s₁ : DeliveryState :=
    { s.setPc task (.draining name doomed indexes 0) with poolHolder := some task }
  have hfirst : deliveryNext s (.step task now) = some s₁ := by
    show taskStep s task now = some s₁
    rw [taskStep, hpc]
    exact if_pos hlock
  obtain ⟨pool, hloop, hleft⟩ :=
    @deliverPendingMessages_eq name indexes 0 (s.inbox task) s.pool rfl
  obtain ⟨t, hrun, hpct, hinbox, hpool⟩ := @run_draining name task now doomed indexes 0 s₁ _ _
    (setPc_self _ _ _) hloop
  let t₁ : DeliveryState :=
    { t.setPc task (if doomed then .dead name else .ready name) with poolHolder := none }
  have hlast : deliveryNext t (.step task now) = some t₁ := by
    show taskStep t task now = some t₁
    rw [taskStep, hpct]
  refine ⟨indexes.length + 1 + 1, t₁, ?_, setPc_self _ _ _, rfl, hinbox, hpool ▸ hleft⟩
  rw [List.map_const'] at hrun
  rw [List.replicate_succ, List.replicate_succ', run_cons_eq_some]
  refine ⟨s₁, hfirst, ?_⟩
  rw [run_append, hrun, Option.bind_some, run, hlast]
  rfl

/-- One message to the service, and one to another. -/
def twoParked : DeliveryState :=
  { DeliveryState.init with
    pcs := fun _ => .drain ['a'] false
    pool := ⟨[⟨[], ['b'], [], 0⟩, ⟨[], ['a'], [], 1⟩], 512, by decide⟩ }

theorem drain_run_twoParked :
    ∃ n t, run deliveryNext twoParked (List.replicate n (.step 7 0)) = some t ∧
      t.inbox 7 = [⟨[], ['a'], [], 1⟩] ∧ t.pool.items = [⟨[], ['b'], [], 0⟩] := by
  obtain ⟨n, t, hrun, -, -, hinbox, hpool⟩ := @drain_run ['a'] 7 0 false twoParked rfl rfl
  exact ⟨n, t, hrun, hinbox, hpool⟩

end Axle.Kernel.AmcDelivery
