import Axle.Kernel.ArrayM
import Axle.Kernel.TaskState
import Axle.Lib.StepRun
import Mathlib.Data.List.Perm.Basic
import Mathlib.Tactic

/-!
# The multi-level feedback queue of the scheduler

`mlfq.c` keeps four queues of entries, each with a time quantum.  A task is added with the
quantum of its queue as its time to live; when it is switched away from, the time it ran is
taken off, and once nothing is left it moves one queue down with that queue's quantum (from the
lowest queue it moves to the back of the same queue).  Every second all tasks of the lower
queues move to the highest one.

Times are 32-bit words: the elapsed time is an unsigned difference and the time left a signed
one, exactly as in the source.

* `mlfqAddTaskToQueue`, `mlfqChooseTask`, `mlfqNextQuantumForTask`, `mlfqDeleteTask`,
  `mlfqPriorityBoostIfNecessary`, `mlfqPrepareForSwitchFromTask` — the code, `none` for a failed
  assertion;
* `mlfq_conserves` — **PROVED**: as long as at most 128 tasks are live, no operation fails, each
  live task has exactly one entry, nothing else has one, and every entry has time left.
-/

namespace Axle.Kernel.MlfqScheduler

open Axle.Kernel.TaskState Axle.Lib.StepRun

/-! ### The queues -/

def mlfqQueueCount : ℕ := 4

def mlfqQuantums : List (BitVec 32) := [20, 30, 40, 60]

structure MlfqEnt where
  task : TaskPtr
  lastScheduleStart : BitVec 32
  ttlRemaining : BitVec 32
  deriving DecidableEq, Repr

structure MlfqQueue where
  quantum : BitVec 32
  roundRobinTasks : ArrayM MlfqEnt
  deriving DecidableEq, Repr

/-- `_queues`, which has its four entries from `mlfq_init` on. -/
abbrev Mlfq := List MlfqQueue

/-- What the scheduler reads of a task. -/
structure TaskView where
  status : TaskStatus
  isCurrentlyExecuting : Bool

def mlfqInit : Mlfq := mlfqQuantums.map fun quantum => ⟨quantum, ArrayM.create 128⟩

def mlfqAddTaskToQueue (queues : Mlfq) (task : TaskPtr) (queueIdx : ℕ) : Option Mlfq := do
  let queue ← queues[queueIdx]?
  let tasks ← queue.roundRobinTasks.insert ⟨task, 0#32, queue.quantum⟩
  return queues.set queueIdx { queue with roundRobinTasks := tasks }

/-- The double loop the operations share: the first entry, from the highest queue down, that
satisfies `p`, as queue and entry index. -/
def findEnt (p : MlfqEnt → Bool) : ℕ → List MlfqQueue → Option (ℕ × ℕ)
  | _, [] => none
  | i, q :: qs =>
    match q.roundRobinTasks.items.findIdx? p with
    | some j => some (i, j)
    | none => findEnt p (i + 1) qs

def findTask (queues : Mlfq) (task : TaskPtr) : Option (ℕ × ℕ) :=
  findEnt (fun ent => ent.task = task) 0 queues

/-- Replace the entry at a position: a store through the entry's pointer. -/
def setEnt (queues : Mlfq) (i j : ℕ) (q : MlfqQueue) (ent : MlfqEnt) : Mlfq :=
  queues.set i { q with roundRobinTasks := q.roundRobinTasks.store j ent }

/-- Start the time slice of the first entry that satisfies `p`: the task, the time it has left,
and the queues afterwards. -/
def startTimeslice (queues : Mlfq) (p : MlfqEnt → Bool) (now : BitVec 32) :
    Option ((TaskPtr × BitVec 32) × Mlfq) := do
  let (i, j) ← findEnt p 0 queues
  let q ← queues[i]?
  let ent ← q.roundRobinTasks.lookup j
  return ((ent.task, ent.ttlRemaining), setEnt queues i j q { ent with lastScheduleStart := now })

/-- Choose the first task that is runnable and not running already.  The queues stay as they are
when there is none. -/
def mlfqChooseTask (queues : Mlfq) (tasks : TaskPtr → TaskView) (now : BitVec 32) :
    Option (TaskPtr × BitVec 32) × Mlfq :=
  match startTimeslice queues (fun ent =>
      (tasks ent.task).status == runnable && !(tasks ent.task).isCurrentlyExecuting) now with
  | some (chosen, queues) => (some chosen, queues)
  | none => (none, queues)

def mlfqNextQuantumForTask (queues : Mlfq) (task : TaskPtr) (now : BitVec 32) :
    Option (BitVec 32) × Mlfq :=
  match startTimeslice queues (fun ent => ent.task = task) now with
  | some ((_, quantum), queues) => (some quantum, queues)
  | none => (none, queues)

def mlfqDeleteTask (queues : Mlfq) (task : TaskPtr) : Option Mlfq :=
  match findTask queues task with
  | none => some queues
  | some (i, j) => do
    let q ← queues[i]?
    let tasks ← q.roundRobinTasks.remove j
    return queues.set i { q with roundRobinTasks := tasks }

/-- The inner loop of the boost: move the entries of one queue to the back of the highest. -/
def boostEnts : MlfqQueue → List MlfqEnt → Option MlfqQueue
  | highPrio, [] => some highPrio
  | highPrio, ent :: ents => do
    let tasks ← highPrio.roundRobinTasks.insert { ent with ttlRemaining := highPrio.quantum }
    boostEnts { highPrio with roundRobinTasks := tasks } ents

/-- The outer loop: every lower queue is drained in turn. -/
def boostQueues : MlfqQueue → List MlfqQueue → Option (MlfqQueue × List MlfqQueue)
  | highPrio, [] => some (highPrio, [])
  | highPrio, q :: qs => do
    let highPrio ← boostEnts highPrio q.roundRobinTasks.items
    let (highPrio, qs) ← boostQueues highPrio qs
    return (highPrio,
      { q with roundRobinTasks := ArrayM.create q.roundRobinTasks.maxSize } :: qs)

def mlfqPriorityBoostIfNecessary (queues : Mlfq) (now : BitVec 32) : Option (Bool × Mlfq) :=
  if now.toNat % 1000 = 0 then
    match queues with
    | [] => none
    | highPrio :: rest => do
      let (highPrio, rest) ← boostQueues highPrio rest
      return (true, highPrio :: rest)
  else some (false, queues)

def mlfqPrepareForSwitchFromTask (queues : Mlfq) (task : TaskPtr) (now : BitVec 32) :
    Option (Bool × Mlfq) :=
  match findTask queues task with
  | none => some (false, queues)
  | some (i, j) => do
    let q ← queues[i]?
    let ent ← q.roundRobinTasks.lookup j
    let runtime := now - ent.lastScheduleStart
    -- `int32_t` minus `uint32_t`, stored to an `int32_t`
    let ttlRemaining := ent.ttlRemaining - runtime
    if ttlRemaining.toInt ≤ 0 then
      let tasks ← q.roundRobinTasks.remove j
      if i = mlfqQueueCount - 1 then
        -- already on the lowest queue: replenish
        let tasks ← tasks.insert { ent with ttlRemaining := q.quantum }
        return (true, queues.set i { q with roundRobinTasks := tasks })
      else
        let newQueue ← queues[i + 1]?
        let newTasks ← newQueue.roundRobinTasks.insert { ent with ttlRemaining := newQueue.quantum }
        return (true, (queues.set i { q with roundRobinTasks := tasks }).set (i + 1)
          { newQueue with roundRobinTasks := newTasks })
    else
      return (true, setEnt queues i j q { ent with ttlRemaining := ttlRemaining })

/-! ### The tasks of the queues -/

def MlfqQueue.tasks (q : MlfqQueue) : List TaskPtr := q.roundRobinTasks.items.map (·.task)

/-- Every task that has an entry, queue after queue. -/
def allTasks (queues : Mlfq) : List TaskPtr := queues.flatMap MlfqQueue.tasks

structure QueueOk (q : MlfqQueue) : Prop where
  capacity : q.roundRobinTasks.maxSize = 128
  quantum_pos : 0 < q.quantum.toNat
  quantum_le : q.quantum.toNat ≤ 60
  ttl : ∀ ent ∈ q.roundRobinTasks.items,
    0 < ent.ttlRemaining.toNat ∧ ent.ttlRemaining.toNat ≤ q.quantum.toNat

/-- Four queues with the quanta of the source, each within its bounds. -/
structure MlfqOk (queues : Mlfq) : Prop where
  quantums : queues.map (·.quantum) = mlfqQuantums
  queue : ∀ q ∈ queues, QueueOk q

variable {queues queues' : Mlfq} {i j queueIdx : ℕ} {q q' : MlfqQueue} {t task : TaskPtr}
  {p : MlfqEnt → Bool} {ent : MlfqEnt} {now quantum : BitVec 32} {r : TaskPtr × BitVec 32}

theorem MlfqOk.length (h : MlfqOk queues) : queues.length = mlfqQueueCount := by
  have hlen := congrArg List.length h.quantums
  simpa [mlfqQuantums, mlfqQueueCount] using hlen

theorem MlfqOk.set (h : MlfqOk queues) (hi : queues[i]? = some q)
    (hquantum : q'.quantum = q.quantum) (hok : QueueOk q') : MlfqOk (queues.set i q') := by
  refine ⟨?_, ?_⟩
  · rw [map_set_of_eq hi hquantum]
    exact h.quantums
  · intro r hr
    rcases List.mem_or_eq_of_mem_set hr with hr | rfl
    · exact h.queue r hr
    · exact hok

section

variable (hi : queues[i]? = some q)

include hi

theorem allTasks_set_perm (q' : MlfqQueue) :
    (q.tasks ++ allTasks (queues.set i q')).Perm (q'.tasks ++ allTasks queues) := by
  obtain ⟨hlt, hq⟩ := List.getElem?_eq_some_iff.mp hi
  have hset : (allTasks (queues.set i q')).Perm (q'.tasks ++ allTasks (queues.eraseIdx i)) := by
    simpa [allTasks] using (List.set_perm_cons_eraseIdx hlt q').flatMap_right MlfqQueue.tasks
  have hold : (q.tasks ++ allTasks (queues.eraseIdx i)).Perm (allTasks queues) := by
    simpa [allTasks, hq] using
      (List.getElem_cons_eraseIdx_perm hlt).flatMap_right MlfqQueue.tasks
  have hswap : (q.tasks ++ (q'.tasks ++ allTasks (queues.eraseIdx i))).Perm
      (q'.tasks ++ (q.tasks ++ allTasks (queues.eraseIdx i))) := by
    rw [← List.append_assoc, ← List.append_assoc]
    exact List.perm_append_comm.append_right _
  exact ((hset.append_left _).trans hswap).trans (hold.append_left _)

theorem allTasks_take_perm (hq : (t :: q'.tasks).Perm q.tasks) :
    (t :: allTasks (queues.set i q')).Perm (allTasks queues) := by
  have hboth := (hq.append_right _).trans (allTasks_set_perm hi q')
  have hmid := List.perm_middle.trans hboth
  rwa [List.perm_append_left_iff] at hmid

theorem allTasks_put_perm (hq : q'.tasks = q.tasks ++ [t]) :
    (allTasks (queues.set i q')).Perm (t :: allTasks queues) := by
  have hboth := allTasks_set_perm hi q'
  rw [hq, List.append_assoc, List.perm_append_left_iff] at hboth
  simpa using hboth

theorem allTasks_requeue_perm (hq : q'.tasks.Perm q.tasks) :
    (allTasks (queues.set i q')).Perm (allTasks queues) := by
  have hset := (allTasks_set_perm hi q').trans (hq.append_right _)
  rwa [List.perm_append_left_iff] at hset

end

theorem MlfqQueue.length_le_allTasks (hq : q ∈ queues) :
    q.roundRobinTasks.items.length ≤ (allTasks queues).length := by
  have hsub : q.tasks.Sublist (allTasks queues) := by
    exact List.sublist_flatten_of_mem (List.mem_map_of_mem hq)
  simpa [MlfqQueue.tasks] using hsub.length_le

/-! ### Finding an entry -/

theorem findEnt_some : ∀ {queues : Mlfq} {i₀ i j : ℕ},
    findEnt p i₀ queues = some (i, j) →
    ∃ k q ent, i = i₀ + k ∧ queues[k]? = some q ∧ q.roundRobinTasks.items[j]? = some ent ∧
      p ent = true := by
  intro queues
  induction queues with
  | nil => intro i₀ i j h; cases h
  | cons q qs ih =>
    intro i₀ i j h
    unfold findEnt at h
    split at h
    · rename_i j' hj
      cases h
      obtain ⟨hlt, hp, -⟩ := List.findIdx?_eq_some_iff_getElem.mp hj
      exact ⟨0, q, _, rfl, rfl, List.getElem?_eq_getElem hlt, hp⟩
    · obtain ⟨k, q', ent, hi, hq', hent, hp⟩ := ih h
      exact ⟨k + 1, q', ent, by omega, by simpa using hq', hent, hp⟩

theorem findEnt_none : ∀ {queues : Mlfq} {i₀ : ℕ},
    findEnt p i₀ queues = none → ∀ q ∈ queues, ∀ ent ∈ q.roundRobinTasks.items, p ent = false := by
  intro queues
  induction queues with
  | nil => intro i₀ _ q hq; cases hq
  | cons q qs ih =>
    intro i₀ h
    unfold findEnt at h
    split at h
    · cases h
    · rename_i hnone
      intro r hr
      rcases List.mem_cons.mp hr with rfl | hr
      · exact List.findIdx?_eq_none_iff.mp hnone
      · exact ih h r hr

theorem findTask_some (h : findTask queues task = some (i, j)) :
    ∃ q ent, queues[i]? = some q ∧ q.roundRobinTasks.items[j]? = some ent ∧ ent.task = task := by
  obtain ⟨k, q, ent, hi, hq, hent, hp⟩ := findEnt_some h
  rw [Nat.zero_add] at hi
  exact ⟨q, ent, hi ▸ hq, hent, by simpa using hp⟩

theorem findTask_none (h : findTask queues task = none) : task ∉ allTasks queues := by
  intro hmem
  obtain ⟨q, hq, hmem⟩ := List.mem_flatMap.mp hmem
  obtain ⟨ent, hent, rfl⟩ := List.mem_map.mp hmem
  have := findEnt_none h q hq ent hent
  simp at this

/-! ### One queue -/

theorem QueueOk.withTasks (h : QueueOk q) {tasks : ArrayM MlfqEnt}
    (hcap : tasks.maxSize = q.roundRobinTasks.maxSize)
    (hmem : ∀ ent ∈ tasks.items, ent ∈ q.roundRobinTasks.items ∨
      0 < ent.ttlRemaining.toNat ∧ ent.ttlRemaining.toNat ≤ q.quantum.toNat) :
    QueueOk { q with roundRobinTasks := tasks } := by
  refine ⟨hcap.trans h.capacity, h.quantum_pos, h.quantum_le, ?_⟩
  intro ent hent
  rcases hmem ent hent with hold | hnew
  · exact h.ttl ent hold
  · exact hnew

theorem QueueOk.removed (h : QueueOk q) {tasks : ArrayM MlfqEnt}
    (hitems : tasks.items = q.roundRobinTasks.items.eraseIdx j)
    (hcap : tasks.maxSize = q.roundRobinTasks.maxSize) :
    QueueOk { q with roundRobinTasks := tasks } := by
  refine h.withTasks hcap ?_
  intro e he
  rw [hitems] at he
  exact Or.inl (List.mem_of_mem_eraseIdx he)

theorem QueueOk.appended (h : QueueOk q) {tasks : ArrayM MlfqEnt} (ent : MlfqEnt)
    (hitems : tasks.items = q.roundRobinTasks.items ++ [{ ent with ttlRemaining := q.quantum }])
    (hcap : tasks.maxSize = q.roundRobinTasks.maxSize) :
    QueueOk { q with roundRobinTasks := tasks } := by
  refine h.withTasks hcap ?_
  intro e he
  rw [hitems, List.mem_append, List.mem_singleton] at he
  rcases he with he | rfl
  · exact Or.inl he
  · exact Or.inr ⟨h.quantum_pos, le_rfl⟩

theorem tasks_eraseIdx_perm {ents : List MlfqEnt} (hj : ents[j]? = some ent) :
    (ent.task :: (ents.eraseIdx j).map (·.task)).Perm (ents.map (·.task)) := by
  obtain ⟨hlt, he⟩ := List.getElem?_eq_some_iff.mp hj
  have := (List.getElem_cons_eraseIdx_perm hlt).map (·.task)
  rwa [List.map_cons, he] at this

/-- With less than `2^31` ms elapsed a positive signed difference is the true time left. -/
theorem ttl_after {ttl runtime : BitVec 32} (httl : ttl.toNat ≤ 60) (hrun : runtime.toNat < 2 ^ 31)
    (hpos : ¬(ttl - runtime).toInt ≤ 0) :
    0 < (ttl - runtime).toNat ∧ (ttl - runtime).toNat ≤ ttl.toNat := by
  rw [BitVec.toInt_eq_toNat_cond] at hpos
  have hsub := BitVec.toNat_sub ttl runtime
  split at hpos <;> omega

/-! ### What each operation does to the tasks -/

theorem allTasks_setEnt {ent ent' : MlfqEnt} (hi : queues[i]? = some q)
    (hj : q.roundRobinTasks.items[j]? = some ent) (htask : ent'.task = ent.task) :
    allTasks (setEnt queues i j q ent') = allTasks queues := by
  rw [allTasks, allTasks, List.flatMap_def, List.flatMap_def]
  congr 1
  refine map_set_of_eq hi ?_
  exact map_set_of_eq hj htask

theorem MlfqOk.setEnt (h : MlfqOk queues) (hi : queues[i]? = some q) (ent' : MlfqEnt)
    (httl : 0 < ent'.ttlRemaining.toNat ∧ ent'.ttlRemaining.toNat ≤ q.quantum.toNat) :
    MlfqOk (setEnt queues i j q ent') := by
  have hq := h.queue q (List.mem_of_getElem? hi)
  refine h.set hi rfl (hq.withTasks rfl ?_)
  intro e he
  rcases List.mem_or_eq_of_mem_set he with he | rfl
  · exact Or.inl he
  · exact Or.inr httl

/-- Starting a time slice stores a new start time to one entry, one that was asked for. -/
theorem startTimeslice_eq_some
    (hs : startTimeslice queues p now = some ((task, quantum), queues')) :
    ∃ i j q ent, queues[i]? = some q ∧ q.roundRobinTasks.items[j]? = some ent ∧ p ent = true ∧
      task = ent.task ∧ queues' = setEnt queues i j q { ent with lastScheduleStart := now } := by
  simp only [startTimeslice, Option.bind_eq_bind, Option.bind_eq_some_iff, Option.pure_def,
    Option.some.injEq, Prod.mk.injEq, Prod.exists] at hs
  obtain ⟨i, j, hfind, q, hi, ent, hj, ⟨rfl, -⟩, rfl⟩ := hs
  obtain ⟨k, q', ent', hk, hq', hent', hp⟩ := findEnt_some hfind
  rw [Nat.zero_add] at hk
  rw [hk, hq'] at hi
  obtain rfl := Option.some.inj hi
  rw [ArrayM.lookup, hent'] at hj
  obtain rfl := Option.some.inj hj
  exact ⟨i, j, q', ent', hk ▸ hq', hent', hp, rfl, rfl⟩

theorem startTimeslice_allTasks (hs : startTimeslice queues p now = some (r, queues')) :
    allTasks queues' = allTasks queues := by
  obtain ⟨i, j, q, ent, hi, hj, -, -, rfl⟩ := startTimeslice_eq_some hs
  exact allTasks_setEnt hi hj rfl

theorem startTimeslice_spec (h : MlfqOk queues)
    (hs : startTimeslice queues p now = some (r, queues')) :
    MlfqOk queues' ∧ allTasks queues' = allTasks queues := by
  refine ⟨?_, startTimeslice_allTasks hs⟩
  obtain ⟨i, j, q, ent, hi, hj, -, -, rfl⟩ := startTimeslice_eq_some hs
  exact h.setEnt hi _ ((h.queue q (List.mem_of_getElem? hi)).ttl ent (List.mem_of_getElem? hj))

/-- Only a runnable task of the queues that no CPU runs is chosen. -/
theorem mlfqChooseTask_chosen {tasks : TaskPtr → TaskView}
    (hs : (mlfqChooseTask queues tasks now).1 = some (task, quantum)) :
    ((tasks task).status = runnable ∧ (tasks task).isCurrentlyExecuting = false) ∧
      task ∈ allTasks queues := by
  unfold mlfqChooseTask at hs
  split at hs
  · rename_i chosen queues' hstart
    obtain rfl := Option.some.inj hs
    obtain ⟨i, j, q, ent, hi, hj, hp, rfl, -⟩ := startTimeslice_eq_some hstart
    refine ⟨by simpa using hp, ?_⟩
    exact List.mem_flatMap.mpr
      ⟨q, List.mem_of_getElem? hi, List.mem_map_of_mem (List.mem_of_getElem? hj)⟩
  · cases hs

theorem mlfqChooseTask_allTasks (queues : Mlfq) (tasks : TaskPtr → TaskView) (now : BitVec 32) :
    allTasks (mlfqChooseTask queues tasks now).2 = allTasks queues := by
  unfold mlfqChooseTask
  split
  · rename_i hs
    exact startTimeslice_allTasks hs
  · rfl

theorem mlfqNextQuantumForTask_allTasks (queues : Mlfq) (task : TaskPtr) (now : BitVec 32) :
    allTasks (mlfqNextQuantumForTask queues task now).2 = allTasks queues := by
  unfold mlfqNextQuantumForTask
  split
  · rename_i hs
    exact startTimeslice_allTasks hs
  · rfl

theorem mlfqAddTaskToQueue_perm (hs : mlfqAddTaskToQueue queues task queueIdx = some queues') :
    (allTasks queues').Perm (task :: allTasks queues) := by
  obtain ⟨q, hi, hs⟩ := Option.bind_eq_some_iff.mp hs
  obtain ⟨tasks, hins, hs⟩ := Option.bind_eq_some_iff.mp hs
  obtain ⟨-, hitems, -⟩ := ArrayM.insert_eq_some.mp hins
  obtain rfl := Option.some.inj hs
  exact allTasks_put_perm hi (by simp [MlfqQueue.tasks, hitems])

theorem mlfqAddTaskToQueue_spec (h : MlfqOk queues) (task : TaskPtr)
    (hidx : queueIdx < mlfqQueueCount) (hroom : (allTasks queues).length < 128) :
    ∃ queues', mlfqAddTaskToQueue queues task queueIdx = some queues' ∧ MlfqOk queues' ∧
      (allTasks queues').Perm (task :: allTasks queues) := by
  have hlt : queueIdx < queues.length := h.length ▸ hidx
  have hi : queues[queueIdx]? = some queues[queueIdx] := List.getElem?_eq_getElem hlt
  generalize queues[queueIdx] = q at hi
  have hmem := List.mem_of_getElem? hi
  have hq := h.queue q hmem
  have hlen := MlfqQueue.length_le_allTasks hmem
  obtain ⟨tasks, hins, hitems, hcap⟩ :=
    q.roundRobinTasks.exists_insert ⟨task, 0#32, q.quantum⟩ (by rw [hq.capacity]; omega)
  have hadd : mlfqAddTaskToQueue queues task queueIdx =
      some (queues.set queueIdx { q with roundRobinTasks := tasks }) := by
    simp [mlfqAddTaskToQueue, hi, hins]
  refine ⟨_, hadd, ?_, mlfqAddTaskToQueue_perm hadd⟩
  exact h.set hi rfl (hq.appended ⟨task, 0#32, q.quantum⟩ hitems hcap)

theorem mlfqDeleteTask_spec (h : MlfqOk queues) (task : TaskPtr) :
    ∃ queues', mlfqDeleteTask queues task = some queues' ∧ MlfqOk queues' ∧
      (allTasks queues').Perm ((allTasks queues).erase task) := by
  unfold mlfqDeleteTask
  split
  · rename_i hnone
    refine ⟨queues, rfl, h, ?_⟩
    rw [List.erase_of_not_mem (findTask_none hnone)]
  · rename_i i j hsome
    obtain ⟨q, ent, hi, hj, rfl⟩ := findTask_some hsome
    have hq := h.queue q (List.mem_of_getElem? hi)
    obtain ⟨tasks, hrem, hitems, hcap⟩ :=
      q.roundRobinTasks.exists_remove (List.getElem?_eq_some_iff.mp hj).1
    refine ⟨queues.set i { q with roundRobinTasks := tasks }, by simp [hi, hrem], ?_, ?_⟩
    · exact h.set hi rfl (hq.removed hitems hcap)
    · have htasks : (ent.task :: MlfqQueue.tasks { q with roundRobinTasks := tasks }).Perm
          q.tasks := by
        simpa [MlfqQueue.tasks, hitems] using tasks_eraseIdx_perm hj
      exact (List.cons_perm_iff_perm_erase.mp (allTasks_take_perm hi htasks)).2

/-! #### The boost -/

theorem boostEnts_spec : ∀ (ents : List MlfqEnt) (highPrio : MlfqQueue), QueueOk highPrio →
    highPrio.roundRobinTasks.items.length + ents.length ≤ 128 →
    ∃ high', boostEnts highPrio ents = some high' ∧ QueueOk high' ∧
      high'.quantum = highPrio.quantum ∧
      high'.tasks = highPrio.tasks ++ ents.map (·.task) := by
  intro ents
  induction ents with
  | nil => exact fun highPrio h _ => ⟨highPrio, rfl, h, rfl, by simp⟩
  | cons ent ents ih =>
    intro highPrio h hlen
    rw [List.length_cons] at hlen
    obtain ⟨tasks, hins, hitems, hcap⟩ := highPrio.roundRobinTasks.exists_insert
      { ent with ttlRemaining := highPrio.quantum } (by rw [h.capacity]; omega)
    have hok : QueueOk { highPrio with roundRobinTasks := tasks } := h.appended ent hitems hcap
    obtain ⟨high', hrun, hok', hquantum, htasks⟩ := ih _ hok (by
      rw [hitems, List.length_append, List.length_singleton]
      omega)
    refine ⟨high', by simp [boostEnts, hins, hrun], hok', hquantum, ?_⟩
    rw [htasks]
    simp [MlfqQueue.tasks, hitems]

theorem boostQueues_spec : ∀ (qs : List MlfqQueue) (highPrio : MlfqQueue), QueueOk highPrio →
    (∀ q ∈ qs, QueueOk q) → (allTasks (highPrio :: qs)).length ≤ 128 →
    ∃ high' qs', boostQueues highPrio qs = some (high', qs') ∧ QueueOk high' ∧
      (∀ q ∈ qs', QueueOk q) ∧ high'.quantum = highPrio.quantum ∧
      qs'.map (·.quantum) = qs.map (·.quantum) ∧
      allTasks (high' :: qs') = allTasks (highPrio :: qs) := by
  intro qs
  induction qs with
  | nil => exact fun highPrio h hqs _ => ⟨highPrio, [], rfl, h, hqs, rfl, rfl, rfl⟩
  | cons q qs ih =>
    intro highPrio h hqs hlen
    have hq := hqs q List.mem_cons_self
    have hlen' : highPrio.roundRobinTasks.items.length + q.roundRobinTasks.items.length +
        (allTasks qs).length ≤ 128 := by
      simpa [allTasks, MlfqQueue.tasks, Nat.add_assoc] using hlen
    obtain ⟨high₁, hrun₁, hok₁, hquantum₁, htasks₁⟩ :=
      boostEnts_spec q.roundRobinTasks.items highPrio h (by omega)
    have hall : allTasks (high₁ :: qs) = allTasks (highPrio :: q :: qs) := by
      rw [allTasks, List.flatMap_cons, htasks₁]
      simp [allTasks, MlfqQueue.tasks]
    obtain ⟨high₂, qs₂, hrun₂, hok₂, hqs₂, hquantum₂, hquantums₂, hall₂⟩ :=
      ih high₁ hok₁ (fun r hr => hqs r (List.mem_cons_of_mem q hr)) (hall ▸ hlen)
    refine ⟨high₂, _, by simp [boostQueues, hrun₁, hrun₂]; rfl, hok₂, ?_, by rw [hquantum₂, hquantum₁],
      by simp [hquantums₂], ?_⟩
    · intro r hr
      rcases List.mem_cons.mp hr with rfl | hr
      · exact hq.withTasks rfl (by simp)
      · exact hqs₂ r hr
    · rw [← hall, ← hall₂]
      simp [allTasks, MlfqQueue.tasks]

theorem mlfqPriorityBoost_spec (h : MlfqOk queues) (hlen : (allTasks queues).length ≤ 128)
    (now : BitVec 32) :
    ∃ boosted queues', mlfqPriorityBoostIfNecessary queues now = some (boosted, queues') ∧
      MlfqOk queues' ∧ allTasks queues' = allTasks queues := by
  unfold mlfqPriorityBoostIfNecessary
  split
  · cases queues with
    | nil => exact absurd h.length (by decide)
    | cons highPrio rest =>
      obtain ⟨high', rest', hrun, hok, hrest, hquantum, hquantums, hall⟩ :=
        boostQueues_spec rest highPrio (h.queue _ List.mem_cons_self)
          (fun q hq => h.queue q (List.mem_cons_of_mem _ hq)) hlen
      refine ⟨true, high' :: rest', by simp [hrun], ⟨?_, ?_⟩, hall⟩
      · rw [← h.quantums, List.map_cons, List.map_cons, hquantum, hquantums]
      · intro q hq
        rcases List.mem_cons.mp hq with rfl | hq
        · exact hok
        · exact hrest q hq
  · exact ⟨false, queues, rfl, h, rfl⟩

/-! #### Switching away from a task -/

/-- The elapsed time `mlfq_prepare_for_switch_from_task` computes for `task` stays below
`2^31` ms. -/
def ElapsedOk (queues : Mlfq) (task : TaskPtr) (now : BitVec 32) : Prop :=
  ∀ q ∈ queues, ∀ ent ∈ q.roundRobinTasks.items, ent.task = task →
    (now - ent.lastScheduleStart).toNat < 2 ^ 31

instance (queues : Mlfq) (task : TaskPtr) (now : BitVec 32) :
    Decidable (ElapsedOk queues task now) :=
  inferInstanceAs (Decidable (∀ q ∈ queues, ∀ ent ∈ q.roundRobinTasks.items, _))

/-- The lowest queue: out of its place and to the back, with a full quantum. -/
theorem requeue_spec (h : MlfqOk queues) (hi : queues[i]? = some q)
    (hj : q.roundRobinTasks.items[j]? = some ent) :
    ∃ tasks tasks', q.roundRobinTasks.remove j = some tasks ∧
      tasks.insert { ent with ttlRemaining := q.quantum } = some tasks' ∧
      MlfqOk (queues.set i { q with roundRobinTasks := tasks' }) ∧
      (allTasks (queues.set i { q with roundRobinTasks := tasks' })).Perm (allTasks queues) := by
  have hq := h.queue q (List.mem_of_getElem? hi)
  have hlt := (List.getElem?_eq_some_iff.mp hj).1
  obtain ⟨tasks, hrem, hitems, hcap⟩ := q.roundRobinTasks.exists_remove hlt
  have hlen : tasks.items.length + 1 = q.roundRobinTasks.items.length := by
    rw [hitems, List.length_eraseIdx_of_lt hlt]
    omega
  obtain ⟨tasks', hins, hitems', hcap'⟩ :=
    tasks.exists_insert { ent with ttlRemaining := q.quantum } (by
      have := q.roundRobinTasks.size_le
      omega)
  have hok : QueueOk { q with roundRobinTasks := tasks' } :=
    (hq.removed hitems hcap).appended ent hitems' hcap'
  refine ⟨tasks, tasks', hrem, hins, h.set hi rfl hok, allTasks_requeue_perm hi ?_⟩
  have hperm := tasks_eraseIdx_perm hj
  have happ : MlfqQueue.tasks { q with roundRobinTasks := tasks' } =
      (q.roundRobinTasks.items.eraseIdx j).map (·.task) ++ [ent.task] := by
    simp [MlfqQueue.tasks, hitems', hitems]
  rw [happ]
  exact (List.perm_append_comm).trans hperm

/-- A demotion: out of queue `i` and to the back of queue `i + 1`, with its quantum. -/
theorem demote_spec (h : MlfqOk queues) (hlen : (allTasks queues).length ≤ 128)
    (hi : queues[i]? = some q) (hj : q.roundRobinTasks.items[j]? = some ent)
    (hlow : i ≠ mlfqQueueCount - 1) :
    ∃ tasks newQueue newTasks, q.roundRobinTasks.remove j = some tasks ∧
      queues[i + 1]? = some newQueue ∧
      newQueue.roundRobinTasks.insert { ent with ttlRemaining := newQueue.quantum }
        = some newTasks ∧
      MlfqOk ((queues.set i { q with roundRobinTasks := tasks }).set (i + 1)
        { newQueue with roundRobinTasks := newTasks }) ∧
      (allTasks ((queues.set i { q with roundRobinTasks := tasks }).set (i + 1)
        { newQueue with roundRobinTasks := newTasks })).Perm (allTasks queues) := by
  have hq := h.queue q (List.mem_of_getElem? hi)
  obtain ⟨tasks, hrem, hitems, hcap⟩ :=
    q.roundRobinTasks.exists_remove (List.getElem?_eq_some_iff.mp hj).1
  have hout : (ent.task :: MlfqQueue.tasks { q with roundRobinTasks := tasks }).Perm q.tasks := by
    simpa [MlfqQueue.tasks, hitems] using tasks_eraseIdx_perm hj
  have hlt : i + 1 < queues.length := by
    have hi' := (List.getElem?_eq_some_iff.mp hi).1
    rw [h.length, mlfqQueueCount] at hi' ⊢
    rw [mlfqQueueCount] at hlow
    omega
  have hk : queues[i + 1]? = some queues[i + 1] := List.getElem?_eq_getElem hlt
  generalize queues[i + 1] = newQueue at hk
  have hok₁ : MlfqOk (queues.set i { q with roundRobinTasks := tasks }) :=
    h.set hi rfl (hq.removed hitems hcap)
  have hk' : (queues.set i { q with roundRobinTasks := tasks })[i + 1]? = some newQueue := by
    rw [List.getElem?_set_ne (Nat.ne_of_lt (Nat.lt_succ_self i))]
    exact hk
  have hnew := h.queue newQueue (List.mem_of_getElem? hk)
  -- the entry taken out leaves room for itself further down
  have hroom : newQueue.roundRobinTasks.items.length < newQueue.roundRobinTasks.maxSize := by
    have hle := MlfqQueue.length_le_allTasks (List.mem_of_getElem? hk')
    have htake := (allTasks_take_perm hi hout).length_eq
    rw [List.length_cons] at htake
    rw [hnew.capacity]
    omega
  obtain ⟨newTasks, hins, hitems', hcap'⟩ := newQueue.roundRobinTasks.exists_insert
    { ent with ttlRemaining := newQueue.quantum } hroom
  refine ⟨tasks, newQueue, newTasks, hrem, hk, hins,
    hok₁.set hk' rfl (hnew.appended ent hitems' hcap'), ?_⟩
  have happ : MlfqQueue.tasks { newQueue with roundRobinTasks := newTasks } =
      newQueue.tasks ++ [ent.task] := by
    simp [MlfqQueue.tasks, hitems']
  exact (allTasks_put_perm hk' happ).trans (allTasks_take_perm hi hout)

/-- Switching away from a task adds no task to the queues, whatever the times are. -/
theorem mlfqPrepareForSwitchFromTask_perm {found : Bool}
    (hs : mlfqPrepareForSwitchFromTask queues task now = some (found, queues')) :
    (allTasks queues').Perm (allTasks queues) := by
  unfold mlfqPrepareForSwitchFromTask at hs
  split at hs
  · cases hs
    exact List.Perm.refl _
  · rename_i i j hsome
    obtain ⟨q, ent, hi, hj, rfl⟩ := findTask_some hsome
    have hlookup : q.roundRobinTasks.lookup j = some ent := hj
    simp only [hi, hlookup, Option.bind_eq_bind, Option.bind_some] at hs
    split at hs
    · obtain ⟨tasks, hrem, hs⟩ := Option.bind_eq_some_iff.mp hs
      obtain ⟨-, hitems, -⟩ := ArrayM.remove_eq_some.mp hrem
      have hout : (ent.task :: MlfqQueue.tasks { q with roundRobinTasks := tasks }).Perm
          q.tasks := by
        simpa [MlfqQueue.tasks, hitems] using tasks_eraseIdx_perm hj
      split at hs
      · obtain ⟨tasks', hins, hs⟩ := Option.bind_eq_some_iff.mp hs
        obtain ⟨-, hitems', -⟩ := ArrayM.insert_eq_some.mp hins
        cases hs
        refine allTasks_requeue_perm hi ?_
        have happ : MlfqQueue.tasks { q with roundRobinTasks := tasks' } =
            MlfqQueue.tasks { q with roundRobinTasks := tasks } ++ [ent.task] := by
          simp [MlfqQueue.tasks, hitems']
        rw [happ]
        exact List.perm_append_comm.trans hout
      · obtain ⟨newQueue, hk, hs⟩ := Option.bind_eq_some_iff.mp hs
        obtain ⟨newTasks, hins, hs⟩ := Option.bind_eq_some_iff.mp hs
        obtain ⟨-, hitems', -⟩ := ArrayM.insert_eq_some.mp hins
        cases hs
        have hk' : (queues.set i { q with roundRobinTasks := tasks })[i + 1]? = some newQueue := by
          rw [List.getElem?_set_ne (Nat.ne_of_lt (Nat.lt_succ_self i))]
          exact hk
        have happ : MlfqQueue.tasks { newQueue with roundRobinTasks := newTasks } =
            newQueue.tasks ++ [ent.task] := by
          simp [MlfqQueue.tasks, hitems']
        exact (allTasks_put_perm hk' happ).trans (allTasks_take_perm hi hout)
    · cases hs
      exact List.Perm.of_eq (allTasks_setEnt hi hj rfl)

theorem mlfqPrepareForSwitchFromTask_spec (h : MlfqOk queues)
    (hlen : (allTasks queues).length ≤ 128) (helapsed : ElapsedOk queues task now) :
    ∃ found queues', mlfqPrepareForSwitchFromTask queues task now = some (found, queues') ∧
      MlfqOk queues' ∧ (allTasks queues').Perm (allTasks queues) := by
  unfold mlfqPrepareForSwitchFromTask
  split
  · exact ⟨false, queues, rfl, h, List.Perm.refl _⟩
  · rename_i i j hsome
    obtain ⟨q, ent, hi, hj, rfl⟩ := findTask_some hsome
    have hmem := List.mem_of_getElem? hi
    have hq := h.queue q hmem
    have hlookup : q.roundRobinTasks.lookup j = some ent := hj
    simp only [hi, hlookup, Option.bind_eq_bind, Option.bind_some]
    split
    · -- the time slice is used up
      split
      · obtain ⟨tasks, tasks', hrem, hins, hok, hperm⟩ := requeue_spec h hi hj
        exact ⟨true, _, by simp [hrem, hins], hok, hperm⟩
      · rename_i hlow
        obtain ⟨tasks, newQueue, newTasks, hrem, hk, hins, hok, hperm⟩ :=
          demote_spec h hlen hi hj hlow
        exact ⟨true, _, by simp [hrem, hk, hins], hok, hperm⟩
    · rename_i hpos
      have httl := hq.ttl ent (List.mem_of_getElem? hj)
      have hafter := ttl_after (httl.2.trans hq.quantum_le)
        (helapsed q hmem ent (List.mem_of_getElem? hj) rfl) hpos
      have hset := h.setEnt (j := j) hi
        { ent with ttlRemaining := ent.ttlRemaining - (now - ent.lastScheduleStart) }
        ⟨hafter.1, hafter.2.trans httl.2⟩
      exact ⟨true, _, rfl, hset, List.Perm.of_eq (allTasks_setEnt hi hj rfl)⟩

/-! ### Runs -/

/-- One call from the scheduler, with the clock it reads and the task states it sees. -/
inductive MlfqOp where
  | addTask (task : TaskPtr) (queueIdx : ℕ)
  | chooseTask (tasks : TaskPtr → TaskView) (now : BitVec 32)
  | nextQuantumForTask (task : TaskPtr) (now : BitVec 32)
  | prepareForSwitchFromTask (task : TaskPtr) (now : BitVec 32)
  | priorityBoostIfNecessary (now : BitVec 32)
  | deleteTask (task : TaskPtr)

/-- The queues together with the tasks added and not deleted since, which the code does not
keep. -/
structure SchedulerRun where
  queues : Mlfq
  live : List TaskPtr

def SchedulerRun.init : SchedulerRun := ⟨mlfqInit, []⟩

def schedulerStep (s : SchedulerRun) : MlfqOp → Option SchedulerRun
  | .addTask task queueIdx =>
    (mlfqAddTaskToQueue s.queues task queueIdx).map fun queues => ⟨queues, task :: s.live⟩
  | .chooseTask tasks now => some { s with queues := (mlfqChooseTask s.queues tasks now).2 }
  | .nextQuantumForTask task now =>
    some { s with queues := (mlfqNextQuantumForTask s.queues task now).2 }
  | .prepareForSwitchFromTask task now =>
    (mlfqPrepareForSwitchFromTask s.queues task now).map fun r => { s with queues := r.2 }
  | .priorityBoostIfNecessary now =>
    (mlfqPriorityBoostIfNecessary s.queues now).map fun r => { s with queues := r.2 }
  | .deleteTask task =>
    (mlfqDeleteTask s.queues task).map fun queues => ⟨queues, s.live.erase task⟩

/-- What the callers keep to: only a task that is not live is added, to one of the four queues,
at most 128 tasks are live, and a task is switched away from less than `2^31` ms after it was
last scheduled. -/
def SchedulerOk (s : SchedulerRun) : MlfqOp → Prop
  | .addTask task queueIdx =>
    task ∉ s.live ∧ s.live.length < 128 ∧ queueIdx < mlfqQueueCount
  | .prepareForSwitchFromTask task now => ElapsedOk s.queues task now
  | _ => True

instance (s : SchedulerRun) : ∀ op, Decidable (SchedulerOk s op)
  | .addTask task queueIdx =>
    inferInstanceAs (Decidable (task ∉ s.live ∧ s.live.length < 128 ∧ queueIdx < _))
  | .prepareForSwitchFromTask task now =>
    inferInstanceAs (Decidable (ElapsedOk s.queues task now))
  | .chooseTask _ _ | .nextQuantumForTask _ _ | .priorityBoostIfNecessary _ | .deleteTask _ =>
    inferInstanceAs (Decidable True)

structure SchedulerInv (s : SchedulerRun) : Prop where
  queues : MlfqOk s.queues
  tasks : (allTasks s.queues).Perm s.live
  nodup : s.live.Nodup
  room : s.live.length ≤ 128

theorem SchedulerInv.init : SchedulerInv SchedulerRun.init := by
  refine ⟨⟨by decide, ?_⟩, List.Perm.refl _, List.nodup_nil, Nat.zero_le _⟩
  intro q hq
  obtain ⟨quantum, hquantum, rfl⟩ := List.mem_map.mp hq
  have hbounds : ∀ quantum ∈ mlfqQuantums, 0 < quantum.toNat ∧ quantum.toNat ≤ 60 := by
    simp [mlfqQuantums]
  exact ⟨rfl, (hbounds quantum hquantum).1, (hbounds quantum hquantum).2, by simp⟩

variable {s : SchedulerRun}

theorem SchedulerInv.withQueues (h : SchedulerInv s) (hok : MlfqOk queues)
    (hperm : (allTasks queues).Perm (allTasks s.queues)) :
    SchedulerInv { s with queues := queues } :=
  ⟨hok, hperm.trans h.tasks, h.nodup, h.room⟩

theorem SchedulerInv.startTimeslice (h : SchedulerInv s)
    (hs : startTimeslice s.queues p now = some (r, queues)) :
    SchedulerInv { s with queues := queues } := by
  obtain ⟨hok, hall⟩ := startTimeslice_spec h.queues hs
  exact h.withQueues hok (by rw [hall])

/-- **The step lemma**: every call succeeds and keeps the invariant. -/
theorem schedulerStep_inv (s : SchedulerRun) (op : MlfqOp) (h : SchedulerInv s)
    (hop : SchedulerOk s op) : ∃ t, schedulerStep s op = some t ∧ SchedulerInv t := by
  have hlen : (allTasks s.queues).length = s.live.length := h.tasks.length_eq
  cases op with
  | addTask task queueIdx =>
    obtain ⟨hnew, hroom, hidx⟩ := hop
    obtain ⟨queues, hadd, hok, hperm⟩ :=
      mlfqAddTaskToQueue_spec h.queues task hidx (hlen ▸ hroom)
    refine ⟨⟨queues, task :: s.live⟩, by simp [schedulerStep, hadd], hok, ?_, ?_, hroom⟩
    · exact hperm.trans (h.tasks.cons task)
    · exact List.nodup_cons.mpr ⟨hnew, h.nodup⟩
  | chooseTask tasks now =>
    refine ⟨_, rfl, ?_⟩
    unfold mlfqChooseTask
    split
    · rename_i hs
      exact h.startTimeslice hs
    · exact h
  | nextQuantumForTask task now =>
    refine ⟨_, rfl, ?_⟩
    unfold mlfqNextQuantumForTask
    split
    · rename_i hs
      exact h.startTimeslice hs
    · exact h
  | prepareForSwitchFromTask task now =>
    obtain ⟨found, queues, hrun, hok, hperm⟩ :=
      mlfqPrepareForSwitchFromTask_spec h.queues (hlen ▸ h.room) hop
    exact ⟨_, by simp [schedulerStep, hrun], h.withQueues hok hperm⟩
  | priorityBoostIfNecessary now =>
    obtain ⟨boosted, queues, hrun, hok, hall⟩ :=
      mlfqPriorityBoost_spec h.queues (hlen ▸ h.room) now
    exact ⟨_, by simp [schedulerStep, hrun], h.withQueues hok (by rw [hall])⟩
  | deleteTask task =>
    obtain ⟨queues, hdel, hok, hperm⟩ := mlfqDeleteTask_spec h.queues task
    refine ⟨⟨queues, s.live.erase task⟩, by simp [schedulerStep, hdel], hok, ?_, ?_, ?_⟩
    · exact hperm.trans (h.tasks.erase task)
    · exact h.nodup.erase task
    · exact List.length_erase_le.trans h.room

/-- **Conservation.**  Every run of the scheduler's calls succeeds, and afterwards each live task
has exactly one entry, no other task has one, every entry has time left within the quantum of
its queue, and no queue exceeds its capacity. -/
theorem mlfq_conserves (ops : List MlfqOp)
    (hops : Meets schedulerStep SchedulerOk SchedulerRun.init ops) :
    ∃ s, run schedulerStep SchedulerRun.init ops = some s ∧
      (∀ t, (allTasks s.queues).count t = if t ∈ s.live then 1 else 0) ∧
      (∀ q ∈ s.queues, ∀ ent ∈ q.roundRobinTasks.items,
        0 < ent.ttlRemaining.toNat ∧ ent.ttlRemaining.toNat ≤ q.quantum.toNat) ∧
      s.queues.map (·.quantum) = mlfqQuantums ∧
      ∀ q ∈ s.queues, q.roundRobinTasks.maxSize = 128 ∧ q.roundRobinTasks.size ≤ 128 := by
  obtain ⟨s, hrun, hinv⟩ := run_total schedulerStep_inv ops _ SchedulerInv.init hops
  refine ⟨s, hrun, ?_, fun q hq => (hinv.queues.queue q hq).ttl, hinv.queues.quantums, ?_⟩
  · intro t
    rw [hinv.tasks.count_eq, hinv.nodup.count]
  · intro q hq
    have hcap := (hinv.queues.queue q hq).capacity
    exact ⟨hcap, hcap ▸ q.roundRobinTasks.size_le⟩

/-- Two tasks; the first runs 25 ms of its 20 and is demoted, the second is deleted, and the
boost at 1000 ms brings the first one back. -/
def demotionRun : List MlfqOp :=
  [.addTask 1 0, .addTask 2 3, .chooseTask (fun _ => ⟨runnable, false⟩) 5#32,
    .prepareForSwitchFromTask 1 30#32, .deleteTask 2, .priorityBoostIfNecessary 1000#32]

theorem mlfq_conserves_demotionRun :
    ∃ s, run schedulerStep SchedulerRun.init demotionRun = some s ∧
      (∀ t, (allTasks s.queues).count t = if t ∈ s.live then 1 else 0) ∧
      (∀ q ∈ s.queues, ∀ ent ∈ q.roundRobinTasks.items,
        0 < ent.ttlRemaining.toNat ∧ ent.ttlRemaining.toNat ≤ q.quantum.toNat) ∧
      s.queues.map (·.quantum) = mlfqQuantums ∧
      ∀ q ∈ s.queues, q.roundRobinTasks.maxSize = 128 ∧ q.roundRobinTasks.size ≤ 128 :=
  mlfq_conserves demotionRun (by decide)

end Axle.Kernel.MlfqScheduler
