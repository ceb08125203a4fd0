import Axle.Kernel.MlfqScheduler

/-!
# One CPU per task

Two ways lead to a context switch.  `task_switch` chooses a task under the selection lock, and
chooses only one whose `is_currently_executing` is clear; `mlfq_goto_task`, which a device's
interrupt handler calls for the driver of the device, switches to that task without a look at the
flag.  The choice sets the flag; the context switch clears it for the old task and sets it for
the new one.  With interrupts off from the choice on, a CPU that has chosen does nothing else
before the context switch, but the other CPUs go on.

* `smpNext` — the actions of any number of CPUs: the choice, the context switch, going to a
  task, blocking, unblocking, and the spawning of new tasks;
* `OneCpu` — a task is run or selected by one CPU at most, and the flag is set exactly for the
  tasks that are;
* `GotoOk` — an interrupt handler goes only to a task that is not executing, or that is the
  CPU's current one already;
* `one_cpu_per_task` — **PROVED**: in a run of such steps the flag is exact and no two CPUs have
  the same current task;
* `goto_runs_driver_twice` — a driver runs on one CPU when its device interrupts another.
-/

namespace Axle.Kernel.OneCpuPerTask

open Axle.Kernel.TaskState Axle.Kernel.MlfqScheduler Axle.Lib.StepRun

/-! ### CPUs and tasks -/

/-- Where a CPU is in `task_switch`. -/
inductive SwitchPhase where
  | running
  /-- The selection lock is released again; `none` when no task was ready. -/
  | selected (nextTask : Option TaskPtr)
  deriving DecidableEq, Repr

structure CpuPrivateInfo where
  currentTask : TaskPtr
  idleTask : TaskPtr
  phase : SwitchPhase
  deriving DecidableEq, Repr

structure TaskSmall where
  blockedInfo : BlockedInfo
  isCurrentlyExecuting : Bool

structure SmpState where
  cpus : List CpuPrivateInfo
  tasks : TaskPtr → TaskSmall
  queues : Mlfq

/-- What the scheduler reads of the tasks. -/
def SmpState.view (s : SmpState) (t : TaskPtr) : TaskView :=
  ⟨(s.tasks t).blockedInfo.status, (s.tasks t).isCurrentlyExecuting⟩

def setExecuting (tasks : TaskPtr → TaskSmall) (t : TaskPtr) (executing : Bool) :
    TaskPtr → TaskSmall :=
  Function.update tasks t { tasks t with isCurrentlyExecuting := executing }

def setBlockedInfo (tasks : TaskPtr → TaskSmall) (t : TaskPtr) (info : BlockedInfo) :
    TaskPtr → TaskSmall :=
  Function.update tasks t { tasks t with blockedInfo := info }

/-- The CPU, when it is not inside `task_switch`. -/
def SmpState.running (s : SmpState) (c : ℕ) : Option CpuPrivateInfo :=
  s.cpus[c]?.filter fun cpu => cpu.phase = .running

/-! ### The actions -/

/-- The assembly routine: the preempted task is no longer executing, the new one is. -/
def contextSwitch (s : SmpState) (c : ℕ) (cpu : CpuPrivateInfo) (newTask : TaskPtr) : SmpState :=
  { s with
    cpus := s.cpus.set c { cpu with currentTask := newTask, phase := .running }
    tasks := setExecuting (setExecuting s.tasks cpu.currentTask false) newTask true }

/-- The choice of `_task_switch_cont`, from the acquisition of the lock to its release. -/
def chooseTask (s : SmpState) (c : ℕ) (cpu : CpuPrivateInfo) (now : BitVec 32) : SmpState :=
  let (chosen, queues) := mlfqChooseTask s.queues s.view now
  let nextTask := chosen.map (·.1)
  { cpus := s.cpus.set c { cpu with phase := .selected nextTask }
    -- "Hack to ensure this task isn't selected by another CPU"
    tasks := match nextTask with
      | some t => setExecuting s.tasks t true
      | none => s.tasks
    queues := queues }

/-- `task_switch`, or without `transition`
`task_switch_without_transitioning_current_task_to_new_scheduler_queue`, up to the choice. -/
def taskSwitch (s : SmpState) (c : ℕ) (cpu : CpuPrivateInfo) (transition : Bool)
    (now : BitVec 32) : Option SmpState :=
  let prepared := if transition then
      (mlfqPrepareForSwitchFromTask s.queues cpu.currentTask now).map (·.2)
    else some s.queues
  prepared.map fun queues => chooseTask { s with queues := queues } c cpu now

/-- The rest of `_task_switch_cont`: the idle task when nothing was chosen, then the switch. -/
def taskSwitchCont (s : SmpState) (c : ℕ) : Option SmpState :=
  match s.cpus[c]? with
  | none => none
  | some cpu =>
    match cpu.phase with
    | .running => none
    | .selected nextTask => some (contextSwitch s c cpu (nextTask.getD cpu.idleTask))

def mlfqGotoTask (s : SmpState) (c : ℕ) (cpu : CpuPrivateInfo) (task : TaskPtr)
    (now : BitVec 32) : Option SmpState :=
  if cpu.currentTask = task then some s
  else (mlfqPrepareForSwitchFromTask s.queues cpu.currentTask now).map fun prepared =>
    let queues := (mlfqNextQuantumForTask prepared.2 task now).2
    contextSwitch { s with queues := queues } c cpu task

/-- A new allocation is nobody's task. -/
def SmpState.Fresh (s : SmpState) (t : TaskPtr) : Prop :=
  t ∉ allTasks s.queues ∧
    ∀ cpu ∈ s.cpus, cpu.currentTask ≠ t ∧ cpu.idleTask ≠ t ∧ cpu.phase ≠ .selected (some t)

instance (s : SmpState) (t : TaskPtr) : Decidable (s.Fresh t) :=
  inferInstanceAs (Decidable (_ ∧ _))

/-- An action, by the CPU it happens on. -/
inductive SmpEvent where
  | taskSwitch (c : ℕ) (transition : Bool) (now : BitVec 32)
  | contextSwitch (c : ℕ)
  /-- A device's interrupt handler on `c` goes to the driver. -/
  | gotoTask (c : ℕ) (task : TaskPtr) (now : BitVec 32)
  | block (c : ℕ) (task : TaskPtr) (blockedState : TaskStatus) (now : BitVec 32)
  | unblock (c : ℕ) (task : TaskPtr) (reason : TaskStatus)
  | spawn (task : TaskPtr)

def smpNext (s : SmpState) : SmpEvent → Option SmpState
  | .taskSwitch c transition now => do
    let cpu ← s.running c
    taskSwitch s c cpu transition now
  | .contextSwitch c => taskSwitchCont s c
  | .gotoTask c task now => do
    let cpu ← s.running c
    mlfqGotoTask s c cpu task now
  | .block c task blockedState now => do
    let cpu ← s.running c
    let info ← taskingBlockTask blockedState (s.tasks task).blockedInfo
    let s := { s with tasks := setBlockedInfo s.tasks task info }
    -- "If the current task just became blocked, switch to another"
    if task = cpu.currentTask then taskSwitch s c cpu true now else return s
  | .unblock c task reason => do
    let cpu ← s.running c
    let info := taskingUnblockTaskWithReason cpu.currentTask task reason (s.tasks task).blockedInfo
    return { s with tasks := setBlockedInfo s.tasks task info }
  | .spawn task =>
    if s.Fresh task then do
      let queues ← mlfqAddTaskToQueue s.queues task 0
      return { s with
        tasks := Function.update s.tasks task ⟨BlockedInfo.new, false⟩, queues := queues }
    else none

/-! ### Who holds a task -/

/-- The tasks a CPU runs or is about to run. -/
def CpuPrivateInfo.held (cpu : CpuPrivateInfo) : List TaskPtr :=
  match cpu.phase with
  | .selected (some t) => [cpu.currentTask, t]
  | _ => [cpu.currentTask]

/-- CPU `k` runs `t`, or has selected it and is about to run it. -/
def SmpState.Holds (s : SmpState) (k : ℕ) (t : TaskPtr) : Prop :=
  ∃ cpu, s.cpus[k]? = some cpu ∧ t ∈ cpu.held

/-- Every CPU has finished its start-up: it runs a task of its own and has an idle task of its
own, which is in no queue. -/
structure Booted (s : SmpState) : Prop where
  running : ∀ cpu ∈ s.cpus, cpu.phase = .running
  current : (s.cpus.map (·.currentTask)).Nodup
  idle : (s.cpus.map (·.idleTask)).Nodup
  idle_current : ∀ cpu ∈ s.cpus, ∀ cpu' ∈ s.cpus, cpu.idleTask ≠ cpu'.currentTask
  idle_queued : ∀ cpu ∈ s.cpus, cpu.idleTask ∉ allTasks s.queues
  executing : ∀ t, (s.tasks t).isCurrentlyExecuting = true ↔ t ∈ s.cpus.map (·.currentTask)

/-- The scheduler's invariant. -/
structure OneCpu (s : SmpState) : Prop where
  unique : ∀ k k' t, s.Holds k t → s.Holds k' t → k = k'
  executing : ∀ t, (s.tasks t).isCurrentlyExecuting = true ↔ ∃ k, s.Holds k t
  idle_unique : ∀ (k k' : ℕ) (cpu cpu' : CpuPrivateInfo), s.cpus[k]? = some cpu →
    s.cpus[k']? = some cpu' → cpu.idleTask = cpu'.idleTask → k = k'
  idle_held : ∀ k k' cpu, s.cpus[k]? = some cpu → s.Holds k' cpu.idleTask → k' = k
  idle_queued : ∀ cpu ∈ s.cpus, cpu.idleTask ∉ allTasks s.queues

/-- An interrupt handler goes to a task that is not executing and no CPU's idle task, or that is
the CPU's current task already. -/
def GotoOk (s : SmpState) : SmpEvent → Prop
  | .gotoTask c task _ =>
    (∀ cpu ∈ s.cpus[c]?, cpu.currentTask = task) ∨
      ((s.tasks task).isCurrentlyExecuting = false ∧ ∀ cpu ∈ s.cpus, cpu.idleTask ≠ task)
  | _ => True

instance (s : SmpState) : ∀ e, Decidable (GotoOk s e)
  | .gotoTask _ _ _ => inferInstanceAs (Decidable (_ ∨ _))
  | .taskSwitch _ _ _ | .contextSwitch _ | .block _ _ _ _ | .unblock _ _ _ | .spawn _ =>
    inferInstanceAs (Decidable True)

/-! ### One CPU changes -/

@[simp] theorem setExecuting_flag (tasks : TaskPtr → TaskSmall) (t u : TaskPtr) (executing : Bool) :
    (setExecuting tasks t executing u).isCurrentlyExecuting =
      if u = t then executing else (tasks u).isCurrentlyExecuting := by
  unfold setExecuting
  by_cases h : u = t
  · subst h
    simp
  · simp [h]

@[simp] theorem setBlockedInfo_flag (tasks : TaskPtr → TaskSmall) (t u : TaskPtr)
    (info : BlockedInfo) :
    (setBlockedInfo tasks t info u).isCurrentlyExecuting = (tasks u).isCurrentlyExecuting := by
  unfold setBlockedInfo
  by_cases h : u = t
  · subst h
    simp
  · simp [h]

variable {c : ℕ} {cpu : CpuPrivateInfo} {s t : SmpState} {queues : Mlfq} {now : BitVec 32}
  {task : TaskPtr}

theorem running_eq_some (h : s.running c = some cpu) :
    s.cpus[c]? = some cpu ∧ cpu.phase = .running := by
  obtain ⟨hget, hphase⟩ := Option.filter_eq_some_iff.mp h
  exact ⟨hget, by simpa using hphase⟩

theorem held_of_running (h : cpu.phase = .running) : cpu.held = [cpu.currentTask] := by
  rw [CpuPrivateInfo.held, h]

theorem currentTask_mem_held (cpu : CpuPrivateInfo) : cpu.currentTask ∈ cpu.held := by
  unfold CpuPrivateInfo.held
  split <;> exact List.mem_cons_self

/-- After CPU `c` changed to `cpu'`, the others hold what they held. -/
theorem holds_set {cpu cpu' : CpuPrivateInfo} (hc : s.cpus[c]? = some cpu)
    (ht : t.cpus = s.cpus.set c cpu') (k : ℕ) (u : TaskPtr) :
    t.Holds k u ↔ (k = c ∧ u ∈ cpu'.held) ∨ (k ≠ c ∧ s.Holds k u) := by
  have hlt := (List.getElem?_eq_some_iff.mp hc).1
  unfold SmpState.Holds
  rw [ht]
  by_cases hk : k = c
  · subst hk
    simp [List.getElem?_set_self hlt]
  · simp [List.getElem?_set_ne (Ne.symm hk), hk]

/-- **The step rule**: CPU `c` changes to `cpu'`, with the flag set for what it holds now and kept
for what the other CPUs hold; what is new to it is held by no other CPU and no other's idle
task. -/
theorem OneCpu.update (h : OneCpu s) (hc : s.cpus[c]? = some cpu) (cpu' : CpuPrivateInfo)
    (ht : t.cpus = s.cpus.set c cpu') (hidle : cpu'.idleTask = cpu.idleTask)
    (hqueues : ∀ u ∈ allTasks t.queues, u ∈ allTasks s.queues)
    (hnew : ∀ u ∈ cpu'.held, u ∈ cpu.held ∨ u = cpu.idleTask ∨
      (∀ k, ¬s.Holds k u) ∧ ∀ other ∈ s.cpus, other.idleTask ≠ u)
    (hflag : ∀ u, (t.tasks u).isCurrentlyExecuting = true ↔
      u ∈ cpu'.held ∨ ∃ k, k ≠ c ∧ s.Holds k u) : OneCpu t := by
  have hlt := (List.getElem?_eq_some_iff.mp hc).1
  -- whatever `cpu'` holds is held by no other CPU
  have hown : ∀ u ∈ cpu'.held, ∀ k, s.Holds k u → k = c := by
    intro u hu k hk
    rcases hnew u hu with hold | rfl | ⟨hfree, -⟩
    · exact h.unique k c u hk ⟨cpu, hc, hold⟩
    · exact h.idle_held c k cpu hc hk
    · exact absurd hk (hfree k)
  have hget : ∀ (k : ℕ) (other : CpuPrivateInfo), t.cpus[k]? = some other →
      ∃ old, s.cpus[k]? = some old ∧ old.idleTask = other.idleTask := by
    intro k other hk
    rw [ht] at hk
    by_cases hkc : k = c
    · subst hkc
      rw [List.getElem?_set_self hlt] at hk
      obtain rfl := Option.some.inj hk
      exact ⟨cpu, hc, hidle.symm⟩
    · rw [List.getElem?_set_ne (Ne.symm hkc)] at hk
      exact ⟨other, hk, rfl⟩
  refine ⟨?_, ?_, ?_, ?_, ?_⟩
  · intro k k' u hk hk'
    rcases (holds_set hc ht k u).mp hk with ⟨rfl, hu⟩ | ⟨hne, hold⟩
    · rcases (holds_set hc ht k' u).mp hk' with ⟨rfl, -⟩ | ⟨-, hold'⟩
      · rfl
      · exact (hown u hu k' hold').symm
    · rcases (holds_set hc ht k' u).mp hk' with ⟨rfl, hu'⟩ | ⟨-, hold'⟩
      · exact hown u hu' k hold
      · exact h.unique k k' u hold hold'
  · intro u
    rw [hflag u]
    constructor
    · intro hu
      rcases hu with hu | ⟨k, hkc, hk⟩
      · exact ⟨c, (holds_set hc ht c u).mpr (Or.inl ⟨rfl, hu⟩)⟩
      · exact ⟨k, (holds_set hc ht k u).mpr (Or.inr ⟨hkc, hk⟩)⟩
    · intro hu
      obtain ⟨k, hk⟩ := hu
      rcases (holds_set hc ht k u).mp hk with ⟨-, hu⟩ | hold
      · exact Or.inl hu
      · exact Or.inr ⟨k, hold⟩
  · intro k k' other other' hk hk' heq
    obtain ⟨old, hold, hi⟩ := hget k other hk
    obtain ⟨old', hold', hi'⟩ := hget k' other' hk'
    exact h.idle_unique k k' old old' hold hold' (by rw [hi, hi', heq])
  · intro k k' other hk hheld
    obtain ⟨old, hold, hi⟩ := hget k other hk
    rw [← hi] at hheld
    rcases (holds_set hc ht k' old.idleTask).mp hheld with ⟨rfl, hu⟩ | ⟨-, hheld'⟩
    · rcases hnew _ hu with hu | hu | ⟨-, hfree⟩
      · exact h.idle_held k k' old hold ⟨cpu, hc, hu⟩
      · exact (h.idle_unique k k' old cpu hold hc hu).symm
      · exact absurd rfl (hfree old (List.mem_of_getElem? hold))
    · exact h.idle_held k k' old hold hheld'
  · intro other hother hmem
    obtain ⟨k, hk⟩ := List.getElem?_of_mem hother
    obtain ⟨old, hold, hi⟩ := hget k other hk
    exact h.idle_queued old (List.mem_of_getElem? hold) (hqueues _ (hi ▸ hmem))

theorem OneCpu.frame (h : OneCpu s) (hcpus : t.cpus = s.cpus)
    (hflag : ∀ u, (t.tasks u).isCurrentlyExecuting = (s.tasks u).isCurrentlyExecuting)
    (hqueues : ∀ cpu ∈ s.cpus, cpu.idleTask ∉ allTasks t.queues) : OneCpu t := by
  have hholds : ∀ k u, t.Holds k u ↔ s.Holds k u := by
    intro k u
    unfold SmpState.Holds
    rw [hcpus]
  refine ⟨?_, ?_, ?_, ?_, ?_⟩
  · intro k k' u hk hk'
    exact h.unique k k' u ((hholds k u).mp hk) ((hholds k' u).mp hk')
  · intro u
    rw [hflag u, h.executing u]
    simp only [hholds]
  · rw [hcpus]
    exact h.idle_unique
  · intro k k' cpu hk hheld
    rw [hcpus] at hk
    exact h.idle_held k k' cpu hk ((hholds _ _).mp hheld)
  · rw [hcpus]
    exact hqueues

/-! ### The steps -/

section

variable (h : OneCpu s)

include h

/-- A context switch to a task the CPU has selected, to its idle task, or to one that nobody
holds. -/
theorem OneCpu.contextSwitch (hc : s.cpus[c]? = some cpu) {newTask : TaskPtr}
    (hheld : ∀ u ∈ cpu.held, u = cpu.currentTask ∨ u = newTask)
    (hnew : newTask ∈ cpu.held ∨ newTask = cpu.idleTask ∨
      (∀ k, ¬s.Holds k newTask) ∧ ∀ other ∈ s.cpus, other.idleTask ≠ newTask) :
    OneCpu (contextSwitch s c cpu newTask) := by
  refine h.update hc { cpu with currentTask := newTask, phase := .running } rfl rfl
    (fun u hu => hu) ?_ ?_
  · intro u hu
    obtain rfl := List.mem_singleton.mp hu
    exact hnew
  · intro u
    show ((setExecuting (setExecuting s.tasks cpu.currentTask false) newTask true u)
      |>.isCurrentlyExecuting) = true ↔ u ∈ [newTask] ∨ _
    rw [setExecuting_flag, setExecuting_flag, List.mem_singleton]
    by_cases hu : u = newTask
    · simp [hu]
    · rw [if_neg hu]
      by_cases hcur : u = cpu.currentTask
      · rw [if_pos hcur]
        refine iff_of_false Bool.false_ne_true ?_
        rintro (hu' | ⟨k, hkc, hk⟩)
        · exact hu hu'
        · exact hkc (h.unique k c u hk ⟨cpu, hc, hcur ▸ currentTask_mem_held cpu⟩)
      · rw [if_neg hcur, h.executing u]
        constructor
        · intro hk
          obtain ⟨k, hk⟩ := hk
          refine Or.inr ⟨k, ?_, hk⟩
          rintro rfl
          obtain ⟨cpu₁, hc₁, hmem⟩ := hk
          rw [hc] at hc₁
          obtain rfl := Option.some.inj hc₁
          rcases hheld u hmem with h₁ | h₁
          · exact hcur h₁
          · exact hu h₁
        · intro hk
          rcases hk with hk | ⟨k, -, hk⟩
          · exact absurd hk hu
          · exact ⟨k, hk⟩

theorem OneCpu.chooseTask (hc : s.cpus[c]? = some cpu) (hrunning : cpu.phase = .running)
    (now : BitVec 32) : OneCpu (chooseTask s c cpu now) := by
  have hqueues := mlfqChooseTask_allTasks s.queues s.view now
  unfold OneCpuPerTask.chooseTask
  generalize hchoose : mlfqChooseTask s.queues s.view now = r at hqueues
  obtain ⟨chosen, queues⟩ := r
  have hflag : ∀ u, (s.tasks u).isCurrentlyExecuting = true ↔
      u = cpu.currentTask ∨ ∃ k, k ≠ c ∧ s.Holds k u := by
    intro u
    rw [h.executing u]
    constructor
    · intro hk
      obtain ⟨k, hk⟩ := hk
      by_cases hkc : k = c
      · subst hkc
        obtain ⟨cpu₁, hc₁, hmem⟩ := hk
        rw [hc] at hc₁
        obtain rfl := Option.some.inj hc₁
        rw [held_of_running hrunning, List.mem_singleton] at hmem
        exact Or.inl hmem
      · exact Or.inr ⟨k, hkc, hk⟩
    · intro hk
      rcases hk with rfl | ⟨k, -, hk⟩
      · exact ⟨c, cpu, hc, currentTask_mem_held cpu⟩
      · exact ⟨k, hk⟩
  cases chosen with
  | none =>
    refine h.update hc { cpu with phase := .selected none } rfl rfl ?_ ?_ ?_
    · intro u hu
      exact hqueues ▸ hu
    · intro u hu
      obtain rfl := List.mem_singleton.mp hu
      exact Or.inl (currentTask_mem_held cpu)
    · intro u
      show (s.tasks u).isCurrentlyExecuting = true ↔ u ∈ [cpu.currentTask] ∨ _
      rw [List.mem_singleton]
      exact hflag u
  | some pick =>
    obtain ⟨t, quantum⟩ := pick
    obtain ⟨⟨-, hidle⟩, hmem⟩ := mlfqChooseTask_chosen (by rw [hchoose])
    have hfree : ∀ k, ¬s.Holds k t := by
      intro k hk
      have hset := (h.executing t).mpr ⟨k, hk⟩
      exact Bool.false_ne_true (hidle.symm.trans hset)
    refine h.update hc { cpu with phase := .selected (some t) } rfl rfl ?_ ?_ ?_
    · intro u hu
      exact hqueues ▸ hu
    · intro u hu
      rcases List.mem_cons.mp hu with rfl | hu
      · exact Or.inl (currentTask_mem_held cpu)
      · obtain rfl := List.mem_singleton.mp hu
        refine Or.inr (Or.inr ⟨hfree, ?_⟩)
        rintro other hother rfl
        exact h.idle_queued other hother hmem
    · intro u
      show (setExecuting s.tasks t true u).isCurrentlyExecuting = true ↔
        u ∈ [cpu.currentTask, t] ∨ _
      rw [setExecuting_flag, List.mem_cons, List.mem_singleton]
      by_cases hu : u = t
      · simp [hu]
      · rw [if_neg hu, hflag u]
        simp [hu]

theorem OneCpu.withQueues (hperm : (allTasks queues).Perm (allTasks s.queues)) :
    OneCpu { s with queues := queues } :=
  h.frame rfl (fun _ => rfl) fun cpu hcpu hmem => h.idle_queued cpu hcpu (hperm.mem_iff.mp hmem)

theorem OneCpu.taskSwitch (hc : s.cpus[c]? = some cpu) (hrunning : cpu.phase = .running)
    {transition : Bool} (hs : taskSwitch s c cpu transition now = some t) : OneCpu t := by
  obtain ⟨queues, hprep, rfl⟩ := Option.map_eq_some_iff.mp hs
  have hperm : (allTasks queues).Perm (allTasks s.queues) := by
    cases transition with
    | false =>
      obtain rfl := Option.some.inj hprep
      exact List.Perm.refl _
    | true =>
      obtain ⟨⟨found, queues'⟩, hprep', rfl⟩ := Option.map_eq_some_iff.mp hprep
      exact mlfqPrepareForSwitchFromTask_perm hprep'
  exact (h.withQueues hperm).chooseTask hc hrunning now

theorem OneCpu.gotoTask (hc : s.cpus[c]? = some cpu) (hrunning : cpu.phase = .running)
    (hok : GotoOk s (.gotoTask c task now)) (hs : mlfqGotoTask s c cpu task now = some t) :
    OneCpu t := by
  unfold mlfqGotoTask at hs
  split at hs
  · exact Option.some.inj hs ▸ h
  · rename_i hne
    obtain ⟨⟨found, queues⟩, hprep, rfl⟩ := Option.map_eq_some_iff.mp hs
    have hperm := mlfqPrepareForSwitchFromTask_perm hprep
    have hnext : (allTasks (mlfqNextQuantumForTask queues task now).2).Perm
        (allTasks s.queues) := by
      rw [mlfqNextQuantumForTask_allTasks]
      exact hperm
    refine (h.withQueues hnext).contextSwitch hc ?_ (Or.inr (Or.inr ?_))
    · intro u hu
      rw [held_of_running hrunning, List.mem_singleton] at hu
      exact Or.inl hu
    · rcases hok with hcur | ⟨hflag, hidle⟩
      · exact absurd (hcur cpu hc) hne
      · refine ⟨?_, hidle⟩
        intro k hk
        have hset := (h.executing task).mpr ⟨k, hk⟩
        exact Bool.false_ne_true (hflag.symm.trans hset)

theorem OneCpu.spawn (hfresh : s.Fresh task)
    (hadd : mlfqAddTaskToQueue s.queues task 0 = some queues)
    (ht : t = { s with tasks := Function.update s.tasks task ⟨BlockedInfo.new, false⟩
                       queues := queues }) : OneCpu t := by
  subst ht
  have hfree : (s.tasks task).isCurrentlyExecuting = false := by
    rw [← Bool.not_eq_true, h.executing task]
    rintro ⟨k, cpu, hk, hmem⟩
    obtain ⟨hcur, -, hsel⟩ := hfresh.2 cpu (List.mem_of_getElem? hk)
    unfold CpuPrivateInfo.held at hmem
    split at hmem
    · rename_i u hphase
      rcases List.mem_cons.mp hmem with hmem | hmem
      · exact hcur hmem.symm
      · exact hsel (by rw [hphase, List.mem_singleton.mp hmem])
    · exact hcur (List.mem_singleton.mp hmem).symm
  refine h.frame rfl ?_ ?_
  · intro u
    by_cases hu : u = task
    · subst hu
      simp [hfree]
    · simp [hu]
  · intro cpu hcpu hmem
    have hadded := mlfqAddTaskToQueue_perm hadd
    rcases List.mem_cons.mp (hadded.mem_iff.mp hmem) with hidle | hold
    · exact (hfresh.2 cpu hcpu).2.1 hidle
    · exact h.idle_queued cpu hcpu hold

end

/-- **The step lemma.** -/
theorem smpNext_oneCpu (s : SmpState) (e : SmpEvent) (t : SmpState) (h : OneCpu s)
    (hok : GotoOk s e) (hs : smpNext s e = some t) : OneCpu t := by
  cases e with
  | taskSwitch c transition now =>
    obtain ⟨cpu, hrun, hs⟩ := Option.bind_eq_some_iff.mp hs
    obtain ⟨hc, hrunning⟩ := running_eq_some hrun
    exact h.taskSwitch hc hrunning hs
  | contextSwitch c =>
    simp only [smpNext, taskSwitchCont] at hs
    split at hs
    · cases hs
    · rename_i cpu hc
      split at hs
      · cases hs
      · rename_i nextTask hphase
        obtain rfl := Option.some.inj hs
        cases nextTask with
        | none =>
          refine h.contextSwitch hc ?_ (Or.inr (Or.inl rfl))
          intro u hu
          rw [CpuPrivateInfo.held, hphase, List.mem_singleton] at hu
          exact Or.inl hu
        | some next =>
          have hheld : cpu.held = [cpu.currentTask, next] := by
            rw [CpuPrivateInfo.held, hphase]
          refine h.contextSwitch hc ?_ (Or.inl (by simp [hheld]))
          intro u hu
          rw [hheld, List.mem_cons, List.mem_singleton] at hu
          exact hu
  | gotoTask c task now =>
    obtain ⟨cpu, hrun, hs⟩ := Option.bind_eq_some_iff.mp hs
    obtain ⟨hc, hrunning⟩ := running_eq_some hrun
    exact h.gotoTask hc hrunning hok hs
  | block c task blockedState now =>
    obtain ⟨cpu, hrun, hs⟩ := Option.bind_eq_some_iff.mp hs
    obtain ⟨hc, hrunning⟩ := running_eq_some hrun
    obtain ⟨info, -, hs⟩ := Option.bind_eq_some_iff.mp hs
    have hblocked : OneCpu { s with tasks := setBlockedInfo s.tasks task info } :=
      h.frame rfl (setBlockedInfo_flag s.tasks task · info) h.idle_queued
    split at hs
    · exact hblocked.taskSwitch hc hrunning hs
    · exact Option.some.inj hs ▸ hblocked
  | unblock c task reason =>
    obtain ⟨cpu, -, hs⟩ := Option.bind_eq_some_iff.mp hs
    obtain rfl := Option.some.inj hs
    exact h.frame rfl (setBlockedInfo_flag s.tasks task · _) h.idle_queued
  | spawn task =>
    simp only [smpNext] at hs
    split at hs
    · rename_i hfresh
      obtain ⟨queues, hadd, hs⟩ := Option.bind_eq_some_iff.mp hs
      exact h.spawn hfresh hadd (Option.some.inj hs).symm
    · cases hs

/-! ### Runs -/

theorem Booted.oneCpu (h : Booted s) : OneCpu s := by
  have hholds : ∀ k u, s.Holds k u ↔ (s.cpus.map (·.currentTask))[k]? = some u := by
    intro k u
    rw [List.getElem?_map, Option.map_eq_some_iff]
    constructor
    · intro hk
      obtain ⟨cpu, hk, hmem⟩ := hk
      rw [held_of_running (h.running cpu (List.mem_of_getElem? hk)), List.mem_singleton] at hmem
      exact ⟨cpu, hk, hmem.symm⟩
    · intro hk
      obtain ⟨cpu, hk, rfl⟩ := hk
      exact ⟨cpu, hk, currentTask_mem_held cpu⟩
  refine ⟨?_, ?_, ?_, ?_, h.idle_queued⟩
  · intro k k' u hk hk'
    rw [hholds] at hk hk'
    exact (List.getElem?_inj (List.getElem?_eq_some_iff.mp hk).1 h.current).mp (hk.trans hk'.symm)
  · intro u
    rw [h.executing u, List.mem_iff_getElem?]
    simp only [hholds]
  · intro k k' cpu cpu' hk hk' heq
    have hi : (s.cpus.map (·.idleTask))[k]? = some cpu.idleTask := by
      rw [List.getElem?_map, hk]
      rfl
    have hi' : (s.cpus.map (·.idleTask))[k']? = some cpu.idleTask := by
      rw [List.getElem?_map, hk', heq]
      rfl
    exact (List.getElem?_inj (List.getElem?_eq_some_iff.mp hi).1 h.idle).mp (hi.trans hi'.symm)
  · intro k k' cpu hk hheld
    rw [hholds, List.getElem?_map, Option.map_eq_some_iff] at hheld
    obtain ⟨cpu', hk', heq⟩ := hheld
    exact absurd heq.symm
      (h.idle_current cpu (List.mem_of_getElem? hk) cpu' (List.mem_of_getElem? hk'))

/-- **One CPU per task.**  In every state of a run whose interrupt handlers go only to tasks that
are not executing (or to the CPU's own current task), no two CPUs have the same current task, and
`is_currently_executing` is set exactly for the tasks that some CPU runs or has selected. -/
theorem one_cpu_per_task (start : SmpState) (hstart : Booted start) (es : List SmpEvent)
    (hes : Meets smpNext GotoOk start es) (s : SmpState) (hs : Passes smpNext start es s) :
    (∀ (k k' : ℕ) (cpu cpu' : CpuPrivateInfo), s.cpus[k]? = some cpu → s.cpus[k']? = some cpu' →
      cpu.currentTask = cpu'.currentTask → k = k') ∧
    ∀ t, (s.tasks t).isCurrentlyExecuting = true ↔
      ∃ cpu ∈ s.cpus, cpu.currentTask = t ∨ cpu.phase = .selected (some t) := by
  have hinv : OneCpu s := passes_invariant smpNext_oneCpu hstart.oneCpu hes hs
  refine ⟨?_, ?_⟩
  · intro k k' cpu cpu' hk hk' heq
    exact hinv.unique k k' cpu.currentTask ⟨cpu, hk, currentTask_mem_held cpu⟩
      ⟨cpu', hk', heq ▸ currentTask_mem_held cpu'⟩
  · intro t
    have hmem : ∀ cpu : CpuPrivateInfo, t ∈ cpu.held ↔
        cpu.currentTask = t ∨ cpu.phase = .selected (some t) := by
      intro cpu
      unfold CpuPrivateInfo.held
      split
      · rename_i u hphase
        simp [hphase, eq_comm]
      · rename_i hphase
        rw [List.mem_singleton, or_iff_left (hphase t), eq_comm]
    rw [hinv.executing t]
    constructor
    · intro hk
      obtain ⟨k, cpu, hk, hheld⟩ := hk
      exact ⟨cpu, List.mem_of_getElem? hk, (hmem cpu).mp hheld⟩
    · intro hcpu
      obtain ⟨cpu, hcpu, hor⟩ := hcpu
      obtain ⟨k, hk⟩ := List.getElem?_of_mem hcpu
      exact ⟨k, cpu, hk, (hmem cpu).mpr hor⟩

/-- Two CPUs that run their bootstrap tasks 1 and 2; their idle tasks are 11 and 12. -/
def twoCpus : SmpState where
  cpus := [⟨1, 11, .running⟩, ⟨2, 12, .running⟩]
  tasks := fun t => ⟨BlockedInfo.new, t = 1 ∨ t = 2⟩
  queues := mlfqInit

theorem twoCpus_booted : Booted twoCpus where
  running := by decide
  current := by decide
  idle := by decide
  idle_current := by decide
  idle_queued := by decide
  executing := by
    simp [twoCpus]

/-- Driver 3 is spawned and CPU 0 selects and runs it. -/
def driverRuns : List SmpEvent :=
  [.spawn 3, .taskSwitch 0 true 5#32, .contextSwitch 0]

/-- The driver blocks, CPU 0 goes idle, and the interrupt on CPU 1 finds the driver off every
CPU. -/
def interruptWhileBlocked : List SmpEvent :=
  driverRuns ++ [.block 0 3 (irqWait ||| amcAwaitMessage) 9#32, .contextSwitch 0,
    .unblock 1 3 irqWait, .gotoTask 1 3 12#32]

theorem one_cpu_per_task_interruptWhileBlocked :
    ∃ s, run smpNext twoCpus interruptWhileBlocked = some s ∧
      (s.cpus.map (·.currentTask) = [11, 3]) ∧
      (∀ (k k' : ℕ) (cpu cpu' : CpuPrivateInfo), s.cpus[k]? = some cpu → s.cpus[k']? = some cpu' →
        cpu.currentTask = cpu'.currentTask → k = k') ∧
      ∀ t, (s.tasks t).isCurrentlyExecuting = true ↔
        ∃ cpu ∈ s.cpus, cpu.currentTask = t ∨ cpu.phase = .selected (some t) := by
  have hrun : ∃ s, run smpNext twoCpus interruptWhileBlocked = some s ∧
      (s.cpus.map (·.currentTask) = [11, 3]) := by
    decide
  obtain ⟨s, hs, hcurrent⟩ := hrun
  exact ⟨s, hs, hcurrent, one_cpu_per_task twoCpus twoCpus_booted interruptWhileBlocked
    (by decide) s ⟨_, List.prefix_rfl, hs⟩⟩

/-- **The driver runs twice.**  Driver 3 runs on CPU 0 when its device interrupts CPU 1: CPU 1
goes to it as well.  Once CPU 0 switches away, the flag is clear although CPU 1 runs the
driver. -/
theorem goto_runs_driver_twice :
    Booted twoCpus ∧
    (∃ s, run smpNext twoCpus (driverRuns ++ [.unblock 1 3 irqWait, .gotoTask 1 3 7#32]) = some s ∧
      s.cpus.map (·.currentTask) = [3, 3]) ∧
    ∃ s, run smpNext twoCpus (driverRuns ++ [.unblock 1 3 irqWait, .gotoTask 1 3 7#32,
        .taskSwitch 0 true 9#32, .contextSwitch 0]) = some s ∧
      (s.cpus.map (·.currentTask))[1]? = some 3 ∧ (s.tasks 3).isCurrentlyExecuting = false := by
  refine ⟨twoCpus_booted, ⟨_, rfl, ?_⟩, _, rfl, ?_, ?_⟩
  · decide
  · decide
  · decide

end Axle.Kernel.OneCpuPerTask
