import Axle.Kernel.MlfqScheduler

/-!
# The death of a task

A task that exits informs its supervisor, sends its own address to the reaper, stores `ZOMBIE` in
its status and switches away; the reaper receives the address, checks the status and destroys the
task.  The message comes before the store, unblocking a task stores `RUNNABLE` without looking at
what is there, and the task is current on its CPU until the switch is complete.  Any number of
CPUs take part, each one action at a time.

* `deathNext` — the actions: `task_die`, `task_switch` with its context switch, blocking, the two
  halves of an unblocking send, an interrupt that unblocks a driver and goes to it, the reaper;
* `DeathOk` — the reaper receives a task's address only once the task is a zombie and off every
  CPU; a task becomes a zombie only when no sender is about to unblock it; no interrupt unblocks
  a zombie; and a CPU takes only a task that no other CPU runs or has taken;
* `death_clean` — **PROVED**: in a run of such steps the reaper's check never fails, a zombie
  stays one and is never chosen, it is destroyed at most once, its address is never lost, and it
  is not current anywhere when it is destroyed.
-/

namespace Axle.Kernel.TaskDeath

open Axle.Kernel.TaskState Axle.Kernel.MlfqScheduler Axle.Lib.StepRun

/-! ### Tasks and CPUs -/

/-- How far a task is in `task_die`. -/
inductive DiePc where
  | unborn
  | alive
  | informed
  | told
  | zombied
  deriving DecidableEq, Repr

structure Task where
  blockedInfo : BlockedInfo
  isCurrentlyExecuting : Bool
  pc : DiePc

/-- Where a CPU is in a task switch, with interrupts off from the choice on. -/
inductive CpuPhase where
  | running
  | chosen (next : TaskPtr)
  /-- The old task is marked as not executing; it still is the CPU's current one. -/
  | cleared (next : TaskPtr)
  deriving DecidableEq, Repr

structure Cpu where
  currentTask : TaskPtr
  idleTask : TaskPtr
  phase : CpuPhase
  deriving DecidableEq, Repr

inductive ReaperPc where
  | receive
  | check (zombieTask : TaskPtr)
  | destroy (zombieTask : TaskPtr)
  deriving DecidableEq, Repr

structure DeathState where
  cpus : List Cpu
  tasks : TaskPtr → Task
  queues : Mlfq
  /-- Senders that found their destination waiting and have still to unblock it. -/
  unblocks : List (TaskPtr × TaskPtr)
  reaperInbox : List TaskPtr
  reaper : ReaperPc
  /-- What happened so far; the code does not keep it. -/
  checkFailed : Bool
  chosenZombie : Bool
  destroyed : List TaskPtr
  destroyedCurrent : Bool

/-- Every CPU runs its idle task; the other tasks are still to be spawned. -/
def DeathState.init (idleTasks : List TaskPtr) : DeathState where
  cpus := idleTasks.map fun idle => ⟨idle, idle, .running⟩
  tasks := fun t => ⟨BlockedInfo.new, t ∈ idleTasks, .unborn⟩
  queues := mlfqInit
  unblocks := []
  reaperInbox := []
  reaper := .receive
  checkFailed := false
  chosenZombie := false
  destroyed := []
  destroyedCurrent := false

/-- An action, by the CPU it happens on. -/
inductive DeathEvent where
  | spawn (task : TaskPtr)
  /-- The current task's next action in `task_die`. -/
  | die (cpu : ℕ)
  | block (cpu : ℕ) (reason : TaskStatus)
  /-- The current task has sent to `dest` and tests its status. -/
  | test (cpu : ℕ) (dest : TaskPtr)
  | unblock (cpu : ℕ)
  /-- An interrupt handler unblocks a task. -/
  | irqUnblock (cpu : ℕ) (task : TaskPtr) (reason : TaskStatus)
  /-- An interrupt handler calls `mlfq_goto_task`. -/
  | irqGoto (cpu : ℕ) (task : TaskPtr) (now : BitVec 32)
  /-- `task_switch` up to the choice; a dying task leaves its queue as it is. -/
  | switch (cpu : ℕ) (transition : Bool) (now : BitVec 32)
  | clear (cpu : ℕ)
  | load (cpu : ℕ)
  /-- The reaper, current on this CPU, takes its next action. -/
  | reaper (cpu : ℕ)

def DeathState.setTask (s : DeathState) (t : TaskPtr) (task : Task) : DeathState :=
  { s with tasks := Function.update s.tasks t task }

def DeathState.setStatus (s : DeathState) (t : TaskPtr) (info : BlockedInfo) : DeathState :=
  s.setTask t { s.tasks t with blockedInfo := info }

def DeathState.setExecuting (s : DeathState) (t : TaskPtr) (executing : Bool) : DeathState :=
  s.setTask t { s.tasks t with isCurrentlyExecuting := executing }

def DeathState.setCpu (s : DeathState) (c : ℕ) (cpu : Cpu) : DeathState :=
  { s with cpus := s.cpus.set c cpu }

/-- The CPU, when it runs its current task. -/
def DeathState.running (s : DeathState) (c : ℕ) : Option Cpu :=
  match s.cpus[c]? with
  | some cpu => if cpu.phase = .running then some cpu else none
  | none => none

def DeathState.view (s : DeathState) (t : TaskPtr) : TaskView :=
  ⟨(s.tasks t).blockedInfo.status, (s.tasks t).isCurrentlyExecuting⟩

/-! ### The actions -/

/-- The next action of `task_die` for the task current on `cpu`. -/
def taskDie (s : DeathState) (t : TaskPtr) : Option DeathState :=
  match (s.tasks t).pc with
  | .unborn | .zombied => none
  | .alive => some (s.setTask t { s.tasks t with pc := .informed })
  | .informed =>
    some { s.setTask t { s.tasks t with pc := .told } with reaperInbox := s.reaperInbox ++ [t] }
  | .told => some (s.setTask t { s.tasks t with
      pc := .zombied, blockedInfo := { (s.tasks t).blockedInfo with status := zombie } })

/-- The choice of `_task_switch_cont`, after `mlfq_prepare_for_switch_from_task`. -/
def selectTask (s : DeathState) (cpu : Cpu) (transition : Bool) (now : BitVec 32) :
    Option (Option TaskPtr × Mlfq) :=
  let prepared := if transition then
      (mlfqPrepareForSwitchFromTask s.queues cpu.currentTask now).map (·.2)
    else some s.queues
  prepared.map fun queues =>
    let (chosen, queues) := mlfqChooseTask queues s.view now
    (chosen.map (·.1), queues)

/-- The CPU goes on to switch to `t`. -/
def DeathState.take (s : DeathState) (c : ℕ) (cpu : Cpu) (t : TaskPtr) : DeathState :=
  { s.setCpu c { cpu with phase := .chosen t } with
    chosenZombie := s.chosenZombie || (s.tasks t).pc = .zombied }

/-- The reaper's loop. -/
def reaperStep (s : DeathState) : Option DeathState :=
  match s.reaper with
  | .receive =>
    match s.reaperInbox with
    | [] => none
    | t :: inbox => some { s with reaperInbox := inbox, reaper := .check t }
  | .check t =>
    -- the assertion "Status was not zombie"
    if (s.tasks t).blockedInfo.status = zombie then some { s with reaper := .destroy t }
    else some { s with checkFailed := true }
  | .destroy t => do
    let queues ← mlfqDeleteTask s.queues t
    return { s with
      queues := queues
      reaper := .receive
      destroyed := s.destroyed ++ [t]
      destroyedCurrent := s.destroyedCurrent || s.cpus.any fun cpu => cpu.currentTask = t }

variable (reaperTask : TaskPtr)

def deathNext (s : DeathState) : DeathEvent → Option DeathState
  | .spawn t =>
    if (s.tasks t).pc = .unborn ∧ s.cpus.all (fun cpu => cpu.idleTask ≠ t) then do
      let queues ← mlfqAddTaskToQueue s.queues t 0
      return { s.setTask t ⟨BlockedInfo.new, false, .alive⟩ with queues := queues }
    else none
  | .die c => do
    let cpu ← s.running c
    taskDie s cpu.currentTask
  | .block c reason => do
    let cpu ← s.running c
    -- a task in `task_die` blocks no more
    if (s.tasks cpu.currentTask).pc = .alive then
      let info ← taskingBlockTask reason (s.tasks cpu.currentTask).blockedInfo
      return s.setStatus cpu.currentTask info
    else none
  | .test c dest => do
    let cpu ← s.running c
    if hasFlag (s.tasks dest).blockedInfo.status amcAwaitMessage then
      return { s with unblocks := s.unblocks ++ [(cpu.currentTask, dest)] }
    else return s
  | .unblock c => do
    let cpu ← s.running c
    let pending ← s.unblocks.find? fun u => u.1 = cpu.currentTask
    return { s.setStatus pending.2 (taskingUnblockTaskWithReason cpu.currentTask pending.2
      amcAwaitMessage (s.tasks pending.2).blockedInfo) with
        unblocks := s.unblocks.erase pending }
  | .irqUnblock c t reason => do
    let cpu ← s.running c
    return s.setStatus t (taskingUnblockTaskWithReason cpu.currentTask t reason
      (s.tasks t).blockedInfo)
  | .irqGoto c t now => do
    let cpu ← s.running c
    if cpu.currentTask = t then return s
    else
      let (_, queues) ← mlfqPrepareForSwitchFromTask s.queues cpu.currentTask now
      let queues := (mlfqNextQuantumForTask queues t now).2
      return { s.take c cpu t with queues := queues }
  | .switch c transition now => do
    let cpu ← s.running c
    match ← selectTask s cpu transition now with
    | (some t, queues) =>
      return { (s.setExecuting t true).take c cpu t with queues := queues }
    | (none, queues) =>
      return { s.setCpu c { cpu with phase := .chosen cpu.idleTask } with queues := queues }
  | .clear c =>
    match s.cpus[c]? with
    | some cpu =>
      match cpu.phase with
      | .chosen next =>
        some ((s.setExecuting cpu.currentTask false).setCpu c { cpu with phase := .cleared next })
      | _ => none
    | none => none
  | .load c =>
    match s.cpus[c]? with
    | some cpu =>
      match cpu.phase with
      | .cleared next => some ((s.setExecuting next true).setCpu c
          { cpu with currentTask := next, phase := .running })
      | _ => none
    | none => none
  | .reaper c => do
    let cpu ← s.running c
    if cpu.currentTask = reaperTask ∧ s.checkFailed = false then reaperStep s else none

/-! ### Steps that keep the parties apart -/

def Cpu.next (cpu : Cpu) : Option TaskPtr :=
  match cpu.phase with
  | .running => none
  | .chosen next | .cleared next => some next

/-- The CPU is not past the point where it leaves its current task. -/
def Cpu.onCurrent (cpu : Cpu) : Bool :=
  match cpu.phase with
  | .running | .chosen _ => true
  | .cleared _ => false

/-- How often the CPU runs the task or has taken it. -/
def Cpu.holds (t : TaskPtr) (cpu : Cpu) : ℕ :=
  (if cpu.currentTask = t ∧ cpu.onCurrent = true then 1 else 0)
    + (if cpu.next = some t then 1 else 0)

def DeathState.holders (s : DeathState) (t : TaskPtr) : ℕ := (s.cpus.map (Cpu.holds t)).sum

/-- The task is neither current on a CPU nor about to be. -/
def DeathState.away (s : DeathState) (t : TaskPtr) : Bool :=
  s.cpus.all fun cpu => cpu.currentTask ≠ t && cpu.next ≠ some t

def keptApart (s : DeathState) : DeathEvent → Bool
  | .die c =>
    (s.running c).all fun cpu => (s.tasks cpu.currentTask).pc ≠ .told
      || s.unblocks.all fun u => u.2 ≠ cpu.currentTask
  | .irqUnblock _ t _ => (s.tasks t).blockedInfo.status ≠ zombie
  | .irqGoto c t _ =>
    (s.running c).all fun cpu => cpu.currentTask = t
      || ((s.tasks t).blockedInfo.status ≠ zombie && s.holders t = 0)
  | .switch c transition now =>
    (s.running c).all fun cpu => (selectTask s cpu transition now).all fun r =>
      r.1.all fun t => s.holders t = 0
  | .reaper _ =>
    match s.reaper, s.reaperInbox with
    | .receive, t :: _ => (s.tasks t).blockedInfo.status = zombie && s.away t
    | _, _ => true
  | _ => true

def DeathOk (s : DeathState) (e : DeathEvent) : Prop := keptApart s e = true

instance (s : DeathState) (e : DeathEvent) : Decidable (DeathOk s e) :=
  inferInstanceAs (Decidable (keptApart s e = true))

/-! ### The invariant -/

def ReaperPc.has (t : TaskPtr) : ReaperPc → ℕ
  | .receive => 0
  | .check t' | .destroy t' => if t' = t then 1 else 0

/-- How often the task's address is in the reaper's inbox or hands, or was destroyed. -/
def DeathState.accounted (s : DeathState) (t : TaskPtr) : ℕ :=
  s.reaperInbox.count t + s.reaper.has t + s.destroyed.count t

def DiePc.hasTold : DiePc → Bool
  | .told | .zombied => true
  | _ => false

structure DeathInv (s : DeathState) : Prop where
  zombie_iff : ∀ t, (s.tasks t).blockedInfo.status = zombie ↔ (s.tasks t).pc = .zombied
  unblocks : ∀ u ∈ s.unblocks, (s.tasks u.2).pc ≠ .zombied
  accounted : ∀ t, s.accounted t = if (s.tasks t).pc.hasTold then 1 else 0
  reaper : ∀ t, s.reaper = .check t ∨ s.reaper = .destroy t →
    (s.tasks t).pc = .zombied ∧ s.away t = true
  holders : ∀ t, t ∉ s.cpus.map (·.idleTask) → s.holders t ≤ 1
  idle : ∀ t ∈ s.cpus.map (·.idleTask), (s.tasks t).pc = .unborn
  checkFailed : s.checkFailed = false
  chosenZombie : s.chosenZombie = false
  destroyedCurrent : s.destroyedCurrent = false

theorem sum_map_set {α : Type} {f : α → ℕ} : ∀ {l : List α} {i : ℕ} {a : α} (b : α),
    l[i]? = some a → ((l.set i b).map f).sum + f a = (l.map f).sum + f b := by
  intro l
  induction l with
  | nil =>
    intro i a b h
    cases h
  | cons x xs ih =>
    intro i a b h
    cases i with
    | zero =>
      obtain rfl : x = a := by simpa using h
      simp only [List.set_cons_zero, List.map_cons, List.sum_cons]
      omega
    | succ i =>
      have := ih b (show xs[i]? = some a by simpa using h)
      simp only [List.set_cons_succ, List.map_cons, List.sum_cons]
      omega

theorem DeathInv.init (idleTasks : List TaskPtr) : DeathInv (DeathState.init idleTasks) := by
  refine ⟨?_, ?_, ?_, ?_, ?_, fun _ _ => rfl, rfl, rfl, rfl⟩
  · simp [DeathState.init, BlockedInfo.new, runnable, zombie]
  · intro u hu
    cases hu
  · simp [DeathState.init, DeathState.accounted, ReaperPc.has, DiePc.hasTold]
  · rintro t (h | h) <;> cases h
  · intro t ht
    have hidle : t ∉ idleTasks := by simpa [DeathState.init] using ht
    have hzero : ∀ n ∈ (DeathState.init idleTasks).cpus.map (Cpu.holds t), n = 0 := by
      intro n hn
      obtain ⟨cpu, hcpu, rfl⟩ := List.mem_map.mp hn
      obtain ⟨idle, hin, rfl⟩ := List.mem_map.mp hcpu
      have hne : idle ≠ t := fun he => hidle (he ▸ hin)
      simp [Cpu.holds, Cpu.next, hne]
    rw [DeathState.holders, List.sum_eq_zero hzero]
    exact Nat.zero_le 1

/-! #### The tasks' side -/

variable {s s' : DeathState} {info : BlockedInfo} {t : TaskPtr} {c : ℕ} {cpu : Cpu}

section

variable (h : DeathInv s)

include h

/-- A step that leaves every task's status and place as they are. -/
theorem DeathInv.sameTasks (tasks : TaskPtr → Task)
    (hstatus : ∀ t, (tasks t).blockedInfo.status = (s.tasks t).blockedInfo.status)
    (hpc : ∀ t, (tasks t).pc = (s.tasks t).pc) : DeathInv { s with tasks := tasks } := by
  refine ⟨?_, ?_, ?_, ?_, h.holders, fun t ht => (hpc t).trans (h.idle t ht), h.checkFailed,
    h.chosenZombie, h.destroyedCurrent⟩
  · intro t
    show (tasks t).blockedInfo.status = zombie ↔ (tasks t).pc = .zombied
    rw [hstatus t, hpc t]
    exact h.zombie_iff t
  · intro u hu
    show (tasks u.2).pc ≠ .zombied
    rw [hpc u.2]
    exact h.unblocks u hu
  · intro t
    show s.accounted t = if (tasks t).pc.hasTold then 1 else 0
    rw [hpc t]
    exact h.accounted t
  · intro t ht
    show (tasks t).pc = .zombied ∧ s.away t = true
    rw [hpc t]
    exact h.reaper t ht

theorem DeathInv.setExecuting (t : TaskPtr) (executing : Bool) :
    DeathInv (s.setExecuting t executing) := by
  apply h.sameTasks
  · intro x
    by_cases hx : x = t
    · subst hx
      simp
    · simp [hx]
  · intro x
    by_cases hx : x = t
    · subst hx
      simp
    · simp [hx]

/-- A store to the status that neither makes nor unmakes a zombie. -/
theorem DeathInv.setStatus (hinfo : info.status = zombie ↔ (s.tasks t).pc = .zombied) :
    DeathInv (s.setStatus t info) := by
  have hpc : ∀ x, ((s.setStatus t info).tasks x).pc = (s.tasks x).pc := by
    intro x
    by_cases hx : x = t
    · subst hx
      simp [DeathState.setStatus, DeathState.setTask]
    · simp [DeathState.setStatus, DeathState.setTask, hx]
  refine ⟨?_, ?_, ?_, ?_, h.holders, fun x hx => (hpc x).trans (h.idle x hx), h.checkFailed,
    h.chosenZombie, h.destroyedCurrent⟩
  · intro x
    by_cases hx : x = t
    · subst hx
      simpa [DeathState.setStatus, DeathState.setTask] using hinfo
    · simpa [DeathState.setStatus, DeathState.setTask, hx] using h.zombie_iff x
  · intro u hu
    rw [hpc u.2]
    exact h.unblocks u hu
  · intro x
    rw [hpc x]
    exact h.accounted x
  · intro x hx
    rw [hpc x]
    exact h.reaper x hx

theorem DeathInv.unblockTask (current : TaskPtr) (reason : TaskStatus)
    (ht : (s.tasks t).pc ≠ .zombied) :
    DeathInv (s.setStatus t (taskingUnblockTaskWithReason current t reason
      (s.tasks t).blockedInfo)) := by
  refine h.setStatus ?_
  by_cases hc : t = current
  · rw [taskingUnblockTaskWithReason, if_pos hc]
    exact h.zombie_iff t
  · rw [taskingUnblock_of_ne hc]
    exact iff_of_false (by decide) ht

theorem DeathInv.setPc {task : Task}
    (hstatus : task.blockedInfo.status = zombie ↔ task.pc = .zombied)
    (hidle : t ∉ s.cpus.map (·.idleTask)) (hlive : (s.tasks t).pc ≠ .zombied)
    (htold : task.pc.hasTold = (s.tasks t).pc.hasTold)
    (hunblocks : task.pc = .zombied → ∀ u ∈ s.unblocks, u.2 ≠ t) : DeathInv (s.setTask t task) := by
  have hself : (s.setTask t task).tasks t = task := by simp [DeathState.setTask]
  have hother : ∀ x, x ≠ t → (s.setTask t task).tasks x = s.tasks x := by
    intro x hx
    simp [DeathState.setTask, hx]
  refine ⟨?_, ?_, ?_, ?_, h.holders, ?_, h.checkFailed, h.chosenZombie, h.destroyedCurrent⟩
  · intro x
    by_cases hx : x = t
    · rw [hx, hself]
      exact hstatus
    · rw [hother x hx]
      exact h.zombie_iff x
  · intro u hu hz
    by_cases hx : u.2 = t
    · rw [hx, hself] at hz
      exact hunblocks hz u hu hx
    · rw [hother _ hx] at hz
      exact h.unblocks u hu hz
  · intro x
    show s.accounted x = _
    by_cases hx : x = t
    · rw [hx, hself, htold]
      exact h.accounted t
    · rw [hother x hx]
      exact h.accounted x
  · intro x hx
    obtain ⟨hz, haway⟩ := h.reaper x hx
    have hne : x ≠ t := fun he => hlive (he ▸ hz)
    rw [hother x hne]
    exact ⟨hz, haway⟩
  · intro x hx
    have hne : x ≠ t := fun he => hidle (he ▸ hx)
    rw [hother x hne]
    exact h.idle x hx

end

/-! #### The CPUs' side -/

theorem DeathInv.sameQueues (h : DeathInv s) (queues : Mlfq) :
    DeathInv { s with queues := queues } :=
  ⟨h.zombie_iff, h.unblocks, h.accounted, h.reaper, h.holders, h.idle, h.checkFailed,
    h.chosenZombie, h.destroyedCurrent⟩

theorem away_iff : s.away t = true ↔ ∀ cpu ∈ s.cpus, cpu.currentTask ≠ t ∧ cpu.next ≠ some t := by
  simp [DeathState.away]

/-- A CPU moves on: no zombie that was away comes back, and no task is held twice. -/
theorem DeathInv.setCpu (h : DeathInv s) {cpu cpu' : Cpu} (hc : s.cpus[c]? = some cpu)
    (hidle : cpu'.idleTask = cpu.idleTask)
    (haway : ∀ t, (s.tasks t).pc = .zombied → s.away t = true →
      cpu'.currentTask ≠ t ∧ cpu'.next ≠ some t) (hholds : ∀ t, t ∉ s.cpus.map (·.idleTask) →
      cpu'.holds t ≤ cpu.holds t ∨ s.holders t = 0 ∧ cpu'.holds t ≤ cpu.holds t + 1) :
    DeathInv (s.setCpu c cpu') := by
  have hsame : (s.cpus.set c cpu').map (·.idleTask) = s.cpus.map (·.idleTask) :=
    map_set_of_eq hc hidle
  refine ⟨h.zombie_iff, h.unblocks, h.accounted, ?_, ?_, fun t ht => h.idle t (hsame ▸ ht),
    h.checkFailed, h.chosenZombie, h.destroyedCurrent⟩
  · intro t ht
    obtain ⟨hz, haw⟩ := h.reaper t ht
    refine ⟨hz, away_iff.mpr ?_⟩
    intro x hx
    rcases List.mem_or_eq_of_mem_set hx with hold | rfl
    · exact away_iff.mp haw x hold
    · exact haway t hz haw
  · intro t ht
    have ht' : t ∉ s.cpus.map (·.idleTask) := hsame ▸ ht
    have hsum : (s.setCpu c cpu').holders t + cpu.holds t = s.holders t + cpu'.holds t :=
      sum_map_set cpu' hc
    have hone := h.holders t ht'
    rcases hholds t ht' with hle | ⟨hzero, hle⟩
    · omega
    · omega

theorem running_eq_some (h : s.running c = some cpu) :
    s.cpus[c]? = some cpu ∧ cpu.phase = .running := by
  unfold DeathState.running at h
  split at h
  · rename_i cpu' hcpu
    split at h
    · rename_i hrun
      obtain rfl := Option.some.inj h
      exact ⟨hcpu, hrun⟩
    · cases h
  · cases h

theorem DeathInv.chooseNext (h : DeathInv s) (hc : s.running c = some cpu)
    (ht : (s.tasks t).pc ≠ .zombied) (hfree : t = cpu.idleTask ∨ s.holders t = 0) :
    DeathInv (s.setCpu c { cpu with phase := .chosen t }) := by
  obtain ⟨hcpu, hrun⟩ := running_eq_some hc
  refine h.setCpu hcpu rfl ?_ ?_
  · intro x hz haw
    refine ⟨(away_iff.mp haw cpu (List.mem_of_getElem? hcpu)).1, ?_⟩
    rintro hx
    obtain rfl : t = x := by simpa [Cpu.next] using hx
    exact ht hz
  · intro x hx
    have hsame : Cpu.holds x { cpu with phase := .chosen t }
        = cpu.holds x + (if t = x then 1 else 0) := by
      simp [Cpu.holds, Cpu.next, Cpu.onCurrent, hrun]
    by_cases htx : t = x
    · rcases hfree with hidle | hzero
      · exact absurd (htx ▸ hidle ▸ List.mem_map_of_mem (List.mem_of_getElem? hcpu)) hx
      · refine Or.inr ⟨htx ▸ hzero, ?_⟩
        rw [hsame, if_pos htx]
    · refine Or.inl ?_
      rw [hsame, if_neg htx]
      exact le_rfl

theorem DeathInv.take (h : DeathInv s) (hc : s.running c = some cpu)
    (ht : (s.tasks t).pc ≠ .zombied) (hfree : s.holders t = 0) : DeathInv (s.take c cpu t) := by
  have hnext := h.chooseNext hc ht (Or.inr hfree)
  refine ⟨hnext.zombie_iff, hnext.unblocks, hnext.accounted, hnext.reaper, hnext.holders,
    hnext.idle, hnext.checkFailed, ?_, hnext.destroyedCurrent⟩
  show (s.chosenZombie || decide ((s.tasks t).pc = .zombied)) = false
  rw [h.chosenZombie]
  simpa using ht

theorem DeathInv.clearCpu (h : DeathInv s) (hcpu : s.cpus[c]? = some cpu) {next : TaskPtr}
    (hphase : cpu.phase = .chosen next) :
    DeathInv (s.setCpu c { cpu with phase := .cleared next }) := by
  have hnext : Cpu.next { cpu with phase := .cleared next } = cpu.next := by
    simp [Cpu.next, hphase]
  refine h.setCpu hcpu rfl ?_ ?_
  · intro t _ haw
    rw [hnext]
    exact away_iff.mp haw cpu (List.mem_of_getElem? hcpu)
  · intro t _
    rw [Cpu.holds, Cpu.holds, hnext]
    simp [Cpu.onCurrent]

theorem DeathInv.loadCpu (h : DeathInv s) (hcpu : s.cpus[c]? = some cpu) {next : TaskPtr}
    (hphase : cpu.phase = .cleared next) :
    DeathInv (s.setCpu c { cpu with currentTask := next, phase := .running }) := by
  refine h.setCpu hcpu rfl ?_ ?_
  · intro t _ haw
    have hnext := (away_iff.mp haw cpu (List.mem_of_getElem? hcpu)).2
    rw [show cpu.next = some next by simp [Cpu.next, hphase]] at hnext
    exact ⟨by simpa using hnext, by simp [Cpu.next]⟩
  · intro t _
    simp [Cpu.holds, Cpu.next, Cpu.onCurrent, hphase]

/-! #### `task_die` and the reaper -/

section

variable (h : DeathInv s)

include h

theorem DeathInv.not_idle (ht : (s.tasks t).pc ≠ .unborn) : t ∉ s.cpus.map (·.idleTask) :=
  fun hidle => ht (h.idle t hidle)

theorem DeathInv.tell (ht : (s.tasks t).pc = .informed) :
    DeathInv { s.setTask t { s.tasks t with pc := .told } with
      reaperInbox := s.reaperInbox ++ [t] } := by
  have hself : (s.setTask t { s.tasks t with pc := .told }).tasks t
      = { s.tasks t with pc := .told } := by simp [DeathState.setTask]
  have hother : ∀ x, x ≠ t →
      (s.setTask t { s.tasks t with pc := .told }).tasks x = s.tasks x := by
    intro x hx
    simp [DeathState.setTask, hx]
  have hstatus : (s.tasks t).blockedInfo.status ≠ zombie := by
    rw [Ne, h.zombie_iff t, ht]
    decide
  refine ⟨?_, ?_, ?_, ?_, h.holders, ?_, h.checkFailed, h.chosenZombie, h.destroyedCurrent⟩
  · intro x
    show ((s.setTask t { s.tasks t with pc := .told }).tasks x).blockedInfo.status = zombie
      ↔ ((s.setTask t { s.tasks t with pc := .told }).tasks x).pc = .zombied
    by_cases hx : x = t
    · rw [hx, hself]
      exact iff_of_false hstatus (by simp)
    · rw [hother x hx]
      exact h.zombie_iff x
  · intro u hu
    show ((s.setTask t { s.tasks t with pc := .told }).tasks u.2).pc ≠ .zombied
    by_cases hx : u.2 = t
    · rw [hx, hself]
      simp
    · rw [hother _ hx]
      exact h.unblocks u hu
  · intro x
    show (s.reaperInbox ++ [t]).count x + s.reaper.has x + s.destroyed.count x
      = if ((s.setTask t { s.tasks t with pc := .told }).tasks x).pc.hasTold then 1 else 0
    have hacc := h.accounted x
    rw [DeathState.accounted] at hacc
    rw [List.count_append]
    by_cases hx : x = t
    · subst hx
      rw [ht] at hacc
      rw [hself]
      simp [DiePc.hasTold] at hacc ⊢
      omega
    · rw [hother x hx, ← hacc, List.count_singleton]
      simp [Ne.symm hx]
  · intro x hx
    obtain ⟨hz, haway⟩ := h.reaper x hx
    have hne : x ≠ t := by
      rintro rfl
      rw [ht] at hz
      cases hz
    show ((s.setTask t { s.tasks t with pc := .told }).tasks x).pc = .zombied ∧ s.away x = true
    rw [hother x hne]
    exact ⟨hz, haway⟩
  · intro x hx
    have hne : x ≠ t := by
      rintro rfl
      exact h.not_idle (by rw [ht]; decide) hx
    show ((s.setTask t { s.tasks t with pc := .told }).tasks x).pc = .unborn
    rw [hother x hne]
    exact h.idle x hx

theorem taskDie_inv (hok : (s.tasks t).pc = .told → ∀ u ∈ s.unblocks, u.2 ≠ t)
    (hs : taskDie s t = some s') : DeathInv s' := by
  unfold taskDie at hs
  split at hs
  · cases hs
  · cases hs
  · rename_i hpc
    have hstatus : (s.tasks t).blockedInfo.status ≠ zombie := by
      rw [Ne, h.zombie_iff t, hpc]
      decide
    refine Option.some.inj hs ▸ h.setPc ?_ (h.not_idle (by rw [hpc]; decide))
      (by rw [hpc]; decide) (by rw [hpc]; rfl) (fun hz => by cases hz)
    exact iff_of_false hstatus (by simp)
  · rename_i hpc
    exact Option.some.inj hs ▸ h.tell hpc
  · rename_i hpc
    exact Option.some.inj hs ▸ h.setPc (iff_of_true rfl rfl) (h.not_idle (by rw [hpc]; decide))
      (by rw [hpc]; decide) (by rw [hpc]; rfl) (fun _ => hok hpc)

theorem DeathInv.moveReaper (inbox : List TaskPtr) (reaper : ReaperPc) (destroyed : List TaskPtr)
    (hacc : ∀ t, inbox.count t + reaper.has t + destroyed.count t = s.accounted t)
    (hreaper : ∀ t, reaper = .check t ∨ reaper = .destroy t →
      (s.tasks t).pc = .zombied ∧ s.away t = true) :
    DeathInv { s with reaperInbox := inbox, reaper := reaper, destroyed := destroyed } := by
  refine ⟨h.zombie_iff, h.unblocks, ?_, hreaper, h.holders, h.idle, h.checkFailed,
    h.chosenZombie, h.destroyedCurrent⟩
  intro t
  rw [← h.accounted t]
  exact hacc t

theorem reaperStep_inv (hok : ∀ t inbox, s.reaper = .receive → s.reaperInbox = t :: inbox →
      (s.tasks t).blockedInfo.status = zombie ∧ s.away t = true) (hs : reaperStep s = some s') :
    DeathInv s' := by
  unfold reaperStep at hs
  split at hs
  · rename_i hreceive
    split at hs
    · cases hs
    · rename_i t inbox hinbox
      obtain ⟨hz, haway⟩ := hok t inbox hreceive hinbox
      refine Option.some.inj hs ▸ h.moveReaper inbox (.check t) s.destroyed ?_ ?_
      · intro x
        rw [DeathState.accounted, hinbox, hreceive, List.count_cons, ReaperPc.has, ReaperPc.has]
        simp
      · intro x hx
        obtain rfl : t = x := by simpa using hx
        exact ⟨(h.zombie_iff t).mp hz, haway⟩
  · rename_i t hcheck
    have hz := h.reaper t (Or.inl hcheck)
    rw [if_pos ((h.zombie_iff t).mpr hz.1)] at hs
    refine Option.some.inj hs ▸ h.moveReaper s.reaperInbox (.destroy t) s.destroyed ?_ ?_
    · intro x
      rw [DeathState.accounted, hcheck]
      rfl
    · intro x hx
      obtain rfl : t = x := by simpa using hx
      exact hz
  · rename_i t hdestroy
    obtain ⟨hz, haway⟩ := h.reaper t (Or.inr hdestroy)
    obtain ⟨queues, -, hs⟩ := Option.bind_eq_some_iff.mp hs
    have hmoved := h.moveReaper s.reaperInbox .receive (s.destroyed ++ [t]) (by
      intro x
      rw [DeathState.accounted, hdestroy, List.count_append, List.count_singleton]
      simp only [ReaperPc.has]
      by_cases hx : t = x
      · simp [hx]
        omega
      · simp [hx]) (by simp)
    have hnot : (s.cpus.any fun cpu => cpu.currentTask = t) = false := by
      rw [List.any_eq_false]
      intro cpu hcpu
      simpa using (away_iff.mp haway cpu hcpu).1
    refine Option.some.inj hs ▸ ⟨hmoved.zombie_iff, hmoved.unblocks, hmoved.accounted,
      hmoved.reaper, hmoved.holders, hmoved.idle, hmoved.checkFailed, hmoved.chosenZombie, ?_⟩
    show (s.destroyedCurrent || s.cpus.any fun cpu => decide (cpu.currentTask = t)) = false
    rw [h.destroyedCurrent, hnot]
    rfl

end

/-! ### Every run -/

theorem taskingBlockTask_status {reason : TaskStatus} {info info' : BlockedInfo}
    (h : taskingBlockTask reason info = some info') : info'.status ≠ zombie := by
  rw [taskingBlockTask] at h
  split at h
  · cases h
  · rename_i hne
    obtain rfl := Option.some.inj h
    exact fun hz => hne (Or.inr hz)

theorem DeathInv.withUnblocks (h : DeathInv s) {unblocks : List (TaskPtr × TaskPtr)}
    (hunblocks : ∀ u ∈ unblocks, (s.tasks u.2).pc ≠ .zombied) :
    DeathInv { s with unblocks := unblocks } :=
  ⟨h.zombie_iff, hunblocks, h.accounted, h.reaper, h.holders, h.idle, h.checkFailed,
    h.chosenZombie, h.destroyedCurrent⟩

theorem selectTask_runnable {transition : Bool} {now : BitVec 32} {queues : Mlfq}
    (h : selectTask s cpu transition now = some (some t, queues)) :
    (s.tasks t).blockedInfo.status = runnable := by
  obtain ⟨prepared, -, hchosen⟩ := Option.map_eq_some_iff.mp h
  obtain ⟨hmap, -⟩ := Prod.mk.inj hchosen
  obtain ⟨⟨t', quantum⟩, hchoose, rfl⟩ := Option.map_eq_some_iff.mp hmap
  exact (mlfqChooseTask_chosen hchoose).1.1

theorem DeathInv.not_zombied (h : DeathInv s) (ht : (s.tasks t).blockedInfo.status ≠ zombie) :
    (s.tasks t).pc ≠ .zombied :=
  fun hz => ht ((h.zombie_iff t).mpr hz)

/-- **The step lemma.** -/
theorem deathNext_inv (s : DeathState) (e : DeathEvent) (s' : DeathState) (h : DeathInv s)
    (hok : DeathOk s e) (hs : deathNext reaperTask s e = some s') : DeathInv s' := by
  rw [DeathOk] at hok
  cases e with
  | spawn t =>
    rw [deathNext] at hs
    split at hs
    · rename_i hnew
      obtain ⟨queues, -, hs⟩ := Option.bind_eq_some_iff.mp hs
      have hidle : t ∉ s.cpus.map (·.idleTask) := by
        intro hin
        obtain ⟨cpu, hcpu, he⟩ := List.mem_map.mp hin
        have := List.all_eq_true.mp hnew.2 cpu hcpu
        simp [he] at this
      have hborn : DeathInv (s.setTask t ⟨BlockedInfo.new, false, .alive⟩) :=
        h.setPc (iff_of_false (by decide) (by decide)) hidle (by rw [hnew.1]; decide)
          (by rw [hnew.1]; rfl) (fun hz => by cases hz)
      exact Option.some.inj hs ▸ hborn.sameQueues queues
    · cases hs
  | die c =>
    obtain ⟨cpu, hcpu, hs⟩ := Option.bind_eq_some_iff.mp hs
    rw [keptApart, hcpu] at hok
    refine taskDie_inv h ?_ hs
    intro htold u hu
    have hall : s.unblocks.all (fun u => u.2 ≠ cpu.currentTask) = true := by
      simpa [htold] using hok
    simpa using List.all_eq_true.mp hall u hu
  | block c reason =>
    obtain ⟨cpu, hcpu, hs⟩ := Option.bind_eq_some_iff.mp hs
    split at hs
    · rename_i halive
      obtain ⟨info, hinfo, hs⟩ := Option.bind_eq_some_iff.mp hs
      refine Option.some.inj hs ▸ h.setStatus ?_
      exact iff_of_false (taskingBlockTask_status hinfo) (by rw [halive]; decide)
    · cases hs
  | test c dest =>
    obtain ⟨cpu, hcpu, hs⟩ := Option.bind_eq_some_iff.mp hs
    split at hs
    · rename_i hawait
      refine Option.some.inj hs ▸ h.withUnblocks ?_
      intro u hu
      rcases List.mem_append.mp hu with hold | hnew
      · exact h.unblocks u hold
      · rw [List.mem_singleton.mp hnew]
        refine h.not_zombied ?_
        intro hz
        rw [hz] at hawait
        exact absurd hawait (by decide)
    · exact Option.some.inj hs ▸ h
  | unblock c =>
    obtain ⟨cpu, hcpu, hs⟩ := Option.bind_eq_some_iff.mp hs
    obtain ⟨pending, hpending, hs⟩ := Option.bind_eq_some_iff.mp hs
    have hlive := h.unblocks pending (List.mem_of_find?_eq_some hpending)
    have hstored := h.unblockTask cpu.currentTask amcAwaitMessage hlive
    refine Option.some.inj hs ▸ hstored.withUnblocks ?_
    intro u hu
    exact hstored.unblocks u (List.mem_of_mem_erase hu)
  | irqUnblock c t reason =>
    obtain ⟨cpu, hcpu, hs⟩ := Option.bind_eq_some_iff.mp hs
    exact Option.some.inj hs ▸ h.unblockTask _ _ (h.not_zombied (by simpa [keptApart] using hok))
  | irqGoto c t now =>
    obtain ⟨cpu, hcpu, hs⟩ := Option.bind_eq_some_iff.mp hs
    rw [keptApart, hcpu] at hok
    split at hs
    · exact Option.some.inj hs ▸ h
    · rename_i hne
      obtain ⟨⟨found, queues⟩, -, hs⟩ := Option.bind_eq_some_iff.mp hs
      have hfree : (s.tasks t).blockedInfo.status ≠ zombie ∧ s.holders t = 0 := by
        simpa [hne] using hok
      exact Option.some.inj hs ▸ (h.take hcpu (h.not_zombied hfree.1) hfree.2).sameQueues _
  | switch c transition now =>
    obtain ⟨cpu, hcpu, hs⟩ := Option.bind_eq_some_iff.mp hs
    obtain ⟨⟨chosen, queues⟩, hselect, hs⟩ := Option.bind_eq_some_iff.mp hs
    rw [keptApart, hcpu, Option.all_some, hselect, Option.all_some] at hok
    cases chosen with
    | some t =>
      have hrun := selectTask_runnable hselect
      have hlive : (s.tasks t).pc ≠ .zombied := h.not_zombied (by rw [hrun]; decide)
      have hmarked := h.setExecuting t true
      have hlive' : ((s.setExecuting t true).tasks t).pc ≠ .zombied := by
        simpa [DeathState.setExecuting, DeathState.setTask] using hlive
      have hfree : (s.setExecuting t true).holders t = 0 := by
        have hzero : s.holders t = 0 := by simpa using hok
        exact hzero
      exact Option.some.inj hs ▸ (hmarked.take hcpu hlive' hfree).sameQueues _
    | none =>
      have hidle : (s.tasks cpu.idleTask).pc = .unborn :=
        h.idle _ (List.mem_map_of_mem (List.mem_of_getElem? (running_eq_some hcpu).1))
      have hnext := h.chooseNext hcpu (by rw [hidle]; decide) (Or.inl rfl)
      exact Option.some.inj hs ▸ hnext.sameQueues _
  | clear c =>
    rw [deathNext] at hs
    split at hs
    · rename_i cpu hcpu
      split at hs
      · rename_i next hphase
        exact Option.some.inj hs ▸
          (h.setExecuting cpu.currentTask false).clearCpu hcpu hphase
      · cases hs
    · cases hs
  | load c =>
    rw [deathNext] at hs
    split at hs
    · rename_i cpu hcpu
      split at hs
      · rename_i next hphase
        exact Option.some.inj hs ▸ (h.setExecuting next true).loadCpu hcpu hphase
      · cases hs
    · cases hs
  | reaper c =>
    obtain ⟨cpu, hcpu, hs⟩ := Option.bind_eq_some_iff.mp hs
    split at hs
    · refine reaperStep_inv h ?_ hs
      intro t inbox hreceive hinbox
      rw [keptApart, hreceive, hinbox] at hok
      simpa using hok
    · cases hs

/-- **Death is final and clean.**  In every state a run of such steps passes through: the
reaper's check has not failed; a task that stored `ZOMBIE` still has that status and was not
chosen since; once a task has told the reaper, its address is in the reaper's inbox or hands or
the task was destroyed, exactly one of them and once; no task was destroyed while current; and no
task but an idle one is run or taken by two CPUs. -/
theorem death_clean (idleTasks : List TaskPtr) (events : List DeathEvent)
    (hok : Meets (deathNext reaperTask) DeathOk (DeathState.init idleTasks) events)
    (s : DeathState) (hs : Passes (deathNext reaperTask) (DeathState.init idleTasks) events s) :
    s.checkFailed = false ∧
      (∀ t, (s.tasks t).pc = .zombied → (s.tasks t).blockedInfo.status = zombie) ∧
      s.chosenZombie = false ∧
      (∀ t, (s.tasks t).pc = .told ∨ (s.tasks t).pc = .zombied →
        s.reaperInbox.count t + s.reaper.has t + s.destroyed.count t = 1) ∧
      (∀ t, s.destroyed.count t ≤ 1) ∧ s.destroyedCurrent = false ∧
      ∀ t, t ∉ s.cpus.map (·.idleTask) → s.holders t ≤ 1 := by
  have h : DeathInv s :=
    passes_invariant (deathNext_inv reaperTask) (DeathInv.init idleTasks) hok hs
  refine ⟨h.checkFailed, fun t => (h.zombie_iff t).mpr, h.chosenZombie, ?_, ?_,
    h.destroyedCurrent, h.holders⟩
  · intro t ht
    have hacc := h.accounted t
    rcases ht with ht | ht <;> simpa [ht, DiePc.hasTold, DeathState.accounted] using hacc
  · intro t
    have hacc := h.accounted t
    rw [DeathState.accounted] at hacc
    split at hacc <;> omega

/-- One CPU with idle task 0; the reaper, task 1, waits for a message, and task 2 runs. -/
def startUp : List DeathEvent :=
  [.spawn 1, .spawn 2, .switch 0 true 5#32, .clear 0, .load 0, .block 0 amcAwaitMessage,
    .switch 0 true 10#32, .clear 0, .load 0]

/-- Task 2 informs its supervisor, tells the reaper and wakes it up. -/
def tellReaper : List DeathEvent := [.die 0, .die 0, .test 0 1, .unblock 0]

/-- The CPU goes over to the reaper, which receives and checks. -/
def reaperRuns (transition : Bool) : List DeathEvent :=
  [.switch 0 transition 20#32, .clear 0, .load 0, .reaper 0, .reaper 0]

theorem death_clean_undisturbed :
    ∃ s, run (deathNext 1) (DeathState.init [0])
        (startUp ++ tellReaper ++ [.die 0] ++ reaperRuns false ++ [.reaper 0]) = some s ∧
      s.destroyed = [2] ∧ s.checkFailed = false ∧ s.chosenZombie = false ∧
      s.destroyedCurrent = false ∧ ∀ t, s.destroyed.count t ≤ 1 := by
  refine ⟨_, rfl, rfl, ?_⟩
  have h := death_clean 1 [0]
    (startUp ++ tellReaper ++ [.die 0] ++ reaperRuns false ++ [.reaper 0]) (by decide) _
    ⟨_, List.prefix_rfl, rfl⟩
  exact ⟨h.1, h.2.2.1, h.2.2.2.2.2.1, h.2.2.2.2.1⟩

/-- **The check fails.**  Task 2 is preempted between its message to the reaper and the store of
its status. -/
theorem reaper_sees_runnable :
    ∃ s, run (deathNext 1) (DeathState.init [0]) (startUp ++ tellReaper ++ reaperRuns true)
        = some s ∧
      (s.tasks 2).pc = .told ∧ (s.tasks 2).blockedInfo.status = runnable ∧
      s.checkFailed = true :=
  ⟨_, rfl, rfl, rfl, rfl⟩

end Axle.Kernel.TaskDeath
