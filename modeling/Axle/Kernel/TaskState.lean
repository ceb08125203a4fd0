import Mathlib.Data.BitVec

/-!
# Task states: blocking and unblocking

`task_small.h` keeps with every task the reason it may not run, as a word of flags, and
`task_small.c` changes that word in two places only: `tasking_block_task` stores the reason to
wait, `tasking_unblock_task_with_reason` makes the task runnable again *whatever the word held
before*, unless the task is the one running on the caller's CPU.
-/

namespace Axle.Kernel.TaskState

/-- The address of a task's control block. -/
abbrev TaskPtr := ℕ

/-- `task_state_t`: a word of flags. -/
abbrev TaskStatus := BitVec 32

def runnable : TaskStatus := 1#32 <<< 0
def zombie : TaskStatus := 1#32 <<< 1
def irqWait : TaskStatus := 1#32 <<< 8
def amcAwaitMessage : TaskStatus := 1#32 <<< 9
def amcAwaitTimestamp : TaskStatus := 1#32 <<< 11

/-- The flag test the kernel writes as `(status & flag) != 0`. -/
def hasFlag (status flag : TaskStatus) : Bool := status &&& flag != 0#32

/-- `task_block_state_t`. -/
structure BlockedInfo where
  status : TaskStatus
  wakeTimestamp : BitVec 32
  unblockReason : TaskStatus
  deriving DecidableEq, Repr

/-- The state `_thread_create` gives a new task. -/
def BlockedInfo.new : BlockedInfo := ⟨runnable, 0#32, 0#32⟩

/-- Make `task` runnable; `current` is the task that runs on the calling CPU. -/
def taskingUnblockTaskWithReason (current task : TaskPtr) (reason : TaskStatus)
    (info : BlockedInfo) : BlockedInfo :=
  if task = current then info
  else { info with unblockReason := reason, status := runnable }

/-- Store the reason to wait; two states are refused with a panic. -/
def taskingBlockTask (blockedState : TaskStatus) (info : BlockedInfo) : Option BlockedInfo :=
  if blockedState = runnable ∨ blockedState = zombie then none
  else some { info with status := blockedState }

theorem taskingUnblock_of_ne {current task : TaskPtr} (h : task ≠ current) (reason : TaskStatus)
    (info : BlockedInfo) :
    (taskingUnblockTaskWithReason current task reason info).status = runnable := by
  rw [taskingUnblockTaskWithReason, if_neg h]

end Axle.Kernel.TaskState
