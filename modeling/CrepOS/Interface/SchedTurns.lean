import CrepOS.Interface.SchedView
import CrepOS.Library.Aging

/-!
# Turns of the scheduler

What an observer sees of the order in which tasks and threads are dispatched: which task a step made,
which thread of which task it dispatched, and who waits. The steps are those of `SchedOp`, on any number
of processors.
-/

set_option autoImplicit false

namespace CrepOS.Interface

open CrepOS.Library CrepOS.Model

variable {C : Type} [DecidableEq C]

/-- The state after a step. -/
def SchedOp.after (s : Sched C) : SchedOp C → Sched C
  | .createTask ppid pageMap kernelMapping junk₁ junk₂ =>
    (Model.createTask s ppid pageMap kernelMapping junk₁ junk₂).1
  | .createThread pid rip cs highVma kernelStack mmapped envp argv junkTask junk =>
    (Model.createThread s pid rip cs highVma kernelStack mmapped envp argv junkTask junk).1
  | .reschedule c regs m junkTask junk => (Model.reschedule s c regs m junkTask junk).1

/-- The task that a step made. -/
def SchedOp.made (s : Sched C) : SchedOp C → Option ℤ
  | .createTask ppid pageMap kernelMapping junk₁ junk₂ =>
    some (Model.createTask s ppid pageMap kernelMapping junk₁ junk₂).2
  | _ => none

/-- The task and the thread that a step dispatched. -/
def SchedOp.dispatched (s : Sched C) : SchedOp C → Option (ℤ × ℤ)
  | .reschedule c regs m junkTask junk =>
    match Model.reschedule s c regs m junkTask junk with
    | (s', .switchTask _ _) => some ((s'.cpus c).pid, (s'.cpus c).tid)
    | (_, .resume _) => none
  | _ => none

/-- The state after some steps. -/
def afterOps (s : Sched C) (ops : List (SchedOp C)) : Sched C :=
  ops.foldl (fun s op => op.after s) s

/-- One of the steps made the task `k`. -/
def MadeIn (s : Sched C) : List (SchedOp C) → ℤ → Prop
  | [], _ => False
  | op :: rest, k => op.made s = some k ∨ MadeIn (op.after s) rest k

instance decidableMadeIn (s : Sched C) : (ops : List (SchedOp C)) → (k : ℤ) → Decidable (MadeIn s ops k)
  | [], _ => .isFalse id
  | op :: rest, k =>
    haveI := decidableMadeIn (op.after s) rest k
    inferInstanceAs (Decidable (_ ∨ _))

/-- The status of a task. -/
def taskStatus (s : Sched C) (k : ℤ) : ℕ := (s.taskList.data k).status

/-- The names of the threads of a task. -/
def threadNames (s : Sched C) (k : ℤ) : List ℤ := (s.taskList.data k).threads.tags

/-- The status of a thread. -/
def threadStatus (s : Sched C) (k t : ℤ) : ℕ := ((s.taskList.data k).threads.data t).status

/-- The memory that placeholders are made of does not hold the status of a waiting task. -/
def SchedOp.PlaceholderOk : SchedOp C → Prop
  | .createTask _ _ _ junk _ => junk.status ≠ taskWaiting
  | .createThread _ _ _ _ _ _ _ _ junk _ => junk.status ≠ taskWaiting
  | .reschedule _ _ _ junk _ => junk.status ≠ taskWaiting

instance SchedOp.decidablePlaceholderOk (op : SchedOp C) : Decidable op.PlaceholderOk :=
  match op with
  | .createTask .. | .createThread .. | .reschedule .. => inferInstanceAs (Decidable (_ ≠ _))

/-! ## Work -/

/-- A thread of the task waits. -/
def HasWaitingThread (s : Sched C) (k : ℤ) : Prop := ∃ t ∈ threadNames s k, threadStatus s k t = taskWaiting

/-- There is work: a task waits, and a thread of it. -/
def WorkWaits (s : Sched C) : Prop :=
  ∃ k ∈ s.taskList.tags, taskStatus s k = taskWaiting ∧ HasWaitingThread s k

/-- The task is the first in the list of those that wait with the largest idle counter. -/
def LongestIdle (s : Sched C) (p : ℤ) : Prop :=
  ∃ before later, s.taskList.tags = before ++ p :: later ∧ taskStatus s p = taskWaiting ∧
    (∀ k ∈ before, taskStatus s k = taskWaiting →
      (s.taskList.data k).idleCnt < (s.taskList.data p).idleCnt) ∧
    ∀ k ∈ later, taskStatus s k = taskWaiting →
      (s.taskList.data k).idleCnt ≤ (s.taskList.data p).idleCnt

/-! ## Waiting -/

/-- The dispatches of some steps, in order. -/
def dispatches (s : Sched C) : List (SchedOp C) → List (ℤ × ℤ)
  | [] => []
  | op :: rest => (op.dispatched s).toList ++ dispatches (op.after s) rest

/-- The step is a call of `reschedule`. -/
def SchedOp.isReschedule : SchedOp C → Bool
  | .reschedule .. => true
  | _ => false

/-- Every task that waits has a thread that waits. -/
def TasksReady (s : Sched C) : Prop :=
  ∀ k ∈ s.taskList.tags, taskStatus s k = taskWaiting → HasWaitingThread s k

/-- The tasks that are dispatched before the task `k`: those that have been idle for longer, or as long
and come earlier in the list. -/
def tasksAhead (s : Sched C) (k : ℤ) : List ℤ :=
  aheadOf s.taskList.tags (fun j => (s.taskList.data j).idleCnt) k

/-- The threads of the task `p` that are dispatched before its thread `t`. -/
def threadsAhead (s : Sched C) (p t : ℤ) : List ℤ :=
  aheadOf (threadNames s p) (fun u => ((s.taskList.data p).threads.data u).idleCnt) t

end CrepOS.Interface
