import CrepOS.Model.Syscall

/-!
# The bases of `gs`, `lib/cpu.cpp` and `sched/scheduler.cpp`

`reschedule` in `Model.Scheduler` is one function, since nothing else of the scheduler runs while it
has the lock. Here are the points it passes through: each has the state of the scheduler and the
registers of the processor that the statements up to it have left.
-/

set_option autoImplicit false

namespace CrepOS.Model

/-! ## `syscall_set_gs_base` -/

/-- `set_user_gs`.
SRCLINE: kernel/lib/cpu.hpp:125-127 -/
def Processor.setUserGs (p : Processor) (v : Word) : Processor :=
  { p with msrs := { p.msrs with kernelGsBase := v } }

/-- `current_thread.user_gs_base = regs_cur->rdi`, with the `operator[]` that led to the thread.
SRCLINE: kernel/lib/cpu.cpp:37-43 -/
def Processor.storeGsBase (p : Processor) (v : Word) (junkTask : Task) (junk : Thread) : Processor :=
  let core := p.sched.cpus ()
  let taskList := p.sched.taskList.touch core.pid (Task.new junkTask)
  let currentTask := taskList.data core.pid
  let threads := currentTask.threads.touch core.tid (Thread.new junk)
  let currentThread := { threads.data core.tid with userGsBase := v }
  let taskList := taskList.put core.pid
    { currentTask with threads := threads.put core.tid currentThread }
  { p with sched := { p.sched with taskList := taskList } }

/-! ## The points of `reschedule` -/

/-- Where a point is: before the record of the processor is changed, while it names the next thread
and the base of that thread is not loaded, after that, and behind the last test for `swapgs`. -/
inductive Place
  | choosing
  | recorded
  | loaded
  | leaving
  deriving DecidableEq

structure Point (C : Type) where
  place : Place
  sched : Sched C
  msrs : Msrs

section Points

variable {C : Type} [DecidableEq C]

/-- `cpu_local` is changed.
SRCLINE: kernel/sched/scheduler.cpp:195-199 -/
def setCpu (s : Sched C) (c : C) (cpu : Cpu) : Sched C :=
  { s with cpus := Function.update s.cpus c cpu }

/-- The points of `dispatch`.
SRCLINE: kernel/sched/scheduler.cpp:195-217 -/
def dispatchPoints (s : Sched C) (c : C) (pid tid : ℤ) (m : Msrs) : List (Point C) :=
  let task := s.taskList.data pid
  let thread := task.threads.data tid
  let cpu := s.cpus c
  let s₁ := setCpu s c { cpu with pid := pid }
  let s₂ := setCpu s c { cpu with pid := pid, tid := tid }
  let s₃ := setCpu s c { cpu with pid := pid, tid := tid, errno := thread.errno }
  let s₄ := setCpu s c ⟨thread.errno, pid, tid, task.pageMap⟩
  let thread := { thread with idleCnt := 0, status := taskRunning }
  let task := { task with
    threads := task.threads.put tid thread
    idleCnt := 0
    status := taskRunning }
  let s₅ := { s₄ with taskList := s.taskList.put pid task }
  let m₁ := { m with fsBase := thread.userFsBase }
  let m₂ := { m₁ with kernelGsBase := thread.userGsBase }
  [⟨.recorded, s₁, m⟩, ⟨.recorded, s₂, m⟩, ⟨.recorded, s₃, m⟩, ⟨.recorded, s₄, m⟩,
    ⟨.recorded, s₅, m⟩, ⟨.recorded, s₅, m₁⟩, ⟨.loaded, s₅, m₂⟩,
    ⟨.leaving, s₅, m₂.swapFor thread.regsCur⟩]

/-- The points of `reschedule` from the first test for `swapgs` on.
SRCLINE: kernel/sched/scheduler.cpp:124-218 -/
def reschedulePoints (s : Sched C) (c : C) (regs : Regs) (m : Msrs) (junkTask : Task)
    (junk : Thread) : List (Point C) :=
  let m := m.swapFor regs
  let (taskList, pid) := nextPid s.taskList
  let cpu := s.cpus c
  ⟨.choosing, s, m⟩ :: ⟨.choosing, { s with taskList := taskList }, m⟩ ::
  if pid = -1 ∧ cpu.pid = -1 then [⟨.leaving, { s with taskList := taskList }, m.swapFor regs⟩]
  else
    let pid := if pid = -1 then cpu.pid else pid
    let taskList := taskList.touch pid (Task.new junkTask)
    let task := taskList.data pid
    let (threads, tid) := nextTid task.threads
    let taskList := taskList.put pid { task with threads := threads }
    ⟨.choosing, { s with taskList := taskList }, m⟩ ::
    if tid = -1 then [⟨.leaving, { s with taskList := taskList }, m.swapFor regs⟩]
    else
      let threads := threads.touch tid (Thread.new junk)
      let taskList := taskList.put pid { task with threads := threads }
      let saved := saveLast taskList cpu regs m junkTask junk
      ⟨.choosing, { s with taskList := taskList }, m⟩ ::
      ⟨.choosing, { s with taskList := saved }, m⟩ ::
      dispatchPoints { s with taskList := saved } c pid tid m

/-- The registers with which `reschedule` ends. -/
def Outcome.msrs : Outcome → Msrs
  | .resume m => m
  | .switchTask _ m => m

/-- **The last point is where `reschedule` ends.** -/
theorem reschedulePoints_getLast (s : Sched C) (c : C) (regs : Regs) (m : Msrs) (junkTask : Task)
    (junk : Thread) : (reschedulePoints s c regs m junkTask junk).getLast? =
      some ⟨.leaving, (reschedule s c regs m junkTask junk).1,
        (reschedule s c regs m junkTask junk).2.msrs⟩ := by
  unfold reschedulePoints reschedule
  generalize nextPid s.taskList = next
  obtain ⟨taskList, pid⟩ := next
  dsimp only
  by_cases hnone : pid = -1 ∧ (s.cpus c).pid = -1
  · rw [if_pos hnone, if_pos hnone]
    rfl
  · rw [if_neg hnone, if_neg hnone]
    generalize (if pid = -1 then (s.cpus c).pid else pid) = pid
    generalize nextTid ((taskList.touch pid (Task.new junkTask)).data pid).threads = next
    obtain ⟨threads, tid⟩ := next
    dsimp only
    by_cases htid : tid = -1
    · rw [if_pos htid, if_pos htid]
      rfl
    · rw [if_neg htid, if_neg htid]
      rfl

end Points

end CrepOS.Model
