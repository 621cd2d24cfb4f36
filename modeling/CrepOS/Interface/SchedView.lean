import CrepOS.Model.Scheduler

/-!
# The scheduler without its counters

What the scheduler is for does not depend on the idle counters, by which it only chooses among the
threads that wait. `Sched.view` forgets them, and the members that nothing depends on, and keeps for
each thread its status and its context: the register frame and the bases of `fs` and `gs`. On views
the steps are short: a task or a thread is added, the thread of a processor is preempted, a thread is
dispatched.

`SchedEvent` is what an observer sees of the contexts: with which one a thread was created or
preempted, and which one was loaded for it when it was dispatched.
-/

set_option autoImplicit false

namespace CrepOS.Interface

open CrepOS.Model

/-- The context of a thread: its registers and the bases of its segments. -/
structure Context where
  regs : Regs
  fsBase : Word
  gsBase : Word
  deriving DecidableEq

/-- The context of the code that runs with the frame `regs`. The `gs` base of user code is in
`msr_gs_base` while the code runs, and in `kernel_gs_base` while the kernel runs. -/
def Context.of (regs : Regs) (m : Msrs) : Context :=
  ⟨regs, m.fsBase, if regs.user then m.gsBase else m.kernelGsBase⟩

structure ThreadView where
  tid : ℤ
  status : ℕ
  context : Context

structure TaskView where
  pid : ℤ
  status : ℕ
  threadTags : List ℤ
  thread : ℤ → ThreadView

/-- The view of a scheduler with processors named by `C`; a processor without a thread has `-1` for
both the task and the thread. -/
structure View (C : Type) where
  tags : List ℤ
  task : ℤ → TaskView
  current : C → ℤ × ℤ
  taskCnt : ℕ
  threadCnt : ℕ

def threadView (t : Thread) : ThreadView := ⟨t.tid, t.status, t.regsCur, t.userFsBase, t.userGsBase⟩

def taskView (t : Task) : TaskView :=
  ⟨t.pid, t.status, t.threads.tags, fun k => threadView (t.threads.data k)⟩

/-- The view of a scheduler. -/
def schedView {C : Type} (s : Sched C) : View C :=
  ⟨s.taskList.tags, fun k => taskView (s.taskList.data k), fun c => ((s.cpus c).pid, (s.cpus c).tid),
    s.taskCnt, s.threadCnt⟩

/-! ## Steps on views -/

section Steps

variable {C : Type} [DecidableEq C]

/-- A task that was not in the list is added at its end. -/
def View.touch (v : View C) (pid : ℤ) (t : TaskView) : View C :=
  if pid ∈ v.tags then v else { v with tags := v.tags ++ [pid], task := Function.update v.task pid t }

/-- The next task, in a place of the list that `touch` has made. -/
def View.addTask (v : View C) (t : TaskView) : View C :=
  { v with task := Function.update v.task v.taskCnt t, taskCnt := v.taskCnt + 1 }

/-- The next thread, of the task `pid`. -/
def View.addThread (v : View C) (pid : ℤ) (e : ThreadView) : View C :=
  { v with
    task := Function.update v.task pid
      { v.task pid with
        threadTags := (v.task pid).threadTags ++ [(v.threadCnt : ℤ)]
        thread := Function.update (v.task pid).thread v.threadCnt e }
    threadCnt := v.threadCnt + 1 }

/-- The status of a task and of one of its threads, and the context of the thread, are set. -/
def TaskView.set (t : TaskView) (tid : ℤ) (status : ℕ) (ctx : Context) : TaskView :=
  { t with
    status := status
    thread := Function.update t.thread tid
      { t.thread tid with status := status, context := ctx } }

/-- A processor is idle. -/
def View.idle (v : View C) (c : C) : Prop := ¬ ((v.current c).2 ≠ -1 ∧ (v.current c).1 ≠ -1)

instance (v : View C) (c : C) : Decidable (v.idle c) := inferInstanceAs (Decidable (¬ _))

/-- The thread `tid` of the task `pid` and the task get a status, the thread a context, and `c` is
recorded to run `cur`. -/
def View.assign (v : View C) (c : C) (pid tid : ℤ) (status : ℕ) (ctx : Context) (cur : ℤ × ℤ) :
    View C :=
  { v with
    task := Function.update v.task pid ((v.task pid).set tid status ctx)
    current := Function.update v.current c cur }

/-- The thread that `c` ran, if there is one, is made to wait with the context `ctx`. -/
def View.preempt (v : View C) (c : C) (ctx : Context) : View C :=
  if v.idle c then v
  else v.assign c (v.current c).1 (v.current c).2 taskWaiting ctx (-1, -1)

/-- The thread `tid` of the task `pid` is made the current one of `c`. -/
def View.dispatch (v : View C) (c : C) (pid tid : ℤ) : View C :=
  v.assign c pid tid taskRunning ((v.task pid).thread tid).context (pid, tid)

end Steps

/-! ## Events -/

/-- What happens to the context of the thread `tid` of the task `pid`. -/
inductive SchedEvent
  | created (pid tid : ℤ) (ctx : Context)
  | preempted (pid tid : ℤ) (ctx : Context)
  | dispatched (pid tid : ℤ) (ctx : Context)

/-- The context that an event stores for a thread. -/
def SchedEvent.stored (pid tid : ℤ) : SchedEvent → Option Context
  | .created p t ctx => if p = pid ∧ t = tid then some ctx else none
  | .preempted p t ctx => if p = pid ∧ t = tid then some ctx else none
  | .dispatched _ _ _ => none

/-- The context stored for a thread when it was last preempted, or created. -/
def lastStored (pid tid : ℤ) (log : List SchedEvent) : Option Context :=
  (log.filterMap (SchedEvent.stored pid tid)).getLast?

/-- The steps of the system, with the values that they take from memory that is not initialised. -/
inductive SchedOp (C : Type)
  | createTask (ppid : ℤ) (pageMap : Option Word) (kernelMapping : Word) (junk₁ junk₂ : Task)
  | createThread (pid : ℤ) (rip : Word) (cs : BitVec 16) (highVma kernelStack mmapped : Word)
      (envp argv : List ℕ) (junkTask : Task) (junk : Thread)
  | reschedule (c : C) (regs : Regs) (m : Msrs) (junkTask : Task) (junk : Thread)

/-- The scheduler and what has happened so far. -/
structure Traced (C : Type) where
  sched : Sched C
  log : List SchedEvent

/-- One step, with the events it causes. -/
def Traced.exec {C : Type} [DecidableEq C] (t : Traced C) : SchedOp C → Traced C
  | .createTask ppid pageMap kernelMapping junk₁ junk₂ =>
    ⟨(createTask t.sched ppid pageMap kernelMapping junk₁ junk₂).1, t.log⟩
  | .createThread pid rip cs highVma kernelStack mmapped envp argv junkTask junk =>
    let r := createThread t.sched pid rip cs highVma kernelStack mmapped envp argv junkTask junk
    ⟨r.1, if r.2 = -1 then t.log else t.log ++
      [.created pid r.2 ⟨newRegs junk.regsCur rip cs highVma kernelStack mmapped envp argv, 0, 0⟩]⟩
  | .reschedule c regs m junkTask junk =>
    let r := reschedule t.sched c regs m junkTask junk
    let cpu := t.sched.cpus c
    match r.2 with
    | .resume _ => ⟨r.1, t.log⟩
    | .switchTask regs' m' =>
      ⟨r.1, t.log ++
        (if cpu.tid ≠ -1 ∧ cpu.pid ≠ -1 then [.preempted cpu.pid cpu.tid (Context.of regs m)]
          else []) ++
        [.dispatched (r.1.cpus c).pid (r.1.cpus c).tid (Context.of regs' m')]⟩

/-- The memory that placeholders are made of holds neither of the two status values. -/
def SchedOp.JunkOk {C : Type} : SchedOp C → Prop
  | .createTask _ _ _ junk _ => junk.status ≠ taskWaiting ∧ junk.status ≠ taskRunning
  | .createThread _ _ _ _ _ _ _ _ junk _ => junk.status ≠ taskWaiting ∧ junk.status ≠ taskRunning
  | .reschedule _ _ _ junk _ => junk.status ≠ taskWaiting ∧ junk.status ≠ taskRunning

/-- No tasks, and no processor has a thread. -/
def Sched.init {C : Type} (junk : Task) (cpus : C → Cpu) : Sched C :=
  ⟨⟨[], fun _ => junk⟩, 0, 0, fun c => { cpus c with pid := -1, tid := -1 }⟩

end CrepOS.Interface
