import CrepOS.Model.Vmm

/-!
# The scheduler, `sched/scheduler.cpp`

`lib::map` is two parallel vectors. `operator[]` returns the element of the first tag that is equal,
and pushes only tags that are not there yet, so a tag determines its element: the model keeps the
tags in order and the elements as a function of the tag. What `operator[]` pushes is `T()`, whose
members without an initialiser have whatever is in memory; such values are arguments of the model's
functions (`Task`s and `Thread`s called `junk`).

A reschedule runs under `scheduler_lock`, so it is one function of the state. `cpus c` is the
`smp::cpu` record of the processor `c`. The model-specific registers are an argument, since user
programs change them between two reschedules, and a result. The counters `task_cnt` and `thread_cnt`
do not wrap. Members that none of the functions reads (file descriptors, stack sizes) are left out,
and of `create_thread` the texts it copies to the user stack; it is given their lengths.
-/

set_option autoImplicit false

namespace CrepOS.Model

/-! ## `lib::map` -/

/-- `lib::map<F, T>`. -/
structure Map (F T : Type) where
  tags : List F
  data : F → T

variable {F T : Type} [DecidableEq F]

/-- The effect of `operator[]`, where a new element is `new`.
SRCLINE: kernel/lib/map.hpp:51-61 -/
def Map.touch (m : Map F T) (index : F) (new : T) : Map F T :=
  if index ∈ m.tags then m else ⟨m.tags ++ [index], Function.update m.data index new⟩

/-- The assignment of `e` to an element, after `operator[]` has returned it. -/
def Map.put (m : Map F T) (index : F) (e : T) : Map F T :=
  { m with data := Function.update m.data index e }

/-! ## Threads, tasks and processors -/

/-- `struct regs`, the frame that an interrupt leaves on the stack.
SRCLINE: kernel/lib/cpu.hpp:22-45 -/
structure Regs where
  r15 : Word
  r14 : Word
  r13 : Word
  r12 : Word
  r11 : Word
  r10 : Word
  r9 : Word
  r8 : Word
  rsi : Word
  rdi : Word
  rbp : Word
  rdx : Word
  rcx : Word
  rbx : Word
  rax : Word
  isrNumber : Word
  errCode : Word
  rip : Word
  cs : Word
  rflags : Word
  rsp : Word
  ss : Word
  deriving DecidableEq

/-- `task_waiting`. -/
abbrev taskWaiting : ℕ := 2

/-- `task_running`. -/
abbrev taskRunning : ℕ := 8

/-- `struct thread`.
SRCLINE: kernel/sched/scheduler.hpp:24-38 -/
structure Thread where
  tid : ℤ
  idleCnt : ℕ
  status : ℕ
  userStack : Word
  kernelStack : Word
  userGsBase : Word
  userFsBase : Word
  errno : Word
  regsCur : Regs

/-- `struct task`.
SRCLINE: kernel/sched/scheduler.hpp:40-55 -/
structure Task where
  pid : ℤ
  ppid : ℤ
  idleCnt : ℕ
  status : ℕ
  threads : Map ℤ Thread
  pageMap : Word

/-- The constructor of `thread`. -/
def Thread.new (junk : Thread) : Thread := { junk with tid := -1, idleCnt := 0, errno := 0 }

/-- The constructor of `task`. -/
def Task.new (junk : Task) : Task :=
  { junk with pid := -1, ppid := -1, idleCnt := 0, threads := ⟨[], junk.threads.data⟩ }

/-- The members of `smp::cpu` that the scheduler uses.
SRCLINE: kernel/sched/smp.hpp:11-19 -/
structure Cpu where
  errno : Word
  pid : ℤ
  tid : ℤ
  pageMap : Word

/-- The registers `msr_fs_base`, `msr_gs_base` and `kernel_gs_base` of a processor. -/
structure Msrs where
  fsBase : Word
  gsBase : Word
  kernelGsBase : Word
  deriving DecidableEq

/-- `swapgs`. -/
def Msrs.swapgs (m : Msrs) : Msrs := { m with gsBase := m.kernelGsBase, kernelGsBase := m.gsBase }

/-- The state of the scheduler with processors named by `C`. -/
structure Sched (C : Type) where
  taskList : Map ℤ Task
  taskCnt : ℕ
  threadCnt : ℕ
  cpus : C → Cpu

/-! ## Creation -/

section Create

variable {C : Type}

/-- `create_task`. The placeholder for an unknown `ppid` and the local `new_task` start as junk.
SRCLINE: kernel/sched/scheduler.cpp:12-32 -/
def createTask (s : Sched C) (ppid : ℤ) (pageMap : Option Word) (kernelMapping : Word)
    (junk₁ junk₂ : Task) : Sched C × ℤ :=
  let taskList := s.taskList.touch ppid (Task.new junk₁)
  let pid : ℤ := s.taskCnt
  let newTask := { Task.new junk₂ with
    pid := pid
    ppid := ppid
    status := taskWaiting
    pageMap := pageMap.getD kernelMapping }
  ({ s with
    taskList := (taskList.touch pid (Task.new junk₁)).put pid newTask
    taskCnt := s.taskCnt + 1 }, pid)

/-- The stack pointer of a new user thread: below the texts of `envp` and `argv`, of the given
lengths, five auxiliary entries and the two pointer arrays.
SRCLINE: kernel/sched/scheduler.cpp:55-107 -/
def userStackPointer (top : Word) (envp argv : List ℕ) : Word :=
  let stack := (envp ++ argv).foldl (fun stack len => stack - BitVec.ofNat 64 len + 1) top
  let stack := stack - (stack &&& 0xf#64)
  let stack := if (argv.length + envp.length + 1) % 2 = 1 then stack - 8 else stack
  stack - 80 - 8 - 8 * BitVec.ofNat 64 envp.length - 8 - 8 * BitVec.ofNat 64 argv.length - 8

/-- The frame of a new thread. `mmapped` is what `mm::mmap` returns for the user stack, and
`kernelStack` what `pmm::alloc(2)` returns for the other one; `highVma` depends on the paging mode.
SRCLINE: kernel/sched/scheduler.cpp:40-112 -/
def newRegs (junk : Regs) (rip : Word) (cs : BitVec 16) (highVma kernelStack mmapped : Word)
    (envp argv : List ℕ) : Regs :=
  let regs := { junk with rip := rip, cs := cs.setWidth 64, rflags := 0x202 }
  if cs &&& 3 ≠ 0 then
    { regs with
      ss := cs.setWidth 64 - 8
      rsp := userStackPointer (mmapped + 0x2000) envp argv }
  else
    { regs with ss := cs.setWidth 64 + 8, rsp := kernelStack + highVma }

/-- `create_thread`. For a task without a valid `pid` it returns `-1`, and a placeholder for an
unknown task remains in the list.
SRCLINE: kernel/sched/scheduler.cpp:34-119 -/
def createThread (s : Sched C) (pid : ℤ) (rip : Word) (cs : BitVec 16)
    (highVma kernelStack mmapped : Word) (envp argv : List ℕ) (junkTask : Task) (junk : Thread) : Sched C × ℤ :=
  let taskList := s.taskList.touch pid (Task.new junkTask)
  if (taskList.data pid).pid = -1 then ({ s with taskList := taskList }, -1)
  else
    let task := taskList.data pid
    let tid : ℤ := s.threadCnt
    let newThread := { Thread.new junk with
      tid := tid
      status := taskWaiting
      userStack := if cs &&& 3 ≠ 0 then mmapped + 0x2000 else 0
      kernelStack := kernelStack
      userGsBase := 0
      userFsBase := 0
      regsCur := newRegs junk.regsCur rip cs highVma kernelStack mmapped envp argv }
    let threads := (task.threads.touch tid (Thread.new junk)).put tid newThread
    ({ s with
      taskList := taskList.put pid { task with threads := threads }
      threadCnt := s.threadCnt + 1 }, tid)

end Create

/-! ## Rescheduling -/

/-- The loops that choose the next task and the next thread: every element gets one more idle turn,
and the result is the name of the waiting one with the largest count, the first of them.
SRCLINE: kernel/sched/scheduler.cpp:127-141, 158-172 -/
def pickIdle {α : Type} (idle : α → ℕ) (setIdle : α → ℕ → α) (status : α → ℕ) (name : α → ℤ) :
    List ℤ → (ℤ → α) → ℕ → ℤ → (ℤ → α) × ℤ
  | [], data, _, ret => (data, ret)
  | tag :: tags, data, cnt, ret =>
    let e := setIdle (data tag) ((idle (data tag) + 1) % 2 ^ 64)
    let data := Function.update data tag e
    if status e = taskWaiting ∧ cnt < idle e then
      pickIdle idle setIdle status name tags data (idle e) (name e)
    else pickIdle idle setIdle status name tags data cnt ret

/-- `next_pid`. -/
def nextPid (m : Map ℤ Task) : Map ℤ Task × ℤ :=
  let r := pickIdle Task.idleCnt (fun t n => { t with idleCnt := n }) Task.status Task.pid
    m.tags m.data 0 (-1)
  ({ m with data := r.1 }, r.2)

/-- `next_tid`. -/
def nextTid (m : Map ℤ Thread) : Map ℤ Thread × ℤ :=
  let r := pickIdle Thread.idleCnt (fun t n => { t with idleCnt := n }) Thread.status Thread.tid
    m.tags m.data 0 (-1)
  ({ m with data := r.1 }, r.2)

/-- How `reschedule` ends: it returns to the interrupted code, or `switch_task` loads a frame. The
registers are those of the processor at that point. -/
inductive Outcome
  | resume (msrs : Msrs)
  | switchTask (regs : Regs) (msrs : Msrs)

/-- `regs->cs & 0x3`: the frame is one of user code. -/
def Regs.user (r : Regs) : Bool := r.cs &&& 3 != 0

/-- `if(regs->cs & 0x3) swapgs()`. -/
def Msrs.swapFor (m : Msrs) (r : Regs) : Msrs := if r.user then m.swapgs else m

section Reschedule

variable {C : Type} [DecidableEq C]

/-- The context of the interrupted thread is stored.
SRCLINE: kernel/sched/scheduler.cpp:183-193 -/
def saveLast (taskList : Map ℤ Task) (cpu : Cpu) (regs : Regs) (m : Msrs) (junkTask : Task)
    (junk : Thread) : Map ℤ Task :=
  if cpu.tid ≠ -1 ∧ cpu.pid ≠ -1 then
    let taskList := taskList.touch cpu.pid (Task.new junkTask)
    let lastTask := taskList.data cpu.pid
    let threads := lastTask.threads.touch cpu.tid (Thread.new junk)
    let lastThread := { threads.data cpu.tid with
      status := taskWaiting
      regsCur := regs
      userFsBase := m.fsBase
      userGsBase := m.kernelGsBase }
    taskList.put cpu.pid
      { lastTask with threads := threads.put cpu.tid lastThread, status := taskWaiting }
  else taskList

/-- The chosen thread becomes the current one of the processor `c`.
SRCLINE: kernel/sched/scheduler.cpp:195-217 -/
def dispatch (s : Sched C) (c : C) (pid tid : ℤ) (m : Msrs) : Sched C × Outcome :=
  let task := s.taskList.data pid
  let thread := task.threads.data tid
  let cpu : Cpu := ⟨thread.errno, pid, tid, task.pageMap⟩
  let thread := { thread with idleCnt := 0, status := taskRunning }
  let task := { task with
    threads := task.threads.put tid thread
    idleCnt := 0
    status := taskRunning }
  let m := { m with fsBase := thread.userFsBase, kernelGsBase := thread.userGsBase }
  ({ s with
    taskList := s.taskList.put pid task
    cpus := Function.update s.cpus c cpu },
    .switchTask thread.regsCur (m.swapFor thread.regsCur))

/-- `reschedule` on the processor `c`, which was interrupted with the frame `regs`.
SRCLINE: kernel/sched/scheduler.cpp:121-218 -/
def reschedule (s : Sched C) (c : C) (regs : Regs) (m : Msrs) (junkTask : Task) (junk : Thread) :
    Sched C × Outcome :=
  let m := m.swapFor regs
  let (taskList, pid) := nextPid s.taskList
  let cpu := s.cpus c
  if pid = -1 ∧ cpu.pid = -1 then
    ({ s with taskList := taskList }, .resume (m.swapFor regs))
  else
    let pid := if pid = -1 then cpu.pid else pid
    let taskList := taskList.touch pid (Task.new junkTask)
    let task := taskList.data pid
    let (threads, tid) := nextTid task.threads
    let taskList := taskList.put pid { task with threads := threads }
    if tid = -1 then ({ s with taskList := taskList }, .resume (m.swapFor regs))
    else
      let threads := threads.touch tid (Thread.new junk)
      let taskList := taskList.put pid { task with threads := threads }
      let taskList := saveLast taskList cpu regs m junkTask junk
      dispatch { s with taskList := taskList } c pid tid m

/-! ## `errno` -/

/-- `set_errno` on the processor `c`.
SRCLINE: kernel/lib/cpu.cpp:54-57 -/
def setErrno (s : Sched C) (c : C) (errno : Word) : Sched C :=
  { s with cpus := Function.update s.cpus c { s.cpus c with errno := errno } }

/-- `get_errno` on the processor `c`.
SRCLINE: kernel/lib/cpu.cpp:59-62 -/
def getErrno (s : Sched C) (c : C) : Word := (s.cpus c).errno

end Reschedule

end CrepOS.Model
