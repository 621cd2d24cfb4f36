import CrepOS.Library.Run
import CrepOS.Interface.SchedView
import CrepOS.Model.GsBase

/-!
# The two bases of `gs` while threads run

A processor has two bases of `gs`, and `swapgs` exchanges them: that of its record, for the kernel,
and that of user code. A state is a processor together with what an observer records, for each thread
the base that it has asked for. The steps are those of code outside of system calls, the instructions
of `syscall_main`, what a handler does, with the two writes of `syscall_set_gs_base` as separate steps,
and timer interrupts.

`GsDiscipline` is what the code promises of these bases, `GsStrict` the same at every point of
`reschedule`.
-/

set_option autoImplicit false

namespace CrepOS.Interface

open CrepOS.Library CrepOS.Model

/-! ## States and steps -/

structure GsState where
  proc : Processor
  base : ℤ × ℤ → Word

/-- The thread that the processor runs, by its task and its name. -/
def Sched.thread (s : Sched Unit) : ℤ × ℤ := ((s.cpus ()).pid, (s.cpus ()).tid)

/-- The processor runs a thread. -/
def Sched.busy (s : Sched Unit) : Prop := (s.cpus ()).tid ≠ -1 ∧ (s.cpus ()).pid ≠ -1

instance Sched.decidableBusy (s : Sched Unit) : Decidable (Sched.busy s) :=
  inferInstanceAs (Decidable (_ ∧ _))

inductive GsOp
  /-- Code outside of system calls changes its registers and the memory. -/
  | run (regs : Regs) (mem : Word → Word)
  /-- User code executes `syscall`. -/
  | syscall
  /-- An instruction of `syscall_main`. -/
  | instr
  /-- The handler changes its registers, the memory and the base of `fs`. -/
  | work (regs : Regs) (mem : Word → Word) (fsBase : Word)
  /-- The kernel calls `set_errno`. -/
  | setErrno (v : Word)
  /-- `syscall_set_gs_base` calls `set_user_gs`. -/
  | setUserGs (v : Word)
  /-- `syscall_set_gs_base` writes `user_gs_base`. -/
  | storeGsBase (v : Word) (junkTask : Task) (junk : Thread)
  /-- The handler returns. -/
  | ret (regs : Regs)
  /-- A timer interrupt, which uses the stack below `rsp` for `l`. -/
  | interrupt (l : List Word) (junkTask : Task) (junk : Thread)
  /-- A task or a thread is created. -/
  | create (op : SchedOp Unit)

/-- What a thread asks for: nothing but 0 when it is created. -/
def GsState.created (st : GsState) : SchedOp Unit → ℤ × ℤ → Word
  | .createThread pid _ _ _ _ _ _ _ _ _ =>
    Function.update st.base (pid, (st.proc.sched.threadCnt : ℤ)) 0
  | _ => st.base

/-- What a step does. -/
def GsState.exec (st : GsState) : GsOp → Option GsState
  | .run regs mem =>
    if st.proc.index = none then some { st with proc := { st.proc with regs := regs, mem := mem } }
    else none
  | .syscall =>
    if st.proc.index = none then st.proc.syscall.map fun p => { st with proc := p } else none
  | .instr => st.proc.step.map fun p => { st with proc := p }
  | .work regs mem fsBase =>
    if st.proc.index = some handlerIndex then
      some { st with proc := { st.proc with
        regs := regs, mem := mem, msrs := { st.proc.msrs with fsBase := fsBase } } }
    else none
  | .setErrno v =>
    if st.proc.index = some handlerIndex ∨ (st.proc.index = none ∧ ¬ st.proc.regs.user) then
      some { st with proc := st.proc.setErrno v }
    else none
  | .setUserGs v =>
    if st.proc.index = some handlerIndex then
      some ⟨st.proc.setUserGs v, Function.update st.base (Sched.thread st.proc.sched) v⟩
    else none
  | .storeGsBase v junkTask junk =>
    if st.proc.index = some handlerIndex then
      some { st with proc := st.proc.storeGsBase v junkTask junk }
    else none
  | .ret regs =>
    if st.proc.index = some handlerIndex then
      some { st with proc := { st.proc with
        regs := { regs with rip := st.proc.address 31, cs := 8 } } }
    else none
  | .interrupt l junkTask junk =>
    (st.proc.interrupt l junkTask junk).map fun p => { st with proc := p }
  | .create op =>
    some ⟨{ st.proc with sched := ((Traced.mk st.proc.sched []).exec op).sched }, st.created op⟩

/-- What is promised. Code outside of system calls does not jump into `syscall_main` and does not
change its privilege, a handler does not leave but by its return, and new threads do not start in
`syscall_main`. -/
def GsOp.Allowed (st : GsState) : GsOp → Prop
  | .run regs _ => regs.index st.proc.codeBase = none ∧ regs.user = st.proc.regs.user
  | .work regs _ _ => regs.index st.proc.codeBase = some handlerIndex
  | .create (.createThread _ rip cs highVma kernelStack mmapped envp argv _ junk) =>
    (newRegs junk.regsCur rip cs highVma kernelStack mmapped envp argv).index st.proc.codeBase = none
  | .create (.reschedule _ _ _ _ _) => False
  | _ => True

instance GsOp.decidableAllowed (st : GsState) (op : GsOp) : Decidable (op.Allowed st) :=
  match op with
  | .run regs _ => inferInstanceAs (Decidable
      (regs.index st.proc.codeBase = none ∧ regs.user = st.proc.regs.user))
  | .work regs _ _ => inferInstanceAs (Decidable (regs.index st.proc.codeBase = some handlerIndex))
  | .create (.createThread _ rip cs highVma kernelStack mmapped envp argv _ junk) =>
    inferInstanceAs (Decidable
      ((newRegs junk.regsCur rip cs highVma kernelStack mmapped envp argv).index
        st.proc.codeBase = none))
  | .create (.reschedule _ _ _ _ _) => .isFalse id
  | .create (.createTask _ _ _ _ _) | .syscall | .instr | .setErrno _ | .setUserGs _
  | .storeGsBase _ _ _ | .ret _ | .interrupt _ _ _ => .isTrue trivial

/-- The processor is in kernel code outside of system calls, with the base of its record, and no task
has been created yet. -/
def GsState.Initial (st : GsState) : Prop :=
  (∃ junk cpus, st.proc.sched = Sched.init junk cpus) ∧ st.proc.index = none ∧
    st.proc.regs.user = false ∧ st.proc.msrs.gsBase = st.proc.record

/-- The steps that are allowed. -/
def gsStep : GsState → GsOp → GsState → Prop :=
  Guarded (fun st op => op.Allowed st) fun st op st' => st.exec op = some st'

/-! ## What is promised of the bases -/

/-- The kernel has its own base, and the other one is that of the thread that the processor runs. -/
structure KernelBases (st : GsState) (s : Sched Unit) (m : Msrs) : Prop where
  own : m.gsBase = st.proc.record
  other : Sched.busy s → m.kernelGsBase = st.base (Sched.thread s)

/-- A thread in user mode has its own base, and the other one is that of the kernel. -/
structure UserBases (st : GsState) (s : Sched Unit) (m : Msrs) : Prop where
  busy : Sched.busy s
  own : m.gsBase = st.base (Sched.thread s)
  other : m.kernelGsBase = st.proc.record

/-- What holds at a point of `reschedule`, when `s` is the state at its entry: the kernel has its own
base up to the last test, and while the record names the next thread and the base of that thread is
not loaded, the other base is still that of the interrupted thread. -/
def Point.Bases (st : GsState) (s : Sched Unit) (q : Point Unit) : Prop :=
  match q.place with
  | .choosing => KernelBases st q.sched q.msrs
  | .recorded => KernelBases st s q.msrs
  | .loaded => KernelBases st q.sched q.msrs
  | .leaving => True

/-- The points of `reschedule` when the timer interrupts the processor. -/
def GsState.points (st : GsState) (junkTask : Task) (junk : Thread) : List (Point Unit) :=
  reschedulePoints st.proc.sched () st.proc.regs.timerFrame st.proc.msrs junkTask junk

structure GsDiscipline (st : GsState) : Prop where
  handler : st.proc.index = some handlerIndex → KernelBases st st.proc.sched st.proc.msrs
  reschedule : st.proc.regs.interruptible = true → ∀ junkTask junk, ∀ q ∈ st.points junkTask junk,
    Point.Bases st st.proc.sched q
  user : st.proc.regs.user = true → UserBases st st.proc.sched st.proc.msrs

/-- The same with the thread that the record names at every point of `reschedule`. -/
structure GsStrict (st : GsState) : Prop where
  handler : st.proc.index = some handlerIndex → KernelBases st st.proc.sched st.proc.msrs
  reschedule : st.proc.regs.interruptible = true → ∀ junkTask junk, ∀ q ∈ st.points junkTask junk,
    KernelBases st q.sched q.msrs
  user : st.proc.regs.user = true → UserBases st st.proc.sched st.proc.msrs

end CrepOS.Interface
