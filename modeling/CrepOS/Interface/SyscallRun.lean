import CrepOS.Library.Run
import CrepOS.Interface.SchedView
import CrepOS.Model.Syscall

/-!
# Runs of a processor with system calls

A state is a processor together with what an observer records: the events of the scheduler, for each
thread the context with which it entered the kernel, and for each return to user mode what the thread
found. The steps are those of code outside of system calls, which does what it likes with its own
registers, the instructions of `syscall_main`, what a handler does, and timer interrupts.

`SyscallOp.Allowed` is what is promised about this code, `SyscallOp.Sound` the condition under which
the contexts are preserved.
-/

set_option autoImplicit false

namespace CrepOS.Interface

open CrepOS.Library CrepOS.Model

/-- The context of a thread that enters the kernel. -/
structure Entry where
  rsp : Word
  rip : Word
  rflags : Word
  deriving DecidableEq

/-- A return to user mode: with which context the thread entered, with which it returned, the value
in `rdx` and the `errno` of the record. -/
structure SyscallReturn where
  entered : Entry
  left : Entry
  rdx : Word
  errno : Word
  deriving DecidableEq

/-- The return gives the thread its context back and the `errno` of the record. -/
def SyscallReturn.Preserved (r : SyscallReturn) : Prop := r.left = r.entered ∧ r.rdx = r.errno

instance (r : SyscallReturn) : Decidable r.Preserved := inferInstanceAs (Decidable (_ ∧ _))

structure SyscallState where
  proc : Processor
  log : List SchedEvent
  entries : ℤ × ℤ → Entry
  returns : List SyscallReturn

/-- The thread that the processor runs. -/
def SyscallState.thread (st : SyscallState) : ℤ × ℤ :=
  ((st.proc.sched.cpus ()).pid, (st.proc.sched.cpus ()).tid)

def Regs.entry (r : Regs) : Entry := ⟨r.rsp, r.rip, r.rflags⟩

/-- The steps. -/
inductive SyscallOp
  /-- Code outside of system calls changes its registers and the memory. -/
  | run (regs : Regs) (mem : Word → Word)
  /-- User code executes `syscall`. -/
  | syscall
  /-- An instruction of `syscall_main`. -/
  | instr
  /-- The handler, or kernel code outside of system calls, calls `set_errno`. -/
  | setErrno (v : Word)
  /-- The handler writes word `i` of the frame that it was given. -/
  | frame (i : ℕ) (v : Word)
  /-- The handler uses the stack below. -/
  | scratch (l : List Word)
  /-- The handler sets the bases of user code. -/
  | bases (fs gs : Word)
  /-- The handler returns; it keeps `rsp`. -/
  | ret (regs : Regs)
  /-- A timer interrupt, which uses the stack below `rsp` for `l`. -/
  | interrupt (l : List Word) (junkTask : Task) (junk : Thread)
  /-- A task or a thread is created. -/
  | create (op : SchedOp Unit)

/-- The record of a return by `sysret`. -/
def SyscallState.logReturn (st : SyscallState) (p : Processor) : List SyscallReturn :=
  if p.index = none then
    ⟨st.entries st.thread, Regs.entry p.regs, p.regs.rdx, (p.sched.cpus ()).errno⟩ :: st.returns
  else st.returns

/-- What a step does. -/
def SyscallState.exec (st : SyscallState) : SyscallOp → Option SyscallState
  | .run regs mem =>
    if st.proc.index = none then some { st with proc := { st.proc with regs := regs, mem := mem } }
    else none
  | .syscall =>
    if st.proc.index = none then
      st.proc.syscall.map fun p => { st with
        proc := p
        entries := Function.update st.entries st.thread (Regs.entry st.proc.regs) }
    else none
  | .instr => st.proc.step.map fun p => { st with proc := p, returns := st.logReturn p }
  | .setErrno v =>
    if st.proc.index = some handlerIndex ∨ (st.proc.index = none ∧ ¬ st.proc.regs.user) then
      some { st with proc := st.proc.setErrno v }
    else none
  | .frame i v =>
    if st.proc.index = some handlerIndex ∧ i < 22 then
      some { st with proc := { st.proc with
        mem := Function.update st.proc.mem (st.proc.regs.rsp + BitVec.ofNat 64 (8 * i)) v } }
    else none
  | .scratch l =>
    if st.proc.index = some handlerIndex then
      some { st with proc := { st.proc with mem := scribble st.proc.mem st.proc.regs.rsp l } }
    else none
  | .bases fs gs =>
    if st.proc.index = some handlerIndex then
      some { st with proc := { st.proc with
        msrs := { st.proc.msrs with fsBase := fs, kernelGsBase := gs } } }
    else none
  | .ret regs =>
    if st.proc.index = some handlerIndex then
      some { st with proc := { st.proc with
        regs := { regs with
          rsp := st.proc.regs.rsp, rip := st.proc.address 31, cs := 8, ss := st.proc.regs.ss } } }
    else none
  | .interrupt l junkTask junk =>
    (st.proc.interrupt l junkTask junk).map fun p => { st with
      proc := p
      log := ((Traced.mk st.proc.sched st.log).exec
        (.reschedule () st.proc.regs.timerFrame st.proc.msrs junkTask junk)).log }
  | .create op =>
    let t := (Traced.mk st.proc.sched st.log).exec op
    some { st with proc := { st.proc with sched := t.sched }, log := t.log }

/-- The flags of user code are those that `sysret` can load. -/
def userFlags (v : Word) : Prop := v &&& 0x3c7fd7 ||| 2 = v

instance (v : Word) : Decidable (userFlags v) := inferInstanceAs (Decidable (_ = _))

/-- What is promised. Code outside of system calls does not jump into `syscall_main` and does not
change its privilege, and new threads do not start there. The stack of the kernel has 1024 words, and
half of them are enough for a handler or an interrupt. -/
def SyscallOp.Allowed (st : SyscallState) : SyscallOp → Prop
  | .run regs _ => regs.index st.proc.codeBase = none ∧ regs.user = st.proc.regs.user
  | .syscall => userFlags st.proc.regs.rflags
  | .scratch l => l.length ≤ 512
  | .interrupt l junkTask _ =>
    l.length ≤ 512 ∧ junkTask.status ≠ taskWaiting ∧ junkTask.status ≠ taskRunning
  | .create (.createTask ppid pageMap kernelMapping junk₁ junk₂) =>
    (SchedOp.createTask (C := Unit) ppid pageMap kernelMapping junk₁ junk₂).JunkOk
  | .create (.createThread _ rip cs highVma kernelStack mmapped envp argv junkTask junk) =>
    (junkTask.status ≠ taskWaiting ∧ junkTask.status ≠ taskRunning) ∧
      (newRegs junk.regsCur rip cs highVma kernelStack mmapped envp argv).index
        st.proc.codeBase = none
  | .create (.reschedule _ _ _ _ _) => False
  | _ => True

instance SyscallOp.decidableAllowed (st : SyscallState) (op : SyscallOp) : Decidable (op.Allowed st) :=
  match op with
  | .run regs _ => inferInstanceAs (Decidable
      (regs.index st.proc.codeBase = none ∧ regs.user = st.proc.regs.user))
  | .syscall => inferInstanceAs (Decidable (userFlags st.proc.regs.rflags))
  | .scratch l => inferInstanceAs (Decidable (l.length ≤ 512))
  | .interrupt l junkTask _ => inferInstanceAs (Decidable
      (l.length ≤ 512 ∧ junkTask.status ≠ taskWaiting ∧ junkTask.status ≠ taskRunning))
  | .create (.createTask _ _ _ junk _) => inferInstanceAs (Decidable
      (junk.status ≠ taskWaiting ∧ junk.status ≠ taskRunning))
  | .create (.createThread _ rip cs highVma kernelStack mmapped envp argv junkTask junk) =>
    inferInstanceAs (Decidable ((junkTask.status ≠ taskWaiting ∧ junkTask.status ≠ taskRunning) ∧
      (newRegs junk.regsCur rip cs highVma kernelStack mmapped envp argv).index
        st.proc.codeBase = none))
  | .create (.reschedule _ _ _ _ _) => .isFalse id
  | .instr | .setErrno _ | .frame _ _ | .bases _ _ | .ret _ => .isTrue trivial

/-- `reschedule` returns to the interrupted code. -/
def resumes : Outcome → Bool
  | .resume _ => true
  | .switchTask _ _ => false

/-- The condition: a thread enters the kernel with its `pid` in `rsp`, `set_errno` is called in
handlers with this value only, and no other thread is dispatched between `sti` and `cli`. -/
def SyscallOp.Sound (st : SyscallState) : SyscallOp → Prop
  | .syscall => st.proc.regs.rsp = BitVec.ofInt 64 (st.proc.sched.cpus ()).pid
  | .setErrno v => st.proc.index = some handlerIndex → v = (st.entries st.thread).rsp
  | .interrupt _ junkTask junk => st.proc.index ≠ none →
    resumes (reschedule st.proc.sched () st.proc.regs.timerFrame st.proc.msrs junkTask junk).2
  | _ => True

instance SyscallOp.decidableSound (st : SyscallState) (op : SyscallOp) : Decidable (op.Sound st) :=
  match op with
  | .syscall => inferInstanceAs (Decidable (_ = _))
  | .setErrno _ => inferInstanceAs (Decidable (_ = some handlerIndex → _ = _))
  | .interrupt _ _ _ => inferInstanceAs (Decidable (_ ≠ none → resumes _ = true))
  | .run _ _ | .instr | .frame _ _ | .scratch _ | .bases _ _ | .ret _ | .create _ => .isTrue trivial

/-- The processor is outside of system calls, no thread has been created yet, and the base of the
record is where `swapgs` expects it. -/
def SyscallState.Initial (st : SyscallState) : Prop :=
  (∃ junk cpus, st.proc.sched = Sched.init junk cpus) ∧ st.log = [] ∧ st.returns = [] ∧
    st.proc.index = none ∧
    (if st.proc.regs.user then st.proc.msrs.kernelGsBase else st.proc.msrs.gsBase) = st.proc.record

/-- The steps that are allowed and meet the condition. -/
def syscallStep : SyscallState → SyscallOp → SyscallState → Prop :=
  Guarded (fun st op => op.Allowed st ∧ op.Sound st) fun st op st' => st.exec op = some st'

end CrepOS.Interface
