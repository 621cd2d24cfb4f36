import CrepOS.Model.Scheduler

/-!
# The entry of system calls, `int/syscall.asm`

`syscallMain` is the listing of `syscall_main`, with `cmp` and `jae` as one instruction, and
`Processor.step` executes one of its instructions. The address of instruction `k` is `k` behind the
address of the first one, and the code of a handler is at the address behind the last one. Memory is
made of words; only the stack of the kernel is looked at.

The record at `gs` is the `smp::cpu` of the processor. `core_local` takes the word at `gs:0` for the
index of the record, and that is 0 in every record, so this is the processor whose record is the first
one. `errno`, `pid` and `tid` are in the state of the scheduler.
-/

set_option autoImplicit false

namespace CrepOS.Model

/-! ## Instructions -/

/-- The general registers. -/
inductive Gpr
  | rax | rbx | rcx | rdx | rbp | rdi | rsi | r8 | r9 | r10 | r11 | r12 | r13 | r14 | r15 | rsp
  deriving DecidableEq

def Regs.get (r : Regs) : Gpr → Word
  | .rax => r.rax
  | .rbx => r.rbx
  | .rcx => r.rcx
  | .rdx => r.rdx
  | .rbp => r.rbp
  | .rdi => r.rdi
  | .rsi => r.rsi
  | .r8 => r.r8
  | .r9 => r.r9
  | .r10 => r.r10
  | .r11 => r.r11
  | .r12 => r.r12
  | .r13 => r.r13
  | .r14 => r.r14
  | .r15 => r.r15
  | .rsp => r.rsp

def Regs.set (r : Regs) (g : Gpr) (v : Word) : Regs :=
  match g with
  | .rax => { r with rax := v }
  | .rbx => { r with rbx := v }
  | .rcx => { r with rcx := v }
  | .rdx => { r with rdx := v }
  | .rbp => { r with rbp := v }
  | .rdi => { r with rdi := v }
  | .rsi => { r with rsi := v }
  | .r8 => { r with r8 := v }
  | .r9 => { r with r9 := v }
  | .r10 => { r with r10 := v }
  | .r11 => { r with r11 := v }
  | .r12 => { r with r12 := v }
  | .r13 => { r with r13 := v }
  | .r14 => { r with r14 := v }
  | .r15 => { r with r15 := v }
  | .rsp => { r with rsp := v }

/-- The instructions that `syscall_main` is made of. -/
inductive Instr
  /-- `swapgs` -/
  | swapgs
  /-- `mov qword [gs:off], r` -/
  | movToGs (off : ℕ) (r : Gpr)
  /-- `mov r, qword [gs:off]` -/
  | movFromGs (r : Gpr) (off : ℕ)
  /-- `mov dst, src` -/
  | mov (dst src : Gpr)
  | push (r : Gpr)
  | pushImm (v : Word)
  /-- `push qword [gs:off]` -/
  | pushGs (off : ℕ)
  | pop (r : Gpr)
  /-- `add rsp, n` -/
  | addRsp (n : Word)
  | sti
  | cli
  /-- `cmp rax, cnt` and `jae target` -/
  | cmpJae (cnt : Word) (target : ℕ)
  /-- `call [syscall_list + rax * 8]` -/
  | callHandler
  | sysret
  deriving DecidableEq

/-- `pushall`. -/
def pushall : List Instr :=
  [.push .rax, .push .rbx, .push .rcx, .push .rdx, .push .rbp, .push .rdi, .push .rsi, .push .r8,
    .push .r9, .push .r10, .push .r11, .push .r12, .push .r13, .push .r14, .push .r15]

/-- `popall`. -/
def popall : List Instr :=
  [.pop .r15, .pop .r14, .pop .r13, .pop .r12, .pop .r11, .pop .r10, .pop .r9, .pop .r8, .pop .rsi,
    .pop .rdi, .pop .rbp, .pop .rdx, .pop .rcx, .pop .rbx, .pop .rax]

/-- `syscall_cnt`. -/
abbrev syscallCnt : Word := 14

/-- `syscall_main`; `.leave` is instruction 31.
SRCLINE: kernel/int/syscall.asm:79-122 -/
def syscallMain : List Instr :=
  [.swapgs, .movToGs 16 .rsp, .movFromGs .rsp 8, .sti, .push .rcx, .push .r11, .pushImm 0x1b,
    .pushGs 16, .push .r11, .pushImm 0x23, .push .rcx, .pushImm 0, .pushImm 0] ++ pushall ++
  [.cmpJae syscallCnt 31, .mov .rdi .rsp, .callHandler] ++ popall ++
  [.addRsp 56, .pop .r11, .pop .rcx, .cli, .movFromGs .rdx 24, .movFromGs .rsp 16, .swapgs, .sysret]

/-- The place of the handler in the numbering of the instructions. -/
abbrev handlerIndex : ℕ := 54

/-! ## The processor -/

/-- A processor, with its record, the kernel stack and the scheduler. `codeBase` is the address of
`syscall_main` and `record` the address of the record. -/
structure Processor where
  regs : Regs
  msrs : Msrs
  mem : Word → Word
  sched : Sched Unit
  userStack : Word
  kernelStack : Word
  codeBase : Word
  record : Word

/-- The number of the instruction at which a frame is, if it is in `syscall_main` or in a handler. -/
def Regs.index (r : Regs) (codeBase : Word) : Option ℕ :=
  if r.cs = 8 ∧ (r.rip - codeBase).toNat ≤ handlerIndex then some (r.rip - codeBase).toNat else none

def Processor.index (p : Processor) : Option ℕ := p.regs.index p.codeBase

/-- The address of instruction `k`. -/
def Processor.address (p : Processor) (k : ℕ) : Word := p.codeBase + BitVec.ofNat 64 k

/-- A read of the record.
SRCLINE: kernel/sched/smp.hpp:11-19 -/
def Processor.gsRead (p : Processor) (off : ℕ) : Option Word :=
  if p.msrs.gsBase = p.record then
    match off with
    | 0 => some p.userStack
    | 8 => some p.kernelStack
    | 16 => some (p.sched.cpus ()).errno
    | 24 => some (BitVec.ofInt 64 (p.sched.cpus ()).pid)
    | 32 => some (BitVec.ofInt 64 (p.sched.cpus ()).tid)
    | _ => none
  else none

/-- `set_errno`, and a write to the record at the same place.
SRCLINE: kernel/lib/cpu.cpp:54-57 -/
def Processor.setErrno (p : Processor) (v : Word) : Processor :=
  { p with sched := { p.sched with cpus := fun _ => { p.sched.cpus () with errno := v } } }

/-- A write to the record. -/
def Processor.gsWrite (p : Processor) (off : ℕ) (v : Word) : Option Processor :=
  if p.msrs.gsBase = p.record then
    match off with
    | 0 => some { p with userStack := v }
    | 8 => some { p with kernelStack := v }
    | 16 => some (p.setErrno v)
    | _ => none
  else none

/-- A push. -/
def Processor.pushWord (p : Processor) (v : Word) : Processor :=
  { p with
    regs := { p.regs with rsp := p.regs.rsp - 8 }
    mem := Function.update p.mem (p.regs.rsp - 8) v }

/-- The next instruction, or another one. -/
def Processor.jump (p : Processor) (k : ℕ) : Processor :=
  { p with regs := { p.regs with rip := p.address k } }

/-- What instruction `i` with the number `k` does. `sysret` keeps the flags of a mask and sets bit 1;
the selectors are those of `msr_star`.
SRCLINE: kernel/lib/cpu.cpp:21-23 -/
def Processor.execute (p : Processor) (k : ℕ) : Instr → Option Processor
  | .swapgs => some ({ p with msrs := p.msrs.swapgs }.jump (k + 1))
  | .movToGs off r => (p.gsWrite off (p.regs.get r)).map (·.jump (k + 1))
  | .movFromGs r off =>
    (p.gsRead off).map fun v => { p with regs := p.regs.set r v }.jump (k + 1)
  | .mov dst src => some ({ p with regs := p.regs.set dst (p.regs.get src) }.jump (k + 1))
  | .push r => some ((p.pushWord (p.regs.get r)).jump (k + 1))
  | .pushImm v => some ((p.pushWord v).jump (k + 1))
  | .pushGs off => (p.gsRead off).map fun v => (p.pushWord v).jump (k + 1)
  | .pop r =>
    some ({ p with
      regs := { p.regs with rsp := p.regs.rsp + 8 }.set r (p.mem p.regs.rsp) }.jump (k + 1))
  | .addRsp n => some ({ p with regs := { p.regs with rsp := p.regs.rsp + n } }.jump (k + 1))
  | .sti => some ({ p with regs := { p.regs with rflags := p.regs.rflags ||| 0x200 } }.jump (k + 1))
  | .cli =>
    some ({ p with regs := { p.regs with rflags := p.regs.rflags &&& ~~~0x200 } }.jump (k + 1))
  | .cmpJae cnt target => some (p.jump (if cnt ≤ p.regs.rax then target else k + 1))
  | .callHandler => some (p.jump handlerIndex)
  | .sysret => some { p with
      regs := { p.regs with
        rip := p.regs.rcx
        rflags := p.regs.r11 &&& 0x3c7fd7 ||| 2
        cs := 0x23
        ss := 0x1b } }

/-- One instruction of `syscall_main`. -/
def Processor.step (p : Processor) : Option Processor :=
  match p.index with
  | none => none
  | some k =>
    match syscallMain[k]? with
    | none => none
    | some i => p.execute k i

/-- The instruction `syscall` in user code; `msr_sfmask` clears all flags but bit 1.
SRCLINE: kernel/lib/cpu.cpp:21-23 -/
def Processor.syscall (p : Processor) : Option Processor :=
  if p.regs.user then some { p with
    regs := { p.regs with
      rcx := p.regs.rip
      r11 := p.regs.rflags
      rip := p.codeBase
      rflags := p.regs.rflags &&& ~~~0xfffffffd
      cs := 8
      ss := 0x10 } }
  else none

/-- The words below `rsp` are overwritten with `l`. -/
def scribble (m : Word → Word) (rsp : Word) : List Word → Word → Word
  | [] => m
  | v :: l => scribble (Function.update m (rsp - 8) v) (rsp - 8) l

/-- The interrupt flag. -/
def Regs.interruptible (r : Regs) : Bool := r.rflags.getLsbD 9

/-- The frame that the timer interrupt makes. -/
def Regs.timerFrame (r : Regs) : Regs := { r with isrNumber := 32, errCode := 0 }

/-- A timer interrupt. In kernel code it uses the stack below `rsp`, for the words `l`; in user code
another stack.
SRCLINE: kernel/int/isr.asm:43-60, kernel/sched/sched.asm:23-30 -/
def Processor.interrupt (p : Processor) (l : List Word) (junkTask : Task) (junk : Thread) :
    Option Processor :=
  if p.regs.interruptible then
    let mem := if p.regs.user then p.mem else scribble p.mem p.regs.rsp l
    let r := reschedule p.sched () p.regs.timerFrame p.msrs junkTask junk
    match r.2 with
    | .resume m => some { p with sched := r.1, msrs := m, mem := mem }
    | .switchTask regs m => some { p with sched := r.1, msrs := m, mem := mem, regs := regs }
  else none

end CrepOS.Model
