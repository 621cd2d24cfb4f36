import CrepOS.Model.Elf

/-!
# Starting a program, `sched::sched_task`

The state is that of the processor which makes the call: the page table that it uses, and whether it takes
interrupts. `fs::fd` sets `errno` when it finds no node. Locals that are not initialised are arguments; so are the
frames of the kernel stack. The texts that `create_thread` copies to the user stack are left out, as in
`CrepOS.Model.Scheduler`.
-/

set_option autoImplicit false

namespace CrepOS.Model

open CrepOS.Library

/-- The state of the system, as one processor sees it. -/
structure StartState (C V N : Type) where
  sched : Sched C
  files : FdState V N
  vm : Vm
  active : Word
  interrupts : Bool

/-- The arguments of `sched_task`: the processor, the program and its texts' lengths, and then the paging mode, the
frame of `kernel_mapping`, what the allocators return and what the uninitialised locals contain. -/
structure StartCall (C : Type) where
  core : C
  path : LibString
  cs : BitVec 16
  argv : List ℕ
  envp : List ℕ
  paging : Paging
  kernel : Word
  kmm : Kmm
  kernelStack : Word
  hdr : Memory
  phdr : Memory
  aux : Aux
  ldHdr : Memory
  ldPhdr : Memory
  ldAux : Aux
  placeholder : Task
  newTask : Task
  newThread : Thread

/-- `vmm::high_vma`, which `main` sets for five levels.
SRCLINE: kernel/main.cpp:52-56 -/
def Paging.highVma : Paging → Word
  | .pml4 => CrepOS.Model.highVma
  | .pml5 => 0xff00000000000000

variable {C V N : Type} [DecidableEq C]

/-- `fs::fd file(path, 0, 0)`, which sets `enoent` when it finds no node.
SRCLINE: kernel/fs/fd.cpp:58-92 -/
def StartState.openFile (ops : VfsOps V LibString N) (c : StartCall C) (s : StartState C V N) (path : LibString) :
    StartState C V N × Fd N :=
  let (files, file) := s.files.construct ops path 0 0
  let sched := if file.vfsNode.isNone then setErrno s.sched c.core 1043 else s.sched
  ({ s with files := files, sched := sched }, file)

/-- The user stack of the new thread, if it has one.
SRCLINE: kernel/sched/scheduler.cpp:53 -/
def threadStack (c : StartCall C) (root : Word) (task : TaskVm) : Option (TaskVm × Word) :=
  if c.cs &&& 3 ≠ 0 then mmapAt c.paging root c.kmm (fun _ _ => none) task 0 0x3000 0x7 0x8 0
  else some (task, 0)

/-- The last part of `sched_task`.
SRCLINE: kernel/sched/scheduler.cpp:252-259 -/
def StartState.startThread (c : StartCall C) (ppid : ℤ) (root : Word) (task : TaskVm) (entry : Word)
    (s : StartState C V N) : Option (StartState C V N × ℤ) :=
  let (sched, pid) := createTask s.sched ppid (some root) c.kernel c.placeholder c.newTask
  match threadStack c root task with
  | none => none
  | some (task, mmapped) =>
    let (sched, _) := createThread sched pid entry c.cs c.paging.highVma c.kernelStack mmapped c.envp c.argv c.placeholder
      c.newThread
    some ({ s with
      sched := sched
      vm := task.vm
      active := (sched.cpus c.core).pageMap
      interrupts := true }, 0)

/-- The part of `sched_task` from the interpreter on. `l` is what `elf::file` left.
SRCLINE: kernel/sched/scheduler.cpp:239-259 -/
def StartState.startLoaded (ops : VfsOps V LibString N) (c : StartCall C) (ppid : ℤ) (root : Word)
    (l : ElfLoad V N) (s : StartState C V N) : Option (StartState C V N × ℤ) :=
  let s := { s with files := l.files, vm := l.task.vm }
  match l.ldPath with
  | none => s.startThread c ppid root l.task l.aux.atEntry
  | some ldPath =>
    let (s, ldFile) := s.openFile ops c ldPath
    if ldFile.status = 0 then some (s, -1)
    else
      match elfFile ops ⟨c.paging, root, c.kmm, ldFile, 0x40000000, false, c.ldHdr, c.ldPhdr⟩
          ⟨s.files, l.task, c.ldAux, none⟩ with
      | none => none
      | some ld => ({ s with files := ld.files, vm := ld.task.vm } : StartState C V N).startThread c ppid root ld.task
          ld.aux.atEntry

/-- `sched_task`.
SRCLINE: kernel/sched/scheduler.cpp:220-260 -/
def schedTask (ops : VfsOps V LibString N) (c : StartCall C) (s : StartState C V N) :
    Option (StartState C V N × ℤ) :=
  let (s, file) := s.openFile ops c c.path
  if file.status = 0 then some (s, -1)
  else
    let ppid := (s.sched.cpus c.core).pid
    match createGeneric s.vm c.kernel with
    | none => none
    | some (vm, root) =>
      let s := { s with interrupts := false, vm := vm, active := root }
      match elfFile ops ⟨c.paging, root, c.kmm, file, 0, true, c.hdr, c.phdr⟩
          ⟨s.files, ⟨vm, none, 0⟩, c.aux, none⟩ with
      | none => none
      | some l => s.startLoaded ops c ppid root l

end CrepOS.Model
