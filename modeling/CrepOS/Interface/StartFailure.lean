import CrepOS.Model.SchedTask

/-!
# Programs that cannot be started

Which file contents make `sched_task` fail is said without the page tables: by the files alone, as they are opened
and read one after the other.
-/

set_option autoImplicit false

namespace CrepOS.Interface

open CrepOS.Library CrepOS.Model

variable {C V N : Type} [DecidableEq C]

/-- The file system after the segments and the paths of interpreters have been read, and the path of the last one. -/
def interpWalk (ops : VfsOps V LibString N) (file : Fd N) :
    List Phdr → FdState V N × Option LibString → FdState V N × Option LibString
  | [], r => r
  | ph :: phs, r =>
    if ph.pType = 3 then
      interpWalk ops file phs ((readInterp ops file ph r.1).1, some (readInterp ops file ph r.1).2)
    else if ph.pType = 1 then
      interpWalk ops file phs (((r.1.seekSet ops file ph.pOffset).fdRead ops file ph.pVaddr ph.pFilesz).1, r.2)
    else interpWalk ops file phs r

/-- The interpreter that the file names, and the file system after that. -/
def namedInterp (ops : VfsOps V LibString N) (file : Fd N) (hdr phdr : Memory) (files : FdState V N) :
    FdState V N × Option LibString :=
  let r := readHeader ops file hdr files
  let r := readPhdrs ops file r.2 phdr r.1
  interpWalk ops file r.2 (r.1, none)

/-- **The program cannot be started.** -/
inductive StartFails (ops : VfsOps V LibString N) (c : StartCall C) (s : StartState C V N) : Prop
  | notOpened {files : FdState V N} {file : Fd N} (hopen : s.files.construct ops c.path 0 0 = (files, file))
      (hstatus : file.status = 0)
  | rejected {files : FdState V N} {file : Fd N} (hopen : s.files.construct ops c.path 0 0 = (files, file))
      (hstatus : file.status ≠ 0) (helf : elfStatus (readHeader ops file c.hdr files).2 = -1)
  | interpNotOpened {files files₁ files₂ : FdState V N} {file ldFile : Fd N} {path : LibString}
      (hopen : s.files.construct ops c.path 0 0 = (files, file)) (hstatus : file.status ≠ 0)
      (helf : elfStatus (readHeader ops file c.hdr files).2 ≠ -1)
      (hnamed : namedInterp ops file c.hdr c.phdr files = (files₁, some path))
      (hld : files₁.construct ops path 0 0 = (files₂, ldFile)) (hldStatus : ldFile.status = 0)
  | interpRejected {files files₁ files₂ : FdState V N} {file ldFile : Fd N} {path : LibString}
      (hopen : s.files.construct ops c.path 0 0 = (files, file)) (hstatus : file.status ≠ 0)
      (helf : elfStatus (readHeader ops file c.hdr files).2 ≠ -1)
      (hnamed : namedInterp ops file c.hdr c.phdr files = (files₁, some path))
      (hld : files₁.construct ops path 0 0 = (files₂, ldFile)) (hldStatus : ldFile.status ≠ 0)
      (hldElf : elfStatus (readHeader ops ldFile c.ldHdr files₂).2 = -1)

/-- The tasks with their threads, the active page table and the interrupt flag are as before. -/
structure LeftAlone (s s' : StartState C V N) : Prop where
  tasks : s'.sched.taskList = s.sched.taskList
  active : s'.active = s.active
  interrupts : s'.interrupts = s.interrupts

/-- **A failed start is clean**: the call returns `-1` and leaves all that alone. -/
def StartClean (ops : VfsOps V LibString N) (c : StartCall C) (s : StartState C V N) : Prop :=
  StartFails ops c s → ∃ s', schedTask ops c s = some (s', -1) ∧ LeftAlone s s'

end CrepOS.Interface
