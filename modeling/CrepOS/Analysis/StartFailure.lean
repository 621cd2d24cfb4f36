import CrepOS.Analysis.SchedExclusive
import CrepOS.Interface.StartFailure

/-!
# What `sched_task` leaves behind when it fails

Only the first exit comes before the interrupts are disabled and the new page table is used. Behind it `-1` is
returned for an interpreter that does not open, and then neither is undone; a file that `elf::file` rejects is
started all the same.
-/

set_option autoImplicit false

namespace CrepOS.Analysis

open CrepOS.Library CrepOS.Model CrepOS.Interface

variable {C V N : Type} [DecidableEq C] {ops : VfsOps V LibString N} {c : StartCall C} {s s' : StartState C V N}
  {r : ℤ}

/-! ## The interpreter that is used -/

/-- INTERNAL: a segment is read to its address.
SRCLINE: kernel/lib/elf.cpp:55-61 -/
theorem loadSegment_files {call : ElfCall N} {ph : Phdr} {l l' : ElfLoad V N} (hbase : call.base = 0)
    (hvaddr : ph.pVaddr < 2 ^ 64) (hrun : loadSegment ops call ph l = some l') :
    l'.files = ((l.files.seekSet ops call.file ph.pOffset).fdRead ops call.file ph.pVaddr ph.pFilesz).1 ∧
      l'.ldPath = l.ldPath := by
  have haddr : (BitVec.ofNat 64 ph.pVaddr + call.base).toNat = ph.pVaddr := by
    rw [hbase, BitVec.ofNat_eq_ofNat, BitVec.add_zero, BitVec.toNat_ofNat, Nat.mod_eq_of_lt hvaddr]
  rw [loadSegment, Option.map_eq_some_iff] at hrun
  obtain ⟨mapped, _, rfl⟩ := hrun
  refine ⟨?_, rfl⟩
  dsimp only
  rw [haddr]

/-- INTERNAL: one entry has the effect on the files that `interpWalk` says.
SRCLINE: kernel/lib/elf.cpp:33-63 -/
theorem loadEntry_walk {call : ElfCall N} {ph : Phdr} {phs : List Phdr} {l l' : ElfLoad V N}
    (hbase : call.base = 0) (hpath : call.wantsPath = true) (hvaddr : ph.pVaddr < 2 ^ 64)
    (hrun : loadEntry ops call ph l = some l') :
    interpWalk ops call.file (ph :: phs) (l.files, l.ldPath) = interpWalk ops call.file phs (l'.files, l'.ldPath) := by
  rw [interpWalk]
  rw [loadEntry] at hrun
  by_cases hinterp : ph.pType = 3
  · rw [if_pos hinterp, if_pos hpath] at hrun
    rw [if_pos hinterp]
    by_cases hsize : 262144 < wrap (ph.pFilesz + 1)
    · rw [if_pos hsize] at hrun
      cases hrun
    · rw [if_neg hsize] at hrun
      dsimp only at hrun
      rw [← Option.some.inj hrun]
  · rw [if_neg hinterp] at hrun ⊢
    by_cases hphdr : ph.pType = 6
    · rw [if_pos hphdr] at hrun
      cases hrun
      rw [if_neg (by omega)]
    · rw [if_neg hphdr] at hrun
      by_cases hload : ph.pType = 1
      · simp only [hload, ne_eq, not_true_eq_false, if_false] at hrun
        obtain ⟨hfiles, hldPath⟩ := loadSegment_files hbase hvaddr hrun
        rw [if_pos hload, hfiles, hldPath]
      · rw [if_pos hload] at hrun
        cases hrun
        rw [if_neg hload]

/-- INTERNAL: the loop over the program headers. The induction is on the headers.
SRCLINE: kernel/lib/elf.cpp:33-63 -/
theorem loadEntries_walk {call : ElfCall N} {phs : List Phdr} {l l' : ElfLoad V N} (hbase : call.base = 0)
    (hpath : call.wantsPath = true) (hvaddr : ∀ ph ∈ phs, ph.pVaddr < 2 ^ 64)
    (hrun : loadEntries ops call phs l = some l') :
    interpWalk ops call.file phs (l.files, l.ldPath) = (l'.files, l'.ldPath) := by
  induction phs generalizing l with
  | nil =>
    cases hrun
    rfl
  | cons ph phs ih =>
    rw [loadEntries] at hrun
    cases hentry : loadEntry ops call ph l with
    | none => simp [hentry] at hrun
    | some l₁ =>
      simp only [hentry] at hrun
      rw [loadEntry_walk hbase hpath (hvaddr ph List.mem_cons_self) hentry]
      exact ih (fun ph' hmem => hvaddr ph' (List.mem_cons_of_mem ph hmem)) hrun

/-- **The interpreter that is used is the one that the file names.**
SRCLINE: kernel/lib/elf.cpp:6-66 -/
theorem elfFile_named {call : ElfCall N} {l l' : ElfLoad V N} (hbase : call.base = 0)
    (hpath : call.wantsPath = true) (hnone : l.ldPath = none)
    (helf : elfStatus (readHeader ops call.file call.hdr l.files).2 ≠ -1) (hrun : elfFile ops call l = some l') :
    namedInterp ops call.file call.hdr call.phdr l.files = (l'.files, l'.ldPath) := by
  rw [elfFile] at hrun
  dsimp only at hrun
  rw [if_neg helf] at hrun
  by_cases hsize : 262144 < 56 * (readHeader ops call.file call.hdr l.files).2.word 56 2
  · rw [if_pos hsize] at hrun
    cases hrun
  · rw [if_neg hsize] at hrun
    split at hrun
    · cases hrun
    · rename_i l₁ hentries
      cases hrun
      have hwalk := loadEntries_walk hbase hpath (fun ph hmem => ?_) hentries
      · rw [hnone] at hwalk
        exact hwalk
      · obtain ⟨i, _, rfl⟩ := List.mem_map.mp hmem
        exact Memory.word_lt

/-! ## The exits -/

/-- INTERNAL: `file.status`. -/
theorem openFile_file (path : LibString) :
    (s.openFile ops c path).2 = (s.files.construct ops path 0 0).2 := rfl

/-- INTERNAL: opening a file changes neither the tasks nor the page tables.
SRCLINE: kernel/fs/fd.cpp:58-92 -/
theorem openFile_keeps (path : LibString) :
    LeftAlone s (s.openFile ops c path).1 ∧ (s.openFile ops c path).1.vm = s.vm := by
  refine ⟨⟨?_, rfl, rfl⟩, rfl⟩
  change (if (s.files.construct ops path 0 0).2.vfsNode.isNone then setErrno s.sched c.core 1043
    else s.sched).taskList = s.sched.taskList
  split <;> rfl

omit [DecidableEq C] in
/-- INTERNAL: the last part returns `0`.
SRCLINE: kernel/sched/scheduler.cpp:252-259 -/
theorem startThread_result {ppid : ℤ} {root entry : Word} {task : TaskVm}
    (hrun : s.startThread c ppid root task entry = some (s', r)) : r = 0 := by
  rw [StartState.startThread] at hrun
  dsimp only at hrun
  cases hstack : threadStack c root task with
  | none => simp [hstack] at hrun
  | some stack =>
    simp only [hstack] at hrun
    cases hrun
    rfl

/-- INTERNAL: when the part behind `elf::file` returns `-1`, the new page table is still in use, and the interrupts
are disabled.
SRCLINE: kernel/sched/scheduler.cpp:239-259 -/
theorem startLoaded_failed {ppid : ℤ} {root : Word} {l : ElfLoad V N}
    (hrun : s.startLoaded ops c ppid root l = some (s', -1)) :
    s'.active = s.active ∧ s'.interrupts = s.interrupts := by
  rw [StartState.startLoaded] at hrun
  dsimp only at hrun
  cases hpath : l.ldPath with
  | none =>
    simp only [hpath] at hrun
    exact absurd (startThread_result hrun) (by decide)
  | some path =>
    simp only [hpath] at hrun
    split at hrun
    · cases hrun
      exact ⟨rfl, rfl⟩
    · split at hrun
      · cases hrun
      · exact absurd (startThread_result hrun) (by decide)

/-- INTERNAL: `create_generic` takes the frame of the table from the allocator.
SRCLINE: kernel/mm/vmm.cpp:499-517 -/
theorem createGeneric_mem {vm vm' : Vm} {kernel root : Word} (hrun : createGeneric vm kernel = some (vm', root)) :
    root ∈ vm.free := by
  rw [createGeneric, Vm.calloc] at hrun
  cases hfree : vm.free with
  | nil => simp [hfree] at hrun
  | cons f fs =>
    simp only [hfree] at hrun
    cases hrun
    exact List.mem_cons_self

/-- **Behind the first exit nothing is undone**: if the file has been opened and the call returns `-1`, the new page
table is still in use, and the interrupts are disabled.
SRCLINE: kernel/sched/scheduler.cpp:220-260 -/
theorem schedTask_failed (hstatus : (s.files.construct ops c.path 0 0).2.status ≠ 0)
    (hrun : schedTask ops c s = some (s', -1)) : s'.active ∈ s.vm.free ∧ s'.interrupts = false := by
  rw [schedTask] at hrun
  dsimp only at hrun
  rw [openFile_file, if_neg hstatus] at hrun
  split at hrun
  · cases hrun
  · rename_i vm root hcreate
    split at hrun
    · cases hrun
    · obtain ⟨hactive, hinterrupts⟩ := startLoaded_failed hrun
      rw [(openFile_keeps c.path).2] at hcreate
      rw [hactive, hinterrupts]
      exact ⟨createGeneric_mem hcreate, rfl⟩

/-- INTERNAL: the first exit leaves everything alone.
SRCLINE: kernel/sched/scheduler.cpp:220-223 -/
theorem schedTask_notOpened (hstatus : (s.files.construct ops c.path 0 0).2.status = 0) :
    ∃ s', schedTask ops c s = some (s', -1) ∧ LeftAlone s s' := by
  refine ⟨(s.openFile ops c c.path).1, ?_, (openFile_keeps c.path).1⟩
  rw [schedTask]
  dsimp only
  rw [openFile_file, if_pos hstatus]

/-- **A failed start is clean exactly if the file itself does not open.**
SRCLINE: kernel/sched/scheduler.cpp:220-260 -/
theorem startClean_iff (hactive : s.active ∉ s.vm.free) :
    StartClean ops c s ↔ ((s.files.construct ops c.path 0 0).2.status = 0 ∨ ¬ StartFails ops c s) := by
  constructor
  · intro hclean
    by_cases hstatus : (s.files.construct ops c.path 0 0).2.status = 0
    · exact Or.inl hstatus
    · refine Or.inr fun hfails => hactive ?_
      obtain ⟨s', hrun, halone⟩ := hclean hfails
      rw [← halone.active]
      exact (schedTask_failed hstatus hrun).1
  · intro h hfails
    cases h with
    | inl hstatus => exact schedTask_notOpened hstatus
    | inr hnot => exact absurd hfails hnot

/-! ## A file that is not a program -/

/-- The path `/sh`. -/
def scriptPath : LibString := [0x2f, 0x73, 0x68]

/-- A file system with one file, whose bytes are the state. -/
def scriptFile : VfsOps (List Byte) LibString Unit where
  searchAbsolute _ path := if path = scriptPath then some () else none
  create v _ := v
  remove v _ := v
  absolutePath _ _ := scriptPath
  stSize v _ := v.length
  fsOpen v _ _ := (v, 0)
  fsRead v _ loc cnt := (v, cnt, (v.drop loc.toNat).take cnt.toNat)
  fsWrite v _ _ _ _ := (v, -1)

/-- Process 0 is running, and the file contains `#!`. -/
def scriptState : StartState Unit (List Byte) Unit where
  sched := ⟨⟨[0], fun _ => zeroTask⟩, 1, 1, fun _ => ⟨0, 0, 0, 0x1000⟩⟩
  files := ⟨[0x23, 0x21], LibMap.empty, fun _ => 0, 0, fun _ => ⟨fun _ => false, 0⟩, fun _ => 0⟩
  vm := ⟨fun _ _ => 0, [0x2000]⟩
  active := 0x1000
  interrupts := true

/-- The call of `kernel_thread`, for that file. -/
def scriptCall : StartCall Unit where
  core := ()
  path := scriptPath
  cs := 0x23
  argv := []
  envp := []
  paging := .pml4
  kernel := 0x1000
  kmm := ⟨fun _ => 0, fun _ => 0⟩
  kernelStack := 0x5000
  hdr := fun _ => 0
  phdr := fun _ => 0
  aux := ⟨0, 0, 0, 0⟩
  ldHdr := fun _ => 0
  ldPhdr := fun _ => 0
  ldAux := ⟨0, 0, 0, 0⟩
  placeholder := zeroTask
  newTask := zeroTask
  newThread := zeroThread

theorem script_startClean_iff : StartClean scriptFile scriptCall scriptState ↔
    ((scriptState.files.construct scriptFile scriptPath 0 0).2.status = 0 ∨
      ¬ StartFails scriptFile scriptCall scriptState) :=
  startClean_iff (by decide)

/-- The header checks reject the file, but it is started. -/
theorem script_started : ¬ ∀ (ops : VfsOps (List Byte) LibString Unit) (c : StartCall Unit)
    (s : StartState Unit (List Byte) Unit), s.active ∉ s.vm.free → StartClean ops c s := by
  intro h
  have hfree : scriptState.active ∉ scriptState.vm.free := by decide
  have hstatus : (scriptState.files.construct scriptFile scriptCall.path 0 0).2.status ≠ 0 := by decide
  have hfails : StartFails scriptFile scriptCall scriptState := .rejected rfl hstatus (by decide)
  obtain ⟨s', hrun, halone⟩ := h scriptFile scriptCall scriptState hfree hfails
  have hmem := (schedTask_failed hstatus hrun).1
  rw [halone.active] at hmem
  exact hfree hmem

end CrepOS.Analysis
