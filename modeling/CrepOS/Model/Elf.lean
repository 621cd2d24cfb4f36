import CrepOS.Library.ByteBuffers
import CrepOS.Model.Fd
import CrepOS.Model.LibString
import CrepOS.Model.MmapTables
import CrepOS.Model.UserStack

/-!
# Loading a program, `lib/elf.cpp`

The header, the program headers and the path of the interpreter are read into objects of the kernel, which are
memories of their own here; the segments are read into the memory of `FdState`. What such an object contains
before the read, which may fail, is an argument. The largest object of the kernel heap has 262144 bytes, and
reading into a larger one is a fault: the call has no result.
-/

set_option autoImplicit false

namespace CrepOS.Model

open CrepOS.Library

variable {V N : Type}

/-- `fd::read` into an object of the kernel, which contains `buffer`. -/
def FdState.readObject (ops : VfsOps V LibString N) (st : FdState V N) (fd : Fd N) (buffer : Memory) (cnt : ℕ) :
    FdState V N × Memory :=
  let r := ({ st with mem := buffer } : FdState V N).fdRead ops fd 0 cnt
  ({ r.1 with mem := st.mem }, r.1.mem)

/-- `fd::seek` with `seek_set`. -/
def FdState.seekSet (ops : VfsOps V LibString N) (st : FdState V N) (fd : Fd N) (off : ℕ) : FdState V N :=
  (st.fdSeek ops fd (toSigned off) 3).1

/-- `elf_status` of the header.
SRCLINE: kernel/lib/elf.cpp:10-18, kernel/lib/elf.hpp:10-22 -/
def elfStatus (hdr : Memory) : ℤ :=
  if hdr.word 0 4 ≠ 0x464C457F then -1
  else if hdr 7 ≠ 0x0 ∧ hdr 7 ≠ 0x3 then -1
  else if hdr 5 ≠ 0x1 then -1
  else if hdr 4 ≠ 0x2 then -1
  else if hdr.word 18 2 ≠ 0x3e ∧ hdr.word 18 2 ≠ 0 then -1
  else 0

/-- The members of `elf64_phdr` that are read.
SRCLINE: kernel/lib/elf.hpp:36-45 -/
structure Phdr where
  pType : ℕ
  pOffset : ℕ
  pVaddr : ℕ
  pFilesz : ℕ
  pMemsz : ℕ

/-- `phdr[i]`. -/
def phdrAt (phdr : Memory) (i : ℕ) : Phdr where
  pType := phdr.word (56 * i) 4
  pOffset := phdr.word (56 * i + 8) 8
  pVaddr := phdr.word (56 * i + 16) 8
  pFilesz := phdr.word (56 * i + 32) 8
  pMemsz := phdr.word (56 * i + 40) 8

/-- What the constructor of `file` reads and writes. -/
structure ElfLoad (V N : Type) where
  files : FdState V N
  task : TaskVm
  aux : Aux
  ldPath : Option LibString

/-- The arguments of the constructor, with the frame `root` of `page_map`, what `kmm` returns, and whether
`ld_path` is not `NULL`. `hdr` and `phdr` are the objects before they are read. -/
structure ElfCall (N : Type) where
  paging : Paging
  root : Word
  kmm : Kmm
  file : Fd N
  base : Word
  wantsPath : Bool
  hdr : Memory
  phdr : Memory

/-- The path of the interpreter.
SRCLINE: kernel/lib/elf.cpp:34-48 -/
def readInterp (ops : VfsOps V LibString N) (file : Fd N) (ph : Phdr) (files : FdState V N) :
    FdState V N × LibString :=
  let r := (files.seekSet ops file ph.pOffset).readObject ops file (fun _ => 0) ph.pFilesz
  (r.1, (r.2.bytes 0 (ph.pFilesz + 1)).takeWhile (· ≠ 0))

/-- A segment is mapped and read.
SRCLINE: kernel/lib/elf.cpp:55-61 -/
def loadSegment (ops : VfsOps V LibString N) (c : ElfCall N) (ph : Phdr) (l : ElfLoad V N) :
    Option (ElfLoad V N) :=
  let misalignment := ph.pVaddr % pageSize
  let cnt := pageCnt (wrap (misalignment + ph.pMemsz))
  let addr := BitVec.ofNat 64 ph.pVaddr + c.base
  let files := ((l.files.seekSet ops c.file ph.pOffset).fdRead ops c.file addr.toNat ph.pFilesz).1
  (mmapAt c.paging c.root c.kmm (fun _ _ => none) l.task addr (wrap (cnt * pageSize)) 0x7 0xC 0).map fun r =>
    { l with files := files, task := r.1 }

/-- One iteration of the loop over the program headers.
SRCLINE: kernel/lib/elf.cpp:33-63 -/
def loadEntry (ops : VfsOps V LibString N) (c : ElfCall N) (ph : Phdr) (l : ElfLoad V N) :
    Option (ElfLoad V N) :=
  if ph.pType = 3 then
    if c.wantsPath then
      if 262144 < wrap (ph.pFilesz + 1) then none
      else
        let (files, path) := readInterp ops c.file ph l.files
        some { l with files := files, ldPath := some path }
    else some l
  else if ph.pType = 6 then some { l with aux := { l.aux with atPhdr := c.base + BitVec.ofNat 64 ph.pVaddr } }
  else if ph.pType ≠ 1 then some l
  else loadSegment ops c ph l

/-- The loop over the program headers. -/
def loadEntries (ops : VfsOps V LibString N) (c : ElfCall N) : List Phdr → ElfLoad V N → Option (ElfLoad V N)
  | [], l => some l
  | ph :: phs, l =>
    match loadEntry ops c ph l with
    | none => none
    | some l => loadEntries ops c phs l

/-- The header.
SRCLINE: kernel/lib/elf.cpp:8 -/
def readHeader (ops : VfsOps V LibString N) (file : Fd N) (hdr : Memory) (files : FdState V N) :
    FdState V N × Memory :=
  files.readObject ops file hdr 64

/-- The program headers.
SRCLINE: kernel/lib/elf.cpp:24-27 -/
def readPhdrs (ops : VfsOps V LibString N) (file : Fd N) (hdr phdr : Memory) (files : FdState V N) :
    FdState V N × List Phdr :=
  let r := (files.seekSet ops file (hdr.word 32 8)).readObject ops file phdr (56 * hdr.word 56 2)
  (r.1, (List.range (hdr.word 56 2)).map (phdrAt r.2))

/-- The constructor `file::file`. A file that it rejects changes nothing.
SRCLINE: kernel/lib/elf.cpp:6-66 -/
def elfFile (ops : VfsOps V LibString N) (c : ElfCall N) (l : ElfLoad V N) : Option (ElfLoad V N) :=
  let (files, hdr) := readHeader ops c.file c.hdr l.files
  if elfStatus hdr = -1 then some { l with files := files }
  else if 262144 < 56 * hdr.word 56 2 then none
  else
    let (files, phdrs) := readPhdrs ops c.file hdr c.phdr files
    let aux := { l.aux with atPhdr := 0, atPhent := 56, atPhnum := BitVec.ofNat 64 (hdr.word 56 2) }
    match loadEntries ops c phdrs { l with files := files, aux := aux } with
    | none => none
    | some l => some { l with aux := { l.aux with atEntry := c.base + BitVec.ofNat 64 (hdr.word 24 8) } }

end CrepOS.Model
