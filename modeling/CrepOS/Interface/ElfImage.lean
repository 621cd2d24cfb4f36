import CrepOS.Model.Elf

/-!
# The image of a program

What a file in the ELF format describes, decoded from its bytes: the bytes of memory, the values that the program finds
on its stack, and the path of its interpreter. Where program headers disagree the last one counts. `FileBytes` is what
has to be known of the file system.
-/

set_option autoImplicit false

namespace CrepOS.Interface

open CrepOS.Library CrepOS.Model

variable {V P N : Type}

/-- The file system, in the state `v`, has the bytes under the node: a read inside of them returns them all, and changes
nothing. -/
structure FileBytes (ops : VfsOps V P N) (v : V) (node : N) (bytes : List Byte) : Prop where
  small : bytes.length < 2 ^ 31
  read : ∀ off cnt : ℕ, off + cnt ≤ bytes.length →
    ops.fsRead v node (toSigned off) (toSigned cnt) = (v, (cnt : ℤ), (bytes.drop off).take cnt)

/-- The bytes of a file as a memory. -/
def asMemory (bytes : List Byte) : Memory := fun a => (bytes[a]?).getD 0

/-- The program headers.
SRCLINE: kernel/lib/elf.hpp:36-45, 74-96 -/
def phdrsOf (bytes : List Byte) : List Phdr :=
  (List.range ((asMemory bytes).word 56 2)).map (phdrAt fun a => asMemory bytes ((asMemory bytes).word 32 8 + a))

/-- **A complete program**: its header is accepted, and the file has the headers, and the bytes of the segments and of
the paths. -/
structure Complete (bytes : List Byte) : Prop where
  header : 64 ≤ bytes.length
  accepted : elfStatus (asMemory bytes) ≠ -1
  phdrs : (asMemory bytes).word 32 8 + 56 * (asMemory bytes).word 56 2 ≤ bytes.length
  inside : ∀ ph ∈ phdrsOf bytes, ph.pType = 1 ∨ ph.pType = 3 → ph.pOffset + ph.pFilesz ≤ bytes.length

/-- The address that a segment is read to. -/
def segmentAddr (base : Word) (ph : Phdr) : ℕ := (BitVec.ofNat 64 ph.pVaddr + base).toNat

/-- The byte of the file that a program header puts at an address. -/
def segmentByte (base : Word) (bytes : List Byte) (a : ℕ) (ph : Phdr) : Option Byte :=
  if ph.pType = 1 ∧ segmentAddr base ph ≤ a ∧ a < segmentAddr base ph + ph.pFilesz then
    bytes[ph.pOffset + (a - segmentAddr base ph)]?
  else none

/-- The address of the program headers. -/
def phdrsAddr (base : Word) (ph : Phdr) : Option Word :=
  if ph.pType = 6 then some (base + BitVec.ofNat 64 ph.pVaddr) else none

/-- The path of the interpreter. -/
def interpOf (bytes : List Byte) (ph : Phdr) : Option LibString :=
  if ph.pType = 3 then some (((bytes.drop ph.pOffset).take ph.pFilesz).takeWhile (· ≠ 0)) else none

/-- The last header that says something. -/
def lastOf {A : Type} (f : Phdr → Option A) (phs : List Phdr) : Option A := phs.reverse.findSome? f

/-- The pages of a segment are mapped.
SRCLINE: kernel/lib/elf.cpp:55-58 -/
def mapSegment (c : ElfCall N) (ph : Phdr) (task : TaskVm) : Option TaskVm :=
  (mmapAt c.paging c.root c.kmm (fun _ _ => none) task (BitVec.ofNat 64 ph.pVaddr + c.base)
    (wrap (pageCnt (wrap (ph.pVaddr % pageSize + ph.pMemsz)) * pageSize)) 0x7 0xC 0).map Prod.fst

/-- The pages of the segments are mapped, in order. -/
def mapSegments (c : ElfCall N) (phs : List Phdr) (task : TaskVm) : Option TaskVm :=
  (phs.filter fun ph => ph.pType = 1).foldlM (fun task ph => mapSegment c ph task) task

/-- The kernel heap has no object that is large enough for the path of an interpreter. -/
def InterpTooLong (c : ElfCall N) (phs : List Phdr) : Prop :=
  c.wantsPath = true ∧ ∃ ph ∈ phs, ph.pType = 3 ∧ 262144 < wrap (ph.pFilesz + 1)

instance (c : ElfCall N) (phs : List Phdr) : Decidable (InterpTooLong c phs) := inferInstanceAs (Decidable (_ ∧ _))

/-- What some program headers of a file add to a load, with the pages `task` and the offset `off` of the descriptor. -/
def withHeaders (c : ElfCall N) (bytes : List Byte) (phs : List Phdr) (l : ElfLoad V N) (task : TaskVm) (off : ℕ) :
    ElfLoad V N where
  files := { l.files with
    mem := fun a => (lastOf (segmentByte c.base bytes a) phs).getD (l.files.mem a)
    cell := Function.update l.files.cell c.file.loc off }
  task := task
  aux := { l.aux with atPhdr := (lastOf (phdrsAddr c.base) phs).getD l.aux.atPhdr }
  ldPath := if c.wantsPath then (lastOf (interpOf bytes) phs).or l.ldPath else l.ldPath

/-- **The loaded program.** -/
def programOf (c : ElfCall N) (bytes : List Byte) (l : ElfLoad V N) (task : TaskVm) (off : ℕ) : ElfLoad V N where
  files := { l.files with
    mem := fun a => (lastOf (segmentByte c.base bytes a) (phdrsOf bytes)).getD (l.files.mem a)
    cell := Function.update l.files.cell c.file.loc off }
  task := task
  aux := {
    atEntry := c.base + BitVec.ofNat 64 ((asMemory bytes).word 24 8)
    atPhdr := (lastOf (phdrsAddr c.base) (phdrsOf bytes)).getD 0
    atPhent := 56
    atPhnum := BitVec.ofNat 64 ((asMemory bytes).word 56 2) }
  ldPath := if c.wantsPath then (lastOf (interpOf bytes) (phdrsOf bytes)).or l.ldPath else l.ldPath

end CrepOS.Interface
