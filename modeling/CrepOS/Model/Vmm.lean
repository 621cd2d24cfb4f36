import Mathlib.Data.Int.ModEq
import Mathlib.Tactic.Common

/-!
# Page tables, `mm/vmm.cpp` and `mm/vmm.hpp`

A page table is named by the physical address of its frame and read through the direct map at
`high_vma`, so the memory of the model gives, for a frame and an index, the 64-bit entry there. The
frames that the next calls of `pmm::alloc(1)` and `pmm::calloc(1)` return are a list; a call that
finds it empty has no result. The `pmle` objects that the source creates on the heap only wrap
pointers to entries and are not kept, and the locks and the TLB flush are left out.

`Paging` tells the two subclasses of `pmlx_table` apart. Their code is the same from the third level
on, but for one operator, so it is written once (`mapPml3`) with that operator as a parameter.
-/

set_option autoImplicit false

namespace CrepOS.Model

/-- A 64-bit word. -/
abbrev Word := BitVec 64

/-- An index into a page table. -/
abbrev Index := BitVec 9

/-- The page tables and the frames the allocator will return next. -/
structure Vm where
  mem : Word → Index → Word
  free : List Word

/-- `raw[idx] = e` for the table in frame `t`. -/
def Vm.set (s : Vm) (t : Word) (i : Index) (e : Word) : Vm :=
  { s with mem := Function.update s.mem t (Function.update (s.mem t) i e) }

/-- `pmm::alloc(1)`: the next frame, with whatever it contains.
SRCLINE: kernel/mm/pmm.cpp:141-154 -/
def Vm.alloc (s : Vm) : Option (Word × Vm) :=
  match s.free with
  | [] => none
  | f :: fs => some (f, { s with free := fs })

/-- `pmm::calloc(1)`: the next frame, filled with zeros.
SRCLINE: kernel/mm/pmm.cpp:156-160 -/
def Vm.calloc (s : Vm) : Option (Word × Vm) :=
  match s.free with
  | [] => none
  | f :: fs => some (f, { mem := Function.update s.mem f fun _ => 0, free := fs })

/-! ## Entries -/

/-- `compute_indices`: the index into the table of level `n + 1` (`pml1_idx` for `n = 0`, up to
`pml5_idx` for `n = 4`).
SRCLINE: kernel/mm/vmm.hpp:227-232, 279-285 -/
def tableIndex (n : ℕ) (vaddr : Word) : Index := (vaddr >>> (12 + 9 * n) &&& 0x1ff#64).setWidth 9

/-- `entry & ~(0xfff)`: the frame a non-leaf entry points to.
SRCLINE: kernel/mm/vmm.cpp:136 -/
def frameOf (e : Word) : Word := e &&& ~~~0xfff#64

/-- `is_present`.
SRCLINE: kernel/mm/vmm.hpp:51, 96 -/
def isPresent (e : Word) : Bool := (e &&& 1#64) != 0

/-- `is_huge` of a third- or second-level entry.
SRCLINE: kernel/mm/vmm.hpp:58, 139, 156 -/
def isHuge (e : Word) : Bool := (e &&& 0x80#64) != 0

/-- `pmle::set_bit`.
SRCLINE: kernel/mm/vmm.hpp:81-87 -/
def setBit (e bit : Word) (value : Bool) : Word := if value then e ||| bit else e &&& ~~~bit

/-- `pmle::set_pa`, for an entry whose PAT bit is `pat`; the bits of the `ssize_t` `pa_index` are
those of its two's complement.
SRCLINE: kernel/mm/vmm.hpp:73-77 -/
def setPa (pat : Word) (pa : ℤ) (e : Word) : Word :=
  setBit (setBit (setBit e pat ((BitVec.ofInt 64 pa).getLsbD 2))
    0x10#64 ((BitVec.ofInt 64 pa).getLsbD 1)) 0x8#64 ((BitVec.ofInt 64 pa).getLsbD 0)

/-- `flags_pat` of a third- or second-level entry.
SRCLINE: kernel/mm/vmm.hpp:141, 158 -/
def patHuge : Word := 0x1000#64

/-- `flags_pat` of a first-level entry.
SRCLINE: kernel/mm/vmm.hpp:173 -/
def patSmall : Word := 0x80#64

/-- `if(pa != -1) e->set_pa(pa)`.
SRCLINE: kernel/mm/vmm.cpp:151-152 -/
def Vm.applyPa (s : Vm) (t : Word) (i : Index) (pat : Word) (pa : ℤ) : Vm :=
  if pa = -1 then s else s.set t i (setPa pat pa (s.mem t i))

/-! ## Mapping -/

/-- The two table layouts: `pml4_table` and `pml5_table`. -/
inductive Paging
  | pml4
  | pml5
  deriving DecidableEq, Repr

/-- The number of levels. -/
def Paging.levels : Paging → ℕ
  | .pml4 => 4
  | .pml5 => 5

/-- The step of `map` through a fifth- or fourth-level table: a missing entry gets a new table, or
ends the call when its flags are zero; `k` is the rest of the call.
SRCLINE: kernel/mm/vmm.cpp:129-133, 215-219, 224-228 -/
def throughDirectory (s : Vm) (t : Word) (i : Index) (flags : Word) (k : Vm → Option Vm) :
    Option Vm :=
  if s.mem t i = 0 then
    if flags = 0 then some s
    else
      match s.calloc with
      | none => none
      | some (f, s) => k (s.set t i (f ||| flags))
  else k s

/-- The step of `map` through a third- or second-level table: with bit 7 in its flags a missing
entry becomes a page, else it gets a new table, whose address and flags are put together by `join`.
SRCLINE: kernel/mm/vmm.cpp:137-146, 158-167, 233-242, 254-263 -/
def throughTable (join : Word → Word → Word) (s : Vm) (t : Word) (i : Index) (flags paddr : Word)
    (k : Vm → Option Vm) : Option Vm :=
  if s.mem t i = 0 then
    if flags = 0 then some s
    else if flags &&& 0x80#64 ≠ 0 then k (s.set t i (paddr ||| flags))
    else
      match s.calloc with
      | none => none
      | some (f, s) => k (s.set t i (join f flags))
  else k s

/-- `map` from the first-level table `t` on.
SRCLINE: kernel/mm/vmm.cpp:179-190, 276-287 -/
def mapPml1 (s : Vm) (t vaddr paddr pml1Flags : Word) (pa : ℤ) : Option Vm :=
  let i := tableIndex 0 vaddr
  if s.mem t i = 0 then
    if pml1Flags = 0 then some s
    else some ((s.set t i (paddr ||| pml1Flags)).applyPa t i patSmall pa)
  else some (s.applyPa t i patSmall pa)

/-- `map` from the second-level table `t` on.
SRCLINE: kernel/mm/vmm.cpp:158-190, 254-287 -/
def mapPml2 (s : Vm) (t vaddr paddr pml2Flags pml1Flags : Word) (pa : ℤ) : Option Vm :=
  let i := tableIndex 1 vaddr
  throughTable (· ||| ·) s t i pml2Flags paddr fun s =>
    if isHuge (s.mem t i) then some (s.applyPa t i patHuge pa)
    else mapPml1 s (frameOf (s.mem t i)) vaddr paddr pml1Flags pa

/-- `map` from the third-level table `t` on.
SRCLINE: kernel/mm/vmm.cpp:137-190, 233-287 -/
def mapPml3 (join : Word → Word → Word) (s : Vm)
    (t vaddr paddr pml3Flags pml2Flags pml1Flags : Word) (pa : ℤ) : Option Vm :=
  let i := tableIndex 2 vaddr
  throughTable join s t i pml3Flags paddr fun s =>
    if isHuge (s.mem t i) then some (s.applyPa t i patHuge pa)
    else mapPml2 s (frameOf (s.mem t i)) vaddr paddr pml2Flags pml1Flags pa

/-- `pml4_table::virtual_address::map` for the table in frame `root`.
SRCLINE: kernel/mm/vmm.cpp:125-191 -/
def Pml4.map (s : Vm) (root vaddr paddr pml4Flags pml3Flags pml2Flags pml1Flags : Word) (pa : ℤ) :
    Option Vm :=
  let i := tableIndex 3 vaddr
  throughDirectory s root i pml4Flags fun s =>
    mapPml3 (· ||| ·) s (frameOf (s.mem root i)) vaddr paddr pml3Flags pml2Flags pml1Flags pa

/-- `pml5_table::virtual_address::map`: a new third-level entry is built with `+`.
SRCLINE: kernel/mm/vmm.cpp:211-288 -/
def Pml5.map (s : Vm)
    (root vaddr paddr pml5Flags pml4Flags pml3Flags pml2Flags pml1Flags : Word) (pa : ℤ) :
    Option Vm :=
  let i := tableIndex 4 vaddr
  throughDirectory s root i pml5Flags fun s =>
    let t := frameOf (s.mem root i)
    let j := tableIndex 3 vaddr
    throughDirectory s t j pml4Flags fun s =>
      mapPml3 (· + ·) s (frameOf (s.mem t j)) vaddr paddr pml3Flags pml2Flags pml1Flags pa

/-- `map_page_raw` of both tables.
SRCLINE: kernel/mm/vmm.cpp:399-413, 447-461 -/
def mapPageRaw (p : Paging) (s : Vm) (root vaddr paddr flags1 flags0 : Word) (pa : ℤ) : Option Vm :=
  match p with
  | .pml4 =>
    if flags0 &&& 0x80#64 ≠ 0 then Pml4.map s root vaddr paddr flags1 flags1 flags0 0 pa
    else Pml4.map s root vaddr paddr flags1 flags1 flags1 flags0 pa
  | .pml5 =>
    if flags0 &&& 0x80#64 ≠ 0 then Pml5.map s root vaddr paddr flags1 flags1 flags1 flags0 0 pa
    else Pml5.map s root vaddr paddr flags1 flags1 flags1 flags1 flags0 pa

/-! ## Unmapping -/

/-- Where the pointers `_pml3e`, `_pml2e` and `_pml1e` of a `virtual_address` point; `none` is
`NULL`. -/
structure FoundEntries where
  pml3e : Option (Word × Index)
  pml2e : Option (Word × Index)
  pml1e : Option (Word × Index)

/-- The lookup constructor from the third-level table `t` on.
SRCLINE: kernel/mm/vmm.cpp:58-79, 101-122 -/
def lookupPml3 (s : Vm) (t vaddr : Word) : FoundEntries :=
  let e3 := s.mem t (tableIndex 2 vaddr)
  if e3 = 0 then ⟨none, none, none⟩
  else if !isPresent e3 || isHuge e3 then ⟨some (t, tableIndex 2 vaddr), none, none⟩
  else
    let t2 := frameOf e3
    let e2 := s.mem t2 (tableIndex 1 vaddr)
    if e2 = 0 then ⟨some (t, tableIndex 2 vaddr), none, none⟩
    else if !isPresent e2 || isHuge e2 then
      ⟨some (t, tableIndex 2 vaddr), some (t2, tableIndex 1 vaddr), none⟩
    else
      let t1 := frameOf e2
      if s.mem t1 (tableIndex 0 vaddr) = 0 then
        ⟨some (t, tableIndex 2 vaddr), some (t2, tableIndex 1 vaddr), none⟩
      else
        ⟨some (t, tableIndex 2 vaddr), some (t2, tableIndex 1 vaddr), some (t1, tableIndex 0 vaddr)⟩

/-- The lookup constructor through a fifth- or fourth-level table.
SRCLINE: kernel/mm/vmm.cpp:40-55, 92-99 -/
def lookupDirectory (s : Vm) (t : Word) (i : Index) (k : Word → FoundEntries) : FoundEntries :=
  if s.mem t i = 0 then ⟨none, none, none⟩
  else if !isPresent (s.mem t i) then ⟨none, none, none⟩
  else k (frameOf (s.mem t i))

/-- The lookup constructors of `pml4_table::virtual_address` and `pml5_table::virtual_address`. They
leave `page_length` uninitialised.
SRCLINE: kernel/mm/vmm.cpp:29-80, 82-123 -/
def lookup (p : Paging) (s : Vm) (root vaddr : Word) : FoundEntries :=
  match p with
  | .pml4 => lookupDirectory s root (tableIndex 3 vaddr) fun t => lookupPml3 s t vaddr
  | .pml5 => lookupDirectory s root (tableIndex 4 vaddr) fun t =>
      lookupDirectory s t (tableIndex 3 vaddr) fun t => lookupPml3 s t vaddr

/-- `virtual_address::unmap`, with the physical address it returns. A `NULL` entry pointer that it
follows is a fault.
SRCLINE: kernel/mm/vmm.cpp:193-209, 290-306 -/
def unmap (s : Vm) (a : FoundEntries) : Option (Vm × Word) :=
  let drop := fun t i => some (s.set t i (setBit (s.mem t i) 1#64 false), frameOf (s.mem t i))
  match a.pml3e with
  | none => none
  | some (t3, i3) =>
    if isHuge (s.mem t3 i3) then drop t3 i3
    else
      match a.pml2e with
      | none => none
      | some (t2, i2) =>
        if isHuge (s.mem t2 i2) then drop t2 i2
        else
          match a.pml1e with
          | none => none
          | some (t1, i1) => drop t1 i1

/-- `unmap_page` of both tables. `pageLength` is what the uninitialised member holds.
SRCLINE: kernel/mm/vmm.cpp:415-428, 463-476 -/
def unmapPage (p : Paging) (s : Vm) (root vaddr pageLength : Word) : Option Vm :=
  if pageLength = 0 then some s else (unmap s (lookup p s root vaddr)).map Prod.fst

/-! ## The other members of the tables

`map_page` and `map_range` call `map` as `map_page_raw` does, with their own flags for the upper levels
and with a frame that they allocate. -/

/-- The frames from `block` on that a 2 MiB page needs, filled with zeros: `pmm::calloc(0x200)` when it
returns `block`.
SRCLINE: kernel/mm/pmm.cpp:156-160 -/
def Vm.clearBlock (s : Vm) (block : Word) : Vm :=
  { s with mem := fun t i => if (t - block).toNat < 0x200000 then 0 else s.mem t i }

/-- `map_page` of both tables; `block` is what `pmm::calloc(0x200)` returns if it is called.
SRCLINE: kernel/mm/vmm.cpp:383-397, 431-445 -/
def mapPage (p : Paging) (s : Vm) (root vaddr flags block : Word) (pa : ℤ) : Option Vm :=
  if flags &&& 0x80#64 ≠ 0 then mapPageRaw p (s.clearBlock block) root vaddr block 0x3 flags pa
  else
    match s.calloc with
    | none => none
    | some (f, s) => mapPageRaw p s root vaddr f 0x3 flags pa

/-- `extra`: only `pml5_table::map_range` passes the user bit on to the upper levels.
SRCLINE: kernel/mm/vmm.cpp:346-348 -/
def extraFlags (p : Paging) (flags : Word) : Word :=
  match p with
  | .pml4 => 0
  | .pml5 => if flags &&& 0x4#64 ≠ 0 then 0x4 else 0

/-- How far `map_range` moves on.
SRCLINE: kernel/mm/vmm.cpp:315, 321 -/
def rangeStep (flags : Word) : Word := if flags &&& 0x80#64 ≠ 0 then 0x200000 else 0x1000

/-- `map_range` of both tables.
SRCLINE: kernel/mm/vmm.cpp:308-326, 343-365 -/
def mapRange (p : Paging) (root flags : Word) (pa : ℤ) : ℕ → Word → Vm → Option Vm
  | 0, _, s => some s
  | cnt + 1, vaddr, s =>
    match s.alloc with
    | none => none
    | some (f, s) =>
      match mapPageRaw p s root vaddr f (0x3 ||| extraFlags p flags) flags pa with
      | none => none
      | some s => mapRange p root flags pa cnt (vaddr + rangeStep flags) s

/-- `unmap_range` of both tables. The list has what the uninitialised `page_length` holds in each
iteration.
SRCLINE: kernel/mm/vmm.cpp:328-341, 367-381 -/
def unmapRange (p : Paging) (root : Word) : List Word → Word → Vm → Option Vm
  | [], _, s => some s
  | pageLength :: rest, vaddr, s =>
    if pageLength = 0 then some s
    else
      match unmap s (lookup p s root vaddr) with
      | none => none
      | some (s, _) => unmapRange p root rest (vaddr + pageLength) s

/-- `create_generic` of both tables, with `kernel_mapping` in the frame `kernel`; the frame of the new
table.
SRCLINE: kernel/mm/vmm.cpp:499-517 -/
def createGeneric (s : Vm) (kernel : Word) : Option (Vm × Word) :=
  match s.calloc with
  | none => none
  | some (f, s) =>
    let s := s.set f 256 (s.mem kernel 256)
    some (s.set f 511 (s.mem kernel 511), f)

/-! ## `vmm::init` -/

/-- `high_vma`.
SRCLINE: kernel/mm/vmm.hpp:11 -/
def highVma : Word := 0xffff800000000000

/-- `kernel_high_vma`.
SRCLINE: kernel/mm/vmm.hpp:12 -/
def kernelHighVma : Word := 0xffffffff80000000

/-- The loops of `vmm::init`: `n` pages of 2 MiB from the physical address `phys` on, mapped at `vma`.
SRCLINE: kernel/mm/vmm.cpp:531-541 -/
def mapDirect (p : Paging) (root vma : Word) : ℕ → Word → Vm → Option Vm
  | 0, _, s => some s
  | n + 1, phys, s =>
    match mapPageRaw p s root (phys + vma) phys 0x7 0x187 (-1) with
    | none => none
    | some s => mapDirect p root vma n (phys + 0x200000) s

/-- `vmm::init`: the tables and the frame of `kernel_mapping`. The processor decides which tables are
used.
SRCLINE: kernel/mm/vmm.cpp:519-545 -/
def vmmInit (p : Paging) (s : Vm) (totalMem : ℕ) : Option (Vm × Word) :=
  match s.calloc with
  | none => none
  | some (root, s) =>
    match mapDirect p root kernelHighVma 0x200 0 s with
    | none => none
    | some s =>
      match mapDirect p root highVma (totalMem / 0x200000) 0 s with
      | none => none
      | some s => some (s, root)

end CrepOS.Model
