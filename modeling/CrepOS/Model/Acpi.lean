import CrepOS.Library.ByteBuffers
import CrepOS.Model.LibString
import CrepOS.Model.Memutils

/-!
# The MADT, `acpi/madt.hpp` and the loop in `apic::init`

The table is its `entries`, a memory of their own from the address `0` on, and the length in its header. The
lists are only pushed to, so they are lists here. `starts` records where the loop has read a type and a length
byte.
-/

set_option autoImplicit false

namespace CrepOS.Model

open CrepOS.Library

/-- A 16-bit word of a packed structure. -/
def word16 (m : Memory) (a : ℕ) : BitVec 16 := BitVec.ofNat 16 (m.word a 2)

/-- A 32-bit word of a packed structure. -/
def word32 (m : Memory) (a : ℕ) : BitVec 32 := BitVec.ofNat 32 (m.word a 4)

/-- `struct madt0`.
SRCLINE: kernel/acpi/madt.hpp:15-19 -/
structure RawMadt0 where
  acpiId : Byte
  apicId : Byte
  flags : BitVec 32
  deriving DecidableEq

/-- `struct madt1`.
SRCLINE: kernel/acpi/madt.hpp:21-26 -/
structure RawMadt1 where
  ioapicId : Byte
  reserved : Byte
  ioapicAddr : BitVec 32
  gsiBase : BitVec 32
  deriving DecidableEq

/-- `struct madt2`.
SRCLINE: kernel/acpi/madt.hpp:28-33 -/
structure RawMadt2 where
  busSrc : Byte
  irqSrc : Byte
  gsi : BitVec 32
  flags : BitVec 16
  deriving DecidableEq

/-- `struct madt4`.
SRCLINE: kernel/acpi/madt.hpp:35-39 -/
structure RawMadt4 where
  acpiId : Byte
  flags : BitVec 16
  lint : Byte
  deriving DecidableEq

/-- `struct madt5`.
SRCLINE: kernel/acpi/madt.hpp:41-44 -/
structure RawMadt5 where
  reserved : BitVec 16
  lapicOverride : Byte
  deriving DecidableEq

/-- The structure `madt0` at an address. -/
def readMadt0 (m : Memory) (a : ℕ) : RawMadt0 := ⟨m a, m (a + 1), word32 m (a + 2)⟩

/-- The structure `madt1` at an address. -/
def readMadt1 (m : Memory) (a : ℕ) : RawMadt1 := ⟨m a, m (a + 1), word32 m (a + 2), word32 m (a + 6)⟩

/-- The structure `madt2` at an address. -/
def readMadt2 (m : Memory) (a : ℕ) : RawMadt2 := ⟨m a, m (a + 1), word32 m (a + 2), word16 m (a + 6)⟩

/-- The structure `madt4` at an address. -/
def readMadt4 (m : Memory) (a : ℕ) : RawMadt4 := ⟨m a, word16 m (a + 1), m (a + 3)⟩

/-- The structure `madt5` at an address. -/
def readMadt5 (m : Memory) (a : ℕ) : RawMadt5 := ⟨word16 m a, m (a + 2)⟩

/-- The lists, among them the `madt1` of each element of `ioapic_list`, and where entries were read.
SRCLINE: kernel/acpi/madt.hpp:48-52, kernel/int/apic.cpp:8 -/
structure MadtLists where
  madt0List : List RawMadt0
  madt1List : List RawMadt1
  madt2List : List RawMadt2
  madt4List : List RawMadt4
  madt5List : List RawMadt5
  ioapicList : List RawMadt1
  starts : List ℕ
  deriving DecidableEq

/-- The lists before `apic::init`. -/
def MadtLists.empty : MadtLists := ⟨[], [], [], [], [], [], []⟩

/-- The `switch` on the type of an entry, whose payload is at the index `i`.
SRCLINE: kernel/int/apic.cpp:103-119 -/
def MadtLists.push (s : MadtLists) (entries : Memory) (entryType : Byte) (i : ℕ) : MadtLists :=
  if entryType = 0 then { s with madt0List := s.madt0List ++ [readMadt0 entries i] }
  else if entryType = 1 then
    { s with
      madt1List := s.madt1List ++ [readMadt1 entries i]
      ioapicList := s.ioapicList ++ [readMadt1 entries i] }
  else if entryType = 2 then { s with madt2List := s.madt2List ++ [readMadt2 entries i] }
  else if entryType = 4 then { s with madt4List := s.madt4List ++ [readMadt4 entries i] }
  else if entryType = 5 then { s with madt5List := s.madt5List ++ [readMadt5 entries i] }
  else s

/-- The loop of `apic::init` from the index `i` on, for `fuel` rounds at most; `i` is a `size_t`, which is
incremented for the type, the length and by the loop, and once by `entry_size - 3`, an `int`.
SRCLINE: kernel/int/apic.cpp:99-121 -/
def madtLoop (entries : Memory) (bound : BitVec 64) : ℕ → BitVec 64 → MadtLists → Option MadtLists
  | 0, _, _ => none
  | fuel + 1, i, s =>
    if i < bound then
      let entryType := entries i.toNat
      let entrySize := entries (i + 1).toNat
      let s := { s with starts := s.starts ++ [i.toNat] }.push entries entryType (i + 1 + 1).toNat
      madtLoop entries bound fuel (i + 1 + 1 + (entrySize.setWidth 64 - 3) + 1) s
    else some s

/-- The loop for a table with the given length: `length` less the size of what comes before the entries.
SRCLINE: kernel/int/apic.cpp:97-121 -/
def apicInit (fuel : ℕ) (entries : Memory) (length : BitVec 32) : Option MadtLists :=
  madtLoop entries (length.setWidth 64 - (36 + 4 + 4)) fuel 0 .empty

/-! ## `find_SDT` of `acpi/rsdt.hpp`

The memory is what the virtual addresses contain. With the table that is found the model has the indices of the entries
that were examined, of either table. -/

/-- `strncmp`, from `i` on. A `char` is signed.
SRCLINE: kernel/lib/memutils.cpp:77-86 -/
def strncmp (str0 str1 : ℕ → Byte) : ℕ → ℕ → ℤ
  | 0, _ => 0
  | n + 1, i =>
    if str0 i ≠ str1 i then (str0 i).toInt - (str1 i).toInt
    else if str0 i = 0 then 0
    else strncmp str0 str1 n (i + 1)

/-- `vmm::high_vma`, as a number.
SRCLINE: kernel/mm/vmm.hpp:11 -/
abbrev directMap : ℕ := 0xffff800000000000

/-- `sizeof(acpihdr)`.
SRCLINE: kernel/acpi/tables.hpp:7-17 -/
abbrev acpihdrSize : ℕ := 36

/-- `acpihdr_ptr.length` of a table.
SRCLINE: kernel/acpi/tables.hpp:9 -/
def sdtLength (m : Memory) (table : ℕ) : ℕ := m.word (table + 4) 4

/-- The address that the entry `i` leads to, of a table whose entries have `width` bytes.
SRCLINE: kernel/acpi/rsdt.hpp:16, 26 -/
def sdtEntry (m : Memory) (table width i : ℕ) : ℕ := wrap (m.word (table + acpihdrSize + width * i) width + directMap)

/-- The loop over the entries of a table, for `n` entries from `i` on: those that are examined, and the table that is
found.
SRCLINE: kernel/acpi/rsdt.hpp:15-21, 25-31 -/
def scanSdt (m : Memory) (table width : ℕ) (signature : LibString) : ℕ → ℕ → List ℕ × Option ℕ
  | 0, _ => ([], none)
  | n + 1, i =>
    let acpihdr := sdtEntry m table width i
    if strncmp (fun k => m (acpihdr + k)) (fun k => signature.getD k 0) 4 0 = 0 then ([i], some acpihdr)
    else
      let (examined, found) := scanSdt m table width signature n (i + 1)
      (i :: examined, found)

/-- The search in one of the two tables, where `0` is `NULL`; the bound of the loop is what is behind the header, in
bytes.
SRCLINE: kernel/acpi/rsdt.hpp:14-15, 24-25 -/
def searchSdt (m : Memory) (table width : ℕ) (signature : LibString) : List ℕ × Option ℕ :=
  if table ≠ 0 then scanSdt m table width signature (ofSigned (sdtLength m table - acpihdrSize)) 0 else ([], none)

/-- `find_SDT`: the entries of the XSDT and of the RSDT that are examined, and the table that is returned; `none` is
the `NULL` at the end.
SRCLINE: kernel/acpi/rsdt.hpp:12-37 -/
def findSdt (m : Memory) (xsdt rsdt : ℕ) (signature : LibString) : (List ℕ × List ℕ) × Option ℕ :=
  let (examinedX, found) := searchSdt m xsdt 8 signature
  if found.isSome then ((examinedX, []), found)
  else
    let (examinedR, found) := searchSdt m rsdt 4 signature
    ((examinedX, examinedR), found)

end CrepOS.Model
