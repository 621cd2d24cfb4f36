import CrepOS.Model.Acpi

/-!
# Tables of entries

A well-formed table is a list of entries, each a type and a payload, whose bytes are laid out one after the
other. `madtOf` is what the lists should hold for it. `EntryStart` is where entries start in a table of any
bytes, as far as their length bytes tell.
-/

set_option autoImplicit false

namespace CrepOS.Interface

open CrepOS.Library CrepOS.Model

/-- How many bytes the structure for a type has; types without a structure may have any payload. -/
def payloadSize (entryType : Byte) : ℕ :=
  if entryType = 0 then 6
  else if entryType = 1 then 10
  else if entryType = 2 then 8
  else if entryType = 4 then 4
  else if entryType = 5 then 3
  else 0

/-- An entry. Its length byte counts the type, itself and the payload. -/
structure MadtEntry where
  type : Byte
  payload : List Byte
  lengthByte : payload.length + 2 < 256
  payloadFits : payloadSize type ≤ payload.length

namespace MadtEntry

/-- The number of bytes of an entry. -/
def size (e : MadtEntry) : ℕ := e.payload.length + 2

/-- The bytes of an entry. -/
def bytes (e : MadtEntry) : List Byte := e.type :: BitVec.ofNat 8 e.size :: e.payload

/-- The payload as a memory. -/
def contents (e : MadtEntry) : Memory := fun i => e.payload.getD i 0

end MadtEntry

/-- The number of bytes of a list of entries. -/
def entriesSize (es : List MadtEntry) : ℕ := (es.map MadtEntry.size).sum

/-- The bytes of the entries are in the memory, from the address `a` on. -/
def HoldsEntries (m : Memory) (a : ℕ) (es : List MadtEntry) : Prop :=
  ∀ i < entriesSize es, (es.flatMap MadtEntry.bytes)[i]? = some (m (a + i))

/-- Where the entries start, if the first one starts at `a`. -/
def startsFrom : ℕ → List MadtEntry → List ℕ
  | _, [] => []
  | a, e :: es => a :: startsFrom (a + e.size) es

/-- The payloads of the entries of a type. -/
def payloadsOf {α : Type} (entryType : Byte) (read : Memory → ℕ → α) (es : List MadtEntry) : List α :=
  (es.filter (·.type = entryType)).map fun e => read e.contents 0

/-- **What the lists should hold** for a table. -/
def madtOf (es : List MadtEntry) : MadtLists where
  madt0List := payloadsOf 0 readMadt0 es
  madt1List := payloadsOf 1 readMadt1 es
  madt2List := payloadsOf 2 readMadt2 es
  madt4List := payloadsOf 4 readMadt4 es
  madt5List := payloadsOf 5 readMadt5 es
  ioapicList := payloadsOf 1 readMadt1 es
  starts := startsFrom 0 es

/-- An entry starts at the index `i`, in the `n` bytes of a table: the first one at `0`, and the next one
behind the number of bytes that the length byte of this one says. -/
inductive EntryStart (entries : Memory) (n : ℕ) : ℕ → Prop
  | first (h : 0 < n) : EntryStart entries n 0
  | next {i : ℕ} (hi : EntryStart entries n i) (h : i + (entries (i + 1)).toNat < n) :
      EntryStart entries n (i + (entries (i + 1)).toNat)

/-- **The parser is safe** on a table: the loop ends, and every type and length byte that it has read is one
of the table. The entries are the bytes of the table from its byte 44 on. -/
def ParsesSafely (entries : Memory) (length : BitVec 32) : Prop :=
  ∃ fuel s, apicInit fuel entries length = some s ∧ ∀ i ∈ s.starts, 44 + (i + 1) < length.toNat

/-! ## What `find_SDT` should find -/

/-- The header at the address has the signature. -/
def BearsSignature (m : Memory) (signature : LibString) (acpihdr : ℕ) : Prop := m.bytes acpihdr 4 = signature

instance decidableBearsSignature (m : Memory) (signature : LibString) (acpihdr : ℕ) :
    Decidable (BearsSignature m signature acpihdr) := inferInstanceAs (Decidable (_ = _))

/-- A table of `n` entries of `width` bytes, or none. -/
def TableOf (m : Memory) (table width n : ℕ) : Prop := table = 0 ∧ n = 0 ∨ table ≠ 0 ∧ sdtLength m table = acpihdrSize + width * n

/-- The tables that are listed. -/
def listedSdts (m : Memory) (table width n : ℕ) : List ℕ := (List.range n).map (sdtEntry m table width)

/-- **The search is exact**: only the entries that there are are examined, and the first table with the signature is
returned, of the XSDT first. -/
structure SdtExact (m : Memory) (xsdt nx rsdt nr : ℕ) (signature : LibString) : Prop where
  insideX : ∀ i ∈ (findSdt m xsdt rsdt signature).1.1, i < nx
  insideR : ∀ i ∈ (findSdt m xsdt rsdt signature).1.2, i < nr
  first : (findSdt m xsdt rsdt signature).2 =
    (listedSdts m xsdt 8 nx ++ listedSdts m rsdt 4 nr).find? (BearsSignature m signature ·)

end CrepOS.Interface
