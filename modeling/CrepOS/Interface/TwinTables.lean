import CrepOS.Interface.MmapHalf
import CrepOS.Interface.PageRun

/-!
# One history on both kinds of tables

The same calls are made on a table of each class, each in a memory of its own. Both start empty. What is
assumed of the allocators is that they return the same frames for the pages; the frames for the tables
need not be the same, since there are more of them with 5 levels.

The two classes differ in the flags that they give to tables: there is one level more, whose only entry
for low addresses is made by the first call, and `pml5_table::map_range` adds the user bit.
`PageGranted` is the condition under which this makes no difference for a page.
-/

set_option autoImplicit false

namespace CrepOS.Interface

open CrepOS.Library CrepOS.Model

/-- The two tables and their memories. -/
structure Twin where
  four : Vm
  root4 : Word
  five : Vm
  root5 : Word

/-- The calls. -/
inductive TwinCall
  | mapPage (vaddr flags block : Word) (pa : ℤ)
  | mapPageRaw (vaddr paddr flags1 flags0 : Word) (pa : ℤ)
  | mapRange (vaddr flags : Word) (cnt : ℕ) (pa : ℤ)

/-- What a call does to one of the tables. -/
def TwinCall.exec (p : Paging) (root : Word) (s : Vm) : TwinCall → Option Vm
  | .mapPage vaddr flags block pa => Model.mapPage p s root vaddr flags block pa
  | .mapPageRaw vaddr paddr flags1 flags0 pa => Model.mapPageRaw p s root vaddr paddr flags1 flags0 pa
  | .mapRange vaddr flags cnt pa => Model.mapRange p root flags pa cnt vaddr s

/-- The frames that the allocator returns for the pages of a call. -/
def TwinCall.frames (p : Paging) (root : Word) (s : Vm) : TwinCall → List Word
  | .mapPage vaddr flags block pa =>
    ((MapCall.mapPage root vaddr flags block pa).pages p s).map PageRecord.base
  | .mapPageRaw _ _ _ _ _ => []
  | .mapRange vaddr flags cnt pa =>
    ((MapCall.mapRange root vaddr flags cnt pa).pages p s).map PageRecord.base

/-- The level of the pages that the flags ask for: bit 7 is for 2 MiB. -/
def pageLevel (flags : Word) : ℕ := if flags.getLsbD 7 then 1 else 0

/-- Flags of a page: the present bit and others of the bits 0 to 8. -/
def PageFlags (flags : Word) : Prop := flags.getLsbD 0 = true ∧ flags &&& ~~~0x1ff#64 = 0

/-- Flags of a table: the present bit and others of the bits 0 to 6. -/
def TableFlags (flags : Word) : Prop := flags.getLsbD 0 = true ∧ flags &&& ~~~0x7f#64 = 0

/-- The address is below 2 ^ 47. -/
def LowAddress (v : Word) : Prop := v.toNat < 2 ^ 47

instance (flags : Word) : Decidable (PageFlags flags) := inferInstanceAs (Decidable (_ ∧ _))

instance (flags : Word) : Decidable (TableFlags flags) := inferInstanceAs (Decidable (_ ∧ _))

instance (v : Word) : Decidable (LowAddress v) := inferInstanceAs (Decidable (_ < _))

/-- The calls: pages below 2 ^ 47 with such flags. -/
def TwinCall.Valid : TwinCall → Prop
  | .mapPage vaddr flags _ _ => LowAddress vaddr ∧ PageFlags flags
  | .mapPageRaw vaddr _ flags1 flags0 _ => LowAddress vaddr ∧ TableFlags flags1 ∧ PageFlags flags0
  | .mapRange vaddr flags cnt _ => vaddr.toNat + cnt * (rangeStep flags).toNat ≤ 2 ^ 47 ∧ PageFlags flags

/-- The 2 MiB block of `map_page` is one of pages, not in use as a page table. -/
def TwinCall.BlockFree (p : Paging) (root : Word) (s : Vm) : TwinCall → Prop
  | .mapPage _ flags block _ => flags &&& 0x80#64 ≠ 0 → PageAligned 0 block ∧
      ∀ f, InTables p s.mem root f → ¬ (f - block).toNat < 0x200000
  | _ => True

/-- What is assumed of a call. -/
def TwinCall.Allowed (c : TwinCall) (T : Twin) : Prop :=
  c.Valid ∧ c.frames .pml4 T.root4 T.four = c.frames .pml5 T.root5 T.five ∧
    c.BlockFree .pml4 T.root4 T.four ∧ c.BlockFree .pml5 T.root5 T.five

/-! ## The condition -/

/-- All entries above the page of `v` have the bit, where those that are missing are made with
`flags1`. -/
def tablesAllow (bit leaf : ℕ) (flags1 : Word) (mem : Word → Index → Word) (v : Word) :
    ℕ → Word → Bool
  | 0, _ => true
  | n + 1, t =>
    if n = leaf then true
    else if mem t (walkIndex v n) = 0 then flags1.getLsbD bit
    else (mem t (walkIndex v n)).getLsbD bit &&
      tablesAllow bit leaf flags1 mem v n (frameOf (mem t (walkIndex v n)))

/-- **The condition on a page** at `v` that is not mapped yet: for each of the bits 1 (writable) and 2
(user) that its entry `e` gets, the entries above it all have the bit in the table with 4 levels if and
only if they do in the table with 5 levels, entries that the call makes included. -/
def PageGranted (T : Twin) (v flags4 flags5 flags0 e : Word) : Prop :=
  MeetsZero (pageLevel flags0) T.four.mem v 4 T.root4 →
    ∀ bit, bit = 1 ∨ bit = 2 → e.getLsbD bit = true →
      tablesAllow bit (pageLevel flags0) flags4 T.four.mem v 4 T.root4 =
        tablesAllow bit (pageLevel flags0) flags5 T.five.mem v 5 T.root5

/-- The condition on a call. -/
def TwinCall.Granted (T : Twin) : TwinCall → Prop
  | .mapPage vaddr flags _ _ => PageGranted T vaddr 0x3 0x3 flags flags
  | .mapPageRaw vaddr paddr flags1 flags0 _ =>
    PageGranted T vaddr flags1 flags1 flags0 (paddr ||| flags0)
  | .mapRange vaddr flags cnt _ => ∀ k < cnt, PageGranted T (vaddr + BitVec.ofNat 64 k * rangeStep flags)
      0x3 (0x3 ||| extraFlags .pml5 flags) flags flags

/-! ## The run -/

/-- The calls without the condition. -/
def twinAnyStep : Twin → TwinCall → Twin → Prop :=
  Guarded (fun T c => c.Allowed T) fun T c T' =>
    c.exec .pml4 T.root4 T.four = some T'.four ∧ c.exec .pml5 T.root5 T.five = some T'.five ∧
      T'.root4 = T.root4 ∧ T'.root5 = T.root5

/-- The calls that meet the condition. -/
def twinStep : Twin → TwinCall → Twin → Prop := Guarded (fun T c => c.Granted T) twinAnyStep

/-- An empty table in the frame `root`, and frames to come. -/
def EmptyTable (s : Vm) (root : Word) : Prop :=
  (∀ i, s.mem root i = 0) ∧ root ∉ s.free ∧ (∀ f ∈ s.free, PageAligned 0 f) ∧ s.free.Nodup

/-- Both tables are empty. -/
def Twin.Empty (T : Twin) : Prop := EmptyTable T.four T.root4 ∧ EmptyTable T.five T.root5

/-- The translation of an address, and whether it may be written and used by the user. -/
def effective (p : Paging) (mem : Word → Index → Word) (root v : Word) : Option (Word × Bool × Bool) :=
  (access p mem root v).map fun a => (a.addr, a.writable, a.user)

/-- **The two tables agree.** -/
def Twin.Agree (T : Twin) : Prop :=
  ∀ v, LowAddress v →
    effective .pml4 T.four.mem T.root4 v = effective .pml5 T.five.mem T.root5 v

end CrepOS.Interface
