import CrepOS.Library.PlacedTree
import CrepOS.Library.Run
import CrepOS.Interface.PageWalk
import Mathlib.Data.Int.ModEq

/-!
# Calls that map memory of their own

`map_page` and `map_range` map memory that they allocate. A run is made of such calls on some page
tables, which may share tables with each other at the same place; what the allocator returns is disjoint
from what is in use. The run keeps a record of each page with the range that was allocated for it.

The address field of an entry is put together by the code from the address of the range and the flags,
and the processor uses the part of it above the offset bits of the page. `PageRecord.Fits` is the
condition under which this is the range.
-/

set_option autoImplicit false

namespace CrepOS.Interface

open CrepOS.Library CrepOS.Model

/-- The page tables in use have their places, the entries that point to tables have bits 52 to 63
clear, and the frames to come are not in use. -/
structure TablesPlaced (p : Paging) (place : Word → Option (List Index)) (s : Vm) : Prop where
  placed : Placed tableBelow p.levels place s.mem
  clean : ∀ t l i n, place t = some l → l.length + (n + 1) = p.levels →
    (tableBelow n (s.mem t i)).isSome → ∀ k, 52 ≤ k → (s.mem t i).getLsbD k = false
  unused : ∀ f ∈ s.free, place f = none
  aligned : ∀ f ∈ s.free, PageAligned 0 f
  nodup : s.free.Nodup

/-! ## Pages and their ranges -/

/-- A page that a call maps at `vaddr`, and the range that the call allocated for it. -/
structure PageRecord where
  vaddr : Word
  flags : Word
  base : Word
  size : ℕ
  deriving DecidableEq

/-- The level of the entry: bit 7 asks for a 2 MiB page. -/
def PageRecord.level (r : PageRecord) : ℕ := if r.flags.getLsbD 7 then 1 else 0

/-- The range holds the byte at `a`. -/
def PageRecord.Holds (r : PageRecord) (a : Word) : Prop := (a - r.base).toNat < r.size

/-- The address lies in the virtual page: a walk uses the same indices. -/
def PageRecord.Covers (p : Paging) (r : PageRecord) (v : Word) : Prop :=
  ∀ k, r.level ≤ k → k < p.levels → walkIndex v k = walkIndex r.vaddr k

/-- **The condition on a page.** If its entry is present, the processor takes the address of the range
from it, and the range is as large as the page. -/
def PageRecord.Fits (r : PageRecord) : Prop :=
  (r.base ||| r.flags).getLsbD 0 = true →
    pageBase r.level (r.base ||| r.flags) = r.base ∧ 2 ^ (12 + 9 * r.level) ≤ r.size

instance (r : PageRecord) (a : Word) : Decidable (r.Holds a) := inferInstanceAs (Decidable (_ < _))

instance (r : PageRecord) : Decidable r.Fits := inferInstanceAs (Decidable (_ → _))

/-- The ranges of `n` bytes at `b` and of `n'` bytes at `b'` have no byte in common. -/
def RangesApart (b : Word) (n : ℕ) (b' : Word) (n' : ℕ) : Prop :=
  ∀ a : Word, (a - b).toNat < n → ¬ (a - b').toNat < n'

/-! ## The run -/

/-- The calls, on the table in the frame `root`. -/
inductive MapCall
  | mapPage (root vaddr flags block : Word) (pa : ℤ)
  | mapRange (root vaddr flags : Word) (cnt : ℕ) (pa : ℤ)

/-- The tables, and the pages that the calls so far have mapped. -/
structure MapState where
  vm : Vm
  log : List PageRecord

/-- The pages of `map_range`: each has a frame of its own.
SRCLINE: kernel/mm/vmm.cpp:308-326, 343-365 -/
def rangePages (p : Paging) (root flags : Word) (pa : ℤ) : ℕ → Word → Vm → List PageRecord
  | 0, _, _ => []
  | cnt + 1, vaddr, s =>
    match s.alloc with
    | none => []
    | some (f, s) =>
      ⟨vaddr, flags, f, 0x1000⟩ ::
        match mapPageRaw p s root vaddr f (0x3 ||| extraFlags p flags) flags pa with
        | none => []
        | some s => rangePages p root flags pa cnt (vaddr + rangeStep flags) s

/-- The pages of a call.
SRCLINE: kernel/mm/vmm.cpp:383-397, 431-445 -/
def MapCall.pages (p : Paging) (s : Vm) : MapCall → List PageRecord
  | .mapPage _ vaddr flags block _ =>
    if flags &&& 0x80#64 ≠ 0 then [⟨vaddr, flags, block, 0x200000⟩]
    else
      match s.alloc with
      | none => []
      | some (f, _) => [⟨vaddr, flags, f, 0x1000⟩]
  | .mapRange root vaddr flags cnt pa => rangePages p root flags pa cnt vaddr s

/-- What a call does to the tables. -/
def MapCall.exec (p : Paging) (s : Vm) : MapCall → Option Vm
  | .mapPage root vaddr flags block pa => Model.mapPage p s root vaddr flags block pa
  | .mapRange root vaddr flags cnt pa => Model.mapRange p root flags pa cnt vaddr s

/-- What is assumed of a call: it is made on one of the tables, and the 2 MiB block that the allocator
returns is disjoint from the tables, from the frames that it returns later and from the ranges it
returned before. -/
def MapCall.Allowed (p : Paging) (tables : List Word) (st : MapState) : MapCall → Prop
  | .mapPage root _ flags block _ => root ∈ tables ∧ (flags &&& 0x80#64 ≠ 0 →
      (∀ t ∈ tables, ∀ f, InTables p st.vm.mem t f → RangesApart block 0x200000 f 0x1000) ∧
      (∀ f ∈ st.vm.free, RangesApart block 0x200000 f 0x1000) ∧
      ∀ r ∈ st.log, RangesApart block 0x200000 r.base r.size)
  | .mapRange root _ _ _ _ => root ∈ tables

/-- The calls without the condition. -/
def mapAnyStep (p : Paging) (tables : List Word) : MapState → MapCall → MapState → Prop :=
  Guarded (fun st call => call.Allowed p tables st) fun st call st' =>
    call.exec p st.vm = some st'.vm ∧ st'.log = st.log ++ call.pages p st.vm

/-- The calls all of whose pages meet the condition. -/
def mapStep (p : Paging) (tables : List Word) : MapState → MapCall → MapState → Prop :=
  Guarded (fun st call => ∀ r ∈ call.pages p st.vm, r.Fits) (mapAnyStep p tables)

/-- The start of a run: page tables that share tables at the same place. -/
def MapState.Start (p : Paging) (tables : List Word) (st : MapState) : Prop :=
  st.log = [] ∧ ∃ place, TablesPlaced p place st.vm ∧ ∀ t ∈ tables, place t = some []

/-! ## The properties -/

/-- **What a call makes reachable is its own.** Each byte that an address is translated to after the
call, and was not before, lies in the range that was allocated for the page of the address. -/
def OwnBytes (p : Paging) (tables : List Word) (pages : List PageRecord) (s s' : Vm) : Prop :=
  ∀ t ∈ tables, ∀ v a, translate p s'.mem t v = some a → translate p s.mem t v ≠ some a →
    ∃ r ∈ pages, r.Covers p v ∧ r.Holds a

/-- **No byte is in two pages.** Two addresses that are translated to one byte, and were not before the
calls, lie in one page of the calls. -/
def BytesApart (p : Paging) (tables : List Word) (s₀ : Vm) (st : MapState) : Prop :=
  ∀ t ∈ tables, ∀ t' ∈ tables, ∀ v v' a,
    translate p st.vm.mem t v = some a → translate p s₀.mem t v ≠ some a →
    translate p st.vm.mem t' v' = some a → translate p s₀.mem t' v' ≠ some a →
    ∃ r ∈ st.log, r.Covers p v ∧ r.Covers p v'

end CrepOS.Interface
