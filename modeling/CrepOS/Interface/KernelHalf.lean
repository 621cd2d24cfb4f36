import CrepOS.Library.Run
import CrepOS.Interface.PageWalk

/-!
# Page tables that share the kernel half

After `vmm::init` there is `kernel_mapping`; `create_generic` makes further tables, and all tables are
changed by the members of `pmlx_table` in any order. The frames that the allocator returns are those of
`Vm.free`; the 2 MiB blocks of `map_page` are arguments of the call, not in use as page tables.
-/

set_option autoImplicit false

namespace CrepOS.Interface

open CrepOS.Library CrepOS.Model

/-- The tables: `kernel_mapping` in the frame `kernel`, and those that `create_generic` made. -/
structure TableSystem where
  vm : Vm
  kernel : Word
  tables : List Word

/-- The calls, on the table in the frame `root`. -/
inductive TableCall
  | create
  | mapPage (root vaddr flags block : Word) (pa : ℤ)
  | mapPageRaw (root vaddr paddr flags1 flags0 : Word) (pa : ℤ)
  | mapRange (root vaddr flags : Word) (cnt : ℕ) (pa : ℤ)
  | unmapPage (root vaddr pageLength : Word)
  | unmapRange (root vaddr : Word) (pageLengths : List Word)

/-- What a call does. -/
def TableSystem.exec (p : Paging) (st : TableSystem) : TableCall → Option TableSystem
  | .create =>
    (createGeneric st.vm st.kernel).map fun (vm, f) => { st with vm := vm, tables := f :: st.tables }
  | .mapPage root vaddr flags block pa =>
    (Model.mapPage p st.vm root vaddr flags block pa).map fun vm => { st with vm := vm }
  | .mapPageRaw root vaddr paddr flags1 flags0 pa =>
    (Model.mapPageRaw p st.vm root vaddr paddr flags1 flags0 pa).map fun vm => { st with vm := vm }
  | .mapRange root vaddr flags cnt pa =>
    (Model.mapRange p root flags pa cnt vaddr st.vm).map fun vm => { st with vm := vm }
  | .unmapPage root vaddr pageLength =>
    (Model.unmapPage p st.vm root vaddr pageLength).map fun vm => { st with vm := vm }
  | .unmapRange root vaddr pageLengths =>
    (Model.unmapRange p root pageLengths vaddr st.vm).map fun vm => { st with vm := vm }

/-- The frame is a page table of the system. -/
def TableSystem.IsTable (p : Paging) (st : TableSystem) (f : Word) : Prop :=
  ∃ root ∈ st.kernel :: st.tables, InTables p st.vm.mem root f

/-- The index of an address into the top table. -/
def topIndex (p : Paging) (vaddr : Word) : Index := tableIndex (p.levels - 1) vaddr

/-- What is assumed of a call: it is made on one of the tables, `flags1` has only bits 0 to 6, and the
block that `pmm::calloc(0x200)` returns is not in use as a page table. -/
def TableCall.Allowed (p : Paging) (st : TableSystem) : TableCall → Prop
  | .create => True
  | .mapPage root _ flags block _ => root ∈ st.kernel :: st.tables ∧
      (flags &&& 0x80#64 ≠ 0 → ∀ f, st.IsTable p f → ¬ (f - block).toNat < 0x200000)
  | .mapPageRaw root _ _ flags1 _ _ => root ∈ st.kernel :: st.tables ∧ flags1 &&& ~~~0x7f#64 = 0
  | .mapRange root _ _ _ _ => root ∈ st.kernel :: st.tables
  | .unmapPage root _ _ => root ∈ st.kernel :: st.tables
  | .unmapRange root _ _ => root ∈ st.kernel :: st.tables

/-- The call maps a page below the entry `i` of the top table. -/
def TableCall.MapsBelow (p : Paging) (i : Index) : TableCall → Prop
  | .mapPage _ vaddr _ _ _ => topIndex p vaddr = i
  | .mapPageRaw _ vaddr _ _ _ _ => topIndex p vaddr = i
  | .mapRange _ vaddr flags cnt _ =>
    ∃ k < cnt, topIndex p (vaddr + BitVec.ofNat 64 k * rangeStep flags) = i
  | _ => False

/-- **The condition on a call.** With 5 levels, a call maps below entry 256 of the top table only if the
entry of `kernel_mapping` is there already, or if no table has been created yet. -/
def TableCall.Settled (p : Paging) (st : TableSystem) (call : TableCall) : Prop :=
  p = .pml5 → call.MapsBelow p 256 → st.vm.mem st.kernel 256 ≠ 0 ∨ st.tables = []

/-- The calls that meet the condition. -/
def tableStep (p : Paging) : TableSystem → TableCall → TableSystem → Prop :=
  Guarded (fun st call => call.Allowed p st ∧ call.Settled p st)
    fun st call st' => st.exec p call = some st'

/-- The calls without the condition. -/
def tableAnyStep (p : Paging) : TableSystem → TableCall → TableSystem → Prop :=
  Guarded (fun st call => call.Allowed p st) fun st call st' => st.exec p call = some st'

/-- **The tables agree on the kernel half.** -/
def KernelHalfCoherent (p : Paging) (st : TableSystem) : Prop :=
  ∀ table ∈ st.tables, ∀ v, topIndex p v = 256 ∨ topIndex p v = 511 →
    translate p st.vm.mem table v = translate p st.vm.mem st.kernel v

/-- The state after `vmm::init`, with the frames of `vm₀` for the allocator to return. -/
def TableSystem.Initial (p : Paging) (vm₀ : Vm) (totalMem : ℕ) (st : TableSystem) : Prop :=
  vm₀.free.Nodup ∧ (∀ f ∈ vm₀.free, PageAligned 0 f) ∧ 0x200000 ≤ totalMem ∧
    vmmInit p vm₀ totalMem = some (st.vm, st.kernel) ∧ st.tables = []

/-! ## Address spaces -/

/-- An entry of a top table that `create_generic` does not copy. -/
def OwnIndex (i : Index) : Prop := i ≠ 256 ∧ i ≠ 511

instance (i : Index) : Decidable (OwnIndex i) := inferInstanceAs (Decidable (_ ∧ _))

/-- The table that a call is on. -/
def TableCall.on : TableCall → Option Word
  | .create => none
  | .mapPage root _ _ _ _ | .mapPageRaw root _ _ _ _ _ | .mapRange root _ _ _ _ => some root
  | .unmapPage root _ _ | .unmapRange root _ _ => some root

/-- The walk of an address reads the same entries, so that it ends at the same page with the same rights. -/
def SameWalk (p : Paging) (mem mem' : Word → Index → Word) (table v : Word) : Prop :=
  trail walkStep mem' p.levels table (walkIndex v) = trail walkStep mem p.levels table (walkIndex v)

end CrepOS.Interface
