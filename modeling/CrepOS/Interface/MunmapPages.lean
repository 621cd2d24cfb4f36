import CrepOS.Interface.PageWalk
import CrepOS.Model.Munmap

/-!
# What `munmap` should do

`MunmapCorrect` says that `munmap` clears the bits of a range of pages and ends their translations, and
changes no other bit and no other translation. `MunmapMeets` is the condition on the state before the call
under which it does. It speaks about the addresses at which the loop of `unmap_range` arrives
(`visited`) and about the entries of the tables at which the lookup ends (`entryFound`).
-/

set_option autoImplicit false

namespace CrepOS.Interface

open CrepOS.Library CrepOS.Model

/-! ## The entry of an address -/

/-- One step of the lookup: it ends at a zero entry or at one that maps a page. -/
def leafStep (n : ℕ) (e : Word) : Word ⊕ Option (ℕ × Word) :=
  if e = 0 then .inr none
  else if isLeaf n e then .inr (some (n, e))
  else .inl (frameOf e)

/-- The entry for a page at the address `v`, with its level; it may be present or not. -/
def entryFound (p : Paging) (mem : Word → Index → Word) (root v : Word) : Option (ℕ × Word) :=
  (descend leafStep mem p.levels root (walkIndex v)).join

/-- The addresses `v` and `w` use the same indices down to level `n`. -/
def SameIndices (p : Paging) (n : ℕ) (v w : Word) : Prop :=
  ∀ k, n ≤ k → k < p.levels → walkIndex w k = walkIndex v k

theorem SameIndices.symm {p : Paging} {n : ℕ} {v w : Word} (h : SameIndices p n v w) : SameIndices p n w v :=
  fun k hk hkp => (h k hk hkp).symm

/-- The address `v` lies in the page that the entry of `a` is for. -/
def PageOf (p : Paging) (mem : Word → Index → Word) (root a v : Word) : Prop :=
  ∃ n e, entryFound p mem root a = some (n, e) ∧ SameIndices p n a v

/-- An entry without its present bit.
SRCLINE: kernel/mm/vmm.hpp:63, 81-87 -/
def clearPresent (e : Word) : Word := setBit e 1#64 false

/-! ## The loop -/

/-- The addresses at which `unmap_range` looks, when `page_length` holds the given values.
SRCLINE: kernel/mm/vmm.cpp:328-341, 367-381 -/
def visited : List Word → Word → List Word
  | [], _ => []
  | pageLength :: rest, vaddr => if pageLength = 0 then [] else vaddr :: visited rest (vaddr + pageLength)

/-- The address `b` can be unmapped after `a`: if nothing is left of the entry of `b` without its present
bit, `a` is not in the same page. -/
def NotGone (p : Paging) (mem : Word → Index → Word) (root a b : Word) : Prop :=
  ∀ n e, entryFound p mem root b = some (n, e) → clearPresent e = 0 → ¬ SameIndices p n b a

/-! ## The call -/

/-- The indices of the pages of a request, as far as the bitmap goes. -/
def UnmapRange (size index length k : ℕ) : Prop :=
  index ≤ k ∧ k < min (index + (length + 4095) / 4096) size

instance (size index length k : ℕ) : Decidable (UnmapRange size index length k) :=
  inferInstanceAs (Decidable (_ ∧ _))

/-- **What `munmap` should do** to the bitmap `m` of `size` bytes and to the tables. -/
def MunmapCorrect (p : Paging) (root : Word) (m : Memory) (size : ℕ) (vm : Vm) (addr : Word)
    (length : ℕ) (r : Option (PageMap × Vm × ℤ)) : Prop :=
  if size ≤ bmIndex addr.toNat then r = some (⟨some m, size⟩, vm, -1)
  else
    ∃ m' vm', r = some (⟨some m', size⟩, vm', 0) ∧
      (∀ k, m'.bit 0 k = (!decide (UnmapRange size (bmIndex addr.toNat) length k) && m.bit 0 k)) ∧
      ∀ v, Canonical p v → translate p vm'.mem root v =
        if UnmapRange size (bmIndex addr.toNat) length (bmIndex v.toNat) then none
        else translate p vm.mem root v

/-- **The condition on a call.** The page is behind the bitmap, or: the loop over the bits and the range
have the same pages in use; the loop over the pages arrives only at addresses that have an entry; and it
arrives at a page that is present if and only if the page is in the range. -/
def MunmapMeets (p : Paging) (root : Word) (m : Memory) (size : ℕ) (vm : Vm) (addr : Word) (length : ℕ)
    (lengths : ℕ → Word) : Prop :=
  let index := bmIndex addr.toNat
  let cnt := munmapCnt size index length
  let addrs := visited ((List.range cnt).map lengths) addr
  size ≤ index ∨
    (∀ k, m.bit 0 k = true → (index ≤ k ∧ k < index + rangeCnt index cnt ↔ UnmapRange size index length k)) ∧
    (∀ a ∈ addrs, (entryFound p vm.mem root a).isSome) ∧
    addrs.Pairwise (NotGone p vm.mem root) ∧
    ∀ v, Canonical p v → (translate p vm.mem root v).isSome →
      (UnmapRange size index length (bmIndex v.toNat) ↔ ∃ a ∈ addrs, PageOf p vm.mem root a v)

end CrepOS.Interface
