import CrepOS.Interface.MmapRun
import Mathlib.Data.Nat.Find

/-!
# `mmap_alloc` on a heap that does not run out

`mmap_alloc` calls itself with a larger bitmap until it finds a run. `mmapAllocZeroed` is `mmap_alloc` with
a `kmm::recalloc` that always has an object, keeps the old bytes and fills the others with zeros, so that
nothing but the loop decides whether the calls come to an end. `bm_size` is a `size_t`: after
`2^64 - 0x1000` bytes it starts again, with the bytes that are left of the old object.
`GrowthEnds` is the condition under which the calls end.
-/

set_option autoImplicit false

namespace CrepOS.Interface

open CrepOS.Library CrepOS.Model

/-- The object of `cnt` bytes that replaces one of `size` bytes. -/
def recallocZeroed (m : Memory) (size cnt : ℕ) : Memory := fun a => if a < size ∧ a < cnt then m a else 0

/-- `mmap_alloc` on such a heap, for at most `fuel` calls.
SRCLINE: kernel/mm/mmap.cpp:8-50 -/
def mmapAllocZeroed (addr length flags : ℕ) : ℕ → PageMap → Option (PageMap × ℕ)
  | 0, _ => none
  | fuel + 1, pm =>
    match pm.init.bitmap with
    | none => none
    | some m =>
      match mmapTry addr length flags m pm.init.bmSize with
      | some r => some r
      | none => mmapAllocZeroed addr length flags fuel
          ⟨some (recallocZeroed m pm.init.bmSize (grownSize pm.init.bmSize)), grownSize pm.init.bmSize⟩

/-- The last page in use of those whose bits are still there when `bm_size` has started again, or `0`. -/
def lastUsed (pm : PageMap) : ℕ :=
  match pm.init.bitmap with
  | none => 0
  | some m => Nat.findGreatest (fun k => m.bit 0 k = true) (8 * (pm.init.bmSize % 0x1000) - 1)

/-- **The condition on a call**: the mapping is fixed, or the page count is positive and so many pages
have bits behind the last one in use, in the largest bitmap. -/
def GrowthEnds (pm : PageMap) (length flags : ℕ) : Prop :=
  flags &&& mapFixed ≠ 0 ∨
    0 < pageCnt length ∧ lastUsed pm + pageCnt length ≤ pm.init.bmSize % 0x1000 + (2 ^ 64 - 0x1000)

end CrepOS.Interface
