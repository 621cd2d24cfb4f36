import CrepOS.Model.Mmap
import CrepOS.Model.Vmm

/-!
# `munmap` and the page tables, `mm/mmap.cpp`

`CrepOS.Model.Mmap` has what `munmap` does to the bitmap. Here it also calls `unmap_range`, whose loop goes
on by the member `page_length`, which the constructor of the looked up address leaves uninitialised: what
it holds in each iteration is an argument.
-/

set_option autoImplicit false

namespace CrepOS.Model

/-- `page_cnt` of `munmap` after it is compared with `bm_size`.
SRCLINE: kernel/mm/mmap.cpp:108-114 -/
def munmapCnt (size index length : ℕ) : ℕ :=
  if size < wrap (index + pageCnt length) then size - index else pageCnt length

/-- `munmap`, with the value it returns; `lengths i` is the `page_length` of the iteration `i` of
`unmap_range`. There is no result if `unmap` follows a `NULL` pointer.
SRCLINE: kernel/mm/mmap.cpp:106-123 -/
def munmapAt (p : Paging) (root : Word) (pm : PageMap) (vm : Vm) (addr : Word) (length : ℕ)
    (lengths : ℕ → Word) : Option (PageMap × Vm × ℤ) :=
  let index := bmIndex addr.toNat
  if pm.bmSize ≤ index then some (pm, vm, -1)
  else
    let cnt := munmapCnt pm.bmSize index length
    let pm := { pm with bitmap := pm.bitmap.map fun m => m.clearRun 0 index (rangeCnt index cnt) }
    (unmapRange p root ((List.range cnt).map lengths) addr vm).map fun vm => (pm, vm, 0)

end CrepOS.Model
