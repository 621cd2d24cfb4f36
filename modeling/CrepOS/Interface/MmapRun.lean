import CrepOS.Library.Run
import CrepOS.Model.Mmap
import Mathlib.Data.List.Count

/-!
# Runs of `mmap` and `munmap` on one page map

A state is a page map together with the regions that `mmap` has returned and that are not unmapped yet.
`MmapOp.Allowed` is what the callers promise. `MmapOp.Sound` is the condition under which a call does
not return a region in use: the hint, if there is one, is not taken, and the pages at which the search
arrives are free (`SearchFree`).

The search counts every occupied page it meets twice. It stops at the first `e` such that the last
`n - 1` of the pages below `e` are free (`FirstRun`), and then returns the `n` pages below
`e + occupied e`, which it has not looked at. `FirstFit` is what a search for free pages should do, and
`RunsMeet` says of a bitmap that the search does it all the same.
-/

set_option autoImplicit false

namespace CrepOS.Interface

open CrepOS.Library CrepOS.Model

/-- A region that `mmap` has returned for a request of `length` bytes. -/
structure Region where
  addr : ℕ
  length : ℕ
  deriving DecidableEq

/-- The length of a region, rounded up to pages. -/
def Region.pages (r : Region) : ℕ := (r.length + 4095) / 4096

/-- Two regions share no page. -/
def Region.Apart (r s : Region) : Prop :=
  r.addr + r.pages * pageSize ≤ s.addr ∨ s.addr + s.pages * pageSize ≤ r.addr

instance Region.decidableApart (r s : Region) : Decidable (r.Apart s) := inferInstanceAs (Decidable (_ ∨ _))

structure MmapState where
  pm : PageMap
  regions : List Region

/-- The calls; `behind` are the bytes that `kmm::recalloc` finds behind the bitmap. -/
inductive MmapOp
  | mmap (addr length : ℕ) (behind : List Memory)
  | munmap (r : Region)

/-- What a call does. A region is unmapped if `munmap` returns `0`. -/
def MmapState.exec (st : MmapState) : MmapOp → Option MmapState
  | .mmap addr length behind =>
    (mmap st.pm addr length mapAnonymous behind).map fun r => ⟨r.1, ⟨r.2, length⟩ :: st.regions⟩
  | .munmap r =>
    let (pm, ret) := munmap st.pm r.addr r.length
    some ⟨pm, if ret = 0 then st.regions.erase r else st.regions⟩

/-- What is promised: lengths are positive, a hint is the address of a page and its pages have bits in
the bitmap, and whole regions are unmapped. -/
def MmapOp.Allowed (st : MmapState) : MmapOp → Prop
  | .mmap addr length _ => 0 < length ∧ length < 2 ^ 64 ∧ (addr = 0 ∨ addr < 2 ^ 64 ∧
      addr % pageSize = 0 ∧ mmapMinAddr ≤ addr ∧
      (addr - mmapMinAddr) / pageSize + (length + 4095) / 4096 ≤ 8 * st.pm.init.bmSize)
  | .munmap r => r ∈ st.regions

instance MmapOp.decidableAllowed (st : MmapState) (op : MmapOp) : Decidable (op.Allowed st) :=
  match op with
  | .mmap _ _ _ => inferInstanceAs (Decidable (_ ∧ _ ∧ (_ ∨ _ ∧ _ ∧ _ ∧ _)))
  | .munmap r => inferInstanceAs (Decidable (r ∈ st.regions))

/-! ## The condition -/

/-- The number of occupied pages below the page `e`. -/
def occupied (m : Memory) (e : ℕ) : ℕ := (List.range e).countP (m.bit 0)

/-- The last `n - 1` of the pages below `e` are free. -/
def RunEnd (m : Memory) (n e : ℕ) : Prop := n ≤ e ∧ ∀ k < e, e < k + n → m.bit 0 k = false

/-- The first such `e`. -/
def FirstRun (m : Memory) (n e : ℕ) : Prop := RunEnd m n e ∧ ∀ e' < e, ¬ RunEnd m n e'

/-- The `n` pages from `i` on are free. -/
def FreePages (m : Memory) (i n : ℕ) : Prop := ∀ k, i ≤ k → k < i + n → m.bit 0 k = false

/-- The search for `n` pages in the bitmap `m`, whose size is `size`, arrives at free pages; if it finds
no run it goes on in the bitmap that `kmm::recalloc` returns. -/
def SearchFree (n : ℕ) : List Memory → Memory → ℕ → Prop
  | [], m, size => ∀ e ≤ size, FirstRun m n e → FreePages m (e + occupied m e - n) n
  | b :: behind, m, size =>
    (∀ e ≤ size, FirstRun m n e → FreePages m (e + occupied m e - n) n) ∧
      ((∀ e ≤ size, ¬ RunEnd m n e) → ∀ m', recallocBitmap m size (grownSize size) b = some m' →
        SearchFree n behind m' (grownSize size))

/-- The condition on a call: a page of the hint is in use, so that the hint is not taken, and the search
arrives at free pages. -/
def MmapOp.Sound (st : MmapState) : MmapOp → Prop
  | .mmap addr length behind => ∀ m, st.pm.init.bitmap = some m →
      (addr ≠ 0 → ∃ k < rangeCnt (bmIndex addr) (pageCnt length), m.bit 0 (bmIndex addr + k) = true) ∧
      SearchFree (pageCnt length) behind m st.pm.init.bmSize
  | .munmap _ => True

/-! ## First fit -/

/-- The first place in the bitmap with `n` free pages in a row. -/
def FirstFree (m : Memory) (n s : ℕ) : Prop := FreePages m s n ∧ ∀ s' < s, ¬ FreePages m s' n

/-- `mmap_alloc` has answered a request for `n` pages with the address `a`: the pages from there on were
the first free ones of the bitmap `m` of `size` bits, and their bits are the ones that it has set. -/
structure FirstFit (m : Memory) (size n : ℕ) (pm : PageMap) (a : ℕ) : Prop where
  free : FreePages m (bmIndex a) n
  below : bmIndex a + n ≤ size
  lowest : ∀ s < bmIndex a, ¬ FreePages m s n
  marks : ∃ m', pm = ⟨some m', size⟩ ∧
    ∀ k, m'.bit 0 k = (decide (bmIndex a ≤ k ∧ k < bmIndex a + n) || m.bit 0 k)

/-- The first `n` free pages are pages of the bitmap, and they lie as far behind the first run whose
last `n - 1` pages are free as there are occupied pages before the end of that run. An address has `52`
bits for the page. -/
def RunsMeet (m : Memory) (size n : ℕ) : Prop :=
  ∃ s e, FirstFree m n s ∧ s + n ≤ size ∧ FirstRun m n e ∧
    s < 2 ^ 52 ∧ occupied m e % 2 ^ 52 = (s + n - e) % 2 ^ 52

/-- A page map without regions. The constructor leaves `bm_size` open as long as there is no bitmap. -/
def MmapState.Initial (st : MmapState) : Prop :=
  st.regions = [] ∧ (st.pm.bitmap.isSome → st.pm.bmSize ≤ 262144)

/-- The calls that are allowed and meet the condition. -/
def mmapStep : MmapState → MmapOp → MmapState → Prop :=
  Guarded (fun st op => op.Allowed st ∧ op.Sound st) fun st op st' => st.exec op = some st'

end CrepOS.Interface
