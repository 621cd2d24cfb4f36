import CrepOS.Model.Mmap
import CrepOS.Analysis.SlabRealloc

/-!
# The bitmap of a page map in the kernel heap

`CrepOS.Model.Mmap` keeps the bytes of the bitmap outside of the heap and says what `kmm::recalloc`
does to them. With the caches that `main` makes this is what the model of the heap does
(`recalloc_bitmap`): the bitmap moves to an object of another size, its bytes are copied and the bytes
behind them are those that followed the old object; for more than 262144 bytes there is no cache, and
the copy goes to `NULL`.
-/

set_option autoImplicit false

namespace CrepOS.Analysis

open CrepOS.Library CrepOS.Model CrepOS.Interface

/-- The object sizes of the caches that `main` makes.
SRCLINE: kernel/main.cpp:62-75 -/
def mainCaches : List ℕ :=
  [32, 64, 128, 256, 512, 1024, 2048, 4096, 8192, 16384, 32768, 65536, 131072, 262144]

/-- The sizes that the bitmap grows to have a cache. -/
theorem roundSize_mem_mainCaches {j : ℕ} (hlow : 2 ≤ j) (hhigh : j ≤ 64) :
    roundSize (0x1000 * j) ∈ mainCaches := by
  have hall : ∀ j < 65, 2 ≤ j → roundSize (0x1000 * j) ∈ mainCaches := by decide
  exact hall j (by omega) hlow

section Bitmap

variable {st : HeapState} {o : Object} {cnt page : ℕ}

/-- INTERNAL: the caches that `main` made come first. -/
theorem mainCaches_first (hl : Layout st.heap st.slabs st.caches)
    (hcaches : st.caches.map (fun c => (st.heap.caches c).objectSize) = mainCaches) :
    (st.heap.caches st.heap.cacheRoot).objectSize = 32 ∧
      (st.heap.caches (st.heap.caches st.heap.cacheRoot).next).objectSize = 64 := by
  have hchain := hl.chain
  obtain ⟨c₁, rest, hcs, h₁, hrest⟩ := List.map_eq_cons_iff.mp hcaches
  obtain ⟨c₂, rest, rfl, h₂, -⟩ := List.map_eq_cons_iff.mp hrest
  rw [hcs] at hchain
  obtain ⟨hroot, -, hnext, -⟩ := hchain
  change (st.heap.caches c₁).next = c₂ at hnext
  rw [hroot, hnext]
  exact ⟨h₁, h₂⟩

/-- INTERNAL: without a cache for `cnt` bytes the copy goes to `NULL`.
SRCLINE: kernel/mm/slab.cpp:224-239 -/
theorem recalloc_without_cache (hinv : StateInv st) (ho : o ∈ st.live) (hcs : st.caches ≠ [])
    (hcnt : cnt ≠ 0) (hnone : ∀ c ∈ st.caches, (st.heap.caches c).objectSize ≠ roundSize cnt) :
    recalloc st.heap o.addr cnt page = none := by
  obtain ⟨s, hs, i, hslot, -, h₁, size, hfree, hh₁, -⟩ := free_fits hinv ho cnt
  have hfor : cacheFor h₁ cnt = some none := by
    have hsame : cacheFor h₁ cnt = cacheFor st.heap cnt := by
      rcases hh₁ with rfl | ⟨rfl, -⟩ <;> rfl
    rw [hsame, cacheFor_eq hinv.layout hcs, List.find?_eq_none.mpr]
    intro c hc
    simpa using hnone c hc
  simp only [recalloc, reallocWith, calloc, alloc, addr_ne_zero hinv ho, hfree, hfor, hcnt, if_true,
    if_false]

/-- **What `kmm::recalloc` does to a bitmap.** In every state of the heap that has the caches of `main`,
growing a bitmap of `size` bytes in the object `o` to `0x1000 * j` bytes gives the bytes that
`CrepOS.Model.recallocBitmap` says.
SRCLINE: kernel/mm/mmap.cpp:47-48 -/
theorem recalloc_bitmap {size j : ℕ} (hinv : StateInv st)
    (hcaches : st.caches.map (fun c => (st.heap.caches c).objectSize) = mainCaches)
    (ho : o ∈ st.live) (hsize : size ≤ o.size) (hle : size ≤ 0x1000 * j) (hlow : 2 ≤ j)
    (hhigh : 0x1000 * j ≤ 2 ^ 63) (hallowed : HeapOp.Allowed st (.alloc (0x1000 * j) page)) :
    ∃ behind, (recalloc st.heap o.addr (0x1000 * j) page).map (fun r a => r.1.mem (r.2 + a)) =
      recallocBitmap (fun a => st.heap.mem (o.addr + a)) size (0x1000 * j) behind := by
  have hround : 0x1000 * j ≤ roundSize (0x1000 * j) := le_roundSize (by omega) hhigh
  have hmem : ∀ n, n ∈ mainCaches ↔ ∃ c ∈ st.caches, (st.heap.caches c).objectSize = n := by
    intro n
    rw [← hcaches, List.mem_map]
  by_cases hbig : j ≤ 64
  · obtain ⟨hroot, hnext⟩ := mainCaches_first hinv.layout hcaches
    have hfits : CopyFits st.heap o.addr (0x1000 * j) := by
      refine ⟨fun _ _ => ?_, fun _ => ?_⟩
      · rw [hnext]
        omega
      · rw [hroot]
        omega
    have hreused : ¬ SlotReused st.heap o.addr (0x1000 * j) := by
      rintro ⟨hsame, -⟩
      omega
    obtain ⟨h, new, hresult, -, -, hcopy, -⟩ := recalloc_keeps hinv ho (by omega) hhigh hallowed
      ((hmem _).mp (roundSize_mem_mainCaches hlow hbig)) hfits hreused
    refine ⟨fun a => h.mem (new + a), ?_⟩
    rw [hresult, recallocBitmap, if_pos (by omega), Option.map_some, Option.some.injEq]
    funext a
    by_cases ha : a < size
    · rw [if_pos ha]
      exact hcopy a (by omega)
    · rw [if_neg ha]
  · refine ⟨fun _ => 0, ?_⟩
    have hnone : ∀ c ∈ st.caches, (st.heap.caches c).objectSize ≠ roundSize (0x1000 * j) := by
      intro c hc heq
      have hin := (hmem _).mpr ⟨c, hc, heq⟩
      have hle : ∀ n ∈ mainCaches, n ≤ 262144 := by decide
      have hmax := hle _ hin
      omega
    rw [recalloc_without_cache hinv ho hallowed.1 (by omega) hnone, recallocBitmap,
      if_neg (by omega), Option.map_none]

end Bitmap

end CrepOS.Analysis
