import CrepOS.Model.Pmm

/-!
# What an allocation of pages promises

An index of a chunk fits a request if its page has an address of the right alignment and if `cnt` bits
from it on are clear. `mem_chunk::alloc` has to answer from the least index that fits, `pmm::alloc` from
the first chunk with one.

Only the index has to be below `page_cnt`: the window may end behind it.
-/

set_option autoImplicit false

namespace CrepOS.Interface

open CrepOS.Library CrepOS.Model

/-- The page `k` of a chunk has an aligned address and starts a window of clear bits. -/
structure FitsIndex (m : Memory) (c : MemChunk) (cnt align k : ℕ) : Prop where
  lt : k < c.pageCnt
  aligned : align * pageSize ∣ c.base + k * pageSize
  clear : ∀ j, k ≤ j → j < k + cnt → bmTest m c.bitmap j = false

/-- Some index of the chunk fits. -/
def HasIndex (m : Memory) (c : MemChunk) (cnt align : ℕ) : Prop := ∃ k, FitsIndex m c cnt align k

/-- No sum or product of the call overflows: `align_up` computes with signed words, the loops with
unsigned ones. -/
structure NoOverflow (c : MemChunk) (cnt align : ℕ) : Prop where
  rounding : c.base + align * pageSize < 2 ^ 63
  pages : c.base + c.pageCnt * pageSize ≤ 2 ^ 64
  window : c.pageCnt + cnt ≤ 2 ^ 64

/-- The answer `a` is the address of the least index that fits, and its window is what is set. -/
structure FirstFitAt (s t : Pmm) (c : MemChunk) (cnt align k a : ℕ) : Prop where
  fits : FitsIndex s.mem c cnt align k
  least : ∀ i < k, ¬ FitsIndex s.mem c cnt align i
  address : a = c.base + k * pageSize
  bits : ∀ j, bmTest t.mem c.bitmap j = (decide (k ≤ j ∧ j < k + cnt) || bmTest s.mem c.bitmap j)
  below : ∀ b < c.bitmap, t.mem b = s.mem b
  chunks : t.chunks = s.chunks

/-- What a call of `mem_chunk::alloc` promises. -/
def ChunkAnswers (s : Pmm) (c : MemChunk) (cnt align : ℕ) : Prop :=
  ∃ t a, c.alloc s cnt align = some (t, a) ∧
    (a = minusOne → t = s ∧ ¬ HasIndex s.mem c cnt align) ∧
    (a ≠ minusOne → align * pageSize ∣ a ∧ ∃ k, FirstFitAt s t c cnt align k a)

/-- What a call of `pmm::alloc` promises. -/
def PmmAnswers (s : Pmm) (cnt align : ℕ) : Prop :=
  ∃ t a, s.alloc cnt align = some (t, a) ∧
    (a = minusOne ↔ ∀ c ∈ s.chunks, ¬ HasIndex s.mem c cnt align) ∧
    (a = minusOne → t = s) ∧
    (a ≠ minusOne → ∃ before c after k, s.chunks = before ++ c :: after ∧
      (∀ d ∈ before, ¬ HasIndex s.mem d cnt align) ∧ FirstFitAt s t c cnt align k a)

end CrepOS.Interface
