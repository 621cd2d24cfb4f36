import CrepOS.Interface.SlabHeap
import Mathlib.Data.Finset.Card

/-!
# Where slabs, caches and objects lie

`Layout` is the part of the heap invariant that calls of `alloc` and `free` do not change for the
slabs and caches that exist: the caches are a chain, the pages of different slabs are disjoint, and
the buffer of a slab lies behind its header, its bitmap and the cache that is embedded in it, and
inside its pages. The number of pages is computed for a buffer directly behind the bitmap. The buffer
starts up to 104 bytes later, because of the alignment of a signed address and of the embedded cache,
and fits because the rounding leaves at least 176 bytes (`buffer_fits`).
-/

set_option autoImplicit false

namespace CrepOS.Analysis

open CrepOS.Library CrepOS.Model CrepOS.Interface

/-! ## Sizes and offsets -/

theorem pagesPerSlab_eq {n : ℕ} (h : n * 256 + 4176 ≤ 2 ^ 63) :
    pagesPerSlab n = (n * 256 + 4175) / 4096 := by
  have hwrap : wrap (n * objectsPerSlab + slabSize + objectsPerSlab / 8) = n * 256 + 80 := by
    simp only [objectsPerSlab, slabSize]
    rw [wrap_of_lt (by omega)]
  unfold pagesPerSlab
  rw [hwrap, toSigned_of_lt (by omega), divRoundup_pageSize (by simp only [pageSize]; omega),
    ofSigned_natCast (by omega)]

/-- INTERNAL: the slack that the rounding leaves. -/
theorem buffer_fits {n : ℕ} (h : n * 256 + 4176 ≤ 2 ^ 63) :
    n * 256 + 256 ≤ pagesPerSlab n * pageSize := by
  rw [pagesPerSlab_eq h]
  clear h
  simp only [pageSize]
  omega

/-- The distance of the buffer of a slab from its header. The address is aligned as a signed number,
and in the upper half, where the division rounds towards zero, an aligned address is moved by 16. -/
def bufOffset (page : ℕ) : ℕ := if page < 2 ^ 63 then 80 else 96

theorem bufOffset_bounds (page : ℕ) : 80 ≤ bufOffset page ∧ bufOffset page ≤ 96 := by
  unfold bufOffset
  split <;> omega

theorem newSlab_buf (parent : ℕ) {page : ℕ} (hpage : page % pageSize = 0)
    (hbound : page + 4096 ≤ 2 ^ 64) : (newSlab parent page).buf = page + bufOffset page := by
  simp only [pageSize] at hpage
  have hwrap : wrap (page + slabSize + objectsPerSlab / 8) = page + 80 :=
    wrap_of_lt (by simp only [slabSize, objectsPerSlab]; omega)
  have h15 : wrapSigned ((16 : ℤ) - 1) = 15 := by decide
  unfold newSlab bufOffset
  simp only [hwrap]
  unfold alignUp divRoundup
  rw [h15]
  by_cases hlow : page < 2 ^ 63
  · have hz : toSigned (page + 80) = (page : ℤ) + 80 := by
      rw [toSigned_of_lt (by omega)]
      push_cast
      rfl
    have hdiv : ((page : ℤ) + 80 + 15).tdiv 16 = (page + 80) / 16 := by
      rw [Int.tdiv_eq_ediv_of_nonneg (by omega)]
      omega
    rw [if_pos hlow, hz, wrapSigned_of_bounds (z := (page : ℤ) + 80 + 15) (by omega) (by omega),
      hdiv, wrapSigned_of_bounds (z := ((page : ℤ) + 80) / 16) (by omega) (by omega),
      wrapSigned_of_bounds (by omega) (by omega)]
    unfold ofSigned
    omega
  · have hz : toSigned (page + 80) = (page : ℤ) + 80 - 2 ^ 64 := by
      unfold toSigned wrapSigned
      rw [Int.bmod_def]
      omega
    have hdiv : ((page : ℤ) + 80 - 2 ^ 64 + 15).tdiv 16 = ((page : ℤ) + 80 - 2 ^ 64) / 16 + 1 := by
      have hneg : ((page : ℤ) + 80 - 2 ^ 64 + 15) = -(2 ^ 64 - page - 95) := by omega
      rw [hneg, Int.neg_tdiv, Int.tdiv_eq_ediv_of_nonneg (by omega)]
      omega
    rw [if_neg hlow, hz,
      wrapSigned_of_bounds (z := (page : ℤ) + 80 - 2 ^ 64 + 15) (by omega) (by omega), hdiv,
      wrapSigned_of_bounds (z := ((page : ℤ) + 80 - 2 ^ 64) / 16 + 1) (by omega) (by omega),
      wrapSigned_of_bounds (by omega) (by omega)]
    unfold ofSigned
    omega

/-! ## The layout -/

/-- The sizes of a cache: objects are not empty, and the size of a slab does not overflow. -/
def SizesOk (e : Cache) : Prop :=
  0 < e.objectSize ∧ e.objectSize * 256 + 4176 ≤ 2 ^ 63 ∧
    e.pagesPerSlab = pagesPerSlab e.objectSize

/-- Where the parts of the slab `s` lie. -/
structure SlabOk (h : Heap) (cs : List ℕ) (s : ℕ) : Prop where
  parent : (h.slabs s).parent ∈ cs
  pos : 0 < s
  bitmap : (h.slabs s).bitmap = s + 48
  low : s + 80 ≤ (h.slabs s).buf
  fits : (h.slabs s).buf + (h.caches (h.slabs s).parent).objectSize * 256 < s + slabBytes h s
  bound : s + slabBytes h s ≤ 2 ^ 64

/-- The slabs `ss` and the caches `cs` of the heap. -/
structure Layout (h : Heap) (ss cs : List ℕ) : Prop where
  chain : Chain 0 (fun c => (h.caches c).next) h.cacheRoot cs
  cachesNodup : cs.Nodup
  cacheCnt : h.cacheCnt = cs.length
  slabsNodup : ss.Nodup
  slabCnt : h.slabCnt = ss.length
  sizes : ∀ c ∈ cs, SizesOk (h.caches c)
  slab : ∀ s ∈ ss, SlabOk h cs s
  apart : ∀ s ∈ ss, ∀ t ∈ ss, s ≠ t → s + slabBytes h s ≤ t ∨ t + slabBytes h t ≤ s
  embedded : ∀ c ∈ cs, ∃ s ∈ ss, (h.slabs s).parent = c ∧ s + 80 ≤ c ∧ c + 88 ≤ (h.slabs s).buf

/-- What a call keeps of the slabs `ss` and the caches `cs`. -/
structure SameGeometry (ss cs : List ℕ) (h h' : Heap) : Prop where
  slab : ∀ s ∈ ss, (h'.slabs s).parent = (h.slabs s).parent ∧
    (h'.slabs s).buf = (h.slabs s).buf ∧ (h'.slabs s).bitmap = (h.slabs s).bitmap
  cache : ∀ c ∈ cs, (h'.caches c).objectSize = (h.caches c).objectSize ∧
    (h'.caches c).pagesPerSlab = (h.caches c).pagesPerSlab

section Layout

variable {h h' : Heap} {ss cs : List ℕ}

theorem SameGeometry.refl (h : Heap) (ss cs : List ℕ) : SameGeometry ss cs h h :=
  ⟨fun _ _ => ⟨rfl, rfl, rfl⟩, fun _ _ => ⟨rfl, rfl⟩⟩

theorem SameGeometry.trans {h₂ : Heap} (h₁ : SameGeometry ss cs h h')
    (h₂' : SameGeometry ss cs h' h₂) : SameGeometry ss cs h h₂ := by
  constructor
  · intro s hs
    obtain ⟨p₁, b₁, m₁⟩ := h₁.slab s hs
    obtain ⟨p₂, b₂, m₂⟩ := h₂'.slab s hs
    exact ⟨p₂.trans p₁, b₂.trans b₁, m₂.trans m₁⟩
  · intro c hc
    exact ⟨(h₂'.cache c hc).1.trans (h₁.cache c hc).1, (h₂'.cache c hc).2.trans (h₁.cache c hc).2⟩

theorem SameGeometry.slabBytes (hsame : SameGeometry ss cs h h') {s : ℕ} (hs : s ∈ ss)
    (hc : (h.slabs s).parent ∈ cs) : slabBytes h' s = slabBytes h s := by
  unfold Interface.slabBytes
  rw [(hsame.slab s hs).1, (hsame.cache _ hc).2]

theorem SlabOk.congr {cs' : List ℕ} {s : ℕ} (hok : SlabOk h cs s) (hs : s ∈ ss)
    (hsame : SameGeometry ss cs h h') (hsub : ∀ c ∈ cs, c ∈ cs') : SlabOk h' cs' s := by
  obtain ⟨hp, hb, hm⟩ := hsame.slab s hs
  have hbytes := hsame.slabBytes hs hok.parent
  have hsize := (hsame.cache _ hok.parent).1
  refine ⟨?_, hok.pos, ?_, ?_, ?_, ?_⟩
  · rw [hp]
    exact hsub _ hok.parent
  · rw [hm]
    exact hok.bitmap
  · rw [hb]
    exact hok.low
  · rw [hb, hp, hsize, hbytes]
    exact hok.fits
  · rw [hbytes]
    exact hok.bound

/-- A call that makes neither slabs nor caches keeps the layout. -/
theorem Layout.congr (hl : Layout h ss cs) (hsame : SameGeometry ss cs h h')
    (hnext : ∀ c ∈ cs, (h'.caches c).next = (h.caches c).next) (hroot : h'.cacheRoot = h.cacheRoot)
    (hscnt : h'.slabCnt = h.slabCnt) (hccnt : h'.cacheCnt = h.cacheCnt) : Layout h' ss cs := by
  refine ⟨?_, hl.cachesNodup, hccnt.trans hl.cacheCnt, hl.slabsNodup, hscnt.trans hl.slabCnt,
    ?_, ?_, ?_, ?_⟩
  · rw [hroot]
    exact hl.chain.congr hnext
  · intro c hc
    rw [SizesOk, (hsame.cache c hc).1, (hsame.cache c hc).2]
    exact hl.sizes c hc
  · intro s hs
    exact (hl.slab s hs).congr hs hsame fun _ hc => hc
  · intro s hs t ht hst
    rw [hsame.slabBytes hs (hl.slab s hs).parent, hsame.slabBytes ht (hl.slab t ht).parent]
    exact hl.apart s hs t ht hst
  · intro c hc
    obtain ⟨s, hs, hp, hlow, hhigh⟩ := hl.embedded c hc
    refine ⟨s, hs, (hsame.slab s hs).1.trans hp, hlow, ?_⟩
    rw [(hsame.slab s hs).2.1]
    exact hhigh

/-- A new slab, and a new cache if `cs'` has one more, keep the layout. -/
theorem Layout.grow (hl : Layout h ss cs) {cs' : List ℕ} {page : ℕ}
    (hsame : SameGeometry ss cs h h') (hsub : ∀ c ∈ cs, c ∈ cs')
    (hchain : Chain 0 (fun c => (h'.caches c).next) h'.cacheRoot cs') (hnodup : cs'.Nodup)
    (hccnt : h'.cacheCnt = cs'.length) (hscnt : h'.slabCnt = h.slabCnt + 1)
    (hsizes : ∀ c ∈ cs', SizesOk (h'.caches c)) (hslab : SlabOk h' cs' page) (hpage : page ∉ ss)
    (hfresh : ∀ s ∈ ss, page + slabBytes h' page ≤ s ∨ s + slabBytes h s ≤ page)
    (hemb : ∀ c ∈ cs', c ∈ cs ∨
      (h'.slabs page).parent = c ∧ page + 80 ≤ c ∧ c + 88 ≤ (h'.slabs page).buf) :
    Layout h' (ss ++ [page]) cs' := by
  have hbytes : ∀ s ∈ ss, slabBytes h' s = slabBytes h s := by
    intro s hs
    exact hsame.slabBytes hs (hl.slab s hs).parent
  refine ⟨hchain, hnodup, hccnt, ?_, ?_, hsizes, ?_, ?_, ?_⟩
  · rw [List.nodup_append]
    refine ⟨hl.slabsNodup, List.nodup_singleton page, ?_⟩
    rintro s hs t ht rfl
    exact hpage (List.mem_singleton.mp ht ▸ hs)
  · rw [hscnt, hl.slabCnt, List.length_append, List.length_singleton]
  · intro s hs
    rcases List.mem_append.mp hs with hs | hs
    · exact (hl.slab s hs).congr hs hsame hsub
    · rw [List.mem_singleton.mp hs]
      exact hslab
  · intro s hs t ht hst
    rcases List.mem_append.mp hs with hs | hs
    · rcases List.mem_append.mp ht with ht | ht
      · rw [hbytes s hs, hbytes t ht]
        exact hl.apart s hs t ht hst
      · rw [List.mem_singleton.mp ht, hbytes s hs]
        exact (hfresh s hs).symm
    · obtain rfl := List.mem_singleton.mp hs
      rcases List.mem_append.mp ht with ht | ht
      · rw [hbytes t ht]
        exact hfresh t ht
      · exact absurd (List.mem_singleton.mp ht).symm hst
  · intro c hc
    rcases hemb c hc with hold | hnew
    · obtain ⟨s, hs, hp, hlow, hhigh⟩ := hl.embedded c hold
      refine ⟨s, List.mem_append_left _ hs, (hsame.slab s hs).1.trans hp, hlow, ?_⟩
      rw [(hsame.slab s hs).2.1]
      exact hhigh
    · exact ⟨page, List.mem_append_right _ (List.mem_singleton_self page), hnew⟩

theorem Layout.root_mem (hl : Layout h ss cs) (hcs : cs ≠ []) : h.cacheRoot ∈ cs := by
  have hchain := hl.chain
  cases cs with
  | nil => exact absurd rfl hcs
  | cons c cs =>
    rw [hchain.1]
    exact List.mem_cons_self

/-- INTERNAL: the cache structure in the pages of a slab lies before its buffer. -/
theorem Layout.cache_below_buf (hl : Layout h ss cs) {c s : ℕ} (hc : c ∈ cs) (hs : s ∈ ss)
    (hlow : s ≤ c) (hhigh : c < s + slabBytes h s) : c + 88 ≤ (h.slabs s).buf := by
  obtain ⟨t, ht, -, htlow, hthigh⟩ := hl.embedded c hc
  have hfits := (hl.slab t ht).fits
  by_cases hst : s = t
  · rw [hst]
    exact hthigh
  · rcases hl.apart s hs t ht hst with h | h <;> omega

end Layout

end CrepOS.Analysis
