import CrepOS.Analysis.SlabExclusive

/-!
# When `kmm::realloc` and `kmm::recalloc` keep the contents of an object

Both copy `max(cnt, size)` bytes, where `size` is what `kmm::free` answers: the object size of the
first cache, or of the second one if the object is in the first partial or full slab of the first
cache. So `kmm::realloc` writes past the new object unless that size is at most the size of the new
object (`CopyFits`), and `kmm::recalloc` also copies what is behind the old object if `cnt` is more
than its size, and clears the contents before it copies them if it gets the same slot again
(`SlotReused`). In all other cases they do what their callers expect (`realloc_keeps_contents`).
-/

set_option autoImplicit false

namespace CrepOS.Analysis

open CrepOS.Library CrepOS.Model CrepOS.Interface

/-! ## Sizes -/

/-- The object size that is looked for is at least the size that was asked for.
SRCLINE: kernel/mm/slab.cpp:154-156 -/
theorem le_roundSize {cnt : ℕ} (h₁ : 1 ≤ cnt) (h₂ : cnt ≤ 2 ^ 63) : cnt ≤ roundSize cnt := by
  have hround : cnt ≤ pow2Roundup cnt := by
    have hpred : wrap (cnt + (2 ^ 64 - 1)) = cnt - 1 := by
      unfold wrap
      omega
    have hspread : ∀ a b : ℕ, a < 2 ^ 63 → a ≤ a ||| a >>> b ∧ a ||| a >>> b < 2 ^ 63 := by
      intro a b ha
      refine ⟨Nat.left_le_or, Nat.or_lt_two_pow ha ?_⟩
      exact lt_of_le_of_lt (Nat.shiftRight_le a b) ha
    have h₀ : cnt - 1 < 2 ^ 63 := by omega
    simp only [pow2Roundup, hpred]
    have h₁ := hspread (cnt - 1) 1 h₀
    generalize (cnt - 1) ||| (cnt - 1) >>> 1 = a₁ at *
    have h₂ := hspread a₁ 2 h₁.2
    generalize a₁ ||| a₁ >>> 2 = a₂ at *
    have h₃ := hspread a₂ 4 h₂.2
    generalize a₂ ||| a₂ >>> 4 = a₃ at *
    have h₄ := hspread a₃ 8 h₃.2
    generalize a₃ ||| a₃ >>> 8 = a₄ at *
    have h₅ := hspread a₄ 16 h₄.2
    generalize a₄ ||| a₄ >>> 16 = a₅ at *
    rw [wrap_of_lt (by omega)]
    omega
  unfold roundSize
  split <;> omega

/-! ## The condition -/

/-- What `kmm::free` answers for the address `p` is at most the size of the new object. -/
def CopyFits (h : Heap) (p cnt : ℕ) : Prop :=
  ((∃ s, IsHead h h.cacheRoot s ∧ InBuffer h s p) → (h.caches h.cacheRoot).next ≠ 0 →
    (h.caches (h.caches h.cacheRoot).next).objectSize ≤ roundSize cnt) ∧
  ((¬ ∃ s, IsHead h h.cacheRoot s ∧ InBuffer h s p) →
    (h.caches h.cacheRoot).objectSize ≤ roundSize cnt)

/-- The slot at `p` is the first one that is free again: it is in the partial slab of the first cache,
which is the cache for `cnt` bytes, and all slots before it are in use. -/
def SlotReused (h : Heap) (p cnt : ℕ) : Prop :=
  (h.caches h.cacheRoot).objectSize = roundSize cnt ∧ (h.caches h.cacheRoot).slabPartial ≠ 0 ∧
    InBuffer h (h.caches h.cacheRoot).slabPartial p ∧
    ∀ k < slotIndex h (h.caches h.cacheRoot).slabPartial p,
      h.mem.bit ((h.caches h.cacheRoot).slabPartial + 48) k = true

/-- The call returned an object for `cnt` bytes that is apart from all other live objects, with the
first bytes of `o`, and no byte of another live object changed. -/
def KeepsContents (st : HeapState) (o : Object) (cnt : ℕ) (result : Option (Heap × ℕ)) : Prop :=
  ∃ h new, result = some (h, new) ∧ cnt ≤ roundSize cnt ∧
    (∀ p ∈ st.live, p.addr ≠ o.addr → Object.Apart ⟨new, roundSize cnt⟩ p) ∧
    (∀ k < min o.size cnt, h.mem (new + k) = st.heap.mem (o.addr + k)) ∧
    ∀ p ∈ st.live, p.addr ≠ o.addr → ∀ a, p.addr ≤ a → a < p.addr + p.size →
      h.mem a = st.heap.mem a

section Realloc

variable {st : HeapState} {o : Object} {cnt page : ℕ}

/-- INTERNAL: the memory of a live object, and of the object that was just freed, is not touched by
`kmm::free` and `kmm::alloc`. -/
theorem object_bytes {h h₁ g h₂ : Heap} {ss ss' cs : List ℕ} {s i s₂ i₂ t j a : ℕ} {p : Object}
    (hl : Layout h ss cs) (hs : s ∈ ss) (hi : i < 256) (hh₁ : h₁ = h ∨ h₁ = clearSlot h s i)
    (hkeep : ∀ s ∈ ss, ∀ a, s ≤ a → a < s + slabBytes h s → g.mem a = h₁.mem a)
    (hlg : Layout g ss' cs) (htaken : SlotTaken g h₂ ss' cs s₂ i₂) (ht : t ∈ ss) (ht' : t ∈ ss')
    (hslot : IsSlot h p t j) (hslot' : IsSlot g p t j) (hlow : p.addr ≤ a)
    (hhigh : a < p.addr + p.size) : h₂.mem a = h.mem a := by
  have hbounds := hslot.bounds (hl.slab t ht)
  have htlow := (hl.slab t ht).low
  have hset : h₂.mem a = g.mem a := by
    rw [htaken.mem]
    exact setBit_outside g.mem htaken.index a
      (hslot'.not_bitmap hlg ht' hlow hhigh htaken.slab)
  rw [hset, hkeep t ht a (by omega) (by omega)]
  rcases hh₁ with rfl | rfl
  · rfl
  · exact clearBit_outside h.mem hi a (hslot.not_bitmap hl ht hlow hhigh hs)

/-- INTERNAL: what `kmm::free` does to the slot of a live object, and its answer. -/
theorem free_fits (hinv : StateInv st) (ho : o ∈ st.live) (cnt : ℕ) :
    ∃ s ∈ st.slabs, ∃ i, IsSlot st.heap o s i ∧ st.heap.mem.bit (s + 48) i = true ∧
      ∃ h₁ size, free st.heap o.addr = some (h₁, size) ∧
        (h₁ = st.heap ∨ h₁ = clearSlot st.heap s i ∧ IsHead st.heap st.heap.cacheRoot s ∧
          (st.heap.slabs s).parent = st.heap.cacheRoot) ∧
        (CopyFits st.heap o.addr cnt → size ≤ roundSize cnt) := by
  have hl := hinv.layout
  obtain ⟨s, hs, i, hslot, hbit, ⟨hfree, hnot⟩ | ⟨hhead, hpar, hfree⟩⟩ := free_live hinv ho
  · refine ⟨s, hs, i, hslot, hbit, _, _, hfree, Or.inl rfl, ?_⟩
    intro hfits
    apply hfits.2
    rintro ⟨t, hthead, htin⟩
    have hroot := hl.root_mem (List.ne_nil_of_mem (hl.slab s hs).parent)
    obtain ⟨ht, -⟩ := hinv.head_mem hroot hthead
    obtain rfl : s = t := hl.inBuffer_unique hs ht (hslot.inBuffer hl hs).1 htin
    exact hnot hthead
  · refine ⟨s, hs, i, hslot, hbit, _, _, hfree, Or.inr ⟨rfl, hhead, hpar⟩, ?_⟩
    intro hfits
    split_ifs with hnext
    · exact Nat.zero_le _
    · exact hfits.1 ⟨s, hhead, (hslot.inBuffer hl hs).1⟩ hnext

/-- INTERNAL: the freed slot is taken again only if it is the first free one of the partial slab. -/
theorem slotReused_of_taken {h₁ g h₂ : Heap} {ss' : List ℕ} {s i c : ℕ} (hinv : StateInv st)
    (hs : s ∈ st.slabs) (hslot : IsSlot st.heap o s i) (hbit : st.heap.mem.bit (s + 48) i = true)
    (hh₁ : h₁ = st.heap ∨ h₁ = clearSlot st.heap s i ∧ IsHead st.heap st.heap.cacheRoot s ∧
      (st.heap.slabs s).parent = st.heap.cacheRoot)
    (hkeep : ∀ s ∈ st.slabs, ∀ a, s ≤ a → a < s + slabBytes st.heap s → g.mem a = h₁.mem a)
    (hwhich : s = if (h₁.caches c).slabPartial ≠ 0 then (h₁.caches c).slabPartial
      else if (h₁.caches c).slabEmpty ≠ 0 then (h₁.caches c).slabEmpty else page)
    (hpage : page ∉ st.slabs) (hc : c ∈ st.caches) (hpar : (st.heap.slabs s).parent = c)
    (hround : (st.heap.caches c).objectSize = roundSize cnt)
    (htaken : SlotTaken g h₂ ss' st.caches s i) : SlotReused st.heap o.addr cnt := by
  have hl := hinv.layout
  have hok := hl.slab s hs
  obtain ⟨hin, hindex⟩ := hslot.inBuffer hl hs
  -- the bits of the slab are those after `free`
  have hbits : ∀ k < 256, g.mem.bit (s + 48) k = h₁.mem.bit (s + 48) k := by
    intro k hk
    have hlow := hok.low
    have hfits := hok.fits
    exact Memory.bit_congr (hkeep s hs _ (by omega) (by omega))
  have hclear := htaken.clear
  rw [hbits i hslot.1] at hclear
  rcases hh₁ with rfl | ⟨rfl, hhead, hroot⟩
  · rw [hbit] at hclear
    cases hclear
  · obtain rfl : c = st.heap.cacheRoot := hpar.symm.trans hroot
    have hlists := hinv.lists _ hc
    change s = if (st.heap.caches st.heap.cacheRoot).slabPartial ≠ 0 then
      (st.heap.caches st.heap.cacheRoot).slabPartial
      else if (st.heap.caches st.heap.cacheRoot).slabEmpty ≠ 0 then
        (st.heap.caches st.heap.cacheRoot).slabEmpty else page at hwhich
    by_cases hpart : (st.heap.caches st.heap.cacheRoot).slabPartial = 0
    · exfalso
      rw [if_neg (not_not.mpr hpart)] at hwhich
      -- then the slab would be a full one, and not empty
      have hfull : (st.heap.slabs s).availableObjects = 0 := by
        obtain ⟨hne, hor⟩ := hhead
        rw [hpart] at hor
        obtain ⟨l, hchain, -, hall⟩ := hlists.full
        rcases hor with hnull | hfull
        · exact absurd hnull.symm hne
        · rw [hfull] at hchain
          cases l with
          | nil => exact absurd hchain hne
          | cons x l =>
            obtain ⟨hx, -⟩ := hchain
            rw [hx]
            exact (hall x List.mem_cons_self).2.2
      by_cases hempty : (st.heap.caches st.heap.cacheRoot).slabEmpty = 0
      · rw [if_neg (not_not.mpr hempty)] at hwhich
        exact hpage (hwhich ▸ hs)
      · rw [if_pos hempty] at hwhich
        rcases hlists.empty with hnull | ⟨-, hav⟩
        · exact hempty hnull
        · rw [← hwhich] at hav
          omega
    · rw [if_pos hpart] at hwhich
      refine ⟨hround, hpart, ?_, ?_⟩
      · rw [← hwhich]
        exact hin
      · rw [← hwhich, hindex]
        intro k hk
        have hset := htaken.lower k hk
        have hi := hslot.1
        rw [hbits k (by omega)] at hset
        change (st.heap.mem.clearBit (s + 48) i).bit (s + 48) k = true at hset
        rw [Memory.bit_clearBit, Bool.and_eq_true] at hset
        exact hset.2

/-- What `kmm::free` and the following `kmm::alloc` do for a live object. -/
theorem free_alloc (hinv : StateInv st) (ho : o ∈ st.live) (hcnt : 1 ≤ cnt)
    (hallowed : HeapOp.Allowed st (.alloc cnt page))
    (hcache : ∃ c ∈ st.caches, (st.heap.caches c).objectSize = roundSize cnt) :
    ∃ h₁ size h₂ new, free st.heap o.addr = some (h₁, size) ∧ alloc h₁ cnt page = some (h₂, new) ∧
      new ≠ 0 ∧ (CopyFits st.heap o.addr cnt → size ≤ roundSize cnt) ∧
      (∀ p ∈ st.live, p.addr ≠ o.addr → Object.Apart ⟨new, roundSize cnt⟩ p) ∧
      (Object.Apart ⟨new, roundSize cnt⟩ o ∨ new = o.addr ∧ SlotReused st.heap o.addr cnt) ∧
      ∀ p ∈ st.live, ∀ a, p.addr ≤ a → a < p.addr + p.size → h₂.mem a = st.heap.mem a := by
  have hl := hinv.layout
  obtain ⟨s, hs, i, hslot, hbit, h₁, size, hfree, hh₁, hfits⟩ := free_fits hinv ho cnt
  have hor : h₁ = st.heap ∨ h₁ = clearSlot st.heap s i := hh₁.imp_right And.left
  have hinv₁ := hinv.release hs hslot hor
  obtain ⟨hcs, hfresh⟩ := hallowed
  have hcaches : h₁.caches = st.heap.caches := by
    rcases hor with rfl | rfl <;> rfl
  have hfor : cacheFor h₁ cnt = cacheFor st.heap cnt := by
    rcases hor with rfl | rfl <;> rfl
  obtain ⟨c, hfind⟩ : ∃ c, st.caches.find?
      (fun c => (st.heap.caches c).objectSize = roundSize cnt) = some c := by
    rw [← Option.isSome_iff_exists, List.find?_isSome]
    obtain ⟨c, hc, hround⟩ := hcache
    exact ⟨c, hc, decide_eq_true hround⟩
  have hcache' : cacheFor st.heap cnt = some (some c) := by
    rw [cacheFor_eq hl hcs, hfind]
  have hc : c ∈ st.caches := List.mem_of_find?_eq_some hfind
  have hround : (st.heap.caches c).objectSize = roundSize cnt := by
    simpa using List.find?_some hfind
  have hfresh₁ : HeapState.Fresh ⟨h₁, st.slabs, st.caches, st.live.filter (·.addr ≠ o.addr)⟩ page
      ((h₁.caches c).pagesPerSlab * pageSize) := by
    rcases hor with rfl | rfl <;> exact hfresh c hcache'
  obtain ⟨g, ss', s₂, i₂, h₂, hprep, hinv₂, hwhich, hpar₂, hos₂, htaken, -, hobj⟩ :=
    allocObj_spec hinv₁ hc hfresh₁
  obtain ⟨hsame₁, hsub, hkeep₁⟩ := hprep.keeps hinv₁ hc hfresh₁
  have hsame : SameGeometry st.slabs st.caches st.heap g := by
    rcases hor with rfl | rfl <;> exact ⟨hsame₁.slab, hsame₁.cache⟩
  have hkeep : ∀ s ∈ st.slabs, ∀ a, s ≤ a → a < s + slabBytes st.heap s → g.mem a = h₁.mem a := by
    rcases hor with rfl | rfl <;> exact hkeep₁
  have hpage : page ∉ st.slabs := by
    have hfit := buffer_fits (hl.sizes c hc).2.1
    rw [← (hl.sizes c hc).2.2] at hfit
    exact hinv.fresh_notMem (by omega) (hfresh c hcache')
  rw [hcaches, hround] at hobj
  rw [hcaches] at hos₂
  -- the new object is a slot whose bit was clear
  have hnew : IsSlot g ⟨(g.slabs s₂).buf + i₂ * roundSize cnt, roundSize cnt⟩ s₂ i₂ := by
    refine ⟨htaken.index, ?_, rfl⟩
    rw [hpar₂, hos₂, hround]
  have hslotg := hslot.congr hs (hl.slab s hs) hsame
  refine ⟨h₁, size, h₂, (g.slabs s₂).buf + i₂ * roundSize cnt, hfree, ?_, ?_, hfits, ?_, ?_, ?_⟩
  · unfold alloc
    rw [if_neg (by omega), hfor, hcache']
    exact hobj
  · have hlow := (hinv₂.layout.slab s₂ htaken.slab).low
    omega
  · intro p hp hne
    by_contra hnot
    simp only [Object.Apart, not_or, Nat.not_le] at hnot
    obtain ⟨t, ht, j, hpslot, hpbit⟩ :=
      hinv₂.slots p (List.mem_filter.mpr ⟨hp, decide_eq_true hne⟩)
    obtain ⟨rfl, rfl⟩ := hnew.unique hinv₂.layout htaken.slab ht hpslot hnot.1 hnot.2
    rw [htaken.clear] at hpbit
    cases hpbit
  · by_cases hapart : Object.Apart ⟨(g.slabs s₂).buf + i₂ * roundSize cnt, roundSize cnt⟩ o
    · exact Or.inl hapart
    · right
      simp only [Object.Apart, not_or, Nat.not_le] at hapart
      obtain ⟨rfl, rfl⟩ := hnew.unique hinv₂.layout htaken.slab (hsub s hs) hslotg hapart.1 hapart.2
      refine ⟨?_, slotReused_of_taken hinv hs hslot hbit hh₁ hkeep hwhich hpage hc ?_ hround htaken⟩
      · rw [hslotg.2.2, hslotg.2.1, hpar₂, hos₂, hround]
      · rw [← (hsame.slab s₂ hs).1]
        exact hpar₂
  · intro p hp a hlow hhigh
    obtain ⟨t, ht, j, hpslot, -⟩ := hinv.slots p hp
    exact object_bytes hl hs hslot.1 hor hkeep hinv₂.layout htaken ht (hsub t ht) hpslot
      (hpslot.congr ht (hl.slab t ht) hsame) hlow hhigh

/-- INTERNAL: a copy that fits into the new object. -/
theorem copy_keeps {m m₂ : Memory} {new n : ℕ} (hn : cnt ≤ n) (hfits : n ≤ roundSize cnt)
    (hothers : ∀ p ∈ st.live, p.addr ≠ o.addr → Object.Apart ⟨new, roundSize cnt⟩ p)
    (hold : Object.Apart ⟨new, roundSize cnt⟩ o ∨ new = o.addr)
    (hm : ∀ p ∈ st.live, ∀ a, p.addr ≤ a → a < p.addr + p.size → m₂ a = m a) (ho : o ∈ st.live) :
    (∀ k < min o.size cnt, memcpy8 m₂ new o.addr n (new + k) = m (o.addr + k)) ∧
      ∀ p ∈ st.live, p.addr ≠ o.addr → ∀ a, p.addr ≤ a → a < p.addr + p.size →
        memcpy8 m₂ new o.addr n a = m a := by
  constructor
  · intro k hk
    have hk₁ : k < o.size := lt_of_lt_of_le hk (min_le_left _ _)
    have hk₂ : k < cnt := lt_of_lt_of_le hk (min_le_right _ _)
    rw [memcpy8_copied m₂ (by omega), hm o ho (o.addr + k) (by omega) (by omega)]
    rcases hold with hap | rfl
    · simp only [Object.Apart] at hap
      omega
    · exact Or.inr le_rfl
  · intro p hp hne a hlow hhigh
    have hap := hothers p hp hne
    simp only [Object.Apart] at hap
    rw [memcpy8_outside m₂ (by omega)]
    exact hm p hp a hlow hhigh

/-- INTERNAL: no object is at `NULL`. -/
theorem addr_ne_zero (hinv : StateInv st) (ho : o ∈ st.live) : o.addr ≠ 0 := by
  obtain ⟨s, hs, i, hslot, -⟩ := hinv.slots o ho
  have hlow := (hinv.layout.slab s hs).low
  have hbuf := (hslot.bounds (hinv.layout.slab s hs)).1
  omega

theorem realloc_keeps (hinv : StateInv st) (ho : o ∈ st.live) (hcnt₁ : 1 ≤ cnt)
    (hcnt₂ : cnt ≤ 2 ^ 63) (hallowed : HeapOp.Allowed st (.alloc cnt page))
    (hcache : ∃ c ∈ st.caches, (st.heap.caches c).objectSize = roundSize cnt)
    (hfits : CopyFits st.heap o.addr cnt) :
    KeepsContents st o cnt (realloc st.heap o.addr cnt page) := by
  have hround := le_roundSize hcnt₁ hcnt₂
  obtain ⟨h₁, size, h₂, new, hfree, halloc, hnull, hsize, hothers, hold, hm⟩ :=
    free_alloc hinv ho hcnt₁ hallowed hcache
  have hsize := hsize hfits
  have hn : cnt ≤ (if cnt < size then size else cnt) := by split <;> omega
  have hn' : (if cnt < size then size else cnt) ≤ roundSize cnt := by split <;> omega
  have hresult : realloc st.heap o.addr cnt page = some ({ h₂ with
      mem := memcpy8 h₂.mem new o.addr (if cnt < size then size else cnt) }, new) := by
    simp only [realloc, reallocWith, addr_ne_zero hinv ho, hfree, halloc, hnull, if_false]
  obtain ⟨hcopy, hkeep⟩ := copy_keeps hn hn' hothers (hold.imp_right And.left) hm ho
  exact ⟨_, new, hresult, hround, hothers, hcopy, hkeep⟩

theorem recalloc_keeps (hinv : StateInv st) (ho : o ∈ st.live) (hcnt₁ : 1 ≤ cnt)
    (hcnt₂ : cnt ≤ 2 ^ 63) (hallowed : HeapOp.Allowed st (.alloc cnt page))
    (hcache : ∃ c ∈ st.caches, (st.heap.caches c).objectSize = roundSize cnt)
    (hfits : CopyFits st.heap o.addr cnt) (hreused : ¬ SlotReused st.heap o.addr cnt) :
    KeepsContents st o cnt (recalloc st.heap o.addr cnt page) := by
  have hround := le_roundSize hcnt₁ hcnt₂
  obtain ⟨h₁, size, h₂, new, hfree, halloc, hnull, hsize, hothers, hold, hm⟩ :=
    free_alloc hinv ho hcnt₁ hallowed hcache
  have hsize := hsize hfits
  have hn : cnt ≤ (if cnt < size then size else cnt) := by split <;> omega
  have hn' : (if cnt < size then size else cnt) ≤ roundSize cnt := by split <;> omega
  have hapart : Object.Apart ⟨new, roundSize cnt⟩ o := by
    rcases hold with hap | ⟨-, hre⟩
    · exact hap
    · exact absurd hre hreused
  have hresult : recalloc st.heap o.addr cnt page = some ({ h₂ with
      mem := memcpy8 (memset8 h₂.mem new 0 cnt) new o.addr (if cnt < size then size else cnt) },
      new) := by
    simp only [recalloc, reallocWith, calloc, addr_ne_zero hinv ho, hfree, halloc, hnull, if_false]
  -- zeroing the new object touches no object that was live
  have hzero : ∀ p ∈ st.live, ∀ a, p.addr ≤ a → a < p.addr + p.size →
      memset8 h₂.mem new 0 cnt a = st.heap.mem a := by
    intro p hp a hlow hhigh
    have hap : Object.Apart ⟨new, roundSize cnt⟩ p := by
      by_cases hpo : p.addr = o.addr
      · rw [hinv.eq_of_addr ho hp hpo]
        exact hapart
      · exact hothers p hp hpo
    simp only [Object.Apart] at hap
    rw [memset8_outside _ _ (by omega)]
    exact hm p hp a hlow hhigh
  obtain ⟨hcopy, hkeep⟩ := copy_keeps hn hn' hothers (Or.inl hapart) hzero ho
  exact ⟨_, new, hresult, hround, hothers, hcopy, hkeep⟩

end Realloc

/-- The other bytes of the object that the call returned are zero. -/
def ZeroesRest (o : Object) (cnt : ℕ) (result : Option (Heap × ℕ)) : Prop :=
  ∀ h new, result = some (h, new) → ∀ k, min o.size cnt ≤ k → k < cnt → h.mem (new + k) = 0

/-- **When the contents are kept.** In every state that a run reaches and for every live object, if
there is a cache for `cnt` bytes and the size that `kmm::free` answers fits, `kmm::realloc` keeps the
contents; `kmm::recalloc` does so, with zeroes behind them, if also `cnt` is at most the old object
size and the slot is not taken again. -/
theorem realloc_keeps_contents {st st' : HeapState} {ops : List HeapOp} {o : Object} {cnt page : ℕ}
    (hinit : st.Initial) (hrun : Run heapStep st ops st') (ho : o ∈ st'.live) (hcnt₁ : 1 ≤ cnt)
    (hcnt₂ : cnt ≤ 262144) (hallowed : HeapOp.Allowed st' (.alloc cnt page))
    (hcache : ∃ c ∈ st'.caches, (st'.heap.caches c).objectSize = roundSize cnt)
    (hfits : CopyFits st'.heap o.addr cnt) :
    KeepsContents st' o cnt (realloc st'.heap o.addr cnt page) ∧
      (cnt ≤ o.size → ¬ SlotReused st'.heap o.addr cnt →
        KeepsContents st' o cnt (recalloc st'.heap o.addr cnt page) ∧
        ZeroesRest o cnt (recalloc st'.heap o.addr cnt page)) := by
  have hinv := heapRun_inv hinit hrun
  refine ⟨realloc_keeps hinv ho hcnt₁ (by omega) hallowed hcache hfits, ?_⟩
  intro hle hreused
  refine ⟨recalloc_keeps hinv ho hcnt₁ (by omega) hallowed hcache hfits hreused, ?_⟩
  intro h new' _ k hk₁ hk₂
  omega

theorem realloc_keeps_contents_usualCalls : ∃ st, Run heapStep emptyHeap usualCalls st ∧
    KeepsContents st ⟨0x2000a8, 64⟩ 60 (realloc st.heap 0x2000a8 60 0x300000) ∧
    KeepsContents st ⟨0x2000a8, 64⟩ 60 (recalloc st.heap 0x2000a8 60 0x300000) := by
  have hcalls : (usualCalls.foldlM
      (fun st op => if op.Allowed st ∧ op.Sound then st.exec op else none) emptyHeap).map
      (fun st => decide (⟨0x2000a8, 64⟩ ∈ st.live ∧ HeapOp.Allowed st (.alloc 60 0x300000) ∧
        (∃ c ∈ st.caches, (st.heap.caches c).objectSize = roundSize 60) ∧
        (st.heap.caches st.heap.cacheRoot).objectSize = 32 ∧
        (st.heap.caches (st.heap.caches st.heap.cacheRoot).next).objectSize ≤ roundSize 60)) =
      some true := by
    decide +kernel
  obtain ⟨st, hst, hfacts⟩ := Option.map_eq_some_iff.mp hcalls
  obtain ⟨ho, hallowed, hcache, hroot, hnext⟩ := of_decide_eq_true hfacts
  have hrun : Run heapStep emptyHeap usualCalls st := Run.of_guarded hst
  have hfits : CopyFits st.heap 0x2000a8 60 :=
    ⟨fun _ _ => hnext, fun _ => hroot.le.trans (by decide)⟩
  have hreused : ¬ SlotReused st.heap 0x2000a8 60 := by
    intro hre
    have hsize := hre.1
    rw [hroot] at hsize
    exact absurd hsize (by decide)
  obtain ⟨hrealloc, hrecalloc⟩ := realloc_keeps_contents ⟨rfl, rfl, rfl, rfl, rfl, rfl⟩ hrun ho
    (by decide) (by decide) hallowed hcache hfits
  exact ⟨st, hrun, hrealloc, (hrecalloc (by decide) hreused).1⟩

/-- Three objects of 32 bytes; the second one is written, the first one is freed. -/
def overrunCalls : List HeapOp :=
  [.newCache cleared 32 0x100000, .newCache cleared 64 0x200000, .alloc 20 0x300000,
    .alloc 20 0x300000, .alloc 20 0x300000, .write 0x1000c8 7, .free 0x1000a8]

/-- The third object moves to the place of the first, and 64 bytes are copied: the second object is
overwritten. -/
theorem realloc_overruns : ∃ st, Run heapStep emptyHeap overrunCalls st ∧
    st.live = [⟨0x1000e8, 32⟩, ⟨0x1000c8, 32⟩] ∧ HeapOp.Allowed st (.alloc 20 0x300000) ∧
    ¬ KeepsContents st ⟨0x1000e8, 32⟩ 20 (realloc st.heap 0x1000e8 20 0x300000) := by
  have hcalls : (overrunCalls.foldlM
      (fun st op => if op.Allowed st ∧ op.Sound then st.exec op else none) emptyHeap).map
      (fun st => decide (st.live = [⟨0x1000e8, 32⟩, ⟨0x1000c8, 32⟩] ∧
        HeapOp.Allowed st (.alloc 20 0x300000) ∧ st.heap.mem 0x1000c8 = 7 ∧
        (realloc st.heap 0x1000e8 20 0x300000).map (fun r => r.1.mem 0x1000c8) = some 0)) =
      some true := by
    decide
  obtain ⟨st, hst, hfacts⟩ := Option.map_eq_some_iff.mp hcalls
  obtain ⟨hlive, hallowed, hbefore, hafter⟩ := of_decide_eq_true hfacts
  refine ⟨st, Run.of_guarded hst, hlive, hallowed, ?_⟩
  rintro ⟨h, new, hresult, -, -, -, hkeep⟩
  have hbyte := hkeep ⟨0x1000c8, 32⟩ (by rw [hlive]; simp) (by decide) 0x1000c8 (by decide) (by decide)
  rw [hresult] at hafter
  have hzero : h.mem 0x1000c8 = 0 := Option.some.inj hafter
  rw [hbefore, hzero] at hbyte
  exact absurd hbyte (by decide)

end CrepOS.Analysis
