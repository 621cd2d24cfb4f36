import CrepOS.Analysis.SlabInvariant

/-!
# What `kmm::alloc` and the constructor of a cache do to the heap

`allocObj_spec` is the specification of `cache::alloc_obj` in a heap that satisfies the invariant: it
takes the first clear slot of the partial slab, of the empty slab if there is no partial one, or of a
new slab if there is neither. A slab leaves the empty list with its first allocation and the partial
list with its 256th, whether or not objects of it have been freed. `newCache_spec` is the same for
`cache::cache`.
-/

set_option autoImplicit false

namespace CrepOS.Analysis

open CrepOS.Library CrepOS.Model CrepOS.Interface

/-! ## Moving a slab -/

section Move

variable {h : Heap} {c s : ℕ} {dest src : SlabList}

theorem head_setHead_of_ne (e : Cache) (hne : dest ≠ src) (s : ℕ) :
    (e.setHead src s).head dest = e.head dest := by
  cases dest <;> cases src <;> first | rfl | exact absurd rfl hne

/-- A slab that is alone on its list becomes the only one of an empty list.
SRCLINE: kernel/mm/slab.cpp:104-120 -/
theorem moveSlab_nil (hne : dest ≠ src) (hs : s ≠ 0) (hhead : (h.caches c).head src = s)
    (hnext : (h.slabs s).next = 0) (hlast : (h.slabs s).last = 0)
    (hdest : (h.caches c).head dest = 0) :
    moveSlab h c dest src s =
      some (h.setCache c (((h.caches c).setHead src 0).setHead dest s)) := by
  have hslab : { h.slabs s with last := 0, next := 0 } = h.slabs s := by
    revert hnext hlast
    rcases h.slabs s with ⟨_, _, _, _, _, _⟩
    rintro rfl rfl
    rfl
  unfold moveSlab
  rw [if_neg (by rw [hhead]; simp [hs])]
  simp only [hnext, hlast, ne_eq, not_true_eq_false, if_false, hhead, if_true]
  simp only [Heap.setCache, Heap.setSlab, Function.update_self, head_setHead_of_ne _ hne, hdest,
    if_true, hslab, Function.update_eq_self, Function.update_idem]

/-- A slab that is alone on its list is appended to a list.
SRCLINE: kernel/mm/slab.cpp:104-129 -/
theorem moveSlab_append {node : ℕ} (hne : dest ≠ src) (hs : s ≠ 0)
    (hhead : (h.caches c).head src = s) (hnext : (h.slabs s).next = 0)
    (hlast : (h.slabs s).last = 0) (hdest : (h.caches c).head dest ≠ 0)
    (hnode : h.lastSlab ((h.caches c).head dest) = some node) (hsn : s ≠ node) :
    moveSlab h c dest src s =
      some (((h.setCache c ((h.caches c).setHead src 0)).setSlab node
        { h.slabs node with next := s }).setSlab s { h.slabs s with last := node }) := by
  have hlastSlab : (h.setCache c ((h.caches c).setHead src 0)).lastSlab ((h.caches c).head dest) =
      some node := hnode
  unfold moveSlab
  rw [if_neg (by rw [hhead]; simp [hs])]
  simp only [hnext, hlast, ne_eq, not_true_eq_false, if_false, hhead, if_true]
  have hheads : ((h.setCache c ((h.caches c).setHead src 0)).caches c).head dest =
      (h.caches c).head dest := by
    simp only [Heap.setCache, Function.update_self, head_setHead_of_ne _ hne]
  rw [hheads, if_neg hdest, hlastSlab]
  simp only [Heap.setCache, Heap.setSlab, Function.update_of_ne hsn, hnext]

end Move

/-! ## Taking a slot -/

/-- The heap after `slab::alloc` took slot `i` of the slab `s`. -/
def takeSlot (h : Heap) (s i : ℕ) : Heap where
  mem := h.mem.setBit (s + 48) i
  slabs := Function.update h.slabs s
    { h.slabs s with availableObjects := (h.slabs s).availableObjects - 1 }
  caches := h.caches
  cacheRoot := h.cacheRoot
  slabCnt := h.slabCnt
  cacheCnt := h.cacheCnt

/-- `h'` differs from `h` in the links of slabs and in the heads of lists only. -/
structure Relinked (h h' : Heap) : Prop where
  mem : h'.mem = h.mem
  root : h'.cacheRoot = h.cacheRoot
  slabCnt : h'.slabCnt = h.slabCnt
  cacheCnt : h'.cacheCnt = h.cacheCnt
  slab : ∀ s, (h'.slabs s).availableObjects = (h.slabs s).availableObjects ∧
    (h'.slabs s).parent = (h.slabs s).parent ∧ (h'.slabs s).buf = (h.slabs s).buf ∧
    (h'.slabs s).bitmap = (h.slabs s).bitmap
  cache : ∀ c, (h'.caches c).objectSize = (h.caches c).objectSize ∧
    (h'.caches c).pagesPerSlab = (h.caches c).pagesPerSlab ∧ (h'.caches c).next = (h.caches c).next

section Take

variable {h h' : Heap} {ss cs : List ℕ} {live : List Object} {c s i : ℕ}

theorem takeSlot_self (h : Heap) (s i : ℕ) : (takeSlot h s i).slabs s =
    { h.slabs s with availableObjects := (h.slabs s).availableObjects - 1 } := by
  simp [takeSlot]

theorem takeSlot_of_ne (h : Heap) {s t : ℕ} (i : ℕ) (hne : t ≠ s) :
    (takeSlot h s i).slabs t = h.slabs t := by
  simp [takeSlot, hne]

theorem Relinked.refl (h : Heap) : Relinked h h :=
  ⟨rfl, rfl, rfl, rfl, fun _ => ⟨rfl, rfl, rfl, rfl⟩, fun _ => ⟨rfl, rfl, rfl⟩⟩

theorem Relinked.setCache (hr : Relinked h h') (c : ℕ) {e : Cache}
    (he : e.objectSize = (h.caches c).objectSize ∧ e.pagesPerSlab = (h.caches c).pagesPerSlab ∧
      e.next = (h.caches c).next) : Relinked h (h'.setCache c e) := by
  refine ⟨hr.mem, hr.root, hr.slabCnt, hr.cacheCnt, hr.slab, ?_⟩
  intro d
  by_cases hd : d = c
  · rw [hd, Heap.setCache_self]
    exact he
  · rw [Heap.setCache_of_ne _ _ hd]
    exact hr.cache d

theorem Relinked.setSlab (hr : Relinked h h') (s : ℕ) {e : Slab}
    (he : e.availableObjects = (h.slabs s).availableObjects ∧ e.parent = (h.slabs s).parent ∧
      e.buf = (h.slabs s).buf ∧ e.bitmap = (h.slabs s).bitmap) : Relinked h (h'.setSlab s e) := by
  refine ⟨hr.mem, hr.root, hr.slabCnt, hr.cacheCnt, ?_, hr.cache⟩
  intro t
  by_cases ht : t = s
  · rw [ht, Heap.setSlab_self]
    exact he
  · rw [Heap.setSlab_of_ne _ _ ht]
    exact hr.slab t

/-- `slab::alloc` takes the first clear slot of a slab with available objects.
SRCLINE: kernel/mm/slab.cpp:131-142 -/
theorem slabAlloc_spec (hinv : HeapInv h ss cs live) (hs : s ∈ ss)
    (hav : 1 ≤ (h.slabs s).availableObjects) :
    ∃ i < 256, h.mem.bit (s + 48) i = false ∧ (∀ k < i, h.mem.bit (s + 48) k = true) ∧
      slabAlloc h s = (takeSlot h s i,
        (h.slabs s).buf + i * (h.caches (h.slabs s).parent).objectSize) := by
  have hbits := hinv.bits s hs
  have hok := hinv.layout.slab s hs
  obtain ⟨j, hj, hclear⟩ := exists_clear_bit (m := h.mem) (s := s) (by omega)
  obtain ⟨i, hfirst, -, hi, hbit, hlow⟩ :=
    firstClear_of_clear (i := 0) (n := 256) ⟨j, Nat.zero_le j, by omega, hclear⟩
  refine ⟨i, by omega, hbit, fun k hk => hlow k (Nat.zero_le k) hk, ?_⟩
  have hcount : wrap ((h.slabs s).availableObjects + (2 ^ 64 - 1)) =
      (h.slabs s).availableObjects - 1 := by
    unfold wrap
    omega
  have haddr : (h.slabs s).buf + i * (h.caches (h.slabs s).parent).objectSize < 2 ^ 64 := by
    have hpos := (hinv.layout.sizes _ hok.parent).1
    have hfits := hok.fits
    have hbound := hok.bound
    have hmul := Nat.mul_le_mul_right (h.caches (h.slabs s).parent).objectSize
      (show i + 1 ≤ 256 by omega)
    rw [Nat.add_mul, Nat.one_mul, Nat.mul_comm 256] at hmul
    omega
  unfold slabAlloc
  rw [hok.bitmap]
  simp only [objectsPerSlab, hfirst, bmSet_eq, wrap_of_lt haddr]
  rw [hcount, takeSlot, ← hok.bitmap, Heap.setSlab]

/-- What the slot costs its slab, whatever the move does to the lists. -/
theorem Relinked.taken (hr : Relinked (takeSlot h s i) h') (hs : s ∈ ss) (hi : i < 256)
    (hclear : h.mem.bit (s + 48) i = false) (hlow : ∀ k < i, h.mem.bit (s + 48) k = true)
    (hav : 1 ≤ (h.slabs s).availableObjects) : SlotTaken h h' ss cs s i := by
  have hslab : ∀ t, (h'.slabs t).parent = (h.slabs t).parent ∧ (h'.slabs t).buf = (h.slabs t).buf ∧
      (h'.slabs t).bitmap = (h.slabs t).bitmap := by
    intro t
    obtain ⟨-, hpar, hbuf, hbm⟩ := hr.slab t
    rw [hpar, hbuf, hbm]
    by_cases hts : t = s
    · rw [hts, takeSlot_self]
      exact ⟨rfl, rfl, rfl⟩
    · rw [takeSlot_of_ne h i hts]
      exact ⟨rfl, rfl, rfl⟩
  refine ⟨hs, hi, hclear, hlow, ⟨fun t _ => hslab t, ?_⟩, fun c _ => (hr.cache c).2.2, hr.root,
    hr.slabCnt, hr.cacheCnt, hr.mem, ?_, ?_⟩
  · intro c _
    exact ⟨(hr.cache c).1, (hr.cache c).2.1⟩
  · rw [(hr.slab s).1, takeSlot_self]
    exact Nat.sub_add_cancel hav
  · intro t _ hts
    rw [(hr.slab t).1, takeSlot_of_ne h i hts]

end Take

/-! ## Lists after a slot was taken -/

section TakeLists

variable {h : Heap} {ss cs : List ℕ} {live : List Object} {c s i : ℕ}

/-- INTERNAL: only the lists of the cache `c` have to be looked at when slabs of no other cache are
written. -/
theorem lists_of_cache {h' : Heap} (hlists : ∀ d ∈ cs, Lists h ss d)
    (hcaches : ∀ d ≠ c, h'.caches d = h.caches d)
    (hslabs : ∀ t, (h.slabs t).parent ≠ c → h'.slabs t = h.slabs t) (hmine : Lists h' ss c) :
    ∀ d ∈ cs, Lists h' ss d := by
  intro d hd
  by_cases hdc : d = c
  · rw [hdc]
    exact hmine
  · have hcache := hcaches d hdc
    refine (hlists d hd).congr (fun _ ht => ht) (by rw [hcache]) (by rw [hcache]) (by rw [hcache]) ?_
    intro t _ htd
    apply hslabs t
    rw [htd]
    exact hdc

/-- INTERNAL: a list of full slabs whose members are not written stays as it is. -/
theorem full_congr {h' : Heap} {l : List ℕ} {x : ℕ}
    (hfull : Chain 0 (fun s => (h.slabs s).next) x l ∧ l.Nodup ∧
      ∀ s ∈ l, s ∈ ss ∧ (h.slabs s).parent = c ∧ (h.slabs s).availableObjects = 0)
    (hslabs : ∀ t ∈ l, h'.slabs t = h.slabs t) :
    Chain 0 (fun s => (h'.slabs s).next) x l ∧ l.Nodup ∧
      ∀ s ∈ l, s ∈ ss ∧ (h'.slabs s).parent = c ∧ (h'.slabs s).availableObjects = 0 := by
  obtain ⟨hchain, hnodup, hall⟩ := hfull
  refine ⟨hchain.congr fun t ht => by rw [hslabs t ht], hnodup, ?_⟩
  intro t ht
  rw [hslabs t ht]
  exact hall t ht

/-- The partial slab keeps available objects and stays. -/
theorem takeSlot_lists_stay (hlists : ∀ d ∈ cs, Lists h ss d) (hc : c ∈ cs) (hpos : s ≠ 0)
    (hhead : (h.caches c).slabPartial = s) (hav : 2 ≤ (h.slabs s).availableObjects) :
    ∀ d ∈ cs, Lists (takeSlot h s i) ss d := by
  have hl := hlists c hc
  rcases hl.partly with hnull | ⟨⟨hs, hpar, hnext, hlast⟩, hlow, hhigh⟩
  · exact absurd (hhead.symm.trans hnull) hpos
  rw [hhead] at hs hpar hnext hlast hlow hhigh
  refine lists_of_cache (c := c) hlists (fun _ _ => rfl) ?_ ⟨?_, ?_, ?_⟩
  · intro t ht
    apply takeSlot_of_ne
    rintro rfl
    exact ht hpar
  · refine hl.empty.imp_right ?_
    rintro ⟨ha, hfull⟩
    have hne : (h.caches c).slabEmpty ≠ s := by
      intro heq
      rw [heq] at hfull
      omega
    change Alone (takeSlot h s i) ss c (h.caches c).slabEmpty ∧
      ((takeSlot h s i).slabs (h.caches c).slabEmpty).availableObjects = 256
    rw [Alone, takeSlot_of_ne h i hne]
    exact ⟨ha, hfull⟩
  · right
    change Alone (takeSlot h s i) ss c (h.caches c).slabPartial ∧
      1 ≤ ((takeSlot h s i).slabs (h.caches c).slabPartial).availableObjects ∧
      ((takeSlot h s i).slabs (h.caches c).slabPartial).availableObjects ≤ 255
    rw [hhead, Alone, takeSlot_self]
    refine ⟨⟨hs, hpar, hnext, hlast⟩, ?_, ?_⟩ <;> dsimp only <;> omega
  · obtain ⟨l, hl⟩ := hl.full
    refine ⟨l, full_congr hl ?_⟩
    intro t ht
    apply takeSlot_of_ne
    rintro rfl
    have hzero := (hl.2.2 t ht).2.2
    omega

/-- The empty slab becomes the partial slab. -/
theorem takeSlot_lists_first (hlists : ∀ d ∈ cs, Lists h ss d) (hc : c ∈ cs) (hpos : s ≠ 0)
    (hhead : (h.caches c).slabEmpty = s) :
    ∀ d ∈ cs, Lists ((takeSlot h s i).setCache c
      (((h.caches c).setHead .emptyList 0).setHead .partialList s)) ss d := by
  have hl := hlists c hc
  rcases hl.empty with hnull | ⟨⟨hs, hpar, hnext, hlast⟩, hav⟩
  · exact absurd (hhead.symm.trans hnull) hpos
  rw [hhead] at hs hpar hnext hlast hav
  refine lists_of_cache hlists (fun d hd => Heap.setCache_of_ne _ _ hd) ?_ ⟨?_, ?_, ?_⟩
  · intro t ht
    rw [Heap.setCache_slabs]
    apply takeSlot_of_ne
    rintro rfl
    exact ht hpar
  · left
    rw [Heap.setCache_self]
    rfl
  · right
    rw [Heap.setCache_self, Alone, Heap.setCache_slabs]
    change (s ∈ ss ∧ ((takeSlot h s i).slabs s).parent = c ∧ ((takeSlot h s i).slabs s).next = 0 ∧
      ((takeSlot h s i).slabs s).last = 0) ∧ 1 ≤ ((takeSlot h s i).slabs s).availableObjects ∧
      ((takeSlot h s i).slabs s).availableObjects ≤ 255
    rw [takeSlot_self]
    refine ⟨⟨hs, hpar, hnext, hlast⟩, ?_, ?_⟩ <;> dsimp only <;> omega
  · obtain ⟨l, hl⟩ := hl.full
    rw [Heap.setCache_self]
    refine ⟨l, full_congr hl ?_⟩
    intro t ht
    rw [Heap.setCache_slabs]
    apply takeSlot_of_ne
    rintro rfl
    have hzero := (hl.2.2 t ht).2.2
    omega

/-- The partial slab is the first full slab. -/
theorem takeSlot_lists_full (hlists : ∀ d ∈ cs, Lists h ss d) (hc : c ∈ cs) (hpos : s ≠ 0)
    (hhead : (h.caches c).slabPartial = s) (hav : (h.slabs s).availableObjects = 1)
    (hempty : (h.caches c).slabEmpty ≠ s) :
    ∀ d ∈ cs, Lists ((takeSlot h s i).setCache c
      (((h.caches c).setHead .partialList 0).setHead .fullList s)) ss d := by
  have hl := hlists c hc
  rcases hl.partly with hnull | ⟨⟨hs, hpar, hnext, hlast⟩, -, -⟩
  · exact absurd (hhead.symm.trans hnull) hpos
  rw [hhead] at hs hpar hnext hlast
  refine lists_of_cache hlists (fun d hd => Heap.setCache_of_ne _ _ hd) ?_ ⟨?_, ?_, ?_⟩
  · intro t ht
    rw [Heap.setCache_slabs]
    apply takeSlot_of_ne
    rintro rfl
    exact ht hpar
  · rw [Heap.setCache_self, Alone, Heap.setCache_slabs]
    change (h.caches c).slabEmpty = 0 ∨ Alone (takeSlot h s i) ss c (h.caches c).slabEmpty ∧
      ((takeSlot h s i).slabs (h.caches c).slabEmpty).availableObjects = 256
    rw [Alone, takeSlot_of_ne h i hempty]
    exact hl.empty
  · left
    rw [Heap.setCache_self]
    rfl
  · rw [Heap.setCache_self]
    refine ⟨[s], ⟨rfl, hpos, ?_⟩, List.nodup_singleton s, ?_⟩
    · change ((takeSlot h s i).slabs s).next = 0
      rw [takeSlot_self]
      exact hnext
    · intro t ht
      rw [List.mem_singleton.mp ht, Heap.setCache_slabs, takeSlot_self]
      exact ⟨hs, hpar, by rw [hav]⟩

/-- The heap after the partial slab `s` was appended to the full slabs, of which `node` is the last. -/
def appendFull (h : Heap) (c s i node : ℕ) : Heap :=
  (((takeSlot h s i).setCache c ((h.caches c).setHead .partialList 0)).setSlab
    node { (takeSlot h s i).slabs node with next := s }).setSlab s
      { (takeSlot h s i).slabs s with last := node }

theorem appendFull_self (h : Heap) (c s i node : ℕ) : (appendFull h c s i node).slabs s =
    { h.slabs s with availableObjects := (h.slabs s).availableObjects - 1, last := node } := by
  rw [appendFull, Heap.setSlab_self, takeSlot_self]

theorem appendFull_node {node : ℕ} (hsn : node ≠ s) :
    (appendFull h c s i node).slabs node = { h.slabs node with next := s } := by
  rw [appendFull, Heap.setSlab_of_ne _ _ hsn, Heap.setSlab_self, takeSlot_of_ne h i hsn]

theorem appendFull_of_ne {node t : ℕ} (hts : t ≠ s) (htn : t ≠ node) :
    (appendFull h c s i node).slabs t = h.slabs t := by
  rw [appendFull, Heap.setSlab_of_ne _ _ hts, Heap.setSlab_of_ne _ _ htn, Heap.setCache_slabs,
    takeSlot_of_ne h i hts]

theorem appendFull_cache (h : Heap) (c s i node : ℕ) :
    (appendFull h c s i node).caches c = (h.caches c).setHead .partialList 0 := by
  rw [appendFull, Heap.setSlab_caches, Heap.setSlab_caches, Heap.setCache_self]

/-- INTERNAL: the full slabs afterwards. -/
theorem appendFull_chain {node : ℕ} {l : List ℕ} (hpos : s ≠ 0) (hsl : s ∉ l ++ [node])
    (hnext : (h.slabs s).next = 0)
    (hchain : Chain 0 (fun s => (h.slabs s).next) (h.caches c).slabFull (l ++ [node]))
    (hnodup : (l ++ [node]).Nodup) : Chain 0 (fun t => ((appendFull h c s i node).slabs t).next)
      (h.caches c).slabFull (l ++ [node] ++ [s]) := by
  have hsn : node ≠ s := by
    rintro rfl
    exact hsl (List.mem_append_right l List.mem_cons_self)
  refine (hchain.append hnodup hpos hsl hnext).congr ?_
  intro t _
  by_cases hts : t = s
  · rw [hts, appendFull_self, Function.update_of_ne hsn.symm]
  · by_cases htn : t = node
    · rw [htn, appendFull_node hsn, Function.update_self]
    · rw [appendFull_of_ne hts htn, Function.update_of_ne htn]

/-- The partial slab is appended to the full slabs. -/
theorem takeSlot_lists_append {node : ℕ} {l : List ℕ} (hlists : ∀ d ∈ cs, Lists h ss d)
    (hc : c ∈ cs) (hpos : s ≠ 0) (hhead : (h.caches c).slabPartial = s)
    (hav : (h.slabs s).availableObjects = 1) (hempty : (h.caches c).slabEmpty ≠ s)
    (hchain : Chain 0 (fun s => (h.slabs s).next) (h.caches c).slabFull (l ++ [node]))
    (hnodup : (l ++ [node]).Nodup)
    (hall : ∀ t ∈ l ++ [node],
      t ∈ ss ∧ (h.slabs t).parent = c ∧ (h.slabs t).availableObjects = 0) :
    ∀ d ∈ cs, Lists (appendFull h c s i node) ss d := by
  have hl := hlists c hc
  rcases hl.partly with hnull | ⟨⟨hs, hpar, hnext, hlast⟩, -, -⟩
  · exact absurd (hhead.symm.trans hnull) hpos
  rw [hhead] at hs hpar hnext hlast
  have hsl : s ∉ l ++ [node] := by
    intro hin
    have hzero := (hall s hin).2.2
    omega
  have hnode : node ∈ l ++ [node] := List.mem_append_right l List.mem_cons_self
  have hsn : node ≠ s := by
    rintro rfl
    exact hsl hnode
  refine lists_of_cache (c := c) hlists (fun d hd => Heap.setCache_of_ne _ _ hd) ?_ ⟨?_, ?_, ?_⟩
  · intro t ht
    apply appendFull_of_ne
    · rintro rfl
      exact ht hpar
    · rintro rfl
      exact ht (hall t hnode).2.1
  · rw [appendFull_cache, Alone]
    refine hl.empty.imp_right ?_
    rintro ⟨ha, hfull⟩
    have hne : (h.caches c).slabEmpty ≠ node := by
      intro heq
      have hzero := (hall node hnode).2.2
      rw [heq] at hfull
      omega
    rw [show ((h.caches c).setHead .partialList 0).slabEmpty = (h.caches c).slabEmpty from rfl,
      appendFull_of_ne hempty hne]
    exact ⟨ha, hfull⟩
  · left
    rw [appendFull_cache]
    rfl
  · rw [appendFull_cache]
    refine ⟨l ++ [node] ++ [s], appendFull_chain hpos hsl hnext hchain hnodup, ?_, ?_⟩
    · rw [List.nodup_append]
      refine ⟨hnodup, List.nodup_singleton s, ?_⟩
      rintro t ht u hu rfl
      exact hsl (List.mem_singleton.mp hu ▸ ht)
    · intro t ht
      rcases List.mem_append.mp ht with hold | hnew
      · have hts : t ≠ s := by
          rintro rfl
          exact hsl hold
        by_cases htn : t = node
        · rw [htn, appendFull_node hsn]
          exact hall node hnode
        · rw [appendFull_of_ne hts htn]
          exact hall t hold
      · rw [List.mem_singleton.mp hnew, appendFull_self]
        exact ⟨hs, hpar, by rw [hav]⟩

end TakeLists

/-! ## Links after a slot was taken -/

/-- From `h` with the slabs `ss` to `h'` with the slabs `ss'`, the caches stay linked. -/
def LinksKept (h h' : Heap) (ss ss' cs : List ℕ) : Prop :=
  (∀ d ∈ cs, Linked h ss d) → ∀ d ∈ cs, Linked h' ss' d

section TakeLinks

variable {h : Heap} {ss cs : List ℕ} {c s i : ℕ}

/-- INTERNAL: the members of the list of full slabs are slabs of the cache. -/
theorem Lists.full_parent (hl : Lists h ss c) {l : List ℕ}
    (hchain : Chain 0 (fun s => (h.slabs s).next) (h.caches c).slabFull l) :
    ∀ s ∈ l, (h.slabs s).parent = c := by
  obtain ⟨l', hchain', -, hall⟩ := hl.full
  rw [hchain.unique hchain']
  exact fun s hs => (hall s hs).2.1

/-- INTERNAL: only the cache `c` has to be looked at when slabs of no other cache are written. -/
theorem linked_of_cache {h' : Heap} (hlists : ∀ d ∈ cs, Lists h ss d)
    (hcaches : ∀ d ≠ c, h'.caches d = h.caches d)
    (hslabs : ∀ t, (h.slabs t).parent ≠ c → h'.slabs t = h.slabs t)
    (hparent : ∀ t ∈ ss, (h'.slabs t).parent = (h.slabs t).parent)
    (hmine : Linked h ss c → Linked h' ss c) : LinksKept h h' ss ss cs := by
  intro hlinked d hd
  by_cases hdc : d = c
  · rw [hdc]
    rw [hdc] at hd
    exact hmine (hlinked c hd)
  · have hcache := hcaches d hdc
    refine linked_congr (hlinked d hd) (by rw [hcache]) (by rw [hcache]) (by rw [hcache]) ?_
      (fun l hchain => (hlists d hd).full_parent hchain) hparent
    intro t htd
    rw [hslabs t (by rw [htd]; exact hdc)]
    exact ⟨rfl, rfl⟩

/-- INTERNAL: taking a slot writes no link. -/
theorem takeSlot_links (h : Heap) (s i t : ℕ) :
    ((takeSlot h s i).slabs t).next = (h.slabs t).next ∧
      ((takeSlot h s i).slabs t).last = (h.slabs t).last ∧
      ((takeSlot h s i).slabs t).parent = (h.slabs t).parent := by
  by_cases hts : t = s
  · rw [hts, takeSlot_self]
    exact ⟨rfl, rfl, rfl⟩
  · rw [takeSlot_of_ne h i hts]
    exact ⟨rfl, rfl, rfl⟩

/-- INTERNAL: taking a slot leaves the slabs of the other caches alone. -/
theorem takeSlot_others (hpar : (h.slabs s).parent = c) {t : ℕ} (ht : (h.slabs t).parent ≠ c) :
    (takeSlot h s i).slabs t = h.slabs t := by
  apply takeSlot_of_ne
  rintro rfl
  exact ht hpar

/-- The partial slab stays. -/
theorem takeSlot_linked_stay (hlists : ∀ d ∈ cs, Lists h ss d) :
    LinksKept h (takeSlot h s i) ss ss cs := by
  intro hlinked d hd
  refine linked_congr (hlinked d hd) rfl rfl rfl ?_ (fun l hchain => (hlists d hd).full_parent hchain)
    fun t _ => (takeSlot_links h s i t).2.2
  intro t _
  exact ⟨(takeSlot_links h s i t).1, (takeSlot_links h s i t).2.1⟩

/-- The empty slab becomes the partial slab. -/
theorem takeSlot_linked_first (hlists : ∀ d ∈ cs, Lists h ss d) (hss : ∀ t ∈ ss, 0 < t)
    (hpar : (h.slabs s).parent = c) (hhead : (h.caches c).slabEmpty = s)
    (hpart : (h.caches c).slabPartial = 0) :
    LinksKept h ((takeSlot h s i).setCache c
      (((h.caches c).setHead .emptyList 0).setHead .partialList s)) ss ss cs := by
  refine linked_of_cache hlists (fun d hd => Heap.setCache_of_ne _ _ hd)
    (fun t ht => takeSlot_others (i := i) hpar ht) (fun t _ => (takeSlot_links h s i t).2.2) ?_
  rintro ⟨l, hchain, hback, hcover⟩
  refine ⟨l, ?_, backed_congr hback fun t _ => (takeSlot_links h s i t).2.1, ?_⟩
  · rw [Heap.setCache_self]
    exact hchain.congr fun t _ => (takeSlot_links h s i t).1
  · intro t ht htpar
    rw [Heap.setCache_self]
    have htpar' : (h.slabs t).parent = c := (takeSlot_links h s i t).2.2.symm.trans htpar
    rcases hcover t ht htpar' with hempty | hpartly | hfull
    · exact Or.inr (Or.inl (hempty.trans hhead))
    · have hpos := hss t ht
      rw [hpartly, hpart] at hpos
      exact absurd hpos (Nat.lt_irrefl 0)
    · exact Or.inr (Or.inr hfull)

/-- The partial slab is the first full slab. -/
theorem takeSlot_linked_full (hlists : ∀ d ∈ cs, Lists h ss d) (hpos : s ≠ 0)
    (hpar : (h.slabs s).parent = c) (hnext : (h.slabs s).next = 0) (hlast : (h.slabs s).last = 0)
    (hhead : (h.caches c).slabPartial = s) (hfull : (h.caches c).slabFull = 0) :
    LinksKept h ((takeSlot h s i).setCache c
      (((h.caches c).setHead .partialList 0).setHead .fullList s)) ss ss cs := by
  refine linked_of_cache hlists (fun d hd => Heap.setCache_of_ne _ _ hd)
    (fun t ht => takeSlot_others (i := i) hpar ht) (fun t _ => (takeSlot_links h s i t).2.2) ?_
  rintro ⟨l, hchain, -, hcover⟩
  have hnil : l = [] := by
    apply hchain.unique
    exact hfull
  refine ⟨[s], ?_, ⟨(takeSlot_links h s i s).2.1.trans hlast, trivial⟩, ?_⟩
  · rw [Heap.setCache_self]
    exact ⟨rfl, hpos, (takeSlot_links h s i s).1.trans hnext⟩
  · intro t ht htpar
    rw [Heap.setCache_self]
    have htpar' : (h.slabs t).parent = c := (takeSlot_links h s i t).2.2.symm.trans htpar
    rcases hcover t ht htpar' with hempty | hpartly | hin
    · exact Or.inl hempty
    · refine Or.inr (Or.inr ?_)
      rw [hpartly, hhead]
      exact List.mem_cons_self
    · rw [hnil] at hin
      exact absurd hin List.not_mem_nil

/-- The partial slab is appended to the full slabs. -/
theorem takeSlot_linked_append {node : ℕ} {l : List ℕ} (hlists : ∀ d ∈ cs, Lists h ss d) (hpos : s ≠ 0)
    (hpar : (h.slabs s).parent = c) (hnext : (h.slabs s).next = 0)
    (hhead : (h.caches c).slabPartial = s) (hsl : s ∉ l ++ [node])
    (hchain : Chain 0 (fun s => (h.slabs s).next) (h.caches c).slabFull (l ++ [node]))
    (hnodup : (l ++ [node]).Nodup) (hall : ∀ t ∈ l ++ [node], (h.slabs t).parent = c) :
    LinksKept h (appendFull h c s i node) ss ss cs := by
  have hnode : node ∈ l ++ [node] := List.mem_append_right l List.mem_cons_self
  have hsn : node ≠ s := by
    rintro rfl
    exact hsl hnode
  -- only the last link of `s` is written
  have hlinks : ∀ t, t ≠ s → ((appendFull h c s i node).slabs t).last = (h.slabs t).last := by
    intro t hts
    by_cases htn : t = node
    · rw [htn, appendFull_node hsn]
    · rw [appendFull_of_ne hts htn]
  have hparent : ∀ t, ((appendFull h c s i node).slabs t).parent = (h.slabs t).parent := by
    intro t
    by_cases hts : t = s
    · rw [hts, appendFull_self]
    · by_cases htn : t = node
      · rw [htn, appendFull_node hsn]
      · rw [appendFull_of_ne hts htn]
  refine linked_of_cache (c := c) hlists (fun d hd => Heap.setCache_of_ne _ _ hd) ?_
    (fun t _ => hparent t) ?_
  · intro t ht
    apply appendFull_of_ne
    · rintro rfl
      exact ht hpar
    · rintro rfl
      exact ht (hall t hnode)
  · rintro ⟨l', hchain', hback, hcover⟩
    obtain rfl := hchain'.unique hchain
    refine ⟨l ++ [node] ++ [s], ?_, ?_, ?_⟩
    · rw [appendFull_cache]
      exact appendFull_chain hpos hsl hnext hchain hnodup
    · apply backed_append
      · refine backed_congr hback fun t ht => hlinks t ?_
        rintro rfl
        exact hsl ht
      · rw [appendFull_self]
    · intro t ht htpar
      rw [hparent t] at htpar
      rw [appendFull_cache]
      rcases hcover t ht htpar with hempty | hpartly | hin
      · exact Or.inl hempty
      · refine Or.inr (Or.inr (List.mem_append_right _ ?_))
        rw [hpartly, hhead]
        exact List.mem_cons_self
      · exact Or.inr (Or.inr (List.mem_append_left _ hin))

end TakeLinks

/-! ## Allocating -/

section AllocObj

variable {h : Heap} {ss cs : List ℕ} {live : List Object} {c s : ℕ}

/-- INTERNAL: the walk to the last full slab. -/
theorem lastSlab_full (hcnt : h.slabCnt = ss.length) {l : List ℕ} {node x : ℕ}
    (hchain : Chain 0 (fun s => (h.slabs s).next) x (l ++ [node])) (hnodup : (l ++ [node]).Nodup)
    (hsub : ∀ t ∈ l ++ [node], t ∈ ss) : h.lastSlab x = some node := by
  have hlen := (hnodup.subperm hsub).length_le
  rw [List.length_append, List.length_singleton] at hlen
  refine hchain.lastNode ?_
  rw [hcnt]
  omega

/-- `cache::alloc_obj` takes the first clear slot of the partial slab.
SRCLINE: kernel/mm/slab.cpp:54-77 -/
theorem allocObj_partial (hinv : HeapInv h ss cs live) (hc : c ∈ cs) (hpos : s ≠ 0)
    (hhead : (h.caches c).slabPartial = s) (page : ℕ) :
    ∃ i h', allocObj h c page = some (h', (h.slabs s).buf + i * (h.caches c).objectSize) ∧
      SlotTaken h h' ss cs s i ∧ (∀ d ∈ cs, Lists h' ss d) ∧ LinksKept h h' ss ss cs := by
  have hl := hinv.lists c hc
  rcases hl.partly with hnull | ⟨⟨hs, hpar, hnext, hlast⟩, hlow, hhigh⟩
  · exact absurd (hhead.symm.trans hnull) hpos
  rw [hhead] at hs hpar hnext hlast hlow hhigh
  obtain ⟨i, hi, hclear, hlower, hslab⟩ := slabAlloc_spec hinv hs hlow
  rw [hpar] at hslab
  have htake : ∀ h', Relinked (takeSlot h s i) h' → SlotTaken h h' ss cs s i :=
    fun h' hr => hr.taken hs hi hclear hlower hlow
  have hpart : (if (h.caches c).slabPartial ≠ 0 then (h.caches c).slabPartial
      else (h.caches c).slabEmpty) = s := by
    rw [if_pos (by rw [hhead]; exact hpos), hhead]
  have havail : ((takeSlot h s i).slabs s).availableObjects = (h.slabs s).availableObjects - 1 := by
    rw [takeSlot_self]
  have hne255 : (h.slabs s).availableObjects - 1 ≠ objectsPerSlab - 1 := by
    simp only [objectsPerSlab]
    omega
  have hstart : allocObj h c page =
      (if (h.slabs s).availableObjects - 1 = 0 then
        moveSlab (takeSlot h s i) c .fullList .partialList s else some (takeSlot h s i)).map
        fun h' => (h', (h.slabs s).buf + i * (h.caches c).objectSize) := by
    unfold allocObj
    simp only [hpart, ne_eq, hpos, not_false_eq_true, if_true, hslab, havail, hne255, if_false]
    generalize (if (h.slabs s).availableObjects - 1 = 0 then
      moveSlab (takeSlot h s i) c .fullList .partialList s else some (takeSlot h s i)) = moved
    cases moved with
    | none => rfl
    | some h' => rfl
  by_cases hone : (h.slabs s).availableObjects = 1
  · have hempty : (h.caches c).slabEmpty ≠ s := by
      intro heq
      rcases hl.empty with hnull | ⟨-, hfull⟩
      · exact hpos (heq.symm.trans hnull)
      · rw [heq] at hfull
        omega
    rw [hstart, if_pos (by omega)]
    have hne : SlabList.fullList ≠ SlabList.partialList := SlabList.noConfusion
    have hnext' : ((takeSlot h s i).slabs s).next = 0 := by
      rw [takeSlot_self]
      exact hnext
    have hlast' : ((takeSlot h s i).slabs s).last = 0 := by
      rw [takeSlot_self]
      exact hlast
    have hhead' : ((takeSlot h s i).caches c).head .partialList = s := hhead
    obtain ⟨l, hchain, hnodup, hall⟩ := hl.full
    rcases List.eq_nil_or_concat' l with rfl | ⟨l, node, rfl⟩
    · rw [moveSlab_nil hne hpos hhead' hnext' hlast' hchain]
      refine ⟨i, _, rfl, htake _ ?_, takeSlot_lists_full hinv.lists hc hpos hhead hone hempty,
        takeSlot_linked_full hinv.lists hpos hpar hnext hlast hhead hchain⟩
      exact (Relinked.refl _).setCache c ⟨rfl, rfl, rfl⟩
    · have hdest : (h.caches c).slabFull ≠ 0 := by
        intro hnull
        cases l with
        | nil => exact hchain.2.1 (hchain.1.symm.trans hnull)
        | cons x l => exact hchain.2.1 (hchain.1.symm.trans hnull)
      have hsl : s ∉ l ++ [node] := by
        intro hin
        have hzero := (hall s hin).2.2
        omega
      have hsn : s ≠ node := by
        rintro rfl
        exact hsl (List.mem_append_right l List.mem_cons_self)
      have hnode : (takeSlot h s i).lastSlab (h.caches c).slabFull = some node := by
        refine lastSlab_full (h := takeSlot h s i) hinv.layout.slabCnt (hchain.congr ?_) hnodup
          fun t ht => (hall t ht).1
        intro t ht
        by_cases hts : t = s
        · rw [hts, takeSlot_self]
        · rw [takeSlot_of_ne h i hts]
      rw [moveSlab_append hne hpos hhead' hnext' hlast' hdest hnode hsn]
      refine ⟨i, appendFull h c s i node, rfl, htake _ ?_, takeSlot_lists_append hinv.lists hc hpos
        hhead hone hempty hchain hnodup hall, takeSlot_linked_append hinv.lists hpos hpar hnext hhead
        hsl hchain hnodup fun t ht => (hall t ht).2.1⟩
      refine Relinked.setSlab (Relinked.setSlab (Relinked.setCache (Relinked.refl _) c ?_) node ?_) s ?_
      · exact ⟨rfl, rfl, rfl⟩
      · exact ⟨rfl, rfl, rfl, rfl⟩
      · exact ⟨rfl, rfl, rfl, rfl⟩
  · rw [hstart, if_neg (by omega)]
    exact ⟨i, _, rfl, htake _ (Relinked.refl _),
      takeSlot_lists_stay hinv.lists hc hpos hhead (by omega), takeSlot_linked_stay hinv.lists⟩

/-- `cache::alloc_obj` takes the first clear slot of the empty slab if there is no partial one.
SRCLINE: kernel/mm/slab.cpp:54-77 -/
theorem allocObj_empty (hinv : HeapInv h ss cs live) (hc : c ∈ cs) (hpos : s ≠ 0)
    (hpart : (h.caches c).slabPartial = 0) (hhead : (h.caches c).slabEmpty = s) (page : ℕ) :
    ∃ i h', allocObj h c page = some (h', (h.slabs s).buf + i * (h.caches c).objectSize) ∧
      SlotTaken h h' ss cs s i ∧ (∀ d ∈ cs, Lists h' ss d) ∧ LinksKept h h' ss ss cs := by
  have hl := hinv.lists c hc
  rcases hl.empty with hnull | ⟨⟨hs, hpar, hnext, hlast⟩, hav⟩
  · exact absurd (hhead.symm.trans hnull) hpos
  rw [hhead] at hs hpar hnext hlast hav
  obtain ⟨i, hi, hclear, hlower, hslab⟩ := slabAlloc_spec hinv hs (by omega)
  rw [hpar] at hslab
  have havail : ((takeSlot h s i).slabs s).availableObjects = 255 := by
    rw [takeSlot_self, hav]
  have hnext' : ((takeSlot h s i).slabs s).next = 0 := by
    rw [takeSlot_self]
    exact hnext
  have hlast' : ((takeSlot h s i).slabs s).last = 0 := by
    rw [takeSlot_self]
    exact hlast
  have hhead' : ((takeSlot h s i).caches c).head .emptyList = s := hhead
  have hmove : moveSlab (takeSlot h s i) c .partialList .emptyList s =
      some ((takeSlot h s i).setCache c
        (((h.caches c).setHead .emptyList 0).setHead .partialList s)) :=
    moveSlab_nil nofun hpos hhead' hnext' hlast' hpart
  refine ⟨i, (takeSlot h s i).setCache c
    (((h.caches c).setHead .emptyList 0).setHead .partialList s), ?_, ?_,
    takeSlot_lists_first hinv.lists hc hpos hhead,
    takeSlot_linked_first hinv.lists (fun t ht => (hinv.layout.slab t ht).pos) hpar hhead hpart⟩
  · unfold allocObj
    simp only [hpart, hhead, ne_eq, hpos, not_true_eq_false, not_false_eq_true, if_true, if_false,
      hslab, havail, hmove, OfNat.ofNat_ne_zero]
    rfl
  · refine Relinked.taken ?_ hs hi hclear hlower (by omega)
    exact (Relinked.refl _).setCache c ⟨rfl, rfl, rfl⟩

end AllocObj

/-! ## New slabs -/

section NewSlab

variable {h : Heap} {ss cs : List ℕ} {live : List Object} {c page bytes : ℕ}

/-- INTERNAL: fresh pages are the pages of no slab. -/
theorem HeapInv.fresh_notMem (hinv : HeapInv h ss cs live) (hbytes : 0 < bytes)
    (hfresh : HeapState.Fresh ⟨h, ss, cs, live⟩ page bytes) : page ∉ ss := by
  intro hin
  have hok := hinv.layout.slab page hin
  have hlow := hok.low
  have hfits := hok.fits
  rcases hfresh.2.2.2 page hin with hap | hap
  · omega
  · have hap' : page + slabBytes h page ≤ page := hap
    omega

/-- INTERNAL: the bits of the other slabs after pages have been zeroed. -/
theorem HeapInv.bit_zeroPages (hinv : HeapInv h ss cs live) {n : ℕ}
    (hfresh : HeapState.Fresh ⟨h, ss, cs, live⟩ page (n * pageSize)) {t j : ℕ} (ht : t ∈ ss)
    (hj : j < 256) : (zeroPages h.mem page n).bit (t + 48) j = h.mem.bit (t + 48) j := by
  apply Memory.bit_congr
  have hok := hinv.layout.slab t ht
  have hlow := hok.low
  have hfits := hok.fits
  have hap : page + n * pageSize ≤ t ∨ t + slabBytes h t ≤ page := hfresh.2.2.2 t ht
  unfold zeroPages
  rw [if_neg]
  omega

/-- INTERNAL: the bits of a new slab are clear. -/
theorem setBits_zeroPages (m : Memory) {n : ℕ} (hn : 80 ≤ n * pageSize) :
    setBits (zeroPages m page n) page = ∅ := by
  rw [Finset.eq_empty_iff_forall_notMem]
  intro j hj
  obtain ⟨hlt, hbit⟩ := mem_setBits.mp hj
  have hbyte : zeroPages m page n (page + 48 + j / 8) = 0 := by
    unfold zeroPages
    rw [if_pos]
    omega
  rw [Memory.bit, hbyte] at hbit
  simp at hbit

/-- A new slab keeps the invariant if it fits into the layout and the lists. -/
theorem HeapInv.grow {h' : Heap} {cs' : List ℕ} {n : ℕ} (hinv : HeapInv h ss cs live)
    (hfresh : HeapState.Fresh ⟨h, ss, cs, live⟩ page (n * pageSize)) (hn : 80 ≤ n * pageSize)
    (hsame : SameGeometry ss cs h h') (hslabs : ∀ t ∈ ss, h'.slabs t = h.slabs t)
    (hmem : h'.mem = zeroPages h.mem page n) (hav : (h'.slabs page).availableObjects = 256)
    (hlayout : Layout h' (ss ++ [page]) cs') (hlists : ∀ d ∈ cs', Lists h' (ss ++ [page]) d) :
    HeapInv h' (ss ++ [page]) cs' live := by
  refine ⟨hlayout, hlists, ?_, ?_, hinv.distinct⟩
  · intro t ht
    rcases List.mem_append.mp ht with hold | hnew
    · have hsub : setBits h'.mem t ⊆ setBits h.mem t := by
        apply setBits_mono
        intro j hj hbit
        rw [hmem, hinv.bit_zeroPages hfresh hold hj] at hbit
        exact hbit
      have hcard := Finset.card_le_card hsub
      have hbits := hinv.bits t hold
      rw [hslabs t hold]
      omega
    · rw [List.mem_singleton.mp hnew, hmem, setBits_zeroPages h.mem hn, Finset.card_empty, hav]
  · intro o ho
    obtain ⟨t, ht, j, hslot, hbit⟩ := hinv.slots o ho
    refine ⟨t, List.mem_append_left _ ht, j, hslot.congr ht (hinv.layout.slab t ht) hsame, ?_⟩
    rw [hmem, hinv.bit_zeroPages hfresh ht hslot.1]
    exact hbit

/-- The heap after `alloc_slab` made a slab at `page` for the cache `c` without empty slabs. -/
def addSlab (h : Heap) (c page : ℕ) : Heap where
  mem := zeroPages h.mem page (h.caches c).pagesPerSlab
  slabs := Function.update h.slabs page (newSlab c page)
  caches := Function.update h.caches c { h.caches c with slabEmpty := page }
  cacheRoot := h.cacheRoot
  slabCnt := h.slabCnt + 1
  cacheCnt := h.cacheCnt

theorem addSlab_slabs {t : ℕ} (hne : t ≠ page) : (addSlab h c page).slabs t = h.slabs t := by
  simp [addSlab, hne]

theorem addSlab_caches (h : Heap) (c page d : ℕ) :
    ((addSlab h c page).caches d).objectSize = (h.caches d).objectSize ∧
      ((addSlab h c page).caches d).pagesPerSlab = (h.caches d).pagesPerSlab ∧
      ((addSlab h c page).caches d).next = (h.caches d).next ∧
      ((addSlab h c page).caches d).slabPartial = (h.caches d).slabPartial ∧
      ((addSlab h c page).caches d).slabFull = (h.caches d).slabFull := by
  by_cases hd : d = c
  · simp [addSlab, hd]
  · simp [addSlab, hd]

theorem addSlab_same (hpage : page ∉ ss) : SameGeometry ss cs h (addSlab h c page) := by
  refine ⟨?_, fun d _ => ⟨(addSlab_caches h c page d).1, (addSlab_caches h c page d).2.1⟩⟩
  intro t ht
  rw [addSlab_slabs (by rintro rfl; exact hpage ht)]
  exact ⟨rfl, rfl, rfl⟩

theorem allocObj_new (hpage : page ≠ 0) (hpart : (h.caches c).slabPartial = 0)
    (hempty : (h.caches c).slabEmpty = 0) :
    allocObj h c page = allocObj (addSlab h c page) c page := by
  have hs : (if (h.caches c).slabPartial ≠ 0 then (h.caches c).slabPartial
      else (h.caches c).slabEmpty) = 0 := by
    rw [if_neg (not_not.mpr hpart), hempty]
  have hs' : (if ((addSlab h c page).caches c).slabPartial ≠ 0 then
      ((addSlab h c page).caches c).slabPartial
      else ((addSlab h c page).caches c).slabEmpty) = page := by
    simp [addSlab, hpart]
  have hheap : allocSlab h c (h.caches c) page =
      some ({ h with
        mem := zeroPages h.mem page (h.caches c).pagesPerSlab
        slabs := Function.update h.slabs page (newSlab c page)
        slabCnt := h.slabCnt + 1 }, { h.caches c with slabEmpty := page }) := by
    unfold allocSlab
    rw [if_pos hempty]
  unfold allocObj
  simp only [hs, hs', hheap]
  rw [if_neg (not_not.mpr rfl), if_pos hpage]
  rfl

/-- A new slab keeps the invariant.
SRCLINE: kernel/mm/slab.cpp:11-30, 63-66 -/
theorem HeapInv.addSlab (hinv : HeapInv h ss cs live) (hc : c ∈ cs)
    (hpart : (h.caches c).slabPartial = 0)
    (hfresh : HeapState.Fresh ⟨h, ss, cs, live⟩ page ((h.caches c).pagesPerSlab * pageSize)) :
    HeapInv (addSlab h c page) (ss ++ [page]) cs live := by
  have hl := hinv.layout
  obtain ⟨hpos, halign, hbound, hapart⟩ := hfresh
  obtain ⟨hsize, hoverflow, hpages⟩ := hl.sizes c hc
  have hfit := buffer_fits hoverflow
  rw [← hpages] at hfit
  have hnotin : page ∉ ss := hinv.fresh_notMem (by omega) ⟨hpos, halign, hbound, hapart⟩
  have hslabs : ∀ t ∈ ss, (Analysis.addSlab h c page).slabs t = h.slabs t := by
    intro t ht
    apply addSlab_slabs
    rintro rfl
    exact hnotin ht
  have hnew : (Analysis.addSlab h c page).slabs page = newSlab c page := by
    simp [Analysis.addSlab]
  have hcaches := addSlab_caches h c page
  have hsame : SameGeometry ss cs h (Analysis.addSlab h c page) := addSlab_same hnotin
  have hbytes : slabBytes (Analysis.addSlab h c page) page = (h.caches c).pagesPerSlab * pageSize := by
    unfold slabBytes
    rw [hnew]
    change ((Analysis.addSlab h c page).caches c).pagesPerSlab * pageSize = _
    rw [(hcaches c).2.1]
  have hoff := bufOffset_bounds page
  have hbuf := newSlab_buf c halign (by simp only [pageSize] at *; omega)
  refine hinv.grow ⟨hpos, halign, hbound, hapart⟩ (by omega) hsame hslabs rfl (by rw [hnew]; rfl) ?_ ?_
  · refine hl.grow hsame (fun _ hd => hd) (hl.chain.congr fun d _ => (hcaches d).2.2.1)
      hl.cachesNodup hl.cacheCnt rfl ?_ ?_ hnotin ?_ fun d hd => Or.inl hd
    · intro d hd
      rw [SizesOk, (hcaches d).1, (hcaches d).2.1]
      exact hl.sizes d hd
    · refine ⟨?_, hpos, ?_, ?_, ?_, ?_⟩
      · rw [hnew]
        exact hc
      · rw [hnew]
        exact wrap_of_lt (by simp only [slabSize]; omega)
      · rw [hnew, hbuf]
        omega
      · rw [hbytes, hnew, hbuf]
        change page + bufOffset page + ((Analysis.addSlab h c page).caches c).objectSize * 256 < _
        rw [(hcaches c).1]
        omega
      · rw [hbytes]
        exact hbound
    · intro t ht
      rw [hbytes]
      exact hapart t ht
  · intro d hd
    by_cases hdc : d = c
    · rw [hdc]
      have hempty : ((Analysis.addSlab h c page).caches c).slabEmpty = page := by
        simp [Analysis.addSlab]
      refine ⟨?_, ?_, ?_⟩
      · right
        rw [hempty, Alone, hnew]
        exact ⟨⟨List.mem_append_right ss List.mem_cons_self, rfl, rfl, rfl⟩, rfl⟩
      · left
        rw [(hcaches c).2.2.2.1, hpart]
      · obtain ⟨l, hchain, hnodup, hall⟩ := (hinv.lists c hc).full
        rw [(hcaches c).2.2.2.2]
        obtain ⟨hchain', hnodup', hall'⟩ :=
          full_congr ⟨hchain, hnodup, hall⟩ fun t ht => hslabs t (hall t ht).1
        exact ⟨l, hchain', hnodup', fun t ht =>
          ⟨List.mem_append_left _ (hall' t ht).1, (hall' t ht).2⟩⟩
    · have hcache : (Analysis.addSlab h c page).caches d = h.caches d := by
        simp [Analysis.addSlab, hdc]
      exact (hinv.lists d hd).congr (fun _ ht => List.mem_append_left _ ht) (by rw [hcache])
        (by rw [hcache]) (by rw [hcache]) fun t ht _ => hslabs t ht

/-- A new slab keeps the caches linked: it is the empty slab of its cache.
SRCLINE: kernel/mm/slab.cpp:11-30, 63-66 -/
theorem addSlab_linked (hinv : HeapInv h ss cs live) (hempty : (h.caches c).slabEmpty = 0)
    (hpage : page ∉ ss) : LinksKept h (addSlab h c page) ss (ss ++ [page]) cs := by
  have hcaches := addSlab_caches h c page
  have hold : ∀ t ∈ ss, (addSlab h c page).slabs t = h.slabs t := by
    intro t ht
    apply addSlab_slabs
    rintro rfl
    exact hpage ht
  intro hlinked d hd
  obtain ⟨l, hchain, hback, hcover⟩ := hlinked d hd
  obtain ⟨l', hchain', -, hall⟩ := (hinv.lists d hd).full
  obtain rfl := hchain.unique hchain'
  refine ⟨l, ?_, backed_congr hback fun t ht => by rw [hold t (hall t ht).1], ?_⟩
  · rw [(hcaches d).2.2.2.2]
    exact hchain.congr fun t ht => by rw [hold t (hall t ht).1]
  · intro t ht hpar
    rw [(hcaches d).2.2.2.1]
    rcases List.mem_append.mp ht with ht | ht
    · rw [hold t ht] at hpar
      refine (hcover t ht hpar).imp_left fun heq => ?_
      by_cases hdc : d = c
      · have hpos := (hinv.layout.slab t ht).pos
        rw [heq, hdc, hempty] at hpos
        exact absurd hpos (Nat.lt_irrefl 0)
      · simp [addSlab, hdc, heq]
    · left
      obtain rfl := List.mem_singleton.mp ht
      have hdc : c = d := by simpa [addSlab, newSlab] using hpar
      simp [addSlab, hdc]

end NewSlab

/-! ## The specification of `kmm::alloc` -/

/-- The heap `g` with the slabs `ss'` in which the slab of the next object of the cache `c` is made:
`h` itself, or `h` with a new slab. -/
def Prepared (h g : Heap) (ss ss' : List ℕ) (c page : ℕ) : Prop :=
  g = h ∧ ss' = ss ∨ g = addSlab h c page ∧ ss' = ss ++ [page]

section Alloc

variable {h : Heap} {ss cs : List ℕ} {live : List Object} {c page : ℕ}

/-- `cache::alloc_obj` takes the first clear slot of a slab of the cache.
SRCLINE: kernel/mm/slab.cpp:54-77 -/
theorem allocObj_spec (hinv : HeapInv h ss cs live) (hc : c ∈ cs)
    (hfresh : HeapState.Fresh ⟨h, ss, cs, live⟩ page ((h.caches c).pagesPerSlab * pageSize)) :
    ∃ g ss' s i h', Prepared h g ss ss' c page ∧ HeapInv g ss' cs live ∧
      (s = if (h.caches c).slabPartial ≠ 0 then (h.caches c).slabPartial
        else if (h.caches c).slabEmpty ≠ 0 then (h.caches c).slabEmpty else page) ∧
      (g.slabs s).parent = c ∧ (g.caches c).objectSize = (h.caches c).objectSize ∧
      SlotTaken g h' ss' cs s i ∧ ((∀ d ∈ cs, Lists h' ss' d) ∧ LinksKept h h' ss ss' cs) ∧
      allocObj h c page = some (h', (g.slabs s).buf + i * (h.caches c).objectSize) := by
  have hl := hinv.lists c hc
  by_cases hpart : (h.caches c).slabPartial = 0
  · rw [if_neg (not_not.mpr hpart)]
    by_cases hempty : (h.caches c).slabEmpty = 0
    · rw [if_neg (not_not.mpr hempty)]
      have hpage : page ≠ 0 := Nat.pos_iff_ne_zero.mp hfresh.1
      have hinv' := hinv.addSlab hc hpart hfresh
      have hnotin : page ∉ ss := by
        have hfit := buffer_fits (hinv.layout.sizes c hc).2.1
        rw [← (hinv.layout.sizes c hc).2.2] at hfit
        exact hinv.fresh_notMem (by omega) hfresh
      have hcache : (addSlab h c page).caches c = { h.caches c with slabEmpty := page } := by
        simp [addSlab]
      obtain ⟨i, h', hobj, htaken, hlists, hlinks⟩ := allocObj_empty (s := page) hinv' hc hpage
        (by rw [hcache]; exact hpart) (by rw [hcache]) page
      rw [hcache] at hobj
      refine ⟨addSlab h c page, ss ++ [page], page, i, h', Or.inr ⟨rfl, rfl⟩, hinv', rfl, ?_, ?_,
        htaken, ⟨hlists, fun hlinked => hlinks (addSlab_linked hinv hempty hnotin hlinked)⟩, ?_⟩
      · simp [addSlab, newSlab]
      · rw [hcache]
      · rw [allocObj_new hpage hpart hempty]
        exact hobj
    · rw [if_pos hempty]
      obtain ⟨i, h', hobj, htaken, hlists⟩ := allocObj_empty hinv hc hempty hpart rfl page
      rcases hl.empty with hnull | ⟨⟨-, hpar, -⟩, -⟩
      · exact absurd hnull hempty
      · exact ⟨h, ss, _, i, h', Or.inl ⟨rfl, rfl⟩, hinv, rfl, hpar, rfl, htaken, hlists, hobj⟩
  · rw [if_pos hpart]
    obtain ⟨i, h', hobj, htaken, hlists⟩ := allocObj_partial hinv hc hpart rfl page
    rcases hl.partly with hnull | ⟨⟨-, hpar, -⟩, -⟩
    · exact absurd hnull hpart
    · exact ⟨h, ss, _, i, h', Or.inl ⟨rfl, rfl⟩, hinv, rfl, hpar, rfl, htaken, hlists, hobj⟩

/-- Preparing the slab keeps the slabs that exist and their pages. -/
theorem Prepared.keeps {g : Heap} {ss' : List ℕ} (hprep : Prepared h g ss ss' c page)
    (hinv : HeapInv h ss cs live) (hc : c ∈ cs)
    (hfresh : HeapState.Fresh ⟨h, ss, cs, live⟩ page ((h.caches c).pagesPerSlab * pageSize)) :
    SameGeometry ss cs h g ∧ (∀ s ∈ ss, s ∈ ss') ∧
      ∀ s ∈ ss, ∀ a, s ≤ a → a < s + slabBytes h s → g.mem a = h.mem a := by
  rcases hprep with ⟨rfl, rfl⟩ | ⟨rfl, rfl⟩
  · exact ⟨SameGeometry.refl _ _ _, fun _ hs => hs, fun _ _ _ _ _ => rfl⟩
  · have hfit := buffer_fits (hinv.layout.sizes c hc).2.1
    rw [← (hinv.layout.sizes c hc).2.2] at hfit
    have hnotin : page ∉ ss := hinv.fresh_notMem (by omega) hfresh
    refine ⟨addSlab_same hnotin, fun _ hs => List.mem_append_left _ hs, ?_⟩
    intro s hs a hlow hhigh
    have hap : page + (h.caches c).pagesPerSlab * pageSize ≤ s ∨ s + slabBytes h s ≤ page :=
      hfresh.2.2.2 s hs
    change zeroPages h.mem page (h.caches c).pagesPerSlab a = h.mem a
    unfold zeroPages
    rw [if_neg]
    omega

/-- The cache that `kmm::alloc` uses.
SRCLINE: kernel/mm/slab.cpp:158-169 -/
theorem cacheFor_eq (hl : Layout h ss cs) (hcs : cs ≠ []) (size : ℕ) :
    cacheFor h size = some (cs.find? fun c => (h.caches c).objectSize = roundSize size) := by
  have hroot : h.cacheRoot ≠ 0 := by
    have hchain := hl.chain
    cases cs with
    | nil => exact absurd rfl hcs
    | cons c cs =>
      rw [hchain.1]
      exact hchain.2.1
  unfold cacheFor
  rw [if_neg hroot]
  exact hl.chain.findNode hcs _ hl.cacheCnt.ge

end Alloc

/-! ## New caches -/

/-- What the constructor of a cache does: the cache `c` is in the new slab at `page`. -/
structure CacheAdded (h h' : Heap) (cs : List ℕ) (objectSize c page : ℕ) : Prop where
  mem : h'.mem = zeroPages h.mem page (pagesPerSlab objectSize)
  slabCnt : h'.slabCnt = h.slabCnt + 1
  cacheCnt : h'.cacheCnt = h.cacheCnt + 1
  slab : h'.slabs page = { newSlab c page with buf := c + cacheSize }
  others : ∀ s, s ≠ page → h'.slabs s = h.slabs s
  sizes : (h'.caches c).objectSize = objectSize ∧
    (h'.caches c).pagesPerSlab = pagesPerSlab objectSize
  heads : (h'.caches c).slabEmpty = page ∧ (h'.caches c).slabPartial = 0 ∧
    (h'.caches c).slabFull = 0
  caches : ∀ d ∈ cs, (h'.caches d).objectSize = (h.caches d).objectSize ∧
    (h'.caches d).pagesPerSlab = (h.caches d).pagesPerSlab ∧
    (h'.caches d).slabEmpty = (h.caches d).slabEmpty ∧
    (h'.caches d).slabPartial = (h.caches d).slabPartial ∧
    (h'.caches d).slabFull = (h.caches d).slabFull
  chain : Chain 0 (fun d => (h'.caches d).next) h'.cacheRoot (cs ++ [c])

section NewCache

variable {h : Heap} {ss cs : List ℕ} {live : List Object} {storage : Cache} {objectSize page : ℕ}

/-- INTERNAL: the place of a new cache is the place of no other. -/
theorem HeapInv.fresh_cache (hinv : HeapInv h ss cs live) {c bytes : ℕ}
    (hfresh : HeapState.Fresh ⟨h, ss, cs, live⟩ page bytes) (hlow : page ≤ c)
    (hhigh : c + 88 ≤ page + bytes) : c ∉ cs := by
  intro hin
  obtain ⟨s, hs, -, hslow, hshigh⟩ := hinv.layout.embedded c hin
  have hfits := (hinv.layout.slab s hs).fits
  have hap : page + bytes ≤ s ∨ s + slabBytes h s ≤ page := hfresh.2.2.2 s hs
  omega

/-- The heap of the constructor before the new cache `c` is linked to the others. -/
def placeCache (h : Heap) (storage : Cache) (objectSize c page : ℕ) : Heap where
  mem := zeroPages h.mem page (pagesPerSlab objectSize)
  slabs := Function.update h.slabs page { newSlab c page with buf := c + cacheSize }
  caches := Function.update h.caches c { storage with
    objectSize := objectSize, pagesPerSlab := pagesPerSlab objectSize, slabEmpty := page }
  cacheRoot := h.cacheRoot
  slabCnt := h.slabCnt + 1
  cacheCnt := h.cacheCnt + 1

/-- INTERNAL: the constructor, in two parts.
SRCLINE: kernel/mm/slab.cpp:32-52 -/
theorem newCache_eq {c : ℕ} (hc : (newSlab 0 page).buf = c) (hcbound : c + 88 < 2 ^ 64)
    (hempty : storage.slabEmpty = 0) :
    newCache h storage objectSize page =
      if h.cacheRoot = 0 then
        some { placeCache h storage objectSize c page with cacheRoot := c }
      else
        match (placeCache h storage objectSize c page).lastCache h.cacheRoot with
        | none => none
        | some node =>
          let g := (placeCache h storage objectSize c page).setCache node
            { (placeCache h storage objectSize c page).caches node with next := c }
          some (g.setCache c { g.caches c with last := node }) := by
  have hslab : { newSlab 0 page with buf := wrap (c + cacheSize), parent := c } =
      { newSlab c page with buf := c + cacheSize } := by
    rw [wrap_of_lt hcbound]
    rfl
  unfold newCache allocSlab
  simp only [hempty, if_true, Function.update_self, hc, Heap.setCache_slabs]
  have hplace : ({ ({ h with
      mem := zeroPages h.mem page (pagesPerSlab objectSize)
      slabs := Function.update h.slabs page (newSlab 0 page)
      slabCnt := h.slabCnt + 1 } : Heap).setCache c { storage with
        objectSize := objectSize, pagesPerSlab := pagesPerSlab objectSize, slabEmpty := page } with
      cacheCnt := h.cacheCnt + 1 } : Heap).setSlab page
        { newSlab 0 page with buf := wrap (c + cacheSize), parent := c } =
      placeCache h storage objectSize c page := by
    rw [hslab, placeCache, Heap.setSlab, Heap.setCache]
    simp only [Function.update_idem]
  rw [← hplace]
  rfl

/-- The constructor adds a cache to the end of the chain.
SRCLINE: kernel/mm/slab.cpp:32-52 -/
theorem newCache_added (hl : Layout h ss cs) {c : ℕ} (hc : (newSlab 0 page).buf = c)
    (hcbound : c + 88 < 2 ^ 64) (hcpos : c ≠ 0) (hccs : c ∉ cs) (hempty : storage.slabEmpty = 0)
    (hpart : storage.slabPartial = 0) (hfull : storage.slabFull = 0) (hnext : storage.next = 0) :
    ∃ h', newCache h storage objectSize page = some h' ∧
      CacheAdded h h' cs objectSize c page := by
  rw [newCache_eq hc hcbound hempty]
  have hself : (placeCache h storage objectSize c page).caches c = { storage with
      objectSize := objectSize, pagesPerSlab := pagesPerSlab objectSize, slabEmpty := page } := by
    simp [placeCache]
  have hold : ∀ d, d ≠ c → (placeCache h storage objectSize c page).caches d = h.caches d := by
    intro d hd
    simp [placeCache, hd]
  have hslab : (placeCache h storage objectSize c page).slabs page =
      { newSlab c page with buf := c + cacheSize } := by
    simp [placeCache]
  have hothers : ∀ s, s ≠ page → (placeCache h storage objectSize c page).slabs s = h.slabs s := by
    intro s hs
    simp [placeCache, hs]
  have hne : ∀ d ∈ cs, d ≠ c := by
    rintro d hd rfl
    exact hccs hd
  rcases List.eq_nil_or_concat' cs with rfl | ⟨l, node, rfl⟩
  · have hroot : h.cacheRoot = 0 := hl.chain
    rw [if_pos hroot]
    refine ⟨_, rfl, ?_⟩
    refine ⟨rfl, rfl, rfl, hslab, hothers, ?_, ?_, nofun, ?_⟩
    · change ((placeCache h storage objectSize c page).caches c).objectSize = _ ∧
        ((placeCache h storage objectSize c page).caches c).pagesPerSlab = _
      simp only [hself, and_self]
    · change ((placeCache h storage objectSize c page).caches c).slabEmpty = _ ∧
        ((placeCache h storage objectSize c page).caches c).slabPartial = _ ∧
        ((placeCache h storage objectSize c page).caches c).slabFull = _
      rw [hself]
      exact ⟨rfl, hpart, hfull⟩
    · refine ⟨rfl, hcpos, ?_⟩
      change ((placeCache h storage objectSize c page).caches c).next = 0
      rw [hself]
      exact hnext
  · have hnodemem : node ∈ l ++ [node] := List.mem_append_right l List.mem_cons_self
    have hnc : node ≠ c := hne node hnodemem
    have hroot : h.cacheRoot ≠ 0 := by
      have hchain := hl.chain
      intro hnull
      cases l with
      | nil => exact hchain.2.1 (hchain.1.symm.trans hnull)
      | cons x l => exact hchain.2.1 (hchain.1.symm.trans hnull)
    have hchain : Chain 0 (fun d => ((placeCache h storage objectSize c page).caches d).next)
        h.cacheRoot (l ++ [node]) := by
      refine hl.chain.congr ?_
      intro d hd
      rw [hold d (hne d hd)]
    have hlast : (placeCache h storage objectSize c page).lastCache h.cacheRoot = some node := by
      refine hchain.lastNode ?_
      change l.length < h.cacheCnt + 1
      rw [hl.cacheCnt, List.length_append, List.length_singleton]
      omega
    rw [if_neg hroot, hlast]
    -- the caches afterwards: `node` points to the new one, which points back
    have hcaches : ∀ d, d ≠ c → d ≠ node →
        (((placeCache h storage objectSize c page).setCache node
          { (placeCache h storage objectSize c page).caches node with next := c }).setCache c
            { ((placeCache h storage objectSize c page).setCache node
              { (placeCache h storage objectSize c page).caches node with next := c }).caches c with
              last := node }).caches d = h.caches d := by
      intro d hdc hdn
      rw [Heap.setCache_of_ne _ _ hdc, Heap.setCache_of_ne _ _ hdn, hold d hdc]
    refine ⟨_, rfl, ?_⟩
    refine ⟨rfl, rfl, rfl, hslab, hothers, ?_, ?_, ?_, ?_⟩
    · simp only [Heap.setCache_self, Heap.setCache_of_ne _ _ hnc.symm, hself, and_self]
    · rw [Heap.setCache_self, Heap.setCache_of_ne _ _ hnc.symm, hself]
      exact ⟨rfl, hpart, hfull⟩
    · intro d hd
      by_cases hdn : d = node
      · rw [hdn, Heap.setCache_of_ne _ _ hnc, Heap.setCache_self, hold node hnc]
        exact ⟨rfl, rfl, rfl, rfl, rfl⟩
      · rw [hcaches d (hne d hd) hdn]
        exact ⟨rfl, rfl, rfl, rfl, rfl⟩
    · have hend : ((placeCache h storage objectSize c page).caches c).next = 0 := by
        rw [hself]
        exact hnext
      refine (hchain.append hl.cachesNodup hcpos hccs hend).congr ?_
      intro d _
      by_cases hdc : d = c
      · rw [hdc, Heap.setCache_self, Heap.setCache_of_ne _ _ hnc.symm,
          Function.update_of_ne hnc.symm]
      · by_cases hdn : d = node
        · rw [hdn, Heap.setCache_of_ne _ _ hnc, Heap.setCache_self, Function.update_self]
        · rw [hcaches d hdc hdn, Function.update_of_ne hdn, hold d hdc]

/-- A new cache keeps the invariant. -/
theorem CacheAdded.heapInv {h' : Heap} {c : ℕ} (hadd : CacheAdded h h' cs objectSize c page)
    (hinv : HeapInv h ss cs live)
    (hfresh : HeapState.Fresh ⟨h, ss, cs, live⟩ page (pagesPerSlab objectSize * pageSize))
    (hc : c = page + bufOffset page) (hsize : 0 < objectSize)
    (hoverflow : objectSize * 256 + 4176 ≤ 2 ^ 63) : HeapInv h' (ss ++ [page]) (cs ++ [c]) live := by
  have hl := hinv.layout
  obtain ⟨hpos, halign, hbound, hapart⟩ := hfresh
  have hfit := buffer_fits hoverflow
  have hoff := bufOffset_bounds page
  have hnotin : page ∉ ss := hinv.fresh_notMem (by omega) ⟨hpos, halign, hbound, hapart⟩
  have hccs : c ∉ cs := hinv.fresh_cache ⟨hpos, halign, hbound, hapart⟩ (by omega) (by omega)
  have hslabs : ∀ t ∈ ss, h'.slabs t = h.slabs t := by
    intro t ht
    apply hadd.others
    rintro rfl
    exact hnotin ht
  have hsame : SameGeometry ss cs h h' := by
    refine ⟨?_, fun d hd => ⟨(hadd.caches d hd).1, (hadd.caches d hd).2.1⟩⟩
    intro t ht
    rw [hslabs t ht]
    exact ⟨rfl, rfl, rfl⟩
  have hparent : (h'.slabs page).parent = c := by rw [hadd.slab]; rfl
  have hbuf : (h'.slabs page).buf = c + 88 := by rw [hadd.slab]
  have hbytes : slabBytes h' page = pagesPerSlab objectSize * pageSize := by
    unfold slabBytes
    rw [hparent, hadd.sizes.2]
  have hnodup : (cs ++ [c]).Nodup := by
    rw [List.nodup_append]
    refine ⟨hl.cachesNodup, List.nodup_singleton c, ?_⟩
    rintro d hd e he rfl
    exact hccs (List.mem_singleton.mp he ▸ hd)
  refine hinv.grow ⟨hpos, halign, hbound, hapart⟩ (by omega) hsame hslabs hadd.mem
    (by rw [hadd.slab]; rfl) ?_ ?_
  · refine hl.grow hsame (fun _ hd => List.mem_append_left _ hd) hadd.chain hnodup ?_ hadd.slabCnt
      ?_ ?_ hnotin ?_ ?_
    · rw [hadd.cacheCnt, hl.cacheCnt, List.length_append, List.length_singleton]
    · intro d hd
      rcases List.mem_append.mp hd with hold | hnew
      · rw [SizesOk, (hadd.caches d hold).1, (hadd.caches d hold).2.1]
        exact hl.sizes d hold
      · rw [List.mem_singleton.mp hnew, SizesOk, hadd.sizes.1, hadd.sizes.2]
        exact ⟨hsize, hoverflow, rfl⟩
    · refine ⟨?_, hpos, ?_, ?_, ?_, ?_⟩
      · rw [hparent]
        exact List.mem_append_right cs List.mem_cons_self
      · rw [hadd.slab]
        exact wrap_of_lt (by simp only [slabSize]; omega)
      · rw [hbuf]
        omega
      · rw [hbuf, hparent, hadd.sizes.1, hbytes]
        omega
      · rw [hbytes]
        exact hbound
    · intro t ht
      rw [hbytes]
      exact hapart t ht
    · intro d hd
      rcases List.mem_append.mp hd with hold | hnew
      · exact Or.inl hold
      · rw [List.mem_singleton.mp hnew, hparent, hbuf]
        exact Or.inr ⟨rfl, by omega, le_rfl⟩
  · intro d hd
    rcases List.mem_append.mp hd with hold | hnew
    · obtain ⟨-, -, he, hp, hf⟩ := hadd.caches d hold
      exact (hinv.lists d hold).congr (fun _ ht => List.mem_append_left _ ht) he hp hf
        fun t ht _ => hslabs t ht
    · rw [List.mem_singleton.mp hnew]
      obtain ⟨he, hp, hf⟩ := hadd.heads
      refine ⟨?_, ?_, ?_⟩
      · right
        rw [he, Alone, hadd.slab]
        exact ⟨⟨List.mem_append_right ss List.mem_cons_self, rfl, rfl, rfl⟩, rfl⟩
      · left
        exact hp
      · exact ⟨[], hf, List.nodup_nil, fun _ ht => absurd ht List.not_mem_nil⟩

/-- A new cache keeps the others linked and is linked itself: its slab is its empty slab. -/
theorem CacheAdded.linked {h' : Heap} {c : ℕ} (hadd : CacheAdded h h' cs objectSize c page)
    (hinv : HeapInv h ss cs live) (hpage : page ∉ ss) (hccs : c ∉ cs) :
    (∀ d ∈ cs, Linked h ss d) → ∀ d ∈ cs ++ [c], Linked h' (ss ++ [page]) d := by
  have hold : ∀ t ∈ ss, h'.slabs t = h.slabs t := by
    intro t ht
    apply hadd.others
    rintro rfl
    exact hpage ht
  have hparent : (h'.slabs page).parent = c := by
    rw [hadd.slab]
    rfl
  intro hlinked d hd
  rcases List.mem_append.mp hd with hd | hd
  · obtain ⟨-, -, he, hp, hf⟩ := hadd.caches d hd
    obtain ⟨l, hchain, hback, hcover⟩ := hlinked d hd
    obtain ⟨l', hchain', -, hall⟩ := (hinv.lists d hd).full
    obtain rfl := hchain.unique hchain'
    refine ⟨l, ?_, backed_congr hback fun t ht => by rw [hold t (hall t ht).1], ?_⟩
    · rw [hf]
      exact hchain.congr fun t ht => by rw [hold t (hall t ht).1]
    · intro t ht hpar
      rw [he, hp]
      rcases List.mem_append.mp ht with ht | ht
      · rw [hold t ht] at hpar
        exact hcover t ht hpar
      · rw [List.mem_singleton.mp ht, hparent] at hpar
        exact absurd (hpar ▸ hd) hccs
  · obtain rfl := List.mem_singleton.mp hd
    obtain ⟨he, -, hf⟩ := hadd.heads
    refine ⟨[], hf, trivial, ?_⟩
    intro t ht hpar
    rcases List.mem_append.mp ht with ht | ht
    · rw [hold t ht] at hpar
      exact absurd (hpar ▸ (hinv.layout.slab t ht).parent) hccs
    · left
      rw [he]
      exact List.mem_singleton.mp ht

/-- INTERNAL: the constructor makes a cache with one slab, both at new places.
SRCLINE: kernel/mm/slab.cpp:32-52 -/
theorem newCache_made (hinv : HeapInv h ss cs live) (hsize : 0 < objectSize)
    (hfresh : HeapState.Fresh ⟨h, ss, cs, live⟩ page (pagesPerSlab objectSize * pageSize))
    (hsound : HeapOp.Sound (.newCache storage objectSize page)) :
    ∃ h' c, newCache h storage objectSize page = some h' ∧ (h'.slabs page).parent = c ∧
      page ∉ ss ∧ c ∉ cs ∧ CacheAdded h h' cs objectSize c page ∧
        HeapInv h' (ss ++ [page]) (cs ++ [c]) live := by
  obtain ⟨hempty, hpart, hfull, hnext, hoverflow⟩ := hsound
  obtain ⟨hpos, halign, hbound, hapart⟩ := hfresh
  have hfit := buffer_fits hoverflow
  have hoff := bufOffset_bounds page
  have hbuf := newSlab_buf 0 halign (by simp only [pageSize] at *; omega)
  have hpage := hinv.fresh_notMem (by omega) ⟨hpos, halign, hbound, hapart⟩
  have hccs := hinv.fresh_cache (c := page + bufOffset page) ⟨hpos, halign, hbound, hapart⟩
    (by omega) (by omega)
  obtain ⟨h', heq, hadd⟩ : ∃ h', newCache h storage objectSize page = some h' ∧
      CacheAdded h h' cs objectSize (page + bufOffset page) page :=
    newCache_added hinv.layout hbuf (by omega) (by omega) hccs hempty hpart hfull hnext
  have hparent : (h'.slabs page).parent = page + bufOffset page := by rw [hadd.slab]; rfl
  exact ⟨h', _, heq, hparent, hpage, hccs, hadd,
    hadd.heapInv hinv ⟨hpos, halign, hbound, hapart⟩ rfl hsize hoverflow⟩

/-- The specification of the constructor.
SRCLINE: kernel/mm/slab.cpp:32-52 -/
theorem newCache_spec (hinv : HeapInv h ss cs live) (hsize : 0 < objectSize)
    (hfresh : HeapState.Fresh ⟨h, ss, cs, live⟩ page (pagesPerSlab objectSize * pageSize))
    (hsound : HeapOp.Sound (.newCache storage objectSize page)) :
    ∃ h', newCache h storage objectSize page = some h' ∧
      HeapInv h' (ss ++ [page]) (cs ++ [(h'.slabs page).parent]) live := by
  obtain ⟨h', c, heq, hparent, -, -, -, hinv'⟩ := newCache_made hinv hsize hfresh hsound
  refine ⟨h', heq, ?_⟩
  rw [hparent]
  exact hinv'

end NewCache

end CrepOS.Analysis
