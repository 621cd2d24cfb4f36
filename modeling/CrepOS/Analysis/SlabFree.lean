import CrepOS.Analysis.SlabAlloc

/-!
# What `kmm::free` does to the heap

`cache::free_obj` looks only at the first slab of the partial and of the full list of a cache, and
`kmm::free` stops at the first cache where that fails. So `kmm::free` clears a bit only for an object
in one of these two slabs of the first cache, and then goes on to the second cache, whose object size
it returns (`free_spec`).
-/

set_option autoImplicit false

namespace CrepOS.Analysis

open CrepOS.Library CrepOS.Model CrepOS.Interface

/-- The address is in the buffer of the slab `s`. -/
def InBuffer (h : Heap) (s obj : ℕ) : Prop :=
  (h.slabs s).buf ≤ obj ∧
    obj < (h.slabs s).buf + (h.caches (h.slabs s).parent).objectSize * 256

instance (h : Heap) (s obj : ℕ) : Decidable (InBuffer h s obj) :=
  inferInstanceAs (Decidable (_ ∧ _))

/-- The slab `s` is the first of the partial or of the full slabs of the cache `c`. -/
def IsHead (h : Heap) (c s : ℕ) : Prop :=
  s ≠ 0 ∧ ((h.caches c).slabPartial = s ∨ (h.caches c).slabFull = s)

instance (h : Heap) (c s : ℕ) : Decidable (IsHead h c s) :=
  inferInstanceAs (Decidable (_ ∧ _))

/-- The index that `scan_slab` computes for an address in the buffer of `s`. -/
def slotIndex (h : Heap) (s obj : ℕ) : ℕ :=
  (obj - (h.slabs s).buf) / (h.caches (h.slabs s).parent).objectSize

/-- The heap with the bit of slot `i` of the slab `s` cleared. -/
def clearSlot (h : Heap) (s i : ℕ) : Heap := { h with mem := h.mem.clearBit (s + 48) i }

section Free

variable {h : Heap} {ss cs : List ℕ} {live : List Object} {c s t obj : ℕ}

/-- INTERNAL: the first slab of a list is a slab of the cache. -/
theorem HeapInv.head_mem (hinv : HeapInv h ss cs live) (hc : c ∈ cs) (hhead : IsHead h c s) :
    s ∈ ss ∧ (h.slabs s).parent = c := by
  have hl := hinv.lists c hc
  obtain ⟨hpos, rfl | rfl⟩ := hhead
  · rcases hl.partly with hnull | ⟨⟨hs, hpar, -⟩, -⟩
    · exact absurd hnull hpos
    · exact ⟨hs, hpar⟩
  · obtain ⟨l, hchain, -, hall⟩ := hl.full
    cases l with
    | nil => exact absurd hchain hpos
    | cons x l =>
      obtain ⟨hx, -⟩ := hchain
      rw [hx]
      exact ⟨(hall x List.mem_cons_self).1, (hall x List.mem_cons_self).2.1⟩

/-- INTERNAL: an address is in the buffer of one slab only. -/
theorem Layout.inBuffer_unique (hl : Layout h ss cs) (hs : s ∈ ss) (ht : t ∈ ss)
    (hsobj : InBuffer h s obj) (htobj : InBuffer h t obj) : s = t := by
  by_contra hne
  obtain ⟨hs₁, hs₂⟩ := hsobj
  obtain ⟨ht₁, ht₂⟩ := htobj
  have hsok := hl.slab s hs
  have htok := hl.slab t ht
  have := hsok.low
  have := hsok.fits
  have := htok.low
  have := htok.fits
  rcases hl.apart s hs t ht hne with hap | hap <;> omega

theorem slotIndex_lt (hl : Layout h ss cs) (hs : s ∈ ss) (hobj : InBuffer h s obj) :
    slotIndex h s obj < 256 := by
  have hpos := (hl.sizes _ (hl.slab s hs).parent).1
  unfold slotIndex
  rw [Nat.div_lt_iff_lt_mul hpos, Nat.mul_comm]
  have := hobj.1
  have := hobj.2
  omega

/-- The address of a slot is in the buffer, and its index is the index of the slot. -/
theorem IsSlot.inBuffer {o : Object} {i : ℕ} (hslot : IsSlot h o s i) (hl : Layout h ss cs)
    (hs : s ∈ ss) : InBuffer h s o.addr ∧ slotIndex h s o.addr = i := by
  have hok := hl.slab s hs
  have hpos := hslot.size_pos hl hs
  have hbounds := hslot.bounds hok
  obtain ⟨-, hsize, haddr⟩ := hslot
  refine ⟨⟨hbounds.1, ?_⟩, ?_⟩
  · rw [← hsize]
    omega
  · unfold slotIndex
    rw [← hsize, haddr, Nat.add_sub_cancel_left, Nat.mul_div_cancel i hpos]

/-- `scan_slab` on a slab of the cache.
SRCLINE: kernel/mm/slab.cpp:80-91 -/
theorem scanSlab_eq (hl : Layout h ss cs) (hs : s ∈ ss) (hpar : (h.slabs s).parent = c) :
    scanSlab h (h.caches c).objectSize s obj =
      if InBuffer h s obj then some (clearSlot h s (slotIndex h s obj)) else none := by
  have hok := hl.slab s hs
  have hwrap : wrap ((h.slabs s).buf + (h.caches c).objectSize * objectsPerSlab) =
      (h.slabs s).buf + (h.caches c).objectSize * 256 := by
    apply wrap_of_lt
    have := hok.fits
    have := hok.bound
    rw [hpar] at *
    simp only [objectsPerSlab]
    omega
  unfold scanSlab
  rw [if_neg (Nat.pos_iff_ne_zero.mp hok.pos)]
  simp only [hwrap, bmClear_eq, hok.bitmap]
  by_cases hobj : InBuffer h s obj
  · have hobj' := hobj
    unfold InBuffer at hobj'
    rw [hpar] at hobj'
    rw [if_pos hobj, if_pos hobj', clearSlot, slotIndex, hpar]
  · have hobj' := hobj
    unfold InBuffer at hobj'
    rw [hpar] at hobj'
    rw [if_neg hobj, if_neg hobj']

/-- `cache::free_obj` clears a bit in the first slab of one of the two lists, or does nothing.
SRCLINE: kernel/mm/slab.cpp:79-102 -/
theorem freeObj_spec (hinv : HeapInv h ss cs live) (hc : c ∈ cs) (obj : ℕ) :
    (freeObj h c obj = none ∧ ∀ s, IsHead h c s → ¬ InBuffer h s obj) ∨
      ∃ s, IsHead h c s ∧ InBuffer h s obj ∧
        freeObj h c obj = some (clearSlot h s (slotIndex h s obj)) := by
  have hscan : ∀ s, (h.caches c).slabPartial = s ∨ (h.caches c).slabFull = s →
      (scanSlab h (h.caches c).objectSize s obj = none ∧ (IsHead h c s → ¬ InBuffer h s obj)) ∨
      (IsHead h c s ∧ InBuffer h s obj ∧ scanSlab h (h.caches c).objectSize s obj =
        some (clearSlot h s (slotIndex h s obj))) := by
    intro s hor
    by_cases hnull : s = 0
    · left
      rw [hnull]
      exact ⟨rfl, fun hhead => absurd rfl hhead.1⟩
    · have hhead : IsHead h c s := ⟨hnull, hor⟩
      obtain ⟨hs, hpar⟩ := hinv.head_mem hc hhead
      rw [scanSlab_eq hinv.layout hs hpar]
      by_cases hobj : InBuffer h s obj
      · rw [if_pos hobj]
        exact Or.inr ⟨hhead, hobj, rfl⟩
      · rw [if_neg hobj]
        exact Or.inl ⟨rfl, fun _ => hobj⟩
  unfold freeObj
  rcases hscan _ (Or.inl rfl) with ⟨hpart, hnot⟩ | ⟨hhead, hobj, hpart⟩
  · simp only [hpart]
    rcases hscan _ (Or.inr rfl) with ⟨hfull, hnot'⟩ | ⟨hhead, hobj, hfull⟩
    · refine Or.inl ⟨hfull, ?_⟩
      intro s hs
      rcases hs.2 with rfl | rfl
      · exact hnot hs
      · exact hnot' hs
    · exact Or.inr ⟨_, hhead, hobj, hfull⟩
  · simp only [hpart]
    exact Or.inr ⟨_, hhead, hobj, rfl⟩

/-- `kmm::free` acts on the first cache and answers from the first or the second one.
SRCLINE: kernel/mm/slab.cpp:175-194 -/
theorem free_spec {rest : List ℕ} (hinv : HeapInv h ss (c :: rest) live) (hobj : obj ≠ 0) :
    (free h obj = some (h, (h.caches c).objectSize) ∧ ∀ s, IsHead h c s → ¬ InBuffer h s obj) ∨
      ∃ s, IsHead h c s ∧ InBuffer h s obj ∧
        free h obj = some (clearSlot h s (slotIndex h s obj),
          (rest.head?.map fun d => (h.caches d).objectSize).getD 0) := by
  have hl := hinv.layout
  obtain ⟨hroot, hne, hnext⟩ := hl.chain
  have hfree : free h obj = freeLoop (rest.length + 1) h c obj := by
    unfold free
    rw [if_neg hobj, hroot, if_neg hne, hl.cacheCnt, List.length_cons]
  rw [hfree, freeLoop]
  rcases freeObj_spec hinv List.mem_cons_self obj with ⟨hnone, hnot⟩ | ⟨s, hhead, hin, hsome⟩
  · left
    simp only [hnone]
    exact ⟨trivial, hnot⟩
  · right
    refine ⟨s, hhead, hin, ?_⟩
    simp only [hsome]
    obtain ⟨hs, hpar⟩ := hinv.head_mem List.mem_cons_self hhead
    cases rest with
    | nil =>
      have hend : (h.caches c).next = 0 := hnext
      change (if (h.caches c).next = 0 then _ else _) = _
      rw [if_pos hend]
      rfl
    | cons d rest =>
      obtain ⟨hd, hdne, -⟩ := hnext
      have hd' : (h.caches c).next = d := hd
      change (if (h.caches c).next = 0 then _ else freeLoop _ _ (h.caches c).next obj) = _
      rw [hd', if_neg hdne, List.length_cons, freeLoop]
      have hinv' : HeapInv (clearSlot h s (slotIndex h s obj)) ss (c :: d :: rest) [] :=
        HeapInv.clear (hinv.sublist (List.nil_sublist live)) hs (slotIndex_lt hl hs hin) nofun
      -- the object is in a slab of the first cache, so not in one of the second
      rcases freeObj_spec hinv' (List.mem_cons_of_mem c List.mem_cons_self) obj with
        ⟨hnone, -⟩ | ⟨t, hthead, htin, -⟩
      · simp only [hnone]
        rfl
      · obtain ⟨ht, htpar⟩ := hinv'.head_mem (List.mem_cons_of_mem c List.mem_cons_self) hthead
        have hst : s = t := hl.inBuffer_unique hs ht hin htin
        have hcd : c = d := by
          rw [← hpar, ← htpar, hst]
          rfl
        exact absurd hcd (List.ne_of_not_mem_cons (List.nodup_cons.mp hl.cachesNodup).1)

/-- The two outcomes of `kmm::free` on a live object. -/
theorem free_live (hinv : HeapInv h ss cs live) {o : Object} (ho : o ∈ live) :
    ∃ s ∈ ss, ∃ i, IsSlot h o s i ∧ h.mem.bit (s + 48) i = true ∧
      ((free h o.addr = some (h, (h.caches h.cacheRoot).objectSize) ∧
        ¬ IsHead h h.cacheRoot s) ∨
      (IsHead h h.cacheRoot s ∧ (h.slabs s).parent = h.cacheRoot ∧
        free h o.addr = some (clearSlot h s i,
          if (h.caches h.cacheRoot).next = 0 then 0
          else (h.caches (h.caches h.cacheRoot).next).objectSize))) := by
  obtain ⟨s, hs, i, hslot, hbit⟩ := hinv.slots o ho
  have hl := hinv.layout
  have hok := hl.slab s hs
  obtain ⟨hin, hindex⟩ := hslot.inBuffer hl hs
  have haddr : o.addr ≠ 0 := by
    have := hin.1
    have := hok.low
    omega
  refine ⟨s, hs, i, hslot, hbit, ?_⟩
  cases hcs : cs with
  | nil =>
    have hpar := hok.parent
    rw [hcs] at hpar
    cases hpar
  | cons c rest =>
    have hinv' : HeapInv h ss (c :: rest) live := hcs ▸ hinv
    obtain ⟨hroot, -, hnext⟩ := hinv'.layout.chain
    rw [hroot]
    rcases free_spec hinv' haddr with ⟨hfree, hnot⟩ | ⟨t, hhead, htin, hfree⟩
    · exact Or.inl ⟨hfree, fun hhead => hnot s hhead hin⟩
    · obtain ⟨ht, hpar⟩ := hinv'.head_mem List.mem_cons_self hhead
      obtain rfl : s = t := hl.inBuffer_unique hs ht hin htin
      refine Or.inr ⟨hhead, hpar, ?_⟩
      rw [hfree, hindex]
      cases rest with
      | nil =>
        have hend : (h.caches c).next = 0 := hnext
        rw [if_pos hend]
        rfl
      | cons d rest =>
        have hd : (h.caches c).next = d := hnext.1
        rw [hd, if_neg hnext.2.1]
        rfl

/-- The heap without the object `o` satisfies the invariant, whether or not its bit is cleared. -/
theorem HeapInv.release (hinv : HeapInv h ss cs live) {o : Object} {i : ℕ} (hs : s ∈ ss)
    (hslot : IsSlot h o s i) {h' : Heap} (hh' : h' = h ∨ h' = clearSlot h s i) :
    HeapInv h' ss cs (live.filter (·.addr ≠ o.addr)) := by
  have hsub : (live.filter (·.addr ≠ o.addr)).Sublist live := List.filter_sublist
  rcases hh' with rfl | rfl
  · exact hinv.sublist hsub
  · refine (hinv.sublist hsub).clear hs hslot.1 ?_
    intro p hp hpslot
    apply of_decide_eq_true (List.mem_filter.mp hp).2
    rw [hpslot.2.2, hslot.2.2, hpslot.2.1, hslot.2.1]

end Free

end CrepOS.Analysis
