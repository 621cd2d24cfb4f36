import CrepOS.Analysis.SlabLayout

/-!
# The invariant of the kernel heap

`kmm::free` clears a bit and does not count the object as available, so the counter of a slab and its
bitmap drift apart. What stays true is that at least `available_objects` bits are clear
(`HeapInv.bits`), which is enough for `slab::alloc` to find one. A slab is on the list that its counter
says: the list of the empty slabs and the list of the partial slabs have at most one member, the list
of the full slabs is a chain (`Lists`). Every live object is a slot of a slab whose bit is set, and no
two are the same slot (`HeapInv.slots`, `HeapInv.distinct`).
-/

set_option autoImplicit false

namespace CrepOS.Analysis

open CrepOS.Library CrepOS.Model CrepOS.Interface

/-! ## Bitmaps -/

/-- The indices of the objects of the slab `s` whose bits are set. -/
def setBits (m : Memory) (s : ℕ) : Finset ℕ :=
  (Finset.range 256).filter fun i => m.bit (s + 48) i = true

theorem mem_setBits {m : Memory} {s i : ℕ} :
    i ∈ setBits m s ↔ i < 256 ∧ m.bit (s + 48) i = true := by
  rw [setBits, Finset.mem_filter, Finset.mem_range]

theorem setBits_mono {m m' : Memory} {s : ℕ}
    (h : ∀ i < 256, m'.bit (s + 48) i = true → m.bit (s + 48) i = true) :
    setBits m' s ⊆ setBits m s := by
  intro i hi
  obtain ⟨hlt, hbit⟩ := mem_setBits.mp hi
  exact mem_setBits.mpr ⟨hlt, h i hlt hbit⟩

theorem setBits_setBit (m : Memory) (s i : ℕ) :
    setBits (m.setBit (s + 48) i) s ⊆ insert i (setBits m s) := by
  intro j hj
  obtain ⟨hlt, hbit⟩ := mem_setBits.mp hj
  rw [Memory.bit_setBit, Bool.or_eq_true, decide_eq_true_eq] at hbit
  rcases hbit with rfl | hbit
  · exact Finset.mem_insert_self j _
  · exact Finset.mem_insert_of_mem (mem_setBits.mpr ⟨hlt, hbit⟩)

theorem exists_clear_bit {m : Memory} {s : ℕ} (h : (setBits m s).card < 256) :
    ∃ i < 256, m.bit (s + 48) i = false := by
  by_contra hall
  push Not at hall
  have hsub : Finset.range 256 ⊆ setBits m s := by
    intro i hi
    have hlt := Finset.mem_range.mp hi
    exact mem_setBits.mpr ⟨hlt, Bool.eq_true_of_not_eq_false (hall i hlt)⟩
  have hcard := Finset.card_le_card hsub
  rw [Finset.card_range] at hcard
  omega

/-- The loop of `slab::alloc` finds the first clear bit.
SRCLINE: kernel/mm/slab.cpp:132-139 -/
theorem firstClear_of_clear {m : Memory} {b : ℕ} {n i : ℕ}
    (h : ∃ j, i ≤ j ∧ j < i + n ∧ m.bit b j = false) :
    ∃ j, firstClear m b n i = some j ∧ i ≤ j ∧ j < i + n ∧ m.bit b j = false ∧
      ∀ k, i ≤ k → k < j → m.bit b k = true := by
  induction n generalizing i with
  | zero =>
    obtain ⟨j, hij, hj, -⟩ := h
    omega
  | succ n ih =>
    rw [firstClear, bmTest_eq]
    cases hbit : m.bit b i with
    | false =>
      refine ⟨i, if_neg (by simp), le_rfl, by omega, hbit, ?_⟩
      intro k hik hki
      omega
    | true =>
      obtain ⟨j, hij, hj, hclear⟩ := h
      have hne : j ≠ i := by
        rintro rfl
        rw [hbit] at hclear
        cases hclear
      obtain ⟨l, hl, hil, hln, hlbit, hlow⟩ := ih (i := i + 1) ⟨j, by omega, by omega, hclear⟩
      refine ⟨l, by rw [if_pos rfl, hl], by omega, by omega, hlbit, ?_⟩
      intro k hik hkl
      by_cases hk : k = i
      · rw [hk]
        exact hbit
      · exact hlow k (by omega) hkl

/-! ## Lists -/

/-- The slab `s` of the cache `c` is linked to no other. -/
def Alone (h : Heap) (ss : List ℕ) (c s : ℕ) : Prop :=
  s ∈ ss ∧ (h.slabs s).parent = c ∧ (h.slabs s).next = 0 ∧ (h.slabs s).last = 0

/-- The lists of the cache `c`. -/
structure Lists (h : Heap) (ss : List ℕ) (c : ℕ) : Prop where
  empty : (h.caches c).slabEmpty = 0 ∨ Alone h ss c (h.caches c).slabEmpty ∧
    (h.slabs (h.caches c).slabEmpty).availableObjects = 256
  partly : (h.caches c).slabPartial = 0 ∨ Alone h ss c (h.caches c).slabPartial ∧
    1 ≤ (h.slabs (h.caches c).slabPartial).availableObjects ∧
    (h.slabs (h.caches c).slabPartial).availableObjects ≤ 255
  full : ∃ l, Chain 0 (fun s => (h.slabs s).next) (h.caches c).slabFull l ∧ l.Nodup ∧
    ∀ s ∈ l, s ∈ ss ∧ (h.slabs s).parent = c ∧ (h.slabs s).availableObjects = 0

/-- The lists of a cache depend on the heads and on the slabs of that cache only. -/
theorem Lists.congr {h h' : Heap} {ss ss' : List ℕ} {c : ℕ} (hl : Lists h ss c)
    (hsub : ∀ s ∈ ss, s ∈ ss') (he : (h'.caches c).slabEmpty = (h.caches c).slabEmpty)
    (hp : (h'.caches c).slabPartial = (h.caches c).slabPartial)
    (hf : (h'.caches c).slabFull = (h.caches c).slabFull)
    (hs : ∀ s ∈ ss, (h.slabs s).parent = c → h'.slabs s = h.slabs s) : Lists h' ss' c := by
  have halone : ∀ s, Alone h ss c s → Alone h' ss' c s ∧ h'.slabs s = h.slabs s := by
    rintro s ⟨hin, hpar, hrest⟩
    have heq := hs s hin hpar
    refine ⟨?_, heq⟩
    rw [Alone, heq]
    exact ⟨hsub s hin, hpar, hrest⟩
  refine ⟨?_, ?_, ?_⟩
  · rw [he]
    refine hl.empty.imp_right ?_
    rintro ⟨ha, hav⟩
    obtain ⟨ha', heq⟩ := halone _ ha
    rw [heq]
    exact ⟨ha', hav⟩
  · rw [hp]
    refine hl.partly.imp_right ?_
    rintro ⟨ha, hav⟩
    obtain ⟨ha', heq⟩ := halone _ ha
    rw [heq]
    exact ⟨ha', hav⟩
  · obtain ⟨l, hchain, hnodup, hall⟩ := hl.full
    refine ⟨l, ?_, hnodup, ?_⟩
    · rw [hf]
      refine hchain.congr ?_
      intro s hin
      rw [hs s (hall s hin).1 (hall s hin).2.1]
    · intro s hin
      obtain ⟨hmem, hpar, hav⟩ := hall s hin
      rw [hs s hmem hpar]
      exact ⟨hsub s hmem, hpar, hav⟩

/-- The full slabs of the cache `c` are linked back, and every slab of the cache is on a list. -/
def Linked (h : Heap) (ss : List ℕ) (c : ℕ) : Prop :=
  ∃ l, Chain 0 (fun s => (h.slabs s).next) (h.caches c).slabFull l ∧
    Backed (fun s => (h.slabs s).last) 0 l ∧
    ∀ s ∈ ss, (h.slabs s).parent = c →
      s = (h.caches c).slabEmpty ∨ s = (h.caches c).slabPartial ∨ s ∈ l

/-- Writes to slabs that keep their links keep a cache linked. -/
theorem linked_congr {h h' : Heap} {ss : List ℕ} {c : ℕ} (hl : Linked h ss c)
    (he : (h'.caches c).slabEmpty = (h.caches c).slabEmpty)
    (hp : (h'.caches c).slabPartial = (h.caches c).slabPartial)
    (hf : (h'.caches c).slabFull = (h.caches c).slabFull)
    (hlinks : ∀ s, (h.slabs s).parent = c → (h'.slabs s).next = (h.slabs s).next ∧
      (h'.slabs s).last = (h.slabs s).last)
    (hmembers : ∀ l, Chain 0 (fun s => (h.slabs s).next) (h.caches c).slabFull l →
      ∀ s ∈ l, (h.slabs s).parent = c)
    (hparent : ∀ s ∈ ss, (h'.slabs s).parent = (h.slabs s).parent) : Linked h' ss c := by
  obtain ⟨l, hchain, hback, hcover⟩ := hl
  have hmine := hmembers l hchain
  refine ⟨l, ?_, backed_congr hback fun s hs => (hlinks s (hmine s hs)).2, ?_⟩
  · rw [hf]
    exact hchain.congr fun s hs => (hlinks s (hmine s hs)).1
  · intro s hs hpar
    rw [hparent s hs] at hpar
    rw [he, hp]
    exact hcover s hs hpar

/-! ## The invariant -/

/-- The object `o` is slot `i` of the slab `s`. -/
def IsSlot (h : Heap) (o : Object) (s i : ℕ) : Prop :=
  i < 256 ∧ o.size = (h.caches (h.slabs s).parent).objectSize ∧
    o.addr = (h.slabs s).buf + i * o.size

/-- The invariant of the heap `h` with the slabs `ss`, the caches `cs` and the live objects. -/
structure HeapInv (h : Heap) (ss cs : List ℕ) (live : List Object) : Prop where
  layout : Layout h ss cs
  lists : ∀ c ∈ cs, Lists h ss c
  bits : ∀ s ∈ ss, (setBits h.mem s).card + (h.slabs s).availableObjects ≤ 256
  slots : ∀ o ∈ live, ∃ s ∈ ss, ∃ i, IsSlot h o s i ∧ h.mem.bit (s + 48) i = true
  distinct : live.Pairwise fun o p => o.addr ≠ p.addr

section Slots

variable {h h' : Heap} {ss cs : List ℕ} {o p : Object} {s t i j : ℕ}

theorem IsSlot.congr (hslot : IsSlot h o s i) (hs : s ∈ ss) (hok : SlabOk h cs s)
    (hsame : SameGeometry ss cs h h') : IsSlot h' o s i := by
  obtain ⟨hpar, hbuf, -⟩ := hsame.slab s hs
  rw [IsSlot, hpar, hbuf, (hsame.cache _ hok.parent).1]
  exact hslot

/-- A slot lies in the buffer of its slab. -/
theorem IsSlot.bounds (hslot : IsSlot h o s i) (hok : SlabOk h cs s) :
    (h.slabs s).buf ≤ o.addr ∧ o.addr + o.size ≤ (h.slabs s).buf + o.size * 256 ∧
      o.addr + o.size ≤ s + slabBytes h s := by
  obtain ⟨hi, hsize, haddr⟩ := hslot
  have hfits := hok.fits
  rw [← hsize] at hfits
  have hmul : (i + 1) * o.size ≤ o.size * 256 := by
    rw [Nat.mul_comm o.size]
    exact Nat.mul_le_mul_right _ hi
  rw [Nat.add_mul, Nat.one_mul] at hmul
  omega

theorem IsSlot.size_pos (hslot : IsSlot h o s i) (hl : Layout h ss cs) (hs : s ∈ ss) :
    0 < o.size := by
  rw [hslot.2.1]
  exact (hl.sizes _ (hl.slab s hs).parent).1

/-- Two slots that share a byte are the same slot. -/
theorem IsSlot.unique (hl : Layout h ss cs) (hs : s ∈ ss) (ht : t ∈ ss) (ho : IsSlot h o s i)
    (hp : IsSlot h p t j) (hle : p.addr < o.addr + o.size) (hle' : o.addr < p.addr + p.size) :
    s = t ∧ i = j := by
  have hst : s = t := by
    by_contra hne
    have hos := ho.bounds (hl.slab s hs)
    have hpt := hp.bounds (hl.slab t ht)
    have hlow := (hl.slab s hs).low
    have hlow' := (hl.slab t ht).low
    rcases hl.apart s hs t ht hne with hap | hap <;> omega
  subst hst
  refine ⟨rfl, ?_⟩
  obtain ⟨-, hosize, hoaddr⟩ := ho
  obtain ⟨-, hpsize, hpaddr⟩ := hp
  rw [hpsize, ← hosize] at hpaddr hle'
  rw [hoaddr, hpaddr] at hle hle'
  by_contra hne
  rcases Nat.lt_or_gt_of_ne hne with hlt | hlt
  · have hmul := Nat.mul_le_mul_right o.size (show i + 1 ≤ j from hlt)
    rw [Nat.add_mul, Nat.one_mul] at hmul
    omega
  · have hmul := Nat.mul_le_mul_right o.size (show j + 1 ≤ i from hlt)
    rw [Nat.add_mul, Nat.one_mul] at hmul
    omega

/-- A write to the bitmap of one slab keeps the bits of the others. -/
theorem Layout.bit_other (hl : Layout h ss cs) (hs : s ∈ ss) (ht : t ∈ ss) (hne : t ≠ s)
    {m m' : Memory} (hm : ∀ a, a < s + 48 ∨ s + 80 ≤ a → m' a = m a) (hj : j < 256) :
    m'.bit (t + 48) j = m.bit (t + 48) j := by
  apply Memory.bit_congr
  apply hm
  have hs' := hl.slab s hs
  have ht' := hl.slab t ht
  have hslow := hs'.low
  have htlow := ht'.low
  have hsfits := hs'.fits
  have htfits := ht'.fits
  rcases hl.apart t ht s hs hne with hap | hap <;> omega

end Slots

/-! ## What keeps the invariant -/

/-- What an allocation of slot `i` of the slab `s` does, but for the lists of the caches. -/
structure SlotTaken (h h' : Heap) (ss cs : List ℕ) (s i : ℕ) : Prop where
  slab : s ∈ ss
  index : i < 256
  clear : h.mem.bit (s + 48) i = false
  lower : ∀ k < i, h.mem.bit (s + 48) k = true
  same : SameGeometry ss cs h h'
  next : ∀ c ∈ cs, (h'.caches c).next = (h.caches c).next
  root : h'.cacheRoot = h.cacheRoot
  slabCnt : h'.slabCnt = h.slabCnt
  cacheCnt : h'.cacheCnt = h.cacheCnt
  mem : h'.mem = h.mem.setBit (s + 48) i
  available : (h'.slabs s).availableObjects + 1 = (h.slabs s).availableObjects
  others : ∀ t ∈ ss, t ≠ s → (h'.slabs t).availableObjects = (h.slabs t).availableObjects

section Preservation

variable {h h' : Heap} {ss cs : List ℕ} {live : List Object} {o : Object} {s i : ℕ}

theorem setBit_outside (m : Memory) {s i : ℕ} (hi : i < 256) :
    ∀ a, a < s + 48 ∨ s + 80 ≤ a → m.setBit (s + 48) i a = m a := by
  intro a ha
  exact Memory.setBit_apply_of_ne m (by omega)

theorem clearBit_outside (m : Memory) {s i : ℕ} (hi : i < 256) :
    ∀ a, a < s + 48 ∨ s + 80 ≤ a → m.clearBit (s + 48) i a = m a := by
  intro a ha
  exact Memory.clearBit_apply_of_ne m (by omega)

/-- An allocation makes the slot live. -/
theorem HeapInv.take (hinv : HeapInv h ss cs live) (ht : SlotTaken h h' ss cs s i)
    (hlists : ∀ c ∈ cs, Lists h' ss c) (ho : IsSlot h o s i) : HeapInv h' ss cs (o :: live) := by
  have hl := hinv.layout
  have hset : ∀ t ∈ ss, ∀ j < 256, h.mem.bit (t + 48) j = true → h'.mem.bit (t + 48) j = true := by
    intro t hts j hj hbit
    rw [ht.mem]
    by_cases hts' : t = s
    · rw [hts', Memory.bit_setBit, ← hts', hbit, Bool.or_true]
    · rw [hl.bit_other ht.slab hts hts' (setBit_outside h.mem ht.index) hj]
      exact hbit
  refine ⟨hl.congr ht.same ht.next ht.root ht.slabCnt ht.cacheCnt, hlists, ?_, ?_, ?_⟩
  · intro t hts
    have hold := hinv.bits t hts
    by_cases hts' : t = s
    · subst hts'
      have hcard := Finset.card_le_card (setBits_setBit h.mem t i)
      have hins := Finset.card_insert_le i (setBits h.mem t)
      have hav := ht.available
      rw [ht.mem]
      omega
    · rw [ht.others t hts hts']
      have hsub : setBits h'.mem t ⊆ setBits h.mem t := by
        apply setBits_mono
        intro j hj hbit
        rw [ht.mem, hl.bit_other ht.slab hts hts' (setBit_outside h.mem ht.index) hj] at hbit
        exact hbit
      have hcard := Finset.card_le_card hsub
      omega
  · intro p hp
    rcases List.mem_cons.mp hp with rfl | hp
    · refine ⟨s, ht.slab, i, ho.congr ht.slab (hl.slab s ht.slab) ht.same, ?_⟩
      rw [ht.mem, Memory.bit_setBit, decide_eq_true rfl, Bool.true_or]
    · obtain ⟨t, hts, j, hslot, hbit⟩ := hinv.slots p hp
      exact ⟨t, hts, j, hslot.congr hts (hl.slab t hts) ht.same, hset t hts j hslot.1 hbit⟩
  · refine List.pairwise_cons.mpr ⟨?_, hinv.distinct⟩
    intro p hp heq
    obtain ⟨t, hts, j, hslot, hbit⟩ := hinv.slots p hp
    have hopos := ho.size_pos hl ht.slab
    have hppos := hslot.size_pos hl hts
    obtain ⟨rfl, rfl⟩ := ho.unique hl ht.slab hts hslot (by omega) (by omega)
    rw [ht.clear] at hbit
    cases hbit

/-- INTERNAL: the bits of all slabs after one bit has been cleared. -/
theorem Layout.bit_clearBit (hl : Layout h ss cs) (hs : s ∈ ss) (hi : i < 256) {t j : ℕ}
    (ht : t ∈ ss) (hj : j < 256) : (h.mem.clearBit (s + 48) i).bit (t + 48) j =
      (decide (¬ (t = s ∧ j = i)) && h.mem.bit (t + 48) j) := by
  by_cases hts : t = s
  · subst hts
    rw [Memory.bit_clearBit]
    simp
  · rw [hl.bit_other hs ht hts (clearBit_outside h.mem hi) hj]
    simp [hts]

/-- A cleared bit that is not the bit of a live object keeps the invariant. -/
theorem HeapInv.clear (hinv : HeapInv h ss cs live) (hs : s ∈ ss) (hi : i < 256)
    (hfree : ∀ o ∈ live, ¬ IsSlot h o s i) :
    HeapInv { h with mem := h.mem.clearBit (s + 48) i } ss cs live := by
  have hl := hinv.layout
  have hsame : SameGeometry ss cs h { h with mem := h.mem.clearBit (s + 48) i } :=
    ⟨fun _ _ => ⟨rfl, rfl, rfl⟩, fun _ _ => ⟨rfl, rfl⟩⟩
  refine ⟨hl.congr hsame (fun _ _ => rfl) rfl rfl rfl, ?_, ?_, ?_, hinv.distinct⟩
  · intro c hc
    exact (hinv.lists c hc).congr (fun _ ht => ht) rfl rfl rfl fun _ _ _ => rfl
  · intro t hts
    have hsub : setBits (h.mem.clearBit (s + 48) i) t ⊆ setBits h.mem t := by
      apply setBits_mono
      intro j hj hbit
      rw [hl.bit_clearBit hs hi hts hj, Bool.and_eq_true] at hbit
      exact hbit.2
    have hcard := Finset.card_le_card hsub
    have hold := hinv.bits t hts
    change (setBits (h.mem.clearBit (s + 48) i) t).card + (h.slabs t).availableObjects ≤ 256
    omega
  · intro o ho
    obtain ⟨t, hts, j, hslot, hbit⟩ := hinv.slots o ho
    refine ⟨t, hts, j, hslot, ?_⟩
    change (h.mem.clearBit (s + 48) i).bit (t + 48) j = true
    have hne : ¬ (t = s ∧ j = i) := by
      rintro ⟨rfl, rfl⟩
      exact hfree o ho hslot
    rw [hl.bit_clearBit hs hi hts hslot.1, decide_eq_true hne, Bool.true_and]
    exact hbit

theorem HeapInv.sublist {live' : List Object} (hinv : HeapInv h ss cs live)
    (hsub : live'.Sublist live) : HeapInv h ss cs live' :=
  ⟨hinv.layout, hinv.lists, hinv.bits, fun o ho => hinv.slots o (hsub.subset ho),
    hinv.distinct.sublist hsub⟩

/-- INTERNAL: the bytes of a slot are bytes of no bitmap. -/
theorem IsSlot.not_bitmap {t a : ℕ} (hl : Layout h ss cs) (hs : s ∈ ss) (hslot : IsSlot h o s i)
    (hlow : o.addr ≤ a) (hhigh : a < o.addr + o.size) (ht : t ∈ ss) : a < t + 48 ∨ t + 80 ≤ a := by
  have hbounds := hslot.bounds (hl.slab s hs)
  have hslow := (hl.slab s hs).low
  by_cases hst : t = s
  · subst hst
    omega
  · have htlow := (hl.slab t ht).low
    have htfits := (hl.slab t ht).fits
    rcases hl.apart t ht s hs hst with hap | hap <;> omega

/-- The invariant depends on the bits of the memory only. -/
theorem HeapInv.withMem (hinv : HeapInv h ss cs live) {m : Memory}
    (hm : ∀ s ∈ ss, ∀ i < 256, m.bit (s + 48) i = h.mem.bit (s + 48) i) :
    HeapInv { h with mem := m } ss cs live := by
  have hsame : SameGeometry ss cs h { h with mem := m } :=
    ⟨fun _ _ => ⟨rfl, rfl, rfl⟩, fun _ _ => ⟨rfl, rfl⟩⟩
  refine ⟨hinv.layout.congr hsame (fun _ _ => rfl) rfl rfl rfl, ?_, ?_, ?_, hinv.distinct⟩
  · intro c hc
    exact (hinv.lists c hc).congr (fun _ ht => ht) rfl rfl rfl fun _ _ _ => rfl
  · intro s hs
    have hsub : setBits m s ⊆ setBits h.mem s := by
      apply setBits_mono
      intro j hj hbit
      rw [← hm s hs j hj]
      exact hbit
    have hcard := Finset.card_le_card hsub
    have hold := hinv.bits s hs
    change (setBits m s).card + (h.slabs s).availableObjects ≤ 256
    omega
  · intro o ho
    obtain ⟨s, hs, i, hslot, hbit⟩ := hinv.slots o ho
    exact ⟨s, hs, i, hslot, (hm s hs i hslot.1).trans hbit⟩

/-- INTERNAL: a live object is known by its address. -/
theorem HeapInv.eq_of_addr (hinv : HeapInv h ss cs live) {p : Object} (ho : o ∈ live)
    (hp : p ∈ live) (heq : p.addr = o.addr) : p = o := by
  obtain ⟨s, hs, i, hoslot, -⟩ := hinv.slots o ho
  obtain ⟨t, ht, j, hpslot, -⟩ := hinv.slots p hp
  have hopos := hoslot.size_pos hinv.layout hs
  have hppos := hpslot.size_pos hinv.layout ht
  obtain ⟨rfl, rfl⟩ := hoslot.unique hinv.layout hs ht hpslot (by omega) (by omega)
  have hsize : p.size = o.size := hpslot.2.1.trans hoslot.2.1.symm
  cases o
  cases p
  simp_all

/-- Live objects share no byte. -/
theorem HeapInv.apart (hinv : HeapInv h ss cs live) : live.Pairwise Object.Apart := by
  refine hinv.distinct.imp_of_mem ?_
  intro o p ho hp hne
  by_contra hnot
  unfold Object.Apart at hnot
  push Not at hnot
  obtain ⟨s, hs, i, hoslot, -⟩ := hinv.slots o ho
  obtain ⟨t, ht, j, hpslot, -⟩ := hinv.slots p hp
  obtain ⟨rfl, rfl⟩ := hoslot.unique hinv.layout hs ht hpslot hnot.1 hnot.2
  apply hne
  rw [hoslot.2.2, hpslot.2.2, hoslot.2.1, hpslot.2.1]

end Preservation

end CrepOS.Analysis
