import CrepOS.Analysis.DirectMap
import CrepOS.Analysis.PmmManaged

/-!
# Which pages the direct map covers

`vmm::init` maps as many 2 MiB pages at `high_vma` as the sum of the lengths of the memory map gives,
from physical address 0 on. The allocator hands out pages at the addresses of the map, which reach
further when the map has holes, or starts high. Two other things stand in the way of a page: the
window at `kernel_high_vma`, which is mapped first, and with 4 levels the 48 bits of an address.
`DirectCovers` puts the three together, and `translate_direct_iff` shows that it is exact.
-/

set_option autoImplicit false

namespace CrepOS.Analysis

open CrepOS.Library CrepOS.Model CrepOS.Interface

/-- The sum of the lengths of the memory map. -/
def memorySize (mmap : List StivaleMmap) : ℕ := (mmap.map fun e => e.len).sum % 2 ^ 64

/-- **The condition on a page.** It lies in one of the whole 2 MiB pages that the memory size gives; with 4
levels it has at most 48 bits; and `high_vma` plus its address is not in the 1 GiB at
`kernel_high_vma`. -/
def DirectCovers (p : Paging) (size a : ℕ) : Prop :=
  a < size / 0x200000 * 0x200000 ∧ (p = .pml4 → a < 2 ^ 48) ∧
    ¬ (2 ^ 47 - 2 ^ 31 ≤ a ∧ a < 2 ^ 47 - 2 ^ 30)

theorem totalMem_eq (mmap : List StivaleMmap) : totalMem mmap = memorySize mmap := by
  have hfold : ∀ (mmap : List StivaleMmap) (total : ℕ),
      mmap.foldl (fun total e => wrap (total + e.len)) (wrap total) =
        (total + (mmap.map fun e => e.len).sum) % 2 ^ 64 := by
    intro mmap
    induction mmap with
    | nil =>
      intro total
      rfl
    | cons e mmap ih =>
      intro total
      have hwrap : wrap (wrap total + e.len) = wrap (total + e.len) := by
        unfold wrap
        omega
      rw [List.foldl_cons, hwrap, ih, List.map_cons, List.sum_cons, Nat.add_assoc]
  have h := hfold mmap 0
  rw [Nat.zero_add] at h
  exact h

/-! ## The key of a 2 MiB page -/

/-- The bits of an address that choose its 2 MiB page. -/
def hugeKey (p : Paging) (v : Word) : ℕ := v.toNat / 2 ^ 21 % 2 ^ (9 * (p.levels - 1))

section Keys

variable {p : Paging} {v w vma phys : Word} {idx : ℕ → Index} {a k n : ℕ}

theorem toNat_walkIndex (v : Word) (k : ℕ) :
    (walkIndex v k).toNat = v.toNat / 2 ^ (12 + 9 * k) % 2 ^ 9 := by
  rw [walkIndex, BitVec.extractLsb'_toNat, Nat.shiftRight_eq_div_pow]

theorem agrees_walkIndex_iff : Agrees p (walkIndex v) w ↔ hugeKey p v = hugeKey p w := by
  have hindex : ∀ k, walkIndex v k = walkIndex w k ↔
      v.toNat / 2 ^ (12 + 9 * k) % 2 ^ 9 = w.toNat / 2 ^ (12 + 9 * k) % 2 ^ 9 := by
    intro k
    rw [← toNat_walkIndex, ← toNat_walkIndex]
    exact BitVec.toNat_inj.symm
  have h1 := hindex 1
  have h2 := hindex 2
  have h3 := hindex 3
  have h4 := hindex 4
  simp only [Nat.reduceMul, Nat.reduceAdd] at h1 h2 h3 h4
  cases p with
  | pml4 =>
    constructor
    · intro h
      have e1 := h1.mp (h 1 (by decide) (by decide))
      have e2 := h2.mp (h 2 (by decide) (by decide))
      have e3 := h3.mp (h 3 (by decide) (by decide))
      simp only [hugeKey, Paging.levels]
      omega
    · intro h k hk hk1
      simp only [hugeKey, Paging.levels] at h hk
      obtain rfl | rfl | rfl : k = 1 ∨ k = 2 ∨ k = 3 := by omega
      · exact h1.mpr (by omega)
      · exact h2.mpr (by omega)
      · exact h3.mpr (by omega)
  | pml5 =>
    constructor
    · intro h
      have e1 := h1.mp (h 1 (by decide) (by decide))
      have e2 := h2.mp (h 2 (by decide) (by decide))
      have e3 := h3.mp (h 3 (by decide) (by decide))
      have e4 := h4.mp (h 4 (by decide) (by decide))
      simp only [hugeKey, Paging.levels]
      omega
    · intro h k hk hk1
      simp only [hugeKey, Paging.levels] at h hk
      obtain rfl | rfl | rfl | rfl : k = 1 ∨ k = 2 ∨ k = 3 ∨ k = 4 := by omega
      · exact h1.mpr (by omega)
      · exact h2.mpr (by omega)
      · exact h3.mpr (by omega)
      · exact h4.mpr (by omega)

/-- INTERNAL: page `k` of a loop of `vmm::init`, as a number. -/
theorem toNat_directPhys (hk : k < 2 ^ 43) : (directPhys 0 k).toNat = k * 0x200000 := by
  have hzero : directPhys 0 k = BitVec.ofNat 64 k * 0x200000 := BitVec.zero_add _
  rw [hzero, BitVec.toNat_mul, BitVec.toNat_ofNat]
  show k % 2 ^ 64 * 0x200000 % 2 ^ 64 = k * 0x200000
  omega

/-- The keys of the three ranges: the 2 MiB pages of the kernel, those of the direct map, and the page of
an address in the direct map. -/
theorem hugeKey_kernel (hk : k < 2 ^ 43) :
    hugeKey p (directPhys 0 k + kernelHighVma) = (k + (2 ^ 43 - 2 ^ 10)) % 2 ^ (9 * (p.levels - 1)) := by
  have hvma : kernelHighVma.toNat = 2 ^ 64 - 2 ^ 31 := rfl
  rw [hugeKey, BitVec.toNat_add, toNat_directPhys hk, hvma]
  cases p with
  | pml4 =>
    simp only [Paging.levels]
    omega
  | pml5 =>
    simp only [Paging.levels]
    omega

theorem hugeKey_direct (hk : k < 2 ^ 43) :
    hugeKey p (directPhys 0 k + highVma) = (k + (2 ^ 43 - 2 ^ 26)) % 2 ^ (9 * (p.levels - 1)) := by
  have hvma : highVma.toNat = 2 ^ 64 - 2 ^ 47 := rfl
  rw [hugeKey, BitVec.toNat_add, toNat_directPhys hk, hvma]
  cases p with
  | pml4 =>
    simp only [Paging.levels]
    omega
  | pml5 =>
    simp only [Paging.levels]
    omega

theorem toNat_high (ha : a < 2 ^ 64) :
    (highVma + BitVec.ofNat 64 a).toNat = (2 ^ 64 - 2 ^ 47 + a) % 2 ^ 64 := by
  rw [BitVec.toNat_add, BitVec.toNat_ofNat, Nat.mod_eq_of_lt ha]
  rfl

theorem hugeKey_high (ha : a < 2 ^ 64) : hugeKey p (highVma + BitVec.ofNat 64 a) =
    (a / 0x200000 + (2 ^ 43 - 2 ^ 26)) % 2 ^ (9 * (p.levels - 1)) := by
  rw [hugeKey, toNat_high ha]
  cases p with
  | pml4 =>
    simp only [Paging.levels]
    omega
  | pml5 =>
    simp only [Paging.levels]
    omega

end Keys

/-! ## The translation of a page -/

section Translation

variable {p : Paging} {root : Word} {found : (ℕ → Index) → Option Word} {height : Word → ℕ} {s : Vm}
  {a k size : ℕ}

/-- INTERNAL: the address of a 2 MiB page below 2 ^ 52. -/
theorem pageAligned_directPhys (hk : k < 2 ^ 31) : PageAligned 1 (directPhys 0 k) := by
  have hnat := toNat_directPhys (k := k) (by omega)
  refine ⟨by omega, ?_⟩
  apply BitVec.eq_of_toNat_eq
  rw [BitVec.toNat_and, pageMask, BitVec.toNat_ofNat, Nat.mod_eq_of_lt (by omega),
    Nat.and_two_pow_sub_one_eq_mod, hnat]
  exact Nat.mul_mod_left k 0x200000

/-- What a mapped page translates to. -/
theorem HugeMap.translate_some (h : HugeMap p root found height s) (ha : a < 2 ^ 64)
    (hk : k < 2 ^ 31)
    (hfound : found (walkIndex (highVma + BitVec.ofNat 64 a)) = some (directEntry (directPhys 0 k))) :
    Interface.translate p s.mem root (highVma + BitVec.ofNat 64 a) =
      some (BitVec.ofNat 64 (k * 0x200000 + a % 0x200000)) := by
  have halign := pageAligned_directPhys hk
  have hslot := h.slots (walkIndex (highVma + BitVec.ofNat 64 a))
  rw [hfound] at hslot
  have hwalk : walk p s.mem root (highVma + BitVec.ofNat 64 a) =
      some (.page 1 (directEntry (directPhys 0 k))) := walk_of_hugeStep h.tree hslot nofun
  have hentry : leafEntry patHuge (directPhys 0 k) 0x187 (-1) = directEntry (directPhys 0 k) :=
    if_pos rfl
  have hbase : pageBase 1 (directEntry (directPhys 0 k)) = directPhys 0 k := by
    rw [← hentry]
    exact (walkStep_huge (-1) halign (by decide) (by decide)).2
  rw [Interface.translate, hwalk]
  simp only
  rw [hbase, pageAligned_or_eq_add halign]
  congr 1
  apply BitVec.eq_of_toNat_eq
  rw [BitVec.toNat_add, BitVec.toNat_and, pageMask, BitVec.toNat_ofNat, BitVec.toNat_ofNat,
    toNat_high ha, toNat_directPhys (by omega), Nat.mod_eq_of_lt (by omega : 2 ^ (12 + 9 * 1) - 1 < 2 ^ 64),
    Nat.and_two_pow_sub_one_eq_mod]
  omega

theorem HugeMap.translate_none (h : HugeMap p root found height s) {v : Word}
    (hfound : found (walkIndex v) = none) : Interface.translate p s.mem root v = none := by
  have hslot := h.slots (walkIndex v)
  rw [hfound] at hslot
  have hwalk : walk p s.mem root v = some .fault := walk_of_hugeStep h.tree hslot nofun
  rw [Interface.translate, hwalk]

/-- INTERNAL: equality of page addresses as numbers. -/
theorem ofNat_eq_iff (ha : a < 2 ^ 52) (hk : k < 2 ^ 31) :
    some (BitVec.ofNat 64 (k * 0x200000 + a % 0x200000)) = some (BitVec.ofNat 64 a) ↔
      k = a / 0x200000 := by
  constructor
  · intro h
    have hnat := congrArg BitVec.toNat (Option.some.inj h)
    rw [BitVec.toNat_ofNat, BitVec.toNat_ofNat] at hnat
    omega
  · rintro rfl
    rw [show a / 0x200000 * 0x200000 + a % 0x200000 = a by omega]

/-- **The direct map covers a page exactly under the condition.**
SRCLINE: kernel/mm/vmm.cpp:519-545 -/
theorem translate_direct_iff (h : HugeMap p root (initSlots p size) height s) (hsize : size < 2 ^ 64)
    (ha : a < 2 ^ 52) :
    Interface.translate p s.mem root (highVma + BitVec.ofNat 64 a) = some (BitVec.ofNat 64 a) ↔
      DirectCovers p size a := by
  have hkey := hugeKey_high (p := p) (a := a) (by omega)
  have hpages : size / 0x200000 < 2 ^ 43 := by omega
  rcases @directSlots_cases p kernelHighVma 0x200 0
    (walkIndex (highVma + BitVec.ofNat 64 a)) with ⟨hnone, hno⟩ | ⟨k, hk, hsome, hagree, -⟩
  · have hnot : ∀ k < 0x200, hugeKey p (highVma + BitVec.ofNat 64 a) ≠
        (k + (2 ^ 43 - 2 ^ 10)) % 2 ^ (9 * (p.levels - 1)) := by
      intro k hk heq
      rw [← hugeKey_kernel (by omega)] at heq
      exact hno k hk (agrees_walkIndex_iff.mpr heq)
    rw [hkey] at hnot
    rcases @directSlots_cases p highVma (size / 0x200000) 0
      (walkIndex (highVma + BitVec.ofNat 64 a)) with ⟨hnone', hno'⟩ | ⟨k, hk, hsome, hagree, hmin⟩
    · -- no page: the memory ends before
      have hfound : initSlots p size (walkIndex (highVma + BitVec.ofNat 64 a)) = none := by
        rw [initSlots, hnone, hnone', Option.none_or]
      rw [h.translate_none hfound]
      refine ⟨fun hsome => (nomatch hsome), ?_⟩
      rintro ⟨hsize, -⟩
      have hq : a / 0x200000 < size / 0x200000 := by omega
      refine absurd ?_ (hno' _ hq)
      rw [agrees_walkIndex_iff, hkey, hugeKey_direct (by omega)]
    · rw [agrees_walkIndex_iff, hkey, hugeKey_direct (by omega)] at hagree
      have hleast : ∀ j < k, (j + (2 ^ 43 - 2 ^ 26)) % 2 ^ (9 * (p.levels - 1)) ≠
          (a / 0x200000 + (2 ^ 43 - 2 ^ 26)) % 2 ^ (9 * (p.levels - 1)) := by
        intro j hj heq
        rw [← hkey, ← hugeKey_direct (p := p) (by omega)] at heq
        exact hmin j hj (agrees_walkIndex_iff.mpr heq.symm)
      have hfound : initSlots p size (walkIndex (highVma + BitVec.ofNat 64 a)) =
          some (directEntry (directPhys 0 k)) := by
        rw [initSlots, hnone, Option.none_or, hsome]
      have hsmall : k < 2 ^ 31 ∧ (k = a / 0x200000 ↔ DirectCovers p size a) := by
        unfold DirectCovers
        have hwindow := hnot (a / 0x200000 - (2 ^ 26 - 2 ^ 10))
        cases p with
        | pml4 =>
          simp only [Paging.levels, forall_const] at *
          have hlt : k < 2 ^ 27 := by
            by_contra hge
            exact hleast (k - 2 ^ 27) (by omega) (by omega)
          omega
        | pml5 =>
          simp only [Paging.levels, reduceCtorEq, false_implies, true_and] at *
          have hlt : k < 2 ^ 36 := by
            by_contra hge
            exact hleast (k - 2 ^ 36) (by omega) (by omega)
          omega
      rw [h.translate_some (by omega) hsmall.1 hfound, ofNat_eq_iff ha hsmall.1]
      exact hsmall.2
  · -- a page of the kernel lies there
    rw [agrees_walkIndex_iff, hkey, hugeKey_kernel (by omega)] at hagree
    have hfound : initSlots p size (walkIndex (highVma + BitVec.ofNat 64 a)) =
        some (directEntry (directPhys 0 k)) := by
      rw [initSlots, hsome, Option.some_or]
    rw [h.translate_some (by omega) (by omega) hfound, ofNat_eq_iff ha (by omega)]
    unfold DirectCovers
    cases p with
    | pml4 =>
      simp only [Paging.levels, forall_const] at *
      omega
    | pml5 =>
      simp only [Paging.levels, reduceCtorEq, false_implies, true_and] at *
      omega

end Translation

/-! ## The memory map -/

section MemoryMap

variable {mmap : List StivaleMmap}

/-- INTERNAL: managed pages are page addresses below 2 ^ 52. -/
theorem ManagedPage.number (hmap : StivaleOk mmap) {a : ℕ} (h : ManagedPage mmap a) :
    a < 2 ^ 52 ∧ ∃ i < 2 ^ 40, a = i * 0x1000 := by
  have hinit := pmmInit_chunks (fun _ => 0) hmap
  obtain ⟨c, hc, i, hi, rfl⟩ := (hinit.managed a).mpr h
  have hbound := hinit.chunks.bound c hc
  have haligned := hinit.chunks.aligned c hc
  simp only [pageSize] at hbound haligned ⊢
  refine ⟨by omega, (c.base + i * 4096) / 4096, by omega, by omega⟩

/-- INTERNAL: distinct managed pages serve as frames. -/
theorem freshFrames_managed (hmap : StivaleOk mmap) {vm : Vm} (hnodup : vm.free.Nodup)
    (hfree : ∀ f ∈ vm.free, ManagedPage mmap f.toNat) : FreshFrames vm := by
  refine ⟨hnodup, ?_⟩
  intro f hf
  obtain ⟨-, i, hi, hnat⟩ := (hfree f hf).number hmap
  exact pageAligned_of_toNat hnat hi

/-- INTERNAL: the translation of a managed page after `vmm::init`. -/
theorem translate_managed_iff {p : Paging} (hmap : StivaleOk mmap) {vm₀ vm : Vm} {root : Word}
    (hnodup : vm₀.free.Nodup) (hfree : ∀ f ∈ vm₀.free, ManagedPage mmap f.toNat)
    (hinit : vmmInit p vm₀ (totalMem mmap) = some (vm, root)) {a : ℕ} (ha : ManagedPage mmap a) :
    Interface.translate p vm.mem root (highVma + BitVec.ofNat 64 a) = some (BitVec.ofNat 64 a) ↔
      DirectCovers p (memorySize mmap) a := by
  obtain ⟨height, h⟩ := vmmInit_hugeMap (freshFrames_managed hmap hnodup hfree) hinit
  rw [totalMem_eq] at h
  exact translate_direct_iff h (Nat.mod_lt _ (by decide)) (ha.number hmap).1

/-- INTERNAL: a row of frames in a usable entry. -/
theorem managed_frameRow {base n : ℕ} (h : base + n ≤ 2 ^ 40) {e : StivaleMmap}
    (he : e ∈ managedEntries mmap) (htype : e.type = 1) (haddr : e.addr ≤ base * 0x1000)
    (hend : (base + n) * 0x1000 ≤ e.addr + e.len) :
    ∀ f ∈ frameRow base n, ManagedPage mmap f.toNat := by
  intro f hf
  obtain ⟨i, hi, hnat⟩ := mem_frameRow h hf
  rw [hnat]
  refine ⟨Nat.dvd_mul_left pageSize _, e, he, htype, ?_, ?_⟩
  · exact haddr.trans (Nat.mul_le_mul_right _ (Nat.le_add_right base i))
  · rw [← Nat.succ_mul]
    exact (Nat.mul_le_mul_right _ (by omega)).trans hend

/-- 64 MiB of memory from address 0 on. -/
def lowMemory : List StivaleMmap := [⟨0, 0x4000000, 1⟩]

/-- Memory below and above 4 GiB with a hole between them. -/
def holedMemory : List StivaleMmap := [⟨0x100000, 0x7ff00000, 1⟩, ⟨0x100000000, 0x80000000, 1⟩]

end MemoryMap

end CrepOS.Analysis
