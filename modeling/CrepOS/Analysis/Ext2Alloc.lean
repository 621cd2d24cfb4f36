import CrepOS.Interface.Ext2Groups
import CrepOS.Analysis.Ext2Lookup
import CrepOS.Analysis.FdIsolation

/-!
# Allocating blocks and inodes

`takeBit_eq` says what one descriptor gives: the first clear bit among the first `block_size` bits of the
bitmap, which `markUsed` sets and counts. The constructor of a descriptor divides the index by
`inodes_per_group`, so that the loop over the groups reads the descriptor `i / inodes_per_group` for the
group `i`; `allocFromGroups_cases` says where it ends. From these, `allocBlock_correct_iff` has the exact
condition for `alloc_block`.
-/

set_option autoImplicit false

namespace CrepOS.Analysis

open CrepOS.Library CrepOS.Model CrepOS.Interface

variable {g : Ext2Super} {disk : Memory} {kind kind' : BitmapKind} {D G r r' : ℕ}

/-! ## Descriptors and bitmaps are apart -/

/-- INTERNAL: the two words of a descriptor. -/
theorem descriptor_words (kind kind' : BitmapKind) :
    kind.bitmapAt + 4 ≤ kind'.countAt ∧ kind'.countAt + 2 ≤ rawBgdSize := by
  cases kind <;> cases kind' <;> decide

/-- The source finds a descriptor by the index over `inodes_per_group`.
SRCLINE: kernel/fs/ext2/block.cpp:6-9 -/
theorem bgdPos_eq (i : ℕ) : bgdPos g i = groupPos g (i / g.inodesPerGroup) := rfl

/-- INTERNAL: descriptors of different groups do not overlap. -/
theorem groupPos_apart (h : D < G) : groupPos g D + rawBgdSize ≤ groupPos g G := by
  unfold groupPos rawBgdSize
  omega

theorem groupPos_inside (h : G < g.bgdCnt) : groupPos g G + rawBgdSize ≤ groupPos g g.bgdCnt :=
  groupPos_apart h

/-- INTERNAL: a place has one block and one offset in it. -/
theorem block_offset {c p q x y : ℕ} (hx : x < c) (hy : y < c) (h : p * c + x = q * c + y) :
    p = q ∧ x = y := by
  have hp : (p * c + x) / c = p := by
    rw [Nat.mul_comm, Nat.mul_add_div (by omega), Nat.div_eq_of_lt hx, Nat.add_zero]
  have hq : (q * c + y) / c = q := by
    rw [Nat.mul_comm, Nat.mul_add_div (by omega), Nat.div_eq_of_lt hy, Nat.add_zero]
  rw [h, hq] at hp
  rw [hp] at h
  exact ⟨hp.symm, Nat.add_left_cancel h⟩

/-- INTERNAL: bitmaps at different places do not share a byte. -/
theorem bitmap_apart {x y : ℕ} (h : kind.bitmapPos g disk G ≠ kind'.bitmapPos g disk D)
    (hx : x < g.blockSize) (hy : y < g.blockSize) :
    kind.bitmapPos g disk G + x ≠ kind'.bitmapPos g disk D + y := by
  intro heq
  unfold BitmapKind.bitmapPos at h heq
  rw [(block_offset hx hy heq).1] at h
  exact h rfl

/-! ## Taking a bit -/

/-- The disk after the bit `r` of the group is set and counted. -/
def markUsed (g : Ext2Super) (disk : Memory) (kind : BitmapKind) (D r : ℕ) : Memory :=
  (disk.setBit (kind.bitmapPos g disk D) r).setWord (groupPos g D + kind.countAt) 2
    (kind.freeCount g disk D - 1)

/-- The first clear bit that a descriptor can give. -/
def groupClear (g : Ext2Super) (disk : Memory) (kind : BitmapKind) (D : ℕ) : Option ℕ :=
  findClear (kind.groupBit g disk D) 0 g.blockSize

/-- INTERNAL: a scan reads only the bits of its range. -/
theorem findClear_congr {bits bits' : ℕ → Bool} {i n : ℕ} (h : ∀ j < i + n, bits j = bits' j) :
    findClear bits i n = findClear bits' i n := by
  induction n generalizing i with
  | zero => rfl
  | succ n ih =>
    rw [findClear, findClear, h i (by omega), ih fun j hj => h j (by omega)]

theorem groupClear_some (h : groupClear g disk kind D = some r) :
    r < g.blockSize ∧ kind.groupBit g disk D r = false := by
  have hspec := (findClear_spec (kind.groupBit g disk D) 0 g.blockSize
    fun j hj => absurd hj (Nat.not_lt_zero j)).1 r h
  rw [Nat.zero_add] at hspec
  exact ⟨hspec.1, hspec.2.2⟩

theorem groupClear_eq_none_iff :
    groupClear g disk kind D = none ↔ ∀ r < g.blockSize, kind.groupBit g disk D r = true := by
  have hspec := findClear_spec (kind.groupBit g disk D) 0 g.blockSize
    fun j hj => absurd hj (Nat.not_lt_zero j)
  rw [Nat.zero_add] at hspec
  constructor
  · exact hspec.2
  · intro h
    cases hfound : groupClear g disk kind D with
    | none => rfl
    | some r =>
      obtain ⟨hr, hclear⟩ := groupClear_some hfound
      rw [h r hr] at hclear
      cases hclear

/-- INTERNAL: a group whose count is zero has no clear bit. -/
theorem full_of_freeCount (h : Ext2Image g disk) (hG : G < g.bgdCnt)
    (hzero : kind.freeCount g disk G = 0) (hr : r < 8 * g.blockSize) :
    kind.groupBit g disk G r = true := by
  have hcount := h.counted kind G hG
  rw [hzero, Nat.zero_add, Memory.countBits_eq_iff] at hcount
  by_cases hin : r < kind.perGroup g
  · exact hcount r hin
  · exact h.padding kind G r hG (Nat.le_of_not_lt hin) hr

/-- A clear bit is one of a block or inode. -/
theorem clear_lt_perGroup (h : Ext2Image g disk) (hG : G < g.bgdCnt) (hr : r < 8 * g.blockSize)
    (hclear : kind.groupBit g disk G r = false) : r < kind.perGroup g := by
  by_contra hno
  rw [h.padding kind G r hG (Nat.le_of_not_lt hno) hr] at hclear
  cases hclear

/-- **One descriptor**, if its bitmap is behind it: nothing if its count is zero, else its first clear bit
among the first `block_size`.
SRCLINE: kernel/fs/ext2/block.cpp:26-52, 54-80 -/
theorem takeBit_behind (kind : BitmapKind) {i : ℕ} (hD : i / g.inodesPerGroup = D)
    (hbehind : groupPos g D + rawBgdSize ≤ kind.bitmapPos g disk D) :
    takeBit g kind.bitmapAt kind.countAt disk i =
      if kind.freeCount g disk D = 0 then (disk, none)
      else match groupClear g disk kind D with
        | none => (disk, none)
        | some r => (markUsed g disk kind D r, some r) := by
  have hwords := descriptor_words kind kind
  have hcount : (readBgd g disk i).word kind.countAt 2 = kind.freeCount g disk D := by
    rw [readBgd, bgdPos_eq, hD, Memory.word_load hwords.2]
    rfl
  have hblock : (readBgd g disk i).word kind.bitmapAt 4 = kind.bitmapBlock g disk D := by
    rw [readBgd, bgdPos_eq, hD, Memory.word_load (by omega)]
    rfl
  have hscan : findClear (bmTest (disk.load (kind.bitmapPos g disk D) g.blockSize) 0) 0 g.blockSize =
      groupClear g disk kind D := by
    apply findClear_congr
    intro j hj
    rw [bmTest_eq, Memory.bit_load (by omega)]
    rfl
  have hpos : kind.bitmapBlock g disk D * g.blockSize = kind.bitmapPos g disk D := rfl
  simp only [takeBit, hcount, hblock, hpos, hscan]
  split
  · rfl
  · cases hfound : groupClear g disk kind D with
    | none => rfl
    | some r =>
      have hr := (groupClear_some hfound).1
      -- the descriptor is read before the bitmap is written, and is apart from it
      have hsame : disk.load (groupPos g D) rawBgdSize =
          (disk.setBit (kind.bitmapPos g disk D) r).load (groupPos g D) rawBgdSize := by
        funext x
        unfold Memory.load
        split
        · rw [Memory.setBit_apply_of_ne _ (by omega)]
        · rfl
      simp only
      rw [bmSet_eq, readBgd, bgdPos_eq, hD, Memory.store_load_setBit (by omega), hsame,
        Memory.store_load_setWord hwords.2]
      rfl

/-- One descriptor of an image. -/
theorem takeBit_eq (kind : BitmapKind) (h : Ext2Image g disk) {i : ℕ}
    (hD : i / g.inodesPerGroup < g.bgdCnt) :
    takeBit g kind.bitmapAt kind.countAt disk i =
      match groupClear g disk kind (i / g.inodesPerGroup) with
      | none => (disk, none)
      | some r => (markUsed g disk kind (i / g.inodesPerGroup) r, some r) := by
  have hbehind := h.behind kind _ hD
  have hinside := groupPos_inside (g := g) hD
  rw [takeBit_behind kind rfl (by omega)]
  split
  · next hzero =>
    have hnone : groupClear g disk kind (i / g.inodesPerGroup) = none := by
      rw [groupClear_eq_none_iff]
      intro r hr
      exact full_of_freeCount h hD hzero (by omega)
    rw [hnone]
  · rfl

/-! ## The loop over the groups -/

/-- INTERNAL: the loop stops at the first group that gives something. -/
theorem allocFromGroups_spec {alloc : Memory → ℕ → Memory × Option ℕ} {f : ℕ → Option (Memory × ℕ)}
    (perGroup n i : ℕ) (halloc : ∀ j, i ≤ j → j < i + n → alloc disk j =
      match f j with | none => (disk, none) | some x => (x.1, some x.2)) :
    ((∀ j, i ≤ j → j < i + n → f j = none) ∧
      allocFromGroups alloc perGroup n i disk = (disk, none)) ∨
    ∃ j x, i ≤ j ∧ j < i + n ∧ (∀ l, i ≤ l → l < j → f l = none) ∧ f j = some x ∧
      allocFromGroups alloc perGroup n i disk = (x.1, some (j * perGroup + x.2)) := by
  induction n generalizing i with
  | zero => exact Or.inl ⟨fun j hij hj => absurd hj (by omega), rfl⟩
  | succ n ih =>
    have hfirst := halloc i (Nat.le_refl i) (by omega)
    rw [allocFromGroups, hfirst]
    cases hf : f i with
    | some x =>
      exact Or.inr ⟨i, x, Nat.le_refl i, by omega, fun l hil hli => absurd hli (by omega), hf, rfl⟩
    | none =>
      simp only
      have hrest := ih (i + 1) fun j hij hj => halloc j (by omega) (by omega)
      rcases hrest with ⟨hnone, heq⟩ | ⟨j, x, hij, hj, hbefore, hfj, heq⟩
      · refine Or.inl ⟨fun j hij hj => ?_, heq⟩
        by_cases hji : j = i
        · rw [hji, hf]
        · exact hnone j (by omega) (by omega)
      · refine Or.inr ⟨j, x, by omega, by omega, fun l hil hlj => ?_, hfj, heq⟩
        by_cases hli : l = i
        · rw [hli, hf]
        · exact hbefore l (by omega) hlj

/-- `fs::alloc_block` and `fs::alloc_inode`.
SRCLINE: kernel/fs/ext2/ext2.cpp:28-39, 63-74 -/
def allocNumber (g : Ext2Super) : BitmapKind → Memory → Memory × Option ℕ
  | .blocks => ext2AllocBlock g
  | .inodes => ext2AllocInode g

/-- The number of the bit `r` of the group `i`: inodes are counted from `1`. -/
def numberOf (g : Ext2Super) (kind : BitmapKind) (i r : ℕ) : ℕ :=
  match kind with
  | .blocks => i * g.blocksPerGroup + r
  | .inodes => i * g.inodesPerGroup + (r + 1)

/-- What the group `i` of the loop gives, with the number in the group that the source adds. -/
def groupOffer (g : Ext2Super) (disk : Memory) (kind : BitmapKind) (i : ℕ) : Option (Memory × ℕ) :=
  (groupClear g disk kind (i / g.inodesPerGroup)).map fun r =>
    (markUsed g disk kind (i / g.inodesPerGroup) r, numberOf g kind 0 r)

/-- INTERNAL: the group `D * inodes_per_group` reads the descriptor `D`. -/
theorem groupOffer_mul (hipg : 0 < g.inodesPerGroup) (D : ℕ) :
    groupOffer g disk kind (D * g.inodesPerGroup) = none ↔ groupClear g disk kind D = none := by
  rw [groupOffer, Nat.mul_div_cancel _ hipg, Option.map_eq_none_iff]

/-- **Where an allocation ends**: it takes the first clear bit of the first descriptor `D` that has one
among its first `block_size` bits, as a bit of the group `D * inodes_per_group`.
SRCLINE: kernel/fs/ext2/ext2.cpp:28-39, 63-74 -/
theorem allocNumber_cases (h : Ext2Image g disk) (kind : BitmapKind) :
    ((∀ D, D * g.inodesPerGroup < g.bgdCnt → groupClear g disk kind D = none) ∧
      allocNumber g kind disk = (disk, none)) ∨
    ∃ D r, D * g.inodesPerGroup < g.bgdCnt ∧ (∀ D' < D, groupClear g disk kind D' = none) ∧
      groupClear g disk kind D = some r ∧
      allocNumber g kind disk =
        (markUsed g disk kind D r, some (numberOf g kind (D * g.inodesPerGroup) r)) := by
  have hipg : 0 < g.inodesPerGroup := h.perGroup_pos .inodes
  have hD : ∀ {i}, i < g.bgdCnt → i / g.inodesPerGroup < g.bgdCnt := fun hi =>
    Nat.lt_of_le_of_lt (Nat.div_le_self _ _) hi
  have hcases : ((∀ j, 0 ≤ j → j < 0 + g.bgdCnt → groupOffer g disk kind j = none) ∧
        allocNumber g kind disk = (disk, none)) ∨
      ∃ j x, 0 ≤ j ∧ j < 0 + g.bgdCnt ∧ (∀ l, 0 ≤ l → l < j → groupOffer g disk kind l = none) ∧
        groupOffer g disk kind j = some x ∧
        allocNumber g kind disk = (x.1, some (j * kind.perGroup g + x.2)) := by
    cases kind with
    | blocks =>
      apply allocFromGroups_spec
      intro j _ hj
      have hone := takeBit_eq .blocks h (hD (by omega : j < g.bgdCnt))
      simp only [groupOffer, bgdAllocBlock]
      refine hone.trans ?_
      cases groupClear g disk .blocks (j / g.inodesPerGroup) with
      | none => rfl
      | some r => simp [numberOf]
    | inodes =>
      apply allocFromGroups_spec
      intro j _ hj
      have hone := takeBit_eq .inodes h (hD (by omega : j < g.bgdCnt))
      simp only [groupOffer, bgdAllocInode]
      have hone' : takeBit g 4 14 disk j = _ := hone
      rw [hone']
      cases groupClear g disk .inodes (j / g.inodesPerGroup) with
      | none => rfl
      | some r => simp [numberOf]
  rcases hcases with ⟨hnone, heq⟩ | ⟨j, x, -, hj, hbefore, hfj, heq⟩
  · refine Or.inl ⟨fun D hDi => ?_, heq⟩
    exact (groupOffer_mul hipg D).mp (hnone _ (Nat.zero_le _) (by omega))
  · obtain ⟨r, hr, rfl⟩ := Option.map_eq_some_iff.mp hfj
    -- the first group that reads this descriptor is a multiple of `inodes_per_group`
    have hle : j / g.inodesPerGroup * g.inodesPerGroup ≤ j := Nat.div_mul_le_self j _
    have hfirst : j / g.inodesPerGroup * g.inodesPerGroup = j := by
      by_contra hne
      have hlt := Nat.lt_of_le_of_ne hle hne
      rw [(groupOffer_mul hipg _).mp (hbefore _ (Nat.zero_le _) hlt)] at hr
      cases hr
    refine Or.inr ⟨j / g.inodesPerGroup, r, by omega, fun D' hD' => ?_, hr, ?_⟩
    · have hlt : D' * g.inodesPerGroup < j := by
        rw [← hfirst]
        exact Nat.mul_lt_mul_of_pos_right hD' hipg
      exact (groupOffer_mul hipg D').mp (hbefore _ (Nat.zero_le _) hlt)
    · rw [heq, hfirst]
      cases kind with
      | blocks => simp [numberOf, BitmapKind.perGroup]
      | inodes => simp [numberOf, BitmapKind.perGroup]

/-! ## What an allocation changes -/

/-- Outside the byte of the bit and the count, nothing changes. -/
theorem markUsed_outside {x : ℕ} (hbyte : x ≠ kind.bitmapPos g disk D + r / 8)
    (hcount : x < groupPos g D + kind.countAt ∨ groupPos g D + kind.countAt + 2 ≤ x) :
    markUsed g disk kind D r x = disk x := by
  rw [markUsed, Memory.setWord_outside hcount, Memory.setBit_apply_of_ne _ hbyte]

/-- The bitmaps stay where they are. -/
theorem markUsed_bitmapBlock (h : Ext2Image g disk) (hD : D < g.bgdCnt) (hG : G < g.bgdCnt) :
    kind'.bitmapBlock g (markUsed g disk kind D r) G = kind'.bitmapBlock g disk G := by
  have hwords := descriptor_words kind' kind
  have hbehind := h.behind kind D hD
  have hinside := groupPos_inside (g := g) hG
  unfold BitmapKind.bitmapBlock
  rw [markUsed, Memory.word_setWord_outside, Memory.word_setBit_outside (by omega)]
  rcases Nat.lt_trichotomy G D with hlt | rfl | hgt
  · have hbefore := groupPos_apart (g := g) hlt
    omega
  · omega
  · have hafter := groupPos_apart (g := g) hgt
    omega

theorem markUsed_bitmapPos (h : Ext2Image g disk) (hD : D < g.bgdCnt) (hG : G < g.bgdCnt) :
    kind'.bitmapPos g (markUsed g disk kind D r) G = kind'.bitmapPos g disk G := by
  rw [BitmapKind.bitmapPos, markUsed_bitmapBlock h hD hG, BitmapKind.bitmapPos]

/-- The bits of all bitmaps afterwards. -/
theorem markUsed_groupBit (h : Ext2Image g disk) (hD : D < g.bgdCnt) (hr : r < 8 * g.blockSize)
    (hG : G < g.bgdCnt) (hr' : r' < 8 * g.blockSize) :
    kind'.groupBit g (markUsed g disk kind D r) G r' =
      (decide ((kind', G, r') = (kind, D, r)) || kind'.groupBit g disk G r') := by
  have hwords := descriptor_words kind kind
  have hbehind := h.behind kind' G hG
  have hinside := groupPos_inside (g := g) hD
  rw [BitmapKind.groupBit, markUsed_bitmapPos h hD hG, markUsed,
    Memory.bit_setWord_outside (by omega)]
  by_cases hsame : kind'.bitmapPos g disk G = kind.bitmapPos g disk D
  · obtain ⟨rfl, rfl⟩ := h.apart kind' G kind D hG hD hsame
    rw [Memory.bit_setBit]
    simp [BitmapKind.groupBit]
  · have hne : (kind', G, r') ≠ (kind, D, r) := by
      intro heq
      cases heq
      exact hsame rfl
    have happart := bitmap_apart hsame (show r' / 8 < g.blockSize by omega)
      (show r / 8 < g.blockSize by omega)
    rw [Memory.bit_setBit_outside happart, decide_eq_false hne, Bool.false_or]
    rfl

/-- The count afterwards. -/
theorem markUsed_freeCount :
    kind.freeCount g (markUsed g disk kind D r) D = kind.freeCount g disk D - 1 := by
  have hlt : kind.freeCount g disk D < 256 ^ 2 := Memory.word_lt
  unfold markUsed
  exact Memory.word_setWord_of_lt (by omega)

/-- The count of a group with a clear bit is not zero. -/
theorem freeCount_pos (h : Ext2Image g disk) (hG : G < g.bgdCnt) (hr : r < 8 * g.blockSize)
    (hclear : kind.groupBit g disk G r = false) : 0 < kind.freeCount g disk G := by
  by_contra hno
  rw [full_of_freeCount h hG (Nat.eq_zero_of_not_pos hno) hr] at hclear
  cases hclear

/-- The other counts stay what they are. -/
theorem markUsed_freeCount_other (h : Ext2Image g disk) (hD : D < g.bgdCnt) (hG : G < g.bgdCnt)
    (hne : (kind', G) ≠ (kind, D)) :
    kind'.freeCount g (markUsed g disk kind D r) G = kind'.freeCount g disk G := by
  have hwords := descriptor_words kind kind
  have hwords' := descriptor_words kind' kind'
  have hbehind := h.behind kind D hD
  have hinside := groupPos_inside (g := g) hG
  unfold BitmapKind.freeCount
  rw [markUsed, Memory.word_setWord_outside, Memory.word_setBit_outside (by omega)]
  rcases Nat.lt_trichotomy G D with hlt | rfl | hgt
  · have hbefore := groupPos_apart (g := g) hlt
    omega
  · have hkinds : kind' ≠ kind := fun heq => hne (by rw [heq])
    cases kind <;> cases kind' <;> simp [BitmapKind.countAt] at hkinds ⊢
  · have hafter := groupPos_apart (g := g) hgt
    omega

/-- INTERNAL: the counts are still those of the clear bits. -/
theorem markUsed_counted (h : Ext2Image g disk) (hD : D < g.bgdCnt) (hr : r < 8 * g.blockSize)
    (hclear : kind.groupBit g disk D r = false) (hG : G < g.bgdCnt) :
    kind'.freeCount g (markUsed g disk kind D r) G + (markUsed g disk kind D r).countBits
      (kind'.bitmapPos g (markUsed g disk kind D r) G) (kind'.perGroup g) = kind'.perGroup g := by
  have hcounted := h.counted kind' G hG
  have hle := h.perGroup_le kind'
  have hbits : ∀ j < kind'.perGroup g,
      (markUsed g disk kind D r).bit (kind'.bitmapPos g disk G) j =
        (decide ((kind', G, j) = (kind, D, r)) || disk.bit (kind'.bitmapPos g disk G) j) := by
    intro j hj
    have hbit : kind'.groupBit g (markUsed g disk kind D r) G j = _ :=
        markUsed_groupBit h hD hr hG (show j < _ by omega)
    rwa [BitmapKind.groupBit, markUsed_bitmapPos h hD hG] at hbit
  rw [markUsed_bitmapPos h hD hG]
  by_cases hsame : (kind', G) = (kind, D)
  · cases hsame
    have hin := clear_lt_perGroup h hD hr hclear
    have hpos := freeCount_pos h hD hr hclear
    have hmore := Memory.countBits_run (m := disk) (k := 1) (Nat.succ_le_of_lt hin)
      (fun j hj hj' => by
        obtain rfl : j = r := by omega
        exact hclear) fun j hj => by
      rw [hbits j hj]
      congr 1
      simp only [Prod.mk.injEq, true_and, decide_eq_decide]
      omega
    rw [hmore, markUsed_freeCount]
    omega
  · rw [markUsed_freeCount_other h hD hG hsame, Memory.countBits_congr fun j hj => ?_]
    · exact hcounted
    · have hne : (kind', G, j) ≠ (kind, D, r) := fun heq => hsame (by cases heq; rfl)
      rw [hbits j hj, decide_eq_false hne, Bool.false_or]

/-- **An allocation keeps the image well formed.** -/
theorem markUsed_image (h : Ext2Image g disk) (hD : D < g.bgdCnt) (hr : r < 8 * g.blockSize)
    (hclear : kind.groupBit g disk D r = false) : Ext2Image g (markUsed g disk kind D r) where
  blockSize := h.blockSize
  groups := h.groups
  perGroup_pos := h.perGroup_pos
  perGroup_le := h.perGroup_le
  numbers := h.numbers
  behind kind' G hG := by
    rw [markUsed_bitmapPos h hD hG]
    exact h.behind kind' G hG
  apart kind' G kind'' G' hG hG' heq := by
    rw [markUsed_bitmapPos h hD hG, markUsed_bitmapPos h hD hG'] at heq
    exact h.apart kind' G kind'' G' hG hG' heq
  counted kind' G hG := markUsed_counted h hD hr hclear hG
  padding kind' G r' hG hle hr' := by
    rw [markUsed_groupBit h hD hr hG hr', h.padding kind' G r' hG hle hr', Bool.or_true]

/-! ## The exact condition -/

/-- INTERNAL: an allocation from the descriptor `D` is right if and only if the group that reads it is
its own. -/
theorem allocCorrect_some_iff (h : Ext2Image g disk) (hD : D * g.inodesPerGroup < g.bgdCnt)
    (hfound : groupClear g disk .blocks D = some r) :
    AllocCorrect g disk (markUsed g disk .blocks D r)
        (some (numberOf g .blocks (D * g.inodesPerGroup) r)) ↔ D * g.inodesPerGroup = D := by
  have hipg : 0 < g.inodesPerGroup := h.perGroup_pos .inodes
  have hle : D ≤ D * g.inodesPerGroup := Nat.le_mul_of_pos_right D hipg
  have hD' : D < g.bgdCnt := by omega
  obtain ⟨hlow, hclear⟩ := groupClear_some hfound
  have hr : r < 8 * g.blockSize := by omega
  have hin : r < g.blocksPerGroup := clear_lt_perGroup h hD' hr hclear
  have hdiv : numberOf g .blocks (D * g.inodesPerGroup) r / g.blocksPerGroup = D * g.inodesPerGroup := by
    rw [numberOf, Nat.mul_comm _ g.blocksPerGroup, Nat.mul_add_div (by omega), Nat.div_eq_of_lt hin,
      Nat.add_zero]
  have hmod : numberOf g .blocks (D * g.inodesPerGroup) r % g.blocksPerGroup = r := by
    rw [numberOf, Nat.mul_comm _ g.blocksPerGroup, Nat.mul_add_mod, Nat.mod_eq_of_lt hin]
  rw [AllocCorrect, hdiv, hmod]
  constructor
  · rintro ⟨-, hbefore, hafter, -⟩
    -- only the bit of the descriptor that was read changed
    rw [markUsed_groupBit h hD' hr hD hr, hbefore, Bool.or_false, decide_eq_true_eq] at hafter
    exact congrArg (fun x => x.2.1) hafter
  · intro hsame
    rw [hsame]
    refine ⟨hD', hclear, ?_, ?_, ?_⟩
    · rw [markUsed_groupBit h hD' hr hD' hr]
      simp
    · intro kind' G' r' hG' hr' hne
      rw [markUsed_groupBit h hD' hr hG' hr', decide_eq_false hne, Bool.false_or]
    · have hpos := freeCount_pos h hD' hr hclear
      rw [markUsed_freeCount]
      omega

/-- **When `alloc_block` is right**: all groups are full, or group `0` has a clear bit among the first
`block_size` bits of its bitmap, or each group has one inode and some group has such a bit.
SRCLINE: kernel/fs/ext2/ext2.cpp:28-39, kernel/fs/ext2/block.cpp:5-10, 26-52 -/
theorem allocBlock_correct_iff (g : Ext2Super) (disk : Memory) (h : Ext2Image g disk) :
    AllocCorrect g disk (ext2AllocBlock g disk).1 (ext2AllocBlock g disk).2 ↔ AllocReaches g disk := by
  have hipg : 0 < g.inodesPerGroup := h.perGroup_pos .inodes
  have hbs := h.blockSize
  have hlow : ∀ G < g.bgdCnt, ∀ r < g.blockSize, GroupFull g disk .blocks G →
      BitmapKind.groupBit g disk .blocks G r = true := by
    intro G hG r hr hfull
    by_contra hno
    have hclear := Bool.eq_false_iff.mpr hno
    rw [hfull r (clear_lt_perGroup h hG (by omega) hclear)] at hclear
    cases hclear
  rcases allocNumber_cases h .blocks with ⟨hnone, heq⟩ | ⟨D, r, hD, hbefore, hfound, heq⟩
  · have heq' : ext2AllocBlock g disk = (disk, none) := heq
    rw [heq']
    -- no descriptor that is read has a clear bit within reach
    have hset : ∀ D, D * g.inodesPerGroup < g.bgdCnt → ∀ r < g.blockSize,
        BitmapKind.groupBit g disk .blocks D r = true := fun D hD =>
      groupClear_eq_none_iff.mp (hnone D hD)
    constructor
    · exact Or.inl
    · rintro (hfull | ⟨r, hr, hclear⟩ | ⟨hone, G, hG, r, hr, hclear⟩)
      · exact hfull
      · have hgroups := h.groups
        rw [hset 0 (by omega) r hr] at hclear
        cases hclear
      · rw [hset G (by rw [hone, Nat.mul_one]; exact hG) r hr] at hclear
        cases hclear
  · have heq' : ext2AllocBlock g disk = _ := heq
    rw [heq', allocCorrect_some_iff h hD hfound]
    obtain ⟨hr, hclear⟩ := groupClear_some hfound
    have hle : D ≤ D * g.inodesPerGroup := Nat.le_mul_of_pos_right D hipg
    constructor
    · intro hsame
      by_cases hzero : D = 0
      · rw [hzero] at hclear
        exact Or.inr (Or.inl ⟨r, hr, hclear⟩)
      · have hone : g.inodesPerGroup = 1 :=
          Nat.eq_of_mul_eq_mul_left (Nat.pos_of_ne_zero hzero) (by rw [hsame, Nat.mul_one])
        exact Or.inr (Or.inr ⟨hone, D, by omega, r, hr, hclear⟩)
    · rintro (hfull | ⟨r₀, hr₀, hclear₀⟩ | ⟨hone, -⟩)
      · rw [hlow D (by omega) r hr (hfull D (by omega))] at hclear
        cases hclear
      · have hzero : D = 0 := by
          by_contra hne
          rw [groupClear_eq_none_iff.mp (hbefore 0 (Nat.pos_of_ne_zero hne)) r₀ hr₀] at hclear₀
          cases hclear₀
        rw [hzero, Nat.zero_mul]
      · rw [hone, Nat.mul_one]

/-! ## A small image -/

/-- One group with the bitmaps in the blocks `3` and `4`. All bits are set but the bit `b` of the blocks
and the bit `i` of the inodes. -/
def smallImage (b i : ℕ) : Memory :=
  let disk : Memory := fun x => if 3072 ≤ x ∧ x < 5120 then 0xff else 0
  let disk := (((disk.setWord 2048 4 3).setWord 2052 4 4).setWord 2060 2 1).setWord 2062 2 1
  (disk.clearBit 3072 b).clearBit 4096 i

/-- Where the bitmap is. -/
def smallBitmap : BitmapKind → ℕ
  | .blocks => 3
  | .inodes => 4

/-- Which bit is clear. -/
def smallClear (b i : ℕ) : BitmapKind → ℕ
  | .blocks => b
  | .inodes => i

section SmallImage

variable {b i : ℕ} (hb : b < 8192) (hi : i < 8192)
include hb hi

theorem smallImage_word {a n : ℕ} (ha : a + n ≤ 3072) :
    (smallImage b i).word a n = ((((Memory.setWord (fun x => if 3072 ≤ x ∧ x < 5120 then 0xff else 0)
      2048 4 3).setWord 2052 4 4).setWord 2060 2 1).setWord 2062 2 1).word a n := by
  rw [smallImage, Memory.word_clearBit_outside (by omega), Memory.word_clearBit_outside (by omega)]

theorem smallImage_bitmapPos (kind : BitmapKind) :
    kind.bitmapPos smallSuper (smallImage b i) 0 = smallBitmap kind * 1024 := by
  unfold BitmapKind.bitmapPos BitmapKind.bitmapBlock
  cases kind with
  | blocks =>
    rw [smallImage_word hb hi (by decide)]
    decide
  | inodes =>
    rw [smallImage_word hb hi (by decide)]
    decide

theorem smallImage_freeCount (kind : BitmapKind) :
    kind.freeCount smallSuper (smallImage b i) 0 = 1 := by
  unfold BitmapKind.freeCount
  cases kind with
  | blocks =>
    rw [smallImage_word hb hi (by decide)]
    decide
  | inodes =>
    rw [smallImage_word hb hi (by decide)]
    decide

theorem smallImage_groupBit (kind : BitmapKind) {r : ℕ} (hr : r < 8192) :
    kind.groupBit smallSuper (smallImage b i) 0 r =
      decide (r ≠ smallClear b i kind) := by
  have hones : (0xff : Byte).getLsbD (r % 8) = true := by
    have h8 : r % 8 < 8 := Nat.mod_lt _ (by decide)
    interval_cases r % 8 <;> rfl
  rw [BitmapKind.groupBit, smallImage_bitmapPos hb hi, smallImage]
  cases kind with
  | blocks =>
    rw [smallBitmap, smallClear, Memory.bit_clearBit_outside (by omega), Memory.bit_clearBit,
      Memory.bit_setWord_outside (by omega), Memory.bit_setWord_outside (by omega),
      Memory.bit_setWord_outside (by omega), Memory.bit_setWord_outside (by omega), Memory.bit,
      if_pos (by omega), hones, Bool.and_true]
  | inodes =>
    rw [smallBitmap, smallClear, Memory.bit_clearBit, Memory.bit_clearBit_outside (by omega),
      Memory.bit_setWord_outside (by omega), Memory.bit_setWord_outside (by omega),
      Memory.bit_setWord_outside (by omega), Memory.bit_setWord_outside (by omega), Memory.bit,
      if_pos (by omega), hones, Bool.and_true]

/-- The image is well formed. -/
theorem smallImage_image (hi' : i < 32) : Ext2Image smallSuper (smallImage b i) where
  blockSize := by decide
  groups := by decide
  perGroup_pos kind := by cases kind <;> decide
  perGroup_le kind := by cases kind <;> decide
  numbers kind := by cases kind <;> decide
  behind kind G hG := by
    obtain rfl : G = 0 := Nat.lt_one_iff.mp hG
    rw [smallImage_bitmapPos hb hi]
    cases kind <;> decide
  apart kind G kind' G' hG hG' heq := by
    obtain rfl : G = 0 := Nat.lt_one_iff.mp hG
    obtain rfl : G' = 0 := Nat.lt_one_iff.mp hG'
    rw [smallImage_bitmapPos hb hi, smallImage_bitmapPos hb hi] at heq
    refine ⟨?_, rfl⟩
    cases kind <;> cases kind' <;> simp [smallBitmap] at heq ⊢
  counted kind G hG := by
    obtain rfl : G = 0 := Nat.lt_one_iff.mp hG
    -- with the clear bit set, all are
    have hclear : ∃ r < kind.perGroup smallSuper, ∀ r' < 8192,
        kind.groupBit smallSuper (smallImage b i) 0 r' = decide (r' ≠ r) := by
      cases kind with
      | blocks => exact ⟨b, hb, fun r' hr' => smallImage_groupBit hb hi .blocks hr'⟩
      | inodes => exact ⟨i, hi', fun r' hr' => smallImage_groupBit hb hi .inodes hr'⟩
    obtain ⟨r, hr, hbits⟩ := hclear
    have hle : kind.perGroup smallSuper ≤ 8192 := by cases kind <;> decide
    have hrun := Memory.countBits_setRun (m := smallImage b i)
      (i := r) (k := 1) (Nat.succ_le_of_lt hr) fun j hj hj' => by
        obtain rfl : j = r := by omega
        exact (hbits j (by omega)).trans (by simp)
    have hfull := Memory.countBits_eq_iff.mpr fun j (hj : j < kind.perGroup smallSuper) => by
      have hbit := hbits j (by omega)
      rw [BitmapKind.groupBit] at hbit
      rw [Memory.bit_setRun _ (kind.bitmapPos smallSuper (smallImage b i) 0) r 1, hbit]
      by_cases hjr : j = r <;> simp [hjr]
    rw [hfull] at hrun
    rw [smallImage_freeCount hb hi, Nat.add_comm]
    exact hrun.symm
  padding kind G r hG hle hr := by
    obtain rfl : G = 0 := Nat.lt_one_iff.mp hG
    rw [smallImage_groupBit hb hi kind hr]
    cases kind with
    | blocks =>
      have hle' : 8192 ≤ r := hle
      exact decide_eq_true (show r ≠ b by omega)
    | inodes =>
      have hle' : 32 ≤ r := hle
      exact decide_eq_true (show r ≠ i by omega)

end SmallImage

/-- A clear bit within reach is allocated. -/
theorem smallImage_alloc {b i : ℕ} (hb : b < 8192) (hi : i < 32) (kind : BitmapKind)
    (hlow : smallClear b i kind < 1024) :
    allocNumber smallSuper kind (smallImage b i) =
      (markUsed smallSuper (smallImage b i) kind 0 (smallClear b i kind),
        some (numberOf smallSuper kind 0 (smallClear b i kind))) := by
  have hbits : ∀ r < 8192, kind.groupBit smallSuper (smallImage b i) 0 r =
      decide (r ≠ smallClear b i kind) := fun r hr => smallImage_groupBit hb (by omega) kind hr
  rcases allocNumber_cases (smallImage_image hb (by omega) hi) kind with
    ⟨hnone, -⟩ | ⟨D, r, hD, -, hfound, heq⟩
  · have hset := groupClear_eq_none_iff.mp (hnone 0 (by decide)) _ hlow
    rw [hbits _ (by omega)] at hset
    simp at hset
  · obtain ⟨hr, hclear⟩ := groupClear_some hfound
    have hr' : r < 1024 := hr
    have hzero : D = 0 := by
      have hD' : D * 32 < 1 := hD
      omega
    rw [hzero, hbits r (by omega), decide_eq_false_iff_not, not_not] at hclear
    rw [hzero, hclear, Nat.zero_mul] at heq
    exact heq

/-- A block is taken right if it is one of the first 1024 of group `0`. -/
theorem allocBlock_correct_first :
    AllocCorrect smallSuper (smallImage 100 12) (ext2AllocBlock smallSuper (smallImage 100 12)).1
      (ext2AllocBlock smallSuper (smallImage 100 12)).2 :=
  (allocBlock_correct_iff smallSuper (smallImage 100 12)
    (smallImage_image (by decide) (by decide) (by decide))).mpr
    (Or.inr (Or.inl ⟨100, by decide, smallImage_groupBit (by decide) (by decide) .blocks (by decide)⟩))

/-- **The scan ends too early**: it tests as many bits as the bitmap has bytes. The block `1024` is free,
and no block is found.
SRCLINE: kernel/fs/ext2/block.cpp:37-51 -/
theorem allocBlock_misses_block :
    Ext2Image smallSuper (smallImage 1024 12) ∧
    (ext2AllocBlock smallSuper (smallImage 1024 12)).2 = none ∧
    ¬ AllocCorrect smallSuper (smallImage 1024 12) (ext2AllocBlock smallSuper (smallImage 1024 12)).1
      (ext2AllocBlock smallSuper (smallImage 1024 12)).2 := by
  have himage : Ext2Image smallSuper (smallImage 1024 12) :=
    smallImage_image (by decide) (by decide) (by decide)
  have hbits : ∀ r < 8192, BitmapKind.groupBit smallSuper (smallImage 1024 12) .blocks 0 r =
      decide (r ≠ 1024) := fun r hr => smallImage_groupBit (by decide) (by decide) .blocks hr
  have hnone : ext2AllocBlock smallSuper (smallImage 1024 12) = (smallImage 1024 12, none) := by
    rcases allocNumber_cases himage .blocks with ⟨-, heq⟩ | ⟨D, r, hD, -, hfound, -⟩
    · exact heq
    · obtain ⟨hr, hclear⟩ := groupClear_some hfound
      have hzero : D = 0 := by
        have hD' : D * 32 < 1 := hD
        omega
      have hr' : r < 1024 := hr
      rw [hzero, hbits r (by omega), decide_eq_false_iff_not] at hclear
      omega
  rw [hnone]
  refine ⟨himage, rfl, fun hfull => ?_⟩
  have hset := hfull 0 (by decide) 1024 (by decide)
  rw [hbits 1024 (by decide)] at hset
  cases hset

end CrepOS.Analysis
