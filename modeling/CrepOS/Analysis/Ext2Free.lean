import CrepOS.Analysis.Ext2Alloc

/-!
# Freeing blocks and inodes

`free_block` and `free_inode` take the number of the bitmap block for an offset in bytes, and the
descriptor at the group over `inodes_per_group` for that of the group. So the count that they change is
that of another group, or else the bit that they clear is in another place: `freeNumber_not_undo` and
`freeBlock_not_only` hold for every well-formed image. `free_inode` also does not subtract the `1` that
`alloc_inode` adds.
-/

set_option autoImplicit false

namespace CrepOS.Analysis

open CrepOS.Library CrepOS.Model CrepOS.Interface

variable {g : Ext2Super} {disk : Memory} {kind : BitmapKind} {D G r index x : ℕ}

/-! ## What freeing writes -/

/-- `fs::free_block` and `fs::free_inode`.
SRCLINE: kernel/fs/ext2/ext2.cpp:41-61, 76-96 -/
def freeNumber (g : Ext2Super) : BitmapKind → Memory → ℕ → Memory
  | .blocks => freeBlock g
  | .inodes => freeInode g

/-- The descriptor that is used for a number. -/
def freeGroup (g : Ext2Super) (kind : BitmapKind) (index : ℕ) : ℕ :=
  index / kind.perGroup g / g.inodesPerGroup

/-- INTERNAL: the common body, with the bitmap at the offset that is the number of its block. -/
theorem freeNumber_eq (hle : kind.perGroup g ≤ 8 * g.blockSize) (hpos : 0 < kind.perGroup g) :
    freeNumber g kind disk index =
      if disk.bit (kind.bitmapBlock g disk (freeGroup g kind index)) (index % kind.perGroup g) then
        (disk.clearBit (kind.bitmapBlock g disk (freeGroup g kind index)) (index % kind.perGroup g)).store
          (groupPos g (freeGroup g kind index)) rawBgdSize
          ((disk.load (groupPos g (freeGroup g kind index)) rawBgdSize).setWord kind.countAt 2
            (kind.freeCount g disk (freeGroup g kind index) + 1))
      else disk := by
  have hwords := descriptor_words kind kind
  have hcommon : freeNumber g kind disk index =
      clearBitmapBit g kind.bitmapAt kind.countAt (kind.perGroup g) disk index := by
    cases kind <;> rfl
  have hmod : index - index / kind.perGroup g * kind.perGroup g = index % kind.perGroup g := by
    rw [Nat.mod_eq_sub_div_mul]
  have hbyte : index % kind.perGroup g / 8 < g.blockSize := by
    have hlt := Nat.mod_lt index hpos
    omega
  have hraw : readBgd g disk (index / kind.perGroup g) =
      disk.load (groupPos g (freeGroup g kind index)) rawBgdSize := rfl
  have hcount : (disk.load (groupPos g (freeGroup g kind index)) rawBgdSize).word kind.countAt 2 =
      kind.freeCount g disk (freeGroup g kind index) := Memory.word_load hwords.2
  have hblock : (disk.load (groupPos g (freeGroup g kind index)) rawBgdSize).word kind.bitmapAt 4 =
      kind.bitmapBlock g disk (freeGroup g kind index) := Memory.word_load (by omega)
  simp only [hcommon, clearBitmapBit, hmod, hraw, hcount, hblock, bmTest_eq, bmClear_eq,
    Memory.bit_load hbyte, Memory.store_load_clearBit hbyte]
  rfl

/-- **What freeing leaves alone**: all but the byte of the bit that it clears, and the descriptor. -/
theorem freeNumber_outside (h : Ext2Image g disk)
    (hbyte : x ≠ kind.bitmapBlock g disk (freeGroup g kind index) + index % kind.perGroup g / 8)
    (hgroup : x < groupPos g (freeGroup g kind index) ∨
      groupPos g (freeGroup g kind index) + rawBgdSize ≤ x) :
    freeNumber g kind disk index x = disk x := by
  rw [freeNumber_eq (h.perGroup_le kind) (h.perGroup_pos kind)]
  split
  · rw [Memory.store_outside hgroup, Memory.clearBit_apply_of_ne _ hbyte]
  · rfl

/-- INTERNAL: outside the descriptor, no byte gets larger. -/
theorem freeNumber_le (h : Ext2Image g disk) (hgroup : x < groupPos g (freeGroup g kind index) ∨
      groupPos g (freeGroup g kind index) + rawBgdSize ≤ x) :
    (freeNumber g kind disk index x).toNat ≤ (disk x).toNat := by
  rw [freeNumber_eq (h.perGroup_le kind) (h.perGroup_pos kind)]
  split
  · rw [Memory.store_outside hgroup]
    exact Memory.clearBit_le disk _ _ x
  · exact Nat.le_refl _

/-- The count of another group than the one whose descriptor is used does not get larger. -/
theorem freeNumber_freeCount_le (kind : BitmapKind) (h : Ext2Image g disk) (hG : G ≠ freeGroup g kind index) :
    kind.freeCount g (freeNumber g kind disk index) G ≤ kind.freeCount g disk G := by
  have hwords := descriptor_words kind kind
  apply Memory.word_mono
  intro i hi
  apply freeNumber_le h
  rcases Nat.lt_or_gt_of_ne hG with hlt | hgt
  · have hbefore := groupPos_apart (g := g) hlt
    omega
  · have hafter := groupPos_apart (g := g) hgt
    omega

/-- INTERNAL: the number of a bitmap block, as an offset, is far before the bitmap. -/
theorem bitmapBlock_far (kind : BitmapKind) (h : Ext2Image g disk) (hG : G < g.bgdCnt) :
    kind.bitmapBlock g disk G + 1023 ≤ kind.bitmapPos g disk G := by
  have hbehind := h.behind kind G hG
  have hbs := h.blockSize
  have htable : 0 < groupPos g g.bgdCnt := by
    unfold groupPos bgdTable
    split
    · omega
    · omega
  unfold BitmapKind.bitmapPos at hbehind ⊢
  generalize kind.bitmapBlock g disk G = n at hbehind ⊢
  have hn : 0 < n := by
    by_contra hno
    rw [Nat.eq_zero_of_not_pos hno, Nat.zero_mul] at hbehind
    omega
  have hmul : n * 1024 ≤ n * g.blockSize := Nat.mul_le_mul_left n hbs
  omega

/-! ## Freeing never undoes an allocation -/

/-- **An allocation is not undone**, whatever number is freed.
SRCLINE: kernel/fs/ext2/ext2.cpp:41-61, 76-96 -/
theorem freeNumber_not_undo (kind : BitmapKind) (h : Ext2Image g disk) (hD : D < g.bgdCnt) (hr : r < g.blockSize)
    (hclear : kind.groupBit g disk D r = false) (hindex : index % kind.perGroup g ≤ r + 1) :
    freeNumber g kind (markUsed g disk kind D r) index ≠ disk := by
  intro hundone
  have hr' : r < 8 * g.blockSize := by omega
  have himage := markUsed_image h hD hr' hclear
  by_cases hgroup : D = freeGroup g kind index
  · -- the byte of the bit is not written
    have hbehind := himage.behind kind D hD
    have hinside := groupPos_inside (g := g) hD
    have hfar := bitmapBlock_far kind himage hD
    have hkept : freeNumber g kind (markUsed g disk kind D r) index
        (kind.bitmapPos g (markUsed g disk kind D r) D + r / 8) =
        markUsed g disk kind D r (kind.bitmapPos g (markUsed g disk kind D r) D + r / 8) := by
      apply freeNumber_outside himage
      · rw [← hgroup]
        omega
      · rw [← hgroup]
        omega
    have hset : kind.groupBit g (markUsed g disk kind D r) D r = true := by
      rw [markUsed_groupBit h hD hr' hD hr']
      simp
    have hsame : disk.bit (kind.bitmapPos g (markUsed g disk kind D r) D) r = true := by
      rw [← hset, BitmapKind.groupBit]
      apply Memory.bit_congr
      rw [← hkept, hundone]
    rw [markUsed_bitmapPos h hD hD] at hsame
    rw [BitmapKind.groupBit, hsame] at hclear
    cases hclear
  · -- the count is not raised again
    have hpos := freeCount_pos h hD hr' hclear
    have hle := freeNumber_freeCount_le kind himage hgroup
    rw [hundone, markUsed_freeCount] at hle
    omega

/-- **An allocated block is not freed**, or another group is changed.
SRCLINE: kernel/fs/ext2/ext2.cpp:41-61 -/
theorem freeBlock_not_only (h : Ext2Image g disk) {b : ℕ} (hb : Allocated g disk b) :
    ¬ FreesOnly g disk (freeBlock g disk b) b := by
  intro honly
  obtain ⟨hG, hset⟩ := hb
  by_cases hgroup : b / g.blocksPerGroup = freeGroup g .blocks b
  · have hbehind := h.behind .blocks _ hG
    have hinside := groupPos_inside (g := g) hG
    have hfar := bitmapBlock_far .blocks h hG
    have hkept : (freeNumber g .blocks disk b)
        (BitmapKind.bitmapPos g disk .blocks (b / g.blocksPerGroup) + b % g.blocksPerGroup / 8) =
        disk (BitmapKind.bitmapPos g disk .blocks (b / g.blocksPerGroup) + b % g.blocksPerGroup / 8) := by
      apply freeNumber_outside h
      · rw [← hgroup]
        change _ ≠ _ + b % g.blocksPerGroup / 8
        omega
      · rw [← hgroup]
        omega
    have hcleared : (freeNumber g .blocks disk b).bit _ _ = false := honly.cleared
    rw [Memory.bit_congr hkept] at hcleared
    rw [BitmapKind.groupBit, hcleared] at hset
    cases hset
  · have hcount := freeNumber_freeCount_le .blocks h hgroup
    have hraised := honly.counted
    rw [freeNumber] at hcount
    omega

/-- **`free_block` does not undo `alloc_block`**, for any image: not the allocation of a block that was
free, and not that of a block in use.
SRCLINE: kernel/fs/ext2/ext2.cpp:28-61 -/
theorem freeBlock_never_undoes (g : Ext2Super) (disk : Memory) (h : Ext2Image g disk) :
    (∀ disk' b, ext2AllocBlock g disk = (disk', some b) → freeBlock g disk' b ≠ disk) ∧
    (∀ b, Allocated g disk b → ¬ FreesOnly g disk (freeBlock g disk b) b) ∧
    ¬ FreeUndoes g disk := by
  have hnotOnly : ∀ b, Allocated g disk b → ¬ FreesOnly g disk (freeBlock g disk b) b :=
    fun b hb => freeBlock_not_only h hb
  have hipg : 0 < g.inodesPerGroup := h.perGroup_pos .inodes
  rcases allocNumber_cases h .blocks with ⟨hnone, heq⟩ | ⟨D, r, hD, hbefore, hfound, heq⟩
  · have heq' : ext2AllocBlock g disk = (disk, none) := heq
    refine ⟨fun disk' b hsome => ?_, hnotOnly, fun hundoes => ?_⟩
    · rw [heq'] at hsome
      cases hsome
    · -- the block `0` is in use
      have hgroups := h.groups
      have hbs := h.blockSize
      have hzero : Allocated g disk 0 := by
        rw [Allocated, Nat.zero_div, Nat.zero_mod]
        exact ⟨hgroups, groupClear_eq_none_iff.mp (hnone 0 (by omega)) 0 (by omega)⟩
      exact hnotOnly 0 hzero (hundoes.2 0 hzero)
  · have heq' : ext2AllocBlock g disk = _ := heq
    have hle : D ≤ D * g.inodesPerGroup := Nat.le_mul_of_pos_right D hipg
    obtain ⟨hr, hclear⟩ := groupClear_some hfound
    have hmod : numberOf g .blocks (D * g.inodesPerGroup) r % g.blocksPerGroup ≤ r + 1 := by
      rw [numberOf, Nat.mul_comm _ g.blocksPerGroup, Nat.mul_add_mod]
      exact Nat.le_succ_of_le (Nat.mod_le r _)
    have hnot : freeBlock g (markUsed g disk .blocks D r)
        (numberOf g .blocks (D * g.inodesPerGroup) r) ≠ disk :=
      freeNumber_not_undo .blocks h (by omega) hr hclear hmod
    refine ⟨fun disk' b hsome => ?_, hnotOnly, fun hundoes => hnot (hundoes.1 _ _ heq')⟩
    rw [heq'] at hsome
    cases hsome
    exact hnot

/-- Block `100` is free, and is not freed after it was allocated. -/
theorem freeBlock_never_undoes_small : ¬ FreeUndoes smallSuper (smallImage 100 12) :=
  (freeBlock_never_undoes smallSuper (smallImage 100 12)
    (smallImage_image (by decide) (by decide) (by decide))).2.2

/-- **The offset of the bitmap is its number**: block `100` is allocated and stays so when it is freed.
SRCLINE: kernel/fs/ext2/ext2.cpp:48, 55 -/
theorem freeBlock_keeps_bit :
    Ext2Image smallSuper (smallImage 100 12) ∧
    ∃ disk', ext2AllocBlock smallSuper (smallImage 100 12) = (disk', some 100) ∧
      freeBlock smallSuper disk' 100 ≠ smallImage 100 12 := by
  have himage : Ext2Image smallSuper (smallImage 100 12) :=
    smallImage_image (by decide) (by decide) (by decide)
  have hclear : BitmapKind.groupBit smallSuper (smallImage 100 12) .blocks 0 100 = false :=
    smallImage_groupBit (by decide) (by decide) .blocks (by decide)
  refine ⟨himage, markUsed smallSuper (smallImage 100 12) .blocks 0 100, ?_, ?_⟩
  · exact smallImage_alloc (by decide) (by decide) .blocks (by decide)
  · exact freeNumber_not_undo .blocks himage (by decide) (by decide) hclear (by decide)

/-! ## The numbers of inodes -/

/-- INTERNAL: the bit that is set is that of the number, if the descriptor is that of the group. -/
theorem bitOfNumber_iff (h : Ext2Image g disk) (hD : D < g.bgdCnt) (hr : r < 8 * g.blockSize)
    (hin : r < g.inodesPerGroup) (hclear : BitmapKind.groupBit g disk .inodes D r = false) {i : ℕ} :
    BitOfNumber g disk (markUsed g disk .inodes D r) (numberOf g .inodes i r) ↔ i = D := by
  have hnumber : numberOf g .inodes i r - 1 = g.inodesPerGroup * i + r := by
    rw [numberOf, Nat.mul_comm]
    rfl
  have hdiv : (numberOf g .inodes i r - 1) / g.inodesPerGroup = i := by
    rw [hnumber, Nat.mul_add_div (by omega), Nat.div_eq_of_lt hin, Nat.add_zero]
  have hmod : (numberOf g .inodes i r - 1) % g.inodesPerGroup = r := by
    rw [hnumber, Nat.mul_add_mod, Nat.mod_eq_of_lt hin]
  rw [BitOfNumber, hdiv, hmod]
  constructor
  · intro hbit
    have hset : BitmapKind.groupBit g (markUsed g disk .inodes D r) .inodes D r = true := by
      rw [markUsed_groupBit h hD hr hD hr]
      simp
    exact ((hbit D r hD hr).mp ⟨hclear, hset⟩).1.symm
  · rintro rfl G r' hG hr'
    rw [markUsed_groupBit h hD hr hG hr']
    constructor
    · rintro ⟨hbefore, hafter⟩
      rw [hbefore, Bool.or_false, decide_eq_true_eq] at hafter
      cases hafter
      exact ⟨rfl, rfl⟩
    · rintro ⟨rfl, rfl⟩
      exact ⟨hclear, by simp⟩

/-- **The numbers of inodes never agree**, for any image and any number that `alloc_inode` returns:
`free_inode` does not restore the device. The bit that is set is that of the number only for the group
`0`, or with one inode in each group.
SRCLINE: kernel/fs/ext2/ext2.cpp:63-96, kernel/fs/ext2/block.cpp:5-10, 54-80 -/
theorem inode_numbers_disagree (g : Ext2Super) (disk disk' : Memory) (k : ℕ) (h : Ext2Image g disk)
    (halloc : ext2AllocInode g disk = (disk', some k)) :
    (BitOfNumber g disk disk' k ↔ (k - 1) / g.inodesPerGroup = 0 ∨ g.inodesPerGroup = 1) ∧
    freeInode g disk' k ≠ disk ∧ ¬ InodeNumbersAgree g disk disk' k := by
  have hipg : 0 < g.inodesPerGroup := h.perGroup_pos .inodes
  rcases allocNumber_cases h .inodes with ⟨-, heq⟩ | ⟨D, r, hD, -, hfound, heq⟩
  · have heq' : ext2AllocInode g disk = (disk, none) := heq
    rw [heq'] at halloc
    cases halloc
  · have heq' : ext2AllocInode g disk = _ := heq
    rw [heq'] at halloc
    cases halloc
    have hle : D ≤ D * g.inodesPerGroup := Nat.le_mul_of_pos_right D hipg
    have hD' : D < g.bgdCnt := by omega
    obtain ⟨hr, hclear⟩ := groupClear_some hfound
    have hin : r < g.inodesPerGroup := clear_lt_perGroup h hD' (by omega) hclear
    have hmod : numberOf g .inodes (D * g.inodesPerGroup) r % g.inodesPerGroup ≤ r + 1 := by
      rw [numberOf, Nat.mul_comm _ g.inodesPerGroup, Nat.mul_add_mod]
      exact Nat.mod_le _ _
    have hnot : freeInode g (markUsed g disk .inodes D r)
        (numberOf g .inodes (D * g.inodesPerGroup) r) ≠ disk :=
      freeNumber_not_undo .inodes h hD' hr hclear hmod
    refine ⟨?_, hnot, fun hagree => hnot hagree.restored⟩
    have hdiv : (numberOf g .inodes (D * g.inodesPerGroup) r - 1) / g.inodesPerGroup =
        D * g.inodesPerGroup := by
      rw [numberOf, show D * g.inodesPerGroup * g.inodesPerGroup + (r + 1) - 1 =
        g.inodesPerGroup * (D * g.inodesPerGroup) + r from by rw [Nat.mul_comm]; rfl,
        Nat.mul_add_div hipg, Nat.div_eq_of_lt hin, Nat.add_zero]
    rw [bitOfNumber_iff h hD' (by omega) hin hclear, hdiv]
    constructor
    · intro hsame
      by_cases hzero : D = 0
      · exact Or.inl (by rw [hzero, Nat.zero_mul])
      · exact Or.inr (Nat.eq_of_mul_eq_mul_left (Nat.pos_of_ne_zero hzero) (by rw [hsame, Nat.mul_one]))
    · rintro (hzero | hone)
      · omega
      · rw [hone, Nat.mul_one]

/-- Inode `13` is free, and is not freed after it was allocated. -/
theorem inode_numbers_disagree_small :
    ¬ InodeNumbersAgree smallSuper (smallImage 100 12)
      (markUsed smallSuper (smallImage 100 12) .inodes 0 12) 13 :=
  (inode_numbers_disagree smallSuper (smallImage 100 12)
    (markUsed smallSuper (smallImage 100 12) .inodes 0 12) 13
    (smallImage_image (by decide) (by decide) (by decide))
    (smallImage_alloc (by decide) (by decide) .inodes (by decide))).2.2

/-- **The number is taken for the bit**: inode `13` has the bit `12`, and freeing it looks at the bit `13`.
SRCLINE: kernel/fs/ext2/ext2.cpp:76-96 -/
theorem freeInode_misses_bit :
    Ext2Image smallSuper (smallImage 100 12) ∧
    ∃ disk', ext2AllocInode smallSuper (smallImage 100 12) = (disk', some 13) ∧
      freeInode smallSuper disk' 13 ≠ smallImage 100 12 := by
  have himage : Ext2Image smallSuper (smallImage 100 12) :=
    smallImage_image (by decide) (by decide) (by decide)
  have hclear : BitmapKind.groupBit smallSuper (smallImage 100 12) .inodes 0 12 = false :=
    smallImage_groupBit (by decide) (by decide) .inodes (by decide)
  refine ⟨himage, markUsed smallSuper (smallImage 100 12) .inodes 0 12, ?_, ?_⟩
  · exact smallImage_alloc (by decide) (by decide) .inodes (by decide)
  · exact freeNumber_not_undo .inodes himage (by decide) (by decide) hclear (by decide)

end CrepOS.Analysis
