import CrepOS.Analysis.Ext2Free
import CrepOS.Interface.FreeCounts
import Mathlib.Algebra.Order.BigOperators.Group.Finset

/-!
# Free counts

No function writes the totals of the superblock, so they are wrong after every allocation that succeeds; and a free
raises the count of a descriptor whose bitmap it does not change. The counts agree throughout a run if and only if no
call of it changes anything.
-/

set_option autoImplicit false

namespace CrepOS.Analysis

open CrepOS.Library CrepOS.Model CrepOS.Interface

variable {g : Ext2Super} {disk : Memory} {kind : BitmapKind} {D G r index : ℕ}

/-! ## Allocating -/

/-- INTERNAL: an allocation that finds nothing changes nothing, and only that one.
SRCLINE: kernel/fs/ext2/ext2.cpp:28-39, 63-74 -/
theorem allocNumber_idle_or (h : Ext2Image g disk) (kind : BitmapKind) :
    (CountCall.NothingFree g disk kind ∧ (allocNumber g kind disk).1 = disk) ∨
    (¬ CountCall.NothingFree g disk kind ∧ ∃ D r, D < g.bgdCnt ∧ r < 8 * g.blockSize ∧
      kind.groupBit g disk D r = false ∧ (allocNumber g kind disk).1 = markUsed g disk kind D r) := by
  have hipg : 0 < g.inodesPerGroup := h.perGroup_pos .inodes
  cases allocNumber_cases h kind with
  | inl hnothing =>
    obtain ⟨hnone, heq⟩ := hnothing
    refine Or.inl ⟨fun i hi => Or.inr ?_, by rw [heq]⟩
    have hle : i / g.inodesPerGroup * g.inodesPerGroup ≤ i := Nat.div_mul_le_self i g.inodesPerGroup
    exact groupClear_eq_none_iff.mp (hnone _ (by omega))
  | inr hsome =>
    obtain ⟨D, r, hD, _, hfound, heq⟩ := hsome
    obtain ⟨hr, hclear⟩ := groupClear_some hfound
    have hle : D ≤ D * g.inodesPerGroup := Nat.le_mul_of_pos_right D hipg
    have hD' : D < g.bgdCnt := by omega
    have hr' : r < 8 * g.blockSize := by omega
    refine Or.inr ⟨fun hnothing => ?_, D, r, hD', hr', hclear, by rw [heq]⟩
    have hD'' := hnothing _ hD
    rw [Nat.mul_div_cancel D hipg] at hD''
    cases hD'' with
    | inl hzero =>
      have hpos := freeCount_pos h hD' hr' hclear
      omega
    | inr hset =>
      rw [hset r hr] at hclear
      cases hclear

/-- INTERNAL: the superblock is in front of the descriptors. -/
theorem superTotal_before (g : Ext2Super) (kind : BitmapKind) (h : 1024 ≤ g.blockSize) (D : ℕ) :
    1024 + kind.totalAt + 4 ≤ groupPos g D := by
  unfold groupPos bgdTable
  cases kind with
  | blocks =>
    simp only [BitmapKind.totalAt]
    split <;> omega
  | inodes =>
    simp only [BitmapKind.totalAt]
    split <;> omega

/-- INTERNAL: an allocation does not change the superblock.
SRCLINE: kernel/fs/ext2/block.cpp:38-45, 66-73 -/
theorem markUsed_superTotal (h : Ext2Image g disk) (hD : D < g.bgdCnt) (kind' : BitmapKind) :
    superTotal (markUsed g disk kind D r) kind' = superTotal disk kind' := by
  have htable := superTotal_before g kind' h.blockSize D
  have hend := superTotal_before g kind' h.blockSize g.bgdCnt
  have hbehind := h.behind kind D hD
  unfold superTotal
  rw [markUsed, Memory.word_setWord_outside (by omega), Memory.word_setBit_outside (by omega)]

/-- INTERNAL: after an allocation the total of the superblock is too large.
SRCLINE: kernel/fs/ext2/block.cpp:26-80 -/
theorem markUsed_disagrees (h : Ext2Image g disk) (hagree : CountsAgree g disk) (hD : D < g.bgdCnt)
    (hr : r < 8 * g.blockSize) (hclear : kind.groupBit g disk D r = false) :
    ¬ CountsAgree g (markUsed g disk kind D r) := by
  intro hafter
  have hpos := freeCount_pos h hD hr hclear
  have hless : ∑ G ∈ Finset.range g.bgdCnt, kind.freeCount g (markUsed g disk kind D r) G <
      ∑ G ∈ Finset.range g.bgdCnt, kind.freeCount g disk G := by
    apply Finset.sum_lt_sum
    · intro G hG
      by_cases hsame : G = D
      · rw [hsame, markUsed_freeCount]
        exact Nat.sub_le _ 1
      · exact Nat.le_of_eq (markUsed_freeCount_other h hD (Finset.mem_range.mp hG) fun heq => hsame (Prod.mk.inj heq).2)
    · refine ⟨D, Finset.mem_range.mpr hD, ?_⟩
      rw [markUsed_freeCount]
      omega
  rw [← hafter.totals kind, ← hagree.totals kind, markUsed_superTotal h hD] at hless
  exact Nat.lt_irrefl _ hless

/-! ## Freeing -/

/-- INTERNAL: as an offset, the number of a bitmap block is at least a block before the bitmap. -/
theorem bitmapBlock_before (kind : BitmapKind) (h : Ext2Image g disk) (hG : G < g.bgdCnt) :
    kind.bitmapBlock g disk G + g.blockSize ≤ kind.bitmapPos g disk G := by
  have hbehind := h.behind kind G hG
  have hbs := h.blockSize
  have htable : g.blockSize < groupPos g g.bgdCnt := by
    have hgroups := h.groups
    unfold groupPos bgdTable rawBgdSize
    split <;> omega
  unfold BitmapKind.bitmapPos at hbehind ⊢
  generalize kind.bitmapBlock g disk G = n at hbehind ⊢
  have hn : 1 < n := by
    by_contra hno
    have hle : n * g.blockSize ≤ 1 * g.blockSize := Nat.mul_le_mul_right g.blockSize (Nat.le_of_not_lt hno)
    omega
  obtain ⟨k, rfl⟩ : ∃ k, n = k + 2 := ⟨n - 2, by omega⟩
  have hk : k * 1 ≤ k * g.blockSize := Nat.mul_le_mul_left k (by omega)
  rw [Nat.add_mul]
  omega

/-- INTERNAL: a free that clears a bit raises the count of a descriptor, whose bitmap it does not change.
SRCLINE: kernel/fs/ext2/ext2.cpp:41-61, 76-96 -/
theorem freeNumber_disagrees (h : Ext2Image g disk) (hD : freeGroup g kind index < g.bgdCnt)
    (hmarked : ¬ CountCall.NotMarked g disk kind index) : ¬ CountsAgree g (freeNumber g kind disk index) := by
  intro hafter
  have hwords := descriptor_words kind kind
  have hbit : disk.bit (kind.bitmapBlock g disk (freeGroup g kind index)) (index % kind.perGroup g) = true := by
    by_contra hno
    exact hmarked (Bool.eq_false_iff.mpr hno)
  have hbehind := h.behind kind _ hD
  have hinside := groupPos_inside (g := g) hD
  have hbefore := bitmapBlock_before kind h hD
  have hindex : index % kind.perGroup g < kind.perGroup g := Nat.mod_lt _ (h.perGroup_pos kind)
  have hle := h.perGroup_le kind
  have heq := @freeNumber_eq g disk kind index hle (h.perGroup_pos kind)
  rw [if_pos hbit] at heq
  have hdescriptor : ∀ k n, k + n ≤ rawBgdSize →
      (freeNumber g kind disk index).word (groupPos g (freeGroup g kind index) + k) n =
        ((disk.load (groupPos g (freeGroup g kind index)) rawBgdSize).setWord kind.countAt 2
          (kind.freeCount g disk (freeGroup g kind index) + 1)).word k n := by
    intro k n hk
    apply Memory.word_congr
    intro i hi
    rw [heq, Nat.add_assoc, Memory.store_inside (by omega)]
  have hcount : kind.freeCount g (freeNumber g kind disk index) (freeGroup g kind index) =
      (kind.freeCount g disk (freeGroup g kind index) + 1) % 256 ^ 2 := by
    refine (hdescriptor kind.countAt 2 hwords.2).trans ?_
    rw [Memory.word_setWord]
  have hblock : kind.bitmapBlock g (freeNumber g kind disk index) (freeGroup g kind index) =
      kind.bitmapBlock g disk (freeGroup g kind index) := by
    refine (hdescriptor kind.bitmapAt 4 (by omega)).trans ?_
    rw [Memory.word_setWord_outside (by omega), Memory.word_load (by omega)]
    rfl
  have hpos : kind.bitmapPos g (freeNumber g kind disk index) (freeGroup g kind index) =
      kind.bitmapPos g disk (freeGroup g kind index) := by
    rw [BitmapKind.bitmapPos, hblock, BitmapKind.bitmapPos]
  have hbits : (freeNumber g kind disk index).countBits
      (kind.bitmapPos g disk (freeGroup g kind index)) (kind.perGroup g) =
      disk.countBits (kind.bitmapPos g disk (freeGroup g kind index)) (kind.perGroup g) := by
    apply Memory.countBits_congr
    intro j hj
    apply Memory.bit_congr
    apply freeNumber_outside h
    · omega
    · omega
  have hagree := hafter.groups kind _ hD
  rw [hpos, hbits, hcount] at hagree
  have hbefore := h.counted kind _ hD
  have hlt : kind.freeCount g disk (freeGroup g kind index) < 256 ^ 2 := Memory.word_lt
  omega

/-- INTERNAL: a free of a number that counts as free changes nothing.
SRCLINE: kernel/fs/ext2/ext2.cpp:48-51, 83-86 -/
theorem freeNumber_idle (h : Ext2Image g disk) (hmarked : CountCall.NotMarked g disk kind index) :
    freeNumber g kind disk index = disk := by
  rw [freeNumber_eq (h.perGroup_le kind) (h.perGroup_pos kind), if_neg]
  exact Bool.eq_false_iff.mp hmarked

/-! ## Runs -/

/-- INTERNAL: a call that meets the condition changes nothing. -/
theorem exec_idle (h : Ext2Image g disk) {call : CountCall} (hidle : call.Idle g disk) : call.exec g disk = disk := by
  have halloc : ∀ kind, CountCall.NothingFree g disk kind → (allocNumber g kind disk).1 = disk := by
    intro kind hnothing
    cases allocNumber_idle_or h kind with
    | inl hsame => exact hsame.2
    | inr hchanged => exact absurd hnothing hchanged.1
  cases call with
  | allocBlock => exact halloc .blocks hidle
  | freeBlock block => exact @freeNumber_idle g disk .blocks _ h hidle
  | allocInode => exact halloc .inodes hidle
  | freeInode inodeIndex => exact @freeNumber_idle g disk .inodes _ h hidle

/-- **One call**: the counts agree after it if and only if it meets the condition.
SRCLINE: kernel/fs/ext2/ext2.cpp:28-96 -/
theorem exec_agrees_iff (h : Ext2Image g disk) (hagree : CountsAgree g disk) {call : CountCall}
    (hrange : call.InRange g) : CountsAgree g (call.exec g disk) ↔ call.Idle g disk := by
  refine ⟨fun hafter => ?_, fun hidle => by rw [exec_idle h hidle]; exact hagree⟩
  have halloc : ∀ kind, CountsAgree g (allocNumber g kind disk).1 → CountCall.NothingFree g disk kind := by
    intro kind hkind
    cases allocNumber_idle_or h kind with
    | inl hsame => exact hsame.1
    | inr hchanged =>
      obtain ⟨_, D, r, hD, hr, hclear, heq⟩ := hchanged
      rw [heq] at hkind
      exact absurd hkind (markUsed_disagrees h hagree hD hr hclear)
  have hfree : ∀ kind index, freeGroup g kind index < g.bgdCnt → CountsAgree g (freeNumber g kind disk index) →
      CountCall.NotMarked g disk kind index := by
    intro kind index hD hkind
    by_contra hmarked
    exact freeNumber_disagrees h hD hmarked hkind
  cases call with
  | allocBlock => exact halloc .blocks hafter
  | freeBlock block => exact hfree .blocks block hrange hafter
  | allocInode => exact halloc .inodes hafter
  | freeInode inodeIndex => exact hfree .inodes inodeIndex hrange hafter

/-- **The counts agree throughout a run if every call meets the condition**; and if the numbers that are freed are
those of the image, only then. The inductions are on the calls.
SRCLINE: kernel/fs/ext2/ext2.cpp:28-96 -/
theorem freeCounts_agree (h : Ext2Image g disk) (hagree : CountsAgree g disk) (calls : List CountCall) :
    (IdleThroughout g calls disk → CountsAgreeThroughout g calls disk) ∧
      ((∀ call ∈ calls, call.InRange g) → CountsAgreeThroughout g calls disk → IdleThroughout g calls disk) := by
  induction calls with
  | nil => exact ⟨fun _ => hagree, fun _ _ => trivial⟩
  | cons call calls ih =>
    constructor
    · rintro ⟨hidle, hrest⟩
      rw [exec_idle h hidle] at hrest
      refine ⟨hagree, ?_⟩
      rw [exec_idle h hidle]
      exact ih.1 hrest
    · rintro hrange ⟨_, hrest⟩
      have hnow : CountsAgree g (call.exec g disk) := by
        cases calls with
        | nil => exact hrest
        | cons call' calls => exact hrest.1
      have hidle := (exec_agrees_iff h hagree (hrange call List.mem_cons_self)).mp hnow
      rw [exec_idle h hidle] at hrest
      refine ⟨hidle, ?_⟩
      rw [exec_idle h hidle]
      exact ih.2 (fun call' hmem => hrange call' (List.mem_cons_of_mem call hmem)) hrest

/-! ## A small image -/

/-- INTERNAL: what is before the descriptors does not matter for the groups. -/
theorem ext2Image_congr {disk' : Memory} (h : Ext2Image g disk) (hsame : ∀ x, bgdTable g ≤ x → disk' x = disk x) :
    Ext2Image g disk' ∧
      (∀ kind G, BitmapKind.freeCount g disk' kind G = BitmapKind.freeCount g disk kind G) ∧
      ∀ kind G, G < g.bgdCnt → ∀ r,
        BitmapKind.groupBit g disk' kind G r = BitmapKind.groupBit g disk kind G r := by
  have htable : ∀ G, bgdTable g ≤ groupPos g G := fun G => Nat.le_add_right _ _
  have hword : ∀ G k n, disk'.word (groupPos g G + k) n = disk.word (groupPos g G + k) n := by
    intro G k n
    apply Memory.word_congr
    intro i _
    have hG := htable G
    exact hsame _ (by omega)
  have hpos : ∀ kind G, BitmapKind.bitmapPos g disk' kind G = BitmapKind.bitmapPos g disk kind G := by
    intro kind G
    rw [BitmapKind.bitmapPos, BitmapKind.bitmapBlock, hword]
    rfl
  have hcount : ∀ kind G, BitmapKind.freeCount g disk' kind G = BitmapKind.freeCount g disk kind G :=
    fun kind G => hword G _ 2
  have hbit : ∀ kind G, G < g.bgdCnt → ∀ r, disk'.bit (BitmapKind.bitmapPos g disk kind G) r =
      disk.bit (BitmapKind.bitmapPos g disk kind G) r := by
    intro kind G hG r
    apply Memory.bit_congr
    have hbehind := h.behind kind G hG
    have hend := htable g.bgdCnt
    exact hsame _ (by omega)
  have hgroupBit : ∀ kind G, G < g.bgdCnt → ∀ r,
      BitmapKind.groupBit g disk' kind G r = BitmapKind.groupBit g disk kind G r := by
    intro kind G hG r
    rw [BitmapKind.groupBit, hpos, hbit kind G hG, BitmapKind.groupBit]
  refine ⟨⟨h.blockSize, h.groups, h.perGroup_pos, h.perGroup_le, h.numbers, ?_, ?_, ?_, ?_⟩, hcount, hgroupBit⟩
  · intro kind G hG
    rw [hpos]
    exact h.behind kind G hG
  · intro kind G kind' G' hG hG' heq
    rw [hpos, hpos] at heq
    exact h.apart kind G kind' G' hG hG' heq
  · intro kind G hG
    rw [hpos, hcount, Memory.countBits_congr fun r _ => hbit kind G hG r]
    exact h.counted kind G hG
  · intro kind G r hG hlow hhigh
    rw [hgroupBit kind G hG]
    exact h.padding kind G r hG hlow hhigh

/-- One block and one inode are free, and the superblock says so. -/
def countedImage : Memory := ((smallImage 100 12).setWord 1036 4 1).setWord 1040 4 1

/-- INTERNAL: its groups are those of `smallImage`. -/
theorem countedImage_image : Ext2Image smallSuper countedImage ∧
    (∀ kind G, BitmapKind.freeCount smallSuper countedImage kind G =
      BitmapKind.freeCount smallSuper (smallImage 100 12) kind G) ∧
    ∀ kind G, G < smallSuper.bgdCnt → ∀ r, BitmapKind.groupBit smallSuper countedImage kind G r =
      BitmapKind.groupBit smallSuper (smallImage 100 12) kind G r := by
  apply ext2Image_congr (smallImage_image (by decide) (by decide) (by decide))
  intro x hx
  have hx' : 2048 ≤ x := hx
  rw [countedImage, Memory.setWord_outside (by omega), Memory.setWord_outside (by omega)]

theorem countedImage_agrees : CountsAgree smallSuper countedImage := by
  refine ⟨countedImage_image.1.counted, fun kind => ?_⟩
  have hsum : ∑ G ∈ Finset.range smallSuper.bgdCnt, BitmapKind.freeCount smallSuper countedImage kind G = 1 := by
    rw [show smallSuper.bgdCnt = 1 from rfl, Finset.sum_range_one, countedImage_image.2.1,
      smallImage_freeCount (by decide) (by decide)]
  rw [hsum, superTotal, countedImage]
  cases kind with
  | blocks =>
    rw [Memory.word_setWord_outside (by decide)]
    exact Memory.word_setWord_of_lt (by decide)
  | inodes => exact Memory.word_setWord_of_lt (by decide)

theorem countedImage_freeCounts :
    (IdleThroughout smallSuper [.allocBlock, .freeInode 3] countedImage →
      CountsAgreeThroughout smallSuper [.allocBlock, .freeInode 3] countedImage) ∧
    ((∀ call ∈ [CountCall.allocBlock, .freeInode 3], call.InRange smallSuper) →
      CountsAgreeThroughout smallSuper [.allocBlock, .freeInode 3] countedImage →
      IdleThroughout smallSuper [.allocBlock, .freeInode 3] countedImage) :=
  freeCounts_agree countedImage_image.1 countedImage_agrees [.allocBlock, .freeInode 3]

/-- The block `100` is allocated, and the superblock still counts it as free. -/
theorem total_not_updated : ¬ ∀ (g : Ext2Super) (disk : Memory) (calls : List CountCall),
    Ext2Image g disk → CountsAgree g disk → CountsAgreeThroughout g calls disk := by
  intro h
  obtain ⟨himage, hcount, hbits⟩ := countedImage_image
  have hafter := (h smallSuper countedImage [.allocBlock] himage countedImage_agrees).2
  have hidle := (@exec_agrees_iff _ _ himage countedImage_agrees .allocBlock trivial).mp hafter
  have hbit : BitmapKind.groupBit smallSuper countedImage .blocks 0 100 = false := by
    rw [hbits .blocks 0 (by decide), smallImage_groupBit (by decide) (by decide) .blocks (by decide)]
    rfl
  cases hidle 0 (by decide) with
  | inl hzero =>
    rw [hcount, Nat.zero_div, smallImage_freeCount (by decide) (by decide)] at hzero
    cases hzero
  | inr hset =>
    rw [Nat.zero_div] at hset
    rw [hset 100 (by decide)] at hbit
    cases hbit

end CrepOS.Analysis
