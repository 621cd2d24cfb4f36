import CrepOS.Analysis.Ext2Alloc
import CrepOS.Interface.Ext2Groups

/-!
# Addressing block group descriptors

The index of a group is divided by `inodes_per_group` before it is used, as if it were the number of an inode. So all
groups below `inodes_per_group` have the first descriptor, and groups are addressed as they should be only if there is
one group, or one inode in each.
-/

set_option autoImplicit false

namespace CrepOS.Analysis

open CrepOS.Library CrepOS.Model CrepOS.Interface

variable {g : Ext2Super} {G H : ℕ} {disk raw : Memory}

/-- INTERNAL: a descriptor that is found where it should be. -/
theorem addressed_at (hG : bgdPos g G = groupPos g G) (hothers : ∀ H < g.bgdCnt, bgdPos g H = groupPos g H) :
    DescriptorAddressed g G where
  reads disk := by rw [readBgd, hG]
  writes disk raw := by rw [bgdWriteBack, hG]
  others disk raw H hH hne := by
    rw [bgdWriteBack, readBgd, readBgd, hG, hothers H hH]
    funext k
    by_cases hk : k < rawBgdSize
    · rw [Memory.load_of_lt hk, Memory.load_of_lt hk]
      apply Memory.store_outside
      cases Nat.lt_or_gt_of_ne hne with
      | inl hlt =>
        have hapart := @groupPos_apart g H G hlt
        omega
      | inr hlt =>
        have hapart := @groupPos_apart g G H hlt
        omega
    · rw [Memory.load, Memory.load, if_neg hk, if_neg hk]
  itself disk raw := by
    rw [bgdWriteBack, readBgd, hG]
    funext k
    by_cases hk : k < rawBgdSize
    · rw [Memory.load_of_lt hk, Memory.load_of_lt hk, Memory.store_inside hk, Nat.zero_add]
    · rw [Memory.load, Memory.load, if_neg hk, if_neg hk]

/-- INTERNAL: a read that begins elsewhere differs on some device. -/
theorem read_elsewhere {a b : ℕ} (hne : a ≠ b) : ∃ disk : Memory, disk.load a rawBgdSize ≠ disk.load b rawBgdSize := by
  refine ⟨Function.update (fun _ => 0) b 1, fun heq => ?_⟩
  have hfirst := congrFun heq 0
  rw [Memory.load_of_lt (by decide), Memory.load_of_lt (by decide), Nat.add_zero, Nat.add_zero, Function.update_self,
    Function.update_of_ne hne] at hfirst
  exact absurd hfirst (by decide)

/-- INTERNAL: two groups with one descriptor overwrite each other's. -/
theorem shared_overwritten (h : bgdPos g H = bgdPos g G) :
    ∃ disk raw, readBgd g (bgdWriteBack g disk G raw) H ≠ readBgd g disk H := by
  refine ⟨fun _ => 0, fun _ => 1, fun heq => ?_⟩
  have hfirst := congrFun heq 0
  rw [readBgd, readBgd, Memory.load_of_lt (by decide), Memory.load_of_lt (by decide), bgdWriteBack, h,
    Memory.store_inside (by decide)] at hfirst
  exact absurd hfirst (by decide)

/-- **The descriptor of a group is addressed if and only if there is one inode in each group, or one group.**
SRCLINE: kernel/fs/ext2/block.cpp:5-24 -/
theorem descriptorAddressed_iff (hinodes : 1 ≤ g.inodesPerGroup) (hG : G < g.bgdCnt) :
    DescriptorAddressed g G ↔ g.inodesPerGroup = 1 ∨ g.bgdCnt = 1 := by
  constructor
  · intro haddressed
    by_contra hmany
    have hsecond : 1 / g.inodesPerGroup = 0 := Nat.div_eq_of_lt (by omega)
    by_cases hfirst : G = 0
    · -- the second group has the first descriptor
      obtain ⟨disk, raw, hlost⟩ := @shared_overwritten g G 1 (by rw [bgdPos_eq, bgdPos_eq, hsecond, hfirst, Nat.zero_div])
      exact hlost (haddressed.others disk raw 1 (by omega) (by omega))
    · have hless : G / g.inodesPerGroup < G := Nat.div_lt_self (by omega) (by omega)
      have hapart : groupPos g (G / g.inodesPerGroup) < groupPos g G :=
        Nat.lt_of_lt_of_le (Nat.lt_add_of_pos_right (by decide)) (groupPos_apart hless)
      obtain ⟨disk, hdiffer⟩ := @read_elsewhere (bgdPos g G) (groupPos g G) (by rw [bgdPos_eq]; exact Nat.ne_of_lt hapart)
      exact hdiffer (haddressed.reads disk)
  · intro h
    have hpos : ∀ H < g.bgdCnt, bgdPos g H = groupPos g H := by
      intro H hH
      rw [bgdPos_eq]
      cases h with
      | inl hone => rw [hone, Nat.div_one]
      | inr hone => rw [show H = 0 by omega, Nat.zero_div]
    exact addressed_at (hpos G hG) hpos

/-- The only group of a small image. -/
theorem smallSuper_addressed_iff :
    DescriptorAddressed smallSuper 0 ↔ smallSuper.inodesPerGroup = 1 ∨ smallSuper.bgdCnt = 1 :=
  descriptorAddressed_iff (by decide) (by decide)

/-- With two groups of 32 inodes the second one is read from the descriptor of the first. -/
theorem second_group_aliased : ¬ ∀ (g : Ext2Super) (G : ℕ), 1 ≤ g.inodesPerGroup → G < g.bgdCnt → DescriptorAddressed g G := by
  intro h
  have hreads := (h ⟨512, 1024, 8192, 32, 128, 2⟩ 1 (by decide) (by decide)).reads (Function.update (fun _ => 0) 2080 1)
  exact absurd (congrFun hreads 0) (by decide)

end CrepOS.Analysis
