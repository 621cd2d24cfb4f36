import CrepOS.Analysis.Ext2Meta
import CrepOS.Analysis.Ext2SetBlock

/-!
# `resize`

The loop of `resize` allocates a block and sets it, again and again. If all indirect blocks are there, `set_block` writes
an entry of a doubly indirect block, or a member of the inode, or nothing; these are not read by the allocator, nor on the
way to the other blocks of the file. So what the loop leaves is what the allocations leave, with the entries written
(`addBlocks_ready`), and the blocks of the file are known afterwards (`blockAt_grown`).
-/

set_option autoImplicit false

namespace CrepOS.Analysis

open CrepOS.Library CrepOS.Model CrepOS.Interface

variable {g : Ext2Super} {disk disk' used : Memory} {ino ino' : Inode} {i j n m e x : ℕ} {ks bs : List ℕ}
  {ws : List (ℕ × ℕ)}

/-! ## The ways to the logical blocks -/

theorem blockPath_direct (hi : i < 12) : blockPath n i = (i, []) := if_pos hi

/-- INTERNAL: the root of an indirect block. -/
theorem blockPath_indirect (hi : 12 ≤ i) : 12 ≤ (blockPath n i).1 := by
  unfold blockPath
  rw [if_neg (by omega)]
  by_cases hsingle : i - 12 < n
  · rw [if_pos hsingle]
  · rw [if_neg hsingle]
    by_cases hdouble : i - 12 - n < n ^ 2
    · rw [if_pos hdouble]
      exact Nat.le_succ 12
    · rw [if_neg hdouble]
      exact Nat.le_add_right 12 2

/-- INTERNAL: the way to a doubly indirect block. -/
theorem blockPath_double (h : (blockPath n i).1 = 13) : 12 + n ≤ i ∧ i - 12 - n < n ^ 2 ∧
    (blockPath n i).2 = [(i - 12 - n) / n, (i - 12 - n) % n] := by
  unfold blockPath at h ⊢
  by_cases hdirect : i < 12
  · rw [if_pos hdirect] at h
    dsimp only at h
    omega
  · rw [if_neg hdirect] at h ⊢
    by_cases hsingle : i - 12 < n
    · rw [if_pos hsingle] at h
      cases h
    · rw [if_neg hsingle] at h ⊢
      by_cases hdouble : i - 12 - n < n ^ 2
      · rw [if_pos hdouble]
        exact ⟨by omega, hdouble, rfl⟩
      · rw [if_neg hdouble] at h
        cases h

/-- INTERNAL: a singly indirect block. -/
theorem single_range (h : (blockPath n i).1 = 12) : i - 12 < n := by
  unfold blockPath at h
  by_cases hdirect : i < 12
  · rw [if_pos hdirect] at h
    dsimp only at h
    omega
  · rw [if_neg hdirect] at h
    by_contra hno
    rw [if_neg hno] at h
    by_cases hdouble : i - 12 - n < n ^ 2
    · rw [if_pos hdouble] at h
      cases h
    · rw [if_neg hdouble] at h
      cases h

/-- INTERNAL: entries are in their blocks. -/
theorem blockPath_lt (hn : 0 < n) (hi : i < fileCapacity n) {k : ℕ} (hk : k ∈ (blockPath n i).2) : k < n := by
  unfold blockPath at hk
  by_cases hdirect : i < 12
  · rw [if_pos hdirect] at hk
    cases hk
  · rw [if_neg hdirect] at hk
    by_cases hsingle : i - 12 < n
    · rw [if_pos hsingle] at hk
      exact List.mem_singleton.mp hk ▸ hsingle
    · rw [if_neg hsingle] at hk
      have hmod := fun y => Nat.mod_lt y hn
      by_cases hdouble : i - 12 - n < n ^ 2
      · rw [if_pos hdouble] at hk
        cases List.mem_cons.mp hk with
        | inl hfirst => exact hfirst ▸ (double_iff hn).mpr hdouble
        | inr hsecond => exact List.mem_singleton.mp hsecond ▸ hmod _
      · rw [if_neg hdouble] at hk
        have hlt : i - 12 - n - n ^ 2 < n ^ 3 := by
          unfold fileCapacity at hi
          omega
        cases List.mem_cons.mp hk with
        | inl hfirst =>
          rw [hfirst, Nat.div_lt_iff_lt_mul (Nat.pow_pos hn), ← pow_succ']
          exact hlt
        | inr hrest =>
          cases List.mem_cons.mp hrest with
          | inl hsecond => exact hsecond ▸ hmod _
          | inr hthird => exact List.mem_singleton.mp hthird ▸ hmod _

/-- INTERNAL: a way leads to one block. -/
theorem blockPath_injective (h : (blockPath n i).1 < 14) (h12 : (blockPath n i).1 ≠ 12) (heq : blockPath n i = blockPath n j) :
    i = j := by
  by_cases hi : i < 12
  · by_cases hj : j < 12
    · rw [blockPath_direct hi, blockPath_direct hj] at heq
      exact congrArg Prod.fst heq
    · have hroot := blockPath_indirect (n := n) (Nat.le_of_not_lt hj)
      rw [← heq, blockPath_direct hi] at hroot
      dsimp only at hroot
      omega
  · have hroot := blockPath_indirect (n := n) (Nat.le_of_not_lt hi)
    obtain ⟨hlow, _, hpath⟩ := blockPath_double (show (blockPath n i).1 = 13 by omega)
    obtain ⟨hlow', _, hpath'⟩ := blockPath_double (show (blockPath n j).1 = 13 by rw [← heq]; omega)
    rw [heq, hpath'] at hpath
    obtain ⟨hdiv, hmod⟩ := List.cons_eq_cons.mp hpath
    have hdecomp := Nat.div_add_mod (i - 12 - n) n
    have hdecomp' := Nat.div_add_mod (j - 12 - n) n
    rw [← hdiv, ← List.singleton_inj.mp hmod] at hdecomp
    omega

/-! ## Entries of the file -/

/-- The entry `e` of the indirect block `x`, to which `ks` leads from `blocks[m]`, is one of the file. -/
structure FileEntry (g : Ext2Super) (disk : Memory) (ino : Inode) (m : ℕ) (ks : List ℕ) (e x : ℕ) : Prop where
  way : ∃ i < fileCapacity (g.blockSize / 4), (blockPath (g.blockSize / 4) i).1 = m ∧
    ks ++ [e] <+: (blockPath (g.blockSize / 4) i).2
  block : pointer g disk (ino.blocks m) ks = some x

/-- Where the entry is. -/
def entryAt (g : Ext2Super) (x e : ℕ) : ℕ := x * g.blockSize + 4 * e

theorem FileEntry.uses (h : FileEntry g disk ino m ks e x) : UsesAt g disk ino m ks x := by
  obtain ⟨i, hi, hm, hprefix⟩ := h.way
  exact ⟨i, hi, hm, (List.prefix_append ks [e]).trans hprefix, h.block⟩

theorem FileEntry.inside (h : FileEntry g disk ino m ks e x) (hbs : 1024 ≤ g.blockSize) : 4 * e + 4 ≤ g.blockSize := by
  obtain ⟨i, hi, _, hprefix⟩ := h.way
  have hmem : e ∈ (blockPath (g.blockSize / 4) i).2 := hprefix.subset (List.mem_append_right ks List.mem_cons_self)
  have hlt := blockPath_lt (by omega) hi hmem
  omega

/-- **Two entries** are the same, or apart. -/
theorem FileEntry.apart {m' e' x' : ℕ} {ks' : List ℕ} (htree : FileTree g disk ino) (hbs : 1024 ≤ g.blockSize)
    (h : FileEntry g disk ino m ks e x) (h' : FileEntry g disk ino m' ks' e' x') (hne : (m, ks ++ [e]) ≠ (m', ks' ++ [e'])) :
    entryAt g x e + 4 ≤ entryAt g x' e' ∨ entryAt g x' e' + 4 ≤ entryAt g x e := by
  have hin := h.inside hbs
  have hin' := h'.inside hbs
  unfold entryAt
  cases Nat.lt_trichotomy x x' with
  | inl hlt =>
    have hle := Nat.mul_le_mul_right g.blockSize (Nat.succ_le_of_lt hlt)
    rw [Nat.succ_mul] at hle
    omega
  | inr hge =>
    cases hge with
    | inl heq =>
      subst heq
      obtain ⟨rfl, rfl⟩ := htree m ks m' ks' x h.uses h'.uses
      have hee : e ≠ e' := fun hee => hne (hee ▸ rfl)
      omega
    | inr hgt =>
      have hle := Nat.mul_le_mul_right g.blockSize (Nat.succ_le_of_lt hgt)
      rw [Nat.succ_mul] at hle
      omega

/-- An entry shares no byte with the metadata and the inode. -/
theorem FileEntry.placed (hplaced : FilePlaced g disk ino) (h : FileEntry g disk ino m ks e x) {k : ℕ} (hk : k < 4) :
    ¬ MetaByte g disk (entryAt g x e + k) ∧ (entryAt g x e + k < inodePos g disk ino.index ∨
      inodePos g disk ino.index + rawInodeSize ≤ entryAt g x e + k) := by
  have hin := h.inside hplaced.image.blockSize
  have hblock := hplaced.blocks m ks x h.uses (4 * e + k) (by omega)
  rw [← Nat.add_assoc] at hblock
  exact hblock

/-- **A way depends only on the entries along it.** -/
theorem pointer_congr {b : ℕ} (h : ∀ ks' e x, ks' ++ [e] <+: ks → pointer g disk b ks' = some x →
    disk'.word (entryAt g x e) 4 = disk.word (entryAt g x e) 4) : pointer g disk' b ks = pointer g disk b ks := by
  induction ks generalizing b with
  | nil => rfl
  | cons k ks ih =>
    by_cases hb : b = 0
    · rw [hb, pointer_zero, pointer_zero]
    · have hfirst := h [] k b (List.cons_prefix_cons.mpr ⟨rfl, List.nil_prefix⟩) (pointer_nil hb)
      rw [entryAt] at hfirst
      rw [pointer_cons hb, pointer_cons hb, hfirst]
      refine ih fun ks' e x hprefix hpointer => h (k :: ks') e x ?_ ?_
      · exact List.cons_prefix_cons.mpr ⟨rfl, hprefix⟩
      · rw [pointer_cons hb]
        exact hpointer

/-! ## Entries that are written -/

/-- The two entries on the way to a doubly indirect block. -/
def firstEntry (g : Ext2Super) (i : ℕ) : ℕ := (i - 12 - g.blockSize / 4) / (g.blockSize / 4)

/-- The last of the two. -/
def lastEntry (g : Ext2Super) (i : ℕ) : ℕ := (i - 12 - g.blockSize / 4) % (g.blockSize / 4)

/-- The block with the last entry. -/
def leafBlock (g : Ext2Super) (disk : Memory) (ino : Inode) (i : ℕ) : ℕ :=
  disk.word (entryAt g (ino.blocks 13) (firstEntry g i)) 4

/-- Where the last entry is. -/
def leafPlace (g : Ext2Super) (disk : Memory) (ino : Inode) (i : ℕ) : ℕ :=
  entryAt g (leafBlock g disk ino i) (lastEntry g i)

/-- The way leads through `blocks[13]`. -/
def IsDouble (g : Ext2Super) (i : ℕ) : Prop := (blockPath (g.blockSize / 4) i).1 = 13

instance (g : Ext2Super) (i : ℕ) : Decidable (IsDouble g i) := inferInstanceAs (Decidable (_ = _))

/-- INTERNAL: the two entries are entries of the file. -/
theorem leaf_entries (hbs : 1024 ≤ g.blockSize) (hready : SlotReady g disk ino i) (hdouble : IsDouble g i) :
    ino.blocks 13 ≠ 0 ∧ leafBlock g disk ino i ≠ 0 ∧ FileEntry g disk ino 13 [] (firstEntry g i) (ino.blocks 13) ∧
      FileEntry g disk ino 13 [firstEntry g i] (lastEntry g i) (leafBlock g disk ino i) ∧
      blockPath (g.blockSize / 4) i = (13, [firstEntry g i, lastEntry g i]) := by
  obtain ⟨hlow, hrange, hpath⟩ := blockPath_double hdouble
  have hcap : i < fileCapacity (g.blockSize / 4) := by
    unfold fileCapacity
    omega
  have hready := (hready.resolve_left (by omega)).2
  rw [hdouble, hpath] at hready
  change pointer g disk (ino.blocks 13) [firstEntry g i] ≠ none at hready
  have hroot : ino.blocks 13 ≠ 0 := fun hzero => hready (by rw [hzero, pointer_zero])
  rw [pointer_cons hroot] at hready
  change pointer g disk (leafBlock g disk ino i) [] ≠ none at hready
  have hleaf : leafBlock g disk ino i ≠ 0 := fun hzero => hready (by rw [hzero, pointer_zero])
  refine ⟨hroot, hleaf, ⟨⟨i, hcap, hdouble, ?_⟩, pointer_nil hroot⟩, ⟨⟨i, hcap, hdouble, ?_⟩, ?_⟩,
    Prod.ext hdouble hpath⟩
  · rw [hpath]
    exact List.cons_prefix_cons.mpr ⟨rfl, List.nil_prefix⟩
  · rw [hpath]
    exact List.prefix_refl _
  · rw [pointer_cons hroot]
    exact pointer_nil hleaf

/-- The entries that are written for the blocks `bs` from `i` on. -/
def leafWrites (g : Ext2Super) (disk : Memory) (ino : Inode) : ℕ → List ℕ → List (ℕ × ℕ)
  | _, [] => []
  | i, b :: bs => (if IsDouble g i then [(leafPlace g disk ino i, b)] else []) ++ leafWrites g disk ino (i + 1) bs

/-- The inode with the blocks `bs` from `i` on. -/
def growInode (g : Ext2Super) : ℕ → List ℕ → Inode → Inode
  | _, [], ino => ino
  | i, b :: bs, ino =>
    let ino := ino.setSectorCnt (ino.sectorCnt + g.blockSize / g.sectorSize)
    growInode g (i + 1) bs (if i < 12 then ino.setBlocks i b else ino)

theorem mem_leafWrites {w : ℕ × ℕ} (hw : w ∈ leafWrites g disk ino i bs) :
    ∃ k < bs.length, IsDouble g (i + k) ∧ w.1 = leafPlace g disk ino (i + k) := by
  induction bs generalizing i with
  | nil => cases hw
  | cons b bs ih =>
    rw [leafWrites] at hw
    cases List.mem_append.mp hw with
    | inl hfirst =>
      by_cases hdouble : IsDouble g i
      · rw [if_pos hdouble] at hfirst
        exact ⟨0, Nat.zero_lt_succ _, hdouble, congrArg Prod.fst (List.mem_singleton.mp hfirst)⟩
      · rw [if_neg hdouble] at hfirst
        cases hfirst
    | inr hrest =>
      obtain ⟨k, hk, hdouble, hplace⟩ := ih hrest
      rw [Nat.add_assoc, Nat.add_comm 1 k] at hdouble hplace
      exact ⟨k + 1, Nat.succ_lt_succ hk, hdouble, hplace⟩

/-! ## The inode -/

/-- INTERNAL: what is counted is not one of the blocks. -/
theorem setSectorCnt_blocks {v : ℕ} : (ino.setSectorCnt v).blocks m = ino.blocks m := Memory.word_setWord_outside (by omega)

/-- INTERNAL: the members of `blocks` that are not set. -/
theorem growInode_blocks (hm : 12 ≤ m ∨ m < i ∨ i + bs.length ≤ m) :
    (growInode g i bs ino).blocks m = ino.blocks m := by
  induction bs generalizing i ino with
  | nil => rfl
  | cons b bs ih =>
    rw [List.length_cons] at hm
    rw [growInode, ih (by omega)]
    by_cases hi : i < 12
    · rw [if_pos hi, setBlocks_blocks_other (by omega), setSectorCnt_blocks]
    · rw [if_neg hi, setSectorCnt_blocks]

/-- INTERNAL: the ones that are set. -/
theorem growInode_direct {k : ℕ} (hk : k < bs.length) (hdirect : i + k < 12) (hsmall : ∀ b ∈ bs, b < 2 ^ 32) :
    (growInode g i bs ino).blocks (i + k) = bs[k] := by
  induction bs generalizing i ino k with
  | nil => cases hk
  | cons b bs ih =>
    obtain ⟨hb, hrest⟩ := List.forall_mem_cons.mp hsmall
    cases k with
    | zero =>
      rw [growInode, if_pos (by omega), growInode_blocks (by omega)]
      exact setBlocks_blocks hb
    | succ k =>
      rw [growInode, show i + (k + 1) = i + 1 + k by omega, ih (Nat.lt_of_succ_lt_succ hk) (by omega) hrest]
      rfl

theorem growInode_size : (growInode g i bs ino).size32l = ino.size32l := by
  induction bs generalizing i ino with
  | nil => rfl
  | cons b bs ih =>
    have hsector : ∀ v, (ino.setSectorCnt v).size32l = ino.size32l := fun v => Memory.word_setWord_outside (by omega)
    rw [growInode, ih]
    by_cases hi : i < 12
    · rw [if_pos hi, ← hsector]
      exact Memory.word_setWord_outside (by omega)
    · rw [if_neg hi, hsector]

theorem growInode_index : (growInode g i bs ino).index = ino.index := by
  induction bs generalizing i ino with
  | nil => rfl
  | cons b bs ih =>
    rw [growInode, ih]
    by_cases hi : i < 12
    · rw [if_pos hi]
      rfl
    · rw [if_neg hi]
      rfl

/-! ## The loop -/

/-- INTERNAL: an entry of the file is read as it was, if no entry that is written is the same. -/
theorem entry_kept (hplaced : FilePlaced g disk ino) (hrun : AllocRun g disk used) (h : FileEntry g disk ino m ks e x)
    (hws : ∀ w ∈ ws, entryAt g x e + 4 ≤ w.1 ∨ w.1 + 4 ≤ entryAt g x e) :
    (setWords used ws).word (entryAt g x e) 4 = disk.word (entryAt g x e) 4 := by
  apply Memory.word_congr
  intro k hk
  rw [setWords_outside fun w hw => by
    have hw := hws w hw
    omega]
  exact hrun.outside _ (h.placed hplaced hk).1

/-- The entries that are written are last ones of doubly indirect blocks of the file. -/
def LeafWords (g : Ext2Super) (disk : Memory) (ino : Inode) (ws : List (ℕ × ℕ)) : Prop :=
  ∀ w ∈ ws, ∃ i, SlotReady g disk ino i ∧ IsDouble g i ∧ w.1 = leafPlace g disk ino i

theorem LeafWords.outsideMeta (hplaced : FilePlaced g disk ino) (h : LeafWords g disk ino ws) : OutsideMeta g disk ws := by
  intro w hw k hk
  obtain ⟨i, hready, hdouble, hplace⟩ := h w hw
  obtain ⟨_, _, _, hentry, _⟩ := leaf_entries hplaced.image.blockSize hready hdouble
  rw [hplace]
  exact (hentry.placed hplaced hk).1

/-- INTERNAL: an entry that is not the last one of the doubly indirect block is apart from it. -/
theorem leafPlace_apart (hplaced : FilePlaced g disk ino) (hready : SlotReady g disk ino i) (hdouble : IsDouble g i)
    (h : FileEntry g disk ino m ks e x) (hne : blockPath (g.blockSize / 4) i ≠ (m, ks ++ [e])) :
    entryAt g x e + 4 ≤ leafPlace g disk ino i ∨ leafPlace g disk ino i + 4 ≤ entryAt g x e := by
  obtain ⟨_, _, _, hentry, hpath⟩ := leaf_entries hplaced.image.blockSize hready hdouble
  refine h.apart hplaced.tree hplaced.image.blockSize hentry fun heq => hne ?_
  rw [heq, hpath]
  rfl

/-- INTERNAL: the first entry is apart from the last ones. -/
theorem firstEntry_apart (hplaced : FilePlaced g disk ino) (hready : SlotReady g disk ino i) (hdouble : IsDouble g i)
    (h : FileEntry g disk ino 13 [] e x) :
    entryAt g x e + 4 ≤ leafPlace g disk ino i ∨ leafPlace g disk ino i + 4 ≤ entryAt g x e := by
  refine leafPlace_apart hplaced hready hdouble h fun heq => ?_
  have hlength := congrArg List.length (blockPath_double hdouble).2.2
  rw [heq] at hlength
  cases hlength

/-- **One slot that is ready** is set: an entry is written, or a member of the inode, or nothing.
SRCLINE: kernel/fs/ext2/inode.cpp:135-213 -/
theorem setBlock_ready (hplaced : FilePlaced g disk ino) (hrun : AllocRun g disk used) (hws : LeafWords g disk ino ws)
    (hready : SlotReady g disk ino i) (hblocks : ∀ m, 12 ≤ m → ino'.blocks m = ino.blocks m) (b : ℕ) :
    ino'.setBlock g (setWords used ws) i b =
      (setWords used (ws ++ if IsDouble g i then [(leafPlace g disk ino i, b)] else []),
        if i < 12 then ino'.setBlocks i b else ino', (b : ℤ)) := by
  have hbs := hplaced.image.blockSize
  by_cases hdirect : i < 12
  · have hroot : ¬ IsDouble g i := by
      rw [IsDouble, blockPath_direct hdirect]
      dsimp only
      omega
    rw [setBlock_direct hdirect, if_neg hroot, if_pos hdirect, List.append_nil]
  · rw [if_neg hdirect]
    by_cases hdouble : IsDouble g i
    · obtain ⟨hroot, hleaf, hentry, _, _⟩ := leaf_entries hbs hready hdouble
      obtain ⟨hlow, hrange, _⟩ := blockPath_double hdouble
      have hfits := hentry.inside hbs
      have hlast : lastEntry g i < g.blockSize / 4 := Nat.mod_lt _ (by omega)
      have hsize := hplaced.blockSize
      have hkept := entry_kept hplaced hrun hentry fun w hw => by
        obtain ⟨j, hj, hjdouble, hplace⟩ := hws w hw
        rw [hplace]
        exact firstEntry_apart hplaced hj hjdouble hentry
      have hfirst : Inode.entryOffset ((i - 12 - g.blockSize / 4) / (g.blockSize / 4)) = 4 * firstEntry g i :=
        entryOffset_of_lt (by change 4 * firstEntry g i < 2 ^ 32; omega)
      have hsecond : Inode.entryOffset ((i - 12 - g.blockSize / 4) % (g.blockSize / 4)) = 4 * lastEntry g i :=
        entryOffset_of_lt (by change 4 * lastEntry g i < 2 ^ 32; omega)
      have hset := @setBlock_double g (setWords used ws) ino' i b hlow ((double_iff (by omega)).mpr hrange)
        (entryAt g (ino.blocks 13) (firstEntry g i)) (by rw [hblocks 13 (by decide), hfirst]; rfl)
        (by rw [hblocks 13 (by decide)]; exact hroot) (by rw [hkept]; exact hleaf)
      rw [hset, hkept, hsecond, if_pos hdouble, setWords_append]
      rfl
    · -- the branch of the singly indirect blocks
      have hlow := blockPath_indirect (n := g.blockSize / 4) (Nat.le_of_not_lt hdirect)
      have hready := hready.resolve_left hdirect
      have hroot : (blockPath (g.blockSize / 4) i).1 = 12 := by
        have hne : (blockPath (g.blockSize / 4) i).1 ≠ 13 := hdouble
        omega
      have hrange := single_range hroot
      rw [hroot] at hready
      have hpresent : ino.blocks 12 ≠ 0 := fun hzero => hready.2 (by rw [hzero, pointer_zero])
      rw [setBlock_single (by omega) hrange (by rw [hblocks 12 (Nat.le_refl 12)]; exact hpresent), if_neg hdouble,
        List.append_nil]

/-- INTERNAL: an allocation that fails leaves the disk.
SRCLINE: kernel/fs/ext2/ext2.cpp:28-39 -/
theorem allocBlock_none (himage : Ext2Image g disk) (h : (ext2AllocBlock g disk).2 = none) :
    ext2AllocBlock g disk = (disk, none) := by
  cases allocBlock_same (show SameMeta g disk disk from fun _ _ => rfl) himage with
  | inl hnone => exact hnone.1
  | inr hsome =>
    obtain ⟨D, r, _, _, _, hsome, _⟩ := hsome
    rw [hsome] at h
    cases h

/-- INTERNAL: the entries with another one, of a slot that is ready. -/
theorem LeafWords.snoc (hws : LeafWords g disk ino ws) (hready : SlotReady g disk ino i) (b : ℕ) :
    LeafWords g disk ino (ws ++ if IsDouble g i then [(leafPlace g disk ino i, b)] else []) := by
  intro w hw
  cases List.mem_append.mp hw with
  | inl hold => exact hws w hold
  | inr hnew =>
    by_cases hdouble : IsDouble g i
    · rw [if_pos hdouble] at hnew
      exact ⟨i, hready, hdouble, congrArg Prod.fst (List.mem_singleton.mp hnew)⟩
    · rw [if_neg hdouble] at hnew
      cases hnew

/-- INTERNAL: an allocation of the loop. -/
theorem allocBlock_loop (hplaced : FilePlaced g disk ino) (hrun : AllocRun g disk used) (hws : LeafWords g disk ino ws) :
    ext2AllocBlock g (setWords used ws) = (setWords (ext2AllocBlock g used).1 ws, (ext2AllocBlock g used).2) := by
  apply allocBlock_setWords hrun.image
  intro w hw k hk hmeta
  exact hws.outsideMeta hplaced w hw k hk ((hrun.places _).mp hmeta)

/-- INTERNAL: the inode of an iteration. -/
theorem iteration_blocks {v b : ℕ} (hblocks : ∀ m, 12 ≤ m → ino'.blocks m = ino.blocks m) (hm : 12 ≤ m) :
    (if i < 12 then (ino'.setSectorCnt v).setBlocks i b else ino'.setSectorCnt v).blocks m = ino.blocks m := by
  by_cases hi : i < 12
  · rw [if_pos hi, setBlocks_blocks_other (by omega), setSectorCnt_blocks, hblocks m hm]
  · rw [if_neg hi, setSectorCnt_blocks, hblocks m hm]

/-- INTERNAL: an iteration that gets a block. -/
theorem addBlocks_succ {used' : Memory} {b : ℕ} (hplaced : FilePlaced g disk ino) (hrun : AllocRun g disk used)
    (hws : LeafWords g disk ino ws) (hready : SlotReady g disk ino i)
    (hblocks : ∀ m, 12 ≤ m → ino'.blocks m = ino.blocks m) (halloc : ext2AllocBlock g used = (used', some b)) :
    Inode.addBlocks g (n + 1) i (setWords used ws) ino' =
      Inode.addBlocks g n (i + 1) (setWords used' (ws ++ if IsDouble g i then [(leafPlace g disk ino i, b)] else []))
        (if i < 12 then (ino'.setSectorCnt (ino'.sectorCnt + g.blockSize / g.sectorSize)).setBlocks i b
          else ino'.setSectorCnt (ino'.sectorCnt + g.blockSize / g.sectorSize)) := by
  have hstep := allocBlock_step hrun.image halloc
  have hloop := allocBlock_loop hplaced hrun hws
  rw [halloc] at hloop
  rw [Inode.addBlocks, hloop]
  dsimp only
  rw [Nat.mod_eq_of_lt hstep.small, setBlock_ready hplaced (hrun.step hstep) hws hready fun m hm => by
    rw [setSectorCnt_blocks, hblocks m hm]]

/-- **The loop with enough blocks.** The induction is on the number of blocks that are added.
SRCLINE: kernel/fs/ext2/inode.cpp:85-92 -/
theorem addBlocks_ready {used' : Memory} (hplaced : FilePlaced g disk ino) (hrun : AllocRun g disk used)
    (hws : LeafWords g disk ino ws) (hready : ∀ k < n, SlotReady g disk ino (i + k))
    (hblocks : ∀ m, 12 ≤ m → ino'.blocks m = ino.blocks m) (halloc : allocBlocks g n used = some (used', bs)) :
    Inode.addBlocks g n i (setWords used ws) ino' =
      (setWords used' (ws ++ leafWrites g disk ino i bs), growInode g i bs ino', true) := by
  induction n generalizing i used ws ino' bs with
  | zero =>
    cases halloc
    rw [leafWrites, List.append_nil]
    rfl
  | succ n ih =>
    obtain ⟨used₁, b, bs', hfirst, hrest, rfl⟩ := allocBlocks_succ halloc
    have hnow : SlotReady g disk ino i := hready 0 (Nat.succ_pos n)
    have hnext : ∀ k < n, SlotReady g disk ino (i + 1 + k) := fun k hk => by
      rw [Nat.add_assoc, Nat.add_comm 1 k]
      exact hready (k + 1) (Nat.succ_lt_succ hk)
    rw [addBlocks_succ hplaced hrun hws hnow hblocks hfirst,
      ih (hrun.step (allocBlock_step hrun.image hfirst)) (hws.snoc hnow b) hnext
        (fun m hm => iteration_blocks hblocks hm) hrest, List.append_assoc]
    rfl

/-- **The loop with too few blocks** ends after the ones that there are.
SRCLINE: kernel/fs/ext2/inode.cpp:85-88 -/
theorem addBlocks_lacking (hplaced : FilePlaced g disk ino) (hrun : AllocRun g disk used)
    (hws : LeafWords g disk ino ws) (hready : ∀ k < n, SlotReady g disk ino (i + k))
    (hblocks : ∀ m, 12 ≤ m → ino'.blocks m = ino.blocks m) (halloc : allocBlocks g n used = none) :
    ∃ k used' bs, k < n ∧ allocBlocks g k used = some (used', bs) ∧ (ext2AllocBlock g used').2 = none ∧
      Inode.addBlocks g n i (setWords used ws) ino' =
        (setWords used' (ws ++ leafWrites g disk ino i bs), growInode g i bs ino', false) := by
  induction n generalizing i used ws ino' with
  | zero => cases halloc
  | succ n ih =>
    have hnow : SlotReady g disk ino i := hready 0 (Nat.succ_pos n)
    cases hb : (ext2AllocBlock g used).2 with
    | none =>
      have hloop := allocBlock_loop hplaced hrun hws
      have hsame := allocBlock_none hrun.image hb
      refine ⟨0, used, [], Nat.succ_pos n, rfl, hb, ?_⟩
      rw [hsame] at hloop
      rw [Inode.addBlocks, hloop, leafWrites, List.append_nil]
      rfl
    | some b =>
      obtain ⟨used₁, hused₁⟩ : ∃ d, d = (ext2AllocBlock g used).1 := ⟨_, rfl⟩
      have hfirst : ext2AllocBlock g used = (used₁, some b) := Prod.ext hused₁.symm hb
      have hnext : ∀ k < n, SlotReady g disk ino (i + 1 + k) := fun k hk => by
        rw [Nat.add_assoc, Nat.add_comm 1 k]
        exact hready (k + 1) (Nat.succ_lt_succ hk)
      have hrest : allocBlocks g n used₁ = none := by
        rw [allocBlocks, hfirst] at halloc
        exact Option.map_eq_none_iff.mp halloc
      obtain ⟨k, used', bs, hk, hsome, hlast, hloop⟩ :=
        ih (hrun.step (allocBlock_step hrun.image hfirst)) (hws.snoc hnow b) hnext
          (fun m hm => iteration_blocks (i := i) (b := b) hblocks hm) hrest
      refine ⟨k + 1, used', b :: bs, Nat.succ_lt_succ hk, ?_, hlast, ?_⟩
      · rw [allocBlocks, hfirst]
        dsimp only
        rw [hsome]
        rfl
      · rw [addBlocks_succ hplaced hrun hws hnow hblocks hfirst, hloop, List.append_assoc]
        rfl

/-! ## The blocks afterwards -/

/-- INTERNAL: a word that is not written. -/
theorem setWords_word {w : Memory} {a : ℕ} (h : ∀ v ∈ ws, a + 4 ≤ v.1 ∨ v.1 + 4 ≤ a) :
    (setWords w ws).word a 4 = w.word a 4 := by
  apply Memory.word_congr
  intro k hk
  apply setWords_outside
  intro v hv
  have hv := h v hv
  omega

/-- INTERNAL: the last entry of a block that is added. The induction is on the blocks. -/
theorem leafWrites_word {d : Memory} {k : ℕ} (hplaced : FilePlaced g disk ino)
    (hready : ∀ k < bs.length, SlotReady g disk ino (i + k)) (hsmall : ∀ b ∈ bs, b < 2 ^ 32) (hk : k < bs.length)
    (hdouble : IsDouble g (i + k)) :
    (setWords d (leafWrites g disk ino i bs)).word (leafPlace g disk ino (i + k)) 4 = bs[k] := by
  induction bs generalizing i k d with
  | nil => cases hk
  | cons b bs ih =>
    obtain ⟨hb, hrest⟩ := List.forall_mem_cons.mp hsmall
    have hnext : ∀ k < bs.length, SlotReady g disk ino (i + 1 + k) := fun k hk => by
      rw [Nat.add_assoc, Nat.add_comm 1 k]
      exact hready (k + 1) (Nat.succ_lt_succ hk)
    rw [leafWrites, setWords_append]
    cases k with
    | zero =>
      have hdouble : IsDouble g i := hdouble
      obtain ⟨_, _, _, hentry, hpath⟩ := leaf_entries hplaced.image.blockSize (hready 0 hk) hdouble
      rw [if_pos hdouble, Nat.add_zero, setWords_word fun v hv => by
        obtain ⟨k', hk', hdouble', hplace⟩ := mem_leafWrites hv
        rw [hplace]
        refine leafPlace_apart hplaced (hnext k' hk') hdouble' hentry fun heq => ?_
        have hsame := blockPath_injective (j := i) (by rw [hdouble']; decide) (by rw [hdouble']; decide) (heq.trans hpath.symm)
        omega]
      exact Memory.word_setWord_of_lt (by omega)
    | succ k =>
      have hshift : i + (k + 1) = i + 1 + k := by omega
      rw [hshift] at hdouble ⊢
      exact ih hnext hrest (Nat.lt_of_succ_lt_succ hk) hdouble

/-- The disk and the inode after the loop and the write of the inode, whose bytes are the only others. -/
structure GrownFile (g : Ext2Super) (disk : Memory) (ino : Inode) (i : ℕ) (bs : List ℕ) (disk' : Memory) (ino' : Inode) :
    Prop where
  ready : ∀ k < bs.length, SlotReady g disk ino (i + k)
  small : ∀ b ∈ bs, b < 2 ^ 32
  bytes : ∃ used, AllocRun g disk used ∧ ∀ a, (a < inodePos g disk ino.index ∨
    inodePos g disk ino.index + rawInodeSize ≤ a) → disk' a = setWords used (leafWrites g disk ino i bs) a
  blocks : ∀ m, 12 ≤ m ∨ m < i ∨ i + bs.length ≤ m → ino'.blocks m = ino.blocks m
  direct : ∀ k (hk : k < bs.length), i + k < 12 → ino'.blocks (i + k) = bs[k]

/-- The block has been added, in a slot that `set_block` sets. -/
def SlotSet (g : Ext2Super) (i : ℕ) (bs : List ℕ) (j : ℕ) : Prop :=
  i ≤ j ∧ j < i + bs.length ∧ (blockPath (g.blockSize / 4) j).1 ≠ 12

/-- **The other blocks are kept.** -/
theorem GrownFile.blockAt_kept (hplaced : FilePlaced g disk ino) (h : GrownFile g disk ino i bs disk' ino')
    (hj : j < fileCapacity (g.blockSize / 4)) (hset : ¬ SlotSet g i bs j) :
    blockAt g disk' ino' j = blockAt g disk ino j := by
  obtain ⟨used, hrun, hbytes⟩ := h.bytes
  have hroot : ino'.blocks (blockPath (g.blockSize / 4) j).1 = ino.blocks (blockPath (g.blockSize / 4) j).1 := by
    apply h.blocks
    by_cases hdirect : j < 12
    · rw [blockPath_direct hdirect]
      unfold SlotSet at hset
      rw [blockPath_direct hdirect] at hset
      dsimp only at hset ⊢
      omega
    · exact Or.inl (blockPath_indirect (Nat.le_of_not_lt hdirect))
  unfold blockAt
  rw [hroot]
  apply pointer_congr
  intro ks e x hprefix hpointer
  have hentry : FileEntry g disk ino (blockPath (g.blockSize / 4) j).1 ks e x := ⟨⟨j, hj, rfl, hprefix⟩, hpointer⟩
  have hword : disk'.word (entryAt g x e) 4 = (setWords used (leafWrites g disk ino i bs)).word (entryAt g x e) 4 :=
    Memory.word_congr fun k hk => hbytes _ (hentry.placed hplaced hk).2
  rw [hword]
  refine entry_kept hplaced hrun hentry fun w hw => ?_
  obtain ⟨k, hk, hdouble, hplace⟩ := mem_leafWrites hw
  rw [hplace]
  refine leafPlace_apart hplaced (h.ready k hk) hdouble hentry fun heq => hset ?_
  -- the way to the other block is that of the one that is set
  have hjdouble : IsDouble g j := by rw [IsDouble, ← congrArg Prod.fst heq]; exact hdouble
  have hlength := congrArg List.length (congrArg Prod.snd heq)
  rw [(blockPath_double hdouble).2.2] at hlength
  have hwhole : ks ++ [e] = (blockPath (g.blockSize / 4) j).2 := by
    apply hprefix.eq_of_length
    rw [← hlength, (blockPath_double hjdouble).2.2]
    rfl
  rw [hwhole] at heq
  have hsame := blockPath_injective (by rw [hdouble]; decide) (by rw [hdouble]; decide) heq
  refine ⟨by omega, by omega, ?_⟩
  rw [hjdouble]
  decide

/-- **The blocks that are set** are the new ones. -/
theorem GrownFile.blockAt_set (hplaced : FilePlaced g disk ino) (h : GrownFile g disk ino i bs disk' ino') {k : ℕ}
    (hk : k < bs.length) (hset : (blockPath (g.blockSize / 4) (i + k)).1 ≠ 12) :
    blockAt g disk' ino' (i + k) = if bs[k] = 0 then none else some bs[k] := by
  obtain ⟨used, hrun, hbytes⟩ := h.bytes
  have hready := h.ready k hk
  unfold blockAt
  by_cases hdirect : i + k < 12
  · rw [blockPath_direct hdirect]
    dsimp only
    rw [h.direct k hk hdirect]
    rfl
  · have hdouble : IsDouble g (i + k) := by
      have hlow := blockPath_indirect (n := g.blockSize / 4) (Nat.le_of_not_lt hdirect)
      have hhigh := (hready.resolve_left hdirect).1
      unfold IsDouble
      omega
    obtain ⟨hroot, hleaf, hfirst, hlast, hpath⟩ := leaf_entries hplaced.image.blockSize hready hdouble
    have hword : ∀ {ks e x}, FileEntry g disk ino 13 ks e x →
        disk'.word (entryAt g x e) 4 = (setWords used (leafWrites g disk ino i bs)).word (entryAt g x e) 4 :=
      fun hentry => Memory.word_congr fun a ha => hbytes _ (hentry.placed hplaced ha).2
    have hfirstWord : disk'.word (entryAt g (ino.blocks 13) (firstEntry g (i + k))) 4 = leafBlock g disk ino (i + k) := by
      rw [hword hfirst]
      refine entry_kept hplaced hrun hfirst fun w hw => ?_
      obtain ⟨k', hk', hdouble', hplace⟩ := mem_leafWrites hw
      rw [hplace]
      exact firstEntry_apart hplaced (h.ready k' hk') hdouble' hfirst
    have hlastWord : disk'.word (leafPlace g disk ino (i + k)) 4 = bs[k] :=
      (hword hlast).trans (leafWrites_word hplaced h.ready h.small hk hdouble)
    rw [hpath]
    dsimp only
    rw [h.blocks 13 (by omega), pointer_cons hroot]
    change pointer g disk' (disk'.word (entryAt g (ino.blocks 13) (firstEntry g (i + k))) 4) [lastEntry g (i + k)] = _
    rw [hfirstWord, pointer_cons hleaf]
    change pointer g disk' (disk'.word (leafPlace g disk ino (i + k)) 4) [] = _
    rw [hlastWord]
    rfl

/-! ## What is written back -/

/-- INTERNAL: the loop does not change the metadata that the allocations leave. -/
theorem leafWrites_outsideMeta (hplaced : FilePlaced g disk ino) (hrun : AllocRun g disk used)
    (hready : ∀ k < bs.length, SlotReady g disk ino (i + k)) : OutsideMeta g used (leafWrites g disk ino i bs) := by
  have hleaf : LeafWords g disk ino (leafWrites g disk ino i bs) := by
    intro w hw
    obtain ⟨k, hk, hdouble, hplace⟩ := mem_leafWrites hw
    exact ⟨i + k, hready k hk, hdouble, hplace⟩
  exact fun w hw k hk hmeta => hleaf.outsideMeta hplaced w hw k hk ((hrun.places _).mp hmeta)

/-- INTERNAL: an inode is found in the same place when the descriptors have the same tables. -/
theorem inodePos_tables (hgroup : inodeSlot ino.index / g.inodesPerGroup < g.bgdCnt)
    (htables : ∀ G < g.bgdCnt, disk'.word (groupPos g G + 8) 4 = disk.word (groupPos g G + 8) 4) :
    inodePos g disk' ino.index = inodePos g disk ino.index := by
  have hdescriptor : ∀ d : Memory, (readBgd g d (inodeSlot ino.index / g.inodesPerGroup)).word 8 4 =
      d.word (groupPos g (inodeSlot ino.index / g.inodesPerGroup / g.inodesPerGroup) + 8) 4 := fun d =>
    Memory.word_load (by decide)
  unfold inodePos
  dsimp only
  rw [hdescriptor, hdescriptor, htables _ (Nat.lt_of_le_of_lt (Nat.div_le_self _ _) hgroup)]

/-- INTERNAL: the inode stays where it is when blocks are allocated and entries written. -/
theorem inodePos_loop (hplaced : FilePlaced g disk ino) (hrun : AllocRun g disk used) (hws : OutsideMeta g used ws) :
    inodePos g (setWords used ws) ino.index = inodePos g disk ino.index := by
  apply inodePos_tables hplaced.group
  intro G hG
  rw [← hrun.tables G hG]
  exact hws.sameMeta.word hG (by decide)

/-- **The disk after the inode is written back**: the metadata are those that the allocations leave, and the inode is the
one in memory.
SRCLINE: kernel/fs/ext2/inode.cpp:94 -/
theorem writeBack_grown (hplaced : FilePlaced g disk ino) (hrun : AllocRun g disk used) (hws : OutsideMeta g used ws)
    (hindex : ino'.index = ino.index) :
    SameMeta g used (ino'.writeBack g (setWords used ws)) ∧ OnDisk g (ino'.writeBack g (setWords used ws)) ino' ∧
      ∀ a, (a < inodePos g disk ino.index ∨ inodePos g disk ino.index + rawInodeSize ≤ a) →
        ino'.writeBack g (setWords used ws) a = setWords used ws a := by
  have hpos := inodePos_loop hplaced hrun hws
  have houtside : ∀ a, (a < inodePos g disk ino.index ∨ inodePos g disk ino.index + rawInodeSize ≤ a) →
      ino'.writeBack g (setWords used ws) a = setWords used ws a := by
    intro a ha
    unfold Inode.writeBack
    rw [hindex, hpos]
    exact Memory.store_outside ha
  have hsame : SameMeta g used (ino'.writeBack g (setWords used ws)) := by
    intro a ha
    rw [houtside a]
    · exact hws.sameMeta a ha
    · by_contra hin
      obtain ⟨k, rfl⟩ : ∃ k, a = inodePos g disk ino.index + k := ⟨a - inodePos g disk ino.index, by omega⟩
      exact hplaced.inode k (by omega) ((hrun.places _).mp ha)
  refine ⟨hsame, ?_, houtside⟩
  intro a ha
  have hpos' : inodePos g (ino'.writeBack g (setWords used ws)) ino.index = inodePos g disk ino.index := by
    apply inodePos_tables hplaced.group
    intro G hG
    rw [← hrun.tables G hG]
    exact hsame.word hG (by decide)
  rw [hindex, hpos']
  unfold Inode.writeBack
  rw [hindex, hpos]
  exact Memory.store_inside ha

/-! ## The result -/

variable {size : ℕ}

/-- The inode with its new size.
SRCLINE: kernel/fs/ext2/inode.cpp:81-83 -/
def sizedInode (ino : Inode) (size : ℕ) : Inode := if ino.size32l < size then ino.setSize32l size else ino

theorem sizedInode_blocks : (sizedInode ino size).blocks m = ino.blocks m := by
  unfold sizedInode
  by_cases hlt : ino.size32l < size
  · rw [if_pos hlt]
    exact Memory.word_setWord_outside (by omega)
  · rw [if_neg hlt]

theorem sizedInode_index : (sizedInode ino size).index = ino.index := by
  unfold sizedInode
  by_cases hlt : ino.size32l < size
  · rw [if_pos hlt]
    rfl
  · rw [if_neg hlt]

/-- INTERNAL: the size fits, or it is cut. -/
theorem sizedInode_size : (sizedInode ino size).size32l = max ino.size32l size ↔ size < 2 ^ 32 := by
  have hsmall : ino.size32l < 256 ^ 4 := Memory.word_lt
  unfold sizedInode
  by_cases hlt : ino.size32l < size
  · have hset : (ino.setSize32l size).size32l = size % 256 ^ 4 := Memory.word_setWord
    rw [if_pos hlt, hset]
    omega
  · rw [if_neg hlt]
    omega

/-- INTERNAL: the inode is as it was if the low bits of the size are. -/
theorem sizedInode_eq_iff : sizedInode ino size = ino ↔ size ≤ ino.size32l ∨ size % 2 ^ 32 = ino.size32l := by
  have hset : (ino.setSize32l size).size32l = size % 256 ^ 4 := Memory.word_setWord
  unfold sizedInode
  by_cases hlt : ino.size32l < size
  · rw [if_pos hlt]
    constructor
    · intro heq
      rw [heq] at hset
      omega
    · intro hlow
      have hword : ino.raw.word 4 4 = size % 256 ^ 4 := (hlow.resolve_left (Nat.not_le.mpr hlt)).symm
      have hraw : ino.raw.setWord 4 4 size = ino.raw := by
        calc ino.raw.setWord 4 4 size
            = (ino.raw.setWord 4 4 size).setWord 4 4 ((ino.raw.setWord 4 4 size).word 4 4) := Memory.setWord_word.symm
          _ = ino.raw.setWord 4 4 (ino.raw.word 4 4) := by rw [Memory.word_setWord, Memory.setWord_setWord, hword]
          _ = ino.raw := Memory.setWord_word
      unfold Inode.setSize32l Inode.setRaw
      rw [hraw]
  · rw [if_neg hlt]
    exact ⟨fun _ => Or.inl (Nat.le_of_not_lt hlt), fun _ => rfl⟩

/-- INTERNAL: the call does not return at once.
SRCLINE: kernel/fs/ext2/inode.cpp:72-97 -/
theorem resize_loops {start cnt : ℕ} (hskip : ¬ ResizeSkips g ino (start + cnt)) {d : Memory} {r : Inode} {done : Bool}
    (hloop : Inode.addBlocks g (resizeEnd g (start + cnt) - resizeStart g ino) (resizeStart g ino) disk
      (sizedInode ino (start + cnt)) = (d, r, done)) :
    ino.resize g disk start cnt = if done then (r.writeBack g d, r, 0) else (d, r, -1) := by
  unfold ResizeSkips at hskip
  unfold resizeEnd resizeStart sizedInode at hloop
  rw [Inode.resize]
  dsimp only
  rw [if_neg hskip, hloop]
  cases done with
  | false => rfl
  | true => rfl

/-- **A call that lacks blocks.** What it has allocated before is not freed. -/
theorem resize_lacking {start cnt : ℕ} (hplaced : FilePlaced g disk ino) (hadds : AddsNoIndirect g disk ino (start + cnt))
    (hskip : ¬ ResizeSkips g ino (start + cnt))
    (halloc : allocBlocks g (resizeEnd g (start + cnt) - resizeStart g ino) disk = none) :
    ∃ k used bs, allocBlocks g k disk = some (used, bs) ∧ (ext2AllocBlock g used).2 = none ∧
      OutsideMeta g used (leafWrites g disk ino (resizeStart g ino) bs) ∧
      ino.resize g disk start cnt = (setWords used (leafWrites g disk ino (resizeStart g ino) bs),
        growInode g (resizeStart g ino) bs (sizedInode ino (start + cnt)), -1) := by
  have himage := hplaced.image
  cases hadds.resolve_left hskip with
  | inl hfull =>
    have hnone := allocBlock_none himage hfull
    refine ⟨0, disk, [], rfl, hfull, fun w hw => absurd hw List.not_mem_nil, ?_⟩
    have hloop : Inode.addBlocks g (resizeEnd g (start + cnt) - resizeStart g ino) (resizeStart g ino) disk
        (sizedInode ino (start + cnt)) = (disk, sizedInode ino (start + cnt), false) := by
      cases hn : resizeEnd g (start + cnt) - resizeStart g ino with
      | zero =>
        rw [hn] at halloc
        cases halloc
      | succ n => rw [Inode.addBlocks, hnone]
    exact resize_loops hskip hloop
  | inr hready =>
    have hready' : ∀ k < resizeEnd g (start + cnt) - resizeStart g ino, SlotReady g disk ino (resizeStart g ino + k) :=
      fun k hk => hready _ (Nat.le_add_right _ _) (by omega)
    have hnothing : LeafWords g disk ino [] := fun w hw => absurd hw List.not_mem_nil
    obtain ⟨k, used, bs, hk, hsome, hlast, hloop⟩ := addBlocks_lacking hplaced (AllocRun.refl himage) hnothing hready'
      (fun m _ => sizedInode_blocks) halloc
    obtain ⟨hrun, hlength, _⟩ := allocBlocks_run himage hsome
    have hslots : ∀ k' < bs.length, SlotReady g disk ino (resizeStart g ino + k') := fun k' hk' => hready' k' (by omega)
    exact ⟨k, used, bs, hsome, hlast, leafWrites_outsideMeta hplaced hrun hslots, resize_loops hskip hloop⟩

/-- **A call that has enough blocks.** -/
theorem resize_enough {start cnt : ℕ} (hplaced : FilePlaced g disk ino) (hadds : AddsNoIndirect g disk ino (start + cnt))
    (hskip : ¬ ResizeSkips g ino (start + cnt))
    (halloc : allocBlocks g (resizeEnd g (start + cnt) - resizeStart g ino) disk = some (used, bs)) :
    ∃ d r, ino.resize g disk start cnt = (d, r, 0) ∧ GrownFile g disk ino (resizeStart g ino) bs d r ∧
      SameMeta g used d ∧ OnDisk g d r ∧ (r.size32l = max ino.size32l (start + cnt) ↔ start + cnt < 2 ^ 32) := by
  have himage := hplaced.image
  obtain ⟨hrun, hlength, hsmall⟩ := allocBlocks_run himage halloc
  have hready : ∀ k < resizeEnd g (start + cnt) - resizeStart g ino, SlotReady g disk ino (resizeStart g ino + k) := by
    cases hadds.resolve_left hskip with
    | inl hfull =>
      -- there is nothing to be allocated
      intro k hk
      cases hn : resizeEnd g (start + cnt) - resizeStart g ino with
      | zero =>
        rw [hn] at hk
        cases hk
      | succ n =>
        rw [hn] at halloc
        obtain ⟨_, _, _, hfirst, _⟩ := allocBlocks_succ halloc
        rw [hfirst] at hfull
        cases hfull
    | inr hready => exact fun k hk => hready _ (Nat.le_add_right _ _) (by omega)
  have hslots : ∀ k < bs.length, SlotReady g disk ino (resizeStart g ino + k) := fun k hk => hready k (by omega)
  have hnothing : LeafWords g disk ino [] := fun w hw => absurd hw List.not_mem_nil
  have hblocks : ∀ m, 12 ≤ m → (sizedInode ino (start + cnt)).blocks m = ino.blocks m := fun m _ => sizedInode_blocks
  have hloop := addBlocks_ready hplaced (AllocRun.refl himage) hnothing hready hblocks halloc
  rw [List.nil_append] at hloop
  have hindex : (growInode g (resizeStart g ino) bs (sizedInode ino (start + cnt))).index = ino.index :=
    growInode_index.trans sizedInode_index
  obtain ⟨hsame, hwritten, houtside⟩ :=
    writeBack_grown hplaced hrun (leafWrites_outsideMeta hplaced hrun hslots) hindex
  refine ⟨_, _, resize_loops hskip hloop, ⟨hslots, hsmall, ⟨used, hrun, houtside⟩, fun m hm => ?_, fun k hk hdirect => ?_⟩,
    hsame, hwritten, ?_⟩
  · rw [growInode_blocks hm, sizedInode_blocks]
  · exact growInode_direct hk hdirect hsmall
  · rw [growInode_size]
    exact sizedInode_size

/-- INTERNAL: the logical blocks of a size that fits are numbers of a file.
SRCLINE: kernel/fs/ext2/inode.cpp:79 -/
theorem resizeEnd_eq (hplaced : FilePlaced g disk ino) (hsize : size < 2 ^ 32) :
    resizeEnd g size = (size + g.blockSize - 1) / g.blockSize ∧ resizeEnd g size ≤ fileCapacity (g.blockSize / 4) := by
  have hbs := hplaced.image.blockSize
  have hbs' := hplaced.blockSize
  have hle : (size + g.blockSize - 1) / g.blockSize ≤ 2 ^ 22 := by
    rw [Nat.div_le_iff_le_mul_add_pred (by omega)]
    have hmul := Nat.mul_le_mul_right (2 ^ 22) hbs
    omega
  have hcap : 256 ^ 3 ≤ (g.blockSize / 4) ^ 3 := Nat.pow_le_pow_left (by omega) 3
  have hend : resizeEnd g size = (size + g.blockSize - 1) / g.blockSize := by
    unfold resizeEnd
    rw [Nat.add_sub_assoc (by omega)] at hle ⊢
    rw [divRoundup_natCast (by omega) (by omega), ofSigned_natCast (Nat.lt_of_le_of_lt hle (by decide)),
      Nat.mod_eq_of_lt (Nat.lt_of_le_of_lt hle (by decide))]
  refine ⟨hend, ?_⟩
  rw [hend]
  unfold fileCapacity
  omega

/-- INTERNAL: a block that is not set is there afterwards if and only if it was, with the bitmaps of the allocations. -/
theorem GrownFile.hasBlock_kept (hplaced : FilePlaced g disk ino) (h : GrownFile g disk ino i bs disk' ino')
    (hsame : SameMeta g used disk') (hj : j < fileCapacity (g.blockSize / 4)) (hset : ¬ SlotSet g i bs j) :
    HasBlock g disk' ino' disk' j ↔ HasBlock g disk ino used j := by
  have himage := hplaced.image
  unfold HasBlock
  rw [h.blockAt_kept hplaced hj hset]
  exact exists_congr fun b => and_congr_right fun _ => hsame.allocated (himage.perGroup_le .blocks) (himage.perGroup_pos .blocks)

/-- INTERNAL: a block that is set is there afterwards if and only if it is in use and not `0`. -/
theorem GrownFile.hasBlock_set (hplaced : FilePlaced g disk ino) (h : GrownFile g disk ino i bs disk' ino')
    (hsame : SameMeta g used disk') {k : ℕ} (hk : k < bs.length) (hset : (blockPath (g.blockSize / 4) (i + k)).1 ≠ 12) :
    HasBlock g disk' ino' disk' (i + k) ↔ bs[k] ≠ 0 ∧ Allocated g used bs[k] := by
  have himage := hplaced.image
  unfold HasBlock
  rw [h.blockAt_set hplaced hk hset]
  by_cases hzero : bs[k] = 0
  · rw [if_pos hzero]
    exact ⟨fun ⟨b, hb, _⟩ => absurd hb (by simp), fun hno => absurd hzero hno.1⟩
  · rw [if_neg hzero]
    constructor
    · rintro ⟨b, hb, hused⟩
      rw [Option.some.inj hb]
      exact ⟨Option.some.inj hb ▸ hzero, (hsame.allocated (himage.perGroup_le .blocks) (himage.perGroup_pos .blocks)).mp hused⟩
    · rintro ⟨_, hused⟩
      exact ⟨bs[k], rfl, (hsame.allocated (himage.perGroup_le .blocks) (himage.perGroup_pos .blocks)).mpr hused⟩

/-- **A call with enough blocks is right if and only if** the size fits, and each logical block below it that is not set
is there, and each that is set takes its block. -/
theorem resized_iff (hplaced : FilePlaced g disk ino) (h : GrownFile g disk ino (resizeStart g ino) bs disk' ino')
    (hlength : bs.length = resizeEnd g size - resizeStart g ino) (hsame : SameMeta g used disk')
    (hwritten : OnDisk g disk' ino') (hsized : ino'.size32l = max ino.size32l size ↔ size < 2 ^ 32) :
    Resized g disk ino size disk' ino' ↔
      size < 2 ^ 32 ∧ (∀ i < resizeEnd g size, i < resizeStart g ino → HasBlock g disk ino used i) ∧
        ∀ k (hk : k < bs.length), SlotReady g disk ino (resizeStart g ino + k) ∧
          if (blockPath (g.blockSize / 4) (resizeStart g ino + k)).1 = 12 then
            HasBlock g disk ino used (resizeStart g ino + k)
          else SlotTakes g disk ino used (resizeStart g ino + k) bs[k] := by
  have hnot : ∀ i < resizeStart g ino, ¬ SlotSet g (resizeStart g ino) bs i := fun i hi hset =>
    absurd hset.1 (Nat.not_le.mpr hi)
  constructor
  · intro hresized
    have hsize := hsized.mp hresized.sized
    obtain ⟨hend, hcap⟩ := resizeEnd_eq hplaced hsize
    have hblocks : ∀ i < resizeEnd g size, HasBlock g disk' ino' disk' i := fun i hi => hresized.blocks i (hend ▸ hi)
    refine ⟨hsize, fun i hi hstart => ?_, fun k hk => ⟨h.ready k hk, ?_⟩⟩
    · exact (h.hasBlock_kept hplaced hsame (by omega) (hnot i hstart)).mp (hblocks i hi)
    · have hj := hblocks (resizeStart g ino + k) (by omega)
      by_cases hsingle : (blockPath (g.blockSize / 4) (resizeStart g ino + k)).1 = 12
      · rw [if_pos hsingle]
        exact (h.hasBlock_kept hplaced hsame (by omega) fun hset => hset.2.2 hsingle).mp hj
      · rw [if_neg hsingle]
        obtain ⟨hzero, hused⟩ := (h.hasBlock_set hplaced hsame hk hsingle).mp hj
        refine ⟨hzero, hused, fun b hb => ?_⟩
        have hkept := hresized.kept _ (by omega) b hb
        rw [h.blockAt_set hplaced hk hsingle, if_neg hzero] at hkept
        exact (Option.some.inj hkept).symm
  · rintro ⟨hsize, hbefore, hslots⟩
    obtain ⟨hend, hcap⟩ := resizeEnd_eq hplaced hsize
    constructor
    · exact hsized.mpr hsize
    · intro i hi
      rw [← hend] at hi
      by_cases hstart : i < resizeStart g ino
      · exact (h.hasBlock_kept hplaced hsame (by omega) (hnot i hstart)).mpr (hbefore i hi hstart)
      · obtain ⟨k, rfl⟩ : ∃ k, i = resizeStart g ino + k := ⟨i - resizeStart g ino, by omega⟩
        have hk : k < bs.length := by omega
        obtain ⟨_, hslot⟩ := hslots k hk
        by_cases hsingle : (blockPath (g.blockSize / 4) (resizeStart g ino + k)).1 = 12
        · rw [if_pos hsingle] at hslot
          exact (h.hasBlock_kept hplaced hsame (by omega) fun hset => hset.2.2 hsingle).mpr hslot
        · rw [if_neg hsingle] at hslot
          exact (h.hasBlock_set hplaced hsame hk hsingle).mpr ⟨hslot.1, hslot.2.1⟩
    · intro i hi b hb
      by_cases hset : SlotSet g (resizeStart g ino) bs i
      · obtain ⟨hlow, hhigh, hsingle⟩ := hset
        obtain ⟨k, rfl⟩ : ∃ k, i = resizeStart g ino + k := ⟨i - resizeStart g ino, by omega⟩
        have hk : k < bs.length := by omega
        have hslot := (hslots k hk).2
        rw [if_neg hsingle] at hslot
        rw [h.blockAt_set hplaced hk hsingle, if_neg hslot.1, hslot.2.2 b hb]
      · rw [h.blockAt_kept hplaced hi hset, hb]
    · exact hwritten

/-- INTERNAL: a call that returns at once.
SRCLINE: kernel/fs/ext2/inode.cpp:75-76 -/
theorem resizeCorrect_skips : ResizeCorrect g disk ino size (disk, ino, 0) ↔
    size ≤ ino.size32l ∧ (∀ i < (size + g.blockSize - 1) / g.blockSize, HasBlock g disk ino disk i) ∧
      OnDisk g disk ino ∧ allocBlocks g (resizeEnd g size - resizeStart g ino) disk ≠ none := by
  have hzero : ¬ (0 : ℤ) = -1 := by decide
  constructor
  · intro hright
    have hgrown := hright.grown rfl
    have hsized : ino.size32l = max ino.size32l size := hgrown.sized
    exact ⟨by omega, hgrown.blocks, hgrown.written, fun hnone => hzero (hright.fails hnone)⟩
  · rintro ⟨hsize, hblocks, hwritten, hsome⟩
    exact {
      grown := fun _ => ⟨(Nat.max_eq_left hsize).symm, hblocks, fun _ _ _ hb => hb, hwritten⟩
      unchanged := fun hno => absurd hno hzero
      fails := fun hnone => absurd hnone hsome }

/-- INTERNAL: a call that lacks blocks is right if and only if there is none at all, and the size does not change. -/
theorem resizeCorrect_lacking {k : ℕ} (hplaced : FilePlaced g disk ino) (halloc : allocBlocks g k disk = some (used, bs))
    (hlast : (ext2AllocBlock g used).2 = none) (hws : OutsideMeta g used (leafWrites g disk ino i bs)) :
    ResizeCorrect g disk ino size
        (setWords used (leafWrites g disk ino i bs), growInode g i bs (sizedInode ino size), -1) ↔
      (ext2AllocBlock g disk).2 = none ∧ (size ≤ ino.size32l ∨ size % 2 ^ 32 = ino.size32l) := by
  have hone : ¬ (-1 : ℤ) = 0 := by decide
  have himage := hplaced.image
  constructor
  · intro hright
    have hunchanged := hright.unchanged rfl
    cases k with
    | zero =>
      cases halloc
      exact ⟨hlast, sizedInode_eq_iff.mp hunchanged.memory⟩
    | succ k =>
      -- the bit of the first block is set
      obtain ⟨G, hG, r, hr, hclear, hset⟩ := allocBlocks_taken himage halloc
      have hbits := hunchanged.bitmaps G hG r hr
      dsimp only at hbits
      rw [hws.sameMeta.groupBit .blocks hG hr, hset, hclear] at hbits
      cases hbits
  · rintro ⟨hfull, hsize⟩
    cases k with
    | zero =>
      cases halloc
      have hsame := sizedInode_eq_iff.mpr hsize
      exact {
        grown := fun hno => absurd hno hone
        unchanged := fun _ => ⟨hsame, fun _ _ => rfl, fun _ _ _ _ => rfl⟩
        fails := fun _ => rfl }
    | succ k =>
      obtain ⟨_, _, _, hfirst, _⟩ := allocBlocks_succ halloc
      rw [hfirst] at hfull
      cases hfull

/-- **When `resize` is right.** If no indirect block is added, it is right for exactly the calls that meet the condition.
SRCLINE: kernel/fs/ext2/inode.cpp:72-97 -/
theorem resizeCorrect_iff (start cnt : ℕ) (hplaced : FilePlaced g disk ino) (hadds : AddsNoIndirect g disk ino (start + cnt)) :
    ResizeCorrect g disk ino (start + cnt) (ino.resize g disk start cnt) ↔ ResizeMeets g disk ino (start + cnt) := by
  unfold ResizeMeets
  by_cases hskip : ResizeSkips g ino (start + cnt)
  · have hresize : ino.resize g disk start cnt = (disk, ino, 0) := by
      rw [Inode.resize]
      exact if_pos hskip
    rw [if_pos hskip, hresize]
    exact resizeCorrect_skips
  · rw [if_neg hskip]
    cases halloc : allocBlocks g (resizeEnd g (start + cnt) - resizeStart g ino) disk with
    | none =>
      obtain ⟨k, used, bs, hsome, hlast, hws, hresize⟩ := resize_lacking hplaced hadds hskip halloc
      rw [hresize]
      exact resizeCorrect_lacking hplaced hsome hlast hws
    | some r =>
      obtain ⟨used, bs⟩ := r
      obtain ⟨d, r, hresize, hgrown, hsame, hwritten, hsized⟩ := resize_enough hplaced hadds hskip halloc
      have hlength := (allocBlocks_run hplaced.image halloc).2.1
      have hzero : ¬ (0 : ℤ) = -1 := by decide
      rw [hresize]
      refine Iff.trans ⟨fun hright => hright.grown rfl, fun hresized => ?_⟩
        (resized_iff hplaced hgrown hlength hsame hwritten hsized)
      exact {
        grown := fun _ => hresized
        unchanged := fun hno => absurd hno hzero
        fails := fun hnone => absurd (halloc.symm.trans hnone) (by simp) }

/-! ## A file of one block -/

/-- A file that was created: it has the block 100, and its size is zero. -/
def smallFile : Inode := ⟨Memory.ofWords [(28, 2), (40, 100)], 18⟩

theorem smallFile_blocks (m : ℕ) : smallFile.blocks m = if m = 0 then 100 else 0 := by
  have hword : smallFile.blocks m = Memory.wordIn [(28, 2), (40, 100)] (40 + 4 * m) :=
    Memory.word_ofWords (by decide) (by omega)
  rw [hword]
  by_cases hm : m = 0
  · rw [hm]
    rfl
  · simp only [Memory.wordIn]
    rw [if_neg (by omega), if_neg (by omega), if_neg hm]

/-- INTERNAL: its only block. -/
theorem smallFile_usesAt (h : UsesAt g disk smallFile m ks x) : m = 0 ∧ ks = [] ∧ x = 100 := by
  obtain ⟨i, _, hm, hprefix, hpointer⟩ := h
  rw [smallFile_blocks] at hpointer
  by_cases hzero : m = 0
  · have hi : i = 0 := by
      by_cases hdirect : i < 12
      · rw [blockPath_direct hdirect] at hm
        exact hm.trans hzero
      · have hlow := blockPath_indirect (n := g.blockSize / 4) (Nat.le_of_not_lt hdirect)
        omega
    rw [hi, blockPath_direct (by decide)] at hprefix
    have hks : ks = [] := List.prefix_nil.mp hprefix
    rw [hks, if_pos hzero, pointer_nil (by decide)] at hpointer
    exact ⟨hzero, hks, (Option.some.inj hpointer).symm⟩
  · rw [if_neg hzero, pointer_zero] at hpointer
    cases hpointer

/-- INTERNAL: the metadata of the image. -/
theorem smallImage_metaByte {a : ℕ} (h : MetaByte smallSuper (smallImage 200 12) a) : a < 2080 ∨ 3072 ≤ a ∧ a < 5120 := by
  cases h with
  | inl htable => exact Or.inl htable
  | inr hbitmap =>
    obtain ⟨kind, G, hG, hlow, hhigh⟩ := hbitmap
    obtain rfl : G = 0 := Nat.lt_one_iff.mp hG
    rw [smallImage_bitmapPos (by decide) (by decide)] at hlow hhigh
    have hsize : smallSuper.blockSize = 1024 := rfl
    rw [hsize] at hhigh
    cases kind with
    | blocks =>
      have hpos : smallBitmap .blocks = 3 := rfl
      omega
    | inodes =>
      have hpos : smallBitmap .inodes = 4 := rfl
      omega

theorem smallFile_inodePos : inodePos smallSuper (smallImage 200 12) smallFile.index = 2176 := by
  have hdescriptor : (readBgd smallSuper (smallImage 200 12) 0).word 8 4 = 0 := by
    rw [readBgd, Memory.word_load (by decide), smallImage_word (by decide) (by decide) (by decide)]
    decide
  change (readBgd smallSuper (smallImage 200 12) 0).word 8 4 * 1024 + 2176 = 2176
  rw [hdescriptor, Nat.zero_mul, Nat.zero_add]

theorem smallFile_placed : FilePlaced smallSuper (smallImage 200 12) smallFile where
  image := smallImage_image (by decide) (by decide) (by decide)
  blockSize := by decide
  group := by decide
  inode a ha hmeta := by
    have hraw : rawInodeSize = 116 := rfl
    rw [smallFile_inodePos] at hmeta
    have hplaces := smallImage_metaByte hmeta
    omega
  tree m ks m' ks' x h h' := by
    obtain ⟨hm, hks, _⟩ := smallFile_usesAt h
    obtain ⟨hm', hks', _⟩ := smallFile_usesAt h'
    exact ⟨hm.trans hm'.symm, hks.trans hks'.symm⟩
  blocks m ks x h a ha := by
    obtain ⟨_, _, rfl⟩ := smallFile_usesAt h
    have hsize : smallSuper.blockSize = 1024 := rfl
    have hraw : rawInodeSize = 116 := rfl
    rw [hsize] at ha ⊢
    rw [smallFile_inodePos]
    refine ⟨fun hmeta => ?_, by omega⟩
    have hplaces := smallImage_metaByte hmeta
    omega

/-- The file grows to two blocks. -/
theorem smallFile_grows : ResizeCorrect smallSuper (smallImage 200 12) smallFile (0 + 2000)
    (smallFile.resize smallSuper (smallImage 200 12) 0 2000) := by
  have hdirect : ∀ i, resizeStart smallSuper smallFile ≤ i → i < resizeEnd smallSuper (0 + 2000) →
      SlotReady smallSuper (smallImage 200 12) smallFile i := fun i _ hi => Or.inl (by
    have hend : resizeEnd smallSuper (0 + 2000) = 2 := by decide
    omega)
  refine (resizeCorrect_iff 0 2000 smallFile_placed (Or.inr (Or.inr hdirect))).mpr ?_
  have hskip : ¬ ResizeSkips smallSuper smallFile (0 + 2000) := by decide
  have hcount : resizeEnd smallSuper (0 + 2000) - resizeStart smallSuper smallFile = 1 := by decide
  have halloc : allocBlocks smallSuper 1 (smallImage 200 12) =
      some (markUsed smallSuper (smallImage 200 12) .blocks 0 200, [200]) := by
    have hfirst := smallImage_alloc (b := 200) (i := 12) (by decide) (by decide) .blocks (by decide)
    change ext2AllocBlock smallSuper (smallImage 200 12) = _ at hfirst
    rw [allocBlocks, hfirst]
    rfl
  have hused : ∀ r < 8192, BitmapKind.groupBit smallSuper (markUsed smallSuper (smallImage 200 12) .blocks 0 200)
      .blocks 0 r = true := by
    intro r hr
    rw [markUsed_groupBit smallFile_placed.image (by decide) (by decide) (by decide) hr,
      smallImage_groupBit (by decide) (by decide) .blocks hr]
    by_cases hbit : r = 200
    · rw [hbit]
      rfl
    · rw [show smallClear 200 12 .blocks = 200 from rfl, decide_eq_true hbit, Bool.or_true]
  unfold ResizeMeets
  rw [if_neg hskip, hcount, halloc]
  refine ⟨by decide, fun i hi hstart => ?_, fun k hk => ?_⟩
  · -- the first block is there
    have hi : i = 0 := by
      have hstart' : resizeStart smallSuper smallFile = 1 := by decide
      omega
    rw [hi]
    refine ⟨100, ?_, by decide, hused 100 (by decide)⟩
    unfold blockAt
    rw [blockPath_direct (by decide)]
    exact (congrArg (pointer smallSuper (smallImage 200 12) · []) (smallFile_blocks 0)).trans (pointer_nil (by decide))
  · have hk : k = 0 := Nat.lt_one_iff.mp hk
    subst hk
    have hstart : resizeStart smallSuper smallFile + 0 = 1 := by decide
    refine ⟨hdirect _ (Nat.le_add_right _ _) (by omega), ?_⟩
    rw [hstart, blockPath_direct (by decide), if_neg (by decide)]
    change SlotTakes smallSuper (smallImage 200 12) smallFile _ 1 200
    refine ⟨by decide, ⟨by decide, hused 200 (by decide)⟩, fun b hb => ?_⟩
    unfold blockAt at hb
    rw [blockPath_direct (by decide)] at hb
    dsimp only at hb
    rw [smallFile_blocks, if_neg (by decide), pointer_zero] at hb
    cases hb

/-- **The size is not set** if the bytes fit in the block that the file has. -/
theorem smallFile_keeps_size : ¬ ∀ (g : Ext2Super) (disk : Memory) (ino : Inode) (start cnt : ℕ),
    FilePlaced g disk ino → ResizeCorrect g disk ino (start + cnt) (ino.resize g disk start cnt) := by
  intro h
  have hright := h smallSuper (smallImage 200 12) smallFile 0 100 smallFile_placed
  have hresize : smallFile.resize smallSuper (smallImage 200 12) 0 100 = (smallImage 200 12, smallFile, 0) := by
    rw [Inode.resize]
    exact if_pos (by decide)
  rw [hresize] at hright
  have hsized : smallFile.size32l = max smallFile.size32l (0 + 100) := (hright.grown rfl).sized
  have hzero : smallFile.size32l = 0 := by decide
  omega

end CrepOS.Analysis
