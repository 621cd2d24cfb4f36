import CrepOS.Analysis.Ext2Inode
import CrepOS.Analysis.Ext2Resize
import CrepOS.Analysis.FdBookkeeping
import CrepOS.Interface.Ext2Files

/-!
# Files that are written and read

Two bytes of files on one image are in different places (`diskPos_injective`), and the bytes of a file are not those
of an indirect block, an inode or the metadata. So the loop of `inode::write` puts the bytes to their places and
leaves the other bytes of all files (`writeData_files`), and `resize` takes only blocks that are in no file
(`resize_files`). From the two comes one step of a run (`write_step`), and from this the run.
-/

set_option autoImplicit false

namespace CrepOS.Analysis

open CrepOS.Library CrepOS.Model CrepOS.Interface

variable {g : Ext2Super} {disk disk' used : Memory} {ino : Inode} {files : Set ℕ} {i j k m n x b y e : ℕ} {ks bs : List ℕ}

/-! ## The ways to the logical blocks -/

/-- INTERNAL: the way from a member of `blocks` has the same length for all logical blocks. -/
theorem blockPath_length : (blockPath n i).2.length = (blockPath n i).1 - 11 := by
  unfold blockPath
  by_cases hdirect : i < 12
  · rw [if_pos hdirect, List.length_nil]
    omega
  · rw [if_neg hdirect]
    by_cases hsingle : i - 12 < n
    · rw [if_pos hsingle]
      rfl
    · rw [if_neg hsingle]
      by_cases hdouble : i - 12 - n < n ^ 2
      · rw [if_pos hdouble]
        rfl
      · rw [if_neg hdouble]
        rfl

/-- INTERNAL: the root of a block that is not triply indirect. -/
theorem blockPath_root (hi : i < 12 + n + n ^ 2) : (blockPath n i).1 < 14 := by
  unfold blockPath
  by_cases hdirect : i < 12
  · rw [if_pos hdirect]
    exact Nat.lt_trans hdirect (by decide)
  · rw [if_neg hdirect]
    by_cases hsingle : i - 12 < n
    · rw [if_pos hsingle]
      exact (by decide : 12 < 14)
    · rw [if_neg hsingle, if_pos (by omega)]
      exact Nat.lt_succ_self 13

/-- INTERNAL: the way to a singly indirect block. -/
theorem single_path (h : (blockPath n i).1 = 12) : 12 ≤ i ∧ (blockPath n i).2 = [i - 12] := by
  have hlow : 12 ≤ i := by
    by_contra hdirect
    rw [blockPath_direct (by omega)] at h
    dsimp only at h
    omega
  refine ⟨hlow, ?_⟩
  rw [blockPath, if_neg (by omega), if_pos (single_range h)]

/-- INTERNAL: a way leads to one block. -/
theorem path_injective (hi : i < 12 + n + n ^ 2) (heq : blockPath n i = blockPath n j) : i = j := by
  by_cases hsingle : (blockPath n i).1 = 12
  · obtain ⟨hlow, hpath⟩ := single_path hsingle
    obtain ⟨hlow', hpath'⟩ := single_path (heq ▸ hsingle)
    rw [heq, hpath'] at hpath
    have hoffset := List.singleton_inj.mp hpath
    omega
  · exact blockPath_injective (blockPath_root hi) hsingle heq

/-- INTERNAL: a way without missing blocks is that of the format. -/
theorem followEntries_pointer (h : pointer g disk b ks = some x) : followEntries g disk b ks = x := by
  induction ks generalizing b with
  | nil =>
    by_cases hb : b = 0
    · rw [hb, pointer_zero] at h
      cases h
    · rw [pointer_nil hb] at h
      exact Option.some.inj h
  | cons k ks ih =>
    by_cases hb : b = 0
    · rw [hb, pointer_zero] at h
      cases h
    · rw [pointer_cons hb] at h
      exact ih h

/-- INTERNAL: a logical block that is reached is a number of the file. -/
theorem reaches_cap (h : Reaches g disk ino i) : i < fileCapacity (g.blockSize / 4) := by
  have hrange := h.1
  unfold fileCapacity
  omega

/-- **`get_block` finds the blocks that are reached.** -/
theorem reaches_block (hbs : 1024 ≤ g.blockSize) (hbs' : g.blockSize ≤ 2 ^ 16) (h : Reaches g disk ino i) :
    blockAt g disk ino i = some (ino.getBlock g disk i) := by
  have hfits : EntriesFit (g.blockSize / 4) i := ⟨h.1, fun k hk => by
    have hlt := blockPath_lt (by omega) (reaches_cap h) hk
    omega⟩
  obtain ⟨b, hb⟩ := Option.ne_none_iff_exists'.mp h.2
  rw [getBlock_format rfl (by omega) hfits, formatBlock, followEntries_pointer hb]
  exact hb

/-- INTERNAL: the number of a logical block that is reached fits 32 bits. -/
theorem reaches_small (hbs' : g.blockSize ≤ 2 ^ 16) (h : Reaches g disk ino i) : i < 2 ^ 32 := by
  have hn : g.blockSize / 4 ≤ 2 ^ 14 := by omega
  have hsquare : (g.blockSize / 4) ^ 2 ≤ (2 ^ 14) ^ 2 := Nat.pow_le_pow_left hn 2
  have hrange := h.1
  omega

/-! ## The places of the bytes -/

/-- The image of each of its files. -/
theorem files_placed (hfiles : DiskFiles g files disk) (hk : k ∈ files) : FilePlaced g disk (readInode g disk k) where
  image := hfiles.image
  blockSize := Nat.le_trans hfiles.blockSize (by decide)
  group := hfiles.group k hk
  inode := hfiles.inode k hk
  tree m ks m' ks' x h h' := (hfiles.once k hk k hk m ks m' ks' x h h').2
  blocks m ks x h a ha := ⟨((hfiles.used k hk m ks x h).2 a ha).1, ((hfiles.used k hk m ks x h).2 a ha).2 k hk⟩

/-- INTERNAL: the block of a logical block is used by the file. -/
theorem blockAt_uses (hi : i < fileCapacity (g.blockSize / 4)) (h : blockAt g disk ino i = some b) :
    UsesAt g disk ino (blockPath (g.blockSize / 4) i).1 (blockPath (g.blockSize / 4) i).2 b :=
  ⟨i, hi, rfl, List.prefix_refl _, h⟩

/-- INTERNAL: a byte of a block is not one of another block. -/
theorem block_apart {c d : ℕ} (hc : c < g.blockSize) (hne : x ≠ b) (hd : d < g.blockSize) :
    x * g.blockSize + c ≠ b * g.blockSize + d := fun heq => hne (block_offset hc hd heq).1

/-- **An entry of an indirect block** is not in a block of bytes of a file. -/
theorem files_entry_apart {k' c d : ℕ} (hfiles : DiskFiles g files disk) (hk : k ∈ files) (hk' : k' ∈ files)
    (hentry : FileEntry g disk (readInode g disk k) m ks e x) (hi : i < fileCapacity (g.blockSize / 4))
    (hblock : blockAt g disk (readInode g disk k') i = some b) (hc : c < 4) (hd : d < g.blockSize) :
    entryAt g x e + c ≠ b * g.blockSize + d := by
  have hin := hentry.inside hfiles.image.blockSize
  have hne : x ≠ b := by
    intro heq
    subst heq
    obtain ⟨_, hm, hks⟩ := hfiles.once k hk k' hk' _ _ _ _ x hentry.uses (blockAt_uses hi hblock)
    obtain ⟨j, _, hroot, hway⟩ := hentry.way
    have hlength := hway.length_le
    rw [blockPath_length, List.length_append, hroot, hm, hks, blockPath_length] at hlength
    exact Nat.not_succ_le_self _ hlength
  unfold entryAt
  rw [Nat.add_assoc]
  exact block_apart (by omega) hne hd

/-- INTERNAL: where a byte of a file is. -/
theorem files_diskPos (hfiles : DiskFiles g files disk) (h : Reaches g disk ino (y / g.blockSize)) :
    ∃ b, blockAt g disk ino (y / g.blockSize) = some b ∧ ino.diskPos g disk y = b * g.blockSize + y % g.blockSize := by
  refine ⟨_, reaches_block hfiles.image.blockSize hfiles.blockSize h, ?_⟩
  rw [Inode.diskPos, Nat.mod_eq_of_lt (reaches_small hfiles.blockSize h)]

/-- **Two bytes of files** are in different places. -/
theorem diskPos_injective {k' y' : ℕ} (hfiles : DiskFiles g files disk) (hk : k ∈ files) (hk' : k' ∈ files)
    (h : Reaches g disk (readInode g disk k) (y / g.blockSize))
    (h' : Reaches g disk (readInode g disk k') (y' / g.blockSize))
    (heq : (readInode g disk k).diskPos g disk y = (readInode g disk k').diskPos g disk y') : k = k' ∧ y = y' := by
  have hbs : 0 < g.blockSize := Nat.lt_of_lt_of_le (by decide) hfiles.image.blockSize
  obtain ⟨b, hblock, hpos⟩ := files_diskPos hfiles h
  obtain ⟨b', hblock', hpos'⟩ := files_diskPos hfiles h'
  rw [hpos, hpos'] at heq
  obtain ⟨rfl, hoffset⟩ := block_offset (Nat.mod_lt y hbs) (Nat.mod_lt y' hbs) heq
  obtain ⟨hfile, hroot, hpath⟩ :=
    hfiles.once k hk k' hk' _ _ _ _ b (blockAt_uses (reaches_cap h) hblock) (blockAt_uses (reaches_cap h') hblock')
  have hindex := path_injective h.1 (Prod.ext hroot hpath)
  refine ⟨hfile, ?_⟩
  rw [← Nat.div_add_mod y g.blockSize, ← Nat.div_add_mod y' g.blockSize, hindex, hoffset]

/-! ## Bytes of files -/

/-- The byte is not in a block of bytes of a file. -/
def OutsideBytes (g : Ext2Super) (files : Set ℕ) (disk : Memory) (y : ℕ) : Prop :=
  ∀ k ∈ files, ∀ i < fileCapacity (g.blockSize / 4), ∀ b, blockAt g disk (readInode g disk k) i = some b →
    ∀ d < g.blockSize, y ≠ b * g.blockSize + d

/-- The disks have the same metadata, inodes and indirect blocks. -/
structure SameFiles (g : Ext2Super) (files : Set ℕ) (disk disk' : Memory) : Prop where
  sameMeta : SameMeta g disk disk'
  inodes : ∀ k ∈ files, readInode g disk' k = readInode g disk k
  entries : ∀ k ∈ files, ∀ i < fileCapacity (g.blockSize / 4), ∀ ks, ks <+: (blockPath (g.blockSize / 4) i).2 →
    pointer g disk' ((readInode g disk k).blocks (blockPath (g.blockSize / 4) i).1) ks =
      pointer g disk ((readInode g disk k).blocks (blockPath (g.blockSize / 4) i).1) ks

/-- INTERNAL: an inode stays where it is. -/
theorem inodePos_same (hfiles : DiskFiles g files disk) (hsame : SameMeta g disk disk') (hk : k ∈ files) :
    inodePos g disk' k = inodePos g disk k :=
  @inodePos_tables g disk disk' (readInode g disk k) (hfiles.group k hk) fun _ hG => hsame.word hG (by decide)

/-- **Bytes of files** are apart from all else. -/
theorem sameFiles_of_bytes (hfiles : DiskFiles g files disk) (h : ∀ y, OutsideBytes g files disk y → disk' y = disk y) :
    SameFiles g files disk disk' := by
  have hmeta : SameMeta g disk disk' := by
    intro y hy
    refine h y fun k hk i hi b hb d hd heq => ?_
    rw [heq] at hy
    exact ((hfiles.used k hk _ _ b (blockAt_uses hi hb)).2 d hd).1 hy
  refine ⟨hmeta, fun k hk => ?_, fun k hk i hi ks hway => ?_⟩
  · unfold readInode
    rw [inodePos_same hfiles hmeta hk]
    congr 1
    funext a
    unfold Memory.load
    by_cases ha : a < rawInodeSize
    · rw [if_pos ha, if_pos ha]
      refine h _ fun k' hk' i hi b hb d hd heq => ?_
      have hout := ((hfiles.used k' hk' _ _ b (blockAt_uses hi hb)).2 d hd).2 k hk
      omega
    · rw [if_neg ha, if_neg ha]
  · apply pointer_congr
    intro ks' e x hway' hpointer
    have hentry : FileEntry g disk (readInode g disk k) (blockPath (g.blockSize / 4) i).1 ks' e x :=
      ⟨⟨i, hi, rfl, hway'.trans hway⟩, hpointer⟩
    apply Memory.word_congr
    intro c hc
    exact h _ fun k' hk' i' hi' b hb d hd => files_entry_apart hfiles hk hk' hentry hi' hb hc hd

theorem SameFiles.usesAt_iff (h : SameFiles g files disk disk') (hk : k ∈ files) :
    UsesAt g disk' (readInode g disk' k) m ks x ↔ UsesAt g disk (readInode g disk k) m ks x := by
  unfold UsesAt
  rw [h.inodes k hk]
  refine exists_congr fun i => and_congr_right fun hi => and_congr_right fun hm => and_congr_right fun hway => ?_
  rw [← hm, h.entries k hk i hi ks hway]

theorem SameFiles.blockAt_eq (h : SameFiles g files disk disk') (hk : k ∈ files)
    (hi : i < fileCapacity (g.blockSize / 4)) :
    blockAt g disk' (readInode g disk' k) i = blockAt g disk (readInode g disk k) i := by
  unfold blockAt
  rw [h.inodes k hk]
  exact h.entries k hk i hi _ (List.prefix_refl _)

theorem SameFiles.reaches_iff (h : SameFiles g files disk disk') (hk : k ∈ files) :
    Reaches g disk' (readInode g disk' k) i ↔ Reaches g disk (readInode g disk k) i := by
  unfold Reaches
  refine and_congr_right fun hi => ?_
  rw [h.blockAt_eq hk (by unfold fileCapacity; omega)]

/-- **Files stay files** when only their bytes change. -/
theorem SameFiles.diskFiles (h : SameFiles g files disk disk') (hfiles : DiskFiles g files disk) :
    DiskFiles g files disk' := by
  have himage := hfiles.image
  have hpos : ∀ k ∈ files, inodePos g disk' k = inodePos g disk k := fun k hk => inodePos_same hfiles h.sameMeta hk
  have hdata : ∀ x, DataBlock g disk files x → DataBlock g disk' files x := by
    intro x hx a ha
    refine ⟨fun hmeta => (hx a ha).1 (h.sameMeta.metaByte_iff.mp hmeta), fun k hk => ?_⟩
    rw [hpos k hk]
    exact (hx a ha).2 k hk
  exact {
    image := h.sameMeta.image himage
    blockSize := hfiles.blockSize
    sectors := hfiles.sectors
    fewGroups := hfiles.fewGroups
    group := hfiles.group
    inode := fun k hk a ha hmeta => by
      rw [hpos k hk] at hmeta
      exact hfiles.inode k hk a ha (h.sameMeta.metaByte_iff.mp hmeta)
    apart := fun k hk k' hk' hne => by
      rw [hpos k hk, hpos k' hk']
      exact hfiles.apart k hk k' hk' hne
    once := fun k hk k' hk' m ks m' ks' x hx hx' =>
      hfiles.once k hk k' hk' m ks m' ks' x ((h.usesAt_iff hk).mp hx) ((h.usesAt_iff hk').mp hx')
    used := fun k hk m ks x hx => by
      obtain ⟨hused, hblock⟩ := hfiles.used k hk m ks x ((h.usesAt_iff hk).mp hx)
      exact ⟨(h.sameMeta.allocated (himage.perGroup_le .blocks) (himage.perGroup_pos .blocks)).mpr hused, hdata x hblock⟩
    free := fun x hx hclear => by
      have hbound := himage.perGroup_le .blocks
      dsimp only [BitmapKind.perGroup] at hbound
      rw [h.sameMeta.groupBit .blocks himage.groups (by omega)] at hclear
      exact ⟨(hfiles.free x hx hclear).1, hdata x (hfiles.free x hx hclear).2⟩
    sized := fun k hk => by
      rw [h.inodes k hk]
      exact hfiles.sized k hk }

/-! ## The loop of `write` -/

/-- INTERNAL: a byte stays where it is. -/
theorem SameFiles.diskPos_eq (h : SameFiles g files disk disk') (hfiles : DiskFiles g files disk) (hk : k ∈ files)
    (hreach : Reaches g disk (readInode g disk k) (y / g.blockSize)) :
    (readInode g disk' k).diskPos g disk' y = (readInode g disk k).diskPos g disk y := by
  obtain ⟨b, hblock, hpos⟩ := files_diskPos hfiles hreach
  obtain ⟨b', hblock', hpos'⟩ := files_diskPos (h.diskFiles hfiles) ((h.reaches_iff hk).mpr hreach)
  rw [h.blockAt_eq hk (reaches_cap hreach), hblock] at hblock'
  obtain rfl := Option.some.inj hblock'
  rw [hpos, hpos']

/-- **The loop of `inode::write`** puts the bytes to their places in the file and changes no other byte.
SRCLINE: kernel/fs/ext2/inode.cpp:55-69 -/
theorem writeData_files {off cnt : ℕ} (buf : Memory) (hfiles : DiskFiles g files disk) (hk : k ∈ files)
    (hreach : ∀ a < cnt, Reaches g disk (readInode g disk k) ((off + a) / g.blockSize))
    (hino : ∀ d, ∀ a < cnt, ino.diskPos g d (off + a) = (readInode g disk k).diskPos g d (off + a)) :
    SameFiles g files disk (writeData g disk ino off cnt buf) ∧
      (∀ a < cnt, writeData g disk ino off cnt buf ((readInode g disk k).diskPos g disk (off + a)) = buf a) ∧
      ∀ y, (∀ a < cnt, y ≠ (readInode g disk k).diskPos g disk (off + a)) →
        writeData g disk ino off cnt buf y = disk y := by
  have hbs : 0 < g.blockSize := Nat.lt_of_lt_of_le (by decide) hfiles.image.blockSize
  have hsame : ∀ d : Memory, (∀ y, (∀ a < cnt, y ≠ (readInode g disk k).diskPos g disk (off + a)) → d y = disk y) →
      SameFiles g files disk d := by
    intro d hd
    refine sameFiles_of_bytes hfiles fun y hy => hd y fun a ha heq => ?_
    obtain ⟨b, hblock, hpos⟩ := files_diskPos hfiles (hreach a ha)
    exact hy k hk _ (reaches_cap (hreach a ha)) b hblock _ (Nat.mod_lt _ hbs) (heq.trans hpos)
  obtain ⟨hwritten, hothers⟩ := writeData_apply hbs (fun a => (readInode g disk k).diskPos g disk (off + a))
    (fun d hd a ha => by
      have hpos := (hsame d hd).diskPos_eq hfiles hk (hreach a ha)
      rw [(hsame d hd).inodes k hk] at hpos
      exact (hino d a ha).trans hpos)
    (fun a ha a' ha' heq => by
      have hsum := (diskPos_injective hfiles hk hk (hreach a ha) (hreach a' ha') heq).2
      omega) buf
  exact ⟨hsame _ hothers, hwritten, hothers⟩

/-- INTERNAL: what the files contain after the loop. -/
theorem writeData_bytes {off cnt k' : ℕ} (buf : Memory) (hfiles : DiskFiles g files disk) (hk : k ∈ files)
    (hreach : ∀ a < cnt, Reaches g disk (readInode g disk k) ((off + a) / g.blockSize))
    (hino : ∀ d, ∀ a < cnt, ino.diskPos g d (off + a) = (readInode g disk k).diskPos g d (off + a)) (hk' : k' ∈ files)
    (hy : Reaches g disk (readInode g disk k') (y / g.blockSize)) :
    fileBytes g (writeData g disk ino off cnt buf) (readInode g (writeData g disk ino off cnt buf) k') y =
      if k = k' ∧ off ≤ y ∧ y < off + cnt then buf (y - off) else fileBytes g disk (readInode g disk k') y := by
  obtain ⟨hsame, hwritten, hothers⟩ := writeData_files buf hfiles hk hreach hino
  unfold fileBytes
  rw [hsame.diskPos_eq hfiles hk' hy]
  by_cases hhas : k = k' ∧ off ≤ y ∧ y < off + cnt
  · obtain ⟨rfl, hlow, hhigh⟩ := hhas
    obtain ⟨a, rfl⟩ : ∃ a, y = off + a := ⟨y - off, by omega⟩
    rw [hwritten a (by omega), if_pos ⟨rfl, hlow, hhigh⟩, Nat.add_sub_cancel_left]
  · rw [if_neg hhas]
    refine hothers _ fun a ha heq => hhas ?_
    obtain ⟨hfile, hsum⟩ := diskPos_injective hfiles hk' hk hy (hreach a ha) heq
    exact ⟨hfile.symm, by omega, by omega⟩

/-! ## Blocks that are free -/

/-- INTERNAL: a block that is allocated is that of a clear bit of the first group. -/
theorem allocBlock_first (himage : Ext2Image g disk) (hfew : g.bgdCnt ≤ g.inodesPerGroup)
    (halloc : ext2AllocBlock g disk = (disk', some b)) :
    b < g.blocksPerGroup ∧ BitmapKind.groupBit g disk .blocks 0 b = false ∧
      BitmapKind.groupBit g disk' .blocks 0 b = true := by
  cases allocBlock_same (show SameMeta g disk disk from fun _ _ => rfl) himage with
  | inl hnone =>
    rw [hnone.1] at halloc
    cases halloc
  | inr hsome =>
    obtain ⟨D, r, hgroups, hD, hclear, halloc', _⟩ := hsome
    have hzero : D = 0 := by
      by_contra hpos
      have hle := Nat.le_mul_of_pos_left g.inodesPerGroup (Nat.pos_of_ne_zero hpos)
      omega
    subst hzero
    rw [halloc', numberOf, Nat.zero_mul, Nat.zero_mul, Nat.zero_add] at halloc
    cases halloc
    obtain ⟨hlow, hbit⟩ := groupClear_some hclear
    have hr : b < 8 * g.blockSize := by omega
    refine ⟨clear_lt_perGroup himage hD hr hbit, hbit, ?_⟩
    rw [markUsed_groupBit himage hD hr hD hr, decide_eq_true rfl, Bool.true_or]

/-- **Blocks that are allocated** were free, and are different. -/
theorem allocBlocks_fresh (himage : Ext2Image g disk) (hfew : g.bgdCnt ≤ g.inodesPerGroup)
    (h : allocBlocks g n disk = some (used, bs)) :
    bs.Nodup ∧ ∀ b ∈ bs, b < g.blocksPerGroup ∧ BitmapKind.groupBit g disk .blocks 0 b = false ∧
      BitmapKind.groupBit g used .blocks 0 b = true := by
  induction n generalizing disk bs with
  | zero =>
    cases h
    exact ⟨List.nodup_nil, fun b hb => absurd hb List.not_mem_nil⟩
  | succ n ih =>
    obtain ⟨disk', b, bs', halloc, hrest, rfl⟩ := allocBlocks_succ h
    obtain ⟨hb, hclear, hset⟩ := allocBlock_first himage hfew halloc
    have hstep := allocBlock_step himage halloc
    obtain ⟨hnodup, hothers⟩ := ih hstep.image hrest
    have hbound : ∀ b < g.blocksPerGroup, b < 8 * g.blockSize := fun b hb =>
      Nat.lt_of_lt_of_le hb (himage.perGroup_le .blocks)
    refine ⟨List.nodup_cons.mpr ⟨fun hmem => ?_, hnodup⟩, List.forall_mem_cons.mpr ⟨⟨hb, hclear, ?_⟩, fun c hc => ?_⟩⟩
    · rw [(hothers b hmem).2.1] at hset
      cases hset
    · exact (allocBlocks_run hstep.image hrest).1.kept 0 himage.groups b (hbound b hb) hset
    · obtain ⟨hlt, hclear', hset'⟩ := hothers c hc
      refine ⟨hlt, ?_, hset'⟩
      by_contra hwas
      rw [hstep.kept 0 himage.groups c (hbound c hlt) (Bool.eq_true_of_not_eq_false hwas)] at hclear'
      cases hclear'

/-! ## The disk after `resize` -/

/-- The disk after some blocks were allocated and the inode `ino` of the file `k` was written. -/
structure GrownDisk (g : Ext2Super) (disk used disk' : Memory) (k : ℕ) (ino : Inode) : Prop where
  run : AllocRun g disk used
  sameMeta : SameMeta g used disk'
  outside : ∀ a, a < inodePos g disk k ∨ inodePos g disk k + rawInodeSize ≤ a → disk' a = used a
  written : OnDisk g disk' ino
  index : ino.index = k

theorem GrownDisk.places (h : GrownDisk g disk used disk' k ino) : MetaByte g disk' y ↔ MetaByte g disk y :=
  h.sameMeta.metaByte_iff.trans (h.run.places y)

theorem GrownDisk.place {k' : ℕ} (h : GrownDisk g disk used disk' k ino) (hfiles : DiskFiles g files disk)
    (hk' : k' ∈ files) : inodePos g disk' k' = inodePos g disk k' :=
  @inodePos_tables g disk disk' (readInode g disk k') (hfiles.group k' hk') fun G hG =>
    (h.sameMeta.word hG (by decide)).trans (h.run.tables G hG)

/-- INTERNAL: a byte that is not written. -/
theorem GrownDisk.kept (h : GrownDisk g disk used disk' k ino) (hmeta : ¬ MetaByte g disk y)
    (hout : y < inodePos g disk k ∨ inodePos g disk k + rawInodeSize ≤ y) : disk' y = disk y :=
  (h.outside y hout).trans (h.run.outside y hmeta)

/-- INTERNAL: the other inodes. -/
theorem GrownDisk.other {k' : ℕ} (h : GrownDisk g disk used disk' k ino) (hfiles : DiskFiles g files disk)
    (hk : k ∈ files) (hk' : k' ∈ files) (hne : k' ≠ k) : readInode g disk' k' = readInode g disk k' := by
  unfold readInode
  rw [h.place hfiles hk']
  congr 1
  funext a
  unfold Memory.load
  by_cases ha : a < rawInodeSize
  · rw [if_pos ha, if_pos ha]
    have hapart := hfiles.apart k' hk' k hk hne
    exact h.kept (hfiles.inode k' hk' a ha) (by omega)
  · rw [if_neg ha, if_neg ha]

/-- INTERNAL: a word of the inode. -/
theorem GrownDisk.word {a l : ℕ} (h : GrownDisk g disk used disk' k ino) (ha : a + l ≤ rawInodeSize) :
    (readInode g disk' k).raw.word a l = ino.raw.word a l := by
  apply Memory.word_congr
  intro c hc
  have hwritten := h.written (a + c) (by omega)
  rw [h.index] at hwritten
  exact (Memory.load_of_lt (by omega)).trans hwritten

/-- INTERNAL: the blocks of the inode. -/
theorem GrownDisk.blocks (h : GrownDisk g disk used disk' k ino) (hm : m < 15) :
    (readInode g disk' k).blocks m = ino.blocks m := by
  have hsize : rawInodeSize = 116 := rfl
  exact h.word (by omega)

/-- INTERNAL: the bytes of a block of a file. -/
theorem GrownDisk.data {c : ℕ} (h : GrownDisk g disk used disk' k ino) (hk : k ∈ files) (hx : DataBlock g disk files x)
    (hc : c < g.blockSize) : disk' (x * g.blockSize + c) = disk (x * g.blockSize + c) :=
  h.kept (hx c hc).1 ((hx c hc).2 k hk)

/-- INTERNAL: the ways through the indirect blocks. -/
theorem GrownDisk.way {k' : ℕ} (h : GrownDisk g disk used disk' k ino) (hfiles : DiskFiles g files disk)
    (hk : k ∈ files) (hk' : k' ∈ files) (hi : i < fileCapacity (g.blockSize / 4))
    (hway : ks <+: (blockPath (g.blockSize / 4) i).2) :
    pointer g disk' ((readInode g disk k').blocks (blockPath (g.blockSize / 4) i).1) ks =
      pointer g disk ((readInode g disk k').blocks (blockPath (g.blockSize / 4) i).1) ks := by
  apply pointer_congr
  intro ks' e x hway' hpointer
  have hentry : FileEntry g disk (readInode g disk k') (blockPath (g.blockSize / 4) i).1 ks' e x :=
    ⟨⟨i, hi, rfl, hway'.trans hway⟩, hpointer⟩
  have hin := hentry.inside hfiles.image.blockSize
  apply Memory.word_congr
  intro c hc
  unfold entryAt
  rw [Nat.add_assoc]
  exact h.data hk (hfiles.used k' hk' _ _ x hentry.uses).2 (by omega)

theorem GrownDisk.dataBlock (h : GrownDisk g disk used disk' k ino) (hfiles : DiskFiles g files disk)
    (hx : DataBlock g disk files x) : DataBlock g disk' files x := by
  intro a ha
  refine ⟨fun hmeta => (hx a ha).1 (h.places.mp hmeta), fun k' hk' => ?_⟩
  rw [h.place hfiles hk']
  exact (hx a ha).2 k' hk'

/-- INTERNAL: a bit that is set stays so. -/
theorem GrownDisk.bit {r : ℕ} (h : GrownDisk g disk used disk' k ino) (hG : n < g.bgdCnt) (hr : r < 8 * g.blockSize)
    (hset : BitmapKind.groupBit g disk .blocks n r = true) : BitmapKind.groupBit g disk' .blocks n r = true :=
  (h.sameMeta.groupBit .blocks hG hr).trans (h.run.kept n hG r hr hset)

/-- The blocks `bs` were added to the file `k` from the logical block `s` on, which are direct ones. -/
structure DirectGrowth (g : Ext2Super) (disk used disk' : Memory) (k : ℕ) (ino : Inode) (s : ℕ) (bs : List ℕ) : Prop
    extends GrownDisk g disk used disk' k ino where
  nodup : bs.Nodup
  fresh : ∀ b ∈ bs, b < g.blocksPerGroup ∧ BitmapKind.groupBit g disk .blocks 0 b = false ∧
    BitmapKind.groupBit g used .blocks 0 b = true
  direct : s + bs.length ≤ 12
  start : s = (sectorBytes g (readInode g disk k) + g.blockSize - 1) / g.blockSize
  sector : sectorBytes g ino = sectorBytes g (readInode g disk k) + bs.length * g.blockSize
  old : ∀ m, 12 ≤ m ∨ m < s ∨ s + bs.length ≤ m → ino.blocks m = (readInode g disk k).blocks m
  new : ∀ l (hl : l < bs.length), ino.blocks (s + l) = bs[l]

/-- INTERNAL: rounding up. -/
theorem lt_roundup_iff {S c : ℕ} (hc : 0 < c) : i < (S + c - 1) / c ↔ i * c < S := by
  rw [← Nat.succ_le_iff, Nat.le_div_iff_mul_le hc, Nat.succ_mul]
  omega

/-- INTERNAL: the direct blocks of a file are those of its sectors. -/
theorem DirectGrowth.old_blocks {s : ℕ} (h : DirectGrowth g disk used disk' k ino s bs) (hfiles : DiskFiles g files disk)
    (hk : k ∈ files) (hi : i < 12) : (readInode g disk k).blocks i ≠ 0 ↔ i < s := by
  rw [(hfiles.sized k hk).2 i hi, h.start,
    lt_roundup_iff (Nat.lt_of_lt_of_le (by decide) hfiles.image.blockSize)]

/-- INTERNAL: the root of a logical block is a member of `blocks`. -/
theorem blockPath_root_le : (blockPath n i).1 < 15 := by
  unfold blockPath
  by_cases hdirect : i < 12
  · rw [if_pos hdirect]
    exact Nat.lt_trans hdirect (by decide)
  · rw [if_neg hdirect]
    by_cases hsingle : i - 12 < n
    · rw [if_pos hsingle]
      exact (by decide : 12 < 15)
    · rw [if_neg hsingle]
      by_cases hdouble : i - 12 - n < n ^ 2
      · rw [if_pos hdouble]
        exact (by decide : 13 < 15)
      · rw [if_neg hdouble]
        exact Nat.lt_succ_self 14

/-- INTERNAL: the ways to logical blocks that are not new. -/
theorem DirectGrowth.old_way {s k' : ℕ} (h : DirectGrowth g disk used disk' k ino s bs)
    (hfiles : DiskFiles g files disk) (hk : k ∈ files) (hk' : k' ∈ files) (hi : i < fileCapacity (g.blockSize / 4))
    (hold : k' = k → ¬ (s ≤ i ∧ i < s + bs.length)) (hway : ks <+: (blockPath (g.blockSize / 4) i).2) :
    pointer g disk' ((readInode g disk' k').blocks (blockPath (g.blockSize / 4) i).1) ks =
      pointer g disk ((readInode g disk k').blocks (blockPath (g.blockSize / 4) i).1) ks := by
  have hdirect := h.direct
  rw [← h.way hfiles hk hk' hi hway]
  by_cases hfile : k' = k
  · subst hfile
    have hsame := hold rfl
    rw [h.blocks blockPath_root_le, h.old]
    by_cases hlow : i < 12
    · rw [blockPath_direct hlow]
      dsimp only
      omega
    · exact Or.inl (blockPath_indirect (Nat.le_of_not_lt hlow))
  · rw [h.other hfiles hk hk' hfile]

/-- **The blocks that are used afterwards** are those that were, and the new ones. -/
theorem DirectGrowth.uses {s k' : ℕ} (h : DirectGrowth g disk used disk' k ino s bs) (hfiles : DiskFiles g files disk)
    (hk : k ∈ files) (hk' : k' ∈ files) (huses : UsesAt g disk' (readInode g disk' k') m ks x) :
    UsesAt g disk (readInode g disk k') m ks x ∨
      k' = k ∧ ks = [] ∧ ∃ l, ∃ hl : l < bs.length, m = s + l ∧ x = bs[l] := by
  have hdirect := h.direct
  obtain ⟨i, hi, hm, hway, hpointer⟩ := huses
  by_cases hnew : k' = k ∧ s ≤ i ∧ i < s + bs.length
  · obtain ⟨rfl, hlow, hhigh⟩ := hnew
    obtain ⟨l, rfl⟩ : ∃ l, i = s + l := ⟨i - s, by omega⟩
    have hl : l < bs.length := by omega
    rw [blockPath_direct (by omega)] at hm hway
    have hks : ks = [] := List.prefix_nil.mp hway
    dsimp only at hm
    subst hm
    rw [hks, h.blocks (by omega), h.new l hl] at hpointer
    refine Or.inr ⟨rfl, hks, l, hl, rfl, ?_⟩
    by_cases hzero : bs[l] = 0
    · rw [hzero, pointer_zero] at hpointer
      cases hpointer
    · rw [pointer_nil hzero] at hpointer
      exact (Option.some.inj hpointer).symm
  · have hsame := h.old_way hfiles hk hk' hi (fun hfile hrange => hnew ⟨hfile, hrange⟩) hway
    rw [hm] at hsame
    exact Or.inl ⟨i, hi, hm, hway, hsame.symm.trans hpointer⟩

/-- **The blocks that were there** are there afterwards. -/
theorem DirectGrowth.blockAt_old {s k' : ℕ} (h : DirectGrowth g disk used disk' k ino s bs)
    (hfiles : DiskFiles g files disk) (hk : k ∈ files) (hk' : k' ∈ files) (hi : i < fileCapacity (g.blockSize / 4))
    (hblock : blockAt g disk (readInode g disk k') i = some b) : blockAt g disk' (readInode g disk' k') i = some b := by
  have hdirect := h.direct
  refine (h.old_way hfiles hk hk' hi (fun hfile hrange => ?_) (List.prefix_refl _)).trans hblock
  subst hfile
  have hlow : i < 12 := by omega
  have hzero : (readInode g disk k').blocks i = 0 := by
    by_contra hne
    have hbefore := (h.old_blocks hfiles hk hlow).mp hne
    omega
  unfold blockAt at hblock
  rw [blockPath_direct hlow, hzero, pointer_zero] at hblock
  cases hblock

/-- INTERNAL: the direct blocks afterwards. -/
theorem DirectGrowth.blocks_iff {s : ℕ} (h : DirectGrowth g disk used disk' k ino s bs) (hfiles : DiskFiles g files disk)
    (hk : k ∈ files) (hi : i < 12) : (readInode g disk' k).blocks i ≠ 0 ↔ i < s + bs.length := by
  rw [h.blocks (by omega)]
  by_cases hnew : s ≤ i ∧ i < s + bs.length
  · obtain ⟨l, rfl⟩ : ∃ l, i = s + l := ⟨i - s, by omega⟩
    have hl : l < bs.length := by omega
    obtain ⟨hlt, hclear, _⟩ := h.fresh bs[l] (List.getElem_mem hl)
    rw [h.new l hl]
    exact ⟨fun _ => hnew.2, fun _ => (hfiles.free _ hlt hclear).1⟩
  · rw [h.old i (by omega), h.old_blocks hfiles hk hi]
    omega

/-- **Files stay files** when one of them grows. -/
theorem DirectGrowth.diskFiles {s : ℕ} (h : DirectGrowth g disk used disk' k ino s bs)
    (hfiles : DiskFiles g files disk) (hk : k ∈ files) : DiskFiles g files disk' := by
  have himage := hfiles.image
  have hbs : 0 < g.blockSize := Nat.lt_of_lt_of_le (by decide) himage.blockSize
  have hperGroup := himage.perGroup_pos .blocks
  have hbound := himage.perGroup_le .blocks
  dsimp only [BitmapKind.perGroup] at hperGroup hbound
  -- a block that is new was not in use
  have hnew : ∀ l (hl : l < bs.length), ¬ Allocated g disk bs[l] := by
    intro l hl hused
    obtain ⟨hlt, hclear, _⟩ := h.fresh bs[l] (List.getElem_mem hl)
    have hset := hused.2
    rw [Nat.div_eq_of_lt hlt, Nat.mod_eq_of_lt hlt, hclear] at hset
    cases hset
  have hsector : sectorBytes g (readInode g disk' k) = sectorBytes g ino := by
    unfold sectorBytes
    rw [show (readInode g disk' k).sectorCnt = ino.sectorCnt from h.word (by decide)]
  exact {
    image := h.sameMeta.image h.run.image
    blockSize := hfiles.blockSize
    sectors := hfiles.sectors
    fewGroups := hfiles.fewGroups
    group := hfiles.group
    inode := fun k' hk' a ha hmeta => by
      rw [h.place hfiles hk'] at hmeta
      exact hfiles.inode k' hk' a ha (h.places.mp hmeta)
    apart := fun k₁ hk₁ k₂ hk₂ hne => by
      rw [h.place hfiles hk₁, h.place hfiles hk₂]
      exact hfiles.apart k₁ hk₁ k₂ hk₂ hne
    once := fun k₁ hk₁ k₂ hk₂ m₁ ks₁ m₂ ks₂ x h₁ h₂ => by
      cases h.uses hfiles hk hk₁ h₁ with
      | inl hold₁ =>
        cases h.uses hfiles hk hk₂ h₂ with
        | inl hold₂ => exact hfiles.once k₁ hk₁ k₂ hk₂ m₁ ks₁ m₂ ks₂ x hold₁ hold₂
        | inr hnew₂ =>
          obtain ⟨_, _, l, hl, _, rfl⟩ := hnew₂
          exact absurd (hfiles.used k₁ hk₁ _ _ _ hold₁).1 (hnew l hl)
      | inr hnew₁ =>
        obtain ⟨rfl, rfl, l, hl, rfl, rfl⟩ := hnew₁
        cases h.uses hfiles hk hk₂ h₂ with
        | inl hold₂ => exact absurd (hfiles.used k₂ hk₂ _ _ _ hold₂).1 (hnew l hl)
        | inr hnew₂ =>
          obtain ⟨rfl, rfl, l', hl', rfl, heq⟩ := hnew₂
          rw [(h.nodup.getElem_inj_iff).mp heq]
          exact ⟨rfl, rfl, rfl⟩
    used := fun k' hk' m ks x hx => by
      cases h.uses hfiles hk hk' hx with
      | inl hold =>
        obtain ⟨⟨hgroup, hset⟩, hdata⟩ := hfiles.used k' hk' m ks x hold
        have hr : x % g.blocksPerGroup < 8 * g.blockSize := Nat.lt_of_lt_of_le (Nat.mod_lt x hperGroup) hbound
        exact ⟨⟨hgroup, h.bit hgroup hr hset⟩, h.dataBlock hfiles hdata⟩
      | inr hnew =>
        obtain ⟨_, _, l, hl, _, rfl⟩ := hnew
        obtain ⟨hlt, hclear, hset⟩ := h.fresh bs[l] (List.getElem_mem hl)
        refine ⟨?_, h.dataBlock hfiles (hfiles.free _ hlt hclear).2⟩
        unfold Allocated
        rw [Nat.div_eq_of_lt hlt, Nat.mod_eq_of_lt hlt, h.sameMeta.groupBit .blocks himage.groups (by omega)]
        exact ⟨himage.groups, hset⟩
    free := fun x hx hclear => by
      have hbefore : BitmapKind.groupBit g disk .blocks 0 x = false := by
        by_contra hset
        rw [h.bit himage.groups (by omega) (Bool.eq_true_of_not_eq_false hset)] at hclear
        cases hclear
      exact ⟨(hfiles.free x hx hbefore).1, h.dataBlock hfiles (hfiles.free x hx hbefore).2⟩
    sized := fun k' hk' => by
      by_cases hfile : k' = k
      · subst hfile
        have hroundup : (sectorBytes g (readInode g disk k') + bs.length * g.blockSize + g.blockSize - 1) / g.blockSize =
            s + bs.length := by
          rw [h.start, ← Nat.add_mul_div_right _ _ hbs]
          congr 1
          omega
        rw [hsector, h.sector]
        refine ⟨?_, fun i hi => ?_⟩
        · have hle : ¬ 12 * g.blockSize < sectorBytes g (readInode g disk k') + bs.length * g.blockSize := by
            rw [← lt_roundup_iff hbs, hroundup]
            have hdirect := h.direct
            omega
          have hsize := hfiles.blockSize
          omega
        · rw [h.blocks_iff hfiles hk' hi, ← lt_roundup_iff hbs, hroundup]
      · rw [h.other hfiles hk hk' hfile]
        exact hfiles.sized k' hk' }

/-! ## What `resize` does -/

/-- INTERNAL: the sectors of the inode that has grown. The induction is on the blocks.
SRCLINE: kernel/fs/ext2/inode.cpp:89 -/
theorem growInode_sectorCnt (hsmall : ino.sectorCnt + bs.length * (g.blockSize / g.sectorSize) < 2 ^ 32) :
    (growInode g i bs ino).sectorCnt = ino.sectorCnt + bs.length * (g.blockSize / g.sectorSize) := by
  induction bs generalizing i ino with
  | nil => exact (Nat.add_zero _).symm.trans (by rw [List.length_nil, Nat.zero_mul]; rfl)
  | cons b bs ih =>
    rw [List.length_cons, Nat.succ_mul] at hsmall ⊢
    have hset : (ino.setSectorCnt (ino.sectorCnt + g.blockSize / g.sectorSize)).sectorCnt =
        ino.sectorCnt + g.blockSize / g.sectorSize := Memory.word_setWord_of_lt (by omega)
    have hblocks : ∀ c : Inode, (c.setBlocks i b).sectorCnt = c.sectorCnt := fun c =>
      Memory.word_setWord_outside (by omega)
    rw [growInode]
    by_cases hi : i < 12
    · rw [if_pos hi, ih (by rw [hblocks, hset]; omega), hblocks, hset]
      omega
    · rw [if_neg hi, ih (by rw [hset]; omega), hset]
      omega

/-- INTERNAL: nothing is written to indirect blocks. -/
theorem leafWrites_direct (h : i + bs.length ≤ 12) : leafWrites g disk ino i bs = [] := by
  refine List.eq_nil_iff_forall_not_mem.mpr fun w hw => ?_
  obtain ⟨l, hl, hdouble, _⟩ := mem_leafWrites hw
  rw [IsDouble, blockPath_direct (by omega)] at hdouble
  dsimp only at hdouble
  omega

/-- INTERNAL: the first block that is added. -/
theorem resizeStart_files (hfiles : DiskFiles g files disk) (hk : k ∈ files) :
    resizeStart g (readInode g disk k) = (sectorBytes g (readInode g disk k) + g.blockSize - 1) / g.blockSize :=
  (resizeEnd_eq (files_placed hfiles hk) (Nat.lt_trans (hfiles.sized k hk).1 (by decide))).1

/-- **`resize` in the direct blocks** takes new blocks for the file.
SRCLINE: kernel/fs/ext2/inode.cpp:72-97 -/
theorem resize_direct {off cnt : ℕ} (hfiles : DiskFiles g files disk) (hk : k ∈ files)
    (hsize : off + cnt ≤ 12 * g.blockSize) (hskip : ¬ ResizeSkips g (readInode g disk k) (off + cnt))
    (halloc : allocBlocks g (resizeEnd g (off + cnt) - resizeStart g (readInode g disk k)) disk = some (used, bs)) :
    ∃ disk' ino, (readInode g disk k).resize g disk off cnt = (disk', ino, 0) ∧
      DirectGrowth g disk used disk' k ino (resizeStart g (readInode g disk k)) bs ∧
      bs.length = (off + cnt + g.blockSize - 1) / g.blockSize - resizeStart g (readInode g disk k) := by
  have hbs : 0 < g.blockSize := Nat.lt_of_lt_of_le (by decide) hfiles.image.blockSize
  have hbs' := hfiles.blockSize
  have hplaced := files_placed hfiles hk
  obtain ⟨hend, _⟩ := resizeEnd_eq hplaced (show off + cnt < 2 ^ 32 by omega)
  have hstart := resizeStart_files hfiles hk
  obtain ⟨hrun, hlength, hsmall⟩ := allocBlocks_run hfiles.image halloc
  rw [hend] at hlength
  have hfits : sectorBytes g (readInode g disk k) ≤ off + cnt := by
    unfold ResizeSkips at hskip
    have hcount := (hfiles.sized k hk).1
    unfold sectorBytes at hcount ⊢
    rw [toInt_of_lt hcount] at hskip
    omega
  have hlimit : ∀ S, S ≤ 12 * g.blockSize → (S + g.blockSize - 1) / g.blockSize ≤ 12 := fun S hS =>
    Nat.le_of_not_lt fun hlt => Nat.not_lt.mpr hS ((lt_roundup_iff hbs).mp hlt)
  have hlow := hlimit _ hsize
  have hlow' : resizeStart g (readInode g disk k) ≤ 12 := hstart ▸ hlimit _ (Nat.le_trans hfits hsize)
  have hdirect : resizeStart g (readInode g disk k) + bs.length ≤ 12 := by omega
  have hready : ∀ l < bs.length, SlotReady g disk (readInode g disk k) (resizeStart g (readInode g disk k) + l) :=
    fun l hl => Or.inl (by omega)
  have hloop := addBlocks_ready (n := resizeEnd g (off + cnt) - resizeStart g (readInode g disk k)) hplaced
    (AllocRun.refl hfiles.image) (fun w hw => absurd hw List.not_mem_nil) (fun l hl => hready l (by omega))
    (fun m _ => @sizedInode_blocks (readInode g disk k) m (off + cnt)) halloc
  rw [List.nil_append, leafWrites_direct hdirect] at hloop
  have hindex : (growInode g (resizeStart g (readInode g disk k)) bs (sizedInode (readInode g disk k) (off + cnt))).index = k :=
    growInode_index.trans sizedInode_index
  obtain ⟨hsame, hwritten, houtside⟩ := writeBack_grown hplaced hrun (List.forall_mem_nil _) hindex
  obtain ⟨hnodup, hfresh⟩ := allocBlocks_fresh hfiles.image hfiles.fewGroups halloc
  -- the sectors that are counted
  have hsized : (sizedInode (readInode g disk k) (off + cnt)).sectorCnt = (readInode g disk k).sectorCnt := by
    unfold sizedInode
    by_cases hlt : (readInode g disk k).size32l < off + cnt
    · rw [if_pos hlt]
      exact Memory.word_setWord_outside (by omega)
    · rw [if_neg hlt]
  have hproduct : g.blockSize / g.sectorSize * g.sectorSize = g.blockSize := Nat.div_mul_cancel hfiles.sectors
  have hsector : 0 < g.sectorSize := Nat.pos_of_dvd_of_pos hfiles.sectors hbs
  have hcount : (readInode g disk k).sectorCnt + bs.length * (g.blockSize / g.sectorSize) < 2 ^ 32 := by
    have hle := Nat.le_mul_of_pos_right (readInode g disk k).sectorCnt hsector
    have hadded : bs.length * (g.blockSize / g.sectorSize) ≤ 12 * g.blockSize :=
      Nat.mul_le_mul (by omega) (Nat.div_le_self _ _)
    unfold sectorBytes at hfits
    omega
  refine ⟨_, _, resize_loops hskip hloop, ⟨⟨hrun, hsame, houtside, hwritten, hindex⟩, hnodup, hfresh, hdirect, hstart, ?_,
    fun m hm => ?_, fun l hl => growInode_direct hl (by omega) hsmall⟩, hlength⟩
  · unfold sectorBytes
    rw [growInode_sectorCnt (by rw [hsized]; exact hcount), hsized, Nat.add_mul, Nat.mul_assoc, hproduct]
  · rw [growInode_blocks hm, sizedInode_blocks]

/-! ## One write -/

/-- INTERNAL: a direct block that is there is reached. -/
theorem reaches_direct (hi : i < 12) (h : ino.blocks i ≠ 0) : Reaches g disk ino i := by
  refine ⟨by omega, ?_⟩
  unfold blockAt
  rw [blockPath_direct hi, pointer_nil h]
  exact Option.some_ne_none _

/-- INTERNAL: `get_block` of a direct block does not read the disk. -/
theorem diskPos_direct {ino' : Inode} (hi : y / g.blockSize < 12) (h : ino'.blocks (y / g.blockSize) = ino.blocks (y / g.blockSize)) :
    ino'.diskPos g disk' y = ino.diskPos g disk' y := by
  unfold Inode.diskPos
  rw [Nat.mod_eq_of_lt (Nat.lt_trans hi (by decide)), getBlock_direct hi, getBlock_direct hi, h]

/-- What a write leaves: the other inodes are as they were, and each byte of a file that was reached or is written is
reached, and has what was written, or what it had. -/
structure WriteDone (g : Ext2Super) (files : Set ℕ) (disk disk' : Memory) (w : FileWrite) : Prop where
  diskFiles : DiskFiles g files disk'
  inodes : ∀ k ∈ files, k ≠ w.file → readInode g disk' k = readInode g disk k
  bytes : ∀ k ∈ files, ∀ y, Reaches g disk (readInode g disk k) (y / g.blockSize) ∨ w.Has k y →
    Reaches g disk' (readInode g disk' k) (y / g.blockSize) ∧ fileBytes g disk' (readInode g disk' k) y =
      if w.Has k y then w.buf (y - w.off) else fileBytes g disk (readInode g disk k) y

/-- INTERNAL: the loop of `write`, when all blocks are there. -/
theorem writeData_done (w : FileWrite) (hfiles : DiskFiles g files disk) (hk : w.file ∈ files)
    (hreach : ∀ a < w.cnt, Reaches g disk (readInode g disk w.file) ((w.off + a) / g.blockSize))
    (hino : ∀ d, ∀ a < w.cnt, ino.diskPos g d (w.off + a) = (readInode g disk w.file).diskPos g d (w.off + a)) :
    WriteDone g files disk (writeData g disk ino w.off w.cnt w.buf) w := by
  have hsame := (writeData_files w.buf hfiles hk hreach hino).1
  refine ⟨hsame.diskFiles hfiles, fun k hk' _ => hsame.inodes k hk', fun k hk' y hy => ?_⟩
  have hbefore : Reaches g disk (readInode g disk k) (y / g.blockSize) := by
    cases hy with
    | inl hreached => exact hreached
    | inr hhas =>
      obtain ⟨rfl, hlow, hhigh⟩ := hhas
      obtain ⟨a, rfl⟩ : ∃ a, y = w.off + a := ⟨y - w.off, by omega⟩
      exact hreach a (by omega)
  exact ⟨(hsame.reaches_iff hk').mpr hbefore, writeData_bytes w.buf hfiles hk hreach hino hk' hbefore⟩

/-- INTERNAL: a byte of a file that has not been written is where it was. -/
theorem DirectGrowth.bytes {s k' : ℕ} (h : DirectGrowth g disk used disk' k ino s bs) (hfiles : DiskFiles g files disk)
    (hk : k ∈ files) (hk' : k' ∈ files) (hy : Reaches g disk (readInode g disk k') (y / g.blockSize)) :
    Reaches g disk' (readInode g disk' k') (y / g.blockSize) ∧
      fileBytes g disk' (readInode g disk' k') y = fileBytes g disk (readInode g disk k') y := by
  have hbs : 0 < g.blockSize := Nat.lt_of_lt_of_le (by decide) hfiles.image.blockSize
  obtain ⟨b, hblock, hpos⟩ := files_diskPos hfiles hy
  have hblock' := h.blockAt_old hfiles hk hk' (reaches_cap hy) hblock
  have hy' : Reaches g disk' (readInode g disk' k') (y / g.blockSize) :=
    ⟨hy.1, by rw [hblock']; exact Option.some_ne_none b⟩
  obtain ⟨b', hblock'', hpos'⟩ := files_diskPos (h.diskFiles hfiles hk) hy'
  rw [hblock'] at hblock''
  obtain rfl := Option.some.inj hblock''
  refine ⟨hy', ?_⟩
  unfold fileBytes
  rw [hpos, hpos']
  exact h.data hk (hfiles.used k' hk' _ _ b (blockAt_uses (reaches_cap hy) hblock)).2 (Nat.mod_lt y hbs)

/-- INTERNAL: the block of a byte is one below the rounded size. -/
theorem byte_block {c a size : ℕ} (hc : 0 < c) (ha : a < size) : a / c < (size + c - 1) / c :=
  (lt_roundup_iff hc).mpr (Nat.lt_of_le_of_lt (Nat.div_mul_le_self a c) ha)

/-- INTERNAL: a write is `resize` and the loop.
SRCLINE: kernel/fs/ext2/inode.cpp:50-70 -/
theorem write_eq {ino' : Inode} {off cnt : ℕ} {v : ℤ} (buf : Memory) (h : ino.resize g disk off cnt = (disk', ino', v)) :
    ino.write g disk off cnt buf = (writeData g disk' ino' off cnt buf, ino') := by
  -- an equation between functions, so that the call of `resize` is not evaluated
  have hwrite : @Inode.write = @Inode.write := rfl
  conv at hwrite => rhs; delta Inode.write
  rw [hwrite]
  beta_reduce
  rw [h]
  rfl

/-- INTERNAL: the definition, as an equation between functions. -/
theorem exec_def : @FileWrite.exec = fun g disk w => ((readInode g disk w.file).write g disk w.off w.cnt w.buf).1 := rfl

/-- INTERNAL: a write is `resize` and the loop, of a file. -/
theorem exec_eq {w : FileWrite} {v : ℤ}
    (h : (readInode g disk w.file).resize g disk w.off w.cnt = (disk', ino, v)) :
    w.exec g disk = writeData g disk' ino w.off w.cnt w.buf := by
  rw [exec_def]
  beta_reduce
  rw [write_eq w.buf h]

/-- INTERNAL: a write that does not need new blocks. -/
theorem write_skips {w : FileWrite} (hfiles : DiskFiles g files disk) (hfits : w.Fits g files disk)
    (hskip : ResizeSkips g (readInode g disk w.file) (w.off + w.cnt)) : WriteDone g files disk (w.exec g disk) w := by
  have hbs : 0 < g.blockSize := Nat.lt_of_lt_of_le (by decide) hfiles.image.blockSize
  have hresize : (readInode g disk w.file).resize g disk w.off w.cnt = (disk, readInode g disk w.file, 0) := by
    rw [Inode.resize]
    exact if_pos hskip
  obtain ⟨hk, hcases⟩ := hfits
  rw [exec_eq hresize]
  refine writeData_done w hfiles hk (fun a ha => ?_) fun _ _ _ => rfl
  cases hcases with
  | inl hdirect =>
    obtain ⟨hcount, hblocks⟩ := hfiles.sized w.file hk
    have hlow : (w.off + a) / g.blockSize < 12 := (Nat.div_lt_iff_lt_mul hbs).mpr (by omega)
    refine reaches_direct hlow ((hblocks _ hlow).mpr ?_)
    unfold ResizeSkips at hskip
    unfold sectorBytes at hcount ⊢
    rw [toInt_of_lt hcount] at hskip
    have hround := Nat.div_mul_le_self (w.off + a) g.blockSize
    omega
  | inr hlong => exact hlong.2 _ (byte_block hbs (by omega))

/-- INTERNAL: a write that needs new blocks. -/
theorem write_grows {w : FileWrite} (hfiles : DiskFiles g files disk) (hfits : w.Fits g files disk)
    (hskip : ¬ ResizeSkips g (readInode g disk w.file) (w.off + w.cnt)) : WriteDone g files disk (w.exec g disk) w := by
  have hbs : 0 < g.blockSize := Nat.lt_of_lt_of_le (by decide) hfiles.image.blockSize
  obtain ⟨hk, hcases⟩ := hfits
  obtain ⟨hsize, hsome⟩ := hcases.resolve_right fun hlong => hskip hlong.1
  obtain ⟨⟨used, bs⟩, halloc⟩ := Option.ne_none_iff_exists'.mp hsome
  obtain ⟨grown, ino, hresize, hgrowth, hlength⟩ := resize_direct hfiles hk hsize hskip halloc
  have hlow : ∀ a < w.cnt, (w.off + a) / g.blockSize < 12 := fun a ha =>
    (Nat.div_lt_iff_lt_mul hbs).mpr (by omega)
  have hreach : ∀ a < w.cnt, Reaches g grown (readInode g grown w.file) ((w.off + a) / g.blockSize) := by
    intro a ha
    refine reaches_direct (hlow a ha) ((hgrowth.blocks_iff hfiles hk (hlow a ha)).mpr ?_)
    have hbelow : (w.off + a) / g.blockSize < (w.off + w.cnt + g.blockSize - 1) / g.blockSize := byte_block hbs (by omega)
    omega
  have hdone := writeData_done w (hgrowth.diskFiles hfiles hk) hk hreach fun d a ha =>
    diskPos_direct (hlow a ha) (hgrowth.blocks (Nat.lt_trans (hlow a ha) (by decide))).symm
  rw [exec_eq hresize]
  refine ⟨hdone.diskFiles, fun k hk' hne => (hdone.inodes k hk' hne).trans (hgrowth.other hfiles hk hk' hne), fun k hk' y hy => ?_⟩
  by_cases hhas : w.Has k y
  · obtain ⟨hreached, hbytes⟩ := hdone.bytes k hk' y (Or.inr hhas)
    rw [if_pos hhas] at hbytes ⊢
    exact ⟨hreached, hbytes⟩
  · obtain ⟨hreached, hkept⟩ := hgrowth.bytes hfiles hk hk' (hy.resolve_right hhas)
    obtain ⟨hreached', hbytes⟩ := hdone.bytes k hk' y (Or.inl hreached)
    rw [if_neg hhas] at hbytes ⊢
    exact ⟨hreached', hbytes.trans hkept⟩

/-- **One write**: the files stay files, the bytes are written, and no other byte of a file changes.
SRCLINE: kernel/fs/ext2/inode.cpp:50-70 -/
theorem write_step {w : FileWrite} (hfiles : DiskFiles g files disk) (hfits : w.Fits g files disk) :
    WriteDone g files disk (w.exec g disk) w := by
  by_cases hskip : ResizeSkips g (readInode g disk w.file) (w.off + w.cnt)
  · exact write_skips hfiles hfits hskip
  · exact write_grows hfiles hfits hskip

/-! ## Runs -/

theorem lastByte_snoc (ws : List FileWrite) (w : FileWrite) (k a : ℕ) : lastByte (ws ++ [w]) k a =
    if w.Has k a then some (w.buf (a - w.off)) else lastByte ws k a := by
  unfold lastByte
  rw [List.foldl_append]
  rfl

/-- INTERNAL: what holds of the files after a run. -/
theorem writeRun_bytes {ws : List FileWrite} (hfiles : DiskFiles g files disk) (hrun : WriteRun g files disk ws disk') :
    DiskFiles g files disk' ∧ ∀ k ∈ files, ∀ y,
      Reaches g disk (readInode g disk k) (y / g.blockSize) ∨ lastByte ws k y ≠ none →
        Reaches g disk' (readInode g disk' k) (y / g.blockSize) ∧ fileBytes g disk' (readInode g disk' k) y =
          (lastByte ws k y).getD (fileBytes g disk (readInode g disk k) y) := by
  refine hrun.history (fun ws d => DiskFiles g files d ∧ ∀ k ∈ files, ∀ y,
    Reaches g disk (readInode g disk k) (y / g.blockSize) ∨ lastByte ws k y ≠ none →
      Reaches g d (readInode g d k) (y / g.blockSize) ∧ fileBytes g d (readInode g d k) y =
        (lastByte ws k y).getD (fileBytes g disk (readInode g disk k) y)) ?_ ⟨hfiles, ?_⟩
  · rintro ws d w _ ⟨hd, hbytes⟩ ⟨hfits, rfl⟩
    have hdone := write_step hd hfits
    refine ⟨hdone.diskFiles, fun k hk y hy => ?_⟩
    rw [lastByte_snoc] at hy ⊢
    by_cases hhas : w.Has k y
    · obtain ⟨hreached, hwritten⟩ := hdone.bytes k hk y (Or.inr hhas)
      rw [if_pos hhas] at hwritten ⊢
      exact ⟨hreached, hwritten⟩
    · rw [if_neg hhas] at hy ⊢
      obtain ⟨hreached, hbefore⟩ := hbytes k hk y hy
      obtain ⟨hreached', hkept⟩ := hdone.bytes k hk y (Or.inl hreached)
      rw [if_neg hhas] at hkept
      exact ⟨hreached', hkept.trans hbefore⟩
  · intro k _ y hy
    exact ⟨hy.resolve_right fun hne => hne rfl, rfl⟩

/-- INTERNAL: a byte after the run is the one that was written last, or the one from before the run. -/
theorem byte_after {ws : List FileWrite} (hfiles : DiskFiles g files disk) (hrun : WriteRun g files disk ws disk')
    (hk : k ∈ files) (y : ℕ) :
    (∀ b, lastByte ws k y = some b → fileBytes g disk' (readInode g disk' k) y = b) ∧
      (lastByte ws k y = none → Reaches g disk (readInode g disk k) (y / g.blockSize) →
        fileBytes g disk' (readInode g disk' k) y = fileBytes g disk (readInode g disk k) y) := by
  obtain ⟨_, hbytes⟩ := writeRun_bytes hfiles hrun
  constructor
  · intro b hb
    rw [(hbytes k hk y (Or.inr (by rw [hb]; exact Option.some_ne_none b))).2, hb]
    rfl
  · intro hnone hreach
    rw [(hbytes k hk y (Or.inl hreach)).2, hnone]
    rfl

/-- **No run of writes mixes up files**: afterwards the image is well formed, with its counts; no two bytes of files have
the same place on the disk; and what is in use by a file is marked in the bitmap, and is outside of the inodes and of the
metadata, as is what is free.
SRCLINE: kernel/fs/ext2/ext2.cpp:28-39, kernel/fs/ext2/inode.cpp:50-97 -/
theorem writes_keep_files_apart (g : Ext2Super) (files : Set ℕ) (disk disk' : Memory) (ws : List FileWrite)
    (hfiles : DiskFiles g files disk) (hrun : WriteRun g files disk ws disk') :
    DiskFiles g files disk' ∧ ∀ k ∈ files, ∀ k' ∈ files, ∀ y y', Reaches g disk' (readInode g disk' k) (y / g.blockSize) →
      Reaches g disk' (readInode g disk' k') (y' / g.blockSize) →
      (readInode g disk' k).diskPos g disk' y = (readInode g disk' k').diskPos g disk' y' → k = k' ∧ y = y' := by
  have hfiles' := (writeRun_bytes hfiles hrun).1
  exact ⟨hfiles', fun k hk k' hk' y y' hy hy' heq => diskPos_injective hfiles' hk hk' hy hy' heq⟩

/-- **Each file is an array of bytes.** After a run of writes to the files of an image, a read of one of them returns,
for each byte, the one that was written last to this place of this file, and the byte that was there before the run if
none was.
SRCLINE: kernel/fs/ext2/inode.cpp:30-97 -/
theorem read_returns_last_written (g : Ext2Super) (files : Set ℕ) (disk disk' : Memory) (ws : List FileWrite)
    (hfiles : DiskFiles g files disk) (hrun : WriteRun g files disk ws disk') {k : ℕ} (hk : k ∈ files) (off cnt : ℕ)
    (buf : Memory) {a : ℕ} (ha : a < cnt) :
    (∀ b, lastByte ws k (off + a) = some b → (readInode g disk' k).read g disk' off cnt buf a = b) ∧
      (lastByte ws k (off + a) = none → Reaches g disk (readInode g disk k) ((off + a) / g.blockSize) →
        (readInode g disk' k).read g disk' off cnt buf a = (readInode g disk k).read g disk off cnt buf a) := by
  have hbs : 0 < g.blockSize := Nat.lt_of_lt_of_le (by decide) hfiles.image.blockSize
  have hread : ∀ d, (readInode g d k).read g d off cnt buf a = fileBytes g d (readInode g d k) (off + a) := fun d =>
    (read_apply hbs buf a).trans (if_pos ha)
  rw [hread, hread]
  exact byte_after hfiles hrun hk (off + a)

/-! ## An image with two files -/

/-- The small image with an inode table, in block `5`. The block `200` is free. -/
def tableImage : Memory := (smallImage 200 12).setWord 2056 4 5

theorem tableImage_bitmapPos (kind : BitmapKind) : kind.bitmapPos smallSuper tableImage 0 = smallBitmap kind * 1024 := by
  have hsmall := smallImage_bitmapPos (b := 200) (i := 12) (by decide) (by decide) kind
  rw [← hsmall]
  unfold BitmapKind.bitmapPos BitmapKind.bitmapBlock tableImage
  cases kind with
  | blocks => rw [Memory.word_setWord_outside (by decide)]
  | inodes => rw [Memory.word_setWord_outside (by decide)]

theorem tableImage_groupBit (kind : BitmapKind) {r : ℕ} (hr : r < 8192) :
    kind.groupBit smallSuper tableImage 0 r = decide (r ≠ smallClear 200 12 kind) := by
  rw [← smallImage_groupBit (by decide) (by decide) kind hr, BitmapKind.groupBit, BitmapKind.groupBit,
    tableImage_bitmapPos, smallImage_bitmapPos (by decide) (by decide), tableImage]
  apply Memory.bit_setWord_outside
  cases kind with
  | blocks =>
    have hpos : smallBitmap .blocks = 3 := rfl
    omega
  | inodes =>
    have hpos : smallBitmap .inodes = 4 := rfl
    omega

theorem tableImage_image : Ext2Image smallSuper tableImage := by
  have himage := smallImage_image (b := 200) (i := 12) (by decide) (by decide) (by decide)
  have hpos : ∀ kind : BitmapKind, kind.bitmapPos smallSuper tableImage 0 =
      kind.bitmapPos smallSuper (smallImage 200 12) 0 := fun kind => by
    rw [tableImage_bitmapPos, smallImage_bitmapPos (by decide) (by decide)]
  have hbits : ∀ (kind : BitmapKind), ∀ r < 8192, kind.groupBit smallSuper tableImage 0 r =
      kind.groupBit smallSuper (smallImage 200 12) 0 r := fun kind r hr => by
    rw [tableImage_groupBit kind hr, smallImage_groupBit (by decide) (by decide) kind hr]
  have hgroup : ∀ G < smallSuper.bgdCnt, G = 0 := fun G hG => Nat.lt_one_iff.mp hG
  exact {
    blockSize := himage.blockSize
    groups := himage.groups
    perGroup_pos := himage.perGroup_pos
    perGroup_le := himage.perGroup_le
    numbers := himage.numbers
    behind := fun kind G hG => by
      obtain rfl := hgroup G hG
      rw [hpos]
      exact himage.behind kind 0 hG
    apart := fun kind G kind' G' hG hG' heq => by
      obtain rfl := hgroup G hG
      obtain rfl := hgroup G' hG'
      rw [hpos, hpos] at heq
      exact himage.apart kind 0 kind' 0 hG hG' heq
    counted := fun kind G hG => by
      obtain rfl := hgroup G hG
      have hcount : kind.freeCount smallSuper tableImage 0 = kind.freeCount smallSuper (smallImage 200 12) 0 := by
        unfold BitmapKind.freeCount tableImage
        cases kind with
        | blocks => rw [Memory.word_setWord_outside (by decide)]
        | inodes => rw [Memory.word_setWord_outside (by decide)]
      have hsame : tableImage.countBits (kind.bitmapPos smallSuper tableImage 0) (kind.perGroup smallSuper) =
          (smallImage 200 12).countBits (kind.bitmapPos smallSuper (smallImage 200 12) 0) (kind.perGroup smallSuper) := by
        rw [hpos]
        apply Memory.countBits_congr
        intro j hj
        have hle := himage.perGroup_le kind
        have hsize : smallSuper.blockSize = 1024 := rfl
        have hbit := hbits kind j (by omega)
        rwa [BitmapKind.groupBit, hpos] at hbit
      rw [hcount, hsame]
      exact himage.counted kind 0 hG
    padding := fun kind G r hG hle hr => by
      obtain rfl := hgroup G hG
      have hsize : smallSuper.blockSize = 1024 := rfl
      rw [hbits kind r (by omega)]
      exact himage.padding kind 0 r hG hle hr }

/-- INTERNAL: the metadata of the image. -/
theorem tableImage_metaByte (h : MetaByte smallSuper tableImage y) : y < 2080 ∨ 3072 ≤ y ∧ y < 5120 := by
  refine smallImage_metaByte (h.imp_right ?_)
  rintro ⟨kind, G, hG, hlow, hhigh⟩
  obtain rfl : G = 0 := Nat.lt_one_iff.mp hG
  refine ⟨kind, 0, hG, ?_⟩
  rw [smallImage_bitmapPos (by decide) (by decide)]
  rw [tableImage_bitmapPos] at hlow hhigh
  exact ⟨hlow, hhigh⟩

/-- The words of the root directory, in block `100`, with its inode `2`: there is one entry, `a`, for inode `19`. -/
def rootWords : List (ℕ × ℕ) := [(5252, 12), (5276, 2), (5288, 100), (102400, 19), (102404, 65548), (102408, 0x61)]

/-- An image with a root directory and an empty file. -/
def twoFiles : Memory := setWords tableImage rootWords

/-- The numbers of the two inodes. -/
def twoNumbers : Set ℕ := {2, 19}

theorem rootWords_outside {w : ℕ × ℕ} (hw : w ∈ rootWords) : 5252 ≤ w.1 ∧ w.1 ≤ 102408 ∧ w.1 % 4 = 0 := by
  revert w
  decide

theorem rootWords_outsideMeta : OutsideMeta smallSuper tableImage rootWords := by
  intro w hw c hc hmeta
  have hplace := rootWords_outside hw
  have hplaces := tableImage_metaByte hmeta
  omega

theorem twoFiles_sameMeta : SameMeta smallSuper tableImage twoFiles := rootWords_outsideMeta.sameMeta

theorem twoFiles_metaByte (h : MetaByte smallSuper twoFiles y) : y < 2080 ∨ 3072 ≤ y ∧ y < 5120 :=
  tableImage_metaByte (twoFiles_sameMeta.metaByte_iff.mp h)

theorem twoFiles_inodePos (hk : k ∈ twoNumbers) : inodePos smallSuper twoFiles k = 5120 + 128 * (k - 1) := by
  have hdescriptor : (readBgd smallSuper twoFiles 0).word 8 4 = 5 := by
    rw [readBgd, Memory.word_load (by decide), twoFiles, setWords_word (fun w hw => by
      have hplace := rootWords_outside hw
      have htable : bgdPos smallSuper 0 = 2048 := rfl
      omega)]
    exact Memory.word_setWord_of_lt (by decide)
  obtain rfl | rfl : k = 2 ∨ k = 19 := hk
  · change (readBgd smallSuper twoFiles 0).word 8 4 * 1024 + 128 = 5248
    rw [hdescriptor]
  · change (readBgd smallSuper twoFiles 0).word 8 4 * 1024 + 2304 = 7424
    rw [hdescriptor]

/-- INTERNAL: a word of the inode table that was not written. -/
theorem tableImage_word {p : ℕ} (hp : 5120 ≤ p) (hp' : p < 102400) : tableImage.word p 4 = 0 := by
  have hbytes : ∀ i < 4, tableImage (p + i) = Memory.ofWord 0 i := by
    intro i hi
    rw [tableImage, Memory.setWord_outside (by omega), smallImage, Memory.clearBit_apply_of_ne _ (by omega),
      Memory.clearBit_apply_of_ne _ (by omega), Memory.setWord_outside (by omega), Memory.setWord_outside (by omega),
      Memory.setWord_outside (by omega), Memory.setWord_outside (by omega), if_neg (by omega), Memory.ofWord, Nat.zero_div]
    rfl
  exact (Memory.word_of_bytes hbytes).trans (Nat.zero_mod _)

/-- INTERNAL: a word of an inode. -/
theorem twoFiles_word {c : ℕ} (hk : k ∈ twoNumbers) (hc : c + 4 ≤ rawInodeSize) (haligned : c % 4 = 0) :
    (readInode smallSuper twoFiles k).raw.word c 4 =
      if k = 2 then (if c = 4 then 12 else if c = 28 then 2 else if c = 40 then 100 else 0) else 0 := by
  have hsize : rawInodeSize = 116 := rfl
  have hzero : ∀ p, 5120 ≤ p → p < 102400 → p % 4 = 0 → p ≠ 5252 → p ≠ 5276 → p ≠ 5288 →
      twoFiles.word p 4 = 0 := by
    intro p hp hp' hmod h₁ h₂ h₃
    rw [twoFiles, setWords_word (fun w hw => by
      have hplace := rootWords_outside hw
      have hne : w.1 ≠ p := by
        rintro rfl
        simp only [rootWords, List.mem_cons, List.not_mem_nil, or_false] at hw
        obtain rfl | rfl | rfl | rfl | rfl | rfl := hw <;> simp_all
      omega)]
    exact tableImage_word hp hp'
  rw [readInode, twoFiles_inodePos hk, Memory.word_load hc]
  obtain rfl | rfl : k = 2 ∨ k = 19 := hk
  · rw [if_pos rfl]
    by_cases hlength : c = 4
    · subst hlength
      decide
    · rw [if_neg hlength]
      by_cases hsector : c = 28
      · subst hsector
        decide
      · rw [if_neg hsector]
        by_cases hblock : c = 40
        · subst hblock
          decide
        · rw [if_neg hblock]
          exact hzero _ (by omega) (by omega) (by omega) (by omega) (by omega) (by omega)
  · rw [if_neg (by decide)]
    exact hzero _ (by omega) (by omega) (by omega) (by omega) (by omega) (by omega)

theorem twoFiles_blocks (hk : k ∈ twoNumbers) (hm : m < 15) :
    (readInode smallSuper twoFiles k).blocks m = if k = 2 ∧ m = 0 then 100 else 0 := by
  have hsize : rawInodeSize = 116 := rfl
  refine (twoFiles_word hk (by omega) (by omega)).trans ?_
  by_cases hfile : k = 2
  · rw [if_pos hfile, if_neg (by omega), if_neg (by omega)]
    by_cases hzero : m = 0
    · rw [if_pos (by omega), if_pos ⟨hfile, hzero⟩]
    · rw [if_neg (by omega), if_neg fun h => hzero h.2]
  · rw [if_neg hfile, if_neg fun h => hfile h.1]

/-- INTERNAL: the only block in use. -/
theorem twoFiles_usesAt (hk : k ∈ twoNumbers) (h : UsesAt smallSuper twoFiles (readInode smallSuper twoFiles k) m ks x) :
    k = 2 ∧ m = 0 ∧ ks = [] ∧ x = 100 := by
  obtain ⟨i, _, hm, hway, hpointer⟩ := h
  rw [twoFiles_blocks hk (hm ▸ blockPath_root_le)] at hpointer
  by_cases hzero : k = 2 ∧ m = 0
  · have hi : i = 0 := by
      by_cases hdirect : i < 12
      · rw [blockPath_direct hdirect] at hm
        exact hm.trans hzero.2
      · have hlow := blockPath_indirect (n := smallSuper.blockSize / 4) (Nat.le_of_not_lt hdirect)
        omega
    rw [hi, blockPath_direct (by decide)] at hway
    have hks : ks = [] := List.prefix_nil.mp hway
    rw [hks, if_pos hzero, pointer_nil (by decide)] at hpointer
    exact ⟨hzero.1, hzero.2, hks, (Option.some.inj hpointer).symm⟩
  · rw [if_neg hzero, pointer_zero] at hpointer
    cases hpointer

/-- INTERNAL: the bits of the image. -/
theorem twoFiles_bit {r : ℕ} (hr : r < 8192) :
    BitmapKind.groupBit smallSuper twoFiles .blocks 0 r = decide (r ≠ 200) := by
  rw [twoFiles_sameMeta.groupBit .blocks (by decide) hr, tableImage_groupBit .blocks hr]
  rfl

theorem twoFiles_dataBlock (hx : x = 100 ∨ x = 200) : DataBlock smallSuper twoFiles twoNumbers x := by
  intro a ha
  have hsize : smallSuper.blockSize = 1024 := rfl
  have hraw : rawInodeSize = 116 := rfl
  rw [hsize] at ha ⊢
  refine ⟨fun hmeta => ?_, fun k hk => ?_⟩
  · have hplaces := twoFiles_metaByte hmeta
    omega
  · rw [twoFiles_inodePos hk]
    obtain rfl | rfl : k = 2 ∨ k = 19 := hk
    · omega
    · omega

/-- INTERNAL: the sectors of the two files. -/
theorem twoFiles_sectorBytes (hk : k ∈ twoNumbers) :
    sectorBytes smallSuper (readInode smallSuper twoFiles k) = if k = 2 then 1024 else 0 := by
  have hsector := twoFiles_word hk (c := 28) (by decide) (by decide)
  unfold sectorBytes Inode.sectorCnt
  rw [hsector]
  obtain rfl | rfl : k = 2 ∨ k = 19 := hk
  · rfl
  · rfl

theorem twoFiles_files : DiskFiles smallSuper twoNumbers twoFiles where
  image := twoFiles_sameMeta.image tableImage_image
  blockSize := by decide
  sectors := by decide
  fewGroups := by decide
  group k hk := by
    obtain rfl | rfl : k = 2 ∨ k = 19 := hk
    · decide
    · decide
  inode k hk a ha hmeta := by
    have hraw : rawInodeSize = 116 := rfl
    rw [twoFiles_inodePos hk] at hmeta
    have hplaces := twoFiles_metaByte hmeta
    obtain rfl | rfl : k = 2 ∨ k = 19 := hk
    · omega
    · omega
  apart k hk k' hk' hne := by
    have hraw : rawInodeSize = 116 := rfl
    rw [twoFiles_inodePos hk, twoFiles_inodePos hk']
    obtain rfl | rfl : k = 2 ∨ k = 19 := hk
    · obtain rfl | rfl : k' = 2 ∨ k' = 19 := hk'
      · exact absurd rfl hne
      · omega
    · obtain rfl | rfl : k' = 2 ∨ k' = 19 := hk'
      · omega
      · exact absurd rfl hne
  once k hk k' hk' m ks m' ks' x h h' := by
    obtain ⟨rfl, rfl, rfl, _⟩ := twoFiles_usesAt hk h
    obtain ⟨rfl, rfl, rfl, _⟩ := twoFiles_usesAt hk' h'
    exact ⟨rfl, rfl, rfl⟩
  used k hk m ks x h := by
    obtain ⟨_, _, _, rfl⟩ := twoFiles_usesAt hk h
    exact ⟨⟨by decide, twoFiles_bit (by decide)⟩, twoFiles_dataBlock (Or.inl rfl)⟩
  free x hx hclear := by
    rw [twoFiles_bit hx, decide_eq_false_iff_not, not_not] at hclear
    subst hclear
    exact ⟨by decide, twoFiles_dataBlock (Or.inr rfl)⟩
  sized k hk := by
    have hsize : smallSuper.blockSize = 1024 := rfl
    rw [twoFiles_sectorBytes hk, hsize]
    refine ⟨by by_cases hfile : k = 2 <;> simp [hfile], fun i hi => ?_⟩
    rw [twoFiles_blocks hk (by omega)]
    by_cases hfile : k = 2
    · rw [if_pos hfile]
      by_cases hzero : i = 0
      · rw [if_pos ⟨hfile, hzero⟩, hzero]
        decide
      · rw [if_neg fun h => hzero h.2]
        omega
    · rw [if_neg fun h => hfile h.1, if_neg hfile]
      omega

/-- The empty file gets 1000 bytes. -/
def firstWrite : FileWrite := ⟨19, 0, 1000, fun a => BitVec.ofNat 8 a⟩

/-- INTERNAL: a write of one block to the empty file. -/
theorem oneBlock_fits {cnt : ℕ} {buf : Memory} (hlow : cnt ≤ 12 * smallSuper.blockSize)
    (hend : resizeEnd smallSuper (0 + cnt) = 1) : FileWrite.Fits smallSuper twoNumbers twoFiles ⟨19, 0, cnt, buf⟩ := by
  refine ⟨Or.inr rfl, Or.inl ⟨by dsimp only; omega, ?_⟩⟩
  have hstart := resizeStart_files twoFiles_files (show 19 ∈ twoNumbers from Or.inr rfl)
  rw [twoFiles_sectorBytes (Or.inr rfl)] at hstart
  have hcount : resizeEnd smallSuper (0 + cnt) - resizeStart smallSuper (readInode smallSuper twoFiles 19) = 1 := by
    rw [hend]
    exact congrArg (1 - ·) hstart
  rw [hcount]
  cases allocNumber_cases twoFiles_files.image .blocks with
  | inl hnone =>
    have hfull := groupClear_eq_none_iff.mp (hnone.1 0 (by decide)) 200 (by decide)
    rw [twoFiles_bit (by decide)] at hfull
    cases hfull
  | inr hsome =>
    obtain ⟨D, r, _, _, _, halloc⟩ := hsome
    change ext2AllocBlock smallSuper twoFiles = _ at halloc
    rw [allocBlocks, halloc]
    exact Option.some_ne_none _

theorem firstWrite_fits : firstWrite.Fits smallSuper twoNumbers twoFiles := oneBlock_fits (by decide) (by decide)

theorem firstWrite_run : WriteRun smallSuper twoNumbers twoFiles [firstWrite] (firstWrite.exec smallSuper twoFiles) :=
  Run.single ⟨firstWrite_fits, rfl⟩

/-- The new block of the second file is not that of the first. -/
theorem writes_keep_files_apart_twoFiles : DiskFiles smallSuper twoNumbers (firstWrite.exec smallSuper twoFiles) :=
  (writes_keep_files_apart smallSuper twoNumbers twoFiles (firstWrite.exec smallSuper twoFiles) [firstWrite]
    twoFiles_files firstWrite_run).1

/-- The byte is in the new file, and the other file is as it was. -/
theorem read_returns_last_written_twoFiles :
    (readInode smallSuper (firstWrite.exec smallSuper twoFiles) 19).read smallSuper (firstWrite.exec smallSuper twoFiles)
        0 1000 (fun _ => 0) 5 = 5 ∧
      (readInode smallSuper (firstWrite.exec smallSuper twoFiles) 2).read smallSuper
        (firstWrite.exec smallSuper twoFiles) 0 1000 (fun _ => 0) 5 =
        (readInode smallSuper twoFiles 2).read smallSuper twoFiles 0 1000 (fun _ => 0) 5 := by
  refine ⟨(read_returns_last_written smallSuper twoNumbers twoFiles (firstWrite.exec smallSuper twoFiles) [firstWrite]
    twoFiles_files firstWrite_run (k := 19) (Or.inr rfl) 0 1000 (fun _ => 0) (a := 5) (by decide)).1 5 (by decide), ?_⟩
  refine (read_returns_last_written smallSuper twoNumbers twoFiles (firstWrite.exec smallSuper twoFiles) [firstWrite]
    twoFiles_files firstWrite_run (k := 2) (Or.inl rfl) 0 1000 (fun _ => 0) (a := 5) (by decide)).2 (by decide) ?_
  refine reaches_direct (by decide) ?_
  change (readInode smallSuper twoFiles 2).blocks 0 ≠ 0
  rw [twoFiles_blocks (Or.inl rfl) (by decide)]
  decide

end CrepOS.Analysis
