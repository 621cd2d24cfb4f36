import CrepOS.Analysis.Ext2BlockMap
import CrepOS.Analysis.Ext2Free

/-!
# `set_block` and `get_block`

`set_block` does what it promises for the direct blocks, and for the doubly and triply indirect ones if all
indirect blocks are there and the entry is not used for another block (`setBlock_lawful`). The range of the
singly indirect blocks does not store anything, and a new indirect block is used with the bytes that it
has. `setBlock_lawful_iff` says that the promise holds on all devices for the direct blocks only.
-/

set_option autoImplicit false

namespace CrepOS.Analysis

open CrepOS.Library CrepOS.Model CrepOS.Interface

variable {g : Ext2Super} {disk disk' : Memory} {ino ino' : Inode} {n i j b : ℕ}

/-! ## What `get_block` reads -/

/-- The last entry has the block. -/
theorem getBlock_of_places {places : List ℕ} {p : ℕ} (h : entryPlaces g disk ino i = places ++ [p]) :
    ino.getBlock g disk i = disk.word p 4 := by
  have hlast := congrArg List.getLast? h
  rw [List.getLast?_append, List.getLast?_singleton, Option.some_or] at hlast
  by_cases hdirect : i < 12
  · simp [entryPlaces, hdirect] at hlast
  · by_cases hsingle : i - 12 < g.blockSize / 4
    · simp only [entryPlaces, if_neg hdirect, if_pos hsingle, List.getLast?_singleton,
        Option.some.injEq] at hlast
      rw [getBlock_single rfl (by omega) hsingle, hlast]
    · by_cases hdouble : (i - 12 - g.blockSize / 4) / (g.blockSize / 4) < g.blockSize / 4
      · simp only [entryPlaces, if_neg hdirect, if_neg hsingle, if_pos hdouble, List.getLast?_cons_cons,
          List.getLast?_singleton, Option.some.injEq] at hlast
        rw [getBlock_double rfl (by omega) hdouble, hlast]
      · simp only [entryPlaces, if_neg hdirect, if_neg hsingle, if_neg hdouble, List.getLast?_cons_cons,
          List.getLast?_singleton, Option.some.injEq] at hlast
        rw [getBlock_triple rfl (by omega) (Nat.le_of_not_lt hdouble), hlast]

/-- **`get_block` depends only on `blocks` and on the entries that it reads.** -/
theorem getBlock_congr (hblocks : ∀ m, m = i ∨ 12 ≤ m → ino'.blocks m = ino.blocks m)
    (hwords : ∀ q ∈ entryPlaces g disk ino i, disk'.word q 4 = disk.word q 4) :
    ino'.getBlock g disk' i = ino.getBlock g disk i := by
  by_cases hdirect : i < 12
  · rw [getBlock_direct hdirect, getBlock_direct hdirect, hblocks i (Or.inl rfl)]
  · by_cases hsingle : i - 12 < g.blockSize / 4
    · simp only [entryPlaces, if_neg hdirect, if_pos hsingle, List.mem_singleton, forall_eq] at hwords
      rw [getBlock_single rfl (by omega) hsingle, getBlock_single rfl (by omega) hsingle,
        hblocks 12 (by omega), hwords]
    · by_cases hdouble : (i - 12 - g.blockSize / 4) / (g.blockSize / 4) < g.blockSize / 4
      · simp only [entryPlaces, if_neg hdirect, if_neg hsingle, if_pos hdouble, List.mem_cons,
          List.not_mem_nil, or_false, forall_eq_or_imp, forall_eq] at hwords
        rw [getBlock_double rfl (by omega) hdouble, getBlock_double rfl (by omega) hdouble,
          hblocks 13 (by omega), hwords.1, hwords.2]
      · simp only [entryPlaces, if_neg hdirect, if_neg hsingle, if_neg hdouble, List.mem_cons,
          List.not_mem_nil, or_false, forall_eq_or_imp, forall_eq] at hwords
        rw [getBlock_triple rfl (by omega) (Nat.le_of_not_lt hdouble),
          getBlock_triple rfl (by omega) (Nat.le_of_not_lt hdouble), hblocks 14 (by omega), hwords.1,
          hwords.2.1, hwords.2.2]

/-! ## What `set_block` writes -/

theorem setBlock_direct (hi : i < 12) : ino.setBlock g disk i b = (disk, ino.setBlocks i b, (b : ℤ)) :=
  if_pos hi

theorem setBlocks_blocks (hb : b < 2 ^ 32) : (ino.setBlocks i b).blocks i = b :=
  Memory.word_setWord_of_lt (by omega)

theorem setBlocks_blocks_other {m : ℕ} (h : m ≠ i) : (ino.setBlocks i b).blocks m = ino.blocks m :=
  Memory.word_setWord_outside (by omega)

/-- INTERNAL: an indirect block that is there. -/
theorem ensureBlocks_present {m : ℕ} (h : ino.blocks m ≠ 0) :
    Inode.ensureBlocks g disk ino m = (disk, ino, true) := if_neg h

theorem ensureEntry_present {p : ℕ} (h : disk.word p 4 ≠ 0) :
    Inode.ensureEntry g disk p = (disk, some (disk.word p 4)) := if_neg h

/-- The singly indirect blocks: nothing is stored.
SRCLINE: kernel/fs/ext2/inode.cpp:202-210 -/
theorem setBlock_single (hi : 12 ≤ i) (hlt : i - 12 < g.blockSize / 4) (h : ino.blocks 12 ≠ 0) :
    ino.setBlock g disk i b = (disk, ino, (b : ℤ)) := by
  rw [Inode.setBlock, if_neg (by omega)]
  dsimp only
  rw [if_neg (by omega), ensureBlocks_present h]

/-- The doubly indirect blocks, if none is missing.
SRCLINE: kernel/fs/ext2/inode.cpp:182-201 -/
theorem setBlock_double (hi : 12 + g.blockSize / 4 ≤ i)
    (hlt : (i - 12 - g.blockSize / 4) / (g.blockSize / 4) < g.blockSize / 4) {p : ℕ}
    (hp : p = ino.blocks 13 * g.blockSize +
      Inode.entryOffset ((i - 12 - g.blockSize / 4) / (g.blockSize / 4)))
    (h : ino.blocks 13 ≠ 0) (hentry : disk.word p 4 ≠ 0) :
    ino.setBlock g disk i b =
      (disk.setWord (disk.word p 4 * g.blockSize +
        Inode.entryOffset ((i - 12 - g.blockSize / 4) % (g.blockSize / 4))) 4 b, ino, (b : ℤ)) := by
  rw [Inode.setBlock, if_neg (by omega)]
  dsimp only
  rw [if_pos (by omega), if_neg (by omega), ensureBlocks_present h]
  dsimp only
  rw [← hp, ensureEntry_present hentry]

/-- The triply indirect blocks, if none is missing.
SRCLINE: kernel/fs/ext2/inode.cpp:150-181 -/
theorem setBlock_triple (hi : 12 + g.blockSize / 4 ≤ i)
    (hge : g.blockSize / 4 ≤ (i - 12 - g.blockSize / 4) / (g.blockSize / 4)) {d p q : ℕ}
    (hd : d = (i - 12 - g.blockSize / 4 - g.blockSize / 4 * (g.blockSize / 4)) / (g.blockSize / 4))
    (hp : p = ino.blocks 14 * g.blockSize + Inode.entryOffset d)
    (hq : q = d * g.blockSize + Inode.entryOffset (disk.word p 4))
    (h : ino.blocks 14 ≠ 0) (hentry : disk.word p 4 ≠ 0) (hentry' : disk.word q 4 ≠ 0) :
    ino.setBlock g disk i b =
      (disk.setWord (disk.word q 4 * g.blockSize +
        Inode.entryOffset ((i - 12 - g.blockSize / 4) % (g.blockSize / 4))) 4 b, ino, (b : ℤ)) := by
  rw [Inode.setBlock, if_neg (by omega)]
  dsimp only
  rw [if_pos (by omega), if_pos (by omega), ensureBlocks_present h]
  dsimp only
  rw [← hd, ← hp, ensureEntry_present hentry]
  dsimp only
  rw [← hq, ensureEntry_present hentry']

/-! ## Where the law holds -/

/-- INTERNAL: one entry is written, which is the last of the logical block and not read for others. -/
theorem lawful_of_entry (places : List ℕ) {p : ℕ} (hb : b < 2 ^ 32)
    (hset : ino.setBlock g disk i b = (disk.setWord p 4 b, ino, (b : ℤ)))
    (hplaces : entryPlaces g (disk.setWord p 4 b) ino i = places ++ [p])
    (hown : EntryOwn g disk ino i p) : SetLawful g disk ino i b := by
  intro _
  rw [hset]
  constructor
  · rw [getBlock_of_places hplaces]
    exact Memory.word_setWord_of_lt (by omega)
  · intro j _ _ hji hmapped
    apply getBlock_congr fun _ _ => rfl
    intro q hq
    exact Memory.word_setWord_outside (hown.2 j hji hmapped q hq)

/-- INTERNAL: the entries of a doubly indirect block. -/
theorem two_places {a c p : ℕ} {places : List ℕ} (h : [a, c] = places ++ [p]) : [a] = places ∧ c = p := by
  have hdrop := congrArg List.dropLast h
  have hlast := congrArg List.getLast? h
  simp at hdrop hlast
  exact ⟨hdrop, hlast⟩

/-- INTERNAL: the entries of a triply indirect block. -/
theorem three_places {a c d p : ℕ} {places : List ℕ} (h : [a, c, d] = places ++ [p]) :
    [a, c] = places ∧ d = p := by
  have hdrop := congrArg List.dropLast h
  have hlast := congrArg List.getLast? h
  simp at hdrop hlast
  exact ⟨hdrop, hlast⟩

/-- INTERNAL: a word that is apart from the one that is written. -/
theorem word_kept (disk : Memory) (b : ℕ) {p q : ℕ} (h : q + 4 ≤ p ∨ p + 4 ≤ q) :
    (disk.setWord p 4 b).word q 4 = disk.word q 4 := Memory.word_setWord_outside h

/-- **The law holds under the condition on the call.**
SRCLINE: kernel/fs/ext2/inode.cpp:135-213 -/
theorem setBlock_lawful (hb : b < 2 ^ 32) (h : SetSafe g disk ino i b) : SetLawful g disk ino i b := by
  rcases h with hdirect | ⟨hroot, places, p, hplaces, hpresent, hlast⟩
  · intro _
    rw [setBlock_direct hdirect]
    constructor
    · rw [getBlock_direct hdirect, setBlocks_blocks hb]
    · intro j _ _ hji _
      apply getBlock_congr
      · intro m hm
        exact setBlocks_blocks_other (by omega)
      · intro q _
        rfl
  · by_cases hdirect : i < 12
    · simp [entryPlaces, hdirect] at hplaces
    by_cases hsingle : i - 12 < g.blockSize / 4
    · -- nothing is written, and the entry is what it should be
      have hr : entryRoot g i = 12 := if_pos hsingle
      rw [hr] at hroot
      rw [if_pos hr] at hlast
      intro _
      rw [setBlock_single (by omega) hsingle hroot]
      exact ⟨(getBlock_of_places hplaces).trans hlast, fun _ _ _ _ _ => rfl⟩
    by_cases hdouble : (i - 12 - g.blockSize / 4) / (g.blockSize / 4) < g.blockSize / 4
    · have hr : entryRoot g i = 13 := by rw [entryRoot, if_neg hsingle, if_pos hdouble]
      rw [hr] at hroot
      rw [hr, if_neg (by decide)] at hlast
      have hbefore := hlast.1
      simp only [entryPlaces, if_neg hdirect, if_neg hsingle, if_pos hdouble, List.dropLast] at hplaces hbefore
      obtain ⟨hpl, rfl⟩ := two_places hplaces
      rw [← hpl] at hpresent
      have hentry := hpresent _ List.mem_cons_self
      have hkept := word_kept disk b (hbefore _ List.mem_cons_self)
      have hset := setBlock_double (b := b) (by omega) hdouble rfl hroot hentry
      apply lawful_of_entry places hb hset _ hlast
      rw [← hpl]
      simp only [entryPlaces, if_neg hdirect, if_neg hsingle, if_pos hdouble, hkept]
      rfl
    · have hr : entryRoot g i = 14 := by rw [entryRoot, if_neg hsingle, if_neg hdouble]
      rw [hr] at hroot
      rw [hr, if_neg (by decide)] at hlast
      have hbefore := hlast.1
      simp only [entryPlaces, if_neg hdirect, if_neg hsingle, if_neg hdouble, List.dropLast] at hplaces hbefore
      obtain ⟨hpl, rfl⟩ := three_places hplaces
      rw [← hpl] at hpresent
      have hentry := hpresent _ List.mem_cons_self
      have hentry' := hpresent _ (List.mem_cons_of_mem _ List.mem_cons_self)
      have hkept := word_kept disk b (hbefore _ List.mem_cons_self)
      have hkept' := word_kept disk b (hbefore _ (List.mem_cons_of_mem _ List.mem_cons_self))
      have hset := setBlock_triple (b := b) (by omega) (Nat.le_of_not_lt hdouble) rfl rfl rfl hroot
        hentry hentry'
      apply lawful_of_entry places hb hset _ hlast
      rw [← hpl]
      simp only [entryPlaces, if_neg hdirect, if_neg hsingle, if_neg hdouble, hkept, hkept']
      rfl

/-! ## The blocks of a small file -/

theorem pointer_zero (ks : List ℕ) : pointer g disk 0 ks = none := by
  cases ks <;> rfl

theorem pointer_nil (hb : b ≠ 0) : pointer g disk b [] = some b := if_neg hb

theorem pointer_cons (hb : b ≠ 0) (k : ℕ) (ks : List ℕ) :
    pointer g disk b (k :: ks) = pointer g disk (disk.word (b * g.blockSize + 4 * k) 4) ks := if_neg hb

/-- INTERNAL: the way to a singly indirect block. -/
theorem blockPath_single (h : (blockPath n i).1 = 12) : ∃ k < n, (blockPath n i).2 = [k] := by
  unfold blockPath at h ⊢
  split at h
  · omega
  · split at h
    · next hdirect hsingle =>
      rw [if_neg hdirect, if_pos hsingle]
      exact ⟨i - 12, hsingle, rfl⟩
    · split at h <;> cases h

/-- INTERNAL: the way to a triply indirect block. -/
theorem blockPath_triple (hn : 0 < n) (h : (blockPath n i).1 = 14) :
    ∃ p q r, q < n ∧ (blockPath n i).2 = [p, q, r] := by
  unfold blockPath at h ⊢
  split at h
  · omega
  · split at h
    · cases h
    · split at h
      · cases h
      · next hdirect hsingle hdouble =>
        rw [if_neg hdirect, if_neg hsingle, if_neg hdouble]
        exact ⟨_, _, _, Nat.mod_lt _ hn, rfl⟩

/-- INTERNAL: allocations that fail do not change the disk. -/
theorem allocatesTo_of_none (h : ∀ d x, ext2AllocBlock g disk ≠ (d, some x)) {d : Memory}
    (hd : AllocatesTo g disk d) : d = disk := by
  induction hd with
  | refl => rfl
  | step _ hstep ih =>
    rw [ih] at hstep
    exact absurd hstep (h _ _)

/-- INTERNAL: an allocator that fails returns no block of the file. -/
theorem freshBlocks_of_none (h : ∀ d x, ext2AllocBlock g disk ≠ (d, some x)) :
    FreshBlocks g disk ino := by
  intro d d' x hd hstep
  rw [allocatesTo_of_none h hd] at hstep
  exact absurd hstep (h d' x)

/-- One group, with blocks of `n` entries. -/
def fileSuper (n : ℕ) : Ext2Super where
  sectorSize := 512
  blockSize := n * 4
  blocksPerGroup := 8192
  inodesPerGroup := 32
  inodeSize := 128
  bgdCnt := 1

/-- An inode with some of the `blocks`. -/
def fileInode (blocks : List (ℕ × ℕ)) : Inode :=
  ⟨Memory.ofWords (blocks.map fun w => (40 + 4 * w.1, w.2)), 1⟩

theorem fileInode_blocks {blocks : List (ℕ × ℕ)} (hblocks : ∀ w ∈ blocks, w.2 < 2 ^ 32) (m : ℕ) :
    (fileInode blocks).blocks m = Memory.wordIn blocks m := by
  unfold Inode.blocks fileInode
  rw [Memory.word_ofWords _ (by omega)]
  · clear hblocks
    induction blocks with
    | nil => rfl
    | cons w blocks ih =>
      rw [List.map_cons, Memory.wordIn, Memory.wordIn, ih]
      by_cases hm : m = w.1
      · rw [if_pos (by omega), if_pos hm]
      · rw [if_neg (by omega), if_neg hm]
  · intro w hw
    obtain ⟨w', hw', rfl⟩ := List.mem_map.mp hw
    exact ⟨by dsimp only; omega, hblocks w' hw'⟩

/-- INTERNAL: the group has no block if its count is zero. -/
theorem alloc_of_zero (hzero : BitmapKind.freeCount (fileSuper n) disk .blocks 0 = 0) :
    ∀ d x, ext2AllocBlock (fileSuper n) disk ≠ (d, some x) := by
  have hword : (readBgd (fileSuper n) disk 0).word 12 2 = 0 := by
    rw [readBgd, bgdPos_eq, Nat.zero_div, Memory.word_load (by decide)]
    exact hzero
  intro d x hx
  have hone : ext2AllocBlock (fileSuper n) disk = (disk, none) := by
    have htake : bgdAllocBlock (fileSuper n) disk 0 = (disk, none) := by
      unfold bgdAllocBlock takeBit
      dsimp only
      rw [if_pos hword]
    unfold ext2AllocBlock
    rw [show (fileSuper n).bgdCnt = 1 from rfl, allocFromGroups, htake]
    rfl
  rw [hone] at hx
  cases hx

/-! ### A singly indirect block -/

/-- INTERNAL: the block is not stored. -/
theorem single_lost (hi : 12 ≤ i) (hlt : i - 12 < n) :
    FileTree (fileSuper n) (fun _ => 0) (fileInode [(12, 8)]) ∧
    FreshBlocks (fileSuper n) (fun _ => 0) (fileInode [(12, 8)]) ∧
    ¬ SetLawful (fileSuper n) (fun _ => 0) (fileInode [(12, 8)]) i 1 := by
  have hdiv : (fileSuper n).blockSize / 4 = n := Nat.mul_div_cancel _ (by decide)
  have hzero : ∀ x k, Memory.word (fun _ => 0) x k = 0 := by
    intro x k
    induction k generalizing x with
    | zero => rfl
    | succ k ih =>
      rw [Memory.word, ih]
      rfl
  have hblocks : ∀ m, (fileInode [(12, 8)]).blocks m = Memory.wordIn [(12, 8)] m :=
    fileInode_blocks (by simp)
  have hblock : (fileInode [(12, 8)]).blocks 12 = 8 := (hblocks 12).trans rfl
  refine ⟨?_, ?_, ?_⟩
  · -- `blocks[12]` is the only block
    have honly : ∀ m ks x, UsesAt (fileSuper n) (fun _ => 0) (fileInode [(12, 8)]) m ks x →
        m = 12 ∧ ks = [] := by
      rintro m ks x ⟨i', -, -, -, hpointer⟩
      rw [hblocks, Memory.wordIn, Memory.wordIn] at hpointer
      by_cases hm : m = 12
      · refine ⟨hm, ?_⟩
        cases ks with
        | nil => rfl
        | cons k ks =>
          rw [if_pos hm, pointer_cons (by decide), hzero, pointer_zero] at hpointer
          cases hpointer
      · rw [if_neg hm, pointer_zero] at hpointer
        cases hpointer
    intro m ks m' ks' x hx hx'
    rw [(honly m ks x hx).1, (honly m ks x hx).2, (honly m' ks' x hx').1, (honly m' ks' x hx').2]
    exact ⟨rfl, rfl⟩
  · exact freshBlocks_of_none (alloc_of_zero (hzero _ 2))
  · intro hlawful
    have hset : (fileInode [(12, 8)]).setBlock (fileSuper n) (fun _ => 0) i 1 =
        (fun _ => 0, fileInode [(12, 8)], ((1 : ℕ) : ℤ)) :=
      setBlock_single hi (by rw [hdiv]; exact hlt) (by rw [hblock]; decide)
    rw [SetLawful, hset] at hlawful
    have hget := (hlawful (by decide)).1
    rw [getBlock_single rfl hi (by rw [hdiv]; exact hlt), hzero] at hget
    cases hget

/-- INTERNAL: a call that writes the entry `k` of the singly indirect block `z` is not lawful. -/
theorem not_lawful_of_shared {z k : ℕ} (hino : ino.blocks 12 = z) (hino' : ino'.blocks 12 = z) (hz : z ≠ 0)
    (hentry : disk.word (z * (n * 4) + 4 * k) 4 = 9)
    (hset : ino.setBlock (fileSuper n) disk i 10 =
      (disk'.setWord (z * (n * 4) + 4 * k) 4 10, ino', ((10 : ℕ) : ℤ)))
    (hk : k < n) (hk32 : 4 * k < 2 ^ 32) (hne : 12 + k ≠ i) : ¬ SetLawful (fileSuper n) disk ino i 10 := by
  intro hlawful
  have hbs : (fileSuper n).blockSize = n * 4 := rfl
  have hdiv : (fileSuper n).blockSize / 4 = n := Nat.mul_div_cancel _ (by decide)
  rw [SetLawful, hset] at hlawful
  have hpath : blockPath n (12 + k) = (12, [k]) := by
    rw [blockPath, if_neg (by omega), Nat.add_sub_cancel_left, if_pos hk]
  have hsub : 12 + k - 12 = k := Nat.add_sub_cancel_left 12 k
  have hmapped : Mapped (fileSuper n) disk ino (12 + k) := by
    rw [Mapped, hdiv, hpath]
    simp only
    rw [hino, pointer_cons hz, hbs, hentry, pointer_nil (by decide)]
    exact Option.some_ne_none 9
  have hcap : 12 + k < fileCapacity n := by
    rw [fileCapacity]
    omega
  have hsame := (hlawful (show ((10 : ℕ) : ℤ) ≠ -1 by decide)).2 (12 + k) (by rw [hdiv]; exact hcap)
    (by omega) hne hmapped
  rw [getBlock_single hdiv (by omega) (by rw [hsub]; exact hk),
    getBlock_single hdiv (by omega) (by rw [hsub]; exact hk), hsub, hino, hino', hbs,
    entryOffset_of_lt hk32, hentry, Memory.word_setWord_of_lt (by decide)] at hsame
  cases hsame

/-- INTERNAL: an offset is that of an entry. -/
theorem entryOffset_entry {o : ℕ} (ho : o < n) :
    ∃ k < n, Inode.entryOffset o = 4 * k ∧ 4 * k < 2 ^ 32 := by
  unfold Inode.entryOffset
  exact ⟨o * 4 % 2 ^ 32 / 4, by omega, by omega, by omega⟩

/-- INTERNAL: the blocks of a file that has one singly indirect block with one entry. -/
theorem usesAt_single {z k v : ℕ} (hz : z ≠ 0) (hv : v ≠ 0)
    (hblocks : ∀ m, ino.blocks m = if m = 12 then z else 0)
    (hentry : ∀ k' < n, disk.word (z * (n * 4) + 4 * k') 4 = if k' = k then v else 0) (m : ℕ)
    (ks : List ℕ) (x : ℕ) (h : UsesAt (fileSuper n) disk ino m ks x) :
    m = 12 ∧ (ks = [] ∧ x = z ∨ ks = [k] ∧ x = v) := by
  obtain ⟨i', -, hm, hprefix, hpointer⟩ := h
  have hbs : (fileSuper n).blockSize = n * 4 := rfl
  have hdiv : (fileSuper n).blockSize / 4 = n := Nat.mul_div_cancel _ (by decide)
  rw [hdiv] at hm hprefix
  rw [hblocks] at hpointer
  by_cases h12 : m = 12
  · rw [if_pos h12] at hpointer
    refine ⟨h12, ?_⟩
    obtain ⟨k', hk', hpath⟩ := blockPath_single (hm.trans h12)
    rw [hpath] at hprefix
    cases ks with
    | nil =>
      rw [pointer_nil hz] at hpointer
      cases hpointer
      exact Or.inl ⟨rfl, rfl⟩
    | cons k'' ks =>
      obtain ⟨rfl, hrest⟩ := List.cons_prefix_cons.mp hprefix
      obtain rfl := List.prefix_nil.mp hrest
      rw [pointer_cons hz, hbs, hentry k'' hk'] at hpointer
      by_cases hkk : k'' = k
      · rw [if_pos hkk, pointer_nil hv] at hpointer
        cases hpointer
        exact Or.inr ⟨by rw [hkk], rfl⟩
      · rw [if_neg hkk, pointer_zero] at hpointer
        cases hpointer
  · rw [if_neg h12, pointer_zero] at hpointer
    cases hpointer

/-- INTERNAL: an allocator that succeeds once. -/
theorem freshBlocks_of_one {disk' : Memory} {y : ℕ} (h : ext2AllocBlock g disk = (disk', some y))
    (hend : ∀ d x, ext2AllocBlock g disk' ≠ (d, some x)) (hy : ∀ m ks, ¬ UsesAt g disk ino m ks y) :
    FreshBlocks g disk ino := by
  have hreach : ∀ d, AllocatesTo g disk d → d = disk ∨ d = disk' := by
    intro d hd
    induction hd with
    | refl => exact Or.inl rfl
    | step _ hstep ih =>
      rcases ih with rfl | rfl
      · rw [h] at hstep
        cases hstep
        exact Or.inr rfl
      · exact absurd hstep (hend _ _)
  intro d d' x hd hstep
  rcases hreach d hd with rfl | rfl
  · rw [h] at hstep
    cases hstep
    exact hy
  · exact absurd hstep (hend _ _)

/-! ### A doubly indirect block -/

/-- A device with one free block, the block `7`. The entry `a` of that block is `8`, and the entry `k` of
block `8` is `9`. -/
def garbageDisk (n a k : ℕ) : Memory :=
  Memory.ofWords [(bgdTable (fileSuper n), 3), (bgdTable (fileSuper n) + 8, 5),
    (bgdTable (fileSuper n) + 12, 1), (3 * (n * 4), 127), (7 * (n * 4) + 4 * a, 8),
    (8 * (n * 4) + 4 * k, 9)]

section Garbage

variable {a k : ℕ}

/-- INTERNAL: the descriptor table is in the block `1` or `2`. -/
theorem fileSuper_table (n : ℕ) : bgdTable (fileSuper n) = 1 * (n * 4) ∨
    bgdTable (fileSuper n) = 2 * (n * 4) ∧ n * 4 < 2048 := by
  have hbs : (fileSuper n).blockSize = n * 4 := rfl
  unfold bgdTable
  rw [hbs]
  split
  · omega
  · omega

theorem garbageDisk_word {x : ℕ} (hx : x % 4 = 0) : (garbageDisk n a k).word x 4 =
    if x = bgdTable (fileSuper n) then 3 else if x = bgdTable (fileSuper n) + 8 then 5
    else if x = bgdTable (fileSuper n) + 12 then 1 else if x = 3 * (n * 4) then 127
    else if x = 7 * (n * 4) + 4 * a then 8 else if x = 8 * (n * 4) + 4 * k then 9 else 0 := by
  have htable := fileSuper_table n
  apply Memory.word_ofWords _ hx
  simp only [List.mem_cons, List.not_mem_nil, or_false, forall_eq_or_imp, forall_eq]
  omega

theorem garbageDisk_bitmapPos :
    BitmapKind.bitmapPos (fileSuper n) (garbageDisk n a k) .blocks 0 = 3 * (n * 4) := by
  have htable := fileSuper_table n
  have hgroup : groupPos (fileSuper n) 0 = bgdTable (fileSuper n) := rfl
  unfold BitmapKind.bitmapPos BitmapKind.bitmapBlock
  rw [hgroup, BitmapKind.bitmapAt, Nat.add_zero, garbageDisk_word (by omega), if_pos rfl]
  rfl

theorem garbageDisk_freeCount :
    BitmapKind.freeCount (fileSuper n) (garbageDisk n a k) .blocks 0 = 1 := by
  have htable := fileSuper_table n
  have hgroup : groupPos (fileSuper n) 0 = bgdTable (fileSuper n) := rfl
  unfold BitmapKind.freeCount
  rw [hgroup, BitmapKind.countAt, ← Memory.word_mod 2 2, garbageDisk_word (by omega),
    if_neg (by omega), if_neg (by omega), if_pos rfl]
  rfl

/-- INTERNAL: the one free block is found. -/
theorem garbageDisk_alloc (hn : 256 ≤ n) : ext2AllocBlock (fileSuper n) (garbageDisk n a k) =
    (markUsed (fileSuper n) (garbageDisk n a k) .blocks 0 7, some 7) := by
  have htable := fileSuper_table n
  have hbs : (fileSuper n).blockSize = n * 4 := rfl
  have hgroup : groupPos (fileSuper n) 0 = bgdTable (fileSuper n) := rfl
  have hpos := garbageDisk_bitmapPos (n := n) (a := a) (k := k)
  have hbyte : garbageDisk n a k (3 * (n * 4)) = 127#8 := by
    have hlow := Memory.word_mod (m := garbageDisk n a k) (a := 3 * (n * 4)) 1 3
    rw [garbageDisk_word (by omega), if_neg (by omega), if_neg (by omega), if_neg (by omega),
      if_pos rfl] at hlow
    apply BitVec.eq_of_toNat_eq
    rw [Memory.word, Memory.word] at hlow
    exact hlow.symm
  have hbit : ∀ r < 8, BitmapKind.groupBit (fileSuper n) (garbageDisk n a k) .blocks 0 r =
      (127#8).getLsbD r := by
    intro r hr
    rw [BitmapKind.groupBit, hpos, Memory.bit, Nat.div_eq_of_lt hr, Nat.add_zero, hbyte,
      Nat.mod_eq_of_lt hr]
  have hclear : groupClear (fileSuper n) (garbageDisk n a k) .blocks 0 = some 7 := by
    have hspec := findClear_spec (BitmapKind.groupBit (fileSuper n) (garbageDisk n a k) .blocks 0) 0
      (fileSuper n).blockSize fun j hj => absurd hj (Nat.not_lt_zero j)
    have h7 : BitmapKind.groupBit (fileSuper n) (garbageDisk n a k) .blocks 0 7 = false :=
      (hbit 7 (by decide)).trans rfl
    cases hfound : groupClear (fileSuper n) (garbageDisk n a k) .blocks 0 with
    | none =>
      rw [hspec.2 hfound 7 (by omega)] at h7
      cases h7
    | some r =>
      obtain ⟨-, hbelow, hr⟩ := hspec.1 r hfound
      have hle : r ≤ 7 := by
        by_contra hno
        rw [hbelow 7 (by omega)] at h7
        cases h7
      rw [hbit r (by omega)] at hr
      have hseven : ∀ r ≤ 7, (127#8).getLsbD r = false → r = 7 := by decide
      rw [hseven r hle hr]
  have hone : bgdAllocBlock (fileSuper n) (garbageDisk n a k) 0 =
      (markUsed (fileSuper n) (garbageDisk n a k) .blocks 0 7, some 7) := by
    have htake : takeBit (fileSuper n) 0 12 (garbageDisk n a k) 0 = _ :=
      takeBit_behind .blocks (Nat.zero_div _) (by rw [hpos, hgroup, rawBgdSize]; omega)
    rw [garbageDisk_freeCount, if_neg (by decide), hclear] at htake
    exact htake
  unfold ext2AllocBlock
  rw [show (fileSuper n).bgdCnt = 1 from rfl, allocFromGroups, hone]
  simp

/-- INTERNAL: the words that the allocation leaves. -/
theorem garbageDisk_taken (hn : 256 ≤ n) {x : ℕ} (hx : x % 4 = 0) (hbitmap : x ≠ 3 * (n * 4))
    (hcount : x ≠ bgdTable (fileSuper n) + 12) :
    (markUsed (fileSuper n) (garbageDisk n a k) .blocks 0 7).word x 4 =
      (garbageDisk n a k).word x 4 := by
  have htable := fileSuper_table n
  have hpos := garbageDisk_bitmapPos (n := n) (a := a) (k := k)
  have hgroup : groupPos (fileSuper n) 0 + BitmapKind.countAt .blocks = bgdTable (fileSuper n) + 12 := rfl
  rw [markUsed, Memory.word_setWord_outside (by omega), hpos, Memory.word_setBit_outside (by omega)]

/-- INTERNAL: the inode table is in the block `5`. -/
theorem garbageDisk_inodePos (hn : 256 ≤ n) :
    inodePos (fileSuper n) (markUsed (fileSuper n) (garbageDisk n a k) .blocks 0 7) 1 = 5 * (n * 4) := by
  have htable := fileSuper_table n
  have hgroup : groupPos (fileSuper n) 0 = bgdTable (fileSuper n) := rfl
  have hslot : inodeSlot 1 = 0 := rfl
  have hblock : (readBgd (fileSuper n) (markUsed (fileSuper n) (garbageDisk n a k) .blocks 0 7) 0).word
      8 4 = 5 := by
    rw [readBgd, bgdPos_eq, Nat.zero_div, Memory.word_load (by decide), hgroup,
      garbageDisk_taken hn (by omega) (by omega) (by omega), garbageDisk_word (by omega),
      if_neg (by omega), if_pos rfl]
  rw [inodePos, hslot, Nat.zero_div, Nat.zero_mod, hblock, Nat.mul_zero, Nat.zero_mod, Nat.add_zero]
  rfl

end Garbage

/-- INTERNAL: the new indirect block is used with the entry that it has, which is the singly indirect
block of the file. -/
theorem double_garbage (hn : 256 ≤ n) (h32 : i < 2 ^ 32) (hi : 12 + n ≤ i) (hlt : (i - 12 - n) / n < n) :
    ∃ disk ino, FileTree (fileSuper n) disk ino ∧ FreshBlocks (fileSuper n) disk ino ∧
      ¬ SetLawful (fileSuper n) disk ino i 10 := by
  have htable := fileSuper_table n
  have hbs : (fileSuper n).blockSize = n * 4 := rfl
  have hdiv : (fileSuper n).blockSize / 4 = n := Nat.mul_div_cancel _ (by decide)
  obtain ⟨a, ha⟩ : ∃ a, a = (i - 12 - n) / n := ⟨_, rfl⟩
  obtain ⟨o, ho⟩ : ∃ o, o = (i - 12 - n) % n := ⟨_, rfl⟩
  have han : a * n ≤ i - 12 - n := by
    rw [ha]
    exact Nat.div_mul_le_self _ n
  have hasmall : a * 256 ≤ a * n := Nat.mul_le_mul_left a hn
  have ha32 : Inode.entryOffset a = 4 * a := entryOffset_of_lt (by omega)
  rw [← ha] at hlt
  obtain ⟨k, hkn, hk, hk32⟩ := entryOffset_entry (show o < n by rw [ho]; exact Nat.mod_lt _ (by omega))
  have hblocks : ∀ m, (fileInode [(12, 8)]).blocks m = if m = 12 then 8 else 0 :=
    fileInode_blocks (by simp)
  have hentry : ∀ k' < n, (garbageDisk n a k).word (8 * (n * 4) + 4 * k') 4 = if k' = k then 9 else 0 := by
    intro k' hk'
    rw [garbageDisk_word (by omega), if_neg (by omega), if_neg (by omega), if_neg (by omega),
      if_neg (by omega), if_neg (by omega)]
    by_cases hkk : k' = k
    · rw [if_pos (by omega), if_pos hkk]
    · rw [if_neg (by omega), if_neg hkk]
  have halloc := garbageDisk_alloc (a := a) (k := k) hn
  have huses := usesAt_single (n := n) (by decide) (by decide) hblocks hentry
  refine ⟨garbageDisk n a k, fileInode [(12, 8)], ?_, ?_, ?_⟩
  · intro m ks m' ks' x hx hx'
    obtain ⟨rfl, h1⟩ := huses m ks x hx
    obtain ⟨rfl, h2⟩ := huses m' ks' x hx'
    refine ⟨rfl, ?_⟩
    rcases h1 with ⟨rfl, h1⟩ | ⟨rfl, h1⟩ <;> rcases h2 with ⟨rfl, h2⟩ | ⟨rfl, h2⟩ <;>
      first | rfl | omega
  · apply freshBlocks_of_one halloc
    · apply alloc_of_zero
      rw [markUsed_freeCount, garbageDisk_freeCount]
    · intro m ks h7
      obtain ⟨-, ⟨-, h⟩ | ⟨-, h⟩⟩ := huses m ks 7 h7
      · cases h
      · cases h
  · have h13 : (fileInode [(12, 8)]).blocks 13 = 0 := (hblocks 13).trans rfl
    have h7 : ((fileInode [(12, 8)]).setBlocks 13 7).blocks 13 = 7 := setBlocks_blocks (by decide)
    have h12 : ((fileInode [(12, 8)]).setBlocks 13 7).blocks 12 = 8 :=
      (setBlocks_blocks_other (by decide)).trans ((hblocks 12).trans rfl)
    have hslot := garbageDisk_inodePos (a := a) (k := k) hn
    -- the entry of the new block
    have hgarbage : (((fileInode [(12, 8)]).setBlocks 13 7).writeBack (fileSuper n)
        (markUsed (fileSuper n) (garbageDisk n a k) .blocks 0 7)).word (7 * (n * 4) + 4 * a) 4 = 8 := by
      have hindex : ((fileInode [(12, 8)]).setBlocks 13 7).index = 1 := rfl
      rw [Inode.writeBack, hindex, hslot, Memory.word_store_outside (by simp only [rawInodeSize]; omega),
        garbageDisk_taken hn (by omega) (by omega) (by omega), garbageDisk_word (by omega),
        if_neg (by omega), if_neg (by omega), if_neg (by omega), if_neg (by omega), if_pos rfl]
    have hset : (fileInode [(12, 8)]).setBlock (fileSuper n) (garbageDisk n a k) i 10 =
        ((((fileInode [(12, 8)]).setBlocks 13 7).writeBack (fileSuper n)
          (markUsed (fileSuper n) (garbageDisk n a k) .blocks 0 7)).setWord (8 * (n * 4) + 4 * k) 4 10,
          (fileInode [(12, 8)]).setBlocks 13 7, ((10 : ℕ) : ℤ)) := by
      rw [Inode.setBlock, if_neg (by omega), hdiv]
      dsimp only
      rw [if_pos (by omega), if_neg (by omega), Inode.ensureBlocks, if_pos h13, halloc]
      dsimp only
      rw [← ha, ← ho, hk, ha32, h7, hbs, ensureEntry_present (by rw [hgarbage]; decide), hgarbage]
    have h12' : (fileInode [(12, 8)]).blocks 12 = 8 := (hblocks 12).trans rfl
    exact not_lawful_of_shared h12' h12 (by decide)
      (by rw [hentry k hkn, if_pos rfl]) hset hkn hk32 (by omega)

/-! ### A triply indirect block -/

/-- A device where the entry `d` of the block `2 ^ 27` is `s`, the entry `s` of the block `d` is `2 ^ 26`, and
the entry `k` of that one is `9`. -/
def sharedDisk (n d k s : ℕ) : Memory :=
  Memory.ofWords [(2 ^ 27 * (n * 4) + 4 * d, s), (d * (n * 4) + 4 * s, 2 ^ 26), (2 ^ 26 * (n * 4) + 4 * k, 9)]

/-- INTERNAL: the blocks and the entries of `sharedDisk` are apart. -/
structure SharedApart (n d k s : ℕ) : Prop where
  large : 256 ≤ n
  index : d * n < 2 ^ 32
  slot : k < n
  pos : 0 < s
  le : s ≤ 2
  ne : d ≠ s

section Shared

variable {d k s : ℕ}

theorem SharedApart.index_lt (h : SharedApart n d k s) : d * 256 < 2 ^ 32 :=
  Nat.lt_of_le_of_lt (Nat.mul_le_mul_left d h.large) h.index

theorem sharedDisk_word (h : SharedApart n d k s) {x : ℕ} (hx : x % 4 = 0) : (sharedDisk n d k s).word x 4 =
    if x = 2 ^ 27 * (n * 4) + 4 * d then s else if x = d * (n * 4) + 4 * s then 2 ^ 26
    else if x = 2 ^ 26 * (n * 4) + 4 * k then 9 else 0 := by
  have hindex := h.index
  have hlt := h.index_lt
  have hlarge := h.large
  have hslot := h.slot
  have hle := h.le
  have hdbs : d * (n * 4) = d * n * 4 := (Nat.mul_assoc d n 4).symm
  apply Memory.word_ofWords _ hx
  simp only [List.mem_cons, List.not_mem_nil, or_false, forall_eq_or_imp, forall_eq]
  omega

/-- INTERNAL: the entries of the singly indirect block. -/
theorem sharedDisk_single (h : SharedApart n d k s) {k' : ℕ} (hk' : k' < n) :
    (sharedDisk n d k s).word (2 ^ 26 * (n * 4) + 4 * k') 4 = if k' = k then 9 else 0 := by
  have hindex := h.index
  have hlarge := h.large
  have hle := h.le
  have hdbs : d * (n * 4) = d * n * 4 := (Nat.mul_assoc d n 4).symm
  rw [sharedDisk_word h (by omega), if_neg (by omega), if_neg (by omega)]
  by_cases hkk : k' = k
  · rw [if_pos (by omega), if_pos hkk]
  · rw [if_neg (by omega), if_neg hkk]

/-- INTERNAL: the entries of the triply indirect block. -/
theorem sharedDisk_triple (h : SharedApart n d k s) (d' : ℕ) :
    (sharedDisk n d k s).word (2 ^ 27 * (n * 4) + 4 * d') 4 = if d' = d then s else 0 := by
  have hindex := h.index
  have hlarge := h.large
  have hslot := h.slot
  have hle := h.le
  have hdbs : d * (n * 4) = d * n * 4 := (Nat.mul_assoc d n 4).symm
  rw [sharedDisk_word h (by omega)]
  by_cases hdd : d' = d
  · rw [if_pos (by omega), if_pos hdd]
  · rw [if_neg (by omega), if_neg (by omega), if_neg (by omega), if_neg hdd]

/-- INTERNAL: the entries of a block near the start of the device. -/
theorem sharedDisk_low (h : SharedApart n d k s) {b q : ℕ} (hb : b ≤ 2) (hq : q < n)
    (hother : b * (n * 4) + 4 * q ≠ d * (n * 4) + 4 * s) :
    (sharedDisk n d k s).word (b * (n * 4) + 4 * q) 4 = 0 := by
  have hbn : b * (n * 4) ≤ 2 * (n * 4) := Nat.mul_le_mul_right _ hb
  have hmod : b * (n * 4) = b * n * 4 := (Nat.mul_assoc b n 4).symm
  rw [sharedDisk_word h (by omega), if_neg (by omega), if_neg hother, if_neg (by omega)]

/-- INTERNAL: the entry that the source takes from the wrong block. -/
theorem sharedDisk_wrong (h : SharedApart n d k s) :
    (sharedDisk n d k s).word (d * (n * 4) + 4 * s) 4 = 2 ^ 26 := by
  have hindex := h.index
  have hlarge := h.large
  have hle := h.le
  have hdbs : d * (n * 4) = d * n * 4 := (Nat.mul_assoc d n 4).symm
  rw [sharedDisk_word h (by omega), if_neg (by omega), if_pos rfl]

theorem sharedInode_blocks (m : ℕ) : (fileInode [(12, 2 ^ 26), (14, 2 ^ 27)]).blocks m =
    Memory.wordIn [(12, 2 ^ 26), (14, 2 ^ 27)] m := fileInode_blocks (by simp) m

/-- INTERNAL: the file has four blocks. -/
theorem sharedDisk_uses (h : SharedApart n d k s) {m : ℕ} {ks : List ℕ} {x : ℕ}
    (huses : UsesAt (fileSuper n) (sharedDisk n d k s) (fileInode [(12, 2 ^ 26), (14, 2 ^ 27)]) m ks x) :
    m = 12 ∧ ks = [] ∧ x = 2 ^ 26 ∨ m = 12 ∧ ks = [k] ∧ x = 9 ∨
      m = 14 ∧ ks = [] ∧ x = 2 ^ 27 ∨ m = 14 ∧ ks = [d] ∧ x = s := by
  have hlarge := h.large
  have hpos := h.pos
  have hle := h.le
  have hbs : (fileSuper n).blockSize = n * 4 := rfl
  have hdiv : (fileSuper n).blockSize / 4 = n := Nat.mul_div_cancel _ (by decide)
  obtain ⟨i', -, hm, hprefix, hpointer⟩ := huses
  rw [hdiv] at hm hprefix
  rw [sharedInode_blocks, Memory.wordIn, Memory.wordIn, Memory.wordIn] at hpointer
  by_cases h12 : m = 12
  · rw [if_pos h12] at hpointer
    obtain ⟨k', hk', hpath⟩ := blockPath_single (hm.trans h12)
    rw [hpath] at hprefix
    cases ks with
    | nil =>
      rw [pointer_nil (by decide)] at hpointer
      cases hpointer
      exact Or.inl ⟨h12, rfl, rfl⟩
    | cons k'' ks =>
      obtain ⟨rfl, hrest⟩ := List.cons_prefix_cons.mp hprefix
      obtain rfl := List.prefix_nil.mp hrest
      rw [pointer_cons (by decide), hbs, sharedDisk_single h hk'] at hpointer
      by_cases hkk : k'' = k
      · rw [if_pos hkk, pointer_nil (by decide)] at hpointer
        cases hpointer
        exact Or.inr (Or.inl ⟨h12, by rw [hkk], rfl⟩)
      · rw [if_neg hkk, pointer_zero] at hpointer
        cases hpointer
  · by_cases h14 : m = 14
    · rw [if_neg h12, if_pos h14] at hpointer
      obtain ⟨p, q, r, hq, hpath⟩ := blockPath_triple (by omega) (hm.trans h14)
      rw [hpath] at hprefix
      cases ks with
      | nil =>
        rw [pointer_nil (by decide)] at hpointer
        cases hpointer
        exact Or.inr (Or.inr (Or.inl ⟨h14, rfl, rfl⟩))
      | cons p' ks =>
        obtain ⟨rfl, hrest⟩ := List.cons_prefix_cons.mp hprefix
        rw [pointer_cons (by decide), hbs, sharedDisk_triple h p'] at hpointer
        by_cases hpd : p' = d
        · rw [if_pos hpd] at hpointer
          cases ks with
          | nil =>
            rw [pointer_nil (by omega)] at hpointer
            cases hpointer
            exact Or.inr (Or.inr (Or.inr ⟨h14, by rw [hpd], rfl⟩))
          | cons q' ks =>
            obtain ⟨rfl, -⟩ := List.cons_prefix_cons.mp hrest
            have hother : s * (n * 4) + 4 * q' ≠ d * (n * 4) + 4 * s := fun heq =>
              h.ne (block_offset (by omega) (by omega) heq).1.symm
            rw [pointer_cons (by omega), hbs, sharedDisk_low h hle hq hother, pointer_zero] at hpointer
            cases hpointer
        · rw [if_neg hpd, pointer_zero] at hpointer
          cases hpointer
    · rw [if_neg h12, if_neg h14, pointer_zero] at hpointer
      cases hpointer

/-- INTERNAL: the four blocks are used once each. -/
theorem sharedDisk_fileTree (h : SharedApart n d k s) :
    FileTree (fileSuper n) (sharedDisk n d k s) (fileInode [(12, 2 ^ 26), (14, 2 ^ 27)]) := by
  have hle := h.le
  intro m ks m' ks' x hx hx'
  rcases sharedDisk_uses h hx with ⟨rfl, rfl, h1⟩ | ⟨rfl, rfl, h1⟩ | ⟨rfl, rfl, h1⟩ | ⟨rfl, rfl, h1⟩ <;>
    rcases sharedDisk_uses h hx' with ⟨rfl, rfl, h2⟩ | ⟨rfl, rfl, h2⟩ | ⟨rfl, rfl, h2⟩ | ⟨rfl, rfl, h2⟩ <;>
    first | exact ⟨rfl, rfl⟩ | omega

/-- INTERNAL: the count in the descriptor is zero. -/
theorem sharedDisk_full (h : SharedApart n d k s) :
    FreshBlocks (fileSuper n) (sharedDisk n d k s) (fileInode [(12, 2 ^ 26), (14, 2 ^ 27)]) := by
  have hlarge := h.large
  have hpos := h.pos
  have hle := h.le
  apply freshBlocks_of_none
  apply alloc_of_zero
  have hgroup : groupPos (fileSuper n) 0 = bgdTable (fileSuper n) := rfl
  have hlow : ∀ b ≤ 2, (sharedDisk n d k s).word (b * (n * 4) + 12) 4 = 0 := by
    intro b hb
    have hother : b * (n * 4) + 4 * 3 ≠ d * (n * 4) + 4 * s := fun heq => by
      have hoff := (block_offset (by omega) (by omega) heq).2
      omega
    exact sharedDisk_low h hb (by omega) hother
  have hcount : (sharedDisk n d k s).word (groupPos (fileSuper n) 0 + 12) 4 = 0 := by
    cases fileSuper_table n with
    | inl htable =>
      rw [hgroup, htable]
      exact hlow 1 (by decide)
    | inr htable =>
      rw [hgroup, htable.1]
      exact hlow 2 (by decide)
  have hword := Memory.word_mod (m := sharedDisk n d k s) (a := groupPos (fileSuper n) 0 + 12) 2 2
  rw [hcount] at hword
  exact hword.symm

end Shared

/-- INTERNAL: the second entry is taken from a block that is not part of the file, and leads to the singly
indirect block. -/
theorem triple_shared (hn : 256 ≤ n) (h32 : i < 2 ^ 32) (hi : 12 + n + n ^ 2 ≤ i) : ∃ disk ino,
    FileTree (fileSuper n) disk ino ∧ FreshBlocks (fileSuper n) disk ino ∧
      ¬ SetLawful (fileSuper n) disk ino i 10 := by
  have hbs : (fileSuper n).blockSize = n * 4 := rfl
  have hdiv : (fileSuper n).blockSize / 4 = n := Nat.mul_div_cancel _ (by decide)
  have hsq : n ^ 2 = n * n := pow_two n
  -- the indices of the source
  obtain ⟨d, hd⟩ : ∃ d, d = (i - 12 - n - n * n) / n := ⟨_, rfl⟩
  obtain ⟨o, ho⟩ : ∃ o, o = (i - 12 - n) % n := ⟨_, rfl⟩
  have hdn : d * n ≤ i - 12 - n - n * n := by
    rw [hd]
    exact Nat.div_mul_le_self _ n
  obtain ⟨k, hkn, hk, hk32⟩ := entryOffset_entry (show o < n by rw [ho]; exact Nat.mod_lt _ (by omega))
  obtain ⟨s, hs0, hs2, hsd⟩ : ∃ s, 0 < s ∧ s ≤ 2 ∧ d ≠ s := by
    by_cases hone : d = 1
    · exact ⟨2, by decide, by decide, by omega⟩
    · exact ⟨1, by decide, by decide, hone⟩
  have hapart : SharedApart n d k s := ⟨hn, by omega, hkn, hs0, hs2, hsd⟩
  refine ⟨sharedDisk n d k s, fileInode [(12, 2 ^ 26), (14, 2 ^ 27)], sharedDisk_fileTree hapart,
    sharedDisk_full hapart, ?_⟩
  have hge : n ≤ (i - 12 - n) / n := by
    by_contra hno
    have hsmall := (double_iff (by omega)).mp (Nat.lt_of_not_le hno)
    omega
  have hlt := hapart.index_lt
  have hd32 : Inode.entryOffset d = 4 * d := entryOffset_of_lt (by omega)
  have hs32 : Inode.entryOffset s = 4 * s := entryOffset_of_lt (by omega)
  have hblock12 : (fileInode [(12, 2 ^ 26), (14, 2 ^ 27)]).blocks 12 = 2 ^ 26 := (sharedInode_blocks 12).trans rfl
  have hblock14 : (fileInode [(12, 2 ^ 26), (14, 2 ^ 27)]).blocks 14 = 2 ^ 27 := (sharedInode_blocks 14).trans rfl
  have hp : (sharedDisk n d k s).word (2 ^ 27 * (n * 4) + 4 * d) 4 = s := by
    rw [sharedDisk_triple hapart, if_pos rfl]
  have hset : (fileInode [(12, 2 ^ 26), (14, 2 ^ 27)]).setBlock (fileSuper n) (sharedDisk n d k s) i 10 =
      ((sharedDisk n d k s).setWord (2 ^ 26 * (n * 4) + 4 * k) 4 10,
        fileInode [(12, 2 ^ 26), (14, 2 ^ 27)], ((10 : ℕ) : ℤ)) := by
    rw [setBlock_triple (d := d) (p := 2 ^ 27 * (n * 4) + 4 * d) (q := d * (n * 4) + 4 * s)
      (by rw [hdiv]; omega) (by rw [hdiv]; exact hge) (by rw [hdiv]; exact hd)
      (by rw [hblock14, hbs, hd32]) (by rw [hp, hbs, hs32]) (by rw [hblock14]; decide)
      (by rw [hp]; omega) (by rw [sharedDisk_wrong hapart]; decide), sharedDisk_wrong hapart, hdiv, ← ho, hk, hbs]
  exact not_lawful_of_shared hblock12 hblock12 (by decide) (by rw [sharedDisk_single hapart hkn, if_pos rfl]) hset
    hkn hk32 (by omega)

/-! ## The exact range -/

/-- **The law of `set_block` and `get_block`** holds for every call that meets the condition; and for a
logical block it holds on all devices, for all inodes that are trees and all allocators that return unused
blocks, if and only if the block is a direct one.
SRCLINE: kernel/fs/ext2/inode.cpp:99-213 -/
theorem setBlock_lawful_iff (n i : ℕ) (hn : 256 ≤ n) (h32 : i < 2 ^ 32) :
    (∀ g disk ino b, g.blockSize = n * 4 → b < 2 ^ 32 → SetSafe g disk ino i b →
      SetLawful g disk ino i b) ∧
    ((∀ g disk ino b, g.blockSize = n * 4 → b < 2 ^ 32 → FileTree g disk ino → FreshBlocks g disk ino →
      SetLawful g disk ino i b) ↔ i < 12) := by
  refine ⟨fun g disk ino b _ hb hsafe => setBlock_lawful hb hsafe, ?_⟩
  constructor
  · intro hall
    by_contra hno
    have hwrong : ∃ disk ino b, b < 2 ^ 32 ∧ FileTree (fileSuper n) disk ino ∧
        FreshBlocks (fileSuper n) disk ino ∧ ¬ SetLawful (fileSuper n) disk ino i b := by
      by_cases hsingle : i - 12 < n
      · exact ⟨_, _, 1, by decide, single_lost (Nat.le_of_not_lt hno) hsingle⟩
      · by_cases hdouble : (i - 12 - n) / n < n
        · obtain ⟨disk, ino, h⟩ := double_garbage hn h32 (by omega) hdouble
          exact ⟨disk, ino, 10, by decide, h⟩
        · have hrange : n ^ 2 ≤ i - 12 - n :=
            Nat.le_of_not_lt fun hlt => hdouble ((double_iff (by omega)).mpr hlt)
          obtain ⟨disk, ino, h⟩ := triple_shared hn h32 (by omega)
          exact ⟨disk, ino, 10, by decide, h⟩
    obtain ⟨disk, ino, b, hb, htree, hfresh, hwrong⟩ := hwrong
    exact hwrong (hall (fileSuper n) disk ino b rfl hb htree hfresh)
  · intro hdirect g disk ino b _ hb _ _
    exact setBlock_lawful hb (Or.inl hdirect)

/-- A direct block of the directory `a`. -/
theorem setBlock_lawful_direct :
    SetLawful smallSuper smallTree (readInode smallSuper smallTree 12) 5 42 :=
  (setBlock_lawful_iff 256 5 (by decide) (by decide)).1 smallSuper smallTree
    (readInode smallSuper smallTree 12) 42 rfl (by decide) (Or.inl (by decide))

/-- **A singly indirect block is not stored**, though its indirect block is there.
SRCLINE: kernel/fs/ext2/inode.cpp:202-212 -/
theorem setBlock_loses_single :
    FileTree (fileSuper 256) (fun _ => 0) (fileInode [(12, 8)]) ∧
    FreshBlocks (fileSuper 256) (fun _ => 0) (fileInode [(12, 8)]) ∧
    ¬ SetLawful (fileSuper 256) (fun _ => 0) (fileInode [(12, 8)]) 20 1 :=
  single_lost (by decide) (by decide)

end CrepOS.Analysis
