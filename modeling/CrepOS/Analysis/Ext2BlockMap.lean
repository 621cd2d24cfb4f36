import CrepOS.Interface.Ext2BlockMap
import CrepOS.Analysis.Ext2Inode

/-!
# `get_block` and the block map of the format

`get_block` follows the format in the ranges of the direct, singly and doubly indirect blocks. In the range
of the triply indirect blocks it looks for the second entry in the block whose number is the index of the
first: `getBlock_format_iff` says that the format is followed, for every device and inode, exactly outside
that range.
-/

set_option autoImplicit false

namespace CrepOS.Analysis

open CrepOS.Library CrepOS.Model CrepOS.Interface

variable {g : Ext2Super} {disk : Memory} {ino : Inode} {n i : ℕ}

/-! ## The ranges that are right -/

/-- The offset of an entry, if it fits 32 bits. -/
theorem entryOffset_of_lt {k : ℕ} (hk : 4 * k < 2 ^ 32) : Inode.entryOffset k = 4 * k := by
  rw [Inode.entryOffset, Nat.mul_comm, Nat.mod_eq_of_lt hk]

theorem getBlock_direct (hi : i < 12) : ino.getBlock g disk i = ino.blocks i := if_pos hi

/-- The singly indirect blocks. -/
theorem getBlock_single (hn : g.blockSize / 4 = n) (hi : 12 ≤ i) (hlt : i - 12 < n) :
    ino.getBlock g disk i =
      disk.word (ino.blocks 12 * g.blockSize + Inode.entryOffset (i - 12)) 4 := by
  rw [Inode.getBlock, if_neg (by omega), hn]
  dsimp only
  rw [if_neg (by omega)]

/-- The doubly indirect blocks. -/
theorem getBlock_double (hn : g.blockSize / 4 = n) (hi : 12 + n ≤ i) (hlt : (i - 12 - n) / n < n) :
    ino.getBlock g disk i =
      disk.word (disk.word (ino.blocks 13 * g.blockSize + Inode.entryOffset ((i - 12 - n) / n)) 4 *
        g.blockSize + Inode.entryOffset ((i - 12 - n) % n)) 4 := by
  rw [Inode.getBlock, if_neg (by omega), hn]
  dsimp only
  rw [if_pos (by omega), if_neg (by omega)]

/-- The triply indirect blocks. The first index is that of the block that should be read next.
SRCLINE: kernel/fs/ext2/inode.cpp:115-122 -/
theorem getBlock_triple (hn : g.blockSize / 4 = n) (hi : 12 + n ≤ i) (hge : n ≤ (i - 12 - n) / n) :
    ino.getBlock g disk i =
      disk.word (disk.word ((i - 12 - n - n * n) / n * g.blockSize + Inode.entryOffset
        (disk.word (ino.blocks 14 * g.blockSize + Inode.entryOffset ((i - 12 - n - n * n) / n)) 4)) 4 *
          g.blockSize + Inode.entryOffset ((i - 12 - n) % n)) 4 := by
  rw [Inode.getBlock, if_neg (by omega), hn]
  dsimp only
  rw [if_pos (by omega), if_pos (by omega)]

/-- INTERNAL: where the range of the doubly indirect blocks ends. -/
theorem double_iff (hn : 0 < n) : (i - 12 - n) / n < n ↔ i - 12 - n < n ^ 2 := by
  rw [Nat.div_lt_iff_lt_mul hn, pow_two]

/-- **Outside the range of the triply indirect blocks** `get_block` follows the format.
SRCLINE: kernel/fs/ext2/inode.cpp:99-133 -/
theorem getBlock_format (hn : g.blockSize / 4 = n) (hpos : 0 < n) (h : EntriesFit n i) :
    ino.getBlock g disk i = formatBlock g disk ino i := by
  obtain ⟨hrange, hfits⟩ := h
  rw [formatBlock, hn]
  by_cases hdirect : i < 12
  · simp only [getBlock_direct hdirect, blockPath, if_pos hdirect, followEntries]
  · by_cases hsingle : i - 12 < n
    · simp only [blockPath, if_neg hdirect, if_pos hsingle, List.mem_singleton, forall_eq] at hfits
      simp only [getBlock_single hn (by omega) hsingle, blockPath, if_neg hdirect, if_pos hsingle,
        followEntries, entryOffset_of_lt hfits]
    · have hdouble : i - 12 - n < n ^ 2 := by omega
      simp only [blockPath, if_neg hdirect, if_neg hsingle, if_pos hdouble, List.mem_cons,
        List.not_mem_nil, or_false, forall_eq_or_imp, forall_eq] at hfits
      simp only [getBlock_double hn (by omega) ((double_iff hpos).mpr hdouble), blockPath,
        if_neg hdirect, if_neg hsingle, if_pos hdouble, followEntries, entryOffset_of_lt hfits.1,
        entryOffset_of_lt hfits.2]

/-! ## The range that is wrong -/

/-- An inode with the number `b` in `blocks[m]`. -/
def oneBlockInode (m b : ℕ) : Inode := ⟨Memory.setWord (fun _ => 0) (40 + 4 * m) 4 b, 12⟩

theorem oneBlockInode_blocks {m b : ℕ} (hb : b < 2 ^ 32) : (oneBlockInode m b).blocks m = b :=
  Memory.word_setWord_of_lt (by omega)

/-- A device whose block `b` is full of entries for itself. -/
def selfBlock (g : Ext2Super) (b : ℕ) : Memory :=
  fun a => if a / g.blockSize = b ∧ a % 4 = 0 then BitVec.ofNat 8 b else 0

theorem selfBlock_word {b p : ℕ} (hb : b < 256) (hp : p % 4 = 0) :
    (selfBlock g b).word p 4 = if p / g.blockSize = b then b else 0 := by
  have hrest : ∀ k, k < 4 → 0 < k → selfBlock g b (p + k) = 0 := by
    intro k hk hpos
    apply if_neg
    omega
  have hfirst : (selfBlock g b p).toNat = if p / g.blockSize = b then b else 0 := by
    unfold selfBlock
    by_cases hin : p / g.blockSize = b
    · rw [if_pos ⟨hin, hp⟩, if_pos hin, BitVec.toNat_ofNat, Nat.mod_eq_of_lt hb]
    · rw [if_neg fun h => hin h.1, if_neg hin]
      rfl
  simp only [Memory.word, hfirst, Nat.add_assoc, hrest 1, hrest 2, hrest 3, Nat.reduceAdd,
    Nat.reduceLT]
  simp

/-- INTERNAL: an entry of the block is the block itself, an entry of another block is zero. -/
theorem selfBlock_entry {b c o : ℕ} (hbs : g.blockSize % 4 = 0) (hb : b < 256) (ho : o < g.blockSize)
    (ho4 : o % 4 = 0) : (selfBlock g b).word (c * g.blockSize + o) 4 = if c = b then b else 0 := by
  have hdiv : (c * g.blockSize + o) / g.blockSize = c := by
    rw [Nat.mul_comm, Nat.mul_add_div (by omega), Nat.div_eq_of_lt ho, Nat.add_zero]
  have hmod : (c * g.blockSize + o) % 4 = 0 := by
    rw [Nat.add_mod, Nat.mul_mod, hbs, Nat.mul_zero, ho4]
  rw [selfBlock_word hb hmod, hdiv]

/-- INTERNAL: a triply indirect block of which the format knows, and `get_block` does not. -/
theorem triple_wrong (hbs : g.blockSize = n * 4) (hn : 256 ≤ n) (hi : 12 + n + n ^ 2 ≤ i)
    (hlt : i < fileCapacity n) :
    ∃ disk ino, Inode.getBlock g disk ino i ≠ formatBlock g disk ino i := by
  have hdiv : g.blockSize / 4 = n := by rw [hbs, Nat.mul_div_cancel _ (by decide)]
  have hsq : n ^ 2 = n * n := pow_two n
  obtain ⟨j, hj⟩ : ∃ j, i = 12 + n + n ^ 2 + j := ⟨i - (12 + n + n ^ 2), by omega⟩
  have hj3 : j < n ^ 3 := by
    rw [fileCapacity] at hlt
    omega
  have hq : j / n ^ 2 < n := by
    rw [Nat.div_lt_iff_lt_mul (Nat.pow_pos (by omega)), ← pow_succ']
    exact hj3
  have hpath : blockPath n i = (14, [j / n ^ 2, j / n % n, j % n]) := by
    rw [blockPath, if_neg (by omega), if_neg (by omega), if_neg (by omega)]
    have hsub : i - 12 - n - n ^ 2 = j := by omega
    simp only [hsub]
  -- the block `b` is not the one whose number is the first index of the source
  obtain ⟨b, hb0, hb2, hbd⟩ : ∃ b, 0 < b ∧ b ≤ 2 ∧ j / n ≠ b := by
    by_cases hone : j / n = 1
    · exact ⟨2, by decide, by decide, by omega⟩
    · exact ⟨1, by decide, by decide, hone⟩
  have hentry : ∀ c o, o < g.blockSize → o % 4 = 0 →
      (selfBlock g b).word (c * g.blockSize + o) 4 = if c = b then b else 0 := fun c o ho ho4 =>
    selfBlock_entry (by omega) (by omega) ho ho4
  have hblocks : (oneBlockInode 14 b).blocks 14 = b := oneBlockInode_blocks (by omega)
  have hformat : formatBlock g (selfBlock g b) (oneBlockInode 14 b) i = b := by
    have hr : j / n % n < n := Nat.mod_lt _ (by omega)
    have ho : j % n < n := Nat.mod_lt _ (by omega)
    have hstep : ∀ k < n, (selfBlock g b).word (b * g.blockSize + 4 * k) 4 = b := by
      intro k hk
      rw [hentry b (4 * k) (by omega) (by omega), if_pos rfl]
    rw [formatBlock, hdiv, hpath]
    simp only [followEntries, hblocks, hstep _ hq, hstep _ hr, hstep _ ho]
  have hcode : (oneBlockInode 14 b).getBlock g (selfBlock g b) i = 0 := by
    have hge : n ≤ (i - 12 - n) / n := by
      by_contra hno
      have hsmall := (double_iff (by omega)).mp (Nat.lt_of_not_le hno)
      omega
    have hindex : i - 12 - n - n * n = j := by omega
    rw [getBlock_triple hdiv (by omega) hge, hindex, hblocks]
    -- the first entry is `b` or zero
    have hfirst : (selfBlock g b).word (b * g.blockSize + Inode.entryOffset (j / n)) 4 ≤ 2 := by
      have hmod : (b * g.blockSize + Inode.entryOffset (j / n)) % 4 = 0 := by
        have hmul : b * g.blockSize = b * n * 4 := by rw [hbs, Nat.mul_assoc]
        rw [hmul, Inode.entryOffset]
        omega
      rw [selfBlock_word (by omega) hmod]
      split
      · exact hb2
      · exact Nat.zero_le 2
    generalize (selfBlock g b).word (b * g.blockSize + Inode.entryOffset (j / n)) 4 = s at hfirst
    have hoff : Inode.entryOffset s = 4 * s := entryOffset_of_lt (by omega)
    have ho : (i - 12 - n) % n < n := Nat.mod_lt _ (by omega)
    rw [hoff, hentry (j / n) (4 * s) (by omega) (by omega), if_neg hbd,
      hentry 0 (Inode.entryOffset ((i - 12 - n) % n)) (by rw [Inode.entryOffset]; omega)
        (by rw [Inode.entryOffset]; omega), if_neg (by omega)]
  refine ⟨selfBlock g b, oneBlockInode 14 b, ?_⟩
  rw [hformat, hcode]
  omega

/-- INTERNAL: an entry whose offset does not fit 32 bits. -/
theorem wide_wrong (hbs : g.blockSize = n * 4) (hn : 256 ≤ n) (h32 : i < 2 ^ 32)
    (hi : i < 12 + n + n ^ 2) (hwide : ¬ ∀ k ∈ (blockPath n i).2, 4 * k < 2 ^ 32) :
    ∃ disk ino, Inode.getBlock g disk ino i ≠ formatBlock g disk ino i := by
  have hdiv : g.blockSize / 4 = n := by rw [hbs, Nat.mul_div_cancel _ (by decide)]
  have hoff : ∀ k, Inode.entryOffset k % 4 = 0 ∧ Inode.entryOffset k < 2 ^ 32 := by
    intro k
    rw [Inode.entryOffset]
    omega
  by_cases hdirect : i < 12
  · simp [blockPath, if_pos hdirect] at hwide
  · by_cases hsingle : i - 12 < n
    · simp only [blockPath, if_neg hdirect, if_pos hsingle, List.mem_singleton, forall_eq] at hwide
      refine ⟨Memory.ofWords [(1 * g.blockSize + 4 * (i - 12), 1)], oneBlockInode 12 1, ?_⟩
      have hword : ∀ x, x % 4 = 0 →
          (Memory.ofWords [(1 * g.blockSize + 4 * (i - 12), 1)]).word x 4 =
            if x = 1 * g.blockSize + 4 * (i - 12) then 1 else 0 := fun x hx =>
        Memory.word_ofWords (by simp; omega) hx
      have hsmall := hoff (i - 12)
      rw [getBlock_single hdiv (by omega) hsingle, formatBlock, hdiv, blockPath, if_neg hdirect,
        if_pos hsingle]
      simp only [followEntries, oneBlockInode_blocks (show 1 < 2 ^ 32 by decide)]
      rw [hword _ (by omega), hword _ (by omega), if_neg (by omega), if_pos rfl]
      decide
    · have hdouble : i - 12 - n < n ^ 2 := by omega
      simp only [blockPath, if_neg hdirect, if_neg hsingle, if_pos hdouble, List.mem_cons,
        List.not_mem_nil, or_false, forall_eq_or_imp, forall_eq] at hwide
      simp only [getBlock_double hdiv (by omega) ((double_iff (by omega)).mpr hdouble), formatBlock, hdiv,
        blockPath, if_neg hdirect, if_neg hsingle, if_pos hdouble]
      -- the first index is small, so that it is the second one
      have hmul : (i - 12 - n) / n * n ≤ i - 12 - n := Nat.div_mul_le_self _ n
      have hmod : (i - 12 - n) % n < n := Nat.mod_lt _ (by omega)
      generalize (i - 12 - n) / n = p at hwide hmul
      generalize (i - 12 - n) % n = q at hwide hmod
      have hp : 4 * p < 2 ^ 32 := by
        have hle : p * 256 ≤ p * n := Nat.mul_le_mul_left p hn
        omega
      have hq : 2 ^ 32 ≤ 4 * q := by
        by_contra hno
        exact hwide ⟨hp, by omega⟩
      have hp4 : p < 4 := by
        have hle : p * (2 ^ 30) ≤ p * n := Nat.mul_le_mul_left p (by omega)
        omega
      refine ⟨Memory.ofWords [(1 * g.blockSize + 4 * p, 1), (1 * g.blockSize + 4 * q, 2)],
        oneBlockInode 13 1, ?_⟩
      have hword : ∀ x, x % 4 = 0 →
          (Memory.ofWords [(1 * g.blockSize + 4 * p, 1), (1 * g.blockSize + 4 * q, 2)]).word x 4 =
            if x = 1 * g.blockSize + 4 * p then 1 else
              if x = 1 * g.blockSize + 4 * q then 2 else 0 := fun x hx =>
        Memory.word_ofWords (by simp; omega) hx
      have hsmall := hoff q
      simp only [followEntries, oneBlockInode_blocks (show 1 < 2 ^ 32 by decide), entryOffset_of_lt hp]
      rw [hword (1 * g.blockSize + 4 * p) (by omega), if_pos rfl, hword _ (by omega),
        hword _ (by omega), if_neg (show 1 * g.blockSize + 4 * q ≠ _ by omega), if_pos rfl,
        if_neg (show ¬ 1 * g.blockSize + Inode.entryOffset q = 1 * g.blockSize + 4 * q by omega)]
      split
      · decide
      · decide

/-- **When `get_block` follows the format**: for every device and inode, outside the range of the triply
indirect blocks, as long as the offsets of the entries fit 32 bits.
SRCLINE: kernel/fs/ext2/inode.cpp:99-133 -/
theorem getBlock_format_iff (g : Ext2Super) (n i : ℕ) (hbs : g.blockSize = n * 4) (hn : 256 ≤ n)
    (hi : i < fileCapacity n) (h32 : i < 2 ^ 32) :
    (∀ disk ino, Inode.getBlock g disk ino i = formatBlock g disk ino i) ↔ EntriesFit n i := by
  constructor
  · intro hall
    by_contra hno
    have hwrong : ∃ disk ino, Inode.getBlock g disk ino i ≠ formatBlock g disk ino i := by
      by_cases hrange : i < 12 + n + n ^ 2
      · exact wide_wrong hbs hn h32 hrange fun hfits => hno ⟨hrange, hfits⟩
      · exact triple_wrong hbs hn (Nat.le_of_not_lt hrange) hi
    obtain ⟨disk, ino, hne⟩ := hwrong
    exact hne (hall disk ino)
  · intro hfits disk ino
    exact getBlock_format (by rw [hbs, Nat.mul_div_cancel _ (by decide)]) (by omega) hfits

/-- The last doubly indirect block of a file with blocks of 1024 bytes. -/
theorem getBlock_format_last :
    EntriesFit 256 65803 ∧ ∀ disk ino, Inode.getBlock ⟨512, 1024, 8192, 32, 128, 1⟩ disk ino 65803 =
      formatBlock ⟨512, 1024, 8192, 32, 128, 1⟩ disk ino 65803 := by
  have hfits : EntriesFit 256 65803 := ⟨by decide, by decide⟩
  exact ⟨hfits, (getBlock_format_iff ⟨512, 1024, 8192, 32, 128, 1⟩ 256 65803 rfl (by decide) (by decide)
    (by decide)).mpr hfits⟩

/-- **The first triply indirect block is not found**: block `2` is full of entries for itself, and is
`blocks[14]`.
SRCLINE: kernel/fs/ext2/inode.cpp:115-122 -/
theorem getBlock_misses_triple :
    formatBlock ⟨512, 1024, 8192, 32, 128, 1⟩ (selfBlock ⟨512, 1024, 8192, 32, 128, 1⟩ 2)
      (oneBlockInode 14 2) 65804 = 2 ∧
    Inode.getBlock ⟨512, 1024, 8192, 32, 128, 1⟩ (selfBlock ⟨512, 1024, 8192, 32, 128, 1⟩ 2)
      (oneBlockInode 14 2) 65804 = 0 := by
  constructor
  · decide +kernel
  · decide +kernel

end CrepOS.Analysis
