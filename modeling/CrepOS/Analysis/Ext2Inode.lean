import CrepOS.Model.Ext2
import Mathlib

/-!
# Reading and writing the blocks of an inode

The loops of `inode::read` and `inode::write` cut the bytes of the call into the pieces that lie in one
block. `pieces_foldl` is the induction over them; from it, a read takes each byte from its place on the
disk (`read_apply`), and a write puts each byte to its place and leaves the other bytes, as long as the
places are distinct and do not depend on what is written (`writeData_apply`). `read_splits` says what a
read does as a whole: it ends, and each byte of the buffer is written once.
-/

set_option autoImplicit false

namespace CrepOS.Analysis

open CrepOS.Library CrepOS.Model

variable {g : Ext2Super} {disk : Memory} {ino : Inode} {off cnt : ℕ}

/-- Bytes of one block are next to each other on the disk. -/
theorem diskPos_add {x k : ℕ} (h : x % g.blockSize + k < g.blockSize) :
    ino.diskPos g disk (x + k) = ino.diskPos g disk x + k := by
  have hbs : 0 < g.blockSize := by omega
  have hdiv : (x + k) / g.blockSize = x / g.blockSize := by
    rw [Nat.add_div hbs, Nat.div_eq_of_lt (show k < g.blockSize by omega),
      if_neg (by rw [Nat.mod_eq_of_lt (show k < g.blockSize by omega)]; omega)]
    rfl
  have hmod : (x + k) % g.blockSize = x % g.blockSize + k := by
    rw [Nat.add_mod, Nat.mod_eq_of_lt (show k < g.blockSize by omega), Nat.mod_eq_of_lt h]
  rw [Inode.diskPos, Inode.diskPos, hdiv, hmod, Nat.add_assoc]

/-- **The pieces of a call**, in order: an invariant that holds for the first `headway` bytes and that a
piece inside one block carries on to its end holds for all bytes. -/
theorem pieces_foldl {S : Type} (off : ℕ) (f : S → ℕ × ℕ × ℕ → S) (I : ℕ → S → Prop) (hbs : 0 < g.blockSize)
    (hstep : ∀ s headway size, I headway s → headway + size ≤ cnt →
      (off + headway) % g.blockSize + size ≤ g.blockSize →
      I (headway + size) (f s (off + headway, headway, size)))
    {fuel headway : ℕ} {s : S} (hfuel : cnt ≤ headway + fuel) (hle : headway ≤ cnt) (h : I headway s) :
    I cnt ((Inode.pieces g off cnt fuel headway).foldl f s) := by
  induction fuel generalizing headway s with
  | zero =>
    obtain rfl : headway = cnt := by omega
    exact h
  | succ fuel ih =>
    rw [Inode.pieces]
    by_cases hlt : headway < cnt
    · rw [if_pos hlt, List.foldl_cons]
      have hmod : (off + headway) % g.blockSize < g.blockSize := Nat.mod_lt _ hbs
      split
      · exact ih (by omega) (by omega) (hstep s headway _ h (by omega) (by omega))
      · exact ih (by omega) (by omega) (hstep s headway _ h (by omega) (by omega))
    · rw [if_neg hlt]
      obtain rfl : headway = cnt := by omega
      exact h

/-- **`inode::read`** takes the bytes from their places on the disk.
SRCLINE: kernel/fs/ext2/inode.cpp:30-48 -/
theorem read_apply (hbs : 0 < g.blockSize) (buf : Memory) (a : ℕ) :
    ino.read g disk off cnt buf a = if a < cnt then disk (ino.diskPos g disk (off + a)) else buf a := by
  have hall : ∀ a, (a < cnt → ino.read g disk off cnt buf a = disk (ino.diskPos g disk (off + a))) ∧
      (¬ a < cnt → ino.read g disk off cnt buf a = buf a) := by
    apply pieces_foldl off _ (fun n (m : Memory) =>
      ∀ a, (a < n → m a = disk (ino.diskPos g disk (off + a))) ∧ (¬ a < n → m a = buf a)) hbs
    · intro s headway size h _ hinside a
      dsimp only
      by_cases hin : headway ≤ a ∧ a < headway + size
      · obtain ⟨k, rfl⟩ : ∃ k, a = headway + k := ⟨a - headway, by omega⟩
        have hk : k < size := by omega
        refine ⟨fun _ => ?_, fun hno => absurd hin.2 hno⟩
        have hplace : ino.diskPos g disk (off + (headway + k)) = ino.diskPos g disk (off + headway) + k := by
          rw [← Nat.add_assoc]
          exact diskPos_add (by omega)
        rw [Memory.store_inside hk, Memory.load_of_lt hk, hplace]
      · rw [Memory.store_outside (by omega)]
        refine ⟨fun ha => (h a).1 (by omega), fun ha => (h a).2 (by omega)⟩
    · omega
    · omega
    · intro a
      exact ⟨fun ha => absurd ha (Nat.not_lt_zero a), fun _ => rfl⟩
  split
  · exact (hall a).1 ‹_›
  · exact (hall a).2 ‹_›

/-! ## How often a byte of the buffer is written -/

/-- The piece has the byte `k` of the buffer. -/
def pieceHas (k : ℕ) (x : ℕ × ℕ × ℕ) : Bool := decide (x.2.1 ≤ k ∧ k < x.2.1 + x.2.2)

/-- INTERNAL: the piece at `headway` has at least one byte, lies in its block and in the call. -/
theorem piece_size (off : ℕ) (hbs : 0 < g.blockSize) {headway : ℕ} (hlt : headway < cnt) :
    let offset := (off + headway) % g.blockSize
    let size := if cnt - headway > g.blockSize - offset then g.blockSize - offset else cnt - headway
    0 < size ∧ headway + size ≤ cnt := by
  have hmod : (off + headway) % g.blockSize < g.blockSize := Nat.mod_lt _ hbs
  dsimp only
  split
  · omega
  · omega

/-- INTERNAL: the loop needs at most one round for each byte that is left, and ends at `cnt`. -/
theorem pieces_end (off : ℕ) (hbs : 0 < g.blockSize) {fuel fuel' headway : ℕ} (hfuel : cnt ≤ headway + fuel)
    (hfuel' : cnt ≤ headway + fuel') (hle : headway ≤ cnt) :
    Inode.pieces g off cnt fuel headway = Inode.pieces g off cnt fuel' headway ∧
      headway + ((Inode.pieces g off cnt fuel headway).map fun x => x.2.2).sum = cnt := by
  induction fuel generalizing fuel' headway with
  | zero =>
    obtain rfl : headway = cnt := by omega
    cases fuel' with
    | zero => exact ⟨rfl, rfl⟩
    | succ fuel' => simp [Inode.pieces]
  | succ fuel ih =>
    by_cases hlt : headway < cnt
    · cases fuel' with
      | zero => omega
      | succ fuel' =>
        obtain ⟨hpos, hinside⟩ := piece_size off hbs hlt
        simp only [Inode.pieces, if_pos hlt, List.map_cons, List.sum_cons]
        generalize (if cnt - headway > g.blockSize - (off + headway) % g.blockSize then
          g.blockSize - (off + headway) % g.blockSize else cnt - headway) = size at hpos hinside ⊢
        have hrest : Inode.pieces g off cnt fuel (headway + size) =
            Inode.pieces g off cnt fuel' (headway + size) ∧ _ := ih (by omega) (by omega) (by omega)
        rw [hrest.1]
        refine ⟨rfl, ?_⟩
        rw [← hrest.1, ← Nat.add_assoc]
        exact hrest.2
    · obtain rfl : headway = cnt := by omega
      cases fuel' with
      | zero => simp [Inode.pieces]
      | succ fuel' => simp [Inode.pieces]

/-- INTERNAL: the pieces from `headway` on have each byte from there on once. -/
theorem pieces_count (hbs : 0 < g.blockSize) {fuel headway : ℕ} (hfuel : cnt ≤ headway + fuel) (k : ℕ) :
    (Inode.pieces g off cnt fuel headway).countP (pieceHas k) =
      if headway ≤ k ∧ k < cnt then 1 else 0 := by
  induction fuel generalizing headway with
  | zero =>
    rw [if_neg (by omega)]
    rfl
  | succ fuel ih =>
    by_cases hlt : headway < cnt
    · obtain ⟨hpos, hinside⟩ := piece_size off hbs hlt
      simp only [Inode.pieces, if_pos hlt, List.countP_cons]
      generalize (if cnt - headway > g.blockSize - (off + headway) % g.blockSize then
        g.blockSize - (off + headway) % g.blockSize else cnt - headway) = size at hpos hinside ⊢
      rw [ih (by omega)]
      by_cases hin : headway ≤ k ∧ k < headway + size
      · have hhas : pieceHas k (off + headway, headway, size) = true := decide_eq_true hin
        rw [if_neg (by omega), hhas, if_pos rfl, if_pos (by omega)]
      · have hnot : pieceHas k (off + headway, headway, size) = false := decide_eq_false hin
        have hsame : (headway + size ≤ k ∧ k < cnt) ↔ (headway ≤ k ∧ k < cnt) := by omega
        simp only [hnot, Bool.false_eq_true, if_false, Nat.add_zero, hsame]
    · rw [Inode.pieces, if_neg hlt, if_neg (by omega)]
      rfl

/-- **A read of a file**: the loop ends, at `headway = cnt`; each byte of the buffer is written once and
comes from its place in its block; the bytes behind the buffer are not written.
SRCLINE: kernel/fs/ext2/inode.cpp:30-48 -/
theorem read_splits (g : Ext2Super) (disk : Memory) (ino : Inode) (off cnt : ℕ) (buf : Memory)
    (hbs : 0 < g.blockSize) (hblocks : off + cnt ≤ 2 ^ 32 * g.blockSize) :
    (∀ fuel, cnt ≤ fuel → Inode.pieces g off cnt fuel 0 = Inode.pieces g off cnt cnt 0) ∧
    ((Inode.pieces g off cnt cnt 0).map fun x => x.2.2).sum = cnt ∧
    (∀ k < cnt, (Inode.pieces g off cnt cnt 0).countP (pieceHas k) = 1 ∧
      ino.read g disk off cnt buf k =
        disk (ino.getBlock g disk ((off + k) / g.blockSize) * g.blockSize + (off + k) % g.blockSize)) ∧
    ∀ k, cnt ≤ k → (Inode.pieces g off cnt cnt 0).countP (pieceHas k) = 0 ∧
      ino.read g disk off cnt buf k = buf k := by
  have hall : cnt ≤ 0 + cnt := Nat.le_of_eq (Nat.zero_add cnt).symm
  refine ⟨fun fuel hfuel => ?_, ?_, fun k hk => ⟨?_, ?_⟩, fun k hk => ⟨?_, ?_⟩⟩
  · exact (pieces_end off hbs (by omega) hall (Nat.zero_le cnt)).1
  · have hend := (pieces_end off hbs hall hall (Nat.zero_le cnt)).2
    rwa [Nat.zero_add] at hend
  · rw [pieces_count hbs hall, if_pos ⟨Nat.zero_le k, hk⟩]
  · -- the number of the block fits a `uint32_t`
    have hblock : (off + k) / g.blockSize < 2 ^ 32 := by
      rw [Nat.div_lt_iff_lt_mul hbs]
      omega
    rw [read_apply hbs, if_pos hk, Inode.diskPos, Nat.mod_eq_of_lt hblock]
  · rw [pieces_count hbs hall, if_neg (by omega)]
  · rw [read_apply hbs, if_neg (Nat.not_lt_of_le hk)]

/-- A read of 100 bytes across the end of a block of 1024 bytes. -/
theorem read_splits_boundary :
    let g : Ext2Super := ⟨512, 1024, 8192, 32, 128, 1⟩
    let ino : Inode := ⟨Memory.setWord (fun _ => 0) 40 8 0x700000006, 12⟩
    let disk : Memory := fun a => BitVec.ofNat 8 a
    Inode.pieces g 1000 100 100 0 = [(1000, 0, 24), (1024, 24, 76)] ∧
      ∀ k < 100, (Inode.pieces g 1000 100 100 0).countP (pieceHas k) = 1 ∧
        ino.read g disk 1000 100 (fun _ => 0) k =
          disk (ino.getBlock g disk ((1000 + k) / 1024) * 1024 + (1000 + k) % 1024) := by
  refine ⟨by decide, ?_⟩
  exact (read_splits ⟨512, 1024, 8192, 32, 128, 1⟩ (fun a => BitVec.ofNat 8 a)
    ⟨Memory.setWord (fun _ => 0) 40 8 0x700000006, 12⟩ 1000 100 (fun _ => 0) (by decide)
    (by decide)).2.2.1

/-- The loop of `inode::write`. -/
def writeData (g : Ext2Super) (disk : Memory) (ino : Inode) (off cnt : ℕ) (buf : Memory) : Memory :=
  (Inode.pieces g off cnt cnt 0).foldl (fun disk x =>
    disk.store (ino.diskPos g disk x.1) x.2.2 (buf.load x.2.1 x.2.2)) disk

/-- **The loop of `inode::write`** puts the bytes to their places, if these are distinct and stay what
they are while bytes are written there.
SRCLINE: kernel/fs/ext2/inode.cpp:55-69 -/
theorem writeData_apply (hbs : 0 < g.blockSize) (pos : ℕ → ℕ)
    (hpos : ∀ disk' : Memory, (∀ y, (∀ a < cnt, y ≠ pos a) → disk' y = disk y) →
      ∀ a < cnt, ino.diskPos g disk' (off + a) = pos a)
    (hinj : ∀ a < cnt, ∀ b < cnt, pos a = pos b → a = b) (buf : Memory) :
    (∀ a < cnt, writeData g disk ino off cnt buf (pos a) = buf a) ∧
      ∀ y, (∀ a < cnt, y ≠ pos a) → writeData g disk ino off cnt buf y = disk y := by
  apply pieces_foldl off _ (fun n (m : Memory) =>
    (∀ a < n, m (pos a) = buf a) ∧ ∀ y, (∀ a < n, y ≠ pos a) → m y = disk y) hbs
  · intro s headway size h hcnt hinside
    dsimp only
    have hplace : ∀ a < cnt, ino.diskPos g s (off + a) = pos a := by
      apply hpos s
      intro y hy
      exact h.2 y fun a ha => hy a (by omega)
    have hrow : ∀ k < size, ino.diskPos g s (off + headway) + k = pos (headway + k) := by
      intro k hk
      have hnext : ino.diskPos g s (off + headway + k) = ino.diskPos g s (off + headway) + k :=
        diskPos_add (by omega)
      rw [← hplace (headway + k) (by omega), ← Nat.add_assoc, hnext]
    constructor
    · intro a ha
      by_cases hin : headway ≤ a
      · obtain ⟨k, rfl⟩ : ∃ k, a = headway + k := ⟨a - headway, by omega⟩
        have hk : k < size := by omega
        rw [← hrow k hk, Memory.store_inside hk, Memory.load_of_lt hk]
      · rw [Memory.store_outside]
        · exact h.1 a (by omega)
        · by_contra hno
          obtain ⟨k, hk, heq⟩ : ∃ k < size, pos a = ino.diskPos g s (off + headway) + k :=
            ⟨pos a - ino.diskPos g s (off + headway), by omega, by omega⟩
          rw [hrow k hk] at heq
          have hsame : a = headway + k := hinj a (by omega) (headway + k) (by omega) heq
          omega
    · intro y hy
      rw [Memory.store_outside]
      · exact h.2 y fun a ha => hy a (by omega)
      · by_contra hno
        obtain ⟨k, hk, heq⟩ : ∃ k < size, y = ino.diskPos g s (off + headway) + k :=
          ⟨y - ino.diskPos g s (off + headway), by omega, by omega⟩
        rw [hrow k hk] at heq
        exact hy (headway + k) (by omega) heq
  · omega
  · omega
  · exact ⟨fun a ha => absurd ha (Nat.not_lt_zero a), fun _ _ => rfl⟩

/-- Writing back what was read changes nothing. -/
theorem writeBack_readInode (index : ℕ) : (readInode g disk index).writeBack g disk = disk :=
  Memory.store_load_self

end CrepOS.Analysis
