import CrepOS.Interface.Ext2Resize
import CrepOS.Analysis.Ext2Alloc

/-!
# What the allocator reads and writes

`alloc_block` reads and writes bytes of the descriptor table and of the bitmaps only (`MetaByte`): on two disks
that have the same ones (`SameMeta`) it returns the same block and changes the same bytes (`allocBlock_same`), so
words that are written elsewhere can be written before or after it (`allocBlock_setWords`). `AllocStep` collects what a
call does and keeps, and `AllocRun` what calls in a row do.
-/

set_option autoImplicit false

namespace CrepOS.Analysis

open CrepOS.Library CrepOS.Model CrepOS.Interface

/-- The two disks have the same descriptors and bitmaps. -/
def SameMeta (g : Ext2Super) (disk disk' : Memory) : Prop := ∀ a, MetaByte g disk a → disk' a = disk a

section Same

variable {g : Ext2Super} {disk disk' disk'' : Memory} {kind : BitmapKind} {G D r a : ℕ}

/-- INTERNAL: a word of a descriptor. -/
theorem SameMeta.word (h : SameMeta g disk disk') (hG : G < g.bgdCnt) {k n : ℕ} (hk : k + n ≤ rawBgdSize) :
    disk'.word (groupPos g G + k) n = disk.word (groupPos g G + k) n := by
  have hinside := groupPos_inside (g := g) hG
  apply Memory.word_congr
  intro i hi
  exact h _ (Or.inl (by omega))

theorem SameMeta.bitmapPos (h : SameMeta g disk disk') (kind : BitmapKind) (hG : G < g.bgdCnt) :
    kind.bitmapPos g disk' G = kind.bitmapPos g disk G := by
  have hwords := descriptor_words kind kind
  unfold BitmapKind.bitmapPos BitmapKind.bitmapBlock
  rw [h.word hG (by omega)]

theorem SameMeta.freeCount (h : SameMeta g disk disk') (kind : BitmapKind) (hG : G < g.bgdCnt) :
    kind.freeCount g disk' G = kind.freeCount g disk G :=
  h.word hG (descriptor_words kind kind).2

/-- INTERNAL: the metadata are at the same places. -/
theorem SameMeta.metaByte_iff (h : SameMeta g disk disk') : MetaByte g disk' a ↔ MetaByte g disk a := by
  unfold MetaByte
  refine or_congr Iff.rfl (exists_congr fun kind => exists_congr fun G => and_congr_right fun hG => ?_)
  rw [h.bitmapPos kind hG]

theorem SameMeta.symm (h : SameMeta g disk disk') : SameMeta g disk' disk :=
  fun a ha => (h a (h.metaByte_iff.mp ha)).symm

theorem SameMeta.trans (h : SameMeta g disk disk') (h' : SameMeta g disk' disk'') : SameMeta g disk disk'' :=
  fun a ha => (h' a (h.metaByte_iff.mpr ha)).trans (h a ha)

theorem SameMeta.groupBit (h : SameMeta g disk disk') (kind : BitmapKind) (hG : G < g.bgdCnt)
    (hr : r < 8 * g.blockSize) : kind.groupBit g disk' G r = kind.groupBit g disk G r := by
  unfold BitmapKind.groupBit
  rw [h.bitmapPos kind hG]
  apply Memory.bit_congr
  exact h _ (Or.inr ⟨kind, G, hG, by omega, by omega⟩)

theorem SameMeta.allocated (h : SameMeta g disk disk') (hbpg : g.blocksPerGroup ≤ 8 * g.blockSize)
    (hpos : 0 < g.blocksPerGroup) {b : ℕ} : Allocated g disk' b ↔ Allocated g disk b := by
  have hmod := Nat.mod_lt b hpos
  refine and_congr_right fun hG => ?_
  rw [h.groupBit .blocks hG (by omega)]

theorem SameMeta.groupClear (h : SameMeta g disk disk') (kind : BitmapKind) (hG : G < g.bgdCnt) :
    groupClear g disk' kind G = groupClear g disk kind G := by
  apply findClear_congr
  intro j hj
  exact h.groupBit kind hG (by omega)

/-- INTERNAL: the number of bits that are set. -/
theorem SameMeta.countBits (h : SameMeta g disk disk') (kind : BitmapKind) (hG : G < g.bgdCnt)
    (hle : kind.perGroup g ≤ 8 * g.blockSize) :
    disk'.countBits (kind.bitmapPos g disk' G) (kind.perGroup g) =
      disk.countBits (kind.bitmapPos g disk G) (kind.perGroup g) := by
  rw [h.bitmapPos kind hG]
  apply Memory.countBits_congr
  intro j hj
  have hbit := h.groupBit kind hG (show j < 8 * g.blockSize by omega)
  rwa [BitmapKind.groupBit, h.bitmapPos kind hG] at hbit

/-- A disk with the metadata of an image is one. -/
theorem SameMeta.image (h : SameMeta g disk disk') (himage : Ext2Image g disk) : Ext2Image g disk' where
  blockSize := himage.blockSize
  groups := himage.groups
  perGroup_pos := himage.perGroup_pos
  perGroup_le := himage.perGroup_le
  numbers := himage.numbers
  behind kind G hG := by
    rw [h.bitmapPos kind hG]
    exact himage.behind kind G hG
  apart kind G kind' G' hG hG' heq := by
    rw [h.bitmapPos kind hG, h.bitmapPos kind' hG'] at heq
    exact himage.apart kind G kind' G' hG hG' heq
  counted kind G hG := by
    rw [h.freeCount kind hG, h.countBits kind hG (himage.perGroup_le kind)]
    exact himage.counted kind G hG
  padding kind G r hG hle hr := by
    rw [h.groupBit kind hG hr]
    exact himage.padding kind G r hG hle hr

/-- INTERNAL: the bytes that are written when a bit is taken. -/
theorem markUsed_outside_meta (hD : D < g.bgdCnt) (hr : r < 8 * g.blockSize)
    (ha : ¬ MetaByte g disk a) : markUsed g disk kind D r a = disk a := by
  have hwords := descriptor_words kind kind
  have hinside := groupPos_inside (g := g) hD
  apply markUsed_outside
  · rintro rfl
    exact ha (Or.inr ⟨kind, D, hD, by omega, by omega⟩)
  · by_contra hin
    exact ha (Or.inl (by omega))

/-- INTERNAL: the metadata stay where they are. -/
theorem markUsed_metaByte_iff (h : Ext2Image g disk) (hD : D < g.bgdCnt) :
    MetaByte g (markUsed g disk kind D r) a ↔ MetaByte g disk a := by
  unfold MetaByte
  refine or_congr Iff.rfl (exists_congr fun kind' => exists_congr fun G => and_congr_right fun hG => ?_)
  rw [markUsed_bitmapPos h hD hG]

/-- INTERNAL: a bit is taken on two disks with the same metadata. -/
theorem SameMeta.markUsed (h : SameMeta g disk disk') (himage : Ext2Image g disk) (hD : D < g.bgdCnt) :
    SameMeta g (markUsed g disk kind D r) (markUsed g disk' kind D r) := by
  intro a ha
  rw [markUsed_metaByte_iff himage hD] at ha
  unfold Analysis.markUsed
  rw [h.bitmapPos kind hD, h.freeCount kind hD]
  by_cases hcount : groupPos g D + kind.countAt ≤ a ∧ a < groupPos g D + kind.countAt + 2
  · obtain ⟨i, rfl⟩ : ∃ i, a = groupPos g D + kind.countAt + i := ⟨a - (groupPos g D + kind.countAt), by omega⟩
    have hi : i < 2 := by omega
    rw [Memory.setWord, Memory.store_inside hi, Memory.setWord, Memory.store_inside hi]
  · rw [Memory.setWord_outside (by omega), Memory.setWord_outside (by omega)]
    by_cases hbyte : a = kind.bitmapPos g disk D + r / 8
    · rw [hbyte] at ha ⊢
      rw [Memory.setBit, Function.update_self, Memory.setBit, Function.update_self, h _ ha]
    · rw [Memory.setBit_apply_of_ne _ hbyte, Memory.setBit_apply_of_ne _ hbyte, h a ha]

/-- INTERNAL: where the allocation ends on two disks with the same metadata. -/
theorem allocBlock_same (h : SameMeta g disk disk') (himage : Ext2Image g disk) :
    (ext2AllocBlock g disk = (disk, none) ∧ ext2AllocBlock g disk' = (disk', none)) ∨
      ∃ D r, D * g.inodesPerGroup < g.bgdCnt ∧ D < g.bgdCnt ∧ groupClear g disk .blocks D = some r ∧
        ext2AllocBlock g disk = (markUsed g disk .blocks D r, some (numberOf g .blocks (D * g.inodesPerGroup) r)) ∧
        ext2AllocBlock g disk' = (markUsed g disk' .blocks D r, some (numberOf g .blocks (D * g.inodesPerGroup) r)) := by
  have hipg : 0 < g.inodesPerGroup := himage.perGroup_pos .inodes
  have hgroup : ∀ D, D * g.inodesPerGroup < g.bgdCnt → D < g.bgdCnt := fun D hD =>
    Nat.lt_of_le_of_lt (Nat.le_mul_of_pos_right D hipg) hD
  have hsame : ∀ D, D * g.inodesPerGroup < g.bgdCnt → groupClear g disk' .blocks D =
      groupClear g disk .blocks D := fun D hD => h.groupClear .blocks (hgroup D hD)
  cases allocNumber_cases himage .blocks with
  | inl hnone =>
    cases allocNumber_cases (h.image himage) .blocks with
    | inl hnone' => exact Or.inl ⟨hnone.2, hnone'.2⟩
    | inr hsome' =>
      obtain ⟨D, r, hD, _, hclear, _⟩ := hsome'
      rw [hsame D hD, hnone.1 D hD] at hclear
      cases hclear
  | inr hsome =>
    obtain ⟨D, r, hD, hfirst, hclear, halloc⟩ := hsome
    cases allocNumber_cases (h.image himage) .blocks with
    | inl hnone' =>
      have hclear' := hnone'.1 D hD
      rw [hsame D hD, hclear] at hclear'
      cases hclear'
    | inr hsome' =>
      obtain ⟨D', r', hD', hfirst', hclear', halloc'⟩ := hsome'
      have hDD : D' = D := by
        refine Nat.le_antisymm (Nat.le_of_not_lt fun hlt => ?_) (Nat.le_of_not_lt fun hlt => ?_)
        · have hclear'' := hfirst' D hlt
          rw [hsame D hD, hclear] at hclear''
          cases hclear''
        · have hclear'' := hfirst D' hlt
          rw [← hsame D' hD', hclear'] at hclear''
          cases hclear''
      subst hDD
      rw [hsame D' hD, hclear] at hclear'
      obtain rfl : r = r' := Option.some.inj hclear'
      exact Or.inr ⟨D', r, hD, hgroup D' hD, hclear, halloc, halloc'⟩

end Same

/-! ## Words that are written outside of the metadata -/

/-- Words that are written one after the other. -/
def setWords (m : Memory) (ws : List (ℕ × ℕ)) : Memory := ws.foldl (fun m w => m.setWord w.1 4 w.2) m

theorem setWords_append (m : Memory) (ws ws' : List (ℕ × ℕ)) : setWords m (ws ++ ws') = setWords (setWords m ws) ws' :=
  List.foldl_append

theorem setWords_outside {m : Memory} {ws : List (ℕ × ℕ)} {a : ℕ} (h : ∀ w ∈ ws, a < w.1 ∨ w.1 + 4 ≤ a) :
    setWords m ws a = m a := by
  induction ws generalizing m with
  | nil => rfl
  | cons w ws ih =>
    have hw : m.setWord w.1 4 w.2 a = m a := Memory.setWord_outside (h w List.mem_cons_self)
    exact (ih fun w' hw' => h w' (List.mem_cons_of_mem _ hw')).trans hw

/-- INTERNAL: a byte of one of the words does not depend on what was there before. -/
theorem setWords_inside {m m' : Memory} {ws : List (ℕ × ℕ)} {a : ℕ} (h : m a = m' a ∨ ∃ w ∈ ws, w.1 ≤ a ∧ a < w.1 + 4) :
    setWords m ws a = setWords m' ws a := by
  induction ws generalizing m m' with
  | nil => exact h.resolve_right fun hno => by simp at hno
  | cons w ws ih =>
    apply ih
    by_cases hin : w.1 ≤ a ∧ a < w.1 + 4
    · obtain ⟨k, rfl⟩ : ∃ k, a = w.1 + k := ⟨a - w.1, by omega⟩
      left
      dsimp only [Memory.setWord]
      rw [Memory.store_inside (by omega), Memory.store_inside (by omega)]
    · cases h with
      | inl heq =>
        left
        dsimp only
        rw [Memory.setWord_outside (by omega), Memory.setWord_outside (by omega)]
        exact heq
      | inr hmem =>
        obtain ⟨w', hw', hin'⟩ := hmem
        cases List.mem_cons.mp hw' with
        | inl hsame => exact absurd (hsame ▸ hin') hin
        | inr hrest => exact Or.inr ⟨w', hrest, hin'⟩

/-- The words are outside of the metadata. -/
def OutsideMeta (g : Ext2Super) (disk : Memory) (ws : List (ℕ × ℕ)) : Prop :=
  ∀ w ∈ ws, ∀ k < 4, ¬ MetaByte g disk (w.1 + k)

section Overlay

variable {g : Ext2Super} {disk used : Memory} {ws : List (ℕ × ℕ)} {bs : List ℕ} {b n a : ℕ}

theorem OutsideMeta.sameMeta (h : OutsideMeta g disk ws) : SameMeta g disk (setWords disk ws) := by
  intro a ha
  apply setWords_outside
  intro w hw
  by_contra hin
  obtain ⟨k, rfl⟩ : ∃ k, a = w.1 + k := ⟨a - w.1, by omega⟩
  exact h w hw k (by omega) ha

/-- **What an allocation does**: it changes metadata only, takes a bit that was clear, and keeps the others. -/
structure AllocStep (g : Ext2Super) (disk disk' : Memory) (b : ℕ) : Prop where
  image : Ext2Image g disk'
  small : b < 2 ^ 32
  places : ∀ a, MetaByte g disk' a ↔ MetaByte g disk a
  outside : ∀ a, ¬ MetaByte g disk a → disk' a = disk a
  tables : ∀ G < g.bgdCnt, disk'.word (groupPos g G + 8) 4 = disk.word (groupPos g G + 8) 4
  taken : ∃ D < g.bgdCnt, ∃ r < 8 * g.blockSize, BitmapKind.groupBit g disk .blocks D r = false ∧
    BitmapKind.groupBit g disk' .blocks D r = true
  kept : ∀ G < g.bgdCnt, ∀ r < 8 * g.blockSize, BitmapKind.groupBit g disk .blocks G r = true →
    BitmapKind.groupBit g disk' .blocks G r = true

/-- **An allocation and words outside of the metadata** do not see each other. -/
theorem allocBlock_setWords (himage : Ext2Image g disk) (hws : OutsideMeta g disk ws) :
    ext2AllocBlock g (setWords disk ws) = (setWords (ext2AllocBlock g disk).1 ws, (ext2AllocBlock g disk).2) := by
  have hsame := hws.sameMeta
  cases allocBlock_same hsame himage with
  | inl hnone => rw [hnone.1, hnone.2]
  | inr hsome =>
    obtain ⟨D, r, _, hD, hclear, halloc, halloc'⟩ := hsome
    have hlow := (groupClear_some hclear).1
    rw [halloc, halloc']
    refine Prod.ext ?_ rfl
    funext a
    by_cases ha : MetaByte g disk a
    · have hmeta : MetaByte g (markUsed g disk .blocks D r) a := (markUsed_metaByte_iff himage hD).mpr ha
      have houtside : setWords (markUsed g disk .blocks D r) ws a = markUsed g disk .blocks D r a := by
        apply setWords_outside
        intro w hw
        by_contra hin
        obtain ⟨k, rfl⟩ : ∃ k, a = w.1 + k := ⟨a - w.1, by omega⟩
        exact hws w hw k (by omega) ha
      exact (hsame.markUsed himage hD a hmeta).trans houtside.symm
    · have hkept : markUsed g disk .blocks D r a = disk a := markUsed_outside_meta hD (by omega) ha
      have hkept' : markUsed g (setWords disk ws) .blocks D r a = setWords disk ws a :=
        markUsed_outside_meta hD (by omega) fun h => ha (hsame.metaByte_iff.mp h)
      exact hkept'.trans (setWords_inside (Or.inl hkept.symm))

theorem allocBlock_step (himage : Ext2Image g disk) {disk' : Memory} (halloc : ext2AllocBlock g disk = (disk', some b)) :
    AllocStep g disk disk' b := by
  have hrefl : SameMeta g disk disk := fun _ _ => rfl
  cases allocBlock_same hrefl himage with
  | inl hnone =>
    rw [hnone.1] at halloc
    cases halloc
  | inr hsome =>
    obtain ⟨D, r, hgroups, hD, hclear, halloc', _⟩ := hsome
    rw [halloc'] at halloc
    cases halloc
    obtain ⟨hlow, hbit⟩ := groupClear_some hclear
    have hr : r < 8 * g.blockSize := by omega
    have hper := clear_lt_perGroup himage hD hr hbit
    have hnumbers := himage.numbers .blocks
    have hgroup : (D * g.inodesPerGroup + 1) * g.blocksPerGroup ≤ g.bgdCnt * g.blocksPerGroup :=
      Nat.mul_le_mul_right g.blocksPerGroup hgroups
    exact {
      image := markUsed_image himage hD hr hbit
      small := by
        dsimp only [numberOf, BitmapKind.perGroup] at hnumbers hper ⊢
        rw [Nat.succ_mul] at hgroup
        omega
      places := fun a => markUsed_metaByte_iff himage hD
      outside := fun a ha => markUsed_outside_meta hD hr ha
      tables := fun G hG => Memory.word_congr fun k hk => by
        have hbehind := himage.behind .blocks D hD
        have hinside := groupPos_inside (g := g) hG
        have hsize : rawBgdSize = 32 := rfl
        apply markUsed_outside
        · omega
        · cases Nat.lt_trichotomy G D with
          | inl hlt =>
            have hbefore := groupPos_apart (g := g) hlt
            omega
          | inr hge =>
            cases hge with
            | inl heq =>
              subst heq
              change _ < groupPos g G + 12 ∨ _
              omega
            | inr hgt =>
              have hafter := groupPos_apart (g := g) hgt
              have hcount := (descriptor_words .blocks .blocks).2
              omega
      taken := ⟨D, hD, r, hr, hbit, by
        rw [markUsed_groupBit himage hD hr hD hr, decide_eq_true rfl, Bool.true_or]⟩
      kept := fun G hG r' hr' hset => by
        rw [markUsed_groupBit himage hD hr hG hr', hset, Bool.or_true] }

/-! ## Allocations in a row -/

/-- **What allocations in a row do.** -/
structure AllocRun (g : Ext2Super) (disk used : Memory) : Prop where
  image : Ext2Image g used
  places : ∀ a, MetaByte g used a ↔ MetaByte g disk a
  outside : ∀ a, ¬ MetaByte g disk a → used a = disk a
  tables : ∀ G < g.bgdCnt, used.word (groupPos g G + 8) 4 = disk.word (groupPos g G + 8) 4
  kept : ∀ G < g.bgdCnt, ∀ r < 8 * g.blockSize, BitmapKind.groupBit g disk .blocks G r = true →
    BitmapKind.groupBit g used .blocks G r = true

theorem AllocRun.refl (himage : Ext2Image g disk) : AllocRun g disk disk where
  image := himage
  places _ := Iff.rfl
  outside _ _ := rfl
  tables _ _ := rfl
  kept _ _ _ _ hset := hset

theorem AllocRun.step {disk' : Memory} (h : AllocRun g disk used) (hstep : AllocStep g used disk' b) :
    AllocRun g disk disk' where
  image := hstep.image
  places a := (hstep.places a).trans (h.places a)
  outside a ha := (hstep.outside a fun hmeta => ha ((h.places a).mp hmeta)).trans (h.outside a ha)
  tables G hG := (hstep.tables G hG).trans (h.tables G hG)
  kept G hG r hr hset := hstep.kept G hG r hr (h.kept G hG r hr hset)

theorem AllocRun.trans {disk' : Memory} (h : AllocRun g disk used) (h' : AllocRun g used disk') : AllocRun g disk disk' where
  image := h'.image
  places a := (h'.places a).trans (h.places a)
  outside a ha := (h'.outside a fun hmeta => ha ((h.places a).mp hmeta)).trans (h.outside a ha)
  tables G hG := (h'.tables G hG).trans (h.tables G hG)
  kept G hG r hr hset := h'.kept G hG r hr (h.kept G hG r hr hset)

/-- INTERNAL: the first of some allocations. -/
theorem allocBlocks_succ (h : allocBlocks g (n + 1) disk = some (used, bs)) :
    ∃ disk' b bs', ext2AllocBlock g disk = (disk', some b) ∧ allocBlocks g n disk' = some (used, bs') ∧ bs = b :: bs' := by
  obtain ⟨disk', hdisk'⟩ : ∃ d, d = (ext2AllocBlock g disk).1 := ⟨_, rfl⟩
  cases hb : (ext2AllocBlock g disk).2 with
  | none =>
    rw [allocBlocks, show ext2AllocBlock g disk = (disk', none) from Prod.ext hdisk'.symm hb] at h
    cases h
  | some b =>
    have halloc : ext2AllocBlock g disk = (disk', some b) := Prod.ext hdisk'.symm hb
    rw [allocBlocks, halloc] at h
    obtain ⟨⟨used', bs'⟩, hrest, heq⟩ := Option.map_eq_some_iff.mp h
    cases heq
    exact ⟨disk', b, bs', halloc, hrest, rfl⟩

theorem allocBlocks_run (himage : Ext2Image g disk) (h : allocBlocks g n disk = some (used, bs)) :
    AllocRun g disk used ∧ bs.length = n ∧ ∀ b ∈ bs, b < 2 ^ 32 := by
  induction n generalizing disk bs with
  | zero =>
    cases h
    exact ⟨AllocRun.refl himage, rfl, fun b hb => absurd hb List.not_mem_nil⟩
  | succ n ih =>
    obtain ⟨disk', b, bs', halloc, hrest, rfl⟩ := allocBlocks_succ h
    have hstep := allocBlock_step himage halloc
    obtain ⟨hrun, hlength, hsmall⟩ := ih hstep.image hrest
    exact ⟨((AllocRun.refl himage).step hstep).trans hrun, by rw [List.length_cons, hlength],
      List.forall_mem_cons.mpr ⟨hstep.small, hsmall⟩⟩

/-- **A bitmap has changed** if there was an allocation. -/
theorem allocBlocks_taken (himage : Ext2Image g disk) (h : allocBlocks g (n + 1) disk = some (used, bs)) :
    ∃ G < g.bgdCnt, ∃ r < 8 * g.blockSize, BitmapKind.groupBit g disk .blocks G r = false ∧
      BitmapKind.groupBit g used .blocks G r = true := by
  obtain ⟨disk', b, bs', halloc, hrest, rfl⟩ := allocBlocks_succ h
  have hstep := allocBlock_step himage halloc
  obtain ⟨D, hD, r, hr, hclear, hset⟩ := hstep.taken
  exact ⟨D, hD, r, hr, hclear, (allocBlocks_run hstep.image hrest).1.kept D hD r hr hset⟩

end Overlay

end CrepOS.Analysis
