import CrepOS.Analysis.DirSearch
import CrepOS.Interface.DirInsertion

/-!
# Inserting into a directory

The walk ends without a write if no entry is longer than its name needs. Else it puts the new entry behind the first
such entry, with a length that goes up to the end of the first block, and clears the eight bytes behind it. These are
outside the buffer, or the entry that begins there now has the length zero: no sequence of entries is left that fills
the directory. In a directory of nearly 4 GiB the position may wrap, and then the walk does not end. So the insertion
is right if and only if there is nothing to do.
-/

set_option autoImplicit false

namespace CrepOS.Analysis

open CrepOS.Library CrepOS.Model CrepOS.Interface

variable {m m' : Memory} {size i j q bs newInode type : ℕ} {name : LibString} {es before behind : List RawDir} {e : RawDir}
  {b : InsertBuffer}

/-! ## Following the lengths -/

/-- From `i` on, the lengths of the entries lead to `j`. -/
inductive LeadsTo (m : Memory) (j : ℕ) : ℕ → Prop
  | here : LeadsTo m j j
  | next {i : ℕ} (hlong : 8 ≤ m.word (i + 4) 2) (hrest : LeadsTo m j (i + m.word (i + 4) 2)) : LeadsTo m j i

theorem leadsTo_le (h : LeadsTo m j i) : i ≤ j := by
  induction h with
  | here => exact Nat.le_refl j
  | next hlong _ ih => omega

/-- INTERNAL: only bytes before the end matter. -/
theorem leadsTo_congr (h : LeadsTo m j i) (hsame : ∀ a < j, m' a = m a) : LeadsTo m' j i := by
  induction h with
  | here => exact LeadsTo.here
  | @next i hlong hrest ih =>
    have hle := leadsTo_le hrest
    have hword : m'.word (i + 4) 2 = m.word (i + 4) 2 := by
      apply Memory.word_congr
      intro k hk
      exact hsame _ (by omega)
    rw [← hword] at hlong ih
    exact LeadsTo.next hlong ih

/-- INTERNAL: one entry more. -/
theorem leadsTo_snoc (h : LeadsTo m j i) (hlong : 8 ≤ m.word (j + 4) 2) : LeadsTo m (j + m.word (j + 4) 2) i := by
  induction h with
  | here => exact LeadsTo.next hlong LeadsTo.here
  | next hlong' _ ih => exact LeadsTo.next hlong' ih

/-- INTERNAL: in a row of entries the lengths lead only to entries that are long enough. -/
theorem leadsTo_long (hentries : EntriesAt m size i es) (h : LeadsTo m q i) (hq : q < size) :
    8 ≤ m.word (q + 4) 2 := by
  induction es generalizing i with
  | nil =>
    have hle := leadsTo_le h
    have hend : i = size := hentries
    omega
  | cons e es ih =>
    obtain ⟨hentry, hlong, _, hrest⟩ := hentries
    have hlength : m.word (i + 4) 2 = e.entrySize := by
      rw [← hentry]
      rfl
    have hfits := name_fits e.nameLength
    cases h with
    | here =>
      rw [hlength]
      omega
    | next _ hnext =>
      rw [hlength] at hnext
      exact ih hrest hnext

/-- INTERNAL: the lengths lead to each entry of a row. -/
theorem leadsTo_entry (hentries : EntriesAt m size i (before ++ e :: behind)) :
    ∃ p, LeadsTo m p i ∧ EntriesAt m size p (e :: behind) ∧ p = i + (before.map RawDir.entrySize).sum := by
  induction before generalizing i with
  | nil => exact ⟨i, LeadsTo.here, hentries, rfl⟩
  | cons e' before ih =>
    obtain ⟨hentry, hlong, _, hrest⟩ := hentries
    obtain ⟨p, hp, hhere, hsum⟩ := ih hrest
    have hlength : m.word (i + 4) 2 = e'.entrySize := by
      rw [← hentry]
      rfl
    have hfits := name_fits e'.nameLength
    refine ⟨p, LeadsTo.next (by omega) ?_, hhere, ?_⟩
    · rw [hlength]
      exact hp
    · rw [hsum, List.map_cons, List.sum_cons]
      omega

/-- The lengths lead to an entry that is too short. -/
def Broken (m : Memory) (size : ℕ) : Prop := ∃ q < size, LeadsTo m q 0 ∧ m.word (q + 4) 2 < 8

/-- **Broken bytes are no directory.** -/
theorem broken_not_directory {blocks : List (List RawDir)} (h : Broken m size) (hsize : size = blocks.length * bs) :
    ¬ DirectoryBytes bs m blocks := by
  intro hdir
  obtain ⟨q, hq, hleads, hshort⟩ := h
  have hentries := @entriesAt_flatten m blocks bs 0 size (by rw [Nat.zero_add]; exact hsize) fun j es hj => by
    rw [Nat.zero_add]
    exact hdir.fills j es hj
  rw [Nat.zero_mul] at hentries
  have hlong := leadsTo_long hentries hleads hq
  omega

/-! ## One insertion -/

/-- INTERNAL: the cleared bytes. -/
theorem memset8_eq (m : Memory) (dest n a : ℕ) : memset8 m dest 0 n a = if dest ≤ a ∧ a < dest + n then 0 else m a := by
  induction n with
  | zero =>
    rw [memset8, if_neg (by omega)]
  | succ n ih =>
    rw [memset8]
    by_cases ha : a = dest + n
    · rw [ha, Function.update_self, if_pos (by omega)]
    · rw [Function.update_of_ne ha, ih]
      by_cases hin : dest ≤ a ∧ a < dest + n
      · rw [if_pos hin, if_pos (by omega)]
      · rw [if_neg hin, if_neg (by omega)]

/-- The length that the new entry at `i` gets. -/
def newSize (bs i : ℕ) : ℕ := ofSigned (bs - i) % 256 ^ 2

/-- INTERNAL: the new entry begins at `i`, and has its length.
SRCLINE: kernel/fs/ext2/dir.cpp:93-98 -/
theorem newEntry_bytes (b : InsertBuffer) (bs newInode type : ℕ) (name : LibString) (i : ℕ) :
    (∀ a < i, (b.newEntry bs newInode type name i).bytes a = b.bytes a) ∧
      (b.newEntry bs newInode type name i).bytes.word (i + 4) 2 = newSize bs i := by
  constructor
  · intro a ha
    simp only [InsertBuffer.newEntry, InsertBuffer.copyName, InsertBuffer.assign]
    rw [Memory.store_outside (by omega), Memory.setWord_outside (by omega), Memory.setWord_outside (by omega),
      Memory.setWord_outside (by omega), Memory.setWord_outside (by omega)]
  · simp only [InsertBuffer.newEntry, InsertBuffer.copyName, InsertBuffer.assign]
    rw [Memory.word_store_outside (by omega), Memory.word_setWord]
    rfl

/-- The place behind the new entry at `i`. -/
def nextPlace (bs i : ℕ) : ℕ := (i + newSize bs i) % 2 ^ 32

/-- INTERNAL: the place behind the new entry. -/
theorem insert_fst : (b.insert bs newInode type name i).1 = nextPlace bs i := by
  simp only [InsertBuffer.insert]
  rw [(newEntry_bytes b bs newInode type name i).2]
  rfl

/-- INTERNAL: the bytes after an insertion.
SRCLINE: kernel/fs/ext2/dir.cpp:92-103 -/
theorem insert_bytes (a : ℕ) : (b.insert bs newInode type name i).2.bytes a =
    if nextPlace bs i ≤ a ∧ a < nextPlace bs i + 8 then 0
    else (b.newEntry bs newInode type name i).bytes a := by
  simp only [InsertBuffer.insert, InsertBuffer.flush, InsertBuffer.clearEntry]
  rw [(newEntry_bytes b bs newInode type name i).2, memset8_eq]
  rfl

/-- INTERNAL: words of zero bytes. -/
theorem word_of_zeros {a n : ℕ} (h : ∀ k < n, m (a + k) = 0) : m.word a n = 0 := by
  induction n generalizing a with
  | zero => rfl
  | succ n ih =>
    rw [Memory.word, ih fun k hk => ?_]
    · have hfirst := h 0 (Nat.succ_pos n)
      rw [Nat.add_zero] at hfirst
      rw [hfirst]
      rfl
    · rw [Nat.add_assoc, Nat.add_comm 1 k]
      exact h (k + 1) (by omega)

/-- INTERNAL: behind the new entry there is one of length zero, without a name. -/
theorem insert_cleared {k n : ℕ} (h : k + n ≤ 8) :
    (b.insert bs newInode type name i).2.bytes.word (nextPlace bs i + k) n = 0 := by
  apply word_of_zeros
  intro x hx
  rw [insert_bytes, if_pos (by omega)]

section NoWrap

variable (hwrap : i + newSize bs i < 2 ^ 32)

include hwrap

/-- INTERNAL: the position does not wrap. -/
theorem nextPlace_eq : nextPlace bs i = i + newSize bs i := Nat.mod_eq_of_lt hwrap

/-- INTERNAL: nothing before the new entry is changed. -/
theorem insert_before {a : ℕ} (ha : a < i) : (b.insert bs newInode type name i).2.bytes a = b.bytes a := by
  have hnext := nextPlace_eq hwrap
  rw [insert_bytes, if_neg (by omega), (newEntry_bytes b bs newInode type name i).1 a ha]

/-- INTERNAL: the length of the new entry stays if it is long enough. -/
theorem insert_size (hlong : 8 ≤ newSize bs i) :
    (b.insert bs newInode type name i).2.bytes.word (i + 4) 2 = newSize bs i := by
  have hnext := nextPlace_eq hwrap
  rw [← (newEntry_bytes b bs newInode type name i).2]
  apply Memory.word_congr
  intro k hk
  rw [insert_bytes, if_neg (by omega)]

/-- INTERNAL: else it is cleared again. -/
theorem insert_short (hshort : newSize bs i ≤ 4) :
    (b.insert bs newInode type name i).2.bytes.word (i + 4) 2 = 0 := by
  have hnext := nextPlace_eq hwrap
  apply word_of_zeros
  intro k hk
  rw [insert_bytes, if_pos (by omega)]

end NoWrap

/-- INTERNAL: lengths are multiples of four. -/
theorem newSize_dvd (hbs : 4 ∣ bs) (hi : 4 ∣ i) : 4 ∣ newSize bs i := by
  unfold newSize ofSigned
  omega

/-- The lengths lead to `i`, or to an entry before it that is too short. -/
def Tracked (m : Memory) (i : ℕ) : Prop :=
  LeadsTo m i 0 ∨ ∃ q, q + 8 ≤ i ∧ LeadsTo m q 0 ∧ m.word (q + 4) 2 < 8

/-- INTERNAL: an entry that is too short stays so. -/
theorem short_congr (hq : q + 8 ≤ i) (hleads : LeadsTo m q 0) (hshort : m.word (q + 4) 2 < 8)
    (hsame : ∀ a < i, m' a = m a) : LeadsTo m' q 0 ∧ m'.word (q + 4) 2 < 8 := by
  refine ⟨leadsTo_congr hleads fun a ha => hsame a (by omega), ?_⟩
  have hword : m'.word (q + 4) 2 = m.word (q + 4) 2 := Memory.word_congr fun k hk => hsame _ (by omega)
  exact hword ▸ hshort

/-- **One insertion** breaks the bytes if it stays in the buffer. The next place is tracked again, after the cleared
entry has got its length.
SRCLINE: kernel/fs/ext2/dir.cpp:92-114 -/
theorem insert_step (hbs : 4 ∣ bs) (hi : 4 ∣ i) (htracked : Tracked b.bytes i) (hwrap : i + newSize bs i < 2 ^ 32)
    (hinside : i + newSize bs i + 8 ≤ size) :
    Broken (b.insert bs newInode type name i).2.bytes size ∧
      Tracked ((b.insert bs newInode type name i).2.bytes.setWord (i + newSize bs i + 4) 2 8)
        (i + newSize bs i + 8) := by
  have hbefore : ∀ a < i, (b.insert bs newInode type name i).2.bytes a = b.bytes a := fun a ha =>
    insert_before hwrap ha
  have hcleared : (b.insert bs newInode type name i).2.bytes.word (i + newSize bs i + 4) 2 = 0 := by
    rw [← nextPlace_eq hwrap]
    exact insert_cleared (by omega)
  have hkept : ∀ a < i + newSize bs i + 4, ((b.insert bs newInode type name i).2.bytes.setWord
      (i + newSize bs i + 4) 2 8) a = (b.insert bs newInode type name i).2.bytes a := fun a ha =>
    Memory.setWord_outside (by omega)
  cases htracked with
  | inr hstuck =>
    obtain ⟨q, hq, hleads, hshort⟩ := hstuck
    obtain ⟨hleads₁, hshort₁⟩ := short_congr hq hleads hshort hbefore
    refine ⟨⟨q, by omega, hleads₁, hshort₁⟩, Or.inr ⟨q, by omega, ?_⟩⟩
    exact short_congr hq hleads₁ hshort₁ fun a ha => hkept a (by omega)
  | inl hleads =>
    have hleads₁ := leadsTo_congr hleads hbefore
    by_cases hlong : 8 ≤ newSize bs i
    · -- the new entry leads to the cleared one
      have hleads₂ := leadsTo_snoc hleads₁ (by rw [insert_size hwrap hlong]; exact hlong)
      rw [insert_size hwrap hlong] at hleads₂
      refine ⟨⟨_, by omega, hleads₂, by rw [hcleared]; omega⟩, Or.inl ?_⟩
      have hleads₃ := leadsTo_congr hleads₂ fun a ha => hkept a (by omega)
      have hsize : ((b.insert bs newInode type name i).2.bytes.setWord (i + newSize bs i + 4) 2 8).word
          (i + newSize bs i + 4) 2 = 8 := Memory.word_setWord_of_lt (by omega)
      have hleads₄ := leadsTo_snoc hleads₃ (Nat.le_of_eq hsize.symm)
      rw [hsize] at hleads₄
      exact hleads₄
    · -- the length of the new entry has been cleared
      have hdvd := newSize_dvd hbs hi
      have hshort : newSize bs i = 0 ∨ newSize bs i = 4 := by omega
      have hzero := @insert_short i bs newInode type name b hwrap (by omega)
      refine ⟨⟨i, by omega, hleads₁, by rw [hzero]; omega⟩, ?_⟩
      cases hshort with
      | inl h0 =>
        rw [h0, Nat.add_zero] at hkept ⊢
        have hleads₂ := leadsTo_congr hleads₁ fun a ha => hkept a (by omega)
        have hsize : ((b.insert bs newInode type name i).2.bytes.setWord (i + 4) 2 8).word (i + 4) 2 = 8 :=
          Memory.word_setWord_of_lt (by omega)
        have hleads₃ := leadsTo_snoc hleads₂ (Nat.le_of_eq hsize.symm)
        rw [hsize] at hleads₃
        exact Or.inl hleads₃
      | inr h4 =>
        refine Or.inr ⟨i, by omega, ?_⟩
        have hshort₁ : (b.insert bs newInode type name i).2.bytes.word (i + 4) 2 < 8 := by
          rw [hzero]
          omega
        exact short_congr (Nat.le_refl (i + 8)) hleads₁ hshort₁ fun a ha => hkept a (by omega)

/-! ## The walk -/

/-- INTERNAL: what is written for a new entry.
SRCLINE: kernel/fs/ext2/dir.cpp:93-98 -/
theorem newEntry_writes (b : InsertBuffer) (bs newInode type : ℕ) (name : LibString) (i : ℕ) :
    (b.newEntry bs newInode type name i).writes =
      b.writes ++ [(i, 4)] ++ [(i + 7, 1)] ++ [(i + 6, 1)] ++ [(i + 4, 2)] ++ [(i + 8, name.length % 256)] := rfl

/-- INTERNAL: an insertion adds writes, among them the one behind the new entry.
SRCLINE: kernel/fs/ext2/dir.cpp:92-107 -/
theorem insert_writes : (b.insert bs newInode type name i).2.writes =
    (b.newEntry bs newInode type name i).writes ++ [(nextPlace bs i, 8)] := by
  simp only [InsertBuffer.insert, InsertBuffer.flush, InsertBuffer.clearEntry]
  rw [(newEntry_bytes b bs newInode type name i).2]
  rfl

theorem insert_writes_mem {w : ℕ × ℕ} (hw : w ∈ b.writes) : w ∈ (b.insert bs newInode type name i).2.writes := by
  rw [insert_writes, newEntry_writes]
  simp only [List.append_assoc]
  exact List.mem_append_left _ hw

/-- INTERNAL: the walk only adds writes, and does not reset `exists`. -/
theorem insertWalk_grows {fuel : ℕ} {slack : Bool} {r : InsertBuffer}
    (hrun : insertWalk bs size newInode type name fuel i slack b = some r) :
    (∀ w ∈ b.writes, w ∈ r.writes) ∧ (b.found = true → r.found = true) := by
  induction fuel generalizing i slack b with
  | zero => cases hrun
  | succ fuel ih =>
    rw [insertWalk] at hrun
    by_cases hlt : i < size
    · rw [if_pos hlt] at hrun
      have hinsert : (∀ w ∈ b.writes, w ∈ (if slack then b.insert bs newInode type name i else (i, b)).2.writes) ∧
          (b.found = true → (if slack then b.insert bs newInode type name i else (i, b)).2.found = true) := by
        cases slack with
        | false => exact ⟨fun w hw => hw, fun h => h⟩
        | true => exact ⟨fun w hw => insert_writes_mem hw, fun _ => rfl⟩
      generalize (if slack then b.insert bs newInode type name i else (i, b)) = x at hinsert hrun
      obtain ⟨hwrites, hfound⟩ := hinsert
      dsimp only at hrun
      by_cases htight : (rawDirAt x.2.bytes x.1).entrySize ≠ expectedSize (rawDirAt x.2.bytes x.1).nameLength
      · rw [if_pos htight] at hrun
        obtain ⟨hwrites', hfound'⟩ := ih hrun
        exact ⟨fun w hw => hwrites' w (List.mem_append_left _ (hwrites w hw)), fun h => hfound' (hfound h)⟩
      · rw [if_neg htight] at hrun
        obtain ⟨hwrites', hfound'⟩ := ih hrun
        exact ⟨fun w hw => hwrites' w (hwrites w hw), fun h => hfound' (hfound h)⟩
    · rw [if_neg hlt] at hrun
      rw [← Option.some.inj hrun]
      exact ⟨fun w hw => hw, fun h => h⟩

/-- INTERNAL: an iteration behind an entry with slack. -/
theorem insertWalk_insert {fuel : ℕ} (hlt : i < size) :
    insertWalk bs size newInode type name (fuel + 1) i true b =
      insertWalk bs size newInode type name fuel ((nextPlace bs i + 8) % 2 ^ 32) true
        ((b.insert bs newInode type name i).2.assign (nextPlace bs i + 4) 2 8) := by
  have hentrySize : (rawDirAt (b.insert bs newInode type name i).2.bytes (nextPlace bs i)).entrySize = 0 :=
    insert_cleared (by omega)
  have hnameLength : (rawDirAt (b.insert bs newInode type name i).2.bytes (nextPlace bs i)).nameLength = 0 :=
    insert_cleared (by omega)
  rw [insertWalk, if_pos hlt]
  simp only [if_true]
  rw [insert_fst, hentrySize, hnameLength, if_pos (by decide)]
  rfl

/-- INTERNAL: where the position is after an iteration. It is the same in each range of 64 KiB. -/
theorem nextPlace_mod (bs i : ℕ) : nextPlace bs i % 2 ^ 16 = bs % 2 ^ 16 ∧ nextPlace bs i < 2 ^ 32 := by
  unfold nextPlace newSize ofSigned
  omega

/-- **The walk does not end** if there is room behind the last of these positions. The induction is on the fuel. -/
theorem insertWalk_cycles {fuel : ℕ} (hroom : bs % 2 ^ 16 + (2 ^ 32 - 2 ^ 16) + 8 < size) (hsize : size < 2 ^ 32)
    (hi : i % 2 ^ 16 = bs % 2 ^ 16) (hlt : i < 2 ^ 32) :
    insertWalk bs size newInode type name fuel ((i + 8) % 2 ^ 32) true b = none := by
  induction fuel generalizing i b with
  | zero => rfl
  | succ fuel ih =>
    have hplace : i + 8 < size := by omega
    rw [Nat.mod_eq_of_lt (hplace.trans hsize), insertWalk_insert hplace]
    obtain ⟨hmod, hbound⟩ := nextPlace_mod bs (i + 8)
    exact ih hmod hbound

/-- **Behind an entry with slack** every flush is broken, if all writes are in the buffer. The induction is on the
fuel; an iteration that wraps is not in a walk that ends. -/
theorem insertWalk_broken {fuel : ℕ} {r : InsertBuffer} (hbs : 1024 ∣ bs) (hblocks : bs ∣ size) (hsize : size < 2 ^ 32)
    (hi : 4 ∣ i) (htracked : Tracked b.bytes i)
    (hbroken : ∀ last, b.flushes.getLast? = some last → Broken last size)
    (hrun : insertWalk bs size newInode type name fuel i true b = some r) (hinside : ∀ w ∈ r.writes, w.1 + w.2 ≤ size) :
    ∀ last, r.flushes.getLast? = some last → Broken last size := by
  induction fuel generalizing i b with
  | zero => cases hrun
  | succ fuel ih =>
    by_cases hlt : i < size
    · rw [insertWalk_insert hlt] at hrun
      by_cases hwrap : i + newSize bs i < 2 ^ 32
      · have hclear : (nextPlace bs i, 8) ∈ (b.insert bs newInode type name i).2.writes := by
          rw [insert_writes]
          exact List.mem_append_right _ List.mem_cons_self
        have hwithin := hinside _ ((insertWalk_grows hrun).1 _ (List.mem_append_left _ hclear))
        rw [nextPlace_eq hwrap] at hrun hwithin
        obtain ⟨hnow, hnext⟩ := @insert_step size i bs newInode type name b (by omega) hi htracked hwrap hwithin
        have hdvd : 4 ∣ newSize bs i := newSize_dvd (by omega) hi
        rw [Nat.mod_eq_of_lt (by omega)] at hrun
        refine ih (by omega) hnext (fun last hlast => ?_) hrun
        have hflush : ((b.insert bs newInode type name i).2.assign (i + newSize bs i + 4) 2 8).flushes.getLast? =
            some (b.insert bs newInode type name i).2.bytes := List.getLast?_concat
        rw [hflush] at hlast
        rw [← Option.some.inj hlast]
        exact hnow
      · -- the position wraps, and the walk begins its next round
        have hpages : 1024 ∣ size := hbs.trans hblocks
        obtain ⟨hmod, hbound⟩ := nextPlace_mod bs i
        have hroom : bs % 2 ^ 16 + (2 ^ 32 - 2 ^ 16) + 8 < size := by
          have hshort : newSize bs i < 2 ^ 16 := Nat.mod_lt _ (by decide)
          have hplace : nextPlace bs i = i + newSize bs i - 2 ^ 32 := by
            unfold nextPlace
            omega
          have hsame : nextPlace bs i = bs % 2 ^ 16 := by omega
          obtain ⟨k, hk⟩ := hpages
          obtain ⟨l, hl⟩ := hbs
          omega
        rw [insertWalk_cycles hroom hsize hmod hbound] at hrun
        cases hrun
    · rw [insertWalk, if_neg hlt] at hrun
      rw [← Option.some.inj hrun]
      exact hbroken

/-! ## Up to the first entry with slack -/

/-- INTERNAL: a walk over entries without slack writes nothing. -/
theorem insertWalk_tight (hentries : EntriesAt b.bytes size i es) (hsize : size < 2 ^ 32) (hall : ∀ e ∈ es, Tight e) :
    insertWalk bs size newInode type name (es.length + 1) i false b = some b := by
  induction es generalizing i with
  | nil =>
    have hend : i = size := hentries
    rw [List.length_nil, insertWalk, if_neg (by omega)]
  | cons e es ih =>
    obtain ⟨hentry, hlong, hinside, hrest⟩ := hentries
    have htight : e.entrySize = expectedSize e.nameLength := hall e List.mem_cons_self
    have hfits := name_fits e.nameLength
    rw [List.length_cons, insertWalk, if_pos (by omega)]
    simp only [Bool.false_eq_true, if_false]
    rw [hentry, if_neg (not_not_intro htight), Nat.mod_eq_of_lt (by omega)]
    exact ih hrest fun e' he' => hall e' (List.mem_cons_of_mem e he')

/-- INTERNAL: the first entry with slack is cut, and the walk goes on behind it. The induction is on the entries
before it. -/
theorem insertWalk_slack {fuel : ℕ} {r : InsertBuffer} (hentries : EntriesAt b.bytes size i (before ++ e :: behind))
    (hsize : size < 2 ^ 32) (hall : ∀ e ∈ before, Tight e) (hslack : ¬ Tight e)
    (hrun : insertWalk bs size newInode type name fuel i false b = some r) :
    ∃ p fuel', LeadsTo b.bytes p i ∧ p + expectedSize e.nameLength < size ∧
      p = i + (before.map RawDir.entrySize).sum ∧
      insertWalk bs size newInode type name fuel' (p + expectedSize e.nameLength) true
        (b.assign (p + 4) 2 (expectedSize e.nameLength)) = some r := by
  induction before generalizing i fuel with
  | nil =>
    obtain ⟨hentry, hlong, hinside, _⟩ := hentries
    have hfits := name_fits e.nameLength
    have hcut : expectedSize e.nameLength < e.entrySize := by
      have hne : e.entrySize ≠ expectedSize e.nameLength := hslack
      omega
    cases fuel with
    | zero => cases hrun
    | succ fuel =>
      refine ⟨i, fuel, LeadsTo.here, by omega, rfl, ?_⟩
      rw [insertWalk, if_pos (by omega)] at hrun
      simp only [Bool.false_eq_true, if_false] at hrun
      rw [hentry, if_pos (show e.entrySize ≠ expectedSize e.nameLength from hslack), Nat.mod_eq_of_lt (by omega)] at hrun
      exact hrun
  | cons e' before ih =>
    obtain ⟨hentry, hlong, hinside, hrest⟩ := hentries
    have htight : e'.entrySize = expectedSize e'.nameLength := hall e' List.mem_cons_self
    have hfits := name_fits e'.nameLength
    have hlength : b.bytes.word (i + 4) 2 = e'.entrySize := by
      rw [← hentry]
      rfl
    cases fuel with
    | zero => cases hrun
    | succ fuel =>
      rw [insertWalk, if_pos (by omega)] at hrun
      simp only [Bool.false_eq_true, if_false] at hrun
      rw [hentry, if_neg (not_not_intro htight), Nat.mod_eq_of_lt (by omega)] at hrun
      obtain ⟨p, fuel', hleads, hlt, hsum, hwalk⟩ :=
        ih hrest (fun x hx => hall x (List.mem_cons_of_mem e' hx)) hrun
      refine ⟨p, fuel', LeadsTo.next (by omega) (by rw [hlength]; exact hleads), hlt, ?_, hwalk⟩
      rw [hsum, List.map_cons, List.sum_cons]
      omega

/-! ## The result -/

/-- INTERNAL: the entries of a block have such lengths. -/
theorem fillsTo_fits {stop : ℕ} (h : FillsTo m stop i es) : ∀ e ∈ es, EntryFits e := by
  induction es generalizing i with
  | nil => exact fun e he => absurd he List.not_mem_nil
  | cons e es ih => exact List.forall_mem_cons.mpr ⟨h.2.1, ih h.2.2⟩

/-- INTERNAL: lengths of entries are multiples of four, and so are their sums. -/
theorem sum_aligned (h : ∀ e ∈ es, EntryFits e) : 4 ∣ (es.map RawDir.entrySize).sum := by
  apply List.dvd_sum
  intro x hx
  obtain ⟨e, he, rfl⟩ := List.mem_map.mp hx
  exact (h e he).aligned

/-- INTERNAL: a list with an element that has not a property has a first one. -/
theorem first_slack (h : ¬ ∀ e ∈ es, Tight e) :
    ∃ before e behind, es = before ++ e :: behind ∧ (∀ e' ∈ before, Tight e') ∧ ¬ Tight e := by
  induction es with
  | nil => exact absurd (fun e he => absurd he List.not_mem_nil) h
  | cons e es ih =>
    by_cases htight : Tight e
    · have hrest : ¬ ∀ e ∈ es, Tight e := fun hall => h (List.forall_mem_cons.mpr ⟨htight, hall⟩)
      obtain ⟨before, e', behind, hsplit, hall, hslack⟩ := ih hrest
      exact ⟨e :: before, e', behind, by rw [hsplit]; rfl, List.forall_mem_cons.mpr ⟨htight, hall⟩, hslack⟩
    · exact ⟨[], e, es, rfl, fun e' he' => absurd he' List.not_mem_nil, htight⟩

/-- INTERNAL: where the walk goes on behind the first entry with slack, and what has been changed before.
SRCLINE: kernel/fs/ext2/dir.cpp:108-114 -/
theorem slack_tracked {p : ℕ} (hentries : EntriesAt m size 0 (before ++ e :: behind)) (hleads : LeadsTo m p 0)
    (hfits : ∀ e' ∈ before, EntryFits e') (hsum : p = 0 + (before.map RawDir.entrySize).sum) :
    4 ∣ p + expectedSize e.nameLength ∧
      Tracked (m.setWord (p + 4) 2 (expectedSize e.nameLength)) (p + expectedSize e.nameLength) := by
  have hbefore := sum_aligned hfits
  have hfit := name_fits e.nameLength
  refine ⟨by unfold expectedSize; omega, Or.inl ?_⟩
  have hsmall : expectedSize e.nameLength < 256 ^ 2 := by
    obtain ⟨q, _, hhere, _⟩ := leadsTo_entry hentries
    have hlong : expectedSize e.nameLength ≤ e.entrySize := hhere.2.1
    have hword : e.entrySize < 256 ^ 2 := by
      rw [← hhere.1]
      exact Memory.word_lt
    omega
  have hsize : (m.setWord (p + 4) 2 (expectedSize e.nameLength)).word (p + 4) 2 = expectedSize e.nameLength :=
    Memory.word_setWord_of_lt hsmall
  have hkept : ∀ a < p, (m.setWord (p + 4) 2 (expectedSize e.nameLength)) a = m a := fun a ha =>
    Memory.setWord_outside (by omega)
  have hleads' := leadsTo_snoc (leadsTo_congr hleads hkept) (by rw [hsize]; omega)
  rw [hsize] at hleads'
  exact hleads'

/-- INTERNAL: the entries that the constructor sees in its buffer. -/
theorem buffer_entriesAt {g : Ext2Super} {disk : Memory} {ino : Inode} {blocks : List (List RawDir)}
    (h : WellFormedDirectory g disk ino blocks) (heap : Memory) :
    EntriesAt (ino.read g disk 0 ino.size32l heap) ino.size32l 0 blocks.flatten :=
  entriesAt_congr (wellFormed_entriesAt h) fun _ ha => read_directory h.blockSize ha

/-- **No insertion is right in a directory with slack.** Behind the first entry with slack the bytes are broken, or
something outside the buffer is written, or the walk does not end. -/
theorem insertsRight_tight {g : Ext2Super} {heap disk : Memory} {ino : Inode} {blocks : List (List RawDir)}
    (hblock : 1024 ∣ g.blockSize) (h : WellFormedDirectory g disk ino blocks)
    (hinserts : InsertsRight g heap disk ino blocks newInode type name) : ∀ e ∈ blocks.flatten, Tight e := by
  have hentries := buffer_entriesAt h heap
  have hsize : ino.size32l < 2 ^ 32 := Memory.word_lt
  obtain ⟨fuel, r, hrun, hright⟩ := hinserts
  by_contra hslack
  obtain ⟨before, e, behind, hsplit, hall, hcut⟩ := first_slack hslack
  have hfits : ∀ e' ∈ before, EntryFits e' := by
    intro e' he'
    have hmem : e' ∈ blocks.flatten := by
      rw [hsplit]
      exact List.mem_append_left _ he'
    obtain ⟨es', hes', hmem'⟩ := List.mem_flatten.mp hmem
    obtain ⟨k, hk⟩ := List.mem_iff_getElem?.mp hes'
    exact fillsTo_fits (h.fills k es' hk) e' hmem'
  rw [hsplit] at hentries
  obtain ⟨p, fuel', hleads, hlt, hsum, hwalk⟩ := @insertWalk_slack ino.size32l 0 g.blockSize newInode type
    name before behind e ⟨ino.read g disk 0 ino.size32l heap, [], [], false⟩ fuel r hentries hsize hall hcut hrun
  obtain ⟨hi, htracked⟩ := slack_tracked hentries hleads hfits hsum
  cases hright.result with
  | inl hinserted =>
    obtain ⟨_, last, blocks', hlast, hlength, hdir, _⟩ := hinserted
    have hbroken := insertWalk_broken hblock ⟨blocks.length, by rw [h.size, Nat.mul_comm]⟩ hsize hi htracked
      (fun last hnone => by cases hnone) hwalk hright.inside last hlast
    refine broken_not_directory hbroken ?_ hdir
    rw [hlength, h.size]
  | inr hnothing =>
    cases fuel' with
    | zero => cases hwalk
    | succ fuel' =>
      rw [insertWalk_insert hlt] at hwalk
      have hfound := (insertWalk_grows hwalk).2 rfl
      rw [hnothing.1] at hfound
      cases hfound

/-- **An insertion is right if and only if no entry of the directory has slack**, that is, if there is nothing that it
could insert.
SRCLINE: kernel/fs/ext2/dir.cpp:83-119 -/
theorem insertsRight_iff {g : Ext2Super} {disk : Memory} {ino : Inode} {blocks : List (List RawDir)}
    (hblock : 1024 ∣ g.blockSize) (h : WellFormedDirectory g disk ino blocks) (heap : Memory) (newInode type : ℕ)
    (name : LibString) :
    InsertsRight g heap disk ino blocks newInode type name ↔ ∀ e ∈ blocks.flatten, Tight e := by
  constructor
  · exact insertsRight_tight hblock h
  · intro hall
    refine ⟨blocks.flatten.length + 1, ⟨ino.read g disk 0 ino.size32l heap, [], [], false⟩,
      insertWalk_tight (buffer_entriesAt h heap) Memory.word_lt hall, fun w hw => absurd hw List.not_mem_nil,
      Or.inr ⟨rfl, rfl, fun e he => ?_⟩⟩
    have htight : e.entrySize = expectedSize e.nameLength := hall e he
    have hfit := name_fits name.length
    omega

/-- The directory of `twoBlocks`, whose last entries go up to the ends of their blocks. -/
theorem twoBlocks_insertsRight_iff :
    InsertsRight smallSuper (fun _ => 0) twoBlocks (readInode smallSuper twoBlocks 2) twoBlockEntries 14 1 [0x67] ↔
      ∀ e ∈ twoBlockEntries.flatten, Tight e :=
  insertsRight_iff (by decide) twoBlocks_wellFormed (fun _ => 0) 14 1 [0x67]

/-- `g` is not inserted as it should be. -/
theorem insertion_goes_wrong : ¬ ∀ (g : Ext2Super) (heap disk : Memory) (ino : Inode) (blocks : List (List RawDir))
    (newInode type : ℕ) (name : LibString), 1024 ∣ g.blockSize → WellFormedDirectory g disk ino blocks →
    name.length < 256 → 0 < name.length → name ∉ (liveEntries blocks.flatten).map RawDir.name →
    InsertsRight g heap disk ino blocks newInode type name := by
  intro h
  have hright := h smallSuper (fun _ => 0) twoBlocks _ twoBlockEntries 14 1 [0x67] (by decide) twoBlocks_wellFormed
    (by decide) (by decide) (by decide)
  have htight : Tight ⟨13, 1024, 1, [0x66]⟩ := insertsRight_tight (by decide) twoBlocks_wellFormed hright _ (by decide)
  exact absurd htight (by unfold Tight; decide)

end CrepOS.Analysis
