import CrepOS.Interface.FdBook
import CrepOS.Analysis.FdIsolation

/-!
# The bitmap of a task and `fd_list`

`alloc_fd` sets a bit and enters a descriptor, whether or not the file was opened; `close` removes the
entry and leaves the bit; `dup2` enters a descriptor and sets no bit; `translate` enters a closed one
under every number that it does not find. So the two structures agree after every call of a sequence
exactly when every call is one of those that `KeepsBooks` says, and then the numbers that `open` and
`dup` choose are the lowest (`descriptors_bookkept_iff`). One lemma for each call says when it keeps
them; `Books` is the invariant of the induction over the calls.
-/

set_option autoImplicit false

namespace CrepOS.Analysis

open CrepOS.Library CrepOS.Model CrepOS.Interface

variable {V P N : Type} {ops : VfsOps V P N} {pid : ℤ} {st : FdState V N}

/-! ## The bitmap -/

/-- INTERNAL: `find_index` sets the bit that it chooses and no other.
SRCLINE: kernel/fs/fd.cpp:23-39 -/
theorem findIndex_marked (b : FdBitmap) (j : ℕ) :
    Marked (findIndex b).2 j ↔ j = (findIndex b).1 ∨ Marked b j := by
  have hspec := findClear_spec b.bits 0 b.size fun j hj => absurd hj (Nat.not_lt_zero j)
  rw [Nat.zero_add] at hspec
  have hupdate : ∀ (bits : ℕ → Bool) (i size : ℕ), i < size →
      (Marked ⟨Function.update bits i true, size⟩ j ↔ j = i ∨ Marked ⟨bits, size⟩ j) := by
    intro bits i size hi
    unfold Marked
    by_cases hji : j = i
    · subst hji
      simp [hi]
    · simp [hji]
  unfold findIndex
  split
  · rename_i i hfound
    exact hupdate b.bits i b.size (hspec.1 i hfound).1
  · rename_i hnone
    have hgrown := findClear_spec (fun i => if i < b.size then b.bits i else false) 0
      (b.size + 0x1000) fun j hj => absurd hj (Nat.not_lt_zero j)
    rw [Nat.zero_add] at hgrown
    have hold : Marked ⟨fun i => if i < b.size then b.bits i else false, b.size + 0x1000⟩ j ↔
        Marked b j := by
      unfold Marked
      by_cases hj : j < b.size
      · simp [hj, Nat.lt_add_right 0x1000 hj]
      · simp [hj]
    simp only
    split
    · rename_i i hfound
      rw [← hold]
      exact hupdate _ i _ (hgrown.1 i hfound).1
    · rename_i hnone'
      have hbit := hgrown.2 hnone' b.size (by omega)
      rw [if_neg (Nat.lt_irrefl _)] at hbit
      cases hbit

/-- INTERNAL: the number that `find_index` chooses is the lowest that is not marked. -/
theorem findIndex_unmarked (b : FdBitmap) :
    ¬ Marked b (findIndex b).1 ∧ ∀ i < (findIndex b).1, Marked b i := by
  obtain ⟨hle, hbelow, hclear⟩ := findIndex_lowest b
  constructor
  · rintro ⟨hlt, hbit⟩
    rw [hclear hlt] at hbit
    cases hbit
  · intro i hi
    exact ⟨by omega, hbelow i hi⟩

/-- INTERNAL: the number that `find_index` chooses fits in an `int` if there is one that does. -/
theorem findIndex_lt_iff (b : FdBitmap) : (findIndex b).1 < 2 ^ 31 ↔ HasNumber b := by
  obtain ⟨hun, hbelow⟩ := findIndex_unmarked b
  constructor
  · intro hlt
    exact ⟨_, hlt, hun⟩
  · rintro ⟨i, hi, hclear⟩
    by_contra hge
    exact hclear (hbelow i (by omega))

theorem toInt_of_lt {n : ℕ} (h : n < 2 ^ 31) : toInt n = n := by
  unfold toInt
  rw [Int.bmod_def]
  split <;> omega

theorem toInt_lt (n : ℕ) : toInt n < 2 ^ 31 := by
  unfold toInt
  rw [Int.bmod_def]
  split <;> omega

/-! ## The entries -/

theorem present_of_lookup {k : ℤ} {fd : Fd N} (hk : st.fdList.lookup k = some fd) :
    Present st k := by
  unfold Present
  rw [hk]
  rfl

theorem not_present {k : ℤ} (hk : st.fdList.lookup k = none) : ¬ Present st k := by
  unfold Present
  rw [hk]
  exact Bool.false_ne_true

theorem lookup_of_not_present {k : ℤ} (hk : ¬ Present st k) : st.fdList.lookup k = none := by
  cases hlookup : st.fdList.lookup k with
  | none => rfl
  | some fd => exact absurd (present_of_lookup hlookup) hk

/-- INTERNAL: the bitmap and the entries are all that the invariant is about. -/
theorem bookkept_of_eq {st' : FdState V N} (h : Bookkept pid st) (hbitmap : st'.bitmap = st.bitmap)
    (hlookup : ∀ k, st'.fdList.lookup k = st.fdList.lookup k) : Bookkept pid st' where
  bit i := by
    unfold OpenNumber
    rw [hbitmap, hlookup]
    exact h.bit i
  entry k hk := by
    unfold Present at hk
    rw [hlookup] at hk
    rw [hbitmap]
    exact h.entry k hk

/-- INTERNAL: every entry is open. -/
theorem entry_status_ne {k : ℤ} {fd : Fd N} (h : Bookkept pid st)
    (hk : st.fdList.lookup k = some fd) : fd.status ≠ 0 := by
  obtain ⟨i, rfl, hbit⟩ := h.entry k (present_of_lookup hk)
  obtain ⟨fd', hfd', hopen⟩ := (h.bit i).mp hbit
  rw [hk] at hfd'
  cases hfd'
  exact hopen

/-- INTERNAL: the entries are those of the numbers with a bit. -/
theorem present_iff_marked (h : Bookkept pid st) (k : ℤ) :
    Present st k ↔ ∃ i : ℕ, k = i ∧ Marked (st.bitmap pid) i := by
  constructor
  · exact h.entry k
  · rintro ⟨i, rfl, hbit⟩
    obtain ⟨fd, hfd, -⟩ := (h.bit i).mp hbit
    exact present_of_lookup hfd

/-- INTERNAL: the open numbers are those with an entry. -/
theorem openNumber_iff_present (h : Bookkept pid st) (k : ℤ) : OpenNumber st k ↔ Present st k := by
  unfold Present
  rw [Option.isSome_iff_exists]
  constructor
  · rintro ⟨fd, hfd, -⟩
    exact ⟨fd, hfd⟩
  · rintro ⟨fd, hfd⟩
    exact ⟨fd, hfd, entry_status_ne h hfd⟩

/-- INTERNAL: an entry that is replaced keeps the invariant. -/
theorem replaced_bookkept {st' : FdState V N} (h : Bookkept pid st) (hbitmap : st'.bitmap = st.bitmap)
    {fd : Fd N} (hopen : fd.status ≠ 0) {m : ℤ} (hm : Present st m)
    (hlookup : ∀ k, st'.fdList.lookup k = if k = m then some fd else st.fdList.lookup k) :
    Bookkept pid st' := by
  have hpresent : ∀ k, Present st' k → Present st k := by
    intro k hk
    unfold Present at hk
    rw [hlookup] at hk
    split at hk
    · rename_i hkm
      rw [hkm]
      exact hm
    · exact hk
  have hnumber : ∀ k, OpenNumber st' k ↔ OpenNumber st k := by
    intro k
    unfold OpenNumber
    rw [hlookup]
    split
    · rename_i hkm
      rw [hkm]
      exact ⟨fun _ => (openNumber_iff_present h m).mpr hm, fun _ => ⟨fd, rfl, hopen⟩⟩
    · exact Iff.rfl
  refine ⟨fun i => ?_, fun k hk => ?_⟩
  · rw [hbitmap, hnumber]
    exact h.bit i
  · rw [hbitmap]
    exact h.entry k (hpresent k hk)

/-- **The invariant of the induction**: the books are kept, and `translate` finds every entry. -/
structure Books (pid : ℤ) (st : FdState V N) : Prop extends Bookkept pid st where
  backing : ∀ k fd, st.fdList.lookup k = some fd → fd.backingFd ≠ -1
  node : ∀ k fd, st.fdList.lookup k = some fd → fd.vfsNode.isSome = true

/-- INTERNAL: the bitmap and the entries are all that the invariant is about. -/
theorem Books.of_eq {st' : FdState V N} (h : Books pid st) (hbitmap : st'.bitmap = st.bitmap)
    (hlookup : ∀ k, st'.fdList.lookup k = st.fdList.lookup k) : Books pid st' where
  toBookkept := bookkept_of_eq h.toBookkept hbitmap hlookup
  backing k fd hk := h.backing k fd (by rw [← hlookup]; exact hk)
  node k fd hk := h.node k fd (by rw [← hlookup]; exact hk)

/-! ## `translate` -/

/-- INTERNAL: `translate` finds an entry and changes nothing.
SRCLINE: kernel/fs/fd.cpp:44-56 -/
theorem translate_present (h : Books pid st) {k : ℤ} {fd : Fd N}
    (hk : st.fdList.lookup k = some fd) : st.translate k = (st, some fd) := by
  have hget : st.fdList.get k Fd.default = fd := by
    unfold LibMap.get
    rw [hk]
    rfl
  have hvalid : ¬ (fd.backingFd = -1 ∨ fd.status = 0) := by
    rintro (hbacking | hstatus)
    · exact h.backing k fd hk hbacking
    · exact entry_status_ne h.toBookkept hk hstatus
  unfold FdState.translate LibMap.touch
  simp only [hget, hk, if_neg hvalid]

/-- INTERNAL: `translate` of a number without an entry finds none and enters a closed descriptor.
SRCLINE: kernel/fs/fd.cpp:44-56 -/
theorem translate_absent {k : ℤ} (hk : st.fdList.lookup k = none) :
    st.translate k = ({ st with fdList := st.fdList.set k Fd.default }, none) := by
  have hget : st.fdList.get k (Fd.default : Fd N) = Fd.default := by
    unfold LibMap.get
    rw [hk]
    rfl
  unfold FdState.translate LibMap.touch
  simp only [hget, hk]
  rw [if_pos (.inl rfl)]

/-- INTERNAL: the closed descriptor that `translate` enters breaks the invariant. -/
theorem not_bookkept_absent (k : ℤ) :
    ¬ Bookkept pid { st with fdList := st.fdList.set k Fd.default } := by
  intro h
  have hentry := LibMap.lookup_set st.fdList k k (Fd.default : Fd N)
  rw [if_pos rfl] at hentry
  exact entry_status_ne h hentry rfl

/-! ## `alloc_fd` -/

/-- INTERNAL: what the lambda `open` returns, and the node that it finds.
SRCLINE: kernel/fs/fd.cpp:59-83 -/
theorem openNode_opens (ops : VfsOps V P N) (vfs : V) (path : P) (flags : ℕ) :
    ((openNode ops vfs path flags).2.2 ≠ -1 ↔ opensNode ops vfs path flags = true) ∧
      ((openNode ops vfs path flags).2.2 ≠ -1 → (openNode ops vfs path flags).2.1.isSome = true) := by
  unfold openNode opensNode
  cases ops.searchAbsolute vfs path with
  | some node => simp
  | none =>
    by_cases hcreat : flags &&& 0x10 ≠ 0
    · simp only [if_pos hcreat]
      cases ops.searchAbsolute (ops.create vfs path) path with
      | some node => simp
      | none => simp
    · simp [if_neg hcreat]

/-- INTERNAL: the constructor of `fd` leaves the entries and the bitmaps alone, and the descriptor is
open if the file system opened the node.
SRCLINE: kernel/fs/fd.cpp:58-92 -/
theorem construct_spec (ops : VfsOps V P N) (st : FdState V N) (path : P) (flags : ℕ) (backingFd : ℤ) :
    (st.construct ops path flags backingFd).1.fdList = st.fdList ∧
      (st.construct ops path flags backingFd).1.bitmap = st.bitmap ∧
      (st.construct ops path flags backingFd).2.backingFd = backingFd ∧
      ((st.construct ops path flags backingFd).2.status ≠ 0 ↔
        opensNode ops st.vfs path flags = true) ∧
      (opensNode ops st.vfs path flags = true →
        (st.construct ops path flags backingFd).2.vfsNode.isSome = true) := by
  obtain ⟨hopens, hnode⟩ := openNode_opens ops st.vfs path flags
  unfold FdState.construct
  by_cases hret : (openNode ops st.vfs path flags).2.2 = -1
  · have hfails : ¬ opensNode ops st.vfs path flags = true := fun h => hopens.mpr h hret
    simp only [hret, if_true]
    exact ⟨trivial, trivial, trivial, ⟨fun h => absurd rfl h, fun h => absurd h hfails⟩,
      fun h => absurd h hfails⟩
  · simp only [if_neg hret]
    exact ⟨rfl, rfl, trivial, ⟨fun _ => hopens.mp hret, fun _ => Nat.one_ne_zero⟩, fun _ => hnode hret⟩

/-- INTERNAL: `alloc_fd` enters one descriptor, under the number that `find_index` chooses.
SRCLINE: kernel/fs/fd.cpp:19-42 -/
theorem allocFd_spec (ops : VfsOps V P N) (st : FdState V N) (pid : ℤ) (path : P) (flags : ℕ) :
    (∀ k, (st.allocFd ops pid path flags).1.fdList.lookup k =
        if k = ((findIndex (st.bitmap pid)).1 : ℤ) then some (st.allocFd ops pid path flags).2
        else st.fdList.lookup k) ∧
      (st.allocFd ops pid path flags).1.bitmap pid = (findIndex (st.bitmap pid)).2 ∧
      (st.allocFd ops pid path flags).2.backingFd = toInt (findIndex (st.bitmap pid)).1 ∧
      ((st.allocFd ops pid path flags).2.status ≠ 0 ↔ opensNode ops st.vfs path flags = true) ∧
      (opensNode ops st.vfs path flags = true →
        (st.allocFd ops pid path flags).2.vfsNode.isSome = true) := by
  obtain ⟨hlist, hbitmap, hbacking, hstatus, hnode⟩ := construct_spec ops
    { st with bitmap := Function.update st.bitmap pid (findIndex (st.bitmap pid)).2 } path flags
    (toInt (findIndex (st.bitmap pid)).1)
  unfold FdState.allocFd
  refine ⟨fun k => ?_, ?_, hbacking, hstatus, hnode⟩
  · simp only [LibMap.lookup_set, hlist]
  · simp only [hbitmap, Function.update_self]

/-- INTERNAL: `alloc_fd` keeps the invariant exactly when it opens the file. -/
theorem allocFd_bookkept_iff (ops : VfsOps V P N) (h : Books pid st) (path : P) (flags : ℕ) :
    Bookkept pid (st.allocFd ops pid path flags).1 ↔ opensNode ops st.vfs path flags = true := by
  obtain ⟨hlookup, hbitmap, -, hstatus, -⟩ := allocFd_spec ops st pid path flags
  have hentry := hlookup (findIndex (st.bitmap pid)).1
  rw [if_pos rfl] at hentry
  constructor
  · intro hkept
    exact hstatus.mp (entry_status_ne hkept hentry)
  · intro hopens
    have hopen := hstatus.mpr hopens
    refine ⟨fun i => ?_, fun k hk => ?_⟩
    · rw [hbitmap, findIndex_marked]
      unfold OpenNumber
      rw [hlookup]
      by_cases hi : (i : ℤ) = ((findIndex (st.bitmap pid)).1 : ℤ)
      · rw [if_pos hi]
        exact ⟨fun _ => ⟨_, rfl, hopen⟩, fun _ => .inl (by omega)⟩
      · rw [if_neg hi]
        constructor
        · rintro (heq | hbit)
          · exact absurd (congrArg Nat.cast heq) hi
          · exact (h.bit i).mp hbit
        · intro hopen'
          exact .inr ((h.bit i).mpr hopen')
    · unfold Present at hk
      rw [hlookup] at hk
      by_cases hi : k = ((findIndex (st.bitmap pid)).1 : ℤ)
      · refine ⟨_, hi, ?_⟩
        rw [hbitmap, findIndex_marked]
        exact .inl rfl
      · rw [if_neg hi] at hk
        obtain ⟨i, hki, hbit⟩ := h.entry k hk
        refine ⟨i, hki, ?_⟩
        rw [hbitmap, findIndex_marked]
        exact .inr hbit

/-- INTERNAL: the number that `alloc_fd` gives is the lowest that is not open, if it fits in an `int`. -/
theorem allocFd_lowest_iff (ops : VfsOps V P N) (h : Books pid st) (path : P) (flags : ℕ) :
    LowestNotOpen st (st.allocFd ops pid path flags).2.backingFd ↔ HasNumber (st.bitmap pid) := by
  obtain ⟨-, -, hbacking, -, -⟩ := allocFd_spec ops st pid path flags
  obtain ⟨hun, hbelow⟩ := findIndex_unmarked (st.bitmap pid)
  rw [hbacking]
  constructor
  · rintro ⟨hnot, hpos, -⟩
    have hlt := toInt_lt (findIndex (st.bitmap pid)).1
    refine ⟨(toInt (findIndex (st.bitmap pid)).1).toNat, by omega, fun hbit => hnot ?_⟩
    have hopen := (h.bit _).mp hbit
    rwa [Int.toNat_of_nonneg hpos] at hopen
  · intro hnumber
    rw [toInt_of_lt ((findIndex_lt_iff _).mpr hnumber)]
    refine ⟨fun hopen => hun ((h.bit _).mpr hopen), Int.natCast_nonneg _, fun i hi hlt => ?_⟩
    have hbit := hbelow i.toNat (by omega)
    have hopen := (h.bit _).mp hbit
    rwa [Int.toNat_of_nonneg hi] at hopen

/-- INTERNAL: when it opens the file, `alloc_fd` keeps the invariant of the induction. -/
theorem allocFd_books (h : Books pid st) {path : P} {flags : ℕ}
    (hopens : opensNode ops st.vfs path flags = true) (hnumber : HasNumber (st.bitmap pid)) :
    Books pid (st.allocFd ops pid path flags).1 := by
  obtain ⟨hlookup, -, hbacking, -, hnode⟩ := allocFd_spec ops st pid path flags
  refine ⟨(allocFd_bookkept_iff ops h path flags).mpr hopens, fun k fd hk => ?_, fun k fd hk => ?_⟩
  · rw [hlookup] at hk
    split at hk
    · cases hk
      rw [hbacking, toInt_of_lt ((findIndex_lt_iff _).mpr hnumber)]
      omega
    · exact h.backing k fd hk
  · rw [hlookup] at hk
    split at hk
    · cases hk
      exact hnode hopens
    · exact h.node k fd hk

/-- INTERNAL: `alloc_fd` opens a number that was not open, if it opens the file. -/
theorem allocFd_opens (h : Books pid st) {path : P} {flags : ℕ}
    (hopens : opensNode ops st.vfs path flags = true) :
    ∃ k, OpenNumber (st.allocFd ops pid path flags).1 k ∧ ¬ OpenNumber st k := by
  obtain ⟨hlookup, -, -, hstatus, -⟩ := allocFd_spec ops st pid path flags
  refine ⟨(findIndex (st.bitmap pid)).1, ⟨_, ?_, hstatus.mpr hopens⟩, fun hopen => ?_⟩
  · rw [hlookup, if_pos rfl]
  · exact (findIndex_unmarked _).1 ((h.bit _).mpr hopen)

/-! ## The calls -/

/-- INTERNAL: a call that chooses no number is only to keep the invariant. -/
theorem booksCall_iff_bookkept (call : NumberCall P) (hcall : ¬ call.Chooses) :
    BooksCall ops pid st call ↔ Bookkept pid (call.run ops pid st).1 :=
  ⟨fun h => h.kept, fun h => ⟨h, fun hchooses => absurd hchooses hcall⟩⟩

/-- INTERNAL: `open`.
SRCLINE: kernel/fs/fd.cpp:143-157 -/
theorem open_books (h : Books pid st) (path : P) (rsi : BitVec 64) :
    (BooksCall ops pid st (.numbers (.openPath path rsi)) ↔
        KeepsBooks ops pid st (.numbers (.openPath path rsi))) ∧
      (KeepsBooks ops pid st (.numbers (.openPath path rsi)) →
        Books pid ((NumberCall.numbers (.openPath path rsi)).run ops pid st).1) := by
  have hkept := allocFd_bookkept_iff ops h path (ofSigned (toInt rsi.toNat))
  have hlowest := allocFd_lowest_iff ops h path (ofSigned (toInt rsi.toNat))
  have hret : opensNode ops st.vfs path (ofSigned (toInt rsi.toNat)) = true →
      ((NumberCall.numbers (.openPath path rsi)).run ops pid st).2 =
        (st.allocFd ops pid path (ofSigned (toInt rsi.toNat))).2.backingFd := by
    intro hopens
    obtain ⟨-, -, -, hstatus, -⟩ :=
      allocFd_spec ops st pid path (ofSigned (toInt rsi.toNat))
    exact if_neg (hstatus.mpr hopens)
  refine ⟨⟨fun hbooks => ?_, fun hcond => ?_⟩, fun hcond => allocFd_books h hcond.1 hcond.2⟩
  · have hopens := hkept.mp hbooks.kept
    refine ⟨hopens, hlowest.mp ?_⟩
    rw [← hret hopens]
    exact hbooks.lowest trivial (.inr (allocFd_opens h hopens))
  · refine ⟨hkept.mpr hcond.1, fun _ _ => ?_⟩
    rw [hret hcond.1]
    exact hlowest.mpr hcond.2

/-- INTERNAL: `close` keeps the bit of the number that it removes.
SRCLINE: kernel/fs/fd.cpp:159-165 -/
theorem close_books (h : Books pid st) (rdi : BitVec 64) :
    (BooksCall ops pid st (.numbers (.close rdi)) ↔ KeepsBooks ops pid st (.numbers (.close rdi))) ∧
      (KeepsBooks ops pid st (.numbers (.close rdi)) →
        Books pid ((NumberCall.numbers (.close rdi)).run ops pid st).1) := by
  rw [booksCall_iff_bookkept (.numbers (.close rdi)) (fun hchooses => hchooses)]
  simp only [NumberCall.run, FdCall.run, FdState.syscallClose, KeepsBooks]
  cases hk : st.fdList.lookup (toInt rdi.toNat) with
  | none =>
    have habsent : ¬ Present st (toInt rdi.toNat) := not_present hk
    rw [translate_absent hk]
    exact ⟨⟨fun hkept => absurd hkept (not_bookkept_absent _), fun hcond => absurd hcond.1 habsent⟩,
      fun hcond => absurd hcond.1 habsent⟩
  | some fd =>
    rw [translate_present h hk]
    have hsame : ¬ Present st (toSigned rdi.toNat) →
        ∀ k, (st.fdList.remove (toSigned rdi.toNat)).lookup k = st.fdList.lookup k := by
      intro habsent k
      rw [LibMap.lookup_remove]
      split
      · rename_i hk'
        rw [hk', lookup_of_not_present habsent]
      · rfl
    refine ⟨⟨fun hkept => ⟨present_of_lookup hk, fun hremoved => ?_⟩, fun hcond => ?_⟩, fun hcond => ?_⟩
    · -- the bit of the number is set, and there is no entry any more
      obtain ⟨i, hi, hbit⟩ := h.entry _ hremoved
      obtain ⟨fd', hfd', -⟩ := (hkept.bit i).mp hbit
      rw [← hi] at hfd'
      simp only [LibMap.lookup_remove, if_true] at hfd'
      cases hfd'
    · exact bookkept_of_eq h.toBookkept rfl (hsame hcond.2)
    · exact h.of_eq rfl (hsame hcond.2)

/-- INTERNAL: `dup`.
SRCLINE: kernel/fs/fd.cpp:185-189 -/
theorem dup_books (h : Books pid st) (rdi : BitVec 64) :
    (BooksCall ops pid st (.numbers (.dup rdi)) ↔ KeepsBooks ops pid st (.numbers (.dup rdi))) ∧
      (KeepsBooks ops pid st (.numbers (.dup rdi)) →
        Books pid ((NumberCall.numbers (.dup rdi)).run ops pid st).1) := by
  cases hk : st.fdList.lookup (toInt rdi.toNat) with
  | none =>
    have hcond : ¬ KeepsBooks ops pid st (.numbers (.dup rdi)) := by
      rintro ⟨⟨fd, node, hfd, -⟩, -⟩
      rw [hk] at hfd
      cases hfd
    refine ⟨⟨fun hbooks => ?_, fun hcond' => absurd hcond' hcond⟩, fun hcond' => absurd hcond' hcond⟩
    have hkept := hbooks.kept
    simp only [NumberCall.run, FdCall.run, FdState.syscallDup, translate_absent hk] at hkept
    exact absurd hkept (not_bookkept_absent _)
  | some fd =>
    obtain ⟨node, hnode⟩ := Option.isSome_iff_exists.mp (h.node _ fd hk)
    have hrun : (NumberCall.numbers (.dup rdi)).run ops pid st =
        ((st.allocFd ops pid (ops.absolutePath st.vfs node)
            (ofSigned (toInt (st.cell fd.flags)))).1,
          (st.allocFd ops pid (ops.absolutePath st.vfs node)
            (ofSigned (toInt (st.cell fd.flags)))).2.backingFd) := by
      simp only [NumberCall.run, FdCall.run, FdState.syscallDup, translate_present h hk, hnode]
    have hcond : KeepsBooks ops pid st (.numbers (.dup rdi)) ↔
        opensNode ops st.vfs (ops.absolutePath st.vfs node) (ofSigned (toInt (st.cell fd.flags))) =
          true ∧ HasNumber (st.bitmap pid) := by
      constructor
      · rintro ⟨⟨fd', node', hfd', hnode', hopens⟩, hnumber⟩
        rw [hk] at hfd'
        cases hfd'
        rw [hnode] at hnode'
        cases hnode'
        exact ⟨hopens, hnumber⟩
      · rintro ⟨hopens, hnumber⟩
        exact ⟨⟨fd, node, hk, hnode, hopens⟩, hnumber⟩
    rw [hcond, hrun]
    have hkept := allocFd_bookkept_iff ops h (ops.absolutePath st.vfs node)
      (ofSigned (toInt (st.cell fd.flags)))
    have hlowest := allocFd_lowest_iff ops h (ops.absolutePath st.vfs node)
      (ofSigned (toInt (st.cell fd.flags)))
    refine ⟨⟨fun hbooks => ?_, fun hcond => ?_⟩, fun hcond => allocFd_books h hcond.1 hcond.2⟩
    · have hkept' := hbooks.kept
      have hlowest' := hbooks.lowest trivial
      unfold Succeeds at hlowest'
      rw [hrun] at hkept' hlowest'
      have hopens := hkept.mp hkept'
      exact ⟨hopens, hlowest.mp (hlowest' (.inr (allocFd_opens h hopens)))⟩
    · refine ⟨?_, fun _ _ => ?_⟩
      · rw [hrun]
        exact hkept.mpr hcond.1
      · rw [hrun]
        exact hlowest.mpr hcond.2

/-- INTERNAL: `dup2` to a number without an entry enters a descriptor without a bit.
SRCLINE: kernel/fs/fd.cpp:196-203 -/
theorem dup2_new_number (h : Books pid st) {rsi : ℕ} (hk : st.fdList.lookup (toInt rsi) = none)
    (fd : Fd N) :
    ¬ Bookkept pid { st with
      fdList := (st.fdList.set (toInt rsi) Fd.default).set (toSigned rsi) fd } := by
  intro hkept
  have hentered := (LibMap.lookup_set (st.fdList.set (toInt rsi) Fd.default) (toSigned rsi)
    (toSigned rsi) fd).trans (if_pos rfl)
  obtain ⟨i, hi, hbit⟩ := (present_iff_marked hkept (toSigned rsi)).mp (present_of_lookup hentered)
  have hpresent := (present_iff_marked h.toBookkept (toSigned rsi)).mpr ⟨i, hi, hbit⟩
  have hne : toInt rsi ≠ toSigned rsi := by
    intro hsame
    rw [← hsame] at hpresent
    exact not_present hk hpresent
  -- so the closed descriptor that `translate` entered is still there
  have hclosed : ((st.fdList.set (toInt rsi) Fd.default).set (toSigned rsi) fd).lookup (toInt rsi) =
      some Fd.default := by
    rw [LibMap.lookup_set, if_neg hne, LibMap.lookup_set, if_pos rfl]
  exact entry_status_ne hkept hclosed rfl

/-- INTERNAL: `dup2` to a number with an entry keeps the invariant exactly when the number that it
changes is one, too.
SRCLINE: kernel/fs/fd.cpp:196-203 -/
theorem dup2_old_number (h : Books pid st) {k m : ℤ} {fd : Fd N} (hk : st.fdList.lookup k = some fd) :
    (Bookkept pid { st with fdList := (st.fdList.remove m).set m fd } ↔ Present st m) ∧
      (Present st m → Books pid { st with fdList := (st.fdList.remove m).set m fd }) := by
  have hlookup : ∀ j, ((st.fdList.remove m).set m fd).lookup j =
      if j = m then some fd else st.fdList.lookup j := by
    intro j
    rw [LibMap.lookup_set]
    split
    · rfl
    · rename_i hj
      rw [LibMap.lookup_remove, if_neg hj]
  have hreplaced : Present st m →
      Bookkept pid { st with fdList := (st.fdList.remove m).set m fd } := fun hm =>
    replaced_bookkept h.toBookkept rfl (entry_status_ne h.toBookkept hk) hm hlookup
  refine ⟨⟨fun hkept => ?_, hreplaced⟩, fun hm => ⟨hreplaced hm, fun j fd' hfd => ?_,
    fun j fd' hfd => ?_⟩⟩
  · obtain ⟨i, hi, hbit⟩ := (present_iff_marked hkept m).mp
      (present_of_lookup ((hlookup m).trans (if_pos rfl)))
    exact (present_iff_marked h.toBookkept m).mpr ⟨i, hi, hbit⟩
  · rw [hlookup] at hfd
    split at hfd
    · cases hfd
      exact h.backing k fd hk
    · exact h.backing j fd' hfd
  · rw [hlookup] at hfd
    split at hfd
    · cases hfd
      exact h.node k fd hk
    · exact h.node j fd' hfd

/-- INTERNAL: `dup2` sets no bit, so that it has to replace an entry.
SRCLINE: kernel/fs/fd.cpp:191-204 -/
theorem dup2_books (h : Books pid st) (rdi rsi : BitVec 64) :
    (BooksCall ops pid st (.numbers (.dup2 rdi rsi)) ↔
        KeepsBooks ops pid st (.numbers (.dup2 rdi rsi))) ∧
      (KeepsBooks ops pid st (.numbers (.dup2 rdi rsi)) →
        Books pid ((NumberCall.numbers (.dup2 rdi rsi)).run ops pid st).1) := by
  rw [booksCall_iff_bookkept (.numbers (.dup2 rdi rsi)) (fun hchooses => hchooses)]
  by_cases heq : rdi = rsi
  · subst heq
    have hrun : ((NumberCall.numbers (.dup2 rdi rdi)).run ops pid st).1 = st := by
      simp only [NumberCall.run, FdCall.run, FdState.syscallDup2, if_true]
    rw [hrun]
    exact ⟨⟨fun _ => .inl rfl, fun _ => h.toBookkept⟩, fun _ => h⟩
  have hne : ¬ rdi.toNat = rsi.toNat := fun hsame => heq (BitVec.eq_of_toNat_eq hsame)
  have hcond : KeepsBooks ops pid st (.numbers (.dup2 rdi rsi)) ↔ Present st (toInt rdi.toNat) ∧
      Present st (toInt rsi.toNat) ∧ Present st (toSigned rsi.toNat) :=
    ⟨fun hcond => hcond.resolve_left heq, .inr⟩
  rw [hcond]
  cases hk : st.fdList.lookup (toInt rdi.toNat) with
  | none =>
    have hrun : ((NumberCall.numbers (.dup2 rdi rsi)).run ops pid st).1 =
        { st with fdList := st.fdList.set (toInt rdi.toNat) Fd.default } := by
      simp only [NumberCall.run, FdCall.run, FdState.syscallDup2, if_neg hne, translate_absent hk]
    rw [hrun]
    exact ⟨⟨fun hkept => absurd hkept (not_bookkept_absent _),
      fun hcond => absurd hcond.1 (not_present hk)⟩, fun hcond => absurd hcond.1 (not_present hk)⟩
  | some fd =>
    cases hk' : st.fdList.lookup (toInt rsi.toNat) with
    | none =>
      have hrun : ((NumberCall.numbers (.dup2 rdi rsi)).run ops pid st).1 =
          { st with fdList :=
            (st.fdList.set (toInt rsi.toNat) Fd.default).set (toSigned rsi.toNat) fd } := by
        simp only [NumberCall.run, FdCall.run, FdState.syscallDup2, if_neg hne,
          translate_present h hk, translate_absent hk']
      rw [hrun]
      exact ⟨⟨fun hkept => absurd hkept (dup2_new_number h hk' fd),
        fun hcond => absurd hcond.2.1 (not_present hk')⟩,
        fun hcond => absurd hcond.2.1 (not_present hk')⟩
    | some fd' =>
      have hrun : ((NumberCall.numbers (.dup2 rdi rsi)).run ops pid st).1 =
          { st with fdList :=
            (st.fdList.remove (toSigned rsi.toNat)).set (toSigned rsi.toNat) fd } := by
        simp only [NumberCall.run, FdCall.run, FdState.syscallDup2, if_neg hne,
          translate_present h hk, translate_present h hk']
      obtain ⟨hiff, hbooks⟩ := dup2_old_number h (m := toSigned rsi.toNat) hk
      rw [hrun, hiff]
      exact ⟨⟨fun hm => ⟨present_of_lookup hk, present_of_lookup hk', hm⟩, fun hcond => hcond.2.2⟩,
        fun hcond => hbooks hcond.2.2⟩

/-- INTERNAL: `read`, `write` and `seek` change neither the entries nor the bitmap, once the number is
found.
SRCLINE: kernel/fs/fd.cpp:167-183 -/
theorem transfer_books (h : Books pid st) (call : NumberCall P) {rdi : BitVec 64}
    (hchooses : ¬ call.Chooses)
    (hcond : KeepsBooks ops pid st call ↔ Present st (toInt rdi.toNat))
    (hnone : st.fdList.lookup (toInt rdi.toNat) = none →
      (call.run ops pid st).1 = (st.translate (toInt rdi.toNat)).1)
    (hsome : ∀ fd, st.fdList.lookup (toInt rdi.toNat) = some fd →
      (call.run ops pid st).1.bitmap = st.bitmap ∧ (call.run ops pid st).1.fdList = st.fdList) :
    (BooksCall ops pid st call ↔ KeepsBooks ops pid st call) ∧
      (KeepsBooks ops pid st call → Books pid (call.run ops pid st).1) := by
  rw [booksCall_iff_bookkept call hchooses, hcond]
  cases hk : st.fdList.lookup (toInt rdi.toNat) with
  | none =>
    have habsent : ¬ Present st (toInt rdi.toNat) := not_present hk
    rw [hnone hk, translate_absent hk]
    exact ⟨⟨fun hkept => absurd hkept (not_bookkept_absent _), fun hcond => absurd hcond habsent⟩,
      fun hcond => absurd hcond habsent⟩
  | some fd =>
    obtain ⟨hbitmap, hlist⟩ := hsome fd hk
    have hlookup : ∀ k, (call.run ops pid st).1.fdList.lookup k = st.fdList.lookup k := by
      intro k
      rw [hlist]
    exact ⟨⟨fun _ => present_of_lookup hk, fun _ => bookkept_of_eq h.toBookkept hbitmap hlookup⟩,
      fun _ => h.of_eq hbitmap hlookup⟩

/-- INTERNAL: `fd::read` and `fd::write` change neither the entries nor the bitmaps.
SRCLINE: kernel/fs/fd.cpp:94-122 -/
theorem fdRead_frame (st : FdState V N) (fd : Fd N) (buf cnt : ℕ) :
    (st.fdRead ops fd buf cnt).1.bitmap = st.bitmap ∧
      (st.fdRead ops fd buf cnt).1.fdList = st.fdList := by
  unfold FdState.fdRead
  cases fd.vfsNode with
  | none => exact ⟨rfl, rfl⟩
  | some node =>
    simp only
    split <;> exact ⟨rfl, rfl⟩

theorem fdWrite_frame (st : FdState V N) (fd : Fd N) (buf cnt : ℕ) :
    (st.fdWrite ops fd buf cnt).1.bitmap = st.bitmap ∧
      (st.fdWrite ops fd buf cnt).1.fdList = st.fdList := by
  unfold FdState.fdWrite
  cases fd.vfsNode with
  | none => exact ⟨rfl, rfl⟩
  | some node =>
    simp only
    split <;> exact ⟨rfl, rfl⟩

/-- **One call keeps the books exactly when it meets the condition**, and then the invariant of the
induction holds after it. -/
theorem call_books (ops : VfsOps V P N) (h : Books pid st) (call : NumberCall P) :
    (BooksCall ops pid st call ↔ KeepsBooks ops pid st call) ∧
      (KeepsBooks ops pid st call → Books pid (call.run ops pid st).1) := by
  cases call with
  | numbers call =>
    cases call with
    | openPath path rsi => exact open_books h path rsi
    | close rdi => exact close_books h rdi
    | dup rdi => exact dup_books h rdi
    | dup2 rdi rsi => exact dup2_books h rdi rsi
  | read rdi rsi rdx =>
    apply transfer_books h (.read rdi rsi rdx) (fun hchooses => hchooses) Iff.rfl
    · intro hk
      simp only [NumberCall.run, FdState.syscallRead, translate_absent hk]
    · intro fd hk
      simp only [NumberCall.run, FdState.syscallRead, translate_present h hk]
      exact fdRead_frame st fd _ _
  | write rdi rsi rdx =>
    apply transfer_books h (.write rdi rsi rdx) (fun hchooses => hchooses) Iff.rfl
    · intro hk
      simp only [NumberCall.run, FdState.syscallWrite, translate_absent hk]
    · intro fd hk
      simp only [NumberCall.run, FdState.syscallWrite, translate_present h hk]
      exact fdWrite_frame st fd _ _
  | seek rdi rsi rdx =>
    apply transfer_books h (.seek rdi rsi rdx) (fun hchooses => hchooses) Iff.rfl
    · intro hk
      simp only [NumberCall.run, FdState.syscallSeek, translate_absent hk]
    · intro fd hk
      simp only [NumberCall.run, FdState.syscallSeek, translate_present h hk]
      exact fdWrite_frame st fd _ _

/-! ## The sequence of calls -/

/-- INTERNAL: from a state that satisfies the invariant of the induction. -/
theorem everyCall_books_iff (h : Books pid st) (calls : List (NumberCall P)) :
    EveryCall ops pid (BooksCall ops pid) st calls ↔
      EveryCall ops pid (KeepsBooks ops pid) st calls := by
  induction calls generalizing st with
  | nil => exact Iff.rfl
  | cons call rest ih =>
    obtain ⟨hiff, hnext⟩ := call_books ops h call
    unfold EveryCall
    rw [hiff]
    exact and_congr_right fun hcond => ih (hnext hcond)

/-- INTERNAL: without descriptors the books are kept. -/
theorem noNumbers_books (h : NoNumbers pid st) : Books pid st := by
  have hnone : ∀ k (fd : Fd N), st.fdList.lookup k ≠ some fd := by
    intro k fd hk
    rw [h.entries k] at hk
    cases hk
  refine ⟨⟨fun i => ?_, fun k hk => ?_⟩, fun k fd hk => ?_, fun k fd hk => ?_⟩
  · exact ⟨fun hbit => absurd hbit (h.bits i), fun ⟨fd, hfd, _⟩ => absurd hfd (hnone i fd)⟩
  · exact absurd hk (not_present (h.entries k))
  · exact absurd hk (hnone k fd)
  · exact absurd hk (hnone k fd)

end CrepOS.Analysis
