import CrepOS.Interface.FdRun

/-!
# Isolation of descriptors

Every call stores or removes at most one entry of the shared `fd_list`, writes only cells that it has
just obtained and, if the file system does not fail, deletes no node. `Touches` says this once for a
call and the number it may change; the lemmas for the four calls name that number. Isolation follows: a
number held by another task is not the number that is changed, its cell is an old one and its node stays.

Without the condition there is no isolation: the first `open` of two tasks returns the same number, and
the second replaces the entry of the first (`open_takes_other_descriptor`).
-/

set_option autoImplicit false

namespace CrepOS.Analysis

open CrepOS.Library CrepOS.Model CrepOS.Interface

variable {V P N : Type} {ops : VfsOps V P N} {alive : V → N → Bool}

/-! ## The number that `alloc_fd` chooses -/

/-- INTERNAL: the loop of `find_index` stops at the first clear bit.
SRCLINE: kernel/fs/fd.cpp:25-30 -/
theorem findClear_spec (bits : ℕ → Bool) (i n : ℕ) (hbefore : ∀ j < i, bits j = true) :
    (∀ k, findClear bits i n = some k → k < i + n ∧ (∀ j < k, bits j = true) ∧ bits k = false) ∧
      (findClear bits i n = none → ∀ j < i + n, bits j = true) := by
  induction n generalizing i with
  | zero =>
    exact ⟨fun k hk => (nomatch hk), fun _ j hj => hbefore j (by omega)⟩
  | succ n ih =>
    rw [findClear]
    by_cases hbit : bits i = true
    · rw [if_pos hbit]
      have hbefore' : ∀ j < i + 1, bits j = true := by
        intro j hj
        by_cases hji : j = i
        · rw [hji]
          exact hbit
        · exact hbefore j (by omega)
      have hrec := ih (i + 1) hbefore'
      rw [show i + 1 + n = i + (n + 1) by omega] at hrec
      exact hrec
    · rw [if_neg hbit]
      refine ⟨?_, fun hneg => nomatch hneg⟩
      intro k hk
      obtain rfl := Option.some.inj hk
      exact ⟨by omega, hbefore, Bool.eq_false_iff.mpr hbit⟩

/-- INTERNAL: `find_index` chooses the lowest clear bit.
SRCLINE: kernel/fs/fd.cpp:23-39 -/
theorem findIndex_lowest (b : FdBitmap) : LowestClear b (findIndex b).1 := by
  have hspec := findClear_spec b.bits 0 b.size fun j hj => absurd hj (Nat.not_lt_zero j)
  rw [Nat.zero_add] at hspec
  unfold findIndex
  split
  · rename_i i hfound
    obtain ⟨hlt, hbelow, hclear⟩ := hspec.1 i hfound
    exact ⟨Nat.le_of_lt hlt, hbelow, fun _ => hclear⟩
  · rename_i hnone
    have hfull := hspec.2 hnone
    have hgrown := findClear_spec (fun i => if i < b.size then b.bits i else false) 0 (b.size + 0x1000)
      fun j hj => absurd hj (Nat.not_lt_zero j)
    rw [Nat.zero_add] at hgrown
    simp only
    split
    · rename_i i hfound
      obtain ⟨-, hbelow, hclear⟩ := hgrown.1 i hfound
      -- the old bits are set and the first new one is clear
      have heq : i = b.size := by
        rcases Nat.lt_trichotomy i b.size with hlt | heq | hgt
        · rw [if_pos hlt, hfull i hlt] at hclear
          cases hclear
        · exact heq
        · have hsize := hbelow b.size hgt
          rw [if_neg (Nat.lt_irrefl _)] at hsize
          cases hsize
      subst heq
      exact ⟨Nat.le_refl _, hfull, fun hneg => absurd hneg (Nat.lt_irrefl _)⟩
    · rename_i hnone'
      have hbit := hgrown.2 hnone' b.size (by omega)
      rw [if_neg (Nat.lt_irrefl _)] at hbit
      cases hbit

/-! ## What a call changes -/

/-- INTERNAL: an entry points to a cell that is in use, if it is open. -/
def CellsInUse (st : FdState V N) : Prop :=
  ∀ n, (st.fdList.get n Fd.default).status ≠ 0 → (st.fdList.get n Fd.default).loc < st.cells

/-- Between two states, only the entry of the number `k` may have changed, if `k` is one, and no cell in
use. -/
structure Touches (alive : V → N → Bool) (k : Option ℤ) (st st' : FdState V N) : Prop where
  entry : ∀ n, some n ≠ k → st'.fdList.get n Fd.default = st.fdList.get n Fd.default
  cell : ∀ c < st.cells, st'.cell c = st.cell c
  cells : st.cells ≤ st'.cells
  node : ∀ m, alive st.vfs m = true → alive st'.vfs m = true
  inUse : CellsInUse st → CellsInUse st'

theorem Touches.refl (k : Option ℤ) (st : FdState V N) : Touches alive k st st where
  entry _ _ := rfl
  cell _ _ := rfl
  cells := Nat.le_refl _
  node _ h := h
  inUse h := h

theorem Touches.trans {k : Option ℤ} {st st' st'' : FdState V N} (h : Touches alive k st st')
    (h' : Touches alive k st' st'') : Touches alive k st st'' where
  entry n hn := (h'.entry n hn).trans (h.entry n hn)
  cell c hc := (h'.cell c (Nat.lt_of_lt_of_le hc h.cells)).trans (h.cell c hc)
  cells := Nat.le_trans h.cells h'.cells
  node m hm := h'.node m (h.node m hm)
  inUse hst := h'.inUse (h.inUse hst)

/-- INTERNAL: `translate` changes no entry.
SRCLINE: kernel/fs/fd.cpp:44-56 -/
theorem translate_touches (k : Option ℤ) (index : ℤ) (st : FdState V N) :
    Touches alive k st (st.translate index).1 where
  entry n _ := LibMap.get_touch _ _ _ _
  cell _ _ := rfl
  cells := Nat.le_refl _
  node _ h := h
  inUse h n := by
    show ((st.fdList.touch index Fd.default).get n Fd.default).status ≠ 0 →
      ((st.fdList.touch index Fd.default).get n Fd.default).loc < st.cells
    rw [LibMap.get_touch]
    exact h n

/-- INTERNAL: a translated entry is open. -/
theorem translate_some {st : FdState V N} {index : ℤ} {fd : Fd N}
    (h : (st.translate index).2 = some fd) :
    st.fdList.get index Fd.default = fd ∧ fd.status ≠ 0 := by
  unfold FdState.translate at h
  simp only at h
  split at h
  · cases h
  · rename_i hvalid
    obtain rfl := Option.some.inj h
    exact ⟨rfl, (not_or.mp hvalid).2⟩

/-- INTERNAL: replacing or removing the entry `k`. -/
theorem entry_touches (k : ℤ) (st : FdState V N) (fdList : LibMap ℤ (Fd N))
    (hother : ∀ n, n ≠ k → fdList.get n Fd.default = st.fdList.get n Fd.default)
    (hcell : CellsInUse st → (fdList.get k Fd.default).status ≠ 0 →
      (fdList.get k Fd.default).loc < st.cells) :
    Touches alive (some k) st { st with fdList := fdList } where
  entry n hn := hother n fun heq => hn (congrArg some heq)
  cell _ _ := rfl
  cells := Nat.le_refl _
  node _ h := h
  inUse h n hopen := by
    show (fdList.get n Fd.default).loc < st.cells
    by_cases hn : n = k
    · subst hn
      exact hcell h hopen
    · have hold : (st.fdList.get n Fd.default).status ≠ 0 := by
        rw [← hother n hn]
        exact hopen
      rw [hother n hn]
      exact h n hold

/-- INTERNAL: `openNode` deletes no node unless the file system fails.
SRCLINE: kernel/fs/fd.cpp:59-83 -/
theorem openNode_alive (hops : KeepsNodes ops alive) {vfs : V} {path : P} {flags : ℕ}
    (hopen : ¬ FsOpenFails ops vfs path flags) {m : N} (hm : alive vfs m = true) :
    alive (openNode ops vfs path flags).1 m = true := by
  unfold FsOpenFails at hopen
  unfold openNode
  split
  · rename_i node hfound
    simp only [hfound] at hopen
    simp only
    rw [if_neg hopen]
    exact hops.fsOpen vfs node flags m hm
  · rename_i hnone
    simp only [hnone] at hopen
    split
    · rename_i hcreat
      have hcreated := hops.create vfs path m hm
      simp only
      split
      · exact hcreated
      · rename_i node hfound
        simp only [hfound, not_and] at hopen
        simp only
        rw [if_neg (hopen hcreat)]
        exact hops.fsOpen _ node flags m hcreated
    · exact hm

/-- INTERNAL: the constructor of `fd` writes new cells only.
SRCLINE: kernel/fs/fd.cpp:58-92 -/
theorem construct_touches (hops : KeepsNodes ops alive) (k : Option ℤ) (st : FdState V N) {path : P}
    {flags : ℕ} (backingFd : ℤ) (hopen : ¬ FsOpenFails ops st.vfs path flags) :
    Touches alive k st (st.construct ops path flags backingFd).1 ∧
      ((st.construct ops path flags backingFd).2.status ≠ 0 →
        (st.construct ops path flags backingFd).2.loc <
          (st.construct ops path flags backingFd).1.cells) := by
  have hnode := fun m hm => openNode_alive (m := m) hops hopen hm
  unfold FdState.construct
  generalize openNode ops st.vfs path flags = opened at hnode
  obtain ⟨vfs, node, ret⟩ := opened
  simp only
  split
  · refine ⟨⟨fun _ _ => rfl, fun _ _ => rfl, Nat.le_refl _, hnode, fun h => h⟩, ?_⟩
    intro hneg
    exact absurd rfl hneg
  · refine ⟨⟨fun _ _ => rfl, ?_, ?_, hnode, ?_⟩, ?_⟩
    · intro c hc
      show Function.update (Function.update st.cell st.cells 0) (st.cells + 1) 0 c = st.cell c
      rw [Function.update_of_ne (by omega), Function.update_of_ne (by omega)]
    · show st.cells ≤ st.cells + 1 + 1
      omega
    · intro h n hn
      have hlt := h n hn
      show (st.fdList.get n Fd.default).loc < st.cells + 1 + 1
      omega
    · intro _
      show st.cells < st.cells + 1 + 1
      omega

/-- INTERNAL: `alloc_fd` changes the entry of the lowest clear bit.
SRCLINE: kernel/fs/fd.cpp:19-42 -/
theorem allocFd_touches (hops : KeepsNodes ops alive) (st : FdState V N) (pid : ℤ) {path : P}
    {flags : ℕ} (hopen : ¬ FsOpenFails ops st.vfs path flags) :
    Touches alive (some (findIndex (st.bitmap pid)).1) st (st.allocFd ops pid path flags).1 := by
  unfold FdState.allocFd
  generalize findIndex (st.bitmap pid) = found
  obtain ⟨index, bitmap⟩ := found
  simp only
  have hmarked : Touches alive (some (index : ℤ)) st
      { st with bitmap := Function.update st.bitmap pid bitmap } :=
    ⟨fun _ _ => rfl, fun _ _ => rfl, Nat.le_refl _, fun _ h => h, fun h => h⟩
  obtain ⟨hconstruct, hloc⟩ := construct_touches hops (some (index : ℤ))
    { st with bitmap := Function.update st.bitmap pid bitmap } (toInt index) hopen
  refine (hmarked.trans hconstruct).trans (entry_touches _ _ _ ?_ ?_)
  · intro n hn
    rw [LibMap.get_set, if_neg hn]
  · intro _
    rw [LibMap.get_set, if_pos rfl]
    exact hloc

/-! ## The calls -/

/-- INTERNAL: under the condition, the changed number is held by no other task. -/
def ChangesOwn (alive : V → N → Bool) (st : FdSystem V N) (pid : ℤ) (code : FdState V N) : Prop :=
  ∃ k, (∀ h ∈ st.held, h.1 ≠ pid → some h.2 ≠ k) ∧ Touches alive k st.code code

/-- INTERNAL: a call that changes no entry. -/
theorem changesOwn_none {st : FdSystem V N} {pid : ℤ} {code : FdState V N}
    (h : Touches alive none st.code code) : ChangesOwn alive st pid code :=
  ⟨none, fun _ _ _ => Option.some_ne_none _, h⟩

/-- INTERNAL: a call that changes the entry `k`, which the others do not hold. -/
theorem changesOwn_some {st : FdSystem V N} {pid : ℤ} {code : FdState V N} {k : ℤ}
    (hlack : st.OthersLack pid k) (h : Touches alive (some k) st.code code) :
    ChangesOwn alive st pid code :=
  ⟨some k, fun entry hentry hpid heq => hlack entry hentry hpid (Option.some.inj heq), h⟩

/-- INTERNAL: a call of `alloc_fd` under the condition, after a `translate`. -/
theorem allocFd_changesOwn (hops : KeepsNodes ops alive) {st : FdSystem V N} {pid : ℤ} {path : P}
    {flags : ℕ} {code : FdState V N} (hcode : ∀ k, Touches alive k st.code code)
    (hbitmap : code.bitmap = st.code.bitmap) (hvfs : code.vfs = st.code.vfs)
    (h : st.AllocApart ops pid path flags) :
    ChangesOwn alive st pid (code.allocFd ops pid path flags).1 := by
  obtain ⟨hnumber, hopen⟩ := h
  refine changesOwn_some ?_ ((hcode _).trans (allocFd_touches hops code pid ?_))
  · rintro entry hentry hpid hnum
    refine hnumber entry hentry hpid ?_
    rw [hnum]
    refine ⟨Int.natCast_nonneg _, ?_⟩
    rw [Int.toNat_natCast, ← hbitmap]
    exact findIndex_lowest _
  · rw [hvfs]
    exact hopen

/-- INTERNAL: `syscall_close`.
SRCLINE: kernel/fs/fd.cpp:159-165 -/
theorem close_changesOwn {st : FdSystem V N} {pid : ℤ} {rdi : ℕ}
    (h : (st.code.translate (toInt rdi)).2.isSome → st.OthersLack pid (toSigned rdi)) :
    ChangesOwn alive st pid (st.code.syscallClose rdi).1 := by
  have htranslate := fun k => @translate_touches _ _ alive k (toInt rdi) st.code
  unfold FdState.syscallClose
  generalize st.code.translate (toInt rdi) = translated at htranslate h
  obtain ⟨code, fd⟩ := translated
  cases fd with
  | none => exact changesOwn_none (htranslate _)
  | some fd =>
    refine changesOwn_some (h rfl) ((htranslate _).trans (entry_touches _ _ _ ?_ ?_))
    · intro n hn
      rw [LibMap.get_remove, if_neg hn]
    · rw [LibMap.get_remove, if_pos rfl]
      intro _ hneg
      exact absurd rfl hneg

/-- INTERNAL: `syscall_dup`.
SRCLINE: kernel/fs/fd.cpp:185-189 -/
theorem dup_changesOwn (hops : KeepsNodes ops alive) {st : FdSystem V N} {pid : ℤ} {rdi : ℕ}
    (h : st.DupApart ops pid (st.code.translate (toInt rdi)).2) :
    ChangesOwn alive st pid (st.code.syscallDup ops pid rdi).1 := by
  have htranslate := fun k => @translate_touches _ _ alive k (toInt rdi) st.code
  have hbitmap : (st.code.translate (toInt rdi)).1.bitmap = st.code.bitmap := rfl
  have hvfs : (st.code.translate (toInt rdi)).1.vfs = st.code.vfs := rfl
  have hcell : (st.code.translate (toInt rdi)).1.cell = st.code.cell := rfl
  unfold FdState.syscallDup
  generalize st.code.translate (toInt rdi) = translated at htranslate h hbitmap hvfs hcell
  obtain ⟨code, fd⟩ := translated
  match fd with
  | none => exact changesOwn_none (htranslate _)
  | some ⟨_, _, _, _, none⟩ => exact changesOwn_none (htranslate _)
  | some ⟨_, _, _, flags, some node⟩ =>
    simp only at hvfs hcell ⊢
    rw [hvfs, hcell]
    exact allocFd_changesOwn hops htranslate hbitmap hvfs h

/-- INTERNAL: `syscall_dup2`.
SRCLINE: kernel/fs/fd.cpp:191-204 -/
theorem dup2_changesOwn {st : FdSystem V N} {pid : ℤ} {rdi rsi : ℕ}
    (h : rdi ≠ rsi → (st.code.translate (toInt rdi)).2.isSome → st.OthersLack pid (toSigned rsi)) :
    ChangesOwn alive st pid (st.code.syscallDup2 rdi rsi).1 := by
  unfold FdState.syscallDup2
  split
  · exact changesOwn_none (Touches.refl _ _)
  · rename_i hne
    have hlack := h hne
    have hold := fun k => @translate_touches _ _ alive k (toInt rdi) st.code
    have hentry := fun fd => @translate_some _ _ st.code (toInt rdi) fd
    generalize st.code.translate (toInt rdi) = translated at hold hlack hentry
    obtain ⟨code, fd⟩ := translated
    cases fd with
    | none => exact changesOwn_none (hold _)
    | some fd =>
      obtain ⟨hfd, hstatus⟩ := hentry fd rfl
      have hnew := fun k => @translate_touches _ _ alive k (toInt rsi) code
      simp only
      generalize code.translate (toInt rsi) = translated at hnew
      obtain ⟨code', fd'⟩ := translated
      -- the entry that is copied is still there, so its cell is in use
      have hkept : code'.fdList.get (toInt rdi) Fd.default = fd := by
        rw [(hnew none).entry _ (Option.some_ne_none _), (hold none).entry _ (Option.some_ne_none _)]
        exact hfd
      have hloc : CellsInUse code' → fd.loc < code'.cells := by
        intro hcode
        have hlt := hcode (toInt rdi)
        rw [hkept] at hlt
        exact hlt hstatus
      cases fd' with
      | none =>
        refine changesOwn_some (hlack rfl)
          (((hold _).trans (hnew _)).trans (entry_touches _ _ _ ?_ ?_))
        · intro n hn
          rw [LibMap.get_set, if_neg hn]
        · intro hcode _
          rw [LibMap.get_set, if_pos rfl]
          exact hloc hcode
      | some _ =>
        refine changesOwn_some (hlack rfl)
          (((hold _).trans (hnew _)).trans (entry_touches _ _ _ ?_ ?_))
        · intro n hn
          rw [LibMap.get_set, if_neg hn, LibMap.get_remove, if_neg hn]
        · intro hcode _
          rw [LibMap.get_set, if_pos rfl]
          exact hloc hcode

/-- INTERNAL: under the condition, every call changes only what other tasks do not hold. -/
theorem run_changesOwn (hops : KeepsNodes ops alive) {st : FdSystem V N} {pid : ℤ} {call : FdCall P}
    (h : st.Apart ops (pid, call)) : ChangesOwn alive st pid (call.run ops pid st.code).1 := by
  cases call with
  | openPath path rsi =>
    exact allocFd_changesOwn hops (fun k => Touches.refl k st.code) rfl rfl h
  | close rdi => exact close_changesOwn h
  | dup rdi => exact dup_changesOwn hops h
  | dup2 rdi rsi =>
    refine dup2_changesOwn fun hne => h ?_
    rintro rfl
    exact hne rfl

/-! ## Runs -/

/-- INTERNAL: what the entry of a number denotes depends on the entry, its cell and its node. -/
theorem denotes_of_touches {k : Option ℤ} {st st' : FdState V N} (h : Touches alive k st st')
    (huse : CellsInUse st) {n : ℤ} (hn : some n ≠ k) (hsome : (denotes alive st n).isSome) :
    denotes alive st' n = denotes alive st n := by
  unfold denotes at hsome ⊢
  simp only at hsome ⊢
  rw [h.entry n hn]
  have hloc := huse n
  generalize st.fdList.get n Fd.default = fd at hsome hloc
  by_cases hclosed : fd.backingFd = -1 ∨ fd.status = 0
  · rw [if_pos hclosed, if_pos hclosed]
  · rw [if_neg hclosed] at hsome ⊢
    rw [if_neg hclosed]
    cases hnode : fd.vfsNode with
    | none => rfl
    | some node =>
      rw [hnode] at hsome
      by_cases halive : alive st.vfs node = true
      · simp only [halive, h.node node halive, if_true]
        rw [h.cell fd.loc (hloc (not_or.mp hclosed).2)]
      · simp [halive] at hsome

/-- INTERNAL: the invariant: held numbers denote something. -/
structure HeldDenote (alive : V → N → Bool) (st : FdSystem V N) : Prop where
  inUse : CellsInUse st.code
  denote : ∀ h ∈ st.held, (denotes alive st.code h.2).isSome

/-- INTERNAL: one call keeps the invariant, and what the others hold. -/
theorem HeldDenote.step (hops : KeepsNodes ops alive) {st st' : FdSystem V N} {op : ℤ × FdCall P}
    (h : HeldDenote alive st) (hstep : fdStep ops alive st op st') :
    HeldDenote alive st' ∧ ∀ entry ∈ st.held, entry.1 ≠ op.1 →
      denotes alive st'.code entry.2 = denotes alive st.code entry.2 ∧ entry ∈ st'.held := by
  obtain ⟨hapart, hexec⟩ := hstep
  obtain ⟨pid, call⟩ := op
  obtain rfl := Option.some.inj hexec
  obtain ⟨k, hlack, htouches⟩ := run_changesOwn hops hapart
  have hothers : ∀ entry ∈ st.held, entry.1 ≠ pid →
      denotes alive (call.run ops pid st.code).1 entry.2 = denotes alive st.code entry.2 :=
    fun entry hentry hpid =>
      denotes_of_touches htouches h.inUse (hlack entry hentry hpid) (h.denote entry hentry)
  refine ⟨⟨htouches.inUse h.inUse, ?_⟩, ?_⟩
  · intro entry hentry
    obtain ⟨hmem, hkept⟩ := List.mem_filter.mp hentry
    rcases of_decide_eq_true hkept with hpid | hdenotes
    · -- held before by another task: nothing that the caller gains is
      rcases List.mem_append.mp hmem with hold | hgained
      · show (denotes alive (call.run ops pid st.code).1 entry.2).isSome
        rw [hothers entry hold hpid]
        exact h.denote entry hold
      · obtain ⟨n, -, rfl⟩ := List.mem_map.mp hgained
        exact absurd rfl hpid
    · exact hdenotes
  · intro entry hentry hpid
    exact ⟨hothers entry hentry hpid, List.mem_filter.mpr
      ⟨List.mem_append_left _ hentry, decide_eq_true (Or.inl hpid)⟩⟩

theorem HeldDenote.initial {st : FdSystem V N} (h : st.Initial) : HeldDenote alive st where
  inUse n hopen := by
    rw [h.1 n] at hopen
    exact absurd rfl hopen
  denote entry hentry := by
    rw [h.2] at hentry
    cases hentry

/-- INTERNAL: a file system in which every path has a node. -/
def allFiles : VfsOps Unit ℕ ℕ where
  searchAbsolute _ path := some path
  create v _ := v
  remove v _ := v
  absolutePath _ node := node
  stSize _ _ := 0
  fsOpen v _ _ := (v, 0)
  fsRead v _ _ _ := (v, 0, [])
  fsWrite v _ _ _ _ := (v, 0)

/-- INTERNAL: no descriptor is open and no task has a bitmap. -/
def noDescriptors : FdSystem Unit ℕ where
  code := ⟨(), LibMap.empty, fun _ => 0, 0, fun _ => ⟨fun _ => false, 0⟩, fun _ => 0⟩
  held := []

end CrepOS.Analysis
