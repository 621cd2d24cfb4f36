import CrepOS.Analysis.Ext2Files
import CrepOS.Analysis.Ext2Lookup
import CrepOS.Analysis.FdBookkeeping
import CrepOS.Analysis.FdOffset

/-!
# Calls that read and write files of the root directory

A call of `fs::open`, `fs::read` or `fs::write` looks its node up in the root directory. As long as no other file has
bytes of this directory, a lookup finds the same inode in all states of a run (`lookup_named`), and what the calls do to
the disk is a run of writes (`calls_are_writes`), about which there is a theorem already.
-/

set_option autoImplicit false

namespace CrepOS.Analysis

open CrepOS.Library CrepOS.Model CrepOS.Interface

variable {N : Type} {g : Ext2Super} {disk heap : Memory} {files : Set ℕ} {file : N → ℕ} {es : List RawDir}
  {s s' : Ext2System N} {n : N}

/-! ## Lookups -/

/-- INTERNAL: **a lookup of a node** writes nothing and finds its inode.
SRCLINE: kernel/fs/ext2/dir.cpp:36-81 -/
theorem lookup_named (h : RootServes g files file es s) (heap : Memory) (n : N) : ∃ raw : RawDir, raw.inode = file n ∧
    dirFind g heap s.fs.disk s.fs.rootInode (s.nodes n).relativePath = (s.fs.disk, some raw, true) := by
  have hbs : 0 < g.blockSize := Nat.lt_of_lt_of_le (by decide) h.disk.image.blockSize
  have hsearch : ∀ name, searchDir g heap s.fs.disk (readInode g s.fs.disk 2) name = searchEntries es name :=
    fun name => searchDir_entries hbs h.entries
  obtain ⟨hall, hlast⟩ := (h.named n).2.2
  obtain ⟨raw, hraw, hinode⟩ := Option.map_eq_some_iff.mp hlast
  refine ⟨raw, hinode, ?_⟩
  rw [dirFind, h.cached, writeBack_readInode]
  refine Prod.ext rfl (Prod.ext ?_ ?_)
  · dsimp only
    rw [findLoop_raw _ _ _ hsearch hall, hraw]
    rfl
  · exact (findLoop_eq _ _ none hsearch).mpr hall

/-! ## What a call does -/

/-- INTERNAL: an open that does not create. -/
theorem exec_open [DecidableEq N] {flags : ℕ} (h : RootServes g files file es s) (hflags : flags &&& createFlag = 0) :
    (Ext2Call.openNode heap n flags).exec g s = { s with
      nodes := Function.update s.nodes n { s.nodes n with stSize := (readInode g s.fs.disk (file n)).size32l } } := by
  obtain ⟨raw, hinode, hfind⟩ := lookup_named h heap n
  simp only [Ext2Call.exec, ext2Open, if_neg (not_not.mpr hflags), hfind, hinode]

/-- INTERNAL: a read. -/
theorem exec_read [DecidableEq N] {off cnt : ℕ} {buf : Memory} (h : RootServes g files file es s) :
    (Ext2Call.read heap n off cnt buf).exec g s = s := by
  obtain ⟨raw, hinode, hfind⟩ := lookup_named h heap n
  simp only [Ext2Call.exec, ext2Read, hfind]
  by_cases hoff : off > (s.nodes n).stSize
  · rw [if_pos hoff]
  · rw [if_neg hoff]

/-- INTERNAL: a write behind the end of the file. -/
theorem exec_write_behind [DecidableEq N] {off cnt : ℕ} {buf : Memory} (hoff : ¬ off ≤ (s.nodes n).stSize) :
    (Ext2Call.write heap n off cnt buf).exec g s = s := by
  simp only [Ext2Call.exec, ext2Write, if_pos (Nat.lt_of_not_le hoff), Function.update_eq_self]

/-- INTERNAL: a write. -/
theorem exec_write [DecidableEq N] {off cnt : ℕ} {buf : Memory} (h : RootServes g files file es s)
    (hoff : off ≤ (s.nodes n).stSize) :
    (Ext2Call.write heap n off cnt buf).exec g s = {
      fs := { s.fs with disk := FileWrite.exec g s.fs.disk ⟨file n, off, cnt, buf⟩ }
      nodes := Function.update s.nodes n { s.nodes n with stSize := (s.nodes n).stSize + cnt } } := by
  obtain ⟨raw, hinode, hfind⟩ := lookup_named h heap n
  rw [exec_def]
  beta_reduce
  simp only [Ext2Call.exec, ext2Write, if_neg (Nat.not_lt.mpr hoff), hfind, hinode]

/-! ## One call -/

/-- INTERNAL: the sizes of the nodes are not looked up. -/
theorem RootServes_nodes {nodes : N → Ext2Node} (h : RootServes g files file es s)
    (hpath : ∀ m, (nodes m).relativePath = (s.nodes m).relativePath) : RootServes g files file es { s with nodes := nodes } where
  disk := h.disk
  root := h.root
  cached := h.cached
  entries := h.entries
  reached := h.reached
  named m := by
    obtain ⟨hfile, hne, hlists⟩ := h.named m
    exact ⟨hfile, hne, (hpath m).symm ▸ hlists⟩

/-- INTERNAL: only the size of a node is set. -/
theorem update_path [DecidableEq N] (nodes : N → Ext2Node) (n m : N) (size : ℕ) :
    (Function.update nodes n { nodes n with stSize := size } m).relativePath = (nodes m).relativePath := by
  by_cases hm : m = n
  · subst hm
    rw [Function.update_self]
  · rw [Function.update_of_ne hm]

/-- INTERNAL: the directory is as it was when another file is written. -/
theorem RootServes_write {w : FileWrite} (h : RootServes g files file es s) (hdone : WriteDone g files s.fs.disk disk w)
    (hne : w.file ≠ 2) : RootServes g files file es { s with fs := { s.fs with disk := disk } } := by
  have hroot := hdone.inodes 2 h.root (Ne.symm hne)
  have hbytes : ∀ a < (readInode g s.fs.disk 2).size32l, Reaches g disk (readInode g disk 2) (a / g.blockSize) ∧
      fileBytes g disk (readInode g disk 2) a = fileBytes g s.fs.disk (readInode g s.fs.disk 2) a := by
    intro a ha
    obtain ⟨hreached, hkept⟩ := hdone.bytes 2 h.root a (Or.inl (h.reached a ha))
    exact ⟨hreached, hkept.trans (if_neg fun hhas => hne hhas.1)⟩
  exact {
    disk := hdone.diskFiles
    root := h.root
    cached := h.cached.trans hroot.symm
    entries := by
      rw [congrArg Inode.size32l hroot]
      exact entriesAt_congr h.entries fun a ha => (hbytes a ha).2
    reached := fun a ha => (hbytes a (by rwa [congrArg Inode.size32l hroot] at ha)).1
    named := h.named }

/-- INTERNAL: **one call** leaves the directory as it is, and writes what it writes. -/
theorem call_step [DecidableEq N] {call : Ext2Call N} (h : RootServes g files file es s)
    (hserved : call.Served g files file s) : RootServes g files file es (call.exec g s) ∧
      (call.writes file s = [] ∧ (call.exec g s).fs.disk = s.fs.disk ∨
        ∃ w, call.writes file s = [w] ∧ w.Fits g files s.fs.disk ∧ w.exec g s.fs.disk = (call.exec g s).fs.disk) := by
  cases call with
  | openNode heap n flags =>
    rw [exec_open h (hserved.1 heap n flags rfl)]
    exact ⟨RootServes_nodes h fun m => update_path s.nodes n m _, Or.inl ⟨rfl, rfl⟩⟩
  | read heap n off cnt buf =>
    rw [exec_read h]
    exact ⟨h, Or.inl ⟨rfl, rfl⟩⟩
  | write heap n off cnt buf =>
    by_cases hoff : off ≤ (s.nodes n).stSize
    · have hwrites : (Ext2Call.write heap n off cnt buf).writes file s = [⟨file n, off, cnt, buf⟩] := if_pos hoff
      have hfits := hserved.2 ⟨file n, off, cnt, buf⟩ (by rw [hwrites]; exact List.mem_singleton.mpr rfl)
      have hdone := write_step h.disk hfits
      obtain ⟨d, hd⟩ : ∃ d, FileWrite.exec g s.fs.disk ⟨file n, off, cnt, buf⟩ = d := ⟨_, rfl⟩
      rw [hd] at hdone
      rw [exec_write h hoff, hd]
      exact ⟨RootServes_nodes (RootServes_write h hdone (h.named n).2.1) fun m => update_path s.nodes n m _,
        Or.inr ⟨_, hwrites, hfits, hd⟩⟩
    · rw [exec_write_behind hoff]
      exact ⟨h, Or.inl ⟨if_neg hoff, rfl⟩⟩

/-! ## Runs -/

/-- A run of calls that meet the condition. -/
abbrev CallRun [DecidableEq N] (g : Ext2Super) (files : Set ℕ) (file : N → ℕ) :
    Ext2System N → List (Ext2Call N) → Ext2System N → Prop :=
  Run (Guarded (fun s call => call.Served g files file s) (ext2Step g))

/-- INTERNAL: what the last call writes. -/
theorem writesOf_snoc [DecidableEq N] (calls : List (Ext2Call N)) (call : Ext2Call N) (s : Ext2System N) :
    writesOf g file s (calls ++ [call]) =
      writesOf g file s calls ++ call.writes file (calls.foldl (fun s call => call.exec g s) s) := by
  induction calls generalizing s with
  | nil => exact List.append_nil _
  | cons first calls ih =>
    rw [List.cons_append, writesOf, writesOf, ih, List.append_assoc]
    rfl

/-- **The calls of a run are a run of writes** to the files that the nodes name.
SRCLINE: kernel/fs/ext2/ext2.cpp:98-132, 193-237 -/
theorem calls_are_writes [DecidableEq N] {calls : List (Ext2Call N)} (h : RootServes g files file es s)
    (hrun : CallRun g files file s calls s') : RootServes g files file es s' ∧
      WriteRun g files s.fs.disk (writesOf g file s calls) s'.fs.disk := by
  have hall := hrun.history (fun calls t => calls.foldl (fun s call => call.exec g s) s = t ∧
    RootServes g files file es t ∧ WriteRun g files s.fs.disk (writesOf g file s calls) t.fs.disk) ?_ ⟨rfl, h, Run.nil⟩
  · exact hall.2
  · rintro calls t call _ ⟨heval, ht, hwrites⟩ ⟨hserved, rfl⟩
    obtain ⟨hnext, hcases⟩ := call_step ht hserved
    refine ⟨by rw [List.foldl_append, heval]; rfl, hnext, ?_⟩
    rw [writesOf_snoc, heval]
    cases hcases with
    | inl hquiet =>
      rw [hquiet.1, List.append_nil, hquiet.2]
      exact hwrites
    | inr hwrite =>
      obtain ⟨w, hone, hfits, hexec⟩ := hwrite
      rw [hone]
      exact Run.snoc hwrites ⟨hfits, hexec⟩

/-- INTERNAL: a read of a file reads from its inode, up to the end of the file.
SRCLINE: kernel/fs/ext2/ext2.cpp:98-115 -/
theorem read_named {off : ℕ} (h : RootServes g files file es s) (heap : Memory) (cnt : ℕ) (buf : Memory)
    (hoff : off ≤ (s.nodes n).stSize) : ext2Read g heap s.fs (s.nodes n) off cnt buf =
      (s.fs, toInt (min cnt ((s.nodes n).stSize - off)),
        (readInode g s.fs.disk (file n)).read g s.fs.disk off (min cnt ((s.nodes n).stSize - off)) buf) := by
  obtain ⟨raw, hinode, hfind⟩ := lookup_named h heap n
  have hcount : (if off + cnt > (s.nodes n).stSize then (s.nodes n).stSize - off else cnt) =
      min cnt ((s.nodes n).stSize - off) := by
    by_cases hover : off + cnt > (s.nodes n).stSize
    · rw [if_pos hover]
      omega
    · rw [if_neg hover]
      omega
  simp only [ext2Read, if_neg (Nat.not_lt.mpr hoff), hcount, hfind, hinode]

/-- The file system with one node, for the file `a`. -/
def oneNode : Ext2System Unit := ⟨mountExt2 smallSuper twoFiles, fun _ => ⟨[0x61], [slash], [0x61], 0⟩⟩

/-- Its only entry. -/
def oneEntry : RawDir := ⟨19, 12, 1, [0x61]⟩

theorem oneNode_serves : RootServes smallSuper twoNumbers (fun _ => 19) [oneEntry] oneNode := by
  have hblock : (readInode smallSuper twoFiles 2).blocks 0 = 100 := twoFiles_blocks (Or.inl rfl) (by decide)
  have hsize : (readInode smallSuper twoFiles 2).size32l = 12 := twoFiles_word (c := 4) (Or.inl rfl) (by decide) (by decide)
  have hbytes : ∀ a < 12, fileBytes smallSuper twoFiles (readInode smallSuper twoFiles 2) a = twoFiles (102400 + a) := by
    intro a ha
    unfold fileBytes Inode.diskPos
    have hdiv : a / smallSuper.blockSize = 0 := Nat.div_eq_of_lt (Nat.lt_trans ha (by decide))
    have hmod : a % smallSuper.blockSize = a := Nat.mod_eq_of_lt (Nat.lt_trans ha (by decide))
    rw [hdiv, hmod, Nat.zero_mod, getBlock_direct (by decide), hblock]
    rfl
  refine ⟨twoFiles_files, Or.inl rfl, rfl, ?_, ?_, fun n => ⟨Or.inr rfl, by decide, ?_, ?_⟩⟩
  · change EntriesAt (fileBytes smallSuper twoFiles (readInode smallSuper twoFiles 2))
      (readInode smallSuper twoFiles 2).size32l 0 [oneEntry]
    rw [hsize]
    have hentries : EntriesAt (fun a => twoFiles (102400 + a)) 12 0 [oneEntry] := by decide
    exact entriesAt_congr hentries hbytes
  · intro a ha
    change a < (readInode smallSuper twoFiles 2).size32l at ha
    rw [hsize] at ha
    have hdiv : a / smallSuper.blockSize = 0 := Nat.div_eq_of_lt (Nat.lt_trans ha (by decide))
    rw [hdiv]
    refine reaches_direct (by decide) ?_
    change (readInode smallSuper twoFiles 2).blocks 0 ≠ 0
    rw [hblock]
    decide
  · change ∀ name ∈ splitPath [0x61], searchEntries [oneEntry] name ≠ none
    decide
  · change ((splitPath [0x61]).getLast?.bind (searchEntries [oneEntry])).map RawDir.inode = some 19
    decide

/-- The file gets 1000 bytes. -/
def firstCall : Ext2Call Unit := .write (fun _ => 0) () 0 1000 fun a => BitVec.ofNat 8 a

theorem firstCall_run : CallRun smallSuper twoNumbers (fun _ => 19) oneNode [firstCall] (firstCall.exec smallSuper oneNode) := by
  refine Run.single ⟨⟨fun _ _ _ heq => (by cases heq), fun w hw => ?_⟩, rfl⟩
  obtain rfl : w = firstWrite := List.mem_singleton.mp hw
  exact firstWrite_fits

section Syscalls

variable {P : Type} {vfs : VfsOps (Ext2System N) P N} {st st' : FdState (Ext2System N) N}

/-- INTERNAL: a descriptor that is not open. -/
theorem onNode_closed {A : Type} {rdi : BitVec 64} (k : Fd N → N → List A) (h : (st.translate (toInt rdi.toNat)).2 = none) :
    onNode st rdi k = [] := by
  rw [onNode, h]

/-- INTERNAL: a descriptor without a node. -/
theorem onNode_bare {A : Type} {rdi : BitVec 64} {fd : Fd N} (k : Fd N → N → List A)
    (h : (st.translate (toInt rdi.toNat)).2 = some fd) (hnode : fd.vfsNode = none) : onNode st rdi k = [] := by
  rw [onNode, h]
  dsimp only
  rw [hnode]

/-- INTERNAL: a descriptor on a node. -/
theorem onNode_open {A : Type} {rdi : BitVec 64} {fd : Fd N} (k : Fd N → N → List A)
    (h : (st.translate (toInt rdi.toNat)).2 = some fd) (hnode : fd.vfsNode = some n) : onNode st rdi k = k fd n := by
  rw [onNode, h]
  dsimp only
  rw [hnode]

/-- INTERNAL: `translate` changes only `fd_list`.
SRCLINE: kernel/fs/fd.cpp:44-56 -/
theorem translate_eq {V : Type} {t : FdState V N} {i : ℤ} {r : Option (Fd N)} (h : (t.translate i).2 = r) :
    t.translate i = ({ t with fdList := t.fdList.touch i Fd.default }, r) :=
  Prod.ext rfl h

/-- INTERNAL: the file system after `fd::read`.
SRCLINE: kernel/fs/fd.cpp:94-107 -/
theorem fdRead_vfs {V : Type} {ops : VfsOps V P N} {t : FdState V N} {fd : Fd N} (hnode : fd.vfsNode = some n)
    (buf cnt : ℕ) : (t.fdRead ops fd buf cnt).1.vfs = (ops.fsRead t.vfs n (toSigned (t.cell fd.loc)) (toSigned cnt)).1 := by
  simp only [FdState.fdRead, hnode]
  split <;> rfl

/-- INTERNAL: the file system after `fd::write`.
SRCLINE: kernel/fs/fd.cpp:109-122 -/
theorem fdWrite_vfs {V : Type} {ops : VfsOps V P N} {t : FdState V N} {fd : Fd N} (hnode : fd.vfsNode = some n)
    (buf cnt : ℕ) : (t.fdWrite ops fd buf cnt).1.vfs =
      (ops.fsWrite t.vfs n (toSigned (t.cell fd.loc)) (toSigned cnt) fun i => t.mem (buf + i)).1 := by
  simp only [FdState.fdWrite, hnode]
  split <;> rfl

/-- INTERNAL: the file system after `alloc_fd`.
SRCLINE: kernel/fs/fd.cpp:19-42 -/
theorem allocFd_vfs {V : Type} {ops : VfsOps V P N} {t : FdState V N} {pid : ℤ} {path : P} {flags : ℕ} :
    (t.allocFd ops pid path flags).1.vfs = (openNode ops t.vfs path flags).1 := by
  simp only [FdState.allocFd, FdState.construct]
  split <;> rfl

variable [DecidableEq N]

/-- INTERNAL: the file system reads for a descriptor. -/
theorem ext2Ops_read {off cnt : ℕ} (hrange : off + cnt < 2 ^ 63) (s : Ext2System N) :
    ((ext2Ops g heap vfs).fsRead s n (toSigned off) (toSigned cnt)).1 =
      (Ext2Call.read heap n off cnt fun _ => 0).exec g s := by
  rw [toSigned_of_lt (by omega), toSigned_of_lt (by omega)]
  simp only [ext2Ops, Ext2Call.exec, Int.toNat_natCast]

/-- INTERNAL: the file system writes for a descriptor. -/
theorem ext2Ops_write {off cnt : ℕ} (hrange : off + cnt < 2 ^ 63) (s : Ext2System N) (buf : Memory) :
    ((ext2Ops g heap vfs).fsWrite s n (toSigned off) (toSigned cnt) buf).1 =
      (Ext2Call.write heap n off cnt buf).exec g s := by
  rw [toSigned_of_lt (by omega), toSigned_of_lt (by omega)]
  simp only [ext2Ops, Ext2Call.exec, Int.toNat_natCast]

/-- INTERNAL: opening a path, without creation, opens the node that it leads to, if there is one.
SRCLINE: kernel/fs/fd.cpp:59-83 -/
theorem openNode_vfs {s : Ext2System N} {path : P} {flags : ℕ} (h : RootServes g files file es s)
    (hflags : flags &&& createFlag = 0) : (openNode (ext2Ops g heap vfs) s path flags).1 =
      (((ext2Ops g heap vfs).searchAbsolute s path).map fun m => Ext2Call.openNode heap m flags).toList.foldl
        (fun s call => call.exec g s) s := by
  cases hsearch : (ext2Ops g heap vfs).searchAbsolute s path with
  | none =>
    have hnot : ¬ flags &&& 0x10 ≠ 0 := not_not.mpr hflags
    simp only [openNode, hsearch, if_neg hnot]
    rfl
  | some m =>
    obtain ⟨raw, _, hfind⟩ := lookup_named h heap m
    have hret : ((ext2Ops g heap vfs).fsOpen s m flags).2 = 0 := by
      simp only [ext2Ops, ext2Open, if_neg (not_not.mpr hflags), hfind]
    have hkeep : ¬ ((ext2Ops g heap vfs).fsOpen s m flags).2 = -1 := by
      rw [hret]
      decide
    simp only [openNode, hsearch, if_neg hkeep]
    rfl

/-- INTERNAL: **one system call** ends in at most one call of the file system.
SRCLINE: kernel/fs/fd.cpp:143-204 -/
theorem syscall_step {pid : ℤ} {call : NumberCall P} (h : RootServes g files file es st.vfs)
    (hserved : call.Served g files file (ext2Ops g heap vfs) heap st) :
    (call.run (ext2Ops g heap vfs) pid st).1.vfs =
      (call.fsCalls (ext2Ops g heap vfs) heap st).foldl (fun s c => c.exec g s) st.vfs := by
  obtain ⟨hflags, hcalls⟩ := hserved
  -- the three system calls that end in a transfer
  have hwrite : ∀ rdi rsi rdx : BitVec 64, (∀ c ∈ onNode st rdi fun fd n =>
      [Ext2Call.write heap n (st.cell fd.loc) rdx.toNat fun i => st.mem (rsi.toNat + i)], c.InRange) →
      (st.syscallWrite (ext2Ops g heap vfs) rdi.toNat rsi.toNat rdx.toNat).1.vfs =
        (onNode st rdi fun fd n => [Ext2Call.write heap n (st.cell fd.loc) rdx.toNat fun i =>
          st.mem (rsi.toNat + i)]).foldl (fun s c => c.exec g s) st.vfs := by
    intro rdi rsi rdx hrange
    cases hfd : (st.translate (toInt rdi.toNat)).2 with
    | none =>
      rw [onNode_closed _ hfd, FdState.syscallWrite, translate_eq hfd]
      rfl
    | some fd =>
      rw [FdState.syscallWrite, translate_eq hfd]
      cases hnode : fd.vfsNode with
      | none =>
        rw [onNode_bare _ hfd hnode]
        simp only [FdState.fdWrite, hnode]
        rfl
      | some n =>
        rw [onNode_open _ hfd hnode] at hrange ⊢
        have hone := hrange _ (List.mem_singleton.mpr rfl)
        rw [List.foldl_cons, List.foldl_nil, fdWrite_vfs hnode, ext2Ops_write hone]
  cases call with
  | numbers call =>
    cases call with
    | openPath path rsi =>
      have hopen : ofSigned (toInt rsi.toNat) &&& createFlag = 0 := hflags _ (List.mem_singleton.mpr rfl)
      exact allocFd_vfs.trans (openNode_vfs h hopen)
    | close rdi =>
      change (st.syscallClose rdi.toNat).1.vfs = st.vfs
      cases hfd : (st.translate (toInt rdi.toNat)).2 with
      | none =>
        rw [FdState.syscallClose, translate_eq hfd]
      | some fd =>
        rw [FdState.syscallClose, translate_eq hfd]
    | dup rdi =>
      cases hfd : (st.translate (toInt rdi.toNat)).2 with
      | none =>
        rw [NumberCall.fsCalls, onNode_closed _ hfd]
        simp only [NumberCall.run, FdCall.run, FdState.syscallDup, translate_eq hfd]
        rfl
      | some fd =>
        cases hnode : fd.vfsNode with
        | none =>
          rw [NumberCall.fsCalls, onNode_bare _ hfd hnode]
          simp only [NumberCall.run, FdCall.run, FdState.syscallDup, translate_eq hfd, hnode]
          rfl
        | some m =>
          rw [NumberCall.openFlags, onNode_open _ hfd hnode] at hflags
          have hopen := hflags _ (List.mem_singleton.mpr rfl)
          rw [NumberCall.fsCalls, onNode_open _ hfd hnode]
          simp only [NumberCall.run, FdCall.run, FdState.syscallDup, translate_eq hfd, hnode]
          exact allocFd_vfs.trans (openNode_vfs h hopen)
    | dup2 rdi rsi =>
      change (st.syscallDup2 rdi.toNat rsi.toNat).1.vfs = st.vfs
      rw [FdState.syscallDup2]
      split
      · rfl
      · cases hfd : (st.translate (toInt rdi.toNat)).2 with
        | none =>
          rw [translate_eq hfd]
        | some fd =>
          rw [translate_eq hfd]
          dsimp only
          split <;> rename_i hsecond <;> exact (congrArg (fun r => r.1.vfs) hsecond).symm
  | read rdi rsi rdx =>
    cases hfd : (st.translate (toInt rdi.toNat)).2 with
    | none =>
      rw [NumberCall.fsCalls, onNode_closed _ hfd, NumberCall.run, FdState.syscallRead, translate_eq hfd]
      rfl
    | some fd =>
      rw [NumberCall.fsCalls] at hcalls ⊢
      rw [NumberCall.run, FdState.syscallRead, translate_eq hfd]
      cases hnode : fd.vfsNode with
      | none =>
        rw [onNode_bare _ hfd hnode]
        simp only [FdState.fdRead, hnode]
        rfl
      | some n =>
        rw [onNode_open _ hfd hnode] at hcalls ⊢
        have hone := (hcalls _ (List.mem_singleton.mpr rfl)).1
        rw [List.foldl_cons, List.foldl_nil, fdRead_vfs hnode, ext2Ops_read hone]
  | write rdi rsi rdx => exact hwrite rdi rsi rdx fun c hc => (hcalls c hc).1
  | seek rdi rsi rdx => exact hwrite rdi rsi rdx fun c hc => (hcalls c hc).1

omit [DecidableEq N] in
/-- INTERNAL: a system call ends in one call of the file system, or in none. -/
theorem fsCalls_cases (ops : VfsOps (Ext2System N) P N) (heap : Memory) (st : FdState (Ext2System N) N) (call : NumberCall P) :
    call.fsCalls ops heap st = [] ∨ ∃ c, call.fsCalls ops heap st = [c] := by
  have hnode : ∀ (rdi : BitVec 64) (k : Fd N → N → List (Ext2Call N)), (∀ fd m, k fd m = [] ∨ ∃ c, k fd m = [c]) →
      onNode st rdi k = [] ∨ ∃ c, onNode st rdi k = [c] := by
    intro rdi k hk
    cases hfd : (st.translate (toInt rdi.toNat)).2 with
    | none => exact Or.inl (onNode_closed k hfd)
    | some fd =>
      cases hn : fd.vfsNode with
      | none => exact Or.inl (onNode_bare k hfd hn)
      | some m =>
        rw [onNode_open k hfd hn]
        exact hk fd m
  have hopen : ∀ (o : Option N) (flags : ℕ), (o.map fun m => Ext2Call.openNode heap m flags).toList = [] ∨
      ∃ c, (o.map fun m => Ext2Call.openNode heap m flags).toList = [c] := by
    intro o flags
    cases o with
    | none => exact Or.inl rfl
    | some m => exact Or.inr ⟨_, rfl⟩
  cases call with
  | numbers call =>
    cases call with
    | openPath path rsi => exact hopen _ _
    | close rdi => exact Or.inl rfl
    | dup rdi => exact hnode rdi _ fun fd m => hopen _ _
    | dup2 rdi rsi => exact Or.inl rfl
  | read rdi rsi rdx => exact hnode rdi _ fun fd m => Or.inr ⟨_, rfl⟩
  | write rdi rsi rdx => exact hnode rdi _ fun fd m => Or.inr ⟨_, rfl⟩
  | seek rdi rsi rdx => exact hnode rdi _ fun fd m => Or.inr ⟨_, rfl⟩

omit [DecidableEq N] in
/-- INTERNAL: the calls that the last system call ends in. -/
theorem fsCallsOf_snoc (ops : VfsOps (Ext2System N) P N) (heap : Memory) (calls : List (ℤ × NumberCall P))
    (c : ℤ × NumberCall P) (st : FdState (Ext2System N) N) : fsCallsOf ops heap st (calls ++ [c]) =
      fsCallsOf ops heap st calls ++ c.2.fsCalls ops heap (calls.foldl (fun st c => (c.2.run ops c.1 st).1) st) := by
  induction calls generalizing st with
  | nil => exact List.append_nil _
  | cons first calls ih =>
    rw [List.cons_append, fsCallsOf, fsCallsOf, ih, List.append_assoc]
    rfl

/-- **The system calls of a run are a run of calls of the file system.**
SRCLINE: kernel/fs/fd.cpp:19-204 -/
theorem syscalls_are_calls {calls : List (ℤ × NumberCall P)} (h : RootServes g files file es st.vfs)
    (hrun : SyscallRun g files file (ext2Ops g heap vfs) heap st calls st') : RootServes g files file es st'.vfs ∧
      CallRun g files file st.vfs (fsCallsOf (ext2Ops g heap vfs) heap st calls) st'.vfs := by
  have hall := hrun.history (fun calls t => calls.foldl (fun st c => (c.2.run (ext2Ops g heap vfs) c.1 st).1) st = t ∧
    RootServes g files file es t.vfs ∧
    CallRun g files file st.vfs (fsCallsOf (ext2Ops g heap vfs) heap st calls) t.vfs) ?_ ⟨rfl, h, Run.nil⟩
  · exact hall.2
  · rintro calls t c _ ⟨heval, ht, hcalls⟩ ⟨hserved, rfl⟩
    have hvfs : (c.2.run (ext2Ops g heap vfs) c.1 t).1.vfs =
        (c.2.fsCalls (ext2Ops g heap vfs) heap t).foldl (fun s c => c.exec g s) t.vfs := syscall_step ht hserved
    refine ⟨by rw [List.foldl_append, heval]; rfl, ?_⟩
    rw [fsCallsOf_snoc, heval, hvfs]
    cases fsCalls_cases (ext2Ops g heap vfs) heap t c.2 with
    | inl hnone =>
      rw [hnone, List.append_nil]
      exact ⟨ht, hcalls⟩
    | inr hone =>
      obtain ⟨call, hcall⟩ := hone
      have hcallServed := (hserved.2 call (by rw [hcall]; exact List.mem_singleton.mpr rfl)).2
      rw [hcall]
      exact ⟨(call_step ht hcallServed).1, Run.snoc hcalls ⟨hcallServed, rfl⟩⟩

/-- INTERNAL: the file system reads for a descriptor, up to the end of the file.
SRCLINE: kernel/fs/ext2/ext2.cpp:98-115 -/
theorem ext2Ops_read_named {s : Ext2System N} {off cnt : ℕ} (h : RootServes g files file es s)
    (hoff : off ≤ (s.nodes n).stSize) (hsize : (s.nodes n).stSize < 2 ^ 31) (hrange : off + cnt < 2 ^ 63) :
    (ext2Ops g heap vfs).fsRead s n (toSigned off) (toSigned cnt) =
      (s, ((min cnt ((s.nodes n).stSize - off) : ℕ) : ℤ), bufferBytes
        ((readInode g s.fs.disk (file n)).read g s.fs.disk off (min cnt ((s.nodes n).stSize - off)) fun _ => 0)
        (min cnt ((s.nodes n).stSize - off))) := by
  obtain ⟨raw, _, hfind⟩ := lookup_named h heap n
  have hread := read_named h heap cnt (fun _ => 0) hoff
  have hret : toInt (min cnt ((s.nodes n).stSize - off)) = ((min cnt ((s.nodes n).stSize - off) : ℕ) : ℤ) :=
    toInt_of_lt (by omega)
  rw [hret] at hread
  rw [toSigned_of_lt (by omega), toSigned_of_lt (by omega)]
  simp only [ext2Ops, Int.toNat_natCast, hread, hfind, Option.isSome_some, true_and, if_pos hoff]

omit [DecidableEq N] in
/-- INTERNAL: `syscall_read`, given what the file system does.
SRCLINE: kernel/fs/fd.cpp:94-107, 167-171 -/
theorem syscallRead_eq {V : Type} {ops : VfsOps V P N} {t : FdState V N} {v : V} {ret : ℤ} {bytes : List Byte}
    {rdi rsi rdx : BitVec 64} {fd : Fd N} (hfd : (t.translate (toInt rdi.toNat)).2 = some fd) (hnode : fd.vfsNode = some n)
    (hread : ops.fsRead t.vfs n (toSigned (t.cell fd.loc)) (toSigned rdx.toNat) = (v, ret, bytes)) (hne : ret ≠ -1) :
    t.syscallRead ops rdi.toNat rsi.toNat rdx.toNat = ({ t with
        vfs := v
        fdList := t.fdList.touch (toInt rdi.toNat) Fd.default
        mem := storeBytes t.mem rsi.toNat bytes
        cell := Function.update t.cell fd.loc (wrap (t.cell fd.loc + rdx.toNat)) }, ret) := by
  rw [FdState.syscallRead, translate_eq hfd]
  simp only [FdState.fdRead, hnode, hread, if_neg hne]

/-- INTERNAL: the file system writes for a descriptor, and returns the count.
SRCLINE: kernel/fs/ext2/ext2.cpp:117-132 -/
theorem ext2Ops_write_named {s : Ext2System N} {off cnt : ℕ} (h : RootServes g files file es s)
    (hoff : off ≤ (s.nodes n).stSize) (hrange : off + cnt < 2 ^ 63) (buf : Memory) :
    (ext2Ops g heap vfs).fsWrite s n (toSigned off) (toSigned cnt) buf =
      ((Ext2Call.write heap n off cnt buf).exec g s, toInt cnt) := by
  obtain ⟨raw, _, hfind⟩ := lookup_named h heap n
  refine Prod.ext (ext2Ops_write hrange s buf) ?_
  rw [toSigned_of_lt (by omega), toSigned_of_lt (by omega)]
  simp only [ext2Ops, Int.toNat_natCast, ext2Write, if_neg (Nat.not_lt.mpr hoff), hfind]

omit [DecidableEq N] in
/-- INTERNAL: `syscall_write`, given what the file system does.
SRCLINE: kernel/fs/fd.cpp:109-122, 173-177 -/
theorem syscallWrite_eq {V : Type} {ops : VfsOps V P N} {t : FdState V N} {v : V} {ret : ℤ} {rdi rsi rdx : BitVec 64}
    {fd : Fd N} (hfd : (t.translate (toInt rdi.toNat)).2 = some fd) (hnode : fd.vfsNode = some n)
    (hwrite : (ops.fsWrite t.vfs n (toSigned (t.cell fd.loc)) (toSigned rdx.toNat) fun i => t.mem (rsi.toNat + i)) = (v, ret))
    (hne : ret ≠ -1) : t.syscallWrite ops rdi.toNat rsi.toNat rdx.toNat = ({ t with
        vfs := v
        fdList := t.fdList.touch (toInt rdi.toNat) Fd.default
        cell := Function.update t.cell fd.loc (wrap (t.cell fd.loc + rdx.toNat)) }, ret) := by
  rw [FdState.syscallWrite, translate_eq hfd]
  simp only [FdState.fdWrite, hnode, hwrite, if_neg hne]

end Syscalls

/-! ## Two descriptors of one file -/

/-- Every path leads to the node. -/
def onePath : VfsOps (Ext2System Unit) LibString Unit where
  searchAbsolute _ _ := some ()
  create s _ := s
  remove s _ := s
  absolutePath _ _ := [0x61]
  stSize s _ := (s.nodes ()).stSize
  fsOpen s _ _ := (s, 0)
  fsRead s _ _ _ := (s, 0, [])
  fsWrite s _ _ _ _ := (s, 0)

/-- What the descriptors call. -/
def oneNodeOps : VfsOps (Ext2System Unit) LibString Unit := ext2Ops smallSuper (fun _ => 0) onePath

/-- The descriptors 3 and 4 are open on the file. -/
def twoDescriptors : FdState (Ext2System Unit) Unit where
  vfs := oneNode
  fdList := (LibMap.empty.set 3 ⟨1, 3, 0, 1, some ()⟩).set 4 ⟨1, 4, 2, 3, some ()⟩
  cell := fun _ => 0
  cells := 4
  bitmap := fun _ => ⟨fun _ => false, 0⟩
  mem := fun a => BitVec.ofNat 8 a

/-- 1000 bytes are written through the first one. -/
def firstSyscall : NumberCall LibString := .write 3 0x100 1000

/-- INTERNAL: the bytes that are written. -/
theorem firstSyscall_calls : firstSyscall.fsCalls oneNodeOps (fun _ => 0) twoDescriptors = [firstCall] := by
  have hbytes : (fun i => twoDescriptors.mem ((0x100 : BitVec 64).toNat + i)) = fun a => BitVec.ofNat 8 a := by
    funext i
    apply BitVec.eq_of_toNat_eq
    change (256 + i) % 2 ^ 8 = i % 2 ^ 8
    omega
  change [Ext2Call.write (fun _ => 0) () 0 1000 fun i => twoDescriptors.mem ((0x100 : BitVec 64).toNat + i)] = _
  rw [hbytes]
  rfl

theorem firstSyscall_run : SyscallRun smallSuper twoNumbers (fun _ => 19) oneNodeOps (fun _ => 0) twoDescriptors
    [(0, firstSyscall)] (firstSyscall.run oneNodeOps 0 twoDescriptors).1 := by
  refine Run.single ⟨⟨fun flags hflags => absurd hflags List.not_mem_nil, fun c hc => ?_⟩, rfl⟩
  rw [firstSyscall_calls, List.mem_singleton] at hc
  subst hc
  refine ⟨by change 0 + 1000 < 2 ^ 63; decide, fun _ _ _ heq => (by cases heq), fun w hw => ?_⟩
  obtain rfl : w = firstWrite := List.mem_singleton.mp hw
  exact firstWrite_fits

end CrepOS.Analysis
