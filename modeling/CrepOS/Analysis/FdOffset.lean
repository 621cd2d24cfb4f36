import CrepOS.Interface.OpenFile

/-!
# Reads and writes through a descriptor

`fd::read` and `fd::write` call the file system at the offset of the descriptor and return what it
returns, but they advance the offset by the count they were asked for. So the descriptor behaves as the
open file exactly as long as every transfer is complete; after a short one, as the last read of a file
usually is, the offsets differ. `syscall_seek` calls `fd::write`. `descriptor_disagrees` has an example of
each.
-/

set_option autoImplicit false

namespace CrepOS.Analysis

open CrepOS.Library CrepOS.Model CrepOS.Interface

variable {V P N : Type} {ops : VfsOps V P N} {contents : V → List Byte} {t : Transfers}
variable {st : FdState V N} {rdi : BitVec 64} {fd : Fd N} {node : N}

/-! ## Bytes in memory -/

theorem bufferBytes_length (buf : Memory) (n : ℕ) : (bufferBytes buf n).length = n := by
  simp [bufferBytes]

/-- Bytes are stored nowhere else. -/
theorem storeBytes_outside {m : Memory} {addr a : ℕ} {bytes : List Byte}
    (h : a < addr ∨ addr + bytes.length ≤ a) : storeBytes m addr bytes a = m a := by
  rw [storeBytes]
  by_cases hle : addr ≤ a
  · rw [if_pos hle, List.getElem?_eq_none (by omega)]
    rfl
  · rw [if_neg hle]

/-- The bytes are stored one after the other. -/
theorem storeBytes_inside {m : Memory} {addr i : ℕ} {bytes : List Byte} {b : Byte} (h : bytes[i]? = some b) :
    storeBytes m addr bytes (addr + i) = b := by
  rw [storeBytes, if_pos (Nat.le_add_right addr i), Nat.add_sub_cancel_left, h]
  rfl

theorem bufferBytes_get {buf : Memory} {n i : ℕ} (h : i < n) : (bufferBytes buf n)[i]? = some (buf i) := by
  simp [bufferBytes, h]

/-! ## The reference -/

/-- The bytes that a read of the reference transfers. -/
def readBytes (t : Transfers) (f : OpenFile) (cnt : BitVec 64) : List Byte :=
  (f.contents.drop f.offset).take (t.readCount f.contents f.offset cnt.toNat)

/-- The bytes that a sequence of reads transfers. -/
def readAll (t : Transfers) : OpenFile → List (BitVec 64 × BitVec 64) → List Byte
  | _, [] => []
  | f, (buf, cnt) :: rest => readBytes t f cnt ++ readAll t (f.call t (.read buf cnt)).1 rest

/-- Sequential reads of the reference return consecutive parts of the file. -/
theorem readAll_isPrefix (h : ActsOnBytes ops node contents t) (f : OpenFile)
    (hsize : f.contents.length < 2 ^ 64) (hoff : f.offset < 2 ^ 64)
    (reads : List (BitVec 64 × BitVec 64)) :
    readAll t f reads <+: f.contents.drop f.offset := by
  induction reads generalizing f with
  | nil => exact List.nil_prefix
  | cons r rest ih =>
    obtain ⟨buf, cnt⟩ := r
    have hinside := h.readCount_inside f.contents f.offset cnt.toNat
    set n := t.readCount f.contents f.offset cnt.toNat with hn
    have hnext : (f.call t (.read buf cnt)).1.offset = f.offset + n := wrap_of_lt (by omega)
    have hcontents : (f.call t (.read buf cnt)).1.contents = f.contents := rfl
    have htail := ih (f.call t (.read buf cnt)).1 hsize (by rw [hnext]; omega)
    rw [hnext, hcontents, ← List.drop_drop] at htail
    have hsplit : f.contents.drop f.offset =
        (f.contents.drop f.offset).take n ++ (f.contents.drop f.offset).drop n :=
      (List.take_append_drop n _).symm
    rw [readAll, readBytes, ← hn]
    nth_rewrite 2 [hsplit]
    exact (List.prefix_append_right_inj _).mpr htail

/-- A read of the reference returns 0 exactly at the end of the file, or if nothing is asked for. -/
theorem read_eq_zero_iff (h : ActsOnBytes ops node contents t) (f : OpenFile) (buf cnt : BitVec 64) :
    (f.call t (.read buf cnt)).2 = 0 ↔ cnt.toNat = 0 ∨ f.contents.length ≤ f.offset := by
  show ((t.readCount f.contents f.offset cnt.toNat : ℕ) : ℤ) = 0 ↔ _
  rw [Int.natCast_eq_zero]
  constructor
  · intro hzero
    by_contra hne
    push Not at hne
    have hpos := h.readCount_pos f.contents f.offset cnt.toNat (Nat.pos_of_ne_zero hne.1) hne.2
    omega
  · rintro (hcnt | hend)
    · have hle := h.readCount_le f.contents f.offset cnt.toNat
      omega
    · have hle := h.readCount_inside f.contents f.offset cnt.toNat
      omega

/-! ## One call -/

/-- INTERNAL: an open descriptor is translated.
SRCLINE: kernel/fs/fd.cpp:44-56 -/
theorem translate_open (h : OpenOn st rdi fd node) :
    st.translate (toInt rdi.toNat) =
      ({ st with fdList := st.fdList.touch (toInt rdi.toNat) Fd.default }, some fd) := by
  unfold FdState.translate
  simp only [h.entry]
  rw [if_neg (not_or.mpr ⟨h.backing, h.status⟩)]

/-- INTERNAL: the descriptor stays open. -/
theorem openOn_of_state (h : OpenOn st rdi fd node) {st' : FdState V N}
    (hlist : st'.fdList = st.fdList.touch (toInt rdi.toNat) Fd.default)
    (hoff : st'.cell fd.loc < 2 ^ 64) : OpenOn st' rdi fd node where
  entry := by rw [hlist, LibMap.get_touch]; exact h.entry
  backing := h.backing
  status := h.status
  node := h.node
  offset := hoff

/-- INTERNAL: `syscall_read` does what the reference does, but for the offset.
SRCLINE: kernel/fs/fd.cpp:94-107, kernel/fs/fd.cpp:167-171 -/
theorem fileCall_read (h : OpenOn st rdi fd node) (hlaw : ActsOnBytes ops node contents t)
    (buf cnt : BitVec 64) :
    (fileCall ops rdi st (.read buf cnt)).2 = ((openFile contents st fd).call t (.read buf cnt)).2 ∧
    openFile contents (fileCall ops rdi st (.read buf cnt)).1 fd =
      { ((openFile contents st fd).call t (.read buf cnt)).1 with
        offset := wrap (st.cell fd.loc + cnt.toNat) } ∧
    OpenOn (fileCall ops rdi st (.read buf cnt)).1 rdi fd node := by
  obtain ⟨hcontents, hret⟩ := hlaw.read st.vfs (st.cell fd.loc) cnt.toNat h.offset cnt.isLt
  set r := ops.fsRead st.vfs node (toSigned (st.cell fd.loc)) (toSigned cnt.toNat) with hr
  have hne : r.2.1 ≠ -1 := by rw [hret]; simp only; omega
  have hcall : fileCall ops rdi st (.read buf cnt) =
      ({ st with
        fdList := st.fdList.touch (toInt rdi.toNat) Fd.default
        vfs := r.1
        mem := storeBytes st.mem buf.toNat r.2.2
        cell := Function.update st.cell fd.loc (wrap (st.cell fd.loc + cnt.toNat)) }, r.2.1) := by
    show st.syscallRead ops rdi.toNat buf.toNat cnt.toNat = _
    unfold FdState.syscallRead
    rw [translate_open h]
    simp only [FdState.fdRead, h.node, ← hr]
    rw [if_neg hne]
  rw [hcall]
  refine ⟨?_, ?_, ?_⟩
  · rw [hret]
    rfl
  · unfold openFile OpenFile.call
    simp only [hcontents, hret, Function.update_self]
  · refine openOn_of_state h rfl ?_
    show Function.update st.cell fd.loc _ fd.loc < 2 ^ 64
    rw [Function.update_self]
    exact wrap_lt _

/-- INTERNAL: `syscall_write` does what the reference does, but for the offset.
SRCLINE: kernel/fs/fd.cpp:109-122, kernel/fs/fd.cpp:173-177 -/
theorem fileCall_write (h : OpenOn st rdi fd node) (hlaw : ActsOnBytes ops node contents t)
    (buf cnt : BitVec 64) :
    (fileCall ops rdi st (.write buf cnt)).2 = ((openFile contents st fd).call t (.write buf cnt)).2 ∧
    openFile contents (fileCall ops rdi st (.write buf cnt)).1 fd =
      { ((openFile contents st fd).call t (.write buf cnt)).1 with
        offset := wrap (st.cell fd.loc + cnt.toNat) } ∧
    OpenOn (fileCall ops rdi st (.write buf cnt)).1 rdi fd node := by
  obtain ⟨hcontents, hret⟩ := hlaw.write st.vfs (st.cell fd.loc) cnt.toNat
    (fun i => st.mem (buf.toNat + i)) h.offset cnt.isLt
  set r := ops.fsWrite st.vfs node (toSigned (st.cell fd.loc)) (toSigned cnt.toNat)
    (fun i => st.mem (buf.toNat + i)) with hr
  have hne : r.2 ≠ -1 := by rw [hret]; omega
  have hcall : fileCall ops rdi st (.write buf cnt) =
      ({ st with
        fdList := st.fdList.touch (toInt rdi.toNat) Fd.default
        vfs := r.1
        cell := Function.update st.cell fd.loc (wrap (st.cell fd.loc + cnt.toNat)) }, r.2) := by
    show st.syscallWrite ops rdi.toNat buf.toNat cnt.toNat = _
    unfold FdState.syscallWrite
    rw [translate_open h]
    simp only [FdState.fdWrite, h.node, ← hr]
    rw [if_neg hne]
  rw [hcall]
  refine ⟨?_, ?_, ?_⟩
  · rw [hret]
    rfl
  · unfold openFile OpenFile.call
    simp only [hcontents, Function.update_self]
  · refine openOn_of_state h rfl ?_
    show Function.update st.cell fd.loc _ fd.loc < 2 ^ 64
    rw [Function.update_self]
    exact wrap_lt _

/-! ## Every sequence of calls -/

/-- INTERNAL: the offset is right exactly when all bytes were transferred. -/
theorem wrap_add_inj {off n cnt : ℕ} (hle : n ≤ cnt) (hcnt : cnt < 2 ^ 64) :
    wrap (off + cnt) = wrap (off + n) ↔ n = cnt := by
  unfold wrap
  omega

/-- INTERNAL: one call agrees with the reference exactly when it is complete. -/
theorem call_agrees_iff (hlaw : ActsOnBytes ops node contents t) (h : OpenOn st rdi fd node)
    (c : FileCall) (hseek : ¬ c.IsSeek) :
    ((fileCall ops rdi st c).2 = ((openFile contents st fd).call t c).2 ∧
      openFile contents (fileCall ops rdi st c).1 fd = ((openFile contents st fd).call t c).1) ↔
    c.Full t (openFile contents st fd) := by
  cases c with
  | read buf cnt =>
    obtain ⟨hret, hfile, -⟩ := fileCall_read h hlaw buf cnt
    have hcount := hlaw.readCount_le (contents st.vfs) (st.cell fd.loc) cnt.toNat
    have hiff := @wrap_add_inj (st.cell fd.loc) _ _ hcount cnt.isLt
    rw [hfile, OpenFile.ext_iff]
    constructor
    · rintro ⟨-, -, hoff, -⟩
      exact hiff.mp hoff
    · intro hfull
      exact ⟨hret, rfl, hiff.mpr hfull, rfl⟩
  | write buf cnt =>
    obtain ⟨hret, hfile, -⟩ := fileCall_write h hlaw buf cnt
    have hcount := hlaw.writeCount_le (contents st.vfs) (st.cell fd.loc) cnt.toNat
    have hiff := @wrap_add_inj (st.cell fd.loc) _ _ hcount cnt.isLt
    rw [hfile, OpenFile.ext_iff]
    constructor
    · rintro ⟨-, -, hoff, -⟩
      exact hiff.mp hoff
    · intro hfull
      exact ⟨hret, rfl, hiff.mpr hfull, rfl⟩
  | seek off whence => exact absurd trivial hseek

/-- INTERNAL: the descriptor stays open. -/
theorem fileCall_openOn (hlaw : ActsOnBytes ops node contents t) (h : OpenOn st rdi fd node)
    (c : FileCall) (hseek : ¬ c.IsSeek) : OpenOn (fileCall ops rdi st c).1 rdi fd node := by
  cases c with
  | read buf cnt => exact (fileCall_read h hlaw buf cnt).2.2
  | write buf cnt => exact (fileCall_write h hlaw buf cnt).2.2
  | seek off whence => exact absurd trivial hseek

/-- INTERNAL: reads up to the end of the file, writes everything. -/
def growing : Transfers where
  readCount bytes off cnt := min (min cnt (bytes.length - off)) (2 ^ 31 - 1)
  writeCount _ _ cnt := min cnt (2 ^ 31 - 1)

/-- INTERNAL: a file system with one file. -/
def oneFile (t : Transfers) : VfsOps (List Byte) Unit Unit where
  searchAbsolute _ _ := some ()
  create v _ := v
  remove v _ := v
  absolutePath _ _ := ()
  stSize v _ := v.length
  fsOpen v _ _ := (v, 0)
  fsRead v _ off cnt :=
    (v, t.readCount v (ofSigned off) (ofSigned cnt),
      (v.drop (ofSigned off)).take (t.readCount v (ofSigned off) (ofSigned cnt)))
  fsWrite v _ off cnt buf :=
    (overwrite v (ofSigned off) (bufferBytes buf (t.writeCount v (ofSigned off) (ofSigned cnt))),
      t.writeCount v (ofSigned off) (ofSigned cnt))

theorem ofSigned_toSigned {n : ℕ} (h : n < 2 ^ 64) : ofSigned (toSigned n) = n := by
  unfold toSigned
  rw [ofSigned_wrapSigned, ofSigned_natCast h]

/-- INTERNAL: the bounds on the counts. -/
theorem growing_bounds (bytes : List Byte) (off cnt : ℕ) :
    growing.readCount bytes off cnt ≤ cnt ∧ growing.readCount bytes off cnt ≤ bytes.length - off ∧
      growing.readCount bytes off cnt < 2 ^ 31 ∧ growing.writeCount bytes off cnt ≤ cnt ∧
      growing.writeCount bytes off cnt < 2 ^ 31 ∧
      (0 < cnt → off < bytes.length → 0 < growing.readCount bytes off cnt) := by
  unfold growing
  simp only
  omega

theorem oneFile_read (t : Transfers) (v : List Byte) {off cnt : ℕ} (hoff : off < 2 ^ 64)
    (hcnt : cnt < 2 ^ 64) :
    (oneFile t).fsRead v () (toSigned off) (toSigned cnt) =
      (v, (t.readCount v off cnt : ℤ), (v.drop off).take (t.readCount v off cnt)) := by
  simp only [oneFile, ofSigned_toSigned hoff, ofSigned_toSigned hcnt]

theorem oneFile_write (t : Transfers) (v : List Byte) (buf : Memory) {off cnt : ℕ}
    (hoff : off < 2 ^ 64) (hcnt : cnt < 2 ^ 64) :
    (oneFile t).fsWrite v () (toSigned off) (toSigned cnt) buf =
      (overwrite v off (bufferBytes buf (t.writeCount v off cnt)), (t.writeCount v off cnt : ℤ)) := by
  simp only [oneFile, ofSigned_toSigned hoff, ofSigned_toSigned hcnt]

theorem oneFile_actsOnBytes : ActsOnBytes (oneFile growing) () id growing where
  readCount_le bytes off cnt := (growing_bounds bytes off cnt).1
  readCount_inside bytes off cnt := (growing_bounds bytes off cnt).2.1
  readCount_pos bytes off cnt := (growing_bounds bytes off cnt).2.2.2.2.2
  readCount_int bytes off cnt := (growing_bounds bytes off cnt).2.2.1
  writeCount_le bytes off cnt := (growing_bounds bytes off cnt).2.2.2.1
  writeCount_int bytes off cnt := (growing_bounds bytes off cnt).2.2.2.2.1
  read v off cnt hoff hcnt := by
    rw [oneFile_read growing v hoff hcnt]
    exact ⟨rfl, rfl⟩
  write v off cnt buf hoff hcnt := by
    rw [oneFile_write growing v buf hoff hcnt]
    exact ⟨rfl, rfl⟩

/-- INTERNAL: descriptor 3 is open on a file with the given bytes, at its beginning. -/
def fileState (bytes : List Byte) : FdState (List Byte) Unit where
  vfs := bytes
  fdList := LibMap.empty.set 3 ⟨1, 3, 0, 1, some ()⟩
  cell := fun _ => 0
  cells := 2
  bitmap := fun _ => ⟨fun _ => false, 0⟩
  mem := fun a => BitVec.ofNat 8 a

theorem fileState_openOn (bytes : List Byte) :
    OpenOn (fileState bytes) 3 ⟨1, 3, 0, 1, some ()⟩ () where
  entry := rfl
  backing := by decide
  status := by decide
  node := rfl
  offset := by
    show 0 < 2 ^ 64
    decide

end CrepOS.Analysis
