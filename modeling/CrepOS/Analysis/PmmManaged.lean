import CrepOS.Model.PmmInit
import CrepOS.Analysis.PmmExclusive
import Mathlib.Data.List.Induction

/-!
# Which pages `pmm::alloc` can return

`pmm::init` turns the usable entries of the memory map, from the one that gives the buffer on, into
chunks. `ManagedPage` names their pages in terms of the map. Every page that some run of calls makes
`pmm::alloc` return is one of them, whatever the calls do to the bitmaps (`alloc_returns_page`), and
every one of them is returned in some run: single pages are handed out in the order of the chunks
(`returnable_iff`).
-/

set_option autoImplicit false

namespace CrepOS.Analysis

open CrepOS.Library CrepOS.Model

/-- The usable entries are page-aligned physical ranges, in the order of their addresses, and do not
overlap; the first starts at `pos` or later. -/
def UsableFrom : ℕ → List StivaleMmap → Prop
  | _, [] => True
  | pos, e :: es =>
    if e.type = 1 then
      pos ≤ e.addr ∧ pageSize ∣ e.addr ∧ pageSize ∣ e.len ∧ e.addr + e.len ≤ 2 ^ 52 ∧
        UsableFrom (e.addr + e.len) es
    else UsableFrom pos es

/-- What a bootloader promises for the memory map it passes, in physical memory itself. -/
structure StivaleOk (mmap : List StivaleMmap) : Prop where
  usable : UsableFrom 0 mmap
  size : mmap.length * 24 ≤ 2 ^ 52

/-- A page that `pmm::init` gives to the allocator. -/
def ManagedPage (mmap : List StivaleMmap) (a : ℕ) : Prop :=
  pageSize ∣ a ∧ ∃ e ∈ managedEntries mmap, e.type = 1 ∧ e.addr ≤ a ∧ a + pageSize ≤ e.addr + e.len

/-- Some run of allocations and returns after `pmm::init` makes `pmm::alloc` return `a`. -/
def Returnable (mem : Memory) (mmap : List StivaleMmap) (a : ℕ) : Prop :=
  ∃ l st cnt align pmm', Run PmmStep ⟨pmmInit mem mmap, []⟩ l st ∧ 1 ≤ cnt ∧ cnt < 2 ^ 64 ∧
    1 ≤ align ∧ align < 2 ^ 64 ∧ st.pmm.alloc cnt align = some (pmm', a) ∧ a ≠ minusOne

/-! ## The chunks of `pmm::init` -/

/-- The usable entries of the last loop of `pmm::init`: as in `UsableFrom`, but the first may start
anywhere in its page. -/
def EntriesFrom : ℕ → List StivaleMmap → Prop
  | _, [] => True
  | pos, e :: es =>
    if e.type = 1 then
      pos ≤ e.addr ∧ pageSize ∣ e.addr + e.len ∧ e.addr + e.len ≤ 2 ^ 52 ∧
        EntriesFrom (e.addr + e.len) es
    else EntriesFrom pos es

section Entries

variable {pos pos' : ℕ} {es mmap : List StivaleMmap}

theorem UsableFrom.entriesFrom (h : UsableFrom pos es) : EntriesFrom pos es := by
  induction es generalizing pos with
  | nil => trivial
  | cons e es ih =>
    rw [UsableFrom] at h
    rw [EntriesFrom]
    split at h
    · next he =>
      obtain ⟨hpos, haddr, hlen, hend, hrest⟩ := h
      rw [if_pos he]
      exact ⟨hpos, Nat.dvd_add haddr hlen, hend, ih hrest⟩
    · next he =>
      rw [if_neg he]
      exact ih h

/-- INTERNAL: the entries behind others. -/
theorem UsableFrom.of_append {l r : List StivaleMmap} (h : UsableFrom pos (l ++ r)) :
    ∃ pos', UsableFrom pos' r := by
  induction l generalizing pos with
  | nil => exact ⟨pos, h⟩
  | cons e l ih =>
    rw [List.cons_append, UsableFrom] at h
    split at h
    · exact ih h.2.2.2.2
    · exact ih h

/-- INTERNAL: the entry that gives the buffer. -/
theorem managedEntries_cases (mmap : List StivaleMmap) :
    managedEntries mmap = [] ∨ ∃ l e es, mmap = l ++ e :: es ∧ e.type = 1 ∧ maxSize mmap ≤ e.len ∧
      managedEntries mmap = ⟨wrap (e.addr + maxSize mmap), e.len - maxSize mmap, e.type⟩ :: es := by
  unfold managedEntries
  cases hdrop : mmap.dropWhile fun e => ¬ (e.type = 1 ∧ maxSize mmap ≤ e.len) with
  | nil => exact Or.inl rfl
  | cons e es =>
    have hhead : (mmap.dropWhile fun e => ¬ (e.type = 1 ∧ maxSize mmap ≤ e.len)).head? = some e := by
      rw [hdrop, List.head?_cons]
    have hfirst := List.head?_dropWhile_not
      (fun e : StivaleMmap => decide ¬ (e.type = 1 ∧ maxSize mmap ≤ e.len)) mmap
    rw [hhead] at hfirst
    simp only [decide_eq_false_iff_not, not_not] at hfirst
    have hsplit := List.takeWhile_append_dropWhile
      (p := fun e : StivaleMmap => decide ¬ (e.type = 1 ∧ maxSize mmap ≤ e.len)) (l := mmap)
    rw [hdrop] at hsplit
    exact Or.inr ⟨_, e, es, hsplit.symm, hfirst.1, hfirst.2, rfl⟩

theorem StivaleOk.entriesFrom (h : StivaleOk mmap) : EntriesFrom 0 (managedEntries mmap) := by
  rcases managedEntries_cases mmap with hnil | ⟨l, e, es, hsplit, htype, hlen, hcons⟩
  · rw [hnil]
    trivial
  · have husable := h.usable
    rw [hsplit] at husable
    obtain ⟨pos, hrest⟩ := husable.of_append
    rw [UsableFrom, if_pos htype] at hrest
    obtain ⟨hpos, haddr, hdvd, hend, hrest⟩ := hrest
    have hwrap : wrap (e.addr + maxSize mmap) = e.addr + maxSize mmap := wrap_of_lt (by omega)
    have hsame : e.addr + maxSize mmap + (e.len - maxSize mmap) = e.addr + e.len := by omega
    rw [hcons, EntriesFrom, if_pos htype]
    simp only [hwrap, hsame]
    exact ⟨Nat.zero_le _, Nat.dvd_add haddr hdvd, hend, hrest.entriesFrom⟩

theorem StivaleOk.count (h : StivaleOk mmap) : (managedEntries mmap).length * 24 ≤ 2 ^ 52 := by
  have hsize := h.size
  rcases managedEntries_cases mmap with hnil | ⟨l, e, es, hsplit, -, -, hcons⟩
  · rw [hnil, List.length_nil]
    omega
  · rw [hsplit, List.length_append, List.length_cons] at hsize
    rw [hcons, List.length_cons]
    omega

end Entries

/-! ## One entry -/

/-- What the last loop of `pmm::init` does with a usable entry: a chunk of the whole pages of the entry,
with a clear bitmap in the buffer. -/
structure Added (b b' : PmmBuild) (e : StivaleMmap) (c : MemChunk) : Prop where
  base : c.base = (e.addr + 4095) / 4096 * 4096
  stop : c.base + c.pageCnt * pageSize = e.addr + e.len
  bitmapSize : c.bitmapSize = (c.pageCnt + 7) / 8
  bitmap : ∃ o ≤ memChunkSize, c.bitmap = wrap (b.buffer + o)
  buffer : b'.buffer = wrap (b.buffer + (memChunkSize + c.bitmapSize))
  mem : b'.mem = memset8 b.mem c.bitmap 0 c.bitmapSize
  chunks : b'.chunks = b.chunks ++ [c]

section Building

variable {b b' : PmmBuild} {e : StivaleMmap} {c d : MemChunk}

/-- INTERNAL: the size of a bitmap.
SRCLINE: kernel/mm/pmm.cpp:94 -/
theorem bitmapSize_eq {pageCnt : ℕ} (h : pageCnt < 2 ^ 62) :
    ofSigned (divRoundup (toSigned pageCnt) 8) = (pageCnt + 7) / 8 := by
  have hdiv := divRoundup_natCast (n := pageCnt) (b := 8) (by omega) (by omega)
  rw [toSigned_of_lt (by omega)]
  simp only [Nat.cast_ofNat] at hdiv
  rw [hdiv]
  exact ofSigned_natCast (by omega)

theorem memChunk_eq (b : PmmBuild) (base : ℕ) {pageCnt : ℕ} (h : pageCnt < 2 ^ 62) :
    b.memChunk base pageCnt =
      (⟨memset8 b.mem b.buffer 0 ((pageCnt + 7) / 8), wrap (b.buffer + (pageCnt + 7) / 8), b.chunks⟩,
        ⟨base, pageCnt, (pageCnt + 7) / 8, b.buffer⟩) := by
  simp only [PmmBuild.memChunk, PmmBuild.chunkAlloc, bitmapSize_eq h]

/-- INTERNAL: the two places of a header take the same room. -/
theorem wrap_add_add (n k j : ℕ) : wrap (wrap (n + k) + j) = wrap (n + (k + j)) := by
  unfold wrap
  omega

/-- INTERNAL: the whole pages of an entry that ends at a page.
SRCLINE: kernel/mm/pmm.cpp:66-68 -/
theorem aligned_pages (hdvd : pageSize ∣ e.addr + e.len)
    (hend : e.addr + e.len ≤ 2 ^ 52) :
    e.alignedAddr = (e.addr + 4095) / 4096 * 4096 ∧
      e.alignedAddr + e.alignedLen / pageSize * pageSize = e.addr + e.len ∧
      e.alignedLen / pageSize < 2 ^ 62 := by
  have haddr : e.alignedAddr = (e.addr + 4095) / 4096 * 4096 := alignUp_pageSize (by omega)
  have hrest : e.alignedLen = e.addr + e.len - (e.addr + 4095) / 4096 * 4096 := by
    rw [StivaleMmap.alignedLen, haddr]
    simp only [pageSize] at hdvd
    unfold wrap
    omega
  rw [haddr, hrest]
  simp only [pageSize] at hdvd ⊢
  refine ⟨trivial, ?_, ?_⟩
  · omega
  · omega

theorem addEntry_added (hbuffer : b.buffer < 2 ^ 64) (htype : e.type = 1) (hlen : e.len ≠ 0)
    (hdvd : pageSize ∣ e.addr + e.len) (hend : e.addr + e.len ≤ 2 ^ 52) :
    ∃ c, Added b (b.addEntry e) e c := by
  obtain ⟨hbase, hstop, hsmall⟩ := aligned_pages hdvd hend
  rw [PmmBuild.addEntry, if_pos ⟨htype, hlen⟩]
  generalize e.alignedAddr = base at hbase hstop ⊢
  generalize e.alignedLen / pageSize = pageCnt at hstop hsmall ⊢
  by_cases hnil : b.chunks = []
  · rw [if_pos hnil]
    simp only [memChunk_eq _ _ hsmall, PmmBuild.chunkAlloc]
    refine ⟨⟨base, pageCnt, _, _⟩, hbase, hstop, rfl, ⟨memChunkSize, Nat.le_refl _, rfl⟩,
      wrap_add_add _ _ _, rfl, ?_⟩
    rw [hnil]
    rfl
  · rw [if_neg hnil]
    simp only [memChunk_eq _ _ hsmall, PmmBuild.chunkAlloc]
    refine ⟨⟨base, pageCnt, _, _⟩, hbase, hstop, rfl, ⟨0, Nat.zero_le _, ?_⟩, ?_, rfl, rfl⟩
    · exact (wrap_of_lt hbuffer).symm
    · rw [wrap_add_add, Nat.add_comm memChunkSize]

/-! ## The loop -/

/-- INTERNAL: two pieces of the buffer that follow each other share no byte, also where the address
wraps between them. -/
theorem bitmapsApart_of_offsets {start o o' : ℕ} (hc : c.bitmap = wrap (start + o))
    (hd : d.bitmap = wrap (start + o')) (hle : o + c.bitmapSize ≤ o')
    (hend : o' + d.bitmapSize ≤ 2 ^ 60) : BitmapsApart c d := by
  unfold BitmapsApart
  rw [hc, hd]
  unfold wrap
  omega

/-- What `pmm::init` has built from the entries `done`, which end at `pos`: `used` bytes of the buffer
from `start` on are taken. -/
structure BuildInv (start used : ℕ) (done : List StivaleMmap) (pos : ℕ) (b : PmmBuild) : Prop where
  buffer : b.buffer = wrap (start + used)
  room : used ≤ 57 * done.length + pos / 32768
  pieces : ∀ c ∈ b.chunks, ∃ o, c.bitmap = wrap (start + o) ∧ o + c.bitmapSize ≤ used
  aligned : ∀ c ∈ b.chunks, pageSize ∣ c.base
  below : ∀ c ∈ b.chunks, c.base + c.pageCnt * pageSize ≤ pos
  bitmapSize : ∀ c ∈ b.chunks, c.bitmapSize = (c.pageCnt + 7) / 8
  pages : b.chunks.Pairwise PagesApart
  bitmaps : b.chunks.Pairwise BitmapsApart
  clear : ∀ c ∈ b.chunks, ∀ j < c.pageCnt, bmTest b.mem c.bitmap j = false
  managed : ∀ a, (∃ c ∈ b.chunks, ∃ i < c.pageCnt, a = c.base + i * pageSize) ↔
    pageSize ∣ a ∧ ∃ e ∈ done, e.type = 1 ∧ e.addr ≤ a ∧ a + pageSize ≤ e.addr + e.len

variable {start used pos : ℕ} {done : List StivaleMmap}

/-- INTERNAL: an entry that adds no chunk. -/
theorem BuildInv.skip {pos' : ℕ} (h : BuildInv start used done pos b) (hpos : pos ≤ pos')
    (he : ¬ (e.type = 1 ∧ e.len ≠ 0)) : BuildInv start used (done ++ [e]) pos' (b.addEntry e) := by
  have hroom := h.room
  rw [PmmBuild.addEntry, if_neg he]
  refine ⟨h.buffer, ?_, h.pieces, h.aligned, fun c hc => Nat.le_trans (h.below c hc) hpos,
    h.bitmapSize, h.pages, h.bitmaps, h.clear, ?_⟩
  · rw [List.length_append, List.length_singleton]
    omega
  · intro a
    rw [h.managed a]
    apply and_congr_right
    intro _
    constructor
    · rintro ⟨f, hf, hrest⟩
      exact ⟨f, List.mem_append_left _ hf, hrest⟩
    · rintro ⟨f, hf, htype, haddr, hend⟩
      rcases List.mem_append.mp hf with hf | hf
      · exact ⟨f, hf, htype, haddr, hend⟩
      · rw [List.mem_singleton.mp hf] at htype haddr hend
        refine absurd ⟨htype, ?_⟩ he
        simp only [pageSize] at hend
        omega

/-- INTERNAL: the bits of a bitmap that has just been cleared. -/
theorem bmTest_memset8 {m : Memory} {base n j : ℕ} (hj : j / 8 < n) :
    bmTest (memset8 m base 0 n) base j = false := by
  rw [bmTest_eq, Memory.bit, memset8_inside m 0 (by omega) (by omega)]
  exact BitVec.getLsbD_zero

/-- INTERNAL: the pages of a chunk are those of its entry. -/
theorem Added.managed {b' : PmmBuild} (h : Added b b' e c) (a : ℕ) :
    (∃ i < c.pageCnt, a = c.base + i * pageSize) ↔
      pageSize ∣ a ∧ e.addr ≤ a ∧ a + pageSize ≤ e.addr + e.len := by
  have hbase := h.base
  have hstop := h.stop
  simp only [pageSize] at hstop ⊢
  constructor
  · rintro ⟨i, hi, rfl⟩
    omega
  · rintro ⟨hdvd, haddr, hend⟩
    exact ⟨(a - c.base) / 4096, by omega, by omega⟩

/-- **A usable entry adds its pages.** -/
theorem BuildInv.add (h : BuildInv start used done pos b)
    (hcount : (done.length + 1) * 24 ≤ 2 ^ 52) (hpos : pos ≤ e.addr) (htype : e.type = 1)
    (hlen : e.len ≠ 0) (hdvd : pageSize ∣ e.addr + e.len) (hend : e.addr + e.len ≤ 2 ^ 52) :
    ∃ used', BuildInv start used' (done ++ [e]) (e.addr + e.len) (b.addEntry e) := by
  have hbuffer : b.buffer < 2 ^ 64 := by
    rw [h.buffer]
    exact wrap_lt _
  obtain ⟨c, hadd⟩ := addEntry_added hbuffer htype hlen hdvd hend
  obtain ⟨o, ho, hbitmap⟩ := hadd.bitmap
  rw [h.buffer, wrap_add_add] at hbitmap
  have hbase := hadd.base
  have hstop := hadd.stop
  have hsize := hadd.bitmapSize
  have hroom := h.room
  simp only [pageSize] at hstop
  simp only [memChunkSize] at ho
  have hin : ∀ d ∈ (b.addEntry e).chunks, d ∈ b.chunks ∨ d = c := by
    intro d hd
    rw [hadd.chunks] at hd
    rcases List.mem_append.mp hd with hd | hd
    · exact Or.inl hd
    · exact Or.inr (List.mem_singleton.mp hd)
  have hapart : ∀ d ∈ b.chunks, BitmapsApart d c := by
    intro d hd
    obtain ⟨o', hd', hle⟩ := h.pieces d hd
    exact bitmapsApart_of_offsets hd' hbitmap (by omega) (by omega)
  refine ⟨used + (memChunkSize + c.bitmapSize), ?_, ?_, ?_, ?_, ?_, ?_, ?_, ?_, ?_, ?_⟩
  · rw [hadd.buffer, h.buffer]
    exact wrap_add_add start used _
  · rw [List.length_append, List.length_singleton]
    simp only [memChunkSize]
    omega
  · intro d hd
    rcases hin d hd with hd | rfl
    · obtain ⟨o', hd', hle⟩ := h.pieces d hd
      exact ⟨o', hd', by omega⟩
    · exact ⟨used + o, hbitmap, by simp only [memChunkSize]; omega⟩
  · intro d hd
    rcases hin d hd with hd | rfl
    · exact h.aligned d hd
    · rw [hbase]
      exact Nat.dvd_mul_left 4096 _
  · intro d hd
    rcases hin d hd with hd | rfl
    · have hbelow := h.below d hd
      omega
    · exact Nat.le_of_eq hadd.stop
  · intro d hd
    rcases hin d hd with hd | rfl
    · exact h.bitmapSize d hd
    · exact hsize
  · rw [hadd.chunks, List.pairwise_append]
    refine ⟨h.pages, List.pairwise_singleton _ _, ?_⟩
    intro d hd d' hd'
    rw [List.mem_singleton.mp hd']
    have hbelow := h.below d hd
    refine Or.inl ?_
    simp only
    omega
  · rw [hadd.chunks, List.pairwise_append]
    refine ⟨h.bitmaps, List.pairwise_singleton _ _, ?_⟩
    intro d hd d' hd'
    rw [List.mem_singleton.mp hd']
    exact hapart d hd
  · intro d hd j hj
    rw [hadd.mem]
    rcases hin d hd with hd | rfl
    · have hap := hapart d hd
      have hdsize := h.bitmapSize d hd
      unfold BitmapsApart at hap
      rw [← h.clear d hd j hj, bmTest_eq, bmTest_eq]
      exact Memory.bit_congr (memset8_outside b.mem 0 (by omega))
    · exact bmTest_memset8 (by omega)
  · intro a
    have hnew := hadd.managed a
    have hold := h.managed a
    constructor
    · rintro ⟨d, hd, i, hi, ha⟩
      rcases hin d hd with hd | rfl
      · obtain ⟨hdvd, f, hf, hrest⟩ := hold.mp ⟨d, hd, i, hi, ha⟩
        exact ⟨hdvd, f, List.mem_append_left _ hf, hrest⟩
      · obtain ⟨hdvd, haddr, hstop⟩ := hnew.mp ⟨i, hi, ha⟩
        exact ⟨hdvd, e, List.mem_append_right _ (List.mem_singleton_self e), htype, haddr, hstop⟩
    · rintro ⟨hdvd, f, hf, hftype, haddr, hstop⟩
      rw [hadd.chunks]
      rcases List.mem_append.mp hf with hf | hf
      · obtain ⟨d, hd, hrest⟩ := hold.mpr ⟨hdvd, f, hf, hftype, haddr, hstop⟩
        exact ⟨d, List.mem_append_left _ hd, hrest⟩
      · rw [List.mem_singleton.mp hf] at haddr hstop
        exact ⟨c, List.mem_append_right _ (List.mem_singleton_self c), hnew.mpr ⟨hdvd, haddr, hstop⟩⟩

/-- The whole loop. -/
theorem BuildInv.foldl {es : List StivaleMmap} (h : BuildInv start used done pos b)
    (hcount : (done.length + es.length) * 24 ≤ 2 ^ 52) (hpos : pos ≤ 2 ^ 52) (hes : EntriesFrom pos es) :
    ∃ used' pos', pos' ≤ 2 ^ 52 ∧
      BuildInv start used' (done ++ es) pos' (es.foldl PmmBuild.addEntry b) := by
  induction es generalizing used done pos b with
  | nil =>
    rw [List.append_nil]
    exact ⟨used, pos, hpos, h⟩
  | cons e es ih =>
    rw [List.length_cons] at hcount
    have hlength : (done ++ [e]).length = done.length + 1 := by
      rw [List.length_append, List.length_singleton]
    have hassoc : done ++ e :: es = done ++ [e] ++ es := by simp
    rw [EntriesFrom] at hes
    rw [List.foldl_cons, hassoc]
    split at hes
    · next htype =>
      obtain ⟨hle, hdvd, hend, hrest⟩ := hes
      by_cases hlen : e.len = 0
      · have hskip : BuildInv start used (done ++ [e]) (e.addr + e.len) (b.addEntry e) :=
          h.skip (by omega) fun hboth => hboth.2 hlen
        exact ih hskip (by omega) hend hrest
      · obtain ⟨used', hadd⟩ := h.add (by omega) hle htype hlen hdvd hend
        exact ih hadd (by omega) hend hrest
    · next htype =>
      have hskip : BuildInv start used (done ++ [e]) pos (b.addEntry e) :=
        h.skip (Nat.le_refl pos) fun hboth => htype hboth.1
      exact ih hskip (by omega) hpos hes

end Building

/-- What the allocator is after `pmm::init`: well-formed chunks, with all bits clear. -/
structure InitialChunks (mmap : List StivaleMmap) (s : Pmm) : Prop where
  chunks : ChunksOk s.chunks
  clear : ∀ c ∈ s.chunks, ∀ j < c.pageCnt, bmTest s.mem c.bitmap j = false
  managed : ∀ a, (∃ c ∈ s.chunks, ∃ i < c.pageCnt, a = c.base + i * pageSize) ↔ ManagedPage mmap a

/-- INTERNAL: the buffer is an address. -/
theorem firstBuffer_lt (mmap : List StivaleMmap) : firstBuffer mmap < 2 ^ 64 := by
  unfold firstBuffer
  split
  · omega
  · exact wrap_lt _

/-- **The chunks of `pmm::init` hold exactly the managed pages.**
SRCLINE: kernel/mm/pmm.cpp:35-97 -/
theorem pmmInit_chunks (mem : Memory) {mmap : List StivaleMmap} (h : StivaleOk mmap) :
    InitialChunks mmap (pmmInit mem mmap) := by
  have hentries := h.entriesFrom
  have hcount := h.count
  have hstart : BuildInv (firstBuffer mmap) 0 [] 0 ⟨mem, firstBuffer mmap, []⟩ := by
    have hbuffer : firstBuffer mmap = wrap (firstBuffer mmap + 0) := by
      have hlt := firstBuffer_lt mmap
      unfold wrap
      omega
    refine ⟨hbuffer, by simp, ?_, ?_, ?_, ?_, List.Pairwise.nil,
      List.Pairwise.nil, ?_, ?_⟩
    · simp
    · simp
    · simp
    · simp
    · simp
    · simp
  obtain ⟨used, pos, hpos, hinv⟩ := hstart.foldl (by simpa using hcount) (by omega) hentries
  rw [List.nil_append] at hinv
  refine ⟨⟨hinv.aligned, ?_, hinv.pages, hinv.bitmapSize, hinv.bitmaps⟩, hinv.clear, hinv.managed⟩
  intro c hc
  exact Nat.le_trans (hinv.below c hc) hpos

/-! ## What is returned is managed -/

section Returned

variable {s s' : Pmm} {c : MemChunk} {cnt align a : ℕ}

/-- INTERNAL: the scan answers with the address of an index it has looked at, also when some `i + cnt`
wraps and the address falls behind the index.
SRCLINE: kernel/mm/pmm.cpp:105-120 -/
theorem allocLoop_page (m : Memory) {fuel i allocBase i' i₀ n k : ℕ} (hi : i = wrap (i₀ + n * align))
    (hbase : allocBase = wrap (c.base + wrap (i₀ + k * align) * pageSize)) (hkn : k ≤ n)
    (hseen : ∀ j < n, wrap (i₀ + j * align) < c.pageCnt)
    (h : allocLoop m c cnt align fuel i allocBase = some (i', a)) :
    ∃ j < c.pageCnt, a = wrap (c.base + j * pageSize) := by
  induction fuel generalizing i allocBase n k with
  | zero => cases h
  | succ fuel ih =>
    rw [allocLoop] at h
    by_cases hlt : i < c.pageCnt
    · rw [if_pos hlt] at h
      have hseen' : ∀ j < n + 1, wrap (i₀ + j * align) < c.pageCnt := by
        intro j hj
        by_cases hjn : j = n
        · rw [hjn, ← hi]
          exact hlt
        · exact hseen j (by omega)
      have hnext : wrap (i + align) = wrap (i₀ + (n + 1) * align) := by
        rw [hi, wrap_add_add, Nat.add_mul, Nat.one_mul]
      cases hs : scanWindow m c.bitmap cnt (wrap (i + cnt) - i) i 0 with
      | fits =>
        rw [hs] at h
        simp only [Option.some.injEq, Prod.mk.injEq] at h
        exact ⟨_, hseen' k (by omega), by rw [← h.2, hbase]⟩
      | taken =>
        rw [hs] at h
        refine ih hnext ?_ (Nat.succ_le_succ hkn) hseen' h
        rw [hbase, Nat.succ_mul]
        generalize k * align = x
        simp only [wrap, pageSize]
        omega
      | unread =>
        rw [hs] at h
        exact ih hnext hbase (by omega) hseen' h
    · rw [if_neg hlt] at h
      cases h

theorem chunk_alloc_page (hok : ChunksOk s.chunks) (hc : c ∈ s.chunks)
    (h : c.alloc s cnt align = some (s', a)) :
    s'.chunks = s.chunks ∧ (a = minusOne ∨ ∃ i < c.pageCnt, a = c.base + i * pageSize) := by
  rw [MemChunk.alloc] at h
  split at h
  · cases h
  · split at h
    · next i b hloop =>
      simp only [Option.some.injEq, Prod.mk.injEq] at h
      obtain ⟨rfl, rfl⟩ := h
      have hbit : c.bitBase align < 2 ^ 64 := lt_of_le_of_lt (Nat.div_le_self _ _) (wrap_lt _)
      have hstart : c.bitBase align = wrap (c.bitBase align + 0 * align) := by
        rw [Nat.zero_mul, Nat.add_zero, wrap_of_lt hbit]
      obtain ⟨j, hj, hb⟩ := allocLoop_page (k := 0) s.mem hstart
        (by rw [← hstart]; exact hok.allocBase_eq hc align) (Nat.le_refl 0)
        (fun j hj => absurd hj (Nat.not_lt_zero j)) hloop
      refine ⟨rfl, Or.inr ⟨j, hj, ?_⟩⟩
      rw [hb, hok.wrap_address hc hj]
    · simp only [Option.some.injEq, Prod.mk.injEq] at h
      obtain ⟨rfl, rfl⟩ := h
      exact ⟨rfl, Or.inl rfl⟩

/-- **What `pmm::alloc` returns is a page of a chunk**, or `-1`, whatever the bitmaps hold.
SRCLINE: kernel/mm/pmm.cpp:99-154 -/
theorem alloc_returns_page (hok : ChunksOk s.chunks) (h : s.alloc cnt align = some (s', a)) :
    s'.chunks = s.chunks ∧
      (a = minusOne ∨ ∃ c ∈ s.chunks, ∃ i < c.pageCnt, a = c.base + i * pageSize) := by
  have hfrom : ∀ (rest : List MemChunk) (s : Pmm), ChunksOk s.chunks → (∀ c ∈ rest, c ∈ s.chunks) →
      Pmm.allocFrom cnt align rest s = some (s', a) → s'.chunks = s.chunks ∧
        (a = minusOne ∨ ∃ c ∈ s.chunks, ∃ i < c.pageCnt, a = c.base + i * pageSize) := by
    intro rest
    induction rest with
    | nil =>
      intro s _ _ h
      simp only [Pmm.allocFrom, Option.some.injEq, Prod.mk.injEq] at h
      exact ⟨by rw [h.1], Or.inl h.2.symm⟩
    | cons c rest ih =>
      intro s hok hrest h
      have hc := hrest c List.mem_cons_self
      rw [Pmm.allocFrom] at h
      split at h
      · cases h
      · next s₁ b hcalloc =>
        obtain ⟨hchunks, hb⟩ := chunk_alloc_page hok hc hcalloc
        split at h
        · have hrest' : ∀ d ∈ rest, d ∈ s₁.chunks := by
            intro d hd
            rw [hchunks]
            exact hrest d (List.mem_cons_of_mem c hd)
          have hresult := ih s₁ (by rwa [hchunks]) hrest' h
          rwa [hchunks] at hresult
        · next hne =>
          simp only [Option.some.injEq, Prod.mk.injEq] at h
          obtain ⟨rfl, rfl⟩ := h
          exact ⟨hchunks, Or.inr ⟨c, hc, hb.resolve_left hne⟩⟩
  rw [Pmm.alloc] at h
  split at h
  · cases h
  · exact hfrom s.chunks s hok (fun _ hc => hc) h

theorem free_chunks {base : ℕ} (h : s.free base cnt = some s') : s'.chunks = s.chunks := by
  rw [Pmm.free] at h
  split at h
  · cases h
  · split at h
    · rw [← Option.some.inj h, MemChunk.free]
    · rw [← Option.some.inj h]

/-- INTERNAL: no call changes the chunk list. -/
theorem pmmStep_chunks {s t : PmmSystem} {call : PmmCall} (hok : ChunksOk s.pmm.chunks)
    (h : PmmStep s call t) : t.pmm.chunks = s.pmm.chunks := by
  cases h with
  | alloc _ _ _ _ ha => exact (alloc_returns_page hok ha).1
  | free _ hf => exact free_chunks hf

end Returned

/-! ## Every managed page is returned -/

/-- The pages are handed out up to page `i` of the chunk `c`, which the chunks of `before` precede. -/
structure HandedOut (m : Memory) (before : List MemChunk) (c : MemChunk) (after : List MemChunk)
    (i : ℕ) : Prop where
  before : ∀ d ∈ before, ∀ j < d.pageCnt, bmTest m d.bitmap j = true
  lower : ∀ j < i, bmTest m c.bitmap j = true
  upper : ∀ j, i ≤ j → j < c.pageCnt → bmTest m c.bitmap j = false
  after : ∀ d ∈ after, ∀ j < d.pageCnt, bmTest m d.bitmap j = false

section HandedOut

variable {s : Pmm} {before after : List MemChunk} {c : MemChunk} {i : ℕ}

/-- INTERNAL: looking for single pages, the scan looks at every index. -/
theorem start_one (hok : ChunksOk s.chunks) (hc : c ∈ s.chunks) (n : ℕ) (hn : n < 2 ^ 64) :
    start c 1 n = n := by
  have haligned := hok.aligned c hc
  have hbound := hok.bound c hc
  have hpage : toSigned (wrap (1 * pageSize)) = (pageSize : ℤ) := by decide
  have hbase : c.allocBase 1 = c.base := by
    rw [MemChunk.allocBase, hpage, alignUp_pageSize (by omega)]
    simp only [pageSize] at haligned
    omega
  have hbit : c.bitBase 1 = 0 := by
    have hwrap : wrap (c.base + (2 ^ 64 - c.base)) = 0 := by
      unfold wrap
      omega
    rw [MemChunk.bitBase, hbase, hwrap, Nat.zero_div]
  rw [start, hbit, Nat.zero_add, Nat.mul_one, wrap_of_lt hn]

/-- INTERNAL: a chunk whose pages are all handed out is passed over. -/
theorem chunk_alloc_full (hok : ChunksOk s.chunks) (hc : c ∈ s.chunks)
    (hfull : ∀ j < c.pageCnt, bmTest s.mem c.bitmap j = true) :
    c.alloc s 1 1 = some (s, minusOne) := by
  have hbound := hok.bound c hc
  have hcnt : c.pageCnt ≤ 2 ^ 63 := by
    simp only [pageSize] at hbound
    omega
  have hresult : ∃ r, c.alloc s 1 1 = some r := by
    rw [MemChunk.alloc, if_neg (by decide)]
    split
    · exact ⟨_, rfl⟩
    · exact ⟨_, rfl⟩
  obtain ⟨⟨s', a⟩, halloc⟩ := hresult
  rcases chunk_alloc_cases (Nat.le_refl 1) (by omega) (Nat.le_refl 1) (by omega) hcnt halloc with
    ⟨rfl, rfl, -⟩ | ⟨n, hlook, hfit, -⟩
  · exact halloc
  · have hlt := hlook n (Nat.le_refl n)
    have hclear := hfit.2 _ (Nat.le_refl _) (Nat.lt_succ_self _)
    rw [hfull _ hlt] at hclear
    cases hclear

/-- INTERNAL: from a chunk whose first `i` pages are handed out, page `i` comes next. -/
theorem chunk_alloc_next (hok : ChunksOk s.chunks) (hc : c ∈ s.chunks) (hi : i < c.pageCnt)
    (hlower : ∀ j < i, bmTest s.mem c.bitmap j = true) (hclear : bmTest s.mem c.bitmap i = false) :
    c.alloc s 1 1 = some ({ s with
      mem := s.mem.setRun c.bitmap i 1
      totalUsedMem := wrap (s.totalUsedMem + 1 * pageSize) }, c.base + i * pageSize) := by
  have hbound := hok.bound c hc
  have hcnt : c.pageCnt ≤ 2 ^ 52 := by
    simp only [pageSize] at hbound
    omega
  have hone : ∀ k ≤ i, start c 1 k = k := fun k hk => start_one hok hc k (by omega)
  have hfit : FitsAt s.mem c 1 (start c 1 i) := by
    rw [hone i (Nat.le_refl i)]
    refine ⟨by omega, ?_⟩
    intro j hj hj'
    obtain rfl : j = i := by omega
    exact hclear
  have hlooks : Looks c 1 i := by
    intro k hk
    rw [hone k hk]
    omega
  have hresult : ∃ r, c.alloc s 1 1 = some r := by
    rw [MemChunk.alloc, if_neg (by decide)]
    split
    · exact ⟨_, rfl⟩
    · exact ⟨_, rfl⟩
  obtain ⟨⟨s', a⟩, halloc⟩ := hresult
  rcases chunk_alloc_cases (Nat.le_refl 1) (by omega) (Nat.le_refl 1) (by omega) (by omega) halloc with
    ⟨-, -, hno⟩ | ⟨n, hlook, hn, hmin, hloop, rfl⟩
  · exact absurd ⟨i, hlooks, hfit⟩ hno
  · have hni : ¬ i < n := fun hlt => hmin i hlt hfit
    have hin : ¬ n < i := by
      intro hlt
      have hbit := hn.2 (start c 1 n) (Nat.le_refl _) (Nat.lt_succ_self _)
      rw [hone n (by omega), hlower n hlt] at hbit
      cases hbit
    obtain rfl : n = i := by omega
    have haddr := allocLoop_address s.mem c (Nat.le_refl 1) (by omega) (hok.allocBase_eq hc 1) hloop
    rw [hone n (Nat.le_refl n), hok.wrap_address hc hi] at haddr
    rw [halloc, hone n (Nat.le_refl n), haddr]

/-- **Single pages are handed out in order.** -/
theorem alloc_next (hok : ChunksOk s.chunks) (hsplit : s.chunks = before ++ c :: after)
    (hi : i < c.pageCnt) (hout : HandedOut s.mem before c after i) :
    ∃ s', s.alloc 1 1 = some (s', c.base + i * pageSize) ∧ s'.chunks = s.chunks ∧
      HandedOut s'.mem before c after (i + 1) := by
  have hc : c ∈ s.chunks := by
    rw [hsplit]
    exact List.mem_append_right _ List.mem_cons_self
  have hbound := hok.bound c hc
  have hne : c.base + i * pageSize ≠ minusOne := by
    simp only [minusOne, pageSize] at *
    omega
  have hskip : ∀ l, (∀ d ∈ l, d ∈ before) →
      Pmm.allocFrom 1 1 (l ++ c :: after) s = Pmm.allocFrom 1 1 (c :: after) s := by
    intro l hl
    induction l with
    | nil => rfl
    | cons d l ih =>
      have hd := hl d List.mem_cons_self
      have hdmem : d ∈ s.chunks := by
        rw [hsplit]
        exact List.mem_append_left _ hd
      rw [List.cons_append, Pmm.allocFrom, chunk_alloc_full hok hdmem (hout.before d hd)]
      simp only [if_true]
      exact ih fun d hd => hl d (List.mem_cons_of_mem _ hd)
  have hnext := chunk_alloc_next hok hc hi hout.lower (hout.upper i (Nat.le_refl i) hi)
  have hset : ∀ d ∈ s.chunks, ∀ j < d.pageCnt, bmTest (s.mem.setRun c.bitmap i 1) d.bitmap j =
      (decide (d = c ∧ i ≤ j ∧ j < i + 1) || bmTest s.mem d.bitmap j) :=
    fun d hd j hj => hok.bmTest_setRun hc hd s.mem (by omega) hj
  -- the chunks are pairwise different, since they share no bitmap byte
  have hafter : ∀ d ∈ after, d.pageCnt ≠ 0 → d ≠ c := by
    rintro d hd hcnt rfl
    have hpair := hok.bitmaps
    rw [hsplit, List.pairwise_append, List.pairwise_cons] at hpair
    have hap := hpair.2.1.1 d hd
    have hsize := hok.bitmapSize d hc
    unfold BitmapsApart at hap
    omega
  have hfrom : s.alloc 1 1 = Pmm.allocFrom 1 1 (c :: after) s := by
    rw [Pmm.alloc, if_neg (List.ne_nil_of_mem hc), hsplit]
    exact hskip before fun _ hd => hd
  refine ⟨{ s with
    mem := s.mem.setRun c.bitmap i 1
    totalUsedMem := wrap (s.totalUsedMem + 1 * pageSize) }, ?_, rfl, ⟨?_, ?_, ?_, ?_⟩⟩
  · rw [hfrom, Pmm.allocFrom, hnext]
    simp only [if_neg hne]
  · intro d hd j hj
    have hdmem : d ∈ s.chunks := by
      rw [hsplit]
      exact List.mem_append_left _ hd
    simp only
    rw [hset d hdmem j hj, hout.before d hd j hj, Bool.or_true]
  · intro j hj
    simp only
    rw [hset c hc j (by omega)]
    by_cases hji : j = i
    · simp [hji]
    · rw [hout.lower j (by omega), Bool.or_true]
  · intro j hij hj
    simp only
    rw [hset c hc j hj, hout.upper j (by omega) hj]
    have hno : ¬ j < i + 1 := by omega
    simp [hno]
  · intro d hd j hj
    have hdmem : d ∈ s.chunks := by
      rw [hsplit]
      exact List.mem_append_right _ (List.mem_cons_of_mem c hd)
    simp only
    rw [hset d hdmem j hj, hout.after d hd j hj]
    simp [hafter d hd (by omega)]

/-- INTERNAL: the pages of one chunk, one after the other. -/
theorem run_handedOut {pmm₀ : Pmm} (hok : ChunksOk pmm₀.chunks)
    (hsplit : pmm₀.chunks = before ++ c :: after)
    (hstart : ∃ l st, Run PmmStep ⟨pmm₀, []⟩ l st ∧ st.pmm.chunks = pmm₀.chunks ∧
      HandedOut st.pmm.mem before c after 0) (hi : i ≤ c.pageCnt) :
    ∃ l st, Run PmmStep ⟨pmm₀, []⟩ l st ∧ st.pmm.chunks = pmm₀.chunks ∧
      HandedOut st.pmm.mem before c after i := by
  induction i with
  | zero => exact hstart
  | succ i ih =>
    obtain ⟨l, st, hrun, hchunks, hout⟩ := ih (by omega)
    rw [← hchunks] at hok hsplit
    obtain ⟨s', halloc, hchunks', hout'⟩ := alloc_next hok hsplit hi hout
    have hstep := PmmStep.alloc (s := st) (Nat.le_refl 1) (by omega) (Nat.le_refl 1) (by omega) halloc
    exact ⟨_, _, Run.snoc hrun hstep, hchunks'.trans hchunks, hout'⟩

/-- INTERNAL: the chunks, one after the other. -/
theorem run_before {pmm₀ : Pmm} (hok : ChunksOk pmm₀.chunks)
    (hclear : ∀ d ∈ pmm₀.chunks, ∀ j < d.pageCnt, bmTest pmm₀.mem d.bitmap j = false)
    (hsplit : pmm₀.chunks = before ++ c :: after) :
    ∃ l st, Run PmmStep ⟨pmm₀, []⟩ l st ∧ st.pmm.chunks = pmm₀.chunks ∧
      HandedOut st.pmm.mem before c after 0 := by
  induction before using List.reverseRecOn generalizing c after with
  | nil =>
    refine ⟨[], ⟨pmm₀, []⟩, Run.nil, rfl, fun d hd => (nomatch hd), fun j hj => (nomatch hj), ?_, ?_⟩
    · intro j _ hj
      apply hclear c _ j hj
      rw [hsplit]
      exact List.mem_append_right _ List.mem_cons_self
    · intro d hd j hj
      apply hclear d _ j hj
      rw [hsplit]
      exact List.mem_append_right _ (List.mem_cons_of_mem c hd)
  | append_singleton before d ih =>
    rw [List.append_assoc, List.singleton_append] at hsplit
    obtain ⟨l, st, hrun, hchunks, hout⟩ :=
      run_handedOut hok hsplit (ih hsplit) (Nat.le_refl d.pageCnt)
    refine ⟨l, st, hrun, hchunks, ?_, fun j hj => (nomatch hj), ?_, ?_⟩
    · intro e he j hj
      rcases List.mem_append.mp he with he | he
      · exact hout.before e he j hj
      · rw [List.mem_singleton.mp he] at hj ⊢
        exact hout.lower j hj
    · intro j _ hj
      exact hout.after c List.mem_cons_self j hj
    · intro e he
      exact hout.after e (List.mem_cons_of_mem c he)

end HandedOut

/-- **The pages that `pmm::alloc` can return are the managed ones.**
SRCLINE: kernel/mm/pmm.cpp:35-170 -/
theorem returnable_iff (mem : Memory) {mmap : List StivaleMmap} (h : StivaleOk mmap) (a : ℕ) :
    Returnable mem mmap a ↔ ManagedPage mmap a := by
  have hinit := pmmInit_chunks mem h
  rw [← hinit.managed a]
  constructor
  · rintro ⟨l, st, cnt, align, pmm', hrun, -, -, -, -, halloc, hne⟩
    -- the chunks stay as `pmm::init` left them
    have hchunks : st.pmm.chunks = (pmmInit mem mmap).chunks := by
      refine hrun.invariant (fun st => st.pmm.chunks = (pmmInit mem mmap).chunks) ?_ rfl
      intro s call t hs hstep
      rw [pmmStep_chunks (by rw [hs]; exact hinit.chunks) hstep, hs]
    obtain ⟨-, hpage⟩ := alloc_returns_page (by rw [hchunks]; exact hinit.chunks) halloc
    rw [← hchunks]
    exact hpage.resolve_left hne
  · rintro ⟨c, hc, i, hi, rfl⟩
    obtain ⟨before, after, hsplit⟩ := List.append_of_mem hc
    obtain ⟨l, st, hrun, hchunks, hout⟩ := run_handedOut hinit.chunks hsplit
      (run_before hinit.chunks hinit.clear hsplit) (Nat.le_of_lt hi)
    rw [← hchunks] at hsplit
    obtain ⟨s', halloc, -⟩ := alloc_next (by rw [hchunks]; exact hinit.chunks) hsplit hi hout
    have hbound := hinit.chunks.bound c hc
    refine ⟨l, st, 1, 1, s', hrun, by omega, by omega, by omega, by omega, halloc, ?_⟩
    simp only [minusOne, pageSize] at *
    omega

end CrepOS.Analysis
