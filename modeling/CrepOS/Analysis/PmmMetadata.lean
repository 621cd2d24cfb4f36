import CrepOS.Library.Ranges
import CrepOS.Analysis.PmmManaged
import Mathlib.Algebra.BigOperators.Ring.List
import Mathlib.Algebra.Order.BigOperators.Group.List

/-!
# Where `pmm::init` puts the chunk headers and bitmaps

The chunks are pages of different usable entries (`InitSafe.pages`, `InitSafe.inside`). The headers and
bitmaps are put at the start of the entry that gives the buffer, whose chunk starts `max_size` bytes
later, at the next page. `max_size` is computed with bitmaps rounded down, the bitmaps are made rounded
up. The rounding to a page usually makes up for that; where it does not, the last bitmaps lie in pages
that are handed out (`initSafe_iff`).
-/

set_option autoImplicit false

namespace CrepOS.Analysis

open CrepOS.Library CrepOS.Model

/-! ## The memory map -/

/-- Two entries share no byte. -/
abbrev EntriesApart (e f : StivaleMmap) : Prop := IntervalsApart StivaleMmap.addr StivaleMmap.len e f

/-- The type-1 entries are page-aligned, non-empty and pairwise disjoint ranges of physical addresses, in
any order, and one of them is large enough for the metadata. -/
structure MapOk (mmap : List StivaleMmap) : Prop where
  aligned : ∀ e ∈ mmap, e.type = 1 → pageSize ∣ e.addr ∧ pageSize ∣ e.len
  nonempty : ∀ e ∈ mmap, e.type = 1 → e.len ≠ 0
  bound : ∀ e ∈ mmap, e.type = 1 → e.addr + e.len ≤ 2 ^ 52
  apart : (mmap.filter fun e => e.type = 1).Pairwise EntriesApart
  large : ∃ e ∈ mmap, e.type = 1 ∧ maxSize mmap ≤ e.len

/-- The pages of an entry, from the first one that starts in it. -/
def wholePages (e : StivaleMmap) : PageRange :=
  ⟨(e.addr + 4095) / 4096 * 4096, (e.addr + e.len) / 4096 - (e.addr + 4095) / 4096⟩

/-- The room for the header and the bitmap of an entry. -/
def entryRoom (e : StivaleMmap) : ℕ := memChunkSize + ((wholePages e).cnt + 7) / 8

/-- The entries that become chunks. -/
def chunkEntries (mmap : List StivaleMmap) : List StivaleMmap :=
  (managedEntries mmap).filter fun e => e.type = 1 ∧ e.len ≠ 0

/-- The room for all headers and bitmaps. -/
def metadataSize (mmap : List StivaleMmap) : ℕ := ((chunkEntries mmap).map entryRoom).sum

/-- `max_size` rounded up to a page. -/
def reservedSize (mmap : List StivaleMmap) : ℕ := (maxSize mmap + 4095) / 4096 * 4096

/-- The headers and bitmaps fit in the pages that are set aside for them, or these are all pages of their
entry and the next managed entry is far enough. -/
def MetadataFits (mmap : List StivaleMmap) : Prop :=
  match mmap.dropWhile fun e => ¬ (e.type = 1 ∧ maxSize mmap ≤ e.len) with
  | [] => True
  | e :: es => metadataSize mmap ≤ reservedSize mmap ∨
      e.len = reservedSize mmap ∧
        ∀ f ∈ es, f.type = 1 → f.addr < e.addr ∨ e.addr + metadataSize mmap ≤ f.addr

/-! ## What `pmm::init` leaves -/

/-- The last loop of `pmm::init`. -/
def pmmBuilt (mem : Memory) (mmap : List StivaleMmap) : PmmBuild :=
  (managedEntries mmap).foldl PmmBuild.addEntry ⟨mem, firstBuffer mmap, []⟩

/-- The physical address `a` lies between the first and the last value of `mem_chunk::buffer`. -/
def InMetadata (mem : Memory) (mmap : List StivaleMmap) (a : ℕ) : Prop :=
  ∃ k < wrap ((pmmBuilt mem mmap).buffer + (2 ^ 64 - firstBuffer mmap)),
    wrap (a + highVma.toNat) = wrap (firstBuffer mmap + k)

/-- The chunks share no page, each lies inside one type-1 entry, and none of their pages has a byte of the
headers and bitmaps. -/
structure InitSafe (mem : Memory) (mmap : List StivaleMmap) : Prop where
  pages : (pmmInit mem mmap).chunks.Pairwise PagesApart
  inside : ∀ c ∈ (pmmInit mem mmap).chunks, ∃ e ∈ mmap, e.type = 1 ∧ e.addr ≤ c.base ∧
    c.base + c.pageCnt * pageSize ≤ e.addr + e.len
  metadata : ∀ c ∈ (pmmInit mem mmap).chunks, ∀ a, c.base ≤ a →
    a < c.base + c.pageCnt * pageSize → ¬ InMetadata mem mmap a

/-! ## The last loop -/

/-- The pages of a chunk. -/
def chunkPages (c : MemChunk) : PageRange := ⟨c.base, c.pageCnt⟩

section Loop

variable {b : PmmBuild} {e : StivaleMmap} {es : List StivaleMmap}

/-- INTERNAL: the chunk of an entry.
SRCLINE: kernel/mm/pmm.cpp:66-76, 81-97 -/
theorem Added.pages_room {b' : PmmBuild} {c : MemChunk} (h : Added b b' e c)
    (hdvd : pageSize ∣ e.addr + e.len) :
    chunkPages c = wholePages e ∧ memChunkSize + c.bitmapSize = entryRoom e := by
  have hbase := h.base
  have hstop := h.stop
  have hcnt : c.pageCnt = (wholePages e).cnt := by
    unfold wholePages
    simp only [pageSize] at *
    omega
  refine ⟨?_, ?_⟩
  · unfold chunkPages
    rw [hcnt, hbase]
    rfl
  · unfold entryRoom
    rw [h.bitmapSize, hcnt]

/-- INTERNAL: the loop adds a chunk for each entry with room for it, one behind the other.
SRCLINE: kernel/mm/pmm.cpp:64-78 -/
theorem foldl_addEntry (hbuffer : b.buffer < 2 ^ 64)
    (hes : ∀ e ∈ es, e.type = 1 → pageSize ∣ e.addr + e.len ∧ e.addr + e.len ≤ 2 ^ 52) :
    (es.foldl PmmBuild.addEntry b).chunks.map chunkPages =
        b.chunks.map chunkPages ++ (es.filter fun e => e.type = 1 ∧ e.len ≠ 0).map wholePages ∧
      (es.foldl PmmBuild.addEntry b).buffer =
        wrap (b.buffer + ((es.filter fun e => e.type = 1 ∧ e.len ≠ 0).map entryRoom).sum) := by
  induction es generalizing b with
  | nil =>
    refine ⟨by simp, ?_⟩
    exact (wrap_of_lt hbuffer).symm
  | cons e es ih =>
    have hrest : ∀ f ∈ es, f.type = 1 → pageSize ∣ f.addr + f.len ∧ f.addr + f.len ≤ 2 ^ 52 :=
      fun f hf => hes f (List.mem_cons_of_mem _ hf)
    rw [List.foldl_cons]
    by_cases he : e.type = 1 ∧ e.len ≠ 0
    · obtain ⟨hdvd, hend⟩ := hes e List.mem_cons_self he.1
      obtain ⟨c, hadd⟩ := addEntry_added hbuffer he.1 he.2 hdvd hend
      obtain ⟨hpages, hroom⟩ := hadd.pages_room hdvd
      have hlt : (b.addEntry e).buffer < 2 ^ 64 := by
        rw [hadd.buffer]
        exact wrap_lt _
      obtain ⟨hchunks, hend'⟩ := ih hlt hrest
      rw [List.filter_cons_of_pos (by simpa using he)]
      refine ⟨?_, ?_⟩
      · rw [hchunks, hadd.chunks, List.map_append, List.map_singleton, hpages, List.map_cons,
          List.append_assoc, List.singleton_append]
      · rw [hend', hadd.buffer, hroom, wrap_add_add, List.map_cons, List.sum_cons]
    · have hsame : b.addEntry e = b := by rw [PmmBuild.addEntry, if_neg he]
      rw [hsame, List.filter_cons_of_neg (by simpa using he)]
      exact ih hbuffer hrest

end Loop

/-! ## The entries that become chunks -/

/-- The entry that gives the buffer, after it has lost the metadata. -/
def trimmed (mmap : List StivaleMmap) (e : StivaleMmap) : StivaleMmap :=
  ⟨e.addr + maxSize mmap, e.len - maxSize mmap, e.type⟩

/-- The entry `e` gives the buffer, and `es` are the entries behind it. -/
structure GivesBuffer (mmap : List StivaleMmap) (e : StivaleMmap) (es : List StivaleMmap) : Prop where
  drop : mmap.dropWhile (fun e => ¬ (e.type = 1 ∧ maxSize mmap ≤ e.len)) = e :: es
  mem : e ∈ mmap
  rest : ∀ f ∈ es, f ∈ mmap
  type : e.type = 1
  large : maxSize mmap ≤ e.len
  apart : ∀ f ∈ es, f.type = 1 → EntriesApart e f
  others : (es.filter fun e => e.type = 1).Pairwise EntriesApart
  managed : managedEntries mmap = trimmed mmap e :: es
  buffer : firstBuffer mmap = wrap (e.addr + highVma.toNat)

section Map

variable {mmap es : List StivaleMmap} {e f : StivaleMmap}

/-- INTERNAL: some entry gives the buffer.
SRCLINE: kernel/mm/pmm.cpp:55-62 -/
theorem MapOk.givesBuffer (h : MapOk mmap) : ∃ e es, GivesBuffer mmap e es := by
  obtain ⟨e, hfind⟩ : ∃ e, (mmap.find? fun e => e.type = 1 ∧ maxSize mmap ≤ e.len) = some e := by
    obtain ⟨g, hg, hlarge⟩ := h.large
    apply Option.isSome_iff_exists.mp
    rw [List.find?_isSome]
    exact ⟨g, hg, by simpa using hlarge⟩
  obtain ⟨he, before, es, hsplit, hbefore⟩ := List.find?_eq_some_iff_append.mp hfind
  simp only [decide_eq_true_eq] at he
  obtain ⟨htype, hlarge⟩ := he
  have hdrop : mmap.dropWhile (fun e => ¬ (e.type = 1 ∧ maxSize mmap ≤ e.len)) = e :: es := by
    generalize maxSize mmap = size at *
    rw [hsplit, List.dropWhile_append_of_pos, List.dropWhile_cons_of_neg]
    · simp [htype, hlarge]
    · intro f hf
      simpa using hbefore f hf
  have hmem : ∀ f ∈ e :: es, f ∈ mmap := by
    intro f hf
    rw [hsplit]
    exact List.mem_append_right _ hf
  have he := hmem e List.mem_cons_self
  have hend := h.bound e he htype
  have hpair : ((e :: es).filter fun e => e.type = 1).Pairwise EntriesApart := by
    refine List.Pairwise.sublist (List.Sublist.filter _ ?_) h.apart
    rw [hsplit]
    exact List.sublist_append_right _ _
  rw [List.filter_cons_of_pos (by simpa using htype), List.pairwise_cons] at hpair
  refine ⟨e, es, hdrop, he, fun f hf => hmem f (List.mem_cons_of_mem _ hf), htype, hlarge, ?_,
    hpair.2, ?_, ?_⟩
  · intro f hf hf'
    exact hpair.1 f (List.mem_filter.mpr ⟨hf, by simpa using hf'⟩)
  · have hwrap : wrap (e.addr + maxSize mmap) = e.addr + maxSize mmap := wrap_of_lt (by omega)
    unfold managedEntries
    rw [hdrop]
    simp only [hwrap]
    rfl
  · unfold firstBuffer
    rw [hfind]

/-- INTERNAL: the entries that become chunks are the rest of the first one, if there is any, and the usable
ones behind it. -/
theorem GivesBuffer.mem_chunkEntries (h : GivesBuffer mmap e es) (hok : MapOk mmap) :
    f ∈ chunkEntries mmap ↔ f = trimmed mmap e ∧ maxSize mmap < e.len ∨ f ∈ es ∧ f.type = 1 := by
  have htype := h.type
  unfold chunkEntries
  rw [h.managed]
  simp only [List.mem_filter, List.mem_cons, decide_eq_true_eq]
  constructor
  · rintro ⟨rfl | hf, hftype, hlen⟩
    · simp only [trimmed] at hlen
      exact Or.inl ⟨rfl, by omega⟩
    · exact Or.inr ⟨hf, hftype⟩
  · rintro (⟨rfl, hlen⟩ | ⟨hf, hftype⟩)
    · refine ⟨Or.inl rfl, htype, ?_⟩
      simp only [trimmed]
      omega
    · exact ⟨Or.inr hf, hftype, hok.nonempty f (h.rest f hf) hftype⟩

/-- INTERNAL: an entry that becomes a chunk is the end of a type-1 entry. -/
theorem GivesBuffer.inside (h : GivesBuffer mmap e es) (hok : MapOk mmap) (hf : f ∈ chunkEntries mmap) :
    ∃ g ∈ mmap, g.type = 1 ∧ g.addr ≤ f.addr ∧ f.addr + f.len = g.addr + g.len := by
  have hlarge := h.large
  rcases (h.mem_chunkEntries hok).mp hf with ⟨rfl, -⟩ | ⟨hmem, htype⟩
  · refine ⟨e, h.mem, h.type, ?_, ?_⟩
    · exact Nat.le_add_right _ _
    · simp only [trimmed]
      omega
  · exact ⟨f, h.rest f hmem, htype, Nat.le_refl _, rfl⟩

/-- INTERNAL: such an entry ends at a page of physical memory. -/
theorem GivesBuffer.ends (h : GivesBuffer mmap e es) (hok : MapOk mmap) (hf : f ∈ chunkEntries mmap) :
    pageSize ∣ f.addr + f.len ∧ f.addr + f.len ≤ 2 ^ 52 := by
  obtain ⟨g, hg, htype, -, hend⟩ := h.inside hok hf
  obtain ⟨haddr, hlen⟩ := hok.aligned g hg htype
  rw [hend]
  exact ⟨Nat.dvd_add haddr hlen, hok.bound g hg htype⟩

/-- INTERNAL: the entries that become chunks share no byte. -/
theorem GivesBuffer.chunkEntries_apart (h : GivesBuffer mmap e es) :
    (chunkEntries mmap).Pairwise EntriesApart := by
  have hlarge := h.large
  have hsub : (chunkEntries mmap).Sublist ((trimmed mmap e :: es).filter fun e => e.type = 1) := by
    unfold chunkEntries
    rw [h.managed]
    apply List.monotone_filter_right
    intro g hg
    simp only [decide_eq_true_eq] at hg ⊢
    exact hg.1
  refine List.Pairwise.sublist hsub ?_
  rw [List.filter_cons_of_pos (by simp only [trimmed, h.type, decide_true]), List.pairwise_cons]
  refine ⟨fun f hf => ?_, h.others⟩
  obtain ⟨hmem, htype⟩ := List.mem_filter.mp hf
  have hap := h.apart f hmem (by simpa using htype)
  unfold EntriesApart IntervalsApart at hap ⊢
  simp only [trimmed]
  omega

/-- INTERNAL: the whole pages of an entry that ends at a page. -/
theorem wholePages_stop (hdvd : pageSize ∣ f.addr + f.len) :
    f.addr ≤ (wholePages f).addr ∧
      (wholePages f).addr + (wholePages f).cnt * pageSize = f.addr + f.len := by
  unfold wholePages
  simp only [pageSize] at *
  omega

/-- INTERNAL: the metadata is far smaller than the range of a word. -/
theorem GivesBuffer.metadataSize_le (h : GivesBuffer mmap e es) (hok : MapOk mmap) :
    metadataSize mmap ≤ 58 * 2 ^ 52 := by
  have hlens : ((chunkEntries mmap).map StivaleMmap.len).sum ≤ 2 ^ 52 :=
    sum_len_le h.chunkEntries_apart fun f hf => (h.ends hok hf).2
  have hsum : metadataSize mmap ≤ ((chunkEntries mmap).map fun f => 58 * f.len).sum := by
    apply List.sum_le_sum
    intro f hf
    have hstop := wholePages_stop (h.ends hok hf).1
    have hlen : f.len ≠ 0 := by
      unfold chunkEntries at hf
      have hkeep := (List.mem_filter.mp hf).2
      simp only [decide_eq_true_eq] at hkeep
      exact hkeep.2
    simp only [entryRoom, memChunkSize, pageSize] at *
    omega
  rw [List.sum_map_mul_left] at hsum
  omega

/-- INTERNAL: the chunks have the pages of their entries, and the buffer has moved by their room.
SRCLINE: kernel/mm/pmm.cpp:64-97 -/
theorem GivesBuffer.built (h : GivesBuffer mmap e es) (hok : MapOk mmap) (mem : Memory) :
    (pmmInit mem mmap).chunks.map chunkPages = (chunkEntries mmap).map wholePages ∧
      (pmmBuilt mem mmap).buffer = wrap (firstBuffer mmap + metadataSize mmap) := by
  have hlarge := h.large
  have hends : ∀ f ∈ managedEntries mmap, f.type = 1 →
      pageSize ∣ f.addr + f.len ∧ f.addr + f.len ≤ 2 ^ 52 := by
    intro f hf htype
    rw [h.managed] at hf
    rcases List.mem_cons.mp hf with rfl | hf
    · have hsame : e.addr + maxSize mmap + (e.len - maxSize mmap) = e.addr + e.len := by omega
      obtain ⟨haddr, hlen⟩ := hok.aligned e h.mem h.type
      simp only [trimmed, hsame]
      exact ⟨Nat.dvd_add haddr hlen, hok.bound e h.mem h.type⟩
    · obtain ⟨haddr, hlen⟩ := hok.aligned f (h.rest f hf) htype
      exact ⟨Nat.dvd_add haddr hlen, hok.bound f (h.rest f hf) htype⟩
  exact foldl_addEntry (b := ⟨mem, firstBuffer mmap, []⟩) (firstBuffer_lt mmap) hends

/-- INTERNAL: the metadata starts where the entry that gives the buffer does. -/
theorem GivesBuffer.inMetadata_iff (h : GivesBuffer mmap e es) (hok : MapOk mmap) (mem : Memory) {a : ℕ}
    (ha : a ≤ 2 ^ 52) : InMetadata mem mmap a ↔ e.addr ≤ a ∧ a < e.addr + metadataSize mmap := by
  have hsize := h.metadataSize_le hok
  have hend := hok.bound e h.mem h.type
  have hfirst := firstBuffer_lt mmap
  have hlen : wrap ((pmmBuilt mem mmap).buffer + (2 ^ 64 - firstBuffer mmap)) = metadataSize mmap := by
    rw [(h.built hok mem).2]
    unfold wrap
    omega
  unfold InMetadata
  rw [hlen, h.buffer]
  generalize highVma.toNat = high
  constructor
  · rintro ⟨k, hk, heq⟩
    unfold wrap at heq
    omega
  · rintro ⟨hlow, hhigh⟩
    refine ⟨a - e.addr, by omega, ?_⟩
    unfold wrap
    omega

/-- INTERNAL: what the chunks have to keep away from is the metadata, as ranges of the map.
SRCLINE: kernel/mm/pmm.cpp:55-97 -/
theorem GivesBuffer.metadata_iff (h : GivesBuffer mmap e es) (hok : MapOk mmap) (mem : Memory) :
    (∀ c ∈ (pmmInit mem mmap).chunks, ∀ a, c.base ≤ a → a < c.base + c.pageCnt * pageSize →
        ¬ InMetadata mem mmap a) ↔
      ∀ f ∈ chunkEntries mmap, ∀ a, (wholePages f).addr ≤ a → a < f.addr + f.len →
        ¬ (e.addr ≤ a ∧ a < e.addr + metadataSize mmap) := by
  have hmap := (h.built hok mem).1
  constructor
  · intro hchunks f hf a hlow hhigh hin
    obtain ⟨hdvd, hend⟩ := h.ends hok hf
    have hstop := (wholePages_stop hdvd).2
    have hmem : wholePages f ∈ (pmmInit mem mmap).chunks.map chunkPages := by
      rw [hmap]
      exact List.mem_map_of_mem hf
    obtain ⟨c, hc, hpages⟩ := List.mem_map.mp hmem
    rw [← hpages] at hlow hstop
    have hlt : a < c.base + c.pageCnt * pageSize := by
      unfold chunkPages at hstop
      simp only at hstop
      omega
    exact hchunks c hc a hlow hlt ((h.inMetadata_iff hok mem (by omega)).mpr hin)
  · intro hentries c hc a hlow hhigh hin
    have hmem : chunkPages c ∈ (chunkEntries mmap).map wholePages := by
      rw [← hmap]
      exact List.mem_map_of_mem hc
    obtain ⟨f, hf, hpages⟩ := List.mem_map.mp hmem
    obtain ⟨hdvd, hend⟩ := h.ends hok hf
    have hstop := (wholePages_stop hdvd).2
    rw [hpages] at hstop
    have hlt : a < f.addr + f.len := by
      rw [← hstop]
      exact hhigh
    refine hentries f hf a ?_ hlt ((h.inMetadata_iff hok mem (by omega)).mp hin)
    rw [hpages]
    exact hlow

/-- INTERNAL: where the pages of the two kinds of entries start. -/
theorem GivesBuffer.first_page (h : GivesBuffer mmap e es) (hok : MapOk mmap) :
    (wholePages (trimmed mmap e)).addr = e.addr + reservedSize mmap ∧ reservedSize mmap ≤ e.len ∧
      ∀ f ∈ es, f.type = 1 → (wholePages f).addr = f.addr := by
  have hlarge := h.large
  obtain ⟨haddr, hlen⟩ := hok.aligned e h.mem h.type
  refine ⟨?_, ?_, ?_⟩
  · simp only [wholePages, trimmed, reservedSize, pageSize] at *
    omega
  · simp only [reservedSize, pageSize] at *
    omega
  · intro f hf htype
    obtain ⟨hdvd, -⟩ := hok.aligned f (h.rest f hf) htype
    simp only [wholePages, pageSize] at *
    omega

/-- INTERNAL: the pages of the chunks have no byte of the metadata exactly if it fits. -/
theorem GivesBuffer.fits_iff (h : GivesBuffer mmap e es) (hok : MapOk mmap) :
    (∀ f ∈ chunkEntries mmap, ∀ a, (wholePages f).addr ≤ a → a < f.addr + f.len →
        ¬ (e.addr ≤ a ∧ a < e.addr + metadataSize mmap)) ↔ MetadataFits mmap := by
  have hlarge := h.large
  have hmem := fun f => h.mem_chunkEntries (f := f) hok
  obtain ⟨hpage, hreserved, hpages⟩ := h.first_page hok
  have hmax : maxSize mmap ≤ reservedSize mmap := by
    unfold reservedSize
    omega
  unfold MetadataFits
  rw [h.drop]
  simp only
  constructor
  · intro hsafe
    by_cases hfits : metadataSize mmap ≤ reservedSize mmap
    · exact Or.inl hfits
    · refine Or.inr ⟨?_, fun f hf htype => ?_⟩
      · -- otherwise the first page of the chunk has a byte of the metadata
        by_contra hne
        apply hsafe (trimmed mmap e) ((hmem _).mpr (Or.inl ⟨rfl, by omega⟩)) (e.addr + reservedSize mmap)
        · rw [hpage]
        · simp only [trimmed]
          omega
        · omega
      · by_contra hbetween
        have hlen := hok.nonempty f (h.rest f hf) htype
        apply hsafe f ((hmem _).mpr (Or.inr ⟨hf, htype⟩)) f.addr
        · rw [hpages f hf htype]
        · omega
        · omega
  · rintro hfits f hf a hlow hhigh ⟨hin, hin'⟩
    rcases (hmem f).mp hf with ⟨rfl, -⟩ | ⟨hf, htype⟩
    · rw [hpage] at hlow
      simp only [trimmed] at hhigh
      omega
    · have hap := h.apart f hf htype
      rw [hpages f hf htype] at hlow
      unfold EntriesApart IntervalsApart at hap
      rcases hfits with hfits | ⟨heq, hothers⟩
      · omega
      · have hother := hothers f hf htype
        omega

/-- INTERNAL: the chunks share no page and lie in type-1 entries, in any case.
SRCLINE: kernel/mm/pmm.cpp:64-79 -/
theorem GivesBuffer.chunks_placed (h : GivesBuffer mmap e es) (hok : MapOk mmap) (mem : Memory) :
    (pmmInit mem mmap).chunks.Pairwise PagesApart ∧
      ∀ c ∈ (pmmInit mem mmap).chunks, ∃ e ∈ mmap, e.type = 1 ∧ e.addr ≤ c.base ∧
        c.base + c.pageCnt * pageSize ≤ e.addr + e.len := by
  have hmap := (h.built hok mem).1
  constructor
  · have hpair : ((chunkEntries mmap).map wholePages).Pairwise PageRange.Apart := by
      rw [List.pairwise_map]
      refine List.Pairwise.imp_of_mem (fun hf hg hap => ?_) h.chunkEntries_apart
      obtain ⟨hf, hfend⟩ := wholePages_stop (h.ends hok hf).1
      obtain ⟨hg, hgend⟩ := wholePages_stop (h.ends hok hg).1
      unfold EntriesApart IntervalsApart at hap
      unfold PageRange.Apart
      omega
    rw [← hmap, List.pairwise_map] at hpair
    exact hpair
  · intro c hc
    have hmem : chunkPages c ∈ (chunkEntries mmap).map wholePages := by
      rw [← hmap]
      exact List.mem_map_of_mem hc
    obtain ⟨f, hf, hpages⟩ := List.mem_map.mp hmem
    obtain ⟨hlow, hstop⟩ := wholePages_stop (h.ends hok hf).1
    obtain ⟨g, hg, htype, haddr, hend⟩ := h.inside hok hf
    rw [hpages] at hlow hstop
    unfold chunkPages at hlow hstop
    simp only at hlow hstop
    exact ⟨g, hg, htype, by omega, by omega⟩

end Map

/-- INTERNAL: safe chunks leave the metadata the room it needs. -/
theorem InitSafe.metadataFits {mem : Memory} {mmap : List StivaleMmap} (hsafe : InitSafe mem mmap)
    (hok : MapOk mmap) : MetadataFits mmap := by
  obtain ⟨e, es, h⟩ := hok.givesBuffer
  rw [← h.fits_iff hok, ← h.metadata_iff hok mem]
  exact hsafe.metadata

/-- INTERNAL: a map with a single type-1 entry. -/
theorem mapOk_single {e : StivaleMmap} (htype : e.type = 1) (haddr : pageSize ∣ e.addr)
    (hlen : pageSize ∣ e.len) (hne : e.len ≠ 0) (hbound : e.addr + e.len ≤ 2 ^ 52)
    (hlarge : maxSize [e] ≤ e.len) : MapOk [e] := by
  refine ⟨?_, ?_, ?_, ?_, e, List.mem_cons_self, htype, hlarge⟩
  · intro f hf _
    rw [List.mem_singleton.mp hf]
    exact ⟨haddr, hlen⟩
  · intro f hf _
    rwa [List.mem_singleton.mp hf]
  · intro f hf _
    rwa [List.mem_singleton.mp hf]
  · rw [List.filter_cons_of_pos (by simpa using htype)]
    exact List.pairwise_singleton _ _

end CrepOS.Analysis
