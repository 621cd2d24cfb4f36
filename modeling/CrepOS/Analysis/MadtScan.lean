import CrepOS.Interface.AcpiTables

/-!
# The loop over the MADT

The index is incremented in four places; together they add the length byte of the entry (`madtLoop_entry`).
So on a well-formed table the loop visits the entries one after the other (`madt_lists_exact`), and on any
table it goes from one `EntryStart` to the next. It stands still at a length byte of zero, and reads behind
the table if an entry starts at its last byte, or if the table is shorter than its header, where the bound of
the loop wraps around (`madt_safe_iff`).
-/

set_option autoImplicit false

namespace CrepOS.Analysis

open CrepOS.Library CrepOS.Model CrepOS.Interface

/-! ## One round -/

section Round

variable {entries : Memory} {n p fuel : ℕ} {s : MadtLists}

/-- INTERNAL: behind the table. -/
theorem madtLoop_end (hp : n ≤ p) (hlt : p < 2 ^ 64) :
    madtLoop entries (BitVec.ofNat 64 n) (fuel + 1) (BitVec.ofNat 64 p) s = some s := by
  have hno : ¬ BitVec.ofNat 64 p < BitVec.ofNat 64 n := by
    rw [BitVec.lt_def, BitVec.toNat_ofNat, BitVec.toNat_ofNat, Nat.mod_eq_of_lt hlt,
      Nat.mod_eq_of_lt (by omega)]
    omega
  rw [madtLoop, if_neg hno]

/-- **One round** reads the entry at `p` and goes on behind as many bytes as its length byte says.
SRCLINE: kernel/int/apic.cpp:99-121 -/
theorem madtLoop_entry (hp : p < n) (hn : n < 2 ^ 63) :
    madtLoop entries (BitVec.ofNat 64 n) (fuel + 1) (BitVec.ofNat 64 p) s =
      madtLoop entries (BitVec.ofNat 64 n) fuel (BitVec.ofNat 64 (p + (entries (p + 1)).toNat))
        ({ s with starts := s.starts ++ [p] }.push entries (entries p) (p + 2)) := by
  have hfirst : (BitVec.ofNat 64 p).toNat = p := by
    rw [BitVec.toNat_ofNat]
    omega
  have hone : (1 : BitVec 64).toNat = 1 := rfl
  have hsecond : (BitVec.ofNat 64 p + 1).toNat = p + 1 := by
    rw [BitVec.toNat_add, hfirst, hone]
    exact Nat.mod_eq_of_lt (by omega)
  have hthird : (BitVec.ofNat 64 p + 1 + 1).toNat = p + 2 := by
    rw [BitVec.toNat_add, hsecond, hone]
    exact Nat.mod_eq_of_lt (by omega)
  have hyes : BitVec.ofNat 64 p < BitVec.ofNat 64 n := by
    rw [BitVec.lt_def, hfirst, BitVec.toNat_ofNat]
    omega
  -- the four increments
  have hnext : BitVec.ofNat 64 p + 1 + 1 + ((entries (p + 1)).setWidth 64 - 3) + 1 =
      BitVec.ofNat 64 (p + (entries (p + 1)).toNat) := by
    generalize entries (p + 1) = size
    bv_omega
  rw [madtLoop, if_pos hyes]
  simp only [hfirst, hsecond, hthird, hnext]

end Round

/-! ## Well-formed tables -/

/-- The lists of two tables, one after the other. -/
def appendLists (s t : MadtLists) : MadtLists where
  madt0List := s.madt0List ++ t.madt0List
  madt1List := s.madt1List ++ t.madt1List
  madt2List := s.madt2List ++ t.madt2List
  madt4List := s.madt4List ++ t.madt4List
  madt5List := s.madt5List ++ t.madt5List
  ioapicList := s.ioapicList ++ t.ioapicList
  starts := s.starts ++ t.starts

/-- The lists for entries that start at the index `p`. -/
def listsFrom (p : ℕ) (es : List MadtEntry) : MadtLists := { madtOf es with starts := startsFrom p es }

theorem appendLists_assoc (s t u : MadtLists) :
    appendLists (appendLists s t) u = appendLists s (appendLists t u) := by
  simp [appendLists]

theorem payloadsOf_cons {α : Type} (entryType : Byte) (read : Memory → ℕ → α) (e : MadtEntry)
    (es : List MadtEntry) :
    payloadsOf entryType read (e :: es) = payloadsOf entryType read [e] ++ payloadsOf entryType read es := by
  unfold payloadsOf
  by_cases htype : e.type = entryType <;> simp [htype]

theorem listsFrom_cons (p : ℕ) (e : MadtEntry) (es : List MadtEntry) :
    listsFrom p (e :: es) = appendLists (listsFrom p [e]) (listsFrom (p + e.size) es) := by
  simp only [listsFrom, madtOf, appendLists, startsFrom, payloadsOf_cons _ _ e es, List.cons_append,
    List.nil_append]

section Payloads

variable {m m' : Memory} {a b : ℕ}

theorem word16_congr (h : ∀ i < 2, m' (b + i) = m (a + i)) : word16 m' b = word16 m a := by
  rw [word16, word16, Memory.word_congr h]

theorem word32_congr (h : ∀ i < 4, m' (b + i) = m (a + i)) : word32 m' b = word32 m a := by
  rw [word32, word32, Memory.word_congr h]

/-- INTERNAL: a part of bytes that agree. -/
theorem agree_part {k n : ℕ} (h : ∀ i < k, m' (b + i) = m (a + i)) (off : ℕ) (hoff : off + n ≤ k) :
    ∀ i < n, m' (b + off + i) = m (a + off + i) := by
  intro i hi
  rw [Nat.add_assoc, Nat.add_assoc]
  exact h (off + i) (by omega)

theorem readMadt0_congr (h : ∀ i < 6, m' (b + i) = m (a + i)) : readMadt0 m' b = readMadt0 m a := by
  have hfirst : m' b = m a := h 0 (by omega)
  rw [readMadt0, readMadt0, hfirst, h 1 (by omega), word32_congr (agree_part h 2 (by omega))]

theorem readMadt1_congr (h : ∀ i < 10, m' (b + i) = m (a + i)) : readMadt1 m' b = readMadt1 m a := by
  have hfirst : m' b = m a := h 0 (by omega)
  rw [readMadt1, readMadt1, hfirst, h 1 (by omega), word32_congr (agree_part h 2 (by omega)),
    word32_congr (agree_part h 6 (by omega))]

theorem readMadt2_congr (h : ∀ i < 8, m' (b + i) = m (a + i)) : readMadt2 m' b = readMadt2 m a := by
  have hfirst : m' b = m a := h 0 (by omega)
  rw [readMadt2, readMadt2, hfirst, h 1 (by omega), word32_congr (agree_part h 2 (by omega)),
    word16_congr (agree_part h 6 (by omega))]

theorem readMadt4_congr (h : ∀ i < 4, m' (b + i) = m (a + i)) : readMadt4 m' b = readMadt4 m a := by
  have hfirst : m' b = m a := h 0 (by omega)
  rw [readMadt4, readMadt4, hfirst, word16_congr (agree_part h 1 (by omega)), h 3 (by omega)]

theorem readMadt5_congr (h : ∀ i < 3, m' (b + i) = m (a + i)) : readMadt5 m' b = readMadt5 m a := by
  rw [readMadt5, readMadt5, word16_congr fun i hi => h i (by omega), h 2 (by omega)]

end Payloads

/-- INTERNAL: the bytes of the first entry, and of the others. -/
theorem holdsEntries_cons {m : Memory} {a : ℕ} {e : MadtEntry} {es : List MadtEntry}
    (h : HoldsEntries m a (e :: es)) :
    m a = e.type ∧ (m (a + 1)).toNat = e.size ∧
      (∀ i < e.payload.length, e.contents (0 + i) = m (a + 2 + i)) ∧ HoldsEntries m (a + e.size) es := by
  have hsize : entriesSize (e :: es) = e.payload.length + 2 + entriesSize es := by
    rw [entriesSize, List.map_cons, List.sum_cons]
    rfl
  have hbytes : (e :: es).flatMap MadtEntry.bytes =
      e.type :: BitVec.ofNat 8 e.size :: (e.payload ++ es.flatMap MadtEntry.bytes) := by
    rw [List.flatMap_cons]
    rfl
  have hbyte := e.lengthByte
  unfold HoldsEntries at h
  rw [hsize, hbytes] at h
  have htype := h 0 (by omega)
  have hlength := h 1 (by omega)
  simp only [List.getElem?_cons_zero, Option.some.injEq, Nat.add_zero] at htype
  simp only [List.getElem?_cons_succ, List.getElem?_cons_zero, Option.some.injEq] at hlength
  refine ⟨htype.symm, ?_, ?_, ?_⟩
  · rw [← hlength, BitVec.toNat_ofNat]
    exact Nat.mod_eq_of_lt hbyte
  · intro i hi
    have hpayload := h (i + 2) (by omega)
    rw [List.getElem?_cons_succ, List.getElem?_cons_succ, List.getElem?_append_left hi] at hpayload
    rw [Nat.zero_add, MadtEntry.contents, List.getD_eq_getElem?_getD, hpayload, Option.getD_some]
    congr 1
    omega
  · intro i hi
    have hrest := h (e.payload.length + i + 2) (by omega)
    rw [List.getElem?_cons_succ, List.getElem?_cons_succ, List.getElem?_append_right (by omega),
      Nat.add_sub_cancel_left] at hrest
    rw [hrest, MadtEntry.size]
    congr 2
    omega

/-- INTERNAL: the payload of an entry is pushed to the list for its type.
SRCLINE: kernel/int/apic.cpp:103-119 -/
theorem push_entry {m : Memory} {p : ℕ} {e : MadtEntry} (s : MadtLists)
    (hpayload : ∀ i < e.payload.length, e.contents (0 + i) = m (p + 2 + i)) :
    { s with starts := s.starts ++ [p] }.push m e.type (p + 2) = appendLists s (listsFrom p [e]) := by
  have hfits := e.payloadFits
  have hagree : ∀ k ≤ e.payload.length, ∀ i < k, e.contents (0 + i) = m (p + 2 + i) :=
    fun k hk i hi => hpayload i (by omega)
  unfold MadtLists.push payloadSize at *
  simp only [appendLists, listsFrom, madtOf, startsFrom, payloadsOf]
  by_cases h0 : e.type = 0#8
  · have hfits : 6 ≤ e.payload.length := by simpa [h0] using hfits
    simp [h0, readMadt0_congr (hagree 6 hfits)]
  by_cases h1 : e.type = 1#8
  · have hfits : 10 ≤ e.payload.length := by simpa [h1] using hfits
    simp [h1, readMadt1_congr (hagree 10 hfits)]
  by_cases h2 : e.type = 2#8
  · have hfits : 8 ≤ e.payload.length := by simpa [h2] using hfits
    simp [h2, readMadt2_congr (hagree 8 hfits)]
  by_cases h4 : e.type = 4#8
  · have hfits : 4 ≤ e.payload.length := by simpa [h4] using hfits
    simp [h4, readMadt4_congr (hagree 4 hfits)]
  by_cases h5 : e.type = 5#8
  · have hfits : 3 ≤ e.payload.length := by simpa [h5] using hfits
    simp [h5, readMadt5_congr (hagree 3 hfits)]
  simp [h0, h1, h2, h4, h5]

/-- **The loop over entries**, one after the other. The induction is on the entries. -/
theorem madtLoop_entries {m : Memory} (es : List MadtEntry) {p fuel : ℕ} (s : MadtLists)
    (h : HoldsEntries m p es) (hend : p + entriesSize es < 2 ^ 63) (hfuel : es.length < fuel) :
    madtLoop m (BitVec.ofNat 64 (p + entriesSize es)) fuel (BitVec.ofNat 64 p) s =
      some (appendLists s (listsFrom p es)) := by
  induction es generalizing p s fuel with
  | nil =>
    obtain ⟨fuel, rfl⟩ : ∃ k, fuel = k + 1 := ⟨fuel - 1, by simp at hfuel; omega⟩
    rw [madtLoop_end (by simp [entriesSize]) (by omega)]
    simp [appendLists, listsFrom, madtOf, payloadsOf, startsFrom]
  | cons e es ih =>
    obtain ⟨fuel, rfl⟩ : ∃ k, fuel = k + 1 := ⟨fuel - 1, by simp at hfuel; omega⟩
    obtain ⟨htype, hlength, hpayload, hrest⟩ := holdsEntries_cons h
    have hsize : entriesSize (e :: es) = e.size + entriesSize es := rfl
    have hpos : 0 < e.size := Nat.succ_pos _
    rw [hsize] at hend ⊢
    have hround := @ih _ fuel (appendLists s (listsFrom p [e])) hrest (by omega)
      (by simpa using hfuel)
    rw [madtLoop_entry (by omega) hend, htype, hlength, push_entry s hpayload, ← Nat.add_assoc, hround,
      appendLists_assoc, ← listsFrom_cons]

/-- **The MADT is parsed exactly**: for a well-formed table the loop visits the starts of the entries in order,
and the lists hold the payloads of their types.
SRCLINE: kernel/int/apic.cpp:96-121 -/
theorem madt_lists_exact (entries : Memory) (length : BitVec 32) (es : List MadtEntry)
    (hbytes : HoldsEntries entries 0 es) (hlength : length.toNat = entriesSize es + 44) :
    apicInit (es.length + 1) entries length = some (madtOf es) := by
  have hlt := length.isLt
  have hbound : length.setWidth 64 - (36 + 4 + 4) = BitVec.ofNat 64 (0 + entriesSize es) := by
    bv_omega
  rw [apicInit, hbound]
  have hloop := madtLoop_entries es .empty hbytes (by omega) (Nat.lt_succ_self _)
  rw [show (0 : BitVec 64) = BitVec.ofNat 64 0 from rfl, hloop]
  simp [appendLists, listsFrom, madtOf, MadtLists.empty]

/-- A processor, an entry of a type without a list and without payload, and an I/O APIC. -/
def smallMadt : List MadtEntry :=
  [⟨0, [1, 2, 1, 0, 0, 0], by decide, by decide⟩, ⟨9, [], by decide, by decide⟩,
    ⟨1, [3, 0, 0, 0, 0xc0, 0xfe, 0, 0, 0, 0], by decide, by decide⟩]

theorem madt_lists_exact_small :
    apicInit 4 (fun i => (smallMadt.flatMap MadtEntry.bytes).getD i 0) 66 = some (madtOf smallMadt) ∧
      (madtOf smallMadt).madt0List = [⟨1, 2, 1⟩] ∧ (madtOf smallMadt).starts = [0, 8, 10] :=
  ⟨madt_lists_exact _ 66 smallMadt (by unfold HoldsEntries; decide) (by decide), by decide, by decide⟩

/-! ## Tables of any bytes -/

theorem push_starts (s : MadtLists) (entries : Memory) (entryType : Byte) (i : ℕ) :
    (s.push entries entryType i).starts = s.starts := by
  unfold MadtLists.push
  split_ifs <;> rfl

section AnyTable

variable {entries : Memory} {n fuel : ℕ} {s r : MadtLists}

/-- INTERNAL: where entries were read is not forgotten. The induction is on the fuel. -/
theorem madtLoop_starts {bound i : BitVec 64} (h : madtLoop entries bound fuel i s = some r) :
    s.starts ⊆ r.starts := by
  induction fuel generalizing i s with
  | zero => cases h
  | succ fuel ih =>
    rw [madtLoop] at h
    split at h
    · intro k hk
      apply ih h
      rw [push_starts]
      exact List.mem_append_left _ hk
    · cases h
      exact fun _ hk => hk

/-- INTERNAL: an entry is read at every index below the bound. -/
theorem madtLoop_reads {bound i : BitVec 64} (hi : i < bound) (h : madtLoop entries bound fuel i s = some r) :
    i.toNat ∈ r.starts := by
  cases fuel with
  | zero => cases h
  | succ fuel =>
    rw [madtLoop, if_pos hi] at h
    apply madtLoop_starts h
    rw [push_starts]
    exact List.mem_append_right _ List.mem_cons_self

/-- INTERNAL: the loop stands still at a length byte of zero. -/
theorem madtLoop_stuck {p : ℕ} (hp : p < n) (hn : n < 2 ^ 63) (hzero : entries (p + 1) = 0) :
    madtLoop entries (BitVec.ofNat 64 n) fuel (BitVec.ofNat 64 p) s = none := by
  induction fuel generalizing s with
  | zero => rfl
  | succ fuel ih =>
    have hsame : p + (entries (p + 1)).toNat = p := by
      rw [hzero]
      rfl
    rw [madtLoop_entry hp hn, hsame]
    exact ih

/-- INTERNAL: an entry starts inside the table. -/
theorem EntryStart.lt {i : ℕ} (h : EntryStart entries n i) : i < n := by
  cases h with
  | first h => exact h
  | next _ h => exact h

/-- INTERNAL: the loop gets to every start of an entry. The induction is on the entries before it. -/
theorem madtLoop_reaches (hn : n < 2 ^ 63) {i : ℕ} (hi : EntryStart entries n i)
    (h : madtLoop entries (BitVec.ofNat 64 n) fuel (BitVec.ofNat 64 0) s = some r) :
    ∃ fuel' s', madtLoop entries (BitVec.ofNat 64 n) fuel' (BitVec.ofNat 64 i) s' = some r := by
  induction hi with
  | first _ => exact ⟨fuel, s, h⟩
  | next hi _ ih =>
    obtain ⟨fuel', s', h'⟩ := ih
    cases fuel' with
    | zero => cases h'
    | succ fuel' =>
      rw [madtLoop_entry (EntryStart.lt hi) hn] at h'
      exact ⟨fuel', _, h'⟩

/-- INTERNAL: if no entry is in the way, the loop ends. The induction is on the bytes that are left. -/
theorem madtLoop_ends (hn : n < 2 ^ 63)
    (hentries : ∀ i, EntryStart entries n i → i + 1 < n ∧ entries (i + 1) ≠ 0) (k : ℕ) {p : ℕ}
    (hp : EntryStart entries n p) (hk : n - p ≤ k) (hs : ∀ i ∈ s.starts, i + 1 < n) :
    ∃ fuel r, madtLoop entries (BitVec.ofNat 64 n) fuel (BitVec.ofNat 64 p) s = some r ∧
      ∀ i ∈ r.starts, i + 1 < n := by
  induction k generalizing p s with
  | zero =>
    have hlt := EntryStart.lt hp
    omega
  | succ k ih =>
    have hlt := EntryStart.lt hp
    obtain ⟨hinside, hnonzero⟩ := hentries p hp
    have hpos : 0 < (entries (p + 1)).toNat := by
      by_contra hzero
      apply hnonzero
      apply BitVec.eq_of_toNat_eq
      exact Nat.eq_zero_of_not_pos hzero
    have hbyte := (entries (p + 1)).isLt
    have hstarts : ∀ i ∈ ({ s with starts := s.starts ++ [p] }.push entries (entries p) (p + 2)).starts,
        i + 1 < n := by
      intro i hi
      rw [push_starts] at hi
      cases List.mem_append.mp hi with
      | inl hold => exact hs i hold
      | inr hnew =>
        rw [List.mem_singleton.mp hnew]
        exact hinside
    by_cases hnext : p + (entries (p + 1)).toNat < n
    · obtain ⟨fuel, r, hr, hreads⟩ := ih (hp.next hnext) (by omega) hstarts
      refine ⟨fuel + 1, r, ?_, hreads⟩
      rw [madtLoop_entry hlt hn]
      exact hr
    · refine ⟨2, _, ?_, hstarts⟩
      rw [madtLoop_entry hlt hn, madtLoop_end (by omega) (by omega)]

end AnyTable

/-- **When the MADT parser is safe**: the table is not shorter than its header, and each entry that starts in
the table has its length byte in the table, which is not zero.
SRCLINE: kernel/int/apic.cpp:99-121 -/
theorem madt_safe_iff (entries : Memory) (length : BitVec 32) :
    ParsesSafely entries length ↔ 44 ≤ length.toNat ∧ ∀ i, EntryStart entries (length.toNat - 44) i →
      i + 1 < length.toNat - 44 ∧ entries (i + 1) ≠ 0 := by
  have hlt := length.isLt
  by_cases hheader : 44 ≤ length.toNat
  · have hn : length.toNat - 44 < 2 ^ 63 := by omega
    have hbound : length.setWidth 64 - (36 + 4 + 4) = BitVec.ofNat 64 (length.toNat - 44) := by
      bv_omega
    have hzero : (0 : BitVec 64) = BitVec.ofNat 64 0 := rfl
    unfold ParsesSafely apicInit
    rw [hbound, hzero]
    constructor
    · rintro ⟨fuel, s, hs, hreads⟩
      refine ⟨hheader, fun i hi => ?_⟩
      have hin := EntryStart.lt hi
      have hnat : (BitVec.ofNat 64 i).toNat = i := by
        rw [BitVec.toNat_ofNat]
        omega
      have hbelow : BitVec.ofNat 64 i < BitVec.ofNat 64 (length.toNat - 44) := by
        rw [BitVec.lt_def, hnat, BitVec.toNat_ofNat]
        omega
      obtain ⟨fuel', s', h'⟩ := madtLoop_reaches hn hi hs
      have hread := hreads _ (madtLoop_reads hbelow h')
      rw [hnat] at hread
      refine ⟨by omega, fun hstuck => ?_⟩
      rw [madtLoop_stuck hin hn hstuck] at h'
      cases h'
    · rintro ⟨-, hentries⟩
      by_cases hempty : 0 < length.toNat - 44
      · obtain ⟨fuel, r, hr, hreads⟩ := @madtLoop_ends entries _ .empty hn hentries _ _ (.first hempty)
          (Nat.le_refl _) (fun i hi => absurd hi List.not_mem_nil)
        refine ⟨fuel, r, hr, fun i hi => ?_⟩
        have hread := hreads i hi
        omega
      · exact ⟨1, .empty, madtLoop_end (by omega) (by omega), fun i hi => absurd hi List.not_mem_nil⟩
  · -- the bound wraps around, and the loop reads the entries that are not there
    constructor
    · rintro ⟨fuel, s, hs, hreads⟩
      have hbelow : (0 : BitVec 64) < length.setWidth 64 - (36 + 4 + 4) := by
        bv_omega
      have hread := hreads _ (madtLoop_reads hbelow hs)
      omega
    · rintro ⟨hle, -⟩
      exact absurd hle hheader

/-- A table of eight bytes with a length byte of zero: the loop stays at its first entry. -/
theorem madt_hangs : ¬ ParsesSafely (fun _ => 0) 52 := by
  rintro ⟨fuel, s, hs, -⟩
  have hnone := @madtLoop_stuck (fun _ => 0) 8 fuel .empty 0 (by decide) (by decide) rfl
  have heq : apicInit fuel (fun _ => 0) 52 = none := hnone
  rw [heq] at hs
  cases hs

end CrepOS.Analysis
