import CrepOS.Interface.AcpiTables
import Mathlib.Data.List.GetD

/-!
# Searching the XSDT and the RSDT

The loops run over as many entries as the entries have bytes. They stop at the first table with the signature, so the
search is exact if there is one, and if there are no entries at all; else entries behind the table are examined.
-/

set_option autoImplicit false

namespace CrepOS.Analysis

open CrepOS.Library CrepOS.Model CrepOS.Interface

variable {m : Memory} {table width n i xsdt nx rsdt nr : ℕ} {signature : LibString}

/-! ## Comparing signatures -/

/-- INTERNAL: `strncmp` of a string without a zero. -/
theorem strncmp_eq_zero_iff {str0 str1 : ℕ → Byte} (h : ∀ k < n, str1 (i + k) ≠ 0) :
    strncmp str0 str1 n i = 0 ↔ ∀ k < n, str0 (i + k) = str1 (i + k) := by
  induction n generalizing i with
  | zero => exact ⟨fun _ k hk => absurd hk (Nat.not_lt_zero k), fun _ => rfl⟩
  | succ n ih =>
    have hrest : ∀ k < n, str1 (i + 1 + k) ≠ 0 := fun k hk => by
      rw [Nat.add_assoc, Nat.add_comm 1 k]
      exact h (k + 1) (by omega)
    have hfirst := h 0 (Nat.succ_pos n)
    rw [Nat.add_zero] at hfirst
    rw [strncmp]
    by_cases heq : str0 i = str1 i
    · rw [if_neg (not_not_intro heq), if_neg (by rw [heq]; exact hfirst), ih hrest]
      constructor
      · intro hall k hk
        cases k with
        | zero => exact heq
        | succ k =>
          rw [← Nat.add_assoc, Nat.add_right_comm]
          exact hall k (by omega)
      · intro hall k hk
        rw [Nat.add_assoc, Nat.add_comm 1 k]
        exact hall (k + 1) (by omega)
    · rw [if_pos heq]
      constructor
      · intro hzero
        exact absurd (BitVec.toInt_inj.mp (Int.eq_of_sub_eq_zero hzero)) heq
      · intro hall
        exact absurd (hall 0 (Nat.succ_pos n)) heq

/-- INTERNAL: the test of the loops. -/
theorem strncmp_signature (hlength : signature.length = 4) (hchars : 0 ∉ signature) (acpihdr : ℕ) :
    strncmp (fun k => m (acpihdr + k)) (fun k => signature.getD k 0) 4 0 = 0 ↔ BearsSignature m signature acpihdr := by
  have hnonzero : ∀ k < 4, signature.getD (0 + k) 0 ≠ 0 := by
    intro k hk hzero
    rw [Nat.zero_add, List.getD_eq_getElem _ _ (by omega)] at hzero
    exact hchars (hzero ▸ List.getElem_mem _)
  rw [strncmp_eq_zero_iff hnonzero, BearsSignature]
  constructor
  · intro hall
    apply List.ext_getElem
    · rw [hlength, Memory.bytes, List.length_map, List.length_range]
    · intro k hk hk'
      have hchar := hall k (by omega)
      rw [Nat.zero_add, List.getD_eq_getElem _ _ hk'] at hchar
      rw [← hchar]
      simp [Memory.bytes]
  · intro hsame k hk
    rw [← hsame]
    simp [Memory.bytes, hk, List.getD]

/-! ## The loop -/

/-- INTERNAL: how far the loop over a table goes.
SRCLINE: kernel/acpi/rsdt.hpp:14-15, 24-25 -/
theorem searchSdt_eq (h : TableOf m table width n) :
    searchSdt m table width signature = scanSdt m table width signature (width * n) 0 := by
  unfold searchSdt
  cases h with
  | inl hnull => rw [if_neg (not_not_intro hnull.1), hnull.2, Nat.mul_zero]; rfl
  | inr htable =>
    rw [if_pos htable.1, htable.2]
    congr 1
    have hword : sdtLength m table < 256 ^ 4 := Memory.word_lt
    unfold ofSigned
    omega

/-- INTERNAL: without entries nothing is examined. -/
theorem searchSdt_empty (h : TableOf m table width 0) : searchSdt m table width signature = ([], none) := by
  rw [searchSdt_eq h, Nat.mul_zero]
  rfl

section Scan

variable (hlength : signature.length = 4) (hchars : 0 ∉ signature)

include hlength hchars

/-- INTERNAL: one iteration. -/
theorem scanSdt_succ : scanSdt m table width signature (n + 1) i =
    if BearsSignature m signature (sdtEntry m table width i) then ([i], some (sdtEntry m table width i))
    else (i :: (scanSdt m table width signature n (i + 1)).1, (scanSdt m table width signature n (i + 1)).2) := by
  rw [scanSdt]
  dsimp only
  by_cases hhas : BearsSignature m signature (sdtEntry m table width i)
  · rw [if_pos ((strncmp_signature hlength hchars _).mpr hhas), if_pos hhas]
  · rw [if_neg (mt (strncmp_signature hlength hchars _).mp hhas), if_neg hhas]

/-- **The loop finds the first table with the signature**, and examines only its entries. The induction is on the
number of entries. -/
theorem scanSdt_spec : (scanSdt m table width signature n i).2 =
      ((List.range' i n).map (sdtEntry m table width)).find? (BearsSignature m signature ·) ∧
    ∀ j ∈ (scanSdt m table width signature n i).1, j < i + n := by
  induction n generalizing i with
  | zero => exact ⟨rfl, fun j hj => absurd hj List.not_mem_nil⟩
  | succ n ih =>
    obtain ⟨hfound, hexamined⟩ := @ih (i + 1)
    rw [scanSdt_succ hlength hchars, List.range'_succ, List.map_cons]
    by_cases hhas : BearsSignature m signature (sdtEntry m table width i)
    · rw [if_pos hhas, List.find?_cons_of_pos (by simpa using hhas)]
      refine ⟨rfl, fun j hj => ?_⟩
      rw [List.mem_singleton.mp hj]
      omega
    · rw [if_neg hhas, List.find?_cons_of_neg (by simpa using hhas)]
      refine ⟨hfound, fun j hj => ?_⟩
      cases List.mem_cons.mp hj with
      | inl heq => omega
      | inr hmem =>
        have hlt := hexamined j hmem
        omega

/-- INTERNAL: a table that is found among the first entries is found by a longer loop as well. -/
theorem scanSdt_found {k : ℕ} (h : (scanSdt m table width signature n i).2 ≠ none) :
    scanSdt m table width signature (n + k) i = scanSdt m table width signature n i := by
  induction n generalizing i with
  | zero => exact absurd rfl h
  | succ n ih =>
    rw [scanSdt_succ hlength hchars] at h
    rw [Nat.add_right_comm, scanSdt_succ hlength hchars, scanSdt_succ hlength hchars]
    by_cases hhas : BearsSignature m signature (sdtEntry m table width i)
    · rw [if_pos hhas, if_pos hhas]
    · rw [if_neg hhas] at h
      rw [if_neg hhas, if_neg hhas, ih h]

/-- INTERNAL: if there is none the loop goes on behind them. -/
theorem scanSdt_missed {k : ℕ} (h : (scanSdt m table width signature n i).2 = none) (hk : 0 < k) :
    i + n ∈ (scanSdt m table width signature (n + k) i).1 := by
  induction n generalizing i with
  | zero =>
    obtain ⟨k, rfl⟩ : ∃ l, k = l + 1 := ⟨k - 1, by omega⟩
    rw [Nat.zero_add, scanSdt_succ hlength hchars]
    split
    · exact List.mem_singleton_self i
    · exact List.mem_cons_self
  | succ n ih =>
    rw [scanSdt_succ hlength hchars] at h
    rw [Nat.add_right_comm, scanSdt_succ hlength hchars]
    by_cases hhas : BearsSignature m signature (sdtEntry m table width i)
    · rw [if_pos hhas] at h
      cases h
    · rw [if_neg hhas] at h ⊢
      have hmem := ih h
      rw [Nat.add_assoc, Nat.add_comm 1 n] at hmem
      exact List.mem_cons_of_mem i hmem

/-! ## One table -/

/-- INTERNAL: a listed table is found, and nothing else is examined. -/
theorem searchSdt_found (h : TableOf m table width n) (hwidth : 1 < width)
    (hlisted : ∃ t ∈ listedSdts m table width n, BearsSignature m signature t) :
    (searchSdt m table width signature).2 = (listedSdts m table width n).find? (BearsSignature m signature ·) ∧
      (searchSdt m table width signature).2 ≠ none ∧ ∀ j ∈ (searchSdt m table width signature).1, j < n := by
  obtain ⟨hfound, hexamined⟩ := @scanSdt_spec m table width n 0 signature hlength hchars
  rw [← List.range_eq_range'] at hfound
  have hsome : (scanSdt m table width signature n 0).2 ≠ none := by
    obtain ⟨t, ht, hhas⟩ := hlisted
    rw [hfound, ← Option.isSome_iff_ne_none]
    exact List.find?_isSome.mpr ⟨t, ht, by simpa using hhas⟩
  have hmore : width * n = n + (width * n - n) := by
    have hle := Nat.le_mul_of_pos_left n (by omega : 0 < width)
    omega
  rw [searchSdt_eq h, hmore, scanSdt_found hlength hchars hsome]
  refine ⟨hfound, hsome, fun j hj => ?_⟩
  have hlt := hexamined j hj
  omega

/-- INTERNAL: a search that examines only the entries of a table finds a table, or there are no entries. -/
theorem searchSdt_inside (h : TableOf m table width n) (hwidth : 1 < width)
    (hinside : ∀ j ∈ (searchSdt m table width signature).1, j < n) :
    n = 0 ∨ ∃ t ∈ listedSdts m table width n, BearsSignature m signature t := by
  by_contra hneither
  obtain ⟨hsome, hnone⟩ := not_or.mp hneither
  have hmissed : (scanSdt m table width signature n 0).2 = none := by
    rw [(scanSdt_spec hlength hchars).1, ← List.range_eq_range', List.find?_eq_none]
    intro t ht hhas
    exact hnone ⟨t, ht, by simpa using hhas⟩
  have hmore : width * n = n + (width * n - n) ∧ 0 < width * n - n := by
    have hlt : 1 * n < width * n := Nat.mul_lt_mul_of_pos_right hwidth (by omega)
    omega
  rw [searchSdt_eq h, hmore.1] at hinside
  have hlt := hinside _ (scanSdt_missed hlength hchars hmissed hmore.2)
  omega

/-! ## Both tables -/

/-- **`find_SDT` is exact if and only if a table with the signature is listed in the first of the two tables that has
entries**, or neither has.
SRCLINE: kernel/acpi/rsdt.hpp:12-37 -/
theorem sdtExact_iff (hx : TableOf m xsdt 8 nx) (hr : TableOf m rsdt 4 nr) :
    SdtExact m xsdt nx rsdt nr signature ↔ (∃ t ∈ listedSdts m xsdt 8 nx, BearsSignature m signature t) ∨
      nx = 0 ∧ (nr = 0 ∨ ∃ t ∈ listedSdts m rsdt 4 nr, BearsSignature m signature t) := by
  constructor
  · intro hexact
    have hexamined : (findSdt m xsdt rsdt signature).1.1 = (searchSdt m xsdt 8 signature).1 := by
      unfold findSdt
      dsimp only
      split <;> rfl
    have hinside := hexact.insideX
    rw [hexamined] at hinside
    cases searchSdt_inside hlength hchars hx (by decide) hinside with
    | inr hlisted => exact Or.inl hlisted
    | inl hempty =>
      subst hempty
      have hrest := hexact.insideR
      unfold findSdt at hrest
      rw [searchSdt_empty hx] at hrest
      exact Or.inr ⟨rfl, searchSdt_inside hlength hchars hr (by decide) hrest⟩
  · intro hcase
    cases hcase with
    | inl hlisted =>
      obtain ⟨hfound, hsome, hinside⟩ := searchSdt_found hlength hchars hx (by decide) hlisted
      have hrun : findSdt m xsdt rsdt signature =
          (((searchSdt m xsdt 8 signature).1, []), (searchSdt m xsdt 8 signature).2) := by
        unfold findSdt
        dsimp only
        rw [if_pos (Option.isSome_iff_ne_none.mpr hsome)]
      refine ⟨?_, ?_, ?_⟩
      · rw [hrun]
        exact hinside
      · rw [hrun]
        exact fun i hi => absurd hi List.not_mem_nil
      · rw [hfound] at hsome
        rw [hrun, List.find?_append, hfound, Option.or_of_isSome (Option.isSome_iff_ne_none.mpr hsome)]
    | inr hrest =>
      obtain ⟨rfl, hrest⟩ := hrest
      have hrun : findSdt m xsdt rsdt signature =
          (([], (searchSdt m rsdt 4 signature).1), (searchSdt m rsdt 4 signature).2) := by
        unfold findSdt
        rw [searchSdt_empty hx]
        rfl
      have hright : (searchSdt m rsdt 4 signature).2 =
          (listedSdts m rsdt 4 nr).find? (BearsSignature m signature ·) ∧
          ∀ j ∈ (searchSdt m rsdt 4 signature).1, j < nr := by
        cases hrest with
        | inl hempty =>
          subst hempty
          rw [searchSdt_empty hr]
          exact ⟨rfl, fun j hj => absurd hj List.not_mem_nil⟩
        | inr hlisted =>
          obtain ⟨hfound, _, hinside⟩ := searchSdt_found hlength hchars hr (by decide) hlisted
          exact ⟨hfound, hinside⟩
      refine ⟨?_, ?_, ?_⟩
      · rw [hrun]
        exact fun i hi => absurd hi List.not_mem_nil
      · rw [hrun]
        exact hright.2
      · rw [hrun]
        exact hright.1

end Scan

/-! ## A table with one entry -/

/-- An XSDT at the physical address `0x1000` with one entry, of a table at `0x2000` with the signature `APIC`. -/
def oneSdt : Memory :=
  Memory.setWord (Memory.setWord (Memory.setWord (fun _ => 0) (directMap + 0x1004) 4 44) (directMap + 0x1024) 8 0x2000)
    (directMap + 0x2000) 4 0x43495041

/-- `"APIC"`, and a signature that is not listed. -/
def apicSignature : LibString := [0x41, 0x50, 0x49, 0x43]
def hpetSignature : LibString := [0x48, 0x50, 0x45, 0x54]

theorem oneSdt_table : TableOf oneSdt (directMap + 0x1000) 8 1 ∧ TableOf oneSdt 0 4 0 := by
  refine ⟨Or.inr ⟨by decide, ?_⟩, Or.inl ⟨rfl, rfl⟩⟩
  decide

theorem oneSdt_exact_iff : SdtExact oneSdt (directMap + 0x1000) 1 0 0 apicSignature ↔
    (∃ t ∈ listedSdts oneSdt (directMap + 0x1000) 8 1, BearsSignature oneSdt apicSignature t) ∨
      1 = 0 ∧ (0 = 0 ∨ ∃ t ∈ listedSdts oneSdt 0 4 0, BearsSignature oneSdt apicSignature t) :=
  sdtExact_iff (by decide) (by decide) oneSdt_table.1 oneSdt_table.2

/-- The search for `HPET` examines eight entries of a table that has one. -/
theorem absent_signature_overruns : ¬ ∀ (m : Memory) (xsdt nx rsdt nr : ℕ) (signature : LibString),
    signature.length = 4 → 0 ∉ signature → TableOf m xsdt 8 nx → TableOf m rsdt 4 nr →
    SdtExact m xsdt nx rsdt nr signature := by
  intro h
  have hexact := h oneSdt (directMap + 0x1000) 1 0 0 hpetSignature (by decide) (by decide) oneSdt_table.1 oneSdt_table.2
  exact absurd (hexact.insideX 1) (by decide)

end CrepOS.Analysis
