import CrepOS.Interface.MmapHalf
import CrepOS.Analysis.PageOwnership
import CrepOS.Analysis.DirectCover
import CrepOS.Analysis.MmapDisjoint

/-!
# `mmap` and the kernel half

`mmap` maps pages, and it writes to objects of the kernel heap and to the memory that a file is read
into. Writes to memory that is no page table change no walk (`store_kept`), and `map_range` changes walks
only below the entries of the top table that its pages use (`mapRange_kept`). So the kernel half stays
as it is if the pages are below it, which the bitmap implies for the addresses it has bits for, and if
all writes stay off the page tables (`mmap_keeps_kernelHalf`).

None of this is checked by the code: for a hint in the kernel half `check_mmap_addr` tests a bit far
behind the bitmap, and if that is clear a page is mapped there for the user (`mmap_into_kernelHalf`).
-/

set_option autoImplicit false

namespace CrepOS.Analysis

open CrepOS.Library CrepOS.Model CrepOS.Interface

/-! ## Writes to memory that is no page table -/

/-- An object of the kernel heap that lies in memory without a place and not free. -/
def HeapPlaced (p : Paging) (place : Word → Option (List Index)) (root v : Word) (n : ℕ) (s : Vm) :
    Prop :=
  ∀ i < n, 256 ≤ (topIndex p (v + BitVec.ofNat 64 i)).toNat ∧
    ∃ a, Interface.translate p s.mem root (v + BitVec.ofNat 64 i) = some a ∧
      place (frameOf a) = none ∧ frameOf a ∉ s.free

section Writes

variable {p : Paging} {tops : List Word} {touched : Index → Prop}
  {place place' : Word → Option (List Index)} {s s' : Vm} {root v bitmap : Word} {b : Byte} {n : ℕ}

/-- **A byte is written.** -/
theorem setByte_kept {a : Word} (h : TablesPlaced p place s) (htops : ∀ t ∈ tops, place t = some [])
    (ha : place (frameOf a) = none) : TablesKept p tops touched place place s (s.setByte a b) := by
  apply tablesKept_of_outside h htops List.suffix_rfl
  intro f l hf
  apply Function.update_of_ne
  rintro rfl
  cases ha.symm.trans hf

theorem store_kept (h : TablesPlaced p place s) (htops : ∀ t ∈ tops, place t = some [])
    (ha : ∀ a, Interface.translate p s.mem root v = some a → place (frameOf a) = none)
    (hrun : store p root s v b = some s') : TablesKept p tops touched place place s s' := by
  obtain ⟨a, htranslate, rfl⟩ := Option.map_eq_some_iff.mp hrun
  exact setByte_kept h htops (ha a htranslate)

/-- What is not a page table stays so, and is translated as before. -/
theorem HeapPlaced.kept (h : HeapPlaced p place root v n s)
    (hk : TablesKept p tops (fun i => i.toNat < 256) place place' s s') (hroot : root ∈ tops) :
    HeapPlaced p place' root v n s' := by
  intro i hi
  obtain ⟨hhalf, a, ha, hplace, hfree⟩ := h i hi
  refine ⟨hhalf, a, ?_, ?_, fun hin => hfree (hk.suffix.subset hin)⟩
  · rw [hk.translate_eq hroot (by omega), ha]
  · rcases hk.new (frameOf a) with hsame | ⟨hin, -⟩
    · rw [hsame, hplace]
    · exact absurd hin hfree

/-- **Bytes are written** to addresses that are not translated to page tables. -/
theorem writeBytes_kept {l : List Byte} (h : TablesPlaced p place s)
    (htops : ∀ t ∈ tops, place t = some []) (hroot : root ∈ tops)
    (ha : ∀ i < l.length, ∀ a,
      Interface.translate p s.mem root (v + BitVec.ofNat 64 i) = some a → place (frameOf a) = none)
    (hrun : writeBytes p root l v s = some s') :
    TablesKept p tops (fun _ => False) place place s s' := by
  induction l generalizing v s with
  | nil =>
    obtain rfl := Option.some.inj hrun
    exact tablesKept_refl h htops
  | cons b l ih =>
    rw [writeBytes] at hrun
    cases hstore : store p root s v b with
    | none =>
      rw [hstore] at hrun
      cases hrun
    | some s₁ =>
      simp only [hstore] at hrun
      have hfirst : ∀ a, Interface.translate p s.mem root v = some a → place (frameOf a) = none := by
        intro a htranslate
        apply ha 0 (by simp) a
        rw [← htranslate]
        congr 1
        exact BitVec.add_zero v
      have h₁ : TablesKept p tops (fun _ => False) place place s s₁ :=
        store_kept h htops hfirst hstore
      have hrest : TablesKept p tops (fun _ => False) place place s₁ s' := by
        apply ih h₁.placed _ hrun
        intro i hi a htranslate
        apply ha (i + 1) (by rw [List.length_cons]; omega) a
        rw [h₁.translate_eq hroot id] at htranslate
        rw [← htranslate, BitVec.add_assoc, BitVec.add_comm 1, BitVec.ofNat_add]
        rfl
      exact (h₁.trans hrest).mono fun _ hi => hi.elim id id

/-- INTERNAL: the bytes of an object are not translated to page tables. -/
theorem HeapPlaced.unplaced (h : HeapPlaced p place root v n s) {i : ℕ} (hi : i < n) (a : Word)
    (ha : Interface.translate p s.mem root (v + BitVec.ofNat 64 i) = some a) :
    place (frameOf a) = none := by
  obtain ⟨-, a', ha', hplace, -⟩ := h i hi
  obtain rfl := Option.some.inj (ha.symm.trans ha')
  exact hplace

/-- **Bits of the bitmap are set.** -/
theorem bmSetFrom_kept {i cnt : ℕ} (h : TablesPlaced p place s) (htops : ∀ t ∈ tops, place t = some [])
    (hroot : root ∈ tops) (hheap : HeapPlaced p place root bitmap n s) (hi : i + cnt ≤ 8 * n)
    (hrun : bmSetFrom p root bitmap i cnt s = some s') :
    TablesKept p tops (fun _ => False) place place s s' := by
  induction cnt generalizing i s with
  | zero =>
    obtain rfl := Option.some.inj hrun
    exact tablesKept_refl h htops
  | succ cnt ih =>
    rw [bmSetFrom] at hrun
    cases hset : bmSetAt p root bitmap s i with
    | none =>
      rw [hset] at hrun
      cases hrun
    | some s₁ =>
      simp only [hset] at hrun
      rw [bmSetAt] at hset
      cases hload : load p root s (bitmap + BitVec.ofNat 64 (i / 8)) with
      | none =>
        rw [hload] at hset
        cases hset
      | some b =>
        simp only [hload] at hset
        have h₁ : TablesKept p tops (fun _ => False) place place s s₁ :=
          store_kept h htops (fun a => hheap.unplaced (by omega) a) hset
        have hheap₁ := hheap.kept (h₁.mono fun _ hfalse => hfalse.elim) hroot
        have hrest := ih h₁.placed hheap₁ (by omega) hrun
        exact (h₁.trans hrest).mono fun _ hj => hj.elim id id

end Writes

/-! ## Addresses below the kernel half -/

section Low

variable {p : Paging} {v addr flags : Word} {cnt size : ℕ}

theorem topIndex_low (h : v.toNat < 2 ^ 47) : (topIndex p v).toNat < 256 := by
  rw [topIndex, tableIndex_eq_walkIndex, walkIndex, BitVec.extractLsb'_toNat,
    Nat.shiftRight_eq_div_pow]
  cases p with
  | pml4 =>
    show v.toNat / 2 ^ 39 % 2 ^ 9 < 256
    omega
  | pml5 =>
    show v.toNat / 2 ^ 48 % 2 ^ 9 < 256
    omega

/-- The pages of a range in the lower 2 ^ 47 bytes. -/
theorem lowPages_of_le (h : addr.toNat + cnt * 0x200000 ≤ 2 ^ 47) : LowPages p addr flags cnt := by
  intro k hk
  apply topIndex_low
  have hstep : (rangeStep flags).toNat ≤ 0x200000 := by
    unfold rangeStep
    split
    · decide
    · decide
  have hmul : k * (rangeStep flags).toNat ≤ k * 0x200000 := Nat.mul_le_mul_left k hstep
  have hoff : (BitVec.ofNat 64 k * rangeStep flags).toNat = k * (rangeStep flags).toNat := by
    have hk64 : k % 2 ^ 64 = k := Nat.mod_eq_of_lt (by omega)
    rw [BitVec.toNat_mul, BitVec.toNat_ofNat, hk64, Nat.mod_eq_of_lt (by omega)]
  rw [BitVec.toNat_add, hoff, Nat.mod_eq_of_lt (by omega)]
  omega

/-- **A range with bits in the bitmap** lies below the kernel half. -/
theorem lowPages_of_bits (hsize : size ≤ 262144) (h : bmIndex addr.toNat + cnt ≤ 8 * size) :
    LowPages p addr flags cnt := by
  by_cases hcnt : cnt = 0
  · intro k hk
    omega
  · apply lowPages_of_le
    have hlt := addr.isLt
    unfold bmIndex wrap mmapMinAddr pageSize at h
    omega

/-- INTERNAL: an index is a word. -/
theorem bmIndex_lt (a : ℕ) : bmIndex a < 2 ^ 64 := by
  unfold bmIndex wrap mmapMinAddr pageSize
  omega

/-- INTERNAL: the loop over the bits of no page. -/
theorem rangeCnt_zero {i : ℕ} (h : i < 2 ^ 64) : rangeCnt i 0 = 0 := by
  rw [rangeCnt, Nat.add_zero, wrap_of_lt h, Nat.sub_self]

end Low

/-! ## `mmap_alloc` -/

/-- The objects of the kernel heap that the call uses. -/
structure HeapReady (p : Paging) (place : Word → Option (List Index)) (root : Word) (kmm : Kmm)
    (t : TaskVm) : Prop where
  small : ∀ b, t.pm.bitmap = some b → t.pm.bmSize ≤ 262144
  bitmap : ∀ b, t.pm.bitmap = some b → HeapPlaced p place root b t.pm.bmSize t.vm
  objects : ∀ n ≤ 262144, HeapPlaced p place root (kmm.object n) n t.vm

/-- A part of the call that writes only to the kernel heap. -/
structure HeapStep (p : Paging) (tops : List Word) (place : Word → Option (List Index)) (root : Word)
    (kmm : Kmm) (t t' : TaskVm) : Prop where
  kept : TablesKept p tops (fun _ => False) place place t.vm t'.vm
  ready : HeapReady p place root kmm t'

section Alloc

variable {p : Paging} {tops : List Word} {place place' : Word → Option (List Index)}
  {root addr addr' bitmap : Word} {kmm : Kmm} {t t' t'' : TaskVm} {length : ℕ} {flags : BitVec 32}
  {s s' : Vm}

theorem HeapStep.trans (h : HeapStep p tops place root kmm t t')
    (h' : HeapStep p tops place root kmm t' t'') : HeapStep p tops place root kmm t t'' :=
  ⟨(h.kept.trans h'.kept).mono fun _ hi => hi.elim id id, h'.ready⟩

theorem heapStep_refl (h : TablesPlaced p place t.vm) (htops : ∀ t ∈ tops, place t = some [])
    (hready : HeapReady p place root kmm t) : HeapStep p tops place root kmm t t :=
  ⟨tablesKept_refl h htops, hready⟩

/-- INTERNAL: the memory changes, but neither the translations nor the page map. -/
theorem HeapReady.withVm (h : HeapReady p place root kmm t)
    (hk : TablesKept p tops (fun i => i.toNat < 256) place place' t.vm s') (hroot : root ∈ tops) :
    HeapReady p place' root kmm { t with vm := s' } :=
  ⟨h.small, fun b hb => (h.bitmap b hb).kept hk hroot, fun n hn => (h.objects n hn).kept hk hroot⟩

/-- INTERNAL: a new bitmap of `n` bytes is written. -/
theorem heapStep_newBitmap {l : List Byte} {n : ℕ} (h : TablesPlaced p place t.vm)
    (htops : ∀ t ∈ tops, place t = some []) (hroot : root ∈ tops)
    (hready : HeapReady p place root kmm t) (hn : n ≤ 262144) (hl : l.length = n)
    (hrun : writeBytes p root l (kmm.object n) t.vm = some s') :
    HeapStep p tops place root kmm t ⟨s', some (kmm.object n), n⟩ := by
  have hkept : TablesKept p tops (fun _ => False) place place t.vm s' :=
    writeBytes_kept h htops hroot (fun i hi a => (hready.objects n hn).unplaced (hl ▸ hi) a) hrun
  have hready' := hready.withVm (hkept.mono fun _ hi => hi.elim) hroot
  refine ⟨hkept, fun _ _ => hn, ?_, hready'.objects⟩
  intro b hb
  obtain rfl := Option.some.inj hb
  exact hready'.objects n hn

theorem init_heapStep (h : TablesPlaced p place t.vm) (htops : ∀ t ∈ tops, place t = some [])
    (hroot : root ∈ tops) (hready : HeapReady p place root kmm t)
    (hrun : t.init p root kmm = some t') :
    HeapStep p tops place root kmm t t' ∧
      t'.pm.bmSize = if t.pm.bitmap.isNone then 0x1000 else t.pm.bmSize := by
  rw [TaskVm.init] at hrun
  cases hb : t.pm.bitmap with
  | some b =>
    rw [hb] at hrun
    obtain rfl := Option.some.inj hrun
    exact ⟨heapStep_refl h htops hready, rfl⟩
  | none =>
    simp only [hb] at hrun
    obtain ⟨vm, hwrite, rfl⟩ := Option.map_eq_some_iff.mp hrun
    have hlen : (List.replicate 0x1000 (0 : Byte)).length = 0x1000 := List.length_replicate
    have hstep := heapStep_newBitmap h htops hroot hready (by omega) hlen hwrite
    exact ⟨hstep, rfl⟩

theorem grow_heapStep (h : TablesPlaced p place t.vm) (htops : ∀ t ∈ tops, place t = some [])
    (hroot : root ∈ tops) (hready : HeapReady p place root kmm t)
    (hrun : t.grow p root kmm bitmap = some t') : HeapStep p tops place root kmm t t' := by
  rw [TaskVm.grow] at hrun
  split at hrun
  · cases hrun
  · next hsize =>
    obtain ⟨vm, hwrite, rfl⟩ := Option.map_eq_some_iff.mp hrun
    refine heapStep_newBitmap h htops hroot hready (by omega) ?_ hwrite
    rw [List.length_map, List.length_range]

/-- **The run that the search finds** lies in the bitmap: each occupied page is counted twice. -/
theorem findRunAt_bound {pageCnt size n i cnt offset found : ℕ} (hsize : size ≤ 262144)
    (hi : i + n ≤ size) (hoffset : offset + cnt ≤ 2 * i)
    (hrun : findRunAt p root bitmap s pageCnt n i cnt offset = some (some found)) :
    found + pageCnt ≤ 2 * size := by
  induction n generalizing i cnt offset with
  | zero => cases hrun
  | succ n ih =>
    rw [findRunAt] at hrun
    cases htest : bmTestAt p root bitmap s i with
    | none =>
      rw [htest] at hrun
      cases hrun
    | some b =>
      simp only [htest] at hrun
      have hwrap : wrap (offset + cnt + 1) = offset + cnt + 1 := wrap_of_lt (by omega)
      cases b with
      | false =>
        simp only [Bool.false_eq_true, if_false] at hrun
        split at hrun
        · obtain rfl := Option.some.inj (Option.some.inj hrun)
          omega
        · exact ih (by omega) (by omega) hrun
      | true =>
        simp only [if_true, hwrap] at hrun
        split at hrun
        · obtain rfl := Option.some.inj (Option.some.inj hrun)
          omega
        · exact ih (by omega) (by omega) hrun

/-- INTERNAL: the bits of the range are set. -/
theorem bmSetFrom_heapStep {cnt : ℕ} (h : TablesPlaced p place t.vm)
    (htops : ∀ t ∈ tops, place t = some []) (hroot : root ∈ tops)
    (hready : HeapReady p place root kmm t) (hb : t.pm.bitmap = some bitmap)
    (hbits : cnt = 0 ∨ bmIndex addr.toNat + cnt ≤ 8 * t.pm.bmSize)
    (hrun : bmSetFrom p root bitmap (bmIndex addr.toNat) (rangeCnt (bmIndex addr.toNat) cnt) t.vm =
      some s') : HeapStep p tops place root kmm t { t with vm := s' } := by
  have hkept : TablesKept p tops (fun _ => False) place place t.vm s' := by
    have hsmall := hready.small bitmap hb
    rcases hbits with rfl | hbits
    · rw [rangeCnt_zero (bmIndex_lt addr.toNat)] at hrun
      obtain rfl := Option.some.inj hrun
      exact tablesKept_refl h htops
    · rw [rangeCnt_of_lt (by omega)] at hrun
      exact bmSetFrom_kept h htops hroot (hready.bitmap bitmap hb) hbits hrun
  exact ⟨hkept, hready.withVm (hkept.mono fun _ hi => hi.elim) hroot⟩

/-- What `mmap_alloc` does when the bitmap need not grow. -/
theorem mmapTryAt_heapStep (h : TablesPlaced p place t.vm) (htops : ∀ t ∈ tops, place t = some [])
    (hroot : root ∈ tops) (hready : HeapReady p place root kmm t) (hb : t.pm.bitmap = some bitmap)
    (hfixed : flags &&& 0x4#32 ≠ 0 →
      pageCnt length = 0 ∨ bmIndex addr.toNat + pageCnt length ≤ 8 * t.pm.bmSize)
    (hrun : mmapTryAt p root addr length flags bitmap t.pm.bmSize t.vm = some (some (s', addr'))) :
    HeapStep p tops place root kmm t { t with vm := s' } ∧
      (¬ flags &&& 0x4#32 ≠ 0 → ∀ f, LowPages p addr' f (pageCnt length)) := by
  rw [mmapTryAt] at hrun
  by_cases hfl : flags &&& 0x4#32 ≠ 0
  · simp only [if_pos hfl] at hrun
    obtain ⟨vm, hset, heq⟩ := Option.map_eq_some_iff.mp hrun
    obtain ⟨rfl, -⟩ := Prod.mk.inj (Option.some.inj heq)
    exact ⟨bmSetFrom_heapStep h htops hroot hready hb (hfixed hfl) hset, fun hno => absurd hfl hno⟩
  · simp only [if_neg hfl] at hrun
    cases hfind : findRunAt p root bitmap t.vm (pageCnt length) t.pm.bmSize 0 0 0 with
    | none =>
      rw [hfind] at hrun
      cases hrun
    | some found =>
      cases found with
      | none =>
        rw [hfind] at hrun
        cases hrun
      | some offset =>
        simp only [hfind] at hrun
        obtain ⟨vm, hset, heq⟩ := Option.map_eq_some_iff.mp hrun
        obtain ⟨rfl, rfl⟩ := Prod.mk.inj (Option.some.inj heq)
        have hsmall := hready.small bitmap hb
        have hbound := findRunAt_bound hsmall (by omega) (by omega) hfind
        have hindex : bmIndex (BitVec.ofNat 64 (offset * pageSize + mmapMinAddr)).toNat = offset := by
          unfold bmIndex wrap mmapMinAddr pageSize
          rw [BitVec.toNat_ofNat]
          omega
        have hbits : bmIndex (BitVec.ofNat 64 (offset * pageSize + mmapMinAddr)).toNat +
            pageCnt length ≤ 8 * t.pm.bmSize := by
          rw [hindex]
          omega
        exact ⟨bmSetFrom_heapStep h htops hroot hready hb (Or.inr hbits) hset,
          fun _ f => lowPages_of_bits hsmall hbits⟩

/-- **`mmap_alloc`** writes only to the kernel heap, and the address it finds is a low one.
SRCLINE: kernel/mm/mmap.cpp:8-50 -/
theorem mmapAllocAt_heapStep {n : ℕ} (h : TablesPlaced p place t.vm)
    (htops : ∀ t ∈ tops, place t = some []) (hroot : root ∈ tops)
    (hready : HeapReady p place root kmm t)
    (hfixed : flags &&& 0x4#32 ≠ 0 → InBitmap t.pm addr (pageCnt length))
    (hrun : mmapAllocAt p root kmm addr length flags n t = some (t', addr')) :
    HeapStep p tops place root kmm t t' ∧
      (¬ flags &&& 0x4#32 ≠ 0 → ∀ f, LowPages p addr' f (pageCnt length)) := by
  induction n generalizing t with
  | zero => cases hrun
  | succ n ih =>
    rw [mmapAllocAt, mmapAllocBody] at hrun
    cases hinit : t.init p root kmm with
    | none =>
      rw [hinit] at hrun
      cases hrun
    | some t₁ =>
      simp only [hinit] at hrun
      obtain ⟨hstep, hsize⟩ := init_heapStep h htops hroot hready hinit
      cases hb : t₁.pm.bitmap with
      | none =>
        simp only [hb] at hrun
        cases hrun
      | some bitmap =>
        simp only [hb] at hrun
        have hbits : flags &&& 0x4#32 ≠ 0 →
            pageCnt length = 0 ∨ bmIndex addr.toNat + pageCnt length ≤ 8 * t₁.pm.bmSize := by
          rw [hsize]
          exact hfixed
        cases htry : mmapTryAt p root addr length flags bitmap t₁.pm.bmSize t₁.vm with
        | none =>
          rw [htry] at hrun
          cases hrun
        | some r =>
          cases r with
          | some r =>
            simp only [htry, Option.some.injEq, Prod.mk.injEq] at hrun
            obtain ⟨rfl, rfl⟩ := hrun
            obtain ⟨htry', hlow⟩ := mmapTryAt_heapStep hstep.kept.placed htops hroot hstep.ready hb
              hbits htry
            exact ⟨hstep.trans htry', hlow⟩
          | none =>
            simp only [htry] at hrun
            -- only the search makes the bitmap grow
            have hsearch : ¬ flags &&& 0x4#32 ≠ 0 := by
              intro hfl
              rw [mmapTryAt, if_pos hfl] at htry
              obtain ⟨vm, -, heq⟩ := Option.map_eq_some_iff.mp htry
              cases heq
            cases hgrow : t₁.grow p root kmm bitmap with
            | none =>
              rw [hgrow] at hrun
              cases hrun
            | some t₂ =>
              simp only [hgrow] at hrun
              have hgrown := grow_heapStep hstep.kept.placed htops hroot hstep.ready hgrow
              obtain ⟨hrest, hlow⟩ := ih hgrown.kept.placed hgrown.ready
                (fun hfl => absurd hfl hsearch) hrun
              exact ⟨(hstep.trans hgrown).trans hrest, hlow⟩

/-- **`check_mmap_addr`** writes nothing but a new bitmap. -/
theorem checkMmapAddrAt_heapStep {ret : ℤ} (h : TablesPlaced p place t.vm)
    (htops : ∀ t ∈ tops, place t = some []) (hroot : root ∈ tops)
    (hready : HeapReady p place root kmm t)
    (hrun : checkMmapAddrAt p root kmm t addr length flags = some (t', ret)) :
    HeapStep p tops place root kmm t t' := by
  rw [checkMmapAddrAt] at hrun
  split at hrun
  · obtain ⟨rfl, -⟩ := Prod.mk.inj (Option.some.inj hrun)
    exact heapStep_refl h htops hready
  · split at hrun
    · obtain ⟨rfl, -⟩ := Prod.mk.inj (Option.some.inj hrun)
      exact heapStep_refl h htops hready
    · cases hinit : t.init p root kmm with
      | none =>
        rw [hinit] at hrun
        cases hrun
      | some t₁ =>
        simp only [hinit] at hrun
        cases hb : t₁.pm.bitmap with
        | none =>
          simp only [hb] at hrun
          cases hrun
        | some bitmap =>
          simp only [hb] at hrun
          obtain ⟨taken, -, heq⟩ := Option.map_eq_some_iff.mp hrun
          obtain ⟨rfl, -⟩ := Prod.mk.inj heq
          exact (init_heapStep h htops hroot hready hinit).1

end Alloc

/-! ## The call -/

section Call

variable {p : Paging} {tops : List Word} {place place' : Word → Option (List Index)}
  {root addr addr' v flags a f : Word} {kmm : Kmm} {t t' : TaskVm} {s s' : Vm} {cnt length : ℕ} {pa : ℤ}

/-- INTERNAL: the frame of a byte. -/
theorem frameOf_of_holds (hf : PageAligned 0 f) (ha : (a - f).toNat < 0x1000) : frameOf a = f := by
  have hhigh : ∀ k, 12 ≤ k → (a - f).getLsbD k = false := by
    intro k hk
    apply Nat.testBit_lt_two_pow
    have hpow : 2 ^ 12 ≤ 2 ^ k := Nat.pow_le_pow_right (by decide) hk
    omega
  have hlow : f &&& (a - f) = 0 := by
    apply BitVec.eq_of_getLsbD_eq
    intro k _
    rw [BitVec.getLsbD_and]
    by_cases hk : k < 12
    · rw [hf.getLsbD_low (by omega)]
      simp
    · rw [hhigh k (by omega), Bool.and_false]
      simp
  have hsum : a = f ||| (a - f) := by
    rw [← BitVec.add_eq_or_of_and_eq_zero _ _ hlow, BitVec.add_comm, BitVec.sub_add_cancel]
  apply BitVec.eq_of_getLsbD_eq
  intro k _
  rw [getLsbD_frameOf]
  by_cases hk : 12 ≤ k
  · rw [hsum, BitVec.getLsbD_or, hhigh k hk, Bool.or_false]
    simp [hk]
  · rw [hf.getLsbD_low (by omega)]
    simp [hk]

/-- INTERNAL: flags without address bits and without bit 7. -/
theorem fits_of_plain {r : PageRecord} (hr : r.flags &&& 0x000ffffffffff080#64 = 0)
    (hbase : PageAligned 0 r.base) (hsize : r.size = 0x1000) : r.Fits := by
  have hmask : 0x000ffffffffff080#64 = 0x000ffffffffff000#64 ||| BitVec.twoPow 64 7 := by decide
  have hclear : ∀ k < 64, k = 7 ∨ 12 ≤ k ∧ k < 52 → r.flags.getLsbD k = false := by
    intro k hk hcase
    have hbit := congrArg (fun x => x.getLsbD k) hr
    simp only [hmask, BitVec.getLsbD_and, BitVec.getLsbD_or, getLsbD_addressMask k hk,
      BitVec.getLsbD_twoPow] at hbit
    rcases hcase with rfl | ⟨hlow, hhigh⟩
    · simpa using hbit
    · simpa [hlow, hhigh] using hbit
  have hlevel : r.level = 0 := by
    rw [PageRecord.level, hclear 7 (by omega) (Or.inl rfl)]
    rfl
  intro _
  rw [hlevel, hsize]
  refine ⟨?_, by decide⟩
  apply pageBase_eq hbase
  intro k hlow hhigh
  rw [BitVec.getLsbD_or, hclear k (by omega) (Or.inr ⟨by omega, hhigh⟩), Bool.or_false]

/-- INTERNAL: the pages of a range have its flags. -/
theorem rangePages_flags {r : PageRecord} (hr : r ∈ rangePages p root flags pa cnt v s) :
    r.flags = flags := by
  induction cnt generalizing v s with
  | zero => cases hr
  | succ cnt ih =>
    rw [rangePages] at hr
    split at hr
    · cases hr
    · rcases List.mem_cons.mp hr with rfl | hr
      · rfl
      · split at hr
        · cases hr
        · exact ih hr

/-- **After `map_range`** with such flags, an address is translated to no page table, if it was not
before. -/
theorem mapRange_unplaced (h : TablesPlaced p place s) (htops : ∀ t ∈ tops, place t = some [])
    (hroot : root ∈ tops) (hflags : flags &&& 0x000ffffffffff080#64 = 0)
    (hrun : mapRange p root flags pa cnt v s = some s') {touched : Index → Prop}
    (hkept : TablesKept p tops touched place place' s s')
    (htakes : TakesFrames place' (rangePages p root flags pa cnt v s) s s')
    (hbefore : Interface.translate p s.mem root addr = some a →
      place (frameOf a) = none ∧ frameOf a ∉ s.free)
    (ha : Interface.translate p s'.mem root addr = some a) : place' (frameOf a) = none := by
  have hfits : ∀ r ∈ rangePages p root flags pa cnt v s, r.Fits := by
    intro r hr
    exact fits_of_plain (by rw [rangePages_flags hr, hflags])
      (h.aligned _ (htakes.taken r hr).1) (htakes.size r hr)
  obtain ⟨-, -, hreach⟩ := mapRange_mapsPages h htops hroot hfits hrun
  rcases hreach root hroot addr a ha with hsame | ⟨r, hr, -, hholds⟩
  · obtain ⟨hplace, hfree⟩ := hbefore hsame
    rcases hkept.new (frameOf a) with hnew | ⟨hin, -⟩
    · rw [hnew, hplace]
    · exact absurd hin hfree
  · rw [PageRecord.Holds, htakes.size r hr] at hholds
    rw [frameOf_of_holds (h.aligned _ (htakes.taken r hr).1) hholds]
    exact htakes.unplaced r hr

/-- INTERNAL: mapping low pages. -/
theorem mapRange_low (h : TablesPlaced p place s) (htops : ∀ t ∈ tops, place t = some [])
    (hroot : root ∈ tops) (hlow : LowPages p v flags cnt)
    (hrun : mapRange p root flags pa cnt v s = some s') :
    ∃ place', TablesKept p tops (fun i => i.toNat < 256) place place' s s' ∧
      TakesFrames place' (rangePages p root flags pa cnt v s) s s' := by
  obtain ⟨place', hkept, htakes⟩ := mapRange_kept h htops hroot hrun
  refine ⟨place', hkept.mono ?_, htakes⟩
  rintro i ⟨k, hk, rfl⟩
  exact hlow k hk

/-- What the call leaves. -/
structure MmapKept (p : Paging) (tops : List Word) (place place' : Word → Option (List Index))
    (root : Word) (kmm : Kmm) (t t' : TaskVm) : Prop where
  kept : TablesKept p tops (fun i => i.toNat < 256) place place' t.vm t'.vm
  ready : HeapReady p place' root kmm t'

/-- An anonymous mapping.
SRCLINE: kernel/mm/mmap.cpp:82-88 -/
theorem mmapAt_anonymous {prot fd : BitVec 32} {read : BitVec 32 → ℕ → Option (List Byte)}
    (h : TablesPlaced p place t.vm) (htops : ∀ t ∈ tops, place t = some []) (hroot : root ∈ tops)
    (hready : HeapReady p place root kmm t)
    (hhint : ∀ t₁, checkMmapAddrAt p root kmm t addr length 0x8#32 = some (t₁, 0) →
      LowPages p addr (prot.signExtend 64) (pageCnt length))
    (hrun : mmapAt p root kmm read t addr length prot 0x8#32 fd = some (t', addr')) :
    ∃ place', MmapKept p tops place place' root kmm t t' := by
  simp only [mmapAt, if_true] at hrun
  cases hcheck : checkMmapAddrAt p root kmm t addr length 0x8#32 with
  | none =>
    rw [hcheck] at hrun
    cases hrun
  | some r =>
    obtain ⟨t₁, ret⟩ := r
    simp only [hcheck] at hrun
    have hstep₁ := checkMmapAddrAt_heapStep h htops hroot hready hcheck
    cases halloc : (if ret = -1 then mmapAllocAt p root kmm addr length 0x8#32 65 t₁
        else some (t₁, addr)) with
    | none =>
      rw [halloc] at hrun
      cases hrun
    | some r =>
      obtain ⟨t₂, addr₂⟩ := r
      simp only [halloc] at hrun
      obtain ⟨vm, hrange, heq⟩ := Option.map_eq_some_iff.mp hrun
      obtain ⟨rfl, -⟩ := Prod.mk.inj heq
      -- the address is the hint, or one that the search finds
      have hfound : HeapStep p tops place root kmm t t₂ ∧
          LowPages p addr₂ (prot.signExtend 64) (pageCnt length) := by
        by_cases hret : ret = -1
        · rw [if_pos hret] at halloc
          obtain ⟨hstep₂, hlow⟩ := mmapAllocAt_heapStep hstep₁.kept.placed htops hroot hstep₁.ready
            (fun hfl => absurd rfl hfl) halloc
          exact ⟨hstep₁.trans hstep₂, hlow (fun hfl => hfl rfl) _⟩
        · rw [if_neg hret] at halloc
          obtain ⟨rfl, rfl⟩ := Prod.mk.inj (Option.some.inj halloc)
          have hzero : ret = 0 := by
            rw [checkMmapAddrAt] at hcheck
            split at hcheck
            · exact absurd (Prod.mk.inj (Option.some.inj hcheck)).2.symm hret
            · split at hcheck
              · exact (Prod.mk.inj (Option.some.inj hcheck)).2.symm
              · split at hcheck
                · cases hcheck
                · split at hcheck
                  · cases hcheck
                  · obtain ⟨taken, -, heq⟩ := Option.map_eq_some_iff.mp hcheck
                    have hret' := (Prod.mk.inj heq).2
                    cases taken with
                    | true => exact absurd hret'.symm hret
                    | false => exact hret'.symm
          subst hzero
          exact ⟨hstep₁, hhint _ hcheck⟩
      obtain ⟨hstep, hlow⟩ := hfound
      obtain ⟨place', hkept, -⟩ := mapRange_low hstep.kept.placed htops hroot hlow hrange
      refine ⟨place', (hstep.kept.trans hkept).mono fun _ hi => hi.elim False.elim id, ?_⟩
      exact hstep.ready.withVm hkept hroot

/-- A fixed mapping.
SRCLINE: kernel/mm/mmap.cpp:90-101 -/
theorem mmapAt_fixed {prot fl fd : BitVec 32} {read : BitVec 32 → ℕ → Option (List Byte)}
    (h : TablesPlaced p place t.vm) (htops : ∀ t ∈ tops, place t = some []) (hroot : root ∈ tops)
    (hready : HeapReady p place root kmm t) (hfl : fl &&& 0x4#32 ≠ 0) (hanon : fl ≠ 0x8#32)
    (hbits : InBitmap t.pm addr (pageCnt length))
    (hfile : fl &&& 0x8#32 = 0 → prot.signExtend 64 &&& 0x000ffffffffff080#64 = 0 ∧
      ∀ j < length, ∀ a, Interface.translate p t.vm.mem root (addr + BitVec.ofNat 64 j) = some a →
        place (frameOf a) = none ∧ frameOf a ∉ t.vm.free)
    (hread : ∀ n data, read fd n = some data → data.length ≤ n)
    (hrun : mmapAt p root kmm read t addr length prot fl fd = some (t', addr')) :
    ∃ place', MmapKept p tops place place' root kmm t t' := by
  simp only [mmapAt, if_neg hanon, if_pos hfl] at hrun
  have hlow : LowPages p addr (prot.signExtend 64) (pageCnt length) := by
    rcases hbits with hnone | hbits
    · intro k hk
      omega
    · apply lowPages_of_bits _ hbits
      cases hb : t.pm.bitmap with
      | none => exact (by decide : 0x1000 ≤ 262144)
      | some b => exact hready.small b hb
  cases hrange : mapRange p root (prot.signExtend 64) prot.toInt (pageCnt length) addr t.vm with
  | none =>
    rw [hrange] at hrun
    cases hrun
  | some vm₁ =>
    simp only [hrange] at hrun
    obtain ⟨place', hkept, htakes⟩ := mapRange_low h htops hroot hlow hrange
    have hready₁ : HeapReady p place' root kmm { t with vm := vm₁ } := hready.withVm hkept hroot
    cases halloc : mmapAllocAt p root kmm addr length fl 65 { t with vm := vm₁ } with
    | none =>
      rw [halloc] at hrun
      cases hrun
    | some r =>
      obtain ⟨t₂, addr₂⟩ := r
      simp only [halloc] at hrun
      obtain ⟨hstep, -⟩ := mmapAllocAt_heapStep (t := { t with vm := vm₁ }) hkept.placed hkept.top hroot
        hready₁ (fun _ => hbits) halloc
      have hdone : MmapKept p tops place place' root kmm t t₂ :=
        ⟨(hkept.trans hstep.kept).mono fun _ hi => hi.elim id False.elim, hstep.ready⟩
      by_cases hfl8 : fl &&& 0x8#32 = 0
      · rw [if_neg (not_not_intro hfl8)] at hrun
        cases hdata : read fd length with
        | none =>
          simp only [hdata] at hrun
          obtain ⟨rfl, -⟩ := Prod.mk.inj (Option.some.inj hrun)
          exact ⟨place', hdone⟩
        | some data =>
          simp only [hdata] at hrun
          obtain ⟨vm, hwrite, heq⟩ := Option.map_eq_some_iff.mp hrun
          obtain ⟨rfl, -⟩ := Prod.mk.inj heq
          obtain ⟨hplain, hbefore⟩ := hfile hfl8
          have hlen := hread length data hdata
          have hwritten : TablesKept p tops (fun _ => False) place' place' t₂.vm vm := by
            apply writeBytes_kept hstep.kept.placed hkept.top hroot _ hwrite
            intro j hj a ha
            rw [hstep.kept.translate_eq hroot id] at ha
            exact mapRange_unplaced h htops hroot hplain hrange hkept htakes
              (hbefore j (by omega) a) ha
          refine ⟨place', (hdone.kept.trans hwritten).mono fun _ hi => hi.elim id False.elim, ?_⟩
          exact hdone.ready.withVm (hwritten.mono fun _ hi => hi.elim) hroot
      · rw [if_pos hfl8] at hrun
        obtain ⟨rfl, -⟩ := Prod.mk.inj (Option.some.inj hrun)
        exact ⟨place', hdone⟩

end Call

/-! ## The run -/

/-- INTERNAL: only tables that are in use need a place. -/
theorem systemPlaced_restrict {p : Paging} {st : TableSystem} (h : SystemPlaced p st) :
    ∃ place, TablesPlaced p place st.vm ∧ (∀ t ∈ st.kernel :: st.tables, place t = some []) ∧
      ∀ f, ¬ st.IsTable p f → place f = none := by
  classical
  obtain ⟨place, hplaced, htops⟩ := h
  have hlevels := levels_ge p
  have hin : ∀ f, st.IsTable p f → (if st.IsTable p f then place f else none) = place f :=
    fun f hf => if_pos hf
  have hout : ∀ f, ¬ st.IsTable p f → (if st.IsTable p f then place f else none) = none :=
    fun f hf => if_neg hf
  have hsome : ∀ t l, (if st.IsTable p t then place t else none) = some l → place t = some l := by
    intro t l ht
    by_cases hu : st.IsTable p t
    · rwa [if_pos hu] at ht
    · rw [if_neg hu] at ht
      cases ht
  refine ⟨fun f => if st.IsTable p f then place f else none, ⟨?_, ?_, ?_, hplaced.aligned,
    hplaced.nodup⟩, ?_, hout⟩
  · exact Placed.restrict hplaced.placed tableBelow_level_zero
      (show ∀ t, t ∈ st.kernel :: st.tables → place t = some [] from htops) hin hout
  · intro t l i n ht hlen
    exact hplaced.clean t l i n (hsome t l ht) hlen
  · intro f hf
    by_cases hu : st.IsTable p f
    · rw [if_pos hu]
      exact hplaced.unused f hf
    · exact if_neg hu
  · intro t ht
    have hroot : InTables p st.vm.mem t t := by
      obtain ⟨n, hn⟩ : ∃ n, p.levels = n + 1 := ⟨p.levels - 1, by omega⟩
      rw [InTables, hn]
      exact inTree_root n t
    simp only
    rw [if_pos ⟨t, ht, hroot⟩]
    exact htops t ht

/-- The invariant of the run: the tables share tables at the same place, and the bitmaps have the sizes
of objects of the kernel heap. -/
structure UserSound (p : Paging) (u : UserSystem) : Prop where
  placed : SystemPlaced p u.sys
  small : ∀ t ∈ u.sys.tables, ∀ b, (u.maps t).bitmap = some b → (u.maps t).bmSize ≤ 262144

section Runs

variable {p : Paging} {u u' : UserSystem} {root : Word} {regs : MmapRegs} {kmm : Kmm}
  {read : BitVec 32 → ℕ → Option (List Byte)}

/-- What a walk reads gives the translation and the rights. -/
theorem TablesKept.access_eq {tops : List Word} {touched : Index → Prop}
    {place place' : Word → Option (List Index)} {s s' : Vm} {t v : Word}
    (h : TablesKept p tops touched place place' s s') (ht : t ∈ tops) (hv : ¬ touched (topIndex p v)) :
    access p s'.mem t v = access p s.mem t v := by
  rw [access, access, h.translate_eq ht hv, h.trails t ht v hv]

/-- INTERNAL: a heap object in the terms of the places. -/
theorem HeapObject.placed {st : TableSystem} {v : Word} {n : ℕ}
    {place : Word → Option (List Index)} (h : HeapObject p st root v n)
    (hout : ∀ f, ¬ st.IsTable p f → place f = none) : HeapPlaced p place root v n st.vm := by
  intro i hi
  obtain ⟨hhalf, a, ha, htable, hfree⟩ := h i hi
  exact ⟨hhalf, a, ha, hout _ htable, hfree⟩

/-- **One call of `mmap`.** -/
theorem UserSound.mmap (h : UserSound p u) (hstep : userStep p u (.mmap root regs kmm read) u') :
    UserSound p u' ∧ KernelHalfKept p u u' := by
  obtain ⟨hcontained, hallowed, hexec⟩ := hstep
  obtain ⟨hroot, hbitmap, hobjects, hread⟩ := hallowed
  obtain ⟨hhint, hfixed, hfile⟩ := hcontained
  obtain ⟨place, hplaced, htops, hout⟩ := systemPlaced_restrict h.placed
  obtain ⟨⟨t', addr'⟩, hrun, rfl⟩ := Option.map_eq_some_iff.mp hexec
  have hrootTop : root ∈ u.sys.kernel :: u.sys.tables := List.mem_cons_of_mem _ hroot
  have hready : HeapReady p place root kmm ⟨u.sys.vm, u.maps root⟩ :=
    ⟨h.small root hroot, fun b hb => HeapObject.placed (hbitmap b hb) hout,
      fun n hn => HeapObject.placed (hobjects n hn) hout⟩
  have hdone : ∃ place', MmapKept p (u.sys.kernel :: u.sys.tables) place place' root kmm
      ⟨u.sys.vm, u.maps root⟩ t' := by
    rw [syscallMmap] at hrun
    by_cases hanon : regs.flags = 0x8#32
    · rw [hanon] at hrun hhint
      exact mmapAt_anonymous hplaced htops hrootTop hready (hhint rfl) hrun
    · by_cases hfl : regs.flags &&& 0x4#32 ≠ 0
      · refine mmapAt_fixed hplaced htops hrootTop hready hfl hanon (hfixed hfl) ?_
          (fun n data => hread _ n data) hrun
        intro hfl8
        obtain ⟨hplain, hbefore⟩ := hfile hfl hfl8
        refine ⟨hplain, fun j hj a ha => ?_⟩
        obtain ⟨htable, hfree⟩ := hbefore j hj a ha
        exact ⟨hout _ htable, hfree⟩
      · simp only [mmapAt, if_neg hanon, if_neg hfl] at hrun
        obtain ⟨rfl, -⟩ := Prod.mk.inj (Option.some.inj hrun)
        exact ⟨place, tablesKept_refl hplaced htops, hready⟩
  obtain ⟨place', hkept, hready'⟩ := hdone
  refine ⟨⟨⟨place', hkept.placed, hkept.top⟩, ?_⟩, ?_⟩
  · intro t ht b hb
    by_cases htr : t = root
    · subst htr
      simp only [Function.update_self] at hb ⊢
      exact hready'.small b hb
    · simp only [Function.update_of_ne htr] at hb ⊢
      exact h.small t ht b hb
  · intro t ht v hv
    apply hkept.access_eq ht
    omega

/-- INTERNAL: a write to memory that is no page table. -/
theorem UserSound.write {a : Word} {b : Byte} (h : UserSound p u) (ha : ¬ u.sys.IsTable p (frameOf a)) :
    UserSound p (u.withVm (u.sys.vm.setByte a b)) := by
  obtain ⟨place, hplaced, htops, hout⟩ := systemPlaced_restrict h.placed
  have hkept : TablesKept p (u.sys.kernel :: u.sys.tables) (fun _ => True) place place u.sys.vm
      (u.sys.vm.setByte a b) := setByte_kept hplaced htops (hout _ ha)
  exact ⟨⟨place, hkept.placed, hkept.top⟩, h.small⟩

/-- INTERNAL: the tables of the system after a call on them. -/
theorem tables_exec {st st' : TableSystem} {call : TableCall} (hexec : st.exec p call = some st') :
    st'.tables = st.tables ∨ call = .create ∧ ∃ f, st'.tables = f :: st.tables := by
  cases call with
  | create =>
    obtain ⟨⟨vm, f⟩, -, rfl⟩ := Option.map_eq_some_iff.mp hexec
    exact Or.inr ⟨rfl, f, rfl⟩
  | mapPage root vaddr flags block pa =>
    obtain ⟨vm, -, rfl⟩ := Option.map_eq_some_iff.mp hexec
    exact Or.inl rfl
  | mapPageRaw root vaddr paddr flags1 flags0 pa =>
    obtain ⟨vm, -, rfl⟩ := Option.map_eq_some_iff.mp hexec
    exact Or.inl rfl
  | mapRange root vaddr flags cnt pa =>
    obtain ⟨vm, -, rfl⟩ := Option.map_eq_some_iff.mp hexec
    exact Or.inl rfl
  | unmapPage root vaddr pageLength =>
    obtain ⟨vm, -, rfl⟩ := Option.map_eq_some_iff.mp hexec
    exact Or.inl rfl
  | unmapRange root vaddr pageLengths =>
    obtain ⟨vm, -, rfl⟩ := Option.map_eq_some_iff.mp hexec
    exact Or.inl rfl

/-- INTERNAL: the page map of a new table has no bitmap. -/
theorem newMap_small {st' : TableSystem} {call : TableCall} (hexec : u.sys.exec p call = some st')
    (hsmall : ∀ t ∈ u.sys.tables, ∀ b, (u.maps t).bitmap = some b → (u.maps t).bmSize ≤ 262144) :
    ∀ t ∈ st'.tables, ∀ b, (u.newMap st' call t).bitmap = some b →
      (u.newMap st' call t).bmSize ≤ 262144 := by
  intro t ht b hb
  by_cases hcreate : call = .create
  · subst hcreate
    obtain ⟨⟨vm, f⟩, -, rfl⟩ := Option.map_eq_some_iff.mp hexec
    simp only [UserSystem.newMap] at hb ⊢
    by_cases htf : t = f
    · rw [htf, Function.update_self] at hb
      cases hb
    · rw [Function.update_of_ne htf] at hb ⊢
      exact hsmall t ((List.mem_cons.mp ht).resolve_left htf) b hb
  · have hmaps : u.newMap st' call = u.maps := by
      cases call with
      | create => exact absurd rfl hcreate
      | mapPage root vaddr flags block pa => rfl
      | mapPageRaw root vaddr paddr flags1 flags0 pa => rfl
      | mapRange root vaddr flags cnt pa => rfl
      | unmapPage root vaddr pageLength => rfl
      | unmapRange root vaddr pageLengths => rfl
    rw [hmaps] at hb ⊢
    rcases tables_exec hexec with hsame | ⟨rfl, -⟩
    · rw [hsame] at ht
      exact hsmall t ht b hb
    · exact absurd rfl hcreate

/-- **Every operation keeps the invariant.** -/
theorem UserSound.step {op : UserOp} (h : UserSound p u) (hstep : userStep p u op u') :
    UserSound p u' := by
  cases op with
  | table call =>
    obtain ⟨-, hallowed, hexec⟩ := hstep
    obtain ⟨sys, hcall, rfl⟩ := Option.map_eq_some_iff.mp hexec
    exact ⟨h.placed.step hallowed hcall, newMap_small hcall h.small⟩
  | write a b =>
    obtain ⟨-, hallowed, hexec⟩ := hstep
    obtain rfl := Option.some.inj hexec
    exact h.write hallowed
  | mmap root regs kmm read => exact (h.mmap hstep).1

theorem userSound_initial {vm₀ : Vm} {totalMem : ℕ} (h : u.Initial p vm₀ totalMem) : UserSound p u := by
  refine ⟨systemPlaced_initial h, ?_⟩
  intro t ht
  rw [h.2.2.2.2] at ht
  cases ht

/-- **`mmap` does not touch the kernel half**, in every run whose calls of `mmap` meet the condition: each
further such call leaves the translation and the rights of every address of the kernel half as they are,
in every page table.
SRCLINE: kernel/mm/mmap.cpp:8-104, 125-128, kernel/mm/vmm.cpp:308-326, 343-365, 499-517 -/
theorem mmap_keeps_kernelHalf (p : Paging) (vm₀ : Vm) (totalMem : ℕ) (u₀ u : UserSystem)
    (l : List UserOp) (h₀ : u₀.Initial p vm₀ totalMem) (h : Run (userStep p) u₀ l u) (root : Word)
    (regs : MmapRegs) (kmm : Kmm) (read : BitVec 32 → ℕ → Option (List Byte)) (u' : UserSystem)
    (hstep : userStep p u (.mmap root regs kmm read) u') : KernelHalfKept p u u' := by
  have hsound : UserSound p u :=
    Run.invariant (UserSound p) (fun _ _ _ hs hstep => hs.step hstep) h (userSound_initial h₀)
  exact (hsound.mmap hstep).2

end Runs

/-! ## Writing objects -/

section Written

variable {p : Paging} {tops : List Word} {place : Word → Option (List Index)} {s s' : Vm}
  {root v : Word} {n : ℕ}

/-- **An object can be written**, and no other memory changes. -/
theorem HeapPlaced.writes {l : List Byte} (h : HeapPlaced p place root v n s)
    (hs : TablesPlaced p place s) (htops : ∀ t ∈ tops, place t = some []) (hroot : root ∈ tops)
    (hl : l.length ≤ n) : ∃ s', writeBytes p root l v s = some s' ∧ s'.free = s.free ∧
      ∀ g, (∀ i < n, ∀ a, Interface.translate p s.mem root (v + BitVec.ofNat 64 i) = some a →
        frameOf a ≠ g) → s'.mem g = s.mem g := by
  induction l generalizing v n s with
  | nil => exact ⟨s, rfl, rfl, fun _ _ => rfl⟩
  | cons b l ih =>
    rw [List.length_cons] at hl
    obtain ⟨-, a, ha, hplace, -⟩ := h 0 (by omega)
    have hzero : v + BitVec.ofNat 64 0 = v := BitVec.add_zero v
    have hnext : ∀ i, v + 1 + BitVec.ofNat 64 i = v + BitVec.ofNat 64 (i + 1) := by
      intro i
      rw [BitVec.add_assoc, BitVec.add_comm 1, BitVec.ofNat_add]
      rfl
    rw [hzero] at ha
    have hstore : store p root s v b = some (s.setByte a b) := by rw [store, ha, Option.map_some]
    have hkept : TablesKept p tops (fun _ => False) place place s (s.setByte a b) :=
      setByte_kept hs htops hplace
    have hrest : HeapPlaced p place root (v + 1) (n - 1) (s.setByte a b) := by
      intro i hi
      rw [hnext]
      exact h.kept (hkept.mono fun _ hfalse => hfalse.elim) hroot (i + 1) (by omega)
    obtain ⟨s', hwrite, hfree, hmem⟩ := ih hrest hkept.placed (by omega)
    refine ⟨s', ?_, hfree, ?_⟩
    · rw [writeBytes, hstore]
      exact hwrite
    · intro g hg
      have hag : g ≠ frameOf a := by
        rintro rfl
        exact hg 0 (by omega) a (by rwa [hzero]) rfl
      have hothers : ∀ i < n - 1, ∀ a', Interface.translate p (s.setByte a b).mem root
          (v + 1 + BitVec.ofNat 64 i) = some a' → frameOf a' ≠ g := by
        intro i hi a' ha'
        rw [hkept.translate_eq hroot id, hnext] at ha'
        exact hg (i + 1) (by omega) a' ha'
      rw [hmem g hothers]
      exact Function.update_of_ne hag _ _

end Written

/-! ## The first task -/

/-- A task whose page table is in the frame `f`, after `vmm::init` for 64 MiB of memory: what the kernel
half of its table maps, and which memory has not been used. -/
structure FirstTask (u : UserSystem) (f : Word) : Prop where
  tables : u.sys.tables = [f]
  noBitmap : (u.maps f).bitmap = none
  frames : 4 ≤ u.sys.vm.free.length
  placed : ∃ place, TablesPlaced .pml4 place u.sys.vm ∧
    (∀ t ∈ u.sys.kernel :: u.sys.tables, place t = some []) ∧
    ∀ g, g ∉ bootVm.free → place g = none ∧ g ∉ u.sys.vm.free ∧ ∀ i, u.sys.vm.mem g i = 0
  tree : TableTree .pml4 u.sys.vm.mem f
  missing : ∀ i, i ≠ 511 → i ≠ 256 → u.sys.vm.mem f i = 0
  direct : ∀ a < 0x4000000, Interface.translate .pml4 u.sys.vm.mem f (highVma + BitVec.ofNat 64 a) =
    some (BitVec.ofNat 64 a)
  window : ∀ a < 0x40000000, Interface.translate .pml4 u.sys.vm.mem f
    (highVma + BitVec.ofNat 64 (0x7fff80000000 + a)) = some (BitVec.ofNat 64 a)

/-- INTERNAL: the 1 GiB at `kernel_high_vma` after `vmm::init`. -/
theorem translate_window {root : Word} {height : Word → ℕ} {s : Vm} {a size : ℕ}
    (h : HugeMap .pml4 root (initSlots .pml4 size) height s) (ha : a < 0x40000000) :
    Interface.translate .pml4 s.mem root (highVma + BitVec.ofNat 64 (0x7fff80000000 + a)) =
      some (BitVec.ofNat 64 a) := by
  have hkey := hugeKey_high (p := .pml4) (a := 0x7fff80000000 + a) (by omega)
  have hagree : Agrees .pml4 (walkIndex (highVma + BitVec.ofNat 64 (0x7fff80000000 + a)))
      (directPhys 0 (a / 0x200000) + kernelHighVma) := by
    rw [agrees_walkIndex_iff, hkey, hugeKey_kernel (by omega)]
    simp only [Paging.levels]
    omega
  rcases @directSlots_cases .pml4 kernelHighVma 0x200 0
    (walkIndex (highVma + BitVec.ofNat 64 (0x7fff80000000 + a))) with ⟨-, hno⟩ | ⟨k, hk, hsome, hat, -⟩
  · exact absurd hagree (hno _ (by omega))
  · rw [agrees_walkIndex_iff, hkey, hugeKey_kernel (by omega)] at hat
    simp only [Paging.levels] at hat
    have hk' : k = a / 0x200000 := by omega
    have hfound : initSlots .pml4 size (walkIndex (highVma + BitVec.ofNat 64 (0x7fff80000000 + a))) =
        some (directEntry (directPhys 0 k)) := by
      rw [initSlots, hsome, Option.some_or]
    have hsum : a / 0x200000 * 0x200000 + (0x7fff80000000 + a) % 0x200000 = a := by omega
    rw [h.translate_some (by omega) (by omega) hfound, hk', hsum]

/-- INTERNAL: the entries of the top table for the direct map and for the kernel. -/
theorem topIndex_pml4 {v : Word} {i : ℕ} (h : v.toNat / 2 ^ 39 % 2 ^ 9 = i) :
    topIndex .pml4 v = BitVec.ofNat 9 i := by
  apply BitVec.eq_of_toNat_eq
  rw [topIndex, tableIndex_eq_walkIndex, toNat_walkIndex, BitVec.toNat_ofNat, ← h]
  exact (Nat.mod_mod _ _).symm

/-- INTERNAL: the number of frames before `vmm::init`. -/
theorem bootVm_length : bootVm.free.length = 0x1000 := by
  rw [bootVm, frameRow, List.length_map, List.length_range]

/-- **The first task.** -/
theorem exists_firstTask : ∃ u₀ u f, u₀.Initial .pml4 bootVm 0x4000000 ∧
    Run (userStep .pml4) u₀ [.table .create] u ∧ FirstTask u f := by
  have hlen := bootVm_length
  have hfresh : FreshFrames bootVm := freshFrames_frameRow _ (by omega)
  have hspent : (0x200 + 0x4000000 / 0x200000) * (Paging.pml4.levels - 1) = 1632 := rfl
  obtain ⟨vm, root, hinit, hleft⟩ := @vmmInit_spends .pml4 bootVm 0x4000000 (by omega)
  obtain ⟨height, hmap⟩ := vmmInit_hugeMap hfresh hinit
  obtain ⟨place, hplaced, hroot, hout⟩ := vmmInit_placed hfresh hinit
  have hkernel : root ∉ vm.free := hmap.unused root (inTree_root 3 root)
  obtain ⟨vm₁, f, hcreate⟩ : ∃ vm₁ f, createGeneric vm root = some (vm₁, f) := by
    cases hfree : vm.free with
    | nil =>
      rw [hfree, List.length_nil] at hleft
      omega
    | cons f fs =>
      simp only [createGeneric, Vm.calloc, hfree]
      exact ⟨_, _, rfl⟩
  obtain ⟨hfree, hrow, hnew⟩ := createGeneric_eq hkernel hcreate
  obtain ⟨hf, hplaced₁⟩ := createGeneric_placed hplaced hroot hcreate
  have hfin : f ∈ vm.free := hfree ▸ List.mem_cons_self
  have hfout : ∀ g, InTables .pml4 vm.mem root g → g ≠ f := by
    rintro g hg rfl
    exact hmap.unused g hg hfin
  -- what `kernel_mapping` translates is translated as before, and in the same way by the new table
  have hkept : TablesKept .pml4 [root] (fun _ => False) place place vm vm₁ := by
    apply tablesKept_of_outside hplaced
    · intro t ht
      rw [List.mem_singleton.mp ht, hroot]
    · rw [hfree]
      exact List.suffix_cons f vm₁.free
    · intro g l hg
      apply hrow
      rintro rfl
      cases hf.symm.trans hg
  have hrootRow : vm₁.mem root = vm.mem root := hrow root (hfout root (inTree_root 3 root))
  have hsame : ∀ v, topIndex .pml4 v = 256 ∨ topIndex .pml4 v = 511 →
      Interface.translate .pml4 vm₁.mem f v = Interface.translate .pml4 vm.mem root v := by
    intro v hv
    rw [← hkept.translate_eq (List.mem_singleton_self root) id]
    rcases hv with h256 | h511
    · apply translate_eq_of_entry h256
      rw [hnew, hrootRow]
      rfl
    · apply translate_eq_of_entry h511
      rw [hnew, hrootRow]
      rfl
  have hinitial : (⟨⟨vm, root, []⟩, fun _ => ⟨none, 0⟩⟩ : UserSystem).Initial .pml4 bootVm 0x4000000 :=
    ⟨hfresh.nodup, hfresh.aligned, by omega, hinit, rfl⟩
  have hstep : userStep .pml4 ⟨⟨vm, root, []⟩, fun _ => ⟨none, 0⟩⟩ (.table .create)
      ⟨⟨vm₁, root, [f]⟩, Function.update (fun _ => ⟨none, 0⟩) f ⟨none, 0⟩⟩ := by
    refine ⟨trivial, trivial, ?_⟩
    simp only [UserSystem.exec, TableSystem.exec, hcreate, Option.map_some]
    rfl
  refine ⟨_, _, f, hinitial, Run.single hstep, ?_⟩
  refine ⟨rfl, by simp only [Function.update_self], ?_, ⟨_, hplaced₁, ?_, ?_⟩, ?_, ?_, ?_, ?_⟩
  · rw [hfree, List.length_cons] at hleft
    show 4 ≤ vm₁.free.length
    omega
  · intro t ht
    by_cases htf : t = f
    · rw [htf, Function.update_self]
    · rw [Function.update_of_ne htf]
      rcases List.mem_cons.mp ht with rfl | ht
      · exact hroot
      · exact absurd (List.mem_singleton.mp ht) htf
  · intro g hg
    obtain ⟨hplace, hgfree, hzero⟩ := hout g hg
    have hgf : g ≠ f := by
      rintro rfl
      exact hgfree hfin
    refine ⟨by rw [Function.update_of_ne hgf, hplace], ?_, ?_⟩
    · intro hin
      exact hgfree (hfree ▸ List.mem_cons_of_mem f hin)
    · intro i
      show vm₁.mem g i = 0
      rw [hrow g hgf, hzero]
      rfl
  · apply isTree_of_row hmap.tree (fun hin => hfout f hin rfl) fun g hg => hrow g (hfout g hg)
    intro i
    show vm₁.mem f i = _ ∨ _
    rw [hnew]
    by_cases h511 : i = 511
    · exact Or.inl (by rw [if_pos h511, h511])
    · rw [if_neg h511]
      by_cases h256 : i = 256
      · exact Or.inl (by rw [if_pos h256, h256])
      · rw [if_neg h256]
        exact Or.inr ⟨goodEntry_of_tableBelow_none (tableBelow_zero 3), tableBelow_zero 3⟩
  · intro i h511 h256
    show vm₁.mem f i = 0
    rw [hnew, if_neg h511, if_neg h256]
  · intro a ha
    rw [hsame]
    · exact (translate_direct_iff hmap (by omega) (by omega)).mpr
        ⟨by omega, fun _ => by omega, by omega⟩
    · left
      apply topIndex_pml4 (i := 256)
      rw [toNat_high (by omega)]
      omega
  · intro a ha
    rw [hsame]
    · exact translate_window hmap ha
    · right
      apply topIndex_pml4 (i := 511)
      rw [toNat_high (by omega)]
      omega

/-! ## The heap of the first task -/

/-- A kernel heap that puts the object of the call 32 MiB into the direct map. -/
def lowHeap : Kmm := ⟨fun _ => highVma + 0x2000000, fun _ => 0⟩

/-- INTERNAL: the frame of a physical address. -/
theorem toNat_frameOf {a : ℕ} (ha : a < 2 ^ 52) :
    (frameOf (BitVec.ofNat 64 a)).toNat = a / 0x1000 * 0x1000 := by
  have hnumber : a / 0x1000 < 2 ^ 40 := by omega
  have hnat : (BitVec.ofNat 64 (a / 0x1000 * 0x1000)).toNat = a / 0x1000 * 0x1000 := by
    rw [BitVec.toNat_ofNat]
    omega
  have hframe : frameOf (BitVec.ofNat 64 a) = BitVec.ofNat 64 (a / 0x1000 * 0x1000) := by
    apply frameOf_of_holds (pageAligned_of_toNat hnat hnumber)
    rw [BitVec.toNat_sub, hnat, BitVec.toNat_ofNat]
    omega
  rw [hframe, hnat]

/-- INTERNAL: memory behind the frames of `bootVm`. -/
theorem frameOf_notMem_bootVm {a : ℕ} (hlow : 0x2000000 ≤ a) (ha : a < 2 ^ 52) :
    frameOf (BitVec.ofNat 64 a) ∉ bootVm.free := by
  intro hin
  simp only [bootVm] at hin
  obtain ⟨i, hi, hnat⟩ := mem_frameRow (by decide) hin
  rw [toNat_frameOf ha] at hnat
  omega

section FirstTask

variable {u : UserSystem} {f : Word} {place : Word → Option (List Index)} {i n : ℕ}

/-- INTERNAL: the byte of an object. -/
theorem FirstTask.object (h : FirstTask u f) (hi : i < 262144) :
    Interface.translate .pml4 u.sys.vm.mem f (highVma + 0x2000000 + BitVec.ofNat 64 i) =
      some (BitVec.ofNat 64 (0x2000000 + i)) := by
  rw [← h.direct _ (by omega), BitVec.ofNat_add, BitVec.add_assoc]
  rfl

/-- The objects of the heap are no page tables and not free. -/
theorem FirstTask.heapPlaced (h : FirstTask u f)
    (hout : ∀ g, g ∉ bootVm.free → place g = none ∧ g ∉ u.sys.vm.free ∧ ∀ i, u.sys.vm.mem g i = 0)
    (hn : n ≤ 262144) : HeapPlaced .pml4 place f (lowHeap.object n) n u.sys.vm := by
  intro i hi
  obtain ⟨hplace, hfree, -⟩ :=
    hout _ (frameOf_notMem_bootVm (a := 0x2000000 + i) (by omega) (by omega))
  refine ⟨?_, _, h.object (by omega), hplace, hfree⟩
  have hv : (lowHeap.object n + BitVec.ofNat 64 i).toNat = 2 ^ 64 - 2 ^ 47 + 0x2000000 + i := by
    show (highVma + BitVec.ofNat 64 0x2000000 + BitVec.ofNat 64 i).toNat = _
    rw [BitVec.add_assoc, ← BitVec.ofNat_add, toNat_high (by omega)]
    omega
  rw [topIndex_pml4 (i := 256) (by rw [hv]; omega)]
  decide

theorem FirstTask.allowed (h : FirstTask u f) (regs : MmapRegs) :
    (UserOp.mmap f regs lowHeap fun _ _ => none).Allowed .pml4 u := by
  obtain ⟨place, hplaced, htops, hout⟩ := h.placed
  refine ⟨?_, ?_, ?_, fun _ _ _ hdata => by cases hdata⟩
  · rw [h.tables]
    exact List.mem_cons_self
  · intro b hb
    cases h.noBitmap.symm.trans hb
  · intro n hn i hi
    obtain ⟨hhalf, a, ha, hplace, hfree⟩ := h.heapPlaced hout hn i hi
    refine ⟨hhalf, a, ha, ?_, hfree⟩
    rintro ⟨t, ht, hin⟩
    obtain ⟨l, hl⟩ := hplaced.placed.of_inTree (htops t ht) (Nat.zero_add _) hin
    cases hplace.symm.trans hl

/-- **The bitmap of the first task** is made, and other memory does not change. -/
theorem FirstTask.init (h : FirstTask u f) : ∃ vm₁ place,
    (⟨u.sys.vm, u.maps f⟩ : TaskVm).init .pml4 f lowHeap =
      some ⟨vm₁, some (highVma + 0x2000000), 0x1000⟩ ∧ vm₁.free = u.sys.vm.free ∧
    TablesKept .pml4 (u.sys.kernel :: u.sys.tables) (fun _ => False) place place u.sys.vm vm₁ ∧
    (∀ n ≤ 262144, HeapPlaced .pml4 place f (lowHeap.object n) n u.sys.vm) ∧
    ∀ g, g ∈ bootVm.free ∨ 0x3000000 ≤ g.toNat → vm₁.mem g = u.sys.vm.mem g := by
  obtain ⟨place, hplaced, htops, hout⟩ := h.placed
  have hroot : f ∈ u.sys.kernel :: u.sys.tables := by
    rw [h.tables]
    exact List.mem_cons_of_mem _ List.mem_cons_self
  have hheap : HeapPlaced .pml4 place f (lowHeap.object 0x1000) 0x1000 u.sys.vm :=
    h.heapPlaced hout (by omega)
  have hlen : (List.replicate 0x1000 (0 : Byte)).length = 0x1000 := List.length_replicate
  obtain ⟨vm₁, hwrite, hfree, hmem⟩ := hheap.writes hplaced htops hroot hlen.le
  refine ⟨vm₁, place, ?_, hfree, ?_, fun n hn => h.heapPlaced hout hn, ?_⟩
  · simp only [TaskVm.init, h.noBitmap, hwrite, Option.map_some]
    rfl
  · exact writeBytes_kept hplaced htops hroot (fun i hi a => hheap.unplaced (hlen ▸ hi) a) hwrite
  · intro g hg
    apply hmem
    rintro i hi a ha rfl
    obtain rfl := Option.some.inj ((h.object (by omega)).symm.trans ha)
    rcases hg with hboot | hhigh
    · exact frameOf_notMem_bootVm (by omega) (by omega) hboot
    · rw [toNat_frameOf (by omega)] at hhigh
      omega

/-- INTERNAL: a tree that only gets frames of `bootVm`. -/
theorem FirstTask.inTables (h : FirstTask u f) {g : Word} (hg : InTables .pml4 u.sys.vm.mem f g) :
    g ∈ bootVm.free ∧ g ∉ u.sys.vm.free := by
  obtain ⟨place, hplaced, htops, hout⟩ := h.placed
  have htop : place f = some [] := by
    apply htops
    rw [h.tables]
    exact List.mem_cons_of_mem _ List.mem_cons_self
  obtain ⟨l, hl⟩ := hplaced.placed.of_inTree htop (Nat.zero_add _) hg
  constructor
  · by_contra hboot
    cases (hout g hboot).1.symm.trans hl
  · intro hfree
    cases (hplaced.unused g hfree).symm.trans hl

/-- **A page is mapped** below a missing entry of the table of the first task. -/
theorem FirstTask.mapsPage (h : FirstTask u f) {vm₁ : Vm} {v w : Word} {flags : Word} {pa : ℤ}
    (hfree : vm₁.free = u.sys.vm.free) (hmem : ∀ g ∈ bootVm.free, vm₁.mem g = u.sys.vm.mem g)
    (hflags : LeafFlags flags) (hlevel : leafLevel flags = 0)
    (h511 : walkIndex v 3 ≠ 511) (h256 : walkIndex v 3 ≠ 256)
    (hw : ∀ k < 4, walkIndex w k = walkIndex v k) :
    ∃ s', mapRange .pml4 f flags pa 1 v vm₁ = some s' ∧
      Interface.translate .pml4 s'.mem f w ≠ none := by
  obtain ⟨place, hplaced, -, -⟩ := h.placed
  have hlen := h.frames
  cases hcons : vm₁.free with
  | nil =>
    rw [← hfree, hcons, List.length_nil] at hlen
    omega
  | cons g fs =>
    rw [← hfree, hcons, List.length_cons] at hlen
    have hsub : ∀ x ∈ fs, x ∈ u.sys.vm.free := by
      intro x hx
      rw [← hfree, hcons]
      exact List.mem_cons_of_mem g hx
    have hsame : ∀ x, InTables .pml4 u.sys.vm.mem f x → vm₁.mem x = u.sys.vm.mem x :=
      fun x hx => hmem x (h.inTables hx).1
    have hnodup := hplaced.nodup
    rw [← hfree, hcons, List.nodup_cons] at hnodup
    have hready : Ready 0 v ⟨vm₁.mem, fs⟩ 4 f := by
      refine ⟨isTree_congr hsame h.tree, Or.inl ?_, hnodup.2,
        fun x hx => hplaced.aligned x (hsub x hx), ?_⟩
      · rw [hsame f (inTree_root 3 f)]
        exact h.missing _ h511 h256
      · intro x hx hin
        exact (h.inTables ((inTree_congr hsame x).mp hx)).2 (hsub x hin)
    obtain ⟨s', hmap, -⟩ := @mapPageRaw_spends v g (0x3 ||| extraFlags .pml4 flags) flags pa .pml4 f
      ⟨vm₁.mem, fs⟩ (by simp only [Paging.levels]; omega)
    refine ⟨s', ?_, ?_⟩
    · simp only [mapRange, Vm.alloc, hcons, hmap]
    · have halign : PageAligned (leafLevel flags) g := by
        rw [hlevel]
        apply hplaced.aligned g
        rw [← hfree, hcons]
        exact List.mem_cons_self
      have hstep := (walkStep_pageEntry pa halign hflags).1
      have hdirectory : DirectoryFlags (0x3 ||| extraFlags .pml4 flags) := by
        simp only [extraFlags]
        decide
      have hm := mapPageRaw_maps .pml4 v follows_walkStep hdirectory hflags hstep ⟨vm₁.mem, fs⟩ s' f
        (by rw [hlevel]; exact hready) hmap
      have hwalk : walk .pml4 s'.mem f w =
          some (.page (leafLevel flags) (pageEntry g flags pa)) := hm.hit _ fun k _ hk => hw k hk
      rw [Interface.translate, hwalk]
      exact Option.some_ne_none _

/-- INTERNAL: the address of the first task without a page. -/
theorem FirstTask.fault (h : FirstTask u f) {v : Word} (h511 : walkIndex v 3 ≠ 511)
    (h256 : walkIndex v 3 ≠ 256) : Interface.translate .pml4 u.sys.vm.mem f v = none := by
  have hwalk : walk .pml4 u.sys.vm.mem f v = some .fault := by
    rw [walk, Paging.levels, descend, h.missing _ h511 h256, walkStep_zero]
  rw [Interface.translate, hwalk]

end FirstTask

/-- INTERNAL: a bit in the bitmap can be set. -/
theorem HeapPlaced.setsBit {p : Paging} {place : Word → Option (List Index)} {s : Vm}
    {root bitmap : Word} {i n : ℕ} (h : HeapPlaced p place root bitmap n s) (hi : i / 8 < n) :
    ∃ s', bmSetFrom p root bitmap i 1 s = some s' := by
  obtain ⟨-, a, ha, -, -⟩ := h (i / 8) hi
  simp only [bmSetFrom, bmSetAt, load, store, ha, Option.map_some]
  exact ⟨_, rfl⟩

/-- A fixed anonymous mapping of one page at 4 MiB. -/
def fixedRegs : MmapRegs := ⟨0x400000, 0x1000, 3, 0xc, 0, 0⟩

/-- **The first `mmap`** of a task at a fixed low address. -/
theorem mmap_keeps_kernelHalf_fixed : ∃ u₀ u f u', u₀.Initial .pml4 bootVm 0x4000000 ∧
    Run (userStep .pml4) u₀ [.table .create] u ∧
    userStep .pml4 u (.mmap f fixedRegs lowHeap fun _ _ => none) u' ∧
    KernelHalfKept .pml4 u u' := by
  obtain ⟨u₀, u, f, h₀, hrun, h⟩ := exists_firstTask
  obtain ⟨place, hplaced, htops, hout⟩ := h.placed
  have hroot : f ∈ u.sys.kernel :: u.sys.tables := by
    rw [h.tables]
    exact List.mem_cons_of_mem _ List.mem_cons_self
  have hcnt : pageCnt 0x1000 = 1 := by decide
  -- the page
  obtain ⟨s₁, hrange, -⟩ := @FirstTask.mapsPage u f h u.sys.vm 0x400000 0x400000 0x7 7 rfl
    (fun _ _ => rfl) (by decide) (by decide) (by decide) (by decide) fun _ _ => rfl
  have hlow : LowPages .pml4 0x400000 0x7 1 := lowPages_of_le (by decide)
  obtain ⟨place₁, hkept₁, -⟩ := mapRange_low hplaced htops hroot hlow hrange
  -- its bit
  have hheap : HeapPlaced .pml4 place₁ f (highVma + 0x2000000) 0x1000 s₁ :=
    (h.heapPlaced hout (n := 0x1000) (by omega)).kept hkept₁ hroot
  have hlen : (List.replicate 0x1000 (0 : Byte)).length = 0x1000 := List.length_replicate
  obtain ⟨s₂, hwrite, -, -⟩ := hheap.writes hkept₁.placed hkept₁.top hroot hlen.le
  have hkept₂ : TablesKept .pml4 (u.sys.kernel :: u.sys.tables) (fun _ => False) place₁ place₁ s₁ s₂ :=
    writeBytes_kept hkept₁.placed hkept₁.top hroot (fun i hi a => hheap.unplaced (hlen ▸ hi) a) hwrite
  have hheap₂ := hheap.kept (hkept₂.mono fun _ hfalse => hfalse.elim) hroot
  obtain ⟨s₃, hset⟩ := hheap₂.setsBit (i := 0x3f0) (by omega)
  have hindex : bmIndex (0x400000 : Word).toNat = 0x3f0 := by decide
  have hbits : rangeCnt 0x3f0 1 = 1 := by decide
  have hcall : syscallMmap .pml4 f lowHeap (fun _ _ => none) ⟨u.sys.vm, u.maps f⟩ fixedRegs =
      some (⟨s₃, some (highVma + 0x2000000), 0x1000⟩, 0x400000) := by
    have hprot : fixedRegs.prot = 0x7#32 := by decide
    have hfl : fixedRegs.flags = 0xc#32 := by decide
    have hpages : mapRange .pml4 f (BitVec.signExtend 64 0x7#32) (0x7#32 : BitVec 32).toInt 1 0x400000
        u.sys.vm = some s₁ := hrange
    have hinit : (⟨s₁, u.maps f⟩ : TaskVm).init .pml4 f lowHeap =
        some ⟨s₂, some (highVma + 0x2000000), 0x1000⟩ := by
      simp only [TaskVm.init, h.noBitmap]
      rw [show lowHeap.object 0x1000 = highVma + 0x2000000 from rfl, hwrite, Option.map_some]
    have halloc : mmapAllocAt .pml4 f lowHeap 0x400000 0x1000 0xc#32 65 ⟨s₁, u.maps f⟩ =
        some (⟨s₃, some (highVma + 0x2000000), 0x1000⟩, 0x400000) := by
      rw [mmapAllocAt, mmapAllocBody, hinit]
      simp only [mmapTryAt, hindex, hcnt, hbits, hset, Option.map_some]
      rfl
    have hanon : ¬ (0xc#32 : BitVec 32) = 0x8#32 := by decide
    have hfixed : (0xc#32 : BitVec 32) &&& 0x4#32 ≠ 0 := by decide
    have hnoFile : (0xc#32 : BitVec 32) &&& 0x8#32 ≠ 0 := by decide
    rw [syscallMmap, hprot, hfl]
    show mmapAt .pml4 f lowHeap _ ⟨u.sys.vm, u.maps f⟩ 0x400000 0x1000 0x7#32 0xc#32 _ = _
    simp only [mmapAt, if_neg hanon, if_pos hfixed, if_pos hnoFile, hcnt, hpages, halloc]
  refine ⟨u₀, u, f, { u.withVm s₃ with
    maps := Function.update u.maps f ⟨some (highVma + 0x2000000), 0x1000⟩ }, h₀, hrun, ?_⟩
  have hstep : userStep .pml4 u (.mmap f fixedRegs lowHeap fun _ _ => none) { u.withVm s₃ with
      maps := Function.update u.maps f ⟨some (highVma + 0x2000000), 0x1000⟩ } := by
    refine ⟨⟨?_, ?_, ?_⟩, h.allowed fixedRegs, ?_⟩
    · intro hfl
      exact absurd hfl (by decide)
    · intro _
      right
      simp only [h.noBitmap, Option.isNone_none, if_true]
      decide
    · intro _ hfl
      exact absurd hfl (by decide)
    · simp only [UserSystem.exec, hcall, Option.map_some]
  exact ⟨hstep, mmap_keeps_kernelHalf .pml4 bootVm 0x4000000 u₀ u _ h₀ hrun f fixedRegs lowHeap _ _
    hstep⟩

/-- An anonymous mapping of one page at a hint. -/
def hintRegs : MmapRegs := ⟨0x3fffde8000010000, 0x1000, 3, 0x8, 0, 0⟩

/-- INTERNAL: the bit of the hint is not set. -/
theorem FirstTask.check {u : UserSystem} {f : Word} (h : FirstTask u f) : ∃ vm₁,
    checkMmapAddrAt .pml4 f lowHeap ⟨u.sys.vm, u.maps f⟩ hintRegs.rdi 0x1000 0x8#32 =
      some (⟨vm₁, some (highVma + 0x2000000), 0x1000⟩, 0) ∧
    vm₁.free = u.sys.vm.free ∧ ∀ g ∈ bootVm.free, vm₁.mem g = u.sys.vm.mem g := by
  obtain ⟨vm₁, place, hinit, hfree, hkept, -, hmem⟩ := h.init
  obtain ⟨place₀, -, -, hout⟩ := h.placed
  have hroot : f ∈ u.sys.kernel :: u.sys.tables := by
    rw [h.tables]
    exact List.mem_cons_of_mem _ List.mem_cons_self
  refine ⟨vm₁, ?_, hfree, fun g hg => hmem g (Or.inl hg)⟩
  have hindex : bmIndex hintRegs.rdi.toNat = 0x3fffde8000000 := by decide
  have hcnt : rangeCnt 0x3fffde8000000 (pageCnt 0x1000) = 1 := by decide
  have haddr : highVma + 0x2000000 + BitVec.ofNat 64 (0x3fffde8000000 / 8) =
      highVma + BitVec.ofNat 64 (0x7fff80000000 + 0x3f000000) := by decide
  have hbyte : load .pml4 f vm₁ (highVma + 0x2000000 + BitVec.ofNat 64 (0x3fffde8000000 / 8)) =
      some 0 := by
    rw [load, haddr, hkept.translate_eq hroot id, h.window _ (by decide), Option.map_some]
    have hframe : 0x3000000 ≤ (frameOf (BitVec.ofNat 64 0x3f000000)).toNat := by decide
    have hboot : frameOf (BitVec.ofNat 64 0x3f000000) ∉ bootVm.free :=
      frameOf_notMem_bootVm (by decide) (by decide)
    rw [Vm.byte, hmem _ (Or.inr hframe), (hout _ hboot).2.2]
    rfl
  have htest : bmTestAt .pml4 f (highVma + 0x2000000) vm₁ 0x3fffde8000000 = some false := by
    rw [bmTestAt, hbyte]
    rfl
  have hne : hintRegs.rdi ≠ 0 := by decide
  have hflags : (0x8#32 : BitVec 32) ≠ 0x4#32 := by decide
  simp only [checkMmapAddrAt, if_neg hne, if_neg hflags, hinit, hindex, hcnt, anySet, htest,
    Option.map_some]
  rfl

/-- **The kernel half is reached.** A task asks for a page at a hint whose index into the top table is
445; the bit that is tested for it is in memory that belongs to nobody, and the page is mapped. -/
theorem mmap_into_kernelHalf : ∃ u₀ u f u', u₀.Initial .pml4 bootVm 0x4000000 ∧
    Run (userStep .pml4) u₀ [.table .create] u ∧
    userAnyStep .pml4 u (.mmap f hintRegs lowHeap fun _ _ => none) u' ∧
    ¬ KernelHalfKept .pml4 u u' := by
  obtain ⟨u₀, u, f, h₀, hrun, h⟩ := exists_firstTask
  obtain ⟨vm₁, hcheck, hfree, hmem⟩ := h.check
  obtain ⟨s', hrange, hmapped⟩ := @FirstTask.mapsPage u f h vm₁ hintRegs.rdi 0xffffde8000010000 0x7 7
    hfree hmem (by decide) (by decide) (by decide) (by decide) (by decide)
  have hcnt : pageCnt 0x1000 = 1 := by decide
  have hcall : syscallMmap .pml4 f lowHeap (fun _ _ => none) ⟨u.sys.vm, u.maps f⟩ hintRegs =
      some (⟨s', some (highVma + 0x2000000), 0x1000⟩, hintRegs.rdi) := by
    have hprot : hintRegs.prot = 0x7#32 := by decide
    have hfl : hintRegs.flags = 0x8#32 := by decide
    have hpages : mapRange .pml4 f (BitVec.signExtend 64 0x7#32) (0x7#32 : BitVec 32).toInt 1
        hintRegs.rdi vm₁ = some s' := hrange
    have hfound : ¬ (0 : ℤ) = -1 := by decide
    rw [syscallMmap, hprot, hfl]
    show mmapAt .pml4 f lowHeap _ ⟨u.sys.vm, u.maps f⟩ hintRegs.rdi 0x1000 0x7#32 0x8#32 _ = _
    simp only [mmapAt, if_true, hcheck, if_neg hfound, hcnt, hpages, Option.map_some]
  refine ⟨u₀, u, f, { u.withVm s' with
    maps := Function.update u.maps f ⟨some (highVma + 0x2000000), 0x1000⟩ }, h₀, hrun,
    ⟨h.allowed hintRegs, ?_⟩, ?_⟩
  · simp only [UserSystem.exec, hcall, Option.map_some]
  · intro hkept
    have hf : f ∈ u.sys.kernel :: u.sys.tables := by
      rw [h.tables]
      exact List.mem_cons_of_mem _ List.mem_cons_self
    have hsame := hkept f hf 0xffffde8000010000 (by decide)
    rw [access, access, h.fault (by decide) (by decide), Option.map_none, Option.map_eq_none_iff] at hsame
    exact hmapped hsame

end CrepOS.Analysis
