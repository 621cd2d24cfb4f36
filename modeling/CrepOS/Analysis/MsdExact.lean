import CrepOS.Model.Msd

/-!
# When mass-storage devices are byte-addressable

`lba_cnt` is the length of the transfer in sectors, rounded up, and leaves out that the first byte may
lie inside a sector. So the last sector is missing if the range ends behind the sectors that are
transferred: a read then returns what the bounce buffer happened to contain, and a write is lost. In
all other cases both drivers read and write exactly the bytes they are asked for (`msd_exact_iff`).
-/

set_option autoImplicit false

namespace CrepOS.Analysis

open CrepOS.Library CrepOS.Model

/-! ## What the drivers should do -/

/-- The bounce buffer shares no byte with the buffer of the caller. -/
def BuffersApart (sectorSize cnt buf buffer : ℕ) : Prop :=
  buf + cnt ≤ buffer ∨ buffer + lbaCnt cnt sectorSize * sectorSize ≤ buf

/-- A driver: how it reads and writes, with the address of the bounce buffer as the last argument. -/
structure Driver where
  read : Storage → ℕ → ℕ → ℕ → ℕ → Storage
  write : Storage → ℕ → ℕ → ℕ → ℕ → Storage

/-- A read fills the buffer of the caller with the bytes of the disk and leaves the disk as it is. -/
def Driver.ReadsExactly (d : Driver) (sectorSize off cnt : ℕ) : Prop :=
  ∀ s buf buffer, BuffersApart sectorSize cnt buf buffer →
    (∀ k < cnt, (d.read s off cnt buf buffer).mem (buf + k) = s.disk (off + k)) ∧
      (d.read s off cnt buf buffer).disk = s.disk

/-- A write changes the bytes it names on the disk, and no other. -/
def Driver.WritesExactly (d : Driver) (sectorSize off cnt : ℕ) : Prop :=
  ∀ s buf buffer, BuffersApart sectorSize cnt buf buffer →
    (∀ k < cnt, (d.write s off cnt buf buffer).disk (off + k) = s.mem (buf + k)) ∧
      ∀ a, a < off ∨ off + cnt ≤ a → (d.write s off cnt buf buffer).disk a = s.disk a

/-- A read after a write of the same range returns what was written. -/
def Driver.ReadsBack (d : Driver) (sectorSize off cnt : ℕ) : Prop :=
  ∀ s buf buffer buf' buffer', BuffersApart sectorSize cnt buf buffer →
    BuffersApart sectorSize cnt buf' buffer' → ∀ k < cnt,
      (d.read (d.write s off cnt buf buffer) off cnt buf' buffer').mem (buf' + k) = s.mem (buf + k)

/-- `ahci::msd`. -/
def ahci (sectorSize : ℕ) : Driver := ⟨Ahci.read sectorSize, Ahci.write sectorSize⟩

/-- `nvme::msd`. -/
def nvme (lbaSize : ℕ) : Driver := ⟨Nvme.read lbaSize, Nvme.write lbaSize⟩

/-! ## The sectors of a transfer -/

section Sectors

variable {sectorSize off cnt : ℕ}

/-- INTERNAL: the number of sectors does not overflow.
SRCLINE: kernel/drivers/ahci/ahci.cpp:15 -/
theorem lbaCnt_eq (hsize : 0 < sectorSize) (hcnt : cnt + sectorSize ≤ 2 ^ 63) :
    lbaCnt cnt sectorSize = (cnt + (sectorSize - 1)) / sectorSize := by
  have hpred : wrapSigned ((sectorSize : ℤ) - 1) = ((sectorSize - 1 : ℕ) : ℤ) := by
    rw [wrapSigned_of_bounds (by omega) (by omega)]
    omega
  have hsum : wrapSigned ((cnt : ℤ) + ((sectorSize - 1 : ℕ) : ℤ)) =
      ((cnt + (sectorSize - 1) : ℕ) : ℤ) := by
    rw [wrapSigned_of_bounds (by omega) (by omega)]
    omega
  have hle : (cnt + (sectorSize - 1)) / sectorSize ≤ cnt + (sectorSize - 1) := Nat.div_le_self _ _
  unfold lbaCnt divRoundup
  rw [toSigned_of_lt (by omega), hpred, hsum, Int.tdiv_eq_ediv_of_nonneg (by omega),
    ← Int.natCast_ediv]
  generalize (cnt + (sectorSize - 1)) / sectorSize = n at *
  rw [wrapSigned_of_bounds (by omega) (by omega), ofSigned_natCast (by omega)]

/-- INTERNAL: a byte of the range, counted from the start of its first sector. -/
theorem sector_add (sectorSize off k : ℕ) :
    off / sectorSize * sectorSize + (off % sectorSize + k) = off + k := by
  have hdiv := Nat.div_add_mod' off sectorSize
  omega

/-- The sectors that are transferred are on the device. -/
theorem sectors_on_device {sectors : ℕ} (hsize : 0 < sectorSize) (hcnt : cnt + sectorSize ≤ 2 ^ 63)
    (hend : off + cnt ≤ sectors * sectorSize) :
    off / sectorSize + lbaCnt cnt sectorSize ≤ sectors := by
  have hdiv := Nat.div_mul_le_self off sectorSize
  have hsum := Nat.add_mul_div_right (cnt + (sectorSize - 1)) (off / sectorSize) hsize
  have hlt : (cnt + (sectorSize - 1) + off / sectorSize * sectorSize) / sectorSize < sectors + 1 := by
    rw [Nat.div_lt_iff_lt_mul hsize, Nat.add_mul]
    omega
  rw [lbaCnt_eq hsize hcnt]
  omega

end Sectors

/-! ## The copies -/

section Copies

variable {sectorSize off cnt : ℕ} {s : Storage} {buf buffer : ℕ}

/-- INTERNAL: a byte of the range in the bounce buffer after the sectors are read. -/
theorem transfer_read_byte {k : ℕ}
    (hk : off % sectorSize + k < lbaCnt cnt sectorSize * sectorSize) :
    (transferSectors s sectorSize (off / sectorSize) (lbaCnt cnt sectorSize) buffer false).mem
      (buffer + off % sectorSize + k) = s.disk (off + k) := by
  have hin : buffer ≤ buffer + off % sectorSize + k ∧
      buffer + off % sectorSize + k < buffer + lbaCnt cnt sectorSize * sectorSize := by omega
  simp only [transferSectors, Bool.false_eq_true, if_false]
  rw [if_pos hin, show buffer + off % sectorSize + k - buffer = off % sectorSize + k by omega,
    sector_add]

theorem msdRead_exact (hfits : off % sectorSize + cnt ≤ lbaCnt cnt sectorSize * sectorSize)
    (hapart : BuffersApart sectorSize cnt buf buffer) {k : ℕ} (hk : k < cnt) :
    (msdRead sectorSize s off cnt buf buffer).mem (buf + k) = s.disk (off + k) := by
  simp only [msdRead]
  rw [memcpy8_copied _ hk]
  · exact transfer_read_byte (by omega)
  · unfold BuffersApart at hapart
    omega

/-- INTERNAL: the bounce buffer when it is written to the disk: what was read, with the bytes of the
caller in place. -/
theorem msdWrite_buffer (hapart : BuffersApart sectorSize cnt buf buffer) {j : ℕ}
    (hj : j < lbaCnt cnt sectorSize * sectorSize) :
    memcpy8 (transferSectors s sectorSize (off / sectorSize) (lbaCnt cnt sectorSize) buffer
        false).mem (buffer + off % sectorSize) buf cnt (buffer + j) =
      if off % sectorSize ≤ j ∧ j < off % sectorSize + cnt then s.mem (buf + (j - off % sectorSize))
      else s.disk (off / sectorSize * sectorSize + j) := by
  unfold BuffersApart at hapart
  by_cases hin : off % sectorSize ≤ j ∧ j < off % sectorSize + cnt
  · rw [if_pos hin]
    obtain ⟨k, rfl⟩ : ∃ k, j = off % sectorSize + k := ⟨j - off % sectorSize, by omega⟩
    rw [← Nat.add_assoc, memcpy8_copied _ (by omega) (by omega)]
    simp only [transferSectors, Bool.false_eq_true, if_false]
    rw [if_neg (by omega), Nat.add_sub_cancel_left]
  · rw [if_neg hin, memcpy8_outside _ (by omega)]
    simp only [transferSectors, Bool.false_eq_true, if_false]
    rw [if_pos (by omega), Nat.add_sub_cancel_left]

theorem msdWrite_exact (hfits : off % sectorSize + cnt ≤ lbaCnt cnt sectorSize * sectorSize)
    (hapart : BuffersApart sectorSize cnt buf buffer) (a : ℕ) :
    (msdWrite sectorSize s off cnt buf buffer).disk a =
      if off ≤ a ∧ a < off + cnt then s.mem (buf + (a - off)) else s.disk a := by
  have hdiv := Nat.div_add_mod' off sectorSize
  simp only [msdWrite]
  rw [transferSectors, if_pos rfl]
  simp only
  by_cases hsector : off / sectorSize * sectorSize ≤ a ∧
      a < (off / sectorSize + lbaCnt cnt sectorSize) * sectorSize
  · rw [if_pos hsector]
    rw [Nat.add_mul] at hsector
    obtain ⟨j, rfl⟩ : ∃ j, a = off / sectorSize * sectorSize + j :=
      ⟨a - off / sectorSize * sectorSize, by omega⟩
    rw [Nat.add_sub_cancel_left, msdWrite_buffer hapart (by omega)]
    by_cases hin : off % sectorSize ≤ j ∧ j < off % sectorSize + cnt
    · rw [if_pos hin, if_pos (by omega),
        show off / sectorSize * sectorSize + j - off = j - off % sectorSize by omega]
    · rw [if_neg hin, if_neg (by omega)]
  · rw [if_neg hsector, if_neg]
    · simp only [transferSectors, Bool.false_eq_true, if_false]
    · rw [Nat.add_mul] at hsector
      omega

end Copies

/-! ## Both drivers -/

/-- The driver reads and writes exactly the bytes `off, …, off + cnt - 1`. -/
def Driver.Exact (d : Driver) (sectorSize off cnt : ℕ) : Prop :=
  d.ReadsExactly sectorSize off cnt ∧ d.WritesExactly sectorSize off cnt ∧
    d.ReadsBack sectorSize off cnt

section Drivers

variable {sectorSize off cnt : ℕ} {d : Driver}

/-- INTERNAL: a transfer that covers the range is exact. -/
theorem exact_of_fits (hread : d.read = msdRead sectorSize) (hwrite : d.write = msdWrite sectorSize)
    (hfits : off % sectorSize + cnt ≤ lbaCnt cnt sectorSize * sectorSize) :
    d.Exact sectorSize off cnt := by
  have hwritten : ∀ s buf buffer k, BuffersApart sectorSize cnt buf buffer → k < cnt →
      (msdWrite sectorSize s off cnt buf buffer).disk (off + k) = s.mem (buf + k) := by
    intro s buf buffer k hapart hk
    rw [msdWrite_exact hfits hapart, if_pos (by omega), Nat.add_sub_cancel_left]
  refine ⟨?_, ?_, ?_⟩
  · intro s buf buffer hapart
    rw [hread]
    exact ⟨fun k hk => msdRead_exact hfits hapart hk, rfl⟩
  · intro s buf buffer hapart
    rw [hwrite]
    refine ⟨fun k hk => hwritten s buf buffer k hapart hk, ?_⟩
    intro a ha
    rw [msdWrite_exact hfits hapart, if_neg (by omega)]
  · intro s buf buffer buf' buffer' hapart hapart' k hk
    rw [hread, hwrite, msdRead_exact hfits hapart' hk]
    exact hwritten s buf buffer k hapart hk

/-- INTERNAL: if the last byte is behind the sectors that are transferred, a read returns what the
bounce buffer contained before. -/
theorem not_readsExactly (hread : d.read = msdRead sectorSize) (hcnt : 0 < cnt)
    (hover : lbaCnt cnt sectorSize * sectorSize < off % sectorSize + cnt) :
    ¬ d.ReadsExactly sectorSize off cnt := by
  intro hexact
  have hbyte := (hexact ⟨fun _ => 1, fun _ => 0⟩ 0 cnt (Or.inl (by omega))).1 (cnt - 1) (by omega)
  rw [hread] at hbyte
  simp only [msdRead] at hbyte
  rw [memcpy8_copied _ (by omega) (Or.inr (by omega))] at hbyte
  simp only [transferSectors, Bool.false_eq_true, if_false] at hbyte
  rw [if_neg (by omega)] at hbyte
  exact absurd hbyte (by decide)

/-- INTERNAL: nothing is read or written for an empty range. -/
theorem exact_of_empty (hread : d.read = msdRead sectorSize) (hwrite : d.write = msdWrite sectorSize)
    (hsize : 0 < sectorSize) (hcnt : sectorSize ≤ 2 ^ 63) : d.Exact sectorSize off 0 := by
  have hnone : lbaCnt 0 sectorSize = 0 := by
    rw [lbaCnt_eq hsize (by omega), Nat.div_eq_of_lt (by omega)]
  refine ⟨?_, ?_, ?_⟩
  · intro s buf buffer _
    rw [hread]
    exact ⟨nofun, rfl⟩
  · intro s buf buffer _
    refine ⟨nofun, ?_⟩
    intro a _
    rw [hwrite]
    simp only [msdWrite, hnone, transferSectors, if_true, Bool.false_eq_true, if_false]
    rw [Nat.add_zero, if_neg (by omega)]
  · intro s buf buffer buf' buffer' _ _ k hk
    cases hk

/-- INTERNAL: the condition, for the common body. -/
theorem exact_iff (hread : d.read = msdRead sectorSize) (hwrite : d.write = msdWrite sectorSize)
    (hsize : 0 < sectorSize) (hcnt : cnt + sectorSize ≤ 2 ^ 63) :
    d.Exact sectorSize off cnt ↔
      cnt = 0 ∨ off % sectorSize + cnt ≤ (cnt + (sectorSize - 1)) / sectorSize * sectorSize := by
  rw [← lbaCnt_eq hsize hcnt]
  constructor
  · intro hexact
    by_contra hnot
    push Not at hnot
    exact not_readsExactly hread (by omega) hnot.2 hexact.1
  · rintro (rfl | hfits)
    · exact exact_of_empty hread hwrite hsize (by omega)
    · exact exact_of_fits hread hwrite hfits

end Drivers

/-- **When devices are byte-addressable.** For both drivers, a read returns exactly the bytes of the
range, a write changes exactly these bytes and a read after it returns what was written, if and only if
the range is empty or ends within as many sectors, from its first one on, as its length fills.
SRCLINE: kernel/drivers/ahci/ahci.cpp:13-43, kernel/drivers/nvme/nvme.cpp:17-56 -/
theorem msd_exact_iff (sectorSize off cnt : ℕ) (hsize : 0 < sectorSize)
    (hcnt : cnt + sectorSize ≤ 2 ^ 63) :
    ((ahci sectorSize).Exact sectorSize off cnt ↔
      cnt = 0 ∨ off % sectorSize + cnt ≤ (cnt + (sectorSize - 1)) / sectorSize * sectorSize) ∧
    ((nvme sectorSize).Exact sectorSize off cnt ↔
      cnt = 0 ∨ off % sectorSize + cnt ≤ (cnt + (sectorSize - 1)) / sectorSize * sectorSize) :=
  ⟨exact_iff rfl rfl hsize hcnt, exact_iff rfl rfl hsize hcnt⟩

/-- A superblock of 1024 bytes at the third sector. -/
theorem msd_exact_superblock : 0 < 512 ∧ (ahci 512).Exact 512 1024 1024 ∧ (nvme 512).Exact 512 1024 1024 :=
  ⟨by decide, (msd_exact_iff 512 1024 1024 (by decide) (by decide)).1.mpr (by decide),
    (msd_exact_iff 512 1024 1024 (by decide) (by decide)).2.mpr (by decide)⟩

/-- Two bytes at the end of a sector: the second one is neither read nor written. -/
theorem msd_misses_sector :
    (∃ s : Storage, BuffersApart 512 2 0 1024 ∧
      ((ahci 512).read s 511 2 0 1024).mem 1 ≠ s.disk 512 ∧
      ((nvme 512).read s 511 2 0 1024).mem 1 ≠ s.disk 512 ∧
      ((ahci 512).write s 511 2 0 1024).disk 512 ≠ s.mem 1 ∧
      ((nvme 512).write s 511 2 0 1024).disk 512 ≠ s.mem 1) ∧
    ¬ (ahci 512).Exact 512 511 2 ∧ ¬ (nvme 512).Exact 512 511 2 := by
  refine ⟨⟨⟨fun _ => 1, fun _ => 0⟩, Or.inl (by decide), by decide, by decide,
    by decide, by decide⟩, ?_, ?_⟩
  · intro hexact
    exact not_readsExactly rfl (by decide) (by decide) hexact.1
  · intro hexact
    exact not_readsExactly rfl (by decide) (by decide) hexact.1

end CrepOS.Analysis
