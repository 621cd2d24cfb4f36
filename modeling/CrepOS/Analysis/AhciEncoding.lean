import CrepOS.Interface.AhciCommand
import Mathlib.Data.List.GetD

/-!
# The commands of `lba_rw`

The sector and the number of sectors are always right (`decode_start`, `decode_count`). The write bit is
always clear, the upper half of the address of the buffer is always zero, and the length has 22 bits, so the
command is right exactly for reads of up to 8192 sectors into a buffer below 4 GiB (`decodeCommand_eq_iff`).
-/

set_option autoImplicit false

namespace CrepOS.Analysis

open CrepOS.Library CrepOS.Model CrepOS.Interface

/-! ## Images -/

section Images

variable {l l' : List Byte} {i n v : ℕ}

theorem imageMemory_append_left (hi : i < l.length) : imageMemory (l ++ l') i = imageMemory l i := by
  unfold imageMemory
  rw [List.getD_append _ _ _ _ hi]

theorem imageMemory_append_right : imageMemory (l ++ l') (l.length + i) = imageMemory l' i := by
  unfold imageMemory
  rw [List.getD_append_right _ _ _ _ (Nat.le_add_right _ _), Nat.add_sub_cancel_left]

theorem imageMemory_fieldBytes (hi : i < n) : imageMemory (fieldBytes n v) i = Memory.ofWord v i := by
  unfold imageMemory fieldBytes Memory.bytes
  rw [List.getD_eq_getElem _ _ (by simpa using hi)]
  simp

theorem length_fieldBytes : (fieldBytes n v).length = n := by
  simp [fieldBytes, Memory.bytes]

end Images

/-! ## The table -/

section Table

variable {t : HbaCommandTable} {f : FisH2d} {e : HbaPrdt} {i : ℕ}

theorem FisH2d.length_image (f : FisH2d) : f.image.length = 20 := by
  simp [FisH2d.image, length_fieldBytes]

/-- INTERNAL: the table that `lba_rw` fills in. -/
def commandTable (e : HbaPrdt) (f : FisH2d) : HbaCommandTable := ({ prdt := e } : HbaCommandTable).putFis f

theorem commandTable_image : (commandTable e f).image =
    f.image ++ ((List.replicate 64 0).drop 20 ++ List.replicate 16 0 ++ List.replicate 48 0 ++ e.image) := by
  simp only [commandTable, HbaCommandTable.putFis, HbaCommandTable.image, FisH2d.length_image, List.append_assoc]

/-- INTERNAL: the FIS is at the beginning. -/
theorem imageMemory_fis (hi : i < 20) :
    imageMemory (commandTable e f).image i = imageMemory f.image i := by
  rw [commandTable_image]
  apply imageMemory_append_left
  rw [FisH2d.length_image]
  exact hi

/-- INTERNAL: the entry for the data buffer is behind 128 bytes. -/
theorem imageMemory_prdt : imageMemory (commandTable e f).image (0x80 + i) = imageMemory e.image i := by
  have hlength : (f.image ++ ((List.replicate 64 0).drop 20 ++ List.replicate 16 0 ++ List.replicate 48 0)).length =
      0x80 := by
    rw [List.length_append, FisH2d.length_image]
    rfl
  rw [commandTable_image, ← List.append_assoc, ← hlength]
  exact imageMemory_append_right

end Table

/-! ## The sector and the number of sectors -/

section Fis

variable {start cnt : BitVec 64} {w : Bool} {e : HbaPrdt}

/-- INTERNAL: a byte that is shifted out of a value. -/
theorem shifted_byte (v : BitVec 64) (i : ℕ) : (v >>> (8 * i) &&& 0xff).setWidth 8 = Memory.ofWord v.toNat i := by
  apply BitVec.eq_of_toNat_eq
  unfold Memory.ofWord
  rw [BitVec.toNat_setWidth, BitVec.toNat_and, BitVec.toNat_ushiftRight, BitVec.toNat_ofNat,
    Nat.shiftRight_eq_div_pow, pow_mul, show (0xff : BitVec 64).toNat = 2 ^ 8 - 1 from rfl,
    Nat.and_two_pow_sub_one_eq_mod]
  simp

theorem decode_start (hstart : start.toNat < 2 ^ 48) :
    (imageMemory (commandTable e (commandFis start cnt w)).image).word 4 3 +
      2 ^ 24 * (imageMemory (commandTable e (commandFis start cnt w)).image).word 8 3 = start.toNat := by
  have hlow : (imageMemory (commandTable e (commandFis start cnt w)).image).word 4 3 =
      start.toNat % 256 ^ 3 := by
    apply Memory.word_of_bytes
    intro i hi
    rw [imageMemory_fis (by omega)]
    interval_cases i
    · exact shifted_byte start 0
    · exact shifted_byte start 1
    · exact shifted_byte start 2
  have hhigh : (imageMemory (commandTable e (commandFis start cnt w)).image).word 8 3 =
      (start.toNat / 256 ^ 3) % 256 ^ 3 := by
    apply Memory.word_of_bytes
    intro i hi
    rw [imageMemory_fis (by omega)]
    have hshift : Memory.ofWord (start.toNat / 256 ^ 3) i = Memory.ofWord start.toNat (3 + i) := by
      unfold Memory.ofWord
      rw [Nat.div_div_eq_div_mul, ← pow_add]
    rw [hshift]
    interval_cases i
    · exact shifted_byte start 3
    · exact shifted_byte start 4
    · exact shifted_byte start 5
  omega

theorem decode_count (hpos : 1 ≤ cnt.toNat) (hcnt : cnt.toNat ≤ 65536) :
    (if (imageMemory (commandTable e (commandFis start cnt w)).image).word 12 2 = 0 then 65536
      else (imageMemory (commandTable e (commandFis start cnt w)).image).word 12 2) = cnt.toNat := by
  have hword : (imageMemory (commandTable e (commandFis start cnt w)).image).word 12 2 = cnt.toNat % 256 ^ 2 := by
    apply Memory.word_of_bytes
    intro i hi
    rw [imageMemory_fis (by omega)]
    interval_cases i
    · exact shifted_byte cnt 0
    · exact shifted_byte cnt 1
  rw [hword]
  split <;> omega

end Fis

/-! ## The data buffer -/

section Buffer

variable {f : FisH2d} {e : HbaPrdt}

/-- INTERNAL: the entry is the only one, at `0x80`. -/
theorem decode_address (hdbau : e.dbau = 0) :
    (imageMemory (commandTable e f).image).word (0x80 + 16 * 0) 8 = e.dba.toNat := by
  have hlow : (imageMemory (commandTable e f).image).word 0x80 4 = e.dba.toNat % 256 ^ 4 := by
    apply Memory.word_of_bytes
    intro i hi
    rw [imageMemory_prdt]
    unfold HbaPrdt.image
    rw [List.append_assoc, List.append_assoc, imageMemory_append_left (by rw [length_fieldBytes]; exact hi),
      imageMemory_fieldBytes hi]
  have hhigh : (imageMemory (commandTable e f).image).word (0x80 + 4) 4 = e.dbau.toNat % 256 ^ 4 := by
    apply Memory.word_of_bytes
    intro i hi
    rw [Nat.add_assoc, imageMemory_prdt]
    unfold HbaPrdt.image
    have happend := @imageMemory_append_right (fieldBytes 4 e.dba.toNat) (fieldBytes 4 e.dbau.toNat ++
      (fieldBytes 4 e.reserved0.toNat ++ fieldBytes 4 (e.i ++ e.reserved1 ++ e.dbc : BitVec 32).toNat)) i
    rw [length_fieldBytes] at happend
    rw [List.append_assoc, List.append_assoc, happend,
      imageMemory_append_left (by rw [length_fieldBytes]; exact hi), imageMemory_fieldBytes hi]
  have hlt := e.dba.isLt
  rw [hdbau] at hhigh
  rw [show (8 : ℕ) = 4 + 4 from rfl, Memory.word_add]
  simp only [Nat.mul_zero, Nat.add_zero] at *
  rw [hlow, hhigh]
  simp
  omega

theorem decode_bytes :
    (imageMemory (commandTable e f).image).word (0x80 + 16 * 0 + 12) 4 % 2 ^ 22 = e.dbc.toNat := by
  have hword : (imageMemory (commandTable e f).image).word (0x80 + 12) 4 =
      (e.i ++ e.reserved1 ++ e.dbc : BitVec 32).toNat % 256 ^ 4 := by
    apply Memory.word_of_bytes
    intro i hi
    rw [Nat.add_assoc, imageMemory_prdt]
    unfold HbaPrdt.image
    have happend := @imageMemory_append_right
      (fieldBytes 4 e.dba.toNat ++ fieldBytes 4 e.dbau.toNat ++ fieldBytes 4 e.reserved0.toNat)
      (fieldBytes 4 (e.i ++ e.reserved1 ++ e.dbc : BitVec 32).toNat) i
    rw [List.length_append, List.length_append, length_fieldBytes, length_fieldBytes, length_fieldBytes] at happend
    rw [happend, imageMemory_fieldBytes hi]
  have hlt := e.dbc.isLt
  rw [Nat.mul_zero, Nat.add_zero, hword, BitVec.toNat_append, ← Nat.shiftLeft_add_eq_or_of_lt hlt, Nat.shiftLeft_eq]
  omega

end Buffer

/-! ## Exactly the commands that are right -/

section Command

variable {dev : AhciDevice} {highVma start cnt address : BitVec 64} {w : Bool} {slot : ℕ} {header : HbaCmd}
  {table : HbaCommandTable}

/-- INTERNAL: what the header says. -/
theorem decode_header (h : HbaCmd) :
    (imageMemory h.image).word 2 2 = h.prdtl.toNat ∧ (imageMemory h.image 0).getLsbD 6 = h.w.getLsbD 0 := by
  constructor
  · have hword : (imageMemory h.image).word 2 2 = h.prdtl.toNat % 256 ^ 2 := by
      apply Memory.word_of_bytes
      intro i hi
      interval_cases i <;> rfl
    have hlt := h.prdtl.isLt
    omega
  · have hbyte : imageMemory h.image 0 = h.p ++ h.w ++ h.a ++ h.cfl := rfl
    rw [hbyte, BitVec.getLsbD_append, BitVec.getLsbD_append, BitVec.getLsbD_append]
    rfl

/-- INTERNAL: the length of the data buffer without the bits that do not fit. -/
theorem length_iff (hpos : 1 ≤ cnt.toNat) (hcnt : cnt.toNat ≤ 65536) :
    ((cnt * ahciSectorSize - 1).setWidth 22).toNat + 1 = cnt.toNat * 512 ↔ cnt.toNat ≤ 8192 := by
  have hsize : ahciSectorSize.toNat = 512 := rfl
  have hmul : (cnt * ahciSectorSize).toNat = cnt.toNat * 512 := by
    rw [BitVec.toNat_mul, hsize, Nat.mod_eq_of_lt (by omega)]
  have hsub : (cnt * ahciSectorSize - 1).toNat = cnt.toNat * 512 - 1 := by
    rw [BitVec.toNat_sub_of_le (by rw [BitVec.le_def, hmul]; simp; omega), hmul]
    rfl
  rw [BitVec.toNat_setWidth, hsub]
  omega

/-- The command that `lba_rw` gives to the device is the one that was asked for if and only if it is a read, the
buffer is below 4 GiB, and it has at most 8192 sectors. -/
theorem decodeCommand_eq_iff (hstart : start.toNat < 2 ^ 48) (hpos : 1 ≤ cnt.toNat) (hcnt : cnt.toNat ≤ 65536)
    (hcommand : dev.lbaRw highVma start cnt (address + highVma) w = some (slot, header, table)) :
    decodeCommand header.image table.image = sectorRequest start cnt address w ↔
      w = false ∧ address.toNat < 2 ^ 32 ∧ cnt.toNat ≤ 8192 := by
  have hsub : address + highVma - highVma = address := BitVec.add_sub_cancel address highVma
  unfold AhciDevice.lbaRw at hcommand
  rw [hsub] at hcommand
  cases hfree : dev.findCmdSlot with
  | none => rw [hfree] at hcommand; exact absurd hcommand (by simp)
  | some free =>
    rw [hfree] at hcommand
    simp only [Option.some.injEq, Prod.mk.injEq] at hcommand
    obtain ⟨_, rfl, rfl⟩ := hcommand
    have hheader := decode_header { dev.headers free with cfl := 5, w := 0, prdtl := 1 }
    have hentries : (List.range (1 : BitVec 16).toNat) = [0] := rfl
    have hdecoded : decodeCommand (HbaCmd.image { dev.headers free with cfl := 5, w := 0, prdtl := 1 })
        (commandTable { dba := address.setWidth 32, dbc := (cnt * ahciSectorSize - 1).setWidth 22, i := 1 }
          (commandFis start cnt w)).image =
        ⟨start.toNat, cnt.toNat, [((address.setWidth 32).toNat,
          ((cnt * ahciSectorSize - 1).setWidth 22).toNat + 1)], false⟩ := by
      unfold decodeCommand
      simp only [hheader, hentries, decode_start hstart, decode_count hpos hcnt, List.map_cons, List.map_nil]
      rw [decode_address rfl, decode_bytes]
      rfl
    have haddress : (address.setWidth 32).toNat = address.toNat ↔ address.toNat < 2 ^ 32 := by
      rw [BitVec.toNat_setWidth]
      omega
    unfold commandTable at hdecoded
    rw [hdecoded]
    unfold sectorRequest
    simp only [SectorRequest.mk.injEq, List.cons.injEq, Prod.mk.injEq, true_and, and_true, haddress,
      length_iff hpos hcnt]
    constructor
    · intro ⟨⟨hbelow, hfits⟩, hread⟩
      exact ⟨hread.symm, hbelow, hfits⟩
    · intro ⟨hread, hbelow, hfits⟩
      exact ⟨⟨hbelow, hfits⟩, hread.symm⟩

end Command

/-- A device with 32 free slots. -/
def idleDevice : AhciDevice := ⟨32, 0, 0, fun _ => ⟨0, 0, 0, 0, 0, 0, 0, 0, 0, 0, 0, 0x1000, 0, 0⟩⟩

theorem decodeCommand_read : ∃ slot header table,
    idleDevice.lbaRw 0xffff800000000000 63 8 (0x200000 + 0xffff800000000000) false = some (slot, header, table) ∧
      decodeCommand header.image table.image = sectorRequest 63 8 0x200000 false :=
  ⟨_, _, _, rfl, (@decodeCommand_eq_iff idleDevice 0xffff800000000000 63 8 0x200000 false _ _ _
    (by decide) (by decide) (by decide) rfl).mpr ⟨rfl, by decide, by decide⟩⟩

/-- The header of a write has no write bit. -/
theorem write_encoded_as_read : ¬ ∀ (dev : AhciDevice) (highVma start cnt address : BitVec 64) (w : Bool) (slot : ℕ)
    (header : HbaCmd) (table : HbaCommandTable), start.toNat < 2 ^ 48 → 1 ≤ cnt.toNat → cnt.toNat ≤ 65536 →
    dev.lbaRw highVma start cnt (address + highVma) w = some (slot, header, table) →
    decodeCommand header.image table.image = sectorRequest start cnt address w := by
  intro h
  have hright := h idleDevice 0xffff800000000000 63 8 0x200000 true _ _ _ (by decide) (by decide) (by decide) rfl
  have hwrite := congrArg SectorRequest.write hright
  exact absurd hwrite (by decide)

end CrepOS.Analysis
