import CrepOS.Interface.PciTree
import Mathlib.Data.List.Nodup
import Mathlib.Data.List.Pairwise
import Mathlib.Tactic.IntervalCases

/-!
# Which devices the scan of the PCI buses lists

A scan that ends has pushed the functions of its bus, each after those of the bus behind it if it is a
bridge (`listing`). If the buses behind bridges have larger numbers, 256 levels are enough. But
`scan_devices` also scans these buses itself, so a function behind a bridge is listed for every bus from
its own one up to the root, and the list has every function once only if there is nothing behind the
bridges (`pci_enumerated_once_iff`).
-/

set_option autoImplicit false

namespace CrepOS.Analysis

open CrepOS.Model CrepOS.Interface

/-! ## The functions of a bus -/

theorem mem_bytesBelow {n : ℕ} (hn : n ≤ 256) {x : BitVec 8} : x ∈ bytesBelow n ↔ x.toNat < n := by
  unfold bytesBelow
  rw [List.mem_map]
  constructor
  · rintro ⟨i, hi, rfl⟩
    have hlt := List.mem_range.mp hi
    rw [BitVec.toNat_ofNat, Nat.mod_eq_of_lt (by omega)]
    exact hlt
  · intro hlt
    exact ⟨x.toNat, List.mem_range.mpr hlt, BitVec.ofNat_toNat _ _⟩

theorem nodup_bytesBelow {n : ℕ} (hn : n ≤ 256) : (bytesBelow n).Nodup := by
  unfold bytesBelow
  refine List.Nodup.map_on ?_ List.nodup_range
  intro i hi j hj heq
  have hilt := List.mem_range.mp hi
  have hjlt := List.mem_range.mp hj
  have hnat := congrArg BitVec.toNat heq
  rw [BitVec.toNat_ofNat, BitVec.toNat_ofNat, Nat.mod_eq_of_lt (by omega),
    Nat.mod_eq_of_lt (by omega)] at hnat
  exact hnat

/-- The functions of a device, in the order of the scan. -/
def slotFunctions (cfg : ConfigSpace) (bus dev : BitVec 8) : List (BitVec 8) :=
  if absent cfg bus dev 0 then []
  else 0 :: if multiFunction cfg bus dev then
    (bytesBelow 8).tail.filter fun func => !absent cfg bus dev func else []

/-- The functions of a bus, in the order of the scan. -/
def busFunctions (cfg : ConfigSpace) (bus : BitVec 8) : List PciAddress :=
  (bytesBelow 32).flatMap fun dev => (slotFunctions cfg bus dev).map fun func => ⟨bus, dev, func⟩

section Functions

variable {cfg : ConfigSpace} {bus dev func : BitVec 8}

/-- INTERNAL: the loop over the other functions starts behind function 0. -/
theorem bytesBelow_eight : bytesBelow 8 = 0 :: (bytesBelow 8).tail := rfl

theorem mem_slotFunctions : func ∈ slotFunctions cfg bus dev ↔ func.toNat < 8 ∧
    absent cfg bus dev 0 = false ∧
    (func = 0 ∨ multiFunction cfg bus dev = true ∧ absent cfg bus dev func = false) := by
  have htail : func ∈ (bytesBelow 8).tail ↔ func.toNat < 8 ∧ func ≠ 0 := by
    have hnodup := nodup_bytesBelow (n := 8) (by decide)
    have hmem := mem_bytesBelow (n := 8) (by decide) (x := func)
    rw [bytesBelow_eight] at hnodup hmem
    rw [← hmem, List.mem_cons]
    constructor
    · intro hin
      refine ⟨Or.inr hin, ?_⟩
      rintro rfl
      exact (List.nodup_cons.mp hnodup).1 hin
    · rintro ⟨rfl | hin, hne⟩
      · exact absurd rfl hne
      · exact hin
  unfold slotFunctions
  cases h₀ : absent cfg bus dev 0 with
  | true => simp
  | false =>
    cases hmulti : multiFunction cfg bus dev with
    | false =>
      simp only [Bool.false_eq_true, if_false, List.mem_singleton, false_and, or_false, true_and]
      constructor
      · rintro rfl
        exact ⟨by decide, rfl⟩
      · exact fun h => h.2
    | true =>
      simp only [Bool.false_eq_true, if_false, if_true, List.mem_cons, List.mem_filter, htail,
        Bool.not_eq_true', true_and]
      constructor
      · rintro (rfl | ⟨⟨hlt, -⟩, hin⟩)
        · exact ⟨by decide, Or.inl rfl⟩
        · exact ⟨hlt, Or.inr hin⟩
      · rintro ⟨hlt, rfl | hin⟩
        · exact Or.inl rfl
        · by_cases hzero : func = 0
          · exact Or.inl hzero
          · exact Or.inr ⟨⟨hlt, hzero⟩, hin⟩

theorem nodup_slotFunctions (cfg : ConfigSpace) (bus dev : BitVec 8) :
    (slotFunctions cfg bus dev).Nodup := by
  have hnodup := nodup_bytesBelow (n := 8) (by decide)
  rw [bytesBelow_eight] at hnodup
  have htail := List.nodup_cons.mp hnodup
  unfold slotFunctions
  split
  · exact List.nodup_nil
  · split
    · refine List.nodup_cons.mpr ⟨?_, htail.2.filter _⟩
      intro hin
      exact htail.1 (List.mem_of_mem_filter hin)
    · exact List.nodup_singleton _

/-- The functions of a bus are the ones that are present on it. -/
theorem mem_busFunctions {a : PciAddress} :
    a ∈ busFunctions cfg bus ↔ a.bus = bus ∧ FunctionPresent cfg a := by
  unfold busFunctions
  rw [List.mem_flatMap]
  constructor
  · rintro ⟨dev, hdev, hin⟩
    obtain ⟨func, hfunc, rfl⟩ := List.mem_map.mp hin
    obtain ⟨hlt, hrest⟩ := mem_slotFunctions.mp hfunc
    exact ⟨rfl, (mem_bytesBelow (by decide)).mp hdev, hlt, hrest⟩
  · rintro ⟨rfl, hdev, hlt, hrest⟩
    exact ⟨a.device, (mem_bytesBelow (by decide)).mpr hdev,
      List.mem_map.mpr ⟨a.func, mem_slotFunctions.mpr ⟨hlt, hrest⟩, rfl⟩⟩

theorem nodup_busFunctions (cfg : ConfigSpace) (bus : BitVec 8) : (busFunctions cfg bus).Nodup := by
  unfold busFunctions
  rw [List.nodup_flatMap]
  constructor
  · intro dev _
    refine List.Nodup.map_on ?_ (nodup_slotFunctions cfg bus dev)
    intro x _ y _ heq
    exact congrArg PciAddress.func heq
  · refine (nodup_bytesBelow (by decide)).imp ?_
    intro d d' hne a ha ha'
    obtain ⟨_, _, rfl⟩ := List.mem_map.mp ha
    obtain ⟨_, _, heq⟩ := List.mem_map.mp ha'
    exact hne (congrArg PciAddress.device heq).symm

end Functions

/-! ## What a scan pushes -/

/-- What the scan of a bus pushes, with `n` levels. -/
def listing (cfg : ConfigSpace) : ℕ → BitVec 8 → List PciDevice
  | 0, _ => []
  | n + 1, bus => (busFunctions cfg bus).flatMap fun a =>
    (if isBridge cfg a.bus a.device a.func then
      listing cfg n (getSecondaryBus cfg a.bus a.device a.func) else []) ++
      [pciDevice cfg a.bus a.device a.func]

section Scan

variable {cfg : ConfigSpace} {n : ℕ} {bus : BitVec 8}

/-- INTERNAL: a loop inside of a loop is one loop over all of its rounds. -/
theorem foldlM_flatMap {α β γ : Type} (f : α → List β) (g : γ → β → Option γ) (l : List α) (c : γ) :
    (l.flatMap f).foldlM g c = l.foldlM (fun c a => (f a).foldlM g c) c := by
  induction l generalizing c with
  | nil => rfl
  | cons a l ih =>
    rw [List.flatMap_cons, List.foldlM_append, List.foldlM_cons]
    congr 1
    funext c'
    exact ih c'

/-- INTERNAL: a loop that skips elements is the loop over the others. -/
theorem foldlM_skip {β γ : Type} (p : β → Bool) (g : γ → β → Option γ) (l : List β) (c : γ) :
    l.foldlM (fun c b => if p b then some c else g c b) c = (l.filter fun b => !p b).foldlM g c := by
  induction l generalizing c with
  | nil => rfl
  | cons b l ih =>
    rw [List.foldlM_cons, List.filter_cons]
    cases hp : p b with
    | true =>
      simp only [if_true, Bool.not_true, Bool.false_eq_true, if_false]
      exact ih c
    | false =>
      simp only [Bool.false_eq_true, if_false, Bool.not_false, if_true, List.foldlM_cons]
      congr 1
      funext c'
      exact ih c'

/-- One push, for a function of the bus. -/
def pushAt (cfg : ConfigSpace) (n : ℕ) (l : List PciDevice) (a : PciAddress) :
    Option (List PciDevice) :=
  pushDevice cfg (scanBus cfg n) a.bus a.device a.func l

/-- INTERNAL: the body of the loop pushes the functions of one device.
SRCLINE: kernel/drivers/pci.cpp:50-59 -/
theorem scanSlot_eq (cfg : ConfigSpace) (n : ℕ) (bus dev : BitVec 8) (l : List PciDevice) :
    scanSlot cfg (scanBus cfg n) bus l dev =
      ((slotFunctions cfg bus dev).map fun func => ⟨bus, dev, func⟩).foldlM (pushAt cfg n) l := by
  rw [List.foldlM_map]
  unfold scanSlot slotFunctions
  cases absent cfg bus dev 0 with
  | true => rfl
  | false =>
    simp only [Bool.false_eq_true, if_false, List.foldlM_cons]
    cases hpush : pushDevice cfg (scanBus cfg n) bus dev 0 l with
    | none =>
      simp only [pushAt, hpush]
      rfl
    | some l' =>
      simp only [pushAt, hpush]
      cases multiFunction cfg bus dev with
      | false => rfl
      | true =>
        simp only [if_true]
        exact foldlM_skip _ _ _ _

/-- The scan of a bus pushes its functions one after another.
SRCLINE: kernel/drivers/pci.cpp:48-61 -/
theorem scanBus_succ (cfg : ConfigSpace) (n : ℕ) (bus : BitVec 8) (l : List PciDevice) :
    scanBus cfg (n + 1) bus l = (busFunctions cfg bus).foldlM (pushAt cfg n) l := by
  rw [scanBus, busFunctions, foldlM_flatMap]
  congr 1
  funext l dev
  exact scanSlot_eq cfg n bus dev l

/-- INTERNAL: a loop of pushes, each of which appends a list of its own. -/
theorem foldlM_append_eq {α β : Type} {g : List β → α → Option (List β)} {f : α → List β}
    {l : List α} (h : ∀ a ∈ l, ∀ c, g c a = some (c ++ f a)) (c : List β) :
    l.foldlM g c = some (c ++ l.flatMap f) := by
  induction l generalizing c with
  | nil => simp
  | cons a l ih =>
    rw [List.foldlM_cons, h a List.mem_cons_self]
    change l.foldlM g (c ++ f a) = _
    rw [ih (fun b hb => h b (List.mem_cons_of_mem a hb)), List.flatMap_cons, List.append_assoc]

/-- **The scan ends.** If the buses behind bridges have larger numbers, a scan with a level for each
number from the bus on pushes the listing, whatever number of levels there are beyond.
SRCLINE: kernel/drivers/pci.cpp:48-74 -/
theorem scanBus_eq (hforest : BusForest cfg) (hn : 256 ≤ n + bus.toNat) (l : List PciDevice) :
    scanBus cfg n bus l = some (l ++ listing cfg n bus) := by
  induction n generalizing bus l with
  | zero =>
    have hlt := bus.isLt
    omega
  | succ n ih =>
    rw [scanBus_succ, listing]
    refine foldlM_append_eq ?_ l
    intro a ha c
    obtain ⟨hbus, hpresent⟩ := mem_busFunctions.mp ha
    unfold pushAt pushDevice
    cases hbridge : isBridge cfg a.bus a.device a.func with
    | false => simp
    | true =>
      have hup := (hforest a _ ⟨hpresent, hbridge, rfl⟩).1
      rw [hbus] at hup
      simp only [if_true]
      rw [hbus] at hbridge ⊢
      rw [ih (by omega)]
      simp

/-- INTERNAL: more levels than there are numbers from the bus on change nothing. -/
theorem listing_levels (hforest : BusForest cfg) {m : ℕ} (hn : 256 ≤ n + bus.toNat)
    (hm : 256 ≤ m + bus.toNat) : listing cfg n bus = listing cfg m bus := by
  induction n generalizing bus m with
  | zero =>
    have hlt := bus.isLt
    omega
  | succ n ih =>
    cases m with
    | zero =>
      have hlt := bus.isLt
      omega
    | succ m =>
      rw [listing, listing]
      refine List.flatMap_congr ?_
      intro a ha
      obtain ⟨hbus, hpresent⟩ := mem_busFunctions.mp ha
      cases hbridge : isBridge cfg a.bus a.device a.func with
      | false => rfl
      | true =>
        have hup := (hforest a _ ⟨hpresent, hbridge, rfl⟩).1
        rw [hbus] at hup
        simp only [if_true]
        rw [ih (m := m) (by rw [hbus]; omega) (by rw [hbus]; omega)]

/-- The list that the scan of all buses leaves. -/
def allListings (cfg : ConfigSpace) : List PciDevice :=
  (bytesBelow 256).flatMap (listing cfg 256)

/-- The first loop of `scan_devices` ends, and it leaves the listings of all buses.
SRCLINE: kernel/drivers/pci.cpp:185-188 -/
theorem scanDevices_eq (hforest : BusForest cfg) (hn : 256 ≤ n) :
    scanDevices cfg n = some (allListings cfg) := by
  unfold scanDevices
  rw [foldlM_append_eq (f := listing cfg 256) ?_ [], List.nil_append, allListings]
  intro bus _ l
  rw [scanBus_eq hforest (by omega), listing_levels hforest (by omega) (m := 256) (by omega)]

/-- Every function of a bus is in its listing. -/
theorem mem_listing {a : PciAddress} (ha : FunctionPresent cfg a) (n : ℕ) :
    pciDevice cfg a.bus a.device a.func ∈ listing cfg (n + 1) a.bus := by
  rw [listing, List.mem_flatMap]
  exact ⟨a, mem_busFunctions.mpr ⟨rfl, ha⟩, List.mem_append_right _ List.mem_cons_self⟩

/-- So is every function of a bus behind it. -/
theorem mem_listing_behind {a a' : PciAddress} (ha : BridgeTo cfg a a'.bus)
    (ha' : FunctionPresent cfg a') (n : ℕ) :
    pciDevice cfg a'.bus a'.device a'.func ∈ listing cfg (n + 2) a.bus := by
  obtain ⟨hpresent, hbridge, hsecondary⟩ := ha
  rw [listing, List.mem_flatMap]
  refine ⟨a, mem_busFunctions.mpr ⟨rfl, hpresent⟩, List.mem_append_left _ ?_⟩
  rw [if_pos hbridge, hsecondary]
  exact mem_listing ha' n

/-- With something behind a bridge, a function is listed twice. -/
theorem not_enumeratedOnce (hforest : BusForest cfg) (hbehind : ¬ NothingBehindBridges cfg) :
    ¬ EnumeratedOnce cfg := by
  rintro ⟨l, ⟨n₀, hscan⟩, hnodup, -⟩
  apply hbehind
  intro a s hbridge a' hs hpresent
  subst hs
  have hl : l = allListings cfg := by
    have h₁ := hscan (max n₀ 256) (Nat.le_max_left _ _)
    rw [scanDevices_eq hforest (Nat.le_max_right _ _)] at h₁
    exact (Option.some.inj h₁).symm
  rw [hl, allListings, List.map_flatMap, List.nodup_flatMap] at hnodup
  have hne : a.bus ≠ a'.bus := by
    intro heq
    have hup := (hforest a _ hbridge).1
    rw [heq] at hup
    exact Nat.lt_irrefl _ hup
  -- the function is in the listing of its own bus and in the one of the bus of the bridge
  have hown := List.mem_map_of_mem (f := pciAddress) (mem_listing hpresent 255)
  have habove := List.mem_map_of_mem (f := pciAddress) (mem_listing_behind hbridge hpresent 254)
  have hmem : ∀ b : BitVec 8, b ∈ bytesBelow 256 := fun b => (mem_bytesBelow (Nat.le_refl _)).mpr b.isLt
  have hsymm : Std.Symm (Function.onFun (List.Disjoint (α := PciAddress))
      fun b => (listing cfg 256 b).map pciAddress) := ⟨fun _ _ h a ha hb => h hb ha⟩
  exact hnodup.2.forall (hmem a.bus) (hmem a'.bus) hne habove hown

/-- Without anything behind bridges, a listing has the functions of its bus. -/
theorem listing_of_nothingBehind (hnone : NothingBehindBridges cfg) (n : ℕ) (bus : BitVec 8) :
    (listing cfg (n + 1) bus).map pciAddress = busFunctions cfg bus := by
  have hempty : ∀ a ∈ busFunctions cfg bus, isBridge cfg a.bus a.device a.func = true →
      listing cfg n (getSecondaryBus cfg a.bus a.device a.func) = [] := by
    intro a ha hbridge
    cases n with
    | zero => rfl
    | succ n =>
      rw [listing, List.flatMap_eq_nil_iff]
      intro a' ha'
      obtain ⟨hbus, hpresent⟩ := mem_busFunctions.mp ha'
      exact absurd hpresent (hnone a _ ⟨(mem_busFunctions.mp ha).2, hbridge, rfl⟩ a' hbus)
  rw [listing, List.map_flatMap]
  conv_rhs => rw [← List.flatMap_singleton' (busFunctions cfg bus)]
  refine List.flatMap_congr ?_
  intro a ha
  cases hbridge : isBridge cfg a.bus a.device a.func with
  | false => rfl
  | true =>
    rw [if_pos rfl, hempty a ha hbridge]
    rfl

/-- **The PCI scan.** For every configuration space whose buses form a forest, `scan_devices` ends with
every function in `device_list` once and nothing else if and only if no bus behind a bridge has a
function.
SRCLINE: kernel/drivers/pci.cpp:48-74, 185-188 -/
theorem pci_enumerated_once_iff (hforest : BusForest cfg) :
    EnumeratedOnce cfg ↔ NothingBehindBridges cfg := by
  constructor
  · intro honce
    by_contra hbehind
    exact not_enumeratedOnce hforest hbehind honce
  · intro hnone
    have haddresses : (allListings cfg).map pciAddress =
        (bytesBelow 256).flatMap (busFunctions cfg) := by
      rw [allListings, List.map_flatMap]
      exact List.flatMap_congr fun bus _ => listing_of_nothingBehind hnone 255 bus
    refine ⟨allListings cfg, ⟨256, fun n hn => scanDevices_eq hforest hn⟩, ?_, ?_⟩
    · rw [haddresses, List.nodup_flatMap]
      refine ⟨fun bus _ => nodup_busFunctions cfg bus, (nodup_bytesBelow (Nat.le_refl _)).imp ?_⟩
      intro b b' hne a ha ha'
      exact hne ((mem_busFunctions.mp ha).1.symm.trans (mem_busFunctions.mp ha').1)
    · intro a
      rw [haddresses, List.mem_flatMap]
      constructor
      · rintro ⟨bus, -, ha⟩
        exact (mem_busFunctions.mp ha).2
      · intro ha
        exact ⟨a.bus, (mem_bytesBelow (Nat.le_refl _)).mpr a.bus.isLt, mem_busFunctions.mpr ⟨rfl, ha⟩⟩

end Scan

/-! ## Configuration spaces by address -/

/-- The configuration space with the given registers. -/
def configOf (f : BitVec 8 → BitVec 8 → BitVec 8 → BitVec 8 → BitVec 32) : ConfigSpace := fun a =>
  f (a.extractLsb' 16 8) ((a.extractLsb' 11 5).setWidth 8) ((a.extractLsb' 8 3).setWidth 8)
    (a.extractLsb' 0 8)

/-- `raw_read` reads the register of the function it is given. -/
theorem rawRead_configOf (f : BitVec 8 → BitVec 8 → BitVec 8 → BitVec 8 → BitVec 32)
    (bus dev func off : BitVec 8) : rawRead (configOf f) bus dev func off =
      f bus (dev &&& 31) (func &&& 7) (off &&& ~~~3) := by
  have hbus : (configAddress bus dev func off).extractLsb' 16 8 = bus := by
    unfold configAddress
    ext i hi
    interval_cases i <;> simp
  have hdev : ((configAddress bus dev func off).extractLsb' 11 5).setWidth 8 = dev &&& 31 := by
    unfold configAddress
    ext i hi
    interval_cases i <;> simp
  have hfunc : ((configAddress bus dev func off).extractLsb' 8 3).setWidth 8 = func &&& 7 := by
    unfold configAddress
    ext i hi
    interval_cases i <;> simp
  have hoff : (configAddress bus dev func off).extractLsb' 0 8 = off &&& ~~~3 := by
    unfold configAddress
    ext i hi
    interval_cases i <;> simp
  unfold rawRead configOf
  rw [hbus, hdev, hfunc, hoff]

/-- INTERNAL: the numbers of a present function are not masked. -/
theorem mask_of_present {cfg : ConfigSpace} {a : PciAddress} (h : FunctionPresent cfg a) :
    a.device &&& 31 = a.device ∧ a.func &&& 7 = a.func := by
  obtain ⟨hdev, hfunc, -⟩ := h
  constructor
  · apply BitVec.eq_of_toNat_eq
    rw [BitVec.toNat_and]
    exact (Nat.and_two_pow_sub_one_eq_mod _ 5).trans (Nat.mod_eq_of_lt hdev)
  · apply BitVec.eq_of_toNat_eq
    rw [BitVec.toNat_and]
    exact (Nat.and_two_pow_sub_one_eq_mod _ 3).trans (Nat.mod_eq_of_lt hfunc)

/-- One device on bus 0. -/
def oneDevice : ConfigSpace := configOf fun bus dev func off =>
  if bus = 0 ∧ dev = 0 ∧ func = 0 then if off = 0 then 0x12378086 else 0 else 0xffffffff

/-- The device is listed once. -/
theorem pci_enumerated_once_oneDevice : BusForest oneDevice ∧ EnumeratedOnce oneDevice := by
  have hno : ∀ a s, ¬ BridgeTo oneDevice a s := by
    rintro a s ⟨-, hbridge, -⟩
    unfold isBridge getHeaderType oneDevice at hbridge
    rw [rawRead_configOf] at hbridge
    split at hbridge
    · revert hbridge
      decide
    · revert hbridge
      decide
  have hforest : BusForest oneDevice := fun a s h => absurd h (hno a s)
  exact ⟨hforest, (pci_enumerated_once_iff hforest).mpr fun a s h => absurd h (hno a s)⟩

/-- A bridge on bus 0, and a device on the bus behind it. -/
def bridgedDevice : ConfigSpace := configOf fun bus dev func off =>
  if dev = 0 ∧ func = 0 ∧ bus = 0 then
    if off = 0 then 0x244e8086 else if off = 0xc then 0x00010000
    else if off = 0x18 then 0x00010100 else 0
  else if dev = 0 ∧ func = 0 ∧ bus = 1 then if off = 0 then 0x58451b36 else 0
  else 0xffffffff

/-- The device behind the bridge is listed twice.
SRCLINE: kernel/drivers/pci.cpp:71-73, 186-188 -/
theorem pci_bridged_device_twice : BusForest bridgedDevice ∧ ¬ EnumeratedOnce bridgedDevice := by
  have hbridges : ∀ a s, BridgeTo bridgedDevice a s → a = ⟨0, 0, 0⟩ ∧ s = 1 := by
    rintro ⟨bus, dev, func⟩ s ⟨hpresent, hbridge, hsecondary⟩
    obtain ⟨hdev, hfunc⟩ := mask_of_present hpresent
    unfold isBridge getHeaderType bridgedDevice at hbridge
    unfold getSecondaryBus bridgedDevice at hsecondary
    rw [rawRead_configOf, hdev, hfunc] at hbridge hsecondary
    by_cases hroot : dev = 0 ∧ func = 0 ∧ bus = 0
    · obtain ⟨rfl, rfl, rfl⟩ := hroot
      exact ⟨rfl, hsecondary.symm⟩
    · rw [if_neg hroot] at hbridge
      split at hbridge
      · exact absurd hbridge (by decide)
      · exact absurd hbridge (by decide)
  have hforest : BusForest bridgedDevice := by
    intro a s h
    obtain ⟨rfl, rfl⟩ := hbridges a s h
    exact ⟨by decide, fun a' h' => (hbridges a' 1 h').1⟩
  refine ⟨hforest, not_enumeratedOnce hforest ?_⟩
  intro hnone
  have hbridge : BridgeTo bridgedDevice ⟨0, 0, 0⟩ 1 := by
    refine ⟨⟨by decide, by decide, by decide, Or.inl rfl⟩, by decide, by decide⟩
  exact hnone _ 1 hbridge ⟨1, 0, 0⟩ rfl ⟨by decide, by decide, by decide, Or.inl rfl⟩

end CrepOS.Analysis
