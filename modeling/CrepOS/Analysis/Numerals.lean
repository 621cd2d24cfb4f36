import CrepOS.Interface.Numbers

/-!
# Formatting numbers

The digits of a number that is not negative come out one after the other, from the last to the first, as long as there
is room for them. There is for all numbers in base 10 and 16, and for those below `2 ^ 49` in base 2. The remainders of
a negative number are not positive, and the first that is not zero is no index of the table.

`print_format` takes the holes of a template from the left, so that every string is a template in one way
(`templates_substituted`).
-/

set_option autoImplicit false

namespace CrepOS.Analysis

open CrepOS.Library CrepOS.Model CrepOS.Interface

variable {T : IntegerType} {digits : List Byte} {buffer : ℕ → Byte} {base n str : ℕ} {tail : LibString}

/-! ## The types -/

/-- INTERNAL: a value of the type is assigned as it is. -/
theorem cast_holds {z : ℤ} (h : T.Holds z) : T.cast z = z := by
  obtain ⟨hlow, hhigh⟩ := h
  cases T <;> simp [IntegerType.cast, IntegerType.signed, IntegerType.bits] at hlow hhigh ⊢ <;>
    first
    | exact Int.emod_eq_of_lt hlow hhigh
    | (rw [Int.bmod_def]; omega)

/-- INTERNAL: values nearer to zero are values of the type as well. -/
theorem holds_between {z w : ℤ} (h : T.Holds z) (hw : z ≤ w ∧ w ≤ 0 ∨ 0 ≤ w ∧ w ≤ z) : T.Holds w := by
  obtain ⟨hlow, hhigh⟩ := h
  cases T <;> simp [IntegerType.Holds, IntegerType.signed, IntegerType.bits] at hlow hhigh ⊢ <;> omega

/-! ## Numerals -/

/-- INTERNAL: the last digit, and the number without it. -/
theorem natNumeral_step (hbase : 1 < base) (n : ℕ) :
    natNumeral base n = (if n / base = 0 then [] else natNumeral base (n / base)) ++ [numeralChar (n % base)] := by
  unfold natNumeral
  by_cases hn : n = 0
  · rw [if_pos hn, hn, Nat.zero_div, if_pos rfl, Nat.zero_mod]
    rfl
  · rw [if_neg hn, Nat.digits_def' hbase (Nat.pos_of_ne_zero hn), List.reverse_cons, List.map_append]
    by_cases hq : n / base = 0
    · rw [if_pos hq, hq, Nat.digits_zero]
      rfl
    · rw [if_neg hq, if_neg hq]
      rfl

/-- INTERNAL: the number of digits. -/
theorem natNumeral_length_le_iff (hbase : 1 < base) {k : ℕ} (hk : 0 < k) (n : ℕ) :
    (natNumeral base n).length ≤ k ↔ n < base ^ k := by
  unfold natNumeral
  by_cases hn : n = 0
  · rw [if_pos hn, hn]
    exact ⟨fun _ => Nat.pow_pos (by omega), fun _ => hk⟩
  · rw [if_neg hn, List.length_map, List.length_reverse]
    exact Nat.digits_length_le_iff hbase n

/-- INTERNAL: no character of a numeral is the zero that ends a string. -/
theorem numeralChar_ne_zero : ∀ d < 16, numeralChar d ≠ 0 := by decide

/-! ## The loop -/

/-- INTERNAL: a character that is put before a string. -/
theorem readOut_update {c : Byte} (hc : c ≠ 0) (hstr : str < 50) (htail : readOut buffer (50 - (str + 1)) (str + 1) = some tail) :
    readOut (Function.update buffer str c) (50 - str) str = some (c :: tail) := by
  have hbehind : ∀ (m i : ℕ), str < i → readOut (Function.update buffer str c) m i = readOut buffer m i := by
    intro m
    induction m with
    | zero => exact fun i _ => rfl
    | succ m ih =>
      intro i hi
      rw [readOut, readOut, Function.update_of_ne (Nat.ne_of_gt hi), ih (i + 1) (by omega)]
  rw [show 50 - str = 50 - (str + 1) + 1 by omega, readOut, Function.update_self, if_neg hc,
    hbehind _ _ (Nat.lt_succ_self str), htail]
  rfl

/-- **The digits of a natural number** are put before the string, if there is room. The induction is on the room.
SRCLINE: kernel/lib/debug.hpp:59-62 -/
theorem digitLoop_nat (hbase : 1 < base) (hsmall : base ≤ 16)
    (htable : ∀ d < base, tableAt digits d = some (numeralChar d)) (hn : T.Holds n) (hstr : str < 50)
    (htail : readOut buffer (50 - str) str = some tail) :
    ((digitLoop T digits base str n buffer).bind fun r => readOut r.2 (50 - r.1) r.1) =
      if (natNumeral base n).length ≤ str then some (natNumeral base n ++ tail) else none := by
  induction str generalizing n buffer tail with
  | zero =>
    rw [digitLoop, natNumeral_step hbase, List.length_append, if_neg (by simp)]
    rfl
  | succ str ih =>
    have hdigit : n % base < base := Nat.mod_lt n (by omega)
    have hquotient : T.Holds (n / base : ℕ) := holds_between hn (Or.inr ⟨Int.natCast_nonneg _,
      Int.ofNat_le.mpr (Nat.div_le_self n base)⟩)
    have hread := readOut_update (numeralChar_ne_zero _ (hdigit.trans_le hsmall)) (by omega) htail
    rw [digitLoop, ← Int.ofNat_tmod, htable _ hdigit, Option.bind_some]
    dsimp only
    rw [← Int.ofNat_tdiv, cast_holds hquotient, natNumeral_step hbase n]
    by_cases hq : n / base = 0
    · rw [hq, if_neg (by simp), if_pos rfl, Option.bind_some, hread]
      simp
    · rw [if_pos (by exact_mod_cast hq), if_neg hq, ih hquotient (by omega) hread, List.length_append,
        List.length_singleton, List.append_assoc]
      by_cases hroom : (natNumeral base (n / base)).length ≤ str
      · rw [if_pos hroom, if_pos (by omega)]
        rfl
      · rw [if_neg hroom, if_neg (by omega)]

/-- **The digits of a negative number** are not all in the table. The induction is on the room.
SRCLINE: kernel/lib/debug.hpp:59-62 -/
theorem digitLoop_neg (hpos : 0 < n) (hn : T.Holds (-n)) :
    digitLoop T digits base str (-n) buffer = none := by
  induction str generalizing n buffer with
  | zero => rfl
  | succ str ih =>
    rw [digitLoop, Int.neg_tmod, ← Int.ofNat_tmod]
    by_cases hlast : n % base = 0
    · have hquotient : 0 < n / base := by
        have hsplit := Nat.div_add_mod n base
        by_contra hzero
        rw [hlast, Nat.eq_zero_of_not_pos hzero] at hsplit
        omega
      have hholds : T.Holds (-(n / base : ℕ)) := holds_between hn (Or.inl ⟨by
        have hle := Nat.div_le_self n base
        omega, by omega⟩)
      cases tableAt digits (-(n % base : ℕ)) with
      | none => rfl
      | some c =>
        rw [Option.bind_some, Int.neg_tdiv, ← Int.ofNat_tdiv, cast_holds hholds]
        dsimp only
        rw [if_pos (by omega), ih hquotient hholds]
    · rw [tableAt, if_neg (by omega)]
      rfl

/-! ## Both functions -/

/-- INTERNAL: numbers that are not negative.
SRCLINE: kernel/lib/debug.hpp:52-65, kernel/lib/string.cpp:114-123 -/
theorem formatNumber_nat (hbase : 1 < base) (hsmall : base ≤ 16)
    (htable : ∀ d < base, tableAt digits d = some (numeralChar d)) (hn : T.Holds n) (stale : ℕ → Byte) :
    formatNumber T digits stale n base = if n < base ^ 49 then some (natNumeral base n) else none := by
  have htail : readOut (Function.update stale 49 0) (50 - 49) 49 = some [] := by
    rw [readOut, Function.update_self, if_pos rfl]
  have hloop := digitLoop_nat hbase hsmall htable hn (by decide) htail
  rw [List.append_nil] at hloop
  rw [formatNumber, hloop]
  by_cases hroom : n < base ^ 49
  · rw [if_pos hroom, if_pos ((natNumeral_length_le_iff hbase (by decide) n).mpr hroom)]
  · rw [if_neg hroom, if_neg (mt (natNumeral_length_le_iff hbase (by decide) n).mp hroom)]

/-- INTERNAL: a value is a natural number or the negative of one. -/
theorem formatNumber_neg {z : ℤ} (hz : z < 0) (hholds : T.Holds z) (stale : ℕ → Byte) :
    formatNumber T digits stale z base = none := by
  obtain ⟨n, rfl⟩ : ∃ n : ℕ, z = -n := ⟨z.natAbs, by omega⟩
  rw [formatNumber, digitLoop_neg (by omega) hholds]
  rfl

/-- INTERNAL: values are below `2 ^ 64`. -/
theorem holds_lt {z : ℤ} (h : T.Holds z) : z < 2 ^ 64 := by
  obtain ⟨_, hhigh⟩ := h
  cases T <;> simp [IntegerType.signed, IntegerType.bits] at hhigh <;> omega

/-- INTERNAL: the tables have the digits of the bases. -/
theorem hexTable : ∀ d < 16, tableAt [0x30, 0x31, 0x32, 0x33, 0x34, 0x35, 0x36, 0x37, 0x38, 0x39, 0x41, 0x42, 0x43,
    0x44, 0x45, 0x46, 0] (d : ℕ) = some (numeralChar d) := by decide

theorem decimalTable : ∀ d < 10, tableAt [0x30, 0x31, 0x32, 0x33, 0x34, 0x35, 0x36, 0x37, 0x38, 0x39, 0] (d : ℕ) =
    some (numeralChar d) := by decide

/-- **`print_integer`** writes the numeral if and only if the value is not negative, and has not more than 49 digits.
SRCLINE: kernel/lib/debug.hpp:50-66 -/
theorem printsNumeral_iff {arg : ℤ} (hbase : base ∈ [2, 10, 16]) (harg : T.Holds arg) :
    PrintsNumeral T arg base ↔ 0 ≤ arg ∧ (base = 2 → arg < 2 ^ 49) := by
  have hbounds : 1 < base ∧ base ≤ 16 := by
    simp at hbase
    omega
  by_cases hneg : arg < 0
  · have hnone : printInteger T (fun _ => 0) arg base = none := formatNumber_neg hneg harg (fun _ => 0)
    constructor
    · intro hprints
      rw [hprints] at hnone
      cases hnone
    · intro hpos
      omega
  · obtain ⟨n, rfl⟩ : ∃ n : ℕ, arg = n := ⟨arg.toNat, by omega⟩
    have hrun : ∀ stale, printInteger T stale n base = if n < base ^ 49 then some (natNumeral base n) else none :=
      formatNumber_nat hbounds.1 hbounds.2 (fun d hd => hexTable d (hd.trans_le hbounds.2)) harg
    have hnumeral : numeral base n = natNumeral base n := by
      rw [numeral, if_neg hneg, Int.natAbs_natCast]
    have hroom : n < base ^ 49 ↔ (base = 2 → (n : ℤ) < 2 ^ 49) := by
      have hlt := holds_lt harg
      simp at hbase
      rcases hbase with rfl | rfl | rfl
      · omega
      · omega
      · omega
    constructor
    · intro hprints
      have hfirst := hprints (fun _ => 0)
      rw [hrun] at hfirst
      refine ⟨Int.natCast_nonneg n, hroom.mp ?_⟩
      by_contra hlong
      rw [if_neg hlong] at hfirst
      cases hfirst
    · intro hshort stale
      rw [hrun, if_pos (hroom.mpr hshort.2), hnumeral]

/-- **`operator+`** appends the numeral if and only if the number is not negative.
SRCLINE: kernel/lib/string.cpp:113-126 -/
theorem appendsNumeral_iff {number : ℤ} (s : LibString) (hnumber : IntegerType.longInt.Holds number) :
    AppendsNumeral s number ↔ 0 ≤ number := by
  constructor
  · intro happends
    by_contra hneg
    have hnone : s.appendNumber (fun _ => 0) number = none :=
      congrArg (Option.map (s ++ ·)) (@formatNumber_neg .longInt _ 10 number (by omega) hnumber (fun _ => 0))
    rw [happends] at hnone
    cases hnone
  · intro hpos stale
    obtain ⟨n, rfl⟩ : ∃ n : ℕ, number = n := ⟨number.toNat, by omega⟩
    have hlt := holds_lt hnumber
    have hrun := @formatNumber_nat .longInt _ 10 n (by decide) (by decide) decimalTable hnumber stale
    rw [if_pos (by omega)] at hrun
    rw [LibString.appendNumber, numeral, if_neg (by omega), Int.natAbs_natCast]
    exact congrArg (Option.map (s ++ ·)) hrun

/-- **Numbers are formatted** as they should be if and only if they are not negative, and in base 2 have not more than
49 digits.
SRCLINE: kernel/lib/debug.hpp:50-89, kernel/lib/string.cpp:113-126 -/
theorem formatting_iff {arg number : ℤ} (s : LibString) (hbase : base ∈ [2, 10, 16]) (harg : T.Holds arg)
    (hnumber : IntegerType.longInt.Holds number) :
    (PrintsNumeral T arg base ↔ 0 ≤ arg ∧ (base = 2 → arg < 2 ^ 49)) ∧ (AppendsNumeral s number ↔ 0 ≤ number) :=
  ⟨printsNumeral_iff hbase harg, appendsNumeral_iff s hnumber⟩

/-- The smallest number in base 10. -/
theorem formatting_iff_smallest :
    (PrintsNumeral .longInt (-2 ^ 63) 10 ↔ 0 ≤ (-2 ^ 63 : ℤ) ∧ (10 = 2 → (-2 ^ 63 : ℤ) < 2 ^ 49)) ∧
      (AppendsNumeral [] (-2 ^ 63) ↔ 0 ≤ (-2 ^ 63 : ℤ)) :=
  formatting_iff [] (by decide) (by decide) (by decide)

/-- `-1` is not printed, and `2 ^ 49` not in base 2. -/
theorem formatting_fails : ¬ (∀ (T : IntegerType) (arg : ℤ) (base : ℕ), base ∈ [2, 10, 16] → T.Holds arg →
      PrintsNumeral T arg base) ∧
    ¬ PrintsNumeral .unsignedLongInt (2 ^ 49) 2 ∧ ¬ ∀ (s : LibString) (number : ℤ), IntegerType.longInt.Holds number →
      AppendsNumeral s number := by
  refine ⟨fun h => ?_, fun h => ?_, fun h => ?_⟩
  · have hprints := (printsNumeral_iff (by decide) (by decide)).mp (h .int (-1) 10 (by decide) (by decide))
    omega
  · have hprints := (printsNumeral_iff (T := .unsignedLongInt) (by decide) (by decide)).mp h
    omega
  · have happends := (appendsNumeral_iff [] (by decide)).mp (h [] (-1) (by decide))
    omega

/-! ## Templates -/

section Templates

variable {c : Byte} {str text rest : LibString} {arg : PrintArg} {args : List PrintArg}

/-- INTERNAL: the characters that make a hole. -/
theorem startsHole_iff : StartsHole str ↔ str[0]? = some 0x7b ∧ (str[1]? = some 0x7d ∨ str[2]? = some 0x7d) := by
  constructor
  · rintro ⟨h, tail, rfl⟩
    cases h with
    | plain => exact ⟨rfl, Or.inl rfl⟩
    | letter c hc => exact ⟨rfl, Or.inr rfl⟩
  · rintro ⟨hopen, hclose⟩
    obtain ⟨tail, rfl⟩ : ∃ tail, str = 0x7b :: tail := by
      cases str with
      | nil => cases hopen
      | cons c tail => exact ⟨tail, by rw [Option.some.inj hopen]⟩
    rw [List.getElem?_cons_succ, List.getElem?_cons_succ] at hclose
    cases tail with
    | nil => exact absurd hclose (by simp)
    | cons d tail =>
      by_cases hd : d = 0x7d
      · exact ⟨.plain, tail, by rw [hd]; rfl⟩
      · rw [List.getElem?_cons_zero, List.getElem?_cons_succ] at hclose
        have hthird := hclose.resolve_left fun h => hd (Option.some.inj h)
        cases tail with
        | nil => cases hthird
        | cons e tail => exact ⟨.letter d hd, tail, by rw [Option.some.inj hthird]; rfl⟩

/-- INTERNAL: the zero behind the characters is no brace. -/
theorem charAt_brace {i : ℕ} : charAt str i = some 0x7d ↔ str[i]? = some 0x7d := by
  unfold charAt
  by_cases hend : i = str.length
  · rw [if_pos hend, hend, List.getElem?_length]
    exact ⟨by decide, nofun⟩
  · rw [if_neg hend]

/-- INTERNAL: a character where no hole begins is written. -/
theorem printArg_char (hhole : ¬ StartsHole (c :: str)) (hbehind : c = 0x7b → str ≠ []) :
    printArg arg (c :: str) = (printArg arg str).map fun r => (c :: r.1, r.2) := by
  rw [printArg]
  by_cases hbrace : c = 0x7b
  · rw [startsHole_iff, List.getElem?_cons_zero, hbrace] at hhole
    push Not at hhole
    obtain ⟨hplain, hletter⟩ := hhole rfl
    have hstr := hbehind hbrace
    subst hbrace
    rw [if_pos rfl, if_neg (mt charAt_brace.mp hplain)]
    have hread : ∃ e, charAt (0x7b :: str) 2 = some e := by
      cases str with
      | nil => exact absurd rfl hstr
      | cons d tail =>
        cases tail with
        | nil => exact ⟨0, rfl⟩
        | cons e tail => exact ⟨e, by simp [charAt]⟩
    obtain ⟨e, he⟩ := hread
    rw [he, Option.bind_some, if_neg]
    rintro rfl
    exact hletter (charAt_brace.mp he)
  · rw [if_neg hbrace]

/-- INTERNAL: text before something else is written. -/
theorem printArg_text (htext : ∀ i < text.length, ¬ StartsHole ((text ++ rest).drop i)) (hrest : rest ≠ []) :
    printArg arg (text ++ rest) = (printArg arg rest).map fun r => (text ++ r.1, r.2) := by
  induction text with
  | nil =>
    rw [List.nil_append]
    cases printArg arg rest <;> rfl
  | cons c text ih =>
    have hfirst : ¬ StartsHole (c :: (text ++ rest)) := htext 0 (Nat.succ_pos _)
    have hothers := ih fun i hi => htext (i + 1) (Nat.succ_lt_succ hi)
    rw [List.cons_append, printArg_char hfirst (fun _ => List.append_ne_nil_of_right_ne_nil text hrest), hothers,
      Option.map_map]
    rfl

/-- INTERNAL: an argument without a hole; the two characters behind an opening brace are read. -/
theorem printArg_last (htext : ∀ i, ¬ StartsHole (text.drop i)) :
    printArg arg text = if text.getLast? = some 0x7b then none else some (text, []) := by
  induction text with
  | nil => rfl
  | cons c text ih =>
    have hothers := ih fun i => htext (i + 1)
    by_cases hbrace : c = 0x7b ∧ text = []
    · obtain ⟨rfl, rfl⟩ := hbrace
      rfl
    · have hbehind : c = 0x7b → text ≠ [] := fun hc ht => hbrace ⟨hc, ht⟩
      rw [printArg_char (htext 0) hbehind, hothers]
      by_cases hempty : text = []
      · subst hempty
        have hc : [c].getLast? ≠ some 0x7b := fun hc => hbrace ⟨Option.some.inj hc, rfl⟩
        rw [if_neg hc]
        rfl
      · obtain ⟨d, tail, rfl⟩ := List.exists_cons_of_ne_nil hempty
        rw [List.getLast?_cons_cons]
        by_cases hlast : (d :: tail).getLast? = some 0x7b
        · rw [if_pos hlast, if_pos hlast]
          rfl
        · rw [if_neg hlast, if_neg hlast]
          rfl

/-- INTERNAL: an argument with a hole.
SRCLINE: kernel/lib/debug.hpp:101-119 -/
theorem printArg_hole (h : Hole) :
    printArg arg (h.text ++ str) = (arg.format h.base).map fun out => (out, str) := by
  cases h with
  | plain => rfl
  | letter c hc =>
    have hplain : charAt (0x7b :: c :: 0x7d :: str) 1 ≠ some 0x7d := by
      rw [Ne, charAt_brace]
      simpa using hc
    have hread : charAt (0x7b :: c :: 0x7d :: str) 1 = some c := by simp [charAt]
    have hclose : charAt (0x7b :: c :: 0x7d :: str) 2 = some 0x7d := charAt_brace.mpr rfl
    have hbase : braceBase c = (Hole.letter c hc).base := by
      unfold braceBase Hole.base
      dsimp only
      split_ifs <;> rfl
    change printArg arg (0x7b :: c :: 0x7d :: str) = _
    rw [printArg, if_pos rfl, if_neg hplain, hclose, Option.bind_some, if_pos rfl, hread, Option.bind_some, hbase]
    rfl

/-- INTERNAL: the base is one that `print_integer` has been shown for. -/
theorem hole_base_mem (h : Hole) : h.base ∈ [2, 10, 16] := by
  cases h with
  | plain => decide
  | letter c hc =>
    unfold Hole.base
    dsimp only
    split_ifs <;> decide

/-- INTERNAL: an argument that can be printed. -/
theorem format_printable (h : Hole) (hholds : ArgHolds arg) (hprintable : ArgPrintable arg h.base) :
    arg.format h.base = some (argText arg h.base) := by
  cases arg with
  | integer T stale z => exact (printsNumeral_iff (hole_base_mem h) hholds).mpr hprintable stale
  | chars | char | string => rfl

/-- INTERNAL: an argument that cannot be printed. -/
theorem format_not_printable (h : Hole) (hholds : ArgHolds arg) (hprintable : ¬ ArgPrintable arg h.base) :
    arg.format h.base = none := by
  have hbase := hole_base_mem h
  generalize h.base = base at hbase hprintable ⊢
  have hbounds : 1 < base ∧ base ≤ 16 := by
    simp at hbase
    omega
  cases arg with
  | integer T stale z =>
    by_cases hneg : z < 0
    · exact formatNumber_neg hneg hholds stale
    · obtain ⟨n, rfl⟩ : ∃ n : ℕ, z = n := ⟨z.toNat, by omega⟩
      have hlong : ¬ n < base ^ 49 := by
        unfold ArgPrintable at hprintable
        push Not at hprintable
        obtain ⟨rfl, hn⟩ := hprintable (Int.natCast_nonneg n)
        omega
      have hrun := formatNumber_nat hbounds.1 hbounds.2 (fun d hd => hexTable d (hd.trans_le hbounds.2)) hholds stale
      rw [if_neg hlong] at hrun
      exact hrun
  | chars | char | string => exact absurd trivial hprintable

/-- INTERNAL: a hole has characters. -/
theorem hole_text_ne_nil (h : Hole) : h.text ++ str ≠ [] := by
  cases h with
  | plain => exact List.cons_ne_nil _ _
  | letter c hc => exact List.cons_ne_nil _ _

/-- INTERNAL: arguments after the end of the template. -/
theorem printFormat_nil (args : List PrintArg) : printFormat [] args = some [] := by
  induction args with
  | nil => rfl
  | cons arg args ih => rw [printFormat, printArg, Option.bind_some, ih]; rfl

/-- **The arguments are put into the holes**, or something is read or written out of bounds. The induction is on the
template, which has the holes in the order of the arguments.
SRCLINE: kernel/lib/debug.hpp:96-128 -/
theorem printFormat_template (t : Template) (ht : t.Leftmost) (hargs : ∀ arg ∈ args, ArgHolds arg) :
    (t.Printable args → printFormat t.render args = some (t.substitute args)) ∧
      (¬ t.Printable args → printFormat t.render args = none) := by
  induction t generalizing args with
  | last text =>
    cases args with
    | nil => exact ⟨fun _ => rfl, fun h => absurd (Or.inl rfl) h⟩
    | cons arg args =>
      rw [Template.render, printFormat, printArg_last ht]
      constructor
      · intro hprintable
        have hlast : text.getLast? ≠ some 0x7b := hprintable.resolve_left (List.cons_ne_nil _ _)
        rw [if_neg hlast, Option.bind_some, printFormat_nil, Option.map_some, List.append_nil]
        rfl
      · intro hprintable
        have hlast : text.getLast? = some 0x7b := by
          by_contra hlast
          exact hprintable (Or.inr hlast)
        rw [if_pos hlast]
        rfl
  | hole text h rest ih =>
    cases args with
    | nil => exact ⟨fun _ => rfl, fun h => absurd trivial h⟩
    | cons arg args =>
      obtain ⟨htext, hrest⟩ := ht
      obtain ⟨hsome, hnone⟩ := ih hrest fun a ha => hargs a (List.mem_cons_of_mem arg ha)
      have harg := hargs arg List.mem_cons_self
      have hprint : printFormat (Template.hole text h rest).render (arg :: args) =
          ((arg.format h.base).bind fun out => (printFormat rest.render args).map fun tail => text ++ (out ++ tail)) := by
        rw [printFormat, Template.render, printArg_text htext (hole_text_ne_nil h), printArg_hole]
        cases arg.format h.base with
        | none => rfl
        | some out =>
          simp only [Option.map_some, Option.bind_some, List.append_assoc]
      rw [hprint]
      constructor
      · rintro ⟨hprintable, hothers⟩
        rw [format_printable h harg hprintable, Option.bind_some, hsome hothers]
        rfl
      · intro hnot
        by_cases hprintable : ArgPrintable arg h.base
        · have hothers : ¬ rest.Printable args := fun hothers => hnot ⟨hprintable, hothers⟩
          rw [format_printable h harg hprintable, Option.bind_some, hnone hothers]
          rfl
        · rw [format_not_printable h harg hprintable]
          rfl

/-- INTERNAL: every string is a template; the induction is on its length, and the text ends at the first hole. -/
theorem template_exists (str : LibString) : ∃ t : Template, t.Leftmost ∧ t.render = str := by
  induction hlength : str.length using Nat.strong_induction_on generalizing str with
  | _ n ih =>
    by_cases hhole : ∃ i, StartsHole (str.drop i)
    · classical
      obtain ⟨h, tail, htail⟩ := Nat.find_spec hhole
      have hbefore : ∀ i < Nat.find hhole, ¬ StartsHole (str.drop i) := fun i => Nat.find_min hhole
      generalize Nat.find hhole = k at htail hbefore
      have hsplit : str = str.take k ++ (h.text ++ tail) := by rw [htail, List.take_append_drop]
      have hshorter : tail.length < n := by
        have hcount := congrArg List.length hsplit
        have htext : 0 < h.text.length := by cases h <;> exact Nat.succ_pos _
        rw [List.length_append, List.length_append, hlength] at hcount
        omega
      obtain ⟨rest, hleftmost, hrender⟩ := ih tail.length hshorter tail rfl
      have hwhole : (Template.hole (str.take k) h rest).render = str := by
        rw [Template.render, hrender, ← hsplit]
      refine ⟨.hole (str.take k) h rest, ⟨?_, hleftmost⟩, hwhole⟩
      intro i hi
      rw [hwhole]
      rw [List.length_take] at hi
      exact hbefore i (by omega)
    · exact ⟨.last str, fun i hi => hhole ⟨i, hi⟩, rfl⟩

/-- INTERNAL: the hole after a text. -/
theorem startsHole_after (text : LibString) (h : Hole) (rest : Template) :
    StartsHole ((Template.hole text h rest).render.drop text.length) := by
  rw [Template.render, List.drop_left]
  exact ⟨h, rest.render, rfl⟩

/-- INTERNAL: two holes at one place. -/
theorem hole_unique {h h' : Hole} {tail tail' : LibString} (heq : h.text ++ tail = h'.text ++ tail') :
    h = h' ∧ tail = tail' := by
  cases h with
  | plain =>
    cases h' with
    | plain => exact ⟨rfl, List.append_cancel_left heq⟩
    | letter d hd =>
      simp only [Hole.text, List.cons_append, List.cons.injEq] at heq
      exact absurd heq.2.1.symm hd
  | letter c hc =>
    cases h' with
    | plain =>
      simp only [Hole.text, List.cons_append, List.cons.injEq] at heq
      exact absurd heq.2.1 hc
    | letter d hd =>
      simp only [Hole.text, List.cons_append, List.nil_append, List.cons.injEq] at heq
      obtain ⟨-, rfl, -, htail⟩ := heq
      exact ⟨rfl, htail⟩

/-- INTERNAL: no string is a template in two ways. -/
theorem template_unique {t t' : Template} (ht : t.Leftmost) (ht' : t'.Leftmost) (heq : t.render = t'.render) :
    t = t' := by
  induction t generalizing t' with
  | last text =>
    cases t' with
    | last text' => exact congrArg Template.last heq
    | hole text' h' rest' =>
      have hstarts := startsHole_after text' h' rest'
      rw [← heq] at hstarts
      exact absurd hstarts (ht _)
  | hole text h rest ih =>
    have hstarts := startsHole_after text h rest
    cases t' with
    | last text' =>
      rw [heq] at hstarts
      exact absurd hstarts (ht' _)
    | hole text' h' rest' =>
      have hstarts' := startsHole_after text' h' rest'
      have hlength : text.length = text'.length := by
        rcases Nat.lt_trichotomy text.length text'.length with hlt | hsame | hgt
        · rw [heq] at hstarts
          exact absurd hstarts (ht'.1 _ hlt)
        · exact hsame
        · rw [← heq] at hstarts'
          exact absurd hstarts' (ht.1 _ hgt)
      obtain ⟨rfl, hbehind⟩ := List.append_inj heq hlength
      obtain ⟨rfl, hrest⟩ := hole_unique hbehind
      rw [ih ht.2 ht'.2 hrest]

end Templates

/-- A number in hexadecimal, and a character. -/
def hexTemplate : Template := .hole [] (.letter 0x78 (by decide)) (.hole [0x2d] .plain (.last []))

theorem hexTemplate_leftmost : hexTemplate.Leftmost := by
  have hend : ∀ i, ¬ StartsHole (([] : LibString).drop i) := by
    intro i
    rw [List.drop_nil, startsHole_iff]
    simp
  have hdash : ∀ i < 1, ¬ StartsHole ((Template.hole [0x2d] .plain (.last [])).render.drop i) := by
    intro i hi
    rw [Nat.lt_one_iff.mp hi, List.drop_zero, startsHole_iff]
    decide
  exact ⟨nofun, hdash, hend⟩

end CrepOS.Analysis
