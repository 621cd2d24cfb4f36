import CrepOS.Interface.UserStack

/-!
# The stack of a new user thread

The vector is stored from the top down in pieces that lie next to each other; `wordsAt_storeWords` puts one
more piece below the words that are there already, and `buildUserStack_words` goes through all of them.
`user_stack_layout` is the layout of the vector and the alignment of the stack pointer.

The texts are another matter: `strlen(element) + 1` is added to the pointer where it should be subtracted, so
that a text starts two bytes too high and its last byte is behind the top of the stack. `stackCorrect_iff`
says that the stack is correct if and only if there are no texts.
-/

set_option autoImplicit false

namespace CrepOS.Analysis

open CrepOS.Library CrepOS.Model CrepOS.Interface

variable {m m' : Memory} {p q top : Word}

/-! ## Words on the stack -/

/-- INTERNAL: the number of the `i`-th word from `p` on. -/
theorem slot_toNat (p : Word) (i : ℕ) :
    (p + 8 * BitVec.ofNat 64 i).toNat = (p.toNat + 8 * i) % 2 ^ 64 := by
  have hone : (8 * BitVec.ofNat 64 i).toNat = 8 * i % 2 ^ 64 := by
    rw [BitVec.toNat_mul, BitVec.toNat_ofNat]
    simp
  rw [BitVec.toNat_add, hone]
  omega

/-- INTERNAL: the number of the next word. -/
theorem next_toNat (p : Word) : (p + 8).toNat = (p.toNat + 8) % 2 ^ 64 := by
  rw [BitVec.toNat_add]
  rfl

theorem loadWord_storeWord (m : Memory) (p w : Word) : loadWord (storeWord m p w) p = w := by
  unfold loadWord storeWord
  have hw : w.toNat < 256 ^ 8 := w.isLt
  rw [Memory.word_setWord_of_lt hw]
  simp

/-- INTERNAL: two words that are aligned are the same or apart. -/
theorem loadWord_storeWord_of_ne (w : Word) (hp : p.toNat % 8 = 0) (hq : q.toNat % 8 = 0)
    (hne : q.toNat ≠ p.toNat) : loadWord (storeWord m p w) q = loadWord m q := by
  unfold loadWord storeWord
  rw [Memory.word_setWord_outside (by omega)]

/-- INTERNAL: words that are stored leave the others alone. -/
theorem loadWord_storeWords_of_ne (ws : List Word) (hp : p.toNat % 8 = 0) (hq : q.toNat % 8 = 0)
    (hne : ∀ i < ws.length, q.toNat ≠ (p + 8 * BitVec.ofNat 64 i).toNat) :
    loadWord (storeWords m p ws) q = loadWord m q := by
  induction ws generalizing m p with
  | nil => rfl
  | cons w ws ih =>
    rw [storeWords, ih]
    · apply loadWord_storeWord_of_ne w hp hq
      have hfirst := hne 0 (by simp)
      rw [slot_toNat] at hfirst
      omega
    · rw [next_toNat]
      omega
    · intro i hi
      have hnext := hne (i + 1) (by simp [hi])
      rw [slot_toNat] at hnext ⊢
      rw [next_toNat]
      omega

/-- INTERNAL: words that are stored below others. -/
theorem wordsAt_storeWords (ws : List Word) {ws' : List Word} (hp : p.toNat % 8 = 0)
    (hfits : 8 * (ws.length + ws'.length) ≤ 2 ^ 64)
    (h : WordsAt m (p + 8 * BitVec.ofNat 64 ws.length) ws') : WordsAt (storeWords m p ws) p (ws ++ ws') := by
  induction ws generalizing m p with
  | nil =>
    intro i hi
    have hone := h i hi
    rw [List.length_nil] at hone
    simpa [storeWords] using hone
  | cons w ws ih =>
    have hnext : (p + 8).toNat % 8 = 0 := by
      rw [next_toNat]
      omega
    have hrest : WordsAt (storeWords (storeWord m p w) (p + 8) ws) (p + 8) (ws ++ ws') := by
      apply ih hnext
      · simp only [List.length_cons] at hfits
        omega
      · intro i hi
        have hplace : p + 8 + 8 * BitVec.ofNat 64 ws.length + 8 * BitVec.ofNat 64 i =
            p + 8 * BitVec.ofNat 64 (w :: ws).length + 8 * BitVec.ofNat 64 i := by
          apply BitVec.eq_of_toNat_eq
          rw [slot_toNat, slot_toNat, slot_toNat, slot_toNat, next_toNat, List.length_cons]
          omega
        rw [hplace, loadWord_storeWord_of_ne w hp]
        · exact h i hi
        · rw [slot_toNat, slot_toNat]
          omega
        · rw [slot_toNat, slot_toNat]
          simp only [List.length_cons] at hfits ⊢
          omega
    intro i hi
    cases i with
    | zero =>
      have hself : p + 8 * BitVec.ofNat 64 0 = p := by simp
      rw [hself, storeWords, loadWord_storeWords_of_ne ws hnext hp]
      · exact loadWord_storeWord m p w
      · intro j hj
        rw [slot_toNat, next_toNat]
        simp only [List.length_cons] at hfits
        omega
    | succ i =>
      have hplace : p + 8 * BitVec.ofNat 64 (i + 1) = p + 8 + 8 * BitVec.ofNat 64 i := by
        apply BitVec.eq_of_toNat_eq
        rw [slot_toNat, slot_toNat, next_toNat]
        omega
      rw [hplace]
      exact hrest i (by simpa using hi)

/-! ## The pointers -/

theorem textPointers_cons (save : Word) (s : CString) (texts : List CString) :
    textPointers save (s :: texts) = (save - (BitVec.ofNat 64 s.strlen + 1)) ::
      textPointers (save - (BitVec.ofNat 64 s.strlen + 1)) texts := by
  unfold textPointers
  rw [List.length_cons, List.range_succ_eq_map, List.map_cons, List.map_map]
  have hsize : ∀ texts' : List CString, save - BitVec.ofNat 64 (textSize (s :: texts')) =
      save - (BitVec.ofNat 64 s.strlen + 1) - BitVec.ofNat 64 (textSize texts') := by
    intro texts'
    unfold textSize
    rw [List.map_cons, List.sum_cons, BitVec.ofNat_add, BitVec.ofNat_add]
    bv_omega
  congr 1
  · have hone := hsize []
    simpa [textSize] using hone
  · apply List.map_congr_left
    intro i _
    exact hsize (texts.take (i + 1))

/-- The loops over the pointers store the words below `save`.
SRCLINE: kernel/sched/scheduler.cpp:94-97, 102-105 -/
theorem storePointers_eq (m : Memory) (p save : Word) (texts : List CString) :
    storePointers m p save texts =
      (storeWords m p (textPointers save texts), save - BitVec.ofNat 64 (textSize texts)) := by
  induction texts generalizing m p save with
  | nil =>
    simp [storePointers, textPointers, textSize, storeWords]
  | cons s texts ih =>
    rw [storePointers, ih, textPointers_cons, storeWords]
    congr 1
    unfold textSize
    rw [List.map_cons, List.sum_cons, BitVec.ofNat_add, BitVec.ofNat_add]
    bv_omega

theorem textPointers_length (save : Word) (texts : List CString) :
    (textPointers save texts).length = texts.length := by
  rw [textPointers, List.length_map, List.length_range]

/-! ## The vector -/

/-- INTERNAL: the pointer that is aligned down to 16 bytes. -/
theorem aligned_toNat (p : Word) : (p - (p &&& 0xf#64)).toNat % 16 = 0 := by
  have hand : (p &&& 0xf#64).toNat = p.toNat % 16 := by
    rw [BitVec.toNat_and]
    exact Nat.and_two_pow_sub_one_eq_mod p.toNat 4
  rw [BitVec.toNat_sub, hand]
  omega

/-- Where the vector ends: below the texts, aligned, and one word lower if that makes the stack pointer
aligned.
SRCLINE: kernel/sched/scheduler.cpp:78-81 -/
def vectorEnd (stack : Word) (argv envp : List CString) : Word :=
  if (argv.length + envp.length + 1) % 2 = 1 then stack - (stack &&& 0xf#64) - 8
  else stack - (stack &&& 0xf#64)

/-- INTERNAL: below the end of the vector. -/
theorem below_toNat (p : Word) (n : ℕ) : (p - 8 * BitVec.ofNat 64 n).toNat % 8 = p.toNat % 8 := by
  have hone : (8 * BitVec.ofNat 64 n).toNat = 8 * n % 2 ^ 64 := by
    rw [BitVec.toNat_mul, BitVec.toNat_ofNat]
    simp
  rw [BitVec.toNat_sub, hone]
  omega

/-- INTERNAL: the parity of the number of words makes the stack pointer aligned. -/
theorem vectorEnd_aligned (stack : Word) (argv envp : List CString) :
    (vectorEnd stack argv envp).toNat % 8 = 0 ∧
      (vectorEnd stack argv envp - 8 * BitVec.ofNat 64 (argv.length + envp.length + 13)).toNat % 16 = 0 := by
  have hbase := aligned_toNat stack
  have hlen : (8 * BitVec.ofNat 64 (argv.length + envp.length + 13)).toNat =
      8 * (argv.length + envp.length + 13) % 2 ^ 64 := by
    rw [BitVec.toNat_mul, BitVec.toNat_ofNat]
    simp
  have height : (8 : Word).toNat = 8 := rfl
  rw [BitVec.toNat_sub _ (8 * _), hlen]
  unfold vectorEnd
  split
  · rw [BitVec.toNat_sub, height]
    omega
  · omega

/-- A memory and a stack pointer, after some words are pushed. -/
def pushWords (r : Memory × Word) (ws : List Word) : Memory × Word :=
  (storeWords r.1 (r.2 - 8 * BitVec.ofNat 64 ws.length) ws, r.2 - 8 * BitVec.ofNat 64 ws.length)

theorem pushWords_rsp (r : Memory × Word) (ws : List Word) :
    (pushWords r ws).2 = r.2 - 8 * BitVec.ofNat 64 ws.length := rfl

/-- INTERNAL: what is pushed lies below what is there. -/
theorem pushWords_words {r : Memory × Word} (ws : List Word) {ws' : List Word} (haligned : r.2.toNat % 8 = 0)
    (hfits : 8 * (ws.length + ws'.length) ≤ 2 ^ 64) (h : WordsAt r.1 r.2 ws') :
    WordsAt (pushWords r ws).1 (pushWords r ws).2 (ws ++ ws') ∧ (pushWords r ws).2.toNat % 8 = 0 := by
  have hbelow : (r.2 - 8 * BitVec.ofNat 64 ws.length).toNat % 8 = 0 := by
    rw [below_toNat, haligned]
  refine ⟨?_, hbelow⟩
  apply wordsAt_storeWords ws hbelow hfits
  rwa [BitVec.sub_add_cancel]

/-- The pieces of the vector, from the top down.
SRCLINE: kernel/sched/scheduler.cpp:54-109 -/
theorem buildUserStack_eq (m : Memory) (top : Word) (aux : Aux) (argv envp : List CString) :
    buildUserStack m top aux argv envp =
      pushWords (pushWords (pushWords (pushWords (pushWords (pushWords
        ((copyTexts (copyTexts m top envp).1 (copyTexts m top envp).2 argv).1,
          vectorEnd (copyTexts (copyTexts m top envp).1 (copyTexts m top envp).2 argv).2 argv envp)
        (auxWords aux)) [0]) (textPointers top envp)) [0])
        (textPointers (top - BitVec.ofNat 64 (textSize envp)) argv)) [BitVec.ofNat 64 argv.length] := by
  have hlen : (auxWords aux).length = 10 := rfl
  have heighty : 8 * BitVec.ofNat 64 10 = 80 := by decide
  have height : 8 * BitVec.ofNat 64 1 = 8 := by decide
  have hsingle : ∀ (m : Memory) (p w : Word), storeWord m p w = storeWords m p [w] := fun _ _ _ => rfl
  have hstack : ∀ stack : Word, (if (argv.length + envp.length + 1) % 2 = 1 then
      stack - (stack &&& 0xf#64) - 8 else stack - (stack &&& 0xf#64)) = vectorEnd stack argv envp :=
    fun _ => rfl
  have haux : [22, aux.atPhnum, 21, aux.atPhent, 20, aux.atPhdr, 10, aux.atEntry, 0, 0] = auxWords aux := rfl
  unfold buildUserStack pushWords
  simp only [storePointers_eq, textPointers_length, List.length_singleton, hlen, heighty, height, hsingle,
    hstack, haux]

/-- **What `create_thread` leaves on the stack**: the vector, below the texts.
SRCLINE: kernel/sched/scheduler.cpp:54-109 -/
theorem buildUserStack_words (m : Memory) (top : Word) (aux : Aux) (argv envp : List CString)
    (hfits : 8 * (argv.length + envp.length + 13) ≤ 2 ^ 64) :
    WordsAt (buildUserStack m top aux argv envp).1 (buildUserStack m top aux argv envp).2
      (stackVector top aux argv envp) := by
  rw [buildUserStack_eq]
  have hlen : (auxWords aux).length = 10 := rfl
  generalize hstart : ((copyTexts (copyTexts m top envp).1 (copyTexts m top envp).2 argv).1,
    vectorEnd (copyTexts (copyTexts m top envp).1 (copyTexts m top envp).2 argv).2 argv envp) = start
  have haligned : start.2.toNat % 8 = 0 := by
    rw [← hstart]
    exact (vectorEnd_aligned _ argv envp).1
  have hempty : ∀ (m : Memory) p, WordsAt m p [] := fun _ _ i hi => absurd hi (Nat.not_lt_zero i)
  obtain ⟨haux, haligned⟩ := @pushWords_words _ (auxWords aux) [] haligned
    (by simp only [hlen, List.length_nil]; omega) (hempty _ _)
  obtain ⟨hend, haligned⟩ := pushWords_words [0] haligned
    (by simp only [List.length_append, List.length_cons, List.length_nil, hlen]; omega) haux
  obtain ⟨henvp, haligned⟩ := pushWords_words (textPointers top envp) haligned
    (by simp only [List.length_append, List.length_cons, List.length_nil, hlen, textPointers_length]; omega)
    hend
  obtain ⟨hend', haligned⟩ := pushWords_words [0] haligned
    (by simp only [List.length_append, List.length_cons, List.length_nil, hlen, textPointers_length]; omega)
    henvp
  obtain ⟨hargv, haligned⟩ := pushWords_words (textPointers (top - BitVec.ofNat 64 (textSize envp)) argv)
    haligned
    (by simp only [List.length_append, List.length_cons, List.length_nil, hlen, textPointers_length]; omega)
    hend'
  obtain ⟨hargc, -⟩ := pushWords_words [BitVec.ofNat 64 argv.length] haligned
    (by simp only [List.length_append, List.length_cons, List.length_nil, hlen, textPointers_length]; omega)
    hargv
  simpa only [stackVector, List.append_nil, List.cons_append, List.nil_append, List.append_assoc] using hargc

/-- INTERNAL: the stack pointer, counted from the end of the vector. -/
theorem buildUserStack_rsp (m : Memory) (top : Word) (aux : Aux) (argv envp : List CString) :
    (buildUserStack m top aux argv envp).2 =
      vectorEnd (copyTexts (copyTexts m top envp).1 (copyTexts m top envp).2 argv).2 argv envp -
        8 * BitVec.ofNat 64 (argv.length + envp.length + 13) := by
  have hlen : (auxWords aux).length = 10 := rfl
  rw [buildUserStack_eq]
  simp only [pushWords_rsp, hlen, textPointers_length, List.length_singleton]
  rw [BitVec.ofNat_add, BitVec.ofNat_add]
  generalize vectorEnd _ _ _ = start
  generalize BitVec.ofNat 64 argv.length = argc
  generalize BitVec.ofNat 64 envp.length = envc
  have hsum : 8 * (argc + envc + BitVec.ofNat 64 13) =
      8 * BitVec.ofNat 64 10 + 8 * BitVec.ofNat 64 1 + 8 * envc + 8 * BitVec.ofNat 64 1 + 8 * argc +
        8 * BitVec.ofNat 64 1 := by
    have hnum : (8 * 13#64 : Word) = 8 * 10#64 + 8 * 1#64 + 8 * 1#64 + 8 * 1#64 := by decide
    rw [BitVec.mul_add, BitVec.mul_add, hnum]
    generalize 8 * argc = argcBytes, 8 * envc = envcBytes, 8 * 10#64 = auxBytes, 8 * 1#64 = wordBytes
    ac_rfl
  rw [hsum]
  simp only [BitVec.sub_sub]

/-- INTERNAL: where the texts begin depends on their lengths only. -/
theorem copyTexts_stack (m : Memory) (stack : Word) (texts : List CString) :
    (copyTexts m stack texts).2 = (texts.map CString.strlen).foldl
      (fun stack len => stack - BitVec.ofNat 64 len + 1) stack := by
  induction texts generalizing m stack with
  | nil => rfl
  | cons s texts ih => rw [copyTexts, ih, List.map_cons, List.foldl_cons]

/-- The stack pointer is the one of the scheduler's model, which has the lengths alone. -/
theorem buildUserStack_userStackPointer (m : Memory) (top : Word) (aux : Aux) (argv envp : List CString) :
    (buildUserStack m top aux argv envp).2 =
      userStackPointer top (envp.map CString.strlen) (argv.map CString.strlen) := by
  unfold buildUserStack userStackPointer
  simp only [copyTexts_stack, List.foldl_append, List.length_map]

/-- **The vector of a new user thread**: its stack pointer is aligned to 16 bytes, and the words from there
on are those that a program expects.
SRCLINE: kernel/sched/scheduler.cpp:50-110 -/
theorem user_stack_layout (m : Memory) (aux : Aux) (argv envp : List CString) (junk : Regs) (rip : Word)
    (cs : BitVec 16) (highVma kernelStack mmapped : Word) (huser : cs &&& 3 ≠ 0)
    (hfits : 8 * (argv.length + envp.length + 13) ≤ 2 ^ 64) :
    let rsp := (newRegs junk rip cs highVma kernelStack mmapped (envp.map CString.strlen)
      (argv.map CString.strlen)).rsp
    rsp.toNat % 16 = 0 ∧ WordsAt (buildUserStack m (mmapped + 0x2000) aux argv envp).1 rsp
      (stackVector (mmapped + 0x2000) aux argv envp) := by
  have hrsp : (newRegs junk rip cs highVma kernelStack mmapped (envp.map CString.strlen)
      (argv.map CString.strlen)).rsp = (buildUserStack m (mmapped + 0x2000) aux argv envp).2 := by
    rw [buildUserStack_userStackPointer, newRegs]
    dsimp only
    rw [if_pos huser]
  intro rsp
  rw [show rsp = _ from hrsp]
  constructor
  · rw [buildUserStack_rsp]
    exact (vectorEnd_aligned _ argv envp).2
  · exact buildUserStack_words m (mmapped + 0x2000) aux argv envp hfits

/-- The text `sh`. -/
def shellName : CString := ⟨[0x73, 0x68], by decide⟩

/-- A shell with one argument: five words of the vector before the auxiliary entries. -/
theorem user_stack_layout_shell :
    let rsp := (newRegs ⟨0, 0, 0, 0, 0, 0, 0, 0, 0, 0, 0, 0, 0, 0, 0, 0, 0, 0, 0, 0, 0, 0⟩ 0x400000 0x43
      0xffff800000000000 0x5000 0x70000000 [] ([shellName].map CString.strlen)).rsp
    rsp.toNat % 16 = 0 ∧ WordsAt (buildUserStack (fun _ => 0) (0x70000000 + 0x2000) ⟨0x400000, 0, 56, 2⟩
      [shellName] []).1 rsp [1, 0x70001ffd, 0, 0, 22, 2, 21, 56, 20, 0, 10, 0x400000, 0, 0] :=
  user_stack_layout (fun _ => 0) ⟨0x400000, 0, 56, 2⟩ [shellName] []
    ⟨0, 0, 0, 0, 0, 0, 0, 0, 0, 0, 0, 0, 0, 0, 0, 0, 0, 0, 0, 0, 0, 0⟩ 0x400000 0x43 0xffff800000000000
    0x5000 0x70000000 (by decide) (by decide)

/-! ## The texts -/

/-- INTERNAL: an assignment makes two memories agree where they agree already. -/
theorem storeWord_agree (p w : Word) {x : ℕ} (h : m x = m' x) : storeWord m p w x = storeWord m' p w x := by
  unfold storeWord
  by_cases hx : p.toNat ≤ x ∧ x < p.toNat + 8
  · obtain ⟨i, rfl⟩ : ∃ i, x = p.toNat + i := ⟨x - p.toNat, by omega⟩
    have hi : i < 8 := by omega
    rw [Memory.setWord, Memory.store_inside hi, Memory.setWord, Memory.store_inside hi]
  · rw [Memory.setWord_outside (by omega), Memory.setWord_outside (by omega), h]

theorem storeWords_agree (p : Word) (ws : List Word) {x : ℕ} (h : m x = m' x) :
    storeWords m p ws x = storeWords m' p ws x := by
  induction ws generalizing m m' p with
  | nil => exact h
  | cons w ws ih => exact ih (p + 8) (storeWord_agree p w h)

/-- INTERNAL: a text makes two memories agree at its zero byte, and elsewhere where they agree already. -/
theorem strcpy_agree (dest : Word) (src : List Byte) {x : ℕ}
    (h : m x = m' x ∨ x = (dest + BitVec.ofNat 64 src.length).toNat) : strcpy m dest src x = strcpy m' dest src x := by
  induction src generalizing m m' dest with
  | nil =>
    rw [strcpy, strcpy]
    by_cases hx : x = dest.toNat
    · rw [hx, Function.update_self, Function.update_self]
    · rw [Function.update_of_ne hx, Function.update_of_ne hx]
      rcases h with h | h
      · exact h
      · exact absurd (by simpa using h) hx
  | cons c src ih =>
    apply ih
    rcases h with h | h
    · left
      by_cases hx : x = dest.toNat
      · rw [hx, Function.update_self, Function.update_self]
      · rw [Function.update_of_ne hx, Function.update_of_ne hx, h]
    · right
      rw [h, List.length_cons, BitVec.ofNat_add]
      congr 1
      bv_omega

theorem copyTexts_agree (stack : Word) (texts : List CString) {x : ℕ} (h : m x = m' x) :
    (copyTexts m stack texts).1 x = (copyTexts m' stack texts).1 x := by
  induction texts generalizing m m' stack with
  | nil => exact h
  | cons s texts ih => exact ih _ (strcpy_agree _ _ (.inl h))

theorem copyTexts_append (m : Memory) (stack : Word) (texts texts' : List CString) :
    copyTexts m stack (texts ++ texts') =
      copyTexts (copyTexts m stack texts).1 (copyTexts m stack texts).2 texts' := by
  induction texts generalizing m stack with
  | nil => rfl
  | cons s texts ih => exact ih _ _

/-- INTERNAL: the zero byte of the first text is behind the byte at the top of the stack.
SRCLINE: kernel/sched/scheduler.cpp:64 -/
theorem copyTexts_behind (top : Word) {texts : List CString} (hne : texts ≠ []) :
    (copyTexts m top texts).1 (top + 1).toNat = (copyTexts m' top texts).1 (top + 1).toNat := by
  obtain ⟨s, texts, rfl⟩ := List.exists_cons_of_ne_nil hne
  refine copyTexts_agree _ texts (strcpy_agree _ _ (.inr ?_))
  congr 1
  unfold CString.strlen
  bv_omega

/-- INTERNAL: what `create_thread` writes does not depend on what was there. -/
theorem buildUserStack_behind (top : Word) (aux : Aux) {argv envp : List CString} (hne : envp ++ argv ≠ []) :
    (buildUserStack m top aux argv envp).1 (top + 1).toNat =
      (buildUserStack m' top aux argv envp).1 (top + 1).toNat := by
  have hbehind := @copyTexts_behind m m' top _ hne
  rw [copyTexts_append, copyTexts_append] at hbehind
  rw [buildUserStack_eq, buildUserStack_eq]
  simp only [pushWords, copyTexts_stack]
  rw [copyTexts_stack, copyTexts_stack] at hbehind
  repeat apply storeWords_agree
  exact hbehind

/-- INTERNAL: with a text, the byte behind the top of the stack is written. -/
theorem not_stackCorrect {top : Word} (aux : Aux) {argv envp : List CString} (htop : top.toNat + 1 < 2 ^ 64)
    (hne : envp ++ argv ≠ []) : ¬ StackCorrect top aux argv envp := by
  intro hcorrect
  have hnext : (top + 1).toNat = top.toNat + 1 := by
    rw [BitVec.toNat_add]
    exact Nat.mod_eq_of_lt htop
  have hsame := @buildUserStack_behind (fun _ => 0) (fun _ => 1) top aux _ _ hne
  rw [(hcorrect _).2 _ (by omega), (hcorrect _).2 _ (by omega)] at hsame
  cases hsame

/-! ## No texts -/

/-- INTERNAL: words that are stored leave the bytes behind them alone. -/
theorem storeWords_behind (ws : List Word) {x : ℕ} (hfits : p.toNat + 8 * ws.length < 2 ^ 64)
    (hx : p.toNat + 8 * ws.length ≤ x) : storeWords m p ws x = m x := by
  induction ws generalizing m p with
  | nil => rfl
  | cons w ws ih =>
    simp only [List.length_cons] at hfits hx
    rw [storeWords, ih]
    · exact Memory.setWord_outside (by omega)
    · rw [next_toNat]
      omega
    · rw [next_toNat]
      omega

/-- INTERNAL: words that are pushed leave the bytes from the stack pointer on alone. -/
theorem pushWords_behind {r : Memory × Word} (ws : List Word) (hfits : 8 * ws.length ≤ r.2.toNat) :
    (pushWords r ws).2.toNat = r.2.toNat - 8 * ws.length ∧
      ∀ x, r.2.toNat ≤ x → (pushWords r ws).1 x = r.1 x := by
  have hlt := r.2.isLt
  have hlen : (8 * BitVec.ofNat 64 ws.length).toNat = 8 * ws.length := by
    rw [BitVec.toNat_mul, BitVec.toNat_ofNat]
    simp
    omega
  have hrsp : (pushWords r ws).2.toNat = r.2.toNat - 8 * ws.length := by
    rw [pushWords, BitVec.toNat_sub, hlen]
    omega
  refine ⟨hrsp, fun x hx => ?_⟩
  apply storeWords_behind
  · rw [show (r.2 - 8 * BitVec.ofNat 64 ws.length).toNat = _ from hrsp]
    omega
  · rw [show (r.2 - 8 * BitVec.ofNat 64 ws.length).toNat = _ from hrsp]
    omega

/-- INTERNAL: without texts the vector ends at the top of the stack or below. -/
theorem vectorEnd_le {top : Word} (htop : 16 ≤ top.toNat) :
    top.toNat - 23 ≤ (vectorEnd top [] []).toNat ∧ (vectorEnd top [] []).toNat ≤ top.toNat := by
  have hlt := top.isLt
  have hand : (top &&& 0xf#64).toNat = top.toNat % 16 := by
    rw [BitVec.toNat_and]
    exact Nat.and_two_pow_sub_one_eq_mod top.toNat 4
  have height : (8 : Word).toNat = 8 := rfl
  rw [vectorEnd, if_pos (by decide), BitVec.toNat_sub, BitVec.toNat_sub, hand, height]
  omega

/-- INTERNAL: the stack of a program without arguments and environment. -/
theorem stackCorrect_nil {top : Word} (aux : Aux) (htop : 128 ≤ top.toNat) : StackCorrect top aux [] [] := by
  intro m
  have hwords := buildUserStack_words m top aux [] [] (by decide)
  have hargc := hwords 0 (by simp [stackVector])
  have hargumentsEnd := hwords 1 (by simp [stackVector, textPointers])
  have henvironmentEnd := hwords 2 (by simp [stackVector, textPointers])
  constructor
  · constructor
    · simpa [stackVector] using hargc
    · exact fun i hi => absurd hi (Nat.not_lt_zero i)
    · exact hargumentsEnd
    · exact fun i hi => absurd hi (Nat.not_lt_zero i)
    · exact henvironmentEnd
  · -- every piece of the vector lies below the top
    obtain ⟨hge, hle⟩ := @vectorEnd_le top (by omega)
    intro x hx
    rw [buildUserStack_eq]
    simp only [copyTexts]
    generalize hstart : (m, vectorEnd top [] []) = start
    have hfirst : start.1 x = m x := by rw [← hstart]
    have hstack : start.2.toNat = (vectorEnd top [] []).toNat := by rw [← hstart]
    have hlen : (auxWords aux).length = 10 := rfl
    obtain ⟨h₁, hm₁⟩ := pushWords_behind (r := start) (auxWords aux) (by rw [hlen]; omega)
    rw [hlen] at h₁
    obtain ⟨h₂, hm₂⟩ := pushWords_behind (r := pushWords start (auxWords aux)) [0]
      (by rw [List.length_singleton]; omega)
    rw [List.length_singleton] at h₂
    obtain ⟨h₃, hm₃⟩ := pushWords_behind (r := pushWords (pushWords start (auxWords aux)) [0])
      (textPointers top []) (by rw [textPointers_length, List.length_nil]; omega)
    rw [textPointers_length, List.length_nil] at h₃
    obtain ⟨h₄, hm₄⟩ := pushWords_behind
      (r := pushWords (pushWords (pushWords start (auxWords aux)) [0]) (textPointers top [])) [0]
      (by rw [List.length_singleton]; omega)
    rw [List.length_singleton] at h₄
    obtain ⟨h₅, hm₅⟩ := pushWords_behind (r := pushWords (pushWords (pushWords (pushWords start
        (auxWords aux)) [0]) (textPointers top [])) [0])
      (textPointers (top - BitVec.ofNat 64 (textSize [])) [])
      (by rw [textPointers_length, List.length_nil]; omega)
    rw [textPointers_length, List.length_nil] at h₅
    obtain ⟨-, hm₆⟩ := pushWords_behind (r := pushWords (pushWords (pushWords (pushWords (pushWords start
        (auxWords aux)) [0]) (textPointers top [])) [0])
        (textPointers (top - BitVec.ofNat 64 (textSize [])) [])) [BitVec.ofNat 64 ([] : List CString).length]
      (by rw [List.length_singleton]; omega)
    rw [hm₆ x (by omega), hm₅ x (by omega), hm₄ x (by omega), hm₃ x (by omega), hm₂ x (by omega),
      hm₁ x (by omega), hfirst]

/-- **The initial stack of a user thread** decodes to the arguments, with nothing written from its top on, if
and only if there are no arguments and no environment. The top is that of a mapped stack, with a page behind
it.
SRCLINE: kernel/sched/scheduler.cpp:50-110 -/
theorem stackCorrect_iff (top : Word) (aux : Aux) (argv envp : List CString) (hbelow : 0x2000 ≤ top.toNat)
    (habove : top.toNat + 0x1000 ≤ 2 ^ 64) : StackCorrect top aux argv envp ↔ argv = [] ∧ envp = [] := by
  constructor
  · intro hcorrect
    by_contra hno
    refine not_stackCorrect aux (by omega) ?_ hcorrect
    intro hnil
    rw [List.append_eq_nil_iff] at hnil
    exact hno ⟨hnil.2, hnil.1⟩
  · rintro ⟨rfl, rfl⟩
    exact stackCorrect_nil aux (by omega)

/-- A program without arguments. -/
theorem stackCorrect_empty : StackCorrect 0x70002000 ⟨0x400000, 0, 56, 2⟩ [] [] :=
  (stackCorrect_iff 0x70002000 ⟨0x400000, 0, 56, 2⟩ [] [] (by decide) (by decide)).mpr ⟨rfl, rfl⟩

/-- The memory of a thread with the argument `sh`, and its stack pointer. -/
def shellStack : Memory × Word := buildUserStack (fun _ => 0) 0x70002000 ⟨0x400000, 0, 56, 2⟩ [shellName] []

/-- The argument `sh` ends behind the top of the stack, and its pointer leads two bytes below it, to a byte
that was there before. -/
theorem stack_misplaces_text :
    shellStack.1 0x70002000 = 0x68 ∧ shellStack.1 (loadWord shellStack.1 (shellStack.2 + 8)).toNat = 0 ∧
    ¬ StackCorrect 0x70002000 ⟨0x400000, 0, 56, 2⟩ [shellName] [] := by
  have hlast : shellStack.1 0x70002000 = 0x68 := by decide
  refine ⟨hlast, by decide, ?_⟩
  intro hcorrect
  have hkept := (hcorrect fun _ => 0).2 0x70002000 (by decide)
  rw [show (buildUserStack _ _ _ _ _).1 0x70002000 = _ from hlast] at hkept
  exact absurd hkept (by decide)

end CrepOS.Analysis
