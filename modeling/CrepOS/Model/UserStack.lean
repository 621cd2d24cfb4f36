import CrepOS.Library.ByteBuffers
import CrepOS.Model.Scheduler

/-!
# The stack of a new user thread, `sched/scheduler.cpp`

`create_thread` copies the texts of `envp` and `argv` to the top of the new stack, and puts the vector of the
program below them. A pointer is a word, and the byte that it points to is the one at its number; the vector
is aligned, so that none of its words goes past the last address. Here the memory is an argument and a result;
`userStackPointer` has the stack pointer alone.
-/

set_option autoImplicit false

namespace CrepOS.Model

open CrepOS.Library

/-- A text that ends with a zero byte: the bytes before that, none of which is zero. -/
structure CString where
  chars : List Byte
  nonzero : 0 ∉ chars

/-- `strlen`.
SRCLINE: kernel/lib/memutils.cpp:57-65 -/
def CString.strlen (s : CString) : ℕ := s.chars.length

/-- The loop of `strcpy`, and the zero byte at the end.
SRCLINE: kernel/lib/memutils.cpp:88-97 -/
def strcpy (m : Memory) (dest : Word) : List Byte → Memory
  | [] => Function.update m dest.toNat 0
  | c :: src => strcpy (Function.update m dest.toNat c) (dest + 1) src

/-- `elf::aux`.
SRCLINE: kernel/lib/elf.hpp:24-29 -/
structure Aux where
  atEntry : Word
  atPhdr : Word
  atPhent : Word
  atPhnum : Word
  deriving DecidableEq

/-- An assignment through a `uint64_t*`. -/
def storeWord (m : Memory) (p w : Word) : Memory := m.setWord p.toNat 8 w.toNat

/-- The assignments to `stack[0]`, `stack[1]` and so on. -/
def storeWords (m : Memory) (p : Word) : List Word → Memory
  | [] => m
  | w :: ws => storeWords (storeWord m p w) (p + 8) ws

/-- The loops that copy the texts: the memory and `stack`.
SRCLINE: kernel/sched/scheduler.cpp:62-74 -/
def copyTexts : Memory → Word → List CString → Memory × Word
  | m, stack, [] => (m, stack)
  | m, stack, element :: rest =>
    let stack := stack - BitVec.ofNat 64 element.strlen + 1
    copyTexts (strcpy m stack element.chars) stack rest

/-- The loops that store the pointers from `p` on: the memory and `save`.
SRCLINE: kernel/sched/scheduler.cpp:94-97, 102-105 -/
def storePointers : Memory → Word → Word → List CString → Memory × Word
  | m, _, save, [] => (m, save)
  | m, p, save, element :: rest =>
    let save := save - (BitVec.ofNat 64 element.strlen + 1)
    storePointers (storeWord m p save) (p + 8) save rest

/-- The stack of a user thread below `top`: the memory and `rsp`.
SRCLINE: kernel/sched/scheduler.cpp:54-109, kernel/lib/elf.hpp:31-34 -/
def buildUserStack (m : Memory) (top : Word) (aux : Aux) (argv envp : List CString) : Memory × Word :=
  let (m, stack) := copyTexts m top envp
  let (m, stack) := copyTexts m stack argv
  let stack := stack - (stack &&& 0xf#64)
  let stack := if (argv.length + envp.length + 1) % 2 = 1 then stack - 8 else stack
  let stack := stack - 80
  let m := storeWords m stack
    [22, aux.atPhnum, 21, aux.atPhent, 20, aux.atPhdr, 10, aux.atEntry, 0, 0]
  let stack := stack - 8
  let m := storeWord m stack 0
  let stack := stack - 8 * BitVec.ofNat 64 envp.length
  let (m, save) := storePointers m stack top envp
  let stack := stack - 8
  let m := storeWord m stack 0
  let stack := stack - 8 * BitVec.ofNat 64 argv.length
  let (m, _) := storePointers m stack save argv
  let stack := stack - 8
  let m := storeWord m stack (BitVec.ofNat 64 argv.length)
  (m, stack)

end CrepOS.Model
