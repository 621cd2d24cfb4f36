import CrepOS.Model.UserStack

/-!
# The stack that a program expects

`stackVector` are the words that a program finds at its stack pointer: the number of arguments, the pointers
to them, the pointers to the environment, and the auxiliary entries. `Decodes` says that they lead to the
texts, `StackCorrect` that this holds, and that nothing is written from the top of the stack on.
-/

set_option autoImplicit false

namespace CrepOS.Interface

open CrepOS.Library CrepOS.Model

/-- The bytes of the texts, each with its zero byte. -/
def textSize (texts : List CString) : ℕ := (texts.map fun s => s.strlen + 1).sum

/-- The pointers to texts that are put one below the other from `top` on. -/
def textPointers (top : Word) (texts : List CString) : List Word :=
  (List.range texts.length).map fun i => top - BitVec.ofNat 64 (textSize (texts.take (i + 1)))

/-- The auxiliary entries. -/
def auxWords (aux : Aux) : List Word :=
  [22, aux.atPhnum, 21, aux.atPhent, 20, aux.atPhdr, 10, aux.atEntry, 0, 0]

/-- **The vector**: `argc`, the pointers of `argv`, `0`, the pointers of `envp`, `0`, and the auxiliary
entries. The texts of `envp` are above those of `argv`. -/
def stackVector (top : Word) (aux : Aux) (argv envp : List CString) : List Word :=
  BitVec.ofNat 64 argv.length ::
    (textPointers (top - BitVec.ofNat 64 (textSize envp)) argv ++
      0 :: (textPointers top envp ++ 0 :: auxWords aux))

/-- The word that a pointer points to. -/
def loadWord (m : Memory) (p : Word) : Word := BitVec.ofNat 64 (m.word p.toNat 8)

/-- The words from the pointer on. -/
def WordsAt (m : Memory) (p : Word) (ws : List Word) : Prop :=
  ∀ i (hi : i < ws.length), loadWord m (p + 8 * BitVec.ofNat 64 i) = ws[i]

/-- The pointer points to the text. -/
def TextAt (m : Memory) (p : Word) (s : CString) : Prop :=
  (∀ i (hi : i < s.chars.length), m (p + BitVec.ofNat 64 i).toNat = s.chars[i]) ∧
    m (p + BitVec.ofNat 64 s.strlen).toNat = 0

/-- **The stack decodes to the arguments** `argv` and `envp`. -/
structure Decodes (m : Memory) (rsp : Word) (argv envp : List CString) : Prop where
  argc : loadWord m rsp = BitVec.ofNat 64 argv.length
  arguments : ∀ i (hi : i < argv.length), TextAt m (loadWord m (rsp + 8 * BitVec.ofNat 64 (1 + i))) argv[i]
  argumentsEnd : loadWord m (rsp + 8 * BitVec.ofNat 64 (1 + argv.length)) = 0
  environment : ∀ i (hi : i < envp.length),
    TextAt m (loadWord m (rsp + 8 * BitVec.ofNat 64 (2 + argv.length + i))) envp[i]
  environmentEnd : loadWord m (rsp + 8 * BitVec.ofNat 64 (2 + argv.length + envp.length)) = 0

/-- **The stack of a new thread is correct**: whatever the memory contains before, the stack decodes to the
arguments, and no byte at the top or above is written. -/
def StackCorrect (top : Word) (aux : Aux) (argv envp : List CString) : Prop :=
  ∀ m : Memory,
    Decodes (buildUserStack m top aux argv envp).1 (buildUserStack m top aux argv envp).2 argv envp ∧
      ∀ a, top.toNat ≤ a → (buildUserStack m top aux argv envp).1 a = m a

end CrepOS.Interface
