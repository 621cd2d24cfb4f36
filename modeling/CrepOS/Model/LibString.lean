import CrepOS.Library.ByteMemory

/-!
# `lib::string` and the splitting of paths

A `lib::string` is the list of its characters. `find_first` returns `npos` if there is no character to
find, which is `none` here. The body of `splitPath` is the lambda that the constructor of `vfs::node`
and `node::search_absolute` have in common.
-/

set_option autoImplicit false

namespace CrepOS.Model

open CrepOS.Library

/-- `lib::string`.
SRCLINE: kernel/lib/string.hpp:9-45 -/
abbrev LibString := List Byte

/-- The character `/`. -/
abbrev slash : Byte := 47

/-- `string::find_first`.
SRCLINE: kernel/lib/string.cpp:128-134 -/
def LibString.findFirst (s : LibString) (c : Byte) (start : ℕ) : Option ℕ :=
  ((s.drop start).findIdx? (· == c)).map (start + ·)

/-- `string::substr`.
SRCLINE: kernel/lib/string.cpp:168-176 -/
def LibString.substr (s : LibString) (start : ℕ) : Option ℕ → LibString
  | none => s.drop start
  | some size => (s.drop start).take size

/-- Appends a token that is not empty. -/
def pushToken (ret : List LibString) (token : LibString) : List LibString :=
  if token.isEmpty then ret else ret ++ [token]

/-- The loop over the separators, and the last token after it. `fuel` bounds the number of iterations;
the string has fewer separators than `splitPath` provides for.
SRCLINE: kernel/fs/vfs.cpp:30-42, kernel/fs/vfs.cpp:87-97 -/
def splitLoop (s : LibString) (fuel start : ℕ) (stop : Option ℕ) (ret : List LibString) :
    List LibString :=
  match fuel, stop with
  | 0, _ => ret
  | _ + 1, none => pushToken ret (LibString.substr s start none)
  | fuel + 1, some stop =>
    splitLoop s fuel (stop + 1) (LibString.findFirst s slash (stop + 1))
      (pushToken ret (LibString.substr s start (some (stop - start))))

/-- `sub_paths`.
SRCLINE: kernel/fs/vfs.cpp:24-43, kernel/fs/vfs.cpp:81-100 -/
def splitPath (s : LibString) : List LibString :=
  splitLoop s (s.length + 1) 0 (LibString.findFirst s slash 0) []

/-- A leading separator is skipped.
SRCLINE: kernel/fs/vfs.cpp:21-22, kernel/fs/vfs.cpp:78-79 -/
def skipSlash : LibString → LibString
  | [] => []
  | c :: rest => if c = slash then rest else c :: rest

/-! ## The three tokenisers with the sentinel `npos`

`splitLoop` has `none` where the source has `npos`, and bounds the iterations. Here positions and sizes are
`size_t`, `npos` is the largest of them, and there is no result if the iterations do not suffice or a character
behind the string is read. -/

/-- `string::npos`.
SRCLINE: kernel/lib/string.hpp:41 -/
def npos : BitVec 64 := ~~~0

/-- `string::find_first`.
SRCLINE: kernel/lib/string.cpp:128-134 -/
def findFirstPos (s : LibString) (c : Byte) (start : BitVec 64) : BitVec 64 :=
  (LibString.findFirst s c start.toNat).elim npos (BitVec.ofNat 64)

/-- `string::substr`.
SRCLINE: kernel/lib/string.cpp:168-176 -/
def substrAt (s : LibString) (start size : BitVec 64) : Option LibString :=
  let size := if size = npos then BitVec.ofNat 64 s.length - start else size
  if size = 0 then some []
  else if start.toNat + size.toNat ≤ s.length then some ((s.drop start.toNat).take size.toNat)
  else none

/-- The loop, and the last token after it.
SRCLINE: kernel/fs/vfs.cpp:30-42, kernel/fs/vfs.cpp:87-97, kernel/fs/ext2/dir.cpp:43-53 -/
def tokenLoop (s : LibString) (fuel : ℕ) (start stop : BitVec 64) (ret : List LibString) :
    Option (List LibString) :=
  match fuel with
  | 0 => none
  | fuel + 1 =>
    if stop ≠ npos then
      (substrAt s start (stop - start)).bind fun token =>
        tokenLoop s fuel (stop + 1) (findFirstPos s slash (stop + 1)) (pushToken ret token)
    else (substrAt s start stop).map (pushToken ret)

/-- The lambda that the tokenisers have in common. -/
def subPaths (s : LibString) (fuel : ℕ) : Option (List LibString) :=
  tokenLoop s fuel 0 (findFirstPos s slash 0) []

/-- `sub_paths` in the constructor of `vfs::node`.
SRCLINE: kernel/fs/vfs.cpp:20-43 -/
def nodeSubPaths (absolutePath : LibString) (fuel : ℕ) : Option (List LibString) :=
  subPaths (skipSlash absolutePath) fuel

/-- `sub_paths` in `node::search_absolute`, which for the path `/` has returned before.
SRCLINE: kernel/fs/vfs.cpp:78-100 -/
def searchAbsoluteSubPaths (path : LibString) (fuel : ℕ) : Option (List LibString) :=
  subPaths (skipSlash path) fuel

/-- `sub_paths` in the constructor of `ext2::dir`.
SRCLINE: kernel/fs/ext2/dir.cpp:36-56 -/
def dirSubPaths (path : LibString) (fuel : ℕ) : Option (List LibString) :=
  subPaths path fuel

end CrepOS.Model
