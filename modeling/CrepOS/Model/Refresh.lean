import CrepOS.Model.VfsMount

/-!
# The calls of `ext2::fs::refresh_node`

`refreshNode` of `CrepOS.Model.VfsMount` has the nodes that are made. Here the calls are followed: the numbers of the
inodes for which `refresh_node` calls itself, in order. The device is not written, and the nodes that are made do not
matter. The position in a directory is an `uint32_t`. Both the recursion and each loop have fuel, and there is no result
if it is used up.
-/

set_option autoImplicit false

namespace CrepOS.Model

open CrepOS.Library

variable (g : Ext2Super) (heap disk : Memory)

/-- The loop of `refresh_node` from `i` on; `recur` is `refresh_node` for a directory in this one.
SRCLINE: kernel/fs/ext2/ext2.cpp:138-176 -/
def refreshEntries (recur : Inode → Option (List ℕ)) (buffer : Memory) (size : ℕ) : ℕ → ℕ → Option (List ℕ)
  | 0, _ => none
  | fuel + 1, i =>
    if i < size then
      let dirCur := rawDirAt buffer i
      let newInode := readInode g disk dirCur.inode
      let calls :=
        if isDots dirCur.name then some []
        else if newInode.looksLikeDirectory then (recur newInode).map (dirCur.inode :: ·)
        else some []
      calls.bind fun calls =>
        if dirCur.entrySize ≠ expectedSize dirCur.nameLength then some calls
        else (refreshEntries recur buffer size fuel ((i + dirCur.entrySize) % 2 ^ 32)).map (calls ++ ·)
    else some []

/-- `fs::refresh_node`, with a buffer that contained `heap`.
SRCLINE: kernel/fs/ext2/ext2.cpp:134-179 -/
def refreshCalls : ℕ → Inode → Option (List ℕ)
  | 0, _ => none
  | fuel + 1, ino =>
    refreshEntries g disk (refreshCalls fuel) (ino.read g disk 0 ino.size32l heap) ino.size32l fuel 0

end CrepOS.Model
