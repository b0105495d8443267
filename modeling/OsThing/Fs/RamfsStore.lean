/-
The two chains of `kern/fs/ramfs.c` as they lie in memory.

In `Fs/Ramfs` the headers of a file system are a list, and so are the entries of a
directory.  Here they are what the code has, cells with a `next` pointer, and the calls
that make files run along them: `ramfs_get_file_h` from `ramfs_files`, `ramfs_mkdir_entry`
from the `data` of the directory, and `ramfs_mkdir` and `ramfs_mknod` from the directory
they are given.  No file has any bytes here, so `data` is a pointer to an entry, or null.
-/
import OsThing.Fs.Ramfs
import OsThing.Lib.Cells

namespace OsThing.Fs

open Chain

/-- `ramfs_file_header_t`, without its link. -/
structure HeaderBlock where
  type : Nat
  name : Name := []
  mask : UInt32
  uid : Nat := 0
  gid : Nat := 0
  inode : Nat
  size : UInt32 := 0
  links : Nat := 1
  flags : Nat := 0
  mountId : Nat := 0
  data : Option Nat := none

/-- `ramfs_header_t`, with the cells its pointers lead to. -/
structure RamfsStore where
  headers : Cells HeaderBlock
  dirents : Cells RamfsDirent
  ramfsFiles : Option Nat
  iCount : Nat

namespace RamfsStore

variable (s : RamfsStore)

/-- `ramfs_get_file_h`: a pointer, if there is one that is not null. -/
def getFileH (inode : Nat) : Option Nat :=
  (seek s.headers.next (fun p => (s.headers.val p).inode = inode) s.headers.count
    s.ramfsFiles).join

/-- `ramfs_mkdir_entry`. -/
def mkdirEntry (node : FileNode) (name : Name) (inode : Nat) : Option (Int × RamfsStore) :=
  (s.getFileH node.inode).bind fun filehead =>
    if (s.headers.val filehead).type ≠ FS_DIR then some (-1, s)
    else
      let nlen := name.length + 1
      let dir : RamfsDirent := ⟨inode, UInt32.ofNat (264 + nlen), nlen, name⟩
      let grow := fun (h : HeaderBlock) => { h with size := h.size + dir.size }
      match (s.headers.val filehead).data with
      | none => some (0, { s with
          dirents := s.dirents.alloc dir
          headers := s.headers.modify filehead fun h => grow { h with data := s.dirents.count } })
      | some first => (s.dirents.append first dir).map fun dirents =>
          (0, { s with dirents := dirents, headers := s.headers.modify filehead grow })

/-- What `ramfs_mkdir` and `ramfs_mknod` do alike. -/
def add (node : FileNode) (name : Name) (mode : UInt32) (type : Nat) : Option (Int × RamfsStore) :=
  (s.getFileH node.inode).bind fun filehead =>
    if (s.headers.val filehead).type ≠ FS_DIR then some (-1, s)
    else
      (s.mkdirEntry node name s.iCount).bind fun (_, entered) =>
        (entered.headers.append filehead { type := type, mask := mode, inode := s.iCount }).map
          fun headers => (0, { entered with headers := headers, iCount := s.iCount + 1 })

/-- `ramfs_mkdir`. -/
def mkdir (node : FileNode) (name : Name) (mode : UInt32) : Option (Int × RamfsStore) :=
  s.add node name mode FS_DIR

/-- `ramfs_mknod`. -/
def mknod (node : FileNode) (name : Name) (mode : UInt32) (dev : Nat) :
    Option (Int × RamfsStore) :=
  s.add node name mode dev

/-- `ramfs_open`. -/
def openFile (node : FileNode) (name : Name) (mode : UInt32) : Option (Int × RamfsStore) :=
  (s.getFileH node.inode).bind fun filehead =>
    if (s.headers.val filehead).type = FS_DIR ∧ mode &&& O_CREAT ≠ 0 then
      s.mknod node name 0o777 FS_FILE
    else some (node.inode, s)

/-- `init_ramfs`, with its one header in the first cell. -/
def init : RamfsStore where
  headers :=
    { val := fun _ => { type := FS_DIR, name := ['r', 'o', 'o', 't'], mask := 0o777, inode := 1 }
      next := fun _ => none
      count := 1 }
  dirents := ⟨fun _ => ⟨0, 0, 0, []⟩, fun _ => none, 0⟩
  ramfsFiles := some 0
  iCount := 2

end RamfsStore

/-! ### A run -/

inductive RamfsOp
  | mkdir (node : FileNode) (name : Name) (mode : UInt32)
  | mknod (node : FileNode) (name : Name) (mode : UInt32) (dev : Nat)
  | open (node : FileNode) (name : Name) (mode : UInt32)

def ramfsStep (s : RamfsStore) : RamfsOp → Option RamfsStore
  | .mkdir node name mode => (s.mkdir node name mode).map Prod.snd
  | .mknod node name mode dev => (s.mknod node name mode dev).map Prod.snd
  | .open node name mode => (s.openFile node name mode).map Prod.snd

end OsThing.Fs
