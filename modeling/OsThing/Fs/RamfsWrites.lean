/-
What `ramfs_mkdir` and `ramfs_mknod` write, piece by piece.

Both copy the name of the new file to `head->ramfs_files[ i ].name`, where `i` is the number of
the file.  `ramfs_files` points at one header, the first of a chain of headers that are blocks
of their own; so from `i = 1` on this is an address behind it, in a block of something else or
in none.  What the copy does there to the cells is `stray`.

The pieces are written in the order of the list.  Where `stray` breaks the chain of headers the
last loop may not end, and the call does not come back.
-/
import OsThing.Fs.RamfsStore

namespace OsThing.Fs

open Chain

/-- A piece of memory that is written. -/
inductive Piece
  /-- A new entry, with its name. -/
  | entry (dir : Nat)
  /-- `filehead->data`. -/
  | firstEntry (filehead : Nat)
  /-- `next` of an entry. -/
  | nextEntry (dir : Nat)
  /-- `filehead->size`. -/
  | size (filehead : Nat)
  /-- A new header. -/
  | header (file : Nat)
  /-- `next` of a header. -/
  | nextHeader (file : Nat)
  /-- `head->ramfs_i_count`. -/
  | iCount
  /-- `head->ramfs_files[index].name`, of which `count` bytes are written. -/
  | fileName (index count : Nat)

/-- What a call has written, and what it returns with, if it does. -/
structure Written where
  pieces : List Piece
  after : Option (Int × RamfsStore)

namespace RamfsStore

variable (stray : RamfsStore → Nat → Name → RamfsStore) (s : RamfsStore)

/-- `ramfs_mkdir_entry`. -/
def mkdirEntryWrites (node : FileNode) (name : Name) (inode : Nat) :
    Option (List Piece × RamfsStore) :=
  (s.getFileH node.inode).bind fun filehead =>
    if (s.headers.val filehead).type ≠ FS_DIR then some ([], s)
    else
      let nlen := name.length + 1
      let dir : RamfsDirent := ⟨inode, UInt32.ofNat (264 + nlen), nlen, name⟩
      let grow := fun (h : HeaderBlock) => { h with size := h.size + dir.size }
      match (s.headers.val filehead).data with
      | none =>
          some ([.entry s.dirents.count, .firstEntry filehead, .size filehead], { s with
            dirents := s.dirents.alloc dir
            headers := s.headers.modify filehead fun h => grow { h with data := s.dirents.count } })
      | some first => ((s.dirents.alloc dir).lastFrom first).map fun temp =>
          ([.entry s.dirents.count, .nextEntry temp, .size filehead], { s with
            dirents := (s.dirents.alloc dir).link temp s.dirents.count
            headers := s.headers.modify filehead grow })

/-- What `ramfs_mkdir` and `ramfs_mknod` do alike; they copy `count` bytes of the name. -/
def addWrites (node : FileNode) (name : Name) (mode : UInt32) (type count : Nat) :
    Option Written :=
  (s.getFileH node.inode).bind fun filehead =>
    if (s.headers.val filehead).type ≠ FS_DIR then some ⟨[], some (-1, s)⟩
    else
      (s.mkdirEntryWrites node name s.iCount).map fun (pieces, entered) =>
        let new := entered.headers.count
        let temp : HeaderBlock := { type := type, mask := mode, inode := s.iCount }
        let copied := stray { entered with headers := entered.headers.alloc temp } s.iCount
          (name.take count)
        let pieces := pieces ++ [.header new, .fileName s.iCount count]
        match copied.headers.lastFrom filehead with
        | none => ⟨pieces, none⟩
        | some move =>
            { pieces := pieces ++ [.nextHeader move, .iCount]
              after := some (0, { copied with
                headers := copied.headers.link move new, iCount := copied.iCount + 1 }) }

/-- `strlen( name + 1 )`, where `behind` is the length of what lies behind an empty name. -/
def tailLength (name : Name) (behind : Nat) : Nat :=
  if name = [] then behind else name.length - 1

/-- `ramfs_mkdir`. -/
def mkdirWrites (node : FileNode) (name : Name) (mode : UInt32) (behind : Nat) : Option Written :=
  s.addWrites stray node name mode FS_DIR (tailLength name behind)

/-- `ramfs_mknod`. -/
def mknodWrites (node : FileNode) (name : Name) (mode : UInt32) (dev : Nat) : Option Written :=
  s.addWrites stray node name mode dev (name.length + 1)

/-- The name that `ramfs_get_info` gives. -/
def infoName (inode : Nat) : Option Name :=
  (s.getFileH inode).map fun filehead => (s.headers.val filehead).name

end RamfsStore

/-! ### A run -/

inductive AddOp
  | mkdir (node : FileNode) (name : Name) (mode : UInt32) (behind : Nat)
  | mknod (node : FileNode) (name : Name) (mode : UInt32) (dev : Nat)

def AddOp.node : AddOp → FileNode
  | .mkdir node _ _ _ => node
  | .mknod node _ _ _ => node

def AddOp.name : AddOp → Name
  | .mkdir _ name _ _ => name
  | .mknod _ name _ _ => name

def addOpWrites (stray : RamfsStore → Nat → Name → RamfsStore) (s : RamfsStore) :
    AddOp → Option Written
  | .mkdir node name mode behind => s.mkdirWrites stray node name mode behind
  | .mknod node name mode dev => s.mknodWrites stray node name mode dev

def addOpStep (stray : RamfsStore → Nat → Name → RamfsStore) (s : RamfsStore) (op : AddOp) :
    Option RamfsStore :=
  ((addOpWrites stray s op).bind Written.after).map Prod.snd

end OsThing.Fs
