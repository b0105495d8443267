/-
The blocks that the path code of `kern/fs/fs.c` and `kern/fs/ramfs.c` takes for strings and
entries, and what it writes to them.

Four places ask `kmalloc` for a block and fill it: `fs_find_path` and `open` with a copy of a
path, `fs_find_node` with the entries that `ramfs_readdir` gives it, and `ramfs_mkdir_entry`
with the name of an entry.  A block is told by the number of bytes asked for and by the offsets
that are written.  What is written later, a zero for a slash of the copy, lies inside the copy.
-/
import OsThing.Fs.Ramfs
import OsThing.Lib.Ram

namespace OsThing.Fs

open Ram

/-- A block of kernel memory, and the offsets of the bytes that are written. -/
structure Block where
  requested : Nat
  written : List Nat

namespace Block

/-- `kmalloc( size, 0, 0 )`. -/
def kmalloc (size : Nat) : Block := ⟨size, []⟩

/-- `count` bytes are written from `offset` on. -/
def write (b : Block) (offset count : Nat) : Block :=
  { b with written := b.written ++ (List.range count).map (offset + ·) }

/-- `knew`, which clears what it asked for. -/
def knew (size : Nat) : Block := (kmalloc size).write 0 size

/-- Nothing is written outside the bytes asked for. -/
def Fits (b : Block) : Prop := ∀ offset ∈ b.written, offset < b.requested

end Block

/-- `strlen`, of a string that may take all addresses. -/
def stringLength (m : Memory) (a : UInt32) : Option Nat := strlen m (2 ^ 32) a

/-- `kmalloc( strlen( path + 1 ), 0, 0 )`, and the `memcpy` of `strlen( path ) + 1` bytes. -/
def pathCopy (m : Memory) (path : UInt32) : Option Block :=
  (stringLength m (path + 1)).bind fun size =>
    (stringLength m path).map fun length => (Block.kmalloc size).write 0 (length + 1)

/-- The copy that `fs_find_path` makes, where `dot` is the string that stands for no path. -/
def findPathCopy (m : Memory) (dot inputPath : UInt32) : Option Block :=
  (stringLength m inputPath).bind fun length =>
    pathCopy m (if length = 0 then dot else inputPath)

/-- The copy that `open` makes to cut it at its last slash, if the file is not there. -/
def openCopy (m : Memory) (path : UInt32) : Option Block := pathCopy m path

/-- The entry buffer of `fs_find_node`, `sizeof( dir )` bytes for a pointer `dir`, and the
fields that `ramfs_readdir` fills: `inode`, `size`, `name_len` and `name`. -/
def entryBuffer (dirty : RamfsDirent) : Block :=
  ((((Block.kmalloc 4).write 0 4).write 4 2).write 6 2).write 8 dirty.nameLen

/-- `knew( char[ strlen( name )])` in `ramfs_mkdir_entry`, and the `memcpy` of `nlen` bytes. -/
def storedName (m : Memory) (name : UInt32) : Option Block :=
  (stringLength m name).map fun length => (Block.knew length).write 0 (length + 1)

end OsThing.Fs
