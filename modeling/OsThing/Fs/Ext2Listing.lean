/-
The listing of a root directory, at the end of `ext2fs_dump_info` of `kern/fs/ext2.c`.

One block of the directory is read to the front of a cleared buffer of five.  The loop goes from
one `ext2_dirent_t` to the next by the length that it finds there, as long as the byte in front
of it is not zero, and the name is printed up to a zero, wherever that is.  What it prints of
the superblock before is left out.
-/
import OsThing.Fs.Ext2

namespace OsThing.Ext2

open Bytes
open Elf (read16 store)

/-- What is printed of a directory entry, and where it is in the buffer. -/
structure Listed where
  offset : Nat
  name : List UInt8
  inode : UInt32
  deriving DecidableEq

/-- A string that `left` bytes of the buffer are left for. -/
def stringAt (m : Memory) : Nat → Nat → Option (List UInt8)
  | 0, _ => none
  | left + 1, a => if m a = 0 then some [] else (stringAt m left (a + 1)).map (m a :: ·)

/-- The loop, in a buffer of `size` bytes.  There is no result if it goes on, or if it looks at
what is outside. -/
def listing (m : Memory) (size : Nat) : Nat → Nat → Option (List Listed)
  | 0, _ => none
  | fuel + 1, dirent =>
      if size ≤ dirent then none
      else if m dirent = 0 then some []
      else if size < dirent + 8 then none
      else
        (stringAt m (size - (dirent + 8)) (dirent + 8)).bind fun name =>
          (listing m size fuel (dirent + read16 m (dirent + 4))).map fun rest =>
            ⟨dirent, name, UInt32.ofNat (read32 m dirent)⟩ :: rest

/-- `d_ptr` of an inode that was read. -/
def Ext2Inode.ofBytes (m : Memory) : Ext2Inode where
  dPtr := fun p => UInt32.ofNat (read32 m (40 + 4 * p))

/-- The rest of `ext2fs_dump_info`, from where the device is set up. -/
def Ext2Device.dumpInfo (dev : Ext2Device) (fuel : Nat) : Option (List Listed) :=
  let (bytes, dev) := dev.getInode 2
  let inode := Ext2Inode.ofBytes (store (fun _ => 0) bytes)
  let (_, buf, _) := dev.readInode inode dev.blockSize
  listing (fun x => (buf x).getD 0) (dev.blockSize * 5).toNat fuel 0

/-- The cleared buffer after a block was read to it. -/
def dirBuffer (block : List UInt8) : Memory := fun x => block.getD x 0

end OsThing.Ext2
