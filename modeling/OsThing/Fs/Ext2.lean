/-
Reading ext2, `kern/fs/ext2.c`.

The device is a file that could be opened, told by its bytes and by the offset of its
descriptor; a `read` gets all that is asked for.  The fields of the superblock and of the first
group descriptor are taken from the bytes that were read, at the offsets that the structures
of `ext2.h` give them.  An `int` is 32 bits wide, and so is a `long`, which is what `lseek`
takes; sums and products wrap around, and a shift looks at the low five bits of its count.
-/
import OsThing.Kern.Elf

namespace OsThing.Ext2

open Bytes
open Fs (asInt)
open Elf (read16 store)

/-! ### The device -/

structure Disk where
  byte : Nat → UInt8
  offset : UInt32

namespace Disk

variable (d : Disk)

/-- `lseek( fd, offset, 0 )`.  An offset below 0 is refused, and nobody looks at the result. -/
def lseek (offset : UInt32) : Disk :=
  if offset.toInt32 < 0 then d else { d with offset := offset }

/-- The bytes that `read` gets. -/
def bytes (size : UInt32) : List UInt8 :=
  (List.range size.toNat).map fun i => d.byte (d.offset.toNat + i)

/-- The device after `read`. -/
def read (size : UInt32) : Disk := { d with offset := d.offset + size }

end Disk

/-! ### Setup -/

/-- `ext2_sprblk_t` and `ext2_ex_sprblk_t`, as far as they are looked at. -/
structure Sprblk where
  nBlocks : UInt32
  blockSize : UInt32
  nBlockBlockGrp : UInt32
  inodeSize : UInt32

def Sprblk.ofBytes (m : Memory) : Sprblk where
  nBlocks := UInt32.ofNat (read32 m 4)
  blockSize := UInt32.ofNat (read32 m 24)
  nBlockBlockGrp := UInt32.ofNat (read32 m 32)
  inodeSize := UInt32.ofNat (read16 m 88)

/-- `sizeof( ext2_block_desc_t )`. -/
def blockDescSize : UInt32 := 20

structure Ext2Device where
  disk : Disk
  blockGroups : UInt32
  blockSize : UInt32
  sprblk : Sprblk
  /-- The `inode_table_addr` of the first descriptor. -/
  inodeTableAddr : UInt32

/-- `ext2_create_device`, from where the file is open; there is no result if it divides by
zero.  `knew` clears what it gets. -/
def createDevice (disk : Disk) : Option Ext2Device :=
  let disk := disk.lseek 1024
  let sprblk := Sprblk.ofBytes (store (fun _ => 0) (disk.bytes 1024))
  let disk := disk.read 1024
  let blockSize := 1024 <<< sprblk.blockSize
  if sprblk.nBlockBlockGrp = 0 then none
  else
    let blockGroups := sprblk.nBlocks / sprblk.nBlockBlockGrp +
      if sprblk.nBlocks % sprblk.nBlockBlockGrp ≠ 0 then 1 else 0
    let disk := disk.lseek (blockSize * 2)
    let size := blockDescSize * blockGroups
    let blkdesc := store (fun _ => 0) (disk.bytes size)
    some ⟨disk.read size, blockGroups, blockSize, sprblk, UInt32.ofNat (read32 blkdesc 8)⟩

namespace Ext2Device

variable (dev : Ext2Device)

/-! ### Inodes -/

def inodeAddr (inode : UInt32) : UInt32 :=
  dev.blockSize * dev.inodeTableAddr + (inode - 1) * dev.sprblk.inodeSize

/-- The device where `ext2_get_inode` reads. -/
def inodeDisk (inode : UInt32) : Disk := dev.disk.lseek (dev.inodeAddr inode)

/-- `ext2_get_inode`: what goes to `buf`, and the device. -/
def getInode (inode : UInt32) : List UInt8 × Ext2Device :=
  let disk := dev.inodeDisk inode
  (disk.bytes dev.sprblk.inodeSize, { dev with disk := disk.read dev.sprblk.inodeSize })

/-! ### Files -/

/-- `ext2_read_block`: the result, what goes to `buf`, and the device. -/
def readBlock (blockAddr offset size : UInt32) : UInt32 × List UInt8 × Ext2Device :=
  let disk := dev.disk.lseek (dev.blockSize * blockAddr + offset)
  let count := dev.blockSize - offset - (dev.blockSize - size)
  (count, disk.bytes count, { dev with disk := disk.read count })

end Ext2Device

/-- `d_ptr` of `ext2_inode_t`. -/
structure Ext2Inode where
  dPtr : Fin 12 → UInt32

/-- The variables of `ext2_read_inode`, and what it has written to `buf`. -/
structure Reading where
  dev : Ext2Device
  i : UInt32
  total : UInt32
  buf : Nat → Option UInt8

namespace Reading

/-- One turn of the loop: the block at `ptr`.  The `readsize` that is computed before is not
used. -/
def turn (r : Reading) (blockAddr : UInt32) : Reading :=
  let (count, bytes, dev) := r.dev.readBlock blockAddr 0 r.dev.blockSize
  { dev := dev
    i := r.i + r.dev.blockSize
    total := r.total + count
    buf := fun x =>
      if r.i.toNat ≤ x ∧ x < r.i.toNat + bytes.length then bytes[x - r.i.toNat]? else r.buf x }

/-- The loop over the blocks that are left. -/
def loop (size : UInt32) : List UInt32 → Reading → Reading
  | [], r => r
  | blockAddr :: rest, r => if r.i < size then loop size rest (r.turn blockAddr) else r

end Reading

/-- `ext2_read_inode`: the result, what is written to `buf`, and the device. -/
def Ext2Device.readInode (dev : Ext2Device) (inode : Ext2Inode) (size : UInt32) :
    Int × (Nat → Option UInt8) × Ext2Device :=
  let r := Reading.loop size (List.ofFn inode.dPtr) ⟨dev, 0, 0, fun _ => none⟩
  (asInt r.total, r.buf, r.dev)

end OsThing.Ext2
