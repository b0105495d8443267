/-
A look at a FAT volume, `test_fatfs` of `kern/fs/fat.c`.

It opens the path with no flags, moves to the volume and reads its boot sector.  The calls are those
of `Fs/Calls`: `a` is the block that `open` gets for its node, and `raw` what memory holds where a
file has no bytes.

The sums are made with 32 bits.  Where the source has an `int` on its way to an `unsigned long`
the result is the same modulo 2^32, and the one division of `int`s is of numbers that are not
negative.  What `sizeof` says is unsigned, and with it the test whether enough was read.
-/
import OsThing.Fs.Calls
import OsThing.Kern.Elf

namespace OsThing.Fat

open Bytes Fs
open Elf (read16)

/-- `fat_bs_t`, which is packed, as far as it is looked at, and the `root_cluster` of the
`fat_extbs_32_t` in its extended section. -/
structure FatBs where
  bytesPerSector : UInt16
  sectorsPerCluster : UInt8
  reservedSectorCount : UInt16
  tableCount : UInt8
  rootEntryCount : UInt16
  totalSectors16 : UInt16
  tableSize16 : UInt16
  rootCluster : UInt32
  deriving DecidableEq

def FatBs.ofBytes (m : Memory) : FatBs where
  bytesPerSector := UInt16.ofNat (read16 m 11)
  sectorsPerCluster := m 13
  reservedSectorCount := UInt16.ofNat (read16 m 14)
  tableCount := m 16
  rootEntryCount := UInt16.ofNat (read16 m 17)
  totalSectors16 := UInt16.ofNat (read16 m 19)
  tableSize16 := UInt16.ofNat (read16 m 22)
  rootCluster := UInt32.ofNat (read32 m 44)

/-- `sizeof( fat_bs_t )`. -/
def fatBsSize : UInt32 := 90

/-- The variables of `test_fatfs` when it prints. -/
structure Geometry where
  rootDirSectors : UInt32
  firstDataSector : UInt32
  dataSectors : UInt32
  totalClusters : UInt32
  fatType : UInt32
  rootCluster : UInt32

/-- What is printed. -/
inductive Report
  | couldNotOpen
  | couldNotRead
  | dump (bytesPerSector : UInt16) (kb : UInt32) (g : Geometry)

namespace FatBs

variable (bs : FatBs)

def rootDirSectors : UInt32 :=
  bs.rootEntryCount.toUInt32 * 32 +
    (bs.bytesPerSector.toUInt32 - 1) / bs.bytesPerSector.toUInt32

def firstDataSector : UInt32 :=
  bs.reservedSectorCount.toUInt32 + bs.tableCount.toUInt32 * bs.tableSize16.toUInt32

def dataSectors : UInt32 :=
  bs.totalSectors16.toUInt32 -
    (bs.reservedSectorCount.toUInt32 + bs.tableCount.toUInt32 * bs.tableSize16.toUInt32) +
    bs.rootDirSectors

def totalClusters : UInt32 := bs.dataSectors / bs.sectorsPerCluster.toUInt32

def fatType : UInt32 :=
  if bs.totalClusters < 4085 then 12 else if bs.totalClusters < 65525 then 16 else 32

def geometry : Geometry where
  rootDirSectors := bs.rootDirSectors
  firstDataSector := bs.firstDataSector
  dataSectors := bs.dataSectors
  totalClusters := bs.totalClusters
  fatType := bs.fatType
  rootCluster := if bs.fatType < 32 then bs.firstDataSector else bs.rootCluster

end FatBs

/-- `test_fatfs`: what it prints, and the files afterwards.  There is no result if it divides by
zero. -/
def testFatfs (fuel t : Nat) (path : Name) (offset : UInt32) (a : Nat) (raw : Nat → UInt8)
    (s : Vfs) : Option (Report × Vfs) :=
  (s.openCall fuel t path 0 a).bind fun (fd, s) =>
    if fd < 0 then some (.couldNotOpen, s)
    else
      let s := (s.lseek t fd offset.toInt32 0).2
      (s.read t fd fatBsSize raw).bind fun (ret, bytes, s) =>
        if ret.toInt32.toUInt32 < fatBsSize then some (.couldNotRead, s)
        else
          let bs := FatBs.ofBytes fun i => bytes.getD i 0
          if bs.bytesPerSector = 0 ∨ bs.sectorsPerCluster = 0 then none
          else
            (s.close t fd).map fun (_, s) =>
              (.dump bs.bytesPerSector (bs.rootDirSectors * bs.bytesPerSector.toUInt32 / 1024)
                bs.geometry, s)

end OsThing.Fat
