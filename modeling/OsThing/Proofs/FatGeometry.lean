/-
The geometry of a FAT volume.

The entries of the root directory take 32 bytes each, and as many sectors as these come to,
rounded up.  `test_fatfs` puts the brackets so that it adds the rounded-up 1 to the number of
bytes instead, and the division gives 0; and it adds the sectors of the directory to those of
the data, where it has to take them away.  Both does not show where there are no entries.

None of this is ever printed: `open` is called without flags, and `check_perms` allows no
operation then.
-/
import OsThing.Fs.Fat
import OsThing.Proofs.FileCommands

namespace OsThing.Fs

/-- Without flags nothing is opened. -/
theorem open_flagless {s : Vfs} {fuel t a : Nat} {path : Name} {r : Int × Vfs}
    (h : s.openCall fuel t path 0 a = some r) : r.1 < 0 := by
  have hnever : ∀ (s₁ : Vfs) task node, checkPerms s₁ task node 0 ≠ some true := by
    intro s₁ task node hperms
    unfold checkPerms at hperms
    obtain ⟨info, -, hgood⟩ := Option.map_eq_some_iff.mp hperms
    exact (of_decide_eq_true hgood).1 rfl
  obtain ⟨err, s₀, hfile, -, -, ⟨-, hret, -⟩ | ⟨herr, -⟩⟩ := open_cases h
  · exact hret
  · cases openFile_ends hfile with
    | lost found hlost hfind => exact absurd hlost (Int.not_lt.mpr herr)
    | refused e found he hrefused hfind hperms =>
        rw [hrefused] at herr
        exact absurd herr (by decide)
    | opened e found s₁ he hend hfind hperms hopen => exact absurd hperms (hnever _ _ _)
    | made e ret s₁ s₂ he hret hfind hperms hopen hlast => exact absurd hperms (hnever _ _ _)

end OsThing.Fs

namespace OsThing.Fat

open Fs Runs

/-! ### What is right -/

namespace FatBs

variable (bs : FatBs)

/-- The sectors in front of the data, less those of the root directory. -/
def tableSectors : Nat :=
  bs.reservedSectorCount.toNat + bs.tableCount.toNat * bs.tableSize16.toNat

/-- The sectors that the entries of the root directory take, rounded up. -/
def dirSectors : Nat :=
  (bs.rootEntryCount.toNat * 32 + (bs.bytesPerSector.toNat - 1)) / bs.bytesPerSector.toNat

def volumeSectors : Nat := bs.totalSectors16.toNat - (bs.tableSectors + bs.dirSectors)

/-- The fields are those of a volume, which has a sector for data. -/
structure IsVolume : Prop where
  bytesPerSector : bs.bytesPerSector ≠ 0
  sectorsPerCluster : bs.sectorsPerCluster ≠ 0
  data : bs.tableSectors + bs.dirSectors < bs.totalSectors16.toNat

end FatBs

/-- The type of a volume with so many clusters. -/
def typeOf (clusters : Nat) : UInt32 :=
  if clusters < 4085 then 12 else if clusters < 65525 then 16 else 32

structure Geometry.Right (g : Geometry) (bs : FatBs) : Prop where
  rootDirSectors : g.rootDirSectors.toNat = bs.dirSectors
  dataSectors : g.dataSectors.toNat = bs.volumeSectors
  fatType : g.fatType = typeOf (bs.volumeSectors / bs.sectorsPerCluster.toNat)

/-! ### What is computed -/

namespace FatBs

variable {bs : FatBs}

theorem IsVolume.bytes_pos (h : bs.IsVolume) : 0 < bs.bytesPerSector.toNat :=
  Nat.pos_of_ne_zero fun hzero => h.bytesPerSector (UInt16.toNat_inj.mp hzero)

/-- The division comes to nothing. -/
theorem toNat_rootDirSectors (h : bs.IsVolume) :
    bs.rootDirSectors.toNat = bs.rootEntryCount.toNat * 32 := by
  have hpos := h.bytes_pos
  have hbytes := bs.bytesPerSector.toNat_lt
  have hroot := bs.rootEntryCount.toNat_lt
  have hdiv : (bs.bytesPerSector.toNat - 1) / bs.bytesPerSector.toNat = 0 :=
    Nat.div_eq_of_lt (by omega)
  have hless : (bs.bytesPerSector.toUInt32 - 1).toNat = bs.bytesPerSector.toNat - 1 := by
    rw [UInt32.toNat_sub_of_le]
    · rw [UInt16.toNat_toUInt32]
      rfl
    · rw [UInt32.le_iff_toNat_le, UInt16.toNat_toUInt32]
      exact hpos
  unfold rootDirSectors
  rw [UInt32.toNat_add, UInt32.toNat_div, hless, UInt32.toNat_mul]
  simp only [UInt16.toNat_toUInt32, UInt32.reduceToNat, hdiv]
  omega

theorem toNat_tableSectors (bs : FatBs) : (bs.reservedSectorCount.toUInt32 +
    bs.tableCount.toUInt32 * bs.tableSize16.toUInt32).toNat = bs.tableSectors := by
  have hreserved := bs.reservedSectorCount.toNat_lt
  have hcount := bs.tableCount.toNat_lt
  have hsize := bs.tableSize16.toNat_lt
  have hproduct : bs.tableCount.toNat * bs.tableSize16.toNat ≤ 2 ^ 8 * 2 ^ 16 :=
    Nat.mul_le_mul (Nat.le_of_lt hcount) (Nat.le_of_lt hsize)
  unfold tableSectors
  rw [UInt32.toNat_add, UInt32.toNat_mul]
  simp only [UInt16.toNat_toUInt32, UInt8.toNat_toUInt32]
  omega

/-- The sectors of the directory are added, and 32 times as many. -/
theorem toNat_dataSectors (h : bs.IsVolume) : bs.dataSectors.toNat =
    bs.totalSectors16.toNat - bs.tableSectors + bs.rootEntryCount.toNat * 32 := by
  have htables := toNat_tableSectors bs
  have hdata := h.data
  have htotal := bs.totalSectors16.toNat_lt
  have hroot := bs.rootEntryCount.toNat_lt
  have hle : bs.reservedSectorCount.toUInt32 + bs.tableCount.toUInt32 * bs.tableSize16.toUInt32 ≤
      bs.totalSectors16.toUInt32 := by
    rw [UInt32.le_iff_toNat_le, htables, UInt16.toNat_toUInt32]
    omega
  unfold dataSectors
  rw [UInt32.toNat_add, UInt32.toNat_sub_of_le _ _ hle, htables, toNat_rootDirSectors h,
    UInt16.toNat_toUInt32]
  omega

theorem fatType_eq (bs : FatBs) :
    bs.fatType = typeOf (bs.dataSectors.toNat / bs.sectorsPerCluster.toNat) := by
  have hclusters : bs.totalClusters.toNat =
      bs.dataSectors.toNat / bs.sectorsPerCluster.toNat := by
    rw [totalClusters, UInt32.toNat_div, UInt8.toNat_toUInt32]
  unfold fatType typeOf
  rw [← hclusters]
  simp only [UInt32.lt_iff_toNat_lt]
  rfl

theorem dirSectors_eq_zero (hroot : bs.rootEntryCount = 0) (h : bs.IsVolume) :
    bs.dirSectors = 0 := by
  have hpos := h.bytes_pos
  rw [dirSectors, hroot, UInt16.toNat_zero, Nat.zero_mul, Nat.zero_add]
  exact Nat.div_eq_of_lt (by omega)

end FatBs

open FatBs

theorem Geometry.right_iff {bs : FatBs} (h : bs.IsVolume) :
    bs.geometry.Right bs ↔ bs.rootEntryCount = 0 := by
  have hdata := toNat_dataSectors h
  constructor
  · intro hright
    have hsectors : bs.dataSectors.toNat = bs.volumeSectors := hright.dataSectors
    have hzero : bs.rootEntryCount.toNat = 0 := by
      unfold volumeSectors at hsectors
      have := h.data
      omega
    exact UInt16.toNat_inj.mp hzero
  · intro hroot
    have hdir := dirSectors_eq_zero hroot h
    have hsectors : bs.dataSectors.toNat = bs.volumeSectors := by
      rw [hdata, hroot, volumeSectors, hdir]
      rfl
    refine ⟨?_, hsectors, ?_⟩
    · show bs.rootDirSectors.toNat = bs.dirSectors
      rw [toNat_rootDirSectors h, hroot, hdir]
      rfl
    · show bs.fatType = _
      rw [fatType_eq, hsectors]

/-! ### What is printed -/

/-- `test_fatfs` prints the right geometry of the volume. -/
def Measures (fuel t : Nat) (path : Name) (offset : UInt32) (a : Nat) (raw : Nat → UInt8) (s : Vfs)
    (bs : FatBs) : Prop :=
  ∃ bytesPerSector kb g s',
    testFatfs fuel t path offset a raw s = some (.dump bytesPerSector kb g, s') ∧ g.Right bs

/-- The path is not opened, so nothing is read. -/
theorem testFatfs_eq (fuel t : Nat) (path : Name) (offset : UInt32) (a : Nat) (raw : Nat → UInt8)
    (s : Vfs) : testFatfs fuel t path offset a raw s =
      (s.openCall fuel t path 0 a).map fun (_, s) => (.couldNotOpen, s) := by
  unfold testFatfs
  cases hopen : s.openCall fuel t path 0 a with
  | none => rfl
  | some r => exact if_pos (open_flagless hopen)

theorem not_measures (fuel t : Nat) (path : Name) (offset : UInt32) (a : Nat) (raw : Nat → UInt8)
    (s : Vfs) (bs : FatBs) : ¬ Measures fuel t path offset a raw s bs := by
  rintro ⟨_, _, _, _, htest, -⟩
  rw [testFatfs_eq] at htest
  obtain ⟨r, -, hr⟩ := Option.map_eq_some_iff.mp htest
  cases hr

/--
**No geometry is computed.**  Whatever the path leads to, for every volume, offset and state of the
files: `test_fatfs` gives up as soon as `open` comes back, and never prints the right geometry.
-/
theorem fat_geometry_never (fuel t : Nat) (path : Name) (offset : UInt32) (a : Nat)
    (raw : Nat → UInt8) (s : Vfs) (bs : FatBs) :
    (∀ fd s', s.openCall fuel t path 0 a = some (fd, s') →
      testFatfs fuel t path offset a raw s = some (.couldNotOpen, s')) ∧
      ¬ Measures fuel t path offset a raw s bs := by
  refine ⟨fun fd s' hopen => ?_, not_measures _ _ _ _ _ _ _ _⟩
  rw [testFatfs_eq, hopen]
  rfl

/-- The boot sector of a floppy disk of 2880 sectors with 224 entries in its root directory. -/
def floppy : Nat → UInt8 := fun a =>
  [0, 0, 0, 0, 0, 0, 0, 0, 0, 0, 0, 0x00, 0x02, 1, 1, 0, 2, 224, 0, 0x40, 0x0b, 0xf0, 9, 0].getD a 0

/-- **The floppy disk is there to be read, and is not opened.** -/
theorem floppy_not_measured : ∃ s f, runAll (vfsStep 4) (Vfs.boot [0x1000] 0x1000 0x2000)
    [⟨0, .open ['f'] 68 0x3000⟩, ⟨0, .write 0 floppy (fun _ => 0) 90⟩, ⟨0, .close 0⟩] = some s ∧
      CanRead s 4 0 ['f'] ⟨2, 0x1000⟩ f 0 ∧ f.size = 90 ∧
      ofBytes (f.data.byte fun _ => 0) = ofBytes floppy ∧ (ofBytes floppy).IsVolume ∧
      (∃ s', testFatfs 4 0 ['f'] 0 0x3000 (fun _ => 0) s = some (.couldNotOpen, s')) ∧
      ¬ Measures 4 0 ['f'] 0 0x3000 (fun _ => 0) s (ofBytes floppy) := by
  have hfacts : (runAll (vfsStep 4) (Vfs.boot [0x1000] 0x1000 0x2000)
      [⟨0, .open ['f'] 68 0x3000⟩, ⟨0, .write 0 floppy (fun _ => 0) 90⟩, ⟨0, .close 0⟩]).map
        (fun s => (fsFindPath s 4 0 ['f'] ⟨0, 0⟩, (s.tasks 0).fileCount, (s.tasks 0).freeSlot,
          (s.openCall 4 0 ['f'] 0 0x3000).isSome)) =
      some (.ok (0, ⟨2, 0x1000⟩), 0, some 0, true) := by
    decide
  have hfile : (runAll (vfsStep 4) (Vfs.boot [0x1000] 0x1000 0x2000)
      [⟨0, .open ['f'] 68 0x3000⟩, ⟨0, .write 0 floppy (fun _ => 0) 90⟩, ⟨0, .close 0⟩]).map
        (fun s => (s.header ⟨2, 0x1000⟩).map fun f => (f.size, ofBytes (f.data.byte fun _ => 0),
          goodOp ((s.tasks 0).perms f.uid f.gid f.mask) O_RDONLY)) =
      some (some (90, ofBytes floppy, true)) := by
    decide
  obtain ⟨s, hrun, hfacts⟩ := Option.map_eq_some_iff.mp hfacts
  simp only [Prod.mk.injEq] at hfacts
  obtain ⟨hfind, hcount, hslot, hopens⟩ := hfacts
  rw [hrun, Option.map_some] at hfile
  obtain ⟨f, hf, hfile⟩ := Option.map_eq_some_iff.mp (Option.some.inj hfile)
  simp only [Prod.mk.injEq] at hfile
  obtain ⟨hsize, hbytes, hgood⟩ := hfile
  obtain ⟨r, hopen⟩ := Option.isSome_iff_exists.mp hopens
  have htest : testFatfs 4 0 ['f'] 0 0x3000 (fun _ => 0) s = some (.couldNotOpen, r.2) := by
    rw [testFatfs_eq, hopen, Option.map_some]
  exact ⟨s, f, hrun, ⟨hfind, hf, hgood, by rw [hcount]; decide, hslot⟩, hsize, hbytes,
    ⟨by decide, by decide, by decide⟩, ⟨_, htest⟩, not_measures _ _ _ _ _ _ _ _⟩

end OsThing.Fat
