/-
Where `ext2_get_inode` reads.

It takes the inode table of the first descriptor for all of them, and `ext2_create_device` takes
the descriptors to be in block 2, where they are if the block size is 1024 only.  So the right
address comes out if what the word there names is as many whole tables before the table of the
group as there are groups before it.  An address from 2^31 on is refused by `lseek`, and then it
is left to chance where the read is.
-/
import OsThing.Fs.Ext2
import OsThing.Proofs.Executables
import Mathlib.Data.Nat.ModEq

namespace OsThing.Ext2

open Bytes
open Fs (Vfs asInt asInt_eq)
open Elf (OpenFile Shows read16 store)

/-! ### The device -/

namespace Disk

variable {d : Disk} {o : UInt32}

theorem toInt32_neg_iff (o : UInt32) : o.toInt32 < 0 ↔ 2 ^ 31 ≤ o.toNat := by
  have hlt := o.toNat_lt
  rw [Int32.lt_iff_toInt_lt]
  show asInt o < 0 ↔ _
  rw [asInt_eq]
  split <;> omega

theorem lseek_of_lt (h : o.toNat < 2 ^ 31) : d.lseek o = { d with offset := o } :=
  if_neg (mt (toInt32_neg_iff o).mp (Nat.not_le.mpr h))

theorem lseek_of_ge (h : 2 ^ 31 ≤ o.toNat) : d.lseek o = d := if_pos ((toInt32_neg_iff o).mpr h)

@[simp] theorem lseek_byte (d : Disk) (o : UInt32) : (d.lseek o).byte = d.byte := by
  unfold lseek
  split
  · rfl
  · rfl

/-- A read is at one place wherever the descriptor was before, if this place is asked for and is
not refused. -/
theorem lands_iff (byte : Memory) (o : UInt32) (x : Nat) :
    (∀ now, ((⟨byte, now⟩ : Disk).lseek o).offset.toNat = x) ↔ o.toNat = x ∧ x < 2 ^ 31 := by
  by_cases ho : o.toNat < 2 ^ 31
  · simp only [lseek_of_lt ho, forall_const]
    omega
  · simp only [lseek_of_ge (Nat.not_lt.mp ho)]
    refine iff_of_false ?_ (by omega)
    intro h
    have hzero := h 0
    have hone := h 1
    simp at hzero hone
    omega

/-- What a read puts into a cleared block. -/
theorem store_bytes (d : Disk) {n : UInt32} {i : Nat} (hi : i < n.toNat) :
    store (fun _ => 0) (d.bytes n) i = d.byte (d.offset.toNat + i) := by
  simp [store, bytes, hi]

theorem read32_bytes (d : Disk) {n : UInt32} {a : Nat} (ha : a + 4 ≤ n.toNat) :
    read32 (store (fun _ => 0) (d.bytes n)) a = read32 d.byte (d.offset.toNat + a) := by
  unfold read32
  rw [store_bytes d (by omega), store_bytes d (by omega), store_bytes d (by omega),
    store_bytes d (by omega)]
  simp only [Nat.add_assoc]

theorem read16_bytes (d : Disk) {n : UInt32} {a : Nat} (ha : a + 2 ≤ n.toNat) :
    read16 (store (fun _ => 0) (d.bytes n)) a = read16 d.byte (d.offset.toNat + a) := by
  unfold read16
  rw [store_bytes d (by omega), store_bytes d (by omega)]
  simp only [Nat.add_assoc]

end Disk

/-- **The device is what `lseek` and `read` make of a file.**  On a file that goes on to the end
of what is read, the two calls give the bytes of the device, and leave its offset. -/
theorem shows_readAt {s : Vfs} {t : Nat} {fd : Int} {raw : Nat → UInt8} {f : OpenFile}
    (h : Shows s t fd raw f) (o n : UInt32)
    (hend : ((⟨f.byte, f.offset⟩ : Disk).lseek o).offset.toNat + n.toNat ≤ f.size) :
    ∃ s', (s.lseek t fd o.toInt32 0).2.read t fd n raw =
        some (asInt n, ((⟨f.byte, f.offset⟩ : Disk).lseek o).bytes n, s') ∧
      Shows s' t fd raw
        ⟨f.size, f.byte, (((⟨f.byte, f.offset⟩ : Disk).lseek o).read n).offset⟩ := by
  obtain ⟨s', hread, hshows⟩ := (h.lseek o.toInt32).read n
  have hseek : f.seek o.toInt32 =
      ⟨f.size, f.byte, ((⟨f.byte, f.offset⟩ : Disk).lseek o).offset⟩ := by
    unfold OpenFile.seek Disk.lseek
    split
    · rfl
    · rfl
  have hcount : (f.seek o.toInt32).count n.toNat = n.toNat := by
    rw [hseek]
    exact Nat.min_eq_left (by simp only; omega)
  rw [hcount, UInt32.ofNat_toNat] at hread
  refine ⟨s', ?_, ?_⟩
  · rw [hread, OpenFile.bytes, hcount, hseek]
    simp [Disk.bytes]
  · rw [OpenFile.read, hcount, hseek, UInt32.ofNat_toNat] at hshows
    exact hshows

/-! ### Images -/

structure Image where
  byte : Memory

namespace Image

variable (img : Image)

def nInodes : Nat := read32 img.byte 1024
def nBlocks : Nat := read32 img.byte 1028
def logBlockSize : Nat := read32 img.byte 1048
def blocksPerGroup : Nat := read32 img.byte 1056
def inodesPerGroup : Nat := read32 img.byte 1064
def inodeSize : Nat := read16 img.byte 1112

def blockSize : Nat := 1024 * 2 ^ img.logBlockSize

/-- The block of the superblock. -/
def firstBlock : Nat := if img.logBlockSize = 0 then 1 else 0

def groups : Nat :=
  (img.nBlocks - img.firstBlock + img.blocksPerGroup - 1) / img.blocksPerGroup

/-- Where the group descriptors begin, in the block after that of the superblock. -/
def descriptors : Nat := img.blockSize * (img.firstBlock + 1)

/-- The first block of the inode table of a group. -/
def inodeTable (g : Nat) : Nat := read32 img.byte (img.descriptors + 32 * g + 8)

def groupOf (n : Nat) : Nat := (n - 1) / img.inodesPerGroup

/-- Where an inode lies. -/
def inodeAddress (n : Nat) : Nat :=
  img.blockSize * img.inodeTable (img.groupOf n) + (n - 1) % img.inodesPerGroup * img.inodeSize

/-- Each inode is in one of the groups, and their tables come after the descriptors. -/
structure IsExt2 : Prop where
  inodes : img.nInodes ≤ img.groups * img.inodesPerGroup
  tables : ∀ g < img.groups,
    img.descriptors + 32 * img.groups ≤ img.blockSize * img.inodeTable g

/-- The word at byte 8 of block 2. -/
def blockTwoWord : Nat := read32 img.byte (img.blockSize * 2 + 8)

/-- The inode lies below byte 2^31, and what the word in block 2 names is as many tables before
the one of its group as there are groups before it. -/
structure Reaches (n : Nat) : Prop where
  low : img.inodeAddress n < 2 ^ 31
  table : img.blockSize * img.blockTwoWord +
      img.groupOf n * (img.inodesPerGroup * img.inodeSize) ≡
    img.blockSize * img.inodeTable (img.groupOf n) [MOD 2 ^ 32]

end Image

/-- Setup does not divide by zero, and each inode is read where it lies, wherever the descriptor
of the device was set before. -/
structure LooksUp (img : Image) (n : Nat) : Prop where
  setup : ∀ offset, createDevice ⟨img.byte, offset⟩ ≠ none
  address : img.IsExt2 → 1 ≤ n → n ≤ img.nInodes →
    ∀ offset dev, createDevice ⟨img.byte, offset⟩ = some dev → ∀ now,
      ({ dev with disk := ⟨img.byte, now⟩ }.inodeDisk (UInt32.ofNat n)).offset.toNat =
        img.inodeAddress n

/-! ### Setup -/

namespace Image

variable (img : Image)

/-- What is read of the superblock. -/
def sprblk : Sprblk where
  nBlocks := UInt32.ofNat img.nBlocks
  blockSize := UInt32.ofNat img.logBlockSize
  nBlockBlockGrp := UInt32.ofNat img.blocksPerGroup
  inodeSize := UInt32.ofNat img.inodeSize

theorem sprblk_eq (offset : UInt32) :
    Sprblk.ofBytes (store (fun _ => 0) (((⟨img.byte, offset⟩ : Disk).lseek 1024).bytes 1024)) =
      img.sprblk := by
  rw [Disk.lseek_of_lt (by decide)]
  unfold Sprblk.ofBytes
  rw [Disk.read32_bytes _ (by decide), Disk.read32_bytes _ (by decide),
    Disk.read32_bytes _ (by decide), Disk.read16_bytes _ (by decide)]
  rfl

/-- `block_groups`. -/
def blockGroups : UInt32 :=
  img.sprblk.nBlocks / img.sprblk.nBlockBlockGrp +
    if img.sprblk.nBlocks % img.sprblk.nBlockBlockGrp ≠ 0 then 1 else 0

/-- The device where the descriptors are read. -/
def descDisk : Disk := (⟨img.byte, 2048⟩ : Disk).lseek ((1024 <<< img.sprblk.blockSize) * 2)

/-- What setup makes of the image. -/
def device : Ext2Device where
  disk := img.descDisk.read (blockDescSize * img.blockGroups)
  blockGroups := img.blockGroups
  blockSize := 1024 <<< img.sprblk.blockSize
  sprblk := img.sprblk
  inodeTableAddr := UInt32.ofNat
    (read32 (store (fun _ => 0) (img.descDisk.bytes (blockDescSize * img.blockGroups))) 8)

theorem createDevice_eq (offset : UInt32) :
    createDevice ⟨img.byte, offset⟩ =
      if img.sprblk.nBlockBlockGrp = 0 then none else some img.device := by
  have hseek : (⟨img.byte, offset⟩ : Disk).lseek 1024 = ⟨img.byte, 1024⟩ :=
    Disk.lseek_of_lt (by decide)
  have hread : (⟨img.byte, 1024⟩ : Disk).read 1024 = ⟨img.byte, 2048⟩ := rfl
  unfold createDevice
  simp only [sprblk_eq]
  simp only [hseek, hread]
  rfl

/-- **Setup divides by zero just if there is a zero in the superblock for the blocks of a
group.** -/
theorem createDevice_none_iff (offset : UInt32) :
    createDevice ⟨img.byte, offset⟩ = none ↔ img.blocksPerGroup = 0 := by
  have hlt : img.blocksPerGroup < 2 ^ 32 := read32_lt _ _
  have hzero : img.sprblk.nBlockBlockGrp = 0 ↔ img.blocksPerGroup = 0 := by
    rw [← UInt32.toNat_inj]
    show (UInt32.ofNat img.blocksPerGroup).toNat = 0 ↔ _
    rw [UInt32.toNat_ofNat_of_lt' hlt]
  rw [createDevice_eq, ← hzero]
  by_cases h : img.sprblk.nBlockBlockGrp = 0
  · simp [h]
  · simp [h]

end Image

/-! ### A block size that is an `int` -/

section Low

variable {img : Image} {n : Nat}

theorem groupOf_lt (himg : img.IsExt2) (hpos : 1 ≤ n) (hn : n ≤ img.nInodes) :
    img.groupOf n < img.groups := by
  have hall : n - 1 < img.groups * img.inodesPerGroup := by
    have := himg.inodes
    omega
  exact Nat.div_lt_of_lt_mul (Nat.mul_comm _ _ ▸ hall)

/-- The block that comes after the descriptors is not the first one. -/
theorem blockSize_low (himg : img.IsExt2) (hpos : 1 ≤ n) (hn : n ≤ img.nInodes)
    (hlow : img.inodeAddress n < 2 ^ 31) :
    img.blockSize * 2 < 2 ^ 31 ∧ 32 * img.groups < 2 ^ 31 := by
  have hgroup := groupOf_lt himg hpos hn
  have htable := himg.tables _ hgroup
  have hle : img.blockSize * img.inodeTable (img.groupOf n) ≤ img.inodeAddress n :=
    Nat.le_add_right _ _
  refine ⟨?_, by omega⟩
  have hsize : img.blockSize ≤ img.descriptors := Nat.le_mul_of_pos_right _ (Nat.succ_pos _)
  have htwo : 2 ≤ img.inodeTable (img.groupOf n) := by
    by_contra h
    have hone : img.inodeTable (img.groupOf n) ≤ 1 := by omega
    have := Nat.mul_le_mul_left img.blockSize hone
    omega
  have := Nat.mul_le_mul_left img.blockSize htwo
  omega

/-- The shift gives the block size. -/
theorem toNat_blockSize (hlow : img.blockSize * 2 < 2 ^ 31) :
    img.device.blockSize.toNat = img.blockSize := by
  have hlog : img.logBlockSize < 20 := by
    have hpow : 2 ^ img.logBlockSize < 2 ^ 20 := by
      unfold Image.blockSize at hlow
      omega
    exact (Nat.pow_lt_pow_iff_right (by decide)).mp hpow
  have hlt : img.logBlockSize < 2 ^ 32 := read32_lt _ _
  show (1024 <<< UInt32.ofNat img.logBlockSize : UInt32).toNat = 1024 * 2 ^ img.logBlockSize
  rw [UInt32.toNat_shiftLeft, UInt32.toNat_ofNat_of_lt' hlt, 
    Nat.mod_eq_of_lt (show img.logBlockSize < 32 by omega), Nat.shiftLeft_eq]
  apply Nat.mod_eq_of_lt
  unfold Image.blockSize at hlow
  show 1024 * 2 ^ img.logBlockSize < 2 ^ 32
  omega

/-- Setup counts the groups of all blocks, the first one included. -/
theorem toNat_blockGroups (hlow : img.nBlocks / img.blocksPerGroup + 1 < 2 ^ 32) :
    img.blockGroups.toNat = img.nBlocks / img.blocksPerGroup +
      if img.nBlocks % img.blocksPerGroup ≠ 0 then 1 else 0 := by
  have hblocks : (UInt32.ofNat img.nBlocks).toNat = img.nBlocks :=
    UInt32.toNat_ofNat_of_lt' (read32_lt _ _)
  have hper : (UInt32.ofNat img.blocksPerGroup).toNat = img.blocksPerGroup :=
    UInt32.toNat_ofNat_of_lt' (read32_lt _ _)
  have hdiv : (img.sprblk.nBlocks / img.sprblk.nBlockBlockGrp).toNat =
      img.nBlocks / img.blocksPerGroup := by
    rw [UInt32.toNat_div, Image.sprblk, hblocks, hper]
  have hmod : img.sprblk.nBlocks % img.sprblk.nBlockBlockGrp = 0 ↔
      img.nBlocks % img.blocksPerGroup = 0 := by
    rw [← UInt32.toNat_inj, UInt32.toNat_mod, Image.sprblk, hblocks, hper]
    rfl
  rw [Image.blockGroups, UInt32.toNat_add, hdiv]
  by_cases hzero : img.nBlocks % img.blocksPerGroup = 0
  · simp only [hmod.mpr hzero, hzero, ne_eq, not_true, if_false]
    exact Nat.mod_eq_of_lt (by change _ + 0 < _; omega)
  · simp only [mt hmod.mp hzero, hzero, ne_eq, not_false_eq_true, if_true]
    exact Nat.mod_eq_of_lt hlow

/-- At least the first descriptor is read. -/
theorem descSize_ge (hgroup : img.blocksPerGroup ≠ 0) (hpos : 0 < img.groups)
    (hlow : 32 * img.groups < 2 ^ 31) :
    12 ≤ (blockDescSize * img.blockGroups).toNat := by
  have hfirst : img.firstBlock ≤ 1 := by
    unfold Image.firstBlock
    split <;> omega
  have hquot : img.nBlocks / img.blocksPerGroup ≤ img.groups + 1 := by
    rw [Image.groups, ← Nat.add_div_right _ (Nat.pos_of_ne_zero hgroup)]
    exact Nat.div_le_div_right (by omega)
  have hcount := toNat_blockGroups (show img.nBlocks / img.blocksPerGroup + 1 < 2 ^ 32 by omega)
  have hsome : img.nBlocks ≠ 0 := by
    intro hzero
    have hnone : img.groups = 0 := by
      rw [Image.groups, hzero, Nat.zero_sub, Nat.zero_add]
      exact Nat.div_eq_of_lt (by omega)
    omega
  have hone : 1 ≤ img.blockGroups.toNat := by
    rw [hcount]
    by_cases hzero : img.nBlocks % img.blocksPerGroup = 0
    · have hdvd := Nat.le_of_dvd (Nat.pos_of_ne_zero hsome) (Nat.dvd_of_mod_eq_zero hzero)
      exact Nat.le_add_right_of_le (Nat.div_pos hdvd (Nat.pos_of_ne_zero hgroup))
    · rw [if_pos hzero]
      exact Nat.le_add_left 1 _
  have hfew : img.blockGroups.toNat ≤ img.groups + 2 := by
    rw [hcount]
    split <;> omega
  rw [UInt32.toNat_mul]
  show 12 ≤ 20 * img.blockGroups.toNat % 2 ^ 32
  rw [Nat.mod_eq_of_lt (by omega)]
  omega

/-- The inode table that setup has found is what block 2 says. -/
theorem toNat_inodeTableAddr (hgroup : img.blocksPerGroup ≠ 0) (hpos : 0 < img.groups)
    (hlow : img.blockSize * 2 < 2 ^ 31 ∧ 32 * img.groups < 2 ^ 31) :
    img.device.inodeTableAddr.toNat = img.blockTwoWord := by
  have hseek : ((1024 <<< img.sprblk.blockSize : UInt32) * 2).toNat = img.blockSize * 2 := by
    rw [UInt32.toNat_mul]
    show img.device.blockSize.toNat * 2 % 2 ^ 32 = _
    rw [toNat_blockSize hlow.1]
    exact Nat.mod_eq_of_lt (by omega)
  have hdisk : img.descDisk = ⟨img.byte, (1024 <<< img.sprblk.blockSize) * 2⟩ :=
    Disk.lseek_of_lt (by rw [hseek]; exact hlow.1)
  have hread := Disk.read32_bytes img.descDisk (descSize_ge hgroup hpos hlow.2)
  rw [hdisk, hseek] at hread
  show (UInt32.ofNat (read32 _ 8)).toNat = _
  rw [UInt32.toNat_ofNat_of_lt' (read32_lt _ _), hdisk]
  exact hread

/-- The address that is asked for. -/
theorem toNat_inodeAddr (himg : img.IsExt2) (hpos : 1 ≤ n) (hn : n ≤ img.nInodes)
    (hgroup : img.blocksPerGroup ≠ 0) (hlow : img.inodeAddress n < 2 ^ 31) :
    (img.device.inodeAddr (UInt32.ofNat n)).toNat =
      (img.blockSize * img.blockTwoWord + (n - 1) * img.inodeSize) % 2 ^ 32 := by
  have hsize := blockSize_low himg hpos hn hlow
  have hgroups : 0 < img.groups := Nat.zero_lt_of_lt (groupOf_lt himg hpos hn)
  have hnlt : n < 2 ^ 32 := Nat.lt_of_le_of_lt hn (read32_lt _ _)
  have hinode : (UInt32.ofNat n - 1).toNat = n - 1 := by
    rw [UInt32.toNat_sub, UInt32.toNat_ofNat_of_lt' hnlt]
    show (2 ^ 32 - 1 + n) % 2 ^ 32 = n - 1
    omega
  have hisize : img.inodeSize < 2 ^ 32 := (Elf.read16_lt _ _).trans (by decide)
  rw [Ext2Device.inodeAddr, UInt32.toNat_add, UInt32.toNat_mul, UInt32.toNat_mul, hinode,
    toNat_blockSize hsize.1, toNat_inodeTableAddr hgroup hgroups hsize]
  show (_ % 2 ^ 32 + (n - 1) * (UInt32.ofNat img.inodeSize).toNat % 2 ^ 32) % 2 ^ 32 = _
  rw [UInt32.toNat_ofNat_of_lt' hisize, ← Nat.add_mod]

/-- It is the right one if the tables are as far apart as it takes them to be. -/
theorem inodeAddress_iff (hlow : img.inodeAddress n < 2 ^ 31) :
    (img.blockSize * img.blockTwoWord + (n - 1) * img.inodeSize) % 2 ^ 32 = img.inodeAddress n ↔
      img.blockSize * img.blockTwoWord +
          img.groupOf n * (img.inodesPerGroup * img.inodeSize) ≡
        img.blockSize * img.inodeTable (img.groupOf n) [MOD 2 ^ 32] := by
  have hsplit : img.blockSize * img.blockTwoWord + (n - 1) * img.inodeSize =
      img.blockSize * img.blockTwoWord + img.groupOf n * (img.inodesPerGroup * img.inodeSize) +
        (n - 1) % img.inodesPerGroup * img.inodeSize := by
    conv_lhs => rw [← Nat.div_add_mod (n - 1) img.inodesPerGroup, Nat.add_mul]
    rw [Image.groupOf, ← Nat.add_assoc, Nat.mul_comm img.inodesPerGroup, Nat.mul_assoc]
  have hmod : img.inodeAddress n % 2 ^ 32 = img.inodeAddress n := Nat.mod_eq_of_lt (by omega)
  rw [hsplit]
  constructor
  · intro h
    refine Nat.ModEq.add_right_cancel' ((n - 1) % img.inodesPerGroup * img.inodeSize) ?_
    exact h.trans hmod.symm
  · intro h
    exact Eq.trans (h.add_right ((n - 1) % img.inodesPerGroup * img.inodeSize)) hmod

/-- The address does not depend on where the descriptor is. -/
theorem inodeDisk_eq (dev : Ext2Device) (byte : Memory) (now inode : UInt32) :
    ({ dev with disk := ⟨byte, now⟩ }.inodeDisk inode) =
      (⟨byte, now⟩ : Disk).lseek (dev.inodeAddr inode) := rfl

theorem createDevice_some (hgroup : img.blocksPerGroup ≠ 0) (offset : UInt32) :
    createDevice ⟨img.byte, offset⟩ = some img.device := by
  have hne := mt (img.createDevice_none_iff offset).mp hgroup
  rw [img.createDevice_eq] at hne ⊢
  exact if_neg fun hzero => hne (if_pos hzero)

end Low

/--
**Which inodes are read where they lie.**  For every image and inode number: setup does not
divide by zero, and the inode is read at its address, wherever the descriptor was set before,
exactly if the superblock has no zero for the blocks of a group, and the address is below 2^31
and comes out of the table that block 2 names.
-/
theorem inode_lookup_iff (img : Image) (n : Nat) :
    LooksUp img n ↔ img.blocksPerGroup ≠ 0 ∧
      (img.IsExt2 → 1 ≤ n → n ≤ img.nInodes → img.Reaches n) := by
  constructor
  · intro h
    have hgroup : img.blocksPerGroup ≠ 0 :=
      fun hzero => h.setup 0 ((img.createDevice_none_iff 0).mpr hzero)
    refine ⟨hgroup, ?_⟩
    intro himg hpos hn
    have haddress := h.address himg hpos hn 0 _ (createDevice_some hgroup 0)
    simp only [inodeDisk_eq] at haddress
    obtain ⟨haddr, hlow⟩ := (Disk.lands_iff img.byte _ _).mp haddress
    refine ⟨hlow, (inodeAddress_iff hlow).mp ?_⟩
    rw [← toNat_inodeAddr himg hpos hn hgroup hlow]
    exact haddr
  · rintro ⟨hgroup, hreaches⟩
    refine ⟨fun offset => mt (img.createDevice_none_iff offset).mp hgroup, ?_⟩
    intro himg hpos hn offset dev hdev
    rw [createDevice_some hgroup offset] at hdev
    obtain rfl := Option.some.inj hdev
    obtain ⟨hlow, htable⟩ := hreaches himg hpos hn
    simp only [inodeDisk_eq]
    refine (Disk.lands_iff img.byte _ _).mpr ⟨?_, hlow⟩
    exact (toNat_inodeAddr himg hpos hn hgroup hlow).trans ((inodeAddress_iff hlow).mpr htable)

/-- With a block size of 1024 the inodes of the first group are read where they lie. -/
theorem reaches_first_group {img : Image} {n : Nat} (hlog : img.logBlockSize = 0)
    (hgroup : img.groupOf n = 0) (hlow : img.inodeAddress n < 2 ^ 31) : img.Reaches n := by
  refine ⟨hlow, ?_⟩
  have hsize : img.blockSize = 1024 := by simp [Image.blockSize, hlog]
  have htable : img.inodeTable 0 = img.blockTwoWord := by
    rw [Image.inodeTable, Image.descriptors, Image.firstBlock, if_pos hlog, hsize,
      Image.blockTwoWord, hsize]
  rw [hgroup, htable, Nat.zero_mul]
  rfl

/-- An image of 16385 blocks of 1024 bytes in two groups of eight inodes each; the tables are
in the blocks 5 and 8197. -/
def twoGroups : Image where
  byte := write32 (write32 (write32 (write32 (write32 (write32 (write32 (write32 (fun _ => 0)
    1024 16) 1028 16385) 1048 0) 1056 8192) 1064 8) 1112 128) 2056 5) 2088 8197

theorem twoGroups_isExt2 : twoGroups.IsExt2 := by
  have hgroups : twoGroups.groups = 2 := by decide
  have htables : ∀ g < 2, twoGroups.descriptors + 32 * 2 ≤
      twoGroups.blockSize * twoGroups.inodeTable g := by decide
  refine ⟨by decide, ?_⟩
  rw [hgroups]
  exact htables

/-- **The first inode of the second group is looked for behind the table of the first one.** -/
theorem second_group_not_found : ¬ ∀ (img : Image) (n : Nat), LooksUp img n := by
  intro h
  have hgroup : twoGroups.blocksPerGroup ≠ 0 := by decide
  have hn : 9 ≤ twoGroups.nInodes := by decide
  have hlow : twoGroups.inodeAddress 9 < 2 ^ 31 := by decide
  have haddress := (h twoGroups 9).address twoGroups_isExt2 (by decide) hn 0 _
    (createDevice_some hgroup 0)
  simp only [inodeDisk_eq] at haddress
  obtain ⟨haddr, -⟩ := (Disk.lands_iff twoGroups.byte _ _).mp haddress
  rw [toNat_inodeAddr twoGroups_isExt2 (by decide) hn hgroup hlow] at haddr
  revert haddr
  decide

end OsThing.Ext2
