/-
What `ext2_read_inode` reads.

Each turn reads a whole block, also the last one, which goes past the end of the buffer unless
the size is made of whole blocks.  A block that lies from byte 2^31 on is refused by `lseek`;
then the block behind the one before is read.

The variables after some turns are told by how many there were (`after`), and every turn takes
`after` of one number to `after` of the next.
-/
import OsThing.Proofs.Ext2Inodes

namespace OsThing.Ext2

open Bytes
open Fs (asInt asInt_eq)

/-- The pointer to a direct block. -/
def Ext2Inode.ptr (inode : Ext2Inode) (p : Nat) : UInt32 := (List.ofFn inode.dPtr).getD p 0

/-- The concatenated blocks. -/
def content (dev : Ext2Device) (inode : Ext2Inode) (x : Nat) : UInt8 :=
  dev.disk.byte
    (dev.blockSize.toNat * (inode.ptr (x / dev.blockSize.toNat)).toNat + x % dev.blockSize.toNat)

/-- What is asked for is in the buffer, and nothing else was written; or, if it is more than the
direct blocks have, the result is the number of bytes that are filled. -/
def ReadsFile (dev : Ext2Device) (inode : Ext2Inode) (size : UInt32) : Prop :=
  let r := dev.readInode inode size
  if size.toNat ≤ 12 * dev.blockSize.toNat then
    r.1 = size.toNat ∧ ∀ x, r.2.1 x = if x < size.toNat then some (content dev inode x) else none
  else ∃ n ≤ size.toNat, r.1 = n ∧ ∀ x, (r.2.1 x).isSome ↔ x < n

/-- A block below byte 2^31; or one below 2^32 that lies behind the one that is read before. -/
def BlockReached (blockSize : UInt32) (inode : Ext2Inode) (p : Nat) : Prop :=
  blockSize.toNat * (inode.ptr p).toNat < 2 ^ 31 ∨
    0 < p ∧ (inode.ptr p).toNat = (inode.ptr (p - 1)).toNat + 1 ∧
      blockSize.toNat * (inode.ptr p).toNat < 2 ^ 32

/-! ### One turn -/

theorem Disk.lseek_offset (d : Disk) (o : UInt32) :
    (d.lseek o).offset = if o.toInt32 < 0 then d.offset else o := by
  unfold lseek
  split
  · rfl
  · rfl

theorem Disk.bytes_getElem? (d : Disk) {n : UInt32} {i : Nat} (hi : i < n.toNat) :
    (d.bytes n)[i]? = some (d.byte (d.offset.toNat + i)) := by
  simp [bytes, hi]

@[simp] theorem Disk.read_byte (d : Disk) (n : UInt32) : (d.read n).byte = d.byte := rfl

section Turns

variable (dev : Ext2Device) (inode : Ext2Inode)

/-- The device after some blocks. -/
def diskAfter : Nat → Disk
  | 0 => dev.disk
  | p + 1 => ((diskAfter p).lseek (dev.blockSize * inode.ptr p)).read dev.blockSize

/-- Where a block is read. -/
def position (p : Nat) : UInt32 :=
  ((diskAfter dev inode p).lseek (dev.blockSize * inode.ptr p)).offset

@[simp] theorem diskAfter_byte (p : Nat) : (diskAfter dev inode p).byte = dev.disk.byte := by
  induction p with
  | zero => rfl
  | succ p ih => simp [diskAfter, ih]

/-- Where a block is read does not depend on what the device holds. -/
theorem position_congr {dev dev' : Ext2Device} (hblock : dev.blockSize = dev'.blockSize)
    (hoffset : dev.disk.offset = dev'.disk.offset) (p : Nat) :
    position dev inode p = position dev' inode p := by
  have hdisk : ∀ p, (diskAfter dev inode p).offset = (diskAfter dev' inode p).offset := by
    intro p
    induction p with
    | zero => exact hoffset
    | succ p ih => simp [diskAfter, Disk.read, Disk.lseek_offset, ih, hblock]
  simp [position, Disk.lseek_offset, hdisk, hblock]

/-- The variables after some turns. -/
def after (p : Nat) : Reading where
  dev := { dev with disk := diskAfter dev inode p }
  i := UInt32.ofNat (p * dev.blockSize.toNat)
  total := UInt32.ofNat (p * dev.blockSize.toNat)
  buf := fun x =>
    if x < p * dev.blockSize.toNat then
      some (dev.disk.byte
        ((position dev inode (x / dev.blockSize.toNat)).toNat + x % dev.blockSize.toNat))
    else none

theorem ofNat_succ_mul (p : Nat) (n : UInt32) :
    UInt32.ofNat (p * n.toNat) + n = UInt32.ofNat ((p + 1) * n.toNat) := by
  rw [Nat.succ_mul, UInt32.ofNat_add, UInt32.ofNat_toNat]

/-- **One block.** -/
theorem after_turn {p : Nat} (hend : (p + 1) * dev.blockSize.toNat < 2 ^ 32) :
    (after dev inode p).turn (inode.ptr p) = after dev inode (p + 1) := by
  have hi : (UInt32.ofNat (p * dev.blockSize.toNat)).toNat = p * dev.blockSize.toNat := by
    rw [Nat.succ_mul] at hend
    exact UInt32.toNat_ofNat_of_lt' (by change _ < 2 ^ 32; omega)
  have hcount : dev.blockSize - 0 - (dev.blockSize - dev.blockSize) = dev.blockSize := by simp
  have hlength : ∀ d : Disk, (d.bytes dev.blockSize).length = dev.blockSize.toNat := by
    simp [Disk.bytes]
  unfold Reading.turn Ext2Device.readBlock
  simp only [after, hcount, UInt32.add_zero, ofNat_succ_mul, hi, hlength, Reading.mk.injEq, true_and]
  refine ⟨rfl, ?_⟩
  funext x
  rw [Nat.succ_mul]
  by_cases hold : x < p * dev.blockSize.toNat
  · rw [if_neg (by omega), if_pos hold, if_pos (by omega)]
  · by_cases hnew : x < p * dev.blockSize.toNat + dev.blockSize.toNat
    · obtain ⟨r, rfl⟩ := Nat.exists_eq_add_of_le (Nat.not_lt.mp hold)
      have hr : r < dev.blockSize.toNat := by omega
      have hdiv : (p * dev.blockSize.toNat + r) / dev.blockSize.toNat = p := by
        rw [Nat.mul_comm, Nat.mul_add_div (by omega), Nat.div_eq_of_lt hr, Nat.add_zero]
      have hmod : (p * dev.blockSize.toNat + r) % dev.blockSize.toNat = r :=
        Nat.mul_add_mod_of_lt hr
      rw [if_pos ⟨by omega, hnew⟩, if_pos hnew, hdiv, hmod, Nat.add_sub_cancel_left,
        Disk.bytes_getElem? _ hr]
      simp [position]
    · rw [if_neg (by omega), if_neg hold, if_neg hnew]

/-- The loop ends after the last block, or as soon as there is nothing left to read. -/
theorem loop_after {size : UInt32}
    (hfit : ∀ p, p * dev.blockSize.toNat < size.toNat →
      p < 12 → (p + 1) * dev.blockSize.toNat < 2 ^ 32) :
    ∀ left p, p + left = 12 → (∀ q < p, q * dev.blockSize.toNat < size.toNat) →
      ∃ n ≤ 12, Reading.loop size ((List.ofFn inode.dPtr).drop p) (after dev inode p) =
          after dev inode n ∧
        (n = 12 ∨ size.toNat ≤ n * dev.blockSize.toNat) ∧
        ∀ q < n, q * dev.blockSize.toNat < size.toNat := by
  intro left
  induction left with
  | zero =>
      intro p hp hbefore
      refine ⟨p, by omega, ?_, Or.inl (by omega), hbefore⟩
      rw [List.drop_eq_nil_of_le (by simp; omega)]
      rfl
  | succ left ih =>
      intro p hp hbefore
      have hlt : p < (List.ofFn inode.dPtr).length := by
        rw [List.length_ofFn]
        omega
      have hptr : (List.ofFn inode.dPtr)[p] = inode.ptr p := by
        rw [Ext2Inode.ptr, List.getD_eq_getElem?_getD, List.getElem?_eq_getElem hlt]
        rfl
      have hi : (after dev inode p).i.toNat = p * dev.blockSize.toNat := by
        apply UInt32.toNat_ofNat_of_lt'
        show p * dev.blockSize.toNat < 2 ^ 32
        cases p with
        | zero => simp
        | succ q => exact hfit q (hbefore q (Nat.lt_succ_self q)) (by omega)
      rw [List.drop_eq_getElem_cons hlt, hptr, Reading.loop]
      by_cases hmore : p * dev.blockSize.toNat < size.toNat
      · rw [if_pos (UInt32.lt_iff_toNat_lt.mpr (hi ▸ hmore)),
          after_turn dev inode (hfit p hmore (by omega))]
        refine ih (p + 1) (by omega) ?_
        intro q hq
        by_cases hlast : q = p
        · rw [hlast]
          exact hmore
        · exact hbefore q (by omega)
      · rw [if_neg fun h => hmore (hi ▸ UInt32.lt_iff_toNat_lt.mp h)]
        exact ⟨p, by omega, rfl, Or.inr (by omega), hbefore⟩

theorem after_zero : after dev inode 0 = ⟨dev, 0, 0, fun _ => none⟩ := by
  simp [after, diskAfter]

/-- **What is read:** some whole blocks, no more than it takes. -/
theorem readInode_eq {size : UInt32}
    (hfit : ∀ p, p * dev.blockSize.toNat < size.toNat →
      p < 12 → (p + 1) * dev.blockSize.toNat < 2 ^ 32) :
    ∃ n ≤ 12, (dev.readInode inode size).1 = asInt (UInt32.ofNat (n * dev.blockSize.toNat)) ∧
      (dev.readInode inode size).2.1 = (after dev inode n).buf ∧
      (n = 12 ∨ size.toNat ≤ n * dev.blockSize.toNat) ∧
      ∀ q < n, q * dev.blockSize.toNat < size.toNat := by
  obtain ⟨n, hn, hloop, hend, hall⟩ := loop_after dev inode hfit 12 0 rfl (by simp)
  rw [after_zero, List.drop_zero] at hloop
  refine ⟨n, hn, ?_, ?_, hend, hall⟩
  · rw [Ext2Device.readInode, hloop]
    rfl
  · rw [Ext2Device.readInode, hloop]

end Turns

/-! ### Where the blocks are read -/

section Positions

variable (blockSize : UInt32) (inode : Ext2Inode)

/-- Where a read is that comes after one of the block before. -/
theorem lands_behind {byte : Memory} {now d : UInt32} {before : Nat}
    (hpos : 0 < blockSize.toNat) (hint : blockSize.toNat < 2 ^ 31)
    (hbefore : blockSize.toNat * before < 2 ^ 32)
    (hnow : now.toNat = (blockSize.toNat * before + blockSize.toNat) % 2 ^ 32) :
    ((⟨byte, now⟩ : Disk).lseek (blockSize * d)).offset.toNat = blockSize.toNat * d.toNat ↔
      blockSize.toNat * d.toNat < 2 ^ 31 ∨
        d.toNat = before + 1 ∧ blockSize.toNat * d.toNat < 2 ^ 32 := by
  have hmul : (blockSize * d).toNat = blockSize.toNat * d.toNat % 2 ^ 32 := UInt32.toNat_mul _ _
  by_cases hlow : (blockSize * d).toNat < 2 ^ 31
  · rw [Disk.lseek_of_lt hlow]
    show (blockSize * d).toNat = _ ↔ _
    rw [hmul] at hlow ⊢
    omega
  · rw [Disk.lseek_of_ge (Nat.not_lt.mp hlow), hnow]
    rw [hmul] at hlow
    constructor
    · intro h
      have hsum : blockSize.toNat * (before + 1) = blockSize.toNat * d.toNat := by
        rw [Nat.mul_succ]
        omega
      have hd : before + 1 = d.toNat := Nat.eq_of_mul_eq_mul_left hpos hsum
      exact Or.inr ⟨hd.symm, by omega⟩
    · rintro (h | ⟨hd, h⟩)
      · omega
      · rw [hd, Nat.mul_succ] at h ⊢
        exact Nat.mod_eq_of_lt h

variable {inode}

/-- Every block is read where it lies, wherever the descriptor was before. -/
def Reads (blockSize : UInt32) (inode : Ext2Inode) (p : Nat) : Prop :=
  ∀ dev : Ext2Device, dev.blockSize = blockSize →
    (position dev inode p).toNat = blockSize.toNat * (inode.ptr p).toNat

/-- A device of which every byte is zero. -/
def blankDevice (blockSize now : UInt32) : Ext2Device :=
  ⟨⟨fun _ => 0, now⟩, 0, blockSize, ⟨0, 0, 0, 0⟩, 0⟩

theorem reads_zero : Reads blockSize inode 0 ↔ BlockReached blockSize inode 0 := by
  have hlands := Disk.lands_iff (fun _ => 0) (blockSize * inode.ptr 0)
    (blockSize.toNat * (inode.ptr 0).toNat)
  constructor
  · intro h
    refine Or.inl (hlands.mp ?_).2
    intro now
    exact h (blankDevice blockSize now) rfl
  · rintro (hlow | ⟨hzero, -⟩)
    · intro dev hdev
      subst hdev
      refine (Disk.lands_iff dev.disk.byte _ _).mpr ⟨?_, hlow⟩ dev.disk.offset
      rw [UInt32.toNat_mul]
      exact Nat.mod_eq_of_lt (by omega)
    · exact absurd hzero (Nat.lt_irrefl 0)

theorem reads_succ {p : Nat} (hpos : 0 < blockSize.toNat) (hint : blockSize.toNat < 2 ^ 31)
    (hbefore : Reads blockSize inode p) :
    Reads blockSize inode (p + 1) ↔ BlockReached blockSize inode (p + 1) := by
  have hstep : ∀ dev : Ext2Device, dev.blockSize = blockSize →
      ((position dev inode (p + 1)).toNat = blockSize.toNat * (inode.ptr (p + 1)).toNat ↔
        BlockReached blockSize inode (p + 1)) := by
    intro dev hdev
    have hposition := hbefore dev hdev
    subst hdev
    have hlow : dev.blockSize.toNat * (inode.ptr p).toNat < 2 ^ 32 :=
      hposition ▸ (position dev inode p).toNat_lt
    have hnow : (position dev inode p + dev.blockSize).toNat =
        (dev.blockSize.toNat * (inode.ptr p).toNat + dev.blockSize.toNat) % 2 ^ 32 := by
      rw [UInt32.toNat_add, hposition]
    rw [BlockReached, Nat.add_sub_cancel]
    simp only [Nat.succ_pos, true_and]
    exact lands_behind dev.blockSize hpos hint hlow hnow
  constructor
  · intro h
    exact (hstep (blankDevice blockSize 0) rfl).mp (h _ rfl)
  · intro h dev hdev
    exact (hstep dev hdev).mpr h

/-- **The blocks that are read where they lie.** -/
theorem reads_iff (hpos : 0 < blockSize.toNat) (hint : blockSize.toNat < 2 ^ 31) :
    ∀ n, (∀ p < n, Reads blockSize inode p) ↔ ∀ p < n, BlockReached blockSize inode p := by
  intro n
  induction n with
  | zero => simp
  | succ n ih =>
      simp only [Nat.forall_lt_succ_right, ih]
      refine and_congr_right fun hall => ?_
      cases n with
      | zero => exact reads_zero blockSize
      | succ m => exact reads_succ blockSize hpos hint (ih.mpr hall m (Nat.lt_succ_self m))

end Positions

/-! ### Files -/

/-- The size is made of whole blocks, an `int`, and each of its blocks is reached; or it is more
than the direct blocks have, and they have less than 2^31 bytes. -/
def Readable (blockSize : UInt32) (inode : Ext2Inode) (size : UInt32) : Prop :=
  if size.toNat ≤ 12 * blockSize.toNat then
    blockSize.toNat ∣ size.toNat ∧ size.toNat < 2 ^ 31 ∧
      ∀ p < size.toNat / blockSize.toNat, BlockReached blockSize inode p
  else 12 * blockSize.toNat < 2 ^ 31

section Files

variable {dev : Ext2Device} {inode : Ext2Inode} {size blockSize : UInt32}

theorem asInt_lt (n : UInt32) : asInt n < 2 ^ 31 := by
  have hlt := n.toNat_lt
  rw [asInt_eq]
  split <;> omega

theorem readsFile_short_iff (hsize : size.toNat ≤ 12 * dev.blockSize.toNat) :
    ReadsFile dev inode size ↔ (dev.readInode inode size).1 = size.toNat ∧
      ∀ x, (dev.readInode inode size).2.1 x =
        if x < size.toNat then some (content dev inode x) else none :=
  iff_of_eq (if_pos hsize)

/-- The result is an `int`. -/
theorem ReadsFile.lt (h : ReadsFile dev inode size)
    (hsize : size.toNat ≤ 12 * dev.blockSize.toNat) : size.toNat < 2 ^ 31 := by
  have hret := ((readsFile_short_iff hsize).mp h).1
  have hlt : (dev.readInode inode size).1 < 2 ^ 31 := asInt_lt _
  omega

/-- Sums stay below 2^32 while there is something left to read. -/
theorem fits_of_lt (hlow : size.toNat < 2 ^ 31 ∨ 12 * dev.blockSize.toNat < size.toNat) (p : Nat)
    (hmore : p * dev.blockSize.toNat < size.toNat) (hp : p < 12) :
    (p + 1) * dev.blockSize.toNat < 2 ^ 32 := by
  have hsize := size.toNat_lt
  have hblock := dev.blockSize.toNat_lt
  rcases hlow with hlow | hlong
  · cases p with
    | zero => omega
    | succ p =>
        have hone : 1 * dev.blockSize.toNat ≤ (p + 1) * dev.blockSize.toNat :=
          Nat.mul_le_mul_right _ (by omega)
        rw [Nat.succ_mul (p + 1)]
        omega
  · have := Nat.mul_le_mul_right dev.blockSize.toNat (show p + 1 ≤ 12 from hp)
    omega

/-- A size that the direct blocks have is covered by the blocks that are read. -/
theorem readInode_covers (dev : Ext2Device) (inode : Ext2Inode)
    (hsize : size.toNat ≤ 12 * dev.blockSize.toNat) (hint : size.toNat < 2 ^ 31) :
    ∃ n, (dev.readInode inode size).1 = asInt (UInt32.ofNat (n * dev.blockSize.toNat)) ∧
      (dev.readInode inode size).2.1 = (after dev inode n).buf ∧
      size.toNat ≤ n * dev.blockSize.toNat ∧ ∀ q < n, q * dev.blockSize.toNat < size.toNat := by
  obtain ⟨n, -, hret, hbuf, hend, hall⟩ := readInode_eq dev inode (fits_of_lt (Or.inl hint))
  refine ⟨n, hret, hbuf, ?_, hall⟩
  rcases hend with rfl | hend
  · exact hsize
  · exact hend

/-- Whole blocks that are no more than it takes are the size, if that is made of whole blocks. -/
theorem blocks_eq {n b m : Nat} (hdvd : b ∣ m) (hle : m ≤ n * b) (hall : ∀ q < n, q * b < m) :
    n * b = m := by
  obtain ⟨k, rfl⟩ := hdvd
  cases n with
  | zero => omega
  | succ q =>
      have hlt := hall q (Nat.lt_succ_self q)
      rw [Nat.mul_comm q] at hlt
      have hk : q < k := Nat.lt_of_mul_lt_mul_left hlt
      have hmul : (q + 1) * b ≤ k * b := Nat.mul_le_mul_right b hk
      rw [Nat.mul_comm b] at hle ⊢
      omega

/-- A last block that is asked for in part goes past the end of the buffer. -/
theorem ReadsFile.dvd (h : ReadsFile dev inode size)
    (hsize : size.toNat ≤ 12 * dev.blockSize.toNat) : dev.blockSize.toNat ∣ size.toNat := by
  obtain ⟨n, -, hbuf, hle, -⟩ := readInode_covers dev inode hsize (h.lt hsize)
  by_contra hdvd
  have hne : size.toNat ≠ n * dev.blockSize.toNat := by
    intro heq
    exact hdvd (heq ▸ Nat.dvd_mul_left _ n)
  have hlast : size.toNat < n * dev.blockSize.toNat := Nat.lt_of_le_of_ne hle hne
  have hnone := ((readsFile_short_iff hsize).mp h).2 size.toNat
  rw [hbuf, if_neg (Nat.lt_irrefl _)] at hnone
  simp [after, hlast] at hnone

/-- What the buffer has is what lies where the blocks are read. -/
theorem ReadsFile.content_eq (h : ReadsFile dev inode size)
    (hsize : size.toNat ≤ 12 * dev.blockSize.toNat) {x : Nat} (hx : x < size.toNat) :
    dev.disk.byte ((position dev inode (x / dev.blockSize.toNat)).toNat +
      x % dev.blockSize.toNat) = content dev inode x := by
  obtain ⟨n, -, hbuf, hle, -⟩ := readInode_covers dev inode hsize (h.lt hsize)
  have hread : x < n * dev.blockSize.toNat := Nat.lt_of_lt_of_le hx hle
  have hsome := ((readsFile_short_iff hsize).mp h).2 x
  rw [hbuf, if_pos hx] at hsome
  simpa [after, hread] using hsome

/-- What takes no more than the direct blocks is read as it should be. -/
theorem readsFile_of_readable (hsize : size.toNat ≤ 12 * dev.blockSize.toNat)
    (hdvd : dev.blockSize.toNat ∣ size.toNat) (hint : size.toNat < 2 ^ 31)
    (hreads : ∀ p < size.toNat / dev.blockSize.toNat, Reads dev.blockSize inode p) :
    ReadsFile dev inode size := by
  obtain ⟨n, hret, hbuf, hle, hall⟩ := readInode_covers dev inode hsize hint
  have hsum := blocks_eq hdvd hle hall
  refine (readsFile_short_iff hsize).mpr ⟨?_, ?_⟩
  · rw [hret, hsum, UInt32.ofNat_toNat, asInt_eq, if_pos hint]
  · intro x
    rw [hbuf]
    by_cases hx : x < size.toNat
    · have hblock : x / dev.blockSize.toNat < size.toNat / dev.blockSize.toNat :=
        Nat.div_lt_div_of_lt_of_dvd hdvd hx
      simp only [after, hsum, if_pos hx, hreads _ hblock dev rfl]
      rfl
    · simp only [after, hsum, if_neg hx]

/-- What takes more fills the buffer with the direct blocks. -/
theorem readsFile_long_iff (hsize : 12 * dev.blockSize.toNat < size.toNat) :
    ReadsFile dev inode size ↔ 12 * dev.blockSize.toNat < 2 ^ 31 := by
  obtain ⟨n, hn, hret, hbuf, hend, -⟩ := readInode_eq dev inode (fits_of_lt (Or.inr hsize))
  have hall : n = 12 := by
    rcases hend with rfl | hend
    · rfl
    · have hmul := Nat.mul_le_mul_right dev.blockSize.toNat hn
      omega
  subst hall
  have hlt : 12 * dev.blockSize.toNat < 2 ^ 32 := Nat.lt_trans hsize size.toNat_lt
  rw [asInt_eq, UInt32.toNat_ofNat_of_lt' hlt] at hret
  have hlong : ReadsFile dev inode size ↔ ∃ n ≤ size.toNat, (dev.readInode inode size).1 = n ∧
      ∀ x, ((dev.readInode inode size).2.1 x).isSome ↔ x < n :=
    iff_of_eq (if_neg (Nat.not_le.mpr hsize))
  rw [hlong]
  constructor
  · rintro ⟨m, -, hm, -⟩
    by_contra hneg
    rw [hret, if_neg hneg] at hm
    omega
  · intro hint
    refine ⟨12 * dev.blockSize.toNat, hsize.le, ?_, ?_⟩
    · rw [hret, if_pos hint]
    · intro x
      rw [hbuf]
      by_cases hx : x < 12 * dev.blockSize.toNat
      · simp [after, hx]
      · simp [after, hx]

/-- A device that holds one byte only at the start of a block shows where the block is read. -/
theorem reads_of_readsFile
    (h : ∀ dev : Ext2Device, dev.blockSize = blockSize → ReadsFile dev inode size)
    (hsize : size.toNat ≤ 12 * blockSize.toNat) {p : Nat}
    (hp : p < size.toNat / blockSize.toNat) : Reads blockSize inode p := by
  intro dev hdev
  subst hdev
  let dev' : Ext2Device := { dev with
    disk.byte := fun a => if a = dev.blockSize.toNat * (inode.ptr p).toNat then 1 else 0 }
  have hpos : 0 < dev.blockSize.toNat := by
    by_contra hzero
    rw [Nat.eq_zero_of_not_pos hzero, Nat.div_zero] at hp
    omega
  have hx : p * dev.blockSize.toNat < size.toNat := by
    have hnext : (p + 1) * dev.blockSize.toNat ≤ size.toNat := (Nat.le_div_iff_mul_le hpos).mp hp
    rw [Nat.succ_mul] at hnext
    omega
  have hcontent := (h dev' rfl).content_eq hsize hx
  have hsame : position dev' inode p = position dev inode p :=
    @position_congr inode dev' dev rfl rfl p
  simpa [content, dev', Nat.mul_div_cancel p hpos, Nat.mul_mod_left, hsame] using hcontent

/-- Of the blocks that a size is made of, just those are read where they lie that are reached. -/
theorem reads_blocks_iff (hint : size.toNat < 2 ^ 31) :
    (∀ p < size.toNat / blockSize.toNat, Reads blockSize inode p) ↔
      ∀ p < size.toNat / blockSize.toNat, BlockReached blockSize inode p := by
  by_cases hnone : size.toNat / blockSize.toNat = 0
  · simp [hnone]
  · have hdiv := Nat.div_ne_zero_iff.mp hnone
    exact reads_iff blockSize (Nat.pos_of_ne_zero hdiv.1) (by omega) _

end Files

/--
**Which files are read as they should be.**  For every inode, block size and size, whatever the
device holds and wherever its descriptor was before: a size that the direct blocks have is read
if it is a whole number of blocks, an `int`, and each of its blocks lies below byte 2^31 or is
behind the one before; a larger one, if the direct blocks have less than 2^31 bytes.
-/
theorem read_inode_iff (blockSize : UInt32) (inode : Ext2Inode) (size : UInt32) :
    (∀ dev : Ext2Device, dev.blockSize = blockSize → ReadsFile dev inode size) ↔
      Readable blockSize inode size := by
  unfold Readable
  by_cases hsize : size.toNat ≤ 12 * blockSize.toNat
  · rw [if_pos hsize]
    constructor
    · intro h
      have hread : ReadsFile (blankDevice blockSize 0) inode size := h _ rfl
      have hint := hread.lt hsize
      exact ⟨hread.dvd hsize, hint,
        (reads_blocks_iff hint).mp fun p hp => reads_of_readsFile h hsize hp⟩
    · rintro ⟨hdvd, hint, hblocks⟩ dev hdev
      subst hdev
      exact readsFile_of_readable hsize hdvd hint ((reads_blocks_iff hint).mpr hblocks)
  · rw [if_neg hsize]
    rw [not_le] at hsize
    constructor
    · intro h
      have hread : ReadsFile (blankDevice blockSize 0) inode size := h _ rfl
      exact (readsFile_long_iff hsize).mp hread
    · intro hint dev hdev
      subst hdev
      exact (readsFile_long_iff hsize).mpr hint

/-- **Of 1000 bytes in a block of 1024 the rest of the block is written behind the buffer.** -/
theorem last_block_overruns : ¬ ∀ (dev : Ext2Device) (inode : Ext2Inode) (size : UInt32),
    ReadsFile dev inode size := by
  intro h
  have hread := h (blankDevice 1024 0) ⟨fun _ => 20⟩ 1000
  exact absurd (hread.dvd (by decide)) (by decide)

end OsThing.Ext2
