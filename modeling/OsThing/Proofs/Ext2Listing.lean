/-
When the listing of a directory comes to its end.

The lengths lead from one record to the next, and no record of a block can lead back.  So the
loop ends if no length is zero and none leads out of the buffer: behind the block the buffer is
clear, and the loop stops at the first zero.  It stops as well at an entry whose inode number has
a zero for its low byte, as if the directory ended there; a block with entries that fill it is
listed to its end if it has no such entry.
-/
import OsThing.Fs.Ext2Listing
import OsThing.Proofs.Ext2Files

namespace OsThing.Ext2

open Bytes
open Elf (read16 store)

/-! ### Directories -/

/-- An entry of a directory, as the format has it. -/
structure DirEntry where
  inode : UInt32
  size : UInt16
  typeInd : UInt8
  name : List UInt8

structure DirEntry.LiesAt (e : DirEntry) (m : Memory) (a : Nat) : Prop where
  inode : read32 m a = e.inode.toNat
  size : read16 m (a + 4) = e.size.toNat
  lowNameLen : (m (a + 6)).toNat = e.name.length
  typeInd : m (a + 7) = e.typeInd
  name : ∀ i (h : i < e.name.length), m (a + 8 + i) = e.name[i]
  fits : 8 + e.name.length ≤ e.size.toNat
  aligned : e.size.toNat % 4 = 0

/-- From `a` up to `stop` there is one entry after another. -/
def IsDirectory (m : Memory) (stop : Nat) : Nat → List DirEntry → Prop
  | a, [] => a = stop
  | a, e :: rest => e.LiesAt m a ∧ IsDirectory m stop (a + e.size.toNat) rest

/-- Where the entries are, and their inodes. -/
def places : Nat → List DirEntry → List (Nat × UInt32)
  | _, [] => []
  | a, e :: rest => (a, e.inode) :: places (a + e.size.toNat) rest

def Listed.place (e : Listed) : Nat × UInt32 := (e.offset, e.inode)

/-- The loop ends, without a look at anything outside of the buffer, and if the block is filled
with entries it has come to all of them. -/
def WalksDirectory (block : List UInt8) : Prop :=
  ∃ fuel listed, listing (dirBuffer block) (5 * block.length) fuel 0 = some listed ∧
    ∀ es, IsDirectory (dirBuffer block) block.length 0 es → listed.map Listed.place = places 0 es

/-! ### Where the lengths lead -/

/-- From one record the lengths lead to another one, past none that begins with a zero. -/
inductive Leads (m : Memory) : Nat → Nat → Prop
  | refl (a : Nat) : Leads m a a
  | step {a b : Nat} (ha : m a ≠ 0) (h : Leads m (a + read16 m (a + 4)) b) : Leads m a b

/-- Every record that the lengths lead to has a length, and it does not lead out of the buffer. -/
def SoundFrom (m : Memory) (size a : Nat) : Prop :=
  ∀ b, Leads m a b → m b ≠ 0 → 0 < read16 m (b + 4) ∧ b + read16 m (b + 4) < size

theorem SoundFrom.next {m : Memory} {size a : Nat} (h : SoundFrom m size a) (ha : m a ≠ 0) :
    SoundFrom m size (a + read16 m (a + 4)) := by
  intro b hb
  exact h b (Leads.step ha hb)

/-! ### One record -/

/-- **What the loop does with a record.** -/
theorem listing_eq_some {m : Memory} {size fuel a : Nat} {listed : List Listed} :
    listing m size (fuel + 1) a = some listed ↔ a < size ∧
      (m a = 0 ∧ listed = [] ∨
        m a ≠ 0 ∧ a + 8 ≤ size ∧ ∃ name rest, stringAt m (size - (a + 8)) (a + 8) = some name ∧
          listing m size fuel (a + read16 m (a + 4)) = some rest ∧
          listed = ⟨a, name, UInt32.ofNat (read32 m a)⟩ :: rest) := by
  rw [listing]
  by_cases hout : size ≤ a
  · rw [if_pos hout]
    exact iff_of_false (by simp) fun h => absurd h.1 (Nat.not_lt.mpr hout)
  rw [if_neg hout, and_iff_right (Nat.lt_of_not_le hout)]
  by_cases hzero : m a = 0
  · rw [if_pos hzero]
    simp [hzero, eq_comm]
  rw [if_neg hzero]
  by_cases hfits : size < a + 8
  · rw [if_pos hfits]
    refine iff_of_false (by simp) ?_
    rintro (⟨h, -⟩ | ⟨-, h, -⟩)
    · exact hzero h
    · omega
  rw [if_neg hfits]
  constructor
  · intro h
    obtain ⟨name, hname, h⟩ := Option.bind_eq_some_iff.mp h
    obtain ⟨rest, hrest, rfl⟩ := Option.map_eq_some_iff.mp h
    exact Or.inr ⟨hzero, Nat.not_lt.mp hfits, name, rest, hname, hrest, rfl⟩
  · rintro (⟨h, -⟩ | ⟨-, -, name, rest, hname, hrest, rfl⟩)
    · exact absurd h hzero
    · rw [hname, Option.bind_some, hrest]
      rfl

/-- A string with a zero behind it, somewhere in the buffer. -/
theorem exists_stringAt {m : Memory} {z : Nat} (hz : m z = 0) :
    ∀ left a, a ≤ z → z < a + left → ∃ name, stringAt m left a = some name := by
  intro left
  induction left with
  | zero =>
      intro a hle hlt
      omega
  | succ left ih =>
      intro a hle hlt
      rw [stringAt]
      by_cases hzero : m a = 0
      · exact ⟨[], if_pos hzero⟩
      · have hne : a ≠ z := fun heq => hzero (heq ▸ hz)
        obtain ⟨name, hname⟩ := ih (a + 1) (by omega) (by omega)
        rw [if_neg hzero, hname]
        exact ⟨_, rfl⟩

/-! ### The end of the loop -/

/-- A record of no length is listed again and again. -/
theorem listing_stuck {m : Memory} {size a : Nat} (ha : m a ≠ 0) (hlength : read16 m (a + 4) = 0) :
    ∀ fuel, listing m size fuel a = none := by
  intro fuel
  induction fuel with
  | zero => rfl
  | succ fuel ih =>
      rw [Option.eq_none_iff_forall_ne_some]
      intro listed hlisted
      rcases (listing_eq_some.mp hlisted).2 with ⟨h, -⟩ | ⟨-, -, name, rest, -, hrest, -⟩
      · exact ha h
      · rw [hlength, Nat.add_zero, ih] at hrest
        cases hrest

theorem soundFrom_of_listing {m : Memory} {size : Nat} : ∀ {fuel a : Nat} {listed : List Listed},
    listing m size fuel a = some listed → SoundFrom m size a := by
  intro fuel
  induction fuel with
  | zero =>
      intro a listed h
      cases h
  | succ fuel ih =>
      intro a listed h b hleads hb
      rcases (listing_eq_some.mp h).2 with ⟨hzero, -⟩ | ⟨ha, -, name, rest, -, hrest, -⟩
      · cases hleads with
        | refl => exact absurd hzero hb
        | step ha _ => exact absurd hzero ha
      · cases hleads with
        | step _ hleads => exact ih hrest b hleads hb
        | refl =>
            cases fuel with
            | zero => cases hrest
            | succ fuel =>
                refine ⟨Nat.pos_of_ne_zero fun hlength => ?_, (listing_eq_some.mp hrest).1⟩
                rw [hlength] at hrest
                exact absurd ((listing_stuck ha hlength (fuel + 1)).symm.trans hrest) (by simp)

section Buffer

variable {block : List UInt8}

/-- Behind the block the buffer is clear. -/
theorem dirBuffer_clear {a : Nat} (ha : block.length ≤ a) : dirBuffer block a = 0 := by
  simp [dirBuffer, List.getElem?_eq_none ha]

theorem listing_ends (hblock : 2 ≤ block.length) : ∀ left a, a < 5 * block.length →
    5 * block.length - a ≤ left → SoundFrom (dirBuffer block) (5 * block.length) a →
      ∃ listed, listing (dirBuffer block) (5 * block.length) (left + 1) a = some listed := by
  intro left
  induction left with
  | zero =>
      intro a ha hleft
      omega
  | succ left ih =>
      intro a ha hleft hsound
      by_cases hzero : dirBuffer block a = 0
      · exact ⟨[], listing_eq_some.mpr ⟨ha, Or.inl ⟨hzero, rfl⟩⟩⟩
      · obtain ⟨hlength, hnext⟩ := hsound a (Leads.refl a) hzero
        have hinside : a < block.length := by
          by_contra hout
          exact hzero (dirBuffer_clear (Nat.not_lt.mp hout))
        obtain ⟨rest, hrest⟩ := ih _ hnext (by omega) (hsound.next hzero)
        obtain ⟨name, hname⟩ := exists_stringAt
          (dirBuffer_clear (Nat.le_add_right block.length 7))
          (5 * block.length - (a + 8)) (a + 8) (by omega) (by omega)
        exact ⟨_, listing_eq_some.mpr
          ⟨ha, Or.inr ⟨hzero, by omega, name, rest, hname, hrest, rfl⟩⟩⟩

end Buffer

/-! ### Listing a directory -/

theorem DirEntry.LiesAt.zero_iff {e : DirEntry} {m : Memory} {a : Nat} (h : e.LiesAt m a) :
    m a = 0 ↔ e.inode.toNat % 256 = 0 := by
  have hinode := h.inode
  have hlow := (m a).toNat_lt
  unfold read32 at hinode
  rw [← UInt8.toNat_inj]
  show (m a).toNat = 0 ↔ _
  omega

/-- The entries are listed one after another if none of them begins with a zero. -/
theorem places_of_listing {m : Memory} {size stop : Nat} (hstop : m stop = 0)
    {es : List DirEntry} : ∀ {fuel a : Nat} {listed : List Listed}, IsDirectory m stop a es →
      (∀ e ∈ es, e.inode.toNat % 256 ≠ 0) → listing m size fuel a = some listed →
      listed.map Listed.place = places a es := by
  induction es with
  | nil =>
      intro fuel a listed hdir _ hlisting
      obtain rfl : a = stop := hdir
      cases fuel with
      | zero => cases hlisting
      | succ fuel =>
          rcases (listing_eq_some.mp hlisting).2 with ⟨-, rfl⟩ | ⟨hne, -⟩
          · rfl
          · exact absurd hstop hne
  | cons e rest ih =>
      intro fuel a listed hdir hinodes hlisting
      obtain ⟨hlies, hrest⟩ := hdir
      cases fuel with
      | zero => cases hlisting
      | succ fuel =>
          rcases (listing_eq_some.mp hlisting).2 with ⟨hzero, -⟩ | ⟨-, -, name, more, -, hmore, rfl⟩
          · exact absurd (hlies.zero_iff.mp hzero) (hinodes e List.mem_cons_self)
          · rw [hlies.size] at hmore
            have hothers := ih hrest (fun e he => hinodes e (List.mem_cons_of_mem _ he)) hmore
            rw [List.map_cons, hothers, places, Listed.place, hlies.inode, UInt32.ofNat_toNat]

/-- And only then. -/
theorem inodes_of_places {m : Memory} {size stop : Nat} {es : List DirEntry} :
    ∀ {fuel a : Nat} {listed : List Listed}, IsDirectory m stop a es →
      listing m size fuel a = some listed → listed.map Listed.place = places a es →
      ∀ e ∈ es, e.inode.toNat % 256 ≠ 0 := by
  induction es with
  | nil =>
      intro fuel a listed _ _ _ e he
      cases he
  | cons e rest ih =>
      intro fuel a listed hdir hlisting hplaces
      obtain ⟨hlies, hrest⟩ := hdir
      cases fuel with
      | zero => cases hlisting
      | succ fuel =>
          rcases (listing_eq_some.mp hlisting).2 with ⟨-, rfl⟩ | ⟨hne, -, name, more, -, hmore, rfl⟩
          · cases hplaces
          · rw [hlies.size] at hmore
            rw [List.map_cons, places] at hplaces
            have hothers := ih hrest hmore (List.cons.inj hplaces).2
            intro e' he'
            rcases List.mem_cons.mp he' with rfl | he'
            · exact mt hlies.zero_iff.mpr hne
            · exact hothers e' he'

/--
**Which directory blocks are listed to the end.**  For every content of the block: the loop ends
inside the buffer, and has listed all entries if the block is filled with entries, exactly if
each record that the lengths lead to has a length that does not lead out of the buffer, and no
entry of a block of entries has an inode number that 256 divides.
-/
theorem walksDirectory_iff {block : List UInt8} {k : Nat} (hblock : block.length = 1024 * 2 ^ k) :
    WalksDirectory block ↔ SoundFrom (dirBuffer block) (5 * block.length) 0 ∧
      ∀ es, IsDirectory (dirBuffer block) block.length 0 es →
        ∀ e ∈ es, e.inode.toNat % 256 ≠ 0 := by
  have hlength : 2 ≤ block.length := by
    have := Nat.two_pow_pos k
    omega
  constructor
  · rintro ⟨fuel, listed, hlisting, hplaces⟩
    refine ⟨soundFrom_of_listing hlisting, ?_⟩
    intro es hes
    exact inodes_of_places hes hlisting (hplaces es hes)
  · rintro ⟨hsound, hinodes⟩
    obtain ⟨listed, hlisting⟩ := listing_ends hlength (5 * block.length) 0 (by omega) (by omega)
      hsound
    refine ⟨_, listed, hlisting, ?_⟩
    intro es hes
    exact places_of_listing (dirBuffer_clear (Nat.le_refl _)) hes (hinodes es hes) hlisting

/-- A block of one entry, with an inode number of two bytes. -/
def oneEntry (low high : UInt8) : List UInt8 :=
  [low, high, 0, 0, 0, 4, 1, 1, 97] ++ List.replicate 1015 0

theorem oneEntry_length (low high : UInt8) : (oneEntry low high).length = 1024 := by
  rw [oneEntry, List.length_append, List.length_replicate]
  rfl

/-- A directory does not go back. -/
theorem IsDirectory.le {m : Memory} {stop : Nat} {es : List DirEntry} :
    ∀ {a : Nat}, IsDirectory m stop a es → a ≤ stop ∧ (a = stop → es = []) := by
  induction es with
  | nil =>
      intro a h
      exact ⟨Nat.le_of_eq h, fun _ => rfl⟩
  | cons e rest ih =>
      intro a h
      have hfits := h.1.fits
      have hle := (ih h.2).1
      exact ⟨by omega, fun heq => by omega⟩

/-- An entry with inode 2 is listed. -/
theorem walksDirectory_one : WalksDirectory (oneEntry 2 0) := by
  have hclear : dirBuffer (oneEntry 2 0) 1024 = 0 :=
    dirBuffer_clear (Nat.le_of_eq (oneEntry_length 2 0))
  refine (walksDirectory_iff (k := 0) (oneEntry_length 2 0)).mpr ⟨?_, ?_⟩
  · intro b hleads hb
    rw [oneEntry_length]
    cases hleads with
    | refl => decide
    | step _ hleads =>
        have hnext : (0 : Nat) + read16 (dirBuffer (oneEntry 2 0)) (0 + 4) = 1024 := by decide
        rw [hnext] at hleads
        cases hleads with
        | refl => exact absurd hclear hb
        | step hb _ => exact absurd hclear hb
  · intro es hes e he
    cases es with
    | nil => cases he
    | cons e' rest =>
        obtain ⟨hlies, hrest⟩ := hes
        have hsize : e'.size.toNat = 1024 := hlies.size.symm.trans (by decide)
        have hinode : e'.inode.toNat = 2 := hlies.inode.symm.trans (by decide)
        obtain rfl : rest = [] := hrest.le.2 (by rw [hsize, oneEntry_length])
        rw [List.mem_singleton.mp he, hinode]
        decide

theorem oneEntry_isDirectory :
    IsDirectory (dirBuffer (oneEntry 0 1)) (oneEntry 0 1).length 0 [⟨256, 1024, 1, [97]⟩] := by
  refine ⟨⟨rfl, rfl, rfl, rfl, ?_, by decide, by decide⟩, (oneEntry_length 0 1).symm⟩
  intro i hi
  obtain rfl : i = 0 := Nat.lt_one_iff.mp hi
  rfl

/-- **An entry with inode 256 is not listed.** -/
theorem entry_not_listed : ¬ ∀ block : List UInt8, block.length = 1024 → WalksDirectory block := by
  intro h
  have hwalks := (walksDirectory_iff (k := 0) (oneEntry_length 0 1)).mp
    (h (oneEntry 0 1) (oneEntry_length 0 1))
  exact hwalks.2 _ oneEntry_isDirectory _ List.mem_cons_self rfl

/-! ### The root directory -/

/-- The first block of the root directory, as far as `lseek` gets there. -/
def Ext2Device.rootBlock (dev : Ext2Device) : List UInt8 :=
  let (bytes, dev) := dev.getInode 2
  let inode := Ext2Inode.ofBytes (store (fun _ => 0) bytes)
  (dev.disk.lseek (dev.blockSize * inode.ptr 0)).bytes dev.blockSize

theorem Ext2Device.rootBlock_length (dev : Ext2Device) :
    dev.rootBlock.length = dev.blockSize.toNat := by
  simp [rootBlock, getInode, Disk.bytes]

/-- One block is read, to the front of the buffer. -/
theorem readInode_block (dev : Ext2Device) (inode : Ext2Inode) (hpos : 0 < dev.blockSize.toNat)
    (x : Nat) : ((dev.readInode inode dev.blockSize).2.1 x).getD 0 =
      dirBuffer ((dev.disk.lseek (dev.blockSize * inode.ptr 0)).bytes dev.blockSize) x := by
  have hone : ∀ p, p * dev.blockSize.toNat < dev.blockSize.toNat → p = 0 := by
    intro p hp
    by_contra hne
    exact absurd hp (Nat.not_lt.mpr (Nat.le_mul_of_pos_left _ (Nat.pos_of_ne_zero hne)))
  have hfit : ∀ p, p * dev.blockSize.toNat < dev.blockSize.toNat → p < 12 →
      (p + 1) * dev.blockSize.toNat < 2 ^ 32 := by
    intro p hp _
    rw [hone p hp, Nat.zero_add, Nat.one_mul]
    exact dev.blockSize.toNat_lt
  obtain ⟨n, -, -, hbuf, hend, hall⟩ := readInode_eq dev inode hfit
  have hn : n = 1 := by
    have hle : n ≤ 1 := by
      by_contra hmore
      exact absurd (hone 1 (hall 1 (by omega))) (by decide)
    have hne : n ≠ 0 := by
      intro hzero
      rw [hzero] at hend
      omega
    omega
  rw [hbuf, hn]
  simp only [after, Nat.one_mul]
  by_cases hx : x < dev.blockSize.toNat
  · have hbyte := Disk.bytes_getElem? (dev.disk.lseek (dev.blockSize * inode.ptr 0)) hx
    rw [if_pos hx, Nat.div_eq_of_lt hx, Nat.mod_eq_of_lt hx, dirBuffer,
      List.getD_eq_getElem?_getD, hbyte]
    simp [position, diskAfter, Disk.lseek_byte]
  · rw [if_neg hx, dirBuffer_clear]
    · rfl
    · simpa [Disk.bytes] using Nat.not_lt.mp hx

/-- **What is listed is the first block of the root directory,** in a buffer of five blocks. -/
theorem Ext2Device.dumpInfo_eq (dev : Ext2Device) (hpos : 0 < dev.blockSize.toNat)
    (hfit : dev.blockSize.toNat * 5 < 2 ^ 32) (fuel : Nat) :
    dev.dumpInfo fuel = listing (dirBuffer dev.rootBlock) (5 * dev.rootBlock.length) fuel 0 := by
  have hsize : (dev.blockSize * 5).toNat = 5 * dev.rootBlock.length := by
    rw [UInt32.toNat_mul, dev.rootBlock_length, Nat.mul_comm 5]
    exact Nat.mod_eq_of_lt hfit
  have hbuf := readInode_block (dev.getInode 2).2
    (Ext2Inode.ofBytes (store (fun _ => 0) (dev.getInode 2).1)) hpos
  exact congrArg₂ (fun m size => listing m size fuel 0) (funext hbuf) hsize

end OsThing.Ext2
