/-
A file of `ramfs` against an array of bytes.

`Contents` is what a file is for: a size, and a byte at every place below it.  A write
replaces one range and lets the size grow, a read returns what is there.  `IsByteArray`
says that a sequence of `ramfs_pwrite` calls goes the way of the array: every call
returns the number of bytes it was given, and after every call the size and all reads
agree.

No call at all does.  The loop copies one byte more than it is given, and what the
function returns is where the loop stopped, which only for an offset of -1 can be the
number of bytes; and the size it stores is that of the write, which is the size of the
file only for an offset of 0.
-/
import OsThing.Fs.Ramfs

namespace OsThing.Fs

/-! ### The array -/

/-- What a file holds. -/
structure Contents where
  size : Nat
  byte : Nat → UInt8

/-- The file after a write of `size` bytes of `input` at `offset`. -/
def Contents.write (c : Contents) (input : Nat → UInt8) (size offset : Nat) : Contents where
  size := max c.size (offset + size)
  byte := fun i => if offset ≤ i ∧ i < offset + size then input (i - offset) else c.byte i

/-- What a read of at most `size` bytes at `offset` returns. -/
def Contents.read (c : Contents) (size offset : Nat) : List UInt8 :=
  (List.range (min size (c.size - offset))).map fun j => c.byte (offset + j)

/-- The file of `node` has the size and the bytes of `c`. -/
def Holds (head : RamfsHeader) (node : FileNode) (c : Contents) : Prop :=
  (∃ filehead, head.getFileH node.inode = some filehead ∧ filehead.size.toNat = c.size) ∧
    ∀ raw size offset, ∃ ret, ramfsPread head node raw size offset =
      some (ret, c.read size.toNat offset.toNat)

/-- One call of `ramfs_pwrite`. -/
structure WriteCall where
  input : Nat → UInt8
  junk : Nat → UInt8
  size : UInt32
  offset : UInt32

/-- The calls go as they would on an array that holds `c` at first. -/
def IsByteArray (node : FileNode) : RamfsHeader → Contents → List WriteCall → Prop
  | head, c, [] => Holds head node c
  | head, c, w :: rest =>
      Holds head node c ∧
        ∃ head', ramfsPwrite head node w.input w.junk w.size w.offset =
            some (asInt w.size, head') ∧
          IsByteArray node head' (c.write w.input w.size.toNat w.offset.toNat) rest

theorem IsByteArray.holds {node : FileNode} {head : RamfsHeader} {c : Contents}
    {ws : List WriteCall} (h : IsByteArray node head c ws) : Holds head node c := by
  cases ws with
  | nil => exact h
  | cons w rest => exact h.1

/-! ### One write -/

/-- Where the loop of `ramfs_pwrite` stops. -/
def stopAt (size offset : UInt32) : UInt32 :=
  if offset < size + offset + 1 then size + offset + 1 else offset

/-- A write stores its own size, and returns where its loop stopped. -/
theorem ramfsPwrite_spec {head head' : RamfsHeader} {node : FileNode} {input junk : Nat → UInt8}
    {size offset : UInt32} {ret : Int}
    (h : ramfsPwrite head node input junk size offset = some (ret, head')) :
    ret = asInt (stopAt size offset) ∧
      ∃ filehead, head'.getFileH node.inode = some filehead ∧ filehead.size = size := by
  unfold ramfsPwrite at h
  obtain ⟨filehead, hfile, h⟩ := Option.bind_eq_some_iff.mp h
  dsimp only at h
  split at h
  · obtain ⟨rfl, rfl⟩ := Prod.mk.inj (Option.some.inj h)
    refine ⟨rfl, ?_⟩
    rw [RamfsHeader.getFileH_modifyFile, hfile]
    exact ⟨_, congrArg some (if_pos rfl), rfl⟩
  · split at h
    · obtain ⟨rfl, rfl⟩ := Prod.mk.inj (Option.some.inj h)
      refine ⟨rfl, ?_⟩
      rw [RamfsHeader.getFileH_modifyFile, hfile]
      exact ⟨_, congrArg some (if_pos rfl), rfl⟩
    · cases h

/-- A write at the start of the file does not stop at its size. -/
theorem stopAt_zero_ne (size : UInt32) : stopAt size 0 ≠ size := by
  unfold stopAt
  intro h
  split at h
  · grind
  · rename_i hwrap
    -- `size` would have to be 0, and then the loop does run
    subst h
    exact hwrap (by decide)

/-- No write to an empty file both returns its size and leaves a file of the right size. -/
theorem first_write_fails {head head' : RamfsHeader} {node : FileNode} {w : WriteCall}
    {unwritten : Nat → UInt8}
    (h : ramfsPwrite head node w.input w.junk w.size w.offset = some (asInt w.size, head')) :
    ¬ Holds head' node
      (Contents.write ⟨0, unwritten⟩ w.input w.size.toNat w.offset.toNat) := by
  intro hholds
  obtain ⟨hret, filehead, hfile, hsize⟩ := ramfsPwrite_spec h
  obtain ⟨⟨filehead', hfile', hsize'⟩, -⟩ := hholds
  obtain rfl : filehead = filehead' := Option.some.inj (hfile.symm.trans hfile')
  have hlen : w.size.toNat = max 0 (w.offset.toNat + w.size.toNat) := hsize ▸ hsize'
  have hoffset : w.offset = 0 := UInt32.toNat_inj.mp (show w.offset.toNat = 0 by omega)
  have hstop := asInt_inj hret
  rw [hoffset] at hstop
  exact stopAt_zero_ne w.size hstop.symm

/-! ### A new file -/

/-- A file that `ramfs_mknod` has just made is empty. -/
theorem holds_new {head head' : RamfsHeader} {node : FileNode} {name : Name} {mode : UInt32}
    {dev : Nat} (unwritten : Nat → UInt8)
    (h : ramfsMknod head node name mode dev = some (0, head')) :
    Holds head' ⟨head.iCount, node.fs⟩ ⟨0, unwritten⟩ := by
  rcases ramfsAdd_cases h with ⟨hret, -⟩ | ⟨-, hadded⟩
  · exact absurd hret (by decide)
  · obtain ⟨_, _, _, -, -, -, -, -, hfiles⟩ := hadded.files
    have hfile := (hfiles head.iCount).trans (if_pos rfl)
    refine ⟨⟨_, hfile, rfl⟩, fun raw size offset => ?_⟩
    unfold ramfsPread Contents.read
    rw [hfile, Option.map_some]
    have hcount : min size.toNat ((0 : UInt32).toNat - offset.toNat) = 0 := by
      rw [UInt32.toNat_zero, Nat.zero_sub, Nat.min_zero]
    dsimp only
    rw [hcount, Nat.zero_sub, Nat.min_zero]
    exact ⟨_, rfl⟩

/--
**A new file is an array of bytes only as long as nothing is written to it.**  Bytes that
nothing was written to may be anything.
-/
theorem byte_array_iff (head head' : RamfsHeader) (node : FileNode) (name : Name) (mode : UInt32)
    (unwritten : Nat → UInt8) (writes : List WriteCall)
    (h : ramfsMknod head node name mode FS_FILE = some (0, head')) :
    IsByteArray ⟨head.iCount, node.fs⟩ head' ⟨0, unwritten⟩ writes ↔ writes = [] := by
  have hnew := holds_new unwritten h
  cases writes with
  | nil => exact iff_of_true hnew rfl
  | cons w rest =>
      refine iff_of_false (fun hall => ?_) (List.cons_ne_nil w rest)
      obtain ⟨-, head'', hwrite, hrest⟩ := hall
      exact first_write_fails hwrite hrest.holds

/-- The first file below the root, before anything is written to it. -/
theorem byte_array_untouched :
    ∃ head', ramfsMknod initRamfs ⟨1, 0x1000⟩ ['a'] 0o644 FS_FILE = some (0, head') ∧
      (IsByteArray ⟨2, 0x1000⟩ head' ⟨0, fun _ => 0⟩ [] ↔ ([] : List WriteCall) = []) :=
  ⟨_, rfl, byte_array_iff initRamfs _ ⟨1, 0x1000⟩ ['a'] 0o644 (fun _ => 0) [] rfl⟩

/-- Two bytes written to a new file make `ramfs_pwrite` return 3. -/
theorem two_bytes_return_three :
    ∃ head', ramfsMknod initRamfs ⟨1, 0x1000⟩ ['a'] 0o644 FS_FILE = some (0, head') ∧
      ¬ IsByteArray ⟨2, 0x1000⟩ head' ⟨0, fun _ => 0⟩ [⟨fun _ => 0x61, fun _ => 0, 2, 0⟩] := by
  refine ⟨_, rfl, fun h => ?_⟩
  obtain ⟨-, head'', hwrite, -⟩ := h
  have hret : asInt 2 = asInt (stopAt 2 0) := (ramfsPwrite_spec hwrite).1
  exact absurd hret (by decide)

end OsThing.Fs
