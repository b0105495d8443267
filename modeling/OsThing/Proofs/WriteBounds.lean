/-
Where `ramfs_pwrite` reads and writes.

Its loop is to copy `size` bytes, and copies one more, for its bound has the byte that the
buffer is longer.  That byte is not the caller's; and where no new buffer is taken, which
depends on the size alone, the loop may also leave the old one.  Only a bound that has more
than 32 bits, of which the loop sees the rest, keeps it from running at all.
-/
import OsThing.Lib.Runs
import OsThing.Proofs.FileBytes

namespace OsThing.Fs

open Runs

/-! ### What the loop touches -/

/-- For each turn of `copyLoop`, where it stores, and which byte of `input` it reads. -/
def copyAccesses (offset : Nat) : Nat → Nat → List (Nat × Nat)
  | 0, _ => []
  | turns + 1, i => (i, i - offset) :: copyAccesses offset turns (i + 1)

/-- The loop is these stores, one after another. -/
theorem copyLoop_eq_foldl (input : Nat → UInt8) (offset : Nat) :
    ∀ (turns i : Nat) (data : Nat → UInt8), copyLoop input offset turns i data =
      (copyAccesses offset turns i).foldl (fun data a => Function.update data a.1 (input a.2))
        data := by
  intro turns
  induction turns with
  | zero => intro i data; rfl
  | succ turns ih =>
      intro i data
      exact ih (i + 1) _

theorem mem_copyAccesses {offset : Nat} {a : Nat × Nat} :
    ∀ {turns i : Nat}, a ∈ copyAccesses offset turns i ↔
      ∃ k < turns, a = (i + k, i + k - offset) := by
  intro turns
  induction turns with
  | zero => intro i; exact iff_of_false List.not_mem_nil fun ⟨_, hk, _⟩ => Nat.not_lt_zero _ hk
  | succ turns ih =>
      intro i
      unfold copyAccesses
      rw [List.mem_cons, ih]
      constructor
      · rintro (rfl | ⟨k, hk, rfl⟩)
        · exact ⟨0, Nat.succ_pos _, rfl⟩
        · refine ⟨k + 1, Nat.succ_lt_succ hk, ?_⟩
          rw [Nat.add_assoc, Nat.add_comm 1]
      · rintro ⟨k, hk, rfl⟩
        rcases k with _ | k
        · exact Or.inl rfl
        · refine Or.inr ⟨k, Nat.lt_of_succ_lt_succ hk, ?_⟩
          rw [Nat.add_assoc, Nat.add_comm 1]

/-- What a call of `ramfs_pwrite` touches. -/
def pwriteAccesses (size offset : UInt32) : List (Nat × Nat) :=
  copyAccesses offset.toNat ((size + offset + 1).toNat - offset.toNat) offset.toNat

/-- The bound of the loop has more than 32 bits. -/
def Wraps (size offset : UInt32) : Prop := 2 ^ 32 ≤ size.toNat + offset.toNat + 1

theorem turns_eq (size offset : UInt32) : (size + offset + 1).toNat - offset.toNat =
    if size.toNat + offset.toNat + 1 < 2 ^ 32 then size.toNat + 1 else 0 := by
  have hsize := size.toNat_lt
  have hoffset := offset.toNat_lt
  rw [UInt32.toNat_add, UInt32.toNat_add]
  show ((size.toNat + offset.toNat) % 2 ^ 32 + 1) % 2 ^ 32 - offset.toNat = _
  split
  · omega
  · omega

/-- **One byte more than the size, or nothing.** -/
theorem mem_pwriteAccesses {size offset : UInt32} {a : Nat × Nat} :
    a ∈ pwriteAccesses size offset ↔
      ¬ Wraps size offset ∧ ∃ k ≤ size.toNat, a = (offset.toNat + k, k) := by
  unfold pwriteAccesses Wraps
  rw [mem_copyAccesses, turns_eq]
  split
  · rename_i hfits
    refine ⟨fun ⟨k, hk, heq⟩ => ⟨Nat.not_le.mpr hfits, k, Nat.le_of_lt_succ hk, ?_⟩,
      fun ⟨_, k, hk, heq⟩ => ⟨k, Nat.lt_succ_of_le hk, ?_⟩⟩
    · rw [heq, Nat.add_sub_cancel_left]
    · rw [heq, Nat.add_sub_cancel_left]
  · rename_i hwraps
    exact iff_of_false (fun ⟨_, hk, _⟩ => Nat.not_lt_zero _ hk)
      fun h => h.1 (Nat.not_lt.mp hwraps)

/-! ### The bounds -/

/-- How many bytes there are from the `data` of a file on. -/
def FileData.capacity : FileData → Nat
  | .entries _ => 0
  | .buffer b => b.length.toNat

/-- How many there are when the loop runs: a new buffer is taken for more than the size. -/
def FileHeader.capacityFor (filehead : FileHeader) (size offset : UInt32) : Nat :=
  if filehead.size < size then (size + offset + 1).toNat else filehead.data.capacity

/-- A write stays in the buffer of the file, and in the bytes that it is given. -/
def InBounds (node : FileNode) (head : RamfsHeader) (w : WriteCall) : Prop :=
  ∀ filehead, head.getFileH node.inode = some filehead → ∀ a ∈ pwriteAccesses w.size w.offset,
    a.1 < filehead.capacityFor w.size w.offset ∧ a.2 < w.size.toNat

/-- When the stores alone are right. -/
theorem stores_inside_iff (filehead : FileHeader) (size offset : UInt32) :
    (∀ a ∈ pwriteAccesses size offset, a.1 < filehead.capacityFor size offset) ↔
      Wraps size offset ∨ filehead.size < size ∨
        size.toNat + offset.toNat + 1 ≤ filehead.data.capacity := by
  by_cases hwraps : Wraps size offset
  · exact iff_of_true (fun a ha => absurd hwraps (mem_pwriteAccesses.mp ha).1) (Or.inl hwraps)
  have hlast : (offset.toNat + size.toNat, size.toNat) ∈ pwriteAccesses size offset :=
    mem_pwriteAccesses.mpr ⟨hwraps, size.toNat, Nat.le_refl _, rfl⟩
  have hstores : (∀ a ∈ pwriteAccesses size offset, a.1 < filehead.capacityFor size offset) ↔
      offset.toNat + size.toNat < filehead.capacityFor size offset := by
    refine ⟨fun h => h _ hlast, fun h a ha => ?_⟩
    obtain ⟨-, k, hk, rfl⟩ := mem_pwriteAccesses.mp ha
    show offset.toNat + k < _
    omega
  rw [hstores, FileHeader.capacityFor]
  split
  · rename_i hnew
    refine iff_of_true ?_ (Or.inr (Or.inl hnew))
    unfold Wraps at hwraps
    rw [UInt32.toNat_add, UInt32.toNat_add]
    show _ < ((size.toNat + offset.toNat) % 2 ^ 32 + 1) % 2 ^ 32
    omega
  · rename_i hold
    rw [or_iff_right hwraps, or_iff_right hold]
    omega

/-- The last byte that is read is not one of those that are given. -/
theorem inBounds_iff {node : FileNode} {head : RamfsHeader} {w : WriteCall}
    (hfile : (head.getFileH node.inode).isSome) :
    InBounds node head w ↔ Wraps w.size w.offset := by
  obtain ⟨filehead, hfile⟩ := Option.isSome_iff_exists.mp hfile
  constructor
  · intro h
    by_contra hwraps
    have hlast := mem_pwriteAccesses.mpr ⟨hwraps, w.size.toNat, Nat.le_refl _, rfl⟩
    exact Nat.lt_irrefl _ (h filehead hfile _ hlast).2
  · intro hwraps filehead' _ a ha
    exact absurd hwraps (mem_pwriteAccesses.mp ha).1

/-! ### Any number of writes -/

def pwriteStep (node : FileNode) (head : RamfsHeader) (w : WriteCall) : Option RamfsHeader :=
  (ramfsPwrite head node w.input w.junk w.size w.offset).map Prod.snd

/-- A write that copies nothing comes back. -/
theorem pwriteStep_wraps {node : FileNode} {head : RamfsHeader} {w : WriteCall}
    (hfile : (head.getFileH node.inode).isSome) (hwraps : Wraps w.size w.offset) :
    ∃ head', pwriteStep node head w = some head' := by
  obtain ⟨filehead, hfile⟩ := Option.isSome_iff_exists.mp hfile
  have hturns : (w.size + w.offset + 1).toNat - w.offset.toNat = 0 := by
    rw [turns_eq, if_neg (Nat.not_lt.mpr hwraps)]
  unfold pwriteStep ramfsPwrite
  rw [hfile, Option.bind_some]
  dsimp only
  split
  · exact ⟨_, rfl⟩
  · rw [if_pos hturns]
    exact ⟨_, rfl⟩

theorem pwriteStep_file {node : FileNode} {head head' : RamfsHeader} {w : WriteCall}
    (h : pwriteStep node head w = some head') : (head'.getFileH node.inode).isSome := by
  obtain ⟨⟨ret, head₁⟩, hwrite, rfl⟩ := Option.map_eq_some_iff.mp h
  obtain ⟨-, filehead, hfile, -⟩ := ramfsPwrite_spec hwrite
  exact Option.isSome_iff_exists.mpr ⟨filehead, hfile⟩

/--
**The writes to a file stay in bounds if and only if none of them copies anything**, for every
sequence of writes with any sizes and offsets.
-/
theorem pwrite_in_bounds_iff (node : FileNode) (writes : List WriteCall) (head : RamfsHeader)
    (hfile : (head.getFileH node.inode).isSome) :
    EveryTry (pwriteStep node) (InBounds node) head writes ↔
      ∀ w ∈ writes, 2 ^ 32 ≤ w.size.toNat + w.offset.toNat + 1 := by
  induction writes generalizing head with
  | nil => exact iff_of_true trivial fun _ hw => absurd hw List.not_mem_nil
  | cons w rest ih =>
      rw [List.forall_mem_cons]
      constructor
      · rintro ⟨hbounds, hrest⟩
        have hwraps := (inBounds_iff hfile).mp hbounds
        obtain ⟨head', hstep⟩ := pwriteStep_wraps hfile hwraps
        exact ⟨hwraps, (ih head' (pwriteStep_file hstep)).mp (hrest head' hstep)⟩
      · rintro ⟨hwraps, hrest⟩
        exact ⟨(inBounds_iff hfile).mpr hwraps, fun head' hstep =>
          (ih head' (pwriteStep_file hstep)).mpr hrest⟩

/-- A new file. -/
def newFile : RamfsHeader := initRamfs.addFile { type := FS_FILE, mask := 0o777, inode := 0 }

/-- Two writes that copy nothing. -/
theorem pwrite_in_bounds_wrapped :
    EveryTry (pwriteStep ⟨2, 0x1000⟩) (InBounds ⟨2, 0x1000⟩) newFile
      [⟨fun _ => 0, fun _ => 0, 0, 0xffffffff⟩, ⟨fun _ => 0, fun _ => 0, 2, 0xfffffffe⟩] :=
  (pwrite_in_bounds_iff ⟨2, 0x1000⟩ _ newFile (by decide)).mpr (by decide)

/-- Two bytes at the start, for which a buffer of three is taken, and then one at 5: the second
write stores at 5 and 6. -/
theorem pwrite_leaves_buffer :
    ¬ EveryTry (pwriteStep ⟨2, 0x1000⟩) (InBounds ⟨2, 0x1000⟩) newFile
      [⟨fun _ => 0x61, fun _ => 0, 2, 0⟩, ⟨fun _ => 0x62, fun _ => 0, 1, 5⟩] ∧
    ∃ head filehead, pwriteStep ⟨2, 0x1000⟩ newFile ⟨fun _ => 0x61, fun _ => 0, 2, 0⟩ = some head ∧
      head.getFileH 2 = some filehead ∧ filehead.capacityFor 1 5 = 3 ∧
      pwriteAccesses 1 5 = [(5, 0), (6, 1)] := by
  refine ⟨fun h => ?_, _, _, rfl, rfl, rfl, rfl⟩
  have hwraps : Wraps 2 0 := (inBounds_iff (by decide)).mp h.1
  exact absurd hwraps (by unfold Wraps; decide)

end OsThing.Fs
