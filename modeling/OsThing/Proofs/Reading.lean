/-
Reading a file in chunks.

The loop of `ramfs_pread` goes on while both of its counters are below their bounds, so it
takes what is left of the file or what it is asked for, whichever is less (`preadLoop_eq`).
A descriptor that starts at 0 moves on by as much, and thus what its reads return, one after
another, is the file from its start on.
-/
import OsThing.Lib.Runs
import OsThing.Proofs.FileBytes
import OsThing.Proofs.Offsets

namespace OsThing.Fs

open Runs

/-! ### One `ramfs_pread` -/

theorem toNat_succ {n : UInt32} (h : n.toNat + 1 < 2 ^ 32) : (n + 1).toNat = n.toNat + 1 := by
  rw [UInt32.toNat_add]
  exact Nat.mod_eq_of_lt h

/-- **What the loop leaves**, from the counters `i` and `j` on. -/
theorem preadLoop_eq (byte : Nat → UInt8) (fileSize size : UInt32) :
    ∀ (turns : Nat) (i j : UInt32), size.toNat - j.toNat ≤ turns →
      preadLoop byte fileSize size turns i j =
        (i + UInt32.ofNat (min (size.toNat - j.toNat) (fileSize.toNat - i.toNat)),
          (List.range (min (size.toNat - j.toNat) (fileSize.toNat - i.toNat))).map fun m =>
            byte (i.toNat + m)) := by
  intro turns
  induction turns with
  | zero =>
      intro i j hturns
      rw [Nat.le_zero.mp hturns, Nat.zero_min]
      exact congrArg (·, []) (UInt32.add_zero i).symm
  | succ turns ih =>
      intro i j hturns
      unfold preadLoop
      split
      · rename_i hmore
        have hj : j.toNat < size.toNat := UInt32.lt_iff_toNat_lt.mp hmore.1
        have hi : i.toNat < fileSize.toNat := UInt32.lt_iff_toNat_lt.mp hmore.2
        have hsize := size.toNat_lt
        have hfile := fileSize.toNat_lt
        have hj' : (j + 1).toNat = j.toNat + 1 := toNat_succ (by omega)
        have hi' : (i + 1).toNat = i.toNat + 1 := toNat_succ (by omega)
        have hcount : min (size.toNat - j.toNat) (fileSize.toNat - i.toNat) =
            min (size.toNat - (j + 1).toNat) (fileSize.toNat - (i + 1).toNat) + 1 := by
          omega
        rw [ih (i + 1) (j + 1) (by omega), hcount, List.range_succ_eq_map, List.map_cons,
          List.map_map, hi']
        refine Prod.ext ?_ ?_
        · show i + 1 + UInt32.ofNat _ = i + UInt32.ofNat (_ + 1)
          rw [UInt32.ofNat_add, UInt32.add_assoc, UInt32.add_comm 1]
          rfl
        · refine congrArg (byte i.toNat :: ·) (List.map_congr_left fun m _ => ?_)
          show byte (i.toNat + 1 + m) = byte (i.toNat + (m + 1))
          rw [Nat.add_assoc, Nat.add_comm 1]
      · rename_i hstop
        have hcount : min (size.toNat - j.toNat) (fileSize.toNat - i.toNat) = 0 := by
          rw [UInt32.lt_iff_toNat_lt, UInt32.lt_iff_toNat_lt] at hstop
          omega
        rw [hcount]
        exact congrArg (·, []) (UInt32.add_zero i).symm

/-- `ramfs_pread` is this loop, from its offset on, and the difference that `i` has made. -/
theorem ramfsPread_loop (head : RamfsHeader) (node : FileNode) (raw : Nat → UInt8)
    (size offset : UInt32) :
    ramfsPread head node raw size offset = (head.getFileH node.inode).map fun filehead =>
      let (i, output) := preadLoop (filehead.data.byte raw) filehead.size size size.toNat offset 0
      (asInt (i - offset), output) := by
  unfold ramfsPread
  refine congrArg (Option.map · _) (funext fun filehead => ?_)
  rw [preadLoop_eq _ _ _ _ _ _ (Nat.sub_le _ _)]
  refine Prod.ext (congrArg asInt ?_) rfl
  rw [UInt32.add_comm offset, UInt32.add_sub_cancel]
  rfl

/-- Beyond the size of the file there is nothing to read, and nothing is written. -/
theorem ramfsPread_beyond {head : RamfsHeader} {node : FileNode} {filehead : FileHeader}
    (hfile : head.getFileH node.inode = some filehead) (raw : Nat → UInt8) (size : UInt32)
    {offset : UInt32} (h : filehead.size ≤ offset) :
    ramfsPread head node raw size offset = some (0, []) := by
  have hcount : min size.toNat (filehead.size.toNat - offset.toNat) = 0 := by
    have hle := UInt32.le_iff_toNat_le.mp h
    omega
  unfold ramfsPread
  rw [hfile, Option.map_some]
  dsimp only
  rw [hcount]
  rfl

/-! ### Any number of reads -/

/-- All the bytes of a file. -/
def Contents.bytes (c : Contents) : List UInt8 := (List.range c.size).map c.byte

/-- A task that reads a file, with what it has got so far. -/
structure Reading where
  vfs : Vfs
  got : List UInt8

variable {t : Nat} {fd : Int} {raw : Nat → UInt8} {c : Contents}

def readStep (t : Nat) (fd : Int) (raw : Nat → UInt8) (s : Reading) (size : UInt32) :
    Option Reading :=
  (s.vfs.read t fd size raw).map fun (_, bytes, vfs) => ⟨vfs, s.got ++ bytes⟩

/-- The next `read` returns what it is asked for or what is left, whichever is less. -/
def ReadsNext (t : Nat) (fd : Int) (raw : Nat → UInt8) (c : Contents) (s : Reading)
    (size : UInt32) : Prop :=
  ∃ bytes vfs, s.vfs.read t fd size raw =
      some (((min size.toNat (c.size - s.got.length) : Nat) : Int), bytes, vfs) ∧
    bytes.length = min size.toNat (c.size - s.got.length)

/-- The descriptor is as far in the file as what was read. -/
structure ReadInv (t : Nat) (fd : Int) (raw : Nat → UInt8) (c : Contents) (s : Reading) : Prop where
  file : ∃ d head filehead, goodFile (s.vfs.tasks t) fd = some d ∧
    s.vfs.ramfs (s.vfs.nodes d.file).fs = some head ∧
    head.getFileH (s.vfs.nodes d.file).inode = some filehead ∧
    filehead.size.toNat = c.size ∧ filehead.data.byte raw = c.byte ∧
    d.rOffset.toNat = s.got.length
  room : s.got.length ≤ c.size
  got : s.got = c.bytes.take s.got.length

/-- A chunk of the file. -/
def Contents.chunk (c : Contents) (offset count : Nat) : List UInt8 :=
  (List.range count).map fun j => c.byte (offset + j)

theorem Contents.length_chunk (c : Contents) (offset count : Nat) :
    (c.chunk offset count).length = count := by
  unfold Contents.chunk
  rw [List.length_map, List.length_range]

theorem Contents.take_add (c : Contents) {offset count : Nat} (h : offset + count ≤ c.size) :
    c.bytes.take (offset + count) = c.bytes.take offset ++ c.chunk offset count := by
  have hchunk : (c.bytes.drop offset).take count = c.chunk offset count := by
    refine List.ext_getElem ?_ fun j hj _ => ?_
    · rw [List.length_take, List.length_drop, Contents.bytes, List.length_map, List.length_range,
        Contents.length_chunk]
      omega
    · simp [Contents.bytes, Contents.chunk]
  rw [List.take_add, hchunk]

/-- **One `read`.** -/
theorem ReadInv.read {s : Reading} {size : UInt32} (h : ReadInv t fd raw c s)
    (hsize : size.toNat < 2 ^ 31) :
    ∃ bytes vfs, s.vfs.read t fd size raw =
        some (((min size.toNat (c.size - s.got.length) : Nat) : Int), bytes, vfs) ∧
      bytes.length = min size.toNat (c.size - s.got.length) ∧
      ReadInv t fd raw c ⟨vfs, s.got ++ bytes⟩ := by
  obtain ⟨d, head, filehead, hd, hhead, hfile, hlen, hbyte, hoffset⟩ := h.file
  have hroom := h.room
  obtain ⟨count, hcount⟩ : ∃ count, count = min size.toNat (c.size - s.got.length) := ⟨_, rfl⟩
  have hlt : count < 2 ^ 31 := by omega
  have hfits : (UInt32.ofNat count).toNat = count :=
    UInt32.toNat_ofNat_of_lt (by show count < 2 ^ 32; omega)
  have hret : asInt (UInt32.ofNat count) = count := by
    rw [asInt_eq, hfits, if_pos hlt]
  have hpread : ramfsPread head (s.vfs.nodes d.file) raw size d.rOffset =
      some (asInt (UInt32.ofNat count), c.chunk s.got.length count) := by
    unfold ramfsPread
    rw [hfile, Option.map_some]
    dsimp only
    rw [hlen, hoffset, hbyte, ← hcount]
    rfl
  have hread : s.vfs.read t fd size raw = some ((count : Int), c.chunk s.got.length count,
      s.vfs.setFile t fd (some { d with rOffset := d.rOffset + UInt32.ofNat count })) := by
    unfold Vfs.read
    rw [hd]
    dsimp only
    rw [hhead, Option.bind_some, hpread, Option.map_some, asInt_toInt32, UInt32.toUInt32_toInt32,
      hret]
  have hlength : (s.got ++ c.chunk s.got.length count).length = s.got.length + count := by
    rw [List.length_append, Contents.length_chunk]
  rw [← hcount]
  refine ⟨_, _, hread, Contents.length_chunk _ _ _, ?_, ?_, ?_⟩
  · refine ⟨{ d with rOffset := d.rOffset + UInt32.ofNat count }, head, filehead, ?_, hhead, hfile,
      hlen, hbyte, ?_⟩
    · rw [setFile_tasks, if_pos rfl]
      exact goodFile_setFile hd _
    · show (d.rOffset + UInt32.ofNat count).toNat = (s.got ++ c.chunk s.got.length count).length
      have hfile := filehead.size.toNat_lt
      rw [hlength, UInt32.toNat_add, hfits, hoffset]
      exact Nat.mod_eq_of_lt (by omega)
  · rw [hlength]
    omega
  · rw [hlength, c.take_add (by omega), ← h.got]

/--
**Reading in any chunks gives the file.**  For every file of bytes and every sequence of reads
of fewer than 2^31 bytes on a descriptor that is at the start of it, what was read is always a
part of the file from its start on, and each call returns what it is asked for or what is left,
so 0 at the end; and beyond the size there is nothing.
-/
theorem chunks_read_file {s : Vfs} {d : FileDescript} {head : RamfsHeader} {filehead : FileHeader}
    {b : Buffer} (raw : Nat → UInt8) (hd : goodFile (s.tasks t) fd = some d)
    (hfresh : d.rOffset = 0) (hhead : s.ramfs (s.nodes d.file).fs = some head)
    (hfile : head.getFileH (s.nodes d.file).inode = some filehead)
    (hdata : filehead.data = .buffer b) (sizes : List UInt32)
    (hsizes : ∀ size ∈ sizes, size.toNat < 2 ^ 31) :
    Always (readStep t fd raw)
        (fun r => r.got <+: Contents.bytes ⟨filehead.size.toNat, b.byte⟩) ⟨s, []⟩ sizes ∧
      EveryTry (readStep t fd raw) (ReadsNext t fd raw ⟨filehead.size.toNat, b.byte⟩) ⟨s, []⟩
        sizes ∧
      ∀ size offset, filehead.size ≤ offset →
        ramfsPread head (s.nodes d.file) raw size offset = some (0, []) := by
  have hbyte : filehead.data.byte raw = b.byte := by
    rw [hdata]
    rfl
  have hstart : ReadInv t fd raw ⟨filehead.size.toNat, b.byte⟩ ⟨s, []⟩ := by
    refine ⟨⟨d, head, filehead, hd, hhead, hfile, rfl, hbyte, ?_⟩, Nat.zero_le _, rfl⟩
    rw [hfresh]
    rfl
  have hkeep : ∀ (r : Reading) (size : UInt32) (r' : Reading),
      ReadInv t fd raw ⟨filehead.size.toNat, b.byte⟩ r → readStep t fd raw r size = some r' →
      size.toNat < 2 ^ 31 → ReadInv t fd raw ⟨filehead.size.toNat, b.byte⟩ r' := by
    intro r size r' hr hstep hsize
    obtain ⟨bytes, vfs, hread, -, hnext⟩ := hr.read hsize
    unfold readStep at hstep
    rw [hread] at hstep
    exact Option.some.inj hstep ▸ hnext
  have htries : EveryTry (readStep t fd raw) (fun _ size => size.toNat < 2 ^ 31) ⟨s, []⟩ sizes :=
    everyTry_of_mem _ hsizes
  refine ⟨(always_of_inv hkeep hstart htries.everyStep).mono fun r hr => ?_,
    everyTry_of_inv hkeep (fun r size hr hsize => ?_) hstart htries,
    fun size offset h => ramfsPread_beyond hfile raw size h⟩
  · rw [hr.got]
    exact List.take_prefix _ _
  · obtain ⟨bytes, vfs, hread, hlength, -⟩ := hr.read hsize
    exact ⟨bytes, vfs, hread, hlength⟩

/-- Two bytes, one of the two that are asked for, and none. -/
theorem chunks_read_three :
    Always (readStep 0 0 fun _ => 0)
        (fun r => r.got <+: Contents.bytes ⟨3, fun i => UInt8.ofNat (0x61 + i)⟩) ⟨oneFile, []⟩
        [2, 2, 7] ∧
      EveryTry (readStep 0 0 fun _ => 0)
        (ReadsNext 0 0 (fun _ => 0) ⟨3, fun i => UInt8.ofNat (0x61 + i)⟩) ⟨oneFile, []⟩ [2, 2, 7] ∧
      ∀ size offset, 3 ≤ offset →
        ramfsPread threeBytes ⟨1, 0x1000⟩ (fun _ => 0) size offset = some (0, []) := by
  have hd : goodFile (oneFile.tasks 0) 0 = some ⟨0x3000, 0, 0, 0⟩ := by decide
  exact chunks_read_file (fun _ => 0) hd rfl rfl rfl rfl [2, 2, 7] (by simp)

end OsThing.Fs
