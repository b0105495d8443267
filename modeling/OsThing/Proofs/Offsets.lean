/-
The offsets of a descriptor.

`read` and `write` move them by what the driver returns.  A number below 0 is an error, but
both have it in an unsigned variable by then: `read` adds it without a test, and the test of
`write` lets it through.  So an error moves the offset back, in every case.

`lseek` tests the sum of an unsigned offset and a signed argument for being below 0, which it
never is.
-/
import OsThing.Fs.FileFuncs
import OsThing.Proofs.Calls

namespace OsThing.Fs

open Drivers

/-! ### Results -/

/-- An error is not 0. -/
theorem toUInt32_ne_zero {r : Int32} (h : ¬ 0 ≤ r) : r.toUInt32 ≠ 0 := by
  intro hzero
  have hr : r = 0 := by
    rw [← Int32.toInt32_toUInt32 r, hzero]
    rfl
  exact h (hr ▸ Int32.le_refl 0)

theorem add_ne_self {a b : UInt32} (h : b ≠ 0) : a + b ≠ a := by
  intro heq
  refine h (UInt32.toNat_inj.mp ?_)
  have hsum := congrArg UInt32.toNat heq
  rw [UInt32.toNat_add] at hsum
  have ha := a.toNat_lt
  have hb := b.toNat_lt
  show b.toNat = 0
  omega

/-! ### Any driver -/

section Devices

variable {σ : Type*} {s : Devices σ} {t : Nat} {fd : Int} {d : FileDescript} {ops : FileFuncs σ}

/-- `read` returns what the driver did, and moves its offset by what was transferred. -/
def ReadMoves (d : FileDescript) (r : Int32) (ret : Int) (d' : FileDescript) : Prop :=
  ret = r.toInt ∧ d' = if 0 ≤ r then { d with rOffset := d.rOffset + r.toUInt32 } else d

/-- The same of `write`. -/
def WriteMoves (d : FileDescript) (r : Int32) (ret : Int) (d' : FileDescript) : Prop :=
  ret = r.toInt ∧ d' = if 0 ≤ r then { d with wOffset := d.wOffset + r.toUInt32 } else d

theorem Devices.goodFile_setFile (hd : goodFile (s.tasks t) fd = some d) (state : σ)
    (d' : FileDescript) :
    goodFile (({ s with state := state }.setFile t fd (some d')).tasks t) fd = some d' := by
  show goodFile (Function.update s.tasks t _ t) fd = some d'
  rw [Function.update_self]
  exact Fs.goodFile_setFile hd d'

/-- What `read` does with the result of the driver, whatever it is. -/
theorem Devices.read_moves {size : UInt32} {r : Int32} {bytes : List UInt8} {state : σ}
    (hd : goodFile (s.tasks t) fd = some d) (hops : s.ops (s.nodes d.file).fs = some ops)
    (hr : ops.pread s.state (s.nodes d.file) size d.rOffset = some (r, bytes, state)) :
    ∃ s', s.read t fd size = some (r.toInt, bytes, s') ∧
      goodFile (s'.tasks t) fd = some { d with rOffset := d.rOffset + r.toUInt32 } := by
  unfold Devices.read
  rw [hd]
  dsimp only
  rw [hops, Option.bind_some, hr]
  exact ⟨_, rfl, Devices.goodFile_setFile hd state _⟩

theorem Devices.write_moves {buf : Nat → UInt8} {size : UInt32} {r : Int32} {state : σ}
    (hd : goodFile (s.tasks t) fd = some d) (hops : s.ops (s.nodes d.file).fs = some ops)
    (hr : ops.pwrite s.state (s.nodes d.file) buf size d.wOffset = some (r, state)) :
    ∃ s', s.write t fd buf size = some (r.toInt, s') ∧
      goodFile (s'.tasks t) fd = some { d with wOffset := d.wOffset + r.toUInt32 } := by
  unfold Devices.write
  rw [hd]
  dsimp only
  rw [hops, Option.bind_some, hr]
  refine ⟨_, rfl, ?_⟩
  split
  · exact Devices.goodFile_setFile hd state _
  · rename_i hzero
    have hzero : r.toUInt32 = 0 := UInt32.le_zero_iff.mp (UInt32.not_lt.mp hzero)
    rw [hzero, UInt32.add_zero]
    exact hd

/--
**The offsets move by what was transferred if and only if the driver reports no error**, in
`read` and in `write`, for every table of functions.
-/
theorem offsets_move_iff (s : Devices σ) (t : Nat) (fd : Int) (size : UInt32)
    (hd : goodFile (s.tasks t) fd = some d) (hops : s.ops (s.nodes d.file).fs = some ops) :
    (∀ r bytes state, ops.pread s.state (s.nodes d.file) size d.rOffset = some (r, bytes, state) →
      ((∃ ret s' d', s.read t fd size = some (ret, bytes, s') ∧
        goodFile (s'.tasks t) fd = some d' ∧ ReadMoves d r ret d') ↔ 0 ≤ r)) ∧
    (∀ buf r state, ops.pwrite s.state (s.nodes d.file) buf size d.wOffset = some (r, state) →
      ((∃ ret s' d', s.write t fd buf size = some (ret, s') ∧
        goodFile (s'.tasks t) fd = some d' ∧ WriteMoves d r ret d') ↔ 0 ≤ r)) := by
  constructor
  · intro r bytes state hr
    obtain ⟨s', hread, hd'⟩ := Devices.read_moves hd hops hr
    constructor
    · rintro ⟨ret, s₁, d₁, hread₁, hd₁, -, hmoves⟩
      obtain ⟨-, heq⟩ := Prod.mk.inj (Option.some.inj (hread.symm.trans hread₁))
      obtain ⟨-, rfl⟩ := Prod.mk.inj heq
      by_contra hneg
      rw [if_neg hneg, ← Option.some.inj (hd'.symm.trans hd₁)] at hmoves
      exact add_ne_self (toUInt32_ne_zero hneg) (congrArg FileDescript.rOffset hmoves)
    · intro hpos
      exact ⟨r.toInt, s', _, hread, hd', rfl, (if_pos hpos).symm⟩
  · intro buf r state hr
    obtain ⟨s', hwrite, hd'⟩ := Devices.write_moves hd hops hr
    constructor
    · rintro ⟨ret, s₁, d₁, hwrite₁, hd₁, -, hmoves⟩
      obtain ⟨-, rfl⟩ := Prod.mk.inj (Option.some.inj (hwrite.symm.trans hwrite₁))
      by_contra hneg
      rw [if_neg hneg, ← Option.some.inj (hd'.symm.trans hd₁)] at hmoves
      exact add_ne_self (toUInt32_ne_zero hneg) (congrArg FileDescript.wOffset hmoves)
    · intro hpos
      exact ⟨r.toInt, s', _, hwrite, hd', rfl, (if_pos hpos).symm⟩

end Devices

/-- The console, with one descriptor for it at the offsets 100. -/
def consoleDevices : Devices DriverState where
  ops fs := if fs = 0x5000 then some consoleFuncs else none
  state := ⟨fun _ => none, Console.boot fun _ => 0, []⟩
  nodes _ := ⟨0, 0x5000⟩
  tasks _ := ⟨0, 0, 0, 0, fun i => if i = 0 then some ⟨0x3000, 100, 100, 0⟩ else none, 1⟩

/-- Two letters written to the console. -/
theorem offsets_move_console : ∃ ret s' d',
    consoleDevices.write 0 0 (fun _ => 0x41) 2 = some (ret, s') ∧
      goodFile (s'.tasks 0) 0 = some d' ∧ WriteMoves ⟨0x3000, 100, 100, 0⟩ 2 ret d' := by
  have hd : goodFile (consoleDevices.tasks 0) 0 = some ⟨0x3000, 100, 100, 0⟩ := by decide
  have hops : consoleDevices.ops (consoleDevices.nodes 0x3000).fs = some consoleFuncs := rfl
  exact ((offsets_move_iff consoleDevices 0 0 2 hd hops).2 (fun _ => 0x41) 2 _ rfl).mpr (by decide)

/-- A `read` of the console, which it does not support, and one offset 88 bytes back. -/
theorem console_read_moves_back : ∃ s' d',
    consoleDevices.read 0 0 1 = some (-88, [], s') ∧ goodFile (s'.tasks 0) 0 = some d' ∧
      d'.rOffset = 12 ∧ ¬ ReadMoves ⟨0x3000, 100, 100, 0⟩ unsupported (-88) d' := by
  refine ⟨_, _, rfl, rfl, rfl, fun h => ?_⟩
  have hoffset := congrArg FileDescript.rOffset h.2
  rw [if_neg (by decide)] at hoffset
  exact absurd hoffset (by decide)

/-! ### The drivers -/

theorem count_nonneg (size : UInt32) : 0 ≤ size.toInt32 ↔ size.toNat < 2 ^ 31 := by
  have hsize := asInt_eq size
  have hlt := size.toNat_lt
  rw [Int32.le_iff_toInt_le]
  show 0 ≤ asInt size ↔ size.toNat < 2 ^ 31
  rw [hsize]
  split
  · omega
  · omega

/-- The console has no `pread`, and its `pwrite` no error but the sign of a large size. -/
theorem console_results (s : DriverState) (node : FileNode) (buf : Nat → UInt8)
    (size offset : UInt32) :
    (∀ r bytes s', consoleFuncs.pread s node size offset = some (r, bytes, s') → ¬ 0 ≤ r) ∧
      ∀ r s', consoleFuncs.pwrite s node buf size offset = some (r, s') →
        (0 ≤ r ↔ size.toNat < 2 ^ 31) := by
  constructor
  · rintro r bytes s' h
    obtain ⟨rfl, -⟩ := Prod.mk.inj (Option.some.inj h)
    decide
  · rintro r s' h
    obtain ⟨rfl, -⟩ := Prod.mk.inj (Option.some.inj h)
    exact count_nonneg size

/-- The keyboard is the other way round. -/
theorem kb_results (s : DriverState) (node : FileNode) (buf : Nat → UInt8) (size offset : UInt32) :
    (∀ r s', kbFuncs.pwrite s node buf size offset = some (r, s') → ¬ 0 ≤ r) ∧
      ∀ r bytes s', kbFuncs.pread s node size offset = some (r, bytes, s') →
        (0 ≤ r ↔ size.toNat < 2 ^ 31) := by
  constructor
  · rintro r s' h
    obtain ⟨rfl, -⟩ := Prod.mk.inj (Option.some.inj h)
    decide
  · rintro r bytes s' h
    obtain ⟨⟨i, b, keys⟩, hread, heq⟩ := Option.map_eq_some_iff.mp h
    obtain ⟨-, hread⟩ := Option.ite_none_left_eq_some.mp hread
    obtain ⟨rfl, -⟩ := Prod.mk.inj (Option.some.inj hread)
    obtain ⟨rfl, -⟩ := Prod.mk.inj heq
    exact count_nonneg size

theorem ramfsPwrite_asInt {head head' : RamfsHeader} {node : FileNode} {input junk : Nat → UInt8}
    {size offset : UInt32} {i : Int}
    (h : ramfsPwrite head node input junk size offset = some (i, head')) : ∃ n, i = asInt n := by
  obtain ⟨filehead, -, h⟩ := Option.bind_eq_some_iff.mp h
  dsimp only at h
  split at h
  · exact ⟨_, (Prod.mk.inj (Option.some.inj h)).1.symm⟩
  · obtain ⟨-, h⟩ := Option.ite_none_right_eq_some.mp h
    exact ⟨_, (Prod.mk.inj (Option.some.inj h)).1.symm⟩

/-- Over `ramfs` this `read` is the one of the file system calls. -/
theorem read_devices (s : Vfs) (t : Nat) (fd : Int) (size : UInt32) (raw junk : Nat → UInt8)
    (console : Console) (keys : List UInt8) :
    ((s.devices raw junk console keys).read t fd size).map
        (fun (ret, bytes, s') => (ret, bytes, s'.tasks, s'.state.ramfs)) =
      (s.read t fd size raw).map fun (ret, bytes, s') => (ret, bytes, s'.tasks, s'.ramfs) := by
  have htasks : (s.devices raw junk console keys).tasks = s.tasks := rfl
  unfold Devices.read Vfs.read
  rw [htasks]
  rcases hd : goodFile (s.tasks t) fd with _ | d
  · rfl
  dsimp only [Vfs.devices]
  rcases hhead : s.ramfs (s.nodes d.file).fs with _ | head
  · rfl
  simp only [Option.map_some, Option.bind_some, ramfsFuncs, hhead]
  rcases hread : ramfsPread head (s.nodes d.file) raw size d.rOffset with _ | ⟨i, bytes⟩
  · rfl
  obtain ⟨filehead, -, heq⟩ := Option.map_eq_some_iff.mp hread
  obtain ⟨rfl, -⟩ := Prod.mk.inj heq
  simp only [Option.map_some, asInt_toInt32, UInt32.toUInt32_toInt32]
  rfl

/-- And this `write`. -/
theorem write_devices (s : Vfs) (t : Nat) (fd : Int) (buf : Nat → UInt8) (size : UInt32)
    (raw junk : Nat → UInt8) (console : Console) (keys : List UInt8) :
    ((s.devices raw junk console keys).write t fd buf size).map
        (fun (ret, s') => (ret, s'.tasks, s'.state.ramfs)) =
      (s.write t fd buf junk size).map fun (ret, s') => (ret, s'.tasks, s'.ramfs) := by
  have htasks : (s.devices raw junk console keys).tasks = s.tasks := rfl
  unfold Devices.write Vfs.write Vfs.onRamfs
  rw [htasks]
  rcases hd : goodFile (s.tasks t) fd with _ | d
  · rfl
  dsimp only [Vfs.devices]
  rcases hhead : s.ramfs (s.nodes d.file).fs with _ | head
  · rfl
  simp only [Option.map_some, Option.bind_some, ramfsFuncs, hhead]
  rcases hwrite : ramfsPwrite head (s.nodes d.file) buf junk size d.wOffset with _ | ⟨i, head'⟩
  · rfl
  obtain ⟨n, rfl⟩ := ramfsPwrite_asInt hwrite
  simp only [Option.map_some, asInt_toInt32, UInt32.toUInt32_toInt32]
  by_cases hn : n = 0
  · subst hn
    rfl
  · have hpos : 0 < n := UInt32.pos_iff_ne_zero.mpr hn
    have hne : asInt n ≠ 0 := fun hzero => hn (asInt_inj (hzero.trans rfl))
    rw [if_pos hpos, if_pos hne]
    rfl

/-! ### `lseek` -/

/-- What `lseek` adds to, for each offset.  The end of the file is taken to be at 0. -/
def FileDescript.bases (d : FileDescript) (whence : Int) : Nat × Nat :=
  if whence = 1 then (d.rOffset.toNat, d.wOffset.toNat) else (0, 0)

/-- `lseek` refuses and leaves the offsets, or sets them to the sums and returns the first. -/
def SeeksExactly (d : FileDescript) (offset : Int32) (whence ret : Int) (d' : FileDescript) :
    Prop :=
  (ret < 0 ∧ d'.rOffset = d.rOffset ∧ d'.wOffset = d.wOffset) ∨
    (ret = d'.rOffset.toNat ∧ d'.rOffset.toNat < 2 ^ 31 ∧ d'.wOffset.toNat < 2 ^ 31 ∧
      (d'.rOffset.toNat : Int) = (d.bases whence).1 + offset.toInt ∧
      (d'.wOffset.toNat : Int) = (d.bases whence).2 + offset.toInt)

/-- Both sums are numbers that an offset may have. -/
def SumsFit (d : FileDescript) (offset : Int32) : Prop :=
  (0 ≤ d.rOffset.toNat + offset.toInt ∧ d.rOffset.toNat + offset.toInt < 2 ^ 31) ∧
    0 ≤ d.wOffset.toNat + offset.toInt ∧ d.wOffset.toNat + offset.toInt < 2 ^ 31

theorem toInt_eq (x : Int32) : x.toInt =
    if x.toUInt32.toNat < 2 ^ 31 then (x.toUInt32.toNat : Int) else x.toUInt32.toNat - 2 ^ 32 :=
  asInt_eq x.toUInt32

section Lseek

variable {s : Vfs} {t : Nat} {fd : Int} {d : FileDescript}

theorem minus_one_neg : (-1 : Int) < 0 := by decide

theorem goodFile_seek (hd : goodFile (s.tasks t) fd = some d) (r w : UInt32) :
    goodFile ((s.setFile t fd (some { d with rOffset := r, wOffset := w })).tasks t) fd =
      some { d with rOffset := r, wOffset := w } := by
  rw [setFile_tasks, if_pos rfl]
  exact goodFile_setFile hd _

/-- An argument that is not below 0 is the new offset, in the modes that add it to 0. -/
theorem seek_from_zero (hd : goodFile (s.tasks t) fd = some d) {offset : Int32} {whence : Int}
    (hwhence : whence ≠ 1) :
    ∃ d', goodFile ((if offset < 0 then ((-1 : Int), s)
        else (asInt offset.toUInt32, s.setFile t fd
          (some { d with rOffset := offset.toUInt32, wOffset := offset.toUInt32 }))).2.tasks t) fd =
        some d' ∧
      SeeksExactly d offset whence (if offset < 0 then ((-1 : Int), s)
        else (asInt offset.toUInt32, s.setFile t fd
          (some { d with rOffset := offset.toUInt32, wOffset := offset.toUInt32 }))).1 d' := by
  have hbases : d.bases whence = (0, 0) := if_neg hwhence
  have hvalue := toInt_eq offset
  have hlt := offset.toUInt32.toNat_lt
  split
  · exact ⟨d, hd, Or.inl ⟨minus_one_neg, rfl, rfl⟩⟩
  · rename_i hneg
    have hpos : 0 ≤ offset.toInt := Int.not_lt.mp fun h => hneg (Int32.lt_iff_toInt_lt.mpr h)
    have hsmall : offset.toUInt32.toNat < 2 ^ 31 := by
      split at hvalue
      · assumption
      · omega
    rw [if_pos hsmall] at hvalue
    have hret : asInt offset.toUInt32 = offset.toUInt32.toNat := by
      rw [asInt_eq, if_pos hsmall]
    refine ⟨_, goodFile_seek hd _ _, Or.inr ⟨hret, hsmall, hsmall, ?_, ?_⟩⟩
    · rw [hbases, hvalue]
      exact (Int.zero_add _).symm
    · rw [hbases, hvalue]
      exact (Int.zero_add _).symm

/-- When the sum of 32 bits is the exact one. -/
theorem sum_exact_iff {r : UInt32} {offset : Int32} :
    ((r + offset.toUInt32).toNat < 2 ^ 31 ∧
        ((r + offset.toUInt32).toNat : Int) = r.toNat + offset.toInt) ↔
      0 ≤ r.toNat + offset.toInt ∧ r.toNat + offset.toInt < 2 ^ 31 := by
  have hvalue := toInt_eq offset
  have hlt := offset.toUInt32.toNat_lt
  rw [UInt32.toNat_add]
  split at hvalue
  · omega
  · omega

/-- In the mode that adds it to the offsets, the sums have to be numbers that an offset may have:
the source sets them and returns the first. -/
theorem seek_relative_iff {offset : Int32} (hr : d.rOffset.toNat < 2 ^ 31) :
    SeeksExactly d offset 1 (asInt (d.rOffset + offset.toUInt32))
        { d with rOffset := d.rOffset + offset.toUInt32,
                 wOffset := d.wOffset + offset.toUInt32 } ↔ SumsFit d offset := by
  have hbases : d.bases 1 = (d.rOffset.toNat, d.wOffset.toNat) := if_pos rfl
  have hsum : (d.rOffset + offset.toUInt32).toNat < 2 ^ 31 →
      asInt (d.rOffset + offset.toUInt32) = (d.rOffset + offset.toUInt32).toNat :=
    fun hlt => (asInt_eq _).trans (if_pos hlt)
  unfold SeeksExactly
  rw [hbases]
  dsimp only
  constructor
  · rintro (⟨hneg, hsame, -⟩ | ⟨-, hrlt, hwlt, hrsum, hwsum⟩)
    · -- nothing was added, and the offset is no error
      have hlt : (d.rOffset + offset.toUInt32).toNat < 2 ^ 31 := by
        rw [hsame]
        exact hr
      rw [hsum hlt] at hneg
      omega
    · exact ⟨sum_exact_iff.mp ⟨hrlt, hrsum⟩, sum_exact_iff.mp ⟨hwlt, hwsum⟩⟩
  · rintro ⟨hfitr, hfitw⟩
    obtain ⟨hrlt, hrsum⟩ := sum_exact_iff.mpr hfitr
    obtain ⟨hwlt, hwsum⟩ := sum_exact_iff.mpr hfitw
    exact Or.inr ⟨hsum hrlt, hrlt, hwlt, hrsum, hwsum⟩

/--
**`lseek` is exact or refuses, but for the sums in the second mode** that are below 0 or have
more than 31 bits.
-/
theorem lseek_exact_iff (offset : Int32) (whence : Int) (hd : goodFile (s.tasks t) fd = some d)
    (hr : d.rOffset.toNat < 2 ^ 31) :
    (∃ d', goodFile ((s.lseek t fd offset whence).2.tasks t) fd = some d' ∧
        SeeksExactly d offset whence (s.lseek t fd offset whence).1 d') ↔
      (whence = 1 → SumsFit d offset) := by
  unfold Vfs.lseek
  rw [hd]
  dsimp only
  split
  · rename_i hwhence
    exact iff_of_true (seek_from_zero hd (by omega)) (by omega)
  split
  · rename_i hwhence
    subst hwhence
    have hafter := goodFile_seek hd (d.rOffset + offset.toUInt32) (d.wOffset + offset.toUInt32)
    rw [hafter]
    constructor
    · rintro ⟨d', hd', hseeks⟩ -
      obtain rfl := Option.some.inj hd'
      exact (seek_relative_iff hr).mp hseeks
    · intro hfit
      exact ⟨_, rfl, (seek_relative_iff hr).mpr (hfit rfl)⟩
  split
  · rename_i hwhence
    exact iff_of_true (seek_from_zero hd (by omega)) (by omega)
  · rename_i hwhence _
    have hneg : -EINVAL < 0 := by decide
    exact iff_of_true ⟨d, hd, Or.inl ⟨hneg, rfl, rfl⟩⟩ fun h => absurd h hwhence

end Lseek

/-- A file of three bytes, which is all there is in its file system. -/
def threeBytes : RamfsHeader where
  files := [{ type := FS_FILE, mask := 0o777, inode := 1, size := 3,
              data := .buffer ⟨4, fun i => UInt8.ofNat (0x61 + i)⟩ }]
  iCount := 2
  count_eq := by decide
  inodes := rfl

/-- One descriptor, at the start of the file. -/
def oneFile : Vfs where
  ramfs fs := if fs = 0x1000 then some threeBytes else none
  nodes _ := ⟨1, 0x1000⟩
  live := []
  mounts := MountTable.boot fun _ => ⟨none, none, none, 0⟩
  zeroPage := ⟨0, 0⟩
  tasks _ := ⟨0, 0, 0, 0, fun i => if i = 0 then some ⟨0x3000, 0, 0, 0⟩ else none, 1⟩
  opened _ _ := none

/-- Ten bytes on from the start. -/
theorem lseek_exact_on : ∃ d', goodFile ((oneFile.lseek 0 0 10 1).2.tasks 0) 0 = some d' ∧
    SeeksExactly ⟨0x3000, 0, 0, 0⟩ 10 1 (oneFile.lseek 0 0 10 1).1 d' := by
  have hd : goodFile (oneFile.tasks 0) 0 = some ⟨0x3000, 0, 0, 0⟩ := by decide
  have hfit : SumsFit ⟨0x3000, 0, 0, 0⟩ 10 := by
    unfold SumsFit
    decide
  exact (lseek_exact_iff 10 1 hd (by decide)).mpr fun _ => hfit

/-- One byte back from the start: -1 is returned, and both offsets are 2^32 - 1. -/
theorem lseek_before_start : (oneFile.lseek 0 0 (-1) 1).1 = -1 ∧
    ∃ d', goodFile ((oneFile.lseek 0 0 (-1) 1).2.tasks 0) 0 = some d' ∧
      d'.rOffset = 0xffffffff ∧ d'.wOffset = 0xffffffff ∧
      ¬ SeeksExactly ⟨0x3000, 0, 0, 0⟩ (-1) 1 (oneFile.lseek 0 0 (-1) 1).1 d' := by
  refine ⟨by decide, _, rfl, by decide, by decide, ?_⟩
  rintro (⟨-, hsame, -⟩ | ⟨-, hlt, -⟩)
  · exact absurd hsame (by decide)
  · exact absurd hlt (by decide)

end OsThing.Fs
