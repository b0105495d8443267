/-
`read` and `write` of `kern/fs/fs.c` over any table of functions, and the tables of the file
systems that there are: `ramfs`, the console and the keyboard.

Both keep the result of the driver, which is an `int`, in an `unsigned long`, and use it as
one until they return it.
-/
import OsThing.Fs.Calls
import OsThing.Drivers.Console

namespace OsThing.Fs

open Drivers

/-- What `read` and `write` call of `file_funcs_t`, where `σ` is all that drivers keep.  A
call is `none` if it does not come back. -/
structure FileFuncs (σ : Type*) where
  /-- The result, and what goes to `buf`. -/
  pread : σ → FileNode → UInt32 → UInt32 → Option (Int32 × List UInt8 × σ)
  pwrite : σ → FileNode → (Nat → UInt8) → UInt32 → UInt32 → Option (Int32 × σ)

/-- The tables of the file systems at their addresses, and the descriptors of tasks. -/
structure Devices (σ : Type*) where
  ops : Nat → Option (FileFuncs σ)
  state : σ
  nodes : Nat → FileNode
  tasks : Nat → Task

namespace Devices

variable {σ : Type*} (s : Devices σ)

def setFile (t : Nat) (fd : Int) (file : Option FileDescript) : Devices σ :=
  { s with tasks := Function.update s.tasks t ((s.tasks t).setFile (fdIndex fd) file) }

/-- `read`. -/
def read (t : Nat) (fd : Int) (size : UInt32) : Option (Int × List UInt8 × Devices σ) :=
  match goodFile (s.tasks t) fd with
  | none => some (-1, [], s)
  | some d =>
      let fp := s.nodes d.file
      (s.ops fp.fs).bind fun ops =>
        (ops.pread s.state fp size d.rOffset).map fun (ret, buf, state) =>
          let i := ret.toUInt32
          (asInt i, buf, { s with state := state }.setFile t fd
            (some { d with rOffset := d.rOffset + i }))

/-- `write`. -/
def write (t : Nat) (fd : Int) (buf : Nat → UInt8) (size : UInt32) : Option (Int × Devices σ) :=
  match goodFile (s.tasks t) fd with
  | none => some (-1, s)
  | some d =>
      let fp := s.nodes d.file
      (s.ops fp.fs).bind fun ops =>
        (ops.pwrite s.state fp buf size d.wOffset).map fun (ret, state) =>
          let i := ret.toUInt32
          (asInt i, if 0 < i then
              { s with state := state }.setFile t fd (some { d with wOffset := d.wOffset + i })
            else { s with state := state })

end Devices

/-! ### The tables -/

structure DriverState where
  ramfs : Nat → Option RamfsHeader
  console : Console
  /-- What `read_buf` is found to hold, one after another, when the keyboard is read. -/
  keys : List UInt8

/-- `ramfs_file_funcs`, with what memory holds where `ramfs_pread` finds no bytes of a file and
where `ramfs_pwrite` gets a new block. -/
def ramfsFuncs (raw junk : Nat → UInt8) : FileFuncs DriverState where
  pread s node size offset := (s.ramfs node.fs).bind fun head =>
    (ramfsPread head node raw size offset).map fun (i, output) => (i.toInt32, output, s)
  pwrite s node buf size offset := (s.ramfs node.fs).bind fun head =>
    (ramfsPwrite head node buf junk size offset).map fun (i, head) =>
      (i.toInt32, { s with ramfs := Function.update s.ramfs node.fs (some head) })

/-- `console_unsupported` and `kb_unsupported`. -/
def unsupported : Int32 := (-ENOTSUP).toInt32

/-- `console_write`.  Its counter is an `int`, and the comparison with `size` unsigned. -/
def consoleWrite (c : Console) (inBuf : Nat → UInt8) (size : UInt32) : Int32 × Console :=
  (size.toInt32, (List.range size.toNat).foldl (fun c i => c.kputchar (inBuf i)) c)

/-- `console_funcs`. -/
def consoleFuncs : FileFuncs DriverState where
  pread s _ _ _ := some (unsupported, [], s)
  pwrite s _ buf size _ :=
    let (i, console) := consoleWrite s.console buf size
    some (i, { s with console := console })

/-- `read_kb`, which waits for as many keys as it is to read. -/
def readKb (keys : List UInt8) (size : UInt32) : Option (Int32 × List UInt8 × List UInt8) :=
  if keys.length < size.toNat then none
  else some (size.toInt32, keys.take size.toNat, keys.drop size.toNat)

/-- `kb_funcs`. -/
def kbFuncs : FileFuncs DriverState where
  pread s _ size _ :=
    (readKb s.keys size).map fun (i, buf, keys) => (i, buf, { s with keys := keys })
  pwrite s _ _ _ _ := some (unsupported, s)

/-- A state in which every file system is a `ramfs`, with the other drivers beside it. -/
def Vfs.devices (s : Vfs) (raw junk : Nat → UInt8) (console : Console) (keys : List UInt8) :
    Devices DriverState where
  ops fs := (s.ramfs fs).map fun _ => ramfsFuncs raw junk
  state := ⟨s.ramfs, console, keys⟩
  nodes := s.nodes
  tasks := s.tasks

end OsThing.Fs
