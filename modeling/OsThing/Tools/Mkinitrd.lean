/-
Making the initial ram disk, `tools/mkinitrd.c`.

The tool is built for the machine that the kernel is built on, where an `int` has 32 bits and
the size of a file 64.  Of a file that exists it sees the kind, and the bytes that `fgetc` gets
before the end; a file that is not a regular one is at its end at once.  A file that exists can
be opened, and so can the output file, which is none of them.  What is printed is left out.
-/
import Mathlib.Algebra.Group.Nat.Defs
import Mathlib.Data.List.Basic
import Mathlib.Data.List.Forall2

namespace OsThing.Mkinitrd

/-- The characters of a string. -/
abbrev Name := List UInt8

inductive File
  | regular (content : List UInt8)
  | other
  deriving DecidableEq

/-- What `fgetc` gets before the end. -/
def File.bytes : File → List UInt8
  | .regular content => content
  | .other => []

/-- The arguments behind the name of the output file.  An `int` counts them. -/
abbrev Arguments := {args : List Name // args.length + 2 < 2 ^ 31}

/-! ### The format -/

def initrdMagic : UInt32 := 0xbaabaaba
def maxNameLen : Nat := 256

/-- A 32-bit field. -/
def field (v : UInt32) : List UInt8 :=
  [v.toUInt8, (v >>> 8).toUInt8, (v >>> 16).toUInt8, (v >>> 24).toUInt8]

/-- `initrd_header_t` -/
structure Header where
  nfiles : UInt32
  magic : UInt32

def Header.bytes (h : Header) : List UInt8 := field h.nfiles ++ field h.magic

/-- The array of characters in a file header. -/
abbrev NameField := {name : List UInt8 // name.length = maxNameLen}

/-- `initrd_file_header_t` -/
structure FileHeader where
  name : NameField
  offset : UInt32
  length : UInt32
  magic : UInt32

def FileHeader.bytes (h : FileHeader) : List UInt8 :=
  h.name.val ++ (field h.offset ++ (field h.length ++ field h.magic))

/-- `strncpy( file_buf.name, name, MAX_NAME_LEN )`, which fills the rest with zeros, and leaves
no zero behind a long name. -/
def strncpy (name : Name) : NameField :=
  ⟨(name ++ List.replicate maxNameLen 0).take maxNameLen, by simp⟩

/-! ### The program -/

variable (files : Name → Option File)

/-- The first loop, from an offset on: what it writes. -/
def headerLoop : UInt32 → List Name → List UInt8
  | _, [] => []
  | offset, arg :: rest =>
      match files arg with
      | some (.regular content) =>
          let size := UInt32.ofNat content.length
          FileHeader.bytes ⟨strncpy arg, offset, size, initrdMagic⟩ ++
            headerLoop (offset + size) rest
      | _ => headerLoop offset rest

/-- The second loop: what it writes, and the status. -/
def dataLoop : List Name → List UInt8 × Nat
  | [] => ([], 0)
  | arg :: rest =>
      match files arg with
      | none => ([], 1)
      | some file => (file.bytes ++ (dataLoop rest).1, (dataLoop rest).2)

/-- `main`: the image and the status, or `none` if it prints how it is used. -/
def main (args : Arguments) : Option (List UInt8 × Nat) :=
  if args.val = [] then none
  else
    let header : Header := ⟨UInt32.ofNat args.val.length, initrdMagic⟩
    some (header.bytes ++ (headerLoop files 0 args.val ++ (dataLoop files args.val).1),
      (dataLoop files args.val).2)

end OsThing.Mkinitrd
