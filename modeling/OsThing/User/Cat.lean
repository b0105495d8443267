/-
`user/cat.c`, on the descriptors and files of one process.

`buf` is what memory holds from the buffer on, since `write` looks at one byte more than it is
asked to; `raw` and `junk` are what `read` and `write` find where a file has no bytes.  `turns`
bounds the rounds that are made for one file, and each path comes with the block that `open` gets
for its node.
-/
import OsThing.Fs.Calls

namespace OsThing.Cat

open Fs

def stdout : Int := 1

/-- The buffer, once `bytes` were read into it. -/
def fill (bytes : List UInt8) (buf : Nat → UInt8) : Nat → UInt8 := fun i => bytes.getD i (buf i)

section Process

variable (fuel turns t : Nat) (raw junk : Nat → UInt8)

/-- `do … while ( i )`: whether it has come to its end, or `main` returns 1 instead. -/
def copyLoop (fd : Int) : Nat → (Nat → UInt8) → Vfs → Option (Bool × (Nat → UInt8) × Vfs)
  | 0, _, _ => none
  | turns + 1, buf, s =>
      (s.read t fd 512 raw).bind fun (i, bytes, s) =>
        let buf := fill bytes buf
        if i < 0 then some (false, buf, s)
        else
          (s.write t stdout buf junk i.toInt32.toUInt32).bind fun (ret, s) =>
            if ret < 0 then some (false, buf, s)
            else if i ≠ 0 then copyLoop fd turns buf s
            else some (true, buf, s)

/-- `main`, for the paths behind its name. -/
def main : List (Name × Nat) → (Nat → UInt8) → Vfs → Option (Int × Vfs)
  | [], _, s => some (0, s)
  | (path, a) :: rest, buf, s =>
      (s.openCall fuel t path O_RDONLY a).bind fun (fd, s) =>
        if fd < 0 then some (1, s)
        else
          (copyLoop t raw junk fd turns buf s).bind fun (ended, buf, s) =>
            if ended then (s.close t fd).bind fun (_, s) => main rest buf s
            else some (1, s)

end Process

end OsThing.Cat
