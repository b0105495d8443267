/-
The commands of the built-in shell that show files: `sh_cat` and `sh_list` of `kern/sys/kshell.c`.

They run in the kernel and call `open`, `read`, `readdir` and `close` themselves.  A command gets
its words, the first one being its name, and what it prints is kept as the bytes that its calls of
`printf` give to `kputchar`.  The lines that the calls below it print for debugging are not kept.

`a` is the block that `open` gets for its node, and `turns` bounds the loop of a command, which
is `none` if it goes on for longer.  `open` has freed the block when it comes back, so that the
one that `sh_list` gets for an entry, `e`, can be the same: what is stored there is a node to
whoever takes it for one, and `asNode` says which.  A name that does not fit into the entry would
go on behind it, and the command is `none` there too.
-/
import OsThing.Fs.Calls
import OsThing.Kern.Stdio
import OsThing.Sys.Kshell

namespace OsThing.Commands

open Fs Stdio

/-- `printf` of a text without a directive. -/
def say (format : String) : List UInt8 := format.toUTF8.toList

/-- `printf( "%d", i )`. -/
def sayNum (i : Int) : Option (List UInt8) := (printNum i.toInt32.toUInt32).map consoleBytes

/-- The loop of `sh_cat`, where `raw` is what memory holds where a file has no bytes. -/
def catLoop (t : Nat) (fp : Int) (raw : Nat → UInt8) : Nat → Vfs → Option (List UInt8 × Vfs)
  | 0, _ => none
  | turns + 1, s =>
      (s.read t fp 512 raw).bind fun (ret, buf, s) =>
        if 0 < ret then
          (catLoop t fp raw turns s).map fun (out, s) => (buf.take ret.toNat ++ out, s)
        else some ([], s)

/-- `sh_cat`. -/
def shCat (fuel turns t a : Nat) (raw : Nat → UInt8) (argv : List Name) (s : Vfs) :
    Option (Int × List UInt8 × Vfs) :=
  match argv with
  | _ :: path :: _ =>
      (s.openCall fuel t path O_RDONLY a).bind fun (fp, s) =>
        if fp < 0 then some (1, say "Could not open file\n", s)
        else
          (catLoop t fp raw turns s).bind fun (out, s) =>
            (sayNum fp).bind fun num =>
              (s.close t fp).map fun (_, s) => (0, out ++ say "Got fp " ++ num ++ say "\n", s)
  | _ => some (1, [], s)

/-- The characters of a name in a `struct dirent`, its zero included. -/
def MAX_NAME_LEN : Nat := 256

/-- The loop of `sh_list`, with the number of entries before. -/
def listLoop (t : Nat) (fp : Int) (e : Nat) (asNode : Dirent → FileNode) :
    Nat → Nat → Dirent → Vfs → Option (List UInt8 × Vfs)
  | 0, _, _, _ => none
  | turns + 1, items, entry, s =>
      (s.readdirCall t fp entry).bind fun (ret, entry, s) =>
        if 0 < ret then
          if MAX_NAME_LEN ≤ entry.name.length then none
          else
            (sayNum entry.inode).bind fun num =>
              (listLoop t fp e asNode turns (items + 1) entry (s.setNode e (asNode entry))).map
                fun (out, s) =>
                  (num ++ say ":" ++ Kshell.bytes entry.name ++ say "\t" ++
                    (if (items + 1) % 8 = 0 then say "\n" else []) ++ out, s)
        else some ([], s)

/-- `sh_list`, which goes on when it could not open the directory.  `entry` is what lies in the
block that `kmalloc` gives it to read entries into. -/
def shList (fuel turns t a e : Nat) (asNode : Dirent → FileNode) (entry : Dirent)
    (argv : List Name) (s : Vfs) : Option (Int × List UInt8 × Vfs) :=
  let toList := argv.getD 1 ['.']
  (s.openCall fuel t toList O_RDONLY a).bind fun (fp, s) =>
    let failed := if fp < 0 then say "Could not open directory.\n" else []
    (listLoop t fp e asNode turns 0 entry s).bind fun (out, s) =>
      (s.close t fp).map fun (_, s) => (0, failed ++ out ++ say "\n", s)

end OsThing.Commands
