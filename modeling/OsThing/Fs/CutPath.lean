/-
How `mkdir` and `mknod` in `kern/fs/fs.c` come to the directory and the name.

In `Fs/Calls` they have the parts of their path from `dirPath` and `lastName`.  Here they look
for the last slash themselves, from the end of the string to its second character, and put a
zero in its place.  The string is the one of the caller, so what becomes of it is part of the
result.  Both start with a node that nothing was assigned to, `junk`.
-/
import OsThing.Fs.Calls

namespace OsThing.Fs

/-- `for ( i = strlen( path ); i > 0; i-- ) if ( path[i] == '/' ) break;` -/
def lastSlash (path : Name) : Nat → Nat
  | 0 => 0
  | i + 1 => if path[i + 1]? = some '/' then i + 1 else lastSlash path i

/-- Where the path is cut, or 0. -/
def cutIndex (path : Name) : Nat := lastSlash path path.length

/-- The string of the caller after `path[i] = 0`. -/
def cutString (path : Name) (i : Nat) : Name := if i = 0 then path else path.set i '\x00'

/-- The path that is looked up for the directory, and `file`. -/
def splitPath (path : Name) (i : Nat) : Name × Name :=
  if i ≠ 0 then (path.take i, path.drop (i + 1))
  else if path.head? = some '/' then (['/'], path.drop 1)
  else (['.'], path)

namespace Vfs

variable (s : Vfs)

/-- `mkdir`: the result, the string of the caller, and the state. -/
def mkdirCut (fuel t : Nat) (path : Name) (mode : UInt32) (junk : FileNode) :
    Option (Int × Name × Vfs) :=
  (fsFindPath s fuel t path junk).toOption.bind fun (ret, dir) =>
    if ret = 0 then some (-EEXIST, path, s)
    else
      let i := cutIndex path
      let (dirName, file) := splitPath path i
      (fsFindPath s fuel t dirName dir).toOption.bind fun (ret, dir) =>
        if ret < 0 then some (ret, cutString path i, s)
        else (s.onRamfs dir fun head => ramfsMkdir head dir file mode).map fun (ret, s) =>
          (ret, cutString path i, s)

/-- `mknod`, which has the test of `ret` in a comment. -/
def mknodCut (fuel t : Nat) (path : Name) (mode : UInt32) (dev : Nat) (junk : FileNode) :
    Option (Int × Name × Vfs) :=
  (fsFindPath s fuel t path junk).toOption.bind fun (ret, fp) =>
    if ret = 0 then some (-EEXIST, path, s)
    else
      let i := cutIndex path
      let (dirName, file) := splitPath path i
      (fsFindPath s fuel t dirName fp).toOption.bind fun (_, fp) =>
        (s.onRamfs fp fun head => ramfsMknod head fp file mode dev).map fun (ret, s) =>
          (ret, cutString path i, s)

end Vfs

end OsThing.Fs
