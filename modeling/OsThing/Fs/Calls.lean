/-
The system calls of `kern/fs/fs.c`, and runs of them.

A call takes the number of the task that makes it and a bound on the `readdir` calls its
lookups make for one name.  It is `none` if it does not come back within that bound or
goes on through a wild pointer.  `open` also takes the address at which the allocator
gives it its file node: any block that is not in use.
-/
import OsThing.Fs.Vfs

namespace OsThing.Fs

/-! ### Paths of new files -/

/-- The path up to its last slash, which is empty if there is none. -/
def parentPath (path : Name) : Name :=
  ((path.reverse.dropWhile (· ≠ '/')).drop 1).reverse

/-- What follows the last slash. -/
def lastName (path : Name) : Name := (path.reverse.takeWhile (· ≠ '/')).reverse

/-- Where `mkdir` and `mknod` look for the directory.  A slash at the start of the path does
not end their search for the last one, so the root is a case of its own. -/
def dirPath (path : Name) : Name :=
  if parentPath path ≠ [] then parentPath path
  else if path.head? = some '/' then ['/']
  else ['.']

/-! ### Descriptors -/

/-- An `int` compared with an `unsigned long`. -/
def fdIndex (fd : Int) : Nat := fd.toInt32.toUInt32.toNat

/-- `isgoodfd`. -/
def isgoodfd (task : Task) (fd : Int) : Bool :=
  if task.fileCount = 0 ∨ task.fileCount ≤ fdIndex fd then false
  else (task.files (fdIndex fd)).isSome

/-- The descriptor that a call on `fd` uses, if `isgoodfd` lets it. -/
def goodFile (task : Task) (fd : Int) : Option FileDescript :=
  if isgoodfd task fd then task.files (fdIndex fd) else none

def Task.setFile (task : Task) (i : Nat) (file : Option FileDescript) : Task :=
  { task with files := Function.update task.files i file }

/-- A new descriptor for the node at `a`. -/
def Task.addFile (task : Task) (i a : Nat) : Task :=
  { task.setFile i (some ⟨a, 0, 0, 0⟩) with fileCount := task.fileCount + 1 }

def Task.dropFile (task : Task) (i : Nat) : Task :=
  { task.setFile i none with fileCount := task.fileCount - 1 }

/-- The first place in `files` that is free. -/
def Task.freeSlot (task : Task) : Option Nat :=
  (List.range MAX_FILES).find? fun i => task.files i = none

namespace Vfs

variable (s : Vfs)

def modifyTask (t : Nat) (f : Task → Task) : Vfs :=
  { s with tasks := Function.update s.tasks t (f (s.tasks t)) }

def setFile (t : Nat) (fd : Int) (file : Option FileDescript) : Vfs :=
  s.modifyTask t fun task => task.setFile (fdIndex fd) file

/-- `fs_find_path`, where `buf` is the node at `a`. -/
def findPath (fuel t : Nat) (path : Name) (a : Nat) : Option (Int × Vfs) :=
  (fsFindPath s fuel t path (s.nodes a)).toOption.map fun (ret, node) => (ret, s.setNode a node)

/-- The first lookups of `open`: the result, and whether the file is there. -/
def openFind (fuel t : Nat) (path : Name) (flags : UInt32) (a : Nat) :
    Option (Int × Bool × Vfs) :=
  (s.findPath fuel t path a).bind fun (err, s) =>
    if err < 0 then
      if flags &&& O_CREAT ≠ 0 then
        (s.findPath fuel t (parentPath path) a).map fun (err, s) => (err, false, s)
      else some (-EPERM, false, s)
    else some (err, true, s)

/-- `open` up to where it has the node of the file at `a`, or an error. -/
def openFile (fuel t : Nat) (path : Name) (flags : UInt32) (a : Nat) : Option (Int × Vfs) :=
  (s.openFind fuel t path flags a).bind fun (err, found, s) =>
    if err < 0 then some (err, s)
    else
      (checkPerms s (s.tasks t) (s.nodes a) flags).bind fun good =>
        if !good then some (-EACCES, s)
        else
          (s.onRamfs (s.nodes a) fun head =>
              ramfsOpen head (s.nodes a) (lastName path) flags).bind fun (err, s) =>
            if err < 0 then some (err, s)
            else if found then some (err, s)
            else s.findPath fuel t path a

/-- The end of `open`: a descriptor for the node at `a`. -/
def install (t a : Nat) : Int × Vfs :=
  if MAX_FILES ≤ (s.tasks t).fileCount then (-EMFILE, s)
  else
    match (s.tasks t).freeSlot with
    | none => (-EMFILE, s)
    | some i => (i, s.modifyTask t fun task => task.addFile i a)

/-- `open`.  At `finished` the node is freed, whether there is an error or not. -/
def openCall (fuel t : Nat) (path : Name) (flags : UInt32) (a : Nat) : Option (Int × Vfs) :=
  if a ∈ s.live then none
  else
    ((s.knew a).openFile fuel t path flags a).map fun (err, s) =>
      let (ret, s) := if err < 0 then (err, s) else s.install t a
      (ret, s.kfree a)

/-- `close`. -/
def close (t : Nat) (fd : Int) : Option (Int × Vfs) :=
  match goodFile (s.tasks t) fd with
  | none => some (-ENOENT, s)
  | some d =>
      -- the file system is asked, though `ramfs` has nothing to do
      (s.ramfs (s.nodes d.file).fs).map fun _ =>
        (ramfsClose, s.modifyTask t fun task => task.dropFile (fdIndex fd))

/-- `read`: the result, the bytes that went to `buf`, and the state. -/
def read (t : Nat) (fd : Int) (size : UInt32) (raw : Nat → UInt8) :
    Option (Int × List UInt8 × Vfs) :=
  match goodFile (s.tasks t) fd with
  | none => some (-1, [], s)
  | some d =>
      (s.ramfs (s.nodes d.file).fs).bind fun head =>
        (ramfsPread head (s.nodes d.file) raw size d.rOffset).map fun (i, bytes) =>
          (i, bytes, s.setFile t fd (some { d with rOffset := d.rOffset + i.toInt32.toUInt32 }))

/-- `write`. -/
def write (t : Nat) (fd : Int) (input junk : Nat → UInt8) (size : UInt32) : Option (Int × Vfs) :=
  match goodFile (s.tasks t) fd with
  | none => some (-1, s)
  | some d =>
      (s.onRamfs (s.nodes d.file) fun head =>
          ramfsPwrite head (s.nodes d.file) input junk size d.wOffset).map fun (i, s) =>
        (i, if i ≠ 0 then
              s.setFile t fd (some { d with wOffset := d.wOffset + i.toInt32.toUInt32 })
            else s)

/-- `lseek`.  A sum with an unsigned offset is never below 0. -/
def lseek (t : Nat) (fd : Int) (offset : Int32) (whence : Int) : Int × Vfs :=
  match goodFile (s.tasks t) fd with
  | none => (-ENOENT, s)
  | some d =>
      let seek (r w : UInt32) : Int × Vfs :=
        (asInt r, s.setFile t fd (some { d with rOffset := r, wOffset := w }))
      if whence = 0 then
        if offset < 0 then (-1, s) else seek offset.toUInt32 offset.toUInt32
      else if whence = 1 then seek (d.rOffset + offset.toUInt32) (d.wOffset + offset.toUInt32)
      else if whence = 2 then
        if offset < 0 then (-1, s) else seek offset.toUInt32 offset.toUInt32
      else (-EINVAL, s)

/-- `readdir`. -/
def readdirCall (t : Nat) (fd : Int) (dirp : Dirent) : Option (Int × Dirent × Vfs) :=
  match goodFile (s.tasks t) fd with
  | none => some (-ENOENT, dirp, s)
  | some d =>
      (s.readdir (s.nodes d.file) dirp (asInt d.dOffset)).map fun (ret, dirp) =>
        (ret, dirp, s.setFile t fd (some { d with dOffset := d.dOffset + 1 }))

/-! ### The tree -/

/-- `chdir`: it writes to the node that `cwd` points to. -/
def chdir (fuel t : Nat) (path : Name) : Option (Int × Vfs) :=
  (fsFindPath s fuel t path ⟨0, 0⟩).toOption.map fun (ret, fp) =>
    if ret < 0 then (ret, s) else (0, s.setNode (s.tasks t).cwd fp)

/-- `chroot`. -/
def chroot (fuel t : Nat) (path : Name) : Option (Int × Vfs) :=
  (fsFindPath s fuel t path ⟨0, 0⟩).toOption.map fun (ret, fp) =>
    if ret < 0 then (ret, s) else (0, s.setNode (s.tasks t).root fp)

/-- `mkdir`. -/
def mkdir (fuel t : Nat) (path : Name) (mode : UInt32) : Option (Int × Vfs) :=
  (fsFindPath s fuel t path ⟨0, 0⟩).toOption.bind fun (ret, dir) =>
    if ret = 0 then some (-EEXIST, s)
    else
      (fsFindPath s fuel t (dirPath path) dir).toOption.bind fun (ret, dir) =>
        if ret < 0 then some (ret, s)
        else s.onRamfs dir fun head => ramfsMkdir head dir (lastName path) mode

/-- `mknod`.  Its node starts as `junk`, and is used even if no lookup has filled it. -/
def mknod (fuel t : Nat) (path : Name) (mode : UInt32) (dev : Nat) (junk : FileNode) :
    Option (Int × Vfs) :=
  (fsFindPath s fuel t path junk).toOption.bind fun (ret, fp) =>
    if ret = 0 then some (-EEXIST, s)
    else
      (fsFindPath s fuel t (dirPath path) fp).toOption.bind fun (_, fp) =>
        s.onRamfs fp fun head => ramfsMknod head fp (lastName path) mode dev

/-- `unlink`. -/
def unlink (fuel t : Nat) (path : Name) : Option (Int × Vfs) :=
  (fsFindPath s fuel t path ⟨0, 0⟩).toOption.bind fun (ret, fp) =>
    if ret < 0 then some (ret, s) else s.onRamfs fp fun head => ramfsUnlink head fp

/-- `fs_mount`: lookups that come to `type` go on at `dir`. -/
def fsMount (type dir : FileNode) : Option (Int × Vfs) :=
  (registerMountNode s.mounts dir).bind fun (id, mounts) =>
    { s with mounts := mounts }.onRamfs type fun head =>
      ramfsCallback head type .set .mountId id

/-- `mount`. -/
def mount (fuel t : Nat) (type dir : Name) : Option (Int × Vfs) :=
  (fsFindPath s fuel t type ⟨0, 0⟩).toOption.bind fun (ret, typeFp) =>
    if ret < 0 then some (ret, s)
    else
      (fsFindPath s fuel t dir ⟨0, 0⟩).toOption.bind fun (ret, dirFp) =>
        if ret < 0 then some (ret, s) else s.fsMount typeFp dirFp

/-! ### What descriptors were opened for -/

def setOpened (t : Nat) (fd : Int) (o : Option Opened) : Vfs :=
  { s with opened :=
      Function.update s.opened t (Function.update (s.opened t) (fdIndex fd) o) }

@[simp] theorem setOpened_tasks (t : Nat) (fd : Int) (o : Option Opened) :
    (s.setOpened t fd o).tasks = s.tasks := rfl

@[simp] theorem modifyTask_opened (t : Nat) (f : Task → Task) :
    (s.modifyTask t f).opened = s.opened := rfl

@[simp] theorem kfree_tasks (a : Nat) : (s.kfree a).tasks = s.tasks := rfl

@[simp] theorem kfree_opened (a : Nat) : (s.kfree a).opened = s.opened := rfl

/-- After `open`: the node it found is the one at `a`. -/
def noteOpen (t : Nat) (ret : Int) (a : Nat) (flags : UInt32) : Vfs :=
  if ret < 0 then s else s.setOpened t ret (some ⟨s.nodes a, flags⟩)

/-- After `close`. -/
def noteClose (t : Nat) (fd ret : Int) : Vfs := if ret < 0 then s else s.setOpened t fd none

end Vfs

/-! ### A run -/

inductive VfsOp
  | open (path : Name) (flags : UInt32) (a : Nat)
  | close (fd : Int)
  | read (fd : Int) (size : UInt32) (raw : Nat → UInt8)
  | write (fd : Int) (input junk : Nat → UInt8) (size : UInt32)
  | lseek (fd : Int) (offset : Int32) (whence : Int)
  | readdir (fd : Int) (dirp : Dirent)
  /-- A call that looks up a path and changes nothing. -/
  | lookup (path : Name)
  | chdir (path : Name)
  | chroot (path : Name)
  | mkdir (path : Name) (mode : UInt32)
  | mknod (path : Name) (mode : UInt32) (dev : Nat) (junk : FileNode)
  | unlink (path : Name)
  | mount (type dir : Name)
  /-- A mount the kernel makes itself, of a file that exists. -/
  | fsMount (type dir : FileNode)
  /-- Anything else gets the free block at `a`, and leaves `node` there. -/
  | reuse (a : Nat) (node : FileNode)

/-- A call, and the task that makes it. -/
structure Call where
  task : Nat
  op : VfsOp

def vfsStep (fuel : Nat) (s : Vfs) (c : Call) : Option Vfs :=
  match c.op with
  | .open path flags a =>
      (s.openCall fuel c.task path flags a).map fun (ret, s) => s.noteOpen c.task ret a flags
  | .close fd => (s.close c.task fd).map fun (ret, s) => s.noteClose c.task fd ret
  | .read fd size raw => (s.read c.task fd size raw).map fun (_, _, s) => s
  | .write fd input junk size => (s.write c.task fd input junk size).map Prod.snd
  | .lseek fd offset whence => some (s.lseek c.task fd offset whence).2
  | .readdir fd dirp => (s.readdirCall c.task fd dirp).map fun (_, _, s) => s
  | .lookup path => (fsFindPath s fuel c.task path ⟨0, 0⟩).toOption.map fun _ => s
  | .chdir path => (s.chdir fuel c.task path).map Prod.snd
  | .chroot path => (s.chroot fuel c.task path).map Prod.snd
  | .mkdir path mode => (s.mkdir fuel c.task path mode).map Prod.snd
  | .mknod path mode dev junk => (s.mknod fuel c.task path mode dev junk).map Prod.snd
  | .unlink path => (s.unlink fuel c.task path).map Prod.snd
  | .mount type dir => (s.mount fuel c.task type dir).map Prod.snd
  | .fsMount type dir =>
      if (s.header dir).isSome then (s.fsMount type dir).map Prod.snd else none
  | .reuse a node => if a ∈ s.live then none else some (s.setNode a node)

/-- A `ramfs` at each address of `systems`, the root of the one at `fs` being the root and
the working directory of every task. -/
def Vfs.boot (systems : List Nat) (fs root : Nat) : Vfs where
  ramfs := fun a => if a ∈ systems then some initRamfs else none
  nodes := Function.update (fun _ => ⟨0, 0⟩) root ⟨1, fs⟩
  live := [root]
  mounts := MountTable.boot fun _ => ⟨none, none, none, 0⟩
  zeroPage := ⟨0, 0⟩
  tasks := fun _ => ⟨0, 0, root, root, fun _ => none, 0⟩
  opened := fun _ _ => none

end OsThing.Fs
