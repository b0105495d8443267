/-
The layer over the file systems, `kern/fs/fs.c`: its state, path lookup and rights.

A file node, the pair of an inode number and a file system, lives in a block of kernel
memory, and a task or a descriptor refers to it by the address of the block.  `nodes` is
memory read as a file node, at any address; `live` lists the blocks that hold one and are
not freed.  Whatever else `kmalloc` is asked for can be put into a block that is free,
over the node that was there.

Every file system is a `ramfs`, at the address of its `file_system_t`; using a node whose
`fs` is no such address calls a function through a wild pointer.  Calls are made by a
task, so `current_task` is never null.  The buffers that the lookup takes for names and
entries are smaller than what it puts into them; they are taken to be large enough.
-/
import OsThing.Fs.Ramfs

namespace OsThing.Fs

/-! ### State -/

/-- `file_descript_t`, with the address of its file node. -/
structure FileDescript where
  file : Nat
  rOffset : UInt32
  wOffset : UInt32
  dOffset : UInt32
  deriving DecidableEq

/-- What a task has of the file system.  `files` has `MAX_FILES` places. -/
structure Task where
  uid : Nat
  gid : Nat
  root : Nat
  cwd : Nat
  files : Nat → Option FileDescript
  fileCount : Nat

/-- What an `open` found, and the flags it was given. -/
structure Opened where
  node : FileNode
  flags : UInt32
  deriving DecidableEq

/-- The state.  `opened` is no part of the kernel: it keeps what each descriptor that a task
holds was opened for. -/
structure Vfs where
  ramfs : Nat → Option RamfsHeader
  nodes : Nat → FileNode
  live : List Nat
  mounts : MountTable
  /-- What lies at address 0, read as a file node. -/
  zeroPage : FileNode
  tasks : Nat → Task
  opened : Nat → Nat → Option Opened

namespace Vfs

variable (s : Vfs)

def setNode (a : Nat) (node : FileNode) : Vfs :=
  { s with nodes := Function.update s.nodes a node }

/-- `knew( file_node_t )`, when the allocator hands out the block at `a`. -/
def knew (a : Nat) : Vfs := { s.setNode a ⟨0, 0⟩ with live := a :: s.live }

/-- `kfree`.  What is in the block stays there for now. -/
def kfree (a : Nat) : Vfs := { s with live := s.live.erase a }

/-- The header of a file. -/
def header (node : FileNode) : Option FileHeader :=
  (s.ramfs node.fs).bind fun head => head.getFileH node.inode

/-- `node->fs->ops->get_info( node, buf )`, of which every caller ignores the result. -/
def getInfo (node : FileNode) (buf : FileInfo) : Option FileInfo :=
  (s.ramfs node.fs).map fun head => (ramfsGetInfo head node buf).2

/-- `node->fs->ops->readdir( node, dirp, entry )`. -/
def readdir (node : FileNode) (dirp : Dirent) (entry : Int) : Option (Int × Dirent) :=
  (s.ramfs node.fs).bind fun head => ramfsReaddir head node dirp entry

def setRamfs (fs : Nat) (head : RamfsHeader) : Vfs :=
  { s with ramfs := Function.update s.ramfs fs (some head) }

/-- An operation on the file system of a node that changes it. -/
def onRamfs (node : FileNode) (op : RamfsHeader → Option (Int × RamfsHeader)) :
    Option (Int × Vfs) :=
  (s.ramfs node.fs).bind fun head =>
    (op head).map fun (ret, head) => (ret, s.setRamfs node.fs head)

end Vfs

/-! ### Path lookup -/

/-- Why a lookup has no result: it goes on through a wild pointer, or it made all the
`readdir` calls it was granted for one name. -/
inductive Stuck
  | wild
  | fuel
  deriving DecidableEq

/-- The parts of a path between slashes. -/
def components : Name → List Name
  | [] => [[]]
  | c :: rest =>
      if c = '/' then [] :: components rest
      else
        match components rest with
        | [] => [[c]]
        | name :: names => (c :: name) :: names

/-- The inner loop of `fs_find_node`, from entry `d` on: the inode of the entry that is
called `name`, and the entry buffer. -/
def scanDir (s : Vfs) (name : Name) (temp : FileNode) :
    Nat → Int → Dirent → Except Stuck (Option Nat × Dirent)
  | 0, _, _ => .error .fuel
  | fuel + 1, d, dir =>
      match s.readdir temp dir d with
      | none => .error .wild
      | some (r, dir) =>
          if r = 0 then .ok (none, dir)
          else if dir.name = name then .ok (some dir.inode, dir)
          else scanDir s name temp fuel (d + r) dir

/-- `get_mount_node( n_info->mount_id, &temp )`, if there is a mount to follow. -/
def followMount (s : Vfs) (info : FileInfo) (temp : FileNode) : Except Stuck FileNode :=
  if info.mountId = 0 then .ok temp
  else
    match getMountNode s.zeroPage s.mounts info.mountId temp with
    | none => .error .fuel
    | some (_, temp) => .ok temp

/--
The outer loop of `fs_find_node`, one name after another: the result and `*nodebuf`.
`temp` is where it is, and `info` is what it knows about the last entry it went through,
which after a mount is not about `temp`.
-/
def findLoop (s : Vfs) (fuel : Nat) (nodebuf : FileNode) :
    List Name → FileNode → FileInfo → Dirent → Except Stuck (Int × FileNode)
  | [], _, _, _ => .ok (-ENOENT, nodebuf)
  | name :: rest, temp, info, dir =>
      if name = ['.'] then
        if rest = [] then .ok (0, temp) else findLoop s fuel nodebuf rest temp info dir
      else if name = ['.', '.'] then .ok (-ENOTDIR, nodebuf)
      else if info.type = FS_DIR then
        match scanDir s name temp fuel 0 dir with
        | .error stuck => .error stuck
        | .ok (none, _) => .ok (-ENOENT, nodebuf)
        | .ok (some inode, dir) =>
            match s.getInfo ⟨inode, temp.fs⟩ info with
            | none => .error .wild
            | some info =>
                match followMount s info ⟨inode, temp.fs⟩ with
                | .error stuck => .error stuck
                | .ok temp =>
                    if rest = [] then .ok (0, temp)
                    else findLoop s fuel nodebuf rest temp info dir
      else .ok (-ENOTDIR, nodebuf)

/-- `fs_find_node`.  What the entry buffer holds at first is never looked at: the first
`readdir` is one of `node` itself, and it is made if `node` is a directory. -/
def fsFindNode (s : Vfs) (fuel : Nat) (node : FileNode) (path : Name) (nodebuf : FileNode) :
    Except Stuck (Int × FileNode) :=
  match s.getInfo node FileInfo.zero with
  | none => .error .wild
  | some info => findLoop s fuel nodebuf (components path) node info ⟨0, 0, 0, []⟩

/-- `fs_find_path`, by the task `t`. -/
def fsFindPath (s : Vfs) (fuel t : Nat) (inputPath : Name) (buf : FileNode) :
    Except Stuck (Int × FileNode) :=
  let path := if inputPath = [] then ['.'] else inputPath
  if path.head? = some '/' then
    let fp := s.nodes (s.tasks t).root
    let path := path.dropWhile (· = '/')
    if path = [] then .ok (0, fp) else fsFindNode s fuel fp path buf
  else fsFindNode s fuel (s.nodes (s.tasks t).cwd) path buf

/-! ### Rights -/

def P_READ : UInt32 := 4
def P_WRITE : UInt32 := 2
def P_EXEC : UInt32 := 1
def P_USHIFT : UInt32 := 6
def P_GSHIFT : UInt32 := 3
def P_ESHIFT : UInt32 := 0

/-- The three bits of a mask that are about the task. -/
def Task.perms (task : Task) (uid gid : Nat) (mask : UInt32) : UInt32 :=
  if task.uid = uid then mask >>> P_USHIFT &&& 7
  else if task.gid = gid then mask >>> P_GSHIFT &&& 7
  else mask >>> P_ESHIFT &&& 7

/-- The checks of `check_perms`. -/
def goodOp (perms flags : UInt32) : Bool :=
  flags ≠ 0 ∧ (flags &&& O_RDONLY ≠ 0 → perms &&& P_READ ≠ 0) ∧
    (flags &&& O_WRONLY ≠ 0 → perms &&& P_WRITE ≠ 0) ∧
    (flags &&& O_RDWR ≠ 0 → perms &&& P_READ ≠ 0 ∧ perms &&& P_WRITE ≠ 0) ∧
    (flags &&& O_EXEC ≠ 0 → perms &&& P_EXEC ≠ 0)

/-- `check_perms`. -/
def checkPerms (s : Vfs) (task : Task) (node : FileNode) (flags : UInt32) : Option Bool :=
  (s.getInfo node FileInfo.zero).map fun info =>
    goodOp (task.perms info.uid info.gid info.mask) flags

end OsThing.Fs
