/-
The file system in memory, `kern/fs/ramfs.c`.

The chain of file headers is a list, and so is the chain of entries of a directory; a
null `data` pointer is the empty list of entries.  The other thing `data` can point to is
a block of bytes, which is what `ramfs_pwrite` makes of any file it grows, a directory
included.

A call is `none` where it follows a pointer to something else than the code takes it
for: a header that is not there, entries read out of file bytes, file bytes written over
entries or through the null pointer.  The names that `ramfs_mkdir` and `ramfs_mknod` copy
to `ramfs_files[ i ].name`, which is past the one header this points at, are taken to hit
nothing that is in use, in pages that are mapped.
-/
import OsThing.Fs.Mount
import Mathlib.Algebra.Group.Int.Defs
import Mathlib.Algebra.Group.Nat.Defs
import Mathlib.Data.List.Range

namespace OsThing.Fs

/-! ### Constants -/

def MAX_FILES : Nat := 32

/-- `file_type_t`, as numbers, since `mknod` stores any number it is given. -/
def FS_FILE : Nat := 0
def FS_DIR : Nat := 1

def O_RDONLY : UInt32 := 1
def O_WRONLY : UInt32 := 2
def O_RDWR : UInt32 := 4
def O_EXEC : UInt32 := 8
def O_CREAT : UInt32 := 64

/-- `file_op_t` and `file_var_t`. -/
inductive FileOp
  | null
  | set
  | get

inductive FileVar
  | mountId

/-- A string without its terminating zero. -/
abbrev Name := List Char

/-- A 32-bit number as an `int`. -/
def asInt (n : UInt32) : Int := n.toInt32.toInt

theorem asInt_eq (n : UInt32) :
    asInt n = if n.toNat < 2 ^ 31 then (n.toNat : Int) else n.toNat - 2 ^ 32 := by
  have hcond := BitVec.toInt_eq_toNat_cond n.toBitVec
  show n.toBitVec.toInt = _
  rw [hcond]
  show (if 2 * n.toNat < 2 ^ 32 then (n.toNat : Int) else (n.toNat : Int) - (2 ^ 32 : Nat)) = _
  split
  · rw [if_pos (by omega)]
  · rw [if_neg (by omega)]
    rfl

theorem asInt_inj {m n : UInt32} (h : asInt m = asInt n) : m = n := by
  have h32 : m.toInt32 = n.toInt32 := Int32.toInt_inj.mp h
  simpa using congrArg Int32.toUInt32 h32

theorem asInt_toInt32 (n : UInt32) : (asInt n).toInt32 = n.toInt32 := Int32.ofInt_toInt n.toInt32

/-! ### Headers -/

/-- `ramfs_dirent_t`. -/
structure RamfsDirent where
  inode : Nat
  size : UInt32
  nameLen : Nat
  name : Name
  deriving DecidableEq

/-- `struct dirent`. -/
structure Dirent where
  inode : Nat
  size : Nat
  nameLen : Nat
  name : Name
  deriving DecidableEq

/-- A block of file bytes: how many were asked for, and what lies from its start on. -/
structure Buffer where
  length : UInt32
  byte : Nat → UInt8

inductive FileData
  | entries (dirs : List RamfsDirent)
  | buffer (b : Buffer)

/-- `ramfs_file_header_t`. -/
structure FileHeader where
  type : Nat
  name : Name := []
  mask : UInt32
  uid : Nat := 0
  gid : Nat := 0
  inode : Nat
  size : UInt32 := 0
  links : Nat := 1
  flags : Nat := 0
  mountId : Nat := 0
  data : FileData := .entries []

/--
`ramfs_header_t`.  Headers are only ever added at the end, each with the next number, so
the numbers are in order.  They are counted without a bound, since each costs a block of
a 32-bit memory.
-/
structure RamfsHeader where
  files : List FileHeader
  iCount : Nat
  count_eq : iCount = files.length + 1
  inodes : files.map FileHeader.inode = List.range' 1 files.length

/-- `file_info_t`. -/
structure FileInfo where
  type : Nat
  name : Name
  mask : UInt32
  uid : Nat
  gid : Nat
  time : Nat
  inode : Nat
  size : UInt32
  links : Nat
  flags : Nat
  fs : Nat
  mountId : Nat

/-- `knew( file_info_t )`. -/
def FileInfo.zero : FileInfo := ⟨0, [], 0, 0, 0, 0, 0, 0, 0, 0, 0, 0⟩

/-- `init_ramfs`. -/
def initRamfs : RamfsHeader where
  files := [{ type := FS_DIR, name := ['r', 'o', 'o', 't'], mask := 0o777, inode := 1 }]
  iCount := 2
  count_eq := rfl
  inodes := rfl

namespace RamfsHeader

variable (head : RamfsHeader)

/-- `ramfs_get_file_h`. -/
def getFileH (inode : Nat) : Option FileHeader := head.files.find? fun f => f.inode = inode

/-- A change to one header, which keeps its number. -/
def modifyFile (inode : Nat) (f : FileHeader → FileHeader) (hf : ∀ h, (f h).inode = h.inode) :
    RamfsHeader where
  files := head.files.map fun h => if h.inode = inode then f h else h
  iCount := head.iCount
  count_eq := by rw [List.length_map, head.count_eq]
  inodes := by
    rw [List.length_map, ← head.inodes, List.map_map]
    refine List.map_congr_left fun h _ => ?_
    show (if h.inode = inode then f h else h).inode = h.inode
    split
    · exact hf h
    · rfl

/-- A header with the next number, at the end of the chain. -/
def addFile (f : FileHeader) : RamfsHeader where
  files := head.files ++ [{ f with inode := head.iCount }]
  iCount := head.iCount + 1
  count_eq := by rw [head.count_eq, List.length_append, List.length_singleton]
  inodes := by
    rw [List.map_append, head.inodes, head.count_eq, List.length_append, List.length_singleton,
      List.range'_1_concat, Nat.add_comm 1]
    rfl

theorem getFileH_inode {head : RamfsHeader} {inode : Nat} {f : FileHeader}
    (h : head.getFileH inode = some f) : f.inode = inode := by
  unfold getFileH at h
  simpa using List.find?_some h

theorem getFileH_mem {head : RamfsHeader} {inode : Nat} {f : FileHeader}
    (h : head.getFileH inode = some f) : inode ∈ List.range' 1 head.files.length := by
  rw [← head.inodes]
  exact List.mem_map.mpr ⟨f, List.mem_of_find?_eq_some h, getFileH_inode h⟩

/-- The number of a header is below `ramfs_i_count`. -/
theorem getFileH_lt {head : RamfsHeader} {inode : Nat} {f : FileHeader}
    (h : head.getFileH inode = some f) : inode < head.iCount := by
  have hmem := List.mem_range'_1.mp (getFileH_mem h)
  rw [head.count_eq]
  omega

theorem getFileH_pos {head : RamfsHeader} {inode : Nat} {f : FileHeader}
    (h : head.getFileH inode = some f) : 0 < inode :=
  (List.mem_range'_1.mp (getFileH_mem h)).1

theorem getFileH_zero (head : RamfsHeader) : head.getFileH 0 = none := by
  rcases hfile : head.getFileH 0 with _ | f
  · rfl
  · exact absurd (getFileH_pos hfile) (Nat.lt_irrefl 0)

theorem getFileH_modifyFile (inode i : Nat) (f : FileHeader → FileHeader)
    (hf : ∀ h, (f h).inode = h.inode) :
    (head.modifyFile inode f hf).getFileH i =
      (head.getFileH i).map fun h => if i = inode then f h else h := by
  have hpred : (fun f : FileHeader => decide (f.inode = i)) ∘
      (fun h => if h.inode = inode then f h else h) = fun f => decide (f.inode = i) := by
    funext h
    by_cases hi : h.inode = inode
    · simp [hi, hf]
    · simp [hi]
  unfold getFileH modifyFile
  rw [List.find?_map, hpred]
  refine Option.map_congr fun h hfind => ?_
  rw [getFileH_inode hfind]

theorem getFileH_addFile (f : FileHeader) (inode : Nat) :
    (head.addFile f).getFileH inode =
      if inode = head.iCount then some { f with inode := head.iCount } else head.getFileH inode := by
  show (head.files ++ [{ f with inode := head.iCount }]).find? _ = _
  rw [List.find?_append]
  by_cases hi : inode = head.iCount
  · have hnone : head.getFileH inode = none := by
      rcases hold : head.getFileH inode with _ | h
      · rfl
      · exact absurd (getFileH_lt hold) (by omega)
    rw [if_pos hi, show head.files.find? _ = none from hnone]
    simp [hi]
  · have hskip : [{ f with inode := head.iCount }].find?
        (fun f : FileHeader => decide (f.inode = inode)) = none := by
      simp [Ne.symm hi]
    rw [if_neg hi, hskip, Option.or_none]
    rfl

end RamfsHeader

/-! ### Names and numbers -/

/-- What `ramfs_get_info` says of a file. -/
def FileHeader.info (filehead : FileHeader) (node : FileNode) : FileInfo where
  type := filehead.type
  name := filehead.name
  mask := filehead.mask
  uid := filehead.uid
  gid := filehead.gid
  time := filehead.gid
  inode := node.inode
  size := filehead.size
  links := filehead.links
  flags := filehead.flags
  fs := node.fs
  mountId := filehead.mountId

/-- `ramfs_get_info`: without a header it leaves `buf` as it is. -/
def ramfsGetInfo (head : RamfsHeader) (node : FileNode) (buf : FileInfo) : Int × FileInfo :=
  match head.getFileH node.inode with
  | none => (-ENOENT, buf)
  | some filehead => (0, filehead.info node)

/-- One entry more at the end of a directory. -/
def FileHeader.enter (h : FileHeader) (dirs : List RamfsDirent) (dir : RamfsDirent) : FileHeader :=
  { h with data := .entries (dirs ++ [dir]), size := h.size + dir.size }

def RamfsHeader.enter (head : RamfsHeader) (inode : Nat) (dirs : List RamfsDirent)
    (dir : RamfsDirent) : RamfsHeader :=
  head.modifyFile inode (fun h => h.enter dirs dir) fun _ => rfl

theorem RamfsHeader.getFileH_enter (head : RamfsHeader) (inode i : Nat) (dirs : List RamfsDirent)
    (dir : RamfsDirent) : (head.enter inode dirs dir).getFileH i =
      (head.getFileH i).map fun h => if i = inode then h.enter dirs dir else h :=
  head.getFileH_modifyFile inode i _ _

/-- `ramfs_mkdir_entry`. -/
def ramfsMkdirEntry (head : RamfsHeader) (node : FileNode) (name : Name) (inode : Nat) :
    Option (Int × RamfsHeader) :=
  (head.getFileH node.inode).bind fun filehead =>
    if filehead.type ≠ FS_DIR then some (-1, head)
    else
      let nlen := name.length + 1
      -- `sizeof( struct dirent )` is 264
      let dir : RamfsDirent := ⟨inode, UInt32.ofNat (264 + nlen), nlen, name⟩
      match filehead.data with
      | .entries dirs =>
          some (0, head.enter node.inode dirs dir)
      | .buffer _ => none

/-- What `ramfs_mkdir` and `ramfs_mknod` do alike: an entry, and a header for it. -/
def ramfsAdd (head : RamfsHeader) (node : FileNode) (name : Name) (mode : UInt32) (type : Nat) :
    Option (Int × RamfsHeader) :=
  (head.getFileH node.inode).bind fun filehead =>
    if filehead.type ≠ FS_DIR then some (-1, head)
    else
      (ramfsMkdirEntry head node name head.iCount).map fun (_, entered) =>
        (0, entered.addFile { type := type, mask := mode, inode := head.iCount })

/-- `ramfs_mkdir`. -/
def ramfsMkdir (head : RamfsHeader) (node : FileNode) (name : Name) (mode : UInt32) :
    Option (Int × RamfsHeader) :=
  ramfsAdd head node name mode FS_DIR

/-- `ramfs_mknod`. -/
def ramfsMknod (head : RamfsHeader) (node : FileNode) (name : Name) (mode : UInt32) (dev : Nat) :
    Option (Int × RamfsHeader) :=
  ramfsAdd head node name mode dev

/-- What `ramfsAdd` leaves when it makes a file: the entry, and the header it names. -/
structure Added (head head' : RamfsHeader) (inode : Nat) (name : Name) (mode : UInt32)
    (type : Nat) : Prop where
  iCount : head'.iCount = head.iCount + 1
  files : ∃ filehead dirs dir, head.getFileH inode = some filehead ∧ filehead.type = FS_DIR ∧
    filehead.data = .entries dirs ∧ dir.inode = head.iCount ∧ dir.name = name ∧
    ∀ i, head'.getFileH i =
      if i = head.iCount then some { type := type, mask := mode, inode := head.iCount }
      else (head.getFileH i).map fun h => if i = inode then h.enter dirs dir else h

theorem ramfsAdd_cases {head head' : RamfsHeader} {node : FileNode} {name : Name} {mode : UInt32}
    {type : Nat} {ret : Int} (h : ramfsAdd head node name mode type = some (ret, head')) :
    (ret = -1 ∧ head' = head) ∨ (ret = 0 ∧ Added head head' node.inode name mode type) := by
  unfold ramfsAdd at h
  obtain ⟨filehead, hfile, h⟩ := Option.bind_eq_some_iff.mp h
  dsimp only at h
  split at h
  · obtain ⟨rfl, rfl⟩ := Prod.mk.inj (Option.some.inj h)
    exact Or.inl ⟨rfl, rfl⟩
  · rename_i htype
    obtain ⟨⟨r, entered⟩, hentry, h⟩ := Option.map_eq_some_iff.mp h
    obtain ⟨rfl, rfl⟩ := Prod.mk.inj h
    unfold ramfsMkdirEntry at hentry
    rw [hfile, Option.bind_some, if_neg htype] at hentry
    dsimp only at hentry
    split at hentry
    · rename_i dirs hdata
      obtain ⟨-, rfl⟩ := Prod.mk.inj (Option.some.inj hentry)
      refine Or.inr ⟨rfl, rfl, filehead, dirs,
        ⟨head.iCount, UInt32.ofNat (264 + (name.length + 1)), name.length + 1, name⟩, hfile,
        not_not.mp htype, hdata, rfl, rfl, fun i => ?_⟩
      rw [← RamfsHeader.getFileH_enter]
      exact RamfsHeader.getFileH_addFile _ _ i
    · cases hentry

/-- What `ramfs_readdir` copies of an entry; two of the fields have 16 bits. -/
def RamfsDirent.copied (dirty : RamfsDirent) : Dirent where
  inode := dirty.inode
  size := dirty.size.toNat % 2 ^ 16
  nameLen := dirty.nameLen % 2 ^ 16
  name := dirty.name

/-- What `ramfs_readdir` does once it has the header: the return value and `*dirp`. -/
def FileHeader.readEntry (filehead : FileHeader) (dirp : Dirent) (entry : Int) :
    Option (Int × Dirent) :=
  if filehead.type ≠ FS_DIR then some (-ENOTDIR, dirp)
  else
    match filehead.data with
    | .entries dirs =>
        match dirs[entry.toNat]? with
        | none => some (0, dirp)
        | some dirty => some (1, dirty.copied)
    | .buffer _ => none

/-- `ramfs_readdir`. -/
def ramfsReaddir (head : RamfsHeader) (node : FileNode) (dirp : Dirent) (entry : Int) :
    Option (Int × Dirent) :=
  (head.getFileH node.inode).bind fun filehead => filehead.readEntry dirp entry

/-- `ramfs_open`. -/
def ramfsOpen (head : RamfsHeader) (node : FileNode) (name : Name) (mode : UInt32) :
    Option (Int × RamfsHeader) :=
  (head.getFileH node.inode).bind fun filehead =>
    if filehead.type = FS_DIR ∧ mode &&& O_CREAT ≠ 0 then ramfsMknod head node name 0o777 FS_FILE
    else some (node.inode, head)

/-- `ramfs_close`. -/
def ramfsClose : Int := 0

/-- `ramfs_unlink`. -/
def ramfsUnlink (head : RamfsHeader) (node : FileNode) : Option (Int × RamfsHeader) :=
  (head.getFileH node.inode).map fun _ =>
    (0, head.modifyFile node.inode (fun h => { h with links := h.links - 1 }) fun _ => rfl)

/-- `ramfs_callback`. -/
def ramfsCallback (head : RamfsHeader) (node : FileNode) (op : FileOp) (var : FileVar)
    (value : Nat) : Option (Int × RamfsHeader) :=
  match op, var with
  | .set, .mountId =>
      (head.getFileH node.inode).map fun _ =>
        (0, head.modifyFile node.inode (fun h => { h with mountId := value }) fun _ => rfl)
  | _, _ => some (-ENOTSUP, head)

/-! ### Bytes -/

/-- The byte at `i` behind `data`; `raw` is what memory holds where that is no file bytes. -/
def FileData.byte (data : FileData) (raw : Nat → UInt8) (i : Nat) : UInt8 :=
  match data with
  | .entries _ => raw i
  | .buffer b => b.byte i

/-- `ramfs_pread`: the return value and the bytes that went to `buf`. -/
def ramfsPread (head : RamfsHeader) (node : FileNode) (raw : Nat → UInt8) (size offset : UInt32) :
    Option (Int × List UInt8) :=
  (head.getFileH node.inode).map fun filehead =>
    let count := min size.toNat (filehead.size.toNat - offset.toNat)
    (asInt (UInt32.ofNat count),
      (List.range count).map fun j => filehead.data.byte raw (offset.toNat + j))

/-- The loop of `ramfs_pread`, with its two counters as they are compared: where `i` stops,
and what goes to `output`. -/
def preadLoop (byte : Nat → UInt8) (fileSize size : UInt32) :
    Nat → UInt32 → UInt32 → UInt32 × List UInt8
  | 0, i, _ => (i, [])
  | turns + 1, i, j =>
      if j < size ∧ i < fileSize then
        let (i', output) := preadLoop byte fileSize size turns (i + 1) (j + 1)
        (i', byte i.toNat :: output)
      else (i, [])

/-- `file_data[ i ] = input[ i - offset ]`, for `turns` many `i` from `i` on. -/
def copyLoop (input : Nat → UInt8) (offset : Nat) : Nat → Nat → (Nat → UInt8) → Nat → UInt8
  | 0, _, data => data
  | turns + 1, i, data =>
      copyLoop input offset turns (i + 1) (Function.update data i (input (i - offset)))

/--
`ramfs_pwrite`, where `input` is what lies from `buf` on, and `junk` what the new block
holds if one is taken.  The block is as long as the kernel asks, and it does get one.
-/
def ramfsPwrite (head : RamfsHeader) (node : FileNode) (input junk : Nat → UInt8)
    (size offset : UInt32) : Option (Int × RamfsHeader) :=
  (head.getFileH node.inode).bind fun filehead =>
    let stop := size + offset + 1
    let data := if filehead.size < size then .buffer ⟨stop, junk⟩ else filehead.data
    let turns := stop.toNat - offset.toNat
    let ret := asInt (if offset < stop then stop else offset)
    match data with
    | .buffer b =>
        let copied := copyLoop input offset.toNat turns offset.toNat b.byte
        some (ret, head.modifyFile node.inode
          (fun h => { h with data := .buffer { b with byte := copied }, size := size })
          fun _ => rfl)
    | .entries _ =>
        if turns = 0 then
          some (ret, head.modifyFile node.inode (fun h => { h with size := size }) fun _ => rfl)
        else none

end OsThing.Fs
