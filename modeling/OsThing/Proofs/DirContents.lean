/-
When a directory is only ever a directory.

The `data` of a header is file bytes or entries, and `ramfs_pread` and `ramfs_pwrite` do
not ask which.  `read` copies the entries out as bytes.  `write` puts a block of bytes in
their place, if it is given more than the size that the directory counts, and otherwise
writes over them.  Neither does any harm if it copies nothing at all.

`DirsOk` is the invariant; all other calls keep it.
-/
import OsThing.Proofs.Termination

namespace OsThing.Fs

open Runs

/-- The data of a directory is a list of entries, which may be empty. -/
def DirsOk (s : Vfs) : Prop :=
  ∀ node f, s.header node = some f → f.type = FS_DIR → ∃ dirs, f.data = .entries dirs

/-- A read or write on a directory comes back, transfers none of it as bytes, and leaves its
data what it was. -/
def Respects (s : Vfs) (c : Call) : Prop :=
  (∀ fd size raw, c.op = .read fd size raw → ∀ d, goodFile (s.tasks c.task) fd = some d →
    IsDir s (s.nodes d.file) → ∃ ret s', s.read c.task fd size raw = some (ret, [], s')) ∧
  ∀ fd input junk size, c.op = .write fd input junk size →
    ∀ d, goodFile (s.tasks c.task) fd = some d → IsDir s (s.nodes d.file) →
      ∃ ret s', s.write c.task fd input junk size = some (ret, s') ∧
        (s'.header (s.nodes d.file)).map FileHeader.data =
          (s.header (s.nodes d.file)).map FileHeader.data

/-- A read on a directory is at its end, and a write has no more than its size and an offset
so large that the end of the loop wraps around to it or below. -/
def NoBytes (s : Vfs) (c : Call) : Prop :=
  (∀ fd size raw, c.op = .read fd size raw → ∀ d f, goodFile (s.tasks c.task) fd = some d →
    s.header (s.nodes d.file) = some f → f.type = FS_DIR →
      min size.toNat (f.size.toNat - d.rOffset.toNat) = 0) ∧
  ∀ fd input junk size, c.op = .write fd input junk size →
    ∀ d f, goodFile (s.tasks c.task) fd = some d → s.header (s.nodes d.file) = some f →
      f.type = FS_DIR → ¬ f.size < size ∧ size + d.wOffset + 1 ≤ d.wOffset

/-! ### Calls that keep directories -/

/-- Every directory of `head'` has entries if those of `head` do. -/
def DirsKept (head head' : RamfsHeader) : Prop :=
  ∀ i f', head'.getFileH i = some f' → f'.type = FS_DIR → (∃ dirs, f'.data = .entries dirs) ∨
    ∃ f, head.getFileH i = some f ∧ f.type = FS_DIR ∧ f'.data = f.data

theorem DirsKept.of_grows {head head' : RamfsHeader} (h : Grows head head') :
    DirsKept head head' := by
  intro i f' hf' htype
  rcases h i f' hf' with ⟨-, hdata⟩ | ⟨f, hf, htype', -, hno | hsame | ⟨dirs, dir, -, hdata, -⟩⟩
  · exact Or.inl ⟨[], hdata⟩
  · exact absurd (htype'.symm.trans htype) hno
  · exact Or.inr ⟨f, hf, htype'.symm.trans htype, hsame⟩
  · exact Or.inl ⟨_, hdata⟩

theorem DirsKept.of_modifyFile {head : RamfsHeader} {inode : Nat} {change : FileHeader → FileHeader}
    (hinode : ∀ f, (change f).inode = f.inode)
    (hchange : ∀ f, head.getFileH inode = some f → (change f).type = f.type ∧
      (f.type = FS_DIR → (change f).data = f.data)) :
    DirsKept head (head.modifyFile inode change hinode) := by
  intro i f' hf' htype
  rw [RamfsHeader.getFileH_modifyFile] at hf'
  obtain ⟨f, hf, rfl⟩ := Option.map_eq_some_iff.mp hf'
  by_cases hi : i = inode
  · rw [if_pos hi] at htype ⊢
    obtain ⟨hsame, hdata⟩ := hchange f (hi ▸ hf)
    exact Or.inr ⟨f, hf, hsame.symm.trans htype, hdata (hsame.symm.trans htype)⟩
  · rw [if_neg hi] at htype ⊢
    exact Or.inr ⟨f, hf, htype, rfl⟩

theorem DirsOk.congr {s s' : Vfs} (h : DirsOk s) (hramfs : s'.ramfs = s.ramfs) : DirsOk s' :=
  fun node f hf => h node f ((header_congr hramfs node).symm.trans hf)

theorem DirsOk.onRamfs {s s' : Vfs} {node : FileNode} {ret : Int}
    {op : RamfsHeader → Option (Int × RamfsHeader)} (h : DirsOk s)
    (hop : s.onRamfs node op = some (ret, s'))
    (hkept : ∀ head head', s.ramfs node.fs = some head → op head = some (ret, head') →
      DirsKept head head') : DirsOk s' := by
  obtain ⟨head, head', hhead, hres, rfl⟩ := onRamfs_spec hop
  intro node' f' hf' htype
  rw [header_setRamfs] at hf'
  split at hf'
  · rename_i hfs
    rcases hkept head head' hhead hres _ f' hf' htype with hentries | ⟨f, hf, htype', hdata⟩
    · exact hentries
    · rw [hdata]
      exact h node' f ((header_of_ramfs (hfs ▸ hhead)).trans hf) htype'
  · exact h node' f' hf' htype

theorem DirsOk.tree {s s' : Vfs} (h : DirsOk s) (htree : TreeChange s s') : DirsOk s' := by
  cases htree with
  | same => exact h
  | node a node => exact h.congr rfl
  | add hadd => exact h.onRamfs hadd fun _ _ _ hres => .of_grows (ramfsAdd_grows hres)
  | unlink hunlink =>
      refine h.onRamfs hunlink fun head head' _ hres => ?_
      obtain ⟨f, -, hres⟩ := Option.map_eq_some_iff.mp hres
      obtain ⟨-, rfl⟩ := Prod.mk.inj hres
      exact .of_modifyFile _ fun f _ => ⟨rfl, fun _ => rfl⟩

theorem DirsOk.mount {s s' : Vfs} {type dir : FileNode} {ret : Int} (h : DirsOk s)
    (hmount : s.fsMount type dir = some (ret, s')) : DirsOk s' := by
  unfold Vfs.fsMount at hmount
  obtain ⟨⟨id, mounts⟩, -, hmount⟩ := Option.bind_eq_some_iff.mp hmount
  have hmounts : DirsOk { s with mounts := mounts } := h.congr rfl
  refine hmounts.onRamfs hmount fun head head' _ hres => ?_
  obtain ⟨f, -, hres⟩ := Option.map_eq_some_iff.mp hres
  obtain ⟨-, rfl⟩ := Prod.mk.inj hres
  exact .of_modifyFile _ fun f _ => ⟨rfl, fun _ => rfl⟩

/-! ### Reads and writes -/

/-- How many bytes a read on a file transfers. -/
theorem read_file {s : Vfs} {t : Nat} {fd : Int} {d : FileDescript} {f : FileHeader}
    (hgood : goodFile (s.tasks t) fd = some d) (hf : s.header (s.nodes d.file) = some f)
    (size : UInt32) (raw : Nat → UInt8) :
    ∃ ret bytes s', s.read t fd size raw = some (ret, bytes, s') ∧
      bytes.length = min size.toNat (f.size.toNat - d.rOffset.toNat) := by
  obtain ⟨head, hhead, hfile⟩ := Option.bind_eq_some_iff.mp hf
  unfold Vfs.read
  rw [hgood]
  dsimp only
  rw [hhead, Option.bind_some]
  unfold ramfsPread
  rw [hfile]
  refine ⟨_, _, _, rfl, ?_⟩
  rw [List.length_map, List.length_range]

/-- The data of a directory after a write is what it was, or there is no state after it. -/
theorem ramfsPwrite_dir {head : RamfsHeader} {node : FileNode} {f : FileHeader}
    {dirs : List RamfsDirent} (hf : head.getFileH node.inode = some f) (hdata : f.data = .entries dirs)
    (input junk : Nat → UInt8) (size offset : UInt32) :
    (∃ ret head', ramfsPwrite head node input junk size offset = some (ret, head') ∧
      (head'.getFileH node.inode).map FileHeader.data = some (.entries dirs)) ↔
        ¬ f.size < size ∧ size + offset + 1 ≤ offset := by
  have hturns : (size + offset + 1).toNat - offset.toNat = 0 ↔ size + offset + 1 ≤ offset := by
    rw [UInt32.le_iff_toNat_le]
    omega
  unfold ramfsPwrite
  rw [hf, Option.bind_some]
  by_cases hgrow : f.size < size
  · refine iff_of_false ?_ fun h => h.1 hgrow
    rintro ⟨ret, head', hres, hsame⟩
    dsimp only at hres
    rw [if_pos hgrow] at hres
    obtain ⟨-, rfl⟩ := Prod.mk.inj (Option.some.inj hres)
    rw [RamfsHeader.getFileH_modifyFile, hf, Option.map_some, if_pos rfl] at hsame
    cases hsame
  · dsimp only
    rw [if_neg hgrow, hdata]
    dsimp only
    split
    · rename_i hwrap
      refine iff_of_true ⟨_, _, rfl, ?_⟩ ⟨hgrow, hturns.mp hwrap⟩
      rw [RamfsHeader.getFileH_modifyFile, hf, Option.map_some, if_pos rfl, Option.map_some]
      exact congrArg some hdata
    · rename_i hwrap
      refine iff_of_false ?_ fun h => hwrap (hturns.mpr h.2)
      rintro ⟨ret, head', hres, -⟩
      cases hres

/-- A write on a descriptor is `ramfs_pwrite` on its file, and then a new offset. -/
theorem write_iff {s : Vfs} {t : Nat} {fd : Int} {d : FileDescript} {head : RamfsHeader}
    (hgood : goodFile (s.tasks t) fd = some d) (hhead : s.ramfs (s.nodes d.file).fs = some head)
    (input junk : Nat → UInt8) (size : UInt32) (Q : Option FileHeader → Prop) :
    (∃ ret s', s.write t fd input junk size = some (ret, s') ∧ Q (s'.header (s.nodes d.file))) ↔
      ∃ ret head', ramfsPwrite head (s.nodes d.file) input junk size d.wOffset = some (ret, head') ∧
        Q (head'.getFileH (s.nodes d.file).inode) := by
  have hheader : ∀ head', (s.setRamfs (s.nodes d.file).fs head').header (s.nodes d.file) =
      head'.getFileH (s.nodes d.file).inode := fun head' => by
    rw [header_setRamfs, if_pos rfl]
  unfold Vfs.write
  rw [hgood]
  dsimp only
  unfold Vfs.onRamfs
  rw [hhead, Option.bind_some]
  dsimp only
  rcases ramfsPwrite head (s.nodes d.file) input junk size d.wOffset with _ | ⟨ret, head'⟩
  · exact iff_of_false (fun ⟨_, _, h, _⟩ => (by cases h)) fun ⟨_, _, h, _⟩ => (by cases h)
  · have hsame : ((if ret ≠ 0 then (s.setRamfs (s.nodes d.file).fs head').setFile t fd
        (some { d with wOffset := d.wOffset + ret.toInt32.toUInt32 })
        else s.setRamfs (s.nodes d.file).fs head').header (s.nodes d.file)) =
          head'.getFileH (s.nodes d.file).inode := by
      rw [← hheader]
      split
      · rfl
      · rfl
    constructor
    · rintro ⟨_, _, h, hq⟩
      obtain ⟨-, rfl⟩ := Prod.mk.inj (Option.some.inj h)
      exact ⟨ret, head', rfl, hsame ▸ hq⟩
    · rintro ⟨_, _, h, hq⟩
      obtain ⟨-, rfl⟩ := Prod.mk.inj (Option.some.inj h)
      exact ⟨ret, _, rfl, hsame.symm ▸ hq⟩

/-- **Reading and writing leave directories alone just when they copy nothing.** -/
theorem respects_iff (s : Vfs) (c : Call) (h : DirsOk s) : Respects s c ↔ NoBytes s c := by
  have hread : ∀ {fd d f} (size : UInt32) (raw : Nat → UInt8),
      goodFile (s.tasks c.task) fd = some d → s.header (s.nodes d.file) = some f →
      ((∃ ret s', s.read c.task fd size raw = some (ret, [], s')) ↔
        min size.toNat (f.size.toNat - d.rOffset.toNat) = 0) := by
    intro fd d f size raw hgood hf
    obtain ⟨ret, bytes, s', hres, hlen⟩ := read_file hgood hf size raw
    rw [hres, ← hlen, List.length_eq_zero_iff]
    constructor
    · rintro ⟨_, _, heq⟩
      exact (Prod.mk.inj (Prod.mk.inj (Option.some.inj heq)).2).1
    · rintro rfl
      exact ⟨ret, s', rfl⟩
  have hwrite : ∀ {fd d f} (input junk : Nat → UInt8) (size : UInt32),
      goodFile (s.tasks c.task) fd = some d → s.header (s.nodes d.file) = some f →
      f.type = FS_DIR → ((∃ ret s', s.write c.task fd input junk size = some (ret, s') ∧
        (s'.header (s.nodes d.file)).map FileHeader.data =
          (s.header (s.nodes d.file)).map FileHeader.data) ↔
        ¬ f.size < size ∧ size + d.wOffset + 1 ≤ d.wOffset) := by
    intro fd d f input junk size hgood hf htype
    obtain ⟨dirs, hdata⟩ := h _ f hf htype
    obtain ⟨head, hhead, hfile⟩ := Option.bind_eq_some_iff.mp hf
    rw [hf, Option.map_some, hdata]
    exact (write_iff hgood hhead input junk size
      fun f' => f'.map FileHeader.data = some (.entries dirs)).trans
      (ramfsPwrite_dir hfile hdata input junk size d.wOffset)
  constructor
  · rintro ⟨hr, hw⟩
    exact ⟨fun fd size raw hop d f hgood hf htype =>
        (hread size raw hgood hf).mp (hr fd size raw hop d hgood ⟨f, hf, htype⟩),
      fun fd input junk size hop d f hgood hf htype =>
        (hwrite input junk size hgood hf htype).mp (hw fd input junk size hop d hgood ⟨f, hf, htype⟩)⟩
  · rintro ⟨hr, hw⟩
    exact ⟨fun fd size raw hop d hgood ⟨f, hf, htype⟩ =>
        (hread size raw hgood hf).mpr (hr fd size raw hop d f hgood hf htype),
      fun fd input junk size hop d hgood ⟨f, hf, htype⟩ =>
        (hwrite input junk size hgood hf htype).mpr (hw fd input junk size hop d f hgood hf htype)⟩

/-- A write changes one header, and not its type. -/
theorem write_header {s s' : Vfs} {t : Nat} {fd ret : Int} {input junk : Nat → UInt8}
    {size : UInt32} (h : s.write t fd input junk size = some (ret, s')) {node : FileNode}
    (hne : s'.header node ≠ s.header node) : ∃ d f head, goodFile (s.tasks t) fd = some d ∧
      node = s.nodes d.file ∧ s.ramfs node.fs = some head ∧ head.getFileH node.inode = some f ∧
      ∀ f', s'.header node = some f' → f'.type = f.type := by
  obtain ⟨hkeeps, hchanged⟩ := write_spec h
  obtain ⟨d, hgood, rfl⟩ := hchanged node hne
  rcases hhead : s.ramfs (s.nodes d.file).fs with _ | head
  · unfold Vfs.write Vfs.onRamfs at h
    rw [hgood] at h
    dsimp only at h
    rw [hhead] at h
    cases h
  obtain ⟨r, head', hres, -⟩ :=
    (write_iff hgood hhead input junk size fun _ => True).mp ⟨ret, s', h, trivial⟩
  unfold ramfsPwrite at hres
  obtain ⟨f, hf, -⟩ := Option.bind_eq_some_iff.mp hres
  refine ⟨d, f, head, hgood, rfl, rfl, hf, fun f' hf' => ?_⟩
  obtain ⟨g, hg, htype, -⟩ := hkeeps _ f ((header_of_ramfs hhead).trans hf)
  obtain rfl : g = f' := Option.some.inj (hg.symm.trans hf')
  exact htype

theorem DirsOk.write {s s' : Vfs} {t : Nat} {fd ret : Int} {input junk : Nat → UInt8}
    {size : UInt32} (h : DirsOk s) (hwrite : s.write t fd input junk size = some (ret, s'))
    (hquiet : ∀ d f, goodFile (s.tasks t) fd = some d → s.header (s.nodes d.file) = some f →
      f.type = FS_DIR → ¬ f.size < size ∧ size + d.wOffset + 1 ≤ d.wOffset) : DirsOk s' := by
  intro node f' hf' htype
  by_cases hsame : s'.header node = s.header node
  · exact h node f' (hsame.symm.trans hf') htype
  obtain ⟨d, f, head, hgood, rfl, hhead, hf, htype'⟩ := write_header hwrite hsame
  have hheader := (header_of_ramfs hhead).trans hf
  have hdir : f.type = FS_DIR := (htype' f' hf').symm.trans htype
  obtain ⟨dirs, hdata⟩ := h _ f hheader hdir
  -- this write copies nothing, and so the data is still there
  obtain ⟨r, s₁, hres, hkept⟩ := (write_iff hgood hhead input junk size
    fun f' => f'.map FileHeader.data = some (.entries dirs)).mpr
    ((ramfsPwrite_dir hf hdata input junk size d.wOffset).mpr (hquiet d f hgood hheader hdir))
  obtain ⟨-, rfl⟩ := Prod.mk.inj (Option.some.inj (hwrite.symm.trans hres))
  rw [hf'] at hkept
  exact ⟨dirs, Option.some.inj hkept⟩

/-! ### Runs -/

theorem dirsOk_step {fuel : Nat} (s : Vfs) (c : Call) (s' : Vfs) (h : DirsOk s)
    (hstep : vfsStep fuel s c = some s') (hquiet : NoBytes s c) : DirsOk s' := by
  cases vfsStep_cases hstep with
  | tree htree => exact h.tree htree
  | mountAt type dir ret hop hmount => exact h.mount hmount
  | read fd size raw ret bytes hop hread => exact h.congr (read_spec hread).1.ramfs
  | write fd input junk size ret hop hwrite =>
      exact h.write hwrite (hquiet.2 fd input junk size hop)
  | offsets hsame htrees => exact h.congr htrees.ramfs
  | openAt path flags a err s₀ hop hlive hfile htrees hcases =>
      refine DirsOk.congr ?_ htrees.ramfs
      have hknew : DirsOk (s.knew a) := h.congr rfl
      obtain ⟨s₁, htree, hramfs, -, -⟩ := openFile_tree hfile
      exact (hknew.tree htree).congr hramfs
  | closeAt fd hop htrees hcases => exact h.congr htrees.ramfs

theorem Fresh.dirsOk {s : Vfs} (h : Fresh s) : DirsOk s := fun node f hf htype => by
  obtain ⟨dirs, hdata, -⟩ := h.treeOk.entries node f hf htype
  exact ⟨dirs, hdata⟩

/--
**Directories stay lists of entries, and reads and writes leave them alone, in just the runs
in which no read or write copies any byte of one.**  For every run of calls by any tasks,
from new file systems.
-/
theorem dirs_kept_iff (fuel : Nat) (s : Vfs) (calls : List Call) (h : Fresh s) :
    Always (vfsStep fuel) DirsOk s calls ∧ EveryTry (vfsStep fuel) Respects s calls ↔
      EveryTry (vfsStep fuel) NoBytes s calls :=
  always_everyTry_iff (fun _ hs => hs) dirsOk_step respects_iff h.dirsOk

/-- The root is opened and read, and it is empty. -/
theorem dirs_kept_iff_boot :
    Always (vfsStep 4) DirsOk (Vfs.boot [0x1000] 0x1000 0x2000)
        [⟨0, .open ['.'] 1 0x3000⟩, ⟨0, .read 0 16 fun _ => 0⟩] ∧
      EveryTry (vfsStep 4) Respects (Vfs.boot [0x1000] 0x1000 0x2000)
        [⟨0, .open ['.'] 1 0x3000⟩, ⟨0, .read 0 16 fun _ => 0⟩] ↔
      EveryTry (vfsStep 4) NoBytes (Vfs.boot [0x1000] 0x1000 0x2000)
        [⟨0, .open ['.'] 1 0x3000⟩, ⟨0, .read 0 16 fun _ => 0⟩] :=
  dirs_kept_iff 4 _ _ (fresh_boot _ _ _)

/-- **A write to the root puts file bytes in the place of its entries.** -/
theorem root_overwritten :
    ¬ Always (vfsStep 4) DirsOk (Vfs.boot [0x1000] 0x1000 0x2000)
      [⟨0, .open ['.'] 4 0x3000⟩, ⟨0, .write 0 (fun _ => 0x61) (fun _ => 0) 1⟩] := by
  intro h
  have hrun : (runAll (vfsStep 4) (Vfs.boot [0x1000] 0x1000 0x2000)
      [⟨0, .open ['.'] 4 0x3000⟩, ⟨0, .write 0 (fun _ => 0x61) (fun _ => 0) 1⟩]).map (fun s =>
        ((s.header ⟨1, 0x1000⟩).map FileHeader.type, s.readdir ⟨1, 0x1000⟩ ⟨0, 0, 0, []⟩ 0)) =
      some (some FS_DIR, none) := by
    decide
  obtain ⟨s, hs, hend⟩ := Option.map_eq_some_iff.mp hrun
  obtain ⟨htype, hread⟩ := Prod.mk.inj hend
  obtain ⟨f, hf, htype⟩ := Option.map_eq_some_iff.mp htype
  obtain ⟨dirs, hdata⟩ := h.last hs _ f hf htype
  obtain ⟨hend, hentry⟩ := readdir_dir hf htype hdata 0 ⟨0, 0, 0, []⟩
  rcases hfirst : dirs[0]? with _ | e
  · exact Option.some_ne_none _ ((hend hfirst).symm.trans hread)
  · exact Option.some_ne_none _ ((hentry e hfirst).symm.trans hread)

end OsThing.Fs
