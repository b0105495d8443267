/-
When the names in a directory are unique.

Where an entry is added nobody looks whether the name is taken.  The callers look up the
path first, and without mounts a lookup that fails at its last name says that the directory
does not have that name.  There are three ways around it: `open` makes a file in a
directory that it did find; a path that ends in `..` fails whatever the directory has; and
`mknod` uses its node even if the lookup of the directory failed.
-/
import OsThing.Proofs.OpenFrame

namespace OsThing.Fs

open Runs

/-! ### The calls -/

inductive MakeOp
  | open (path : Name) (flags : UInt32) (a : Nat)
  | mkdir (path : Name) (mode : UInt32)
  | mknod (path : Name) (mode : UInt32) (dev : Nat) (junk : FileNode)

def MakeOp.path : MakeOp → Name
  | .open path _ _ => path
  | .mkdir path _ => path
  | .mknod path _ _ _ => path

def MakeOp.toOp : MakeOp → VfsOp
  | .open path flags a => .open path flags a
  | .mkdir path mode => .mkdir path mode
  | .mknod path mode dev junk => .mknod path mode dev junk

structure MakeCall where
  task : Nat
  op : MakeOp

def makeStep (fuel : Nat) (s : Vfs) (c : MakeCall) : Option Vfs :=
  vfsStep fuel s ⟨c.task, c.op.toOp⟩

/-- The names of the entries. -/
def FileHeader.entryNames (f : FileHeader) : List Name :=
  match f.data with
  | .entries dirs => dirs.map RamfsDirent.name
  | .buffer _ => []

theorem entryNames_of_data {f : FileHeader} {dirs : List RamfsDirent}
    (h : f.data = .entries dirs) : f.entryNames = dirs.map RamfsDirent.name := by
  unfold FileHeader.entryNames
  rw [h]

/-- No directory has two entries with the same name. -/
def UniqueNames (s : Vfs) : Prop :=
  ∀ node f, s.header node = some f → f.entryNames.Nodup

/-- The directory has no entry with the name. -/
def EntryFree (s : Vfs) (dir : FileNode) (name : Name) : Prop :=
  ∀ f, s.header dir = some f → name ∉ f.entryNames

/-- Where the call makes an entry: in the directory that the path leads to, or in the one
that has been looked up for it. -/
def MakesAt (fuel : Nat) (s : Vfs) (c : MakeCall) (dir : FileNode) : Prop :=
  match c.op with
  | .open path flags _ => MakesIn s c.task flags dir ∧ (Resolves s fuel c.task path dir ∨
      ((∃ e, Fails s fuel c.task path e) ∧ Resolves s fuel c.task (parentPath path) dir))
  | .mkdir path _ => IsDir s dir ∧ (∃ e, Fails s fuel c.task path e) ∧
      Resolves s fuel c.task (dirPath path) dir
  | .mknod path _ _ junk => IsDir s dir ∧ (∃ e, Fails s fuel c.task path e) ∧
      (Resolves s fuel c.task (dirPath path) dir ∨
        ((∃ e, Fails s fuel c.task (dirPath path) e) ∧ dir = junk))

/-- The lookups have not shown that the name is free. -/
def Unchecked (fuel : Nat) (s : Vfs) (c : MakeCall) (dir : FileNode) : Prop :=
  Resolves s fuel c.task c.op.path dir ∨ lastName c.op.path = ['.', '.'] ∨
    ∃ e, Fails s fuel c.task (dirPath c.op.path) e

/-- Where the name was not checked, it is free all the same. -/
def NoRepeat (fuel : Nat) (s : Vfs) (c : MakeCall) (_ : Vfs) : Prop :=
  ∀ dir, MakesAt fuel s c dir → Unchecked fuel s c dir → EntryFree s dir (lastName c.op.path)

/-! ### One entry more -/

theorem UniqueNames.congr {s s' : Vfs} (h : UniqueNames s) (hramfs : s'.ramfs = s.ramfs) :
    UniqueNames s' := by
  intro node f hf
  rw [header_congr hramfs] at hf
  exact h node f hf

/-- The names stay unique if the new one is. -/
theorem UniqueNames.created {s s' : Vfs} {dir new : FileNode} {name : Name} {type : Nat}
    (h : UniqueNames s) (hc : Created s s' dir new name type) :
    UniqueNames s' ↔ EntryFree s dir name := by
  obtain ⟨f₀, dirs, e, g, hf₀, -, hdata, -, hname, -, -, hempty, hfiles⟩ := hc.files
  have hnames₀ := entryNames_of_data hdata
  have hnames : (f₀.enter dirs e).entryNames = f₀.entryNames ++ [name] := by
    rw [entryNames_of_data (show (f₀.enter dirs e).data = .entries (dirs ++ [e]) from rfl),
      List.map_append, List.map_singleton, hname, hnames₀]
  have hnodup : (f₀.enter dirs e).entryNames.Nodup ↔ name ∉ f₀.entryNames := by
    rw [hnames, ← List.concat_eq_append, List.nodup_concat]
    exact and_iff_left (h dir f₀ hf₀)
  have hne : dir ≠ new := by
    rintro rfl
    rw [hc.old] at hf₀
    cases hf₀
  refine ⟨fun hunique f hf => ?_, fun hfree node f' hf' => ?_⟩
  · obtain rfl := Option.some.inj (hf₀.symm.trans hf)
    refine hnodup.mp (hunique dir (f₀.enter dirs e) ?_)
    rw [hfiles, if_neg hne, hf₀, Option.map_some, if_pos rfl]
  · rw [hfiles] at hf'
    split at hf'
    · obtain rfl := Option.some.inj hf'
      rw [entryNames_of_data hempty]
      exact List.nodup_nil
    · obtain ⟨f, hf, rfl⟩ := Option.map_eq_some_iff.mp hf'
      split
      · rename_i heq
        obtain rfl := Option.some.inj (hf₀.symm.trans (heq ▸ hf))
        exact hnodup.mpr (hfree f₀ hf₀)
      · exact h node f hf

theorem UniqueNames.adds {s s' : Vfs} {dir : FileNode} {name : Name} {type : Nat}
    (h : UniqueNames s) (hadds : Adds s s' dir name type) :
    UniqueNames s' ↔ EntryFree s dir name := by
  obtain ⟨head, head', mode, hhead, hadded, hramfs⟩ := hadds
  have hc : Created s (s.setRamfs dir.fs head') dir ⟨head.iCount, dir.fs⟩ name type :=
    Created.of_added hhead hadded rfl rfl rfl
  rw [← h.created hc]
  exact ⟨fun h' => h'.congr hramfs.symm, fun h' => h'.congr hramfs⟩

/-! ### What the calls do -/

/-- An entry is made if the node is a directory. -/
theorem onRamfsAdd_cases {s s' : Vfs} {node : FileNode} {name : Name} {mode : UInt32}
    {type : Nat} {ret : Int}
    (h : (s.onRamfs node fun head => ramfsAdd head node name mode type) = some (ret, s')) :
    s'.nodes = s.nodes ∧ ((IsDir s node ∧ Adds s s' node name type) ∨
      (¬ IsDir s node ∧ s'.ramfs = s.ramfs)) := by
  obtain ⟨head, head', hhead, hop, rfl⟩ := onRamfs_spec h
  refine ⟨rfl, ?_⟩
  by_cases hdir : IsDir s node
  · obtain ⟨f, hf, htype⟩ := hdir
    rw [header_of_ramfs hhead] at hf
    obtain ⟨-, hadded⟩ := ramfsAdd_dir hf htype hop
    exact Or.inl ⟨⟨f, (header_of_ramfs hhead).trans hf, htype⟩, head, head', mode, hhead, hadded, rfl⟩
  · rcases ramfsAdd_cases hop with ⟨-, rfl⟩ | ⟨-, hadded⟩
    · exact Or.inr ⟨hdir, setRamfs_self hhead⟩
    · obtain ⟨f, -, -, hf, htype, -⟩ := hadded.files
      exact absurd ⟨f, (header_of_ramfs hhead).trans hf, htype⟩ hdir

/-- `open` writes to no node but its own. -/
theorem openFile_nodes {s s₀ : Vfs} {fuel t a : Nat} {path : Name} {flags : UInt32} {err : Int}
    (h : s.openFile fuel t path flags a = some (err, s₀)) {b : Nat} (hb : b ≠ a) :
    s₀.nodes b = s.nodes b := by
  have hset : ∀ (s : Vfs) node, (s.setNode a node).nodes b = s.nodes b := fun s node => by
    unfold Vfs.setNode
    exact Function.update_of_ne hb _ _
  cases openFile_ends h with
  | lost found herr hfind =>
      obtain ⟨⟨node, rfl⟩, -⟩ := openFind_cases hfind
      exact hset s node
  | refused e found he herr hfind hperms =>
      obtain ⟨⟨node, rfl⟩, -⟩ := openFind_cases hfind
      exact hset s node
  | opened e found s₁ he hend hfind hperms hopen =>
      obtain ⟨⟨node, rfl⟩, -⟩ := openFind_cases hfind
      obtain ⟨head, head', -, -, rfl⟩ := onRamfs_spec hopen
      exact hset s node
  | made e ret s₁ s₂ he hret hfind hperms hopen hlast =>
      obtain ⟨⟨node, rfl⟩, -⟩ := openFind_cases hfind
      obtain ⟨head, head', -, -, rfl⟩ := onRamfs_spec hopen
      obtain ⟨node', -, rfl⟩ := findPath_spec hlast
      exact (hset _ node').trans (hset s node)

/-- A lookup that fails leaves its node alone. -/
theorem buf_of_fails {s : Vfs} {fuel t : Nat} {path : Name} {buf node : FileNode} {e : Int}
    (h : fsFindPath s fuel t path buf = .ok (e, node)) (he : e < 0) : node = buf := by
  obtain ⟨-, hnames, hfailed⟩ := locate_of_failed h he
  rw [fsFindPath_eq s fuel t buf hnames, hfailed] at h
  exact (Prod.mk.inj (Except.ok.inj h)).2.symm

/-- There is one directory at most. -/
theorem MakesAt.unique {fuel : Nat} {s : Vfs} {c : MakeCall} {dir dir' : FileNode}
    (h : MakesAt fuel s c dir) (h' : MakesAt fuel s c dir') : dir' = dir := by
  obtain ⟨t, op⟩ := c
  cases op with
  | «open» path flags a =>
      rcases h.2 with hres | ⟨⟨e, he⟩, hres⟩
      · rcases h'.2 with hres' | ⟨⟨e, he⟩, -⟩
        · exact hres.unique hres'
        · exact absurd hres (he.not_resolves dir)
      · rcases h'.2 with hres' | ⟨-, hres'⟩
        · exact absurd hres' (he.not_resolves dir')
        · exact hres.unique hres'
  | mkdir path mode => exact h.2.2.unique h'.2.2
  | mknod path mode dev junk =>
      rcases h.2.2 with hres | ⟨⟨e, he⟩, hdir⟩
      · rcases h'.2.2 with hres' | ⟨⟨e, he⟩, -⟩
        · exact hres.unique hres'
        · exact absurd hres (he.not_resolves dir)
      · rcases h'.2.2 with hres' | ⟨-, hdir'⟩
        · exact absurd hres' (he.not_resolves dir')
        · exact hdir'.trans hdir.symm

/-- What a call does to the files: it makes an entry where `MakesAt` says, or nothing. -/
def Made (fuel : Nat) (s s' : Vfs) (c : MakeCall) : Prop :=
  (s'.ramfs = s.ramfs ∧ ∀ dir, ¬ MakesAt fuel s c dir) ∨
    ∃ dir type, MakesAt fuel s c dir ∧ Adds s s' dir (lastName c.op.path) type

theorem mkdir_made {s s' : Vfs} {fuel t : Nat} {path : Name} {mode : UInt32} {ret : Int}
    (h : s.mkdir fuel t path mode = some (ret, s')) :
    s'.nodes = s.nodes ∧ Made fuel s s' ⟨t, .mkdir path mode⟩ := by
  unfold Vfs.mkdir at h
  obtain ⟨⟨e, dir⟩, hpath, h⟩ := Option.bind_eq_some_iff.mp h
  dsimp only at h
  rcases resolves_or_fails (toOption_eq_some hpath) with ⟨rfl, hres⟩ | hfails
  · obtain ⟨-, rfl⟩ := Prod.mk.inj (Option.some.inj h)
    exact ⟨rfl, Or.inl ⟨rfl, fun dir' hmakes => hmakes.2.1.elim fun e he =>
      he.not_resolves dir hres⟩⟩
  rw [if_neg (Int.ne_of_lt hfails.1)] at h
  obtain ⟨⟨e', dir'⟩, hparent, h⟩ := Option.bind_eq_some_iff.mp h
  dsimp only at h
  rcases resolves_or_fails (toOption_eq_some hparent) with ⟨rfl, hres⟩ | hfails'
  · rw [if_neg (by decide)] at h
    obtain ⟨hnodes, ⟨hdir, hadds⟩ | ⟨hdir, hsame⟩⟩ := onRamfsAdd_cases h
    · exact ⟨hnodes, Or.inr ⟨dir', FS_DIR, ⟨hdir, ⟨e, hfails⟩, hres⟩, hadds⟩⟩
    · exact ⟨hnodes, Or.inl ⟨hsame, fun d hmakes => hdir (hres.unique hmakes.2.2 ▸ hmakes.1)⟩⟩
  · rw [if_pos hfails'.1] at h
    obtain ⟨-, rfl⟩ := Prod.mk.inj (Option.some.inj h)
    exact ⟨rfl, Or.inl ⟨rfl, fun d hmakes => hfails'.not_resolves d hmakes.2.2⟩⟩

theorem mknod_made {s s' : Vfs} {fuel t dev : Nat} {path : Name} {mode : UInt32}
    {junk : FileNode} {ret : Int} (h : s.mknod fuel t path mode dev junk = some (ret, s')) :
    s'.nodes = s.nodes ∧ Made fuel s s' ⟨t, .mknod path mode dev junk⟩ := by
  unfold Vfs.mknod at h
  obtain ⟨⟨e, fp⟩, hpath, h⟩ := Option.bind_eq_some_iff.mp h
  dsimp only at h
  rcases resolves_or_fails (toOption_eq_some hpath) with ⟨rfl, hres⟩ | hfails
  · obtain ⟨-, rfl⟩ := Prod.mk.inj (Option.some.inj h)
    exact ⟨rfl, Or.inl ⟨rfl, fun dir' hmakes => hmakes.2.1.elim fun e he =>
      he.not_resolves fp hres⟩⟩
  rw [if_neg (Int.ne_of_lt hfails.1)] at h
  rw [buf_of_fails (toOption_eq_some hpath) hfails.1] at h
  obtain ⟨⟨e', fp'⟩, hparent, h⟩ := Option.bind_eq_some_iff.mp h
  dsimp only at h
  have hparent := toOption_eq_some hparent
  -- the node that is used is the only one that can be meant
  have hused : (Resolves s fuel t (dirPath path) fp' ∨
        ((∃ e, Fails s fuel t (dirPath path) e) ∧ fp' = junk)) ∧
      ∀ d, MakesAt fuel s ⟨t, .mknod path mode dev junk⟩ d → d = fp' := by
    rcases resolves_or_fails hparent with ⟨rfl, hres⟩ | hfails'
    · refine ⟨Or.inl hres, fun d hmakes => ?_⟩
      rcases hmakes.2.2 with hres' | ⟨⟨e₁, he₁⟩, -⟩
      · exact hres.unique hres'
      · exact absurd hres (he₁.not_resolves fp')
    · have hbuf := buf_of_fails hparent hfails'.1
      refine ⟨Or.inr ⟨⟨e', hfails'⟩, hbuf⟩, fun d hmakes => ?_⟩
      rcases hmakes.2.2 with hres' | ⟨-, hd⟩
      · exact absurd hres' (hfails'.not_resolves d)
      · exact hd.trans hbuf.symm
  obtain ⟨hnodes, ⟨hdir, hadds⟩ | ⟨hdir, hsame⟩⟩ := onRamfsAdd_cases h
  · exact ⟨hnodes, Or.inr ⟨fp', dev, ⟨hdir, ⟨e, hfails⟩, hused.1⟩, hadds⟩⟩
  · exact ⟨hnodes, Or.inl ⟨hsame, fun d hmakes => hdir (hused.2 d hmakes ▸ hmakes.1)⟩⟩

theorem open_made {s s' : Vfs} {fuel t a : Nat} {path : Name} {flags : UInt32} {ret : Int}
    (hs : Sound s) (h : s.openCall fuel t path flags a = some (ret, s')) :
    (∀ b ∈ s.live, s'.nodes b = s.nodes b) ∧ Made fuel s s' ⟨t, .open path flags a⟩ := by
  refine ⟨fun b hb => ?_, ?_⟩
  · obtain ⟨err, s₀, hfile, hlive, htrees, -⟩ := open_cases h
    have hne : b ≠ a := fun heq => hlive (heq ▸ hb)
    rw [← (noteOpen_same s' t ret a flags).1.nodes, htrees.nodes, openFile_nodes hfile hne]
    exact Function.update_of_ne hne _ _
  · rcases open_files hs h with ⟨hsame, hnot⟩ | ⟨dir, hmakes, hadds, hcases⟩
    · refine Or.inl ⟨hsame, fun dir hmakes => ?_⟩
      rcases hmakes.2 with hres | hres
      · exact (hnot dir hmakes.1).1 hres
      · exact (hnot dir hmakes.1).2 hres
    · refine Or.inr ⟨dir, FS_FILE, ⟨hmakes, hcases.imp_right ?_⟩, hadds⟩
      rintro ⟨e, he, hres, -⟩
      exact ⟨⟨e, he⟩, hres⟩

theorem makeStep_made {fuel : Nat} {s s' : Vfs} {c : MakeCall} (hs : Sound s)
    (h : makeStep fuel s c = some s') :
    (∀ b ∈ s.live, s'.nodes b = s.nodes b) ∧ Made fuel s s' c := by
  obtain ⟨t, op⟩ := c
  cases op with
  | «open» path flags a =>
      obtain ⟨⟨ret, s₁⟩, hopen, rfl⟩ := Option.map_eq_some_iff.mp h
      obtain ⟨hnodes, hmade⟩ := open_made hs hopen
      have hsame := (noteOpen_same s₁ t ret a flags).1
      dsimp only
      refine ⟨fun b hb => (congrFun hsame.nodes b).trans (hnodes b hb), ?_⟩
      rcases hmade with ⟨hramfs, hnot⟩ | ⟨dir, type, hmakes, head, head', mode, hhead, hadded, hramfs⟩
      · exact Or.inl ⟨hsame.ramfs.trans hramfs, hnot⟩
      · exact Or.inr ⟨dir, type, hmakes, head, head', mode, hhead, hadded,
          hsame.ramfs.trans hramfs⟩
  | mkdir path mode =>
      obtain ⟨⟨ret, s₁⟩, hcall, rfl⟩ := Option.map_eq_some_iff.mp h
      obtain ⟨hnodes, hmade⟩ := mkdir_made hcall
      exact ⟨fun b _ => congrFun hnodes b, hmade⟩
  | mknod path mode dev junk =>
      obtain ⟨⟨ret, s₁⟩, hcall, rfl⟩ := Option.map_eq_some_iff.mp h
      obtain ⟨hnodes, hmade⟩ := mknod_made hcall
      exact ⟨fun b _ => congrFun hnodes b, hmade⟩

/-! ### Runs -/

/-- All tasks are in the root of the file system at `fs`, and nothing is mounted there. -/
structure NamesInv (fs root : Nat) (s : Vfs) : Prop where
  sound : Sound s
  unique : UniqueNames s
  blocks : ∀ t, (s.tasks t).root = root ∧ (s.tasks t).cwd = root
  node : s.nodes root = ⟨1, fs⟩
  closed : ∀ head, s.ramfs fs = some head → Closed head ∧ (head.getFileH 1).isSome

/-- Wherever the lookups begin, they begin at the root. -/
theorem NamesInv.startNode {fs root : Nat} {s : Vfs} (h : NamesInv fs root s) (t : Nat)
    (path : Name) : startNode s t path = ⟨1, fs⟩ := by
  unfold OsThing.Fs.startNode
  rw [(h.blocks t).1, (h.blocks t).2, h.node, ite_self]

/-- A walk from there knows the type of the directory that it has got to. -/
theorem NamesInv.known {fs root : Nat} {s : Vfs} (h : NamesInv fs root s) {fuel t : Nat}
    {path : Name} {p : Place} (hp : locate s fuel t path = .ok p) (hdir : IsDir s p.temp) :
    p.info.type = FS_DIR := by
  rcases hhead : s.ramfs fs with _ | head
  · unfold locate startAt at hp
    have hnone : s.getInfo ⟨1, fs⟩ FileInfo.zero = none := by
      unfold Vfs.getInfo
      rw [hhead, Option.map_none]
    rw [h.startNode, hnone] at hp
    cases hp
  · obtain ⟨hclosed, hfile⟩ := h.closed head hhead
    have hat := locate_at hhead hclosed (by rw [h.startNode]) (by rw [h.startNode]; exact hfile) hp
    obtain ⟨hfs, f, hf, hinfo⟩ := hat
    obtain ⟨f', hf', htype⟩ := hdir
    subst hfs
    rw [header_of_ramfs hhead, hf] at hf'
    obtain rfl := Option.some.inj hf'
    rw [hinfo]
    exact htype

/-- The directory that the call has looked up is the one where its path ends. -/
theorem NamesInv.locate_dirPath {fs root : Nat} {s : Vfs} (h : NamesInv fs root s) {fuel : Nat}
    {c : MakeCall} {dir : FileNode} (hmakes : MakesAt fuel s c dir)
    (hchecked : ¬ Unchecked fuel s c dir) : IsDir s dir ∧
      (∃ e, Fails s fuel c.task c.op.path e) ∧
      ∃ p, locate s fuel c.task (dirPath c.op.path) = .ok p ∧ p.temp = dir := by
  obtain ⟨t, op⟩ := c
  cases op with
  | «open» path flags a =>
      obtain ⟨⟨-, ⟨f, hf, htype⟩, -⟩, hres | ⟨hfails, hres⟩⟩ := hmakes
      · exact absurd (Or.inl hres) hchecked
      obtain ⟨p, hp, htemp⟩ := locate_of_found hres hf
      refine ⟨⟨f, hf, htype⟩, hfails, p, ?_, htemp⟩
      show locate s fuel t (dirPath path) = .ok p
      rcases parentPath_cases path with ⟨hnil, -, hslash⟩ | ⟨-, hsame⟩
      · rw [hnil, locate_here, (h.blocks t).2] at hp
        rw [hslash, locate_root, (h.blocks t).1]
        exact hp
      · rw [hsame]
        exact hp
  | mkdir path mode =>
      obtain ⟨⟨f, hf, htype⟩, hfails, hres⟩ := hmakes
      exact ⟨⟨f, hf, htype⟩, hfails, locate_of_found hres hf⟩
  | mknod path mode dev junk =>
      obtain ⟨⟨f, hf, htype⟩, hfails, hres | ⟨hlost, -⟩⟩ := hmakes
      · exact ⟨⟨f, hf, htype⟩, hfails, locate_of_found hres hf⟩
      · exact absurd (Or.inr (Or.inr hlost)) hchecked

/-- **A name that was looked up and not found is free.** -/
theorem NamesInv.free {fs root : Nat} {s : Vfs} (h : NamesInv fs root s) {fuel : Nat}
    {c : MakeCall} {dir : FileNode} (hmakes : MakesAt fuel s c dir)
    (hchecked : ¬ Unchecked fuel s c dir) : EntryFree s dir (lastName c.op.path) := by
  obtain ⟨hdir, ⟨e, he, node, hfind⟩, p, hp, rfl⟩ := h.locate_dirPath hmakes hchecked
  obtain ⟨hpath, hnames, hfailed⟩ := locate_of_failed hfind he
  rw [locate_last s fuel c.task hpath hnames, hp] at hfailed
  have hlast : goName s fuel p (lastName c.op.path) = .error (.failed e) := hfailed
  obtain ⟨-, ⟨hup, -⟩ | ⟨htype, -⟩ | ⟨-, -, -, b, hscan⟩⟩ := goName_failed hlast
  · exact absurd (Or.inr (Or.inl hup)) hchecked
  · exact absurd (h.known hp hdir) htype
  · obtain ⟨f', hf', htype⟩ := hdir
    intro f hf hmem
    obtain rfl := Option.some.inj (hf'.symm.trans hf)
    obtain ⟨dirs, hdata, hnone⟩ := scanDir_dir hf htype hscan
    rw [entryNames_of_data hdata] at hmem
    obtain ⟨entry, hentry, hname⟩ := List.mem_map.mp hmem
    have hother := List.find?_eq_none.mp (Option.map_eq_none_iff.mp hnone.symm) entry hentry
    exact hother (decide_eq_true hname)

theorem NamesInv.step {fs root fuel : Nat} {s s' : Vfs} {c : MakeCall} (h : NamesInv fs root s)
    (hstep : makeStep fuel s c = some s') (hunique : UniqueNames s') : NamesInv fs root s' := by
  obtain ⟨hnodes, hmade⟩ := makeStep_made h.sound hstep
  obtain ⟨-, hblocks⟩ := blocks_step hstep
  refine ⟨h.sound.step hstep, hunique, fun t => ?_, ?_, fun head' hhead' => ?_⟩
  · rw [(hblocks t).1, (hblocks t).2]
    exact h.blocks t
  · rw [hnodes root ((h.blocks 0).1 ▸ h.sound.root 0)]
    exact h.node
  · rcases hmade with ⟨hsame, -⟩ | ⟨dir, type, -, head, head₁, mode, hhead, hadded, hramfs⟩
    · rw [hsame] at hhead'
      exact h.closed head' hhead'
    · rw [hramfs] at hhead'
      unfold Vfs.setRamfs at hhead'
      dsimp only at hhead'
      rw [Function.update_apply] at hhead'
      split at hhead'
      · rename_i hfs
        obtain rfl := Option.some.inj hhead'
        obtain ⟨hclosed, hfile⟩ := h.closed head (hfs ▸ hhead)
        refine ⟨hclosed.added hadded, ?_⟩
        obtain ⟨_, _, _, -, -, -, -, -, hfiles⟩ := hadded.files
        rw [hfiles]
        split
        · rfl
        · rw [Option.isSome_map]
          exact hfile
      · exact h.closed head' hhead'

theorem namesInv_boot (systems : List Nat) (fs root : Nat) :
    NamesInv fs root (Vfs.boot systems fs root) := by
  have hfresh := fresh_boot systems fs root
  refine ⟨sound_boot systems fs root, fun node f hf => ?_, fun _ => ⟨rfl, rfl⟩,
    ?_, fun head hhead => ?_⟩
  · rw [entryNames_of_data (hfresh.header hf).1]
    exact List.nodup_nil
  · show Function.update (fun _ => (⟨0, 0⟩ : FileNode)) root ⟨1, fs⟩ root = ⟨1, fs⟩
    exact Function.update_self ..
  · rw [hfresh.ramfs fs head hhead]
    exact ⟨closed_init, rfl⟩

/--
**Names are unique all along a run just as long as no call makes an entry that it has not
checked, where the name is taken.**  For every run of `open`, `mkdir` and `mknod` by any
tasks, from the empty root.
-/
theorem unique_names_iff (fuel : Nat) (systems : List Nat) (fs root : Nat)
    (calls : List MakeCall) :
    Always (makeStep fuel) UniqueNames (Vfs.boot systems fs root) calls ↔
      EveryStep (makeStep fuel) (NoRepeat fuel) (Vfs.boot systems fs root) calls := by
  have hkeep : ∀ s c s', NamesInv fs root s → makeStep fuel s c = some s' →
      NoRepeat fuel s c s' → NamesInv fs root s' := by
    intro s c s' h hstep hfree
    refine h.step hstep ?_
    rcases (makeStep_made h.sound hstep).2 with ⟨hsame, -⟩ | ⟨dir, type, hmakes, hadds⟩
    · exact h.unique.congr hsame
    · refine (h.unique.adds hadds).mpr ?_
      by_cases hchecked : Unchecked fuel s c dir
      · exact hfree dir hmakes hchecked
      · exact h.free hmakes hchecked
  have hexact : ∀ s c s', NamesInv fs root s → makeStep fuel s c = some s' →
      UniqueNames s' → NoRepeat fuel s c s' := by
    intro s c s' h hstep hunique dir hmakes _
    rcases (makeStep_made h.sound hstep).2 with ⟨-, hnot⟩ | ⟨dir', type, hmakes', hadds⟩
    · exact absurd hmakes (hnot dir)
    · rw [hmakes'.unique hmakes]
      exact (h.unique.adds hadds).mp hunique
  exact always_iff (fun _ h => h.unique) hkeep hexact (namesInv_boot systems fs root)

/-- **`.` is opened twice with `O_CREAT`**, and then the root has two entries of that name. -/
theorem dot_repeated :
    ¬ Always (makeStep 4) UniqueNames (Vfs.boot [0x1000] 0x1000 0x2000)
      [⟨0, .open ['.'] 65 0x3000⟩, ⟨0, .open ['.'] 65 0x3000⟩] := by
  intro h
  have hrun : (runAll (makeStep 4) (Vfs.boot [0x1000] 0x1000 0x2000)
      [⟨0, .open ['.'] 65 0x3000⟩, ⟨0, .open ['.'] 65 0x3000⟩]).map (fun s =>
        (s.header ⟨1, 0x1000⟩).map FileHeader.entryNames) = some (some [['.'], ['.']]) := by
    decide
  obtain ⟨s, hs, hend⟩ := Option.map_eq_some_iff.mp hrun
  obtain ⟨f, hf, hnames⟩ := Option.map_eq_some_iff.mp hend
  have hnodup := h.last hs ⟨1, 0x1000⟩ f hf
  rw [hnames] at hnodup
  revert hnodup
  decide

end OsThing.Fs
