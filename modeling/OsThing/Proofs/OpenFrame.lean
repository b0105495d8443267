/-
What `open` leaves alone.

`open` makes a file only where its own first lookup fails, but `ramfs_open` makes one in
any directory it is asked to open with `O_CREAT`.  And once the file is made, three things
can still go wrong: the second lookup may look elsewhere, since for `/x` the file was made
in the working directory; it may fail for the reason the first one did; and there may be
no place for another descriptor.  `Spoils` lists these cases, and `open_frame_iff` says
that there are no others.
-/
import OsThing.Proofs.Creation

namespace OsThing.Fs

open Runs

/-! ### What the lookups rely on -/

/-- The nodes of every task are in blocks that are in use, and entries name files. -/
structure Sound (s : Vfs) : Prop where
  root : ∀ t, (s.tasks t).root ∈ s.live
  cwd : ∀ t, (s.tasks t).cwd ∈ s.live
  entries : EntriesNamed s

theorem EntriesNamed.congr {s s' : Vfs} (h : EntriesNamed s) (hramfs : s'.ramfs = s.ramfs) :
    EntriesNamed s' := by
  intro node f dirs hf hdata e he
  rw [header_congr hramfs] at hf ⊢
  exact h node f dirs hf hdata e he

/-- A change of files that takes none away, and makes entries only for files that are there. -/
theorem EntriesNamed.setRamfs {s : Vfs} {fs : Nat} {head head' : RamfsHeader}
    (h : EntriesNamed s) (hhead : s.ramfs fs = some head)
    (hkeep : ∀ i, (head.getFileH i).isSome → (head'.getFileH i).isSome)
    (hnew : ∀ i f' dirs', head'.getFileH i = some f' → f'.data = .entries dirs' →
      ∀ e ∈ dirs', (i < e.inode ∧ (head'.getFileH e.inode).isSome) ∨
        ∃ f dirs, head.getFileH i = some f ∧ f.data = .entries dirs ∧ e ∈ dirs) :
    EntriesNamed (s.setRamfs fs head') := by
  intro node f' dirs' hf' hdata' e he
  rw [header_setRamfs] at hf' ⊢
  dsimp only
  split at hf'
  · rename_i hfs
    rw [if_pos hfs]
    rcases hnew _ f' dirs' hf' hdata' e he with hnamed | ⟨f, dirs, hf, hdata, hold⟩
    · exact hnamed
    · subst hfs
      have hnamed := h node f dirs ((header_of_ramfs hhead).trans hf) hdata e hold
      rw [@header_of_ramfs s ⟨e.inode, node.fs⟩ head hhead] at hnamed
      exact ⟨hnamed.1, hkeep _ hnamed.2⟩
  · rename_i hfs
    rw [if_neg hfs]
    exact h node f' dirs' hf' hdata' e he

theorem EntriesNamed.modifyFile {s : Vfs} {fs inode : Nat} {head : RamfsHeader}
    {change : FileHeader → FileHeader} (h : EntriesNamed s) (hhead : s.ramfs fs = some head)
    (hinode : ∀ f, (change f).inode = f.inode)
    (hdata : ∀ f dirs, (change f).data = .entries dirs → f.data = .entries dirs) :
    EntriesNamed (s.setRamfs fs (head.modifyFile inode change hinode)) := by
  refine h.setRamfs hhead (fun i hi => ?_) fun i f' dirs' hf' hdata' e he => Or.inr ?_
  · rw [RamfsHeader.getFileH_modifyFile, Option.isSome_map]
    exact hi
  · rw [RamfsHeader.getFileH_modifyFile] at hf'
    obtain ⟨f, hf, rfl⟩ := Option.map_eq_some_iff.mp hf'
    refine ⟨f, dirs', hf, ?_, he⟩
    split at hdata'
    · exact hdata f dirs' hdata'
    · exact hdata'

theorem EntriesNamed.added {s : Vfs} {fs inode type : Nat} {head head' : RamfsHeader} {name : Name}
    {mode : UInt32} (h : EntriesNamed s) (hhead : s.ramfs fs = some head)
    (hadded : Added head head' inode name mode type) : EntriesNamed (s.setRamfs fs head') := by
  obtain ⟨filehead, dirs, dir, hfile, -, hdata, hinode, -, hfiles⟩ := hadded.files
  refine h.setRamfs hhead (fun i hi => ?_) fun i f' dirs' hf' hdata' e he => ?_
  · rw [hfiles]
    split
    · rfl
    · rw [Option.isSome_map]
      exact hi
  · rw [hfiles] at hf'
    split at hf'
    · -- the new file is empty
      obtain rfl := Option.some.inj hf'
      obtain rfl : [] = dirs' := FileData.entries.inj hdata'
      exact absurd he List.not_mem_nil
    obtain ⟨f, hf, rfl⟩ := Option.map_eq_some_iff.mp hf'
    split at hdata'
    · rename_i hi
      obtain rfl : filehead = f := Option.some.inj (hfile.symm.trans (hi ▸ hf))
      obtain rfl : dirs ++ [dir] = dirs' := FileData.entries.inj hdata'
      rcases List.mem_append.mp he with hold | hlast
      · exact Or.inr ⟨filehead, dirs, hf, hdata, hold⟩
      · rw [List.mem_singleton.mp hlast, hfiles, if_pos hinode, hinode]
        exact Or.inl ⟨RamfsHeader.getFileH_lt hf, rfl⟩
    · exact Or.inr ⟨f, dirs', hf, hdata', he⟩

theorem EntriesNamed.onRamfsAdd {s s' : Vfs} {node : FileNode} {name : Name} {mode : UInt32}
    {type : Nat} {ret : Int} (h : EntriesNamed s)
    (hadd : (s.onRamfs node fun head => ramfsAdd head node name mode type) = some (ret, s')) :
    EntriesNamed s' := by
  obtain ⟨head, head', hhead, hop, rfl⟩ := onRamfs_spec hadd
  rcases ramfsAdd_cases hop with ⟨-, rfl⟩ | ⟨-, hadded⟩
  · exact h.congr (setRamfs_self hhead)
  · exact h.added hhead hadded

theorem EntriesNamed.tree {s s' : Vfs} (h : EntriesNamed s) (htree : TreeChange s s') :
    EntriesNamed s' := by
  cases htree with
  | same => exact h
  | node a node => exact h.congr rfl
  | add hadd => exact h.onRamfsAdd hadd
  | unlink hunlink =>
      obtain ⟨head, head', hhead, hop, rfl⟩ := onRamfs_spec hunlink
      obtain ⟨f, -, hop⟩ := Option.map_eq_some_iff.mp hop
      obtain ⟨-, rfl⟩ := Prod.mk.inj hop
      exact h.modifyFile hhead _ fun _ _ hdata => hdata

theorem EntriesNamed.write {s s' : Vfs} {t : Nat} {fd ret : Int} {input junk : Nat → UInt8}
    {size : UInt32} (h : EntriesNamed s) (hwrite : s.write t fd input junk size = some (ret, s')) :
    EntriesNamed s' := by
  rcases write_cases hwrite with rfl | ⟨d, i, s₁, -, hop, htrees, -⟩
  · exact h
  · refine EntriesNamed.congr ?_ htrees.ramfs
    obtain ⟨head, head', hhead, hres, rfl⟩ := onRamfs_spec hop
    obtain ⟨change, hinode, rfl, hchange⟩ := ramfsPwrite_cases hres
    exact h.modifyFile hhead hinode fun f => (hchange f).2.2

theorem EntriesNamed.mount {s s' : Vfs} {type dir : FileNode} {ret : Int} (h : EntriesNamed s)
    (hmount : s.fsMount type dir = some (ret, s')) : EntriesNamed s' := by
  obtain ⟨id, mounts, head, f, -, hhead, -, rfl⟩ := fsMount_spec hmount
  have hsame : EntriesNamed { s with mounts := mounts } := h.congr rfl
  exact hsame.modifyFile hhead _ fun _ _ hdata => hdata

/-- Every call keeps what lookups rely on. -/
theorem entriesNamed_step {fuel : Nat} {s s' : Vfs} {c : Call} (h : EntriesNamed s)
    (hstep : vfsStep fuel s c = some s') : EntriesNamed s' := by
  cases vfsStep_cases hstep with
  | tree htree => exact h.tree htree
  | mountAt type dir ret hop hmount => exact h.mount hmount
  | read fd size raw ret bytes hop hread => exact h.congr (read_spec hread).1.ramfs
  | write fd input junk size ret hop hwrite => exact h.write hwrite
  | offsets hsame htrees => exact h.congr htrees.ramfs
  | openAt path flags a err s₀ hop hlive hfile htrees hcases =>
      refine EntriesNamed.congr ?_ htrees.ramfs
      have hknew : EntriesNamed (s.knew a) := h.congr rfl
      obtain ⟨s₁, htree, hramfs, -, -⟩ := openFile_tree hfile
      exact (hknew.tree htree).congr hramfs
  | closeAt fd hop htrees hcases => exact h.congr htrees.ramfs

/-- The two nodes of each task stay where they are, and what is in use stays in use. -/
theorem blocks_step {fuel : Nat} {s s' : Vfs} {c : Call} (hstep : vfsStep fuel s c = some s') :
    s'.live = s.live ∧
      ∀ t, (s'.tasks t).root = (s.tasks t).root ∧ (s'.tasks t).cwd = (s.tasks t).cwd := by
  cases vfsStep_files hstep with
  | same h => exact ⟨h.live, fun t => (h.task t).2.2⟩
  | opened path flags a i err s₀ hop herr hfile h => exact ⟨h.live, fun t => (h.task_same t).2.2⟩
  | closed fd hop hgood h => exact ⟨h.live, fun t => (h.task_same t).2.2⟩

theorem Sound.step {fuel : Nat} {s s' : Vfs} {c : Call} (h : Sound s)
    (hstep : vfsStep fuel s c = some s') : Sound s' := by
  obtain ⟨hlive, hblocks⟩ := blocks_step hstep
  refine ⟨fun t => ?_, fun t => ?_, entriesNamed_step h.entries hstep⟩
  · rw [(hblocks t).1, hlive]
    exact h.root t
  · rw [(hblocks t).2, hlive]
    exact h.cwd t

theorem sound_boot (systems : List Nat) (fs root : Nat) : Sound (Vfs.boot systems fs root) := by
  refine ⟨fun _ => List.mem_singleton_self root, fun _ => List.mem_singleton_self root, ?_⟩
  intro node f dirs hf hdata e he
  have hempty := ((fresh_boot systems fs root).header hf).1
  obtain rfl : [] = dirs := FileData.entries.inj (hempty.symm.trans hdata)
  exact absurd he List.not_mem_nil

/-- Every state that a run gets to. -/
theorem Sound.run {fuel : Nat} {calls : List Call} {s s' : Vfs} (h : Sound s)
    (hrun : runAll (vfsStep fuel) s calls = some s') : Sound s' :=
  runAll_keeps (fun _ _ _ => Sound.step) h hrun

/-! ### The second lookup -/

theorem startAt_of_header {s : Vfs} {node : FileNode} {f : FileHeader}
    (h : s.header node = some f) :
    startAt s node = .ok ⟨node, f.info node, ⟨0, 0, 0, []⟩⟩ := by
  unfold startAt
  rw [getInfo_of_header h]

/-- Where a lookup that finds a file gets to. -/
theorem locate_of_found {s : Vfs} {fuel t : Nat} {path : Name} {buf node : FileNode}
    {f : FileHeader} (h : fsFindPath s fuel t path buf = .ok (0, node))
    (hf : s.header node = some f) : ∃ p, locate s fuel t path = .ok p ∧ p.temp = node := by
  rcases fsFindPath_found h (Int.le_refl 0) with ⟨-, ⟨hnames, rfl⟩ | ⟨p, hp, rfl⟩⟩
  · unfold locate
    rw [startAt_of_header hf, hnames]
    exact ⟨_, rfl, rfl⟩
  · exact ⟨p, hp, rfl⟩

theorem startAt_not_failed (s : Vfs) (node : FileNode) (err : Int) :
    startAt s node ≠ .error (.failed err) := by
  unfold startAt
  split
  · exact fun h => nomatch h
  · exact fun h => nomatch h

/-- The lookups of `/` and of the empty path. -/
theorem locate_root (s : Vfs) (fuel t : Nat) :
    locate s fuel t ['/'] = startAt s (s.nodes (s.tasks t).root) := by
  show (startAt s (s.nodes (s.tasks t).root)).bind _ = _
  rcases startAt s (s.nodes (s.tasks t).root) with halt | p
  · rfl
  · rfl

theorem locate_here (s : Vfs) (fuel t : Nat) :
    locate s fuel t [] = startAt s (s.nodes (s.tasks t).cwd) := by
  show (startAt s (s.nodes (s.tasks t).cwd)).bind _ = _
  rcases startAt s (s.nodes (s.tasks t).cwd) with halt | p
  · rfl
  · rfl

/-- A lookup that fails has a name to fail at. -/
theorem locate_of_failed {s : Vfs} {fuel t : Nat} {path : Name} {buf node : FileNode} {e : Int}
    (h : fsFindPath s fuel t path buf = .ok (e, node)) (he : e < 0) :
    path ≠ [] ∧ pathNames path ≠ [] ∧ locate s fuel t path = .error (.failed e) := by
  rcases fsFindPath_ok h with ⟨-, rfl, -⟩ | ⟨-, -, rfl, -⟩ | ⟨hnames, hwalk⟩
  · exact absurd he (Int.lt_irrefl 0)
  · exact absurd he (Int.lt_irrefl 0)
  · refine ⟨?_, hnames, hwalk⟩
    rintro rfl
    rw [locate_here] at hwalk
    exact startAt_not_failed _ _ _ hwalk

/-- The directory that `open` looks up is that of the path, unless the path has no slash but
one at its start. -/
theorem parentPath_cases (path : Name) :
    (parentPath path = [] ∧ path.head? = some '/' ∧ dirPath path = ['/']) ∨
      (¬ (parentPath path = [] ∧ path.head? = some '/') ∧
        ∀ s fuel t, locate s fuel t (dirPath path) = locate s fuel t (parentPath path)) := by
  unfold dirPath
  by_cases hparent : parentPath path = []
  · rw [if_neg (not_not.mpr hparent)]
    by_cases hslash : path.head? = some '/'
    · exact Or.inl ⟨hparent, hslash, if_pos hslash⟩
    · rw [if_neg hslash, hparent]
      exact Or.inr ⟨fun h => hslash h.2, fun _ _ _ => rfl⟩
  · rw [if_pos hparent]
    exact Or.inr ⟨fun h => hparent h.1, fun _ _ _ => rfl⟩

/-- The file was made in the working directory, and is looked for in the root. -/
def Elsewhere (s : Vfs) (t : Nat) (path : Name) : Prop :=
  parentPath path = [] ∧ path.head? = some '/' ∧
    s.nodes (s.tasks t).root ≠ s.nodes (s.tasks t).cwd

/-- The walks up to the last name, of which the first one gets there: they end in the directory
the file was made in, unless the file is looked for elsewhere. -/
theorem walks_to_parent {s s' : Vfs} {dir new : FileNode} {fuel t : Nat} {path name : Name} {e : Int}
    (hc : Created s s' dir new name FS_FILE) (hentries : EntriesNamed s)
    (hstart : ∀ path, startNode s' t path = startNode s t path) (hdir : IsDir s dir)
    {p₀ : Place} (hp₀ : locate s fuel t (parentPath path) = .ok p₀) (hdir₀ : p₀.temp = dir)
    (hfailed : ((locate s fuel t (dirPath path)).bind fun p => goName s fuel p name) =
      .error (.failed e)) :
    ∃ p p', locate s fuel t (dirPath path) = .ok p ∧ locate s' fuel t (dirPath path) = .ok p' ∧
      SamePlace p p' ∧ (p.temp ≠ dir ↔ Elsewhere s t path) := by
  rcases parentPath_cases path with ⟨hnil, hslash, hroot⟩ | ⟨hnot, hsame⟩
  · rw [hroot, locate_root] at hfailed ⊢
    rw [hnil, locate_here] at hp₀
    rcases hp : startAt s (s.nodes (s.tasks t).root) with (stuck | err) | p
    · rw [hp] at hfailed
      cases hfailed
    · exact absurd hp (startAt_not_failed _ _ _)
    obtain ⟨htemp, -, p', hp', hplace⟩ := startAt_created hc hp
    have hcwd : p₀.temp = s.nodes (s.tasks t).cwd := (startAt_created hc hp₀).1
    have hroot' : s'.nodes (s'.tasks t).root = s.nodes (s.tasks t).root := hstart ['/']
    refine ⟨p, p', rfl, ?_, hplace, ?_⟩
    · rw [locate_root, hroot', hp']
    · rw [htemp, ← hdir₀, hcwd]
      exact ⟨fun hne => ⟨hnil, hslash, hne⟩, fun hels => hels.2.2⟩
  · rw [← hsame] at hp₀
    obtain ⟨p₀', hp₀', hplace⟩ := locate_created hc hentries (hstart _) hp₀ (hdir₀ ▸ hdir)
    exact ⟨p₀, p₀', hp₀, hp₀', hplace,
      iff_of_false (not_not.mpr hdir₀) fun hels => hnot ⟨hels.1, hels.2.1⟩⟩

/-- **When the second lookup fails.**  The first one ended with the error `e`. -/
theorem second_lookup {s s' : Vfs} {dir new : FileNode} {fuel t : Nat} {path : Name}
    (hc : Created s s' dir new (lastName path) FS_FILE) (hentries : EntriesNamed s)
    (hstart : ∀ path, startNode s' t path = startNode s t path) {buf buf' n n' : FileNode}
    {e e' : Int} (he : e < 0) (h : fsFindPath s fuel t path buf = .ok (e, n))
    (hparent : fsFindPath s fuel t (parentPath path) buf = .ok (0, dir))
    (h' : fsFindPath s' fuel t path buf' = .ok (e', n')) :
    e' < 0 ↔ e ≠ -ENOENT ∨ Elsewhere s t path := by
  obtain ⟨f, dirs, _, _, hf, htype, hdata, -⟩ := hc.files
  obtain ⟨hpath, hnames, hfailed⟩ := locate_of_failed h he
  obtain ⟨p₀, hp₀, hdir₀⟩ := locate_of_found hparent hf
  rw [locate_last s fuel t hpath hnames] at hfailed
  obtain ⟨p, p', hp, hp', hplace, hels⟩ :=
    walks_to_parent hc hentries hstart ⟨f, hf, htype⟩ hp₀ hdir₀ hfailed
  have hlast : goName s fuel p (lastName path) = .error (.failed e) := by
    rw [hp] at hfailed
    exact hfailed
  have hlast' : locate s' fuel t path = goName s' fuel p' (lastName path) := by
    rw [locate_last s' fuel t hpath hnames, hp']
    rfl
  rw [fsFindPath_eq s' fuel t buf' hnames, hlast'] at h'
  rw [← hels]
  by_cases hother : e ≠ -ENOENT ∨ p.temp ≠ dir
  · rw [goName_again hc hplace hlast hother] at h'
    obtain ⟨rfl, -⟩ := Prod.mk.inj (Except.ok.inj h')
    exact iff_of_true he hother
  · obtain ⟨henoent, htemp⟩ := not_or.mp hother
    obtain ⟨q', hq'⟩ := goName_new hc hplace (not_not.mp htemp) (not_not.mp henoent ▸ hlast)
    rw [hq'] at h'
    obtain ⟨rfl, -⟩ := Prod.mk.inj (Except.ok.inj h')
    exact iff_of_false (Int.lt_irrefl 0) hother

/-! ### The steps of `open` -/

/-- The path leads to `node`. -/
def Resolves (s : Vfs) (fuel t : Nat) (path : Name) (node : FileNode) : Prop :=
  fsFindPath s fuel t path ⟨0, 0⟩ = .ok (0, node)

/-- The path leads nowhere, with the error `e`. -/
def Fails (s : Vfs) (fuel t : Nat) (path : Name) (e : Int) : Prop :=
  e < 0 ∧ ∃ node, fsFindPath s fuel t path ⟨0, 0⟩ = .ok (e, node)

theorem Fails.not_resolves {s : Vfs} {fuel t : Nat} {path : Name} {e : Int}
    (h : Fails s fuel t path e) (node : FileNode) : ¬ Resolves s fuel t path node := by
  intro hres
  obtain ⟨he, node', hnode'⟩ := h
  obtain ⟨rfl, -⟩ := Prod.mk.inj (Except.ok.inj (hres.symm.trans hnode'))
  exact absurd he (Int.lt_irrefl 0)

theorem Fails.unique {s : Vfs} {fuel t : Nat} {path : Name} {e e' : Int}
    (h : Fails s fuel t path e) (h' : Fails s fuel t path e') : e' = e := by
  obtain ⟨-, node, hnode⟩ := h
  obtain ⟨-, node', hnode'⟩ := h'
  exact (Prod.mk.inj (Except.ok.inj (hnode'.symm.trans hnode))).1

theorem Resolves.unique {s : Vfs} {fuel t : Nat} {path : Name} {node node' : FileNode}
    (h : Resolves s fuel t path node) (h' : Resolves s fuel t path node') : node' = node :=
  (Prod.mk.inj (Except.ok.inj (h'.symm.trans h))).2

/-- Every lookup that comes back resolves the path, or fails. -/
theorem resolves_or_fails {s : Vfs} {fuel t : Nat} {path : Name} {buf node : FileNode} {e : Int}
    (h : fsFindPath s fuel t path buf = .ok (e, node)) :
    (e = 0 ∧ Resolves s fuel t path node) ∨ Fails s fuel t path e := by
  by_cases he : e < 0
  · obtain ⟨-, hnames, hfailed⟩ := locate_of_failed h he
    refine Or.inr ⟨he, ⟨0, 0⟩, ?_⟩
    rw [fsFindPath_eq s fuel t _ hnames, hfailed]
    rfl
  · obtain ⟨rfl, ⟨hnames, rfl⟩ | ⟨p, hp, rfl⟩⟩ := fsFindPath_found h (Int.not_lt.mp he)
    · exact Or.inl ⟨rfl, fsFindPath_root s fuel t _ hnames⟩
    · refine Or.inl ⟨rfl, ?_⟩
      unfold Resolves
      by_cases hnames : pathNames path = []
      · rw [fsFindPath_root s fuel t buf hnames] at h
        rw [fsFindPath_root s fuel t _ hnames]
        exact h
      · rw [fsFindPath_eq s fuel t _ hnames, hp]
        rfl

/-- What a lookup finds does not depend on the node it is given. -/
theorem Resolves.found {s : Vfs} {fuel t : Nat} {path : Name} {node : FileNode}
    (h : Resolves s fuel t path node) (buf : FileNode) :
    fsFindPath s fuel t path buf = .ok (0, node) := by
  by_cases hnames : pathNames path = []
  · exact (fsFindPath_root s fuel t buf hnames).trans
      ((fsFindPath_root s fuel t _ hnames).symm.trans h)
  · obtain ⟨-, ⟨hnil, -⟩ | ⟨p, hp, rfl⟩⟩ := fsFindPath_found h (Int.le_refl 0)
    · exact absurd hnil hnames
    · rw [fsFindPath_eq s fuel t buf hnames, hp]
      rfl

theorem Fails.failed {s : Vfs} {fuel t : Nat} {path : Name} {e : Int}
    (h : Fails s fuel t path e) (buf : FileNode) :
    fsFindPath s fuel t path buf = .ok (e, buf) := by
  obtain ⟨he, node, hfind⟩ := h
  obtain ⟨-, hnames, hfailed⟩ := locate_of_failed hfind he
  rw [fsFindPath_eq s fuel t buf hnames, hfailed]
  rfl

/-- What is in a block that no lookup of the task starts from does not matter to it. -/
theorem setNode_view {s : Vfs} {t a : Nat} (hroot : (s.tasks t).root ≠ a)
    (hcwd : (s.tasks t).cwd ≠ a) (node : FileNode) : SameView s (s.setNode a node) t :=
  ⟨rfl, rfl, rfl, Function.update_of_ne hroot _ _, Function.update_of_ne hcwd _ _⟩

theorem knew_view {s : Vfs} {t a : Nat} (hroot : (s.tasks t).root ≠ a)
    (hcwd : (s.tasks t).cwd ≠ a) : SameView s (s.knew a) t :=
  ⟨rfl, rfl, rfl, Function.update_of_ne hroot _ _, Function.update_of_ne hcwd _ _⟩

/-- What the first lookups leave at `a`: the file, or the directory to make it in. -/
theorem openFind_spec {s s₁ : Vfs} {fuel t a : Nat} {path : Name} {flags : UInt32} {err : Int}
    {found : Bool} (hroot : (s.tasks t).root ≠ a) (hcwd : (s.tasks t).cwd ≠ a)
    (h : s.openFind fuel t path flags a = some (err, found, s₁)) :
    (err < 0 ∧ s₁.ramfs = s.ramfs ∧ (∃ e, Fails s fuel t path e) ∧
      (flags &&& O_CREAT ≠ 0 → ∃ e, Fails s fuel t (parentPath path) e)) ∨
    (err = 0 ∧ ∃ node, s₁ = s.setNode a node ∧
      ((found = true ∧ Resolves s fuel t path node) ∨ (found = false ∧
        (∃ e, Fails s fuel t path e) ∧ Resolves s fuel t (parentPath path) node))) := by
  unfold Vfs.openFind at h
  obtain ⟨⟨e, s₂⟩, hfind, h⟩ := Option.bind_eq_some_iff.mp h
  obtain ⟨node, hpath, rfl⟩ := findPath_spec hfind
  dsimp only at h
  rcases resolves_or_fails hpath with ⟨rfl, hres⟩ | hfails
  · rw [if_neg (by decide)] at h
    obtain ⟨rfl, hrest⟩ := Prod.mk.inj (Option.some.inj h)
    obtain ⟨rfl, rfl⟩ := Prod.mk.inj hrest
    exact Or.inr ⟨rfl, node, rfl, Or.inl ⟨rfl, hres⟩⟩
  rw [if_pos hfails.1] at h
  split at h
  · rename_i hcreat
    obtain ⟨⟨e', s₃⟩, hparent, h⟩ := Option.map_eq_some_iff.mp h
    obtain ⟨rfl, hrest⟩ := Prod.mk.inj h
    obtain ⟨rfl, rfl⟩ := Prod.mk.inj hrest
    obtain ⟨node', hpath', rfl⟩ := findPath_spec hparent
    rw [fsFindPath_congr (setNode_view hroot hcwd node)] at hpath'
    rcases resolves_or_fails hpath' with ⟨rfl, hres⟩ | hfails'
    · exact Or.inr ⟨rfl, node', setNode_setNode s a node node', Or.inr ⟨rfl, ⟨e, hfails⟩, hres⟩⟩
    · exact Or.inl ⟨hfails'.1, rfl, ⟨e, hfails⟩, fun _ => ⟨_, hfails'⟩⟩
  · rename_i hcreat
    obtain ⟨rfl, hrest⟩ := Prod.mk.inj (Option.some.inj h)
    obtain ⟨-, rfl⟩ := Prod.mk.inj hrest
    exact Or.inl ⟨by decide, rfl, ⟨e, hfails⟩, fun h => absurd h hcreat⟩

theorem ramfsAdd_dir {head head' : RamfsHeader} {node : FileNode} {name : Name} {mode : UInt32}
    {type : Nat} {ret : Int} {f : FileHeader} (hf : head.getFileH node.inode = some f)
    (htype : f.type = FS_DIR) (h : ramfsAdd head node name mode type = some (ret, head')) :
    ret = 0 ∧ Added head head' node.inode name mode type := by
  rcases ramfsAdd_cases h with ⟨rfl, -⟩ | hadded
  · unfold ramfsAdd at h
    rw [hf, Option.bind_some, if_neg (not_not.mpr htype)] at h
    obtain ⟨r, -, h⟩ := Option.map_eq_some_iff.mp h
    exact absurd (Prod.mk.inj h).1 (by decide)
  · exact hadded

/-- `ramfs_open` makes a file in every directory it opens with `O_CREAT`. -/
theorem ramfsOpen_spec {head head' : RamfsHeader} {node : FileNode} {name : Name}
    {flags : UInt32} {ret : Int} (h : ramfsOpen head node name flags = some (ret, head')) :
    0 ≤ ret ∧ ∃ f, head.getFileH node.inode = some f ∧
      ((f.type = FS_DIR ∧ flags &&& O_CREAT ≠ 0 ∧
          Added head head' node.inode name 0o777 FS_FILE) ∨
        (¬ (f.type = FS_DIR ∧ flags &&& O_CREAT ≠ 0) ∧ head' = head)) := by
  unfold ramfsOpen at h
  obtain ⟨f, hf, h⟩ := Option.bind_eq_some_iff.mp h
  split at h
  · rename_i hdir
    obtain ⟨rfl, hadded⟩ := ramfsAdd_dir hf hdir.1 h
    exact ⟨Int.le_refl 0, f, hf, Or.inl ⟨hdir.1, hdir.2, hadded⟩⟩
  · rename_i hdir
    obtain ⟨rfl, rfl⟩ := Prod.mk.inj (Option.some.inj h)
    exact ⟨Int.natCast_nonneg _, f, hf, Or.inr ⟨hdir, rfl⟩⟩

/-- The directory `dir` gets an entry `name`, for a new file. -/
def Adds (s s' : Vfs) (dir : FileNode) (name : Name) (type : Nat) : Prop :=
  ∃ head head' mode, s.ramfs dir.fs = some head ∧ Added head head' dir.inode name mode type ∧
    s'.ramfs = (s.setRamfs dir.fs head').ramfs

theorem Adds.ne {s s' : Vfs} {dir : FileNode} {name : Name} {type : Nat}
    (h : Adds s s' dir name type) : s'.ramfs ≠ s.ramfs := by
  obtain ⟨head, head', mode, hhead, hadded, hramfs⟩ := h
  intro hsame
  have heq := congrFun (hramfs.symm.trans hsame) dir.fs
  have hhead' : (s.setRamfs dir.fs head').ramfs dir.fs = some head' := Function.update_self ..
  rw [hhead', hhead] at heq
  have hcount := hadded.iCount
  rw [Option.some.inj heq] at hcount
  omega

/-- `open` makes a file if it comes to this directory. -/
def MakesIn (s : Vfs) (t : Nat) (flags : UInt32) (dir : FileNode) : Prop :=
  flags &&& O_CREAT ≠ 0 ∧ IsDir s dir ∧ checkPerms s (s.tasks t) dir flags = some true

/-- The lookups come to one node at most. -/
theorem not_comes_to {s : Vfs} {fuel t : Nat} {path : Name} {node dir : FileNode}
    (h : Resolves s fuel t path node ∨
      ((∃ e, Fails s fuel t path e) ∧ Resolves s fuel t (parentPath path) node))
    (hne : dir ≠ node) : ¬ Resolves s fuel t path dir ∧
      ¬ ((∃ e, Fails s fuel t path e) ∧ Resolves s fuel t (parentPath path) dir) := by
  rcases h with hres | ⟨⟨e, hfails⟩, hres⟩
  · refine ⟨fun hdir => hne (hres.unique hdir), ?_⟩
    rintro ⟨⟨e, hfails⟩, -⟩
    exact hfails.not_resolves node hres
  · exact ⟨hfails.not_resolves dir, fun hdir => hne (hres.unique hdir.2)⟩

theorem not_makes {s : Vfs} {fuel t : Nat} {path : Name} {flags : UInt32} {node : FileNode}
    (h : Resolves s fuel t path node ∨
      ((∃ e, Fails s fuel t path e) ∧ Resolves s fuel t (parentPath path) node))
    (hnot : ¬ MakesIn s t flags node) (dir : FileNode) (hmakes : MakesIn s t flags dir) :
    ¬ Resolves s fuel t path dir ∧
      ¬ ((∃ e, Fails s fuel t path e) ∧ Resolves s fuel t (parentPath path) dir) :=
  not_comes_to h fun heq => hnot (heq ▸ hmakes)

theorem openFind_found {s s₁ : Vfs} {fuel t a : Nat} {path : Name} {flags : UInt32} {err : Int}
    {found : Bool} (hroot : (s.tasks t).root ≠ a) (hcwd : (s.tasks t).cwd ≠ a)
    (h : s.openFind fuel t path flags a = some (err, found, s₁)) (herr : 0 ≤ err) :
    ∃ node, s₁ = s.setNode a node ∧ (s.setNode a node).nodes a = node ∧
      ((found = true ∧ Resolves s fuel t path node) ∨ (found = false ∧
        (∃ e, Fails s fuel t path e) ∧ Resolves s fuel t (parentPath path) node)) := by
  rcases openFind_spec hroot hcwd h with ⟨hneg, -⟩ | ⟨-, node, heq, hnode⟩
  · exact absurd hneg (Int.not_lt.mpr herr)
  · exact ⟨node, heq, Function.update_self .., hnode⟩

/-- What the file system does with a node that the task may open. -/
theorem openNode_cases {s s₁ : Vfs} {t a : Nat} {node : FileNode} {path : Name} {flags : UInt32}
    {ret : Int} (hperms : checkPerms (s.setNode a node) (s.tasks t) node flags = some true)
    (h : openNode (s.setNode a node) path flags a = some (ret, s₁)) :
    0 ≤ ret ∧ ((MakesIn s t flags node ∧ ∃ head head', s.ramfs node.fs = some head ∧
        Added head head' node.inode (lastName path) 0o777 FS_FILE ∧
        s₁ = (s.setNode a node).setRamfs node.fs head') ∨
      (¬ MakesIn s t flags node ∧ s₁.ramfs = s.ramfs)) := by
  have hself : (s.setNode a node).nodes a = node := Function.update_self ..
  unfold openNode at h
  rw [hself] at h
  obtain ⟨head, head', hhead, hop, rfl⟩ := onRamfs_spec h
  obtain ⟨hret, f, hf, hcases⟩ := ramfsOpen_spec hop
  have hhead : s.ramfs node.fs = some head := hhead
  have hheader : s.header node = some f := (header_of_ramfs hhead).trans hf
  refine ⟨hret, ?_⟩
  rcases hcases with ⟨htype, hcreat, hadded⟩ | ⟨hnot, rfl⟩
  · exact Or.inl ⟨⟨hcreat, ⟨f, hheader, htype⟩, hperms⟩, head, head', hhead, hadded, rfl⟩
  · refine Or.inr ⟨fun hmakes => hnot ⟨?_, hmakes.1⟩, setRamfs_self hhead⟩
    obtain ⟨f', hf', htype⟩ := hmakes.2.1
    obtain rfl := Option.some.inj (hheader.symm.trans hf')
    exact htype

/-- **What `open` does to the files**, and how its last lookup ends. -/
theorem openFile_cases {s s₀ : Vfs} {fuel t a : Nat} {path : Name} {flags : UInt32} {err : Int}
    (hroot : (s.tasks t).root ≠ a) (hcwd : (s.tasks t).cwd ≠ a) (hentries : EntriesNamed s)
    (h : s.openFile fuel t path flags a = some (err, s₀)) :
    (s₀.ramfs = s.ramfs ∧ ∀ dir, MakesIn s t flags dir → ¬ Resolves s fuel t path dir ∧
        ¬ ((∃ e, Fails s fuel t path e) ∧ Resolves s fuel t (parentPath path) dir)) ∨
    ∃ dir, MakesIn s t flags dir ∧ Adds s s₀ dir (lastName path) FS_FILE ∧
      (Resolves s fuel t path dir ∨
        ∃ e, Fails s fuel t path e ∧ Resolves s fuel t (parentPath path) dir ∧
          (err < 0 ↔ e ≠ -ENOENT ∨ Elsewhere s t path)) := by
  cases openFile_ends h with
  | lost found herr hfind =>
      -- neither the path nor its directory is there
      rcases openFind_spec hroot hcwd hfind with ⟨-, hramfs, ⟨e, hfails⟩, hparent⟩ | ⟨rfl, -⟩
      · refine Or.inl ⟨hramfs, fun dir hmakes => ⟨hfails.not_resolves dir, fun hpar => ?_⟩⟩
        obtain ⟨e', hfails'⟩ := hparent hmakes.1
        exact hfails'.not_resolves dir hpar.2
      · exact absurd herr (Int.lt_irrefl 0)
  | refused e found he herr hfind hperms =>
      obtain ⟨node, rfl, hself, hnode⟩ := openFind_found hroot hcwd hfind he
      rw [hself] at hperms
      refine Or.inl ⟨rfl, not_makes (hnode.imp And.right And.right) fun hmakes => ?_⟩
      exact absurd (Option.some.inj (hmakes.2.2.symm.trans hperms)) (by decide)
  | opened e found s₁ he hend hfind hperms hopen =>
      obtain ⟨node, rfl, hself, hnode⟩ := openFind_found hroot hcwd hfind he
      rw [hself] at hperms
      obtain ⟨hret, ⟨hmakes, head, head', hhead, hadded, rfl⟩ | ⟨hnot, hramfs⟩⟩ :=
        openNode_cases hperms hopen
      · have hfound : found = true := hend.resolve_left (Int.not_lt.mpr hret)
        rcases hnode with ⟨-, hres⟩ | ⟨hlost, -⟩
        · exact Or.inr ⟨node, hmakes, ⟨head, head', _, hhead, hadded, rfl⟩, Or.inl hres⟩
        · exact absurd (hfound.symm.trans hlost) (by decide)
      · exact Or.inl ⟨hramfs, not_makes (hnode.imp And.right And.right) hnot⟩
  | made e ret s₁ s₂ he hret hfind hperms hopen hlast =>
      obtain ⟨node, rfl, hself, hnode⟩ := openFind_found hroot hcwd hfind he
      rw [hself] at hperms
      obtain ⟨last, hfindLast, rfl⟩ := findPath_spec hlast
      obtain ⟨-, ⟨hmakes, head, head', hhead, hadded, rfl⟩ | ⟨hnot, hramfs⟩⟩ :=
        openNode_cases hperms hopen
      · refine Or.inr ⟨node, hmakes, ⟨head, head', _, hhead, hadded, rfl⟩, ?_⟩
        rcases hnode with ⟨-, hres⟩ | ⟨-, ⟨e₁, hfails⟩, hres⟩
        · exact Or.inl hres
        refine Or.inr ⟨e₁, hfails, hres, ?_⟩
        obtain ⟨he₁, n, hn⟩ := hfails
        have hc : Created s ((s.setNode a node).setRamfs node.fs head') node
            ⟨head.iCount, node.fs⟩ (lastName path) FS_FILE :=
          Created.of_added hhead hadded rfl rfl rfl
        refine second_lookup hc hentries (fun p => ?_) he₁ hn hres hfindLast
        have hview := setNode_view hroot hcwd node
        unfold startNode
        exact congrArg₂ (fun x y => if p.head? = some '/' then x else y) hview.root hview.cwd
      · exact Or.inl ⟨hramfs, not_makes (hnode.imp And.right And.right) hnot⟩

/-! ### The whole call -/

theorem OpenedAt.not_full {s s' : Vfs} {t i a : Nat} {flags : UInt32}
    (h : OpenedAt s s' t i a flags) : ¬ (s.tasks t).Full := by
  rintro (hfull | hnone)
  · exact absurd h.room (Nat.not_lt.mpr hfull)
  · unfold Task.freeSlot at hnone
    have hused := List.find?_eq_none.mp hnone i (List.mem_range.mpr h.slot)
    simp [h.free] at hused

/--
`open` changes nothing it should not.  The trees and the lists of files are what they were,
unless the path did not resolve, `O_CREAT` was given and a descriptor is returned; and so
are all descriptors, apart from the new one.
-/
structure OpenFrame (fuel : Nat) (s s' : Vfs) (t a : Nat) (path : Name) (flags : UInt32)
    (ret : Int) : Prop where
  trees : s'.ramfs ≠ s.ramfs →
    (∀ node, ¬ Resolves s fuel t path node) ∧ flags &&& O_CREAT ≠ 0 ∧ 0 ≤ ret
  failed : ret < 0 → s'.tasks = s.tasks
  opened : 0 ≤ ret → ∃ i : Nat, ret = i ∧ (s.tasks t).files i = none ∧
    s'.tasks = Function.update s.tasks t ((s.tasks t).addFile i a)

/--
What goes wrong.  `open` makes a file in a directory that it was asked to open; or it makes
one and then looks for it elsewhere, or looks again for what cannot be found, or has no
place for the descriptor.
-/
def Spoils (fuel : Nat) (s : Vfs) (t : Nat) (path : Name) (flags : UInt32) : Prop :=
  ∃ dir, MakesIn s t flags dir ∧ (Resolves s fuel t path dir ∨
    ∃ e, Fails s fuel t path e ∧ Resolves s fuel t (parentPath path) dir ∧
      (e ≠ -ENOENT ∨ Elsewhere s t path ∨ (s.tasks t).Full))

/-- What `open` does to the descriptors is always right. -/
theorem open_descriptors {fuel : Nat} {s s' : Vfs} {t a : Nat} {path : Name} {flags : UInt32}
    {ret : Int} (h : s.openCall fuel t path flags a = some (ret, s')) :
    (ret < 0 → s'.tasks = s.tasks) ∧ (0 ≤ ret → ∃ i : Nat, ret = i ∧
      (s.tasks t).files i = none ∧
      s'.tasks = Function.update s.tasks t ((s.tasks t).addFile i a)) := by
  obtain ⟨err, s₀, -, -, -, hcases⟩ := open_cases h
  rw [← (noteOpen_same s' t ret a flags).2]
  rcases hcases with ⟨-, hret, hsame⟩ | ⟨-, i, rfl, hopened⟩
  · exact ⟨fun _ => hsame.tasks, fun hpos => absurd hret (Int.not_lt.mpr hpos)⟩
  · refine ⟨fun hneg => absurd hneg (Int.not_lt.mpr (Int.natCast_nonneg i)), fun _ => ?_⟩
    refine ⟨i, rfl, hopened.free, funext fun t' => ?_⟩
    rw [Function.update_apply]
    split
    · rename_i ht
      rw [ht, hopened.task]
    · rename_i ht
      exact hopened.others t' ht

/-- What `open` does to the files, and what it returns. -/
theorem open_files {fuel : Nat} {s s' : Vfs} {t a : Nat} {path : Name} {flags : UInt32}
    {ret : Int} (hs : Sound s) (h : s.openCall fuel t path flags a = some (ret, s')) :
    (s'.ramfs = s.ramfs ∧ ∀ dir, MakesIn s t flags dir → ¬ Resolves s fuel t path dir ∧
        ¬ ((∃ e, Fails s fuel t path e) ∧ Resolves s fuel t (parentPath path) dir)) ∨
    ∃ dir, MakesIn s t flags dir ∧ Adds s s' dir (lastName path) FS_FILE ∧
      (Resolves s fuel t path dir ∨
        ∃ e, Fails s fuel t path e ∧ Resolves s fuel t (parentPath path) dir ∧
          (ret < 0 ↔ e ≠ -ENOENT ∨ Elsewhere s t path ∨ (s.tasks t).Full)) := by
  obtain ⟨err, s₀, hfile, hlive, htrees, hcases⟩ := open_cases h
  have hramfs : s'.ramfs = s₀.ramfs :=
    (noteOpen_same s' t ret a flags).1.ramfs.symm.trans htrees.ramfs
  have hret : ret < 0 ↔ err < 0 ∨ (s.tasks t).Full := by
    rcases hcases with ⟨herr, hret, -⟩ | ⟨herr, i, rfl, hopened⟩
    · exact iff_of_true hret herr
    · refine iff_of_false (Int.not_lt.mpr (Int.natCast_nonneg i)) ?_
      rintro (hneg | hfull)
      · exact absurd hneg (Int.not_lt.mpr herr)
      · exact hopened.not_full hfull
  -- the block at `a` is no matter to the lookups
  have hroot : (s.tasks t).root ≠ a := fun heq => hlive (heq ▸ hs.root t)
  have hcwd : (s.tasks t).cwd ≠ a := fun heq => hlive (heq ▸ hs.cwd t)
  have hview := knew_view hroot hcwd
  have hpath := fsFindPath_congr hview fuel
  have hresolves : ∀ path, Resolves (s.knew a) fuel t path = Resolves s fuel t path := fun path => by
    unfold Resolves
    rw [hpath]
  have hfails : ∀ path, Fails (s.knew a) fuel t path = Fails s fuel t path := fun path => by
    unfold Fails
    rw [hpath]
  have helsewhere : Elsewhere (s.knew a) t path = Elsewhere s t path := by
    unfold Elsewhere
    exact congrArg₂ (fun x y => parentPath path = [] ∧ path.head? = some '/' ∧ x ≠ y)
      hview.root hview.cwd
  have hfiles := openFile_cases (s := s.knew a) hroot hcwd (hs.entries.congr rfl) hfile
  rw [hresolves, hresolves, hfails, helsewhere] at hfiles
  rcases hfiles with hsame | ⟨dir, hmakes, ⟨head, head', mode, hhead, hadded, hs'⟩, hcases⟩
  · exact Or.inl ⟨hramfs.trans hsame.1, hsame.2⟩
  · refine Or.inr ⟨dir, hmakes, ⟨head, head', mode, hhead, hadded, hramfs.trans hs'⟩,
      hcases.imp_right ?_⟩
    rintro ⟨e, he, hres, herr⟩
    refine ⟨e, he, hres, ?_⟩
    rw [hret, herr, or_assoc]

/--
**`open` changes what it should not in just these cases.**  In every state that a run of
calls by any tasks gets to, for every path, flags and task.
-/
theorem open_frame_iff {systems : List Nat} {fs root fuel₀ fuel t a : Nat} {calls : List Call}
    {s s' : Vfs} {path : Name} {flags : UInt32} {ret : Int}
    (hrun : runAll (vfsStep fuel₀) (Vfs.boot systems fs root) calls = some s)
    (hopen : s.openCall fuel t path flags a = some (ret, s')) :
    OpenFrame fuel s s' t a path flags ret ↔ ¬ Spoils fuel s t path flags := by
  have hs : Sound s := (sound_boot systems fs root).run hrun
  obtain ⟨hfailed, hopened⟩ := open_descriptors hopen
  rcases open_files hs hopen with ⟨hsame, hnot⟩ | ⟨dir, hmakes, hadds, hcases⟩
  · refine iff_of_true ⟨fun hne => absurd hsame hne, hfailed, hopened⟩ ?_
    rintro ⟨dir, hmakes, hres | ⟨e, he, hres, -⟩⟩
    · exact (hnot dir hmakes).1 hres
    · exact (hnot dir hmakes).2 ⟨⟨e, he⟩, hres⟩
  rcases hcases with hres | ⟨e, he, hres, hret⟩
  · refine iff_of_false (fun h => ?_) (not_not.mpr ⟨dir, hmakes, Or.inl hres⟩)
    exact (h.trees hadds.ne).1 dir hres
  · refine ⟨fun h hspoils => ?_, fun hnot => ⟨fun _ => ⟨he.not_resolves, hmakes.1, ?_⟩,
      hfailed, hopened⟩⟩
    · have hpos : ¬ ret < 0 := Int.not_lt.mpr (h.trees hadds.ne).2.2
      obtain ⟨dir', -, hres' | ⟨e', he', -, hwhy⟩⟩ := hspoils
      · exact he.not_resolves dir' hres'
      · rw [he.unique he'] at hwhy
        exact hpos (hret.mpr hwhy)
    · exact Int.not_lt.mp fun hneg =>
        hnot ⟨dir, hmakes, Or.inr ⟨e, he, hres, hret.mp hneg⟩⟩

/-- `/f` is made and opened, and nothing else happens. -/
theorem open_frame_iff_boot :
    ∃ ret s', (Vfs.boot [0x1000] 0x1000 0x2000).openCall 4 0 ['/', 'f'] 68 0x3000 =
        some (ret, s') ∧
      (OpenFrame 4 (Vfs.boot [0x1000] 0x1000 0x2000) s' 0 0x3000 ['/', 'f'] 68 ret ↔
        ¬ Spoils 4 (Vfs.boot [0x1000] 0x1000 0x2000) 0 ['/', 'f'] 68) := by
  have hsome : ((Vfs.boot [0x1000] 0x1000 0x2000).openCall 4 0 ['/', 'f'] 68 0x3000).isSome := by
    decide
  obtain ⟨⟨ret, s'⟩, hopen⟩ := Option.isSome_iff_exists.mp hsome
  have hrun : runAll (vfsStep 4) (Vfs.boot [0x1000] 0x1000 0x2000) [] =
      some (Vfs.boot [0x1000] 0x1000 0x2000) := rfl
  exact ⟨ret, s', hopen, open_frame_iff hrun hopen⟩

/-- **To open `.` with `O_CREAT` makes a file that is called `.`.** -/
theorem dot_created :
    ∃ ret s', (Vfs.boot [0x1000] 0x1000 0x2000).openCall 4 0 ['.'] 65 0x3000 = some (ret, s') ∧
      ¬ OpenFrame 4 (Vfs.boot [0x1000] 0x1000 0x2000) s' 0 0x3000 ['.'] 65 ret := by
  have hmade : ((Vfs.boot [0x1000] 0x1000 0x2000).openCall 4 0 ['.'] 65 0x3000).map
      (fun r => (r.2.header ⟨2, 0x1000⟩).isSome) = some true := by
    decide
  obtain ⟨⟨ret, s'⟩, hopen, hheader⟩ := Option.map_eq_some_iff.mp hmade
  refine ⟨ret, s', hopen, fun h => ?_⟩
  have hne : s'.ramfs ≠ (Vfs.boot [0x1000] 0x1000 0x2000).ramfs := fun hsame => by
    rw [header_congr hsame] at hheader
    revert hheader
    decide
  exact (h.trees hne).1 ⟨1, 0x1000⟩ rfl

end OsThing.Fs
