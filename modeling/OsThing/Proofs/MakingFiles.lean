/-
What `mkdir` and `open` make, where nothing is mounted.

Both find the directory, enter the name, and make the file.  For `mkdir` this is all: the path
leads to the new directory, and so does every other path that comes to the same name in the same
directory, with only dots behind it.  Paths that do not take this name lead where they did.

`open` looks the path up again to get at what it made.  It finds the file unless the name is
`..`, which is never looked up in a directory; or the only slash of the path is at its start, so
that the file was made in the working directory and is looked for in the root.
-/
import OsThing.Proofs.MountFree

namespace OsThing.Fs

open NameWalk

/-! ### What is made -/

/-- There is a directory to make the last name of the path in. -/
structure Vacant (s : Vfs) (fuel t : Nat) (path : Name) (dir : FileNode) : Prop where
  named : lastName path ≠ [] ∧ lastName path ≠ ['.'] ∧ lastName path ≠ ['.', '.']
  parent : Resolves s fuel t (dirPath path) dir
  isDir : IsDir s dir
  free : EntryFree s dir (lastName path)

/-- On its way the path `q` takes the name in the directory, and `back` is what is left then. -/
def TakesName (s : Vfs) (t : Nat) (q : Name) (dir : FileNode) (name : Name) (back : List Name) :
    Prop :=
  Takes (nextNode s) dir name (startNode s t q) (pathNames q) back

/-- `new` is an empty directory that was not there, and the path leads to it. -/
structure NewDir (s s' : Vfs) (fuel t : Nat) (path : Name) (new : FileNode) : Prop where
  fresh : s.header new = none
  empty : ∃ f, s'.header new = some f ∧ f.type = FS_DIR ∧ f.data = .entries []
  leads : Resolves s' fuel t path new

/-- What other paths see of it. -/
structure SeenBy (s s' : Vfs) (fuel : Nat) (dir : FileNode) (name : Name) (new : FileNode) :
    Prop where
  others : ∀ t q buf, (∀ back, ¬ TakesName s t q dir name back) →
    fsFindPath s' fuel t q buf = fsFindPath s fuel t q buf
  before : ∀ t q back, TakesName s t q dir name back → Fails s fuel t q (-ENOENT)
  there : ∀ t q back, TakesName s t q dir name back → (∀ n ∈ back, n = ['.']) →
    Resolves s' fuel t q new
  behind : ∀ t q back, TakesName s t q dir name back → (∃ n ∈ back, n ≠ ['.']) →
    ∃ e, Fails s' fuel t q e

section Made

variable {s s' : Vfs} {turns fuel t : Nat} {path : Name} {dir new : FileNode} {type : Nat}

theorem ramfsAdd_some {head : RamfsHeader} {node : FileNode} {f : FileHeader}
    {dirs : List RamfsDirent} (hf : head.getFileH node.inode = some f) (htype : f.type = FS_DIR)
    (hdata : f.data = .entries dirs) (name : Name) (mode : UInt32) (type : Nat) :
    ∃ head', ramfsAdd head node name mode type = some (0, head') := by
  unfold ramfsAdd ramfsMkdirEntry
  rw [hf, Option.bind_some, if_neg (not_not.mpr htype), Option.bind_some,
    if_neg (not_not.mpr htype), hdata]
  exact ⟨_, rfl⟩

/-- A directory can always be added to. -/
theorem MountFree.adds (h : MountFree s) (hdir : IsDir s dir) (name : Name) (mode : UInt32)
    (type : Nat) : ∃ head head', s.ramfs dir.fs = some head ∧
      ramfsAdd head dir name mode type = some (0, head') ∧
      Added head head' dir.inode name mode type := by
  obtain ⟨f, hf, htype⟩ := hdir
  obtain ⟨dirs, hdata⟩ := h.dirs dir f hf htype
  obtain ⟨head, hhead, hfile⟩ := Option.bind_eq_some_iff.mp hf
  obtain ⟨head', hadd⟩ := ramfsAdd_some hfile htype hdata name mode type
  exact ⟨head, head', hhead, hadd, (ramfsAdd_dir hfile htype hadd).2⟩

/-- A path with a last name is no path of slashes only. -/
theorem pathNames_ne_nil (h : lastName path ≠ []) : path ≠ [] ∧ pathNames path ≠ [] := by
  have hne : path ≠ [] := by
    rintro rfl
    exact h rfl
  refine ⟨hne, fun hnil => h (List.eq_nil_iff_forall_not_mem.mpr fun c hc => ?_)⟩
  have hmem : c ∈ path :=
    List.mem_reverse.mp (List.takeWhile_subset _ (List.mem_reverse.mp hc))
  have hslash : c ≠ '/' := fun heq => lastName_no_slash path (heq ▸ hc)
  unfold pathNames at hnil
  rw [if_neg hne] at hnil
  split at hnil
  · split at hnil
    · rename_i hslashes
      exact hslash (of_decide_eq_true (List.dropWhile_eq_nil_iff.mp hslashes c hmem))
    · exact components_ne_nil _ hnil
  · exact components_ne_nil _ hnil

/-- The path takes its last name in its directory. -/
theorem takes_last (h : MountFree s) (hturns : HasTurns s fuel) (hne : path ≠ [])
    (hnames : pathNames path ≠ []) (hparent : Resolves s fuel t (dirPath path) dir) :
    TakesName s t path dir (lastName path) [] := by
  rw [h.resolves_iff hturns] at hparent
  have hstart := (@resolve_last s t path (startNode s t path) hne hnames).1
  rcases (pathNames_dirPath hne hnames).2 with hsplit | ⟨hdot, hsplit⟩
  · exact ⟨pathNames (dirPath path), hsplit, hstart ▸ hparent⟩
  · rw [hdot] at hparent
    exact ⟨[], hsplit, hstart ▸ hparent⟩

/-- The walk to the path ends as its last name does in its directory. -/
theorem resolve_parent (h : MountFree s) (hturns : HasTurns s fuel) (hne : path ≠ [])
    (hnames : pathNames path ≠ []) (hparent : Resolves s fuel t (dirPath path) dir) :
    resolve s (startNode s t path) (pathNames path) = nextNode s dir (lastName path) := by
  obtain ⟨hstart, hlast⟩ := @resolve_last s t path (startNode s t path) hne hnames
  rw [h.resolves_iff hturns, ← hstart] at hparent
  rw [hlast, hparent]
  rfl

theorem Created.seenBy (hc : Created s s' dir new (lastName path) type) (h : MountFree s)
    (hturns : HasTurns s turns) (hfuel : turns < fuel) (hfree : EntryFree s dir (lastName path))
    (hdot : lastName path ≠ ['.']) (hup : lastName path ≠ ['.', '.'])
    (hstart : ∀ t q, startNode s' t q = startNode s t q) :
    SeenBy s s' fuel dir (lastName path) new := by
  have hgraph := hc.graph h hfree hdot hup
  have h' := hc.mountFree h hstart
  have hturns' := hc.hasTurns hturns hfuel
  have hturns := hturns.mono hfuel.le
  have hnew : ∀ t q, startNode s t q ≠ new := fun t q heq => by
    have hsome := h.starts t q
    rw [heq, hc.old] at hsome
    cases hsome
  refine ⟨fun t q buf hnot => ?_, fun t q back htakes => ?_, fun t q back htakes hdots => ?_,
    fun t q back htakes hmore => ?_⟩
  · rw [h'.findPath hturns', h.findPath hturns, hstart]
    rcases hgraph.follow (hnew t q) with hsame | ⟨back, htakes⟩
    · exact congrArg (answered buf) hsame
    · exact absurd htakes (hnot back)
  · exact (h.fails_iff hturns).mpr (hgraph.before_takes htakes)
  · rw [h'.resolves_iff hturns', hstart]
    exact (hgraph.follow_takes (hnew t q) htakes).trans (resolve_dots hdots)
  · obtain ⟨e, he⟩ := hc.resolve_behind hmore
    refine ⟨e, (h'.fails_iff hturns').mpr ?_⟩
    rw [hstart]
    exact (hgraph.follow_takes (hnew t q) htakes).trans he

/-- Where the directory does not have the name, the path leads nowhere. -/
theorem Vacant.fails (hvacant : Vacant s fuel t path dir) (h : MountFree s)
    (hturns : HasTurns s fuel) : Fails s fuel t path (-ENOENT) := by
  obtain ⟨hname, hdot, hup⟩ := hvacant.named
  obtain ⟨hne, hnames⟩ := pathNames_ne_nil hname
  obtain ⟨f, hf, htype⟩ := hvacant.isDir
  rw [h.fails_iff hturns, resolve_parent h hturns hne hnames hvacant.parent,
    nextNode_dir hf htype hdot hup, lookup_eq_none.mpr (hvacant.free f hf)]

/-- What `mkdir` comes to then. -/
theorem Vacant.mkdir_eq (hvacant : Vacant s fuel t path dir) (h : MountFree s)
    (hturns : HasTurns s fuel) (mode : UInt32) : s.mkdir fuel t path mode =
      s.onRamfs dir fun head => ramfsMkdir head dir (lastName path) mode := by
  unfold Vfs.mkdir
  rw [(hvacant.fails h hturns).failed]
  dsimp only [Except.toOption, Option.bind_some]
  rw [if_neg (by decide), hvacant.parent.found]
  rfl

end Made

/--
**`mkdir` makes the directory.**  If the last name of the path is a name, and its directory is
there and does not have it, `mkdir` returns 0, and the path leads to a new, empty directory.  Every
path that does not take this name in this directory leads where it did; one that does failed, and
now leads to the new directory if only dots come behind the name, and fails otherwise.
-/
theorem mkdir_makes {s : Vfs} {turns fuel t : Nat} {path : Name} {dir : FileNode}
    (h : MountFree s) (hturns : HasTurns s turns) (hfuel : turns < fuel)
    (hvacant : Vacant s fuel t path dir) (mode : UInt32) :
    ∃ s' new, s.mkdir fuel t path mode = some (0, s') ∧ NewDir s s' fuel t path new ∧
      SeenBy s s' fuel dir (lastName path) new := by
  obtain ⟨head, head', hhead, hadd, hadded⟩ := h.adds hvacant.isDir (lastName path) mode FS_DIR
  have hc : Created s (s.setRamfs dir.fs head') dir ⟨head.iCount, dir.fs⟩ (lastName path) FS_DIR :=
    Created.of_added hhead hadded rfl rfl rfl
  have hmkdir : s.mkdir fuel t path mode = some (0, s.setRamfs dir.fs head') :=
    (hvacant.mkdir_eq h (hturns.mono hfuel.le) mode).trans (onRamfs_some hhead hadd)
  obtain ⟨hname, hdot, hup⟩ := hvacant.named
  have hseen := hc.seenBy h hturns hfuel hvacant.free hdot hup fun _ _ => rfl
  obtain ⟨hne, hnames⟩ := pathNames_ne_nil hname
  have htakes := takes_last h (hturns.mono hfuel.le) hne hnames hvacant.parent
  exact ⟨_, _, hmkdir, ⟨hc.old, hc.header_new, hseen.there t path [] htakes (by simp)⟩, hseen⟩

/-- A new file system has no `/d`. -/
theorem vacant_boot : Vacant (Vfs.boot [0x1000] 0x1000 0x2000) 2 0 ['d'] ⟨1, 0x1000⟩ :=
  ⟨by decide, rfl, ⟨_, rfl, rfl⟩, fun f hf => by
    obtain rfl := Option.some.inj hf
    exact List.not_mem_nil⟩

theorem mkdir_makes_boot : ∃ s' new,
    (Vfs.boot [0x1000] 0x1000 0x2000).mkdir 2 0 ['d'] 0o777 = some (0, s') ∧
      NewDir (Vfs.boot [0x1000] 0x1000 0x2000) s' 2 0 ['d'] new ∧
      SeenBy (Vfs.boot [0x1000] 0x1000 0x2000) s' 2 ⟨1, 0x1000⟩ ['d'] new :=
  mkdir_makes (mountFree_boot (List.mem_singleton_self _)) (hasTurns_boot _ _ _) (by decide)
    vacant_boot 0o777

/-- `mkdir( "d" )` is seen by the path `./d` as well. -/
theorem mkdir_seen_by_dot :
    ¬ ∀ (s : Vfs) (turns fuel t : Nat) (path : Name) (dir : FileNode) (mode : UInt32), MountFree s →
      HasTurns s turns → turns < fuel → Vacant s fuel t path dir →
      ∃ s' new, s.mkdir fuel t path mode = some (0, s') ∧ NewDir s s' fuel t path new ∧
        ∀ t' q buf, q ≠ path → fsFindPath s' fuel t' q buf = fsFindPath s fuel t' q buf := by
  intro h
  obtain ⟨s', new, hmkdir, -, hothers⟩ := h _ _ 2 0 ['d'] _ 0o777
    (mountFree_boot (List.mem_singleton_self _)) (hasTurns_boot [0x1000] 0x1000 0x2000) (by decide)
    vacant_boot
  have hsame := hothers 0 ['.', '/', 'd'] ⟨0, 0⟩ (by decide)
  have hbefore : fsFindPath (Vfs.boot [0x1000] 0x1000 0x2000) 2 0 ['.', '/', 'd'] ⟨0, 0⟩ =
      .ok (-ENOENT, ⟨0, 0⟩) := rfl
  have hafter : (((Vfs.boot [0x1000] 0x1000 0x2000).mkdir 2 0 ['d'] 0o777).map fun r =>
      fsFindPath r.2 2 0 ['.', '/', 'd'] ⟨0, 0⟩) = some (.ok (0, ⟨2, 0x1000⟩)) := rfl
  rw [hmkdir, Option.map_some, hsame, hbefore] at hafter
  exact absurd (Prod.mk.inj (Except.ok.inj (Option.some.inj hafter))).1 (by decide)

/-! ### `open` -/

/-- What tasks start from is in blocks that are in use. -/
def StartsHeld (s : Vfs) : Prop := ∀ t, (s.tasks t).root ∈ s.live ∧ (s.tasks t).cwd ∈ s.live

/-- There is no file yet, a directory to make it in, and a place for the descriptor. -/
structure Creatable (s : Vfs) (fuel t : Nat) (path : Name) (flags : UInt32) (a : Nat)
    (dir : FileNode) : Prop where
  root : IsDir s (s.nodes (s.tasks t).root)
  cwd : IsDir s (s.nodes (s.tasks t).cwd)
  fails : ∃ e, Fails s fuel t path e
  parent : Resolves s fuel t (dirPath path) dir
  makes : MakesIn s t flags dir
  block : a ∉ s.live
  room : ¬ (s.tasks t).Full

/-- `open` makes the file in the directory and returns a descriptor, and the path leads to it. -/
def CreatesAt (s : Vfs) (fuel t : Nat) (path : Name) (flags : UInt32) (a : Nat) (dir : FileNode) :
    Prop :=
  ∃ fd s' new, 0 ≤ fd ∧ s.openCall fuel t path flags a = some (fd, s') ∧
    Created s s' dir new (lastName path) FS_FILE ∧ Resolves s' fuel t path new

section Opens

variable {s : Vfs} {turns fuel t a : Nat} {path : Name} {flags : UInt32} {dir node : FileNode}
  {e : Int}

/-- Where the first lookups of `open` get to. -/
theorem openFind_parent (hroot : (s.tasks t).root ≠ a) (hcwd : (s.tasks t).cwd ≠ a)
    (hcreat : flags &&& O_CREAT ≠ 0) (hfails : Fails s fuel t path e)
    (hparent : Resolves s fuel t (parentPath path) node) :
    s.openFind fuel t path flags a = some (0, false, s.setNode a node) := by
  unfold Vfs.openFind Vfs.findPath
  rw [hfails.failed]
  dsimp only [Except.toOption, Option.map_some, Option.bind_some]
  rw [if_pos hfails.1, if_pos hcreat, fsFindPath_congr (setNode_view hroot hcwd _), hparent.found]
  dsimp only [Option.map_some]
  rw [setNode_setNode]

theorem openFile_refused (hroot : (s.tasks t).root ≠ a) (hcwd : (s.tasks t).cwd ≠ a)
    (hcreat : flags &&& O_CREAT ≠ 0) (hfails : Fails s fuel t path e)
    (hparent : Resolves s fuel t (parentPath path) node)
    (hperms : checkPerms s (s.tasks t) node flags = some false) :
    s.openFile fuel t path flags a = some (-EACCES, s.setNode a node) := by
  have hself : (s.setNode a node).nodes a = node := Function.update_self ..
  have hperms' : checkPerms (s.setNode a node) ((s.setNode a node).tasks t) node flags =
      some false := hperms
  unfold Vfs.openFile
  rw [openFind_parent hroot hcwd hcreat hfails hparent]
  dsimp only [Option.bind_some]
  rw [if_neg (Int.lt_irrefl 0), hself, hperms']
  rfl

theorem openFile_makes (hroot : (s.tasks t).root ≠ a) (hcwd : (s.tasks t).cwd ≠ a)
    (hfails : Fails s fuel t path e) (hparent : Resolves s fuel t (parentPath path) node)
    (hmakes : MakesIn s t flags node) {head head' : RamfsHeader}
    (hhead : s.ramfs node.fs = some head)
    (hadd : ramfsAdd head node (lastName path) 0o777 FS_FILE = some (0, head')) :
    s.openFile fuel t path flags a =
      ((s.setNode a node).setRamfs node.fs head').findPath fuel t path a := by
  have hself : (s.setNode a node).nodes a = node := Function.update_self ..
  obtain ⟨hcreat, ⟨f, hf, htype⟩, hperms⟩ := hmakes
  have hperms' : checkPerms (s.setNode a node) ((s.setNode a node).tasks t) node flags =
      some true := hperms
  have hopen : ramfsOpen head node (lastName path) flags = some (0, head') := by
    unfold ramfsOpen
    rw [← header_of_ramfs hhead, hf, Option.bind_some, if_pos ⟨htype, hcreat⟩]
    exact hadd
  unfold Vfs.openFile
  rw [openFind_parent hroot hcwd hcreat hfails hparent]
  dsimp only [Option.bind_some]
  rw [if_neg (Int.lt_irrefl 0), hself, hperms']
  dsimp only [Option.bind_some]
  rw [onRamfs_some (s := s.setNode a node) hhead hopen]
  rfl

theorem openCall_failed {s₀ : Vfs} (hlive : a ∉ s.live)
    (hfile : (s.knew a).openFile fuel t path flags a = some (e, s₀)) (he : e < 0) :
    s.openCall fuel t path flags a = some (e, s₀.kfree a) := by
  unfold Vfs.openCall
  rw [if_neg hlive, hfile, Option.map_some]
  dsimp only
  rw [if_pos he]

theorem openCall_opened {s₀ : Vfs} (hlive : a ∉ s.live) (hroom : ¬ (s.tasks t).Full)
    (hfile : (s.knew a).openFile fuel t path flags a = some (0, s₀)) :
    ∃ i : Nat, s.openCall fuel t path flags a =
      some ((i : Int), (s₀.modifyTask t fun task => task.addFile i a).kfree a) := by
  have htasks : s₀.tasks = s.tasks := (openFile_sameTasks hfile).tasks
  rcases install_cases s₀ t a with ⟨hfull, -⟩ | ⟨i, -, -, hinstall⟩
  · exact absurd (htasks ▸ hfull) hroom
  · refine ⟨i, ?_⟩
    unfold Vfs.openCall
    rw [if_neg hlive, hfile, Option.map_some]
    dsimp only
    rw [if_neg (Int.lt_irrefl 0), hinstall]

theorem StartsHeld.ne (h : StartsHeld s) (hlive : a ∉ s.live) (t : Nat) :
    (s.tasks t).root ≠ a ∧ (s.tasks t).cwd ≠ a :=
  ⟨fun heq => hlive (heq ▸ (h t).1), fun heq => hlive (heq ▸ (h t).2)⟩

theorem SameView.resolves {s' : Vfs} (h : SameView s s' t) (hres : Resolves s fuel t path node) :
    Resolves s' fuel t path node :=
  (fsFindPath_congr h fuel path ⟨0, 0⟩).trans hres

theorem SameView.fails {s' : Vfs} (h : SameView s s' t) (hfails : Fails s fuel t path e) :
    Fails s' fuel t path e := by
  obtain ⟨he, buf, hfind⟩ := hfails
  exact ⟨he, buf, (fsFindPath_congr h fuel path ⟨0, 0⟩).trans hfind⟩

/-- The empty path, and `.`, lead to the working directory. -/
theorem MountFree.resolves_here (h : MountFree s) (hturns : HasTurns s fuel) (t : Nat) :
    Resolves s fuel t [] (s.nodes (s.tasks t).cwd) :=
  (h.resolves_iff hturns).mpr rfl

/-- `open` looks the directory up by another path, which leads there as well. -/
theorem Creatable.parentPath (h : Creatable s fuel t path flags a dir)
    (hfree : MountFree s) (hturns : HasTurns s fuel) (hels : ¬ Elsewhere s t path) :
    Resolves s fuel t (parentPath path) dir := by
  have hparent := h.parent
  unfold dirPath at hparent
  by_cases hnil : Fs.parentPath path = []
  · rw [if_neg (not_not.mpr hnil)] at hparent
    rw [hnil]
    by_cases hslash : path.head? = some '/'
    · rw [if_pos hslash] at hparent
      have hsame : s.nodes (s.tasks t).root = s.nodes (s.tasks t).cwd :=
        not_not.mp fun hne => hels ⟨hnil, hslash, hne⟩
      have hroot : Resolves s fuel t ['/'] (s.nodes (s.tasks t).root) := rfl
      rw [hroot.unique hparent, hsame]
      exact hfree.resolves_here hturns t
    · rwa [if_neg hslash] at hparent
  · rwa [if_pos hnil] at hparent

/-- What the failing lookup tells of the directory. -/
theorem Creatable.free (h : Creatable s fuel t path flags a dir) (hfree : MountFree s)
    (hturns : HasTurns s fuel) (hup : lastName path ≠ ['.', '.']) :
    lastName path ≠ ['.'] ∧ EntryFree s dir (lastName path) := by
  obtain ⟨e, hfails⟩ := h.fails
  obtain ⟨hne, hnames, -⟩ := locate_of_failed (hfails.failed ⟨0, 0⟩) hfails.1
  obtain ⟨f, hf, htype⟩ := h.makes.2.1
  have hlast : nextNode s dir (lastName path) = .error e :=
    (resolve_parent hfree hturns hne hnames h.parent).symm.trans ((hfree.fails_iff hturns).mp hfails)
  have hdot : lastName path ≠ ['.'] := by
    intro hdot
    rw [hdot] at hlast
    cases hlast
  refine ⟨hdot, fun f' hf' => ?_⟩
  obtain rfl := Option.some.inj (hf.symm.trans hf')
  rw [nextNode_dir hf htype hdot hup] at hlast
  cases hlookup : f.lookup (lastName path) with
  | none => exact lookup_eq_none.mp hlookup
  | some inode =>
      rw [hlookup] at hlast
      cases hlast

/-- A path to `..` leads nowhere, whatever there is. -/
theorem resolve_up (hne : path ≠ []) (hnames : pathNames path ≠ [])
    (hup : lastName path = ['.', '.']) (start : FileNode) :
    ∃ e, resolve s start (pathNames path) = .error e := by
  rw [(@resolve_last s 0 path start hne hnames).2, hup]
  cases resolve s start (pathNames (dirPath path)) with
  | error e => exact ⟨e, rfl⟩
  | ok last => exact ⟨_, rfl⟩

/-- The root is not the directory in which the file was made, so the file is not there. -/
theorem Elsewhere.resolve {s' : Vfs} {new : FileNode} {type : Nat} (hels : Elsewhere s t path)
    (hne : path ≠ []) (hnames : pathNames path ≠ []) (hfree : MountFree s)
    (hc : Created s s' (s.nodes (s.tasks t).cwd) new (lastName path) type)
    (hends : Fs.resolve s (startNode s t path) (pathNames path) = .error e) :
    Fs.resolve s' (startNode s t path) (pathNames path) = .error e := by
  obtain ⟨hnil, hslash, hapart⟩ := hels
  have hroot : startNode s t path = s.nodes (s.tasks t).root := if_pos hslash
  have hdir : dirPath path = ['/'] := by
    unfold dirPath
    rw [if_neg (not_not.mpr hnil), if_pos hslash]
  have hnew : s.nodes (s.tasks t).root ≠ new := fun heq => by
    have hsome := hfree.starts t path
    rw [hroot, heq, hc.old] at hsome
    cases hsome
  rw [(@resolve_last _ t path _ hne hnames).2, hdir, hroot] at hends ⊢
  exact (hc.nextNode (lastName path) hnew (.inl hapart)).trans hends

/-- The state in which `open` looks for the file that it made. -/
def Vfs.madeIn (s : Vfs) (a : Nat) (node : FileNode) (head : RamfsHeader) : Vfs :=
  ((s.knew a).setNode a node).setRamfs node.fs head

theorem StartsHeld.startNode_madeIn (h : StartsHeld s) (hlive : a ∉ s.live) (node : FileNode)
    (head : RamfsHeader) (t : Nat) (q : Name) :
    startNode (s.madeIn a node head) t q = startNode s t q := by
  obtain ⟨hroot, hcwd⟩ := h.ne hlive t
  have hnodes : ∀ b ≠ a, (s.madeIn a node head).nodes b = s.nodes b := fun b hb => by
    show Function.update (Function.update s.nodes a ⟨0, 0⟩) a node b = s.nodes b
    rw [Function.update_of_ne hb, Function.update_of_ne hb]
  unfold startNode
  exact congrArg₂ (fun x y => if q.head? = some '/' then x else y) (hnodes _ hroot) (hnodes _ hcwd)

/-- `open` makes the file where its own lookup of the directory leads, and looks for it. -/
theorem open_makes (h : MountFree s) (hheld : StartsHeld s) (hlive : a ∉ s.live)
    (hfails : Fails s fuel t path e) (hparent : Resolves s fuel t (parentPath path) node)
    (hmakes : MakesIn s t flags node) :
    ∃ head new, Created s (s.madeIn a node head) node new (lastName path) FS_FILE ∧
      (s.knew a).openFile fuel t path flags a =
        (s.madeIn a node head).findPath fuel t path a := by
  obtain ⟨head, head', hhead, hadd, hadded⟩ := h.adds hmakes.2.1 (lastName path) 0o777 FS_FILE
  obtain ⟨hroot, hcwd⟩ := hheld.ne hlive t
  have hview := knew_view hroot hcwd
  exact ⟨head', _, Created.of_added hhead hadded rfl rfl rfl,
    openFile_makes (s := s.knew a) hroot hcwd (hview.fails hfails) (hview.resolves hparent)
      hmakes hhead hadd⟩

theorem not_createsAt {s₀ : Vfs} (hlive : a ∉ s.live)
    (hfile : (s.knew a).openFile fuel t path flags a = some (e, s₀)) (he : e < 0) :
    ¬ CreatesAt s fuel t path flags a dir := by
  rintro ⟨fd, s', new, hfd, hopen, -⟩
  have hret := (openCall_failed hlive hfile he).symm.trans hopen
  exact Int.not_lt.mpr hfd ((Prod.mk.inj (Option.some.inj hret)).1 ▸ he)

/-- If the second lookup fails, so does `open`. -/
theorem not_createsAt_of_failed (h : MountFree s) (hturns : HasTurns s turns) (hfuel : turns < fuel)
    (hheld : StartsHeld s) (hlive : a ∉ s.live) {head : RamfsHeader} {new : FileNode}
    (hc : Created s (s.madeIn a node head) node new (lastName path) FS_FILE)
    (hfile : (s.knew a).openFile fuel t path flags a =
      (s.madeIn a node head).findPath fuel t path a)
    (hends : resolve (s.madeIn a node head) (startNode s t path) (pathNames path) = .error e) :
    ¬ CreatesAt s fuel t path flags a dir := by
  have hstart := hheld.startNode_madeIn hlive node head
  have hfind : (s.madeIn a node head).findPath fuel t path a =
      some (e, (s.madeIn a node head).setNode a ((s.madeIn a node head).nodes a)) := by
    unfold Vfs.findPath
    rw [(hc.mountFree h hstart).findPath (hc.hasTurns hturns hfuel), hstart, hends]
    rfl
  exact not_createsAt hlive (hfile.trans hfind) (resolve_neg hends)

theorem Created.congr {s₁ s₂ : Vfs} {new : FileNode} {name : Name} {type : Nat}
    (hc : Created s s₁ dir new name type) (hramfs : s₂.ramfs = s₁.ramfs)
    (hmounts : s₂.mounts = s₁.mounts) (hzero : s₂.zeroPage = s₁.zeroPage) :
    Created s s₂ dir new name type := by
  obtain ⟨f, dirs, e, g, hf, htype, hdata, hinode, hname, hg, hmount, hnil, hfiles⟩ := hc.files
  refine ⟨hmounts.trans hc.mounts, hzero.trans hc.zeroPage, fun fs hfs => ?_, hc.fs, hc.old,
    f, dirs, e, g, hf, htype, hdata, hinode, hname, hg, hmount, hnil, fun node => ?_⟩
  · rw [hramfs]
    exact hc.systems fs hfs
  · rw [header_congr hramfs]
    exact hfiles node

/-- What is left of `open` does not change where the task starts from. -/
theorem install_view (s₁ : Vfs) (i : Nat) (new : FileNode) (hroot : (s₁.tasks t).root ≠ a)
    (hcwd : (s₁.tasks t).cwd ≠ a) : SameView s₁
      (((s₁.setNode a new).modifyTask t fun task => task.addFile i a).kfree a) t := by
  have htask : (((s₁.setNode a new).modifyTask t fun task => task.addFile i a).kfree a).tasks t =
      (s₁.tasks t).addFile i a := Function.update_self ..
  refine ⟨rfl, rfl, rfl, ?_, ?_⟩
  · rw [htask]
    exact Function.update_of_ne hroot _ _
  · rw [htask]
    exact Function.update_of_ne hcwd _ _

/-- **For `/x` the file is made in the working directory**, if the task may do that. -/
theorem Elsewhere.not_createsAt (hels : Elsewhere s t path) (h : MountFree s)
    (hturns : HasTurns s turns) (hfuel : turns < fuel) (hheld : StartsHeld s)
    (hcreatable : Creatable s fuel t path flags a dir) (hne : path ≠ [])
    (hnames : pathNames path ≠ []) (hfails : Fails s fuel t path e) :
    ¬ CreatesAt s fuel t path flags a dir := by
  have hlive := hcreatable.block
  have hturns' := hturns.mono hfuel.le
  have hparent : Resolves s fuel t (Fs.parentPath path) (s.nodes (s.tasks t).cwd) := by
    rw [hels.1]
    exact h.resolves_here hturns' t
  obtain ⟨f, hf, htype⟩ := hcreatable.cwd
  obtain ⟨good, hperms⟩ : ∃ good, checkPerms s (s.tasks t) (s.nodes (s.tasks t).cwd) flags =
      some good := by
    unfold checkPerms
    rw [getInfo_of_header hf]
    exact ⟨_, rfl⟩
  cases good with
  | false =>
      obtain ⟨hroot, hcwd⟩ := hheld.ne hlive t
      have hview := knew_view hroot hcwd
      exact Fs.not_createsAt hlive (openFile_refused hroot hcwd hcreatable.makes.1
        (hview.fails hfails) (hview.resolves hparent) hperms) (by decide)
  | true =>
      have hmakes : MakesIn s t flags (s.nodes (s.tasks t).cwd) :=
        ⟨hcreatable.makes.1, ⟨f, hf, htype⟩, hperms⟩
      obtain ⟨head, new, hc, hfile⟩ := open_makes h hheld hlive hfails hparent hmakes
      exact not_createsAt_of_failed h hturns hfuel hheld hlive hc hfile
        (hels.resolve hne hnames h hc ((h.fails_iff hturns').mp hfails))

/-- A file that is found after it was made gets a descriptor. -/
theorem createsAt_of_found (hheld : StartsHeld s) (hlive : a ∉ s.live)
    (hroom : ¬ (s.tasks t).Full) {head : RamfsHeader} {new : FileNode}
    (hc : Created s (s.madeIn a dir head) dir new (lastName path) FS_FILE)
    (hfile : (s.knew a).openFile fuel t path flags a =
      (s.madeIn a dir head).findPath fuel t path a)
    (hfound : Resolves (s.madeIn a dir head) fuel t path new) :
    CreatesAt s fuel t path flags a dir := by
  have hfile' : (s.knew a).openFile fuel t path flags a =
      some (0, (s.madeIn a dir head).setNode a new) := by
    rw [hfile]
    unfold Vfs.findPath
    rw [hfound.found]
    rfl
  obtain ⟨i, hopen⟩ := openCall_opened hlive hroom hfile'
  obtain ⟨hroot, hcwd⟩ := hheld.ne hlive t
  have hview := install_view (s.madeIn a dir head) i new hroot hcwd
  exact ⟨i, _, new, Int.natCast_nonneg i, hopen, hc.congr rfl rfl rfl, hview.resolves hfound⟩

end Opens

/--
**When `open` creates at the named place.**  Let the path lead nowhere, its directory be there and
be one that the task may open with these flags, and let there be a place for a descriptor.  Then
`open` makes the file in this directory, returns a descriptor, and the path leads to the new file,
exactly if the name is not `..` and the file is not made elsewhere.
-/
theorem open_creates_iff {s : Vfs} {turns fuel t a : Nat} {path : Name} {flags : UInt32}
    {dir : FileNode} (h : MountFree s) (hturns : HasTurns s turns) (hfuel : turns < fuel)
    (hheld : StartsHeld s) (hcreatable : Creatable s fuel t path flags a dir) :
    CreatesAt s fuel t path flags a dir ↔
      lastName path ≠ ['.', '.'] ∧ ¬ Elsewhere s t path := by
  have hlive := hcreatable.block
  have hturns' := hturns.mono hfuel.le
  obtain ⟨e, hfails⟩ := hcreatable.fails
  obtain ⟨hne, hnames, -⟩ := locate_of_failed (hfails.failed ⟨0, 0⟩) hfails.1
  by_cases hels : Elsewhere s t path
  · exact iff_of_false
      (hels.not_createsAt h hturns hfuel hheld hcreatable hne hnames hfails) fun hright =>
        hright.2 hels
  have hparent := hcreatable.parentPath h hturns' hels
  obtain ⟨head, new, hc, hfile⟩ := open_makes h hheld hlive hfails hparent hcreatable.makes
  by_cases hup : lastName path = ['.', '.']
  · -- the entry is made, and never found
    obtain ⟨e', hends⟩ := @resolve_up (s.madeIn a dir head) path hne hnames hup (startNode s t path)
    exact iff_of_false
      (not_createsAt_of_failed h hturns hfuel hheld hlive hc hfile hends) fun hright =>
        hright.1 hup
  · obtain ⟨hdot, hfree⟩ := hcreatable.free h hturns' hup
    have hseen := hc.seenBy h hturns hfuel hfree hdot hup (hheld.startNode_madeIn hlive dir head)
    have hfound : Resolves (s.madeIn a dir head) fuel t path new :=
      hseen.there t path [] (takes_last h hturns' hne hnames hcreatable.parent) (by simp)
    exact iff_of_true
      (createsAt_of_found hheld hlive hcreatable.room hc hfile hfound) ⟨hup, hels⟩

theorem startsHeld_boot (systems : List Nat) (fs root : Nat) :
    StartsHeld (Vfs.boot systems fs root) :=
  fun _ => ⟨List.mem_singleton_self root, List.mem_singleton_self root⟩

theorem not_full_boot (root cwd : Nat) : ¬ (Task.mk 0 0 root cwd (fun _ => none) 0).Full := by
  have hslot : (Task.mk 0 0 root cwd (fun _ => none) 0).freeSlot = some 0 := rfl
  rintro (hfull | hnone)
  · exact absurd (Nat.le_zero.mp hfull) (by decide)
  · rw [hslot] at hnone
    cases hnone

/-- In a new file system `f` can be made. -/
theorem creatable_boot :
    Creatable (Vfs.boot [0x1000] 0x1000 0x2000) 2 0 ['f'] 68 0x3000 ⟨1, 0x1000⟩ where
  root := ⟨_, rfl, rfl⟩
  cwd := ⟨_, rfl, rfl⟩
  fails := ⟨-ENOENT, by decide, _, rfl⟩
  parent := rfl
  makes := ⟨by decide, ⟨_, rfl, rfl⟩, by decide⟩
  block := by decide
  room := not_full_boot _ _

theorem open_creates_iff_boot :
    CreatesAt (Vfs.boot [0x1000] 0x1000 0x2000) 2 0 ['f'] 68 0x3000 ⟨1, 0x1000⟩ ↔
      lastName ['f'] ≠ ['.', '.'] ∧ ¬ Elsewhere (Vfs.boot [0x1000] 0x1000 0x2000) 0 ['f'] :=
  open_creates_iff (mountFree_boot (List.mem_singleton_self _)) (hasTurns_boot _ _ _) (by decide)
    (startsHeld_boot _ _ _) creatable_boot

/-- There is a directory `/d`, and tasks are in it. -/
def Vfs.inSubdir : Vfs :=
  { Vfs.boot [0x1000] 0x1000 0x2000 with
    ramfs := fun fs => if fs = 0x1000 then
      (ramfsMkdir initRamfs ⟨1, 0x1000⟩ ['d'] 0o777).map Prod.snd else none
    nodes := Function.update (fun _ => ⟨2, 0x1000⟩) 0x2000 ⟨1, 0x1000⟩
    live := [0x2000, 0x3000]
    tasks := fun _ => ⟨0, 0, 0x2000, 0x3000, fun _ => none, 0⟩ }

theorem inSubdir_header {node : FileNode} {f : FileHeader} (h : Vfs.inSubdir.header node = some f) :
    node.fs = 0x1000 ∧ f.mountId = 0 ∧
      (f.data = .entries [] ∨ f.data = .entries [⟨2, 266, 2, ['d']⟩]) := by
  obtain ⟨head, hhead, hf⟩ := Option.bind_eq_some_iff.mp h
  obtain ⟨hfs, hhead⟩ := Option.ite_none_right_eq_some.mp hhead
  obtain rfl := Option.some.inj hhead
  have hmem := List.mem_of_find?_eq_some hf
  rcases List.mem_cons.mp hmem with rfl | hmem
  · exact ⟨hfs, rfl, .inr rfl⟩
  · rw [List.mem_singleton.mp hmem]
    exact ⟨hfs, rfl, .inl rfl⟩

theorem mountFree_inSubdir : MountFree Vfs.inSubdir := by
  refine .of_files (fun t path => ?_) fun node f hf => ?_
  · unfold startNode
    split
    · rfl
    · rfl
  · obtain ⟨hfs, hmount, hdata | hdata⟩ := inSubdir_header hf
    · exact ⟨hmount, [], hdata, fun e he => absurd he List.not_mem_nil⟩
    · refine ⟨hmount, _, hdata, fun e he => ?_⟩
      rw [List.mem_singleton.mp he, hfs]
      rfl

theorem hasTurns_inSubdir : HasTurns Vfs.inSubdir 2 := by
  intro node f dirs hf hdata
  obtain ⟨-, -, hold | hold⟩ := inSubdir_header hf
  · obtain rfl : [] = dirs := FileData.entries.inj (hold.symm.trans hdata)
    decide
  · obtain rfl : [_] = dirs := FileData.entries.inj (hold.symm.trans hdata)
    decide

/-- **In `/d`, to create `/x` makes `/d/x` and fails.** -/
theorem open_creates_elsewhere :
    ¬ ∀ (s : Vfs) (turns fuel t a : Nat) (path : Name) (flags : UInt32) (dir : FileNode),
      MountFree s → HasTurns s turns → turns < fuel → StartsHeld s →
      Creatable s fuel t path flags a dir → CreatesAt s fuel t path flags a dir := by
  intro h
  have hcreatable : Creatable Vfs.inSubdir 3 0 ['/', 'x'] 68 0x4000 ⟨1, 0x1000⟩ :=
    ⟨⟨_, rfl, rfl⟩, ⟨_, rfl, rfl⟩, ⟨-ENOENT, by decide, _, rfl⟩, rfl,
      ⟨by decide, ⟨_, rfl, rfl⟩, by decide⟩, by decide, not_full_boot _ _⟩
  obtain ⟨fd, s', new, hfd, hopen, -⟩ := h _ 2 3 0 _ _ _ _ mountFree_inSubdir hasTurns_inSubdir
    (by decide) (fun _ => ⟨List.mem_cons_self, List.mem_cons_of_mem _ List.mem_cons_self⟩)
    hcreatable
  have hret : (Vfs.inSubdir.openCall 3 0 ['/', 'x'] 68 0x4000).map Prod.fst = some (-ENOENT) := rfl
  rw [hopen] at hret
  have hfail : fd = -ENOENT := Option.some.inj hret
  rw [hfail] at hfd
  exact absurd hfd (by decide)

end OsThing.Fs
