/-
Path resolution is a walk in a tree.

What a `ramfs` holds is a tree of names, as far as the names in each directory are unique:
`Describes` says of a tree that it is this one.  The lookups of the kernel end where the
walk in this tree ends, with its node or with the error for what is in the way.  The loop
carries along what it knows of the last entry, and this is always about the node that it
is at: `At`, which the relation between the two walks rests on.

Without mounts nothing leads out of the file system.
-/
import OsThing.Lib.DirTree
import OsThing.Proofs.RamfsTree
import OsThing.Proofs.UniqueNames

namespace OsThing.Fs

open DirTree Runs

/-! ### The tree of a file system -/

/-- The directory `d` has an entry that is called `name` and is for the inode `i`. -/
def HasEntry (head : RamfsHeader) (d : Nat) (name : Name) (i : Nat) : Prop :=
  ∃ f dirs e, head.getFileH d = some f ∧ f.data = .entries dirs ∧ e ∈ dirs ∧ e.name = name ∧
    e.inode = i

/-- `T` is the tree that the file system holds. -/
structure Describes (T : Tree Name Nat) (head : RamfsHeader) : Prop where
  isDir : ∀ i, T.isDir i = true ↔ ∃ f, head.getFileH i = some f ∧ f.type = FS_DIR
  child : ∀ i name j, T.child i name = some j ↔ HasEntry head i name j

/-- The names in each directory are unique. -/
def UniqueEntries (head : RamfsHeader) : Prop :=
  ∀ i f, head.getFileH i = some f → f.entryNames.Nodup

/-- The inode of the first entry with the name. -/
def FileHeader.lookup (f : FileHeader) (name : Name) : Option Nat :=
  match f.data with
  | .entries dirs => (dirs.find? fun e => e.name = name).map RamfsDirent.inode
  | .buffer _ => none

def RamfsHeader.tree (head : RamfsHeader) : Tree Name Nat where
  isDir i := (head.getFileH i).any fun f => f.type = FS_DIR
  child i name := (head.getFileH i).bind fun f => f.lookup name

/-- The entry with the name, where there is no other. -/
theorem find_entry_iff {dirs : List RamfsDirent} (hunique : (dirs.map RamfsDirent.name).Nodup)
    (name : Name) (e : RamfsDirent) :
    (dirs.find? fun e => e.name = name) = some e ↔ e ∈ dirs ∧ e.name = name := by
  constructor
  · intro h
    exact ⟨List.mem_of_find?_eq_some h, by simpa using List.find?_some h⟩
  · rintro ⟨he, rfl⟩
    have hsome : (dirs.find? fun e' => e'.name = e.name).isSome :=
      List.find?_isSome.mpr ⟨e, he, decide_eq_true rfl⟩
    obtain ⟨e', he'⟩ := Option.isSome_iff_exists.mp hsome
    have hname : e'.name = e.name := by simpa using List.find?_some he'
    rw [he', List.inj_on_of_nodup_map hunique (List.mem_of_find?_eq_some he') he hname]

theorem lookup_eq_some {f : FileHeader} (hunique : f.entryNames.Nodup) (name : Name) (i : Nat) :
    f.lookup name = some i ↔
      ∃ dirs e, f.data = .entries dirs ∧ e ∈ dirs ∧ e.name = name ∧ e.inode = i := by
  unfold FileHeader.lookup
  unfold FileHeader.entryNames at hunique
  rcases hdata : f.data with dirs | b
  · rw [hdata] at hunique
    rw [Option.map_eq_some_iff]
    constructor
    · rintro ⟨e, he, hi⟩
      obtain ⟨hmem, hname⟩ := (find_entry_iff hunique name e).mp he
      exact ⟨dirs, e, rfl, hmem, hname, hi⟩
    · rintro ⟨dirs', e, hdirs, hmem, hname, hi⟩
      obtain rfl := FileData.entries.inj hdirs
      exact ⟨e, (find_entry_iff hunique name e).mpr ⟨hmem, hname⟩, hi⟩
  · refine iff_of_false (Option.some_ne_none i).symm ?_
    rintro ⟨dirs, e, hdirs, -⟩
    cases hdirs

/-- With turns enough, the loop over a directory finds the first entry with the name. -/
theorem scanDir_lookup {s : Vfs} {node : FileNode} {f : FileHeader} {dirs : List RamfsDirent}
    (hf : s.header node = some f) (htype : f.type = FS_DIR) (hdata : f.data = .entries dirs)
    {fuel : Nat} (hturns : dirs.length < fuel) (name : Name) (b : Dirent) :
    ∃ b', scanDir s name node fuel 0 b = .ok (f.lookup name, b') := by
  obtain ⟨r, b', hends, -⟩ := scanDir_ends name hf htype hdata dirs.length 0 b (by omega)
  have hscan := hends fuel hturns
  have hr : r = (dirs.find? fun e => e.name = name).map RamfsDirent.inode :=
    scanDir_eq hf htype hdata (d := 0) hscan
  have hlookup : f.lookup name = r := by
    unfold FileHeader.lookup
    rw [hdata, hr]
  exact ⟨b', hlookup ▸ hscan⟩

/-- **A file system with unique names is a tree.** -/
theorem describes_tree {head : RamfsHeader} (hunique : UniqueEntries head) :
    Describes head.tree head := by
  refine ⟨fun i => ?_, fun i name j => ?_⟩
  · unfold RamfsHeader.tree
    simp [Option.any_eq_true]
  · unfold RamfsHeader.tree HasEntry
    rw [Option.bind_eq_some_iff]
    constructor
    · rintro ⟨f, hf, hlookup⟩
      obtain ⟨dirs, e, hentry⟩ := (lookup_eq_some (hunique i f hf) name j).mp hlookup
      exact ⟨f, dirs, e, hf, hentry⟩
    · rintro ⟨f, dirs, e, hf, hentry⟩
      exact ⟨f, hf, (lookup_eq_some (hunique i f hf) name j).mpr ⟨dirs, e, hentry⟩⟩

/-! ### Enough turns for a directory -/

/-- In a tree a directory has fewer entries than there are files. -/
theorem IsTree.entries_lt {head : RamfsHeader} (h : IsTree head) {d : Nat} {f : FileHeader}
    {dirs : List RamfsDirent} (hf : head.getFileH d = some f) (htype : f.type = FS_DIR)
    (hdata : f.data = .entries dirs) : dirs.length < head.iCount := by
  have hnames : ∀ k i, (dirs.map RamfsDirent.inode)[k]? = some i → Names head d k i := by
    intro k i hk
    rw [List.getElem?_map] at hk
    obtain ⟨e, he, hinode⟩ := Option.map_eq_some_iff.mp hk
    exact ⟨f, dirs, e, hf, htype, hdata, he, hinode⟩
  have hnodup : (dirs.map RamfsDirent.inode).Nodup := by
    refine List.nodup_iff_getElem?_ne_getElem?.mpr fun k k' hkk' hk' heq => ?_
    have hi := hnames k' _ (List.getElem?_eq_getElem hk')
    have hi' := hnames k _ (heq.trans (List.getElem?_eq_getElem hk'))
    have hroot := h.smaller _ _ _ hi
    have hpos := RamfsHeader.getFileH_pos hf
    obtain ⟨entry, -, honly⟩ := h.named _ (h.file _ _ _ hi) (by omega)
    have hsame := (honly (d, k') hi).trans (honly (d, k) hi').symm
    exact Nat.ne_of_gt hkk' (congrArg Prod.snd hsame)
  have hsub : dirs.map RamfsDirent.inode ⊆ head.files.map FileHeader.inode := by
    intro i hi
    obtain ⟨k, hk⟩ := List.mem_iff_getElem?.mp hi
    obtain ⟨g, hg⟩ := Option.isSome_iff_exists.mp (h.file _ _ _ (hnames k i hk))
    rw [head.inodes]
    exact RamfsHeader.getFileH_mem hg
  have hle := (hnodup.subperm hsub).length_le
  rw [List.length_map, List.length_map] at hle
  rw [head.count_eq]
  omega

/-! ### The two walks -/

/-- A name that is not empty, and not the way up. -/
def Plain (name : Name) : Prop := name ≠ [] ∧ name ≠ ['.', '.']

def errorOf : Dead → Int
  | .missing => -ENOENT
  | .notDir => -ENOTDIR

/-- What a lookup answers if the walk in the tree ends like this. -/
def answer (fs : Nat) (nodebuf : FileNode) : Except Dead Nat → Except Stuck (Int × FileNode)
  | .error dead => .ok (errorOf dead, nodebuf)
  | .ok inode => .ok (0, ⟨inode, fs⟩)

/-- The lookup is at the node that the walk in the tree is at, and knows what it is. -/
def Follows (fs : Nat) (head : RamfsHeader) (i : Nat) (p : Place) : Prop :=
  At fs head p ∧ p.temp.inode = i

/-- The file system at `fs` holds the tree `T`, without mounts, and there are turns enough. -/
structure HoldsTree (s : Vfs) (fs fuel : Nat) (head : RamfsHeader) (T : Tree Name Nat) : Prop where
  ramfs : s.ramfs fs = some head
  closed : Closed head
  tree : IsTree head
  entries : ∀ i f, head.getFileH i = some f → ∃ dirs, f.data = .entries dirs
  turns : head.iCount ≤ fuel
  describes : Describes T head

section Walks

variable {s : Vfs} {fs fuel : Nat} {head : RamfsHeader} {T : Tree Name Nat}

theorem HoldsTree.header (h : HoldsTree s fs fuel head T) (i : Nat) :
    s.header ⟨i, fs⟩ = head.getFileH i :=
  @header_of_ramfs s ⟨i, fs⟩ head h.ramfs

/-- The first entry with a name is the one that the tree has. -/
theorem Describes.find_eq (h : Describes T head) {i : Nat} {f : FileHeader}
    {dirs : List RamfsDirent} (hf : head.getFileH i = some f) (hdata : f.data = .entries dirs)
    (name : Name) :
    (dirs.find? fun e => e.name = name).map RamfsDirent.inode = T.child i name := by
  have hfound : ∀ e, (dirs.find? fun e => e.name = name) = some e →
      T.child i name = some e.inode := by
    intro e he
    have hname : e.name = name := by simpa using List.find?_some he
    exact (h.child i name e.inode).mpr
      ⟨f, dirs, e, hf, hdata, List.mem_of_find?_eq_some he, hname, rfl⟩
  rcases hfind : dirs.find? fun e => e.name = name with _ | e
  · rw [hfind]
    rcases hchild : T.child i name with _ | j
    · rfl
    · obtain ⟨f', dirs', e, hf', hdata', he, hname, -⟩ := (h.child i name j).mp hchild
      obtain rfl := Option.some.inj (hf.symm.trans hf')
      obtain rfl := FileData.entries.inj (hdata.symm.trans hdata')
      exact absurd (decide_eq_true hname) (List.find?_eq_none.mp hfind e he)
  · rw [hfind, hfound e hfind]
    rfl

/-- The loop over a directory finds what the tree has there. -/
theorem HoldsTree.scanDir (h : HoldsTree s fs fuel head T) {i : Nat} {f : FileHeader}
    (hf : head.getFileH i = some f) (htype : f.type = FS_DIR) (name : Name) (b : Dirent) :
    ∃ b', Fs.scanDir s name ⟨i, fs⟩ fuel 0 b = .ok (T.child i name, b') := by
  obtain ⟨dirs, hdata⟩ := h.entries i f hf
  have hheader := (h.header i).trans hf
  have hlt := Nat.lt_of_lt_of_le (h.tree.entries_lt hf htype hdata) h.turns
  obtain ⟨b', hscan⟩ := scanDir_lookup hheader htype hdata hlt name b
  have hlookup : f.lookup name = T.child i name := by
    unfold FileHeader.lookup
    rw [hdata]
    exact h.describes.find_eq hf hdata name
  exact ⟨b', hlookup ▸ hscan⟩

/-- **One name leads both walks to the same node, or stops both.** -/
theorem HoldsTree.goName (h : HoldsTree s fs fuel head T) {i : Nat} {p : Place} {name : Name}
    (hname : Plain name) (hp : Follows fs head i p) :
    Tree.Agrees (Follows fs head) (fun dead => Halt.failed (errorOf dead))
      (T.enter ['.'] i name) (Fs.goName s fuel p name) := by
  obtain ⟨⟨rfl, f, hf, hinfo⟩, rfl⟩ := hp
  unfold Tree.enter Fs.goName
  by_cases hdot : name = ['.']
  · rw [if_pos hdot, if_pos hdot]
    exact Tree.Agrees.ok ⟨⟨rfl, f, hf, hinfo⟩, rfl⟩
  rw [if_neg hdot, if_neg hdot, if_neg hname.2]
  have hdir : T.isDir p.temp.inode = true ↔ p.info.type = FS_DIR := by
    rw [h.describes.isDir, hinfo, hf]
    exact ⟨fun ⟨g, hg, htype⟩ => Option.some.inj hg ▸ htype, fun htype => ⟨f, rfl, htype⟩⟩
  by_cases htype : p.info.type = FS_DIR
  · rw [if_pos (hdir.mpr htype), if_pos htype]
    have hftype : f.type = FS_DIR := by rwa [hinfo] at htype
    obtain ⟨b', hscan⟩ := h.scanDir hf hftype name p.buffer
    rw [hscan]
    rcases hchild : T.child p.temp.inode name with _ | j
    · exact Tree.Agrees.error .missing
    · -- the entry has a header, and no mount
      obtain ⟨f', dirs, e, hf', hdata, he, -, rfl⟩ := (h.describes.child _ name j).mp hchild
      obtain ⟨hmount, hfiles⟩ := h.closed _ f' hf'
      obtain ⟨g, hg⟩ := Option.isSome_iff_exists.mp (hfiles dirs hdata e he)
      have hget := getInfo_of_header ((h.header e.inode).trans hg) p.info
      dsimp only
      rw [hget]
      dsimp only
      rw [followMount_zero s _ (show (g.info ⟨e.inode, p.temp.fs⟩).mountId = 0 from
        (h.closed _ g hg).1)]
      exact Tree.Agrees.ok ⟨⟨rfl, g, hg, rfl⟩, rfl⟩
  · rw [if_neg (mt hdir.mp htype), if_neg htype]
    exact Tree.Agrees.error .notDir

/-- Both walks over the names end in the same way. -/
theorem HoldsTree.walk (h : HoldsTree s fs fuel head T) {node : FileNode} {names : List Name}
    (nodebuf : FileNode) (hfs : node.fs = fs) (hstart : (head.getFileH node.inode).isSome)
    (hnames : ∀ name ∈ names, Plain name) :
    landing nodebuf ((startAt s node).bind fun p => Fs.walk s fuel p names) =
      answer fs nodebuf (T.resolve ['.'] node.inode names) := by
  obtain ⟨f, hf⟩ := Option.isSome_iff_exists.mp hstart
  obtain ⟨p, hp, htemp, hat⟩ := startAt_at h.ramfs hfs hf
  have hfollows : Follows fs head node.inode p := ⟨hat, congrArg FileNode.inode htemp⟩
  have hagrees := T.resolve_agrees ['.'] (fun _ _ _ hname hq => h.goName hname hq)
    names hnames hfollows
  rw [hp]
  show landing nodebuf (Fs.walk s fuel p names) = _
  unfold Fs.walk
  revert hagrees
  generalize T.resolve ['.'] node.inode names = r
  generalize names.foldlM (Fs.goName s fuel) p = r'
  intro hagrees
  cases hagrees with
  | ok hq =>
      obtain ⟨⟨hfs, -⟩, rfl⟩ := hq
      rw [← hfs]
      rfl
  | error dead => rfl

/-- **A lookup answers what the walk in the tree ends with.** -/
theorem HoldsTree.findNode (h : HoldsTree s fs fuel head T) {start : Nat} (path : Name)
    (nodebuf : FileNode) (hstart : (head.getFileH start).isSome)
    (hpath : ∀ name ∈ components path, Plain name) :
    fsFindNode s fuel ⟨start, fs⟩ path nodebuf =
      answer fs nodebuf (T.resolve ['.'] start (components path)) :=
  (fsFindNode_eq s fuel ⟨start, fs⟩ path nodebuf).trans (h.walk nodebuf rfl hstart hpath)

/-- The names of a path, without the slashes that it starts with. -/
def namesAfterSlashes (path : Name) : List Name :=
  if path.dropWhile (· = '/') = [] then [] else components (path.dropWhile (· = '/'))

/-- These are the names that a lookup goes through, but that the empty path is taken for a dot. -/
theorem pathNames_cases (path : Name) :
    pathNames path = namesAfterSlashes path ∨
      (pathNames path = [['.']] ∧ namesAfterSlashes path = []) := by
  by_cases hne : path = []
  · rw [hne]
    exact .inr ⟨rfl, rfl⟩
  by_cases habs : path.head? = some '/'
  · exact .inl (pathNames_abs habs)
  · have hself : path.dropWhile (· = '/') = path := by
      refine List.dropWhile_eq_self_iff.mpr fun hlen hfirst => habs ?_
      rw [List.head?_eq_getElem?, List.getElem?_eq_getElem hlen]
      exact congrArg some (of_decide_eq_true hfirst)
    unfold namesAfterSlashes
    rw [hself, if_neg hne]
    exact .inl (pathNames_rel hne habs)

/-- A lookup that starts in a file system is a walk over these names. -/
theorem fsFindPath_names {t : Nat} {path : Name} (h : (s.ramfs (startNode s t path).fs).isSome)
    (buf : FileNode) :
    fsFindPath s fuel t path buf = landing buf ((startAt s (startNode s t path)).bind fun p =>
      Fs.walk s fuel p (namesAfterSlashes path)) := by
  obtain ⟨head, hhead⟩ := Option.isSome_iff_exists.mp h
  obtain ⟨p, hp, htemp⟩ : ∃ p, startAt s (startNode s t path) = .ok p ∧
      p.temp = startNode s t path := by
    unfold startAt Vfs.getInfo
    rw [hhead]
    exact ⟨_, rfl, rfl⟩
  by_cases hnames : pathNames path = []
  · have hnil : namesAfterSlashes path = [] := by
      rcases pathNames_cases path with hsame | ⟨hdot, -⟩
      · exact hsame ▸ hnames
      · rw [hdot] at hnames
        cases hnames
    rw [fsFindPath_root s fuel t buf hnames, hp, hnil, ← htemp]
    rfl
  · rw [fsFindPath_eq s fuel t buf hnames]
    unfold locate
    rw [hp]
    rcases pathNames_cases path with hsame | ⟨hdot, hnil⟩
    · rw [hsame]
    · rw [hdot, hnil]
      rfl

/-- **So does the lookup of a path**, from the root or the directory that the task is in. -/
theorem HoldsTree.findPath (h : HoldsTree s fs fuel head T) (t : Nat) (path : Name) (buf : FileNode)
    (hfs : (startNode s t path).fs = fs) (hstart : (head.getFileH (startNode s t path).inode).isSome)
    (hpath : ∀ name ∈ namesAfterSlashes path, Plain name) :
    fsFindPath s fuel t path buf =
      answer fs buf (T.resolve ['.'] (startNode s t path).inode (namesAfterSlashes path)) := by
  have hsome : (s.ramfs (startNode s t path).fs).isSome := by
    rw [hfs, h.ramfs]
    rfl
  exact (fsFindPath_names hsome buf).trans (h.walk buf hfs hstart hpath)

end Walks

/-! ### A run -/

/-- Lookups in the file system are walks in `T`. -/
structure LookupsResolve (s : Vfs) (fs fuel : Nat) (head : RamfsHeader) (T : Tree Name Nat) :
    Prop where
  node : ∀ start path nodebuf, (head.getFileH start).isSome →
    (∀ name ∈ components path, Plain name) → fsFindNode s fuel ⟨start, fs⟩ path nodebuf =
      answer fs nodebuf (T.resolve ['.'] start (components path))
  path : ∀ t path buf, (startNode s t path).fs = fs →
    (head.getFileH (startNode s t path).inode).isSome →
    (∀ name ∈ namesAfterSlashes path, Plain name) → fsFindPath s fuel t path buf =
      answer fs buf (T.resolve ['.'] (startNode s t path).inode (namesAfterSlashes path))

/-- If names are unique, lookups in the file system of the store are walks in the tree that it
holds, wherever it is mounted, once there are as many turns as files. -/
def ResolvesAsTree (s : RamfsStore) : Prop :=
  ∃ head es, Represents s head es ∧ (UniqueEntries head → ∃ T, Describes T head ∧
    ∀ (v : Vfs) (fs fuel : Nat), v.ramfs fs = some head → head.iCount ≤ fuel →
      LookupsResolve v fs fuel head T)

theorem resolvesAsTree {s : RamfsStore} {head : RamfsHeader} {es : Nat → List Nat}
    (hrepr : Represents s head es) (htree : IsTree head) (hclosed : Closed head) :
    ResolvesAsTree s := by
  refine ⟨head, es, hrepr, fun hunique => ⟨head.tree, describes_tree hunique, ?_⟩⟩
  intro v fs fuel hramfs hturns
  have hentries : ∀ i f, head.getFileH i = some f → ∃ dirs, f.data = .entries dirs := by
    intro i f hf
    rcases hrepr.getFileH i with ⟨-, hnone⟩ | ⟨p, -, -, -, hfile⟩
    · rw [hnone] at hf
      cases hf
    · obtain rfl := Option.some.inj (hfile.symm.trans hf)
      exact ⟨_, rfl⟩
  have hholds : HoldsTree v fs fuel head head.tree :=
    ⟨hramfs, hclosed, htree, hentries, hturns, describes_tree hunique⟩
  exact ⟨fun start path nodebuf hstart hpath => hholds.findNode path nodebuf hstart hpath,
    fun t path buf hfs hstart hpath => hholds.findPath t path buf hfs hstart hpath⟩

/--
**Path resolution is the walk in the tree.**  In every run of `mkdir`, `mknod` and the making
of files from `init_ramfs`, and from every file, a lookup follows the names of its path one by
one, and ends with the inode of the last, with `-ENOENT` at the first one that its directory
does not have, or with `-ENOTDIR` at the first one that is looked up in no directory.
-/
theorem resolution_walks_tree (ops : List RamfsOp) :
    Always ramfsStep ResolvesAsTree RamfsStore.init ops := by
  have hinit : ∃ head es, Represents RamfsStore.init head es ∧ IsTree head ∧ Closed head :=
    ⟨initRamfs, _, represents_init, isTree_init, closed_init⟩
  refine Always.mono (fun s hs => ?_) (always_of_inv ramfsStep_keeps hinit (everyStep_true _))
  obtain ⟨head, es, hrepr, htree, hclosed⟩ := hs
  exact resolvesAsTree hrepr htree hclosed

/-- `/d` is made, and `./d` leads to it. -/
example : ((ramfsMkdir initRamfs ⟨1, 0⟩ ['d'] 0o777).map fun made =>
    made.2.tree.resolve ['.'] 1 (components ['.', '/', 'd'])) = some (.ok 2) := rfl

end OsThing.Fs
