/-
Lookups where nothing is mounted.

A lookup carries along what it knows of the entry it came through, and without mounts this is
always about the node that it is at.  So it is a walk over nodes: `nextNode` says where one name
leads, `resolve` follows the names of a path, and `findPath_resolve` says that a lookup answers
what this walk ends with.  A file that is made adds one name to the graph that is walked in, and
changes only the walks that take this name.
-/
import OsThing.Lib.NameWalk
import OsThing.Proofs.Resolution

namespace OsThing.Fs

open NameWalk

/-! ### The graph of names -/

/-- Nothing is mounted, and all that a lookup can get to is there. -/
structure MountFree (s : Vfs) : Prop where
  starts : ∀ t path, (s.header (startNode s t path)).isSome
  unmounted : ∀ node f, s.header node = some f → f.mountId = 0
  dirs : ∀ node f, s.header node = some f → f.type = FS_DIR → ∃ dirs, f.data = .entries dirs
  named : ∀ node f dirs, s.header node = some f → f.data = .entries dirs →
    ∀ e ∈ dirs, (s.header ⟨e.inode, node.fs⟩).isSome

/-- Where all files have entries for files that are there. -/
theorem MountFree.of_files {s : Vfs} (hstarts : ∀ t path, (s.header (startNode s t path)).isSome)
    (h : ∀ node f, s.header node = some f → f.mountId = 0 ∧ ∃ dirs, f.data = .entries dirs ∧
      ∀ e ∈ dirs, (s.header ⟨e.inode, node.fs⟩).isSome) : MountFree s := by
  refine ⟨hstarts, fun node f hf => (h node f hf).1, fun node f hf _ => ?_,
    fun node f dirs hf hdata e he => ?_⟩
  · obtain ⟨-, dirs, hdata, -⟩ := h node f hf
    exact ⟨dirs, hdata⟩
  · obtain ⟨-, dirs', hdata', hnamed⟩ := h node f hf
    obtain rfl : dirs' = dirs := FileData.entries.inj (hdata'.symm.trans hdata)
    exact hnamed e he

theorem MountFree.congr {s s' : Vfs} (h : MountFree s) (hramfs : s'.ramfs = s.ramfs)
    (hstart : ∀ t path, startNode s' t path = startNode s t path) : MountFree s' := by
  have hheader := header_congr hramfs
  refine ⟨fun t path => ?_, fun node f hf => ?_, fun node f hf => ?_, fun node f dirs hf => ?_⟩
  · rw [hstart, hheader]
    exact h.starts t path
  · rw [hheader] at hf
    exact h.unmounted node f hf
  · rw [hheader] at hf
    exact h.dirs node f hf
  · rw [hheader] at hf
    intro hdata e he
    rw [hheader]
    exact h.named node f dirs hf hdata e he

theorem MountFree.closed {s : Vfs} (h : MountFree s) {fs : Nat} {head : RamfsHeader}
    (hhead : s.ramfs fs = some head) : Closed head := by
  intro i f hf
  have hheader : s.header ⟨i, fs⟩ = some f := (@header_of_ramfs s ⟨i, fs⟩ head hhead).trans hf
  refine ⟨h.unmounted _ f hheader, fun dirs hdata e he => ?_⟩
  have hsome := h.named _ f dirs hheader hdata e he
  rwa [@header_of_ramfs s ⟨e.inode, fs⟩ head hhead] at hsome

/-- There are turns enough to read every directory to its end. -/
def HasTurns (s : Vfs) (fuel : Nat) : Prop :=
  ∀ node f dirs, s.header node = some f → f.data = .entries dirs → dirs.length < fuel

/-- Where a name leads from a node. -/
def nextNode (s : Vfs) (node : FileNode) (name : Name) : Except Int FileNode :=
  if name = ['.'] then .ok node
  else if name = ['.', '.'] then .error (-ENOTDIR)
  else
    match s.header node with
    | none => .error (-ENOTDIR)
    | some f =>
        if f.type = FS_DIR then
          match f.lookup name with
          | none => .error (-ENOENT)
          | some inode => .ok ⟨inode, node.fs⟩
        else .error (-ENOTDIR)

/-- Where names lead, one after another. -/
def resolve (s : Vfs) (node : FileNode) (names : List Name) : Except Int FileNode :=
  follow (nextNode s) node names

/-- What a lookup answers if the walk ends like this. -/
def answered (buf : FileNode) : Except Int FileNode → Except Stuck (Int × FileNode)
  | .error e => .ok (e, buf)
  | .ok node => .ok (0, node)

/-! ### A lookup is a walk over nodes -/

/-- What the lookup carries along is about the node that it is at. -/
def Knows (s : Vfs) (p : Place) : Prop :=
  ∃ f, s.header p.temp = some f ∧ p.info = f.info p.temp

/-- Both walks end in the same way. -/
inductive SameEnd (s : Vfs) : Except Halt Place → Except Int FileNode → Prop
  | ok {p : Place} (h : Knows s p) : SameEnd s (.ok p) (.ok p.temp)
  | failed (e : Int) : SameEnd s (.error (.failed e)) (.error e)

section Walks

variable {s : Vfs} {fuel : Nat}

theorem SameEnd.landing {r : Except Halt Place} {r' : Except Int FileNode} (h : SameEnd s r r')
    (buf : FileNode) : Fs.landing buf r = answered buf r' := by
  cases h with
  | ok hp => rfl
  | failed e => rfl

/-- What is found in a directory is a file. -/
theorem MountFree.found (h : MountFree s) {node : FileNode} {f : FileHeader} {name : Name}
    {inode : Nat} (hf : s.header node = some f) (hlookup : f.lookup name = some inode) :
    ∃ g, s.header ⟨inode, node.fs⟩ = some g := by
  unfold FileHeader.lookup at hlookup
  rcases hdata : f.data with dirs | b
  · rw [hdata] at hlookup
    obtain ⟨e, he, rfl⟩ := Option.map_eq_some_iff.mp hlookup
    have hmem := List.mem_of_find?_eq_some he
    exact Option.isSome_iff_exists.mp (h.named node f dirs hf hdata e hmem)
  · rw [hdata] at hlookup
    cases hlookup

/-- One name. -/
theorem MountFree.goName (h : MountFree s) (hturns : HasTurns s fuel) {p : Place} (hp : Knows s p)
    (name : Name) : SameEnd s (Fs.goName s fuel p name) (nextNode s p.temp name) := by
  obtain ⟨f, hf, hinfo⟩ := hp
  unfold Fs.goName nextNode
  by_cases hdot : name = ['.']
  · rw [if_pos hdot, if_pos hdot]
    exact .ok ⟨f, hf, hinfo⟩
  rw [if_neg hdot, if_neg hdot]
  by_cases hup : name = ['.', '.']
  · rw [if_pos hup, if_pos hup]
    exact .failed _
  rw [if_neg hup, if_neg hup, hf, hinfo]
  dsimp only
  by_cases htype : f.type = FS_DIR
  · obtain ⟨dirs, hdata⟩ := h.dirs _ f hf htype
    obtain ⟨b', hscan⟩ := scanDir_lookup hf htype hdata (hturns _ f dirs hf hdata) name p.buffer
    have hinfotype : (f.info p.temp).type = FS_DIR := htype
    rw [if_pos htype, if_pos hinfotype, hscan]
    rcases hlookup : f.lookup name with _ | inode
    · exact .failed _
    · obtain ⟨g, hg⟩ := h.found hf hlookup
      dsimp only
      rw [getInfo_of_header hg]
      dsimp only
      rw [followMount_zero s _ (show (g.info ⟨inode, p.temp.fs⟩).mountId = 0 from
        h.unmounted _ g hg)]
      exact .ok ⟨g, hg, rfl⟩
  · have hinfotype : (f.info p.temp).type ≠ FS_DIR := htype
    rw [if_neg htype, if_neg hinfotype]
    exact .failed _

theorem SameEnd.cases {r : Except Halt Place} {r' : Except Int FileNode} (h : SameEnd s r r') :
    (∃ p node, r = .ok p ∧ r' = .ok node) ∨ ∃ halt e, r = .error halt ∧ r' = .error e := by
  cases h with
  | ok hp => exact .inl ⟨_, _, rfl, rfl⟩
  | failed e => exact .inr ⟨_, e, rfl, rfl⟩

theorem MountFree.walk (h : MountFree s) (hturns : HasTurns s fuel) {names : List Name} {p : Place}
    (hp : Knows s p) : SameEnd s (Fs.walk s fuel p names) (resolve s p.temp names) := by
  refine follow_alike (fun _ _ => SameEnd.cases) (fun p node name hsame => ?_) (SameEnd.ok hp)
  cases hsame with
  | ok hp => exact h.goName hturns hp name

/-- **A lookup answers what the walk over nodes ends with.** -/
theorem MountFree.findPath (h : MountFree s) (hturns : HasTurns s fuel) (t : Nat) (path : Name)
    (buf : FileNode) : fsFindPath s fuel t path buf =
      answered buf (resolve s (startNode s t path) (pathNames path)) := by
  by_cases hnames : pathNames path = []
  · rw [fsFindPath_root s fuel t buf hnames, hnames]
    rfl
  · obtain ⟨f, hf⟩ := Option.isSome_iff_exists.mp (h.starts t path)
    rw [fsFindPath_eq s fuel t buf hnames]
    unfold locate
    rw [startAt_of_header hf]
    exact SameEnd.landing (h.walk hturns ⟨f, hf, rfl⟩) buf

end Walks

/-! ### Where paths lead -/

section Paths

variable {s : Vfs} {fuel t : Nat} {path : Name} {node : FileNode}

theorem nextNode_neg {name : Name} {e : Int} (h : nextNode s node name = .error e) : e < 0 := by
  unfold nextNode at h
  split at h
  · cases h
  split at h
  · exact Except.error.inj h ▸ (by decide)
  split at h
  · exact Except.error.inj h ▸ (by decide)
  split at h
  · split at h
    · exact Except.error.inj h ▸ (by decide)
    · cases h
  · exact Except.error.inj h ▸ (by decide)

theorem resolve_neg {e : Int} : ∀ {names : List Name} {node : FileNode},
    resolve s node names = .error e → e < 0 := by
  intro names
  induction names with
  | nil => intro node h; cases h
  | cons name rest ih =>
      intro node h
      unfold resolve at h
      rw [follow_cons] at h
      cases hstep : nextNode s node name with
      | error e' =>
          rw [hstep] at h
          exact Except.error.inj h ▸ nextNode_neg hstep
      | ok next =>
          rw [hstep] at h
          exact ih h

theorem MountFree.resolves_iff (h : MountFree s) (hturns : HasTurns s fuel) :
    Resolves s fuel t path node ↔
      resolve s (startNode s t path) (pathNames path) = .ok node := by
  unfold Resolves
  rw [h.findPath hturns]
  cases hends : resolve s (startNode s t path) (pathNames path) with
  | error e =>
      refine iff_of_false (fun heq => ?_) fun heq => nomatch heq
      have hzero : e = 0 := (Prod.mk.inj (Except.ok.inj heq)).1
      exact Int.ne_of_lt (resolve_neg hends) hzero
  | ok last =>
      exact ⟨fun heq => congrArg _ (Prod.mk.inj (Except.ok.inj heq)).2,
        fun heq => congrArg (answered ⟨0, 0⟩) heq⟩

theorem MountFree.fails_iff (h : MountFree s) (hturns : HasTurns s fuel) {e : Int} :
    Fails s fuel t path e ↔ resolve s (startNode s t path) (pathNames path) = .error e := by
  unfold Fails
  rw [h.findPath hturns]
  cases hends : resolve s (startNode s t path) (pathNames path) with
  | error e' =>
      constructor
      · rintro ⟨-, node, heq⟩
        exact congrArg _ (Prod.mk.inj (Except.ok.inj heq)).1
      · rintro heq
        obtain rfl := Except.error.inj heq
        exact ⟨resolve_neg hends, _, rfl⟩
  | ok last =>
      refine iff_of_false ?_ fun heq => nomatch heq
      rintro ⟨he, node, heq⟩
      have hzero : 0 = e := (Prod.mk.inj (Except.ok.inj heq)).1
      exact Int.ne_of_lt he hzero.symm

/-- What a path leads to is there. -/
theorem MountFree.header_of_resolves (h : MountFree s) (hres : Resolves s fuel t path node) :
    ∃ f, s.header node = some f := by
  refine Option.isSome_iff_exists.mp ?_
  obtain ⟨-, ⟨-, rfl⟩ | ⟨p, hp, rfl⟩⟩ := fsFindPath_found hres (Int.le_refl 0)
  · exact h.starts t path
  · obtain ⟨f, hf⟩ := Option.isSome_iff_exists.mp (h.starts t path)
    obtain ⟨head, hhead, hfile⟩ := Option.bind_eq_some_iff.mp hf
    obtain ⟨hfs, g, hg, -⟩ := locate_at hhead (h.closed hhead) rfl (by rw [hfile]; rfl) hp
    rw [header_of_ramfs (hfs ▸ hhead), hg]
    rfl

theorem resolve_append (front back : List Name) : resolve s node (front ++ back) =
    (resolve s node front).bind fun node => resolve s node back :=
  follow_append front back

/-- A dot leads nowhere else. -/
theorem resolve_dots : ∀ {names : List Name}, (∀ name ∈ names, name = ['.']) →
    resolve s node names = .ok node := by
  intro names
  induction names with
  | nil => intro _; rfl
  | cons name rest ih =>
      intro h
      obtain rfl := h name List.mem_cons_self
      exact ih fun n hn => h n (List.mem_cons_of_mem _ hn)

/-- **The walk to a path is the walk to its directory, and one name more.** -/
theorem resolve_last (hne : path ≠ []) (hnames : pathNames path ≠ []) :
    startNode s t path = startNode s t (dirPath path) ∧
      resolve s node (pathNames path) =
        (resolve s node (pathNames (dirPath path))).bind fun dir =>
          nextNode s dir (lastName path) := by
  obtain ⟨hstart, hsplit⟩ := pathNames_dirPath hne hnames
  constructor
  · unfold startNode
    simp only [hstart]
  · unfold resolve
    rcases hsplit with hsplit | ⟨hdir, hsplit⟩
    · rw [hsplit, follow_concat]
    · -- the dot leads nowhere else
      rw [hsplit, hdir]
      exact @follow_concat _ _ _ (nextNode s) node (lastName path) []

end Paths

/-! ### New file systems -/

theorem mountFree_boot {systems : List Nat} {fs root : Nat} (h : fs ∈ systems) :
    MountFree (Vfs.boot systems fs root) := by
  refine .of_files (fun t path => ?_) fun node f hf => ?_
  · have hstart : startNode (Vfs.boot systems fs root) t path = ⟨1, fs⟩ := by
      unfold startNode Vfs.boot
      dsimp only
      rw [Function.update_self, ite_self]
    have hhead : (Vfs.boot systems fs root).ramfs fs = some initRamfs := if_pos h
    rw [hstart, @header_of_ramfs _ ⟨1, fs⟩ _ hhead]
    rfl
  · obtain ⟨hdata, hmount⟩ := (fresh_boot systems fs root).header hf
    exact ⟨hmount, [], hdata, fun e he => absurd he List.not_mem_nil⟩

theorem hasTurns_boot (systems : List Nat) (fs root : Nat) :
    HasTurns (Vfs.boot systems fs root) 1 := by
  intro node f dirs hf hdata
  obtain rfl : [] = dirs :=
    FileData.entries.inj (((fresh_boot systems fs root).header hf).1.symm.trans hdata)
  exact Nat.zero_lt_one

/-! ### One file more -/

section OneMore

variable {s s' : Vfs} {dir new : FileNode} {name : Name} {type : Nat}

theorem lookup_enter {f : FileHeader} {dirs : List RamfsDirent} {e : RamfsDirent}
    (hdata : f.data = .entries dirs) (n : Name) :
    (f.enter dirs e).lookup n = (f.lookup n).or (if e.name = n then some e.inode else none) := by
  unfold FileHeader.lookup
  rw [hdata]
  show ((dirs ++ [e]).find? _).map _ = _
  rw [List.find?_append, Option.map_or, List.find?_singleton]
  split
  · rename_i hname
    rw [if_pos (of_decide_eq_true hname)]
    rfl
  · rename_i hname
    rw [if_neg (fun h => hname (decide_eq_true h))]
    rfl

/-- A name is found exactly if there is an entry for it. -/
theorem lookup_eq_none {f : FileHeader} {n : Name} : f.lookup n = none ↔ n ∉ f.entryNames := by
  unfold FileHeader.lookup FileHeader.entryNames
  rcases f.data with dirs | b
  · dsimp only
    rw [Option.map_eq_none_iff, List.find?_eq_none, List.mem_map]
    constructor
    · rintro h ⟨e, he, hname⟩
      exact h e he (decide_eq_true hname)
    · exact fun h e he hname => h ⟨e, he, of_decide_eq_true hname⟩
  · exact iff_of_true rfl List.not_mem_nil

theorem nextNode_dir {node : FileNode} {f : FileHeader} (hf : s.header node = some f)
    (htype : f.type = FS_DIR) (hdot : name ≠ ['.']) (hup : name ≠ ['.', '.']) :
    nextNode s node name = match f.lookup name with
      | none => .error (-ENOENT)
      | some inode => .ok ⟨inode, node.fs⟩ := by
  unfold nextNode
  rw [if_neg hdot, if_neg hup, hf]
  exact if_pos htype

/-- Only a name that is looked up can lead elsewhere than before. -/
theorem Created.nextNode (hc : Created s s' dir new name type) {node : FileNode} (n : Name)
    (hnode : node ≠ new)
    (hother : node ≠ dir ∨ n ≠ name ∨ n = ['.'] ∨ n = ['.', '.']) :
    Fs.nextNode s' node n = Fs.nextNode s node n := by
  obtain ⟨f, dirs, e, g, hdir, htype, hdata, hinode, hname, -, -, -, hfiles⟩ := hc.files
  unfold Fs.nextNode
  by_cases hdot : n = ['.']
  · rw [if_pos hdot, if_pos hdot]
  rw [if_neg hdot, if_neg hdot]
  by_cases hup : n = ['.', '.']
  · rw [if_pos hup, if_pos hup]
  rw [if_neg hup, if_neg hup, hfiles, if_neg hnode]
  by_cases hhere : node = dir
  · have hn : e.name ≠ n := fun h => by
      rcases hother with h₁ | h₂ | h₃ | h₄
      · exact h₁ hhere
      · exact h₂ (h.symm.trans hname)
      · exact hdot h₃
      · exact hup h₄
    rw [hhere, hdir, Option.map_some, if_pos rfl]
    dsimp only
    rw [lookup_enter hdata, if_neg hn, Option.or_none]
    rfl
  · simp only [if_neg hhere, Option.map_id']

/-- **A file that is made adds one name to the graph.** -/
theorem Created.graph (hc : Created s s' dir new name type) (h : MountFree s)
    (hfree : EntryFree s dir name) (hdot : name ≠ ['.']) (hup : name ≠ ['.', '.']) :
    Extends (Fs.nextNode s) (Fs.nextNode s') dir name new (-ENOENT) := by
  obtain ⟨f, dirs, e, g, hdir, htype, hdata, hinode, hname, -, -, -, hfiles⟩ := hc.files
  have hlookup := lookup_eq_none.mpr (hfree f hdir)
  have hne : dir ≠ new := fun heq => by
    rw [heq, hc.old] at hdir
    cases hdir
  refine ⟨fun node n hnode hother => hc.nextNode n hnode ?_, ?_, ?_, fun node n hnode hnew => ?_⟩
  · by_cases hhere : node = dir
    · exact .inr (.inl fun hn => hother ⟨hhere, hn⟩)
    · exact .inl hhere
  · rw [nextNode_dir hdir htype hdot hup, hlookup]
  · have hdir' : s'.header dir = some (f.enter dirs e) := by
      rw [hfiles, if_neg hne, hdir, Option.map_some, if_pos rfl]
    rw [nextNode_dir hdir' htype hdot hup, lookup_enter hdata, hlookup, Option.none_or,
      if_pos hname]
    dsimp only
    rw [hinode, ← hc.fs]
  · -- nothing that is there leads to what is not
    unfold Fs.nextNode at hnew
    split at hnew
    · exact hnode (Except.ok.inj hnew)
    split at hnew
    · cases hnew
    split at hnew
    · cases hnew
    rename_i f' hf'
    split at hnew
    · split at hnew
      · cases hnew
      · rename_i inode hfound
        obtain ⟨g', hg'⟩ := h.found hf' hfound
        rw [Except.ok.inj hnew, hc.old] at hg'
        cases hg'
    · cases hnew

theorem Created.header_new (hc : Created s s' dir new name type) :
    ∃ g, s'.header new = some g ∧ g.type = type ∧ g.data = .entries [] := by
  obtain ⟨f, dirs, e, g, -, -, -, -, -, htype, -, hdata, hfiles⟩ := hc.files
  exact ⟨g, (hfiles new).trans (if_pos rfl), htype, hdata⟩

/-- From the new file only dots lead on. -/
theorem Created.nextNode_new (hc : Created s s' dir new name type) {n : Name} (hn : n ≠ ['.']) :
    ∃ e, Fs.nextNode s' new n = .error e := by
  obtain ⟨g, hg, -, hdata⟩ := hc.header_new
  unfold Fs.nextNode
  rw [if_neg hn, hg]
  dsimp only
  split
  · exact ⟨_, rfl⟩
  split
  · unfold FileHeader.lookup
    rw [hdata]
    exact ⟨_, rfl⟩
  · exact ⟨_, rfl⟩

theorem Created.resolve_behind (hc : Created s s' dir new name type) :
    ∀ {back : List Name}, (∃ n ∈ back, n ≠ ['.']) → ∃ e, resolve s' new back = .error e := by
  intro back
  induction back with
  | nil =>
      rintro ⟨n, hn, -⟩
      cases hn
  | cons m rest ih =>
      rintro ⟨n, hn, hne⟩
      unfold resolve
      rw [follow_cons]
      by_cases hm : m = ['.']
      · subst hm
        rcases List.mem_cons.mp hn with rfl | hrest
        · exact absurd rfl hne
        · exact ih ⟨n, hrest, hne⟩
      · obtain ⟨e, he⟩ := hc.nextNode_new hm
        exact ⟨e, by rw [he]; rfl⟩

/-- The headers that there are: the new one, and the old ones with an entry more in one of them. -/
theorem Created.header_cases (hc : Created s s' dir new name type) {node : FileNode}
    {f' : FileHeader} (hf' : s'.header node = some f') :
    (node = new ∧ f'.mountId = 0 ∧ f'.data = .entries []) ∨
      ∃ f, s.header node = some f ∧ f'.mountId = f.mountId ∧ f'.type = f.type ∧
        (f'.data = f.data ∨ node = dir ∧ ∃ dirs e, f.data = .entries dirs ∧
          e.inode = new.inode ∧ f'.data = .entries (dirs ++ [e])) := by
  obtain ⟨f, dirs, e, g, hdir, -, hdata, hinode, -, -, hmount, hnil, hfiles⟩ := hc.files
  rw [hfiles] at hf'
  split at hf'
  · rename_i hnew
    obtain rfl := Option.some.inj hf'
    exact .inl ⟨hnew, hmount, hnil⟩
  · obtain ⟨h, hh, rfl⟩ := Option.map_eq_some_iff.mp hf'
    refine .inr ⟨h, hh, ?_⟩
    split
    · rename_i hhere
      obtain rfl : f = h := Option.some.inj (hdir.symm.trans (hhere ▸ hh))
      exact ⟨rfl, rfl, .inr ⟨hhere, dirs, e, hdata, hinode, rfl⟩⟩
    · exact ⟨rfl, rfl, .inl rfl⟩

theorem Created.header_isSome (hc : Created s s' dir new name type) {node : FileNode}
    (h : (s.header node).isSome) : (s'.header node).isSome := by
  obtain ⟨f, dirs, e, g, -, -, -, -, -, -, -, -, hfiles⟩ := hc.files
  rw [hfiles]
  split
  · rfl
  · rwa [Option.isSome_map]

theorem Created.mountFree (hc : Created s s' dir new name type) (h : MountFree s)
    (hstart : ∀ t path, startNode s' t path = startNode s t path) : MountFree s' := by
  refine ⟨fun t path => ?_, fun node f' hf' => ?_, fun node f' hf' htype => ?_,
    fun node f' dirs' hf' hdata' e he => ?_⟩
  · rw [hstart]
    exact hc.header_isSome (h.starts t path)
  · rcases hc.header_cases hf' with ⟨-, hmount, -⟩ | ⟨f, hf, hmount, -⟩
    · exact hmount
    · exact hmount.trans (h.unmounted node f hf)
  · rcases hc.header_cases hf' with ⟨-, -, hdata⟩ | ⟨f, hf, -, hftype, hdata | hdata⟩
    · exact ⟨[], hdata⟩
    · rw [hdata]
      exact h.dirs node f hf (hftype ▸ htype)
    · obtain ⟨-, dirs, e, -, -, hdata⟩ := hdata
      exact ⟨_, hdata⟩
  · rcases hc.header_cases hf' with ⟨-, -, hdata⟩ | ⟨f, hf, -, -, hdata | hdata⟩
    · obtain rfl : [] = dirs' := FileData.entries.inj (hdata.symm.trans hdata')
      cases he
    · exact hc.header_isSome (h.named node f dirs' hf (hdata ▸ hdata') e he)
    · obtain ⟨rfl, dirs, e', hold, hinode, hdata⟩ := hdata
      obtain rfl : dirs ++ [e'] = dirs' := FileData.entries.inj (hdata.symm.trans hdata')
      rcases List.mem_append.mp he with he | he
      · exact hc.header_isSome (h.named node f dirs hf hold e he)
      · obtain ⟨g, hg, -⟩ := hc.header_new
        have hnew : (⟨e.inode, node.fs⟩ : FileNode) = new := by
          rw [List.mem_singleton.mp he, hinode, ← hc.fs]
        rw [hnew, hg]
        rfl

theorem Created.hasTurns (hc : Created s s' dir new name type) {turns fuel : Nat}
    (h : HasTurns s turns) (hfuel : turns < fuel) : HasTurns s' fuel := by
  intro node f' dirs' hf' hdata'
  rcases hc.header_cases hf' with ⟨-, -, hdata⟩ | ⟨f, hf, -, -, hdata | hdata⟩
  · obtain rfl : [] = dirs' := FileData.entries.inj (hdata.symm.trans hdata')
    exact Nat.lt_of_le_of_lt (Nat.zero_le _) hfuel
  · exact Nat.lt_trans (h node f dirs' hf (hdata ▸ hdata')) hfuel
  · obtain ⟨-, dirs, e, hold, -, hdata⟩ := hdata
    obtain rfl : dirs ++ [e] = dirs' := FileData.entries.inj (hdata.symm.trans hdata')
    have hlen := h node f dirs hf hold
    rw [List.length_append, List.length_singleton]
    omega

theorem HasTurns.mono {turns fuel : Nat} (h : HasTurns s turns) (hfuel : turns ≤ fuel) :
    HasTurns s fuel :=
  fun node f dirs hf hdata => Nat.lt_of_lt_of_le (h node f dirs hf hdata) hfuel

end OneMore

end OsThing.Fs
