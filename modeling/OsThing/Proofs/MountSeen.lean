/-
Which mounts are seen.

`fs_mount` leaves its id at the node that is mounted over, and a walk follows the id of the
entry it has just found, once.  So a walk that comes to the node by its own entry goes on
at the new node.  One that comes to it through another mount does not, and since a new
registration takes away the node of the one before it, it does not even get there again.
-/
import OsThing.Proofs.OpenFrame
import OsThing.Proofs.Trails

namespace OsThing.Fs

open Runs

/-- The mount id is none, or was given out. -/
def OldId (ns : List FileNode) (info : FileInfo) : Prop :=
  info.mountId = 0 ∨ ∃ i < ns.length, info.mountId = i + 2

/-- The nodes `ns` were registered, and all mount ids are theirs. -/
structure MountIds (s : Vfs) (ns : List FileNode) : Prop where
  mounts : Registered s.mounts ns
  ids : ∀ node f, s.header node = some f → f.mountId = 0 ∨ ∃ i < ns.length, f.mountId = i + 2

/-! ### One turn before and after -/

theorem getInfo_congr {s s' : Vfs} {node : FileNode} (h : s'.header node = s.header node)
    (hsystem : (s'.ramfs node.fs).isSome = (s.ramfs node.fs).isSome) (buf : FileInfo) :
    s'.getInfo node buf = s.getInfo node buf := by
  rcases hinfo : s.getInfo node buf with _ | info
  · unfold Vfs.getInfo at hinfo ⊢
    rw [Option.map_eq_none_iff.mp hinfo] at hsystem
    rw [Option.map_eq_none_iff]
    exact Option.not_isSome_iff_eq_none.mp (Bool.eq_false_iff.mp hsystem)
  · have hsome : (s.ramfs node.fs).isSome := by
      unfold Vfs.getInfo at hinfo
      obtain ⟨head, hhead, -⟩ := Option.map_eq_some_iff.mp hinfo
      exact Option.isSome_of_eq_some hhead
    obtain ⟨head', hhead'⟩ := Option.isSome_iff_exists.mp (hsystem.trans hsome)
    have hinfo' : s'.getInfo node buf = some (ramfsGetInfo head' node buf).2 := by
      unfold Vfs.getInfo
      rw [hhead', Option.map_some]
    rw [hinfo', getInfo_eq_some hinfo', h, ← getInfo_eq_some hinfo]

theorem MountIds.start {s : Vfs} {ns : List FileNode} (h : MountIds s ns) {node : FileNode}
    {p : Place} (hstart : startAt s node = .ok p) : OldId ns p.info := by
  unfold startAt at hstart
  split at hstart
  · cases hstart
  · rename_i info hinfo
    obtain rfl := Except.ok.inj hstart
    show OldId ns info
    rw [getInfo_eq_some hinfo]
    rcases hheader : s.header node with _ | f
    · exact Or.inl rfl
    · exact h.ids node f hheader

theorem MountIds.goName {s : Vfs} {ns : List FileNode} (h : MountIds s ns) {fuel : Nat}
    (p q : Place) (name : Name) (hp : OldId ns p.info) (hgo : goName s fuel p name = .ok q) :
    OldId ns q.info := by
  by_cases hdot : name = ['.']
  · rw [eq_of_goName_dot hdot hgo]
    exact hp
  · obtain ⟨-, -, -, hinfo, -⟩ := goName_entry hdot hgo
    rw [getInfo_eq_some hinfo]
    rcases hheader : s.header ⟨q.buffer.inode, p.temp.fs⟩ with _ | f
    · exact hp
    · exact h.ids _ f hheader

/-- `s'` is `s` after `b` was mounted over `a`. -/
structure Mounted (s s' : Vfs) (ns : List FileNode) (a b : FileNode) : Prop where
  before : MountIds s ns
  isFile : (s.header a).isSome
  mounts : Registered s'.mounts (ns ++ [b])
  zeroPage : s'.zeroPage = s.zeroPage
  tasks : s'.tasks = s.tasks
  nodes : s'.nodes = s.nodes
  systems : ∀ fs, (s'.ramfs fs).isSome = (s.ramfs fs).isSome
  header : ∀ node, s'.header node = (s.header node).map fun f =>
    if node = a then { f with mountId := ns.length + 2 } else f

theorem MountIds.mounted {s s' : Vfs} {ns : List FileNode} {a b : FileNode} {ret : Int}
    (h : MountIds s ns) (hmount : s.fsMount a b = some (ret, s')) : Mounted s s' ns a b := by
  obtain ⟨hzero, hmounts, hheader⟩ := fsMount_header hmount h.mounts
  obtain ⟨id, mounts, head, f, -, hhead, hf, rfl⟩ := fsMount_spec hmount
  refine ⟨h, ?_, hmounts, hzero, rfl, rfl, fun fs => ?_, hheader⟩
  · rw [header_of_ramfs hhead, hf]
    rfl
  · unfold Vfs.setRamfs
    dsimp only
    rw [Function.update_apply]
    split
    · rename_i hfs
      rw [hfs, hhead]
      rfl
    · rfl

variable {s s' : Vfs} {ns : List FileNode} {a b : FileNode}

theorem Mounted.header_ne (hm : Mounted s s' ns a b) {node : FileNode} (hne : node ≠ a) :
    s'.header node = s.header node := by
  rw [hm.header]
  simp only [if_neg hne, Option.map_id']

/-- The file that is mounted over, before and after. -/
theorem Mounted.header_self (hm : Mounted s s' ns a b) :
    ∃ f, s.header a = some f ∧ s'.header a = some { f with mountId := ns.length + 2 } := by
  obtain ⟨f, hf⟩ := Option.isSome_iff_exists.mp hm.isFile
  refine ⟨f, hf, ?_⟩
  rw [hm.header, hf, Option.map_some, if_pos rfl]

/-- What can be read from a directory does not depend on mounts. -/
theorem Mounted.scanDir (hm : Mounted s s' ns a b) (name : Name) (temp : FileNode) (fuel : Nat)
    (d : Int) (dir : Dirent) :
    scanDir s' name temp fuel d dir = scanDir s name temp fuel d dir := by
  refine scanDir_congr (fun dirp entry => ?_) name fuel d dir
  rw [readdir_eq, readdir_eq, hm.header]
  rcases s.header temp with _ | f
  · rfl
  · rw [Option.map_some, Option.bind_some, Option.bind_some]
    split
    · rfl
    · rfl

/-- An old mount leads to address 0 from now on, wherever it led before. -/
theorem Mounted.followMount_old (hm : Mounted s s' ns a b) {info : FileInfo}
    (hid : OldId ns info) (node : FileNode) :
    followMount s' info node = .ok (if info.mountId = 0 then node else s.zeroPage) := by
  rcases hid with hid | ⟨i, hi, hid⟩
  · rw [if_pos hid]
    exact followMount_zero s' node hid
  · have hlen : (ns ++ [b]).length = ns.length + 1 := List.length_append
    rw [OsThing.Fs.followMount_old hm.mounts (by omega) hid, mountTarget_lost s' b hi, hm.zeroPage,
      if_neg (by omega)]

/-- A turn that finds another entry than that of `a`. -/
theorem Mounted.goName_ne (hm : Mounted s s' ns a b) {fuel : Nat} {p q : Place} {name : Name}
    (hp : OldId ns p.info) (hdot : name ≠ ['.']) (hgo : goName s fuel p name = .ok q)
    (hne : (⟨q.buffer.inode, p.temp.fs⟩ : FileNode) ≠ a) :
    goName s' fuel p name = .ok ⟨if q.info.mountId = 0 then q.temp else s.zeroPage,
      q.info, q.buffer⟩ := by
  obtain ⟨hup, hdir, hscan, hinfo, -⟩ := goName_entry hdot hgo
  have hid := hm.before.goName p q name hp hgo
  unfold goName
  rw [if_neg hdot, if_neg hup, if_pos hdir, hm.scanDir, hscan]
  dsimp only
  rw [getInfo_congr (hm.header_ne hne) (hm.systems _), hinfo]
  dsimp only
  rw [hm.followMount_old hid]
  dsimp only
  split
  · rename_i hzero
    rw [temp_of_unmounted hdot hgo hzero]
  · rfl

/-- A turn that finds the entry of `a`. -/
theorem Mounted.goName_eq (hm : Mounted s s' ns a b) {fuel : Nat} {p q : Place} {name : Name}
    (hdot : name ≠ ['.']) (hgo : goName s fuel p name = .ok q)
    (heq : (⟨q.buffer.inode, p.temp.fs⟩ : FileNode) = a) :
    ∃ info, goName s' fuel p name = .ok ⟨b, info, q.buffer⟩ ∧ info.type = q.info.type := by
  obtain ⟨hup, hdir, hscan, hinfo, -⟩ := goName_entry hdot hgo
  obtain ⟨f, hf, hf'⟩ := hm.header_self
  rw [heq, getInfo_of_header hf] at hinfo
  have hfollow : followMount s' ({ f with mountId := ns.length + 2 }.info a) a = .ok b := by
    have hlen : (ns ++ [b]).length = ns.length + 1 := List.length_append
    rw [OsThing.Fs.followMount_old hm.mounts (Nat.lt_of_lt_of_eq (Nat.lt_succ_self _) hlen.symm) rfl,
      mountTarget_last]
  refine ⟨{ f with mountId := ns.length + 2 }.info a, ?_, ?_⟩
  · unfold goName
    rw [if_neg hdot, if_neg hup, if_pos hdir, hm.scanDir, hscan]
    dsimp only
    rw [heq, getInfo_of_header hf']
    dsimp only
    rw [hfollow]
  · rw [← Option.some.inj hinfo]
    rfl

/-- An error stays the same error. -/
theorem Mounted.goName_failed (hm : Mounted s s' ns a b) {fuel : Nat} {p : Place} {name : Name}
    {err : Int} (h : goName s fuel p name = .error (.failed err)) :
    goName s' fuel p name = .error (.failed err) := by
  obtain ⟨hdot, ⟨hup, rfl⟩ | ⟨hdir, rfl⟩ | ⟨hup, hdir, rfl, dir, hscan⟩⟩ := OsThing.Fs.goName_failed h
  · unfold goName
    rw [if_neg hdot, if_pos hup]
  · unfold goName
    rw [if_neg hdot, if_neg hdir]
    split
    · rfl
    · rfl
  · unfold goName
    rw [if_neg hdot, if_neg hup, if_pos hdir, hm.scanDir, hscan]

/-! ### Where a walk starts -/

/-- The two places are the same, but for what a walk knows of a directory besides its type. -/
structure Alike (s : Vfs) (p p' : Place) : Prop where
  temp : p'.temp = p.temp
  buffer : p'.buffer = p.buffer
  type : p'.info.type = p.info.type
  known : p'.info = p.info ∨ (p.info.type = FS_DIR → IsDir s p.temp)

/-- A name leads on to the same place from both. -/
theorem Alike.goName {s : Vfs} {p p' : Place} (h : Alike s p p') (hentries : EntriesNamed s)
    {fuel : Nat} {name : Name} (hdot : name ≠ ['.']) :
    goName s fuel p' name = goName s fuel p name := by
  unfold OsThing.Fs.goName
  rw [if_neg hdot, if_neg hdot, h.temp, h.buffer, h.type]
  split
  · rfl
  split
  · rename_i hdir
    rcases hscan : OsThing.Fs.scanDir s name p.temp fuel 0 p.buffer with stuck | ⟨_ | inode, dir⟩
    · rfl
    · rfl
    have hinfo : s.getInfo ⟨inode, p.temp.fs⟩ p'.info = s.getInfo ⟨inode, p.temp.fs⟩ p.info := by
      rcases h.known with hsame | hknown
      · rw [hsame]
      · obtain ⟨f, hf, htype⟩ := hknown hdir
        obtain ⟨dirs, hdata, hfound⟩ := scanDir_dir hf htype hscan
        obtain ⟨e, he, rfl⟩ := Option.map_eq_some_iff.mp hfound.symm
        obtain ⟨g, hg⟩ := Option.isSome_iff_exists.mp
          (hentries _ f dirs hf hdata e (List.mem_of_find?_eq_some he)).2
        rw [getInfo_of_header hg, getInfo_of_header hg]
    dsimp only
    rw [hinfo]
  · rfl

/-- And so does a path, unless it goes nowhere. -/
theorem Alike.walk {s : Vfs} {p p' : Place} (h : Alike s p p') (hentries : EntriesNamed s)
    {fuel : Nat} : ∀ names : List Name,
      walk s fuel p' names = walk s fuel p names ∨
        (walk s fuel p' names = .ok p' ∧ walk s fuel p names = .ok p ∧
          ∀ name ∈ names, name = ['.']) := by
  intro names
  induction names with
  | nil => exact Or.inr ⟨rfl, rfl, fun name hname => absurd hname List.not_mem_nil⟩
  | cons name rest ih =>
      rw [walk_cons, walk_cons]
      by_cases hdot : name = ['.']
      · have hstay : ∀ p : Place, OsThing.Fs.goName s fuel p name = .ok p := fun p => if_pos hdot
        rw [hstay, hstay]
        rcases ih with hsame | ⟨hp', hp, hdots⟩
        · exact Or.inl hsame
        · refine Or.inr ⟨hp', hp, fun n hn => ?_⟩
          rcases List.mem_cons.mp hn with rfl | hn
          · exact hdot
          · exact hdots n hn
      · rw [h.goName hentries hdot]
        exact Or.inl rfl

/-- A walk that ends with a name ends at the same place. -/
theorem Alike.walk_name {s : Vfs} {p p' : Place} (h : Alike s p p') (hentries : EntriesNamed s)
    {fuel : Nat} {names : List Name} {name : Name} (hdot : name ≠ ['.']) :
    OsThing.Fs.walk s fuel p' (names ++ [name]) = OsThing.Fs.walk s fuel p (names ++ [name]) := by
  rcases h.walk hentries (names ++ [name]) with hsame | ⟨-, -, hdots⟩
  · exact hsame
  · exact absurd (hdots name (List.mem_append_right _ (List.mem_singleton_self _))) hdot

theorem Mounted.startAt (hm : Mounted s s' ns a b) {node : FileNode} {p : Place}
    (h : startAt s node = .ok p) : p.temp = node ∧
      ∃ p', startAt s' node = .ok p' ∧ Alike s' p p' := by
  unfold OsThing.Fs.startAt at h
  split at h
  · cases h
  rename_i info hinfo
  obtain rfl := Except.ok.inj h
  refine ⟨rfl, ?_⟩
  unfold OsThing.Fs.startAt
  by_cases hne : node = a
  · subst hne
    obtain ⟨f, hf, hf'⟩ := hm.header_self
    rw [getInfo_of_header hf] at hinfo
    obtain rfl := Option.some.inj hinfo
    rw [getInfo_of_header hf']
    exact ⟨_, rfl, rfl, rfl, rfl, Or.inr fun htype => ⟨_, hf', htype⟩⟩
  · rw [getInfo_congr (hm.header_ne hne) (hm.systems _), hinfo]
    exact ⟨_, rfl, rfl, rfl, rfl, Or.inl rfl⟩

/-! ### Paths that keep clear of the mount -/

/-- A walk that neither comes to `a` nor goes through a mount that is lost. -/
theorem Mounted.walk_same (hm : Mounted s s' ns a b) {fuel : Nat} {r : Except Halt Place}
    (hr : ∀ stuck, r ≠ .error (.stuck stuck)) :
    ∀ {names : List Name} {p : Place}, OldId ns p.info →
      (∀ e ∈ trail s fuel names p,
        e.1 ≠ a ∧ (e.2.info.mountId = 0 ∨ e.2.temp = s.zeroPage)) →
      walk s fuel p names = r → walk s' fuel p names = r := by
  intro names
  induction names with
  | nil => intro p _ _ h; exact h
  | cons name rest ih =>
      intro p hp htrail h
      rw [walk_cons] at h ⊢
      by_cases hdot : name = ['.']
      · subst hdot
        rw [trail_dot] at htrail
        exact ih hp htrail h
      rcases hgo : goName s fuel p name with (stuck | err) | q
      · rw [hgo] at h
        exact absurd h.symm (hr stuck)
      · rw [hgo] at h
        rw [hm.goName_failed hgo]
        exact h
      · rw [hgo] at h
        rw [trail_name hdot hgo] at htrail
        obtain ⟨hne, hmount⟩ := htrail _ List.mem_cons_self
        have htemp : (if q.info.mountId = 0 then q.temp else s.zeroPage) = q.temp := by
          split
          · rfl
          · rename_i hid
            exact (hmount.resolve_left hid).symm
        rw [hm.goName_ne hp hdot hgo hne, htemp]
        exact ih (hm.before.goName p q name hp hgo)
          (fun e he => htrail e (List.mem_cons_of_mem _ he)) h

/-- The lookup comes to `a`, by its entry or through a mount. -/
def PassesThrough (fuel : Nat) (s : Vfs) (t : Nat) (path : Name) (a : FileNode) : Prop :=
  ∃ e ∈ trailOf s fuel t path, e.1 = a ∨ e.2.temp = a

/-- The lookup goes through a mount that leads elsewhere than to address 0. -/
def ThroughMount (fuel : Nat) (s : Vfs) (t : Nat) (path : Name) : Prop :=
  ∃ e ∈ trailOf s fuel t path, e.2.info.mountId ≠ 0 ∧ e.2.temp ≠ s.zeroPage

/-- The last entry of the lookup is that of `a`, and it does not come to `a` before. -/
def Direct (fuel : Nat) (s : Vfs) (t : Nat) (path : Name) (a : FileNode) : Prop :=
  ∃ before q, trailOf s fuel t path = before ++ [(a, q)] ∧
    ∀ e ∈ before, e.1 ≠ a ∧ e.2.temp ≠ a

/-- `b` is seen where `a` was, and nothing else is changed. -/
structure MountSeen (fuel : Nat) (s s' : Vfs) (a b : FileNode) : Prop where
  visible : ∀ t path, EndsInName path → Resolves s fuel t path a → Resolves s' fuel t path b
  others : ∀ t path buf r, ¬ PassesThrough fuel s t path a →
    fsFindPath s fuel t path buf = .ok r → fsFindPath s' fuel t path buf = .ok r

/-- No path that keeps clear of `a` needs another mount, and the paths to `a` come to it by
its entry, at their end. -/
structure MountSafe (fuel : Nat) (s : Vfs) (a : FileNode) : Prop where
  others : ∀ t path, ¬ PassesThrough fuel s t path a → ¬ ThroughMount fuel s t path
  direct : ∀ t path, EndsInName path → Resolves s fuel t path a → Direct fuel s t path a

theorem Mounted.startNode (hm : Mounted s s' ns a b) (t : Nat) (path : Name) :
    startNode s' t path = startNode s t path := by
  unfold OsThing.Fs.startNode
  rw [hm.tasks, hm.nodes]

theorem clear_of {fuel t : Nat} {path : Name} (hpass : ¬ PassesThrough fuel s t path a)
    (hthrough : ¬ ThroughMount fuel s t path) :
    ∀ e ∈ trailOf s fuel t path, e.1 ≠ a ∧ (e.2.info.mountId = 0 ∨ e.2.temp = s.zeroPage) := by
  intro e he
  refine ⟨fun heq => hpass ⟨e, he, Or.inl heq⟩, ?_⟩
  by_cases hid : e.2.info.mountId = 0
  · exact Or.inl hid
  · exact Or.inr (not_not.mp fun hne => hthrough ⟨e, he, hid, hne⟩)

/-- A path to `a` keeps clear as long as it has not come there. -/
theorem clear_init {fuel t : Nat} {path name : Name} {names : List Name} {p : Place}
    (hnames : pathNames path = names ++ [name])
    (hstart : OsThing.Fs.startAt s (OsThing.Fs.startNode s t path) = .ok p)
    (hpass : ∀ e ∈ trail s fuel names p, e.1 ≠ a ∧ e.2.temp ≠ a)
    (hothers : ∀ dir, pathNames dir = names → ¬ PassesThrough fuel s t dir a →
      ¬ ThroughMount fuel s t dir) :
    ∀ e ∈ trail s fuel names p, e.1 ≠ a ∧ (e.2.info.mountId = 0 ∨ e.2.temp = s.zeroPage) := by
  rcases @exists_dir_trail s fuel t path name names p hnames hstart with rfl | ⟨dir, hdir, htrail⟩
  · exact fun e he => absurd he List.not_mem_nil
  · have hdirPass : ¬ PassesThrough fuel s t dir a := by
      rintro ⟨e, he, hea⟩
      rw [htrail] at he
      exact hea.elim (hpass e he).1 (hpass e he).2
    rw [← htrail]
    exact clear_of hdirPass (hothers dir hdir hdirPass)

/-- A path that keeps clear resolves as before. -/
theorem Mounted.find_same (hm : Mounted s s' ns a b) (hentries : EntriesNamed s') {fuel t : Nat}
    {path : Name} {buf : FileNode} {r : Int × FileNode}
    (hclear : ∀ e ∈ trailOf s fuel t path,
      e.1 ≠ a ∧ (e.2.info.mountId = 0 ∨ e.2.temp = s.zeroPage))
    (h : fsFindPath s fuel t path buf = .ok r) : fsFindPath s' fuel t path buf = .ok r := by
  by_cases hnames : pathNames path = []
  · rw [fsFindPath_root s fuel t buf hnames] at h
    rw [fsFindPath_root s' fuel t buf hnames, hm.startNode]
    exact h
  rw [fsFindPath_eq s fuel t buf hnames] at h
  rw [fsFindPath_eq s' fuel t buf hnames]
  unfold locate at h ⊢
  rcases hstart : OsThing.Fs.startAt s (OsThing.Fs.startNode s t path) with (stuck | err) | p
  · rw [hstart] at h
    cases h
  · exact absurd hstart (startAt_not_failed _ _ _)
  rw [hstart] at h
  have h : landing buf (walk s fuel p (pathNames path)) = .ok r := h
  rw [trailOf_eq rfl hstart] at hclear
  obtain ⟨-, p', hstart', halike⟩ := hm.startAt hstart
  rw [hm.startNode, hstart']
  show landing buf (walk s' fuel p' (pathNames path)) = .ok r
  have hsame : walk s' fuel p (pathNames path) = walk s fuel p (pathNames path) := by
    refine hm.walk_same (fun stuck hstuck => ?_) (hm.before.start hstart) hclear rfl
    rw [hstuck] at h
    cases h
  rcases halike.walk hentries (pathNames path) with hwalk | ⟨hp', hp, -⟩
  · rw [hwalk, hsame]
    exact h
  · rw [← hsame, hp] at h
    rw [hp', ← h]
    exact congrArg (fun node => Except.ok (0, node)) halike.temp

/-- Where a lookup that resolves has got to. -/
theorem Resolves.locate {s : Vfs} {fuel t : Nat} {path : Name} {node : FileNode}
    (h : Resolves s fuel t path node) (hnames : pathNames path ≠ []) :
    ∃ q, locate s fuel t path = .ok q ∧ q.temp = node := by
  unfold Resolves at h
  rw [fsFindPath_eq s fuel t _ hnames] at h
  rcases hlocate : OsThing.Fs.locate s fuel t path with (stuck | err) | q
  · rw [hlocate] at h
    cases h
  · rw [hlocate] at h
    obtain ⟨rfl, -⟩ := Prod.mk.inj (Except.ok.inj h)
    exact absurd (locate_failed_neg hlocate) (Int.lt_irrefl 0)
  · rw [hlocate] at h
    exact ⟨q, rfl, (Prod.mk.inj (Except.ok.inj h)).2⟩

/-- How a lookup that resolves goes, when the path ends in a name. -/
theorem Resolves.last {s : Vfs} {fuel t : Nat} {path name : Name} {names : List Name}
    {node : FileNode} (h : Resolves s fuel t path node) (hnames : pathNames path = names ++ [name]) :
    ∃ p p₁ q, OsThing.Fs.startAt s (OsThing.Fs.startNode s t path) = .ok p ∧
      walk s fuel p names = .ok p₁ ∧ OsThing.Fs.goName s fuel p₁ name = .ok q ∧ q.temp = node := by
  obtain ⟨q, hq, htemp⟩ := h.locate (names_ne_nil hnames)
  obtain ⟨p, p₁, hstart, hwalk, hgo⟩ := locate_name hnames hq
  exact ⟨p, p₁, q, hstart, hwalk, hgo, htemp⟩

/-- Where a path leads afterwards, by a walk from where it started before. -/
theorem Mounted.find_after (hm : Mounted s s' ns a b) (hentries : EntriesNamed s') {fuel t : Nat}
    {path name : Name} {names : List Name} {p q : Place}
    (hnames : pathNames path = names ++ [name]) (hdot : name ≠ ['.'])
    (hstart : OsThing.Fs.startAt s (OsThing.Fs.startNode s t path) = .ok p)
    (hwalk : walk s' fuel p (names ++ [name]) = .ok q) (buf : FileNode) :
    fsFindPath s' fuel t path buf = .ok (0, q.temp) := by
  obtain ⟨-, p', hstart', halike⟩ := hm.startAt hstart
  rw [← hm.startNode] at hstart'
  exact find_of_walk hnames hstart' ((halike.walk_name hentries hdot).trans hwalk) buf

/-- **A safe mount is seen.** -/
theorem Mounted.seen (hm : Mounted s s' ns a b) (hentries : EntriesNamed s') {fuel : Nat}
    (hsafe : MountSafe fuel s a) : MountSeen fuel s s' a b := by
  refine ⟨fun t path hend hres => ?_, fun t path buf r hpass h =>
    hm.find_same hentries (clear_of hpass (hsafe.others t path hpass)) h⟩
  obtain ⟨before, last, htrail, hbefore⟩ := hsafe.direct t path hend hres
  obtain ⟨names, name, hnames, hdot, -⟩ := hend
  obtain ⟨p, p₁, q, hstart, hwalk, hgo, -⟩ := hres.last hnames
  rw [trailOf_eq hnames hstart, trail_snoc hdot hwalk hgo] at htrail
  obtain ⟨hinit, hlast⟩ := List.append_inj' htrail rfl
  have hentry := (Prod.mk.inj (List.cons.inj hlast).1).1
  have hclear := clear_init hnames hstart (fun e he => hbefore e (hinit ▸ he))
    fun dir _ => hsafe.others t dir
  -- the walk up to the last name is the one before
  have hwalk' : walk s' fuel p names = .ok p₁ :=
    hm.walk_same (fun _ h => (by cases h)) (hm.before.start hstart) hclear hwalk
  obtain ⟨info, hgo', -⟩ := hm.goName_eq hdot hgo hentry
  exact hm.find_after hentries hnames hdot hstart (walk_snoc hwalk' hgo') ⟨0, 0⟩

/-! ### When `a` is mounted over itself -/

/-- A walk that is at no file stays there. -/
theorem walk_none {s : Vfs} {fuel : Nat} {names : List Name} {p q : Place}
    (hnone : s.header p.temp = none) (h : walk s fuel p names = .ok q) : q = p := by
  refine @walk_keeps s fuel (· = p) (fun p₁ q₁ name heq hgo => ?_) names p q rfl h
  rw [heq] at hgo
  by_cases hdot : name = ['.']
  · exact eq_of_goName_dot hdot hgo
  · obtain ⟨f, hf⟩ := header_of_scanDir (goName_entry hdot hgo).2.2.1
    rw [hnone] at hf
    cases hf

theorem walk_none_name {s : Vfs} {fuel : Nat} {names : List Name} {name : Name} {p q : Place}
    (hnone : s.header p.temp = none) (hdot : name ≠ ['.']) :
    walk s fuel p (names ++ [name]) ≠ .ok q := by
  intro h
  obtain ⟨p₁, hwalk, hgo⟩ := walk_last h
  rw [walk_none hnone hwalk] at hgo
  obtain ⟨f, hf⟩ := header_of_scanDir (goName_entry hdot hgo).2.2.1
  rw [hnone] at hf
  cases hf

/-- The walk is at a file with the number `n` or a higher one, or at none. -/
def Beyond (s : Vfs) (fs n : Nat) (p : Place) : Prop :=
  s.header p.temp = none ∨
    (p.temp.fs = fs ∧ n ≤ p.temp.inode ∧ ∀ f, s.header p.temp = some f → p.info.type = f.type)

theorem Mounted.zeroPage_ne (hm : Mounted s s' ns a b) (hzero : s.header s.zeroPage = none) :
    s.zeroPage ≠ a := by
  rintro rfl
  exact absurd hm.isFile (Option.not_isSome_iff_eq_none.mpr hzero)

/-- From `a` on, a name leads to a file that was made later. -/
theorem Mounted.beyond (hm : Mounted s s' ns a a) (hentries : EntriesNamed s')
    (hzero : s.header s.zeroPage = none) {fuel : Nat} {p q : Place} {name : Name}
    (hp : Beyond s' a.fs a.inode p) (hdot : name ≠ ['.'])
    (hgo : OsThing.Fs.goName s' fuel p name = .ok q) : Beyond s' a.fs (a.inode + 1) q := by
  obtain ⟨-, hdir, hscan, hinfo, hfollow⟩ := goName_entry hdot hgo
  obtain ⟨f, hf⟩ := header_of_scanDir hscan
  rcases hp with hnone | ⟨hfs, hle, hknown⟩
  · rw [hnone] at hf
    cases hf
  have htype : f.type = FS_DIR := (hknown f hf).symm.trans hdir
  obtain ⟨dirs, hdata, hfound⟩ := scanDir_dir hf htype hscan
  obtain ⟨e, he, hinode⟩ := Option.map_eq_some_iff.mp hfound.symm
  obtain ⟨hlt, hnamed⟩ := hentries _ f dirs hf hdata e (List.mem_of_find?_eq_some he)
  rw [hinode] at hlt hnamed
  obtain ⟨g, hg⟩ := Option.isSome_iff_exists.mp hnamed
  have hne : (⟨q.buffer.inode, p.temp.fs⟩ : FileNode) ≠ a := by
    rintro rfl
    exact absurd hle (Nat.not_le.mpr hlt)
  have hg' : s.header ⟨q.buffer.inode, p.temp.fs⟩ = some g := (hm.header_ne hne).symm.trans hg
  rw [getInfo_of_header hg] at hinfo
  have hinfo : g.info ⟨q.buffer.inode, p.temp.fs⟩ = q.info := Option.some.inj hinfo
  have hid : OldId ns q.info := hinfo ▸ hm.before.ids _ g hg'
  rw [hm.followMount_old hid] at hfollow
  have htemp := Except.ok.inj hfollow
  unfold Beyond
  rw [← htemp]
  split
  · refine Or.inr ⟨hfs, Nat.lt_of_le_of_lt hle hlt, fun f' hf' => ?_⟩
    obtain rfl := Option.some.inj (hg.symm.trans hf')
    rw [← hinfo]
    rfl
  · refine Or.inl ?_
    rw [hm.header_ne (hm.zeroPage_ne hzero), hzero]

theorem Beyond.mono {s : Vfs} {fs m n : Nat} {p : Place} (h : Beyond s fs n p) (hle : m ≤ n) :
    Beyond s fs m p :=
  h.imp_right fun h => ⟨h.1, Nat.le_trans hle h.2.1, h.2.2⟩

/-- So a walk that has come to `a` does not come there again. -/
theorem Mounted.not_back (hm : Mounted s s' ns a a) (hentries : EntriesNamed s')
    (hzero : s.header s.zeroPage = none) {fuel : Nat} {names : List Name} {name : Name}
    {p q : Place} (hp : Beyond s' a.fs a.inode p) (hdot : name ≠ ['.'])
    (h : walk s' fuel p (names ++ [name]) = .ok q) : q.temp ≠ a := by
  obtain ⟨p₁, hwalk, hgo⟩ := walk_last h
  have hp₁ : Beyond s' a.fs a.inode p₁ := by
    refine walk_keeps (fun p₂ q₂ name₂ hp₂ hgo => ?_) hp hwalk
    by_cases hdot₂ : name₂ = ['.']
    · rw [eq_of_goName_dot hdot₂ hgo]
      exact hp₂
    · exact (hm.beyond hentries hzero hp₂ hdot₂ hgo).mono (Nat.le_succ _)
  rintro rfl
  rcases hm.beyond hentries hzero hp₁ hdot hgo with hnone | ⟨-, hlt, -⟩
  · rw [hm.header, Option.map_eq_none_iff] at hnone
    exact absurd hm.isFile (Option.not_isSome_iff_eq_none.mpr hnone)
  · exact absurd hlt (Nat.not_succ_le_self _)

/-- Where a name led to the file `a`, the mount leads beyond it. -/
theorem Mounted.beyond_self (hm : Mounted s s' ns a a) {fuel : Nat} {p q : Place} {name : Name}
    (hdot : name ≠ ['.']) (hgo : OsThing.Fs.goName s fuel p name = .ok q)
    (hentry : (⟨q.buffer.inode, p.temp.fs⟩ : FileNode) = a) {info : FileInfo}
    (htype : info.type = q.info.type) : Beyond s' a.fs a.inode ⟨a, info, q.buffer⟩ := by
  refine Or.inr ⟨rfl, Nat.le_refl _, fun f' hf' => ?_⟩
  have hinfo := (goName_entry hdot hgo).2.2.2.1
  obtain ⟨f, hf, hself⟩ := hm.header_self
  rw [hentry, getInfo_of_header hf] at hinfo
  rw [← Option.some.inj (hself.symm.trans hf'), htype, ← Option.some.inj hinfo]
  rfl

/-- A walk that ends at `a` before and after has come to it at its end. -/
theorem Mounted.direct (hm : Mounted s s' ns a a) (hentries : EntriesNamed s')
    (hzero : s.header s.zeroPage = none) {fuel : Nat} {name : Name} (hdot : name ≠ ['.'])
    {q q' : Place} (hq' : q'.temp = a) :
    ∀ {names : List Name} {p : Place}, OldId ns p.info →
      walk s fuel p (names ++ [name]) = .ok q → walk s' fuel p (names ++ [name]) = .ok q' →
      ∃ before last, trail s fuel (names ++ [name]) p = before ++ [(a, last)] ∧
        ∀ e ∈ before, e.1 ≠ a ∧ e.2.temp ≠ a := by
  intro names
  induction names with
  | nil =>
      intro p hp h h'
      rw [List.nil_append, walk_single] at h h'
      rw [List.nil_append, trail_name hdot h]
      by_cases hentry : (⟨q.buffer.inode, p.temp.fs⟩ : FileNode) = a
      · rw [hentry]
        exact ⟨[], q, rfl, fun e he => absurd he List.not_mem_nil⟩
      · rw [hm.goName_ne hp hdot h hentry] at h'
        obtain rfl := Except.ok.inj h'
        dsimp only at hq'
        split at hq'
        · rename_i hid
          exact absurd ((temp_of_unmounted hdot h hid).symm.trans hq') hentry
        · exact absurd hq' (hm.zeroPage_ne hzero)
  | cons n rest ih =>
      intro p hp h h'
      rw [List.cons_append, walk_cons] at h h'
      by_cases hn : n = ['.']
      · subst hn
        rw [List.cons_append, trail_dot]
        exact ih hp h h'
      rcases hgo : OsThing.Fs.goName s fuel p n with halt | q₁
      · rw [hgo] at h
        cases h
      rw [hgo] at h
      by_cases hentry : (⟨q₁.buffer.inode, p.temp.fs⟩ : FileNode) = a
      · -- then the walk after the mount goes on at `a`, and does not come back
        obtain ⟨info, hgo', htype⟩ := hm.goName_eq hn hgo hentry
        rw [hgo'] at h'
        exact absurd hq' (hm.not_back hentries hzero (hm.beyond_self hn hgo hentry htype) hdot h')
      · rw [hm.goName_ne hp hn hgo hentry] at h'
        split at h'
        · rename_i hid
          have htemp : q₁.temp ≠ a := temp_of_unmounted hn hgo hid ▸ hentry
          obtain ⟨before, last, htrail, hbefore⟩ := ih (hm.before.goName p q₁ n hp hgo) h h'
          rw [List.cons_append, trail_name hn hgo, htrail]
          refine ⟨_ :: before, last, rfl, fun e he => ?_⟩
          rcases List.mem_cons.mp he with rfl | he
          · exact ⟨hentry, htemp⟩
          · exact hbefore e he
        · refine absurd h' (walk_none_name ?_ hdot)
          show s'.header s.zeroPage = none
          rw [hm.header_ne (hm.zeroPage_ne hzero), hzero]

/-- So a path that leads to `a` before and after comes to it at its end. -/
theorem Mounted.direct_path (hm : Mounted s s' ns a a) (hentries : EntriesNamed s')
    (hzero : s.header s.zeroPage = none) {fuel t : Nat} {path : Name} (hend : EndsInName path)
    (hres : Resolves s fuel t path a) (hres' : Resolves s' fuel t path a) :
    Direct fuel s t path a := by
  obtain ⟨names, name, hnames, hdot, -⟩ := hend
  obtain ⟨p, p₁, q, hstart, hwalk, hgo, -⟩ := hres.last hnames
  obtain ⟨p₂, p₃, q', hstart₂, hwalk₂, hgo₂, htemp⟩ := hres'.last hnames
  obtain ⟨-, p', hstart', halike⟩ := hm.startAt hstart
  rw [hm.startNode, hstart'] at hstart₂
  have hafter := walk_snoc hwalk₂ hgo₂
  rw [← Except.ok.inj hstart₂, halike.walk_name hentries hdot] at hafter
  obtain ⟨before, last, htrail, hbefore⟩ := hm.direct hentries hzero hdot htemp
    (hm.before.start hstart) (walk_snoc hwalk hgo) hafter
  exact ⟨before, last, (trailOf_eq hnames hstart).trans htrail, hbefore⟩

/-- A path whose last name is an old mount leads to address 0. -/
theorem Mounted.last_lost (hm : Mounted s s' ns a b) (hentries : EntriesNamed s') {fuel t : Nat}
    {path name : Name} {names : List Name} {p p₁ q : Place}
    (hnames : pathNames path = names ++ [name])
    (hstart : OsThing.Fs.startAt s (OsThing.Fs.startNode s t path) = .ok p)
    (hclear : ∀ e ∈ trail s fuel names p,
      e.1 ≠ a ∧ (e.2.info.mountId = 0 ∨ e.2.temp = s.zeroPage))
    (hwalk : walk s fuel p names = .ok p₁) (hdot : name ≠ ['.'])
    (hgo : OsThing.Fs.goName s fuel p₁ name = .ok q)
    (hne : (⟨q.buffer.inode, p₁.temp.fs⟩ : FileNode) ≠ a) (hid : q.info.mountId ≠ 0)
    (buf : FileNode) : fsFindPath s' fuel t path buf = .ok (0, s.zeroPage) := by
  have hstart₀ := hm.before.start hstart
  have hwalk' : walk s' fuel p names = .ok p₁ :=
    hm.walk_same (fun _ h => (by cases h)) hstart₀ hclear hwalk
  have hgo' := hm.goName_ne (walk_keeps hm.before.goName hstart₀ hwalk) hdot hgo hne
  rw [if_neg hid] at hgo'
  exact hm.find_after hentries hnames hdot hstart (walk_snoc hwalk' hgo') buf

/-- Where the paths that keep clear of `a` resolve as before, they go through no mount that is
lost. -/
theorem Mounted.others (hm : Mounted s s' ns a b) (hentries : EntriesNamed s') {fuel t : Nat}
    (hseen : MountSeen fuel s s' a b) :
    ∀ (k : Nat) (path : Name), (pathNames path).length = k → ¬ PassesThrough fuel s t path a →
      ¬ ThroughMount fuel s t path := by
  intro k
  induction k with
  | zero =>
      intro path hlen _ hthrough
      obtain ⟨e, he, -⟩ := hthrough
      unfold trailOf trailFrom at he
      rw [List.eq_nil_of_length_eq_zero hlen] at he
      split at he
      · exact absurd he List.not_mem_nil
      · exact absurd he List.not_mem_nil
  | succ k ih =>
      intro path hlen hpass hthrough
      rcases List.eq_nil_or_concat (pathNames path) with hnil | ⟨names, name, hnames⟩
      · rw [hnil] at hlen
        cases hlen
      rw [List.concat_eq_append] at hnames
      obtain ⟨e, he, hid, htemp⟩ := hthrough
      have hne : e.1 ≠ a := fun heq => hpass ⟨e, he, Or.inl heq⟩
      rcases hstart : OsThing.Fs.startAt s (OsThing.Fs.startNode s t path) with halt | p
      · unfold trailOf at he
        rw [hstart] at he
        exact absurd he List.not_mem_nil
      have htrail : trailOf s fuel t path =
          trail s fuel names p ++ trailFrom s fuel (walk s fuel p names) [name] :=
        (trailOf_eq hnames hstart).trans trail_append
      -- by induction, the path without its last name goes through no such mount
      have hclear : ∀ e ∈ trail s fuel names p,
          e.1 ≠ a ∧ (e.2.info.mountId = 0 ∨ e.2.temp = s.zeroPage) := by
        refine clear_init hnames hstart (fun e he => ?_) fun dir hdir => ih dir ?_
        · have he : e ∈ trailOf s fuel t path := htrail ▸ List.mem_append_left _ he
          exact ⟨fun heq => hpass ⟨e, he, Or.inl heq⟩, fun heq => hpass ⟨e, he, Or.inr heq⟩⟩
        · rw [hnames, List.length_append] at hlen
          rw [hdir]
          exact Nat.succ.inj hlen
      rw [htrail] at he
      rcases List.mem_append.mp he with hinit | hlast
      · exact htemp ((hclear e hinit).2.resolve_left hid)
      -- so it is the last name, and that leads to address 0 now
      obtain ⟨hdot, p₁, hwalk, hgo, hentry⟩ := mem_trail_last hlast
      have hbefore := find_of_walk hnames hstart (walk_snoc hwalk hgo) ⟨0, 0⟩
      have hafter := hm.last_lost hentries hnames hstart hclear hwalk hdot hgo (hentry ▸ hne) hid
        ⟨0, 0⟩
      have heq := hafter.symm.trans (hseen.others t path ⟨0, 0⟩ _ hpass hbefore)
      exact htemp (Prod.mk.inj (Except.ok.inj heq)).2.symm

/-! ### Runs -/

/-- Nothing is mounted: no file is gone, and none has another mount than before. -/
structure SameMounts (s s' : Vfs) : Prop where
  mounts : s'.mounts = s.mounts
  zeroPage : s'.zeroPage = s.zeroPage
  keeps : KeepsRights s s'
  ids : ∀ node f', s'.header node = some f' →
    f'.mountId = 0 ∨ ∃ f, s.header node = some f ∧ f'.mountId = f.mountId

theorem SameMounts.of_ramfs {s s' : Vfs} (hramfs : s'.ramfs = s.ramfs)
    (hmounts : s'.mounts = s.mounts) (hzero : s'.zeroPage = s.zeroPage) : SameMounts s s' := by
  refine ⟨hmounts, hzero, KeepsRights.of_ramfs hramfs, fun node f' hf' => ?_⟩
  rw [header_congr hramfs] at hf'
  exact Or.inr ⟨f', hf', rfl⟩

theorem SameMounts.trans {s₁ s₂ s₃ : Vfs} (h : SameMounts s₁ s₂) (h' : SameMounts s₂ s₃) :
    SameMounts s₁ s₃ := by
  refine ⟨h'.mounts.trans h.mounts, h'.zeroPage.trans h.zeroPage, h.keeps.trans h'.keeps,
    fun node f₃ hf₃ => ?_⟩
  rcases h'.ids node f₃ hf₃ with hnone | ⟨f₂, hf₂, hid⟩
  · exact Or.inl hnone
  · rw [hid]
    exact h.ids node f₂ hf₂

/-- A change of files that makes no mounts. -/
theorem SameMounts.onRamfs {s s' : Vfs} {node : FileNode} {ret : Int}
    {op : RamfsHeader → Option (Int × RamfsHeader)} (hop : s.onRamfs node op = some (ret, s'))
    (hkeeps : KeepsRights s s')
    (hids : ∀ head head', op head = some (ret, head') → ∀ i f', head'.getFileH i = some f' →
      f'.mountId = 0 ∨ ∃ f, head.getFileH i = some f ∧ f'.mountId = f.mountId) :
    SameMounts s s' := by
  obtain ⟨head, head', hhead, hres, rfl⟩ := onRamfs_spec hop
  refine ⟨rfl, rfl, hkeeps, fun n f' hf' => ?_⟩
  rw [header_setRamfs] at hf'
  split at hf'
  · rename_i hfs
    rw [header_of_ramfs (hfs ▸ hhead)]
    exact hids head head' hres n.inode f' hf'
  · exact Or.inr ⟨f', hf', rfl⟩

theorem modifyFile_ids {head : RamfsHeader} {inode i : Nat} (change : FileHeader → FileHeader)
    {hinode : ∀ f, (change f).inode = f.inode} (hid : ∀ f, (change f).mountId = f.mountId)
    {f' : FileHeader} (hf' : (head.modifyFile inode change hinode).getFileH i = some f') :
    f'.mountId = 0 ∨ ∃ f, head.getFileH i = some f ∧ f'.mountId = f.mountId := by
  rw [RamfsHeader.getFileH_modifyFile] at hf'
  obtain ⟨f, hf, rfl⟩ := Option.map_eq_some_iff.mp hf'
  refine Or.inr ⟨f, hf, ?_⟩
  split
  · exact hid f
  · rfl

theorem ramfsAdd_ids {head head' : RamfsHeader} {node : FileNode} {name : Name} {mode : UInt32}
    {type : Nat} {ret : Int} (h : ramfsAdd head node name mode type = some (ret, head')) {i : Nat}
    {f' : FileHeader} (hf' : head'.getFileH i = some f') :
    f'.mountId = 0 ∨ ∃ f, head.getFileH i = some f ∧ f'.mountId = f.mountId := by
  rcases ramfsAdd_grows h i f' hf' with ⟨hzero, -⟩ | ⟨f, hf, -, hid, -⟩
  · exact Or.inl hzero
  · exact Or.inr ⟨f, hf, hid⟩

theorem TreeChange.sameMounts {s s' : Vfs} (h : TreeChange s s') : SameMounts s s' := by
  cases h with
  | same => exact SameMounts.of_ramfs rfl rfl rfl
  | node a node => exact SameMounts.of_ramfs rfl rfl rfl
  | add hadd =>
      exact SameMounts.onRamfs hadd (TreeChange.add hadd).keeps fun _ _ hres _ _ =>
        ramfsAdd_ids hres
  | unlink hunlink =>
      refine SameMounts.onRamfs hunlink (TreeChange.unlink hunlink).keeps
        fun head head' hres i f' hf' => ?_
      obtain ⟨f, -, hres⟩ := Option.map_eq_some_iff.mp hres
      obtain ⟨-, rfl⟩ := Prod.mk.inj hres
      exact modifyFile_ids (fun h => { h with links := h.links - 1 }) (fun _ => rfl) hf'

theorem write_sameMounts {s s' : Vfs} {t : Nat} {fd ret : Int} {input junk : Nat → UInt8}
    {size : UInt32} (hwrite : s.write t fd input junk size = some (ret, s')) : SameMounts s s' := by
  have hkeeps := (write_spec hwrite).1
  rcases write_cases hwrite with rfl | ⟨d, i, s₁, -, hop, htrees, -⟩
  · exact SameMounts.of_ramfs rfl rfl rfl
  · have hback := KeepsRights.of_ramfs htrees.ramfs.symm
    refine SameMounts.trans (SameMounts.onRamfs hop (hkeeps.trans hback) ?_)
      (SameMounts.of_ramfs htrees.ramfs htrees.mounts htrees.zeroPage)
    intro head head' hres i f' hf'
    obtain ⟨change, hinode, rfl, hchange⟩ := ramfsPwrite_cases hres
    exact modifyFile_ids change (fun f => (hchange f).2.1) hf'

/-- **A call mounts something, or leaves all mounts as they are.** -/
theorem vfsStep_mounts {fuel : Nat} {s s' : Vfs} {c : Call} (hstep : vfsStep fuel s c = some s') :
    (∃ type dir ret, Mounts fuel s c type dir ∧ s.fsMount type dir = some (ret, s')) ∨
      SameMounts s s' := by
  have hsame : SameTrees s s' → SameMounts s s' := fun htrees =>
    SameMounts.of_ramfs htrees.ramfs htrees.mounts htrees.zeroPage
  cases vfsStep_cases hstep with
  | tree htree => exact Or.inr htree.sameMounts
  | mountAt type dir ret hop hmount => exact Or.inl ⟨type, dir, ret, hop, hmount⟩
  | read fd size raw ret bytes hop hread => exact Or.inr (hsame (read_spec hread).1)
  | write fd input junk size ret hop hwrite => exact Or.inr (write_sameMounts hwrite)
  | offsets _ htrees => exact Or.inr (hsame htrees)
  | openAt path flags a err s₀ hop hlive hfile htrees hcases =>
      obtain ⟨s₁, htree, hramfs, hmounts, hpage⟩ := openFile_tree hfile
      have hknew : SameMounts s (s.knew a) := SameMounts.of_ramfs rfl rfl rfl
      exact Or.inr (((hknew.trans htree.sameMounts).trans
        (SameMounts.of_ramfs hramfs hmounts hpage)).trans
          (SameMounts.of_ramfs htrees.ramfs htrees.mounts htrees.zeroPage))
  | closeAt fd hop htrees hcases => exact Or.inr (hsame htrees)

theorem MountIds.same {s s' : Vfs} {ns : List FileNode} (h : MountIds s ns)
    (hsame : SameMounts s s') : MountIds s' ns := by
  refine ⟨hsame.mounts ▸ h.mounts, fun node f' hf' => ?_⟩
  rcases hsame.ids node f' hf' with hnone | ⟨f, hf, hid⟩
  · exact Or.inl hnone
  · rw [hid]
    exact h.ids node f hf

/-- After a mount the ids are those from before, and the next one. -/
theorem Mounted.ids {s s' : Vfs} {ns : List FileNode} {a b : FileNode}
    (hm : Mounted s s' ns a b) : MountIds s' (ns ++ [b]) := by
  have hlen : (ns ++ [b]).length = ns.length + 1 := List.length_append
  refine ⟨hm.mounts, fun node f' hf' => ?_⟩
  rw [hm.header] at hf'
  obtain ⟨f, hf, rfl⟩ := Option.map_eq_some_iff.mp hf'
  split
  · exact Or.inr ⟨ns.length, by omega, rfl⟩
  · exact (hm.before.ids node f hf).imp_right fun ⟨i, hi, hid⟩ => ⟨i, by omega, hid⟩

/-- What the mounts rely on: ids that were given out, and no file at address 0. -/
structure MountInv (s : Vfs) : Prop where
  ids : ∃ ns, MountIds s ns
  zero : s.zeroPage.inode = 0

theorem MountInv.step {fuel : Nat} {s s' : Vfs} {c : Call} (h : MountInv s)
    (hstep : vfsStep fuel s c = some s') : MountInv s' := by
  obtain ⟨⟨ns, hids⟩, hzero⟩ := h
  rcases vfsStep_mounts hstep with ⟨type, dir, ret, -, hmount⟩ | hsame
  · have hm := hids.mounted hmount
    exact ⟨⟨ns ++ [dir], hm.ids⟩, hm.zeroPage ▸ hzero⟩
  · exact ⟨⟨ns, hids.same hsame⟩, hsame.zeroPage ▸ hzero⟩

theorem mountInv_boot (systems : List Nat) (fs root : Nat) :
    MountInv (Vfs.boot systems fs root) :=
  ⟨⟨[], Registered.boot _, fun _ _ hf => Or.inl ((fresh_boot systems fs root).header hf).2⟩, rfl⟩

theorem MountInv.run {fuel : Nat} {calls : List Call} {s s' : Vfs} (h : MountInv s)
    (hrun : runAll (vfsStep fuel) s calls = some s') : MountInv s' :=
  runAll_keeps (fun _ _ _ => MountInv.step) h hrun

/-- `fs_mount` returns 0 for every file there is. -/
theorem fsMount_returns {s : Vfs} {ns : List FileNode} (h : Registered s.mounts ns) {a : FileNode}
    (ha : (s.header a).isSome) (b : FileNode) : ∃ s', s.fsMount a b = some (0, s') := by
  obtain ⟨f, hf⟩ := Option.isSome_iff_exists.mp ha
  obtain ⟨head, hhead, hfile⟩ := Option.bind_eq_some_iff.mp hf
  obtain ⟨mounts, hmount, -⟩ := registerMountNode_spec h b
  unfold Vfs.fsMount
  rw [hmount, Option.bind_some]
  unfold Vfs.onRamfs
  dsimp only
  rw [hhead, Option.bind_some]
  unfold ramfsCallback
  dsimp only
  rw [hfile]
  exact ⟨_, rfl⟩

/--
**A mount is seen, and nothing else of it, in just the safe cases.**  In every state that a
run of calls by any tasks gets to, for every file that is mounted over: for all nodes that
are mounted there, all tasks and all paths.
-/
theorem mount_seen_iff {systems : List Nat} {fs root fuel₀ : Nat} {calls : List Call} {s : Vfs}
    (hrun : runAll (vfsStep fuel₀) (Vfs.boot systems fs root) calls = some s) (fuel : Nat)
    (a : FileNode) :
    (∀ b s', s.fsMount a b = some (0, s') → MountSeen fuel s s' a b) ↔
      ((s.header a).isSome → MountSafe fuel s a) := by
  have hentries : EntriesNamed s := ((sound_boot systems fs root).run hrun).entries
  obtain ⟨⟨ns, hids⟩, hinode⟩ := (mountInv_boot systems fs root).run hrun
  have hzero : s.header s.zeroPage = none := by
    unfold Vfs.header
    rw [hinode]
    exact Option.bind_eq_none_iff.mpr fun head _ => head.getFileH_zero
  constructor
  · intro hseen ha
    obtain ⟨s', hmount⟩ := fsMount_returns hids.mounts ha a
    have hm := hids.mounted hmount
    have hentries' := hentries.mount hmount
    have hseen := hseen a s' hmount
    exact ⟨fun t path => hm.others hentries' hseen _ path rfl, fun t path hend hres =>
      hm.direct_path hentries' hzero hend hres (hseen.visible t path hend hres)⟩
  · intro hsafe b s' hmount
    have hm := hids.mounted hmount
    exact hm.seen (hentries.mount hmount) (hsafe hm.isFile)

/-- `/d` is made and mounted over. -/
theorem mount_seen_iff_mkdir :
    ∃ s, runAll (vfsStep 4) (Vfs.boot [0x1000] 0x1000 0x2000) [⟨0, .mkdir ['d'] 0o777⟩] = some s ∧
      ((∀ b s', s.fsMount ⟨2, 0x1000⟩ b = some (0, s') → MountSeen 4 s s' ⟨2, 0x1000⟩ b) ↔
        ((s.header ⟨2, 0x1000⟩).isSome → MountSafe 4 s ⟨2, 0x1000⟩)) := by
  have hsome : (runAll (vfsStep 4) (Vfs.boot [0x1000] 0x1000 0x2000)
      [⟨0, .mkdir ['d'] 0o777⟩]).isSome := by
    decide
  obtain ⟨s, hrun⟩ := Option.isSome_iff_exists.mp hsome
  exact ⟨s, hrun, mount_seen_iff hrun 4 ⟨2, 0x1000⟩⟩

/-- **`/x` is mounted on `/d`, and then `/y` is mounted where `/d` leads to.** -/
theorem nested_mount_unseen :
    ∃ s s', runAll (vfsStep 4) (Vfs.boot [0x1000] 0x1000 0x2000)
        [⟨0, .mkdir ['d'] 0o777⟩, ⟨0, .mkdir ['x'] 0o777⟩, ⟨0, .mkdir ['y'] 0o777⟩,
          ⟨0, .fsMount ⟨2, 0x1000⟩ ⟨3, 0x1000⟩⟩] = some s ∧
      Resolves s 4 0 ['/', 'd'] ⟨3, 0x1000⟩ ∧
      s.fsMount ⟨3, 0x1000⟩ ⟨4, 0x1000⟩ = some (0, s') ∧
      Resolves s' 4 0 ['/', 'd'] ⟨0, 0⟩ ∧
      ¬ MountSeen 4 s s' ⟨3, 0x1000⟩ ⟨4, 0x1000⟩ := by
  have hrun : (runAll (vfsStep 4) (Vfs.boot [0x1000] 0x1000 0x2000)
      [⟨0, .mkdir ['d'] 0o777⟩, ⟨0, .mkdir ['x'] 0o777⟩, ⟨0, .mkdir ['y'] 0o777⟩,
        ⟨0, .fsMount ⟨2, 0x1000⟩ ⟨3, 0x1000⟩⟩]).map (fun s =>
        (fsFindPath s 4 0 ['/', 'd'] ⟨0, 0⟩, (s.fsMount ⟨3, 0x1000⟩ ⟨4, 0x1000⟩).map fun r =>
          (r.1, fsFindPath r.2 4 0 ['/', 'd'] ⟨0, 0⟩))) =
      some (.ok (0, ⟨3, 0x1000⟩), some (0, .ok (0, ⟨0, 0⟩))) := by
    decide
  obtain ⟨s, hs, hend⟩ := Option.map_eq_some_iff.mp hrun
  obtain ⟨hbefore, hend⟩ := Prod.mk.inj hend
  obtain ⟨⟨ret, s'⟩, hmount, hend⟩ := Option.map_eq_some_iff.mp hend
  obtain ⟨hret, hafter⟩ := Prod.mk.inj hend
  dsimp only at hret
  rw [hret] at hmount
  refine ⟨s, s', hs, hbefore, hmount, hafter, fun h => ?_⟩
  have hname : EndsInName ['/', 'd'] := ⟨[], ['d'], by decide, by decide, by decide⟩
  have hseen := h.visible 0 _ hname hbefore
  unfold Resolves at hseen
  dsimp only at hafter
  rw [hafter] at hseen
  revert hseen
  decide

end OsThing.Fs
