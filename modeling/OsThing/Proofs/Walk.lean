/-
A lookup as a walk, one name after another.

`fs_find_node` is a loop with several ways out.  `goName` is one turn of it, from a place
to the next one or to how the lookup ends, and `walk` runs it over the names of a path.
A path and its directory start at the same node, and the walk on the path is the one on
the directory and one turn more: `locate_last`.
-/
import OsThing.Proofs.Lookup
import Mathlib.Data.List.TakeWhile

namespace OsThing.Fs

/-- Where a walk is: the node, what is known of the entry it came through, and the entry
buffer. -/
structure Place where
  temp : FileNode
  info : FileInfo
  buffer : Dirent

/-- How a walk ends early: without a result, or with an error. -/
inductive Halt
  | stuck (stuck : Stuck)
  | failed (err : Int)

/-- One turn of the outer loop of `fs_find_node`. -/
def goName (s : Vfs) (fuel : Nat) (p : Place) (name : Name) : Except Halt Place :=
  if name = ['.'] then .ok p
  else if name = ['.', '.'] then .error (.failed (-ENOTDIR))
  else if p.info.type = FS_DIR then
    match scanDir s name p.temp fuel 0 p.buffer with
    | .error stuck => .error (.stuck stuck)
    | .ok (none, _) => .error (.failed (-ENOENT))
    | .ok (some inode, buffer) =>
        match s.getInfo ⟨inode, p.temp.fs⟩ p.info with
        | none => .error (.stuck .wild)
        | some info =>
            match followMount s info ⟨inode, p.temp.fs⟩ with
            | .error stuck => .error (.stuck stuck)
            | .ok temp => .ok ⟨temp, info, buffer⟩
  else .error (.failed (-ENOTDIR))

def walk (s : Vfs) (fuel : Nat) (p : Place) (names : List Name) : Except Halt Place :=
  names.foldlM (goName s fuel) p

/-- What the lookup returns, and `*nodebuf`. -/
def landing (nodebuf : FileNode) : Except Halt Place → Except Stuck (Int × FileNode)
  | .error (.stuck stuck) => .error stuck
  | .error (.failed err) => .ok (err, nodebuf)
  | .ok p => .ok (0, p.temp)

theorem walk_cons (s : Vfs) (fuel : Nat) (p : Place) (name : Name) (rest : List Name) :
    walk s fuel p (name :: rest) = (goName s fuel p name).bind fun p => walk s fuel p rest := rfl

theorem walk_append (s : Vfs) (fuel : Nat) (p : Place) (names rest : List Name) :
    walk s fuel p (names ++ rest) = (walk s fuel p names).bind fun p => walk s fuel p rest :=
  List.foldlM_append

theorem findLoop_eq_walk (s : Vfs) (fuel : Nat) (nodebuf : FileNode) :
    ∀ (names : List Name) (p : Place), names ≠ [] →
      findLoop s fuel nodebuf names p.temp p.info p.buffer = landing nodebuf (walk s fuel p names) := by
  intro names
  induction names with
  | nil => intro p h; exact absurd rfl h
  | cons name rest ih =>
      intro p _
      have hrest : ∀ q : Place, (if rest = [] then .ok (0, q.temp)
          else findLoop s fuel nodebuf rest q.temp q.info q.buffer) =
          landing nodebuf (walk s fuel q rest) := fun q => by
        split
        · rename_i hnil
          rw [hnil]
          rfl
        · rename_i hne
          exact ih q hne
      rw [walk_cons]
      unfold findLoop goName
      split
      · exact hrest p
      · split
        · rfl
        · split
          · rcases scanDir s name p.temp fuel 0 p.buffer with stuck | ⟨_ | inode, buffer⟩
            · rfl
            · rfl
            · dsimp only
              rcases s.getInfo ⟨inode, p.temp.fs⟩ p.info with _ | info
              · rfl
              · dsimp only
                rcases followMount s info ⟨inode, p.temp.fs⟩ with stuck | temp
                · rfl
                · exact hrest ⟨temp, info, buffer⟩
          · rfl

/-! ### Paths -/

/-- The node that a lookup starts at, and the names it goes through. -/
def startNode (s : Vfs) (t : Nat) (path : Name) : FileNode :=
  if path.head? = some '/' then s.nodes (s.tasks t).root else s.nodes (s.tasks t).cwd

def pathNames (path : Name) : List Name :=
  if path = [] then [['.']]
  else if path.head? = some '/' then
    if path.dropWhile (· = '/') = [] then [] else components (path.dropWhile (· = '/'))
  else components path

/-- The start of a walk. -/
def startAt (s : Vfs) (node : FileNode) : Except Halt Place :=
  match s.getInfo node FileInfo.zero with
  | none => .error (.stuck .wild)
  | some info => .ok ⟨node, info, ⟨0, 0, 0, []⟩⟩

/-- Where the lookup of a path ends. -/
def locate (s : Vfs) (fuel t : Nat) (path : Name) : Except Halt Place :=
  (startAt s (startNode s t path)).bind fun p => walk s fuel p (pathNames path)

theorem components_ne_nil (path : Name) : components path ≠ [] := by
  cases path with
  | nil => exact List.cons_ne_nil _ _
  | cons c rest =>
      unfold components
      split
      · exact List.cons_ne_nil _ _
      · split
        · exact List.cons_ne_nil _ _
        · exact List.cons_ne_nil _ _

theorem fsFindNode_eq (s : Vfs) (fuel : Nat) (node : FileNode) (path : Name) (nodebuf : FileNode) :
    fsFindNode s fuel node path nodebuf =
      landing nodebuf ((startAt s node).bind fun p => walk s fuel p (components path)) := by
  unfold fsFindNode startAt
  rcases s.getInfo node FileInfo.zero with _ | info
  · rfl
  · exact findLoop_eq_walk s fuel nodebuf _ ⟨node, info, _⟩ (components_ne_nil path)

/-- A path of slashes only is the root, whatever the root is. -/
theorem fsFindPath_root (s : Vfs) (fuel t : Nat) {path : Name} (buf : FileNode)
    (h : pathNames path = []) : fsFindPath s fuel t path buf = .ok (0, startNode s t path) := by
  unfold pathNames at h
  unfold fsFindPath startNode
  dsimp only
  split at h
  · cases h
  · rename_i hne
    rw [if_neg hne]
    split at h
    · rename_i hslash
      split at h
      · rename_i hroot
        rw [if_pos hslash, if_pos hroot, if_pos hslash]
      · exact absurd h (components_ne_nil _)
    · exact absurd h (components_ne_nil _)

theorem fsFindPath_eq (s : Vfs) (fuel t : Nat) {path : Name} (buf : FileNode)
    (h : pathNames path ≠ []) :
    fsFindPath s fuel t path buf = landing buf (locate s fuel t path) := by
  unfold pathNames at h
  unfold fsFindPath locate startNode pathNames
  dsimp only
  by_cases hne : path = []
  · subst hne
    exact fsFindNode_eq s fuel _ ['.'] buf
  · rw [if_neg hne] at h ⊢
    rw [if_neg hne]
    split
    · rename_i hslash
      rw [if_pos hslash] at h
      split
      · rename_i hroot
        exact absurd (if_pos hroot) h
      · exact fsFindNode_eq s fuel _ _ buf
    · exact fsFindNode_eq s fuel _ _ buf

/-! ### The directory of a path -/

theorem components_slash (rest : Name) : components ('/' :: rest) = [] :: components rest := rfl

theorem components_char {c : Char} {rest first : Name} {more : List Name} (hc : c ≠ '/')
    (h : components rest = first :: more) : components (c :: rest) = (c :: first) :: more := by
  conv => lhs; unfold components
  rw [if_neg hc, h]

theorem components_of_no_slash {name : Name} (h : '/' ∉ name) : components name = [name] := by
  induction name with
  | nil => rfl
  | cons c rest ih =>
      exact components_char (fun heq => h (heq ▸ List.mem_cons_self))
        (ih fun hmem => h (List.mem_cons_of_mem c hmem))

theorem components_append (dir name : Name) :
    components (dir ++ '/' :: name) = components dir ++ components name := by
  induction dir with
  | nil => rfl
  | cons c rest ih =>
      rw [List.cons_append]
      by_cases hc : c = '/'
      · rw [hc, components_slash, components_slash, ih]
        rfl
      · obtain ⟨first, more, hrest⟩ := List.exists_cons_of_ne_nil (components_ne_nil rest)
        rw [hrest] at ih
        rw [components_char hc hrest, components_char hc ih]
        rfl

theorem lastName_no_slash (path : Name) : '/' ∉ lastName path := by
  intro hmem
  have h := List.mem_takeWhile_imp (List.mem_reverse.mp hmem)
  simp at h

/-- A path without a slash is its last name; any other one is cut at its last slash. -/
theorem path_split (path : Name) :
    ('/' ∉ path ∧ parentPath path = [] ∧ lastName path = path) ∨
      path = parentPath path ++ '/' :: lastName path := by
  unfold parentPath lastName
  have hjoin := List.takeWhile_append_dropWhile (p := (· ≠ '/')) (l := path.reverse)
  rcases hdrop : path.reverse.dropWhile (· ≠ '/') with _ | ⟨c, rest⟩
  · left
    rw [hdrop, List.append_nil] at hjoin
    refine ⟨fun hmem => ?_, rfl, ?_⟩
    · rw [← List.mem_reverse, ← hjoin] at hmem
      have h := List.mem_takeWhile_imp hmem
      simp at h
    · rw [hjoin, List.reverse_reverse]
  · right
    have hc : c = '/' := by
      have h := List.head?_dropWhile_not (· ≠ '/') path.reverse
      rw [hdrop] at h
      simpa using h
    rw [hdrop, hc] at hjoin
    have hpath := congrArg List.reverse hjoin
    rw [List.reverse_reverse, List.reverse_append, List.reverse_cons, List.append_assoc] at hpath
    exact hpath.symm

theorem pathNames_abs {path : Name} (h : path.head? = some '/') : pathNames path =
    if path.dropWhile (· = '/') = [] then [] else components (path.dropWhile (· = '/')) := by
  have hne : path ≠ [] := fun hnil => by simp [hnil] at h
  unfold pathNames
  rw [if_neg hne, if_pos h]

theorem pathNames_rel {path : Name} (hne : path ≠ []) (h : path.head? ≠ some '/') :
    pathNames path = components path := by
  unfold pathNames
  rw [if_neg hne, if_neg h]

/-- What is left without the slashes at the start. -/
theorem dropSlashes_append {dir name : Name} (h : '/' ∉ name) :
    (dir ++ '/' :: name).dropWhile (· = '/') =
      if dir.dropWhile (· = '/') = [] then name else dir.dropWhile (· = '/') ++ '/' :: name := by
  have hname : ('/' :: name).dropWhile (· = '/') = name := by
    rw [List.dropWhile_cons_of_pos (by simp)]
    refine List.dropWhile_eq_self_iff.mpr fun hlen hfirst => h ?_
    exact (of_decide_eq_true hfirst) ▸ List.get_mem name ⟨0, hlen⟩
  rw [List.dropWhile_append, hname]
  simp only [List.isEmpty_iff]

/-- The names of a path are those of its directory and the last one, apart from a `.` for
the directory the task is in. -/
theorem pathNames_dirPath {path : Name} (hne : path ≠ []) (hnames : pathNames path ≠ []) :
    (path.head? = some '/' ↔ (dirPath path).head? = some '/') ∧
      (pathNames path = pathNames (dirPath path) ++ [lastName path] ∨
        (pathNames (dirPath path) = [['.']] ∧ pathNames path = [lastName path])) := by
  have hlast : components (lastName path) = [lastName path] :=
    components_of_no_slash (lastName_no_slash path)
  rcases path_split path with ⟨hslash, hparent, hself⟩ | hjoin
  · -- a name
    have hhead : path.head? ≠ some '/' := fun h => hslash (List.mem_of_head? h)
    have hdir : dirPath path = ['.'] := by
      unfold dirPath
      rw [if_neg (not_not.mpr hparent), if_neg hhead]
    rw [hdir]
    refine ⟨iff_of_false hhead (by decide), Or.inr ⟨by decide, ?_⟩⟩
    rw [pathNames_rel hne hhead, hself, components_of_no_slash hslash]
  have hslash := lastName_no_slash path
  have hdir : dirPath path = if parentPath path ≠ [] then parentPath path
      else if path.head? = some '/' then ['/'] else ['.'] := rfl
  rw [hdir]
  generalize lastName path = name at hjoin hlast hslash ⊢
  generalize parentPath path = dir at hjoin ⊢
  subst hjoin
  by_cases habs : (dir ++ '/' :: name).head? = some '/'
  · rw [if_pos habs]
    have hparent : (if dir ≠ [] then dir else ['/']).head? = some '/' ∧
        (if dir ≠ [] then dir else ['/']).dropWhile (· = '/') = dir.dropWhile (· = '/') := by
      by_cases hdirne : dir = []
      · rw [if_neg (not_not.mpr hdirne), hdirne]
        exact ⟨rfl, rfl⟩
      · rw [if_pos hdirne]
        exact ⟨(List.head?_append_of_ne_nil _ hdirne).symm.trans habs, rfl⟩
    refine ⟨iff_of_true habs hparent.1, Or.inl ?_⟩
    rw [pathNames_abs habs, dropSlashes_append hslash] at hnames
    rw [pathNames_abs habs, pathNames_abs hparent.1, hparent.2, dropSlashes_append hslash]
    by_cases hstrip : dir.dropWhile (· = '/') = []
    · -- only slashes come before the name
      rw [if_pos hstrip] at hnames
      rw [if_pos hstrip, if_pos hstrip, hlast, if_neg fun hnil => hnames (if_pos hnil)]
      rfl
    · rw [if_neg hstrip, if_neg hstrip, if_neg (by simp), components_append, hlast]
  · have hdirne : dir ≠ [] := fun hnil => habs (by rw [hnil]; rfl)
    have hhead : (dir ++ '/' :: name).head? = dir.head? := List.head?_append_of_ne_nil _ hdirne
    rw [if_pos hdirne, hhead]
    refine ⟨Iff.rfl, Or.inl ?_⟩
    rw [pathNames_rel hne habs, pathNames_rel hdirne (hhead ▸ habs), components_append, hlast]

theorem walk_single (s : Vfs) (fuel : Nat) (p : Place) (name : Name) :
    walk s fuel p [name] = goName s fuel p name := by
  rw [walk_cons]
  rcases goName s fuel p name with halt | q
  · rfl
  · rfl

/-- **The lookup of a path is the lookup of its directory and one turn more.** -/
theorem locate_last (s : Vfs) (fuel t : Nat) {path : Name} (hne : path ≠ [])
    (hnames : pathNames path ≠ []) : locate s fuel t path =
      (locate s fuel t (dirPath path)).bind fun p => goName s fuel p (lastName path) := by
  obtain ⟨hstart, hsplit⟩ := pathNames_dirPath hne hnames
  have hnode : startNode s t path = startNode s t (dirPath path) := by
    unfold startNode
    simp only [hstart]
  have hwalk : ∀ p, walk s fuel p (pathNames path) =
      (walk s fuel p (pathNames (dirPath path))).bind fun p => goName s fuel p (lastName path) := by
    intro p
    rcases hsplit with hsplit | ⟨hdir, hsplit⟩
    · rw [hsplit, walk_append]
      simp only [walk_single]
    · rw [hsplit, hdir, walk_single, walk_single]
      rfl
  unfold locate
  rw [hnode]
  rcases startAt s (startNode s t (dirPath path)) with halt | p
  · rfl
  · exact hwalk p

/-! ### One turn -/

/-- The first entry with the name is the one that is found. -/
theorem scanDir_eq {s : Vfs} {name : Name} {temp : FileNode} {h : FileHeader}
    {dirs : List RamfsDirent} (hh : s.header temp = some h) (htype : h.type = FS_DIR)
    (hdata : h.data = .entries dirs) {fuel : Nat} :
    ∀ {d : Nat} {b b' : Dirent} {r : Option Nat},
      scanDir s name temp fuel d b = .ok (r, b') →
      r = ((dirs.drop d).find? fun e => e.name = name).map RamfsDirent.inode := by
  induction fuel with
  | zero => intro d b b' r h; cases h
  | succ fuel ih =>
      intro d b b' r hscan
      unfold scanDir at hscan
      rw [readdir_eq, hh, Option.bind_some] at hscan
      unfold FileHeader.readEntry at hscan
      rw [if_neg (not_not.mpr htype), hdata] at hscan
      dsimp only at hscan
      rw [Int.toNat_natCast] at hscan
      rcases he : dirs[d]? with _ | e
      · rw [he] at hscan
        obtain ⟨rfl, -⟩ := Prod.mk.inj (Except.ok.inj hscan)
        rw [List.drop_eq_nil_of_le (List.getElem?_eq_none_iff.mp he)]
        rfl
      · obtain ⟨hlt, rfl⟩ := List.getElem?_eq_some_iff.mp he
        rw [he] at hscan
        dsimp only at hscan
        rw [if_neg (by decide)] at hscan
        rw [List.drop_eq_getElem_cons hlt, List.find?_cons]
        split at hscan
        · rename_i hname
          obtain ⟨rfl, -⟩ := Prod.mk.inj (Except.ok.inj hscan)
          rw [show decide (dirs[d].name = name) = true from decide_eq_true hname]
          rfl
        · rename_i hname
          rw [show decide (dirs[d].name = name) = false from decide_eq_false hname]
          exact ih hscan

/-- A lookup in a directory that comes back has gone through entries. -/
theorem scanDir_dir {s : Vfs} {name : Name} {temp : FileNode} {h : FileHeader} {fuel : Nat}
    {b b' : Dirent} {r : Option Nat} (hh : s.header temp = some h) (htype : h.type = FS_DIR)
    (hscan : scanDir s name temp fuel 0 b = .ok (r, b')) : ∃ dirs, h.data = .entries dirs ∧
      r = (dirs.find? fun e => e.name = name).map RamfsDirent.inode := by
  rcases hdata : h.data with dirs | buffer
  · exact ⟨dirs, rfl, scanDir_eq hh htype hdata (d := 0) hscan⟩
  · rcases fuel with _ | fuel
    · cases hscan
    · unfold scanDir at hscan
      rw [readdir_eq, hh, Option.bind_some] at hscan
      unfold FileHeader.readEntry at hscan
      rw [if_neg (not_not.mpr htype), hdata] at hscan
      cases hscan

theorem goName_ok {s : Vfs} {fuel : Nat} {p q : Place} {name : Name}
    (h : goName s fuel p name = .ok q) : (name = ['.'] ∧ q = p) ∨
      (name ≠ ['.'] ∧ name ≠ ['.', '.'] ∧ p.info.type = FS_DIR ∧ ∃ inode,
        scanDir s name p.temp fuel 0 p.buffer = .ok (some inode, q.buffer) ∧
        s.getInfo ⟨inode, p.temp.fs⟩ p.info = some q.info ∧
        followMount s q.info ⟨inode, p.temp.fs⟩ = .ok q.temp) := by
  unfold goName at h
  split at h
  · rename_i hdot
    exact Or.inl ⟨hdot, (Except.ok.inj h).symm⟩
  rename_i hdot
  split at h
  · cases h
  rename_i hup
  split at h
  · rename_i hdir
    split at h
    · cases h
    · cases h
    · rename_i inode buffer hscan
      split at h
      · cases h
      · rename_i info hinfo
        split at h
        · cases h
        · rename_i temp hfollow
          obtain rfl := Except.ok.inj h
          exact Or.inr ⟨hdot, hup, hdir, inode, hscan, hinfo, hfollow⟩
  · cases h

theorem goName_failed {s : Vfs} {fuel : Nat} {p : Place} {name : Name} {err : Int}
    (h : goName s fuel p name = .error (.failed err)) : name ≠ ['.'] ∧
      ((name = ['.', '.'] ∧ err = -ENOTDIR) ∨ (p.info.type ≠ FS_DIR ∧ err = -ENOTDIR) ∨
        (name ≠ ['.', '.'] ∧ p.info.type = FS_DIR ∧ err = -ENOENT ∧
          ∃ buffer, scanDir s name p.temp fuel 0 p.buffer = .ok (none, buffer))) := by
  unfold goName at h
  split at h
  · cases h
  rename_i hdot
  refine ⟨hdot, ?_⟩
  split at h
  · rename_i hup
    exact Or.inl ⟨hup, (Halt.failed.inj (Except.error.inj h)).symm⟩
  rename_i hup
  split at h
  · rename_i hdir
    split at h
    · cases h
    · rename_i buffer hscan
      exact Or.inr (Or.inr ⟨hup, hdir, (Halt.failed.inj (Except.error.inj h)).symm, buffer, hscan⟩)
    · split at h
      · cases h
      · split at h
        · cases h
        · cases h
  · rename_i hdir
    exact Or.inr (Or.inl ⟨hdir, (Halt.failed.inj (Except.error.inj h)).symm⟩)

/-- The errors of a lookup. -/
theorem goName_failed_err {s : Vfs} {fuel : Nat} {p : Place} {name : Name} {err : Int}
    (h : goName s fuel p name = .error (.failed err)) : err = -ENOENT ∨ err = -ENOTDIR := by
  rcases (goName_failed h).2 with ⟨-, rfl⟩ | ⟨-, rfl⟩ | ⟨-, -, rfl, -⟩
  · exact Or.inr rfl
  · exact Or.inr rfl
  · exact Or.inl rfl

theorem walk_failed_err {s : Vfs} {fuel : Nat} :
    ∀ {names : List Name} {p : Place} {err : Int},
      walk s fuel p names = .error (.failed err) → err = -ENOENT ∨ err = -ENOTDIR := by
  intro names
  induction names with
  | nil => intro p err h; cases h
  | cons name rest ih =>
      intro p err h
      rw [walk_cons] at h
      rcases hone : goName s fuel p name with halt | q
      · rw [hone] at h
        exact goName_failed_err (hone.trans h)
      · rw [hone] at h
        exact ih h

/-- What every turn keeps. -/
theorem walk_keeps {s : Vfs} {fuel : Nat} {P : Place → Prop}
    (hstep : ∀ p q name, P p → goName s fuel p name = .ok q → P q) :
    ∀ {names : List Name} {p q : Place}, P p → walk s fuel p names = .ok q → P q := by
  intro names
  induction names with
  | nil =>
      intro p q hp h
      obtain rfl := Except.ok.inj h
      exact hp
  | cons name rest ih =>
      intro p q hp h
      rw [walk_cons] at h
      rcases hone : goName s fuel p name with halt | p₁
      · rw [hone] at h
        cases h
      · rw [hone] at h
        exact ih (hstep p p₁ name hp hone) h

theorem locate_failed_err {s : Vfs} {fuel t : Nat} {path : Name} {err : Int}
    (h : locate s fuel t path = .error (.failed err)) : err = -ENOENT ∨ err = -ENOTDIR := by
  unfold locate startAt at h
  rcases hinfo : s.getInfo (startNode s t path) FileInfo.zero with _ | info
  · rw [hinfo] at h
    cases h
  · rw [hinfo] at h
    exact walk_failed_err h

theorem locate_failed_neg {s : Vfs} {fuel t : Nat} {path : Name} {err : Int}
    (h : locate s fuel t path = .error (.failed err)) : err < 0 := by
  rcases locate_failed_err h with rfl | rfl
  · decide
  · decide

/-- What a lookup that comes back has done: it was for a start node, or it has got to a place, or
it failed at a name. -/
theorem fsFindPath_ok {s : Vfs} {fuel t : Nat} {path : Name} {buf node : FileNode} {ret : Int}
    (h : fsFindPath s fuel t path buf = .ok (ret, node)) :
    (pathNames path = [] ∧ ret = 0 ∧ node = startNode s t path) ∨
      (∃ p, locate s fuel t path = .ok p ∧ ret = 0 ∧ node = p.temp) ∨
      (pathNames path ≠ [] ∧ locate s fuel t path = .error (.failed ret)) := by
  by_cases hnames : pathNames path = []
  · rw [fsFindPath_root s fuel t buf hnames] at h
    obtain ⟨rfl, rfl⟩ := Prod.mk.inj (Except.ok.inj h)
    exact Or.inl ⟨hnames, rfl, rfl⟩
  · rw [fsFindPath_eq s fuel t buf hnames] at h
    right
    rcases hwalk : locate s fuel t path with (stuck | err) | p
    · rw [hwalk] at h
      cases h
    · rw [hwalk] at h
      obtain ⟨rfl, -⟩ := Prod.mk.inj (Except.ok.inj h)
      exact Or.inr ⟨hnames, rfl⟩
    · rw [hwalk] at h
      obtain ⟨rfl, rfl⟩ := Prod.mk.inj (Except.ok.inj h)
      exact Or.inl ⟨p, rfl, rfl, rfl⟩

/-- A lookup that succeeds has got to a place. -/
theorem fsFindPath_found {s : Vfs} {fuel t : Nat} {path : Name} {buf node : FileNode} {ret : Int}
    (h : fsFindPath s fuel t path buf = .ok (ret, node)) (hret : 0 ≤ ret) : ret = 0 ∧
      ((pathNames path = [] ∧ node = startNode s t path) ∨
        ∃ p, locate s fuel t path = .ok p ∧ node = p.temp) := by
  rcases fsFindPath_ok h with ⟨hnames, rfl, rfl⟩ | ⟨p, hwalk, rfl, rfl⟩ | ⟨-, hwalk⟩
  · exact ⟨rfl, Or.inl ⟨hnames, rfl⟩⟩
  · exact ⟨rfl, Or.inr ⟨p, hwalk, rfl⟩⟩
  · exact absurd (locate_failed_neg hwalk) (Int.not_lt.mpr hret)

/-- The lookup of the empty path, and that of `.`, is of the working directory. -/
theorem fsFindPath_here {s : Vfs} {fuel t : Nat} {buf node : FileNode} {ret : Int}
    (h : fsFindPath s fuel t [] buf = .ok (ret, node)) :
    ret = 0 ∧ node = s.nodes (s.tasks t).cwd := by
  have hdot : fsFindPath s fuel t [] buf =
      fsFindNode s fuel (s.nodes (s.tasks t).cwd) ['.'] buf := rfl
  rw [hdot, fsFindNode] at h
  split at h
  · cases h
  · obtain ⟨rfl, rfl⟩ := Prod.mk.inj (Except.ok.inj h)
    exact ⟨rfl, rfl⟩

/-- What a lookup returns. -/
theorem fsFindPath_cases {s : Vfs} {fuel t : Nat} {path : Name} {buf node : FileNode} {ret : Int}
    (h : fsFindPath s fuel t path buf = .ok (ret, node)) :
    ret = 0 ∨ ret = -ENOENT ∨ ret = -ENOTDIR := by
  rcases fsFindPath_ok h with ⟨-, rfl, -⟩ | ⟨-, -, rfl, -⟩ | ⟨-, hwalk⟩
  · exact Or.inl rfl
  · exact Or.inl rfl
  · exact Or.inr (locate_failed_err hwalk)

/-! ### File systems without mounts -/

/-- No file has a mount, and entries name files. -/
def Closed (head : RamfsHeader) : Prop :=
  ∀ i f, head.getFileH i = some f → f.mountId = 0 ∧
    ∀ dirs, f.data = .entries dirs → ∀ e ∈ dirs, (head.getFileH e.inode).isSome

theorem closed_init : Closed initRamfs := by
  intro i f hf
  rw [List.mem_singleton.mp (List.mem_of_find?_eq_some hf)]
  refine ⟨rfl, fun dirs hdata e he => ?_⟩
  obtain rfl : [] = dirs := FileData.entries.inj hdata
  exact absurd he List.not_mem_nil

/-- A new file has no mount, and its entry names it. -/
theorem Closed.added {head head' : RamfsHeader} {inode type : Nat} {name : Name} {mode : UInt32}
    (h : Closed head) (hadded : Added head head' inode name mode type) : Closed head' := by
  obtain ⟨filehead, dirs, dir, hfile, -, hdata, hinode, -, hfiles⟩ := hadded.files
  have hkeep : ∀ i, (head.getFileH i).isSome ∨ i = head.iCount → (head'.getFileH i).isSome := by
    intro i hi
    rw [hfiles]
    split
    · rfl
    · rename_i hne
      rw [Option.isSome_map]
      exact hi.resolve_right hne
  intro i f' hf'
  rw [hfiles] at hf'
  split at hf'
  · obtain rfl := Option.some.inj hf'
    refine ⟨rfl, fun dirs' hdata' e he => ?_⟩
    obtain rfl : [] = dirs' := FileData.entries.inj hdata'
    exact absurd he List.not_mem_nil
  · obtain ⟨f, hf, rfl⟩ := Option.map_eq_some_iff.mp hf'
    obtain ⟨hmount, hentries⟩ := h i f hf
    split
    · rename_i hi
      obtain rfl : filehead = f := Option.some.inj (hfile.symm.trans (hi ▸ hf))
      refine ⟨hmount, fun dirs' hdata' e he => hkeep _ ?_⟩
      obtain rfl : dirs ++ [dir] = dirs' := FileData.entries.inj hdata'
      rcases List.mem_append.mp he with hold | hlast
      · exact Or.inl (hentries dirs hdata e hold)
      · rw [List.mem_singleton.mp hlast]
        exact Or.inr hinode
    · exact ⟨hmount, fun dirs' hdata' e he => hkeep _ (Or.inl (hentries dirs' hdata' e he))⟩

/-- The walk is at a file of the file system, and what it knows is about this file. -/
def At (fs : Nat) (head : RamfsHeader) (p : Place) : Prop :=
  p.temp.fs = fs ∧ ∃ f, head.getFileH p.temp.inode = some f ∧ p.info = f.info p.temp

variable {s : Vfs} {fs : Nat} {head : RamfsHeader}

theorem goName_at (hhead : s.ramfs fs = some head) (hclosed : Closed head) {fuel : Nat}
    {p q : Place} {name : Name} (hp : At fs head p) (h : goName s fuel p name = .ok q) :
    At fs head q := by
  rcases goName_ok h with ⟨-, rfl⟩ | ⟨-, -, hdir, inode, hscan, hinfo, hfollow⟩
  · exact hp
  obtain ⟨rfl, f, hf, hinfo'⟩ := hp
  have htype : f.type = FS_DIR := by rwa [hinfo'] at hdir
  have hheader : ∀ i, s.header ⟨i, p.temp.fs⟩ = head.getFileH i := fun i =>
    @header_of_ramfs s ⟨i, p.temp.fs⟩ head hhead
  obtain ⟨dirs, hdata, hfound⟩ := scanDir_dir ((hheader p.temp.inode).trans hf) htype hscan
  obtain ⟨e, he, rfl⟩ := Option.map_eq_some_iff.mp hfound.symm
  obtain ⟨g, hg⟩ := Option.isSome_iff_exists.mp
    ((hclosed _ f hf).2 dirs hdata e (List.mem_of_find?_eq_some he))
  have hinfo : q.info = g.info ⟨e.inode, p.temp.fs⟩ := by
    rw [getInfo_of_header ((hheader e.inode).trans hg)] at hinfo
    exact (Option.some.inj hinfo).symm
  have hmount : q.info.mountId = 0 := hinfo ▸ (hclosed _ g hg).1
  have htemp : q.temp = ⟨e.inode, p.temp.fs⟩ :=
    Except.ok.inj (hfollow.symm.trans (followMount_zero s _ hmount))
  unfold At
  rw [htemp]
  exact ⟨rfl, g, hg, hinfo⟩

theorem walk_at (hhead : s.ramfs fs = some head) (hclosed : Closed head) {fuel : Nat}
    {names : List Name} {p q : Place} (hp : At fs head p) (h : walk s fuel p names = .ok q) :
    At fs head q :=
  walk_keeps (fun _ _ _ => goName_at hhead hclosed) hp h

theorem startAt_at (hhead : s.ramfs fs = some head) {node : FileNode} {f : FileHeader}
    (hfs : node.fs = fs) (hf : head.getFileH node.inode = some f) :
    ∃ p, startAt s node = .ok p ∧ p.temp = node ∧ At fs head p := by
  subst hfs
  unfold startAt
  rw [getInfo_of_header ((header_of_ramfs hhead).trans hf)]
  exact ⟨_, rfl, rfl, rfl, f, hf, rfl⟩

theorem locate_at (hhead : s.ramfs fs = some head) (hclosed : Closed head) {fuel t : Nat}
    {path : Name} {p : Place} (hfs : (startNode s t path).fs = fs)
    (hfile : (head.getFileH (startNode s t path).inode).isSome)
    (h : locate s fuel t path = .ok p) : At fs head p := by
  obtain ⟨f, hf⟩ := Option.isSome_iff_exists.mp hfile
  obtain ⟨q, hstart, -, hq⟩ := startAt_at hhead hfs hf
  unfold locate at h
  rw [hstart] at h
  exact walk_at hhead hclosed hq h

end OsThing.Fs
