/-
A lookup before and after a file is made.

`open` looks up a path, makes the file if the path leads nowhere, and looks it up again.
What the second lookup finds can only be the new file: the two walks see the same until
one of them comes to the directory with the new entry and looks for that name, and there
the first one fails.  `Grown` is what the walks need to know about the two states, and
the induction is on the names that are left.
-/
import OsThing.Proofs.Calls

namespace OsThing.Fs

/-! ### What an operation on one file system leaves -/

theorem onRamfs_spec {s s' : Vfs} {node : FileNode} {ret : Int}
    {op : RamfsHeader → Option (Int × RamfsHeader)} (h : s.onRamfs node op = some (ret, s')) :
    ∃ head head', s.ramfs node.fs = some head ∧ op head = some (ret, head') ∧
      s' = s.setRamfs node.fs head' := by
  unfold Vfs.onRamfs at h
  obtain ⟨head, hhead, h⟩ := Option.bind_eq_some_iff.mp h
  obtain ⟨⟨r, head'⟩, hop, h⟩ := Option.map_eq_some_iff.mp h
  obtain ⟨rfl, rfl⟩ := Prod.mk.inj h
  exact ⟨head, head', hhead, hop, rfl⟩

theorem onRamfs_some {s : Vfs} {node : FileNode} {head head' : RamfsHeader} {ret : Int}
    {op : RamfsHeader → Option (Int × RamfsHeader)} (hhead : s.ramfs node.fs = some head)
    (hop : op head = some (ret, head')) :
    s.onRamfs node op = some (ret, s.setRamfs node.fs head') := by
  unfold Vfs.onRamfs
  rw [hhead, Option.bind_some, hop]
  rfl

theorem fsMount_spec {s s' : Vfs} {type dir : FileNode} {ret : Int}
    (h : s.fsMount type dir = some (ret, s')) :
    ∃ id mounts head f, registerMountNode s.mounts dir = some (id, mounts) ∧
      s.ramfs type.fs = some head ∧ head.getFileH type.inode = some f ∧
      s' = { s with mounts := mounts }.setRamfs type.fs
        (head.modifyFile type.inode (fun h => { h with mountId := id }) fun _ => rfl) := by
  unfold Vfs.fsMount at h
  obtain ⟨⟨id, mounts⟩, hmount, h⟩ := Option.bind_eq_some_iff.mp h
  obtain ⟨head, head', hhead, hcall, rfl⟩ := onRamfs_spec h
  obtain ⟨f, hf, hcall⟩ := Option.map_eq_some_iff.mp hcall
  obtain ⟨-, rfl⟩ := Prod.mk.inj hcall
  exact ⟨id, mounts, head, f, hmount, hhead, hf, rfl⟩

theorem header_of_ramfs {s : Vfs} {node : FileNode} {head : RamfsHeader}
    (h : s.ramfs node.fs = some head) : s.header node = head.getFileH node.inode := by
  unfold Vfs.header
  rw [h, Option.bind_some]

/-- The headers after one file system is replaced. -/
theorem header_setRamfs (s : Vfs) (fs : Nat) (head : RamfsHeader) (node : FileNode) :
    (s.setRamfs fs head).header node =
      if node.fs = fs then head.getFileH node.inode else s.header node := by
  unfold Vfs.header Vfs.setRamfs
  dsimp only
  rw [Function.update_apply]
  split
  · rfl
  · rfl

theorem setRamfs_self {s : Vfs} {fs : Nat} {head : RamfsHeader} (h : s.ramfs fs = some head) :
    (s.setRamfs fs head).ramfs = s.ramfs := by
  unfold Vfs.setRamfs
  rw [← h, Function.update_eq_self]

theorem readdir_eq (s : Vfs) (node : FileNode) (dirp : Dirent) (entry : Int) :
    s.readdir node dirp entry = (s.header node).bind fun h => h.readEntry dirp entry := by
  unfold Vfs.readdir Vfs.header ramfsReaddir
  rw [Option.bind_assoc]

/-- What `get_info` leaves in its buffer. -/
theorem getInfo_eq_some {s : Vfs} {node : FileNode} {buf info : FileInfo}
    (h : s.getInfo node buf = some info) :
    info = ((s.header node).map fun f => f.info node).getD buf := by
  unfold Vfs.getInfo at h
  obtain ⟨head, hhead, rfl⟩ := Option.map_eq_some_iff.mp h
  rw [header_of_ramfs hhead]
  unfold ramfsGetInfo
  rcases head.getFileH node.inode with _ | f
  · rfl
  · rfl

theorem header_congr {s s' : Vfs} (h : s'.ramfs = s.ramfs) (node : FileNode) :
    s'.header node = s.header node := by
  unfold Vfs.header
  rw [h]

theorem getInfo_of_header {s : Vfs} {node : FileNode} {f : FileHeader}
    (h : s.header node = some f) (buf : FileInfo) : s.getInfo node buf = some (f.info node) := by
  unfold Vfs.header at h
  obtain ⟨head, hhead, hf⟩ := Option.bind_eq_some_iff.mp h
  unfold Vfs.getInfo ramfsGetInfo
  rw [hhead, Option.map_some, hf]

/-- The inner loop depends on what is read from one node. -/
theorem scanDir_congr {s s' : Vfs} {temp : FileNode}
    (h : ∀ b d, s'.readdir temp b d = s.readdir temp b d) (name : Name) (fuel : Nat) :
    ∀ (d : Int) (b : Dirent), scanDir s' name temp fuel d b = scanDir s name temp fuel d b := by
  induction fuel with
  | zero => intro d b; rfl
  | succ fuel ih =>
      intro d b
      unfold scanDir
      simp only [h, ih]

theorem readdir_congr {s s' : Vfs} {node : FileNode} (h : s'.header node = s.header node)
    (b : Dirent) (d : Int) : s'.readdir node b d = s.readdir node b d := by
  rw [readdir_eq, readdir_eq, h]

/-! ### What a lookup depends on -/

/-- A lookup depends on the file systems, the mounts, and the two nodes of the task. -/
structure SameView (s s' : Vfs) (t : Nat) : Prop where
  ramfs : s'.ramfs = s.ramfs
  mounts : s'.mounts = s.mounts
  zeroPage : s'.zeroPage = s.zeroPage
  root : s'.nodes (s'.tasks t).root = s.nodes (s.tasks t).root
  cwd : s'.nodes (s'.tasks t).cwd = s.nodes (s.tasks t).cwd

theorem fsFindPath_congr {s s' : Vfs} {t : Nat} (h : SameView s s' t) (fuel : Nat) (path : Name)
    (buf : FileNode) : fsFindPath s' fuel t path buf = fsFindPath s fuel t path buf := by
  have hinfo : s'.getInfo = s.getInfo := by
    unfold Vfs.getInfo
    rw [h.ramfs]
  have hfollow : followMount s' = followMount s := by
    unfold followMount
    rw [h.mounts, h.zeroPage]
  have hscan : ∀ name temp turns d b,
      scanDir s' name temp turns d b = scanDir s name temp turns d b := fun name temp =>
    scanDir_congr (readdir_congr (header_congr h.ramfs temp)) name
  have hloop : ∀ names temp info b,
      findLoop s' fuel buf names temp info b = findLoop s fuel buf names temp info b := by
    intro names
    induction names with
    | nil => intro temp info b; rfl
    | cons name rest ih =>
        intro temp info b
        unfold findLoop
        simp only [hscan, hinfo, hfollow, ih]
  unfold fsFindPath fsFindNode
  simp only [h.root, h.cwd, hinfo, hloop]

/-- The result of a lookup does not depend on what the buffer for the node holds. -/
theorem fsFindPath_ret (s : Vfs) (fuel t : Nat) (path : Name) (buf buf' : FileNode) :
    (fsFindPath s fuel t path buf').map Prod.fst = (fsFindPath s fuel t path buf).map Prod.fst := by
  have hloop : ∀ names temp info b, (findLoop s fuel buf' names temp info b).map Prod.fst =
      (findLoop s fuel buf names temp info b).map Prod.fst := by
    intro names
    induction names with
    | nil => intro temp info b; rfl
    | cons name rest ih =>
        intro temp info b
        unfold findLoop
        split
        · split
          · rfl
          · exact ih temp info b
        · split
          · rfl
          · split
            · split
              · rfl
              · rfl
              · split
                · rfl
                · split
                  · rfl
                  · split
                    · rfl
                    · exact ih _ _ _
            · rfl
  have hnode : ∀ node path, (fsFindNode s fuel node path buf').map Prod.fst =
      (fsFindNode s fuel node path buf).map Prod.fst := by
    intro node path
    unfold fsFindNode
    split
    · rfl
    · exact hloop _ _ _ _
  unfold fsFindPath
  dsimp only
  generalize (if path = [] then ['.'] else path) = p
  split
  · split
    · rfl
    · exact hnode _ _
  · exact hnode _ _

/-! ### One name of a path -/

/-- A name that the directory has leads on to its file, and through the mount there. -/
theorem findLoop_enter {s : Vfs} {fuel inode : Nat} {nodebuf temp temp' : FileNode} {name : Name}
    {info i : FileInfo} {b b' : Dirent} (hdot : name ≠ ['.']) (hup : name ≠ ['.', '.'])
    (hdir : info.type = FS_DIR) (hscan : scanDir s name temp fuel 0 b = .ok (some inode, b'))
    (hinfo : s.getInfo ⟨inode, temp.fs⟩ info = some i)
    (hfollow : followMount s i ⟨inode, temp.fs⟩ = .ok temp') (rest : List Name) :
    findLoop s fuel nodebuf (name :: rest) temp info b =
      if rest = [] then .ok (0, temp') else findLoop s fuel nodebuf rest temp' i b' := by
  conv => lhs; unfold findLoop
  rw [if_neg hdot, if_neg hup, if_pos hdir, hscan]
  dsimp only
  rw [hinfo]
  dsimp only
  rw [hfollow]

/-- A walk that comes back has failed at the name, or has gone through it. -/
theorem findLoop_cases {s : Vfs} {fuel : Nat} {nodebuf temp n : FileNode} {name : Name}
    {rest : List Name} {info : FileInfo} {b : Dirent} {e : Int} (hdot : name ≠ ['.'])
    (h : findLoop s fuel nodebuf (name :: rest) temp info b = .ok (e, n)) :
    (e < 0 ∧ (name ≠ ['.', '.'] → info.type = FS_DIR →
        ∃ b', scanDir s name temp fuel 0 b = .ok (none, b'))) ∨
      (name ≠ ['.', '.'] ∧ info.type = FS_DIR ∧ ∃ inode b' i temp',
        scanDir s name temp fuel 0 b = .ok (some inode, b') ∧
        s.getInfo ⟨inode, temp.fs⟩ info = some i ∧
        followMount s i ⟨inode, temp.fs⟩ = .ok temp' ∧
        (if rest = [] then .ok (0, temp') else findLoop s fuel nodebuf rest temp' i b') =
          Except.ok (e, n)) := by
  unfold findLoop at h
  rw [if_neg hdot] at h
  split at h
  · rename_i hup
    obtain ⟨rfl, -⟩ := Prod.mk.inj (Except.ok.inj h)
    exact Or.inl ⟨by decide, fun hne => absurd hup hne⟩
  rename_i hup
  split at h
  · rename_i hdir
    split at h
    · cases h
    · rename_i b' hscan
      obtain ⟨rfl, -⟩ := Prod.mk.inj (Except.ok.inj h)
      exact Or.inl ⟨by decide, fun _ _ => ⟨b', hscan⟩⟩
    · rename_i inode b' hscan
      split at h
      · cases h
      rename_i i hinfo
      split at h
      · cases h
      rename_i temp' hfollow
      exact Or.inr ⟨hup, hdir, inode, b', i, temp', hscan, hinfo, hfollow, h⟩
  · rename_i hdir
    obtain ⟨rfl, -⟩ := Prod.mk.inj (Except.ok.inj h)
    exact Or.inl ⟨by decide, fun _ hne => absurd hne hdir⟩

/-! ### One file more -/

/-- `s'` is `s` with the file `new`, which the directory `dir` calls `name`. -/
structure Created (s s' : Vfs) (dir new : FileNode) (name : Name) (type : Nat) : Prop where
  mounts : s'.mounts = s.mounts
  zeroPage : s'.zeroPage = s.zeroPage
  systems : ∀ fs, (s.ramfs fs).isSome → (s'.ramfs fs).isSome
  fs : new.fs = dir.fs
  old : s.header new = none
  files : ∃ f dirs e g, s.header dir = some f ∧ f.type = FS_DIR ∧ f.data = .entries dirs ∧
    e.inode = new.inode ∧ e.name = name ∧
    g.type = type ∧ g.mountId = 0 ∧ g.data = .entries [] ∧
    ∀ node, s'.header node = if node = new then some g
      else (s.header node).map fun h => if node = dir then h.enter dirs e else h

/-- What `ramfs_mkdir` and `ramfs_mknod` leave. -/
theorem Created.of_added {s s' : Vfs} {dir : FileNode} {head head' : RamfsHeader} {name : Name}
    {mode : UInt32} {type : Nat} (hhead : s.ramfs dir.fs = some head)
    (hadded : Added head head' dir.inode name mode type)
    (hramfs : s'.ramfs = (s.setRamfs dir.fs head').ramfs)
    (hmounts : s'.mounts = s.mounts) (hzero : s'.zeroPage = s.zeroPage) :
    Created s s' dir ⟨head.iCount, dir.fs⟩ name type := by
  obtain ⟨f, dirs, e, hfile, hdir, hdata, hinode, hname, hfiles⟩ := hadded.files
  have hheader : ∀ node, s'.header node =
      if node.fs = dir.fs then head'.getFileH node.inode else s.header node := fun node =>
    (congrArg (fun r => (r node.fs).bind fun h => h.getFileH node.inode) hramfs).trans
      (header_setRamfs s dir.fs head' node)
  refine ⟨hmounts, hzero, fun fs hfs => ?_, rfl, ?_, f, dirs, e,
    { type := type, mask := mode, inode := head.iCount }, (header_of_ramfs hhead).trans hfile,
    hdir, hdata, hinode, hname, rfl, rfl, rfl, fun node => ?_⟩
  · rw [hramfs]
    unfold Vfs.setRamfs
    dsimp only
    rw [Function.update_apply]
    split
    · rfl
    · exact hfs
  · rw [@header_of_ramfs s ⟨head.iCount, dir.fs⟩ head hhead]
    rcases hold : head.getFileH head.iCount with _ | h
    · rfl
    · exact absurd (RamfsHeader.getFileH_lt hold) (Nat.lt_irrefl _)
  · obtain ⟨inode, fs⟩ := node
    obtain ⟨dirInode, dirFs⟩ := dir
    rw [hheader]
    dsimp only
    split
    · rename_i hfs
      subst hfs
      rw [hfiles, @header_of_ramfs s ⟨inode, fs⟩ head hhead]
      simp only [FileNode.mk.injEq, and_true]
    · rename_i hfs
      have hne : ∀ i, (⟨inode, fs⟩ : FileNode) ≠ ⟨i, dirFs⟩ := fun i heq =>
        hfs (congrArg FileNode.fs heq)
      rw [if_neg (hne _)]
      simp only [if_neg (hne _), Option.map_id']

/-- The header `h'` is `h`, but for one entry more if it is a directory. -/
def SameFile (new : FileNode) (node : FileNode) (h h' : FileHeader) : Prop :=
  h'.type = h.type ∧ h'.mountId = h.mountId ∧
    (h'.data = h.data ∨ node.fs = new.fs ∧
      ∃ dirs dir, h.data = .entries dirs ∧ h'.data = .entries (dirs ++ [dir]) ∧
        dir.inode = new.inode)

/-- `s'` is `s` with the file `new` in it, which is no directory and no mount point. -/
structure Grown (s s' : Vfs) (new : FileNode) : Prop where
  mounts : s'.mounts = s.mounts
  zeroPage : s'.zeroPage = s.zeroPage
  files : ∀ node ≠ new, (s.header node = none ∧ s'.header node = none) ∨
    ∃ h h', s.header node = some h ∧ s'.header node = some h' ∧ SameFile new node h h'
  old : s.header new = none
  new : ∃ h, s'.header new = some h ∧ h.type ≠ FS_DIR ∧ h.mountId = 0

/-- A file of any other type than a directory. -/
theorem Created.grown {s s' : Vfs} {dir new : FileNode} {name : Name} {type : Nat}
    (hc : Created s s' dir new name type) (htype : type ≠ FS_DIR) : Grown s s' new := by
  obtain ⟨f, dirs, e, g, hdir, -, hdata, hinode, -, hg, hmount, -, hfiles⟩ := hc.files
  refine ⟨hc.mounts, hc.zeroPage, fun node hne => ?_, hc.old,
    g, (hfiles new).trans (if_pos rfl), hg ▸ htype, hmount⟩
  rw [hfiles, if_neg hne]
  rcases hn : s.header node with _ | h
  · exact Or.inl ⟨rfl, rfl⟩
  · refine Or.inr ⟨h, _, rfl, rfl, ?_⟩
    split
    · rename_i heq
      obtain rfl : f = h := Option.some.inj (hdir.symm.trans (heq ▸ hn))
      exact ⟨rfl, rfl, Or.inr ⟨heq ▸ hc.fs.symm, dirs, e, hdata, rfl, hinode⟩⟩
    · exact ⟨rfl, rfl, Or.inl rfl⟩

/-! ### Two walks -/

/-- Past the old entries there is only the new one. -/
theorem scanDir_past {s' : Vfs} {name : Name} {temp : FileNode} {h' : FileHeader}
    {dirs : List RamfsDirent} {dir : RamfsDirent} (hh' : s'.header temp = some h')
    (htype : h'.type = FS_DIR) (hdata : h'.data = .entries (dirs ++ [dir])) :
    ∀ (fuel : Nat) (d : Int) (b : Dirent) (r : Option Nat) (b' : Dirent),
      dirs.length ≤ d.toNat → scanDir s' name temp fuel d b = .ok (r, b') →
      r = none ∨ r = some dir.inode := by
  intro fuel
  induction fuel with
  | zero => intro d b r b' _ h; cases h
  | succ fuel ih =>
      intro d b r b' hd h
      unfold scanDir at h
      rw [readdir_eq, hh', Option.bind_some] at h
      unfold FileHeader.readEntry at h
      rw [if_neg (not_not.mpr htype), hdata] at h
      dsimp only at h
      rcases Nat.lt_or_eq_of_le hd with hlt | heq
      · rw [List.getElem?_eq_none (by simp; omega)] at h
        dsimp only at h
        rw [if_pos rfl] at h
        obtain ⟨rfl, -⟩ := Prod.mk.inj (Except.ok.inj h)
        exact Or.inl rfl
      · rw [← heq, List.getElem?_concat_length] at h
        dsimp only at h
        rw [if_neg (by decide)] at h
        split at h
        · obtain ⟨rfl, -⟩ := Prod.mk.inj (Except.ok.inj h)
          exact Or.inr rfl
        · exact ih _ _ r b' (by omega) h

/-- What is read in both states is the same, unless it is past the old entries. -/
theorem readEntry_grown {new temp : FileNode} {f f' : FileHeader} (h : SameFile new temp f f')
    (b : Dirent) (d : Int) : f'.readEntry b d = f.readEntry b d ∨
      ∃ dirs dir, f.type = FS_DIR ∧ f.data = .entries dirs ∧ f'.data = .entries (dirs ++ [dir]) ∧
        dir.inode = new.inode ∧ temp.fs = new.fs ∧ dirs.length ≤ d.toNat := by
  obtain ⟨htype, -, hdata | ⟨hfs, dirs, dir, hold, hnew, hinode⟩⟩ := h
  · left
    unfold FileHeader.readEntry
    rw [htype, hdata]
  by_cases hdir : f.type = FS_DIR
  · by_cases hlt : d.toNat < dirs.length
    · left
      unfold FileHeader.readEntry
      rw [htype, if_neg (not_not.mpr hdir), if_neg (not_not.mpr hdir), hold, hnew]
      dsimp only
      rw [List.getElem?_append_left hlt]
    · exact Or.inr ⟨dirs, dir, hdir, hold, hnew, hinode, hfs, Nat.le_of_not_lt hlt⟩
  · left
    unfold FileHeader.readEntry
    rw [if_pos hdir, if_pos (fun hd => hdir (htype ▸ hd))]

/-- Where the old directory ends, nothing is found. -/
theorem scanDir_end {s : Vfs} {name : Name} {temp : FileNode} {f : FileHeader}
    {dirs : List RamfsDirent} (hf : s.header temp = some f) (htype : f.type = FS_DIR)
    (hdata : f.data = .entries dirs) {fuel : Nat} {d : Int} (hlen : dirs.length ≤ d.toNat)
    {b b' : Dirent} {r : Option Nat} (h : scanDir s name temp (fuel + 1) d b = .ok (r, b')) :
    r = none := by
  unfold scanDir at h
  rw [readdir_eq, hf, Option.bind_some] at h
  unfold FileHeader.readEntry at h
  rw [if_neg (not_not.mpr htype), hdata] at h
  dsimp only at h
  rw [List.getElem?_eq_none hlen] at h
  dsimp only at h
  rw [if_pos rfl] at h
  obtain ⟨rfl, -⟩ := Prod.mk.inj (Except.ok.inj h)
  rfl

/-- The inner loop in both states: it finds the same, or only the new file. -/
theorem scanDir_grown {s s' : Vfs} {new : FileNode} (hg : Grown s s' new) {name : Name}
    {temp : FileNode} :
    ∀ (fuel : Nat) (d : Int) (b : Dirent) (r r' : Option Nat) (b₁ b₂ : Dirent),
      scanDir s name temp fuel d b = .ok (r, b₁) → scanDir s' name temp fuel d b = .ok (r', b₂) →
      (r' = r ∧ b₂ = b₁) ∨
        (r = none ∧ (r' = none ∨ (r' = some new.inode ∧ temp.fs = new.fs))) := by
  intro fuel
  induction fuel with
  | zero => intro d b r r' b₁ b₂ h _; cases h
  | succ fuel ih =>
      intro d b r r' b₁ b₂ h h'
      have hne : temp ≠ new := by
        rintro rfl
        unfold scanDir at h
        rw [readdir_eq, hg.old, Option.bind_none] at h
        cases h
      rcases hg.files temp hne with ⟨hnone, -⟩ | ⟨f, f', hf, hf', hsame⟩
      · unfold scanDir at h
        rw [readdir_eq, hnone, Option.bind_none] at h
        cases h
      rcases readEntry_grown hsame b d with hread | ⟨dirs, dir, hdir, hold, hnew, hinode, hfs, hlen⟩
      · -- the same entry, and the same turn of the loop
        unfold scanDir at h h'
        rw [readdir_eq, hf, Option.bind_some] at h
        rw [readdir_eq, hf', Option.bind_some, hread] at h'
        rcases hentry : f.readEntry b d with _ | ⟨ret, b'⟩
        · rw [hentry] at h
          cases h
        rw [hentry] at h h'
        dsimp only at h h'
        split at h
        · rename_i hret
          rw [if_pos hret] at h'
          obtain ⟨rfl, rfl⟩ := Prod.mk.inj (Except.ok.inj h)
          obtain ⟨rfl, rfl⟩ := Prod.mk.inj (Except.ok.inj h')
          exact Or.inl ⟨rfl, rfl⟩
        rename_i hret
        rw [if_neg hret] at h'
        split at h
        · rename_i hname
          rw [if_pos hname] at h'
          obtain ⟨rfl, rfl⟩ := Prod.mk.inj (Except.ok.inj h)
          obtain ⟨rfl, rfl⟩ := Prod.mk.inj (Except.ok.inj h')
          exact Or.inl ⟨rfl, rfl⟩
        · rename_i hname
          rw [if_neg hname] at h'
          exact ih _ _ r r' b₁ b₂ h h'
      · have hpast := scanDir_past hf' (hsame.1.trans hdir) hnew _ _ _ _ _ hlen h'
        rw [hinode] at hpast
        exact Or.inr ⟨scanDir_end hf hdir hold hlen h, hpast.imp_right fun hr => ⟨hr, hfs⟩⟩

/-- A walk that has come to the new file gets no further. -/
theorem findLoop_at_new {s' : Vfs} {fuel : Nat} {nodebuf new n : FileNode} {e : Int} :
    ∀ (names : List Name) (info : FileInfo) (b : Dirent), info.type ≠ FS_DIR →
      findLoop s' fuel nodebuf names new info b = .ok (e, n) → 0 ≤ e → n = new := by
  intro names
  induction names with
  | nil =>
      intro info b _ h he
      obtain ⟨rfl, -⟩ := Prod.mk.inj (Except.ok.inj h)
      exact absurd he (by decide)
  | cons name rest ih =>
      intro info b htype h he
      unfold findLoop at h
      split at h
      · split at h
        · exact (Prod.mk.inj (Except.ok.inj h)).2.symm
        · exact ih info b htype h he
      · split at h
        · obtain ⟨rfl, -⟩ := Prod.mk.inj (Except.ok.inj h)
          exact absurd he (by decide)
        · obtain ⟨rfl, -⟩ := Prod.mk.inj (Except.ok.inj h)
          exact absurd he (by decide)

/-- What the two walks know of a file: the same, unless it is the new one. -/
theorem getInfo_grown {s s' : Vfs} {new : FileNode} (hg : Grown s s' new) {node : FileNode}
    {info info' i i' : FileInfo} (hinfo : info'.type = info.type ∧ info'.mountId = info.mountId)
    (h : s.getInfo node info = some i) (h' : s'.getInfo node info' = some i') :
    (i'.type = i.type ∧ i'.mountId = i.mountId) ∨
      (node = new ∧ i'.type ≠ FS_DIR ∧ i'.mountId = 0) := by
  rw [getInfo_eq_some h, getInfo_eq_some h']
  by_cases hne : node = new
  · obtain ⟨f, hf, htype, hmount⟩ := hg.new
    rw [hne, hf]
    exact Or.inr ⟨rfl, htype, hmount⟩
  · left
    rcases hg.files node hne with ⟨hnone, hnone'⟩ | ⟨f, f', hf, hf', htype, hmount, -⟩
    · rw [hnone, hnone']
      exact hinfo
    · rw [hf, hf']
      exact ⟨htype, hmount⟩

theorem followMount_zero (s : Vfs) {info : FileInfo} (temp : FileNode) (h : info.mountId = 0) :
    followMount s info temp = .ok temp := if_pos h

/-- The walk that comes to the new file stays at it. -/
theorem Grown.followMount_new {s s' : Vfs} {new temp : FileNode} (hg : Grown s s' new)
    {info i : FileInfo} (hi : s'.getInfo new info = some i)
    (hfollow : followMount s' i new = .ok temp) : temp = new ∧ i.type ≠ FS_DIR := by
  obtain ⟨f, hf, htype, hmount⟩ := hg.new
  rw [getInfo_eq_some hi, hf] at hfollow ⊢
  exact ⟨Except.ok.inj (hfollow.symm.trans (followMount_zero s' new hmount)), htype⟩

theorem Grown.followMount_eq {s s' : Vfs} {new : FileNode} (hg : Grown s s' new)
    {i i' : FileInfo} (hmount : i'.mountId = i.mountId) (temp : FileNode) :
    followMount s' i' temp = followMount s i temp := by
  unfold followMount
  rw [hmount, hg.mounts, hg.zeroPage]

/-- **Of two walks on the same path, if only the second one leads anywhere, it leads to the
new file.** -/
theorem findLoop_grown {s s' : Vfs} {new : FileNode} (hg : Grown s s' new) {fuel : Nat}
    {nodebuf nodebuf' n n' : FileNode} {e e' : Int} (he : e < 0) (he' : 0 ≤ e') :
    ∀ (names : List Name) (temp : FileNode) (info info' : FileInfo) (b : Dirent),
      info'.type = info.type ∧ info'.mountId = info.mountId →
      findLoop s fuel nodebuf names temp info b = .ok (e, n) →
      findLoop s' fuel nodebuf' names temp info' b = .ok (e', n') → n' = new := by
  intro names
  induction names with
  | nil =>
      intro temp info info' b _ _ h'
      obtain ⟨rfl, -⟩ := Prod.mk.inj (Except.ok.inj h')
      exact absurd he' (by decide)
  | cons name rest ih =>
      intro temp info info' b hinfo h h'
      by_cases hdot : name = ['.']
      · unfold findLoop at h h'
        rw [if_pos hdot] at h h'
        split at h
        · obtain ⟨rfl, -⟩ := Prod.mk.inj (Except.ok.inj h)
          exact absurd he (by decide)
        · rename_i hrest
          rw [if_neg hrest] at h'
          exact ih temp info info' b hinfo h h'
      rcases findLoop_cases hdot h' with
        ⟨hfail, -⟩ | ⟨hup, hdir', inode', b₂, i', temp₂, hscan', hi', hfollow', h'⟩
      · exact absurd he' (by omega)
      have hdir : info.type = FS_DIR := hinfo.1.symm.trans hdir'
      -- if this is where the new file is found, the walk is at its end
      have hnew : (⟨inode', temp.fs⟩ : FileNode) = new → n' = new := by
        intro hnode
        rw [hnode] at hi' hfollow'
        obtain ⟨rfl, htype⟩ := hg.followMount_new hi' hfollow'
        split at h'
        · exact (Prod.mk.inj (Except.ok.inj h')).2.symm
        · exact findLoop_at_new rest i' b₂ htype h' he'
      rcases findLoop_cases hdot h with
        ⟨-, hnone⟩ | ⟨-, -, inode, b₁, i, temp₁, hscan, hi, hfollow, h⟩
      · obtain ⟨b₁, hscan⟩ := hnone hup hdir
        rcases scanDir_grown hg fuel 0 b _ _ b₁ b₂ hscan hscan' with ⟨hr, -⟩ | ⟨-, hr | ⟨hr, hfs⟩⟩
        · cases hr
        · cases hr
        · exact hnew (by rw [Option.some.inj hr, hfs])
      rcases scanDir_grown hg fuel 0 b _ _ b₁ b₂ hscan hscan' with ⟨hr, rfl⟩ | ⟨hr, -⟩
      · obtain rfl : inode' = inode := Option.some.inj hr
        rcases getInfo_grown hg hinfo hi hi' with hsame | ⟨hnode, -⟩
        · rw [hg.followMount_eq hsame.2, hfollow] at hfollow'
          obtain rfl : temp₁ = temp₂ := Except.ok.inj hfollow'
          split at h
          · obtain ⟨rfl, -⟩ := Prod.mk.inj (Except.ok.inj h)
            exact absurd he (by decide)
          · rename_i hrest
            rw [if_neg hrest] at h'
            exact ih temp₁ i i' b₂ hsame h h'
        · exact hnew hnode
      · cases hr

/-- The same for `fs_find_path`, if the task starts from the same two nodes. -/
theorem fsFindPath_grown {s s' : Vfs} {new : FileNode} (hg : Grown s s' new) {fuel t : Nat}
    {path : Name} {buf buf' n n' : FileNode} {e e' : Int} (he : e < 0) (he' : 0 ≤ e')
    (htasks : s'.tasks = s.tasks)
    (hroot : s'.nodes (s.tasks t).root = s.nodes (s.tasks t).root)
    (hcwd : s'.nodes (s.tasks t).cwd = s.nodes (s.tasks t).cwd)
    (h : fsFindPath s fuel t path buf = .ok (e, n))
    (h' : fsFindPath s' fuel t path buf' = .ok (e', n')) : n' = new := by
  have hnode : ∀ node path, fsFindNode s fuel node path buf = .ok (e, n) →
      fsFindNode s' fuel node path buf' = .ok (e', n') → n' = new := by
    intro node path h h'
    unfold fsFindNode at h h'
    split at h
    · cases h
    rename_i i hi
    split at h'
    · cases h'
    rename_i i' hi'
    rcases getInfo_grown hg ⟨rfl, rfl⟩ hi hi' with hsame | ⟨rfl, htype, -⟩
    · exact findLoop_grown hg he he' _ node i i' _ hsame h h'
    · exact findLoop_at_new _ i' _ htype h' he'
  unfold fsFindPath at h h'
  rw [htasks, hroot, hcwd] at h'
  dsimp only at h h'
  generalize (if path = [] then ['.'] else path) = p at h h'
  split at h
  · rename_i hslash
    rw [if_pos hslash] at h'
    split at h
    · obtain ⟨rfl, -⟩ := Prod.mk.inj (Except.ok.inj h)
      exact absurd he (by decide)
    · rename_i hlong
      rw [if_neg hlong] at h'
      exact hnode _ _ h h'
  · rename_i hslash
    rw [if_neg hslash] at h'
    exact hnode _ _ h h'

/-! ### How `open` finds its file -/

theorem findPath_spec {s s' : Vfs} {fuel t a : Nat} {path : Name} {ret : Int}
    (h : s.findPath fuel t path a = some (ret, s')) :
    ∃ node, fsFindPath s fuel t path (s.nodes a) = .ok (ret, node) ∧ s' = s.setNode a node := by
  unfold Vfs.findPath at h
  obtain ⟨⟨r, node⟩, hfind, h⟩ := Option.map_eq_some_iff.mp h
  obtain ⟨rfl, rfl⟩ := Prod.mk.inj h
  exact ⟨node, toOption_eq_some hfind, rfl⟩

theorem setNode_setNode (s : Vfs) (a : Nat) (node node' : FileNode) :
    (s.setNode a node).setNode a node' = s.setNode a node' := by
  unfold Vfs.setNode
  rw [Function.update_idem]

/-- What the lookups of `open` leave: a node at `a`, of the file or of the directory to make
it in. -/
theorem openFind_cases {s s₁ : Vfs} {fuel t a : Nat} {path : Name} {flags : UInt32} {err : Int}
    {found : Bool} (h : s.openFind fuel t path flags a = some (err, found, s₁)) :
    (∃ node, s₁ = s.setNode a node) ∧ (found = false → 0 ≤ err →
      flags &&& O_CREAT ≠ 0 ∧ ∃ e node, e < 0 ∧
        fsFindPath s fuel t path (s.nodes a) = .ok (e, node)) := by
  unfold Vfs.openFind at h
  obtain ⟨⟨e, s₂⟩, hfind, h⟩ := Option.bind_eq_some_iff.mp h
  obtain ⟨node, hpath, rfl⟩ := findPath_spec hfind
  dsimp only at h
  split at h
  · rename_i he
    split at h
    · rename_i hcreat
      obtain ⟨⟨e', s₃⟩, hparent, h⟩ := Option.map_eq_some_iff.mp h
      obtain ⟨-, hrest⟩ := Prod.mk.inj h
      obtain ⟨-, rfl⟩ := Prod.mk.inj hrest
      obtain ⟨node', -, rfl⟩ := findPath_spec hparent
      exact ⟨⟨node', setNode_setNode s a node node'⟩, fun _ _ => ⟨hcreat, e, node, he, hpath⟩⟩
    · obtain ⟨rfl, hrest⟩ := Prod.mk.inj (Option.some.inj h)
      obtain ⟨-, rfl⟩ := Prod.mk.inj hrest
      exact ⟨⟨node, rfl⟩, fun _ herr => absurd herr (by decide)⟩
  · obtain ⟨-, hrest⟩ := Prod.mk.inj (Option.some.inj h)
    obtain ⟨rfl, rfl⟩ := Prod.mk.inj hrest
    exact ⟨⟨node, rfl⟩, fun hfalse => absurd hfalse (by decide)⟩

theorem ramfsOpen_cases {head head' : RamfsHeader} {node : FileNode} {name : Name}
    {flags : UInt32} {ret : Int} (h : ramfsOpen head node name flags = some (ret, head')) :
    head' = head ∨ ramfsAdd head node name 0o777 FS_FILE = some (ret, head') := by
  unfold ramfsOpen at h
  obtain ⟨f, -, h⟩ := Option.bind_eq_some_iff.mp h
  split at h
  · exact Or.inr h
  · obtain ⟨-, rfl⟩ := Prod.mk.inj (Option.some.inj h)
    exact Or.inl rfl

/-- What the file system does to the trees, with the node it is given in the block at `a`. -/
theorem openNode_tree {s s₀ : Vfs} {dir : FileNode} {a : Nat} {path : Name} {flags : UInt32}
    {ret : Int} (h : openNode (s.setNode a dir) path flags a = some (ret, s₀)) :
    ∃ s₁, TreeChange s s₁ ∧ s₀.ramfs = s₁.ramfs ∧ s₀.mounts = s₁.mounts ∧
      s₀.zeroPage = s₁.zeroPage := by
  have hdir : (s.setNode a dir).nodes a = dir := Function.update_self ..
  unfold openNode at h
  rw [hdir] at h
  obtain ⟨head, head', hhead, hop, rfl⟩ := onRamfs_spec h
  have hhead : s.ramfs dir.fs = some head := hhead
  rcases ramfsOpen_cases hop with rfl | hadd
  · exact ⟨s, .same, setRamfs_self hhead, rfl, rfl⟩
  · have hadded : (s.onRamfs dir fun head => ramfsAdd head dir (lastName path) 0o777 FS_FILE) =
        some (ret, s.setRamfs dir.fs head') := by
      unfold Vfs.onRamfs
      dsimp only
      rw [hhead, Option.bind_some, hadd, Option.map_some]
    exact ⟨_, .add hadded, rfl, rfl, rfl⟩

/-- What `open` does to the trees before it gives out a descriptor: nothing, or it makes a
file. -/
theorem openFile_tree {s s₀ : Vfs} {fuel t a : Nat} {path : Name} {flags : UInt32} {err : Int}
    (h : s.openFile fuel t path flags a = some (err, s₀)) :
    ∃ s₁, TreeChange s s₁ ∧ s₀.ramfs = s₁.ramfs ∧ s₀.mounts = s₁.mounts ∧
      s₀.zeroPage = s₁.zeroPage := by
  have hnode : ∀ {dir : FileNode} {ret : Int} {s₁ : Vfs},
      openNode (s.setNode a dir) path flags a = some (ret, s₁) → s₀.ramfs = s₁.ramfs →
      s₀.mounts = s₁.mounts → s₀.zeroPage = s₁.zeroPage →
      ∃ s₁, TreeChange s s₁ ∧ s₀.ramfs = s₁.ramfs ∧ s₀.mounts = s₁.mounts ∧
        s₀.zeroPage = s₁.zeroPage := by
    intro dir ret s₁ hopen hramfs hmounts hzero
    obtain ⟨s₂, htree, h₁, h₂, h₃⟩ := openNode_tree hopen
    exact ⟨s₂, htree, hramfs.trans h₁, hmounts.trans h₂, hzero.trans h₃⟩
  cases openFile_ends h with
  | lost found herr hfind =>
      obtain ⟨⟨dir, rfl⟩, -⟩ := openFind_cases hfind
      exact ⟨s, .same, rfl, rfl, rfl⟩
  | refused e found he herr hfind hperms =>
      obtain ⟨⟨dir, rfl⟩, -⟩ := openFind_cases hfind
      exact ⟨s, .same, rfl, rfl, rfl⟩
  | opened e found s₁ he hend hfind hperms hopen =>
      obtain ⟨⟨dir, rfl⟩, -⟩ := openFind_cases hfind
      exact hnode hopen rfl rfl rfl
  | made e ret s₁ s₂ he hret hfind hperms hopen hlast =>
      obtain ⟨⟨dir, rfl⟩, -⟩ := openFind_cases hfind
      obtain ⟨node, -, rfl⟩ := findPath_spec hlast
      exact hnode hopen rfl rfl rfl

end OsThing.Fs
