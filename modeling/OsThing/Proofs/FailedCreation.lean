/-
What `mkdir` and `mknod` change where they fail.

They cut the path of the caller before they know whether its directory is there, and never
mend it.  So a call that fails leaves the path as it was only if it failed before the cut, since
the path exists, or if there was nothing to cut.  In the second case the directory is the root
or the working directory of the task, and looking it up does not fail; then `mknod`, which does
not look at the result, has a node as well.
-/
import OsThing.Fs.CutPath
import OsThing.Proofs.OpenFrame

namespace OsThing.Fs

/-! ### The cut -/

theorem lastSlash_none {path : Name} (h : '/' ∉ path) : ∀ n, lastSlash path n = 0
  | 0 => rfl
  | n + 1 => (if_neg fun hslash => h (List.mem_of_getElem? hslash)).trans (lastSlash_none h n)

/-- The loop stops at the last slash. -/
theorem lastSlash_append {dir name : Name} (h : '/' ∉ name) :
    ∀ k, lastSlash (dir ++ '/' :: name) (dir.length + k) = dir.length := by
  intro k
  induction k with
  | zero =>
      cases hlen : dir.length with
      | zero => rfl
      | succ n =>
          refine if_pos ?_
          rw [← hlen, List.getElem?_append_right (Nat.le_refl _), Nat.sub_self]
          rfl
  | succ k ih =>
      have hbehind : (dir ++ '/' :: name)[dir.length + k + 1]? = name[k]? := by
        rw [List.getElem?_append_right (by omega), Nat.add_assoc, Nat.add_sub_cancel_left]
        rfl
      refine (if_neg fun hslash => h ?_).trans ih
      exact List.mem_of_getElem? (hbehind.symm.trans hslash)

theorem cutIndex_append {dir name : Name} (h : '/' ∉ name) :
    cutIndex (dir ++ '/' :: name) = dir.length := by
  unfold cutIndex
  rw [List.length_append]
  exact lastSlash_append h _

theorem splitPath_append (dir name : Name) :
    splitPath (dir ++ '/' :: name) dir.length = (if dir = [] then ['/'] else dir, name) := by
  unfold splitPath
  cases dir with
  | nil => rfl
  | cons c dir =>
      have hcut : (c :: dir).length ≠ 0 := Nat.succ_ne_zero _
      rw [if_pos hcut, if_neg (List.cons_ne_nil c dir), List.take_left, ← List.drop_drop,
        List.drop_left]
      rfl

/-- **Both ways to split a path are one.** -/
theorem splitPath_eq (path : Name) :
    splitPath path (cutIndex path) = (dirPath path, lastName path) := by
  rcases path_split path with ⟨hslash, hparent, hself⟩ | hjoin
  · have hhead : path.head? ≠ some '/' := fun h => hslash (List.mem_of_head? h)
    unfold splitPath dirPath cutIndex
    rw [lastSlash_none hslash, if_neg (not_not.mpr rfl), if_neg hhead, if_neg (not_not.mpr hparent),
      if_neg hhead, hself]
  · have hdir : dirPath path = if parentPath path = [] then ['/'] else parentPath path := by
      unfold dirPath
      by_cases hparent : parentPath path = []
      · have hhead : path.head? = some '/' := by
          rw [hjoin, hparent]
          rfl
        rw [if_neg (not_not.mpr hparent), if_pos hhead, if_pos hparent]
      · rw [if_pos hparent, if_neg hparent]
    have hslash := lastName_no_slash path
    rw [hdir]
    generalize lastName path = name at hjoin hslash ⊢
    generalize parentPath path = dir at hjoin ⊢
    rw [hjoin, cutIndex_append hslash, splitPath_append]

theorem lastSlash_slash {path : Name} : ∀ {n}, lastSlash path n ≠ 0 →
    path[lastSlash path n]? = some '/' := by
  intro n
  induction n with
  | zero => intro h; exact absurd rfl h
  | succ n ih =>
      intro h
      unfold lastSlash at h ⊢
      split
      next hslash => exact hslash
      next hother =>
        rw [if_neg hother] at h
        exact ih h

/-- A path that is cut is not what it was. -/
theorem cutString_ne {path : Name} (h : cutIndex path ≠ 0) :
    cutString path (cutIndex path) ≠ path := by
  intro hsame
  have hslash : path[cutIndex path]? = some '/' := lastSlash_slash h
  obtain ⟨hlt, -⟩ := List.getElem?_eq_some_iff.mp hslash
  have hzero : (cutString path (cutIndex path))[cutIndex path]? = some '\x00' := by
    unfold cutString
    rw [if_neg h]
    exact List.getElem?_set_self hlt
  rw [hsame, hslash] at hzero
  exact absurd hzero (by decide)

/-! ### Calls -/

/-- The call returns a negative value, whatever its node holds at first; the files are what they
were, and so is the path. -/
def FailsCleanly (s : Vfs) (path : Name) (call : FileNode → Option (Int × Name × Vfs)) : Prop :=
  ∃ ret < 0, ∀ junk, call junk = some (ret, path, s)

/-- The path leads to something that is no directory. -/
def LeadsToNoDir (s : Vfs) (fuel t : Nat) (path : Name) : Prop :=
  ∃ node, Resolves s fuel t path node ∧ ∀ f, s.header node = some f → f.type ≠ FS_DIR

/-- There is nothing to be made: the path exists, or there is no directory to make it in. -/
def Refused (s : Vfs) (fuel t : Nat) (path : Name) : Prop :=
  (∃ node, Resolves s fuel t path node) ∨
    (∃ e, Fails s fuel t path e) ∧
      ((∃ e, Fails s fuel t (dirPath path) e) ∨ LeadsToNoDir s fuel t (dirPath path))

/-- The path exists, or it has no slash behind its first character, and the root or the working
directory, whichever it is looked for in, is a file. -/
def NothingToCut (s : Vfs) (fuel t : Nat) (path : Name) : Prop :=
  (∃ node, Resolves s fuel t path node) ∨
    cutIndex path = 0 ∧ (s.header (startNode s t path)).isSome

section Lookups

variable {s : Vfs} {fuel t : Nat} {path : Name} {buf node : FileNode} {ret : Int}

/-- What goes on behind two lookups of one path is the same if it does not look at the nodes that
they were given. -/
theorem lookup_bind {β γ : Type*} {f : Int × FileNode → Option β} {g : Int × FileNode → Option γ}
    {u : β → γ} (buf buf' : FileNode) (hfailed : ∀ ret < 0, (f (ret, buf)).map u = g (ret, buf'))
    (hfound : ∀ node, (f (0, node)).map u = g (0, node)) :
    ((fsFindPath s fuel t path buf).toOption.bind f).map u =
      (fsFindPath s fuel t path buf').toOption.bind g := by
  by_cases hnames : pathNames path = []
  · rw [fsFindPath_root s fuel t buf hnames, fsFindPath_root s fuel t buf' hnames]
    exact hfound _
  · rw [fsFindPath_eq s fuel t buf hnames, fsFindPath_eq s fuel t buf' hnames]
    rcases hwalk : locate s fuel t path with (stuck | err) | p
    · rfl
    · exact hfailed err (locate_failed_neg hwalk)
    · exact hfound _

/-- Without a cut, the directory is where the lookup of the path starts. -/
theorem dirPath_uncut (h : cutIndex path = 0) : dirPath path = ['/'] ∧ path.head? = some '/' ∨
    dirPath path = ['.'] ∧ path.head? ≠ some '/' := by
  have hsplit := congrArg Prod.fst (splitPath_eq path)
  rw [h] at hsplit
  unfold splitPath at hsplit
  rw [if_neg (not_not.mpr rfl)] at hsplit
  by_cases hhead : path.head? = some '/'
  · rw [if_pos hhead] at hsplit
    exact .inl ⟨hsplit.symm, hhead⟩
  · rw [if_neg hhead] at hsplit
    exact .inr ⟨hsplit.symm, hhead⟩

theorem uncut_found (h : cutIndex path = 0)
    (hfind : fsFindPath s fuel t (dirPath path) buf = .ok (ret, node)) :
    ret = 0 ∧ node = startNode s t path := by
  rcases dirPath_uncut h with ⟨hdir, hhead⟩ | ⟨hdir, hhead⟩
  · rw [hdir] at hfind
    obtain ⟨rfl, rfl⟩ := Prod.mk.inj (Except.ok.inj hfind)
    exact ⟨rfl, (if_pos hhead).symm⟩
  · rw [hdir] at hfind
    obtain ⟨hret, hnode⟩ := fsFindPath_here hfind
    exact ⟨hret, hnode.trans (if_neg hhead).symm⟩

end Lookups

section Calls

variable {s : Vfs} {fuel t : Nat} {path : Name} {mode : UInt32} {dev : Nat}
  {call : FileNode → Option (Int × Name × Vfs)}

/-- What both calls come to if they find a directory. -/
def Vfs.addAt (s : Vfs) (dir : FileNode) (name : Name) (mode : UInt32) (type : Nat)
    (path : Name) : Option (Int × Name × Vfs) :=
  (s.onRamfs dir fun head => ramfsAdd head dir name mode type).map fun (ret, s) => (ret, path, s)

theorem ramfsAdd_no_file {head : RamfsHeader} {dir : FileNode} {name : Name} {type : Nat}
    (h : head.getFileH dir.inode = none) : ramfsAdd head dir name mode type = none := by
  unfold ramfsAdd
  rw [h]
  rfl

theorem ramfsAdd_no_dir {head : RamfsHeader} {dir : FileNode} {name : Name} {type : Nat}
    {f : FileHeader} (h : head.getFileH dir.inode = some f) (htype : f.type ≠ FS_DIR) :
    ramfsAdd head dir name mode type = some (-1, head) := by
  unfold ramfsAdd
  rw [h, Option.bind_some, if_pos htype]

theorem addAt_no_file {dir : FileNode} {name : Name} {type : Nat} (h : s.header dir = none) :
    s.addAt dir name mode type path = none := by
  unfold Vfs.addAt Vfs.onRamfs
  unfold Vfs.header at h
  cases hhead : s.ramfs dir.fs with
  | none => rfl
  | some head =>
      rw [hhead, Option.bind_some] at h
      rw [Option.bind_some]
      dsimp only
      rw [ramfsAdd_no_file h]
      rfl

theorem addAt_no_dir {dir : FileNode} {name : Name} {type : Nat} {f : FileHeader}
    (h : s.header dir = some f) (htype : f.type ≠ FS_DIR) :
    s.addAt dir name mode type path = some (-1, path, s) := by
  unfold Vfs.header at h
  obtain ⟨head, hhead, hfile⟩ := Option.bind_eq_some_iff.mp h
  unfold Vfs.addAt Vfs.onRamfs
  rw [hhead, Option.bind_some]
  dsimp only
  rw [ramfsAdd_no_dir hfile htype]
  refine congrArg (fun ramfs => some ((-1 : Int), path, { s with ramfs := ramfs })) ?_
  rw [← hhead]
  exact Function.update_eq_self _ _

/-- Where nothing is cut, it matters only that there is a file to be turned away from. -/
theorem uncut_iff {name : Name} {type : Nat}
    (hcall : ∀ junk, call junk = s.addAt (startNode s t path) name mode type path)
    (hdir : ∀ f, s.header (startNode s t path) = some f → f.type ≠ FS_DIR) :
    FailsCleanly s path call ↔ (s.header (startNode s t path)).isSome := by
  constructor
  · rintro ⟨ret, -, hclean⟩
    by_contra hnone
    have hcalled := (hcall ⟨0, 0⟩).symm.trans (hclean ⟨0, 0⟩)
    rw [addAt_no_file (Option.not_isSome_iff_eq_none.mp hnone)] at hcalled
    cases hcalled
  · intro hsome
    obtain ⟨f, hf⟩ := Option.isSome_iff_exists.mp hsome
    exact ⟨-1, by decide, fun junk => (hcall junk).trans (addAt_no_dir hf (hdir f hf))⟩

/-- Where the path is cut, it is not what it was. -/
theorem cut_unclean (hcut : cutIndex path ≠ 0)
    (hcall : ∀ junk r, call junk = some r → r.2.1 = cutString path (cutIndex path)) :
    ¬ FailsCleanly s path call := by
  rintro ⟨ret, -, hclean⟩
  exact cutString_ne hcut (hcall _ _ (hclean ⟨0, 0⟩)).symm

/-- What is left to show of a call: it ends at once if the path exists, it cuts the path if the
lookup fails, and it goes on to the directory if that is found. -/
theorem failsCleanly_iff (mode : UInt32) (type : Nat) (hrefused : Refused s fuel t path)
    (hexists : ∀ node, Resolves s fuel t path node →
      ∀ junk, call junk = some (-EEXIST, path, s))
    (hcut : ∀ e, Fails s fuel t path e →
      ∀ junk r, call junk = some r → r.2.1 = cutString path (cutIndex path))
    (hfound : ∀ e dir, Fails s fuel t path e → Resolves s fuel t (dirPath path) dir →
      ∀ junk, call junk = s.addAt dir (lastName path) mode type (cutString path (cutIndex path))) :
    FailsCleanly s path call ↔ NothingToCut s fuel t path := by
  by_cases hthere : ∃ node, Resolves s fuel t path node
  · obtain ⟨node, hnode⟩ := hthere
    exact iff_of_true ⟨-EEXIST, by decide, hexists node hnode⟩ (.inl ⟨node, hnode⟩)
  obtain ⟨⟨e, hfails⟩, hparent⟩ := hrefused.resolve_left hthere
  rw [NothingToCut, or_iff_right hthere]
  by_cases huncut : cutIndex path = 0
  · rw [and_iff_right huncut]
    rcases hparent with ⟨e', hparent⟩ | ⟨dir, hfind, hdir⟩
    · obtain ⟨rfl, -⟩ := uncut_found huncut (hparent.failed ⟨0, 0⟩)
      exact absurd hparent.1 (Int.lt_irrefl 0)
    · obtain ⟨-, rfl⟩ := uncut_found huncut hfind
      have hcall := hfound e _ hfails hfind
      rw [huncut] at hcall
      exact uncut_iff hcall hdir
  · exact iff_of_false (cut_unclean huncut (hcut e hfails)) fun h => huncut h.1

/-- The calls behind the cut. -/
theorem mkdirCut_eq {e : Int} (hfails : Fails s fuel t path e) (junk : FileNode) :
    s.mkdirCut fuel t path mode junk =
      (fsFindPath s fuel t (dirPath path) junk).toOption.bind fun (ret, dir) =>
        if ret < 0 then some (ret, cutString path (cutIndex path), s)
        else s.addAt dir (lastName path) mode FS_DIR (cutString path (cutIndex path)) := by
  unfold Vfs.mkdirCut
  rw [hfails.failed]
  dsimp only [Except.toOption, Option.bind_some]
  rw [if_neg (Int.ne_of_lt hfails.1), splitPath_eq]
  rfl

theorem mknodCut_eq {e : Int} (hfails : Fails s fuel t path e) (junk : FileNode) :
    s.mknodCut fuel t path mode dev junk =
      (fsFindPath s fuel t (dirPath path) junk).toOption.bind fun (_, fp) =>
        s.addAt fp (lastName path) mode dev (cutString path (cutIndex path)) := by
  unfold Vfs.mknodCut
  rw [hfails.failed]
  dsimp only [Except.toOption, Option.bind_some]
  rw [if_neg (Int.ne_of_lt hfails.1), splitPath_eq]
  rfl

/-- If there is no such directory, `mknod` uses the node as it is. -/
theorem mknodCut_junk {e e' : Int} (hfails : Fails s fuel t path e)
    (hparent : Fails s fuel t (dirPath path) e') (junk : FileNode) :
    s.mknodCut fuel t path mode dev junk =
      s.addAt junk (lastName path) mode dev (cutString path (cutIndex path)) := by
  rw [mknodCut_eq hfails, hparent.failed]
  rfl

theorem addAt_map {dir : FileNode} {name path' : Name} {type : Nat} :
    (s.addAt dir name mode type path').map (fun r => (r.1, r.2.2)) =
      s.onRamfs dir fun head => ramfsAdd head dir name mode type := by
  unfold Vfs.addAt
  rw [Option.map_map]
  exact congrFun Option.map_id _

/-- Apart from the string, these are the calls of `Fs/Calls`. -/
theorem mkdirCut_mkdir (junk : FileNode) :
    (s.mkdirCut fuel t path mode junk).map (fun r => (r.1, r.2.2)) = s.mkdir fuel t path mode := by
  have hbehind : ∀ dir, ((fsFindPath s fuel t (dirPath path) dir).toOption.bind fun (ret, dir) =>
        if ret < 0 then some (ret, cutString path (cutIndex path), s)
        else s.addAt dir (lastName path) mode FS_DIR (cutString path (cutIndex path))).map
          (fun r => (r.1, r.2.2)) =
      (fsFindPath s fuel t (dirPath path) ⟨0, 0⟩).toOption.bind fun (ret, dir) =>
        if ret < 0 then some (ret, s)
        else s.onRamfs dir fun head => ramfsMkdir head dir (lastName path) mode := fun dir => by
    refine lookup_bind _ _ (fun ret hret => ?_) fun node => ?_
    · dsimp only
      rw [if_pos hret, if_pos hret]
      rfl
    · exact addAt_map
  unfold Vfs.mkdirCut Vfs.mkdir
  refine lookup_bind _ _ (fun ret hret => ?_) fun node => rfl
  dsimp only
  rw [if_neg (Int.ne_of_lt hret), if_neg (Int.ne_of_lt hret), splitPath_eq]
  exact hbehind junk

theorem mknodCut_mknod (junk : FileNode) :
    (s.mknodCut fuel t path mode dev junk).map (fun r => (r.1, r.2.2)) =
      s.mknod fuel t path mode dev junk := by
  unfold Vfs.mknodCut Vfs.mknod
  refine lookup_bind _ _ (fun ret hret => ?_) fun node => rfl
  dsimp only
  rw [if_neg (Int.ne_of_lt hret), if_neg (Int.ne_of_lt hret), splitPath_eq]
  exact lookup_bind _ _ (fun ret _ => addAt_map) fun node => addAt_map

theorem addAt_string {dir : FileNode} {name path' : Name} {type : Nat} {r : Int × Name × Vfs}
    (h : s.addAt dir name mode type path' = some r) : r.2.1 = path' := by
  obtain ⟨⟨ret, s'⟩, -, rfl⟩ := Option.map_eq_some_iff.mp h
  rfl

theorem mkdirCut_iff (hrefused : Refused s fuel t path) :
    FailsCleanly s path (s.mkdirCut fuel t path mode) ↔ NothingToCut s fuel t path := by
  refine failsCleanly_iff mode FS_DIR hrefused (fun node hthere junk => ?_)
    (fun e hfails junk r hr => ?_) fun e dir hfails hfind junk => ?_
  · unfold Vfs.mkdirCut
    rw [hthere.found]
    rfl
  · rw [mkdirCut_eq hfails] at hr
    obtain ⟨⟨ret, dir⟩, -, hr⟩ := Option.bind_eq_some_iff.mp hr
    dsimp only at hr
    split at hr
    · exact (congrArg (fun r => r.2.1) (Option.some.inj hr)).symm
    · exact addAt_string hr
  · rw [mkdirCut_eq hfails, hfind.found]
    rfl

theorem mknodCut_iff (hrefused : Refused s fuel t path) :
    FailsCleanly s path (s.mknodCut fuel t path mode dev) ↔ NothingToCut s fuel t path := by
  refine failsCleanly_iff mode dev hrefused (fun node hthere junk => ?_)
    (fun e hfails junk r hr => ?_) fun e dir hfails hfind junk => ?_
  · unfold Vfs.mknodCut
    rw [hthere.found]
    rfl
  · rw [mknodCut_eq hfails] at hr
    obtain ⟨⟨ret, fp⟩, -, hr⟩ := Option.bind_eq_some_iff.mp hr
    exact addAt_string hr
  · rw [mknodCut_eq hfails, hfind.found]
    rfl

end Calls

/--
**When a creation that fails changes nothing.**  Where there is nothing to be made, `mkdir` and
`mknod` return a negative value without using what their node held before, and leave the files
and the path of the caller as they were, exactly if the path exists or has no slash to be cut at.
-/
theorem failed_creation_clean_iff {s : Vfs} {fuel t : Nat} {path : Name}
    (hrefused : Refused s fuel t path) (mode : UInt32) (dev : Nat) :
    (FailsCleanly s path (s.mkdirCut fuel t path mode) ↔ NothingToCut s fuel t path) ∧
      (FailsCleanly s path (s.mknodCut fuel t path mode dev) ↔ NothingToCut s fuel t path) :=
  ⟨mkdirCut_iff hrefused, mknodCut_iff hrefused⟩

/-- In a new file system there is no `/a` to make `a/b` in. -/
theorem refused_boot : Refused (Vfs.boot [0x1000] 0x1000 0x2000) 1 0 ['a', '/', 'b'] :=
  .inr ⟨⟨-ENOENT, by decide, _, rfl⟩, .inl ⟨-ENOENT, by decide, _, rfl⟩⟩

theorem failed_creation_clean_iff_boot :
    let s := Vfs.boot [0x1000] 0x1000 0x2000
    (FailsCleanly s ['a', '/', 'b'] (s.mkdirCut 1 0 ['a', '/', 'b'] 0o777) ↔
        NothingToCut s 1 0 ['a', '/', 'b']) ∧
      (FailsCleanly s ['a', '/', 'b'] (s.mknodCut 1 0 ['a', '/', 'b'] 0o777 0) ↔
        NothingToCut s 1 0 ['a', '/', 'b']) :=
  failed_creation_clean_iff refused_boot 0o777 0

/-- The caller of `mkdir( "a/b" )` is left with the string `"a"`. -/
theorem failed_creation_cuts :
    ¬ ∀ (s : Vfs) (fuel t : Nat) (path : Name) (mode : UInt32) (dev : Nat), Refused s fuel t path →
      FailsCleanly s path (s.mkdirCut fuel t path mode) ∧
        FailsCleanly s path (s.mknodCut fuel t path mode dev) := by
  intro h
  obtain ⟨⟨ret, -, hclean⟩, -⟩ := h _ _ _ _ 0o777 0 refused_boot
  have hcut : (Vfs.boot [0x1000] 0x1000 0x2000).mkdirCut 1 0 ['a', '/', 'b'] 0o777 ⟨0, 0⟩ =
      some (-ENOENT, ['a', '\x00', 'b'], Vfs.boot [0x1000] 0x1000 0x2000) := rfl
  have hstring : ['a', '\x00', 'b'] = (['a', '/', 'b'] : Name) :=
    congrArg (fun r => r.2.1) (Option.some.inj (hcut.symm.trans (hclean ⟨0, 0⟩)))
  exact absurd hstring (by decide)

end OsThing.Fs
