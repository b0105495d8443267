/-
Listing a directory.

`readdir` counts its calls in the descriptor, and `ramfs_readdir` goes as many entries on from
the first.  Files are only ever entered at the end, so the k-th call finds the k-th entry,
whatever is created in between.  But the count is unsigned and what goes to the driver is an
`int`: from the 2^31-th call on it is below 0 and no step is made, so the first entry is listed
once more.

The node of a descriptor lies in a block that `open` has freed.  What is said here is about runs
in which it still holds that node whenever `readdir` looks there.
-/
import OsThing.Proofs.Offsets
import OsThing.Proofs.RamfsTree

namespace OsThing.Fs

open Runs

/-! ### Listing and creation -/

/-- The entries of a directory, in the order in which they were made. -/
def entriesAt (s : Vfs) (node : FileNode) : List RamfsDirent :=
  match (s.header node).map FileHeader.data with
  | some (.entries dirs) => dirs
  | _ => []

/-- The buffer of a `readdir` of the task `t` on its descriptor `fd`. -/
def listsInto (t : Nat) (fd : Int) (c : Call) : Option Dirent :=
  match c.op with
  | .readdir fd' dirp => if c.task = t ∧ fdIndex fd' = fdIndex fd then some dirp else none
  | _ => none

/-- A task that lists a directory: the `readdir` calls it has made, and how many entries there
were when one of them first reported the end. -/
structure Listing where
  vfs : Vfs
  calls : Nat
  ended : Option Nat

/-- A call of any task, which may be one of the listing. -/
def listStep (fuel t : Nat) (fd : Int) (node : FileNode) (s : Listing) (c : Call) :
    Option Listing :=
  (vfsStep fuel s.vfs c).map fun vfs =>
    match listsInto t fd c with
    | none => { s with vfs := vfs }
    | some dirp =>
        let atEnd := (s.vfs.readdirCall t fd dirp).map Prod.fst = some 0
        ⟨vfs, s.calls + 1, s.ended.or (if atEnd then some (entriesAt s.vfs node).length else none)⟩

/-- The calls that list, create or only look up, and what else the allocator is asked for. -/
def ListsOrCreates (c : Call) : Prop :=
  match c.op with
  | .readdir .. | .open .. | .mkdir .. | .mknod .. | .lookup .. | .reuse .. => True
  | _ => False

/-- No entry was added after the end was reported. -/
def Listing.Promised (s : Listing) (node : FileNode) : Prop :=
  ∀ n, s.ended = some n → (entriesAt s.vfs node).length = n

/-- The next `readdir` returns the next entry, and 0 if there is none. -/
def ListsNext (t : Nat) (fd : Int) (node : FileNode) (s : Listing) (c : Call) : Prop :=
  ∀ dirp, listsInto t fd c = some dirp → s.Promised node →
    match (entriesAt s.vfs node)[s.calls]? with
    | none => ∃ dirp' vfs, s.vfs.readdirCall t fd dirp = some (0, dirp', vfs)
    | some e => ∃ dirp' vfs, s.vfs.readdirCall t fd dirp = some (1, dirp', vfs) ∧
        dirp'.inode = e.inode ∧ dirp'.name = e.name

/-- The block of the descriptor's node still holds it. -/
def NodeHeld (t : Nat) (fd : Int) (node : FileNode) (s : Listing) (c : Call) : Prop :=
  ∀ dirp, listsInto t fd c = some dirp →
    ∀ d, goodFile (s.vfs.tasks t) fd = some d → s.vfs.nodes d.file = node

/-- The place that the number of a call becomes as an `int`. -/
def placeOf (calls : Nat) : Nat := (asInt (UInt32.ofNat calls)).toNat

/-- The number of the call is one that an `int` has, or there is no entry at what it becomes. -/
def CountFits (t : Nat) (fd : Int) (node : FileNode) (s : Listing) (c : Call) : Prop :=
  ∀ dirp, listsInto t fd c = some dirp → s.Promised node →
    s.calls < 2 ^ 31 ∨ (entriesAt s.vfs node).length ≤ placeOf s.calls

theorem placeOf_eq {calls : Nat} (h : calls < 2 ^ 31) : placeOf calls = calls := by
  have hfits : (UInt32.ofNat calls).toNat = calls :=
    UInt32.toNat_ofNat_of_lt (by show calls < 2 ^ 32; omega)
  unfold placeOf
  rw [asInt_eq, hfits, if_pos h]
  rfl

theorem placeOf_lt (calls : Nat) : placeOf calls < 2 ^ 31 := by
  unfold placeOf
  rw [asInt_eq]
  have hlt := (UInt32.ofNat calls).toNat_lt
  split
  · omega
  · omega

/-! ### The descriptor -/

section Descriptor

variable {task task' : Task} {fd : Int} {d : FileDescript}

/-- A descriptor stays what it is while no descriptor is given up. -/
theorem goodFile_congr (hd : goodFile task fd = some d)
    (hfile : task'.files (fdIndex fd) = task.files (fdIndex fd))
    (hcount : task.fileCount ≤ task'.fileCount) : goodFile task' fd = some d := by
  rw [goodFile_eq] at hd ⊢
  split at hd
  · cases hd
  · rw [if_neg (by omega), hfile]
    exact hd

/-- A new descriptor is none that there was. -/
theorem OpenedAt.goodFile {s s' : Vfs} {t t' i a : Nat} {flags : UInt32}
    (h : OpenedAt s s' t' i a flags) (hd : goodFile (s.tasks t) fd = some d) :
    goodFile (s'.tasks t) fd = some d := by
  by_cases ht : t = t'
  · subst ht
    have hi : fdIndex fd ≠ i := by
      rintro rfl
      exact Option.some_ne_none d ((goodFile_eq_some hd).2.symm.trans h.free)
    rw [h.task]
    refine goodFile_congr hd ?_ (Nat.le_succ _)
    rw [Task.addFile_files, if_neg hi]
  · rw [h.others t ht]
    exact hd

end Descriptor

/-- Numbers that are the same as an index are the same descriptor. -/
theorem readdirCall_index {s : Vfs} {t : Nat} {fd fd' : Int} (h : fdIndex fd' = fdIndex fd)
    (dirp : Dirent) : s.readdirCall t fd' dirp = s.readdirCall t fd dirp := by
  have hfile : goodFile (s.tasks t) fd' = goodFile (s.tasks t) fd := by
    rw [goodFile_eq, goodFile_eq, h]
  unfold Vfs.readdirCall Vfs.setFile
  rw [hfile, h]

/-- What a `readdir` that comes back has done, if its descriptor is open. -/
theorem readdirCall_spec {s s' : Vfs} {t : Nat} {fd ret : Int} {dirp dirp' : Dirent}
    {d : FileDescript} (h : s.readdirCall t fd dirp = some (ret, dirp', s'))
    (hd : goodFile (s.tasks t) fd = some d) :
    s' = s.setFile t fd (some { d with dOffset := d.dOffset + 1 }) := by
  unfold Vfs.readdirCall at h
  rw [hd] at h
  obtain ⟨⟨r, entry⟩, -, h⟩ := Option.map_eq_some_iff.mp h
  exact (Prod.mk.inj (Prod.mk.inj h).2).2.symm

theorem readdirCall_counts {s s' : Vfs} {t : Nat} {fd ret : Int} {dirp dirp' : Dirent}
    {d : FileDescript} (h : s.readdirCall t fd dirp = some (ret, dirp', s'))
    (hd : goodFile (s.tasks t) fd = some d) :
    goodFile (s'.tasks t) fd = some { d with dOffset := d.dOffset + 1 } := by
  rw [readdirCall_spec h hd, setFile_tasks, if_pos rfl]
  exact goodFile_setFile hd _

/-- A `readdir` on another descriptor. -/
theorem readdirCall_other {s s' : Vfs} {t t' : Nat} {fd fd' ret : Int} {dirp dirp' : Dirent}
    {d : FileDescript} (h : s.readdirCall t' fd' dirp = some (ret, dirp', s'))
    (hother : ¬ (t' = t ∧ fdIndex fd' = fdIndex fd)) (hd : goodFile (s.tasks t) fd = some d) :
    goodFile (s'.tasks t) fd = some d := by
  rcases hd' : goodFile (s.tasks t') fd' with _ | d'
  · unfold Vfs.readdirCall at h
    rw [hd'] at h
    obtain rfl : s = s' := (Prod.mk.inj (Prod.mk.inj (Option.some.inj h)).2).2
    exact hd
  · rw [readdirCall_spec h hd', setFile_tasks]
    split
    · rename_i ht
      have hi : fdIndex fd ≠ fdIndex fd' := fun hi => hother ⟨ht.symm, hi.symm⟩
      subst ht
      refine goodFile_congr hd ?_ (Nat.le_refl _)
      rw [Task.setFile_files, if_neg hi]
    · exact hd

/-! ### The directory -/

/-- `node` is a directory, with these entries. -/
def HasEntries (s : Vfs) (node : FileNode) (dirs : List RamfsDirent) : Prop :=
  ∃ f, s.header node = some f ∧ f.type = FS_DIR ∧ f.data = .entries dirs

/-- It lies in what `mkdir`, `mknod` and `open` make of a file system. -/
def InTree (s : Vfs) (node : FileNode) : Prop := ∀ head, s.ramfs node.fs = some head → IsTree head

/-- The files are directories alike, with the same data. -/
def SameDirs (head head' : RamfsHeader) : Prop :=
  ∀ i, (head'.getFileH i).map (fun f => (f.type, f.data)) =
    (head.getFileH i).map fun f => (f.type, f.data)

section Directory

variable {s s' : Vfs} {node : FileNode} {dirs : List RamfsDirent} {head head' : RamfsHeader}

theorem SameDirs.refl (head : RamfsHeader) : SameDirs head head := fun _ => rfl

theorem SameDirs.symm (h : SameDirs head head') : SameDirs head' head := fun i => (h i).symm

theorem SameDirs.file (h : SameDirs head head') {i : Nat} {f : FileHeader}
    (hf : head.getFileH i = some f) :
    ∃ f', head'.getFileH i = some f' ∧ f'.type = f.type ∧ f'.data = f.data := by
  have hi := h i
  rw [hf] at hi
  obtain ⟨f', hf', heq⟩ := Option.map_eq_some_iff.mp hi
  obtain ⟨htype, hdata⟩ := Prod.mk.inj heq
  exact ⟨f', hf', htype, hdata⟩

theorem SameDirs.names (h : SameDirs head head') {d k i : Nat} (hnames : Names head d k i) :
    Names head' d k i := by
  obtain ⟨f, dirs, dir, hf, htype, hdata, hdir, hi⟩ := hnames
  obtain ⟨f', hf', htype', hdata'⟩ := h.file hf
  exact ⟨f', dirs, dir, hf', htype'.trans htype, hdata'.trans hdata, hdir, hi⟩

theorem SameDirs.isSome (h : SameDirs head head') (i : Nat) :
    (head'.getFileH i).isSome = (head.getFileH i).isSome := by
  have hi := congrArg Option.isSome (h i)
  rwa [Option.isSome_map, Option.isSome_map] at hi

theorem IsTree.sameDirs (h : IsTree head) (hsame : SameDirs head head') : IsTree head' := by
  refine ⟨?_, fun i hi hroot => ?_, fun d k i hnamed => ?_, fun d k i hnamed => ?_⟩
  · rw [head'.inodes, head'.count_eq, Nat.add_sub_cancel]
  · rw [hsame.isSome] at hi
    obtain ⟨entry, hentry, hunique⟩ := h.named i hi hroot
    exact ⟨entry, hsame.names hentry, fun entry' h' => hunique entry' (hsame.symm.names h')⟩
  · exact h.smaller d k i (hsame.symm.names hnamed)
  · rw [hsame.isSome]
    exact h.file d k i (hsame.symm.names hnamed)

/-- What a change of the trees does to one file system. -/
theorem TreeChange.ramfs (h : TreeChange s s') {fs : Nat} (hhead : s.ramfs fs = some head) :
    ∃ head', s'.ramfs fs = some head' ∧
      (SameDirs head head' ∨ ∃ inode name mode type, Added head head' inode name mode type) := by
  have hself : ∃ head', s.ramfs fs = some head' ∧
      (SameDirs head head' ∨ ∃ inode name mode type, Added head head' inode name mode type) :=
    ⟨head, hhead, Or.inl (SameDirs.refl head)⟩
  cases h with
  | same => exact hself
  | node a node => exact hself
  | @add node name mode type ret _ h =>
      obtain ⟨head₁, head', hhead₁, hadd, rfl⟩ := onRamfs_spec h
      by_cases hfs : fs = node.fs
      · subst hfs
        obtain rfl : head = head₁ := Option.some.inj (hhead.symm.trans hhead₁)
        refine ⟨head', Function.update_self .., ?_⟩
        rcases ramfsAdd_cases hadd with ⟨-, rfl⟩ | ⟨-, hadded⟩
        · exact Or.inl (SameDirs.refl _)
        · exact Or.inr ⟨_, _, _, _, hadded⟩
      · obtain ⟨head', hhead', hcases⟩ := hself
        exact ⟨head', (Function.update_of_ne hfs _ _).trans hhead', hcases⟩
  | @unlink node ret _ h =>
      obtain ⟨head₁, head', hhead₁, hop, rfl⟩ := onRamfs_spec h
      by_cases hfs : fs = node.fs
      · subst hfs
        obtain rfl : head = head₁ := Option.some.inj (hhead.symm.trans hhead₁)
        obtain ⟨f, -, heq⟩ := Option.map_eq_some_iff.mp hop
        obtain ⟨-, rfl⟩ := Prod.mk.inj heq
        refine ⟨_, Function.update_self .., Or.inl fun i => ?_⟩
        rw [RamfsHeader.getFileH_modifyFile, Option.map_map]
        refine Option.map_congr fun f _ => ?_
        show ((if i = node.inode then _ else f : FileHeader).type, _) = _
        split
        · rfl
        · rfl
      · obtain ⟨head', hhead', hcases⟩ := hself
        exact ⟨head', (Function.update_of_ne hfs _ _).trans hhead', hcases⟩

theorem HasEntries.entriesAt (h : HasEntries s node dirs) : entriesAt s node = dirs := by
  obtain ⟨f, hf, -, hdata⟩ := h
  unfold Fs.entriesAt
  rw [hf, Option.map_some, hdata]

theorem HasEntries.congr (h : HasEntries s node dirs) (hramfs : s'.ramfs = s.ramfs) :
    HasEntries s' node dirs := by
  obtain ⟨f, hf, hdir⟩ := h
  exact ⟨f, (header_congr hramfs node).trans hf, hdir⟩

/-- **Entries are only ever added at the end.** -/
theorem HasEntries.tree (h : HasEntries s node dirs) (hchange : TreeChange s s') :
    ∃ more, HasEntries s' node (dirs ++ more) := by
  obtain ⟨f, hf, htype, hdata⟩ := h
  obtain ⟨head, hhead, hfile⟩ := Option.bind_eq_some_iff.mp hf
  obtain ⟨head', hhead', hcases⟩ := hchange.ramfs hhead
  unfold HasEntries
  rw [header_of_ramfs hhead']
  rcases hcases with hsame | ⟨inode, name, mode, type, hadded⟩
  · obtain ⟨f', hf', htype', hdata'⟩ := hsame.file hfile
    exact ⟨[], f', hf', htype'.trans htype, by rw [hdata', hdata, List.append_nil]⟩
  · obtain ⟨filehead, dirs', dir, hdir, -, hdirs', -, -, hfiles⟩ := hadded.files
    rw [hfiles, if_neg (Nat.ne_of_lt (RamfsHeader.getFileH_lt hfile)), hfile, Option.map_some]
    by_cases hnode : node.inode = inode
    · obtain rfl : f = filehead := Option.some.inj (hfile.symm.trans (hnode ▸ hdir))
      obtain rfl : dirs = dirs' := FileData.entries.inj (hdata.symm.trans hdirs')
      exact ⟨[dir], _, rfl, by rw [if_pos hnode]; exact htype, by rw [if_pos hnode]; rfl⟩
    · exact ⟨[], f, by rw [if_neg hnode], htype, by rw [hdata, List.append_nil]⟩

theorem InTree.congr (h : InTree s node) (hramfs : s'.ramfs = s.ramfs) : InTree s' node := by
  unfold InTree
  rw [hramfs]
  exact h

theorem InTree.tree (h : InTree s node) (hentries : HasEntries s node dirs)
    (hchange : TreeChange s s') : InTree s' node := by
  obtain ⟨f, hf, -⟩ := hentries
  obtain ⟨head, hhead, -⟩ := Option.bind_eq_some_iff.mp hf
  obtain ⟨head', hhead', hcases⟩ := hchange.ramfs hhead
  intro head₁ hhead₁
  obtain rfl : head' = head₁ := Option.some.inj (hhead'.symm.trans hhead₁)
  rcases hcases with hsame | ⟨inode, name, mode, type, hadded⟩
  · exact (h head hhead).sameDirs hsame
  · exact (h head hhead).added hadded

/-- No two entries of a tree have the same number. -/
theorem InTree.place_unique (h : InTree s node) (hentries : HasEntries s node dirs) {j k : Nat}
    {e e' : RamfsDirent} (hj : dirs[j]? = some e) (hk : dirs[k]? = some e')
    (hinode : e.inode = e'.inode) : j = k := by
  obtain ⟨f, hf, htype, hdata⟩ := hentries
  obtain ⟨head, hhead, hfile⟩ := Option.bind_eq_some_iff.mp hf
  have htree := h head hhead
  have hnames : Names head node.inode j e'.inode := ⟨f, dirs, e, hfile, htype, hdata, hj, hinode⟩
  have hnames' : Names head node.inode k e'.inode := ⟨f, dirs, e', hfile, htype, hdata, hk, rfl⟩
  have hroot : e'.inode ≠ 1 := by
    have hlt := htree.smaller _ _ _ hnames
    have hpos := RamfsHeader.getFileH_pos hfile
    omega
  obtain ⟨entry, -, hunique⟩ := htree.named _ (htree.file _ _ _ hnames) hroot
  have heq := (hunique (node.inode, j) hnames).trans (hunique (node.inode, k) hnames').symm
  exact (Prod.mk.inj heq).2

end Directory

/-! ### Steps -/

/-- The file systems are changed as by a call that makes a file. -/
def TreesChange (s s' : Vfs) : Prop :=
  ∃ s₀ s₁, s₀.ramfs = s.ramfs ∧ TreeChange s₀ s₁ ∧ s'.ramfs = s₁.ramfs

theorem TreeChange.trees {s s' : Vfs} (h : TreeChange s s') : TreesChange s s' :=
  ⟨s, s', rfl, h, rfl⟩

section Steps

variable {fuel t : Nat} {fd : Int} {node : FileNode} {dirs : List RamfsDirent} {c : Call}

theorem HasEntries.trees {s s' : Vfs} (h : HasEntries s node dirs) (hchange : TreesChange s s') :
    ∃ more, HasEntries s' node (dirs ++ more) := by
  obtain ⟨s₀, s₁, hbefore, htree, hafter⟩ := hchange
  obtain ⟨more, hmore⟩ := (h.congr hbefore).tree htree
  exact ⟨more, hmore.congr hafter⟩

theorem InTree.trees {s s' : Vfs} (h : InTree s node) (hentries : HasEntries s node dirs)
    (hchange : TreesChange s s') : InTree s' node := by
  obtain ⟨s₀, s₁, hbefore, htree, hafter⟩ := hchange
  exact ((h.congr hbefore).tree (hentries.congr hbefore) htree).congr hafter

/-- A call that is not one of the listing leaves the descriptor what it is. -/
theorem vfsStep_other {s s' : Vfs} {d : FileDescript} (hop : ListsOrCreates c)
    (hother : listsInto t fd c = none) (h : vfsStep fuel s c = some s')
    (hd : goodFile (s.tasks t) fd = some d) :
    TreesChange s s' ∧ goodFile (s'.tasks t) fd = some d := by
  have htree : ∀ s₁, TreeChange s s₁ → TreesChange s s₁ ∧ goodFile (s₁.tasks t) fd = some d := by
    intro s₁ hchange
    refine ⟨hchange.trees, ?_⟩
    rw [hchange.sameTasks.tasks]
    exact hd
  obtain ⟨t', op⟩ := c
  cases op with
  | «open» path flags a =>
      obtain ⟨⟨ret, s₁⟩, hopen, rfl⟩ := Option.map_eq_some_iff.mp h
      obtain ⟨err, s₀, hfile, -, htrees, hcases⟩ := open_cases hopen
      obtain ⟨s₂, hchange, hramfs, -⟩ := openFile_tree hfile
      refine ⟨⟨s.knew a, s₂, rfl, hchange, htrees.ramfs.trans hramfs⟩, ?_⟩
      rcases hcases with ⟨-, -, hsame⟩ | ⟨-, i, -, hopened⟩
      · rw [hsame.tasks]
        exact hd
      · exact hopened.goodFile hd
  | readdir fd' dirp =>
      obtain ⟨⟨ret, dirp', s₁⟩, hread, rfl⟩ := Option.map_eq_some_iff.mp h
      have hne : ¬ (t' = t ∧ fdIndex fd' = fdIndex fd) := fun heq =>
        Option.some_ne_none dirp ((if_pos heq).symm.trans hother)
      exact ⟨⟨s, s, rfl, .same, (readdir_sameFiles hread).2.ramfs⟩, readdirCall_other hread hne hd⟩
  | lookup path =>
      obtain ⟨r, -, rfl⟩ := Option.map_eq_some_iff.mp h
      exact htree s .same
  | mkdir path mode =>
      obtain ⟨⟨ret, s₁⟩, hcall, rfl⟩ := Option.map_eq_some_iff.mp h
      exact htree s₁ (mkdir_tree hcall)
  | mknod path mode dev junk =>
      obtain ⟨⟨ret, s₁⟩, hcall, rfl⟩ := Option.map_eq_some_iff.mp h
      exact htree s₁ (mknod_tree hcall)
  | reuse a b =>
      dsimp only [vfsStep] at h
      split at h
      · cases h
      · exact htree s' (Option.some.inj h ▸ .node a b)
  | _ => exact hop.elim

/-- What a step of the listing is. -/
theorem vfsStep_lists {s s' : Vfs} {dirp : Dirent} (hlists : listsInto t fd c = some dirp)
    (h : vfsStep fuel s c = some s') :
    ∃ ret dirp', s.readdirCall t fd dirp = some (ret, dirp', s') := by
  obtain ⟨t', op⟩ := c
  cases op with
  | readdir fd' dirp₁ =>
      obtain ⟨⟨rfl, hi⟩, heq⟩ := Option.ite_none_right_eq_some.mp hlists
      obtain rfl := Option.some.inj heq
      obtain ⟨⟨ret, dirp', s₁⟩, hread, rfl⟩ := Option.map_eq_some_iff.mp h
      exact ⟨ret, dirp', (readdirCall_index hi dirp₁).symm.trans hread⟩
  | _ => cases hlists

/-- The descriptor counts the calls of the listing, and the directory has `dirs` to begin with. -/
structure ListInv (t : Nat) (fd : Int) (node : FileNode) (dirs : List RamfsDirent) (s : Listing) :
    Prop where
  file : ∃ d, goodFile (s.vfs.tasks t) fd = some d ∧ d.dOffset = UInt32.ofNat s.calls
  entries : ∃ more, HasEntries s.vfs node (dirs ++ more)

theorem ListInv.step {s s' : Listing} (h : ListInv t fd node dirs s) (hop : ListsOrCreates c)
    (hstep : listStep fuel t fd node s c = some s') :
    ListInv t fd node dirs s' ∧ (InTree s.vfs node → InTree s'.vfs node) := by
  obtain ⟨d, hd, hoffset⟩ := h.file
  obtain ⟨more, hentries⟩ := h.entries
  obtain ⟨vfs, hvfs, rfl⟩ := Option.map_eq_some_iff.mp hstep
  rcases hlists : listsInto t fd c with _ | dirp
  · obtain ⟨hchange, hd'⟩ := vfsStep_other hop hlists hvfs hd
    obtain ⟨more', hmore⟩ := hentries.trees hchange
    rw [List.append_assoc] at hmore
    exact ⟨⟨⟨d, hd', hoffset⟩, _, hmore⟩, fun htree => htree.trees hentries hchange⟩
  · obtain ⟨ret, dirp', hread⟩ := vfsStep_lists hlists hvfs
    have hramfs : vfs.ramfs = s.vfs.ramfs := (readdir_sameFiles hread).2.ramfs
    refine ⟨⟨⟨_, readdirCall_counts hread hd, ?_⟩, more, hentries.congr hramfs⟩,
      fun htree => htree.congr hramfs⟩
    show d.dOffset + 1 = UInt32.ofNat (s.calls + 1)
    rw [hoffset, UInt32.ofNat_add]
    rfl

/-! ### One `readdir` of the listing -/

/-- It returns what there is at the place its number becomes. -/
theorem readdirCall_held {s : Vfs} {d : FileDescript} (hd : goodFile (s.tasks t) fd = some d)
    (hnode : s.nodes d.file = node) (hentries : HasEntries s node dirs) (dirp : Dirent) :
    s.readdirCall t fd dirp = some
      (match dirs[(asInt d.dOffset).toNat]? with
        | none => (0, dirp, s.setFile t fd (some { d with dOffset := d.dOffset + 1 }))
        | some e => (1, e.copied, s.setFile t fd (some { d with dOffset := d.dOffset + 1 }))) := by
  obtain ⟨f, hf, htype, hdata⟩ := hentries
  unfold Vfs.readdirCall
  rw [hd]
  dsimp only
  rw [readdir_eq, hnode, hf, Option.bind_some]
  unfold FileHeader.readEntry
  rw [if_neg (not_not.mpr htype), hdata]
  dsimp only
  rcases dirs[(asInt d.dOffset).toNat]? with _ | e
  · rfl
  · rfl

theorem ListInv.readdir {s : Listing} {dirp : Dirent} (h : ListInv t fd node dirs s)
    (hlists : listsInto t fd c = some dirp) (hheld : NodeHeld t fd node s c) :
    ∃ vfs, s.vfs.readdirCall t fd dirp = some
      (match (entriesAt s.vfs node)[placeOf s.calls]? with
        | none => (0, dirp, vfs)
        | some e => (1, e.copied, vfs)) := by
  obtain ⟨d, hd, hoffset⟩ := h.file
  obtain ⟨more, hentries⟩ := h.entries
  rw [hentries.entriesAt, placeOf, ← hoffset]
  exact ⟨_, readdirCall_held hd (hheld dirp hlists d hd) hentries dirp⟩

/-- A call whose number fits, or is that of no entry either way, lists what it should. -/
theorem ListInv.lists {s : Listing} (h : ListInv t fd node dirs s)
    (hheld : NodeHeld t fd node s c) (hfits : CountFits t fd node s c) :
    ListsNext t fd node s c := by
  intro dirp hlists hpromised
  obtain ⟨vfs, hread⟩ := h.readdir hlists hheld
  have hplace : (entriesAt s.vfs node)[placeOf s.calls]? = (entriesAt s.vfs node)[s.calls]? := by
    by_cases hcalls : s.calls < 2 ^ 31
    · rw [placeOf_eq hcalls]
    · have hlt := placeOf_lt s.calls
      have hbeyond := (hfits dirp hlists hpromised).resolve_left hcalls
      rw [List.getElem?_eq_none hbeyond, List.getElem?_eq_none (by omega)]
  rw [hplace] at hread
  rcases hentry : (entriesAt s.vfs node)[s.calls]? with _ | e
  · rw [hentry] at hread
    exact ⟨_, _, hread⟩
  · rw [hentry] at hread
    exact ⟨_, _, hread, rfl, rfl⟩

/-- In a tree no other call does, since what it lists is another entry or none that is due. -/
theorem ListInv.fits {s : Listing} (h : ListInv t fd node dirs s) (htree : InTree s.vfs node)
    (hheld : NodeHeld t fd node s c) (hnext : ListsNext t fd node s c) :
    CountFits t fd node s c := by
  intro dirp hlists hpromised
  by_contra hbad
  obtain ⟨hcalls, hplace⟩ := not_or.mp hbad
  obtain ⟨vfs, hread⟩ := h.readdir hlists hheld
  obtain ⟨more, hentries⟩ := h.entries
  have hlisted := hnext dirp hlists hpromised
  obtain ⟨e, hfirst⟩ : ∃ e, (entriesAt s.vfs node)[placeOf s.calls]? = some e :=
    ⟨_, List.getElem?_eq_getElem (Nat.lt_of_not_le hplace)⟩
  rw [hfirst] at hread
  rw [hread] at hlisted
  split at hlisted
  · obtain ⟨dirp', vfs', heq⟩ := hlisted
    exact absurd (Prod.mk.inj (Option.some.inj heq)).1 (by decide)
  · rename_i e' hentry
    obtain ⟨dirp', vfs', heq, hinode, -⟩ := hlisted
    obtain ⟨-, heq⟩ := Prod.mk.inj (Option.some.inj heq)
    obtain ⟨rfl, -⟩ := Prod.mk.inj heq
    rw [hentries.entriesAt] at hfirst hentry
    have hsame := htree.place_unique hentries hfirst hentry hinode
    have hlt := placeOf_lt s.calls
    omega

/-! ### Runs -/

/--
**A directory is listed completely if and only if the number of each call fits.**  In every run
of listing and creation, by any tasks, that starts with a fresh descriptor of a directory, and in
which the block of its node holds it: entries are only added at the end; each `readdir` returns
the entry that is next, or 0, if its number is an `int` or that of no entry; and in what `mkdir`,
`mknod` and `open` make of a file system it does so only then.
-/
theorem listing_complete_iff {s : Vfs} {d : FileDescript} (fuel : Nat)
    (hd : goodFile (s.tasks t) fd = some d) (hfresh : d.dOffset = 0)
    (hentries : HasEntries s node dirs) (cs : List Call) (hcs : ∀ c ∈ cs, ListsOrCreates c)
    (hheld : EveryTry (listStep fuel t fd node) (NodeHeld t fd node) ⟨s, 0, none⟩ cs) :
    Always (listStep fuel t fd node) (fun l => dirs <+: entriesAt l.vfs node) ⟨s, 0, none⟩ cs ∧
      (EveryTry (listStep fuel t fd node) (CountFits t fd node) ⟨s, 0, none⟩ cs →
        EveryTry (listStep fuel t fd node) (ListsNext t fd node) ⟨s, 0, none⟩ cs) ∧
      (InTree s node →
        EveryTry (listStep fuel t fd node) (ListsNext t fd node) ⟨s, 0, none⟩ cs →
        EveryTry (listStep fuel t fd node) (CountFits t fd node) ⟨s, 0, none⟩ cs) := by
  have hstart : ListInv t fd node dirs ⟨s, 0, none⟩ :=
    ⟨⟨d, hd, hfresh⟩, [], (List.append_nil dirs).symm ▸ hentries⟩
  have hops : EveryTry (listStep fuel t fd node) (fun _ c => ListsOrCreates c) ⟨s, 0, none⟩ cs :=
    everyTry_of_mem _ hcs
  refine ⟨?_, fun hfits => ?_, fun htree hnext => ?_⟩
  · refine Always.mono (fun l hl => ?_)
      (always_of_inv (fun _ _ _ hl hstep hop => (hl.step hop hstep).1) hstart hops.everyStep)
    obtain ⟨more, hmore⟩ := hl.entries
    rw [hmore.entriesAt]
    exact List.prefix_append _ _
  · exact everyTry_of_inv (fun _ _ _ hl hstep hc => (hl.step hc.1 hstep).1)
      (fun _ _ hl hc => hl.lists hc.2.1 hc.2.2) hstart
      (everyTry_and.mpr ⟨hops, everyTry_and.mpr ⟨hheld, hfits⟩⟩)
  · have hkeep : ∀ (l : Listing) (c : Call) (l' : Listing),
        ListInv t fd node dirs l ∧ InTree l.vfs node → listStep fuel t fd node l c = some l' →
        ListsOrCreates c ∧ NodeHeld t fd node l c ∧ ListsNext t fd node l c →
        ListInv t fd node dirs l' ∧ InTree l'.vfs node := by
      intro l c l' hl hstep hc
      obtain ⟨hinv, hkept⟩ := hl.1.step hc.1 hstep
      exact ⟨hinv, hkept hl.2⟩
    exact everyTry_of_inv hkeep (fun _ _ hl hc => hl.1.fits hl.2 hc.2.1 hc.2.2) ⟨hstart, htree⟩
      (everyTry_and.mpr ⟨hops, everyTry_and.mpr ⟨hheld, hnext⟩⟩)

/-! ### Runs that are always right -/

/-- With at most 2^31 calls the number of each fits. -/
theorem countFits_of_length : ∀ {cs : List Call} {s : Listing}, s.calls + cs.length ≤ 2 ^ 31 →
    EveryTry (listStep fuel t fd node) (CountFits t fd node) s cs := by
  intro cs
  induction cs with
  | nil => intro s _; exact trivial
  | cons c rest ih =>
      intro s h
      rw [List.length_cons] at h
      refine ⟨fun _ _ _ => Or.inl (by omega), fun s' hstep => ih ?_⟩
      obtain ⟨vfs, -, rfl⟩ := Option.map_eq_some_iff.mp hstep
      rcases listsInto t fd c with _ | dirp
      · show s.calls + rest.length ≤ 2 ^ 31
        omega
      · show s.calls + 1 + rest.length ≤ 2 ^ 31
        omega

/-- The calls that leave all blocks to what they hold. -/
def KeepsNodes (c : Call) : Prop :=
  match c.op with
  | .readdir .. | .mkdir .. | .mknod .. | .lookup .. => True
  | _ => False

theorem KeepsNodes.listsOrCreates (h : KeepsNodes c) : ListsOrCreates c := by
  obtain ⟨t', op⟩ := c
  cases op with
  | readdir | mkdir | mknod | lookup => exact trivial
  | _ => exact h.elim

theorem onRamfs_nodes {s s' : Vfs} {dir : FileNode} {ret : Int}
    {op : RamfsHeader → Option (Int × RamfsHeader)} (h : s.onRamfs dir op = some (ret, s')) :
    s'.nodes = s.nodes := by
  obtain ⟨head, head', -, -, rfl⟩ := onRamfs_spec h
  rfl

theorem KeepsNodes.nodes {s s' : Vfs} (hop : KeepsNodes c) (h : vfsStep fuel s c = some s') :
    s'.nodes = s.nodes := by
  obtain ⟨t', op⟩ := c
  cases op with
  | readdir fd' dirp =>
      obtain ⟨⟨ret, dirp', s₁⟩, hread, rfl⟩ := Option.map_eq_some_iff.mp h
      exact (readdir_sameFiles hread).2.nodes
  | lookup path =>
      obtain ⟨r, -, rfl⟩ := Option.map_eq_some_iff.mp h
      rfl
  | mkdir path mode =>
      obtain ⟨⟨ret, s₁⟩, hcall, rfl⟩ := Option.map_eq_some_iff.mp h
      rcases mkdir_adds hcall with rfl | ⟨dir, hadd⟩
      · rfl
      · exact onRamfs_nodes hadd
  | mknod path mode dev junk =>
      obtain ⟨⟨ret, s₁⟩, hcall, rfl⟩ := Option.map_eq_some_iff.mp h
      rcases mknod_adds hcall with rfl | ⟨fp, hadd⟩
      · rfl
      · exact onRamfs_nodes hadd
  | _ => exact hop.elim

/-- The descriptor is open, and its block holds the node. -/
def HoldsNode (t : Nat) (fd : Int) (node : FileNode) (s : Listing) : Prop :=
  ∃ d, goodFile (s.vfs.tasks t) fd = some d ∧ s.vfs.nodes d.file = node

theorem HoldsNode.nodeHeld {s : Listing} (h : HoldsNode t fd node s) : NodeHeld t fd node s c := by
  obtain ⟨d, hd, hnode⟩ := h
  intro dirp _ d' hd'
  obtain rfl : d = d' := Option.some.inj (hd.symm.trans hd')
  exact hnode

theorem HoldsNode.step {s s' : Listing} (h : HoldsNode t fd node s) (hop : KeepsNodes c)
    (hstep : listStep fuel t fd node s c = some s') : HoldsNode t fd node s' := by
  obtain ⟨d, hd, hnode⟩ := h
  obtain ⟨vfs, hvfs, rfl⟩ := Option.map_eq_some_iff.mp hstep
  have hnodes := hop.nodes hvfs
  rcases hlists : listsInto t fd c with _ | dirp
  · obtain ⟨-, hd'⟩ := vfsStep_other hop.listsOrCreates hlists hvfs hd
    exact ⟨d, hd', (congrFun hnodes _).trans hnode⟩
  · obtain ⟨ret, dirp', hread⟩ := vfsStep_lists hlists hvfs
    exact ⟨_, readdirCall_counts hread hd, (congrFun hnodes _).trans hnode⟩

/-- If nothing is opened and nothing else allocated, the block holds the node all the time. -/
theorem nodeHeld_of_keeps {s : Listing} (h : HoldsNode t fd node s) {cs : List Call}
    (hcs : ∀ c ∈ cs, KeepsNodes c) :
    EveryTry (listStep fuel t fd node) (NodeHeld t fd node) s cs :=
  everyTry_of_inv (fun _ _ _ hs hstep hop => hs.step hop hstep) (fun _ _ hs _ => hs.nodeHeld) h
    (everyTry_of_mem s hcs)

/-! ### Runs of the listing alone -/

/-- The directory after `n` calls of the listing and no others. -/
structure Relisted (t : Nat) (fd : Int) (node : FileNode) (dirs : List RamfsDirent) (n : Nat)
    (s : Listing) : Prop where
  file : ∃ d, goodFile (s.vfs.tasks t) fd = some d ∧ d.dOffset = UInt32.ofNat n ∧
    s.vfs.nodes d.file = node
  entries : HasEntries s.vfs node dirs
  calls : s.calls = n
  ended : s.Promised node

theorem listsInto_readdir (t : Nat) (fd : Int) (dirp : Dirent) :
    listsInto t fd ⟨t, .readdir fd dirp⟩ = some dirp := if_pos ⟨rfl, rfl⟩

theorem Relisted.next {s : Listing} {n : Nat} (h : Relisted t fd node dirs n s) (dirp : Dirent) :
    ∃ s', listStep fuel t fd node s ⟨t, .readdir fd dirp⟩ = some s' ∧
      Relisted t fd node dirs (n + 1) s' := by
  obtain ⟨d, hd, hoffset, hnode⟩ := h.file
  have hread := readdirCall_held hd hnode h.entries dirp
  obtain ⟨ret, dirp', vfs, hread⟩ :
      ∃ ret dirp' vfs, s.vfs.readdirCall t fd dirp = some (ret, dirp', vfs) := ⟨_, _, _, hread⟩
  have hsame := (readdir_sameFiles hread).2
  have hentries := h.entries.congr hsame.ramfs
  have hvfs : vfsStep fuel s.vfs ⟨t, .readdir fd dirp⟩ = some vfs := by
    show (s.vfs.readdirCall t fd dirp).map _ = some vfs
    rw [hread]
    rfl
  unfold listStep
  rw [hvfs, listsInto_readdir, Option.map_some]
  refine ⟨_, rfl, ⟨_, readdirCall_counts hread hd, ?_, ?_⟩, hentries, ?_, fun m hm => ?_⟩
  · show d.dOffset + 1 = UInt32.ofNat (n + 1)
    rw [hoffset, UInt32.ofNat_add]
    rfl
  · exact (congrFun hsame.nodes _).trans hnode
  · exact congrArg (· + 1) h.calls
  · show (entriesAt vfs node).length = m
    have hlength : (entriesAt s.vfs node).length = (entriesAt vfs node).length := by
      rw [h.entries.entriesAt, hentries.entriesAt]
    rw [← hlength]
    rcases Option.or_eq_some_iff.mp hm with hbefore | ⟨-, hnow⟩
    · exact h.ended m hbefore
    · exact Option.some.inj (Option.ite_none_right_eq_some.mp hnow).2

theorem Relisted.run {s : Listing} (h : Relisted t fd node dirs 0 s) (dirp : Dirent) (n : Nat) :
    ∃ s', runAll (listStep fuel t fd node) s (List.replicate n ⟨t, .readdir fd dirp⟩) = some s' ∧
      Relisted t fd node dirs n s' := by
  induction n with
  | zero => exact ⟨s, rfl, h⟩
  | succ n ih =>
      obtain ⟨s₁, hrun, h₁⟩ := ih
      obtain ⟨s', hstep, h'⟩ := h₁.next dirp
      refine ⟨s', ?_, h'⟩
      rw [List.replicate_succ', runAll_append, hrun, Option.bind_some]
      exact Option.bind_eq_some_iff.mpr ⟨s', hstep, rfl⟩

theorem Relisted.listInv {s : Listing} {n : Nat} (h : Relisted t fd node dirs n s) :
    ListInv t fd node dirs s := by
  obtain ⟨d, hd, hoffset, -⟩ := h.file
  exact ⟨⟨d, hd, h.calls ▸ hoffset⟩, [], (List.append_nil dirs).symm ▸ h.entries⟩

theorem Relisted.nodeHeld {s : Listing} {n : Nat} (h : Relisted t fd node dirs n s) :
    NodeHeld t fd node s c := by
  obtain ⟨d, hd, -, hnode⟩ := h.file
  exact HoldsNode.nodeHeld ⟨d, hd, hnode⟩

/-- The 2^31-th call starts over. -/
theorem Relisted.starts_over {s : Listing} (h : Relisted t fd node dirs (2 ^ 31) s)
    (hsome : dirs ≠ []) (hlen : dirs.length ≤ 2 ^ 31) (dirp : Dirent) :
    ¬ ListsNext t fd node s ⟨t, .readdir fd dirp⟩ := by
  intro hnext
  have hlists := listsInto_readdir t fd dirp
  have hlisted := hnext dirp hlists h.ended
  obtain ⟨vfs, hread⟩ := h.listInv.readdir hlists h.nodeHeld
  have hplace : placeOf (2 ^ 31) = 0 := by decide
  rw [h.entries.entriesAt, h.calls] at hlisted hread
  rw [List.getElem?_eq_none hlen] at hlisted
  rw [hplace, List.getElem?_eq_getElem (List.length_pos_iff.mpr hsome)] at hread
  obtain ⟨dirp', vfs', heq⟩ := hlisted
  exact absurd (Prod.mk.inj (Option.some.inj (hread.symm.trans heq))).1 (by decide)

end Steps

/-- A descriptor of the root of a new `ramfs`. -/
def rootOpen : Vfs :=
  { oneFile with ramfs := fun fs => if fs = 0x1000 then some initRamfs else none }

def readNext : Call := ⟨0, .readdir 0 ⟨0, 0, 0, []⟩⟩

/-- A directory and then a file are made while the root is listed. -/
def makeTwo : List Call :=
  [⟨1, .mkdir ['/', 'a'] 0o777⟩, readNext, ⟨1, .mknod ['b'] 0o777 FS_FILE ⟨0, 0⟩⟩, readNext,
    readNext]

theorem listing_complete_two : InTree rootOpen ⟨1, 0x1000⟩ ∧
    EveryTry (listStep 4 0 0 ⟨1, 0x1000⟩) (ListsNext 0 0 ⟨1, 0x1000⟩) ⟨rootOpen, 0, none⟩ makeTwo ∧
      (runAll (listStep 4 0 0 ⟨1, 0x1000⟩) ⟨rootOpen, 0, none⟩ makeTwo).map
        (fun l => (l.calls, l.ended, (entriesAt l.vfs ⟨1, 0x1000⟩).map RamfsDirent.name)) =
        some (3, some 2, [['a'], ['b']]) := by
  have hd : goodFile (rootOpen.tasks 0) 0 = some ⟨0x3000, 0, 0, 0⟩ := by decide
  have hentries : HasEntries rootOpen ⟨1, 0x1000⟩ [] := ⟨_, rfl, rfl, rfl⟩
  have hholds : HoldsNode 0 0 ⟨1, 0x1000⟩ ⟨rootOpen, 0, none⟩ := ⟨_, hd, rfl⟩
  have hkeeps : ∀ c ∈ makeTwo, KeepsNodes c := by
    simp [makeTwo, readNext, KeepsNodes]
  refine ⟨fun head hhead => Option.some.inj hhead ▸ isTree_init, ?_, by decide +kernel⟩
  exact (listing_complete_iff 4 hd rfl hentries makeTwo (fun c hc => (hkeeps c hc).listsOrCreates)
    (nodeHeld_of_keeps hholds hkeeps)).2.1 (countFits_of_length (by decide))

/-- The root of a `ramfs` after `mkdir` has made one directory in it. -/
def oneEntry : RamfsHeader where
  files := [{ type := FS_DIR, name := ['r', 'o', 'o', 't'], mask := 0o777, inode := 1, size := 266,
              data := .entries [⟨2, 266, 2, ['a']⟩] },
            { type := FS_DIR, mask := 0o777, inode := 2 }]
  iCount := 3
  count_eq := rfl
  inodes := rfl

example : ramfsMkdir initRamfs ⟨1, 0x1000⟩ ['a'] 0o777 = some (0, oneEntry) := rfl

def oneEntryOpen : Vfs :=
  { oneFile with ramfs := fun fs => if fs = 0x1000 then some oneEntry else none }

/-- The end is reported until 2^31 calls are made, and then the first entry is returned again. -/
theorem listing_starts_over :
    EveryTry (listStep 0 0 0 ⟨1, 0x1000⟩) (NodeHeld 0 0 ⟨1, 0x1000⟩) ⟨oneEntryOpen, 0, none⟩
        (List.replicate (2 ^ 31) readNext ++ [readNext]) ∧
      ¬ EveryTry (listStep 0 0 0 ⟨1, 0x1000⟩) (ListsNext 0 0 ⟨1, 0x1000⟩) ⟨oneEntryOpen, 0, none⟩
        (List.replicate (2 ^ 31) readNext ++ [readNext]) := by
  have hd : goodFile (oneEntryOpen.tasks 0) 0 = some ⟨0x3000, 0, 0, 0⟩ := by decide
  have hentries : HasEntries oneEntryOpen ⟨1, 0x1000⟩ [⟨2, 266, 2, ['a']⟩] := ⟨_, rfl, rfl, rfl⟩
  have hstart : Relisted 0 0 ⟨1, 0x1000⟩ [⟨2, 266, 2, ['a']⟩] 0 ⟨oneEntryOpen, 0, none⟩ :=
    ⟨⟨_, hd, rfl, rfl⟩, hentries, rfl, fun m hended => absurd hended.symm (Option.some_ne_none m)⟩
  have hholds : HoldsNode 0 0 ⟨1, 0x1000⟩ ⟨oneEntryOpen, 0, none⟩ := ⟨_, hd, rfl⟩
  constructor
  · refine nodeHeld_of_keeps hholds fun c hc => ?_
    rcases List.mem_append.mp hc with hc | hc
    · rw [List.eq_of_mem_replicate hc]
      exact trivial
    · rw [List.mem_singleton.mp hc]
      exact trivial
  · intro hnext
    obtain ⟨s, hrun, hs⟩ := hstart.run ⟨0, 0, 0, []⟩ (2 ^ 31)
    exact hs.starts_over (List.cons_ne_nil _ _) (by decide) _ (hnext.last hrun)

end OsThing.Fs
