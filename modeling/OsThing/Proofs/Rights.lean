/-
What a task may do to a file, and what it does.

`open` checks the rights that its flags ask for, and `goodOp` gives them: a task that may
open a file for reading may read it.  The rights do not go away, since no call changes the
mask or the owner of a file, and a file that `open` makes itself gives all rights to
everyone.  So what a task may do with a descriptor is a question of the flags alone.

But a descriptor does not keep its flags, and neither `read` nor `write` looks at any.  A
file opened for something else, or for nothing in particular, can be read and written.
-/
import OsThing.Lib.Runs
import OsThing.Proofs.Lookup

namespace OsThing.Fs

open Runs

/-! ### Rights -/

/-- Flags that ask for reading. -/
def asksRead (flags : UInt32) : Prop := flags &&& O_RDONLY ≠ 0 ∨ flags &&& O_RDWR ≠ 0

/-- Flags that ask for writing. -/
def asksWrite (flags : UInt32) : Prop := flags &&& O_WRONLY ≠ 0 ∨ flags &&& O_RDWR ≠ 0

/-- The mask of the file grants `right` to the class of the task. -/
def Grants (s : Vfs) (t : Nat) (node : FileNode) (right : UInt32) : Prop :=
  ∃ h, s.header node = some h ∧ (s.tasks t).perms h.uid h.gid h.mask &&& right ≠ 0

/-- What was asked for is granted. -/
def Covered (s : Vfs) (t : Nat) (node : FileNode) (flags : UInt32) : Prop :=
  (asksRead flags → Grants s t node P_READ) ∧ (asksWrite flags → Grants s t node P_WRITE)

theorem goodOp_spec {perms flags : UInt32} (h : goodOp perms flags) :
    (asksRead flags → perms &&& P_READ ≠ 0) ∧ (asksWrite flags → perms &&& P_WRITE ≠ 0) := by
  obtain ⟨-, hread, hwrite, hboth, -⟩ := of_decide_eq_true h
  refine ⟨fun hasks => ?_, fun hasks => ?_⟩
  · rcases hasks with hro | hrw
    · exact hread hro
    · exact (hboth hrw).1
  · rcases hasks with hwo | hrw
    · exact hwrite hwo
    · exact (hboth hrw).2

theorem perms_zero (task : Task) (uid gid : Nat) : task.perms uid gid 0 = 0 := by
  unfold Task.perms
  split
  · rfl
  · split
    · rfl
    · rfl

/-- A file with mask 0777 grants everything to everyone. -/
theorem perms_all (task : Task) (uid gid : Nat) : task.perms uid gid 0o777 = 7 := by
  unfold Task.perms
  split
  · rfl
  · split
    · rfl
    · rfl

/-- What passes `check_perms` is granted. -/
theorem checkPerms_covered {s : Vfs} {t : Nat} {node : FileNode} {flags : UInt32}
    (h : checkPerms s (s.tasks t) node flags = some true) : Covered s t node flags := by
  unfold checkPerms at h
  obtain ⟨info, hinfo, hgood⟩ := Option.map_eq_some_iff.mp h
  obtain ⟨hread, hwrite⟩ := goodOp_spec hgood
  rw [getInfo_eq_some hinfo] at hread hwrite
  rcases hf : s.header node with _ | f
  · -- without a header the buffer is all zero, which grants nothing
    rw [hf] at hread hwrite
    have hnothing : (s.tasks t).perms 0 0 0 = 0 := perms_zero _ 0 0
    refine ⟨fun hasks => ?_, fun hasks => ?_⟩
    · exact absurd (congrArg (· &&& P_READ) hnothing) (hread hasks)
    · exact absurd (congrArg (· &&& P_WRITE) hnothing) (hwrite hasks)
  · rw [hf] at hread hwrite
    exact ⟨fun hasks => ⟨f, hf, hread hasks⟩, fun hasks => ⟨f, hf, hwrite hasks⟩⟩

/-! ### Rights are kept -/

/-- Type, mask and owner of a file are what they were. -/
def SameRights (h h' : FileHeader) : Prop :=
  h'.type = h.type ∧ h'.mask = h.mask ∧ h'.uid = h.uid ∧ h'.gid = h.gid

/-- No file is gone, and none has other rights. -/
def KeepsRights (s s' : Vfs) : Prop :=
  ∀ node h, s.header node = some h → ∃ h', s'.header node = some h' ∧ SameRights h h'

theorem KeepsRights.of_ramfs {s s' : Vfs} (h : s'.ramfs = s.ramfs) : KeepsRights s s' := by
  intro node f hf
  refine ⟨f, ?_, rfl, rfl, rfl, rfl⟩
  rw [header_congr h]
  exact hf

theorem KeepsRights.trans {s₁ s₂ s₃ : Vfs} (h : KeepsRights s₁ s₂) (h' : KeepsRights s₂ s₃) :
    KeepsRights s₁ s₃ := by
  intro node f hf
  obtain ⟨f₂, hf₂, htype, hmask, huid, hgid⟩ := h node f hf
  obtain ⟨f₃, hf₃, htype', hmask', huid', hgid'⟩ := h' node f₂ hf₂
  exact ⟨f₃, hf₃, htype'.trans htype, hmask'.trans hmask, huid'.trans huid, hgid'.trans hgid⟩

/-- An operation keeps rights if it does so within the file system it is on. -/
theorem onRamfs_keeps {s s' : Vfs} {node : FileNode} {ret : Int}
    {op : RamfsHeader → Option (Int × RamfsHeader)} (h : s.onRamfs node op = some (ret, s'))
    (hop : ∀ head head', op head = some (ret, head') → ∀ i f, head.getFileH i = some f →
      ∃ f', head'.getFileH i = some f' ∧ SameRights f f') : KeepsRights s s' := by
  obtain ⟨head, head', hhead, hres, rfl⟩ := onRamfs_spec h
  intro n f hf
  rw [header_setRamfs]
  split
  · rename_i hfs
    rw [header_of_ramfs (hfs ▸ hhead)] at hf
    exact hop head head' hres n.inode f hf
  · exact ⟨f, hf, rfl, rfl, rfl, rfl⟩

theorem modifyFile_keeps {head : RamfsHeader} {inode i : Nat} {f : FileHeader}
    {change : FileHeader → FileHeader} (hinode : ∀ h, (change h).inode = h.inode)
    (hchange : ∀ h, SameRights h (change h)) (hf : head.getFileH i = some f) :
    ∃ f', (head.modifyFile inode change hinode).getFileH i = some f' ∧ SameRights f f' := by
  rw [RamfsHeader.getFileH_modifyFile, hf]
  refine ⟨_, rfl, ?_⟩
  split
  · exact hchange f
  · exact ⟨rfl, rfl, rfl, rfl⟩

theorem ramfsAdd_keeps {head head' : RamfsHeader} {node : FileNode} {name : Name} {mode : UInt32}
    {type i : Nat} {ret : Int} {f : FileHeader}
    (h : ramfsAdd head node name mode type = some (ret, head')) (hf : head.getFileH i = some f) :
    ∃ f', head'.getFileH i = some f' ∧ SameRights f f' := by
  rcases ramfsAdd_cases h with ⟨-, rfl⟩ | ⟨-, hadded⟩
  · exact ⟨f, hf, rfl, rfl, rfl, rfl⟩
  · obtain ⟨_, dirs, dir, -, -, -, -, -, hfiles⟩ := hadded.files
    have hlt := RamfsHeader.getFileH_lt hf
    rw [hfiles, if_neg (Nat.ne_of_lt hlt), hf]
    refine ⟨_, rfl, ?_⟩
    split
    · exact ⟨rfl, rfl, rfl, rfl⟩
    · exact ⟨rfl, rfl, rfl, rfl⟩

theorem TreeChange.keeps {s s' : Vfs} (h : TreeChange s s') : KeepsRights s s' := by
  cases h with
  | same => exact KeepsRights.of_ramfs rfl
  | node a node => exact KeepsRights.of_ramfs rfl
  | add h => exact onRamfs_keeps h fun head head' hadd i f hf => ramfsAdd_keeps hadd hf
  | unlink h =>
      refine onRamfs_keeps h fun head head' hop i f hf => ?_
      obtain ⟨_, -, h⟩ := Option.map_eq_some_iff.mp hop
      obtain ⟨-, rfl⟩ := Prod.mk.inj h
      exact modifyFile_keeps _ (fun _ => ⟨rfl, rfl, rfl, rfl⟩) hf

theorem fsMount_keeps {s s' : Vfs} {type dir : FileNode} {ret : Int}
    (h : s.fsMount type dir = some (ret, s')) : KeepsRights s s' := by
  obtain ⟨id, mounts, head, _, -, hhead, -, rfl⟩ := fsMount_spec h
  intro node f hf
  rw [header_setRamfs]
  split
  · rename_i hfs
    rw [header_of_ramfs (hfs ▸ hhead)] at hf
    exact modifyFile_keeps _ (fun _ => ⟨rfl, rfl, rfl, rfl⟩) hf
  · exact ⟨f, hf, rfl, rfl, rfl, rfl⟩

/-! ### Opening a file -/

theorem ramfsOpen_keeps {s s' : Vfs} {node : FileNode} {name : Name} {flags : UInt32} {ret : Int}
    (h : (s.onRamfs node fun head => ramfsOpen head node name flags) = some (ret, s')) :
    KeepsRights s s' := by
  refine onRamfs_keeps h fun head head' hopen i f hf => ?_
  rcases ramfsOpen_cases hopen with rfl | hadd
  · exact ⟨f, hf, rfl, rfl, rfl, rfl⟩
  · exact ramfsAdd_keeps hadd hf

theorem Covered.keeps {s s' : Vfs} {t : Nat} {node : FileNode} {flags : UInt32}
    (h : Covered s t node flags) (hkeeps : KeepsRights s s')
    (htask : (s'.tasks t).uid = (s.tasks t).uid ∧ (s'.tasks t).gid = (s.tasks t).gid) :
    Covered s' t node flags := by
  have hgrants : ∀ right, Grants s t node right → Grants s' t node right := by
    rintro right ⟨f, hf, hright⟩
    obtain ⟨f', hf', -, hmask, huid, hgid⟩ := hkeeps node f hf
    refine ⟨f', hf', ?_⟩
    unfold Task.perms at hright ⊢
    rw [hmask, huid, hgid, htask.1, htask.2]
    exact hright
  exact ⟨fun hasks => hgrants _ (h.1 hasks), fun hasks => hgrants _ (h.2 hasks)⟩

/-- A file that was made with mask 0777 covers all flags. -/
theorem covered_new {s : Vfs} {t : Nat} {node : FileNode} {f : FileHeader} (flags : UInt32)
    (hf : s.header node = some f) (hmask : f.mask = 0o777) : Covered s t node flags := by
  refine ⟨fun _ => ⟨f, hf, ?_⟩, fun _ => ⟨f, hf, ?_⟩⟩
  · rw [hmask, perms_all]
    decide
  · rw [hmask, perms_all]
    decide

/-- The file that `open` makes and then finds is the one it made. -/
theorem made_covered {s s₂ s₃ : Vfs} {fuel t a : Nat} {path name : Name} {flags : UInt32}
    {node dir buf : FileNode} {e ret err : Int} (he : e < 0) (hret : 0 ≤ ret) (herr : 0 ≤ err)
    (hroot : a ≠ (s.tasks t).root) (hcwd : a ≠ (s.tasks t).cwd)
    (hfirst : fsFindPath s fuel t path buf = .ok (e, node))
    (hopen : ((s.setNode a dir).onRamfs dir fun head => ramfsOpen head dir name flags) =
      some (ret, s₂))
    (hsecond : s₂.findPath fuel t path a = some (err, s₃)) :
    Covered s₃ t (s₃.nodes a) flags := by
  obtain ⟨found, hpath, rfl⟩ := findPath_spec hsecond
  obtain ⟨head, head', hhead, hop, rfl⟩ := onRamfs_spec hopen
  have hhead : s.ramfs dir.fs = some head := hhead
  have hnodes : ∀ b, a ≠ b → (s.setNode a dir).nodes b = s.nodes b := fun b hb =>
    Function.update_of_ne hb.symm ..
  rcases ramfsOpen_cases hop with rfl | hadd
  · -- nothing was made, and the second lookup fails as the first one did
    have hsame : SameView s ((s.setNode a dir).setRamfs dir.fs head') t :=
      ⟨setRamfs_self hhead, rfl, rfl, hnodes _ hroot, hnodes _ hcwd⟩
    have hret := fsFindPath_ret s fuel t path buf
      (((s.setNode a dir).setRamfs dir.fs head').nodes a)
    rw [fsFindPath_congr hsame] at hpath
    rw [hpath, hfirst] at hret
    have heq : err = e := Except.ok.inj hret
    omega
  · rcases ramfsAdd_cases hadd with ⟨rfl, -⟩ | ⟨-, hadded⟩
    · exact absurd hret (by decide)
    · have hcreated := Created.of_added hhead hadded
        (show ((s.setNode a dir).setRamfs dir.fs head').ramfs = _ from rfl) rfl rfl
      have hgrown := hcreated.grown (show FS_FILE ≠ FS_DIR by decide)
      have hnew := fsFindPath_grown hgrown he herr rfl (hnodes _ hroot) (hnodes _ hcwd) hfirst hpath
      obtain ⟨_, _, _, -, -, -, -, -, hfiles⟩ := hadded.files
      subst hnew
      rw [show (Vfs.setNode _ a ⟨head.iCount, dir.fs⟩).nodes a = ⟨head.iCount, dir.fs⟩ from
        Function.update_self ..]
      have hfile := (hfiles head.iCount).trans (if_pos rfl)
      exact covered_new flags ((header_setRamfs _ dir.fs head' _).trans ((if_pos rfl).trans hfile)) rfl

theorem openFile_keeps {s s₀ : Vfs} {fuel t a : Nat} {path : Name} {flags : UInt32} {err : Int}
    (h : s.openFile fuel t path flags a = some (err, s₀)) : KeepsRights s s₀ := by
  obtain ⟨s₁, htree, hramfs, -, -⟩ := openFile_tree h
  exact htree.keeps.trans (KeepsRights.of_ramfs hramfs)

/-- **What `open` has found, the task may use as it asked to.** -/
theorem openFile_covered {s s₀ : Vfs} {fuel t a : Nat} {path : Name} {flags : UInt32} {err : Int}
    (h : s.openFile fuel t path flags a = some (err, s₀)) (hroot : a ≠ (s.tasks t).root)
    (hcwd : a ≠ (s.tasks t).cwd) (herr : 0 ≤ err) : Covered s₀ t (s₀.nodes a) flags := by
  cases openFile_ends h with
  | lost found hneg hfind => exact absurd hneg (Int.not_lt.mpr herr)
  | refused e found he heq hfind hperms =>
      subst heq
      exact absurd herr (by decide)
  | opened e found s₁ he hend hfind hperms hopen =>
      -- the file was there: it is the one that was checked
      have htasks := onRamfs_sameTasks hopen
      have hcovered := (checkPerms_covered hperms).keeps (ramfsOpen_keeps hopen)
        (by rw [htasks.tasks]; exact ⟨rfl, rfl⟩)
      obtain ⟨head, head', -, -, rfl⟩ := onRamfs_spec hopen
      exact hcovered
  | made e ret s₁ s₂ he hret hfind hperms hopen hlast =>
      obtain ⟨⟨dir, rfl⟩, hfirst⟩ := openFind_cases hfind
      obtain ⟨-, e', node, he', hpath⟩ := hfirst rfl he
      have hdir : (s.setNode a dir).nodes a = dir := Function.update_self ..
      unfold openNode at hopen
      rw [hdir] at hopen
      exact made_covered he' hret herr hroot hcwd hpath hopen hlast

/-! ### Reading and writing -/

/-- What a descriptor was opened for is known, and covered by its flags. -/
structure RightsOk (s : Vfs) : Prop where
  /-- The two nodes of a task are in blocks that are not free. -/
  live : ∀ t, (s.tasks t).root ∈ s.live ∧ (s.tasks t).cwd ∈ s.live
  held : ∀ t i d, (s.tasks t).files i = some d → ∃ o, s.opened t i = some o
  covered : ∀ t i o, s.opened t i = some o → Covered s t o.node o.flags

/-- A read that transfers bytes was asked for and is granted, and so is a write that changes
a file. -/
def Allowed (s : Vfs) (c : Call) (s' : Vfs) : Prop :=
  (∀ fd size raw, c.op = .read fd size raw → ∀ ret bytes,
    s.read c.task fd size raw = some (ret, bytes, s') → bytes ≠ [] →
      ∃ d o, goodFile (s.tasks c.task) fd = some d ∧ s.opened c.task (fdIndex fd) = some o ∧
        asksRead o.flags ∧ Grants s c.task (s.nodes d.file) P_READ) ∧
  ∀ fd input junk size, c.op = .write fd input junk size →
    ∀ node, s'.header node ≠ s.header node →
      ∃ o, s.opened c.task (fdIndex fd) = some o ∧ asksWrite o.flags ∧
        Grants s c.task node P_WRITE

/-- There is no byte to read at the offset of the descriptor. -/
def NothingLeft (s : Vfs) (d : FileDescript) (size : UInt32) : Prop :=
  ∀ f, s.header (s.nodes d.file) = some f → min size.toNat (f.size.toNat - d.rOffset.toNat) = 0

/-- The block of the node still has what `open` found, and the flags asked for what is done
now, if anything is. -/
def AskedFor (s : Vfs) (c : Call) (_ : Vfs) : Prop :=
  (∀ fd size raw, c.op = .read fd size raw → ∀ d o,
    goodFile (s.tasks c.task) fd = some d → s.opened c.task (fdIndex fd) = some o →
      s.nodes d.file = o.node ∧ (asksRead o.flags ∨ NothingLeft s d size)) ∧
  ∀ fd input junk size, c.op = .write fd input junk size → ∀ d o,
    goodFile (s.tasks c.task) fd = some d → s.opened c.task (fdIndex fd) = some o →
      s.nodes d.file = o.node ∧ asksWrite o.flags

/-- What a step has to leave alone, and what has to be so of a descriptor it makes. -/
theorem RightsOk.step {s s' : Vfs} (h : RightsOk s) (hkeeps : KeepsRights s s')
    (htask : ∀ t, (s'.tasks t).uid = (s.tasks t).uid ∧ (s'.tasks t).gid = (s.tasks t).gid ∧
      (s'.tasks t).root = (s.tasks t).root ∧ (s'.tasks t).cwd = (s.tasks t).cwd)
    (hlive : s'.live = s.live)
    (hheld : ∀ t i d, (s'.tasks t).files i = some d → ∃ o, s'.opened t i = some o)
    (hopened : ∀ t i o, s'.opened t i = some o →
      s.opened t i = some o ∨ Covered s' t o.node o.flags) : RightsOk s' := by
  refine ⟨fun t => ?_, hheld, fun t i o ho => ?_⟩
  · obtain ⟨-, -, hroot, hcwd⟩ := htask t
    rw [hroot, hcwd, hlive]
    exact h.live t
  · rcases hopened t i o ho with hold | hnew
    · obtain ⟨huid, hgid, -⟩ := htask t
      exact (h.covered t i o hold).keeps hkeeps ⟨huid, hgid⟩
    · exact hnew

theorem RightsOk.sameFiles {s s' : Vfs} (h : RightsOk s) (hsame : SameFiles s s')
    (hkeeps : KeepsRights s s') : RightsOk s' := by
  refine h.step hkeeps hsame.task hsame.live (fun t i d hd => ?_) fun t i o ho => Or.inl ?_
  · have hfile := hsame.files t i
    rw [hd, Option.map_some] at hfile
    obtain ⟨d', hd', -⟩ := Option.map_eq_some_iff.mp hfile.symm
    rw [hsame.opened]
    exact h.held t i d' hd'
  · rw [← hsame.opened]
    exact ho

theorem RightsOk.openedAt {s s' : Vfs} {t i a : Nat} {flags : UInt32} (h : RightsOk s)
    (hopen : OpenedAt s s' t i a flags) (hkeeps : KeepsRights s s')
    (hnew : Covered s' t (s'.nodes a) flags) : RightsOk s' := by
  refine h.step hkeeps hopen.task_same hopen.live (fun t' i' d hd => ?_) fun t' i' o ho => ?_
  · rw [hopen.opened]
    split
    · exact ⟨_, rfl⟩
    · rename_i hne
      by_cases ht : t' = t
      · rw [ht, hopen.task, Task.addFile_files, if_neg fun hi => hne ⟨ht, hi⟩] at hd
        rw [ht]
        exact h.held t i' d hd
      · rw [hopen.others t' ht] at hd
        exact h.held t' i' d hd
  · rw [hopen.opened] at ho
    split at ho
    · rename_i heq
      obtain rfl := Option.some.inj ho
      rw [heq.1]
      exact Or.inr hnew
    · exact Or.inl ho

theorem RightsOk.closedAt {s s' : Vfs} {t i : Nat} (h : RightsOk s) (hclose : ClosedAt s s' t i)
    (hkeeps : KeepsRights s s') : RightsOk s' := by
  refine h.step hkeeps hclose.task_same hclose.live (fun t' i' d hd => ?_) fun t' i' o ho => ?_
  · by_cases ht : t' = t
    · rw [ht, hclose.task, Task.dropFile_files] at hd
      split at hd
      · cases hd
      · rename_i hi
        rw [hclose.opened, if_neg fun hc => hi hc.2, ht]
        exact h.held t i' d hd
    · rw [hclose.others t' ht] at hd
      rw [hclose.opened, if_neg fun hc => ht hc.1]
      exact h.held t' i' d hd
  · rw [hclose.opened] at ho
    split at ho
    · cases ho
    · exact Or.inl ho

/-- A read changes no file, and transfers bytes only from the file of the descriptor. -/
theorem read_spec {s s' : Vfs} {t : Nat} {fd ret : Int} {size : UInt32} {raw : Nat → UInt8}
    {bytes : List UInt8} (h : s.read t fd size raw = some (ret, bytes, s')) :
    SameTrees s s' ∧ (bytes ≠ [] →
      ∃ d, goodFile (s.tasks t) fd = some d ∧ ¬ NothingLeft s d size) := by
  unfold Vfs.read at h
  split at h
  · obtain ⟨-, hrest⟩ := Prod.mk.inj (Option.some.inj h)
    obtain ⟨rfl, rfl⟩ := Prod.mk.inj hrest
    exact ⟨⟨rfl, rfl, rfl, rfl⟩, fun hne => absurd rfl hne⟩
  · rename_i d hgood
    obtain ⟨head, hhead, h⟩ := Option.bind_eq_some_iff.mp h
    obtain ⟨⟨i, bs⟩, hread, h⟩ := Option.map_eq_some_iff.mp h
    obtain ⟨-, hrest⟩ := Prod.mk.inj h
    obtain ⟨rfl, rfl⟩ := Prod.mk.inj hrest
    refine ⟨⟨rfl, rfl, rfl, rfl⟩, fun hne => ⟨d, hgood, fun hnothing => hne ?_⟩⟩
    obtain ⟨f, hf, hread⟩ := Option.map_eq_some_iff.mp hread
    obtain ⟨-, rfl⟩ := Prod.mk.inj hread
    have hcount := hnothing f ((header_of_ramfs hhead).trans hf)
    rw [hcount, List.range_zero, List.map_nil]

/-- `ramfs_pwrite` changes one header, and neither its rights nor its mount. -/
theorem ramfsPwrite_cases {head head' : RamfsHeader} {node : FileNode}
    {input junk : Nat → UInt8} {size offset : UInt32} {ret : Int}
    (h : ramfsPwrite head node input junk size offset = some (ret, head')) :
    ∃ (change : FileHeader → FileHeader) (hinode : ∀ f, (change f).inode = f.inode),
      head' = head.modifyFile node.inode change hinode ∧
        ∀ f, SameRights f (change f) ∧ (change f).mountId = f.mountId ∧
          ∀ dirs, (change f).data = .entries dirs → f.data = .entries dirs := by
  unfold ramfsPwrite at h
  obtain ⟨f, -, h⟩ := Option.bind_eq_some_iff.mp h
  dsimp only at h
  split at h
  · obtain ⟨-, rfl⟩ := Prod.mk.inj (Option.some.inj h)
    exact ⟨_, _, rfl, fun _ => ⟨⟨rfl, rfl, rfl, rfl⟩, rfl, fun _ hdata => nomatch hdata⟩⟩
  · split at h
    · obtain ⟨-, rfl⟩ := Prod.mk.inj (Option.some.inj h)
      exact ⟨_, _, rfl, fun _ => ⟨⟨rfl, rfl, rfl, rfl⟩, rfl, fun _ hdata => hdata⟩⟩
    · cases h

/-- A write changes the file of the descriptor, if any. -/
theorem write_spec {s s' : Vfs} {t : Nat} {fd ret : Int} {input junk : Nat → UInt8}
    {size : UInt32} (h : s.write t fd input junk size = some (ret, s')) :
    KeepsRights s s' ∧ ∀ node, s'.header node ≠ s.header node →
      ∃ d, goodFile (s.tasks t) fd = some d ∧ s.nodes d.file = node := by
  rcases write_cases h with rfl | ⟨d, i, s₁, hgood, hwrite, htrees, -⟩
  · exact ⟨KeepsRights.of_ramfs rfl, fun node hne => absurd rfl hne⟩
  · refine ⟨KeepsRights.trans (onRamfs_keeps hwrite fun head head' hop j f hf => ?_)
      (KeepsRights.of_ramfs htrees.ramfs), fun node hne => ⟨d, hgood, ?_⟩⟩
    · obtain ⟨change, hinode, rfl, hchange⟩ := ramfsPwrite_cases hop
      exact modifyFile_keeps hinode (fun f => (hchange f).1) hf
    · obtain ⟨head, head', hhead, hop, rfl⟩ := onRamfs_spec hwrite
      obtain ⟨change, hinode, rfl, -⟩ := ramfsPwrite_cases hop
      rw [header_congr htrees.ramfs, header_setRamfs] at hne
      split at hne
      · rename_i hfs
        rw [header_of_ramfs (hfs ▸ hhead), RamfsHeader.getFileH_modifyFile] at hne
        have hi : node.inode = (s.nodes d.file).inode := by
          by_contra hi
          simp only [if_neg hi, Option.map_id'] at hne
          exact hne rfl
        show FileNode.mk (s.nodes d.file).inode (s.nodes d.file).fs = node
        rw [← hi, ← hfs]
      · exact absurd rfl hne

theorem rightsOk_step {fuel : Nat} (s : Vfs) (c : Call) (s' : Vfs) (h : RightsOk s)
    (hstep : vfsStep fuel s c = some s') : RightsOk s' := by
  cases vfsStep_cases hstep with
  | tree htree => exact h.sameFiles htree.sameTasks.sameFiles htree.keeps
  | mountAt type dir ret hop hmount =>
      exact h.sameFiles (fsMount_sameTasks hmount).sameFiles (fsMount_keeps hmount)
  | read fd size raw ret bytes hop hread =>
      exact h.sameFiles (read_sameFiles hread) (KeepsRights.of_ramfs (read_spec hread).1.ramfs)
  | write fd input junk size ret hop hwrite =>
      exact h.sameFiles (write_sameFiles hwrite) (write_spec hwrite).1
  | offsets hsame htrees => exact h.sameFiles hsame (KeepsRights.of_ramfs htrees.ramfs)
  | openAt path flags a err s₀ hop hlive hfile htrees hcases =>
      obtain ⟨hroot, hcwd⟩ := h.live c.task
      have htrees' := KeepsRights.of_ramfs htrees.ramfs
      have hkeeps : KeepsRights s s' :=
        (KeepsRights.trans (KeepsRights.of_ramfs rfl) (openFile_keeps hfile)).trans htrees'
      rcases hcases with ⟨-, hsame⟩ | ⟨herr, i, hopen⟩
      · exact h.sameFiles hsame.sameFiles hkeeps
      · refine h.openedAt hopen hkeeps ?_
        have hnew := openFile_covered hfile (fun ha => hlive (ha ▸ hroot))
          (fun ha => hlive (ha ▸ hcwd)) herr
        rw [htrees.nodes]
        refine hnew.keeps htrees' ?_
        rw [hopen.task, (openFile_sameTasks hfile).tasks]
        exact ⟨rfl, rfl⟩
  | closeAt fd hop htrees hcases =>
      have hkeeps := KeepsRights.of_ramfs htrees.ramfs
      rcases hcases with ⟨-, hsame⟩ | ⟨-, hclose⟩
      · exact h.sameFiles hsame.sameFiles hkeeps
      · exact h.closedAt hclose hkeeps

theorem allowed_of_askedFor {fuel : Nat} (s : Vfs) (c : Call) (s' : Vfs) (h : RightsOk s)
    (hstep : vfsStep fuel s c = some s') (hasked : AskedFor s c s') : Allowed s c s' := by
  obtain ⟨t, op⟩ := c
  refine ⟨fun fd size raw hop ret bytes hread hne => ?_, fun fd input junk size hop node hne => ?_⟩
  · obtain ⟨d, hgood, hleft⟩ := (read_spec hread).2 hne
    obtain ⟨o, ho⟩ := h.held _ _ _ (goodFile_eq_some hgood).2
    obtain ⟨hnode, hasks | hnothing⟩ := hasked.1 fd size raw hop d o hgood ho
    · refine ⟨d, o, hgood, ho, hasks, ?_⟩
      rw [hnode]
      exact (h.covered _ _ _ ho).1 hasks
    · exact absurd hnothing hleft
  · obtain rfl : op = .write fd input junk size := hop
    obtain ⟨⟨ret, s₁⟩, hwrite, rfl⟩ := Option.map_eq_some_iff.mp hstep
    obtain ⟨d, hgood, hnode'⟩ := (write_spec hwrite).2 node hne
    obtain ⟨o, ho⟩ := h.held _ _ _ (goodFile_eq_some hgood).2
    obtain ⟨hnode, hasks⟩ := hasked.2 fd input junk size rfl d o hgood ho
    refine ⟨o, ho, hasks, ?_⟩
    rw [← hnode', hnode]
    exact (h.covered _ _ _ ho).2 hasks

/-- No task has a descriptor yet, and the two nodes of each task are allocated. -/
structure Idle (s : Vfs) : Prop where
  files : ∀ t i, (s.tasks t).files i = none
  opened : ∀ t i, s.opened t i = none
  live : ∀ t, (s.tasks t).root ∈ s.live ∧ (s.tasks t).cwd ∈ s.live

/--
**Rights are enforced as long as descriptors are used as their flags say.**  For every run
of calls by any tasks, on any files, with any flags.
-/
theorem rights_enforced (fuel : Nat) (s : Vfs) (calls : List Call) (h : Idle s)
    (hasked : EveryStep (vfsStep fuel) AskedFor s calls) :
    EveryStep (vfsStep fuel) Allowed s calls := by
  have hrights : RightsOk s := by
    refine ⟨h.live, fun t i d hd => ?_, fun t i o ho => ?_⟩
    · rw [h.files] at hd
      cases hd
    · rw [h.opened] at ho
      cases ho
  exact everyStep_of_inv (fun _ _ _ h hstep _ => rightsOk_step _ _ _ h hstep) allowed_of_askedFor
    hrights hasked

/-- A file opened for both, and written to. -/
theorem rights_enforced_boot :
    EveryStep (vfsStep 4) Allowed (Vfs.boot [0x1000] 0x1000 0x2000)
      [⟨0, .open ['a'] 68 0x3000⟩, ⟨0, .write 0 (fun _ => 0x61) (fun _ => 0) 1⟩] := by
  refine rights_enforced 4 _ _ ⟨fun _ _ => rfl, fun _ _ => rfl,
    fun _ => ⟨List.mem_singleton_self _, List.mem_singleton_self _⟩⟩ ?_
  intro s₁ h₁
  refine ⟨⟨fun _ _ _ hop => (nomatch hop), fun _ _ _ _ hop => (nomatch hop)⟩, fun s₂ h₂ =>
    ⟨⟨fun _ _ _ hop => (nomatch hop), fun fd input junk size hop d o hgood ho => ?_⟩, trivial⟩⟩
  have hrun : (vfsStep 4 (Vfs.boot [0x1000] 0x1000 0x2000) ⟨0, .open ['a'] 68 0x3000⟩).map
      (fun s => (goodFile (s.tasks 0) 0, s.opened 0 0, s.nodes 0x3000)) =
        some (some ⟨0x3000, 0, 0, 0⟩, some ⟨⟨2, 0x1000⟩, 68⟩, ⟨2, 0x1000⟩) := by
    decide
  rw [h₁] at hrun
  obtain ⟨hfile, hrest⟩ := Prod.mk.inj (Option.some.inj hrun)
  obtain ⟨hopened, hnode⟩ := Prod.mk.inj hrest
  obtain ⟨rfl, -⟩ := VfsOp.write.inj hop
  obtain rfl : ⟨0x3000, 0, 0, 0⟩ = d := Option.some.inj (hfile.symm.trans hgood)
  obtain rfl : ⟨⟨2, 0x1000⟩, 68⟩ = o := Option.some.inj (hopened.symm.trans ho)
  exact ⟨hnode, Or.inr (by decide)⟩

/-- A file opened with `O_CREAT` and nothing else is written to all the same. -/
theorem creat_writes :
    ¬ EveryStep (vfsStep 4) Allowed (Vfs.boot [0x1000] 0x1000 0x2000)
      [⟨0, .open ['a'] 64 0x3000⟩, ⟨0, .write 0 (fun _ => 0x61) (fun _ => 0) 1⟩] := by
  intro h
  have h : EveryStep (vfsStep 4) Allowed (Vfs.boot [0x1000] 0x1000 0x2000)
    ([⟨0, .open ['a'] 64 0x3000⟩] ++ [⟨0, .write 0 (fun _ => 0x61) (fun _ => 0) 1⟩]) := h
  have hrun : (runAll (vfsStep 4) (Vfs.boot [0x1000] 0x1000 0x2000)
      [⟨0, .open ['a'] 64 0x3000⟩]).bind (fun s =>
        (vfsStep 4 s ⟨0, .write 0 (fun _ => 0x61) (fun _ => 0) 1⟩).map fun s' =>
          (s.opened 0 0, (s.header ⟨2, 0x1000⟩).map FileHeader.size,
            (s'.header ⟨2, 0x1000⟩).map FileHeader.size)) =
      some (some ⟨⟨2, 0x1000⟩, 64⟩, some 0, some 1) := by
    decide
  obtain ⟨s₁, hs₁, hrun⟩ := Option.bind_eq_some_iff.mp hrun
  obtain ⟨s₂, hs₂, hend⟩ := Option.map_eq_some_iff.mp hrun
  obtain ⟨hopened, hrest⟩ := Prod.mk.inj hend
  obtain ⟨hbefore, hafter⟩ := Prod.mk.inj hrest
  have hallowed := h.last hs₁ hs₂
  have hchanged : s₂.header ⟨2, 0x1000⟩ ≠ s₁.header ⟨2, 0x1000⟩ := by
    intro heq
    rw [heq, hbefore] at hafter
    exact absurd hafter (by decide)
  obtain ⟨o, ho, hasks, -⟩ := hallowed.2 0 _ _ 1 rfl ⟨2, 0x1000⟩ hchanged
  obtain rfl : ⟨⟨2, 0x1000⟩, 64⟩ = o := Option.some.inj (hopened.symm.trans ho)
  rcases hasks with hwo | hrw
  · exact hwo (by decide)
  · exact hrw (by decide)

end OsThing.Fs
