/-
What each system call can change.

Results about runs never look into a call.  They read its effect off `vfsStep_cases`: the
calls that make, remove or mount files change one file system and no descriptor; `read`,
`write`, `lseek` and `readdir` change the offsets of one descriptor; and only an `open`
that succeeds and a `close` that is accepted change which descriptors a task has.
-/
import OsThing.Fs.Calls

namespace OsThing.Fs

/-! ### Calls that leave descriptors alone -/

/-- Nothing about tasks or descriptors is changed. -/
structure SameTasks (s s' : Vfs) : Prop where
  tasks : s'.tasks = s.tasks
  opened : s'.opened = s.opened
  live : s'.live = s.live

/-- Descriptors are changed only in their offsets. -/
structure SameFiles (s s' : Vfs) : Prop where
  files : ∀ t i, ((s'.tasks t).files i).map FileDescript.file =
    ((s.tasks t).files i).map FileDescript.file
  count : ∀ t, (s'.tasks t).fileCount = (s.tasks t).fileCount
  task : ∀ t, (s'.tasks t).uid = (s.tasks t).uid ∧ (s'.tasks t).gid = (s.tasks t).gid ∧
    (s'.tasks t).root = (s.tasks t).root ∧ (s'.tasks t).cwd = (s.tasks t).cwd
  opened : s'.opened = s.opened
  live : s'.live = s.live

theorem SameTasks.refl (s : Vfs) : SameTasks s s := ⟨rfl, rfl, rfl⟩

theorem SameTasks.trans {s₁ s₂ s₃ : Vfs} (h : SameTasks s₁ s₂) (h' : SameTasks s₂ s₃) :
    SameTasks s₁ s₃ :=
  ⟨h'.tasks.trans h.tasks, h'.opened.trans h.opened, h'.live.trans h.live⟩

theorem SameTasks.sameFiles {s s' : Vfs} (h : SameTasks s s') : SameFiles s s' := by
  constructor
  · intro t i
    rw [h.tasks]
  · intro t
    rw [h.tasks]
  · intro t
    rw [h.tasks]
    exact ⟨rfl, rfl, rfl, rfl⟩
  · exact h.opened
  · exact h.live

theorem onRamfs_sameTasks {s s' : Vfs} {node : FileNode} {ret : Int}
    {op : RamfsHeader → Option (Int × RamfsHeader)} (h : s.onRamfs node op = some (ret, s')) :
    SameTasks s s' := by
  unfold Vfs.onRamfs at h
  obtain ⟨head, -, h⟩ := Option.bind_eq_some_iff.mp h
  obtain ⟨⟨r, head'⟩, -, h⟩ := Option.map_eq_some_iff.mp h
  obtain ⟨-, rfl⟩ := Prod.mk.inj h
  exact ⟨rfl, rfl, rfl⟩

theorem findPath_sameTasks {s s' : Vfs} {fuel t a : Nat} {path : Name} {ret : Int}
    (h : s.findPath fuel t path a = some (ret, s')) : SameTasks s s' := by
  unfold Vfs.findPath at h
  obtain ⟨⟨r, node⟩, -, h⟩ := Option.map_eq_some_iff.mp h
  obtain ⟨-, rfl⟩ := Prod.mk.inj h
  exact ⟨rfl, rfl, rfl⟩

theorem openFind_sameTasks {s s' : Vfs} {fuel t a : Nat} {path : Name} {flags : UInt32}
    {err : Int} {found : Bool} (h : s.openFind fuel t path flags a = some (err, found, s')) :
    SameTasks s s' := by
  unfold Vfs.openFind at h
  obtain ⟨⟨e, s₁⟩, hfind, h⟩ := Option.bind_eq_some_iff.mp h
  have h₁ := findPath_sameTasks hfind
  dsimp only at h
  split at h
  · split at h
    · obtain ⟨⟨e', s₂⟩, hparent, h⟩ := Option.map_eq_some_iff.mp h
      obtain ⟨-, h⟩ := Prod.mk.inj h
      obtain ⟨-, rfl⟩ := Prod.mk.inj h
      exact h₁.trans (findPath_sameTasks hparent)
    · obtain ⟨-, h⟩ := Prod.mk.inj (Option.some.inj h)
      obtain ⟨-, rfl⟩ := Prod.mk.inj h
      exact h₁
  · obtain ⟨-, h⟩ := Prod.mk.inj (Option.some.inj h)
    obtain ⟨-, rfl⟩ := Prod.mk.inj h
    exact h₁

/-- `ops->open` of the file system of the node that `open` has found. -/
def openNode (s : Vfs) (path : Name) (flags : UInt32) (a : Nat) : Option (Int × Vfs) :=
  s.onRamfs (s.nodes a) fun head => ramfsOpen head (s.nodes a) (lastName path) flags

/-- How `open` comes to the node of the file: its first lookups have an error; the task may not
open what they find; it has what they find, or an error of the file system; or the file system
has made a file, which is looked up. -/
inductive OpenFileEnds (s : Vfs) (fuel t : Nat) (path : Name) (flags : UInt32) (a : Nat) (err : Int)
    (s' : Vfs) : Prop
  | lost (found : Bool) (herr : err < 0)
      (hfind : s.openFind fuel t path flags a = some (err, found, s'))
  | refused (e : Int) (found : Bool) (he : 0 ≤ e) (herr : err = -EACCES)
      (hfind : s.openFind fuel t path flags a = some (e, found, s'))
      (hperms : checkPerms s' (s'.tasks t) (s'.nodes a) flags = some false)
  | opened (e : Int) (found : Bool) (s₁ : Vfs) (he : 0 ≤ e) (hend : err < 0 ∨ found = true)
      (hfind : s.openFind fuel t path flags a = some (e, found, s₁))
      (hperms : checkPerms s₁ (s₁.tasks t) (s₁.nodes a) flags = some true)
      (hopen : openNode s₁ path flags a = some (err, s'))
  | made (e ret : Int) (s₁ s₂ : Vfs) (he : 0 ≤ e) (hret : 0 ≤ ret)
      (hfind : s.openFind fuel t path flags a = some (e, false, s₁))
      (hperms : checkPerms s₁ (s₁.tasks t) (s₁.nodes a) flags = some true)
      (hopen : openNode s₁ path flags a = some (ret, s₂))
      (hlast : s₂.findPath fuel t path a = some (err, s'))

theorem openFile_ends {s s' : Vfs} {fuel t a : Nat} {path : Name} {flags : UInt32} {err : Int}
    (h : s.openFile fuel t path flags a = some (err, s')) :
    OpenFileEnds s fuel t path flags a err s' := by
  unfold Vfs.openFile at h
  obtain ⟨⟨e, found, s₁⟩, hfind, h⟩ := Option.bind_eq_some_iff.mp h
  dsimp only at h
  split at h
  · rename_i he
    obtain ⟨rfl, rfl⟩ := Prod.mk.inj (Option.some.inj h)
    exact .lost found he hfind
  rename_i he
  obtain ⟨good, hperms, h⟩ := Option.bind_eq_some_iff.mp h
  cases good with
  | false =>
      obtain ⟨rfl, rfl⟩ := Prod.mk.inj (Option.some.inj h)
      exact .refused e found (Int.not_lt.mp he) rfl hfind hperms
  | true =>
      obtain ⟨⟨ret, s₂⟩, hopen, h⟩ := Option.bind_eq_some_iff.mp h
      dsimp only at h
      split at h
      · rename_i hret
        obtain ⟨rfl, rfl⟩ := Prod.mk.inj (Option.some.inj h)
        exact .opened e found s₁ (Int.not_lt.mp he) (Or.inl hret) hfind hperms hopen
      rename_i hret
      cases found with
      | false => exact .made e ret s₁ s₂ (Int.not_lt.mp he) (Int.not_lt.mp hret) hfind hperms hopen h
      | true =>
          obtain ⟨rfl, rfl⟩ := Prod.mk.inj (Option.some.inj h)
          exact .opened e true s₁ (Int.not_lt.mp he) (Or.inr rfl) hfind hperms hopen

theorem openFile_sameTasks {s s' : Vfs} {fuel t a : Nat} {path : Name} {flags : UInt32}
    {err : Int} (h : s.openFile fuel t path flags a = some (err, s')) : SameTasks s s' := by
  cases openFile_ends h with
  | lost found herr hfind => exact openFind_sameTasks hfind
  | refused e found he herr hfind hperms => exact openFind_sameTasks hfind
  | opened e found s₁ he hend hfind hperms hopen =>
      exact (openFind_sameTasks hfind).trans (onRamfs_sameTasks hopen)
  | made e ret s₁ s₂ he hret hfind hperms hopen hlast =>
      exact ((openFind_sameTasks hfind).trans (onRamfs_sameTasks hopen)).trans
        (findPath_sameTasks hlast)

theorem fsMount_sameTasks {s s' : Vfs} {type dir : FileNode} {ret : Int}
    (h : s.fsMount type dir = some (ret, s')) : SameTasks s s' := by
  unfold Vfs.fsMount at h
  obtain ⟨⟨id, mounts⟩, -, h⟩ := Option.bind_eq_some_iff.mp h
  have h' := onRamfs_sameTasks h
  exact ⟨h'.tasks, h'.opened, h'.live⟩

/-! ### One task, one place -/

theorem modifyTask_tasks (s : Vfs) (t t' : Nat) (f : Task → Task) :
    (s.modifyTask t f).tasks t' = if t' = t then f (s.tasks t) else s.tasks t' :=
  Function.update_apply ..

theorem setFile_tasks (s : Vfs) (t t' : Nat) (fd : Int) (file : Option FileDescript) :
    (s.setFile t fd file).tasks t' =
      if t' = t then (s.tasks t).setFile (fdIndex fd) file else s.tasks t' :=
  modifyTask_tasks s t t' _

theorem Task.setFile_files (task : Task) (i j : Nat) (file : Option FileDescript) :
    (task.setFile i file).files j = if j = i then file else task.files j :=
  Function.update_apply ..

theorem Task.addFile_files (task : Task) (i j a : Nat) :
    (task.addFile i a).files j = if j = i then some ⟨a, 0, 0, 0⟩ else task.files j :=
  Function.update_apply ..

theorem Task.dropFile_files (task : Task) (i j : Nat) :
    (task.dropFile i).files j = if j = i then none else task.files j :=
  Function.update_apply ..

theorem goodFile_eq_some {task : Task} {fd : Int} {d : FileDescript}
    (h : goodFile task fd = some d) : isgoodfd task fd ∧ task.files (fdIndex fd) = some d := by
  unfold goodFile at h
  split at h
  · exact ⟨by assumption, h⟩
  · cases h

theorem goodFile_eq (task : Task) (fd : Int) :
    goodFile task fd = if task.fileCount ≤ fdIndex fd then none else task.files (fdIndex fd) := by
  unfold goodFile isgoodfd
  by_cases hcount : task.fileCount ≤ fdIndex fd
  · rw [if_pos (Or.inr hcount), if_pos hcount]
    rfl
  · have hopen : ¬ (task.fileCount = 0 ∨ task.fileCount ≤ fdIndex fd) := by omega
    rw [if_neg hopen, if_neg hcount]
    rcases task.files (fdIndex fd) with _ | d
    · rfl
    · rfl

/-- A descriptor that is stored again. -/
theorem goodFile_setFile {task : Task} {fd : Int} {d : FileDescript} (h : goodFile task fd = some d)
    (d' : FileDescript) : goodFile (task.setFile (fdIndex fd) (some d')) fd = some d' := by
  have hcount : ¬ task.fileCount ≤ fdIndex fd := by
    intro hcount
    rw [goodFile_eq, if_pos hcount] at h
    cases h
  rw [goodFile_eq, Task.setFile_files, if_pos rfl]
  exact if_neg hcount

theorem not_isgoodfd {task : Task} {fd : Int} (h : goodFile task fd = none) :
    ¬ isgoodfd task fd := by
  intro hgood
  unfold goodFile at h
  rw [if_pos hgood] at h
  unfold isgoodfd at hgood
  rw [h] at hgood
  split at hgood
  · cases hgood
  · cases hgood

/-- New offsets for a descriptor. -/
theorem setFile_sameFiles {s : Vfs} {t : Nat} {fd : Int} {d d' : FileDescript}
    (h : goodFile (s.tasks t) fd = some d) (hfile : d'.file = d.file) :
    SameFiles s (s.setFile t fd (some d')) := by
  refine ⟨fun t' i => ?_, fun t' => ?_, fun t' => ?_, rfl, rfl⟩
  · rw [setFile_tasks]
    split
    · rename_i ht
      rw [Task.setFile_files, ht]
      split
      · rename_i hi
        rw [hi, (goodFile_eq_some h).2, Option.map_some, Option.map_some, hfile]
      · rfl
    · rfl
  · rw [setFile_tasks]
    split
    · rename_i ht
      rw [ht]
      rfl
    · rfl
  · rw [setFile_tasks]
    split
    · rename_i ht
      rw [ht]
      exact ⟨rfl, rfl, rfl, rfl⟩
    · exact ⟨rfl, rfl, rfl, rfl⟩

theorem SameFiles.after {s₁ s₂ s₃ : Vfs} (h' : SameFiles s₂ s₃) (h : SameTasks s₁ s₂) :
    SameFiles s₁ s₃ := by
  refine ⟨fun t i => ?_, fun t => ?_, fun t => ?_, h'.opened.trans h.opened,
    h'.live.trans h.live⟩
  · rw [h'.files, h.tasks]
  · rw [h'.count, h.tasks]
  · rw [← h.tasks]
    exact h'.task t

/-! ### A call that changes descriptors -/

/-- The task `t` gets its lowest free descriptor, for the node at `a`, which is freed. -/
structure OpenedAt (s s' : Vfs) (t i a : Nat) (flags : UInt32) : Prop where
  room : (s.tasks t).fileCount < MAX_FILES
  slot : i < MAX_FILES
  free : (s.tasks t).files i = none
  lowest : ∀ j < i, (s.tasks t).files j ≠ none
  task : s'.tasks t = (s.tasks t).addFile i a
  others : ∀ t' ≠ t, s'.tasks t' = s.tasks t'
  opened : ∀ t' i', s'.opened t' i' =
    if t' = t ∧ i' = i then some ⟨s'.nodes a, flags⟩ else s.opened t' i'
  notLive : a ∉ s.live
  live : s'.live = s.live

/-- The task `t` gives up the descriptor `i`. -/
structure ClosedAt (s s' : Vfs) (t i : Nat) : Prop where
  task : s'.tasks t = (s.tasks t).dropFile i
  others : ∀ t' ≠ t, s'.tasks t' = s.tasks t'
  opened : ∀ t' i', s'.opened t' i' = if t' = t ∧ i' = i then none else s.opened t' i'
  live : s'.live = s.live

/-- A change of one task that leaves its owner and its two nodes alone. -/
theorem task_same_of_others {s s' : Vfs} {t : Nat} (hothers : ∀ t' ≠ t, s'.tasks t' = s.tasks t')
    (h : (s'.tasks t).uid = (s.tasks t).uid ∧ (s'.tasks t).gid = (s.tasks t).gid ∧
      (s'.tasks t).root = (s.tasks t).root ∧ (s'.tasks t).cwd = (s.tasks t).cwd) (t' : Nat) :
    (s'.tasks t').uid = (s.tasks t').uid ∧ (s'.tasks t').gid = (s.tasks t').gid ∧
      (s'.tasks t').root = (s.tasks t').root ∧ (s'.tasks t').cwd = (s.tasks t').cwd := by
  by_cases ht : t' = t
  · rw [ht]
    exact h
  · rw [hothers t' ht]
    exact ⟨rfl, rfl, rfl, rfl⟩

/-- A new descriptor leaves the owner of every task and its two nodes alone. -/
theorem OpenedAt.task_same {s s' : Vfs} {t i a : Nat} {flags : UInt32}
    (h : OpenedAt s s' t i a flags) (t' : Nat) :
    (s'.tasks t').uid = (s.tasks t').uid ∧ (s'.tasks t').gid = (s.tasks t').gid ∧
      (s'.tasks t').root = (s.tasks t').root ∧ (s'.tasks t').cwd = (s.tasks t').cwd := by
  refine task_same_of_others h.others ?_ t'
  rw [h.task]
  exact ⟨rfl, rfl, rfl, rfl⟩

/-- And so does one that is given up. -/
theorem ClosedAt.task_same {s s' : Vfs} {t i : Nat} (h : ClosedAt s s' t i) (t' : Nat) :
    (s'.tasks t').uid = (s.tasks t').uid ∧ (s'.tasks t').gid = (s.tasks t').gid ∧
      (s'.tasks t').root = (s.tasks t').root ∧ (s'.tasks t').cwd = (s.tasks t').cwd := by
  refine task_same_of_others h.others ?_ t'
  rw [h.task]
  exact ⟨rfl, rfl, rfl, rfl⟩

theorem freeSlot_eq_some {task : Task} {i : Nat} (h : task.freeSlot = some i) :
    i < MAX_FILES ∧ task.files i = none ∧ ∀ j < i, task.files j ≠ none := by
  unfold Task.freeSlot at h
  obtain ⟨hfree, hslot, hlowest⟩ := List.find?_range_eq_some.mp h
  refine ⟨List.mem_range.mp hslot, by simpa using hfree, fun j hj => ?_⟩
  simpa using hlowest j hj

theorem fdIndex_natCast {i : Nat} (h : i < MAX_FILES) : fdIndex i = i := by
  have hall : ∀ i < MAX_FILES, fdIndex i = i := by decide
  exact hall i h

/-- The files, the nodes and the mounts are the same. -/
structure SameTrees (s s' : Vfs) : Prop where
  ramfs : s'.ramfs = s.ramfs
  nodes : s'.nodes = s.nodes
  mounts : s'.mounts = s.mounts
  zeroPage : s'.zeroPage = s.zeroPage

theorem setOpened_opened (s : Vfs) (t t' i' : Nat) (fd : Int) (o : Option Opened) :
    (s.setOpened t fd o).opened t' i' =
      if t' = t ∧ i' = fdIndex fd then o else s.opened t' i' := by
  unfold Vfs.setOpened
  rcases eq_or_ne t' t with rfl | ht
  · rcases eq_or_ne i' (fdIndex fd) with rfl | hi
    · simp
    · simp [hi]
  · simp [ht]

/-- Only what the descriptor was opened for is noted. -/
theorem noteOpen_same (s : Vfs) (t : Nat) (ret : Int) (a : Nat) (flags : UInt32) :
    SameTrees s (s.noteOpen t ret a flags) ∧ (s.noteOpen t ret a flags).tasks = s.tasks := by
  unfold Vfs.noteOpen
  split
  · exact ⟨⟨rfl, rfl, rfl, rfl⟩, rfl⟩
  · exact ⟨⟨rfl, rfl, rfl, rfl⟩, rfl⟩

/-- The task has no place for another descriptor. -/
def Task.Full (task : Task) : Prop := MAX_FILES ≤ task.fileCount ∨ task.freeSlot = none

/-- What `install` and the end of `open` do to the state in which the node is found. -/
theorem install_cases (s : Vfs) (t a : Nat) :
    ((s.tasks t).Full ∧ s.install t a = (-EMFILE, s)) ∨
      ∃ i, (s.tasks t).fileCount < MAX_FILES ∧ (s.tasks t).freeSlot = some i ∧
        s.install t a = ((i : Int), s.modifyTask t fun task => task.addFile i a) := by
  unfold Vfs.install
  split
  · rename_i hfull
    exact Or.inl ⟨Or.inl hfull, rfl⟩
  · rename_i hroom
    split
    · rename_i hnone
      exact Or.inl ⟨Or.inr hnone, rfl⟩
    · rename_i i hslot
      exact Or.inr ⟨i, Nat.lt_of_not_le hroom, hslot, rfl⟩

/-- **What `open` does.**  It looks for the file, and if it finds one and has a place for it,
there is a descriptor more; otherwise descriptors are what they were. -/
theorem open_cases {s s' : Vfs} {fuel t a : Nat} {path : Name} {flags : UInt32} {ret : Int}
    (h : s.openCall fuel t path flags a = some (ret, s')) :
    ∃ err s₀, (s.knew a).openFile fuel t path flags a = some (err, s₀) ∧ a ∉ s.live ∧
      SameTrees s₀ (s'.noteOpen t ret a flags) ∧
      (((err < 0 ∨ (s.tasks t).Full) ∧ ret < 0 ∧ SameTasks s (s'.noteOpen t ret a flags)) ∨
        (0 ≤ err ∧ ∃ i : Nat, ret = i ∧
          OpenedAt s (s'.noteOpen t ret a flags) t i a flags)) := by
  unfold Vfs.openCall at h
  split at h
  · cases h
  rename_i hlive
  obtain ⟨⟨err, s₀⟩, hfile, h⟩ := Option.map_eq_some_iff.mp h
  have hsame := openFile_sameTasks hfile
  have hfree : s₀.live.erase a = s.live := by
    rw [hsame.live]
    exact List.erase_cons_head a s.live
  refine ⟨err, s₀, hfile, hlive, ?_⟩
  have hfail : ∀ e : Int, e < 0 → (ret, s') = (e, s₀.kfree a) →
      SameTrees s₀ (s'.noteOpen t ret a flags) ∧ ret < 0 ∧
        SameTasks s (s'.noteOpen t ret a flags) := by
    intro e he heq
    obtain ⟨rfl, rfl⟩ := Prod.mk.inj heq
    rw [show (s₀.kfree a).noteOpen t ret a flags = s₀.kfree a from if_pos he]
    exact ⟨⟨rfl, rfl, rfl, rfl⟩, he, hsame.tasks, hsame.opened, hfree⟩
  dsimp only at h
  split at h
  · rename_i herr
    obtain ⟨htrees, htasks⟩ := hfail err herr h.symm
    exact ⟨htrees, Or.inl ⟨Or.inl herr, htasks⟩⟩
  rename_i herr
  rcases install_cases s₀ t a with ⟨hfull, hinstall⟩ | ⟨i, hroom, hslot, hinstall⟩
  · rw [hinstall] at h
    rw [hsame.tasks] at hfull
    obtain ⟨htrees, htasks⟩ := hfail (-EMFILE) (by decide) h.symm
    exact ⟨htrees, Or.inl ⟨Or.inr hfull, htasks⟩⟩
  · rw [hinstall] at h
    obtain ⟨rfl, rfl⟩ := Prod.mk.inj h
    rw [hsame.tasks] at hroom hslot
    obtain ⟨hlt, hnone, hlowest⟩ := freeSlot_eq_some hslot
    have hret : ¬ ((i : Int) < 0) := by omega
    unfold Vfs.noteOpen
    dsimp only
    rw [if_neg hret]
    refine ⟨⟨rfl, rfl, rfl, rfl⟩, Or.inr ⟨by omega, i, rfl, hroom, hlt, hnone, hlowest, ?_,
      fun t' ht => ?_, fun t' i' => ?_, hlive, hfree⟩⟩
    · rw [Vfs.setOpened_tasks, Vfs.kfree_tasks, modifyTask_tasks, if_pos rfl, hsame.tasks]
      rfl
    · rw [Vfs.setOpened_tasks, Vfs.kfree_tasks, modifyTask_tasks, if_neg ht, hsame.tasks]
      rfl
    · rw [setOpened_opened, fdIndex_natCast hlt, Vfs.kfree_opened, Vfs.modifyTask_opened,
        hsame.opened]
      rfl

/-- **What `close` does.** -/
theorem close_cases {s s' : Vfs} {t : Nat} {fd ret : Int} (h : s.close t fd = some (ret, s')) :
    SameTrees s (s'.noteClose t fd ret) ∧
      ((¬ isgoodfd (s.tasks t) fd ∧ SameTasks s (s'.noteClose t fd ret)) ∨
        (isgoodfd (s.tasks t) fd ∧ ClosedAt s (s'.noteClose t fd ret) t (fdIndex fd))) := by
  unfold Vfs.close at h
  split at h
  · rename_i hbad
    obtain ⟨rfl, rfl⟩ := Prod.mk.inj (Option.some.inj h)
    rw [show s.noteClose t fd (-ENOENT) = s from if_pos (by decide)]
    exact ⟨⟨rfl, rfl, rfl, rfl⟩, Or.inl ⟨not_isgoodfd hbad, SameTasks.refl s⟩⟩
  · rename_i d hgood
    obtain ⟨head, -, h⟩ := Option.map_eq_some_iff.mp h
    obtain ⟨rfl, rfl⟩ := Prod.mk.inj h
    unfold Vfs.noteClose
    rw [if_neg (by decide)]
    refine ⟨⟨rfl, rfl, rfl, rfl⟩, Or.inr ⟨(goodFile_eq_some hgood).1, ?_, fun t' ht => ?_,
      fun t' i' => ?_, rfl⟩⟩
    · rw [Vfs.setOpened_tasks, modifyTask_tasks, if_pos rfl]
    · rw [Vfs.setOpened_tasks, modifyTask_tasks, if_neg ht]
    · exact setOpened_opened _ t t' i' fd none

/-! ### Every call -/

theorem read_sameFiles {s s' : Vfs} {t : Nat} {fd ret : Int} {size : UInt32} {raw : Nat → UInt8}
    {bytes : List UInt8} (h : s.read t fd size raw = some (ret, bytes, s')) : SameFiles s s' := by
  unfold Vfs.read at h
  split at h
  · obtain ⟨-, h⟩ := Prod.mk.inj (Option.some.inj h)
    obtain ⟨-, rfl⟩ := Prod.mk.inj h
    exact (SameTasks.refl s).sameFiles
  · rename_i d hgood
    obtain ⟨head, -, h⟩ := Option.bind_eq_some_iff.mp h
    obtain ⟨⟨i, bs⟩, -, h⟩ := Option.map_eq_some_iff.mp h
    obtain ⟨-, h⟩ := Prod.mk.inj h
    obtain ⟨-, rfl⟩ := Prod.mk.inj h
    exact setFile_sameFiles hgood rfl

/-- What a write does: nothing by a bad descriptor, and by a good one it writes to the file and
moves on. -/
theorem write_cases {s s' : Vfs} {t : Nat} {fd ret : Int} {input junk : Nat → UInt8}
    {size : UInt32} (h : s.write t fd input junk size = some (ret, s')) :
    s' = s ∨ ∃ d i s₁, goodFile (s.tasks t) fd = some d ∧
      (s.onRamfs (s.nodes d.file) fun head =>
        ramfsPwrite head (s.nodes d.file) input junk size d.wOffset) = some (i, s₁) ∧
      SameTrees s₁ s' ∧ SameFiles s s' := by
  unfold Vfs.write at h
  split at h
  · exact Or.inl (Prod.mk.inj (Option.some.inj h)).2.symm
  · rename_i d hgood
    obtain ⟨⟨i, s₁⟩, hwrite, h⟩ := Option.map_eq_some_iff.mp h
    have hsame := onRamfs_sameTasks hwrite
    obtain ⟨-, hs'⟩ := Prod.mk.inj h
    refine Or.inr ⟨d, i, s₁, hgood, hwrite, ?_⟩
    rw [← hs']
    split
    · rw [← hsame.tasks] at hgood
      exact ⟨⟨rfl, rfl, rfl, rfl⟩, SameFiles.after (setFile_sameFiles hgood rfl) hsame⟩
    · exact ⟨⟨rfl, rfl, rfl, rfl⟩, hsame.sameFiles⟩

theorem write_sameFiles {s s' : Vfs} {t : Nat} {fd ret : Int} {input junk : Nat → UInt8}
    {size : UInt32} (h : s.write t fd input junk size = some (ret, s')) : SameFiles s s' := by
  rcases write_cases h with rfl | ⟨d, i, s₁, -, -, -, hsame⟩
  · exact (SameTasks.refl s').sameFiles
  · exact hsame

theorem lseek_sameFiles (s : Vfs) (t : Nat) (fd : Int) (offset : Int32) (whence : Int) :
    SameFiles s (s.lseek t fd offset whence).2 ∧ SameTrees s (s.lseek t fd offset whence).2 := by
  have hrefl : SameFiles s s ∧ SameTrees s s :=
    ⟨(SameTasks.refl s).sameFiles, rfl, rfl, rfl, rfl⟩
  unfold Vfs.lseek
  split
  · exact hrefl
  · rename_i d hgood
    have hseek : ∀ r w : UInt32,
        SameFiles s (s.setFile t fd (some { d with rOffset := r, wOffset := w })) ∧
          SameTrees s (s.setFile t fd (some { d with rOffset := r, wOffset := w })) :=
      fun r w => ⟨setFile_sameFiles hgood rfl, rfl, rfl, rfl, rfl⟩
    dsimp only
    split
    · split
      · exact hrefl
      · exact hseek _ _
    · split
      · exact hseek _ _
      · split
        · split
          · exact hrefl
          · exact hseek _ _
        · exact hrefl

theorem readdir_sameFiles {s s' : Vfs} {t : Nat} {fd ret : Int} {dirp dirp' : Dirent}
    (h : s.readdirCall t fd dirp = some (ret, dirp', s')) : SameFiles s s' ∧ SameTrees s s' := by
  unfold Vfs.readdirCall at h
  split at h
  · obtain ⟨-, h⟩ := Prod.mk.inj (Option.some.inj h)
    obtain ⟨-, rfl⟩ := Prod.mk.inj h
    exact ⟨(SameTasks.refl s).sameFiles, rfl, rfl, rfl, rfl⟩
  · rename_i d hgood
    obtain ⟨⟨r, entry⟩, -, h⟩ := Option.map_eq_some_iff.mp h
    obtain ⟨-, h⟩ := Prod.mk.inj h
    obtain ⟨-, rfl⟩ := Prod.mk.inj h
    exact ⟨setFile_sameFiles hgood rfl, rfl, rfl, rfl, rfl⟩

/-- What a call that is not about descriptors or mounts can do: nothing, write a node into a
block, or change one file system. -/
inductive TreeChange (s : Vfs) : Vfs → Prop
  | same : TreeChange s s
  | node (a : Nat) (node : FileNode) : TreeChange s (s.setNode a node)
  | add {node : FileNode} {name : Name} {mode : UInt32} {type : Nat} {ret : Int} {s' : Vfs}
      (h : (s.onRamfs node fun head => ramfsAdd head node name mode type) = some (ret, s')) :
      TreeChange s s'
  | unlink {node : FileNode} {ret : Int} {s' : Vfs}
      (h : (s.onRamfs node fun head => ramfsUnlink head node) = some (ret, s')) : TreeChange s s'

theorem TreeChange.sameTasks {s s' : Vfs} (h : TreeChange s s') : SameTasks s s' := by
  cases h with
  | same => exact SameTasks.refl s
  | node a node => exact ⟨rfl, rfl, rfl⟩
  | add h => exact onRamfs_sameTasks h
  | unlink h => exact onRamfs_sameTasks h

theorem toOption_eq_some {α : Type} {r : Except Stuck α} {x : α} (h : r.toOption = some x) :
    r = .ok x := by
  rcases r with stuck | y
  · cases h
  · exact congrArg Except.ok (Option.some.inj h)

/-- What `chdir` and `chroot` do: nothing, or they write the node they have found into the
block at `a`. -/
theorem setNode_cases {s s' : Vfs} {fuel t a : Nat} {path : Name} {ret : Int}
    (h : ((fsFindPath s fuel t path ⟨0, 0⟩).toOption.map fun (ret, fp) =>
      if ret < 0 then (ret, s) else (0, s.setNode a fp)) = some (ret, s')) :
    ∃ r fp, fsFindPath s fuel t path ⟨0, 0⟩ = .ok (r, fp) ∧
      ((r < 0 ∧ s' = s) ∨ (0 ≤ r ∧ s' = s.setNode a fp)) := by
  obtain ⟨⟨r, fp⟩, hfind, h⟩ := Option.map_eq_some_iff.mp h
  refine ⟨r, fp, toOption_eq_some hfind, ?_⟩
  dsimp only at h
  split at h
  · rename_i hr
    obtain ⟨-, rfl⟩ := Prod.mk.inj h
    exact Or.inl ⟨hr, rfl⟩
  · rename_i hr
    obtain ⟨-, rfl⟩ := Prod.mk.inj h
    exact Or.inr ⟨Int.not_lt.mp hr, rfl⟩

theorem chdir_tree {s s' : Vfs} {fuel t : Nat} {path : Name} {ret : Int}
    (h : s.chdir fuel t path = some (ret, s')) : TreeChange s s' := by
  obtain ⟨r, fp, -, ⟨-, rfl⟩ | ⟨-, rfl⟩⟩ := setNode_cases h
  · exact .same
  · exact .node _ fp

theorem chroot_tree {s s' : Vfs} {fuel t : Nat} {path : Name} {ret : Int}
    (h : s.chroot fuel t path = some (ret, s')) : TreeChange s s' := by
  obtain ⟨r, fp, -, ⟨-, rfl⟩ | ⟨-, rfl⟩⟩ := setNode_cases h
  · exact .same
  · exact .node _ fp

/-- `mkdir` has an error before it comes to a file system, or it enters a name there. -/
theorem mkdir_adds {s s' : Vfs} {fuel t : Nat} {path : Name} {mode : UInt32} {ret : Int}
    (h : s.mkdir fuel t path mode = some (ret, s')) :
    s' = s ∨ ∃ dir, (s.onRamfs dir fun head =>
      ramfsAdd head dir (lastName path) mode FS_DIR) = some (ret, s') := by
  unfold Vfs.mkdir at h
  obtain ⟨⟨r, dir⟩, -, h⟩ := Option.bind_eq_some_iff.mp h
  dsimp only at h
  split at h
  · exact Or.inl (Prod.mk.inj (Option.some.inj h)).2.symm
  · obtain ⟨⟨r', dir'⟩, -, h⟩ := Option.bind_eq_some_iff.mp h
    dsimp only at h
    split at h
    · exact Or.inl (Prod.mk.inj (Option.some.inj h)).2.symm
    · exact Or.inr ⟨dir', h⟩

/-- And so does `mknod`. -/
theorem mknod_adds {s s' : Vfs} {fuel t dev : Nat} {path : Name} {mode : UInt32}
    {junk : FileNode} {ret : Int} (h : s.mknod fuel t path mode dev junk = some (ret, s')) :
    s' = s ∨ ∃ fp, (s.onRamfs fp fun head =>
      ramfsAdd head fp (lastName path) mode dev) = some (ret, s') := by
  unfold Vfs.mknod at h
  obtain ⟨⟨r, fp⟩, -, h⟩ := Option.bind_eq_some_iff.mp h
  dsimp only at h
  split at h
  · exact Or.inl (Prod.mk.inj (Option.some.inj h)).2.symm
  · obtain ⟨⟨r', fp'⟩, -, h⟩ := Option.bind_eq_some_iff.mp h
    exact Or.inr ⟨fp', h⟩

theorem mkdir_tree {s s' : Vfs} {fuel t : Nat} {path : Name} {mode : UInt32} {ret : Int}
    (h : s.mkdir fuel t path mode = some (ret, s')) : TreeChange s s' := by
  rcases mkdir_adds h with rfl | ⟨dir, hadd⟩
  · exact .same
  · exact .add hadd

theorem mknod_tree {s s' : Vfs} {fuel t dev : Nat} {path : Name} {mode : UInt32}
    {junk : FileNode} {ret : Int} (h : s.mknod fuel t path mode dev junk = some (ret, s')) :
    TreeChange s s' := by
  rcases mknod_adds h with rfl | ⟨fp, hadd⟩
  · exact .same
  · exact .add hadd

theorem unlink_tree {s s' : Vfs} {fuel t : Nat} {path : Name} {ret : Int}
    (h : s.unlink fuel t path = some (ret, s')) : TreeChange s s' := by
  unfold Vfs.unlink at h
  obtain ⟨⟨r, fp⟩, -, h⟩ := Option.bind_eq_some_iff.mp h
  dsimp only at h
  split at h
  · obtain ⟨-, rfl⟩ := Prod.mk.inj (Option.some.inj h)
    exact .same
  · exact .unlink h

/-- The call mounts `dir` over `type`: the kernel does it itself, or a task has looked up the
two. -/
def Mounts (fuel : Nat) (s : Vfs) (c : Call) (type dir : FileNode) : Prop :=
  c.op = .fsMount type dir ∨ ∃ p q : Name, c.op = .mount p q ∧
    (∃ r ≥ 0, fsFindPath s fuel c.task p ⟨0, 0⟩ = .ok (r, type)) ∧
    ∃ r ≥ 0, fsFindPath s fuel c.task q ⟨0, 0⟩ = .ok (r, dir)

theorem mount_cases {s s' : Vfs} {fuel t : Nat} {p q : Name} {ret : Int}
    (h : s.mount fuel t p q = some (ret, s')) :
    s' = s ∨ ∃ type dir, Mounts fuel s ⟨t, .mount p q⟩ type dir ∧
      s.fsMount type dir = some (ret, s') := by
  unfold Vfs.mount at h
  obtain ⟨⟨r, type⟩, htype, h⟩ := Option.bind_eq_some_iff.mp h
  dsimp only at h
  split at h
  · obtain ⟨-, rfl⟩ := Prod.mk.inj (Option.some.inj h)
    exact Or.inl rfl
  rename_i hr
  obtain ⟨⟨r', dir⟩, hdir, h⟩ := Option.bind_eq_some_iff.mp h
  dsimp only at h
  split at h
  · obtain ⟨-, rfl⟩ := Prod.mk.inj (Option.some.inj h)
    exact Or.inl rfl
  rename_i hr'
  exact Or.inr ⟨type, dir, Or.inr ⟨p, q, rfl, ⟨r, Int.not_lt.mp hr, toOption_eq_some htype⟩,
    r', Int.not_lt.mp hr', toOption_eq_some hdir⟩, h⟩

/-- A step of a run, by what it can do. -/
inductive StepCases (fuel : Nat) (s : Vfs) (c : Call) (s' : Vfs) : Prop
  | tree (h : TreeChange s s')
  | mountAt (type dir : FileNode) (ret : Int) (hop : Mounts fuel s c type dir)
      (h : s.fsMount type dir = some (ret, s'))
  | read (fd : Int) (size : UInt32) (raw : Nat → UInt8) (ret : Int) (bytes : List UInt8)
      (hop : c.op = .read fd size raw)
      (h : s.read c.task fd size raw = some (ret, bytes, s'))
  | write (fd : Int) (input junk : Nat → UInt8) (size : UInt32) (ret : Int)
      (hop : c.op = .write fd input junk size)
      (h : s.write c.task fd input junk size = some (ret, s'))
  | offsets (h : SameFiles s s') (htrees : SameTrees s s')
  | openAt (path : Name) (flags : UInt32) (a : Nat) (err : Int) (s₀ : Vfs)
      (hop : c.op = .open path flags a) (hlive : a ∉ s.live)
      (h : (s.knew a).openFile fuel c.task path flags a = some (err, s₀))
      (htrees : SameTrees s₀ s')
      (hcases : ((err < 0 ∨ (s.tasks c.task).Full) ∧ SameTasks s s') ∨
        (0 ≤ err ∧ ∃ i, OpenedAt s s' c.task i a flags))
  | closeAt (fd : Int) (hop : c.op = .close fd) (htrees : SameTrees s s')
      (hcases : (¬ isgoodfd (s.tasks c.task) fd ∧ SameTasks s s') ∨
        (isgoodfd (s.tasks c.task) fd ∧ ClosedAt s s' c.task (fdIndex fd)))

theorem vfsStep_cases {fuel : Nat} {s s' : Vfs} {c : Call} (h : vfsStep fuel s c = some s') :
    StepCases fuel s c s' := by
  obtain ⟨t, op⟩ := c
  cases op with
  | «open» path flags a =>
      obtain ⟨⟨ret, s₁⟩, hopen, rfl⟩ := Option.map_eq_some_iff.mp h
      obtain ⟨err, s₀, hfile, hlive, htrees, hcases⟩ := open_cases hopen
      refine .openAt path flags a err s₀ rfl hlive hfile htrees ?_
      rcases hcases with ⟨herr, -, hsame⟩ | ⟨herr, i, -, hopened⟩
      · exact Or.inl ⟨herr, hsame⟩
      · exact Or.inr ⟨herr, i, hopened⟩
  | close fd =>
      obtain ⟨⟨ret, s₁⟩, hclose, rfl⟩ := Option.map_eq_some_iff.mp h
      exact .closeAt fd rfl (close_cases hclose).1 (close_cases hclose).2
  | read fd size raw =>
      obtain ⟨⟨ret, bytes, s₁⟩, hread, rfl⟩ := Option.map_eq_some_iff.mp h
      exact .read fd size raw ret bytes rfl hread
  | write fd input junk size =>
      obtain ⟨⟨ret, s₁⟩, hwrite, rfl⟩ := Option.map_eq_some_iff.mp h
      exact .write fd input junk size ret rfl hwrite
  | lseek fd offset whence =>
      obtain rfl := Option.some.inj h
      exact .offsets (lseek_sameFiles s t fd offset whence).1 (lseek_sameFiles s t fd offset whence).2
  | readdir fd dirp =>
      obtain ⟨⟨ret, dirp', s₁⟩, hread, rfl⟩ := Option.map_eq_some_iff.mp h
      exact .offsets (readdir_sameFiles hread).1 (readdir_sameFiles hread).2
  | lookup path =>
      obtain ⟨r, -, rfl⟩ := Option.map_eq_some_iff.mp h
      exact .tree .same
  | chdir path =>
      obtain ⟨⟨ret, s₁⟩, hcall, rfl⟩ := Option.map_eq_some_iff.mp h
      exact .tree (chdir_tree hcall)
  | chroot path =>
      obtain ⟨⟨ret, s₁⟩, hcall, rfl⟩ := Option.map_eq_some_iff.mp h
      exact .tree (chroot_tree hcall)
  | mkdir path mode =>
      obtain ⟨⟨ret, s₁⟩, hcall, rfl⟩ := Option.map_eq_some_iff.mp h
      exact .tree (mkdir_tree hcall)
  | mknod path mode dev junk =>
      obtain ⟨⟨ret, s₁⟩, hcall, rfl⟩ := Option.map_eq_some_iff.mp h
      exact .tree (mknod_tree hcall)
  | unlink path =>
      obtain ⟨⟨ret, s₁⟩, hcall, rfl⟩ := Option.map_eq_some_iff.mp h
      exact .tree (unlink_tree hcall)
  | mount type dir =>
      obtain ⟨⟨ret, s₁⟩, hcall, rfl⟩ := Option.map_eq_some_iff.mp h
      rcases mount_cases hcall with rfl | ⟨typeFp, dirFp, hop, hmount⟩
      · exact .tree .same
      · exact .mountAt typeFp dirFp ret hop hmount
  | fsMount type dir =>
      dsimp only [vfsStep] at h
      split at h
      · obtain ⟨⟨ret, s₁⟩, hcall, rfl⟩ := Option.map_eq_some_iff.mp h
        exact .mountAt type dir ret (Or.inl rfl) hcall
      · cases h
  | reuse a node =>
      dsimp only [vfsStep] at h
      split at h
      · cases h
      · obtain rfl := Option.some.inj h
        exact .tree (.node a node)

/-- A step of a run, by what it does to descriptors. -/
inductive FilesCases (fuel : Nat) (s : Vfs) (c : Call) (s' : Vfs) : Prop
  | same (h : SameFiles s s')
  | opened (path : Name) (flags : UInt32) (a i : Nat) (err : Int) (s₀ : Vfs)
      (hop : c.op = .open path flags a) (herr : 0 ≤ err)
      (hfile : (s.knew a).openFile fuel c.task path flags a = some (err, s₀))
      (h : OpenedAt s s' c.task i a flags)
  | closed (fd : Int) (hop : c.op = .close fd) (hgood : isgoodfd (s.tasks c.task) fd)
      (h : ClosedAt s s' c.task (fdIndex fd))

theorem vfsStep_files {fuel : Nat} {s s' : Vfs} {c : Call} (h : vfsStep fuel s c = some s') :
    FilesCases fuel s c s' := by
  cases vfsStep_cases h with
  | tree htree => exact .same htree.sameTasks.sameFiles
  | mountAt type dir ret hop hmount => exact .same (fsMount_sameTasks hmount).sameFiles
  | read fd size raw ret bytes hop hread => exact .same (read_sameFiles hread)
  | write fd input junk size ret hop hwrite => exact .same (write_sameFiles hwrite)
  | offsets hsame htrees => exact .same hsame
  | openAt path flags a err s₀ hop hlive hfile htrees hcases =>
      rcases hcases with ⟨-, hsame⟩ | ⟨herr, i, hopen⟩
      · exact .same hsame.sameFiles
      · exact .opened path flags a i err s₀ hop herr hfile hopen
  | closeAt fd hop htrees hcases =>
      rcases hcases with ⟨-, hsame⟩ | ⟨hgood, hclose⟩
      · exact .same hsame.sameFiles
      · exact .closed fd hop hgood hclose

end OsThing.Fs
