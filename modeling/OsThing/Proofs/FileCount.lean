/-
`file_count` counts the descriptors of a task.

`open` tests the count before it searches `files` for a free place, and as long as the count
is right the search cannot fail: a set of fewer than `MAX_FILES` places leaves one out.  So
the second test of `open` is never met, and the first one only when every place is used.
-/
import OsThing.Lib.Runs
import OsThing.Proofs.Descriptors
import OsThing.Proofs.Walk
import Mathlib.Data.Finset.Card
import Mathlib.Data.Finset.Range

namespace OsThing.Fs

open Runs

variable {fuel t : Nat}

/-- The places of `files` that are not null. -/
def Task.usedFiles (task : Task) : Finset Nat :=
  (Finset.range MAX_FILES).filter fun i => (task.files i).isSome

/-- The count is right, and descriptors are in the places that `files` has. -/
structure Counted (t : Nat) (s : Vfs) : Prop where
  count : (s.tasks t).fileCount = (s.tasks t).usedFiles.card
  places : ∀ i, ((s.tasks t).files i).isSome → i < MAX_FILES

theorem mem_usedFiles {task : Task} {i : Nat} :
    i ∈ task.usedFiles ↔ i < MAX_FILES ∧ (task.files i).isSome := by
  unfold Task.usedFiles
  rw [Finset.mem_filter, Finset.mem_range]

/-! ### The search -/

/-- Fewer than all places are used: there is a free one. -/
theorem freeSlot_of_room {task : Task} (h : task.usedFiles.card < MAX_FILES) :
    task.freeSlot ≠ none := by
  intro hnone
  have hcard : task.usedFiles.card < (Finset.range MAX_FILES).card := by
    rw [Finset.card_range]
    exact h
  obtain ⟨i, hi, hfree⟩ := Finset.exists_mem_notMem_of_card_lt_card hcard
  have hused := List.find?_eq_none.mp hnone i (List.mem_range.mpr (Finset.mem_range.mp hi))
  refine hfree (mem_usedFiles.mpr ⟨Finset.mem_range.mp hi, ?_⟩)
  exact Option.isSome_iff_ne_none.mpr fun heq => hused (decide_eq_true heq)

/-- As many as there are places: all of them. -/
theorem used_of_full {task : Task} (h : MAX_FILES ≤ task.usedFiles.card) :
    ∀ i < MAX_FILES, (task.files i).isSome := by
  intro i hi
  have hall : task.usedFiles = Finset.range MAX_FILES := by
    refine Finset.eq_of_subset_of_card_le (Finset.filter_subset _ _) ?_
    rw [Finset.card_range]
    exact h
  have hmem : i ∈ task.usedFiles := by
    rw [hall]
    exact Finset.mem_range.mpr hi
  exact (mem_usedFiles.mp hmem).2

/-! ### The count -/

theorem usedFiles_congr {task task' : Task}
    (h : ∀ i, (task'.files i).isSome = (task.files i).isSome) : task'.usedFiles = task.usedFiles := by
  ext i
  rw [mem_usedFiles, mem_usedFiles, h]

theorem usedFiles_addFile {task : Task} {i : Nat} (hi : i < MAX_FILES) (a : Nat) :
    (task.addFile i a).usedFiles = insert i task.usedFiles := by
  ext j
  rw [mem_usedFiles, Finset.mem_insert, mem_usedFiles, Task.addFile_files]
  split
  · rename_i heq
    exact iff_of_true ⟨heq ▸ hi, rfl⟩ (Or.inl heq)
  · rename_i hne
    exact (or_iff_right hne).symm

theorem usedFiles_dropFile (task : Task) (i : Nat) :
    (task.dropFile i).usedFiles = task.usedFiles.erase i := by
  ext j
  rw [mem_usedFiles, Finset.mem_erase, mem_usedFiles, Task.dropFile_files]
  split
  · rename_i heq
    exact iff_of_false (fun h => Bool.false_ne_true h.2) fun h => h.1 heq
  · rename_i hne
    exact (and_iff_right hne).symm

theorem Counted.sameFiles {s s' : Vfs} (h : Counted t s) (hsame : SameFiles s s') :
    Counted t s' := by
  have hfiles : ∀ i, ((s'.tasks t).files i).isSome = ((s.tasks t).files i).isSome := by
    intro i
    rw [← Option.isSome_map (f := FileDescript.file), hsame.files, Option.isSome_map]
  refine ⟨?_, fun i hi => h.places i (hfiles i ▸ hi)⟩
  rw [hsame.count, usedFiles_congr hfiles]
  exact h.count

theorem Counted.openedAt {s s' : Vfs} {t' i a : Nat} {flags : UInt32} (h : Counted t s)
    (hopen : OpenedAt s s' t' i a flags) : Counted t s' := by
  by_cases ht : t = t'
  · subst ht
    have hnew : i ∉ (s.tasks t).usedFiles := by
      rw [mem_usedFiles, hopen.free]
      exact fun hmem => Bool.false_ne_true hmem.2
    constructor
    · rw [hopen.task, usedFiles_addFile hopen.slot, Finset.card_insert_of_notMem hnew, ← h.count]
      rfl
    · intro j hj
      rw [hopen.task, Task.addFile_files] at hj
      split at hj
      · rename_i heq
        exact heq ▸ hopen.slot
      · exact h.places j hj
  · have htask : s'.tasks t = s.tasks t := hopen.others t ht
    exact ⟨by rw [htask]; exact h.count, fun j hj => h.places j (htask ▸ hj)⟩

theorem Counted.closedAt {s s' : Vfs} {t' i : Nat} (h : Counted t s) (hclose : ClosedAt s s' t' i)
    (hused : ((s.tasks t').files i).isSome) : Counted t s' := by
  by_cases ht : t = t'
  · subst ht
    have hmem : i ∈ (s.tasks t).usedFiles := mem_usedFiles.mpr ⟨h.places i hused, hused⟩
    constructor
    · rw [hclose.task, usedFiles_dropFile, Finset.card_erase_of_mem hmem, ← h.count]
      rfl
    · intro j hj
      rw [hclose.task, Task.dropFile_files] at hj
      split at hj
      · exact absurd hj Bool.false_ne_true
      · exact h.places j hj
  · have htask : s'.tasks t = s.tasks t := hclose.others t ht
    exact ⟨by rw [htask]; exact h.count, fun j hj => h.places j (htask ▸ hj)⟩

/-- A descriptor that is accepted is there. -/
theorem isgoodfd_isSome {task : Task} {fd : Int} (h : isgoodfd task fd) :
    (task.files (fdIndex fd)).isSome := by
  unfold isgoodfd at h
  split at h
  · exact absurd h Bool.false_ne_true
  · exact h

theorem counted_step (s : Vfs) (c : Call) (s' : Vfs) (h : Counted t s)
    (hstep : vfsStep fuel s c = some s') : Counted t s' := by
  cases vfsStep_files hstep with
  | same hsame => exact h.sameFiles hsame
  | opened path flags a i err s₀ hop herr hfile hopen => exact h.openedAt hopen
  | closed fd hop hgood hclose => exact h.closedAt hclose (isgoodfd_isSome hgood)

/-! ### What `open` returns -/

theorem findPath_ne_emfile {s s' : Vfs} {a : Nat} {path : Name} {err : Int}
    (h : s.findPath fuel t path a = some (err, s')) : err ≠ -EMFILE := by
  obtain ⟨⟨ret, node⟩, hfind, heq⟩ := Option.map_eq_some_iff.mp h
  obtain ⟨rfl, -⟩ := Prod.mk.inj heq
  rcases fsFindPath_cases (toOption_eq_some hfind) with rfl | rfl | rfl
  · decide
  · decide
  · decide

theorem openFind_ne_emfile {s s' : Vfs} {a : Nat} {path : Name} {flags : UInt32} {err : Int}
    {found : Bool} (h : s.openFind fuel t path flags a = some (err, found, s')) :
    err ≠ -EMFILE := by
  unfold Vfs.openFind at h
  obtain ⟨⟨e, s₁⟩, hfind, h⟩ := Option.bind_eq_some_iff.mp h
  dsimp only at h
  split at h
  · split at h
    · obtain ⟨⟨e', s₂⟩, hparent, heq⟩ := Option.map_eq_some_iff.mp h
      obtain ⟨rfl, -⟩ := Prod.mk.inj heq
      exact findPath_ne_emfile hparent
    · obtain ⟨rfl, -⟩ := Prod.mk.inj (Option.some.inj h)
      decide
  · obtain ⟨rfl, -⟩ := Prod.mk.inj (Option.some.inj h)
    exact findPath_ne_emfile hfind

theorem ramfsOpen_ne_emfile {head head' : RamfsHeader} {node : FileNode} {name : Name}
    {mode : UInt32} {err : Int} (h : ramfsOpen head node name mode = some (err, head')) :
    err ≠ -EMFILE := by
  unfold ramfsOpen at h
  obtain ⟨filehead, -, h⟩ := Option.bind_eq_some_iff.mp h
  split at h
  · rcases ramfsAdd_cases h with ⟨rfl, -⟩ | ⟨rfl, -⟩
    · decide
    · decide
  · obtain ⟨rfl, -⟩ := Prod.mk.inj (Option.some.inj h)
    have hneg : -EMFILE < 0 := by decide
    omega

/-- Up to its own two tests `open` has no error that says that there are too many files. -/
theorem openFile_ne_emfile {s s₀ : Vfs} {a : Nat} {path : Name} {flags : UInt32} {err : Int}
    (h : s.openFile fuel t path flags a = some (err, s₀)) : err ≠ -EMFILE := by
  cases openFile_ends h with
  | lost found herr hfind => exact openFind_ne_emfile hfind
  | refused e found he herr hfind hperms =>
      rw [herr]
      decide
  | opened e found s₁ he hend hfind hperms hopen =>
      obtain ⟨head, head', -, hramfs, -⟩ := onRamfs_spec hopen
      exact ramfsOpen_ne_emfile hramfs
  | made e ret s₁ s₂ he hret hfind hperms hopen hlast => exact findPath_ne_emfile hlast

/-- Only a task without a place for the descriptor is told so. -/
theorem open_emfile {s s' : Vfs} {a : Nat} {path : Name} {flags : UInt32}
    (h : s.openCall fuel t path flags a = some (-EMFILE, s')) : (s.tasks t).Full := by
  unfold Vfs.openCall at h
  split at h
  · cases h
  obtain ⟨⟨err, s₀⟩, hfile, h⟩ := Option.map_eq_some_iff.mp h
  have hsame := openFile_sameTasks hfile
  dsimp only at h
  split at h
  · exact absurd (Prod.mk.inj h).1 (openFile_ne_emfile hfile)
  rcases install_cases s₀ t a with ⟨hfull, -⟩ | ⟨i, -, -, hinstall⟩
  · rw [hsame.tasks] at hfull
    exact hfull
  · rw [hinstall] at h
    have hret : (i : Int) = -EMFILE := (Prod.mk.inj h).1
    have hneg : -EMFILE < 0 := by decide
    omega

/-- What `open` is to do with the descriptors of the task. -/
structure OpensLowest (fuel t : Nat) (s : Vfs) (path : Name) (flags : UInt32) (a : Nat) :
    Prop where
  /-- The second test, which `open` makes once it has the file. -/
  searched : ∀ err s₀, (s.knew a).openFile fuel t path flags a = some (err, s₀) →
    (s₀.tasks t).fileCount < MAX_FILES → (s₀.tasks t).freeSlot ≠ none
  lowest : ∀ ret s', s.openCall fuel t path flags a = some (ret, s') → 0 ≤ ret →
    ∃ i : Nat, ret = i ∧ i < MAX_FILES ∧ (s.tasks t).files i = none ∧
      ∀ j < i, (s.tasks t).files j ≠ none
  full : ∀ s', s.openCall fuel t path flags a = some (-EMFILE, s') →
    ∀ i < MAX_FILES, ((s.tasks t).files i).isSome

theorem Counted.opensLowest {s : Vfs} (h : Counted t s) (path : Name) (flags : UInt32) (a : Nat) :
    OpensLowest fuel t s path flags a := by
  have hroom : (s.tasks t).fileCount < MAX_FILES → (s.tasks t).freeSlot ≠ none :=
    fun hlt => freeSlot_of_room (h.count ▸ hlt)
  refine ⟨fun err s₀ hfile => ?_, fun ret s' hopen hret => ?_, fun s' hopen => ?_⟩
  · rw [(openFile_sameTasks hfile).tasks]
    exact hroom
  · obtain ⟨err, s₀, -, -, -, hcases⟩ := open_cases hopen
    rcases hcases with ⟨-, hneg, -⟩ | ⟨-, i, hi, hopened⟩
    · exact absurd hret (Int.not_le.mpr hneg)
    · exact ⟨i, hi, hopened.slot, hopened.free, hopened.lowest⟩
  · rcases open_emfile hopen with hfull | hnone
    · exact used_of_full (h.count ▸ hfull)
    · exact used_of_full (Nat.le_of_not_lt fun hlt => hroom (h.count ▸ hlt) hnone)

/--
**`file_count` is the number of descriptors**, and so `open` takes the lowest free place and
fails with `EMFILE` only when there is none.  For every run of calls by any tasks, and any
task that has no descriptors at its start.
-/
theorem descriptors_counted (s : Vfs) (calls : List Call) (h : NoFiles s t) :
    Always (vfsStep fuel) (fun s => Counted t s ∧
      ∀ path flags a, OpensLowest fuel t s path flags a) s calls := by
  obtain ⟨hcount, hfiles, -⟩ := h
  have hnone : (s.tasks t).usedFiles = ∅ := by
    refine Finset.eq_empty_of_forall_notMem fun i hi => ?_
    rw [mem_usedFiles, hfiles] at hi
    exact Bool.false_ne_true hi.2
  have hstart : Counted t s := by
    refine ⟨?_, fun i hi => ?_⟩
    · rw [hcount, hnone, Finset.card_empty]
    · rw [hfiles] at hi
      exact absurd hi Bool.false_ne_true
  have hkeep : ∀ s c s', Counted t s → vfsStep fuel s c = some s' → True → Counted t s' :=
    fun s c s' hs hstep _ => counted_step s c s' hs hstep
  exact (always_of_inv hkeep hstart (everyStep_true s)).mono fun s hs => ⟨hs, hs.opensLowest⟩

/-- Two files opened, the first one closed, and another one opened in its place. -/
theorem descriptors_counted_boot :
    Always (vfsStep 4) (fun s => Counted 0 s ∧ ∀ path flags a, OpensLowest 4 0 s path flags a)
      (Vfs.boot [0x1000] 0x1000 0x2000)
      [⟨0, .open ['a'] 68 0x3000⟩, ⟨0, .open ['b'] 68 0x3000⟩, ⟨0, .close 0⟩,
        ⟨0, .open ['a'] 4 0x3000⟩] :=
  descriptors_counted _ _ ⟨rfl, fun _ => rfl, fun _ => rfl⟩

end OsThing.Fs
