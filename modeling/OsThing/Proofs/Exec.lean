/-
When `fexecve` tells the truth.

`fexecve` returns `-1` for a descriptor that is not open, and 0 for any other, since it does not
look at what `load_elf` returns.  So it lies about every file that `load_elf` refuses, and it says
nothing if `load_elf` does not come back: `fexecve_truthful_iff`.

Whether the loop over the program headers comes back depends on the pages that are mapped, but
not on any byte in memory: `Returns`.
-/
import OsThing.Kern.Exec
import OsThing.Proofs.Loading
import OsThing.Proofs.TaskQueue

namespace OsThing.Elf

open Bytes Fs Paging AddressSpace

/-! ### When the loop comes back -/

/-- The loop of `map_pages` ends, and the first byte that is copied to a page which is not
mapped is in a region of the caller. -/
def Phdr.Returns (h : Phdr) (maps : List Memmap) (mapped : Nat → Prop) : Prop :=
  h.MapEnds ∧ ∀ k < h.filesz,
    (mapped (target h.vaddr k / pageSize) ∨ LoopPage h (target h.vaddr k / pageSize)) ∨
      (memmapsCheck maps (UInt32.ofNat (target h.vaddr k))).isSome ∨
        ∃ j < k, target h.vaddr j / pageSize = target h.vaddr k / pageSize

/-- One header after the other, with the pages of those before it. -/
def Returns (maps : List Memmap) : (Nat → Prop) → List Segment → Prop
  | _, [] => True
  | mapped, seg :: rest => seg.phdr.Returns maps mapped ∧
      Returns maps (fun p => mapped p ∨ LoopPage seg.phdr p ∨ CopyPage seg.phdr p) rest

theorem place_returns_iff {env : Surroundings} {m : AddressSpace} {mapped : Nat → Prop} {h : Phdr}
    (buf : Memory) (hmapped : ∀ p, m.mapped p = true ↔ mapped p) (hfilesz : h.filesz ≤ space) :
    (m.place env h buf).isSome ↔ h.Returns env.maps mapped := by
  rw [AddressSpace.place_isSome_iff hfilesz]
  exact and_congr_right fun _ => forall₂_congr fun k _ => or_congr_left (or_congr_left (hmapped _))

section Load

variable {s : Vfs} {t : Nat} {fd : Int} {raw : Nat → UInt8} {f : OpenFile}
variable {env : Surroundings} {kernel : AddressSpace}

theorem placeSegments_isSome_iff {ehdr : Ehdr} (hsize : ehdr.phentsize < 2 ^ 32) (turns : Nat) :
    ∀ {i : Nat} {s : Vfs} {f : OpenFile} {phbuf : Memory} {m : AddressSpace} {mapped : Nat → Prop},
      Shows s t fd raw f → (∀ p, m.mapped p = true ↔ mapped p) →
      ((placeSegments t fd raw env ehdr turns i s phbuf m).isSome ↔
        Returns env.maps mapped (OpenFile.segments ehdr turns i f phbuf).1) := by
  induction turns with
  | zero => intro i s f phbuf m mapped _ _; exact iff_of_true rfl trivial
  | succ turns ih =>
      intro i s f phbuf m mapped h hmapped
      obtain ⟨s₁, hread₁, h₁⟩ := h.readAt (ehdr.headerOffset i) hsize
      let phbuf' := store phbuf ((f.seek (ehdr.headerOffset i)).bytes ehdr.phentsize)
      let phdr := Phdr.ofBytes phbuf'
      have hfilesz : phdr.filesz < 2 ^ 32 := read32_lt phbuf' 16
      obtain ⟨s₂, hread₂, h₂⟩ := h₁.readAt (UInt32.ofNat phdr.offset).toInt32 hfilesz
      unfold placeSegments OpenFile.segments
      dsimp only
      rw [hread₁, Option.bind_some]
      dsimp only
      rw [hread₂, Option.bind_some]
      dsimp only
      rw [show Returns _ _ (_ :: _) ↔ phdr.Returns env.maps mapped ∧ _ from Iff.rfl,
        ← place_returns_iff (store (env.buffers i) _) hmapped (Nat.le_of_lt hfilesz)]
      rcases hplace : m.place env phdr (store (env.buffers i) _) with _ | m'
      · exact iff_of_false Bool.false_ne_true fun h => Bool.false_ne_true h.1
      · have hspec := place_spec (Nat.le_of_lt hfilesz) hplace
        rw [Option.bind_some, and_iff_right Option.isSome_some]
        exact ih h₂ fun p => (hspec.mapped p).trans (or_congr_left (hmapped p))

theorem Shows.unique {g : OpenFile} (h : Shows s t fd raw f) (h' : Shows s t fd raw g) : f = g := by
  obtain ⟨d, head, filehead, hgood, hhead, hfile, rfl⟩ := h
  obtain ⟨d', head', filehead', hgood', hhead', hfile', rfl⟩ := h'
  obtain rfl := Option.some.inj (hgood.symm.trans hgood')
  obtain rfl := Option.some.inj (hhead.symm.trans hhead')
  obtain rfl := Option.some.inj (hfile.symm.trans hfile')
  rfl

theorem loadProgram_rejects (h : Opens s t fd raw f) (hbad : ¬ f.IsElf) :
    loadProgram s t fd raw env kernel = some (-1, none) := by
  obtain ⟨s₁, hread, -⟩ := h.shows.read (UInt32.ofNat ehdrSize)
  have hrefused : badHeader f.header (asInt (UInt32.ofNat (f.count ehdrSize))) = true := by
    rw [← Bool.not_eq_false]
    exact mt (badHeader_iff f).mp hbad
  unfold loadProgram
  rw [if_neg h.not_refused, hread, Option.bind_some]
  exact if_pos hrefused

theorem loadProgram_returns (h : Opens s t fd raw f) (helf : f.IsElf) :
    (∃ prog, loadProgram s t fd raw env kernel = some (0, some prog)) ∧
        Returns env.maps (fun p => kernel.mapped p = true) f.programHeaders ∨
      loadProgram s t fd raw env kernel = none ∧
        ¬ Returns env.maps (fun p => kernel.mapped p = true) f.programHeaders := by
  obtain ⟨s₁, h₁, hload⟩ := @loadProgram_accepts s t fd raw f env kernel h helf
  have hsize : f.ehdr.phentsize < 2 ^ 32 := (read16_lt f.header 42).trans (by decide)
  have hloop := @placeSegments_isSome_iff t fd raw env f.ehdr hsize f.ehdr.phnum 0 s₁
    (f.read ehdrSize) (fun _ => 0) kernel _ h₁ fun _ => Iff.rfl
  rw [OpenFile.programHeaders, ← hloop, hload]
  rcases placeSegments t fd raw env f.ehdr f.ehdr.phnum 0 s₁ (fun _ => 0) kernel with _ | last
  · exact Or.inr ⟨rfl, nofun⟩
  · exact Or.inl ⟨⟨_, rfl⟩, rfl⟩

/-- Without a file behind the descriptor the read goes through a wild pointer. -/
theorem loadProgram_wild {d : FileDescript} (hgood : goodFile (s.tasks t) fd = some d)
    (hindex : fdIndex fd ≤ MAX_FILES) (hnonneg : 0 ≤ fd) (hnone : ∀ f, ¬ Shows s t fd raw f) :
    loadProgram s t fd raw env kernel = none := by
  have hopen : ¬ (MAX_FILES < fdIndex fd ∨ (s.tasks t).files (fdIndex fd) = none ∨ fd < 0) := by
    rw [(goodFile_eq_some hgood).2]
    rintro (hlt | hfile | hneg)
    · exact absurd hindex (Nat.not_le_of_lt hlt)
    · cases hfile
    · exact absurd hnonneg (Int.not_le_of_gt hneg)
  have hread : s.read t fd (UInt32.ofNat ehdrSize) raw = none := by
    unfold Vfs.read
    rw [hgood]
    dsimp only
    rcases hhead : s.ramfs (s.nodes d.file).fs with _ | head
    · rfl
    · rw [Option.bind_some, ramfsPread]
      rcases hfile : head.getFileH (s.nodes d.file).inode with _ | filehead
      · rfl
      · exact absurd ⟨d, head, filehead, hgood, hhead, hfile, rfl⟩ (hnone _)
  unfold loadProgram
  rw [if_neg hopen, hread, Option.bind_none]

end Load

end OsThing.Elf

namespace OsThing.Exec

open Chain Elf Fs Sched
open Paging (pageSize space)

/-! ### The new task -/

/-- The new task is behind the others, and the caller has one child more. -/
theorem createProcess_appends {k : Kernel} {l : List Nat}
    (hchain : IsChain k.next (some k.taskQueue) l) (hmem : ∀ t ∈ l, t < k.count)
    (hcurrent : k.currentTask < k.count) (function : Nat) :
    ∃ k', k.createProcess function = some k' ∧
      IsChain k'.next (some k'.taskQueue) (l ++ [k.count]) ∧
      (k'.task k.currentTask).childCount = (k.task k.currentTask).childCount + 1 := by
  let k₁ := k.initTask.2.modify k.count fun task => { task with eip := function, tid := 0 }
  have hstart : SameQueue k.initTask.2 k₁ := sameQueue_modify k.initTask.2 k.count rfl
  have hfresh : k.count ∉ l := fun hin => Nat.lt_irrefl _ (hmem _ hin)
  have hchain₁ : IsChain k₁.next (some k₁.taskQueue) l := by
    refine hchain.congr fun t ht => ?_
    rw [hstart.next, initTask_next, if_neg (ne_of_mem_of_not_mem ht hfresh)]
  have hnew : k₁.next k.count = none := by
    rw [hstart.next, initTask_next, if_pos rfl]
  have hlength : l.length ≤ k₁.count := Nat.le_succ_of_le (hchain.length_le hmem)
  obtain ⟨e, -, hadd, hchain₂⟩ := addTask_appends hchain₁ hlength hfresh hnew
  let k₂ := k₁.modify e fun last => { last with next := some k.count }
  let raise : Sched.Task → Sched.Task := fun task => { task with childCount := task.childCount + 1 }
  have hend : SameQueue k₂ (k₂.modify k₂.currentTask raise) := sameQueue_modify k₂ _ rfl
  refine ⟨k₂.modify k₂.currentTask raise, ?_, ?_, ?_⟩
  · show (k₁.addTask k.count).map _ = _
    rw [hadd]
    rfl
  · rw [hend.next, hend.taskQueue, show k₂.next = _ from next_modify k₁ e _]
    exact hchain₂
  · have hkept : (k₂.task k.currentTask).childCount = (k₁.task k.currentTask).childCount := by
      by_cases he : k.currentTask = e
      · rw [he, show k₂.task e = _ from k₁.modify_task_self e _]
      · rw [show k₂.task k.currentTask = _ from k₁.modify_task_ne he _]
    have hold : k₁.task k.currentTask = k.task k.currentTask := by
      have hne : k.currentTask ≠ k.count := Nat.ne_of_lt hcurrent
      rw [show k₁.task k.currentTask = _ from k.initTask.2.modify_task_ne hne _]
      exact Function.update_of_ne hne ..
    rw [← hold, ← hkept]
    exact congrArg Sched.Task.childCount (k₂.modify_task_self k.currentTask raise)

/-! ### The result -/

/-- One new task was appended to the queue, and the caller has one child more. -/
def Appended (k k' : Kernel) : Prop :=
  ∃ l new, IsChain k.next (some k.taskQueue) l ∧ IsChain k'.next (some k'.taskQueue) (l ++ [new]) ∧
    (k'.task k.currentTask).childCount = (k.task k.currentTask).childCount + 1

/-- The queue, the number of children and the page directory are as they were. -/
def Unchanged (k k' : Kernel) : Prop :=
  (∀ l, IsChain k.next (some k.taskQueue) l → IsChain k'.next (some k'.taskQueue) l) ∧
    (k'.task k.currentTask).childCount = (k.task k.currentTask).childCount ∧
    k'.currentDir = k.currentDir

/-- The call comes back, with 0 exactly if there is a new task, and with a negative number and
nothing done else. -/
def Truthful (k : Kernel) (result : Option (Int × Kernel)) : Prop :=
  ∃ ret k', result = some (ret, k') ∧ (ret = 0 ↔ Appended k k') ∧
    (ret ≠ 0 → ret < 0 ∧ Unchanged k k')

theorem not_appended (k : Kernel) : ¬ Appended k k := by
  rintro ⟨l, new, hchain, hchain', -⟩
  have hsame := congrArg List.length (hchain.unique hchain')
  rw [List.length_append, List.length_singleton] at hsame
  exact Nat.ne_of_lt (Nat.lt_succ_self _) hsame

theorem fdIndex_toInt (fd : Int32) : fdIndex fd.toInt = fd.toUInt32.toNat := by
  unfold fdIndex
  rw [show fd.toInt.toInt32 = fd from Int32.ofInt_toInt fd]

theorem nonneg_of_fdIndex {fd : Int32} (h : fdIndex fd.toInt < MAX_FILES) : 0 ≤ fd.toInt := by
  rw [fdIndex_toInt] at h
  have hsmall : 2 * fd.toBitVec.toNat < 2 ^ 32 := by
    have hnat : fd.toBitVec.toNat < 32 := h
    omega
  show 0 ≤ fd.toBitVec.toInt
  rw [BitVec.toInt_eq_toNat_of_lt hsmall]
  exact Int.natCast_nonneg _

/-- The test of `fexecve` is the one of `read` and the other calls. -/
theorem isgoodfd_iff {task : Fs.Task} {fd : Int} : isgoodfd task fd = true ↔
    ¬ (task.fileCount ≤ fdIndex fd ∨ task.files (fdIndex fd) = none) := by
  unfold isgoodfd
  split
  · rename_i hcount
    exact iff_of_false nofun fun h => h (Or.inl (by omega))
  · rename_i hcount
    rw [not_or] at hcount ⊢
    rw [and_iff_right hcount.2, ← ne_eq, Option.isSome_iff_ne_none]

section Exec

variable {s : Vfs} {k : Kernel} {newDir : Nat} {fd : Int32} {raw : Nat → UInt8}
variable {env : Surroundings} {kernel : AddressSpace}

theorem fexecve_closed (h : goodFile (s.tasks k.currentTask) fd.toInt = none) :
    fexecve s k newDir fd.toInt raw env kernel = some (-1, k) := by
  refine if_pos ?_
  by_contra hopen
  exact not_isgoodfd h (isgoodfd_iff.mpr hopen)

theorem fexecve_open {d : FileDescript} (h : goodFile (s.tasks k.currentTask) fd.toInt = some d) :
    fexecve s k newDir fd.toInt raw env kernel =
      (loadElf s k newDir fd.toInt raw env kernel).map fun result => (0, result.2) :=
  if_neg (isgoodfd_iff.mp (goodFile_eq_some h).1)

/-- A program that was loaded becomes a task. -/
theorem loadElf_appends {l : List Nat} (hchain : IsChain k.next (some k.taskQueue) l)
    (hmem : ∀ t ∈ l, t < k.count) (hcurrent : k.currentTask < k.count) {program : Program}
    (hload : loadProgram s k.currentTask fd.toInt raw env kernel = some (0, some program)) :
    ∃ k', loadElf s k newDir fd.toInt raw env kernel = some (0, k') ∧ Appended k k' := by
  let k₁ : Kernel := { k with currentDir := newDir }
  obtain ⟨k₂, hcreate, hchain₂, hchildren⟩ :=
    @createProcess_appends k₁ l hchain hmem hcurrent program.entry
  refine ⟨{ k₂ with currentDir := k.current.dir }, ?_, l, k.count, hchain, hchain₂, hchildren⟩
  unfold loadElf
  rw [hload, Option.bind_some]
  dsimp only
  rw [show Kernel.createProcess { k with currentDir := newDir } program.entry = some k₂ from
    hcreate]
  rfl

theorem fexecve_stuck {d : FileDescript}
    (hgood : goodFile (s.tasks k.currentTask) fd.toInt = some d)
    (hload : loadProgram s k.currentTask fd.toInt raw env kernel = none) :
    ¬ Truthful k (fexecve s k newDir fd.toInt raw env kernel) := by
  rw [fexecve_open hgood]
  rintro ⟨ret, k', hret, -⟩
  unfold loadElf at hret
  rw [hload] at hret
  cases hret

/-- A descriptor that shows a file. -/
theorem fexecve_shown_iff {l : List Nat} (hchain : IsChain k.next (some k.taskQueue) l)
    (hmem : ∀ t ∈ l, t < k.count) (hcurrent : k.currentTask < k.count) {d : FileDescript}
    {f : OpenFile} (hgood : goodFile (s.tasks k.currentTask) fd.toInt = some d)
    (hopens : Opens s k.currentTask fd.toInt raw f) :
    Truthful k (fexecve s k newDir fd.toInt raw env kernel) ↔
      f.IsElf ∧ Returns env.maps (fun p => kernel.mapped p = true) f.programHeaders := by
  by_cases helf : f.IsElf
  · rw [and_iff_right helf]
    rcases @loadProgram_returns s k.currentTask fd.toInt raw f env kernel hopens helf with
      ⟨⟨program, hload⟩, hreturns⟩ | ⟨hload, hstuck⟩
    · obtain ⟨k', hk', happended⟩ := @loadElf_appends s k newDir fd raw env kernel l hchain hmem
        hcurrent program hload
      rw [fexecve_open hgood, hk']
      exact iff_of_true ⟨0, k', rfl, iff_of_true rfl happended, fun h => absurd rfl h⟩ hreturns
    · exact iff_of_false (fexecve_stuck hgood hload) hstuck
  · -- `load_elf` returns -1, and `fexecve` 0
    refine iff_of_false ?_ fun h => helf h.1
    rw [fexecve_open hgood]
    rintro ⟨ret, k', hret, hzero, -⟩
    unfold loadElf at hret
    rw [loadProgram_rejects hopens helf] at hret
    cases hret
    exact not_appended k (hzero.mp rfl)

/--
**When `fexecve` tells the truth.**  The descriptor is not open, or it is open on an executable
that `load_elf` accepts and comes back from.
-/
theorem fexecve_truthful_iff {l : List Nat} (hchain : IsChain k.next (some k.taskQueue) l)
    (hmem : ∀ t ∈ l, t < k.count) (hcurrent : k.currentTask < k.count)
    (hfiles : (s.tasks k.currentTask).fileCount ≤ MAX_FILES) :
    Truthful k (fexecve s k newDir fd.toInt raw env kernel) ↔
      goodFile (s.tasks k.currentTask) fd.toInt = none ∨
        ∃ f, Shows s k.currentTask fd.toInt raw f ∧ f.IsElf ∧
          Returns env.maps (fun p => kernel.mapped p = true) f.programHeaders := by
  rcases hgood : goodFile (s.tasks k.currentTask) fd.toInt with _ | d
  · rw [fexecve_closed hgood]
    refine iff_of_true ⟨-1, k, rfl, iff_of_false (by decide) (not_appended k), fun _ => ?_⟩
      (Or.inl rfl)
    exact ⟨by decide, fun _ h => h, rfl, rfl⟩
  · have hindex : fdIndex fd.toInt < MAX_FILES := by
      have hopen := isgoodfd_iff.mp (goodFile_eq_some hgood).1
      omega
    have hpos := nonneg_of_fdIndex hindex
    rw [or_iff_right nofun]
    by_cases hshows : ∃ f, Shows s k.currentTask fd.toInt raw f
    · obtain ⟨f, hshows⟩ := hshows
      have hopens : Opens s k.currentTask fd.toInt raw f := ⟨hpos, Nat.le_of_lt hindex, hshows⟩
      rw [fexecve_shown_iff hchain hmem hcurrent hgood hopens]
      exact ⟨fun h => ⟨f, hshows, h⟩, fun ⟨g, hg, h⟩ => hshows.unique hg ▸ h⟩
    · have hnone := fun f hf => hshows ⟨f, hf⟩
      have hload := @loadProgram_wild s k.currentTask fd.toInt raw env kernel d hgood
        (Nat.le_of_lt hindex) hpos hnone
      exact iff_of_false (fexecve_stuck hgood hload) fun ⟨f, hf, _⟩ => hnone f hf

end Exec

/-- The first task executes a file with one segment. -/
theorem fexecve_truthful_iff_image : Truthful (Kernel.initTasking 0 0)
    (fexecve (withFile (image 0x8000000 4)) (Kernel.initTasking 0 0) 1 (0 : Int32).toInt
      (fun _ => 0) ⟨fun _ => 0, fun _ _ => 0, []⟩ lowMemory) := by
  have hopens : Opens (withFile (image 0x8000000 4)) 0 0 (fun _ => 0)
      (opened (image 0x8000000 4)) := opens_withFile (by decide) _
  have hchain : IsChain (Kernel.initTasking 0 0).next (some 0) [0] := ⟨rfl, rfl⟩
  have hheaders : (opened (image 0x8000000 4)).programHeaders =
      [⟨32, ⟨84, 0x8000000, 4, 4⟩⟩] := by decide
  refine (fexecve_truthful_iff hchain (by decide) (by decide) (by decide)).mpr
    (Or.inr ⟨_, hopens.shows, ⟨by decide, by decide, by decide, by decide⟩, ?_⟩)
  rw [hheaders]
  refine ⟨⟨by decide, fun k hk => Or.inl (Or.inr ⟨0, by decide, ?_⟩)⟩, trivial⟩
  simp only [AddressSpace.target, pageSize, space] at *
  omega

/-- **`fexecve` returns 0 for a file that is no executable.** -/
theorem fexecve_claims_success : ¬ ∀ s k newDir (fd : Int32) raw env kernel l,
    IsChain k.next (some k.taskQueue) l → (∀ t ∈ l, t < k.count) → k.currentTask < k.count →
    (s.tasks k.currentTask).fileCount ≤ MAX_FILES →
    Truthful k (fexecve s k newDir fd.toInt raw env kernel) := by
  intro hclaim
  obtain ⟨ret, k', hret, hzero, -⟩ := hclaim (withFile [0x23, 0x21]) (Kernel.initTasking 0 0) 1 0
    (fun _ => 0) ⟨fun _ => 0, fun _ _ => 0, []⟩ lowMemory [0] ⟨rfl, rfl⟩ (by decide) (by decide)
    (by decide)
  have hresult : fexecve (withFile [0x23, 0x21]) (Kernel.initTasking 0 0) 1 (0 : Int32).toInt
      (fun _ => 0) ⟨fun _ => 0, fun _ _ => 0, []⟩ lowMemory =
        some (0, Kernel.initTasking 0 0) := rfl
  rw [hresult] at hret
  cases hret
  exact not_appended _ (hzero.mp rfl)

end OsThing.Exec
