/-
Which descriptors are accepted, and what they refer to.

`isgoodfd` takes a descriptor for bad when its number is not below the number of open
files.  As `open` fills the lowest place that is free, that is right only while the open
descriptors are the lowest ones, and they stay so only if each `close` takes the highest.

`open` frees the node of the file it opens, so a descriptor never refers to a node that
is still allocated.
-/
import OsThing.Lib.Runs
import OsThing.Proofs.Calls

namespace OsThing.Fs

open Runs

variable {fuel t : Nat}

/-- The task has no descriptors. -/
def NoFiles (s : Vfs) (t : Nat) : Prop :=
  (s.tasks t).fileCount = 0 ∧ (∀ i, (s.tasks t).files i = none) ∧ ∀ i, s.opened t i = none

/-! ### Accepted descriptors -/

/-- Every descriptor that was opened and not closed since is accepted. -/
def Accepted (t : Nat) (s : Vfs) : Prop :=
  ∀ i, (s.opened t i).isSome → isgoodfd (s.tasks t) i

/-- A `close` that the task makes and that is accepted closes its highest descriptor. -/
def ClosesHighest (t : Nat) (s : Vfs) (c : Call) (_ : Vfs) : Prop :=
  c.task = t → ∀ fd, c.op = .close fd → isgoodfd (s.tasks t) fd →
    fdIndex fd + 1 = (s.tasks t).fileCount

/-- The descriptors are the lowest ones, as many as `file_count` says. -/
structure Packed (t : Nat) (s : Vfs) : Prop where
  room : (s.tasks t).fileCount ≤ MAX_FILES
  files : ∀ i, ((s.tasks t).files i).isSome ↔ i < (s.tasks t).fileCount
  opened : ∀ i, (s.opened t i).isSome ↔ i < (s.tasks t).fileCount

theorem Packed.accepted {s : Vfs} (h : Packed t s) : Accepted t s := by
  intro i hi
  have hlt := (h.opened i).mp hi
  have hroom := h.room
  unfold isgoodfd
  rw [fdIndex_natCast (by omega), if_neg (by omega)]
  exact (h.files i).mpr hlt

theorem Packed.sameFiles {s s' : Vfs} (h : Packed t s) (hsame : SameFiles s s') : Packed t s' := by
  have hfiles : ∀ i, ((s'.tasks t).files i).isSome = ((s.tasks t).files i).isSome := by
    intro i
    rw [← Option.isSome_map (f := FileDescript.file), hsame.files, Option.isSome_map]
  refine ⟨?_, fun i => ?_, fun i => ?_⟩
  · rw [hsame.count]
    exact h.room
  · rw [hfiles, hsame.count]
    exact h.files i
  · rw [hsame.opened, hsame.count]
    exact h.opened i

theorem Packed.openedAt {s s' : Vfs} {t' i a : Nat} {flags : UInt32} (h : Packed t s)
    (hopen : OpenedAt s s' t' i a flags) : Packed t s' := by
  by_cases ht : t = t'
  · subst ht
    have hi : i = (s.tasks t).fileCount := by
      rcases Nat.lt_trichotomy i (s.tasks t).fileCount with hlt | heq | hgt
      · have hsome := (h.files i).mpr hlt
        rw [hopen.free] at hsome
        cases hsome
      · exact heq
      · have hsome := Option.isSome_iff_ne_none.mpr (hopen.lowest _ hgt)
        exact absurd ((h.files _).mp hsome) (Nat.lt_irrefl _)
    have hroom := hopen.room
    have hcount : (s'.tasks t).fileCount = (s.tasks t).fileCount + 1 := by
      rw [hopen.task]
      rfl
    refine ⟨by omega, fun j => ?_, fun j => ?_⟩
    · rw [hcount, hopen.task, Task.addFile_files]
      split
      · exact iff_of_true rfl (by omega)
      · rw [h.files j]
        omega
    · rw [hcount, hopen.opened]
      split
      · exact iff_of_true rfl (by omega)
      · rw [h.opened j]
        omega
  · have htask : s'.tasks t = s.tasks t := hopen.others t ht
    refine ⟨by rw [htask]; exact h.room, fun j => by rw [htask]; exact h.files j, fun j => ?_⟩
    rw [htask, hopen.opened, if_neg fun hc => ht hc.1]
    exact h.opened j

theorem isgoodfd_lt {task : Task} {fd : Int} (h : isgoodfd task fd) :
    fdIndex fd < task.fileCount := by
  unfold isgoodfd at h
  split at h
  · cases h
  · omega

/-- What a task has left after it closed the descriptor `i`. -/
theorem Packed.left {s s' : Vfs} {i : Nat} (h : Packed t s) (hclose : ClosedAt s s' t i) :
    (s'.tasks t).fileCount = (s.tasks t).fileCount - 1 ∧
      (∀ j, ((s'.tasks t).files j).isSome ↔ j < (s.tasks t).fileCount ∧ j ≠ i) ∧
      ∀ j, (s'.opened t j).isSome ↔ j < (s.tasks t).fileCount ∧ j ≠ i := by
  refine ⟨?_, fun j => ?_, fun j => ?_⟩
  · rw [hclose.task]
    rfl
  · rw [hclose.task, Task.dropFile_files]
    by_cases hj : j = i
    · rw [if_pos hj]
      exact iff_of_false (by simp) fun hc => hc.2 hj
    · rw [if_neg hj, h.files j]
      exact (and_iff_left hj).symm
  · rw [hclose.opened]
    by_cases hj : j = i
    · rw [if_pos ⟨rfl, hj⟩]
      exact iff_of_false (by simp) fun hc => hc.2 hj
    · rw [if_neg fun hc => hj hc.2, h.opened j]
      exact (and_iff_left hj).symm

theorem Packed.closedAt {s s' : Vfs} {t' i : Nat} (h : Packed t s) (hclose : ClosedAt s s' t' i)
    (hhighest : t' = t → i + 1 = (s.tasks t).fileCount) : Packed t s' := by
  by_cases ht : t' = t
  · subst ht
    have hi := hhighest rfl
    obtain ⟨hcount, hfiles, hopened⟩ := h.left hclose
    have hroom := h.room
    refine ⟨by omega, fun j => ?_, fun j => ?_⟩
    · rw [hfiles j]
      omega
    · rw [hopened j]
      omega
  · have htask : s'.tasks t = s.tasks t := hclose.others t (Ne.symm ht)
    refine ⟨by rw [htask]; exact h.room, fun j => by rw [htask]; exact h.files j, fun j => ?_⟩
    rw [htask, hclose.opened, if_neg fun hc => ht hc.1.symm]
    exact h.opened j

/-- After another descriptor than the highest one is closed, the highest is not accepted. -/
theorem Packed.highest_of_accepted {s s' : Vfs} {i : Nat} (h : Packed t s)
    (hclose : ClosedAt s s' t i) (hi : i < (s.tasks t).fileCount) (haccepted : Accepted t s') :
    i + 1 = (s.tasks t).fileCount := by
  obtain ⟨hcount, -, hopened⟩ := h.left hclose
  by_contra hne
  have hroom := h.room
  have hgood := haccepted ((s.tasks t).fileCount - 1) ((hopened _).mpr (by omega))
  have hlt := isgoodfd_lt hgood
  rw [fdIndex_natCast (by omega), hcount] at hlt
  omega

theorem packed_step (s : Vfs) (c : Call) (s' : Vfs) (h : Packed t s)
    (hstep : vfsStep fuel s c = some s') (hhighest : ClosesHighest t s c s') : Packed t s' := by
  cases vfsStep_files hstep with
  | same hsame => exact h.sameFiles hsame
  | opened path flags a i err s₀ hop herr hfile hopen => exact h.openedAt hopen
  | closed fd hop hgood hclose =>
      refine h.closedAt hclose fun ht => ?_
      rw [ht] at hgood
      exact hhighest ht fd hop hgood

theorem packed_exact (s : Vfs) (c : Call) (s' : Vfs) (h : Packed t s)
    (hstep : vfsStep fuel s c = some s') (haccepted : Accepted t s') : ClosesHighest t s c s' := by
  intro ht fd hop hgood
  obtain ⟨t', op⟩ := c
  obtain rfl : t' = t := ht
  obtain rfl : op = .close fd := hop
  obtain ⟨⟨ret, s₁⟩, hclose, rfl⟩ := Option.map_eq_some_iff.mp hstep
  rcases (close_cases hclose).2 with ⟨hbad, -⟩ | ⟨-, hclosed⟩
  · exact absurd hgood hbad
  · exact h.highest_of_accepted hclosed (isgoodfd_lt hgood) haccepted

/--
**`isgoodfd` accepts every open descriptor exactly as long as each `close` takes the
highest one.**  For every run of calls by any tasks, and any task that has no descriptors
at its start.
-/
theorem accepted_iff (s : Vfs) (calls : List Call) (h : NoFiles s t) :
    Always (vfsStep fuel) (Accepted t) s calls ↔
      EveryStep (vfsStep fuel) (ClosesHighest t) s calls := by
  have hpacked : Packed t s := by
    obtain ⟨hcount, hfiles, hopened⟩ := h
    refine ⟨by omega, fun i => ?_, fun i => ?_⟩
    · rw [hfiles, hcount]
      exact iff_of_false (by simp) (Nat.not_lt_zero i)
    · rw [hopened, hcount]
      exact iff_of_false (by simp) (Nat.not_lt_zero i)
  exact always_iff (fun _ hs => hs.accepted) packed_step packed_exact hpacked

/-- Two files opened, and the second one closed. -/
theorem accepted_iff_boot :
    Always (vfsStep 4) (Accepted 0) (Vfs.boot [0x1000] 0x1000 0x2000)
        [⟨0, .open ['a'] 68 0x3000⟩, ⟨0, .open ['b'] 68 0x3000⟩, ⟨0, .close 1⟩] ↔
      EveryStep (vfsStep 4) (ClosesHighest 0) (Vfs.boot [0x1000] 0x1000 0x2000)
        [⟨0, .open ['a'] 68 0x3000⟩, ⟨0, .open ['b'] 68 0x3000⟩, ⟨0, .close 1⟩] :=
  accepted_iff _ _ ⟨rfl, fun _ => rfl, fun _ => rfl⟩

/-- With the first one closed instead, the second one is no longer accepted. -/
theorem second_not_accepted :
    ¬ Always (vfsStep 4) (Accepted 0) (Vfs.boot [0x1000] 0x1000 0x2000)
      [⟨0, .open ['a'] 68 0x3000⟩, ⟨0, .open ['b'] 68 0x3000⟩, ⟨0, .close 0⟩] := by
  intro h
  have hrun : (runAll (vfsStep 4) (Vfs.boot [0x1000] 0x1000 0x2000)
      [⟨0, .open ['a'] 68 0x3000⟩, ⟨0, .open ['b'] 68 0x3000⟩, ⟨0, .close 0⟩]).map
        (fun s => ((s.opened 0 1).isSome, isgoodfd (s.tasks 0) 1)) = some (true, false) := by
    decide
  obtain ⟨s', hs', hend⟩ := Option.map_eq_some_iff.mp hrun
  obtain ⟨hopen, hbad⟩ := Prod.mk.inj hend
  exact absurd (h.last hs' 1 hopen) (ne_true_of_eq_false hbad)

/-! ### The node of a descriptor -/

/-- Every descriptor refers to a node that is allocated, and that is the one its `open`
found. -/
def Bound (s : Vfs) : Prop :=
  ∀ t i d, (s.tasks t).files i = some d →
    ∃ o, s.opened t i = some o ∧ d.file ∈ s.live ∧ s.nodes d.file = o.node

/-- An `open` does not get as far as having the node of a file it may open. -/
def FindsNothing (fuel : Nat) (s : Vfs) (c : Call) (_ : Vfs) : Prop :=
  ∀ path flags a err s₁, c.op = .open path flags a →
    (s.knew a).openFile fuel c.task path flags a = some (err, s₁) → err < 0

theorem noFiles_sameFiles {s s' : Vfs} (h : ∀ t, NoFiles s t) (hsame : SameFiles s s') :
    ∀ t, NoFiles s' t := by
  intro t
  obtain ⟨hcount, hfiles, hopened⟩ := h t
  refine ⟨(hsame.count t).trans hcount, fun i => ?_, fun i => ?_⟩
  · have hmap := hsame.files t i
    rw [hfiles, Option.map_none] at hmap
    exact Option.map_eq_none_iff.mp hmap
  · rw [hsame.opened]
    exact hopened i

theorem noFiles_step (s : Vfs) (c : Call) (s' : Vfs) (h : ∀ t, NoFiles s t)
    (hstep : vfsStep fuel s c = some s') (hnone : FindsNothing fuel s c s') :
    ∀ t, NoFiles s' t := by
  cases vfsStep_files hstep with
  | same hsame => exact noFiles_sameFiles h hsame
  | opened path flags a i err s₀ hop herr hfile hopen =>
      exact absurd (hnone path flags a err s₀ hop hfile) (by omega)
  | closed fd hop hgood hclose =>
      have hlt := isgoodfd_lt hgood
      rw [(h c.task).1] at hlt
      exact absurd hlt (Nat.not_lt_zero _)

/-- The node that `open` has just freed is not allocated. -/
theorem OpenedAt.not_bound {s s' : Vfs} {i a : Nat} {flags : UInt32}
    (h : OpenedAt s s' t i a flags) : ¬ Bound s' := by
  intro hbound
  have hfile : (s'.tasks t).files i = some ⟨a, 0, 0, 0⟩ := by
    rw [h.task, Task.addFile_files, if_pos rfl]
  obtain ⟨o, -, hlive, -⟩ := hbound t i _ hfile
  rw [h.live] at hlive
  exact h.notLive hlive

theorem noFiles_exact (s : Vfs) (c : Call) (s' : Vfs) (h : ∀ t, NoFiles s t)
    (hstep : vfsStep fuel s c = some s') (hbound : Bound s') : FindsNothing fuel s c s' := by
  intro path flags a err s₁ hop hfile
  obtain ⟨t, op⟩ := c
  obtain rfl : op = .open path flags a := hop
  obtain ⟨⟨ret, s₂⟩, hopen, rfl⟩ := Option.map_eq_some_iff.mp hstep
  obtain ⟨err', s₀, hfile', -, -, hcases⟩ := open_cases hopen
  obtain ⟨rfl, rfl⟩ := Prod.mk.inj (Option.some.inj (hfile.symm.trans hfile'))
  obtain ⟨hcount, hfiles, -⟩ := h t
  rcases hcases with ⟨herr | hfull | hslot, -⟩ | ⟨-, i, -, hopened⟩
  · exact herr
  · rw [hcount] at hfull
    exact absurd hfull (by decide)
  · have hfree := List.find?_range_eq_none.mp hslot 0 (by decide)
    simp [hfiles] at hfree
  · exact absurd hbound hopened.not_bound

/--
**A descriptor is bound to its file exactly as long as there is none.**  For every run of
calls by any tasks, in which any free block can be handed out again.
-/
theorem bound_iff (s : Vfs) (calls : List Call) (h : ∀ t, NoFiles s t) :
    Always (vfsStep fuel) Bound s calls ↔
      EveryStep (vfsStep fuel) (FindsNothing fuel) s calls := by
  refine always_iff (fun s hs t i d hfile => ?_) noFiles_step noFiles_exact h
  rw [(hs t).2.1] at hfile
  cases hfile

/-- An `open` of a file that is not there. -/
theorem bound_iff_boot :
    Always (vfsStep 4) Bound (Vfs.boot [0x1000] 0x1000 0x2000) [⟨0, .open ['a'] 4 0x3000⟩] ↔
      EveryStep (vfsStep 4) (FindsNothing 4) (Vfs.boot [0x1000] 0x1000 0x2000)
        [⟨0, .open ['a'] 4 0x3000⟩] :=
  bound_iff _ _ fun _ => ⟨rfl, fun _ => rfl, fun _ => rfl⟩

/-- Two files opened, the second one with the block that the first `open` freed: now the
first descriptor denotes the second file. -/
theorem first_denotes_second :
    ¬ Always (vfsStep 4) Bound (Vfs.boot [0x1000] 0x1000 0x2000)
      [⟨0, .open ['a'] 68 0x3000⟩, ⟨0, .open ['b'] 68 0x3000⟩] := by
  intro h
  have hrun : (runAll (vfsStep 4) (Vfs.boot [0x1000] 0x1000 0x2000)
      [⟨0, .open ['a'] 68 0x3000⟩, ⟨0, .open ['b'] 68 0x3000⟩]).map
        (fun s => ((s.tasks 0).files 0, s.opened 0 0, s.nodes 0x3000)) =
      some (some ⟨0x3000, 0, 0, 0⟩, some ⟨⟨2, 0x1000⟩, 68⟩, ⟨3, 0x1000⟩) := by
    decide
  obtain ⟨s', hs', hend⟩ := Option.map_eq_some_iff.mp hrun
  obtain ⟨hfile, hrest⟩ := Prod.mk.inj hend
  obtain ⟨hopened, hnode⟩ := Prod.mk.inj hrest
  obtain ⟨o, ho, -, hsame⟩ := h.last hs' 0 0 _ hfile
  obtain rfl : ⟨⟨2, 0x1000⟩, 68⟩ = o := Option.some.inj (hopened.symm.trans ho)
  exact absurd (hnode.symm.trans hsame) (by decide)

end OsThing.Fs
