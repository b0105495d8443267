/-
When `chdir` is about one task only.

`chdir` writes to the node that `cwd` points to.  All tasks have inherited this pointer
from the first one, whose root is the same node.  So whoever changes its working directory
changes everybody's, and everybody's root, and `chdir` is local only if the node it writes
is the one that is there.
-/
import OsThing.Fs.WorkingDir
import OsThing.Lib.Runs
import OsThing.Proofs.Walk

namespace OsThing.Fs

open Runs

/-- A `chdir` changes neither a lookup of another task nor one of an absolute path. -/
def Local (s : TaskDirs) (op : DirOp) (s' : TaskDirs) : Prop :=
  ∀ t path, op = .chdir t path → ∀ t' path', t' < s.count → (t' ≠ t ∨ path'.head? = some '/') →
    ∀ fuel buf, fsFindPath s'.vfs fuel t' path' buf = fsFindPath s.vfs fuel t' path' buf

/-- A `chdir` leads nowhere, or to where the task is. -/
def StaysPut (fuel : Nat) (s : TaskDirs) (op : DirOp) (_ : TaskDirs) : Prop :=
  ∀ t path, op = .chdir t path → ∀ ret fp, fsFindPath s.vfs fuel t path ⟨0, 0⟩ = .ok (ret, fp) →
    0 ≤ ret → fp = s.vfs.nodes (s.vfs.tasks t).cwd

/-- All tasks have the one node for their root and their working directory. -/
def OneNode (fsRoot : Nat) (s : TaskDirs) : Prop :=
  ∀ t < s.count, (s.vfs.tasks t).root = fsRoot ∧ (s.vfs.tasks t).cwd = fsRoot

theorem oneNode_init (s : Vfs) (fsRoot : Nat) : OneNode fsRoot (initTasking s fsRoot) := by
  intro t ht
  obtain rfl : t = 0 := Nat.lt_one_iff.mp ht
  unfold initTasking
  dsimp only
  rw [modifyTask_tasks, if_pos rfl]
  exact ⟨rfl, rfl⟩

theorem OneNode.step {fsRoot fuel : Nat} {s s' : TaskDirs} {op : DirOp} (h : OneNode fsRoot s)
    (hstep : dirStep fuel s op = some s') : OneNode fsRoot s' := by
  cases op with
  | create parent =>
      obtain ⟨hparent, hstep⟩ := Option.ite_none_right_eq_some.mp hstep
      obtain rfl := Option.some.inj hstep
      intro t ht
      unfold TaskDirs.initTask
      dsimp only
      rw [modifyTask_tasks]
      split
      · exact h parent hparent
      · rename_i hne
        have ht : t < s.count + 1 := ht
        exact h t (by omega)
  | chdir t path =>
      obtain ⟨ht, hstep⟩ := Option.ite_none_right_eq_some.mp hstep
      obtain ⟨⟨ret, vfs⟩, hchdir, rfl⟩ := Option.map_eq_some_iff.mp hstep
      have htasks := (chdir_tree hchdir).sameTasks.tasks
      intro t' ht'
      show (vfs.tasks t').root = fsRoot ∧ (vfs.tasks t').cwd = fsRoot
      rw [htasks]
      exact h t' ht'

/-- A `chdir` to where the task is changes nothing. -/
theorem local_of_staysPut {fsRoot fuel : Nat} {s s' : TaskDirs} {op : DirOp}
    (_ : OneNode fsRoot s) (hstep : dirStep fuel s op = some s') (hput : StaysPut fuel s op s') :
    Local s op s' := by
  rintro t path rfl t' path' - - fuel' buf
  obtain ⟨ht, hstep⟩ := Option.ite_none_right_eq_some.mp hstep
  obtain ⟨⟨ret, vfs⟩, hchdir, rfl⟩ := Option.map_eq_some_iff.mp hstep
  obtain ⟨r, fp, hfind, ⟨-, rfl⟩ | ⟨hr, rfl⟩⟩ := setNode_cases hchdir
  · rfl
  · have hsame : s.vfs.setNode (s.vfs.tasks t).cwd fp = s.vfs := by
      rw [hput t path rfl r fp hfind hr]
      unfold Vfs.setNode
      rw [Function.update_eq_self]
    show fsFindPath (s.vfs.setNode (s.vfs.tasks t).cwd fp) fuel' t' path' buf = _
    rw [hsame]

/-- And a `chdir` to elsewhere takes along what `/` is for the task. -/
theorem staysPut_of_local {fsRoot fuel : Nat} {s s' : TaskDirs} {op : DirOp}
    (h : OneNode fsRoot s) (hstep : dirStep fuel s op = some s') (hlocal : Local s op s') :
    StaysPut fuel s op s' := by
  rintro t path rfl ret fp hfind hret
  obtain ⟨ht, hstep⟩ := Option.ite_none_right_eq_some.mp hstep
  obtain ⟨⟨r, vfs⟩, hchdir, rfl⟩ := Option.map_eq_some_iff.mp hstep
  obtain ⟨hroot, hcwd⟩ := h t ht
  obtain ⟨r', fp', hfind', hcases⟩ := setNode_cases hchdir
  obtain ⟨rfl, rfl⟩ := Prod.mk.inj (Except.ok.inj (hfind'.symm.trans hfind))
  rcases hcases with ⟨hneg, -⟩ | ⟨-, rfl⟩
  · exact absurd hneg (Int.not_lt.mpr hret)
  · have hslash := hlocal t path rfl t ['/'] ht (Or.inr rfl) 0 ⟨0, 0⟩
    rw [fsFindPath_root _ _ _ _ (by decide), fsFindPath_root _ _ _ _ (by decide)] at hslash
    have hnode : (s.vfs.setNode (s.vfs.tasks t).cwd fp').nodes (s.vfs.tasks t).root =
        s.vfs.nodes (s.vfs.tasks t).root := (Prod.mk.inj (Except.ok.inj hslash)).2
    rw [hroot, hcwd] at hnode
    unfold Vfs.setNode at hnode
    dsimp only at hnode
    rw [Function.update_self] at hnode
    rw [hcwd]
    exact hnode

/--
**`chdir` is local in just the runs in which it goes nowhere.**  For every run of `chdir` by
any tasks and of the making of tasks by any of them, on any file systems.
-/
theorem chdir_local_iff (fuel : Nat) (s : Vfs) (fsRoot : Nat) (ops : List DirOp) :
    EveryStep (dirStep fuel) Local (initTasking s fsRoot) ops ↔
      EveryStep (dirStep fuel) (StaysPut fuel) (initTasking s fsRoot) ops :=
  ⟨everyStep_of_inv (fun _ _ _ (h : OneNode fsRoot _) hstep _ => h.step hstep)
      (fun _ _ _ => staysPut_of_local) (oneNode_init s fsRoot),
    everyStep_of_inv (fun _ _ _ (h : OneNode fsRoot _) hstep _ => h.step hstep)
      (fun _ _ _ => local_of_staysPut) (oneNode_init s fsRoot)⟩

/-- **The first task goes to `/d`, and that is the root of the second one from then on.** -/
theorem chdir_moves_all :
    ∃ s, vfsStep 4 (Vfs.boot [0x1000] 0x1000 0x2000) ⟨0, .mkdir ['d'] 0o777⟩ = some s ∧
      ¬ EveryStep (dirStep 4) Local (initTasking s 0x2000) [.create 0, .chdir 0 ['d']] := by
  have hrun : (vfsStep 4 (Vfs.boot [0x1000] 0x1000 0x2000) ⟨0, .mkdir ['d'] 0o777⟩).bind (fun s =>
      (dirStep 4 (initTasking s 0x2000) (.create 0)).bind fun s₁ =>
        (dirStep 4 s₁ (.chdir 0 ['d'])).map fun s₂ =>
          (s₁.count, s₁.vfs.nodes (s₁.vfs.tasks 1).root, s₂.vfs.nodes (s₂.vfs.tasks 1).root)) =
      some (2, ⟨1, 0x1000⟩, ⟨2, 0x1000⟩) := by
    decide
  obtain ⟨s, hs, hrun⟩ := Option.bind_eq_some_iff.mp hrun
  obtain ⟨s₁, hs₁, hrun⟩ := Option.bind_eq_some_iff.mp hrun
  obtain ⟨s₂, hs₂, hend⟩ := Option.map_eq_some_iff.mp hrun
  obtain ⟨hcount, hnodes⟩ := Prod.mk.inj hend
  obtain ⟨hbefore, hafter⟩ := Prod.mk.inj hnodes
  refine ⟨s, hs, fun h => ?_⟩
  have hslash := ((h s₁ hs₁).2 s₂ hs₂).1 0 ['d'] rfl 1 ['/'] (by omega) (Or.inl (by decide)) 0 ⟨0, 0⟩
  rw [fsFindPath_root _ _ _ _ (by decide), fsFindPath_root _ _ _ _ (by decide)] at hslash
  have hnode := (Prod.mk.inj (Except.ok.inj hslash)).2
  exact absurd (hafter.symm.trans (hnode.trans hbefore)) (by decide)

end OsThing.Fs
