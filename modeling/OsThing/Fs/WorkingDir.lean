/-
Whose working directory is where: `init_tasking` and `init_task` of `kern/kern/task/task.c`,
and `chdir` of `kern/fs/fs.c`.

The root and the working directory of a task are pointers to file nodes.  The first task
gets `fs_root` for both, and any other one the two pointers of the task that creates it.
-/
import OsThing.Fs.Calls

namespace OsThing.Fs

/-- Tasks are numbered in the order in which they are created. -/
structure TaskDirs where
  vfs : Vfs
  count : Nat

/-- `init_tasking`, where the node of the root is at `fsRoot`. -/
def initTasking (s : Vfs) (fsRoot : Nat) : TaskDirs where
  vfs := s.modifyTask 0 fun _ => ⟨0, 0, fsRoot, fsRoot, fun _ => none, 0⟩
  count := 1

namespace TaskDirs

variable (s : TaskDirs)

/-- `init_task`, in memory that was cleared, while `parent` is the current task. -/
def initTask (parent : Nat) : TaskDirs where
  vfs := s.vfs.modifyTask s.count fun _ =>
    ⟨0, 0, (s.vfs.tasks parent).root, (s.vfs.tasks parent).cwd, fun _ => none, 0⟩
  count := s.count + 1

end TaskDirs

/-! ### A run -/

inductive DirOp
  | create (parent : Nat)
  | chdir (t : Nat) (path : Name)

def dirStep (fuel : Nat) (s : TaskDirs) : DirOp → Option TaskDirs
  | .create parent => if parent < s.count then some (s.initTask parent) else none
  | .chdir t path =>
      if t < s.count then (s.vfs.chdir fuel t path).map fun (_, vfs) => { s with vfs := vfs }
      else none

end OsThing.Fs
