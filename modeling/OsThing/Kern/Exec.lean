/-
`fexecve` in `kern/kern/task/task.c`, and what `load_elf` does to the tasks.

`Kern/Loading` has the memory that a file is loaded into.  A program that was loaded becomes a
new task, which `create_process` puts into the queue while the new directory is the current one.
`fexecve` does not look at what `load_elf` returns.

The arguments are left out; what `create_process` makes of them is in `Task/Arguments`.
-/
import OsThing.Kern.Loading
import OsThing.Task.Kernel

namespace OsThing.Exec

open Elf Fs Sched

/-- `load_elf`, where `clone_page_dir` returns `newDir`. -/
def loadElf (s : Vfs) (k : Kernel) (newDir : Nat) (fd : Int) (raw : Nat → UInt8)
    (env : Surroundings) (kernel : AddressSpace) : Option (Int × Kernel) :=
  (loadProgram s k.currentTask fd raw env kernel).bind fun (ret, program) =>
    match program with
    | none => some (ret, k)
    | some program =>
        let oldDir := k.current.dir
        (Kernel.createProcess { k with currentDir := newDir } program.entry).map fun k =>
          (ret, { k with currentDir := oldDir })

/-- `fexecve`.  A negative `fd` is a large number beside `file_count`. -/
def fexecve (s : Vfs) (k : Kernel) (newDir : Nat) (fd : Int) (raw : Nat → UInt8)
    (env : Surroundings) (kernel : AddressSpace) : Option (Int × Kernel) :=
  let task := s.tasks k.currentTask
  if task.fileCount ≤ fdIndex fd ∨ task.files (fdIndex fd) = none then some (-1, k)
  else (loadElf s k newDir fd raw env kernel).map fun (_, k) => (0, k)

end OsThing.Exec
