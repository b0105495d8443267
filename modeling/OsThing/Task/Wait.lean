/-
`wait`, with every point at which it can be interrupted.

`wait` runs with interrupts on, and `remove_task` may run between any two of its accesses
to the task.  So each access is a step of its own, and `WaitPc` says which of them is
next.  `returned` is no part of the kernel: it lists what the calls of `wait` have
returned, the last one first.

Other calls may come from the task that waits as well, from a handler for a signal.
-/
import OsThing.Task.Kernel
import Mathlib.Data.Int.Notation

namespace OsThing.Sched

/-- Where a task is in `wait`. -/
inductive WaitPc
  /-- `child_count` is not 0, and `waiting` will be set. -/
  | checked
  /-- The condition of the loop comes next. -/
  | looping
  /-- The body of the loop comes next. -/
  | dozing
  /-- After the loop. -/
  | left
  /-- `waiting` has been cleared. -/
  | cleared
  /-- `child` has been cleared too. -/
  | zeroed
  deriving DecidableEq

/-- A call of `wait` that has come back: who made it, the result and `*status`. -/
structure Waited where
  task : Nat
  ret : Int
  status : Int
  deriving DecidableEq

structure Waits where
  kernel : Kernel
  pc : Nat → Option WaitPc
  returned : List Waited

namespace Waits

variable (s : Waits)

/-- The current task goes on at `pc`. -/
def goto (k : Kernel) (pc : Option WaitPc) : Waits :=
  { s with kernel := k, pc := Function.update s.pc s.kernel.currentTask pc }

/-- The call of the current task returns. -/
def finish (ret status : Int) : Waits :=
  { s.goto s.kernel none with returned := ⟨s.kernel.currentTask, ret, status⟩ :: s.returned }

/-- The next access of `wait` to the current task. -/
def wait : Option Waits :=
  match s.pc s.kernel.currentTask with
  | none =>
      if s.kernel.current.childCount = 0 then some (s.finish (-1) 1)
      else some (s.goto s.kernel (some .checked))
  | some .checked =>
      some (s.goto (s.kernel.modify s.kernel.currentTask fun t => { t with waiting := true })
        (some .looping))
  | some .looping =>
      some (s.goto s.kernel (some (if s.kernel.current.waiting then .dozing else .left)))
  | some .dozing => (s.kernel.sleepThread 3).map fun k => s.goto k (some .looping)
  | some .left =>
      some (s.goto (s.kernel.modify s.kernel.currentTask fun t => { t with waiting := false })
        (some .cleared))
  | some .cleared =>
      some (s.goto (s.kernel.modify s.kernel.currentTask fun t => { t with child := 0 })
        (some .zeroed))
  | some .zeroed => some (s.finish s.kernel.current.child 0)

end Waits

inductive WaitOp
  | task (op : TaskOp)
  /-- The current task calls `wait`, or goes on with it. -/
  | wait

def waitStep (s : Waits) : WaitOp → Option Waits
  | .task op => (taskStep s.kernel op).map fun k => { s with kernel := k }
  | .wait => s.wait

def Waits.boot (dir readEip : Nat) : Waits :=
  ⟨Kernel.initTasking dir readEip, fun _ => none, []⟩

end OsThing.Sched
