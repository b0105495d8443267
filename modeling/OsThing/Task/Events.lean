/-
The calls of the scheduler, taken apart at `switch_task`.

`taskStep` makes a call in one step.  But `remove_task` and `sigreturn` turn interrupts on
again before the switch that follows them, and the timer can fire there.  Here the parts
of a call are events of their own, and so is the tick of the timer: a run of events is any
order of them, and every call is such a run.
-/
import OsThing.Task.Kernel

namespace OsThing.Sched

namespace Kernel

variable (k : Kernel)

/-- `handle_signal`, up to where the current task goes to sleep over its own signal. -/
def postSignal (task signal : Nat) : Option (Int × Kernel) :=
  if signal ≥ maxSignals then some (-1, k)
  else if (k.task task).sigQueued then some (-1, k)
  else if (k.task task).sighandle signal = 0 then (k.removeTask task).map fun k => (0, k)
  else some (0, k.modify task fun t => { t with sigQueued := true, signal := signal })

end Kernel

inductive SchedEvent
  /-- The timer interrupt, up to its `switch_task`. -/
  | tick
  | switchTask
  | createProcess (function : Nat)
  | createThread (function : Nat)
  /-- `remove_task`, which `exit_thread` and `kill_thread` call too. -/
  | removeTask (task : Nat)
  | postSignal (task signal : Nat)
  | signal (signal handler : Nat)
  /-- `sleep_thread`, up to its `switch_task`. -/
  | sleep (time : Nat)
  /-- `get_msg` without a message, up to its `switch_task`. -/
  | listen
  /-- `sigreturn`, up to its `switch_task`. -/
  | sigreturn
  /-- `exit`, up to its `exit_thread`. -/
  | finish

/-- Pointers to tasks lead to tasks that exist. -/
def eventStep (k : Kernel) : SchedEvent → Option Kernel
  | .tick => some { k with tick := (k.tick + 1) % 2 ^ 32 }
  | .switchTask => k.switchTask
  | .createProcess function => k.createProcess function
  | .createThread function => (k.createThread function).map Prod.snd
  | .removeTask task => if task < k.count then k.removeTask task else none
  | .postSignal task signal =>
      if task < k.count then (k.postSignal task signal).map Prod.snd else none
  | .signal signal handler => some (k.setSignal signal handler).2
  | .sleep time => some (k.modify k.currentTask fun task =>
      { task with sleep := time, status := .sleeping })
  | .listen => some (k.modify k.currentTask fun task => { task with status := .listening })
  | .sigreturn => some (k.modify k.currentTask fun task =>
      { task with inSig := false, eip := task.oldEip })
  | .finish => some (k.modify k.currentTask fun task => { task with finished := true })

/-! ### With a clock -/

/-- The kernel, and the tick of its last switch, which is 0 before the first one. -/
structure Clocked where
  kernel : Kernel
  switched : Nat

def clockStep (s : Clocked) (e : SchedEvent) : Option Clocked :=
  (eventStep s.kernel e).map fun k =>
    match e with
    | .switchTask => ⟨k, s.kernel.tick⟩
    | _ => ⟨k, s.switched⟩

/-- The timer runs before there are tasks: `init_tasking` finds any tick. -/
def Clocked.boot (dir readEip : Nat) (tick : UInt32) : Clocked :=
  ⟨{ Kernel.initTasking dir readEip with tick := tick.toNat }, 0⟩

end OsThing.Sched
