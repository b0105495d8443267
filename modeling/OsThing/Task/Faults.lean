/-
Faults of tasks: `signal_bad_task` of `kern/kern/isr.c`, and the count of errors that
`switch_task` takes back.

The handlers of division by zero, of invalid opcodes and of protection faults end with
`signal_bad_task`, and a page fault that nothing can be mapped for comes there too.  Two errors
are counted for each, and one is taken back by a switch, unless the switch delivers a signal:
`jmp_to_signal` does not come back to the line that counts.

As in the other runs the parts of a call are events, so `signal_bad_task` goes up to where
`handle_signal` lets the task sleep.
-/
import OsThing.Task.Events

namespace OsThing.Sched

/-- `error_threshold`. -/
def errorThreshold : Nat := 10

/-- The kernel, and `isr_error_count`. -/
structure Counted where
  kernel : Kernel
  errors : Nat

/-- `switch_task`, up to where the signal is looked at. -/
def Kernel.chosen (k : Kernel) : Option Kernel :=
  let k := k.modify k.currentTask fun task => { task with eip := k.readEip }
  (Kernel.wakeLoop (k.sleepLeft + 1) k (k.current.next.getD k.taskQueue)).map fun (k, temp) =>
    (k.charge temp).start

namespace Counted

variable (s : Counted)

/-- `switch_task`, with its line about `isr_error_count`. -/
def switchTask : Option Counted :=
  s.kernel.chosen.map fun k =>
    { kernel := k.enter, errors := if k.pendingHandler ≠ 0 then s.errors else s.errors - 1 }

/-- What becomes of the kernel. -/
inductive Outcome
  | panics
  | goes (s : Counted)

/-- A panic stops everything. -/
def Outcome.state? : Outcome → Option Counted
  | .panics => none
  | .goes s => some s

/-- `signal_bad_task`. -/
def signalBadTask (signal : Nat) : Option Outcome :=
  let errors := s.errors + 2
  if errors ≥ errorThreshold then some .panics
  else if s.kernel.current.id = 1 then some .panics
  else (s.kernel.postSignal s.kernel.currentTask signal).map fun (_, k) => .goes ⟨k, errors⟩

/-- An event of the scheduler, with the count. -/
def sched : SchedEvent → Option Counted
  | .switchTask => s.switchTask
  | e => (eventStep s.kernel e).map fun k => { s with kernel := k }

end Counted

inductive FaultEvent
  | sched (e : SchedEvent)
  /-- `signal_bad_task`, up to the `switch_task` of `handle_signal`. -/
  | fault (signal : Nat)

def faultStep (s : Counted) : FaultEvent → Option Counted
  | .sched e => s.sched e
  | .fault signal => (s.signalBadTask signal).bind Counted.Outcome.state?

/-- `init_tasking`: no errors so far. -/
def Counted.boot (dir readEip : Nat) : Counted := ⟨Kernel.initTasking dir readEip, 0⟩

end OsThing.Sched
