/-
`get_msg` with the point at which it can be interrupted.

Between reading the head of the queue and turning interrupts off again, `get_msg` can be
preempted: the timer fires, other tasks run and send, and later the scheduler comes
back.  So a call of it is two steps, `capture` and `finish`, and every task remembers
the head that it has captured.  `send_msg` runs with interrupts off and is one step.

A task that was preempted does nothing else in between, but a handler for a signal may
run in its place, which is why no other step asks whether the current task is in the
middle of `get_msg`.
-/
import OsThing.Ipc.Message
import OsThing.Lib.Runs

namespace OsThing.Ipc

open Sched Runs

/-- For each task, the head it has captured if it is in the middle of `get_msg`. -/
structure Preempted where
  state : State
  captured : Nat → Option (Option Nat)

namespace Preempted

variable (s : Preempted)

/-- `ipc_msg_t *msg = current_task->msg_buf`. -/
def capture : Option Preempted :=
  if (s.captured s.state.kernel.currentTask).isSome then none
  else some ⟨s.state, Function.update s.captured s.state.kernel.currentTask
    (some s.state.kernel.current.msgBuf)⟩

/-- The part of `get_msg` that runs with interrupts off, with the head captured before. -/
def finish (buf : Msg) : Option (Nat × Msg × Preempted) :=
  (s.captured s.state.kernel.currentTask).bind fun head =>
    (s.state.receive s.state.kernel.currentTask head buf).map fun (ret, buf, state) =>
      (ret, buf, ⟨state, Function.update s.captured s.state.kernel.currentTask none⟩)

end Preempted

/-- What happens next.  Messages are sent with a null `next` field. -/
inductive PreemptOp
  | task (op : TaskOp)
  | sendMsg (pid : Nat) (payload : Payload) (a : Nat)
  | capture
  | finish (buf : Msg)

def preemptStep (s : Preempted) : PreemptOp → Option Preempted
  | .task op => (taskStep s.state.kernel op).map fun k =>
      { s with state := { s.state with kernel := k } }
  | .sendMsg pid payload a => (s.state.sendMsg pid ⟨payload, none⟩ a).map fun r =>
      { s with state := r.2 }
  | .capture => s.capture
  | .finish buf => (s.finish buf).map fun r => r.2.2

def Preempted.boot (dir readEip : Nat) (garbage : Nat → Msg) : Preempted :=
  ⟨State.boot dir readEip garbage, fun _ => none⟩

/-! ### The whole call

`capture` and `finish` are what other tasks see of `get_msg`.  The task itself sees the
loop around the second part, and that the others run each time it gives up the processor:
what they do then comes with the call, as runs of any machine on the same state. -/

section Call

variable {ι : Type*} (others : State → ι → Option State)

/-- The others run, until the task `temp` is selected again. -/
def letRun (temp : Nat) (s : State) (run : List ι) : Option State :=
  (runAll others s run).filter fun s => s.kernel.currentTask = temp

/-- The loop of `get_msg`: the runs of the others are those after each `switch_task`. -/
def getMsgLoop (blocking temp : Nat) (msg : Option Nat) :
    Msg → State → List (List ι) → Option (Nat × Msg × State)
  | _, _, [] => none
  | buf, s, run :: runs => (s.receive temp msg buf).bind fun (ret, buf, s) =>
      if ret = 0 then some (ret, buf, s) -- the `break`
      else (letRun others temp s run).bind fun s =>
        -- `while ( blocking && !ret )`
        if blocking ≠ 0 ∧ ret = 0 then getMsgLoop blocking temp msg buf s runs
        else some (ret, buf, s)

/-- `get_msg` by the current task, with a run of the others after the head is read. -/
def getMsgCall (blocking : Nat) (buf : Msg) (s : State) (run : List ι) (runs : List (List ι)) :
    Option (Nat × Msg × State) :=
  (letRun others s.kernel.currentTask s run).bind fun s' =>
    getMsgLoop others blocking s.kernel.currentTask s.kernel.current.msgBuf buf s' runs

end Call

end OsThing.Ipc
