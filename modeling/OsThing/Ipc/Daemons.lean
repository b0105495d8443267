/-
A daemon that answers messages: `misc_daemon_2` of `kern/daemons.c`.

The daemon is one task among others, and between its calls any of them may run.  So a run is
steps of the daemon and calls of the others in any order, where the others do not receive as
the daemon.  Of the loop body the part that answers is here; what is printed, the program that
message 234 starts and the exit at message 123 are calls like those of the others.

`reply` lies on the stack of the daemon.  Of its fields only two are set, and the others hold
what they held before: the link is `link` all the time.
-/
import OsThing.Ipc.Message
import OsThing.Lib.Runs

namespace OsThing.Ipc

open Sched Runs

def msgStatus : Nat := 1
def msgAck : Nat := 2
def msgNoBlock : Nat := 3

/-- The state, with the message that the daemon is about to answer. -/
structure Daemon where
  state : State
  request : Option Payload
  /-- Ghost: the requests that were answered, and the task that each answer went to. -/
  answered : List (Payload × Option Nat)

inductive DaemonOp
  | other (op : IpcOp)
  | getMsg (buf : Msg)
  /-- The answer, with what is left in the fields that are not set, and the new block. -/
  | sendMsg (seq : Nat) (data : Vector UInt8 4) (a : Nat)

/-- The call takes a message from the queue of the current task. -/
def IpcOp.receives : IpcOp → Bool
  | .getMsg .. => true
  | _ => false

namespace Daemon

variable (d : Nat) (link : Option Nat) (s : Daemon)

def other (op : IpcOp) : Option Daemon :=
  if s.state.kernel.currentTask = d ∧ op.receives then none
  else (ipcStep s.state op).map fun state => { s with state := state }

/-- `get_msg( MSG_NO_BLOCK, &msg )`, and whether the message is one to be answered. -/
def getMsg (buf : Msg) : Option Daemon :=
  if s.state.kernel.currentTask = d ∧ s.request = none then
    (s.state.getMsg msgNoBlock buf).map fun (ret, msg, state) =>
      { s with
        state := state
        request := if ret = 0 ∧ msg.msgType = msgStatus then some msg.toPayload else none }
  else none

/-- The reply to a message. -/
def reply (seq : Nat) (data : Vector UInt8 4) : Msg :=
  { msgType := msgAck, sender := (s.state.kernel.task d).id, seq := seq, data := data, next := link }

/-- `send_msg( msg.sender, &reply )`. -/
def sendMsg (seq : Nat) (data : Vector UInt8 4) (a : Nat) : Option Daemon :=
  if s.state.kernel.currentTask = d then
    s.request.bind fun msg =>
      (s.state.sendMsg msg.sender (s.reply d link seq data) a).map fun (_, state) =>
        { state := state
          request := none
          answered := s.answered ++ [(msg, (s.state.kernel.getPidTask msg.sender).join)] }
  else none

end Daemon

/-- A step of the task `d`, which is the daemon, or a call of another one. -/
def daemonStep (d : Nat) (link : Option Nat) (s : Daemon) : DaemonOp → Option Daemon
  | .other op => s.other d op
  | .getMsg buf => s.getMsg d buf
  | .sendMsg seq data a => s.sendMsg d link seq data a

def Daemon.boot (dir readEip : Nat) (garbage : Nat → Msg) : Daemon :=
  ⟨.boot dir readEip garbage, none, []⟩

end OsThing.Ipc
