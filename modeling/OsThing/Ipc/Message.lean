/-
Messages between tasks: `kern/kern/ipc/ipc.c`.

A message lives in a block of the kernel heap, and the queue of a task is the list of
blocks from its `msg_buf`.  Here `msg` is what memory shows at each address when it is
read as an `ipc_msg_t`, so that a link may lead anywhere, and `allocated` lists the
blocks that `kmalloc` has handed out and not got back.  Which free block `kmalloc`
picks next is up to the heap: the address comes with the call, and the call is not
possible if that block is in use.

Both functions run with interrupts off from the first read of a queue to the last
write, but for one point in `get_msg`: the head of the queue is read before.  That is
why `receive` gets the head as an argument.
-/
import OsThing.Task.Kernel

namespace OsThing.Ipc

open Chain Sched

/-- What a message says. -/
structure Payload where
  msgType : Nat
  sender : Nat
  seq : Nat
  data : Vector UInt8 4
  deriving DecidableEq

/-- `ipc_msg_t`: the link of the queue is a field of the message itself. -/
structure Msg extends Payload where
  next : Option Nat

structure State where
  kernel : Kernel
  msg : Nat → Msg
  allocated : List Nat
  /-- Ghost: what was sent to each task so far, and what it has received. -/
  sent : Nat → List Payload
  received : Nat → List Payload

namespace State

variable (s : State)

def next (a : Nat) : Option Nat := (s.msg a).next

/-- There is one address for each 32-bit number: no list is longer. -/
def addressSpace : Nat := 2 ^ 32

/-- `kmalloc( sizeof( ipc_msg_t ))`, which returns the block `a`, and the copy into it. -/
def newMsg (a : Nat) (buf : Msg) : Option State :=
  if a ∈ s.allocated ∨ addressSpace ≤ a then none
  else some { s with msg := Function.update s.msg a buf, allocated := a :: s.allocated }

/-- `kfree`: freeing what is not allocated panics. -/
def kfree (a : Nat) : Option State :=
  if a ∈ s.allocated then some { s with allocated := s.allocated.erase a } else none

def setNext (last a : Nat) : State :=
  { s with msg := Function.update s.msg last { s.msg last with next := some a } }

theorem next_setNext (last a : Nat) :
    (s.setNext last a).next = Function.update s.next last (some a) := by
  funext b
  by_cases hb : b = last
  · subst hb
    simp [next, setNext]
  · simp [next, setNext, hb]

theorem payload_setNext (last a b : Nat) :
    ((s.setNext last a).msg b).toPayload = (s.msg b).toPayload := by
  by_cases hb : b = last
  · subst hb
    simp [setNext]
  · simp [setNext, hb]

/-- The message at `a` is put at the end of the queue of `temp`. -/
def enqueue (temp a : Nat) : Option State :=
  match (s.kernel.task temp).msgBuf with
  | none => some { s with kernel := s.kernel.modify temp fun t => { t with msgBuf := some a } }
  | some ptr =>
      (advance s.next (fun b => (s.next b).isSome) addressSpace ptr).map fun last =>
        s.setNext last a

/-- The message counts as sent. -/
def count (temp : Nat) (payload : Payload) : State :=
  { s with
    kernel := s.kernel.modify temp fun t => { t with msgCount := t.msgCount + 1 }
    sent := Function.update s.sent temp (s.sent temp ++ [payload]) }

@[simp] theorem count_kernel (temp : Nat) (payload : Payload) : (s.count temp payload).kernel =
    s.kernel.modify temp fun t => { t with msgCount := t.msgCount + 1 } :=
  rfl

/-- `send_msg`: 1 if there is no such task. -/
def sendMsg (pid : Nat) (buf : Msg) (a : Nat) : Option (Nat × State) :=
  s.kernel.getPidTask pid >>= fun
    | none => some (1, s)
    | some temp => (s.newMsg a buf).bind fun s =>
        (s.enqueue temp a).map fun s => (0, s.count temp buf.toPayload)

/-- The message `m` leaves the queue of `temp`: what `get_msg` writes besides `buf`. -/
def dequeue (temp m : Nat) : State :=
  { s with
    kernel := s.kernel.modify temp fun t =>
      { t with msgCount := t.msgCount - 1, msgBuf := (s.msg m).next }
    received := Function.update s.received temp (s.received temp ++ [(s.msg m).toPayload]) }

@[simp] theorem dequeue_kernel (temp m : Nat) : (s.dequeue temp m).kernel =
    s.kernel.modify temp fun t => { t with msgCount := t.msgCount - 1, msgBuf := (s.msg m).next } :=
  rfl

/--
The body of the loop of `get_msg`, for the task `temp` and the head of its queue that
was read before: the return value, `buf`, and the state.  The loop never goes round,
since its body either breaks or sets `ret` to 1, and then `blocking && !ret` is false.
-/
def receive (temp : Nat) (msg : Option Nat) (buf : Msg) : Option (Nat × Msg × State) :=
  if (s.kernel.task temp).msgCount ≠ 0 then
    match msg, (s.kernel.task temp).msgBuf with
    | some m, some head => (s.kfree head).map fun s => (0, s.msg m, s.dequeue temp m)
    -- the panic on a null message, and the free of a null pointer
    | _, _ => none
  else
    (s.kernel.modify temp fun t => { t with status := .listening }).switchTask.map fun k =>
      (1, buf, { s with kernel := k })

/-- `get_msg` by the current task, not interrupted. -/
def getMsg (_blocking : Nat) (buf : Msg) : Option (Nat × Msg × State) :=
  s.receive s.kernel.currentTask s.kernel.current.msgBuf buf

end State

/-! ### A run of senders and receivers -/

inductive IpcOp
  /-- Any call of the scheduler: tasks are created, switched and removed. -/
  | task (op : TaskOp)
  | sendMsg (pid : Nat) (buf : Msg) (a : Nat)
  | getMsg (blocking : Nat) (buf : Msg)

def ipcStep (s : State) : IpcOp → Option State
  | .task op => (taskStep s.kernel op).map fun k => { s with kernel := k }
  | .sendMsg pid buf a => (s.sendMsg pid buf a).map Prod.snd
  | .getMsg blocking buf => (s.getMsg blocking buf).map fun r => r.2.2

/-- The state at boot, with whatever memory holds. -/
def State.boot (dir readEip : Nat) (garbage : Nat → Msg) : State where
  kernel := Kernel.initTasking dir readEip
  msg := garbage
  allocated := []
  sent := fun _ => []
  received := fun _ => []

end OsThing.Ipc
