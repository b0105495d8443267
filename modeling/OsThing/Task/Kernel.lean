/-
Tasks, the task queue and signals: `kern/kern/task/task.c` and `kern/kern/ipc/signal.c`.

A `task_t` is never freed, so a pointer to one is the number of the task in the order
of creation, and a pointer to a removed task still reads that task.  The queue is the
list from `task_queue` along the `next` links.  Everything here runs with interrupts
off, so one call is one step; a call is `none` when it never comes back.

Of a task the model keeps what the scheduler, the signals and the messages read or
write.  Registers are kept as far as control goes: `eip` in the task, and in `pc` the
address to which `switch_task` last gave control, whose own address inside
`switch_task` is `readEip`.
-/
import OsThing.Lib.Chain
import Mathlib.Algebra.BigOperators.Group.List.Basic
import Mathlib.Algebra.GroupWithZero.Nat

namespace OsThing.Sched

open Chain

inductive Status
  | running | sleeping | listening | sending
  deriving DecidableEq

def maxSignals : Nat := 32

/-- `task_t`.  A handler is the address of its code, and 0 is none. -/
structure Task where
  id : Nat
  tid : Nat
  eip : Nat
  oldEip : Nat
  next : Option Nat
  parent : Nat
  dir : Nat
  sleep : Nat
  status : Status
  time : Nat
  lastTime : Nat
  finished : Bool
  waiting : Bool
  child : Nat
  childCount : Nat
  sighandle : Nat → Nat
  sigQueued : Bool
  inSig : Bool
  signal : Nat
  msgBuf : Option Nat
  msgCount : Nat

structure Kernel where
  task : Nat → Task
  count : Nat
  nextPid : Nat
  taskQueue : Nat
  currentTask : Nat
  lastTask : Nat
  currentDir : Nat
  tick : Nat
  readEip : Nat
  pc : Nat
  /-- Ghost: every task `remove_task` was ever called on. -/
  removed : List Nat

namespace Kernel

variable (k : Kernel)

def next (t : Nat) : Option Nat := (k.task t).next

def set (t : Nat) (new : Task) : Kernel := { k with task := Function.update k.task t new }

/-- A store into some fields of a task. -/
def modify (t : Nat) (f : Task → Task) : Kernel := k.set t (f (k.task t))

@[simp] theorem modify_task_self (t : Nat) (f : Task → Task) :
    (k.modify t f).task t = f (k.task t) :=
  Function.update_self ..

theorem modify_task_ne {t u : Nat} (h : u ≠ t) (f : Task → Task) :
    (k.modify t f).task u = k.task u :=
  Function.update_of_ne h ..

def current : Task := k.task k.currentTask

/-- The kernel right after `init_tasking`: one task, which is its own parent. -/
def initTasking (dir readEip : Nat) : Kernel where
  task := fun _ =>
    { id := 1, tid := 0, eip := 0, oldEip := 0, next := none, parent := 0, dir := dir,
      sleep := 0, status := .running, time := 0, lastTime := 0, finished := false,
      waiting := false, child := 0, childCount := 0, sighandle := fun _ => 0,
      sigQueued := false, inSig := false, signal := 0, msgBuf := none, msgCount := 0 }
  count := 1
  nextPid := 2
  taskQueue := 0
  currentTask := 0
  lastTask := 0
  currentDir := dir
  tick := 0
  readEip := readEip
  pc := 0
  removed := []

/-- `get_pid_task`: the task of the queue that has this pid, or null. -/
def getPidTask (pid : Nat) : Option (Option Nat) :=
  seek k.next (fun t => (k.task t).id = pid) k.count (some k.taskQueue)

/-! ### The scheduler -/

/-- The ticks all tasks together still want to sleep. -/
def sleepLeft : Nat := ((List.range k.count).map fun t => (k.task t).sleep).sum

/-- The wake-up loop of `switch_task`; every task it passes has one tick less to sleep. -/
def wakeLoop : Nat → Kernel → Nat → Option (Kernel × Nat)
  | 0, _, _ => none
  | fuel + 1, k, temp =>
      if (k.task temp).sleep ≠ 0 then
        let k := k.modify temp fun task => { task with sleep := task.sleep - 1 }
        wakeLoop fuel k ((k.next temp).getD k.taskQueue)
      else some (k, temp)

/-- The chosen task becomes the current one, and the last one is charged its time. -/
def charge (temp : Nat) : Kernel :=
  { k.modify k.lastTask fun task =>
      { task with time := (task.time + (k.tick + (2 ^ 32 - task.lastTime))) % 2 ^ 32 } with
    currentTask := temp }

def start : Kernel :=
  { k.modify k.currentTask fun task => { task with lastTime := k.tick, status := .running } with
    lastTask := k.currentTask }

/-- The handler of the signal that is taken now; 0 if none is. -/
def pendingHandler : Nat :=
  if k.current.sigQueued ∧ ¬ k.current.inSig then k.current.sighandle k.current.signal else 0

/--
Where control goes at the end of `switch_task`: to the signal handler, from which
`jmp_to_signal` does not come back, or to the saved `eip` in the page directory of the
task.
-/
def enter : Kernel :=
  if k.pendingHandler ≠ 0 then
    { k.modify k.currentTask fun task =>
        { task with sigQueued := false, inSig := true, oldEip := task.eip } with
      pc := k.pendingHandler }
  else { k with currentDir := k.current.dir, pc := k.current.eip }

/-- `switch_task`: the circular walk from the current task to one that is awake. -/
def switchTask : Option Kernel :=
  let k := k.modify k.currentTask fun task => { task with eip := k.readEip }
  (wakeLoop (k.sleepLeft + 1) k (k.current.next.getD k.taskQueue)).map fun (k, temp) =>
    ((k.charge temp).start).enter

/-- The timer interrupt. -/
def timerCall : Option Kernel := { k with tick := (k.tick + 1) % 2 ^ 32 }.switchTask

/-- `sleep_thread`. -/
def sleepThread (time : Nat) : Option Kernel :=
  (k.modify k.currentTask fun task =>
    { task with sleep := time, status := .sleeping }).switchTask

/-! ### Creating tasks -/

/-- `add_task`: at the end of the queue. -/
def addTask (task : Nat) : Option Kernel :=
  (advance k.next (fun t => (k.next t).isSome) k.count k.taskQueue).map fun temp =>
    k.modify temp fun last => { last with next := some task }

/-- `kmalloc`, `memset` and `init_task`: a cleared task with its pid, parent and directory. -/
def initTask : Nat × Kernel :=
  let new : Task :=
    { id := k.nextPid, tid := 0, eip := 0, oldEip := 0, next := none, parent := k.currentTask,
      dir := k.currentDir, sleep := 0, status := .running, time := 0, lastTime := k.tick,
      finished := false, waiting := false, child := 0, childCount := 0,
      sighandle := fun _ => 0, sigQueued := false, inSig := false, signal := 0,
      msgBuf := none, msgCount := 0 }
  (k.count, { k.set k.count new with count := k.count + 1, nextPid := k.nextPid + 1 })

/-- `create_process`, without the stack it builds.  It has no return value. -/
def createProcess (function : Nat) : Option Kernel :=
  let (new, k) := k.initTask
  let k := k.modify new fun task => { task with eip := function, tid := 0 }
  (k.addTask new).map fun k =>
    k.modify k.currentTask fun task => { task with childCount := task.childCount + 1 }

/-- `create_thread`: the pid of the new thread. -/
def createThread (function : Nat) : Option (Nat × Kernel) :=
  let (new, k) := k.initTask
  let k := k.modify new fun task => { task with eip := function }
  (k.addTask new).map fun k =>
    let k := k.modify k.currentTask fun task => { task with childCount := task.childCount + 1 }
    let k := k.modify new fun task => { task with tid := k.current.tid }
    let k := k.modify k.currentTask fun task => { task with tid := task.tid + 1 }
    ((k.task new).id, k)

/-! ### Removing tasks -/

/-- The second half of `remove_task`: a waiting parent is told, and has one child less. -/
def noticeParent (task : Nat) : Kernel :=
  let parent := (k.task task).parent
  let k :=
    if (k.task parent).waiting then
      k.modify parent fun p => { p with waiting := false, child := (k.task task).id }
    else k
  if (k.task parent).childCount ≠ 0 then
    k.modify parent fun p => { p with childCount := p.childCount - 1 }
  else k

/--
`remove_task`.  The walk stops before the task or at the end of the queue, and the node
where it stopped gets the link of the task in either case.
-/
def removeTask (task : Nat) : Option Kernel :=
  (advance k.next (fun t => (k.next t).isSome && k.next t ≠ some task) k.count
    k.taskQueue).map fun move =>
      let k' := (k.modify move fun before => { before with next := k.next task }).noticeParent task
      { k' with removed := task :: k'.removed }

/-- `exit_thread`. -/
def exitThread : Option Kernel := (k.removeTask k.currentTask).bind switchTask

/-- `exit`. -/
def exit : Option Kernel :=
  (k.modify k.currentTask fun task => { task with finished := true }).exitThread

/-- `kill_thread`. -/
def killThread (pid : Nat) : Option (Nat × Kernel) :=
  k.getPidTask pid >>= fun
    | none => some (1, k)
    | some temp => (k.removeTask temp).map fun k => (0, k)

/-! ### Signals -/

/-- `handle_signal`: without a handler the task is removed, and goes on running if it is
the current one. -/
def handleSignal (task signal : Nat) : Option (Int × Kernel) :=
  if signal ≥ maxSignals then some (-1, k)
  else if (k.task task).sigQueued then some (-1, k)
  else if (k.task task).sighandle signal = 0 then (k.removeTask task).map fun k => (0, k)
  else
    let k := k.modify task fun t => { t with sigQueued := true, signal := signal }
    if k.currentTask = task then (k.sleepThread 1).map fun k => (0, k) else some (0, k)

/-- `kill`. -/
def kill (pid signal : Nat) : Option (Int × Kernel) :=
  k.getPidTask pid >>= fun
    | none => some (-1, k)
    | some p => k.handleSignal p signal

/-- `signal`: the current task installs a handler, or clears it. -/
def setSignal (signal handler : Nat) : Nat × Kernel :=
  if signal ≥ maxSignals then (0, k)
  else (handler, k.modify k.currentTask fun task =>
    { task with sighandle := Function.update task.sighandle signal handler })

/-- `sigreturn`. -/
def sigreturn : Option Kernel :=
  (k.modify k.currentTask fun task => { task with inSig := false, eip := task.oldEip }).switchTask

end Kernel

/-! ### A run of the kernel -/

/-- What the running task or the timer does next. -/
inductive TaskOp
  | createProcess (function : Nat)
  | createThread (function : Nat)
  | killThread (pid : Nat)
  | kill (pid signal : Nat)
  | exit
  | sleepThread (time : Nat)
  | signal (signal handler : Nat)
  | sigreturn
  | timer

def taskStep (k : Kernel) : TaskOp → Option Kernel
  | .createProcess function => k.createProcess function
  | .createThread function => (k.createThread function).map Prod.snd
  | .killThread pid => (k.killThread pid).map Prod.snd
  | .kill pid signal => (k.kill pid signal).map Prod.snd
  | .exit => k.exit
  | .sleepThread time => k.sleepThread time
  | .signal signal handler => some (k.setSignal signal handler).2
  | .sigreturn => k.sigreturn
  | .timer => k.timerCall

end OsThing.Sched
