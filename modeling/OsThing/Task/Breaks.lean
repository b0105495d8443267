/-
The break of a task: `sbrk`, and what `create_process` and `create_thread` start it with, in
`kern/kern/task/task.c`.

The end of the break is kept twice, in `brk` of the task and in `end` of a region.  A process
gets a region of its own and the end of it as its break.  A thread gets the region of the task
that makes it, and its break is what `memset` leaves.

`memmap_create` sets `next` to null and nothing sets it again, so that the list of a task is
one region at most, and `maps` is the number of it here, in the order of creation.
-/
import OsThing.Mem.Memmap
import Mathlib.Data.Option.Basic

namespace OsThing.Breaks

open Paging

/-- Which function made a task.  The kernel does not keep this. -/
inductive Origin
  | boot | process | thread
  deriving DecidableEq

/-- What a `task_t` has of this. -/
structure Task where
  maps : Option Nat
  brk : UInt32
  origin : Origin

structure Kernel where
  map : Nat → Memmap
  maps : Nat
  task : Nat → Task
  tasks : Nat
  currentTask : Nat

namespace Kernel

variable (k : Kernel)

def current : Task := k.task k.currentTask

def addTask (new : Task) : Kernel :=
  { k with task := Function.update k.task k.tasks new, tasks := k.tasks + 1 }

/-- `create_process`, with the `memmap_create` in it. -/
def createProcess (startAddr endAddr : UInt32) : Kernel :=
  { k.addTask ⟨some k.maps, endAddr, .process⟩ with
    map := Function.update k.map k.maps ⟨startAddr, endAddr⟩
    maps := k.maps + 1 }

/-- `create_thread`. -/
def createThread : Kernel := k.addTask ⟨k.current.maps, 0, .thread⟩

/-- `memmaps_check`, for the list that starts at `map`. -/
def memmapsCheck (map : Option Nat) (address : UInt32) : Option Nat :=
  map.filter fun m => memmapCheck (k.map m) address

/-- `sbrk`: what it returns, and the map that it writes to, or null. -/
def sbrk (inc : Int32) : UInt32 × Option Nat × Kernel :=
  let map := k.memmapsCheck k.current.maps k.current.brk
  let ret := k.current.brk
  let k := { k with
    task := Function.update k.task k.currentTask
      { k.current with brk := k.current.brk + inc.toUInt32 } }
  let k := map.elim k fun m =>
    { k with map := Function.update k.map m { k.map m with stop := (k.map m).stop + inc.toUInt32 } }
  (ret, map, k)

end Kernel

/-- This is the `memmaps_check` of `Mem/Memmap`, on the list that there is. -/
theorem memmapsCheck_eq (k : Kernel) (map : Option Nat) (address : UInt32) :
    (k.memmapsCheck map address).map k.map =
      Paging.memmapsCheck (map.toList.map k.map) address := by
  cases map with
  | none => rfl
  | some m =>
      unfold Kernel.memmapsCheck
      rw [Option.filter_some, Option.toList_some, List.map_singleton, Paging.memmapsCheck,
        Paging.memmapsCheck]
      split <;> rfl

/-! ### A run -/

/-- After `init_tasking`. -/
def Kernel.boot : Kernel := ⟨fun _ => ⟨0, 0⟩, 0, fun _ => ⟨none, 0, .boot⟩, 1, 0⟩

inductive BreakOp
  | createProcess (startAddr endAddr : UInt32)
  | createThread
  | switchTask (task : Nat)
  | sbrk (inc : Int32)

/-- What the current task does next, or that another one becomes the current one. -/
def breakStep (k : Kernel) : BreakOp → Option Kernel
  | .createProcess startAddr endAddr => some (k.createProcess startAddr endAddr)
  | .createThread => some k.createThread
  | .switchTask task => if task < k.tasks then some { k with currentTask := task } else none
  | .sbrk inc => some (k.sbrk inc).2.2

end OsThing.Breaks
