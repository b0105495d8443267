/-
The programs of a system: the allocator of `user/lib/alloc.c`, and what the kernel does for it.

`sbrk` of the user library is one of the wrappers of `Kern/Wrappers`: its number goes into `eax`
and the parameter into `ebx`.  What the kernel calls then is the entry of its own table with this
number, on all the registers.  `regs` is what a program has in them at each of its calls.

`h_pos` and `h_size` are variables of a program.  `find_free` looks at memory and takes nothing from
the kernel, so that `find` says what it returns in each round, whatever lies in memory.  `fuel` is
how often a loop may go round, and `none` a call that has not come back by then.

A call of `malloc` is one step of a run.  What other tasks do in the meantime changes none of what
it looks at.  Threads share the variables of their program and do not call the allocator here.
-/
import OsThing.Kern.Wrappers
import OsThing.Task.Breaks
import OsThing.Task.Kernel

namespace OsThing.Process

open Breaks Syscall
open Sched (maxSignals)

/-! ### The kernel -/

/-- What the kernel keeps of breaks and regions, and the handlers that each task has installed. -/
structure System extends Breaks.Kernel where
  sighandle : Nat → Nat → UInt32

namespace System

variable (s : System)

/-- `signal`, of a number that is not signed. -/
def signal (signal handler : UInt32) : UInt32 × System :=
  if maxSignals ≤ signal.toNat then (0, s)
  else (handler, { s with
    sighandle := Function.update s.sighandle s.currentTask
      (Function.update (s.sighandle s.currentTask) signal.toNat handler) })

/-- `int 0x50`: what is returned for the registers, if the entry is one of the two functions that
are here. -/
def interrupt (regs : Registers) : Option (UInt32 × System) :=
  match syscalls[regs.eax.toNat]? with
  | some .sbrk =>
      let (ret, _, kernel) := s.toKernel.sbrk regs.ebx.toInt32
      some (ret, { s with toKernel := kernel })
  | some .signal => some (s.signal regs.ebx regs.ecx)
  | _ => none

end System

/-- `syscall_sbrk` of `user/lib/syscall.c`. -/
def syscallSbrk (inc : UInt32) (regs : Registers) (s : System) : Option (UInt32 × System) :=
  (userCalls.lookup .sbrk).bind fun num => s.interrupt { regs with eax := num, ebx := inc }

/-! ### The allocator -/

/-- The variables of the allocator, and the system that it calls.  `calls` counts the calls. -/
structure Caller where
  system : System
  hPos : UInt32
  hSize : UInt32
  calls : Nat

namespace Caller

variable (regs : Nat → Registers)

def sbrk (inc : UInt32) (c : Caller) : Option (UInt32 × Caller) :=
  (syscallSbrk inc (regs c.calls) c.system).map fun (ret, system) =>
    (ret, { c with system := system, calls := c.calls + 1 })

/-- `h_pos = sbrk( 0 )`, if there is no heap yet. -/
def place (c : Caller) : Option Caller :=
  if c.hPos = 0 then (c.sbrk regs 0).map fun (ret, c) => { c with hPos := ret } else some c

/-- The rest of `resize`. -/
def grow (c : Caller) : Option Caller :=
  if c.hSize ≠ 0 then (c.sbrk regs c.hSize).map fun (_, c) => { c with hSize := c.hSize * 2 }
  else (c.sbrk regs 8).map fun (_, c) => { c with hSize := 8 }

def resize (c : Caller) : Option Caller := (c.place regs).bind (grow regs)

/-- `while ( size + sizeof( mnode_t ) > h_size / 2 ) resize();` -/
def growFor (need : UInt32) : Nat → Caller → Option Caller
  | 0, _ => none
  | fuel + 1, c => if need > c.hSize / 2 then (c.resize regs).bind (growFor need fuel) else some c

/-- `while (( ret = find_free( h_pos, h_size, size + sizeof( mnode_t ))) == 0 ) resize();` -/
def findLoop (find : Nat → UInt32) : Nat → Caller → Option (UInt32 × Caller)
  | 0, _ => none
  | fuel + 1, c =>
      if find fuel = 0 then (c.resize regs).bind (findLoop find fuel) else some (find fuel, c)

def malloc (find : Nat → UInt32) (fuel : Nat) (size : Int32) (c : Caller) :
    Option (UInt32 × Caller) :=
  (growFor regs (size.toUInt32 + 4) fuel c).bind (findLoop regs find fuel)

end Caller

/-! ### A run -/

structure Program where
  hPos : UInt32
  hSize : UInt32
  /-- Ghost: the region that it was loaded into. -/
  loaded : Paging.Memmap

/-- With the variables that a call has left. -/
def Program.after (p : Program) (c : Caller) : Program :=
  { p with hPos := c.hPos, hSize := c.hSize }

/-- The system, and the program of each task that is a process. -/
structure State where
  system : System
  program : Nat → Program

inductive ProcessOp
  | createProcess (startAddr endAddr : UInt32)
  | createThread
  | switchTask (task : Nat)
  | malloc (fuel : Nat) (find : Nat → UInt32) (regs : Nat → Registers) (size : Int32)

/-- The system with a new task, which has no handlers. -/
def System.withTask (s : System) (kernel : Breaks.Kernel) : System where
  toKernel := kernel
  sighandle := Function.update s.sighandle s.tasks fun _ => 0

def processStep (s : State) : ProcessOp → Option State
  | .createProcess startAddr endAddr =>
      some { system := s.system.withTask (s.system.createProcess startAddr endAddr)
             program := Function.update s.program s.system.tasks ⟨0, 0, startAddr, endAddr⟩ }
  | .createThread => some { s with system := s.system.withTask s.system.createThread }
  | .switchTask task =>
      (breakStep s.system.toKernel (.switchTask task)).map fun kernel =>
        { s with system := { s.system with toKernel := kernel } }
  | .malloc fuel find regs size =>
      if s.system.current.origin = .process then
        let p := s.program s.system.currentTask
        (Caller.malloc regs find fuel size ⟨s.system, p.hPos, p.hSize, 0⟩).map fun (_, c) =>
          { system := c.system
            program := Function.update s.program s.system.currentTask (p.after c) }
      else none

/-- After `init_tasking`. -/
def State.boot : State := ⟨⟨.boot, fun _ _ => 0⟩, fun _ => ⟨0, 0, 0, 0⟩⟩

end OsThing.Process
