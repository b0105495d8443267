/-
The ways into ring 3: `switch_to_usermode` and `switch_to_usermode_jmp` of
`kern/kern/task/task.c`, and `jmp_to_signal` of `kern/kern/ipc/signal.c`.

All three make up the frame of an interrupt that came from ring 3, and leave it with `iret`.
What differs is the address at which the code goes on, and the stack: `jmp_to_signal` takes the
saved one of the task and pushes seven words, of which the last two are the return address and
the argument of the signal handler.

The operands that the compiler chooses are taken as the values that they stand for.
-/
import OsThing.Kern.InitTables

namespace OsThing.UserMode

open Ia32 InitTables Interrupts Ram

/-- `mov ax, 0x23` and the four data segments. -/
def userSegments (c : Cpu) : Cpu :=
  let c := c.setLow .eax 0x23
  loadSegments c (c.low .eax)

/-- The frame and the `iret`. -/
def leaveTo (addr : UInt32) (c : Cpu) : Cpu :=
  let c := c.setReg .eax (c.reg .esp)
  let c := (c.push 0x23).push (c.reg .eax)
  -- `pushf`, `popl %eax`, `orl $0x200, %eax`
  let c := (c.push c.eflags).pop .eax
  let c := c.setReg .eax (c.reg .eax ||| 0x200)
  (((c.push (c.reg .eax)).push 0x1b).push addr).iret

/-- `switch_to_usermode_jmp`. -/
def switchToUsermodeJmp (addr : UInt32) (c : Cpu) : Cpu := leaveTo addr (userSegments c.cli)

/-- `switch_to_usermode`, for a task with the kernel stack `stack`; `next` is the address behind
the `iret`. -/
def switchToUsermode (l : Layout) (stack next : UInt32) (c : Cpu) : Cpu :=
  switchToUsermodeJmp next { c with mem := l.setKernelStack stack c.mem }

/-- `jmp_to_signal`, for a task with the stack pointer `esp`. -/
def jmpToSignal (esp : UInt32) (_signal handle : UInt32) (c : Cpu) : Cpu :=
  let c := c.cli.setReg .esp esp
  let c := ((c.push 1).push (c.reg .eax)).push 1
  let c := (((c.push 2).push 3).push 4).push 5
  leaveTo handle (userSegments c)

end OsThing.UserMode
