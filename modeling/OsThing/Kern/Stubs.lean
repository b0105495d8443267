/-
The interrupt stubs, `kern/kern/idt.s`, and what a handler in C sees of them.

A stub pushes an error code if the processor has pushed none, and the number of the interrupt;
the common part pushes the registers and the data segment, and calls `isr_handler` or
`irq_handler`.  What lies on the stack then is the `registers_t` of `kern/include/isr.h`, which
both take by value: so what a handler stores through the pointer that it is given is popped
into the registers afterwards.

A handler is any function on the state of the processor.  What is asked of it is the calling
convention, `Returns`, where `f` is what it makes of the `registers_t`.
-/
import OsThing.Lib.Ia32

namespace OsThing.Interrupts

open Ia32 Ram Stack

/-- `isr0` to `isr80` and `irq0` to `irq15`. -/
inductive Stub
  | isr (number : UInt8)
  | irq (line : UInt8)
  deriving DecidableEq, Repr

/-- The number that the stub pushes; both stubs push it as a byte below 128. -/
def Stub.number : Stub → UInt8
  | .isr number => number
  | .irq line => 32 + line

/-- The stubs that are an `ISR_ERROR`. -/
def Stub.hasError : Stub → Bool
  | .isr number => [8, 10, 11, 12, 13, 14].contains number
  | .irq _ => false

/-- `registers_t`. -/
structure Registers where
  ds : UInt32
  edi : UInt32
  esi : UInt32
  ebp : UInt32
  esp : UInt32
  ebx : UInt32
  edx : UInt32
  ecx : UInt32
  eax : UInt32
  intNo : UInt32
  errCode : UInt32
  eip : UInt32
  cs : UInt32
  eflags : UInt32
  useresp : UInt32
  ss : UInt32
  deriving DecidableEq, Repr

namespace Registers

variable (r : Registers)

/-- The words of the structure, in the order in which they lie in memory. -/
def words : List UInt32 :=
  [r.ds, r.edi, r.esi, r.ebp, r.esp, r.ebx, r.edx, r.ecx, r.eax, r.intNo, r.errCode, r.eip,
    r.cs, r.eflags, r.useresp, r.ss]

/-- The structure at an address. -/
def load (m : Memory) (a : UInt32) : Registers where
  ds := word m a
  edi := word m (a + 4)
  esi := word m (a + 8)
  ebp := word m (a + 12)
  esp := word m (a + 16)
  ebx := word m (a + 20)
  edx := word m (a + 24)
  ecx := word m (a + 28)
  eax := word m (a + 32)
  intNo := word m (a + 36)
  errCode := word m (a + 40)
  eip := word m (a + 44)
  cs := word m (a + 48)
  eflags := word m (a + 52)
  useresp := word m (a + 56)
  ss := word m (a + 60)

/-- The general registers of the structure. -/
def reg : Reg → UInt32
  | .eax => r.eax
  | .ecx => r.ecx
  | .edx => r.edx
  | .ebx => r.ebx
  | .esp => r.esp
  | .ebp => r.ebp
  | .esi => r.esi
  | .edi => r.edi

end Registers

/-! ### The stubs -/

/-- The data segments of the kernel: `mov ds, ax` and so on. -/
def loadSegments (c : Cpu) (v : UInt16) : Cpu :=
  (((c.setSeg .ds v).setSeg .es v).setSeg .fs v).setSeg .gs v

/-- A common stub up to the call. -/
def enterCommon (c : Cpu) : Cpu :=
  let c := c.pusha
  let c := c.setLow .eax (c.seg .ds)
  let c := c.push (c.reg .eax)
  let c := c.setLow .eax 0x10
  loadSegments c (c.low .eax)

/-- A common stub after the call. -/
def leaveCommon (c : Cpu) : Cpu :=
  let c := c.pop .ebx
  let c := loadSegments c (c.low .ebx)
  ((c.popa.drop 8).sti).iret

namespace Stub

variable (stub : Stub)

/-- What a stub does before it jumps to the common part. -/
def begin (c : Cpu) : Cpu :=
  let c := c.cli
  let c := if stub.hasError then c else c.push 0
  c.push stub.number.toUInt32

/-- The state in which the C function begins, `ret` being the address behind the call. -/
def called (ret : UInt32) (c : Cpu) : Cpu := (enterCommon (stub.begin c)).push ret

/-- A stub from its first instruction to the one that is executed after it. -/
def run (ret : UInt32) (handler : Cpu → Cpu) (c : Cpu) : Cpu :=
  leaveCommon (handler (stub.called ret c))

end Stub

/-- The `registers_t` that a C function finds as its argument. -/
def argument (c : Cpu) : Registers := .load c.mem (c.reg .esp + 4)

/-- A function that was called in `c` has returned in `c'`: the return address is taken, and
the argument holds what `f` makes of it. -/
structure Returns (f : Registers → Registers) (c c' : Cpu) : Prop where
  esp : c'.reg .esp = c.reg .esp + 4
  cs : c'.seg .cs = c.seg .cs
  ss : c'.seg .ss = c.seg .ss
  argument : Registers.load c'.mem (c'.reg .esp) = f (argument c)

/-! ### The interrupted code -/

/-- The words above the frame: the ones that the processor pushed if it changed the stack, else
the top of the stack of the code that was interrupted. -/
def aboveFrame (c : Cpu) : UInt32 × UInt32 :=
  if c.cpl = 0 then (c.top, (c.drop 4).top) else (c.reg .esp, (c.seg .ss).toUInt32)

/-- What the structure says of the code that was interrupted in `c`. -/
def interrupted (stub : Stub) (tss : Tss) (error : Option UInt32) (c : Cpu) : Registers where
  ds := (c.reg .eax &&& 0xffff0000) ||| (c.seg .ds).toUInt32
  edi := c.reg .edi
  esi := c.reg .esi
  ebp := c.reg .ebp
  esp := below ((c.onStack tss).reg .esp) (5 + c.outer.length)
  ebx := c.reg .ebx
  edx := c.reg .edx
  ecx := c.reg .ecx
  eax := c.reg .eax
  intNo := stub.number.toUInt32
  errCode := error.getD 0
  eip := c.eip
  cs := (c.seg .cs).toUInt32
  eflags := c.eflags
  useresp := (aboveFrame c).1
  ss := (aboveFrame c).2

/-- The code that was interrupted in `c` goes on in `c'` as the structure says.  The stack
pointer and the stack segment are taken from it only if the stack was changed. -/
structure Resumed (r : Registers) (c c' : Cpu) : Prop where
  reg : ∀ x, x ≠ .esp → c'.reg x = r.reg x
  esp : c'.reg .esp = if c.cpl = 0 then c.reg .esp else r.useresp
  cs : c'.seg .cs = r.cs.toUInt16
  ss : c'.seg .ss = if c.cpl = 0 then c.seg .ss else r.ss.toUInt16
  data : ∀ s, s ≠ .cs → s ≠ .ss → c'.seg s = r.ds.toUInt16
  eip : c'.eip = r.eip
  eflags : c'.eflags = r.eflags

/-! ### What is called -/

/-- `isr_handler`: a handler gets a pointer to the registers. -/
def isrHandler (handlers : Nat → Option (Registers → Registers)) (regs : Registers) : Registers :=
  match handlers regs.intNo.toNat with
  | some handler => handler regs
  | none => regs

end OsThing.Interrupts
