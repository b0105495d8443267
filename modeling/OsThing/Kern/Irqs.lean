/-
The lines of the interrupt controllers: the calls of `outb` in `init_idt` of
`kern/kern/init_tables.c`, and `irq_handler` in `kern/kern/isr.c`.

A step is a device that asks, the processor that takes an interrupt, the C function that the stub
calls, up to the handler, or a change of the interrupt flag outside of it.  A handler is not in
it: it may return, it may go on with another task, as the timer's does, or never come to an end.
No handler writes to the controllers.
-/
import OsThing.Kern.InitTables
import OsThing.Lib.Pic

namespace OsThing.Irq

open InitTables Interrupts Pic

/-- "remap irq table" -/
def remapCalls : List (UInt16 × UInt8) :=
  [(0x20, 0x11), (0xa0, 0x11), (0x21, 0x20), (0xa1, 0x28), (0x21, 0x04), (0xa1, 0x02),
    (0x21, 0x01), (0xa1, 0x01), (0x21, 0x0), (0xa1, 0x0)]

def remap (pics : Pair) : Pair := remapCalls.foldl (fun pics (port, v) => pics.outb port v) pics

/-- `irq_handler` up to the handler. -/
def irqHandler (intNo : UInt32) (pics : Pair) : Pair :=
  let pics := if intNo ≥ 40 then pics.outb 0xa0 0x20 else pics
  pics.outb 0x20 0x20

/-- The stub that `init_idt` has set for an interrupt. -/
def stubOf (n : UInt8) : Option Stub := (idtGates.find? fun g => g.1 = n).map (·.2.1)

structure Irqs where
  pics : Pair
  /-- The interrupt flag. -/
  enabled : Bool
  /-- The stub that has begun and not yet called. -/
  entered : Option Stub
  /-- Ghost: how often a line began to ask, and `regs.int_no` of the calls of `irq_handler`. -/
  asked : Line → Nat
  handled : List UInt32

/-- After `init_idt`, whatever state the controllers were in. -/
def Irqs.start (pics : Pair) : Irqs := ⟨remap pics, false, none, fun _ => 0, []⟩

inductive IrqOp
  | raise (line : Line)
  | take
  /-- The stub calls `irq_handler`, or `isr_handler`. -/
  | handle
  /-- `sti`, `cli`, or the flags that an `iret` brings back. -/
  | setEnabled (on : Bool)

def irqStep (s : Irqs) : IrqOp → Option Irqs
  | .raise line =>
      if line = Line.wire then none
      else some { s with
        pics := s.pics.raise line
        asked := if s.pics.pending line then s.asked
          else Function.update s.asked line (s.asked line + 1) }
  | .take =>
      if s.enabled ∧ s.entered = none then
        s.pics.inta.bind fun (n, pics) => (stubOf n).map fun stub =>
          { s with pics := pics, enabled := false, entered := some stub }
      else none
  | .handle =>
      s.entered.map fun stub => match stub with
        | .irq _ =>
            { s with
              pics := irqHandler stub.number.toUInt32 s.pics
              entered := none
              handled := s.handled ++ [stub.number.toUInt32] }
        | .isr _ => { s with entered := none }
  | .setEnabled on => if s.entered = none then some { s with enabled := on } else none

/-- The number that goes with a line. -/
def lineNumber (line : Line) : UInt32 := (Stub.irq line.number).number.toUInt32

/-- The interrupt flag is set, and the next interrupt is taken; and that `k` times. -/
def rounds (k : Nat) : List IrqOp :=
  (List.replicate k [IrqOp.setEnabled true, .take, .handle]).flatten

end OsThing.Irq
