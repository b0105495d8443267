/-
The descriptor tables, `kern/kern/init_tables.c`.

Both tables lie in memory, and so do the task state segment and the words for `lgdt`: where,
is up to the linker.  `gdt_entries` has room for five descriptors and the table has six, so
`write_tss` writes behind the array.

The processor looks at the interrupt table when an interrupt comes, at the selector of the task
state segment when `ltr` loads it, and at the segment itself when the stack is changed and when
code of an outer ring uses a port.
-/
import OsThing.Kern.Strings
import OsThing.Kern.Stubs
import OsThing.Lib.Descriptors

namespace OsThing.InitTables

open Ia32 Interrupts Ram Strings

/-- `gdt_entry_t`. -/
structure GdtEntry where
  limitLow : UInt16
  baseLow : UInt16
  baseMiddle : UInt8
  access : UInt8
  granularity : UInt8
  baseHigh : UInt8
  deriving DecidableEq, Repr

/-- `idt_entry_t`. -/
structure IdtEntry where
  baseLow : UInt16
  sel : UInt16
  always0 : UInt8
  flags : UInt8
  baseHigh : UInt16
  deriving DecidableEq, Repr

/-- The eight bytes of the packed structure, as two words. -/
def GdtEntry.descriptor (e : GdtEntry) : Descriptor where
  low := UInt32.ofNat (e.limitLow.toNat + e.baseLow.toNat * 0x10000)
  high := UInt32.ofNat (e.baseMiddle.toNat + e.access.toNat * 0x100 +
    e.granularity.toNat * 0x10000 + e.baseHigh.toNat * 0x1000000)

def IdtEntry.descriptor (e : IdtEntry) : Descriptor where
  low := UInt32.ofNat (e.baseLow.toNat + e.sel.toNat * 0x10000)
  high := UInt32.ofNat (e.always0.toNat + e.flags.toNat * 0x100 + e.baseHigh.toNat * 0x10000)

/-- What `gdt_set_gate` stores in an entry. -/
def gdtGate (base limit : UInt32) (access gran : UInt8) : GdtEntry where
  baseLow := (base &&& 0xffff).toUInt16
  baseMiddle := ((base >>> 16) &&& 0xff).toUInt8
  baseHigh := ((base >>> 24) &&& 0xff).toUInt8
  limitLow := (limit &&& 0xffff).toUInt16
  granularity := ((limit >>> 16) &&& 0x0f).toUInt8 ||| (gran &&& 0xf0)
  access := access

/-- What `idt_set_gate` stores in an entry. -/
def idtGate (base : UInt32) (sel : UInt16) (flags : UInt8) : IdtEntry where
  baseLow := (base &&& 0xffff).toUInt16
  baseHigh := ((base >>> 16) &&& 0xffff).toUInt16
  sel := sel
  always0 := 0
  flags := flags

/-- The calls of `idt_set_gate` in `init_idt`: the number of the interrupt, the stub and the
flags. -/
def idtGates : List (UInt8 × Stub × UInt8) :=
  (List.range 32).map (fun n => (UInt8.ofNat n, .isr (UInt8.ofNat n), 0x8e)) ++
    (List.range 16).map (fun n => (UInt8.ofNat (32 + n), .irq (UInt8.ofNat n), 0x8e)) ++
    [(0x30, .isr 48, 0x8e), (0x50, .isr 80, 0x8e ||| 0x60)]

/-- Where the linker put the tables and the stubs. -/
structure Layout where
  gdtEntries : UInt32
  gdtPtr : UInt32
  idtEntries : UInt32
  tssEntry : UInt32
  stub : Stub → UInt32

/-- What `lgdt` and `lidt` load. -/
structure TablePtr where
  limit : UInt16
  base : UInt32
  deriving DecidableEq, Repr

/-- `sizeof( gdt_entry_t )` and `sizeof( idt_entry_t )`. -/
def entrySize : Nat := 8

/-- `sizeof( tss_entry )`. -/
def tssSize : Nat := 104

namespace Layout

variable (l : Layout)

/-- A field of `tss_entry`, by its offset. -/
def setTss (m : Memory) (offset : Nat) (v : UInt32) : Memory :=
  setWord m (l.tssEntry + UInt32.ofNat offset) v

/-- `set_kernel_stack`. -/
def setKernelStack (stack : UInt32) (m : Memory) : Memory := l.setTss m 4 stack

def gdtSetGate (m : Memory) (num : Nat) (base limit : UInt32) (access gran : UInt8) : Memory :=
  setDescriptor l.gdtEntries m num (gdtGate base limit access gran).descriptor

def writeTss (m : Memory) (num : Nat) (ss0 : UInt16) (esp0 : UInt32) : Memory :=
  let base := l.tssEntry
  let limit := base + UInt32.ofNat tssSize
  let m := l.gdtSetGate m num base limit 0xe9 0
  let m := memset l.tssEntry 0 tssSize m
  let m := l.setTss m 8 ss0.toUInt32
  let m := l.setTss m 4 esp0
  let m := l.setTss m 76 0x0b
  -- `ss`, `ds`, `es`, `fs` and `gs`, from the right
  [92, 88, 72, 84, 80].foldl (fun m offset => l.setTss m offset 0x13) m

/-- `init_gdt` up to `gdt_flush`, and what that loads. -/
def initGdt (m : Memory) : Memory × TablePtr :=
  let m := setHalf m l.gdtPtr (UInt16.ofNat (entrySize * 6 - 1))
  let m := setWord m (l.gdtPtr + 2) l.gdtEntries
  let m := l.gdtSetGate m 0 0 0 0 0
  let m := l.gdtSetGate m 1 0 0xffffffff 0x9a 0xcf
  let m := l.gdtSetGate m 2 0 0xffffffff 0x92 0xcf
  let m := l.gdtSetGate m 3 0 0xffffffff 0xfa 0xcf
  let m := l.gdtSetGate m 4 0 0xffffffff 0xf2 0xcf
  let m := l.writeTss m 5 0x10 0
  (m, { limit := half m l.gdtPtr, base := word m (l.gdtPtr + 2) })

/-- `init_idt`, as far as the table goes. -/
def initIdt (m : Memory) : Memory :=
  let m := memset l.idtEntries 0 (entrySize * 256) m
  setDescriptors l.idtEntries m (idtGates.map fun (num, stub, flags) =>
    (num.toNat, (idtGate (l.stub stub) 0x08 flags).descriptor))

/-- The gate that the processor finds at an interrupt. -/
def gate (m : Memory) (n : UInt8) : Option Gate := (descriptor m l.idtEntries n.toNat).gate

/-- The stack that the processor finds when it leaves an outer ring. -/
def tss (m : Memory) : Tss where
  ss0 := (word m (l.tssEntry + 8)).toUInt16
  esp0 := word m (l.tssEntry + 4)

end Layout

end OsThing.InitTables
