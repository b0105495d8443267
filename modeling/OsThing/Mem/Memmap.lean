/-
The regions of a task, `kern/mem/memmap.c`, and what a page fault does with them.

`create_process` and `sbrk` set `end` to the first address behind a region.  `memmap_check`
compares with `<=` and takes it for the last one.

The list from `maps` along `next` is a list here.  Of a region there is what is read: no
function looks at `permissions`, `present` or `references`.
-/
import OsThing.Mem.Kmalloc

namespace OsThing.Paging

/-- `memmap_t`. -/
structure Memmap where
  start : UInt32
  stop : UInt32
  deriving DecidableEq

/-- `memmap_check`. -/
def memmapCheck (map : Memmap) (address : UInt32) : Bool :=
  map.start ≤ address && address ≤ map.stop

/-- `memmaps_check`: the first region of the list that has the address. -/
def memmapsCheck : List Memmap → UInt32 → Option Memmap
  | [], _ => none
  | move :: next, address => if memmapCheck move address then some move else memmapsCheck next address

namespace Kernel

/-- `page_fault_handler`, and whether it maps the page.  If it does not, it sends the task a
signal and panics. -/
def pageFaultHandler (kmalloc : Kernel → Except Halt (Block × Kernel)) (maps : List Memmap)
    (faultAddr : UInt32) (k : Kernel) : Except Halt (Bool × Kernel) :=
  if (memmapsCheck maps faultAddr).isSome ∧ k.paging.getPage faultAddr.toNat k.current = 0 then
    (k.mapPage kmalloc faultAddr.toNat kernelPages k.current).map fun k => (true, k)
  else .ok (false, k)

end Kernel

/-! ### A run -/

/-- A fault of the current task, which has these regions, or what the rest of the kernel does. -/
inductive FaultOp
  | fault (maps : List Memmap) (address : UInt32)
  | kernel (op : TableOp)

def faultStep (depth : Nat) (k : Kernel) : FaultOp → Option Kernel
  | .fault maps address =>
      (k.pageFaultHandler (Kernel.kmallocTable (depth + 1)) maps address).toOption.map Prod.snd
  | .kernel op => tableStep depth k op

end OsThing.Paging
