/-
The loops of `map_pages`, `map_r_pages` and `free_pages` in `kern/mem/paging.c`, with their
counters.

In `Mem/Paging` and `Mem/Kmalloc` a loop that does not end is ruled out before it begins.
Here it begins, and `fuel` says how many times it may go round.  A call in the body that does
not come back ends the loop, too, with the reason why: an error.
-/
import OsThing.Mem.Kmalloc
import OsThing.Mem.PageStack

namespace OsThing.Paging

open Bytes

/-- `for ( address = start; address < end; address += 0x1000 )`, or `none` if it goes on. -/
def rangeLoop {σ ε : Type} (body : UInt32 → σ → Except ε σ) (stop : UInt32) :
    Nat → UInt32 → σ → Option (Except ε σ)
  | 0, _, _ => none
  | fuel + 1, address, s =>
      if address < stop then
        match body address s with
        | .error e => some (.error e)
        | .ok s => rangeLoop body stop fuel (address + PAGE_SIZE) s
      else some (.ok s)

namespace Kernel

/-- `map_r_page`: the page at `address` becomes the one at `real`, whatever it was. -/
def mapRPage (kmalloc : Kernel → Except Halt (Block × Kernel)) (address real permissions d : Nat)
    (k : Kernel) : Except Halt Kernel :=
  let low := address / 2 ^ 22
  let high := address / 2 ^ 12 % 0x400
  let tabled :=
    if (k.paging.dir d).tables low = 0 then
      (kmalloc k).map fun (block, k) =>
        { k with paging := k.paging.placeTable low permissions d block }
    else .ok k
  tabled.map fun k =>
    let table := pageBase ((k.paging.dir d).tables low)
    let entry := entryAt table high
    let p := k.paging.setTable d low table
    let p := { p with mem := write32 p.mem entry real }
    let p := { p with mem := write32 p.mem entry (read32 p.mem entry ||| permissions) }
    { k with paging := p.setTable d low (table ||| permissions) }

section Loops

variable (kmalloc : Kernel → Except Halt (Block × Kernel)) (start stop : UInt32) (fuel : Nat)

/-- `map_pages`. -/
def mapPagesLoop (permissions d : Nat) (k : Kernel) : Option (Except Halt Kernel) :=
  rangeLoop (fun address k => k.mapPage kmalloc address.toNat permissions d) stop fuel start k

/-- `map_r_pages`, with `r_address` beside the kernel. -/
def mapRPagesLoop (real : UInt32) (permissions d : Nat) (k : Kernel) :
    Option (Except Halt (Kernel × UInt32)) :=
  rangeLoop (fun address (k, rAddress) =>
    (k.mapRPage kmalloc address.toNat rAddress.toNat permissions d).map (·, rAddress + PAGE_SIZE))
    stop fuel start (k, real)

/-- `free_pages`.  No call in it ever fails to come back. -/
def freePagesLoop (d : Nat) (k : Kernel) : Option (Except Empty Kernel) :=
  rangeLoop (fun address k => .ok { k with paging := k.paging.freePage address.toNat d }) stop fuel
    start k

end Loops

end Kernel

end OsThing.Paging
