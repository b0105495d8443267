/-
The stack of free frames as the array that it is in `kern/mem/paging.c`.

In `Mem/Paging` the free frames are a list.  Here they are the slots of `page_stack` from
`stack_bottom` up to `page_ptr`, and frames are popped at either end.  `pop_page` compares
the two ends, and `pop_bottom_page` compares the lower one with `npages` only.  `push_page`
compares nothing, so that the array is a function that has a slot for every number.

The loop of `init_paging` that pushes all frames goes down to address 0, and stops when its
counter has wrapped around.  So numbers are 32 bits wide there.
-/
import OsThing.Mem.AddressSpaces

namespace OsThing.Paging

/-- `page_stack`, `page_ptr`, `stack_bottom` and `npages`. -/
structure PageStack where
  slots : Nat → Nat
  pagePtr : Nat
  stackBottom : Nat
  npages : Nat

namespace PageStack

variable (s : PageStack)

/-- `push_page`. -/
def pushPage (address : Nat) : PageStack :=
  { s with slots := Function.update s.slots s.pagePtr (pageBase address), pagePtr := s.pagePtr + 1 }

/-- `pop_page`: the frame, or `none` if it reports that there are no more pages. -/
def popPage : Option (Nat × PageStack) :=
  if s.stackBottom < s.pagePtr then
    some (s.slots (s.pagePtr - 1), { s with pagePtr := s.pagePtr - 1 })
  else none

/-- `pop_bottom_page`. -/
def popBottomPage : Option (Nat × PageStack) :=
  if s.stackBottom < s.npages then
    some (s.slots s.stackBottom, { s with stackBottom := s.stackBottom + 1 })
  else none

/-- The stack as it is before the boot has pushed anything. -/
def new (slots : Nat → Nat) (npages : Nat) : PageStack := ⟨slots, 0, 0, npages⟩

/-- The frames between the two ends, from the bottom up. -/
def free : List Nat := (List.range' s.stackBottom (s.pagePtr - s.stackBottom)).map s.slots

end PageStack

/-! ### The loop of `init_paging` -/

/-- `PAGE_SIZE`. -/
def PAGE_SIZE : UInt32 := 0x1000

/-- `for ( ; i + PAGE_SIZE > 0; i -= PAGE_SIZE ) push_page( i );` -/
def pushLoop : Nat → UInt32 → PageStack → Option PageStack
  | 0, _, _ => none
  | fuel + 1, i, s =>
      if 0 < i + PAGE_SIZE then pushLoop fuel (i - PAGE_SIZE) (s.pushPage i.toNat) else some s

/-- The memory of the machine, in kilobytes. -/
def maxMem (memLower memUpper : UInt32) : UInt32 := (memLower + memUpper) &&& 0xfffff000

/-- The stack that `init_paging` makes, on slots that hold anything. -/
def initStack (fuel : Nat) (slots : Nat → Nat) (memLower memUpper : UInt32) : Option PageStack :=
  let maxMem := maxMem memLower memUpper
  pushLoop fuel (maxMem * 1024) (.new slots (maxMem / 4).toNat)

/-- The frames between the two ends as `Mem/Paging` has them, the next one to be popped first. -/
def PageStack.frames (s : PageStack) : List (Fin (2 ^ 20)) :=
  s.free.reverse.map fun frame => ⟨frame / pageSize % 2 ^ 20, Nat.mod_lt _ (by decide)⟩

/-- `init_paging`, on the memory from `end` on, with the loop. -/
def bootPaging (fuel : Nat) (mem : Bytes.Memory) (slots : Nat → Nat)
    (memLower memUpper kernelEnd : UInt32) : Option Spaces :=
  (initStack fuel slots memLower memUpper).bind fun s =>
    initPaging mem s.frames kernelEnd.toNat s.npages

/-! ### A run -/

inductive PoolEvent
  | pushed (frame : Nat)
  | returned (frame : Nat)

/-- The stack, and what was done with it, the last event first. -/
structure Pool where
  stack : PageStack
  history : List PoolEvent

inductive PoolOp
  | pushPage (address : Nat)
  | popPage
  | popBottomPage

/-- `pop_page` does not come back if it reports that there are no more pages, and
`pop_bottom_page` may, and has then done nothing. -/
def poolStep (p : Pool) : PoolOp → Option Pool
  | .pushPage address => some ⟨p.stack.pushPage address, .pushed (pageBase address) :: p.history⟩
  | .popPage => p.stack.popPage.map fun (frame, stack) => ⟨stack, .returned frame :: p.history⟩
  | .popBottomPage =>
      some ((p.stack.popBottomPage.map fun (frame, stack) =>
        ⟨stack, .returned frame :: p.history⟩).getD p)

end OsThing.Paging
