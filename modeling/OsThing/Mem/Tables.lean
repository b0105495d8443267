/-
`map_page` with a page table from any `kmalloc`.

In `Mem/Paging` tables come from `kmalloc_e`, and their address is the physical one.  Once
there is a heap, `kmalloc` is `kmalloc_f`: it gives a pointer into the heap, and says of
the page that this is on where it lies physically, with the flags of its entry.  So here
what `kmalloc` gives is a block, an address together with a physical one.

A clone is walked by the processor through `table_addr`, and `kernel_dir`, whose own
address is loaded, through `tables`.
-/
import OsThing.Mem.AddressSpaces

namespace OsThing.Paging

open Bytes Alloc

/-- What `kmalloc( sizeof( page_table_t ), 1, &temp )` gives: its result, and `temp`. -/
structure Block where
  addr : Nat
  physical : Nat

namespace State

variable (p : State)

/-- The block becomes the table of the slot `low`, and is cleared. -/
def placeTable (low permissions d : Nat) (block : Block) : State :=
  { p.setTable d low block.addr with mem := fill p.mem block.addr 0 pageSize }.setTableAddr d low
    (block.physical ||| permissions)

/-- The second half of `map_page`, when the slot `low` has a table. -/
def enterPage (low high permissions d : Nat) : Option State :=
  let table := pageBase ((p.dir d).tables low)
  let p := p.setTable d low table
  (p.fillEntry (entryAt table high) permissions).map fun p =>
    p.setTable d low (table ||| permissions)

/-- `map_page`. -/
def mapPageFrom (kmalloc : State → Option (Block × State)) (address permissions d : Nat) :
    Option State :=
  let low := address / 2 ^ 22
  let high := address / 2 ^ 12 % 0x400
  let tabled :=
    if (p.dir d).tables low = 0 then
      (kmalloc p).map fun (block, p) => p.placeTable low permissions d block
    else some p
  tabled.bind fun p => p.enterPage low high permissions d

/-- `kmalloc` as long as there is no heap, or while the heap is full. -/
def earlyBlock : Option (Block × State) :=
  (p.kmallocE pageSize).map fun (addr, p) => (⟨addr, addr⟩, p)

/-- `kmalloc_f`, when the allocator finds room at `ret`. -/
def heapBlock (ret current : Nat) : Option (Block × State) :=
  some (⟨ret, p.getPage ret current⟩, p)

/-- Which `kmalloc` supplies the tables, and where `kmalloc_f` finds room for one. -/
inductive Supply
  | early
  | heap (ret : Nat)

def kmalloc (current : Nat) : Supply → State → Option (Block × State)
  | .early => earlyBlock
  | .heap ret => fun p => p.heapBlock ret current

/-- Without a heap this is the `map_page` of `Mem/Paging`. -/
theorem mapPage_eq_from (address permissions d : Nat) :
    p.mapPage address permissions d = p.mapPageFrom earlyBlock address permissions d := by
  unfold mapPage mapPageFrom ensureTable earlyBlock
  dsimp only
  split
  · rw [Option.map_map]
    rfl
  · rfl

end State

/-! ### Two runs -/

/-- A clone of `kernel_dir`, or a page mapped in the directory `d`, for which `kmalloc` gives
the block if it is asked for a table. -/
inductive CloneOp
  | clone
  | mapPage (address permissions d : Nat) (block : Block)

/-- `map_page` is called on clones, for pages in slots that `kernel_dir` has no table for. -/
def cloneStep (s : Spaces) : CloneOp → Option Spaces
  | .clone => (s.paging.clonePageDir 0 s.dirs).map fun p =>
      { s with paging := p, dirs := s.dirs + 1 }
  | .mapPage address permissions d block =>
      if address < space ∧ permissions < pageSize ∧ 0 < d ∧ d < s.dirs ∧
          (s.paging.dir 0).tables (address / 2 ^ 22) = 0 then
        (s.paging.mapPageFrom (fun p => some (block, p)) address permissions d).map fun p =>
          { s with paging := p }
      else none

/-- A clone of `kernel_dir`, a directory loaded, or a page mapped in the directory `d`. -/
inductive WalkOp
  | clone
  | setPageDir (d : Nat)
  | mapPage (address permissions d : Nat) (supply : State.Supply)

def walkStep (s : Spaces) : WalkOp → Option Spaces
  | .clone => (s.paging.clonePageDir 0 s.dirs).map fun p =>
      { s with paging := p, dirs := s.dirs + 1 }
  | .setPageDir d => if d < s.dirs then some { s with current := d } else none
  | .mapPage address permissions d supply =>
      if address < space ∧ 0 < permissions ∧ permissions < pageSize ∧ d < s.dirs then
        (s.paging.mapPageFrom (State.kmalloc s.current supply) address permissions d).map fun p =>
          { s with paging := p }
      else none

/-! ### A run of early allocations -/

/-- What the rest of the kernel leaves in memory, where early memory is as it was. -/
def State.store (p : State) (mem : Memory) : State :=
  { p with mem := fun a => if a < p.placement then p.mem a else mem a }

/-- What the heap supplies lies in the heap. -/
def State.Supply.Possible : State.Supply → Prop
  | .early => True
  | .heap ret => kheapStart ≤ ret

instance : DecidablePred State.Supply.Possible
  | .early => isTrue trivial
  | .heap ret => inferInstanceAs (Decidable (kheapStart ≤ ret))

/-- A clone of `kernel_dir`, a directory loaded, a page mapped in the directory `d`, or
anything else that does not take early memory. -/
inductive EarlyOp
  | clone
  | setPageDir (d : Nat)
  | mapPage (address permissions d : Nat) (supply : State.Supply)
  | store (mem : Memory)

/-- `expand` is in here, too: it maps pages in the current directory, with early tables. -/
def earlyStep (s : Spaces) : EarlyOp → Option Spaces
  | .clone => walkStep s .clone
  | .setPageDir d => walkStep s (.setPageDir d)
  | .mapPage address permissions d supply =>
      if supply.Possible then walkStep s (.mapPage address permissions d supply) else none
  | .store mem => some { s with paging := s.paging.store mem }

/-- The size that the call asks `kmalloc_e` for, if it does. -/
def request (s : Spaces) : EarlyOp → Option Nat
  | .clone => some pageDirSize
  | .setPageDir _ => none
  | .mapPage address _ d .early =>
      if (s.paging.dir d).tables (address / 2 ^ 22) = 0 then some pageSize else none
  | .mapPage _ _ _ (.heap _) => none
  | .store _ => none

end OsThing.Paging
