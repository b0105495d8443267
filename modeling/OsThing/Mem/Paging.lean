/-
Page tables and the stack of free frames, as `kern/mem/paging.c` keeps them.

A directory holds a pointer for each of 1024 page tables, and a table holds 1024 words;
in both, `map_page` keeps permission bits in the low end of a number whose own low end
is zero.  Tables are bytes of memory here, since `free_page` forgets to take these bits
off the pointer and so writes to an address that is no word of the table.

As long as there is no kernel heap, `kmalloc` is `kmalloc_e`, which takes memory from
`placement` upwards and never gives it back.  A call is `none` where the kernel panics
because there are no more frames, and where early memory would run past its end.
-/
import OsThing.Lib.Bytes
import Mathlib.Logic.Function.Basic

namespace OsThing.Paging

open Bytes

/-- The address space, and a page of it. -/
def space : Nat := 2 ^ 32
def pageSize : Nat := 0x1000

/-- `& 0xfffff000`, on a 32-bit number. -/
def pageBase (a : Nat) : Nat := a / pageSize * pageSize

/-- The first page boundary from `a` on. -/
def pageUp (a : Nat) : Nat := if a % pageSize = 0 then a else pageBase a + pageSize

/-- `page_dir_t`, without the address that goes into `cr3`. -/
structure PageDir where
  tables : Nat → Nat
  tableAddr : Nat → Nat

structure State where
  mem : Memory
  dir : Nat → PageDir
  /-- The free frames, the next one to be popped first. -/
  pageStack : List Nat
  placement : Nat

/-- Where the entry `high` of the table at `table` lies. -/
def entryAt (table high : Nat) : Nat := table + 4 * high

namespace State

variable (p : State)

def modifyDir (d : Nat) (f : PageDir → PageDir) : State :=
  { p with dir := Function.update p.dir d (f (p.dir d)) }

/-- `dir->tables[ low ] = table`. -/
def setTable (d low table : Nat) : State :=
  p.modifyDir d fun dir => { dir with tables := Function.update dir.tables low table }

/-- `dir->table_addr[ low ] = addr`. -/
def setTableAddr (d low addr : Nat) : State :=
  p.modifyDir d fun dir => { dir with tableAddr := Function.update dir.tableAddr low addr }

/-- `push_page`. -/
def pushPage (address : Nat) : State := { p with pageStack := pageBase address :: p.pageStack }

/-- `pop_page`. -/
def popPage : Option (Nat × State) :=
  match p.pageStack with
  | [] => none
  | frame :: rest => some (frame, { p with pageStack := rest })

/-- `kmalloc_e( size, 1, &physical )`: the address, which is also the physical one. -/
def kmallocE (size : Nat) : Option (Nat × State) :=
  let addr := pageUp p.placement
  if addr + size ≤ space then some (addr, { p with placement := addr + size }) else none

/-- A cleared table at `addr` for the slot `low`. -/
def clearTable (low permissions d addr : Nat) : State :=
  { p.setTable d low addr with mem := fill p.mem addr 0 pageSize }.setTableAddr d low
    (addr ||| permissions)

/-- The slot `low` gets a table if it has none. -/
def ensureTable (low permissions d : Nat) : Option State :=
  if (p.dir d).tables low = 0 then
    (p.kmallocE pageSize).map fun (addr, p) => p.clearTable low permissions d addr
  else some p

/-- The entry gets a frame, if it has none, and the permissions. -/
def fillEntry (entry permissions : Nat) : Option State :=
  let filled :=
    if read32 p.mem entry = 0 then
      p.popPage.map fun (frame, p) => { p with mem := write32 p.mem entry frame }
    else some p
  filled.map fun p => { p with mem := write32 p.mem entry (read32 p.mem entry ||| permissions) }

/-- `map_page`. -/
def mapPage (address permissions d : Nat) : Option State :=
  let low := address / 2 ^ 22
  let high := address / 2 ^ 12 % 0x400
  (p.ensureTable low permissions d).bind fun p =>
    let table := pageBase ((p.dir d).tables low)
    let p := p.setTable d low table
    (p.fillEntry (entryAt table high) permissions).map fun p =>
      p.setTable d low (table ||| permissions)

/-- `get_page`. -/
def getPage (address d : Nat) : Nat :=
  let low := address / 2 ^ 22
  let high := address / 2 ^ 12 % 0x400
  let temp := pageBase ((p.dir d).tables low)
  if temp = 0 then 0 else read32 p.mem (entryAt temp high)

/-- `free_page`.  The pointer is used with the permission bits it has. -/
def freePage (address d : Nat) : State :=
  let low := address / 2 ^ 22
  let high := address / 2 ^ 12 % 0x400
  if (p.dir d).tables low = 0 then p
  else
    let p := { p with mem := write32 p.mem (entryAt ((p.dir d).tables low) high) 0 }
    p.pushPage address

end State

/-! ### A run -/

inductive PageOp
  | mapPage (address permissions dir : Nat)
  | freePage (address dir : Nat)

/--
One call, on one of `dirs` directories.  Permissions are flags in the low bits of an
entry, and a page that is mapped has at least one of them (`PAGE_PRESENT`).
-/
def pageStep (dirs : Nat) (p : State) : PageOp → Option State
  | .mapPage address permissions dir =>
      if address < space ∧ dir < dirs ∧ 0 < permissions ∧ permissions < pageSize then
        p.mapPage address permissions dir
      else none
  | .freePage address dir =>
      if address < space ∧ dir < dirs then some (p.freePage address dir) else none

/-- Empty directories, and a stack of frames, given by their numbers. -/
def State.empty (mem : Memory) (frames : List (Fin (2 ^ 20))) (placement : Nat) : State where
  mem := mem
  dir := fun _ => ⟨fun _ => 0, fun _ => 0⟩
  pageStack := frames.map fun f => f.val * pageSize
  placement := placement

end OsThing.Paging
