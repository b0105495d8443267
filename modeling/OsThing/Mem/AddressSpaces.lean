/-
Page directories and the kernel heap in them: `init_paging`, `clone_page_dir` and
`set_page_dir` of `kern/mem/paging.c`, and `expand` of `kern/mem/alloc.c`.

A clone gets the page tables that the kernel directory has at that time, and shares them
with it.  `expand` maps the new part of the heap into the current directory only, and
while it runs `kmalloc` is `kmalloc_e`, so that `map_page` is the one of `Mem/Paging`.

`init_paging` does not clear the first slot of the kernel directory; early memory is
taken to hold zeros there.  `kmalloc_e` hands out memory that the boot mapped to itself.
-/
import OsThing.Mem.Alloc
import OsThing.Mem.Paging
import Mathlib.Data.List.Range

namespace OsThing.Paging

open Bytes Alloc

/-- `sizeof( page_dir_t )`, `sizeof( heap_t )`, and the permissions the kernel maps with. -/
def pageDirSize : Nat := 0x2004
def heapSize : Nat := 17
def kernelPages : Nat := 7

/-- How often the loop of `map_pages` runs. -/
def pageCount (start stop : Nat) : Nat := (stop - start + (pageSize - 1)) / pageSize

/-- The loop of `clone_page_dir`, on a cleared directory. -/
def PageDir.copy (src : PageDir) : PageDir where
  tables := src.tables
  tableAddr := fun i => if src.tables i = 0 then 0 else src.tableAddr i

namespace State

variable (p : State)

/-- `map_pages`.  Its loop has no end if `address` overflows before it gets to `stop`. -/
def mapPages (start stop permissions d : Nat) : Option State :=
  if space ≤ start + pageCount start stop * pageSize then none
  else
    (List.range (pageCount start stop)).foldlM
      (fun p i => p.mapPage (start + i * pageSize) permissions d) p

/-- `clone_page_dir`, where the new directory is `new`. -/
def clonePageDir (src new : Nat) : Option State :=
  (p.kmallocE pageDirSize).map fun (_, p) =>
    { p with dir := Function.update p.dir new (p.dir src).copy }

end State

/-- The directories that there are, of which number 0 is `kernel_dir`, and `heap->size`. -/
structure Spaces where
  paging : State
  dirs : Nat
  current : Nat
  size : Nat

/-- `init_paging`, on the memory from `end` on. -/
def initPaging (mem : Memory) (frames : List (Fin (2 ^ 20))) (kernelEnd npages : Nat) :
    Option Spaces :=
  ((State.empty mem frames kernelEnd).kmallocE pageDirSize).bind fun (_, p) =>
    (p.kmallocE (npages * 4 + 1)).bind fun (_, p) =>
      (p.mapPages 0 ((p.placement + pageSize * 400) % space) kernelPages 0).bind fun p =>
        (p.mapPages kheapStart (kheapStart + kheapSize + pageSize) kernelPages 0).map fun p =>
          ⟨{ p with placement := p.placement + heapSize }, 1, 0, kheapSize / 4⟩

namespace Spaces

variable (s : Spaces)

/-- The bytes of the heap. -/
def oldSize : Nat := s.size * 4 % space
def newSize : Nat := s.oldSize * 2 % space

/-- The range that `expand` maps. -/
def mapStart : Nat := (kheapStart + s.oldSize) % space
def mapStop : Nat := (kheapStart + s.newSize + 0x100 + 0x10000) % space

/-- `expand`. -/
def expand : Option Spaces :=
  (s.paging.mapPages s.mapStart s.mapStop kernelPages s.current).map fun p =>
    { s with paging := p, size := s.newSize / 4 }

end Spaces

/-! ### A run -/

inductive SpaceOp
  | clone
  | setPageDir (d : Nat)
  | expand

def spaceStep (s : Spaces) : SpaceOp → Option Spaces
  | .clone => (s.paging.clonePageDir 0 s.dirs).map fun p =>
      { s with paging := p, dirs := s.dirs + 1 }
  | .setPageDir d => if d < s.dirs then some { s with current := d } else none
  | .expand => s.expand

end OsThing.Paging
