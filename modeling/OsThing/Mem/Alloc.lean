/-
The kernel heap, as `kern/mem/alloc.c` computes it.

Memory is a function from byte addresses to 32-bit words; the allocator only ever
looks at addresses of the form `root + 4 * k`.  A heap is a root address and a length
in words, and its blocks are the halves, quarters and so on of that one range
(`Lib/Halving.lean`, with four bytes to a word).  The only bookkeeping is one header
word at the start of each block, which holds `kheapMagic` while the block is taken.

Three things the C code leaves implicit are `none` here: `PANIC`, which halts the
machine; an address range that runs past the end of the 32-bit space, where
`map_pages` maps nothing and the next header read faults; and a free of a pointer
whose header does not say that it is allocated.

`expand` asks `map_pages` for the new range.  While it runs `heap->full` is set, so
the page tables come from `kmalloc_e` and lie outside the heap; what the new pages
hold is whatever `mem` already says.
-/
import OsThing.Lib.Halving
import Mathlib.Logic.Function.Basic

namespace OsThing.Alloc

open Halving Halving.Block

abbrev Mem := Nat → Nat

def kheapStart : Nat := 0xc0000000
def kheapSize : Nat := 0x400000
def kheapMagic : Nat := 0xfee1dead
def kheapMinAlloc : Nat := 4
def kheapFreed : Nat := 0xbadc0de

/-- `sizeof( kmem_node_t )`: the header word in front of every payload. -/
def nodeBytes : Nat := 4

/-- `heap_t`.  The length is in words, whatever the comment in the header says. -/
structure Heap where
  size : Nat
  root : Nat
  full : Bool

/-- The range of the heap as a block of words. -/
def Heap.block (h : Heap) : Block := ⟨h.root, h.size⟩

@[simp] theorem Heap.block_start (h : Heap) : h.block.start = h.root := rfl
@[simp] theorem Heap.block_size (h : Heap) : h.block.size = h.size := rfl

/-! ### The search -/

/--
`find_free_node`: the address to return and the memory afterwards.  `size` counts
bytes and `nodeSize` words, and the test `size < s / 2` compares the two as they are.
-/
def findFreeNode (mem : Mem) (node nodeSize size align : Nat) : Nat × Mem :=
  let s := nodeSize / 2
  let temp := node + 4 * s
  if s ≤ kheapMinAlloc ∨ (mem temp = kheapMagic ∧ mem node = kheapMagic) then (0, mem)
  else
    let below :=
      if size < s / 2 then
        -- the right half first, then the left one
        match findFreeNode mem temp s size align with
        | (0, mem') => findFreeNode mem' node s size align
        | found => found
      else (0, mem)
    match below with
    | (0, mem') =>
        if mem' temp ≠ kheapMagic then
          (temp + nodeBytes, Function.update mem' temp kheapMagic)
        else if mem' node ≠ kheapMagic then
          (node + nodeBytes, Function.update mem' node kheapMagic)
        else (0, mem')
    | found => found
termination_by nodeSize
decreasing_by
  all_goals
    rename_i h _
    simp only [kheapMinAlloc] at h
    omega

/-- The test at the head of `find_free_node`: nothing below this block is tried. -/
def Exhausted (mem : Mem) (b : Block) : Prop :=
  b.size / 2 ≤ kheapMinAlloc ∨ (mem (b.right 4).start = kheapMagic ∧ mem b.start = kheapMagic)

instance (mem : Mem) (b : Block) : Decidable (Exhausted mem b) :=
  inferInstanceAs (Decidable (_ ∨ _))

theorem Exhausted.four_lt {mem : Mem} {b : Block} (h : ¬ Exhausted mem b) : 4 < b.size / 2 :=
  Nat.lt_of_not_le fun hle => h (Or.inl hle)

/-- The half that is taken when the search goes no further down: the right one if its
first word is free, else the left one. -/
def freeHalf (mem : Mem) (b : Block) : Block :=
  if mem (b.right 4).start = kheapMagic then b.left else b.right 4

/--
The half the search settles on, read off the header words alone.  A block that passes
the first test always has something to give, so the search never has to come back up:
`findFreeNode_eq` is that observation.
-/
def search (mem : Mem) (b : Block) (size : Nat) : Option Block :=
  if _h : Exhausted mem b then none
  else if size < b.size / 2 / 2 ∧ ¬ Exhausted mem (b.right 4) then search mem (b.right 4) size
  else if size < b.size / 2 / 2 ∧ ¬ Exhausted mem b.left then search mem b.left size
  else some (freeHalf mem b)
termination_by b.size
decreasing_by
  all_goals
    have hs := Exhausted.four_lt _h
    simp only [right_size, left_size]
    omega

/-! ### Growing, allocating, freeing -/

/-- `expand`: the heap doubles, if the new end is still an address. -/
def expand (heap : Heap) : Option Heap :=
  let oldSize := heap.size * 4
  let newSize := oldSize * 2
  if heap.root + newSize + 0x100 + 0x10000 < 2 ^ 32 then
    some { heap with size := newSize / 4, full := false }
  else none

/-- The loop of `malloc_f`; `tries` searches are left before it panics. -/
def mallocLoop (mem : Mem) (size align : Nat) : Nat → Heap → Option (Nat × Heap × Mem)
  | 0, _ => none
  | tries + 1, heap =>
      match findFreeNode mem heap.root heap.size (size + nodeBytes) align with
      | (0, _) => (expand heap).bind (mallocLoop mem size align tries)
      | (ret, mem') => some (ret, heap, mem')

/-- `malloc_f`: the first search, and four more after as many expansions. -/
def mallocF (heap : Heap) (mem : Mem) (size align : Nat) : Option (Nat × Heap × Mem) :=
  mallocLoop mem size align 5 heap

/-- `free_f`: the header goes from allocated to freed. -/
def freeF (mem : Mem) (ptr : Nat) : Option Mem :=
  let p := ptr - nodeBytes
  if mem p = kheapMagic then some (Function.update mem p kheapFreed) else none

/-- `init_heap`. -/
def initHeap (start size : Nat) : Heap := ⟨size / 4, start, false⟩

/-! ### A run of the heap and its callers -/

/-- A live allocation: the half its header stands for, and the bytes asked for. -/
structure Grant where
  half : Block
  size : Nat

/-- The pointer `kmalloc_f` returned. -/
def Grant.ptr (g : Grant) : Nat := g.half.start + nodeBytes

structure HeapState where
  heap : Heap
  mem : Mem
  live : List Grant

inductive HeapOp
  | kmalloc (size align : Nat)
  | kfree (ptr : Nat)
  /-- A caller stores into its own payload; `words` is what the memory then shows there. -/
  | store (ptr : Nat) (words : Mem)

/-- The word at `a` has a byte in `[g.ptr, g.ptr + g.size)`. -/
def Grant.Owns (g : Grant) (a : Nat) : Prop := a < g.ptr + g.size ∧ g.ptr < a + 4

instance (g : Grant) (a : Nat) : Decidable (g.Owns a) := inferInstanceAs (Decidable (_ ∧ _))

/--
One call.  A request is only made while it and its header come to at most half of the
heap, only live pointers are freed, and only live payloads are written.
-/
def heapStep (s : HeapState) : HeapOp → Option HeapState
  | .kmalloc size align =>
      if size + nodeBytes ≤ 4 * (s.heap.size / 2) then
        (mallocF s.heap s.mem size align).bind fun (_, heap, mem) =>
          (search s.mem heap.block (size + nodeBytes)).map fun half =>
            { heap := heap, mem := mem, live := ⟨half, size⟩ :: s.live }
      else none
  | .kfree ptr =>
      if ∃ g ∈ s.live, g.ptr = ptr then
        (freeF s.mem ptr).map fun mem =>
          { s with mem := mem, live := s.live.eraseP (·.ptr = ptr) }
      else none
  | .store ptr words =>
      match s.live.find? (·.ptr = ptr) with
      | some g => some { s with mem := fun a => if g.Owns a then words a else s.mem a }
      | none => none

/-- The heap right after `init_heap`. -/
def HeapState.init (start size : Nat) (mem : Mem) : HeapState :=
  ⟨initHeap start size, mem, []⟩

end OsThing.Alloc
