/-
`kmalloc` with both of its allocators, and the paging that it and `map_page` are in together.

`kmalloc` asks `malloc_f` when there is a heap that is not marked full, and `kmalloc_e`
otherwise.  `malloc_f` may have to call `expand`, which marks the heap full and maps pages;
`map_page` may have to call `kmalloc` for a page table.  So the calls go round in a circle,
and here `depth` says how many calls of `kmalloc` may be inside one another.

In `Mem/Alloc` the memory is a function to words and a size is a number to which 4 is added.
Here the heap is in the memory that the page tables are in, a size is 32 bits wide, and the
sum of it and 4 may overflow.  `memused`, which only `get_memused` reads, is left out.
-/
import OsThing.Mem.Tables

namespace OsThing.Alloc

/-! ### The heap of the kernel -/

/-- What `init_heap( KHEAP_START, KHEAP_SIZE )` and `expand` make, whether marked full or not. -/
inductive Made : Heap → Prop
  | init : Made (initHeap kheapStart kheapSize)
  | expand {h h' : Heap} (hmade : Made h) (hexpand : expand h = some h') : Made h'
  | mark {h : Heap} (hmade : Made h) (full : Bool) : Made { h with full := full }

structure Kheap where
  heap : Heap
  made : Made heap

theorem expand_of_room {h : Heap} (hroom : 0x10000 + 0x100 + (h.size * 4 * 2 + h.root) < 2 ^ 32) :
    expand h = some { h with size := h.size * 4 * 2 / 4, full := false } := by
  unfold expand
  dsimp only
  rw [if_pos (by omega)]

namespace Kheap

variable (h : Kheap)

/-- `heap->full = 1`. -/
def fill : Kheap := ⟨{ h.heap with full := true }, .mark h.made true⟩

/-- The heap after `expand`. -/
def grow : Option Kheap :=
  let oldSize := h.heap.size * 4
  let newSize := oldSize * 2
  if hroom : 0x10000 + 0x100 + (newSize + h.heap.root) < 2 ^ 32 then
    some ⟨{ h.heap with size := newSize / 4, full := false }, .expand h.made (expand_of_room hroom)⟩
  else none

theorem grow_heap : h.grow.map (·.heap) = expand h.heap := by
  unfold grow
  dsimp only
  by_cases hroom : 0x10000 + 0x100 + (h.heap.size * 4 * 2 + h.heap.root) < 2 ^ 32
  · rw [dif_pos hroom, expand_of_room hroom, Option.map_some]
  · unfold expand
    dsimp only
    rw [dif_neg hroom, if_neg (by omega), Option.map_none]

end Kheap

/-! ### `malloc_f` for every size -/

/-- `size + sizeof( kmem_node_t )`, which is unsigned. -/
def bytesFor (size : UInt32) : Nat := (size + 4).toNat

/-- The loop of `malloc_f`, for `need` bytes; `tries` searches are left before it panics. -/
def mallocTries (mem : Mem) (need align : Nat) : Nat → Heap → Option (Nat × Heap × Mem)
  | 0, _ => none
  | tries + 1, heap =>
      match findFreeNode mem heap.root heap.size need align with
      | (0, _) => (expand heap).bind (mallocTries mem need align tries)
      | (ret, mem') => some (ret, heap, mem')

/-- `malloc_f`, in a memory that `expand` does not change. -/
def mallocAny (heap : Heap) (mem : Mem) (size : UInt32) (align : Nat) :
    Option (Nat × Heap × Mem) :=
  mallocTries mem (bytesFor size) align 5 heap

theorem mallocLoop_eq_tries (mem : Mem) (size align : Nat) :
    ∀ tries heap, mallocLoop mem size align tries heap =
      mallocTries mem (size + nodeBytes) align tries heap := by
  intro tries
  induction tries with
  | zero => intro heap; rfl
  | succ tries ih =>
      intro heap
      unfold mallocLoop mallocTries
      rcases findFreeNode mem heap.root heap.size (size + nodeBytes) align with ⟨_ | ret, mem'⟩
      · exact congrArg (expand heap).bind (funext ih)
      · rfl

/-- Where the sum does not overflow, this is the `malloc_f` of `Mem/Alloc`. -/
theorem mallocAny_eq (heap : Heap) (mem : Mem) {size : UInt32} (align : Nat)
    (h : size.toNat + 4 < 2 ^ 32) :
    mallocAny heap mem size align = mallocF heap mem size.toNat align := by
  have hsum : bytesFor size = size.toNat + nodeBytes := by
    rw [bytesFor, UInt32.toNat_add]
    exact Nat.mod_eq_of_lt h
  rw [mallocAny, mallocF, mallocLoop_eq_tries, hsum]

end OsThing.Alloc

namespace OsThing.Paging

open Bytes Alloc

/-! ### The calls that go round -/

/-- Memory with its directories, `kheap`, and `current_dir`. -/
structure Kernel where
  paging : State
  kheap : Option Kheap
  current : Nat

/-- Why a call does not return: the `PANIC` of `malloc_f`, no frames or no addresses left, or
more calls inside one another than were allowed for. -/
inductive Halt
  | panic
  | stuck
  | nested

namespace Kernel

/-- A kernel whose `kmalloc` is `kmalloc_f`. -/
def HeapActive (k : Kernel) : Prop := ∃ h, k.kheap = some h ∧ h.heap.full = false

instance (k : Kernel) : Decidable k.HeapActive :=
  decidable_of_iff (k.kheap.any (!·.heap.full)) (by
    cases hk : k.kheap <;> simp [HeapActive, hk])

/-- `kmalloc_e`: the address, which is also the physical one. -/
def kmallocE (size align : Nat) (k : Kernel) : Except Halt (Block × Kernel) :=
  let addr := if align = 0 then k.paging.placement else pageUp k.paging.placement
  if addr + size ≤ space then
    .ok (⟨addr, addr⟩, { k with paging := { k.paging with placement := addr + size } })
  else .error .stuck

/-- The search of `malloc_f`, in the words of memory: `find_free_node` marks what it finds. -/
def find (need align : Nat) (k : Kernel) : Nat × Kernel :=
  match k.kheap with
  | none => (0, k)
  | some h =>
      match findFreeNode (read32 k.paging.mem) h.heap.root h.heap.size need align with
      | (0, _) => (0, k)
      | (ret, _) => (ret, { k with paging :=
          { k.paging with mem := write32 k.paging.mem (ret - nodeBytes) kheapMagic } })

/-- `map_page`, with the `kmalloc` that it calls. -/
def mapPage (kmalloc : Kernel → Except Halt (Block × Kernel)) (address permissions d : Nat)
    (k : Kernel) : Except Halt Kernel :=
  let low := address / 2 ^ 22
  let high := address / 2 ^ 12 % 0x400
  let tabled :=
    if (k.paging.dir d).tables low = 0 then
      (kmalloc k).map fun (block, k) =>
        { k with paging := k.paging.placeTable low permissions d block }
    else .ok k
  tabled.bind fun k =>
    match k.paging.enterPage low high permissions d with
    | none => .error .stuck
    | some p => .ok { k with paging := p }

/-- `map_pages`. -/
def mapPages (kmalloc : Kernel → Except Halt (Block × Kernel)) (start stop permissions d : Nat)
    (k : Kernel) : Except Halt Kernel :=
  if space ≤ start + pageCount start stop * pageSize then .error .stuck
  else
    (List.range (pageCount start stop)).foldlM
      (fun k i => k.mapPage kmalloc (start + i * pageSize) permissions d) k

/-- `expand`: while the pages are mapped the heap is marked full. -/
def expand (kmalloc : Kernel → Except Halt (Block × Kernel)) (k : Kernel) : Except Halt Kernel :=
  match k.kheap with
  | none => .error .stuck
  | some h =>
      match h.grow with
      | none => .error .stuck
      | some h' =>
          let oldSize := h.heap.size * 4
          let newSize := oldSize * 2
          (mapPages kmalloc (h.heap.root + oldSize) (h.heap.root + newSize + 0x100 + 0x10000)
            kernelPages k.current { k with kheap := some h.fill }).map fun k =>
              { k with kheap := some h' }

/-- The loop of `malloc_f`, which panics after the fifth expansion. -/
def retry (kmalloc : Kernel → Except Halt (Block × Kernel)) (need align : Nat) :
    Nat → Kernel → Except Halt (Nat × Kernel)
  | 0, k => (k.expand kmalloc).bind fun _ => .error .panic
  | left + 1, k =>
      (k.expand kmalloc).bind fun k =>
        match k.find need align with
        | (0, k) => retry kmalloc need align left k
        | found => .ok found

/-- `malloc_f`. -/
def mallocF (kmalloc : Kernel → Except Halt (Block × Kernel)) (size : UInt32) (align : Nat)
    (k : Kernel) : Except Halt (Nat × Kernel) :=
  match k.find (bytesFor size) align with
  | (0, k) => k.retry kmalloc (bytesFor size) align 4
  | found => .ok found

/-- What `malloc_f` has found, and what `get_page` says of it. -/
def answer (found : Nat × Kernel) : Block × Kernel :=
  (⟨found.1, found.2.paging.getPage found.1 found.2.current⟩, found.2)

/-- `kmalloc`, with at most `depth` calls inside one another. -/
def kmalloc : Nat → UInt32 → Nat → Kernel → Except Halt (Block × Kernel)
  | 0, _, _, _ => .error .nested
  | depth + 1, size, align, k =>
      if k.HeapActive then
        (k.mallocF (kmalloc depth 0x1000 1) size align).map answer
      else k.kmallocE size.toNat align

/-- The `kmalloc` of a page table. -/
def kmallocTable (depth : Nat) : Kernel → Except Halt (Block × Kernel) := kmalloc depth 0x1000 1

/-- The rest of the kernel: it changes the heap and its marks, takes early memory, and loads
another directory.  What early memory there was is as before. -/
def elsewhere (kheap : Option Kheap) (mem : Memory) (placement current : Nat) (k : Kernel) :
    Kernel where
  paging := { k.paging.store mem with placement := max k.paging.placement placement }
  kheap := kheap
  current := current

end Kernel

/-! ### A run -/

inductive TableOp
  | mapPage (address permissions d : Nat)
  | mapPages (start stop permissions d : Nat)
  | clone (src new : Nat)
  | elsewhere (kheap : Option Kheap) (mem : Memory) (placement current : Nat)

/-- One call, where the `kmalloc` of a page table may have `depth` others inside it. -/
def tableStep (depth : Nat) (k : Kernel) : TableOp → Option Kernel
  | .mapPage address permissions d =>
      if address < space ∧ 0 < permissions ∧ permissions < pageSize then
        (k.mapPage (Kernel.kmallocTable (depth + 1)) address permissions d).toOption
      else none
  | .mapPages start stop permissions d =>
      if start ≤ stop ∧ stop ≤ 0xfffff000 ∧ 0 < permissions ∧ permissions < pageSize then
        (k.mapPages (Kernel.kmallocTable (depth + 1)) start stop permissions d).toOption
      else none
  | .clone src new => (k.paging.clonePageDir src new).map fun p => { k with paging := p }
  | .elsewhere kheap mem placement current => some (k.elsewhere kheap mem placement current)

end OsThing.Paging
