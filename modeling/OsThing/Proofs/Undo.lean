/-
An allocation that is given back at once leaves no trace.

Memory is not what it was, since the header says freed now.  But all that the search and
`free` ask of a word is whether it is the magic one.  So two memories with the same marks
give the same answers, and their heaps grow at the same calls: the lock step of
`Lib/Runs`, for the allocator of the kernel and for the one of the user.
-/
import OsThing.Proofs.Kmalloc
import OsThing.Proofs.UserHeap

namespace OsThing.Alloc

open Halving Runs

/-! ### The kernel -/

inductive Call
  | malloc (size : UInt32) (align : Nat)
  | free (ptr : Nat)

/-- A call: the pointer, if it gives one, and the heap, with the state after it. -/
def call (s : Heap × Mem) : Call → Option ((Option Nat × Heap) × (Heap × Mem))
  | .malloc size align => (mallocAny s.1 s.2 size align).map fun r =>
      ((some r.1, r.2.1), (r.2.1, r.2.2))
  | .free ptr => (freeF s.2 ptr).map fun mem => ((none, s.1), (s.1, mem))

/-- The same heap, with the same headers taken. -/
def Alike (s t : Heap × Mem) : Prop := s.1 = t.1 ∧ SameMarks kheapMagic s.2 t.2

theorem findFreeNode_alike {mem mem' : Mem} (h : SameMarks kheapMagic mem mem')
    (node nodeSize size align : Nat) :
    (findFreeNode mem node nodeSize size align).1 = (findFreeNode mem' node nodeSize size align).1 ∧
      SameMarks kheapMagic (findFreeNode mem node nodeSize size align).2
        (findFreeNode mem' node nodeSize size align).2 := by
  rw [findFreeNode_eq_firstFit, findFreeNode_eq_firstFit]
  exact h.firstFit (by decide) node nodeSize size

/-- The loop, without the pattern. -/
theorem mallocTries_succ (mem : Mem) (need align tries : Nat) (heap : Heap) :
    mallocTries mem need align (tries + 1) heap =
      if (findFreeNode mem heap.root heap.size need align).1 = 0 then
        (expand heap).bind (mallocTries mem need align tries)
      else some ((findFreeNode mem heap.root heap.size need align).1, heap,
        (findFreeNode mem heap.root heap.size need align).2) := by
  rw [mallocTries]
  rcases findFreeNode mem heap.root heap.size need align with ⟨_ | ret, mem'⟩
  · rfl
  · rfl

theorem mallocTries_alike {mem mem' : Mem} (h : SameMarks kheapMagic mem mem') (need align : Nat) :
    ∀ (tries : Nat) (heap : Heap),
      Option.Rel (fun r r' => r.1 = r'.1 ∧ Alike r.2 r'.2) (mallocTries mem need align tries heap)
        (mallocTries mem' need align tries heap) := by
  intro tries
  induction tries with
  | zero => intro heap; exact .none
  | succ tries ih =>
      intro heap
      obtain ⟨hret, hmem⟩ := findFreeNode_alike h heap.root heap.size need align
      rw [mallocTries_succ, mallocTries_succ, ← hret]
      split
      · cases expand heap with
        | none => exact .none
        | some big => exact ih big
      · exact .some ⟨rfl, rfl, hmem⟩

theorem call_alike (s t : Heap × Mem) (c : Call) (h : Alike s t) :
    Option.Rel (fun a b => a.1 = b.1 ∧ Alike a.2 b.2) (call s c) (call t c) := by
  obtain ⟨heap, mem⟩ := s
  obtain ⟨heap', mem'⟩ := t
  obtain ⟨rfl, hmarks⟩ := h
  cases c with
  | malloc size align =>
      refine rel_map (fun r r' hr => ?_) (mallocTries_alike hmarks (bytesFor size) align 5 heap)
      obtain ⟨hret, hheap, hmem⟩ := hr
      exact ⟨by rw [hret, hheap], hheap, hmem⟩
  | free ptr =>
      have hhead := hmarks (ptr - nodeBytes)
      unfold call freeF
      dsimp only
      by_cases hmagic : mem (ptr - nodeBytes) = kheapMagic
      · rw [if_pos hmagic, if_pos (hhead.mp hmagic)]
        exact .some ⟨rfl, rfl, hmarks.update _ _⟩
      · rw [if_neg hmagic, if_neg (mt hhead.mpr hmagic)]
        exact .none

/-- What the kernel gets back and frees at once might as well not have been asked for. -/
theorem free_undoes {heap : Heap} {mem mem₁ : Mem} {size : UInt32} {align p : Nat}
    (h : mallocAny heap mem size align = some (p, heap, mem₁)) :
    ∃ mem₂, freeF mem₁ p = some mem₂ ∧
      ∀ calls, outputs call (heap, mem₂) calls = outputs call (heap, mem) calls := by
  obtain ⟨-, half, -, -, hsearch, rfl, rfl⟩ := mallocTries_spec h
  obtain ⟨-, -, hfree⟩ := search_spec hsearch
  refine ⟨Function.update mem half.start kheapFreed, ?_, fun calls => ?_⟩
  · unfold freeF
    rw [Nat.add_sub_cancel, if_pos (Function.update_self ..), Function.update_idem]
  · exact outputs_eq call_alike ⟨rfl, SameMarks.of_update hfree (by decide)⟩

end OsThing.Alloc

namespace OsThing.UserAlloc

open Halving Runs

/-! ### The user -/

inductive Call
  | malloc (size : Int32)
  | free (ptr : Nat)

/-- A call: the pointer, if it gives one, and the heap, with the state after it. -/
def call (s : Heap × Mem) : Call → Option ((Option Nat × Heap) × (Heap × Mem))
  | .malloc size => (malloc s.1 s.2 size).map fun r => ((some r.1, r.2.1), (r.2.1, r.2.2))
  | .free ptr => (free s.2 ptr).map fun mem => ((none, s.1), (s.1, mem))

/-- The same heap, with the same headers taken. -/
def Alike (s t : Heap × Mem) : Prop := s.1 = t.1 ∧ SameMarks MAGIC s.2 t.2

theorem findFree_alike {mem mem' : Mem} (h : SameMarks MAGIC mem mem') (node nodeSize size : Nat) :
    (findFree mem node nodeSize size).1 = (findFree mem' node nodeSize size).1 ∧
      SameMarks MAGIC (findFree mem node nodeSize size).2 (findFree mem' node nodeSize size).2 := by
  rw [findFree_eq_firstFit, findFree_eq_firstFit]
  exact h.firstFit (by decide) node nodeSize size

theorem findLoop_alike {mem mem' : Mem} {need : Nat} {h : Heap} (hmarks : SameMarks MAGIC mem mem') :
    Option.Rel (fun r r' => r.1 = r'.1 ∧ Alike r.2 r'.2) (findLoop mem need h)
      (findLoop mem' need h) := by
  induction hn : 2 ^ 32 - h.brk using Nat.strong_induction_on generalizing h mem mem' with
  | _ n ih =>
    obtain ⟨hret, hmem⟩ := findFree_alike hmarks h.hPos h.hSize need
    rw [findLoop_eq, findLoop_eq mem', ← hret]
    split
    · cases hresize : resize h with
      | none => exact .none
      | some h' =>
          obtain ⟨hlt, hspace⟩ := resize_brk hresize
          exact ih (2 ^ 32 - h'.brk) (by omega) hmem rfl
    · exact .some ⟨rfl, rfl, hmem⟩

theorem call_alike (s t : Heap × Mem) (c : Call) (h : Alike s t) :
    Option.Rel (fun a b => a.1 = b.1 ∧ Alike a.2 b.2) (call s c) (call t c) := by
  obtain ⟨heap, mem⟩ := s
  obtain ⟨heap', mem'⟩ := t
  obtain ⟨rfl, hmarks⟩ := h
  cases c with
  | malloc size =>
      unfold call malloc
      dsimp only
      refine rel_map (fun r r' hr => ?_)
        (?_ : Option.Rel (fun r r' => r.1 = r'.1 ∧ Alike r.2 r'.2) _ _)
      · obtain ⟨hret, hheap, hmem⟩ := hr
        exact ⟨by rw [hret, hheap], hheap, hmem⟩
      · cases growFor (bytesFor size) heap with
        | none => exact .none
        | some big => exact findLoop_alike hmarks
  | free ptr =>
      have hhead := hmarks (ptr - nodeBytes)
      unfold call free
      dsimp only
      by_cases hmagic : mem (ptr - nodeBytes) = MAGIC
      · rw [if_pos hmagic, if_pos (hhead.mp hmagic)]
        exact .some ⟨rfl, rfl, hmarks.update _ _⟩
      · rw [if_neg hmagic, if_neg (mt hhead.mpr hmagic)]
        exact .none

/-- What the user gets and frees at once might as well not have been asked for. -/
theorem free_undoes {heap : Heap} {mem mem₁ : Mem} {size : Int32} {p : Nat}
    (h : malloc heap mem size = some (p, heap, mem₁)) :
    ∃ mem₂, free mem₁ p = some mem₂ ∧
      ∀ calls, outputs call (heap, mem₂) calls = outputs call (heap, mem) calls := by
  obtain ⟨half, -, hfound, rfl, rfl⟩ := malloc_spec h
  obtain ⟨-, -, hfree⟩ := descend_spec hfound
  refine ⟨Function.update mem half.start FREED, ?_, fun calls => ?_⟩
  · unfold free
    rw [Nat.add_sub_cancel, if_pos (Function.update_self ..), Function.update_idem]
  · exact outputs_eq call_alike ⟨rfl, SameMarks.of_update hfree (by decide)⟩

end OsThing.UserAlloc

namespace OsThing

open Runs

/--
**`free` undoes `malloc`, in the kernel and in a process.**  From every state of the heap, if
it did not have to grow: what is allocated and freed at once does not show in what any calls
after it return, nor in where they grow the heap.
-/
theorem free_undoes_malloc :
    (∀ (heap : Alloc.Heap) (mem mem₁ : Alloc.Mem) (size : UInt32) (align p : Nat),
      Alloc.mallocAny heap mem size align = some (p, heap, mem₁) →
        ∃ mem₂, Alloc.freeF mem₁ p = some mem₂ ∧ ∀ calls,
          outputs Alloc.call (heap, mem₂) calls = outputs Alloc.call (heap, mem) calls) ∧
      ∀ (heap : UserAlloc.Heap) (mem mem₁ : UserAlloc.Mem) (size : Int32) (p : Nat),
        UserAlloc.malloc heap mem size = some (p, heap, mem₁) →
          ∃ mem₂, UserAlloc.free mem₁ p = some mem₂ ∧ ∀ calls,
            outputs UserAlloc.call (heap, mem₂) calls = outputs UserAlloc.call (heap, mem) calls :=
  ⟨fun _ _ _ _ _ _ h => Alloc.free_undoes h, fun _ _ _ _ _ h => UserAlloc.free_undoes h⟩

/-- A megabyte of the kernel, and 12 bytes of a process. -/
theorem free_undoes_malloc_fresh :
    (∃ mem₂, Alloc.freeF (Function.update (fun _ => 0) 0xc0200000 Alloc.kheapMagic) 0xc0200004 =
        some mem₂ ∧ ∀ calls,
      outputs Alloc.call (Alloc.initHeap Alloc.kheapStart Alloc.kheapSize, mem₂) calls =
        outputs Alloc.call (Alloc.initHeap Alloc.kheapStart Alloc.kheapSize, fun _ => 0) calls) ∧
      ∃ mem₂, UserAlloc.free (Function.update (fun _ => 0) 0x1010 UserAlloc.MAGIC) 0x1014 =
          some mem₂ ∧ ∀ calls,
        outputs UserAlloc.call (⟨0x1000, 32, 0x1020⟩, mem₂) calls =
          outputs UserAlloc.call (⟨0x1000, 32, 0x1020⟩, fun _ => 0) calls :=
  ⟨free_undoes_malloc.1 _ _ _ 0x100000 0 _ (Alloc.mallocAny_of_search Alloc.search_megabyte),
    free_undoes_malloc.2 _ _ _ 12 _ (UserAlloc.malloc_of_search (UserAlloc.growFor_self (by decide))
      UserAlloc.descend_twelve)⟩

end OsThing
