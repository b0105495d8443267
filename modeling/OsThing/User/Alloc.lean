/-
The heap of a user process, as `user/lib/alloc.c` computes it.

It is the scheme of the kernel heap in bytes: one block that is halved over and over,
with a header word at the start of every half that is taken.  The block starts where the
break of the process was at the first call and doubles when nothing is found.

`sbrk` extends the region in place, until there are no more addresses; a request that
needs more of them is `none` here, and so is a `free` that ends the process.  What the
new memory holds is whatever `mem` already says.  Memory is a function from addresses to
32-bit words, of which the allocator only sees every fourth one from `h_pos` on.
`t_size`, which nothing reads, is left out.
-/
import OsThing.Lib.HalvingSearch
import Mathlib.Data.UInt

namespace OsThing.UserAlloc

open Halving Halving.Block

abbrev Mem := Nat → Nat

def MAGIC : Nat := 0xdeadbabe
def FREED : Nat := 0xfee1dead

/-- `sizeof( mnode_t )`, and of a pointer to one. -/
def nodeBytes : Nat := 4

/-- `h_pos` and `h_size`, and the break of the process. -/
structure Heap where
  hPos : Nat
  hSize : Nat
  brk : Nat

def Heap.block (h : Heap) : Block := ⟨h.hPos, h.hSize⟩

@[simp] theorem Heap.block_start (h : Heap) : h.block.start = h.hPos := rfl
@[simp] theorem Heap.block_size (h : Heap) : h.block.size = h.hSize := rfl

/-- `sbrk( inc )`: the new break. -/
def sbrk (brk inc : Nat) : Option Nat := if brk + inc < 2 ^ 32 then some (brk + inc) else none

def resize (h : Heap) : Option Heap :=
  let hPos := if h.hPos = 0 then h.brk else h.hPos
  if h.hSize ≠ 0 then (sbrk h.brk h.hSize).map fun brk => ⟨hPos, 2 * h.hSize, brk⟩
  else (sbrk h.brk 8).map fun brk => ⟨hPos, 8, brk⟩

/-- `find_free`: the address to return and the memory afterwards. -/
def findFree (mem : Mem) (node nodeSize size : Nat) : Nat × Mem :=
  let s := nodeSize / 2
  let temp := node + s
  if s < nodeBytes ∨ (mem temp = MAGIC ∧ mem node = MAGIC) then (0, mem)
  else
    let below :=
      if size < s / 2 then
        match findFree mem temp s size with
        | (0, mem') => findFree mem' node s size
        | found => found
      else (0, mem)
    match below with
    | (0, mem') =>
        if mem' temp ≠ MAGIC then (temp + nodeBytes, Function.update mem' temp MAGIC)
        else if mem' node ≠ MAGIC then (node + nodeBytes, Function.update mem' node MAGIC)
        else (0, mem')
    | found => found
termination_by nodeSize
decreasing_by
  all_goals
    rename_i h _
    simp only [nodeBytes] at h
    omega

theorem sbrk_eq_some {brk inc brk' : Nat} :
    sbrk brk inc = some brk' ↔ brk + inc < 2 ^ 32 ∧ brk + inc = brk' := by
  simp [sbrk]

/-- **What `resize` does.**  The block doubles in place, or is the first one of 8 bytes. -/
theorem resize_spec {h h' : Heap} (hresize : resize h = some h') :
    h'.hPos = (if h.hPos = 0 then h.brk else h.hPos) ∧ h'.brk < 2 ^ 32 ∧
      (h.hSize ≠ 0 ∧ h'.hSize = 2 * h.hSize ∧ h'.brk = h.brk + h.hSize ∨
        h.hSize = 0 ∧ h'.hSize = 8 ∧ h'.brk = h.brk + 8) := by
  unfold resize at hresize
  dsimp only at hresize
  by_cases hzero : h.hSize = 0
  · rw [if_neg (not_not_intro hzero)] at hresize
    obtain ⟨brk, hbrk, rfl⟩ := Option.map_eq_some_iff.mp hresize
    obtain ⟨hlt, rfl⟩ := sbrk_eq_some.mp hbrk
    exact ⟨rfl, hlt, Or.inr ⟨hzero, rfl, rfl⟩⟩
  · rw [if_pos hzero] at hresize
    obtain ⟨brk, hbrk, rfl⟩ := Option.map_eq_some_iff.mp hresize
    obtain ⟨hlt, rfl⟩ := sbrk_eq_some.mp hbrk
    exact ⟨rfl, hlt, Or.inl ⟨hzero, rfl, rfl⟩⟩

/-- There are fewer addresses left, so the loops below end. -/
theorem resize_brk {h h' : Heap} (hresize : resize h = some h') :
    h.brk < h'.brk ∧ h'.brk < 2 ^ 32 := by
  obtain ⟨-, hlt, ⟨_, _, _⟩ | ⟨_, _, _⟩⟩ := resize_spec hresize <;> omega

/-- `while ( size + sizeof( mnode_t ) > h_size / 2 ) resize();` -/
def growFor (need : Nat) (h : Heap) : Option Heap :=
  if h.hSize / 2 < need then
    match _hresize : resize h with
    | none => none
    | some h' => growFor need h'
  else some h
termination_by 2 ^ 32 - h.brk
decreasing_by
  have := resize_brk _hresize
  omega

/-- `while (( ret = find_free( h_pos, h_size, size + sizeof( mnode_t ))) == 0 ) resize();` -/
def findLoop (mem : Mem) (need : Nat) (h : Heap) : Option (Nat × Heap × Mem) :=
  match findFree mem h.hPos h.hSize need with
  | (0, mem') =>
      match _hresize : resize h with
      | none => none
      | some h' => findLoop mem' need h'
  | (ret, mem') => some (ret, h, mem')
termination_by 2 ^ 32 - h.brk
decreasing_by
  have := resize_brk _hresize
  omega

/-- `size + sizeof( mnode_t )`, which is unsigned although `size` is not. -/
def bytesFor (size : Int32) : Nat := (size.toUInt32 + 4).toNat

def malloc (h : Heap) (mem : Mem) (size : Int32) : Option (Nat × Heap × Mem) :=
  (growFor (bytesFor size) h).bind (findLoop mem (bytesFor size))

/-- `free`, or `none` if it prints its warning and exits. -/
def free (mem : Mem) (ptr : Nat) : Option Mem :=
  let p := ptr - nodeBytes
  if mem p = MAGIC then some (Function.update mem p FREED) else none

/-! ### A run of the heap and its callers -/

/-- What `find_free` takes a word for. -/
abbrev Taken (mem : Mem) (a : Nat) : Prop := mem a = MAGIC

/-- A live allocation: the pointer returned, the size asked for, and the half it comes from. -/
structure Grant where
  ptr : Nat
  size : Int32
  half : Block

structure HeapState where
  heap : Heap
  mem : Mem
  live : List Grant

inductive HeapOp
  | malloc (size : Int32)
  | free (ptr : Nat)
  /-- A caller stores into its own payload; `words` is what the memory then shows there. -/
  | store (ptr : Nat) (words : Mem)

/-- The word at `a` has a byte in `[p, p + size)`. -/
def Grant.Owns (g : Grant) (a : Nat) : Prop := (a : ℤ) < g.ptr + g.size.toInt ∧ g.ptr < a + 4

instance (g : Grant) (a : Nat) : Decidable (g.Owns a) := inferInstanceAs (Decidable (_ ∧ _))

/-- One call.  Only live pointers are freed, and only live payloads are written. -/
def heapStep (s : HeapState) : HeapOp → Option HeapState
  | .malloc size =>
      (malloc s.heap s.mem size).bind fun (ptr, heap, mem) =>
        (descend 1 3 (Taken s.mem) heap.block (bytesFor size)).map fun half =>
          { heap := heap, mem := mem, live := ⟨ptr, size, half⟩ :: s.live }
  | .free ptr =>
      if ∃ g ∈ s.live, g.ptr = ptr then
        (free s.mem ptr).map fun mem =>
          { s with mem := mem, live := s.live.eraseP (·.ptr = ptr) }
      else none
  | .store ptr words =>
      match s.live.find? (·.ptr = ptr) with
      | some g => some { s with mem := fun a => if g.Owns a then words a else s.mem a }
      | none => none

/-- A process that has not called `malloc` yet. -/
def HeapState.init (brk : Nat) (mem : Mem) : HeapState := ⟨⟨0, 0, brk⟩, mem, []⟩

/-- The byte at `a` is in `[p - 4, p + size)`: header and payload. -/
def Grant.Covers (g : Grant) (a : ℤ) : Prop := (g.ptr : ℤ) - 4 ≤ a ∧ a < g.ptr + g.size.toInt

/-- No two live allocations have a byte in common. -/
def RangesDisjoint (s : HeapState) : Prop :=
  s.live.Pairwise fun g g' => ∀ a, g.Covers a → ¬ g'.Covers a

end OsThing.UserAlloc
