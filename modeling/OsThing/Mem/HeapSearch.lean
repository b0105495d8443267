/-
The search of the two heaps, `find_free_node` of `kern/mem/alloc.c` and `find_free` of
`user/lib/alloc.c`, in a memory of bytes.

They are the functions of `Mem/Alloc.lean` and `User/Alloc.lean`.  There a block is a range of
addresses that is somewhere in memory as a whole; here node, node size and request are any
values of 32 bits, and addresses wrap around.  Pointers to nodes count words in the kernel, and
bytes in a process.  The lengths of halves are below 2^31, so that it makes no difference that
`s` has a sign in the kernel.
-/
import OsThing.Lib.Ram

namespace OsThing.HeapSearch

open Ram

/-- In what the two functions differ. -/
structure Scheme where
  /-- Bytes to a unit of `node_size`. -/
  unit : UInt32
  tooSmall : UInt32 → Bool
  magic : UInt32
  wide : ∀ s, tooSmall s = false → 4 ≤ unit.toNat * s.toNat

/-- `sizeof( kmem_node_t )`, and `sizeof( mnode_t )`. -/
def nodeBytes : UInt32 := 4

theorem Scheme.not_tooSmall {v : Scheme} {s : UInt32} {p : Prop}
    (h : ¬ (v.tooSmall s = true ∨ p)) : v.tooSmall s = false :=
  Bool.eq_false_iff.mpr fun hsmall => h (Or.inl hsmall)

theorem Scheme.half_lt {v : Scheme} {nodeSize : UInt32} (h : v.tooSmall (nodeSize / 2) = false) :
    (nodeSize / 2).toNat < nodeSize.toNat := by
  have hwide := v.wide _ h
  have hpos : (nodeSize / 2).toNat ≠ 0 := fun hzero => by
    rw [hzero, Nat.mul_zero] at hwide
    exact Nat.not_succ_le_zero _ hwide
  have hhalf : (nodeSize / 2).toNat = nodeSize.toNat / 2 := UInt32.toNat_div nodeSize 2
  omega

/-- The pointer that is returned, and the memory. -/
def search (v : Scheme) (m : Memory) (node nodeSize size : UInt32) : UInt32 × Memory :=
  let s := nodeSize / 2
  let temp := node + v.unit * s
  if v.tooSmall s ∨ (word m temp = v.magic ∧ word m node = v.magic) then (0, m)
  else
    let below :=
      if size < s / 2 then
        let right := search v m temp s size
        if right.1 ≠ 0 then right else search v right.2 node s size
      else (0, m)
    if below.1 ≠ 0 then below
    else if word below.2 temp ≠ v.magic then (temp + nodeBytes, setWord below.2 temp v.magic)
    else if word below.2 node ≠ v.magic then (node + nodeBytes, setWord below.2 node v.magic)
    else (0, below.2)
termination_by nodeSize.toNat
decreasing_by
  all_goals
    have hroom : ¬ (v.tooSmall (nodeSize / 2) = true ∨ _) := ‹_›
    exact Scheme.half_lt (Scheme.not_tooSmall hroom)

def kheapMagic : UInt32 := 0xfee1dead
def kheapMinAlloc : UInt32 := 4

/-- `MAGIC` of `user/lib/alloc.c`. -/
def MAGIC : UInt32 := 0xdeadbabe

def kernelScheme : Scheme where
  unit := 4
  tooSmall s := s ≤ kheapMinAlloc
  magic := kheapMagic
  wide := by
    intro s hs
    have hlt : kheapMinAlloc < s := UInt32.not_le.mp (of_decide_eq_false hs)
    have hnat : 4 < s.toNat := UInt32.lt_iff_toNat_lt.mp hlt
    show 4 ≤ 4 * s.toNat
    omega

def userScheme : Scheme where
  unit := 1
  tooSmall s := s < 4
  magic := MAGIC
  wide := by
    intro s hs
    have hle : (4 : UInt32) ≤ s := UInt32.not_lt.mp (of_decide_eq_false hs)
    have hnat : 4 ≤ s.toNat := UInt32.le_iff_toNat_le.mp hle
    show 4 ≤ 1 * s.toNat
    omega

/-- `find_free_node`, which does nothing with `align`. -/
def findFreeNode (m : Memory) (node nodeSize size _align : UInt32) : UInt32 × Memory :=
  search kernelScheme m node nodeSize size

/-- `find_free` -/
def findFree (m : Memory) (node nodeSize size : UInt32) : UInt32 × Memory :=
  search userScheme m node nodeSize size

end OsThing.HeapSearch
