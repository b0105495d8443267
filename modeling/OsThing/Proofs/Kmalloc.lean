/-
What `kmalloc` returns, and how often its heap grows for it.

The search is the one of `Proofs/KernelHeap`, so that what `malloc_f` returns lies one
header behind the start of a half.  The heap has a power of two of words, and halves of more
than four words start at multiples of 32, so that such an address is on no page boundary:
`kmalloc_aligned_iff`.

A block whose half is taken without looking at the size is the one at the top, since on the
way down the size is compared each time: `block_big_enough_iff`.

After one expansion the right half of the heap is new memory, whose header is not taken, so
the second search finds something.  While the heap grows it is marked full, and then no
call of `kmalloc` goes round another time: `malloc_f_expands_once`.
-/
import OsThing.Mem.Kmalloc
import OsThing.Proofs.KernelHeap
import OsThing.Proofs.BootMap

namespace OsThing.Alloc

open Halving Halving.Block

/-! ### The lengths of the heap -/

theorem expand_size {h h' : Heap} (hexpand : expand h = some h') :
    h' = { h with size := 2 * h.size, full := false } ∧ h.root + 8 * h.size + 0x10100 < 2 ^ 32 := by
  unfold expand at hexpand
  dsimp only at hexpand
  split at hexpand
  · rename_i hroom
    obtain rfl := Option.some.inj hexpand
    refine ⟨?_, by omega⟩
    congr 1
    omega
  · cases hexpand

/-- The heap of the kernel starts where it starts, and has a power of two of words. -/
theorem Made.spec {h : Heap} (hmade : Made h) :
    h.root = kheapStart ∧ ∃ k, 20 ≤ k ∧ k < 28 ∧ h.size = 2 ^ k := by
  induction hmade with
  | init => exact ⟨rfl, 20, Nat.le_refl _, by decide, rfl⟩
  | @expand h h' _ hexpand ih =>
      obtain ⟨hroot, k, hlo, hhi, hsize⟩ := ih
      obtain ⟨rfl, hroom⟩ := expand_size hexpand
      refine ⟨hroot, k + 1, by omega, ?_, ?_⟩
      · by_contra hge
        obtain rfl : k = 27 := by omega
        rw [hroot, hsize] at hroom
        exact absurd hroom (by decide)
      · show 2 * h.size = _
        rw [hsize, Nat.pow_succ, Nat.mul_comm]
  | mark _ _ ih => exact ih

theorem Kheap.grow_spec {h h' : Kheap} (hgrow : h.grow = some h') :
    expand h.heap = some h'.heap := by
  rw [← h.grow_heap, hgrow]
  rfl

/-- A half of the heap with a payload starts at a multiple of 32. -/
theorem Made.half_aligned {h : Heap} (hmade : Made h) {half : Block}
    (hin : Proper 4 h.block half) (hwide : 4 < half.size) : half.start % 32 = 0 := by
  obtain ⟨hroot, k, -, -, hsize⟩ := hmade.spec
  obtain ⟨j, -, hj, m, hstart⟩ := hin.within.aligned (Nat.zero_lt_of_lt hwide) hsize
  have hdvd : 2 ^ 3 ∣ 2 ^ j := by
    refine Nat.pow_dvd_pow 2 (Nat.le_of_not_lt fun hlt => ?_)
    have hle : 2 ^ j ≤ 2 ^ 2 := Nat.pow_le_pow_right (by decide) (Nat.le_of_lt_succ hlt)
    omega
  obtain ⟨n, hn⟩ := hdvd
  have hroot : h.block.start = 0xc0000000 := hroot
  have hmul : 4 * (2 ^ 3 * n) * m = 32 * (n * m) := by ring
  rw [hstart, hroot, hn, hmul]
  omega

/-! ### Blocks that are big enough -/

/-- For `p`, which `malloc_f` returned, the search marked a half of the heap whose header is the
word before `p`, and the `size` bytes from `p` on lie in this half and in the heap. -/
def BigEnough (mem : Mem) (heap : Heap) (size : UInt32) (p : Nat) : Prop :=
  ∃ half, search mem heap.block (bytesFor size) = some half ∧ Proper 4 heap.block half ∧
    half.start + nodeBytes = p ∧ p + size.toNat ≤ half.stop 4 ∧
    heap.root ≤ p ∧ p + size.toNat ≤ heap.block.stop 4

/-- The first heap that is not exhausted, of those that doubling gives, has halves of at least
`size` bytes and a header. -/
def Fitting (mem : Mem) (heap : Heap) (size : UInt32) : Prop :=
  ∃ k, (∀ j < k, Exhausted mem (grown heap.block j)) ∧ ¬ Exhausted mem (grown heap.block k) ∧
    size.toNat + nodeBytes ≤ 4 * ((grown heap.block k).size / 2)

theorem mallocTries_made {mem mem' : Mem} {need align ret : Nat} {heap' : Heap} :
    ∀ {tries : Nat} {heap : Heap}, Made heap →
      mallocTries mem need align tries heap = some (ret, heap', mem') → Made heap' := by
  intro tries
  induction tries with
  | zero => intro heap _ h; cases h
  | succ tries ih =>
      intro heap hmade h
      rw [mallocTries] at h
      split at h
      · obtain ⟨big, hbig, hloop⟩ := Option.bind_eq_some_iff.mp h
        exact ih (.expand hmade hbig) hloop
      · simp only [Option.some.injEq, Prod.mk.injEq] at h
        obtain ⟨-, rfl, -⟩ := h
        exact hmade

/-- Of the heaps that doubling gives, only one is the first that is not exhausted. -/
theorem grown_unique {mem : Mem} {b : Block} {j k : Nat}
    (hj : ∀ i < j, Exhausted mem (grown b i)) (hj' : ¬ Exhausted mem (grown b j))
    (hk : ∀ i < k, Exhausted mem (grown b i)) (hk' : ¬ Exhausted mem (grown b k)) : j = k := by
  rcases Nat.lt_trichotomy j k with hlt | heq | hgt
  · exact absurd (hk j hlt) hj'
  · exact heq
  · exact absurd (hj k hgt) hk'

/-- The half that the search marks is no longer than a half of the heap, and no shorter than
the request if that is. -/
theorem fits_half_iff {mem : Mem} {heap : Heap} {half : Block} {need : Nat}
    (hsearch : search mem heap.block need = some half) :
    need ≤ 4 * half.size ↔ need ≤ 4 * (heap.size / 2) := by
  refine ⟨fun hle => Nat.le_trans hle ?_, search_fits hsearch⟩
  obtain ⟨hleft | hright, -, -⟩ := search_spec hsearch
  · exact Nat.mul_le_mul_left 4 hleft.size_le
  · exact Nat.mul_le_mul_left 4 hright.size_le

/--
**A block is big enough exactly if the request fits a half of the heap that is searched.**
For every memory and every size, where the heap is one that `init_heap` and `expand` made.
-/
theorem block_big_enough_iff {heap heap' : Heap} {mem mem' : Mem} {size : UInt32} {align p : Nat}
    (hmade : Made heap) (h : mallocAny heap mem size align = some (p, heap', mem')) :
    BigEnough mem heap' size p ↔ Fitting mem heap size := by
  obtain ⟨k, half, hblock, hex, hsearch, rfl, -⟩ := mallocTries_spec h
  obtain ⟨hroot, n, -, hn, hsize⟩ := (mallocTries_made hmade h).spec
  obtain ⟨hin, -, -⟩ := search_spec hsearch
  have hbounds := hin.within.bounds
  have hroom : ¬ Exhausted mem (grown heap.block k) := fun hexhausted => by
    rw [hblock, search_eq_none.mpr hexhausted] at hsearch
    cases hsearch
  have hgrown : (grown heap.block k).size = heap'.size := by rw [← hblock, Heap.block_size]
  -- a half of the heap has less than 2 ^ 29 bytes, so that the sum does not overflow
  have hsmall : heap'.size < 2 ^ 28 := by
    rw [hsize]
    exact Nat.pow_lt_pow_right (by decide) hn
  have hfit := fits_half_iff hsearch
  have hsum : size.toNat + nodeBytes < 2 ^ 32 → bytesFor size = size.toNat + nodeBytes := by
    intro hlt
    rw [bytesFor, UInt32.toNat_add]
    exact Nat.mod_eq_of_lt hlt
  constructor
  · rintro ⟨half', hsearch', -, hptr, hend, -⟩
    obtain rfl := Option.some.inj (hsearch.symm.trans hsearch')
    refine ⟨k, hex, hroom, ?_⟩
    have hle : size.toNat + nodeBytes ≤ 4 * half.size := by
      simp only [stop] at hend
      omega
    have hhalf : half.size ≤ heap'.size := hin.within.size_le
    rw [hgrown, ← hsum (by omega)]
    exact hfit.mp (hsum (by omega) ▸ hle)
  · rintro ⟨j, hj, hj', hle⟩
    obtain rfl := grown_unique hj hj' hex hroom
    rw [hgrown] at hle
    have hle : size.toNat + nodeBytes ≤ 4 * half.size := by
      have hlt : size.toNat + nodeBytes < 2 ^ 32 := by omega
      rw [← hsum hlt] at hle ⊢
      exact hfit.mpr hle
    simp only [stop, Heap.block_start, Heap.block_size] at hbounds
    refine ⟨half, hsearch, hin, rfl, ?_, ?_, ?_⟩
    · simp only [stop]
      omega
    · omega
    · simp only [stop, Heap.block_start, Heap.block_size]
      omega

/-- A search that finds something at once decides what `malloc_f` returns. -/
theorem mallocAny_of_search {heap : Heap} {mem : Mem} {size : UInt32} {align : Nat} {half : Block}
    (hsearch : search mem heap.block (bytesFor size) = some half) :
    mallocAny heap mem size align =
      some (half.start + nodeBytes, heap, Function.update mem half.start kheapMagic) := by
  have hfind := findFreeNode_eq mem (bytesFor size) align heap.block
  rw [hsearch, Heap.block_start, Heap.block_size] at hfind
  rw [mallocAny, mallocTries, hfind]
  simp [granted, nodeBytes]

/-- A request of a megabyte at the start. -/
theorem search_megabyte : search (fun _ => 0) (initHeap kheapStart kheapSize).block
    (bytesFor 0x100000) = some ⟨0xc0200000, 0x80000⟩ := by
  simp [search, Exhausted, freeHalf, initHeap, kheapStart, kheapSize, kheapMinAlloc, kheapMagic,
    Block.right, show bytesFor 0x100000 = 0x100004 from rfl]

theorem block_big_enough_megabyte :
    BigEnough (fun _ => 0) (initHeap kheapStart kheapSize) 0x100000 0xc0200004 ↔
      Fitting (fun _ => 0) (initHeap kheapStart kheapSize) 0x100000 :=
  @block_big_enough_iff _ _ _ _ 0x100000 0 _ .init (mallocAny_of_search search_megabyte)

theorem search_two_megabytes : search (fun _ => 0) (initHeap kheapStart kheapSize).block
    (bytesFor 0x200000) = some ⟨0xc0200000, 0x80000⟩ := by
  simp [search, Exhausted, freeHalf, initHeap, kheapStart, kheapSize, kheapMinAlloc, kheapMagic,
    Block.right, show bytesFor 0x200000 = 0x200004 from rfl]

/-- **Two megabytes and a header are put in two megabytes**, at the end of the heap. -/
theorem block_too_small : ¬ ∀ (heap heap' : Heap) (mem mem' : Mem) (size : UInt32) (align p : Nat),
    Made heap → mallocAny heap mem size align = some (p, heap', mem') →
      BigEnough mem heap' size p := by
  intro h
  obtain ⟨half, hsearch, -, -, hend, -⟩ :=
    h _ _ _ _ 0x200000 0 _ .init (mallocAny_of_search search_two_megabytes)
  obtain rfl := Option.some.inj (search_two_megabytes.symm.trans hsearch)
  exact absurd hend (by decide)

end OsThing.Alloc

namespace OsThing.Paging

open Bytes Alloc Halving Halving.Block

namespace Kernel

/-! ### What the search returns -/

/-- The header at `a` says that its half is taken. -/
def mark (k : Kernel) (a : Nat) : Kernel :=
  { k with paging := { k.paging with mem := write32 k.paging.mem a kheapMagic } }

@[simp] theorem mark_kheap (k : Kernel) (a : Nat) : (k.mark a).kheap = k.kheap := rfl

theorem find_eq {k : Kernel} {h : Kheap} (hk : k.kheap = some h) (need align : Nat) :
    k.find need align = (search (read32 k.paging.mem) h.heap.block need).elim (0, k)
      fun half => (half.start + nodeBytes, k.mark half.start) := by
  have hfind := findFreeNode_eq (read32 k.paging.mem) need align h.heap.block
  rw [Heap.block_start, Heap.block_size] at hfind
  unfold find
  simp only [hk]
  rcases hs : search (read32 k.paging.mem) h.heap.block need with _ | half
  · rw [hs] at hfind
    simp only [hfind, Option.elim_none]
  · rw [hs] at hfind
    simp [hfind, granted, nodeBytes, mark, hk]

/-- `k` found `half` for `need` bytes in its heap, and that is what `malloc_f` returned. -/
structure Found (need : Nat) (k k' : Kernel) (ret : Nat) (h : Kheap)
    (half : Halving.Block) : Prop where
  heap : k.kheap = some h
  searched : search (read32 k.paging.mem) h.heap.block need = some half
  ret : ret = half.start + nodeBytes
  marked : k' = k.mark half.start

theorem find_found {need align ret : Nat} {k k' : Kernel} (hfind : k.find need align = (ret, k'))
    (hret : ret ≠ 0) : ∃ h half, Found need k k' ret h half := by
  rcases hk : k.kheap with _ | h
  · unfold find at hfind
    simp only [hk, Prod.mk.injEq] at hfind
    exact absurd hfind.1.symm hret
  · rw [find_eq hk] at hfind
    rcases hs : search (read32 k.paging.mem) h.heap.block need with _ | half
    · rw [hs] at hfind
      exact absurd (congrArg Prod.fst hfind).symm hret
    · rw [hs] at hfind
      obtain ⟨rfl, rfl⟩ := Prod.mk.inj hfind
      exact ⟨h, half, hk, hs, rfl, rfl⟩

/-- When the search finds nothing it changes nothing, and the heap is exhausted. -/
theorem find_zero {need align : Nat} {k k' : Kernel} (hfind : k.find need align = (0, k')) :
    k' = k ∧ ∀ h, k.kheap = some h → Exhausted (read32 k.paging.mem) h.heap.block := by
  rcases hk : k.kheap with _ | h
  · unfold find at hfind
    simp only [hk, Prod.mk.injEq] at hfind
    exact ⟨hfind.2.symm, fun h hsome => by cases hsome⟩
  · rw [find_eq hk] at hfind
    rcases hs : search (read32 k.paging.mem) h.heap.block need with _ | half
    · rw [hs] at hfind
      refine ⟨(congrArg Prod.snd hfind).symm, fun h' hsome => ?_⟩
      obtain rfl := Option.some.inj hsome
      exact search_eq_none.mp hs
    · rw [hs] at hfind
      exact absurd (congrArg Prod.fst hfind) (Nat.succ_ne_zero _)

section Spec

variable {kmalloc : Kernel → Except Halt (Block × Kernel)} {need align ret : Nat} {k k' : Kernel}

/-- A search that ends, or another try. -/
theorem retry_cases {left : Nat}
    (hretry : k.retry kmalloc need align left = .ok (ret, k')) :
    ∃ left' k₁, left = left' + 1 ∧ k.expand kmalloc = .ok k₁ ∧
      (k₁.find need align = (ret, k') ∧ ret ≠ 0 ∨
        ∃ k₂, k₁.find need align = (0, k₂) ∧ k₂.retry kmalloc need align left' = .ok (ret, k')) := by
  cases left with
  | zero =>
      rw [retry] at hretry
      cases hexpand : k.expand kmalloc <;> rw [hexpand] at hretry <;> cases hretry
  | succ left =>
      rw [retry] at hretry
      rcases hexpand : k.expand kmalloc with e | k₁
      · rw [hexpand] at hretry
        cases hretry
      · rw [hexpand] at hretry
        refine ⟨left, k₁, rfl, rfl, ?_⟩
        dsimp only [Except.bind] at hretry
        split at hretry
        · exact Or.inr ⟨_, ‹_›, hretry⟩
        · rename_i hne
          have hfound := Except.ok.inj hretry
          exact Or.inl ⟨hfound, fun hzero => hne k' (hzero ▸ hfound)⟩

/-- **What `malloc_f` returns** comes from a search in one of the heaps on the way. -/
theorem mallocF_spec {size : UInt32} (hmalloc : k.mallocF kmalloc size align = .ok (ret, k')) :
    ∃ k₁ h half, Found (bytesFor size) k₁ k' ret h half := by
  have hloop : ∀ left (k : Kernel), k.retry kmalloc (bytesFor size) align left = .ok (ret, k') →
      ∃ k₁ h half, Found (bytesFor size) k₁ k' ret h half := by
    intro left
    induction left with
    | zero =>
        intro k hretry
        obtain ⟨left', -, hzero, -⟩ := retry_cases hretry
        cases hzero
    | succ left ih =>
        intro k hretry
        obtain ⟨left', k₁, hleft, -, ⟨hfind, hret⟩ | ⟨k₂, -, hrest⟩⟩ := retry_cases hretry
        · exact ⟨k₁, find_found hfind hret⟩
        · obtain rfl := Nat.succ.inj hleft
          exact ih k₂ hrest
  unfold mallocF at hmalloc
  split at hmalloc
  · exact hloop _ _ hmalloc
  · rename_i hne
    have hfound := Except.ok.inj hmalloc
    exact ⟨k, find_found hfound fun hzero => hne k' (hzero ▸ hfound)⟩

end Spec

/-! ### Alignment -/

/-- What comes from the heap is on no page boundary. -/
theorem Found.unaligned {need ret : Nat} {k k' : Kernel} {h : Kheap}
    {half : Halving.Block} (hfound : Found need k k' ret h half) : ret % 32 = 4 := by
  obtain ⟨hin, hwide, -⟩ := search_spec hfound.searched
  have haligned := h.made.half_aligned hin hwide
  rw [hfound.ret]
  unfold nodeBytes
  omega

theorem kmallocE_spec {size align : Nat} {k k' : Kernel} {block : Block}
    (h : k.kmallocE size align = .ok (block, k')) :
    block.addr = (if align = 0 then k.paging.placement else pageUp k.paging.placement) ∧
      block.physical = block.addr ∧
      k' = { k with paging := { k.paging with placement := block.addr + size } } := by
  unfold kmallocE at h
  dsimp only at h
  generalize (if align = 0 then k.paging.placement else pageUp k.paging.placement) = addr at h ⊢
  split at h
  · obtain ⟨rfl, rfl⟩ := Prod.mk.inj (Except.ok.inj h)
    exact ⟨rfl, rfl, rfl⟩
  · cases h

/--
**An aligned request gets a page boundary exactly if it is served early**, when there is no
heap or the heap is marked full.  From the heap it never does.
-/
theorem kmalloc_aligned_iff {depth align : Nat} {size : UInt32} {k k' : Kernel}
    {block : Block} (halign : align ≠ 0)
    (h : k.kmalloc depth size align = .ok (block, k')) :
    block.addr % pageSize = 0 ↔ k.kheap = none ∨ ∃ heap, k.kheap = some heap ∧ heap.heap.full := by
  cases depth with
  | zero => cases h
  | succ depth =>
      rw [kmalloc] at h
      by_cases hactive : k.HeapActive
      · rw [if_pos hactive] at h
        obtain ⟨heap, hheap, hfull⟩ := hactive
        rcases hmalloc : k.mallocF (kmalloc depth 0x1000 1) size align with e | found
        · rw [hmalloc] at h
          cases h
        · rw [hmalloc] at h
          obtain ⟨ret, k₁⟩ := found
          obtain ⟨rfl, rfl⟩ := Prod.mk.inj (Except.ok.inj h)
          obtain ⟨_, _, _, hfound⟩ := mallocF_spec hmalloc
          have hmod := hfound.unaligned
          refine iff_of_false (fun hzero => ?_) ?_
          · dsimp only at hzero
            unfold pageSize at hzero
            omega
          · rintro (hnone | ⟨heap', hheap', hfull'⟩)
            · cases hheap.symm.trans hnone
            · obtain rfl := Option.some.inj (hheap.symm.trans hheap')
              rw [hfull] at hfull'
              cases hfull'
      · rw [if_neg hactive] at h
        obtain ⟨haddr, -⟩ := kmallocE_spec h
        rw [if_neg halign] at haddr
        refine iff_of_true (haddr ▸ (pageUp_spec _).1) ?_
        rcases hk : k.kheap with _ | heap
        · exact Or.inl rfl
        · refine Or.inr ⟨heap, rfl, ?_⟩
          by_contra hfull
          exact hactive ⟨heap, hk, Bool.eq_false_of_not_eq_true hfull⟩

/-- A search that finds something at once decides what `malloc_f` returns. -/
theorem mallocF_of_search {kmalloc : Kernel → Except Halt (Block × Kernel)} {size : UInt32}
    {align : Nat} {k : Kernel} {h : Kheap} {half : Halving.Block} (hk : k.kheap = some h)
    (hsearch : search (read32 k.paging.mem) h.heap.block (bytesFor size) = some half) :
    k.mallocF kmalloc size align = .ok (half.start + nodeBytes, k.mark half.start) := by
  have hfind := find_eq hk (bytesFor size) align
  rw [hsearch, Option.elim_some] at hfind
  unfold mallocF
  simp [hfind, nodeBytes]

theorem kmalloc_of_search {depth align : Nat} {size : UInt32} {k : Kernel} {h : Kheap}
    {half : Halving.Block} (hk : k.kheap = some h) (hfull : h.heap.full = false)
    (hsearch : search (read32 k.paging.mem) h.heap.block (bytesFor size) = some half) :
    k.kmalloc (depth + 1) size align =
      .ok (⟨half.start + nodeBytes, (k.mark half.start).paging.getPage (half.start + nodeBytes)
        k.current⟩, k.mark half.start) := by
  rw [kmalloc, if_pos ⟨h, hk, hfull⟩, mallocF_of_search hk hsearch]
  rfl

/-- A kernel with nothing in its heap, and no frames. -/
def freshKernel : Kernel where
  paging := State.empty (fun _ => 0) [] 0x200000
  kheap := some ⟨initHeap kheapStart kheapSize, .init⟩
  current := 0

/-- The first page table from the heap. -/
theorem freshKernel_search : search (read32 freshKernel.paging.mem)
    (initHeap kheapStart kheapSize).block (bytesFor 0x1000) = some ⟨0xc03f8000, 0x2000⟩ := by
  have hzero : read32 freshKernel.paging.mem = fun _ => 0 := rfl
  simp [hzero, search, Exhausted, freeHalf, initHeap, kheapStart, kheapSize, kheapMinAlloc,
    kheapMagic, Block.right, show bytesFor 0x1000 = 0x1004 from rfl]

theorem freshKernel_kmalloc : ∃ block k',
    freshKernel.kmalloc 2 0x1000 1 = .ok (block, k') ∧ block.addr = 0xc03f8004 :=
  ⟨_, _, @kmalloc_of_search 1 1 0x1000 freshKernel _ _ rfl rfl freshKernel_search, rfl⟩

theorem kmalloc_aligned_iff_fresh : ∃ block k', freshKernel.kmalloc 2 0x1000 1 = .ok (block, k') ∧
    (block.addr % pageSize = 0 ↔ freshKernel.kheap = none ∨
      ∃ heap, freshKernel.kheap = some heap ∧ heap.heap.full) := by
  obtain ⟨block, k', hk', -⟩ := freshKernel_kmalloc
  exact ⟨block, k', hk', kmalloc_aligned_iff (by decide) hk'⟩

/-- **A page table from the heap is not aligned.** -/
theorem kmalloc_unaligned : ¬ ∀ (depth align : Nat) (size : UInt32) (k k' : Kernel) (block : Block),
    align ≠ 0 → k.kmalloc depth size align = .ok (block, k') → block.addr % pageSize = 0 := by
  intro h
  obtain ⟨block, k', hk', haddr⟩ := freshKernel_kmalloc
  have haligned := h 2 1 0x1000 freshKernel k' block (by decide) hk'
  rw [haddr] at haligned
  exact absurd haligned (by decide)

/-! ### Page tables while the heap is full -/

/-- The kernel after a call that gives `p`. -/
def put (k : Kernel) (p : Option State) : Except Halt Kernel :=
  p.elim (.error .stuck) fun p => .ok { k with paging := p }

@[simp] theorem put_some (k : Kernel) (p : State) : k.put (some p) = .ok { k with paging := p } := rfl
@[simp] theorem put_none (k : Kernel) : k.put none = .error .stuck := rfl

theorem ok_bind {α β : Type} (a : α) (f : α → Except Halt β) : (Except.ok a >>= f) = f a := rfl

theorem error_bind {α β : Type} (e : Halt) (f : α → Except Halt β) :
    (Except.error e >>= f) = .error e := rfl

theorem put_eq_ok {k k' : Kernel} {p : Option State} (h : k.put p = .ok k') :
    ∃ p', p = some p' ∧ k' = { k with paging := p' } := by
  cases p with
  | none => cases h
  | some p => exact ⟨p, rfl, (Except.ok.inj h).symm⟩

theorem put_toOption {k k' : Kernel} {p : Option State} (h : (k.put p).toOption = some k') :
    p = some k'.paging := by
  cases p with
  | none => cases h
  | some p => exact Option.some.inj h ▸ rfl

/-- With early page tables, this is the `map_page` of `Mem/Paging`. -/
theorem mapPage_early (k : Kernel) (address permissions d : Nat) :
    k.mapPage (kmallocE pageSize 1) address permissions d =
      k.put (k.paging.mapPage address permissions d) := by
  rw [State.mapPage_eq_from]
  unfold mapPage State.mapPageFrom State.earlyBlock State.kmallocE kmallocE
  dsimp only
  rw [if_neg Nat.one_ne_zero]
  split
  · split
    · simp only [Option.map_some, Option.bind_some, Except.map, Except.bind]
      split
      · rename_i hnone
        rw [hnone]
        rfl
      · rename_i hsome
        rw [hsome]
        rfl
    · rfl
  · simp only [Option.bind_some, Except.bind]
    split
    · rename_i hnone
      rw [hnone]
      rfl
    · rename_i hsome
      rw [hsome]
      rfl

section Loop

variable {kmalloc : Kernel → Except Halt (Block × Kernel)} {R : Kernel → Prop}
  {start stop permissions d : Nat}

/-- A loop of calls, each of which is the `map_page` of `Mem/Paging`. -/
theorem foldlM_put (l : List Nat)
    (hmap : ∀ k, ∀ i ∈ l, R k → k.mapPage kmalloc (start + i * pageSize) permissions d =
      k.put (k.paging.mapPage (start + i * pageSize) permissions d))
    (hkeep : ∀ k i p, R k → k.paging.mapPage (start + i * pageSize) permissions d = some p →
      R { k with paging := p }) :
    ∀ k, R k → l.foldlM (fun k i => k.mapPage kmalloc (start + i * pageSize) permissions d) k =
      k.put (l.foldlM (fun p i => p.mapPage (start + i * pageSize) permissions d) k.paging) := by
  induction l with
  | nil => intro k _; rfl
  | cons i rest ih =>
      intro k hk
      rw [List.foldlM_cons, List.foldlM_cons, hmap k i List.mem_cons_self hk]
      rcases hpage : k.paging.mapPage (start + i * pageSize) permissions d with _ | p
      · rw [put_none, error_bind]
        rfl
      · rw [put_some, ok_bind, ih (fun k j hj => hmap k j (List.mem_cons_of_mem i hj)) _
          (hkeep k i p hk hpage), Option.bind_eq_bind, Option.bind_some]
        rfl

theorem mapPages_put
    (hmap : ∀ k, ∀ i < pageCount start stop, R k →
      k.mapPage kmalloc (start + i * pageSize) permissions d =
        k.put (k.paging.mapPage (start + i * pageSize) permissions d))
    (hkeep : ∀ k i p, R k → k.paging.mapPage (start + i * pageSize) permissions d = some p →
      R { k with paging := p }) {k : Kernel} (hk : R k) :
    k.mapPages kmalloc start stop permissions d =
      k.put (k.paging.mapPages start stop permissions d) := by
  unfold mapPages State.mapPages
  by_cases hend : space ≤ start + pageCount start stop * pageSize
  · rw [if_pos hend, if_pos hend, put_none]
  · rw [if_neg hend, if_neg hend]
    exact foldlM_put _ (fun k i hi => hmap k i (List.mem_range.mp hi)) hkeep k hk

end Loop

theorem mapPages_early (k : Kernel) (start stop permissions d : Nat) :
    k.mapPages (kmallocE pageSize 1) start stop permissions d =
      k.put (k.paging.mapPages start stop permissions d) :=
  @mapPages_put _ (fun _ => True) start stop permissions d
    (fun k _ _ _ => mapPage_early k _ permissions d) (fun _ _ _ _ _ => trivial) k trivial

/-- `map_pages` does not touch the heap, so that if `kmalloc` is served early at the start of
it, it is served early all the time. -/
theorem mapPages_congr {kmalloc : Kernel → Except Halt (Block × Kernel)} {k : Kernel}
    (hearly : ∀ k', k'.kheap = k.kheap → kmalloc k' = kmallocE pageSize 1 k')
    (start stop permissions d : Nat) : k.mapPages kmalloc start stop permissions d =
      k.put (k.paging.mapPages start stop permissions d) := by
  refine @mapPages_put _ (fun k' => k'.kheap = k.kheap) start stop permissions d
    (fun k' i _ hk' => ?_) (fun _ _ _ hk' _ => hk') k rfl
  rw [← mapPage_early]
  unfold mapPage
  rw [hearly k' hk']

theorem kmallocTable_early {k : Kernel} (depth : Nat) (hinactive : ¬ k.HeapActive) :
    kmallocTable (depth + 1) k = k.kmallocE pageSize 1 := by
  unfold kmallocTable kmalloc
  rw [if_neg hinactive]
  rfl

theorem not_heapActive_of_full {k : Kernel} {h : Kheap} (hk : k.kheap = some h)
    (hfull : h.heap.full = true) : ¬ k.HeapActive := by
  rintro ⟨h', hk', hactive⟩
  obtain rfl := Option.some.inj (hk.symm.trans hk')
  rw [hfull] at hactive
  cases hactive

/-- **Inside `expand` every `kmalloc` is served early.** -/
theorem expand_early (k : Kernel) (depth : Nat) :
    k.expand (kmallocTable (depth + 1)) = k.expand (kmallocE pageSize 1) := by
  have hearly : ∀ (h : Kheap) (k' : Kernel), k'.kheap = some h.fill →
      kmallocTable (depth + 1) k' = kmallocE pageSize 1 k' :=
    fun h k' hk' => kmallocTable_early depth (not_heapActive_of_full hk' rfl)
  unfold expand
  rcases hk : k.kheap with _ | h
  · rfl
  · dsimp only
    rcases hgrow : h.grow with _ | h'
    · dsimp only
    · dsimp only
      rw [mapPages_congr (hearly h), mapPages_early]

/-! ### One expansion is enough -/

/-- What `expand` does, when the page tables that it needs come early. -/
theorem expand_cases (k : Kernel) : k.expand (kmallocE pageSize 1) = .error .stuck ∨
    ∃ h h' p, k.kheap = some h ∧ h'.heap.root = h.heap.root ∧ h'.heap.size = 2 * h.heap.size ∧
      h'.heap.full = false ∧
      k.paging.mapPages (h.heap.root + h.heap.size * 4)
        (h.heap.root + h.heap.size * 4 * 2 + 0x100 + 0x10000) kernelPages k.current = some p ∧
      k.expand (kmallocE pageSize 1) = .ok { k with paging := p, kheap := some h' } := by
  unfold expand
  rcases hk : k.kheap with _ | h
  · exact Or.inl rfl
  dsimp only
  rcases hgrow : h.grow with _ | h'
  · exact Or.inl rfl
  dsimp only
  rw [mapPages_early]
  rcases hput : k.paging.mapPages (h.heap.root + h.heap.size * 4)
    (h.heap.root + h.heap.size * 4 * 2 + 0x100 + 0x10000) kernelPages k.current with _ | p
  · rw [put_none]
    exact Or.inl rfl
  · rw [put_some]
    obtain ⟨hspec, -⟩ := expand_size (h.grow_spec hgrow)
    refine Or.inr ⟨h, h', p, rfl, ?_, ?_, ?_, hput, rfl⟩
    · rw [hspec]
    · rw [hspec]
    · rw [hspec]

theorem expand_eq_ok {k k' : Kernel} (hexpand : k.expand (kmallocE pageSize 1) = .ok k') :
    ∃ h h' p, k.kheap = some h ∧ h'.heap.root = h.heap.root ∧ h'.heap.size = 2 * h.heap.size ∧
      h'.heap.full = false ∧
      k.paging.mapPages (h.heap.root + h.heap.size * 4)
        (h.heap.root + h.heap.size * 4 * 2 + 0x100 + 0x10000) kernelPages k.current = some p ∧
      k' = { k with paging := p, kheap := some h' } := by
  rcases k.expand_cases with hstuck | ⟨h, h', p, hk, hroot, hsize, hfull, hput, hok⟩
  · rw [hexpand] at hstuck
    cases hstuck
  · exact ⟨h, h', p, hk, hroot, hsize, hfull, hput, Except.ok.inj (hexpand.symm.trans hok)⟩

theorem expand_eq_error {k : Kernel} {e : Halt}
    (hexpand : k.expand (kmallocE pageSize 1) = .error e) : e = .stuck := by
  rcases k.expand_cases with hstuck | ⟨h, h', p, -, -, -, -, -, hok⟩
  · exact Except.error.inj (hexpand.symm.trans hstuck)
  · rw [hexpand] at hok
    cases hok

/-- The memory that `expand` would add to the heap holds no header of a taken half. -/
def GrowsFresh (k : Kernel) (h : Kheap) : Prop :=
  ∀ k', k.expand (kmallocE pageSize 1) = .ok k' → ∀ a, h.heap.root + 4 * h.heap.size ≤ a →
    a < h.heap.root + 8 * h.heap.size → read32 k'.paging.mem a ≠ kheapMagic

/-- After an expansion the right half of the heap is free. -/
theorem find_grown {k k' : Kernel} {h : Kheap} (hk : k.kheap = some h) (hfresh : GrowsFresh k h)
    (hexpand : k.expand (kmallocE pageSize 1) = .ok k') (need align : Nat) :
    (k'.find need align).1 ≠ 0 := by
  intro hzero
  obtain ⟨h₁, h', p, hk₁, hroot, hsize, -, -, hk'⟩ := expand_eq_ok hexpand
  obtain rfl := Option.some.inj (hk.symm.trans hk₁)
  have hexhausted := (find_zero (Prod.ext hzero rfl)).2 h' (by rw [hk'])
  obtain ⟨-, n, hn, -, hpow⟩ := h.made.spec
  have hbig : 2 ^ 20 ≤ h.heap.size := by
    rw [hpow]
    exact Nat.pow_le_pow_right (by decide) hn
  rcases hexhausted with hsmall | ⟨hright, -⟩
  · rw [Heap.block_size, hsize] at hsmall
    unfold kheapMinAlloc at hsmall
    omega
  · refine hfresh k' hexpand _ ?_ ?_ hright
    · rw [right_start, Heap.block_start, Heap.block_size, hroot, hsize]
      omega
    · rw [right_start, Heap.block_start, Heap.block_size, hroot, hsize]
      omega

/-- How `malloc_f` and the `kmalloc` around it return. -/
structure ExpandsOnce (k : Kernel) (depth : Nat) (size : UInt32) (align : Nat) : Prop where
  /-- Inside `expand` every `kmalloc` is `kmalloc_e`, -/
  early : k.expand (kmallocTable (depth + 1)) = k.expand (kmallocE pageSize 1)
  /-- so that two calls inside one another are as good as any number of them. -/
  nesting : k.kmalloc (depth + 2) size align = k.kmalloc 2 size align
  /-- `malloc_f` searches once, or expands once and searches again, -/
  once : k.mallocF (kmallocTable (depth + 1)) size align =
    if (k.find (bytesFor size) align).1 = 0 then
      (k.expand (kmallocE pageSize 1)).map (find (bytesFor size) align)
    else .ok (k.find (bytesFor size) align)
  /-- the second search finds something, -/
  found : ∀ k', k.expand (kmallocE pageSize 1) = .ok k' → (k'.find (bytesFor size) align).1 ≠ 0
  /-- and if a call does not return, it ran out of frames or addresses. -/
  halts : ∀ e, k.kmalloc (depth + 2) size align = .error e → e = .stuck

/-- One expansion, and a search that finds something. -/
theorem mallocF_once {k : Kernel} {h : Kheap} (hk : k.kheap = some h) (hfresh : GrowsFresh k h)
    (depth align : Nat) (size : UInt32) : k.mallocF (kmallocTable (depth + 1)) size align =
      if (k.find (bytesFor size) align).1 = 0 then
        (k.expand (kmallocE pageSize 1)).map (find (bytesFor size) align)
      else .ok (k.find (bytesFor size) align) := by
  rcases hfind : k.find (bytesFor size) align with ⟨ret, k₁⟩
  by_cases hret : ret = 0
  · subst hret
    obtain ⟨rfl, -⟩ := find_zero hfind
    have hretry : k₁.mallocF (kmallocTable (depth + 1)) size align =
        k₁.retry (kmallocTable (depth + 1)) (bytesFor size) align 4 := by
      unfold mallocF
      simp only [hfind]
    rw [if_pos rfl, hretry, retry, expand_early]
    rcases hexpand : k₁.expand (kmallocE pageSize 1) with e | k'
    · rfl
    · have hfound := find_grown hk hfresh hexpand (bytesFor size) align
      dsimp only [Except.bind, Except.map]
      split
      · rename_i hzero
        rw [hzero] at hfound
        exact absurd rfl hfound
      · rfl
  · rw [if_neg hret]
    unfold mallocF
    simp only [hfind]
    split
    · rename_i hpair
      exact absurd (congrArg Prod.fst hpair) hret
    · rfl

/--
**`malloc_f` expands the heap at most once, does not panic, and does not call itself again.**
In every state of the kernel, where the memory that is added holds no header, and for every
size.
-/
theorem malloc_f_expands_once {k : Kernel} {h : Kheap} (hk : k.kheap = some h)
    (hfresh : GrowsFresh k h) (depth align : Nat) (size : UInt32) :
    ExpandsOnce k depth size align := by
  have honce := fun depth => mallocF_once hk hfresh depth align size
  have hkmalloc : ∀ depth, k.kmalloc (depth + 2) size align =
      if k.HeapActive then
        (k.mallocF (kmallocTable (depth + 1)) size align).map answer
      else k.kmallocE size.toNat align := fun depth => by rw [kmalloc]; rfl
  refine ⟨expand_early k depth, ?_, honce depth, fun k' hexpand =>
    find_grown hk hfresh hexpand _ _, fun e herror => ?_⟩
  · rw [hkmalloc depth, hkmalloc 0, honce depth, honce 0]
  · rw [hkmalloc, honce] at herror
    split at herror
    · split at herror
      · rcases hexpand : k.expand (kmallocE pageSize 1) with e' | k'
        · rw [hexpand] at herror
          obtain rfl := Except.error.inj herror
          exact expand_eq_error hexpand
        · rw [hexpand] at herror
          cases herror
      · cases herror
    · unfold kmallocE at herror
      dsimp only at herror
      generalize (if align = 0 then k.paging.placement else pageUp k.paging.placement) = addr
        at herror
      split at herror
      · cases herror
      · exact (Except.error.inj herror).symm

/-! ### A heap with both halves taken -/

/-- The memory from the end of the tables on stays as it is. -/
theorem mapPages_memory {p p' : State} {start stop flags d : Nat} (hp : TablesOk p)
    (hflags : 0 < flags) (hsmall : flags < pageSize)
    (h : p.mapPages start stop flags d = some p') (a : Nat) (ha : p'.placement ≤ a) :
    read32 p'.mem a = read32 p.mem a := by
  have hloop := @mapPages_induct start stop flags d
    (fun _ p₁ => TablesOk p₁ ∧ ∀ a, p₁.placement ≤ a → read32 p₁.mem a = read32 p.mem a)
    (fun i _ p₁ p₂ hM hmap => by
      obtain ⟨htables, hsame⟩ := hM
      obtain ⟨hle, hmem⟩ := mapPage_memory htables hsmall hmap
      refine ⟨(mapPage_spec htables hflags hsmall hmap).tables, fun a ha => ?_⟩
      rw [hmem a ha, hsame a (hle.trans ha)])
    p p' ⟨hp, fun _ _ => rfl⟩ h
  exact hloop.2 a ha

/-- A kernel whose heap has a header at the start of each half. -/
def takenKernel : Kernel where
  paging := State.empty (write32 (write32 (fun _ => 0) 0xc0000000 kheapMagic) 0xc0200000 kheapMagic)
    bootFrames 0x200000
  kheap := some ⟨initHeap kheapStart kheapSize, .init⟩
  current := 0

theorem takenKernel_growsFresh : takenKernel.GrowsFresh ⟨initHeap kheapStart kheapSize, .init⟩ := by
  intro k' hexpand a hlo hhi
  obtain ⟨h, h', p, hk, -, -, -, hmap, rfl⟩ := expand_eq_ok hexpand
  obtain rfl := Option.some.inj hk
  have htables : TablesOk takenKernel.paging := tablesOk_empty _ _ _
  obtain ⟨-, hroom⟩ := Paging.mapPages_early (early_empty _ _ (by decide)) (by decide)
    kernelPages_pos kernelPages_small hmap
  have hlo : 0xc0400000 ≤ a := hlo
  -- two page tables, from the second megabyte on
  have hend : pageUp p.placement ≤ 0x202000 := hroom
  have hplacement : p.placement ≤ a := by
    have hup := (pageUp_spec p.placement).2
    omega
  have hmem := mapPages_memory htables kernelPages_pos kernelPages_small hmap a hplacement
  have hzero : read32 takenKernel.paging.mem a = 0 :=
    (read32_write32_apart _ _ (by omega)).trans (read32_write32_apart _ _ (by omega))
  show read32 p.mem a ≠ kheapMagic
  rw [hmem, hzero]
  decide

theorem malloc_f_expands_once_taken : takenKernel.ExpandsOnce 0 0x1000 1 :=
  malloc_f_expands_once rfl takenKernel_growsFresh 0 1 0x1000

end Kernel

end OsThing.Paging
