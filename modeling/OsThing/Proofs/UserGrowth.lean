/-
When the heap of a process grows, and when it stops growing.

Both loops of `malloc` double the heap until they have what they want.  The first one ends
because the heap outgrows the request.  The second one ends after one round: the right half
of a heap that was just doubled is what `sbrk` delivered, and its header is not taken.
`malloc_returns` says so under the assumption that `sbrk` delivers when it is asked.

Whether the search finds something is decided at the top.  It gives up at once if the
headers of both halves are taken, and these may be the headers of two small blocks with
nothing behind them: `freed_found_iff`.
-/
import OsThing.Proofs.UserHeap

namespace OsThing.UserAlloc

open Halving Halving.Block Runs

/-! ### Where the heap is -/

/-- The heap ends at the break, and starts where the break was at the first call. -/
structure Placed (h : Heap) : Prop where
  first : h.hPos = 0 → h.hSize = 0 ∧ 0 < h.brk
  extent : h.hPos ≠ 0 → h.hPos + h.hSize = h.brk

theorem Placed.resize {h h' : Heap} (hp : Placed h) (hresize : resize h = some h') :
    Placed h' ∧ h'.hPos ≠ 0 := by
  obtain ⟨hpos, -, hsize⟩ := resize_spec hresize
  by_cases hzero : h.hPos = 0
  · obtain ⟨hnone, hbrk⟩ := hp.first hzero
    rw [if_pos hzero] at hpos
    obtain ⟨hne, -⟩ | ⟨-, height, hend⟩ := hsize
    · exact absurd hnone hne
    · refine ⟨⟨fun h0 => ?_, fun _ => ?_⟩, ?_⟩ <;> omega
  · have hextent := hp.extent hzero
    rw [if_neg hzero] at hpos
    obtain ⟨-, hdouble, hend⟩ | ⟨hnone, height, hend⟩ := hsize
    · refine ⟨⟨fun h0 => absurd (hpos.symm.trans h0) hzero, fun _ => ?_⟩, hpos ▸ hzero⟩
      omega
    · refine ⟨⟨fun h0 => absurd (hpos.symm.trans h0) hzero, fun _ => ?_⟩, hpos ▸ hzero⟩
      omega

theorem Searched.placed {mem : Mem} {need : Nat} {h h' : Heap} (hs : Searched mem need h h')
    (hp : Placed h) : Placed h' := by
  induction hs with
  | here _ => exact hp
  | grow _ hresize _ ih => exact ih (hp.resize hresize).1

theorem Placed.step (s : HeapState) (op : HeapOp) (s' : HeapState) (hp : Placed s.heap)
    (hstep : heapStep s op = some s') : Placed s'.heap := by
  cases op with
  | malloc size =>
      obtain ⟨g, hsearched, -⟩ := heapStep_malloc hstep
      exact hsearched.placed hp
  | free ptr =>
      obtain ⟨-, -, -, -, -, hheap, -⟩ := heapStep_free hstep
      exact hheap ▸ hp
  | store ptr words =>
      obtain ⟨-, -, hheap, -⟩ := heapStep_store hstep
      exact hheap ▸ hp

/-- In every state of a process, its heap ends at its break. -/
theorem placed_of_run {brk : Nat} {mem : Mem} {ops : List HeapOp} {s : HeapState} (hbrk : 0 < brk)
    (hrun : runAll heapStep (HeapState.init brk mem) ops = some s) : Placed s.heap := by
  have hstart : Placed (HeapState.init brk mem).heap :=
    ⟨fun _ => ⟨rfl, hbrk⟩, fun hne => absurd rfl hne⟩
  exact runAll_keeps Placed.step hstart hrun

/-! ### Where `malloc` asks for more -/

/-- A loop of `malloc` calls `resize`. -/
def Asks (mem : Mem) (need : Nat) (h : Heap) : Prop :=
  h.hSize / 2 < need ∨ (findFree mem h.hPos h.hSize need).1 = 0

/-- The heaps that the loops of `malloc` pass through. -/
inductive Passed (mem : Mem) (need : Nat) (h : Heap) : Heap → Prop
  | start : Passed mem need h h
  | resize {h₁ h₂ : Heap} (hpassed : Passed mem need h h₁) (hasks : Asks mem need h₁)
      (hresize : resize h₁ = some h₂) : Passed mem need h h₂

/-- Whenever `malloc` asks `sbrk` for more it gets it, and there is no magic word in it. -/
def SbrkDelivers (mem : Mem) (need : Nat) (h : Heap) : Prop :=
  ∀ h₁, Passed mem need h h₁ → Asks mem need h₁ →
    ∃ h₂, resize h₁ = some h₂ ∧ ∀ a, h₁.brk ≤ a → a < h₂.brk → mem a ≠ MAGIC

theorem Passed.placed {mem : Mem} {need : Nat} {h h₁ : Heap} (hpassed : Passed mem need h h₁)
    (hp : Placed h) : Placed h₁ := by
  induction hpassed with
  | start => exact hp
  | resize _ _ hresize ih => exact (ih.resize hresize).1

/-- The first loop ends. -/
theorem growFor_returns {mem : Mem} {need : Nat} {h₀ h : Heap} (hsbrk : SbrkDelivers mem need h₀)
    (hpassed : Passed mem need h₀ h) :
    ∃ h₁, growFor need h = some h₁ ∧ Passed mem need h₀ h₁ := by
  fun_induction growFor need h with
  | case1 h hlt hnone =>
      obtain ⟨h₂, hresize, -⟩ := hsbrk h hpassed (Or.inl hlt)
      rw [hnone] at hresize
      cases hresize
  | case2 h hlt h' hresize ih => exact ih (hpassed.resize (Or.inl hlt) hresize)
  | case3 h hle => exact ⟨h, rfl, hpassed⟩

/-- In a heap that was just doubled the search finds something. -/
theorem findFree_resized {mem : Mem} {need : Nat} {h h' : Heap} (hp : Placed h) (hneed : 4 ≤ need)
    (hfits : need ≤ h.hSize / 2) (hresize : resize h = some h')
    (hfresh : ∀ a, h.brk ≤ a → a < h'.brk → mem a ≠ MAGIC) :
    (findFree mem h'.hPos h'.hSize need).1 ≠ 0 := by
  intro hzero
  obtain ⟨hroom, -⟩ := @findFree_zero mem (findFree mem h'.hPos h'.hSize need).2 need h'
    (Prod.ext hzero rfl)
  obtain ⟨hpos, -, ⟨-, hdouble, hend⟩ | ⟨hnone, -⟩⟩ := resize_spec hresize
  · have hne : h.hPos ≠ 0 := fun h0 => by
      have := (hp.first h0).1
      omega
    have hextent := hp.extent hne
    rw [if_neg hne] at hpos
    rcases hroom with hsmall | ⟨hright, -⟩
    · rw [Heap.block_size] at hsmall
      omega
    · refine hfresh _ ?_ ?_ hright
      · rw [right_start, Heap.block_start, Heap.block_size]
        omega
      · rw [right_start, Heap.block_start, Heap.block_size]
        omega
  · omega

/-- The second loop ends, after one `resize` at most. -/
theorem findLoop_returns {mem : Mem} {need : Nat} {h₀ h : Heap} (hsbrk : SbrkDelivers mem need h₀)
    (hpassed : Passed mem need h₀ h) (hp : Placed h) (hneed : 4 ≤ need)
    (hfits : need ≤ h.hSize / 2) :
    ∃ p h' mem', findLoop mem need h = some (p, h', mem') ∧ (h' = h ∨ resize h = some h') := by
  rw [findLoop_eq]
  by_cases hzero : (findFree mem h.hPos h.hSize need).1 = 0
  · obtain ⟨-, hmem⟩ := @findFree_zero mem (findFree mem h.hPos h.hSize need).2 need h
      (Prod.ext hzero rfl)
    obtain ⟨h', hresize, hfresh⟩ := hsbrk h hpassed (Or.inr hzero)
    have hfound := findFree_resized hp hneed hfits hresize hfresh
    rw [if_pos hzero, hresize, Option.bind_some, hmem, findLoop_eq, if_neg hfound]
    exact ⟨_, h', _, rfl, Or.inr rfl⟩
  · rw [if_neg hzero]
    exact ⟨_, h, _, rfl, Or.inl rfl⟩

/-! ### What `malloc` returns -/

/-- The `size` bytes from `p` on lie in the heap, and in the half whose header is the word
before `p`, which says taken now. -/
structure Serves (h : Heap) (mem : Mem) (size : Int32) (p : Nat) (half : Block) : Prop where
  proper : Proper 1 h.block half
  header : half.start + nodeBytes = p ∧ mem half.start = MAGIC
  inHalf : (p : ℤ) + size.toInt ≤ half.stop 1
  inHeap : h.hPos ≤ p ∧ (p : ℤ) + size.toInt ≤ h.hPos + h.hSize

/--
**`malloc` returns a block that fits**, if `sbrk` delivers.  Both loops end, the second one
after one `resize` at most.  In every state of a process, for every size that is not negative.
-/
theorem malloc_returns {brk : Nat} {mem : Mem} {ops : List HeapOp} {s : HeapState} {size : Int32}
    (hbrk : 0 < brk) (hrun : runAll heapStep (HeapState.init brk mem) ops = some s)
    (hsize : 0 ≤ size.toInt) (hsbrk : SbrkDelivers s.mem (bytesFor size) s.heap) :
    ∃ h₁ p h₂ mem' half, growFor (bytesFor size) s.heap = some h₁ ∧
      findLoop s.mem (bytesFor size) h₁ = some (p, h₂, mem') ∧
      malloc s.heap s.mem size = some (p, h₂, mem') ∧
      (h₂ = h₁ ∨ resize h₁ = some h₂) ∧ Serves h₂ mem' size p half := by
  have hplaced := placed_of_run hbrk hrun
  have hbytes := bytesFor_of_nonneg hsize
  obtain ⟨h₁, hgrow, hpassed⟩ := growFor_returns hsbrk .start
  obtain ⟨p, h₂, mem', hloop, honce⟩ := findLoop_returns hsbrk hpassed (hpassed.placed hplaced)
    (by omega) (growFor_fits hgrow)
  have hmalloc : malloc s.heap s.mem size = some (p, h₂, mem') := by
    rw [malloc, hgrow, Option.bind_some, hloop]
  obtain ⟨half, hsearched, hfound, rfl, rfl⟩ := malloc_spec hmalloc
  obtain ⟨hin, -, -⟩ := descend_spec hfound
  have hbounds := hin.within.bounds
  have hneed := hsearched.fits
  have hfits := descend_fits Nat.one_pos hfound (by rw [Nat.one_mul]; exact hneed)
  simp only [stop, Heap.block_start, Heap.block_size] at hbounds
  refine ⟨h₁, _, h₂, _, half, hgrow, hloop, hmalloc, honce, hin, ⟨rfl, Function.update_self ..⟩,
    ?_, ?_⟩
  · simp only [stop, nodeBytes]
    omega
  · simp only [nodeBytes]
    omega

/-- The heaps of the first request for 12 bytes. -/
theorem passed_twelve {h : Heap} (hpassed : Passed (fun _ => 0) (bytesFor 12) ⟨0, 0, 0x1000⟩ h) :
    h = ⟨0, 0, 0x1000⟩ ∨ h = ⟨0x1000, 8, 0x1008⟩ ∨ h = ⟨0x1000, 16, 0x1010⟩ ∨
      h = ⟨0x1000, 32, 0x1020⟩ ∧ ¬ Asks (fun _ => 0) (bytesFor 12) h := by
  have hfound : ¬ Asks (fun _ => 0) (bytesFor 12) ⟨0x1000, 32, 0x1020⟩ := by
    have hfind := findFree_eq (fun _ => 0) (bytesFor 12) (Heap.block ⟨0x1000, 32, 0x1020⟩)
    rw [descend_twelve] at hfind
    rintro (hsmall | hzero)
    · exact absurd hsmall (by decide)
    · exact absurd ((congrArg Prod.fst hfind).symm.trans hzero) (by decide)
  induction hpassed with
  | start => exact Or.inl rfl
  | resize _ hasks hresize ih =>
      rcases ih with rfl | rfl | rfl | ⟨-, hno⟩
      · obtain rfl := Option.some.inj hresize
        exact Or.inr (Or.inl rfl)
      · obtain rfl := Option.some.inj hresize
        exact Or.inr (Or.inr (Or.inl rfl))
      · obtain rfl := Option.some.inj hresize
        exact Or.inr (Or.inr (Or.inr ⟨rfl, hfound⟩))
      · exact absurd hasks hno

theorem sbrkDelivers_twelve : SbrkDelivers (fun _ => 0) (bytesFor 12) ⟨0, 0, 0x1000⟩ := by
  intro h hpassed hasks
  have hzero : ∀ h' : Heap, ∀ a, h.brk ≤ a → a < h'.brk → (fun _ => 0 : Mem) a ≠ MAGIC :=
    fun _ _ _ _ => show 0 ≠ MAGIC by decide
  rcases passed_twelve hpassed with rfl | rfl | rfl | ⟨-, hno⟩
  · exact ⟨_, rfl, hzero _⟩
  · exact ⟨_, rfl, hzero _⟩
  · exact ⟨_, rfl, hzero _⟩
  · exact absurd hasks hno

theorem malloc_returns_twelve :
    ∃ h₁ p h₂ mem' half, growFor (bytesFor 12) ⟨0, 0, 0x1000⟩ = some h₁ ∧
      findLoop (fun _ => 0) (bytesFor 12) h₁ = some (p, h₂, mem') ∧
      malloc ⟨0, 0, 0x1000⟩ (fun _ => 0) 12 = some (p, h₂, mem') ∧
      (h₂ = h₁ ∨ resize h₁ = some h₂) ∧ Serves h₂ mem' 12 p half :=
  @malloc_returns 0x1000 (fun _ => 0) [] (HeapState.init 0x1000 fun _ => 0) 12 (by decide) rfl
    (by decide) sbrkDelivers_twelve

/-! ### Finding what was freed -/

/-- A block of `c` bytes, at a multiple of `c` in the heap, that no live block has a byte of. -/
def FreeBlock (s : HeapState) (c : Nat) : Prop :=
  ∃ i, (i + 1) * c ≤ s.heap.hSize ∧ ∀ g ∈ s.live, Apart 1 ⟨s.heap.hPos + i * c, c⟩ g.half

/-- `c` is the power of two that a request of `need` bytes is rounded up to. -/
def RoundsTo (need c : Nat) : Prop := (∃ k, c = 2 ^ k) ∧ c / 2 ≤ need ∧ need < c

/-- `find_free` finds something, so that `malloc` does not grow the heap. -/
def Finds (h : Heap) (mem : Mem) (size : Int32) : Prop :=
  (findFree mem h.hPos h.hSize (bytesFor size)).1 ≠ 0 ∧
    ∃ p mem', malloc h mem size = some (p, h, mem')

/-- **Something is found exactly if the headers of the two halves of the heap are not both
taken**, whatever is free behind them. -/
theorem freed_found_iff {h : Heap} {mem : Mem} {size : Int32} {c : Nat} (hsize : 0 ≤ size.toInt)
    (hrounds : RoundsTo (bytesFor size) c) (hroom : 2 * c ≤ h.hSize) :
    Finds h mem size ↔ ¬ (mem (h.hPos + h.hSize / 2) = MAGIC ∧ mem h.hPos = MAGIC) := by
  have hbytes := bytesFor_of_nonneg hsize
  obtain ⟨-, -, hlt⟩ := hrounds
  have hright : (h.block.right 1).start = h.hPos + h.hSize / 2 := by
    rw [right_start, Nat.one_mul, Heap.block_start, Heap.block_size]
  have hnoRoom : NoRoom 1 3 (Taken mem) h.block ↔
      mem (h.hPos + h.hSize / 2) = MAGIC ∧ mem h.hPos = MAGIC := by
    unfold NoRoom
    rw [hright, Heap.block_size, Heap.block_start]
    exact or_iff_right (by omega)
  rw [← hnoRoom]
  constructor
  · rintro ⟨hfound, -⟩ hroom
    have hfind := findFree_eq mem (bytesFor size) h.block
    rw [descend_eq_none.mpr hroom] at hfind
    exact hfound (congrArg Prod.fst hfind)
  · intro hroom
    obtain ⟨half, hhalf⟩ := Option.ne_none_iff_exists'.mp (mt descend_eq_none.mp hroom)
    have hfind := findFree_eq mem (bytesFor size) h.block
    rw [hhalf] at hfind
    refine ⟨fun hzero => ?_, _, _, malloc_of_search (growFor_self (by omega)) hhalf⟩
    exact Nat.succ_ne_zero _ ((congrArg Prod.fst hfind).symm.trans hzero)

theorem freed_found_twelve : Finds ⟨0x1000, 64, 0x1040⟩ (fun _ => 0) 12 ↔
    ¬ ((fun _ => 0 : Mem) (0x1000 + 64 / 2) = MAGIC ∧ (fun _ => 0 : Mem) 0x1000 = MAGIC) :=
  @freed_found_iff ⟨0x1000, 64, 0x1040⟩ (fun _ => 0) 12 32 (by decide)
    ⟨⟨5, rfl⟩, by decide, by decide⟩ (by decide)

/-- Two requests of 12 bytes and one of 28, of which the first is freed again. -/
theorem runAll_three : runAll heapStep (HeapState.init 0x1000 fun _ => 0)
    [.malloc 12, .malloc 12, .malloc 28, .free 0x1014] =
      some ⟨⟨0x1000, 64, 0x1040⟩,
        Function.update (Function.update (Function.update (Function.update (fun _ => 0) 0x1010 MAGIC)
          0x1000 MAGIC) 0x1020 MAGIC) 0x1010 FREED,
        [⟨0x1024, 28, ⟨0x1020, 32⟩⟩, ⟨0x1004, 12, ⟨0x1000, 16⟩⟩]⟩ := by
  have hgrow : growFor (bytesFor 28) ⟨0x1000, 32, 0x1020⟩ = some ⟨0x1000, 64, 0x1040⟩ :=
    (growFor_resize (by decide) rfl).trans (growFor_self (by decide))
  have hfound : descend 1 3 (Taken (Function.update (Function.update (fun _ => 0) 0x1010 MAGIC)
      0x1000 MAGIC)) (Heap.block ⟨0x1000, 64, 0x1040⟩) (bytesFor 28) = some ⟨0x1020, 32⟩ := by
    simp [descend, NoRoom, freeOne, Taken, Block.right, MAGIC, show bytesFor 28 = 32 from rfl]
  rw [runAll, heapStep_of_search growFor_twelve descend_twelve, Option.bind_some, runAll,
    heapStep_of_search (growFor_self (by decide)) descend_twelve_again, Option.bind_some, runAll,
    heapStep_of_search hgrow hfound, Option.bind_some, runAll]
  simp [heapStep, free, HeapState.init, nodeBytes, runAll, MAGIC]

/-- **Sixteen bytes that were freed are not found again**, with 48 of 64 bytes in use. -/
theorem freed_not_found : ¬ ∀ (brk : Nat) (mem : Mem) (ops : List HeapOp) (s : HeapState)
    (size : Int32) (c : Nat), 0 < brk → (∀ a, mem a ≠ MAGIC) →
    runAll heapStep (HeapState.init brk mem) ops = some s → 0 ≤ size.toInt →
    RoundsTo (bytesFor size) c → 2 * c ≤ s.heap.hSize → FreeBlock s c →
    Finds s.heap s.mem size := by
  intro h
  have hrounds : RoundsTo (bytesFor 8) 16 := ⟨⟨4, rfl⟩, by decide, by decide⟩
  have hfinds := h 0x1000 (fun _ => 0) _ _ 8 16 (by decide) (fun _ => by decide) runAll_three
    (by decide) hrounds (by decide) ⟨1, by decide, by simp [Apart, stop]⟩
  refine (freed_found_iff (by decide) hrounds (by decide)).mp hfinds ⟨?_, ?_⟩
  · simp [MAGIC]
  · simp [MAGIC]

end OsThing.UserAlloc
