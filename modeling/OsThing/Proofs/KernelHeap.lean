/-
When live kernel allocations stay apart.

The header word of a block says "taken" but not how much of the range behind it was
taken.  So the search can go wrong in two ways: it can walk into a half that somebody
holds whole and hand out a piece of it, and it can take whole a half whose first word
is free although smaller allocations lie further in.  `Undisturbed` is the absence of
both on the way the search takes, and `halves_apart_iff` says that this is exactly
what keeps the halves that were handed out apart.

The other half of the argument is that the headers can be trusted.  A live header is
written by its own allocation and its own free, and by nobody else, because every
other write stays inside a half that is apart from it.  `HeapInv` carries the two
facts together, since each is needed to keep the other.
-/
import OsThing.Lib.HalvingSearch
import OsThing.Lib.Runs
import OsThing.Mem.Kmalloc
import Mathlib.Data.List.Pairwise
import Mathlib.Order.CompletePartialOrder
import Mathlib.Order.Interval.Set.Disjoint

namespace OsThing.Alloc

open Halving Halving.Block Runs

/-! ### What the search returns

The search is that of `Lib/HalvingSearch.lean`, with four bytes to a word.
-/

/-- The word at `a` says that a half is taken. -/
abbrev Taken (mem : Mem) (a : Nat) : Prop := mem a = kheapMagic

theorem exhausted_iff {mem : Mem} {b : Block} :
    Exhausted mem b ↔ NoRoom 4 4 (Taken mem) b := Iff.rfl

theorem freeHalf_eq (mem : Mem) (b : Block) : freeHalf mem b = freeOne 4 (Taken mem) b := rfl

theorem search_eq_descend (mem : Mem) (b : Block) (size : Nat) :
    search mem b size = descend 4 4 (Taken mem) b size := by
  fun_induction search mem b size with
  | case1 b h => rw [descend, dif_pos (exhausted_iff.mp h)]
  | case2 b h hc ih =>
      rw [exhausted_iff] at h hc
      rw [descend, dif_neg h, if_pos hc]
      exact ih
  | case3 b h hc hc' ih =>
      rw [exhausted_iff] at h hc hc'
      rw [descend, dif_neg h, if_neg hc, if_pos hc']
      exact ih
  | case4 b h hc hc' =>
      rw [exhausted_iff] at h hc hc'
      rw [descend, dif_neg h, if_neg hc, if_neg hc', freeHalf_eq]

theorem search_eq_none {mem : Mem} {b : Block} {size : Nat} :
    search mem b size = none ↔ Exhausted mem b := by
  rw [search_eq_descend]
  exact descend_eq_none

/-- What a successful search does to the memory, and what it returns. -/
def granted (mem : Mem) (half : Block) : Nat × Mem :=
  (half.start + nodeBytes, Function.update mem half.start kheapMagic)

theorem findFreeNode_eq_firstFit (mem : Mem) (node nodeSize size align : Nat) :
    findFreeNode mem node nodeSize size align =
      firstFit 4 4 nodeBytes kheapMagic mem node nodeSize size := by
  induction hn : nodeSize using Nat.strong_induction_on generalizing mem node nodeSize with
  | _ n ih =>
    subst hn
    rw [findFreeNode, firstFit]
    by_cases hroom : nodeSize / 2 ≤ 4 ∨
        (mem (node + 4 * (nodeSize / 2)) = kheapMagic ∧ mem node = kheapMagic)
    · exact (if_pos hroom).trans (if_pos hroom).symm
    · have hlt : nodeSize / 2 < nodeSize := by omega
      refine (if_neg hroom).trans (Eq.trans ?_ (if_neg hroom).symm)
      simp only [ih _ hlt _ _ _ rfl]
      rfl

/-- **`find_free_node` marks the half the search settles on, and nothing else.** -/
theorem findFreeNode_eq (mem : Mem) (size align : Nat) (b : Block) :
    findFreeNode mem b.start b.size size align =
      match search mem b size with
      | none => (0, mem)
      | some half => granted mem half := by
  rw [findFreeNode_eq_firstFit, search_eq_descend]
  exact firstFit_eq (by decide) mem size b

/-- What the search returns is a half of something inside the block, and its header
word is free. -/
theorem search_spec {mem : Mem} {b half : Block} {size : Nat}
    (h : search mem b size = some half) :
    Proper 4 b half ∧ 4 < half.size ∧ mem half.start ≠ kheapMagic := by
  rw [search_eq_descend] at h
  exact descend_spec h

/-- A request that fits a half of the block fits what the search returns. -/
theorem search_fits {mem : Mem} {b half : Block} {size : Nat}
    (h : search mem b size = some half) (hsize : size ≤ 4 * (b.size / 2)) :
    size ≤ 4 * half.size := by
  rw [search_eq_descend] at h
  exact descend_fits (by decide) h hsize

/-! ### The two ways the search goes wrong -/

/-- Nothing in `live` starts inside the block behind its first word. -/
def NothingBehind (live : List Block) (b : Block) : Prop :=
  ∀ x ∈ live, ¬ (b.start < x.start ∧ x.start < b.stop 4)

/--
On its way down from `b` the search enters no half that is in `live`, and the half it
stops at has nothing of `live` behind its header.  The cases are those of `search`.
-/
def Undisturbed (live : List Block) (mem : Mem) (b : Block) (size : Nat) : Prop :=
  if _h : Exhausted mem b then True
  else if size < b.size / 2 / 2 ∧ ¬ Exhausted mem (b.right 4) then
    b.right 4 ∉ live ∧ Undisturbed live mem (b.right 4) size
  else if size < b.size / 2 / 2 ∧ ¬ Exhausted mem b.left then
    b.left ∉ live ∧ Undisturbed live mem b.left size
  else NothingBehind live (freeHalf mem b)
termination_by b.size
decreasing_by
  all_goals
    have hs := Exhausted.four_lt _h
    simp only [right_size, left_size]
    omega

theorem undisturbed_iff {live : List Block} {mem : Mem} {b : Block} {size : Nat} :
    Undisturbed live mem b size ↔ ClearWay 4 4 (Taken mem) live b size := by
  induction hn : b.size using Nat.strong_induction_on generalizing b with
  | _ n ih =>
    subst hn
    rw [Undisturbed, ClearWay]
    simp only [exhausted_iff]
    split
    · rfl
    · rename_i hroom
      have hlt : b.size / 2 < b.size := by
        have := NoRoom.small_lt hroom
        omega
      rw [ih _ hlt (right_size 4 b), ih _ hlt (left_size b)]
      rfl

/-- **Undisturbed is enough.** -/
theorem search_apart {live : List Block} {mem : Mem} {b half : Block} {size : Nat}
    (hmark : ∀ x ∈ live, mem x.start = kheapMagic) (hwide : ∀ x ∈ live, 4 < x.size)
    (hin : ∀ x ∈ live, Proper 4 b x ∨ Apart 4 b x)
    (hun : Undisturbed live mem b size) (h : search mem b size = some half) :
    ∀ x ∈ live, Apart 4 half x := by
  rw [search_eq_descend] at h
  exact descend_apart (by decide) hmark (fun x hx => Nat.zero_lt_of_lt (hwide x hx)) hin
    (undisturbed_iff.mp hun) h

/-- **Undisturbed is needed.** -/
theorem undisturbed_of_apart {live : List Block} {mem : Mem} {b half : Block} {size : Nat}
    (h : search mem b size = some half) (hap : ∀ x ∈ live, Apart 4 half x) :
    Undisturbed live mem b size := by
  rw [search_eq_descend] at h
  exact undisturbed_iff.mpr (clearWay_of_apart (by decide) h hap)

/-! ### `malloc_f`

The loop searches, and doubles the heap as long as the search finds nothing.  So what
it returns comes from the first of the heaps `size`, `2 * size`, `4 * size`, ... that is
not exhausted.
-/

/-- The heap after `k` expansions. -/
def grown (b : Block) (k : Nat) : Block := ⟨b.start, 2 ^ k * b.size⟩

@[simp] theorem grown_zero (b : Block) : grown b 0 = b := by simp [grown]

theorem grown_double (b : Block) (k : Nat) : grown b.double k = grown b (k + 1) := by
  simp only [grown, double_start, double_size, Block.mk.injEq, true_and]
  rw [Nat.pow_succ, Nat.mul_assoc]

theorem proper_grown {b x : Block} (h : Proper 4 b x) (k : Nat) : Proper 4 (grown b k) x := by
  induction k generalizing b with
  | zero => rwa [grown_zero]
  | succ k ih =>
      rw [← grown_double]
      exact ih h.double

theorem expand_block {heap heap' : Heap} (h : expand heap = some heap') :
    heap'.block = heap.block.double := by
  simp only [expand] at h
  split at h
  · obtain rfl := Option.some.inj h
    simp only [Heap.block, double, Block.mk.injEq, true_and]
    omega
  · cases h

/-- **What `malloc_f` returns.** -/
theorem mallocTries_spec {mem mem' : Mem} {need align ret : Nat} {heap' : Heap} :
    ∀ {tries : Nat} {heap : Heap},
      mallocTries mem need align tries heap = some (ret, heap', mem') →
      ∃ k half, heap'.block = grown heap.block k ∧
        (∀ j < k, Exhausted mem (grown heap.block j)) ∧
        search mem heap'.block need = some half ∧
        ret = half.start + nodeBytes ∧ mem' = Function.update mem half.start kheapMagic := by
  intro tries
  induction tries with
  | zero => intro heap h; cases h
  | succ tries ih =>
      intro heap h
      rw [mallocTries, show heap.root = heap.block.start from rfl,
        show heap.size = heap.block.size from rfl, findFreeNode_eq] at h
      cases hs : search mem heap.block need with
      | none =>
          simp only [hs] at h
          obtain ⟨big, hbig, hloop⟩ := Option.bind_eq_some_iff.mp h
          obtain ⟨k, half, hk, hex, hrest⟩ := ih hloop
          rw [expand_block hbig] at hk hex
          refine ⟨k + 1, half, by rw [hk, grown_double], ?_, hrest⟩
          intro j hj
          cases j with
          | zero => rw [grown_zero]; exact search_eq_none.mp hs
          | succ j => rw [← grown_double]; exact hex j (by omega)
      | some half =>
          simp only [hs, granted] at h
          obtain ⟨hret, rfl, rfl⟩ : half.start + nodeBytes = ret ∧ heap = heap' ∧
              Function.update mem half.start kheapMagic = mem' := by
            simpa [nodeBytes] using h
          exact ⟨0, half, by simp, by simp, hs, hret.symm, rfl⟩

theorem mallocLoop_spec {mem mem' : Mem} {size align ret tries : Nat} {heap heap' : Heap}
    (h : mallocLoop mem size align tries heap = some (ret, heap', mem')) :
    ∃ k half, heap'.block = grown heap.block k ∧
      (∀ j < k, Exhausted mem (grown heap.block j)) ∧
      search mem heap'.block (size + nodeBytes) = some half ∧
      ret = half.start + nodeBytes ∧ mem' = Function.update mem half.start kheapMagic := by
  rw [mallocLoop_eq_tries] at h
  exact mallocTries_spec h

/-! ### The invariant of a run -/

/-- The halves handed out and not yet freed. -/
def HeapState.halves (s : HeapState) : List Block := s.live.map Grant.half

/-- The live halves are apart, each is as big as was asked for, and its header says so. -/
structure HeapInv (s : HeapState) : Prop where
  inside : ∀ g ∈ s.live, Proper 4 s.heap.block g.half
  wide : ∀ g ∈ s.live, 4 < g.half.size
  fits : ∀ g ∈ s.live, g.size + nodeBytes ≤ 4 * g.half.size
  marked : ∀ g ∈ s.live, s.mem g.half.start = kheapMagic
  apart : s.live.Pairwise fun g g' => Apart 4 g.half g'.half

theorem HeapInv.init (start size : Nat) (mem : Mem) : HeapInv (HeapState.init start size mem) := by
  refine ⟨?_, ?_, ?_, ?_, List.Pairwise.nil⟩ <;> intro g hg <;> cases hg

/-- A live half other than `g`'s is apart from it. -/
theorem HeapInv.apart_of_ne {s : HeapState} (h : HeapInv s) {g g' : Grant} (hg : g ∈ s.live)
    (hg' : g' ∈ s.live) (hne : g ≠ g') : Apart 4 g.half g'.half := by
  have : Std.Symm fun g g' : Grant => Apart 4 g.half g'.half := ⟨fun _ _ => Apart.symm⟩
  exact h.apart.forall hg hg' hne

/-- The halves that were handed out have no byte in common. -/
def HalvesApart (s : HeapState) : Prop :=
  s.live.Pairwise fun g g' => Apart 4 g.half g'.half

/-- The bytes `[p - 4, p + size)` of an allocation: header and payload. -/
def Grant.range (g : Grant) : Set Nat := Set.Ico (g.ptr - nodeBytes) (g.ptr + g.size)

/-- The live allocations have no byte in common. -/
def RangesDisjoint (s : HeapState) : Prop :=
  s.live.Pairwise fun g g' => Disjoint g.range g'.range

theorem HeapInv.ranges {s : HeapState} (h : HeapInv s) : RangesDisjoint s := by
  refine h.apart.imp_of_mem fun {g g'} hg hg' hap => ?_
  have hfit := h.fits g hg
  have hfit' := h.fits g' hg'
  simp only [Grant.range, Grant.ptr, nodeBytes, Set.Ico_disjoint_Ico] at *
  rcases hap with h' | h' <;> simp only [stop] at h' <;> omega

/--
The step is one the allocator can take safely: at each length the heap is searched at,
the search is undisturbed by what is live.  Frees and stores are always fine.
-/
def SafeStep (s : HeapState) : HeapOp → Prop
  | .kmalloc size _ => ∀ k, (∀ j < k, Exhausted s.mem (grown s.heap.block j)) →
      Undisturbed s.halves s.mem (grown s.heap.block k) (size + nodeBytes)
  | _ => True

/-! ### One call -/

/-- What an allocation does to the state. -/
theorem heapStep_kmalloc {s s' : HeapState} {size align : Nat}
    (h : heapStep s (.kmalloc size align) = some s') :
    ∃ k half, s'.heap.block = grown s.heap.block k ∧
      (∀ j < k, Exhausted s.mem (grown s.heap.block j)) ∧
      search s.mem (grown s.heap.block k) (size + nodeBytes) = some half ∧
      size + nodeBytes ≤ 4 * (s.heap.size / 2) ∧
      s'.mem = Function.update s.mem half.start kheapMagic ∧
      s'.live = ⟨half, size⟩ :: s.live := by
  simp only [heapStep] at h
  split at h
  · rename_i hle
    obtain ⟨⟨ret, heap, mem⟩, hm, h⟩ := Option.bind_eq_some_iff.mp h
    obtain ⟨half, hhalf, rfl⟩ := Option.map_eq_some_iff.mp h
    obtain ⟨k, half', hk, hex, hs, -, rfl⟩ := mallocLoop_spec hm
    obtain rfl : half' = half := Option.some.inj (hs.symm.trans hhalf)
    exact ⟨k, half', hk, hex, hk ▸ hs, hle, rfl, rfl⟩
  · cases h

theorem heapStep_kfree {s s' : HeapState} {ptr : Nat} (h : heapStep s (.kfree ptr) = some s') :
    ∃ g l₁ l₂, s.live = l₁ ++ g :: l₂ ∧ g.ptr = ptr ∧ s'.live = l₁ ++ l₂ ∧
      s'.heap = s.heap ∧ s'.mem = Function.update s.mem g.half.start kheapFreed := by
  simp only [heapStep] at h
  split at h
  · rename_i hex
    obtain ⟨mem, hm, rfl⟩ := Option.map_eq_some_iff.mp h
    obtain ⟨g, l₁, l₂, hl, hptr, her⟩ := exists_of_given_up hex
    refine ⟨g, l₁, l₂, hl, hptr, her, rfl, ?_⟩
    simp only [freeF] at hm
    split at hm
    · obtain rfl := Option.some.inj hm
      rw [← hptr, Grant.ptr, Nat.add_sub_cancel]
    · cases hm
  · cases h

theorem heapStep_store {s s' : HeapState} {ptr : Nat} {words : Mem}
    (h : heapStep s (.store ptr words) = some s') :
    ∃ g ∈ s.live, s'.heap = s.heap ∧ s'.live = s.live ∧
      ∀ a, ¬ g.Owns a → s'.mem a = s.mem a := by
  simp only [heapStep] at h
  split at h
  · rename_i g hfind
    obtain rfl := Option.some.inj h
    refine ⟨g, List.mem_of_find?_eq_some hfind, rfl, rfl, ?_⟩
    intro a ha
    simp [ha]
  · cases h

/-! ### The invariant is kept -/

theorem HeapInv.halves_marked {s : HeapState} (h : HeapInv s) :
    ∀ x ∈ s.halves, s.mem x.start = kheapMagic := by
  intro x hx
  obtain ⟨g, hg, rfl⟩ := List.mem_map.mp hx
  exact h.marked g hg

theorem HeapInv.halves_wide {s : HeapState} (h : HeapInv s) : ∀ x ∈ s.halves, 4 < x.size := by
  intro x hx
  obtain ⟨g, hg, rfl⟩ := List.mem_map.mp hx
  exact h.wide g hg

theorem HeapInv.halves_inside {s : HeapState} (h : HeapInv s) (k : Nat) :
    ∀ x ∈ s.halves, Proper 4 (grown s.heap.block k) x := by
  intro x hx
  obtain ⟨g, hg, rfl⟩ := List.mem_map.mp hx
  exact proper_grown (h.inside g hg) k

/-- A half apart from every live one can be handed out. -/
theorem HeapInv.grant {s s' : HeapState} (h : HeapInv s) {size k : Nat} {half : Block}
    (hblock : s'.heap.block = grown s.heap.block k)
    (hsearch : search s.mem (grown s.heap.block k) (size + nodeBytes) = some half)
    (hsize : size + nodeBytes ≤ 4 * (s.heap.size / 2))
    (hmem : s'.mem = Function.update s.mem half.start kheapMagic)
    (hlive : s'.live = ⟨half, size⟩ :: s.live)
    (hap : ∀ x ∈ s.halves, Apart 4 half x) : HeapInv s' := by
  obtain ⟨hin, hwide, -⟩ := search_spec hsearch
  have hgrow : s.heap.size / 2 ≤ (grown s.heap.block k).size / 2 :=
    Nat.div_le_div_right (Nat.le_mul_of_pos_left _ (Nat.two_pow_pos k))
  refine ⟨?_, ?_, ?_, ?_, ?_⟩
  · intro g hg
    rw [hlive] at hg
    rw [hblock]
    rcases List.mem_cons.mp hg with rfl | hg'
    · exact hin
    · exact proper_grown (h.inside g hg') k
  · intro g hg
    rw [hlive] at hg
    rcases List.mem_cons.mp hg with rfl | hg'
    · exact hwide
    · exact h.wide g hg'
  · intro g hg
    rw [hlive] at hg
    rcases List.mem_cons.mp hg with rfl | hg'
    · show size + nodeBytes ≤ 4 * half.size
      exact search_fits hsearch (by omega)
    · exact h.fits g hg'
  · intro g hg
    rw [hlive] at hg
    rw [hmem]
    by_cases hs : g.half.start = half.start
    · rw [hs, Function.update_self]
    · rw [Function.update_of_ne hs]
      rcases List.mem_cons.mp hg with rfl | hg'
      · exact absurd rfl hs
      · exact h.marked g hg'
  · rw [hlive]
    exact List.pairwise_cons.mpr ⟨fun g hg => hap g.half (List.mem_map_of_mem hg), h.apart⟩

theorem HeapInv.kmalloc {s s' : HeapState} (h : HeapInv s) {size align : Nat}
    (hstep : heapStep s (.kmalloc size align) = some s')
    (hsafe : SafeStep s (.kmalloc size align)) : HeapInv s' := by
  obtain ⟨k, half, hblock, hex, hsearch, hsize, hmem, hlive⟩ := heapStep_kmalloc hstep
  refine h.grant hblock hsearch hsize hmem hlive ?_
  exact search_apart h.halves_marked h.halves_wide (fun x hx => Or.inl (h.halves_inside k x hx))
    (hsafe k hex) hsearch

theorem HeapInv.kfree {s s' : HeapState} (h : HeapInv s) {ptr : Nat}
    (hstep : heapStep s (.kfree ptr) = some s') : HeapInv s' := by
  obtain ⟨g, l₁, l₂, hl, -, hlive, hheap, hmem⟩ := heapStep_kfree hstep
  have hsub : s'.live.Sublist s.live := by
    rw [hl, hlive]
    exact List.Sublist.append_left (List.sublist_cons_self g l₂) l₁
  have hpair := h.apart
  rw [hl, List.pairwise_append, List.pairwise_cons] at hpair
  obtain ⟨-, ⟨hg₂, -⟩, hg₁⟩ := hpair
  -- what stays live is apart from `g`, so its header is not the one that is cleared
  have hother : ∀ g' ∈ s'.live, Apart 4 g.half g'.half := by
    intro g' hg'
    rw [hlive] at hg'
    rcases List.mem_append.mp hg' with h₁ | h₂
    · exact (hg₁ g' h₁ g List.mem_cons_self).symm
    · exact hg₂ g' h₂
  refine ⟨?_, ?_, ?_, ?_, h.apart.sublist hsub⟩
  · intro g' hg'
    rw [hheap]
    exact h.inside g' (hsub.subset hg')
  · exact fun g' hg' => h.wide g' (hsub.subset hg')
  · exact fun g' hg' => h.fits g' (hsub.subset hg')
  · intro g' hg'
    have hw := h.wide g' (hsub.subset hg')
    have hw₀ : 4 < g.half.size := h.wide g (by rw [hl]; simp)
    have hne : g'.half.start ≠ g.half.start := by
      rcases hother g' hg' with h' | h' <;> simp only [stop] at h' <;> omega
    rw [hmem, Function.update_of_ne hne]
    exact h.marked g' (hsub.subset hg')

theorem HeapInv.store {s s' : HeapState} (h : HeapInv s) {ptr : Nat} {words : Mem}
    (hstep : heapStep s (.store ptr words) = some s') : HeapInv s' := by
  obtain ⟨g, hg, hheap, hlive, hmem⟩ := heapStep_store hstep
  have hfit := h.fits g hg
  refine ⟨?_, ?_, ?_, ?_, ?_⟩
  · rw [hlive, hheap]
    exact h.inside
  · rw [hlive]
    exact h.wide
  · rw [hlive]
    exact h.fits
  · intro g' hg'
    rw [hlive] at hg'
    -- no payload reaches a live header: not its own, and not one in another half
    have howns : ¬ g.Owns g'.half.start := by
      rintro ⟨hlo, hhi⟩
      simp only [Grant.ptr, nodeBytes] at hlo hhi hfit
      by_cases hgg : g = g'
      · subst hgg
        omega
      · have hw := h.wide g' hg'
        rcases h.apart_of_ne hg hg' hgg with h' | h' <;> simp only [stop] at h' <;> omega
    rw [hmem _ howns]
    exact h.marked g' hg'
  · rw [hlive]
    exact h.apart

theorem HeapInv.step {s s' : HeapState} {op : HeapOp} (h : HeapInv s)
    (hstep : heapStep s op = some s') (hsafe : SafeStep s op) : HeapInv s' := by
  cases op with
  | kmalloc size align => exact h.kmalloc hstep hsafe
  | kfree ptr => exact h.kfree hstep
  | store ptr words => exact h.store hstep

/-- A step after which the live halves are still apart was a safe one. -/
theorem safeStep_of_apart {s s' : HeapState} {op : HeapOp}
    (hstep : heapStep s op = some s') (hap : HalvesApart s') : SafeStep s op := by
  cases op with
  | kmalloc size align =>
      obtain ⟨k, half, -, hex, hsearch, -, -, hlive⟩ := heapStep_kmalloc hstep
      intro j hj
      rcases Nat.lt_trichotomy j k with hlt | rfl | hgt
      · rw [Undisturbed, dif_pos (hex j hlt)]
        trivial
      · refine undisturbed_of_apart hsearch fun x hx => ?_
        obtain ⟨g, hg, rfl⟩ := List.mem_map.mp hx
        rw [HalvesApart, hlive] at hap
        exact (List.pairwise_cons.mp hap).1 g hg
      · rw [search_eq_none.mpr (hj k hgt)] at hsearch
        cases hsearch
  | kfree ptr => trivial
  | store ptr words => trivial

/-! ### Whole runs -/

/-- **Safe steps are exactly what keeps the halves apart.** -/
theorem halves_apart_iff (start size : Nat) (mem : Mem) (ops : List HeapOp) :
    Always heapStep HalvesApart (HeapState.init start size mem) ops ↔
      EveryStep heapStep (fun s op _ => SafeStep s op) (HeapState.init start size mem) ops :=
  always_iff (fun _ (h : HeapInv _) => h.apart) (fun _ _ _ h hstep hsafe => h.step hstep hsafe)
    (fun _ _ _ _ hstep hap => safeStep_of_apart hstep hap) (HeapInv.init start size mem)

/--
**Live allocations stay disjoint in every run of safe steps.**

Whatever the memory held before `init_heap`, however often the heap grows, and whatever
the callers store into their payloads.
-/
theorem live_ranges_disjoint (start size : Nat) (mem : Mem) (ops : List HeapOp)
    (hsafe : EveryStep heapStep (fun s op _ => SafeStep s op) (HeapState.init start size mem) ops) :
    Always heapStep RangesDisjoint (HeapState.init start size mem) ops := by
  have hinv := always_of_inv (fun _ _ _ (h : HeapInv _) hstep hc => h.step hstep hc)
    (HeapInv.init start size mem) hsafe
  exact hinv.mono fun _ h => h.ranges

/-! ### Requests served without growing

Enough to run the heap by hand: one search at the present length decides the step.
-/

theorem heapStep_of_search {s : HeapState} {size align : Nat} {half : Block}
    (hsearch : search s.mem s.heap.block (size + nodeBytes) = some half)
    (hsize : size + nodeBytes ≤ 4 * (s.heap.size / 2)) :
    heapStep s (.kmalloc size align) =
      some ⟨s.heap, Function.update s.mem half.start kheapMagic, ⟨half, size⟩ :: s.live⟩ := by
  have hfind := findFreeNode_eq s.mem (size + nodeBytes) align s.heap.block
  rw [hsearch] at hfind
  have hmalloc : mallocF s.heap s.mem size align =
      some (half.start + nodeBytes, s.heap, Function.update s.mem half.start kheapMagic) := by
    rw [mallocF, mallocLoop, show s.heap.root = s.heap.block.start from rfl,
      show s.heap.size = s.heap.block.size from rfl, hfind]
    simp [granted, nodeBytes]
  simp [heapStep, if_pos hsize, hmalloc, hsearch]

theorem safeStep_of_search {s : HeapState} {size align : Nat} {half : Block}
    (hsearch : search s.mem s.heap.block (size + nodeBytes) = some half)
    (hap : ∀ x ∈ s.halves, Apart 4 half x) : SafeStep s (.kmalloc size align) := by
  intro k hk
  cases k with
  | zero => rw [grown_zero]; exact undisturbed_of_apart hsearch hap
  | succ k =>
      have hex := hk 0 (Nat.succ_pos k)
      rw [grown_zero] at hex
      rw [search_eq_none.mpr hex] at hsearch
      cases hsearch

/-- Two requests of a megabyte get a half of the heap each. -/
theorem live_ranges_disjoint_two :
    Always heapStep RangesDisjoint (HeapState.init kheapStart kheapSize fun _ => 0)
      [.kmalloc 0x100000 0, .kmalloc 0x100000 0] := by
  have hs₁ : search (fun _ => 0) (initHeap kheapStart kheapSize).block (0x100000 + nodeBytes)
      = some ⟨0xc0200000, 0x80000⟩ := by
    simp [search, Exhausted, freeHalf, initHeap, kheapStart, kheapSize, kheapMinAlloc,
      kheapMagic, nodeBytes, Block.right]
  have hs₂ : search (Function.update (fun _ => 0) 0xc0200000 kheapMagic)
      (initHeap kheapStart kheapSize).block (0x100000 + nodeBytes)
      = some ⟨0xc0000000, 0x80000⟩ := by
    simp [search, Exhausted, freeHalf, initHeap, kheapStart, kheapSize, kheapMinAlloc,
      kheapMagic, nodeBytes, Block.left]
  refine live_ranges_disjoint _ _ _ _ fun s' hstep => ⟨safeStep_of_search hs₁ ?_, ?_⟩
  · simp [HeapState.init, HeapState.halves]
  obtain rfl := Option.some.inj ((heapStep_of_search hs₁ (by decide)).symm.trans hstep)
  refine fun s'' hstep => ⟨safeStep_of_search hs₂ ?_, trivial⟩
  simp [HeapState.init, HeapState.halves, Apart, stop]

/-- **A small request is carved out of a half that is held whole.** -/
theorem live_ranges_overlap :
    ¬ ∀ mem : Mem, (∀ a, mem a ≠ kheapMagic) → ∀ ops,
      Always heapStep RangesDisjoint (HeapState.init kheapStart kheapSize mem) ops := by
  intro h
  have hs₁ : search (fun _ => 0) (initHeap kheapStart kheapSize).block (0x1ffffc + nodeBytes)
      = some ⟨0xc0200000, 0x80000⟩ := by
    simp [search, Exhausted, freeHalf, initHeap, kheapStart, kheapSize, kheapMinAlloc,
      kheapMagic, nodeBytes, Block.right]
  have hs₂ : search (Function.update (fun _ => 0) 0xc0200000 kheapMagic)
      (initHeap kheapStart kheapSize).block (0x20000 + nodeBytes)
      = some ⟨0xc0300000, 0x40000⟩ := by
    simp [search, Exhausted, freeHalf, initHeap, kheapStart, kheapSize, kheapMinAlloc,
      kheapMagic, nodeBytes, Block.right]
  obtain ⟨-, hrun⟩ := h (fun _ => 0) (fun _ => by decide) [.kmalloc 0x1ffffc 0, .kmalloc 0x20000 0]
  have hrun := (hrun _ (heapStep_of_search hs₁ (by decide))).2
  have hrun : RangesDisjoint _ := hrun _ (heapStep_of_search hs₂ (by decide))
  have hdis := (List.pairwise_cons.mp hrun).1 ⟨⟨0xc0200000, 0x80000⟩, 0x1ffffc⟩ (by simp)
  have hnew : 0xc0300000 ∈ Grant.range ⟨⟨0xc0300000, 0x40000⟩, 0x20000⟩ := ⟨by decide, by decide⟩
  exact Set.disjoint_left.mp hdis hnew ⟨by decide, by decide⟩

end OsThing.Alloc
