/-
When the live allocations of a process stay apart.

The search is the one of the kernel heap and goes wrong in the same two ways: the header
word of a half does not say that the half was taken whole, and a half whose own word is
free need not be free further in.  Here both happen to small programs, since the block
starts with 8 bytes and grows while allocations are live.  A block of 16 bytes of which
the right half is taken is the free-looking left half of the next one.

`SafeStep` says that neither happens at any of the lengths that `malloc` searches.  In
runs of such steps the headers can be trusted, and everything that is live stays apart.
-/
import OsThing.Lib.Runs
import OsThing.User.Alloc

namespace OsThing.UserAlloc

open Halving Halving.Block Runs

/-! ### `find_free` and `malloc` -/

/-- `find_free` is the general search, one byte to a word. -/
theorem findFree_eq_firstFit (mem : Mem) (node nodeSize size : Nat) :
    findFree mem node nodeSize size = firstFit 1 3 nodeBytes MAGIC mem node nodeSize size := by
  induction hn : nodeSize using Nat.strong_induction_on generalizing mem node nodeSize with
  | _ n ih =>
    subst hn
    rw [findFree, firstFit]
    have hguard : nodeSize / 2 < nodeBytes ↔ nodeSize / 2 ≤ 3 := Nat.lt_succ_iff
    simp only [Nat.one_mul, hguard]
    split
    · rfl
    · rename_i hroom
      have hlt : nodeSize / 2 < nodeSize := by omega
      simp only [ih _ hlt _ _ _ rfl]
      rfl

theorem findFree_eq (mem : Mem) (size : Nat) (b : Block) :
    findFree mem b.start b.size size =
      match descend 1 3 (Taken mem) b size with
      | none => (0, mem)
      | some half => marked nodeBytes MAGIC mem half := by
  rw [findFree_eq_firstFit]
  exact firstFit_eq (by decide) mem size b

/-- The heaps at which `malloc` calls `find_free`, as long as that finds nothing. -/
inductive Searched (mem : Mem) (need : Nat) : Heap → Heap → Prop
  | here {h : Heap} (hfits : need ≤ h.hSize / 2) : Searched mem need h h
  | grow {h h₁ h₂ : Heap} (hsmall : h.hSize / 2 < need ∨ NoRoom 1 3 (Taken mem) h.block)
      (hresize : resize h = some h₁) (hrest : Searched mem need h₁ h₂) : Searched mem need h h₂

theorem growFor_searched {mem : Mem} {need : Nat} {h h₁ h₂ : Heap}
    (hgrow : growFor need h = some h₁) (hrest : Searched mem need h₁ h₂) :
    Searched mem need h h₂ := by
  fun_induction growFor need h with
  | case1 h hlt _ => cases hgrow
  | case2 h hlt h' hresize ih => exact .grow (Or.inl hlt) hresize (ih hgrow)
  | case3 h hle =>
      obtain rfl := Option.some.inj hgrow
      exact hrest

theorem growFor_fits {need : Nat} {h h₁ : Heap} (hgrow : growFor need h = some h₁) :
    need ≤ h₁.hSize / 2 := by
  fun_induction growFor need h with
  | case1 h hlt _ => cases hgrow
  | case2 h hlt h' hresize ih => exact ih hgrow
  | case3 h hle =>
      obtain rfl := Option.some.inj hgrow
      omega

theorem findFree_zero {mem mem' : Mem} {need : Nat} {h : Heap}
    (hfind : findFree mem h.hPos h.hSize need = (0, mem')) :
    NoRoom 1 3 (Taken mem) h.block ∧ mem' = mem := by
  have heq := findFree_eq mem need h.block
  rw [Heap.block_start, Heap.block_size, hfind] at heq
  cases hsearch : descend 1 3 (Taken mem) h.block need with
  | none =>
      rw [hsearch] at heq
      exact ⟨descend_eq_none.mp hsearch, congrArg Prod.snd heq⟩
  | some half =>
      rw [hsearch] at heq
      cases congrArg Prod.fst heq

theorem findFree_found {mem mem' : Mem} {need ret : Nat} {h : Heap}
    (hfind : findFree mem h.hPos h.hSize need = (ret, mem')) (hret : ret ≠ 0) :
    ∃ half, descend 1 3 (Taken mem) h.block need = some half ∧
      ret = half.start + nodeBytes ∧ mem' = Function.update mem half.start MAGIC := by
  have heq := findFree_eq mem need h.block
  rw [Heap.block_start, Heap.block_size, hfind] at heq
  cases hsearch : descend 1 3 (Taken mem) h.block need with
  | none =>
      rw [hsearch] at heq
      exact absurd (congrArg Prod.fst heq) hret
  | some half =>
      rw [hsearch] at heq
      exact ⟨half, rfl, congrArg Prod.fst heq, congrArg Prod.snd heq⟩

/-- The loop, without the pattern. -/
theorem findLoop_eq (mem : Mem) (need : Nat) (h : Heap) :
    findLoop mem need h =
      if (findFree mem h.hPos h.hSize need).1 = 0 then
        (resize h).bind (findLoop (findFree mem h.hPos h.hSize need).2 need)
      else some ((findFree mem h.hPos h.hSize need).1, h, (findFree mem h.hPos h.hSize need).2) := by
  fun_cases findLoop mem need h with
  | case1 mem₁ hfind hresize => rw [hfind, if_pos rfl, hresize, Option.bind_none]
  | case2 mem₁ hfind h' hresize => rw [hfind, if_pos rfl, hresize, Option.bind_some]
  | case3 ret mem₁ hne hfind => rw [hfind, if_neg hne]

theorem findLoop_spec {mem mem' : Mem} {need ret : Nat} {h h' : Heap}
    (hfits : need ≤ h.hSize / 2) (hloop : findLoop mem need h = some (ret, h', mem')) :
    ∃ half, Searched mem need h h' ∧ descend 1 3 (Taken mem) h'.block need = some half ∧
      ret = half.start + nodeBytes ∧ mem' = Function.update mem half.start MAGIC := by
  fun_induction findLoop mem need h with
  | case1 mem h mem₁ hfind hnone => cases hloop
  | case2 mem h mem₁ hfind h₁ hresize ih =>
      obtain ⟨hroom, rfl⟩ := findFree_zero hfind
      have hgrown : need ≤ h₁.hSize / 2 := by
        obtain ⟨-, -, ⟨_, _, _⟩ | ⟨_, _, _⟩⟩ := resize_spec hresize <;> omega
      obtain ⟨half, hsearched, hrest⟩ := ih hgrown hloop
      exact ⟨half, .grow (Or.inr hroom) hresize hsearched, hrest⟩
  | case3 mem h ret₁ mem₁ hne hfind =>
      simp only [Option.some.injEq, Prod.mk.injEq] at hloop
      obtain ⟨rfl, rfl, rfl⟩ := hloop
      obtain ⟨half, hfound⟩ := findFree_found hfind hne
      exact ⟨half, .here hfits, hfound⟩

/-- **What `malloc` returns.** -/
theorem malloc_spec {mem mem' : Mem} {size : Int32} {ret : Nat} {h h' : Heap}
    (hmalloc : malloc h mem size = some (ret, h', mem')) :
    ∃ half, Searched mem (bytesFor size) h h' ∧
      descend 1 3 (Taken mem) h'.block (bytesFor size) = some half ∧
      ret = half.start + nodeBytes ∧ mem' = Function.update mem half.start MAGIC := by
  obtain ⟨h₁, hgrow, hloop⟩ := Option.bind_eq_some_iff.mp hmalloc
  obtain ⟨half, hsearched, hfound⟩ := findLoop_spec (growFor_fits hgrow) hloop
  exact ⟨half, growFor_searched hgrow hsearched, hfound⟩

theorem Searched.fits {mem : Mem} {need : Nat} {h h' : Heap} (hs : Searched mem need h h') :
    need ≤ h'.hSize / 2 := by
  induction hs with
  | here hfits => exact hfits
  | grow _ _ _ ih => exact ih

/-- Of two heaps that `malloc` searches, the one that has something for it is the last. -/
theorem Searched.last {mem : Mem} {need : Nat} {h h₁ h₂ : Heap} {half : Block}
    (hs₁ : Searched mem need h h₁) (hs₂ : Searched mem need h h₂)
    (hfound : descend 1 3 (Taken mem) h₁.block need = some half) :
    h₂ = h₁ ∨ NoRoom 1 3 (Taken mem) h₂.block := by
  have hroom : ¬ NoRoom 1 3 (Taken mem) h₁.block := fun hroom => by
    rw [descend_eq_none.mpr hroom] at hfound
    cases hfound
  induction hs₁ with
  | @here h hfits =>
      cases hs₂ with
      | here _ => exact Or.inl rfl
      | grow hsmall _ _ => exact absurd (hsmall.resolve_left (Nat.not_lt_of_le hfits)) hroom
  | @grow h h' h₁ hsmall hresize hrest ih =>
      cases hs₂ with
      | here hfits => exact Or.inr (hsmall.resolve_left (Nat.not_lt_of_le hfits))
      | grow _ hresize' hrest' =>
          obtain rfl := Option.some.inj (hresize.symm.trans hresize')
          exact ih hrest' hfound hroom

/-! ### The invariant of a run -/

/-- The halves handed out and not yet freed. -/
def HeapState.halves (s : HeapState) : List Block := s.live.map Grant.half

/-- The allocation lies in its half, behind the header. -/
structure Grant.Fits (g : Grant) : Prop where
  ptr : g.ptr = g.half.start + nodeBytes
  size : (g.ptr : ℤ) + g.size.toInt ≤ g.half.stop 1

/-- What is live is apart and marked, and what `h_size` counts was given by `sbrk`. -/
structure HeapInv (s : HeapState) : Prop where
  kept : Kept 1 3 (Taken s.mem) s.heap.block s.halves
  fits : ∀ g ∈ s.live, g.Fits
  extent : s.heap.hSize ≤ s.heap.brk
  addresses : s.heap.hSize < 2 ^ 32

theorem HeapInv.init (brk : Nat) (mem : Mem) : HeapInv (HeapState.init brk mem) :=
  ⟨Kept.nil _, fun _ hg => absurd hg List.not_mem_nil, Nat.zero_le _, Nat.two_pow_pos 32⟩

/-- The ranges of two grants from halves that are apart. -/
theorem Grant.Fits.disjoint {g g' : Grant} (h : g.Fits) (h' : g'.Fits)
    (hap : Apart 1 g.half g'.half) (a : ℤ) (ha : g.Covers a) : ¬ g'.Covers a := by
  have hptr := h.ptr
  have hptr' := h'.ptr
  have hsize := h.size
  have hsize' := h'.size
  simp only [Grant.Covers, nodeBytes] at *
  rcases hap with hap | hap <;> omega

theorem HeapInv.ranges {s : HeapState} (h : HeapInv s) : RangesDisjoint s :=
  (List.pairwise_map.mp h.kept.apart).imp_of_mem fun hg hg' hap =>
    (h.fits _ hg).disjoint (h.fits _ hg') hap

/-- Growing changes neither what is live nor where it is. -/
theorem resize_kept {h h' : Heap} {taken : Nat → Prop} {live : List Block}
    (hkept : Kept 1 3 taken h.block live) (hextent : h.hSize ≤ h.brk)
    (hresize : resize h = some h') : Kept 1 3 taken h'.block live := by
  obtain ⟨hpos, -, hsize⟩ := resize_spec hresize
  refine hkept.move fun x hx hin => ?_
  have hwide := hkept.wide x hx
  rcases hsize with ⟨hne, hdouble, -⟩ | ⟨hzero, -, -⟩
  · by_cases hnew : h.hPos = 0
    · -- a heap that starts at 0 is taken for one that is not there yet, and moves
      rw [if_pos hnew] at hpos
      have hstop : x.stop 1 ≤ h.hSize := by
        rcases hin with hin | hin
        · have hbounds := hin.within.bounds
          simp only [stop, Heap.block_start, Heap.block_size] at hbounds ⊢
          omega
        · simp only [Heap.block_start] at hin
          omega
      refine Or.inr ?_
      rw [Heap.block_start, hpos]
      exact hstop.trans hextent
    · rw [if_neg hnew] at hpos
      have hblock : h'.block = h.block.double := by
        simp only [Heap.block, double, hpos, hdouble]
      rw [hblock]
      exact hin.imp_left Proper.double
  · refine Or.inr ?_
    have hstop : x.stop 1 ≤ h.hPos := by
      refine hin.resolve_left fun hin => ?_
      have hbounds := hin.within.bounds
      simp only [stop, Heap.block_start, Heap.block_size, hzero] at hbounds
      omega
    rw [Heap.block_start, hpos]
    split
    · simp only [stop] at hstop ⊢
      omega
    · exact hstop

theorem Searched.inv {mem : Mem} {need : Nat} {h h' : Heap} {taken : Nat → Prop}
    {live : List Block} (hs : Searched mem need h h') (hkept : Kept 1 3 taken h.block live)
    (hextent : h.hSize ≤ h.brk) (haddr : h.hSize < 2 ^ 32) :
    Kept 1 3 taken h'.block live ∧ h'.hSize ≤ h'.brk ∧ h'.hSize < 2 ^ 32 := by
  induction hs with
  | here _ => exact ⟨hkept, hextent, haddr⟩
  | grow _ hresize _ ih =>
      obtain ⟨-, hbrk, hsize⟩ := resize_spec hresize
      exact ih (resize_kept hkept hextent hresize) (by omega) (by omega)

/-- `size + sizeof( mnode_t )` in terms of the 32 bits of `size`. -/
theorem bytesFor_bits (size : Int32) :
    bytesFor size = (size.toBitVec.toNat + 4) % 2 ^ 32 ∧
      size.toInt = if 2 * size.toBitVec.toNat < 2 ^ 32 then (size.toBitVec.toNat : ℤ)
        else size.toBitVec.toNat - 2 ^ 32 := by
  refine ⟨?_, BitVec.toInt_eq_toNat_cond ..⟩
  rw [bytesFor, UInt32.toNat_add]
  rfl

/-- A request that some heap has room for was not negative enough to wrap around. -/
theorem bytesFor_eq {size : Int32} (h : bytesFor size < 2 ^ 31) :
    (bytesFor size : ℤ) = size.toInt + 4 := by
  have hlt := size.toBitVec.isLt
  obtain ⟨hnat, hint⟩ := bytesFor_bits size
  rw [hint]
  split <;> omega

/-- A size that is not negative does not wrap around. -/
theorem bytesFor_of_nonneg {size : Int32} (h : 0 ≤ size.toInt) :
    (bytesFor size : ℤ) = size.toInt + 4 := by
  have hlt := size.toBitVec.isLt
  obtain ⟨hnat, hint⟩ := bytesFor_bits size
  rw [hint] at h ⊢
  split at h <;> omega

/--
The step is one the allocator can take safely: at each length the heap is searched at, the
way of the search is clear of what is live.  Frees and stores are always fine.
-/
def SafeStep (s : HeapState) : HeapOp → Prop
  | .malloc size => ∀ h, Searched s.mem (bytesFor size) s.heap h →
      ClearWay 1 3 (Taken s.mem) s.halves h.block (bytesFor size)
  | _ => True

/-! ### One call -/

theorem heapStep_malloc {s s' : HeapState} {size : Int32}
    (h : heapStep s (.malloc size) = some s') :
    ∃ g, Searched s.mem (bytesFor size) s.heap s'.heap ∧
      descend 1 3 (Taken s.mem) s'.heap.block (bytesFor size) = some g.half ∧
      g.ptr = g.half.start + nodeBytes ∧ g.size = size ∧
      s'.mem = Function.update s.mem g.half.start MAGIC ∧ s'.live = g :: s.live := by
  obtain ⟨⟨ptr, heap, mem⟩, hmalloc, h⟩ := Option.bind_eq_some_iff.mp h
  obtain ⟨half, hhalf, rfl⟩ := Option.map_eq_some_iff.mp h
  obtain ⟨half', hsearched, hfound, hptr, hmem⟩ := malloc_spec hmalloc
  obtain rfl : half' = half := Option.some.inj (hfound.symm.trans hhalf)
  exact ⟨⟨ptr, size, half'⟩, hsearched, hhalf, hptr, rfl, hmem, rfl⟩

theorem heapStep_free {s s' : HeapState} {ptr : Nat} (h : heapStep s (.free ptr) = some s') :
    ∃ g l₁ l₂, s.live = l₁ ++ g :: l₂ ∧ s'.live = l₁ ++ l₂ ∧ s'.heap = s.heap ∧
      s'.mem = Function.update s.mem (g.ptr - nodeBytes) FREED := by
  simp only [heapStep] at h
  split at h
  · rename_i hex
    obtain ⟨mem, hm, rfl⟩ := Option.map_eq_some_iff.mp h
    obtain ⟨g, l₁, l₂, hl, hptr, her⟩ := exists_of_given_up hex
    refine ⟨g, l₁, l₂, hl, her, rfl, ?_⟩
    simp only [free] at hm
    split at hm
    · rw [hptr]
      exact (Option.some.inj hm).symm
    · cases hm
  · cases h

theorem heapStep_store {s s' : HeapState} {ptr : Nat} {words : Mem}
    (h : heapStep s (.store ptr words) = some s') :
    ∃ g ∈ s.live, s'.heap = s.heap ∧ s'.live = s.live ∧
      ∀ a, ¬ g.Owns a → s'.mem a = s.mem a := by
  simp only [heapStep] at h
  split at h
  · rename_i g hfind
    obtain rfl := Option.some.inj h
    exact ⟨g, List.mem_of_find?_eq_some hfind, rfl, rfl, fun a ha => if_neg ha⟩
  · cases h

/-! ### The invariant is kept -/

theorem HeapInv.malloc {s s' : HeapState} (h : HeapInv s) {size : Int32}
    (hstep : heapStep s (.malloc size) = some s') (hsafe : SafeStep s (.malloc size)) :
    HeapInv s' := by
  obtain ⟨g, hsearched, hfound, hptr, rfl, hmem, hlive⟩ := heapStep_malloc hstep
  obtain ⟨hkept, hextent, haddr⟩ := hsearched.inv h.kept h.extent h.addresses
  have hap := descend_apart Nat.one_pos hkept.marked
    (fun x hx => Nat.zero_lt_of_lt (hkept.wide x hx)) hkept.inside_or_apart
    (hsafe _ hsearched) hfound
  have hfits : bytesFor g.size ≤ 1 * g.half.size :=
    descend_fits Nat.one_pos hfound (by rw [Nat.one_mul]; exact hsearched.fits)
  refine ⟨?_, ?_, hextent, haddr⟩
  · rw [HeapState.halves, hlive]
    refine hkept.cons hfound hap ?_ fun a ha => ?_
    · rw [hmem]
      exact Function.update_self ..
    · rw [Taken, hmem, Function.update_apply]
      split
      · rfl
      · exact ha
  · rw [hlive]
    refine List.forall_mem_cons.mpr ⟨⟨hptr, ?_⟩, h.fits⟩
    have hbytes := hsearched.fits
    have heq := @bytesFor_eq g.size (by omega)
    simp only [stop, hptr, nodeBytes]
    omega

theorem HeapInv.free {s s' : HeapState} (h : HeapInv s) {ptr : Nat}
    (hstep : heapStep s (.free ptr) = some s') : HeapInv s' := by
  obtain ⟨g, l₁, l₂, hl, hlive, hheap, hmem⟩ := heapStep_free hstep
  have hg : g ∈ s.live := by
    rw [hl]
    exact List.mem_append_right _ List.mem_cons_self
  have hsub : s'.live.Sublist s.live := by
    rw [hl, hlive]
    exact List.Sublist.append_left (List.sublist_cons_self g l₂) l₁
  have hap := h.kept.apart
  rw [HeapState.halves, hl, List.map_append, List.map_cons, List.pairwise_append,
    List.pairwise_cons] at hap
  obtain ⟨-, ⟨hg₂, -⟩, hg₁⟩ := hap
  -- what stays live is apart from `g`, so its header is not the one that is cleared
  have hother : ∀ x ∈ s'.halves, Apart 1 g.half x := by
    intro x hx
    rw [HeapState.halves, hlive, List.map_append] at hx
    rcases List.mem_append.mp hx with h₁ | h₂
    · exact (hg₁ x h₁ g.half List.mem_cons_self).symm
    · exact hg₂ x h₂
  refine ⟨?_, fun g' hg' => h.fits g' (hsub.subset hg'), hheap ▸ h.extent, hheap ▸ h.addresses⟩
  rw [hheap]
  refine h.kept.sublist (hsub.map Grant.half) fun x hx => ?_
  have hmem' : x ∈ s.halves := (hsub.map Grant.half).subset hx
  have hwide := h.kept.wide x hmem'
  have hwide' := h.kept.wide g.half (List.mem_map_of_mem hg)
  have hne : x.start ≠ g.half.start := by
    rcases hother x hx with h' | h' <;> simp only [stop] at h' <;> omega
  rw [Taken, hmem, (h.fits g hg).ptr, Nat.add_sub_cancel, Function.update_of_ne hne]
  exact h.kept.marked x hmem'

/-- No payload reaches a live header: not its own, and not one in another half. -/
theorem HeapInv.not_owns {s : HeapState} (h : HeapInv s) {g g' : Grant} (hg : g ∈ s.live)
    (hg' : g' ∈ s.live) : ¬ g.Owns g'.half.start := by
  rintro ⟨hlo, hhi⟩
  have hptr := (h.fits g hg).ptr
  have hsize := (h.fits g hg).size
  simp only [nodeBytes] at hptr
  by_cases hsame : g.half = g'.half
  · rw [← hsame] at hhi
    omega
  · have hwide := h.kept.wide g'.half (List.mem_map_of_mem hg')
    have hap := h.kept.apart_of_ne (List.mem_map_of_mem hg) (List.mem_map_of_mem hg') hsame
    rcases hap with h' | h' <;> simp only [stop] at h' hsize <;> omega

theorem HeapInv.store {s s' : HeapState} (h : HeapInv s) {ptr : Nat} {words : Mem}
    (hstep : heapStep s (.store ptr words) = some s') : HeapInv s' := by
  obtain ⟨g, hg, hheap, hlive, hmem⟩ := heapStep_store hstep
  refine ⟨?_, hlive ▸ h.fits, hheap ▸ h.extent, hheap ▸ h.addresses⟩
  rw [hheap, HeapState.halves, hlive]
  refine h.kept.sublist (List.Sublist.refl _) fun x hx => ?_
  obtain ⟨g', hg', rfl⟩ := List.mem_map.mp hx
  rw [Taken, hmem _ (h.not_owns hg hg')]
  exact h.kept.marked _ hx

theorem HeapInv.step {s s' : HeapState} {op : HeapOp} (h : HeapInv s)
    (hstep : heapStep s op = some s') (hsafe : SafeStep s op) : HeapInv s' := by
  cases op with
  | malloc size => exact h.malloc hstep hsafe
  | free ptr => exact h.free hstep
  | store ptr words => exact h.store hstep

/-- A half that is apart from all that is live was found safely. -/
theorem safeStep_of_search {s : HeapState} {size : Int32} {h₁ : Heap} {half : Block}
    (hs : Searched s.mem (bytesFor size) s.heap h₁)
    (hfound : descend 1 3 (Taken s.mem) h₁.block (bytesFor size) = some half)
    (hap : ∀ x ∈ s.halves, Apart 1 half x) : SafeStep s (.malloc size) := by
  intro h₂ hs₂
  rcases hs.last hs₂ hfound with rfl | hroom
  · exact clearWay_of_apart Nat.one_pos hfound hap
  · rw [ClearWay, dif_pos hroom]
    trivial

/-- A step after which the live halves are still apart was a safe one. -/
theorem safeStep_of_apart {s s' : HeapState} {op : HeapOp} (hstep : heapStep s op = some s')
    (hap : s'.halves.Pairwise (Apart 1)) : SafeStep s op := by
  cases op with
  | malloc size =>
      obtain ⟨g, hsearched, hfound, -, -, -, hlive⟩ := heapStep_malloc hstep
      rw [HeapState.halves, hlive] at hap
      exact safeStep_of_search hsearched hfound (List.pairwise_cons.mp hap).1
  | free ptr => trivial
  | store ptr words => trivial

/-! ### Whole runs -/

/-- **Safe steps are exactly what keeps the halves apart.** -/
theorem halves_kept_apart_iff (brk : Nat) (mem : Mem) (ops : List HeapOp) :
    Always heapStep (fun s => s.halves.Pairwise (Apart 1)) (HeapState.init brk mem) ops ↔
      EveryStep heapStep (fun s op _ => SafeStep s op) (HeapState.init brk mem) ops :=
  always_iff (fun _ (h : HeapInv _) => h.kept.apart)
    (fun _ _ _ h hstep hsafe => h.step hstep hsafe)
    (fun _ _ _ _ hstep hap => safeStep_of_apart hstep hap) (HeapInv.init brk mem)

/--
**Live allocations of a process stay disjoint in every run of safe steps.**

Wherever the heap starts, whatever the memory holds, however often the heap grows, and
whatever the program stores into its payloads.
-/
theorem allocations_disjoint (brk : Nat) (mem : Mem) (ops : List HeapOp)
    (hsafe : EveryStep heapStep (fun s op _ => SafeStep s op) (HeapState.init brk mem) ops) :
    Always heapStep RangesDisjoint (HeapState.init brk mem) ops := by
  have hinv := always_of_inv (fun _ _ _ (h : HeapInv _) hstep hc => h.step hstep hc)
    (HeapInv.init brk mem) hsafe
  exact hinv.mono fun _ h => h.ranges

/-! ### Requests by hand

Where the growing ends and what the search finds there decide the step.
-/

theorem growFor_resize {need : Nat} {h h' : Heap} (hlt : h.hSize / 2 < need)
    (hresize : resize h = some h') : growFor need h = growFor need h' := by
  rw [growFor, if_pos hlt]
  split
  · rename_i hnone
    cases hnone.symm.trans hresize
  · rename_i h₁ hsome
    obtain rfl := Option.some.inj (hsome.symm.trans hresize)
    rfl

theorem growFor_self {need : Nat} {h : Heap} (hfits : need ≤ h.hSize / 2) :
    growFor need h = some h := by
  rw [growFor, if_neg (Nat.not_lt_of_le hfits)]

theorem malloc_of_search {mem : Mem} {size : Int32} {h₀ h : Heap} {half : Block}
    (hgrow : growFor (bytesFor size) h₀ = some h)
    (hfound : descend 1 3 (Taken mem) h.block (bytesFor size) = some half) :
    malloc h₀ mem size = some (half.start + nodeBytes, h, Function.update mem half.start MAGIC) := by
  have hfind := findFree_eq mem (bytesFor size) h.block
  rw [hfound] at hfind
  have hloop : findLoop mem (bytesFor size) h =
      some (half.start + nodeBytes, h, Function.update mem half.start MAGIC) := by
    rw [findLoop, show findFree mem h.hPos h.hSize (bytesFor size) = _ from hfind]
    simp [marked, nodeBytes]
  rw [malloc, hgrow, Option.bind_some, hloop]

theorem heapStep_of_search {s : HeapState} {size : Int32} {h : Heap} {half : Block}
    (hgrow : growFor (bytesFor size) s.heap = some h)
    (hfound : descend 1 3 (Taken s.mem) h.block (bytesFor size) = some half) :
    heapStep s (.malloc size) = some ⟨h, Function.update s.mem half.start MAGIC,
      ⟨half.start + nodeBytes, size, half⟩ :: s.live⟩ := by
  simp [heapStep, malloc_of_search hgrow hfound, hfound]

/-- The heap that a process has after a request of 12 bytes. -/
theorem growFor_twelve : growFor (bytesFor 12) ⟨0, 0, 0x1000⟩ = some ⟨0x1000, 32, 0x1020⟩ := by
  calc growFor (bytesFor 12) ⟨0, 0, 0x1000⟩
      = growFor (bytesFor 12) ⟨0x1000, 8, 0x1008⟩ := growFor_resize (by decide) rfl
    _ = growFor (bytesFor 12) ⟨0x1000, 16, 0x1010⟩ := growFor_resize (by decide) rfl
    _ = growFor (bytesFor 12) ⟨0x1000, 32, 0x1020⟩ := growFor_resize (by decide) rfl
    _ = some ⟨0x1000, 32, 0x1020⟩ := growFor_self (by decide)

theorem descend_twelve : descend 1 3 (Taken fun _ => 0) (Heap.block ⟨0x1000, 32, 0x1020⟩)
    (bytesFor 12) = some ⟨0x1010, 16⟩ := by
  simp [descend, NoRoom, freeOne, Taken, Block.right, MAGIC, show bytesFor 12 = 16 from rfl]

theorem descend_twelve_again : descend 1 3 (Taken (Function.update (fun _ => 0) 0x1010 MAGIC))
    (Heap.block ⟨0x1000, 32, 0x1020⟩) (bytesFor 12) = some ⟨0x1000, 16⟩ := by
  simp [descend, NoRoom, freeOne, Taken, Block.left, MAGIC, show bytesFor 12 = 16 from rfl]

/-- Two requests of 12 bytes get a half of the heap each. -/
theorem allocations_disjoint_two :
    Always heapStep RangesDisjoint (HeapState.init 0x1000 fun _ => 0) [.malloc 12, .malloc 12] := by
  refine allocations_disjoint _ _ _ fun s' hstep => ⟨?_, ?_⟩
  · exact safeStep_of_search (growFor_searched growFor_twelve (.here (by decide))) descend_twelve
      (by simp [HeapState.init, HeapState.halves])
  obtain rfl := Option.some.inj
    ((heapStep_of_search growFor_twelve descend_twelve).symm.trans hstep)
  refine fun s'' hstep => ⟨safeStep_of_search (.here (by decide)) descend_twelve_again ?_, trivial⟩
  simp [HeapState.init, HeapState.halves, Apart, stop]

/-- **A byte is carved out of twelve that somebody holds.** -/
theorem allocations_overlap :
    ¬ ∀ brk mem, (∀ a, mem a ≠ MAGIC) → ∀ ops,
      Always heapStep RangesDisjoint (HeapState.init brk mem) ops := by
  intro h
  have hs₂ : descend 1 3 (Taken (Function.update (fun _ => 0) 0x1010 MAGIC))
      (Heap.block ⟨0x1000, 32, 0x1020⟩) (bytesFor 1) = some ⟨0x1018, 8⟩ := by
    simp [descend, NoRoom, freeOne, Taken, Block.right, MAGIC, show bytesFor 1 = 5 from rfl]
  obtain ⟨-, hrun⟩ := h 0x1000 (fun _ => 0) (fun _ => by decide) [.malloc 12, .malloc 1]
  have hrun := (hrun _ (heapStep_of_search growFor_twelve descend_twelve)).2
  have hrun : RangesDisjoint _ := hrun _ (heapStep_of_search (growFor_self (by decide)) hs₂)
  have hmem : (⟨0x1014, 12, ⟨0x1010, 16⟩⟩ : Grant) ∈ [Grant.mk 0x1014 12 ⟨0x1010, 16⟩] :=
    List.mem_cons_self
  exact (List.pairwise_cons.mp hrun).1 _ hmem 0x1018 ⟨by decide, by decide⟩ ⟨by decide, by decide⟩

end OsThing.UserAlloc
