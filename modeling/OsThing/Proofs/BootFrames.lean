/-
The frames that `init_paging` pushes.

The loop starts at the first address behind the memory of the machine, and goes down to
address 0.  So it pushes one frame more than there are pages, and the first one that it
pushes is not there: `init_stack_overflows`.  Both of that is true of every machine.

The frames lie in the array as `Mem/AddressSpaces` takes them to, with frame 0 on top.
-/
import OsThing.Proofs.BootMap
import OsThing.Proofs.PageStack

namespace OsThing.Paging

/-! ### The loop -/

/-- The stack after the pages up to `m` have been pushed, the last one first. -/
def pushDown : Nat → PageStack → PageStack
  | 0, s => s.pushPage 0
  | m + 1, s => pushDown m (s.pushPage ((m + 1) * pageSize))

/-- The counter of the loop at page `m`. -/
def pageCounter (m : Nat) : UInt32 := UInt32.ofNat (m * pageSize)

theorem pageCounter_toNat {m : Nat} (hm : m < 2 ^ 20) : (pageCounter m).toNat = m * pageSize :=
  UInt32.toNat_ofNat_of_lt' (show m * pageSize < 2 ^ 32 by
    unfold pageSize
    omega)

/-- The loop goes on at every page, and stops after page 0. -/
theorem pushLoop_eq : ∀ {m : Nat} (fuel : Nat) (s : PageStack), m + 1 < 2 ^ 20 →
    pushLoop fuel (pageCounter m) s = if m + 1 < fuel then some (pushDown m s) else none := by
  intro m
  induction m with
  | zero =>
      intro fuel s _
      rcases fuel with _ | _ | fuel
      · rfl
      · rfl
      · rw [if_pos (by omega)]
        rfl
  | succ m ih =>
      intro fuel s hm
      rcases fuel with _ | fuel
      · rfl
      have hnat := pageCounter_toNat (show m + 1 < 2 ^ 20 by omega)
      have hgoes : 0 < pageCounter (m + 1) + PAGE_SIZE := by
        rw [UInt32.lt_iff_toNat_lt, UInt32.toNat_add, hnat]
        show 0 < ((m + 1) * pageSize + 0x1000) % 2 ^ 32
        unfold pageSize
        omega
      have hnext : pageCounter (m + 1) - PAGE_SIZE = pageCounter m := by
        rw [← UInt32.toNat_inj, UInt32.toNat_sub, hnat, pageCounter_toNat (by omega)]
        show (2 ^ 32 - 0x1000 + (m + 1) * pageSize) % 2 ^ 32 = m * pageSize
        unfold pageSize
        omega
      rw [pushLoop, if_pos hgoes, hnext, ih fuel _ (by omega), hnat]
      refine if_congr ?_ rfl rfl
      omega

/-- What was pushed, the first one first. -/
def PageStack.pushed (s : PageStack) : List Nat := (List.range s.pagePtr).map s.slots

theorem pushed_pushPage (s : PageStack) (address : Nat) :
    (s.pushPage address).pushed = s.pushed ++ [pageBase address] := by
  unfold PageStack.pushed PageStack.pushPage
  dsimp only
  rw [List.range_succ, List.map_append, List.map_singleton, Function.update_self]
  refine congrArg (· ++ _) (List.map_congr_left fun i hi => Function.update_of_ne ?_ _ _)
  exact Nat.ne_of_lt (List.mem_range.mp hi)

theorem pageBase_mul (m : Nat) : pageBase (m * pageSize) = m * pageSize := by
  unfold pageBase
  rw [Nat.mul_div_cancel _ (by decide)]

theorem pushDown_spec : ∀ (m : Nat) (s : PageStack),
    (pushDown m s).pushed = s.pushed ++ (List.range (m + 1)).reverse.map (· * pageSize) ∧
      (pushDown m s).npages = s.npages ∧ (pushDown m s).stackBottom = s.stackBottom := by
  intro m
  induction m with
  | zero =>
      intro s
      exact ⟨pushed_pushPage s 0, rfl, rfl⟩
  | succ m ih =>
      intro s
      obtain ⟨hpushed, hnpages, hbottom⟩ := ih (s.pushPage ((m + 1) * pageSize))
      refine ⟨?_, hnpages, hbottom⟩
      rw [pushDown, hpushed, pushed_pushPage, pageBase_mul, @List.range_succ (m + 1),
        List.reverse_append, List.reverse_singleton, List.map_append, List.map_singleton,
        List.append_assoc]

/-! ### The machine -/

/-- The memory of a machine is a number of 4 MB. -/
theorem maxMem_mod (memLower memUpper : UInt32) :
    (maxMem memLower memUpper).toNat % 2 ^ 12 = 0 := by
  unfold maxMem
  rw [UInt32.toNat_and, Nat.and_mod_two_pow]
  exact Nat.and_zero _

/-- The number of pages of the machine. -/
def machinePages (memLower memUpper : UInt32) : Nat := (maxMem memLower memUpper / 4).toNat

/-- The frame that is pushed first. -/
def topFrame (memLower memUpper : UInt32) : Nat :=
  (maxMem memLower memUpper * 1024).toNat / pageSize

theorem topFrame_spec (memLower memUpper : UInt32) :
    maxMem memLower memUpper * 1024 = pageCounter (topFrame memLower memUpper) ∧
      topFrame memLower memUpper + 1 < 2 ^ 20 := by
  have hmod := maxMem_mod memLower memUpper
  have hstart : (maxMem memLower memUpper * 1024).toNat =
      (maxMem memLower memUpper).toNat * 1024 % 2 ^ 32 := UInt32.toNat_mul ..
  have hsmall : topFrame memLower memUpper + 1 < 2 ^ 20 := by
    unfold topFrame pageSize
    omega
  refine ⟨?_, hsmall⟩
  rw [← UInt32.toNat_inj, pageCounter_toNat (by omega)]
  unfold topFrame pageSize
  omega

/-- The loop on any machine. -/
theorem initStack_loop (fuel : Nat) (slots : Nat → Nat) (memLower memUpper : UInt32) :
    initStack fuel slots memLower memUpper =
      if topFrame memLower memUpper + 1 < fuel then
        some (pushDown (topFrame memLower memUpper) (.new slots (machinePages memLower memUpper)))
      else none := by
  obtain ⟨hstart, hsmall⟩ := topFrame_spec memLower memUpper
  unfold initStack
  dsimp only
  rw [hstart]
  exact pushLoop_eq fuel _ hsmall

theorem pushDown_free (m npages : Nat) (slots : Nat → Nat) :
    (pushDown m (.new slots npages)).free = (List.range (m + 1)).reverse.map (· * pageSize) := by
  obtain ⟨hpushed, -, hbottom⟩ := pushDown_spec m (.new slots npages)
  unfold PageStack.free
  rw [hbottom]
  show (List.range' 0 _).map _ = _
  rw [← List.range_eq_range']
  exact hpushed

section Machine

variable {memLower memUpper : UInt32} (hbelow : maxMem memLower memUpper < 0x400000)
include hbelow

theorem machinePages_eq :
    4 * machinePages memLower memUpper = (maxMem memLower memUpper).toNat ∧
      machinePages memLower memUpper + 1 < 2 ^ 20 := by
  have hmod := maxMem_mod memLower memUpper
  have hlt : (maxMem memLower memUpper).toNat < 0x400000 := UInt32.lt_iff_toNat_lt.mp hbelow
  unfold machinePages
  rw [UInt32.toNat_div]
  show 4 * ((maxMem memLower memUpper).toNat / 4) = _ ∧
    (maxMem memLower memUpper).toNat / 4 + 1 < _
  omega

/-- The loop starts behind the last page. -/
theorem topFrame_eq : topFrame memLower memUpper = machinePages memLower memUpper := by
  obtain ⟨hpages, hsmall⟩ := machinePages_eq hbelow
  unfold topFrame
  rw [UInt32.toNat_mul, ← hpages]
  show 4 * machinePages memLower memUpper * 1024 % 2 ^ 32 / 0x1000 = _
  omega

theorem initStack_eq (fuel : Nat) (slots : Nat → Nat) :
    initStack fuel slots memLower memUpper =
      if machinePages memLower memUpper + 1 < fuel then
        some (pushDown (machinePages memLower memUpper)
          (.new slots (machinePages memLower memUpper)))
      else none := by
  rw [initStack_loop, topFrame_eq hbelow]

end Machine

/-- The frames that the boot gets. -/
theorem initStack_frames {fuel : Nat} {slots : Nat → Nat} {memLower memUpper : UInt32}
    {s : PageStack} (h : initStack fuel slots memLower memUpper = some s) :
    s.frames = bootStack (topFrame memLower memUpper) ∧
      s.npages = machinePages memLower memUpper := by
  rw [initStack_loop] at h
  obtain ⟨-, h⟩ := Option.ite_none_right_eq_some.mp h
  obtain rfl := Option.some.inj h
  obtain ⟨-, hnpages, -⟩ := pushDown_spec (topFrame memLower memUpper)
    (.new slots (machinePages memLower memUpper))
  refine ⟨?_, hnpages⟩
  unfold PageStack.frames bootStack
  rw [pushDown_free, ← List.map_reverse, List.reverse_reverse, List.map_map]
  refine List.map_congr_left fun i _ => Fin.ext ?_
  show i * pageSize / pageSize % 2 ^ 20 = i % 2 ^ 20
  rw [Nat.mul_div_cancel _ (by decide)]

/-! ### The array -/

/-- There are as many frames as pages, they are distinct, and each of them lies in the memory of
the machine, so that the array has a slot for each. -/
structure FramesFit (memLower memUpper : UInt32) (s : PageStack) : Prop where
  count : s.pushed.length = s.npages
  nodup : s.pushed.Nodup
  inside : ∀ frame ∈ s.pushed, frame + pageSize ≤ (maxMem memLower memUpper).toNat * 1024
  slots : s.pagePtr ≤ s.npages

/-- What the loop leaves, whenever it ends. -/
theorem initStack_pushed {memLower memUpper : UInt32} {fuel : Nat} {slots : Nat → Nat}
    {s : PageStack} (hbelow : maxMem memLower memUpper < 0x400000)
    (h : initStack fuel slots memLower memUpper = some s) :
    s.npages = machinePages memLower memUpper ∧
      s.pushed = (s.npages * pageSize) :: (List.range s.npages).reverse.map (· * pageSize) := by
  rw [initStack_eq hbelow] at h
  obtain ⟨-, h⟩ := Option.ite_none_right_eq_some.mp h
  obtain rfl := Option.some.inj h
  obtain ⟨hpushed, hnpages, -⟩ := pushDown_spec (machinePages memLower memUpper)
    (.new slots (machinePages memLower memUpper))
  refine ⟨hnpages, ?_⟩
  rw [hpushed, hnpages, List.range_succ, List.reverse_append]
  rfl

theorem initStack_pagePtr {memLower memUpper : UInt32} {fuel : Nat} {slots : Nat → Nat}
    {s : PageStack} (hbelow : maxMem memLower memUpper < 0x400000)
    (h : initStack fuel slots memLower memUpper = some s) : s.pagePtr = s.npages + 1 := by
  obtain ⟨-, hpushed⟩ := initStack_pushed hbelow h
  have hlength := congrArg List.length hpushed
  unfold PageStack.pushed at hlength
  rwa [List.length_map, List.length_range, List.length_cons, List.length_map, List.length_reverse,
    List.length_range] at hlength

theorem not_framesFit {memLower memUpper : UInt32} {fuel : Nat} {slots : Nat → Nat}
    {s : PageStack} (hbelow : maxMem memLower memUpper < 0x400000)
    (h : initStack fuel slots memLower memUpper = some s) : ¬ FramesFit memLower memUpper s := by
  intro hfit
  have hcount := initStack_pagePtr hbelow h
  have hslots := hfit.slots
  omega

/--
**The frames never fit.**  The loop ends, and has pushed all pages of the machine from the last
one down to the first, but before them the one behind the last.
-/
theorem init_stack_overflows (slots : Nat → Nat) {memLower memUpper : UInt32}
    (hbelow : maxMem memLower memUpper < 0x400000) :
    (∃ fuel s, initStack fuel slots memLower memUpper = some s ∧
      s.npages = (maxMem memLower memUpper).toNat / 4 ∧
      s.pushed = (s.npages * pageSize) :: (List.range s.npages).reverse.map (· * pageSize)) ∧
    ¬ ∃ fuel s, initStack fuel slots memLower memUpper = some s ∧
      FramesFit memLower memUpper s := by
  refine ⟨?_, fun ⟨_, _, h, hfit⟩ => not_framesFit hbelow h hfit⟩
  have hends := initStack_eq hbelow (machinePages memLower memUpper + 2) slots
  rw [if_pos (Nat.lt_succ_self _)] at hends
  obtain ⟨hnpages, hpushed⟩ := initStack_pushed hbelow hends
  obtain ⟨hpages, -⟩ := machinePages_eq hbelow
  exact ⟨_, _, hends, by omega, hpushed⟩

/-- A machine with 640 KB and 31 MB. -/
theorem init_stack_overflows_32 :
    (∃ fuel s, initStack fuel (fun _ => 0) 640 31744 = some s ∧
      s.npages = (maxMem 640 31744).toNat / 4 ∧
      s.pushed = (s.npages * pageSize) :: (List.range s.npages).reverse.map (· * pageSize)) ∧
    ¬ ∃ fuel s, initStack fuel (fun _ => 0) 640 31744 = some s ∧ FramesFit 640 31744 s :=
  init_stack_overflows (fun _ => 0) (by decide)

/-- Its array has 7168 slots, and 7169 frames are pushed. -/
theorem init_stack_out_of_bounds :
    ∃ s, initStack 7170 (fun _ => 0) 640 31744 = some s ∧ s.npages = 7168 ∧ s.pagePtr = 7169 ∧
      ¬ FramesFit 640 31744 s := by
  have hbelow : maxMem 640 31744 < 0x400000 := by decide
  have hpages : machinePages 640 31744 = 7168 := by decide
  have hends := initStack_eq hbelow 7170 fun _ => 0
  rw [hpages, if_pos (by decide)] at hends
  obtain ⟨hnpages, -⟩ := initStack_pushed hbelow hends
  rw [hpages] at hnpages
  have hcount := initStack_pagePtr hbelow hends
  rw [hnpages] at hcount
  exact ⟨_, hends, hnpages, hcount, not_framesFit hbelow hends⟩

end OsThing.Paging
