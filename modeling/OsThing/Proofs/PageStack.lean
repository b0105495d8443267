/-
When the page stack is a pool of frames with two ends.

As long as `stack_bottom` does not pass `page_ptr`, the frames between them are the free ones,
from the bottom up: `PageStack.free`.  `pop_page` does not let them pass, and `push_page` only
moves them apart.  But `pop_bottom_page` looks at `npages` instead.  If no frame is free it
takes whatever the next slot holds, and from then on the two ends are in the wrong order.

A frame that is pushed twice is returned twice, too, and nothing in the stack can tell.
-/
import OsThing.Lib.Runs
import OsThing.Mem.PageStack
import Mathlib.Data.List.Nodup

namespace OsThing.Paging

open Runs

namespace PageStack

variable {s s' : PageStack} {frame : Nat}

theorem free_pushPage (h : s.stackBottom ≤ s.pagePtr) (address : Nat) :
    (s.pushPage address).free = s.free ++ [pageBase address] := by
  have hcount : s.pagePtr + 1 - s.stackBottom = s.pagePtr - s.stackBottom + 1 := by omega
  have hlast : s.stackBottom + (s.pagePtr - s.stackBottom) = s.pagePtr := by omega
  unfold free pushPage
  dsimp only
  rw [hcount, List.range'_1_concat, hlast, List.map_append, List.map_singleton,
    Function.update_self]
  refine congrArg (· ++ _) (List.map_congr_left fun i hi => Function.update_of_ne ?_ _ _)
  have hlt := (List.mem_range'_1.mp hi).2
  omega

theorem free_popPage (h : s.popPage = some (frame, s')) :
    s.free = s'.free ++ [frame] ∧ s'.stackBottom ≤ s'.pagePtr ∧ s'.pagePtr ≤ s.pagePtr ∧
      s'.npages = s.npages := by
  unfold popPage at h
  obtain ⟨hlt, h⟩ := Option.ite_none_right_eq_some.mp h
  obtain ⟨rfl, rfl⟩ := Prod.mk.inj (Option.some.inj h)
  have hcount : s.pagePtr - s.stackBottom = s.pagePtr - 1 - s.stackBottom + 1 := by omega
  have hlast : s.stackBottom + (s.pagePtr - 1 - s.stackBottom) = s.pagePtr - 1 := by omega
  refine ⟨?_, Nat.le_pred_of_lt hlt, Nat.pred_le _, rfl⟩
  unfold free
  rw [hcount, List.range'_1_concat, hlast, List.map_append, List.map_singleton]

theorem free_popBottomPage (hlt : s.stackBottom < s.pagePtr)
    (h : s.popBottomPage = some (frame, s')) :
    s.free = frame :: s'.free ∧ s'.stackBottom ≤ s'.pagePtr ∧ s'.pagePtr = s.pagePtr ∧
      s'.npages = s.npages := by
  unfold popBottomPage at h
  obtain ⟨-, h⟩ := Option.ite_none_right_eq_some.mp h
  obtain ⟨rfl, rfl⟩ := Prod.mk.inj (Option.some.inj h)
  have hcount : s.pagePtr - s.stackBottom = s.pagePtr - (s.stackBottom + 1) + 1 := by omega
  refine ⟨?_, hlt, rfl, rfl⟩
  unfold free
  rw [hcount, List.range'_succ, List.map_cons]

theorem free_eq_nil : s.free = [] ↔ s.pagePtr ≤ s.stackBottom := by
  unfold free
  rw [List.map_eq_nil_iff, List.range'_eq_nil_iff]
  omega

end PageStack

/-! ### What the frames have been through -/

/-- The frame was pushed, and has not been returned since it was pushed last. -/
def Outstanding (frame : Nat) : List PoolEvent → Prop
  | [] => False
  | .pushed f :: rest => f = frame ∨ Outstanding frame rest
  | .returned f :: rest => f ≠ frame ∧ Outstanding frame rest

/-- A pop at either end returns a frame of the pool, and reports exactly if there is none. -/
def Sound (p : Pool) (popped : Option (Nat × PageStack)) : Prop :=
  (∀ frame stack, popped = some (frame, stack) → Outstanding frame p.history) ∧
    (popped = none ↔ ¬ ∃ frame, Outstanding frame p.history)

def PopsSound (p : Pool) : PoolOp → Prop
  | .pushPage _ => True
  | .popPage => Sound p p.stack.popPage
  | .popBottomPage => Sound p p.stack.popBottomPage

/-- What is pushed stays within the array, and is not in the pool already. -/
def PushesFresh (p : Pool) : PoolOp → Prop
  | .pushPage address =>
      p.stack.pagePtr < p.stack.npages ∧ ¬ Outstanding (pageBase address) p.history
  | .popPage => True
  | .popBottomPage => True

/-- The bottom is not popped while the stack is empty, unless it has come to its end. -/
def BottomGuarded (p : Pool) : PoolOp → Prop
  | .pushPage _ => True
  | .popPage => True
  | .popBottomPage => p.stack.stackBottom = p.stack.pagePtr → p.stack.npages ≤ p.stack.stackBottom

/-- The free frames are those of the pool, each of them once. -/
structure PoolInv (p : Pool) : Prop where
  ends : p.stack.stackBottom ≤ p.stack.pagePtr
  inside : p.stack.pagePtr ≤ p.stack.npages
  nodup : p.stack.free.Nodup
  mem : ∀ frame, Outstanding frame p.history ↔ frame ∈ p.stack.free

namespace PoolInv

variable {p : Pool}

theorem new (slots : Nat → Nat) (npages : Nat) : PoolInv ⟨.new slots npages, []⟩ where
  ends := Nat.le_refl 0
  inside := Nat.zero_le npages
  nodup := List.nodup_nil
  mem := fun _ => iff_of_false id List.not_mem_nil

theorem pushPage (h : PoolInv p) {address : Nat} (hinside : p.stack.pagePtr < p.stack.npages)
    (hfresh : ¬ Outstanding (pageBase address) p.history) :
    PoolInv ⟨p.stack.pushPage address, .pushed (pageBase address) :: p.history⟩ := by
  have hfree := PageStack.free_pushPage h.ends address
  refine ⟨Nat.le_succ_of_le h.ends, hinside, ?_, fun frame => ?_⟩
  · rw [hfree]
    refine List.nodup_append.mpr ⟨h.nodup, List.nodup_singleton _, fun a ha b hb heq => ?_⟩
    obtain rfl := List.mem_singleton.mp hb
    exact hfresh ((h.mem _).mpr (heq ▸ ha))
  · rw [hfree, List.mem_append, List.mem_singleton, ← h.mem frame]
    show pageBase address = frame ∨ _ ↔ _
    rw [or_comm, eq_comm]

/-- What a pop leaves, at whichever end. -/
theorem popped (h : PoolInv p) {frame : Nat} {stack : PageStack}
    (hfree : p.stack.free.Perm (frame :: stack.free)) (hends : stack.stackBottom ≤ stack.pagePtr)
    (hinside : stack.pagePtr ≤ stack.npages) :
    PoolInv ⟨stack, .returned frame :: p.history⟩ := by
  obtain ⟨hnot, hnodup⟩ := List.nodup_cons.mp (hfree.nodup_iff.mp h.nodup)
  refine ⟨hends, hinside, hnodup, fun f => ?_⟩
  show frame ≠ f ∧ Outstanding f p.history ↔ f ∈ stack.free
  rw [h.mem f, hfree.mem_iff, List.mem_cons]
  constructor
  · rintro ⟨hne, rfl | hf⟩
    · exact absurd rfl hne
    · exact hf
  · intro hf
    exact ⟨fun heq => hnot (heq ▸ hf), Or.inr hf⟩

theorem popPage (h : PoolInv p) {frame : Nat} {stack : PageStack}
    (hpop : p.stack.popPage = some (frame, stack)) :
    PoolInv ⟨stack, .returned frame :: p.history⟩ ∧ Outstanding frame p.history := by
  obtain ⟨hfree, hends, hle, hnpages⟩ := PageStack.free_popPage hpop
  refine ⟨h.popped (hfree ▸ List.perm_append_singleton _ _) hends ?_, (h.mem _).mpr ?_⟩
  · rw [hnpages]
    exact Nat.le_trans hle h.inside
  · rw [hfree]
    exact List.mem_append_right _ (List.mem_singleton_self frame)

theorem popBottomPage (h : PoolInv p) {frame : Nat} {stack : PageStack}
    (hlt : p.stack.stackBottom < p.stack.pagePtr)
    (hpop : p.stack.popBottomPage = some (frame, stack)) :
    PoolInv ⟨stack, .returned frame :: p.history⟩ ∧ Outstanding frame p.history := by
  obtain ⟨hfree, hends, hsame, hnpages⟩ := PageStack.free_popBottomPage hlt hpop
  refine ⟨h.popped (hfree ▸ List.Perm.refl _) hends ?_, (h.mem _).mpr ?_⟩
  · rw [hnpages, hsame]
    exact h.inside
  · rw [hfree]
    exact List.mem_cons_self

theorem exhausted (h : PoolInv p) :
    (¬ ∃ frame, Outstanding frame p.history) ↔ p.stack.pagePtr ≤ p.stack.stackBottom := by
  rw [← PageStack.free_eq_nil, List.eq_nil_iff_forall_not_mem, not_exists]
  exact forall_congr' fun frame => not_congr (h.mem frame)

theorem sound_popPage (h : PoolInv p) : Sound p p.stack.popPage := by
  refine ⟨fun frame stack hpop => (h.popPage hpop).2, ?_⟩
  rw [h.exhausted]
  unfold PageStack.popPage
  rw [ite_eq_right_iff]
  simp

/-- **The bottom is popped soundly exactly if the two ends are looked at.** -/
theorem sound_popBottomPage_iff (h : PoolInv p) :
    Sound p p.stack.popBottomPage ↔ BottomGuarded p .popBottomPage := by
  have hends := h.ends
  have hinside := h.inside
  have hnone : p.stack.popBottomPage = none ↔ p.stack.npages ≤ p.stack.stackBottom := by
    unfold PageStack.popBottomPage
    rw [ite_eq_right_iff]
    simp
  unfold Sound BottomGuarded
  rw [hnone, h.exhausted]
  refine ⟨fun hsound heq => hsound.2.mpr (Nat.le_of_eq heq.symm), fun hguard => ⟨?_, ?_⟩⟩
  · intro frame stack hpop
    refine (h.popBottomPage ?_ hpop).2
    by_contra hle
    have hend := hnone.mpr (hguard (by omega))
    rw [hend] at hpop
    cases hpop
  · exact ⟨fun hle => by omega, fun hle => hguard (by omega)⟩

end PoolInv

/-! ### A run -/

theorem poolStep_inv (p : Pool) (op : PoolOp) (p' : Pool) (h : PoolInv p)
    (hstep : poolStep p op = some p') (hgood : PushesFresh p op ∧ BottomGuarded p op) :
    PoolInv p' := by
  cases op with
  | pushPage address =>
      obtain rfl := Option.some.inj hstep
      exact h.pushPage hgood.1.1 hgood.1.2
  | popPage =>
      obtain ⟨⟨frame, stack⟩, hpop, rfl⟩ := Option.map_eq_some_iff.mp hstep
      exact (h.popPage hpop).1
  | popBottomPage =>
      obtain rfl := Option.some.inj hstep
      rcases hpop : p.stack.popBottomPage with _ | ⟨frame, stack⟩
      · exact h
      · refine (h.popBottomPage ?_ hpop).1
        by_contra hle
        have hends := h.ends
        have hend : p.stack.npages ≤ p.stack.stackBottom := hgood.2 (by omega)
        unfold PageStack.popBottomPage at hpop
        rw [if_neg (Nat.not_lt_of_le hend)] at hpop
        cases hpop

/--
**The page stack is a sound pool exactly as long as nobody pops the bottom of an empty stack.**
For every sequence of calls that pushes within the array, and no frame that is in the pool.
-/
theorem page_stack_sound_iff (slots : Nat → Nat) (npages : Nat) (ops : List PoolOp)
    (hfresh : EveryTry poolStep PushesFresh ⟨.new slots npages, []⟩ ops) :
    EveryTry poolStep PopsSound ⟨.new slots npages, []⟩ ops ↔
      EveryTry poolStep BottomGuarded ⟨.new slots npages, []⟩ ops := by
  have hexact : ∀ p op, PoolInv p → (PushesFresh p op ∧ PopsSound p op ↔
      PushesFresh p op ∧ BottomGuarded p op) := by
    intro p op h
    refine and_congr_right fun _ => ?_
    cases op with
    | pushPage address => exact Iff.rfl
    | popPage => exact iff_of_true h.sound_popPage trivial
    | popBottomPage => exact h.sound_popBottomPage_iff
  have hiff := @everyTry_iff _ _ _ _ _ _ poolStep_inv hexact ops _ (PoolInv.new slots npages)
  rw [everyTry_and, everyTry_and] at hiff
  exact (and_iff_right hfresh).symm.trans (hiff.trans (and_iff_right hfresh))

theorem page_stack_sound_iff_one :
    EveryTry poolStep PopsSound ⟨.new (fun _ => 0) 1, []⟩ [.pushPage 0x1000, .popBottomPage] ↔
      EveryTry poolStep BottomGuarded ⟨.new (fun _ => 0) 1, []⟩ [.pushPage 0x1000, .popBottomPage] :=
  page_stack_sound_iff (fun _ => 0) 1 _ ⟨⟨Nat.zero_lt_one, id⟩, fun _ _ => ⟨trivial, fun _ _ => trivial⟩⟩

/-- **A frame is returned twice**: first from the top, and then from the bottom. -/
theorem page_stack_unsound :
    EveryTry poolStep PushesFresh ⟨.new (fun _ => 0) 4, []⟩
        [.pushPage 0x1000, .popPage, .popBottomPage] ∧
      ¬ EveryTry poolStep PopsSound ⟨.new (fun _ => 0) 4, []⟩
        [.pushPage 0x1000, .popPage, .popBottomPage] := by
  refine ⟨⟨⟨by decide, id⟩, fun _ _ => ⟨trivial, fun _ _ => ⟨trivial, fun _ _ => trivial⟩⟩⟩,
    fun h => ?_⟩
  have hbottom := ((h.2 _ rfl).2 _ rfl).1
  exact (hbottom.1 0x1000 _ rfl).1 rfl

end OsThing.Paging
