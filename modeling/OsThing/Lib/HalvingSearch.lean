/-
An allocator that hands out the halves of one block.

All it keeps is a mark at the start of each half that was handed out; a half of at most
`small` words is never looked at.  `firstFit` is the search as such allocators are
written, by recursion on the address and the length.  It goes down, into the right half
first, for as long as the request is less than half of a half, and `descend` says where
it ends up, from the marks alone.

The mark does not say how much was handed out.  So the search can enter a half that
somebody holds, and it can hand out a half of which somebody holds a part that lies
further in.  `ClearWay` is the absence of both, and it is exactly what keeps the new
half apart from the ones that are held: `descend_apart` and `clearWay_of_apart`.
-/
import OsThing.Lib.Halving
import Mathlib.Data.List.Pairwise
import Mathlib.Logic.Function.Basic

namespace Halving

open Block

/-! ### Where the search ends up -/

section Search

variable (w small : Nat) (taken : Nat → Prop)

/-- Nothing is looked for in a block of small halves, or whose halves are both taken. -/
def NoRoom (b : Block) : Prop := b.size / 2 ≤ small ∨ (taken (b.right w).start ∧ taken b.start)

variable {w small taken} in
theorem NoRoom.small_lt {b : Block} (h : ¬ NoRoom w small taken b) : small < b.size / 2 :=
  Nat.lt_of_not_le fun hle => h (Or.inl hle)

variable [DecidablePred taken]

instance (b : Block) : Decidable (NoRoom w small taken b) := inferInstanceAs (Decidable (_ ∨ _))

/-- The right half, or the left one if that is taken. -/
def freeOne (b : Block) : Block := if taken (b.right w).start then b.left else b.right w

/-- The half the search settles on. -/
def descend (b : Block) (size : Nat) : Option Block :=
  if _h : NoRoom w small taken b then none
  else if size < b.size / 2 / 2 ∧ ¬ NoRoom w small taken (b.right w) then descend (b.right w) size
  else if size < b.size / 2 / 2 ∧ ¬ NoRoom w small taken b.left then descend b.left size
  else some (freeOne w taken b)
termination_by b.size
decreasing_by
  all_goals
    have hs := NoRoom.small_lt _h
    simp only [right_size, left_size]
    omega

variable {w small taken} {b half : Block} {size : Nat}

/-- There is always something in a block that passes the first test, so the search never
comes back up with nothing. -/
theorem descend_eq_none : descend w small taken b size = none ↔ NoRoom w small taken b := by
  fun_induction descend w small taken b size with
  | case1 b h => simp [h]
  | case2 b h hc ih => simp [ih, hc.2, h]
  | case3 b h _ hc ih => simp [ih, hc.2, h]
  | case4 b h => simp [h]

variable (w taken) in
theorem freeOne_eq (b : Block) : freeOne w taken b = b.right w ∨ freeOne w taken b = b.left := by
  unfold freeOne
  split
  · exact Or.inr rfl
  · exact Or.inl rfl

theorem freeOne_size (b : Block) : (freeOne w taken b).size = b.size / 2 := by
  rcases freeOne_eq w taken b with h | h <;> rw [h] <;> rfl

theorem freeOne_proper (b : Block) : Proper w b (freeOne w taken b) := by
  rcases freeOne_eq w taken b with h | h <;> rw [h]
  · exact Or.inr (Within.refl _)
  · exact Or.inl (Within.refl _)

theorem freeOne_free (h : ¬ NoRoom w small taken b) : ¬ taken (freeOne w taken b).start := by
  unfold freeOne
  split
  · rename_i hr
    exact fun hl => h (Or.inr ⟨hr, hl⟩)
  · assumption

/-- The search returns a half of something inside the block, and its mark is not set. -/
theorem descend_spec (h : descend w small taken b size = some half) :
    Proper w b half ∧ small < half.size ∧ ¬ taken half.start := by
  fun_induction descend w small taken b size with
  | case1 b _ => cases h
  | case2 b _ _ ih =>
      obtain ⟨hin, hrest⟩ := ih h
      exact ⟨Or.inr hin.within, hrest⟩
  | case3 b _ _ _ ih =>
      obtain ⟨hin, hrest⟩ := ih h
      exact ⟨Or.inl hin.within, hrest⟩
  | case4 b hroom _ _ =>
      obtain rfl := Option.some.inj h
      refine ⟨freeOne_proper b, ?_, freeOne_free hroom⟩
      rw [freeOne_size]
      exact NoRoom.small_lt hroom

/-- The search sees nothing but the marks. -/
theorem descend_congr {taken' : Nat → Prop} [DecidablePred taken'] (h : ∀ a, taken a ↔ taken' a) :
    descend w small taken b size = descend w small taken' b size := by
  obtain rfl : taken = taken' := funext fun a => propext (h a)
  congr

/-- A request of so many bytes that a half of the block is enough for it gets enough: going
down needs it to be less than a quarter has words. -/
theorem descend_fits (hw : 0 < w) (h : descend w small taken b size = some half)
    (hsize : size ≤ w * (b.size / 2)) : size ≤ w * half.size := by
  fun_induction descend w small taken b size with
  | case1 b _ => cases h
  | case2 b _ hc ih =>
      refine ih h (Nat.le_trans hc.1.le ?_)
      exact Nat.le_mul_of_pos_left _ hw
  | case3 b _ _ hc ih =>
      refine ih h (Nat.le_trans hc.1.le ?_)
      exact Nat.le_mul_of_pos_left _ hw
  | case4 b _ _ _ =>
      obtain rfl := Option.some.inj h
      rw [freeOne_size]
      exact hsize

/-! ### The two ways the search goes wrong -/

/-- Nothing in `live` starts inside the block behind its start. -/
def NoneBehind (w : Nat) (live : List Block) (b : Block) : Prop :=
  ∀ x ∈ live, ¬ (b.start < x.start ∧ x.start < b.stop w)

variable (w small taken)

/-- On its way down from `b` the search enters no half that is in `live`, and the half it
stops at has nothing of `live` behind its start. -/
def ClearWay (live : List Block) (b : Block) (size : Nat) : Prop :=
  if _h : NoRoom w small taken b then True
  else if size < b.size / 2 / 2 ∧ ¬ NoRoom w small taken (b.right w) then
    b.right w ∉ live ∧ ClearWay live (b.right w) size
  else if size < b.size / 2 / 2 ∧ ¬ NoRoom w small taken b.left then
    b.left ∉ live ∧ ClearWay live b.left size
  else NoneBehind w live (freeOne w taken b)
termination_by b.size
decreasing_by
  all_goals
    have hs := NoRoom.small_lt _h
    simp only [right_size, left_size]
    omega

variable {w small taken} {live : List Block}

/-- Seen from a half of `b` that is not in `live`, whatever was inside `b` is inside that
half or apart from it. -/
private theorem split_at {x : Block} (hhalf : half = b.right w ∨ half = b.left) (hne : x ≠ half)
    (hx : Proper w b x ∨ Apart w b x) : Proper w half x ∨ Apart w half x := by
  have hin : Within w b half := by
    rcases hhalf with rfl | rfl
    · exact Within.right (Within.refl _)
    · exact Within.left (Within.refl _)
  rcases hx with (hl | hr) | hap
  · rcases hhalf with rfl | rfl
    · exact Or.inr (apart_of_opposite hl (Within.refl _)).symm
    · exact (hl.eq_or_proper.resolve_left hne) |> Or.inl
  · rcases hhalf with rfl | rfl
    · exact (hr.eq_or_proper.resolve_left hne) |> Or.inl
    · exact Or.inr (apart_of_opposite (Within.refl _) hr)
  · exact Or.inr (hap.of_within hin)

/-- A free half with nothing of `live` behind its start is apart from all of `live`. -/
private theorem freeOne_apart (hw : 0 < w) (hroom : ¬ NoRoom w small taken b)
    (hmark : ∀ x ∈ live, taken x.start) (hwide : ∀ x ∈ live, 0 < x.size)
    (hin : ∀ x ∈ live, Proper w b x ∨ Apart w b x)
    (hnone : NoneBehind w live (freeOne w taken b)) :
    ∀ x ∈ live, Apart w (freeOne w taken b) x := by
  intro x hx
  have hstart : x.start ≠ (freeOne w taken b).start := by
    intro he
    exact freeOne_free hroom (he ▸ hmark x hx)
  have hne : x ≠ freeOne w taken b := fun he => hstart (he ▸ rfl)
  rcases split_at (freeOne_eq w taken b) hne (hin x hx) with hp | hap
  · -- strictly inside, so it starts behind the first word, which is excluded
    exfalso
    have hb := hp.within.bounds
    have hpos := Nat.mul_pos hw (hwide x hx)
    refine hnone x hx ⟨?_, ?_⟩
    · omega
    · simp only [stop] at hb ⊢
      omega
  · exact hap

/-- **A clear way is enough.** -/
theorem descend_apart (hw : 0 < w) (hmark : ∀ x ∈ live, taken x.start)
    (hwide : ∀ x ∈ live, 0 < x.size) (hin : ∀ x ∈ live, Proper w b x ∨ Apart w b x)
    (hclear : ClearWay w small taken live b size)
    (h : descend w small taken b size = some half) : ∀ x ∈ live, Apart w half x := by
  fun_induction descend w small taken b size with
  | case1 b _ => cases h
  | case2 b hroom hc ih =>
      rw [ClearWay, dif_neg hroom, if_pos hc] at hclear
      refine ih (fun x hx => ?_) hclear.2 h
      exact split_at (Or.inl rfl) (fun he => hclear.1 (he ▸ hx)) (hin x hx)
  | case3 b hroom hc hc' ih =>
      rw [ClearWay, dif_neg hroom, if_neg hc, if_pos hc'] at hclear
      refine ih (fun x hx => ?_) hclear.2 h
      exact split_at (Or.inr rfl) (fun he => hclear.1 (he ▸ hx)) (hin x hx)
  | case4 b hroom hc hc' =>
      rw [ClearWay, dif_neg hroom, if_neg hc, if_neg hc'] at hclear
      obtain rfl := Option.some.inj h
      exact freeOne_apart hw hroom hmark hwide hin hclear

/-- **A clear way is needed.** -/
theorem clearWay_of_apart (hw : 0 < w) (h : descend w small taken b size = some half)
    (hap : ∀ x ∈ live, Apart w half x) : ClearWay w small taken live b size := by
  fun_induction descend w small taken b size with
  | case1 b hroom => cases h
  | case2 b hroom hc ih =>
      rw [ClearWay, dif_neg hroom, if_pos hc]
      obtain ⟨hp, hs, -⟩ := descend_spec h
      exact ⟨fun hmem => not_apart_of_within hw (Nat.zero_lt_of_lt hs) hp.within (hap _ hmem).symm,
        ih h⟩
  | case3 b hroom hc hc' ih =>
      rw [ClearWay, dif_neg hroom, if_neg hc, if_pos hc']
      obtain ⟨hp, hs, -⟩ := descend_spec h
      exact ⟨fun hmem => not_apart_of_within hw (Nat.zero_lt_of_lt hs) hp.within (hap _ hmem).symm,
        ih h⟩
  | case4 b hroom hc hc' =>
      rw [ClearWay, dif_neg hroom, if_neg hc, if_neg hc']
      obtain rfl := Option.some.inj h
      rintro x hx ⟨hlo, hhi⟩
      rcases hap x hx with h' | h'
      · omega
      · simp only [stop] at h'
        omega

/-! ### The halves that are held -/

variable (w small taken) in
/-- The halves in `live` are apart and marked.  Each is a part of the block, or lies before it
(when the block was moved since). -/
structure Kept (b : Block) (live : List Block) : Prop where
  inside : ∀ x ∈ live, Proper w b x ∨ x.stop w ≤ b.start
  wide : ∀ x ∈ live, small < x.size
  marked : ∀ x ∈ live, taken x.start
  apart : live.Pairwise (Apart w)

omit [DecidablePred taken]

theorem Kept.nil (b : Block) : Kept w small taken b [] := by
  refine ⟨?_, ?_, ?_, List.Pairwise.nil⟩ <;> intro x hx <;> cases hx

namespace Kept

variable (h : Kept w small taken b live)

include h

theorem apart_of_ne {x y : Block} (hx : x ∈ live) (hy : y ∈ live) (hne : x ≠ y) : Apart w x y := by
  have : Std.Symm (Apart w) := ⟨fun _ _ => Apart.symm⟩
  exact h.apart.forall hx hy hne

theorem inside_or_apart : ∀ x ∈ live, Proper w b x ∨ Apart w b x :=
  fun x hx => (h.inside x hx).imp_right Or.inr

/-- Of the halves, some are given up; the marks of the others are still set. -/
theorem sublist {taken' : Nat → Prop} {live' : List Block} (hsub : live'.Sublist live)
    (hmark : ∀ x ∈ live', taken' x.start) : Kept w small taken' b live' :=
  ⟨fun x hx => h.inside x (hsub.subset hx), fun x hx => h.wide x (hsub.subset hx), hmark,
    h.apart.sublist hsub⟩

/-- The block is another one now, which has everything in it that the old one had. -/
theorem move {b' : Block}
    (hb : ∀ x ∈ live, Proper w b x ∨ x.stop w ≤ b.start → Proper w b' x ∨ x.stop w ≤ b'.start) :
    Kept w small taken b' live :=
  { h with inside := fun x hx => hb x hx (h.inside x hx) }

/-- What the search returns is taken as well. -/
theorem cons [DecidablePred taken] {taken' : Nat → Prop}
    (hsearch : descend w small taken b size = some half) (hap : ∀ x ∈ live, Apart w half x)
    (hnew : taken' half.start) (hmark : ∀ a, taken a → taken' a) :
    Kept w small taken' b (half :: live) := by
  obtain ⟨hin, hwide, -⟩ := descend_spec hsearch
  refine ⟨?_, ?_, ?_, List.pairwise_cons.mpr ⟨hap, h.apart⟩⟩
  · exact List.forall_mem_cons.mpr ⟨Or.inl hin, h.inside⟩
  · exact List.forall_mem_cons.mpr ⟨hwide, h.wide⟩
  · exact List.forall_mem_cons.mpr ⟨hnew, fun x hx => hmark _ (h.marked x hx)⟩

end Kept

end Search

/-- Giving something up by the address it is known by. -/
theorem exists_of_given_up {α : Type*} {l : List α} {ptr : α → Nat} {p : Nat}
    (h : ∃ g ∈ l, ptr g = p) :
    ∃ g l₁ l₂, l = l₁ ++ g :: l₂ ∧ ptr g = p ∧ l.eraseP (ptr · = p) = l₁ ++ l₂ := by
  obtain ⟨g₀, hg₀, hptr₀⟩ := h
  obtain ⟨g, l₁, l₂, -, hg, hl, her⟩ :=
    List.exists_of_eraseP (p := fun g => decide (ptr g = p)) hg₀ (decide_eq_true hptr₀)
  exact ⟨g, l₁, l₂, hl, of_decide_eq_true hg, her⟩

/-! ### The search in a memory of words -/

section Memory

variable (w small header magic : Nat)

/--
The search in a memory where a half is taken when its first word is `magic`: the address
behind the first `header` bytes of the half that is found, or 0, and the memory.
-/
def firstFit (mem : Nat → Nat) (node nodeSize size : Nat) : Nat × (Nat → Nat) :=
  let s := nodeSize / 2
  let temp := node + w * s
  if s ≤ small ∨ (mem temp = magic ∧ mem node = magic) then (0, mem)
  else
    let below :=
      if size < s / 2 then
        match firstFit mem temp s size with
        | (0, mem') => firstFit mem' node s size
        | found => found
      else (0, mem)
    match below with
    | (0, mem') =>
        if mem' temp ≠ magic then (temp + header, Function.update mem' temp magic)
        else if mem' node ≠ magic then (node + header, Function.update mem' node magic)
        else (0, mem')
    | found => found
termination_by nodeSize
decreasing_by all_goals omega

/-- What a successful search returns, and what it does to the memory. -/
def marked (mem : Nat → Nat) (half : Block) : Nat × (Nat → Nat) :=
  (half.start + header, Function.update mem half.start magic)

variable {w small magic}

private theorem markHere_eq {mem : Nat → Nat} {b : Block}
    (h : ¬ NoRoom w small (fun a => mem a = magic) b) :
    (if mem (b.start + w * (b.size / 2)) ≠ magic then
        (b.start + w * (b.size / 2) + header,
          Function.update mem (b.start + w * (b.size / 2)) magic)
      else if mem b.start ≠ magic then (b.start + header, Function.update mem b.start magic)
      else (0, mem)) = marked header magic mem (freeOne w (fun a => mem a = magic) b) := by
  by_cases hr : mem (b.start + w * (b.size / 2)) = magic
  · have hl : mem b.start ≠ magic := fun hl => h (Or.inr ⟨hr, hl⟩)
    simp [hr, hl, freeOne, marked]
  · simp [hr, freeOne, marked]

variable {header}

/-- **The search marks the half it settles on, and nothing else.** -/
theorem firstFit_eq (hheader : header ≠ 0) (mem : Nat → Nat) (size : Nat) (b : Block) :
    firstFit w small header magic mem b.start b.size size =
      match descend w small (fun a => mem a = magic) b size with
      | none => (0, mem)
      | some half => marked header magic mem half := by
  induction hn : b.size using Nat.strong_induction_on generalizing b with
  | _ n ih =>
    subst hn
    rw [firstFit, descend]
    by_cases hroom : NoRoom w small (fun a => mem a = magic) b
    · have hguard : b.size / 2 ≤ small ∨
          (mem (b.start + w * (b.size / 2)) = magic ∧ mem b.start = magic) := hroom
      simp only [hguard, hroom, if_true, dif_pos]
    · have hguard : ¬ (b.size / 2 ≤ small ∨
          (mem (b.start + w * (b.size / 2)) = magic ∧ mem b.start = magic)) := hroom
      have hlt : b.size / 2 < b.size := by
        have := NoRoom.small_lt hroom
        omega
      have hright := ih _ hlt (b.right w) rfl
      have hleft := ih _ hlt b.left rfl
      have hhere := markHere_eq header hroom
      simp only [right_start, left_start] at hright hleft
      simp only [hguard, hroom, if_false, dif_neg, not_false_iff]
      by_cases hs : size < b.size / 2 / 2
      · -- a small request: down the right half, down the left one, or stop here
        simp only [hs, if_true, true_and]
        by_cases hr : NoRoom w small (fun a => mem a = magic) (b.right w)
        · rw [descend_eq_none.mpr hr] at hright
          by_cases hl : NoRoom w small (fun a => mem a = magic) b.left
          · rw [descend_eq_none.mpr hl] at hleft
            simpa [hright, hleft, hr, hl] using hhere
          · obtain ⟨half, hhalf⟩ := Option.ne_none_iff_exists'.mp (mt descend_eq_none.mp hl)
            rw [hhalf] at hleft
            simp [hright, hleft, hr, hl, hhalf, marked, hheader]
        · obtain ⟨half, hhalf⟩ := Option.ne_none_iff_exists'.mp (mt descend_eq_none.mp hr)
          rw [hhalf] at hright
          simp [hright, hr, hhalf, marked, hheader]
      · simpa [hs] using hhere

/-! ### Memories with the same marks -/

variable (magic) in
/-- A half is taken in the one memory exactly if it is in the other. -/
def SameMarks (mem mem' : Nat → Nat) : Prop := ∀ a, mem a = magic ↔ mem' a = magic

theorem SameMarks.update {mem mem' : Nat → Nat} (h : SameMarks magic mem mem') (a v : Nat) :
    SameMarks magic (Function.update mem a v) (Function.update mem' a v) := by
  intro c
  rw [Function.update_apply, Function.update_apply]
  split
  · rfl
  · exact h c

/-- Where there was no mark, another word that is no mark makes no difference. -/
theorem SameMarks.of_update {mem : Nat → Nat} {a v : Nat} (ha : mem a ≠ magic) (hv : v ≠ magic) :
    SameMarks magic (Function.update mem a v) mem := by
  intro c
  rw [Function.update_apply]
  split
  · rename_i heq
    subst heq
    exact iff_of_false hv ha
  · rfl

/-- **In memories with the same marks the search returns the same**, and leaves the same marks. -/
theorem SameMarks.firstFit {mem mem' : Nat → Nat} (h : SameMarks magic mem mem')
    (hheader : header ≠ 0) (node nodeSize size : Nat) :
    (firstFit w small header magic mem node nodeSize size).1 =
        (firstFit w small header magic mem' node nodeSize size).1 ∧
      SameMarks magic (firstFit w small header magic mem node nodeSize size).2
        (firstFit w small header magic mem' node nodeSize size).2 := by
  have hfit := @firstFit_eq w small header magic hheader mem size ⟨node, nodeSize⟩
  have hfit' := @firstFit_eq w small header magic hheader mem' size ⟨node, nodeSize⟩
  rw [← descend_congr h] at hfit'
  dsimp only at hfit hfit'
  rw [hfit, hfit']
  split
  · exact ⟨rfl, h⟩
  · rename_i half _
    exact ⟨rfl, h.update half.start magic⟩

end Memory

end Halving
