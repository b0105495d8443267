/-
A counter that leaks: it rises and falls with what is added to it, but not below zero.

What it holds says how bad the worst stretch of the recent past was: `le_level_iff`.  A long
quiet time before that stretch is of no use.
-/
import Mathlib.Algebra.BigOperators.Group.List.Basic
import Mathlib.Algebra.Order.Ring.Int
import Mathlib.Data.List.Infix

namespace Leaky

/-- The counter after the changes. -/
def level (n : Nat) (changes : List Int) : Nat :=
  changes.foldl (fun (n : Nat) (w : Int) => ((n : Int) + w).toNat) n

theorem level_append (n : Nat) (changes more : List Int) :
    level n (changes ++ more) = level (level n changes) more := List.foldl_append ..

theorem level_concat (n : Nat) (changes : List Int) (w : Int) :
    level n (changes ++ [w]) = ((level n changes : Int) + w).toNat :=
  level_append ..

/-- **The counter is as high as some last stretch of the changes makes it.** -/
theorem le_level_iff (changes : List Int) :
    ∀ bound : Int, bound ≤ level 0 changes ↔ ∃ s, s <:+ changes ∧ bound ≤ s.sum := by
  induction changes using List.reverseRecOn with
  | nil =>
      intro bound
      constructor
      · exact fun h => ⟨[], List.nil_suffix, h⟩
      · rintro ⟨s, hs, h⟩
        obtain rfl := List.suffix_nil.mp hs
        exact h
  | append_singleton changes w ih =>
      intro bound
      rw [level_concat]
      constructor
      · intro h
        rcases le_or_gt bound 0 with hle | hpos
        · exact ⟨[], List.nil_suffix, hle⟩
        · obtain ⟨s, hs, hsum⟩ := (ih (bound - w)).mp (by omega)
          refine ⟨s ++ [w], List.suffix_concat_iff.mpr (Or.inr ⟨s, rfl, hs⟩), ?_⟩
          rw [List.sum_append, List.sum_singleton]
          omega
      · rintro ⟨s, hs, hsum⟩
        rcases List.suffix_concat_iff.mp hs with rfl | ⟨t, rfl, ht⟩
        · rw [List.sum_nil] at hsum
          omega
        · rw [List.sum_append, List.sum_singleton] at hsum
          have hlevel := (ih (bound - w)).mpr ⟨t, ht, by omega⟩
          omega

end Leaky
