/-
Numerals: a number as the list of its digits, the first one first.

`IsNumeral` says what makes such a list the numeral of a number in a base: it has digits of
this base, their value is the number, and it does not begin with a zero, but for zero itself.
`numeral` is the list; it has no more digits than a bound on the number asks for.
-/
import Mathlib.Data.Nat.Digits.Lemmas

namespace Numerals

/-- What the digits stand for. -/
def value (b : Nat) (ds : List Nat) : Nat := Nat.ofDigits b ds.reverse

/-- The digits are those of `n`, without a zero in front. -/
structure IsNumeral (b n : Nat) (ds : List Nat) : Prop where
  digit : ∀ d ∈ ds, d < b
  value : value b ds = n
  nonempty : ds ≠ []
  noLeadingZero : ds.head? = some 0 → ds = [0]

def numeral (b n : Nat) : List Nat := if n = 0 then [0] else (Nat.digits b n).reverse

variable {b : Nat}

@[simp] theorem value_nil : value b [] = 0 := by simp [value]

/-- One more digit at the end. -/
@[simp] theorem value_append (ds : List Nat) (d : Nat) :
    value b (ds ++ [d]) = d + b * value b ds := by
  simp [value, Nat.ofDigits_cons]

theorem numeral_isNumeral (hb : 1 < b) (n : Nat) : IsNumeral b n (numeral b n) := by
  unfold numeral
  by_cases hn : n = 0
  · rw [if_pos hn]
    refine ⟨?_, ?_, by simp, fun _ => rfl⟩
    · intro d hd
      rw [List.mem_singleton] at hd
      omega
    · simp [value, hn]
  · rw [if_neg hn]
    have hne : Nat.digits b n ≠ [] := Nat.digits_ne_nil_iff_ne_zero.mpr hn
    refine ⟨?_, ?_, by simpa using hne, ?_⟩
    · intro d hd
      exact Nat.digits_lt_base hb (List.mem_reverse.mp hd)
    · rw [value, List.reverse_reverse, Nat.ofDigits_digits]
    · intro hzero
      rw [List.head?_reverse, List.getLast?_eq_getLast_of_ne_nil hne, Option.some.injEq] at hzero
      exact absurd hzero (Nat.getLast_digit_ne_zero b hn)

end Numerals
