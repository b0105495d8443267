/-
What `memmove` leaves in memory.

Every byte of the source but the first is set to zero before it is copied.  So behind the
first byte of the destination there are zeros only, and from the second byte of the source to
the one behind it as well; the first byte is copied, and stays unless it lies there itself.
This is what every address holds afterwards, for any offset between the ranges, and the exact
condition is read off it: the call moves what it is asked to move just if nearly everything
was zero before.
-/
import OsThing.Kern.Strings
import Mathlib.Tactic.Common

namespace OsThing.Strings

open Ram

/-- The bytes of the source are in the destination, and nothing outside of the two ranges has
changed. -/
structure Moves (dest src count : UInt32) (m m' : Memory) : Prop where
  moved : ∀ i < count.toNat, m' (dest + UInt32.ofNat i) = m (src + UInt32.ofNat i)
  frame : ∀ a, ¬ (⟨dest, count.toNat⟩ : Span).Covers a → ¬ (⟨src, count.toNat⟩ : Span).Covers a →
    m' a = m a

/-- What has to be zero before: the source behind its first byte, and the byte behind the
source, or the first one, if the destination starts in the `count` bytes behind it. -/
def NearlyZero (dest src count : UInt32) (m : Memory) : Prop :=
  (∀ i < count.toNat, 0 < i → m (src + UInt32.ofNat i) = 0) ∧
    if (⟨src + 1, count.toNat⟩ : Span).Covers dest then m src = 0 else m (src + count) = 0

/-! ### The loop -/

/-- If the next byte of the source is zero, so are all that are stored. -/
theorem memmoveLoop_zero : ∀ (n : Nat) (dest src : UInt32) (m : Memory) (a : UInt32), m src = 0 →
    memmoveLoop dest src n m a =
      if (⟨dest, n⟩ : Span).Covers a ∨ (⟨src + 1, n⟩ : Span).Covers a then 0 else m a := by
  intro n
  induction n with
  | zero =>
      intro dest src m a _
      simp [memmoveLoop, Span.Covers]
  | succ n ih =>
      intro dest src m a hzero
      rw [memmoveLoop, ih _ _ _ _ (Function.update_self _ _ _)]
      simp only [covers_cons]
      by_cases hrest : (⟨dest + 1, n⟩ : Span).Covers a ∨ (⟨src + 1 + 1, n⟩ : Span).Covers a
      · rw [if_pos hrest, if_pos (by grind)]
      · rw [if_neg hrest]
        by_cases hnext : a = src + 1
        · rw [hnext, Function.update_self, if_pos (by simp)]
        · rw [Function.update_of_ne hnext]
          by_cases hhere : a = dest
          · rw [hhere, Function.update_self, hzero, if_pos (by simp)]
          · rw [Function.update_of_ne hhere, if_neg (by grind)]

/-- **What every address holds after a call.** -/
theorem memmoveLoop_apply (n : Nat) (dest src : UInt32) (m : Memory) (a : UInt32) :
    memmoveLoop dest src (n + 1) m a =
      if (⟨dest + 1, n⟩ : Span).Covers a ∨ (⟨src + 1, n + 1⟩ : Span).Covers a then 0
      else if a = dest then m src
      else m a := by
  rw [memmoveLoop, memmoveLoop_zero _ _ _ _ _ (Function.update_self _ _ _)]
  simp only [@covers_cons (src + 1)]
  by_cases hrest : (⟨dest + 1, n⟩ : Span).Covers a ∨ (⟨src + 1 + 1, n⟩ : Span).Covers a
  · rw [if_pos hrest, if_pos (by grind)]
  · rw [if_neg hrest]
    by_cases hnext : a = src + 1
    · rw [hnext, Function.update_self, if_pos (by simp)]
    · rw [Function.update_of_ne hnext, if_neg (by grind)]
      by_cases hhere : a = dest
      · rw [hhere, Function.update_self, if_pos rfl]
      · rw [Function.update_of_ne hhere, if_neg hhere]

/-! ### The two ranges -/

section Ranges

variable {dest src : UInt32} {n : Nat}

theorem add_succ (a : UInt32) (i : Nat) : a + UInt32.ofNat (i + 1) = a + 1 + UInt32.ofNat i := by
  rw [UInt32.ofNat_add]
  grind

/-- The first byte of a range is not in the rest of it. -/
theorem not_covers_first (hn : n + 1 < 2 ^ 32) : ¬ (⟨dest + 1, n⟩ : Span).Covers dest := by
  have hstep := toNat_sub_add dest dest (show 1 < 2 ^ 32 by decide)
  rw [show UInt32.ofNat 1 = 1 from rfl, show dest - dest = 0 by grind] at hstep
  intro (h : (dest - (dest + 1)).toNat < n)
  rw [hstep] at h
  simp at h
  omega

/-- The byte behind the source is in the destination just if the destination starts behind the
first byte of the source, and not behind that byte. -/
theorem covers_behind (hn : n + 1 < 2 ^ 32) :
    (⟨dest, n + 1⟩ : Span).Covers (src + UInt32.ofNat (n + 1)) ↔
      (⟨src + 1, n + 1⟩ : Span).Covers dest := by
  have hone := toNat_sub_add src dest (show 1 < 2 ^ 32 by decide)
  rw [show UInt32.ofNat 1 = 1 from rfl] at hone
  have hdist : (src + UInt32.ofNat (n + 1) - dest).toNat =
      (n + 1 + (2 ^ 32 - (dest - src).toNat)) % 2 ^ 32 := by
    rw [show src + UInt32.ofNat (n + 1) - dest = UInt32.ofNat (n + 1) - (dest - src) by grind,
      UInt32.toNat_sub, UInt32.toNat_ofNat_of_lt' hn, Nat.add_comm]
  show (src + UInt32.ofNat (n + 1) - dest).toNat < n + 1 ↔ (dest - (src + 1)).toNat < n + 1
  rw [hone, hdist]
  have hlt := (dest - src).toNat_lt
  omega

/-- It is the only byte that is in the range from the second byte on, and not in the source. -/
theorem eq_behind (hn : n + 1 < 2 ^ 32) {a : UInt32} (hnot : ¬ (⟨src, n + 1⟩ : Span).Covers a) :
    (⟨src + 1, n + 1⟩ : Span).Covers a ↔ a = src + UInt32.ofNat (n + 1) := by
  constructor
  · intro h
    have hmore : (a - src).toNat < n + 1 + 1 := (covers_cons (n := n + 1)).mpr (Or.inr h)
    have hless : ¬ (a - src).toNat < n + 1 := hnot
    have hdist : a - src = UInt32.ofNat (n + 1) := by
      rw [← UInt32.toNat_inj, UInt32.toNat_ofNat_of_lt' hn]
      omega
    grind
  · rintro rfl
    rw [add_succ]
    exact covers_ofNat (src + 1) (Nat.lt_succ_self n) (by omega)

theorem not_covers_behind (hn : n + 1 < 2 ^ 32) :
    ¬ (⟨src, n + 1⟩ : Span).Covers (src + UInt32.ofNat (n + 1)) := by
  intro (h : (src + UInt32.ofNat (n + 1) - src).toNat < n + 1)
  rw [toNat_add_sub src hn] at h
  omega

end Ranges

/-! ### When it moves -/

section Moving

variable {dest src : UInt32} {n : Nat} {m : Memory}

/-- A byte of the destination behind the first one. -/
theorem memmoveLoop_later (hn : n + 1 < 2 ^ 32) {i : Nat} (hi : i < n + 1) (hpos : 0 < i) :
    memmoveLoop dest src (n + 1) m (dest + UInt32.ofNat i) = 0 := by
  obtain ⟨i, rfl⟩ := Nat.exists_eq_succ_of_ne_zero (Nat.ne_of_gt hpos)
  rw [memmoveLoop_apply, if_pos]
  left
  rw [add_succ]
  exact covers_ofNat (dest + 1) (by omega) (by omega)

/-- The first byte of the destination. -/
theorem memmoveLoop_first (hn : n + 1 < 2 ^ 32) :
    memmoveLoop dest src (n + 1) m dest =
      if (⟨src + 1, n + 1⟩ : Span).Covers dest then 0 else m src := by
  rw [memmoveLoop_apply]
  by_cases hcovers : (⟨src + 1, n + 1⟩ : Span).Covers dest
  · rw [if_pos (Or.inr hcovers), if_pos hcovers]
  · rw [if_neg hcovers, if_neg, if_pos rfl]
    rintro (hfirst | hsecond)
    · exact not_covers_first hn hfirst
    · exact hcovers hsecond

/-- A byte outside of the two ranges. -/
theorem memmoveLoop_outside (hn : n + 1 < 2 ^ 32) {a : UInt32}
    (hdest : ¬ (⟨dest, n + 1⟩ : Span).Covers a) (hsrc : ¬ (⟨src, n + 1⟩ : Span).Covers a) :
    memmoveLoop dest src (n + 1) m a = if a = src + UInt32.ofNat (n + 1) then 0 else m a := by
  rw [memmoveLoop_apply]
  obtain ⟨hne, hrest⟩ := covers_succ hdest
  by_cases hbehind : a = src + UInt32.ofNat (n + 1)
  · rw [if_pos hbehind, if_pos (Or.inr ((eq_behind hn hsrc).mpr hbehind))]
  · rw [if_neg hbehind, if_neg, if_neg hne]
    rintro (hfirst | hsecond)
    · exact hrest hfirst
    · exact hbehind ((eq_behind hn hsrc).mp hsecond)

theorem Moves.nearlyZero {count : UInt32} (hcount : count.toNat = n + 1)
    (h : Moves dest src count m (memmoveLoop dest src (n + 1) m)) :
    NearlyZero dest src count m := by
  have hn : n + 1 < 2 ^ 32 := hcount ▸ count.toNat_lt
  have hbehind : src + count = src + UInt32.ofNat (n + 1) := by
    rw [← hcount, UInt32.ofNat_toNat]
  unfold NearlyZero
  rw [hcount]
  constructor
  · intro i hi hpos
    rw [← h.moved i (by omega), memmoveLoop_later hn hi hpos]
  · by_cases hcovers : (⟨src + 1, n + 1⟩ : Span).Covers dest
    · have hfirst := h.moved 0 (by omega)
      rw [add_ofNat_zero, add_ofNat_zero, memmoveLoop_first hn, if_pos hcovers] at hfirst
      rw [if_pos hcovers, ← hfirst]
    · have hdest := mt (covers_behind hn).mp hcovers
      have hframe := h.frame (src + UInt32.ofNat (n + 1))
      rw [hcount] at hframe
      replace hframe := hframe hdest (not_covers_behind hn)
      rw [memmoveLoop_outside hn hdest (not_covers_behind hn), if_pos rfl] at hframe
      rw [if_neg hcovers, hbehind, ← hframe]

theorem NearlyZero.moves {count : UInt32} (hcount : count.toNat = n + 1)
    (h : NearlyZero dest src count m) :
    Moves dest src count m (memmoveLoop dest src (n + 1) m) := by
  have hn : n + 1 < 2 ^ 32 := hcount ▸ count.toNat_lt
  have hbehind : src + count = src + UInt32.ofNat (n + 1) := by
    rw [← hcount, UInt32.ofNat_toNat]
  unfold NearlyZero at h
  rw [hcount] at h
  obtain ⟨hlater, hedge⟩ := h
  constructor
  · intro i hi
    rw [hcount] at hi
    by_cases hpos : 0 < i
    · rw [memmoveLoop_later hn hi hpos, hlater i hi hpos]
    · obtain rfl : i = 0 := by omega
      rw [add_ofNat_zero, add_ofNat_zero, memmoveLoop_first hn]
      by_cases hcovers : (⟨src + 1, n + 1⟩ : Span).Covers dest
      · rw [if_pos hcovers] at hedge ⊢
        exact hedge.symm
      · rw [if_neg hcovers]
  · intro a hdest hsrc
    rw [hcount] at hdest hsrc
    rw [memmoveLoop_outside hn hdest hsrc]
    by_cases hlast : a = src + UInt32.ofNat (n + 1)
    · have hcovers : ¬ (⟨src + 1, n + 1⟩ : Span).Covers dest := by
        intro hcovers
        exact hdest (hlast ▸ (covers_behind hn).mpr hcovers)
      rw [if_neg hcovers, hbehind] at hedge
      rw [if_pos hlast, hlast, hedge]
    · rw [if_neg hlast]

end Moving

/--
**`memmove` moves just what is nearly all zero.**  For every memory and every pair of ranges,
disjoint or overlapping in either direction, at the end of the address space as well: the call
moves the bytes and leaves all others alone exactly if there are none, or the source is zero
behind its first byte, and so is the byte behind the source, or else the first one, if the
destination starts in the `count` bytes behind it.
-/
theorem memmove_moves_iff (dest src count : UInt32) (m : Memory) :
    Moves dest src count m (memmove dest src count m) ↔
      count = 0 ∨ NearlyZero dest src count m := by
  unfold memmove
  cases hcount : count.toNat with
  | zero =>
      have hzero : count = 0 := UInt32.toNat_inj.mp hcount
      refine iff_of_true ⟨?_, ?_⟩ (Or.inl hzero)
      · intro i hi
        omega
      · intro a _ _
        rfl
  | succ n =>
      constructor
      · intro h
        exact Or.inr (h.nearlyZero hcount)
      · rintro (hzero | h)
        · rw [hzero] at hcount
          simp at hcount
        · exact h.moves hcount

/-- **Of two bytes the second one is lost.** -/
theorem memmove_loses : ¬ ∀ (m : Memory) (dest src count : UInt32),
    Moves dest src count m (memmove dest src count m) := by
  intro h
  have hsecond := (h (ofBytes [1, 2]) 16 0 2).moved 1 (by decide)
  exact absurd hsecond (by decide)

end OsThing.Strings
