/-
The blocks that halving one block over and over gives.

A block is a start address and a length in words of `w` bytes.  Its halves are as
long as each other, so when the length is odd the last word of the block belongs to
neither.  `Within b x` says that `x` is `b` or comes from `b` by taking halves, and
`Proper b x` that at least one half was taken.  Two blocks from opposite halves are
apart; that, and the fact that a block lies inside the ones it came from, is all an
allocator that hands out halves needs of its geometry.
-/
import Mathlib.Tactic.Ring

namespace Halving

structure Block where
  start : Nat
  size : Nat
deriving DecidableEq, Repr

namespace Block

variable (w : Nat)

/-- The first address past the block. -/
def stop (b : Block) : Nat := b.start + w * b.size

def left (b : Block) : Block := ⟨b.start, b.size / 2⟩

def right (b : Block) : Block := ⟨b.start + w * (b.size / 2), b.size / 2⟩

/-- Twice as long, from the same start. -/
def double (b : Block) : Block := ⟨b.start, 2 * b.size⟩

@[simp] theorem left_start (b : Block) : b.left.start = b.start := rfl
@[simp] theorem left_size (b : Block) : b.left.size = b.size / 2 := rfl
@[simp] theorem right_start (b : Block) : (b.right w).start = b.start + w * (b.size / 2) := rfl
@[simp] theorem right_size (b : Block) : (b.right w).size = b.size / 2 := rfl
@[simp] theorem double_start (b : Block) : b.double.start = b.start := rfl
@[simp] theorem double_size (b : Block) : b.double.size = 2 * b.size := rfl

@[simp] theorem double_left (b : Block) : b.double.left = b := by
  cases b; simp [left, double]

/-- The two blocks have no byte in common. -/
def Apart (x y : Block) : Prop := x.stop w ≤ y.start ∨ y.stop w ≤ x.start

variable {w}

theorem Apart.symm {x y : Block} (h : Apart w x y) : Apart w y x := Or.symm h

end Block

open Block

variable (w : Nat)

/-- `Within b x`: `x` is `b`, or one of the blocks that halving `b` repeatedly gives. -/
inductive Within : Block → Block → Prop
  | refl (b : Block) : Within b b
  | left {b x : Block} (h : Within b.left x) : Within b x
  | right {b x : Block} (h : Within (b.right w) x) : Within b x

/-- `x` comes from `b` by taking at least one half. -/
def Proper (b x : Block) : Prop := Within w b.left x ∨ Within w (b.right w) x

variable {w}

theorem Proper.within {b x : Block} (h : Proper w b x) : Within w b x :=
  h.elim Within.left Within.right

theorem Within.eq_or_proper {b x : Block} (h : Within w b x) : x = b ∨ Proper w b x := by
  cases h with
  | refl => exact Or.inl rfl
  | left h => exact Or.inr (Or.inl h)
  | right h => exact Or.inr (Or.inr h)

/-- The two halves of a block fit in it, one after the other. -/
theorem halves_le (w : Nat) (b : Block) : w * (b.size / 2) + w * (b.size / 2) ≤ w * b.size := by
  calc w * (b.size / 2) + w * (b.size / 2) = w * (2 * (b.size / 2)) := by ring
    _ ≤ w * b.size := Nat.mul_le_mul_left w (by omega)

theorem Within.bounds {b x : Block} (h : Within w b x) :
    b.start ≤ x.start ∧ x.stop w ≤ b.stop w := by
  induction h with
  | refl b => exact ⟨Nat.le_refl _, Nat.le_refl _⟩
  | @left b x _ ih =>
      have := halves_le w b
      simp only [stop, left_start, left_size] at ih ⊢
      omega
  | @right b x _ ih =>
      have := halves_le w b
      simp only [stop, right_start, right_size] at ih ⊢
      omega

theorem Within.size_le {b x : Block} (h : Within w b x) : x.size ≤ b.size := by
  induction h with
  | refl b => exact Nat.le_refl _
  | left _ ih => exact Nat.le_trans ih (Nat.div_le_self _ _)
  | right _ ih => exact Nat.le_trans ih (Nat.div_le_self _ _)

/-- What halving a block of `2 ^ k` words gives has a power of two of words, too, and lies at a
multiple of its own length. -/
theorem Within.aligned {b x : Block} (h : Within w b x) (hx : 0 < x.size) :
    ∀ {k : Nat}, b.size = 2 ^ k →
      ∃ j ≤ k, x.size = 2 ^ j ∧ ∃ m, x.start = b.start + w * 2 ^ j * m := by
  induction h with
  | refl b => intro k hb; exact ⟨k, Nat.le_refl k, hb, 0, rfl⟩
  | @left b x h ih =>
      intro k hb
      cases k with
      | zero =>
          have hle := h.size_le
          rw [left_size, hb] at hle
          exact absurd hx (Nat.not_lt_of_le hle)
      | succ k =>
          obtain ⟨j, hj, hsize, hstart⟩ := ih hx (k := k) (by rw [left_size, hb, Nat.pow_succ]; omega)
          exact ⟨j, Nat.le_succ_of_le hj, hsize, hstart⟩
  | @right b x h ih =>
      intro k hb
      cases k with
      | zero =>
          have hle := h.size_le
          rw [right_size, hb] at hle
          exact absurd hx (Nat.not_lt_of_le hle)
      | succ k =>
          have hhalf : b.size / 2 = 2 ^ k := by
            rw [hb, Nat.pow_succ]
            omega
          obtain ⟨j, hj, hsize, m, hstart⟩ := ih hx (k := k) hhalf
          refine ⟨j, Nat.le_succ_of_le hj, hsize, 2 ^ (k - j) + m, ?_⟩
          have hpow : 2 ^ k = 2 ^ j * 2 ^ (k - j) := by rw [← Nat.pow_add, Nat.add_sub_cancel' hj]
          rw [hstart, right_start, hhalf, hpow]
          ring

/-- Blocks from opposite halves are apart. -/
theorem apart_of_opposite {b x y : Block} (hx : Within w b.left x)
    (hy : Within w (b.right w) y) : Apart w x y := by
  have h₁ := hx.bounds
  have h₂ := hy.bounds
  simp only [stop, left_start, left_size, right_start, right_size] at h₁ h₂
  left
  simp only [stop]
  omega

/-- Whatever is inside a block is apart from what the block is apart from. -/
theorem Block.Apart.of_within {b x y : Block} (h : Apart w b y) (hx : Within w b x) :
    Apart w x y := by
  have := hx.bounds
  rcases h with h | h
  · left; omega
  · right; omega

/-- Doubling a block makes everything inside it a proper part. -/
theorem Within.double {b x : Block} (h : Within w b x) : Proper w b.double x := by
  left
  rw [double_left]
  exact h

theorem Proper.double {b x : Block} (h : Proper w b x) : Proper w b.double x :=
  h.within.double

/-- A block with a word in it is not apart from itself, nor from a block around it. -/
theorem not_apart_of_within {b x : Block} (hw : 0 < w) (hx : 0 < x.size)
    (h : Within w b x) : ¬ Apart w b x := by
  have := h.bounds
  have hpos : 0 < w * x.size := Nat.mul_pos hw hx
  rintro (h' | h') <;> simp only [stop] at * <;> omega

end Halving
