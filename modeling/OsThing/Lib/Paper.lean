/-
Text on endless paper, and a window of some lines through which it is seen.

The paper has rows without end, and each line of the window stands on one of them: `rows` goes
on behind the window with the rows that come into it next.  When the window goes on by a row,
the first `keep` of its lines stay where they are, so what is lost to sight is the row in the
line behind them.  Nothing that is on the paper is ever moved.
-/
import Mathlib.Logic.Function.Basic
import Mathlib.Order.Monotone.Basic

structure Paper (α : Type*) where
  text : Nat → Nat → α
  rows : Nat → Nat
  /-- The line of the window, and the column, where the next one is written. -/
  line : Nat
  col : Nat

namespace Paper

variable {α : Type*} (p : Paper α)

/-- Before anything is written. -/
def fresh (blank : α) : Paper α := ⟨fun _ _ => blank, id, 0, 0⟩

/-- What is seen in a line. -/
def seen (i j : Nat) : α := p.text (p.rows i) j

def write (i j : Nat) (a : α) : Paper α :=
  { p with text := Function.update p.text (p.rows i) (Function.update (p.text (p.rows i)) j a) }

/-- The start of the line below. -/
def down : Paper α := { p with line := p.line + 1, col := 0 }

/-- The window goes on by one row. -/
def roll (keep : Nat) : Paper α :=
  { p with rows := fun i => if i < keep then p.rows i else p.rows (i + 1) }

/-- The window, of which `last` is the last line, goes on if the line is below it. -/
def follow (last keep : Nat) : Paper α :=
  if last < p.line then { p.roll keep with line := last } else p

/-- The lines stand on the paper from top to bottom, and the rows below are blank. -/
structure Good (last : Nat) (blank : α) : Prop where
  order : StrictMono p.rows
  below : ∀ row, p.rows last < row → ∀ j, p.text row j = blank

variable {p} {last keep : Nat} {blank : α}

theorem fresh_good (last : Nat) (blank : α) : (fresh blank).Good last blank :=
  ⟨strictMono_id, fun _ _ _ => rfl⟩

/-- One cell of the window is written, and no other one changes. -/
theorem Good.seen_write (h : p.Good last blank) (i j : Nat) (a : α) (i' j' : Nat) :
    (p.write i j a).seen i' j' = if i' = i ∧ j' = j then a else p.seen i' j' := by
  show Function.update p.text (p.rows i) _ (p.rows i') j' = _
  by_cases hi : i' = i
  · subst hi
    rw [Function.update_self, Function.update_apply]
    simp [seen]
  · have hrow : p.rows i' ≠ p.rows i := fun heq => hi (h.order.injective heq)
    rw [Function.update_of_ne hrow, if_neg (fun hcell => hi hcell.1)]
    rfl

theorem Good.write (h : p.Good last blank) {i : Nat} (hi : i ≤ last) (j : Nat) (a : α) :
    (p.write i j a).Good last blank := by
  refine ⟨h.order, fun row hrow j' => ?_⟩
  have hne : row ≠ p.rows i := by
    have hle : p.rows i ≤ p.rows last := h.order.monotone hi
    have hlt : p.rows last < row := hrow
    omega
  show Function.update p.text (p.rows i) _ row j' = blank
  rw [Function.update_of_ne hne]
  exact h.below row hrow j'

theorem Good.roll (h : p.Good last blank) (hkeep : keep ≤ last) : (p.roll keep).Good last blank := by
  constructor
  · intro i i' hlt
    show (if i < keep then p.rows i else p.rows (i + 1)) <
      if i' < keep then p.rows i' else p.rows (i' + 1)
    split_ifs
    · exact h.order hlt
    · exact h.order (by omega)
    · omega
    · exact h.order (by omega)
  · intro row hrow j
    have hrow : (if last < keep then p.rows last else p.rows (last + 1)) < row := hrow
    rw [if_neg (by omega)] at hrow
    exact h.below row (Nat.lt_trans (h.order (Nat.lt_succ_self last)) hrow) j

/-- What is seen after the window has gone on. -/
theorem Good.seen_roll (h : p.Good last blank) (hkeep : keep ≤ last) {i : Nat} (hi : i ≤ last)
    (j : Nat) :
    (p.roll keep).seen i j =
      if i = last then blank else if keep ≤ i then p.seen (i + 1) j else p.seen i j := by
  show p.text (if i < keep then p.rows i else p.rows (i + 1)) j = _
  by_cases hlast : i = last
  · subst hlast
    rw [if_neg (by omega), if_pos rfl]
    exact h.below _ (h.order (Nat.lt_succ_self i)) j
  · rw [if_neg hlast]
    by_cases hstays : i < keep
    · rw [if_pos hstays, if_neg (by omega)]
      rfl
    · rw [if_neg hstays, if_pos (by omega)]
      rfl

end Paper
