/-
A ring of `n` slots, and the values that wait in it.

The slots are a function on indexes, of which only those below `n` are used.  A reader that
stands at `i` takes the next value from the slot `(i + 1) % n`; so the `k` values that wait are
the `window` of the `k` slots behind `i`, going round.  Nothing here asks for `k ≤ n`: a window
that is longer than the ring shows slots twice, and that is what an overrun looks like.
-/
import Mathlib.Data.List.Basic
import Mathlib.Logic.Function.Basic

namespace Ring

variable {α : Type*} {n : Nat}

/-- The values of the `k` slots behind `i`, going round. -/
def window (n : Nat) (cells : Nat → α) : Nat → Nat → List α
  | _, 0 => []
  | i, k + 1 => cells ((i + 1) % n) :: window n cells ((i + 1) % n) k

variable {cells cells' : Nat → α}

@[simp] theorem window_zero (i : Nat) : window n cells i 0 = [] := rfl

@[simp] theorem window_succ (i k : Nat) :
    window n cells i (k + 1) = cells ((i + 1) % n) :: window n cells ((i + 1) % n) k := rfl

@[simp] theorem window_length : ∀ k i, (window n cells i k).length = k
  | 0, _ => rfl
  | k + 1, i => congrArg (· + 1) (window_length k ((i + 1) % n))

/-- A shorter window is the start of a longer one. -/
theorem window_take : ∀ {j k : Nat} (i : Nat), j ≤ k →
    (window n cells i k).take j = window n cells i j := by
  intro j
  induction j with
  | zero => intro k i _; exact List.take_zero
  | succ j ih =>
      intro k i hjk
      obtain ⟨k, rfl⟩ := Nat.exists_eq_succ_of_ne_zero (Nat.ne_of_gt (Nat.zero_lt_of_lt hjk))
      rw [window_succ, window_succ, List.take_succ_cons, ih _ (Nat.le_of_succ_le_succ hjk)]

/-- Only the slots in the window matter. -/
theorem window_congr : ∀ k i, (∀ j < k, cells' ((i + j + 1) % n) = cells ((i + j + 1) % n)) →
    window n cells' i k = window n cells i k := by
  intro k
  induction k with
  | zero => intro i _; rfl
  | succ k ih =>
      intro i h
      have hhere : cells' ((i + 1) % n) = cells ((i + 1) % n) := h 0 (Nat.succ_pos k)
      rw [window_succ, window_succ, hhere]
      refine congrArg _ (ih _ fun j hj => ?_)
      have hnext : ((i + 1) % n + j + 1) % n = (i + (j + 1) + 1) % n := by
        rw [Nat.add_assoc, Nat.mod_add_mod]
        congr 1
        omega
      rw [hnext]
      exact h (j + 1) (Nat.succ_lt_succ hj)

/-- A window that is one longer has one more value at its end. -/
theorem window_snoc : ∀ k i, window n cells i (k + 1) =
    window n cells i k ++ [cells ((i + k + 1) % n)] := by
  intro k
  induction k with
  | zero => intro i; rfl
  | succ k ih =>
      intro i
      rw [window_succ, ih, window_succ]
      have hlast : ((i + 1) % n + k + 1) % n = (i + (k + 1) + 1) % n := by
        rw [Nat.add_assoc, Nat.mod_add_mod]
        congr 1
        omega
      rw [hlast, List.cons_append]

/-- Slots at different distances below `n` are different. -/
theorem slot_ne {i j k : Nat} (hjk : j < k) (hk : k < n) : (i + j + 1) % n ≠ (i + k + 1) % n := by
  intro h
  have hmod : (i + k + 1 - (i + j + 1)) % n = 0 := Nat.sub_mod_eq_zero_of_mod_eq h.symm
  have hdiff : i + k + 1 - (i + j + 1) = k - j := by omega
  rw [hdiff, Nat.mod_eq_of_lt (by omega)] at hmod
  omega

/-- **Putting a value into a ring with room.**  It is the last one to wait. -/
theorem window_put {i k : Nat} (hk : k < n) (x : α) :
    window n (Function.update cells ((i + k + 1) % n) x) i (k + 1) =
      window n cells i k ++ [x] := by
  rw [window_snoc, Function.update_self]
  refine congrArg (· ++ [x]) (window_congr k i fun j hj => ?_)
  exact Function.update_of_ne (slot_ne hj hk) x cells

/-- Putting a value into a full ring: it comes first, in the place of the oldest. -/
theorem window_overrun {i k : Nat} (hk : k + 1 = n) (x : α) :
    window n (Function.update cells ((i + n + 1) % n) x) i (n + 1) =
      x :: (window n cells i n).tail ++ [x] := by
  have hslot : (i + n + 1) % n = (i + 1) % n := by
    rw [Nat.add_right_comm, Nat.add_mod_right]
  rw [window_snoc, Function.update_self, hslot]
  subst hk
  rw [window_succ, window_succ, Function.update_self, List.tail_cons]
  refine congrArg (· ++ [x]) (congrArg (x :: ·) (window_congr k _ fun j hj => ?_))
  refine Function.update_of_ne (fun h => ?_) x cells
  have hne := slot_ne (n := k + 1) (i := i) (Nat.succ_pos j) (Nat.succ_lt_succ hj)
  apply hne
  rw [Nat.add_zero, ← h, Nat.add_assoc, Nat.mod_add_mod]
  congr 1
  omega

end Ring
