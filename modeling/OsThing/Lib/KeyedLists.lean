/-
Hash tables whose slots are linked lists of cells.

`key` reads the key of a cell's value, and `slot` says in which list a key belongs.
`Keyed` is what keeps such a table in order: every list ends, every cell is in the list
of its key, and no list has two cells with one key.  Then a table is a map from keys to
values, `value`, and the two things a program does to a table, changing the value of a
cell and adding a cell with a new key, are updates of that map at one key.
-/
import OsThing.Lib.Cells
import Mathlib.Data.List.Nodup

namespace Chain

variable {α κ ι : Type*}

/-- The lists from `root i` on are the cells `chain i`, each in the slot of its key. -/
structure Keyed (c : Cells α) (key : α → κ) (slot : κ → ι) (root : ι → Option Nat)
    (chain : ι → List Nat) : Prop where
  holds : ∀ i, c.Holds (root i) (chain i)
  slots : ∀ i, ∀ p ∈ chain i, slot (key (c.val p)) = i
  keys : ∀ i, ∀ p ∈ chain i, ∀ q ∈ chain i, key (c.val p) = key (c.val q) → p = q

/-- The cell that has the key. -/
def cellOf [DecidableEq κ] (c : Cells α) (key : α → κ) (slot : κ → ι) (chain : ι → List Nat)
    (k : κ) : Option Nat :=
  (chain (slot k)).find? fun p => decide (key (c.val p) = k)

/-- The value that the table has for the key. -/
def value [DecidableEq κ] (c : Cells α) (key : α → κ) (slot : κ → ι) (chain : ι → List Nat)
    (k : κ) : Option α :=
  (cellOf c key slot chain k).map c.val

/-- The empty table. -/
theorem keyed_nil (c : Cells α) (key : α → κ) (slot : κ → ι) :
    Keyed c key slot (fun _ => none) (fun _ => []) where
  holds := fun _ => ⟨rfl, fun _ h => absurd h List.not_mem_nil⟩
  slots := fun _ _ h => absurd h List.not_mem_nil
  keys := fun _ _ h => absurd h List.not_mem_nil

namespace Keyed

variable {c : Cells α} {key : α → κ} {slot : κ → ι} {root : ι → Option Nat}
  {chain : ι → List Nat} (h : Keyed c key slot root chain)

include h

section Lookup

variable [DecidableEq κ]

/-- The cell of a key is the only one in the table that has it. -/
theorem cellOf_eq_some {k : κ} {p : Nat} :
    cellOf c key slot chain k = some p ↔ p ∈ chain (slot k) ∧ key (c.val p) = k := by
  have hfound : ∀ {q}, cellOf c key slot chain k = some q →
      q ∈ chain (slot k) ∧ key (c.val q) = k := fun hq =>
    ⟨List.mem_of_find?_eq_some hq, by simpa using List.find?_some hq⟩
  constructor
  · exact hfound
  · rintro ⟨hmem, hkey⟩
    cases hq : cellOf c key slot chain k with
    | none => exact absurd (decide_eq_true hkey) (List.find?_eq_none.mp hq p hmem)
    | some q =>
        have := hfound hq
        rw [h.keys _ q this.1 p hmem (this.2.trans hkey.symm)]

/-- A key has no value exactly when no cell has the key. -/
theorem cellOf_eq_none {k : κ} :
    cellOf c key slot chain k = none ↔ ∀ i, ∀ p ∈ chain i, key (c.val p) ≠ k := by
  unfold cellOf
  rw [List.find?_eq_none]
  constructor
  · rintro hnone i p hp rfl
    exact hnone p (h.slots i p hp ▸ hp) (decide_eq_true rfl)
  · exact fun hne p hp hkey => hne _ p hp (of_decide_eq_true hkey)

theorem value_eq_some {k : κ} {a : α} :
    value c key slot chain k = some a ↔ ∃ p ∈ chain (slot k), key (c.val p) = k ∧ c.val p = a := by
  simp only [value, Option.map_eq_some_iff, h.cellOf_eq_some, and_assoc]

end Lookup

/-! ### Changing the value of a cell -/

/-- Changing a value and not its key keeps the table in order. -/
theorem modify {p : Nat} {f : α → α} (hf : key (f (c.val p)) = key (c.val p)) :
    Keyed (c.modify p f) key slot root chain := by
  have hkey : ∀ q, key ((c.modify p f).val q) = key (c.val q) := by
    intro q
    rw [Cells.modify_val]
    split
    · subst q
      exact hf
    · rfl
  refine ⟨fun i => (h.holds i).modify p f, fun i q hq => ?_, fun i q hq q' hq' heq => ?_⟩
  · rw [hkey]
    exact h.slots i q hq
  · rw [hkey, hkey] at heq
    exact h.keys i q hq q' hq' heq

/-- It is an update of the map at the key of the cell. -/
theorem value_modify [DecidableEq κ] {i : ι} {p : Nat} {f : α → α} (hp : p ∈ chain i)
    (hf : key (f (c.val p)) = key (c.val p)) :
    value (c.modify p f) key slot chain =
      Function.update (value c key slot chain) (key (c.val p)) (some (f (c.val p))) := by
  have hnew := h.modify hf
  have hslot := h.slots i p hp
  funext k
  by_cases hk : k = key (c.val p)
  · subst hk
    rw [Function.update_self]
    refine hnew.value_eq_some.mpr ⟨p, hslot.symm ▸ hp, ?_, ?_⟩ <;>
      simp [Cells.modify_val, hf]
  · rw [Function.update_of_ne hk]
    ext a
    rw [hnew.value_eq_some, h.value_eq_some]
    refine exists_congr fun q => and_congr_right fun _ => ?_
    rw [Cells.modify_val]
    split
    · subst q
      simp only [hf, Ne.symm hk, false_and]
    · rfl

/-! ### Adding a cell -/

variable [DecidableEq ι] {c' : Cells α} {root' : ι → Option Nat} {a : α}

/-- The lists after the cell for `a` was put at the end of the one of its key. -/
abbrev added (c : Cells α) (key : α → κ) (slot : κ → ι) (chain : ι → List Nat) (a : α) :
    ι → List Nat :=
  Function.update chain (slot (key a)) (chain (slot (key a)) ++ [c.count])

omit [DecidableEq ι] in
/-- The new cell is none of those that were there. -/
theorem val_old (hval : c'.val = (c.alloc a).val) {i : ι} {p : Nat} (hp : p ∈ chain i) :
    c'.val p = c.val p := by
  rw [hval, Cells.alloc_val, if_neg (Nat.ne_of_lt ((h.holds i).2 p hp))]

omit h [DecidableEq ι] in
theorem val_new (hval : c'.val = (c.alloc a).val) : c'.val c.count = a := by
  rw [hval, Cells.alloc_val, if_pos rfl]

/-- However the new cell is put there, the table stays in order if it had no such key. -/
theorem add (hval : c'.val = (c.alloc a).val)
    (hholds : ∀ i, c'.Holds (root' i) (added c key slot chain a i))
    (hfresh : ∀ i, ∀ p ∈ chain i, key (c.val p) ≠ key a) :
    Keyed c' key slot root' (added c key slot chain a) := by
  have hold := fun i p hp => h.val_old hval (i := i) (p := p) hp
  have hcount := val_new hval
  refine ⟨hholds, fun i p hp => ?_, fun i p hp q hq heq => ?_⟩
  · rcases mem_update_append.mp hp with hp | ⟨rfl, rfl⟩
    · rw [hold i p hp]
      exact h.slots i p hp
    · rw [hcount]
  · rcases mem_update_append.mp hp with hp | ⟨hi, rfl⟩ <;> rcases mem_update_append.mp hq with hq | ⟨hi', rfl⟩
    · rw [hold i p hp, hold i q hq] at heq
      exact h.keys i p hp q hq heq
    · rw [hold i p hp, hcount] at heq
      exact absurd heq (hfresh i p hp)
    · rw [hold i q hq, hcount] at heq
      exact absurd heq.symm (hfresh i q hq)
    · rfl

/-- It is an update of the map at the new key. -/
theorem value_add [DecidableEq κ] (hval : c'.val = (c.alloc a).val)
    (hholds : ∀ i, c'.Holds (root' i) (added c key slot chain a i))
    (hfresh : ∀ i, ∀ p ∈ chain i, key (c.val p) ≠ key a) :
    value c' key slot (added c key slot chain a) =
      Function.update (value c key slot chain) (key a) (some a) := by
  have hnew := h.add hval hholds hfresh
  have hold := fun i p hp => h.val_old hval (i := i) (p := p) hp
  have hcount := val_new hval
  funext k
  by_cases hk : k = key a
  · subst hk
    rw [Function.update_self]
    exact hnew.value_eq_some.mpr
      ⟨c.count, mem_update_append.mpr (Or.inr ⟨rfl, rfl⟩), by rw [hcount], hcount⟩
  · rw [Function.update_of_ne hk]
    ext b
    rw [hnew.value_eq_some, h.value_eq_some]
    constructor
    · rintro ⟨p, hp, hkey, rfl⟩
      rcases mem_update_append.mp hp with hp | ⟨_, rfl⟩
      · exact ⟨p, hp, by rw [← hold _ p hp]; exact hkey, (hold _ p hp).symm⟩
      · rw [hcount] at hkey
        exact absurd hkey.symm hk
    · rintro ⟨p, hp, hkey, rfl⟩
      exact ⟨p, mem_update_append.mpr (Or.inl hp), by rw [hold _ p hp]; exact hkey, hold _ p hp⟩

end Keyed

end Chain
