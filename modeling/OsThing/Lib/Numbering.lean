/-
Numbers given out in the order in which they are first asked for.

The list holds what has asked so far, each once, and its place in the list is its number.  A
resource that is only ever handed out in order, such as frames off a stack or memory off a
pointer that goes up, is given out in this way, so that who gets what can be read off the order
of the requests alone.
-/
import Mathlib.Data.List.Basic
import Mathlib.Data.List.Infix
import Mathlib.Data.List.Nodup

namespace Numbering

variable {α : Type*} [DecidableEq α]

/-- `a` asks for its number. -/
def ask (l : List α) (a : α) : List α := if a ∈ l then l else l ++ [a]

/-- One after the other. -/
def askAll (l as : List α) : List α := as.foldl ask l

/-- The number of `a`, if it has one. -/
def numberOf (l : List α) (a : α) : Option Nat := if a ∈ l then some (l.idxOf a) else none

variable {l as : List α} {a b : α} {n : Nat}

/-! ### The list -/

theorem ask_of_mem (h : a ∈ l) : ask l a = l := if_pos h

theorem ask_of_not_mem (h : a ∉ l) : ask l a = l ++ [a] := if_neg h

@[simp] theorem askAll_nil (l : List α) : askAll l [] = l := rfl

@[simp] theorem askAll_cons (l : List α) (a : α) (as : List α) :
    askAll l (a :: as) = askAll (ask l a) as := rfl

theorem askAll_append (l as bs : List α) : askAll l (as ++ bs) = askAll (askAll l as) bs :=
  List.foldl_append

theorem mem_ask (l : List α) (a : α) : a ∈ ask l a := by
  unfold ask
  split
  · assumption
  · exact List.mem_append_right l List.mem_cons_self

theorem prefix_ask (l : List α) (a : α) : l <+: ask l a := by
  unfold ask
  split
  · exact List.prefix_refl l
  · exact List.prefix_append l [a]

/-- Nobody who has a number loses it. -/
theorem prefix_askAll (l as : List α) : l <+: askAll l as := by
  induction as generalizing l with
  | nil => exact List.prefix_refl l
  | cons a as ih => exact (prefix_ask l a).trans (ih (ask l a))

theorem length_ask_le (l : List α) (a : α) : (ask l a).length ≤ l.length + 1 := by
  unfold ask
  split
  · exact Nat.le_succ _
  · rw [List.length_append, List.length_singleton]

theorem length_askAll_le (l as : List α) : (askAll l as).length ≤ l.length + as.length := by
  induction as generalizing l with
  | nil => exact Nat.le_refl _
  | cons a as ih =>
      have hrest := ih (ask l a)
      have hone := length_ask_le l a
      rw [askAll_cons, List.length_cons]
      omega

/-- If all of them are new, the numbers go to them in their order. -/
theorem askAll_of_new (hnodup : as.Nodup) (hnew : ∀ a ∈ as, a ∉ l) : askAll l as = l ++ as := by
  induction as generalizing l with
  | nil => exact (List.append_nil l).symm
  | cons a as ih =>
      obtain ⟨hhead, htail⟩ := List.nodup_cons.mp hnodup
      rw [askAll_cons, ask_of_not_mem (hnew a List.mem_cons_self), ih htail fun b hb hmem => ?_,
        List.append_assoc, List.singleton_append]
      rcases List.mem_append.mp hmem with hold | hsame
      · exact hnew b (List.mem_cons_of_mem a hb) hold
      · exact hhead (List.mem_singleton.mp hsame ▸ hb)

/-! ### The numbers -/

theorem numberOf_isSome : (numberOf l a).isSome ↔ a ∈ l := by
  unfold numberOf
  split
  · exact iff_of_true rfl (by assumption)
  · exact iff_of_false nofun (by assumption)

theorem numberOf_eq_none : numberOf l a = none ↔ a ∉ l := by
  rw [← numberOf_isSome, Option.not_isSome_iff_eq_none]

theorem numberOf_eq_some : numberOf l a = some n ↔ a ∈ l ∧ l.idxOf a = n := by
  unfold numberOf
  rw [Option.ite_none_right_eq_some, Option.some_inj]

theorem numberOf_lt (h : numberOf l a = some n) : n < l.length := by
  obtain ⟨hmem, rfl⟩ := numberOf_eq_some.mp h
  exact List.idxOf_lt_length_of_mem hmem

theorem numberOf_append_of_mem {l' : List α} (h : a ∈ l) :
    numberOf (l ++ l') a = numberOf l a := by
  unfold numberOf
  rw [if_pos (List.mem_append_left l' h), if_pos h, List.idxOf_append_of_mem h]

theorem numberOf_append_of_not_mem {l' : List α} (h : a ∉ l) :
    numberOf (l ++ l') a = (numberOf l' a).map (l.length + ·) := by
  unfold numberOf
  by_cases h' : a ∈ l'
  · rw [if_pos (List.mem_append_right l h'), if_pos h', List.idxOf_append_of_notMem h]
    rfl
  · rw [if_neg h', if_neg fun hmem => (List.mem_append.mp hmem).elim h h']
    rfl

theorem numberOf_grown {l' : List α} (hstarts : l <+: l') (h : a ∈ l) :
    numberOf l' a = numberOf l a := by
  obtain ⟨rest, rfl⟩ := hstarts
  exact numberOf_append_of_mem h

/-- What one request does to the numbers. -/
theorem numberOf_ask (l : List α) (a b : α) : numberOf (ask l a) b =
    if a ∉ l ∧ b = a then some l.length else numberOf l b := by
  by_cases ha : a ∈ l
  · rw [ask_of_mem ha, if_neg fun h => h.1 ha]
  · rw [ask_of_not_mem ha]
    by_cases hb : b = a
    · subst hb
      rw [if_pos ⟨ha, rfl⟩, numberOf_append_of_not_mem ha]
      simp [numberOf]
    · rw [if_neg fun h => hb h.2]
      by_cases hmem : b ∈ l
      · exact numberOf_append_of_mem hmem
      · have hnone : numberOf [a] b = none :=
          numberOf_eq_none.mpr fun h => hb (List.mem_singleton.mp h)
        rw [numberOf_append_of_not_mem hmem, hnone, numberOf_eq_none.mpr hmem, Option.map_none]

/-- A range numbers itself. -/
theorem numberOf_range' (s n m : Nat) :
    numberOf (List.range' s n) m = if s ≤ m ∧ m < s + n then some (m - s) else none := by
  by_cases hm : s ≤ m ∧ m < s + n
  · rw [if_pos hm, numberOf_eq_some]
    have hlength : m - s < (List.range' s n).length := by
      rw [List.length_range']
      omega
    have hget : (List.range' s n)[m - s] = m := by
      rw [List.getElem_range' hlength]
      omega
    have hnodup : (List.range' s n).Nodup := List.nodup_range'
    have hindex := hnodup.idxOf_getElem (m - s) hlength
    rw [hget] at hindex
    exact ⟨List.mem_range'_1.mpr hm, hindex⟩
  · rw [if_neg hm, numberOf_eq_none, List.mem_range'_1]
    exact hm

end Numbering
