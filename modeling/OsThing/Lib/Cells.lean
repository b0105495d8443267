/-
Memory cells that are linked into singly linked lists, and the append of C code.

A new cell gets the next number and a null link.  `append` takes one and hangs it at the
end of the list it is let into, at whatever node: it runs along the links to the last
one.  So it does not matter where in a list it starts, which is `append_spec`.
-/
import OsThing.Lib.Chain

namespace Chain

/-- Cells with a value and a link each, of which the first `count` are in use. -/
structure Cells (α : Type*) where
  val : Nat → α
  next : Nat → Option Nat
  count : Nat

namespace Cells

variable {α : Type*} (c : Cells α)

/-- A new cell for `a`, which is number `count`. -/
def alloc (a : α) : Cells α where
  val := Function.update c.val c.count a
  next := Function.update c.next c.count none
  count := c.count + 1

def link (p q : Nat) : Cells α := { c with next := Function.update c.next p (some q) }

def modify (p : Nat) (f : α → α) : Cells α :=
  { c with val := Function.update c.val p (f (c.val p)) }

/-- `for ( move = first; move->next; move = move->next ); move->next = new;` -/
def append (first : Nat) (a : α) : Option (Cells α) :=
  (advance (c.alloc a).next (fun p => ((c.alloc a).next p).isSome) (c.alloc a).count first).map
    fun move => (c.alloc a).link move c.count

/-- The last cell of the list that `first` is in. -/
def lastFrom (first : Nat) : Option Nat :=
  advance c.next (fun p => (c.next p).isSome) c.count first

/-- The list from `p` on ends, and its cells `l` are in use. -/
def Holds (p : Option Nat) (l : List Nat) : Prop := IsChain c.next p l ∧ ∀ a ∈ l, a < c.count

variable {c} {p : Option Nat} {l : List Nat}

@[simp] theorem alloc_count (a : α) : (c.alloc a).count = c.count + 1 := rfl

@[simp] theorem link_count (p q : Nat) : (c.link p q).count = c.count := rfl

@[simp] theorem link_val (p q : Nat) : (c.link p q).val = c.val := rfl

theorem alloc_val (a : α) (q : Nat) :
    (c.alloc a).val q = if q = c.count then a else c.val q := Function.update_apply ..

theorem modify_val (q q' : Nat) (f : α → α) :
    (c.modify q f).val q' = if q' = q then f (c.val q) else c.val q' := Function.update_apply ..

theorem Holds.alloc (h : c.Holds p l) (a : α) : (c.alloc a).Holds p l :=
  ⟨h.1.update fun hmem => Nat.lt_irrefl _ (h.2 _ hmem), fun b hb => Nat.lt_succ_of_lt (h.2 b hb)⟩

/-- The new cell is a list of its own. -/
theorem holds_alloc (c : Cells α) (a : α) : (c.alloc a).Holds (some c.count) [c.count] := by
  refine ⟨⟨rfl, ?_⟩, fun b hb => ?_⟩
  · show (c.alloc a).next c.count = none
    exact Function.update_self ..
  · rw [List.mem_singleton.mp hb]
    exact Nat.lt_succ_self _

theorem Holds.modify (h : c.Holds p l) (q : Nat) (f : α → α) : (c.modify q f).Holds p l := h

/-- Linking a cell changes no list that the cell is not in. -/
theorem Holds.link (h : c.Holds p l) {a : Nat} (ha : a ∉ l) (q : Nat) : (c.link a q).Holds p l :=
  ⟨h.1.update ha, h.2⟩

/-- A new cell behind the last one of a list. -/
theorem Holds.snoc {t : Nat} (h : c.Holds p (l ++ [t])) (a : α) :
    ((c.alloc a).link t c.count).Holds p (l ++ [t] ++ [c.count]) := by
  obtain ⟨hchain, hlt⟩ := h.alloc a
  have hne : t ≠ c.count := Nat.ne_of_lt (h.2 t (by simp))
  refine ⟨?_, fun b hb => ?_⟩
  · have hnodup := hchain.nodup
    have hsnoc := hchain.snoc
      (show ((c.alloc a).link t c.count).next t = some c.count from Function.update_self ..)
      ((Function.update_of_ne hne.symm _ _).trans (Function.update_self ..)) fun b hb => by
        refine Function.update_of_ne (fun heq => ?_) _ _
        exact (List.nodup_append.mp hnodup).2.2 b hb t List.mem_cons_self heq
    rw [List.append_assoc]
    exact hsnoc
  · rcases List.mem_append.mp hb with hold | hnew
    · exact hlt b hold
    · rw [List.mem_singleton.mp hnew]
      exact Nat.lt_succ_self _

theorem append_eq (first : Nat) (a : α) : c.append first a =
    ((c.alloc a).lastFrom first).map fun move => (c.alloc a).link move c.count := rfl

/-- From any cell of a list the links lead to its last cell, also when a new one was taken. -/
theorem lastFrom_alloc (h : c.Holds p l) {first : Nat} (hfirst : first ∈ l) (a : α) :
    ∃ l' last, l = l' ++ [last] ∧ (c.alloc a).lastFrom first = some last := by
  obtain ⟨hchain, hlt⟩ := h.alloc a
  obtain ⟨l₁, l₂, rfl⟩ := List.append_of_mem hfirst
  have htail : IsChain (c.alloc a).next (some first) (first :: l₂) := ⟨rfl, hchain.suffix⟩
  obtain ⟨l₃, last, hlast⟩ : ∃ l₃ last, first :: l₂ = l₃ ++ [last] :=
    ⟨_, _, (List.dropLast_append_getLast (List.cons_ne_nil first l₂)).symm⟩
  rw [hlast] at htail hlt ⊢
  refine ⟨l₁ ++ l₃, last, (List.append_assoc _ _ _).symm, advance_last htail ?_⟩
  have hle := htail.length_le fun b hb => hlt b (List.mem_append_right _ hb)
  rw [List.length_append, List.length_singleton] at hle
  omega

/-- **Appending from any cell of a list.**  The new cell is the last one, and lists that have
none of its cells are what they were. -/
theorem append_spec (h : c.Holds p l) {first : Nat} (hfirst : first ∈ l) (a : α) :
    ∃ last ∈ l, c.append first a = some ((c.alloc a).link last c.count) ∧
      ((c.alloc a).link last c.count).Holds p (l ++ [c.count]) := by
  obtain ⟨l', last, rfl, hlast⟩ := lastFrom_alloc h hfirst a
  refine ⟨last, List.mem_append_right _ List.mem_cons_self, ?_, h.snoc a⟩
  rw [append_eq, hlast]
  rfl

end Cells

end Chain
