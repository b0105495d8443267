/-
Lines that are typed, with a key that takes back.

A key is put at the end of the line, and `back` takes the last one away.  `edited` is what a
sequence of keys leaves.  Where the keys go on behind the end of a line they are cut there:
`Cut keys ended rest` says which lines have ended, and which keys are in the one that has not.
-/
import Mathlib.Data.List.Basic

namespace LineEdit

variable {α : Type*} [DecidableEq α] (back : α)

/-- The line after one more key. -/
def press (line : List α) (c : α) : List α := if c = back then line.dropLast else line ++ [c]

/-- What the keys leave. -/
def edited (keys : List α) : List α := keys.foldl (press back) []

theorem edited_concat (keys : List α) (c : α) :
    edited back (keys ++ [c]) = press back (edited back keys) c := List.foldl_append ..

/-! ### Lines -/

/-- The keys are those of the lines that ended, each with its end behind it, and then the rest. -/
structure Cut (newline : α) (keys : List α) (ended : List (List α)) (rest : List α) : Prop where
  keys : keys = (ended.map (· ++ [newline])).flatten ++ rest
  ended : ∀ line ∈ ended, newline ∉ line
  rest : newline ∉ rest

variable {newline : α} {keys rest : List α} {ended : List (List α)}

omit [DecidableEq α] in
theorem cut_nil (newline : α) : Cut newline [] [] [] :=
  ⟨rfl, fun _ h => absurd h List.not_mem_nil, List.not_mem_nil⟩

omit [DecidableEq α] in
/-- A key in the line. -/
theorem Cut.key (h : Cut newline keys ended rest) {c : α} (hc : c ≠ newline) :
    Cut newline (keys ++ [c]) ended (rest ++ [c]) := by
  refine ⟨?_, h.ended, ?_⟩
  · rw [h.keys, List.append_assoc]
  · rw [List.mem_append, List.mem_singleton, not_or]
    exact ⟨h.rest, Ne.symm hc⟩

omit [DecidableEq α] in
/-- The end of the line. -/
theorem Cut.line (h : Cut newline keys ended rest) :
    Cut newline (keys ++ [newline]) (ended ++ [rest]) [] := by
  refine ⟨?_, fun line hline => ?_, List.not_mem_nil⟩
  · rw [h.keys, List.map_append, List.flatten_append, List.append_nil, List.append_assoc]
    simp
  · rcases List.mem_append.mp hline with hline | hline
    · exact h.ended line hline
    · obtain rfl := List.mem_singleton.mp hline
      exact h.rest

end LineEdit
