/-
Trees of names, and the walk along a path.

A tree says which nodes are directories, and where the names in a directory lead.  A path
is a list of names, one of which, `stay`, leads nowhere.  `resolve` takes them one after
another and stops at the first one that cannot be followed.

A program has more to carry along than the node it is at.  `Agrees` relates how the two
end, and `resolve_agrees` is the simulation: what holds of one name holds of a path.
-/
import Mathlib.Tactic.Common

namespace DirTree

/-- Nodes `ι` with names `ν`. -/
structure Tree (ν ι : Type*) where
  isDir : ι → Bool
  child : ι → ν → Option ι

/-- Why a name cannot be followed. -/
inductive Dead
  | missing
  | notDir

namespace Tree

variable {ν ι σ ε : Type*} [DecidableEq ν] (T : Tree ν ι) (stay : ν)

/-- Where one name leads. -/
def enter (i : ι) (name : ν) : Except Dead ι :=
  if name = stay then .ok i
  else if T.isDir i then
    match T.child i name with
    | none => .error .missing
    | some j => .ok j
  else .error .notDir

/-- Where a path leads. -/
def resolve : ι → List ν → Except Dead ι
  | i, [] => .ok i
  | i, name :: rest =>
      match T.enter stay i name with
      | .error dead => .error dead
      | .ok j => resolve j rest

/-- Both end in the same way. -/
inductive Agrees (R : ι → σ → Prop) (err : Dead → ε) : Except Dead ι → Except ε σ → Prop
  | ok {i : ι} {p : σ} (h : R i p) : Agrees R err (.ok i) (.ok p)
  | error (dead : Dead) : Agrees R err (.error dead) (.error (err dead))

/-- **A walk that follows each name as the tree does follows each path so.** -/
theorem resolve_agrees {R : ι → σ → Prop} {err : Dead → ε} {step : σ → ν → Except ε σ}
    {good : ν → Prop} (hstep : ∀ i p name, good name → R i p →
      Agrees R err (T.enter stay i name) (step p name)) :
    ∀ (names : List ν) {i : ι} {p : σ}, (∀ name ∈ names, good name) → R i p →
      Agrees R err (T.resolve stay i names) (names.foldlM step p) := by
  intro names
  induction names with
  | nil =>
      intro i p _ hip
      exact Agrees.ok hip
  | cons name rest ih =>
      intro i p hgood hip
      have hone := hstep i p name (hgood name List.mem_cons_self) hip
      rw [List.foldlM_cons]
      unfold resolve
      revert hone
      generalize T.enter stay i name = r
      generalize step p name = r'
      intro hone
      cases hone with
      | ok hjq => exact ih (fun name hname => hgood name (List.mem_cons_of_mem _ hname)) hjq
      | error dead => exact Agrees.error dead

end Tree

end DirTree
