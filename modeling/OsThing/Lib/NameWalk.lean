/-
Walks that follow one name after another, in a graph that grows.

`step` says where a name leads from a node, or why it leads nowhere; `follow` takes a list of
names one by one.  Two walks of which each step ends alike end alike: `follow_alike`.  When a node
is added under a name that led nowhere, a walk is what it was unless it takes this name in this
place: `Extends.follow`.  The induction is on the names, and it rests on that nothing but the new
name leads to the new node.
-/
import Mathlib.Tactic.Common

namespace NameWalk

variable {ν ι ε σ δ : Type*}

/-- Where a path leads. -/
def follow (step : ι → ν → Except ε ι) (node : ι) (names : List ν) : Except ε ι :=
  names.foldlM step node

variable {step step' : ι → ν → Except ε ι} {node dir new : ι} {name : ν} {e : ε}

theorem follow_cons (rest : List ν) : follow step node (name :: rest) =
    (step node name).bind fun node => follow step node rest := rfl

theorem follow_append (front back : List ν) : follow step node (front ++ back) =
    (follow step node front).bind fun node => follow step node back :=
  List.foldlM_append

theorem follow_concat (names : List ν) : follow step node (names ++ [name]) =
    (follow step node names).bind fun node => step node name := by
  rw [follow_append]
  refine congrArg _ (funext fun node => ?_)
  rw [follow_cons]
  cases step node name with
  | error e => rfl
  | ok node => rfl

/-- **Two walks of which each step ends alike end alike.** -/
theorem follow_alike {go : σ → ν → Except δ σ} {R : Except ε ι → Except δ σ → Prop}
    (hends : ∀ r r', R r r' → (∃ i p, r = .ok i ∧ r' = .ok p) ∨ ∃ e d, r = .error e ∧ r' = .error d)
    (hstep : ∀ i p n, R (.ok i) (.ok p) → R (step i n) (go p n)) :
    ∀ {names : List ν} {i : ι} {p : σ}, R (.ok i) (.ok p) →
      R (follow step i names) (follow go p names) := by
  intro names
  induction names with
  | nil => intro i p h; exact h
  | cons n rest ih =>
      intro i p h
      have hone := hstep i p n h
      rw [follow_cons, follow_cons]
      rcases hends _ _ hone with ⟨j, q, hj, hq⟩ | ⟨e, d, he, hd⟩
      · rw [hj, hq] at hone ⊢
        exact ih hone
      · rw [he, hd] at hone ⊢
        exact hone

/-- `step'` is `step`, but that the name `name` in `dir`, which led nowhere, leads to `new`. -/
structure Extends (step step' : ι → ν → Except ε ι) (dir : ι) (name : ν) (new : ι) (e : ε) :
    Prop where
  same : ∀ node n, node ≠ new → ¬ (node = dir ∧ n = name) → step' node n = step node n
  before : step dir name = .error e
  after : step' dir name = .ok new
  fresh : ∀ node n, node ≠ new → step node n ≠ .ok new

/-- The walk takes the name in the place where it is new, and `back` is what is left then. -/
def Takes (step : ι → ν → Except ε ι) (dir : ι) (name : ν) (node : ι) (names back : List ν) :
    Prop :=
  ∃ front, names = front ++ name :: back ∧ follow step node front = .ok dir

/-- **A walk is what it was, or it takes the new name.** -/
theorem Extends.follow (h : Extends step step' dir name new e) :
    ∀ {names : List ν} {node : ι}, node ≠ new →
      NameWalk.follow step' node names = NameWalk.follow step node names ∨
        ∃ back, Takes step dir name node names back := by
  intro names
  induction names with
  | nil => intro node _; exact .inl rfl
  | cons n rest ih =>
      intro node hnode
      by_cases htake : node = dir ∧ n = name
      · obtain ⟨rfl, rfl⟩ := htake
        exact .inr ⟨rest, [], rfl, rfl⟩
      rw [follow_cons, follow_cons, h.same node n hnode htake]
      cases hstep : step node n with
      | error e => exact .inl rfl
      | ok next =>
          have hnext : next ≠ new := fun hnew => h.fresh node n hnode (hnew ▸ hstep)
          rcases ih hnext with hsame | ⟨back, front, rfl, hfront⟩
          · exact .inl hsame
          · refine .inr ⟨back, n :: front, rfl, ?_⟩
            rw [follow_cons, hstep]
            exact hfront

/-- A walk that got somewhere gets there still. -/
theorem Extends.follow_ok (h : Extends step step' dir name new e) :
    ∀ {names : List ν} {node last : ι}, node ≠ new → NameWalk.follow step node names = .ok last →
      NameWalk.follow step' node names = .ok last := by
  intro names
  induction names with
  | nil => intro node last _ hlast; exact hlast
  | cons n rest ih =>
      intro node last hnode hlast
      have htake : ¬ (node = dir ∧ n = name) := by
        rintro ⟨rfl, rfl⟩
        rw [follow_cons, h.before] at hlast
        cases hlast
      rw [follow_cons] at hlast ⊢
      rw [h.same node n hnode htake]
      cases hstep : step node n with
      | error e =>
          rw [hstep] at hlast
          cases hlast
      | ok next =>
          rw [hstep] at hlast
          exact ih (fun hnew => h.fresh node n hnode (hnew ▸ hstep)) hlast

/-- A walk that takes the new name failed there before. -/
theorem Extends.before_takes (h : Extends step step' dir name new e) {names back : List ν}
    (htakes : Takes step dir name node names back) :
    NameWalk.follow step node names = .error e := by
  obtain ⟨front, rfl, hfront⟩ := htakes
  rw [follow_append, hfront]
  show NameWalk.follow step dir (name :: back) = .error e
  rw [follow_cons, h.before]
  rfl

/-- Now it goes on at the new node. -/
theorem Extends.follow_takes (h : Extends step step' dir name new e) {names back : List ν}
    (hnode : node ≠ new) (htakes : Takes step dir name node names back) :
    NameWalk.follow step' node names = NameWalk.follow step' new back := by
  obtain ⟨front, rfl, hfront⟩ := htakes
  rw [follow_append, h.follow_ok hnode hfront]
  show NameWalk.follow step' dir (name :: back) = _
  rw [follow_cons, h.after]
  rfl

end NameWalk
