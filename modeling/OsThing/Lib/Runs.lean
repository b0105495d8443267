/-
Runs of a labelled machine, and what it takes to say something about all of them.

A machine is a function `step : σ → ι → Option σ`: the label `i` names one call
with its arguments, and `none` says that the call cannot be made in `s` or never
comes back.  A run is a list of labels, tried one after another; it ends at the
first label that gives `none`.

`Always P` is a property of every state on the way, `EveryStep C` one of every
step taken, and `EveryTry C` one of every label where it is tried.  The rules below
are how every result about a run is proved: an invariant that the good steps keep,
and, where the good steps are exactly the ones after which `P` still holds, an
equivalence between the two.
-/
import Mathlib.Logic.Basic

namespace Runs

variable {σ ι : Type*} (step : σ → ι → Option σ)

/-- `P` holds in every state the run of the labels from `s` passes through. -/
def Always (P : σ → Prop) : σ → List ι → Prop
  | s, [] => P s
  | s, i :: rest => P s ∧ ∀ s', step s i = some s' → Always P s' rest

/-- Every step the run of the labels from `s` takes satisfies `C`. -/
def EveryStep (C : σ → ι → σ → Prop) : σ → List ι → Prop
  | _, [] => True
  | s, i :: rest => ∀ s', step s i = some s' → C s i s' ∧ EveryStep C s' rest

/-- Every label satisfies `C` in the state where the run tries it, taken or not. -/
def EveryTry (C : σ → ι → Prop) : σ → List ι → Prop
  | _, [] => True
  | s, i :: rest => C s i ∧ ∀ s', step s i = some s' → EveryTry C s' rest

/-- The state at the end of a run of which every step can be taken. -/
def runAll : σ → List ι → Option σ
  | s, [] => some s
  | s, i :: rest => (step s i).bind fun s' => runAll s' rest

variable {step}

theorem Always.here {P : σ → Prop} {s : σ} {is : List ι} (h : Always step P s is) : P s := by
  cases is with
  | nil => exact h
  | cons i rest => exact h.1

theorem Always.last {P : σ → Prop} :
    ∀ {is : List ι} {s s' : σ}, Always step P s is → runAll step s is = some s' → P s' := by
  intro is
  induction is with
  | nil =>
      intro s s' h hrun
      obtain rfl := Option.some.inj hrun
      exact h
  | cons i rest ih =>
      intro s s' h hrun
      obtain ⟨s₁, hstep, hrest⟩ := Option.bind_eq_some_iff.mp hrun
      exact ih (h.2 s₁ hstep) hrest

theorem EveryStep.last {C : σ → ι → σ → Prop} {i : ι} {s₁ s₂ : σ} :
    ∀ {is : List ι} {s : σ}, EveryStep step C s (is ++ [i]) → runAll step s is = some s₁ →
      step s₁ i = some s₂ → C s₁ i s₂ := by
  intro is
  induction is with
  | nil =>
      intro s h hrun hstep
      obtain rfl := Option.some.inj hrun
      exact (h s₂ hstep).1
  | cons j rest ih =>
      intro s h hrun hstep
      obtain ⟨s', hs', hrest⟩ := Option.bind_eq_some_iff.mp hrun
      exact ih (h s' hs').2 hrest hstep

theorem runAll_append {is js : List ι} :
    ∀ {s : σ}, runAll step s (is ++ js) = (runAll step s is).bind fun s' => runAll step s' js := by
  induction is with
  | nil => intro s; rfl
  | cons i rest ih =>
      intro s
      show (step s i).bind _ = ((step s i).bind _).bind _
      rw [Option.bind_assoc]
      exact congrArg _ (funext fun s' => ih)

theorem Always.mono {P Q : σ → Prop} (hPQ : ∀ s, P s → Q s) :
    ∀ {is : List ι} {s : σ}, Always step P s is → Always step Q s is := by
  intro is
  induction is with
  | nil => intro s h; exact hPQ s h
  | cons i rest ih => intro s h; exact ⟨hPQ s h.1, fun s' hs => ih (h.2 s' hs)⟩

theorem everyStep_true : ∀ {is : List ι} (s : σ), EveryStep step (fun _ _ _ => True) s is := by
  intro is
  induction is with
  | nil => intro s; exact trivial
  | cons i rest ih => intro s s' _; exact ⟨trivial, ih s'⟩

theorem everyTry_and {C D : σ → ι → Prop} : ∀ {is : List ι} {s : σ},
    EveryTry step (fun s i => C s i ∧ D s i) s is ↔ EveryTry step C s is ∧ EveryTry step D s is := by
  intro is
  induction is with
  | nil => intro s; exact (and_true True).symm.to_iff
  | cons i rest ih =>
      intro s
      constructor
      · rintro ⟨⟨hc, hd⟩, hrest⟩
        exact ⟨⟨hc, fun s' hs => (ih.mp (hrest s' hs)).1⟩, hd, fun s' hs => (ih.mp (hrest s' hs)).2⟩
      · rintro ⟨⟨hc, hcs⟩, hd, hds⟩
        exact ⟨⟨hc, hd⟩, fun s' hs => ih.mpr ⟨hcs s' hs, hds s' hs⟩⟩

/-- A condition that can be decided of each step can be decided of the steps of a run. -/
instance decidableEveryStep {C : σ → ι → σ → Prop} [∀ s i s', Decidable (C s i s')] :
    ∀ (s : σ) (is : List ι), Decidable (EveryStep step C s is)
  | _, [] => isTrue trivial
  | s, i :: rest =>
      match h : step s i with
      | none => isTrue fun _ hs => nomatch h.symm.trans hs
      | some s₁ =>
          have := decidableEveryStep (C := C) s₁ rest
          decidable_of_iff (C s i s₁ ∧ EveryStep step C s₁ rest)
            ⟨fun hc _ hs => Option.some.inj (h.symm.trans hs) ▸ hc, fun hall => hall s₁ h⟩

/-- What holds of every label that is tried holds of every step that is taken. -/
theorem EveryTry.everyStep {C : σ → ι → Prop} :
    ∀ {is : List ι} {s : σ}, EveryTry step C s is → EveryStep step (fun s i _ => C s i) s is := by
  intro is
  induction is with
  | nil => intro s _; exact trivial
  | cons i rest ih => intro s h s' hstep; exact ⟨h.1, ih (h.2 s' hstep)⟩

theorem EveryTry.last {C : σ → ι → Prop} {i : ι} {s₁ : σ} :
    ∀ {is : List ι} {s : σ}, EveryTry step C s (is ++ [i]) → runAll step s is = some s₁ →
      C s₁ i := by
  intro is
  induction is with
  | nil =>
      intro s h hrun
      obtain rfl := Option.some.inj hrun
      exact h.1
  | cons j rest ih =>
      intro s h hrun
      obtain ⟨s', hs', hrest⟩ := Option.bind_eq_some_iff.mp hrun
      exact ih (h.2 s' hs') hrest

/-- An invariant the good steps keep holds all along a run of good steps. -/
theorem always_of_inv {Inv : σ → Prop} {C : σ → ι → σ → Prop}
    (hkeep : ∀ s i s', Inv s → step s i = some s' → C s i s' → Inv s') :
    ∀ {is : List ι} {s : σ}, Inv s → EveryStep step C s is → Always step Inv s is := by
  intro is
  induction is with
  | nil => intro s hs _; exact hs
  | cons i rest ih =>
      intro s hs hall
      refine ⟨hs, fun s' hstep => ?_⟩
      obtain ⟨hc, hrest⟩ := hall s' hstep
      exact ih (hkeep s i s' hs hstep hc) hrest

/-- The same for what is tried while it holds. -/
theorem everyTry_of_inv {Inv : σ → Prop} {C D : σ → ι → Prop}
    (hkeep : ∀ s i s', Inv s → step s i = some s' → C s i → Inv s')
    (hgood : ∀ s i, Inv s → C s i → D s i) :
    ∀ {is : List ι} {s : σ}, Inv s → EveryTry step C s is → EveryTry step D s is := by
  intro is
  induction is with
  | nil => intro s _ _; exact trivial
  | cons i rest ih =>
      intro s hs hall
      exact ⟨hgood s i hs hall.1, fun s' hstep => ih (hkeep s i s' hs hstep hall.1) (hall.2 s' hstep)⟩

/-- A condition on labels alone. -/
theorem everyTry_of_mem {C : ι → Prop} :
    ∀ {is : List ι} (s : σ), (∀ i ∈ is, C i) → EveryTry step (fun _ i => C i) s is := by
  intro is
  induction is with
  | nil => intro s _; exact trivial
  | cons i rest ih =>
      intro s h
      exact ⟨h i List.mem_cons_self, fun s' _ => ih s' fun j hj => h j (List.mem_cons_of_mem i hj)⟩

/-- What every step keeps holds at the end of a run. -/
theorem runAll_keeps {Inv : σ → Prop} (hkeep : ∀ s i s', Inv s → step s i = some s' → Inv s')
    {s s' : σ} {is : List ι} (hs : Inv s) (h : runAll step s is = some s') : Inv s' :=
  (always_of_inv (fun s i s' hs hstep _ => hkeep s i s' hs hstep) hs (everyStep_true s)).last h

/-- An invariant that the good steps keep, and what they do while it holds. -/
theorem everyStep_of_inv {Inv : σ → Prop} {C D : σ → ι → σ → Prop}
    (hkeep : ∀ s i s', Inv s → step s i = some s' → C s i s' → Inv s')
    (hgood : ∀ s i s', Inv s → step s i = some s' → C s i s' → D s i s') :
    ∀ {is : List ι} {s : σ}, Inv s → EveryStep step C s is → EveryStep step D s is := by
  intro is
  induction is with
  | nil => intro s _ _; exact trivial
  | cons i rest ih =>
      intro s hs hall s' hstep
      obtain ⟨hc, hrest⟩ := hall s' hstep
      exact ⟨hgood s i s' hs hstep hc, ih (hkeep s i s' hs hstep hc) hrest⟩

/--
**A condition on steps that is exact.**  If good steps keep an invariant that gives
`P`, and a step after which `P` still holds can only have been a good one, then the
runs all of whose states satisfy `P` are the runs all of whose steps are good.
-/
theorem always_iff {Inv P : σ → Prop} {C : σ → ι → σ → Prop}
    (hP : ∀ s, Inv s → P s)
    (hkeep : ∀ s i s', Inv s → step s i = some s' → C s i s' → Inv s')
    (hexact : ∀ s i s', Inv s → step s i = some s' → P s' → C s i s') :
    ∀ {is : List ι} {s : σ}, Inv s → (Always step P s is ↔ EveryStep step C s is) := by
  intro is
  induction is with
  | nil => intro s hs; exact iff_of_true (hP s hs) trivial
  | cons i rest ih =>
      intro s hs
      refine ⟨fun h s' hstep => ?_, fun h => ⟨hP s hs, fun s' hstep => ?_⟩⟩
      · have hc : C s i s' := hexact s i s' hs hstep (h.2 s' hstep).here
        exact ⟨hc, (ih (hkeep s i s' hs hstep hc)).mp (h.2 s' hstep)⟩
      · obtain ⟨hc, hrest⟩ := h s' hstep
        exact (ih (hkeep s i s' hs hstep hc)).mpr hrest

/-- Two conditions on tries that say the same while an invariant holds that they keep. -/
theorem everyTry_iff {Inv : σ → Prop} {C D : σ → ι → Prop}
    (hkeep : ∀ s i s', Inv s → step s i = some s' → C s i → Inv s')
    (hexact : ∀ s i, Inv s → (D s i ↔ C s i)) :
    ∀ {is : List ι} {s : σ}, Inv s → (EveryTry step D s is ↔ EveryTry step C s is) := by
  intro is
  induction is with
  | nil => intro s _; exact Iff.rfl
  | cons i rest ih =>
      intro s hs
      refine ⟨fun h => ?_, fun h => ?_⟩
      · have hc : C s i := (hexact s i hs).mp h.1
        exact ⟨hc, fun s' hstep => (ih (hkeep s i s' hs hstep hc)).mp (h.2 s' hstep)⟩
      · exact ⟨(hexact s i hs).mpr h.1, fun s' hstep =>
          (ih (hkeep s i s' hs hstep h.1)).mpr (h.2 s' hstep)⟩

/--
**A condition on tries that is exact.**  If steps that meet `C` keep an invariant that
gives `P`, and `D` says the same as `C` while the invariant holds, then `C` in every try is
what it takes for `P` and `D` in the whole run.
-/
theorem always_everyTry_iff {Inv P : σ → Prop} {C D : σ → ι → Prop}
    (hP : ∀ s, Inv s → P s)
    (hkeep : ∀ s i s', Inv s → step s i = some s' → C s i → Inv s')
    (hexact : ∀ s i, Inv s → (D s i ↔ C s i)) {is : List ι} {s : σ} (hs : Inv s) :
    Always step P s is ∧ EveryTry step D s is ↔ EveryTry step C s is := by
  have htries : EveryTry step D s is ↔ EveryTry step C s is := everyTry_iff hkeep hexact hs
  refine ⟨fun h => htries.mp h.2, fun h => ⟨?_, htries.mpr h⟩⟩
  exact (always_of_inv hkeep hs h.everyStep).mono hP

/-! ### Two runs in lock step -/

section Outputs

variable {ο : Type*} (call : σ → ι → Option (ο × σ))

/-- What the calls of a run return, up to the first one that does not. -/
def outputs : σ → List ι → List ο
  | _, [] => []
  | s, i :: rest => (call s i).elim [] fun r => r.1 :: outputs r.2 rest

variable {call}

theorem rel_map {α β γ δ : Type*} {R : α → β → Prop} {S : γ → δ → Prop} {f : α → γ} {g : β → δ}
    (hfg : ∀ a b, R a b → S (f a) (g b)) {x : Option α} {y : Option β} (h : Option.Rel R x y) :
    Option.Rel S (x.map f) (y.map g) := by
  cases h with
  | none => exact .none
  | some hab => exact .some (hfg _ _ hab)

/-- States from which every call returns the same, in states that are alike again, cannot be
told apart by any run. -/
theorem outputs_eq {R : σ → σ → Prop}
    (hcall : ∀ s t i, R s t → Option.Rel (fun a b => a.1 = b.1 ∧ R a.2 b.2) (call s i) (call t i)) :
    ∀ {is : List ι} {s t : σ}, R s t → outputs call s is = outputs call t is := by
  intro is
  induction is with
  | nil => intro s t _; rfl
  | cons i rest ih =>
      intro s t hst
      have hrel := hcall s t i hst
      rw [outputs, outputs]
      cases hs : call s i with
      | none =>
          rw [hs] at hrel
          cases ht : call t i with
          | none => rfl
          | some b => rw [ht] at hrel; cases hrel
      | some a =>
          rw [hs] at hrel
          cases ht : call t i with
          | none => rw [ht] at hrel; cases hrel
          | some b =>
              rw [ht] at hrel
              obtain ⟨hout, hstate⟩ : a.1 = b.1 ∧ R a.2 b.2 := by cases hrel; assumption
              rw [Option.elim_some, Option.elim_some, hout, ih hstate]

end Outputs

end Runs
