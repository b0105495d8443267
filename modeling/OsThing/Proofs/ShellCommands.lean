/-
When the built-in shell runs each command once.

A line runs no more functions than its first word has entries among the registered names, so
names that differ are enough.  What one start registers does; the second start registers all
of it once more.
-/
import OsThing.Lib.Runs
import OsThing.Sys.Kshell
import Mathlib.Data.List.Nodup
import Mathlib.Tactic.Common

namespace OsThing.Strings

/-- Strings that `strcmp` finds no difference between are equal. -/
theorem eq_of_strcmp {s₁ s₂ : List UInt8} (h₁ : s₁.length < 2 ^ 32) (h₂ : s₂.length < 2 ^ 32)
    (h : strcmp s₁ s₂ = 0) : s₁ = s₂ := by
  unfold strcmp at h
  by_cases hlen : UInt32.ofNat s₁.length = UInt32.ofNat s₂.length
  · have hlength : s₁.length = s₂.length := by
      have hnat := congrArg UInt32.toNat hlen
      rwa [UInt32.toNat_ofNat_of_lt' h₁, UInt32.toNat_ofNat_of_lt' h₂] at hnat
    rw [if_neg (not_not_intro hlen)] at h
    have hdiffer : (s₁.zip s₂).countP (fun p => p.1 != p.2) = 0 := by
      have hnat := congrArg (fun n => n.toUInt32.toNat) h
      have hle := List.countP_le_length (p := fun p : UInt8 × UInt8 => p.1 != p.2) (l := s₁.zip s₂)
      rw [List.length_zip] at hle
      exact (UInt32.toNat_ofNat_of_lt' (by change _ < 2 ^ 32; omega)).symm.trans hnat
    rw [List.countP_eq_zero] at hdiffer
    apply List.ext_getElem hlength
    intro i hi₁ hi₂
    have hi : i < (s₁.zip s₂).length := by
      rw [List.length_zip]
      omega
    simpa using hdiffer _ (List.getElem_mem hi)
  · rw [if_pos hlen] at h
    have hsub : UInt32.ofNat s₁.length - UInt32.ofNat s₂.length = 0 := congrArg Int32.toUInt32 h
    have hsum := congrArg (· + UInt32.ofNat s₂.length) hsub
    exact absurd (by simpa [UInt32.sub_add_cancel] using hsum) hlen

end OsThing.Strings

namespace OsThing.Kshell

open Runs Strings
open Shell (STR_LIMIT)

/-- The names that are registered, in their order. -/
def Registry.names (r : Registry) : List (List UInt8) :=
  (List.range r.cmdCount).filterMap fun j => (r.commands j).name

/-- Nothing is written past the table, no name is registered twice, and no line has run more
than one function. -/
structure RunsOnce (s : Console) : Prop where
  stores : ∀ i ∈ s.registry.stores, i < CMD_LIMIT
  names : s.registry.names.Nodup
  ran : ∀ functions ∈ s.ran, functions.length ≤ 1

/-- The prompt starts the shell only if it never did before. -/
def StartsOnce (s : Console) : ConsoleOp → Prop
  | .startShell _ => s.starts = 0
  | _ => True

/-- No name is as long as the counters of `strcmp` go. -/
def Registry.Short (r : Registry) : Prop :=
  ∀ j name, (r.commands j).name = some name → name.length < 2 ^ 32

/-! ### A line -/

theorem length_filterMap_le_count {α β γ : Type} [BEq γ] [LawfulBEq γ] {f : α → Option β}
    {g : α → Option γ} {c : γ} (h : ∀ a b, f a = some b → g a = some c) :
    ∀ l : List α, (l.filterMap f).length ≤ (l.filterMap g).count c := by
  intro l
  induction l with
  | nil => simp
  | cons a l ih =>
      cases hf : f a with
      | none =>
          rw [List.filterMap_cons_none hf]
          cases hg : g a with
          | none => rwa [List.filterMap_cons_none hg]
          | some c' =>
              rw [List.filterMap_cons_some hg]
              exact Nat.le_trans ih List.count_le_count_cons
      | some b =>
          rw [List.filterMap_cons_some hf, List.filterMap_cons_some (h a b hf), List.length_cons,
            List.count_cons_self]
          exact Nat.succ_le_succ ih

/-- A command that is called has the name that was entered. -/
theorem ShellCmd.called_name {c : ShellCmd} {word : List UInt8} {function : ShellFunc}
    (hword : word.length < 2 ^ 32) (hname : ∀ name, c.name = some name → name.length < 2 ^ 32)
    (h : c.called word = some function) : c.name = some word := by
  unfold called at h
  split at h
  next name _ hsome _ =>
    by_cases hcmp : strcmp word name = 0
    · rw [eq_of_strcmp hword (hname name hsome) hcmp]
      exact hsome
    · simp [hcmp] at h
  next => cases h

/-- If no name is there twice, a line runs one function at most. -/
theorem Registry.findCommand_le {r : Registry} {word : List UInt8} (hnames : r.names.Nodup)
    (hshort : r.Short) (hword : word.length ≤ STR_LIMIT) : (r.findCommand word).length ≤ 1 := by
  have hlength : word.length < 2 ^ 32 := Nat.lt_of_le_of_lt hword (by decide)
  have hcount := length_filterMap_le_count
    (fun j _ h => ShellCmd.called_name hlength (hshort j) h) (List.range r.cmdCount)
  exact Nat.le_trans hcount (List.nodup_iff_count_le_one.mp hnames word)

/-! ### A step -/

/-- A start registers commands, a line runs some, and nothing else does. -/
theorem consoleStep_cases {s s' : Console} {op : ConsoleOp} (hstep : consoleStep s op = some s') :
    (∃ opened mode, op = .startShell opened ∧
      s' = ⟨initShell s.registry, mode, s.starts + 1, s.ran⟩) ∨
    (∃ word mode, op = .line word ∧ word.length ≤ STR_LIMIT ∧
      s' = ⟨s.registry, mode, s.starts, s.ran ++ [s.registry.findCommand word]⟩) ∨
    ∃ mode, s' = { s with mode := mode } := by
  cases op with
  | startShell opened =>
      simp only [consoleStep, Option.ite_none_right_eq_some, Option.some.injEq] at hstep
      exact Or.inl ⟨opened, _, rfl, hstep.2.symm⟩
  | execute opened =>
      simp only [consoleStep, Option.ite_none_right_eq_some, Option.some.injEq] at hstep
      exact Or.inr (Or.inr ⟨_, hstep.2.symm⟩)
  | line word =>
      simp only [consoleStep, Option.ite_none_right_eq_some, Option.some.injEq] at hstep
      exact Or.inr (Or.inl ⟨word, _, rfl, hstep.1.2.1, hstep.2.symm⟩)
  | readFails =>
      simp only [consoleStep, Option.ite_none_right_eq_some, Option.some.injEq] at hstep
      exact Or.inr (Or.inr ⟨_, hstep.2.symm⟩)

/-! ### A start -/

/-- What is registered after the first start of the shell. -/
abbrev firstStart : Registry := initShell .empty

theorem Registry.Short.register {r : Registry} (h : r.Short) {name : List UInt8}
    (hname : name.length < 2 ^ 32) (function : ShellFunc) :
    (r.registerShellFunc name function).Short := by
  intro j name' hj
  by_cases hlast : j = r.cmdCount
  · simp only [registerShellFunc, hlast, Function.update_self] at hj
    exact Option.some.inj hj ▸ hname
  · simp only [registerShellFunc, Function.update_of_ne hlast] at hj
    exact h j name' hj

theorem builtins_short : ∀ p ∈ builtins, p.1.length < 2 ^ 32 := by decide

theorem Registry.Short.initShell {r : Registry} (h : r.Short) : (initShell r).Short :=
  List.foldlRecOn builtins _ h fun _ hr p hp => hr.register (builtins_short p hp) p.2

theorem empty_short : Registry.empty.Short := by
  intro j name h
  cases h

theorem firstStart_stores : ∀ i ∈ firstStart.stores, i < CMD_LIMIT := by decide

theorem firstStart_names : firstStart.names.Nodup := by decide

/-- The names of the second start are those of the first one. -/
theorem secondStart_names : ¬ (initShell firstStart).names.Nodup := by decide

/-- Before the first start nothing is registered, and after it each command once. -/
structure Started (s : Console) : Prop where
  registry : s.registry = if s.starts = 0 then .empty else firstStart
  ran : ∀ functions ∈ s.ran, functions.length ≤ 1

namespace Started

variable {s s' : Console}

/-- What is registered is nothing, or what one start registers. -/
theorem registry_cases (h : Started s) (P : Registry → Prop) (hempty : P .empty)
    (hfirst : P firstStart) : P s.registry := by
  rw [h.registry]
  by_cases hzero : s.starts = 0
  · rw [if_pos hzero]
    exact hempty
  · rw [if_neg hzero]
    exact hfirst

theorem names (h : Started s) : s.registry.names.Nodup :=
  h.registry_cases (fun r => r.names.Nodup) List.nodup_nil firstStart_names

theorem short (h : Started s) : s.registry.Short :=
  h.registry_cases Registry.Short empty_short empty_short.initShell

theorem runsOnce (h : Started s) : RunsOnce s := by
  refine ⟨?_, h.names, h.ran⟩
  apply h.registry_cases fun r => ∀ i ∈ r.stores, i < CMD_LIMIT
  · intro i hi
    cases hi
  · exact firstStart_stores

/-- One step, if it is not a further start. -/
theorem step {op : ConsoleOp} (h : Started s) (hstep : consoleStep s op = some s')
    (honce : StartsOnce s op) : Started s' := by
  rcases consoleStep_cases hstep with ⟨opened, mode, rfl, rfl⟩ | ⟨word, mode, rfl, hword, rfl⟩ |
    ⟨mode, rfl⟩
  · have hfirst : s.starts = 0 := honce
    refine ⟨?_, h.ran⟩
    show initShell s.registry = if s.starts + 1 = 0 then .empty else firstStart
    rw [h.registry, if_pos hfirst, if_neg (Nat.succ_ne_zero _)]
  · refine ⟨h.registry, ?_⟩
    intro functions hmem
    rcases List.mem_append.mp hmem with hold | hnew
    · exact h.ran functions hold
    · rw [List.mem_singleton.mp hnew]
      exact Registry.findCommand_le h.names h.short hword
  · exact ⟨h.registry, h.ran⟩

/-- A further start registers every name again. -/
theorem startsOnce {op : ConsoleOp} (h : Started s) (hstep : consoleStep s op = some s')
    (hruns : RunsOnce s') : StartsOnce s op := by
  cases op with
  | startShell opened =>
      by_contra hzero
      simp only [consoleStep, Option.ite_none_right_eq_some, Option.some.injEq] at hstep
      obtain ⟨-, rfl⟩ := hstep
      have hnames := hruns.names
      rw [show s.registry = firstStart from h.registry.trans (if_neg hzero)] at hnames
      exact secondStart_names hnames
  | execute opened => trivial
  | line word => trivial
  | readFails => trivial

end Started

theorem started_boot : Started .boot := by
  refine ⟨rfl, ?_⟩
  intro functions h
  cases h

/--
**Starting the shell once is what it takes.**  In a run nothing is written past the table of
commands, no name is registered twice and no line runs two functions, in any of its states,
exactly if the prompt starts the shell at most once in it.
-/
theorem commands_run_once_iff (ops : List ConsoleOp) :
    Always consoleStep RunsOnce .boot ops ↔
      EveryStep consoleStep (fun s op _ => StartsOnce s op) .boot ops :=
  always_iff (fun _ h => h.runsOnce) (fun _ _ _ h hstep honce => h.step hstep honce)
    (fun _ _ _ h hstep hruns => h.startsOnce hstep hruns) started_boot

/-- **After the second start `ls` runs twice.** -/
theorem second_start_runs_twice :
    ¬ ∀ ops : List ConsoleOp, Always consoleStep RunsOnce .boot ops := by
  intro h
  have hlast : ∃ s, runAll consoleStep .boot
      [.startShell true, .readFails, .startShell true, .line (bytes ['l', 's'])] = some s ∧
      s.ran = [[.list, .list]] := ⟨_, rfl, by decide⟩
  obtain ⟨s, hrun, hran⟩ := hlast
  have htwice := ((h _).last hrun).ran [.list, .list] (by rw [hran]; exact List.mem_singleton_self _)
  exact absurd htwice (by decide)

end OsThing.Kshell
