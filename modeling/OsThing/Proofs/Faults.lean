/-
When the faults of tasks bring down the kernel.

`isr_error_count` is a counter that leaks: a fault adds two, and a switch takes one away as long
as there is one.  So what it holds is said by the worst of the last stretches of the run, and a
fault is the end of the kernel if there is a stretch up to it in which twice the number of the
faults is eight more than the number of the switches: the fault itself makes the ten full.

A task without a handler for the signal is removed, but it goes on running.  It faults again,
and nothing in between takes an error back.
-/
import OsThing.Lib.Leaky
import OsThing.Lib.Runs
import OsThing.Task.Faults

namespace OsThing.Sched

open Leaky Runs

/-- The counted switch is the switch. -/
theorem switchTask_kernel (s : Counted) : s.switchTask.map Counted.kernel = s.kernel.switchTask := by
  unfold Counted.switchTask Kernel.chosen Kernel.switchTask
  simp only [Option.map_map]
  rfl

/-- The switch that comes next delivers no signal, so it comes back. -/
def ComesBack (k : Kernel) : Prop := ∀ k' ∈ k.chosen, k'.pendingHandler = 0

instance (k : Kernel) : Decidable (ComesBack k) := inferInstanceAs (Decidable (∀ _ ∈ _, _))

/-- What an event adds to the count. -/
def change (s : Counted) : FaultEvent → Int
  | .fault _ => 2
  | .sched .switchTask => if ComesBack s.kernel then -1 else 0
  | .sched _ => 0

/-- The changes of a run. -/
def changes : Counted → List FaultEvent → List Int
  | _, [] => []
  | s, e :: rest => change s e :: (faultStep s e).elim [] fun s' => changes s' rest

theorem signalBadTask_goes {s s' : Counted} {signal : Nat}
    (h : s.signalBadTask signal = some (.goes s')) : s'.errors = s.errors + 2 := by
  unfold Counted.signalBadTask at h
  dsimp only at h
  split at h
  · cases h
  · split at h
    · cases h
    · obtain ⟨⟨_, k⟩, -, hgoes⟩ := Option.map_eq_some_iff.mp h
      cases hgoes
      rfl

theorem switchTask_errors {s s' : Counted} (h : s.switchTask = some s') :
    s'.errors = ((s.errors : Int) + change s (.sched .switchTask)).toNat := by
  obtain ⟨k, hchosen, rfl⟩ := Option.map_eq_some_iff.mp h
  have hback : ComesBack s.kernel ↔ k.pendingHandler = 0 := by simp [ComesBack, hchosen]
  show (if k.pendingHandler ≠ 0 then s.errors else s.errors - 1) =
    ((s.errors : Int) + if ComesBack s.kernel then -1 else 0).toNat
  by_cases hpending : k.pendingHandler = 0
  · rw [if_neg (not_not.mpr hpending), if_pos (hback.mpr hpending)]
    omega
  · rw [if_pos hpending, if_neg (mt hback.mp hpending)]
    omega

/-- **A step changes the count by what the event adds**, but not below zero. -/
theorem faultStep_errors {s s' : Counted} {e : FaultEvent} (h : faultStep s e = some s') :
    s'.errors = ((s.errors : Int) + change s e).toNat := by
  cases e with
  | fault signal =>
      obtain ⟨outcome, hbad, hstate⟩ := Option.bind_eq_some_iff.mp h
      cases outcome with
      | panics => cases hstate
      | goes s₁ =>
          obtain rfl := Option.some.inj hstate
          rw [signalBadTask_goes hbad]
          rfl
  | sched e =>
      by_cases hswitch : e = .switchTask
      · rw [hswitch] at h ⊢
        exact switchTask_errors h
      · have hsame : (eventStep s.kernel e).map (fun k => { s with kernel := k }) = some s' := by
          cases e <;> first | exact absurd rfl hswitch | exact h
        obtain ⟨k, -, rfl⟩ := Option.map_eq_some_iff.mp hsame
        have hnone : change s (.sched e) = 0 := by
          cases e <;> first | exact absurd rfl hswitch | rfl
        rw [hnone]
        exact (Int.toNat_natCast _).symm.trans (by rw [Int.add_zero])

/-- **The count after a run is the level of its changes.** -/
theorem run_errors : ∀ (es : List FaultEvent) (s s' : Counted), runAll faultStep s es = some s' →
    s'.errors = level s.errors (changes s es) := by
  intro es
  induction es with
  | nil =>
      intro s s' h
      obtain rfl := Option.some.inj h
      rfl
  | cons e rest ih =>
      intro s s' h
      obtain ⟨s₁, hstep, hrest⟩ := Option.bind_eq_some_iff.mp h
      rw [ih s₁ s' hrest, faultStep_errors hstep, changes, hstep]
      rfl

theorem panics_iff (s : Counted) (signal : Nat) : s.signalBadTask signal = some .panics ↔
    8 ≤ s.errors ∨ s.kernel.current.id = 1 := by
  unfold Counted.signalBadTask errorThreshold
  dsimp only
  by_cases hmany : s.errors + 2 ≥ 10
  · rw [if_pos hmany]
    exact ⟨fun _ => Or.inl (by omega), fun _ => rfl⟩
  · rw [if_neg hmany]
    by_cases hfirst : s.kernel.current.id = 1
    · rw [if_pos hfirst]
      exact ⟨fun _ => Or.inr hfirst, fun _ => rfl⟩
    · rw [if_neg hfirst]
      constructor
      · intro h
        obtain ⟨⟨_, k⟩, -, hgoes⟩ := Option.map_eq_some_iff.mp h
        cases hgoes
      · rintro (h | h)
        · omega
        · exact absurd h hfirst

/-- **A fault brings the kernel down just if it is one of the first thread, or if it comes at the
end of a stretch of the run with eight errors left**: two for every fault, less one for every
switch that came back. -/
theorem fault_panics_iff (dir readEip : Nat) (es : List FaultEvent) (s : Counted) (signal : Nat)
    (hrun : runAll faultStep (.boot dir readEip) es = some s) :
    s.signalBadTask signal = some .panics ↔
      s.kernel.current.id = 1 ∨
        ∃ stretch, stretch <:+ changes (.boot dir readEip) es ∧ 8 ≤ stretch.sum := by
  have herrors := run_errors es _ s hrun
  have hlevel := le_level_iff (changes (.boot dir readEip) es) 8
  rw [panics_iff, or_comm, ← hlevel, herrors]
  exact or_congr_right Int.ofNat_le.symm

/-- A process divides by zero, and goes on to do so. -/
def faultyRun : List FaultEvent :=
  [.sched (.createProcess 0x1000), .sched .switchTask, .fault 5, .fault 5, .fault 5, .fault 5]

theorem faultyRun_runs : (runAll faultStep (.boot 0 1) faultyRun).isSome = true := by
  decide +kernel

theorem faultyRun_changes : changes (.boot 0 1) faultyRun = [0, -1, 2, 2, 2, 2] := by
  decide +kernel

theorem fault_panics_iff_fifth : ∃ s, runAll faultStep (.boot 0 1) faultyRun = some s ∧
    s.signalBadTask 5 = some .panics := by
  obtain ⟨s, hs⟩ := Option.isSome_iff_exists.mp faultyRun_runs
  refine ⟨s, hs, (fault_panics_iff 0 1 faultyRun s 5 hs).mpr (Or.inr ⟨[2, 2, 2, 2], ?_, by decide⟩)⟩
  rw [faultyRun_changes]
  decide

end OsThing.Sched
