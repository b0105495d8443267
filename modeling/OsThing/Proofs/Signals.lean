/-
Signals, from the time they are queued to the return of their handler.

A signal is only queued for a task that has a handler for it, and a switch that selects the
task delivers it.  The task is then where `switch_task` saved it, and `sigreturn` goes back
there: what it restores is written over by its own switch, but with the address inside
`switch_task` at which every task goes on that has run before.

Two things can come in between.  Another signal can be queued while the handler runs, and
the next switch delivers that one first.  And the handler can clear the handler of the
queued signal, which then is never delivered, and keeps all others out.
-/
import OsThing.Proofs.Events

namespace OsThing.Sched

open Chain Runs

/-! ### Where a task goes on -/

/-- A task with a handler has run, and goes on where `switch_task` saved it. -/
def HandlersRan (k : Kernel) : Prop :=
  ∀ t < k.count, t ≠ k.currentTask → ∀ signal, (k.task t).sighandle signal ≠ 0 →
    (k.task t).eip = k.readEip

/-- The same of one task, whether it still has a handler or not. -/
def Ran (t : Nat) (k : Kernel) : Prop :=
  t < k.count ∧ (t ≠ k.currentTask → (k.task t).eip = k.readEip)

/-- A task that is not running is where it was last saved, with the handlers it had. -/
theorem eventStep_away {k k' : Kernel} {e : SchedEvent} {t : Nat} (h : eventStep k e = some k')
    (ht : t ≠ k'.currentTask) (hold : t ≠ k.count) :
    (k'.task t).eip = (saved k t).eip ∧ (k'.task t).sighandle = (k.task t).sighandle ∧
      k'.readEip = k.readEip := by
  have hsaved : t ≠ k.currentTask → (saved k t).eip = (k.task t).eip := fun hne =>
    congrArg Control.eip (if_neg hne)
  cases eventStep_effect h with
  | tick => exact ⟨(hsaved ht).symm, rfl, rfl⟩
  | switch hswitch =>
      have hs := switchTask_switched hswitch
      have hcontrol := (hs.others t ht).trans (charged_eq k t)
      exact ⟨congrArg Control.eip hcontrol, congrArg Control.sighandle hcontrol, hs.readEip⟩
  | add function _ hadd =>
      have hcontrol := hadd.others t hold
      rw [hadd.currentTask] at ht
      exact ⟨(congrArg Control.eip hcontrol).trans (hsaved ht).symm,
        congrArg Control.sighandle hcontrol, hadd.readEip⟩
  | same _ hsame =>
      have hcontrol := hsame.control t
      rw [hsame.currentTask] at ht
      exact ⟨(congrArg Control.eip hcontrol).trans (hsaved ht).symm,
        congrArg Control.sighandle hcontrol, hsame.readEip⟩
  | post => exact ⟨(modify_keeps Task.eip rfl t).trans (hsaved ht).symm,
      modify_keeps Task.sighandle rfl t, rfl⟩
  | handle =>
      have htask := Kernel.modify_task_ne k ht
      exact ⟨(congrArg Task.eip (htask _)).trans (hsaved ht).symm,
        congrArg Task.sighandle (htask _), rfl⟩
  | sigreturn =>
      have htask := Kernel.modify_task_ne k ht
      exact ⟨(congrArg Task.eip (htask _)).trans (hsaved ht).symm,
        congrArg Task.sighandle (htask _), rfl⟩

theorem Ran.saved {t : Nat} {k : Kernel} (h : Ran t k) : (saved k t).eip = k.readEip := by
  unfold Sched.saved
  by_cases ht : t = k.currentTask
  · rw [if_pos ht]
  · rw [if_neg ht]
    exact h.2 ht

theorem HandlersRan.saved {k : Kernel} (h : HandlersRan k) {t signal : Nat} (hcount : t < k.count)
    (hhandler : (k.task t).sighandle signal ≠ 0) : (saved k t).eip = k.readEip := by
  unfold Sched.saved
  by_cases ht : t = k.currentTask
  · rw [if_pos ht]
  · rw [if_neg ht]
    exact h t hcount ht signal hhandler

/-- A task that an event adds has no handlers, and no signal. -/
theorem eventStep_new {k k' : Kernel} {e : SchedEvent} {t : Nat} (h : eventStep k e = some k')
    (ht : t < k'.count) :
    t < k.count ∨ t = k.count ∧ (k'.task t).sighandle = (fun _ => 0) ∧
      (k'.task t).sigQueued = false := by
  cases eventStep_effect h with
  | switch hswitch => exact .inl ((switchTask_switched hswitch).count ▸ ht)
  | add function _ hadd =>
      rcases Nat.lt_or_eq_of_le (Nat.le_of_lt_succ (hadd.count ▸ ht)) with hold | rfl
      · exact .inl hold
      · exact .inr ⟨rfl, congrArg Control.sighandle hadd.new, congrArg Control.sigQueued hadd.new⟩
  | same _ hsame => exact .inl (hsame.count ▸ ht)
  | tick => exact .inl ht
  | post => exact .inl ht
  | handle => exact .inl ht
  | sigreturn => exact .inl ht

theorem eventStep_handlersRan {k k' : Kernel} {e : SchedEvent} (hk : HandlersRan k)
    (h : eventStep k e = some k') : HandlersRan k' := by
  intro t hcount ht signal hhandler
  rcases eventStep_new h hcount with hold | ⟨-, hnone, -⟩
  · obtain ⟨heip, hsighandle, hreadEip⟩ := eventStep_away h ht (Nat.ne_of_lt hold)
    rw [hsighandle] at hhandler
    rw [heip, hreadEip]
    exact hk.saved hold hhandler
  · rw [hnone] at hhandler
    exact absurd rfl hhandler

theorem eventStep_count {k k' : Kernel} {e : SchedEvent} (h : eventStep k e = some k') :
    k.count ≤ k'.count ∧ k'.readEip = k.readEip := by
  cases eventStep_effect h with
  | switch hswitch =>
      have hs := switchTask_switched hswitch
      exact ⟨Nat.le_of_eq hs.count.symm, hs.readEip⟩
  | add function _ hadd => exact ⟨hadd.count ▸ Nat.le_succ _, hadd.readEip⟩
  | same _ hsame => exact ⟨Nat.le_of_eq hsame.count.symm, hsame.readEip⟩
  | tick => exact ⟨Nat.le_refl _, rfl⟩
  | post => exact ⟨Nat.le_refl _, rfl⟩
  | handle => exact ⟨Nat.le_refl _, rfl⟩
  | sigreturn => exact ⟨Nat.le_refl _, rfl⟩

theorem eventStep_ran {k k' : Kernel} {e : SchedEvent} {t : Nat} (hk : Ran t k)
    (h : eventStep k e = some k') : Ran t k' := by
  refine ⟨Nat.lt_of_lt_of_le hk.1 (eventStep_count h).1, fun ht => ?_⟩
  obtain ⟨heip, -, hreadEip⟩ := eventStep_away h ht (Nat.ne_of_lt hk.1)
  rw [heip, hreadEip]
  exact hk.saved

/-! ### In a handler, and out of it -/

/-- Only a switch that selects the task takes it into a handler. -/
theorem eventStep_inSig {k k' : Kernel} {e : SchedEvent} {t : Nat} (hcount : t < k.count)
    (hk : (k.task t).inSig = false) (h : eventStep k e = some k')
    (hselected : e = .switchTask → k'.currentTask ≠ t) : (k'.task t).inSig = false := by
  cases eventStep_effect h with
  | tick => exact hk
  | switch hswitch =>
      have hcontrol := (switchTask_switched hswitch).others t (hselected rfl).symm
      exact (congrArg Control.inSig (hcontrol.trans (charged_eq k t))).trans hk
  | add function _ hadd =>
      exact (congrArg Control.inSig (hadd.others t (Nat.ne_of_lt hcount))).trans hk
  | same _ hsame => exact (congrArg Control.inSig (hsame.control t)).trans hk
  | post => exact (modify_keeps Task.inSig rfl t).trans hk
  | handle => exact (modify_keeps Task.inSig rfl t).trans hk
  | sigreturn =>
      rcases eq_or_ne t k.currentTask with rfl | hne
      · exact congrArg Task.inSig (Kernel.modify_task_self k _ _)
      · exact (congrArg Task.inSig (Kernel.modify_task_ne k hne _)).trans hk

/--
A signal is delivered to task `t` by the switch in `before`; its handler runs, among others,
and returns with `sigreturn` in `returning`; and the first switch to select `t` again is the
one in `selecting`.
-/
structure SignalRound (t : Nat) where
  before : Kernel
  delivered : Kernel
  returning : Kernel
  returned : Kernel
  selecting : Kernel
  resumed : Kernel
  handler : List SchedEvent
  between : List SchedEvent
  due : HandlerDue (before.task t)
  delivery : before.switchTask = some delivered
  enters : delivered.currentTask = t
  handles : runAll eventStep delivered handler = some returning
  running : returning.currentTask = t
  returns : eventStep returning .sigreturn = some returned
  waits : runAll eventStep returned between = some selecting
  unselected : EveryStep eventStep (fun _ e k => e = .switchTask → k.currentTask ≠ t) returned
    between
  selection : selecting.switchTask = some resumed
  selects : resumed.currentTask = t

theorem started_due {k : Kernel} {t : Nat} : (started k t).Due ↔ HandlerDue (k.task t) := by
  unfold started
  rw [charged_eq]
  exact Iff.rfl

theorem started_handler (k : Kernel) (t : Nat) : (started k t).sighandle (started k t).signal =
    (k.task t).sighandle (k.task t).signal := by
  unfold started
  rw [charged_eq]
  rfl

/-- What a selection of a task that has run leads to. -/
theorem Ran.selected {k k' : Kernel} {t : Nat} (hk : Ran t k) (h : k.switchTask = some k')
    (ht : k'.currentTask = t) :
    (¬ HandlerDue (k.task t) → k'.pc = k.readEip ∧ (k'.task t).inSig = (k.task t).inSig) ∧
      (HandlerDue (k.task t) → k'.pc = (k.task t).sighandle (k.task t).signal ∧
        (k'.task t).inSig = true ∧ (k'.task t).oldEip = k.readEip) := by
  have hs := switchTask_switched h
  have hchosen := hs.chosen
  have hpc := hs.pc
  rw [ht] at hchosen hpc
  have heip : (started k t).eip = k.readEip :=
    (congrArg Control.eip (charged_eq k t)).trans hk.saved
  have hin : (started k t).inSig = (k.task t).inSig :=
    congrArg Control.inSig (charged_eq k t)
  unfold Control.enter at hchosen
  unfold Control.pc at hpc
  constructor
  · intro hdue
    rw [if_neg (mt started_due.mp hdue)] at hchosen hpc
    exact ⟨hpc.trans heip, (congrArg Control.inSig hchosen).trans hin⟩
  · intro hdue
    rw [if_pos (started_due.mpr hdue)] at hchosen hpc
    exact ⟨hpc.trans (started_handler k t), congrArg Control.inSig hchosen,
      (congrArg Control.oldEip hchosen).trans heip⟩

theorem sigreturn_inSig {k k' : Kernel} {t : Nat} (ht : k.currentTask = t)
    (h : eventStep k .sigreturn = some k') : (k'.task t).inSig = false := by
  subst ht
  rw [← Option.some.inj h]
  exact congrArg Task.inSig (Kernel.modify_task_self k _ _)

/-- `sigreturn` ends the signal, and the rest is a wait for the processor. -/
theorem SignalRound.waiting {t : Nat} (r : SignalRound t) (hcount : t < r.returning.count) :
    (r.selecting.task t).inSig = false := by
  have hreturned : (r.returned.task t).inSig = false := sigreturn_inSig r.running r.returns
  have hkeep : ∀ k e k', (t < k.count ∧ (k.task t).inSig = false) → eventStep k e = some k' →
      (e = .switchTask → k'.currentTask ≠ t) → t < k'.count ∧ (k'.task t).inSig = false :=
    fun k e k' hk hstep he => ⟨Nat.lt_of_lt_of_le hk.1 (eventStep_count hstep).1,
      eventStep_inSig hk.1 hk.2 hstep he⟩
  have hbound := Nat.lt_of_lt_of_le hcount (eventStep_count r.returns).1
  exact ((always_of_inv hkeep ⟨hbound, hreturned⟩ r.unselected).last r.waits).2

theorem SignalRound.readEip {t : Nat} (r : SignalRound t) :
    r.selecting.readEip = r.before.readEip := by
  have hkeep : ∀ k e k', k.readEip = r.before.readEip → eventStep k e = some k' →
      k'.readEip = r.before.readEip :=
    fun k e k' hk hstep => (eventStep_count hstep).2.trans hk
  have hreturning := runAll_keeps hkeep (switchTask_switched r.delivery).readEip r.handles
  exact runAll_keeps hkeep (hkeep _ _ _ hreturning r.returns) r.waits

/--
**`sigreturn` goes back to the interrupted point**, unless another signal is due by then,
which is delivered first, with the same point to go back to.
-/
theorem sigreturn_resumes (dir readEip : Nat) (tick : UInt32) (events : List SchedEvent) (t : Nat)
    (r : SignalRound t)
    (hrun : runAll eventStep (Clocked.boot dir readEip tick).kernel events = some r.before) :
    (¬ HandlerDue (r.selecting.task t) →
      r.resumed.pc = (saved r.before t).eip ∧ (r.resumed.task t).inSig = false) ∧
      (HandlerDue (r.selecting.task t) →
        r.resumed.pc = (r.selecting.task t).sighandle (r.selecting.task t).signal ∧
          (r.resumed.task t).inSig = true ∧
          (r.resumed.task t).oldEip = (saved r.before t).eip) := by
  have hboot : HandlersRan (Clocked.boot dir readEip tick).kernel := fun t _ _ _ h => absurd rfl h
  have hhandlers := runAll_keeps (fun _ _ _ => eventStep_handlersRan) hboot hrun
  have hpointers := runAll_keeps (fun _ _ _ => eventStep_pointers)
    (boot_pointers dir readEip tick) hrun
  have hdelivered := eventStep_pointers (e := .switchTask) hpointers r.delivery
  have hcount : t < r.before.count := by
    rw [← (switchTask_switched r.delivery).count]
    exact r.enters.symm.trans_lt hdelivered.current
  -- The point that was saved is the one all tasks that have run go on at.
  have hsaved : (saved r.before t).eip = r.selecting.readEip :=
    (hhandlers.saved hcount r.due.2.2).trans r.readEip.symm
  have hran : Ran t r.delivered :=
    ⟨r.enters.symm.trans_lt hdelivered.current, fun hne => absurd r.enters.symm hne⟩
  have hreturning := runAll_keeps (fun _ _ _ => eventStep_ran) hran r.handles
  have hselecting := runAll_keeps (fun _ _ _ => eventStep_ran)
    (eventStep_ran hreturning r.returns) r.waits
  obtain ⟨hresumed, hagain⟩ := hselecting.selected r.selection r.selects
  rw [hsaved]
  exact ⟨fun hdue => ⟨(hresumed hdue).1, (hresumed hdue).2.trans (r.waiting hreturning.1)⟩, hagain⟩

/-- One signal, of which the handler returns at once. -/
theorem sigreturn_resumes_once : ∃ r : SignalRound 0,
    runAll eventStep (Clocked.boot 0x1000 0x2000 0).kernel
      [.signal 5 0x8000, .postSignal 0 5, .sleep 1] = some r.before ∧
      r.resumed.pc = 0x2000 ∧ (r.resumed.task 0).inSig = false := by
  have hrun : ((runAll eventStep (Clocked.boot 0x1000 0x2000 0).kernel
      [.signal 5 0x8000, .postSignal 0 5, .sleep 1]).bind fun k => k.switchTask.bind fun k₁ =>
        (eventStep k₁ .sigreturn).bind fun k₂ => k₂.switchTask.map fun k₃ =>
          (decide (k.task 0).control.Due, (saved k 0).eip, k₁.currentTask, (k₂.task 0).sigQueued,
            k₃.currentTask)) = some (true, 0x2000, 0, false, 0) := by
    decide +kernel
  obtain ⟨k, hk, hrun⟩ := Option.bind_eq_some_iff.mp hrun
  obtain ⟨k₁, hk₁, hrun⟩ := Option.bind_eq_some_iff.mp hrun
  obtain ⟨k₂, hk₂, hrun⟩ := Option.bind_eq_some_iff.mp hrun
  obtain ⟨k₃, hk₃, hrun⟩ := Option.map_eq_some_iff.mp hrun
  simp only [Prod.mk.injEq, decide_eq_true_eq] at hrun
  obtain ⟨hdue, hsaved, hin, hdone, hin₃⟩ := hrun
  let r : SignalRound 0 := {
    before := k, delivered := k₁, returning := k₁, returned := k₂, selecting := k₂, resumed := k₃
    handler := [], between := [], due := hdue, delivery := hk₁, enters := hin, handles := rfl
    running := hin, returns := hk₂, waits := rfl, unselected := trivial, selection := hk₃
    selects := hin₃ }
  have hround := (sigreturn_resumes 0x1000 0x2000 0 _ 0 r hk).1 fun hdue =>
    Bool.false_ne_true (hdone.symm.trans hdue.1)
  exact ⟨r, hk, hround.1.trans hsaved, hround.2⟩

/-- The handler of signal 5 sends signal 6, and does not get back to where it was called. -/
theorem second_signal_first : ¬ ∀ (dir readEip : Nat) (tick : UInt32) (events : List SchedEvent)
    (t : Nat) (r : SignalRound t),
    runAll eventStep (Clocked.boot dir readEip tick).kernel events = some r.before →
      r.resumed.pc = (saved r.before t).eip ∧ (r.resumed.task t).inSig = false := by
  intro h
  have hrun : ((runAll eventStep (Clocked.boot 0x1000 0x2000 0).kernel
      [.signal 5 0x8000, .signal 6 0x9000, .postSignal 0 5, .sleep 1]).bind fun k =>
        k.switchTask.bind fun k₁ =>
        (runAll eventStep k₁ [.postSignal 0 6, .sleep 1, .switchTask]).bind fun k₂ =>
        (eventStep k₂ .sigreturn).bind fun k₃ => k₃.switchTask.map fun k₄ =>
          (decide (k.task 0).control.Due, k₁.currentTask, k₂.currentTask, k₄.currentTask,
            (k₄.task 0).inSig)) = some (true, 0, 0, 0, true) := by
    decide +kernel
  obtain ⟨k, hk, hrun⟩ := Option.bind_eq_some_iff.mp hrun
  obtain ⟨k₁, hk₁, hrun⟩ := Option.bind_eq_some_iff.mp hrun
  obtain ⟨k₂, hk₂, hrun⟩ := Option.bind_eq_some_iff.mp hrun
  obtain ⟨k₃, hk₃, hrun⟩ := Option.bind_eq_some_iff.mp hrun
  obtain ⟨k₄, hk₄, hrun⟩ := Option.map_eq_some_iff.mp hrun
  simp only [Prod.mk.injEq, decide_eq_true_eq] at hrun
  obtain ⟨hdue, hin, hin₂, hin₄, hsig⟩ := hrun
  let r : SignalRound 0 := {
    before := k, delivered := k₁, returning := k₂, returned := k₃, selecting := k₃, resumed := k₄
    handler := [.postSignal 0 6, .sleep 1, .switchTask], between := [], due := hdue
    delivery := hk₁, enters := hin, handles := hk₂, running := hin₂, returns := hk₃, waits := rfl
    unselected := trivial, selection := hk₄, selects := hin₄ }
  exact Bool.false_ne_true ((h 0x1000 0x2000 0 _ 0 r hk).2.symm.trans hsig)

/-! ### What stays queued -/

/-- Every signal that is queued can be delivered. -/
def QueuedHasHandler (k : Kernel) : Prop :=
  ∀ t < k.count, (k.task t).sigQueued = true → (k.task t).sighandle (k.task t).signal ≠ 0

/-- Nobody clears the handler of the signal that is queued for him. -/
def KeepsQueued (k : Kernel) (e : SchedEvent) (_ : Kernel) : Prop :=
  ∀ signal, e = .signal signal 0 → signal < maxSignals → k.current.sigQueued = true →
    k.current.signal ≠ signal

/-- If a signal is queued, it has a handler. -/
def Control.Deliverable (c : Control) : Prop := c.sigQueued = true → c.sighandle c.signal ≠ 0

theorem charged_deliverable {k : Kernel} {t : Nat} (h : (k.task t).control.Deliverable) :
    (charged k t).Deliverable := by
  rw [charged_eq]
  exact h

/-- To deliver a signal is to take it off. -/
theorem Control.Deliverable.enter {c : Control} (h : c.Deliverable) : c.enter.Deliverable := by
  unfold Control.enter
  split
  · exact fun hqueued => absurd hqueued Bool.false_ne_true
  · exact h

theorem Switched.deliverable {k k' : Kernel} {t : Nat} (hs : Switched k k')
    (h : (k.task t).control.Deliverable) : (k'.task t).control.Deliverable := by
  have hcharged := charged_deliverable h
  by_cases ht : t = k'.currentTask
  · subst ht
    rw [hs.chosen]
    exact Control.Deliverable.enter (c := started k k'.currentTask) hcharged
  · rw [hs.others t ht]
    exact hcharged

theorem eventStep_queued {k k' : Kernel} {e : SchedEvent} (hk : QueuedHasHandler k)
    (h : eventStep k e = some k') (hkeep : KeepsQueued k e k') : QueuedHasHandler k' := by
  intro t ht
  show (k'.task t).control.Deliverable
  rcases eventStep_new h ht with hold | ⟨-, -, hnone⟩
  swap
  · exact fun hqueued => absurd (hqueued.symm.trans hnone) Bool.false_ne_true.symm
  have hk : (k.task t).control.Deliverable := hk t hold
  cases eventStep_effect h with
  | tick => exact hk
  | switch hswitch => exact (switchTask_switched hswitch).deliverable hk
  | add function _ hadd =>
      rw [hadd.others t (Nat.ne_of_lt hold)]
      exact hk
  | same _ hsame =>
      rw [hsame.control t]
      exact hk
  | @post u signal _ _ hhandler =>
      rw [queueSignal, control_modify]
      split
      · exact fun _ => hhandler
      · exact hk
  | @handle signal handler hrange =>
      rw [control_modify]
      split
      · rename_i hcurrent
        rw [hcurrent] at hk
        intro hqueued
        show Function.update k.current.sighandle signal handler k.current.signal ≠ 0
        rcases eq_or_ne k.current.signal signal with heq | hne
        · rw [heq, Function.update_self]
          rintro rfl
          exact hkeep signal rfl hrange hqueued heq
        · rw [Function.update_of_ne hne]
          exact hk hqueued
      · exact hk
  | sigreturn =>
      rw [control_modify]
      split
      · rename_i hcurrent
        rw [hcurrent] at hk
        exact hk
      · exact hk

/--
**In a run in which nobody clears the handler of a signal queued for him, and in no other,
every queued signal can be delivered.**
-/
theorem queued_has_handler_iff (dir readEip : Nat) (tick : UInt32) (events : List SchedEvent) :
    Always eventStep QueuedHasHandler (Clocked.boot dir readEip tick).kernel events ↔
      EveryStep eventStep KeepsQueued (Clocked.boot dir readEip tick).kernel events := by
  have hboot : PointersOk (Clocked.boot dir readEip tick).kernel ∧
      QueuedHasHandler (Clocked.boot dir readEip tick).kernel :=
    ⟨boot_pointers dir readEip tick, fun t _ h => absurd h Bool.false_ne_true⟩
  have hkeep : ∀ k e k', PointersOk k ∧ QueuedHasHandler k → eventStep k e = some k' →
      KeepsQueued k e k' → PointersOk k' ∧ QueuedHasHandler k' :=
    fun k e k' hk hstep hkeeps =>
      ⟨eventStep_pointers hk.1 hstep, eventStep_queued hk.2 hstep hkeeps⟩
  refine always_iff (fun _ hk => hk.2) hkeep ?_ hboot
  rintro k e k' ⟨hpointers, -⟩ hstep hqueued signal rfl hrange hwaiting heq
  have hk' : k' = k.modify k.currentTask fun task =>
      { task with sighandle := Function.update task.sighandle signal 0 } := by
    rw [← Option.some.inj hstep, Kernel.setSignal, if_neg (Nat.not_le.mpr hrange)]
  have hcurrent := hqueued k.currentTask
  rw [hk', Kernel.modify_task_self] at hcurrent
  refine hcurrent hpointers.current hwaiting ?_
  show Function.update k.current.sighandle signal 0 k.current.signal = 0
  rw [heq, Function.update_self]

/-! ### A signal that stays queued -/

/-- A signal is queued that cannot be delivered. -/
def Control.Stuck (c : Control) : Prop := c.sigQueued = true ∧ c.sighandle c.signal = 0

def Stuck (t : Nat) (k : Kernel) : Prop := t < k.count ∧ (k.task t).control.Stuck

theorem Switched.stuck {k k' : Kernel} {t : Nat} (hs : Switched k k')
    (h : (k.task t).control.Stuck) : (k'.task t).control.Stuck := by
  have hcharged : (charged k t).Stuck := by
    rw [charged_eq]
    exact h
  by_cases ht : t = k'.currentTask
  · subst ht
    have hdue : ¬ (started k k'.currentTask).Due := fun hdue => hdue.2.2 hcharged.2
    rw [hs.chosen, Control.enter, if_neg hdue]
    exact hcharged
  · rw [hs.others t ht]
    exact hcharged

/-- Then `kill` fails, whatever the signal, -/
theorem Stuck.postSignal {t : Nat} {k : Kernel} (h : Stuck t k) (signal : Nat) :
    k.postSignal t signal = some (-1, k) := by
  have hqueued : (k.task t).sigQueued = true := h.2.1
  unfold Kernel.postSignal
  rw [if_pos hqueued]
  exact ite_self _

/-- and goes on failing until the task itself calls `signal`. -/
theorem Stuck.step {t : Nat} {k k' : Kernel} {e : SchedEvent} (hk : Stuck t k)
    (h : eventStep k e = some k')
    (hself : ∀ signal handler, e = .signal signal handler → k.currentTask ≠ t) : Stuck t k' := by
  obtain ⟨hcount, hk⟩ := hk
  refine ⟨Nat.lt_of_lt_of_le hcount (eventStep_count h).1, ?_⟩
  cases eventStep_effect h with
  | tick => exact hk
  | switch hswitch => exact (switchTask_switched hswitch).stuck hk
  | add function _ hadd =>
      rw [hadd.others t (Nat.ne_of_lt hcount)]
      exact hk
  | same _ hsame =>
      rw [hsame.control t]
      exact hk
  | @post u signal _ hfree _ =>
      have hne : t ≠ u := by
        rintro rfl
        exact Bool.false_ne_true (hfree.symm.trans hk.1)
      rw [queueSignal, control_modify, if_neg hne]
      exact hk
  | handle =>
      rw [control_modify, if_neg (hself _ _ rfl).symm]
      exact hk
  | sigreturn =>
      rw [control_modify]
      split
      · rename_i hcurrent
        rw [hcurrent] at hk
        exact hk
      · exact hk

/--
The handler of signal 5 clears the one of signal 6, which is queued by then.  The handler
returns, and from then on no signal gets through to the task, whatever the others do.
-/
theorem cleared_handler_stuck :
    ¬ Always eventStep QueuedHasHandler (Clocked.boot 0x1000 0x2000 0).kernel
      [.signal 5 0x8000, .signal 6 0x9000, .postSignal 0 5, .sleep 1, .switchTask,
        .postSignal 0 6, .sleep 1, .switchTask, .signal 6 0, .sigreturn, .switchTask] ∧
    ∃ k, runAll eventStep (Clocked.boot 0x1000 0x2000 0).kernel
      [.signal 5 0x8000, .signal 6 0x9000, .postSignal 0 5, .sleep 1, .switchTask,
        .postSignal 0 6, .sleep 1, .switchTask, .signal 6 0, .sigreturn, .switchTask] = some k ∧
      (k.task 0).inSig = false ∧ Stuck 0 k ∧ ∀ signal, k.postSignal 0 signal = some (-1, k) := by
  have hrun : (runAll eventStep (Clocked.boot 0x1000 0x2000 0).kernel
      [.signal 5 0x8000, .signal 6 0x9000, .postSignal 0 5, .sleep 1, .switchTask,
        .postSignal 0 6, .sleep 1, .switchTask, .signal 6 0, .sigreturn, .switchTask]).map
      (fun k => ((k.task 0).inSig, k.count, (k.task 0).sigQueued,
        (k.task 0).sighandle (k.task 0).signal)) = some (false, 1, true, 0) := by
    decide +kernel
  obtain ⟨k, hk, hlast⟩ := Option.map_eq_some_iff.mp hrun
  simp only [Prod.mk.injEq] at hlast
  obtain ⟨hin, hcount, hqueued, hnone⟩ := hlast
  have hstuck : Stuck 0 k := ⟨hcount ▸ Nat.one_pos, hqueued, hnone⟩
  exact ⟨fun h => h.last hk 0 hstuck.1 hqueued hnone, k, hk, hin, hstuck, hstuck.postSignal⟩

end OsThing.Sched
