/-
What an event of the scheduler does to the clock of a task, to its signals and to the point
where it goes on.

Everything else is left out: `Control` is what is kept of a task.  An event then is the tick,
a switch, a new task, one of three writes of the signals, or nothing (`EventEffect`), and a
switch is four writes, each to one task (`Switched`).
-/
import OsThing.Task.Events
import OsThing.Proofs.SignalDir

namespace OsThing.Sched

open Chain Runs

/-- What the scheduler charges, and what the signals use. -/
structure Control where
  eip : Nat
  oldEip : Nat
  time : Nat
  lastTime : Nat
  sighandle : Nat → Nat
  sigQueued : Bool
  inSig : Bool
  signal : Nat

def Task.control (task : Task) : Control :=
  ⟨task.eip, task.oldEip, task.time, task.lastTime, task.sighandle, task.sigQueued, task.inSig,
    task.signal⟩

theorem control_modify (k : Kernel) (t u : Nat) (f : Task → Task) :
    ((k.modify t f).task u).control =
      if u = t then (f (k.task t)).control else (k.task u).control := by
  split
  · rename_i heq
    rw [heq, Kernel.modify_task_self]
  · rename_i hne
    rw [Kernel.modify_task_ne k hne]

/-! ### A switch -/

/-- The signal that is queued can be delivered. -/
def Control.Due (c : Control) : Prop :=
  c.sigQueued = true ∧ c.inSig = false ∧ c.sighandle c.signal ≠ 0

instance (c : Control) : Decidable c.Due := inferInstanceAs (Decidable (_ ∧ _))

theorem control_due {task : Task} : task.control.Due ↔ HandlerDue task := Iff.rfl

/-- What is delivered to the task, if anything is. -/
def Control.enter (c : Control) : Control :=
  if c.Due then { c with sigQueued := false, inSig := true, oldEip := c.eip } else c

/-- Where it goes on. -/
def Control.pc (c : Control) : Nat := if c.Due then c.sighandle c.signal else c.eip

/-- The current task is where it calls `switch_task`, and the others are where they were. -/
def saved (k : Kernel) (t : Nat) : Control :=
  if t = k.currentTask then { (k.task t).control with eip := k.readEip } else (k.task t).control

/-- The task that ran last is charged the time since then. -/
def charged (k : Kernel) (t : Nat) : Control :=
  if t = k.lastTask then
    { saved k t with
      time := ((saved k t).time + (k.tick + (2 ^ 32 - (saved k t).lastTime))) % 2 ^ 32 }
  else saved k t

/-- What the chosen task starts with. -/
def started (k : Kernel) (t : Nat) : Control := { charged k t with lastTime := k.tick }

theorem saved_eq (k : Kernel) (t : Nat) :
    saved k t = { (k.task t).control with eip := (saved k t).eip } := by
  unfold saved
  split
  · rfl
  · rfl

/-- Before one is chosen, no task has lost anything but its `eip` and its `time`. -/
theorem charged_eq (k : Kernel) (t : Nat) : charged k t =
    { (k.task t).control with eip := (saved k t).eip, time := (charged k t).time } := by
  have hsaved : charged k t = { saved k t with time := (charged k t).time } := by
    unfold charged
    split
    · rfl
    · rfl
  exact hsaved.trans
    (congrArg (fun c : Control => { c with time := (charged k t).time }) (saved_eq k t))

structure Switched (k k' : Kernel) : Prop where
  count : k'.count = k.count
  lastTask : k'.lastTask = k'.currentTask
  tick : k'.tick = k.tick
  readEip : k'.readEip = k.readEip
  chosen : (k'.task k'.currentTask).control = (started k k'.currentTask).enter
  others : ∀ t ≠ k'.currentTask, (k'.task t).control = charged k t
  pc : k'.pc = (started k k'.currentTask).pc

theorem enter_control (k : Kernel) : k.enter.currentTask = k.currentTask ∧
    (k.enter.task k.currentTask).control = k.current.control.enter ∧
    (∀ t ≠ k.currentTask, k.enter.task t = k.task t) ∧ k.enter.pc = k.current.control.pc := by
  unfold Kernel.enter Control.enter Control.pc
  by_cases hdue : HandlerDue k.current
  · rw [if_pos (pendingHandler_ne_zero.mpr hdue), if_pos (control_due.mpr hdue),
      if_pos (control_due.mpr hdue)]
    refine ⟨rfl, ?_, fun t ht => Function.update_of_ne ht _ _,
      if_pos ⟨hdue.1, Bool.eq_false_iff.mp hdue.2.1⟩⟩
    exact congrArg Task.control (Function.update_self k.currentTask _ k.task)
  · rw [if_neg (mt pendingHandler_ne_zero.mp hdue), if_neg (mt control_due.mp hdue),
      if_neg (mt control_due.mp hdue)]
    exact ⟨rfl, rfl, fun _ _ => rfl, rfl⟩

theorem saveEip_control (k : Kernel) (t : Nat) : ((saveEip k).task t).control = saved k t := by
  unfold saveEip saved
  rw [control_modify]
  split
  · rename_i heq
    rw [heq]
    rfl
  · rfl

theorem charge_control (k : Kernel) (temp t : Nat) : ((k.charge temp).task t).control =
    if t = k.lastTask then
      { (k.task t).control with
        time := ((k.task t).time + (k.tick + (2 ^ 32 - (k.task t).lastTime))) % 2 ^ 32 }
    else (k.task t).control := by
  refine (control_modify k k.lastTask t fun task =>
    { task with time := (task.time + (k.tick + (2 ^ 32 - task.lastTime))) % 2 ^ 32 }).trans ?_
  split
  · rename_i heq
    rw [heq]
    rfl
  · rfl

theorem start_control (k : Kernel) (t : Nat) : (k.start.task t).control =
    if t = k.currentTask then { (k.task t).control with lastTime := k.tick }
    else (k.task t).control := by
  refine (control_modify k k.currentTask t fun task =>
    { task with lastTime := k.tick, status := .running }).trans ?_
  split
  · rename_i heq
    rw [heq]
    rfl
  · rfl

/-- A switch up to where the chosen task is entered. -/
theorem started_control {k k₁ : Kernel} {fuel first temp : Nat}
    (hwake : Kernel.wakeLoop fuel (saveEip k) first = some (k₁, temp)) (t : Nat) :
    ((k₁.charge temp).start.task t).control = if t = temp then started k t else charged k t := by
  have hglobals := wakeLoop_globals hwake
  have hlast : k₁.lastTask = k.lastTask := (congrArg Kernel.lastTask hglobals).trans rfl
  have htick : k₁.tick = k.tick := (congrArg Kernel.tick hglobals).trans rfl
  have hsaved : (k₁.task t).control = saved k t := by
    rw [wakeLoop_keeps (π := Task.control) (fun _ _ => rfl) hwake t]
    exact saveEip_control k t
  have hcharged : ((k₁.charge temp).task t).control = charged k t := by
    unfold charged
    rw [charge_control, ← hsaved, hlast, htick]
    rfl
  rw [start_control, hcharged]
  show (if t = temp then { charged k t with lastTime := k₁.tick } else charged k t) = _
  rw [htick]
  rfl

theorem enter_globals (k : Kernel) : k.enter.tick = k.tick ∧ k.enter.readEip = k.readEip ∧
    k.enter.lastTask = k.lastTask := by
  unfold Kernel.enter
  split
  · exact ⟨rfl, rfl, rfl⟩
  · exact ⟨rfl, rfl, rfl⟩

/-- **What `switch_task` does.** -/
theorem switchTask_switched {k k' : Kernel} (h : k.switchTask = some k') : Switched k k' := by
  obtain ⟨k₁, temp, hwake, rfl, htemp⟩ := switchTask_walk h
  have hglobals := wakeLoop_globals hwake
  have hcount : k₁.count = k.count := (congrArg Kernel.count hglobals).trans rfl
  have htick : k₁.tick = k.tick := (congrArg Kernel.tick hglobals).trans rfl
  have hreadEip : k₁.readEip = k.readEip := (congrArg Kernel.readEip hglobals).trans rfl
  obtain ⟨-, hchosen, hothers, hpc⟩ := enter_control (k₁.charge temp).start
  obtain ⟨htick', hreadEip', hlast'⟩ := enter_globals (k₁.charge temp).start
  have hown : (k₁.charge temp).start.current.control = started k temp :=
    (started_control hwake temp).trans (if_pos rfl)
  have hsame := (enter_sameQueue (k₁.charge temp).start).1
  refine ⟨hsame.count.trans hcount, hlast'.trans htemp.symm, htick'.trans htick,
    hreadEip'.trans hreadEip, ?_, fun t ht => ?_, ?_⟩
  · rw [htemp, ← hown]
    exact hchosen
  · rw [htemp] at ht
    rw [hothers t ht, started_control hwake, if_neg ht]
  · rw [htemp, ← hown]
    exact hpc

/-! ### The other events -/

/-- The same task runs, and no time has passed. -/
structure SameClock (k k' : Kernel) : Prop where
  currentTask : k'.currentTask = k.currentTask
  lastTask : k'.lastTask = k.lastTask
  tick : k'.tick = k.tick
  readEip : k'.readEip = k.readEip

theorem SameClock.trans {k₁ k₂ k₃ : Kernel} (h : SameClock k₁ k₂) (h' : SameClock k₂ k₃) :
    SameClock k₁ k₃ :=
  ⟨h'.currentTask.trans h.currentTask, h'.lastTask.trans h.lastTask, h'.tick.trans h.tick,
    h'.readEip.trans h.readEip⟩

/-- Nothing that is kept here changes. -/
structure SameControl (k k' : Kernel) : Prop extends SameClock k k' where
  count : k'.count = k.count
  control : ∀ t, (k'.task t).control = (k.task t).control

theorem SameControl.refl (k : Kernel) : SameControl k k := ⟨⟨rfl, rfl, rfl, rfl⟩, rfl, fun _ => rfl⟩

theorem SameControl.trans {k₁ k₂ k₃ : Kernel} (h : SameControl k₁ k₂) (h' : SameControl k₂ k₃) :
    SameControl k₁ k₃ :=
  ⟨h.toSameClock.trans h'.toSameClock, h'.count.trans h.count,
    fun t => (h'.control t).trans (h.control t)⟩

theorem sameControl_modify (k : Kernel) (t : Nat) {f : Task → Task}
    (h : (f (k.task t)).control = (k.task t).control) : SameControl k (k.modify t f) :=
  ⟨⟨rfl, rfl, rfl, rfl⟩, rfl, modify_keeps Task.control h⟩

theorem noticeParent_control (k : Kernel) (t : Nat) : SameControl k (k.noticeParent t) := by
  unfold Kernel.noticeParent
  dsimp only
  split
  · split
    · exact (sameControl_modify k _ rfl).trans (sameControl_modify _ _ rfl)
    · exact sameControl_modify k _ rfl
  · split
    · exact sameControl_modify k _ rfl
    · exact SameControl.refl k

theorem removeTask_control {k k' : Kernel} {t : Nat} (h : k.removeTask t = some k') :
    SameControl k k' := by
  unfold Kernel.removeTask at h
  obtain ⟨move, -, rfl⟩ := Option.map_eq_some_iff.mp h
  have hlink : SameControl k (k.modify move fun before => { before with next := k.next t }) :=
    sameControl_modify k move rfl
  have hboth := hlink.trans (noticeParent_control _ t)
  exact ⟨⟨hboth.currentTask, hboth.lastTask, hboth.tick, hboth.readEip⟩, hboth.count,
    hboth.control⟩

theorem addTask_control {k k' : Kernel} {task : Nat} (h : k.addTask task = some k') :
    SameControl k k' := by
  unfold Kernel.addTask at h
  obtain ⟨temp, -, rfl⟩ := Option.map_eq_some_iff.mp h
  exact sameControl_modify k temp rfl

/-- There is a task more, which starts at `function`. -/
structure Added (k k' : Kernel) (function : Nat) : Prop extends SameClock k k' where
  count : k'.count = k.count + 1
  others : ∀ t ≠ k.count, (k'.task t).control = (k.task t).control
  new : (k'.task k.count).control = ⟨function, 0, 0, k.tick, fun _ => 0, false, false, 0⟩

theorem Added.trans {k₁ k₂ k₃ : Kernel} {function : Nat} (h : Added k₁ k₂ function)
    (h' : SameControl k₂ k₃) : Added k₁ k₃ function :=
  ⟨h.toSameClock.trans h'.toSameClock, h'.count.trans h.count,
    fun t ht => (h'.control t).trans (h.others t ht), (h'.control _).trans h.new⟩

theorem initTask_added (k : Kernel) (function : Nat) {f : Task → Task}
    (h : ∀ task, (f task).control = { task.control with eip := function }) :
    Added k (k.initTask.2.modify k.count f) function := by
  refine ⟨⟨rfl, rfl, rfl, rfl⟩, rfl, fun t ht => ?_, ?_⟩
  · rw [Kernel.modify_task_ne _ ht]
    exact congrArg Task.control (Function.update_of_ne ht _ _)
  · rw [Kernel.modify_task_self, h]
    exact congrArg (fun task : Task => { task.control with eip := function })
      (Function.update_self k.count _ k.task)

theorem createProcess_added {k k' : Kernel} {function : Nat}
    (h : k.createProcess function = some k') : Added k k' function := by
  unfold Kernel.createProcess at h
  obtain ⟨k₂, hadd, rfl⟩ := Option.map_eq_some_iff.mp h
  have hnew : Added k (k.initTask.2.modify k.count fun task =>
      { task with eip := function, tid := 0 }) function := initTask_added k function fun _ => rfl
  exact (hnew.trans (addTask_control hadd)).trans (sameControl_modify k₂ _ rfl)

theorem createThread_added {k k' : Kernel} {function pid : Nat}
    (h : k.createThread function = some (pid, k')) : Added k k' function := by
  unfold Kernel.createThread at h
  obtain ⟨k₂, hadd, heq⟩ := Option.map_eq_some_iff.mp h
  obtain ⟨-, rfl⟩ := Prod.mk.inj heq
  have hnew : Added k (k.initTask.2.modify k.count fun task =>
      { task with eip := function }) function := initTask_added k function fun _ => rfl
  refine (hnew.trans (addTask_control hadd)).trans ?_
  exact ((sameControl_modify k₂ _ rfl).trans (sameControl_modify _ _ rfl)).trans
    (sameControl_modify _ _ rfl)

/-- **What an event does.** -/
inductive EventEffect (k : Kernel) : SchedEvent → Kernel → Prop
  | tick : EventEffect k .tick { k with tick := (k.tick + 1) % 2 ^ 32 }
  | switch {k' : Kernel} (h : k.switchTask = some k') : EventEffect k .switchTask k'
  | add {e : SchedEvent} {k' : Kernel} (function : Nat) (he : e ≠ .switchTask)
      (h : Added k k' function) : EventEffect k e k'
  | same {e : SchedEvent} {k' : Kernel} (he : e ≠ .switchTask) (h : SameControl k k') :
      EventEffect k e k'
  | post {t signal : Nat} (ht : t < k.count) (hfree : (k.task t).sigQueued = false)
      (hhandler : (k.task t).sighandle signal ≠ 0) :
      EventEffect k (.postSignal t signal) (queueSignal k t signal)
  | handle {signal handler : Nat} (hrange : signal < maxSignals) :
      EventEffect k (.signal signal handler) (k.modify k.currentTask fun task =>
        { task with sighandle := Function.update task.sighandle signal handler })
  | sigreturn : EventEffect k .sigreturn (k.modify k.currentTask fun task =>
      { task with inSig := false, eip := task.oldEip })

theorem postSignal_effect {k k' : Kernel} {t signal : Nat} {ret : Int} (ht : t < k.count)
    (h : k.postSignal t signal = some (ret, k')) : EventEffect k (.postSignal t signal) k' := by
  unfold Kernel.postSignal at h
  split at h
  · obtain ⟨-, rfl⟩ := Prod.mk.inj (Option.some.inj h)
    exact .same nofun (SameControl.refl k)
  split at h
  · obtain ⟨-, rfl⟩ := Prod.mk.inj (Option.some.inj h)
    exact .same nofun (SameControl.refl k)
  rename_i hqueued
  split at h
  · obtain ⟨k₁, hremove, heq⟩ := Option.map_eq_some_iff.mp h
    obtain ⟨-, rfl⟩ := Prod.mk.inj heq
    exact .same nofun (removeTask_control hremove)
  · rename_i hhandler
    obtain ⟨-, rfl⟩ := Prod.mk.inj (Option.some.inj h)
    exact .post ht (Bool.eq_false_iff.mpr hqueued) hhandler

theorem eventStep_effect {k k' : Kernel} {e : SchedEvent} (h : eventStep k e = some k') :
    EventEffect k e k' := by
  cases e with
  | tick => exact Option.some.inj h ▸ .tick
  | switchTask => exact .switch h
  | createProcess function => exact .add function nofun (createProcess_added h)
  | createThread function =>
      obtain ⟨⟨pid, k₁⟩, hcreate, rfl⟩ := Option.map_eq_some_iff.mp h
      exact .add function nofun (createThread_added hcreate)
  | removeTask task =>
      obtain ⟨-, hremove⟩ := Option.ite_none_right_eq_some.mp h
      exact .same nofun (removeTask_control hremove)
  | postSignal task signal =>
      obtain ⟨ht, h⟩ := Option.ite_none_right_eq_some.mp h
      obtain ⟨⟨ret, k₁⟩, hpost, rfl⟩ := Option.map_eq_some_iff.mp h
      exact postSignal_effect ht hpost
  | signal signal handler =>
      obtain rfl := Option.some.inj h
      unfold Kernel.setSignal
      split
      · exact .same nofun (SameControl.refl k)
      · rename_i hrange
        exact .handle (Nat.lt_of_not_le hrange)
  | sleep time =>
      obtain rfl := Option.some.inj h
      exact .same nofun (sameControl_modify k _ rfl)
  | listen =>
      obtain rfl := Option.some.inj h
      exact .same nofun (sameControl_modify k _ rfl)
  | sigreturn => exact Option.some.inj h ▸ .sigreturn
  | finish =>
      obtain rfl := Option.some.inj h
      exact .same nofun (sameControl_modify k _ rfl)

/-! ### Pointers -/

theorem postSignal_pointers {k k' : Kernel} {t signal : Nat} {ret : Int} (hk : PointersOk k)
    (ht : t < k.count) (h : k.postSignal t signal = some (ret, k')) : PointersOk k' := by
  unfold Kernel.postSignal at h
  split at h
  · obtain ⟨-, rfl⟩ := Prod.mk.inj (Option.some.inj h)
    exact hk
  split at h
  · obtain ⟨-, rfl⟩ := Prod.mk.inj (Option.some.inj h)
    exact hk
  split at h
  · obtain ⟨k₁, hremove, heq⟩ := Option.map_eq_some_iff.mp h
    obtain ⟨-, rfl⟩ := Prod.mk.inj heq
    exact (removeTask_quiet (fun _ => ht) hremove).pointers hk
  · obtain ⟨-, rfl⟩ := Prod.mk.inj (Option.some.inj h)
    exact (quiet_modify k t rfl rfl).pointers hk

/-- Pointers to tasks keep leading to tasks. -/
theorem eventStep_pointers {k k' : Kernel} {e : SchedEvent} (hk : PointersOk k)
    (h : eventStep k e = some k') : PointersOk k' := by
  cases e with
  | tick => exact Option.some.inj h ▸ ⟨⟨hk.head, hk.links⟩, hk.current⟩
  | switchTask => exact (switchTask_quiet h).pointers hk
  | createProcess function => exact (createProcess_quiet h).pointers hk
  | createThread function =>
      obtain ⟨⟨pid, k₁⟩, hcreate, rfl⟩ := Option.map_eq_some_iff.mp h
      exact (createThread_quiet hcreate).pointers hk
  | removeTask task =>
      obtain ⟨ht, hremove⟩ := Option.ite_none_right_eq_some.mp h
      exact (removeTask_quiet (fun _ => ht) hremove).pointers hk
  | postSignal task signal =>
      obtain ⟨ht, h⟩ := Option.ite_none_right_eq_some.mp h
      obtain ⟨⟨ret, k₁⟩, hpost, rfl⟩ := Option.map_eq_some_iff.mp h
      exact postSignal_pointers hk ht hpost
  | signal signal handler =>
      obtain rfl := Option.some.inj h
      unfold Kernel.setSignal
      split
      · exact hk
      · dsimp only
        exact (quiet_modify k _ rfl rfl).pointers hk
  | sleep time => exact Option.some.inj h ▸ (quiet_modify k k.currentTask rfl rfl).pointers hk
  | listen => exact Option.some.inj h ▸ (quiet_modify k k.currentTask rfl rfl).pointers hk
  | sigreturn => exact Option.some.inj h ▸ (quiet_modify k k.currentTask rfl rfl).pointers hk
  | finish => exact Option.some.inj h ▸ (quiet_modify k k.currentTask rfl rfl).pointers hk

theorem boot_pointers (dir readEip : Nat) (tick : UInt32) :
    PointersOk (Clocked.boot dir readEip tick).kernel :=
  ⟨⟨Nat.one_pos, fun _ _ _ h => absurd h (Option.some_ne_none _).symm⟩, Nat.one_pos⟩

/-! ### Calls -/

theorem runAll_one {k k' : Kernel} {e : SchedEvent} (h : eventStep k e = some k') :
    runAll eventStep k [e] = some k' :=
  (congrArg (Option.bind · some) h)

theorem handleSignal_events {k k' : Kernel} {t signal : Nat} {ret : Int} (ht : t < k.count)
    (h : k.handleSignal t signal = some (ret, k')) :
    ∃ events, runAll eventStep k events = some k' := by
  have hpost : eventStep k (.postSignal t signal) = (k.postSignal t signal).map Prod.snd :=
    if_pos ht
  unfold Kernel.handleSignal at h
  unfold Kernel.postSignal at hpost
  split at h
  · obtain ⟨-, rfl⟩ := Prod.mk.inj (Option.some.inj h)
    exact ⟨[], rfl⟩
  rename_i hrange
  split at h
  · obtain ⟨-, rfl⟩ := Prod.mk.inj (Option.some.inj h)
    exact ⟨[], rfl⟩
  rename_i hqueued
  rw [if_neg hrange, if_neg hqueued] at hpost
  split at h
  · rename_i hnone
    rw [if_pos hnone] at hpost
    obtain ⟨k₁, hremove, heq⟩ := Option.map_eq_some_iff.mp h
    obtain ⟨-, rfl⟩ := Prod.mk.inj heq
    refine ⟨[.postSignal t signal], runAll_one ?_⟩
    rw [hpost, hremove]
    rfl
  · rename_i hhandler
    rw [if_neg hhandler] at hpost
    dsimp only at h
    split at h
    · obtain ⟨k₁, hsleep, heq⟩ := Option.map_eq_some_iff.mp h
      obtain ⟨-, rfl⟩ := Prod.mk.inj heq
      refine ⟨[.postSignal t signal, .sleep 1, .switchTask], ?_⟩
      show (eventStep k _).bind _ = _
      rw [hpost]
      exact runAll_one (e := .switchTask) hsleep
    · obtain ⟨-, rfl⟩ := Prod.mk.inj (Option.some.inj h)
      exact ⟨[.postSignal t signal], runAll_one hpost⟩

/-- **A call is a run of events.** -/
theorem taskStep_events {k k' : Kernel} {op : TaskOp} (hk : PointersOk k)
    (h : taskStep k op = some k') : ∃ events, runAll eventStep k events = some k' := by
  cases op with
  | createProcess function => exact ⟨[.createProcess function], runAll_one h⟩
  | createThread function => exact ⟨[.createThread function], runAll_one h⟩
  | killThread pid =>
      obtain ⟨⟨ret, k₁⟩, hkill, rfl⟩ := Option.map_eq_some_iff.mp h
      obtain ⟨p, hp, hkill⟩ := Option.bind_eq_some_iff.mp hkill
      cases p with
      | none =>
          obtain ⟨-, rfl⟩ := Prod.mk.inj (Option.some.inj hkill)
          exact ⟨[], rfl⟩
      | some t =>
          obtain ⟨k₂, hremove, heq⟩ := Option.map_eq_some_iff.mp hkill
          obtain ⟨-, rfl⟩ := Prod.mk.inj heq
          refine ⟨[.removeTask t], runAll_one ?_⟩
          exact (if_pos (hk.getPidTask hp)).trans hremove
  | kill pid signal =>
      obtain ⟨⟨ret, k₁⟩, hkill, rfl⟩ := Option.map_eq_some_iff.mp h
      obtain ⟨p, hp, hkill⟩ := Option.bind_eq_some_iff.mp hkill
      cases p with
      | none =>
          obtain ⟨-, rfl⟩ := Prod.mk.inj (Option.some.inj hkill)
          exact ⟨[], rfl⟩
      | some t => exact handleSignal_events (hk.getPidTask hp) hkill
  | exit =>
      obtain ⟨k₁, hremove, hswitch⟩ := Option.bind_eq_some_iff.mp h
      refine ⟨[.finish, .removeTask k.currentTask, .switchTask], ?_⟩
      show (eventStep _ (.removeTask k.currentTask)).bind _ = _
      have hstep : eventStep (k.modify k.currentTask fun task => { task with finished := true })
          (.removeTask k.currentTask) = some k₁ := (if_pos hk.current).trans hremove
      rw [hstep]
      exact runAll_one (e := .switchTask) hswitch
  | sleepThread time => exact ⟨[.sleep time, .switchTask], runAll_one (e := .switchTask) h⟩
  | signal signal handler => exact ⟨[.signal signal handler], runAll_one h⟩
  | sigreturn => exact ⟨[.sigreturn, .switchTask], runAll_one (e := .switchTask) h⟩
  | timer => exact ⟨[.tick, .switchTask], runAll_one (e := .switchTask) h⟩

end OsThing.Sched
