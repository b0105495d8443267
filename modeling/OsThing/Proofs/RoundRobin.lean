/-
The scheduler takes turns, and keeps count of who sleeps.

`switch_task` looks at the tasks of the queue one after another, from the one after the
current task on and from the end of the queue back to its head.  What it looks at in a run
is a log of the machine in `Lib/RoundRobin`, whose state can be read off the kernel: what
every task still has to sleep, and the current task, which runs.

The queue only has to be null-terminated, with the link of the current task in it.  Other
calls can come in between, as long as none makes or removes a task.
-/
import OsThing.Lib.RoundRobin
import OsThing.Proofs.DeadTasks

namespace OsThing.Sched

open Chain Runs RoundRobin

/-- What the wake-up loop does with the tasks it looks at, from `temp` on. -/
def wakeLog : Nat → Kernel → Nat → List (Event Nat)
  | 0, _, _ => []
  | fuel + 1, k, temp =>
      if (k.task temp).sleep ≠ 0 then
        .passed temp :: wakeLog fuel (tick k temp) (after (tick k temp) temp)
      else [.selected temp]

/-- After it has saved where the current task is, `switch_task` goes through the tasks after it. -/
def switchLog (k : Kernel) : List (Event Nat) :=
  wakeLog ((saveEip k).sleepLeft + 1) (saveEip k) (after (saveEip k) k.currentTask)

/-- The current task wants to sleep. -/
def asleep (k : Kernel) (time : Nat) : Kernel :=
  k.modify k.currentTask fun task => { task with sleep := time, status := .sleeping }

/-- The state in which a call that switches tasks comes to `switch_task`. -/
def atSwitch (k : Kernel) : TaskOp → Kernel
  | .sleepThread time => asleep k time
  | .kill _ signal => asleep (queueSignal k k.currentTask signal) 1
  | .sigreturn => k.modify k.currentTask fun task => { task with inSig := false, eip := task.oldEip }
  | .timer => { k with tick := (k.tick + 1) % 2 ^ 32 }
  | _ => k

/-- How long the current task goes to sleep then.  One that sends itself a signal does too. -/
def sleepTime : TaskOp → Option Nat
  | .sleepThread time => some time
  | .kill _ _ => some 1
  | _ => none

/-- What a call does to the turns. -/
def callLog (k : Kernel) (op : TaskOp) : List (Event Nat) :=
  if switches k op then
    ((sleepTime op).map (Event.slept k.currentTask)).toList ++ switchLog (atSwitch k op)
  else []

/-- All that happens in a run. -/
def runLog (k : Kernel) : List TaskOp → List (Event Nat)
  | [] => []
  | op :: rest => callLog k op ++ (taskStep k op).elim [] fun k' => runLog k' rest

/-- The tasks that `switch_task` chooses, one for each call that comes to it. -/
def chosen (k : Kernel) : List TaskOp → List Nat
  | [] => []
  | op :: rest => (taskStep k op).elim [] fun k' =>
      (if switches k op then [k'.currentTask] else []) ++ chosen k' rest

/-- The turns, between two calls. -/
def robin (k : Kernel) : Turns Nat := ⟨fun t => (k.task t).sleep, k.currentTask, true⟩

/-- The call neither makes a task nor removes one. -/
def KeepsTasks (k : Kernel) : TaskOp → Prop
  | .createProcess _ | .createThread _ => False
  | op => removalTarget k op = none

/-- The queue is null-terminated and consists of `l`, and the current task leads into it. -/
structure Queue (k : Kernel) (l : List Nat) : Prop extends PointersOk k where
  chain : IsChain k.next (some k.taskQueue) l
  entry : after k k.currentTask ∈ l

theorem after_congr {k k' : Kernel} (h : SameQueue k k') : after k' = after k := by
  unfold after walkStart
  rw [h.next, h.taskQueue]

theorem Queue.congr {k k' : Kernel} {l : List Nat} (h : Queue k l) (hsame : SameQueue k k')
    (hcurrent : k'.currentTask = k.currentTask) : Queue k' l where
  toLinksOk := hsame.linksOk h.toLinksOk
  current := by rw [hcurrent, hsame.count]; exact h.current
  chain := by rw [hsame.next, hsame.taskQueue]; exact h.chain
  entry := by rw [after_congr hsame, hcurrent]; exact h.entry

/-! ### The wake-up loop -/

/-- The sleeps after one turn of the loop. -/
theorem tick_sleep (k : Kernel) (t : Nat) : (fun u => ((tick k t).task u).sleep) =
    Function.update (fun u => (k.task u).sleep) t ((k.task t).sleep - 1) := by
  funext u
  by_cases hu : u = t
  · rw [hu, Function.update_self]
    exact congrArg Task.sleep (Kernel.modify_task_self ..)
  · rw [Function.update_of_ne hu]
    exact congrArg Task.sleep (Kernel.modify_task_ne k hu _)

theorem wakeLoop_turns {fuel : Nat} :
    ∀ {k k' : Kernel} {temp t : Nat} (last : Nat) (running : Bool), temp = after k last →
      Kernel.wakeLoop fuel k temp = some (k', t) →
      runAll (step (after k)) ⟨fun u => (k.task u).sleep, last, running⟩ (wakeLog fuel k temp) =
        some ⟨fun u => (k'.task u).sleep, t, true⟩ := by
  induction fuel with
  | zero => intro k k' temp t last running _ h; cases h
  | succ fuel ih =>
      intro k k' temp t last running htemp h
      rw [wakeLoop_succ] at h
      unfold wakeLog
      by_cases hsleep : (k.task temp).sleep ≠ 0
      · rw [if_pos hsleep] at h ⊢
        have hsame : SameQueue k (tick k temp) := sameQueue_modify k temp rfl
        have hrest := ih temp false rfl h
        rw [after_congr hsame, tick_sleep] at hrest
        rw [after_congr hsame]
        unfold runAll
        rw [step, if_pos ⟨htemp, Nat.pos_of_ne_zero hsleep⟩]
        exact hrest
      · rw [if_neg hsleep] at h ⊢
        obtain ⟨rfl, rfl⟩ := Prod.mk.inj (Option.some.inj h)
        unfold runAll
        rw [step, if_pos ⟨htemp, not_not.mp hsleep⟩]
        rfl

/-- The loop ends with the only task that it selects. -/
theorem wakeLoop_selects {fuel : Nat} :
    ∀ {k k' : Kernel} {temp t : Nat}, Kernel.wakeLoop fuel k temp = some (k', t) →
      selections (wakeLog fuel k temp) = [t] := by
  induction fuel with
  | zero => intro k k' temp t h; cases h
  | succ fuel ih =>
      intro k k' temp t h
      rw [wakeLoop_succ] at h
      unfold wakeLog
      by_cases hsleep : (k.task temp).sleep ≠ 0
      · rw [if_pos hsleep] at h ⊢
        exact ih h
      · rw [if_neg hsleep] at h ⊢
        obtain ⟨-, rfl⟩ := Prod.mk.inj (Option.some.inj h)
        rfl

/-! ### One switch -/

/-- How long tasks sleep is not written after the loop. -/
theorem charge_sleep (k : Kernel) (temp u : Nat) :
    ((k.charge temp).task u).sleep = (k.task u).sleep := by
  show ((k.modify k.lastTask fun task =>
    { task with time := (task.time + (k.tick + (2 ^ 32 - task.lastTime))) % 2 ^ 32 }).task u).sleep = _
  exact modify_keeps Task.sleep rfl u

theorem start_sleep (k : Kernel) (u : Nat) : (k.start.task u).sleep = (k.task u).sleep := by
  show ((k.modify k.currentTask fun task =>
    { task with lastTime := k.tick, status := .running }).task u).sleep = _
  exact modify_keeps Task.sleep rfl u

theorem enter_sleep (k : Kernel) (u : Nat) : (k.enter.task u).sleep = (k.task u).sleep := by
  unfold Kernel.enter
  split
  · show ((k.modify k.currentTask fun task =>
      { task with sigQueued := false, inSig := true, oldEip := task.eip }).task u).sleep = _
    exact modify_keeps Task.sleep rfl u
  · rfl

theorem robin_enter (k : Kernel) (temp : Nat) :
    robin (k.charge temp).start.enter = ⟨fun u => (k.task u).sleep, temp, true⟩ := by
  unfold robin
  rw [(enter_sameQueue _).2]
  have hsleep := fun u => ((enter_sleep (k.charge temp).start u).trans
    (start_sleep (k.charge temp) u)).trans (charge_sleep k temp u)
  rw [funext hsleep]
  rfl

/-- **A switch is a round of turns** that ends with the task it chooses. -/
theorem switchTask_turns {k k' : Kernel} (running : Bool) (h : k.switchTask = some k') :
    runAll (step (after k)) ⟨fun u => (k.task u).sleep, k.currentTask, running⟩ (switchLog k) =
      some (robin k') := by
  obtain ⟨k₁, temp, hwake, rfl, -⟩ := switchTask_walk h
  have hturns := wakeLoop_turns k.currentTask running rfl hwake
  rw [saveEip_sleep] at hturns
  rw [robin_enter, ← after_congr (saveEip_same k)]
  exact hturns

theorem switchTask_selects {k k' : Kernel} (h : k.switchTask = some k') :
    selections (switchLog k) = [k'.currentTask] := by
  obtain ⟨k₁, temp, hwake, -, hcurrent⟩ := switchTask_walk h
  rw [hcurrent]
  exact wakeLoop_selects hwake

theorem asleep_same (k : Kernel) (time : Nat) : SameQueue k (asleep k time) :=
  sameQueue_modify k k.currentTask rfl

/-- A switch of a task that goes to sleep. -/
theorem sleepThread_turns {k k' : Kernel} {time : Nat} (h : k.sleepThread time = some k') :
    runAll (step (after k)) (robin k)
      (.slept k.currentTask time :: switchLog (asleep k time)) = some (robin k') := by
  have hturns := switchTask_turns (k := asleep k time) false h
  have hsleep : (fun u => ((asleep k time).task u).sleep) =
      Function.update (fun u => (k.task u).sleep) k.currentTask time := by
    funext u
    by_cases hu : u = k.currentTask
    · rw [hu, Function.update_self]
      exact congrArg Task.sleep (Kernel.modify_task_self ..)
    · rw [Function.update_of_ne hu]
      exact congrArg Task.sleep (Kernel.modify_task_ne k hu _)
  rw [after_congr (asleep_same k time)] at hturns
  unfold runAll
  rw [step, if_pos ⟨rfl, rfl⟩]
  rw [hsleep] at hturns
  exact hturns

/-! ### Every call -/

/-- Nothing changes that the turns are about. -/
structure SameTurns (k k' : Kernel) : Prop extends SameQueue k k' where
  current : k'.currentTask = k.currentTask
  sleep : ∀ u, (k'.task u).sleep = (k.task u).sleep

theorem SameTurns.refl (k : Kernel) : SameTurns k k := ⟨SameQueue.refl k, rfl, fun _ => rfl⟩

theorem sameTurns_modify (k : Kernel) (t : Nat) {f : Task → Task}
    (hnext : (f (k.task t)).next = k.next t) (hsleep : (f (k.task t)).sleep = (k.task t).sleep) :
    SameTurns k (k.modify t f) :=
  ⟨sameQueue_modify k t hnext, rfl, modify_keeps Task.sleep hsleep⟩

theorem SameTurns.robin {k k' : Kernel} (h : SameTurns k k') : robin k' = robin k := by
  unfold Sched.robin
  rw [h.current, funext h.sleep]

/-- What a call does that neither makes nor removes a task. -/
structure TakesTurns (k : Kernel) (l : List Nat) (log : List (Event Nat)) (k' : Kernel) : Prop where
  queue : Queue k' l
  same : SameQueue k k'
  turns : runAll (step (after k)) (robin k) log = some (robin k')
  selects : selections log = if log = [] then [] else [k'.currentTask]

/-- A call that does not switch. -/
theorem SameTurns.takes {k k' : Kernel} {l : List Nat} (h : SameTurns k k') (hk : Queue k l) :
    TakesTurns k l [] k' :=
  ⟨hk.congr h.toSameQueue h.current, h.toSameQueue, congrArg some h.robin.symm, rfl⟩

theorem Queue.circle {k : Kernel} {l : List Nat} (h : Queue k l) : Circle (after k) l :=
  circle_of_chain h.chain

/-- The queue after turns were taken. -/
theorem Queue.turns {k k' : Kernel} {l : List Nat} {log : List (Event Nat)} (h : Queue k l)
    (hquiet : Quiet k k') (hsame : SameQueue k k')
    (hturns : runAll (step (after k)) (robin k) log = some (robin k')) : Queue k' l where
  toPointersOk := hquiet.pointers h.toPointersOk
  chain := by rw [hsame.next, hsame.taskQueue]; exact h.chain
  entry := by
    rw [after_congr hsame]
    exact next_turn_mem (S := (· ∈ l)) (fun _ => h.circle.after_mem) hturns h.entry

theorem Queue.switch {k : Kernel} {l : List Nat} (hk : Queue k l) :
    ∃ k', k.switchTask = some k' ∧ TakesTurns k l (switchLog k) k' := by
  obtain ⟨k', hk'⟩ := switchTask_total hk.toLinksOk hk.current
  have hsame := (switchTask_spec hk').1
  have hturns := switchTask_turns true hk'
  have hselects := switchTask_selects hk'
  refine ⟨k', hk', hk.turns (switchTask_quiet hk') hsame hturns, hsame, hturns, ?_⟩
  rw [hselects, if_neg fun hnil => by rw [hnil] at hselects; cases hselects]

theorem Queue.sleepThread {k : Kernel} {l : List Nat} (hk : Queue k l) (time : Nat) :
    ∃ k', k.sleepThread time = some k' ∧
      TakesTurns k l (.slept k.currentTask time :: switchLog (asleep k time)) k' := by
  have hasleep := hk.congr (asleep_same k time) rfl
  obtain ⟨k', hk'⟩ := switchTask_total hasleep.toLinksOk hasleep.current
  have hsame := (asleep_same k time).trans (switchTask_spec hk').1
  have hturns := sleepThread_turns hk'
  exact ⟨k', hk', hk.turns (sleepThread_quiet hk') hsame hturns, hsame, hturns,
    switchTask_selects hk'⟩

/-- What is nothing to the turns can come before them. -/
theorem SameTurns.before {k k₁ k' : Kernel} {l : List Nat} {log : List (Event Nat)}
    (h : SameTurns k k₁) (hturns : TakesTurns k₁ l log k') : TakesTurns k l log k' where
  queue := hturns.queue
  same := h.toSameQueue.trans hturns.same
  turns := by
    rw [← after_congr h.toSameQueue, ← h.robin]
    exact hturns.turns
  selects := hturns.selects

theorem Queue.lt {k : Kernel} {l : List Nat} (h : Queue k l) : ∀ t ∈ l, t < k.count :=
  h.chain.forall_mem h.links fun _ ht => Option.some.inj ht ▸ h.head

theorem Queue.getPidTask {k : Kernel} {l : List Nat} (h : Queue k l) (pid : Nat) :
    ∃ found, k.getPidTask pid = some found :=
  ⟨_, seek_eq h.chain (h.chain.length_le h.lt)⟩

/-- A signal to a task that has a handler for it, and no other signal waiting. -/
theorem queueSignal_same (k : Kernel) (t signal : Nat) : SameTurns k (queueSignal k t signal) :=
  sameTurns_modify k t (f := fun task => { task with sigQueued := true, signal := signal }) rfl rfl

/-- **A signal that removes nobody** is nothing to the turns, but for a task that sends it to
itself, and sleeps for one turn. -/
theorem Queue.kill {k : Kernel} {l : List Nat} (h : Queue k l) {pid signal : Nat}
    (hkeep : removalTarget k (.kill pid signal) = none) :
    ∃ k', taskStep k (.kill pid signal) = some k' ∧
      TakesTurns k l (callLog k (.kill pid signal)) k' := by
  obtain ⟨found, hfound⟩ := h.getPidTask pid
  have hstep : taskStep k (.kill pid signal) = (found.elim (some (-1, k)) fun t =>
      k.handleSignal t signal).map Prod.snd := by
    show (k.kill pid signal).map Prod.snd = _
    unfold Kernel.kill
    rw [hfound]
    cases found <;> rfl
  rw [hstep]
  simp only [removalTarget, hfound, Option.join_some] at hkeep
  simp only [callLog, switches, hfound, Option.join_some]
  rcases found with _ | t
  · exact ⟨k, rfl, (SameTurns.refl k).takes h⟩
  unfold Kernel.handleSignal
  rw [Option.elim_some, Option.any_some]
  by_cases hrange : signal < maxSignals
  swap
  · rw [if_pos (Nat.le_of_not_lt hrange)]
    refine ⟨k, rfl, ?_⟩
    simpa [hrange] using (SameTurns.refl k).takes h
  rw [if_neg (Nat.not_le.mpr hrange)]
  by_cases hqueued : (k.task t).sigQueued
  · rw [if_pos hqueued]
    refine ⟨k, rfl, ?_⟩
    simpa [hqueued] using (SameTurns.refl k).takes h
  have hhandler : (k.task t).sighandle signal ≠ 0 := by
    intro hzero
    simp [hrange, hqueued, hzero] at hkeep
  rw [if_neg hqueued, if_neg hhandler]
  dsimp only
  by_cases hcurrent : k.currentTask = t
  · subst hcurrent
    have hsame := queueSignal_same k k.currentTask signal
    obtain ⟨k', hk', hturns⟩ := (h.congr hsame.toSameQueue hsame.current).sleepThread 1
    refine ⟨k', ?_, ?_⟩
    · show Option.map _ (if k.currentTask = k.currentTask then _ else _) = some k'
      rw [if_pos rfl, Option.map_map]
      exact (Option.map_eq_some_iff.mpr ⟨k', hk', rfl⟩)
    · rw [if_pos (by simp [hrange, hqueued, hhandler])]
      exact hsame.before hturns
  · refine ⟨queueSignal k t signal, ?_, ?_⟩
    · show Option.map _ (if k.currentTask = t then _ else _) = _
      rw [if_neg hcurrent]
      rfl
    · rw [if_neg (by simp [Ne.symm hcurrent])]
      exact (queueSignal_same k t signal).takes h

/-- **Every call that keeps the tasks can be made, and takes turns.** -/
theorem Queue.takes {k : Kernel} {l : List Nat} {op : TaskOp} (h : Queue k l)
    (hkeep : KeepsTasks k op) :
    ∃ k', taskStep k op = some k' ∧ TakesTurns k l (callLog k op) k' := by
  cases op with
  | createProcess function => exact absurd hkeep id
  | createThread function => exact absurd hkeep id
  | exit => cases hkeep
  | killThread pid =>
      obtain ⟨found, hfound⟩ := h.getPidTask pid
      have hkeep : (k.getPidTask pid).join = none := hkeep
      rw [hfound, Option.join_some] at hkeep
      refine ⟨k, ?_, (SameTurns.refl k).takes h⟩
      show (k.killThread pid).map Prod.snd = some k
      unfold Kernel.killThread
      rw [hfound, hkeep]
      rfl
  | kill pid signal => exact h.kill hkeep
  | sleepThread time => exact h.sleepThread time
  | signal signal handler =>
      refine ⟨_, rfl, SameTurns.takes ?_ h⟩
      unfold Kernel.setSignal
      split
      · exact SameTurns.refl k
      · dsimp only
        exact sameTurns_modify k _ (by rfl) (by rfl)
  | sigreturn =>
      have hsame : SameTurns k (atSwitch k .sigreturn) :=
        sameTurns_modify k k.currentTask
          (f := fun task => { task with inSig := false, eip := task.oldEip }) rfl rfl
      obtain ⟨k', hk', hturns⟩ := (h.congr hsame.toSameQueue hsame.current).switch
      exact ⟨k', hk', hsame.before hturns⟩
  | timer =>
      have hsame : SameTurns k (atSwitch k .timer) := ⟨⟨rfl, rfl, rfl, rfl⟩, rfl, fun _ => rfl⟩
      obtain ⟨k', hk', hturns⟩ := (h.congr hsame.toSameQueue hsame.current).switch
      exact ⟨k', hk', hsame.before hturns⟩

/-! ### A run -/

theorem switchLog_ne_nil (k : Kernel) : switchLog k ≠ [] := by
  unfold switchLog wakeLog
  split
  · exact List.cons_ne_nil _ _
  · exact List.cons_ne_nil _ _

theorem callLog_eq_nil {k : Kernel} {op : TaskOp} : callLog k op = [] ↔ ¬ switches k op := by
  unfold callLog
  split
  · rename_i hswitches
    exact iff_of_false (fun hnil => switchLog_ne_nil _ (List.append_eq_nil_iff.mp hnil).2)
      (not_not.mpr hswitches)
  · rename_i hswitches
    exact iff_of_true rfl hswitches

/-- **A run of calls that keep the tasks is a run of turns.** -/
theorem Queue.run {l : List Nat} {ops : List TaskOp} :
    ∀ {k : Kernel}, Queue k l → EveryTry taskStep KeepsTasks k ops →
      ∃ k', runAll taskStep k ops = some k' ∧
        runAll (step (after k)) (robin k) (runLog k ops) = some (robin k') ∧
        selections (runLog k ops) = chosen k ops := by
  induction ops with
  | nil => intro k _ _; exact ⟨k, rfl, rfl, rfl⟩
  | cons op rest ih =>
      intro k h hkeep
      obtain ⟨k₁, hstep, hcall⟩ := h.takes hkeep.1
      obtain ⟨k', hrun, hturns, hselects⟩ := ih hcall.queue (hkeep.2 k₁ hstep)
      unfold runLog chosen
      rw [hstep, Option.elim_some, Option.elim_some]
      refine ⟨k', Option.bind_eq_some_iff.mpr ⟨k₁, hstep, hrun⟩, ?_, ?_⟩
      · rw [runAll_append, hcall.turns, Option.bind_some, ← after_congr hcall.same]
        exact hturns
      · have happend : selections (callLog k op ++ runLog k₁ rest) =
            selections (callLog k op) ++ selections (runLog k₁ rest) := List.filterMap_append
        rw [happend, hselects, hcall.selects]
        by_cases hswitches : switches k op
        · rw [if_neg fun hnil => callLog_eq_nil.mp hnil hswitches, if_pos hswitches]
        · rw [if_pos (callLog_eq_nil.mpr hswitches), if_neg hswitches]

/-- The state in the middle of such a run. -/
theorem Queue.along {l : List Nat} {ops more : List TaskOp} :
    ∀ {k k' : Kernel}, Queue k l → EveryTry taskStep KeepsTasks k (ops ++ more) →
      runAll taskStep k ops = some k' → Queue k' l ∧ EveryTry taskStep KeepsTasks k' more := by
  induction ops with
  | nil =>
      intro k k' h hkeep hrun
      obtain rfl := Option.some.inj hrun
      exact ⟨h, hkeep⟩
  | cons op rest ih =>
      intro k k' h hkeep hrun
      obtain ⟨k₁, hstep, hrest⟩ := Option.bind_eq_some_iff.mp hrun
      obtain ⟨k₂, hstep', hcall⟩ := h.takes hkeep.1
      obtain rfl := Option.some.inj (hstep.symm.trans hstep')
      exact ih hcall.queue (hkeep.2 k₁ hstep) hrest

/--
**Round-robin with exact sleeps.**  In every run that neither makes nor removes a task, the
calls come back, and what they do is a run of turns: in the order of the queue, with every
task that sleeps passed over and every other one selected.  So the tasks come as the circular
queue has them, a task that goes to sleep for `n` turns is passed over `n` times before it
is selected again, and as many switches as there are tasks, while nobody sleeps, choose
each task once.
-/
theorem switch_round_robin {k : Kernel} {l : List Nat} (ops : List TaskOp) (h : Queue k l)
    (hkeep : EveryTry taskStep KeepsTasks k ops) :
    (∃ k', runAll taskStep k ops = some k' ∧
      runAll (step (after k)) (robin k) (runLog k ops) = some (robin k')) ∧
    (∃ i, l[i]? = some (after k k.currentTask) ∧
      ∀ j < (turns (runLog k ops)).length, (turns (runLog k ops))[j]? = l[(i + j) % l.length]?) ∧
    (∀ before mid rest t n, runLog k ops = before ++ .slept t n :: (mid ++ .selected t :: rest) →
      .selected t ∉ mid → mid.count (.passed t) = n) ∧
    (∀ before mid t n, runLog k ops = before ++ .slept t n :: mid → .selected t ∉ mid →
      mid.count (.passed t) ≤ n) ∧
    (∀ before switching k₁, ops = before ++ switching → runAll taskStep k before = some k₁ →
      (∀ t ∈ l, (k₁.task t).sleep = 0) → (∀ t n, .slept t n ∈ runLog k₁ switching → n = 0) →
      (chosen k₁ switching).length = l.length → (chosen k₁ switching).Perm l) := by
  obtain ⟨k', hrun, hturns, -⟩ := h.run hkeep
  refine ⟨⟨k', hrun, hturns⟩, ?_, ?_, ?_, ?_⟩
  · obtain ⟨i, hi⟩ := List.mem_iff_getElem?.mp h.entry
    refine ⟨i, hi, fun j hj => ?_⟩
    rw [turns_eq hturns, List.getElem?_iterate _ _ _ _ hj, h.circle.iterate hi]
    rfl
  · intro before mid rest t n hlog hnot
    rw [hlog] at hturns
    exact passed_exactly hturns hnot
  · intro before mid t n hlog hnot
    rw [hlog] at hturns
    exact passed_at_most hturns hnot
  · intro before switching k₁ hops hbefore hawake hnone hlen
    rw [hops] at hkeep
    obtain ⟨h₁, hkeep₁⟩ := h.along hkeep hbefore
    obtain ⟨k₂, -, hturns₁, hchosen⟩ := h₁.run hkeep₁
    rw [← hchosen] at hlen ⊢
    exact selections_perm h₁.circle hturns₁ h₁.entry hawake hnone hlen

/-- The first task, and a thread it made. -/
def twoTasks : Kernel :=
  ((Kernel.initTasking 0x101000 0x100000).createThread 0x2000).elim
    (Kernel.initTasking 0x101000 0x100000) Prod.snd

theorem twoTasks_queue : Queue twoTasks [0, 1] where
  head := by decide
  links t ht u hu := by
    have hnext : ∀ t < twoTasks.count, ∀ u ∈ twoTasks.next t, u < twoTasks.count := by decide
    exact hnext t ht u hu
  current := by decide
  chain := ⟨rfl, rfl, rfl⟩
  entry := by decide

/-- Two switches choose both of them. -/
theorem two_tasks_take_turns : (chosen twoTasks [.timer, .timer]).Perm [0, 1] := by
  have hlog : runLog twoTasks [.timer, .timer] = [.selected 1, .selected 0] := by decide
  refine (switch_round_robin [.timer, .timer] twoTasks_queue
    ⟨rfl, fun _ _ => ⟨rfl, fun _ _ => trivial⟩⟩).2.2.2.2 [] _ twoTasks rfl rfl (by decide) ?_
    (by decide)
  rw [hlog]
  simp

end OsThing.Sched
