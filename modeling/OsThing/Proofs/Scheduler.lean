/-
What the calls of the scheduler leave alone, and that a task switch comes back.

`switch_task` writes into many tasks: it saves the program counter, counts sleeping
tasks down, charges time and takes a signal off.  It changes no link of the queue
(`SameQueue`), and every turn of its wake-up loop takes one tick from what the tasks
together still want to sleep, so it ends.

Creating and removing tasks does change links.  Still no call ever makes a pointer that
leads to no task, and none touches a message: `taskStep_quiet`.
-/
import OsThing.Task.Kernel
import Mathlib.Algebra.BigOperators.Group.List.Basic

namespace OsThing.Sched

open Chain

/-! ### Calls that leave the queue alone -/

/-- The two states have the same queue. -/
structure SameQueue (k k' : Kernel) : Prop where
  next : k'.next = k.next
  count : k'.count = k.count
  taskQueue : k'.taskQueue = k.taskQueue
  removed : k'.removed = k.removed

theorem SameQueue.refl (k : Kernel) : SameQueue k k := ⟨rfl, rfl, rfl, rfl⟩

theorem SameQueue.trans {k₁ k₂ k₃ : Kernel} (h : SameQueue k₁ k₂) (h' : SameQueue k₂ k₃) :
    SameQueue k₁ k₃ :=
  ⟨h'.next.trans h.next, h'.count.trans h.count, h'.taskQueue.trans h.taskQueue,
    h'.removed.trans h.removed⟩

theorem SameQueue.symm {k k' : Kernel} (h : SameQueue k k') : SameQueue k' k :=
  ⟨h.next.symm, h.count.symm, h.taskQueue.symm, h.removed.symm⟩

theorem next_set (k : Kernel) (t : Nat) (new : Task) :
    (k.set t new).next = Function.update k.next t new.next := by
  funext u
  by_cases hu : u = t
  · subst hu
    simp [Kernel.next, Kernel.set]
  · simp [Kernel.next, Kernel.set, hu]

theorem next_modify (k : Kernel) (t : Nat) (f : Task → Task) :
    (k.modify t f).next = Function.update k.next t (f (k.task t)).next :=
  next_set k t _

/-- A store that keeps the link of the task keeps the queue. -/
theorem sameQueue_modify (k : Kernel) (t : Nat) {f : Task → Task}
    (h : (f (k.task t)).next = k.next t) : SameQueue k (k.modify t f) :=
  ⟨by rw [next_modify, h, Function.update_eq_self], rfl, rfl, rfl⟩

/-! ### Switching tasks

`π` is what somebody wants to know of a task, such as its link or its messages.
-/

/-- The scheduler may write the fields it writes without anybody noticing it in `π`. -/
structure Unscheduled {β : Type*} (π : Task → β) : Prop where
  eip : ∀ task v, π { task with eip := v } = π task
  sleep : ∀ task v, π { task with sleep := v } = π task
  time : ∀ task v, π { task with time := v } = π task
  started : ∀ task v s, π { task with lastTime := v, status := s } = π task
  signalled : ∀ task q i v, π { task with sigQueued := q, inSig := i, oldEip := v } = π task

theorem unscheduled_next : Unscheduled Task.next :=
  ⟨fun _ _ => rfl, fun _ _ => rfl, fun _ _ => rfl, fun _ _ _ => rfl, fun _ _ _ _ => rfl⟩

theorem modify_keeps {β : Type*} (π : Task → β) {k : Kernel} {t : Nat} {f : Task → Task}
    (h : π (f (k.task t)) = π (k.task t)) (u : Nat) :
    π ((k.modify t f).task u) = π (k.task u) := by
  rcases eq_or_ne u t with rfl | hu
  · rw [Kernel.modify_task_self, h]
  · rw [Kernel.modify_task_ne k hu]

/-- The loop itself only writes how long tasks sleep. -/
theorem wakeLoop_keeps {β : Type*} {π : Task → β} (hπ : ∀ task v, π { task with sleep := v } = π task)
    {fuel : Nat} :
    ∀ {k k' : Kernel} {temp t : Nat}, Kernel.wakeLoop fuel k temp = some (k', t) →
      ∀ u, π (k'.task u) = π (k.task u) := by
  induction fuel with
  | zero => intro k k' temp t h; cases h
  | succ fuel ih =>
      intro k k' temp t h u
      unfold Kernel.wakeLoop at h
      dsimp only at h
      split at h
      · exact (ih h u).trans (modify_keeps π (hπ _ _) u)
      · obtain ⟨rfl, rfl⟩ := Prod.mk.inj (Option.some.inj h)
        rfl

section Keeps

variable {β : Type*} {π : Task → β} (hπ : Unscheduled π)

include hπ

theorem charge_keeps (k : Kernel) (temp u : Nat) : π ((k.charge temp).task u) = π (k.task u) := by
  show π ((k.modify k.lastTask fun task =>
    { task with time := (task.time + (k.tick + (2 ^ 32 - task.lastTime))) % 2 ^ 32 }).task u) = _
  exact modify_keeps π (hπ.time _ _) u

theorem start_keeps (k : Kernel) (u : Nat) : π (k.start.task u) = π (k.task u) := by
  show π ((k.modify k.currentTask fun task =>
    { task with lastTime := k.tick, status := .running }).task u) = _
  exact modify_keeps π (hπ.started _ _ _) u

theorem enter_keeps (k : Kernel) (u : Nat) : π (k.enter.task u) = π (k.task u) := by
  unfold Kernel.enter
  split
  · show π ((k.modify k.currentTask fun task =>
      { task with sigQueued := false, inSig := true, oldEip := task.eip }).task u) = _
    exact modify_keeps π (hπ.signalled _ _ _ _) u
  · rfl

/-- **A task switch keeps everything the scheduler does not write.** -/
theorem switchTask_keeps {k k' : Kernel} (h : k.switchTask = some k') (u : Nat) :
    π (k'.task u) = π (k.task u) := by
  unfold Kernel.switchTask at h
  obtain ⟨⟨k₁, temp⟩, hwake, rfl⟩ := Option.map_eq_some_iff.mp h
  exact ((((enter_keeps hπ _ u).trans (start_keeps hπ _ u)).trans (charge_keeps hπ k₁ temp u)).trans
    (wakeLoop_keeps hπ.sleep hwake u)).trans (modify_keeps π (hπ.eip _ _) u)

end Keeps

/-- Outside the tasks the wake-up loop changes nothing. -/
theorem wakeLoop_globals {fuel : Nat} :
    ∀ {k k' : Kernel} {temp t : Nat}, Kernel.wakeLoop fuel k temp = some (k', t) →
      k' = { k with task := k'.task } := by
  induction fuel with
  | zero => intro k k' temp t h; cases h
  | succ fuel ih =>
      intro k k' temp t h
      unfold Kernel.wakeLoop at h
      dsimp only at h
      split at h
      · have hk' := ih h
        rw [hk']
        rfl
      · obtain ⟨rfl, rfl⟩ := Prod.mk.inj (Option.some.inj h)
        rfl

theorem wakeLoop_sameQueue {fuel : Nat} {k k' : Kernel} {temp t : Nat}
    (h : Kernel.wakeLoop fuel k temp = some (k', t)) : SameQueue k k' := by
  have hglobals := wakeLoop_globals h
  exact ⟨funext (wakeLoop_keeps unscheduled_next.sleep h), by rw [hglobals], by rw [hglobals],
    by rw [hglobals]⟩

theorem charge_sameQueue (k : Kernel) (temp : Nat) : SameQueue k (k.charge temp) :=
  ⟨funext (charge_keeps unscheduled_next k temp), rfl, rfl, rfl⟩

theorem start_sameQueue (k : Kernel) : SameQueue k k.start :=
  ⟨funext (start_keeps unscheduled_next k), rfl, rfl, rfl⟩

theorem enter_sameQueue (k : Kernel) :
    SameQueue k k.enter ∧ k.enter.currentTask = k.currentTask := by
  have hnext := funext (enter_keeps unscheduled_next k)
  unfold Kernel.enter at hnext ⊢
  split at hnext
  · rename_i hsignal
    rw [if_pos hsignal]
    exact ⟨⟨hnext, rfl, rfl, rfl⟩, rfl⟩
  · rename_i hsignal
    rw [if_neg hsignal]
    exact ⟨⟨hnext, rfl, rfl, rfl⟩, rfl⟩

/-- Every task that a walk of the kernel can come to exists. -/
structure LinksOk (k : Kernel) : Prop where
  head : k.taskQueue < k.count
  links : ∀ t < k.count, ∀ u, k.next t = some u → u < k.count

theorem SameQueue.linksOk {k k' : Kernel} (h : SameQueue k k') (hk : LinksOk k) : LinksOk k' where
  head := by rw [h.taskQueue, h.count]; exact hk.head
  links := by rw [h.next, h.count]; exact hk.links

/-- Where a circular walk goes next is a task again. -/
theorem LinksOk.next_or_head {k : Kernel} (h : LinksOk k) {t : Nat} (ht : t < k.count) :
    (k.next t).getD k.taskQueue < k.count := by
  rcases hnext : k.next t with _ | u
  · exact h.head
  · exact h.links t ht u hnext

theorem wakeLoop_lt {fuel : Nat} :
    ∀ {k k' : Kernel} {temp t : Nat}, LinksOk k → temp < k.count →
      Kernel.wakeLoop fuel k temp = some (k', t) → t < k.count := by
  induction fuel with
  | zero => intro k k' temp t _ _ h; cases h
  | succ fuel ih =>
      intro k k' temp t hlinks htemp h
      unfold Kernel.wakeLoop at h
      dsimp only at h
      split at h
      · have hsame : SameQueue k (k.modify temp fun task => { task with sleep := task.sleep - 1 }) :=
          sameQueue_modify k temp rfl
        have hlinks' := hsame.linksOk hlinks
        have hlt := ih hlinks' (hlinks'.next_or_head (t := temp) htemp) h
        exact hlt
      · obtain ⟨rfl, rfl⟩ := Prod.mk.inj (Option.some.inj h)
        exact htemp

/-- **`switch_task` does not touch the queue**, and the task it chooses exists. -/
theorem switchTask_spec {k k' : Kernel} (h : k.switchTask = some k') :
    SameQueue k k' ∧ (LinksOk k → k.currentTask < k.count → k'.currentTask < k'.count) := by
  unfold Kernel.switchTask at h
  obtain ⟨⟨k₁, temp⟩, hwake, rfl⟩ := Option.map_eq_some_iff.mp h
  have heip : SameQueue k (k.modify k.currentTask fun task => { task with eip := k.readEip }) :=
    sameQueue_modify k _ rfl
  obtain ⟨henter, hcurrent⟩ := enter_sameQueue (k₁.charge temp).start
  have hsame := (((heip.trans (wakeLoop_sameQueue hwake)).trans (charge_sameQueue k₁ temp)).trans
    (start_sameQueue _)).trans henter
  refine ⟨hsame, fun hlinks hk => ?_⟩
  have hlinks' := heip.linksOk hlinks
  rw [hcurrent, hsame.count]
  have hlt := wakeLoop_lt hlinks' (hlinks'.next_or_head (t := k.currentTask) hk) hwake
  exact hlt

/-! ### The wake-up loop ends -/

/-- A sum changes by what one of its terms does, if the others stay. -/
theorem sum_changed {f g : Nat → Nat} {t : Nat} (hrest : ∀ u, u ≠ t → g u = f u) :
    ∀ {l : List Nat}, l.Nodup → t ∈ l → (l.map g).sum + f t = (l.map f).sum + g t := by
  intro l
  induction l with
  | nil => intro _ hmem; cases hmem
  | cons a rest ih =>
      intro hnodup hmem
      obtain ⟨ha, hnodup⟩ := List.nodup_cons.mp hnodup
      rw [List.map_cons, List.sum_cons, List.map_cons, List.sum_cons]
      rcases List.mem_cons.mp hmem with rfl | hmem
      · have hsame : rest.map g = rest.map f :=
          List.map_congr_left fun u hu => hrest u fun heq => ha (heq ▸ hu)
        rw [hsame]
        omega
      · have hne : a ≠ t := fun heq => ha (heq ▸ hmem)
        rw [hrest a hne, Nat.add_assoc, ih hnodup hmem, Nat.add_assoc]

/-- One turn of the loop takes one tick off what is left to sleep. -/
theorem sleepLeft_tick {k : Kernel} {t : Nat} (ht : t < k.count) (hsleep : (k.task t).sleep ≠ 0) :
    (k.modify t fun task => { task with sleep := task.sleep - 1 }).sleepLeft + 1 = k.sleepLeft := by
  have hrest : ∀ u, u ≠ t →
      ((k.modify t fun task => { task with sleep := task.sleep - 1 }).task u).sleep =
        (k.task u).sleep :=
    fun u hu => congrArg Task.sleep (Kernel.modify_task_ne k hu _)
  have hone : ((k.modify t fun task => { task with sleep := task.sleep - 1 }).task t).sleep =
      (k.task t).sleep - 1 :=
    congrArg Task.sleep (Kernel.modify_task_self k t _)
  have hsum : (k.modify t fun task => { task with sleep := task.sleep - 1 }).sleepLeft +
      (k.task t).sleep = k.sleepLeft + _ :=
    sum_changed hrest List.nodup_range (List.mem_range.mpr ht)
  rw [hone] at hsum
  omega

theorem wakeLoop_total {fuel : Nat} :
    ∀ {k : Kernel} {temp : Nat}, LinksOk k → temp < k.count → k.sleepLeft < fuel →
      ∃ r, Kernel.wakeLoop fuel k temp = some r := by
  induction fuel with
  | zero => intro k temp _ _ h; exact absurd h (Nat.not_lt_zero _)
  | succ fuel ih =>
      intro k temp hlinks htemp hfuel
      unfold Kernel.wakeLoop
      dsimp only
      split
      · rename_i hsleep
        have hsame : SameQueue k (k.modify temp fun task => { task with sleep := task.sleep - 1 }) :=
          sameQueue_modify k temp rfl
        have hlinks' := hsame.linksOk hlinks
        have htick := sleepLeft_tick htemp hsleep
        refine ih hlinks' (hlinks'.next_or_head (t := temp) htemp) ?_
        omega
      · exact ⟨_, rfl⟩

/-- **A task switch always comes back**, if the links lead to tasks. -/
theorem switchTask_total {k : Kernel} (hlinks : LinksOk k) (hcurrent : k.currentTask < k.count) :
    ∃ k', k.switchTask = some k' := by
  have heip : SameQueue k (k.modify k.currentTask fun task => { task with eip := k.readEip }) :=
    sameQueue_modify k _ rfl
  have hlinks' := heip.linksOk hlinks
  obtain ⟨r, hr⟩ := wakeLoop_total hlinks'
    (hlinks'.next_or_head (t := k.currentTask) hcurrent) (Nat.lt_succ_self _)
  exact ⟨_, Option.map_eq_some_iff.mpr ⟨r, hr, rfl⟩⟩

/-! ### Every call

Whatever happens to the task queue, links lead to tasks, and messages stay with their
tasks.
-/

/-- Pointers of the kernel lead to tasks that exist. -/
structure PointersOk (k : Kernel) : Prop extends LinksOk k where
  current : k.currentTask < k.count

/-- The message queue of a task. -/
def mail (task : Task) : Option Nat × Nat := (task.msgBuf, task.msgCount)

theorem unscheduled_mail : Unscheduled mail :=
  ⟨fun _ _ => rfl, fun _ _ => rfl, fun _ _ => rfl, fun _ _ _ => rfl, fun _ _ _ _ => rfl⟩

/-- From `k` to `k'` pointers stay good, and messages stay with their tasks; a new task
has none. -/
structure Quiet (k k' : Kernel) : Prop where
  pointers : PointersOk k → PointersOk k'
  count : k.count ≤ k'.count
  kept : ∀ t < k.count, mail (k'.task t) = mail (k.task t)
  fresh : ∀ t < k'.count, k.count ≤ t → mail (k'.task t) = (none, 0)

theorem Quiet.trans {k₁ k₂ k₃ : Kernel} (h : Quiet k₁ k₂) (h' : Quiet k₂ k₃) : Quiet k₁ k₃ where
  pointers hk := h'.pointers (h.pointers hk)
  count := Nat.le_trans h.count h'.count
  kept t ht := (h'.kept t (Nat.lt_of_lt_of_le ht h.count)).trans (h.kept t ht)
  fresh t ht hle := by
    rcases Nat.lt_or_ge t k₂.count with hlt | hge
    · exact (h'.kept t hlt).trans (h.fresh t hlt hle)
    · exact h'.fresh t ht hge

/-- A state that differs in some fields of its tasks, but in no link and no message. -/
theorem Quiet.of_same {k k' : Kernel} (hsame : SameQueue k k')
    (hcurrent : PointersOk k → k'.currentTask < k'.count)
    (hmail : ∀ t, mail (k'.task t) = mail (k.task t)) :
    Quiet k k' where
  pointers hk := ⟨hsame.linksOk hk.toLinksOk, hcurrent hk⟩
  count := Nat.le_of_eq hsame.count.symm
  kept t _ := hmail t
  fresh _ ht hle := absurd (hsame.count ▸ ht) (Nat.not_lt.mpr hle)

theorem Quiet.refl (k : Kernel) : Quiet k k :=
  Quiet.of_same (SameQueue.refl k) (fun hk => hk.current) fun _ => rfl

theorem quiet_modify (k : Kernel) (t : Nat) {f : Task → Task}
    (hnext : (f (k.task t)).next = k.next t) (hmail : mail (f (k.task t)) = mail (k.task t)) :
    Quiet k (k.modify t f) :=
  Quiet.of_same (sameQueue_modify k t hnext) (fun hk => hk.current) (modify_keeps mail hmail)

/-- Changing one link of a task to a task. -/
theorem quiet_link (k : Kernel) (t : Nat) (link : Option Nat)
    (hlink : PointersOk k → ∀ u, link = some u → u < k.count) :
    Quiet k (k.modify t fun task => { task with next := link }) where
  pointers hk := by
    refine ⟨⟨hk.head, fun u hu v hv => ?_⟩, hk.current⟩
    rw [next_modify] at hv
    rcases eq_or_ne u t with rfl | hne
    · rw [Function.update_self] at hv
      exact hlink hk v hv
    · rw [Function.update_of_ne hne] at hv
      exact hk.links u hu v hv
  count := Nat.le_refl _
  kept u _ := modify_keeps mail rfl u
  fresh u hu hle := absurd hu (Nat.not_lt.mpr hle)

theorem switchTask_quiet {k k' : Kernel} (h : k.switchTask = some k') : Quiet k k' := by
  obtain ⟨hsame, hlt⟩ := switchTask_spec h
  exact Quiet.of_same hsame (fun hk => hlt hk.toLinksOk hk.current)
    (switchTask_keeps unscheduled_mail h)

/-! #### Creating and removing -/

theorem initTask_quiet (k : Kernel) :
    Quiet k k.initTask.2 ∧ k.initTask.2.count = k.count + 1 := by
  have hrest : ∀ t, t ≠ k.count → k.initTask.2.task t = k.task t := fun t ht =>
    Function.update_of_ne ht _ _
  have hnew : (k.initTask.2.task k.count).next = none ∧
      mail (k.initTask.2.task k.count) = (none, 0) := by
    simp [Kernel.initTask, Kernel.set, mail]
  refine ⟨⟨fun hk => ⟨⟨Nat.lt_succ_of_lt hk.head, fun t ht u hu => ?_⟩, Nat.lt_succ_of_lt hk.current⟩,
    Nat.le_succ _, fun t ht => by rw [hrest t (Nat.ne_of_lt ht)], fun t ht hle => ?_⟩, rfl⟩
  · rcases Nat.lt_succ_iff_lt_or_eq.mp ht with hlt | rfl
    · unfold Kernel.next at hu
      rw [hrest t (Nat.ne_of_lt hlt)] at hu
      exact Nat.lt_succ_of_lt (hk.links t hlt u hu)
    · unfold Kernel.next at hu
      rw [hnew.1] at hu
      cases hu
  · obtain rfl : t = k.count := Nat.le_antisymm (Nat.le_of_lt_succ ht) hle
    exact hnew.2

theorem addTask_quiet {k k' : Kernel} {task : Nat} (htask : task < k.count)
    (h : k.addTask task = some k') : Quiet k k' := by
  unfold Kernel.addTask at h
  obtain ⟨last, -, rfl⟩ := Option.map_eq_some_iff.mp h
  exact quiet_link k last (some task) fun _ u hu => Option.some.inj hu ▸ htask

theorem createProcess_quiet {k k' : Kernel} {function : Nat}
    (h : k.createProcess function = some k') : Quiet k k' := by
  unfold Kernel.createProcess at h
  obtain ⟨k₂, hadd, rfl⟩ := Option.map_eq_some_iff.mp h
  obtain ⟨hinit, hcount⟩ := initTask_quiet k
  have hlt : k.count < k.initTask.2.count := by rw [hcount]; exact Nat.lt_succ_self _
  have hstart : Quiet k.initTask.2 (k.initTask.2.modify k.count fun task =>
      { task with eip := function, tid := 0 }) := quiet_modify _ _ rfl rfl
  exact ((hinit.trans hstart).trans (addTask_quiet hlt hadd)).trans (quiet_modify k₂ _ rfl rfl)

theorem createThread_quiet {k k' : Kernel} {function pid : Nat}
    (h : k.createThread function = some (pid, k')) : Quiet k k' := by
  unfold Kernel.createThread at h
  obtain ⟨k₂, hadd, heq⟩ := Option.map_eq_some_iff.mp h
  obtain ⟨-, rfl⟩ := Prod.mk.inj heq
  obtain ⟨hinit, hcount⟩ := initTask_quiet k
  have hlt : k.count < k.initTask.2.count := by rw [hcount]; exact Nat.lt_succ_self _
  have hstart : Quiet k.initTask.2 (k.initTask.2.modify k.count fun task =>
      { task with eip := function }) := quiet_modify _ _ rfl rfl
  refine ((hinit.trans hstart).trans (addTask_quiet hlt hadd)).trans ?_
  exact ((quiet_modify k₂ _ rfl rfl).trans (quiet_modify _ _ rfl rfl)).trans
    (quiet_modify _ _ rfl rfl)

theorem noticeParent_quiet (k : Kernel) (t : Nat) : Quiet k (k.noticeParent t) := by
  unfold Kernel.noticeParent
  dsimp only
  split
  · split
    · exact (quiet_modify k _ rfl rfl).trans (quiet_modify _ _ rfl rfl)
    · exact quiet_modify k _ rfl rfl
  · split
    · exact quiet_modify k _ rfl rfl
    · exact Quiet.refl k

theorem removeTask_quiet {k k' : Kernel} {t : Nat} (ht : PointersOk k → t < k.count)
    (h : k.removeTask t = some k') : Quiet k k' := by
  unfold Kernel.removeTask at h
  obtain ⟨move, -, rfl⟩ := Option.map_eq_some_iff.mp h
  have hlink := quiet_link k move (k.next t) fun hk u hu => hk.links t (ht hk) u hu
  have hboth := hlink.trans (noticeParent_quiet _ t)
  exact ⟨fun hk => ⟨⟨(hboth.pointers hk).head, (hboth.pointers hk).links⟩,
    (hboth.pointers hk).current⟩, hboth.count, hboth.kept, hboth.fresh⟩

/-- A task found by its pid exists, wherever the links lead. -/
theorem PointersOk.getPidTask {k : Kernel} (hk : PointersOk k) {pid t : Nat}
    (h : k.getPidTask pid = some (some t)) : t < k.count :=
  seek_mem (S := fun t => t < k.count) hk.links (fun _ ha => Option.some.inj ha ▸ hk.head) h

/-- `kill_thread` removes the task it finds. -/
theorem killThread_inv {k k' : Kernel} {pid ret : Nat} (h : k.killThread pid = some (ret, k')) :
    (k.getPidTask pid = some none ∧ k' = k) ∨
      ∃ t, k.getPidTask pid = some (some t) ∧ k.removeTask t = some k' := by
  unfold Kernel.killThread at h
  obtain ⟨found, hfound, h⟩ := Option.bind_eq_some_iff.mp h
  rcases found with _ | t
  · obtain ⟨-, rfl⟩ := Prod.mk.inj (Option.some.inj h)
    exact Or.inl ⟨hfound, rfl⟩
  · obtain ⟨k₁, hremove, heq⟩ := Option.map_eq_some_iff.mp h
    obtain ⟨-, rfl⟩ := Prod.mk.inj heq
    exact Or.inr ⟨t, hfound, hremove⟩

/-- And `kill` sends it the signal. -/
theorem kill_inv {k k' : Kernel} {pid signal : Nat} {ret : Int}
    (h : k.kill pid signal = some (ret, k')) : (k.getPidTask pid = some none ∧ k' = k) ∨
      ∃ t, k.getPidTask pid = some (some t) ∧ k.handleSignal t signal = some (ret, k') := by
  unfold Kernel.kill at h
  obtain ⟨found, hfound, h⟩ := Option.bind_eq_some_iff.mp h
  rcases found with _ | t
  · obtain ⟨-, rfl⟩ := Prod.mk.inj (Option.some.inj h)
    exact Or.inl ⟨hfound, rfl⟩
  · exact Or.inr ⟨t, hfound, h⟩

/-- The signal is queued for a task that has a handler for it. -/
def queueSignal (k : Kernel) (t signal : Nat) : Kernel :=
  k.modify t fun task => { task with sigQueued := true, signal := signal }

/-- What `handle_signal` does, with the conditions under which it does it. -/
theorem handleSignal_inv {k k' : Kernel} {t signal : Nat} {ret : Int}
    (h : k.handleSignal t signal = some (ret, k')) :
    ((¬ signal < maxSignals ∨ (k.task t).sigQueued = true) ∧ k' = k) ∨
      ((signal < maxSignals ∧ (k.task t).sigQueued = false) ∧
        (((k.task t).sighandle signal = 0 ∧ k.removeTask t = some k') ∨
          ((k.task t).sighandle signal ≠ 0 ∧
            ((k.currentTask = t ∧ (queueSignal k t signal).sleepThread 1 = some k') ∨
              (k.currentTask ≠ t ∧ k' = queueSignal k t signal))))) := by
  unfold Kernel.handleSignal at h
  by_cases hrange : signal ≥ maxSignals
  · rw [if_pos hrange] at h
    exact Or.inl ⟨Or.inl (Nat.not_lt.mpr hrange), (Prod.mk.inj (Option.some.inj h)).2.symm⟩
  rw [if_neg hrange] at h
  by_cases hqueued : (k.task t).sigQueued
  · rw [if_pos hqueued] at h
    exact Or.inl ⟨Or.inr hqueued, (Prod.mk.inj (Option.some.inj h)).2.symm⟩
  rw [if_neg hqueued] at h
  refine Or.inr ⟨⟨Nat.lt_of_not_le hrange, Bool.eq_false_iff.mpr hqueued⟩, ?_⟩
  by_cases hhandler : (k.task t).sighandle signal = 0
  · rw [if_pos hhandler] at h
    obtain ⟨k₁, hremove, heq⟩ := Option.map_eq_some_iff.mp h
    obtain ⟨-, rfl⟩ := Prod.mk.inj heq
    exact Or.inl ⟨hhandler, hremove⟩
  · rw [if_neg hhandler] at h
    refine Or.inr ⟨hhandler, ?_⟩
    dsimp only at h
    split at h
    · rename_i hcurrent
      obtain ⟨k₁, hsleep, heq⟩ := Option.map_eq_some_iff.mp h
      obtain ⟨-, rfl⟩ := Prod.mk.inj heq
      exact Or.inl ⟨hcurrent, hsleep⟩
    · rename_i hcurrent
      exact Or.inr ⟨hcurrent, (Prod.mk.inj (Option.some.inj h)).2.symm⟩

theorem killThread_quiet {k k' : Kernel} {pid ret : Nat}
    (h : k.killThread pid = some (ret, k')) : Quiet k k' := by
  rcases killThread_inv h with ⟨-, rfl⟩ | ⟨t, hfound, hremove⟩
  · exact Quiet.refl k'
  · exact removeTask_quiet (fun hk => hk.getPidTask hfound) hremove

theorem sleepThread_quiet {k k' : Kernel} {time : Nat} (h : k.sleepThread time = some k') :
    Quiet k k' := by
  unfold Kernel.sleepThread at h
  exact (quiet_modify k k.currentTask rfl rfl).trans (switchTask_quiet h)

theorem handleSignal_quiet {k k' : Kernel} {t signal : Nat} {ret : Int}
    (ht : PointersOk k → t < k.count) (h : k.handleSignal t signal = some (ret, k')) :
    Quiet k k' := by
  have hqueue : Quiet k (queueSignal k t signal) := quiet_modify k t rfl rfl
  rcases handleSignal_inv h with ⟨-, rfl⟩ | ⟨-, ⟨-, hremove⟩ | ⟨-, ⟨-, hsleep⟩ | ⟨-, rfl⟩⟩⟩
  · exact Quiet.refl k'
  · exact removeTask_quiet ht hremove
  · exact hqueue.trans (sleepThread_quiet hsleep)
  · exact hqueue

theorem kill_quiet {k k' : Kernel} {pid signal : Nat} {ret : Int}
    (h : k.kill pid signal = some (ret, k')) : Quiet k k' := by
  rcases kill_inv h with ⟨-, rfl⟩ | ⟨t, hfound, hsignal⟩
  · exact Quiet.refl k'
  · exact handleSignal_quiet (fun hk => hk.getPidTask hfound) hsignal

/-- **No call of the scheduler touches a message.** -/
theorem taskStep_quiet {k k' : Kernel} {op : TaskOp} (h : taskStep k op = some k') :
    Quiet k k' := by
  cases op with
  | createProcess function => exact createProcess_quiet h
  | createThread function =>
      obtain ⟨⟨pid, k₁⟩, hcreate, rfl⟩ := Option.map_eq_some_iff.mp h
      exact createThread_quiet hcreate
  | killThread pid =>
      obtain ⟨⟨ret, k₁⟩, hkill, rfl⟩ := Option.map_eq_some_iff.mp h
      exact killThread_quiet hkill
  | kill pid signal =>
      obtain ⟨⟨ret, k₁⟩, hkill, rfl⟩ := Option.map_eq_some_iff.mp h
      exact kill_quiet hkill
  | exit =>
      obtain ⟨k₁, hremove, hswitch⟩ := Option.bind_eq_some_iff.mp h
      have hfinished : Quiet k (k.modify k.currentTask fun task => { task with finished := true }) :=
        quiet_modify k _ rfl rfl
      exact (hfinished.trans (removeTask_quiet (fun hk => hk.current) hremove)).trans
        (switchTask_quiet hswitch)
  | sleepThread time => exact sleepThread_quiet h
  | signal signal handler =>
      obtain rfl := Option.some.inj h
      unfold Kernel.setSignal
      split
      · exact Quiet.refl k
      · dsimp only
        exact quiet_modify k _ rfl rfl
  | sigreturn => exact (quiet_modify k k.currentTask rfl rfl).trans (switchTask_quiet h)
  | timer =>
      have htick : Quiet k { k with tick := (k.tick + 1) % 2 ^ 32 } :=
        Quiet.of_same ⟨rfl, rfl, rfl, rfl⟩ (fun hk => hk.current) fun _ => rfl
      exact htick.trans (switchTask_quiet h)

end OsThing.Sched
