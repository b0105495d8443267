/-
When the scheduler never runs a dead task.

`switch_task` starts at the link of the current task.  If that task is in the queue, so
is the one its link leads to.  But a task that kills itself runs on until the next
switch, and its link still leads where it did when it was removed: `remove_task`
corrects the links of the queue only.  The task it leads to can be removed meanwhile, and
unless that one sleeps the switch chooses it.

`Stale` is what the invariant says of the link of the current task: it leads, past dead
tasks that sleep, into the queue or to null.  A removal of any task but the first awake
one on that way keeps it, and every switch makes it true again, since the task it
chooses is in the queue.
-/
import OsThing.Lib.Runs
import OsThing.Proofs.TaskQueue

namespace OsThing.Sched

open Chain Runs

/-- The list from `task_queue` reaches the task. -/
def InQueue (k : Kernel) (t : Nat) : Prop :=
  ∃ l q, Seg k.next (some k.taskQueue) l q ∧ t ∈ l

/-- The call switches tasks. -/
def switches (k : Kernel) : TaskOp → Bool
  | .exit | .sleepThread _ | .sigreturn | .timer => true
  | .kill pid signal => (k.getPidTask pid).join.any fun t =>
      t = k.currentTask && signal < maxSignals && !(k.task t).sigQueued &&
        (k.task t).sighandle signal ≠ 0
  | _ => false

/-- The task is neither gone from the queue nor dead. -/
def Alive (k : Kernel) (t : Nat) : Prop := InQueue k t ∧ t ∉ k.removed

/-- From the link of the current task the way leads to `t`, and all tasks before it are
dead and sleep. -/
def LeadsTo (k : Kernel) (t : Nat) : Prop :=
  ∃ l, Seg k.next (k.next k.currentTask) l (some t) ∧
    ∀ u ∈ l, u ∈ k.removed ∧ (k.task u).sleep ≠ 0

/-- Removals that cannot make `switch_task` choose a dead task: the queue stays intact, and
a task that is dead itself does not lead to the removed one if that is awake. -/
def CleanRemoval (k : Kernel) (t : Nat) : Prop :=
  SafeRemoval k t ∧
    (k.currentTask ∈ k.removed → LeadsTo k t → (k.task t).sleep ≠ 0)

/-! ### The wake-up loop -/

/-- One turn of the loop: the task has one tick less to sleep. -/
def tick (k : Kernel) (t : Nat) : Kernel :=
  k.modify t fun task => { task with sleep := task.sleep - 1 }

theorem tick_next (k : Kernel) (t : Nat) : (tick k t).next = k.next :=
  (sameQueue_modify k t rfl).next

/-- Where a walk along the circular queue starts for the pointer `p`. -/
def walkStart (k : Kernel) (p : Option Nat) : Nat := p.getD k.taskQueue

/-- The task after `t`, in the circle. -/
def after (k : Kernel) (t : Nat) : Nat := walkStart k (k.next t)

theorem wakeLoop_succ (fuel : Nat) (k : Kernel) (temp : Nat) :
    Kernel.wakeLoop (fuel + 1) k temp =
      if (k.task temp).sleep ≠ 0 then
        Kernel.wakeLoop fuel (tick k temp) (walkStart (tick k temp) ((tick k temp).next temp))
      else some (k, temp) :=
  rfl

/-- The walk along the queue does not leave the set. -/
def StaysIn (k : Kernel) (S : Nat → Prop) : Prop :=
  S k.taskQueue ∧ ∀ a, S a → ∀ b, k.next a = some b → S b

theorem StaysIn.tick {k : Kernel} {S : Nat → Prop} (h : StaysIn k S) (t : Nat) :
    StaysIn (tick k t) S :=
  ⟨h.1, by rw [tick_next]; exact h.2⟩

theorem StaysIn.start {k : Kernel} {S : Nat → Prop} (h : StaysIn k S) {p : Option Nat}
    (hp : ∀ u, p = some u → S u) : S (walkStart k p) := by
  rcases p with _ | u
  · exact h.1
  · exact hp u rfl

theorem wakeLoop_mem {S : Nat → Prop} {fuel : Nat} :
    ∀ {k k' : Kernel} {temp t : Nat}, StaysIn k S → S temp →
      Kernel.wakeLoop fuel k temp = some (k', t) → S t := by
  induction fuel with
  | zero => intro k k' temp t _ _ h; cases h
  | succ fuel ih =>
      intro k k' temp t hstays htemp h
      rw [wakeLoop_succ] at h
      split at h
      · refine ih (hstays.tick temp) ((hstays.tick temp).start fun u hu => ?_) h
        rw [tick_next] at hu
        exact hstays.2 temp htemp u hu
      · obtain ⟨-, rfl⟩ := Prod.mk.inj (Option.some.inj h)
        exact htemp

/-- The loop passes over tasks that sleep, and stays in the set it then comes to. -/
theorem wakeLoop_past {S : Nat → Prop} {l : List Nat} :
    ∀ {fuel : Nat} {k k' : Kernel} {p q : Option Nat} {t : Nat}, StaysIn k S →
      Seg k.next p l q → l.Nodup → (∀ u ∈ l, (k.task u).sleep ≠ 0) → (∀ u, q = some u → S u) →
      Kernel.wakeLoop fuel k (walkStart k p) = some (k', t) → S t := by
  induction l with
  | nil =>
      intro fuel k k' p q t hstays hseg _ _ hq h
      obtain rfl : p = q := hseg
      exact wakeLoop_mem hstays (hstays.start hq) h
  | cons a rest ih =>
      intro fuel k k' p q t hstays hseg hnodup hsleep hq h
      obtain ⟨rfl, hrest⟩ := hseg
      obtain ⟨ha, hnodup⟩ := List.nodup_cons.mp hnodup
      rcases fuel with _ | fuel
      · cases h
      rw [show walkStart k (some a) = a from rfl, wakeLoop_succ,
        if_pos (hsleep a List.mem_cons_self)] at h
      refine ih (hstays.tick a) ?_ hnodup (fun u hu => ?_) hq h
      · rw [tick_next]
        exact hrest
      · unfold tick
        rw [Kernel.modify_task_ne k (ne_of_mem_of_not_mem hu ha)]
        exact hsleep u (List.mem_cons_of_mem a hu)

/-! ### One switch -/

/-- From the link of the current task the way leads, past dead tasks that sleep, into the
queue or to null. -/
structure Way (k : Kernel) (l : List Nat) (q : Option Nat) : Prop where
  seg : Seg k.next (k.next k.currentTask) l q
  nodup : (k.currentTask :: l).Nodup
  dead : ∀ u ∈ l, u ∈ k.removed ∧ (k.task u).sleep ≠ 0
  ends : ∀ u, q = some u → u < k.count ∧ u ∉ k.removed

theorem QueueInv.inQueue_iff {k : Kernel} (h : QueueInv k) {t : Nat} :
    InQueue k t ↔ t < k.count ∧ t ∉ k.removed := by
  obtain ⟨l, hchain, -, hmem⟩ := h.queue
  constructor
  · rintro ⟨l', q, hseg, ht⟩
    exact (hmem t).mp (hseg.subset_chain hchain ht)
  · intro ht
    exact ⟨l, none, hchain, (hmem t).mpr ht⟩

theorem QueueInv.alive {k : Kernel} (h : QueueInv k) {t : Nat} (ht : t < k.count)
    (hnot : t ∉ k.removed) : Alive k t := ⟨h.inQueue_iff.mpr ⟨ht, hnot⟩, hnot⟩

/-- In an intact queue, walks of the scheduler stay in the queue. -/
theorem QueueInv.staysIn {k : Kernel} (h : QueueInv k) :
    StaysIn k fun t => t < k.count ∧ t ∉ k.removed := by
  obtain ⟨l, hchain, -, hmem⟩ := h.queue
  refine ⟨⟨h.head, h.queue.head_not_removed⟩, fun a ha b hb => ?_⟩
  exact (hmem b).mp (hchain.mem_of_next ((hmem a).mpr ha) hb)

/-- A task in the queue leads into the queue at once. -/
theorem QueueInv.way {k : Kernel} (h : QueueInv k) (hcurrent : k.currentTask ∉ k.removed) :
    Way k [] (k.next k.currentTask) where
  seg := rfl
  nodup := List.nodup_singleton _
  dead _ hu := absurd hu List.not_mem_nil
  ends := h.staysIn.2 k.currentTask ⟨h.current, hcurrent⟩

/-- `switch_task` saves where the current task is. -/
def saveEip (k : Kernel) : Kernel :=
  k.modify k.currentTask fun task => { task with eip := k.readEip }

theorem saveEip_same (k : Kernel) : SameQueue k (saveEip k) :=
  sameQueue_modify k k.currentTask rfl

theorem saveEip_sleep (k : Kernel) :
    (fun u => ((saveEip k).task u).sleep) = fun u => (k.task u).sleep :=
  funext fun u => modify_keeps Task.sleep rfl u

/-- The parts of a switch: the way to the next task, and what is done with that task. -/
theorem switchTask_walk {k k' : Kernel} (h : k.switchTask = some k') :
    ∃ k₁ temp, Kernel.wakeLoop ((saveEip k).sleepLeft + 1) (saveEip k)
        (after (saveEip k) k.currentTask) = some (k₁, temp) ∧
      k' = (k₁.charge temp).start.enter ∧ k'.currentTask = temp := by
  unfold Kernel.switchTask at h
  obtain ⟨⟨k₁, temp⟩, hwake, rfl⟩ := Option.map_eq_some_iff.mp h
  exact ⟨k₁, temp, hwake, rfl, (enter_sameQueue (k₁.charge temp).start).2⟩

/-- **A switch chooses a task of the queue**, if the link of the current task leads there. -/
theorem Way.switch {k k' : Kernel} {l : List Nat} {q : Option Nat} (hway : Way k l q)
    (hk : QueueInv k) (h : k.switchTask = some k') :
    k'.currentTask < k'.count ∧ k'.currentTask ∉ k'.removed := by
  obtain ⟨hsame, -⟩ := switchTask_spec h
  obtain ⟨k₁, temp, hwake, -, htemp⟩ := switchTask_walk h
  obtain ⟨-, hnodup⟩ := List.nodup_cons.mp hway.nodup
  have hnext : (saveEip k).next = k.next := (saveEip_same k).next
  rw [hsame.count, hsame.removed, htemp]
  have hstays : StaysIn (saveEip k) fun t => t < k.count ∧ t ∉ k.removed :=
    ⟨hk.staysIn.1, by rw [hnext]; exact hk.staysIn.2⟩
  have hseg : Seg (saveEip k).next ((saveEip k).next k.currentTask) l q := by
    rw [hnext]
    exact hway.seg
  have hsleep : ∀ u ∈ l, ((saveEip k).task u).sleep ≠ 0 := fun u hu => by
    rw [congrFun (saveEip_sleep k) u]
    exact (hway.dead u hu).2
  exact wakeLoop_past hstays hseg hnodup hsleep hway.ends hwake

/-! ### Between two switches -/

/-- Nothing happens to the dead tasks, and none dies. -/
structure Still (k k' : Kernel) : Prop where
  current : k'.currentTask = k.currentTask
  removed : k'.removed = k.removed
  count : k.count ≤ k'.count
  next : ∀ u ∈ k.removed, k'.next u = k.next u
  sleep : ∀ u ∈ k.removed, u ≠ k.currentTask → (k'.task u).sleep = (k.task u).sleep

theorem Still.refl (k : Kernel) : Still k k :=
  ⟨rfl, rfl, Nat.le_refl _, fun _ _ => rfl, fun _ _ _ => rfl⟩

theorem Still.trans {k₁ k₂ k₃ : Kernel} (h : Still k₁ k₂) (h' : Still k₂ k₃) : Still k₁ k₃ where
  current := h'.current.trans h.current
  removed := h'.removed.trans h.removed
  count := Nat.le_trans h.count h'.count
  next u hu := (h'.next u (h.removed ▸ hu)).trans (h.next u hu)
  sleep u hu hne :=
    (h'.sleep u (h.removed ▸ hu) (h.current ▸ hne)).trans (h.sleep u hu hne)

theorem still_modify (k : Kernel) (t : Nat) {f : Task → Task}
    (hnext : (f (k.task t)).next = k.next t) (hsleep : (f (k.task t)).sleep = (k.task t).sleep) :
    Still k (k.modify t f) where
  current := rfl
  removed := rfl
  count := Nat.le_refl _
  next u _ := congrFun (sameQueue_modify k t hnext).next u
  sleep u _ _ := modify_keeps Task.sleep hsleep u

theorem initTask_still {k : Kernel} (hk : QueueInv k) : Still k k.initTask.2 where
  current := rfl
  removed := rfl
  count := Nat.le_succ _
  next u hu := by rw [initTask_next, if_neg (Nat.ne_of_lt (hk.removed u hu))]
  sleep u hu _ := congrArg Task.sleep (Function.update_of_ne (Nat.ne_of_lt (hk.removed u hu)) _ _)

/-- `add_task` changes the link of a task of the queue. -/
theorem addTask_still {k k₁ k₂ : Kernel} {task : Nat} (hk : QueueInv k)
    (hnext : ∀ u < k.count, k₁.next u = k.next u) (hqueue : k₁.taskQueue = k.taskQueue)
    (hremoved : k₁.removed = k.removed) (h : k₁.addTask task = some k₂) : Still k₁ k₂ := by
  unfold Kernel.addTask at h
  obtain ⟨temp, htemp, rfl⟩ := Option.map_eq_some_iff.mp h
  have hlive : temp < k.count ∧ temp ∉ k.removed :=
    (advance_mem (S := fun t => t < k.count ∧ t ∉ k.removed)
      (fun a ha b hb => hk.staysIn.2 a ha b (by rw [← hnext a ha.1]; exact hb))
      (by rw [hqueue]; exact hk.staysIn.1) htemp).1
  refine ⟨rfl, rfl, Nat.le_refl _, fun u hu => ?_, fun u _ _ => modify_keeps Task.sleep rfl u⟩
  have hne : u ≠ temp := fun hut => hlive.2 (hut ▸ hremoved ▸ hu)
  rw [next_modify, Function.update_of_ne hne]

theorem createProcess_still {k k' : Kernel} {function : Nat} (hk : QueueInv k)
    (h : k.createProcess function = some k') : Still k k' := by
  unfold Kernel.createProcess at h
  obtain ⟨k₂, hadd, rfl⟩ := Option.map_eq_some_iff.mp h
  have hstart : Still k.initTask.2 (k.initTask.2.modify k.count fun task =>
      { task with eip := function, tid := 0 }) := still_modify _ _ rfl rfl
  have hlinks : ∀ u < k.count, (k.initTask.2.modify k.count fun task =>
      { task with eip := function, tid := 0 }).next u = k.next u := fun u hu => by
    rw [(sameQueue_modify k.initTask.2 k.count rfl).next, initTask_next,
      if_neg (Nat.ne_of_lt hu)]
  exact (((initTask_still hk).trans hstart).trans (addTask_still hk hlinks rfl rfl hadd)).trans
    (still_modify k₂ _ rfl rfl)

theorem createThread_still {k k' : Kernel} {function pid : Nat} (hk : QueueInv k)
    (h : k.createThread function = some (pid, k')) : Still k k' := by
  unfold Kernel.createThread at h
  obtain ⟨k₂, hadd, heq⟩ := Option.map_eq_some_iff.mp h
  obtain ⟨-, rfl⟩ := Prod.mk.inj heq
  have hstart : Still k.initTask.2 (k.initTask.2.modify k.count fun task =>
      { task with eip := function }) := still_modify _ _ rfl rfl
  have hlinks : ∀ u < k.count, (k.initTask.2.modify k.count fun task =>
      { task with eip := function }).next u = k.next u := fun u hu => by
    rw [(sameQueue_modify k.initTask.2 k.count rfl).next, initTask_next,
      if_neg (Nat.ne_of_lt hu)]
  refine (((initTask_still hk).trans hstart).trans (addTask_still hk hlinks rfl rfl hadd)).trans ?_
  exact ((still_modify k₂ _ rfl rfl).trans (still_modify _ _ rfl rfl)).trans
    (still_modify _ _ rfl rfl)

/-! ### A removal -/

/-- What a removal from `k` to `k₁` does to the links, and to whom. -/
structure Cut (k k₁ : Kernel) (t : Nat) : Prop where
  exist : t < k.count
  inv : SafeRemoval k t → QueueInv k₁
  links : ∃ move, (move < k.count ∧ move ∉ k.removed) ∧
    k₁.next = Function.update k.next move (k.next t)
  current : k₁.currentTask = k.currentTask
  removed : k₁.removed = t :: k.removed
  count : k₁.count = k.count
  sleep : ∀ u, (k₁.task u).sleep = (k.task u).sleep

theorem removeTask_sleep {k k' : Kernel} {t : Nat} (h : k.removeTask t = some k') (u : Nat) :
    (k'.task u).sleep = (k.task u).sleep := by
  unfold Kernel.removeTask at h
  obtain ⟨move, -, rfl⟩ := Option.map_eq_some_iff.mp h
  have hlink : ((k.modify move fun before => { before with next := k.next t }).task u).sleep =
      (k.task u).sleep := modify_keeps Task.sleep rfl u
  refine Eq.trans ?_ hlink
  dsimp only
  unfold Kernel.noticeParent
  dsimp only
  split
  · split
    · exact (modify_keeps Task.sleep (by rfl) u).trans (modify_keeps Task.sleep (by rfl) u)
    · exact modify_keeps Task.sleep (by rfl) u
  · split
    · exact modify_keeps Task.sleep (by rfl) u
    · rfl

/-- Before the removal a call may change a task, but no link and not how long it sleeps. -/
theorem cut_of_removeTask {k k₀ k₁ : Kernel} {t : Nat} (hk : QueueInv k) (hsame : SameQueue k k₀)
    (hcurrent : k₀.currentTask = k.currentTask)
    (hsleep : ∀ u, (k₀.task u).sleep = (k.task u).sleep) (ht : t < k.count)
    (h : k₀.removeTask t = some k₁) : Cut k k₁ t := by
  have hk₀ : QueueInv k₀ := hsame.inv hk (by rw [hcurrent, hsame.count]; exact hk.current)
  obtain ⟨move, hmove, hnext, hcount, -, hcurrent₁, hremoved⟩ := removeTask_links h
  refine ⟨ht, fun hsafe => ?_, ⟨move, ?_, ?_⟩, hcurrent₁.trans hcurrent, ?_,
    hcount.trans hsame.count, fun u => (removeTask_sleep h u).trans (hsleep u)⟩
  · refine SafeRemoval.inv ?_ hk₀ (by rw [hsame.count]; exact ht) h
    unfold SafeRemoval
    rw [hsame.taskQueue, hsame.removed, hsame.next]
    exact hsafe
  · have halive := (advance_mem hk₀.staysIn.2 hk₀.staysIn.1 hmove).1
    rw [hsame.count, hsame.removed] at halive
    exact halive
  · rw [hnext, hsame.next]
  · rw [hremoved, hsame.removed]

theorem QueueInv.next_ne_self {k : Kernel} (hk : QueueInv k) {t : Nat} (ht : t < k.count)
    (hnot : t ∉ k.removed) : k.next t ≠ some t := by
  obtain ⟨l, hchain, -, hmem⟩ := hk.queue
  exact hchain.next_ne_self ((hmem t).mpr ⟨ht, hnot⟩)

/-- The removed task keeps its link. -/
theorem Cut.next_self {k k₁ : Kernel} {t : Nat} (h : Cut k k₁ t) : k₁.next t = k.next t := by
  obtain ⟨move, -, hnext⟩ := h.links
  rw [hnext]
  rcases eq_or_ne t move with rfl | hne
  · exact Function.update_self ..
  · exact Function.update_of_ne hne ..

/-- So does every task that was dead before. -/
theorem Cut.next_dead {k k₁ : Kernel} {t : Nat} (h : Cut k k₁ t) {u : Nat} (hu : u ∈ k.removed) :
    k₁.next u = k.next u := by
  obtain ⟨move, halive, hnext⟩ := h.links
  rw [hnext]
  exact Function.update_of_ne (ne_of_mem_of_not_mem hu halive.2) ..

/-- A living task leads past itself to a living task. -/
theorem Cut.past {k k₁ : Kernel} {t : Nat} (h : Cut k k₁ t) (hk : QueueInv k)
    (hnot : t ∉ k.removed) {u : Nat} (hu : k₁.next t = some u) :
    u < k₁.count ∧ u ∉ k₁.removed := by
  rw [h.next_self] at hu
  have halive := hk.staysIn.2 t ⟨h.exist, hnot⟩ u hu
  have hne : u ≠ t := fun hut => hk.next_ne_self h.exist hnot (hut ▸ hu)
  rw [h.count, h.removed, List.mem_cons, not_or]
  exact ⟨halive.1, hne, halive.2⟩

/-- **A clean removal leaves a way into the queue.** -/
theorem Cut.way {k k₁ : Kernel} {t : Nat} {l : List Nat} {q : Option Nat} (h : Cut k k₁ t)
    (hk : QueueInv k) (hway : Way k l q) (hclean : CleanRemoval k t) :
    ∃ l' q', Way k₁ l' q' := by
  by_cases hdead : k.currentTask ∈ k.removed
  · have hstart : k₁.next k₁.currentTask = k.next k.currentTask := by
      rw [h.current, h.next_dead hdead]
    have hseg : Seg k₁.next (k₁.next k₁.currentTask) l q := by
      rw [hstart]
      exact hway.seg.congr fun u hu => h.next_dead (hway.dead u hu).1
    have hold : ∀ u ∈ l, u ∈ k₁.removed ∧ (k₁.task u).sleep ≠ 0 := fun u hu => by
      rw [h.removed, h.sleep]
      exact ⟨List.mem_cons_of_mem t (hway.dead u hu).1, (hway.dead u hu).2⟩
    by_cases hq : q = some t
    · -- the way led to the removed task, and goes on from there
      subst hq
      have hnot : t ∉ k.removed := (hway.ends t rfl).2
      have hsleep : (k.task t).sleep ≠ 0 := hclean.2 hdead ⟨l, hway.seg, hway.dead⟩
      refine ⟨l ++ [t], k₁.next t, seg_append.mpr ⟨_, hseg, rfl, rfl⟩, ?_, ?_,
        fun u hu => h.past hk hnot hu⟩
      · rw [h.current, ← List.cons_append]
        refine hway.nodup.append (List.nodup_singleton t) ?_
        rw [List.disjoint_singleton, List.mem_cons, not_or]
        exact ⟨fun htc => hnot (htc ▸ hdead), fun htl => hnot (hway.dead t htl).1⟩
      · intro u hu
        rcases List.mem_append.mp hu with hu | hu
        · exact hold u hu
        · obtain rfl := List.mem_singleton.mp hu
          rw [h.removed, h.sleep]
          exact ⟨List.mem_cons_self, hsleep⟩
    · refine ⟨l, q, hseg, by rw [h.current]; exact hway.nodup, hold, fun u hu => ?_⟩
      have hne : u ≠ t := fun hut => hq (hut ▸ hu)
      rw [h.count, h.removed, List.mem_cons, not_or]
      exact ⟨(hway.ends u hu).1, hne, (hway.ends u hu).2⟩
  · by_cases htc : t = k.currentTask
    · -- the current task removes itself
      subst htc
      refine ⟨[], k₁.next k₁.currentTask, rfl, List.nodup_singleton _,
        fun _ hu => absurd hu List.not_mem_nil, fun u hu => ?_⟩
      rw [h.current] at hu
      exact h.past hk hdead hu
    · refine ⟨[], _, (h.inv hclean.1).way ?_⟩
      rw [h.current, h.removed, List.mem_cons, not_or]
      exact ⟨Ne.symm htc, hdead⟩

theorem Still.way {k k₁ : Kernel} {l : List Nat} {q : Option Nat} (h : Still k k₁)
    (hk₁ : QueueInv k₁) (hway : Way k l q) : ∃ l' q', Way k₁ l' q' := by
  by_cases hdead : k.currentTask ∈ k.removed
  · obtain ⟨hcurrent, -⟩ := List.nodup_cons.mp hway.nodup
    refine ⟨l, q, ?_, by rw [h.current]; exact hway.nodup, fun u hu => ?_, fun u hu => ?_⟩
    · rw [h.current, h.next _ hdead]
      exact hway.seg.congr fun u hu => h.next u (hway.dead u hu).1
    · rw [h.removed, h.sleep u (hway.dead u hu).1 (ne_of_mem_of_not_mem hu hcurrent)]
      exact hway.dead u hu
    · rw [h.removed]
      exact ⟨Nat.lt_of_lt_of_le (hway.ends u hu).1 h.count, (hway.ends u hu).2⟩
  · refine ⟨[], _, hk₁.way ?_⟩
    rw [h.current, h.removed]
    exact hdead

/-! ### One call -/

/-- What a call does before it switches, if it does switch. -/
def Before (k : Kernel) (op : TaskOp) (k₁ : Kernel) : Prop :=
  (removalTarget k op = none ∧ Still k k₁ ∧ QueueInv k₁) ∨
    ∃ t, removalTarget k op = some t ∧ Cut k k₁ t

/-- The call comes to `k₁`, and that is the end of it or `switch_task` is called there. -/
def Ends (k : Kernel) (op : TaskOp) (k₁ k' : Kernel) : Prop :=
  if switches k op then k₁.switchTask = some k' else k' = k₁

/-- A change to the current task that is no link and no call of `remove_task`. -/
theorem still_current {k : Kernel} {f : Task → Task} (hk : QueueInv k)
    (hnext : (f (k.task k.currentTask)).next = k.next k.currentTask) :
    Still k (k.modify k.currentTask f) ∧ QueueInv (k.modify k.currentTask f) := by
  have hsame := sameQueue_modify k k.currentTask hnext
  refine ⟨⟨rfl, rfl, Nat.le_refl _, fun u _ => congrFun hsame.next u, fun u _ hu => ?_⟩,
    hsame.inv hk hk.current⟩
  rw [Kernel.modify_task_ne k hu]

theorem killThread_before {k k' : Kernel} {pid ret : Nat} (hk : QueueInv k)
    (h : k.killThread pid = some (ret, k')) : Before k (.killThread pid) k' := by
  rcases killThread_inv h with ⟨hfound, rfl⟩ | ⟨t, hfound, hremove⟩
  · exact Or.inl ⟨by simp [removalTarget, hfound], Still.refl k', hk⟩
  · exact Or.inr ⟨t, by simp [removalTarget, hfound], cut_of_removeTask hk (SameQueue.refl k) rfl
      (fun _ => rfl) (hk.getPidTask hfound) hremove⟩

theorem handleSignal_before {k k' : Kernel} {pid signal t : Nat} {ret : Int} (hk : QueueInv k)
    (ht : k.getPidTask pid = some (some t)) (h : k.handleSignal t signal = some (ret, k')) :
    ∃ k₁, Before k (.kill pid signal) k₁ ∧ Ends k (.kill pid signal) k₁ k' := by
  have htarget : removalTarget k (.kill pid signal) = (some t).filter fun t =>
      signal < maxSignals && !(k.task t).sigQueued && (k.task t).sighandle signal = 0 := by
    simp only [removalTarget, ht, Option.join_some]
  have hswitches : switches k (.kill pid signal) = (t = k.currentTask && signal < maxSignals &&
      !(k.task t).sigQueued && (k.task t).sighandle signal ≠ 0) := by
    simp only [switches, ht, Option.join_some, Option.any_some]
  have hsame : SameQueue k (queueSignal k t signal) := sameQueue_modify k t rfl
  have hstill : Still k (queueSignal k t signal) := still_modify k t rfl rfl
  have hk₁ := hsame.inv hk hk.current
  unfold Ends
  rw [hswitches]
  rcases handleSignal_inv h with ⟨hno, rfl⟩ | ⟨⟨hrange, hqueued⟩, hrest⟩
  · have hnone : removalTarget k' (.kill pid signal) = none := by
      rcases hno with hno | hno <;> simp [htarget, hno]
    refine ⟨k', Or.inl ⟨hnone, Still.refl k', hk⟩, ?_⟩
    rcases hno with hno | hno <;> simp [hno]
  rcases hrest with ⟨hhandler, hremove⟩ | ⟨hhandler, hrest⟩
  · refine ⟨k', Or.inr ⟨t, ?_, cut_of_removeTask hk (SameQueue.refl k) rfl (fun _ => rfl)
      (hk.getPidTask ht) hremove⟩, by simp [hhandler]⟩
    simp [htarget, hrange, hqueued, hhandler]
  · have hnone : removalTarget k (.kill pid signal) = none := by simp [htarget, hhandler]
    rcases hrest with ⟨hcurrent, hsleep⟩ | ⟨hcurrent, rfl⟩
    · -- the current task goes to sleep over its own signal
      unfold Kernel.sleepThread at hsleep
      obtain ⟨hstill', hk'⟩ := still_current (f := fun task =>
        { task with sleep := 1, status := .sleeping }) hk₁ rfl
      refine ⟨_, Or.inl ⟨hnone, hstill.trans hstill', hk'⟩, ?_⟩
      rw [if_pos (by simp [hcurrent, hrange, hqueued, hhandler])]
      exact hsleep
    · exact ⟨_, Or.inl ⟨hnone, hstill, hk₁⟩, by simp [Ne.symm hcurrent]⟩

/-- **What a call does to dead tasks**: nothing, or it makes one, and then it may switch. -/
theorem taskStep_before {k k' : Kernel} {op : TaskOp} (hk : QueueInv k)
    (h : taskStep k op = some k') : ∃ k₁, Before k op k₁ ∧ Ends k op k₁ k' := by
  cases op with
  | createProcess function =>
      exact ⟨k', Or.inl ⟨rfl, createProcess_still hk h, (createProcess_created hk h).inv hk⟩, rfl⟩
  | createThread function =>
      obtain ⟨⟨pid, k₁⟩, hcreate, rfl⟩ := Option.map_eq_some_iff.mp h
      exact ⟨k₁, Or.inl ⟨rfl, createThread_still hk hcreate,
        (createThread_created hk hcreate).inv hk⟩, rfl⟩
  | killThread pid =>
      obtain ⟨⟨ret, k₁⟩, hkill, rfl⟩ := Option.map_eq_some_iff.mp h
      exact ⟨k₁, killThread_before hk hkill, rfl⟩
  | kill pid signal =>
      obtain ⟨⟨ret, k₁⟩, hkill, rfl⟩ := Option.map_eq_some_iff.mp h
      rcases kill_inv hkill with ⟨hfound, rfl⟩ | ⟨t, hfound, hsignal⟩
      · exact ⟨k₁, Or.inl ⟨by simp [removalTarget, hfound], Still.refl k₁, hk⟩,
          by simp [Ends, switches, hfound]⟩
      · exact handleSignal_before hk hfound hsignal
  | exit =>
      obtain ⟨k₁, hremove, hswitch⟩ := Option.bind_eq_some_iff.mp h
      have hsame : SameQueue k (k.modify k.currentTask fun task =>
          { task with finished := true }) := sameQueue_modify k _ rfl
      exact ⟨k₁, Or.inr ⟨_, rfl, cut_of_removeTask hk hsame rfl
        (modify_keeps Task.sleep (by rfl)) hk.current hremove⟩, hswitch⟩
  | sleepThread time =>
      obtain ⟨hstill, hk'⟩ := still_current (f := fun task =>
        { task with sleep := time, status := .sleeping }) hk rfl
      exact ⟨_, Or.inl ⟨rfl, hstill, hk'⟩, h⟩
  | signal signal handler =>
      obtain rfl := Option.some.inj h
      refine ⟨_, Or.inl ⟨rfl, ?_⟩, rfl⟩
      unfold Kernel.setSignal
      split
      · exact ⟨Still.refl k, hk⟩
      · dsimp only
        exact still_current hk rfl
  | sigreturn =>
      obtain ⟨hstill, hk'⟩ := still_current (f := fun task =>
        { task with inSig := false, eip := task.oldEip }) hk rfl
      exact ⟨_, Or.inl ⟨rfl, hstill, hk'⟩, h⟩
  | timer =>
      have hsame : SameQueue k { k with tick := (k.tick + 1) % 2 ^ 32 } := ⟨rfl, rfl, rfl, rfl⟩
      exact ⟨{ k with tick := (k.tick + 1) % 2 ^ 32 }, Or.inl ⟨rfl,
        ⟨rfl, rfl, Nat.le_refl _, fun _ _ => rfl, fun _ _ _ => rfl⟩,
        hsame.inv hk hk.current⟩, h⟩

/-! ### Any number of calls -/

/-- The queue is intact, and the link of the current task leads into it. -/
structure DeadInv (k : Kernel) : Prop where
  queue : QueueInv k
  way : ∃ l q, Way k l q

theorem DeadInv.init (dir readEip : Nat) : DeadInv (Kernel.initTasking dir readEip) :=
  ⟨QueueInv.init dir readEip, [], _, (QueueInv.init dir readEip).way List.not_mem_nil⟩

theorem DeadInv.before {k k₁ : Kernel} {op : TaskOp} (h : DeadInv k) (hbefore : Before k op k₁)
    (hclean : ∀ t, removalTarget k op = some t → CleanRemoval k t) : DeadInv k₁ := by
  obtain ⟨l, q, hway⟩ := h.way
  rcases hbefore with ⟨-, hstill, hk₁⟩ | ⟨t, htarget, hcut⟩
  · exact ⟨hk₁, hstill.way hk₁ hway⟩
  · exact ⟨hcut.inv (hclean t htarget).1, hcut.way h.queue hway (hclean t htarget)⟩

/-- What a clean call leaves: the invariant, and after a switch a current task that lives. -/
theorem DeadInv.step {k k' : Kernel} {op : TaskOp} (h : DeadInv k)
    (hstep : taskStep k op = some k')
    (hclean : ∀ t, removalTarget k op = some t → CleanRemoval k t) :
    DeadInv k' ∧ (switches k op → Alive k' k'.currentTask) := by
  obtain ⟨k₁, hbefore, hends⟩ := taskStep_before h.queue hstep
  have h₁ := h.before hbefore hclean
  unfold Ends at hends
  split at hends
  · obtain ⟨l, q, hway⟩ := h₁.way
    obtain ⟨hlt, hnot⟩ := hway.switch h₁.queue hends
    have hk' := switch_inv h₁.queue hends (SameQueue.refl k₁) rfl
    exact ⟨⟨hk', [], _, hk'.way hnot⟩, fun _ => hk'.alive hlt hnot⟩
  · rename_i hno
    subst hends
    exact ⟨h₁, fun hs => absurd hs hno⟩

/--
**Dead tasks stay dead as long as removals are clean.**  Over every run from boot in which
no call removes the head of the queue, a task a second time while it has a link, or the
awake task that a dead current task leads to, every switch chooses a task that is in the
queue and was not removed.
-/
theorem switches_choose_alive (dir readEip : Nat) (ops : List TaskOp)
    (hclean : EveryStep taskStep
      (fun k op _ => ∀ t, removalTarget k op = some t → CleanRemoval k t)
      (Kernel.initTasking dir readEip) ops) :
    EveryStep taskStep (fun k op k' => switches k op → Alive k' k'.currentTask)
      (Kernel.initTasking dir readEip) ops := by
  exact everyStep_of_inv (fun k op k' h hstep hc => (DeadInv.step h hstep hc).1)
    (fun k op k' h hstep hc => (DeadInv.step h hstep hc).2) (DeadInv.init dir readEip) hclean

/-- A thread is made, killed by the boot task, and not chosen at the next switch. -/
theorem switches_choose_alive_boot :
    EveryStep taskStep (fun k op k' => switches k op → Alive k' k'.currentTask)
      (Kernel.initTasking 0x101000 0x100000) [.createThread 0x102000, .killThread 2, .timer] := by
  refine switches_choose_alive _ _ _ fun k₁ h₁ => ⟨fun t ht => (by cases ht), fun k₂ _ =>
    ⟨fun t ht => ?_, fun k₃ _ => ⟨fun t ht => (by cases ht), trivial⟩⟩⟩
  have hrun : (taskStep (Kernel.initTasking 0x101000 0x100000) (.createThread 0x102000)).map
      (fun k => (k.taskQueue, k.removed, removalTarget k (.killThread 2))) =
        some (0, [], some 1) := by
    decide
  rw [h₁] at hrun
  obtain ⟨hqueue, hrest⟩ := Prod.mk.inj (Option.some.inj hrun)
  obtain ⟨hremoved, htarget⟩ := Prod.mk.inj hrest
  obtain rfl : 1 = t := Option.some.inj (htarget.symm.trans ht)
  unfold CleanRemoval SafeRemoval
  rw [hqueue, hremoved]
  exact ⟨⟨Nat.one_ne_zero, fun h => absurd h List.not_mem_nil⟩,
    fun h => absurd h List.not_mem_nil⟩

/-- The boot task makes three threads.  The first of them kills itself and then the second,
to which its link still leads; the switch after that goes to the second, although only the
boot task and the third are left in the queue. -/
theorem dead_task_runs :
    ¬ EveryStep taskStep (fun k op k' => switches k op → InQueue k' k'.currentTask)
      (Kernel.initTasking 0x101000 0x100000)
      [.createThread 0x102000, .createThread 0x102000, .createThread 0x102000, .timer,
        .kill 2 0, .kill 3 0, .timer] := by
  intro h
  have hrun : (runAll taskStep (Kernel.initTasking 0x101000 0x100000)
      [.createThread 0x102000, .createThread 0x102000, .createThread 0x102000, .timer,
        .kill 2 0, .kill 3 0]).bind (fun k => (taskStep k .timer).map fun k' =>
          (k'.currentTask, k'.taskQueue, k'.next 0, k'.next 3)) = some (2, 0, some 3, none) := by
    decide +kernel
  obtain ⟨k, hk, hrest⟩ := Option.bind_eq_some_iff.mp hrun
  obtain ⟨k', hstep, heq⟩ := Option.map_eq_some_iff.mp hrest
  obtain ⟨hcurrent, hrest⟩ := Prod.mk.inj heq
  obtain ⟨hqueue, hrest⟩ := Prod.mk.inj hrest
  obtain ⟨hnext, hlast⟩ := Prod.mk.inj hrest
  have hall : EveryStep taskStep (fun k op k' => switches k op → InQueue k' k'.currentTask)
      (Kernel.initTasking 0x101000 0x100000)
      ([.createThread 0x102000, .createThread 0x102000, .createThread 0x102000, .timer,
        .kill 2 0, .kill 3 0] ++ [.timer]) := h
  obtain ⟨l, q, hseg, hmem⟩ := hall.last hk hstep rfl
  have hchain : IsChain k'.next (some k'.taskQueue) [0, 3] := by
    rw [hqueue]
    exact ⟨rfl, hnext, hlast⟩
  rw [hcurrent] at hmem
  exact absurd (hseg.subset_chain hchain hmem) (by decide)

end OsThing.Sched
