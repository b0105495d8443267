/-
What becomes of children in `wait`.

`remove_task` leaves the pid of the child in the parent, if the parent is waiting, and
`wait` clears it before it reads it: `returns_zero` shows that every call that gets past
its loop returns 0, which is no pid.  A child that is removed while its parent is
not waiting leaves nothing but a lower `child_count`.  So no call ever reports a child,
and `wait` does what it should only for a task none of whose children has exited.

`Kin` is what the calls of the scheduler do to `parent`, `waiting` and `child_count`.
-/
import OsThing.Lib.Runs
import OsThing.Task.Wait
import OsThing.Proofs.TaskQueue

namespace OsThing.Sched

open Chain Runs

/-! ### What `wait` should do -/

/-- `t` has created the task `u`. -/
def Child (k : Kernel) (t u : Nat) : Prop := u < k.count ∧ u ≠ t ∧ (k.task u).parent = t

/-- A call of `wait` by `t` has returned the pid of `u`. -/
def Reported (s : Waits) (t u : Nat) : Prop :=
  ∃ w ∈ s.returned, w.task = t ∧ w.ret = (s.kernel.task u).id

/-- `u` is a child of `t` that has exited and was not reported. -/
def Unreported (s : Waits) (t u : Nat) : Prop :=
  Child s.kernel t u ∧ u ∈ s.kernel.removed ∧ ¬ Reported s t u

/-- One step of `wait` as it should be. -/
structure Collects (s s' : Waits) : Prop where
  /-- -1 is returned when every child has been reported. -/
  nothing : ∀ t status, s'.returned = ⟨t, -1, status⟩ :: s.returned →
    ∀ u, Child s.kernel t u → Reported s t u
  /-- Anything else is the pid of an exited child that was not reported before. -/
  child : ∀ t ret status, s'.returned = ⟨t, ret, status⟩ :: s.returned → ret ≠ -1 →
    ∃ u, Unreported s t u ∧ ret = (s.kernel.task u).id
  /-- No call goes to sleep over a child that it could report. -/
  sleeps : ∀ t, s.pc t ≠ some .dozing → s'.pc t = some .dozing →
    ∀ u, ¬ Unreported s t u

/-- No task calls `wait` after a child of it was removed, and no child is removed while
its parent is in `wait`. -/
def Undisturbed (s : Waits) : WaitOp → Prop
  | .wait => s.pc s.kernel.currentTask = none →
      ∀ u ∈ s.kernel.removed, (s.kernel.task u).parent ≠ s.kernel.currentTask
  | .task op => ∀ u, removalTarget s.kernel op = some u →
      s.pc (s.kernel.task u).parent = none

instance (s : Waits) : (op : WaitOp) → Decidable (Undisturbed s op)
  | .wait => inferInstanceAs (Decidable (_ → ∀ u ∈ s.kernel.removed, _))
  | .task op => inferInstanceAs (Decidable (∀ u ∈ removalTarget s.kernel op, _))

/-! ### Parents and children in the scheduler -/

/-- What `wait` and `remove_task` know of a task and its family. -/
structure Kin where
  parent : Nat
  waiting : Bool
  child : Nat
  childCount : Nat
  id : Nat

def kin (task : Task) : Kin := ⟨task.parent, task.waiting, task.child, task.childCount, task.id⟩

theorem unscheduled_kin : Unscheduled kin :=
  ⟨fun _ _ => rfl, fun _ _ => rfl, fun _ _ => rfl, fun _ _ _ => rfl, fun _ _ _ _ => rfl⟩

/-- Nothing happens to parents and children. -/
structure SameKin (k k' : Kernel) : Prop where
  count : k'.count = k.count
  removed : k'.removed = k.removed
  kin : ∀ t, kin (k'.task t) = kin (k.task t)

theorem parent_of_kin {task task' : Task} (h : kin task' = kin task) :
    task'.parent = task.parent := congrArg Kin.parent h

theorem waiting_of_kin {task task' : Task} (h : kin task' = kin task) :
    task'.waiting = task.waiting := congrArg Kin.waiting h

theorem child_of_kin {task task' : Task} (h : kin task' = kin task) :
    task'.child = task.child := congrArg Kin.child h

theorem childCount_of_kin {task task' : Task} (h : kin task' = kin task) :
    task'.childCount = task.childCount := congrArg Kin.childCount h

theorem SameKin.refl (k : Kernel) : SameKin k k := ⟨rfl, rfl, fun _ => rfl⟩

theorem SameKin.trans {k₁ k₂ k₃ : Kernel} (h : SameKin k₁ k₂) (h' : SameKin k₂ k₃) :
    SameKin k₁ k₃ :=
  ⟨h'.count.trans h.count, h'.removed.trans h.removed, fun t => (h'.kin t).trans (h.kin t)⟩

theorem sameKin_modify (k : Kernel) (t : Nat) {f : Task → Task}
    (h : OsThing.Sched.kin (f (k.task t)) = OsThing.Sched.kin (k.task t)) :
    SameKin k (k.modify t f) :=
  ⟨rfl, rfl, modify_keeps OsThing.Sched.kin h⟩

theorem switchTask_kin {k k' : Kernel} (h : k.switchTask = some k') : SameKin k k' := by
  obtain ⟨hsame, -⟩ := switchTask_spec h
  exact ⟨hsame.count, hsame.removed, switchTask_keeps unscheduled_kin h⟩

/-- A child of the current task was created. -/
structure Born (k k' : Kernel) : Prop where
  count : k'.count = k.count + 1
  removed : k'.removed = k.removed
  others : ∀ t < k.count, t ≠ k.currentTask → kin (k'.task t) = kin (k.task t)
  mother : ∃ n, kin (k'.task k.currentTask) = { kin k.current with childCount := n + 1 }
  new : kin (k'.task k.count) = ⟨k.currentTask, false, 0, 0, k.nextPid⟩

theorem Born.trans {k₁ k₂ k₃ : Kernel} (h : Born k₁ k₂) (h' : SameKin k₂ k₃) : Born k₁ k₃ := by
  obtain ⟨n, hmother⟩ := h.mother
  exact ⟨h'.count.trans h.count, h'.removed.trans h.removed,
    fun t ht hne => (h'.kin t).trans (h.others t ht hne), ⟨n, (h'.kin _).trans hmother⟩,
    (h'.kin _).trans h.new⟩

theorem addTask_kin {k k' : Kernel} {task : Nat} (h : k.addTask task = some k') :
    SameKin k k' := by
  unfold Kernel.addTask at h
  obtain ⟨temp, -, rfl⟩ := Option.map_eq_some_iff.mp h
  exact sameKin_modify k temp rfl

theorem addTask_current {k k' : Kernel} {task : Nat} (h : k.addTask task = some k') :
    k'.currentTask = k.currentTask := by
  unfold Kernel.addTask at h
  obtain ⟨temp, -, rfl⟩ := Option.map_eq_some_iff.mp h
  rfl

/-- `init_task` makes the new task, and the creator counts it later. -/
theorem born_of_initTask {k k₁ : Kernel} (hcurrent : k.currentTask < k.count)
    (h : SameKin k.initTask.2 k₁) :
    Born k (k₁.modify k.currentTask fun task =>
      { task with childCount := task.childCount + 1 }) := by
  have hold : ∀ t < k.count, kin (k₁.task t) = kin (k.task t) := fun t ht => by
    rw [h.kin t]
    exact congrArg kin (Function.update_of_ne (Nat.ne_of_lt ht) _ _)
  have hne : k.count ≠ k.currentTask := Nat.ne_of_gt hcurrent
  refine ⟨h.count, h.removed, fun t ht htc => ?_, ?_, ?_⟩
  · rw [Kernel.modify_task_ne k₁ htc]
    exact hold t ht
  · rw [Kernel.modify_task_self]
    unfold Kernel.current
    rw [← hold k.currentTask hcurrent]
    exact ⟨(k₁.task k.currentTask).childCount, rfl⟩
  · rw [Kernel.modify_task_ne k₁ hne, h.kin]
    simp [Kernel.initTask, Kernel.set, kin]

theorem createProcess_born {k k' : Kernel} {function : Nat} (hcurrent : k.currentTask < k.count)
    (h : k.createProcess function = some k') : Born k k' := by
  unfold Kernel.createProcess at h
  obtain ⟨k₂, hadd, rfl⟩ := Option.map_eq_some_iff.mp h
  have hstart : SameKin k.initTask.2 (k.initTask.2.modify k.count fun task =>
      { task with eip := function, tid := 0 }) := sameKin_modify _ _ rfl
  have hsame := hstart.trans (addTask_kin hadd)
  have heq : k₂.currentTask = k.currentTask := (addTask_current hadd).trans rfl
  rw [heq]
  exact born_of_initTask hcurrent hsame

theorem createThread_born {k k' : Kernel} {function pid : Nat} (hcurrent : k.currentTask < k.count)
    (h : k.createThread function = some (pid, k')) : Born k k' := by
  unfold Kernel.createThread at h
  obtain ⟨k₂, hadd, heq⟩ := Option.map_eq_some_iff.mp h
  obtain ⟨-, rfl⟩ := Prod.mk.inj heq
  have hstart : SameKin k.initTask.2 (k.initTask.2.modify k.count fun task =>
      { task with eip := function }) := sameKin_modify _ _ rfl
  have hsame := hstart.trans (addTask_kin hadd)
  have heq : k₂.currentTask = k.currentTask := (addTask_current hadd).trans rfl
  have hborn := born_of_initTask hcurrent hsame
  rw [← heq] at hborn
  exact hborn.trans ((sameKin_modify _ _ rfl).trans (sameKin_modify _ _ rfl))

/-- The task `u` was removed, and its parent may have noticed. -/
structure Gone (k k' : Kernel) (u : Nat) : Prop where
  count : k'.count = k.count
  removed : k'.removed = u :: k.removed
  parent : ∀ t, (k'.task t).parent = (k.task t).parent
  others : ∀ t, t ≠ (k.task u).parent → kin (k'.task t) = kin (k.task t)
  /-- A parent that is not waiting is not told. -/
  deaf : ∀ t, (k.task t).waiting = false →
    (k'.task t).waiting = false ∧ (k'.task t).child = (k.task t).child

theorem Gone.between {k k₀ k₁ k' : Kernel} {u : Nat} (h : SameKin k k₀) (hgone : Gone k₀ k₁ u)
    (h' : SameKin k₁ k') : Gone k k' u where
  count := h'.count.trans (hgone.count.trans h.count)
  removed := by rw [h'.removed, hgone.removed, h.removed]
  parent t := by
    rw [parent_of_kin (h'.kin t), hgone.parent t, parent_of_kin (h.kin t)]
  others t ht := by
    rw [h'.kin t, hgone.others t (by rw [parent_of_kin (h.kin u)]; exact ht), h.kin t]
  deaf t ht := by
    obtain ⟨hwaiting, hchild⟩ := hgone.deaf t (by rw [waiting_of_kin (h.kin t)]; exact ht)
    rw [waiting_of_kin (h'.kin t), child_of_kin (h'.kin t), ← child_of_kin (h.kin t)]
    exact ⟨hwaiting, hchild⟩

/-- Where the parent is not waiting, `remove_task` only counts it one child less. -/
theorem noticeParent_gone (k : Kernel) (u : Nat) :
    (∀ t, ((k.noticeParent u).task t).parent = (k.task t).parent) ∧
      (∀ t, t ≠ (k.task u).parent → (k.noticeParent u).task t = k.task t) ∧
      ∀ t, (k.task t).waiting = false → ((k.noticeParent u).task t).waiting = false ∧
        ((k.noticeParent u).task t).child = (k.task t).child := by
  have htold : ∀ {p t : Nat}, (k.task p).waiting = true → (k.task t).waiting = false → t ≠ p := by
    rintro p t hp ht rfl
    exact Bool.false_ne_true (ht.symm.trans hp)
  unfold Kernel.noticeParent
  dsimp only
  split
  · rename_i hwaiting
    split
    · refine ⟨fun t => (modify_keeps Task.parent (by rfl) t).trans
          (modify_keeps Task.parent (by rfl) t), fun t ht => ?_, fun t ht => ?_⟩
      · rw [Kernel.modify_task_ne _ ht, Kernel.modify_task_ne k ht]
      · have htp := htold hwaiting ht
        rw [Kernel.modify_task_ne _ htp, Kernel.modify_task_ne k htp]
        exact ⟨ht, rfl⟩
    · refine ⟨modify_keeps Task.parent (by rfl), fun t ht => Kernel.modify_task_ne k ht _,
        fun t ht => ?_⟩
      rw [Kernel.modify_task_ne k (htold hwaiting ht)]
      exact ⟨ht, rfl⟩
  · split
    · exact ⟨modify_keeps Task.parent (by rfl), fun t ht => Kernel.modify_task_ne k ht _,
        fun t ht => ⟨(modify_keeps Task.waiting (by rfl) t).trans ht,
          modify_keeps Task.child (by rfl) t⟩⟩
    · exact ⟨fun _ => rfl, fun _ _ => rfl, fun _ ht => ⟨ht, rfl⟩⟩

theorem removeTask_gone {k k' : Kernel} {u : Nat} (h : k.removeTask u = some k') :
    Gone k k' u := by
  obtain ⟨-, -, -, hcount, -, -, hremoved⟩ := removeTask_links h
  unfold Kernel.removeTask at h
  obtain ⟨move, -, rfl⟩ := Option.map_eq_some_iff.mp h
  have hlink : SameKin k (k.modify move fun before => { before with next := k.next u }) :=
    sameKin_modify k move rfl
  obtain ⟨hparent, hothers, hdeaf⟩ :=
    noticeParent_gone (k.modify move fun before => { before with next := k.next u }) u
  refine ⟨hcount, hremoved, fun t => (hparent t).trans (parent_of_kin (hlink.kin t)),
    fun t ht => ?_, fun t ht => ?_⟩
  · rw [← hlink.kin t]
    refine congrArg kin (hothers t ?_)
    rw [parent_of_kin (hlink.kin u)]
    exact ht
  · obtain ⟨hwaiting, hchild⟩ := hdeaf t (by rw [waiting_of_kin (hlink.kin t)]; exact ht)
    exact ⟨hwaiting, hchild.trans (child_of_kin (hlink.kin t))⟩

theorem handleSignal_kin {k k' : Kernel} {t signal : Nat} {ret : Int}
    (h : k.handleSignal t signal = some (ret, k')) :
    if signal < maxSignals && !(k.task t).sigQueued && (k.task t).sighandle signal = 0
    then Gone k k' t else SameKin k k' := by
  have hqueue : SameKin k (queueSignal k t signal) := sameKin_modify k t rfl
  rcases handleSignal_inv h with ⟨hno, rfl⟩ | ⟨⟨hrange, hqueued⟩, hrest⟩
  · rw [if_neg (by rcases hno with hno | hno <;> simp [hno])]
    exact SameKin.refl k'
  rcases hrest with ⟨hhandler, hremove⟩ | ⟨hhandler, hrest⟩
  · rw [if_pos (by simp [hrange, hqueued, hhandler])]
    exact removeTask_gone hremove
  · rw [if_neg (by simp [hhandler])]
    rcases hrest with ⟨-, hsleep⟩ | ⟨-, rfl⟩
    · exact (hqueue.trans (sameKin_modify _ _ rfl)).trans (switchTask_kin hsleep)
    · exact hqueue

/-- **What a call does to parents and children.** -/
theorem taskStep_kin {k k' : Kernel} {op : TaskOp} (hk : PointersOk k)
    (h : taskStep k op = some k') :
    (removalTarget k op = none ∧ (SameKin k k' ∨ Born k k')) ∨
      ∃ u, removalTarget k op = some u ∧ u < k.count ∧ Gone k k' u := by
  cases op with
  | createProcess function => exact Or.inl ⟨rfl, Or.inr (createProcess_born hk.current h)⟩
  | createThread function =>
      obtain ⟨⟨pid, k₁⟩, hcreate, rfl⟩ := Option.map_eq_some_iff.mp h
      exact Or.inl ⟨rfl, Or.inr (createThread_born hk.current hcreate)⟩
  | killThread pid =>
      obtain ⟨⟨ret, k₁⟩, hkill, rfl⟩ := Option.map_eq_some_iff.mp h
      rcases killThread_inv hkill with ⟨hfound, rfl⟩ | ⟨u, hfound, hremove⟩
      · exact Or.inl ⟨by simp [removalTarget, hfound], Or.inl (SameKin.refl k₁)⟩
      · exact Or.inr ⟨u, by simp [removalTarget, hfound], hk.getPidTask hfound,
          removeTask_gone hremove⟩
  | kill pid signal =>
      obtain ⟨⟨ret, k₁⟩, hkill, rfl⟩ := Option.map_eq_some_iff.mp h
      rcases kill_inv hkill with ⟨hfound, rfl⟩ | ⟨t, hfound, hsignal⟩
      · exact Or.inl ⟨by simp [removalTarget, hfound], Or.inl (SameKin.refl k₁)⟩
      · have hcases := handleSignal_kin hsignal
        simp only [removalTarget, hfound]
        rw [Option.join_some, Option.filter_some]
        split at hcases
        · rename_i hcond
          exact Or.inr ⟨t, if_pos hcond, hk.getPidTask hfound, hcases⟩
        · rename_i hcond
          exact Or.inl ⟨if_neg hcond, Or.inl hcases⟩
  | exit =>
      obtain ⟨k₁, hremove, hswitch⟩ := Option.bind_eq_some_iff.mp h
      exact Or.inr ⟨_, rfl, hk.current, Gone.between (sameKin_modify k _ rfl) (removeTask_gone hremove)
        (switchTask_kin hswitch)⟩
  | sleepThread time =>
      exact Or.inl ⟨rfl, Or.inl ((sameKin_modify k _ rfl).trans (switchTask_kin h))⟩
  | signal signal handler =>
      obtain rfl := Option.some.inj h
      refine Or.inl ⟨rfl, Or.inl ?_⟩
      unfold Kernel.setSignal
      split
      · exact SameKin.refl k
      · dsimp only
        exact sameKin_modify k _ rfl
  | sigreturn =>
      exact Or.inl ⟨rfl, Or.inl ((sameKin_modify k _ rfl).trans (switchTask_kin h))⟩
  | timer =>
      have htick : SameKin k { k with tick := (k.tick + 1) % 2 ^ 32 } := ⟨rfl, rfl, fun _ => rfl⟩
      exact Or.inl ⟨rfl, Or.inl (htick.trans (switchTask_kin h))⟩

/-! ### Undisturbed runs -/

/-- As long as nothing disturbs them, tasks in `wait` stay in its loop, none of their
children has exited, and a task with children counts some. -/
structure PatientInv (s : Waits) : Prop where
  pointers : PointersOk s.kernel
  gone : ∀ u ∈ s.kernel.removed, u < s.kernel.count
  parents : ∀ u < s.kernel.count, (s.kernel.task u).parent < s.kernel.count
  exist : ∀ t, s.pc t ≠ none → t < s.kernel.count
  stage : ∀ t pc, s.pc t = some pc → pc = .checked ∨
    ((pc = .looping ∨ pc = .dozing) ∧ (s.kernel.task t).waiting = true)
  alive : ∀ t, s.pc t ≠ none → ∀ u ∈ s.kernel.removed, (s.kernel.task u).parent ≠ t
  counted : ∀ t < s.kernel.count, (∀ u ∈ s.kernel.removed, (s.kernel.task u).parent ≠ t) →
    (∃ u, Child s.kernel t u) → (s.kernel.task t).childCount ≠ 0

theorem PatientInv.boot (dir readEip : Nat) : PatientInv (Waits.boot dir readEip) where
  pointers := ⟨⟨Nat.zero_lt_one, fun _ _ _ hu => by cases hu⟩, Nat.zero_lt_one⟩
  gone _ hu := by cases hu
  parents _ _ := Nat.zero_lt_one
  exist _ h := absurd rfl h
  stage _ _ h := by cases h
  alive _ h := absurd rfl h
  counted t ht _ := by
    rintro ⟨u, hu, hne, -⟩
    obtain rfl := Nat.lt_one_iff.mp hu
    exact absurd (Nat.lt_one_iff.mp ht).symm hne

theorem goto_pc_self (s : Waits) (k' : Kernel) (pc : Option WaitPc) :
    (s.goto k' pc).pc s.kernel.currentTask = pc := Function.update_self ..

theorem goto_pc_ne (s : Waits) (k' : Kernel) (pc : Option WaitPc) {t : Nat}
    (ht : t ≠ s.kernel.currentTask) : (s.goto k' pc).pc t = s.pc t := Function.update_of_ne ht ..

/-- Whoever waits after a step of the current task is a task. -/
theorem goto_exist {s : Waits} {k' : Kernel} {pc : Option WaitPc} {t : Nat}
    (hexist : ∀ t, s.pc t ≠ none → t < s.kernel.count)
    (hcurrent : s.kernel.currentTask < s.kernel.count) (hcount : k'.count = s.kernel.count)
    (ht : (s.goto k' pc).pc t ≠ none) : t < (s.goto k' pc).kernel.count := by
  show t < k'.count
  rw [hcount]
  rcases eq_or_ne t s.kernel.currentTask with rfl | hne
  · exact hcurrent
  · rw [goto_pc_ne s k' pc hne] at ht
    exact hexist t ht

/-- What the current task does with its own `waiting` in a step of `wait`. -/
theorem PatientInv.goto {s : Waits} {k' : Kernel} {pc : Option WaitPc} (h : PatientInv s)
    (hpointers : PointersOk k') (hcount : k'.count = s.kernel.count)
    (hremoved : k'.removed = s.kernel.removed)
    (hparent : ∀ t, (k'.task t).parent = (s.kernel.task t).parent)
    (hchildren : ∀ t, (k'.task t).childCount = (s.kernel.task t).childCount)
    (hwaiting : ∀ t, t ≠ s.kernel.currentTask → (k'.task t).waiting = (s.kernel.task t).waiting)
    (hstage : ∀ p, pc = some p → p = .checked ∨
      ((p = .looping ∨ p = .dozing) ∧ (k'.task s.kernel.currentTask).waiting = true))
    (halive : pc ≠ none → ∀ u ∈ s.kernel.removed,
      (s.kernel.task u).parent ≠ s.kernel.currentTask) : PatientInv (s.goto k' pc) := by
  have hself : (s.goto k' pc).pc s.kernel.currentTask = pc := goto_pc_self s k' pc
  have hpc : ∀ t, t ≠ s.kernel.currentTask → (s.goto k' pc).pc t = s.pc t := fun _ ht =>
    goto_pc_ne s k' pc ht
  refine ⟨hpointers, fun u hu => ?_, fun u hu => ?_,
    fun t => goto_exist h.exist h.pointers.current hcount, fun t p hp => ?_,
    fun t ht u hu => ?_, fun t ht hnone => ?_⟩
  · show u < k'.count
    rw [hcount]
    exact h.gone u (hremoved ▸ hu)
  · show (k'.task u).parent < k'.count
    rw [hparent, hcount]
    exact h.parents u (hcount ▸ hu)
  · rcases eq_or_ne t s.kernel.currentTask with rfl | hne
    · rw [hself] at hp
      exact hstage p hp
    · rw [hpc t hne] at hp
      rw [show ((s.goto k' pc).kernel.task t).waiting = (s.kernel.task t).waiting from
        hwaiting t hne]
      exact h.stage t p hp
  · have hu : u ∈ s.kernel.removed := hremoved ▸ hu
    show (k'.task u).parent ≠ t
    rw [hparent]
    rcases eq_or_ne t s.kernel.currentTask with rfl | hne
    · rw [hself] at ht
      exact halive ht u hu
    · rw [hpc t hne] at ht
      exact h.alive t ht u hu
  · rintro ⟨u, hu, hne, hchild⟩
    show (k'.task t).childCount ≠ 0
    rw [hchildren]
    refine h.counted t (hcount ▸ ht) (fun v hv => ?_) ⟨u, hcount ▸ hu, hne, ?_⟩
    · rw [← hparent]
      exact hnone v (show v ∈ k'.removed from hremoved ▸ hv)
    · rw [← hparent]
      exact hchild

theorem PatientInv.same {s : Waits} {k' : Kernel} (h : PatientInv s) (hpointers : PointersOk k')
    (hsame : SameKin s.kernel k') : PatientInv { s with kernel := k' } := by
  have hparent : ∀ t, (k'.task t).parent = (s.kernel.task t).parent := fun t =>
    parent_of_kin (hsame.kin t)
  refine ⟨hpointers, fun u hu => ?_, fun u hu => ?_, fun t ht => ?_, fun t p hp => ?_,
    fun t ht u hu => ?_, fun t ht hnone => ?_⟩
  · show u < k'.count
    rw [hsame.count]
    exact h.gone u (hsame.removed ▸ hu)
  · show (k'.task u).parent < k'.count
    rw [hparent, hsame.count]
    exact h.parents u (hsame.count ▸ hu)
  · show t < k'.count
    rw [hsame.count]
    exact h.exist t ht
  · rw [waiting_of_kin (hsame.kin t)]
    exact h.stage t p hp
  · show (k'.task u).parent ≠ t
    rw [hparent]
    exact h.alive t ht u (hsame.removed ▸ hu)
  · rintro ⟨u, hu, hne, hchild⟩
    show (k'.task t).childCount ≠ 0
    rw [childCount_of_kin (hsame.kin t)]
    refine h.counted t (hsame.count ▸ ht) (fun v hv => ?_) ⟨u, hsame.count ▸ hu, hne, ?_⟩
    · rw [← hparent]
      exact hnone v (show v ∈ k'.removed from hsame.removed ▸ hv)
    · rw [← hparent]
      exact hchild

theorem PatientInv.born {s : Waits} {k' : Kernel} (h : PatientInv s) (hpointers : PointersOk k')
    (hborn : Born s.kernel k') : PatientInv { s with kernel := k' } := by
  obtain ⟨n, hmother⟩ := hborn.mother
  have hold : ∀ t < s.kernel.count, (k'.task t).parent = (s.kernel.task t).parent ∧
      (k'.task t).waiting = (s.kernel.task t).waiting := fun t ht => by
    rcases eq_or_ne t s.kernel.currentTask with rfl | hne
    · exact ⟨congrArg Kin.parent hmother, congrArg Kin.waiting hmother⟩
    · exact ⟨parent_of_kin (hborn.others t ht hne), waiting_of_kin (hborn.others t ht hne)⟩
  have hlt : ∀ {t}, t < k'.count → t < s.kernel.count ∨ t = s.kernel.count := fun ht => by
    rw [hborn.count] at ht
    exact Nat.lt_succ_iff_lt_or_eq.mp ht
  refine ⟨hpointers, fun u hu => ?_, fun u hu => ?_, fun t ht => ?_, fun t p hp => ?_,
    fun t ht u hu => ?_, fun t ht hnone => ?_⟩
  · show u < k'.count
    rw [hborn.count]
    exact Nat.lt_succ_of_lt (h.gone u (hborn.removed ▸ hu))
  · show (k'.task u).parent < k'.count
    rw [hborn.count]
    rcases hlt hu with hlt | rfl
    · rw [(hold u hlt).1]
      exact Nat.lt_succ_of_lt (h.parents u hlt)
    · rw [show (k'.task _).parent = _ from congrArg Kin.parent hborn.new]
      exact Nat.lt_succ_of_lt h.pointers.current
  · show t < k'.count
    rw [hborn.count]
    exact Nat.lt_succ_of_lt (h.exist t ht)
  · rw [(hold t (h.exist t (by rw [hp]; exact Option.some_ne_none p))).2]
    exact h.stage t p hp
  · have hu : u ∈ s.kernel.removed := hborn.removed ▸ hu
    show (k'.task u).parent ≠ t
    rw [(hold u (h.gone u hu)).1]
    exact h.alive t ht u hu
  · rintro ⟨u, hu, hne, hchild⟩
    have hchild : (k'.task u).parent = t := hchild
    show (k'.task t).childCount ≠ 0
    rcases eq_or_ne t s.kernel.currentTask with rfl | htc
    · rw [show (k'.task _).childCount = n + 1 from congrArg Kin.childCount hmother]
      exact Nat.succ_ne_zero n
    · -- the new task has no children, and the others have the ones they had
      rcases hlt hu with hult | rfl
      · rw [(hold u hult).1] at hchild
        have htlt : t < s.kernel.count := hchild ▸ h.parents u hult
        rw [childCount_of_kin (hborn.others t htlt htc)]
        refine h.counted t htlt (fun v hv => ?_) ⟨u, hult, hne, hchild⟩
        rw [← (hold v (h.gone v hv)).1]
        exact hnone v (show v ∈ k'.removed from hborn.removed ▸ hv)
      · rw [show (k'.task _).parent = _ from congrArg Kin.parent hborn.new] at hchild
        exact absurd hchild.symm htc

theorem PatientInv.goneStep {s : Waits} {k' : Kernel} {u : Nat} (h : PatientInv s)
    (hpointers : PointersOk k') (hu : u < s.kernel.count) (hgone : Gone s.kernel k' u)
    (hidle : s.pc (s.kernel.task u).parent = none) : PatientInv { s with kernel := k' } := by
  have hne : ∀ t, s.pc t ≠ none → t ≠ (s.kernel.task u).parent := fun t ht hpt => ht (hpt ▸ hidle)
  refine ⟨hpointers, fun v hv => ?_, fun v hv => ?_, fun t ht => ?_, fun t p hp => ?_,
    fun t ht v hv => ?_, fun t ht hnone => ?_⟩
  · have hv : v ∈ k'.removed := hv
    show v < k'.count
    rw [hgone.count]
    rw [hgone.removed] at hv
    rcases List.mem_cons.mp hv with rfl | hv
    · exact hu
    · exact h.gone v hv
  · show (k'.task v).parent < k'.count
    rw [hgone.parent, hgone.count]
    exact h.parents v (hgone.count ▸ hv)
  · show t < k'.count
    rw [hgone.count]
    exact h.exist t ht
  · have htu := hne t (by rw [show s.pc t = some p from hp]; exact Option.some_ne_none p)
    rw [waiting_of_kin (hgone.others t htu)]
    exact h.stage t p hp
  · have hv : v ∈ k'.removed := hv
    show (k'.task v).parent ≠ t
    rw [hgone.parent]
    rw [hgone.removed] at hv
    rcases List.mem_cons.mp hv with rfl | hv
    · exact (hne t ht).symm
    · exact h.alive t ht v hv
  · rintro ⟨v, hv, hvt, hchild⟩
    have hnone : ∀ w ∈ k'.removed, (k'.task w).parent ≠ t := hnone
    rw [hgone.removed] at hnone
    have htu : t ≠ (s.kernel.task u).parent := by
      rw [← hgone.parent]
      exact (hnone u List.mem_cons_self).symm
    show (k'.task t).childCount ≠ 0
    rw [childCount_of_kin (hgone.others t htu)]
    refine h.counted t (hgone.count ▸ ht) (fun w hw => ?_) ⟨v, hgone.count ▸ hv, hvt, ?_⟩
    · rw [← hgone.parent]
      exact hnone w (List.mem_cons_of_mem u hw)
    · rw [← hgone.parent]
      exact hchild

/-! ### One step -/

/-- A step that returns from no call and puts nobody to sleep. -/
theorem Collects.of_same {s s' : Waits} (hreturned : s'.returned = s.returned)
    (hsleeps : ∀ t, s.pc t ≠ some .dozing → s'.pc t = some .dozing → ∀ u, ¬ Unreported s t u) :
    Collects s s' where
  nothing t status h := by
    rw [hreturned] at h
    exact absurd h.symm (List.cons_ne_self _ _)
  child t ret status h := by
    rw [hreturned] at h
    exact absurd h.symm (List.cons_ne_self _ _)
  sleeps := hsleeps

theorem PatientInv.taskOp {s : Waits} {k' : Kernel} {op : TaskOp} (h : PatientInv s)
    (hstep : taskStep s.kernel op = some k')
    (hidle : ∀ u, removalTarget s.kernel op = some u → s.pc (s.kernel.task u).parent = none) :
    PatientInv { s with kernel := k' } := by
  have hpointers := (taskStep_quiet hstep).pointers h.pointers
  rcases taskStep_kin h.pointers hstep with ⟨-, hsame | hborn⟩ | ⟨u, htarget, hu, hgone⟩
  · exact h.same hpointers hsame
  · exact h.born hpointers hborn
  · exact h.goneStep hpointers hu hgone (hidle u htarget)

/-- The current task goes on in `wait` at `pc`, having done nothing. -/
private theorem PatientInv.stay {s : Waits} {pc : Option WaitPc} (h : PatientInv s)
    (hstage : ∀ p, pc = some p → p = .checked ∨ ((p = .looping ∨ p = .dozing) ∧
      s.kernel.current.waiting = true))
    (halive : pc ≠ none → ∀ u ∈ s.kernel.removed,
      (s.kernel.task u).parent ≠ s.kernel.currentTask) : PatientInv (s.goto s.kernel pc) :=
  h.goto h.pointers rfl rfl (fun _ => rfl) (fun _ => rfl) (fun _ _ => rfl) hstage halive

/-- In `goto`, who is put to sleep is the current task. -/
private theorem goto_dozing {s : Waits} {k' : Kernel} {pc : Option WaitPc} {t : Nat}
    (hbefore : s.pc t ≠ some .dozing) (hafter : (s.goto k' pc).pc t = some .dozing) :
    t = s.kernel.currentTask ∧ pc = some .dozing := by
  unfold Waits.goto at hafter
  dsimp only at hafter
  rcases eq_or_ne t s.kernel.currentTask with rfl | hne
  · rw [Function.update_self] at hafter
    exact ⟨rfl, hafter⟩
  · rw [Function.update_of_ne hne] at hafter
    exact absurd hafter hbefore

/-- Going on, but not to sleep, returns from no call and puts nobody to sleep. -/
private theorem collects_goto {s : Waits} {k' : Kernel} {pc : WaitPc} (hpc : pc ≠ .dozing) :
    Collects s (s.goto k' (some pc)) :=
  Collects.of_same rfl fun _ hbefore hafter =>
    absurd (Option.some.inj (goto_dozing hbefore hafter).2) hpc

/-- There is nothing to wait for, and there never was. -/
private theorem PatientInv.childless {s : Waits} (h : PatientInv s)
    (halive : ∀ u ∈ s.kernel.removed, (s.kernel.task u).parent ≠ s.kernel.currentTask)
    (hcount : s.kernel.current.childCount = 0) :
    PatientInv (s.finish (-1) 1) ∧ Collects s (s.finish (-1) 1) := by
  have hinv : PatientInv (s.goto s.kernel none) :=
    h.stay (fun p hp => (by cases hp)) fun hne => absurd rfl hne
  refine ⟨⟨hinv.pointers, hinv.gone, hinv.parents, hinv.exist, hinv.stage, hinv.alive,
    hinv.counted⟩, ⟨fun t status hreturned u hu => ?_, fun t ret status hreturned hret => ?_,
    fun t hbefore hafter => ?_⟩⟩
  · obtain ⟨hwaited, -⟩ := List.cons.inj hreturned
    obtain ⟨rfl, -, -⟩ := Waited.mk.inj hwaited
    exact absurd hcount (h.counted _ h.pointers.current halive ⟨u, hu⟩)
  · obtain ⟨hwaited, -⟩ := List.cons.inj hreturned
    obtain ⟨-, rfl, -⟩ := Waited.mk.inj hwaited
    exact absurd rfl hret
  · have hafter : (s.goto s.kernel none).pc t = some .dozing := hafter
    exact absurd (goto_dozing hbefore hafter).2 (Option.some_ne_none _).symm

/-- The task is marked as waiting. -/
private theorem PatientInv.mark {s : Waits} (h : PatientInv s)
    (halive : ∀ u ∈ s.kernel.removed, (s.kernel.task u).parent ≠ s.kernel.currentTask) :
    PatientInv (s.goto (s.kernel.modify s.kernel.currentTask fun t => { t with waiting := true })
      (some .looping)) := by
  have hset : Quiet s.kernel (s.kernel.modify s.kernel.currentTask fun t =>
      { t with waiting := true }) := quiet_modify _ _ rfl rfl
  refine h.goto (hset.pointers h.pointers) rfl rfl (modify_keeps Task.parent rfl)
    (modify_keeps Task.childCount rfl) (fun t ht => ?_) (fun p hp => ?_) fun _ => halive
  · rw [Kernel.modify_task_ne _ ht]
  · refine Or.inr ⟨Or.inl (Option.some.inj hp).symm, ?_⟩
    rw [Kernel.modify_task_self]

/-- It goes to sleep, and others run. -/
private theorem PatientInv.doze {s : Waits} {k' : Kernel} (h : PatientInv s)
    (halive : ∀ u ∈ s.kernel.removed, (s.kernel.task u).parent ≠ s.kernel.currentTask)
    (hwaiting : s.kernel.current.waiting = true) (hsleep : s.kernel.sleepThread 3 = some k') :
    PatientInv (s.goto k' (some .looping)) := by
  have hquiet := sleepThread_quiet hsleep
  unfold Kernel.sleepThread at hsleep
  have hsame : SameKin s.kernel k' := (sameKin_modify _ _ rfl).trans (switchTask_kin hsleep)
  refine h.goto (hquiet.pointers h.pointers) hsame.count hsame.removed
    (fun t => parent_of_kin (hsame.kin t)) (fun t => childCount_of_kin (hsame.kin t))
    (fun t _ => waiting_of_kin (hsame.kin t)) (fun p hp => ?_) fun _ => halive
  refine Or.inr ⟨Or.inl (Option.some.inj hp).symm, ?_⟩
  rw [waiting_of_kin (hsame.kin _)]
  exact hwaiting

/-- **A step of `wait`**, by a task whose exited children are none of its business. -/
theorem PatientInv.wait {s s' : Waits} (h : PatientInv s)
    (hfirst : s.pc s.kernel.currentTask = none →
      ∀ u ∈ s.kernel.removed, (s.kernel.task u).parent ≠ s.kernel.currentTask)
    (hstep : s.wait = some s') : PatientInv s' ∧ Collects s s' := by
  have halive : ∀ u ∈ s.kernel.removed, (s.kernel.task u).parent ≠ s.kernel.currentTask := by
    by_cases hpc : s.pc s.kernel.currentTask = none
    · exact hfirst hpc
    · exact h.alive _ hpc
  unfold Waits.wait at hstep
  rcases hpc : s.pc s.kernel.currentTask with _ | pc
  · rw [hpc] at hstep
    dsimp only at hstep
    split at hstep
    · rename_i hcount
      obtain rfl := Option.some.inj hstep
      exact h.childless halive hcount
    · obtain rfl := Option.some.inj hstep
      exact ⟨h.stay (fun p hp => Or.inl (Option.some.inj hp).symm) fun _ => halive,
        collects_goto (by decide)⟩
  rcases h.stage _ pc hpc with rfl | ⟨rfl | rfl, hwaiting⟩
  · rw [hpc] at hstep
    obtain rfl := Option.some.inj hstep
    exact ⟨h.mark halive, collects_goto (by decide)⟩
  · rw [hpc] at hstep
    dsimp only at hstep
    have hwaiting : s.kernel.current.waiting = true := hwaiting
    rw [if_pos hwaiting] at hstep
    obtain rfl := Option.some.inj hstep
    refine ⟨h.stay (fun p hp => Or.inr ⟨Or.inr (Option.some.inj hp).symm, hwaiting⟩)
      fun _ => halive, Collects.of_same rfl fun t hbefore hafter u hu => ?_⟩
    obtain ⟨rfl, -⟩ := goto_dozing hbefore hafter
    exact halive u hu.2.1 hu.1.2.2
  · rw [hpc] at hstep
    obtain ⟨k', hsleep, rfl⟩ := Option.map_eq_some_iff.mp hstep
    exact ⟨h.doze halive hwaiting hsleep, collects_goto (by decide)⟩

/-! ### Any number of steps -/

theorem PatientInv.step {s s' : Waits} {op : WaitOp} (h : PatientInv s)
    (hstep : waitStep s op = some s') (hquiet : Undisturbed s op) :
    PatientInv s' ∧ Collects s s' := by
  cases op with
  | task op =>
      obtain ⟨k', hk', rfl⟩ := Option.map_eq_some_iff.mp hstep
      exact ⟨h.taskOp hk' hquiet, Collects.of_same rfl fun t hbefore hafter =>
        absurd hafter hbefore⟩
  | wait => exact h.wait hquiet hstep

/--
**`wait` collects children as long as none exits.**  Over every interleaving from boot in
which no task calls `wait` after a child of it was removed, and no child is removed while
its parent is in `wait`, every step of `wait` is as it should be.
-/
theorem children_collected (dir readEip : Nat) (ops : List WaitOp)
    (hquiet : EveryStep waitStep (fun s op _ => Undisturbed s op) (Waits.boot dir readEip) ops) :
    EveryStep waitStep (fun s _ s' => Collects s s') (Waits.boot dir readEip) ops :=
  everyStep_of_inv (fun _ _ _ h hstep hc => (PatientInv.step h hstep hc).1)
    (fun _ _ _ h hstep hc => (PatientInv.step h hstep hc).2) (PatientInv.boot dir readEip) hquiet

/-- The boot task waits for a thread.  A thread of that thread exits in the meantime, and the boot
task wakes up and goes to sleep again. -/
theorem children_collected_boot :
    (runAll waitStep (Waits.boot 0x101000 0x100000)
      [.task (.createThread 0x102000), .task .timer, .task (.createThread 0x103000),
        .task .timer, .task .timer, .wait, .wait, .wait, .wait, .task .timer, .task .exit,
        .task .timer, .task .timer, .task .timer, .wait]).map (fun s => s.kernel.removed) =
      some [2] ∧
    EveryStep waitStep (fun s _ s' => Collects s s') (Waits.boot 0x101000 0x100000)
      [.task (.createThread 0x102000), .task .timer, .task (.createThread 0x103000),
        .task .timer, .task .timer, .wait, .wait, .wait, .wait, .task .timer, .task .exit,
        .task .timer, .task .timer, .task .timer, .wait] :=
  ⟨by decide +kernel, children_collected _ _ _ (by decide +kernel)⟩

/-- A child exits while the boot task waits for it, and the call returns 0 and not 2. -/
theorem child_not_reported :
    ¬ EveryStep waitStep (fun s _ s' => Collects s s') (Waits.boot 0x101000 0x100000)
      [.task (.createThread 0x102000), .wait, .wait, .wait, .wait, .task .exit,
        .wait, .wait, .wait, .wait] := by
  intro h
  have hrun : (runAll waitStep (Waits.boot 0x101000 0x100000)
      [.task (.createThread 0x102000), .wait, .wait, .wait, .wait, .task .exit,
        .wait, .wait, .wait]).bind (fun s => (waitStep s .wait).map fun s' =>
          (s'.returned, s.returned, s.kernel.count, (s.kernel.task 1).id)) =
        some ([⟨0, 0, 0⟩], [], 2, 2) := by
    decide +kernel
  obtain ⟨s, hs, hrest⟩ := Option.bind_eq_some_iff.mp hrun
  obtain ⟨s', hstep, heq⟩ := Option.map_eq_some_iff.mp hrest
  obtain ⟨hafter, heq⟩ := Prod.mk.inj heq
  obtain ⟨hbefore, heq⟩ := Prod.mk.inj heq
  obtain ⟨hcount, hid⟩ := Prod.mk.inj heq
  have hall : EveryStep waitStep (fun s _ s' => Collects s s') (Waits.boot 0x101000 0x100000)
      ([.task (.createThread 0x102000), .wait, .wait, .wait, .wait, .task .exit,
        .wait, .wait, .wait] ++ [.wait]) := h
  obtain ⟨u, ⟨⟨hu, hne, -⟩, -, -⟩, hpid⟩ :=
    (hall.last hs hstep).child 0 0 0 (by rw [hafter, hbefore]) (by decide)
  rw [hcount] at hu
  obtain rfl : u = 1 := by omega
  rw [hid] at hpid
  cases hpid

/-! ### Past the loop -/

/-- Whoever is past the loop waits no more, and what `wait` reads last is 0. -/
structure PassedInv (s : Waits) : Prop where
  pointers : PointersOk s.kernel
  exist : ∀ t, s.pc t ≠ none → t < s.kernel.count
  cleared : ∀ t, s.pc t = some .cleared → (s.kernel.task t).waiting = false
  zeroed : ∀ t, s.pc t = some .zeroed →
    (s.kernel.task t).waiting = false ∧ (s.kernel.task t).child = 0
  returned : ∀ w ∈ s.returned, w.ret = -1 ∨ w.ret = 0

theorem PassedInv.boot (dir readEip : Nat) : PassedInv (Waits.boot dir readEip) where
  pointers := ⟨⟨Nat.zero_lt_one, fun _ _ _ hu => by cases hu⟩, Nat.zero_lt_one⟩
  exist _ h := absurd rfl h
  cleared _ h := by cases h
  zeroed _ h := by cases h
  returned _ h := by cases h

/-- Steps that leave `waiting` and `child` of those who do not wait as they are. -/
theorem PassedInv.deaf {s : Waits} {k' : Kernel} (h : PassedInv s) (hpointers : PointersOk k')
    (hcount : s.kernel.count ≤ k'.count)
    (hdeaf : ∀ t < s.kernel.count, (s.kernel.task t).waiting = false →
      (k'.task t).waiting = false ∧ (k'.task t).child = (s.kernel.task t).child) :
    PassedInv { s with kernel := k' } where
  pointers := hpointers
  exist t ht := Nat.lt_of_lt_of_le (h.exist t ht) hcount
  cleared t ht :=
    (hdeaf t (h.exist t (by rw [show s.pc t = _ from ht]; exact Option.some_ne_none _))
      (h.cleared t ht)).1
  zeroed t ht := by
    obtain ⟨hwaiting, hchild⟩ := h.zeroed t ht
    have hlt := h.exist t (by rw [show s.pc t = _ from ht]; exact Option.some_ne_none _)
    obtain ⟨hwaiting', hchild'⟩ := hdeaf t hlt hwaiting
    exact ⟨hwaiting', hchild'.trans hchild⟩
  returned := h.returned

theorem PassedInv.taskOp {s : Waits} {k' : Kernel} {op : TaskOp} (h : PassedInv s)
    (hstep : taskStep s.kernel op = some k') : PassedInv { s with kernel := k' } := by
  have hquiet := taskStep_quiet hstep
  refine h.deaf (hquiet.pointers h.pointers) hquiet.count fun t ht hwaiting => ?_
  rcases taskStep_kin h.pointers hstep with ⟨-, hsame | hborn⟩ | ⟨u, -, -, hgone⟩
  · exact ⟨(waiting_of_kin (hsame.kin t)).trans hwaiting, child_of_kin (hsame.kin t)⟩
  · obtain ⟨n, hmother⟩ := hborn.mother
    rcases eq_or_ne t s.kernel.currentTask with rfl | hne
    · exact ⟨(congrArg Kin.waiting hmother).trans hwaiting, congrArg Kin.child hmother⟩
    · exact ⟨(waiting_of_kin (hborn.others t ht hne)).trans hwaiting,
        child_of_kin (hborn.others t ht hne)⟩
  · exact hgone.deaf t hwaiting

/-- The current task goes on at `pc`, and only its own fields change. -/
theorem PassedInv.goto {s : Waits} {k' : Kernel} {pc : Option WaitPc} (h : PassedInv s)
    (hpointers : PointersOk k') (hcount : k'.count = s.kernel.count)
    (hothers : ∀ t, t ≠ s.kernel.currentTask → kin (k'.task t) = kin (s.kernel.task t))
    (hcleared : pc = some .cleared → (k'.task s.kernel.currentTask).waiting = false)
    (hzeroed : pc = some .zeroed → (k'.task s.kernel.currentTask).waiting = false ∧
      (k'.task s.kernel.currentTask).child = 0) : PassedInv (s.goto k' pc) := by
  have hself : (s.goto k' pc).pc s.kernel.currentTask = pc := goto_pc_self s k' pc
  have hpc : ∀ t, t ≠ s.kernel.currentTask → (s.goto k' pc).pc t = s.pc t := fun _ ht =>
    goto_pc_ne s k' pc ht
  refine ⟨hpointers, fun t => goto_exist h.exist h.pointers.current hcount,
    fun t ht => ?_, fun t ht => ?_, h.returned⟩
  · rcases eq_or_ne t s.kernel.currentTask with rfl | hne
    · exact hcleared (hself.symm.trans ht)
    · rw [hpc t hne] at ht
      exact (waiting_of_kin (hothers t hne)).trans (h.cleared t ht)
  · rcases eq_or_ne t s.kernel.currentTask with rfl | hne
    · exact hzeroed (hself.symm.trans ht)
    · rw [hpc t hne] at ht
      exact ⟨(waiting_of_kin (hothers t hne)).trans (h.zeroed t ht).1,
        (child_of_kin (hothers t hne)).trans (h.zeroed t ht).2⟩

theorem PassedInv.finish {s : Waits} {ret status : Int} (h : PassedInv s)
    (hret : ret = -1 ∨ ret = 0) : PassedInv (s.finish ret status) := by
  have hgoto : PassedInv (s.goto s.kernel none) :=
    h.goto h.pointers rfl (fun _ _ => rfl) (fun hpc => by cases hpc) fun hpc => by cases hpc
  exact ⟨hgoto.pointers, hgoto.exist, hgoto.cleared, hgoto.zeroed,
    List.forall_mem_cons.mpr ⟨hret, h.returned⟩⟩

/-- The current task writes to its own fields. -/
theorem PassedInv.set {s : Waits} {f : Task → Task} {pc : WaitPc} (h : PassedInv s)
    (hnext : (f (s.kernel.task s.kernel.currentTask)).next = s.kernel.next s.kernel.currentTask)
    (hcleared : pc = .cleared → (f s.kernel.current).waiting = false)
    (hzeroed : pc = .zeroed → (f s.kernel.current).waiting = false ∧
      (f s.kernel.current).child = 0) :
    PassedInv (s.goto (s.kernel.modify s.kernel.currentTask f) (some pc)) := by
  refine h.goto ⟨(sameQueue_modify s.kernel _ hnext).linksOk h.pointers.toLinksOk,
    h.pointers.current⟩ rfl (fun t ht => ?_) (fun hpc => ?_) fun hpc => ?_
  · rw [Kernel.modify_task_ne s.kernel ht]
  · rw [Kernel.modify_task_self]
    exact hcleared (Option.some.inj hpc)
  · rw [Kernel.modify_task_self]
    exact hzeroed (Option.some.inj hpc)

/-- It only goes on, to a place of which nothing is said. -/
theorem PassedInv.stay {s : Waits} {pc : WaitPc} (h : PassedInv s) (hcleared : pc ≠ .cleared)
    (hzeroed : pc ≠ .zeroed) : PassedInv (s.goto s.kernel (some pc)) :=
  h.goto h.pointers rfl (fun _ _ => rfl) (fun hpc => absurd (Option.some.inj hpc) hcleared)
    fun hpc => absurd (Option.some.inj hpc) hzeroed

theorem PassedInv.wait {s s' : Waits} (h : PassedInv s) (hstep : s.wait = some s') :
    PassedInv s' := by
  unfold Waits.wait at hstep
  rcases hpc : s.pc s.kernel.currentTask with _ | pc
  · rw [hpc] at hstep
    dsimp only at hstep
    split at hstep
    · obtain rfl := Option.some.inj hstep
      exact h.finish (Or.inl rfl)
    · obtain rfl := Option.some.inj hstep
      exact h.stay (by decide) (by decide)
  rw [hpc] at hstep
  cases pc with
  | checked =>
      obtain rfl := Option.some.inj hstep
      exact h.set rfl (fun hpc => by cases hpc) fun hpc => by cases hpc
  | looping =>
      obtain rfl := Option.some.inj hstep
      split
      · exact h.stay (by decide) (by decide)
      · exact h.stay (by decide) (by decide)
  | dozing =>
      obtain ⟨k', hsleep, rfl⟩ := Option.map_eq_some_iff.mp hstep
      have hquiet := sleepThread_quiet hsleep
      unfold Kernel.sleepThread at hsleep
      have hsame : SameKin s.kernel k' := (sameKin_modify _ _ rfl).trans (switchTask_kin hsleep)
      exact h.goto (hquiet.pointers h.pointers) hsame.count (fun t _ => hsame.kin t)
        (fun hpc => by cases hpc) fun hpc => by cases hpc
  | left =>
      obtain rfl := Option.some.inj hstep
      exact h.set rfl (fun _ => rfl) fun hpc => by cases hpc
  | cleared =>
      obtain rfl := Option.some.inj hstep
      exact h.set rfl (fun hpc => by cases hpc) fun _ => ⟨h.cleared _ hpc, rfl⟩
  | zeroed =>
      obtain rfl := Option.some.inj hstep
      refine h.finish (Or.inr ?_)
      exact congrArg Int.ofNat (h.zeroed _ hpc).2

/-- **No call of `wait` ever reports a child**: in every run, each returns -1 or 0. -/
theorem returns_zero (dir readEip : Nat) (ops : List WaitOp) :
    Always waitStep (fun s => ∀ w ∈ s.returned, w.ret = -1 ∨ w.ret = 0)
      (Waits.boot dir readEip) ops := by
  have hstep : ∀ s op s', PassedInv s → waitStep s op = some s' → True → PassedInv s' := by
    intro s op s' h hstep _
    cases op with
    | task op =>
        obtain ⟨k', hk', rfl⟩ := Option.map_eq_some_iff.mp hstep
        exact h.taskOp hk'
    | wait => exact h.wait hstep
  refine Always.mono (fun s (h : PassedInv s) => h.returned) ?_
  exact always_of_inv (C := fun _ _ _ => True) hstep (PassedInv.boot dir readEip)
    (everyStep_true _)

end OsThing.Sched
