/-
The page directory a task is resumed in, and the one its signal handler gets.

`switch_task` leaves in one of two ways.  To resume the chosen task it loads its directory
first; to enter a handler it does not, for `jmp_to_signal`, which does not come back, is
called before.  So a handler runs in whatever directory is loaded, which is the one of the
task that ran last.

Which task is chosen is told here from the state before the switch: it is the first one,
from the current task on and around, that has been passed over as often as it sleeps.
-/
import OsThing.Proofs.RoundRobin

namespace OsThing.Sched

open Chain Runs RoundRobin

/-- A signal is waiting for which the task has a handler, and it is not in one already. -/
def HandlerDue (task : Task) : Prop :=
  task.sigQueued = true ∧ task.inSig = false ∧ task.sighandle task.signal ≠ 0

/-- The task that has the turn `m` from now. -/
def turnAt (k : Kernel) (m : Nat) : Nat := (after k)^[m] (after k k.currentTask)

/-- No handler is due in the next task, or its directory is loaded. -/
def DirReady (k : Kernel) : Prop :=
  ∀ m, FirstAwake (after k) (robin k) m → HandlerDue (k.task (turnAt k m)) →
    k.currentDir = (k.task (turnAt k m)).dir

/-! ### The chosen task -/

theorem wakeLoop_chooses {fuel : Nat} :
    ∀ {k k' : Kernel} {temp t : Nat} (last : Nat) (running : Bool), temp = after k last →
      Kernel.wakeLoop fuel k temp = some (k', t) →
      ∃ m, FirstAwake (after k) ⟨fun u => (k.task u).sleep, last, running⟩ m ∧
        t = (after k)^[m] temp := by
  induction fuel with
  | zero => intro k k' temp t last running _ h; cases h
  | succ fuel ih =>
      intro k k' temp t last running htemp h
      subst htemp
      rw [wakeLoop_succ] at h
      by_cases hsleep : (k.task (after k last)).sleep ≠ 0
      · rw [if_pos hsleep] at h
        have hsame : SameQueue k (tick k (after k last)) := sameQueue_modify k _ rfl
        obtain ⟨m, hfirst, ht⟩ := ih (after k last) false rfl h
        rw [after_congr hsame, tick_sleep] at hfirst
        refine ⟨m + 1, hfirst.succ ?_, ?_⟩
        · rw [step, if_pos ⟨rfl, Nat.pos_of_ne_zero hsleep⟩]
        · show t = (after k)^[m + 1] (after k last)
          rw [after_congr hsame] at ht
          rw [Function.iterate_succ_apply]
          exact ht
      · rw [if_neg hsleep] at h
        obtain ⟨-, rfl⟩ := Prod.mk.inj (Option.some.inj h)
        exact ⟨0, firstAwake_zero (not_not.mp hsleep), rfl⟩

/-- What a handler needs to know of a task, and the directory, which no switch writes before. -/
def signalState (task : Task) : Bool × Bool × (Nat → Nat) × Nat × Nat :=
  (task.sigQueued, task.inSig, task.sighandle, task.signal, task.dir)

/-- **What a switch enters**: the task that `FirstAwake` tells, as it was before. -/
theorem switchTask_enters {k k' : Kernel} (h : k.switchTask = some k') :
    ∃ (k₁ : Kernel) (m : Nat), FirstAwake (after k) (robin k) m ∧ k' = k₁.enter ∧
      k₁.currentTask = turnAt k m ∧
      k₁.currentDir = k.currentDir ∧
      signalState k₁.current = signalState (k.task (turnAt k m)) := by
  obtain ⟨k₁, temp, hwake, rfl, -⟩ := switchTask_walk h
  obtain ⟨m, hfirst, htemp⟩ := wakeLoop_chooses k.currentTask true rfl hwake
  rw [saveEip_sleep, after_congr (saveEip_same k)] at hfirst
  rw [after_congr (saveEip_same k)] at htemp
  have htemp : temp = turnAt k m := htemp
  have hdir : k₁.currentDir = k.currentDir :=
    (congrArg Kernel.currentDir (wakeLoop_globals hwake)).trans rfl
  refine ⟨(k₁.charge temp).start, m, hfirst, rfl, htemp, hdir, ?_⟩
  · rw [← htemp]
    have hstart : signalState ((k₁.charge temp).start.task temp) =
        signalState ((k₁.charge temp).task temp) :=
      modify_keeps (k := k₁.charge temp) signalState (f := fun task =>
        { task with lastTime := k₁.tick, status := .running }) rfl temp
    have hcharge : signalState ((k₁.charge temp).task temp) = signalState (k₁.task temp) :=
      modify_keeps (k := k₁) signalState (f := fun task =>
        { task with time := (task.time + (k₁.tick + (2 ^ 32 - task.lastTime))) % 2 ^ 32 }) rfl temp
    have hloop : signalState (k₁.task temp) = signalState ((saveEip k).task temp) :=
      wakeLoop_keeps (fun _ _ => rfl) hwake temp
    have hsave : signalState ((saveEip k).task temp) = signalState (k.task temp) :=
      modify_keeps (k := k) signalState (f := fun task => { task with eip := k.readEip }) rfl temp
    exact ((hstart.trans hcharge).trans hloop).trans hsave

/-! ### The directory -/

theorem pendingHandler_ne_zero {k : Kernel} : k.pendingHandler ≠ 0 ↔ HandlerDue k.current := by
  unfold Kernel.pendingHandler HandlerDue
  by_cases hdue : k.current.sigQueued = true ∧ ¬ k.current.inSig = true
  · rw [if_pos hdue]
    exact ⟨fun h => ⟨hdue.1, Bool.eq_false_iff.mpr hdue.2, h⟩, fun h => h.2.2⟩
  · rw [if_neg hdue]
    exact iff_of_false (fun h => h rfl) fun h => hdue ⟨h.1, Bool.eq_false_iff.mp h.2.1⟩

/-- Only a resumed task is sure to have its directory. -/
theorem enter_dir_iff (k : Kernel) : k.enter.currentDir = k.enter.current.dir ↔
    (HandlerDue k.current → k.currentDir = k.current.dir) := by
  unfold Kernel.enter
  by_cases hdue : HandlerDue k.current
  · rw [if_pos (pendingHandler_ne_zero.mpr hdue)]
    have hdir : ((k.modify k.currentTask fun task =>
        { task with sigQueued := false, inSig := true, oldEip := task.eip }).task
          k.currentTask).dir = k.current.dir := modify_keeps Task.dir rfl k.currentTask
    show k.currentDir = ((k.modify k.currentTask fun task =>
      { task with sigQueued := false, inSig := true, oldEip := task.eip }).task
        k.currentTask).dir ↔ _
    rw [hdir]
    exact ⟨fun heq _ => heq, fun h => h hdue⟩
  · rw [if_neg (mt pendingHandler_ne_zero.mp hdue)]
    exact iff_of_true rfl fun h => absurd h hdue

/--
**A switch loads the directory of the task it goes to in just these states**: no handler is
due in that task, or its directory is the one that is loaded.
-/
theorem switch_dir_iff {k k' : Kernel} (h : k.switchTask = some k') :
    k'.currentDir = k'.current.dir ↔ DirReady k := by
  obtain ⟨k₁, m, hfirst, rfl, -, hdir, hstate⟩ := switchTask_enters h
  obtain ⟨hqueued, hstate⟩ := Prod.mk.inj hstate
  obtain ⟨hin, hstate⟩ := Prod.mk.inj hstate
  obtain ⟨hhandle, hstate⟩ := Prod.mk.inj hstate
  obtain ⟨hsignal, htask⟩ := Prod.mk.inj hstate
  have hdue : HandlerDue k₁.current ↔ HandlerDue (k.task (turnAt k m)) := by
    unfold HandlerDue
    rw [hqueued, hin, hhandle, hsignal]
  rw [enter_dir_iff, hdue, hdir, htask]
  constructor
  · intro hm m' hfirst'
    rw [hfirst'.unique hfirst]
    exact hm
  · intro hready
    exact hready m hfirst

/-- The first task has the directory that is loaded when it starts. -/
theorem first_switch_dir : ∃ k', (Kernel.initTasking 0x101000 0x100000).switchTask = some k' ∧
    k'.currentDir = k'.current.dir := by
  obtain ⟨k', hk'⟩ : ∃ k', (Kernel.initTasking 0x101000 0x100000).switchTask = some k' := ⟨_, rfl⟩
  exact ⟨k', hk', (switch_dir_iff hk').mpr fun _ _ _ => rfl⟩

/-- A process made while another directory is loaded, as `load_elf` does it. -/
def twoProcesses : Kernel :=
  let boot := Kernel.initTasking 0x101000 0x100000
  (({ boot with currentDir := 0x201000 } : Kernel).createProcess 0x8048000).elim boot
    fun k => { k with currentDir := 0x101000 }

/--
**The second process installs a handler, the first one sends it the signal, and the handler
runs in the directory of the first one.**
-/
theorem handler_in_other_dir :
    ∃ k, runAll taskStep twoProcesses [.timer, .signal 5 0x8048010, .timer, .kill 2 5] = some k ∧
      ∃ k', k.switchTask = some k' ∧ k'.pc = 0x8048010 ∧ k'.currentDir ≠ k'.current.dir :=
  ⟨_, rfl, _, rfl, by decide, by decide⟩

end OsThing.Sched
