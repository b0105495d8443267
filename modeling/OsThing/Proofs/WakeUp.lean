/-
The wake-up loop of `switch_task` ends.

The loop may go around the queue many times, since it stops only at a task that is awake
and nobody else is running to wake one up.  But every turn takes one tick from what the
tasks of the queue still have to sleep, all together.  So it has one turn for each tick that
the sum of their sleeps goes down by, and no more turns than that sum.
-/
import OsThing.Proofs.RoundRobin

namespace OsThing.Sched

open Chain

/-- What the tasks of the list still have to sleep, all together. -/
def sleepOf (k : Kernel) (l : List Nat) : Nat := (l.map fun t => (k.task t).sleep).sum

/-- A turn of the loop takes one tick. -/
theorem sleepOf_tick {k : Kernel} {l : List Nat} {t : Nat} (hnodup : l.Nodup) (ht : t ∈ l)
    (hsleep : (k.task t).sleep ≠ 0) : sleepOf (tick k t) l + 1 = sleepOf k l := by
  have hsleeps := tick_sleep k t
  have hone : ((tick k t).task t).sleep = (k.task t).sleep - 1 := by
    rw [congrFun hsleeps t, Function.update_self]
  have hrest : ∀ u, u ≠ t → ((tick k t).task u).sleep = (k.task u).sleep := by
    intro u hu
    rw [congrFun hsleeps u, Function.update_of_ne hu]
  have hsum : sleepOf (tick k t) l + (k.task t).sleep = sleepOf k l + _ :=
    sum_changed hrest hnodup ht
  rw [hone] at hsum
  omega

/-- The circle that the loop goes around in does not leave the queue. -/
theorem after_mem {k : Kernel} {l : List Nat} {t : Nat}
    (hchain : IsChain k.next (some k.taskQueue) l) (ht : t ∈ l) : after k t ∈ l := by
  rcases hnext : k.next t with _ | u
  · obtain ⟨rest, rfl, -⟩ := isChain_some.mp hchain
    unfold after
    rw [hnext]
    exact List.mem_cons_self
  · unfold after
    rw [hnext]
    exact hchain.mem_of_next ht hnext

theorem wakeLoop_ends {l : List Nat} :
    ∀ (ticks : Nat) {k : Kernel} {temp : Nat}, IsChain k.next (some k.taskQueue) l → temp ∈ l →
      sleepOf k l = ticks →
      ∃ turns k' t, Kernel.wakeLoop turns k temp = none ∧
        Kernel.wakeLoop (turns + 1) k temp = some (k', t) ∧ t ∈ l ∧ (k'.task t).sleep = 0 ∧
        turns + sleepOf k' l = ticks := by
  intro ticks
  induction ticks with
  | zero =>
      intro k temp hchain htemp hticks
      have hawake : (k.task temp).sleep = 0 := by
        by_contra hsleep
        have hone := sleepOf_tick hchain.nodup htemp hsleep
        omega
      refine ⟨0, k, temp, rfl, ?_, htemp, hawake, (Nat.zero_add _).trans hticks⟩
      rw [wakeLoop_succ, if_neg (not_not.mpr hawake)]
  | succ ticks ih =>
      intro k temp hchain htemp hticks
      by_cases hsleep : (k.task temp).sleep = 0
      · refine ⟨0, k, temp, rfl, ?_, htemp, hsleep, (Nat.zero_add _).trans hticks⟩
        rw [wakeLoop_succ, if_neg (not_not.mpr hsleep)]
      · have hsame : SameQueue k (tick k temp) := sameQueue_modify k temp rfl
        have hchain' : IsChain (tick k temp).next (some (tick k temp).taskQueue) l := by
          rw [hsame.next, hsame.taskQueue]
          exact hchain
        have hticks' : sleepOf (tick k temp) l = ticks := by
          have hone := sleepOf_tick hchain.nodup htemp hsleep
          omega
        obtain ⟨turns, k', t, hruns, hends, ht, hawake, hsum⟩ :=
          ih hchain' (after_mem hchain' htemp) hticks'
        refine ⟨turns + 1, k', t, ?_, ?_, ht, hawake, by omega⟩
        · rw [wakeLoop_succ, if_pos hsleep]
          exact hruns
        · rw [wakeLoop_succ, if_pos hsleep]
          exact hends

/--
**The wake-up loop of `switch_task` ends**, in no more turns than the tasks of the queue have
ticks left to sleep, and with a task of the queue that is awake.  The current task need not be
in the queue itself.
-/
theorem wake_up_ends {k : Kernel} {l : List Nat} (hchain : IsChain k.next (some k.taskQueue) l)
    (hlink : ∀ t, k.next k.currentTask = some t → t ∈ l) :
    ∃ turns k' t, Kernel.wakeLoop turns (saveEip k) (after (saveEip k) k.currentTask) = none ∧
      Kernel.wakeLoop (turns + 1) (saveEip k) (after (saveEip k) k.currentTask) = some (k', t) ∧
      t ∈ l ∧ (k'.task t).sleep = 0 ∧ turns + sleepOf k' l = sleepOf k l := by
  have hsame : SameQueue k (saveEip k) := saveEip_same k
  have hsleep : sleepOf (saveEip k) l = sleepOf k l := by
    unfold sleepOf
    rw [saveEip_sleep]
  refine wakeLoop_ends _ ?_ ?_ hsleep
  · rw [hsame.next, hsame.taskQueue]
    exact hchain
  · rw [after_congr hsame]
    unfold after
    rcases hnext : k.next k.currentTask with _ | t
    · obtain ⟨rest, rfl, -⟩ := isChain_some.mp hchain
      exact List.mem_cons_self
    · exact hlink t hnext

/-- A queue of two tasks, both of them asleep. -/
def bothAsleep : Kernel :=
  let k := Kernel.initTasking 0x101000 0x100000
  { k with
    task := fun t => { k.task t with id := t + 1, next := if t = 0 then some 1 else none, sleep := 3 }
    count := 2 }

theorem wake_up_ends_asleep :
    ∃ turns k' t, Kernel.wakeLoop turns (saveEip bothAsleep) (after (saveEip bothAsleep) 0) = none ∧
      Kernel.wakeLoop (turns + 1) (saveEip bothAsleep) (after (saveEip bothAsleep) 0) =
        some (k', t) ∧
      t ∈ [0, 1] ∧ (k'.task t).sleep = 0 ∧
      turns + sleepOf k' [0, 1] = sleepOf bothAsleep [0, 1] := by
  refine wake_up_ends (k := bothAsleep) (l := [0, 1]) ⟨rfl, rfl, rfl⟩ fun t ht => ?_
  obtain rfl := Option.some.inj ht
  exact List.mem_cons_of_mem 0 List.mem_cons_self

end OsThing.Sched
