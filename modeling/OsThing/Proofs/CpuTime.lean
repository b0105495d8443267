/-
CPU time adds up.

A switch charges the task that ran last with the ticks since the switch that started it, so
the times of all tasks grow by what the clock did: one term of the sum changes, and a new
task adds a term that is 0.  Times and ticks are 32 bits wide, and so the sum is the tick
of the last switch modulo 2^32 only.
-/
import OsThing.Proofs.Events

namespace OsThing.Sched

open Chain Runs

/-- The time of all tasks that were ever created. -/
def Kernel.totalTime (k : Kernel) : Nat := ((List.range k.count).map fun t => (k.task t).time).sum

structure Accounted (s : Clocked) : Prop where
  total : s.kernel.totalTime % 2 ^ 32 = s.switched
  lastTime : (s.kernel.task s.kernel.lastTask).lastTime = s.switched

structure ClockInv (s : Clocked) : Prop extends PointersOk s.kernel, Accounted s where
  last : s.kernel.lastTask < s.kernel.count
  tick : s.kernel.tick < 2 ^ 32

theorem totalTime_congr {k k' : Kernel} (hcount : k'.count = k.count)
    (h : ∀ t, (k'.task t).control.time = (k.task t).control.time) : k'.totalTime = k.totalTime := by
  unfold Kernel.totalTime
  rw [hcount]
  exact congrArg List.sum (List.map_congr_left fun t _ => h t)

/-- A new task has not run yet. -/
theorem Added.totalTime {k k' : Kernel} {function : Nat} (h : Added k k' function) :
    k'.totalTime = k.totalTime := by
  have hnew : (k'.task k.count).time = 0 := congrArg Control.time h.new
  have hothers : ∀ t ∈ List.range k.count, (k'.task t).time = (k.task t).time := fun t ht =>
    congrArg Control.time (h.others t (Nat.ne_of_lt (List.mem_range.mp ht)))
  unfold Kernel.totalTime
  rw [h.count, List.range_succ, List.map_append, List.sum_append, List.map_congr_left hothers]
  show _ + ((k'.task k.count).time + 0) = _
  rw [hnew, Nat.add_zero]

/-! ### A switch -/

theorem enter_time (c : Control) : c.enter.time = c.time ∧ c.enter.lastTime = c.lastTime := by
  unfold Control.enter
  split
  · exact ⟨rfl, rfl⟩
  · exact ⟨rfl, rfl⟩

/-- Being chosen costs nothing. -/
theorem Switched.time {k k' : Kernel} (h : Switched k k') (t : Nat) :
    (k'.task t).time = (charged k t).time := by
  by_cases ht : t = k'.currentTask
  · rw [ht]
    exact (congrArg Control.time h.chosen).trans (enter_time _).1
  · exact congrArg Control.time (h.others t ht)

/-- **A switch charges one task.** -/
theorem Switched.totalTime {k k' : Kernel} (h : Switched k k') (hlast : k.lastTask < k.count) :
    k'.totalTime + (k.task k.lastTask).time = k.totalTime +
      ((k.task k.lastTask).time + (k.tick + (2 ^ 32 - (k.task k.lastTask).lastTime))) % 2 ^ 32 := by
  have hone : (k'.task k.lastTask).time =
      ((k.task k.lastTask).time + (k.tick + (2 ^ 32 - (k.task k.lastTask).lastTime))) % 2 ^ 32 := by
    rw [h.time, charged, if_pos rfl, saved_eq]
    rfl
  have hrest : ∀ t, t ≠ k.lastTask → (k'.task t).time = (k.task t).time := by
    intro t ht
    rw [h.time, charged, if_neg ht, saved_eq]
    rfl
  rw [← hone]
  unfold Kernel.totalTime
  rw [h.count]
  exact sum_changed hrest List.nodup_range (List.mem_range.mpr hlast)

theorem Switched.lastTime {k k' : Kernel} (h : Switched k k') :
    (k'.task k'.lastTask).lastTime = k.tick := by
  rw [h.lastTask]
  exact (congrArg Control.lastTime h.chosen).trans (enter_time _).2

/-! ### Every run -/

theorem ClockInv.switch {s : Clocked} {k' : Kernel} (hs : ClockInv s) (hk' : PointersOk k')
    (h : Switched s.kernel k') : ClockInv ⟨k', s.kernel.tick⟩ := by
  have htotal := h.totalTime hs.last
  have hold := hs.total
  have htick := hs.tick
  rw [hs.lastTime] at htotal
  refine ⟨hk', ⟨?_, h.lastTime⟩, ?_, ?_⟩
  · show k'.totalTime % 2 ^ 32 = s.kernel.tick
    omega
  · show k'.lastTask < k'.count
    rw [h.lastTask]
    exact hk'.current
  · show k'.tick < 2 ^ 32
    rw [h.tick]
    exact hs.tick

/-- What neither switches nor changes a time keeps the account. -/
theorem ClockInv.same {s : Clocked} {k' : Kernel} (hs : ClockInv s) (hk' : PointersOk k')
    (hclock : SameClock s.kernel k') (hcount : s.kernel.count ≤ k'.count)
    (htotal : k'.totalTime = s.kernel.totalTime)
    (hlast : (k'.task s.kernel.lastTask).control.lastTime =
      (s.kernel.task s.kernel.lastTask).control.lastTime) : ClockInv ⟨k', s.switched⟩ := by
  refine ⟨hk', ⟨(congrArg (· % 2 ^ 32) htotal).trans hs.total, ?_⟩, ?_, ?_⟩
  · show (k'.task k'.lastTask).lastTime = s.switched
    rw [hclock.lastTask]
    exact hlast.trans hs.lastTime
  · show k'.lastTask < k'.count
    rw [hclock.lastTask]
    exact Nat.lt_of_lt_of_le hs.last hcount
  · show k'.tick < 2 ^ 32
    rw [hclock.tick]
    exact hs.tick

theorem ClockInv.modify {s : Clocked} (hs : ClockInv s) (t : Nat) {f : Task → Task}
    (hk' : PointersOk (s.kernel.modify t f))
    (htime : (f (s.kernel.task t)).time = (s.kernel.task t).time)
    (hlast : (f (s.kernel.task t)).lastTime = (s.kernel.task t).lastTime) :
    ClockInv ⟨s.kernel.modify t f, s.switched⟩ :=
  hs.same hk' ⟨rfl, rfl, rfl, rfl⟩ (Nat.le_refl _)
    (totalTime_congr rfl (modify_keeps Task.time htime)) (modify_keeps Task.lastTime hlast _)

theorem clockStep_cases {s s' : Clocked} {e : SchedEvent} (h : clockStep s e = some s') :
    ∃ k', eventStep s.kernel e = some k' ∧ (e = .switchTask → s' = ⟨k', s.kernel.tick⟩) ∧
      (e ≠ .switchTask → s' = ⟨k', s.switched⟩) := by
  obtain ⟨k', hstep, rfl⟩ := Option.map_eq_some_iff.mp h
  refine ⟨k', hstep, ?_, ?_⟩
  · rintro rfl
    rfl
  · intro he
    cases e
    case switchTask => exact absurd rfl he
    all_goals rfl

theorem clockStep_inv {s s' : Clocked} {e : SchedEvent} (hs : ClockInv s)
    (h : clockStep s e = some s') : ClockInv s' := by
  obtain ⟨k', hstep, hswitched, hsame⟩ := clockStep_cases h
  have hk' : PointersOk k' := eventStep_pointers hs.toPointersOk hstep
  cases eventStep_effect hstep with
  | tick =>
      rw [hsame nofun]
      refine ⟨hk', ⟨hs.total, hs.lastTime⟩, hs.last, ?_⟩
      exact Nat.mod_lt _ (Nat.two_pow_pos 32)
  | switch hswitch =>
      rw [hswitched rfl]
      exact hs.switch hk' (switchTask_switched hswitch)
  | add function he hadd =>
      rw [hsame he]
      refine hs.same hk' hadd.toSameClock ?_ hadd.totalTime ?_
      · rw [hadd.count]
        exact Nat.le_succ _
      · rw [hadd.others _ (Nat.ne_of_lt hs.last)]
  | same he hkept =>
      have htime : k'.totalTime = s.kernel.totalTime :=
        totalTime_congr hkept.count fun t => congrArg Control.time (hkept.control t)
      rw [hsame he]
      exact hs.same hk' hkept.toSameClock (Nat.le_of_eq hkept.count.symm) htime
        (congrArg Control.lastTime (hkept.control _))
  | post =>
      rw [hsame nofun]
      exact hs.modify _ hk' rfl rfl
  | handle =>
      rw [hsame nofun]
      exact hs.modify _ hk' rfl rfl
  | sigreturn =>
      rw [hsame nofun]
      exact hs.modify _ hk' rfl rfl

theorem boot_clock (dir readEip : Nat) (tick : UInt32) :
    ClockInv (Clocked.boot dir readEip tick) :=
  ⟨boot_pointers dir readEip tick, ⟨rfl, rfl⟩, Nat.one_pos, tick.toNat_lt⟩

/-- **The times of all tasks ever created add up to the tick of the last switch.** -/
theorem cpu_time_adds_up (dir readEip : Nat) (tick : UInt32) (events : List SchedEvent) :
    Always clockStep Accounted (Clocked.boot dir readEip tick) events := by
  have hkeep : ∀ s e s', ClockInv s → clockStep s e = some s' → True → ClockInv s' :=
    fun _ _ _ hs hstep _ => clockStep_inv hs hstep
  exact (always_of_inv hkeep (boot_clock dir readEip tick) (everyStep_true _)).mono
    fun s hs => hs.toAccounted

end OsThing.Sched
