/-
When the break of a task is the end of a region.

`sbrk` adds the same number to `brk` and to the end of the region it has found, so the two are
equal afterwards exactly if they were before: `sbrk_backed_iff`.  A process starts with both
equal, and shares its region with threads only, so that the two stay equal as long as no thread
calls `sbrk`.  Then the region is found as long as it does not end before it starts.

A thread starts with a break of 0, which is no end of the region that it shares, whatever the
region is that a program has.
-/
import OsThing.Lib.Runs
import OsThing.Task.Breaks

namespace OsThing.Breaks

open Paging Runs

/-! ### One call -/

/-- A map is found, the call returns the break as it was, and the break is then the end of that
map. -/
def Backed (k : Kernel) (inc : Int32) : Prop :=
  ∃ m, (k.sbrk inc).2.1 = some m ∧ (k.sbrk inc).1 = k.current.brk ∧
    (k.sbrk inc).2.2.current.brk = ((k.sbrk inc).2.2.map m).stop

/-- The task has a region that starts no later than it ends, and it ends at the break. -/
def EndsAtBreak (k : Kernel) : Prop :=
  ∃ m, k.current.maps = some m ∧ (k.map m).start ≤ (k.map m).stop ∧ k.current.brk = (k.map m).stop

theorem memmapsCheck_eq_some {k : Kernel} {map : Option Nat} {address : UInt32} {m : Nat} :
    k.memmapsCheck map address = some m ↔
      map = some m ∧ (k.map m).start ≤ address ∧ address ≤ (k.map m).stop := by
  unfold Kernel.memmapsCheck memmapCheck
  rw [Option.filter_eq_some_iff, Bool.and_eq_true, decide_eq_true_iff, decide_eq_true_iff]

/-- What the call leaves if it finds a map. -/
theorem sbrk_found {k : Kernel} {inc : Int32} {m : Nat}
    (h : k.memmapsCheck k.current.maps k.current.brk = some m) :
    (k.sbrk inc).2.2.current.brk = k.current.brk + inc.toUInt32 ∧
      ((k.sbrk inc).2.2.map m).stop = (k.map m).stop + inc.toUInt32 := by
  unfold Kernel.sbrk
  dsimp only
  rw [h]
  refine ⟨?_, ?_⟩
  · show (Function.update k.task k.currentTask _ k.currentTask).brk = _
    rw [Function.update_self]
  · show (Function.update k.map m _ m).stop = _
    rw [Function.update_self]

/-- **A call is backed exactly if the region of the task ends at its break.** -/
theorem backed_iff (k : Kernel) (inc : Int32) : Backed k inc ↔ EndsAtBreak k := by
  constructor
  · rintro ⟨m, hfound, -, hends⟩
    have hcheck : k.memmapsCheck k.current.maps k.current.brk = some m := hfound
    obtain ⟨hmap, hstart, -⟩ := memmapsCheck_eq_some.mp hcheck
    obtain ⟨hbrk, hstop⟩ := @sbrk_found k inc m hcheck
    rw [hbrk, hstop] at hends
    have heq : k.current.brk = (k.map m).stop := (UInt32.add_left_inj _).mp hends
    exact ⟨m, hmap, heq ▸ hstart, heq⟩
  · rintro ⟨m, hmap, hle, heq⟩
    have hcheck : k.memmapsCheck k.current.maps k.current.brk = some m :=
      memmapsCheck_eq_some.mpr ⟨hmap, heq ▸ hle, heq ▸ UInt32.le_refl _⟩
    obtain ⟨hbrk, hstop⟩ := @sbrk_found k inc m hcheck
    exact ⟨m, hcheck, rfl, by rw [hbrk, hstop, heq]⟩

/-! ### Processes -/

/-- Every process has a region of its own, which ends at its break. -/
structure Kept (k : Kernel) : Prop where
  current : k.currentTask < k.tasks
  below : ∀ t < k.tasks, ∀ m, (k.task t).maps = some m → m < k.maps
  boot : ∀ t < k.tasks, (k.task t).origin = .boot → (k.task t).maps = none
  own : ∀ t < k.tasks, (k.task t).origin = .process →
    ∃ m, (k.task t).maps = some m ∧ (k.task t).brk = (k.map m).stop
  apart : ∀ t < k.tasks, ∀ u < k.tasks, (k.task t).origin = .process →
    (k.task u).origin = .process → (k.task t).maps = (k.task u).maps → t = u

theorem kept_boot : Kept .boot where
  current := Nat.zero_lt_one
  below _ _ _ h := nomatch h
  boot _ _ _ := rfl
  own _ _ h := nomatch h
  apart _ _ _ _ h := nomatch h

theorem Kept.no_maps {k : Kernel} (hk : Kept k) (h : k.current.origin = .boot) :
    k.current.maps = none := hk.boot _ hk.current h

theorem addTask_old (k : Kernel) (new : Task) {t : Nat} (ht : t < k.tasks) :
    (k.addTask new).task t = k.task t :=
  Function.update_of_ne (Nat.ne_of_lt ht) _ _

theorem addTask_new (k : Kernel) (new : Task) : (k.addTask new).task k.tasks = new :=
  Function.update_self ..

/-- A new task, and a region of its own if it is a process. -/
structure Fresh (k k' : Kernel) (new : Task) : Prop where
  below : ∀ m, new.maps = some m → m < k'.maps
  origin : new.origin ≠ .boot
  own : new.origin = .process →
    ∃ m, new.maps = some m ∧ k.maps ≤ m ∧ new.brk = (k'.map m).stop

theorem Kept.add {k k' : Kernel} {new : Task} (hk : Kept k) (hnew : Fresh k k' new)
    (htasks : k'.tasks = k.tasks + 1) (hcurrent : k'.currentTask = k.currentTask)
    (htask : k'.task = (k.addTask new).task) (hmaps : k.maps ≤ k'.maps)
    (hmap : ∀ m < k.maps, k'.map m = k.map m) : Kept k' := by
  have hcases : ∀ t < k'.tasks, t < k.tasks ∧ k'.task t = k.task t ∨ t = k.tasks ∧ k'.task t = new :=
    fun t ht => by
      rw [htask]
      rcases Nat.lt_succ_iff_lt_or_eq.mp (htasks ▸ ht) with hlt | rfl
      · exact Or.inl ⟨hlt, addTask_old k new hlt⟩
      · exact Or.inr ⟨rfl, addTask_new k new⟩
  -- the region of an old process is not the one of a new process
  have hother : ∀ t < k.tasks, (k.task t).origin = .process → new.origin = .process →
      (k.task t).maps ≠ new.maps := fun t ht _ ho heq => by
    obtain ⟨m, hm, hle, -⟩ := hnew.own ho
    exact absurd (hk.below t ht m (heq.trans hm)) (Nat.not_lt_of_le hle)
  refine ⟨by rw [hcurrent, htasks]; exact Nat.lt_succ_of_lt hk.current, fun t ht m hm => ?_,
    fun t ht ho => ?_, fun t ht ho => ?_, fun t ht u hu hto huo heq => ?_⟩
  · rcases hcases t ht with ⟨hlt, hold⟩ | ⟨-, hnew'⟩
    · exact Nat.lt_of_lt_of_le (hk.below t hlt m (hold ▸ hm)) hmaps
    · exact hnew.below m (hnew' ▸ hm)
  · rcases hcases t ht with ⟨hlt, hold⟩ | ⟨-, hnew'⟩
    · rw [hold] at ho ⊢
      exact hk.boot t hlt ho
    · exact absurd (hnew' ▸ ho) hnew.origin
  · rcases hcases t ht with ⟨hlt, hold⟩ | ⟨-, hnew'⟩
    · rw [hold] at ho ⊢
      obtain ⟨m, hm, hbrk⟩ := hk.own t hlt ho
      exact ⟨m, hm, by rw [hmap m (hk.below t hlt m hm), hbrk]⟩
    · rw [hnew'] at ho ⊢
      obtain ⟨m, hm, -, hbrk⟩ := hnew.own ho
      exact ⟨m, hm, hbrk⟩
  · rcases hcases t ht with ⟨htlt, htold⟩ | ⟨rfl, htnew⟩ <;>
      rcases hcases u hu with ⟨hult, huold⟩ | ⟨rfl, hunew⟩
    · rw [htold] at hto heq
      rw [huold] at huo heq
      exact hk.apart t htlt u hult hto huo heq
    · rw [htold] at hto heq
      rw [hunew] at huo heq
      exact absurd heq (hother t htlt hto huo)
    · rw [htnew] at hto heq
      rw [huold] at huo heq
      exact absurd heq.symm (hother u hult huo hto)
    · rfl

theorem Kept.createProcess {k : Kernel} (hk : Kept k) (startAddr endAddr : UInt32) :
    Kept (k.createProcess startAddr endAddr) := by
  refine @Kept.add k _ ⟨some k.maps, endAddr, .process⟩ hk ⟨fun m hm => ?_, nofun, fun _ => ?_⟩ rfl
    rfl rfl (Nat.le_succ _) fun m hm => Function.update_of_ne (Nat.ne_of_lt hm) _ _
  · obtain rfl := Option.some.inj hm
    exact Nat.lt_succ_self _
  · refine ⟨k.maps, rfl, Nat.le_refl _, ?_⟩
    show endAddr = (Function.update k.map k.maps _ k.maps).stop
    rw [Function.update_self]

theorem Kept.createThread {k : Kernel} (hk : Kept k) : Kept k.createThread :=
  @Kept.add k _ ⟨k.current.maps, 0, .thread⟩ hk
    ⟨fun m hm => hk.below _ hk.current m hm, nofun, nofun⟩ rfl rfl rfl (Nat.le_refl _) fun _ _ => rfl

/-- `sbrk` changes no task but its caller, and of that only the break. -/
theorem sbrk_task (k : Kernel) (inc : Int32) (t : Nat) :
    ((k.sbrk inc).2.2.task t).maps = (k.task t).maps ∧
      ((k.sbrk inc).2.2.task t).origin = (k.task t).origin ∧
        (t ≠ k.currentTask → ((k.sbrk inc).2.2.task t).brk = (k.task t).brk) := by
  have htask : (k.sbrk inc).2.2.task = Function.update k.task k.currentTask
      { k.current with brk := k.current.brk + inc.toUInt32 } := by
    unfold Kernel.sbrk
    dsimp only
    cases k.memmapsCheck k.current.maps k.current.brk <;> rfl
  rw [htask]
  rcases eq_or_ne t k.currentTask with rfl | hne
  · rw [Function.update_self]
    exact ⟨rfl, rfl, fun hne => absurd rfl hne⟩
  · rw [Function.update_of_ne hne]
    exact ⟨rfl, rfl, fun _ => rfl⟩

/-- It changes no region but the one that its caller has, and adds none. -/
theorem sbrk_map (k : Kernel) (inc : Int32) :
    (k.sbrk inc).2.2.currentTask = k.currentTask ∧ (k.sbrk inc).2.2.tasks = k.tasks ∧
      (k.sbrk inc).2.2.maps = k.maps ∧
        ∀ m, k.current.maps ≠ some m → (k.sbrk inc).2.2.map m = k.map m := by
  unfold Kernel.sbrk
  dsimp only
  rcases hcheck : k.memmapsCheck k.current.maps k.current.brk with _ | m
  · exact ⟨rfl, rfl, rfl, fun _ _ => rfl⟩
  · have hown := (memmapsCheck_eq_some.mp hcheck).1
    exact ⟨rfl, rfl, rfl, fun m' hm' =>
      Function.update_of_ne (fun heq => hm' (hown.trans (congrArg some heq.symm))) _ _⟩

/-- A task that is not a thread moves its own region, if it has one, and its own break. -/
theorem Kept.sbrk {k : Kernel} {inc : Int32} (hk : Kept k) (horigin : k.current.origin ≠ .thread)
    (habove : ∀ m, k.current.maps = some m → (k.map m).start ≤ k.current.brk) :
    Kept (k.sbrk inc).2.2 := by
  obtain ⟨hcurrent, htasks, hmaps, hmap⟩ := sbrk_map k inc
  have htask := sbrk_task k inc
  refine ⟨by rw [hcurrent, htasks]; exact hk.current, ?_, ?_, ?_, ?_⟩
  all_goals rw [htasks]
  · rw [hmaps]
    exact fun t ht m hm => hk.below t ht m ((htask t).1 ▸ hm)
  · exact fun t ht ho => (htask t).1.trans (hk.boot t ht ((htask t).2.1 ▸ ho))
  · intro t ht ho
    rw [(htask t).1]
    rw [(htask t).2.1] at ho
    obtain ⟨m, hm, hbrk⟩ := hk.own t ht ho
    refine ⟨m, hm, ?_⟩
    rcases eq_or_ne t k.currentTask with rfl | hne
    · have hbrk : k.current.brk = (k.map m).stop := hbrk
      have hcheck : k.memmapsCheck k.current.maps k.current.brk = some m :=
        memmapsCheck_eq_some.mpr ⟨hm, habove m hm, hbrk ▸ UInt32.le_refl _⟩
      obtain ⟨hbrk', hstop'⟩ := @sbrk_found k inc m hcheck
      unfold Kernel.current at hbrk'
      rw [hcurrent] at hbrk'
      exact hbrk'.trans (by rw [hstop', ← hbrk]; rfl)
    · rw [(htask t).2.2 hne, hbrk, hmap m fun hshared => hne ?_]
      -- only a process could have a region of its own that the caller has, too
      have hcaller : k.current.origin = .process := by
        cases hc : k.current.origin with
        | boot => exact absurd (hk.no_maps hc) (hshared ▸ Option.some_ne_none m)
        | process => rfl
        | thread => exact absurd hc horigin
      exact hk.apart t ht _ hk.current ho hcaller (hm.trans hshared.symm)
  · intro t ht u hu hto huo heq
    rw [(htask t).2.1] at hto
    rw [(htask u).2.1] at huo
    rw [(htask t).1, (htask u).1] at heq
    exact hk.apart t ht u hu hto huo heq

/-! ### A run -/

/-- Every call of `sbrk` by a task that was made by one of the two functions is backed. -/
def SbrkBacked (k : Kernel) : BreakOp → Prop
  | .sbrk inc => k.current.origin ≠ .boot → Backed k inc
  | _ => True

def SbrkAtEnd (k : Kernel) : BreakOp → Prop
  | .sbrk _ => k.current.origin ≠ .boot → EndsAtBreak k
  | _ => True

/-- No thread calls `sbrk`. -/
def NotByThread (k : Kernel) : BreakOp → Prop
  | .sbrk _ => k.current.origin ≠ .thread
  | _ => True

/-- The break of the caller is not below the start of its region: not moved there by the calls
before, and not there from the start because the region of the program wraps around. -/
def NotBelowStart (k : Kernel) : BreakOp → Prop
  | .sbrk _ => ∀ m, k.current.maps = some m → (k.map m).start ≤ k.current.brk
  | _ => True

theorem sbrkBacked_iff (k : Kernel) (op : BreakOp) : SbrkBacked k op ↔ SbrkAtEnd k op := by
  cases op with
  | sbrk inc => exact imp_congr_right fun _ => backed_iff k inc
  | _ => exact Iff.rfl

/-- While only processes call, the end of the region is where it should be. -/
theorem Kept.sbrkAtEnd_iff {k : Kernel} (hk : Kept k) (op : BreakOp) (hop : NotByThread k op) :
    SbrkAtEnd k op ↔ NotBelowStart k op := by
  cases op with
  | sbrk inc =>
      have hop : k.current.origin ≠ .thread := hop
      cases ho : k.current.origin with
      | boot =>
          refine iff_of_true (fun hne => absurd ho hne) fun m hm => ?_
          exact absurd (hk.no_maps ho) (hm ▸ Option.some_ne_none m)
      | process =>
          obtain ⟨m, hm, hbrk⟩ := hk.own _ hk.current ho
          have hbrk : k.current.brk = (k.map m).stop := hbrk
          constructor
          · intro hends m' hm'
            obtain ⟨m₁, hm₁, hle, hbrk₁⟩ := hends (by rw [ho]; decide)
            obtain rfl := Option.some.inj (hm'.symm.trans hm₁)
            exact hbrk₁ ▸ hle
          · exact fun habove _ => ⟨m, hm, hbrk ▸ habove m hm, hbrk⟩
      | thread => exact absurd ho hop
  | _ => exact Iff.rfl

theorem Kept.step {k k' : Kernel} {op : BreakOp} (hk : Kept k) (hstep : breakStep k op = some k')
    (hop : NotByThread k op) (habove : NotBelowStart k op) : Kept k' := by
  cases op with
  | createProcess startAddr endAddr =>
      obtain rfl := Option.some.inj hstep
      exact hk.createProcess startAddr endAddr
  | createThread =>
      obtain rfl := Option.some.inj hstep
      exact hk.createThread
  | switchTask task =>
      obtain ⟨hlt, hstep⟩ := Option.ite_none_right_eq_some.mp hstep
      obtain rfl := Option.some.inj hstep
      exact ⟨hlt, hk.below, hk.boot, hk.own, hk.apart⟩
  | sbrk inc =>
      obtain rfl := Option.some.inj hstep
      exact hk.sbrk hop habove

/--
**Every call of `sbrk` is backed exactly if it finds the region of its caller to end at the
break.**  If no thread ever calls it, then that is so exactly if no call finds the break below
the start of the region.
-/
theorem sbrk_backed_iff (ops : List BreakOp) :
    (EveryTry breakStep SbrkBacked .boot ops ↔ EveryTry breakStep SbrkAtEnd .boot ops) ∧
      (EveryTry breakStep NotByThread .boot ops →
        (EveryTry breakStep SbrkBacked .boot ops ↔ EveryTry breakStep NotBelowStart .boot ops)) := by
  have hstates : EveryTry breakStep SbrkBacked .boot ops ↔ EveryTry breakStep SbrkAtEnd .boot ops :=
    @everyTry_iff _ _ _ (fun _ => True) _ _ (fun _ _ _ _ _ _ => trivial)
      (fun k op _ => sbrkBacked_iff k op) _ _ trivial
  refine ⟨hstates, fun hthreads => hstates.trans ?_⟩
  have hboth : EveryTry breakStep (fun k op => NotByThread k op ∧ SbrkAtEnd k op) .boot ops ↔
      EveryTry breakStep (fun k op => NotByThread k op ∧ NotBelowStart k op) .boot ops :=
    everyTry_iff (fun k op k' hk hstep hc => hk.step hstep hc.1 hc.2)
      (fun k op hk => and_congr_right (hk.sbrkAtEnd_iff op)) kept_boot
  rw [everyTry_and, everyTry_and] at hboth
  exact ⟨fun h => (hboth.mp ⟨hthreads, h⟩).2, fun h => (hboth.mpr ⟨hthreads, h⟩).2⟩

/-- **A thread has no region for its break**, since that starts at 0. -/
theorem thread_not_backed : ¬ EveryTry breakStep SbrkBacked .boot
    [.createProcess 0x8048000 0x804a000, .switchTask 1, .createThread, .switchTask 2, .sbrk 0] := by
  intro hall
  have hbacked := ((((hall.2 _ rfl).2 _ rfl).2 _ rfl).2 _ rfl).1
  obtain ⟨m, hm, -, hbrk⟩ := (backed_iff _ _).mp (hbacked (by decide))
  obtain rfl : 0 = m := Option.some.inj hm
  exact absurd hbrk (by decide)

/-- A process that grows and shrinks, and has no threads that do. -/
theorem sbrk_backed_iff_process : EveryTry breakStep SbrkBacked .boot
    [.createProcess 0x8048000 0x804a000, .switchTask 1, .sbrk 0x1000, .sbrk (-0x1800)] := by
  have hboth : EveryTry breakStep (fun k op => NotByThread k op ∧ NotBelowStart k op) .boot
      [.createProcess 0x8048000 0x804a000, .switchTask 1, .sbrk 0x1000, .sbrk (-0x1800)] := by
    refine ⟨⟨trivial, trivial⟩, fun k₁ h₁ => ?_⟩
    obtain rfl := Option.some.inj h₁
    refine ⟨⟨trivial, trivial⟩, fun k₂ h₂ => ?_⟩
    obtain rfl := Option.some.inj h₂
    refine ⟨⟨(by decide : Origin.process ≠ .thread), fun m hm => ?_⟩, fun k₃ h₃ => ?_⟩
    · obtain rfl : 0 = m := Option.some.inj hm
      decide
    obtain rfl := Option.some.inj h₃
    refine ⟨⟨(by decide : Origin.process ≠ .thread), fun m hm => ?_⟩, fun _ _ => trivial⟩
    obtain rfl : 0 = m := Option.some.inj hm
    decide
  obtain ⟨hthreads, habove⟩ := everyTry_and.mp hboth
  exact ((sbrk_backed_iff _).2 hthreads).mpr habove

end OsThing.Breaks
