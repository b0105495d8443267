/-
When the task queue stays what it should be.

`remove_task` has two blind spots.  Nothing comes before the head of the queue, so the
walk for it runs to the end and the head stays where it is.  And a task that is no
longer in the queue is not found either, so the end of the queue gets the link that
this task still has from the time when it was in.  `SafeRemoval` rules the two out,
and `SafeRemoval.of_queueOk` shows that both of them always do damage.

Every other call leaves the links alone, or adds one task at the end.  `SameQueue` is
the first of these two, and `taskStep_cases` sorts the calls.
-/
import OsThing.Lib.Runs
import OsThing.Proofs.Scheduler
import Mathlib.Data.List.Nodup

namespace OsThing.Sched

open Chain Runs

/-! ### What the queue should be -/

/-- The list from `task_queue` is null-terminated and holds every task that was created
and not removed exactly once, and no other. -/
def QueueOk (k : Kernel) : Prop :=
  ∃ l, IsChain k.next (some k.taskQueue) l ∧ l.Nodup ∧
    ∀ t, t ∈ l ↔ t < k.count ∧ t ∉ k.removed

theorem QueueOk.head_not_removed {k : Kernel} (h : QueueOk k) : k.taskQueue ∉ k.removed := by
  obtain ⟨l, hchain, -, hmem⟩ := h
  obtain ⟨rest, rfl, -⟩ := isChain_some.mp hchain
  exact ((hmem _).mp List.mem_cons_self).2

/-- What holds besides, whatever is removed: no link, and no other pointer of the
kernel, leads to a task that does not exist. -/
structure QueueInv (k : Kernel) : Prop where
  queue : QueueOk k
  links : ∀ t < k.count, ∀ u, k.next t = some u → u < k.count
  current : k.currentTask < k.count
  removed : ∀ t ∈ k.removed, t < k.count

theorem QueueInv.head {k : Kernel} (h : QueueInv k) : k.taskQueue < k.count := by
  obtain ⟨l, hchain, -, hmem⟩ := h.queue
  obtain ⟨rest, rfl, -⟩ := isChain_some.mp hchain
  exact ((hmem _).mp List.mem_cons_self).1

theorem QueueInv.init (dir readEip : Nat) : QueueInv (Kernel.initTasking dir readEip) where
  queue := ⟨[0], ⟨rfl, rfl⟩, List.nodup_singleton _, by simp [Kernel.initTasking]⟩
  links t _ u h := by cases h
  current := Nat.zero_lt_one
  removed t h := by cases h

/-! ### Calls that leave the queue alone -/

theorem SameQueue.queueOk {k k' : Kernel} (h : SameQueue k k') (hk : QueueOk k) : QueueOk k' := by
  unfold QueueOk
  rw [h.next, h.count, h.taskQueue, h.removed]
  exact hk

theorem SameQueue.inv {k k' : Kernel} (h : SameQueue k k') (hk : QueueInv k)
    (hcurrent : k'.currentTask < k'.count) : QueueInv k' where
  queue := h.queueOk hk.queue
  links := by rw [h.next, h.count]; exact hk.links
  current := hcurrent
  removed := by rw [h.removed, h.count]; exact hk.removed

theorem QueueInv.linksOk {k : Kernel} (h : QueueInv k) : LinksOk k := ⟨h.head, h.links⟩

/-! ### Creating a task -/

/-- A task was added at the end of the queue. -/
structure Created (k k' : Kernel) : Prop where
  ok : QueueOk k'
  count : k'.count = k.count + 1
  links : LinksOk k'
  current : k'.currentTask = k.currentTask
  removed : k'.removed = k.removed

theorem Created.inv {k k' : Kernel} (h : Created k k') (hk : QueueInv k) : QueueInv k' where
  queue := h.ok
  links := h.links.links
  current := by
    rw [h.current, h.count]
    exact Nat.lt_succ_of_lt hk.current
  removed := by
    rw [h.removed, h.count]
    exact fun t ht => Nat.lt_succ_of_lt (hk.removed t ht)

theorem Created.trans {k₁ k₂ k₃ : Kernel} (h : Created k₁ k₂) (h' : SameQueue k₂ k₃)
    (hcurrent : k₃.currentTask = k₂.currentTask) : Created k₁ k₃ where
  ok := h'.queueOk h.ok
  count := h'.count.trans h.count
  links := h'.linksOk h.links
  current := hcurrent.trans h.current
  removed := h'.removed.trans h.removed

/-- `add_task` links a task that is not in the queue to the last one that is. -/
theorem addTask_appends {k : Kernel} {l : List Nat} {new : Nat}
    (hchain : IsChain k.next (some k.taskQueue) l) (hlength : l.length ≤ k.count)
    (hfresh : new ∉ l) (hnew : k.next new = none) :
    ∃ e ∈ l, k.addTask new = some (k.modify e fun last => { last with next := some new }) ∧
      IsChain (Function.update k.next e (some new)) (some k.taskQueue) (l ++ [new]) := by
  obtain ⟨l₀, e, rfl⟩ : ∃ l₀ e, l = l₀ ++ [e] := by
    obtain ⟨rest, rfl, -⟩ := isChain_some.mp hchain
    exact ⟨_, _, (List.dropLast_append_getLast (List.cons_ne_nil _ _)).symm⟩
  have hbound : l₀.length < k.count := by
    rw [List.length_append, List.length_singleton] at hlength
    exact hlength
  have he : e ∈ l₀ ++ [e] := List.mem_append_right l₀ List.mem_cons_self
  refine ⟨e, he, ?_, ?_⟩
  · unfold Kernel.addTask
    rw [advance_last hchain hbound]
    rfl
  · have hinit : e ∉ l₀ := fun hin =>
      (List.nodup_append.mp hchain.nodup).2.2 e hin e List.mem_cons_self rfl
    rw [List.append_assoc]
    refine hchain.snoc (Function.update_self ..) ?_ fun t ht => ?_
    · rw [Function.update_of_ne (ne_of_mem_of_not_mem he hfresh).symm, hnew]
    · rw [Function.update_of_ne (ne_of_mem_of_not_mem ht hinit)]

/-- **`add_task` puts a new task at the end.**  Before the call the task is one beyond
those of the queue, and it has no link. -/
theorem addTask_created {k k₁ k₂ : Kernel} (hk : QueueInv k)
    (h : k₁.addTask k.count = some k₂) (hrest : ∀ t, t ≠ k.count → k₁.next t = k.next t)
    (hnew : k₁.next k.count = none)
    (hcount : k₁.count = k.count + 1) (hqueue : k₁.taskQueue = k.taskQueue)
    (hcurrent : k₁.currentTask = k.currentTask) (hremoved : k₁.removed = k.removed) :
    Created k k₂ := by
  obtain ⟨l, hchain, hnodup, hmem⟩ := hk.queue
  have hfresh : k.count ∉ l := fun hin => Nat.lt_irrefl _ ((hmem _).mp hin).1
  have hchain₁ : IsChain k₁.next (some k₁.taskQueue) l := by
    rw [hqueue]
    exact hchain.congr fun t ht => hrest t (ne_of_mem_of_not_mem ht hfresh)
  have hlength : l.length ≤ k₁.count :=
    hcount ▸ Nat.le_succ_of_le (hchain.length_le fun t ht => ((hmem t).mp ht).1)
  obtain ⟨e, he, hadd, hchain₂⟩ := addTask_appends hchain₁ hlength hfresh hnew
  rw [hadd] at h
  obtain rfl := Option.some.inj h
  refine ⟨?_, hcount, ⟨?_, ?_⟩, hcurrent, hremoved⟩
  · refine ⟨l ++ [k.count], ?_, ?_, fun t => ?_⟩
    · rw [next_modify]
      exact hchain₂
    · exact hnodup.append (List.nodup_singleton _) (by simpa using hfresh)
    · show t ∈ l ++ [k.count] ↔ t < k₁.count ∧ t ∉ k₁.removed
      rw [List.mem_append, hmem t, List.mem_singleton, hcount, hremoved]
      have hnot : k.count ∉ k.removed := fun hin => Nat.lt_irrefl _ (hk.removed _ hin)
      constructor
      · rintro (⟨hlt, hnr⟩ | rfl)
        · exact ⟨Nat.lt_succ_of_lt hlt, hnr⟩
        · exact ⟨Nat.lt_succ_self _, hnot⟩
      · rintro ⟨hlt, hnr⟩
        rcases Nat.lt_succ_iff_lt_or_eq.mp hlt with hlt | rfl
        · exact Or.inl ⟨hlt, hnr⟩
        · exact Or.inr rfl
  · show k₁.taskQueue < k₁.count
    rw [hqueue, hcount]
    exact Nat.lt_succ_of_lt hk.head
  · intro t ht u hu
    have ht : t < k₁.count := ht
    show u < k₁.count
    rw [next_modify] at hu
    rw [hcount] at ht ⊢
    rcases eq_or_ne t e with rfl | hte
    · rw [Function.update_self] at hu
      obtain rfl := Option.some.inj hu
      exact Nat.lt_succ_self _
    · rw [Function.update_of_ne hte] at hu
      rcases Nat.lt_succ_iff_lt_or_eq.mp ht with htlt | rfl
      · rw [hrest t (Nat.ne_of_lt htlt)] at hu
        exact Nat.lt_succ_of_lt (hk.links t htlt u hu)
      · rw [hnew] at hu
        cases hu

theorem initTask_next (k : Kernel) (t : Nat) :
    k.initTask.2.next t = if t = k.count then none else k.next t := by
  simp only [Kernel.initTask, Kernel.next, Kernel.set, Function.update_apply]
  split <;> rfl

theorem createProcess_created {k k' : Kernel} {function : Nat} (hk : QueueInv k)
    (h : k.createProcess function = some k') : Created k k' := by
  unfold Kernel.createProcess at h
  obtain ⟨k₂, hadd, rfl⟩ := Option.map_eq_some_iff.mp h
  have hstart := sameQueue_modify k.initTask.2 k.count
    (f := fun task => { task with eip := function, tid := 0 }) rfl
  refine (addTask_created hk hadd (fun t ht => ?_) ?_ rfl rfl rfl rfl).trans
    (sameQueue_modify k₂ _ rfl) rfl
  · exact (congrFun hstart.next t).trans (by rw [initTask_next, if_neg ht])
  · exact (congrFun hstart.next _).trans (by rw [initTask_next, if_pos rfl])

theorem createThread_created {k k' : Kernel} {function pid : Nat} (hk : QueueInv k)
    (h : k.createThread function = some (pid, k')) : Created k k' := by
  unfold Kernel.createThread at h
  obtain ⟨k₂, hadd, heq⟩ := Option.map_eq_some_iff.mp h
  obtain ⟨-, rfl⟩ := Prod.mk.inj heq
  have hstart := sameQueue_modify k.initTask.2 k.count
    (f := fun task => { task with eip := function }) rfl
  refine (addTask_created hk hadd (fun t ht => ?_) ?_ rfl rfl rfl rfl).trans
    (((sameQueue_modify k₂ _ rfl).trans (sameQueue_modify _ _ rfl)).trans
      (sameQueue_modify _ _ rfl)) rfl
  · exact (congrFun hstart.next t).trans (by rw [initTask_next, if_neg ht])
  · exact (congrFun hstart.next _).trans (by rw [initTask_next, if_pos rfl])

/-! ### Removing a task -/

theorem noticeParent_spec (k : Kernel) (t : Nat) :
    SameQueue k (k.noticeParent t) ∧ (k.noticeParent t).currentTask = k.currentTask := by
  unfold Kernel.noticeParent
  dsimp only
  split
  · split
    · exact ⟨(sameQueue_modify k _ rfl).trans (sameQueue_modify _ _ rfl), rfl⟩
    · exact ⟨sameQueue_modify k _ rfl, rfl⟩
  · split
    · exact ⟨sameQueue_modify k _ rfl, rfl⟩
    · exact ⟨SameQueue.refl k, rfl⟩

/-- What `remove_task` does to the queue, wherever its walk stops. -/
theorem removeTask_links {k k' : Kernel} {t : Nat} (h : k.removeTask t = some k') :
    ∃ move, advance k.next (fun u => (k.next u).isSome && k.next u ≠ some t) k.count
        k.taskQueue = some move ∧
      k'.next = Function.update k.next move (k.next t) ∧ k'.count = k.count ∧
      k'.taskQueue = k.taskQueue ∧ k'.currentTask = k.currentTask ∧
      k'.removed = t :: k.removed := by
  unfold Kernel.removeTask at h
  obtain ⟨move, hmove, rfl⟩ := Option.map_eq_some_iff.mp h
  obtain ⟨hsame, hcurrent⟩ :=
    noticeParent_spec (k.modify move fun before => { before with next := k.next t }) t
  refine ⟨move, hmove, ?_, hsame.count, hsame.taskQueue, hcurrent, ?_⟩
  · exact hsame.next.trans (next_modify k move _)
  · exact congrArg (t :: ·) hsame.removed

/-- Where the walk of `remove_task` stops: before the task, or at the end if the task is
the head of the queue or not in it. -/
theorem removal_walk {k : Kernel} {l : List Nat} (hchain : IsChain k.next (some k.taskQueue) l)
    (hlen : l.length ≤ k.count) {t move : Nat}
    (h : advance k.next (fun u => (k.next u).isSome && k.next u ≠ some t) k.count
      k.taskQueue = some move) :
    (∃ l₁ l₂, l = l₁ ++ move :: t :: l₂) ∨
      ((t = k.taskQueue ∨ t ∉ l) ∧ ∃ l₀, l = l₀ ++ [move]) := by
  by_cases hin : t ∈ l ∧ t ≠ k.taskQueue
  · obtain ⟨l₁, l₂, rfl⟩ := List.append_of_mem hin.1
    rcases List.eq_nil_or_concat l₁ with rfl | ⟨l₁, m, rfl⟩
    · exact absurd (Option.some.inj hchain.1).symm hin.2
    · have happ : l₁.concat m ++ t :: l₂ = l₁ ++ m :: t :: l₂ := by simp
      rw [happ] at hchain hlen
      have hmove := (advance_before hchain hlen).symm.trans h
      obtain rfl := Option.some.inj hmove
      exact Or.inl ⟨l₁, l₂, happ⟩
  · have hor : t = k.taskQueue ∨ t ∉ l := by
      by_cases ht : t ∈ l
      · exact Or.inl (not_not.mp fun hne => hin ⟨ht, hne⟩)
      · exact Or.inr ht
    obtain ⟨l₀, e, rfl⟩ : ∃ l₀ e, l = l₀ ++ [e] := by
      obtain ⟨rest, rfl, -⟩ := isChain_some.mp hchain
      exact ⟨_, _, (List.dropLast_append_getLast (List.cons_ne_nil _ _)).symm⟩
    have hbefore : ∀ b ∈ l₀, k.next b ≠ some t := by
      intro b hb hnext
      have hbl : b ∈ l₀ ++ [e] := List.mem_append_left _ hb
      rcases hor with rfl | ht
      · exact hchain.next_ne_head hbl hnext
      · exact ht (hchain.mem_of_next hbl hnext)
    have hlt : l₀.length < k.count := by
      simp only [List.length_append, List.length_singleton] at hlen
      omega
    have hlast := (advance_before_none hchain hbefore hlt).symm.trans h
    obtain rfl := Option.some.inj hlast
    exact Or.inr ⟨hor, l₀, rfl⟩

/-- A removal that the walk of `remove_task` can carry out. -/
def SafeRemoval (k : Kernel) (t : Nat) : Prop :=
  t ≠ k.taskQueue ∧ (t ∈ k.removed → k.next t = none)

/-- Unlinking takes the task out of the queue and nothing else. -/
private theorem mem_unlinked {l₁ l₂ : List Nat} {m t u : Nat}
    (hnodup : (l₁ ++ m :: t :: l₂).Nodup) :
    u ∈ l₁ ++ m :: l₂ ↔ u ∈ l₁ ++ m :: t :: l₂ ∧ u ≠ t := by
  have happ : l₁ ++ m :: t :: l₂ = (l₁ ++ [m]) ++ t :: l₂ := by simp
  have happ' : l₁ ++ m :: l₂ = (l₁ ++ [m]) ++ l₂ := by simp
  rw [happ] at hnodup ⊢
  rw [happ']
  have ht : t ∉ (l₁ ++ [m]) ++ l₂ := (List.nodup_cons.mp (List.nodup_middle.mp hnodup)).1
  constructor
  · intro hu
    refine ⟨?_, fun hut => ht (hut ▸ hu)⟩
    rcases List.mem_append.mp hu with hu | hu
    · exact List.mem_append_left _ hu
    · exact List.mem_append_right _ (List.mem_cons_of_mem t hu)
  · rintro ⟨hu, hne⟩
    rcases List.mem_append.mp hu with hu | hu
    · exact List.mem_append_left _ hu
    · exact List.mem_append_right _ ((List.mem_cons.mp hu).resolve_left hne)

/-- **A safe removal keeps the queue what it should be.** -/
theorem SafeRemoval.inv {k k' : Kernel} {t : Nat} (hsafe : SafeRemoval k t) (hk : QueueInv k)
    (ht : t < k.count) (h : k.removeTask t = some k') : QueueInv k' := by
  obtain ⟨move, hmove, hnext, hcount, hqueue, hcurrent, hremoved⟩ := removeTask_links h
  obtain ⟨l, hchain, hnodup, hmem⟩ := hk.queue
  have hlen := hchain.length_le fun u hu => ((hmem u).mp hu).1
  refine ⟨?_, ?_, ?_, ?_⟩
  · rcases removal_walk hchain hlen hmove with ⟨l₁, l₂, rfl⟩ | ⟨hor, l₀, rfl⟩
    · -- the usual case: the task is unlinked
      refine ⟨l₁ ++ move :: l₂, ?_, ?_, fun u => ?_⟩
      · rw [hqueue, hnext]
        exact hchain.unlink
      · exact hnodup.sublist
          ((List.Sublist.cons_cons move (List.sublist_cons_self t l₂)).append_left l₁)
      · rw [mem_unlinked hnodup, hmem u, hcount, hremoved, List.mem_cons, not_or]
        tauto
    · -- a second removal: the end of the queue gets the null link it has
      have htl : t ∉ l₀ ++ [move] := hor.resolve_left hsafe.1
      have hgone : t ∈ k.removed := not_not.mp fun hnr => htl ((hmem t).mpr ⟨ht, hnr⟩)
      have hsame : k'.next = k.next := by
        rw [hnext, hsafe.2 hgone, ← hchain.next_last, Function.update_eq_self]
      refine ⟨l₀ ++ [move], ?_, hnodup, fun u => ?_⟩
      · rw [hqueue, hsame]
        exact hchain
      · rw [hmem u, hcount, hremoved, List.mem_cons, not_or]
        have hne : u ∉ k.removed → u ≠ t := fun hnr hut => hnr (hut ▸ hgone)
        tauto
  · intro v hv u hu
    rw [hcount] at hv ⊢
    rw [hnext] at hu
    rcases eq_or_ne v move with rfl | hne
    · rw [Function.update_self] at hu
      exact hk.links t ht u hu
    · rw [Function.update_of_ne hne] at hu
      exact hk.links v hv u hu
  · rw [hcurrent, hcount]
    exact hk.current
  · rw [hremoved, hcount]
    exact List.forall_mem_cons.mpr ⟨ht, hk.removed⟩

/-- **Every other removal does damage**: the queue keeps a removed task, gets one back,
or leads in a circle. -/
theorem SafeRemoval.of_queueOk {k k' : Kernel} {t : Nat} (hk : QueueInv k) (ht : t < k.count)
    (h : k.removeTask t = some k') (hok : QueueOk k') : SafeRemoval k t := by
  obtain ⟨move, hmove, hnext, hcount, hqueue, -, hremoved⟩ := removeTask_links h
  obtain ⟨l, hchain, hnodup, hmem⟩ := hk.queue
  have ⟨l', hchain', _, hmem'⟩ := hok
  have hlen := hchain.length_le fun u hu => ((hmem u).mp hu).1
  rw [hqueue] at hchain'
  refine ⟨?_, fun hgone => ?_⟩
  · rintro rfl
    -- the head is still the first task of the new queue
    apply hok.head_not_removed
    rw [hqueue, hremoved]
    exact List.mem_cons_self
  · have htl : t ∉ l := fun hin => ((hmem t).mp hin).2 hgone
    rcases removal_walk hchain hlen hmove with ⟨l₁, l₂, rfl⟩ | ⟨-, l₀, rfl⟩
    · exact absurd (by simp) htl
    by_contra hsome
    obtain ⟨u, hu⟩ := Option.ne_none_iff_exists'.mp hsome
    have hend : k'.next move = some u := by rw [hnext, Function.update_self, hu]
    have hinit : ∀ b ∈ l₀, k'.next b = k.next b := fun b hb => by
      have hbm : b ≠ move := fun hbm =>
        (List.nodup_append.mp hnodup).2.2 b hb move List.mem_cons_self hbm
      rw [hnext, Function.update_of_ne hbm]
    -- the new queue begins with the old one, and then comes `u`
    have hmove' : move ∈ l' := by
      obtain ⟨q, hseg, hq, -⟩ := seg_append.mp hchain
      have hseg' : Seg k'.next (some k.taskQueue) (l₀ ++ [move]) (some u) :=
        seg_append.mpr ⟨q, hseg.congr hinit, hq, hend⟩
      exact hseg'.subset_chain hchain' (List.mem_append_right l₀ List.mem_cons_self)
    have hu' := (hmem' u).mp (hchain'.mem_of_next hmove' hend)
    rw [hcount, hremoved, List.mem_cons, not_or] at hu'
    have hul : u ∈ l₀ ++ [move] := (hmem u).mpr ⟨hu'.1, hu'.2.2⟩
    -- so the old queue has become a circle
    refine not_chain_of_closed (S := (· ∈ l₀ ++ [move])) ?_ ?_ l' hchain'
    · intro b hb
      rcases List.mem_append.mp hb with hb | hb
      · obtain ⟨c, hc, hcl⟩ := hchain.next_of_mem_init hb
        exact ⟨c, (hinit b hb).trans hc, hcl⟩
      · obtain rfl := List.mem_singleton.mp hb
        exact ⟨u, hend, hul⟩
    · obtain ⟨rest, heq, -⟩ := isChain_some.mp hchain
      rw [heq]
      exact List.mem_cons_self

/-! ### One call -/

/-- The task that a call hands to `remove_task`, if it does. -/
def removalTarget (k : Kernel) : TaskOp → Option Nat
  | .killThread pid => (k.getPidTask pid).join
  | .kill pid signal => (k.getPidTask pid).join.filter fun t =>
      signal < maxSignals && !(k.task t).sigQueued && (k.task t).sighandle signal = 0
  | .exit => some k.currentTask
  | _ => none

/-- In an intact queue a task found by its pid exists. -/
theorem QueueInv.getPidTask {k : Kernel} (hk : QueueInv k) {pid t : Nat}
    (h : k.getPidTask pid = some (some t)) : t < k.count := by
  obtain ⟨l, hchain, hnodup, hmem⟩ := hk.queue
  have hlen := hchain.length_le fun u hu => ((hmem u).mp hu).1
  unfold Kernel.getPidTask at h
  rw [seek_eq hchain hlen] at h
  exact ((hmem t).mp (List.mem_of_find?_eq_some (Option.some.inj h))).1

/-- A switch after a change that keeps the queue keeps everything. -/
theorem switch_inv {k k₁ k' : Kernel} (hk : QueueInv k) (h : k₁.switchTask = some k')
    (hsame : SameQueue k k₁) (hcurrent : k₁.currentTask = k.currentTask) : QueueInv k' := by
  obtain ⟨hswitch, hlt⟩ := switchTask_spec h
  refine (hsame.trans hswitch).inv hk (hlt (hsame.linksOk hk.linksOk) ?_)
  rw [hcurrent, hsame.count]
  exact hk.current

/-- A removal in the middle of a call: from `k₀` to `k₁`, with nothing else happening to
the queue before or after it. -/
structure Removes (k k' : Kernel) (t : Nat) : Prop where
  exist : t < k.count
  via : ∃ k₀ k₁, SameQueue k k₀ ∧ k₀.currentTask = k.currentTask ∧ k₀.removeTask t = some k₁ ∧
    SameQueue k₁ k' ∧ (QueueInv k₁ → QueueInv k')

/-- A bare removal, as in `kill_thread` and in `handle_signal`. -/
theorem Removes.of_removeTask {k k' : Kernel} {t : Nat} (ht : t < k.count)
    (h : k.removeTask t = some k') : Removes k k' t :=
  ⟨ht, k, k', SameQueue.refl k, rfl, h, SameQueue.refl k', id⟩

/-- `exit` removes the current task and switches. -/
theorem exit_removes {k k' : Kernel} (hk : QueueInv k) (h : k.exit = some k') :
    Removes k k' k.currentTask := by
  unfold Kernel.exit Kernel.exitThread at h
  obtain ⟨k₁, hremove, hswitch⟩ := Option.bind_eq_some_iff.mp h
  obtain ⟨hsame, -⟩ := switchTask_spec hswitch
  exact ⟨hk.current, _, k₁, sameQueue_modify k _ rfl, rfl, hremove, hsame,
    fun hk₁ => switch_inv hk₁ hswitch (SameQueue.refl k₁) rfl⟩

theorem killThread_cases {k k' : Kernel} {pid ret : Nat} (hk : QueueInv k)
    (h : k.killThread pid = some (ret, k')) :
    ((k.getPidTask pid).join = none ∧ k' = k) ∨
      ∃ t, (k.getPidTask pid).join = some t ∧ Removes k k' t := by
  rcases killThread_inv h with ⟨hfound, rfl⟩ | ⟨t, hfound, hremove⟩
  · exact Or.inl ⟨by rw [hfound]; rfl, rfl⟩
  · exact Or.inr ⟨t, by rw [hfound]; rfl,
      Removes.of_removeTask (hk.getPidTask hfound) hremove⟩

theorem handleSignal_cases {k k' : Kernel} {t signal : Nat} {ret : Int} (hk : QueueInv k)
    (ht : t < k.count) (h : k.handleSignal t signal = some (ret, k')) :
    if signal < maxSignals && !(k.task t).sigQueued && (k.task t).sighandle signal = 0
    then Removes k k' t else QueueInv k' := by
  have hsame : SameQueue k (queueSignal k t signal) := sameQueue_modify k t rfl
  rcases handleSignal_inv h with ⟨hno, rfl⟩ | ⟨⟨hrange, hqueued⟩, hrest⟩
  · rw [if_neg (by rcases hno with hno | hno <;> simp [hno])]
    exact hk
  rcases hrest with ⟨hhandler, hremove⟩ | ⟨hhandler, hrest⟩
  · rw [if_pos (by simp [hrange, hqueued, hhandler])]
    exact Removes.of_removeTask ht hremove
  · rw [if_neg (by simp [hhandler])]
    rcases hrest with ⟨-, hsleep⟩ | ⟨-, rfl⟩
    · -- the current task goes to sleep over its own signal
      unfold Kernel.sleepThread at hsleep
      exact switch_inv hk hsleep (hsame.trans (sameQueue_modify _ _ rfl)) rfl
    · exact hsame.inv hk hk.current

theorem kill_cases {k k' : Kernel} {pid signal : Nat} {ret : Int} (hk : QueueInv k)
    (h : k.kill pid signal = some (ret, k')) :
    (removalTarget k (.kill pid signal) = none ∧ QueueInv k') ∨
      ∃ t, removalTarget k (.kill pid signal) = some t ∧ Removes k k' t := by
  rcases kill_inv h with ⟨hfound, rfl⟩ | ⟨t, hfound, hsignal⟩
  · exact Or.inl ⟨by simp [removalTarget, hfound], hk⟩
  · have hcases := handleSignal_cases hk (hk.getPidTask hfound) hsignal
    simp only [removalTarget, hfound]
    rw [Option.join_some, Option.filter_some]
    split at hcases
    · rename_i hcond
      exact Or.inr ⟨t, if_pos hcond, hcases⟩
    · rename_i hcond
      exact Or.inl ⟨if_neg hcond, hcases⟩

/-- **What a call does to the queue**: either it removes a task, or it keeps the queue
what it should be whatever the state. -/
theorem taskStep_cases {k k' : Kernel} {op : TaskOp} (hk : QueueInv k)
    (h : taskStep k op = some k') :
    (removalTarget k op = none ∧ QueueInv k') ∨
      ∃ t, removalTarget k op = some t ∧ Removes k k' t := by
  cases op with
  | createProcess function => exact Or.inl ⟨rfl, (createProcess_created hk h).inv hk⟩
  | createThread function =>
      obtain ⟨⟨pid, k₁⟩, hcreate, rfl⟩ := Option.map_eq_some_iff.mp h
      exact Or.inl ⟨rfl, (createThread_created hk hcreate).inv hk⟩
  | killThread pid =>
      obtain ⟨⟨ret, k₁⟩, hkill, rfl⟩ := Option.map_eq_some_iff.mp h
      rcases killThread_cases hk hkill with ⟨hnone, rfl⟩ | hremoves
      · exact Or.inl ⟨hnone, hk⟩
      · exact Or.inr hremoves
  | kill pid signal =>
      obtain ⟨⟨ret, k₁⟩, hkill, rfl⟩ := Option.map_eq_some_iff.mp h
      exact kill_cases hk hkill
  | exit => exact Or.inr ⟨_, rfl, exit_removes hk h⟩
  | sleepThread time => exact Or.inl ⟨rfl, switch_inv hk h (sameQueue_modify k _ rfl) rfl⟩
  | signal signal handler =>
      obtain rfl := Option.some.inj h
      refine Or.inl ⟨rfl, ?_⟩
      unfold Kernel.setSignal
      split
      · exact hk
      · refine SameQueue.inv ?_ hk hk.current
        dsimp only
        exact sameQueue_modify k _ rfl
  | sigreturn => exact Or.inl ⟨rfl, switch_inv hk h (sameQueue_modify k _ rfl) rfl⟩
  | timer => exact Or.inl ⟨rfl, switch_inv hk h ⟨rfl, rfl, rfl, rfl⟩ rfl⟩

theorem removes_safe {k k' : Kernel} {t : Nat} (hk : QueueInv k) (h : Removes k k' t)
    (hsafe : SafeRemoval k t) : QueueInv k' := by
  obtain ⟨k₀, k₁, hsame, hcurrent, hremove, -, hinv⟩ := h.via
  have hk₀ : QueueInv k₀ := hsame.inv hk (by rw [hcurrent, hsame.count]; exact hk.current)
  have hsafe₀ : SafeRemoval k₀ t := by
    unfold SafeRemoval
    rw [hsame.taskQueue, hsame.removed, hsame.next]
    exact hsafe
  exact hinv (hsafe₀.inv hk₀ (by rw [hsame.count]; exact h.exist) hremove)

theorem removes_exact {k k' : Kernel} {t : Nat} (hk : QueueInv k) (h : Removes k k' t)
    (hok : QueueOk k') : SafeRemoval k t := by
  obtain ⟨k₀, k₁, hsame, hcurrent, hremove, hafter, -⟩ := h.via
  have hk₀ : QueueInv k₀ := hsame.inv hk (by rw [hcurrent, hsame.count]; exact hk.current)
  have hsafe₀ := SafeRemoval.of_queueOk hk₀ (by rw [hsame.count]; exact h.exist) hremove
    (hafter.symm.queueOk hok)
  unfold SafeRemoval at hsafe₀
  rw [hsame.taskQueue, hsame.removed, hsame.next] at hsafe₀
  exact hsafe₀

/-! ### Any number of calls -/

/--
**When the task queue stays intact.**  Over every run from boot, the queue holds the
created and not yet removed tasks, each once, in every state exactly when no call
removes the head of the queue or, a second time, a task that still has a link.
-/
theorem queue_intact_iff (dir readEip : Nat) (ops : List TaskOp) :
    Always taskStep QueueOk (Kernel.initTasking dir readEip) ops ↔
      EveryStep taskStep (fun k op _ => ∀ t, removalTarget k op = some t → SafeRemoval k t)
        (Kernel.initTasking dir readEip) ops := by
  refine always_iff (fun _ (h : QueueInv _) => h.queue) ?_ ?_ (QueueInv.init dir readEip)
  · intro k op k' hk hstep hsafe
    rcases taskStep_cases hk hstep with ⟨-, hk'⟩ | ⟨t, htarget, hremoves⟩
    · exact hk'
    · exact removes_safe hk hremoves (hsafe t htarget)
  · intro k op k' hk hstep hok t htarget
    rcases taskStep_cases hk hstep with ⟨hnone, -⟩ | ⟨u, htarget', hremoves⟩
    · rw [hnone] at htarget
      cases htarget
    · obtain rfl := Option.some.inj (htarget'.symm.trans htarget)
      exact removes_exact hk hremoves hok

/-- The boot task is killed while a second one is there: the queue becomes a circle. -/
theorem queue_circle : ¬ Always taskStep QueueOk (Kernel.initTasking 0x101000 0x100000)
    [.createThread 0x102000, .killThread 1] := by
  intro h
  obtain ⟨k₁, hcreate, k₂, hkill, hhead, hgone⟩ : ∃ k₁,
      taskStep (Kernel.initTasking 0x101000 0x100000) (.createThread 0x102000) = some k₁ ∧
      ∃ k₂, taskStep k₁ (.killThread 1) = some k₂ ∧ k₂.taskQueue = 0 ∧ k₂.removed = [0] :=
    ⟨_, rfl, _, rfl, rfl, rfl⟩
  have hok : QueueOk k₂ := (h.2 k₁ hcreate).2 k₂ hkill
  apply hok.head_not_removed
  rw [hhead, hgone]
  exact List.mem_cons_self

end OsThing.Sched
