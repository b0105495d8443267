/-
When `get_msg` can be interrupted without harm.

A task that has captured the head of its queue and is preempted comes back to the same
head, if it was a message: others only add messages at the end, and only the task
itself takes one off.  But a captured null pointer is out of date as soon as a message
arrives, and then `msg_count` is not 0 and `get_msg` panics.  So the one step that does
harm is a `send_msg` to a task that has captured null.
-/
import OsThing.Ipc.Preemption
import OsThing.Proofs.Mailboxes

namespace OsThing.Ipc

open Chain Sched Runs

/-- The messages that were sent to the task and not received yet, oldest first. -/
def State.pending (s : State) (t : Nat) : List Payload := (s.sent t).drop (s.received t).length

/-- With this head the task `t` gets its oldest message, or is told that there is none. -/
structure TakesOldest (s : State) (t : Nat) (head : Option Nat) (buf : Msg) : Prop where
  ends : ∃ r, s.receive t head buf = some r
  none : ∀ ret buf' s', s.receive t head buf = some (ret, buf', s') → s.pending t = [] → ret = 1
  some : ∀ ret buf' s', s.receive t head buf = some (ret, buf', s') →
    ∀ m rest, s.pending t = m :: rest →
      ret = 0 ∧ buf'.toPayload = m ∧ s'.pending t = rest

/-- Every task in the middle of `get_msg` can finish, and gets its oldest message. -/
def GetMsgOk (s : Preempted) : Prop :=
  ∀ t head, s.captured t = some head → ∀ buf, TakesOldest s.state t head buf

/-- No message goes to a task that has captured a null pointer. -/
def Unseen (s : Preempted) (op : PreemptOp) : Prop :=
  ∀ pid payload a, op = .sendMsg pid payload a →
    ∀ t, s.state.kernel.getPidTask pid = some (some t) → s.captured t ≠ some none

/-- The queues are well kept, and what was captured is still the head. -/
structure PreemptInv (s : Preempted) (q : Nat → List Nat) : Prop where
  mail : MailInv s.state q
  exist : ∀ t head, s.captured t = some head → t < s.state.kernel.count
  current : ∀ t head, s.captured t = some head → head = (s.state.kernel.task t).msgBuf

theorem PreemptInv.boot (dir readEip : Nat) (garbage : Nat → Msg) :
    PreemptInv (Preempted.boot dir readEip garbage) fun _ => [] :=
  ⟨MailInv.boot dir readEip garbage, fun _ _ h => (by cases h), fun _ _ h => (by cases h)⟩

/-! ### Finishing -/

theorem Kept.pending {s : State} {t : Nat} {l : List Nat} (h : Kept s t l) :
    s.pending t = l.map fun a => (s.msg a).toPayload := by
  unfold State.pending
  rw [← h.fifo, List.drop_left]

/-- **With the head of its queue a task gets its oldest message.** -/
theorem MailInv.takesOldest {s : State} {q : Nat → List Nat} (h : MailInv s q) {t : Nat}
    (ht : t < s.kernel.count) (buf : Msg) :
    TakesOldest s t (s.kernel.task t).msgBuf buf := by
  have hkept := h.kept t ht
  have hallocated := h.allocated t ht
  rw [hkept.msgBuf_eq]
  rcases hq : q t with _ | ⟨m, rest⟩
  · rw [hq] at hkept
    obtain ⟨k', hreceive, -⟩ := @receive_none s t none hkept h.pointers buf
    refine ⟨⟨_, hreceive⟩, fun ret buf' s' hret _ => ?_, fun _ _ _ _ m rest hm => ?_⟩
    · exact (Prod.mk.inj (Option.some.inj (hret.symm.trans hreceive))).1
    · rw [hkept.pending] at hm
      cases hm
  · rw [hq] at hkept hallocated
    have hreceive := receive_some hkept (hallocated m List.mem_cons_self) buf
    refine ⟨⟨_, hreceive⟩, fun _ _ _ _ hm => ?_, fun ret buf' s' hret m' rest' hm => ?_⟩
    · rw [hkept.pending] at hm
      cases hm
    · obtain ⟨rfl, hrest⟩ := Prod.mk.inj (Option.some.inj (hret.symm.trans hreceive))
      obtain ⟨rfl, rfl⟩ := Prod.mk.inj hrest
      rw [hkept.pending, List.map_cons] at hm
      obtain ⟨rfl, rfl⟩ := List.cons.inj hm
      refine ⟨rfl, rfl, ?_⟩
      unfold State.pending State.dequeue
      dsimp only
      rw [Function.update_self, ← hkept.fifo]
      simp

theorem PreemptInv.getMsgOk {s : Preempted} {q : Nat → List Nat} (h : PreemptInv s q) :
    GetMsgOk s := by
  intro t head hcaptured buf
  obtain rfl := h.current t head hcaptured
  exact h.mail.takesOldest (h.exist t _ hcaptured) buf

/-! ### Steps -/

theorem PreemptInv.task {s : Preempted} {q : Nat → List Nat} {k' : Kernel} (h : PreemptInv s q)
    (hk : Quiet s.state.kernel k') :
    ∃ q', PreemptInv { s with state := { s.state with kernel := k' } } q' := by
  refine ⟨_, h.mail.quiet hk, fun t head hcaptured => ?_, fun t head hcaptured => ?_⟩
  · exact Nat.lt_of_lt_of_le (h.exist t head hcaptured) hk.count
  · have hmail := hk.kept t (h.exist t head hcaptured)
    exact (h.current t head hcaptured).trans (Prod.mk.inj hmail).1.symm

theorem PreemptInv.capture {s s' : Preempted} {q : Nat → List Nat} (h : PreemptInv s q)
    (hstep : s.capture = some s') : PreemptInv s' q := by
  unfold Preempted.capture at hstep
  split at hstep
  · cases hstep
  obtain rfl := Option.some.inj hstep
  refine ⟨h.mail, fun t head hcaptured => ?_, fun t head hcaptured => ?_⟩
  · dsimp only at hcaptured
    rcases eq_or_ne t s.state.kernel.currentTask with rfl | hne
    · exact h.mail.pointers.current
    · rw [Function.update_of_ne hne] at hcaptured
      exact h.exist t head hcaptured
  · dsimp only at hcaptured
    rcases eq_or_ne t s.state.kernel.currentTask with rfl | hne
    · rw [Function.update_self] at hcaptured
      exact (Option.some.inj hcaptured).symm
    · rw [Function.update_of_ne hne] at hcaptured
      exact h.current t head hcaptured

/-- The other tasks keep what they have captured, and their queues. -/
private theorem PreemptInv.finished {s : Preempted} {q q' : Nat → List Nat} {state : State}
    (h : PreemptInv s q) (hmail : MailInv state q')
    (hcount : s.state.kernel.count ≤ state.kernel.count)
    (hrest : ∀ t < s.state.kernel.count, t ≠ s.state.kernel.currentTask →
      (state.kernel.task t).msgBuf = (s.state.kernel.task t).msgBuf) :
    PreemptInv ⟨state, Function.update s.captured s.state.kernel.currentTask none⟩ q' := by
  refine ⟨hmail, fun t head hcaptured => ?_, fun t head hcaptured => ?_⟩
  · dsimp only at hcaptured
    rcases eq_or_ne t s.state.kernel.currentTask with rfl | hne
    · exact Nat.lt_of_lt_of_le h.mail.pointers.current hcount
    · rw [Function.update_of_ne hne] at hcaptured
      exact Nat.lt_of_lt_of_le (h.exist t head hcaptured) hcount
  · dsimp only at hcaptured
    rcases eq_or_ne t s.state.kernel.currentTask with rfl | hne
    · rw [Function.update_self] at hcaptured
      cases hcaptured
    · rw [Function.update_of_ne hne] at hcaptured
      exact (h.current t head hcaptured).trans (hrest t (h.exist t head hcaptured) hne).symm

theorem PreemptInv.finish {s s' : Preempted} {q : Nat → List Nat} {buf buf' : Msg} {ret : Nat}
    (h : PreemptInv s q) (hstep : s.finish buf = some (ret, buf', s')) :
    ∃ q', PreemptInv s' q' := by
  unfold Preempted.finish at hstep
  obtain ⟨head, hcaptured, hstep⟩ := Option.bind_eq_some_iff.mp hstep
  obtain ⟨⟨r, b, state⟩, hreceive, heq⟩ := Option.map_eq_some_iff.mp hstep
  obtain ⟨-, heq⟩ := Prod.mk.inj heq
  obtain ⟨-, rfl⟩ := Prod.mk.inj heq
  obtain rfl := h.current _ head hcaptured
  have hkept := h.mail.kept _ h.mail.pointers.current
  have hallocated := h.mail.allocated _ h.mail.pointers.current
  rcases hq : q s.state.kernel.currentTask with _ | ⟨m, rest⟩
  · rw [hq] at hkept
    obtain ⟨k', hreceive', hquiet⟩ := receive_none hkept h.mail.pointers buf
    obtain ⟨-, hrest⟩ := Prod.mk.inj (Option.some.inj (hreceive.symm.trans hreceive'))
    obtain ⟨-, rfl⟩ := Prod.mk.inj hrest
    exact ⟨_, h.finished (h.mail.quiet hquiet) hquiet.count fun t ht _ =>
      (Prod.mk.inj (hquiet.kept t ht)).1⟩
  · rw [hq] at hkept hallocated
    rw [hkept.msgBuf_eq] at hreceive
    have hreceive' := receive_some hkept (hallocated m List.mem_cons_self) buf
    obtain ⟨-, hrest⟩ := Prod.mk.inj (Option.some.inj (hreceive.symm.trans hreceive'))
    obtain ⟨-, rfl⟩ := Prod.mk.inj hrest
    refine ⟨_, h.finished (h.mail.dequeue hq) (Nat.le_refl _) fun t _ hne => ?_⟩
    rw [State.dequeue_kernel]
    exact congrArg Sched.Task.msgBuf (Kernel.modify_task_ne s.state.kernel hne _)

theorem PreemptInv.sent {s : Preempted} {q : Nat → List Nat} {pid t a ret : Nat}
    {payload : Payload} {state : State} (h : PreemptInv s q)
    (ht : s.state.kernel.getPidTask pid = some (some t))
    (hsend : s.state.sendMsg pid ⟨payload, none⟩ a = some (ret, state))
    (hunseen : s.captured t ≠ some none) : ∃ q', PreemptInv ⟨state, s.captured⟩ q' := by
  obtain ⟨hfresh, hsmall, hsent⟩ := sendMsg_spec h.mail ht hsend
  have hlt := h.mail.pointers.getPidTask ht
  refine ⟨_, hsent.inv h.mail hlt hfresh hsmall rfl, fun u head hcaptured => ?_,
    fun u head hcaptured => ?_⟩
  · rw [hsent.tasks.1.count]
    exact h.exist u head hcaptured
  · rcases eq_or_ne u t with rfl | hne
    · -- the queue was not empty, and its head stays
      have hhead := h.current u head hcaptured
      rw [(h.mail.kept u hlt).msgBuf_eq] at hhead
      rcases hq : q u with _ | ⟨m, rest⟩
      · rw [hq] at hhead
        rw [hhead] at hcaptured
        exact absurd hcaptured hunseen
      · have hseg := hsent.seg
        rw [hq] at hseg hhead
        exact hhead.trans hseg.1.symm
    · exact (h.current u head hcaptured).trans (Prod.mk.inj (hsent.others u hne)).1.symm

/-- A task that has captured null panics when it goes on after a message. -/
theorem PreemptInv.panics {s : Preempted} {q : Nat → List Nat} {pid t a ret : Nat}
    {payload : Payload} {state : State} (h : PreemptInv s q)
    (ht : s.state.kernel.getPidTask pid = some (some t))
    (hsend : s.state.sendMsg pid ⟨payload, none⟩ a = some (ret, state)) (buf : Msg) :
    state.receive t none buf = none := by
  obtain ⟨-, -, hsent⟩ := sendMsg_spec h.mail ht hsend
  have hcount : (state.kernel.task t).msgCount ≠ 0 := by
    rw [hsent.count]
    exact Nat.succ_ne_zero _
  unfold State.receive
  rw [if_pos hcount]

/-! ### Any number of steps -/

/-- **What a step does to tasks in the middle of `get_msg`**: nothing that they notice, or
it is a message to a task. -/
theorem preemptStep_cases {s s' : Preempted} {q : Nat → List Nat} {op : PreemptOp}
    (h : PreemptInv s q) (hstep : preemptStep s op = some s') :
    ((∃ q', PreemptInv s' q') ∧ Unseen s op) ∨
      ∃ pid payload a t ret state, op = .sendMsg pid payload a ∧
        s.state.kernel.getPidTask pid = some (some t) ∧
        s.state.sendMsg pid ⟨payload, none⟩ a = some (ret, state) ∧
        s' = ⟨state, s.captured⟩ := by
  cases op with
  | task op =>
      obtain ⟨k', hk', rfl⟩ := Option.map_eq_some_iff.mp hstep
      exact Or.inl ⟨h.task (taskStep_quiet hk'), fun _ _ _ hop => (nomatch hop)⟩
  | sendMsg pid payload a =>
      obtain ⟨⟨ret, state⟩, hsend, rfl⟩ := Option.map_eq_some_iff.mp hstep
      obtain ⟨found, hfound, hrest⟩ := Option.bind_eq_some_iff.mp hsend
      rcases found with _ | t
      · obtain ⟨-, rfl⟩ := Prod.mk.inj (Option.some.inj hrest)
        refine Or.inl ⟨⟨q, h⟩, fun pid' payload' a' hop t ht => ?_⟩
        obtain ⟨rfl, -, -⟩ := PreemptOp.sendMsg.inj hop
        exact absurd (Option.some.inj (hfound.symm.trans ht)) (Option.some_ne_none t).symm
      · exact Or.inr ⟨pid, payload, a, t, ret, state, rfl, hfound, hsend, rfl⟩
  | capture => exact Or.inl ⟨⟨q, h.capture hstep⟩, fun _ _ _ hop => (nomatch hop)⟩
  | finish buf =>
      obtain ⟨⟨ret, buf', s₁⟩, hfinish, rfl⟩ := Option.map_eq_some_iff.mp hstep
      exact Or.inl ⟨h.finish hfinish, fun _ _ _ hop => (nomatch hop)⟩

/--
**When `get_msg` tolerates preemption.**  Over every run of receivers, senders and
scheduler calls from boot, every task in the middle of `get_msg` can finish with its
oldest message, in every state, exactly when no message is sent to a task that has
captured a null pointer.
-/
theorem get_msg_preempted_iff (dir readEip : Nat) (garbage : Nat → Msg) (ops : List PreemptOp) :
    Always preemptStep GetMsgOk (Preempted.boot dir readEip garbage) ops ↔
      EveryStep preemptStep (fun s op _ => Unseen s op)
        (Preempted.boot dir readEip garbage) ops := by
  refine always_iff (fun s (h : ∃ q, PreemptInv s q) => ?_) ?_ ?_
    ⟨_, PreemptInv.boot dir readEip garbage⟩
  · obtain ⟨q, hq⟩ := h
    exact hq.getMsgOk
  · rintro s op s' ⟨q, hq⟩ hstep hunseen
    rcases preemptStep_cases hq hstep with ⟨hinv, -⟩ | ⟨pid, payload, a, t, ret, state, rfl, ht,
      hsend, rfl⟩
    · exact hinv
    · exact hq.sent ht hsend (hunseen pid payload a rfl t ht)
  · rintro s op s' ⟨q, hq⟩ hstep hok
    rcases preemptStep_cases hq hstep with ⟨-, hunseen⟩ | ⟨pid, payload, a, t, ret, state, rfl, ht,
      hsend, rfl⟩
    · exact hunseen
    · intro pid' payload' a' hop u hu hcaptured
      obtain ⟨rfl, -, -⟩ := PreemptOp.sendMsg.inj hop
      obtain rfl : t = u := Option.some.inj (Option.some.inj (ht.symm.trans hu))
      obtain ⟨r, hr⟩ := (hok t none hcaptured ⟨payload, none⟩).ends
      rw [hq.panics ht hsend] at hr
      cases hr

/-- The boot task is preempted in `get_msg` right after it has read a null head; another
task sends it a message, and it panics. -/
theorem get_msg_panics :
    ¬ Always preemptStep GetMsgOk (Preempted.boot 0x101000 0x100000 fun _ => strayMsg)
      [.task (.createThread 0x102000), .capture, .task .timer,
        .sendMsg 1 strayMsg.toPayload 0xc0200004, .task .timer] := by
  intro h
  have hrun : (runAll preemptStep (Preempted.boot 0x101000 0x100000 fun _ => strayMsg)
      [.task (.createThread 0x102000), .capture, .task .timer,
        .sendMsg 1 strayMsg.toPayload 0xc0200004, .task .timer]).map (fun s =>
          (s.state.kernel.currentTask, s.captured 0, (s.state.kernel.task 0).msgCount)) =
        some (0, some none, 1) := by
    decide
  obtain ⟨s, hs, heq⟩ := Option.map_eq_some_iff.mp hrun
  obtain ⟨-, hrest⟩ := Prod.mk.inj heq
  obtain ⟨hcaptured, hcount⟩ := Prod.mk.inj hrest
  obtain ⟨r, hr⟩ := (h.last hs 0 none hcaptured strayMsg).ends
  unfold State.receive at hr
  rw [hcount] at hr
  cases hr

/-! ### A blocking receiver

The loop of `get_msg` is to go on while there is no message, but its condition asks for a
message, with which the loop has been left before.  So the first `switch_task` that comes back
is the last. -/

/-- A message is taken and copied to `buf`, or there is none. -/
theorem receive_cases {s s' : State} {t ret : Nat} {head : Option Nat} {buf buf' : Msg}
    (h : s.receive t head buf = some (ret, buf', s')) :
    ((s.kernel.task t).msgCount ≠ 0 ∧ ret = 0 ∧ ∃ m, head = some m ∧ buf' = s.msg m) ∨
      ((s.kernel.task t).msgCount = 0 ∧ ret = 1) := by
  unfold State.receive at h
  split at h
  · rename_i hcount
    split at h
    · rename_i m first _
      obtain ⟨s₁, hfree, heq⟩ := Option.map_eq_some_iff.mp h
      obtain ⟨-, hs₁⟩ := Option.ite_none_right_eq_some.mp hfree
      obtain rfl := Option.some.inj hs₁
      obtain ⟨hret, hrest⟩ := Prod.mk.inj heq
      exact Or.inl ⟨hcount, hret.symm, m, rfl, (Prod.mk.inj hrest).1.symm⟩
    · cases h
  · rename_i hcount
    obtain ⟨k', -, heq⟩ := Option.map_eq_some_iff.mp h
    exact Or.inr ⟨not_not.mp hcount, (Prod.mk.inj heq).1.symm⟩

section Call

variable {ι : Type*} {others : State → ι → Option State}

/-- **The loop does not go round**: what it returns is what its body gave the first time. -/
theorem getMsgLoop_once {blocking temp ret : Nat} {msg : Option Nat} {buf buf' : Msg}
    {s s' : State} {runs : List (List ι)}
    (h : getMsgLoop others blocking temp msg buf s runs = some (ret, buf', s')) :
    ∃ s₁, s.receive temp msg buf = some (ret, buf', s₁) := by
  rcases runs with _ | ⟨run, runs⟩
  · cases h
  unfold getMsgLoop at h
  obtain ⟨⟨r, b, s₁⟩, hreceive, h⟩ := Option.bind_eq_some_iff.mp h
  dsimp only at h
  split at h
  · obtain ⟨rfl, heq⟩ := Prod.mk.inj (Option.some.inj h)
    obtain ⟨rfl, rfl⟩ := Prod.mk.inj heq
    exact ⟨s₁, hreceive⟩
  · rename_i hret
    obtain ⟨s₂, -, h⟩ := Option.bind_eq_some_iff.mp h
    rw [if_neg fun hagain => hret hagain.2] at h
    obtain ⟨rfl, heq⟩ := Prod.mk.inj (Option.some.inj h)
    obtain ⟨rfl, rfl⟩ := Prod.mk.inj heq
    exact ⟨s₁, hreceive⟩

/--
**A blocking receiver gets a message if and only if there is one when `get_msg` looks**,
whatever the others do before that and while the receiver waits.
-/
theorem blocking_receive_iff (blocking : Nat) (buf : Msg) {s tested s' : State} {run : List ι}
    {runs : List (List ι)} {ret : Nat} {buf' : Msg}
    (htested : letRun others s.kernel.currentTask s run = some tested)
    (h : getMsgCall others blocking buf s run runs = some (ret, buf', s')) :
    (ret = 0 ∧ ∃ m, s.kernel.current.msgBuf = some m ∧ buf' = tested.msg m) ↔
      (tested.kernel.task s.kernel.currentTask).msgCount ≠ 0 := by
  unfold getMsgCall at h
  rw [htested] at h
  obtain ⟨s₁, hreceive⟩ := getMsgLoop_once h
  rcases receive_cases hreceive with ⟨hcount, hmessage⟩ | ⟨hcount, hret⟩
  · exact iff_of_true hmessage hcount
  · exact iff_of_false (fun hzero => Nat.zero_ne_one (hzero.1.symm.trans hret)) (not_not.mpr hcount)

end Call

/-- A message that was sent before. -/
theorem blocking_receive_sent : ∃ s tested s' : State, ∃ buf' : Msg,
    runAll ipcStep (State.boot 0x101000 0x100000 fun _ => strayMsg)
      [.sendMsg 1 strayMsg 0xc0200004] = some s ∧
    letRun ipcStep s.kernel.currentTask s [] = some tested ∧
    getMsgCall ipcStep 1 strayMsg s [] [[]] = some (0, buf', s') ∧
    ∃ m, s.kernel.current.msgBuf = some m ∧ buf' = tested.msg m := by
  have hrun : ((runAll ipcStep (State.boot 0x101000 0x100000 fun _ => strayMsg)
      [.sendMsg 1 strayMsg 0xc0200004]).bind fun s =>
        (letRun ipcStep s.kernel.currentTask s []).bind fun tested =>
        (getMsgCall ipcStep 1 strayMsg s [] [[]]).map fun r =>
          (r.1, (tested.kernel.task s.kernel.currentTask).msgCount)) = some (0, 1) := by
    decide +kernel
  obtain ⟨s, hs, hrun⟩ := Option.bind_eq_some_iff.mp hrun
  obtain ⟨tested, htested, hrun⟩ := Option.bind_eq_some_iff.mp hrun
  obtain ⟨⟨ret, buf', s'⟩, hcall, heq⟩ := Option.map_eq_some_iff.mp hrun
  obtain ⟨rfl, hcount⟩ := Prod.mk.inj heq
  have hmessage := (blocking_receive_iff 1 strayMsg htested hcall).mpr (by rw [hcount]; decide)
  exact ⟨s, tested, s', buf', hs, htested, hcall, hmessage.2⟩

/-- The boot task waits, another task sends it a message, and `get_msg` returns 1. -/
theorem blocking_receive_empty : ∃ s s' : State, ∃ buf' : Msg,
    runAll ipcStep (State.boot 0x101000 0x100000 fun _ => strayMsg)
      [.task (.createThread 0x102000)] = some s ∧
    getMsgCall ipcStep 1 strayMsg s [] [[.sendMsg 1 strayMsg 0xc0200004, .task .timer]] =
      some (1, buf', s') := by
  have hrun : ((runAll ipcStep (State.boot 0x101000 0x100000 fun _ => strayMsg)
      [.task (.createThread 0x102000)]).bind fun s =>
        (getMsgCall ipcStep 1 strayMsg s []
          [[.sendMsg 1 strayMsg 0xc0200004, .task .timer]]).map fun r => r.1) = some 1 := by
    decide +kernel
  obtain ⟨s, hs, hrun⟩ := Option.bind_eq_some_iff.mp hrun
  obtain ⟨⟨ret, buf', s'⟩, hcall, rfl⟩ := Option.map_eq_some_iff.mp hrun
  exact ⟨s, s', buf', hs, hcall⟩

end OsThing.Ipc
