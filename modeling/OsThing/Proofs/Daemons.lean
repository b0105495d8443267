/-
The daemon answers every request once, in order.

What it has received is the beginning of what was sent to it, so it is enough to look at what
it does with what it receives: the requests among that are the ones that were answered, and the
one that is being answered.  An answer goes to the task that has the pid of the sender by then,
if there is one, and lies in its queue behind everything that was sent before.

All of it rests on the links: the daemon never sets the one of its reply, and it has to be null
by accident.
-/
import OsThing.Ipc.Daemons
import OsThing.Proofs.Mailboxes

namespace OsThing.Ipc

open Chain Sched Runs

/-- The message asks for an answer. -/
def Payload.asks (p : Payload) : Bool := p.msgType == msgStatus

/-- The answers of the daemon lie among what was sent to the task `t`, in their order. -/
def AnswersSent (s : Daemon) (t : Nat) : Prop :=
  ∃ acks : List Payload, acks.Sublist (s.state.sent t) ∧
    acks.length = s.answered.countP (fun a => a.2 = some t) ∧ ∀ ack ∈ acks, ack.msgType = msgAck

/-- What holds in every state: the queues are well kept, and the requests that were received are
answered, or one of them is about to be. -/
structure DaemonInv (d : Nat) (s : Daemon) : Prop where
  queues : ∃ q, MailInv s.state q
  requests : (s.state.received d).filter Payload.asks =
    s.answered.map Prod.fst ++ s.request.toList
  answers : ∀ t, AnswersSent s t

/-! ### Calls of the others -/

section Calls

variable {s s' : State} {q : Nat → List Nat}

/-- What a call leaves of the mail: nothing that was sent is lost, and only the current task
receives. -/
structure MailKept (s s' : State) (receives : Bool) : Prop where
  sent : ∀ t, s.sent t <+: s'.sent t
  received : ∀ t, (receives = true → s.kernel.currentTask ≠ t) → s'.received t = s.received t

theorem sendMsg_kept {pid a ret : Nat} {buf : Msg} (h : MailInv s q)
    (hsend : s.sendMsg pid buf a = some (ret, s')) : MailKept s s' false := by
  obtain ⟨found, hfound, hrest⟩ := Option.bind_eq_some_iff.mp hsend
  cases found with
  | none =>
      obtain ⟨-, rfl⟩ := Prod.mk.inj (Option.some.inj hrest)
      exact ⟨fun _ => List.prefix_refl _, fun _ _ => rfl⟩
  | some t =>
      obtain ⟨-, -, hsent⟩ := sendMsg_spec h hfound hsend
      refine ⟨fun u => ?_, fun u _ => by rw [hsent.received]⟩
      rw [hsent.sent]
      rcases eq_or_ne u t with rfl | hne
      · rw [Function.update_self]
        exact List.prefix_append ..
      · exact ⟨[], by rw [List.append_nil, Function.update_of_ne hne]⟩

theorem getMsg_kept {blocking ret : Nat} {buf buf' : Msg} (h : MailInv s q)
    (hget : s.getMsg blocking buf = some (ret, buf', s')) : MailKept s s' true ∧
      ((ret = 1 ∧ s'.received = s.received) ∨ (ret = 0 ∧ s'.received s.kernel.currentTask =
        s.received s.kernel.currentTask ++ [buf'.toPayload])) ∧ ∃ q', MailInv s' q' := by
  rcases hq : q s.kernel.currentTask with _ | ⟨m, rest⟩
  · obtain ⟨k', hget', hquiet⟩ := getMsg_none h hq blocking buf
    obtain ⟨rfl, -, rfl⟩ : ret = 1 ∧ buf' = buf ∧ s' = { s with kernel := k' } := by
      simpa using hget.symm.trans hget'
    exact ⟨⟨fun _ => List.prefix_refl _, fun _ _ => rfl⟩, Or.inl ⟨rfl, rfl⟩, _, h.quiet hquiet⟩
  · have hkept := h.kept _ h.pointers.current
    have hin := h.allocated _ h.pointers.current
    rw [hq] at hkept hin
    have hget' : s.getMsg blocking buf = some (0, s.msg m,
        ({ s with allocated := s.allocated.erase m }).dequeue s.kernel.currentTask m) := by
      unfold State.getMsg Kernel.current
      rw [hkept.msgBuf_eq]
      exact receive_some hkept (hin m List.mem_cons_self) buf
    obtain ⟨rfl, rfl, rfl⟩ : ret = 0 ∧ buf' = s.msg m ∧ s' =
        ({ s with allocated := s.allocated.erase m }).dequeue s.kernel.currentTask m := by
      simpa using hget.symm.trans hget'
    refine ⟨⟨fun _ => List.prefix_refl _, fun t ht => ?_⟩, Or.inr ⟨rfl, ?_⟩, _, h.dequeue hq⟩
    · exact Function.update_of_ne (ht rfl).symm ..
    · exact Function.update_self ..

theorem ipcStep_kept {op : IpcOp} (h : MailInv s q) (hstep : ipcStep s op = some s') :
    MailKept s s' op.receives := by
  cases op with
  | task op =>
      obtain ⟨k', -, rfl⟩ := Option.map_eq_some_iff.mp hstep
      exact ⟨fun _ => List.prefix_refl _, fun _ _ => rfl⟩
  | sendMsg pid buf a =>
      obtain ⟨⟨ret, s₁⟩, hsend, rfl⟩ := Option.map_eq_some_iff.mp hstep
      exact sendMsg_kept h hsend
  | getMsg blocking buf =>
      obtain ⟨⟨ret, buf', s₁⟩, hget, rfl⟩ := Option.map_eq_some_iff.mp hstep
      exact (getMsg_kept h hget).1

/-- A call that passes a null link keeps the queues. -/
theorem ipcStep_inv {op : IpcOp} (h : MailInv s q) (hstep : ipcStep s op = some s')
    (hnull : NullLink s op) : ∃ q', MailInv s' q' := by
  rcases ipcStep_cases h hstep with hinv | ⟨pid, buf, a, t, ret, rfl, ht, hsend⟩
  · exact hinv
  · obtain ⟨hfresh, hsmall, hsent⟩ := sendMsg_spec h ht hsend
    have hlink : buf.next = none := hnull (by rw [ht]; exact Option.some_ne_none t)
    exact ⟨_, hsent.inv h (h.pointers.getPidTask ht) hfresh hsmall hlink⟩

end Calls

/-! ### A step -/

/-- What was sent may be more afterwards. -/
theorem AnswersSent.mono {s s' : Daemon} {t : Nat} (h : AnswersSent s t)
    (hsent : s.state.sent t <+: s'.state.sent t) (hanswered : s'.answered = s.answered) :
    AnswersSent s' t := by
  obtain ⟨acks, hsub, hlength, hacks⟩ := h
  exact ⟨acks, hsub.trans hsent.sublist, by rw [hanswered]; exact hlength, hacks⟩

/-- The link that a step passes on is null, if it sends anything to a task. -/
def NullLinks (link : Option Nat) (s : Daemon) : DaemonOp → Prop
  | .other op => NullLink s.state op
  | .getMsg _ => True
  | .sendMsg .. => link = none

variable {d : Nat} {link : Option Nat} {s s' : Daemon}

theorem DaemonInv.other {op : IpcOp} (h : DaemonInv d s) (hstep : s.other d op = some s')
    (hnull : NullLink s.state op) : DaemonInv d s' := by
  obtain ⟨q, hq⟩ := h.queues
  unfold Daemon.other at hstep
  split at hstep
  · cases hstep
  · next hother =>
      obtain ⟨state, hipc, rfl⟩ := Option.map_eq_some_iff.mp hstep
      have hkept := ipcStep_kept hq hipc
      refine ⟨ipcStep_inv hq hipc hnull, ?_, fun t => (h.answers t).mono (hkept.sent t) rfl⟩
      show (state.received d).filter Payload.asks = _
      rw [hkept.received d fun hreceives hcur => hother ⟨hcur, hreceives⟩]
      exact h.requests

theorem DaemonInv.getMsg {buf : Msg} (h : DaemonInv d s) (hstep : s.getMsg d buf = some s') :
    DaemonInv d s' := by
  obtain ⟨q, hq⟩ := h.queues
  unfold Daemon.getMsg at hstep
  split at hstep
  · next hturn =>
      obtain ⟨⟨ret, msg, state⟩, hget, rfl⟩ := Option.map_eq_some_iff.mp hstep
      obtain ⟨hkept, hreceived, hinv⟩ := getMsg_kept hq hget
      refine ⟨hinv, ?_, fun t => (h.answers t).mono (hkept.sent t) rfl⟩
      have hrequests := h.requests
      rw [hturn.2, Option.toList_none, List.append_nil] at hrequests
      rw [hturn.1] at hreceived
      show (state.received d).filter Payload.asks = s.answered.map Prod.fst ++
        (if ret = 0 ∧ msg.msgType = msgStatus then some msg.toPayload else none).toList
      rcases hreceived with ⟨hret, hsame⟩ | ⟨hret, hmore⟩
      · rw [hsame, hrequests, if_neg (by rw [hret]; exact fun hboth => absurd hboth.1 (by decide)),
          Option.toList_none, List.append_nil]
      · rw [hmore, List.filter_append, hrequests]
        by_cases hstatus : msg.msgType = msgStatus
        · rw [if_pos ⟨hret, hstatus⟩, List.filter_cons_of_pos (by simp [Payload.asks, hstatus])]
          rfl
        · rw [if_neg fun hboth => hstatus hboth.2,
            List.filter_cons_of_neg (by simp [Payload.asks, hstatus])]
          rfl
  · cases hstep

/-- An answer to a task is one more of those that lie among what was sent to it. -/
theorem AnswersSent.send {seq a ret t : Nat} {data : Vector UInt8 4} {q : Nat → List Nat}
    {msg : Payload} {state : State} (h : AnswersSent s t) (hq : MailInv s.state q)
    (hsend : s.state.sendMsg msg.sender (s.reply d link seq data) a = some (ret, state)) :
    AnswersSent ⟨state, none,
      s.answered ++ [(msg, (s.state.kernel.getPidTask msg.sender).join)]⟩ t := by
  obtain ⟨acks, hsub, hlength, hacks⟩ := h
  by_cases hto : (s.state.kernel.getPidTask msg.sender).join = some t
  · obtain ⟨-, -, hsent⟩ := sendMsg_spec hq (Option.join_eq_some_iff.mp hto) hsend
    refine ⟨acks ++ [(s.reply d link seq data).toPayload], ?_, ?_, ?_⟩
    · show List.Sublist _ (state.sent t)
      rw [hsent.sent, Function.update_self]
      exact hsub.append (List.Sublist.refl _)
    · rw [List.length_append, hlength, List.countP_append, hto]
      simp
    · intro ack hack
      rcases List.mem_append.mp hack with hold | hnew
      · exact hacks ack hold
      · rw [List.mem_singleton.mp hnew]
        rfl
  · refine ⟨acks, hsub.trans ((sendMsg_kept hq hsend).sent t).sublist, ?_, hacks⟩
    rw [List.countP_append, hlength]
    simp [hto]

theorem DaemonInv.sendMsg {seq a : Nat} {data : Vector UInt8 4} (h : DaemonInv d s)
    (hstep : s.sendMsg d link seq data a = some s') (hnull : link = none) : DaemonInv d s' := by
  obtain ⟨q, hq⟩ := h.queues
  unfold Daemon.sendMsg at hstep
  split at hstep
  · obtain ⟨msg, hrequest, hstep⟩ := Option.bind_eq_some_iff.mp hstep
    obtain ⟨⟨ret, state⟩, hsend, rfl⟩ := Option.map_eq_some_iff.mp hstep
    have hipc : ipcStep s.state (.sendMsg msg.sender (s.reply d link seq data) a) = some state :=
      Option.map_eq_some_iff.mpr ⟨_, hsend, rfl⟩
    refine ⟨ipcStep_inv hq hipc fun _ => hnull, ?_, fun t => (h.answers t).send hq hsend⟩
    have hrequests := h.requests
    rw [hrequest] at hrequests
    show (state.received d).filter Payload.asks = _ ++ []
    rw [(sendMsg_kept hq hsend).received d fun hreceives => absurd hreceives (by decide), hrequests,
      List.map_append, List.append_nil]
    rfl
  · cases hstep

theorem daemonStep_inv {op : DaemonOp} (h : DaemonInv d s) (hstep : daemonStep d link s op = some s')
    (hnull : NullLinks link s op) : DaemonInv d s' := by
  cases op with
  | other op => exact h.other hstep hnull
  | getMsg buf => exact h.getMsg hstep
  | sendMsg seq data a => exact h.sendMsg hstep hnull

theorem DaemonInv.boot (d dir readEip : Nat) (garbage : Nat → Msg) :
    DaemonInv d (.boot dir readEip garbage) :=
  ⟨⟨_, MailInv.boot dir readEip garbage⟩, rfl, fun _ => ⟨[], List.Sublist.refl _, rfl, by simp⟩⟩

/-! ### A run -/

/-- What a task was sent is what it received, and what is in its queue. -/
theorem MailInv.sent_eq {s : State} {q : Nat → List Nat} (h : MailInv s q) (t : Nat) :
    ∃ rest, s.sent t = s.received t ++ rest ∧
      (t < s.kernel.count → (s.kernel.task t).msgCount = 0 → rest = []) := by
  rcases Nat.lt_or_ge t s.kernel.count with hlt | hge
  · have hkept := h.kept t hlt
    refine ⟨_, hkept.fifo.symm, fun _ hcount => ?_⟩
    rw [List.eq_nil_of_length_eq_zero (hkept.count.trans hcount), List.map_nil]
  · obtain ⟨hsent, hreceived⟩ := h.unborn t hge
    exact ⟨[], by rw [hsent, hreceived]; rfl, fun hlt => absurd hlt (Nat.not_lt.mpr hge)⟩

/-- **Every request is answered once, in order**, whatever the other tasks do in between, as long
as all links are null: the answered requests, the one that is being answered and the ones that
the daemon has not received yet are the requests that it was sent.  The answers lie in the queues
of the tasks they went to. -/
theorem daemon_answers (dir readEip : Nat) (garbage : Nat → Msg) (ops : List DaemonOp)
    (hrun : runAll (daemonStep d link) (.boot dir readEip garbage) ops = some s)
    (hnull : EveryStep (daemonStep d link) (fun s op _ => NullLinks link s op)
      (.boot dir readEip garbage) ops) :
    (∃ rest, (s.state.sent d).filter Payload.asks =
        s.answered.map Prod.fst ++ s.request.toList ++ rest ∧
      (d < s.state.kernel.count → (s.state.kernel.task d).msgCount = 0 → rest = [])) ∧
      ∀ t, AnswersSent s t := by
  have hinv : DaemonInv d s :=
    (always_of_inv (fun s op s' h hstep hlink => daemonStep_inv h hstep hlink)
      (DaemonInv.boot d dir readEip garbage) hnull).last hrun
  obtain ⟨q, hq⟩ := hinv.queues
  obtain ⟨rest, hsent, hempty⟩ := hq.sent_eq d
  refine ⟨⟨rest.filter Payload.asks, ?_, fun hlt hcount => ?_⟩, hinv.answers⟩
  · rw [hsent, List.filter_append, hinv.requests]
  · rw [hempty hlt hcount, List.filter_nil]

/-- The first task asks itself. -/
def askingRun : List DaemonOp :=
  [.other (.sendMsg 1 ⟨⟨msgStatus, 1, 0, Vector.replicate 4 0⟩, none⟩ 0xc0200004), .getMsg strayMsg,
    .sendMsg 0 (Vector.replicate 4 0) 0xc0200044]

theorem askingRun_runs :
    (runAll (daemonStep 0 none) (.boot 0 1 fun _ => strayMsg) askingRun).isSome = true := by
  decide +kernel

theorem daemon_answers_one : ∃ s,
    runAll (daemonStep 0 none) (.boot 0 1 fun _ => strayMsg) askingRun = some s ∧ AnswersSent s 0 := by
  obtain ⟨s, hs⟩ := Option.isSome_iff_exists.mp askingRun_runs
  exact ⟨s, hs, (daemon_answers 0 1 _ askingRun hs
    fun _ _ => ⟨fun _ => rfl, fun _ _ => ⟨trivial, fun _ _ => ⟨rfl, trivial⟩⟩⟩).2 0⟩

end OsThing.Ipc
