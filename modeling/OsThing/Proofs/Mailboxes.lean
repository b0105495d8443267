/-
When message queues are queues.

A queue is well kept if the list from `msg_buf` ends with null after `msg_count`
messages, and what was received together with what is still in the list is what was
sent.  `send_msg` copies the message whole, its link included, and the link of the copy
becomes the end of the queue.  So the queue stays well kept as long as senders happen
to pass a null link, and is broken by the first one that does not: `Sent.seg` shows
the link of the message at the end of the list either way.

The rest is bookkeeping that makes the copy a new block: blocks in a queue are
allocated, the queues share none, and the calls of the scheduler leave queues alone.
-/
import OsThing.Lib.Runs
import OsThing.Ipc.Message
import OsThing.Proofs.Scheduler

namespace OsThing.Ipc

open Chain Sched Runs

/-! ### Well kept queues -/

/-- The queue of the task `t` is well kept, and its messages are in the blocks `l`. -/
structure Kept (s : State) (t : Nat) (l : List Nat) : Prop where
  chain : IsChain s.next (s.kernel.task t).msgBuf l
  count : l.length = (s.kernel.task t).msgCount
  fifo : s.received t ++ l.map (fun a => (s.msg a).toPayload) = s.sent t

/-- All queues are well kept, and `get_msg` comes back, with 0 if there is a message. -/
def QueuesOk (s : State) : Prop :=
  (∀ t < s.kernel.count, ∃ l, Kept s t l) ∧
    ∀ blocking buf, ∃ ret buf' s', s.getMsg blocking buf = some (ret, buf', s') ∧
      (ret = 0 ↔ s.kernel.current.msgBuf ≠ none)

/-- The invariant of runs in which every message is sent with a null link: `q t` are the
blocks in the queue of `t`. -/
structure MailInv (s : State) (q : Nat → List Nat) : Prop where
  pointers : PointersOk s.kernel
  kept : ∀ t < s.kernel.count, Kept s t (q t)
  allocated : ∀ t < s.kernel.count, ∀ a ∈ q t, a ∈ s.allocated
  apart : ∀ t < s.kernel.count, ∀ u < s.kernel.count, t ≠ u → ∀ a ∈ q t, a ∉ q u
  small : ∀ a ∈ s.allocated, a < State.addressSpace
  unborn : ∀ t, s.kernel.count ≤ t → s.sent t = [] ∧ s.received t = []

theorem MailInv.boot (dir readEip : Nat) (garbage : Nat → Msg) :
    MailInv (State.boot dir readEip garbage) fun _ => [] where
  pointers := ⟨⟨Nat.zero_lt_one, fun t _ u hu => by cases hu⟩, Nat.zero_lt_one⟩
  kept t _ := ⟨rfl, rfl, rfl⟩
  allocated t _ a ha := by cases ha
  apart t _ u _ _ a ha := by cases ha
  small a ha := by cases ha
  unborn t _ := ⟨rfl, rfl⟩

/-- Whether a queue is well kept depends on the mail of its task, on the memory of its
blocks and on what was sent and received. -/
theorem Kept.congr {s s' : State} {t : Nat} {l : List Nat} (h : Kept s t l)
    (hmail : mail (s'.kernel.task t) = mail (s.kernel.task t))
    (hnext : ∀ a ∈ l, s'.next a = s.next a)
    (hpayload : ∀ a ∈ l, (s'.msg a).toPayload = (s.msg a).toPayload)
    (hsent : s'.sent t = s.sent t) (hreceived : s'.received t = s.received t) : Kept s' t l := by
  obtain ⟨hbuf, hcount⟩ := Prod.mk.inj hmail
  refine ⟨?_, h.count.trans hcount.symm, ?_⟩
  · rw [hbuf]
    exact h.chain.congr hnext
  · rw [hsent, hreceived, ← h.fifo]
    congr 1
    exact List.map_congr_left hpayload

/-- Calls of the scheduler keep the queues; a new task has an empty one. -/
theorem MailInv.quiet {s : State} {q : Nat → List Nat} {k' : Kernel} (h : MailInv s q)
    (hk : Quiet s.kernel k') :
    MailInv { s with kernel := k' } fun t => if t < s.kernel.count then q t else [] where
  pointers := hk.pointers h.pointers
  kept t ht := by
    split
    · rename_i hlt
      exact (h.kept t hlt).congr (hk.kept t hlt) (fun _ _ => rfl) (fun _ _ => rfl) rfl rfl
    · rename_i hge
      obtain ⟨hbuf, hcount⟩ := Prod.mk.inj (hk.fresh t ht (Nat.le_of_not_lt hge))
      obtain ⟨hsent, hreceived⟩ := h.unborn t (Nat.le_of_not_lt hge)
      refine ⟨?_, hcount.symm, ?_⟩
      · rw [hbuf]
        rfl
      · show s.received t ++ [] = s.sent t
        rw [hsent, hreceived, List.append_nil]
  allocated t _ a ha := by
    split at ha
    · rename_i hlt
      exact h.allocated t hlt a ha
    · cases ha
  apart t _ u _ hne a ha := by
    split at ha
    · split
      · rename_i hlt hlt'
        exact h.apart t hlt u hlt' hne a ha
      · exact List.not_mem_nil
    · cases ha
  small := h.small
  unborn t ht := h.unborn t (Nat.le_trans hk.count ht)

/-! ### Receiving -/

/-- A task whose queue is empty has a null `msg_buf`. -/
theorem Kept.msgBuf_eq {s : State} {t : Nat} {l : List Nat} (h : Kept s t l) :
    (s.kernel.task t).msgBuf = l.head? := by
  cases l with
  | nil => exact h.chain
  | cons m rest => exact h.chain.1

/-- A queue without its first message has no others. -/
theorem update_subset {q : Nat → List Nat} {t m : Nat} {rest : List Nat} (hq : q t = m :: rest)
    (u : Nat) : Function.update q t rest u ⊆ q u := by
  intro a ha
  rcases eq_or_ne u t with rfl | hne
  · rw [Function.update_self] at ha
    rw [hq]
    exact List.mem_cons_of_mem m ha
  · rwa [Function.update_of_ne hne] at ha

/-- Taking the first message off the queue of a task. -/
theorem MailInv.dequeue {s : State} {q : Nat → List Nat} (h : MailInv s q) {m : Nat}
    {rest : List Nat} (hq : q s.kernel.currentTask = m :: rest) :
    MailInv (({ s with allocated := s.allocated.erase m }).dequeue s.kernel.currentTask m)
      (Function.update q s.kernel.currentTask rest) where
  pointers := by
    rw [State.dequeue_kernel]
    exact ⟨(sameQueue_modify s.kernel _ rfl).linksOk h.pointers.toLinksOk, h.pointers.current⟩
  kept t ht := by
    have hkept := h.kept t ht
    rcases eq_or_ne t s.kernel.currentTask with rfl | hne
    · rw [hq] at hkept
      rw [Function.update_self]
      refine ⟨?_, ?_, ?_⟩
      · rw [State.dequeue_kernel, Kernel.modify_task_self]
        exact hkept.chain.2
      · rw [State.dequeue_kernel, Kernel.modify_task_self]
        show rest.length = (s.kernel.task _).msgCount - 1
        rw [← hkept.count, List.length_cons, Nat.add_sub_cancel]
      · show Function.update s.received _ _ _ ++ _ = s.sent _
        rw [Function.update_self, ← hkept.fifo, List.map_cons, List.append_assoc]
        rfl
    · rw [Function.update_of_ne hne]
      refine hkept.congr ?_ (fun _ _ => rfl) (fun _ _ => rfl) rfl (Function.update_of_ne hne _ _)
      rw [State.dequeue_kernel]
      exact congrArg mail (Kernel.modify_task_ne s.kernel hne _)
  allocated t ht a ha := by
    have hmem : a ∈ q t := update_subset hq t ha
    have ham : a ≠ m := by
      rintro rfl
      rcases eq_or_ne t s.kernel.currentTask with rfl | hne
      · have hnodup := (h.kept _ ht).chain.nodup
        rw [hq] at hnodup
        rw [Function.update_self] at ha
        exact (List.nodup_cons.mp hnodup).1 ha
      · refine h.apart t ht _ h.pointers.current hne a hmem ?_
        rw [hq]
        exact List.mem_cons_self
    exact (List.mem_erase_of_ne ham).mpr (h.allocated t ht a hmem)
  apart t ht u hu hne a ha hau :=
    h.apart t ht u hu hne a (update_subset hq t ha) (update_subset hq u hau)
  small a ha := h.small a (List.mem_of_mem_erase ha)
  unborn t ht := by
    have hne : t ≠ s.kernel.currentTask :=
      fun heq => Nat.not_lt.mpr ht (heq ▸ h.pointers.current)
    exact ⟨(h.unborn t ht).1, (Function.update_of_ne hne _ _).trans (h.unborn t ht).2⟩

/-- A call for a task whose queue is not empty, with the head of this queue. -/
theorem receive_some {s : State} {t m : Nat} {rest : List Nat} (h : Kept s t (m :: rest))
    (hm : m ∈ s.allocated) (buf : Msg) :
    s.receive t (some m) buf =
      some (0, s.msg m, ({ s with allocated := s.allocated.erase m }).dequeue t m) := by
  have hcount : (s.kernel.task t).msgCount ≠ 0 := by
    rw [← h.count]
    exact Nat.succ_ne_zero _
  unfold State.receive State.kfree
  rw [if_pos hcount, h.msgBuf_eq]
  simp [hm]

/-- A call for a task whose queue is empty. -/
theorem receive_none {s : State} {t : Nat} {head : Option Nat} (h : Kept s t [])
    (hpointers : PointersOk s.kernel) (buf : Msg) :
    ∃ k', s.receive t head buf = some (1, buf, { s with kernel := k' }) ∧ Quiet s.kernel k' := by
  have hquiet : Quiet s.kernel (s.kernel.modify t fun task =>
      { task with status := .listening }) := quiet_modify _ _ rfl rfl
  have hpointers' := hquiet.pointers hpointers
  obtain ⟨k', hswitch⟩ := switchTask_total hpointers'.toLinksOk hpointers'.current
  refine ⟨k', ?_, hquiet.trans (switchTask_quiet hswitch)⟩
  unfold State.receive
  rw [if_neg (not_not.mpr (show (s.kernel.task t).msgCount = 0 from h.count.symm)), hswitch]
  rfl

theorem getMsg_some {s : State} {q : Nat → List Nat} (h : MailInv s q) {m : Nat} {rest : List Nat}
    (hq : q s.kernel.currentTask = m :: rest) (blocking : Nat) (buf : Msg) :
    ∃ s', s.getMsg blocking buf = some (0, s.msg m, s') ∧
      MailInv s' (Function.update q s.kernel.currentTask rest) := by
  have hkept := h.kept _ h.pointers.current
  have hin := h.allocated _ h.pointers.current
  rw [hq] at hkept hin
  refine ⟨({ s with allocated := s.allocated.erase m }).dequeue s.kernel.currentTask m, ?_,
    MailInv.dequeue h hq⟩
  unfold State.getMsg Kernel.current
  rw [hkept.msgBuf_eq]
  exact receive_some hkept (hin m List.mem_cons_self) buf

theorem getMsg_none {s : State} {q : Nat → List Nat} (h : MailInv s q)
    (hq : q s.kernel.currentTask = []) (blocking : Nat) (buf : Msg) :
    ∃ k', s.getMsg blocking buf = some (1, buf, { s with kernel := k' }) ∧ Quiet s.kernel k' := by
  have hkept := h.kept _ h.pointers.current
  rw [hq] at hkept
  exact receive_none hkept h.pointers buf

theorem MailInv.queuesOk {s : State} {q : Nat → List Nat} (h : MailInv s q) : QueuesOk s := by
  refine ⟨fun t ht => ⟨q t, h.kept t ht⟩, fun blocking buf => ?_⟩
  have hbuf : s.kernel.current.msgBuf = (q s.kernel.currentTask).head? :=
    (h.kept _ h.pointers.current).msgBuf_eq
  rcases hq : q s.kernel.currentTask with _ | ⟨m, rest⟩
  · obtain ⟨k', hget, -⟩ := getMsg_none h hq blocking buf
    exact ⟨1, buf, _, hget, by simp [hbuf, hq]⟩
  · obtain ⟨s', hget, -⟩ := getMsg_some h hq blocking buf
    exact ⟨0, s.msg m, s', hget, by simp [hbuf, hq]⟩

/-! ### Sending -/

/-- What sending `buf` to the task `t` leaves, when the message is copied to `a` and the
queue was `l`. -/
structure Sent (s s' : State) (t a : Nat) (buf : Msg) (l : List Nat) : Prop where
  /-- The message is at the end of the list, and what follows is the link it came with. -/
  seg : Seg s'.next (s'.kernel.task t).msgBuf (l ++ [a]) buf.next
  count : (s'.kernel.task t).msgCount = (s.kernel.task t).msgCount + 1
  others : ∀ u, u ≠ t → mail (s'.kernel.task u) = mail (s.kernel.task u)
  next : ∀ b, b ≠ a → b ∉ l → s'.next b = s.next b
  payload : ∀ b, b ≠ a → (s'.msg b).toPayload = (s.msg b).toPayload
  new : (s'.msg a).toPayload = buf.toPayload
  allocated : s'.allocated = a :: s.allocated
  sent : s'.sent = Function.update s.sent t (s.sent t ++ [buf.toPayload])
  received : s'.received = s.received
  tasks : SameQueue s.kernel s'.kernel ∧ s'.kernel.currentTask = s.kernel.currentTask

/-- What linking a message to the end of a queue leaves. -/
structure Linked (s s' : State) (t a : Nat) (l : List Nat) : Prop where
  seg : Seg s'.next (s'.kernel.task t).msgBuf (l ++ [a]) (s.next a)
  count : (s'.kernel.task t).msgCount = (s.kernel.task t).msgCount
  others : ∀ u, u ≠ t → s'.kernel.task u = s.kernel.task u
  next : ∀ b, b ∉ l → s'.next b = s.next b
  payload : ∀ b, (s'.msg b).toPayload = (s.msg b).toPayload
  rest : s'.allocated = s.allocated ∧ s'.sent = s.sent ∧ s'.received = s.received
  tasks : SameQueue s.kernel s'.kernel ∧ s'.kernel.currentTask = s.kernel.currentTask

/-- In an empty queue the message becomes the head. -/
theorem linked_empty (s : State) {t : Nat} (a : Nat) :
    Linked s { s with kernel := s.kernel.modify t fun task => { task with msgBuf := some a } }
      t a [] := by
  have hsame : SameQueue s.kernel (s.kernel.modify t fun task => { task with msgBuf := some a }) :=
    sameQueue_modify s.kernel t rfl
  refine ⟨?_, ?_, fun u hu => ?_, fun _ _ => rfl, fun _ => rfl, ⟨rfl, rfl, rfl⟩, hsame, rfl⟩
  · dsimp only
    rw [Kernel.modify_task_self]
    exact ⟨rfl, rfl⟩
  · dsimp only
    rw [Kernel.modify_task_self]
  · dsimp only
    rw [Kernel.modify_task_ne s.kernel hu]

/-- In any other queue the last message gets the link. -/
theorem linked_last {s : State} {t a e : Nat} {l : List Nat}
    (hchain : IsChain s.next (s.kernel.task t).msgBuf (l ++ [e])) (ha : a ∉ l ++ [e]) :
    Linked s (s.setNext e a) t a (l ++ [e]) := by
  have hae : a ≠ e := fun hae => ha (hae ▸ List.mem_append_right l List.mem_cons_self)
  have hel : e ∉ l := fun hel =>
    (List.nodup_append.mp hchain.nodup).2.2 e hel e List.mem_cons_self rfl
  refine ⟨?_, rfl, fun _ _ => rfl, fun b hb => ?_, s.payload_setNext e a, ⟨rfl, rfl, rfl⟩,
    SameQueue.refl _, rfl⟩
  · obtain ⟨p, hl, he⟩ := seg_append.mp hchain
    show Seg (s.setNext e a).next (s.kernel.task t).msgBuf ((l ++ [e]) ++ [a]) (s.next a)
    rw [s.next_setNext e a]
    refine seg_append.mpr ⟨some a, seg_append.mpr ⟨p, hl.update hel, he.1, ?_⟩, rfl, ?_⟩
    · exact Function.update_self ..
    · exact Function.update_of_ne hae ..
  · show (s.setNext e a).next b = s.next b
    rw [s.next_setNext e a]
    refine Function.update_of_ne ?_ ..
    exact (ne_of_mem_of_not_mem (List.mem_append_right l List.mem_cons_self) hb).symm

theorem enqueue_spec {s s' : State} {t a : Nat} {l : List Nat} (h : s.enqueue t a = some s')
    (hchain : IsChain s.next (s.kernel.task t).msgBuf l) (ha : a ∉ l)
    (hsmall : ∀ b ∈ l, b < State.addressSpace) : Linked s s' t a l := by
  unfold State.enqueue at h
  rcases List.eq_nil_or_concat l with rfl | ⟨l, e, rfl⟩
  · rw [show (s.kernel.task t).msgBuf = none from hchain] at h
    obtain rfl := Option.some.inj h
    exact linked_empty s a
  · rw [List.concat_eq_append] at hchain ha hsmall ⊢
    have hlen := hchain.length_le hsmall
    rw [List.length_append, List.length_singleton] at hlen
    obtain ⟨ptr, hptr⟩ : ∃ ptr, (s.kernel.task t).msgBuf = some ptr := by
      rcases hbuf : (s.kernel.task t).msgBuf with _ | ptr
      · rw [hbuf, isChain_none] at hchain
        exact absurd hchain (List.append_ne_nil_of_right_ne_nil l (List.cons_ne_nil e []))
      · exact ⟨ptr, rfl⟩
    -- the walk along the links stops at the last message
    have hlast : advance s.next (fun b => (s.next b).isSome) State.addressSpace ptr = some e :=
      advance_last (hptr ▸ hchain) hlen
    rw [hptr] at h
    dsimp only at h
    rw [hlast] at h
    obtain rfl := Option.some.inj h
    exact linked_last hchain ha

theorem sendMsg_spec {s s' : State} {q : Nat → List Nat} {pid t a ret : Nat} {buf : Msg}
    (h : MailInv s q) (ht : s.kernel.getPidTask pid = some (some t))
    (hsend : s.sendMsg pid buf a = some (ret, s')) :
    a ∉ s.allocated ∧ a < State.addressSpace ∧ Sent s s' t a buf (q t) := by
  have hkept := h.kept t (h.pointers.getPidTask ht)
  have hin := h.allocated t (h.pointers.getPidTask ht)
  unfold State.sendMsg at hsend
  rw [ht, Option.bind_eq_bind, Option.bind_some] at hsend
  obtain ⟨s₁, hnew, hsend⟩ := Option.bind_eq_some_iff.mp hsend
  obtain ⟨s₂, henqueue, heq⟩ := Option.map_eq_some_iff.mp hsend
  obtain ⟨-, rfl⟩ := Prod.mk.inj heq
  unfold State.newMsg at hnew
  split at hnew
  · cases hnew
  rename_i hfree
  obtain ⟨hfresh, hsmall⟩ := not_or.mp hfree
  obtain rfl := Option.some.inj hnew
  have haq : a ∉ q t := fun haq => hfresh (hin a haq)
  have hmsg : ∀ b, b ≠ a → Function.update s.msg a buf b = s.msg b := fun b hb =>
    Function.update_of_ne hb _ _
  have hlinked := enqueue_spec henqueue
    (hkept.chain.congr fun b hb => congrArg Msg.next (hmsg b (ne_of_mem_of_not_mem hb haq))) haq
    fun b hb => h.small b (hin b hb)
  refine ⟨hfresh, Nat.lt_of_not_le hsmall, ?_⟩
  constructor
  · rw [State.count_kernel, Kernel.modify_task_self]
    have hseg := hlinked.seg
    rw [show State.next _ a = buf.next from congrArg Msg.next (Function.update_self ..)] at hseg
    exact hseg
  · rw [State.count_kernel, Kernel.modify_task_self]
    exact congrArg (· + 1) hlinked.count
  · intro u hu
    rw [State.count_kernel, Kernel.modify_task_ne _ hu]
    exact congrArg mail (hlinked.others u hu)
  · intro b hb hbq
    exact (hlinked.next b hbq).trans (congrArg Msg.next (hmsg b hb))
  · intro b hb
    exact (hlinked.payload b).trans (congrArg Msg.toPayload (hmsg b hb))
  · exact (hlinked.payload a).trans (congrArg Msg.toPayload (Function.update_self ..))
  · exact hlinked.rest.1
  · show Function.update s₂.sent t (s₂.sent t ++ [buf.toPayload]) = _
    rw [hlinked.rest.2.1]
  · exact hlinked.rest.2.2
  · rw [State.count_kernel]
    exact ⟨hlinked.tasks.1.trans (sameQueue_modify _ t rfl), hlinked.tasks.2⟩

/-- The queue the message was sent to, with it at the end. -/
theorem Sent.kept_self {s s' : State} {t a : Nat} {buf : Msg} {l : List Nat}
    (hsent : Sent s s' t a buf l) (h : Kept s t l) (ha : a ∉ l) (hnull : buf.next = none) :
    Kept s' t (l ++ [a]) := by
  have hseg := hsent.seg
  rw [hnull] at hseg
  refine ⟨hseg, ?_, ?_⟩
  · rw [hsent.count, ← h.count, List.length_append, List.length_singleton]
  · have hold : l.map (fun b => (s'.msg b).toPayload) = l.map (fun b => (s.msg b).toPayload) :=
      List.map_congr_left fun b hb => hsent.payload b (ne_of_mem_of_not_mem hb ha)
    rw [hsent.sent, hsent.received, Function.update_self, List.map_append, hold,
      ← List.append_assoc, h.fifo, List.map_singleton, hsent.new]

/-- Any other queue, which has no message in common with it. -/
theorem Sent.kept_other {s s' : State} {t a u : Nat} {buf : Msg} {l m : List Nat}
    (hsent : Sent s s' t a buf l) (h : Kept s u m) (hne : u ≠ t) (ha : a ∉ m)
    (hapart : ∀ b ∈ m, b ∉ l) : Kept s' u m := by
  have hba : ∀ b ∈ m, b ≠ a := fun b hb => ne_of_mem_of_not_mem hb ha
  refine h.congr (hsent.others u hne) (fun b hb => hsent.next b (hba b hb) (hapart b hb))
    (fun b hb => hsent.payload b (hba b hb)) ?_ (by rw [hsent.received])
  rw [hsent.sent, Function.update_of_ne hne]

/-- **A message with a null link keeps the queues.** -/
theorem Sent.inv {s s' : State} {q : Nat → List Nat} {t a : Nat} {buf : Msg}
    (hsent : Sent s s' t a buf (q t)) (h : MailInv s q) (ht : t < s.kernel.count)
    (hfresh : a ∉ s.allocated) (hsmall : a < State.addressSpace) (hnull : buf.next = none) :
    MailInv s' (Function.update q t (q t ++ [a])) := by
  have hcount := hsent.tasks.1.count
  have hnew : ∀ u < s.kernel.count, a ∉ q u := fun u hu hau => hfresh (h.allocated u hu a hau)
  refine ⟨⟨hsent.tasks.1.linksOk h.pointers.toLinksOk, ?_⟩, ?_, ?_, ?_, ?_, ?_⟩
  · rw [hsent.tasks.2, hcount]
    exact h.pointers.current
  · intro u hu
    rw [hcount] at hu
    rcases eq_or_ne u t with rfl | hne
    · rw [Function.update_self]
      exact hsent.kept_self (h.kept u hu) (hnew u hu) hnull
    · rw [Function.update_of_ne hne]
      exact hsent.kept_other (h.kept u hu) hne (hnew u hu) (h.apart u hu t ht hne)
  · intro u hu b hb
    rw [hsent.allocated]
    rcases mem_update_append.mp hb with hb | ⟨-, rfl⟩
    · exact List.mem_cons_of_mem a (h.allocated u (hcount ▸ hu) b hb)
    · exact List.mem_cons_self
  · rw [hcount]
    exact update_append_apart h.apart hnew
  · rw [hsent.allocated]
    exact List.forall_mem_cons.mpr ⟨hsmall, h.small⟩
  · intro u hu
    rw [hcount] at hu
    have hne : u ≠ t := fun hut => Nat.not_lt.mpr hu (hut ▸ ht)
    rw [hsent.sent, hsent.received, Function.update_of_ne hne]
    exact h.unborn u hu

/-- **A message with any other link breaks its queue.** -/
theorem Sent.exact {s s' : State} {q : Nat → List Nat} {t a : Nat} {buf : Msg}
    (hsent : Sent s s' t a buf (q t)) (h : MailInv s q) (ht : t < s.kernel.count) (hok : QueuesOk s') :
    buf.next = none := by
  obtain ⟨l, hkept⟩ := hok.1 t (by rw [hsent.tasks.1.count]; exact ht)
  refine hsent.seg.end_none hkept.chain ?_
  rw [hkept.count, hsent.count, List.length_append, (h.kept t ht).count, List.length_singleton]

/-! ### Any number of calls -/

/-- **What a call does to the queues**: it keeps them, or it sends a message to a task. -/
theorem ipcStep_cases {s s' : State} {q : Nat → List Nat} {op : IpcOp} (h : MailInv s q)
    (hstep : ipcStep s op = some s') :
    (∃ q', MailInv s' q') ∨ ∃ pid buf a t ret, op = .sendMsg pid buf a ∧
      s.kernel.getPidTask pid = some (some t) ∧ s.sendMsg pid buf a = some (ret, s') := by
  cases op with
  | task op =>
      obtain ⟨k', hk', rfl⟩ := Option.map_eq_some_iff.mp hstep
      exact Or.inl ⟨_, h.quiet (taskStep_quiet hk')⟩
  | sendMsg pid buf a =>
      obtain ⟨⟨ret, s₁⟩, hsend, rfl⟩ := Option.map_eq_some_iff.mp hstep
      obtain ⟨found, hfound, hrest⟩ := Option.bind_eq_some_iff.mp hsend
      rcases found with _ | t
      · obtain ⟨-, rfl⟩ := Prod.mk.inj (Option.some.inj hrest)
        exact Or.inl ⟨q, h⟩
      · exact Or.inr ⟨pid, buf, a, t, ret, rfl, hfound, hsend⟩
  | getMsg blocking buf =>
      obtain ⟨⟨ret, buf', s₁⟩, hget, rfl⟩ := Option.map_eq_some_iff.mp hstep
      rcases hq : q s.kernel.currentTask with _ | ⟨m, rest⟩
      · obtain ⟨k', hget', hquiet⟩ := getMsg_none h hq blocking buf
        obtain ⟨-, -, rfl⟩ : ret = 1 ∧ buf' = buf ∧ s₁ = { s with kernel := k' } := by
          simpa using hget.symm.trans hget'
        exact Or.inl ⟨_, h.quiet hquiet⟩
      · obtain ⟨s₂, hget', hinv⟩ := getMsg_some h hq blocking buf
        obtain ⟨-, -, rfl⟩ : ret = 0 ∧ buf' = s.msg m ∧ s₁ = s₂ := by
          simpa using hget.symm.trans hget'
        exact Or.inl ⟨_, hinv⟩

/-- A message that reaches a task is sent with a null link. -/
def NullLink (s : State) : IpcOp → Prop
  | .sendMsg pid buf _ => (s.kernel.getPidTask pid).join ≠ none → buf.next = none
  | _ => True

/--
**When messages are exact queues.**  Over every run of senders, receivers and scheduler
calls from boot, all queues are well kept in every state exactly when every message
that reaches a task was passed to `send_msg` with a null link.
-/
theorem queues_ok_iff (dir readEip : Nat) (garbage : Nat → Msg) (ops : List IpcOp) :
    Always ipcStep QueuesOk (State.boot dir readEip garbage) ops ↔
      EveryStep ipcStep (fun s op _ => NullLink s op) (State.boot dir readEip garbage) ops := by
  refine always_iff (fun s (h : ∃ q, MailInv s q) => ?_) ?_ ?_ ⟨_, MailInv.boot dir readEip garbage⟩
  · obtain ⟨q, hq⟩ := h
    exact hq.queuesOk
  · rintro s op s' ⟨q, hq⟩ hstep hnull
    rcases ipcStep_cases hq hstep with hinv | ⟨pid, buf, a, t, ret, rfl, ht, hsend⟩
    · exact hinv
    · obtain ⟨hfresh, hsmall, hsent⟩ := sendMsg_spec hq ht hsend
      have hlink : buf.next = none := hnull (by rw [ht]; exact Option.some_ne_none t)
      exact ⟨_, hsent.inv hq (hq.pointers.getPidTask ht) hfresh hsmall hlink⟩
  · rintro s op s' ⟨q, hq⟩ hstep hok
    cases op with
    | sendMsg pid buf a =>
        intro hfound
        obtain ⟨t, ht⟩ := Option.ne_none_iff_exists'.mp hfound
        have ht : s.kernel.getPidTask pid = some (some t) := Option.join_eq_some_iff.mp ht
        obtain ⟨⟨ret, s₁⟩, hsend, rfl⟩ := Option.map_eq_some_iff.mp hstep
        obtain ⟨-, -, hsent⟩ := sendMsg_spec hq ht hsend
        exact hsent.exact hq (hq.pointers.getPidTask ht) hok
    | task op => trivial
    | getMsg blocking buf => trivial

/-- A message with a link left over from somewhere. -/
def strayMsg : Msg := ⟨⟨1, 1, 0, #v[0, 0, 0, 0]⟩, some 0xc0300004⟩

/-- One such message is sent: the queue of its receiver, which should hold this message,
goes on to whatever lies at the link. -/
theorem queue_runs_on :
    ¬ Always ipcStep QueuesOk (State.boot 0x101000 0x100000 fun _ => strayMsg)
      [.sendMsg 1 strayMsg 0xc0200004] := by
  intro h
  have hboot := MailInv.boot 0x101000 0x100000 fun _ => strayMsg
  obtain ⟨s', hsend⟩ : ∃ s', (State.boot 0x101000 0x100000 fun _ => strayMsg).sendMsg 1 strayMsg
      0xc0200004 = some (0, s') := ⟨_, rfl⟩
  have hok : QueuesOk s' := h.2 s' (Option.map_eq_some_iff.mpr ⟨_, hsend, rfl⟩)
  obtain ⟨-, -, hsent⟩ := sendMsg_spec hboot rfl hsend
  exact Option.some_ne_none _ (hsent.exact hboot Nat.zero_lt_one hok)

end OsThing.Ipc
