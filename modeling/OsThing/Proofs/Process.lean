/-
What the allocator of a program gets from the kernel.

It asks for memory with `sbrk`, whose wrapper loads 26 into `eax`.  Entry 26 of the kernel's
table is `signal`, one behind the `sbrk` of the kernel.  So every growth installs a handler, or
nothing if the size is no number of a signal, and the break and the region of the program stay
as `create_process` made them, however much it allocates.

The first call is for 0 bytes.  That is signal 0, `SIGABRT`, and what comes back as the start of
the heap is the handler that it has got: whatever `ecx` held.  The size of the heap goes through
8 and 16, which are signals, and is a multiple of 32 from there on.
-/
import OsThing.Proofs.Breaks
import OsThing.User.Process

namespace OsThing.Process

open Breaks Runs Syscall
open Sched (maxSignals)

/-! ### The call -/

section Signal

variable (s : System) (n handler : UInt32)

/-- **The wrapper calls `signal`**: the parameter is the number, and `ecx` is the handler. -/
theorem syscallSbrk_eq (inc : UInt32) (regs : Registers) :
    syscallSbrk inc regs s = some (s.signal inc regs.ecx) := rfl

/-- That is what `syscall_handler` calls for it, wherever the linker has put it. -/
theorem syscallSbrk_dispatch (image : KernelImage) (inc : UInt32) (regs : Registers) :
    ∃ num call, userCalls.lookup .sbrk = some num ∧
      dispatch image { regs with eax := num, ebx := inc } = some call ∧
      call.location = image.address .signal ∧ call.args.take 2 = [inc, regs.ecx] :=
  ⟨26, _, rfl, rfl, rfl, rfl⟩

theorem signal_large {n : UInt32} (h : maxSignals ≤ n.toNat) : s.signal n handler = (0, s) :=
  if_pos h

theorem signal_small {n : UInt32} (h : n.toNat < maxSignals) :
    s.signal n handler = (handler, { s with
      sighandle := Function.update s.sighandle s.currentTask
        (Function.update (s.sighandle s.currentTask) n.toNat handler) }) :=
  if_neg (Nat.not_le_of_lt h)

theorem signal_toKernel : (s.signal n handler).2.toKernel = s.toKernel := by
  rcases Nat.lt_or_ge n.toNat maxSignals with h | h
  · rw [signal_small s handler h]
  · rw [signal_large s handler h]

theorem signal_other {t : Nat} (ht : t ≠ s.currentTask) :
    (s.signal n handler).2.sighandle t = s.sighandle t := by
  rcases Nat.lt_or_ge n.toNat maxSignals with h | h
  · rw [signal_small s handler h]
    exact Function.update_of_ne ht _ _
  · rw [signal_large s handler h]

/-- Of the handlers of the caller only the one with the number can change. -/
theorem signal_ne {m : Nat} (hm : m ≠ n.toNat) :
    (s.signal n handler).2.sighandle s.currentTask m = s.sighandle s.currentTask m := by
  rcases Nat.lt_or_ge n.toNat maxSignals with h | h
  · rw [signal_small s handler h]
    show Function.update s.sighandle _ _ s.currentTask m = _
    rw [Function.update_self, Function.update_of_ne hm]
  · rw [signal_large s handler h]

/-- The call for 0 bytes returns the handler that it installs. -/
theorem signal_zero : (s.signal 0 handler).1 = handler ∧
    (s.signal 0 handler).2.sighandle s.currentTask 0 = handler := by
  rw [signal_small s handler (n := 0) (by decide)]
  refine ⟨rfl, ?_⟩
  show Function.update s.sighandle _ _ s.currentTask 0 = _
  rw [Function.update_self]
  exact Function.update_self ..

/-- This is the `signal` of `Task/Kernel`, on the handlers. -/
theorem signal_setSignal {k : Sched.Kernel} (hcurrent : k.currentTask = s.currentTask)
    (h : ∀ t m, (k.task t).sighandle m = (s.sighandle t m).toNat) :
    (k.setSignal n.toNat handler.toNat).1 = (s.signal n handler).1.toNat ∧
      ∀ t m, ((k.setSignal n.toNat handler.toNat).2.task t).sighandle m =
        ((s.signal n handler).2.sighandle t m).toNat := by
  unfold Sched.Kernel.setSignal
  rcases Nat.lt_or_ge n.toNat maxSignals with hsmall | hlarge
  · rw [signal_small s handler hsmall, if_neg (Nat.not_le_of_lt hsmall)]
    refine ⟨rfl, fun t m => ?_⟩
    dsimp only
    rcases eq_or_ne t s.currentTask with rfl | hother
    · rw [hcurrent, Sched.Kernel.modify_task_self, Function.update_self]
      dsimp only
      rcases eq_or_ne m n.toNat with rfl | hne
      · rw [Function.update_self, Function.update_self]
      · rw [Function.update_of_ne hne, Function.update_of_ne hne]
        exact h _ m
    · rw [hcurrent, Sched.Kernel.modify_task_ne _ hother, Function.update_of_ne hother]
      exact h t m
  · rw [signal_large s handler hlarge, if_pos hlarge]
    exact ⟨rfl, h⟩

end Signal

/-! ### The sizes of a heap -/

/-- The sizes that `h_size` goes through.  After 2 ^ 31 it starts again at 0. -/
def HeapSize (size : UInt32) : Prop := size.toNat = 8 ∨ size.toNat = 16 ∨ 32 ∣ size.toNat

theorem HeapSize.double {size : UInt32} (h : HeapSize size) : HeapSize (size * 2) := by
  have hmul : (size * 2).toNat = size.toNat * 2 % 2 ^ 32 := UInt32.toNat_mul ..
  unfold HeapSize at h ⊢
  rw [hmul]
  omega

/-- Which of them are numbers of signals. -/
theorem HeapSize.signals {size : UInt32} (h : HeapSize size) (hne : size ≠ 0)
    (hsmall : size.toNat < maxSignals) : size.toNat = 8 ∨ size.toNat = 16 := by
  have hpos : size.toNat ≠ 0 := fun h0 => hne (UInt32.toNat_inj.mp h0)
  have hsmall : size.toNat < 32 := hsmall
  unfold HeapSize at h
  omega

/-! ### The calls of the allocator -/

/-- What the allocator leaves in the handlers of its task: the start of the heap as the one of
`SIGABRT`, and others only for the two sizes that are signals, `SIGINT` and `SIGTTIN`. -/
structure Installed (handlers : Nat → UInt32) (hPos : UInt32) : Prop where
  abort : handlers 0 = hPos
  others : ∀ n ≠ 0, handlers n ≠ 0 → n = 8 ∨ n = 16

/-- What may be in `ecx`, or no heap yet. -/
def Held (ecx : UInt32 → Prop) (hPos : UInt32) : Prop := hPos = 0 ∨ ecx hPos

/-- The calls that started in `s` have left all of it but the handlers of their task. -/
structure Called (ecx : UInt32 → Prop) (s : System) (c : Caller) : Prop where
  kernel : c.system.toKernel = s.toKernel
  other : ∀ t ≠ s.currentTask, c.system.sighandle t = s.sighandle t
  handlers : Installed (c.system.sighandle s.currentTask) c.hPos
  held : Held ecx c.hPos
  size : HeapSize c.hSize

section Calls

variable {ecx : UInt32 → Prop} {regs : Nat → Registers} {s : System} {c c' : Caller}

/-- A call of `sbrk` always comes back, with what `signal` returns. -/
theorem sbrk_eq (c : Caller) (regs : Nat → Registers) (inc : UInt32) :
    c.sbrk regs inc = some ((c.system.signal inc (regs c.calls).ecx).1,
      { c with
        system := (c.system.signal inc (regs c.calls).ecx).2
        calls := c.calls + 1 }) := by
  rw [Caller.sbrk, syscallSbrk_eq, Option.map_some]

theorem Called.currentTask (h : Called ecx s c) : c.system.currentTask = s.currentTask :=
  congrArg Breaks.Kernel.currentTask h.kernel

/-- A call with a size of the heap. -/
theorem Called.signal (h : Called ecx s c) {n handler : UInt32} (hn : HeapSize n) (hne : n ≠ 0)
    {size : UInt32} (hsize : HeapSize size) (calls : Nat) :
    Called ecx s ⟨(c.system.signal n handler).2, c.hPos, size, calls⟩ where
  kernel := (signal_toKernel c.system n handler).trans h.kernel
  other t ht := (signal_other c.system n handler (h.currentTask ▸ ht)).trans (h.other t ht)
  handlers := by
    have hcurrent := h.currentTask
    rw [← hcurrent]
    refine ⟨?_, fun m hm hset => ?_⟩
    · have hzero : 0 ≠ n.toNat := fun h0 => hne (UInt32.toNat_inj.mp h0.symm)
      show (c.system.signal n handler).2.sighandle c.system.currentTask 0 = c.hPos
      rw [signal_ne c.system n handler hzero, hcurrent]
      exact h.handlers.abort
    · rcases Nat.lt_or_ge n.toNat maxSignals with hsmall | hlarge
      · rcases eq_or_ne m n.toNat with rfl | hother
        · exact hn.signals hne hsmall
        · rw [signal_ne c.system n handler hother, hcurrent] at hset
          exact h.handlers.others m hm hset
      · rw [signal_large c.system handler hlarge, hcurrent] at hset
        exact h.handlers.others m hm hset
  held := h.held
  size := hsize

/-- The call that asks where the heap starts. -/
theorem Called.place (h : Called ecx s c) (hregs : ∀ n, ecx (regs n).ecx)
    (hplace : c.place regs = some c') : Called ecx s c' := by
  unfold Caller.place at hplace
  split at hplace
  case isTrue =>
    rw [sbrk_eq] at hplace
    obtain rfl := Option.some.inj hplace
    have hcurrent := h.currentTask
    obtain ⟨hret, habort⟩ := signal_zero c.system (regs c.calls).ecx
    refine ⟨(signal_toKernel ..).trans h.kernel,
      fun t ht => (signal_other c.system 0 _ (hcurrent ▸ ht)).trans (h.other t ht),
      ⟨?_, fun m hm hset => ?_⟩, Or.inr ?_, h.size⟩
    · show (c.system.signal 0 _).2.sighandle s.currentTask 0 = (c.system.signal 0 _).1
      rw [← hcurrent]
      exact habort.trans hret.symm
    · refine h.handlers.others m hm ?_
      rw [← hcurrent, ← signal_ne c.system 0 (regs c.calls).ecx hm, hcurrent]
      exact hset
    · show ecx (c.system.signal 0 _).1
      rw [hret]
      exact hregs c.calls
  case isFalse =>
    obtain rfl := Option.some.inj hplace
    exact h

theorem Called.grow (h : Called ecx s c) (hgrow : c.grow regs = some c') : Called ecx s c' := by
  unfold Caller.grow at hgrow
  split at hgrow
  case isTrue hne =>
    rw [sbrk_eq] at hgrow
    obtain rfl := Option.some.inj hgrow
    exact h.signal h.size hne h.size.double _
  case isFalse =>
    rw [sbrk_eq] at hgrow
    obtain rfl := Option.some.inj hgrow
    exact h.signal (n := 8) (Or.inl rfl) (by decide) (Or.inl rfl) _

theorem Called.resize (h : Called ecx s c) (hregs : ∀ n, ecx (regs n).ecx)
    (hresize : c.resize regs = some c') : Called ecx s c' := by
  obtain ⟨c₁, hplace, hgrow⟩ := Option.bind_eq_some_iff.mp hresize
  exact (h.place hregs hplace).grow hgrow

theorem Called.growFor (hregs : ∀ n, ecx (regs n).ecx) {need : UInt32} :
    ∀ {fuel : Nat} {c : Caller}, Called ecx s c → c.growFor regs need fuel = some c' →
      Called ecx s c' := by
  intro fuel
  induction fuel with
  | zero => intro c _ hloop; cases hloop
  | succ fuel ih =>
      intro c h hloop
      unfold Caller.growFor at hloop
      split at hloop
      · obtain ⟨c₁, hresize, hrest⟩ := Option.bind_eq_some_iff.mp hloop
        exact ih (h.resize hregs hresize) hrest
      · obtain rfl := Option.some.inj hloop
        exact h

theorem Called.findLoop (hregs : ∀ n, ecx (regs n).ecx) {find : Nat → UInt32} {ret : UInt32} :
    ∀ {fuel : Nat} {c : Caller}, Called ecx s c → c.findLoop regs find fuel = some (ret, c') →
      Called ecx s c' := by
  intro fuel
  induction fuel with
  | zero => intro c _ hloop; cases hloop
  | succ fuel ih =>
      intro c h hloop
      unfold Caller.findLoop at hloop
      split at hloop
      · obtain ⟨c₁, hresize, hrest⟩ := Option.bind_eq_some_iff.mp hloop
        exact ih (h.resize hregs hresize) hrest
      · obtain ⟨-, rfl⟩ := Prod.mk.inj (Option.some.inj hloop)
        exact h

/-- One `malloc`, whatever `find_free` returns and however often the loops go round. -/
theorem Called.malloc (h : Called ecx s c) (hregs : ∀ n, ecx (regs n).ecx) {find : Nat → UInt32}
    {fuel : Nat} {size : Int32} {ret : UInt32}
    (hmalloc : c.malloc regs find fuel size = some (ret, c')) : Called ecx s c' := by
  obtain ⟨c₁, hgrow, hfind⟩ := Option.bind_eq_some_iff.mp hmalloc
  exact (h.growFor hregs hgrow).findLoop hregs hfind

end Calls

/-! ### A run -/

/-- A value that `ecx` has at a call of the allocator. -/
def ProcessOp.InEcx (v : UInt32) : ProcessOp → Prop
  | .malloc _ _ regs _ => ∃ n, (regs n).ecx = v
  | _ => False

/-- The task `t` has the region that its program was loaded into, and no more. -/
structure Unserved (ecx : UInt32 → Prop) (s : State) (t : Nat) : Prop where
  region : ∃ m, (s.system.task t).maps = some m ∧ s.system.map m = (s.program t).loaded
  brk : (s.system.task t).brk = (s.program t).loaded.stop
  handlers : Installed (s.system.sighandle t) (s.program t).hPos
  held : Held ecx (s.program t).hPos

/-- The invariant: that of the breaks, and what the allocator of each process has got. -/
structure ProcessInv (ecx : UInt32 → Prop) (s : State) : Prop where
  kept : Kept s.system.toKernel
  unserved : ∀ t < s.system.tasks, (s.system.task t).origin = .process → Unserved ecx s t
  size : ∀ t < s.system.tasks, (s.system.task t).origin = .process → HeapSize (s.program t).hSize

section Run

variable {ecx : UInt32 → Prop} {s s' : State}

/-- A step that leaves the task, its program, its handlers and its region alone. -/
theorem Unserved.frame {t : Nat} (h : Unserved ecx s t)
    (htask : s'.system.task t = s.system.task t) (hprogram : s'.program t = s.program t)
    (hhandle : s'.system.sighandle t = s.system.sighandle t)
    (hmap : ∀ m, (s.system.task t).maps = some m → s'.system.map m = s.system.map m) :
    Unserved ecx s' t := by
  obtain ⟨⟨m, hm, hloaded⟩, hbrk, hhandlers, hheld⟩ := h
  refine ⟨⟨m, htask ▸ hm, ?_⟩, ?_, ?_, ?_⟩
  · rw [hmap m hm, hprogram, hloaded]
  · rw [htask, hprogram, hbrk]
  · rw [hhandle, hprogram]
    exact hhandlers
  · rw [hprogram]
    exact hheld

theorem ProcessInv.createProcess (h : ProcessInv ecx s) {startAddr endAddr : UInt32}
    (hstep : processStep s (.createProcess startAddr endAddr) = some s') : ProcessInv ecx s' := by
  obtain rfl := Option.some.inj hstep
  have hold : ∀ {t}, t < s.system.tasks →
      (s.system.createProcess startAddr endAddr).task t = s.system.task t :=
    fun ht => addTask_old s.system.toKernel _ ht
  have horigin : ∀ {t}, t < s.system.tasks →
      ((s.system.createProcess startAddr endAddr).task t).origin = .process →
        (s.system.task t).origin = .process :=
    fun ht ho => (congrArg Task.origin (hold ht)).symm.trans ho
  have hprogram : ∀ {t}, t < s.system.tasks →
      Function.update s.program s.system.tasks ⟨0, 0, startAddr, endAddr⟩ t = s.program t :=
    fun ht => Function.update_of_ne (Nat.ne_of_lt ht) _ _
  refine ⟨h.kept.createProcess startAddr endAddr, fun t ht ho => ?_, fun t ht ho => ?_⟩ <;>
    rcases Nat.lt_succ_iff_lt_or_eq.mp ht with hlt | rfl
  · exact (h.unserved t hlt (horigin hlt ho)).frame (hold hlt) (hprogram hlt)
      (Function.update_of_ne (Nat.ne_of_lt hlt) _ _)
      fun m hm => Function.update_of_ne (Nat.ne_of_lt (h.kept.below t hlt m hm)) _ _
  · have hnew : (s.system.createProcess startAddr endAddr).task s.system.tasks =
        ⟨some s.system.maps, endAddr, .process⟩ := addTask_new ..
    have hloaded : Function.update s.program s.system.tasks ⟨0, 0, startAddr, endAddr⟩
        s.system.tasks = ⟨0, 0, startAddr, endAddr⟩ := Function.update_self ..
    have hnone : Function.update s.system.sighandle s.system.tasks (fun _ => 0) s.system.tasks =
        fun _ => 0 := Function.update_self ..
    refine ⟨⟨s.system.maps, congrArg Task.maps hnew, ?_⟩, ?_, ?_, Or.inl ?_⟩
    · exact (Function.update_self ..).trans (congrArg Program.loaded hloaded).symm
    · exact (congrArg Task.brk hnew).trans
        (congrArg (fun p => p.loaded.stop) hloaded).symm
    · refine ⟨(congrFun hnone 0).trans (congrArg Program.hPos hloaded).symm, fun n _ hset => ?_⟩
      exact absurd (congrFun hnone n) hset
    · exact congrArg Program.hPos hloaded
  · show HeapSize (Function.update s.program s.system.tasks _ t).hSize
    rw [hprogram hlt]
    exact h.size t hlt (horigin hlt ho)
  · show HeapSize (Function.update s.program s.system.tasks _ s.system.tasks).hSize
    rw [Function.update_self]
    exact Or.inr (Or.inr (Nat.dvd_zero 32))

theorem ProcessInv.createThread (h : ProcessInv ecx s)
    (hstep : processStep s .createThread = some s') : ProcessInv ecx s' := by
  obtain rfl := Option.some.inj hstep
  -- the new task is no process, so that only the old ones count
  have hold : ∀ t < s.system.tasks + 1, (s.system.createThread.task t).origin = .process →
      t < s.system.tasks ∧ s.system.createThread.task t = s.system.task t := fun t ht ho => by
    rcases Nat.lt_succ_iff_lt_or_eq.mp ht with hlt | rfl
    · exact ⟨hlt, addTask_old s.system.toKernel _ hlt⟩
    · have hnew : s.system.createThread.task s.system.tasks = ⟨s.system.current.maps, 0, .thread⟩ :=
        addTask_new ..
      rw [hnew] at ho
      cases ho
  refine ⟨h.kept.createThread, fun t ht ho => ?_, fun t ht ho => ?_⟩ <;>
    obtain ⟨hlt, htask⟩ := hold t ht ho
  · exact (h.unserved t hlt ((congrArg Task.origin htask).symm.trans ho)).frame htask rfl
      (Function.update_of_ne (Nat.ne_of_lt hlt) _ _) fun _ _ => rfl
  · exact h.size t hlt ((congrArg Task.origin htask).symm.trans ho)

theorem ProcessInv.switchTask (h : ProcessInv ecx s) {task : Nat}
    (hstep : processStep s (.switchTask task) = some s') : ProcessInv ecx s' := by
  obtain ⟨k, hk, rfl⟩ := Option.map_eq_some_iff.mp hstep
  have hkept : Kept k := h.kept.step hk trivial trivial
  obtain ⟨-, hk⟩ := Option.ite_none_right_eq_some.mp hk
  obtain rfl := Option.some.inj hk
  exact ⟨hkept, fun t ht ho => (h.unserved t ht ho).frame rfl rfl rfl fun _ _ => rfl, h.size⟩

/-- What a `malloc` of the current task leaves. -/
theorem malloc_called (h : ProcessInv ecx s) {fuel : Nat} {find : Nat → UInt32}
    {regs : Nat → Registers} {size : Int32} (hregs : ∀ n, ecx (regs n).ecx)
    (hstep : processStep s (.malloc fuel find regs size) = some s') :
    s.system.current.origin = .process ∧ ∃ c, Called ecx s.system c ∧
      s' = { system := c.system
             program := Function.update s.program s.system.currentTask
               ((s.program s.system.currentTask).after c) } := by
  obtain ⟨horigin, hstep⟩ := Option.ite_none_right_eq_some.mp hstep
  obtain ⟨⟨ret, c⟩, hmalloc, rfl⟩ := Option.map_eq_some_iff.mp hstep
  have hcurrent := h.unserved _ h.kept.current horigin
  have hstart : Called ecx s.system ⟨s.system, (s.program s.system.currentTask).hPos,
      (s.program s.system.currentTask).hSize, 0⟩ :=
    ⟨rfl, fun _ _ => rfl, hcurrent.handlers, hcurrent.held, h.size _ h.kept.current horigin⟩
  exact ⟨horigin, c, hstart.malloc hregs hmalloc, rfl⟩

theorem ProcessInv.malloc (h : ProcessInv ecx s) {fuel : Nat} {find : Nat → UInt32}
    {regs : Nat → Registers} {size : Int32} (hregs : ∀ n, ecx (regs n).ecx)
    (hstep : processStep s (.malloc fuel find regs size) = some s') : ProcessInv ecx s' := by
  obtain ⟨-, c, hc, rfl⟩ := malloc_called h hregs hstep
  refine ⟨hc.kernel ▸ h.kept, fun t ht ho => ?_, fun t ht ho => ?_⟩
  all_goals
    rw [hc.kernel] at ht ho
    rcases eq_or_ne t s.system.currentTask with rfl | hne
  · obtain ⟨⟨m, hm, hloaded⟩, hbrk, -, -⟩ := h.unserved _ ht ho
    have hprogram : Function.update s.program s.system.currentTask
        ((s.program s.system.currentTask).after c) s.system.currentTask =
          (s.program s.system.currentTask).after c := Function.update_self ..
    refine ⟨⟨m, ?_, ?_⟩, ?_, ?_, ?_⟩ <;> dsimp only
    · rw [hc.kernel]
      exact hm
    · rw [hc.kernel, hprogram]
      exact hloaded
    · rw [hc.kernel, hprogram]
      exact hbrk
    · rw [hprogram]
      exact hc.handlers
    · rw [hprogram]
      exact hc.held
  · refine (h.unserved t ht ho).frame ?_ (Function.update_of_ne hne _ _) (hc.other t hne) ?_
    · exact congrArg (fun k => Breaks.Kernel.task k t) hc.kernel
    · exact fun m _ => congrArg (fun k => Breaks.Kernel.map k m) hc.kernel
  · dsimp only
    rw [Function.update_self]
    exact hc.size
  · dsimp only
    rw [Function.update_of_ne hne]
    exact h.size t ht ho

theorem ProcessInv.step {op : ProcessOp} (h : ProcessInv ecx s) (hop : ∀ v, op.InEcx v → ecx v)
    (hstep : processStep s op = some s') : ProcessInv ecx s' := by
  cases op with
  | createProcess startAddr endAddr => exact h.createProcess hstep
  | createThread => exact h.createThread hstep
  | switchTask task => exact h.switchTask hstep
  | malloc fuel find regs size => exact h.malloc (fun n => hop _ ⟨n, rfl⟩) hstep

end Run

end OsThing.Process
