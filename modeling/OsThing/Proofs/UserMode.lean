/-
Entering ring 3, and what the next interrupt there does to the kernel.

`leaveTo_spec` is about the frame: the code goes on at the address that was pushed, in ring 3,
with interrupts on and the stack as it was.  For `jmp_to_signal` the stack is the one of the
task with seven words on top, and they are constants: a handler finds 4 as its argument and 5
as the address to return to, whichever signal it is for.

The kernel stack is set in `switch_to_usermode` and nowhere else.  So two tasks that are in ring
3 come back on the same stack, and the frame of the second lies where the one of the first was.
-/
import OsThing.Proofs.SystemCalls
import OsThing.Task.UserMode

namespace OsThing.UserMode

open Ia32 InitTables Interrupts Ram Stack

/-- In ring 3, at the address, with the stack as it was. -/
structure Left (addr : UInt32) (c d : Cpu) : Prop where
  eip : d.eip = addr
  eflags : d.eflags = c.eflags ||| IF
  cs : d.seg .cs = 0x1b
  ss : d.seg .ss = 0x23
  data : ∀ s, s ≠ .cs → s ≠ .ss → d.seg s = c.seg s
  reg : ∀ x, x ≠ .eax → d.reg x = c.reg x
  mem : ∀ a, ¬ (⟨below (c.reg .esp) 5, 20⟩ : Span).Covers a → d.mem a = c.mem a

variable {c : Cpu} {ws : List UInt32}

/-- The state before the `iret`: five words are pushed. -/
theorem leaveTo_pushed (addr : UInt32) (h : c.Stacked ws) (hlen : ws.length + 5 ≤ 2 ^ 30) :
    ∃ d : Cpu, leaveTo addr c = d.iret ∧ d.reg .esp = below (c.reg .esp) 5 ∧
      d.Stacked (addr :: 0x1b :: (c.eflags ||| IF) :: c.reg .esp :: 0x23 :: ws) ∧
      (∀ x, x ≠ .eax → x ≠ .esp → d.reg x = c.reg x) ∧ d.seg = c.seg ∧
      (∀ a, ¬ (⟨below (c.reg .esp) 5, 20⟩ : Span).Covers a → d.mem a = c.mem a) := by
  obtain ⟨c₁, hc₁⟩ : ∃ c₁, c₁ = c.setReg .eax (c.reg .esp) := ⟨_, rfl⟩
  have heax₁ : c₁.reg .eax = c.reg .esp := by rw [hc₁, setReg_reg_self]
  have hesp₁ : c₁.reg .esp = c.reg .esp := by rw [hc₁, setReg_reg_ne _ _ _ _ (by decide)]
  have hs₁ : c₁.Stacked ws := h.of_eq hesp₁ (by rw [hc₁, setReg_mem])
  obtain ⟨c₂, hc₂⟩ : ∃ c₂, c₂ = (c₁.push 0x23).push (c₁.reg .eax) := ⟨_, rfl⟩
  have hpushed₂ : Pushed c₁ c₂ 2 := hc₂ ▸ (pushed_push c₁ 0x23).trans (pushed_push _ _)
  have hs₂ : c₂.Stacked (c.reg .esp :: 0x23 :: ws) := by
    rw [hc₂, ← heax₁]
    exact (hs₁.push (by omega) _).push (by rw [List.length_cons]; omega) _
  have hflags₂ : c₂.eflags = c.eflags := by rw [hpushed₂.eflags, hc₁, setReg_eflags]
  have hs₃ := (hs₂.push (by simp only [List.length_cons]; omega) c₂.eflags).pop (r := .eax)
    (by decide)
  have heax₃ : ((c₂.push c₂.eflags).pop .eax).reg .eax = c.eflags := by
    rw [pop_reg_self, ← hflags₂]
    exact word_setWord ..
  obtain ⟨c₄, hc₄⟩ : ∃ c₄, c₄ = ((c₂.push c₂.eflags).pop .eax).setReg .eax (c.eflags ||| IF) :=
    ⟨_, rfl⟩
  have hesp₄ : c₄.reg .esp = c₂.reg .esp := by
    rw [hc₄, setReg_reg_ne _ _ _ _ (by decide), pop_esp _ _ (by decide), push_esp]
    grind
  have hmem₄ : c₄.mem = setWord c₂.mem (c₂.reg .esp - 4) c₂.eflags := by
    rw [hc₄, setReg_mem, pop_mem]
    rfl
  have hs₄ : c₄.Stacked (c.reg .esp :: 0x23 :: ws) :=
    hs₃.of_eq (by rw [hc₄, setReg_reg_ne _ _ _ _ (by decide)]) (by rw [hc₄, setReg_mem])
  have hpushed₅ : Pushed c₄ (((c₄.push (c.eflags ||| IF)).push 0x1b).push addr) 3 :=
    ((pushed_push c₄ _).trans (pushed_push _ _)).trans (pushed_push _ _)
  refine ⟨((c₄.push (c.eflags ||| IF)).push 0x1b).push addr, ?_, ?_, ?_, ?_, ?_, ?_⟩
  · unfold leaveTo
    dsimp only
    rw [← hc₁, ← hc₂, heax₃, hc₄, setReg_reg_self]
    rfl
  · rw [hpushed₅.esp, hesp₄, hpushed₂.esp, hesp₁, below_add]
  · exact ((hs₄.push (by simp only [List.length_cons]; omega) _).push
      (by simp only [List.length_cons]; omega) _).push (by simp only [List.length_cons]; omega) _
  · intro x hx hsp
    rw [hpushed₅.reg x hsp, hc₄, setReg_reg_ne _ _ _ _ hx, pop_reg_ne _ _ _ hx hsp,
      push_reg _ _ _ hsp, hpushed₂.reg x hsp, hc₁, setReg_reg_ne _ _ _ _ hx]
  · rw [hpushed₅.seg, hc₄, setReg_seg, pop_seg, push_seg, hpushed₂.seg, hc₁, setReg_seg]
  · intro a ha
    have hdepth : c₂.reg .esp = below (c.reg .esp) 2 := by rw [hpushed₂.esp, hesp₁]
    have hlast : (((c₄.push (c.eflags ||| IF)).push 0x1b).push addr).mem a = c₄.mem a := by
      refine hpushed₅.mem a fun hcov => ha ?_
      rw [hesp₄, hdepth, below_add] at hcov
      exact below_inside (k := 5) (m := 2) (n := 3) (by decide) _ a hcov
    have hflag : c₄.mem a = c₂.mem a := by
      rw [hmem₄]
      refine setWord_outside _ _ fun hcov => ha ?_
      rw [hdepth] at hcov
      have hword : below (c.reg .esp) 2 - 4 = below (c.reg .esp) (2 + 1) := by
        rw [← below_add]
        rfl
      rw [hword] at hcov
      exact below_inside (k := 5) (m := 2) (n := 1) (by decide) _ a hcov
    have hfirst : c₂.mem a = c₁.mem a := by
      refine hpushed₂.mem a fun hcov => ha ?_
      rw [hesp₁] at hcov
      exact below_inside (k := 5) (m := 0) (n := 2) (by decide) _ a hcov
    rw [hlast, hflag, hfirst, hc₁, setReg_mem]

/-- **The frame takes the processor to ring 3.** -/
theorem leaveTo_spec (addr : UInt32) (h : c.Stacked ws) (hlen : ws.length + 5 ≤ 2 ^ 30)
    (hring : c.cpl = 0) : Left addr c (leaveTo addr c) ∧ (leaveTo addr c).Stacked ws := by
  obtain ⟨d, hleave, hesp, hstacked, hreg, hseg, hmem⟩ := leaveTo_pushed addr h hlen
  have hcpl : d.cpl = 0 := by rw [← hring, Cpu.cpl, Cpu.cpl, hseg]
  rw [hleave, iret_outer hstacked (by rw [hcpl]; decide)]
  refine ⟨⟨rfl, rfl, ?_, setSeg_seg_self .., ?_, ?_, hmem⟩, ?_⟩
  · exact (setSeg_seg_ne _ .ss .cs _ (by decide)).trans (setSeg_seg_self ..)
  · intro s hcs hss
    refine (setSeg_seg_ne _ .ss s _ hss).trans ((setSeg_seg_ne _ .cs s _ hcs).trans ?_)
    exact congrFun hseg s
  · intro x hx
    by_cases hsp : x = .esp
    · rw [hsp]
      exact setReg_reg_self d .esp _
    · exact (setReg_reg_ne d .esp x _ hsp).trans (hreg x hx hsp)
  · show Holds d.mem ((((d.setReg .esp (c.reg .esp)).setSeg .cs 0x1b).setSeg .ss 0x23).reg .esp) ws
    have hback : d.reg .esp + UInt32.ofNat (4 * 5) = c.reg .esp := by
      rw [hesp]
      unfold below
      grind
    rw [setSeg_reg, setSeg_reg, setReg_reg_self, ← hback]
    exact @Holds.drop _ _ [addr, 0x1b, c.eflags ||| IF, c.reg .esp, 0x23] _ hstacked

theorem userSegments_spec (c : Cpu) : (userSegments c).mem = c.mem ∧
    (userSegments c).eflags = c.eflags ∧ (userSegments c).cpl = c.cpl ∧
    (∀ x, x ≠ .eax → (userSegments c).reg x = c.reg x) ∧
    ∀ s, s ≠ .cs → s ≠ .ss → (userSegments c).seg s = 0x23 := by
  have hlow : (c.setLow .eax 0x23).low .eax = 0x23 := by
    unfold Cpu.low
    rw [setLow_low]
    exact Syscall.ds_low ..
  unfold userSegments
  dsimp only
  rw [hlow]
  refine ⟨rfl, rfl, ?_, fun x hx => setReg_reg_ne _ _ _ _ hx, fun s hcs hss => ?_⟩
  · exact congrArg (· &&& 3) (loadSegments_cs ..)
  · exact loadSegments_data _ _ hcs hss

/-- The same from the state before the segments are loaded: ring 3, and every segment is the
one of the user data. -/
structure Entered (addr : UInt32) (c d : Cpu) : Prop where
  eip : d.eip = addr
  eflags : d.eflags = (c.eflags &&& ~~~IF) ||| IF
  cs : d.seg .cs = 0x1b
  data : ∀ s, s ≠ .cs → d.seg s = 0x23
  reg : ∀ x, x ≠ .eax → x ≠ .esp → d.reg x = c.reg x

/-! ### Signals -/

/-- The stack of a task, with the words of `jmp_to_signal` on top. -/
theorem signal_words (esp : UInt32) (c : Cpu) (h : Holds c.mem esp ws)
    (hlen : ws.length + 7 ≤ 2 ^ 30) :
    let d := [1, c.reg .eax, 1, 2, 3, 4, 5].foldl Cpu.push (c.cli.setReg .esp esp)
    d.Stacked (5 :: 4 :: 3 :: 2 :: 1 :: c.reg .eax :: 1 :: ws) ∧
      Pushed (c.cli.setReg .esp esp) d 7 := by
  have hs : (c.cli.setReg .esp esp).Stacked ws := by
    unfold Cpu.Stacked
    rw [setReg_reg_self]
    exact h
  exact ⟨hs.foldl [1, c.reg .eax, 1, 2, 3, 4, 5] (by simp only [List.length_cons, List.length_nil]; omega),
    pushed_foldl [1, c.reg .eax, 1, 2, 3, 4, 5] _⟩

/-- **How a signal handler is entered**, for every signal and every handler: in ring 3, with
interrupts on, and on the stack of the task.  Its return address is 5 and its argument is 4. -/
theorem signal_entry (esp signal handle : UInt32) (c : Cpu) (ws : List UInt32)
    (h : Holds c.mem esp ws) (hlen : ws.length + 12 ≤ 2 ^ 30) (hring : c.cpl = 0) :
    Entered handle c (jmpToSignal esp signal handle c) ∧
      (jmpToSignal esp signal handle c).Stacked (5 :: 4 :: 3 :: 2 :: 1 :: c.reg .eax :: 1 :: ws) ∧
      (jmpToSignal esp signal handle c).reg .esp = below esp 7 ∧
      ∀ a, ¬ (⟨below esp 12, 48⟩ : Span).Covers a →
        (jmpToSignal esp signal handle c).mem a = c.mem a := by
  obtain ⟨d, hd⟩ : ∃ d, d = [1, c.reg .eax, 1, 2, 3, 4, 5].foldl Cpu.push (c.cli.setReg .esp esp) :=
    ⟨_, rfl⟩
  obtain ⟨hstacked, hpushed⟩ := signal_words esp c h (by omega)
  rw [← hd] at hstacked hpushed
  have hjump : jmpToSignal esp signal handle c = leaveTo handle (userSegments d) := by
    rw [hd]
    rfl
  obtain ⟨hmem, hflags, hcpl, hreg, hseg⟩ := userSegments_spec d
  have hesp : (userSegments d).reg .esp = below esp 7 := by
    rw [hreg _ (by decide), hpushed.esp, setReg_reg_self]
  have hring' : (userSegments d).cpl = 0 := by
    rw [hcpl, ← hring]
    exact congrArg (fun s => s .cs &&& 3) hpushed.seg
  obtain ⟨hleft, hwords⟩ := leaveTo_spec handle (hstacked.of_eq (hreg _ (by decide)) hmem)
    (by simp only [List.length_cons]; omega) hring'
  rw [hjump]
  refine ⟨⟨hleft.eip, ?_, hleft.cs, ?_, ?_⟩, hwords, (hleft.reg _ (by decide)).trans hesp, ?_⟩
  · rw [hleft.eflags, hflags, hpushed.eflags]
    rfl
  · intro s hs
    by_cases hss : s = .ss
    · rw [hss, hleft.ss]
    · rw [hleft.data s hs hss, hseg s hs hss]
  · intro x hx hsp
    rw [hleft.reg x hx, hreg x hx, hpushed.reg x hsp, setReg_reg_ne _ _ _ _ hsp]
    rfl
  · intro a ha
    have hframe : (leaveTo handle (userSegments d)).mem a = d.mem a := by
      rw [← hmem]
      refine hleft.mem a fun hcov => ha ?_
      rw [hesp, below_add] at hcov
      exact below_inside (k := 12) (m := 7) (n := 5) (by decide) _ a hcov
    rw [hframe]
    refine (hpushed.mem a fun hcov => ha ?_).trans rfl
    rw [setReg_reg_self] at hcov
    exact below_inside (k := 12) (m := 0) (n := 7) (by decide) _ a hcov

/-- The kernel in the examples. -/
def exampleKernel : Cpu where
  reg := fun r => if r = .esp then 0x9000 else 7
  seg := fun s => if s = .cs then 0x08 else 0x10
  eip := 0x101000
  eflags := 0x202
  mem := fun _ => 0

theorem signal_entry_one : Entered 0x8048100 exampleKernel
    (jmpToSignal 0xbfff0000 11 0x8048100 exampleKernel) ∧
      (jmpToSignal 0xbfff0000 11 0x8048100 exampleKernel).Stacked [5, 4, 3, 2, 1, 7, 1] :=
  have h := signal_entry 0xbfff0000 11 0x8048100 exampleKernel [] holds_nil (by decide) (by decide)
  ⟨h.1, h.2.1⟩

/-! ### Tasks -/

/-- The frame does not lie on the field of the kernel stack. -/
def TssApart (l : Layout) (esp : UInt32) : Prop :=
  (⟨l.tssEntry + 4, 4⟩ : Span).Apart ⟨below esp 5, 20⟩

/-- **A task that switches to user mode goes on behind the switch, in ring 3**, with its stack
and its registers but `eax`, and with its own kernel stack for the next interrupt. -/
theorem usermode_entry (l : Layout) (stack next : UInt32) (c : Cpu) (hring : c.cpl = 0)
    (hapart : TssApart l (c.reg .esp)) :
    Entered next c (switchToUsermode l stack next c) ∧
      (switchToUsermode l stack next c).reg .esp = c.reg .esp ∧
      (l.tss (switchToUsermode l stack next c).mem).esp0 = stack ∧
      ∀ a, ¬ (⟨below (c.reg .esp) 5, 20⟩ : Span).Covers a →
        ¬ (⟨l.tssEntry + 4, 4⟩ : Span).Covers a →
        (switchToUsermode l stack next c).mem a = c.mem a := by
  obtain ⟨d, hd⟩ : ∃ d : Cpu, d = ({ c with mem := l.setKernelStack stack c.mem } : Cpu).cli :=
    ⟨_, rfl⟩
  have hswitch : switchToUsermode l stack next c = leaveTo next (userSegments d) := by
    rw [hd]
    rfl
  have hdreg : d.reg = c.reg := by rw [hd]; rfl
  have hdmem : d.mem = l.setKernelStack stack c.mem := by rw [hd]; rfl
  have hdcpl : d.cpl = 0 := by rw [hd, ← hring]; rfl
  have hdflags : d.eflags = c.eflags &&& ~~~IF := by rw [hd]; rfl
  obtain ⟨hmem, hflags, hcpl, hreg, hseg⟩ := userSegments_spec d
  obtain ⟨hleft, -⟩ := leaveTo_spec next (stacked_nil (c := userSegments d)) (by decide)
    (hcpl.trans hdcpl)
  have hesp : (userSegments d).reg .esp = c.reg .esp := by rw [hreg _ (by decide), hdreg]
  have hframe : ∀ a, ¬ (⟨below (c.reg .esp) 5, 20⟩ : Span).Covers a →
      (leaveTo next (userSegments d)).mem a = l.setKernelStack stack c.mem a := by
    intro a ha
    rw [← hdmem, ← hmem]
    exact hleft.mem a (by rwa [hesp])
  rw [hswitch]
  refine ⟨⟨hleft.eip, ?_, hleft.cs, ?_, ?_⟩, (hleft.reg _ (by decide)).trans hesp, ?_, ?_⟩
  · rw [hleft.eflags, hflags, hdflags]
  · intro s hs
    by_cases hss : s = .ss
    · rw [hss, hleft.ss]
    · rw [hleft.data s hs hss, hseg s hs hss]
  · intro x hx hsp
    rw [hleft.reg x hx, hreg x hx, hdreg]
  · exact (word_congr fun a ha => hframe a (hapart a ha)).trans (word_setWord ..)
  · intro a ha htss
    rw [hframe a ha]
    exact setWord_outside _ _ htss

theorem usermode_entry_one :
    Entered 0x101010 exampleKernel
      (switchToUsermode exampleLayout 0xd0004000 0x101010 exampleKernel) := by
  refine (usermode_entry exampleLayout 0xd0004000 0x101010 exampleKernel (by decide) ?_).1
  intro a ha hcov
  have hfield := (covers_offset 0 a (i := 0x3004) (n := 4) (by decide) (by decide)).mp ha
  have hframe := (covers_offset 0 a (i := 0x8fec) (n := 20) (by decide) (by decide)).mp hcov
  omega

/-- **Two programs on one kernel stack**: the second interrupt puts its frame where the frame of
the first one is.  When the handler of the first returns afterwards, it is the second program
that goes on. -/
theorem frame_lost (stub₁ stub₂ : Stub) (error₁ error₂ : Option UInt32) (tss : Tss)
    (gate₁ gate₂ : Gate) (ret₁ ret₂ : UInt32) (c₁ c₂ k : Cpu)
    (herror₁ : error₁.isSome = stub₁.hasError) (herror₂ : error₂.isSome = stub₂.hasError)
    (hring₁ : c₁.cpl ≠ 0) (hring₂ : c₂.cpl ≠ 0)
    (hesp : k.reg .esp = (stub₁.called ret₁ (c₁.deliver gate₁ tss error₁)).reg .esp + 4)
    (hmem : k.mem = (stub₂.called ret₂ (c₂.deliver gate₂ tss error₂)).mem) (hring : k.cpl = 0) :
    Syscall.Returned (c₂.reg .eax) c₂ (leaveCommon k) := by
  obtain ⟨-, hdeeper₁, -, -⟩ := called_spec c₁ gate₁ tss ret₁ herror₁
  obtain ⟨hstacked, hdeeper₂, -, -⟩ := called_spec c₂ gate₂ tss ret₂ herror₂
  have hdepth : ∀ c : Cpu, c.cpl ≠ 0 → below ((c.onStack tss).reg .esp) (15 + c.outer.length) =
      below tss.esp0 17 := by
    intro c hc
    unfold Cpu.onStack Cpu.outer
    rw [if_neg hc, if_neg hc, setSeg_reg, setReg_reg_self]
    rfl
  have hrecord : k.Stacked (interrupted stub₂ tss error₂ c₂).words := by
    have hwords := hstacked.2
    rw [hdeeper₂.esp, hdepth c₂ hring₂] at hwords
    unfold Cpu.Stacked
    rw [hesp, hmem, hdeeper₁.esp, hdepth c₁ hring₁]
    exact hwords
  have hleft := leaveCommon_spec hrecord hring
  have hcs : ¬ (interrupted stub₂ tss error₂ c₂).cs.toUInt16 &&& 3 = 0 := by
    rw [show (interrupted stub₂ tss error₂ c₂).cs.toUInt16 = c₂.seg .cs from
      UInt16.toUInt16_toUInt32 _]
    exact hring₂
  refine Syscall.returned_of_resumed stub₂ tss error₂
    ⟨hleft.reg, ?_, hleft.cs, ?_, hleft.data, hleft.eip, hleft.eflags⟩
  · rw [hleft.esp, if_neg hcs, if_neg hring₂]
  · rw [hleft.ss, if_neg hcs, if_neg hring₂]

/-- Another program, which has the kernel stack of `exampleProgram`. -/
def exampleOther : Cpu := { Syscall.exampleProgram with eip := 0x8049000 }

/-- The kernel, where the handler of a system call of `exampleProgram` returns after
`exampleOther` made one. -/
def exampleReturn : Cpu where
  reg := Function.update exampleKernel.reg .esp
    ((Stub.called (.isr 80) 0 (Syscall.exampleProgram.deliver ⟨0, 8, 3⟩ ⟨0x10, 0xd0004000⟩ none)).reg
      .esp + 4)
  seg := exampleKernel.seg
  eip := exampleKernel.eip
  eflags := exampleKernel.eflags
  mem := (Stub.called (.isr 80) 0 (exampleOther.deliver ⟨0, 8, 3⟩ ⟨0x10, 0xd0004000⟩ none)).mem

theorem exampleReturn_esp : exampleReturn.reg .esp =
    (Stub.called (.isr 80) 0 (Syscall.exampleProgram.deliver ⟨0, 8, 3⟩ ⟨0x10, 0xd0004000⟩ none)).reg
      .esp + 4 := by
  unfold exampleReturn
  dsimp only
  rw [Function.update_self]

theorem frame_lost_syscalls : Syscall.Returned 7 exampleOther (leaveCommon exampleReturn) :=
  frame_lost (.isr 80) (.isr 80) none none ⟨0x10, 0xd0004000⟩ ⟨0, 8, 3⟩ ⟨0, 8, 3⟩ 0 0
    Syscall.exampleProgram exampleOther exampleReturn rfl rfl (by decide) (by decide) exampleReturn_esp rfl (by decide)

end OsThing.UserMode
