/-
A system call, from the wrapper to the value that it returns.

`int 0x50` finds the one gate that is open to every ring, the stub builds the record, and
`isr_handler` calls what is registered for the number that the stub pushed.  The record comes
back with another `eax` and nothing else changed, so a wrapper returns what the called function
did, and the program finds its registers as they were.

Which function that is, is up to the numbers.  The wrappers of programs and of modules count
two calls that the table no longer has, so behind `lstat` each of them reaches another function
than its own.
-/
import OsThing.Kern.Wrappers
import OsThing.Proofs.InitTables
import OsThing.Proofs.Syscalls

namespace OsThing.Syscall

open Ia32 InitTables Interrupts Ram Stack

/-! ### The interrupt -/

/-- The interrupt table is the one of `init_idt`. -/
def IdtSet (l : Layout) (m : Memory) : Prop :=
  ∃ m₀, ∀ a, (⟨l.idtEntries, entrySize * 256⟩ : Span).Covers a → m a = l.initIdt m₀ a

theorem IdtSet.gate {l : Layout} {m : Memory} (h : IdtSet l m) (n : UInt8) :
    l.gate m n = (vector n).map fun (stub, dpl) =>
      { offset := l.stub stub, selector := 0x08, dpl := dpl } := by
  obtain ⟨m₀, hm⟩ := h
  have hn := n.toNat_lt
  rw [← gate_initIdt l m₀ n]
  unfold Layout.gate
  refine congrArg Descriptor.gate (descriptor_congr fun a ha => hm a ?_)
  exact Span.inside_add l.idtEntries (i := 8 * n.toNat) (n := 8)
    (show 8 * n.toNat + 8 ≤ 8 * 256 by omega) a ha

theorem cpl_le (c : Cpu) : c.cpl ≤ 3 := by
  rw [UInt16.le_iff_toNat_le, Cpu.cpl, UInt16.toNat_and]
  exact Nat.and_le_right

/-- The gate of the system calls. -/
def callGate (l : Layout) : Gate :=
  { offset := l.stub (.isr 80), selector := 0x08, dpl := 3 }

/-- All other gates are closed to the outer rings. -/
theorem vector_closed {n : UInt8} {g : Stub × UInt16} (hn : n ≠ 0x50) (h : vector n = some g) :
    g.2 = 0 := by
  unfold vector at h
  split at h
  · exact (Option.some.inj h) ▸ rfl
  · split at h
    · exact (Option.some.inj h) ▸ rfl
    · split at h
      · exact (Option.some.inj h) ▸ rfl
      · cases h

/-- **Every ring may raise interrupt 0x50, and an outer ring may raise no other.** -/
theorem int_spec {l : Layout} (c : Cpu) (h : IdtSet l c.mem) (n : UInt8)
    (hn : n = 0x50 ∨ c.cpl ≠ 0) :
    c.int (l.gate c.mem n) (l.tss c.mem) =
      if n = 0x50 then some (c.deliver (callGate l) (l.tss c.mem) none) else none := by
  rw [h.gate n]
  by_cases hcall : n = 0x50
  · rw [if_pos hcall, hcall]
    exact if_pos (cpl_le c)
  · rw [if_neg hcall]
    cases hvector : vector n with
    | none => rfl
    | some g =>
        have hdpl := vector_closed hcall hvector
        refine if_neg fun hle => hn.resolve_left hcall ?_
        change c.cpl ≤ g.2 at hle
        rw [hdpl] at hle
        exact UInt16.le_zero_iff.mp hle

/-! ### The way back -/

theorem ds_low (x : UInt32) (d : UInt16) : ((x &&& 0xffff0000) ||| d.toUInt32).toUInt16 = d := by
  rw [UInt32.toUInt16_or, UInt32.toUInt16_and, show (0xffff0000 : UInt32).toUInt16 = 0 from rfl,
    UInt16.and_zero, UInt16.zero_or, UInt16.toUInt16_toUInt32]

/-- The code goes on where it was interrupted, and nothing but `eax` and the segments that the
kernel does not save is different. -/
structure Returned (v : UInt32) (c c' : Cpu) : Prop where
  reg : c'.reg = Function.update c.reg .eax v
  eip : c'.eip = c.eip
  eflags : c'.eflags = c.eflags
  cs : c'.seg .cs = c.seg .cs
  ss : c'.seg .ss = c.seg .ss
  data : ∀ s, s ≠ .cs → s ≠ .ss → c'.seg s = c.seg .ds

/-- A handler that stores in `eax` only leaves everything else as it was. -/
theorem returned_of_resumed (stub : Stub) (tss : Tss) (error : Option UInt32) {v : UInt32}
    {c c' : Cpu} (h : Resumed { interrupted stub tss error c with eax := v } c c') :
    Returned v c c' := by
  refine ⟨funext fun x => ?_, h.eip, h.eflags, h.cs.trans (UInt16.toUInt16_toUInt32 _), ?_, ?_⟩
  · by_cases hx : x = .esp
    · rw [hx, Function.update_of_ne (by decide), h.esp]
      split
      · rfl
      · next hring => exact congrArg Prod.fst (if_neg hring)
    · rw [h.reg x hx]
      cases x <;> first | rfl | exact absurd rfl hx
  · rw [h.ss]
    split
    · rfl
    · next hring =>
        refine Eq.trans ?_ (UInt16.toUInt16_toUInt32 _)
        exact congrArg (fun p : UInt32 × UInt32 => p.2.toUInt16) (if_neg hring)
  · exact fun s hcs hss => (h.data s hcs hss).trans (ds_low ..)

/-- What the program loads into the registers is what the handler takes out of them. -/
def callRegisters (c : Cpu) : Syscall.Registers where
  eax := c.reg .eax
  ebx := c.reg .ebx
  ecx := c.reg .ecx
  edx := c.reg .edx
  esi := c.reg .esi
  edi := c.reg .edi

section Call

variable {image : KernelImage} {run : Call → UInt32}
  {handlers : Nat → Option (Interrupts.Registers → Interrupts.Registers)}

/-- What `isr_handler` makes of the record at interrupt 0x50. -/
theorem isrHandler_call (hsyscall : handlers 0x50 = some (syscallRecord image run)) (tss : Tss)
    (c : Cpu) :
    isrHandler handlers (interrupted (.isr 80) tss none c) =
      { interrupted (.isr 80) tss none c with
        eax := (syscallHandler image run (callRegisters c)).eax } := by
  unfold isrHandler
  rw [show (interrupted (.isr 80) tss none c).intNo.toNat = 0x50 from rfl, hsyscall]
  rfl

/-- **A system call, in whichever ring it is made, returns what the called function returns and
changes nothing else.** -/
theorem syscall_returns {l : Layout} (c : Cpu) (ret : UInt32) (handler : Cpu → Cpu)
    (hidt : IdtSet l c.mem) (hsyscall : handlers 0x50 = some (syscallRecord image run))
    (hreturns : Returns (isrHandler handlers)
      (Stub.called (.isr 80) ret (c.deliver (callGate l) (l.tss c.mem) none))
      (handler (Stub.called (.isr 80) ret (c.deliver (callGate l) (l.tss c.mem) none)))) :
    ∃ d, c.int (l.gate c.mem 0x50) (l.tss c.mem) = some d ∧ d.eip = l.stub (.isr 80) ∧
      Returned (syscallHandler image run (callRegisters c)).eax c
        (Stub.run (.isr 80) ret handler d) := by
  refine ⟨_, (int_spec c hidt 0x50 (Or.inl rfl)).trans (if_pos rfl), rfl, ?_⟩
  have hrecord := isrHandler_call hsyscall (l.tss c.mem) c
  have hcs : (isrHandler handlers (interrupted (.isr 80) (l.tss c.mem) none c)).cs.toUInt16 &&& 3 =
      c.cpl := by
    rw [hrecord]
    exact congrArg (· &&& 3) (UInt16.toUInt16_toUInt32 _)
  have hresumed := stub_resumes (.isr 80) (callGate l) (l.tss c.mem) none ret handler c rfl
    (show (0x08 : UInt16) &&& 3 = 0 by decide) hreturns (by rw [hcs])
  rw [hrecord] at hresumed
  exact returned_of_resumed _ _ _ hresumed

end Call

/-! ### The wrappers -/

theorem loadCall_spec (num : UInt32) : ∀ (params : List UInt32) (c : Cpu), params.length ≤ 4 →
    (callRegisters (loadCall num params c)).eax = num ∧
      [(callRegisters (loadCall num params c)).ebx, (callRegisters (loadCall num params c)).ecx,
        (callRegisters (loadCall num params c)).edx,
        (callRegisters (loadCall num params c)).esi].take params.length = params ∧
      (loadCall num params c).mem = c.mem ∧ (loadCall num params c).cpl = c.cpl
  | [], _, _ => ⟨rfl, rfl, rfl, rfl⟩
  | [_], _, _ => ⟨rfl, rfl, rfl, rfl⟩
  | [_, _], _, _ => ⟨rfl, rfl, rfl, rfl⟩
  | [_, _, _], _, _ => ⟨rfl, rfl, rfl, rfl⟩
  | [_, _, _, _], _, _ => ⟨rfl, rfl, rfl, rfl⟩
  | _ :: _ :: _ :: _ :: _ :: _, _, h => absurd h (by simp)

/-- The function behind a number is the one with the name of the wrapper. -/
def Reaches (name : Name) (num : UInt32) : Prop :=
  ∃ f, name.function = some f ∧ syscalls[num.toNat]? = some f

/-- Up to `lstat` the lists agree.  Behind it only the kernel counts as the table does. -/
theorem reaches_iff : ∀ w ∈ userCalls ++ moduleCalls ++ kernelCalls,
    (w.2.toNat < numSyscalls) ∧
      (Reaches w.1 w.2 ↔ w.2 < 8 ∨ w ∈ kernelCalls ∧ w.2 ≠ 8 ∧ w.2 ≠ 27) := by
  have hall : ∀ w ∈ userCalls ++ moduleCalls ++ kernelCalls, (w.2.toNat < numSyscalls) ∧
      ((w.1.function.isSome = true ∧ syscalls[w.2.toNat]? = w.1.function) ↔
        w.2 < 8 ∨ w ∈ kernelCalls ∧ w.2 ≠ 8 ∧ w.2 ≠ 27) := by decide +kernel
  intro w hw
  refine ⟨(hall w hw).1, Iff.trans ?_ (hall w hw).2⟩
  constructor
  · rintro ⟨f, hname, hentry⟩
    rw [hname]
    exact ⟨rfl, hentry⟩
  · rintro ⟨hsome, hentry⟩
    obtain ⟨f, hf⟩ := Option.isSome_iff_exists.mp hsome
    exact ⟨f, hf, hentry.trans hf⟩

/-- A program in ring 3. -/
def exampleProgram : Cpu where
  reg := fun r => if r = .esp then 0xbfff0000 else 7
  seg := fun s => if s = .cs then 0x1b else 0x23
  eip := 0x8048000
  eflags := 0x202
  mem := exampleLayout.initIdt fun _ => 0

theorem exampleProgram_idtSet : IdtSet exampleLayout exampleProgram.mem := ⟨_, fun _ _ => rfl⟩

/-- The stub of an interrupt pushes the number of the interrupt. -/
theorem vector_number {n : UInt8} {g : Stub × UInt16} (h : vector n = some g) :
    g.1.number = n := by
  unfold vector at h
  split at h
  · exact (Option.some.inj h) ▸ rfl
  · split at h
    · refine (Option.some.inj h) ▸ ?_
      show 32 + (n - 32) = n
      grind
    · split at h
      · next hn => exact (Option.some.inj h) ▸ hn.symm
      · split at h
        · next hn => exact (Option.some.inj h) ▸ hn.symm
        · cases h

/-- **Every interrupt leads to its stub, and the code that it came upon goes on as the record
says that the handler left**: the faults with their error codes, the lines of the two
controllers and the system calls, in whichever ring the code was. -/
theorem interrupt_resumes {l : Layout} {f : Interrupts.Registers → Interrupts.Registers} (c : Cpu)
    (n : UInt8) (stub : Stub) (dpl : UInt16) (error : Option UInt32) (ret : UInt32)
    (handler : Cpu → Cpu) (hidt : IdtSet l c.mem) (hstub : vector n = some (stub, dpl))
    (herror : error.isSome = stub.hasError)
    (hring : (f (interrupted stub (l.tss c.mem) error c)).cs.toUInt16 &&& 3 = 0 ↔ c.cpl = 0) :
    ∃ gate, l.gate c.mem n = some gate ∧ gate.offset = l.stub stub ∧ stub.number = n ∧
      let d := stub.called ret (c.deliver gate (l.tss c.mem) error)
      (∀ a, ¬ (⟨below ((c.onStack (l.tss c.mem)).reg .esp) (15 + c.outer.length),
        4 * (15 + c.outer.length)⟩ : Span).Covers a → d.mem a = c.mem a) ∧
      (Returns f d (handler d) →
        Resumed (f (interrupted stub (l.tss c.mem) error c)) c
            (stub.run ret handler (c.deliver gate (l.tss c.mem) error)) ∧
          (stub.run ret handler (c.deliver gate (l.tss c.mem) error)).mem = (handler d).mem) := by
  have hgate : l.gate c.mem n = some { offset := l.stub stub, selector := 0x08, dpl := dpl } := by
    rw [hidt.gate n, hstub]
    rfl
  have hselector : (0x08 : UInt16) &&& 3 = 0 := by decide
  refine ⟨_, hgate, rfl, vector_number hstub, ?_, ?_⟩
  · exact fun a ha => called_outside stub _ _ error ret c herror ha
  · intro hreturns
    exact ⟨stub_resumes stub _ _ error ret handler c herror hselector hreturns hring,
      (run_left stub _ _ error ret handler c herror hselector hreturns).mem⟩

/-- A page fault of the program, whose handler skips the instruction. -/
theorem interrupt_resumes_pageFault : ∃ gate,
    exampleLayout.gate exampleProgram.mem 14 = some gate ∧ gate.offset = 0x1000e0 ∧
      Resumed { interrupted (.isr 14) (exampleLayout.tss exampleProgram.mem) (some 4) exampleProgram
            with eip := 0x8048002 }
        exampleProgram (Stub.run (.isr 14) 0 (storing fun r => { r with eip := 0x8048002 })
          (exampleProgram.deliver gate (exampleLayout.tss exampleProgram.mem) (some 4))) := by
  obtain ⟨gate, hgate, hoffset, -, -, hresumes⟩ :=
    interrupt_resumes (f := fun r => { r with eip := 0x8048002 }) exampleProgram 14 (.isr 14) 0
      (some 4) 0 (storing fun r => { r with eip := 0x8048002 }) exampleProgram_idtSet rfl rfl
      (by decide)
  exact ⟨gate, hgate, hoffset, (hresumes (storing_returns ..)).1⟩

/-- **What a wrapper returns**, of a program, a module or the kernel, in whichever ring it is
called: what the function behind its number returns for the parameters.  That is the function
with its name for the first eight numbers, and behind them for the kernel only. -/
theorem wrapper_returns {l : Layout} {image : KernelImage} {run : Call → UInt32}
    {handlers : Nat → Option (Interrupts.Registers → Interrupts.Registers)} (c : Cpu)
    (w : Name × UInt32) (params : List UInt32) (ret : UInt32) (handler : Cpu → Cpu)
    (hw : w ∈ userCalls ++ moduleCalls ++ kernelCalls) (hparams : params.length ≤ 4)
    (hidt : IdtSet l c.mem) (hsyscall : handlers 0x50 = some (syscallRecord image run))
    (hreturns : ∀ d, Returns (isrHandler handlers) d (handler d)) :
    ∃ d call, (loadCall w.2 params c).int (l.gate c.mem 0x50) (l.tss c.mem) = some d ∧
      dispatch image (callRegisters (loadCall w.2 params c)) = some call ∧
      call.args.take params.length = params ∧
      Returned (run call) (loadCall w.2 params c) (Stub.run (.isr 80) ret handler d) ∧
      ((∃ f, w.1.function = some f ∧ syscalls[call.index]? = some f) ↔
        w.2 < 8 ∨ w ∈ kernelCalls ∧ w.2 ≠ 8 ∧ w.2 ≠ 27) := by
  obtain ⟨hnum, hreaches⟩ := reaches_iff w hw
  obtain ⟨heax, hargs, hmem, -⟩ := loadCall_spec w.2 params c hparams
  have hlt : (callRegisters (loadCall w.2 params c)).eax.toNat < numSyscalls := by
    rw [heax]
    exact hnum
  have hdispatch : dispatch image (callRegisters (loadCall w.2 params c)) = some _ :=
    dispatch_some hlt
  rw [← hmem] at hidt ⊢
  obtain ⟨d, hint, -, hreturned⟩ := syscall_returns (loadCall w.2 params c) ret handler hidt
    hsyscall (hreturns _)
  refine ⟨d, _, hint, hdispatch, ?_, ?_, ?_⟩
  · refine Eq.trans ?_ hargs
    rcases Nat.lt_or_ge params.length 5 with hlt | hge
    · exact (@List.take_append_of_le_length _ [_, _, _, _] [_] _ hparams)
    · exact absurd hge (by omega)
  · unfold syscallHandler at hreturned
    rw [hdispatch] at hreturned
    exact hreturned
  · rw [show (callRegisters (loadCall w.2 params c)).eax = w.2 from heax]
    exact hreaches

/-- A kernel in which a call returns its second argument. -/
def exampleHandlers : Nat → Option (Interrupts.Registers → Interrupts.Registers) := fun n =>
  if n = 0x50 then
    some (syscallRecord ⟨fun _ => 0x100000, fun _ => 0⟩ fun call => call.args.getD 1 0)
  else none

/-- `lseek` of a program, by 0x200 from the end. -/
theorem wrapper_returns_lseek : ∃ (d : Cpu) (call : Call),
    (loadCall 6 [3, 0x200, 2] exampleProgram).int (exampleLayout.gate exampleProgram.mem 0x50)
        (exampleLayout.tss exampleProgram.mem) = some d ∧
      call.args.take 3 = [3, 0x200, 2] ∧
      Returned 0x200 (loadCall 6 [3, 0x200, 2] exampleProgram)
        (Stub.run (.isr 80) 0 (storing (isrHandler exampleHandlers)) d) ∧
      ∃ f, Name.lseek.function = some f ∧ syscalls[call.index]? = some f := by
  obtain ⟨d, call, hint, -, hargs, hreturned, hreaches⟩ := wrapper_returns exampleProgram (.lseek, 6)
    [3, 0x200, 2] 0 (storing (isrHandler exampleHandlers)) (by decide) (by decide)
    exampleProgram_idtSet rfl (fun d => storing_returns _ d)
  have hsecond : call.args.getD 1 0 = 0x200 := by
    rw [List.getD_eq_getElem?_getD, ← List.getElem?_take_of_lt (show 1 < 3 by decide),
      show call.args.take 3 = [3, 0x200, 2] from hargs]
    rfl
  exact ⟨d, call, hint, hargs, hsecond ▸ hreturned, hreaches.mpr (Or.inl (by decide))⟩

end OsThing.Syscall
