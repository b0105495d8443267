/-
Interrupts: the code that was interrupted goes on as the handler's record says.

A handler does not see the processor, it sees the `registers_t` that the stub left on the
stack, and what it makes of that record is what the interrupted code finds.  Three things have
to fit together for this: the words that the processor pushes, the words that the stub adds
(one more if the processor has pushed no error code) and the order in which they are popped
again.

`called_spec` follows the stack down: the record is the one of the interrupted code, and no
byte outside the frame is different.  `leaveCommon_spec` follows it up again.  In ring 0 the
processor pushes no stack pointer, so the last two words of the record are the ones that the
interrupted code has on its own stack, and they are read by nobody on the way back.
-/
import OsThing.Kern.Stubs

namespace OsThing.Interrupts

open Ia32 Ram Stack

/-! ### The record in memory -/

theorem load_of_holds {m : Memory} {a : UInt32} {r : Registers} (h : Holds m a r.words) :
    Registers.load m a = r := by
  simp only [Registers.words, holds_cons, holds_nil, UInt32.add_assoc, and_true,
    UInt32.reduceAdd] at h
  obtain ⟨h₀, h₁, h₂, h₃, h₄, h₅, h₆, h₇, h₈, h₉, h₁₀, h₁₁, h₁₂, h₁₃, h₁₄, h₁₅⟩ := h
  unfold Registers.load
  rw [h₀, h₁, h₂, h₃, h₄, h₅, h₆, h₇, h₈, h₉, h₁₀, h₁₁, h₁₂, h₁₃, h₁₄, h₁₅]

theorem holds_load (m : Memory) (a : UInt32) : Holds m a (Registers.load m a).words := by
  simp [Registers.words, Registers.load, UInt32.add_assoc]

/-! ### Entering -/

variable {c c' : Cpu} {stub : Stub} {gate : Gate} {tss : Tss} {error : Option UInt32}
  {ret : UInt32} {ws : List UInt32}

/-- A stub adds what the processor has not pushed: afterwards the two words are there. -/
theorem begin_spec (herror : error.isSome = stub.hasError) (h : c.Stacked (error.toList ++ ws))
    (hlen : ws.length + 2 ≤ 2 ^ 30) :
    (stub.begin c).Stacked (stub.number.toUInt32 :: error.getD 0 :: ws) ∧
      Deeper c (stub.begin c) (2 - error.toList.length) ∧
      (∀ x, x ≠ .esp → (stub.begin c).reg x = c.reg x) ∧ (stub.begin c).seg = c.seg := by
  have hcli : c.cli.Stacked (error.toList ++ ws) := h.of_eq rfl rfl
  unfold Stub.begin
  cases error with
  | none =>
      have hno : stub.hasError = false := herror.symm
      rw [hno]
      have hpushed := (pushed_push c.cli 0).trans
        (pushed_push (c.cli.push 0) stub.number.toUInt32)
      refine ⟨?_, hpushed.toDeeper.of_eq rfl rfl rfl rfl, hpushed.reg, rfl⟩
      exact (hcli.push (by rw [Option.toList_none, List.nil_append]; omega) 0).push hlen _
  | some e =>
      have hyes : stub.hasError = true := herror.symm
      rw [hyes]
      have hpushed := pushed_push c.cli stub.number.toUInt32
      refine ⟨?_, hpushed.toDeeper.of_eq rfl rfl rfl rfl, hpushed.reg, rfl⟩
      exact hcli.push hlen _

theorem setLow_low (c : Cpu) (x : Reg) (v : UInt16) :
    ((c.setLow x v).reg x) = (c.reg x &&& 0xffff0000) ||| v.toUInt32 := setReg_reg_self ..

theorem setLow_esp (c : Cpu) (v : UInt16) : (c.setLow .eax v).reg .esp = c.reg .esp :=
  setReg_reg_ne _ _ _ _ (by decide)

/-- The common part saves the registers, with the data segment on top. -/
theorem enterCommon_spec (h : c.Stacked ws) (hlen : ws.length + 9 ≤ 2 ^ 30) :
    (enterCommon c).Stacked
      (((c.reg .eax &&& 0xffff0000) ||| (c.seg .ds).toUInt32) :: (saved c ++ ws)) ∧
      Deeper c (enterCommon c) 9 ∧
      (enterCommon c).seg .cs = c.seg .cs ∧ (enterCommon c).seg .ss = c.seg .ss := by
  have hpusha := pushed_pusha c
  have hstacked : (c.pusha.setLow .eax (c.pusha.seg .ds)).Stacked (saved c ++ ws) :=
    (h.pusha (by omega)).of_eq (setLow_esp ..) rfl
  have heax : (c.pusha.setLow .eax (c.pusha.seg .ds)).reg .eax =
      (c.reg .eax &&& 0xffff0000) ||| (c.seg .ds).toUInt32 := by
    rw [setLow_low, hpusha.reg _ (by decide), hpusha.seg]
  have hdeeper : Deeper c (c.pusha.setLow .eax (c.pusha.seg .ds)) 8 :=
    hpusha.toDeeper.of_eq rfl rfl (setLow_esp ..) rfl
  have hds := hstacked.push (by rw [List.length_append]; simp [saved]; omega)
    ((c.pusha.setLow .eax (c.pusha.seg .ds)).reg .eax)
  have hdeeper' := hdeeper.trans (deeper_push _
    ((c.pusha.setLow .eax (c.pusha.seg .ds)).reg .eax))
  rw [heax] at hds hdeeper'
  unfold enterCommon loadSegments
  dsimp only
  rw [heax]
  refine ⟨hds.of_eq ?_ rfl, hdeeper'.of_eq rfl rfl ?_ rfl, ?_, ?_⟩
  · exact setLow_esp (c.pusha.setLow .eax _ |>.push _) 0x10
  · exact setLow_esp (c.pusha.setLow .eax _ |>.push _) 0x10
  · simp only [setSeg_seg_ne, ne_eq, reduceCtorEq, not_false_eq_true]
    exact congrFun hpusha.seg .cs
  · simp only [setSeg_seg_ne, ne_eq, reduceCtorEq, not_false_eq_true]
    exact congrFun hpusha.seg .ss

/-- The words above the frame are on the stack that the processor takes. -/
theorem aboveFrame_stacked (c : Cpu) (tss : Tss) : ∃ ws, (c.onStack tss).Stacked ws ∧
    ws.length ≤ 2 ∧ c.outer ++ ws = [(aboveFrame c).1, (aboveFrame c).2] := by
  unfold Cpu.onStack Cpu.outer aboveFrame
  by_cases hring : c.cpl = 0
  · refine ⟨[c.top, (c.drop 4).top], ?_, by simp, by simp [hring]⟩
    rw [if_pos hring]
    refine ⟨rfl, ?_, trivial⟩
    show word _ _ = word _ _
    rw [drop_esp, drop_mem]
  · exact ⟨[], trivial, by simp, by simp [hring]⟩

/-- **The record that the C function finds is the one of the interrupted code.**  The frame is
15 words deep, or 17 with the stack pointer and the stack segment of an outer ring. -/
theorem called_spec (c : Cpu) (gate : Gate) (tss : Tss) (ret : UInt32)
    (herror : error.isSome = stub.hasError) :
    (stub.called ret (c.deliver gate tss error)).Stacked
      (ret :: (interrupted stub tss error c).words) ∧
      Deeper (c.onStack tss) (stub.called ret (c.deliver gate tss error)) (15 + c.outer.length) ∧
      (stub.called ret (c.deliver gate tss error)).seg .cs = gate.selector ∧
      (stub.called ret (c.deliver gate tss error)).seg .ss =
        if c.cpl = 0 then c.seg .ss else tss.ss0 := by
  obtain ⟨ws, hws, hlength, habove⟩ := aboveFrame_stacked c tss
  have hdelivered := delivered gate error hws (by omega)
  have hrest : (c.outer ++ ws).length = 2 := by rw [habove]; rfl
  obtain ⟨hbegin, hdeep, hreg, hseg⟩ := begin_spec herror hdelivered.stacked
    (by rw [List.length_cons, List.length_cons, List.length_cons, hrest]; decide)
  obtain ⟨hcommon, hdeep', hcs, hss⟩ := enterCommon_spec hbegin
    (by simp only [List.length_cons, hrest]; decide)
  have hdown := (hdelivered.deeper.trans hdeep).trans hdeep'
  have hreg' : ∀ x, x ≠ .esp → (stub.begin (c.deliver gate tss error)).reg x = c.reg x :=
    fun x hx => (hreg x hx).trans (hdelivered.reg x hx)
  have herr1 : error.toList.length ≤ 1 := by cases error <;> simp
  have hwords : ((((stub.begin (c.deliver gate tss error)).reg .eax &&& 0xffff0000) |||
      ((stub.begin (c.deliver gate tss error)).seg .ds).toUInt32) ::
      (saved (stub.begin (c.deliver gate tss error)) ++ (stub.number.toUInt32 :: error.getD 0 ::
        c.eip :: (c.seg .cs).toUInt32 :: c.eflags :: (c.outer ++ ws)))) =
      (interrupted stub tss error c).words := by
    have hesp : (stub.begin (c.deliver gate tss error)).reg .esp =
        below ((c.onStack tss).reg .esp) (5 + c.outer.length) := by
      rw [(hdelivered.deeper.trans hdeep).esp]
      congr 1
      omega
    rw [habove, hreg' _ (by decide), hseg, hdelivered.seg _ (by decide) (by decide)]
    unfold saved interrupted Registers.words
    rw [hesp, hreg' _ (by decide), hreg' _ (by decide), hreg' _ (by decide), hreg' _ (by decide),
      hreg' _ (by decide), hreg' _ (by decide), hreg' _ (by decide)]
    rfl
  rw [hwords] at hcommon
  unfold Stub.called
  refine ⟨hcommon.push (by simp [Registers.words]) ret, ?_, ?_, ?_⟩
  · have hcall := hdown.trans (deeper_push (enterCommon (stub.begin (c.deliver gate tss error))) ret)
    rw [show 15 + c.outer.length = error.toList.length + 3 + c.outer.length +
      (2 - error.toList.length) + 9 + 1 by omega]
    exact hcall
  · rw [push_seg, hcs, hseg, hdelivered.cs]
  · rw [push_seg, hss, hseg, hdelivered.ss]

/-! ### Leaving -/

theorem loadSegments_data (c : Cpu) (v : UInt16) {s : Seg} (hcs : s ≠ .cs) (hss : s ≠ .ss) :
    (loadSegments c v).seg s = v := by
  unfold loadSegments
  cases s with
  | cs => exact absurd rfl hcs
  | ss => exact absurd rfl hss
  | gs => exact setSeg_seg_self ..
  | fs => exact (setSeg_seg_ne _ _ _ _ (by decide)).trans (setSeg_seg_self ..)
  | es =>
      exact (setSeg_seg_ne _ _ _ _ (by decide)).trans
        ((setSeg_seg_ne _ _ _ _ (by decide)).trans (setSeg_seg_self ..))
  | ds =>
      exact (setSeg_seg_ne _ _ _ _ (by decide)).trans ((setSeg_seg_ne _ _ _ _ (by decide)).trans
        ((setSeg_seg_ne _ _ _ _ (by decide)).trans (setSeg_seg_self ..)))

theorem loadSegments_cs (c : Cpu) (v : UInt16) : (loadSegments c v).seg .cs = c.seg .cs := by
  simp only [loadSegments, setSeg_seg_ne, ne_eq, reduceCtorEq, not_false_eq_true]

theorem loadSegments_ss (c : Cpu) (v : UInt16) : (loadSegments c v).seg .ss = c.seg .ss := by
  simp only [loadSegments, setSeg_seg_ne, ne_eq, reduceCtorEq, not_false_eq_true]

/-- What the common part leaves of the record `r` that is on the stack. -/
structure Left (r : Registers) (c c' : Cpu) : Prop where
  reg : ∀ x, x ≠ .esp → c'.reg x = r.reg x
  esp : c'.reg .esp = if r.cs.toUInt16 &&& 3 = 0 then c.reg .esp + 56 else r.useresp
  cs : c'.seg .cs = r.cs.toUInt16
  ss : c'.seg .ss = if r.cs.toUInt16 &&& 3 = 0 then c.seg .ss else r.ss.toUInt16
  data : ∀ s, s ≠ .cs → s ≠ .ss → c'.seg s = r.ds.toUInt16
  eip : c'.eip = r.eip
  eflags : c'.eflags = r.eflags
  mem : c'.mem = c.mem

/-- The state before the `iret`. -/
structure Unwound (r : Registers) (c d : Cpu) : Prop where
  stacked : d.Stacked [r.eip, r.cs, r.eflags, r.useresp, r.ss]
  reg : ∀ x, x ≠ .esp → d.reg x = r.reg x
  esp : d.reg .esp = c.reg .esp + 44
  cs : d.seg .cs = c.seg .cs
  ss : d.seg .ss = c.seg .ss
  data : ∀ s, s ≠ .cs → s ≠ .ss → d.seg s = r.ds.toUInt16
  mem : d.mem = c.mem

/-- The registers that `popa` takes from the stack. -/
theorem popa_spec {r : Registers} {d : Cpu}
    (h : d.Stacked (r.edi :: r.esi :: r.ebp :: r.esp :: r.ebx :: r.edx :: r.ecx :: r.eax :: ws)) :
    d.popa.Stacked ws ∧ (∀ x, x ≠ .esp → d.popa.reg x = r.reg x) ∧
      d.popa.reg .esp = d.reg .esp + 32 ∧ d.popa.seg = d.seg ∧ d.popa.mem = d.mem := by
  obtain ⟨hpopa, hseg, -, hmem, hesp, heax, hecx, hedx, hebx, hebp, hesi, hedi⟩ := h.popa
  refine ⟨hpopa, fun x hx => ?_, hesp, hseg, hmem⟩
  cases x with
  | esp => exact absurd rfl hx
  | eax => exact heax
  | ecx => exact hecx
  | edx => exact hedx
  | ebx => exact hebx
  | ebp => exact hebp
  | esi => exact hesi
  | edi => exact hedi

theorem leaveCommon_unwound {r : Registers} (h : c.Stacked r.words) :
    ∃ d, leaveCommon c = d.iret ∧ Unwound r c d := by
  have hlow : (c.pop .ebx).low .ebx = r.ds.toUInt16 := by
    unfold Cpu.low
    rw [pop_reg_self, h.top]
  obtain ⟨l, hl⟩ : ∃ l, l = loadSegments (c.pop .ebx) r.ds.toUInt16 := ⟨_, rfl⟩
  have hstacked : l.Stacked [r.edi, r.esi, r.ebp, r.esp, r.ebx, r.edx, r.ecx, r.eax, r.intNo,
      r.errCode, r.eip, r.cs, r.eflags, r.useresp, r.ss] := by
    rw [hl]
    exact (h.pop (r := .ebx) (by decide)).of_eq rfl rfl
  have hesp : l.reg .esp = c.reg .esp + 4 := by
    rw [hl]
    exact pop_esp c .ebx (by decide)
  obtain ⟨hpopa, hreg, hdepth, hseg, hmem⟩ := popa_spec hstacked
  have hgone := hpopa.drop.drop
  rw [drop_drop, show (4 : UInt32) + 4 = 8 from rfl] at hgone
  refine ⟨(l.popa.drop 8).sti, ?_, hgone.sti, ?_, ?_, ?_, ?_, ?_, ?_⟩
  · unfold leaveCommon
    dsimp only
    rw [hlow, hl]
  · intro x hx
    rw [sti_reg, drop_reg _ _ _ hx]
    exact hreg x hx
  · rw [sti_reg, drop_esp, hdepth, hesp]
    grind
  · rw [sti_seg, drop_seg, hseg, hl]
    exact loadSegments_cs ..
  · rw [sti_seg, drop_seg, hseg, hl]
    exact loadSegments_ss ..
  · intro s hcs hss
    rw [sti_seg, drop_seg, hseg, hl]
    exact loadSegments_data _ _ hcs hss
  · rw [sti_mem, drop_mem, hmem, hl]
    rfl

/-- **The common part takes the record into the processor.** -/
theorem leaveCommon_spec {r : Registers} (h : c.Stacked r.words) (hring : c.cpl = 0) :
    Left r c (leaveCommon c) := by
  obtain ⟨d, hleave, hd⟩ := leaveCommon_unwound h
  have hcpl : d.cpl = 0 := by
    rw [← hring]
    unfold Cpu.cpl
    rw [hd.cs]
  rw [hleave]
  by_cases hcs : r.cs.toUInt16 &&& 3 = 0
  · rw [iret_same hd.stacked (by rw [hcpl, hcs]; decide)]
    refine ⟨fun x hx => (drop_reg d x 12 hx).trans (hd.reg x hx), ?_, setSeg_seg_self (d.drop 12) .cs _, ?_, ?_,
      rfl, rfl, hd.mem⟩
    · rw [if_pos hcs]
      refine (drop_esp d 12).trans ?_
      rw [hd.esp]
      grind
    · rw [if_pos hcs]
      exact (setSeg_seg_ne (d.drop 12) .cs .ss r.cs.toUInt16 (by decide)).trans hd.ss
    · exact fun s hs hs' => (setSeg_seg_ne (d.drop 12) .cs s r.cs.toUInt16 hs).trans (hd.data s hs hs')
  · rw [iret_outer hd.stacked (by rw [hcpl]; exact UInt16.pos_iff_ne_zero.mpr hcs)]
    refine ⟨fun x hx => (setReg_reg_ne d .esp x _ hx).trans (hd.reg x hx), ?_, ?_, ?_, ?_,
      rfl, rfl, hd.mem⟩
    · rw [if_neg hcs]
      exact setReg_reg_self d .esp _
    · exact (setSeg_seg_ne _ .ss .cs _ (by decide)).trans (setSeg_seg_self ..)
    · rw [if_neg hcs]
      exact setSeg_seg_self ..
    · exact fun s hs hs' => (setSeg_seg_ne _ .ss s _ hs').trans
        ((setSeg_seg_ne _ .cs s _ hs).trans (hd.data s hs hs'))

/-! ### A handler that only changes its record -/

/-- A function that stores what `f` makes of the record, and returns. -/
def storing (f : Registers → Registers) (c : Cpu) : Cpu :=
  { c.drop 4 with mem := pushAll c.mem (c.reg .esp + 68) (f (argument c)).words.reverse }

theorem storing_returns (f : Registers → Registers) (c : Cpu) : Returns f c (storing f c) := by
  have hesp : (storing f c).reg .esp = c.reg .esp + 4 := drop_esp c 4
  refine ⟨hesp, rfl, rfl, ?_⟩
  have hwords := Holds.pushAll (f (argument c)).words.reverse
    (show Holds c.mem (c.reg .esp + 68) [] from trivial) (by simp [Registers.words])
  rw [List.reverse_reverse, List.append_nil] at hwords
  have hbelow : below (c.reg .esp + 68) (f (argument c)).words.reverse.length =
      c.reg .esp + 4 := by
    show c.reg .esp + 68 - 64 = _
    grind
  rw [hbelow] at hwords
  rw [hesp]
  exact load_of_holds hwords

/-! ### From the interrupt to the way back -/

/-- What the stub makes of the processor, in one piece: the C function got the record of the
interrupted code and returned, so the stub leaves what the function made of it. -/
theorem run_left {f : Registers → Registers} (stub : Stub) (gate : Gate) (tss : Tss)
    (error : Option UInt32) (ret : UInt32) (handler : Cpu → Cpu) (c : Cpu)
    (herror : error.isSome = stub.hasError) (hgate : gate.selector &&& 3 = 0)
    (hreturns : Returns f (stub.called ret (c.deliver gate tss error))
      (handler (stub.called ret (c.deliver gate tss error)))) :
    Left (f (interrupted stub tss error c)) (handler (stub.called ret (c.deliver gate tss error)))
      (stub.run ret handler (c.deliver gate tss error)) := by
  obtain ⟨hstacked, -, hcs, -⟩ := called_spec c gate tss ret herror
  have hargument : argument (stub.called ret (c.deliver gate tss error)) =
      interrupted stub tss error c := load_of_holds hstacked.2
  have hstored : (handler (stub.called ret (c.deliver gate tss error))).Stacked
      (f (interrupted stub tss error c)).words := by
    rw [← hargument, ← hreturns.argument]
    exact holds_load ..
  refine leaveCommon_spec hstored ?_
  unfold Cpu.cpl
  rw [hreturns.cs, hcs, hgate]

/-- In ring 0 the frame begins below the stack pointer, and all of it is gone again. -/
theorem run_esp {f : Registers → Registers} (stub : Stub) (gate : Gate) (tss : Tss)
    (error : Option UInt32) (ret : UInt32) (handler : Cpu → Cpu) (c : Cpu)
    (herror : error.isSome = stub.hasError) (hring : c.cpl = 0)
    (hreturns : Returns f (stub.called ret (c.deliver gate tss error))
      (handler (stub.called ret (c.deliver gate tss error)))) :
    (handler (stub.called ret (c.deliver gate tss error))).reg .esp + 56 = c.reg .esp := by
  obtain ⟨-, hdeeper, -, -⟩ := called_spec c gate tss ret herror
  rw [hreturns.esp, hdeeper.esp]
  unfold Cpu.onStack Cpu.outer
  rw [if_pos hring, if_pos hring]
  show c.reg .esp - 60 + 4 + 56 = _
  grind

/-- Up to the call nothing but the words of the frame is different. -/
theorem called_outside (stub : Stub) (gate : Gate) (tss : Tss) (error : Option UInt32)
    (ret : UInt32) (c : Cpu) (herror : error.isSome = stub.hasError) {a : UInt32}
    (ha : ¬ (⟨below ((c.onStack tss).reg .esp) (15 + c.outer.length),
      4 * (15 + c.outer.length)⟩ : Span).Covers a) :
    (stub.called ret (c.deliver gate tss error)).mem a = c.mem a := by
  obtain ⟨-, hdeeper, -, -⟩ := called_spec c gate tss ret herror
  refine (hdeeper.mem a ha).trans ?_
  unfold Cpu.onStack
  split <;> rfl

/-- **The interrupted code goes on as the handler's record says**, in whichever ring it was and
whichever stub it was. -/
theorem stub_resumes {f : Registers → Registers} (stub : Stub) (gate : Gate) (tss : Tss)
    (error : Option UInt32) (ret : UInt32) (handler : Cpu → Cpu) (c : Cpu)
    (herror : error.isSome = stub.hasError) (hgate : gate.selector &&& 3 = 0)
    (hreturns : Returns f (stub.called ret (c.deliver gate tss error))
      (handler (stub.called ret (c.deliver gate tss error))))
    (hring : (f (interrupted stub tss error c)).cs.toUInt16 &&& 3 = 0 ↔ c.cpl = 0) :
    Resumed (f (interrupted stub tss error c)) c
      (stub.run ret handler (c.deliver gate tss error)) := by
  have hleft := run_left stub gate tss error ret handler c herror hgate hreturns
  obtain ⟨-, -, -, hss⟩ := called_spec c gate tss ret herror
  refine ⟨hleft.reg, ?_, hleft.cs, ?_, hleft.data, hleft.eip, hleft.eflags⟩
  · rw [hleft.esp]
    by_cases hc : c.cpl = 0
    · rw [if_pos hc, if_pos (hring.mpr hc)]
      exact run_esp stub gate tss error ret handler c herror hc hreturns
    · rw [if_neg hc, if_neg (fun h => hc (hring.mp h))]
  · rw [hleft.ss]
    by_cases hc : c.cpl = 0
    · rw [if_pos hc, if_pos (hring.mpr hc), hreturns.ss, hss, if_pos hc]
    · rw [if_neg hc, if_neg (fun h => hc (hring.mp h))]

end OsThing.Interrupts
