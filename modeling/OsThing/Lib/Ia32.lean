/-
The part of a 32-bit x86 processor that enters and leaves interrupts.

An instruction is a function on the state of the processor, under its mnemonic.  Addresses are
not translated, and a segment is its selector only: loading one never fails.  Of the flags
only the interrupt flag has a meaning here; the others are kept in `eflags` as they are.

`Cpu.deliver` is what the processor does at an interrupt before the first instruction of the
handler, for a gate to code that runs in ring 0, and `Cpu.iret` is the way back.  What an
instruction sequence leaves on the stack is told by `Cpu.Stacked`.
-/
import OsThing.Lib.Stack

namespace Ia32

open Ram Stack

inductive Reg
  | eax | ecx | edx | ebx | esp | ebp | esi | edi
  deriving DecidableEq, Repr

inductive Seg
  | es | cs | ss | ds | fs | gs
  deriving DecidableEq, Repr

structure Cpu where
  reg : Reg → UInt32
  seg : Seg → UInt16
  eip : UInt32
  eflags : UInt32
  mem : Memory

/-- An interrupt gate, as far as it is looked at. -/
structure Gate where
  offset : UInt32
  selector : UInt16
  dpl : UInt16
  deriving DecidableEq, Repr

/-- The stack for ring 0, from the task state segment. -/
structure Tss where
  ss0 : UInt16
  esp0 : UInt32

/-- The interrupt flag. -/
def IF : UInt32 := 0x200

namespace Cpu

variable (c : Cpu)

def setReg (r : Reg) (v : UInt32) : Cpu := { c with reg := Function.update c.reg r v }

def setSeg (s : Seg) (v : UInt16) : Cpu := { c with seg := Function.update c.seg s v }

/-- The low half of a register, such as `ax` of `eax`. -/
def low (r : Reg) : UInt16 := (c.reg r).toUInt16

def setLow (r : Reg) (v : UInt16) : Cpu :=
  c.setReg r ((c.reg r &&& 0xffff0000) ||| v.toUInt32)

def push (v : UInt32) : Cpu :=
  { c.setReg .esp (c.reg .esp - 4) with mem := setWord c.mem (c.reg .esp - 4) v }

/-- The word at the top of the stack. -/
def top : UInt32 := word c.mem (c.reg .esp)

/-- `add esp, n`. -/
def drop (n : UInt32) : Cpu := c.setReg .esp (c.reg .esp + n)

/-- `pop`, into another register than `esp`. -/
def pop (r : Reg) : Cpu := (c.drop 4).setReg r c.top

def pusha : Cpu :=
  [c.reg .eax, c.reg .ecx, c.reg .edx, c.reg .ebx, c.reg .esp, c.reg .ebp, c.reg .esi,
    c.reg .edi].foldl push c

def popa : Cpu :=
  (((((((c.pop .edi).pop .esi).pop .ebp).drop 4).pop .ebx).pop .edx).pop .ecx).pop .eax

def cli : Cpu := { c with eflags := c.eflags &&& ~~~IF }
def sti : Cpu := { c with eflags := c.eflags ||| IF }

/-- The current privilege level: the ring that the code runs in. -/
def cpl : UInt16 := c.seg .cs &&& 3

/-- The words that the processor pushes first if the stack is changed. -/
def outer : List UInt32 :=
  if c.cpl = 0 then [] else [c.reg .esp, (c.seg .ss).toUInt32]

/-- The stack that an interrupt uses: the current one in ring 0, else that of the task state
segment. -/
def onStack (tss : Tss) : Cpu :=
  if c.cpl = 0 then c else (c.setReg .esp tss.esp0).setSeg .ss tss.ss0

/-- Control goes through a gate, and interrupts are off. -/
def enter (gate : Gate) : Cpu :=
  { (c.setSeg .cs gate.selector).cli with eip := gate.offset }

/-- What the processor does at an interrupt: `error` is the error code, if there is one. -/
def deliver (gate : Gate) (tss : Tss) (error : Option UInt32) : Cpu :=
  let c' := c.outer.reverse.foldl push (c.onStack tss)
  let c' := ((c'.push c.eflags).push (c.seg .cs).toUInt32).push c.eip
  (error.elim c' c'.push).enter gate

/-- `int n` from code: the gate has to be open for the ring of the code. -/
def int (gate : Option Gate) (tss : Tss) : Option Cpu :=
  gate.bind fun gate => if c.cpl ≤ gate.dpl then some (c.deliver gate tss none) else none

/-- `iret`, which takes the stack of the outer ring too if it goes there. -/
def iret : Cpu :=
  let cs := (c.drop 4).top.toUInt16
  let c' := { (c.drop 12).setSeg .cs cs with eip := c.top, eflags := (c.drop 8).top }
  if c.cpl < cs &&& 3 then
    (c'.setReg .esp (c.drop 12).top).setSeg .ss (c.drop 16).top.toUInt16
  else c'

/-! ### What is on the stack -/

/-- The words are the top of the stack. -/
def Stacked (ws : List UInt32) : Prop := Holds c.mem (c.reg .esp) ws

end Cpu

open Cpu

section Fields

variable (c : Cpu) (r r' : Reg) (s s' : Seg) (v w : UInt32) (u : UInt16)

@[simp] theorem setReg_reg_self : (c.setReg r v).reg r = v := Function.update_self ..

theorem setReg_reg_ne (h : r' ≠ r) : (c.setReg r v).reg r' = c.reg r' :=
  Function.update_of_ne h ..

@[simp] theorem setReg_seg : (c.setReg r v).seg = c.seg := rfl
@[simp] theorem setReg_mem : (c.setReg r v).mem = c.mem := rfl
@[simp] theorem setReg_eflags : (c.setReg r v).eflags = c.eflags := rfl
@[simp] theorem setSeg_seg_self : (c.setSeg s u).seg s = u := Function.update_self ..

theorem setSeg_seg_ne (h : s' ≠ s) : (c.setSeg s u).seg s' = c.seg s' :=
  Function.update_of_ne h ..

@[simp] theorem setSeg_reg : (c.setSeg s u).reg = c.reg := rfl
@[simp] theorem push_esp : (c.push v).reg .esp = c.reg .esp - 4 := setReg_reg_self c .esp _

theorem push_reg (h : r ≠ .esp) : (c.push v).reg r = c.reg r := Function.update_of_ne h ..

@[simp] theorem push_seg : (c.push v).seg = c.seg := rfl
@[simp] theorem drop_esp : (c.drop v).reg .esp = c.reg .esp + v := setReg_reg_self c .esp _

theorem drop_reg (h : r ≠ .esp) : (c.drop v).reg r = c.reg r := Function.update_of_ne h ..

@[simp] theorem drop_seg : (c.drop v).seg = c.seg := rfl
@[simp] theorem drop_mem : (c.drop v).mem = c.mem := rfl

@[simp] theorem pop_esp (h : r ≠ .esp) : (c.pop r).reg .esp = c.reg .esp + 4 :=
  (setReg_reg_ne _ _ _ _ (Ne.symm h)).trans (drop_esp ..)

@[simp] theorem pop_reg_self : (c.pop r).reg r = c.top := Function.update_self ..

theorem pop_reg_ne (h : r' ≠ r) (hesp : r' ≠ .esp) : (c.pop r).reg r' = c.reg r' :=
  (setReg_reg_ne _ _ _ _ h).trans (drop_reg _ _ _ hesp)

@[simp] theorem pop_seg : (c.pop r).seg = c.seg := rfl
@[simp] theorem pop_mem : (c.pop r).mem = c.mem := rfl
@[simp] theorem sti_reg : c.sti.reg = c.reg := rfl
@[simp] theorem sti_seg : c.sti.seg = c.seg := rfl
@[simp] theorem sti_mem : c.sti.mem = c.mem := rfl

@[simp] theorem enter_cs (gate : Gate) : (c.enter gate).seg .cs = gate.selector :=
  setSeg_seg_self c .cs _

theorem enter_seg (gate : Gate) (h : s ≠ .cs) : (c.enter gate).seg s = c.seg s :=
  setSeg_seg_ne c .cs s _ h

end Fields

variable {c c' : Cpu} {ws : List UInt32} {w : UInt32}

theorem stacked_nil : c.Stacked [] := trivial

theorem Cpu.Stacked.push (h : c.Stacked ws) (hlen : ws.length + 1 ≤ 2 ^ 30) (w : UInt32) :
    (c.push w).Stacked (w :: ws) := by
  show Holds _ ((c.push w).reg .esp) _
  rw [push_esp]
  exact Holds.push h hlen w

theorem Cpu.Stacked.top (h : c.Stacked (w :: ws)) : c.top = w := h.1

theorem Cpu.Stacked.drop (h : c.Stacked (w :: ws)) : (c.drop 4).Stacked ws := by
  show Holds _ ((c.drop 4).reg .esp) _
  rw [drop_esp]
  exact h.2

theorem Cpu.Stacked.pop (h : c.Stacked (w :: ws)) {r : Reg} (hr : r ≠ .esp) :
    (c.pop r).Stacked ws := by
  show Holds _ ((c.pop r).reg .esp) _
  rw [pop_esp _ _ hr]
  exact h.2

/-- The same stack, seen from a state that differs elsewhere. -/
theorem Cpu.Stacked.of_eq (h : c.Stacked ws) (hesp : c'.reg .esp = c.reg .esp)
    (hmem : c'.mem = c.mem) : c'.Stacked ws := by
  unfold Cpu.Stacked
  rw [hesp, hmem]
  exact h

theorem Cpu.Stacked.sti (h : c.Stacked ws) : c.sti.Stacked ws := h

/-! ### Pushing several words -/

/-- The stack is `n` words deeper, and no byte outside these words is different. -/
structure Deeper (c c' : Cpu) (n : Nat) : Prop where
  esp : c'.reg .esp = below (c.reg .esp) n
  mem : ∀ a, ¬ (⟨below (c.reg .esp) n, 4 * n⟩ : Span).Covers a → c'.mem a = c.mem a

theorem deeper_refl (c : Cpu) : Deeper c c 0 := ⟨(below_zero _).symm, fun _ _ => rfl⟩

theorem deeper_push (c : Cpu) (w : UInt32) : Deeper c (c.push w) 1 :=
  ⟨push_esp c w, fun _ ha => setWord_outside c.mem w ha⟩

theorem Deeper.trans {c'' : Cpu} {m n : Nat} (h : Deeper c c' m) (h' : Deeper c' c'' n) :
    Deeper c c'' (m + n) := by
  refine ⟨by rw [h'.esp, h.esp, below_add], fun a ha => ?_⟩
  have hnear : c''.mem a = c'.mem a := by
    refine h'.mem a fun hcov => ha ?_
    rw [h.esp, below_add] at hcov
    exact below_inside (Nat.le_refl _) _ a hcov
  refine hnear.trans (h.mem a fun hcov => ha ?_)
  have hin := below_inside (k := m + n) (m := 0) (n := m) (by omega) (c.reg .esp) a
  rw [Nat.zero_add] at hin
  exact hin hcov

/-- The same depth, seen from states that differ elsewhere. -/
theorem Deeper.of_eq {d d' : Cpu} {n : Nat} (h : Deeper c c' n) (hesp : d.reg .esp = c.reg .esp)
    (hmem : d.mem = c.mem) (hesp' : d'.reg .esp = c'.reg .esp) (hmem' : d'.mem = c'.mem) :
    Deeper d d' n := by
  refine ⟨by rw [hesp', hesp, h.esp], ?_⟩
  rw [hesp, hmem, hmem']
  exact h.mem

/-- After some words were pushed, nothing but `esp` and the memory is different. -/
structure Pushed (c c' : Cpu) (n : Nat) : Prop extends Deeper c c' n where
  reg : ∀ r, r ≠ .esp → c'.reg r = c.reg r
  seg : c'.seg = c.seg
  eflags : c'.eflags = c.eflags

theorem pushed_refl (c : Cpu) : Pushed c c 0 := ⟨deeper_refl c, fun _ _ => rfl, rfl, rfl⟩

theorem Pushed.trans {c'' : Cpu} {m n : Nat} (h : Pushed c c' m) (h' : Pushed c' c'' n) :
    Pushed c c'' (m + n) :=
  ⟨h.toDeeper.trans h'.toDeeper, fun r hr => (h'.reg r hr).trans (h.reg r hr),
    h'.seg.trans h.seg, h'.eflags.trans h.eflags⟩

theorem pushed_push (c : Cpu) (w : UInt32) : Pushed c (c.push w) 1 :=
  ⟨deeper_push c w, fun _ hr => push_reg c _ w hr, rfl, rfl⟩

theorem pushed_foldl : ∀ (new : List UInt32) (c : Cpu), Pushed c (new.foldl push c) new.length
  | [], c => pushed_refl c
  | w :: new, c => by
      rw [List.length_cons, Nat.add_comm]
      exact (pushed_push c w).trans (pushed_foldl new (c.push w))

theorem mem_foldl : ∀ (new : List UInt32) (c : Cpu),
    (new.foldl push c).mem = pushAll c.mem (c.reg .esp) new
  | [], _ => rfl
  | w :: new, c => by
      rw [List.foldl_cons, mem_foldl new, push_esp]
      rfl

theorem Cpu.Stacked.foldl (new : List UInt32) (h : c.Stacked ws)
    (hlen : new.length + ws.length ≤ 2 ^ 30) :
    (new.foldl Cpu.push c).Stacked (new.reverse ++ ws) := by
  unfold Cpu.Stacked
  rw [mem_foldl, (pushed_foldl new c).esp]
  exact Holds.pushAll new h hlen

/-! ### All registers at once -/

/-- What `pusha` pushes, the last word first. -/
def saved (c : Cpu) : List UInt32 :=
  [c.reg .edi, c.reg .esi, c.reg .ebp, c.reg .esp, c.reg .ebx, c.reg .edx, c.reg .ecx, c.reg .eax]

theorem pushed_pusha (c : Cpu) : Pushed c c.pusha 8 := pushed_foldl _ c

theorem Cpu.Stacked.pusha (h : c.Stacked ws) (hlen : 8 + ws.length ≤ 2 ^ 30) :
    c.pusha.Stacked (saved c ++ ws) :=
  h.foldl _ hlen

/-- `popa` takes the eight words into the registers, and leaves out the one of `esp`. -/
theorem Cpu.Stacked.popa {edi esi ebp esp ebx edx ecx eax : UInt32}
    (h : c.Stacked (edi :: esi :: ebp :: esp :: ebx :: edx :: ecx :: eax :: ws)) :
    c.popa.Stacked ws ∧ c.popa.seg = c.seg ∧ c.popa.eflags = c.eflags ∧ c.popa.mem = c.mem ∧
      c.popa.reg .esp = c.reg .esp + 32 ∧
      c.popa.reg .eax = eax ∧ c.popa.reg .ecx = ecx ∧ c.popa.reg .edx = edx ∧
      c.popa.reg .ebx = ebx ∧ c.popa.reg .ebp = ebp ∧ c.popa.reg .esi = esi ∧
      c.popa.reg .edi = edi := by
  have h₁ := h.pop (r := .edi) (by decide)
  have h₂ := h₁.pop (r := .esi) (by decide)
  have h₃ := h₂.pop (r := .ebp) (by decide)
  have h₄ := h₃.drop
  have h₅ := h₄.pop (r := .ebx) (by decide)
  have h₆ := h₅.pop (r := .edx) (by decide)
  have h₇ := h₆.pop (r := .ecx) (by decide)
  refine ⟨h₇.pop (by decide), rfl, rfl, rfl, ?_, ?_, ?_, ?_, ?_, ?_, ?_, ?_⟩
  · unfold Cpu.popa
    simp only [pop_esp, drop_esp, ne_eq, reduceCtorEq, not_false_eq_true]
    grind
  · exact (pop_reg_self ..).trans h₇.top
  · exact (pop_reg_ne _ _ _ (by decide) (by decide)).trans ((pop_reg_self ..).trans h₆.top)
  · simp only [Cpu.popa, pop_reg_ne, pop_reg_self, ne_eq, reduceCtorEq, not_false_eq_true]
    exact h₅.top
  · simp only [Cpu.popa, pop_reg_ne, pop_reg_self, ne_eq, reduceCtorEq, not_false_eq_true]
    exact h₄.top
  · simp only [Cpu.popa, pop_reg_ne, pop_reg_self, drop_reg, ne_eq, reduceCtorEq,
      not_false_eq_true]
    exact h₂.top
  · simp only [Cpu.popa, pop_reg_ne, pop_reg_self, drop_reg, ne_eq, reduceCtorEq,
      not_false_eq_true]
    exact h₁.top
  · simp only [Cpu.popa, pop_reg_ne, pop_reg_self, drop_reg, ne_eq, reduceCtorEq,
      not_false_eq_true]
    exact h.top

/-! ### Entering and leaving -/

/-- What an interrupt finds and leaves, the words `ws` being on the stack before. -/
structure Delivered (c c' : Cpu) (gate : Gate) (tss : Tss) (error : Option UInt32)
    (ws : List UInt32) : Prop where
  stacked : c'.Stacked
    (error.toList ++ c.eip :: (c.seg .cs).toUInt32 :: c.eflags :: (c.outer ++ ws))
  deeper : Deeper (c.onStack tss) c' (error.toList.length + 3 + c.outer.length)
  reg : ∀ r, r ≠ .esp → c'.reg r = c.reg r
  cs : c'.seg .cs = gate.selector
  ss : c'.seg .ss = if c.cpl = 0 then c.seg .ss else tss.ss0
  seg : ∀ s, s ≠ .cs → s ≠ .ss → c'.seg s = c.seg s
  eip : c'.eip = gate.offset

theorem outer_length_le (c : Cpu) : c.outer.length ≤ 2 := by
  unfold Cpu.outer
  split <;> simp

theorem onStack_reg (c : Cpu) (tss : Tss) {r : Reg} (hr : r ≠ .esp) :
    (c.onStack tss).reg r = c.reg r := by
  unfold Cpu.onStack
  split
  · rfl
  · exact setReg_reg_ne _ _ _ _ hr

theorem onStack_seg (c : Cpu) (tss : Tss) {s : Seg} (hs : s ≠ .ss) :
    (c.onStack tss).seg s = c.seg s := by
  unfold Cpu.onStack
  split
  · rfl
  · exact setSeg_seg_ne _ _ _ _ hs

theorem onStack_ss (c : Cpu) (tss : Tss) :
    (c.onStack tss).seg .ss = if c.cpl = 0 then c.seg .ss else tss.ss0 := by
  unfold Cpu.onStack
  split
  · rfl
  · exact setSeg_seg_self ..

/-- The words that an interrupt pushes, in the order in which it does. -/
theorem deliver_pushes (c : Cpu) (gate : Gate) (tss : Tss) (error : Option UInt32) :
    c.deliver gate tss error =
      ((c.outer.reverse ++ [c.eflags, (c.seg .cs).toUInt32, c.eip] ++ error.toList).foldl push
        (c.onStack tss)).enter gate := by
  unfold Cpu.deliver
  rw [List.foldl_append, List.foldl_append]
  cases error <;> rfl

theorem delivered (gate : Gate) {tss : Tss} (error : Option UInt32)
    (h : (c.onStack tss).Stacked ws) (hlen : 6 + ws.length ≤ 2 ^ 30) :
    Delivered c (c.deliver gate tss error) gate tss error ws := by
  have houter := outer_length_le c
  have herror : error.toList.length ≤ 1 := by cases error <;> simp
  rw [deliver_pushes]
  have hpushed := pushed_foldl
    (c.outer.reverse ++ [c.eflags, (c.seg .cs).toUInt32, c.eip] ++ error.toList) (c.onStack tss)
  have hlength : (c.outer.reverse ++ [c.eflags, (c.seg .cs).toUInt32, c.eip] ++
      error.toList).length = error.toList.length + 3 + c.outer.length := by
    simp only [List.length_append, List.length_reverse, List.length_cons, List.length_nil]
    omega
  have hstacked := h.foldl
    (c.outer.reverse ++ [c.eflags, (c.seg .cs).toUInt32, c.eip] ++ error.toList)
    (by rw [hlength]; omega)
  rw [hlength] at hpushed
  have hwords : (c.outer.reverse ++ [c.eflags, (c.seg .cs).toUInt32, c.eip] ++
      error.toList).reverse ++ ws =
      error.toList ++ c.eip :: (c.seg .cs).toUInt32 :: c.eflags :: (c.outer ++ ws) := by
    cases error <;> simp
  rw [hwords] at hstacked
  refine ⟨hstacked.of_eq rfl rfl, hpushed.toDeeper.of_eq rfl rfl rfl rfl, ?_, ?_, ?_, ?_, rfl⟩
  · exact fun r hr => (hpushed.reg r hr).trans (onStack_reg c tss hr)
  · exact enter_cs ..
  · rw [enter_seg _ _ _ (by decide), hpushed.seg, onStack_ss]
  · exact fun s hcs hss => by rw [enter_seg _ _ _ hcs, hpushed.seg, onStack_seg c tss hss]

theorem drop_drop (c : Cpu) (v w : UInt32) : (c.drop v).drop w = c.drop (v + w) := by
  unfold Cpu.drop Cpu.setReg
  simp only [Function.update_self, Function.update_idem, UInt32.add_assoc]

/-- `iret` to the same ring. -/
theorem iret_same {eip cs eflags : UInt32} (h : c.Stacked (eip :: cs :: eflags :: ws))
    (hring : ¬ c.cpl < cs.toUInt16 &&& 3) :
    c.iret = { (c.drop 12).setSeg .cs cs.toUInt16 with eip := eip, eflags := eflags } := by
  have hflags := h.drop.drop.top
  rw [drop_drop] at hflags
  unfold Cpu.iret
  simp only [h.top, h.drop.top]
  rw [if_neg hring, ← hflags]
  rfl

/-- `iret` to an outer ring, with its stack. -/
theorem iret_outer {eip cs eflags esp ss : UInt32}
    (h : c.Stacked (eip :: cs :: eflags :: esp :: ss :: ws))
    (hring : c.cpl < cs.toUInt16 &&& 3) :
    c.iret = ({ c.setReg .esp esp with eip := eip, eflags := eflags }.setSeg .cs
      cs.toUInt16).setSeg .ss ss.toUInt16 := by
  have hflags := h.drop.drop.top
  have hesp := h.drop.drop.drop.top
  have hss := h.drop.drop.drop.drop.top
  simp only [drop_drop] at hflags hesp hss
  unfold Cpu.iret
  simp only [h.top, h.drop.top]
  rw [if_pos hring, ← hflags, ← hesp, ← hss]
  unfold Cpu.setReg Cpu.setSeg Cpu.drop Cpu.setReg
  simp only [Function.update_idem]
  rfl

end Ia32
