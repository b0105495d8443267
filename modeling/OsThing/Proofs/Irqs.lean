/-
Every line that asks is handled.

A line that is in service keeps back all that come behind it, so a controller that is not told
of the end would not interrupt again.  `irq_handler` tells it before the handler runs, and both
of them if the number is 40 or more, which is where the second one's vectors begin.  So nothing
is in service but between the interrupt and that call (`IrqInv`), and no handler can keep other
lines back, not even one that does not return.
-/
import OsThing.Kern.Irqs
import OsThing.Lib.Runs

namespace OsThing.Irq

open Interrupts Pic Runs

/-- Each time that a line began to ask it was handled, or is about to be, or still asks. -/
def Balanced (s : Irqs) : Prop :=
  ∀ line, line ≠ Line.wire →
    s.handled.count (lineNumber line) + (if s.entered = some (.irq line.number) then 1 else 0) +
      (if s.pics.pending line then 1 else 0) = s.asked line

/-- The interrupt that the processor would take is the one of the first line that asks. -/
def FirstIsNext (s : Irqs) : Prop :=
  s.pics.inta.map (fun r => stubOf r.1) =
    (order.find? s.pics.pending).map fun line => some (.irq line.number)

/-- If the processor takes interrupts, all lines that ask are handled, one after the other. -/
def AllHandled (s : Irqs) : Prop :=
  ∃ s', runAll irqStep s (rounds (order.filter s.pics.pending).length) = some s' ∧
    s'.handled = s.handled ++ (order.filter s.pics.pending).map lineNumber ∧
    ∀ line, s'.pics.pending line = false

/-! ### The controllers -/

section Controllers

variable {pics : Pair}

theorem remap_ready (pics : Pair) : (remap pics).Ready 0x20 0x28 ∧ (remap pics).Serves none := by
  have hnone : (fun i : Fin 8 => (0 : UInt8).toNat.testBit i) = noLine :=
    funext fun i => Nat.zero_testBit i
  exact ⟨⟨⟨hnone, rfl, rfl, rfl, rfl⟩, ⟨hnone, rfl, rfl, rfl, rfl⟩, rfl⟩, rfl, rfl⟩

theorem stubOf_line (line : Line) : stubOf (lineVector 0x20 0x28 line) = some (.irq line.number) := by
  cases line with
  | first i => revert i; decide
  | second i => revert i; decide

theorem lineNumber_inj {line line' : Line} (h : lineNumber line = lineNumber line') :
    line = line' := by
  cases line with
  | first i =>
      cases line' with
      | first j => exact congrArg _ (by revert i j; decide)
      | second j => exact absurd h (by revert i j; decide)
  | second i =>
      cases line' with
      | first j => exact absurd h (by revert i j; decide)
      | second j => exact congrArg _ (by revert i j; decide)

theorem irq_inj {line line' : Line} (h : Stub.irq line.number = .irq line'.number) : line = line' :=
  lineNumber_inj (congrArg (fun stub => stub.number.toUInt32) h)

/-- The vectors of the second controller begin at 40. -/
theorem lineNumber_first (i : Fin 8) : ¬ lineNumber (.first i) ≥ 40 := by
  revert i
  decide

theorem lineNumber_second (i : Fin 8) : lineNumber (.second i) ≥ 40 := by
  revert i
  decide

theorem outb_eoi (pics : Pair) : pics.outb 0x20 0x20 = { pics with first := pics.first.eoi } := rfl

theorem outb_eoi_second (pics : Pair) :
    pics.outb 0xa0 0x20 = { pics with second := pics.second.eoi } := rfl

/-- `irq_handler` ends what is in service, and changes nothing else. -/
theorem irqHandler_spec {line : Line} (h : pics.Ready 0x20 0x28) (hserves : pics.Serves (some line)) :
    (irqHandler (lineNumber line) pics).Ready 0x20 0x28 ∧
      (irqHandler (lineNumber line) pics).Serves none ∧
      (irqHandler (lineNumber line) pics).pending = pics.pending := by
  cases line with
  | first i =>
      rw [irqHandler, if_neg (lineNumber_first i), outb_eoi, Controller.eoi_only hserves.1]
      exact ⟨⟨⟨h.first.imr, h.first.base, h.first.cascade, h.first.autoEoi, h.first.expects⟩,
        h.second, h.wire⟩, ⟨rfl, hserves.2⟩, funext fun other => by cases other <;> rfl⟩
  | second i =>
      rw [irqHandler, if_pos (lineNumber_second i), outb_eoi_second, outb_eoi, Controller.eoi_only hserves.1,
        Controller.eoi_only hserves.2]
      exact ⟨⟨⟨h.first.imr, h.first.base, h.first.cascade, h.first.autoEoi, h.first.expects⟩,
        ⟨h.second.imr, h.second.base, h.second.cascade, h.second.autoEoi, h.second.expects⟩,
        h.wire⟩, ⟨rfl, rfl⟩, funext fun other => by cases other <;> rfl⟩

end Controllers

/-! ### One step -/

/-- Nothing is in service but between an interrupt and the call of `irq_handler`. -/
structure IrqInv (s : Irqs) : Prop where
  ready : s.pics.Ready 0x20 0x28
  balanced : Balanced s
  serves : s.entered = none ∧ s.pics.Serves none ∨
    ∃ line, line ≠ Line.wire ∧ s.entered = some (.irq line.number) ∧ s.pics.Serves (some line)

section Step

variable {s s' : Irqs}

/-- While nothing has been entered, nothing is in service. -/
theorem IrqInv.idle (h : IrqInv s) (hentered : s.entered = none) : s.pics.Serves none := by
  rcases h.serves with ⟨-, hidle⟩ | ⟨line, -, hsome, -⟩
  · exact hidle
  · rw [hentered] at hsome
    cases hsome

theorem IrqInv.entered_line (h : IrqInv s) {stub : Stub} (hentered : s.entered = some stub) :
    ∃ line, line ≠ Line.wire ∧ stub = .irq line.number ∧ s.pics.Serves (some line) := by
  rcases h.serves with ⟨hnone, -⟩ | ⟨line, hwire, hsome, hserves⟩
  · rw [hentered] at hnone
    cases hnone
  · exact ⟨line, hwire, Option.some.inj (hentered.symm.trans hsome), hserves⟩

theorem IrqInv.raise (h : IrqInv s) {line : Line} (hstep : irqStep s (.raise line) = some s') :
    IrqInv s' := by
  by_cases hwire : line = Line.wire
  · rw [irqStep, if_pos hwire] at hstep
    cases hstep
  rw [irqStep, if_neg hwire] at hstep
  obtain rfl := Option.some.inj hstep
  refine ⟨h.ready.raise hwire, fun other hother => ?_, ?_⟩
  · have hbalanced := h.balanced other hother
    dsimp only
    rw [Pair.raise_pending]
    by_cases hsame : other = line
    · subst hsame
      rw [Function.update_self, if_pos rfl]
      cases hpending : s.pics.pending other with
      | true =>
          rw [hpending, if_pos rfl] at hbalanced
          rw [if_pos rfl]
          exact hbalanced
      | false =>
          rw [hpending, if_neg Bool.false_ne_true, Nat.add_zero] at hbalanced
          rw [if_neg Bool.false_ne_true, Function.update_self, hbalanced]
    · have hasked : (if s.pics.pending line then s.asked
          else Function.update s.asked line (s.asked line + 1)) other = s.asked other := by
        split
        · rfl
        · exact Function.update_of_ne hsame _ _
      rw [Function.update_of_ne hsame, hasked]
      exact hbalanced
  · rcases h.serves with ⟨hnone, hidle⟩ | ⟨served, hserved, hsome, hserves⟩
    · exact .inl ⟨hnone, hidle.raise line⟩
    · exact .inr ⟨served, hserved, hsome, hserves.raise line⟩

/-- An interrupt that is taken is that of the first line that asks. -/
theorem IrqInv.take_cases (h : IrqInv s) (hstep : irqStep s .take = some s') :
    s.entered = none ∧ ∃ line, order.find? s.pics.pending = some line ∧
      s' = { s with
        pics := s.pics.take line, enabled := false, entered := some (.irq line.number) } := by
  rw [irqStep] at hstep
  split_ifs at hstep with hgo
  rw [h.ready.inta (h.idle hgo.2)] at hstep
  cases hfirst : order.find? s.pics.pending with
  | none => rw [hfirst] at hstep; cases hstep
  | some line =>
      rw [hfirst, Option.map_some, Option.bind_some] at hstep
      dsimp only at hstep
      rw [stubOf_line] at hstep
      exact ⟨hgo.2, line, rfl, (Option.some.inj hstep).symm⟩

theorem IrqInv.take (h : IrqInv s) (hstep : irqStep s .take = some s') : IrqInv s' := by
  obtain ⟨hnone, line, hfirst, rfl⟩ := h.take_cases hstep
  have hpending : s.pics.pending line = true := List.find?_some hfirst
  have hwire : line ≠ Line.wire := fun hline => by
    rw [hline, h.ready.wire] at hpending
    cases hpending
  refine ⟨h.ready.take line, fun other hother => ?_, .inr ⟨line, hwire, rfl,
    h.ready.take_serves (h.idle hnone) line⟩⟩
  have hbalanced := h.balanced other hother
  dsimp only
  rw [hnone] at hbalanced
  rw [h.ready.take_pending]
  by_cases hsame : other = line
  · subst hsame
    rw [hpending] at hbalanced
    rw [Function.update_self]
    simpa using hbalanced
  · have hstub : ¬ Stub.irq line.number = .irq other.number := fun hstub => hsame (irq_inj hstub).symm
    rw [Function.update_of_ne hsame]
    simpa [hstub] using hbalanced

theorem IrqInv.handle (h : IrqInv s) (hstep : irqStep s .handle = some s') :
    IrqInv s' ∧ ∃ line, s.entered = some (.irq line.number) ∧
      s'.handled = s.handled ++ [lineNumber line] ∧ s'.pics.pending = s.pics.pending ∧
      s'.entered = none := by
  obtain ⟨stub, hentered, hs'⟩ := Option.map_eq_some_iff.mp hstep
  obtain ⟨line, hwire, rfl, hserves⟩ := h.entered_line hentered
  obtain ⟨hready, hidle, hpending⟩ := irqHandler_spec h.ready hserves
  obtain rfl : { s with
      pics := irqHandler (lineNumber line) s.pics
      entered := none
      handled := s.handled ++ [lineNumber line] } = s' := hs'
  refine ⟨⟨hready, fun other hother => ?_, .inl ⟨rfl, hidle⟩⟩, line, hentered, rfl, hpending, rfl⟩
  have hbalanced := h.balanced other hother
  dsimp only
  rw [hpending, List.count_append]
  rw [hentered] at hbalanced
  by_cases hsame : line = other
  · subst hsame
    simpa using hbalanced
  · have hstub : ¬ Stub.irq line.number = .irq other.number := fun hstub => hsame (irq_inj hstub)
    have hnumber : ¬ lineNumber line = lineNumber other := fun hnumber => hsame (lineNumber_inj hnumber)
    simpa [hstub, hnumber] using hbalanced

theorem IrqInv.step (h : IrqInv s) {op : IrqOp} (hstep : irqStep s op = some s') : IrqInv s' := by
  cases op with
  | raise line => exact h.raise hstep
  | take => exact h.take hstep
  | handle => exact (h.handle hstep).1
  | setEnabled on =>
      rw [irqStep] at hstep
      split_ifs at hstep with hnone
      obtain rfl := Option.some.inj hstep
      exact ⟨h.ready, h.balanced, h.serves⟩

/-- The next interrupt is taken and handled. -/
theorem IrqInv.round (h : IrqInv s) (hnone : s.entered = none) {line : Line} {rest : List Line}
    (hlines : order.filter s.pics.pending = line :: rest) :
    ∃ s', runAll irqStep s [.setEnabled true, .take, .handle] = some s' ∧ IrqInv s' ∧
      s'.entered = none ∧ order.filter s'.pics.pending = rest ∧
      s'.handled = s.handled ++ [lineNumber line] := by
  have hfirst : order.find? s.pics.pending = some line := by
    rw [← List.head?_filter, hlines, List.head?_cons]
  have hset : irqStep s (.setEnabled true) = some { s with enabled := true } := if_pos hnone
  have hinv₁ := h.step hset
  have htake : irqStep { s with enabled := true } .take = some { s with
      pics := s.pics.take line, enabled := false, entered := some (.irq line.number) } := by
    rw [irqStep, if_pos ⟨rfl, hnone⟩, h.ready.inta (h.idle hnone), hfirst, Option.map_some,
      Option.bind_some]
    dsimp only
    rw [stubOf_line]
    rfl
  have hinv₂ := hinv₁.step htake
  obtain ⟨s', hhandle⟩ : ∃ s', irqStep { s with
      pics := s.pics.take line, enabled := false, entered := some (.irq line.number) } .handle =
      some s' := ⟨_, rfl⟩
  obtain ⟨hinv, other, hother, hhandled, hpending, hnone'⟩ := hinv₂.handle hhandle
  obtain rfl : line = other := irq_inj (Option.some.inj hother)
  refine ⟨s', ?_, hinv, hnone', ?_, hhandled⟩
  · rw [runAll, hset, Option.bind_some, runAll, htake, Option.bind_some, runAll, hhandle]
    rfl
  · rw [hpending, h.ready.take_pending]
    exact filter_update hlines

end Step

/-- The lines that ask are handled in their order. -/
theorem IrqInv.allHandled : ∀ {lines : List Line} {s : Irqs}, IrqInv s → s.entered = none →
    order.filter s.pics.pending = lines → AllHandled s := by
  intro lines
  induction lines with
  | nil =>
      intro s h hnone hlines
      refine ⟨s, ?_, ?_, fun line => ?_⟩
      · rw [hlines]
        rfl
      · rw [hlines, List.map_nil, List.append_nil]
      · by_cases hwire : line = Line.wire
        · rw [hwire]
          exact h.ready.wire
        · have hnot := List.filter_eq_nil_iff.mp hlines line (mem_order hwire)
          simpa using hnot
  | cons line rest ih =>
      intro s h hnone hlines
      obtain ⟨s₁, hround, hinv, hnone₁, hrest, hhandled₁⟩ := h.round hnone hlines
      obtain ⟨s', hrun, hhandled, hquiet⟩ := ih hinv hnone₁ hrest
      rw [hrest] at hrun hhandled
      refine ⟨s', ?_, ?_, hquiet⟩
      · rw [hlines, List.length_cons, rounds, List.replicate_succ, List.flatten_cons, runAll_append,
          hround]
        exact hrun
      · rw [hhandled, hhandled₁, hlines, List.map_cons, List.append_assoc]
        rfl

/--
**No line that asks is forgotten.**  After `init_idt`, whatever the devices do and whenever the
processor takes interrupts: each time that a line began to ask, its own number was handled once,
or is about to be, or the line still asks.  Outside of the first instructions of `irq_handler`
the next interrupt is the one of the first line that asks, and no handler, and no line that was
handled before, keeps any of them from being handled.
-/
theorem irqs_are_handled (pics : Pair) (ops : List IrqOp) :
    Always irqStep (fun s => Balanced s ∧ (s.entered = none → FirstIsNext s ∧ AllHandled s))
      (.start pics) ops := by
  have hstart : IrqInv (.start pics) := by
    obtain ⟨hready, hidle⟩ := remap_ready pics
    refine ⟨hready, fun line _ => ?_, .inl ⟨rfl, hidle⟩⟩
    have hquiet : (remap pics).pending line = false := by cases line <;> rfl
    show 0 + 0 + (if (remap pics).pending line then 1 else 0) = 0
    rw [hquiet]
    rfl
  have hinv : Always irqStep IrqInv (.start pics) ops :=
    always_of_inv (fun s op s' h hstep _ => h.step hstep) hstart (everyStep_true _)
  refine hinv.mono fun s h => ⟨h.balanced, fun hnone => ⟨?_, h.allHandled hnone rfl⟩⟩
  rw [FirstIsNext, h.ready.inta (h.idle hnone), Option.map_map]
  exact congrArg (fun f => (order.find? s.pics.pending).map f) (funext stubOf_line)

end OsThing.Irq
