/-
The interrupt controllers of a PC: two 8259A, of which the second one is wired to line 2 of the
first.

A controller keeps which lines have asked, which are in service and which are masked.  A line
may interrupt while no line that comes before it, and not itself, is in service; so one that was
taken keeps all behind it waiting until the end of its interrupt is told.  Since the first
controller serves line 2 all the while that the second one serves one of its own, that takes two
tellings.

Lines are edge-triggered: one that asks again before it was taken has asked once.  A command
that rotates the priorities, polls, or reads a register changes nothing here.
-/
import Mathlib.Data.List.FinRange
import Mathlib.Logic.Function.Basic

namespace Pic

/-- The words of the initialisation that may follow the first one. -/
inductive InitWord
  | icw2
  | icw3
  | icw4
  deriving DecidableEq

structure Controller where
  irr : Fin 8 → Bool
  isr : Fin 8 → Bool
  imr : Fin 8 → Bool
  base : UInt8
  /-- `ICW3`: the lines that another controller is wired to, or the line that this one is. -/
  cascade : UInt8
  autoEoi : Bool
  expects : List InitWord

/-- No line, and one line. -/
def noLine : Fin 8 → Bool := fun _ => false
def only (i : Fin 8) : Fin 8 → Bool := fun j => decide (j = i)

namespace Controller

variable (p : Controller)

/-- The first word of the initialisation. -/
def icw1 (v : UInt8) : Controller where
  irr := noLine
  isr := noLine
  imr := noLine
  base := p.base
  cascade := p.cascade
  autoEoi := false
  expects := .icw2 :: ((if v.toNat.testBit 1 then [] else [.icw3]) ++
    if v.toNat.testBit 0 then [.icw4] else [])

/-- The end of the interrupt that comes first. -/
def eoi : Controller :=
  match (List.finRange 8).find? p.isr with
  | some i => { p with isr := Function.update p.isr i false }
  | none => p

/-- A byte for the even port. -/
def command (v : UInt8) : Controller :=
  if v.toNat.testBit 4 then p.icw1 v else if v = 0x20 then p.eoi else p

/-- A byte for the odd port. -/
def data (v : UInt8) : Controller :=
  match p.expects with
  | .icw2 :: rest => { p with base := v &&& 0xf8, expects := rest }
  | .icw3 :: rest => { p with cascade := v, expects := rest }
  | .icw4 :: rest => { p with autoEoi := v.toNat.testBit 1, expects := rest }
  | [] => { p with imr := fun i => v.toNat.testBit i }

def mayInterrupt (i : Fin 8) : Bool :=
  p.irr i && !p.imr i && (List.finRange 8).all fun j => decide (i < j) || !p.isr j

/-- The line that interrupts. -/
def next : Option (Fin 8) :=
  if p.expects = [] then (List.finRange 8).find? p.mayInterrupt else none

/-- The interrupt of a line is taken. -/
def serve (i : Fin 8) : Controller :=
  { p with irr := Function.update p.irr i false, isr := Function.update p.isr i (!p.autoEoi) }

def vector (i : Fin 8) : UInt8 := p.base + UInt8.ofNat i

end Controller

/-! ### The two of them -/

structure Pair where
  first : Controller
  second : Controller

/-- A line of the first or of the second controller. -/
inductive Line
  | first (i : Fin 8)
  | second (i : Fin 8)
  deriving DecidableEq

def Line.number : Line → UInt8
  | .first i => UInt8.ofNat i
  | .second i => 8 + UInt8.ofNat i

/-- The line of the first controller that is not a line of a device. -/
def Line.wire : Line := .first 2

namespace Pair

variable (x : Pair)

def outb (port : UInt16) (v : UInt8) : Pair :=
  if port = 0x20 then { x with first := x.first.command v }
  else if port = 0x21 then { x with first := x.first.data v }
  else if port = 0xa0 then { x with second := x.second.command v }
  else if port = 0xa1 then { x with second := x.second.data v }
  else x

def pending : Line → Bool
  | .first i => x.first.irr i
  | .second i => x.second.irr i

/-- A device asks. -/
def raise : Line → Pair
  | .first i => { x with first := { x.first with irr := Function.update x.first.irr i true } }
  | .second i => { x with second := { x.second with irr := Function.update x.second.irr i true } }

/-- The first controller as it is wired. -/
def wired : Controller :=
  { x.first with irr := Function.update x.first.irr 2 x.second.next.isSome }

/-- The number for a line of the first controller, which the second one gives if it is there. -/
def answer (i : Fin 8) : Option (UInt8 × Pair) :=
  if x.first.cascade.toNat.testBit i then
    if x.second.cascade = UInt8.ofNat i then
      x.second.next.map fun j => (x.second.vector j, ⟨x.first.serve i, x.second.serve j⟩)
    else none
  else some (x.first.vector i, { x with first := x.first.serve i })

/-- The processor takes an interrupt, and is told the number. -/
def inta : Option (UInt8 × Pair) := x.wired.next.bind x.answer

end Pair

/-- The order in which lines that have asked are taken. -/
def order : List Line :=
  [Line.first 0, .first 1] ++ (List.finRange 8).map .second ++
    [Line.first 3, .first 4, .first 5, .first 6, .first 7]

theorem order_nodup : order.Nodup := by decide

theorem mem_order {line : Line} (h : line ≠ Line.wire) : line ∈ order := by
  cases line with
  | first i =>
      have hi : i ≠ 2 := fun hi => h (congrArg Line.first hi)
      clear h
      revert i
      decide
  | second i =>
      clear h
      revert i
      decide

/-- The lines that ask without the first of them. -/
theorem filter_update {asks : Line → Bool} {line : Line} {rest : List Line}
    (h : order.filter asks = line :: rest) :
    order.filter (Function.update asks line false) = rest := by
  have hnodup : (line :: rest).Nodup := h ▸ order_nodup.filter asks
  have hsplit : Function.update asks line false = fun x => decide (x ≠ line) && asks x := by
    funext x
    by_cases hx : x = line
    · subst hx
      simp
    · simp [hx]
  rw [hsplit, ← List.filter_filter, h, List.filter_cons_of_neg (by simp), List.filter_eq_self]
  intro x hx
  simpa using ne_of_mem_of_not_mem hx (List.nodup_cons.mp hnodup).1

/-! ### Controllers in use -/

/-- The controller was initialised: its vectors start at `base`, and no line is masked. -/
structure Controller.Ready (p : Controller) (base cascade : UInt8) : Prop where
  imr : p.imr = noLine
  base : p.base = base
  cascade : p.cascade = cascade
  autoEoi : p.autoEoi = false
  expects : p.expects = []

structure Pair.Ready (x : Pair) (base base' : UInt8) : Prop where
  first : x.first.Ready base 0x04
  second : x.second.Ready base' 0x02
  wire : x.pending Line.wire = false

/-- What is in service, if the processor was interrupted by a line at most. -/
def Pair.Serves (x : Pair) : Option Line → Prop
  | none => x.first.isr = noLine ∧ x.second.isr = noLine
  | some (.first i) => x.first.isr = only i ∧ x.second.isr = noLine
  | some (.second i) => x.first.isr = only 2 ∧ x.second.isr = only i

/-- The pair after the interrupt of a line was taken. -/
def Pair.take (x : Pair) : Line → Pair
  | .first i => { x with first := x.first.serve i }
  | .second i => ⟨x.first.serve 2, x.second.serve i⟩

/-- The number that goes with a line. -/
def lineVector (base base' : UInt8) : Line → UInt8
  | .first i => base + UInt8.ofNat i
  | .second i => base' + UInt8.ofNat i

namespace Controller

variable {p : Controller} {base cascade : UInt8}

theorem update_noLine (i : Fin 8) : Function.update noLine i true = only i := by
  funext j
  by_cases hj : j = i
  · subst hj
    simp [only]
  · rw [Function.update_of_ne hj]
    simp [noLine, only, hj]

/-- With nothing in service, the first line that has asked interrupts. -/
theorem Ready.next_idle (h : p.Ready base cascade) (hisr : p.isr = noLine) :
    p.next = (List.finRange 8).find? p.irr := by
  have hmay : p.mayInterrupt = p.irr := by
    funext i
    simp [mayInterrupt, h.imr, hisr, noLine]
  rw [next, if_pos h.expects, hmay]

theorem Ready.serve (h : p.Ready base cascade) (i : Fin 8) : (p.serve i).Ready base cascade :=
  ⟨h.imr, h.base, h.cascade, h.autoEoi, h.expects⟩

theorem Ready.serve_isr (h : p.Ready base cascade) (hisr : p.isr = noLine) (i : Fin 8) :
    (p.serve i).isr = only i := by
  rw [Controller.serve, h.autoEoi, hisr]
  exact update_noLine i

theorem find_only (i : Fin 8) : (List.finRange 8).find? (only i) = some i := by
  revert i
  decide

theorem update_only (i : Fin 8) : Function.update (only i) i false = noLine := by
  funext j
  by_cases hj : j = i
  · subst hj
    simp [noLine]
  · rw [Function.update_of_ne hj]
    simp [noLine, only, hj]

/-- The end of the only interrupt in service. -/
theorem eoi_only {i : Fin 8} (hisr : p.isr = only i) : p.eoi = { p with isr := noLine } := by
  unfold eoi
  rw [hisr, find_only]
  show { p with isr := Function.update (only i) i false } = { p with isr := noLine }
  rw [update_only]

end Controller

namespace Pair

variable {x : Pair} {base base' : UInt8}

/-- Lines of the first controller that are not the wire. -/
theorem find_apart (irr : Fin 8 → Bool) (b : Bool) (is : List (Fin 8)) (h : 2 ∉ is) :
    is.find? (Function.update irr 2 b) = is.find? irr := by
  induction is with
  | nil => rfl
  | cons i is ih =>
      rw [List.mem_cons, not_or] at h
      rw [List.find?_cons, List.find?_cons, ih h.2, Function.update_of_ne (Ne.symm h.1)]

/-- The line that the first controller takes, by what has asked in front of the wire, on the
second controller, and behind the wire. -/
theorem find_wired (irr : Fin 8 → Bool) (b : Bool) :
    (List.finRange 8).find? (Function.update irr 2 b) =
      (([0, 1].find? irr).or (if b then some 2 else none)).or ([3, 4, 5, 6, 7].find? irr) := by
  have hlines : List.finRange 8 = [0, 1] ++ [2] ++ [3, 4, 5, 6, 7] := by decide
  rw [hlines, List.find?_append, List.find?_append, find_apart irr b [0, 1] (by decide),
    find_apart irr b [3, 4, 5, 6, 7] (by decide), List.find?_singleton, Function.update_self]

theorem find_order (x : Pair) :
    order.find? x.pending =
      ((([0, 1].find? x.first.irr).map .first).or
        (((List.finRange 8).find? x.second.irr).map .second)).or
        (([3, 4, 5, 6, 7].find? x.first.irr).map .first) := by
  have hbefore : [Line.first 0, .first 1] = [0, 1].map Line.first := rfl
  have hbehind : [Line.first 3, .first 4, .first 5, .first 6, .first 7] =
    [3, 4, 5, 6, 7].map Line.first := rfl
  rw [order, hbefore, hbehind, List.find?_append, List.find?_append, List.find?_map, List.find?_map,
    List.find?_map]
  rfl

theorem Ready.answer_direct (h : x.Ready base base') {i : Fin 8} (hi : i ≠ 2) :
    x.answer i = some (lineVector base base' (.first i), x.take (.first i)) := by
  have hbit : x.first.cascade.toNat.testBit i = false := by
    rw [h.first.cascade]
    revert i
    decide
  rw [answer, hbit, if_neg Bool.false_ne_true, Controller.vector, h.first.base]
  rfl

theorem Ready.answer_wire (h : x.Ready base base') (hisr : x.second.isr = noLine) :
    x.answer 2 = ((List.finRange 8).find? x.second.irr).map fun j =>
      (lineVector base base' (.second j), x.take (.second j)) := by
  have hbit : x.first.cascade.toNat.testBit (2 : Fin 8) = true := by
    rw [h.first.cascade]
    decide
  have hthere : x.second.cascade = UInt8.ofNat (2 : Fin 8) := h.second.cascade
  rw [answer, if_pos hbit, if_pos hthere, h.second.next_idle hisr]
  unfold Controller.vector
  rw [h.second.base]
  rfl

/-- **With nothing in service the processor gets the first line in the order.** -/
theorem Ready.inta (h : x.Ready base base') (hidle : x.Serves none) :
    x.inta = (order.find? x.pending).map fun line => (lineVector base base' line, x.take line) := by
  have hfirst : x.wired.Ready base 0x04 :=
    ⟨h.first.imr, h.first.base, h.first.cascade, h.first.autoEoi, h.first.expects⟩
  have hnext : x.wired.next = _ := hfirst.next_idle hidle.1
  have hapart : ∀ {is : List (Fin 8)} {i : Fin 8}, 2 ∉ is → is.find? x.first.irr = some i → i ≠ 2 :=
    fun his hfound hi => his (hi ▸ List.mem_of_find?_eq_some hfound)
  rw [Pair.inta, hnext, wired, find_wired, find_order, h.second.next_idle hidle.2]
  cases hbefore : [0, 1].find? x.first.irr with
  | some i => exact h.answer_direct (hapart (by decide) hbefore)
  | none =>
      cases hthere : (List.finRange 8).find? x.second.irr with
      | some j =>
          have hwire := h.answer_wire hidle.2
          rw [hthere] at hwire
          exact hwire
      | none =>
          cases hbehind : [3, 4, 5, 6, 7].find? x.first.irr with
          | some i => exact h.answer_direct (hapart (by decide) hbehind)
          | none => rfl

theorem Ready.take (h : x.Ready base base') (line : Line) : (x.take line).Ready base base' := by
  cases line with
  | first i =>
      refine ⟨h.first.serve i, h.second, ?_⟩
      show Function.update x.first.irr i false 2 = false
      by_cases hi : (2 : Fin 8) = i
      · rw [hi, Function.update_self]
      · rw [Function.update_of_ne hi]
        exact h.wire
  | second i =>
      refine ⟨h.first.serve 2, h.second.serve i, ?_⟩
      show Function.update x.first.irr 2 false 2 = false
      exact Function.update_self ..

theorem Ready.take_serves (h : x.Ready base base') (hidle : x.Serves none) (line : Line) :
    (x.take line).Serves (some line) := by
  cases line with
  | first i => exact ⟨h.first.serve_isr hidle.1 i, hidle.2⟩
  | second i => exact ⟨h.first.serve_isr hidle.1 2, h.second.serve_isr hidle.2 i⟩

/-- A line that was taken has not asked. -/
theorem Ready.take_pending (h : x.Ready base base') (line : Line) :
    (x.take line).pending = Function.update x.pending line false := by
  have hwire : x.first.irr 2 = false := h.wire
  funext other
  cases line with
  | first i => cases other <;> simp [Pair.take, pending, Controller.serve, Function.update_apply]
  | second i =>
      cases other with
      | first j =>
          by_cases hj : j = 2
          · subst hj
            simp [Pair.take, pending, Controller.serve, hwire]
          · simp [Pair.take, pending, Controller.serve, Function.update_of_ne hj]
      | second j => simp [Pair.take, pending, Controller.serve, Function.update_apply]

theorem Ready.raise (h : x.Ready base base') {line : Line} (hline : line ≠ Line.wire) :
    (x.raise line).Ready base base' := by
  cases line with
  | first i =>
      refine ⟨⟨h.first.imr, h.first.base, h.first.cascade, h.first.autoEoi, h.first.expects⟩,
        h.second, ?_⟩
      have hi : (2 : Fin 8) ≠ i := fun hi => hline (congrArg Line.first hi.symm)
      exact (Function.update_of_ne hi _ _).trans h.wire
  | second i =>
      exact ⟨h.first,
        ⟨h.second.imr, h.second.base, h.second.cascade, h.second.autoEoi, h.second.expects⟩, h.wire⟩

theorem raise_pending (x : Pair) (line : Line) :
    (x.raise line).pending = Function.update x.pending line true := by
  funext other
  cases line <;> cases other <;> simp [Pair.raise, pending, Function.update_apply]

theorem Serves.raise {served : Option Line} (h : x.Serves served) (line : Line) :
    (x.raise line).Serves served := by
  cases line with
  | first i => exact h
  | second i => exact h

end Pair

end Pic
