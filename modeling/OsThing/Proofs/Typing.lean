/-
What the prompt makes of the keys.

While the input buffer has room, the prompt takes the characters of the keys in the order in
which they were pressed, and none is lost: that is the queue of `Proofs/InputBuffer`.  What it
has taken is cut into lines, and a line does what the keys leave of it when each backspace takes
back one character (`Lines`).

No character may be taken while the line holds 256 of them.  It is thrown away, and the zero that
ends the line is stored behind `input`.
-/
import OsThing.Kern.Typing
import OsThing.Lib.LineEdit
import OsThing.Proofs.InputBuffer

namespace OsThing.Prompt

open Drivers Runs LineEdit

/-- What a line is there for, if it is not empty. -/
def meaning (line : List UInt8) : Option Entered :=
  match line with
  | [] => none
  | 33 :: _ => some .shell
  | line => some (.path (line.takeWhile (· ≠ 0)))

/-- What was taken is cut into lines, each of which did what its keys left.  The last one is in
`input` so far. -/
structure Lines (t : Typing) (ended : List (List UInt8)) (rest : List UInt8) : Prop where
  cut : Cut 10 t.taken ended rest
  entered : t.entered = (ended.map (edited 8)).filterMap meaning
  text : t.mode = .typing → (List.range t.i).map t.input = edited 8 rest
  away : t.mode ≠ .typing → rest = []

/-- **The lines are those of the keys**, in order, and nothing is lost. -/
structure TakesLines (t : Typing) : Prop where
  lines : ∃ ended rest, Lines t ended rest
  pressed : t.pressed = t.taken ++ t.kb.input.rest

/-- A key finds room in the input buffer. -/
def KeyHasRoom (t : Typing) : TypingOp → Prop
  | .key scancode => (t.kb.pressed scancode).isSome → t.kb.input.gotInput < Skio.IN_BUF_SIZE
  | _ => True

/-- A character that is taken finds room in the line. -/
def LineHasRoom (t : Typing) : TypingOp → Prop
  | .poll _ => t.kb.input.gotInput ≠ 0 → t.i < INPUT_SIZE
  | _ => True

instance (t : Typing) : (op : TypingOp) → Decidable (KeyHasRoom t op)
  | .key _ => inferInstanceAs (Decidable (_ → _))
  | .poll _ => .isTrue trivial
  | .shellReturns => .isTrue trivial

instance (t : Typing) : (op : TypingOp) → Decidable (LineHasRoom t op)
  | .key _ => .isTrue trivial
  | .poll _ => inferInstanceAs (Decidable (_ → _))
  | .shellReturns => .isTrue trivial

/-! ### One line -/

section Line

variable {t : Typing} {ended : List (List UInt8)} {rest : List UInt8}

theorem takeWhile_zero (xs ys : List UInt8) :
    (xs ++ 0 :: ys).takeWhile (· ≠ 0) = xs.takeWhile (· ≠ 0) := by
  induction xs with
  | nil => rfl
  | cons x xs ih =>
      rw [List.cons_append, List.takeWhile_cons, List.takeWhile_cons, ih]

/-- What is in the line before `i` is not touched by a store at `i`. -/
theorem map_store (input : Nat → UInt8) (i : Nat) (value : UInt8) :
    (List.range i).map (Function.update input i value) = (List.range i).map input :=
  List.map_congr_left fun _ hj =>
    Function.update_of_ne (Nat.ne_of_lt (List.mem_range.mp hj)) _ _

theorem map_back (input : Nat → UInt8) (i : Nat) :
    (List.range (i - 1)).map input = ((List.range i).map input).dropLast := by
  cases i with
  | zero => rfl
  | succ i => rw [List.range_succ, List.map_append, List.map_singleton, List.dropLast_concat]; rfl

theorem map_put (input : Nat → UInt8) (i : Nat) (value : UInt8) :
    (List.range (i + 1)).map (Function.update input i value) = (List.range i).map input ++ [value] := by
  rw [List.range_succ, List.map_append, map_store, List.map_singleton, Function.update_self]

/-- The string that is left when the line is ended. -/
theorem string_store (hi : t.i < INPUT_SIZE) :
    (t.store 0).string = ((List.range t.i).map t.input).takeWhile (· ≠ 0) := by
  obtain ⟨k, hk⟩ : ∃ k, INPUT_SIZE = t.i + (k + 1) := ⟨INPUT_SIZE - t.i - 1, by omega⟩
  unfold Typing.string Typing.store
  dsimp only
  rw [hk, List.range_add, List.map_append, map_store, List.range_succ_eq_map, List.map_cons,
    List.map_cons, Nat.add_zero, Function.update_self, takeWhile_zero]

theorem Lines.length (h : Lines t ended rest) (hmode : t.mode = .typing) :
    (edited 8 rest).length = t.i := by
  rw [← h.text hmode, List.length_map, List.length_range]

/-- A character in the line. -/
theorem Lines.takeIn (h : Lines t ended rest) (hmode : t.mode = .typing) {c : UInt8} (hc : c ≠ 10) :
    Lines ({ t with taken := t.taken ++ [c] }.takeIn c) ended (rest ++ [c]) := by
  have htext := h.text hmode
  unfold Typing.takeIn
  by_cases hback : c = 8
  · rw [if_pos hback]
    refine ⟨h.cut.key hc, h.entered, fun _ => ?_, fun hne => absurd hmode hne⟩
    show (List.range (t.i - 1)).map (Function.update t.input t.i 0) = _
    rw [edited_concat, press, if_pos hback, ← htext, map_back, map_store]
  · rw [if_neg hback]
    refine ⟨h.cut.key hc, h.entered, fun _ => ?_, fun hne => absurd hmode hne⟩
    show (List.range (t.i + 1)).map (Function.update t.input t.i c) = _
    rw [edited_concat, press, if_neg hback, ← htext, map_put]

/-- An empty line does nothing. -/
theorem endLine_empty (hi : t.i = 0) (opened : Bool) : t.endLine opened = t.store 0 := if_pos hi

theorem endLine_shell (hi : t.i ≠ 0) (hfirst : t.input 0 = 33) (opened : Bool) :
    t.endLine opened = { t.store 0 with mode := .shell, entered := t.entered ++ [.shell] } := by
  have hstored : (t.store 0).input 0 = 33 :=
    (Function.update_of_ne (Ne.symm hi) _ _).trans hfirst
  exact (if_neg hi).trans (if_pos hstored)

theorem endLine_path (hi : t.i ≠ 0) (hfirst : t.input 0 ≠ 33) (opened : Bool) :
    t.endLine opened =
      let t := { t.store 0 with entered := t.entered ++ [Entered.path (t.store 0).string] }
      if opened then { t with mode := .done } else t.clear := by
  have hstored : (t.store 0).input 0 ≠ 33 := fun h =>
    hfirst ((Function.update_of_ne (Ne.symm hi) _ _).symm.trans h)
  exact (if_neg hi).trans (if_neg hstored)

theorem meaning_path {b : UInt8} {bs : List UInt8} (hb : b ≠ 33) :
    meaning (b :: bs) = some (.path ((b :: bs).takeWhile (· ≠ 0))) := by
  unfold meaning
  split
  · next heq => cases heq
  · next heq => exact absurd (List.cons.inj heq).1 hb
  · rfl

/-- The end of the line. -/
theorem Lines.endLine (h : Lines t ended rest) (hmode : t.mode = .typing) (hi : t.i < INPUT_SIZE)
    (opened : Bool) :
    Lines ({ t with taken := t.taken ++ [10] }.endLine opened) (ended ++ [rest]) [] := by
  have hlength := h.length hmode
  have htext := h.text hmode
  have hentered : ((ended ++ [rest]).map (edited 8)).filterMap meaning =
      t.entered ++ (meaning (edited 8 rest)).toList := by
    rw [List.map_append, List.filterMap_append, ← h.entered]
    cases hm : meaning (edited 8 rest) with
    | none => simp [hm]
    | some e => simp [hm]
  cases hline : edited 8 rest with
  | nil =>
      have hzero : t.i = 0 := by rw [← hlength, hline]; rfl
      rw [endLine_empty (t := { t with taken := t.taken ++ [10] }) hzero]
      refine ⟨h.cut.line, ?_, fun _ => ?_, fun _ => rfl⟩
      · rw [hentered, hline]
        exact (List.append_nil _).symm
      · show (List.range t.i).map (Function.update t.input t.i 0) = []
        rw [hzero]
        rfl
  | cons b bs =>
      have hpos : t.i ≠ 0 := by rw [← hlength, hline]; exact Nat.succ_ne_zero _
      have hfirst : t.input 0 = b := by
        obtain ⟨k, hk⟩ := Nat.exists_eq_succ_of_ne_zero hpos
        rw [hline, hk, List.range_succ_eq_map, List.map_cons] at htext
        exact (List.cons.inj htext).1
      by_cases hshell : b = 33
      · rw [endLine_shell (t := { t with taken := t.taken ++ [10] }) hpos (hfirst.trans hshell)]
        refine ⟨h.cut.line, ?_, nofun, fun _ => rfl⟩
        rw [hentered, hline, hshell]
        rfl
      · have hstring : (t.store 0).string = (b :: bs).takeWhile (· ≠ 0) := by
          rw [← hline, ← htext]
          exact string_store hi
        rw [hline, meaning_path hshell, ← hstring] at hentered
        rw [endLine_path (t := { t with taken := t.taken ++ [10] }) hpos (hfirst ▸ hshell)]
        cases opened with
        | true => exact ⟨h.cut.line, hentered.symm, nofun, fun _ => rfl⟩
        | false => exact ⟨h.cut.line, hentered.symm, fun _ => rfl, fun _ => rfl⟩

/-- A turn of the prompt. -/
theorem Lines.turn (h : Lines t ended rest) (hmode : t.mode = .typing) (hi : t.i < INPUT_SIZE)
    (c : UInt8) (opened : Bool) :
    ∃ ended rest, Lines ({ t with taken := t.taken ++ [c] }.turn c opened) ended rest := by
  unfold Typing.turn
  by_cases hc : c = 10
  · subst hc
    rw [if_neg (fun hgo => hgo.1 rfl)]
    exact ⟨_, _, h.endLine hmode hi opened⟩
  · rw [if_pos ⟨hc, hi⟩]
    exact ⟨_, _, h.takeIn hmode hc⟩

/-- The shell returns, and `input` is cleared. -/
theorem Lines.shellReturns (h : Lines t ended rest) (hmode : t.mode = .shell) :
    Lines { t.clear with mode := .typing } ended rest := by
  have hrest : rest = [] := h.away (by rw [hmode]; nofun)
  subst hrest
  exact ⟨h.cut, h.entered, fun _ => rfl, fun _ => rfl⟩

end Line

/-! ### The queue of the keys -/

section Queue

variable {t : Typing}

/-- What the prompt has taken, beside what the keys have put. -/
def Typing.traffic (t : Typing) : Skio.Traffic := ⟨t.kb.input, t.pressed, t.taken⟩

/-- The handler puts the character of a key, if there is one. -/
theorem handler_input (kb : Keyboard) (scancode : UInt8) :
    (kb.keyboardHandler scancode).input =
      (kb.pressed scancode).elim kb.input kb.input.putInChar := by
  unfold Keyboard.keyboardHandler Keyboard.pressed
  by_cases hup : scancode &&& 0x80 ≠ 0
  · rw [if_pos hup, if_pos hup]
    rfl
  · rw [if_neg hup, if_neg hup]
    by_cases hshift : kb.keyMap.char scancode = KB_SH
    · simp only [if_pos hshift, Option.elim_none]
    · simp only [if_neg hshift, Option.elim_some]

/-- A turn that is taken waits for a key, or takes one. -/
theorem poll_cases {t' : Typing} {opened : Bool} (hstep : typingStep t (.poll opened) = some t') :
    t.mode = .typing ∧ (t.kb.input.gotInput = 0 ∧ t' = t ∨
      t.kb.input.gotInput ≠ 0 ∧ t' = t.getIn.2.turn t.getIn.1 opened) := by
  rw [typingStep] at hstep
  split_ifs at hstep with hmode hgot
  · exact ⟨hmode, .inl ⟨hgot, (Option.some.inj hstep).symm⟩⟩
  · exact ⟨hmode, .inr ⟨hgot, (Option.some.inj hstep).symm⟩⟩

theorem turn_traffic (c : UInt8) (opened : Bool) : (t.turn c opened).traffic = t.traffic := by
  unfold Typing.turn Typing.takeIn Typing.endLine
  dsimp only
  split_ifs <;> rfl

/-- A step, where the key that it puts finds room. -/
theorem waiting_step {t' : Typing} {op : TypingOp} (h : Skio.Waiting t.traffic)
    (hstep : typingStep t op = some t') (hroom : KeyHasRoom t op) : Skio.Waiting t'.traffic := by
  cases op with
  | key scancode =>
      obtain rfl := Option.some.inj hstep
      show Skio.Waiting ⟨(t.kb.keyboardHandler scancode).input, _, _⟩
      rw [handler_input]
      cases hkey : t.kb.pressed scancode with
      | none => simpa [Typing.traffic] using h
      | some c => exact h.put_step (hroom (by rw [hkey]; rfl))
  | poll opened =>
      rcases poll_cases hstep with ⟨-, ⟨-, rfl⟩ | ⟨hgot, rfl⟩⟩
      · exact h
      · rw [turn_traffic]
        exact h.get_step hgot
  | shellReturns =>
      rw [typingStep] at hstep
      split_ifs at hstep
      obtain rfl := Option.some.inj hstep
      exact h

end Queue

/-! ### `input` -/

section Inside

variable {t t' : Typing}

/-- The indexes that were written are in `input`. -/
def StoresInside (t : Typing) : Prop := ∀ j ∈ t.stores, j < INPUT_SIZE

theorem StoresInside.store (h : StoresInside t) (hi : t.i < INPUT_SIZE) (value : UInt8) :
    StoresInside (t.store value) := by
  intro j hj
  rcases List.mem_append.mp hj with hj | hj
  · exact h j hj
  · rw [List.mem_singleton.mp hj]
    exact hi

theorem StoresInside.clear (h : StoresInside t) : StoresInside t.clear := by
  intro j hj
  rcases List.mem_append.mp hj with hj | hj
  · exact h j hj
  · exact List.mem_range.mp hj

/-- A character that finds room is stored in `input`. -/
theorem StoresInside.turn (h : StoresInside t) (hi : t.i < INPUT_SIZE) (c : UInt8) (opened : Bool) :
    StoresInside (t.turn c opened) ∧ (t.turn c opened).i ≤ INPUT_SIZE := by
  have hle : t.i ≤ INPUT_SIZE := Nat.le_of_lt hi
  have hstored := h.store hi
  unfold Typing.turn Typing.takeIn Typing.endLine
  dsimp only
  split_ifs
  · exact ⟨hstored 0, Nat.le_trans (Nat.sub_le _ _) hle⟩
  · exact ⟨hstored c, hi⟩
  · exact ⟨hstored 0, hle⟩
  · exact ⟨hstored 0, hle⟩
  · exact ⟨hstored 0, hle⟩
  · exact ⟨StoresInside.clear (hstored 0), Nat.zero_le _⟩

/-- One that does not is not, but the zero behind the line is stored in its place. -/
theorem turn_outside (hi : t.i = INPUT_SIZE) (c : UInt8) (opened : Bool) :
    ¬ StoresInside (t.turn c opened) := by
  have hmem : t.i ∈ (t.turn c opened).stores := by
    unfold Typing.turn Typing.endLine
    rw [if_neg (fun hgo => Nat.ne_of_lt hgo.2 hi)]
    dsimp only
    split_ifs <;> simp [Typing.store, Typing.clear]
  intro h
  exact absurd (h _ hmem) (by rw [hi]; exact Nat.lt_irrefl _)

end Inside

/-! ### Runs -/

section Steps

variable {t t' : Typing} {op : TypingOp}

theorem lines_step (h : ∃ ended rest, Lines t ended rest) (hstep : typingStep t op = some t')
    (hroom : LineHasRoom t op) : ∃ ended rest, Lines t' ended rest := by
  obtain ⟨ended, rest, hlines⟩ := h
  cases op with
  | key scancode =>
      obtain rfl := Option.some.inj hstep
      exact ⟨ended, rest, hlines.cut, hlines.entered, hlines.text, hlines.away⟩
  | poll opened =>
      rcases poll_cases hstep with ⟨hmode, ⟨-, rfl⟩ | ⟨hgot, rfl⟩⟩
      · exact ⟨ended, rest, hlines⟩
      · have hsame : Lines { t with kb := { t.kb with input := t.kb.input.getInChar.2 } } ended rest :=
          ⟨hlines.cut, hlines.entered, hlines.text, hlines.away⟩
        exact hsame.turn hmode (hroom hgot) _ _
  | shellReturns =>
      rw [typingStep] at hstep
      split_ifs at hstep with hmode
      obtain rfl := Option.some.inj hstep
      exact ⟨ended, rest, hlines.shellReturns hmode⟩

/-- The line is in `input`, or full. -/
def Stored (t : Typing) : Prop := StoresInside t ∧ t.i ≤ INPUT_SIZE

theorem stored_step (h : Stored t) (hstep : typingStep t op = some t') (hroom : LineHasRoom t op) :
    Stored t' := by
  cases op with
  | key scancode => exact Option.some.inj hstep ▸ h
  | poll opened =>
      rcases poll_cases hstep with ⟨-, ⟨-, rfl⟩ | ⟨hgot, rfl⟩⟩
      · exact h
      · exact StoresInside.turn (t := t.getIn.2) h.1 (hroom hgot) _ _
  | shellReturns =>
      rw [typingStep] at hstep
      split_ifs at hstep with hmode
      obtain rfl := Option.some.inj hstep
      exact ⟨h.1.clear, Nat.zero_le _⟩

/-- What is stored inside was a character that found room. -/
theorem lineHasRoom_of_inside (h : Stored t) (hstep : typingStep t op = some t')
    (hinside : StoresInside t') : LineHasRoom t op := by
  cases op with
  | key scancode => exact trivial
  | poll opened =>
      intro hgot
      rcases poll_cases hstep with ⟨-, ⟨hzero, -⟩ | ⟨-, rfl⟩⟩
      · exact absurd hzero hgot
      · exact Nat.lt_of_le_of_ne h.2 fun hfull =>
          turn_outside (t := t.getIn.2) hfull _ _ hinside
  | shellReturns => exact trivial

end Steps

/--
**What is typed at the prompt.**  The prompt stays inside `input` in exactly those runs in which
it takes no character, whichever, while the line holds 256 of them.  If in addition no key is
pressed while `IN_BUF_SIZE` characters wait, the prompt takes the characters of all keys in order,
and each line does what the keys have left of it.
-/
theorem prompt_takes_lines (map : Option KeyMap) (readBuf : UInt8) (ops : List TypingOp) :
    (Always typingStep StoresInside (.start map readBuf) ops ↔
      EveryStep typingStep (fun t op _ => LineHasRoom t op) (.start map readBuf) ops) ∧
    (EveryStep typingStep (fun t op _ => KeyHasRoom t op ∧ LineHasRoom t op)
        (.start map readBuf) ops →
      Always typingStep TakesLines (.start map readBuf) ops) := by
  constructor
  · have hstart : Stored (.start map readBuf) := ⟨fun j hj => absurd hj List.not_mem_nil, Nat.zero_le _⟩
    exact always_iff (fun t h => h.1) (fun t op t' h hstep hroom => stored_step h hstep hroom)
      (fun t op t' h hstep hinside => lineHasRoom_of_inside h hstep hinside) hstart
  · intro hroom
    have hlines : ∃ ended rest, Lines (.start map readBuf) ended rest :=
      ⟨[], [], cut_nil 10, rfl, fun _ => rfl, fun _ => rfl⟩
    have hinv : Always typingStep (fun t => (∃ ended rest, Lines t ended rest) ∧ Skio.Waiting t.traffic)
        (.start map readBuf) ops := by
      refine always_of_inv (fun t op t' h hstep hop => ?_) ⟨hlines, Skio.waiting_boot⟩ hroom
      exact ⟨lines_step h.1 hstep hop.2, waiting_step h.2 hstep hop.1⟩
    exact hinv.mono fun t h => ⟨h.1, h.2.nothingLost⟩

end OsThing.Prompt
