/-
The shift keys and the map of the keyboard.

One pointer stands for both shift keys: pressing either of them selects the upper map, and
releasing either of them the lower one.  So what the map tells is whether the last thing that
happened to a shift key was that it was pressed, `shiftPressedLast`; and this is not whether
one is down, as soon as one of the two is released while the other one is held.

Which keys are down is told by the scancodes so far, from any keys that are down at the start.
The handler looks the shift keys up in the map that they select; they are at the same places
in both.
-/
import OsThing.Drivers.Keyboard
import OsThing.Lib.Runs
import Mathlib.Tactic.Common

namespace OsThing.Drivers

open Runs Skio

/-! ### Keys -/

/-- A key is pressed, not released. -/
def isMake (scancode : UInt8) : Bool := scancode &&& 0x80 == 0

/-- The key that a scancode is about. -/
def keyOf (scancode : UInt8) : UInt8 := scancode &&& 0x7f

/-- The left shift key and the right one. -/
def IsShift (key : UInt8) : Prop := key = 0x2a ∨ key = 0x36

instance (key : UInt8) : Decidable (IsShift key) := inferInstanceAs (Decidable (_ ∨ _))

/-- The key is down after the scancodes, the last one first; `held` are the keys that were down
before. -/
def isDown (held : UInt8 → Bool) : List UInt8 → UInt8 → Bool
  | [], key => held key
  | scancode :: before, key =>
      if keyOf scancode = key then isMake scancode else isDown held before key

/-- At least one of the two shift keys is down. -/
def ShiftDown (held : UInt8 → Bool) (codes : List UInt8) : Prop :=
  ∃ key, IsShift key ∧ isDown held codes key = true

/-- The last scancode of a shift key was that of a press. -/
def shiftPressedLast : List UInt8 → Bool
  | [] => false
  | scancode :: before =>
      if IsShift (keyOf scancode) then isMake scancode else shiftPressedLast before

/-! ### A run -/

/-- The keyboard, and the scancodes that were handled, the last one first. -/
structure Typing where
  kb : Keyboard
  codes : List UInt8

/-- A scancode comes.  Only a key that is up can be pressed, and one that is down released. -/
def typingStep (held : UInt8 → Bool) (t : Typing) (scancode : UInt8) : Option Typing :=
  if isMake scancode = isDown held t.codes (keyOf scancode) then none
  else some ⟨t.kb.keyboardHandler scancode, scancode :: t.codes⟩

/-- No key was handled yet. -/
def Typing.boot (readBuf : UInt8) (input : InputBuffer) : Typing := ⟨⟨none, readBuf, input⟩, []⟩

/-- A key other than shift is pressed. -/
def Presses (scancode : UInt8) : Prop := isMake scancode = true ∧ ¬ IsShift (keyOf scancode)

instance (scancode : UInt8) : Decidable (Presses scancode) := inferInstanceAs (Decidable (_ ∧ _))

/-- The handler uses the upper map for a key exactly if a shift key is down. -/
def MapFollows (held : UInt8 → Bool) (t : Typing) (scancode : UInt8) : Prop :=
  Presses scancode → (t.kb.keyMap = .upper ↔ ShiftDown held t.codes)

/-- If a key is pressed while a shift key is down, none was released after the last press of
one. -/
def NoneReleased (held : UInt8 → Bool) (t : Typing) (scancode : UInt8) : Prop :=
  Presses scancode → ShiftDown held t.codes → shiftPressedLast t.codes = true

/-! ### The tables -/

/-- The index into the map, for a press and for a release. -/
theorem keyOf_eq (scancode : UInt8) :
    keyOf scancode = if isMake scancode then scancode else scancode - 0x80 := by
  have hall : ∀ n : Fin 256, keyOf (UInt8.ofNat n) =
      if isMake (UInt8.ofNat n) then UInt8.ofNat n else UInt8.ofNat n - 0x80 := by decide +kernel
  simpa using hall ⟨scancode.toNat, scancode.toNat_lt⟩

theorem keyOf_lt (scancode : UInt8) : (keyOf scancode).toNat < 128 := by
  have hall : ∀ n : Fin 256, (keyOf (UInt8.ofNat n)).toNat < 128 := by decide +kernel
  simpa using hall ⟨scancode.toNat, scancode.toNat_lt⟩

/-- Both maps have the shift keys at the same two places, and nowhere else. -/
theorem char_eq_shift (map : KeyMap) {key : UInt8} (hkey : key.toNat < 128) :
    map.char key = KB_SH ↔ IsShift key := by
  have hall : ∀ n < 128, map.table.getD n 0 = KB_SH ↔ n = 0x2a ∨ n = 0x36 := by
    cases map
    · decide +kernel
    · decide +kernel
  unfold KeyMap.char IsShift
  rw [hall key.toNat hkey, ← UInt8.toNat_inj, ← UInt8.toNat_inj]
  simp

/-! ### One scancode -/

/-- **What the handler does with the map.**  A shift key selects it, and all others keep it. -/
theorem handler_keyMap (kb : Keyboard) (scancode : UInt8) :
    (kb.keyboardHandler scancode).keyMap =
      if IsShift (keyOf scancode) then
        if isMake scancode then .upper else .lower
      else kb.keyMap := by
  have hshift := char_eq_shift kb.keyMap (keyOf_lt scancode)
  rw [keyOf_eq] at hshift ⊢
  unfold Keyboard.keyboardHandler
  by_cases hmake : isMake scancode = true
  · have hbit : scancode &&& 0x80 = 0 := by simpa [isMake] using hmake
    simp only [hmake, if_true] at hshift ⊢
    rw [if_neg (not_not.mpr hbit)]
    by_cases hkey : IsShift scancode
    · rw [if_pos (hshift.mpr hkey), if_pos hkey]
      rfl
    · rw [if_neg (mt hshift.mp hkey), if_neg hkey]
      rfl
  · have hbit : scancode &&& 0x80 ≠ 0 := by simpa [isMake] using hmake
    simp only [if_neg hmake] at hshift ⊢
    rw [if_pos hbit]
    -- A release selects the lower map or stores the one there is.
    show (if kb.keyMap.char (scancode - 0x80) = KB_SH then KeyMap.lower else kb.keyMap) = _
    by_cases hkey : IsShift (scancode - 0x80)
    · rw [if_pos (hshift.mpr hkey), if_pos hkey]
    · rw [if_neg (mt hshift.mp hkey), if_neg hkey]

/-- The map tells whether a shift key was pressed last, and if so, one is down. -/
structure MapInv (held : UInt8 → Bool) (t : Typing) : Prop where
  map : t.kb.keyMap = .upper ↔ shiftPressedLast t.codes = true
  down : shiftPressedLast t.codes = true → ShiftDown held t.codes

variable {held : UInt8 → Bool} {t t' : Typing} {scancode : UInt8}

theorem MapInv.boot (readBuf : UInt8) (input : InputBuffer) :
    MapInv held (.boot readBuf input) := by
  constructor
  · simp [Typing.boot, Keyboard.keyMap, shiftPressedLast]
  · simp [Typing.boot, shiftPressedLast]

/-- Another key leaves the shift keys as they are. -/
theorem shiftDown_other {codes : List UInt8} (hother : ¬ IsShift (keyOf scancode))
    (h : ShiftDown held codes) : ShiftDown held (scancode :: codes) := by
  obtain ⟨key, hkey, hdown⟩ := h
  have hne : keyOf scancode ≠ key := by
    intro heq
    exact hother (heq ▸ hkey)
  exact ⟨key, hkey, by simpa [isDown, hne] using hdown⟩

theorem MapInv.step (h : MapInv held t) (hstep : typingStep held t scancode = some t') :
    MapInv held t' := by
  unfold typingStep at hstep
  by_cases halternates : isMake scancode = isDown held t.codes (keyOf scancode)
  · simp [halternates] at hstep
  rw [if_neg halternates, Option.some.injEq] at hstep
  subst hstep
  by_cases hshift : IsShift (keyOf scancode)
  · constructor
    · cases hmake : isMake scancode
      · simp [handler_keyMap, shiftPressedLast, hshift, hmake]
      · simp [handler_keyMap, shiftPressedLast, hshift, hmake]
    · intro hlast
      refine ⟨keyOf scancode, hshift, ?_⟩
      simpa [shiftPressedLast, hshift, isDown] using hlast
  · constructor
    · simpa [handler_keyMap, shiftPressedLast, hshift] using h.map
    · intro hlast
      simp only [shiftPressedLast, if_neg hshift] at hlast
      exact shiftDown_other hshift (h.down hlast)

theorem MapInv.follows_iff (h : MapInv held t) (scancode : UInt8) :
    MapFollows held t scancode ↔ NoneReleased held t scancode := by
  constructor
  · intro hfollows hpress hdown
    exact h.map.mp ((hfollows hpress).mpr hdown)
  · intro hnone hpress
    constructor
    · intro hupper
      exact h.down (h.map.mp hupper)
    · intro hdown
      exact h.map.mpr (hnone hpress hdown)

/-! ### Runs -/

/--
**The map follows the shift keys as long as none is released under the other.**  For every
sequence of presses and releases that alternate for each key, with any keys down at the start:
the handler uses the right map for each key exactly if, whenever a key is pressed while a shift
key is down, no shift key was released after the last press of one.
-/
theorem shift_follows_iff (held : UInt8 → Bool) (readBuf : UInt8) (input : InputBuffer)
    (codes : List UInt8) :
    EveryStep (typingStep held) (fun t scancode _ => MapFollows held t scancode)
        (.boot readBuf input) codes ↔
      EveryStep (typingStep held) (fun t scancode _ => NoneReleased held t scancode)
        (.boot readBuf input) codes := by
  have hkeep : ∀ t scancode t', MapInv held t → typingStep held t scancode = some t' →
      MapInv held t' := fun _ _ _ ht hstep => ht.step hstep
  constructor
  · apply everyStep_of_inv (fun t scancode t' ht hstep _ => hkeep t scancode t' ht hstep)
    · intro t scancode t' ht _ hfollows
      exact (ht.follows_iff scancode).mp hfollows
    · exact MapInv.boot readBuf input
  · apply everyStep_of_inv (fun t scancode t' ht hstep _ => hkeep t scancode t' ht hstep)
    · intro t scancode t' ht _ hnone
      exact (ht.follows_iff scancode).mpr hnone
    · exact MapInv.boot readBuf input

/-- Both shift keys are pressed, the left one is released, and then the key A is pressed. -/
def bothShifts : List UInt8 := [0x2a, 0x36, 0xaa, 0x1e]

/-- **The letter is a small one, although the right shift key is down.** -/
theorem shift_held_small_letter :
    ¬ EveryStep (typingStep fun _ => false)
      (fun t scancode _ => MapFollows (fun _ => false) t scancode) (.boot 0 .boot) bothShifts := by
  intro h
  obtain ⟨-, h⟩ := h _ rfl
  obtain ⟨-, h⟩ := h _ rfl
  obtain ⟨-, h⟩ := h _ rfl
  obtain ⟨hfollows, -⟩ := h _ rfl
  have hdown : ShiftDown (fun _ => false) [0xaa, 0x36, 0x2a] := ⟨0x36, by decide, by decide⟩
  have hupper := (hfollows (by decide)).mpr hdown
  exact absurd hupper (by decide)

end OsThing.Drivers
