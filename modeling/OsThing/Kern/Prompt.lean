/-
The boot command line, as `kinit_prompt` in `kern/kmain.c` splits it.

`input` and `args` are the two arrays of the function, with anything in them before; a pointer
into `input` is told by its index.  A store past the end of an array is no state.  The command
line is given by its bytes, without the zero that ends it.

Once a word was taken for the init option, the loop that looks for one is over: either the
file cannot be opened, or it is executed in place of what is left.
-/
import Mathlib.Logic.Function.Basic

namespace OsThing.Prompt

def INPUT_SIZE : Nat := 256
def ARGS_SIZE : Nat := 16

structure Arrays where
  input : Nat → UInt8
  args : Nat → Option Nat

namespace Arrays

variable (s : Arrays)

/-- `input[i] = value`. -/
def setInput (i : Nat) (value : UInt8) : Option Arrays :=
  if i < INPUT_SIZE then some { s with input := Function.update s.input i value } else none

/-- `args[j] = value`. -/
def setArg (j : Nat) (value : Option Nat) : Option Arrays :=
  if j < ARGS_SIZE then some { s with args := Function.update s.args j value } else none

end Arrays

/-- The loop over the command line, of which the rest is left; the result is `i`, `j` and the
arrays. -/
def splitLoop : List UInt8 → Nat → Nat → Arrays → Option (Nat × Nat × Arrays)
  | [], i, j, s => some (i, j, s)
  | c :: rest, i, j, s =>
      if i < 256 ∧ j < 16 then
        (s.setInput i c).bind fun s =>
          if c = 32 then
            (s.setArg j (some (i + 1))).bind fun s =>
              (s.setInput i 0).bind fun s => splitLoop rest (i + 1) (j + 1) s
          else splitLoop rest (i + 1) j s
      else some (i, j, s)

/-- The line split up: `j`, and the arrays. -/
def split (cmd : List UInt8) (s : Arrays) : Option (Nat × Arrays) :=
  (s.setArg 0 (some 0)).bind fun s =>
    (splitLoop cmd 0 1 s).bind fun (i, j, s) =>
      (s.setInput i 0).bind fun s =>
        (s.setArg j none).map fun s => (j, s)

/-- `"init"`, with the zero that ends it. -/
def initstr : List UInt8 := [105, 110, 105, 116, 0]

/-- The loop that compares a word with `initstr`, of which the rest is left; the result is `l`.
It does not come to the end, for the word is over before the zero is compared. -/
def initLength (input : Nat → UInt8) (word : Nat) : List UInt8 → Nat → Nat
  | [], l => l
  | c :: rest, l =>
      let b := input (word + l)
      if b = 0 ∨ b = 61 then l else if b ≠ c then 0 else initLength input word rest (l + 1)

/-- The loop over the words from `i` on, none of which is a null pointer, and the path that is
opened. -/
def takeInit (s : Arrays) : Nat → Nat → Option Nat
  | 0, _ => none
  | n + 1, i =>
      (s.args i).bind fun word =>
        let l := initLength s.input word initstr 0
        if l = 4 then some (word + l + 1) else takeInit s n (i + 1)

/-- What is left in the arrays, and the path of the init option. -/
structure Parsed where
  arrays : Arrays
  init : Option Nat

def parse (cmd : List UInt8) (s : Arrays) : Option Parsed :=
  (split cmd s).map fun (j, s) => ⟨s, takeInit s j 0⟩

end OsThing.Prompt
