/-
The lines that are typed at the prompt, which is the second half of `kinit_prompt` in
`kern/kmain.c`.

The prompt takes what `keyboard_handler` puts into the input buffer of `sys/skio.c`.  A step is
the interrupt of a key, one turn of the prompt (`pause`, `get_in_char` and what is done with the
character), or the return of the built-in shell, which takes its keys from `/dev/kb0` and
leaves the input buffer alone.

`input` has 256 bytes.  `stores` keeps the indexes that were written.
-/
import OsThing.Drivers.Keyboard
import OsThing.Kern.Prompt

namespace OsThing.Prompt

open Drivers

/-- What the prompt does with a line. -/
inductive Entered
  /-- `!`: the built-in shell. -/
  | shell
  /-- `open( input, O_EXEC )`, and the path that it is given. -/
  | path (bytes : List UInt8)
  deriving DecidableEq

inductive Mode
  | typing
  /-- `kshell` runs. -/
  | shell
  /-- The program has been started, and the thread is gone. -/
  | done
  deriving DecidableEq

structure Typing where
  kb : Keyboard
  input : Nat → UInt8
  i : Nat
  mode : Mode
  /-- Ghost: the characters of the keys pressed, those that the prompt has taken, what it did,
  and the indexes of `input` that it wrote. -/
  pressed : List UInt8
  taken : List UInt8
  entered : List Entered
  stores : List Nat

namespace Typing

variable (t : Typing)

/-- `input[i] = value`. -/
def store (value : UInt8) : Typing :=
  { t with input := Function.update t.input t.i value, stores := t.stores ++ [t.i] }

/-- The body of the loop. -/
def takeIn (buf : UInt8) : Typing :=
  if buf = 8 then { t.store 0 with i := t.i - 1 } else { t.store buf with i := t.i + 1 }

/-- `memset( input, 0, 256 )`, and `i = 0`. -/
def clear : Typing :=
  { t with
    input := fun j => if j < INPUT_SIZE then 0 else t.input j
    i := 0
    stores := t.stores ++ List.range INPUT_SIZE }

/-- The string at `input`. -/
def string : List UInt8 := ((List.range INPUT_SIZE).map t.input).takeWhile (· ≠ 0)

/-- The line is ended, and something is done with it. -/
def endLine (opened : Bool) : Typing :=
  let t := t.store 0
  if t.i = 0 then t
  else if t.input 0 = 33 then { t with mode := .shell, entered := t.entered ++ [.shell] }
  else
    let t := { t with entered := t.entered ++ [Entered.path t.string] }
    if opened then { t with mode := .done } else t.clear

/-- `buf = get_in_char( )`. -/
def getIn : UInt8 × Typing :=
  (t.kb.input.getInChar.1,
    { t with
      kb := { t.kb with input := t.kb.input.getInChar.2 }
      taken := t.taken ++ [t.kb.input.getInChar.1] })

/-- A turn of the loop, with the character from the input buffer. -/
def turn (buf : UInt8) (opened : Bool) : Typing :=
  if buf ≠ 10 ∧ t.i < 256 then t.takeIn buf else t.endLine opened

end Typing

inductive TypingOp
  | key (scancode : UInt8)
  /-- The prompt goes on; `opened` says whether the path of a line can be opened. -/
  | poll (opened : Bool)
  | shellReturns

def typingStep (t : Typing) : TypingOp → Option Typing
  | .key scancode =>
      some { t with
        kb := t.kb.keyboardHandler scancode
        pressed := t.pressed ++ (t.kb.pressed scancode).toList }
  | .poll opened =>
      if t.mode = .typing then
        if t.kb.input.gotInput = 0 then some t else some (t.getIn.2.turn t.getIn.1 opened)
      else none
  | .shellReturns => if t.mode = .shell then some { t.clear with mode := .typing } else none

/-- The prompt when it first appears; the keyboard may have been used before. -/
def Typing.start (map : Option KeyMap) (readBuf : UInt8) : Typing :=
  ⟨⟨map, readBuf, .boot⟩, fun _ => 0, 0, .typing, [], [], [], []⟩

end OsThing.Prompt
