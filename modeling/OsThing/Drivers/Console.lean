/-
The text console, `kern/drivers/peripherals/console.c`.

The screen is 25 lines of 80 cells of two bytes, a character and its colour, in the 4000
bytes from `VIDEORAM` on.  The cursor is a pair of unsigned 16-bit counters, and what
`kputchar` writes to is computed from it without a check.  So every address that is written
to is kept in a list beside the memory.

`kmain` sets `con_scroll_offset` to 2, which keeps its two lines of greeting in place, and
back to 0 when it has started the prompt.
-/
import OsThing.Lib.Bytes
import OsThing.Lib.Ram
import Mathlib.Logic.Function.Basic

namespace OsThing.Drivers

open Bytes

def videoram : Nat := 0xb8000

/-- The bytes that `cls` clears, and `XSIZE`. -/
def videoSize : Nat := 4000
def xsize : Nat := 80

structure Console where
  mem : Memory
  curXPos : UInt16
  curYPos : UInt16
  color : UInt16
  conScrollOffset : UInt16
  /-- Where the CRT controller was last told to show the cursor. -/
  cursor : UInt16
  /-- The addresses written to so far, the last one first. -/
  written : List Nat

namespace Console

variable (c : Console)

/-- `videoram + offset`, where the offset is an unsigned number of 32 bits. -/
def address (offset : Nat) : Nat := (videoram + offset % 2 ^ 32) % 2 ^ 32

/-- `videoram[ offset ] = value`. -/
def poke (offset : Nat) (value : UInt8) : Console :=
  { c with
    mem := Function.update c.mem (address offset) value
    written := address offset :: c.written }

/-- `memset( videoram + offset, 0, size )`. -/
def clear (offset size : Nat) : Console :=
  { c with
    mem := fill c.mem (videoram + offset) 0 size
    written := (List.range size).map (videoram + offset + ·) ++ c.written }

/-- The line below is copied to the line `i`, by `memcpy`. -/
def copyLine (i : Nat) : Console :=
  let line := videoram + i * xsize * 2
  { c with
    mem := fun a => c.mem (if line ≤ a ∧ a < line + xsize * 2 then a + xsize * 2 else a)
    written := (List.range (xsize * 2)).map (line + ·) ++ c.written }

def cls : Console := { c.clear 0 videoSize with curXPos := 0, curYPos := 0 }

/-- `kcheck_scroll`.  Its second loop takes `cur_y_pos` back to 24. -/
def kcheckScroll : Console :=
  if c.curYPos > 24 then
    let start := c.conScrollOffset.toNat
    let c := (List.range (24 - start)).foldl (fun c i => c.copyLine (start + i)) c
    ({ c with curYPos := 24 } : Console).clear (max start 24 * xsize * 2) (xsize * 2)
  else c

/-- `move_cursor`. -/
def moveCursor : Console := { c with cursor := c.curYPos * 80 + c.curXPos }

def setColor (newColor : UInt8) : Console := { c with color := newColor.toUInt16 }

/-- The cell of the cursor. -/
def pos : Nat := c.curYPos.toNat * xsize + c.curXPos.toNat

/-- A byte that is shown. -/
def Printable (input : UInt8) : Prop := 0x20 ≤ input ∧ input < 0x7f

instance (input : UInt8) : Decidable (Printable input) := inferInstanceAs (Decidable (_ ∧ _))

/-- A character in the cell of the cursor.  The third write is to the colour of the next one. -/
def draw (input : UInt8) : Console :=
  ((c.poke (c.pos * 2) input).poke (c.pos * 2 + 1) c.color.toUInt8).poke (c.pos * 2 + 3)
    c.color.toUInt8

/-- `cur_x_pos++`, and on to the next line behind the last column. -/
def advance : Console :=
  let c := { c with curXPos := c.curXPos + 1 }
  if c.curXPos > 80 then { c with curYPos := c.curYPos + 1, curXPos := 0 } else c

/-- `cur_x_pos --` and a blank before the cell of the cursor, which wraps around at cell 0. -/
def back : Console :=
  { c with curXPos := c.curXPos - 1 }.poke (c.pos * 2 + 2 ^ 32 - 2) 0x20

/-- The branches of `kputchar`. -/
def put (input : UInt8) : Console :=
  if Printable input then (c.draw input).advance
  else if input = 0x0a then { c with curYPos := c.curYPos + 1, curXPos := 0 }
  else if input = 0x0d then { c with curXPos := 0 }
  else if input = 0x09 then { c with curXPos := c.curXPos + (8 - c.curXPos % 8) }
  else if input = 0x08 then c.back
  else if 0x10 ≤ input ∧ input ≤ 0x1f then c.setColor (input - 0x10)
  else c

def kputchar (input : UInt8) : Console := (c.put input).moveCursor.kcheckScroll

/-- The console before `kmain`. -/
def boot (mem : Memory) : Console := ⟨mem, 0, 0, 0x0f, 0, 0, []⟩

end Console

/-! ### Strings -/

section Strings

variable {σ : Type*} (kputchar : σ → UInt8 → σ) (m : Ram.Memory) (input : UInt32)

/-- The loop of `kputs`, over whatever it is that `kputchar` changes; the string lies in other
memory.  Its length is looked up in every round, and `i` has 16 bits. -/
def kputsLoop : Nat → UInt16 → σ → Option σ
  | 0, _, _ => none
  | fuel + 1, i, s =>
      (Ram.strlen m (2 ^ 32) input).bind fun length =>
        if i.toNat < length then kputsLoop fuel (i + 1) (kputchar s (m (input + i.toUInt32)))
        else some s

/-- `kputs`.  With one round more than there are values of `i`, the loop would have come back to
a value, and goes on forever. -/
def kputs (s : σ) : Option σ := kputsLoop kputchar m input (2 ^ 16 + 1) 0 s

end Strings

/-! ### A run -/

/-- A byte is given to `kputchar`, or `kmain` sets `con_scroll_offset` to 2 or to 0. -/
inductive ConsoleOp
  | kputchar (input : UInt8)
  | keepTop (on : Bool)

def consoleStep (c : Console) : ConsoleOp → Option Console
  | .kputchar input => some (c.kputchar input)
  | .keepTop on => some { c with conScrollOffset := if on then 2 else 0 }

end OsThing.Drivers
