/-
The keyboard, `kern/drivers/peripherals/kb.c`.

The interrupt handler puts the character of a key that is pressed into `read_buf`, which is one
byte, with zero for nothing.  `read_kb` takes it out again, and sleeps as long as nothing is
there.  The handler runs between any two accesses that `read_kb` makes to `read_buf`; so these
are the steps of a read, with a `PollPoint` for each, and between them come interrupts.

A read keeps beside it the characters of the keys that were pressed since it began, of which
the ones that are zero belong to keys without a character.
-/
import OsThing.Sys.Skio

namespace OsThing.Drivers

open Skio

def KB_SH : UInt8 := 1
def KB_LA : UInt8 := 0xf0
def KB_RA : UInt8 := 0xf1
def KB_UA : UInt8 := 0xf2
def KB_DA : UInt8 := 0xf3

/-- `lower_map` and `upper_map`. -/
inductive KeyMap
  | lower
  | upper
  deriving DecidableEq

def chars (cs : List Char) : List UInt8 := cs.map Char.toUInt8

/-- The second half of both tables, from the key behind the right shift on. -/
def keypad : List UInt8 :=
  chars ['*'] ++ [0] ++ chars [' '] ++ List.replicate 14 0 ++
    [KB_UA, 0, '-'.toUInt8, KB_LA, 0, KB_RA, '+'.toUInt8, 0, KB_DA] ++ List.replicate 10 0

/-- `us_kbd`; 96 is the backquote. -/
def usKbd : List UInt8 :=
  [0, 27] ++ chars ['1', '2', '3', '4', '5', '6', '7', '8', '9', '0', '-', '=', '\x08', '\t',
    'q', 'w', 'e', 'r', 't', 'y', 'u', 'i', 'o', 'p', '[', ']', '\n'] ++ [0] ++
  chars ['a', 's', 'd', 'f', 'g', 'h', 'j', 'k', 'l', ';', '\''] ++ [96, KB_SH] ++
  chars ['\\', 'z', 'x', 'c', 'v', 'b', 'n', 'm', ',', '.', '/'] ++ [KB_SH] ++ keypad

/-- `us_kbd_shift`; 123 and 125 are the braces. -/
def usKbdShift : List UInt8 :=
  [0, 27] ++ chars ['!', '@', '#', '$', '%', '^', '&', '*', '(', ')', '_', '+', '\x08', '\t',
    'Q', 'W', 'E', 'R', 'T', 'Y', 'U', 'I', 'O', 'P'] ++ [123, 125, 10, 0] ++
  chars ['A', 'S', 'D', 'F', 'G', 'H', 'J', 'K', 'L', ':', '"', '~'] ++ [KB_SH] ++
  chars ['|', 'Z', 'X', 'C', 'V', 'B', 'N', 'M', '<', '>', '?'] ++ [KB_SH] ++ keypad

def KeyMap.table : KeyMap → List UInt8
  | .lower => usKbd
  | .upper => usKbdShift

/-- `map[code]`, where the rest of the 128 entries is zero. -/
def KeyMap.char (map : KeyMap) (code : UInt8) : UInt8 := map.table.getD code.toNat 0

structure Keyboard where
  /-- `map`, and `none` while `map_set` is 0. -/
  map : Option KeyMap
  readBuf : UInt8
  /-- The input buffer of `skio.c`. -/
  input : InputBuffer

namespace Keyboard

variable (kb : Keyboard)

/-- The map that the handler uses. -/
def keyMap : KeyMap := kb.map.getD .lower

/-- `keyboard_handler`, where `inb( 0x60 )` is `scancode`. -/
def keyboardHandler (scancode : UInt8) : Keyboard :=
  if scancode &&& 0x80 ≠ 0 then
    let buf := kb.keyMap.char (scancode - 0x80)
    { kb with map := some (if buf = KB_SH then .lower else kb.keyMap) }
  else
    let buf := kb.keyMap.char scancode
    if buf = KB_SH then { kb with map := some .upper }
    else { map := some kb.keyMap, readBuf := buf, input := kb.input.putInChar buf }

/-- The character of a key that is pressed, if it is not the shift key. -/
def pressed (scancode : UInt8) : Option UInt8 :=
  if scancode &&& 0x80 ≠ 0 then none
  else if kb.keyMap.char scancode = KB_SH then none
  else some (kb.keyMap.char scancode)

end Keyboard

/-! ### A read -/

/-- What `read_kb` does next. -/
inductive PollPoint
  /-- The first `read_buf = 0`. -/
  | start
  /-- `while ( !read_buf )`, and `sleep_thread`. -/
  | poll
  /-- `out_buf[i] = read_buf`. -/
  | copy
  /-- `read_buf = 0`, and `i++`. -/
  | clear
  /-- The last `read_buf = 0`. -/
  | last
  /-- `return i`. -/
  | done
  deriving DecidableEq

structure Reading where
  kb : Keyboard
  point : PollPoint
  size : Nat
  /-- What was stored so far, `out_buf[0]` first. -/
  out : List UInt8
  /-- The characters of the keys pressed since the call, the first one first. -/
  keys : List UInt8

namespace Reading

variable (r : Reading)

def setReadBuf (c : UInt8) : Reading := { r with kb := { r.kb with readBuf := c } }

/-- The head of the loop, `i < size`. -/
def loop : PollPoint := if r.out.length < r.size then .poll else .last

/-- The next step of `read_kb`. -/
def advance : Option Reading :=
  match r.point with
  | .start => some { r.setReadBuf 0 with point := r.loop }
  | .poll => some (if r.kb.readBuf = 0 then r else { r with point := .copy })
  | .copy => some { r with out := r.out ++ [r.kb.readBuf], point := .clear }
  | .clear => some { r.setReadBuf 0 with point := r.loop }
  | .last => some { r.setReadBuf 0 with point := .done }
  | .done => none

/-- The interrupt of a key. -/
def interrupt (scancode : UInt8) : Reading :=
  { r with
    kb := r.kb.keyboardHandler scancode
    keys := r.keys ++ (r.kb.pressed scancode).toList }

/-- `read_kb( node, buf, size )` is called; `pread_kb` calls it too. -/
def readKb (kb : Keyboard) (size : Nat) : Reading := ⟨kb, .start, size, [], []⟩

end Reading

/-- A key is pressed or released, or `read_kb` goes on. -/
inductive ReadOp
  | key (scancode : UInt8)
  | advance

def readStep (r : Reading) : ReadOp → Option Reading
  | .key scancode => some (r.interrupt scancode)
  | .advance => r.advance

end OsThing.Drivers
