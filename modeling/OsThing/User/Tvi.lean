/-
The editor, `user/tvi.c`.

A file is read once, at the start, and a table is made of where its lines are.  A key is one
step: it goes to the function of the mode, and then the screen is drawn again.  Nothing is
inserted in the insert mode yet.  Memory suffices, and `read` gets as many bytes as `lstat` told.
-/
import OsThing.User.Stdio
import Mathlib.Logic.Function.Basic

namespace OsThing.Tvi

open Stdio (Call)
open UserStdio (stdout printNum)

def TAB_SIZE : Nat := 8

/-- What is in a file.  `st.size` is an `int`. -/
abbrev Content := {data : List UInt8 // data.length < 2 ^ 31}

/-- `fbuf_t`.  The array behind `linebuf` comes from `malloc`: there is `none` where nothing was
ever stored, in the array or outside. -/
structure Fbuf where
  size : Nat
  lines : Nat
  name : List UInt8
  data : List UInt8
  linebuf : Nat → Option Nat

inductive Emode
  | command
  | insert
  deriving DecidableEq

/-- `screen_t`.  `buf`, which is set before anything is drawn, is an argument of its own here. -/
structure Screen where
  fd : Int
  posY : Int32
  screenX : Nat
  screenY : Nat
  curX : Int32
  curY : Int32
  mode : Emode
  running : Bool

/-! ### The file -/

/-- The loop that counts `'\n'`. -/
def countLines : List UInt8 → Nat → Nat
  | [], lines => lines
  | c :: rest, lines => countLines rest (if c = 10 then lines + 1 else lines)

/-- The loop that fills `linebuf`, from the byte `i` on. -/
def fillLinebuf (lines : Nat) :
    List UInt8 → Nat → Nat → (Nat → Option Nat) → Nat → Option Nat
  | [], _, _, linebuf => linebuf
  | c :: rest, i, j, linebuf =>
      if j < lines then
        if c = 10 then
          fillLinebuf lines rest (i + 1) (j + 1) (Function.update linebuf j (some (i + 1)))
        else fillLinebuf lines rest (i + 1) j linebuf
      else linebuf

def loadFile (name : List UInt8) (content : Content) : Fbuf :=
  let lines := countLines content.val 0
  { size := content.val.length
    lines
    name
    data := content.val
    linebuf := fillLinebuf lines content.val 0 0 fun _ => none }

/-- `linebuf[ i ]` -/
def Fbuf.linebufAt (b : Fbuf) (i : Int) : Option Nat := if i < 0 then none else b.linebuf i.toNat

/-! ### Drawing -/

def putc (c : UInt8) (fd : Int) : List Call := [.write fd [c]]

/-- The variables of the loop over a row, and what is written. -/
structure Row where
  j : Nat
  t : Int
  overflowed : Bool
  out : List Call

/-- `for ( ; k <= TAB_SIZE && j <= t; t--, k++ )`, with the number of rounds that `k` leaves. -/
def tabLoop (fd : Int) : Nat → Row → Row
  | 0, r => r
  | left + 1, r =>
      if r.j ≤ r.t then
        tabLoop fd left { r with t := r.t - 1, out := r.out ++ putc ' '.toUInt8 fd }
      else r

/-- What is drawn for a byte that does not end the line. -/
def drawByte (s : Screen) (c : UInt8) (r : Row) : Row :=
  if c = '\t'.toUInt8 then
    let k := ((s.screenX - (r.t - r.j) + 1).tmod TAB_SIZE).toNat
    tabLoop s.fd (TAB_SIZE + 1 - k) r
  else { r with out := r.out ++ putc c s.fd }

/-- `for ( t = j + s->screen_x; j < t && j < s->buf->size; j++ )`.  `fuel` is the size. -/
def rowLoop (s : Screen) (b : Fbuf) : Nat → Row → Row
  | 0, r => r
  | fuel + 1, r =>
      if r.j < r.t ∧ r.j < b.size then
        let c := b.data.getD r.j 0
        if c = '\n'.toUInt8 then { r with j := r.j + 1 }
        else
          let r := drawByte s c r
          rowLoop s b fuel { r with j := r.j + 1, overflowed := r.overflowed || r.j == r.t - 1 }
      else r

/-- The rest of a line that is too long, up to the byte behind its end. -/
def skipRest (b : Fbuf) (j : Nat) : Nat :=
  j + ((b.data.drop j).takeWhile (· ≠ '\n'.toUInt8)).length + 1

/-- A row of the screen, and where the next one begins. -/
def drawRow (s : Screen) (b : Fbuf) (j : Nat) : Nat × List Call :=
  let r := rowLoop s b b.size ⟨j, j + s.screenX, false, []⟩
  let j := if r.overflowed then skipRest b r.j else r.j
  (j, r.out ++ putc '\n'.toUInt8 s.fd ++ if j = b.size then putc '~'.toUInt8 s.fd else [])

def drawRows (s : Screen) (b : Fbuf) : Nat → Nat → List Call
  | 0, _ => []
  | left + 1, j =>
      let (j, out) := drawRow s b j
      out ++ drawRows s b left j

def modes : Emode → List UInt8
  | .command => "command".toUTF8.toList
  | .insert => "insert".toUTF8.toList

/-- The characters of a format, one by one. -/
def text (format : String) : List Call := format.toUTF8.toList.flatMap (putc · stdout)

/-- The line below the rows. -/
def statusLine (s : Screen) (b : Fbuf) : Option (List Call) :=
  (printNum (UInt32.ofNat b.lines)).bind fun lines =>
    (printNum s.curX.toUInt32).bind fun curX =>
      (printNum s.curY.toUInt32).bind fun curY =>
        (printNum s.posY.toUInt32).map fun posY =>
          text "[" ++ [.write stdout b.name] ++ text ":" ++ lines ++ text "] (" ++
            [.write stdout (modes s.mode)] ++ text "): " ++ curX ++ text ", " ++ curY ++
              text ", " ++ posY

/-- `s->buf->linebuf[ MIN( s->pos_y, s->buf->lines )]`, where `blit` starts. -/
def blitStart (s : Screen) (b : Fbuf) : Option Nat :=
  b.linebufAt (if s.posY.toInt < b.lines then s.posY.toInt else b.lines)

/-- There is no result if it starts at what happens to be in the array. -/
def blit (s : Screen) (b : Fbuf) : Option (List Call) :=
  (blitStart s b).bind fun j =>
    (statusLine s b).map fun status =>
      putc '\n'.toUInt8 s.fd ++ drawRows s b (s.screenY - 1) j ++ status

/-! ### Keys -/

def commandFunc (b : Fbuf) (s : Screen) (c : UInt8) : Screen :=
  if c = 'j'.toUInt8 then { s with posY := s.posY + 1 }
  else if c = 'k'.toUInt8 then if s.posY ≠ 0 then { s with posY := s.posY - 1 } else s
  else if c = 'g'.toUInt8 then { s with posY := 0 }
  else if c = 'G'.toUInt8 then
    let posY := Int32.ofNat b.lines - Int32.ofNat s.screenY
    { s with posY := if posY < 0 then 0 else posY }
  else if c = 'i'.toUInt8 then { s with mode := .insert }
  else if c = 'q'.toUInt8 then { s with running := false }
  else s

def insertFunc (s : Screen) (c : UInt8) : Screen := if c = 27 then { s with mode := .command } else s

def initScreen (fd : Int) : Screen where
  fd := fd
  posY := 0
  screenX := 80
  screenY := 25
  curX := 0
  curY := 0
  mode := .command
  running := true

/-- A round of the loop of `main`.  The screen is drawn in the state behind it. -/
def mainStep (b : Fbuf) (s : Screen) (c : UInt8) : Option Screen :=
  if s.running then
    some (match s.mode with
      | .command => commandFunc b s c
      | .insert => insertFunc s c)
  else none

end OsThing.Tvi
