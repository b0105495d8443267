/-
Taking in and splitting a line, as both shells do it: `kshell` in `kern/sys/kshell.c` and in
`user/shell.c`.

A byte that `read` gives is one step: it goes into the line, or it ends the line, which is
then split where it lies, and a command is run.  The kernel's shell looks at the result of
the first `read` of a line, and ends if it failed.  All others are not looked at, and one
that fails leaves `buf` as it was, as if the same byte came again.

What is written through `cmd` and to `args`, and where the loops that split look, is set down
in a log.  Commands read their arguments only, so that they leave `args` alone.  What a shell
prints is left out, and so is `arg_no`, which is the `j` of the loop.
-/
import OsThing.Lib.Bytes
import Mathlib.Logic.Function.Basic

namespace OsThing.Shell

open Bytes

def STR_LIMIT : Nat := 128

/-- What the two calls of `malloc( STR_LIMIT )` return. -/
structure Blocks where
  line : Nat
  args : Nat
  lineEnd : line + STR_LIMIT ≤ 2 ^ 32
  argsEnd : args + STR_LIMIT ≤ 2 ^ 32
  apart : line + STR_LIMIT ≤ args ∨ args + STR_LIMIT ≤ line

inductive Access
  /-- A byte written through `cmd`. -/
  | store (address : Nat)
  /-- `args[ j ]` written. -/
  | slot (j : Nat)
  /-- `*cmd`, looked at while a line is split that ends at `stop`. -/
  | scan (address stop : Nat)

def isQuote (c : UInt8) : Bool := c == 39 || c == 34

/-! ### Splitting -/

/-- The variables of the loop. -/
structure Cursor where
  mem : Memory
  cmd : Nat
  j : Nat
  log : List Access

namespace Cursor

variable (c : Cursor)

def char : UInt8 := c.mem c.cmd

/-- `cmd++`. -/
def next : Cursor := { c with cmd := c.cmd + 1 }

def look (stop : Nat) : Cursor := { c with log := .scan c.cmd stop :: c.log }

/-- `*cmd = 0`. -/
def clear : Cursor :=
  { c with mem := Function.update c.mem c.cmd 0, log := .store c.cmd :: c.log }

/-- `args[ j ] = value`. -/
def setArg (args j value : Nat) : Cursor :=
  { c with mem := write32 c.mem (args + 4 * j) value, log := .slot j :: c.log }

/-- `args[ j++ ] = cmd + 1; *cmd = 0;` at a space. -/
def space (args : Nat) : Cursor :=
  if c.char = 32 then { (c.setArg args c.j (c.cmd + 1)).clear with j := c.j + 1 } else c

end Cursor

/-- The loop to the end of a quotation.  `fuel` is how many addresses there are. -/
def skipQuoted (stop : Nat) : Nat → Cursor → Option Cursor
  | 0, _ => none
  | fuel + 1, c =>
      let c := c.look stop
      if isQuote c.char ∨ c.char = 0 then some c else skipQuoted stop fuel c.next

/-- `*cmd = 0; args[ j - 1 ]++;` at a quote, and then on to the next one. -/
def Cursor.quote (args stop fuel : Nat) (c : Cursor) : Option Cursor :=
  if isQuote c.char then
    let c := c.clear
    let c := c.setArg args (c.j - 1) ((read32 c.mem (args + 4 * (c.j - 1)) + 1) % 2 ^ 32)
    (skipQuoted stop fuel c.next).map (·.clear)
  else some c

/-- The loop that splits a line.  It has no end if there is no 0 up to the last address. -/
def split (args stop : Nat) : Nat → Cursor → Option Cursor
  | 0, _ => none
  | fuel + 1, c =>
      let c := c.look stop
      if c.char = 0 then some c
      else ((c.space args).quote args stop fuel).bind fun c => split args stop fuel c.next

/-! ### The shell -/

/-- The variables of `kshell` between two calls of `read`. -/
structure Kshell where
  mem : Memory
  cmd : Nat
  i : Nat
  running : Bool

/-- A byte that `read` gives, and the memory after the command, if there is one. -/
structure Key where
  byte : UInt8
  after : Memory

/-- `strcmp( string, "exit" ) == 0`. -/
def isExit (mem : Memory) (string : Nat) : Bool :=
  mem string == 101 && mem (string + 1) == 120 && mem (string + 2) == 105 &&
    mem (string + 3) == 116 && mem (string + 4) == 0

namespace Kshell

/-- `args[0] = cmd`. -/
def start (b : Blocks) (mem : Memory) : Kshell := ⟨write32 mem b.args b.line, b.line, 0, true⟩

/-- `cmd[i] = byte`. -/
def put (s : Kshell) (byte : UInt8) : Kshell :=
  { s with mem := Function.update s.mem (s.cmd + s.i) byte }

/-- The line is ended and split, and then commands may run. -/
def endLine (b : Blocks) (s : Kshell) (after : Memory) : Option (List Access × Kshell) :=
  let stop := s.cmd + s.i
  (split b.args stop (2 ^ 32) ⟨(s.put 0).mem, s.cmd, 1, [.store stop]⟩).map fun c =>
    let cmd := read32 c.mem b.args
    let c := c.setArg b.args c.j 0
    let mem := fun a => if b.args ≤ a ∧ a < b.args + STR_LIMIT then c.mem a else after a
    (c.log, ⟨mem, cmd, 0, !isExit mem (read32 mem b.args)⟩)

/-- A byte that `read` gives. -/
def feed (b : Blocks) (s : Kshell) (key : Key) : Option (List Access × Kshell) :=
  if ¬ s.running then none
  else if key.byte ≠ 10 ∧ s.i < STR_LIMIT then
    if key.byte = 8 then some ([.store (s.cmd + s.i)], { s.put 0 with i := s.i - 1 })
    else some ([.store (s.cmd + s.i)], { s.put key.byte with i := s.i + 1 })
  else s.endLine b key.after

end Kshell

def kshellStep (b : Blocks) (s : Kshell) (key : Key) : Option Kshell := (s.feed b key).map (·.2)

end OsThing.Shell
