/-
Formatted output and numbers, `kern/lib/stdio.c`.

What comes out of these functions are calls: of `kputchar` with a byte, and of `write` with a
descriptor and the bytes of a buffer.  The format and its string arguments lie in memory, and
the arguments themselves are the words that `va_arg` takes off the stack, one behind the other.

There are three copies of the loop over the format, two here and one in `user/lib/stdio.c`, and
six of the loop over the digits of a number.  They differ in what they call: so there is one
definition of each loop, and `Printers` are what a copy of it calls.
-/
import OsThing.Drivers.Console

namespace OsThing.Stdio

open Ram Drivers

inductive Call
  | kputchar (c : UInt8)
  | write (fd : Int) (buf : List UInt8)
  deriving DecidableEq

/-- The bytes given to `kputchar`. -/
def consoleBytes (calls : List Call) : List UInt8 :=
  calls.flatMap fun
    | .kputchar c => [c]
    | .write _ _ => []

/-- The bytes written to a descriptor. -/
def fileBytes (fd : Int) (calls : List Call) : List UInt8 :=
  calls.flatMap fun
    | .kputchar _ => []
    | .write written buf => if written = fd then buf else []

/-! ### Numbers -/

/-- The variables of the loop over the digits.  What has been stored in `buf[16]` so far is a
list, and `i` is its length. -/
structure DigitLoop where
  a : UInt32
  r : UInt32
  d : UInt32
  buf : List UInt8

/-- `for ( i = 0; a; r = a = d )`.  In each round `a` gets smaller. -/
def digitLoop (base : UInt32) (letter : UInt32 → UInt8) : Nat → DigitLoop → Option DigitLoop
  | 0, _ => none
  | fuel + 1, s =>
      if s.a = 0 then some s
      else
        let d := s.r / base
        digitLoop base letter fuel ⟨d, d, d, s.buf ++ [letter (s.r - d * base)]⟩

/-- What the loop leaves in `buf`. -/
def storedDigits (base : UInt32) (letter : UInt32 → UInt8) (input : UInt32) :
    Option (List UInt8) :=
  (digitLoop base letter (input.toNat + 1) ⟨input, input, 0, []⟩).map (·.buf)

/-- A zero by itself, and the digits from the last one stored to the first. -/
def printDigits (put : UInt8 → Call) (base : UInt32) (letter : UInt32 → UInt8) (input : UInt32) :
    Option (List Call) :=
  (storedDigits base letter input).map fun buf =>
    (if input = 0 then [put 48] else []) ++ buf.reverse.map put

/-- `(r - d * 10) + '0'`. -/
def decimalLetter (digit : UInt32) : UInt8 := (digit + 48).toUInt8

/-- `letters`, which is `"0123456789abcdef"`. -/
def letters : List UInt8 :=
  [48, 49, 50, 51, 52, 53, 54, 55, 56, 57, 97, 98, 99, 100, 101, 102]

def hexLetter (digit : UInt32) : UInt8 := letters.getD digit.toNat 0

def printNum : UInt32 → Option (List Call) := printDigits .kputchar 10 decimalLetter

def printHex : UInt32 → Option (List Call) := printDigits .kputchar 16 hexLetter

def fprintNum (fd : Int) : UInt32 → Option (List Call) :=
  printDigits (fun c => .write fd [c]) 10 decimalLetter

def fprintHex (fd : Int) : UInt32 → Option (List Call) :=
  printDigits (fun c => .write fd [c]) 16 hexLetter

/-- A `char` as an `int`, which is kept in 32 bits here. -/
def charInt (c : UInt8) : UInt32 := c.toInt8.toInt32.toUInt32

/-- The loop of `atoi`, from the last character to the first. -/
def atoiLoop (m : Memory) (string : UInt32) : Nat → UInt32 → UInt32 → UInt32 → Option UInt32
  | 0, _, _, _ => none
  | fuel + 1, i, p, output =>
      if i + 1 ≠ 0 then
        atoiLoop m string fuel (i - 1) (p * 10) (output + (charInt (m (string + i)) - 48) * p)
      else some output

def atoi (m : Memory) (string : UInt32) : Option Int32 :=
  (strlen m (2 ^ 32) string).bind fun length =>
    (atoiLoop m string (length + 1) (UInt32.ofNat length - 1) 1 0).map (·.toInt32)

/-! ### Formats -/

/-- The functions that a copy of the loop calls. -/
structure Printers where
  putChar : UInt8 → List Call
  putString : UInt32 → Option (List Call)
  putNum : UInt32 → Option (List Call)
  putHex : UInt32 → Option (List Call)

/-- The character behind a `%`: what is called, and where the next argument is. -/
def directive (p : Printers) (m : Memory) (c : UInt8) (args : UInt32) :
    Option (List Call × UInt32) :=
  let arg := word m args
  if c = '%'.toUInt8 then some (p.putChar '%'.toUInt8, args)
  else if c = 'c'.toUInt8 then some (p.putChar arg.toUInt8, args + 4)
  else if c = 's'.toUInt8 then (p.putString arg).map (·, args + 4)
  else if c = 'd'.toUInt8 then (p.putNum arg).map (·, args + 4)
  else if c = 'u'.toUInt8 then (p.putNum arg).map (·, args + 4)
  else if c = 'x'.toUInt8 then (p.putHex arg).map (·, args + 4)
  else some ([], args)

/-- `for ( i = 0; i < slen; i++ )`, from a character of the format on. -/
def formatLoop (p : Printers) (m : Memory) (format : UInt32) (slen : Int) :
    Nat → Nat → UInt32 → Option (List Call)
  | 0, _, _ => none
  | fuel + 1, i, args =>
      if (i : Int) < slen then
        let c := m (format + UInt32.ofNat i)
        if c = '%'.toUInt8 then
          (directive p m (m (format + UInt32.ofNat (i + 1))) args).bind fun (calls, args) =>
            (formatLoop p m format slen fuel (i + 2) args).map (calls ++ ·)
        else (formatLoop p m format slen fuel (i + 1) args).map (p.putChar c ++ ·)
      else some []

/-- The loop over a whole format.  `slen` is an `int`, which is below zero for a format that is
too long. -/
def formatWith (p : Printers) (m : Memory) (format args : UInt32) : Option (List Call) :=
  (strlen m (2 ^ 32) format).bind fun length =>
    let slen := (UInt32.ofNat length).toInt32.toInt
    formatLoop p m format slen (slen.toNat + 1) 0 args

/-- The `n` bytes at an address. -/
def bytesAt (m : Memory) (a : UInt32) (n : Nat) : List UInt8 :=
  (List.range n).map fun i => m (a + UInt32.ofNat i)

/-- `write( fd, str, strlen( str ))`. -/
def writeString (fd : Int) (m : Memory) (str : UInt32) : Option (List Call) :=
  (strlen m (2 ^ 32) str).map fun length => [.write fd (bytesAt m str length)]

/-- What `kvfprintf` calls. -/
def filePrinters (fd : Int) (m : Memory) : Printers where
  putChar c := [.write fd [c]]
  putString := writeString fd m
  putNum := fprintNum fd
  putHex := fprintHex fd

def kvfprintf (fd : Int) (m : Memory) (format args : UInt32) : Option (List Call) :=
  formatWith (filePrinters fd m) m format args

/-- What `printf` calls. -/
def consolePrinters (m : Memory) : Printers where
  putChar c := [.kputchar c]
  putString str := kputs (fun calls c => calls ++ [.kputchar c]) m str []
  putNum := printNum
  putHex := printHex

/-- `printf`.  With a debug file there is, `open` gives a new descriptor `ser0` for it, and all
is written there first. -/
def printf (debugFile ser0 : Int) (m : Memory) (format args : UInt32) : Option (List Call) :=
  (if debugFile > -1 then kvfprintf ser0 m format args else some []).bind fun debug =>
    (formatWith (consolePrinters m) m format args).map (debug ++ ·)

end OsThing.Stdio
