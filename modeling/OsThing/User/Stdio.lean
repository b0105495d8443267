/-
Formatted output and numbers for programs, `user/lib/stdio.c`.

All that is printed is written to `stdout`, by `syscall_write`.
-/
import OsThing.Kern.Stdio

namespace OsThing.UserStdio

open Ram Stdio

def stdout : Int := 1

def printNum : UInt32 → Option (List Call) :=
  printDigits (fun c => .write stdout [c]) 10 decimalLetter

def printHex : UInt32 → Option (List Call) :=
  printDigits (fun c => .write stdout [c]) 16 hexLetter

/-- What `printf` calls. -/
def printers (m : Memory) : Printers where
  putChar c := [.write stdout [c]]
  putString := writeString stdout m
  putNum := printNum
  putHex := printHex

def printf (m : Memory) (format args : UInt32) : Option (List Call) :=
  formatWith (printers m) m format args

/-- The same lines as those of the kernel's `atoi`. -/
def atoi (m : Memory) (string : UInt32) : Option Int32 := Stdio.atoi m string

end OsThing.UserStdio
