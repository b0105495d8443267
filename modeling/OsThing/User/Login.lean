/-
`user/login.c`: how the bytes that are typed become passwords.

A byte that `read` gives from the standard input is one step.  What `login` prints is kept as the
passwords that it says it got and whether it says that they are correct; what it starts then, and
what becomes of that, changes none of its variables.  A store outside `buf` is not a step.
-/
import OsThing.Kern.Strings

namespace OsThing

/-- The variables of `main` between two calls of `read`. -/
structure Login where
  buf : Nat → UInt8
  i : Nat
  got : List (List UInt8)
  correct : List Bool

namespace Login

open Strings

def MAX_LEN : Nat := 32

/-- `"password"`. -/
def pass : List UInt8 := [112, 97, 115, 115, 119, 111, 114, 100]

def start (buf : Nat → UInt8) : Login := ⟨buf, 0, [], []⟩

variable (s : Login)

/-- `buf[i] = value`. -/
def store (value : UInt8) : Option Login :=
  if s.i < MAX_LEN + 1 then some { s with buf := Function.update s.buf s.i value } else none

def string : List UInt8 := ((List.range (MAX_LEN + 1)).map s.buf).takeWhile (· ≠ 0)

/-- Behind the `for`: the password is there, and `login` begins again. -/
def check : Option Login :=
  (s.store 0).map fun s =>
    { s with i := 0, got := s.got ++ [s.string], correct := s.correct ++ [strcmp s.string pass == 0] }

/-- A byte that `read` gives for `temp`. -/
def feed (temp : UInt8) : Option Login :=
  if s.i < MAX_LEN ∧ temp ≠ 10 then (s.store temp).map fun s => { s with i := s.i + 1 }
  else s.check

end Login

end OsThing
