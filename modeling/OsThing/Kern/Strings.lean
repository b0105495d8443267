/-
Strings and memory, `kern/lib/string.c`; `user/lib/string.c` has the same lines.

`strlen` and `memcpy` are those of `Ram`.  `memset` counts down too.  A string that is only compared is given by its
bytes.
-/
import OsThing.Lib.Ram
import Mathlib.Data.List.Basic

namespace OsThing.Strings

open Ram

/-- The loop of `memmove`: a byte is copied, and then a zero is stored where the next one is to
be copied from. -/
def memmoveLoop (dest src : UInt32) : Nat → Memory → Memory
  | 0, m => m
  | count + 1, m =>
      let m := Function.update m dest (m src)
      memmoveLoop (dest + 1) (src + 1) count (Function.update m (src + 1) 0)

def memmove (dest src count : UInt32) (m : Memory) : Memory :=
  memmoveLoop dest src count.toNat m

/-- The loop of `memset`. -/
def memset (dest : UInt32) (value : UInt8) : Nat → Memory → Memory
  | 0, m => m
  | count + 1, m => memset (dest + 1) value count (Function.update m dest value)

/-- `strcmp`, of strings of the same length the number of places at which they differ. -/
def strcmp (s₁ s₂ : List UInt8) : Int32 :=
  let len₁ := UInt32.ofNat s₁.length
  let len₂ := UInt32.ofNat s₂.length
  if len₁ ≠ len₂ then (len₁ - len₂).toInt32
  else
    let differ := (s₁.zip s₂).countP fun (c₁, c₂) => c₁ != c₂
    (UInt32.ofNat differ).toInt32

end OsThing.Strings
