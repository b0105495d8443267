/-
The input buffer, `kern/sys/skio.c`.

`put_in_char` is called by the interrupt handler of the keyboard and `get_in_char` by the
prompt in `kmain`.  The two indexes and the number of characters that wait are unsigned
32-bit counters; the last one is not looked at when a character is put.

`Traffic` keeps what was put and what was returned beside the buffer.  The zero that
`get_in_char` returns when nothing waits is not a character.
-/
import Mathlib.Logic.Function.Basic

namespace OsThing.Skio

def IN_BUF_SIZE : UInt32 := 64

structure InputBuffer where
  inputBuf : Nat → UInt8
  inputBufP : UInt32
  inputBufI : UInt32
  gotInput : UInt32

namespace InputBuffer

variable (b : InputBuffer)

def getInChar : UInt8 × InputBuffer :=
  if b.gotInput ≠ 0 then
    let i := (b.inputBufI + 1) % IN_BUF_SIZE
    (b.inputBuf i.toNat, { b with inputBufI := i, gotInput := b.gotInput - 1 })
  else (0, b)

def putInChar (buf : UInt8) : InputBuffer :=
  let p := (b.inputBufP + 1) % IN_BUF_SIZE
  { b with
    inputBufP := p
    gotInput := b.gotInput + 1
    inputBuf := Function.update b.inputBuf p.toNat buf }

/-- What the next `k` calls of `get_in_char` return. -/
def next : Nat → InputBuffer → List UInt8
  | 0, _ => []
  | k + 1, b => b.getInChar.1 :: next k b.getInChar.2

/-- What is returned from now on, if nothing more is put. -/
def rest : List UInt8 := b.next b.gotInput.toNat

/-- The buffer before the first key. -/
def boot : InputBuffer := ⟨fun _ => 0, 0, 0, 0⟩

end InputBuffer

/-! ### A run -/

structure Traffic where
  buffer : InputBuffer
  put : List UInt8
  returned : List UInt8

inductive SkioOp
  | putInChar (buf : UInt8)
  | getInChar

def skioStep (t : Traffic) : SkioOp → Option Traffic
  | .putInChar buf => some { t with buffer := t.buffer.putInChar buf, put := t.put ++ [buf] }
  | .getInChar =>
      some { t with
        buffer := t.buffer.getInChar.2
        returned :=
          if t.buffer.gotInput = 0 then t.returned else t.returned ++ [t.buffer.getInChar.1] }

def Traffic.boot : Traffic := ⟨.boot, [], []⟩

end OsThing.Skio
