/-
The table of exported kernel symbols, `kern/kern/symbols.c`.

A symbol is found by the hash of its name: `ksymbol_t` has room for the hash and the
address and for nothing else, so the string of an export is gone when the call returns.

`kmalloc` is taken to find room for the array of buckets and for every `ksymbol_t`.
Since each of them takes 12 bytes of a 32-bit memory, `used` and `entries` are counted
without a bound.  What the functions print is left out.
-/
import OsThing.Lib.Cells
import Mathlib.Data.UInt

namespace OsThing.Symbols

open Chain

/-- The characters of a C string, which end before the first zero. -/
abbrev CString := {string : List Int8 // 0 ∉ string}

/-- `ksymbol_t`, less its link. -/
structure Ksymbol where
  hash : UInt32
  address : UInt32
  deriving DecidableEq, Repr

/-- `ksymbol_bucket_t` -/
structure Bucket where
  entries : Nat
  root : Option Nat

/-- `ksymbol_bin_t`, and the memory that its symbols are in. -/
structure Bin where
  nbuckets : UInt32
  used : Nat
  buckets : Nat → Bucket
  symbols : Cells Ksymbol

/-- A `char` is signed, and as an operand beside an `unsigned long` it is extended. -/
def extend (c : Int8) : UInt32 := c.toInt32.toUInt32

/-- The loop of `hash_symbol` from `string[i]` on. -/
def hashLoop (ret i : UInt32) : List Int8 → UInt32
  | [] => ret
  | c :: string => hashLoop ((ret ^^^ extend c * (i + 1)) * extend c) (i + 1) string

def hashSymbol (string : CString) : UInt32 := hashLoop 0 0 string.val

/-- `hash % bin->nbuckets`, which is a fault in a table of no buckets. -/
def Bin.index (bin : Bin) (hash : UInt32) : Option Nat :=
  if bin.nbuckets = 0 then none else some (hash % bin.nbuckets).toNat

/-- `ptr->hash == hash` -/
def Bin.hit (bin : Bin) (hash : UInt32) (ptr : Nat) : Bool :=
  decide ((bin.symbols.val ptr).hash = hash)

/-- `get_symbol`, or `none` for a fault or a list without an end. -/
def getSymbol (bin : Bin) (string : CString) : Option UInt32 :=
  let hash := hashSymbol string
  (bin.index hash).bind fun i =>
    let b := bin.buckets i
    if b.entries = 0 then some 0
    else
      (seek bin.symbols.next (bin.hit hash) bin.symbols.count b.root).map fun
        | some ptr => (bin.symbols.val ptr).address
        | none => 0

/--
The loop of `export_symbol`: `found` and `new_node` where it ends.  It comes with the
`new_node` so far, which is null here while the source has not set it.
-/
def exportLoop (bin : Bin) (hash : UInt32) :
    Nat → Option Nat → Option Nat → Option (Bool × Option Nat)
  | _, none, newNode => some (false, newNode)
  | 0, some _, _ => none
  | fuel + 1, some ptr, _ =>
      if bin.hit hash ptr then some (true, some ptr)
      else exportLoop bin hash fuel (bin.symbols.next ptr) (some ptr)

/-- `make_symbol( string, address )` gets the next number. -/
def makeSymbol (bin : Bin) (string : CString) (address : UInt32) : Bin :=
  { bin with symbols := bin.symbols.alloc ⟨hashSymbol string, address⟩ }

/-- `b->entries++`, and the new root if there is one. -/
def Bin.count (bin : Bin) (i : Nat) (root : Option Nat) : Bin :=
  { bin with buckets := Function.update bin.buckets i ⟨(bin.buckets i).entries + 1, root⟩ }

/-- `export_symbol`, or `none` for a fault or a list without an end. -/
def exportSymbol (bin : Bin) (string : CString) (address : UInt32) : Option Bin :=
  let hash := hashSymbol string
  (bin.index hash).bind fun i =>
    let b := bin.buckets i
    if b.entries = 0 then
      some { (makeSymbol bin string address).count i (some bin.symbols.count) with
        used := bin.used + 1 }
    else
      (exportLoop bin hash bin.symbols.count b.root none).bind fun
        | (true, some ptr) =>
            some { bin with symbols := bin.symbols.modify ptr fun s => { s with address } }
        | (false, some newNode) =>
            let made := makeSymbol bin string address
            some ({ made with symbols := made.symbols.link newNode bin.symbols.count }.count i
              b.root)
        | (_, none) => none

/-- `init_symbol_bin( size )`: every bucket is cleared. -/
def initSymbolBin (garbage : Nat → Ksymbol) (size : UInt32) : Bin where
  nbuckets := size
  used := 0
  buckets := fun _ => ⟨0, none⟩
  symbols := ⟨garbage, fun _ => none, 0⟩

/-- A sequence of exports. -/
def exportAll (bin : Bin) : List (CString × UInt32) → Option Bin
  | [] => some bin
  | (string, address) :: rest =>
      (exportSymbol bin string address).bind fun bin => exportAll bin rest

end OsThing.Symbols
