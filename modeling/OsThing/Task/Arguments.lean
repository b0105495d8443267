/-
How `create_process` in `kern/kern/task/task.c` puts the arguments on the stack of a new task.

`new_task->stack` starts at the end of a block of `KERNEL_STACK_SIZE` bytes and is moved down,
first for the array of pointers, then for each string, and last by the three `PUSH`es.  Nothing
is compared with the start of the block, and there is no way out of the function but its end.
A string is measured twice, the second time after its slot of the array is written, and each
time it is read through `argv` again.

What is written is set down in a log.  The rest of the function, which fills in the fields that
do not depend on `argv` and enters the task, is in `Task/Kernel`.
-/
import OsThing.Lib.Ram

namespace OsThing.Arguments

open Ram

/-- `KERNEL_STACK_SIZE`. -/
def KERNEL_STACK_SIZE : Nat := 0x800

/-- The addresses there are: no loop over bytes or words that ends looks at more. -/
def space : Nat := 2 ^ 32

/-- Memory, `new_task->stack`, and what has been written, the last piece first. -/
structure Builder where
  mem : Memory
  stack : UInt32
  stores : List Span

namespace Builder

variable (b : Builder)

/-- `*address = value`, for a word. -/
def setWord (address value : UInt32) : Builder :=
  { b with mem := Ram.setWord b.mem address value, stores := ⟨address, 4⟩ :: b.stores }

/-- `memcpy( dest, src, count )`. -/
def copy (dest src : UInt32) (count : Nat) : Builder :=
  { b with mem := memcpy dest src count b.mem, stores := ⟨dest, count⟩ :: b.stores }

/-- `stack -= size`. -/
def lower (size : Nat) : Builder := { b with stack := b.stack - UInt32.ofNat size }

/-- `PUSH( new_task->stack, data )`. -/
def push (data : UInt32) : Builder := (b.lower 4).setWord (b.stack - 4) data

end Builder

/-- `for ( argc = 0; argv[argc]; argc++ );` -/
def countArgs (m : Memory) : Nat → UInt32 → Option Nat
  | 0, _ => none
  | fuel + 1, argv => if word m argv = 0 then some 0 else (countArgs m fuel (argv + 4)).map (· + 1)

/-- Where the entry `i` of an array of pointers is. -/
def slot (array : UInt32) (i : Nat) : UInt32 := array + UInt32.ofNat (4 * i)

/-- The body of the loop that copies the strings. -/
def copyArg (argv newArgv : UInt32) (b : Builder) (i : Nat) : Option Builder :=
  (strlen b.mem space (word b.mem (slot argv i))).bind fun length =>
    let b := b.lower (length + 1)
    let b := b.setWord (slot newArgv i) b.stack
    let arg := word b.mem (slot argv i)
    (strlen b.mem space arg).map fun length =>
      b.copy (word b.mem (slot newArgv i)) arg (length + 1)

/-- What the new task starts with. -/
structure NewTask where
  mem : Memory
  argv : UInt32
  esp : UInt32
  stores : List Span

/-- `argc`, where `argv` may be a null pointer. -/
def argCount (m : Memory) (argv : UInt32) : Option Nat :=
  if argv = 0 then some 0 else countArgs m space argv

/-- From `if ( argv )` to `new_task->esp = new_task->stack`, with a stack that ends at `top`. -/
def passArgs (m : Memory) (top argv envp : UInt32) : Option NewTask :=
  (argCount m argv).bind fun argc =>
    let b := Builder.lower ⟨m, top, []⟩ (4 * argc + 1)
    let newArgv := b.stack
    ((List.range argc).foldlM (copyArg argv newArgv) b).map fun b =>
      let b := b.setWord (slot newArgv argc) 0
      let b := ((b.push envp).push newArgv).push (UInt32.ofNat argc)
      ⟨b.mem, newArgv, b.stack, b.stores⟩

end OsThing.Arguments
