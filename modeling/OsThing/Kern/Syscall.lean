/-
The dispatch of system calls, `kern/kern/syscall.c`.

Interrupt 0x50 brings the registers of the task here, with the number of the call in `eax`.
The table is an array of pointers to functions.  What the words behind it hold is up to the
linker, and where it put the functions too: both are part of a `KernelImage`.

The called function gets the five arguments that the handler pushes, and what it returns goes
back into `eax`.  What it does otherwise is not modelled here.
-/
import Mathlib.Data.List.Basic

namespace OsThing.Syscall

/-- The functions that `syscalls` names. -/
inductive Function
  | cls | exit | open | close | read
  | write | lseek | lstat
  | readdir | mkdir | chdir
  | chroot | mount | unmount | getpid | fexecve | createThread
  | wait | kill | sendMsg | getMsg | kputs
  | loadModule | kexportSymbol | kgetSymbol | sbrk | signal
  deriving DecidableEq, Repr

/-- The initialisers of the table; the ones that are commented out there are not here. -/
def syscalls : List Function :=
  [.cls, .exit, .open, .close, .read,
   .write, .lseek, .lstat,
   .readdir, .mkdir, .chdir,
   .chroot, .mount, .unmount, .getpid, .fexecve, .createThread,
   .wait, .kill, .sendMsg, .getMsg, .kputs,
   .loadModule, .kexportSymbol, .kgetSymbol, .sbrk, .signal]

/-- `sizeof( void * )`. -/
def pointerSize : Nat := 4

/-- `NUM_SYSCALLS`, which is `sizeof( syscalls )`. -/
def numSyscalls : Nat := pointerSize * syscalls.length

/-- What the linker made of the kernel: where the functions are, and the words behind the
table. -/
structure KernelImage where
  address : Function → UInt32
  behind : Nat → UInt32

/-- The word `syscalls[index]`, inside the table or behind it. -/
def KernelImage.word (image : KernelImage) (index : Nat) : UInt32 :=
  match syscalls[index]? with
  | some f => image.address f
  | none => image.behind (index - syscalls.length)

/-- The part of `registers_t` that the handler uses. -/
structure Registers where
  eax : UInt32
  ebx : UInt32
  ecx : UInt32
  edx : UInt32
  esi : UInt32
  edi : UInt32

/-- A call that the handler makes: the index its `location` was read at, and what the function
finds as its arguments. -/
structure Call where
  index : Nat
  location : UInt32
  args : List UInt32

/-- The call that `syscall_handler` makes, if it does not return at once. -/
def dispatch (image : KernelImage) (regs : Registers) : Option Call :=
  if numSyscalls ≤ regs.eax.toNat then none
  else some
    { index := regs.eax.toNat
      location := image.word regs.eax.toNat
      args := [regs.ebx, regs.ecx, regs.edx, regs.esi, regs.edi] }

/-- `syscall_handler`, where `run` is what the called code returns. -/
def syscallHandler (image : KernelImage) (run : Call → UInt32) (regs : Registers) : Registers :=
  match dispatch image regs with
  | none => regs
  | some call => { regs with eax := run call }

end OsThing.Syscall
