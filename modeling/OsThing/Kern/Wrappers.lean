/-
The wrappers of the system calls: `user/lib/syscall.c`, `kern/modules/lib/syscall.c` and the
ones that `kern/kern/syscall.c` has for itself.

All of them are made by the same macros: the number goes into `eax`, the parameters into
`ebx`, `ecx`, `edx` and `esi`, and what `eax` holds after `int 0x50` is returned.  The three
lists of numbers are kept by hand, and so is the table in the kernel.
-/
import OsThing.Kern.InitTables
import OsThing.Kern.Syscall

namespace OsThing.Syscall

open Ia32 Interrupts

/-- `DEFN_SYSCALL0` to `DEFN_SYSCALL4` up to the interrupt. -/
def loadCall (num : UInt32) (params : List UInt32) (c : Cpu) : Cpu :=
  (params.zip [Reg.ebx, .ecx, .edx, .esi]).foldl (fun c (p, r) => c.setReg r p) (c.setReg .eax num)

/-- `syscall_handler`, on the whole structure. -/
def syscallRecord (image : KernelImage) (run : Call → UInt32) (r : Interrupts.Registers) :
    Interrupts.Registers :=
  { r with eax := (syscallHandler image run
      { eax := r.eax, ebx := r.ebx, ecx := r.ecx, edx := r.edx, esi := r.esi, edi := r.edi }).eax }

/-- The names that have a wrapper. -/
inductive Name
  | cls | exit | open | close | read | write | lseek | lstat | getdents | fdopendirC | readdirC
  | mkdir | chdir | chroot | mount | unmount | getpid | fspawn | fexecve | thread | wait | kill
  | sendMsg | getMsg | kputs | loadModule | kexportSymbol | kgetSymbol | sbrk | signal | sigreturn
  deriving DecidableEq, Repr

/-- The function of the kernel with this name; `syscall_thread` is for `create_thread`. -/
def Name.function : Name → Option Function
  | .cls => some .cls
  | .exit => some .exit
  | .open => some .open
  | .close => some .close
  | .read => some .read
  | .write => some .write
  | .lseek => some .lseek
  | .lstat => some .lstat
  | .mkdir => some .mkdir
  | .chdir => some .chdir
  | .chroot => some .chroot
  | .mount => some .mount
  | .unmount => some .unmount
  | .getpid => some .getpid
  | .fexecve => some .fexecve
  | .thread => some .createThread
  | .wait => some .wait
  | .kill => some .kill
  | .sendMsg => some .sendMsg
  | .getMsg => some .getMsg
  | .kputs => some .kputs
  | .loadModule => some .loadModule
  | .kexportSymbol => some .kexportSymbol
  | .kgetSymbol => some .kgetSymbol
  | .sbrk => some .sbrk
  | .signal => some .signal
  | .getdents | .fdopendirC | .readdirC | .fspawn | .sigreturn => none

/-- `user/lib/syscall.c`. -/
def userCalls : List (Name × UInt32) :=
  [(.cls, 0), (.exit, 1), (.open, 2), (.close, 3), (.read, 4), (.write, 5), (.lseek, 6),
    (.lstat, 7), (.fdopendirC, 8), (.readdirC, 9), (.mkdir, 10), (.chdir, 11), (.chroot, 12),
    (.mount, 13), (.unmount, 14), (.getpid, 15), (.fspawn, 16), (.thread, 17), (.wait, 18),
    (.kill, 19), (.sendMsg, 20), (.getMsg, 21), (.kputs, 22), (.loadModule, 23), (.sbrk, 26),
    (.signal, 27), (.sigreturn, 28)]

/-- `kern/modules/lib/syscall.c`. -/
def moduleCalls : List (Name × UInt32) :=
  [(.cls, 0), (.exit, 1), (.open, 2), (.close, 3), (.read, 4), (.write, 5), (.lseek, 6),
    (.lstat, 7), (.fdopendirC, 8), (.readdirC, 9), (.mkdir, 10), (.chdir, 11), (.chroot, 12),
    (.mount, 13), (.unmount, 14), (.getpid, 15), (.fexecve, 16), (.thread, 17), (.wait, 18),
    (.kill, 19), (.sendMsg, 20), (.getMsg, 21), (.kputs, 22), (.loadModule, 23),
    (.kexportSymbol, 24), (.kgetSymbol, 25)]

/-- `kern/kern/syscall.c`. -/
def kernelCalls : List (Name × UInt32) :=
  [(.cls, 0), (.exit, 1), (.open, 2), (.close, 3), (.read, 4), (.write, 5), (.lseek, 6),
    (.lstat, 7), (.getdents, 8), (.mkdir, 9), (.chdir, 10), (.chroot, 11), (.mount, 12),
    (.unmount, 13), (.getpid, 14), (.fexecve, 15), (.thread, 16), (.wait, 17), (.kill, 18),
    (.sendMsg, 19), (.getMsg, 20), (.kputs, 21), (.loadModule, 22), (.kexportSymbol, 23),
    (.kgetSymbol, 24), (.sbrk, 25), (.signal, 26), (.sigreturn, 27)]

end OsThing.Syscall
