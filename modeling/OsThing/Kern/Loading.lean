/-
What `load_elf` in `kern/kern/elf.c` leaves in the new directory.

`Kern/Elf` sets down which addresses a file makes it touch.  Here is the memory as the
processor sees it through `new_dir`: which pages have an entry, and what the bytes are.  A page
that `map_page` gives a frame shows what the frame held before; nothing clears it.  A page fault
in the copy goes to `page_fault_handler` with the regions of the caller, which maps the page or
panics.

What `kernel_dir` shares with the clone is in the memory from the start.  For a slot that has no
table yet this is what a new table shows: nothing, or what the header of a heap block makes of
its first entry.  The bytes of the kernel itself are bytes like all others, and what it does
after they have been written over is not to be relied on.  What it writes for itself meanwhile,
page tables and blocks of the heap, is not in this memory.
-/
import OsThing.Kern.Elf
import OsThing.Mem.AddressSpaces
import OsThing.Mem.Memmap

namespace OsThing.Elf

open Bytes Fs Paging

/-- The memory through a page directory: the pages by their number, the bytes by address. -/
@[ext]
structure AddressSpace where
  mapped : Nat → Bool
  byte : Nat → UInt8

/-- What `load_elf` finds besides the file: what the popped frames hold, by the address at which
they come to be seen, what `kmalloc` returns for the `i`-th buffer, and the regions of the
caller. -/
structure Surroundings where
  frames : Nat → UInt8
  buffers : Nat → Memory
  maps : List Memmap

namespace AddressSpace

variable (env : Surroundings) (m : AddressSpace)

/-- `map_page`, for a page that may have an entry already. -/
def mapPage (address : Nat) : AddressSpace :=
  if m.mapped (address / pageSize) then m
  else
    { mapped := Function.update m.mapped (address / pageSize) true
      byte := fun a => if a / pageSize = address / pageSize then env.frames a else m.byte a }

/-- `map_pages`.  Its loop has no end if `address` overflows before it gets to `stop`. -/
def mapPages (start stop : Nat) : Option AddressSpace :=
  if space ≤ start + pageCount start stop * pageSize then none
  else
    some ((List.range (pageCount start stop)).foldl
      (fun m i => m.mapPage env (start + i * pageSize)) m)

/-- A byte is written, after a page fault if need be. -/
def store (address : Nat) (value : UInt8) : Option AddressSpace :=
  let present :=
    if m.mapped (address / pageSize) then some m
    else if (memmapsCheck env.maps (UInt32.ofNat address)).isSome then some (m.mapPage env address)
    else none
  present.map fun m => { m with byte := Function.update m.byte address value }

/-- `memcpy( dest, buf, count )`. -/
def memcpy (dest : Nat) (buf : Memory) (count : Nat) : Option AddressSpace :=
  (List.range count).foldlM (fun m k => m.store env ((dest + k) % space) (buf k)) m

/-- The loop over the program headers, for one of them, with what was read into `buf`. -/
def place (phdr : Phdr) (buf : Memory) : Option AddressSpace :=
  (m.mapPages env phdr.vaddr phdr.stop).bind fun m => m.memcpy env phdr.vaddr buf phdr.filesz

end AddressSpace

/-- The loop over the program headers from the `i`-th on, as `loadSegments`, with the memory. -/
def placeSegments (t : Nat) (fd : Int) (raw : Nat → UInt8) (env : Surroundings) (ehdr : Ehdr) :
    Nat → Nat → Vfs → Memory → AddressSpace → Option (AddressSpace × Memory)
  | 0, _, _, phbuf, m => some (m, phbuf)
  | turns + 1, i, s, phbuf, m =>
      let s := (s.lseek t fd (ehdr.headerOffset i) 0).2
      (s.read t fd (UInt32.ofNat ehdr.phentsize) raw).bind fun (_, bytes, s) =>
        let phbuf := store phbuf bytes
        let phdr := Phdr.ofBytes phbuf
        let s := (s.lseek t fd (UInt32.ofNat phdr.offset).toInt32 0).2
        (s.read t fd (UInt32.ofNat phdr.filesz) raw).bind fun (_, bytes, s) =>
          (m.place env phdr (store (env.buffers i) bytes)).bind fun m =>
            placeSegments t fd raw env ehdr turns (i + 1) s phbuf m

/-- What `load_elf` makes of a file that it accepts: the memory of the new directory, and the
arguments of `create_process`. -/
structure Program where
  memory : AddressSpace
  entry : Nat
  start : Nat
  stop : Nat

/-- `load_elf`, called by the task `t`, where a new directory shows what `kernel` is.  It is
`none` if it does not come back, and there is no program if it returns `-1`. -/
def loadProgram (s : Vfs) (t : Nat) (fd : Int) (raw : Nat → UInt8) (env : Surroundings)
    (kernel : AddressSpace) : Option (Int × Option Program) :=
  if MAX_FILES < fdIndex fd ∨ (s.tasks t).files (fdIndex fd) = none ∨ fd < 0 then some (-1, none)
  else
    (s.read t fd (UInt32.ofNat ehdrSize) raw).bind fun (ret, bytes, s) =>
      let header := store (fun _ => 0) bytes
      if badHeader header ret then some (-1, none)
      else
        let ehdr := Ehdr.ofBytes header
        (placeSegments t fd raw env ehdr ehdr.phnum 0 s (fun _ => 0) kernel).map
          fun (memory, phbuf) =>
            let phdr := Phdr.ofBytes phbuf
            (0, some ⟨memory, ehdr.entry, phdr.vaddr, phdr.stop⟩)

end OsThing.Elf
