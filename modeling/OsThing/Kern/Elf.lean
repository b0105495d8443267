/-
Loading an executable, `kern/kern/elf.c`.

`load_elf` tests the first bytes of the file and believes the rest.  What it does outside
of its own variables is set down in one `Segment` for each program header it goes through:
how many bytes `read` put into `phbuf`, and what `phbuf` says then.  The addresses that
`map_pages` maps and `memcpy` writes for such a header are `Phdr.Maps` and `Phdr.Writes`.

`kmalloc` and `pop_page` are taken to find memory, and a copy to run to its end.  An
execution in which the kernel panics over one of them does a beginning of what is set
down here, and what comes after an access out of bounds is not to be relied on.
-/
import OsThing.Fs.Calls
import OsThing.Mem.Paging

namespace OsThing.Elf

open Bytes Fs Paging

/-- A 16-bit word. -/
def read16 (m : Memory) (a : Nat) : Nat := (m a).toNat + 0x100 * (m (a + 1)).toNat

/-- `sizeof( Elf32_Ehdr )` and `sizeof( Elf32_Phdr )`. -/
def ehdrSize : Nat := 52
def phdrSize : Nat := 32

def EI_CLASS : Nat := 4
def EI_DATA : Nat := 5
def ELFCLASS32 : UInt8 := 1
def ELFDATA2LSB : UInt8 := 1

def elfHMagic : List UInt8 := [0x7f, 0x45, 0x4c, 0x46]

/-- What `load_elf` reads of an `Elf32_Ehdr`, past the tests. -/
structure Ehdr where
  entry : Nat
  phoff : Nat
  phentsize : Nat
  phnum : Nat

def Ehdr.ofBytes (m : Memory) : Ehdr := ⟨read32 m 24, read32 m 28, read16 m 42, read16 m 44⟩

/-- What it reads of an `Elf32_Phdr`. -/
structure Phdr where
  offset : Nat
  vaddr : Nat
  filesz : Nat
  memsz : Nat
  deriving DecidableEq

def Phdr.ofBytes (m : Memory) : Phdr := ⟨read32 m 4, read32 m 8, read32 m 16, read32 m 20⟩

/-- `p_vaddr + p_memsz` -/
def Phdr.stop (h : Phdr) : Nat := (h.vaddr + h.memsz) % space

/-- The `j`-th address of the loop of `map_pages`. -/
def Phdr.page (h : Phdr) (j : Nat) : Nat := (h.vaddr + j * pageSize) % space

/-- `map_pages( p_vaddr, p_vaddr + p_memsz, 7, new_dir )` maps the page at `a`.  The loop may
wrap around and then never ends. -/
def Phdr.Maps (h : Phdr) (a : Nat) : Prop := ∃ j, a = h.page j ∧ ∀ i ≤ j, h.page i < h.stop

/-- `memcpy( p_vaddr, buf, p_filesz )` writes the byte at `a`. -/
def Phdr.Writes (h : Phdr) (a : Nat) : Prop := ∃ k < h.filesz, a = (h.vaddr + k) % space

/-- A program header that the loop went through. -/
structure Segment where
  /-- How many bytes were put into memory from `phbuf` on. -/
  stored : Nat
  phdr : Phdr
  deriving DecidableEq

/-- What comes of a call: the result, the arguments of `create_process` that depend on the
file if it was called (`e_entry`, and the range of the address space), and the segments. -/
structure Loaded where
  ret : Int
  created : Option (Nat × Nat × Nat)
  segments : List Segment

def Loaded.rejected : Loaded := ⟨-1, none, []⟩

/-- The memory from a buffer on, after `read` has put bytes there. -/
def store (buf : Memory) (bytes : List UInt8) : Memory := fun i => bytes.getD i (buf i)

/-- `e_phoff + ( i * e_phentsize )`, as an `int`. -/
def Ehdr.headerOffset (ehdr : Ehdr) (i : Nat) : Int32 :=
  (UInt32.ofNat (ehdr.phoff + i * ehdr.phentsize)).toInt32

/-- The loop over the program headers from the `i`-th on, `turns` of which are left, and
`phbuf` after it. -/
def loadSegments (t : Nat) (fd : Int) (raw : Nat → UInt8) (ehdr : Ehdr) :
    Nat → Nat → Vfs → Memory → Option (List Segment × Memory)
  | 0, _, _, phbuf => some ([], phbuf)
  | turns + 1, i, s, phbuf =>
      let s := (s.lseek t fd (ehdr.headerOffset i) 0).2
      (s.read t fd (UInt32.ofNat ehdr.phentsize) raw).bind fun (_, bytes, s) =>
        let phbuf := store phbuf bytes
        let phdr := Phdr.ofBytes phbuf
        let s := (s.lseek t fd (UInt32.ofNat phdr.offset).toInt32 0).2
        (s.read t fd (UInt32.ofNat phdr.filesz) raw).bind fun (_, _, s) =>
          (loadSegments t fd raw ehdr turns (i + 1) s phbuf).map fun (segments, phbuf) =>
            (⟨bytes.length, phdr⟩ :: segments, phbuf)

/-- The tests of the header, of which `ret` bytes were read.  Without any byte the loop over
the magic number tests nothing. -/
def badHeader (header : Memory) (ret : Int) : Bool :=
  ret.toInt32.toUInt32 < UInt32.ofNat ehdrSize ||
    ((List.range 4).any fun i => (i : Int) < ret && header i != elfHMagic.getD i 0) ||
    header EI_CLASS != ELFCLASS32 || header EI_DATA != ELFDATA2LSB

/-- `load_elf`, called by the task `t`. -/
def loadElf (s : Vfs) (t : Nat) (fd : Int) (raw : Nat → UInt8) : Option Loaded :=
  if MAX_FILES < fdIndex fd ∨ (s.tasks t).files (fdIndex fd) = none ∨ fd < 0 then some .rejected
  else
    (s.read t fd (UInt32.ofNat ehdrSize) raw).bind fun (ret, bytes, s) =>
      let header := store (fun _ => 0) bytes
      if badHeader header ret then some .rejected
      else
        let ehdr := Ehdr.ofBytes header
        (loadSegments t fd raw ehdr ehdr.phnum 0 s fun _ => 0).map fun (segments, phbuf) =>
          let phdr := Phdr.ofBytes phbuf
          ⟨0, some (ehdr.entry, phdr.vaddr, phdr.stop), segments⟩

/-! ### What an executable must not do -/

/-- The 4 MB slot of the address is empty in `kernel_dir`. -/
def UserAddress (kernelDir : PageDir) (a : Nat) : Prop := kernelDir.tables (a / 2 ^ 22) = 0

instance (kernelDir : PageDir) (a : Nat) : Decidable (UserAddress kernelDir a) :=
  inferInstanceAs (Decidable (_ = _))

/-- The header was read into `phbuf`, at most `p_memsz` bytes are copied, and what is mapped
and written is outside of the slots of the kernel. -/
structure Segment.Confined (kernelDir : PageDir) (seg : Segment) : Prop where
  header : seg.stored ≤ phdrSize
  copied : seg.phdr.filesz ≤ seg.phdr.memsz
  mapped : ∀ a, seg.phdr.Maps a → UserAddress kernelDir a
  written : ∀ a, seg.phdr.Writes a → UserAddress kernelDir a

/-- The executable cannot touch the kernel: it is confined, or the call does nothing. -/
def Loaded.CannotTouch (kernelDir : PageDir) (r : Loaded) : Prop :=
  (∀ seg ∈ r.segments, seg.Confined kernelDir) ∨ r = .rejected

end OsThing.Elf
