/-
What an executable can make the kernel do while it is loaded.

Past the header tests nothing in `load_elf` depends on what is in the file, so the file
decides alone.  `OpenFile` is what a descriptor shows of a file, and `programHeaders` are
its program headers as the loop comes to see them.  A negative offset does not move the
descriptor, and at the end of the file a header keeps what the one before it left.

`load_spec` says that `load_elf` sees exactly these, and with it whether an executable is
confined can be read off the file.
-/
import OsThing.Kern.Elf
import OsThing.Mem.AddressSpaces
import OsThing.Proofs.Calls

namespace OsThing.Elf

open Bytes Fs Paging

/-! ### Files -/

/-- A file and the offset of a descriptor in it. -/
structure OpenFile where
  size : Nat
  byte : Nat → UInt8
  offset : UInt32

namespace OpenFile

variable (f : OpenFile)

/-- How many bytes a read of `n` gets. -/
def count (n : Nat) : Nat := min n (f.size - f.offset.toNat)

def bytes (n : Nat) : List UInt8 :=
  (List.range (f.count n)).map fun j => f.byte (f.offset.toNat + j)

/-- The file after a read of `n` bytes. -/
def read (n : Nat) : OpenFile := { f with offset := f.offset + UInt32.ofNat (f.count n) }

/-- The file after `lseek`. -/
def seek (offset : Int32) : OpenFile :=
  if offset < 0 then f else { f with offset := offset.toUInt32 }

/-- What the first bytes say. -/
def header : Memory := store (fun _ => 0) (f.bytes ehdrSize)

def ehdr : Ehdr := Ehdr.ofBytes f.header

/-- The file passes the tests of `load_elf`. -/
def IsElf : Prop :=
  f.offset.toNat + ehdrSize ≤ f.size ∧ (∀ i < 4, f.header i = elfHMagic.getD i 0) ∧
    f.header EI_CLASS = ELFCLASS32 ∧ f.header EI_DATA = ELFDATA2LSB

/-- `turns` program headers from the `i`-th on, and what the last one leaves in `phbuf`. -/
def segments (ehdr : Ehdr) : Nat → Nat → OpenFile → Memory → List Segment × Memory
  | 0, _, _, phbuf => ([], phbuf)
  | turns + 1, i, f, phbuf =>
      let f := f.seek (ehdr.headerOffset i)
      let phbuf := store phbuf (f.bytes ehdr.phentsize)
      let phdr := Phdr.ofBytes phbuf
      let stored := f.count ehdr.phentsize
      let f := ((f.read ehdr.phentsize).seek (UInt32.ofNat phdr.offset).toInt32).read phdr.filesz
      let (rest, phbuf) := segments ehdr turns (i + 1) f phbuf
      (⟨stored, phdr⟩ :: rest, phbuf)

/-- The program headers of the file. -/
def programHeaders : List Segment :=
  (segments f.ehdr f.ehdr.phnum 0 (f.read ehdrSize) fun _ => 0).1

/-- What `phbuf` holds in the end. -/
def lastHeader : Memory := (segments f.ehdr f.ehdr.phnum 0 (f.read ehdrSize) fun _ => 0).2

end OpenFile

/-- `f` is what the descriptor shows; `raw` is what memory holds where that is no file bytes. -/
def Shows (s : Vfs) (t : Nat) (fd : Int) (raw : Nat → UInt8) (f : OpenFile) : Prop :=
  ∃ d head filehead, goodFile (s.tasks t) fd = some d ∧ s.ramfs (s.nodes d.file).fs = some head ∧
    head.getFileH (s.nodes d.file).inode = some filehead ∧
    f = ⟨filehead.size.toNat, filehead.data.byte raw, d.rOffset⟩

/-- The descriptor is one that `load_elf` takes. -/
structure Opens (s : Vfs) (t : Nat) (fd : Int) (raw : Nat → UInt8) (f : OpenFile) : Prop where
  nonneg : 0 ≤ fd
  index : fdIndex fd ≤ MAX_FILES
  shows : Shows s t fd raw f

/-! ### `read` and `lseek` -/

section Calls

variable {s : Vfs} {t : Nat} {fd : Int} {raw : Nat → UInt8} {f : OpenFile}

/-- Only the offset changes when a descriptor is set. -/
theorem shows_setFile {d : FileDescript} {head : RamfsHeader} {filehead : FileHeader}
    (hgood : goodFile (s.tasks t) fd = some d) (hhead : s.ramfs (s.nodes d.file).fs = some head)
    (hfile : head.getFileH (s.nodes d.file).inode = some filehead) (d' : FileDescript)
    (hsame : d'.file = d.file) :
    Shows (s.setFile t fd (some d')) t fd raw
      ⟨filehead.size.toNat, filehead.data.byte raw, d'.rOffset⟩ := by
  refine ⟨d', head, filehead, ?_, ?_, ?_, rfl⟩
  · show goodFile (Function.update s.tasks t _ t) fd = some d'
    rw [Function.update_self]
    exact goodFile_setFile hgood d'
  · rw [hsame]
    exact hhead
  · rw [hsame]
    exact hfile

theorem toInt32_asInt (n : UInt32) : (asInt n).toInt32.toUInt32 = n := by
  simp [asInt]

theorem Shows.read (h : Shows s t fd raw f) (n : UInt32) :
    ∃ s', s.read t fd n raw =
        some (asInt (UInt32.ofNat (f.count n.toNat)), f.bytes n.toNat, s') ∧
      Shows s' t fd raw (f.read n.toNat) := by
  obtain ⟨d, head, filehead, hgood, hhead, hfile, rfl⟩ := h
  let f : OpenFile := ⟨filehead.size.toNat, filehead.data.byte raw, d.rOffset⟩
  let d' : FileDescript := { d with rOffset := d.rOffset + UInt32.ofNat (f.count n.toNat) }
  refine ⟨_, ?_, shows_setFile hgood hhead hfile d' rfl⟩
  unfold Vfs.read
  rw [hgood]
  dsimp only
  rw [hhead, Option.bind_some, ramfsPread, hfile]
  simp only [Option.map_some, toInt32_asInt]
  rfl

theorem Shows.lseek (h : Shows s t fd raw f) (offset : Int32) :
    Shows (s.lseek t fd offset 0).2 t fd raw (f.seek offset) := by
  obtain ⟨d, head, filehead, hgood, hhead, hfile, rfl⟩ := h
  unfold Vfs.lseek OpenFile.seek
  rw [hgood]
  dsimp only
  rw [if_pos rfl]
  split
  · exact ⟨d, head, filehead, hgood, hhead, hfile, rfl⟩
  · exact shows_setFile hgood hhead hfile _ rfl

/-- The two calls that the loop makes for a header, and again for its segment. -/
theorem Shows.readAt (h : Shows s t fd raw f) (offset : Int32) {n : Nat} (hn : n < 2 ^ 32) :
    ∃ s', (s.lseek t fd offset 0).2.read t fd (UInt32.ofNat n) raw =
        some (asInt (UInt32.ofNat ((f.seek offset).count n)), (f.seek offset).bytes n, s') ∧
      Shows s' t fd raw ((f.seek offset).read n) := by
  obtain ⟨s', hread, hshows⟩ := (h.lseek offset).read (UInt32.ofNat n)
  rw [UInt32.toNat_ofNat_of_lt' hn] at hread hshows
  exact ⟨s', hread, hshows⟩

end Calls

/-! ### `load_elf` -/

theorem read16_lt (m : Memory) (a : Nat) : read16 m a < 2 ^ 16 := by
  have h₀ := (m a).toNat_lt
  have h₁ := (m (a + 1)).toNat_lt
  unfold read16
  omega

theorem OpenFile.count_le (f : OpenFile) (n : Nat) : f.count n ≤ n := Nat.min_le_left _ _

@[simp] theorem OpenFile.length_bytes (f : OpenFile) (n : Nat) :
    (f.bytes n).length = f.count n := by
  simp [bytes]

/-- The loop sees the program headers of the file. -/
theorem loadSegments_eq {t : Nat} {fd : Int} {raw : Nat → UInt8} {ehdr : Ehdr}
    (hsize : ehdr.phentsize < 2 ^ 32) (turns : Nat) :
    ∀ {i : Nat} {s : Vfs} {f : OpenFile} {phbuf : Memory}, Shows s t fd raw f →
      loadSegments t fd raw ehdr turns i s phbuf =
        some (OpenFile.segments ehdr turns i f phbuf) := by
  induction turns with
  | zero => intro i s f phbuf _; rfl
  | succ turns ih =>
      intro i s f phbuf h
      obtain ⟨s₁, hread₁, h₁⟩ := h.readAt (ehdr.headerOffset i) hsize
      let phbuf' := store phbuf ((f.seek (ehdr.headerOffset i)).bytes ehdr.phentsize)
      have hfilesz : (Phdr.ofBytes phbuf').filesz < 2 ^ 32 := read32_lt phbuf' 16
      obtain ⟨s₂, hread₂, h₂⟩ := h₁.readAt (UInt32.ofNat (Phdr.ofBytes phbuf').offset).toInt32
        hfilesz
      unfold loadSegments OpenFile.segments
      dsimp only
      rw [hread₁, Option.bind_some]
      dsimp only
      rw [hread₂, Option.bind_some]
      dsimp only
      rw [ih h₂, Option.map_some, OpenFile.length_bytes]

theorem badHeader_iff (f : OpenFile) :
    badHeader f.header (asInt (UInt32.ofNat (f.count ehdrSize))) = false ↔ f.IsElf := by
  have hle := f.count_le ehdrSize
  have hnat : (UInt32.ofNat (f.count ehdrSize)).toNat = f.count ehdrSize :=
    UInt32.toNat_ofNat_of_lt' (Nat.lt_of_le_of_lt hle (by decide))
  by_cases hshort : f.count ehdrSize < ehdrSize
  · refine iff_of_false ?_ fun h => ?_
    · have hlt : UInt32.ofNat (f.count ehdrSize) < UInt32.ofNat ehdrSize := by
        rw [UInt32.lt_iff_toNat_lt, hnat]
        exact hshort
      simp [badHeader, toInt32_asInt, hlt]
    · have hfit := h.1
      unfold OpenFile.count at hshort
      omega
  · have hfull : f.count ehdrSize = ehdrSize := Nat.le_antisymm hle (Nat.le_of_not_lt hshort)
    have hfit : f.offset.toNat + ehdrSize ≤ f.size := by
      have hpos : 0 < ehdrSize := by decide
      unfold OpenFile.count at hfull
      omega
    have hmagic : ((List.range 4).any fun i => ((i : Int) < asInt (UInt32.ofNat ehdrSize)) &&
        f.header i != elfHMagic.getD i 0) = false ↔ ∀ i < 4, f.header i = elfHMagic.getD i 0 := by
      have hret : asInt (UInt32.ofNat ehdrSize) = 52 := by decide
      rw [hret, List.any_eq_false]
      refine forall_congr' fun i => ?_
      rw [List.mem_range]
      refine forall_congr' fun hi => ?_
      have hlt : (i : Int) < 52 := by omega
      simp [hlt]
    rw [hfull, badHeader, toInt32_asInt]
    simp only [Bool.or_eq_false_iff, hmagic, bne_eq_false_iff_eq, OpenFile.IsElf, hfit, true_and,
      decide_eq_false_iff_not, and_assoc, UInt32.lt_irrefl, not_false_eq_true]

theorem Opens.not_refused {s : Vfs} {t : Nat} {fd : Int} {raw : Nat → UInt8} {f : OpenFile}
    (h : Opens s t fd raw f) :
    ¬ (MAX_FILES < fdIndex fd ∨ (s.tasks t).files (fdIndex fd) = none ∨ fd < 0) := by
  obtain ⟨d, -, -, hgood, -⟩ := h.shows
  rintro (hindex | hnone | hneg)
  · exact absurd h.index (Nat.not_le_of_lt hindex)
  · rw [(goodFile_eq_some hgood).2] at hnone
    cases hnone
  · exact absurd hneg (Int.not_lt_of_ge h.nonneg)

/-- **`load_elf` refuses a file, or goes through its program headers.** -/
theorem load_spec {s : Vfs} {t : Nat} {fd : Int} {raw : Nat → UInt8} {f : OpenFile}
    (h : Opens s t fd raw f) :
    ∃ r, loadElf s t fd raw = some r ∧
      (f.IsElf ∧ r.ret = 0 ∧ r.segments = f.programHeaders ∨ ¬ f.IsElf ∧ r = .rejected) := by
  obtain ⟨s₁, hread, h₁⟩ := h.shows.read (UInt32.ofNat ehdrSize)
  unfold loadElf
  rw [if_neg h.not_refused, hread, Option.bind_some]
  dsimp only
  by_cases helf : f.IsElf
  · have hgood := (badHeader_iff f).mpr helf
    have hsize : f.ehdr.phentsize < 2 ^ 32 := (read16_lt f.header 42).trans (by decide)
    have hloop : loadSegments t fd raw f.ehdr f.ehdr.phnum 0 s₁ (fun _ => 0) =
        some (f.programHeaders, f.lastHeader) := loadSegments_eq hsize f.ehdr.phnum h₁
    refine ⟨⟨0, some (f.ehdr.entry, (Phdr.ofBytes f.lastHeader).vaddr,
      (Phdr.ofBytes f.lastHeader).stop), f.programHeaders⟩, ?_, Or.inl ⟨helf, rfl, rfl⟩⟩
    refine (if_neg (Bool.eq_false_iff.mp hgood)).trans ?_
    exact congrArg (Option.map _) hloop
  · have hbad : badHeader f.header (asInt (UInt32.ofNat (f.count ehdrSize))) = true := by
      rw [← Bool.not_eq_false]
      exact mt (badHeader_iff f).mp helf
    exact ⟨_, if_pos hbad, Or.inr ⟨helf, rfl⟩⟩

/-- Of a descriptor that is not open nothing is read.  `-1` is no small number and the magic is
not looked at, but the class of the cleared header is wrong. -/
theorem load_unopened {s : Vfs} {t : Nat} {fd : Int} (raw : Nat → UInt8)
    (h : goodFile (s.tasks t) fd = none) : loadElf s t fd raw = some .rejected := by
  have hread : s.read t fd (UInt32.ofNat ehdrSize) raw = some (-1, [], s) := by
    rw [Vfs.read, h]
  have hbad : badHeader (store (fun _ => 0) []) (-1) = true := by decide
  unfold loadElf
  rw [hread, Option.bind_some]
  dsimp only
  rw [if_pos hbad]
  split <;> rfl

/-! ### The addresses that `map_pages` comes to

The loop stops at the first step that is not below its end.  If no step below `2 ^ 32` is
as far as that, it goes on from the start of the address space and never stops.
-/

namespace Phdr

/-- The steps below the end of the range. -/
def pages (h : Phdr) : Nat := pageCount h.vaddr h.stop

/-- The loop stops. -/
def MapEnds (h : Phdr) : Prop := h.vaddr + h.pages * pageSize < space

instance (h : Phdr) : Decidable h.MapEnds := inferInstanceAs (Decidable (_ < _))

variable {h : Phdr}

theorem stop_lt : h.stop < space := Nat.mod_lt _ (by decide)

theorem step_lt_stop {j : Nat} (hj : j < h.pages) : h.vaddr + j * pageSize < h.stop := by
  unfold pages pageCount at hj
  simp only [pageSize] at *
  omega

theorem stop_le_step : h.stop ≤ h.vaddr + h.pages * pageSize := by
  unfold pages pageCount
  simp only [pageSize]
  omega

/-- The first steps do not wrap around. -/
theorem page_eq {j : Nat} (hj : j < h.pages) : h.page j = h.vaddr + j * pageSize :=
  Nat.mod_eq_of_lt ((step_lt_stop hj).trans stop_lt)

theorem maps_step {j : Nat} (hj : j < h.pages) : h.Maps (h.vaddr + j * pageSize) := by
  refine ⟨j, (page_eq hj).symm, fun i hi => ?_⟩
  have hlt := Nat.lt_of_le_of_lt hi hj
  rw [page_eq hlt]
  exact step_lt_stop hlt

/-- They are all that is mapped if the loop stops. -/
theorem maps_of_ends (hends : h.MapEnds) {a : Nat} :
    h.Maps a ↔ ∃ j < h.pages, a = h.vaddr + j * pageSize := by
  constructor
  · rintro ⟨j, rfl, hbelow⟩
    have hj : j < h.pages := by
      by_contra hge
      have hlast := hbelow h.pages (Nat.le_of_not_lt hge)
      rw [page, Nat.mod_eq_of_lt hends] at hlast
      exact absurd stop_le_step (Nat.not_le_of_lt hlast)
    exact ⟨j, hj, page_eq hj⟩
  · rintro ⟨j, hj, rfl⟩
    exact maps_step hj

/-- If the loop does not stop, then no step is as far as its end. -/
theorem page_lt_stop (hends : ¬ h.MapEnds) (hvaddr : h.vaddr < space) (i : Nat) :
    h.page i < h.stop := by
  have hpos : 0 < h.pages := by
    refine Nat.pos_of_ne_zero fun hzero => hends ?_
    rw [MapEnds, hzero, Nat.zero_mul, Nat.add_zero]
    exact hvaddr
  have hlast := step_lt_stop (Nat.sub_lt hpos Nat.one_pos)
  unfold MapEnds at hends
  unfold page
  simp only [pageSize, space] at *
  omega

/-- Then every slot is met. -/
theorem maps_slot (hends : ¬ h.MapEnds) (hvaddr : h.vaddr < space) {low : Nat}
    (hlow : low < 0x400) : ∃ a, h.Maps a ∧ a / 2 ^ 22 = low := by
  let j := low * 0x400 + (space - pageBase h.vaddr) / pageSize
  refine ⟨h.page j, ⟨j, rfl, fun i _ => page_lt_stop hends hvaddr i⟩, ?_⟩
  show (h.vaddr + (low * 0x400 + (space - pageBase h.vaddr) / pageSize) * pageSize) % space / 2 ^ 22
    = low
  simp only [pageBase, pageSize, space] at *
  omega

end Phdr

/-! ### What the file has to say for itself -/

/--
A program header that does no harm.  At most 32 bytes of it are in the file where it is
looked for, no more bytes come from the file than the segment has, and the steps of
`map_pages` below the end of the segment and the bytes of the copy avoid the slots that
`kernel_dir` has tables for.  The loop of `map_pages` stops, unless there are no such slots.
-/
structure Segment.Harmless (kernelDir : PageDir) (seg : Segment) : Prop where
  header : seg.stored ≤ phdrSize
  copied : seg.phdr.filesz ≤ seg.phdr.memsz
  pages : ∀ j < seg.phdr.pages, UserAddress kernelDir (seg.phdr.vaddr + j * pageSize)
  ends : seg.phdr.MapEnds ∨ ∀ low < 0x400, kernelDir.tables low = 0
  bytes : ∀ k < seg.phdr.filesz, UserAddress kernelDir ((seg.phdr.vaddr + k) % space)

theorem Segment.harmless_iff {kernelDir : PageDir} {seg : Segment}
    (hvaddr : seg.phdr.vaddr < space) : seg.Harmless kernelDir ↔ seg.Confined kernelDir := by
  constructor
  · intro h
    refine ⟨h.header, h.copied, fun a ha => ?_, ?_⟩
    · by_cases hends : seg.phdr.MapEnds
      · obtain ⟨j, hj, rfl⟩ := (Phdr.maps_of_ends hends).mp ha
        exact h.pages j hj
      · obtain ⟨j, rfl, -⟩ := ha
        have hlt : seg.phdr.page j < space := Nat.mod_lt _ (by decide)
        refine h.ends.resolve_left hends _ ?_
        unfold space at hlt
        omega
    · rintro a ⟨k, hk, rfl⟩
      exact h.bytes k hk
  · intro h
    refine ⟨h.header, h.copied, fun j hj => h.mapped _ (Phdr.maps_step hj), ?_, fun k hk =>
      h.written _ ⟨k, hk, rfl⟩⟩
    by_cases hends : seg.phdr.MapEnds
    · exact Or.inl hends
    · refine Or.inr fun low hlow => ?_
      obtain ⟨a, ha, rfl⟩ := Phdr.maps_slot hends hvaddr hlow
      exact h.mapped a ha

/-- An address in a program header is one of 32 bits. -/
theorem OpenFile.vaddr_lt {ehdr : Ehdr} (turns : Nat) :
    ∀ {i : Nat} {f : OpenFile} {phbuf : Memory},
      ∀ seg ∈ (OpenFile.segments ehdr turns i f phbuf).1, seg.phdr.vaddr < space := by
  induction turns with
  | zero =>
      intro i f phbuf seg hseg
      exact absurd hseg List.not_mem_nil
  | succ turns ih =>
      intro i f phbuf seg hseg
      rcases List.mem_cons.mp hseg with rfl | hrest
      · exact read32_lt _ 8
      · exact ih seg hrest

/--
**When an executable is confined.**  What `load_elf` does with a file that it does not refuse
is confined if and only if every program header of the file is harmless.
-/
theorem load_confined_iff {s : Vfs} {t : Nat} {fd : Int} {raw : Nat → UInt8} {f : OpenFile}
    (h : Opens s t fd raw f) (kernelDir : PageDir) :
    ∃ r, loadElf s t fd raw = some r ∧
      (r.CannotTouch kernelDir ↔
        ¬ f.IsElf ∨ ∀ seg ∈ f.programHeaders, seg.Harmless kernelDir) := by
  obtain ⟨r, hload, ⟨helf, hret, hsegments⟩ | ⟨hbad, rfl⟩⟩ := load_spec h
  · refine ⟨r, hload, ?_⟩
    have hsame : (∀ seg ∈ r.segments, seg.Confined kernelDir) ↔
        ∀ seg ∈ f.programHeaders, seg.Harmless kernelDir := by
      rw [hsegments]
      exact forall₂_congr fun seg hseg =>
        (Segment.harmless_iff (OpenFile.vaddr_lt _ seg hseg)).symm
    have hne : r ≠ .rejected := by
      rintro rfl
      exact absurd hret (by decide)
    rw [Loaded.CannotTouch, hsame, or_iff_left hne, or_iff_right (not_not_intro helf)]
  · exact ⟨.rejected, hload, iff_of_true (Or.inr rfl) (Or.inl hbad)⟩

/-! ### Two executables

One segment of four bytes, which is all of `memsz` that the file has.
-/

def le32 (n : Nat) : List UInt8 := [byteOf n 0, byteOf n 1, byteOf n 2, byteOf n 3]

/-- The file, with its segment at `vaddr`. -/
def image (vaddr memsz : Nat) : List UInt8 :=
  elfHMagic ++ [1, 1] ++ List.replicate 18 0 ++ le32 vaddr ++ le32 52 ++ List.replicate 10 0 ++
    [32, 0, 1, 0] ++ List.replicate 6 0 ++
  le32 1 ++ le32 84 ++ le32 vaddr ++ le32 vaddr ++ le32 4 ++ le32 memsz ++ le32 7 ++ le32 0x1000 ++
  [0x90, 0x90, 0xeb, 0xfe]

/-- A file system with the file, of which task 0 has descriptor 0. -/
def withFile (file : List UInt8) : Vfs :=
  let buffer : Buffer := ⟨UInt32.ofNat file.length, fun i => file.getD i 0⟩
  let head := initRamfs.addFile
    { type := FS_FILE, mask := 0o777, inode := 2, size := buffer.length, data := .buffer buffer }
  let s := (Vfs.boot [0x1000] 0x1000 0x2000).setRamfs 0x1000 head
  (s.setNode 0x3000 ⟨2, 0x1000⟩).modifyTask 0 fun task => task.addFile 0 0x3000

/-- The file from its start. -/
def opened (file : List UInt8) : OpenFile := ⟨file.length, fun i => file.getD i 0, 0⟩

theorem opens_withFile {file : List UInt8} (hlen : file.length < 2 ^ 32) (raw : Nat → UInt8) :
    Opens (withFile file) 0 0 raw (opened file) := by
  refine ⟨by decide, by decide, ⟨0x3000, 0, 0, 0⟩, _, _, rfl, rfl, rfl, ?_⟩
  rw [opened, OpenFile.mk.injEq]
  exact ⟨(UInt32.toNat_ofNat_of_lt' hlen).symm, rfl, rfl⟩

/-- A kernel in the first 4 MB. -/
def lowKernel : PageDir := ⟨fun low => if low = 0 then 0x200007 else 0, fun _ => 0⟩

/-- A segment at 128 MB does no harm. -/
theorem load_confined_iff_image : ∃ r,
    loadElf (withFile (image 0x8000000 0x2000)) 0 0 (fun _ => 0) = some r ∧
      r.CannotTouch lowKernel := by
  have hopens : Opens (withFile (image 0x8000000 0x2000)) 0 0 (fun _ => 0)
      (opened (image 0x8000000 0x2000)) := opens_withFile (by decide) _
  obtain ⟨r, hload, hiff⟩ := load_confined_iff hopens lowKernel
  refine ⟨r, hload, hiff.mpr (Or.inr fun seg hseg => ?_)⟩
  have hheaders : (opened (image 0x8000000 0x2000)).programHeaders =
      [⟨32, ⟨84, 0x8000000, 4, 0x2000⟩⟩] := by decide
  rw [hheaders] at hseg
  obtain rfl := List.mem_singleton.mp hseg
  exact ⟨by decide, by decide, by decide, Or.inl (by decide), by decide⟩

/-- **An executable with its segment at 1 MB is written over the kernel.** -/
theorem load_overwrites_kernel :
    ¬ ∀ s t fd raw f r kernelDir, Opens s t fd raw f → loadElf s t fd raw = some r →
      r.CannotTouch kernelDir := by
  intro hclaim
  have hopens : Opens (withFile (image 0x100000 4)) 0 0 (fun _ => 0) (opened (image 0x100000 4)) :=
    opens_withFile (by decide) _
  obtain ⟨r, hload, ⟨helf, hret, hsegments⟩ | ⟨hbad, -⟩⟩ := load_spec hopens
  · have hheaders : (opened (image 0x100000 4)).programHeaders =
        [⟨32, ⟨84, 0x100000, 4, 4⟩⟩] := by decide
    rcases hclaim _ _ _ _ _ r lowKernel hopens hload with hconfined | rfl
    · rw [hsegments, hheaders] at hconfined
      have hwritten := (hconfined _ List.mem_cons_self).written 0x100000 ⟨0, by decide, rfl⟩
      exact absurd hwritten (by decide)
    · exact absurd hret (by decide)
  · exact hbad ⟨by decide, by decide, by decide, by decide⟩

end OsThing.Elf
