/-
What can be read back from an initial ram disk.

The image is a header, a header for each regular file, and the data.  `getImage` reads so many
file headers behind the first one, and gets back what was written, whatever it was.  So an image
is consistent with its files if the number in the header is that of the file headers, and the
offset and length in each of them lead to its content.  The number is that of the arguments; an
offset is a sum of 32 bits.
-/
import OsThing.Tools.Mkinitrd
import Mathlib.Data.List.Flatten

namespace OsThing.Mkinitrd

/-! ### Reading -/

def getField : List UInt8 → Option (UInt32 × List UInt8)
  | a :: b :: c :: d :: rest =>
      some (a.toUInt32 + b.toUInt32 * 0x100 + c.toUInt32 * 0x10000 + d.toUInt32 * 0x1000000, rest)
  | _ => none

def getHeader (l : List UInt8) : Option (Header × List UInt8) :=
  (getField l).bind fun (nfiles, l) => (getField l).map fun (magic, l) => (⟨nfiles, magic⟩, l)

def getFileHeader (l : List UInt8) : Option (FileHeader × List UInt8) :=
  if h : maxNameLen ≤ l.length then
    (getField (l.drop maxNameLen)).bind fun (offset, l₁) =>
      (getField l₁).bind fun (length, l₂) =>
        (getField l₂).map fun (magic, rest) =>
          (⟨⟨l.take maxNameLen, List.length_take_of_le h⟩, offset, length, magic⟩, rest)
  else none

def getFileHeaders : Nat → List UInt8 → Option (List FileHeader × List UInt8)
  | 0, l => some ([], l)
  | n + 1, l =>
      (getFileHeader l).bind fun (h, l) =>
        (getFileHeaders n l).map fun (hs, data) => (h :: hs, data)

/-- An image with `n` file headers: the header, the file headers, and the data. -/
def getImage (n : Nat) (image : List UInt8) : Option (Header × List FileHeader × List UInt8) :=
  (getHeader image).bind fun (h, l) => (getFileHeaders n l).map fun (hs, data) => (h, hs, data)

theorem getField_field (v : UInt32) (rest : List UInt8) :
    getField (field v ++ rest) = some (v, rest) := by
  have hlt := v.toNat_lt
  refine congrArg (fun w => some (w, rest)) (UInt32.toNat_inj.mp ?_)
  simp only [UInt32.toUInt32_toUInt8, UInt32.toNat_add, UInt32.toNat_mod, UInt32.toNat_mul,
    UInt32.toNat_shiftRight, UInt32.reduceToNat, Nat.shiftRight_eq_div_pow, Nat.reduceMod,
    Nat.reducePow]
  omega

theorem getHeader_bytes (h : Header) (rest : List UInt8) :
    getHeader (h.bytes ++ rest) = some (h, rest) := by
  rw [Header.bytes, List.append_assoc, getHeader, getField_field]
  simp only [Option.bind_some, getField_field, Option.map_some]

theorem getFileHeader_bytes (h : FileHeader) (rest : List UInt8) :
    getFileHeader (h.bytes ++ rest) = some (h, rest) := by
  have hlength : maxNameLen ≤ (h.bytes ++ rest).length := by
    simp [FileHeader.bytes, h.name.property]
  have hdrop : (h.bytes ++ rest).drop maxNameLen =
      field h.offset ++ (field h.length ++ (field h.magic ++ rest)) := by
    rw [FileHeader.bytes, List.append_assoc, List.drop_left' h.name.property]
    simp
  have htake : (h.bytes ++ rest).take maxNameLen = h.name.val := by
    rw [FileHeader.bytes, List.append_assoc, List.take_left' h.name.property]
  unfold getFileHeader
  rw [dif_pos hlength]
  simp only [hdrop, getField_field, Option.bind_some, Option.map_some, htake]

theorem getFileHeaders_bytes (data : List UInt8) : ∀ hs : List FileHeader,
    getFileHeaders hs.length (hs.flatMap FileHeader.bytes ++ data) = some (hs, data) := by
  intro hs
  induction hs with
  | nil => rfl
  | cons h rest ih =>
      rw [List.flatMap_cons, List.append_assoc, List.length_cons, getFileHeaders,
        getFileHeader_bytes]
      simp only [Option.bind_some, ih, Option.map_some]

/-- **What is read is what was written.** -/
theorem getImage_bytes (h : Header) (hs : List FileHeader) (data : List UInt8) :
    getImage hs.length (h.bytes ++ (hs.flatMap FileHeader.bytes ++ data)) = some (h, hs, data) := by
  rw [getImage, getHeader_bytes]
  simp only [Option.bind_some, getFileHeaders_bytes, Option.map_some]

/-! ### What is written -/

/-- A regular file that is put into the image. -/
structure Entry where
  name : Name
  content : List UInt8

def regularFile (files : Name → Option File) (arg : Name) : Option Entry :=
  match files arg with
  | some (.regular content) => some ⟨arg, content⟩
  | _ => none

/-- The regular files among the arguments. -/
def entries (files : Name → Option File) (args : List Name) : List Entry :=
  args.filterMap (regularFile files)

/-- The file headers, from an offset on. -/
def fileHeaders : UInt32 → List Entry → List FileHeader
  | _, [] => []
  | offset, e :: rest =>
      let size := UInt32.ofNat e.content.length
      ⟨strncpy e.name, offset, size, initrdMagic⟩ :: fileHeaders (offset + size) rest

@[simp] theorem fileHeaders_length (es : List Entry) :
    ∀ offset, (fileHeaders offset es).length = es.length := by
  induction es with
  | nil => exact fun _ => rfl
  | cons e rest ih => exact fun offset => congrArg Nat.succ (ih _)

/-- The data section. -/
def sectionOf (es : List Entry) : List UInt8 := es.flatMap Entry.content

variable {files : Name → Option File}

theorem headerLoop_eq (args : List Name) : ∀ offset,
    headerLoop files offset args =
      (fileHeaders offset (entries files args)).flatMap FileHeader.bytes := by
  induction args with
  | nil => exact fun _ => rfl
  | cons arg rest ih =>
      intro offset
      unfold headerLoop entries
      rw [List.filterMap_cons]
      unfold regularFile
      cases files arg with
      | none => exact ih offset
      | some file =>
          cases file with
          | other => exact ih offset
          | regular content =>
              simp only [ih]
              rfl

/-- Of files that exist all is written. -/
theorem dataLoop_eq (args : List Name) (hexist : ∀ arg ∈ args, (files arg).isSome) :
    dataLoop files args = (sectionOf (entries files args), 0) := by
  induction args with
  | nil => rfl
  | cons arg rest ih =>
      have hrest := ih fun arg' harg' => hexist arg' (List.mem_cons_of_mem _ harg')
      obtain ⟨file, hfile⟩ := Option.isSome_iff_exists.mp (hexist arg List.mem_cons_self)
      unfold dataLoop entries
      rw [List.filterMap_cons, hrest]
      unfold regularFile
      rw [hfile]
      cases file with
      | other => rfl
      | regular content => rfl

/-! ### Consistent images -/

/-- The header leads to the file. -/
structure LeadsTo (data : List UInt8) (h : FileHeader) (e : Entry) : Prop where
  name : h.name = strncpy e.name
  magic : h.magic = initrdMagic
  content : (data.drop h.offset.toNat).take h.length.toNat = e.content

/-- The image has a header for each of the files, as many as it says, and each leads to its file. -/
def ConsistentWith (es : List Entry) (image : List UInt8) : Prop :=
  ∃ h hs data, getImage es.length image = some (h, hs, data) ∧
    h.nfiles.toNat = es.length ∧ h.magic = initrdMagic ∧ List.Forall₂ (LeadsTo data) hs es

/-- A file can be found by 32 bits: it has fewer than 2^32 bytes, and its content is in the data
at its place modulo 2^32. -/
def FoundBy32 (data : List UInt8) (place : Nat) (content : List UInt8) : Prop :=
  content.length < 2 ^ 32 ∧ (data.drop (place % 2 ^ 32)).take content.length = content

theorem leadsTo_iff (data : List UInt8) (place : Nat) (e : Entry) :
    LeadsTo data ⟨strncpy e.name, UInt32.ofNat place, UInt32.ofNat e.content.length, initrdMagic⟩ e ↔
      FoundBy32 data place e.content := by
  have hlength : (UInt32.ofNat e.content.length).toNat = e.content.length % 2 ^ 32 :=
    UInt32.toNat_ofNat'
  have hplace : (UInt32.ofNat place).toNat = place % 2 ^ 32 := UInt32.toNat_ofNat'
  constructor
  · intro h
    have hcontent := h.content
    simp only [hlength, hplace] at hcontent
    have hsize : e.content.length < 2 ^ 32 := by
      have hle : e.content.length ≤ e.content.length % 2 ^ 32 := by
        conv_lhs => rw [← hcontent]
        exact List.length_take_le _ _
      omega
    rw [Nat.mod_eq_of_lt hsize] at hcontent
    exact ⟨hsize, hcontent⟩
  · rintro ⟨hsize, hcontent⟩
    refine ⟨rfl, rfl, ?_⟩
    simp only [hlength, hplace]
    rw [Nat.mod_eq_of_lt hsize]
    exact hcontent

/-- From an offset on, the headers lead to the files just if each can be found at its place. -/
theorem forall₂_leadsTo_iff (data : List UInt8) (es : List Entry) : ∀ place,
    List.Forall₂ (LeadsTo data) (fileHeaders (UInt32.ofNat place) es) es ↔
      ∀ before e after, es = before ++ e :: after →
        FoundBy32 data (place + (sectionOf before).length) e.content := by
  induction es with
  | nil =>
      intro place
      refine iff_of_true List.Forall₂.nil ?_
      intro before e after h
      exact absurd h (by simp)
  | cons e rest ih =>
      intro place
      have hnext : UInt32.ofNat place + UInt32.ofNat e.content.length =
          UInt32.ofNat (place + e.content.length) := (UInt32.ofNat_add _ _).symm
      unfold fileHeaders
      simp only [hnext]
      rw [List.forall₂_cons, leadsTo_iff, ih]
      constructor
      · rintro ⟨hfirst, hothers⟩ before e' after heq
        cases before with
        | nil =>
            obtain ⟨rfl, -⟩ := List.cons.inj heq
            exact hfirst
        | cons b before =>
            obtain ⟨rfl, hrest⟩ := List.cons.inj heq
            have hfound := hothers before e' after hrest
            rwa [Nat.add_assoc, ← List.length_append] at hfound
      · intro h
        refine ⟨h [] e rest rfl, ?_⟩
        intro before e' after hrest
        have hfound := h (e :: before) e' after (by rw [hrest, List.cons_append])
        rw [Nat.add_assoc, ← List.length_append]
        exact hfound

/-- An image is consistent if it has the number of its headers, and each can be found. -/
theorem consistentWith_iff (n : UInt32) (es : List Entry) :
    ConsistentWith es (Header.bytes ⟨n, initrdMagic⟩ ++
        ((fileHeaders 0 es).flatMap FileHeader.bytes ++ sectionOf es)) ↔
      n.toNat = es.length ∧ ∀ before e after, es = before ++ e :: after →
        FoundBy32 (sectionOf es) (sectionOf before).length e.content := by
  have hget := getImage_bytes ⟨n, initrdMagic⟩ (fileHeaders 0 es) (sectionOf es)
  rw [fileHeaders_length] at hget
  have hleads := forall₂_leadsTo_iff (sectionOf es) es 0
  simp only [Nat.zero_add] at hleads
  rw [← hleads, ConsistentWith, hget]
  constructor
  · rintro ⟨h, hs, data, heq, hnfiles, -, hall⟩
    obtain ⟨rfl, hrest⟩ := Prod.mk.inj (Option.some.inj heq)
    obtain ⟨rfl, rfl⟩ := Prod.mk.inj hrest
    exact ⟨hnfiles, hall⟩
  · rintro ⟨hnfiles, hall⟩
    exact ⟨_, _, _, rfl, hnfiles, rfl, hall⟩

/-- All arguments are counted, and the regular files are put into the image. -/
theorem nfiles_iff (args : Arguments) :
    (UInt32.ofNat args.val.length).toNat = (entries files args.val).length ↔
      ∀ arg ∈ args.val, (regularFile files arg).isSome := by
  have hfits := args.property
  have hnfiles : (UInt32.ofNat args.val.length).toNat = args.val.length :=
    UInt32.toNat_ofNat_of_lt' (by change _ < 2 ^ 32; omega)
  rw [hnfiles, eq_comm]
  exact List.filterMap_length_eq_length

/--
**Which images are consistent.**  For every list of arguments that exist: the image is
consistent with the regular files among them exactly if all are regular, and each can be found
by 32 bits.
-/
theorem image_consistent_iff (args : Arguments) (hexist : ∀ arg ∈ args.val, (files arg).isSome) :
    (∀ image status, main files args = some (image, status) →
        status = 0 ∧ ConsistentWith (entries files args.val) image) ↔
      (∀ arg ∈ args.val, (regularFile files arg).isSome) ∧
        ∀ before e after, entries files args.val = before ++ e :: after →
          FoundBy32 (sectionOf (entries files args.val)) (sectionOf before).length e.content := by
  unfold main
  by_cases hargs : args.val = []
  · rw [if_pos hargs, hargs]
    refine iff_of_true ?_ ⟨?_, ?_⟩
    · intro image status h
      cases h
    · intro arg harg
      cases harg
    · intro before e after h
      exact absurd h (by simp [entries])
  · rw [if_neg hargs, dataLoop_eq args.val hexist, headerLoop_eq, ← nfiles_iff,
      ← consistentWith_iff]
    constructor
    · intro h
      exact (h _ _ rfl).2
    · rintro h image status heq
      obtain ⟨rfl, rfl⟩ := Prod.mk.inj (Option.some.inj heq)
      exact ⟨rfl, h⟩

/-- In less than 2^32 bytes of data all files are found. -/
theorem foundBy32_of_lt {es : List Entry} (hdata : (sectionOf es).length < 2 ^ 32)
    {before after : List Entry} {e : Entry} (heq : es = before ++ e :: after) :
    FoundBy32 (sectionOf es) (sectionOf before).length e.content := by
  have hsection : sectionOf es = sectionOf before ++ (e.content ++ sectionOf after) := by
    rw [heq]
    simp [sectionOf]
  rw [hsection] at hdata ⊢
  simp only [List.length_append] at hdata
  refine ⟨by omega, ?_⟩
  rw [Nat.mod_eq_of_lt (by omega), List.drop_left, List.take_left]

/-- A directory `d`, and the files `f` of two bytes and `g` of three. -/
def threeFiles : Name → Option File
  | [100] => some .other
  | [102] => some (.regular [97, 98])
  | [103] => some (.regular [99, 100, 101])
  | _ => none

/-- An image of the two files.  The second one begins at 2. -/
theorem image_consistent_two : ∃ image hs data,
    main threeFiles ⟨[[102], [103]], by decide⟩ = some (image, 0) ∧
      ConsistentWith [⟨[102], [97, 98]⟩, ⟨[103], [99, 100, 101]⟩] image ∧
      getImage 2 image = some (⟨2, initrdMagic⟩, hs, data) ∧ hs.map FileHeader.offset = [0, 2] := by
  have hsmall : (sectionOf (entries threeFiles [[102], [103]])).length < 2 ^ 32 := by decide
  have hconsistent := (image_consistent_iff ⟨[[102], [103]], by decide⟩
    (by decide)).mpr ⟨by decide, fun _ _ _ heq => foundBy32_of_lt hsmall heq⟩
  have himage := getImage_bytes ⟨2, initrdMagic⟩
    (fileHeaders 0 (entries threeFiles [[102], [103]])) (sectionOf (entries threeFiles [[102], [103]]))
  exact ⟨_, _, _, rfl, (hconsistent _ _ rfl).2, himage, by decide⟩

/-- **With the directory the image has two files and one header.** -/
theorem directory_counted : ¬ ∀ (files : Name → Option File) (args : Arguments),
    (∀ arg ∈ args.val, (files arg).isSome) → ∀ image status, main files args = some (image, status) →
      status = 0 ∧ ConsistentWith (entries files args.val) image := by
  intro h
  have hall := ((image_consistent_iff ⟨[[100], [102]], by decide⟩
    (by decide)).mp (h threeFiles ⟨[[100], [102]], by decide⟩ (by decide))).1
  exact absurd (hall [100] List.mem_cons_self) (by decide)

end OsThing.Mkinitrd
