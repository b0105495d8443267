/-
When the segments of an executable are where the file says.

`load_elf` does not look at the type of a program header and clears nothing.  So a header that
is not `PT_LOAD` is mapped and copied like one that is, and the end of a segment that is longer
than what the file has of it shows what its frames held before.

One header makes the pages of its range present, and the pages that its copy faults on, shows
the frames on new pages, and writes the bytes of the file: `place_spec`.  The memory after some
headers is then known from the file and from what was there before, but for bytes of new pages
that no segment was copied to, and these may be anything: `Known`.
-/
import OsThing.Kern.Loading
import OsThing.Proofs.Executables

namespace OsThing.Elf

open Bytes Fs Paging

namespace AddressSpace

/-! ### Pages -/

/-- `m'` has some more pages than `m`, and these show their frames. -/
structure Grown (env : Surroundings) (m m' : AddressSpace) (P : Nat → Prop) : Prop where
  mapped : ∀ p, m'.mapped p = true ↔ m.mapped p = true ∨ P p
  fresh : ∀ a, m.mapped (a / pageSize) ≠ true → P (a / pageSize) → m'.byte a = env.frames a
  old : ∀ a, m.mapped (a / pageSize) = true ∨ ¬ P (a / pageSize) → m'.byte a = m.byte a

variable {env : Surroundings} {m m' m'' : AddressSpace}

theorem Grown.refl (env : Surroundings) (m : AddressSpace) {P : Nat → Prop} (hP : ∀ p, ¬ P p) :
    Grown env m m P :=
  ⟨fun p => (or_iff_left (hP p)).symm, fun _ _ h => absurd h (hP _), fun _ _ => rfl⟩

theorem Grown.trans {P Q R : Nat → Prop} (h : Grown env m m' P) (h' : Grown env m' m'' Q)
    (hR : ∀ p, R p ↔ P p ∨ Q p) : Grown env m m'' R := by
  refine ⟨fun p => ?_, fun a hnone ha => ?_, fun a ha => ?_⟩
  · rw [h'.mapped, h.mapped, hR, or_assoc]
  · by_cases hP : P (a / pageSize)
    · exact (h'.old a (Or.inl ((h.mapped _).mpr (Or.inr hP)))).trans (h.fresh a hnone hP)
    · refine h'.fresh a (fun hsome => ?_) (((hR _).mp ha).resolve_left hP)
      exact ((h.mapped _).mp hsome).elim hnone hP
  · rcases ha with hsome | hnot
    · exact (h'.old a (Or.inl ((h.mapped _).mpr (Or.inl hsome)))).trans (h.old a (Or.inl hsome))
    · rw [hR, not_or] at hnot
      exact (h'.old a (Or.inr hnot.2)).trans (h.old a (Or.inr hnot.1))

theorem mapPage_grown (env : Surroundings) (m : AddressSpace) (address : Nat) :
    Grown env m (m.mapPage env address) (· = address / pageSize) := by
  unfold mapPage
  split
  · rename_i hsome
    exact ⟨fun p => (or_iff_left_of_imp fun hp => hp ▸ hsome).symm,
      fun a hnone ha => absurd (ha ▸ hsome) hnone, fun _ _ => rfl⟩
  · rename_i hnone
    refine ⟨fun p => ?_, fun a _ ha => if_pos ha, fun a ha => if_neg ?_⟩
    · dsimp only
      rw [Function.update_apply]
      split
      · rename_i hp
        exact iff_of_true rfl (Or.inr hp)
      · rename_i hp
        exact (or_iff_left hp).symm
    · rintro heq
      exact ha.elim (fun hsome => hnone (heq ▸ hsome)) fun hne => hne heq

/-- The first `n` steps of the loop. -/
theorem mapPages_steps (env : Surroundings) (m : AddressSpace) (start n : Nat) :
    Grown env m ((List.range n).foldl (fun m i => m.mapPage env (start + i * pageSize)) m)
      fun p => ∃ j < n, (start + j * pageSize) / pageSize = p := by
  induction n with
  | zero => exact Grown.refl env m fun p ⟨j, hj, _⟩ => Nat.not_lt_zero j hj
  | succ n ih =>
      rw [List.range_succ, List.foldl_append]
      exact ih.trans (mapPage_grown env _ _) fun p =>
        Nat.exists_lt_succ_right.trans (or_congr_right eq_comm)

theorem mapPages_grown {start stop : Nat} (h : m.mapPages env start stop = some m') :
    Grown env m m' fun p => ∃ j < pageCount start stop, (start + j * pageSize) / pageSize = p := by
  unfold mapPages at h
  obtain ⟨-, h⟩ := Option.ite_none_left_eq_some.mp h
  obtain rfl := Option.some.inj h
  exact mapPages_steps env m start _

/-- Nothing is left to be mapped. -/
theorem mapPages_same {start stop : Nat} (hends : start + pageCount start stop * pageSize < space)
    (h : ∀ j < pageCount start stop, m.mapped ((start + j * pageSize) / pageSize) = true) :
    m.mapPages env start stop = some m := by
  have hsteps : ∀ n ≤ pageCount start stop,
      (List.range n).foldl (fun m i => m.mapPage env (start + i * pageSize)) m = m := by
    intro n
    induction n with
    | zero => exact fun _ => rfl
    | succ n ih =>
        intro hn
        rw [List.range_succ, List.foldl_append, ih (Nat.le_of_succ_le hn)]
        exact if_pos (h n hn)
  unfold mapPages
  rw [if_neg (Nat.not_le_of_lt hends), hsteps _ (Nat.le_refl _)]

/-! ### Copies -/

/-- The address that the byte `k` of a copy goes to. -/
def target (dest k : Nat) : Nat := (dest + k) % space

theorem target_inj {dest j k : Nat} (hj : j < space) (hk : k < space)
    (h : target dest j = target dest k) : j = k := by
  unfold target at h
  unfold space at *
  omega

/-- The bytes are where they should be, on pages that were there or show their frames. -/
structure CopiedTo (env : Surroundings) (m m' : AddressSpace) (dest : Nat) (buf : Memory)
    (count : Nat) : Prop where
  mapped : ∀ p, m'.mapped p = true ↔ m.mapped p = true ∨ ∃ k < count, target dest k / pageSize = p
  written : ∀ k < count, m'.byte (target dest k) = buf k
  fresh : ∀ a, (∀ k < count, target dest k ≠ a) → m.mapped (a / pageSize) ≠ true →
    (∃ k < count, target dest k / pageSize = a / pageSize) → m'.byte a = env.frames a
  old : ∀ a, (∀ k < count, target dest k ≠ a) → (m.mapped (a / pageSize) = true ∨
    ¬ ∃ k < count, target dest k / pageSize = a / pageSize) → m'.byte a = m.byte a

/-- The caller's regions have the address. -/
def Surroundings.InMaps (env : Surroundings) (a : Nat) : Prop :=
  (memmapsCheck env.maps (UInt32.ofNat a)).isSome

theorem store_eq_some {a : Nat} {v : UInt8} :
    m.store env a v = some m' ↔ (m.mapped (a / pageSize) = true ∨ Surroundings.InMaps env a) ∧
      m' = { m.mapPage env a with byte := Function.update (m.mapPage env a).byte a v } := by
  unfold store Surroundings.InMaps mapPage
  dsimp only
  split
  · rename_i hsome
    rw [Option.map_some, Option.some_inj]
    exact ⟨fun h => ⟨Or.inl hsome, h.symm⟩, fun h => h.2.symm⟩
  · rename_i hnone
    split
    · rename_i hmaps
      rw [Option.map_some, Option.some_inj]
      exact ⟨fun h => ⟨Or.inr hmaps, h.symm⟩, fun h => h.2.symm⟩
    · rename_i hmaps
      exact iff_of_false nofun fun h => h.1.elim hnone hmaps

theorem memcpy_succ (dest : Nat) (buf : Memory) (n : Nat) :
    m.memcpy env dest buf (n + 1) =
      (m.memcpy env dest buf n).bind fun m => m.store env (target dest n) (buf n) := by
  unfold memcpy
  rw [List.range_succ, List.foldlM_append]
  refine congrArg _ (funext fun m => ?_)
  rw [List.foldlM_cons]
  exact bind_pure _

theorem memcpy_spec {dest count : Nat} {buf : Memory} (hcount : count ≤ space) :
    ∀ {m' : AddressSpace}, m.memcpy env dest buf count = some m' →
      CopiedTo env m m' dest buf count := by
  induction count with
  | zero =>
      intro m' h
      obtain rfl : m = m' := Option.some.inj h
      exact ⟨fun p => (or_iff_left fun ⟨k, hk, _⟩ => Nat.not_lt_zero k hk).symm,
        fun k hk => absurd hk (Nat.not_lt_zero k),
        fun a _ _ ⟨k, hk, _⟩ => absurd hk (Nat.not_lt_zero k), fun _ _ _ => rfl⟩
  | succ n ih =>
      intro m' h
      rw [memcpy_succ] at h
      obtain ⟨m₁, hn, hstore⟩ := Option.bind_eq_some_iff.mp h
      obtain ⟨-, rfl⟩ := store_eq_some.mp hstore
      have hc := ih (Nat.le_of_succ_le hcount) hn
      have hg := mapPage_grown env m₁ (target dest n)
      have hlt : ∀ {a}, (∀ k < n + 1, target dest k ≠ a) → ∀ k < n, target dest k ≠ a :=
        fun h k hk => h k (Nat.lt_succ_of_lt hk)
      have hlast : ∀ {a}, (∀ k < n + 1, target dest k ≠ a) → a ≠ target dest n :=
        fun h heq => h n (Nat.lt_succ_self n) heq.symm
      refine ⟨fun p => ?_, fun k hk => ?_, fun a ha hnone hpage => ?_, fun a ha hpage => ?_⟩
      · rw [Nat.exists_lt_succ_right, ← or_assoc, ← hc.mapped]
        exact (hg.mapped p).trans (or_congr_right eq_comm)
      · dsimp only
        rcases Nat.lt_succ_iff_lt_or_eq.mp hk with hk | rfl
        · have hne : target dest k ≠ target dest n := fun heq =>
            Nat.ne_of_lt hk (target_inj (by omega) (by omega) heq)
          rw [Function.update_of_ne hne,
            hg.old _ (Or.inl ((hc.mapped _).mpr (Or.inr ⟨k, hk, rfl⟩)))]
          exact hc.written k hk
        · rw [Function.update_self]
      · dsimp only
        rw [Function.update_of_ne (hlast ha)]
        by_cases hearlier : ∃ k < n, target dest k / pageSize = a / pageSize
        · rw [hg.old _ (Or.inl ((hc.mapped _).mpr (Or.inr hearlier)))]
          exact hc.fresh a (hlt ha) hnone hearlier
        · refine hg.fresh a (fun hsome => ?_) ?_
          · exact ((hc.mapped _).mp hsome).elim hnone hearlier
          · exact ((Nat.exists_lt_succ_right.mp hpage).resolve_left hearlier).symm
      · dsimp only
        rw [Function.update_of_ne (hlast ha)]
        rw [Nat.exists_lt_succ_right, not_or] at hpage
        rw [hg.old a (hpage.imp (fun hsome => (hc.mapped _).mpr (Or.inl hsome))
          fun hnot heq => hnot.2 heq.symm)]
        exact hc.old a (hlt ha) (hpage.imp_right And.left)

/-- A copy comes back if no first byte on a page faults outside of the caller's regions. -/
theorem memcpy_isSome_iff {dest count : Nat} {buf : Memory} (hcount : count ≤ space) :
    (m.memcpy env dest buf count).isSome ↔ ∀ k < count,
      m.mapped (target dest k / pageSize) = true ∨ Surroundings.InMaps env (target dest k) ∨
        ∃ j < k, target dest j / pageSize = target dest k / pageSize := by
  induction count with
  | zero => exact iff_of_true rfl fun k hk => absurd hk (Nat.not_lt_zero k)
  | succ n ih =>
      rw [memcpy_succ]
      rcases hn : m.memcpy env dest buf n with _ | m₁
      · rw [hn] at ih
        refine iff_of_false nofun fun h => ?_
        exact absurd ((ih (Nat.le_of_succ_le hcount)).mpr fun k hk => h k (Nat.lt_succ_of_lt hk))
          nofun
      · have hc := memcpy_spec (Nat.le_of_succ_le hcount) hn
        rw [hn] at ih
        have hall := (ih (Nat.le_of_succ_le hcount)).mp rfl
        rw [Option.bind_some, Option.isSome_iff_exists]
        simp only [store_eq_some]
        constructor
        · rintro ⟨-, hlast, -⟩ k hk
          rcases Nat.lt_succ_iff_lt_or_eq.mp hk with hk | rfl
          · exact hall k hk
          · rw [hc.mapped, or_assoc] at hlast
            exact hlast.imp_right Or.symm
        · intro h
          have hlast := h n (Nat.lt_succ_self n)
          refine ⟨_, ?_, rfl⟩
          rw [hc.mapped, or_assoc]
          exact hlast.imp_right Or.symm

/-- The bytes are there already. -/
theorem memcpy_same {dest count : Nat} {buf : Memory}
    (h : ∀ k < count, m.mapped (target dest k / pageSize) = true ∧ m.byte (target dest k) = buf k) :
    m.memcpy env dest buf count = some m := by
  induction count with
  | zero => rfl
  | succ n ih =>
      obtain ⟨hsome, hbyte⟩ := h n (Nat.lt_succ_self n)
      rw [memcpy_succ, ih fun k hk => h k (Nat.lt_succ_of_lt hk), Option.bind_some,
        store_eq_some]
      refine ⟨Or.inl hsome, ?_⟩
      rw [show m.mapPage env (target dest n) = m from if_pos hsome, ← hbyte,
        Function.update_eq_self]

/-! ### One header -/

/-- `map_pages` comes to the page. -/
def LoopPage (h : Phdr) (p : Nat) : Prop := ∃ j < h.pages, (h.vaddr + j * pageSize) / pageSize = p

/-- A byte is copied to the page. -/
def CopyPage (h : Phdr) (p : Nat) : Prop := ∃ k < h.filesz, target h.vaddr k / pageSize = p

/-- What a header does. -/
structure PlacedTo (env : Surroundings) (m m' : AddressSpace) (h : Phdr) (buf : Memory) : Prop where
  ends : h.MapEnds
  mapped : ∀ p, m'.mapped p = true ↔ m.mapped p = true ∨ LoopPage h p ∨ CopyPage h p
  written : ∀ k < h.filesz, m'.byte (target h.vaddr k) = buf k
  fresh : ∀ a, (∀ k < h.filesz, target h.vaddr k ≠ a) → m.mapped (a / pageSize) ≠ true →
    LoopPage h (a / pageSize) ∨ CopyPage h (a / pageSize) → m'.byte a = env.frames a
  old : ∀ a, (∀ k < h.filesz, target h.vaddr k ≠ a) →
    m.mapped (a / pageSize) = true → m'.byte a = m.byte a

variable {h : Phdr} {buf : Memory}

theorem place_spec (hfilesz : h.filesz ≤ space) (hplace : m.place env h buf = some m') :
    PlacedTo env m m' h buf := by
  obtain ⟨m₁, hmap, hcopy⟩ := Option.bind_eq_some_iff.mp hplace
  have hends : h.MapEnds := Nat.lt_of_not_le (Option.ite_none_left_eq_some.mp hmap).1
  have hg : Grown env m m₁ (LoopPage h) := mapPages_grown hmap
  have hc := memcpy_spec hfilesz hcopy
  refine ⟨hends, fun p => ?_, hc.written, fun a ha hnone hpage => ?_, fun a ha hsome => ?_⟩
  · rw [hc.mapped, hg.mapped, or_assoc]
    exact Iff.rfl
  · by_cases hloop : LoopPage h (a / pageSize)
    · rw [hc.old a ha (Or.inl ((hg.mapped _).mpr (Or.inr hloop)))]
      exact hg.fresh a hnone hloop
    · refine hc.fresh a ha (fun hsome => ?_) (hpage.resolve_left hloop)
      exact ((hg.mapped _).mp hsome).elim hnone hloop
  · rw [hc.old a ha (Or.inl ((hg.mapped _).mpr (Or.inl hsome)))]
    exact hg.old a (Or.inl hsome)

/-- When the loop comes back from a header. -/
theorem place_isSome_iff (hfilesz : h.filesz ≤ space) : (m.place env h buf).isSome ↔ h.MapEnds ∧
    ∀ k < h.filesz, (m.mapped (target h.vaddr k / pageSize) = true ∨
      LoopPage h (target h.vaddr k / pageSize)) ∨ Surroundings.InMaps env (target h.vaddr k) ∨
        ∃ j < k, target h.vaddr j / pageSize = target h.vaddr k / pageSize := by
  unfold place
  by_cases hends : h.MapEnds
  · have hsome : ∃ m₁, m.mapPages env h.vaddr h.stop = some m₁ :=
      ⟨_, if_neg (Nat.not_le_of_lt hends)⟩
    obtain ⟨m₁, hmap⟩ := hsome
    have hg : Grown env m m₁ (LoopPage h) := mapPages_grown hmap
    rw [hmap, Option.bind_some, memcpy_isSome_iff hfilesz, and_iff_right hends]
    exact forall₂_congr fun k _ => or_congr_left (hg.mapped _)
  · have hnone : m.mapPages env h.vaddr h.stop = none := if_pos (Nat.le_of_not_lt hends)
    rw [hnone]
    exact iff_of_false nofun fun h => hends h.1

/-- A header that finds everything as it would leave it. -/
theorem place_same (hends : h.MapEnds) (hpages : ∀ p, LoopPage h p → m.mapped p = true)
    (hbytes : ∀ k < h.filesz, m.mapped (target h.vaddr k / pageSize) = true ∧
      m.byte (target h.vaddr k) = buf k) : m.place env h buf = some m := by
  unfold place
  rw [mapPages_same hends fun j hj => hpages _ ⟨j, hj, rfl⟩, Option.bind_some, memcpy_same hbytes]

theorem memcpy_congr {dest count : Nat} {buf buf' : Memory} (h : ∀ k < count, buf k = buf' k) :
    m.memcpy env dest buf count = m.memcpy env dest buf' count := by
  induction count with
  | zero => rfl
  | succ n ih =>
      rw [memcpy_succ, memcpy_succ, ih fun k hk => h k (Nat.lt_succ_of_lt hk),
        h n (Nat.lt_succ_self n)]

theorem place_congr {buf' : Memory} (hbuf : ∀ k < h.filesz, buf k = buf' k) :
    m.place env h buf = m.place env h buf' := by
  unfold place
  exact congrArg (Option.bind _) (funext fun _ => memcpy_congr hbuf)

end AddressSpace

/-! ### The file -/

def PT_LOAD : Nat := 1

namespace OpenFile

variable (f : OpenFile)

/-- The program header `i`, where the header of the file says that it is. -/
def headerBytes (i : Nat) : Memory := fun j => f.byte (f.ehdr.phoff + i * phdrSize + j)

def phdr (i : Nat) : Phdr := Phdr.ofBytes (f.headerBytes i)

/-- `p_type`. -/
def phType (i : Nat) : Nat := read32 (f.headerBytes i) 0

/-- What the file has of the segment. -/
def segmentBytes (i : Nat) : Memory := fun k => f.byte ((f.phdr i).offset + k)

/-- The memory before the program header `i`. -/
def memories (env : Surroundings) (kernel : AddressSpace) : Nat → Option AddressSpace
  | 0 => some kernel
  | i + 1 => (memories env kernel i).bind fun m => m.place env (f.phdr i) (f.segmentBytes i)

theorem memories_none {env : Surroundings} {kernel : AddressSpace} {i : Nat}
    (h : f.memories env kernel i = none) (n : Nat) : f.memories env kernel (i + n) = none := by
  induction n with
  | zero => exact h
  | succ n ih =>
      show (f.memories env kernel (i + n)).bind _ = none
      rw [ih, Option.bind_none]

/-- Everything that the headers speak of is in the file, and can be sought to. -/
structure Readable : Prop where
  phentsize : f.ehdr.phentsize = phdrSize
  headers : ∀ i < f.ehdr.phnum,
    f.ehdr.phoff + i * phdrSize + phdrSize ≤ f.size ∧ f.ehdr.phoff + i * phdrSize < 2 ^ 31
  ranges : ∀ i < f.ehdr.phnum, 0 < (f.phdr i).filesz →
    (f.phdr i).offset + (f.phdr i).filesz ≤ f.size ∧ (f.phdr i).offset < 2 ^ 31

theorem seek_small {n : Nat} (hn : n < 2 ^ 31) :
    f.seek (UInt32.ofNat n).toInt32 = { f with offset := UInt32.ofNat n } := by
  have hnat : (UInt32.ofNat n).toNat = n := UInt32.toNat_ofNat_of_lt' (show n < 2 ^ 32 by omega)
  have hint : (UInt32.ofNat n).toInt32.toInt = n := by
    show (UInt32.ofNat n).toBitVec.toInt = n
    rw [BitVec.toInt_eq_toNat_of_lt]
    · exact_mod_cast hnat
    · show 2 * (UInt32.ofNat n).toNat < _
      omega
  have hnonneg : ¬ (UInt32.ofNat n).toInt32 < 0 := by
    rw [Int32.lt_iff_toInt_lt, Int32.toInt_zero, hint]
    omega
  unfold seek
  rw [if_neg hnonneg]
  rfl

/-- A descriptor of the same file. -/
def SameFile (g f : OpenFile) : Prop := g.size = f.size ∧ g.byte = f.byte

theorem SameFile.seek {g f : OpenFile} (h : SameFile g f) (offset : Int32) :
    SameFile (g.seek offset) f := by
  unfold OpenFile.seek
  split
  · exact h
  · exact h

theorem SameFile.read {g f : OpenFile} (h : SameFile g f) (n : Nat) : SameFile (g.read n) f := h

/-- What is read where a range of the file starts. -/
theorem bytes_at {n count : Nat} (hn : n < 2 ^ 31) (hrange : n + count ≤ f.size) (m : Memory) :
    ∀ j < count, store m ((f.seek (UInt32.ofNat n).toInt32).bytes count) j = f.byte (n + j) := by
  intro j hj
  have hnat : (UInt32.ofNat n).toNat = n := UInt32.toNat_ofNat_of_lt' (show n < 2 ^ 32 by omega)
  have hcount : (f.seek (UInt32.ofNat n).toInt32).count count = count := by
    rw [seek_small f hn]
    show min count (f.size - (UInt32.ofNat n).toNat) = count
    rw [hnat]
    omega
  unfold store OpenFile.bytes
  rw [hcount, List.getD_eq_getElem?_getD, List.getElem?_map, List.getElem?_range hj,
    seek_small f hn]
  show f.byte ((UInt32.ofNat n).toNat + j) = _
  rw [hnat]

end OpenFile

theorem Phdr.ofBytes_congr {m m' : Memory} (h : ∀ j < phdrSize, m j = m' j) :
    Phdr.ofBytes m = Phdr.ofBytes m' := by
  have hword : ∀ a, a + 4 ≤ phdrSize → read32 m a = read32 m' a := fun a ha =>
    read32_congr fun j _ hj => h j (by omega)
  unfold Phdr.ofBytes
  rw [hword 4 (by decide), hword 8 (by decide), hword 16 (by decide), hword 20 (by decide)]

section Load

variable {s : Vfs} {t : Nat} {fd : Int} {raw : Nat → UInt8} {f : OpenFile}
variable {env : Surroundings} {kernel : AddressSpace}

theorem placeSegments_eq (hread : f.Readable) (turns : Nat) :
    ∀ {i : Nat} {s : Vfs} {g : OpenFile} {phbuf : Memory} {m : AddressSpace},
      i + turns = f.ehdr.phnum → Shows s t fd raw g → g.SameFile f →
      f.memories env kernel i = some m →
      (placeSegments t fd raw env f.ehdr turns i s phbuf m).map Prod.fst =
        f.memories env kernel (i + turns) := by
  induction turns with
  | zero => intro i s g phbuf m _ _ _ hm; exact hm.symm
  | succ turns ih =>
      intro i s g phbuf m hi h hfile hm
      have hlt : i < f.ehdr.phnum := by omega
      obtain ⟨hheader, hlow⟩ := hread.headers i hlt
      have hoffset : f.ehdr.headerOffset i =
          (UInt32.ofNat (f.ehdr.phoff + i * phdrSize)).toInt32 := by
        rw [Ehdr.headerOffset, hread.phentsize]
      obtain ⟨s₁, hread₁, h₁⟩ := h.readAt (f.ehdr.headerOffset i)
        (show phdrSize < 2 ^ 32 by decide)
      have hfile₁ := (hfile.seek (f.ehdr.headerOffset i)).read phdrSize
      let g₁ := (g.seek (f.ehdr.headerOffset i)).read phdrSize
      let g₂ := g₁.seek (UInt32.ofNat (f.phdr i).offset).toInt32
      let phbuf' := store phbuf ((g.seek (f.ehdr.headerOffset i)).bytes phdrSize)
      have hphdr : Phdr.ofBytes phbuf' = f.phdr i := by
        refine Phdr.ofBytes_congr fun j hj => ?_
        show store phbuf _ j = f.byte _
        rw [hoffset, g.bytes_at hlow (hfile.1 ▸ hheader) phbuf j hj, hfile.2]
      have hfile₂ := hfile₁.seek (UInt32.ofNat (f.phdr i).offset).toInt32
      obtain ⟨s₂, hread₂, h₂⟩ := h₁.readAt (UInt32.ofNat (f.phdr i).offset).toInt32
        (show (f.phdr i).filesz < 2 ^ 32 from read32_lt _ 16)
      have hbuf : ∀ k < (f.phdr i).filesz,
          store (env.buffers i) (g₂.bytes (f.phdr i).filesz) k = f.segmentBytes i k := by
        intro k hk
        obtain ⟨hrange, hbelow⟩ := hread.ranges i hlt (Nat.zero_lt_of_lt hk)
        have hend := Nat.le_trans hrange (Nat.le_of_eq hfile₁.1.symm)
        rw [g₁.bytes_at hbelow hend _ k hk, hfile₁.2]
        rfl
      have hstep : f.memories env kernel (i + 1) =
          m.place env (f.phdr i) (store (env.buffers i) (g₂.bytes (f.phdr i).filesz)) := by
        rw [OpenFile.memories, hm, Option.bind_some, AddressSpace.place_congr hbuf]
      unfold placeSegments
      dsimp only
      rw [hread.phentsize, hread₁, Option.bind_some]
      dsimp only
      rw [show Phdr.ofBytes (store phbuf _) = f.phdr i from hphdr, hread₂, Option.bind_some]
      dsimp only
      rw [show (i + (turns + 1)) = i + 1 + turns by omega]
      rw [← hstep]
      rcases hnext : f.memories env kernel (i + 1) with _ | m₁
      · rw [Option.bind_none, Option.map_none, f.memories_none hnext]
      · exact ih (by omega) h₂ (hfile₂.read _) hnext

/-- `load_elf` goes through the program headers of a file that it accepts. -/
theorem loadProgram_accepts (h : Opens s t fd raw f) (helf : f.IsElf) :
    ∃ s₁, Shows s₁ t fd raw (f.read ehdrSize) ∧ loadProgram s t fd raw env kernel =
      (placeSegments t fd raw env f.ehdr f.ehdr.phnum 0 s₁ (fun _ => 0) kernel).map
        fun last => (0, some ⟨last.1, f.ehdr.entry, (Phdr.ofBytes last.2).vaddr,
          (Phdr.ofBytes last.2).stop⟩) := by
  obtain ⟨s₁, hread, h₁⟩ := h.shows.read (UInt32.ofNat ehdrSize)
  refine ⟨s₁, h₁, ?_⟩
  unfold loadProgram
  rw [if_neg h.not_refused, hread, Option.bind_some]
  dsimp only
  exact if_neg (Bool.eq_false_iff.mp ((badHeader_iff f).mpr helf))

theorem loadProgram_iff (h : Opens s t fd raw f) (helf : f.IsElf) (hread : f.Readable)
    (m : AddressSpace) :
    (∃ prog, loadProgram s t fd raw env kernel = some (0, some prog) ∧ prog.memory = m) ↔
      f.memories env kernel f.ehdr.phnum = some m := by
  obtain ⟨s₁, h₁, hload⟩ := @loadProgram_accepts s t fd raw f env kernel h helf
  have hloop := @placeSegments_eq t fd raw f env kernel hread f.ehdr.phnum 0 s₁
    (f.read ehdrSize) (fun _ => 0) kernel (Nat.zero_add _) h₁ ⟨rfl, rfl⟩ rfl
  rw [Nat.zero_add] at hloop
  rw [hload, ← hloop]
  rcases placeSegments t fd raw env f.ehdr f.ehdr.phnum 0 s₁ (fun _ => 0) kernel with _ | last
  · exact iff_of_false nofun nofun
  · rw [Option.map_some, Option.map_some]
    constructor
    · rintro ⟨prog, hprog, rfl⟩
      cases hprog
      rfl
    · intro hm
      exact ⟨_, rfl, Option.some.inj hm⟩

end Load

/-! ### Segments -/

/-- The segment has a byte on the page. -/
def Phdr.OnPage (h : Phdr) (p : Nat) : Prop := ∃ k < h.memsz, (h.vaddr + k) / pageSize = p

/-- A static executable, all of which can be read, with its loadable segments on disjoint pages
that are not the kernel's. -/
structure OpenFile.WellFormed (f : OpenFile) (kernel : AddressSpace) : Prop where
  elf : f.IsElf
  readable : f.Readable
  filesz : ∀ i < f.ehdr.phnum, f.phType i = PT_LOAD → (f.phdr i).filesz ≤ (f.phdr i).memsz
  memsz : ∀ i < f.ehdr.phnum, f.phType i = PT_LOAD → (f.phdr i).vaddr + (f.phdr i).memsz ≤ space
  user : ∀ i < f.ehdr.phnum, f.phType i = PT_LOAD → ∀ p, (f.phdr i).OnPage p →
    kernel.mapped p = false
  disjoint : ∀ i < f.ehdr.phnum, f.phType i = PT_LOAD → ∀ j < i, f.phType j = PT_LOAD →
    ∀ p, (f.phdr i).OnPage p → ¬ (f.phdr j).OnPage p

/--
A loadable segment that comes out right.  The file has all of it, the loop of `map_pages` ends,
and where it does not come to a page of the segment the page fault at the first byte there is
in a region of the caller.
-/
structure Phdr.Filled (h : Phdr) (maps : List Memmap) : Prop where
  whole : h.filesz = h.memsz
  ends : h.MapEnds
  reached : ∀ k < h.memsz, k = 0 ∨ (h.vaddr + k) % pageSize = 0 →
    AddressSpace.LoopPage h ((h.vaddr + k) / pageSize) ∨
      (memmapsCheck maps (UInt32.ofNat (h.vaddr + k))).isSome

namespace OpenFile

variable (f : OpenFile) (kernel : AddressSpace)

/-- The page is the kernel's or of a loadable segment before the header `i`. -/
def HasPage (i p : Nat) : Prop :=
  kernel.mapped p = true ∨ ∃ j < i, f.phType j = PT_LOAD ∧ (f.phdr j).OnPage p

/-- The byte is the kernel's or of a loadable segment before the header `i`. -/
def HasByte (i a : Nat) (value : UInt8) : Prop :=
  kernel.mapped (a / pageSize) = true ∧ kernel.byte a = value ∨
    ∃ j < i, f.phType j = PT_LOAD ∧ ∃ k < (f.phdr j).filesz,
      (f.phdr j).vaddr + k = a ∧ f.segmentBytes j k = value

/-- The header `i` finds its pages and its bytes in memory. -/
structure Idle (i : Nat) : Prop where
  ends : (f.phdr i).MapEnds
  pages : ∀ p, AddressSpace.LoopPage (f.phdr i) p → f.HasPage kernel i p
  bytes : ∀ k < (f.phdr i).filesz,
    f.HasByte kernel i (AddressSpace.target (f.phdr i).vaddr k) (f.segmentBytes i k)

/-- What is needed of the header `i`. -/
def Suits (maps : List Memmap) (i : Nat) : Prop :=
  (f.phType i = PT_LOAD → (f.phdr i).Filled maps) ∧ (f.phType i ≠ PT_LOAD → f.Idle kernel i)

/-- The memory before the header `i`. -/
structure Known (env : Surroundings) (i : Nat) (m : AddressSpace) : Prop where
  mapped : ∀ p, m.mapped p = true ↔ f.HasPage kernel i p
  byte : ∀ a value, f.HasByte kernel i a value → m.byte a = value
  fresh : ∀ a, f.HasPage kernel i (a / pageSize) → (∀ value, ¬ f.HasByte kernel i a value) →
    m.byte a = env.frames a

variable {f kernel} {env : Surroundings} {m m' : AddressSpace} {i : Nat}

theorem hasPage_succ {p : Nat} : f.HasPage kernel (i + 1) p ↔
    f.HasPage kernel i p ∨ f.phType i = PT_LOAD ∧ (f.phdr i).OnPage p := by
  unfold HasPage
  rw [Nat.exists_lt_succ_right, or_assoc]

theorem hasByte_succ {a : Nat} {value : UInt8} : f.HasByte kernel (i + 1) a value ↔
    f.HasByte kernel i a value ∨ f.phType i = PT_LOAD ∧ ∃ k < (f.phdr i).filesz,
      (f.phdr i).vaddr + k = a ∧ f.segmentBytes i k = value := by
  unfold HasByte
  rw [Nat.exists_lt_succ_right, or_assoc]

theorem known_zero (f : OpenFile) (kernel : AddressSpace) (env : Surroundings) :
    f.Known kernel env 0 kernel := by
  have hpage : ∀ p, f.HasPage kernel 0 p ↔ kernel.mapped p = true := fun p =>
    or_iff_left fun ⟨j, hj, _⟩ => Nat.not_lt_zero j hj
  refine ⟨fun p => (hpage p).symm, fun a value h => ?_, fun a h hbyte => ?_⟩
  · rcases h with ⟨-, hbyte⟩ | ⟨j, hj, -⟩
    · exact hbyte
    · exact absurd hj (Nat.not_lt_zero j)
  · exact absurd (Or.inl ⟨(hpage _).mp h, rfl⟩) (hbyte _)

theorem WellFormed.hasPage (hf : f.WellFormed kernel) (hi : i ≤ f.ehdr.phnum) {a : Nat}
    {value : UInt8} (h : f.HasByte kernel i a value) : f.HasPage kernel i (a / pageSize) := by
  rcases h with ⟨hkernel, -⟩ | ⟨j, hj, hload, k, hk, rfl, -⟩
  · exact Or.inl hkernel
  · have hk' := Nat.lt_of_lt_of_le hk (hf.filesz j (Nat.lt_of_lt_of_le hj hi) hload)
    exact Or.inr ⟨j, hj, hload, k, hk', rfl⟩

section WellFormed

variable (hf : f.WellFormed kernel) (hi : i < f.ehdr.phnum) (hload : f.phType i = PT_LOAD)

include hf hi hload

/-- The pages of a loadable segment are its own. -/
theorem WellFormed.own {p : Nat} (hp : (f.phdr i).OnPage p) : ¬ f.HasPage kernel i p := by
  rintro (hkernel | ⟨j, hj, hload', hp'⟩)
  · rw [hf.user i hi hload p hp] at hkernel
    cases hkernel
  · exact hf.disjoint i hi hload j hj hload' p hp hp'

theorem WellFormed.target_eq {k : Nat} (hk : k < (f.phdr i).memsz) :
    AddressSpace.target (f.phdr i).vaddr k = (f.phdr i).vaddr + k :=
  Nat.mod_eq_of_lt (by have := hf.memsz i hi hload; omega)

theorem WellFormed.onPage_of_loop {p : Nat} (h : AddressSpace.LoopPage (f.phdr i) p) :
    (f.phdr i).OnPage p := by
  obtain ⟨j, hj, rfl⟩ := h
  have hstep := Phdr.step_lt_stop hj
  have hfits := hf.memsz i hi hload
  refine ⟨j * pageSize, ?_, rfl⟩
  unfold Phdr.stop space at hstep
  unfold space at hfits
  omega

theorem WellFormed.onPage_of_copy {p : Nat} (h : AddressSpace.CopyPage (f.phdr i) p) :
    (f.phdr i).OnPage p := by
  obtain ⟨k, hk, rfl⟩ := h
  have hk' := Nat.lt_of_lt_of_le hk (hf.filesz i hi hload)
  exact ⟨k, hk', by rw [hf.target_eq hi hload hk']⟩

/-- What is there before a loadable segment stays. -/
theorem WellFormed.old (hplace : AddressSpace.PlacedTo env m m' (f.phdr i) (f.segmentBytes i))
    {a : Nat} (ha : ¬ (f.phdr i).OnPage (a / pageSize)) :
    (m'.mapped (a / pageSize) = true ↔ m.mapped (a / pageSize) = true) ∧
      (m.mapped (a / pageSize) = true → m'.byte a = m.byte a) := by
  refine ⟨?_, fun hsome => hplace.old a (fun k hk htarget => ha ?_) hsome⟩
  · rw [hplace.mapped]
    exact or_iff_left fun h => ha (h.elim (hf.onPage_of_loop hi hload)
      (hf.onPage_of_copy hi hload))
  · exact hf.onPage_of_copy hi hload ⟨k, hk, by rw [htarget]⟩

/-- A loadable segment that the file has all of. -/
theorem Known.load (h : f.Known kernel env i m) (hwhole : (f.phdr i).filesz = (f.phdr i).memsz)
    (hplace : AddressSpace.PlacedTo env m m' (f.phdr i) (f.segmentBytes i)) :
    f.Known kernel env (i + 1) m' := by
  have htarget : ∀ k < (f.phdr i).filesz,
      AddressSpace.target (f.phdr i).vaddr k = (f.phdr i).vaddr + k :=
    fun k hk => hf.target_eq hi hload (hwhole ▸ hk)
  have hpages : ∀ p, AddressSpace.LoopPage (f.phdr i) p ∨ AddressSpace.CopyPage (f.phdr i) p ↔
      (f.phdr i).OnPage p := fun p =>
    ⟨fun h => h.elim (hf.onPage_of_loop hi hload) (hf.onPage_of_copy hi hload),
      fun ⟨k, hk, hp⟩ => Or.inr ⟨k, hwhole ▸ hk, by rw [htarget k (hwhole ▸ hk), hp]⟩⟩
  have hold : ∀ a, f.HasPage kernel i (a / pageSize) → m'.byte a = m.byte a := fun a hpage =>
    (hf.old hi hload hplace fun hp => hf.own hi hload hp hpage).2 ((h.mapped _).mpr hpage)
  refine ⟨fun p => ?_, fun a value hbyte => ?_, fun a hpage hbyte => ?_⟩
  · rw [hplace.mapped, hpages, h.mapped, hasPage_succ, and_iff_right hload]
  · rcases hasByte_succ.mp hbyte with hbyte | ⟨-, k, hk, rfl, rfl⟩
    · rw [hold a (hf.hasPage (Nat.le_of_lt hi) hbyte)]
      exact h.byte a value hbyte
    · rw [← htarget k hk]
      exact hplace.written k hk
  · rcases hasPage_succ.mp hpage with hpage | ⟨-, hp⟩
    · rw [hold a hpage]
      exact h.fresh a hpage fun value hvalue => hbyte value (hasByte_succ.mpr (Or.inl hvalue))
    · refine hplace.fresh a (fun k hk htarget' => ?_) (fun hsome => ?_) ((hpages _).mpr hp)
      · rw [htarget k hk] at htarget'
        exact hbyte _ (hasByte_succ.mpr (Or.inr ⟨hload, k, hk, htarget', rfl⟩))
      · exact hf.own hi hload hp ((h.mapped _).mp hsome)

/-- The loop comes back from a loadable segment if and only if it gets to the first byte of the
segment on each page. -/
theorem WellFormed.place_isSome_iff (h : f.Known kernel env i m)
    (hwhole : (f.phdr i).filesz = (f.phdr i).memsz) :
    (m.place env (f.phdr i) (f.segmentBytes i)).isSome ↔ (f.phdr i).Filled env.maps := by
  have htarget : ∀ k < (f.phdr i).filesz,
      AddressSpace.target (f.phdr i).vaddr k = (f.phdr i).vaddr + k :=
    fun k hk => hf.target_eq hi hload (hwhole ▸ hk)
  rw [AddressSpace.place_isSome_iff (Nat.le_of_lt (read32_lt _ 16))]
  constructor
  · rintro ⟨hends, hcopy⟩
    refine ⟨hwhole, hends, fun k hk hfirst => ?_⟩
    rw [← hwhole] at hk
    have hk' := hcopy k hk
    rw [htarget k hk] at hk'
    rcases hk' with (hsome | hloop) | hmaps | ⟨j, hj, hsame⟩
    · exact absurd ((h.mapped _).mp hsome) (hf.own hi hload ⟨k, hwhole ▸ hk, rfl⟩)
    · exact Or.inl hloop
    · exact Or.inr hmaps
    · rw [htarget j (hj.trans hk)] at hsame
      unfold pageSize at hfirst hsame
      omega
  · intro hfilled
    refine ⟨hfilled.ends, fun k hk => ?_⟩
    rw [htarget k hk]
    by_cases hfirst : k = 0 ∨ ((f.phdr i).vaddr + k) % pageSize = 0
    · exact (hfilled.reached k (hwhole ▸ hk) hfirst).imp Or.inr Or.inl
    · refine Or.inr (Or.inr ⟨k - 1, by omega, ?_⟩)
      rw [htarget _ (by omega)]
      unfold pageSize at *
      omega

end WellFormed

theorem Known.skip (h : f.Known kernel env i m) (hload : f.phType i ≠ PT_LOAD) :
    f.Known kernel env (i + 1) m := by
  have hpage : ∀ p, f.HasPage kernel (i + 1) p ↔ f.HasPage kernel i p := fun p =>
    hasPage_succ.trans (or_iff_left fun h => hload h.1)
  have hbyte : ∀ a value, f.HasByte kernel (i + 1) a value ↔ f.HasByte kernel i a value :=
    fun a value => hasByte_succ.trans (or_iff_left fun h => hload h.1)
  refine ⟨fun p => (h.mapped p).trans (hpage p).symm, fun a value hvalue =>
    h.byte a value ((hbyte a value).mp hvalue), fun a ha hnone =>
    h.fresh a ((hpage _).mp ha) fun value hvalue => hnone value ((hbyte a value).mpr hvalue)⟩

/-- A header that finds everything as it would leave it. -/
theorem Known.idle (hf : f.WellFormed kernel) (hi : i < f.ehdr.phnum) (h : f.Known kernel env i m)
    (hidle : f.Idle kernel i) : m.place env (f.phdr i) (f.segmentBytes i) = some m := by
  refine AddressSpace.place_same hidle.ends (fun p hp => (h.mapped p).mpr (hidle.pages p hp))
    fun k hk => ⟨(h.mapped _).mpr ?_, h.byte _ _ (hidle.bytes k hk)⟩
  exact hf.hasPage (Nat.le_of_lt hi) (hidle.bytes k hk)

/-- One header more. -/
theorem Known.step (hf : f.WellFormed kernel) (hi : i < f.ehdr.phnum) (h : f.Known kernel env i m)
    (hmem : f.memories env kernel i = some m) (hsuits : f.Suits kernel env.maps i) :
    ∃ m', f.memories env kernel (i + 1) = some m' ∧ f.Known kernel env (i + 1) m' ∧
      (f.phType i ≠ PT_LOAD → m' = m) := by
  have hnext : f.memories env kernel (i + 1) = m.place env (f.phdr i) (f.segmentBytes i) := by
    rw [memories, hmem, Option.bind_some]
  by_cases hload : f.phType i = PT_LOAD
  · have hfilled := hsuits.1 hload
    obtain ⟨m', hplace⟩ := Option.isSome_iff_exists.mp
      ((hf.place_isSome_iff hi hload h hfilled.whole).mpr hfilled)
    have hspec := AddressSpace.place_spec (Nat.le_of_lt (read32_lt _ 16)) hplace
    exact ⟨m', hnext.trans hplace, Known.load hf hi hload h hfilled.whole hspec,
      fun hne => absurd hload hne⟩
  · exact ⟨m, hnext.trans (Known.idle hf hi h (hsuits.2 hload)), h.skip hload, fun _ => rfl⟩

/-- The memory before each header, as long as the headers suit. -/
theorem known_run (hf : f.WellFormed kernel) (env : Surroundings) :
    ∀ i ≤ f.ehdr.phnum, (∀ j < i, f.Suits kernel env.maps j) →
      ∃ m, f.memories env kernel i = some m ∧ f.Known kernel env i m := by
  intro i
  induction i with
  | zero => exact fun _ _ => ⟨kernel, rfl, known_zero f kernel env⟩
  | succ i ih =>
      intro hi hsuits
      obtain ⟨m, hmem, h⟩ := ih (Nat.le_of_succ_le hi) fun j hj => hsuits j (Nat.lt_succ_of_lt hj)
      obtain ⟨m', hmem', h', -⟩ := h.step hf hi hmem (hsuits i (Nat.lt_succ_self i))
      exact ⟨m', hmem', h'⟩

/-! ### Where the segments are -/

variable (f kernel) in
/-- Every loadable segment is in memory as the file says, and no other header did anything. -/
structure SegmentsPlaced (env : Surroundings) (m : AddressSpace) : Prop where
  loaded : ∀ i < f.ehdr.phnum, f.phType i = PT_LOAD → ∀ k < (f.phdr i).memsz,
    m.mapped (((f.phdr i).vaddr + k) / pageSize) = true ∧
      m.byte ((f.phdr i).vaddr + k) = if k < (f.phdr i).filesz then f.segmentBytes i k else 0
  others : ∀ i < f.ehdr.phnum, f.phType i ≠ PT_LOAD →
    f.memories env kernel (i + 1) = f.memories env kernel i

theorem Known.placed (hf : f.WellFormed kernel) (h : f.Known kernel env f.ehdr.phnum m)
    (hsuits : ∀ i < f.ehdr.phnum, f.Suits kernel env.maps i) : f.SegmentsPlaced kernel env m := by
  refine ⟨fun i hi hload k hk => ⟨?_, ?_⟩, fun i hi hload => ?_⟩
  · exact (h.mapped _).mpr (Or.inr ⟨i, hi, hload, k, hk, rfl⟩)
  · have hk' : k < (f.phdr i).filesz := ((hsuits i hi).1 hload).whole.symm ▸ hk
    rw [if_pos hk']
    exact h.byte _ _ (Or.inr ⟨i, hi, hload, k, hk', rfl, rfl⟩)
  · obtain ⟨m₁, hmem, h₁⟩ := known_run hf env i (Nat.le_of_lt hi)
      fun j hj => hsuits j (hj.trans hi)
    obtain ⟨m₂, hmem', -, hsame⟩ := h₁.step hf hi hmem (hsuits i hi)
    rw [hmem', hmem, hsame hload]

section WellFormed

variable (hf : f.WellFormed kernel) (hi : i < f.ehdr.phnum) (hload : f.phType i = PT_LOAD)

include hf hi hload

/-- Past what the file has of a segment its pages show the frames. -/
theorem WellFormed.tail (h : f.Known kernel env i m)
    (hplace : AddressSpace.PlacedTo env m m' (f.phdr i) (f.segmentBytes i)) {k : Nat}
    (hfile : (f.phdr i).filesz ≤ k) (hk : k < (f.phdr i).memsz)
    (hsome : m'.mapped (((f.phdr i).vaddr + k) / pageSize) = true) :
    m'.byte ((f.phdr i).vaddr + k) = env.frames ((f.phdr i).vaddr + k) := by
  have hnone : m.mapped (((f.phdr i).vaddr + k) / pageSize) ≠ true := fun hsome =>
    hf.own hi hload ⟨k, hk, rfl⟩ ((h.mapped _).mp hsome)
  refine hplace.fresh _ (fun j hj htarget => ?_) hnone (((hplace.mapped _).mp hsome).resolve_left
    hnone)
  rw [hf.target_eq hi hload (by omega)] at htarget
  omega

end WellFormed

/-- The headers after a loadable segment leave it alone. -/
theorem WellFormed.kept (hf : f.WellFormed kernel) (hload : f.phType i = PT_LOAD)
    (hothers : ∀ j < f.ehdr.phnum, f.phType j ≠ PT_LOAD →
      f.memories env kernel (j + 1) = f.memories env kernel j)
    (hm : f.memories env kernel (i + 1) = some m) (n : Nat) (hn : i + 1 + n ≤ f.ehdr.phnum) :
    ∀ {m' : AddressSpace}, f.memories env kernel (i + 1 + n) = some m' → ∀ {a : Nat},
      (f.phdr i).OnPage (a / pageSize) →
      (m'.mapped (a / pageSize) = true ↔ m.mapped (a / pageSize) = true) ∧
        (m.mapped (a / pageSize) = true → m'.byte a = m.byte a) := by
  induction n with
  | zero =>
      intro m' hm' a _
      obtain rfl : m = m' := Option.some.inj (hm.symm.trans hm')
      exact ⟨Iff.rfl, fun _ => rfl⟩
  | succ n ih =>
      intro m' hm' a ha
      have hlt : i + 1 + n < f.ehdr.phnum := hn
      by_cases hload' : f.phType (i + 1 + n) = PT_LOAD
      · obtain ⟨m₁, hm₁, hplace⟩ := Option.bind_eq_some_iff.mp hm'
        have hspec := AddressSpace.place_spec (Nat.le_of_lt (read32_lt _ 16)) hplace
        obtain ⟨hmapped, hbyte⟩ := hf.old hlt hload' hspec fun hp =>
          hf.disjoint _ hlt hload' i (by omega) hload _ hp ha
        obtain ⟨hmapped₁, hbyte₁⟩ := ih (Nat.le_of_lt hlt) hm₁ ha
        refine ⟨hmapped.trans hmapped₁, fun hsome => ?_⟩
        rw [hbyte (hmapped₁.mpr hsome), hbyte₁ hsome]
      · refine ih (Nat.le_of_lt hlt) ?_ ha
        rw [← hothers _ hlt hload']
        exact hm'

/-- If the loop comes back, then it does so from each header. -/
theorem memories_next (hi : i < f.ehdr.phnum) {last : AddressSpace}
    (hlast : f.memories env kernel f.ehdr.phnum = some last)
    (hm : f.memories env kernel i = some m) :
    ∃ m', f.memories env kernel (i + 1) = some m' ∧
      m.place env (f.phdr i) (f.segmentBytes i) = some m' := by
  have hnext : f.memories env kernel (i + 1) = m.place env (f.phdr i) (f.segmentBytes i) := by
    rw [memories, hm, Option.bind_some]
  rcases hmem : f.memories env kernel (i + 1) with _ | m'
  · have hnone := f.memories_none hmem (f.ehdr.phnum - (i + 1))
    rw [Nat.add_sub_cancel' hi, hlast] at hnone
    cases hnone
  · exact ⟨m', rfl, hnext.symm.trans hmem⟩

variable (f kernel) in
/-- The segments are placed whatever the frames and the buffers hold. -/
def PlacesSegments (maps : List Memmap) : Prop :=
  ∀ frames buffers, ∃ m, f.memories ⟨frames, buffers, maps⟩ kernel f.ehdr.phnum = some m ∧
    f.SegmentsPlaced kernel ⟨frames, buffers, maps⟩ m

theorem PlacesSegments.filled {maps : List Memmap} (hf : f.WellFormed kernel)
    (h : f.PlacesSegments kernel maps) (hi : i < f.ehdr.phnum) (hload : f.phType i = PT_LOAD)
    (hearlier : ∀ j < i, f.Suits kernel maps j) : (f.phdr i).Filled maps := by
  -- frames that are not zero
  let env : Surroundings := ⟨fun _ => 1, fun _ _ => 0, maps⟩
  obtain ⟨last, hlast, hplaced⟩ := h env.frames env.buffers
  obtain ⟨m, hmem, hknown⟩ := known_run hf env i (Nat.le_of_lt hi) hearlier
  obtain ⟨m', hmem', hplace⟩ := memories_next hi hlast hmem
  have hspec := AddressSpace.place_spec (Nat.le_of_lt (read32_lt _ 16)) hplace
  have hwhole : (f.phdr i).filesz = (f.phdr i).memsz := by
    refine Nat.le_antisymm (hf.filesz i hi hload) (Nat.le_of_not_lt fun hlt => ?_)
    obtain ⟨hsome, hbyte⟩ := hplaced.loaded i hi hload _ hlt
    obtain ⟨hmapped, hkept⟩ := hf.kept hload hplaced.others hmem' (f.ehdr.phnum - (i + 1))
      (Nat.add_sub_cancel' hi).le (by rw [Nat.add_sub_cancel' hi, hlast]) ⟨_, hlt, rfl⟩
    have hsome' := hmapped.mp hsome
    have htail := hf.tail hi hload hknown hspec (Nat.le_refl _) hlt hsome'
    rw [if_neg (Nat.lt_irrefl _), hkept hsome', htail] at hbyte
    exact absurd (show (1 : UInt8) = 0 from hbyte) (by decide)
  refine (hf.place_isSome_iff hi hload hknown hwhole).mp ?_
  rw [hplace]
  rfl

theorem PlacesSegments.idle {maps : List Memmap} (hf : f.WellFormed kernel)
    (h : f.PlacesSegments kernel maps) (hi : i < f.ehdr.phnum) (hload : f.phType i ≠ PT_LOAD)
    (hearlier : ∀ j < i, f.Suits kernel maps j) : f.Idle kernel i := by
  -- the memory before the header and after it are one, whatever the frames hold
  have hsame : ∀ frames, ∃ m, f.Known kernel ⟨frames, fun _ _ => 0, maps⟩ i m ∧
      AddressSpace.PlacedTo ⟨frames, fun _ _ => 0, maps⟩ m m (f.phdr i) (f.segmentBytes i) := by
    intro frames
    let env : Surroundings := ⟨frames, fun _ _ => 0, maps⟩
    obtain ⟨last, hlast, hplaced⟩ := h env.frames env.buffers
    obtain ⟨m, hmem, hknown⟩ := known_run hf env i (Nat.le_of_lt hi) hearlier
    obtain ⟨m', hmem', hplace⟩ := memories_next hi hlast hmem
    have hspec := AddressSpace.place_spec (Nat.le_of_lt (read32_lt _ 16)) hplace
    rw [hplaced.others i hi hload] at hmem'
    obtain rfl : m = m' := Option.some.inj (hmem.symm.trans hmem')
    exact ⟨m, hknown, hspec⟩
  obtain ⟨m, hknown, hspec⟩ := hsame fun _ => 0
  refine ⟨hspec.ends, fun p hp => ?_, fun k hk => ?_⟩
  · exact (hknown.mapped p).mp ((hspec.mapped p).mpr (Or.inr (Or.inl hp)))
  · -- a byte that is not known would be the one of the frame
    by_contra hnot
    obtain ⟨m, hknown, hspec⟩ := hsame fun _ => f.segmentBytes i k + 1
    have hwritten := hspec.written k hk
    have hpage := (hknown.mapped _).mp ((hspec.mapped _).mpr (Or.inr (Or.inr ⟨k, hk, rfl⟩)))
    by_cases hsome : ∃ value, f.HasByte kernel i (AddressSpace.target (f.phdr i).vaddr k) value
    · obtain ⟨value, hvalue⟩ := hsome
      rw [hknown.byte _ value hvalue] at hwritten
      exact hnot (hwritten ▸ hvalue)
    · have hfresh := hknown.fresh _ hpage fun value hvalue => hsome ⟨value, hvalue⟩
      rw [hwritten] at hfresh
      have hnat := congrArg UInt8.toNat hfresh
      rw [UInt8.toNat_add, UInt8.toNat_one] at hnat
      omega

theorem placesSegments_iff {maps : List Memmap} (hf : f.WellFormed kernel) :
    f.PlacesSegments kernel maps ↔ ∀ i < f.ehdr.phnum, f.Suits kernel maps i := by
  constructor
  · intro h i
    induction i using Nat.strong_induction_on with
    | _ i ih =>
        intro hi
        have hearlier : ∀ j < i, f.Suits kernel maps j := fun j hj => ih j hj (hj.trans hi)
        exact ⟨fun hload => h.filled hf hi hload hearlier,
          fun hload => h.idle hf hi hload hearlier⟩
  · intro hsuits frames buffers
    obtain ⟨m, hmem, hknown⟩ := known_run hf ⟨frames, buffers, maps⟩ f.ehdr.phnum (Nat.le_refl _)
      hsuits
    exact ⟨m, hmem, hknown.placed hf hsuits⟩

end OpenFile

section Load

variable {s : Vfs} {t : Nat} {fd : Int} {raw : Nat → UInt8} {f : OpenFile}
variable {kernel : AddressSpace}

theorem loadProgram_places_iff (h : Opens s t fd raw f) (hf : f.WellFormed kernel)
    (env : Surroundings) :
    (∃ prog, loadProgram s t fd raw env kernel = some (0, some prog) ∧
      f.SegmentsPlaced kernel env prog.memory) ↔
    ∃ m, f.memories env kernel f.ehdr.phnum = some m ∧ f.SegmentsPlaced kernel env m := by
  constructor
  · rintro ⟨prog, hload, hplaced⟩
    exact ⟨prog.memory, (loadProgram_iff h hf.elf hf.readable _).mp ⟨prog, hload, rfl⟩, hplaced⟩
  · rintro ⟨m, hmem, hplaced⟩
    obtain ⟨prog, hload, rfl⟩ := (loadProgram_iff h hf.elf hf.readable m).mpr hmem
    exact ⟨prog, hload, hplaced⟩

/--
**When the segments are where the file says.**  Whatever the frames hold, `load_elf` puts every
loadable segment of a well-formed executable into memory, with zeroes behind, and does nothing
for the other headers, if and only if there are no zeroes to be put, the segments' pages are all
reached, and what the other headers map and copy is there already.
-/
theorem load_places_segments_iff (h : Opens s t fd raw f) (hf : f.WellFormed kernel)
    (maps : List Memmap) :
    (∀ frames buffers, ∃ prog,
      loadProgram s t fd raw ⟨frames, buffers, maps⟩ kernel = some (0, some prog) ∧
        f.SegmentsPlaced kernel ⟨frames, buffers, maps⟩ prog.memory) ↔
    ∀ i < f.ehdr.phnum, f.Suits kernel maps i :=
  (forall₂_congr fun _ _ => loadProgram_places_iff h hf _).trans (OpenFile.placesSegments_iff hf)

end Load

/-! ### One segment -/

/-- The first 4 MB are the kernel's. -/
def lowMemory : AddressSpace := ⟨fun p => p < 0x400, fun _ => 0⟩

theorem wellFormed_image {memsz : Nat} (helf : (opened (image 0x8000000 memsz)).IsElf)
    (hphoff : (opened (image 0x8000000 memsz)).ehdr.phoff = 52)
    (hphentsize : (opened (image 0x8000000 memsz)).ehdr.phentsize = phdrSize)
    (hphnum : (opened (image 0x8000000 memsz)).ehdr.phnum = 1)
    (hphdr : (opened (image 0x8000000 memsz)).phdr 0 = ⟨84, 0x8000000, 4, memsz⟩)
    (hfile : 4 ≤ memsz) (hfits : 0x8000000 + memsz ≤ space) :
    (opened (image 0x8000000 memsz)).WellFormed lowMemory := by
  have hsize : (opened (image 0x8000000 memsz)).size = 88 := rfl
  have hone : ∀ i < (opened (image 0x8000000 memsz)).ehdr.phnum, i = 0 := by
    intro i hi
    rw [hphnum] at hi
    exact Nat.lt_one_iff.mp hi
  refine ⟨helf, ⟨hphentsize, fun i hi => ?_, fun i hi _ => ?_⟩, fun i hi _ => ?_,
    fun i hi _ => ?_, fun i hi _ p hp => ?_, fun i hi _ j hj => ?_⟩
  · obtain rfl := hone i hi
    rw [hphoff, hsize]
    decide
  · obtain rfl := hone i hi
    rw [hphdr, hsize]
    exact ⟨show 84 + 4 ≤ 88 by decide, show 84 < 2 ^ 31 by decide⟩
  · obtain rfl := hone i hi
    rw [hphdr]
    exact hfile
  · obtain rfl := hone i hi
    rw [hphdr]
    exact hfits
  · obtain rfl := hone i hi
    rw [hphdr] at hp
    obtain ⟨k, -, rfl⟩ := hp
    simp only [lowMemory, pageSize, decide_eq_false_iff_not]
    omega
  · obtain rfl := hone i hi
    exact absurd hj (Nat.not_lt_zero j)

/-- All of the segment is in the file. -/
theorem load_places_segments_iff_whole : ∃ prog,
    loadProgram (withFile (image 0x8000000 4)) 0 0 (fun _ => 0)
      ⟨fun _ => 0xff, fun _ _ => 0xff, []⟩ lowMemory = some (0, some prog) ∧
    (opened (image 0x8000000 4)).SegmentsPlaced lowMemory ⟨fun _ => 0xff, fun _ _ => 0xff, []⟩
      prog.memory := by
  have hphdr : (opened (image 0x8000000 4)).phdr 0 = ⟨84, 0x8000000, 4, 4⟩ := by decide
  refine (load_places_segments_iff (opens_withFile (by decide) _)
    (wellFormed_image ⟨by decide, by decide, by decide, by decide⟩ (by decide) (by decide)
      (by decide) hphdr (by decide) (by decide)) []).mpr (fun i hi => ?_) _ _
  obtain rfl : i = 0 := Nat.lt_one_iff.mp hi
  refine ⟨fun _ => ?_, fun hload => absurd (by decide) hload⟩
  rw [hphdr]
  refine ⟨rfl, by decide, fun k hk hfirst => Or.inl ⟨0, by decide, ?_⟩⟩
  simp only [pageSize] at *
  omega

/-- **Behind the four bytes of the file its segment shows what the frame held.** -/
theorem load_shows_frames : ¬ ∀ s t fd raw f kernel env, Opens s t fd raw f →
    f.WellFormed kernel → ∃ prog, loadProgram s t fd raw env kernel = some (0, some prog) ∧
      f.SegmentsPlaced kernel env prog.memory := by
  intro hclaim
  have hopens : Opens (withFile (image 0x8000000 0x2000)) 0 0 (fun _ => 0)
      (opened (image 0x8000000 0x2000)) := opens_withFile (by decide) _
  have hphdr : (opened (image 0x8000000 0x2000)).phdr 0 = ⟨84, 0x8000000, 4, 0x2000⟩ := by decide
  have hf := wellFormed_image ⟨by decide, by decide, by decide, by decide⟩ (by decide) (by decide)
    (by decide) hphdr (by decide) (by decide)
  have hplaces : (opened (image 0x8000000 0x2000)).PlacesSegments lowMemory [] :=
    fun frames buffers => (loadProgram_places_iff hopens hf _).mp
      (hclaim _ _ _ _ _ _ ⟨frames, buffers, []⟩ hopens hf)
  have hfilled := hplaces.filled hf (i := 0) (by decide) (by decide)
    fun j hj => absurd hj (Nat.not_lt_zero j)
  rw [hphdr] at hfilled
  exact absurd hfilled.whole (by decide)

end OsThing.Elf
