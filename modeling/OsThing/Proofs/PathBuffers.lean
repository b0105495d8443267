/-
Every buffer of the path code is outgrown.

The length of a path is taken of what follows its first character, so the block for a copy is
two bytes too short; the one for a name is one byte too short, and the one for an entry is as
long as a pointer.  So what fits depends on no path and on no name.  Only the empty path would
be an exception to the copy that `open` makes, and `open` never comes to it with that one.
-/
import OsThing.Fs.PathBuffers

namespace OsThing.Fs

open Ram

namespace Block

variable {b : Block}

theorem mem_write {offset count i : Nat} (h : i < count) :
    offset + i ∈ (b.write offset count).written :=
  List.mem_append_right _ (List.mem_map.mpr ⟨i, List.mem_range.mpr h, rfl⟩)

/-- A byte that is written behind the end. -/
theorem not_fits_write {offset count i : Nat} (hi : i < count) (hend : b.requested ≤ offset + i) :
    ¬ (b.write offset count).Fits :=
  fun h => absurd (h _ (mem_write hi)) (Nat.not_lt.mpr hend)

end Block

section Strings

variable {m : Memory} {a : UInt32} {s : List UInt8}

theorem stringLength_eq (h : IsString m a s) : stringLength m a = some s.length :=
  strlen_eq s h h.length_lt

/-- Two bytes too few are asked for. -/
theorem pathCopy_eq {c : UInt8} (h : IsString m a (c :: s)) :
    pathCopy m a = some ((Block.kmalloc s.length).write 0 (s.length + 2)) := by
  rw [pathCopy, stringLength_eq h.tail, stringLength_eq h]
  rfl

theorem pathCopy_outgrown (h : IsString m a s) (hs : s ≠ []) :
    ∃ b, pathCopy m a = some b ∧ ¬ b.Fits := by
  obtain ⟨c, rest, rfl⟩ := List.exists_cons_of_ne_nil hs
  refine ⟨_, pathCopy_eq h, ?_⟩
  exact Block.not_fits_write (i := rest.length + 1) (Nat.lt_succ_self _)
    (Nat.zero_add _ ▸ Nat.le_succ _)

theorem findPathCopy_outgrown {dot : UInt32} (hdot : IsString m dot [46]) (h : IsString m a s) :
    ∃ b, findPathCopy m dot a = some b ∧ ¬ b.Fits := by
  rw [findPathCopy, stringLength_eq h, Option.bind_some]
  by_cases hempty : s = []
  · rw [if_pos (List.length_eq_zero_iff.mpr hempty)]
    exact pathCopy_outgrown hdot (List.cons_ne_nil _ _)
  · rw [if_neg fun hlength => hempty (List.length_eq_zero_iff.mp hlength)]
    exact pathCopy_outgrown h hempty

theorem storedName_outgrown (h : IsString m a s) : ∃ b, storedName m a = some b ∧ ¬ b.Fits := by
  refine ⟨(Block.knew s.length).write 0 (s.length + 1), ?_, ?_⟩
  · rw [storedName, stringLength_eq h]
    rfl
  · exact Block.not_fits_write (Nat.lt_succ_self _) (Nat.zero_add s.length).ge

end Strings

/-- The size of an entry lies behind the four bytes asked for. -/
theorem entryBuffer_outgrown (dirty : RamfsDirent) : ¬ (entryBuffer dirty).Fits := by
  intro h
  have hsize : 4 ∈ (entryBuffer dirty).written :=
    List.mem_append_left _ (List.mem_append_left _ (Block.mem_write (i := 0) (by decide)))
  exact Nat.lt_irrefl 4 (h 4 hsize)

/--
**No buffer of the path code is long enough.**  This is so for every path, the empty one stands
for `"."`, for every name and for every entry that is read.
-/
theorem path_buffers_outgrown {m : Memory} {dot path name : UInt32} {p n : List UInt8}
    (hdot : IsString m dot [46]) (hpath : IsString m path p) (hname : IsString m name n)
    (dirty : RamfsDirent) :
    (∃ b, findPathCopy m dot path = some b ∧ ¬ b.Fits) ∧
      (p ≠ [] → ∃ b, openCopy m path = some b ∧ ¬ b.Fits) ∧
      ¬ (entryBuffer dirty).Fits ∧
      ∃ b, storedName m name = some b ∧ ¬ b.Fits :=
  ⟨findPathCopy_outgrown hdot hpath, fun hp => pathCopy_outgrown hpath hp,
    entryBuffer_outgrown dirty, storedName_outgrown hname⟩

/-- `"."` and, behind it, `"/a"`. -/
def twoStrings : Memory := fun a =>
  if a = 0x1000 then 46 else if a = 0x1002 then 47 else if a = 0x1003 then 97 else 0

theorem path_buffers_outgrown_two :
    (∃ b, findPathCopy twoStrings 0x1000 0x1002 = some b ∧ ¬ b.Fits) ∧
      ([47, 97] ≠ ([] : List UInt8) → ∃ b, openCopy twoStrings 0x1002 = some b ∧ ¬ b.Fits) ∧
      ¬ (entryBuffer ⟨2, 266, 2, ['a']⟩).Fits ∧
      ∃ b, storedName twoStrings 0x1003 = some b ∧ ¬ b.Fits :=
  path_buffers_outgrown (n := [97]) ⟨by decide, by decide, by decide⟩
    ⟨by decide, by decide, by decide⟩ ⟨by decide, by decide, by decide⟩ _

/-- The four blocks are as long as what is written to them. -/
def BuffersFit (m : Memory) (dot path name : UInt32) (dirty : RamfsDirent) : Prop :=
  (∀ b, findPathCopy m dot path = some b → b.Fits) ∧
    (∀ b, openCopy m path = some b → b.Fits) ∧
    (entryBuffer dirty).Fits ∧
    ∀ b, storedName m name = some b → b.Fits

/-- The path `"/a"` is copied to a block of one byte. -/
theorem path_copy_outgrown :
    ¬ ∀ (m : Memory) (dot path name : UInt32) (p n : List UInt8) (dirty : RamfsDirent),
      IsString m dot [46] → IsString m path p → IsString m name n → n.length < 256 →
      dirty.nameLen ≤ 256 → BuffersFit m dot path name dirty := by
  intro h
  have hdot : IsString twoStrings 0x1000 [46] := ⟨by decide, by decide, by decide⟩
  have hpath : IsString twoStrings 0x1002 [47, 97] := ⟨by decide, by decide, by decide⟩
  have hname : IsString twoStrings 0x1003 [97] := ⟨by decide, by decide, by decide⟩
  obtain ⟨-, hcopy, -, -⟩ :=
    h _ _ _ _ _ _ ⟨2, 266, 2, ['a']⟩ hdot hpath hname (by decide) (by decide)
  exact absurd (hcopy _ (pathCopy_eq hpath) 1 (by decide)) (by decide)

end OsThing.Fs
