/-
What the search of a heap writes.

A search that fails leaves the memory as it was, so the next branch is tried in the memory of the
first one, and there is one word that is written at most.  This rests on a pointer that is
returned not being 0.  It is the address behind the word, so the one word for which it does not
hold is the last of all, at `0xfffffffc`.  If a half begins there, and the word is free, a search
marks it and returns 0, and the search it is a part of goes on.
-/
import OsThing.Mem.HeapSearch
import OsThing.Proofs.KernelHeap
import OsThing.Proofs.UserHeap

namespace OsThing.HeapSearch

open Ram Halving

/-- The halves of a block, their halves and so on, down to the smallest. -/
inductive Half (v : Scheme) : UInt32 → UInt32 → UInt32 → Prop
  | left {node nodeSize : UInt32} (hroom : v.tooSmall (nodeSize / 2) = false) :
      Half v node nodeSize node
  | right {node nodeSize : UInt32} (hroom : v.tooSmall (nodeSize / 2) = false) :
      Half v node nodeSize (node + v.unit * (nodeSize / 2))
  | inLeft {node nodeSize a : UInt32} (hroom : v.tooSmall (nodeSize / 2) = false)
      (h : Half v node (nodeSize / 2) a) : Half v node nodeSize a
  | inRight {node nodeSize a : UInt32} (hroom : v.tooSmall (nodeSize / 2) = false)
      (h : Half v (node + v.unit * (nodeSize / 2)) (nodeSize / 2) a) : Half v node nodeSize a

/-- The address of the last word. -/
def lastWord : UInt32 := 0xfffffffc

/-- A half of the block begins at the last word, which is free. -/
def LastWordFree (v : Scheme) (m : Memory) (node nodeSize : UInt32) : Prop :=
  Half v node nodeSize lastWord ∧ word m lastWord ≠ v.magic

/-- A search that returns `r` wrote one header, or nothing if `r` is 0. -/
structure WritesOneOrNothing (v : Scheme) (m : Memory) (node nodeSize : UInt32)
    (r : UInt32) (m' : Memory) : Prop where
  nothing : r = 0 → m' = m
  header : r ≠ 0 → word m (r - 4) ≠ v.magic ∧ word m' (r - 4) = v.magic
  inside : r ≠ 0 → (⟨r - 4, 4⟩ : Span).Inside ⟨node, v.unit.toNat * nodeSize.toNat⟩
  others : r ≠ 0 → ∀ b, ¬ (⟨r - 4, 4⟩ : Span).Covers b → m' b = m b

variable {v : Scheme} {m : Memory} {node nodeSize a : UInt32}

/-! ### Halves -/

/-- The two halves of a block lie in it, and each has room for a word. -/
theorem Scheme.halves_le (hroom : v.tooSmall (nodeSize / 2) = false) :
    4 ≤ v.unit.toNat * (nodeSize / 2).toNat ∧
      v.unit.toNat * (nodeSize / 2).toNat + v.unit.toNat * (nodeSize / 2).toNat ≤
        v.unit.toNat * nodeSize.toNat := by
  have hhalf : (nodeSize / 2).toNat = nodeSize.toNat / 2 := UInt32.toNat_div nodeSize 2
  have htwice : (nodeSize / 2).toNat + (nodeSize / 2).toNat ≤ nodeSize.toNat := by omega
  refine ⟨v.wide _ hroom, ?_⟩
  rw [← Nat.mul_add]
  exact Nat.mul_le_mul_left _ htwice

theorem right_eq (v : Scheme) (node s : UInt32) :
    node + v.unit * s = node + UInt32.ofNat (v.unit.toNat * s.toNat) := by
  rw [UInt32.ofNat_mul, UInt32.ofNat_toNat, UInt32.ofNat_toNat]

theorem inside_left {n size : Nat} (h : n ≤ size) :
    (⟨node, n⟩ : Span).Inside ⟨node, size⟩ := fun _ ha => Nat.lt_of_lt_of_le ha h

theorem inside_right {n size : Nat} {s : UInt32} (h : v.unit.toNat * s.toNat + n ≤ size) :
    (⟨node + v.unit * s, n⟩ : Span).Inside ⟨node, size⟩ := by
  rw [right_eq]
  exact Span.inside_add node h

/-- The first word of a half is in the block. -/
theorem Half.inside (h : Half v node nodeSize a) :
    (⟨a, 4⟩ : Span).Inside ⟨node, v.unit.toNat * nodeSize.toNat⟩ := by
  induction h with
  | left hroom =>
      obtain ⟨hword, hle⟩ := Scheme.halves_le hroom
      exact inside_left (by omega)
  | right hroom =>
      obtain ⟨hword, hle⟩ := Scheme.halves_le hroom
      exact inside_right (by omega)
  | inLeft hroom _ ih =>
      obtain ⟨hword, hle⟩ := Scheme.halves_le hroom
      exact fun b hb => inside_left (by omega) b (ih b hb)
  | inRight hroom _ ih =>
      obtain ⟨hword, hle⟩ := Scheme.halves_le hroom
      exact fun b hb => inside_right hle b (ih b hb)

theorem LastWordFree.ofLeft (hroom : v.tooSmall (nodeSize / 2) = false)
    (h : LastWordFree v m node (nodeSize / 2)) : LastWordFree v m node nodeSize :=
  ⟨.inLeft hroom h.1, h.2⟩

theorem LastWordFree.ofRight (hroom : v.tooSmall (nodeSize / 2) = false)
    (h : LastWordFree v m (node + v.unit * (nodeSize / 2)) (nodeSize / 2)) :
    LastWordFree v m node nodeSize :=
  ⟨.inRight hroom h.1, h.2⟩

/-- In a block that ends before the last address no half begins at the last word. -/
theorem not_lastWordFree (hend : node.toNat + v.unit.toNat * nodeSize.toNat < 2 ^ 32) :
    ¬ LastWordFree v m node nodeSize := by
  rintro ⟨hhalf, -⟩
  have hcovers : (⟨lastWord, 4⟩ : Span).Covers 0xffffffff := by decide
  have hlast : (0xffffffff - node).toNat < v.unit.toNat * nodeSize.toNat := hhalf.inside _ hcovers
  have hle : node ≤ 0xffffffff := UInt32.le_iff_toNat_le.mpr (Nat.le_of_lt_succ node.toNat_lt)
  rw [UInt32.toNat_sub_of_le _ _ hle] at hlast
  change 2 ^ 32 - 1 - node.toNat < _ at hlast
  omega

/-- The memory after the last word was marked. -/
def markLast (v : Scheme) (m : Memory) : Memory := setWord m lastWord v.magic

theorem not_lastWordFree_markLast : ¬ LastWordFree v (markLast v m) node nodeSize :=
  fun h => h.2 (word_setWord m lastWord v.magic)

/-! ### The search -/

/-- What a search comes to that does not mark the last word. -/
inductive Outcome (v : Scheme) (m : Memory) (node nodeSize : UInt32) : UInt32 × Memory → Prop
  | nothing : Outcome v m node nodeSize (0, m)
  | marked {a : UInt32} (hhalf : Half v node nodeSize a) (hfree : word m a ≠ v.magic)
      (hlast : a ≠ lastWord) : Outcome v m node nodeSize (a + nodeBytes, setWord m a v.magic)

/-- What any search comes to. -/
def Result (v : Scheme) (m : Memory) (node nodeSize : UInt32) (r : UInt32 × Memory) : Prop :=
  Outcome v m node nodeSize r ∨
    (LastWordFree v m node nodeSize ∧ Outcome v (markLast v m) node nodeSize r)

/-- The end of a search, behind what was found further down. -/
def markHere (v : Scheme) (node nodeSize : UInt32) (r : UInt32 × Memory) : UInt32 × Memory :=
  if r.1 ≠ 0 then r
  else if word r.2 (node + v.unit * (nodeSize / 2)) ≠ v.magic then
    (node + v.unit * (nodeSize / 2) + nodeBytes,
      setWord r.2 (node + v.unit * (nodeSize / 2)) v.magic)
  else if word r.2 node ≠ v.magic then (node + nodeBytes, setWord r.2 node v.magic)
  else (0, r.2)

variable {r : UInt32 × Memory}

theorem add_nodeBytes_ne_zero (h : a ≠ lastWord) : a + nodeBytes ≠ 0 := by
  intro (hzero : a + 4 = 0)
  unfold lastWord at h
  exact h (by grind)

theorem Outcome.eq_of_zero (h : Outcome v m node nodeSize r) (hzero : r.1 = 0) : r = (0, m) := by
  cases h with
  | nothing => rfl
  | marked _ _ hlast => exact absurd hzero (add_nodeBytes_ne_zero hlast)

theorem Outcome.mono {node' nodeSize' : UInt32} (h : Outcome v m node' nodeSize' r)
    (hhalves : ∀ a, Half v node' nodeSize' a → Half v node nodeSize a) :
    Outcome v m node nodeSize r := by
  cases h with
  | nothing => exact .nothing
  | marked hhalf hfree hlast => exact .marked (hhalves _ hhalf) hfree hlast

namespace Result

theorem outcome (h : Result v m node nodeSize r) (hlast : ¬ LastWordFree v m node nodeSize) :
    Outcome v m node nodeSize r := h.resolve_right fun hmarked => hlast hmarked.1

theorem mono {node' nodeSize' : UInt32} (h : Result v m node' nodeSize' r)
    (hhalves : ∀ a, Half v node' nodeSize' a → Half v node nodeSize a) :
    Result v m node nodeSize r :=
  h.imp (·.mono hhalves) fun ⟨hlast, h⟩ => ⟨⟨hhalves _ hlast.1, hlast.2⟩, h.mono hhalves⟩

/-- A half of the block that is free. -/
theorem of_free (hhalf : Half v node nodeSize a) (hfree : word m a ≠ v.magic) :
    Result v m node nodeSize (a + nodeBytes, setWord m a v.magic) := by
  by_cases hlast : a = lastWord
  · subst hlast
    exact Or.inr ⟨⟨hhalf, hfree⟩, .nothing⟩
  · exact Or.inl (.marked hhalf hfree hlast)

end Result

theorem Outcome.markHere (h : Outcome v m node nodeSize r)
    (hroom : v.tooSmall (nodeSize / 2) = false) :
    Result v m node nodeSize (HeapSearch.markHere v node nodeSize r) := by
  unfold HeapSearch.markHere
  by_cases hzero : r.1 = 0
  · rw [h.eq_of_zero hzero, if_neg (not_not_intro rfl)]
    by_cases hright : word m (node + v.unit * (nodeSize / 2)) = v.magic
    · rw [if_neg (not_not_intro hright)]
      by_cases hleft : word m node = v.magic
      · rw [if_neg (not_not_intro hleft)]
        exact Or.inl .nothing
      · rw [if_pos hleft]
        exact .of_free (.left hroom) hleft
    · rw [if_pos hright]
      exact .of_free (.right hroom) hright
  · rw [if_pos hzero]
    exact Or.inl h

theorem Result.markHere (h : Result v m node nodeSize r)
    (hroom : v.tooSmall (nodeSize / 2) = false) :
    Result v m node nodeSize (HeapSearch.markHere v node nodeSize r) := by
  rcases h with h | ⟨hlast, h⟩
  · exact h.markHere hroom
  · exact Or.inr ⟨hlast, (h.markHere hroom).outcome not_lastWordFree_markLast⟩

theorem search_eq {size : UInt32} (hguard : ¬ (v.tooSmall (nodeSize / 2) ∨
      (word m (node + v.unit * (nodeSize / 2)) = v.magic ∧ word m node = v.magic))) :
    search v m node nodeSize size = markHere v node nodeSize
      (if size < nodeSize / 2 / 2 then
        if (search v m (node + v.unit * (nodeSize / 2)) (nodeSize / 2) size).1 ≠ 0 then
          search v m (node + v.unit * (nodeSize / 2)) (nodeSize / 2) size
        else search v (search v m (node + v.unit * (nodeSize / 2)) (nodeSize / 2) size).2 node
          (nodeSize / 2) size
      else (0, m)) := by
  rw [search, if_neg hguard]
  rfl

/-- **A search marks one half or none**, and the last word besides. -/
theorem search_result (m : Memory) (node nodeSize size : UInt32) :
    Result v m node nodeSize (search v m node nodeSize size) := by
  induction hn : nodeSize.toNat using Nat.strong_induction_on generalizing m node nodeSize with
  | _ n ih =>
    subst hn
    by_cases hguard : v.tooSmall (nodeSize / 2) ∨
        (word m (node + v.unit * (nodeSize / 2)) = v.magic ∧ word m node = v.magic)
    · rw [search, if_pos hguard]
      exact Or.inl .nothing
    have hroom := Scheme.not_tooSmall hguard
    have hright := ih _ (Scheme.half_lt hroom) m (node + v.unit * (nodeSize / 2)) _ rfl
    have hleft := fun m => (ih _ (Scheme.half_lt hroom) m node _ rfl).mono fun _ => .inLeft hroom
    rw [search_eq hguard]
    refine Result.markHere ?_ hroom
    by_cases hsize : size < nodeSize / 2 / 2
    · rw [if_pos hsize]
      by_cases hzero : (search v m (node + v.unit * (nodeSize / 2)) (nodeSize / 2) size).1 = 0
      · rw [if_neg (not_not_intro hzero)]
        -- On the right nothing was written, or the last word.
        rcases hright with hright | ⟨hlast, hright⟩
        · rw [hright.eq_of_zero hzero]
          exact hleft m
        · rw [hright.eq_of_zero hzero]
          exact Or.inr ⟨hlast.ofRight hroom, (hleft _).outcome not_lastWordFree_markLast⟩
      · rw [if_pos hzero]
        exact hright.mono fun _ => .inRight hroom
    · rw [if_neg hsize]
      exact Or.inl .nothing

theorem search_outcome (size : UInt32) (hlast : ¬ LastWordFree v m node nodeSize) :
    Outcome v m node nodeSize (search v m node nodeSize size) :=
  (search_result m node nodeSize size).outcome hlast

/-- A search that fails leaves the memory as it was, so that the next one is in the same. -/
theorem search_of_room {size : UInt32} (hlast : ¬ LastWordFree v m node nodeSize)
    (hguard : ¬ (v.tooSmall (nodeSize / 2) ∨
      (word m (node + v.unit * (nodeSize / 2)) = v.magic ∧ word m node = v.magic))) :
    (search v m node nodeSize size).1 =
      if size < nodeSize / 2 / 2 ∧
          (search v m (node + v.unit * (nodeSize / 2)) (nodeSize / 2) size).1 ≠ 0 then
        (search v m (node + v.unit * (nodeSize / 2)) (nodeSize / 2) size).1
      else if size < nodeSize / 2 / 2 ∧ (search v m node (nodeSize / 2) size).1 ≠ 0 then
        (search v m node (nodeSize / 2) size).1
      else if word m (node + v.unit * (nodeSize / 2)) ≠ v.magic then
        node + v.unit * (nodeSize / 2) + nodeBytes
      else node + nodeBytes := by
  have hroom := Scheme.not_tooSmall hguard
  have hlastRight := mt (LastWordFree.ofRight hroom) hlast
  have hlastLeft := mt (LastWordFree.ofLeft hroom) hlast
  have hhere : (markHere v node nodeSize (0, m)).1 =
      if word m (node + v.unit * (nodeSize / 2)) ≠ v.magic then
        node + v.unit * (nodeSize / 2) + nodeBytes
      else node + nodeBytes := by
    rw [markHere, if_neg (not_not_intro rfl)]
    by_cases hright : word m (node + v.unit * (nodeSize / 2)) = v.magic
    · have hleft : word m node ≠ v.magic := fun hleft => hguard (Or.inr ⟨hright, hleft⟩)
      rw [if_neg (not_not_intro hright), if_neg (not_not_intro hright), if_pos hleft]
    · rw [if_pos hright, if_pos hright]
  have hfound : ∀ {r : UInt32 × Memory}, r.1 ≠ 0 → markHere v node nodeSize r = r :=
    fun hne => if_pos hne
  rw [search_eq hguard]
  by_cases hsize : size < nodeSize / 2 / 2
  · by_cases hright : (search v m (node + v.unit * (nodeSize / 2)) (nodeSize / 2) size).1 = 0
    · rw [(search_outcome size hlastRight).eq_of_zero hright]
      by_cases hleft : (search v m node (nodeSize / 2) size).1 = 0
      · rw [(search_outcome size hlastLeft).eq_of_zero hleft]
        simpa [hsize] using hhere
      · simp [hsize, hleft, hfound]
    · simp [hsize, hright, hfound]
  · simpa [hsize] using hhere

theorem Outcome.writesOneOrNothing (h : Outcome v m node nodeSize r) :
    WritesOneOrNothing v m node nodeSize r.1 r.2 := by
  cases h with
  | nothing =>
      have hnone : ¬ (0 : UInt32) ≠ 0 := not_not_intro rfl
      exact ⟨fun _ => rfl, fun h => absurd h hnone, fun h => absurd h hnone,
        fun h => absurd h hnone⟩
  | @marked a hhalf hfree hlast =>
      have hback : a + nodeBytes - 4 = a := by
        unfold nodeBytes
        grind
      refine ⟨fun hzero => absurd hzero (add_nodeBytes_ne_zero hlast), ?_, ?_, ?_⟩
      all_goals
        intro _
        rw [hback]
      · exact ⟨hfree, word_setWord m a v.magic⟩
      · exact hhalf.inside
      · exact fun b hb => setWord_outside m v.magic hb

/-- In a block that ends before the last address no word is lost. -/
theorem search_writesOneOrNothing (size : UInt32)
    (hend : node.toNat + v.unit.toNat * nodeSize.toNat < 2 ^ 32) :
    WritesOneOrNothing v m node nodeSize (search v m node nodeSize size).1
      (search v m node nodeSize size).2 :=
  (search_outcome size (not_lastWordFree hend)).writesOneOrNothing

/-! ### The searches in a memory of words -/

section Words

/-- The block `b` of a memory of words lies at `node`, before the last address, and the same
halves are taken. -/
structure BlockAt (v : Scheme) (m : Memory) (taken : Nat → Prop) (node nodeSize : UInt32)
    (b : Block) : Prop where
  start : node.toNat = b.start
  size : nodeSize.toNat = b.size
  ends : b.stop v.unit.toNat < 2 ^ 32
  marks : ∀ a, Half v node nodeSize a → (word m a = v.magic ↔ taken a.toNat)

variable {small : Nat} {taken : Nat → Prop} {b : Block}

namespace BlockAt

theorem half_size (h : BlockAt v m taken node nodeSize b) :
    (nodeSize / 2).toNat = b.size / 2 := by
  rw [← h.size]
  exact UInt32.toNat_div nodeSize 2

theorem right_start (h : BlockAt v m taken node nodeSize b) :
    (node + v.unit * (nodeSize / 2)).toNat = (b.right v.unit.toNat).start := by
  have hle := halves_le v.unit.toNat b
  have hends := h.ends
  unfold Block.stop at hends
  have hproduct : (v.unit * (nodeSize / 2)).toNat = v.unit.toNat * (b.size / 2) := by
    rw [UInt32.toNat_mul, h.half_size]
    exact Nat.mod_eq_of_lt (by omega)
  rw [UInt32.toNat_add, hproduct, h.start]
  exact Nat.mod_eq_of_lt (by omega)

theorem right (h : BlockAt v m taken node nodeSize b) (hroom : v.tooSmall (nodeSize / 2) = false) :
    BlockAt v m taken (node + v.unit * (nodeSize / 2)) (nodeSize / 2) (b.right v.unit.toNat) where
  start := h.right_start
  size := h.half_size
  ends := Nat.lt_of_le_of_lt (Within.right (Within.refl _)).bounds.2 h.ends
  marks := fun a ha => h.marks a (.inRight hroom ha)

theorem left (h : BlockAt v m taken node nodeSize b) (hroom : v.tooSmall (nodeSize / 2) = false) :
    BlockAt v m taken node (nodeSize / 2) b.left where
  start := h.start
  size := h.half_size
  ends := Nat.lt_of_le_of_lt (Within.left (Within.refl _)).bounds.2 h.ends
  marks := fun a ha => h.marks a (.inLeft hroom ha)

theorem not_lastWordFree (h : BlockAt v m taken node nodeSize b) :
    ¬ LastWordFree v m node nodeSize :=
  HeapSearch.not_lastWordFree (by rw [h.start, h.size]; exact h.ends)

/-- The first test is the same. -/
theorem guard_iff (h : BlockAt v m taken node nodeSize b)
    (hsmall : ∀ s, v.tooSmall s = true ↔ s.toNat ≤ small) :
    v.tooSmall (nodeSize / 2) ∨
        (word m (node + v.unit * (nodeSize / 2)) = v.magic ∧ word m node = v.magic) ↔
      NoRoom v.unit.toNat small taken b := by
  unfold NoRoom
  by_cases hless : v.tooSmall (nodeSize / 2) = true
  · have hle : b.size / 2 ≤ small := h.half_size ▸ (hsmall _).mp hless
    exact iff_of_true (Or.inl hless) (Or.inl hle)
  · have hroom : v.tooSmall (nodeSize / 2) = false := Bool.eq_false_iff.mpr hless
    rw [hsmall, h.half_size, h.marks _ (.right hroom), h.marks _ (.left hroom), h.right_start,
      h.start]

variable [DecidablePred taken]

/-- The half that is marked here is the same. -/
theorem freeOne_eq (h : BlockAt v m taken node nodeSize b)
    (hroom : v.tooSmall (nodeSize / 2) = false) :
    (if word m (node + v.unit * (nodeSize / 2)) ≠ v.magic then
        node + v.unit * (nodeSize / 2) + nodeBytes
      else node + nodeBytes).toNat = (freeOne v.unit.toNat taken b).start + 4 := by
  have hheader : ∀ a : UInt32, a.toNat + 4 < 2 ^ 32 → (a + nodeBytes).toNat = a.toNat + 4 := by
    intro a ha
    rw [UInt32.toNat_add]
    exact Nat.mod_eq_of_lt ha
  have hword : 4 ≤ v.unit.toNat * (b.size / 2) := h.half_size ▸ v.wide _ hroom
  have hle := halves_le v.unit.toNat b
  have hends := h.ends
  unfold Block.stop at hends
  have hmark := h.marks _ (.right hroom)
  rw [h.right_start] at hmark
  unfold freeOne
  by_cases htaken : taken (b.right v.unit.toNat).start
  · rw [if_neg (not_not_intro (hmark.mpr htaken)), if_pos htaken, Block.left_start, ← h.start]
    exact hheader node (by rw [h.start]; omega)
  · rw [if_pos (mt hmark.mp htaken), if_neg htaken, ← h.right_start]
    exact hheader _ (by rw [h.right_start, Block.right_start]; omega)

end BlockAt

variable [DecidablePred taken]

theorem eq_zero_iff {size w : Nat} {r : UInt32}
    (h : r.toNat = (descend w small taken b size).elim 0 (·.start + 4)) :
    r = 0 ↔ NoRoom w small taken b := by
  rw [← descend_eq_none, ← UInt32.toNat_inj, h]
  cases descend w small taken b size with
  | none => exact iff_of_true rfl rfl
  | some half => exact iff_of_false (Nat.succ_ne_zero _) (Option.some_ne_none half)

/-- **The search settles on the half that `descend` settles on.** -/
theorem search_descend (hsmall : ∀ s, v.tooSmall s = true ↔ s.toNat ≤ small) (size : UInt32)
    (h : BlockAt v m taken node nodeSize b) :
    (search v m node nodeSize size).1.toNat =
      (descend v.unit.toNat small taken b size.toNat).elim 0 (·.start + 4) := by
  induction hn : b.size using Nat.strong_induction_on generalizing b node nodeSize with
  | _ n ih =>
    subst hn
    by_cases hguard : v.tooSmall (nodeSize / 2) ∨
        (word m (node + v.unit * (nodeSize / 2)) = v.magic ∧ word m node = v.magic)
    · rw [search, if_pos hguard, descend_eq_none.mpr ((h.guard_iff hsmall).mp hguard)]
      rfl
    have hroom := Scheme.not_tooSmall hguard
    have hlt : b.size / 2 < b.size := h.half_size ▸ h.size ▸ Scheme.half_lt hroom
    have hright := ih _ hlt (h.right hroom) rfl
    have hleft := ih _ hlt (h.left hroom) rfl
    have hsize : size < nodeSize / 2 / 2 ↔ size.toNat < b.size / 2 / 2 := by
      rw [UInt32.lt_iff_toNat_lt, UInt32.toNat_div, h.half_size]
      rfl
    rw [search_of_room h.not_lastWordFree hguard, descend,
      dif_neg (mt (h.guard_iff hsmall).mpr hguard)]
    simp only [ne_eq, hsize, eq_zero_iff hright, eq_zero_iff hleft]
    by_cases hdown : size.toNat < b.size / 2 / 2 ∧
        ¬ NoRoom v.unit.toNat small taken (b.right v.unit.toNat)
    · rw [if_pos hdown, if_pos hdown]
      exact hright
    rw [if_neg hdown, if_neg hdown]
    by_cases hdown' : size.toNat < b.size / 2 / 2 ∧ ¬ NoRoom v.unit.toNat small taken b.left
    · rw [if_pos hdown', if_pos hdown']
      exact hleft
    rw [if_neg hdown', if_neg hdown']
    exact h.freeOne_eq hroom

/-- The same in a memory of words, for the search that both heaps are there. -/
theorem search_firstFit (hsmall : ∀ s, v.tooSmall s = true ↔ s.toNat ≤ small) {mem : Nat → Nat}
    {magic : Nat} (size : UInt32) (h : BlockAt v m (fun a => mem a = magic) node nodeSize b) :
    (search v m node nodeSize size).1.toNat =
      (firstFit v.unit.toNat small 4 magic mem b.start b.size size.toNat).1 := by
  rw [search_descend hsmall size h, firstFit_eq (by decide)]
  cases descend v.unit.toNat small (fun a => mem a = magic) b size.toNat with
  | none => rfl
  | some half => rfl

/-- The pointer that `find_free_node` returns, told by a memory of words. -/
theorem findFreeNode_toNat {mem : Alloc.Mem} (size align : UInt32)
    (h : BlockAt kernelScheme m (fun a => mem a = Alloc.kheapMagic) node nodeSize b) :
    (findFreeNode m node nodeSize size align).1.toNat =
      (Alloc.findFreeNode mem b.start b.size size.toNat align.toNat).1 := by
  have hsmall : ∀ s, kernelScheme.tooSmall s = true ↔ s.toNat ≤ 4 := fun s =>
    decide_eq_true_iff.trans UInt32.le_iff_toNat_le
  rw [Alloc.findFreeNode_eq_firstFit]
  exact search_firstFit hsmall size h

/-- The same of `find_free`. -/
theorem findFree_toNat {mem : UserAlloc.Mem} (size : UInt32)
    (h : BlockAt userScheme m (fun a => mem a = UserAlloc.MAGIC) node nodeSize b) :
    (findFree m node nodeSize size).1.toNat =
      (UserAlloc.findFree mem b.start b.size size.toNat).1 := by
  have hsmall : ∀ s, userScheme.tooSmall s = true ↔ s.toNat ≤ 3 := fun s =>
    decide_eq_true_iff.trans (UInt32.lt_iff_toNat_lt.trans Nat.lt_succ_iff)
  rw [UserAlloc.findFree_eq_firstFit]
  exact search_firstFit hsmall size h

end Words

/-! ### What is written -/

/-- The last word, where a half of the block begins, was free and is marked; besides it one header
is written, or nothing. -/
def LosesLastWord (v : Scheme) (m : Memory) (node nodeSize r : UInt32) (m' : Memory) : Prop :=
  LastWordFree v m node nodeSize ∧ WritesOneOrNothing v (markLast v m) node nodeSize r m'

theorem Result.writesOneOrNothing (h : Result v m node nodeSize r) :
    WritesOneOrNothing v m node nodeSize r.1 r.2 ∨ LosesLastWord v m node nodeSize r.1 r.2 :=
  h.imp Outcome.writesOneOrNothing (And.imp_right Outcome.writesOneOrNothing)

/--
**A search writes one header or nothing**, in any memory and for any node, node size and request,
but for the last word of all: where a half of the block begins there and is free, it may be marked
without being returned.
-/
theorem search_writes_one (m : Memory) (node nodeSize size align : UInt32) :
    (WritesOneOrNothing kernelScheme m node nodeSize
        (findFreeNode m node nodeSize size align).1 (findFreeNode m node nodeSize size align).2 ∨
      LosesLastWord kernelScheme m node nodeSize
        (findFreeNode m node nodeSize size align).1 (findFreeNode m node nodeSize size align).2) ∧
    (WritesOneOrNothing userScheme m node nodeSize
        (findFree m node nodeSize size).1 (findFree m node nodeSize size).2 ∨
      LosesLastWord userScheme m node nodeSize
        (findFree m node nodeSize size).1 (findFree m node nodeSize size).2) :=
  ⟨(search_result m node nodeSize size).writesOneOrNothing,
    (search_result m node nodeSize size).writesOneOrNothing⟩

/-- A memory of zeros. -/
def zeros : Memory := fun _ => 0

theorem findFree_last : findFree zeros 0xfffffff8 8 4 = (0, setWord zeros lastWord MAGIC) := by
  have hlarge : ¬ (4 : UInt32) < 8 / 2 / 2 := by decide
  rw [findFree, search, if_neg (by decide), if_neg hlarge]
  dsimp only
  rw [if_neg (not_not_intro rfl), if_pos (by decide)]
  rfl

/-- **The last word is marked, and 0 is returned.** -/
theorem last_word_lost : ¬ ∀ (m : Memory) (node nodeSize size : UInt32),
    WritesOneOrNothing userScheme m node nodeSize (findFree m node nodeSize size).1
      (findFree m node nodeSize size).2 := by
  intro h
  have hsame := (h zeros 0xfffffff8 8 4).nothing (by rw [findFree_last])
  rw [findFree_last] at hsame
  exact absurd (congrFun hsame lastWord) (by decide)

end OsThing.HeapSearch
