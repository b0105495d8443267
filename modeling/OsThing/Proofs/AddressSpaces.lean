/-
When the kernel heap is mapped in every address space.

`map_page` makes a page show up in every directory that shares the page table of the
current one, and nowhere else: `mapPage_translates`.  Clones share the tables that the
kernel directory had when they were made.  A table that an expansion makes later is one
of the current directory alone, so that the heap is missing from all others unless it
happens to fit into the tables that are there.

`Sharing` is the invariant of the tables: two slots either have the same table or two
tables that do not overlap.
-/
import OsThing.Lib.Runs
import OsThing.Mem.AddressSpaces
import OsThing.Proofs.Frames

namespace OsThing.Paging

open Bytes Runs Alloc

/-- The slot of an address, and its page in the slot. -/
def lowIndex (a : Nat) : Nat := a / 2 ^ 22
def highIndex (a : Nat) : Nat := a / 2 ^ 12 % 0x400

/-- The directories have the same table in the slot. -/
def Shares (p : State) (d d' low : Nat) : Prop :=
  ∃ table, tableOf p d low = some table ∧ tableOf p d' low = some table

/-- `get_page` finds something. -/
def Translates (p : State) (d a : Nat) : Prop := p.getPage a d ≠ 0

/-- Tables of two slots are the same, or do not overlap, and none is the null pointer. -/
structure Sharing (p : State) : Prop where
  placed : 0 < p.placement
  below : ∀ d low table, tableOf p d low = some table → 0 < table ∧ table + pageSize ≤ p.placement
  apart : ∀ d low d' low' table table', tableOf p d low = some table →
    tableOf p d' low' = some table' →
    (low = low' ∧ table = table') ∨ table + pageSize ≤ table' ∨ table' + pageSize ≤ table
  frames : ∀ f ∈ p.pageStack, f < space

theorem translates_iff {p : State} (hp : Sharing p) (d a : Nat) :
    Translates p d a ↔ ∃ table, tableOf p d (lowIndex a) = some table ∧
      read32 p.mem (entryAt table (highIndex a)) ≠ 0 := by
  unfold Translates State.getPage
  dsimp only
  rcases htable : tableOf p d (lowIndex a) with _ | table
  · have hnull : (p.dir d).tables (a / 2 ^ 22) = 0 := by
      unfold tableOf lowIndex at htable
      split at htable
      · assumption
      · cases htable
    rw [hnull, if_pos (by rfl)]
    exact iff_of_false (not_not.mpr rfl) fun ⟨_, h, _⟩ => Option.some_ne_none _ h.symm
  · have hbase : pageBase ((p.dir d).tables (a / 2 ^ 22)) = table := by
      unfold tableOf lowIndex at htable
      split at htable
      · cases htable
      · exact Option.some.inj htable
    have hpos := (hp.below d _ table htable).1
    rw [hbase, if_neg (Nat.ne_of_gt hpos)]
    exact ⟨fun h => ⟨table, rfl, h⟩, fun ⟨t, ht, h⟩ => Option.some.inj ht ▸ h⟩

/-! ### A table for the slot -/

/-- The slot has the table, which it had before or which is above all others. -/
structure Tabled (p p' : State) (d low table : Nat) : Prop where
  sharing : Sharing p'
  base : pageBase ((p'.dir d).tables low) = table
  own : tableOf p' d low = some table
  others : ∀ d' low', (d', low') ≠ (d, low) → tableOf p' d' low' = tableOf p d' low'
  shared : ∀ d', d' ≠ d → (tableOf p d' low = some table ↔ Shares p d d' low)
  translates : ∀ d' a, Translates p' d' a ↔ Translates p d' a

theorem tableOf_eq_some {p : State} {d low table : Nat} (h : tableOf p d low = some table) :
    (p.dir d).tables low ≠ 0 ∧ pageBase ((p.dir d).tables low) = table := by
  unfold tableOf at h
  split at h
  · cases h
  · rename_i hne
    exact ⟨hne, Option.some.inj h⟩

/-- A new table that is empty, on memory that no table has. -/
structure TableAdded (p p' : State) (d low addr : Nat) : Prop where
  absent : tableOf p d low = none
  above : p.placement ≤ addr
  tables : ∀ d' low', tableOf p' d' low' =
    if (d', low') = (d, low) then some addr else tableOf p d' low'
  placement : p'.placement = addr + pageSize
  stack : p'.pageStack = p.pageStack
  empty : ∀ high < 0x400, read32 p'.mem (entryAt addr high) = 0
  memory : ∀ a, a + 4 ≤ addr → read32 p'.mem a = read32 p.mem a

section TableAdded

variable {p p' : State} {d low addr : Nat}

theorem TableAdded.own (h : TableAdded p p' d low addr) : tableOf p' d low = some addr := by
  rw [h.tables, if_pos rfl]

theorem TableAdded.others (h : TableAdded p p' d low addr) {d' low' : Nat}
    (hne : (d', low') ≠ (d, low)) : tableOf p' d' low' = tableOf p d' low' := by
  rw [h.tables, if_neg hne]

/-- The other tables are below it. -/
theorem TableAdded.below (h : TableAdded p p' d low addr) (hp : Sharing p) {d' low' t : Nat}
    (ht : tableOf p d' low' = some t) : t + pageSize ≤ addr :=
  Nat.le_trans (hp.below _ _ _ ht).2 h.above

theorem TableAdded.cases (h : TableAdded p p' d low addr) {d' low' t : Nat}
    (ht : tableOf p' d' low' = some t) :
    ((d', low') = (d, low) ∧ t = addr) ∨ tableOf p d' low' = some t := by
  rw [h.tables] at ht
  split at ht
  · rename_i heq
    exact Or.inl ⟨heq, (Option.some.inj ht).symm⟩
  · exact Or.inr ht

theorem TableAdded.sharing (h : TableAdded p p' d low addr) (hp : Sharing p) : Sharing p' := by
  have hpos : 0 < addr := Nat.lt_of_lt_of_le hp.placed h.above
  refine ⟨?_, fun d' low' t ht => ?_, fun d' low' d'' low'' t t' ht ht' => ?_, ?_⟩
  · rw [h.placement]
    exact Nat.add_pos_left hpos _
  · rw [h.placement]
    rcases h.cases ht with ⟨-, rfl⟩ | ht
    · exact ⟨hpos, Nat.le_refl _⟩
    · exact ⟨(hp.below _ _ _ ht).1, Nat.le_trans (h.below hp ht) (Nat.le_add_right _ _)⟩
  · rcases h.cases ht with ⟨heq, rfl⟩ | ht
    · rcases h.cases ht' with ⟨heq', rfl⟩ | ht'
      · exact Or.inl ⟨(Prod.mk.inj (heq.trans heq'.symm)).2, rfl⟩
      · exact Or.inr (Or.inr (h.below hp ht'))
    · rcases h.cases ht' with ⟨-, rfl⟩ | ht'
      · exact Or.inr (Or.inl (h.below hp ht))
      · exact hp.apart _ _ _ _ _ _ ht ht'
  · rw [h.stack]
    exact hp.frames

theorem TableAdded.translates (h : TableAdded p p' d low addr) (hp : Sharing p) (d' a : Nat) :
    Translates p' d' a ↔ Translates p d' a := by
  have hhigh : highIndex a < 0x400 := Nat.mod_lt _ (by omega)
  rw [translates_iff (h.sharing hp), translates_iff hp]
  by_cases heq : (d', lowIndex a) = (d, low)
  · -- the new table is empty
    obtain ⟨rfl, rfl⟩ := Prod.mk.inj heq
    refine iff_of_false (fun ⟨t, ht, hentry⟩ => ?_) fun ⟨t, ht, _⟩ => ?_
    · obtain rfl := Option.some.inj (h.own.symm.trans ht)
      exact hentry (h.empty _ hhigh)
    · cases h.absent.symm.trans ht
  · rw [h.others heq]
    refine exists_congr fun t => and_congr_right fun ht => ?_
    obtain ⟨-, hhi⟩ := entryAt_inside t hhigh
    rw [h.memory _ (Nat.le_trans hhi (h.below hp ht))]

theorem TableAdded.tabled (h : TableAdded p p' d low addr) (hp : Sharing p)
    (hbase : pageBase ((p'.dir d).tables low) = addr) : Tabled p p' d low addr := by
  refine ⟨h.sharing hp, hbase, h.own, fun _ _ => h.others, fun d' _ => ?_, h.translates hp⟩
  refine iff_of_false (fun ht => ?_) fun ⟨t, ht, _⟩ => ?_
  · have hlt := h.below hp ht
    unfold pageSize at hlt
    omega
  · cases h.absent.symm.trans ht

end TableAdded

theorem ensureTable_tabled {p p' : State} {low permissions d : Nat} (hp : Sharing p)
    (h : p.ensureTable low permissions d = some p') : ∃ table, Tabled p p' d low table := by
  unfold State.ensureTable at h
  split at h
  · rename_i hnone
    obtain ⟨⟨addr, p₁⟩, hkmalloc, rfl⟩ := Option.map_eq_some_iff.mp h
    obtain ⟨hmod, hle, rfl⟩ := kmallocE_spec hkmalloc
    have hpos : 0 < addr := Nat.lt_of_lt_of_le hp.placed hle
    have htables := clearTable_tables { p with placement := addr + pageSize } low permissions d addr
    have hbase : pageBase (((({ p with placement := addr + pageSize } : State).clearTable low
        permissions d addr).dir d).tables low) = addr := by
      rw [htables, if_pos ⟨rfl, rfl⟩, pageBase_of_mod hmod]
    refine ⟨addr, TableAdded.tabled ⟨if_pos hnone, hle, fun d' low' => ?_, rfl, rfl,
      fun high hhigh => ?_, fun a ha => read32_fill_apart _ _ (Or.inr ha)⟩ hp hbase⟩
    · unfold tableOf
      rw [htables]
      by_cases heq : d' = d ∧ low' = low
      · rw [if_pos heq, if_pos (Prod.ext heq.1 heq.2), if_neg (Nat.ne_of_gt hpos),
          pageBase_of_mod hmod]
      · rw [if_neg heq, if_neg (show ¬ (d', low') = (d, low) from fun hpair =>
          heq (Prod.mk.inj hpair))]
    · obtain ⟨hlo, hhi⟩ := entryAt_inside addr hhigh
      exact read32_fill_zero _ hlo hhi
  · rename_i hsome
    obtain rfl := Option.some.inj h
    have htable : tableOf p d low = some (pageBase ((p.dir d).tables low)) := if_neg hsome
    refine ⟨_, hp, rfl, htable, fun _ _ _ => rfl, fun d' _ => ?_, fun _ _ => Iff.rfl⟩
    exact ⟨fun ht => ⟨_, htable, ht⟩, fun ⟨t, ht, ht'⟩ =>
      ht'.trans (ht.symm.trans htable)⟩

/-! ### Mapping -/

/--
The pages of `S` are mapped in `d`, and with that in every directory that shares the table
of their slot.  No table is shared that was not, and no slot but those of `S` gets one.
-/
structure Spread (p p' : State) (d : Nat) (S : Nat → Prop) : Prop where
  sharing : Sharing p'
  shared : ∀ d' low, d' ≠ d → (Shares p' d d' low ↔ Shares p d d' low)
  others : ∀ d' low, (d' = d → ∀ a, S a → lowIndex a ≠ low) → tableOf p' d' low = tableOf p d' low
  translates : ∀ d' a, Translates p' d' a ↔
    Translates p d' a ∨ (S a ∧ (d' = d ∨ Shares p d d' (lowIndex a)))

theorem Spread.refl {p : State} (hp : Sharing p) (d : Nat) : Spread p p d fun _ => False :=
  ⟨hp, fun _ _ _ => Iff.rfl, fun _ _ _ => rfl, fun _ _ => by simp⟩

theorem Spread.trans {p p₁ p₂ : State} {d : Nat} {S T U : Nat → Prop} (h : Spread p p₁ d S)
    (h' : Spread p₁ p₂ d T) (hU : ∀ a, U a ↔ S a ∨ T a) : Spread p p₂ d U := by
  refine ⟨h'.sharing, fun d' low hne => (h'.shared d' low hne).trans (h.shared d' low hne),
    fun d' low hlow => ?_, fun d' a => ?_⟩
  · rw [h'.others d' low fun hd a ha => hlow hd a ((hU a).mpr (Or.inr ha)),
      h.others d' low fun hd a ha => hlow hd a ((hU a).mpr (Or.inl ha))]
  · have hreach : (d' = d ∨ Shares p₁ d d' (lowIndex a)) ↔ (d' = d ∨ Shares p d d' (lowIndex a)) := by
      rcases eq_or_ne d' d with heq | hne
      · exact iff_of_true (Or.inl heq) (Or.inl heq)
      · rw [h.shared d' _ hne]
    rw [h'.translates, h.translates, hreach, hU, or_and_right, or_assoc]

/-- The page of `a`, as `map_page` finds it. -/
def SamePage (address a : Nat) : Prop :=
  lowIndex a = lowIndex address ∧ highIndex a = highIndex address

theorem samePage_iff (address a : Nat) : SamePage address a ↔ a / pageSize = address / pageSize := by
  unfold SamePage lowIndex highIndex pageSize
  omega

/-- The pointer gets its flags, and with that no table moves. -/
theorem tableOf_flagged {p p₃ : State} {d low table flags : Nat} (hown : tableOf p d low = some table)
    (hdir : p₃.dir = (p.setTable d low table).dir) (hflags : 0 < flags) (hsmall : flags < pageSize)
    (d' low' : Nat) :
    tableOf (p₃.setTable d low (table ||| flags)) d' low' = tableOf p d' low' := by
  have htables : ((p₃.setTable d low (table ||| flags)).dir d').tables low' =
      if d' = d ∧ low' = low then table ||| flags else (p.dir d').tables low' := by
    rw [setTable_tables, hdir, setTable_tables]
    by_cases heq : d' = d ∧ low' = low
    · rw [if_pos heq, if_pos heq]
    · rw [if_neg heq, if_neg heq, if_neg heq]
  unfold tableOf
  rw [htables]
  by_cases heq : d' = d ∧ low' = low
  · obtain ⟨rfl, rfl⟩ := heq
    obtain ⟨hne, hbase⟩ := tableOf_eq_some hown
    rw [if_pos (show d' = d' ∧ low' = low' from ⟨rfl, rfl⟩), if_neg (or_ne_zero hflags),
      if_neg hne, pageBase_or _ hsmall, hbase, ← hbase, pageBase_pageBase]
  · rw [if_neg heq]

/-- Two entries are the same one, or they do not overlap. -/
theorem entries_apart {p : State} (hp : Sharing p) {d low high table d' low' high' table' : Nat}
    (htable : tableOf p d low = some table) (htable' : tableOf p d' low' = some table')
    (hhigh : high < 0x400) (hhigh' : high' < 0x400) :
    ((low = low' ∧ high = high') ∧ table = table') ∨
      entryAt table high + 4 ≤ entryAt table' high' ∨
      entryAt table' high' + 4 ≤ entryAt table high := by
  obtain ⟨hlo, hhi⟩ := entryAt_inside table hhigh
  obtain ⟨hlo', hhi'⟩ := entryAt_inside table' hhigh'
  rcases hp.apart _ _ _ _ _ _ htable htable' with ⟨hlow, rfl⟩ | happart | happart
  · rcases eq_or_ne high high' with heq | hne
    · exact Or.inl ⟨⟨hlow, heq⟩, rfl⟩
    · right
      unfold entryAt
      omega
  · exact Or.inr (Or.inl (by omega))
  · exact Or.inr (Or.inr (by omega))

/-- Of the pages, only the one with the entry gets a translation. -/
theorem translates_filled {p p₁ : State} {d low high table : Nat} (hp : Sharing p)
    (hp₁ : Sharing p₁) (htable : ∀ d' low', tableOf p₁ d' low' = tableOf p d' low')
    (hown : tableOf p d low = some table) (hhigh : high < 0x400)
    (hentry : read32 p₁.mem (entryAt table high) ≠ 0)
    (hmem : ∀ a, a + 4 ≤ entryAt table high ∨ entryAt table high + 4 ≤ a →
      read32 p₁.mem a = read32 p.mem a) (d' a : Nat) :
    Translates p₁ d' a ↔ Translates p d' a ∨
      ((lowIndex a = low ∧ highIndex a = high) ∧ tableOf p d' low = some table) := by
  have hahigh : highIndex a < 0x400 := Nat.mod_lt _ (by omega)
  rw [translates_iff hp₁, translates_iff hp, htable]
  constructor
  · rintro ⟨t, ht, hne⟩
    rcases entries_apart hp ht hown hahigh hhigh with ⟨⟨hlow, hhi⟩, rfl⟩ | happart
    · exact Or.inr ⟨⟨hlow, hhi⟩, hlow ▸ ht⟩
    · exact Or.inl ⟨t, ht, by rwa [← hmem _ happart]⟩
  · rintro (⟨t, ht, hne⟩ | ⟨⟨rfl, rfl⟩, ht⟩)
    · refine ⟨t, ht, ?_⟩
      rcases entries_apart hp ht hown hahigh hhigh with ⟨⟨-, hhi⟩, rfl⟩ | happart
      · rwa [hhi]
      · rwa [hmem _ happart]
    · exact ⟨table, ht, hentry⟩

/-- `Sharing` looks at the tables, `placement` and the stack only. -/
theorem Sharing.congr {p p' : State} (hp : Sharing p)
    (htable : ∀ d low, tableOf p' d low = tableOf p d low) (hplacement : p.placement ≤ p'.placement)
    (hstack : ∀ f ∈ p'.pageStack, f ∈ p.pageStack) : Sharing p' := by
  refine ⟨Nat.lt_of_lt_of_le hp.placed hplacement, fun d low t ht => ?_,
    fun d low d' low' t t' ht ht' => ?_, fun f hf => hp.frames f (hstack f hf)⟩
  · rw [htable] at ht
    obtain ⟨hpos, hle⟩ := hp.below d low t ht
    exact ⟨hpos, Nat.le_trans hle hplacement⟩
  · rw [htable] at ht ht'
    exact hp.apart d low d' low' t t' ht ht'

/-- **What `map_page` does to the translations of all directories.** -/
theorem mapPage_spread {p p' : State} {address flags d : Nat} (hp : Sharing p) (hflags : 0 < flags)
    (hsmall : flags < pageSize) (h : p.mapPage address flags d = some p') :
    Spread p p' d (SamePage address) := by
  have hhigh : highIndex address < 0x400 := Nat.mod_lt _ (by omega)
  obtain ⟨p₁, hensure, hfill⟩ := mapPage_filled hsmall h
  obtain ⟨table, htabled⟩ := ensureTable_tabled hp hensure
  obtain ⟨p₃, hfilled, rfl⟩ := hfill table htabled.base
  have htable := tableOf_flagged htabled.own hfilled.dir hflags hsmall
  have hstack : ∀ f ∈ p₃.pageStack, f ∈ p₁.pageStack := fun f hf => by
    rcases hfilled.entry with ⟨-, frame, hstack, -⟩ | ⟨-, hstack, -⟩
    · exact (show p₁.pageStack = frame :: p₃.pageStack from hstack) ▸ List.mem_cons_of_mem frame hf
    · exact (show p₃.pageStack = p₁.pageStack from hstack) ▸ hf
  have hsharing := htabled.sharing.congr htable (Nat.le_of_eq hfilled.placement.symm) hstack
  have hentry : read32 p₃.mem (entryAt table (highIndex address)) ≠ 0 := by
    rcases hfilled.entry with ⟨-, frame, hframe, hword⟩ | ⟨-, -, hword⟩
    · have hlt := htabled.sharing.frames frame (by
        rw [show p₁.pageStack = frame :: p₃.pageStack from hframe]
        exact List.mem_cons_self)
      exact (hword hlt).symm ▸ or_ne_zero hflags
    · exact hword.symm ▸ or_ne_zero hflags
  have hreach : ∀ d', tableOf p₁ d' (lowIndex address) = some table ↔
      d' = d ∨ Shares p d d' (lowIndex address) := fun d' => by
    rcases eq_or_ne d' d with rfl | hne
    · exact iff_of_true htabled.own (Or.inl rfl)
    · rw [htabled.others d' _ fun heq => hne (Prod.mk.inj heq).1]
      exact (htabled.shared d' hne).trans ⟨Or.inr, fun h => h.resolve_left hne⟩
  refine ⟨hsharing, fun d' low hne => ?_, fun d' low hlow => ?_, fun d' a => ?_⟩
  · unfold Shares
    rw [htable, htable]
    by_cases heq : low = lowIndex address
    · subst heq
      have hiff := (hreach d').trans ⟨fun h => h.resolve_left hne, Or.inr⟩
      exact ⟨fun ⟨t, ht, ht'⟩ => hiff.mp (Option.some.inj (htabled.own.symm.trans ht) ▸ ht'),
        fun hshares => ⟨table, htabled.own, hiff.mpr hshares⟩⟩
    · rw [htabled.others d low fun hpair => heq (Prod.mk.inj hpair).2,
        htabled.others d' low fun hpair => heq (Prod.mk.inj hpair).2]
  · rw [htable]
    exact htabled.others d' low fun hpair =>
      hlow (Prod.mk.inj hpair).1 address ⟨rfl, rfl⟩ (Prod.mk.inj hpair).2.symm
  · have hmapped : Translates (p₃.setTable d (lowIndex address) (table ||| flags)) d' a ↔
        Translates p₁ d' a ∨
          (SamePage address a ∧ tableOf p₁ d' (lowIndex address) = some table) :=
      translates_filled htabled.sharing hsharing htable htabled.own hhigh hentry hfilled.memory d' a
    refine hmapped.trans ?_
    rw [htabled.translates, hreach]
    refine or_congr_right (and_congr_right fun hsame => ?_)
    rw [hsame.1]

/-- The pages that `map_pages` maps. -/
def InRange (start stop a : Nat) : Prop :=
  start / pageSize ≤ a / pageSize ∧ a / pageSize < start / pageSize + pageCount start stop

theorem foldlM_spread {start flags d : Nat} (hflags : 0 < flags) (hsmall : flags < pageSize) :
    ∀ (is : List Nat) {p p' : State}, Sharing p →
      is.foldlM (fun p i => p.mapPage (start + i * pageSize) flags d) p = some p' →
      Spread p p' d fun a => ∃ i ∈ is, SamePage (start + i * pageSize) a := by
  intro is
  induction is with
  | nil =>
      intro p p' hp h
      obtain rfl := Option.some.inj h
      exact (Spread.refl hp d).trans (Spread.refl hp d) fun a => by simp
  | cons i rest ih =>
      intro p p' hp h
      rw [List.foldlM_cons] at h
      obtain ⟨p₁, hmap, hrest⟩ := Option.bind_eq_some_iff.mp h
      have hone := mapPage_spread hp hflags hsmall hmap
      exact hone.trans (ih hone.sharing hrest) fun a => by simp

theorem mapPages_spread {p p' : State} {start stop flags d : Nat} (hp : Sharing p)
    (hflags : 0 < flags) (hsmall : flags < pageSize)
    (h : p.mapPages start stop flags d = some p') : Spread p p' d (InRange start stop) := by
  unfold State.mapPages at h
  split at h
  · cases h
  · refine (foldlM_spread hflags hsmall _ hp h).trans
      (Spread.refl (foldlM_spread hflags hsmall _ hp h).sharing d) fun a => ?_
    rw [or_false]
    unfold InRange
    constructor
    · rintro ⟨hle, hlt⟩
      refine ⟨a / pageSize - start / pageSize, List.mem_range.mpr (by omega), ?_⟩
      rw [samePage_iff, Nat.add_mul_div_right _ _ (by decide)]
      omega
    · rintro ⟨i, hi, hsame⟩
      rw [samePage_iff, Nat.add_mul_div_right _ _ (by decide)] at hsame
      have hi := List.mem_range.mp hi
      omega

/-! ### Cloning -/

theorem clonePageDir_spec {p p' : State} {src new : Nat} (hp : Sharing p)
    (h : p.clonePageDir src new = some p') :
    Sharing p' ∧ (∀ d low, tableOf p' d low = tableOf p (if d = new then src else d) low) ∧
      ∀ d a, Translates p' d a ↔ Translates p (if d = new then src else d) a := by
  unfold State.clonePageDir at h
  obtain ⟨⟨addr, p₁⟩, hkmalloc, rfl⟩ := Option.map_eq_some_iff.mp h
  obtain ⟨-, hle, rfl⟩ := kmallocE_spec hkmalloc
  have hplacement : p.placement ≤ addr + pageDirSize := Nat.le_trans hle (Nat.le_add_right _ _)
  have htable : ∀ d low, tableOf { p with
      placement := addr + pageDirSize, dir := Function.update p.dir new (p.dir src).copy } d low =
      tableOf p (if d = new then src else d) low := fun d low => by
    have htables : (Function.update p.dir new (p.dir src).copy d).tables low =
        (p.dir (if d = new then src else d)).tables low := by
      rcases eq_or_ne d new with rfl | hne
      · rw [if_pos rfl, Function.update_self]
        rfl
      · rw [if_neg hne, Function.update_of_ne hne]
    exact congrArg (fun pointer => if pointer = 0 then none else some (pageBase pointer)) htables
  have hsharing : Sharing { p with
      placement := addr + pageDirSize, dir := Function.update p.dir new (p.dir src).copy } := by
    refine ⟨Nat.lt_of_lt_of_le hp.placed hplacement, fun d low t ht => ?_,
      fun d low d' low' t t' ht ht' => ?_, hp.frames⟩
    · obtain ⟨hpos, hbelow⟩ := hp.below _ _ _ ((htable d low).symm.trans ht)
      exact ⟨hpos, Nat.le_trans hbelow hplacement⟩
    · exact hp.apart _ _ _ _ _ _ ((htable d low).symm.trans ht) ((htable d' low').symm.trans ht')
  refine ⟨hsharing, htable, fun d a => ?_⟩
  rw [translates_iff hsharing, translates_iff hp, htable]

/-! ### The heap -/

/-- `[root, root + 4 * heap->size)` is mapped in every directory. -/
def HeapMapped (s : Spaces) : Prop :=
  ∀ d < s.dirs, ∀ a < space, kheapStart ≤ a → a < kheapStart + 4 * s.size →
    Translates s.paging d a

/-- The page gets a translation in the directory, if it has none. -/
def Reached (s : Spaces) (d a : Nat) : Prop :=
  InRange s.mapStart s.mapStop a ∧ (d = s.current ∨ Shares s.paging s.current d (lowIndex a))

/--
A page that the expansion adds to the heap is there in every directory already, or it is
mapped, and the directory is the current one or has its table for the 4 MB of the page.
-/
def Covered (s : Spaces) : SpaceOp → Spaces → Prop
  | .expand, _ => ∀ d < s.dirs, ∀ a < space, kheapStart + 4 * s.size ≤ a →
      a < kheapStart + s.newSize → Translates s.paging d a ∨ Reached s d a
  | .clone, _ => True
  | .setPageDir _, _ => True

/-- The invariant: `HeapMapped`, and what makes translations add up. -/
structure HeapInv (s : Spaces) : Prop where
  sharing : Sharing s.paging
  first : 0 < s.dirs
  mapped : HeapMapped s

theorem newSize_div (s : Spaces) : 4 * (s.newSize / 4) = s.newSize := by
  unfold Spaces.newSize Spaces.oldSize space
  omega

theorem kernelPages_pos : 0 < kernelPages := Nat.zero_lt_succ _

theorem kernelPages_small : kernelPages < pageSize := by
  unfold kernelPages pageSize
  omega

theorem expand_spec {s s' : Spaces} (hs : Sharing s.paging) (h : s.expand = some s') :
    Spread s.paging s'.paging s.current (InRange s.mapStart s.mapStop) ∧ s'.dirs = s.dirs ∧
      4 * s'.size = s.newSize := by
  unfold Spaces.expand at h
  obtain ⟨p, hmap, rfl⟩ := Option.map_eq_some_iff.mp h
  exact ⟨mapPages_spread hs kernelPages_pos kernelPages_small hmap, rfl, newSize_div s⟩

theorem HeapInv.keep (s : Spaces) (op : SpaceOp) (s' : Spaces) (hs : HeapInv s)
    (hstep : spaceStep s op = some s') (hcovered : Covered s op s') : HeapInv s' := by
  cases op with
  | clone =>
      dsimp only [spaceStep] at hstep
      obtain ⟨p, hclone, rfl⟩ := Option.map_eq_some_iff.mp hstep
      obtain ⟨hsharing, -, htrans⟩ := clonePageDir_spec hs.sharing hclone
      refine ⟨hsharing, Nat.succ_pos _, fun d hd a ha hlo hhi => ?_⟩
      refine (htrans d a).mpr (hs.mapped _ ?_ a ha hlo hhi)
      split
      · exact hs.first
      · have hd : d < s.dirs + 1 := hd
        omega
  | setPageDir d =>
      dsimp only [spaceStep] at hstep
      split at hstep
      · obtain rfl := Option.some.inj hstep
        exact ⟨hs.sharing, hs.first, hs.mapped⟩
      · cases hstep
  | expand =>
      obtain ⟨hspread, hdirs, hsize⟩ := expand_spec hs.sharing hstep
      refine ⟨hspread.sharing, hdirs ▸ hs.first, fun d hd a ha hlo hhi => ?_⟩
      rw [hspread.translates]
      rcases Nat.lt_or_ge a (kheapStart + 4 * s.size) with hold | hnew
      · exact Or.inl (hs.mapped d (hdirs ▸ hd) a ha hlo hold)
      · exact hcovered d (hdirs ▸ hd) a ha hnew (hsize ▸ hhi)

theorem HeapInv.exact (s : Spaces) (op : SpaceOp) (s' : Spaces) (hs : HeapInv s)
    (hstep : spaceStep s op = some s') (hmapped : HeapMapped s') : Covered s op s' := by
  cases op with
  | clone => exact trivial
  | setPageDir d => exact trivial
  | expand =>
      obtain ⟨hspread, hdirs, hsize⟩ := expand_spec hs.sharing hstep
      intro d hd a ha hlo hhi
      refine (hspread.translates d a).mp (hmapped d (hdirs ▸ hd) a ha ?_ (hsize ▸ hhi))
      exact Nat.le_trans (Nat.le_add_right _ _) hlo

/-! ### The boot -/

theorem sharing_empty (mem : Memory) (frames : List (Fin (2 ^ 20))) {placement : Nat}
    (hplaced : 0 < placement) : Sharing (State.empty mem frames placement) := by
  have hok := tablesOk_empty mem frames placement
  have hnone : ∀ d low, tableOf (State.empty mem frames placement) d low = none :=
    fun _ _ => if_pos rfl
  refine ⟨hplaced, fun d low t ht => ?_, fun d low d' low' t t' ht => ?_,
    fun f hf => (hok.frames f hf).2⟩
  · rw [hnone] at ht
    cases ht
  · rw [hnone] at ht
    cases ht

theorem Sharing.setPlacement {p : State} (hp : Sharing p) {placement : Nat}
    (hle : p.placement ≤ placement) : Sharing { p with placement := placement } :=
  hp.congr (fun _ _ => rfl) hle fun _ hf => hf

theorem kmallocE_at {p : State} {size addr : Nat} (hup : pageUp p.placement = addr)
    (h : addr + size ≤ space) :
    p.kmallocE size = some (addr, { p with placement := addr + size }) := by
  subst hup
  exact if_pos h

theorem kmallocE_none {p : State} {size addr : Nat} (hup : pageUp p.placement = addr)
    (h : ¬ addr + size ≤ space) : p.kmallocE size = none := by
  subst hup
  exact if_neg h

/-- `init_paging` maps its two ranges if there is early memory for the directory and the page
stack, which end at `placement`. -/
theorem initPaging_eq (mem : Memory) (frames : List (Fin (2 ^ 20))) {kernelEnd npages placement : Nat}
    (hplacement : placement = pageUp (pageUp kernelEnd + pageDirSize) + (npages * 4 + 1)) :
    initPaging mem frames kernelEnd npages =
      if placement ≤ space then
        ((State.empty mem frames placement).mapPages 0 ((placement + pageSize * 400) % space)
            kernelPages 0).bind fun p =>
          (p.mapPages kheapStart (kheapStart + kheapSize + pageSize) kernelPages 0).map fun p =>
            ⟨{ p with placement := p.placement + heapSize }, 1, 0, kheapSize / 4⟩
      else none := by
  subst hplacement
  unfold initPaging
  by_cases hdir : pageUp kernelEnd + pageDirSize ≤ space
  · have hkernelDir : (State.empty mem frames kernelEnd).kmallocE pageDirSize =
        some (pageUp kernelEnd, State.empty mem frames (pageUp kernelEnd + pageDirSize)) :=
      kmallocE_at rfl hdir
    rw [hkernelDir, Option.bind_some]
    dsimp only
    by_cases hstack : pageUp (pageUp kernelEnd + pageDirSize) + (npages * 4 + 1) ≤ space
    · have hpageStack :
          (State.empty mem frames (pageUp kernelEnd + pageDirSize)).kmallocE (npages * 4 + 1) =
            some (pageUp (pageUp kernelEnd + pageDirSize), State.empty mem frames
              (pageUp (pageUp kernelEnd + pageDirSize) + (npages * 4 + 1))) :=
        kmallocE_at rfl hstack
      rw [hpageStack, Option.bind_some, if_pos hstack]
      rfl
    · have hpageStack :
          (State.empty mem frames (pageUp kernelEnd + pageDirSize)).kmallocE (npages * 4 + 1) =
            none := kmallocE_none rfl hstack
      rw [hpageStack, Option.bind_none, if_neg hstack]
  · have hkernelDir : (State.empty mem frames kernelEnd).kmallocE pageDirSize = none :=
      kmallocE_none rfl hdir
    have hstack : ¬ pageUp (pageUp kernelEnd + pageDirSize) + (npages * 4 + 1) ≤ space :=
      fun hstack => hdir ((pageUp_spec _).2.trans (Nat.le_of_add_right_le hstack))
    rw [hkernelDir, Option.bind_none, if_neg hstack]

/-- What `init_paging` maps, on tables that are all new. -/
theorem initPaging_spec {mem : Memory} {frames : List (Fin (2 ^ 20))} {kernelEnd npages : Nat}
    {s : Spaces} (h : initPaging mem frames kernelEnd npages = some s) :
    s.dirs = 1 ∧ s.current = 0 ∧ s.size = kheapSize / 4 ∧ Sharing s.paging ∧
      ∃ p p₁ p₂ : State, (∀ d low, tableOf p d low = none) ∧
        Spread p p₁ 0 (InRange 0 ((p.placement + pageSize * 400) % space)) ∧
        Spread p₁ p₂ 0 (InRange kheapStart (kheapStart + kheapSize + pageSize)) ∧
        s.paging = { p₂ with placement := p₂.placement + heapSize } := by
  rw [initPaging_eq mem frames rfl] at h
  obtain ⟨-, h⟩ := Option.ite_none_right_eq_some.mp h
  obtain ⟨p₁, hlow, h⟩ := Option.bind_eq_some_iff.mp h
  obtain ⟨p₂, hheap, rfl⟩ := Option.map_eq_some_iff.mp h
  have hplaced : 0 < pageUp (pageUp kernelEnd + pageDirSize) + (npages * 4 + 1) :=
    Nat.succ_pos _
  have hp := sharing_empty mem frames hplaced
  have hspread₁ := mapPages_spread hp kernelPages_pos kernelPages_small hlow
  have hspread₂ := mapPages_spread hspread₁.sharing kernelPages_pos kernelPages_small hheap
  exact ⟨rfl, rfl, rfl, hspread₂.sharing.setPlacement (Nat.le_add_right _ _), _, p₁, p₂,
    fun _ _ => by exact if_pos rfl, hspread₁, hspread₂, rfl⟩

theorem heapInv_init {mem : Memory} {frames : List (Fin (2 ^ 20))} {kernelEnd npages : Nat}
    {s : Spaces} (h : initPaging mem frames kernelEnd npages = some s) : HeapInv s := by
  obtain ⟨hdirs, -, hsize, hsharing, p, p₁, p₂, -, -, hspread, hpaging⟩ := initPaging_spec h
  refine ⟨hsharing, hdirs ▸ Nat.one_pos, fun d hd a ha hlo hhi => ?_⟩
  obtain rfl : d = 0 := by omega
  have hrange : InRange kheapStart (kheapStart + kheapSize + pageSize) a := by
    rw [hsize] at hhi
    unfold InRange pageCount
    unfold kheapStart kheapSize at *
    unfold pageSize
    omega
  rw [hpaging]
  exact (hspread.translates 0 a).mpr (Or.inr ⟨hrange, Or.inl rfl⟩)

/--
**The heap is mapped in every directory just as long as every expansion finds the page
tables shared.**  From the boot, in every run of clones, changes of the directory and
expansions.
-/
theorem heap_mapped_iff {mem : Memory} {frames : List (Fin (2 ^ 20))} {kernelEnd npages : Nat}
    {s : Spaces} (h : initPaging mem frames kernelEnd npages = some s) (ops : List SpaceOp) :
    Always spaceStep HeapMapped s ops ↔ EveryStep spaceStep Covered s ops :=
  always_iff (fun _ hs => hs.mapped) HeapInv.keep HeapInv.exact (heapInv_init h)

/-! ### Enough memory -/

/-- There are frames and early memory for `k` pages and the tables they may need. -/
def Roomy (p : State) (k : Nat) : Prop :=
  k ≤ p.pageStack.length ∧ p.placement + 2 * k * pageSize ≤ space

theorem kmallocE_total {p : State} {size : Nat} (h : p.placement + pageSize + size ≤ space) :
    ∃ addr, addr ≤ p.placement + pageSize ∧
      p.kmallocE size = some (addr, { p with placement := addr + size }) := by
  have hup : pageUp p.placement ≤ p.placement + pageSize := by
    unfold pageUp pageBase pageSize
    split
    · omega
    · omega
  exact ⟨pageUp p.placement, hup, if_pos (Nat.le_trans (Nat.add_le_add_right hup size) h)⟩

theorem fillEntry_total {p : State} (e flags : Nat) (h : p.pageStack ≠ []) :
    ∃ p', p.fillEntry e flags = some p' ∧ p'.placement = p.placement ∧
      p.pageStack.length ≤ p'.pageStack.length + 1 := by
  obtain ⟨frame, rest, hstack⟩ := List.exists_cons_of_ne_nil h
  unfold State.fillEntry
  dsimp only
  split
  · unfold State.popPage
    rw [hstack]
    exact ⟨_, rfl, rfl, Nat.le_refl _⟩
  · exact ⟨_, rfl, rfl, Nat.le_succ _⟩

theorem ensureTable_total {p : State} (low flags d : Nat)
    (h : p.placement + 2 * pageSize ≤ space) :
    ∃ p', p.ensureTable low flags d = some p' ∧ p'.placement ≤ p.placement + 2 * pageSize ∧
      p'.pageStack = p.pageStack := by
  unfold State.ensureTable
  split
  · obtain ⟨addr, hle, hkmalloc⟩ := kmallocE_total
      (show p.placement + pageSize + pageSize ≤ space by omega)
    rw [hkmalloc]
    refine ⟨_, rfl, ?_, rfl⟩
    show addr + pageSize ≤ p.placement + 2 * pageSize
    omega
  · exact ⟨p, rfl, Nat.le_add_right _ _, rfl⟩

theorem mapPage_total {p : State} {k : Nat} (address flags d : Nat) (h : Roomy p (k + 1)) :
    ∃ p', p.mapPage address flags d = some p' ∧ Roomy p' k := by
  obtain ⟨hframes, hspace⟩ := h
  rw [Nat.mul_succ, Nat.add_mul] at hspace
  obtain ⟨p₁, hensure, hplacement, hstack⟩ := ensureTable_total (p := p) (address / 2 ^ 22) flags d
    (by omega)
  have hne : p₁.pageStack ≠ [] := by
    rw [hstack]
    exact List.ne_nil_of_length_pos (by omega)
  have hfill : ∀ low table e, ∃ p', (p₁.setTable d low table).fillEntry e flags = some p' ∧
      p'.placement = p₁.placement ∧ p₁.pageStack.length ≤ p'.pageStack.length + 1 :=
    fun low table e => fillEntry_total (p := p₁.setTable d low table) e flags hne
  unfold State.mapPage
  dsimp only
  rw [hensure, Option.bind_some]
  obtain ⟨p₃, hfilled, hsame, hlength⟩ := hfill (address / 2 ^ 22)
    (pageBase ((p₁.dir d).tables (address / 2 ^ 22)))
    (entryAt (pageBase ((p₁.dir d).tables (address / 2 ^ 22))) (address / 2 ^ 12 % 0x400))
  rw [hfilled]
  refine ⟨_, rfl, ?_, ?_⟩
  · show k ≤ p₃.pageStack.length
    rw [hstack] at hlength
    omega
  · show p₃.placement + 2 * k * pageSize ≤ space
    omega

theorem mapPages_total {p : State} {start stop k : Nat} (flags d : Nat)
    (hstop : start + pageCount start stop * pageSize < space)
    (h : Roomy p (pageCount start stop + k)) :
    ∃ p', p.mapPages start stop flags d = some p' ∧ Roomy p' k := by
  have hloop : ∀ (is : List Nat) (p : State), Roomy p (is.length + k) →
      ∃ p', is.foldlM (fun p i => p.mapPage (start + i * pageSize) flags d) p = some p' ∧
        Roomy p' k := by
    intro is
    induction is with
    | nil =>
        intro p h
        exact ⟨p, rfl, (Nat.zero_add k) ▸ h⟩
    | cons i rest ih =>
        intro p h
        rw [List.length_cons, Nat.add_right_comm] at h
        obtain ⟨p₁, hmap, hroomy⟩ := mapPage_total (start + i * pageSize) flags d h
        rw [List.foldlM_cons, hmap]
        exact ih p₁ hroomy
  unfold State.mapPages
  rw [if_neg (Nat.not_le.mpr hstop)]
  exact hloop _ p (by rwa [List.length_range])

theorem clonePageDir_total {p : State} {k : Nat} (src new : Nat) (h : Roomy p (k + 2)) :
    ∃ p', p.clonePageDir src new = some p' ∧ Roomy p' k := by
  obtain ⟨hframes, hspace⟩ := h
  rw [Nat.mul_add, Nat.add_mul] at hspace
  have hdir : pageDirSize ≤ 3 * pageSize := by
    unfold pageDirSize pageSize
    omega
  obtain ⟨addr, hle, hkmalloc⟩ := kmallocE_total
    (show p.placement + pageSize + pageDirSize ≤ space by omega)
  unfold State.clonePageDir
  rw [hkmalloc]
  refine ⟨_, rfl, Nat.le_of_add_right_le hframes, ?_⟩
  show addr + pageDirSize + 2 * k * pageSize ≤ space
  omega

theorem roomy_empty (mem : Memory) {frames : List (Fin (2 ^ 20))} {placement k : Nat}
    (hframes : k ≤ frames.length) (hspace : placement + 2 * k * pageSize ≤ space) :
    Roomy (State.empty mem frames placement) k := by
  refine ⟨?_, hspace⟩
  show k ≤ (frames.map _).length
  rwa [List.length_map]

/-- With enough frames, a kernel that ends at 2 MB boots on a machine of 512 MB. -/
theorem initPaging_total (mem : Memory) {frames : List (Fin (2 ^ 20))}
    (hframes : 0x20000 ≤ frames.length) :
    ∃ s, initPaging mem frames 0x200000 0x20000 = some s ∧ Roomy s.paging 0x10000 ∧
      ∀ low, 0x302 ≤ low → tableOf s.paging 0 low = none := by
  have hplacement : 0x283001 = pageUp (pageUp 0x200000 + pageDirSize) + (0x20000 * 4 + 1) := by
    decide +kernel
  have hroomy : Roomy (State.empty mem frames 0x283001) (0x414 + (0x401 + 0x10001)) :=
    roomy_empty mem (by omega) (by decide +kernel)
  have hstop : (0x283001 + pageSize * 400) % space = 0x413001 := by decide +kernel
  obtain ⟨p₁, hlow, hroomy₁⟩ := @mapPages_total _ 0 0x413001 _ kernelPages 0 (by decide +kernel) hroomy
  obtain ⟨p₂, hheap, hframes₂, hspace₂⟩ := @mapPages_total _ kheapStart
    (kheapStart + kheapSize + pageSize) 0x10001 kernelPages 0 (by decide +kernel) hroomy₁
  refine ⟨⟨{ p₂ with placement := p₂.placement + heapSize }, 1, 0, kheapSize / 4⟩, ?_,
    ⟨Nat.le_of_succ_le hframes₂, ?_⟩, fun low hfar => ?_⟩
  · rw [initPaging_eq mem frames hplacement, if_pos (by decide +kernel), hstop, hlow,
      Option.bind_some, hheap]
    rfl
  · show p₂.placement + heapSize + 2 * 0x10000 * pageSize ≤ space
    unfold heapSize
    unfold pageSize at *
    omega
  · -- neither range gets as far as the slot
    have hempty : Sharing (State.empty mem frames 0x283001) := sharing_empty mem frames (by decide)
    have hspread₁ := mapPages_spread hempty kernelPages_pos kernelPages_small hlow
    have hspread₂ := mapPages_spread hspread₁.sharing kernelPages_pos kernelPages_small hheap
    refine (hspread₂.others 0 low fun _ a ha => ?_).trans
      ((hspread₁.others 0 low fun _ a ha => ?_).trans (if_pos rfl))
    · unfold InRange pageCount kheapStart kheapSize pageSize at ha
      unfold lowIndex
      omega
    · unfold InRange pageCount pageSize at ha
      unfold lowIndex
      omega

/-- The frames of such a machine, as `init_paging` pushes them. -/
def bootFrames : List (Fin (2 ^ 20)) := (List.range 0x20001).map (Fin.ofNat (2 ^ 20))

theorem bootFrames_length : 0x20000 ≤ bootFrames.length := by
  unfold bootFrames
  rw [List.length_map, List.length_range]
  omega

/-- The boot of such a machine, then a clone and an expansion. -/
theorem heap_mapped_iff_boot :
    ∃ s, initPaging (fun _ => 0) bootFrames 0x200000 0x20000 = some s ∧
      (Always spaceStep HeapMapped s [.clone, .expand] ↔
        EveryStep spaceStep Covered s [.clone, .expand]) := by
  obtain ⟨s, hs, -⟩ := initPaging_total (fun _ => 0) bootFrames_length
  exact ⟨s, hs, heap_mapped_iff hs [.clone, .expand]⟩

/-- A directory that is not the current one has no table for the slot. -/
structure Missed (s : Spaces) (d low size k : Nat) : Prop where
  sharing : Sharing s.paging
  exists_dir : d < s.dirs
  other : d ≠ s.current
  none : tableOf s.paging d low = none
  size : s.size = size
  roomy : Roomy s.paging k

/-- What `expand` does to a heap of `size` words: where it maps, and how many pages. -/
theorem Missed.expand {s : Spaces} {d low size k start n : Nat} (hs : Missed s d low size (n + k))
    (hstart : (kheapStart + size * 4 % space) % space = start)
    (hcount : pageCount start
      ((kheapStart + size * 4 % space * 2 % space + 0x100 + 0x10000) % space) = n)
    (hfits : start + n * pageSize < space) :
    ∃ s', s.expand = some s' ∧ Missed s' d low (size * 4 % space * 2 % space / 4) k := by
  obtain ⟨hsharing, hdir, hother, hnone, rfl, hroomy⟩ := hs
  have hstart : s.mapStart = start := hstart
  subst hstart hcount
  obtain ⟨p, hmap, hroomy'⟩ := mapPages_total kernelPages s.current hfits hroomy
  have hspread := mapPages_spread hsharing kernelPages_pos kernelPages_small hmap
  refine ⟨{ s with paging := p, size := s.newSize / 4 }, ?_, hspread.sharing, hdir, hother,
    (hspread.others d low fun heq => absurd heq hother).trans hnone, rfl, hroomy'⟩
  exact Option.map_eq_some_iff.mpr ⟨p, hmap, rfl⟩

/--
**A directory that is cloned after the boot misses the second expansion of the heap.**  The
first one fits into the page table that the boot made for one page beyond the heap.
-/
theorem heap_not_mapped :
    ∃ s, initPaging (fun _ => 0) bootFrames 0x200000 0x20000 = some s ∧
      ¬ Always spaceStep HeapMapped s [.clone, .expand, .expand] := by
  obtain ⟨s, hs, hroomy, hnone⟩ := initPaging_total (fun _ => 0) bootFrames_length
  refine ⟨s, hs, fun h => ?_⟩
  obtain ⟨hdirs, hcurrent, hsize, hsharing, -⟩ := initPaging_spec hs
  -- the clone
  obtain ⟨p₁, hclone, hroomy₁⟩ := clonePageDir_total (k := 0xfffe) 0 s.dirs hroomy
  obtain ⟨hsharing₁, htable₁, -⟩ := clonePageDir_spec hsharing hclone
  have hnone₁ : tableOf p₁ 1 0x302 = none := by
    rw [htable₁, if_pos hdirs.symm, hnone 0x302 (Nat.le_refl _)]
  have hmissed₁ : Missed { s with paging := p₁, dirs := s.dirs + 1 } 1 0x302 (kheapSize / 4)
      (0x411 + (0x811 + 0xf3dc)) :=
    ⟨hsharing₁, Nat.lt_of_lt_of_eq Nat.one_lt_two (congrArg (· + 1) hdirs.symm),
      fun heq => Nat.one_ne_zero (heq.trans hcurrent), hnone₁, hsize, hroomy₁⟩
  have hstart₂ : (kheapStart + kheapSize / 4 * 4 % space) % space = 0xc0400000 := by
    decide +kernel
  obtain ⟨s₂, hstep₂, hmissed₂⟩ :=
    hmissed₁.expand hstart₂ (by decide +kernel) (by decide +kernel)
  have hstart₃ : (kheapStart +
      kheapSize / 4 * 4 % space * 2 % space / 4 * 4 % space) % space = 0xc0800000 := by
    decide +kernel
  obtain ⟨s₃, hstep₃, hmissed₃⟩ :=
    hmissed₂.expand hstart₃ (by decide +kernel) (by decide +kernel)
  have hstep₁ : spaceStep s .clone = some { s with paging := p₁, dirs := s.dirs + 1 } := by
    dsimp only [spaceStep]
    rw [hclone]
    rfl
  have hmapped := ((h.2 _ hstep₁).2 s₂ hstep₂).2 s₃ hstep₃
  have hpage := hmapped 1 hmissed₃.exists_dir 0xc0800000 (by decide +kernel) (by decide +kernel)
    (by rw [hmissed₃.size]; decide +kernel)
  obtain ⟨table, htable, -⟩ := (translates_iff hmissed₃.sharing 1 0xc0800000).mp hpage
  rw [show lowIndex 0xc0800000 = 0x302 by decide +kernel, hmissed₃.none] at htable
  cases htable

end OsThing.Paging
