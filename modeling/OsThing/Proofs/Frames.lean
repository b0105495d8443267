/-
When no frame is lost, shared or made up.

The frames that are free and the frames that entries of page tables hold are, taken
together, the frames there were at the start.  `map_page` moves one frame from the stack
into an entry, or none: `mapPage_spec`.  `free_page` should move it back, but what it
pushes is the virtual address, and the word it clears is not the entry.  So the law
holds in the runs in which it finds no page table and does nothing.

For all this the tables must not overlap, and clearing the flag bits of a pointer must
give the table back; `TablesOk` is the invariant for it.
-/
import OsThing.Lib.Runs
import OsThing.Mem.Paging
import Mathlib.Data.List.ProdSigma
import Mathlib.Data.List.Nodup
import Mathlib.Data.List.Range

namespace OsThing.Paging

open Bytes Runs

/-! ### Numbers with flags in the low bits -/

theorem pageBase_mod (a : Nat) : pageBase a % pageSize = 0 := Nat.mul_mod_left _ _

theorem pageBase_of_mod {a : Nat} (h : a % pageSize = 0) : pageBase a = a :=
  Nat.div_mul_cancel (Nat.dvd_of_mod_eq_zero h)

@[simp] theorem pageBase_pageBase (a : Nat) : pageBase (pageBase a) = pageBase a :=
  pageBase_of_mod (pageBase_mod a)

/-- Flags in the low bits do not change the page. -/
theorem pageBase_or (a : Nat) {flags : Nat} (h : flags < pageSize) :
    pageBase (a ||| flags) = pageBase a := by
  have hdiv : (a ||| flags) / pageSize = a / pageSize := by
    show (a ||| flags) / 2 ^ 12 = a / 2 ^ 12
    rw [Nat.or_div_two_pow, Nat.div_eq_of_lt (show flags < 2 ^ 12 from h), Nat.or_zero]
  unfold pageBase
  rw [hdiv]

theorem or_lt_space {a flags : Nat} (ha : a < space) (h : flags < pageSize) :
    a ||| flags < space :=
  Nat.or_lt_two_pow ha (Nat.lt_trans h (by decide))

theorem or_ne_zero {a flags : Nat} (h : 0 < flags) : a ||| flags ≠ 0 := fun hz =>
  Nat.ne_of_gt h (Nat.or_eq_zero_iff.mp hz).2

/-! ### What the tables hold -/

/-- The entry of a page: 0 if it is not mapped. -/
def entry (p : State) (i : Nat × Nat × Nat) : Nat :=
  if (p.dir i.1).tables i.2.1 = 0 then 0
  else read32 p.mem (entryAt (pageBase ((p.dir i.1).tables i.2.1)) i.2.2)

/-- The frame of a page, if it is mapped. -/
def frameOf (p : State) (i : Nat × Nat × Nat) : Option Nat :=
  if entry p i = 0 then none else some (pageBase (entry p i))

/-- All pages of `dirs` directories: directory, slot of 4 MB, page in the slot. -/
def pages (dirs : Nat) : List (Nat × Nat × Nat) :=
  List.range dirs ×ˢ (List.range 0x400 ×ˢ List.range 0x400)

/-- The frames that mapped pages hold. -/
def held (dirs : Nat) (p : State) : List Nat := (pages dirs).filterMap (frameOf p)

/-- The free and the held frames are the frames there were at the start, each once. -/
def FramesOk (dirs : Nat) (frames : List Nat) (p : State) : Prop :=
  (p.pageStack ++ held dirs p).Perm frames ∧ (p.pageStack ++ held dirs p).Nodup

theorem mem_pages {dirs : Nat} {i : Nat × Nat × Nat} :
    i ∈ pages dirs ↔ i.1 < dirs ∧ i.2.1 < 0x400 ∧ i.2.2 < 0x400 := by
  obtain ⟨d, low, high⟩ := i
  simp [pages]

theorem pages_nodup (dirs : Nat) : (pages dirs).Nodup :=
  List.nodup_range.product (List.nodup_range.product List.nodup_range)

/-- One page more is mapped. -/
theorem held_perm {dirs : Nat} {p p' : State} {i : Nat × Nat × Nat} {frame : Nat}
    (hi : i ∈ pages dirs) (hold : frameOf p i = none) (hnew : frameOf p' i = some frame)
    (hrest : ∀ j ∈ pages dirs, j ≠ i → frameOf p' j = frameOf p j) :
    (held dirs p').Perm (frame :: held dirs p) := by
  have hperm := List.perm_cons_erase hi
  have hsame : ((pages dirs).erase i).filterMap (frameOf p') =
      ((pages dirs).erase i).filterMap (frameOf p) := by
    refine List.filterMap_congr fun j hj => ?_
    have hj' := (pages_nodup dirs).mem_erase_iff.mp hj
    exact hrest j hj'.2 hj'.1
  have hleft := hperm.filterMap (frameOf p')
  have hright := hperm.filterMap (frameOf p)
  rw [List.filterMap_cons_some hnew, hsame] at hleft
  rw [List.filterMap_cons_none hold] at hright
  exact hleft.trans (hright.symm.cons frame)

/-! ### Tables that do not overlap -/

/-- The page table of a slot, if the slot has one. -/
def tableOf (p : State) (d low : Nat) : Option Nat :=
  if (p.dir d).tables low = 0 then none else some (pageBase ((p.dir d).tables low))

structure TablesOk (p : State) : Prop where
  /-- Tables lie below `placement`, -/
  below : ∀ d low table, tableOf p d low = some table → table + pageSize ≤ p.placement
  /-- and those of different slots do not overlap. -/
  apart : ∀ d low d' low' table table', tableOf p d low = some table →
    tableOf p d' low' = some table' → (d, low) ≠ (d', low') →
    table + pageSize ≤ table' ∨ table' + pageSize ≤ table
  frames : ∀ f ∈ p.pageStack, f % pageSize = 0 ∧ f < space

theorem entry_of_table {p : State} {d low high table : Nat} (h : tableOf p d low = some table) :
    entry p (d, low, high) = read32 p.mem (entryAt table high) := by
  unfold tableOf at h
  split at h
  · cases h
  · rename_i hne
    obtain rfl := Option.some.inj h
    exact if_neg hne

theorem entry_of_no_table {p : State} {d low high : Nat} (h : tableOf p d low = none) :
    entry p (d, low, high) = 0 := by
  unfold tableOf at h
  split at h
  · rename_i hz
    exact if_pos hz
  · cases h

theorem setTable_tables (p : State) (d low table d' low' : Nat) :
    ((p.setTable d low table).dir d').tables low' =
      if d' = d ∧ low' = low then table else (p.dir d').tables low' := by
  unfold State.setTable State.modifyDir
  rcases eq_or_ne d' d with rfl | hd
  · rcases eq_or_ne low' low with rfl | hlow
    · simp
    · simp [hlow]
  · simp [hd]

theorem setTableAddr_tables (p : State) (d low addr d' low' : Nat) :
    ((p.setTableAddr d low addr).dir d').tables low' = (p.dir d').tables low' := by
  unfold State.setTableAddr State.modifyDir
  rcases eq_or_ne d' d with rfl | hd
  · simp
  · simp [hd]

/-- The table a slot has when `map_page` starts to look at its entry. -/
structure TableReady (p p' : State) (d low table : Nat) : Prop where
  base : pageBase ((p'.dir d).tables low) = table
  below : table + pageSize ≤ p'.placement
  placement : p.placement ≤ p'.placement
  stack : p'.pageStack = p.pageStack
  others : ∀ d' low', (d', low') ≠ (d, low) → (p'.dir d').tables low' = (p.dir d').tables low'
  /-- No other table overlaps it, -/
  apart : ∀ d' low' table', (d', low') ≠ (d, low) → tableOf p d' low' = some table' →
    table' + pageSize ≤ table ∨ table + pageSize ≤ table'
  /-- the entries of the slot are what they were, -/
  own : ∀ high < 0x400, read32 p'.mem (entryAt table high) = entry p (d, low, high)
  /-- and so is the rest of memory. -/
  memory : ∀ a, a + 4 ≤ table ∨ table + pageSize ≤ a → read32 p'.mem a = read32 p.mem a

theorem pageUp_spec (a : Nat) : pageUp a % pageSize = 0 ∧ a ≤ pageUp a := by
  unfold pageUp
  split
  · exact ⟨by assumption, Nat.le_refl a⟩
  · refine ⟨by rw [Nat.add_mod_right, pageBase_mod], ?_⟩
    unfold pageBase pageSize
    omega

theorem kmallocE_eq {p p' : State} {size addr : Nat} (h : p.kmallocE size = some (addr, p')) :
    addr = pageUp p.placement ∧ p' = { p with placement := pageUp p.placement + size } := by
  unfold State.kmallocE at h
  dsimp only at h
  split at h
  · obtain ⟨rfl, rfl⟩ := Prod.mk.inj (Option.some.inj h)
    exact ⟨rfl, rfl⟩
  · cases h

theorem kmallocE_spec {p p' : State} {size addr : Nat} (h : p.kmallocE size = some (addr, p')) :
    addr % pageSize = 0 ∧ p.placement ≤ addr ∧ p' = { p with placement := addr + size } := by
  obtain ⟨rfl, rfl⟩ := kmallocE_eq h
  exact ⟨(pageUp_spec _).1, (pageUp_spec _).2, rfl⟩

theorem clearTable_tables (p : State) (low permissions d addr d' low' : Nat) :
    ((p.clearTable low permissions d addr).dir d').tables low' =
      if d' = d ∧ low' = low then addr else (p.dir d').tables low' := by
  unfold State.clearTable
  rw [setTableAddr_tables]
  exact setTable_tables p d low addr d' low'

theorem entryAt_inside (table : Nat) {high : Nat} (h : high < 0x400) :
    table ≤ entryAt table high ∧ entryAt table high + 4 ≤ table + pageSize := by
  unfold entryAt pageSize
  omega

theorem ensureTable_ready {p p' : State} {low permissions d : Nat} (hp : TablesOk p)
    (h : p.ensureTable low permissions d = some p') :
    ∃ table, TableReady p p' d low table := by
  unfold State.ensureTable at h
  split at h
  · rename_i hnone
    -- a new table, above all others
    obtain ⟨⟨addr, p₁⟩, hkmalloc, rfl⟩ := Option.map_eq_some_iff.mp h
    obtain ⟨hmod, hle, rfl⟩ := kmallocE_spec hkmalloc
    have hold : tableOf p d low = none := if_pos hnone
    refine ⟨addr, ?_, Nat.le_refl _, Nat.le_trans hle (Nat.le_add_right addr _), rfl,
      fun d' low' hne => ?_, fun d' low' table' _ htable => ?_, fun high hhigh => ?_,
      fun a ha => read32_fill_apart _ _ (by omega)⟩
    · rw [clearTable_tables, if_pos ⟨rfl, rfl⟩, pageBase_of_mod hmod]
    · rw [clearTable_tables, if_neg fun heq => hne (Prod.ext heq.1 heq.2)]
    · exact Or.inl (Nat.le_trans (hp.below d' low' table' htable) hle)
    · obtain ⟨hlo, hhi⟩ := entryAt_inside addr hhigh
      rw [entry_of_no_table hold]
      exact read32_fill_zero _ hlo hhi
  · rename_i hsome
    obtain rfl := Option.some.inj h
    have htable : tableOf p d low = some (pageBase ((p.dir d).tables low)) := if_neg hsome
    refine ⟨_, rfl, hp.below d low _ htable, Nat.le_refl _, rfl, fun _ _ _ => rfl,
      fun d' low' table' hne htable' => hp.apart d' low' d low _ _ htable' htable hne,
      fun high _ => (entry_of_table htable).symm, fun _ _ => rfl⟩

/-! ### Filling an entry -/

/-- What `fillEntry` does to the entry at `e`: it takes a frame if there is none. -/
structure Filled (p p' : State) (e flags : Nat) : Prop where
  dir : p'.dir = p.dir
  placement : p'.placement = p.placement
  entry : (read32 p.mem e = 0 ∧ ∃ frame, p.pageStack = frame :: p'.pageStack ∧
      (frame < space → read32 p'.mem e = frame ||| flags)) ∨
    (read32 p.mem e ≠ 0 ∧ p'.pageStack = p.pageStack ∧ read32 p'.mem e = read32 p.mem e ||| flags)
  memory : ∀ a, a + 4 ≤ e ∨ e + 4 ≤ a → read32 p'.mem a = read32 p.mem a

theorem fillEntry_spec {p p' : State} {e flags : Nat} (hflags : flags < pageSize)
    (h : p.fillEntry e flags = some p') : Filled p p' e flags := by
  unfold State.fillEntry at h
  obtain ⟨p₁, hfilled, rfl⟩ := Option.map_eq_some_iff.mp h
  dsimp only at hfilled
  split at hfilled
  · rename_i hzero
    obtain ⟨⟨frame, p₂⟩, hpop, rfl⟩ := Option.map_eq_some_iff.mp hfilled
    obtain ⟨rest, hstack, rfl⟩ : ∃ rest, p.pageStack = frame :: rest ∧
        p₂ = { p with pageStack := rest } := by
      unfold State.popPage at hpop
      split at hpop
      · cases hpop
      · rename_i top rest hstack
        obtain ⟨rfl, rfl⟩ := Prod.mk.inj (Option.some.inj hpop)
        exact ⟨rest, hstack, rfl⟩
    refine ⟨rfl, rfl, Or.inl ⟨hzero, frame, hstack, fun hlt => ?_⟩, fun a ha => ?_⟩
    · have hword := read32_write32 p.mem e hlt
      dsimp only
      rw [hword]
      exact read32_write32 _ e (or_lt_space hlt hflags)
    · exact (read32_write32_apart _ _ (by omega)).trans (read32_write32_apart _ _ (by omega))
  · rename_i hne
    obtain rfl := Option.some.inj hfilled
    refine ⟨rfl, rfl, Or.inr ⟨hne, rfl, ?_⟩, fun a ha => read32_write32_apart _ _ (by omega)⟩
    exact read32_write32 _ e (or_lt_space (read32_lt p.mem e) hflags)

/-! ### Mapping a page -/

/-- `map_page` makes sure of a table, and fills an entry of it. -/
theorem mapPage_filled {p p' : State} {address flags d : Nat} (hsmall : flags < pageSize)
    (h : p.mapPage address flags d = some p') :
    ∃ p₁, p.ensureTable (address / 2 ^ 22) flags d = some p₁ ∧
      ∀ table, pageBase ((p₁.dir d).tables (address / 2 ^ 22)) = table →
        ∃ p₃, Filled (p₁.setTable d (address / 2 ^ 22) table) p₃
            (entryAt table (address / 2 ^ 12 % 0x400)) flags ∧
          p' = p₃.setTable d (address / 2 ^ 22) (table ||| flags) := by
  unfold State.mapPage at h
  obtain ⟨p₁, hensure, h⟩ := Option.bind_eq_some_iff.mp h
  refine ⟨p₁, hensure, fun table hbase => ?_⟩
  dsimp only at h
  rw [hbase] at h
  obtain ⟨p₃, hfill, rfl⟩ := Option.map_eq_some_iff.mp h
  exact ⟨p₃, fillEntry_spec hsmall hfill, rfl⟩

/-- The page that an address is on. -/
def pageAt (address d : Nat) : Nat × Nat × Nat := (d, address / 2 ^ 22, address / 2 ^ 12 % 0x400)

/-- What mapping the page `i` leaves: every other page is as it was, and `i` took a frame
off the stack if it had none. -/
structure Mapped (p p' : State) (i : Nat × Nat × Nat) : Prop where
  tables : TablesOk p'
  others : ∀ j, j.2.2 < 0x400 → j ≠ i → frameOf p' j = frameOf p j
  moved : (frameOf p i = none ∧ ∃ frame, p.pageStack = frame :: p'.pageStack ∧
      frameOf p' i = some frame) ∨
    (p'.pageStack = p.pageStack ∧ frameOf p' i = frameOf p i)

/-- The tables after `map_page`: the slot has its table, and the other slots have theirs. -/
theorem tableOf_mapped {p p₁ p₃ : State} {d low table flags : Nat}
    (hready : TableReady p p₁ d low table) (hdir : p₃.dir = (p₁.setTable d low table).dir)
    (hflags : 0 < flags) (hsmall : flags < pageSize) (d' low' : Nat) :
    tableOf (p₃.setTable d low (table ||| flags)) d' low' =
      if (d', low') = (d, low) then some table else tableOf p d' low' := by
  have htables : ((p₃.setTable d low (table ||| flags)).dir d').tables low' =
      if (d', low') = (d, low) then table ||| flags else (p.dir d').tables low' := by
    rw [setTable_tables, hdir, setTable_tables]
    by_cases heq : d' = d ∧ low' = low
    · rw [if_pos heq, if_pos (Prod.ext heq.1 heq.2)]
    · have hne : (d', low') ≠ (d, low) := fun hpair => heq (Prod.mk.inj hpair)
      rw [if_neg heq, if_neg heq, if_neg hne, hready.others d' low' hne]
  unfold tableOf
  rw [htables]
  by_cases heq : (d', low') = (d, low)
  · rw [if_pos heq, if_pos heq, if_neg (or_ne_zero hflags), pageBase_or _ hsmall,
      ← hready.base, pageBase_pageBase]
  · rw [if_neg heq, if_neg heq]

/-- After `map_page` the tables still do not overlap. -/
theorem tablesOk_mapped {p p₁ p₃ : State} {d low table flags e : Nat} (hp : TablesOk p)
    (hready : TableReady p p₁ d low table) (hfilled : Filled (p₁.setTable d low table) p₃ e flags)
    (hflags : 0 < flags) (hsmall : flags < pageSize) :
    TablesOk (p₃.setTable d low (table ||| flags)) := by
  have htable := tableOf_mapped hready hfilled.dir hflags hsmall
  have hplacement : p₃.placement = p₁.placement := hfilled.placement
  refine ⟨fun d' low' t ht => ?_, fun d' low' d'' low'' t t' ht ht' hne => ?_, fun f hf => ?_⟩
  · show t + pageSize ≤ p₃.placement
    rw [hplacement]
    rw [htable] at ht
    split at ht
    · obtain rfl := Option.some.inj ht
      exact hready.below
    · exact Nat.le_trans (hp.below d' low' t ht) hready.placement
  · rw [htable] at ht ht'
    split at ht
    · rename_i heq
      obtain rfl := Option.some.inj ht
      have hne' : (d'', low'') ≠ (d, low) := fun heq' => hne (heq.trans heq'.symm)
      rw [if_neg hne'] at ht'
      exact (hready.apart d'' low'' t' hne' ht').symm
    · rename_i hne₁
      split at ht'
      · obtain rfl := Option.some.inj ht'
        exact hready.apart d' low' t hne₁ ht
      · exact hp.apart d' low' d'' low'' t t' ht ht' hne
  · have hf : f ∈ p₃.pageStack := hf
    refine hp.frames f ?_
    rw [← hready.stack]
    rcases hfilled.entry with ⟨-, frame, hstack, -⟩ | ⟨-, hstack, -⟩
    · exact (show p₁.pageStack = frame :: p₃.pageStack from hstack) ▸ List.mem_cons_of_mem frame hf
    · exact (show p₃.pageStack = p₁.pageStack from hstack) ▸ hf

/-- After `map_page` every other page has the entry it had. -/
theorem entry_mapped {p p₁ p₃ : State} {d low high table flags : Nat}
    (hready : TableReady p p₁ d low table)
    (hfilled : Filled (p₁.setTable d low table) p₃ (entryAt table high) flags)
    (hhigh : high < 0x400) (hflags : 0 < flags) (hsmall : flags < pageSize)
    (j : Nat × Nat × Nat) (hj : j.2.2 < 0x400) (hne : j ≠ (d, low, high)) :
    entry (p₃.setTable d low (table ||| flags)) j = entry p j := by
  obtain ⟨d', low', high'⟩ := j
  have htable := tableOf_mapped hready hfilled.dir hflags hsmall d' low'
  obtain ⟨hlo, hhi⟩ := entryAt_inside table hhigh
  by_cases heq : (d', low') = (d, low)
  · -- another entry of the same table
    rw [if_pos heq] at htable
    obtain ⟨rfl, rfl⟩ := Prod.mk.inj heq
    have hhne : high' ≠ high := fun hh => hne (by rw [hh])
    rw [entry_of_table htable, ← hready.own high' hj]
    refine hfilled.memory _ ?_
    unfold entryAt
    omega
  · rw [if_neg heq] at htable
    rcases hold : tableOf p d' low' with _ | table'
    · rw [entry_of_no_table hold, entry_of_no_table (htable.trans hold)]
    · obtain ⟨hlo', hhi'⟩ := entryAt_inside table' (show high' < 0x400 from hj)
      have happart := hready.apart d' low' table' heq hold
      rw [entry_of_table hold, entry_of_table (htable.trans hold)]
      refine (hfilled.memory _ ?_).trans (hready.memory _ ?_)
      · omega
      · omega

/-- **`map_page` moves at most one frame, from the stack to the page it maps.** -/
theorem mapPage_spec {p p' : State} {address flags d : Nat} (hp : TablesOk p)
    (hflags : 0 < flags) (hsmall : flags < pageSize) (h : p.mapPage address flags d = some p') :
    Mapped p p' (pageAt address d) := by
  have hhigh : address / 2 ^ 12 % 0x400 < 0x400 := Nat.mod_lt _ (by omega)
  obtain ⟨p₁, hensure, hfill⟩ := mapPage_filled hsmall h
  obtain ⟨table, hready⟩ := ensureTable_ready hp hensure
  obtain ⟨p₃, hfilled, rfl⟩ := hfill table hready.base
  have hself := tableOf_mapped hready hfilled.dir hflags hsmall d (address / 2 ^ 22)
  rw [if_pos rfl] at hself
  have hold := hready.own _ hhigh
  refine ⟨tablesOk_mapped hp hready hfilled hflags hsmall, fun j hj hne => ?_, ?_⟩
  · unfold frameOf
    rw [entry_mapped hready hfilled hhigh hflags hsmall j hj hne]
  · unfold frameOf pageAt
    rw [entry_of_table hself, ← hold]
    rcases hfilled.entry with ⟨hzero, frame, hstack, hframe⟩ | ⟨hne, hstack, hword⟩
    · left
      have hstack : p.pageStack = frame :: p₃.pageStack := hready.stack ▸ hstack
      obtain ⟨hmod, hlt⟩ := hp.frames frame (hstack ▸ List.mem_cons_self)
      refine ⟨if_pos hzero, frame, hstack, ?_⟩
      show (if read32 p₃.mem _ = 0 then none else some (pageBase (read32 p₃.mem _))) = some frame
      rw [hframe hlt, if_neg (or_ne_zero hflags), pageBase_or _ hsmall, pageBase_of_mod hmod]
    · right
      have hne : read32 p₁.mem (entryAt table (address / 2 ^ 12 % 0x400)) ≠ 0 := hne
      refine ⟨hready.stack ▸ hstack, ?_⟩
      show (if read32 p₃.mem _ = 0 then none else some (pageBase (read32 p₃.mem _))) = _
      rw [hword, if_neg (or_ne_zero hflags), pageBase_or _ hsmall, if_neg hne]
      rfl

/-- The memory from the end of the tables on stays as it is. -/
theorem mapPage_memory {p p' : State} {address flags d : Nat} (hp : TablesOk p)
    (hsmall : flags < pageSize) (h : p.mapPage address flags d = some p') :
    p.placement ≤ p'.placement ∧ ∀ a, p'.placement ≤ a → read32 p'.mem a = read32 p.mem a := by
  have hhigh : address / 2 ^ 12 % 0x400 < 0x400 := Nat.mod_lt _ (by omega)
  obtain ⟨p₁, hensure, hfill⟩ := mapPage_filled hsmall h
  obtain ⟨table, hready⟩ := ensureTable_ready hp hensure
  obtain ⟨p₃, hfilled, rfl⟩ := hfill table hready.base
  have hplacement : p₃.placement = p₁.placement := hfilled.placement
  have hbelow := hready.below
  obtain ⟨-, hentry⟩ := entryAt_inside table hhigh
  refine ⟨hready.placement.trans hplacement.ge, fun a ha => ?_⟩
  have ha : p₁.placement ≤ a := hplacement ▸ ha
  exact (hfilled.memory a (by omega)).trans (hready.memory a (by omega))

/-! ### A run -/

/-- No page of empty directories is mapped. -/
theorem held_empty (mem : Memory) (frames : List (Fin (2 ^ 20))) (placement dirs : Nat) :
    held dirs (State.empty mem frames placement) = [] := by
  unfold held
  refine List.filterMap_eq_nil_iff.mpr fun i _ => ?_
  exact if_pos (if_pos rfl)

theorem tablesOk_empty (mem : Memory) (frames : List (Fin (2 ^ 20))) (placement : Nat) :
    TablesOk (State.empty mem frames placement) := by
  have hnone : ∀ d low, tableOf (State.empty mem frames placement) d low = none :=
    fun _ _ => if_pos rfl
  refine ⟨fun d low table h => ?_, fun d low d' low' table table' h => ?_, fun f hf => ?_⟩
  · rw [hnone] at h
    cases h
  · rw [hnone] at h
    cases h
  · obtain ⟨frame, -, rfl⟩ := List.mem_map.mp hf
    refine ⟨Nat.mul_mod_left _ _, ?_⟩
    show frame.val * 2 ^ 12 < 2 ^ 20 * 2 ^ 12
    exact Nat.mul_lt_mul_of_pos_right frame.isLt (by omega)

theorem framesOk_empty (mem : Memory) {frames : List (Fin (2 ^ 20))} (placement dirs : Nat)
    (hframes : frames.Nodup) :
    FramesOk dirs (frames.map fun f => f.val * pageSize) (State.empty mem frames placement) := by
  unfold FramesOk
  rw [held_empty, List.append_nil]
  refine ⟨List.Perm.refl _, hframes.map fun f g hfg => ?_⟩
  exact Fin.ext (Nat.eq_of_mul_eq_mul_right (by decide : 0 < pageSize) hfg)

theorem pageAt_mem {address d dirs : Nat} (haddress : address < space) (hd : d < dirs) :
    pageAt address d ∈ pages dirs := by
  refine mem_pages.mpr ⟨hd, ?_, Nat.mod_lt _ (by omega)⟩
  exact Nat.div_lt_of_lt_mul haddress

/-- A mapped page keeps the law: what left the stack is in the entry. -/
theorem framesOk_mapped {dirs : Nat} {frames : List Nat} {p p' : State} {i : Nat × Nat × Nat}
    (hi : i ∈ pages dirs) (hok : FramesOk dirs frames p) (hmapped : Mapped p p' i) :
    FramesOk dirs frames p' := by
  have hothers : ∀ j ∈ pages dirs, j ≠ i → frameOf p' j = frameOf p j := fun j hj hne =>
    hmapped.others j (mem_pages.mp hj).2.2 hne
  have hperm : (p'.pageStack ++ held dirs p').Perm (p.pageStack ++ held dirs p) := by
    rcases hmapped.moved with ⟨hold, frame, hstack, hnew⟩ | ⟨hstack, hsame⟩
    · rw [hstack]
      exact ((held_perm hi hold hnew hothers).append_left p'.pageStack).trans
        List.perm_middle
    · have hheld : held dirs p' = held dirs p := by
        refine List.filterMap_congr fun j hj => ?_
        by_cases heq : j = i
        · rw [heq, hsame]
        · exact hothers j hj heq
      rw [hstack, hheld]
  exact ⟨hperm.trans hok.1, hperm.nodup_iff.mpr hok.2⟩

/-- `free_page` is given an address for whose 4 MB the directory has no page table. -/
def FreesNothing (p : State) : PageOp → State → Prop
  | .freePage address dir, _ => (p.dir dir).tables (address / 2 ^ 22) = 0
  | .mapPage .., _ => True

theorem pageStep_keeps {dirs : Nat} {frames : List Nat} (p : State) (op : PageOp) (p' : State)
    (hp : TablesOk p ∧ FramesOk dirs frames p) (hstep : pageStep dirs p op = some p')
    (hfree : FreesNothing p op p') : TablesOk p' ∧ FramesOk dirs frames p' := by
  cases op with
  | mapPage address permissions dir =>
      dsimp only [pageStep] at hstep
      split at hstep
      · rename_i hargs
        obtain ⟨haddress, hdir, hpos, hsmall⟩ := hargs
        have hmapped := mapPage_spec hp.1 hpos hsmall hstep
        exact ⟨hmapped.tables, framesOk_mapped (pageAt_mem haddress hdir) hp.2 hmapped⟩
      · cases hstep
  | freePage address dir =>
      dsimp only [pageStep] at hstep
      split at hstep
      · obtain rfl := Option.some.inj hstep
        rw [show p.freePage address dir = p from if_pos hfree]
        exact hp
      · cases hstep

/--
**No frame is lost, shared or invented, as long as `free_page` finds no page table.**  From
distinct frames and empty directories, in every run of `map_page` and `free_page`.
-/
theorem frames_kept (mem : Memory) (frames : List (Fin (2 ^ 20))) (placement dirs : Nat)
    (ops : List PageOp) (hframes : frames.Nodup)
    (hfree : EveryStep (pageStep dirs) FreesNothing (State.empty mem frames placement) ops) :
    Always (pageStep dirs) (FramesOk dirs (frames.map fun f => f.val * pageSize))
      (State.empty mem frames placement) ops :=
  Always.mono (fun _ hp => hp.2) (always_of_inv pageStep_keeps
    ⟨tablesOk_empty mem frames placement, framesOk_empty mem placement dirs hframes⟩ hfree)

/-- Two pages of one table, and a free of an address further up. -/
theorem frames_kept_two :
    Always (pageStep 1) (FramesOk 1 ([5, 6].map fun f : Fin (2 ^ 20) => f.val * pageSize))
      (State.empty (fun _ => 0) [5, 6] 0x200000)
      [.mapPage 0xd0000000 7 0, .mapPage 0xd0001000 7 0, .freePage 0xe0000000 0] := by
  refine frames_kept (fun _ => 0) [5, 6] 0x200000 1 _ (by decide) ?_
  intro p₁ h₁
  obtain rfl := Option.some.inj h₁
  refine ⟨trivial, fun p₂ h₂ => ⟨trivial, fun p₃ _ => ⟨?_, trivial⟩⟩⟩
  obtain rfl := Option.some.inj h₂
  rfl

/--
**A page that is mapped and freed again leaves a frame on the stack that is its virtual
address.**
-/
theorem frame_invented :
    ¬ Always (pageStep 1) (FramesOk 1 ([5].map fun f : Fin (2 ^ 20) => f.val * pageSize))
      (State.empty (fun _ => 0) [5] 0x200000)
      [.mapPage 0xd0000000 7 0, .freePage 0xd0000000 0] := by
  intro h
  have hok := (h.2 _ rfl).2 _ rfl
  have hmem : 0xd0000000 ∈ [5].map fun f : Fin (2 ^ 20) => f.val * pageSize :=
    hok.1.mem_iff.mp (List.mem_append_left _ List.mem_cons_self)
  revert hmem
  decide

end OsThing.Paging
