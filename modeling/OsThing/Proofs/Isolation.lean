/-
What a process maps, no other one can see.

A clone has the tables of `kernel_dir` as they were, by reference, and gets tables of its
own for the slots in between.  `map_page` writes into one table: the one of the slot, or a
new one.  As long as nobody else has that table, nobody else sees the page.

`Isolated` is the invariant: in the slots of `kernel_dir` every directory has the pointer of
`kernel_dir`, and a table in any other slot is the table of this slot of this directory only.
-/
import OsThing.Lib.Runs
import OsThing.Mem.Tables
import OsThing.Proofs.AddressSpaces

namespace OsThing.Paging

open Bytes Runs

/-- The block is a page that no directory has for a table. -/
structure Fresh (s : Spaces) (block : Block) : Prop where
  aligned : block.addr % pageSize = 0
  pos : 0 < block.addr
  apart : ∀ d < s.dirs, ∀ low, tableOf s.paging d low ≠ some block.addr

/-- `kmalloc` keeps its promise: what it hands out for a table is fresh. -/
def Handed (s : Spaces) : CloneOp → Prop
  | .clone => True
  | .mapPage address _ d block =>
      tableOf s.paging d (address / 2 ^ 22) = none → Fresh s block

/-- A `map_page` changes `get_page` in no other directory. -/
def Unseen (s : Spaces) (op : CloneOp) (s' : Spaces) : Prop :=
  ∀ address permissions d block, op = .mapPage address permissions d block →
    ∀ d' < s.dirs, d' ≠ d → ∀ a, s'.paging.getPage a d' = s.paging.getPage a d'

/-- Where `kernel_dir` has a table, all directories agree with it. -/
def Agrees (s : Spaces) : Prop :=
  ∀ d < s.dirs, ∀ a, (s.paging.dir 0).tables (a / 2 ^ 22) ≠ 0 →
    s.paging.getPage a d = s.paging.getPage a 0

structure Isolated (s : Spaces) : Prop where
  kernel : 0 < s.dirs
  shared : ∀ d < s.dirs, ∀ low, (s.paging.dir 0).tables low ≠ 0 →
    (s.paging.dir d).tables low = (s.paging.dir 0).tables low
  own : ∀ d < s.dirs, ∀ low table, (s.paging.dir 0).tables low = 0 →
    tableOf s.paging d low = some table → 0 < table ∧
    ∀ d' < s.dirs, ∀ low', tableOf s.paging d' low' = some table → d' = d ∧ low' = low

/-! ### One page -/

/-- `get_page` in terms of the table of the slot. -/
theorem getPage_of_table {p : State} {d a : Nat} :
    p.getPage a d = (tableOf p d (a / 2 ^ 22)).elim 0 fun table =>
      if table = 0 then 0 else read32 p.mem (entryAt table (a / 2 ^ 12 % 0x400)) := by
  unfold State.getPage tableOf
  dsimp only
  by_cases hnull : (p.dir d).tables (a / 2 ^ 22) = 0
  · rw [if_pos hnull, hnull, if_pos (by rfl)]
    rfl
  · rw [if_neg hnull]
    rfl

theorem tableOf_eq_none {p : State} {d low : Nat} :
    tableOf p d low = none ↔ (p.dir d).tables low = 0 := by
  unfold tableOf
  split
  · exact iff_of_true rfl ‹_›
  · exact iff_of_false (Option.some_ne_none _) ‹_›

/-- What `map_page` writes: the pointer of the slot, and its table. -/
structure Entered (p p' : State) (d low table : Nat) : Prop where
  others : ∀ d' low', ¬ (d' = d ∧ low' = low) → (p'.dir d').tables low' = (p.dir d').tables low'
  own : tableOf p' d low = some table
  memory : ∀ a, a + 4 ≤ table ∨ table + pageSize ≤ a → read32 p'.mem a = read32 p.mem a

theorem Entered.tableOf {p p' : State} {d low table d' low' : Nat} (h : Entered p p' d low table)
    (hne : ¬ (d' = d ∧ low' = low)) : Paging.tableOf p' d' low' = Paging.tableOf p d' low' := by
  unfold Paging.tableOf
  rw [h.others d' low' hne]

theorem Entered.trans {p p₁ p₂ : State} {d low table : Nat} (h : Entered p p₁ d low table)
    (h' : Entered p₁ p₂ d low table) : Entered p p₂ d low table where
  others d' low' hne := (h'.others d' low' hne).trans (h.others d' low' hne)
  own := h'.own
  memory a ha := (h'.memory a ha).trans (h.memory a ha)

/-- A new table for the slot. -/
theorem placeTable_entered (p : State) (low permissions d : Nat) {block : Block}
    (haligned : block.addr % pageSize = 0) (hpos : 0 < block.addr) :
    Entered p (p.placeTable low permissions d block) d low block.addr := by
  have htables : ∀ d' low', ((p.placeTable low permissions d block).dir d').tables low' =
      if d' = d ∧ low' = low then block.addr else (p.dir d').tables low' := by
    intro d' low'
    unfold State.placeTable
    rw [setTableAddr_tables]
    exact setTable_tables p d low block.addr d' low'
  refine ⟨fun d' low' hne => ?_, ?_, fun a ha => read32_fill_apart _ _ ha.symm⟩
  · rw [htables, if_neg hne]
  · unfold Paging.tableOf
    rw [htables, if_pos (show d = d ∧ low = low from ⟨rfl, rfl⟩), if_neg (Nat.ne_of_gt hpos),
      pageBase_of_mod haligned]

/-- The entry is filled, and the pointer gets its flags. -/
theorem enterPage_entered {p p' : State} {low high permissions d table : Nat}
    (hsmall : permissions < pageSize) (hhigh : high < 0x400)
    (htable : Paging.tableOf p d low = some table) (hpos : 0 < table)
    (h : p.enterPage low high permissions d = some p') : Entered p p' d low table := by
  obtain ⟨hne, hbase⟩ := tableOf_eq_some htable
  unfold State.enterPage at h
  rw [hbase] at h
  obtain ⟨p₁, hfill, rfl⟩ := Option.map_eq_some_iff.mp h
  have hfilled := fillEntry_spec hsmall hfill
  obtain ⟨hlo, hhi⟩ := entryAt_inside table hhigh
  have hflagged : table ||| permissions ≠ 0 := fun hzero =>
    Nat.ne_of_gt hpos (Nat.or_eq_zero_iff.mp hzero).1
  refine ⟨fun d' low' hother => ?_, ?_, fun a ha => ?_⟩
  · rw [setTable_tables, if_neg hother, hfilled.dir, setTable_tables, if_neg hother]
  · unfold Paging.tableOf
    rw [setTable_tables, if_pos (show d = d ∧ low = low from ⟨rfl, rfl⟩), if_neg hflagged,
      pageBase_or _ hsmall, ← hbase, pageBase_pageBase]
  · exact hfilled.memory a (by omega)

/-- **What `map_page` writes**, wherever the table comes from. -/
theorem mapPageFrom_entered {p p' : State} {address permissions d : Nat} {block : Block}
    (hsmall : permissions < pageSize)
    (hown : ∀ table, Paging.tableOf p d (address / 2 ^ 22) = some table → 0 < table)
    (hblock : Paging.tableOf p d (address / 2 ^ 22) = none →
      block.addr % pageSize = 0 ∧ 0 < block.addr)
    (h : p.mapPageFrom (fun p => some (block, p)) address permissions d = some p') :
    ∃ table, Entered p p' d (address / 2 ^ 22) table ∧
      (Paging.tableOf p d (address / 2 ^ 22) = some table ∨
        Paging.tableOf p d (address / 2 ^ 22) = none ∧ table = block.addr) := by
  have hhigh : address / 2 ^ 12 % 0x400 < 0x400 := Nat.mod_lt _ (by omega)
  unfold State.mapPageFrom at h
  dsimp only at h
  rcases htable : Paging.tableOf p d (address / 2 ^ 22) with _ | table
  · obtain ⟨haligned, hpos⟩ := hblock htable
    rw [if_pos (tableOf_eq_none.mp htable), Option.map_some, Option.bind_some] at h
    have hplaced := placeTable_entered p (address / 2 ^ 22) permissions d haligned hpos
    have hentered := enterPage_entered hsmall hhigh hplaced.own hpos h
    exact ⟨block.addr, hplaced.trans hentered, Or.inr ⟨rfl, rfl⟩⟩
  · obtain ⟨hne, -⟩ := tableOf_eq_some htable
    rw [if_neg hne, Option.bind_some] at h
    exact ⟨table, enterPage_entered hsmall hhigh htable (hown table htable) h, Or.inl rfl⟩

theorem tableOf_aligned {p : State} {d low table : Nat} (h : tableOf p d low = some table) :
    table % pageSize = 0 :=
  (tableOf_eq_some h).2 ▸ pageBase_mod _

/-- Whoever does not have the table sees nothing of it. -/
theorem Entered.getPage {p p' : State} {d low table d' a : Nat} (h : Entered p p' d low table)
    (hne : d' ≠ d) (hapart : Paging.tableOf p d' (a / 2 ^ 22) ≠ some table) :
    p'.getPage a d' = p.getPage a d' := by
  have hhigh : a / 2 ^ 12 % 0x400 < 0x400 := Nat.mod_lt _ (by omega)
  rw [getPage_of_table, getPage_of_table, h.tableOf fun heq => hne heq.1]
  rcases htable : Paging.tableOf p d' (a / 2 ^ 22) with _ | table'
  · rfl
  · have haligned := tableOf_aligned h.own
    have haligned' := tableOf_aligned htable
    have hdiff : table' ≠ table := fun heq => hapart (heq ▸ htable)
    obtain ⟨hlo, hhi⟩ := entryAt_inside table' hhigh
    have hmem := h.memory (entryAt table' (a / 2 ^ 12 % 0x400)) (by
      unfold pageSize at *
      omega)
    rw [Option.elim_some, Option.elim_some, hmem]

/-! ### A run -/

/-- A `map_page` on a clone, and whose the table it writes was before. -/
theorem mapPage_step {s s' : Spaces} {address permissions d : Nat} {block : Block}
    (hs : Isolated s) (hstep : cloneStep s (.mapPage address permissions d block) = some s')
    (hhanded : Handed s (.mapPage address permissions d block)) :
    0 < d ∧ s'.dirs = s.dirs ∧ (s.paging.dir 0).tables (address / 2 ^ 22) = 0 ∧
      ∃ table, 0 < table ∧ Entered s.paging s'.paging d (address / 2 ^ 22) table ∧
        ∀ d' < s.dirs, ∀ low, tableOf s.paging d' low = some table →
          d' = d ∧ low = address / 2 ^ 22 := by
  obtain ⟨⟨-, hsmall, hpos, hd, hempty⟩, hstep⟩ := Option.ite_none_right_eq_some.mp hstep
  obtain ⟨p', hmap, rfl⟩ := Option.map_eq_some_iff.mp hstep
  have hfresh := fun hnone => hhanded hnone
  obtain ⟨table, hentered, horigin⟩ := mapPageFrom_entered hsmall
    (fun table htable => (hs.own d hd _ table hempty htable).1)
    (fun hnone => ⟨(hfresh hnone).aligned, (hfresh hnone).pos⟩) hmap
  refine ⟨hpos, rfl, hempty, table, ?_, hentered, ?_⟩
  · rcases horigin with hold | ⟨hnone, rfl⟩
    · exact (hs.own d hd _ table hempty hold).1
    · exact (hfresh hnone).pos
  · intro d' hd' low htable
    rcases horigin with hold | ⟨hnone, rfl⟩
    · exact (hs.own d hd _ table hempty hold).2 d' hd' low htable
    · exact absurd htable ((hfresh hnone).apart d' hd' low)

/-- What `clone_page_dir` changes: there is one directory more, a copy. -/
theorem clonePageDir_dir {p p' : State} {src new : Nat} (h : p.clonePageDir src new = some p') :
    p'.mem = p.mem ∧ p.placement ≤ p'.placement ∧
      ∀ d, p'.dir d = if d = new then (p.dir src).copy else p.dir d := by
  unfold State.clonePageDir at h
  obtain ⟨⟨addr, p₁⟩, hkmalloc, rfl⟩ := Option.map_eq_some_iff.mp h
  obtain ⟨-, hle, rfl⟩ := kmallocE_spec hkmalloc
  refine ⟨rfl, Nat.le_trans hle (Nat.le_add_right _ _), fun d => ?_⟩
  dsimp only
  by_cases hd : d = new
  · rw [if_pos hd, hd, Function.update_self]
  · rw [if_neg hd, Function.update_of_ne hd]

/-- The tables of all directories after a clone of `kernel_dir`. -/
theorem clone_step {s s' : Spaces} (hstep : cloneStep s .clone = some s') :
    s'.dirs = s.dirs + 1 ∧ ∀ d, (s'.paging.dir d).tables =
      if d = s.dirs then (s.paging.dir 0).tables else (s.paging.dir d).tables := by
  unfold cloneStep at hstep
  obtain ⟨p', hclone, rfl⟩ := Option.map_eq_some_iff.mp hstep
  obtain ⟨-, -, hdir⟩ := clonePageDir_dir hclone
  refine ⟨rfl, fun d => ?_⟩
  rw [hdir]
  split
  · rfl
  · rfl

/-- A clone has the tables of `kernel_dir`, and all others the tables they had. -/
theorem Isolated.clone {s s' : Spaces} (hs : Isolated s) (hstep : cloneStep s .clone = some s') :
    Isolated s' := by
  obtain ⟨hdirs, htables⟩ := clone_step hstep
  have hkernel : (s'.paging.dir 0).tables = (s.paging.dir 0).tables := by
    rw [htables, if_neg (Nat.ne_of_lt hs.kernel)]
  have hnew : ∀ low, tableOf s'.paging s.dirs low = tableOf s.paging 0 low := by
    intro low
    unfold tableOf
    rw [htables, if_pos rfl]
  have hold : ∀ d, d ≠ s.dirs → ∀ low, tableOf s'.paging d low = tableOf s.paging d low := by
    intro d hd low
    unfold tableOf
    rw [htables, if_neg hd]
  refine ⟨by omega, fun d hd low hlow => ?_, fun d hd low table hlow htable => ?_⟩
  · rw [hkernel] at hlow ⊢
    rw [htables]
    split
    · rfl
    · exact hs.shared d (by omega) low hlow
  · rw [hkernel] at hlow
    -- the new directory has no table of its own
    have hd' : d ≠ s.dirs := by
      rintro rfl
      rw [hnew, tableOf_eq_none.mpr hlow] at htable
      cases htable
    rw [hold d hd'] at htable
    obtain ⟨hpos, hown⟩ := hs.own d (by omega) low table hlow htable
    refine ⟨hpos, fun d₁ hd₁ low₁ htable₁ => ?_⟩
    by_cases hd₁' : d₁ = s.dirs
    · rw [hd₁', hnew] at htable₁
      obtain ⟨rfl, rfl⟩ := hown 0 hs.kernel low₁ htable₁
      rw [tableOf_eq_none.mpr hlow] at htable
      cases htable
    · rw [hold d₁ hd₁'] at htable₁
      exact hown d₁ (by omega) low₁ htable₁

theorem Isolated.mapPage {s s' : Spaces} {address permissions d : Nat} {block : Block}
    (hs : Isolated s) (hstep : cloneStep s (.mapPage address permissions d block) = some s')
    (hhanded : Handed s (.mapPage address permissions d block)) : Isolated s' := by
  obtain ⟨hd, hdirs, hempty, table, hpos, hentered, hown⟩ := mapPage_step hs hstep hhanded
  have hkernel : (s'.paging.dir 0).tables = (s.paging.dir 0).tables :=
    funext fun low => hentered.others 0 low fun heq => Nat.ne_of_lt hd heq.1
  refine ⟨by rw [hdirs]; exact hs.kernel, fun d₁ hd₁ low hlow => ?_, fun d₁ hd₁ low t hlow ht => ?_⟩
  · rw [hkernel] at hlow ⊢
    rw [hentered.others d₁ low fun heq => hlow (heq.2 ▸ hempty)]
    exact hs.shared d₁ (hdirs ▸ hd₁) low hlow
  · rw [hkernel] at hlow
    rw [hdirs] at hd₁ ⊢
    by_cases heq : d₁ = d ∧ low = address / 2 ^ 22
    · obtain ⟨rfl, rfl⟩ := heq
      obtain rfl := Option.some.inj (hentered.own.symm.trans ht)
      refine ⟨hpos, fun d₂ hd₂ low₂ ht₂ => ?_⟩
      by_cases heq₂ : d₂ = d₁ ∧ low₂ = address / 2 ^ 22
      · exact heq₂
      · rw [hentered.tableOf heq₂] at ht₂
        exact hown d₂ hd₂ low₂ ht₂
    · rw [hentered.tableOf heq] at ht
      obtain ⟨ht0, hunique⟩ := hs.own d₁ hd₁ low t hlow ht
      refine ⟨ht0, fun d₂ hd₂ low₂ ht₂ => ?_⟩
      by_cases heq₂ : d₂ = d ∧ low₂ = address / 2 ^ 22
      · obtain ⟨rfl, rfl⟩ := heq₂
        obtain rfl := Option.some.inj (hentered.own.symm.trans ht₂)
        exact absurd (hown d₁ hd₁ low ht) heq
      · rw [hentered.tableOf heq₂] at ht₂
        exact hunique d₂ hd₂ low₂ ht₂

theorem Isolated.step {s s' : Spaces} {op : CloneOp} (hs : Isolated s)
    (hstep : cloneStep s op = some s') (hhanded : Handed s op) : Isolated s' := by
  cases op with
  | clone => exact hs.clone hstep
  | mapPage address permissions d block => exact hs.mapPage hstep hhanded

theorem Isolated.unseen {s s' : Spaces} {op : CloneOp} (hs : Isolated s)
    (hstep : cloneStep s op = some s') (hhanded : Handed s op) : Unseen s op s' := by
  rintro address permissions d block rfl d' hd' hne a
  obtain ⟨-, -, -, table, -, hentered, hown⟩ := mapPage_step hs hstep hhanded
  exact hentered.getPage hne fun htable => hne (hown d' hd' _ htable).1

theorem Isolated.agrees {s : Spaces} (hs : Isolated s) : Agrees s := by
  intro d hd a ha
  unfold State.getPage
  dsimp only
  rw [hs.shared d hd _ ha]

/-- `kernel_dir` alone is isolated, whatever it maps. -/
theorem isolated_kernel (p : State) (current size : Nat) : Isolated ⟨p, 1, current, size⟩ := by
  refine ⟨Nat.one_pos, fun d hd low _ => ?_, fun d hd low table hlow htable => ?_⟩
  · obtain rfl := Nat.lt_one_iff.mp hd
    rfl
  · obtain rfl := Nat.lt_one_iff.mp hd
    rw [tableOf_eq_none.mpr hlow] at htable
    cases htable

/--
**Mappings are isolated.**  In every run of clones of `kernel_dir`, and of `map_page` on the
clones in slots that `kernel_dir` does not have, no `map_page` changes what `get_page` says of
any other directory, and all directories agree with `kernel_dir` on the slots that it has.
-/
theorem mappings_isolated (p : State) (current size : Nat) (ops : List CloneOp)
    (hhanded : EveryTry cloneStep Handed ⟨p, 1, current, size⟩ ops) :
    EveryStep cloneStep Unseen ⟨p, 1, current, size⟩ ops ∧
      Always cloneStep Agrees ⟨p, 1, current, size⟩ ops :=
  have hkeep : ∀ s op s', Isolated s → cloneStep s op = some s' → Handed s op → Isolated s' :=
    fun _ _ _ hs hstep hop => hs.step hstep hop
  have hstart := isolated_kernel p current size
  ⟨everyStep_of_inv hkeep (fun _ _ _ hs hstep hop => hs.unseen hstep hop) hstart
      hhanded.everyStep,
    (always_of_inv hkeep hstart hhanded.everyStep).mono fun _ hs => hs.agrees⟩

/-- A table of `kernel_dir` at `0x2000`, for the first 4 MB, and 16 frames. -/
def smallKernel : Spaces where
  paging :=
    { mem := fun _ => 0, dir := fun _ => ⟨fun low => if low = 0 then 0x2007 else 0, fun _ => 0⟩,
      pageStack := (List.range 16).map (· * pageSize), placement := 0x100000 }
  dirs := 1
  current := 0
  size := 0

/-- All directories have the one table. -/
theorem smallKernel_clone {s s' : Spaces} (hdir : ∀ d, (s.paging.dir d).tables =
    (smallKernel.paging.dir 0).tables) (hstep : cloneStep s .clone = some s') (d : Nat) :
    (s'.paging.dir d).tables = (smallKernel.paging.dir 0).tables := by
  rw [(clone_step hstep).2]
  split
  · exact hdir 0
  · exact hdir d

/-- Two clones, and a page of the first one that the second one does not see. -/
theorem mappings_isolated_two : EveryStep cloneStep Unseen smallKernel
    [.clone, .clone, .mapPage 0x8048000 7 1 ⟨0x200000, 0x200000⟩] := by
  refine (mappings_isolated smallKernel.paging 0 0
    [.clone, .clone, .mapPage 0x8048000 7 1 ⟨0x200000, 0x200000⟩] ?_).1
  refine ⟨trivial, fun s₁ h₁ => ⟨trivial, fun s₂ h₂ => ⟨fun _ => ?_, fun _ _ => trivial⟩⟩⟩
  have htables := smallKernel_clone (smallKernel_clone (fun _ => rfl) h₁) h₂
  refine ⟨by decide, by decide, fun d _ low htable => ?_⟩
  obtain ⟨hne, hbase⟩ := tableOf_eq_some htable
  rw [htables] at hne hbase
  by_cases hlow : low = 0
  · rw [hlow] at hbase
    exact absurd hbase (by decide)
  · exact hne (if_neg hlow)

end OsThing.Paging
