/-
What `init_paging` maps where.

The free frames are pushed from the top of memory downwards, so that they are popped from
frame 0 upwards, and `map_pages` asks for them from page 0 upwards.  So early memory, as far
as the first range goes, is mapped to itself: `Counted` is the invariant of that loop.

The tables for it come from early memory, too.  The second range, the heap, only adds
two of them, and there are 400 pages of room after the end of the kernel.
-/
import OsThing.Mem.Tables
import OsThing.Proofs.Isolation

namespace OsThing.Paging

open Bytes Alloc

/-! ### One page -/

theorem setTable_tableAddr (p : State) (d low table d' : Nat) :
    ((p.setTable d low table).dir d').tableAddr = (p.dir d').tableAddr := by
  unfold State.setTable State.modifyDir
  rcases eq_or_ne d' d with rfl | hd
  · simp
  · simp [hd]

theorem setTableAddr_tableAddr (p : State) (d low addr d' low' : Nat) :
    ((p.setTableAddr d low addr).dir d').tableAddr low' =
      if d' = d ∧ low' = low then addr else (p.dir d').tableAddr low' := by
  unfold State.setTableAddr State.modifyDir
  rcases eq_or_ne d' d with rfl | hd
  · rcases eq_or_ne low' low with rfl | hlow
    · simp
    · simp [hlow]
  · simp [hd]

/-- The entry at `w` has a frame, and keeps it. -/
def KeepsFrame (p p' : State) (w : Nat) : Prop :=
  read32 p.mem w ≠ 0 → read32 p'.mem w ≠ 0 ∧ pageBase (read32 p'.mem w) = pageBase (read32 p.mem w)

theorem Filled.keepsFrame {p p' : State} {e flags w : Nat} (h : Filled p p' e flags)
    (hsmall : flags < pageSize) (he : e % 4 = 0) (hw : w % 4 = 0) : KeepsFrame p p' w := by
  intro hne
  by_cases hwe : w = e
  · subst hwe
    rcases h.entry with ⟨hzero, -⟩ | ⟨-, -, hword⟩
    · exact absurd hzero hne
    · rw [hword]
      exact ⟨fun hzero => hne (Nat.or_eq_zero_iff.mp hzero).1, pageBase_or _ hsmall⟩
  · rw [h.memory w (by omega)]
    exact ⟨hne, rfl⟩

/-- What the second half of `map_page` leaves: only the pointer changes, by its flags. -/
structure PageEntered (p p' : State) (d low flags : Nat) : Prop where
  tables : ∀ d' low', (p'.dir d').tables low' =
    if d' = d ∧ low' = low then pageBase ((p.dir d).tables low) ||| flags
    else (p.dir d').tables low'
  tableAddr : ∀ d', (p'.dir d').tableAddr = (p.dir d').tableAddr
  placement : p'.placement = p.placement
  keeps : ∀ w, w % 4 = 0 → KeepsFrame p p' w

theorem enterPage_spec {p p' : State} {low high flags d : Nat} (hsmall : flags < pageSize)
    (h : p.enterPage low high flags d = some p') : PageEntered p p' d low flags := by
  unfold State.enterPage at h
  obtain ⟨p₁, hfill, rfl⟩ := Option.map_eq_some_iff.mp h
  have hfilled := fillEntry_spec hsmall hfill
  have he : entryAt (pageBase ((p.dir d).tables low)) high % 4 = 0 := by
    unfold entryAt pageBase pageSize
    omega
  refine ⟨fun d' low' => ?_, fun d' => ?_, hfilled.placement, fun w hw => ?_⟩
  · rw [setTable_tables, hfilled.dir, setTable_tables]
    split
    · rfl
    · rfl
  · rw [setTable_tableAddr, hfilled.dir, setTable_tableAddr]
  · exact hfilled.keepsFrame hsmall he hw

/-- `map_page` has a table for the slot, or gets one from `kmalloc`. -/
theorem mapPageFrom_cases {p p' : State} {kmalloc : State → Option (Block × State)}
    {address flags d : Nat} (h : p.mapPageFrom kmalloc address flags d = some p') :
    ∃ p₁ : State, p₁.enterPage (lowIndex address) (highIndex address) flags d = some p' ∧
      ((p.dir d).tables (lowIndex address) ≠ 0 ∧ p₁ = p ∨
        (p.dir d).tables (lowIndex address) = 0 ∧ ∃ block p₀, kmalloc p = some (block, p₀) ∧
          p₁ = p₀.placeTable (lowIndex address) flags d block) := by
  unfold State.mapPageFrom at h
  obtain ⟨p₁, htabled, henter⟩ := Option.bind_eq_some_iff.mp h
  refine ⟨p₁, henter, ?_⟩
  split at htabled
  · rename_i hnone
    obtain ⟨⟨block, p₀⟩, hkmalloc, rfl⟩ := Option.map_eq_some_iff.mp htabled
    exact Or.inr ⟨hnone, block, p₀, hkmalloc, rfl⟩
  · rename_i hsome
    exact Or.inl ⟨hsome, (Option.some.inj htabled).symm⟩

theorem PageEntered.tableOf {p p' : State} {d low flags : Nat} (h : PageEntered p p' d low flags)
    (hflags : 0 < flags) (hsmall : flags < pageSize) (d' low' : Nat) :
    Paging.tableOf p' d' low' =
      if d' = d ∧ low' = low then some (pageBase ((p.dir d).tables low))
      else Paging.tableOf p d' low' := by
  unfold Paging.tableOf
  rw [h.tables]
  split
  · rw [if_neg (or_ne_zero hflags), pageBase_or _ hsmall, pageBase_pageBase]
  · rfl

/-- A new table for the slot, before it gets its first page. -/
structure Placed (p p₁ : State) (d low flags : Nat) (block : Block) : Prop where
  tables : ∀ d' low', (p₁.dir d').tables low' =
    if d' = d ∧ low' = low then block.addr else (p.dir d').tables low'
  tableAddr : ∀ d' low', (p₁.dir d').tableAddr low' =
    if d' = d ∧ low' = low then block.physical ||| flags else (p.dir d').tableAddr low'
  memory : ∀ w, w + 4 ≤ block.addr ∨ block.addr + pageSize ≤ w → read32 p₁.mem w = read32 p.mem w

theorem placeTable_placed (p : State) (low flags d : Nat) (block : Block) :
    Placed p (p.placeTable low flags d block) d low flags block := by
  refine ⟨fun d' low' => ?_, fun d' low' => ?_, fun w hw => read32_fill_apart _ _ hw.symm⟩
  · unfold State.placeTable
    rw [setTableAddr_tables]
    exact setTable_tables p d low block.addr d' low'
  · unfold State.placeTable
    rw [setTableAddr_tableAddr]
    have hsame : ((p.setTable d low block.addr).dir d').tableAddr low' =
        (p.dir d').tableAddr low' := congrFun (setTable_tableAddr p d low block.addr d') low'
    split
    · rfl
    · exact hsame

/-- With its first page in it, the new table is the block that it was given. -/
theorem PageEntered.tableOf_new {p p' : State} {d low flags : Nat} {block : Block}
    (h : PageEntered (p.placeTable low flags d block) p' d low flags) (hflags : 0 < flags)
    (hsmall : flags < pageSize) (d' low' : Nat) :
    Paging.tableOf p' d' low' =
      if d' = d ∧ low' = low then some (pageBase block.addr) else Paging.tableOf p d' low' := by
  have hplaced := placeTable_placed p low flags d block
  rw [h.tableOf hflags hsmall, hplaced.tables, if_pos (show d = d ∧ low = low from ⟨rfl, rfl⟩)]
  split
  · rfl
  · rename_i hne
    unfold Paging.tableOf
    rw [hplaced.tables, if_neg hne]

/-- The frames in tables that are clear of the block stay where they are. -/
theorem PageEntered.keeps_new {p p' : State} {d low flags t high : Nat} {block : Block}
    (h : PageEntered (p.placeTable low flags d block) p' d low flags) (ht : t % pageSize = 0)
    (hclear : entryAt t high + 4 ≤ block.addr ∨ block.addr + pageSize ≤ entryAt t high) :
    KeepsFrame p p' (entryAt t high) := by
  have hkeeps := h.keeps (entryAt t high) (by
    unfold entryAt
    unfold pageSize at ht
    omega)
  unfold KeepsFrame at hkeeps
  rw [(placeTable_placed p low flags d block).memory _ hclear] at hkeeps
  exact hkeeps

/-! ### Early tables -/

/-- The tables of a directory are where `table_addr` says. -/
structure Early (p : State) (d : Nat) : Prop where
  placed : 0 < p.placement
  tables : ∀ low table, tableOf p d low = some table → 0 < table ∧ table + pageSize ≤ p.placement ∧
    pageBase ((p.dir d).tableAddr low) = table

/-- What `map_page` does to early tables: it makes one if the slot has none. -/
structure EarlyStep (p p' : State) (d low : Nat) : Prop where
  early : Early p' d
  own : tableOf p' d low ≠ none
  placement : tableOf p d low ≠ none ∧ p'.placement = p.placement ∨
    tableOf p d low = none ∧ p'.placement = pageUp p.placement + pageSize

theorem Early.entered {p p' : State} {d low flags : Nat} (hp : Early p d)
    (hown : tableOf p d low ≠ none) (hflags : 0 < flags) (hsmall : flags < pageSize)
    (h : PageEntered p p' d low flags) : Early p' d ∧ tableOf p' d low ≠ none := by
  have htable : ∀ low', tableOf p' d low' = tableOf p d low' := by
    intro low'
    rw [h.tableOf hflags hsmall]
    split
    · rename_i heq
      rw [heq.2]
      exact (if_neg fun hzero => hown (tableOf_eq_none.mpr hzero)).symm
    · rfl
  refine ⟨⟨h.placement ▸ hp.placed, fun low' table ht => ?_⟩, htable low ▸ hown⟩
  rw [htable] at ht
  rw [h.placement, h.tableAddr]
  exact hp.tables low' table ht

theorem Early.placeTable {p p₁ : State} {d low flags addr : Nat} (hp : Early p d)
    (hsmall : flags < pageSize) (haligned : addr % pageSize = 0) (hle : p.placement ≤ addr)
    (hplacement : p₁.placement = addr + pageSize) (hdir : p₁.dir = p.dir) :
    Early (p₁.placeTable low flags d ⟨addr, addr⟩) d ∧
      tableOf (p₁.placeTable low flags d ⟨addr, addr⟩) d low ≠ none := by
  have hplaced := placeTable_placed p₁ low flags d ⟨addr, addr⟩
  have hpos : 0 < addr := Nat.lt_of_lt_of_le hp.placed hle
  refine ⟨⟨hplacement ▸ Nat.add_pos_left hpos _, fun low' table ht => ?_⟩, fun hnone => ?_⟩
  · show 0 < table ∧ table + pageSize ≤ p₁.placement ∧ _
    obtain ⟨hne, hbase⟩ := tableOf_eq_some ht
    rw [hplaced.tables] at hne hbase
    rw [hplaced.tableAddr, hplacement]
    by_cases heq : d = d ∧ low' = low
    · rw [if_pos heq] at hbase ⊢
      have hbase : addr = table := (pageBase_of_mod haligned).symm.trans hbase
      subst hbase
      exact ⟨hpos, Nat.le_refl _, (pageBase_or addr hsmall).trans (pageBase_of_mod haligned)⟩
    · rw [if_neg heq, hdir] at hne hbase
      rw [if_neg heq, hdir]
      obtain ⟨ht0, hbelow, haddr⟩ := hp.tables low' table ((if_neg hne).trans (congrArg some hbase))
      exact ⟨ht0, by omega, haddr⟩
  · have hzero := tableOf_eq_none.mp hnone
    rw [hplaced.tables, if_pos (show d = d ∧ low = low from ⟨rfl, rfl⟩)] at hzero
    exact Nat.ne_of_gt hpos hzero

theorem mapPage_early {p p' : State} {address flags d : Nat} (hp : Early p d) (hflags : 0 < flags)
    (hsmall : flags < pageSize) (h : p.mapPage address flags d = some p') :
    EarlyStep p p' d (lowIndex address) := by
  rw [State.mapPage_eq_from] at h
  obtain ⟨p₁, henter, ⟨hsome, rfl⟩ | ⟨hnone, block, p₀, hkmalloc, rfl⟩⟩ := mapPageFrom_cases h
  · have hentered := enterPage_spec hsmall henter
    have hown : tableOf p₁ d (lowIndex address) ≠ none := mt tableOf_eq_none.mp hsome
    obtain ⟨hearly, hown'⟩ := hp.entered hown hflags hsmall hentered
    exact ⟨hearly, hown', Or.inl ⟨hown, hentered.placement⟩⟩
  · obtain ⟨haligned, hle⟩ := pageUp_spec p.placement
    unfold State.earlyBlock State.kmallocE at hkmalloc
    dsimp only at hkmalloc
    split at hkmalloc
    · obtain ⟨rfl, rfl⟩ := Prod.mk.inj (Option.some.inj hkmalloc)
      have hentered := enterPage_spec hsmall henter
      have hroom : ({ p with placement := pageUp p.placement + pageSize } : State).placement =
          pageUp p.placement + pageSize := rfl
      obtain ⟨hearly, hown⟩ := hp.placeTable hsmall haligned hle hroom rfl
      obtain ⟨hearly', hown'⟩ := hearly.entered hown hflags hsmall hentered
      exact ⟨hearly', hown', Or.inr ⟨tableOf_eq_none.mpr hnone, hentered.placement⟩⟩
    · cases hkmalloc

/-- `map_pages` step by step. -/
theorem mapPages_induct {start stop flags d : Nat} {M : Nat → State → Prop}
    (hstep : ∀ i < pageCount start stop, ∀ p p' : State, M i p →
      p.mapPage (start + i * pageSize) flags d = some p' → M (i + 1) p')
    {p p' : State} (hfirst : M 0 p) (h : p.mapPages start stop flags d = some p') :
    M (pageCount start stop) p' := by
  have hloop : ∀ n ≤ pageCount start stop, ∀ p', (List.range n).foldlM
      (fun p i => p.mapPage (start + i * pageSize) flags d) p = some p' → M n p' := by
    intro n
    induction n with
    | zero =>
        intro _ p' h
        obtain rfl := Option.some.inj h
        exact hfirst
    | succ n ih =>
        intro hn p' h
        rw [List.range_succ, List.foldlM_append] at h
        obtain ⟨p₁, hprefix, hlast⟩ := Option.bind_eq_some_iff.mp h
        rw [List.foldlM_cons] at hlast
        obtain ⟨p₂, hmap, hnil⟩ := Option.bind_eq_some_iff.mp hlast
        obtain rfl := Option.some.inj hnil
        exact hstep n hn p₁ p₂ (ih (by omega) p₁ hprefix) hmap
  unfold State.mapPages at h
  split at h
  · cases h
  · exact hloop _ (Nat.le_refl _) p' h

/-- A range that starts with a slot needs one table for each 4 MB. -/
theorem mapPages_early {p p' : State} {start stop flags d : Nat} (hp : Early p d)
    (hstart : start % 2 ^ 22 = 0) (hflags : 0 < flags) (hsmall : flags < pageSize)
    (h : p.mapPages start stop flags d = some p') :
    Early p' d ∧ pageUp p'.placement ≤
      pageUp p.placement + (pageCount start stop + 0x3ff) / 0x400 * pageSize := by
  let M (i : Nat) (p₁ : State) : Prop := Early p₁ d ∧
    (i % 0x400 ≠ 0 → tableOf p₁ d (lowIndex (start + i * pageSize)) ≠ none) ∧
      pageUp p₁.placement ≤ pageUp p.placement + (i + 0x3ff) / 0x400 * pageSize
  have hfirst : M 0 p := ⟨hp, fun hne => absurd rfl hne, Nat.le_add_right _ _⟩
  have hlast : M (pageCount start stop) p' := by
    refine mapPages_induct (fun i _ p₁ p₂ hM hmap => ?_) hfirst h
    obtain ⟨hearly, hslot, hroom⟩ := hM
    have hstep := mapPage_early hearly hflags hsmall hmap
    refine ⟨hstep.early, fun hne => ?_, ?_⟩
    · have hsame : lowIndex (start + (i + 1) * pageSize) = lowIndex (start + i * pageSize) := by
        unfold lowIndex pageSize
        omega
      rw [hsame]
      exact hstep.own
    · rcases hstep.placement with ⟨-, hsame⟩ | ⟨hnone, hnew⟩
      · rw [hsame]
        refine Nat.le_trans hroom (Nat.add_le_add_left (Nat.mul_le_mul_right _ ?_) _)
        omega
      · -- the first page of its slot
        have hmod : i % 0x400 = 0 := by
          by_contra hne
          exact hslot hne hnone
        have haligned : (pageUp p₁.placement + pageSize) % pageSize = 0 := by
          rw [Nat.add_mod_right]
          exact (pageUp_spec _).1
        have hup : pageUp p₂.placement = pageUp p₁.placement + pageSize :=
          (congrArg pageUp hnew).trans (if_pos haligned)
        unfold pageSize at hroom hup ⊢
        omega
  exact ⟨hlast.1, hlast.2.2⟩

/-! ### The first range -/

/-- `get_page` reads the entry of the page. -/
theorem entry_pageAt {p : State} (hp : Sharing p) (a d : Nat) :
    entry p (pageAt a d) = p.getPage a d := by
  unfold pageAt
  rw [getPage_of_table]
  rcases htable : tableOf p d (a / 2 ^ 22) with _ | table
  · exact entry_of_no_table htable
  · rw [entry_of_table htable, Option.elim_some,
      if_neg (Nat.ne_of_gt (hp.below d _ table htable).1)]

theorem getPage_eq_read {p : State} {d a table : Nat} (h : tableOf p d (lowIndex a) = some table)
    (hpos : 0 < table) : p.getPage a d = read32 p.mem (entryAt table (highIndex a)) := by
  have htable : tableOf p d (a / 2 ^ 22) = some table := h
  rw [getPage_of_table, htable, Option.elim_some, if_neg (Nat.ne_of_gt hpos)]
  rfl

theorem pageAt_page (m : Nat) : pageAt (m * pageSize) 0 = (0, m / 0x400, m % 0x400) := by
  unfold pageAt pageSize
  refine Prod.ext rfl (Prod.ext ?_ ?_)
  · dsimp only
    omega
  · dsimp only
    omega

/-- What `map_page` does to the frames of the boot directory. -/
structure TakesFrame (p p' : State) (m : Nat) : Prop where
  /-- A page that has no frame gets the next one, -/
  own : (frameOf p (0, m / 0x400, m % 0x400) = none ∧ ∃ frame,
      p.pageStack = frame :: p'.pageStack ∧ frameOf p' (0, m / 0x400, m % 0x400) = some frame) ∨
    (frameOf p (0, m / 0x400, m % 0x400) ≠ none ∧ p'.pageStack = p.pageStack ∧
      frameOf p' (0, m / 0x400, m % 0x400) = frameOf p (0, m / 0x400, m % 0x400))
  /-- and the other pages keep theirs. -/
  others : ∀ low high, high < 0x400 → low * 0x400 + high ≠ m →
    frameOf p' (0, low, high) = frameOf p (0, low, high)

theorem mapPage_takesFrame {p p' : State} {m : Nat} (hp : TablesOk p) (hsharing : Sharing p)
    (h : p.mapPage (m * pageSize) kernelPages 0 = some p') : TakesFrame p p' m := by
  have hmapped := mapPage_spec hp kernelPages_pos kernelPages_small h
  have hspread := mapPage_spread hsharing kernelPages_pos kernelPages_small h
  have hsome : frameOf p' (pageAt (m * pageSize) 0) ≠ none := by
    have htrans : Translates p' 0 (m * pageSize) :=
      (hspread.translates 0 _).mpr (Or.inr ⟨⟨rfl, rfl⟩, Or.inl rfl⟩)
    unfold frameOf
    rw [entry_pageAt hspread.sharing, if_neg htrans]
    exact Option.some_ne_none _
  rw [pageAt_page] at hmapped hsome
  refine ⟨?_, fun low high hhigh hne => hmapped.others _ hhigh fun heq => hne ?_⟩
  · rcases hmapped.moved with hnew | ⟨hstack, hsame⟩
    · exact Or.inl hnew
    · exact Or.inr ⟨hsame ▸ hsome, hstack, hsame⟩
  · obtain ⟨-, heq⟩ := Prod.mk.inj heq
    obtain ⟨rfl, rfl⟩ := Prod.mk.inj heq
    exact Nat.div_add_mod' m 0x400

/-- Of the frames `0`, `1`, `2` and so on, the first `i` are mapped, each to its own address,
and `k` are left. -/
structure Counted (i k : Nat) (p : State) : Prop where
  tables : TablesOk p
  sharing : Sharing p
  stack : p.pageStack = (List.range' i k).map (· * pageSize)
  frames : ∀ low high, high < 0x400 → frameOf p (0, low, high) =
    if low * 0x400 + high < i then some ((low * 0x400 + high) * pageSize) else none

/-- The place of a page among all pages. -/
theorem pageAt_number (a : Nat) : a / 2 ^ 22 * 0x400 + a / 2 ^ 12 % 0x400 = a / pageSize := by
  unfold pageSize
  omega

theorem Counted.frameOf_pageAt {i k : Nat} {p : State} (hp : Counted i k p) {a : Nat}
    (ha : a / pageSize < i) : frameOf p (pageAt a 0) = some (pageBase a) := by
  have hframe := hp.frames (a / 2 ^ 22) (a / 2 ^ 12 % 0x400) (Nat.mod_lt _ (by decide))
  rw [pageAt_number, if_pos ha] at hframe
  exact hframe

theorem Counted.mapPage {i k : Nat} {p p' : State} (hp : Counted i k p)
    (h : p.mapPage (0 + i * pageSize) kernelPages 0 = some p') : ∃ k', Counted (i + 1) k' p' := by
  rw [Nat.zero_add] at h
  have hmapped := mapPage_spec hp.tables kernelPages_pos kernelPages_small h
  have hspread := mapPage_spread hp.sharing kernelPages_pos kernelPages_small h
  have htakes := mapPage_takesFrame hp.tables hp.sharing h
  have hnone : frameOf p (0, i / 0x400, i % 0x400) = none := by
    rw [hp.frames _ _ (Nat.mod_lt _ (by omega)), Nat.div_add_mod']
    exact if_neg (Nat.lt_irrefl i)
  rcases htakes.own with ⟨-, frame, hstack, hframe⟩ | ⟨hsome, -, -⟩
  · rw [hp.stack] at hstack
    cases k with
    | zero => cases hstack
    | succ k =>
        rw [List.range'_succ, List.map_cons] at hstack
        obtain ⟨rfl, hrest⟩ := List.cons.inj hstack
        refine ⟨k, hmapped.tables, hspread.sharing, hrest.symm, fun low high hhigh => ?_⟩
        by_cases heq : low * 0x400 + high = i
        · obtain ⟨rfl, rfl⟩ : low = i / 0x400 ∧ high = i % 0x400 := by omega
          rw [hframe, heq, if_pos (Nat.lt_succ_self i)]
        · rw [htakes.others low high hhigh heq, hp.frames low high hhigh]
          have hiff : low * 0x400 + high < i + 1 ↔ low * 0x400 + high < i := by omega
          simp only [hiff]
  · exact absurd hnone hsome

/-- **The first range is mapped to itself.** -/
theorem mapPages_counted {k stop : Nat} {p p' : State} (hp : Counted 0 k p)
    (h : p.mapPages 0 stop kernelPages 0 = some p') : ∃ k', Counted (pageCount 0 stop) k' p' :=
  mapPages_induct (M := fun i p => ∃ k, Counted i k p)
    (fun _ _ _ _ hcounted hmap => hcounted.elim fun _ hcounted => hcounted.mapPage hmap)
    ⟨k, hp⟩ h

/-! ### The boot -/

/-- The frames of a machine with `npages` pages, as `init_paging` pushes them. -/
def bootStack (npages : Nat) : List (Fin (2 ^ 20)) :=
  (List.range (npages + 1)).map fun i => ⟨i % 2 ^ 20, Nat.mod_lt i (by decide)⟩

/-- `placement` when `init_paging` starts to map. -/
def bootPlacement (kernelEnd npages : Nat) : Nat :=
  pageUp (pageUp kernelEnd + pageDirSize) + (npages * 4 + 1)

/-- Where the memory ends that `init_paging` maps to itself. -/
def directEnd (kernelEnd npages : Nat) : Nat :=
  pageCount 0 (bootPlacement kernelEnd npages + pageSize * 400) * pageSize

/-- What `kernel_dir` maps after the boot. -/
structure Booted (direct : Nat) (p : State) : Prop where
  sharing : Sharing p
  early : Early p 0
  room : p.placement ≤ direct
  identity : ∀ a < direct, Translates p 0 a ∧ pageBase (p.getPage a 0) = pageBase a
  heap : ∀ a, kheapStart ≤ a → a < kheapStart + kheapSize + pageSize → Translates p 0 a

theorem pageUp_lt (a : Nat) : pageUp a < a + pageSize := by
  unfold pageUp
  split
  · exact Nat.lt_add_of_pos_right (by decide)
  · rename_i hne
    unfold pageBase
    unfold pageSize at *
    omega

/-- The first range ends before the heap starts, and has room for 300 tables. -/
theorem directEnd_bounds {kernelEnd npages : Nat} (hend : kernelEnd ≤ 2 ^ 30)
    (hpages : npages < 2 ^ 20) :
    bootPlacement kernelEnd npages + pageSize * 400 < space ∧
      directEnd kernelEnd npages ≤ 0x42000000 ∧
      pageUp (bootPlacement kernelEnd npages) + 300 * pageSize ≤ directEnd kernelEnd npages := by
  have hdir := pageUp_lt kernelEnd
  have hstack := pageUp_lt (pageUp kernelEnd + pageDirSize)
  have hup := pageUp_lt (bootPlacement kernelEnd npages)
  have hle : bootPlacement kernelEnd npages ≤ 2 ^ 30 + 0x800000 := by
    unfold bootPlacement
    unfold pageDirSize pageSize at *
    omega
  unfold directEnd pageCount space
  unfold pageSize at *
  omega

/-- The frame of a mapped page, as `get_page` gives it. -/
theorem getPage_of_frameOf {p : State} {a d frame : Nat} (hp : Sharing p)
    (h : frameOf p (pageAt a d) = some frame) :
    Translates p d a ∧ pageBase (p.getPage a d) = frame := by
  unfold frameOf at h
  rw [entry_pageAt hp] at h
  split at h
  · cases h
  · exact ⟨‹_›, Option.some.inj h⟩

theorem initPaging_cases {mem : Memory} {frames : List (Fin (2 ^ 20))} {kernelEnd npages : Nat}
    {s : Spaces} (h : initPaging mem frames kernelEnd npages = some s) :
    bootPlacement kernelEnd npages ≤ space ∧ ∃ p₁ p₂ : State,
      (State.empty mem frames (bootPlacement kernelEnd npages)).mapPages 0
        ((bootPlacement kernelEnd npages + pageSize * 400) % space) kernelPages 0 = some p₁ ∧
      p₁.mapPages kheapStart (kheapStart + kheapSize + pageSize) kernelPages 0 = some p₂ ∧
      s = ⟨{ p₂ with placement := p₂.placement + heapSize }, 1, 0, kheapSize / 4⟩ := by
  rw [initPaging_eq mem frames rfl] at h
  obtain ⟨hspace, h⟩ := Option.ite_none_right_eq_some.mp h
  obtain ⟨p₁, hlow, h⟩ := Option.bind_eq_some_iff.mp h
  obtain ⟨p₂, hheap, rfl⟩ := Option.map_eq_some_iff.mp h
  exact ⟨hspace, p₁, p₂, hlow, hheap, rfl⟩

theorem counted_empty (mem : Memory) {npages placement : Nat} (hpages : npages < 2 ^ 20)
    (hplaced : 0 < placement) :
    Counted 0 (npages + 1) (State.empty mem (bootStack npages) placement) := by
  refine ⟨tablesOk_empty mem _ placement, sharing_empty mem _ hplaced, ?_, fun low high _ => ?_⟩
  · show (bootStack npages).map _ = _
    unfold bootStack
    rw [List.map_map, List.range_eq_range']
    refine List.map_congr_left fun i hi => ?_
    have hlt := (List.mem_range'_1.mp hi).2
    show i % 2 ^ 20 * pageSize = i * pageSize
    rw [Nat.mod_eq_of_lt (by omega)]
  · rw [if_neg (Nat.not_lt_zero _)]
    exact if_pos (if_pos rfl)

theorem early_empty (mem : Memory) (frames : List (Fin (2 ^ 20))) {placement : Nat}
    (hplaced : 0 < placement) : Early (State.empty mem frames placement) 0 := by
  refine ⟨hplaced, fun low table ht => ?_⟩
  rw [show tableOf (State.empty mem frames placement) 0 low = none from if_pos rfl] at ht
  cases ht

/-- The heap leaves early memory alone. -/
theorem mapPages_below {p p' : State} {start stop flags d : Nat} (hp : TablesOk p)
    (hflags : 0 < flags) (hsmall : flags < pageSize)
    (h : p.mapPages start stop flags d = some p') :
    TablesOk p' ∧ ∀ low high, high < 0x400 → low * 0x400 + high < start / pageSize →
      frameOf p' (d, low, high) = frameOf p (d, low, high) := by
  refine mapPages_induct (M := fun _ p₁ => TablesOk p₁ ∧ ∀ low high, high < 0x400 →
    low * 0x400 + high < start / pageSize → frameOf p₁ (d, low, high) = frameOf p (d, low, high))
    (fun i _ p₁ p₂ hM hmap => ?_) ⟨hp, fun _ _ _ _ => rfl⟩ h
  obtain ⟨htables, hsame⟩ := hM
  have hmapped := mapPage_spec htables hflags hsmall hmap
  refine ⟨hmapped.tables, fun low high hhigh hbelow => ?_⟩
  rw [hmapped.others _ hhigh, hsame low high hhigh hbelow]
  intro hpair
  obtain ⟨-, hpair⟩ := Prod.mk.inj hpair
  obtain ⟨rfl, rfl⟩ := Prod.mk.inj hpair
  unfold pageSize at hbelow
  omega

/-- All frames lie below `top`. -/
structure Within (top : Nat) (p : State) : Prop where
  tables : TablesOk p
  stack : ∀ f ∈ p.pageStack, f < top
  frames : ∀ i, i.2.2 < 0x400 → ∀ f, frameOf p i = some f → f < top

theorem mapPages_within {p p' : State} {start stop flags d top : Nat} (hp : Within top p)
    (hflags : 0 < flags) (hsmall : flags < pageSize)
    (h : p.mapPages start stop flags d = some p') : Within top p' := by
  refine mapPages_induct (M := fun _ => Within top) (fun i _ p₁ p₂ hp₁ hmap => ?_) hp h
  have hmapped := mapPage_spec hp₁.tables hflags hsmall hmap
  rcases hmapped.moved with ⟨-, frame, hstack, hframe⟩ | ⟨hstack, hsame⟩
  · refine ⟨hmapped.tables, fun f hf => hp₁.stack f (hstack ▸ List.mem_cons_of_mem _ hf),
      fun j hj f hf => ?_⟩
    by_cases heq : j = pageAt (start + i * pageSize) d
    · rw [heq, hframe] at hf
      obtain rfl := Option.some.inj hf
      exact hp₁.stack _ (hstack ▸ List.mem_cons_self)
    · rw [hmapped.others j hj heq] at hf
      exact hp₁.frames j hj f hf
  · refine ⟨hmapped.tables, hstack ▸ hp₁.stack, fun j hj f hf => ?_⟩
    by_cases heq : j = pageAt (start + i * pageSize) d
    · rw [heq, hsame] at hf
      exact hp₁.frames _ (heq ▸ hj) f hf
    · rw [hmapped.others j hj heq] at hf
      exact hp₁.frames j hj f hf

/-- **After the boot early memory is mapped to itself**, with its tables in it, if the kernel
ends in the first gigabyte. -/
theorem initPaging_booted {mem : Memory} {kernelEnd npages : Nat} {s : Spaces}
    (hend : kernelEnd ≤ 2 ^ 30) (hpages : npages < 2 ^ 20)
    (h : initPaging mem (bootStack npages) kernelEnd npages = some s) :
    s.dirs = 1 ∧ s.current = 0 ∧ Booted (directEnd kernelEnd npages) s.paging := by
  obtain ⟨-, p₁, p₂, hlow, hheap, rfl⟩ := initPaging_cases h
  have hplaced : 0 < bootPlacement kernelEnd npages := Nat.succ_pos _
  have hcounted₀ := counted_empty mem hpages hplaced
  obtain ⟨k, hcounted⟩ := mapPages_counted hcounted₀ hlow
  have hspread₂ := mapPages_spread hcounted.sharing kernelPages_pos kernelPages_small hheap
  obtain ⟨hearly₁, hroom₁⟩ := mapPages_early (early_empty mem (bootStack npages) hplaced)
    (Nat.zero_mod _) kernelPages_pos kernelPages_small hlow
  obtain ⟨hearly₂, hroom₂⟩ := mapPages_early hearly₁ (by decide) kernelPages_pos kernelPages_small
    hheap
  obtain ⟨-, hbelow⟩ := mapPages_below hcounted.tables kernelPages_pos kernelPages_small hheap
  obtain ⟨hspace, hdirect, hroom⟩ := directEnd_bounds hend hpages
  rw [Nat.mod_eq_of_lt hspace] at hcounted hroom₁
  have hcount : pageCount 0 (bootPlacement kernelEnd npages + pageSize * 400) =
      directEnd kernelEnd npages / pageSize :=
    (Nat.mul_div_cancel _ (by decide)).symm
  rw [hcount] at hcounted hroom₁
  refine ⟨rfl, rfl, hspread₂.sharing.setPlacement (Nat.le_add_right _ _), ?_, ?_, fun a ha => ?_,
    fun a hlo hhi => ?_⟩
  · exact ⟨Nat.add_pos_left hearly₂.placed _, fun low table ht =>
      have hold := hearly₂.tables low table ht
      ⟨hold.1, Nat.le_trans hold.2.1 (Nat.le_add_right _ _), hold.2.2⟩⟩
  · have hup := (pageUp_spec p₂.placement).2
    have hheapPages :
        (pageCount kheapStart (kheapStart + kheapSize + pageSize) + 0x3ff) / 0x400 = 2 := by
      decide +kernel
    have hroom₁ : pageUp p₁.placement ≤ pageUp (bootPlacement kernelEnd npages) +
        (directEnd kernelEnd npages / pageSize + 0x3ff) / 0x400 * pageSize := hroom₁
    rw [hheapPages] at hroom₂
    show p₂.placement + heapSize ≤ _
    unfold heapSize
    unfold pageSize at *
    omega
  · have hlt : a / pageSize < directEnd kernelEnd npages / pageSize := by
      rw [← hcount]
      exact Nat.div_lt_of_lt_mul (Nat.mul_comm _ pageSize ▸ ha)
    have hheapStart : a / pageSize < kheapStart / pageSize := by
      unfold kheapStart pageSize at *
      omega
    have hsame := hbelow _ _ (Nat.mod_lt _ (by decide)) ((pageAt_number a).trans_lt hheapStart)
    have hframe : frameOf p₂ (pageAt a 0) = some (pageBase a) :=
      hsame.trans (hcounted.frameOf_pageAt hlt)
    have hmapped := getPage_of_frameOf hspread₂.sharing hframe
    exact ⟨hmapped.1, hmapped.2⟩
  · refine (hspread₂.translates 0 a).mpr (Or.inr ⟨?_, Or.inl rfl⟩)
    unfold InRange pageCount
    unfold kheapStart kheapSize at *
    unfold pageSize at *
    omega

/-- The boot invents no frame. -/
theorem initPaging_within {mem : Memory} {kernelEnd npages : Nat} {s : Spaces}
    (hpages : npages < 2 ^ 20)
    (h : initPaging mem (bootStack npages) kernelEnd npages = some s) (a : Nat)
    (ha : Translates s.paging 0 a) :
    pageBase (s.paging.getPage a 0) < (npages + 1) * pageSize := by
  obtain ⟨-, p₁, p₂, hlow, hheap, rfl⟩ := initPaging_cases h
  have hplaced : 0 < bootPlacement kernelEnd npages := Nat.succ_pos _
  have hcounted := counted_empty mem hpages hplaced
  have hspread₁ := mapPages_spread hcounted.sharing kernelPages_pos kernelPages_small hlow
  have hspread₂ := mapPages_spread hspread₁.sharing kernelPages_pos kernelPages_small hheap
  have hwithin : Within ((npages + 1) * pageSize)
      (State.empty mem (bootStack npages) (bootPlacement kernelEnd npages)) := by
    refine ⟨hcounted.tables, fun f hf => ?_, fun i hi f hf => ?_⟩
    · rw [hcounted.stack] at hf
      obtain ⟨i, hi, rfl⟩ := List.mem_map.mp hf
      have hlt := (List.mem_range'_1.mp hi).2
      exact Nat.mul_lt_mul_of_pos_right (by omega) (by decide)
    · have hnone : frameOf (State.empty mem (bootStack npages) (bootPlacement kernelEnd npages)) i =
          none := if_pos (if_pos rfl)
      rw [hnone] at hf
      cases hf
  have hwithin₁ := mapPages_within hwithin kernelPages_pos kernelPages_small hlow
  have hwithin₂ := mapPages_within hwithin₁ kernelPages_pos kernelPages_small hheap
  refine hwithin₂.frames (pageAt a 0) (Nat.mod_lt _ (by decide)) _ ?_
  unfold frameOf
  rw [entry_pageAt hspread₂.sharing]
  exact if_neg ha

end OsThing.Paging
