/-
When `map_page` touches one page and nothing else.

Where a page table is early, or there already, `map_page` writes one word of it, after it has
cleared it if it is new: `mapPage_touched`.  So every other page keeps its translation, in all
directories, those that share the table included.

A table from the heap is used from the start of the page that it lies on, but cleared from
where it starts itself, one header further.  The header is then the entry of the first page:
`heap_table_dirty`.
-/
import OsThing.Proofs.Kmalloc
import OsThing.Proofs.PageWalks

namespace OsThing.Paging

open Bytes Runs Alloc

/-! ### One page -/

theorem getPage_of_none {p : State} {a d : Nat} (h : tableOf p d (lowIndex a) = none) :
    p.getPage a d = 0 := by
  rw [getPage_of_table, show tableOf p d (a / 2 ^ 22) = none from h, Option.elim_none]

/-- A table for the slot, new or not, changes no translation. -/
theorem ensureTable_getPage {p p' : State} {low flags d : Nat} (hp : Sharing p)
    (h : p.ensureTable low flags d = some p') (a d' : Nat) : p'.getPage a d' = p.getPage a d' := by
  obtain ⟨table, htabled⟩ := ensureTable_tabled hp h
  have hhigh : highIndex a < 0x400 := Nat.mod_lt _ (by decide)
  unfold State.ensureTable at h
  split at h
  · rename_i hnull
    have hnone : tableOf p d low = none := tableOf_eq_none.mpr hnull
    obtain ⟨⟨addr, p₁⟩, hkmalloc, rfl⟩ := Option.map_eq_some_iff.mp h
    obtain ⟨hmod, hle, rfl⟩ := kmallocE_spec hkmalloc
    have hbase : addr = table := by
      rw [← htabled.base, clearTable_tables, if_pos ⟨rfl, rfl⟩, pageBase_of_mod hmod]
    subst hbase
    by_cases heq : (d', lowIndex a) = (d, low)
    · obtain ⟨rfl, rfl⟩ := Prod.mk.inj heq
      obtain ⟨hlo, hhi⟩ := entryAt_inside addr hhigh
      rw [getPage_of_none hnone, getPage_eq_read htabled.own
        (Nat.lt_of_lt_of_le hp.placed hle)]
      exact read32_fill_zero _ hlo hhi
    · have hsame := htabled.others d' _ heq
      rcases ht : tableOf p d' (lowIndex a) with _ | t
      · rw [getPage_of_none ht, getPage_of_none (hsame.trans ht)]
      · obtain ⟨hpos, hbelow⟩ := hp.below _ _ _ ht
        obtain ⟨-, hhi⟩ := entryAt_inside t hhigh
        rw [getPage_eq_read ht hpos, getPage_eq_read (hsame.trans ht) hpos]
        exact read32_fill_apart _ _ (Or.inr (hhi.trans (hbelow.trans hle)))
  · obtain rfl := Option.some.inj h
    rfl

/-- `Sharing`, and frames that are page boundaries. -/
structure Paged (p : State) : Prop where
  sharing : Sharing p
  aligned : ∀ f ∈ p.pageStack, f % pageSize = 0

/-- What `map_page` does to translations. -/
structure PageTouched (p p' : State) (address flags d : Nat) : Prop where
  /-- The page has the flags, -/
  flags : p'.getPage address d &&& flags = flags
  /-- and the frame that it had, -/
  kept : p.getPage address d ≠ 0 →
    pageBase (p'.getPage address d) = pageBase (p.getPage address d) ∧ p'.pageStack = p.pageStack
  /-- or the one that was popped. -/
  popped : p.getPage address d = 0 →
    ∃ frame, p.pageStack = frame :: p'.pageStack ∧ pageBase (p'.getPage address d) = frame
  /-- All other pages have their translations, in all directories, -/
  others : ∀ a d', a / pageSize ≠ address / pageSize → p'.getPage a d' = p.getPage a d'
  /-- and the page itself has it in directories that do not share the table. -/
  apart : ∀ d', d' ≠ d → ¬ Shares p d d' (lowIndex address) →
    p'.getPage address d' = p.getPage address d'
  /-- A new table is empty but for the page. -/
  fresh : tableOf p d (lowIndex address) = none → ∀ a, lowIndex a = lowIndex address →
    a / pageSize ≠ address / pageSize → p'.getPage a d = 0

theorem or_and_self (a b : Nat) : (a ||| b) &&& b = b := by
  refine Nat.eq_of_testBit_eq fun i => ?_
  rw [Nat.testBit_and, Nat.testBit_or]
  cases a.testBit i <;> cases b.testBit i <;> rfl

/-- The second half of `map_page`, with the table it has made sure of. -/
structure EntryFilled (p p' : State) (d address flags table : Nat) : Prop where
  sharing : Sharing p'
  tables : ∀ d' low, tableOf p' d' low = tableOf p d' low
  filled : (read32 p.mem (entryAt table (highIndex address)) = 0 ∧
      ∃ frame, p.pageStack = frame :: p'.pageStack ∧
        read32 p'.mem (entryAt table (highIndex address)) = frame ||| flags) ∨
    (read32 p.mem (entryAt table (highIndex address)) ≠ 0 ∧ p'.pageStack = p.pageStack ∧
      read32 p'.mem (entryAt table (highIndex address)) =
        read32 p.mem (entryAt table (highIndex address)) ||| flags)
  memory : ∀ a, a + 4 ≤ entryAt table (highIndex address) ∨
    entryAt table (highIndex address) + 4 ≤ a → read32 p'.mem a = read32 p.mem a

/-- The entry that `map_page` fills, with the table it has made sure of. -/
theorem mapPage_entered {p p' : State} {address flags d : Nat} (hp : Sharing p) (hflags : 0 < flags)
    (hsmall : flags < pageSize) (h : p.mapPage address flags d = some p') :
    ∃ p₁ table, p.ensureTable (lowIndex address) flags d = some p₁ ∧
      Tabled p p₁ d (lowIndex address) table ∧ p₁.pageStack = p.pageStack ∧
      EntryFilled p₁ p' d address flags table := by
  have hspread := mapPage_spread hp hflags hsmall h
  obtain ⟨p₁, hensure, hfill⟩ := mapPage_filled hsmall h
  obtain ⟨table, htabled⟩ := ensureTable_tabled hp hensure
  obtain ⟨p₃, hfilled, rfl⟩ := hfill table htabled.base
  have hstack : p₁.pageStack = p.pageStack := by
    unfold State.ensureTable at hensure
    split at hensure
    · obtain ⟨⟨addr, p₂⟩, hkmalloc, rfl⟩ := Option.map_eq_some_iff.mp hensure
      obtain ⟨-, -, rfl⟩ := kmallocE_spec hkmalloc
      rfl
    · obtain rfl := Option.some.inj hensure
      rfl
  refine ⟨p₁, table, hensure, htabled, hstack, hspread.sharing,
    tableOf_flagged htabled.own hfilled.dir hflags hsmall, ?_, hfilled.memory⟩
  rcases hfilled.entry with ⟨hzero, frame, hpop, hword⟩ | hkept
  · have hpop : p₁.pageStack = frame :: p₃.pageStack := hpop
    have hlt := htabled.sharing.frames frame (hpop ▸ List.mem_cons_self)
    exact Or.inl ⟨hzero, frame, hpop, hword hlt⟩
  · exact Or.inr hkept

/-- An entry that is not the one of the page is what it was. -/
theorem EntryFilled.getPage_same {p p₁ p' : State} {a address flags d d' table : Nat}
    (h : EntryFilled p₁ p' d address flags table)
    (htabled : Tabled p p₁ d (lowIndex address) table)
    (hother : ∀ t, tableOf p₁ d' (lowIndex a) = some t →
      ¬ ((lowIndex a = lowIndex address ∧ highIndex a = highIndex address) ∧ t = table)) :
    p'.getPage a d' = p₁.getPage a d' := by
  have hhigh : ∀ a, highIndex a < 0x400 := fun a => Nat.mod_lt _ (by decide)
  rcases ht : tableOf p₁ d' (lowIndex a) with _ | t
  · rw [getPage_of_none ht, getPage_of_none ((h.tables d' _).trans ht)]
  · have hpos := (htabled.sharing.below _ _ _ ht).1
    rw [getPage_eq_read ht hpos, getPage_eq_read ((h.tables d' _).trans ht) hpos]
    rcases entries_apart htabled.sharing ht htabled.own (hhigh a) (hhigh address) with
      heq | hentries
    · exact absurd heq (hother t ht)
    · exact h.memory _ hentries

/-- **`map_page` touches one page**, where its table is early or there already. -/
theorem mapPage_touched {p p' : State} {address flags d : Nat} (hp : Paged p) (hflags : 0 < flags)
    (hsmall : flags < pageSize) (h : p.mapPage address flags d = some p') :
    PageTouched p p' address flags d := by
  obtain ⟨p₁, table, hensure, htabled, hstack, hentered⟩ :=
    mapPage_entered hp.sharing hflags hsmall h
  have hbefore := ensureTable_getPage hp.sharing hensure
  have hpos := (htabled.sharing.below _ _ _ htabled.own).1
  have hold : p.getPage address d = read32 p₁.mem (entryAt table (highIndex address)) :=
    (hbefore address d).symm.trans (getPage_eq_read htabled.own hpos)
  have hnew : p'.getPage address d = read32 p'.mem (entryAt table (highIndex address)) :=
    getPage_eq_read ((hentered.tables d _).trans htabled.own) hpos
  have hothers : ∀ a d', a / pageSize ≠ address / pageSize → p'.getPage a d' = p.getPage a d' :=
    fun a d' hne => (hentered.getPage_same htabled fun t _ heq =>
      hne ((samePage_iff address a).mp heq.1)).trans (hbefore a d')
  refine ⟨?_, fun hne => ?_, fun hzero => ?_, hothers, fun d' hne hshares => ?_,
    fun hnone a hlow hne => ?_⟩
  · rw [hnew]
    rcases hentered.filled with ⟨-, frame, -, hword⟩ | ⟨-, -, hword⟩
    · rw [hword, or_and_self]
    · rw [hword, or_and_self]
  · rw [hnew, hold]
    rcases hentered.filled with ⟨hzero, -⟩ | ⟨-, hkept, hword⟩
    · exact absurd (hold.trans hzero) hne
    · exact ⟨by rw [hword, pageBase_or _ hsmall], hkept.trans hstack⟩
  · rw [hnew]
    rcases hentered.filled with ⟨-, frame, hpop, hword⟩ | ⟨hne, -⟩
    · rw [hstack] at hpop
      have hframe := hp.aligned frame (hpop ▸ List.mem_cons_self)
      exact ⟨frame, hpop, by rw [hword, pageBase_or _ hsmall, pageBase_of_mod hframe]⟩
    · exact absurd (hold.symm.trans hzero) hne
  · refine (hentered.getPage_same htabled fun t ht heq => hshares ?_).trans (hbefore address d')
    refine (htabled.shared d' hne).mp ?_
    rw [← heq.2, ← ht]
    exact (htabled.others d' _ fun hpair => hne (Prod.mk.inj hpair).1).symm
  · rw [hothers a d hne]
    exact getPage_of_none (hlow ▸ hnone)

theorem Paged.mapPage {p p' : State} {address flags d : Nat} (hp : Paged p) (hflags : 0 < flags)
    (hsmall : flags < pageSize) (h : p.mapPage address flags d = some p') : Paged p' := by
  obtain ⟨p₁, table, -, -, hstack, hentered⟩ := mapPage_entered hp.sharing hflags hsmall h
  refine ⟨hentered.sharing, fun f hf => hp.aligned f ?_⟩
  rw [← hstack]
  rcases hentered.filled with ⟨-, frame, hpop, -⟩ | ⟨-, hkept, -⟩
  · exact hpop ▸ List.mem_cons_of_mem frame hf
  · exact hkept ▸ hf

theorem Paged.mapPages {p p' : State} {start stop flags d : Nat} (hp : Paged p) (hflags : 0 < flags)
    (hsmall : flags < pageSize) (h : p.mapPages start stop flags d = some p') : Paged p' :=
  @mapPages_induct start stop flags d (fun _ p => Paged p)
    (fun _ _ _ _ hp hmap => hp.mapPage hflags hsmall hmap) p p' hp h

/-- No slot loses its table. -/
theorem mapPage_tabled {p p' : State} {address flags d d' low : Nat} (hp : Sharing p)
    (hflags : 0 < flags) (hsmall : flags < pageSize) (h : p.mapPage address flags d = some p')
    (hown : tableOf p d' low ≠ none) : tableOf p' d' low ≠ none := by
  obtain ⟨p₁, table, -, htabled, -, hentered⟩ := mapPage_entered hp hflags hsmall h
  rw [hentered.tables]
  by_cases heq : (d', low) = (d, lowIndex address)
  · obtain ⟨rfl, rfl⟩ := Prod.mk.inj heq
    rw [htabled.own]
    exact Option.some_ne_none table
  · rwa [htabled.others d' low heq]

/-! ### Tables that are early -/

namespace Kernel

variable {k k' : Kernel} {depth flags d : Nat}

/-- A slot that has its table asks for none. -/
theorem mapPage_own (kmalloc : Kernel → Except Halt (Block × Kernel)) {address : Nat}
    (hown : tableOf k.paging d (lowIndex address) ≠ none) :
    k.mapPage kmalloc address flags d = k.put (k.paging.mapPage address flags d) := by
  have hne : (k.paging.dir d).tables (address / 2 ^ 22) ≠ 0 := mt tableOf_eq_none.mpr hown
  rw [← mapPage_early]
  unfold mapPage
  dsimp only
  rw [if_neg hne, if_neg hne]

theorem mapPage_of_early {address : Nat}
    (hearly : tableOf k.paging d (lowIndex address) ≠ none ∨ ¬ k.HeapActive) :
    k.mapPage (kmallocTable (depth + 1)) address flags d =
      k.put (k.paging.mapPage address flags d) := by
  rcases hearly with hown | hinactive
  · exact mapPage_own _ hown
  · rw [← mapPage_early]
    unfold mapPage
    rw [kmallocTable_early depth hinactive]

theorem mapPages_of_early {start stop : Nat} (hp : Sharing k.paging) (hflags : 0 < flags)
    (hsmall : flags < pageSize)
    (hearly : (∀ a, InRange start stop a → tableOf k.paging d (lowIndex a) ≠ none) ∨
      ¬ k.HeapActive) :
    k.mapPages (kmallocTable (depth + 1)) start stop flags d =
      k.put (k.paging.mapPages start stop flags d) := by
  rcases hearly with hown | hinactive
  · refine @mapPages_put _ (fun k' => Sharing k'.paging ∧ ∀ a, InRange start stop a →
      tableOf k'.paging d (lowIndex a) ≠ none) start stop flags d (fun k' i hi hk' => ?_)
      (fun k' i p hk' hmap => ?_) k ⟨hp, hown⟩
    · refine mapPage_own _ (hk'.2 _ ?_)
      unfold InRange
      rw [Nat.add_mul_div_right _ _ (by decide)]
      omega
    · exact ⟨(mapPage_spread hk'.1 hflags hsmall hmap).sharing, fun a ha =>
        mapPage_tabled hk'.1 hflags hsmall hmap (hk'.2 a ha)⟩
  · refine mapPages_congr (fun k' hk' => kmallocTable_early depth fun hactive => ?_) start stop
      flags d
    obtain ⟨h, hheap, hfull⟩ := hactive
    exact hinactive ⟨h, hk'.symm.trans hheap, hfull⟩

end Kernel

/-! ### A run -/

/-- A new page table comes from early memory: there is no heap, or it is marked full. -/
def TablesEarly (k : Kernel) : TableOp → Kernel → Prop
  | .mapPage address _ d, _ => tableOf k.paging d (lowIndex address) ≠ none ∨ ¬ k.HeapActive
  | .mapPages start stop _ d, _ =>
      (∀ a, InRange start stop a → tableOf k.paging d (lowIndex a) ≠ none) ∨ ¬ k.HeapActive
  | .clone .., _ => True
  | .elsewhere .., _ => True

def OnePage (k : Kernel) : TableOp → Kernel → Prop
  | .mapPage address permissions d, k' => PageTouched k.paging k'.paging address permissions d
  | _, _ => True

/-- The calls that map, in the words of `Mem/Paging`. -/
theorem tableStep_mapPage {depth address flags d : Nat} {k k' : Kernel}
    (hstep : tableStep depth k (.mapPage address flags d) = some k')
    (hearly : TablesEarly k (.mapPage address flags d) k') :
    0 < flags ∧ flags < pageSize ∧ k.paging.mapPage address flags d = some k'.paging := by
  obtain ⟨⟨-, hflags, hsmall⟩, hmap⟩ := Option.ite_none_right_eq_some.mp hstep
  rw [Kernel.mapPage_of_early hearly] at hmap
  exact ⟨hflags, hsmall, Kernel.put_toOption hmap⟩

theorem tableStep_mapPages {depth start stop flags d : Nat} {k k' : Kernel}
    (hk : Sharing k.paging)
    (hstep : tableStep depth k (.mapPages start stop flags d) = some k')
    (hearly : TablesEarly k (.mapPages start stop flags d) k') :
    0 < flags ∧ flags < pageSize ∧ k.paging.mapPages start stop flags d = some k'.paging := by
  obtain ⟨⟨-, -, hflags, hsmall⟩, hmap⟩ := Option.ite_none_right_eq_some.mp hstep
  rw [Kernel.mapPages_of_early hk hflags hsmall hearly] at hmap
  exact ⟨hflags, hsmall, Kernel.put_toOption hmap⟩

theorem tableStep_paged {depth : Nat} (k : Kernel) (op : TableOp) (k' : Kernel)
    (hk : Paged k.paging) (hstep : tableStep depth k op = some k') (hearly : TablesEarly k op k') :
    Paged k'.paging := by
  cases op with
  | mapPage address flags d =>
      obtain ⟨hflags, hsmall, hmap⟩ := tableStep_mapPage hstep hearly
      exact hk.mapPage hflags hsmall hmap
  | mapPages start stop flags d =>
      obtain ⟨hflags, hsmall, hmap⟩ := tableStep_mapPages hk.sharing hstep hearly
      exact hk.mapPages hflags hsmall hmap
  | clone src new =>
      dsimp only [tableStep] at hstep
      obtain ⟨p, hclone, rfl⟩ := Option.map_eq_some_iff.mp hstep
      refine ⟨(clonePageDir_spec hk.sharing hclone).1, fun f hf => hk.aligned f ?_⟩
      obtain ⟨⟨_, p₁⟩, hkmalloc, rfl⟩ := Option.map_eq_some_iff.mp hclone
      obtain ⟨-, -, rfl⟩ := kmallocE_spec hkmalloc
      exact hf
  | elsewhere kheap mem placement current =>
      obtain rfl := Option.some.inj hstep
      exact ⟨hk.sharing.congr (fun _ _ => rfl) (Nat.le_max_left _ _) fun _ hf => hf, hk.aligned⟩

theorem paged_empty (mem : Memory) (frames : List (Fin (2 ^ 20))) {placement : Nat}
    (hplaced : 0 < placement) : Paged (State.empty mem frames placement) :=
  ⟨sharing_empty mem frames hplaced, fun f hf =>
    ((tablesOk_empty mem frames placement).frames f hf).1⟩

/--
**`map_page` touches one page, as long as no page table comes from the heap.**  From empty
directories, in every run in which tables are early, whatever the rest of the kernel does.
-/
theorem map_page_touches_one (mem : Memory) (frames : List (Fin (2 ^ 20))) {placement : Nat}
    (hplaced : 0 < placement) (kheap : Option Kheap) (current depth : Nat) (ops : List TableOp)
    (hearly : EveryStep (tableStep depth) TablesEarly
      ⟨State.empty mem frames placement, kheap, current⟩ ops) :
    EveryStep (tableStep depth) OnePage ⟨State.empty mem frames placement, kheap, current⟩ ops := by
  refine everyStep_of_inv tableStep_paged (fun k op k' hk hstep hearly => ?_)
    (paged_empty mem frames hplaced) hearly
  cases op with
  | mapPage address flags d =>
      obtain ⟨hflags, hsmall, hmap⟩ := tableStep_mapPage hstep hearly
      exact mapPage_touched hk hflags hsmall hmap
  | mapPages => exact trivial
  | clone => exact trivial
  | elsewhere => exact trivial

/-- A page of a directory, which is cloned then. -/
theorem map_page_touches_one_clone :
    EveryStep (tableStep 1) OnePage ⟨State.empty (fun _ => 0) [5, 6] 0x200000, none, 0⟩
      [.mapPage 0xd0001000 kernelPages 0, .clone 0 1] :=
  map_page_touches_one (fun _ => 0) [5, 6] (by decide) none 0 1 _ fun _ _ =>
    ⟨Or.inr fun ⟨_, hnone, _⟩ => Option.some_ne_none _ hnone.symm, fun _ _ => ⟨trivial, trivial⟩⟩

/-! ### Tables from the heap -/

namespace Kernel

variable {k k' : Kernel} {h : Kheap} {half : Halving.Block} {depth address flags d : Nat}

/-- A half for a page table starts with a page. -/
theorem half_page_aligned (h : Kheap) {mem : Mem}
    (hsearch : search mem h.heap.block (bytesFor 0x1000) = some half) :
    half.start % pageSize = 0 ∧ 0 < half.start := by
  obtain ⟨hroot, n, hn, -, hsize⟩ := h.made.spec
  have hbig : 2 ^ 20 ≤ h.heap.size := by
    rw [hsize]
    exact Nat.pow_le_pow_right (by decide) hn
  have hblock : h.heap.block.size = h.heap.size := rfl
  have hneed : bytesFor 0x1000 = 0x1004 := by decide +kernel
  have hfits : 0x1004 ≤ 4 * half.size := by
    rw [hneed] at hsearch
    exact search_fits hsearch (by omega)
  obtain ⟨hin, -, -⟩ := search_spec hsearch
  obtain ⟨j, hhalf, hj, m, hstart⟩ := hin.within.aligned (by omega) hsize
  have hten : 2 ^ 10 ∣ 2 ^ j := by
    refine Nat.pow_dvd_pow 2 (Nat.le_of_not_lt fun hlt => ?_)
    have hle : 2 ^ j ≤ 2 ^ 9 := Nat.pow_le_pow_right (by decide) (Nat.le_of_lt_succ hlt)
    omega
  obtain ⟨c, hc⟩ := hten
  have hmul : 4 * (2 ^ 10 * c) * m = 0x1000 * (c * m) := by ring
  have hroot : h.heap.block.start = 0xc0000000 := hroot
  rw [hstart, hroot, hc, hmul]
  unfold pageSize
  omega

/-- The table is one header behind the start of the half that the search finds. -/
theorem mapPage_from_heap (depth flags : Nat) (hk : k.kheap = some h) (hfull : h.heap.full = false)
    (hsearch : search (read32 k.paging.mem) h.heap.block (bytesFor 0x1000) = some half)
    (hnone : tableOf k.paging d (lowIndex address) = none) :
    ∃ physical, k.mapPage (kmallocTable (depth + 1)) address flags d =
      k.put (((k.mark half.start).paging.placeTable (lowIndex address) flags d
        ⟨half.start + nodeBytes, physical⟩).enterPage (lowIndex address) (highIndex address)
        flags d) := by
  have hkmalloc := @kmalloc_of_search depth 1 0x1000 k h half hk hfull hsearch
  have hzero : (k.paging.dir d).tables (address / 2 ^ 22) = 0 := tableOf_eq_none.mp hnone
  refine ⟨(k.mark half.start).paging.getPage (half.start + nodeBytes) k.current, ?_⟩
  unfold mapPage kmallocTable
  dsimp only
  rw [if_pos hzero, hkmalloc]
  dsimp only [Except.map, Except.bind]
  unfold lowIndex highIndex
  rcases State.enterPage _ _ _ _ _ with _ | p
  · rfl
  · rfl

/-- **The header of a table from the heap is what the first page of the slot gets.** -/
theorem heap_table_dirty (hk : k.kheap = some h) (hfull : h.heap.full = false)
    (hsearch : search (read32 k.paging.mem) h.heap.block (bytesFor 0x1000) = some half)
    (hnone : tableOf k.paging d (lowIndex address) = none) (hflags : 0 < flags)
    (hsmall : flags < pageSize)
    (hmap : k.mapPage (kmallocTable (depth + 1)) address flags d = .ok k') (a : Nat)
    (hlow : lowIndex a = lowIndex address) (hfirst : highIndex a = 0) :
    pageBase (k'.paging.getPage a d) = pageBase kheapMagic := by
  obtain ⟨physical, heq⟩ := @mapPage_from_heap k h half address d depth flags hk hfull hsearch hnone
  obtain ⟨p, henter, rfl⟩ := put_eq_ok (heq.symm.trans hmap)
  have hentered := enterPage_spec hsmall henter
  obtain ⟨haligned, hpos⟩ := half_page_aligned h hsearch
  have hbase : pageBase (half.start + nodeBytes) = half.start := by
    unfold pageBase nodeBytes
    unfold pageSize at *
    omega
  have htable : tableOf p d (lowIndex a) = some half.start := by
    rw [hentered.tableOf_new hflags hsmall, if_pos ⟨rfl, hlow⟩]
    exact congrArg some hbase
  have hmagic : read32 (k.mark half.start).paging.mem (entryAt half.start 0) = kheapMagic :=
    read32_write32 _ _ (by decide)
  obtain ⟨-, hkeeps⟩ := @PageEntered.keeps_new _ _ _ _ _ _ 0 _ hentered haligned
    (Or.inl (Nat.le_refl _)) (by rw [hmagic]; decide)
  rw [getPage_eq_read htable hpos, hfirst, hkeeps, hmagic]

/-- Such a `map_page` returns, as long as there are frames. -/
theorem mapPage_from_heap_total (depth : Nat) (hk : k.kheap = some h) (hfull : h.heap.full = false)
    (hsearch : search (read32 k.paging.mem) h.heap.block (bytesFor 0x1000) = some half)
    (hnone : tableOf k.paging d (lowIndex address) = none) (hstack : k.paging.pageStack ≠ []) :
    ∃ k', k.mapPage (kmallocTable (depth + 1)) address flags d = .ok k' := by
  obtain ⟨physical, heq⟩ := @mapPage_from_heap k h half address d depth flags hk hfull hsearch hnone
  obtain ⟨p, henter⟩ := @enterPage_total ((k.mark half.start).paging.placeTable
    (lowIndex address) flags d ⟨half.start + nodeBytes, physical⟩) (lowIndex address)
    (highIndex address) flags d hstack
  rw [heq, henter]
  exact ⟨_, rfl⟩

end Kernel

/-- The kernel gets a heap in which nothing is marked. -/
def withHeap (p : State) : Kernel :=
  Kernel.elsewhere (some ⟨initHeap kheapStart kheapSize, .init⟩) (fun _ => 0) 0 0 ⟨p, none, 0⟩

theorem withHeap_search {p : State} (hplacement : p.placement ≤ kheapStart) :
    ∃ half, search (read32 (withHeap p).paging.mem) (initHeap kheapStart kheapSize).block
      (bytesFor 0x1000) = some half := by
  refine Option.ne_none_iff_exists'.mp fun hsearch => ?_
  rcases search_eq_none.mp hsearch with hsmall | ⟨hright, -⟩
  · exact absurd hsmall (by decide)
  · have hzero : read32 (withHeap p).paging.mem 0xc0200000 = 0 := by
      refine @read32_congr (fun _ => 0) _ _ fun b hb _ => if_neg ?_
      show ¬ b < p.placement
      unfold kheapStart at hplacement
      omega
    exact absurd (hzero.symm.trans hright) (by decide)

/-- The pages of the heap, then the heap, then a page somewhere else. -/
def heapRun : List TableOp :=
  [.mapPages 0xc0000000 0xc0401000 kernelPages 0,
    .elsewhere (some ⟨initHeap kheapStart kheapSize, .init⟩) (fun _ => 0) 0 0,
    .mapPage 0xd0001000 kernelPages 0]

/-- **With a page table from the heap `map_page` maps a second page**, to a frame whose number
is the header of the table. -/
theorem map_page_touches_two : ¬ EveryStep (tableStep 0) OnePage
    ⟨State.empty (fun _ => 0) bootFrames 0x200000, none, 0⟩ heapRun := by
  intro hall
  have hsharing := sharing_empty (fun _ => 0) bootFrames (show 0 < 0x200000 by decide)
  have hinactive : ¬ (⟨State.empty (fun _ => 0) bootFrames 0x200000, none, 0⟩ : Kernel).HeapActive :=
    fun ⟨_, hnone, _⟩ => Option.some_ne_none _ hnone.symm
  have hroomy : Roomy (State.empty (fun _ => 0) bootFrames 0x200000) (0x401 + 1) :=
    roomy_empty _ (Nat.le_trans (by decide) bootFrames_length) (by decide +kernel)
  -- the pages of the heap
  obtain ⟨p, hmap, hroomy'⟩ := @mapPages_total _ 0xc0000000 0xc0401000 1 kernelPages 0
    (by decide +kernel) hroomy
  have hstep : tableStep 0 ⟨State.empty (fun _ => 0) bootFrames 0x200000, none, 0⟩
      (.mapPages 0xc0000000 0xc0401000 kernelPages 0) = some ⟨p, none, 0⟩ := by
    dsimp only [tableStep]
    rw [if_pos ⟨by decide, by decide, kernelPages_pos, kernelPages_small⟩,
      Kernel.mapPages_of_early hsharing kernelPages_pos kernelPages_small (Or.inr hinactive), hmap]
    rfl
  have hspread := mapPages_spread hsharing kernelPages_pos kernelPages_small hmap
  have hnone : tableOf (withHeap p).paging 0 (lowIndex 0xd0001000) = none := by
    refine (hspread.others 0 _ fun _ a ha => ?_).trans (if_pos rfl)
    unfold InRange pageCount pageSize at ha
    unfold lowIndex
    omega
  -- the heap
  obtain ⟨-, hroom⟩ := mapPages_early (early_empty (fun _ => 0) bootFrames (by decide)) (by decide)
    kernelPages_pos kernelPages_small hmap
  have hplacement : p.placement ≤ kheapStart :=
    (pageUp_spec _).2.trans (hroom.trans (by decide +kernel))
  obtain ⟨half, hsearch⟩ := withHeap_search hplacement
  have hstack : (withHeap p).paging.pageStack ≠ [] := List.ne_nil_of_length_pos hroomy'.1
  -- the page
  obtain ⟨k', hk'⟩ := @Kernel.mapPage_from_heap_total (withHeap p) _ half 0xd0001000 kernelPages 0 0
    rfl rfl hsearch hnone hstack
  have hdirty := Kernel.heap_table_dirty rfl rfl hsearch hnone kernelPages_pos kernelPages_small hk'
    0xd0000000 (by decide) (by decide)
  have hstep' : tableStep 0 (withHeap p) (.mapPage 0xd0001000 kernelPages 0) = some k' := by
    dsimp only [tableStep]
    rw [if_pos ⟨by decide, kernelPages_pos, kernelPages_small⟩]
    exact congrArg Except.toOption hk'
  have htouched : PageTouched (withHeap p).paging k'.paging 0xd0001000 kernelPages 0 :=
    (((hall _ hstep).2 _ rfl).2 k' hstep').1
  rw [htouched.fresh hnone 0xd0000000 (by decide) (by decide)] at hdirty
  exact absurd hdirty (by decide)

end OsThing.Paging
