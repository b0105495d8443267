/-
Why early memory is mapped to itself.

Nothing in `init_paging` says so.  Frames are popped from frame 0 upwards and tables are taken
from `placement` upwards, so that both are numbered in the order in which pages and slots are
first asked for, whatever that order is: `Laid`.  The first range asks for the pages from 0 on,
and gets the frames from 0 on.  The heap gets those that follow.

The tables are below the end of the first range as long as there are no more than the 400 pages
that `init_paging` adds to `placement`, and two of them are for the heap.
-/
import OsThing.Lib.Numbering
import OsThing.Proofs.BootFrames

namespace OsThing.Paging

open Alloc Bytes Numbering

/-! ### One page -/

/-- What `map_page` does to the tables of a directory. -/
structure MapsTable (p p' : State) (d low : Nat) : Prop where
  old : tableOf p d low ≠ none → p'.placement = p.placement ∧
    ∀ low', tableOf p' d low' = tableOf p d low'
  new : tableOf p d low = none → p'.placement = pageUp p.placement + pageSize ∧ ∀ low',
    tableOf p' d low' = if low' = low then some (pageUp p.placement) else tableOf p d low'

theorem mapPage_mapsTable {p p' : State} {address flags d : Nat} (hflags : 0 < flags)
    (hsmall : flags < pageSize) (h : p.mapPage address flags d = some p') :
    MapsTable p p' d (lowIndex address) := by
  rw [State.mapPage_eq_from] at h
  obtain ⟨p₁, henter, ⟨hsome, rfl⟩ | ⟨hnone, block, p₀, hkmalloc, rfl⟩⟩ := mapPageFrom_cases h
  · have hentered := enterPage_spec hsmall henter
    have hown : tableOf p₁ d (lowIndex address) ≠ none := mt tableOf_eq_none.mp hsome
    refine ⟨fun _ => ⟨hentered.placement, fun low' => ?_⟩, fun hnone => absurd hnone hown⟩
    rw [hentered.tableOf hflags hsmall]
    split
    · rename_i heq
      rw [heq.2]
      exact (if_neg hsome).symm
    · rfl
  · have hown : tableOf p d (lowIndex address) = none := tableOf_eq_none.mpr hnone
    obtain ⟨haligned, -⟩ := pageUp_spec p.placement
    unfold State.earlyBlock State.kmallocE at hkmalloc
    dsimp only at hkmalloc
    split at hkmalloc
    · obtain ⟨rfl, rfl⟩ := Prod.mk.inj (Option.some.inj hkmalloc)
      have hentered := enterPage_spec hsmall henter
      refine ⟨fun hsome => absurd hown hsome, fun _ => ⟨hentered.placement, fun low' => ?_⟩⟩
      rw [hentered.tableOf_new hflags hsmall, pageBase_of_mod haligned]
      exact if_congr (and_iff_right rfl) rfl rfl
    · cases hkmalloc

/-- Frames and tables went to pages and slots in the order of the lists. -/
structure Laid (frames base : Nat) (pages slots : List Nat) (p : State) : Prop where
  tables : TablesOk p
  sharing : Sharing p
  stack : p.pageStack = (List.range' pages.length (frames - pages.length)).map (· * pageSize)
  frameOf : ∀ low high, high < 0x400 → Paging.frameOf p (0, low, high) =
    (numberOf pages (low * 0x400 + high)).map (· * pageSize)
  tableOf : ∀ low, Paging.tableOf p 0 low = (numberOf slots low).map (base + · * pageSize)
  placement : pageUp p.placement = base + slots.length * pageSize

theorem lowIndex_page (m : Nat) : lowIndex (m * pageSize) = m / 0x400 := by
  unfold lowIndex pageSize
  omega

theorem pageUp_aligned {a : Nat} (h : a % pageSize = 0) : pageUp a = a := if_pos h

section Laid

variable {frames base : Nat} {pages slots : List Nat} {p p' : State}

theorem Laid.mapPage_frames (hp : Laid frames base pages slots p) {m : Nat}
    (h : p.mapPage (m * pageSize) kernelPages 0 = some p') :
    p'.pageStack =
        (List.range' (ask pages m).length (frames - (ask pages m).length)).map (· * pageSize) ∧
      ∀ low high, high < 0x400 → Paging.frameOf p' (0, low, high) =
        (numberOf (ask pages m) (low * 0x400 + high)).map (· * pageSize) := by
  have htakes := mapPage_takesFrame hp.tables hp.sharing h
  have hframe := hp.frameOf (m / 0x400) (m % 0x400) (Nat.mod_lt _ (by omega))
  rw [Nat.div_add_mod'] at hframe
  have hasked : Paging.frameOf p (0, m / 0x400, m % 0x400) = none ↔ m ∉ pages := by
    rw [hframe, Option.map_eq_none_iff, numberOf_eq_none]
  rcases htakes.own with ⟨hnone, frame, hpop, hnew⟩ | ⟨hsome, hsame, hkept⟩
  · have hm := hasked.mp hnone
    rw [hp.stack] at hpop
    rcases hleft : frames - pages.length with _ | k
    · rw [hleft] at hpop
      cases hpop
    · rw [hleft, List.range'_succ, List.map_cons] at hpop
      obtain ⟨rfl, hrest⟩ := List.cons.inj hpop
      refine ⟨?_, fun low high hlt => ?_⟩
      · rw [← hrest, ask_of_not_mem hm, List.length_append, List.length_singleton,
          show frames - (pages.length + 1) = k by omega]
      · rw [numberOf_ask]
        by_cases heq : low * 0x400 + high = m
        · obtain ⟨rfl, rfl⟩ : low = m / 0x400 ∧ high = m % 0x400 := by omega
          rw [if_pos ⟨hm, heq⟩, hnew]
          rfl
        · rw [if_neg fun h => heq h.2, htakes.others low high hlt heq]
          exact hp.frameOf low high hlt
  · rw [ask_of_mem (not_not.mp (mt hasked.mpr hsome))]
    refine ⟨hsame.trans hp.stack, fun low high hlt => ?_⟩
    refine Eq.trans ?_ (hp.frameOf low high hlt)
    by_cases heq : low * 0x400 + high = m
    · obtain ⟨rfl, rfl⟩ : low = m / 0x400 ∧ high = m % 0x400 := by omega
      exact hkept
    · exact htakes.others low high hlt heq

theorem Laid.mapPage_tables (hp : Laid frames base pages slots p) {m : Nat}
    (h : p.mapPage (m * pageSize) kernelPages 0 = some p') :
    (∀ low, Paging.tableOf p' 0 low =
        (numberOf (ask slots (m / 0x400)) low).map (base + · * pageSize)) ∧
      pageUp p'.placement = base + (ask slots (m / 0x400)).length * pageSize := by
  have htable := mapPage_mapsTable kernelPages_pos kernelPages_small h
  rw [lowIndex_page] at htable
  have hasked : Paging.tableOf p 0 (m / 0x400) = none ↔ m / 0x400 ∉ slots := by
    rw [hp.tableOf, Option.map_eq_none_iff, numberOf_eq_none]
  by_cases hm : m / 0x400 ∈ slots
  · obtain ⟨hplacement, hsame⟩ := htable.old fun hnone => hasked.mp hnone hm
    rw [ask_of_mem hm]
    exact ⟨fun low => (hsame low).trans (hp.tableOf low), hplacement ▸ hp.placement⟩
  · obtain ⟨hplacement, hnew⟩ := htable.new (hasked.mpr hm)
    have haligned : (pageUp p.placement + pageSize) % pageSize = 0 := by
      rw [Nat.add_mod_right]
      exact (pageUp_spec _).1
    refine ⟨fun low => ?_, ?_⟩
    · rw [hnew, numberOf_ask]
      by_cases heq : low = m / 0x400
      · rw [if_pos heq, if_pos ⟨hm, heq⟩, hp.placement]
        rfl
      · rw [if_neg heq, if_neg fun h => heq h.2]
        exact hp.tableOf low
    · rw [hplacement, pageUp_aligned haligned, hp.placement, ask_of_not_mem hm,
        List.length_append, List.length_singleton, Nat.succ_mul, Nat.add_assoc]

/-- The next page gets the next frame, and the next slot the next table. -/
theorem Laid.mapPage (hp : Laid frames base pages slots p) {m : Nat}
    (h : p.mapPage (m * pageSize) kernelPages 0 = some p') :
    Laid frames base (ask pages m) (ask slots (m / 0x400)) p' := by
  have hmapped := mapPage_spec hp.tables kernelPages_pos kernelPages_small h
  have hspread := mapPage_spread hp.sharing kernelPages_pos kernelPages_small h
  obtain ⟨hstack, hframes⟩ := hp.mapPage_frames h
  obtain ⟨htables, hplacement⟩ := hp.mapPage_tables h
  exact ⟨hmapped.tables, hspread.sharing, hstack, hframes, htables, hplacement⟩

/-- There is a frame left, and room for one more table. -/
theorem Laid.mapPage_total (hp : Laid frames base pages slots p) (hpages : pages.length < frames)
    (hroom : base + (slots.length + 1) * pageSize ≤ space) (m : Nat) :
    ∃ p', p.mapPage (m * pageSize) kernelPages 0 = some p' := by
  have hroom : pageUp p.placement + pageSize ≤ space := by
    rw [hp.placement, Nat.add_assoc, ← Nat.succ_mul]
    exact hroom
  have hne : p.pageStack ≠ [] := by
    rw [hp.stack]
    refine List.ne_nil_of_length_pos ?_
    rw [List.length_map, List.length_range']
    omega
  obtain ⟨p₁, hensure, hsame⟩ : ∃ p₁, p.ensureTable (m * pageSize / 2 ^ 22) kernelPages 0 = some p₁ ∧
      p₁.pageStack = p.pageStack := by
    unfold State.ensureTable
    split
    · rw [kmallocE_at rfl hroom]
      exact ⟨_, rfl, rfl⟩
    · exact ⟨p, rfl, rfl⟩
  have hfill : ∀ low table e, ∃ p', (p₁.setTable 0 low table).fillEntry e kernelPages = some p' ∧
      p'.placement = p₁.placement ∧ p₁.pageStack.length ≤ p'.pageStack.length + 1 :=
    fun low table e => fillEntry_total (p := p₁.setTable 0 low table) e kernelPages (hsame ▸ hne)
  unfold State.mapPage
  dsimp only
  rw [hensure, Option.bind_some]
  obtain ⟨p₃, hfilled, -⟩ := hfill (m * pageSize / 2 ^ 22)
    (pageBase ((p₁.dir 0).tables (m * pageSize / 2 ^ 22)))
    (entryAt (pageBase ((p₁.dir 0).tables (m * pageSize / 2 ^ 22))) (m * pageSize / 2 ^ 12 % 0x400))
  rw [hfilled]
  exact ⟨_, rfl⟩

/-! ### A range of pages -/

/-- The slots of `count` pages from `m` on. -/
def slotsOf (m count : Nat) : List Nat := (List.range' m count).map (· / 0x400)

theorem slotsOf_succ (m count : Nat) :
    slotsOf m (count + 1) = slotsOf m count ++ [(m + count) / 0x400] := by
  unfold slotsOf
  rw [List.range'_1_concat, List.map_append, List.map_singleton]

/-- `i` pages from `m` on have been mapped. -/
def LaidAt (frames base : Nat) (pages slots : List Nat) (m i : Nat) (p : State) : Prop :=
  Laid frames base (askAll pages (List.range' m i)) (askAll slots (slotsOf m i)) p

theorem LaidAt.step {m i : Nat} (hp : LaidAt frames base pages slots m i p)
    (h : p.mapPage (m * pageSize + i * pageSize) kernelPages 0 = some p') :
    LaidAt frames base pages slots m (i + 1) p' := by
  unfold LaidAt
  rw [← Nat.add_mul] at h
  rw [List.range'_1_concat, slotsOf_succ, askAll_append, askAll_append]
  exact Laid.mapPage hp h

theorem Laid.mapPages (hp : Laid frames base pages slots p) {m stop : Nat}
    (h : p.mapPages (m * pageSize) stop kernelPages 0 = some p') :
    LaidAt frames base pages slots m (pageCount (m * pageSize) stop) p' :=
  mapPages_induct (M := LaidAt frames base pages slots m)
    (fun _ _ _ _ hp hmap => hp.step hmap) hp h

theorem slotsOf_grown (m : Nat) {i count : Nat} (hi : i ≤ count) :
    slotsOf m i <+: slotsOf m count := by
  obtain ⟨rest, rfl⟩ := Nat.exists_eq_add_of_le hi
  unfold slotsOf
  rw [← List.range'_append_1, List.map_append]
  exact List.prefix_append _ _

theorem Laid.mapPages_total (hp : Laid frames base pages slots p) {m stop : Nat}
    (hends : m * pageSize + pageCount (m * pageSize) stop * pageSize < space)
    (hframes : pages.length + pageCount (m * pageSize) stop ≤ frames)
    (hroom : base + ((askAll slots (slotsOf m (pageCount (m * pageSize) stop))).length + 1) *
      pageSize ≤ space) :
    ∃ p', p.mapPages (m * pageSize) stop kernelPages 0 = some p' := by
  have hloop : ∀ n ≤ pageCount (m * pageSize) stop, ∃ p', (List.range n).foldlM
      (fun p i => p.mapPage (m * pageSize + i * pageSize) kernelPages 0) p = some p' ∧
        LaidAt frames base pages slots m n p' := by
    intro n
    induction n with
    | zero => exact fun _ => ⟨p, rfl, hp⟩
    | succ n ih =>
        intro hn
        obtain ⟨p₁, hfirst, hp₁⟩ := ih (Nat.le_of_succ_le hn)
        have hpages : (askAll pages (List.range' m n)).length < frames := by
          have hle := length_askAll_le pages (List.range' m n)
          rw [List.length_range'] at hle
          omega
        have hslots : (askAll slots (slotsOf m n)).length ≤
            (askAll slots (slotsOf m (pageCount (m * pageSize) stop))).length := by
          obtain ⟨rest, hrest⟩ := slotsOf_grown m (Nat.le_of_succ_le hn)
          rw [← hrest, askAll_append]
          exact (prefix_askAll _ rest).length_le
        obtain ⟨p₂, hmap⟩ := Laid.mapPage_total hp₁ hpages
          (Nat.le_trans (Nat.add_le_add_left (Nat.mul_le_mul_right _ (Nat.succ_le_succ hslots)) _)
            hroom) (m + n)
        rw [Nat.add_mul] at hmap
        refine ⟨p₂, ?_, hp₁.step hmap⟩
        rw [List.range_succ, List.foldlM_append, hfirst]
        show (p₁.mapPage _ _ _).bind _ = _
        rw [hmap]
        rfl
  obtain ⟨p', hfold, -⟩ := hloop _ (Nat.le_refl _)
  unfold State.mapPages
  rw [if_neg (Nat.not_le_of_lt hends)]
  exact ⟨p', hfold⟩

end Laid

/-! ### The two ranges -/

/-- The end of the first range, where `placement` is behind the page stack. -/
def firstEnd (placement : Nat) : Nat := (placement + pageSize * 400) % space

/-- How many pages the first range has, and how many slots they are in. -/
def firstPages (placement : Nat) : Nat := pageCount 0 (firstEnd placement)
def firstSlots (placement : Nat) : Nat := (firstPages placement + 0x3ff) / 0x400

/-- The number of the first page of the heap, and how many pages are mapped for it. -/
def heapPage : Nat := kheapStart / pageSize
def heapPages : Nat := pageCount kheapStart (kheapStart + kheapSize + pageSize)

theorem heapPages_eq : heapPages = 0x401 := by decide +kernel

theorem askAll_slots (n : Nat) : askAll [] (slotsOf 0 n) = List.range' 0 ((n + 0x3ff) / 0x400) := by
  induction n with
  | zero => rfl
  | succ n ih =>
      rw [slotsOf_succ, askAll_append, ih, Nat.zero_add]
      by_cases hfirst : n % 0x400 = 0
      · have hnew : n / 0x400 ∉ List.range' 0 ((n + 0x3ff) / 0x400) := by
          rw [List.mem_range'_1]
          omega
        rw [askAll_cons, askAll_nil, ask_of_not_mem hnew,
          show (n + 1 + 0x3ff) / 0x400 = (n + 0x3ff) / 0x400 + 1 by omega, List.range'_1_concat,
          show n / 0x400 = 0 + (n + 0x3ff) / 0x400 by omega]
      · have hold : n / 0x400 ∈ List.range' 0 ((n + 0x3ff) / 0x400) := by
          rw [List.mem_range'_1]
          omega
        rw [askAll_cons, askAll_nil, ask_of_mem hold,
          show (n + 1 + 0x3ff) / 0x400 = (n + 0x3ff) / 0x400 by omega]

theorem askAll_slot (l : List Nat) (low : Nat) {count : Nat} (hpos : 0 < count)
    (hcount : count ≤ 0x400) : askAll l (slotsOf (low * 0x400) count) = ask l low := by
  induction count with
  | zero => exact absurd hpos (Nat.lt_irrefl 0)
  | succ n ih =>
      rw [slotsOf_succ, askAll_append, show (low * 0x400 + n) / 0x400 = low by omega]
      rcases n with _ | n
      · rfl
      · rw [ih (Nat.succ_pos n) (Nat.le_of_succ_le hcount)]
        exact ask_of_mem (mem_ask l low)

/-- The heap asks for two tables. -/
theorem askAll_heapSlots {k : Nat} (hk : k ≤ 0x300) :
    askAll (List.range' 0 k) (slotsOf heapPage heapPages) = List.range' 0 k ++ [0x300, 0x301] := by
  rw [heapPages_eq, show heapPage = 0x300 * 0x400 by decide, slotsOf_succ, askAll_append,
    askAll_slot _ _ (by decide) (Nat.le_refl _)]
  show askAll (List.range' 0 k) [0x300, 0x301] = _
  refine askAll_of_new (by decide) fun low hlow hmem => ?_
  have hlt := (List.mem_range'_1.mp hmem).2
  simp only [List.mem_cons, List.not_mem_nil, or_false] at hlow
  omega

theorem askAll_heapPages {n : Nat} (hn : n ≤ heapPage) :
    askAll (List.range' 0 n) (List.range' heapPage heapPages) =
      List.range' 0 n ++ List.range' heapPage heapPages := by
  refine askAll_of_new List.nodup_range' fun m hm hmem => ?_
  have hlt := (List.mem_range'_1.mp hmem).2
  have hle := (List.mem_range'_1.mp hm).1
  omega

theorem askAll_firstPages (n : Nat) : askAll [] (List.range' 0 n) = List.range' 0 n :=
  askAll_of_new List.nodup_range' fun _ _ => List.not_mem_nil

theorem laid_empty (mem : Memory) {m placement : Nat} (hm : m < 2 ^ 20) (hplaced : 0 < placement) :
    Laid (m + 1) (pageUp placement) [] [] (State.empty mem (bootStack m) placement) := by
  have hcounted := counted_empty mem hm hplaced
  refine ⟨hcounted.tables, hcounted.sharing, hcounted.stack, fun low high hhigh => ?_,
    fun low => ?_, (Nat.add_zero _).symm⟩
  · rw [hcounted.frames low high hhigh, if_neg (Nat.not_lt_zero _)]
    rfl
  · exact if_pos rfl

/-- After the first range. -/
theorem laid_first {mem : Memory} {m placement : Nat} {p : State} (hm : m < 2 ^ 20)
    (hplaced : 0 < placement)
    (h : (State.empty mem (bootStack m) placement).mapPages 0 (firstEnd placement) kernelPages 0 =
      some p) :
    Laid (m + 1) (pageUp placement) (List.range' 0 (firstPages placement))
      (List.range' 0 (firstSlots placement)) p := by
  rw [← Nat.zero_mul pageSize] at h
  have hlaid := (laid_empty mem hm hplaced).mapPages h
  rw [Nat.zero_mul] at hlaid
  unfold LaidAt at hlaid
  rw [askAll_firstPages, askAll_slots] at hlaid
  exact hlaid

/-- What the boot leaves, wherever the kernel ends. -/
theorem initPaging_laid {mem : Memory} {m kernelEnd npages : Nat} {s : Spaces} (hm : m < 2 ^ 20)
    (h : initPaging mem (bootStack m) kernelEnd npages = some s) :
    ∃ p : State, s.paging = { p with placement := p.placement + heapSize } ∧
      Laid (m + 1) (pageUp (bootPlacement kernelEnd npages))
        (askAll (List.range' 0 (firstPages (bootPlacement kernelEnd npages)))
          (List.range' heapPage heapPages))
        (askAll (List.range' 0 (firstSlots (bootPlacement kernelEnd npages)))
          (slotsOf heapPage heapPages)) p := by
  obtain ⟨-, p₁, p₂, hlow, hheap, rfl⟩ := initPaging_cases h
  rw [show kheapStart = heapPage * pageSize by decide] at hheap
  exact ⟨p₂, rfl, Laid.mapPages (laid_first hm (Nat.succ_pos _) hlow) hheap⟩

/-! ### What the boot should leave -/

/-- A byte of the heap, as far as `init_paging` maps it. -/
def HeapAddress (a : Nat) : Prop := kheapStart ≤ a ∧ a < kheapStart + kheapSize + pageSize

/-- Early memory is mapped to itself up to the end of the first range, with the page tables and
the page stack in it, and the pages of the heap have frames of their own behind it. -/
structure BootIdentity (placement : Nat) (p : State) : Prop where
  direct : ∀ a, pageBase a < firstEnd placement →
    Translates p 0 a ∧ pageBase (p.getPage a 0) = pageBase a
  tables : ∀ low table, tableOf p 0 low = some table → table < firstEnd placement
  pageStack : placement ≤ firstEnd placement
  heapAbove : ∀ a, HeapAddress a →
    Translates p 0 a ∧ firstEnd placement ≤ pageBase (p.getPage a 0)
  heapApart : ∀ a b, HeapAddress a → HeapAddress b →
    pageBase (p.getPage a 0) = pageBase (p.getPage b 0) → pageBase a = pageBase b

/-- The first range ends early enough that there is room for its tables, and for two more. -/
def RoomForTables (placement : Nat) : Prop := placement + pageSize * 400 ≤ 398 * 0x400000

section Boot

variable {frames base : Nat} {pages slots : List Nat} {p : State}

theorem Laid.translates (hp : Laid frames base pages slots p) {a k : Nat}
    (h : numberOf pages (a / pageSize) = some k) :
    Translates p 0 a ∧ pageBase (p.getPage a 0) = k * pageSize := by
  have hframe := hp.frameOf (a / 2 ^ 22) (a / 2 ^ 12 % 0x400) (Nat.mod_lt _ (by decide))
  rw [pageAt_number, h] at hframe
  exact getPage_of_frameOf hp.sharing hframe

variable {placement : Nat}

theorem numberOf_firstPage {m : Nat} (hm : m < firstPages placement) :
    numberOf (askAll (List.range' 0 (firstPages placement)) (List.range' heapPage heapPages)) m =
      some m := by
  have hmem : m ∈ List.range' 0 (firstPages placement) := List.mem_range'_1.mpr (by omega)
  rw [numberOf_grown (prefix_askAll _ _) hmem, numberOf_range', if_pos (by omega)]
  rfl

theorem numberOf_heapPage {n m : Nat} (hn : n ≤ heapPage) (hlo : heapPage ≤ m)
    (hhi : m < heapPage + heapPages) :
    numberOf (askAll (List.range' 0 n) (List.range' heapPage heapPages)) m =
      some (n + (m - heapPage)) := by
  have hmem : m ∉ List.range' 0 n := fun h => by
    have hlt := (List.mem_range'_1.mp h).2
    omega
  rw [askAll_heapPages hn, numberOf_append_of_not_mem hmem, numberOf_range', if_pos ⟨hlo, hhi⟩,
    List.length_range']
  rfl

theorem lt_firstPages {m : Nat} : m < firstPages placement ↔ m * pageSize < firstEnd placement := by
  unfold firstPages pageCount pageSize
  omega

theorem heapPage_of_heapAddress {a : Nat} (ha : HeapAddress a) :
    heapPage ≤ a / pageSize ∧ a / pageSize < heapPage + heapPages := by
  obtain ⟨hlo, hhi⟩ := ha
  rw [heapPages_eq]
  unfold heapPage
  unfold kheapStart kheapSize at *
  unfold pageSize at *
  omega

theorem firstEnd_of_room (hroom : RoomForTables placement) :
    firstEnd placement = placement + pageSize * 400 ∧ firstPages placement ≤ heapPage ∧
      firstSlots placement ≤ 398 := by
  have hend : firstEnd placement = placement + pageSize * 400 := by
    refine Nat.mod_eq_of_lt ?_
    unfold RoomForTables at hroom
    unfold space
    omega
  refine ⟨hend, Nat.le_of_not_lt fun hlt => ?_, ?_⟩
  · have hheap := lt_firstPages.mp hlt
    rw [hend, show heapPage * pageSize = kheapStart by decide] at hheap
    unfold RoomForTables at hroom
    unfold kheapStart at hheap
    omega
  · unfold firstSlots firstPages pageCount
    rw [hend]
    unfold RoomForTables at hroom
    unfold pageSize at *
    omega

/-- The boot does what it should if there is room for the tables. -/
theorem bootIdentity_of_room (hroom : RoomForTables placement)
    (hp : Laid frames (pageUp placement)
      (askAll (List.range' 0 (firstPages placement)) (List.range' heapPage heapPages))
      (askAll (List.range' 0 (firstSlots placement)) (slotsOf heapPage heapPages)) p) :
    BootIdentity placement p := by
  obtain ⟨hend, hpages, hslots⟩ := firstEnd_of_room hroom
  refine ⟨fun a ha => ?_, fun low table ht => ?_, ?_, fun a ha => ?_, fun a b ha hb hsame => ?_⟩
  · exact hp.translates (numberOf_firstPage (lt_firstPages.mpr ha))
  · rw [hp.tableOf] at ht
    obtain ⟨k, hk, rfl⟩ := Option.map_eq_some_iff.mp ht
    have hlt := numberOf_lt hk
    rw [askAll_heapSlots (Nat.le_trans hslots (by decide)), List.length_append,
      List.length_range'] at hlt
    have hup := pageUp_lt placement
    have hcount : [0x300, 0x301].length = 2 := rfl
    rw [hend]
    unfold pageSize at *
    omega
  · rw [hend]
    exact Nat.le_add_right _ _
  · obtain ⟨hlo, hhi⟩ := heapPage_of_heapAddress ha
    obtain ⟨htrans, hframe⟩ := hp.translates (numberOf_heapPage hpages hlo hhi)
    refine ⟨htrans, ?_⟩
    rw [hframe]
    refine Nat.le_of_not_lt fun hlt => ?_
    have hbelow := lt_firstPages.mpr hlt
    omega
  · obtain ⟨hlo, hhi⟩ := heapPage_of_heapAddress ha
    obtain ⟨hlo', hhi'⟩ := heapPage_of_heapAddress hb
    rw [(hp.translates (numberOf_heapPage hpages hlo hhi)).2,
      (hp.translates (numberOf_heapPage hpages hlo' hhi')).2] at hsame
    have hframe := Nat.eq_of_mul_eq_mul_right (by decide) hsame
    unfold pageBase
    rw [show a / pageSize = b / pageSize by omega]

/-- If it does, then there is room for them. -/
theorem room_of_bootIdentity (hplacement : placement ≤ space)
    (hp : Laid frames (pageUp placement)
      (askAll (List.range' 0 (firstPages placement)) (List.range' heapPage heapPages))
      (askAll (List.range' 0 (firstSlots placement)) (slotsOf heapPage heapPages)) p)
    (h : BootIdentity placement p) : RoomForTables placement := by
  have hend : firstEnd placement = placement + pageSize * 400 := by
    have hstack := h.pageStack
    unfold firstEnd at *
    unfold pageSize space at *
    omega
  have hpages : firstPages placement ≤ heapPage := by
    refine Nat.le_of_not_lt fun hlt => ?_
    have hheap : HeapAddress kheapStart := ⟨Nat.le_refl _, by decide⟩
    have habove := (h.heapAbove kheapStart hheap).2
    rw [(hp.translates (a := kheapStart) (numberOf_firstPage hlt)).2] at habove
    exact absurd (lt_firstPages.mp hlt) (Nat.not_lt_of_le habove)
  have hslots : firstSlots placement ≤ 0x300 := by
    unfold firstSlots
    have hheap : heapPage = 0xc0000 := by decide
    omega
  -- the second table of the heap is the last one
  have hlast : numberOf (askAll (List.range' 0 (firstSlots placement)) (slotsOf heapPage heapPages))
      0x301 = some (firstSlots placement + 1) := by
    have hmem : 0x301 ∉ List.range' 0 (firstSlots placement) := fun hmem => by
      have hlt := (List.mem_range'_1.mp hmem).2
      omega
    rw [askAll_heapSlots hslots, numberOf_append_of_not_mem hmem, List.length_range']
    rfl
  have htable : pageUp placement + (firstSlots placement + 1) * pageSize < firstEnd placement :=
    h.tables 0x301 _ ((hp.tableOf 0x301).trans (by rw [hlast]; rfl))
  have hup := (pageUp_spec placement).2
  rw [hend] at htable
  have hfew : firstSlots placement ≤ 398 := by
    unfold pageSize at *
    omega
  unfold firstSlots firstPages pageCount at hfew
  rw [hend] at hfew
  unfold RoomForTables
  unfold pageSize at *
  omega

end Boot

/-! ### The machine -/

theorem space_of_room {placement : Nat} (hroom : RoomForTables placement) :
    placement ≤ space ∧ ∀ n ≤ 401, pageUp placement + n * pageSize ≤ space := by
  have hup := pageUp_lt placement
  unfold RoomForTables at hroom
  unfold pageSize space at *
  exact ⟨by omega, fun n hn => by omega⟩

/-- With frames for both ranges the boot comes back if there is room for the tables. -/
theorem mapPages_of_room (mem : Memory) {m placement : Nat} (hm : m < 2 ^ 20)
    (hplaced : 0 < placement) (hroom : RoomForTables placement)
    (hframes : firstPages placement + heapPages ≤ m + 1) : ∃ p₁ p₂,
      (State.empty mem (bootStack m) placement).mapPages 0 (firstEnd placement) kernelPages 0 =
        some p₁ ∧
      p₁.mapPages kheapStart (kheapStart + kheapSize + pageSize) kernelPages 0 = some p₂ := by
  obtain ⟨-, htables⟩ := space_of_room hroom
  obtain ⟨-, hpages, hslots⟩ := firstEnd_of_room hroom
  have hcount : pageCount (0 * pageSize) (firstEnd placement) = firstPages placement := by
    rw [Nat.zero_mul]
    rfl
  obtain ⟨p₁, hlow⟩ : ∃ p₁, (State.empty mem (bootStack m) placement).mapPages (0 * pageSize)
      (firstEnd placement) kernelPages 0 = some p₁ := by
    refine (laid_empty mem hm hplaced).mapPages_total ?_ ?_ ?_
    · rw [hcount, Nat.zero_mul, Nat.zero_add]
      exact Nat.lt_of_le_of_lt (Nat.mul_le_mul_right _ hpages) (by decide)
    · rw [hcount, List.length_nil]
      omega
    · rw [hcount, askAll_slots, List.length_range']
      exact htables _ (Nat.succ_le_succ (Nat.le_trans hslots (by decide)))
  rw [Nat.zero_mul] at hlow
  have hlaid := laid_first hm hplaced hlow
  obtain ⟨p₂, hheap⟩ : ∃ p₂, p₁.mapPages (heapPage * pageSize) (kheapStart + kheapSize + pageSize)
      kernelPages 0 = some p₂ := by
    refine hlaid.mapPages_total (by decide +kernel) ?_ ?_
    · rw [List.length_range']
      exact hframes
    · show pageUp placement + ((askAll _ (slotsOf heapPage heapPages)).length + 1) * pageSize ≤ _
      rw [askAll_heapSlots (Nat.le_trans hslots (by decide)), List.length_append,
        List.length_range']
      exact htables _ (Nat.add_le_add_right hslots 3)
  rw [show heapPage * pageSize = kheapStart by decide] at hheap
  exact ⟨p₁, p₂, hlow, hheap⟩

theorem initPaging_of_room (mem : Memory) {m kernelEnd npages : Nat} (hm : m < 2 ^ 20)
    (hroom : RoomForTables (bootPlacement kernelEnd npages))
    (hframes : firstPages (bootPlacement kernelEnd npages) + heapPages ≤ m + 1) :
    ∃ s, initPaging mem (bootStack m) kernelEnd npages = some s := by
  have hplaced : 0 < bootPlacement kernelEnd npages := Nat.succ_pos _
  obtain ⟨p₁, p₂, hlow, hheap⟩ := mapPages_of_room mem hm hplaced hroom hframes
  refine ⟨⟨{ p₂ with placement := p₂.placement + heapSize }, 1, 0, kheapSize / 4⟩, ?_⟩
  have heq := initPaging_eq mem (bootStack m) (show bootPlacement kernelEnd npages = _ from rfl)
  unfold firstEnd at hlow
  rw [heq, if_pos (space_of_room hroom).1, hlow, Option.bind_some, hheap]
  rfl

/-- It does not matter where the next early block goes. -/
theorem BootIdentity.setPlacement {placement next : Nat} {p : State} :
    BootIdentity placement { p with placement := next } ↔ BootIdentity placement p :=
  ⟨fun h => ⟨h.direct, h.tables, h.pageStack, h.heapAbove, h.heapApart⟩,
    fun h => ⟨h.direct, h.tables, h.pageStack, h.heapAbove, h.heapApart⟩⟩

theorem initPaging_identity_iff {mem : Memory} {m kernelEnd npages : Nat} {s : Spaces}
    (hm : m < 2 ^ 20) (h : initPaging mem (bootStack m) kernelEnd npages = some s) :
    BootIdentity (bootPlacement kernelEnd npages) s.paging ↔
      RoomForTables (bootPlacement kernelEnd npages) := by
  obtain ⟨p, hpaging, hlaid⟩ := initPaging_laid hm h
  rw [hpaging, BootIdentity.setPlacement]
  exact ⟨room_of_bootIdentity (initPaging_cases h).1 hlaid,
    fun hroom => bootIdentity_of_room hroom hlaid⟩

section Machine

variable (memLower memUpper kernelEnd : UInt32)

/-- Where `placement` is when `init_paging` starts to map, on a machine. -/
def machinePlacement : Nat := bootPlacement kernelEnd.toNat (machinePages memLower memUpper)

/-- The machine has frames for all pages of the two ranges. -/
def EnoughFrames : Prop :=
  firstPages (machinePlacement memLower memUpper kernelEnd) + (heapPage + heapPages -
      max heapPage (firstPages (machinePlacement memLower memUpper kernelEnd))) ≤
    topFrame memLower memUpper + 1

variable {memLower memUpper kernelEnd}

theorem bootPaging_eq_some {fuel : Nat} {mem : Memory} {slots : Nat → Nat} {s : Spaces} :
    bootPaging fuel mem slots memLower memUpper kernelEnd = some s ↔
      topFrame memLower memUpper + 1 < fuel ∧
        initPaging mem (bootStack (topFrame memLower memUpper)) kernelEnd.toNat
          (machinePages memLower memUpper) = some s := by
  have hloop := initStack_loop fuel slots memLower memUpper
  unfold bootPaging
  by_cases hfuel : topFrame memLower memUpper + 1 < fuel
  · rw [if_pos hfuel] at hloop
    obtain ⟨hframes, hnpages⟩ := initStack_frames hloop
    rw [hloop, Option.bind_some, hframes, hnpages, and_iff_right hfuel]
  · rw [hloop, if_neg hfuel]
    exact iff_of_false nofun fun h => hfuel h.1

/--
**When the boot maps early memory to itself.**  With enough frames the boot comes back, every
page below the end of the first range is mapped to itself, with the page tables and the page
stack, and the heap has frames of its own behind them, if the first range ends early enough that
there is room for the tables.  No other boot that comes back does all that.
-/
theorem boot_identity (mem : Memory) (slots : Nat → Nat)
    (henough : EnoughFrames memLower memUpper kernelEnd) :
    (RoomForTables (machinePlacement memLower memUpper kernelEnd) → ∃ fuel s,
      bootPaging fuel mem slots memLower memUpper kernelEnd = some s ∧
        BootIdentity (machinePlacement memLower memUpper kernelEnd) s.paging) ∧
    ∀ fuel s, bootPaging fuel mem slots memLower memUpper kernelEnd = some s →
      BootIdentity (machinePlacement memLower memUpper kernelEnd) s.paging →
        RoomForTables (machinePlacement memLower memUpper kernelEnd) := by
  have hsmall : topFrame memLower memUpper < 2 ^ 20 :=
    Nat.lt_of_succ_lt (topFrame_spec memLower memUpper).2
  refine ⟨fun hroom => ?_, fun fuel s h hidentity => ?_⟩
  · obtain ⟨-, hpages, -⟩ := firstEnd_of_room hroom
    unfold EnoughFrames at henough
    rw [max_eq_left hpages, Nat.add_sub_cancel_left] at henough
    obtain ⟨s, hs⟩ := initPaging_of_room mem hsmall hroom henough
    exact ⟨topFrame memLower memUpper + 2, s, bootPaging_eq_some.mpr ⟨Nat.lt_succ_self _, hs⟩,
      (initPaging_identity_iff hsmall hs).mpr hroom⟩
  · exact (initPaging_identity_iff hsmall (bootPaging_eq_some.mp h).2).mp hidentity

end Machine

/-- A kernel that ends behind its first megabyte, on a machine with 640 KB and 31 MB. -/
theorem boot_identity_32 : ∃ fuel s,
    bootPaging fuel (fun _ => 0) (fun _ => 0) 640 31744 0x110000 = some s ∧
      BootIdentity (machinePlacement 640 31744 0x110000) s.paging :=
  (boot_identity (fun _ => 0) (fun _ => 0) (by unfold EnoughFrames; decide +kernel)).1
    (by unfold RoomForTables; decide +kernel)

/-- **A kernel that ends at 1600 MB needs a table behind the first range.** -/
theorem boot_tables_outside : ¬ ∀ (mem : Memory) (slots : Nat → Nat)
    (memLower memUpper kernelEnd : UInt32), EnoughFrames memLower memUpper kernelEnd → ∃ fuel s,
      bootPaging fuel mem slots memLower memUpper kernelEnd = some s ∧
        BootIdentity (machinePlacement memLower memUpper kernelEnd) s.paging := by
  intro hclaim
  obtain ⟨fuel, s, hs, hidentity⟩ := hclaim (fun _ => 0) (fun _ => 0) 640 0x3ff000 0x64000000
    (by unfold EnoughFrames; decide +kernel)
  have hsmall : topFrame 640 0x3ff000 < 2 ^ 20 := by decide +kernel
  have hroom := (initPaging_identity_iff hsmall (bootPaging_eq_some.mp hs).2).mp hidentity
  exact absurd hroom (by unfold RoomForTables; decide +kernel)

end OsThing.Paging
