/-
When the loops over ranges of pages end.

The counter of such a loop goes up by pages from where the range starts, and wraps around at
the end of the address space.  So it only ever stands at one place within a page, and the last
address that it comes to is at that place in the last page of all.  If the range ends behind
that address, every address is below its end, and the loop goes round for ever.

Whether the loop ends depends on nothing else, neither on what the calls in it do nor on the
state that they find.
-/
import OsThing.Mem.Ranges
import OsThing.Proofs.OnePage

namespace OsThing.Paging

open Bytes

/-! ### The counter -/

/-- The last address that a loop over pages from `start` comes to. -/
def lastStep (start : UInt32) : Nat := 0xfffff000 + start.toNat % pageSize

/-- The range ends no later than at the last step. -/
def StopsInTime (start stop : UInt32) : Prop := stop.toNat ≤ lastStep start

instance (start stop : UInt32) : Decidable (StopsInTime start stop) :=
  inferInstanceAs (Decidable (_ ≤ _))

theorem lastStep_next (address : UInt32) : lastStep (address + PAGE_SIZE) = lastStep address := by
  unfold lastStep pageSize
  rw [UInt32.toNat_add]
  show 0xfffff000 + (address.toNat + 0x1000) % 2 ^ 32 % 0x1000 = _
  omega

theorem stopsInTime_next {address stop : UInt32} :
    StopsInTime (address + PAGE_SIZE) stop ↔ StopsInTime address stop := by
  unfold StopsInTime
  rw [lastStep_next]

theorem le_lastStep (address : UInt32) : address.toNat ≤ lastStep address := by
  have hlt := address.toNat_lt
  unfold lastStep pageSize
  omega

/-- Before the last step the counter does not wrap around. -/
theorem next_toNat {address : UInt32} (h : address.toNat < lastStep address) :
    (address + PAGE_SIZE).toNat = address.toNat + pageSize := by
  have hlt := address.toNat_lt
  rw [UInt32.toNat_add]
  show (address.toNat + 0x1000) % 2 ^ 32 = address.toNat + 0x1000
  unfold lastStep pageSize at h
  omega

/-- How often the loop goes round, after each turn. -/
theorem pageCount_next {start stop : UInt32} {turns : Nat} (hstop : StopsInTime start stop)
    (hturns : pageCount start.toNat stop.toNat = turns + 1) :
    start < stop ∧ (start + PAGE_SIZE).toNat = start.toNat + pageSize ∧
      pageCount (start + PAGE_SIZE).toNat stop.toNat = turns := by
  have hlt : start.toNat < stop.toNat := by
    unfold pageCount pageSize at hturns
    omega
  have hnext := next_toNat (Nat.lt_of_lt_of_le hlt hstop)
  refine ⟨UInt32.lt_iff_toNat_lt.mpr hlt, hnext, ?_⟩
  rw [hnext]
  unfold pageCount pageSize at *
  omega

theorem le_of_pageCount_zero {start stop : Nat} (h : pageCount start stop = 0) : stop ≤ start := by
  unfold pageCount pageSize at h
  omega

theorem stopsInTime_iff (start stop : UInt32) :
    StopsInTime start stop ↔
      start.toNat + pageCount start.toNat stop.toNat * pageSize < space := by
  have hstart := start.toNat_lt
  have hstop := stop.toNat_lt
  unfold StopsInTime lastStep pageCount space pageSize
  omega

/-! ### The loop -/

section Loop

variable {σ ε : Type} {stop : UInt32}

/-- A range that ends in time is gone through page by page, and then the loop is over. -/
theorem rangeLoop_eq (body : Nat → σ → Except ε σ) :
    ∀ (turns : Nat) {start : UInt32} (s : σ), StopsInTime start stop →
      pageCount start.toNat stop.toNat = turns →
      rangeLoop (fun address => body address.toNat) stop (turns + 1) start s =
        some ((List.range turns).foldlM (fun s i => body (start.toNat + i * pageSize) s) s) := by
  intro turns
  induction turns with
  | zero =>
      intro start s _ hturns
      have hle := le_of_pageCount_zero hturns
      rw [rangeLoop, if_neg fun hlt => Nat.not_lt_of_le hle (UInt32.lt_iff_toNat_lt.mp hlt)]
      rfl
  | succ turns ih =>
      intro start s hstop hturns
      obtain ⟨hlt, hnext, hrest⟩ := pageCount_next hstop hturns
      have haddress : ∀ i, (start + PAGE_SIZE).toNat + i * pageSize =
          start.toNat + (i + 1) * pageSize := fun i => by rw [hnext]; ring
      rw [rangeLoop, if_pos hlt, List.range_succ_eq_map, List.foldlM_cons, Nat.zero_mul,
        Nat.add_zero]
      rcases body start.toNat s with e | s'
      · rfl
      · refine (ih s' (stopsInTime_next.mpr hstop) hrest).trans (congrArg some ?_)
        simp only [haddress]
        show _ = List.foldlM (m := Except ε) _ s' ((List.range turns).map Nat.succ)
        rw [List.foldlM_map]

/-- Past the last step the loop does not return, since every address is below its end. -/
theorem rangeLoop_ne_ok {body : UInt32 → σ → Except ε σ} :
    ∀ (fuel : Nat) {address : UInt32} (s s' : σ), ¬ StopsInTime address stop →
      rangeLoop body stop fuel address s ≠ some (.ok s') := by
  intro fuel
  induction fuel with
  | zero => exact fun _ _ _ h => nomatch h
  | succ fuel ih =>
      intro address s s' hstop
      have hlt : address < stop := UInt32.lt_iff_toNat_lt.mpr
        (Nat.lt_of_le_of_lt (le_lastStep address) (Nat.lt_of_not_le hstop))
      rw [rangeLoop, if_pos hlt]
      rcases body address s with e | s₁
      · exact fun h => nomatch h
      · exact ih s₁ s' fun h => hstop (stopsInTime_next.mp h)

/-- And it goes on for ever where every call in it comes back. -/
theorem rangeLoop_none {body : UInt32 → σ → Except ε σ} (M : σ → Prop)
    (hbody : ∀ address s, M s → ∃ s', body address s = .ok s' ∧ M s') :
    ∀ (fuel : Nat) {address : UInt32} (s : σ), M s → ¬ StopsInTime address stop →
      rangeLoop body stop fuel address s = none := by
  intro fuel
  induction fuel with
  | zero => exact fun _ _ _ => rfl
  | succ fuel ih =>
      intro address s hs hstop
      have hlt : address < stop := UInt32.lt_iff_toNat_lt.mpr
        (Nat.lt_of_le_of_lt (le_lastStep address) (Nat.lt_of_not_le hstop))
      obtain ⟨s', heq, hs'⟩ := hbody address s hs
      rw [rangeLoop, if_pos hlt, heq]
      exact ih s' hs' fun h => hstop (stopsInTime_next.mp h)

end Loop

/-! ### Kernels in which no call panics -/

/-- Every slot of `kernel_dir` has a table, and every entry has a frame. -/
structure FullyMapped (p : State) : Prop where
  slots : ∀ low, (p.dir 0).tables low ≠ 0
  words : ∀ w, w % 4 = 0 → read32 p.mem w ≠ 0

theorem entryAt_aligned (table high : Nat) : entryAt (pageBase table) high % 4 = 0 := by
  unfold entryAt pageBase pageSize
  omega

/-- A word that is written with flags is not zero, and words do not overlap. -/
theorem words_write32 {mem : Memory} {entry : Nat} (haligned : entry % 4 = 0)
    (hwords : ∀ w, w % 4 = 0 → w ≠ entry → read32 mem w ≠ 0) (w : Nat) (hw : w % 4 = 0) :
    read32 (write32 mem entry (read32 mem entry ||| kernelPages)) w ≠ 0 := by
  rcases eq_or_ne w entry with rfl | hne
  · rw [read32_write32 _ _ (or_lt_space (read32_lt _ _) kernelPages_small)]
    exact or_ne_zero kernelPages_pos
  · rw [read32_write32_apart _ _ (by omega)]
    exact hwords w hw hne

namespace FullyMapped

variable {k : Kernel} (kmalloc : Kernel → Except Halt (Block × Kernel)) (address : Nat)

/-- The slot gets its pointer back, with its flags. -/
theorem entered {p : State} (hp : FullyMapped p) (low table : Nat) {mem : Memory}
    (hmem : ∀ w, w % 4 = 0 → read32 mem w ≠ 0) :
    FullyMapped ({ p.setTable 0 low (pageBase table) with mem := mem }.setTable 0 low
      (pageBase table ||| kernelPages)) := by
  refine ⟨fun low' => ?_, hmem⟩
  rw [setTable_tables]
  split
  · exact or_ne_zero kernelPages_pos
  · rename_i hother
    dsimp only
    rw [setTable_tables, if_neg hother]
    exact hp.slots low'

/-- Nothing is left to do for `map_page` but to set the flags again. -/
theorem mapPage (hk : FullyMapped k.paging) :
    ∃ k', k.mapPage kmalloc address kernelPages 0 = .ok k' ∧ FullyMapped k'.paging := by
  have haligned := entryAt_aligned ((k.paging.dir 0).tables (address / 2 ^ 22))
    (address / 2 ^ 12 % 0x400)
  unfold Kernel.mapPage State.enterPage State.fillEntry
  dsimp only
  rw [if_neg (hk.slots _)]
  dsimp only [Except.bind]
  rw [if_neg (show read32 (k.paging.setTable 0 _ _).mem _ ≠ 0 from hk.words _ haligned)]
  exact ⟨_, rfl, hk.entered _ _ (words_write32 haligned fun w hw _ => hk.words w hw)⟩

/-- `map_r_page` puts another frame into the entry first. -/
theorem mapRPage (hk : FullyMapped k.paging) (real : Nat) :
    ∃ k', k.mapRPage kmalloc address real kernelPages 0 = .ok k' ∧ FullyMapped k'.paging := by
  have haligned := entryAt_aligned ((k.paging.dir 0).tables (address / 2 ^ 22))
    (address / 2 ^ 12 % 0x400)
  unfold Kernel.mapRPage
  dsimp only
  rw [if_neg (hk.slots _)]
  refine ⟨_, rfl, hk.entered _ _ (words_write32 haligned fun w hw hne => ?_)⟩
  rw [read32_write32_apart _ _ (by omega)]
  exact hk.words w hw

end FullyMapped

/-- A kernel in which every page is mapped already, as often as not to the same frame. -/
def crowded : Kernel where
  paging := ⟨fun _ => 1, fun _ => ⟨fun _ => 0x1007, fun _ => 0x1007⟩, [], 0x2000⟩
  kheap := none
  current := 0

theorem crowded_fullyMapped : FullyMapped crowded.paging :=
  ⟨fun _ => Nat.succ_ne_zero _, fun _ _ => by simp [read32, crowded]⟩

/-! ### The three loops -/

/-- A loop comes to an end, or to a call that does not come back, after some number of turns. -/
def Ends {α : Type} (loop : Nat → Option α) : Prop := ∃ fuel result, loop fuel = some result

theorem not_ends {α : Type} {loop : Nat → Option α} (h : ∀ fuel, loop fuel = none) :
    ¬ Ends loop :=
  fun ⟨fuel, _, hsome⟩ => Option.some_ne_none _ (hsome.symm.trans (h fuel))

theorem rangeLoop_ends {σ ε : Type} (body : UInt32 → σ → Except ε σ) {start stop : UInt32} (s : σ)
    (hstop : StopsInTime start stop) : Ends fun fuel => rangeLoop body stop fuel start s := by
  have heq := rangeLoop_eq (fun a => body (UInt32.ofNat a)) _ s hstop rfl
  simp only [UInt32.ofNat_toNat] at heq
  exact ⟨_, _, heq⟩

/-- The `map_pages` of `Mem/Kmalloc` is this loop, where it ends. -/
theorem mapPagesLoop_eq (kmalloc : Kernel → Except Halt (Block × Kernel)) {start stop : UInt32}
    (permissions d : Nat) (k : Kernel) (hstop : StopsInTime start stop) :
    Kernel.mapPagesLoop kmalloc start stop (pageCount start.toNat stop.toNat + 1) permissions d k =
      some (k.mapPages kmalloc start.toNat stop.toNat permissions d) := by
  unfold Kernel.mapPages
  rw [if_neg (Nat.not_le_of_lt ((stopsInTime_iff start stop).mp hstop))]
  exact rangeLoop_eq (fun a k => k.mapPage kmalloc a permissions d) _ k hstop rfl

/-! Each of the loops over the range ends: in every kernel, for every directory. -/

def MapPagesEnds (start stop : UInt32) : Prop := ∀ depth permissions d k, Ends fun fuel =>
  Kernel.mapPagesLoop (Kernel.kmallocTable depth) start stop fuel permissions d k

def MapRPagesEnds (start stop : UInt32) : Prop := ∀ depth real permissions d k, Ends fun fuel =>
  Kernel.mapRPagesLoop (Kernel.kmallocTable depth) start stop fuel real permissions d k

def FreePagesEnds (start stop : UInt32) : Prop := ∀ d k, Ends fun fuel =>
  Kernel.freePagesLoop start stop fuel d k

/-- None of them ever returns, in any kernel. -/
structure NeverReturn (start stop : UInt32) : Prop where
  mapPages : ∀ depth permissions d k fuel k',
    Kernel.mapPagesLoop (Kernel.kmallocTable depth) start stop fuel permissions d k ≠ some (.ok k')
  mapRPages : ∀ depth real permissions d k fuel k',
    Kernel.mapRPagesLoop (Kernel.kmallocTable depth) start stop fuel real permissions d k ≠
      some (.ok k')
  freePages : ∀ d k, ¬ Ends fun fuel => Kernel.freePagesLoop start stop fuel d k

theorem neverReturn {start stop : UInt32} (hstop : ¬ StopsInTime start stop) :
    NeverReturn start stop where
  mapPages _ _ _ k fuel k' := rangeLoop_ne_ok fuel k k' hstop
  mapRPages _ real _ _ k fuel k' := rangeLoop_ne_ok fuel (k, real) k' hstop
  freePages _ k := not_ends fun fuel =>
    rangeLoop_none (fun _ => True) (fun _ _ _ => ⟨_, rfl, trivial⟩) fuel k trivial hstop

/-- In the crowded kernel not even a panic ends the loops that map. -/
theorem mapPages_crowded {start stop : UInt32} (h : MapPagesEnds start stop) :
    StopsInTime start stop := by
  by_contra hstop
  refine not_ends (fun fuel => ?_) (h 0 kernelPages 0 crowded)
  exact rangeLoop_none (fun k => FullyMapped k.paging)
    (fun address k hk => hk.mapPage _ address.toNat) fuel crowded crowded_fullyMapped hstop

theorem mapRPages_crowded {start stop : UInt32} (h : MapRPagesEnds start stop) :
    StopsInTime start stop := by
  by_contra hstop
  refine not_ends (fun fuel => ?_) (h 0 0 kernelPages 0 crowded)
  refine rangeLoop_none (fun s => FullyMapped s.1.paging) (fun address s hs => ?_) fuel
    (crowded, 0) crowded_fullyMapped hstop
  obtain ⟨k', heq, hk'⟩ := hs.mapRPage _ address.toNat s.2.toNat
  exact ⟨(k', s.2 + PAGE_SIZE), congrArg (Except.map (·, s.2 + PAGE_SIZE)) heq, hk'⟩

theorem freePages_crowded {start stop : UInt32} (h : FreePagesEnds start stop) :
    StopsInTime start stop := by
  by_contra hstop
  exact (neverReturn hstop).freePages 0 crowded (h 0 crowded)

/--
**The three loops end exactly for the ranges that end at the last step at the latest.**  For
every other range none of them ever returns, in no kernel at all.
-/
theorem range_loops_end_iff (start stop : UInt32) :
    (MapPagesEnds start stop ↔ StopsInTime start stop) ∧
      (MapRPagesEnds start stop ↔ StopsInTime start stop) ∧
      (FreePagesEnds start stop ↔ StopsInTime start stop) ∧
      (¬ StopsInTime start stop → NeverReturn start stop) :=
  ⟨⟨mapPages_crowded, fun hstop _ _ _ k => rangeLoop_ends _ k hstop⟩,
    ⟨mapRPages_crowded, fun hstop _ real _ _ k => rangeLoop_ends _ (k, real) hstop⟩,
    ⟨freePages_crowded, fun hstop _ k => rangeLoop_ends _ k hstop⟩, neverReturn⟩

/-- **A segment of one byte on the last page is mapped for ever.** -/
theorem range_loops_go_on :
    ¬ ∀ start stop : UInt32, MapPagesEnds start stop ∧ MapRPagesEnds start stop ∧
      FreePagesEnds start stop := fun hall =>
  absurd (mapPages_crowded (hall 0xfffff000 0xfffff001).1) (by decide)

end OsThing.Paging
