/-
When `map_pages` covers its range.

The loop steps from the start by a page at a time, and does not round.  So the last page of
the range is reached exactly if the start lies no further into its page than the last
address does into its own.  `load_elf` hands over the addresses of a segment as the file
has them, and then the last page may be left out.

Pages that have no address of the range are never touched: every address of the loop lies
in the range.
-/
import OsThing.Proofs.OnePage

namespace OsThing.Paging

open Bytes Runs Alloc

/-- The range has translations, and a page without an address of it is as it was. -/
structure Covers (p p' : State) (start stop d : Nat) : Prop where
  inside : ∀ a, start ≤ a → a < stop → Translates p' d a
  outside : ∀ a d', (∀ b, start ≤ b → b < stop → b / pageSize ≠ a / pageSize) →
    p'.getPage a d' = p.getPage a d'

/-- The loop gets to the last page of the range, or that is mapped already. -/
def ReachesLast (p : State) (start stop d : Nat) : Prop :=
  start = stop ∨ start % pageSize ≤ (stop - 1) % pageSize ∨ Translates p d (stop - 1)

/-- The loop gets to every page of the range but perhaps the last one. -/
theorem inRange_or_last {start stop a : Nat} (hlo : start ≤ a) (hhi : a < stop) :
    InRange start stop a ∨ a / pageSize = (stop - 1) / pageSize := by
  unfold InRange pageCount pageSize
  omega

theorem inRange_last_iff {start stop : Nat} (hlt : start < stop) :
    InRange start stop (stop - 1) ↔ start % pageSize ≤ (stop - 1) % pageSize := by
  unfold InRange pageCount pageSize
  omega

/-- The page of the last address is the page of each address on it. -/
theorem translates_congr {p : State} {d a b : Nat} (h : a / pageSize = b / pageSize) :
    Translates p d a ↔ Translates p d b := by
  unfold Translates
  rw [← getPage_pageBase p a, ← getPage_pageBase p b, pageBase, pageBase, h]

theorem inRange_congr {start stop a b : Nat} (h : a / pageSize = b / pageSize) :
    InRange start stop a ↔ InRange start stop b := by
  unfold InRange
  rw [h]

/-- The addresses of the loop lie in the range. -/
theorem loop_inside {start stop i : Nat} (hi : i < pageCount start stop) :
    start + i * pageSize < stop := by
  unfold pageCount at hi
  unfold pageSize at *
  omega

theorem mapPages_outside {p p' : State} {start stop flags d : Nat} (hp : Paged p)
    (hflags : 0 < flags) (hsmall : flags < pageSize)
    (h : p.mapPages start stop flags d = some p') (a d' : Nat)
    (houtside : ∀ b, start ≤ b → b < stop → b / pageSize ≠ a / pageSize) :
    p'.getPage a d' = p.getPage a d' := by
  have hloop := @mapPages_induct start stop flags d
    (fun _ p₁ => Paged p₁ ∧ p₁.getPage a d' = p.getPage a d')
    (fun i hi p₁ p₂ hM hmap => by
      obtain ⟨hp₁, hsame⟩ := hM
      have htouched := mapPage_touched hp₁ hflags hsmall hmap
      have hne := houtside _ (Nat.le_add_right start _) (loop_inside hi)
      exact ⟨hp₁.mapPage hflags hsmall hmap, (htouched.others a d' hne.symm).trans hsame⟩)
    p p' ⟨hp, rfl⟩ h
  exact hloop.2

/-- **`map_pages` covers its range exactly if it reaches the last page.** -/
theorem mapPages_covers_iff {p p' : State} {start stop flags d : Nat} (hp : Paged p)
    (hflags : 0 < flags) (hsmall : flags < pageSize) (hle : start ≤ stop)
    (h : p.mapPages start stop flags d = some p') :
    Covers p p' start stop d ↔ ReachesLast p start stop d := by
  have hspread := mapPages_spread hp.sharing hflags hsmall h
  have hmapped : ∀ a, Translates p' d a ↔ Translates p d a ∨ InRange start stop a := fun a =>
    (hspread.translates d a).trans (or_congr_right (and_iff_left (Or.inl rfl)))
  constructor
  · intro hcovers
    rcases Nat.eq_or_lt_of_le hle with heq | hlt
    · exact Or.inl heq
    · rcases (hmapped _).mp (hcovers.inside (stop - 1) (by omega) (by omega)) with hold | hreached
      · exact Or.inr (Or.inr hold)
      · exact Or.inr (Or.inl ((inRange_last_iff hlt).mp hreached))
  · intro hreaches
    refine ⟨fun a hlo hhi => (hmapped a).mpr ?_, mapPages_outside hp hflags hsmall h⟩
    rcases inRange_or_last hlo hhi with hreached | hlast
    · exact Or.inr hreached
    · rcases hreaches with heq | hmod | hold
      · omega
      · exact Or.inr ((inRange_congr hlast).mpr ((inRange_last_iff (by omega)).mpr hmod))
      · exact Or.inl ((translates_congr hlast).mpr hold)

/-! ### A run -/

def CoversExactly (k : Kernel) : TableOp → Kernel → Prop
  | .mapPages start stop _ d, k' =>
      Covers k.paging k'.paging start stop d ↔ ReachesLast k.paging start stop d
  | _, _ => True

/--
**A range is covered exactly if the loop reaches its last page, or that was mapped before.**
From empty directories, in every run in which page tables are early, for every range and
every directory.
-/
theorem map_pages_covers_iff (mem : Memory) (frames : List (Fin (2 ^ 20))) {placement : Nat}
    (hplaced : 0 < placement) (kheap : Option Kheap) (current depth : Nat) (ops : List TableOp)
    (hearly : EveryStep (tableStep depth) TablesEarly
      ⟨State.empty mem frames placement, kheap, current⟩ ops) :
    EveryStep (tableStep depth) CoversExactly
      ⟨State.empty mem frames placement, kheap, current⟩ ops := by
  refine everyStep_of_inv tableStep_paged (fun k op k' hk hstep hearly => ?_)
    (paged_empty mem frames hplaced) hearly
  cases op with
  | mapPages start stop flags d =>
      obtain ⟨⟨hle, -⟩, -⟩ := Option.ite_none_right_eq_some.mp hstep
      obtain ⟨hflags, hsmall, hmap⟩ := tableStep_mapPages hk.sharing hstep hearly
      exact mapPages_covers_iff hk hflags hsmall hle hmap
  | mapPage => exact trivial
  | clone => exact trivial
  | elsewhere => exact trivial

/-- A range whose start lies further into its page than its last address does. -/
theorem map_pages_covers_iff_clone :
    EveryStep (tableStep 1) CoversExactly ⟨State.empty (fun _ => 0) [5, 6] 0x200000, none, 0⟩
      [.mapPages 0xd0000800 0xd0001400 kernelPages 0, .clone 0 1] :=
  map_pages_covers_iff (fun _ => 0) [5, 6] (by decide) none 0 1 _ fun _ _ =>
    ⟨Or.inr fun ⟨_, hnone, _⟩ => Option.some_ne_none _ hnone.symm, fun _ _ => ⟨trivial, trivial⟩⟩

def CoversAll (k : Kernel) : TableOp → Kernel → Prop
  | .mapPages start stop _ d, k' => Covers k.paging k'.paging start stop d
  | _, _ => True

/-- **The last page of such a range is not mapped.** -/
theorem map_pages_misses_last : ¬ EveryStep (tableStep 0) CoversAll
    ⟨State.empty (fun _ => 0) [5, 6] 0x200000, none, 0⟩
      [.mapPages 0xd0000800 0xd0001400 kernelPages 0] := by
  intro hall
  have hpaged := paged_empty (fun _ => 0) [5, 6] (show 0 < 0x200000 by decide)
  have hinactive : ¬ (⟨State.empty (fun _ => 0) [5, 6] 0x200000, none, 0⟩ : Kernel).HeapActive :=
    fun ⟨_, hnone, _⟩ => Option.some_ne_none _ hnone.symm
  have hroomy : Roomy (State.empty (fun _ => 0) [5, 6] 0x200000) (1 + 1) :=
    roomy_empty _ (by decide) (by decide +kernel)
  obtain ⟨p, hmap, -⟩ := @mapPages_total _ 0xd0000800 0xd0001400 1 kernelPages 0
    (by decide +kernel) hroomy
  have hstep : tableStep 0 ⟨State.empty (fun _ => 0) [5, 6] 0x200000, none, 0⟩
      (.mapPages 0xd0000800 0xd0001400 kernelPages 0) = some ⟨p, none, 0⟩ := by
    dsimp only [tableStep]
    rw [if_pos ⟨by decide, by decide, kernelPages_pos, kernelPages_small⟩,
      Kernel.mapPages_of_early hpaged.sharing kernelPages_pos kernelPages_small (Or.inr hinactive),
      hmap]
    rfl
  have hcovers : Covers _ p 0xd0000800 0xd0001400 0 := (hall _ hstep).1
  rcases (mapPages_covers_iff hpaged kernelPages_pos kernelPages_small (by decide) hmap).mp hcovers
    with heq | hmod | hold
  · exact absurd heq (by decide)
  · exact absurd hmod (by decide)
  · exact hold (getPage_of_none (if_pos rfl))

end OsThing.Paging
