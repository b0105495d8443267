/-
Which page faults map a page.

`memmaps_check` finds a region for an address in it, and for the first address behind it as
well: `memmapsCheck_isSome`.  So a fault there maps a page that no region has an address on.
At every other address the handler maps the page exactly if the address is in a region.

That no other page is touched is `mapPage_touched`, and rests on page tables that are early.
-/
import OsThing.Mem.Memmap
import OsThing.Proofs.OnePage

namespace OsThing.Paging

open Runs

/-! ### Regions -/

/-- The address is in a region, the end of which is the first address behind it. -/
def InRegion (maps : List Memmap) (address : UInt32) : Prop :=
  ∃ map ∈ maps, map.start ≤ address ∧ address < map.stop

/-- The address is where a region ends, and in no other. -/
def AtEnd (maps : List Memmap) (address : UInt32) : Prop :=
  (∃ map ∈ maps, map.start ≤ map.stop ∧ address = map.stop) ∧ ¬ InRegion maps address

theorem memmapCheck_iff (map : Memmap) (address : UInt32) :
    memmapCheck map address = true ↔ map.start ≤ address ∧ address ≤ map.stop := by
  unfold memmapCheck
  rw [Bool.and_eq_true, decide_eq_true_iff, decide_eq_true_iff]

theorem memmapsCheck_isSome (maps : List Memmap) (address : UInt32) :
    (memmapsCheck maps address).isSome ↔ ∃ map ∈ maps, memmapCheck map address = true := by
  induction maps with
  | nil => simp [memmapsCheck]
  | cons move next ih =>
      rw [memmapsCheck, List.exists_mem_cons_iff]
      split
      · rename_i hcheck
        exact iff_of_true rfl (Or.inl hcheck)
      · rename_i hcheck
        rw [ih]
        exact (or_iff_right hcheck).symm

/-- What is found and is not in a region is at the end of one. -/
theorem found_iff (maps : List Memmap) (address : UInt32) :
    (memmapsCheck maps address).isSome ↔ InRegion maps address ∨ AtEnd maps address := by
  rw [memmapsCheck_isSome]
  simp only [memmapCheck_iff]
  constructor
  · rintro ⟨map, hmap, hstart, hstop⟩
    rcases UInt32.lt_or_eq_of_le hstop with hlt | rfl
    · exact Or.inl ⟨map, hmap, hstart, hlt⟩
    · by_cases hin : InRegion maps map.stop
      · exact Or.inl hin
      · exact Or.inr ⟨⟨map, hmap, hstart, rfl⟩, hin⟩
  · rintro (⟨map, hmap, hstart, hstop⟩ | ⟨⟨map, hmap, hle, rfl⟩, -⟩)
    · exact ⟨map, hmap, hstart, UInt32.le_of_lt hstop⟩
    · exact ⟨map, hmap, hle, UInt32.le_refl _⟩

/-! ### One fault -/

/-- The page is mapped exactly if the address is in a region, and no other page is touched:
neither elsewhere in any directory, nor the same one in a directory with a table of its own. -/
structure MapsRegion (maps : List Memmap) (address : UInt32) (k k' : Kernel) : Prop where
  mapped : Translates k'.paging k.current address.toNat ↔ InRegion maps address
  others : ∀ a d, a / pageSize ≠ address.toNat / pageSize →
    k'.paging.getPage a d = k.paging.getPage a d
  apart : ∀ d, d ≠ k.current → ¬ Shares k.paging k.current d (lowIndex address.toNat) →
    k'.paging.getPage address.toNat d = k.paging.getPage address.toNat d

/-- The tables that a fault or another call needs are early, or there already. -/
def FaultTablesEarly (k : Kernel) : FaultOp → Kernel → Prop
  | .fault _ address, _ =>
      tableOf k.paging k.current (lowIndex address.toNat) ≠ none ∨ ¬ k.HeapActive
  | .kernel op, k' => TablesEarly k op k'

/-- The handler maps the page of an address that is found, or leaves everything as it is. -/
theorem fault_cases {depth : Nat} {maps : List Memmap} {address : UInt32} {k k' : Kernel}
    (hearly : FaultTablesEarly k (.fault maps address) k')
    (h : faultStep depth k (.fault maps address) = some k') :
    ((memmapsCheck maps address).isSome ∧ k.paging.getPage address.toNat k.current = 0) ∧
        k.paging.mapPage address.toNat kernelPages k.current = some k'.paging ∨
      ¬ ((memmapsCheck maps address).isSome ∧ k.paging.getPage address.toNat k.current = 0) ∧
        k' = k := by
  dsimp only [faultStep] at h
  unfold Kernel.pageFaultHandler at h
  split at h
  · rename_i hfound
    rw [Kernel.mapPage_of_early hearly] at h
    refine Or.inl ⟨hfound, ?_⟩
    rcases hmap : k.paging.mapPage address.toNat kernelPages k.current with _ | p
    · rw [hmap] at h
      cases h
    · rw [hmap] at h
      obtain rfl := Option.some.inj h
      rfl
  · rename_i hnot
    exact Or.inr ⟨hnot, (Option.some.inj h).symm⟩

theorem faultStep_paged {depth : Nat} (k : Kernel) (op : FaultOp) (k' : Kernel)
    (hk : Paged k.paging) (hstep : faultStep depth k op = some k')
    (hearly : FaultTablesEarly k op k') : Paged k'.paging := by
  cases op with
  | fault maps address =>
      rcases fault_cases hearly hstep with ⟨-, hmap⟩ | ⟨-, rfl⟩
      · exact hk.mapPage kernelPages_pos kernelPages_small hmap
      · exact hk
  | kernel op => exact tableStep_paged k op k' hk hstep hearly

/-- **A fault maps what it should exactly if it is not at the end of a region.** -/
theorem fault_mapsRegion_iff {depth : Nat} {maps : List Memmap} {address : UInt32} {k k' : Kernel}
    (hk : Paged k.paging) (hzero : k.paging.getPage address.toNat k.current = 0)
    (hearly : FaultTablesEarly k (.fault maps address) k')
    (h : faultStep depth k (.fault maps address) = some k') :
    MapsRegion maps address k k' ↔ ¬ AtEnd maps address := by
  rcases fault_cases hearly h with ⟨⟨hfound, -⟩, hmap⟩ | ⟨hnot, rfl⟩
  · have htouched := mapPage_touched hk kernelPages_pos kernelPages_small hmap
    have hmapped : Translates k'.paging k.current address.toNat := fun hnone => by
      have hflags := htouched.flags
      rw [hnone, Nat.zero_and] at hflags
      exact absurd hflags.symm (Nat.ne_of_gt kernelPages_pos)
    constructor
    · exact fun hmaps hend => hend.2 (hmaps.mapped.mp hmapped)
    · intro hend
      have hin := ((found_iff maps address).mp hfound).resolve_right hend
      exact ⟨iff_of_true hmapped hin, htouched.others, htouched.apart⟩
  · have hlost : ¬ (memmapsCheck maps address).isSome := fun hfound => hnot ⟨hfound, hzero⟩
    rw [found_iff, not_or] at hlost
    exact iff_of_true ⟨iff_of_false (fun hmapped => hmapped hzero) hlost.1, fun _ _ _ => rfl,
      fun _ _ _ => rfl⟩ hlost.2

/-! ### A run -/

/-- Of every fault at an address that is not mapped. -/
def FaultsMapRegions (k : Kernel) : FaultOp → Kernel → Prop
  | .fault maps address, k' =>
      k.paging.getPage address.toNat k.current = 0 →
        (MapsRegion maps address k k' ↔ ¬ AtEnd maps address)
  | .kernel _, _ => True

/--
**A fault maps the pages of the regions and no others, exactly if it is not at the end of one.**
From empty directories, in every run in which page tables are early, for all regions and every
address that is not mapped yet.
-/
theorem demand_mapping_iff (mem : Bytes.Memory) (frames : List (Fin (2 ^ 20))) {placement : Nat}
    (hplaced : 0 < placement) (kheap : Option Alloc.Kheap) (current depth : Nat)
    (ops : List FaultOp)
    (hearly : EveryStep (faultStep depth) FaultTablesEarly
      ⟨State.empty mem frames placement, kheap, current⟩ ops) :
    EveryStep (faultStep depth) FaultsMapRegions
      ⟨State.empty mem frames placement, kheap, current⟩ ops := by
  refine everyStep_of_inv faultStep_paged (fun k op k' hk hstep hearly => ?_)
    (paged_empty mem frames hplaced) hearly
  cases op with
  | fault maps address => exact fun hzero => fault_mapsRegion_iff hk hzero hearly hstep
  | kernel => exact trivial

/-- A fault in the region of a program, and then a clone. -/
theorem demand_mapping_iff_inside :
    EveryStep (faultStep 1) FaultsMapRegions ⟨State.empty (fun _ => 0) [5, 6] 0x200000, none, 0⟩
      [.fault [⟨0x8048000, 0x804a000⟩] 0x8049ffc, .kernel (.clone 0 1)] :=
  demand_mapping_iff (fun _ => 0) [5, 6] (by decide) none 0 1 _ fun _ _ =>
    ⟨Or.inr fun ⟨_, hnone, _⟩ => Option.some_ne_none _ hnone.symm, fun _ _ => ⟨trivial, trivial⟩⟩

/-- The same of every fault, without the condition. -/
def FaultsMapOnlyRegions (k : Kernel) : FaultOp → Kernel → Prop
  | .fault maps address, k' =>
      k.paging.getPage address.toNat k.current = 0 → MapsRegion maps address k k'
  | .kernel _, _ => True

/-- **The page behind a region is mapped**, though no address on it is in the region. -/
theorem demand_mapping_past_end : ¬ EveryStep (faultStep 0) FaultsMapOnlyRegions
    ⟨State.empty (fun _ => 0) [5, 6] 0x200000, none, 0⟩
      [.fault [⟨0x8048000, 0x804a000⟩] 0x804a000] := by
  intro hall
  have hpaged := paged_empty (fun _ => 0) [5, 6] (show 0 < 0x200000 by decide)
  have hinactive : ¬ (⟨State.empty (fun _ => 0) [5, 6] 0x200000, none, 0⟩ : Kernel).HeapActive :=
    fun ⟨_, hnone, _⟩ => Option.some_ne_none _ hnone.symm
  have hzero : (State.empty (fun _ => 0) [5, 6] 0x200000).getPage (0x804a000 : UInt32).toNat 0 = 0 :=
    getPage_of_none (if_pos rfl)
  obtain ⟨p, hmap, -⟩ := @mapPage_total (State.empty (fun _ => 0) [5, 6] 0x200000) 1
    (0x804a000 : UInt32).toNat kernelPages 0 (roomy_empty _ (by decide) (by decide +kernel))
  have hstep : faultStep 0 ⟨State.empty (fun _ => 0) [5, 6] 0x200000, none, 0⟩
      (.fault [⟨0x8048000, 0x804a000⟩] 0x804a000) = some ⟨p, none, 0⟩ := by
    dsimp only [faultStep, Kernel.pageFaultHandler]
    rw [if_pos ⟨by decide, hzero⟩, Kernel.mapPage_of_early (Or.inr hinactive)]
    exact congrArg (fun r => ((Kernel.put _ r).map fun k => (true, k)).toOption.map Prod.snd) hmap
  have hend : AtEnd [⟨0x8048000, 0x804a000⟩] 0x804a000 := by
    refine ⟨⟨_, List.mem_cons_self, by decide, rfl⟩, ?_⟩
    rintro ⟨map, hmem, -, hlt⟩
    obtain rfl := List.mem_singleton.mp hmem
    exact absurd hlt (by decide)
  have hearly : FaultTablesEarly ⟨State.empty (fun _ => 0) [5, 6] 0x200000, none, 0⟩
      (.fault [⟨0x8048000, 0x804a000⟩] 0x804a000) ⟨p, none, 0⟩ := Or.inr hinactive
  have hmaps : MapsRegion [⟨0x8048000, 0x804a000⟩] 0x804a000 _ ⟨p, none, 0⟩ :=
    (hall _ hstep).1 hzero
  exact (@fault_mapsRegion_iff 0 [⟨0x8048000, 0x804a000⟩] 0x804a000
    ⟨State.empty (fun _ => 0) [5, 6] 0x200000, none, 0⟩ ⟨p, none, 0⟩ hpaged hzero hearly hstep).mp
    hmaps hend

end OsThing.Paging
