/-
How long early memory stays mapped to itself.

`init_paging` maps 400 pages more than it has taken to themselves, and from then on
`kmalloc_e` takes memory from there without looking at an end.  All directories map that
range by the same tables, which lie in it, and whose entries nobody changes: `EarlyPage`.
So what `kmalloc_e` returns is where it says as long as it comes from that range.

Each clone of a directory takes three pages of it and each early page table one, and nothing
is ever given back.  `expand` is a run of early `map_page` calls: `expand_run`.
-/
import OsThing.Proofs.BootMap

namespace OsThing.Paging

open Bytes Runs Alloc

/-! ### Pages that all directories have from early tables -/

/-- The page has a frame, in an early table that all directories have for its slot. -/
def EarlyPage (direct dirs : Nat) (p : State) (a : Nat) : Prop :=
  ∃ table, 0 < table ∧ table + pageSize ≤ p.placement ∧ table + pageSize ≤ direct ∧
    (∀ d < dirs, tableOf p d (lowIndex a) = some table) ∧
    read32 p.mem (entryAt table (highIndex a)) ≠ 0

section EarlyPage

variable {direct dirs a : Nat} {p p' : State}

theorem EarlyPage.translates (h : EarlyPage direct dirs p a) {d : Nat} (hd : d < dirs) :
    Translates p d a := by
  obtain ⟨table, hpos, -, -, hall, hword⟩ := h
  unfold Translates
  rwa [getPage_eq_read (hall d hd) hpos]

/-- It stays, with its frame, if a slot gets its own table again or a table that it did not
have, and the entries of early tables keep their frames. -/
theorem EarlyPage.step (h : EarlyPage direct dirs p a) (hdirs : 0 < dirs) {d low table : Nat}
    (hplacement : p.placement ≤ p'.placement)
    (htables : ∀ d' low', tableOf p' d' low' =
      if d' = d ∧ low' = low then some table else tableOf p d' low')
    (hown : tableOf p d low = some table ∨ tableOf p d low = none)
    (hkeeps : ∀ t high, t % pageSize = 0 → t + pageSize ≤ p.placement → t + pageSize ≤ direct →
      high < 0x400 → KeepsFrame p p' (entryAt t high)) :
    EarlyPage direct dirs p' a ∧
      ∀ d' < dirs, pageBase (p'.getPage a d') = pageBase (p.getPage a d') := by
  obtain ⟨t, hpos, hbelow, hdirect, hall, hword⟩ := h
  obtain ⟨hne, hbase⟩ := hkeeps t (highIndex a) (tableOf_aligned (hall 0 hdirs)) hbelow hdirect
    (Nat.mod_lt _ (by decide)) hword
  have hall' : ∀ d' < dirs, tableOf p' d' (lowIndex a) = some t := by
    intro d' hd'
    have hold := hall d' hd'
    rw [htables]
    split
    · rename_i heq
      rw [heq.1, heq.2] at hold
      rcases hown with hown | hnone
      · exact hown.symm.trans hold
      · exact absurd (hnone.symm.trans hold) (Option.some_ne_none t).symm
    · exact hold
  refine ⟨⟨t, hpos, Nat.le_trans hbelow hplacement, hdirect, hall', hne⟩, fun d' hd' => ?_⟩
  rw [getPage_eq_read (hall' d' hd') hpos, getPage_eq_read (hall d' hd') hpos, hbase]

theorem EarlyPage.clone (h : EarlyPage direct dirs p a) (hdirs : 0 < dirs)
    (hclone : p.clonePageDir 0 dirs = some p') :
    EarlyPage direct (dirs + 1) p' a ∧
      ∀ d < dirs + 1, p'.getPage a d = p.getPage a 0 := by
  obtain ⟨hmem, hplacement, hdir⟩ := clonePageDir_dir hclone
  obtain ⟨t, hpos, hbelow, hdirect, hall, hword⟩ := h
  have hall' : ∀ d < dirs + 1, tableOf p' d (lowIndex a) = some t := by
    intro d hd
    have hsource : (p'.dir d).tables = (p.dir (if d = dirs then 0 else d)).tables := by
      rw [hdir]
      split
      · rfl
      · rfl
    unfold tableOf
    rw [hsource]
    refine hall _ ?_
    split
    · exact hdirs
    · omega
  refine ⟨⟨t, hpos, Nat.le_trans hbelow hplacement, hdirect, hall', hmem ▸ hword⟩, fun d hd => ?_⟩
  rw [getPage_eq_read (hall' d hd) hpos, getPage_eq_read (hall 0 hdirs) hpos, hmem]

theorem EarlyPage.store (h : EarlyPage direct dirs p a) (mem : Memory) :
    EarlyPage direct dirs (p.store mem) a ∧
      ∀ d < dirs, (p.store mem).getPage a d = p.getPage a d := by
  obtain ⟨t, hpos, hbelow, hdirect, hall, hword⟩ := h
  have hhigh : highIndex a < 0x400 := Nat.mod_lt _ (by decide)
  have hsame : read32 (p.store mem).mem (entryAt t (highIndex a)) =
      read32 p.mem (entryAt t (highIndex a)) := by
    obtain ⟨-, hhi⟩ := entryAt_inside t hhigh
    exact read32_congr fun b _ hb => if_pos (by omega)
  refine ⟨⟨t, hpos, hbelow, hdirect, hall, hsame ▸ hword⟩, fun d hd => ?_⟩
  have hall' : tableOf (p.store mem) d (lowIndex a) = some t := hall d hd
  rw [getPage_eq_read hall' hpos, getPage_eq_read (hall d hd) hpos, hsame]

end EarlyPage

/-! ### One call -/

/-- What `kmalloc_e` has returned so far lies below `bound`, and is where it says, in all
directories. -/
structure EarlyMapped (bound : Nat) (s : Spaces) : Prop where
  below : s.paging.placement ≤ bound
  identity : ∀ d < s.dirs, ∀ a < s.paging.placement,
    Translates s.paging d a ∧ pageBase (s.paging.getPage a d) = pageBase a

/-- What the call asks for ends below `bound`. -/
def Room (bound : Nat) (s : Spaces) (op : EarlyOp) (_ : Spaces) : Prop :=
  ∀ size, request s op = some size → pageUp s.paging.placement + size ≤ bound

structure EarlyInv (direct bound : Nat) (s : Spaces) : Prop where
  kernel : 0 < s.dirs
  room : s.paging.placement ≤ bound
  mapped : ∀ a < direct, EarlyPage direct s.dirs s.paging a
  identity : ∀ d < s.dirs, ∀ a < direct, pageBase (s.paging.getPage a d) = pageBase a

section Step

variable {direct bound : Nat} {s s' : Spaces}

theorem EarlyInv.earlyMapped (hs : EarlyInv direct bound s) (hbound : bound ≤ direct) :
    EarlyMapped bound s := by
  have hlt : ∀ a < s.paging.placement, a < direct := fun a ha =>
    Nat.lt_of_lt_of_le ha (hs.room.trans hbound)
  exact ⟨hs.room, fun d hd a ha =>
    ⟨(hs.mapped a (hlt a ha)).translates hd, hs.identity d hd a (hlt a ha)⟩⟩

/-- `kmalloc_e` takes what it is asked for, from the next page on. -/
theorem earlyStep_placement {op : EarlyOp} (hstep : earlyStep s op = some s') :
    s'.paging.placement = (request s op).elim s.paging.placement
      fun size => pageUp s.paging.placement + size := by
  cases op with
  | clone =>
      dsimp only [earlyStep, walkStep] at hstep
      obtain ⟨p', hclone, rfl⟩ := Option.map_eq_some_iff.mp hstep
      unfold State.clonePageDir at hclone
      obtain ⟨⟨addr, p₁⟩, hkmalloc, rfl⟩ := Option.map_eq_some_iff.mp hclone
      obtain ⟨-, rfl⟩ := kmallocE_eq hkmalloc
      rfl
  | setPageDir d =>
      obtain ⟨-, hstep⟩ := Option.ite_none_right_eq_some.mp hstep
      obtain rfl := Option.some.inj hstep
      rfl
  | store mem =>
      obtain rfl := Option.some.inj hstep
      rfl
  | mapPage address flags d supply =>
      obtain ⟨-, hstep⟩ := Option.ite_none_right_eq_some.mp hstep
      obtain ⟨⟨-, -, hsmall, -⟩, hstep⟩ := Option.ite_none_right_eq_some.mp hstep
      obtain ⟨p', hmap, rfl⟩ := Option.map_eq_some_iff.mp hstep
      obtain ⟨p₁, henter, hcases⟩ := mapPageFrom_cases hmap
      have hentered := enterPage_spec hsmall henter
      show p'.placement = _
      rw [hentered.placement]
      cases supply with
      | early =>
          dsimp only [request]
          rcases hcases with ⟨hsome, rfl⟩ | ⟨hnone, block, p₀, hkmalloc, rfl⟩
          · have hsome : ¬ (s.paging.dir d).tables (address / 2 ^ 22) = 0 := hsome
            rw [if_neg hsome, Option.elim_none]
          · have hnone : (s.paging.dir d).tables (address / 2 ^ 22) = 0 := hnone
            have hkmalloc : s.paging.earlyBlock = some (block, p₀) := hkmalloc
            unfold State.earlyBlock at hkmalloc
            obtain ⟨⟨addr, p₂⟩, hearly, hpair⟩ := Option.map_eq_some_iff.mp hkmalloc
            obtain ⟨-, rfl⟩ := Prod.mk.inj hpair
            obtain ⟨-, rfl⟩ := kmallocE_eq hearly
            rw [if_pos hnone, Option.elim_some]
            rfl
      | heap ret =>
          rcases hcases with ⟨-, rfl⟩ | ⟨-, block, p₀, hkmalloc, rfl⟩
          · rfl
          · obtain ⟨-, rfl⟩ := Prod.mk.inj (Option.some.inj hkmalloc)
            rfl

/-- A table from anywhere but the early memory that there is leaves that as it is. -/
theorem EarlyInv.mapPage {address flags d : Nat} {supply : State.Supply}
    (hs : EarlyInv direct bound s) (hheap : direct ≤ kheapStart)
    (hstep : earlyStep s (.mapPage address flags d supply) = some s')
    (hroom : s'.paging.placement ≤ bound) : EarlyInv direct bound s' := by
  obtain ⟨hpossible, hstep⟩ := Option.ite_none_right_eq_some.mp hstep
  obtain ⟨⟨-, hflags, hsmall, -⟩, hstep⟩ := Option.ite_none_right_eq_some.mp hstep
  obtain ⟨p', hmap, rfl⟩ := Option.map_eq_some_iff.mp hstep
  obtain ⟨p₁, henter, hcases⟩ := mapPageFrom_cases hmap
  have hentered := enterPage_spec hsmall henter
  have hentry : ∀ {t high}, t % pageSize = 0 → entryAt t high % 4 = 0 := by
    intro t high ht
    unfold entryAt
    unfold pageSize at ht
    omega
  have hpages : ∀ a < direct, EarlyPage direct s.dirs p' a ∧
      ∀ d' < s.dirs, pageBase (p'.getPage a d') = pageBase (s.paging.getPage a d') := by
    intro a ha
    rcases hcases with ⟨hsome, rfl⟩ | ⟨hnone, block, p₀, hkmalloc, rfl⟩
    · exact (hs.mapped a ha).step hs.kernel (Nat.le_of_eq hentered.placement.symm)
        (hentered.tableOf hflags hsmall) (Or.inl (if_neg hsome))
        fun t high ht _ _ _ => hentered.keeps _ (hentry ht)
    · obtain ⟨hdir, hmem, hplacement, hclear⟩ : p₀.dir = s.paging.dir ∧ p₀.mem = s.paging.mem ∧
          s.paging.placement ≤ p₀.placement ∧
          (s.paging.placement ≤ block.addr ∨ direct ≤ block.addr) := by
        cases supply with
        | early =>
            have hkmalloc : s.paging.earlyBlock = some (block, p₀) := hkmalloc
            unfold State.earlyBlock at hkmalloc
            obtain ⟨⟨addr, p₂⟩, hearly, hpair⟩ := Option.map_eq_some_iff.mp hkmalloc
            obtain ⟨rfl, rfl⟩ := Prod.mk.inj hpair
            obtain ⟨-, hle, rfl⟩ := kmallocE_spec hearly
            exact ⟨rfl, rfl, hle.trans (Nat.le_add_right _ _), Or.inl hle⟩
        | heap ret =>
            obtain ⟨rfl, rfl⟩ := Prod.mk.inj (Option.some.inj hkmalloc)
            exact ⟨rfl, rfl, Nat.le_refl _, Or.inr (hheap.trans hpossible)⟩
      have hsame : ∀ d' low', tableOf p₀ d' low' = tableOf s.paging d' low' := fun d' low' => by
        unfold tableOf
        rw [hdir]
      refine (hs.mapped a ha).step hs.kernel (hplacement.trans (Nat.le_of_eq hentered.placement.symm))
        (fun d' low' => (hentered.tableOf_new hflags hsmall d' low').trans (by rw [hsame]))
        (Or.inr (if_pos hnone)) fun t high ht hbelow hdirect hhigh => ?_
      obtain ⟨-, hhi⟩ := entryAt_inside t hhigh
      have hkeeps := hentered.keeps_new ht (show entryAt t high + 4 ≤ block.addr ∨ _ by omega)
      unfold KeepsFrame at hkeeps ⊢
      rwa [hmem] at hkeeps
  exact ⟨hs.kernel, hroom, fun a ha => (hpages a ha).1, fun d' hd' a ha =>
    ((hpages a ha).2 d' hd').trans (hs.identity d' hd' a ha)⟩

theorem EarlyInv.step {op : EarlyOp} (hheap : direct ≤ kheapStart) (hs : EarlyInv direct bound s)
    (hstep : earlyStep s op = some s') (hroom : Room bound s op s') :
    EarlyInv direct bound s' := by
  have hplacement : s'.paging.placement ≤ bound := by
    rw [earlyStep_placement hstep]
    rcases hrequest : request s op with _ | size
    · exact hs.room
    · exact hroom size hrequest
  cases op with
  | mapPage address flags d supply => exact hs.mapPage hheap hstep hplacement
  | setPageDir d =>
      obtain ⟨-, hstep⟩ := Option.ite_none_right_eq_some.mp hstep
      obtain rfl := Option.some.inj hstep
      exact ⟨hs.kernel, hs.room, hs.mapped, hs.identity⟩
  | store mem =>
      obtain rfl := Option.some.inj hstep
      exact ⟨hs.kernel, hplacement, fun a ha => ((hs.mapped a ha).store mem).1, fun d hd a ha =>
        (congrArg pageBase (((hs.mapped a ha).store mem).2 d hd)).trans (hs.identity d hd a ha)⟩
  | clone =>
      dsimp only [earlyStep, walkStep] at hstep
      obtain ⟨p', hclone, rfl⟩ := Option.map_eq_some_iff.mp hstep
      have hpages := fun a ha => (hs.mapped a ha).clone hs.kernel hclone
      exact ⟨Nat.succ_pos _, hplacement, fun a ha => (hpages a ha).1, fun d hd a ha =>
        (congrArg pageBase ((hpages a ha).2 d hd)).trans (hs.identity 0 hs.kernel a ha)⟩

/-- A call after which the bound holds had room. -/
theorem EarlyInv.exact {op : EarlyOp} (hstep : earlyStep s op = some s')
    (hmapped : EarlyMapped bound s') : Room bound s op s' := by
  intro size hrequest
  have hplacement := earlyStep_placement hstep
  rw [hrequest, Option.elim_some] at hplacement
  exact hplacement ▸ hmapped.below

end Step

/-! ### A run -/

/-- The early memory that `init_paging` maps to itself, up to the address that it gives to
`map_pages`. -/
def earlyEnd (kernelEnd npages : Nat) : Nat := bootPlacement kernelEnd npages + pageSize * 400

theorem earlyEnd_le (kernelEnd npages : Nat) :
    earlyEnd kernelEnd npages ≤ directEnd kernelEnd npages := by
  unfold earlyEnd directEnd pageCount pageSize
  omega

/-- After the boot there is room left. -/
theorem initPaging_room {mem : Memory} {kernelEnd npages : Nat} {s : Spaces}
    (hend : kernelEnd ≤ 2 ^ 30) (hpages : npages < 2 ^ 20)
    (h : initPaging mem (bootStack npages) kernelEnd npages = some s) :
    s.paging.placement ≤ earlyEnd kernelEnd npages := by
  obtain ⟨-, p₁, p₂, hlow, hheap, rfl⟩ := initPaging_cases h
  have hplaced : 0 < bootPlacement kernelEnd npages := Nat.succ_pos _
  obtain ⟨hearly₁, hroom₁⟩ := mapPages_early (early_empty mem (bootStack npages) hplaced)
    (Nat.zero_mod _) kernelPages_pos kernelPages_small hlow
  obtain ⟨-, hroom₂⟩ := mapPages_early hearly₁ (by decide) kernelPages_pos kernelPages_small hheap
  obtain ⟨hspace, hdirect, -⟩ := directEnd_bounds hend hpages
  rw [Nat.mod_eq_of_lt hspace] at hroom₁
  have hheapPages :
      (pageCount kheapStart (kheapStart + kheapSize + pageSize) + 0x3ff) / 0x400 = 2 := by
    decide +kernel
  rw [hheapPages] at hroom₂
  have hup := pageUp_lt (bootPlacement kernelEnd npages)
  have hup₂ := (pageUp_spec p₂.placement).2
  have hroom₁ : pageUp p₁.placement ≤ pageUp (bootPlacement kernelEnd npages) +
      (pageCount 0 (bootPlacement kernelEnd npages + pageSize * 400) + 0x3ff) / 0x400 * pageSize :=
    hroom₁
  unfold directEnd at hdirect
  show p₂.placement + heapSize ≤ _
  unfold earlyEnd heapSize
  unfold pageSize at *
  omega

/-- What `kernel_dir` maps after the boot, it has from an early table. -/
theorem Booted.earlyPage {direct a : Nat} {p : State} (hs : Booted direct p)
    (htrans : Translates p 0 a) : EarlyPage direct 1 p a := by
  obtain ⟨table, htable, hword⟩ := (translates_iff hs.sharing 0 a).mp htrans
  obtain ⟨hpos, hbelow, -⟩ := hs.early.tables _ table htable
  refine ⟨table, hpos, hbelow, Nat.le_trans hbelow hs.room, fun d hd => ?_, hword⟩
  obtain rfl : d = 0 := by omega
  exact htable

theorem EarlyInv.of_booted {direct bound : Nat} {s : Spaces} (hdirs : s.dirs = 1)
    (hs : Booted direct s.paging) (hroom : s.paging.placement ≤ bound) :
    EarlyInv direct bound s := by
  refine ⟨by omega, hroom, fun a ha => hdirs ▸ hs.earlyPage (hs.identity a ha).1, fun d hd a ha => ?_⟩
  obtain rfl : d = 0 := by omega
  exact (hs.identity a ha).2

/--
**Early memory stays mapped to itself exactly as long as what is asked for ends below the
bound.**  From the boot of a kernel that ends in the first gigabyte, in every run of clones,
mapped pages, changes of the directory and of memory.
-/
theorem early_mapped_iff (mem : Memory) {kernelEnd npages : Nat} {s : Spaces}
    (hend : kernelEnd ≤ 2 ^ 30) (hpages : npages < 2 ^ 20)
    (h : initPaging mem (bootStack npages) kernelEnd npages = some s) (ops : List EarlyOp) :
    Always earlyStep (EarlyMapped (earlyEnd kernelEnd npages)) s ops ↔
      EveryStep earlyStep (Room (earlyEnd kernelEnd npages)) s ops := by
  obtain ⟨hdirs, -, hbooted⟩ := initPaging_booted hend hpages h
  obtain ⟨-, hdirect, -⟩ := directEnd_bounds hend hpages
  have hheap : directEnd kernelEnd npages ≤ kheapStart := Nat.le_trans hdirect (by decide)
  have hkeep : ∀ s op s', EarlyInv (directEnd kernelEnd npages) (earlyEnd kernelEnd npages) s →
      earlyStep s op = some s' → Room (earlyEnd kernelEnd npages) s op s' →
      EarlyInv (directEnd kernelEnd npages) (earlyEnd kernelEnd npages) s' :=
    fun _ _ _ hs hstep hroom => hs.step hheap hstep hroom
  have hexact : ∀ s op s', EarlyInv (directEnd kernelEnd npages) (earlyEnd kernelEnd npages) s →
      earlyStep s op = some s' → EarlyMapped (earlyEnd kernelEnd npages) s' →
      Room (earlyEnd kernelEnd npages) s op s' :=
    fun _ _ _ _ hstep hmapped => EarlyInv.exact hstep hmapped
  exact always_iff (fun _ hs => hs.earlyMapped (earlyEnd_le kernelEnd npages)) hkeep hexact
    (EarlyInv.of_booted hdirs hbooted (initPaging_room hend hpages h))

/-- A clone, and a page of it in a slot of its own. -/
theorem early_mapped_iff_clone :
    ∃ s, initPaging (fun _ => 0) (bootStack 0x20000) 0x200000 0x20000 = some s ∧
      (Always earlyStep (EarlyMapped (earlyEnd 0x200000 0x20000)) s
          [.clone, .mapPage 0xd0000000 7 1 .early] ↔
        EveryStep earlyStep (Room (earlyEnd 0x200000 0x20000)) s
          [.clone, .mapPage 0xd0000000 7 1 .early]) := by
  obtain ⟨s, hs, -⟩ := initPaging_total (fun _ => 0) bootFrames_length
  exact ⟨s, hs, early_mapped_iff (fun _ => 0) (by decide) (by decide) hs _⟩

/-- Each clone takes the memory of a directory. -/
theorem clones_placement (n : Nat) : ∀ s : Spaces, Roomy s.paging (2 * n) →
    ∃ s', runAll earlyStep s (List.replicate n .clone) = some s' ∧
      s.paging.placement + n * pageDirSize ≤ s'.paging.placement := by
  induction n with
  | zero => exact fun s _ => ⟨s, rfl, by omega⟩
  | succ n ih =>
      intro s hroomy
      obtain ⟨p, hclone, hroomy'⟩ := clonePageDir_total 0 s.dirs hroomy
      have hstep : earlyStep s .clone = some { s with paging := p, dirs := s.dirs + 1 } := by
        dsimp only [earlyStep, walkStep]
        rw [hclone]
        rfl
      obtain ⟨s', hrun, hle⟩ := ih { s with paging := p, dirs := s.dirs + 1 } hroomy'
      have hplacement := earlyStep_placement hstep
      have hup := (pageUp_spec s.paging.placement).2
      refine ⟨s', ?_, ?_⟩
      · rw [List.replicate_succ]
        show (earlyStep s .clone).bind _ = _
        rw [hstep]
        exact hrun
      · dsimp only [request, Option.elim_some] at hplacement
        dsimp only at hle
        rw [Nat.succ_mul]
        omega

/--
**The clones run out of the memory that is mapped to itself**, after as many calls of `exec`
as fit below its end.
-/
theorem early_not_mapped :
    ∃ s, initPaging (fun _ => 0) (bootStack 0x20000) 0x200000 0x20000 = some s ∧
      ¬ Always earlyStep (EarlyMapped (earlyEnd 0x200000 0x20000)) s
        (List.replicate 522 .clone) := by
  obtain ⟨s, hs, hroomy, -⟩ := initPaging_total (fun _ => 0) bootFrames_length
  refine ⟨s, hs, fun h => ?_⟩
  have hroomy' : Roomy s.paging (2 * 522) := by
    obtain ⟨hframes, hspace⟩ := hroomy
    unfold Roomy
    unfold pageSize at *
    omega
  obtain ⟨s', hrun, hle⟩ := clones_placement 522 s hroomy'
  have hbelow := (h.last hrun).below
  have hend : earlyEnd 0x200000 0x20000 < 522 * pageDirSize := by decide +kernel
  omega

/-- **`expand` is a run of calls of `map_page`**, in the current directory, with early tables. -/
theorem expand_run {s s' : Spaces} (hcurrent : s.current < s.dirs) (h : s.expand = some s') :
    runAll earlyStep s ((List.range (pageCount s.mapStart s.mapStop)).map fun i =>
      .mapPage (s.mapStart + i * pageSize) kernelPages s.current .early) =
        some { s' with size := s.size } := by
  have hloop : ∀ (is : List Nat) (p p' : State), (∀ i ∈ is, s.mapStart + i * pageSize < space) →
      is.foldlM (fun p i => p.mapPage (s.mapStart + i * pageSize) kernelPages s.current) p = some p' →
      runAll earlyStep { s with paging := p } (is.map fun i =>
        .mapPage (s.mapStart + i * pageSize) kernelPages s.current .early) =
          some { s with paging := p' } := by
    intro is
    induction is with
    | nil =>
        intro p p' _ hfold
        obtain rfl := Option.some.inj hfold
        rfl
    | cons i rest ih =>
        intro p p' hspace hfold
        rw [List.foldlM_cons] at hfold
        obtain ⟨p₁, hmap, hrest⟩ := Option.bind_eq_some_iff.mp hfold
        rw [State.mapPage_eq_from] at hmap
        have hstep : earlyStep { s with paging := p }
            (.mapPage (s.mapStart + i * pageSize) kernelPages s.current .early) =
              some { s with paging := p₁ } := by
          dsimp only [earlyStep, walkStep]
          rw [if_pos (by exact trivial), if_pos ⟨hspace i List.mem_cons_self, kernelPages_pos,
            kernelPages_small, hcurrent⟩]
          exact Option.map_eq_some_iff.mpr ⟨p₁, hmap, rfl⟩
        show (earlyStep _ _).bind _ = _
        rw [hstep]
        exact ih p₁ p' (fun j hj => hspace j (List.mem_cons_of_mem i hj)) hrest
  unfold Spaces.expand at h
  obtain ⟨p, hmap, rfl⟩ := Option.map_eq_some_iff.mp h
  unfold State.mapPages at hmap
  by_cases hend : space ≤ s.mapStart + pageCount s.mapStart s.mapStop * pageSize
  · rw [if_pos hend] at hmap
    cases hmap
  · rw [if_neg hend] at hmap
    refine hloop _ s.paging p (fun i hi => ?_) hmap
    have hi := List.mem_range.mp hi
    unfold pageSize at *
    omega

end OsThing.Paging
