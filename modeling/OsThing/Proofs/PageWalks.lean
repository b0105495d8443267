/-
When the processor walks the tables that the kernel reads.

Of every table a directory keeps two numbers: in `tables` the pointer, through which
`get_page` reads, and in `table_addr` the physical address.  The processor uses the second
one for clones, whose `table_addr` is loaded, but for `kernel_dir` the first one, since
that is what its struct starts with.  A table from early memory is where its pointer says,
because `init_paging` maps early memory to itself.  A table from the heap is not.

So both agree as long as no table of `kernel_dir` comes from the heap.  The invariant says,
besides, that early memory and the heap stay mapped to what they were, in all directories.
-/
import OsThing.Proofs.EarlyMemory
import OsThing.Proofs.Isolation

namespace OsThing.Paging

open Bytes Runs Alloc

/-- The frame the processor takes the table of the slot from. -/
def hardwareFrame (s : Spaces) (d low : Nat) : Nat :=
  pageBase (if d = 0 then (s.paging.dir d).tables low else (s.paging.dir d).tableAddr low)

/-- In every directory, the page that `get_page` reads the table from is the one that the
processor takes it from. -/
def WalksAgree (s : Spaces) : Prop :=
  ∀ d < s.dirs, ∀ low < 0x400, ∀ table, tableOf s.paging d low = some table →
    ∀ e < s.dirs, pageBase (s.paging.getPage table e) = hardwareFrame s d low

/-! ### The memory of the kernel -/

/-- Early memory that is mapped to itself, up to `direct`, and the heap with its last page. -/
def KernelPage (direct a : Nat) : Prop :=
  a < direct ∨ (kheapStart ≤ a ∧ a < kheapStart + kheapSize + pageSize)

/-- Where a table comes from: early memory below `direct`, or for a clone the heap. -/
def FitsSupply (direct placement d : Nat) : State.Supply → Prop
  | .early => pageUp placement + pageSize ≤ direct
  | .heap ret => d ≠ 0 ∧ kheapStart ≤ ret ∧ ret + pageSize ≤ kheapStart + kheapSize

/-- If the call needs a table, it fits. -/
def Supplied (direct : Nat) (s : Spaces) : WalkOp → Prop
  | .mapPage address _ d supply => tableOf s.paging d (lowIndex address) = none →
      FitsSupply direct s.paging.placement d supply
  | _ => True

structure WalkInv (direct : Nat) (s : Spaces) : Prop where
  kernel : 0 < s.dirs
  current : s.current < s.dirs
  placed : 0 < s.paging.placement
  /-- All directories map the memory of the kernel by the same tables, which are early. -/
  mapped : ∀ a, KernelPage direct a → ∃ table, 0 < table ∧ table + pageSize ≤ s.paging.placement ∧
    table + pageSize ≤ direct ∧ (∀ d < s.dirs, tableOf s.paging d (lowIndex a) = some table) ∧
    read32 s.paging.mem (entryAt table (highIndex a)) ≠ 0
  identity : ∀ a < direct, pageBase (s.paging.getPage a 0) = pageBase a
  agree : ∀ d < s.dirs, ∀ low table, tableOf s.paging d low = some table →
    KernelPage direct table ∧ (d = 0 → table < direct) ∧
      pageBase ((s.paging.dir d).tableAddr low) = pageBase (s.paging.getPage table 0)

section Walk

variable {direct : Nat} {s s' : Spaces}

/-- The memory of the kernel is the same in all directories. -/
theorem WalkInv.getPage_all (hs : WalkInv direct s) {a d : Nat} (ha : KernelPage direct a)
    (hd : d < s.dirs) : s.paging.getPage a d = s.paging.getPage a 0 := by
  obtain ⟨table, hpos, -, -, hall, -⟩ := hs.mapped a ha
  rw [getPage_eq_read (hall d hd) hpos, getPage_eq_read (hall 0 hs.kernel) hpos]

theorem WalkInv.walksAgree (hs : WalkInv direct s) : WalksAgree s := by
  intro d hd low _ table htable e he
  obtain ⟨hkernel, hdirect, haddr⟩ := hs.agree d hd low table htable
  rw [hs.getPage_all hkernel he]
  unfold hardwareFrame
  split
  · rename_i hzero
    have haligned := tableOf_aligned htable
    rw [hs.identity table (hdirect hzero), (tableOf_eq_some htable).2, pageBase_of_mod haligned]
  · exact haddr.symm

/-- What a `map_page` does to the tables, and to the entries that the kernel lives by. -/
structure WalkStep (direct : Nat) (s s' : Spaces) (d low table : Nat) : Prop where
  dirs : s'.dirs = s.dirs
  current : s'.current = s.current
  placement : s.paging.placement ≤ s'.paging.placement
  tables : ∀ d' low', tableOf s'.paging d' low' =
    if d' = d ∧ low' = low then some table else tableOf s.paging d' low'
  others : ∀ d' low', ¬ (d' = d ∧ low' = low) →
    (s'.paging.dir d').tableAddr low' = (s.paging.dir d').tableAddr low'
  own : (tableOf s.paging d low = some table ∧
      (s'.paging.dir d).tableAddr low = (s.paging.dir d).tableAddr low) ∨
    (tableOf s.paging d low = none ∧ KernelPage direct table ∧ (d = 0 → table < direct) ∧
      pageBase ((s'.paging.dir d).tableAddr low) = pageBase (s.paging.getPage table 0))
  keeps : ∀ t high, t % pageSize = 0 → t + pageSize ≤ s.paging.placement → t + pageSize ≤ direct →
    high < 0x400 → KeepsFrame s.paging s'.paging (entryAt t high)

/-- Early memory and the heap keep their frames. -/
theorem WalkStep.mapped {d low table : Nat} (h : WalkStep direct s s' d low table)
    (hs : WalkInv direct s) {a : Nat} (ha : KernelPage direct a) :
    ∃ t, 0 < t ∧ t + pageSize ≤ s'.paging.placement ∧ t + pageSize ≤ direct ∧
      (∀ d' < s'.dirs, tableOf s'.paging d' (lowIndex a) = some t) ∧
      read32 s'.paging.mem (entryAt t (highIndex a)) ≠ 0 ∧
      pageBase (s'.paging.getPage a 0) = pageBase (s.paging.getPage a 0) := by
  have hold : EarlyPage direct s.dirs s.paging a := hs.mapped a ha
  obtain ⟨⟨t, hpos, hbelow, hdirect, hall, hword⟩, hframe⟩ :=
    hold.step hs.kernel h.placement h.tables (h.own.imp And.left And.left) h.keeps
  exact ⟨t, hpos, hbelow, hdirect, h.dirs ▸ hall, hword, hframe 0 hs.kernel⟩

theorem WalkStep.inv {d low table : Nat} (h : WalkStep direct s s' d low table)
    (hs : WalkInv direct s) : WalkInv direct s' := by
  refine ⟨h.dirs ▸ hs.kernel, by rw [h.current, h.dirs]; exact hs.current,
    Nat.lt_of_lt_of_le hs.placed h.placement, fun a ha => ?_, fun a ha => ?_,
    fun d' hd' low' t ht => ?_⟩
  · obtain ⟨t, hpos, hbelow, hdirect, hall, hword, -⟩ := h.mapped hs ha
    exact ⟨t, hpos, hbelow, hdirect, hall, hword⟩
  · obtain ⟨-, -, -, -, -, -, hframe⟩ := h.mapped hs (Or.inl ha)
    rw [hframe, hs.identity a ha]
  · rw [h.dirs] at hd'
    have hframe : ∀ {a}, KernelPage direct a →
        pageBase (s'.paging.getPage a 0) = pageBase (s.paging.getPage a 0) := by
      intro a ha
      obtain ⟨-, -, -, -, -, -, hframe⟩ := h.mapped hs ha
      exact hframe
    rw [h.tables] at ht
    split at ht
    · rename_i heq
      obtain ⟨rfl, rfl⟩ := heq
      obtain rfl := Option.some.inj ht
      rcases h.own with ⟨hown, haddr⟩ | ⟨-, hkernel, hdirect, haddr⟩
      · obtain ⟨hkernel, hdirect, hold⟩ := hs.agree d' hd' low' table hown
        exact ⟨hkernel, hdirect, by rw [haddr, hold, hframe hkernel]⟩
      · exact ⟨hkernel, hdirect, by rw [haddr, hframe hkernel]⟩
    · rename_i hne
      obtain ⟨hkernel, hdirect, hold⟩ := hs.agree d' hd' low' t ht
      exact ⟨hkernel, hdirect, by rw [h.others d' low' hne, hold, hframe hkernel]⟩

/-! ### One call -/

/-- With the table that is there, `map_page` adds a page to it. -/
theorem walkStep_own {d low flags table : Nat} {p' : State} (hflags : 0 < flags)
    (hsmall : flags < pageSize) (hentered : PageEntered s.paging p' d low flags)
    (hown : tableOf s.paging d low = some table) :
    WalkStep direct s { s with paging := p' } d low table where
  dirs := rfl
  current := rfl
  placement := Nat.le_of_eq hentered.placement.symm
  tables d' low' := by
    rw [hentered.tableOf hflags hsmall, (tableOf_eq_some hown).2]
  others d' low' _ := congrFun (hentered.tableAddr d') low'
  own := Or.inl ⟨hown, congrFun (hentered.tableAddr d) low⟩
  keeps t high haligned _ _ _ := hentered.keeps _ (by
    unfold entryAt
    unfold pageSize at haligned
    omega)

/-- An address and the start of its page have the same entry. -/
theorem getPage_pageBase (p : State) (a d : Nat) : p.getPage (pageBase a) d = p.getPage a d := by
  have hlow : pageBase a / 2 ^ 22 = a / 2 ^ 22 := by
    unfold pageBase pageSize
    omega
  have hhigh : pageBase a / 2 ^ 12 % 0x400 = a / 2 ^ 12 % 0x400 := by
    unfold pageBase pageSize
    omega
  unfold State.getPage
  rw [hlow, hhigh]

/-- What `kmalloc` supplies, if it fits: the block is clear of the tables that map the memory of
the kernel, lies in that memory, and is where `kmalloc` says. -/
structure Fits (direct : Nat) (p p₀ : State) (current d : Nat) (block : Block) : Prop where
  dir : p₀.dir = p.dir
  mem : p₀.mem = p.mem
  placement : p.placement ≤ p₀.placement
  clear : p.placement ≤ block.addr ∨ direct ≤ block.addr
  kernel : KernelPage direct (pageBase block.addr)
  low : d = 0 → pageBase block.addr < direct
  physical : block.addr < direct ∧ block.physical = block.addr ∨
    KernelPage direct block.addr ∧ block.physical = p.getPage block.addr current

theorem kmalloc_fits {p p₀ : State} {supply : State.Supply} {current d : Nat} {block : Block}
    (hheap : direct ≤ kheapStart) (hfits : FitsSupply direct p.placement d supply)
    (h : p.kmalloc current supply = some (block, p₀)) : Fits direct p p₀ current d block := by
  unfold State.kmalloc at h
  cases supply with
  | early =>
      have h : p.earlyBlock = some (block, p₀) := h
      have hfits : pageUp p.placement + pageSize ≤ direct := hfits
      obtain ⟨haligned, hle⟩ := pageUp_spec p.placement
      unfold State.earlyBlock State.kmallocE at h
      dsimp only at h
      split at h
      · obtain ⟨rfl, rfl⟩ := Prod.mk.inj (Option.some.inj h)
        have hlt : pageUp p.placement < direct := by
          unfold pageSize at hfits
          omega
        have hbase := pageBase_of_mod haligned
        exact ⟨rfl, rfl, Nat.le_trans hle (Nat.le_add_right _ _), Or.inl hle,
          Or.inl (hbase.symm ▸ hlt), fun _ => hbase.symm ▸ hlt, Or.inl ⟨hlt, rfl⟩⟩
      · cases h
  | heap ret =>
      have h : p.heapBlock ret current = some (block, p₀) := h
      obtain ⟨rfl, rfl⟩ := Prod.mk.inj (Option.some.inj h)
      obtain ⟨hclone, hlo, hhi⟩ := hfits
      refine ⟨rfl, rfl, Nat.le_refl _, Or.inr (Nat.le_trans hheap hlo), Or.inr ⟨?_, ?_⟩,
        fun hzero => absurd hzero hclone, Or.inr ⟨Or.inr ⟨hlo, ?_⟩, rfl⟩⟩
      · dsimp only
        unfold kheapStart pageBase pageSize at *
        omega
      · dsimp only
        unfold pageBase pageSize at *
        omega
      · dsimp only
        unfold pageSize at *
        omega

/-- With a new table that fits, `map_page` adds its first page to it. -/
theorem walkStep_new {d low flags : Nat} {block : Block} {p₀ p' : State} (hs : WalkInv direct s)
    (hflags : 0 < flags) (hsmall : flags < pageSize) (hnone : tableOf s.paging d low = none)
    (hfits : Fits direct s.paging p₀ s.current d block)
    (hentered : PageEntered (p₀.placeTable low flags d block) p' d low flags) :
    WalkStep direct s { s with paging := p' } d low (pageBase block.addr) := by
  have hplaced := placeTable_placed p₀ low flags d block
  have haddr : ∀ d' low', (p'.dir d').tableAddr low' =
      if d' = d ∧ low' = low then block.physical ||| flags
      else (s.paging.dir d').tableAddr low' := by
    intro d' low'
    rw [hentered.tableAddr, hplaced.tableAddr, hfits.dir]
  have hphysical : pageBase block.physical =
      pageBase (s.paging.getPage (pageBase block.addr) 0) := by
    rw [getPage_pageBase]
    rcases hfits.physical with ⟨hlt, hsame⟩ | ⟨hkernel, hsame⟩
    · rw [hsame, hs.identity _ hlt]
    · rw [hsame, hs.getPage_all hkernel hs.current]
  refine ⟨rfl, rfl, ?_, fun d' low' => ?_, fun d' low' hne => ?_,
    Or.inr ⟨hnone, hfits.kernel, hfits.low, ?_⟩, fun t high haligned hbelow hdir' hhigh hne => ?_⟩
  · exact Nat.le_trans hfits.placement (Nat.le_of_eq hentered.placement.symm)
  · rw [hentered.tableOf_new hflags hsmall]
    unfold tableOf
    rw [hfits.dir]
  · show (p'.dir d').tableAddr low' = _
    rw [haddr, if_neg hne]
  · show pageBase ((p'.dir d).tableAddr low) = _
    rw [haddr, if_pos (show d = d ∧ low = low from ⟨rfl, rfl⟩), pageBase_or _ hsmall, hphysical]
  · obtain ⟨-, hhi⟩ := entryAt_inside t hhigh
    have hclear := hfits.clear
    have hkeeps := hentered.keeps_new haligned (show entryAt t high + 4 ≤ block.addr ∨ _ by omega)
    unfold KeepsFrame at hkeeps
    rw [hfits.mem] at hkeeps
    exact hkeeps hne

/-- **A `map_page` keeps the invariant**, if a table that it needs fits. -/
theorem WalkInv.mapPage {address flags d : Nat} {supply : State.Supply} (hs : WalkInv direct s)
    (hheap : direct ≤ kheapStart) (hstep : walkStep s (.mapPage address flags d supply) = some s')
    (hsupplied : Supplied direct s (.mapPage address flags d supply)) : WalkInv direct s' := by
  obtain ⟨⟨-, hflags, hsmall, -⟩, hstep⟩ := Option.ite_none_right_eq_some.mp hstep
  obtain ⟨p', hmap, rfl⟩ := Option.map_eq_some_iff.mp hstep
  obtain ⟨p₁, henter, ⟨hsome, rfl⟩ | ⟨hnone, block, p₀, hkmalloc, rfl⟩⟩ := mapPageFrom_cases hmap
  · have hentered := enterPage_spec hsmall henter
    exact (walkStep_own hflags hsmall hentered (if_neg hsome)).inv hs
  · have hnone := tableOf_eq_none.mpr hnone
    have hfits := kmalloc_fits hheap (hsupplied hnone) hkmalloc
    exact (walkStep_new hs hflags hsmall hnone hfits (enterPage_spec hsmall henter)).inv hs

/-- A clone has the tables of `kernel_dir` in both of its copies. -/
theorem WalkInv.clone (hs : WalkInv direct s) (hstep : walkStep s .clone = some s') :
    WalkInv direct s' := by
  unfold walkStep at hstep
  obtain ⟨p', hclone, rfl⟩ := Option.map_eq_some_iff.mp hstep
  obtain ⟨hmem, hplacement, hdir⟩ := clonePageDir_dir hclone
  -- every directory is like one from before, and `kernel_dir` like itself
  have hfrom : ∀ d < s.dirs + 1, ∃ d₀ < s.dirs, (d = 0 → d₀ = 0) ∧
      ∀ low, tableOf p' d low = tableOf s.paging d₀ low ∧
        (tableOf s.paging d₀ low ≠ none →
          (p'.dir d).tableAddr low = (s.paging.dir d₀).tableAddr low) := by
    intro d hd
    by_cases hnew : d = s.dirs
    · refine ⟨0, hs.kernel, fun _ => rfl, fun low => ?_⟩
      unfold tableOf
      rw [hdir, if_pos hnew]
      refine ⟨rfl, fun hsome => if_neg ?_⟩
      exact mt tableOf_eq_none.mpr hsome
    · refine ⟨d, by omega, id, fun low => ?_⟩
      unfold tableOf
      rw [hdir, if_neg hnew]
      exact ⟨rfl, fun _ => rfl⟩
  have hkernel : ∀ low, tableOf p' 0 low = tableOf s.paging 0 low := by
    intro low
    obtain ⟨d₀, -, hzero, hsame⟩ := hfrom 0 (Nat.succ_pos _)
    rw [(hsame low).1, hzero rfl]
  have hpage : ∀ a, p'.getPage a 0 = s.paging.getPage a 0 := by
    intro a
    rw [getPage_of_table, getPage_of_table, hkernel, hmem]
  refine ⟨Nat.succ_pos _, Nat.lt_succ_of_lt hs.current, Nat.lt_of_lt_of_le hs.placed hplacement,
    fun a ha => ?_, fun a ha => ?_, fun d hd low table ht => ?_⟩
  · obtain ⟨table, hpos, hbelow, hdirect, hall, hword⟩ := hs.mapped a ha
    refine ⟨table, hpos, Nat.le_trans hbelow hplacement, hdirect, fun d hd => ?_, ?_⟩
    · obtain ⟨d₀, hd₀, -, hsame⟩ := hfrom d hd
      exact (hsame _).1.trans (hall d₀ hd₀)
    · rw [hmem]
      exact hword
  · rw [hpage]
    exact hs.identity a ha
  · obtain ⟨d₀, hd₀, hzero, hsame⟩ := hfrom d hd
    have ht₀ := (hsame low).1.symm.trans ht
    obtain ⟨hkernel, hdirect, haddr⟩ := hs.agree d₀ hd₀ low table ht₀
    have hsome : tableOf s.paging d₀ low ≠ none := by
      rw [ht₀]
      exact Option.some_ne_none _
    refine ⟨hkernel, fun h => hdirect (hzero h), ?_⟩
    rw [(hsame low).2 hsome, hpage]
    exact haddr

/-! ### A run -/

theorem WalkInv.step {op : WalkOp} (hheap : direct ≤ kheapStart) (hs : WalkInv direct s)
    (hstep : walkStep s op = some s') (hsupplied : Supplied direct s op) : WalkInv direct s' := by
  cases op with
  | clone => exact hs.clone hstep
  | setPageDir d =>
      obtain ⟨hd, hstep⟩ := Option.ite_none_right_eq_some.mp hstep
      obtain rfl := Option.some.inj hstep
      exact { hs with current := hd }
  | mapPage address permissions d supply => exact hs.mapPage hheap hstep hsupplied

end Walk

/-- After the boot, the kernel's directory is all there is. -/
theorem WalkInv.of_booted {direct : Nat} {s : Spaces} (hdirs : s.dirs = 1) (hcurrent : s.current = 0)
    (hs : Booted direct s.paging) : WalkInv direct s := by
  refine ⟨by omega, by omega, hs.early.placed, fun a ha => ?_, fun a ha => (hs.identity a ha).2,
    fun d hd low table ht => ?_⟩
  · have htrans : Translates s.paging 0 a := by
      rcases ha with hlow | ⟨hlo, hhi⟩
      · exact (hs.identity a hlow).1
      · exact hs.heap a hlo hhi
    exact hdirs ▸ hs.earlyPage htrans
  · obtain rfl : d = 0 := by omega
    obtain ⟨-, hbelow, haddr⟩ := hs.early.tables low table ht
    have hlt : table < direct := by
      have hroom := hs.room
      unfold pageSize at hbelow
      omega
    refine ⟨Or.inl hlt, fun _ => hlt, ?_⟩
    rw [haddr, (hs.identity table hlt).2, pageBase_of_mod (tableOf_aligned ht)]

/--
**The processor and `get_page` read the same tables, as long as `kernel_dir` gets no table
from the heap.**  From the boot of a kernel that ends in the first gigabyte, in every run of
clones, changes of the directory and mapped pages whose new tables fit: those of `kernel_dir`
into the memory that the boot mapped to itself, those of a clone there or into the heap.
-/
theorem walks_agree (mem : Memory) {kernelEnd npages : Nat} {s : Spaces} (hend : kernelEnd ≤ 2 ^ 30)
    (hpages : npages < 2 ^ 20) (h : initPaging mem (bootStack npages) kernelEnd npages = some s)
    (ops : List WalkOp)
    (hsupplied : EveryTry walkStep (Supplied (directEnd kernelEnd npages)) s ops) :
    Always walkStep WalksAgree s ops := by
  obtain ⟨hdirs, hcurrent, hbooted⟩ := initPaging_booted hend hpages h
  obtain ⟨-, hdirect, -⟩ := directEnd_bounds hend hpages
  have hheap : directEnd kernelEnd npages ≤ kheapStart := Nat.le_trans hdirect (by decide)
  have hkeep : ∀ s op s', WalkInv (directEnd kernelEnd npages) s → walkStep s op = some s' →
      Supplied (directEnd kernelEnd npages) s op → WalkInv (directEnd kernelEnd npages) s' :=
    fun _ _ _ hs hstep hop => hs.step hheap hstep hop
  exact (always_of_inv hkeep (WalkInv.of_booted hdirs hcurrent hbooted)
    hsupplied.everyStep).mono fun _ hs => hs.walksAgree

/-- On a machine of 512 MB, a clone that gets a table from the heap. -/
theorem walks_agree_clone :
    ∃ s, initPaging (fun _ => 0) (bootStack 0x20000) 0x200000 0x20000 = some s ∧
      Always walkStep WalksAgree s [.clone, .mapPage 0xd0000000 7 1 (.heap 0xc0000004)] := by
  obtain ⟨s, hs, -⟩ := initPaging_total (fun _ => 0) bootFrames_length
  refine ⟨s, hs, walks_agree (fun _ => 0) (by decide) (by decide) hs _ ?_⟩
  exact ⟨trivial, fun _ _ => ⟨fun _ => ⟨by decide, by decide, by decide⟩, fun _ _ => trivial⟩⟩

theorem enterPage_total {p : State} (low high flags d : Nat) (hstack : p.pageStack ≠ []) :
    ∃ p', p.enterPage low high flags d = some p' := by
  obtain ⟨p', hfill, -⟩ := @fillEntry_total (p.setTable d low (pageBase ((p.dir d).tables low)))
    (entryAt (pageBase ((p.dir d).tables low)) high) flags hstack
  unfold State.enterPage
  dsimp only
  rw [hfill]
  exact ⟨_, rfl⟩

/-- A `map_page` that gets its table from the heap succeeds while there are frames. -/
theorem mapPageFrom_heap {p : State} {address flags d ret current : Nat} (hstack : p.pageStack ≠ [])
    (hnone : tableOf p d (lowIndex address) = none) :
    ∃ p', p.mapPageFrom (State.kmalloc current (.heap ret)) address flags d = some p' ∧
      (p.placeTable (lowIndex address) flags d ⟨ret, p.getPage ret current⟩).enterPage
        (lowIndex address) (highIndex address) flags d = some p' := by
  obtain ⟨p', henter⟩ := @enterPage_total
    (p.placeTable (lowIndex address) flags d ⟨ret, p.getPage ret current⟩) (lowIndex address)
    (highIndex address) flags d hstack
  refine ⟨p', ?_, henter⟩
  unfold State.mapPageFrom
  dsimp only
  rw [if_pos (show (p.dir d).tables (address / 2 ^ 22) = 0 from tableOf_eq_none.mp hnone)]
  exact henter

/--
**A table of `kernel_dir` from the heap is not where the processor looks.**  It looks at
physical address `0xc0000000`, where that machine has no memory.
-/
theorem kernel_table_from_heap :
    ∃ s, initPaging (fun _ => 0) (bootStack 0x20000) 0x200000 0x20000 = some s ∧
      ¬ Always walkStep WalksAgree s [.mapPage 0xd0000000 7 0 (.heap 0xc0000004)] := by
  obtain ⟨s, hs, hroomy, hnone⟩ := initPaging_total (fun _ => 0) bootFrames_length
  refine ⟨s, hs, fun h => ?_⟩
  obtain ⟨hdirs, hcurrent, hbooted⟩ := initPaging_booted (by decide) (by decide) hs
  obtain ⟨-, hdirect, -⟩ := @directEnd_bounds 0x200000 0x20000 (by decide) (by decide)
  have hstack : s.paging.pageStack ≠ [] :=
    List.ne_nil_of_length_pos (Nat.lt_of_lt_of_le (by decide) hroomy.1)
  have hnone : tableOf s.paging 0 (lowIndex 0xd0000000) = none := hnone _ (by decide)
  obtain ⟨p', hmap, henter⟩ :=
    @mapPageFrom_heap s.paging 0xd0000000 7 0 0xc0000004 s.current hstack hnone
  have hstep : walkStep s (.mapPage 0xd0000000 7 0 (.heap 0xc0000004)) =
      some { s with paging := p' } := by
    unfold walkStep
    dsimp only
    rw [if_pos ⟨by decide, by decide, by decide, by omega⟩, hmap]
    rfl
  have hentered := enterPage_spec (show 7 < pageSize by decide) henter
  have htables := hentered.tableOf_new (by decide) (by decide)
  -- the pointer of the new table, for the processor a physical address
  have hown : tableOf p' 0 (lowIndex 0xd0000000) = some 0xc0000000 := by
    rw [htables, if_pos ⟨rfl, rfl⟩]
    exact congrArg some (show pageBase 0xc0000004 = 0xc0000000 by decide)
  -- the frame of its page, one of the machine
  obtain ⟨t, ht, hword⟩ := (translates_iff hbooted.sharing 0 0xc0000000).mp
    (hbooted.heap 0xc0000000 (by decide) (by decide))
  obtain ⟨hpos, hbelow, -⟩ := hbooted.early.tables _ t ht
  have ht' : tableOf p' 0 (lowIndex 0xc0000000) = some t := by
    rw [htables, if_neg (by decide)]
    exact ht
  have hroom := hbooted.room
  have hkeeps := hentered.keeps_new (tableOf_aligned ht) (Or.inl (by
    show t + 4 * highIndex 0xc0000000 + 4 ≤ 0xc0000004
    have hhigh : highIndex 0xc0000000 = 0 := by decide
    unfold pageSize at hbelow
    omega))
  have hframe := initPaging_within (show 0x20000 < 2 ^ 20 by decide) hs 0xc0000000
    (hbooted.heap 0xc0000000 (by decide) (by decide))
  rw [getPage_eq_read ht hpos, ← (hkeeps hword).2, ← getPage_eq_read ht' hpos] at hframe
  have hagree := h.2 _ hstep 0 (by rw [hdirs]; decide) (lowIndex 0xd0000000) (by decide) _ hown 0
    (by rw [hdirs]; decide)
  have hhardware : hardwareFrame { s with paging := p' } 0 (lowIndex 0xd0000000) = 0xc0000000 :=
    (tableOf_eq_some hown).2
  rw [hagree.trans hhardware] at hframe
  exact absurd hframe (by decide)

end OsThing.Paging
