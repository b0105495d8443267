/-
Link counts, and the entries they count.

A file is made with one link and one entry.  `unlink` takes a link away, but no entry: the name
is there as before, and leads where it did, since no lookup looks at the count.  So counts and
names agree just as long as no path that is unlinked leads anywhere.
-/
import OsThing.Proofs.MountFree
import Mathlib.Algebra.BigOperators.Group.Finset.Piecewise

namespace OsThing.Fs

open Runs NameWalk

/-! ### Counts -/

/-- The number of entries of a directory that are for the inode. -/
def FileHeader.namesFor (f : FileHeader) (inode : Nat) : Nat :=
  match f.data with
  | .entries dirs => dirs.countP fun e => e.inode = inode
  | .buffer _ => 0

/-- The number of entries in all directories that are for the inode.  Headers have numbers below
`ramfs_i_count`. -/
def RamfsHeader.namesFor (head : RamfsHeader) (inode : Nat) : Nat :=
  ∑ d ∈ Finset.range head.iCount, (head.getFileH d).elim 0 fun f => f.namesFor inode

/-- The links of each file but the root of its file system are as many as the entries for it. -/
def LinksAgree (s : Vfs) : Prop :=
  ∀ fs head i f, s.ramfs fs = some head → head.getFileH i = some f → i ≠ 1 →
    f.links = head.namesFor i

/-! ### The calls -/

inductive NameOp
  | make (op : MakeOp)
  | unlink (path : Name)

def NameOp.toOp : NameOp → VfsOp
  | .make op => op.toOp
  | .unlink path => .unlink path

structure NameCall where
  task : Nat
  op : NameOp

def nameStep (fuel : Nat) (s : Vfs) (c : NameCall) : Option Vfs :=
  vfsStep fuel s ⟨c.task, c.op.toOp⟩

/-- If the call is an `unlink` that returns 0, its path leads nowhere then. -/
def Unlinks (fuel : Nat) (s : Vfs) (c : NameCall) : Prop :=
  ∀ path s', c.op = .unlink path → s.unlink fuel c.task path = some (0, s') →
    ∀ node, ¬ Resolves s' fuel c.task path node

/-- If the call is an `unlink`, its path leads nowhere before. -/
def NoneToUnlink (fuel : Nat) (s : Vfs) (c : NameCall) : Prop :=
  ∀ path, c.op = .unlink path → ∀ node, ¬ Resolves s fuel c.task path node

/-! ### One file more -/

theorem namesFor_enter {f : FileHeader} {dirs : List RamfsDirent} {e : RamfsDirent}
    (hdata : f.data = .entries dirs) (inode : Nat) :
    (f.enter dirs e).namesFor inode = f.namesFor inode + if e.inode = inode then 1 else 0 := by
  unfold FileHeader.namesFor
  rw [hdata]
  show (dirs ++ [e]).countP _ = _
  rw [List.countP_append, List.countP_singleton]
  simp only [decide_eq_true_eq]

/-- **The new entry is counted for the new file.** -/
theorem Added.namesFor {head head' : RamfsHeader} {dir type : Nat} {name : Name} {mode : UInt32}
    (h : Added head head' dir name mode type) (inode : Nat) :
    head'.namesFor inode = head.namesFor inode + if head.iCount = inode then 1 else 0 := by
  obtain ⟨f, dirs, e, hf, -, hdata, hinode, -, hfiles⟩ := h.files
  have hlast : (head'.getFileH head.iCount).elim 0 (fun f => f.namesFor inode) = 0 := by
    rw [hfiles, if_pos rfl]
    rfl
  have hold : ∀ d ∈ Finset.range head.iCount,
      ((head'.getFileH d).elim 0 fun f => f.namesFor inode) =
        ((head.getFileH d).elim 0 fun f => f.namesFor inode) +
          if d = dir then (if head.iCount = inode then 1 else 0) else 0 := by
    intro d hd
    rw [hfiles, if_neg (Nat.ne_of_lt (Finset.mem_range.mp hd))]
    by_cases hhere : d = dir
    · rw [hhere, hf, Option.map_some, if_pos rfl, if_pos rfl]
      show (f.enter dirs e).namesFor inode = _
      rw [namesFor_enter hdata, hinode]
      rfl
    · simp only [if_neg hhere, Option.map_id', Nat.add_zero]
  unfold RamfsHeader.namesFor
  rw [h.iCount, Finset.sum_range_succ, hlast, Nat.add_zero, Finset.sum_congr rfl hold,
    Finset.sum_add_distrib, Finset.sum_ite_eq', if_pos]
  exact Finset.mem_range.mpr (RamfsHeader.getFileH_lt hf)

/-- What is not there has no entries. -/
theorem namesFor_none {head : RamfsHeader} (h : Closed head) {inode : Nat}
    (hnone : head.getFileH inode = none) : head.namesFor inode = 0 := by
  refine Finset.sum_eq_zero fun d _ => ?_
  rcases hf : head.getFileH d with _ | f
  · rfl
  · show f.namesFor inode = 0
    unfold FileHeader.namesFor
    rcases hdata : f.data with dirs | b
    · refine List.countP_eq_zero.mpr fun e he heq => ?_
      have hsome := (h d f hf).2 dirs hdata e he
      rw [of_decide_eq_true heq, hnone] at hsome
      cases hsome
    · rfl

theorem LinksAgree.congr {s s' : Vfs} (h : LinksAgree s) (hramfs : s'.ramfs = s.ramfs) :
    LinksAgree s' := by
  intro fs head i f hhead
  rw [hramfs] at hhead
  exact h fs head i f hhead

theorem LinksAgree.adds {s s' : Vfs} {dir : FileNode} {name : Name} {type : Nat}
    (h : LinksAgree s) (hfree : MountFree s) (hadds : Adds s s' dir name type) : LinksAgree s' := by
  obtain ⟨head, head', mode, hhead, hadded, hramfs⟩ := hadds
  intro fs head₁ i f' hhead₁ hf' hi
  rw [hramfs] at hhead₁
  unfold Vfs.setRamfs at hhead₁
  dsimp only at hhead₁
  rw [Function.update_apply] at hhead₁
  split at hhead₁
  · obtain rfl := Option.some.inj hhead₁
    obtain ⟨filehead, dirs, e, -, -, -, -, -, hfiles⟩ := hadded.files
    rw [hfiles] at hf'
    rw [hadded.namesFor]
    split at hf'
    · -- one link, and the new entry
      rename_i hnew
      obtain rfl := Option.some.inj hf'
      have hnone : head.getFileH head.iCount = none := by
        rcases hold : head.getFileH head.iCount with _ | g
        · rfl
        · exact absurd (RamfsHeader.getFileH_lt hold) (Nat.lt_irrefl _)
      rw [hnew, namesFor_none (hfree.closed hhead) hnone, if_pos rfl]
    · rename_i hold
      obtain ⟨f, hf, rfl⟩ := Option.map_eq_some_iff.mp hf'
      have hlinks : (if i = dir.inode then f.enter dirs e else f).links = f.links := by
        split
        · rfl
        · rfl
      rw [hlinks, if_neg (Ne.symm hold), Nat.add_zero]
      exact h dir.fs head i f hhead hf hi
  · exact h fs head₁ i f' hhead₁ hf' hi

/-! ### What lookups do not look at -/

/-- The same file, as far as lookups go. -/
def AlikeFile (f f' : FileHeader) : Prop :=
  f'.type = f.type ∧ f'.mountId = f.mountId ∧ f'.data = f.data

/-- The same names and mounts. -/
structure SameNames (s s' : Vfs) : Prop where
  mounts : s'.mounts = s.mounts
  zeroPage : s'.zeroPage = s.zeroPage
  systems : ∀ fs, Option.Rel (fun head head' => ∀ i,
    Option.Rel AlikeFile (head.getFileH i) (head'.getFileH i)) (s.ramfs fs) (s'.ramfs fs)

/-- Both walks are stuck, fail, or get to the same place. -/
inductive SameWalk : Except Halt Place → Except Halt Place → Prop
  | ok {p p' : Place} (h : SamePlace p p') : SameWalk (.ok p) (.ok p')
  | error (halt : Halt) : SameWalk (.error halt) (.error halt)

section SameNames

variable {s s' : Vfs} {fuel : Nat}

theorem SameNames.header (h : SameNames s s') (node : FileNode) :
    Option.Rel AlikeFile (s.header node) (s'.header node) := by
  have hsys := h.systems node.fs
  unfold Vfs.header
  revert hsys
  generalize s.ramfs node.fs = r
  generalize s'.ramfs node.fs = r'
  intro hsys
  cases hsys with
  | none => exact .none
  | some hfiles => exact hfiles node.inode

theorem SameNames.readdir (h : SameNames s s') (node : FileNode) (b : Dirent) (d : Int) :
    s'.readdir node b d = s.readdir node b d := by
  rw [readdir_eq, readdir_eq]
  have hheader := h.header node
  revert hheader
  generalize s.header node = r
  generalize s'.header node = r'
  intro hheader
  cases hheader with
  | none => rfl
  | some halike =>
      obtain ⟨htype, -, hdata⟩ := halike
      show FileHeader.readEntry _ b d = FileHeader.readEntry _ b d
      unfold FileHeader.readEntry
      rw [htype, hdata]

/-- Infos of which lookups use the same. -/
def AlikeInfo (i i' : FileInfo) : Prop := i'.type = i.type ∧ i'.mountId = i.mountId

theorem SameNames.getInfo (h : SameNames s s') (node : FileNode) {b b' : FileInfo}
    (hb : AlikeInfo b b') : Option.Rel AlikeInfo (s.getInfo node b) (s'.getInfo node b') := by
  unfold Vfs.getInfo ramfsGetInfo
  refine rel_map (fun head head' hfiles => ?_) (h.systems node.fs)
  have hfile := hfiles node.inode
  revert hfile
  generalize head.getFileH node.inode = f
  generalize head'.getFileH node.inode = f'
  intro hfile
  cases hfile with
  | none => exact hb
  | some halike => exact ⟨halike.1, halike.2.1⟩

theorem SameNames.followMount (h : SameNames s s') {i i' : FileInfo} (hi : AlikeInfo i i')
    (node : FileNode) : Fs.followMount s' i' node = Fs.followMount s i node := by
  unfold Fs.followMount
  rw [hi.2, h.mounts, h.zeroPage]

theorem SameNames.goName (h : SameNames s s') {p p' : Place} (hp : SamePlace p p') (name : Name) :
    SameWalk (Fs.goName s fuel p name) (Fs.goName s' fuel p' name) := by
  unfold Fs.goName
  rw [hp.temp, hp.buffer, hp.type, scanDir_congr (h.readdir p.temp) name]
  split
  · exact .ok hp
  split
  · exact .error _
  split
  · rcases scanDir s name p.temp fuel 0 p.buffer with stuck | ⟨_ | inode, buffer⟩
    · exact .error _
    · exact .error _
    · dsimp only
      have hinfo : Option.Rel AlikeInfo (s.getInfo ⟨inode, p.temp.fs⟩ p.info)
          (s'.getInfo ⟨inode, p.temp.fs⟩ p'.info) := h.getInfo _ ⟨hp.type, hp.mountId⟩
      revert hinfo
      generalize s.getInfo ⟨inode, p.temp.fs⟩ p.info = r
      generalize s'.getInfo ⟨inode, p.temp.fs⟩ p'.info = r'
      intro hinfo
      cases hinfo with
      | none => exact .error _
      | some halike =>
          dsimp only
          rw [h.followMount halike]
          split
          · exact .error _
          · exact .ok ⟨rfl, rfl, halike.1, halike.2⟩
  · exact .error _

theorem SameWalk.cases {r r' : Except Halt Place} (h : SameWalk r r') :
    (∃ p p', r = .ok p ∧ r' = .ok p') ∨ ∃ halt halt', r = .error halt ∧ r' = .error halt' := by
  cases h with
  | ok hp => exact .inl ⟨_, _, rfl, rfl⟩
  | error halt => exact .inr ⟨halt, halt, rfl, rfl⟩

theorem SameNames.walk (h : SameNames s s') {names : List Name} {p p' : Place}
    (hp : SamePlace p p') : SameWalk (Fs.walk s fuel p names) (Fs.walk s' fuel p' names) := by
  refine follow_alike (fun _ _ => SameWalk.cases) (fun p p' name hsame => ?_) (SameWalk.ok hp)
  cases hsame with
  | ok hp => exact h.goName hp name

/-- **A lookup answers what it did.** -/
theorem SameNames.findPath (h : SameNames s s') {t : Nat} {path : Name}
    (hstart : startNode s' t path = startNode s t path) (buf : FileNode) :
    fsFindPath s' fuel t path buf = fsFindPath s fuel t path buf := by
  by_cases hnames : pathNames path = []
  · rw [fsFindPath_root s' fuel t buf hnames, fsFindPath_root s fuel t buf hnames, hstart]
  · rw [fsFindPath_eq s' fuel t buf hnames, fsFindPath_eq s fuel t buf hnames]
    have hwalk : SameWalk (locate s fuel t path) (locate s' fuel t path) := by
      unfold locate startAt
      rw [hstart]
      have hinfo : Option.Rel AlikeInfo (s.getInfo (startNode s t path) FileInfo.zero)
          (s'.getInfo (startNode s t path) FileInfo.zero) := h.getInfo _ ⟨rfl, rfl⟩
      revert hinfo
      generalize s.getInfo (startNode s t path) FileInfo.zero = r
      generalize s'.getInfo (startNode s t path) FileInfo.zero = r'
      intro hinfo
      cases hinfo with
      | none => exact .error _
      | some halike => exact h.walk ⟨rfl, rfl, halike.1, halike.2⟩
    revert hwalk
    generalize locate s fuel t path = r
    generalize locate s' fuel t path = r'
    intro hwalk
    cases hwalk with
    | ok hp =>
        show Except.ok ((0 : Int), _) = Except.ok (0, _)
        rw [hp.temp]
    | error halt => rfl

end SameNames

/-! ### `unlink` -/

section Unlink

variable {s s' : Vfs} {fuel t : Nat} {path : Name} {node : FileNode}

theorem Option.rel_refl {α : Type} {R : α → α → Prop} (hR : ∀ x, R x x) : ∀ x, Option.Rel R x x
  | none => .none
  | some x => .some (hR x)

theorem AlikeFile.refl (f : FileHeader) : AlikeFile f f := ⟨rfl, rfl, rfl⟩

/-- `unlink` changes a count, and nothing that lookups look at. -/
theorem unlink_sameNames {ret : Int}
    (h : (s.onRamfs node fun head => ramfsUnlink head node) = some (ret, s')) : SameNames s s' := by
  obtain ⟨head, head', hhead, hop, rfl⟩ := onRamfs_spec h
  obtain ⟨f, -, hop⟩ := Option.map_eq_some_iff.mp hop
  obtain ⟨-, rfl⟩ := Prod.mk.inj hop
  refine ⟨rfl, rfl, fun fs => ?_⟩
  unfold Vfs.setRamfs
  dsimp only
  rw [Function.update_apply]
  split
  · rename_i hfs
    rw [hfs, hhead]
    refine .some fun i => ?_
    rw [RamfsHeader.getFileH_modifyFile]
    rcases head.getFileH i with _ | g
    · exact .none
    · refine .some ?_
      split
      · exact ⟨rfl, rfl, rfl⟩
      · exact .refl g
  · exact Option.rel_refl (fun head i => Option.rel_refl AlikeFile.refl _) _

/-- **If the path leads somewhere, `unlink` returns 0, and the path leads there still.** -/
theorem unlink_found (h : MountFree s) (hres : Resolves s fuel t path node) :
    ∃ s', s.unlink fuel t path = some (0, s') ∧ Resolves s' fuel t path node := by
  obtain ⟨f, hf⟩ := h.header_of_resolves hres
  obtain ⟨head, hhead, hfile⟩ := Option.bind_eq_some_iff.mp hf
  obtain ⟨head', hop⟩ : ∃ head', ramfsUnlink head node = some (0, head') := by
    unfold ramfsUnlink
    rw [hfile]
    exact ⟨_, rfl⟩
  have hs' : (s.onRamfs node fun head => ramfsUnlink head node) =
      some (0, s.setRamfs node.fs head') := onRamfs_some hhead hop
  refine ⟨_, ?_, ((unlink_sameNames hs').findPath rfl _).trans hres⟩
  unfold Vfs.unlink
  rw [hres.found]
  exact hs'

/-- If it leads nowhere, nothing happens. -/
theorem unlink_missing {ret : Int} (hnone : ∀ node, ¬ Resolves s fuel t path node)
    (h : s.unlink fuel t path = some (ret, s')) : ret < 0 ∧ s' = s := by
  unfold Vfs.unlink at h
  obtain ⟨⟨e, fp⟩, hpath, h⟩ := Option.bind_eq_some_iff.mp h
  rcases resolves_or_fails (toOption_eq_some hpath) with ⟨-, hres⟩ | hfails
  · exact absurd hres (hnone fp)
  · dsimp only at h
    rw [if_pos hfails.1] at h
    obtain ⟨rfl, rfl⟩ := Prod.mk.inj (Option.some.inj h)
    exact ⟨hfails.1, rfl⟩

end Unlink

/-! ### Runs -/

/-- All that a run of these calls keeps as long as nothing is unlinked. -/
structure LinksInv (s : Vfs) : Prop where
  sound : Sound s
  free : MountFree s
  links : LinksAgree s

theorem MountFree.adds_keeps {s s' : Vfs} {dir : FileNode} {name : Name} {type : Nat}
    (h : MountFree s) (hadds : Adds s s' dir name type)
    (hstart : ∀ t path, startNode s' t path = startNode s t path) : MountFree s' := by
  obtain ⟨head, head', mode, hhead, hadded, hramfs⟩ := hadds
  have hc : Created s (s.setRamfs dir.fs head') dir ⟨head.iCount, dir.fs⟩ name type :=
    Created.of_added hhead hadded rfl rfl rfl
  exact (hc.mountFree h fun _ _ => rfl).congr hramfs hstart

theorem LinksInv.make {s s' : Vfs} {fuel : Nat} {c : MakeCall} (h : LinksInv s)
    (hstep : makeStep fuel s c = some s') : LinksInv s' := by
  obtain ⟨hnodes, hmade⟩ := makeStep_made h.sound hstep
  obtain ⟨-, hblocks⟩ := blocks_step hstep
  have hstart : ∀ t path, startNode s' t path = startNode s t path := fun t path => by
    unfold startNode
    rw [(hblocks t).1, (hblocks t).2, hnodes _ (h.sound.root t), hnodes _ (h.sound.cwd t)]
  refine ⟨h.sound.step hstep, ?_, ?_⟩
  · rcases hmade with ⟨hramfs, -⟩ | ⟨dir, type, -, hadds⟩
    · exact h.free.congr hramfs hstart
    · exact h.free.adds_keeps hadds hstart
  · rcases hmade with ⟨hramfs, -⟩ | ⟨dir, type, -, hadds⟩
    · exact h.links.congr hramfs
    · exact h.links.adds h.free hadds

theorem LinksInv.step {s s' : Vfs} {fuel : Nat} {c : NameCall} (h : LinksInv s)
    (hstep : nameStep fuel s c = some s') (hc : NoneToUnlink fuel s c) : LinksInv s' := by
  obtain ⟨t, op⟩ := c
  cases op with
  | make op => exact LinksInv.make (c := ⟨t, op⟩) h hstep
  | unlink path =>
      obtain ⟨⟨ret, s₁⟩, hunlink, rfl⟩ := Option.map_eq_some_iff.mp hstep
      obtain ⟨-, rfl⟩ := unlink_missing (hc path rfl) hunlink
      exact h

/-- **An `unlink` does what it should exactly if there is nothing to unlink.** -/
theorem unlinks_iff {s : Vfs} {fuel : Nat} {c : NameCall} (h : MountFree s) :
    Unlinks fuel s c ↔ NoneToUnlink fuel s c := by
  constructor
  · intro hunlinks path hpath node hres
    obtain ⟨s', hunlink, hres'⟩ := unlink_found h hres
    exact hunlinks path s' hpath hunlink node hres'
  · intro hnone path s' hpath hunlink
    obtain ⟨hret, -⟩ := unlink_missing (hnone path hpath) hunlink
    exact absurd hret (Int.lt_irrefl 0)

theorem linksInv_boot (fs root : Nat) : LinksInv (Vfs.boot [fs] fs root) := by
  refine ⟨sound_boot _ _ _, mountFree_boot (List.mem_singleton_self fs),
    fun a head i f hhead hf hi => ?_⟩
  rw [(fresh_boot [fs] fs root).ramfs a head hhead] at hf
  have hmem := List.mem_of_find?_eq_some hf
  have hinode := RamfsHeader.getFileH_inode hf
  rw [List.mem_singleton.mp hmem] at hinode
  exact absurd hinode.symm hi

/--
**When link counts and names agree.**  In a run of `mkdir`, `mknod`, `open` and `unlink` by any
tasks from a new file system, the links of every file but the root are always as many as the
entries for it, and no path leads anywhere once it is unlinked, exactly if no path leads anywhere
when it is unlinked.
-/
theorem links_agree_iff (fuel fs root : Nat) (calls : List NameCall) :
    (Always (nameStep fuel) LinksAgree (Vfs.boot [fs] fs root) calls ∧
        EveryTry (nameStep fuel) (Unlinks fuel) (Vfs.boot [fs] fs root) calls) ↔
      EveryTry (nameStep fuel) (NoneToUnlink fuel) (Vfs.boot [fs] fs root) calls :=
  always_everyTry_iff (fun _ h => h.links) (fun _ _ _ h hstep hc => h.step hstep hc)
    (fun _ _ h => unlinks_iff h.free) (linksInv_boot fs root)

/-- **`d` is made and unlinked**, and then its entry counts for no link, and leads to it still. -/
theorem links_disagree :
    ¬ ∀ (fuel fs root : Nat) (calls : List NameCall),
      Always (nameStep fuel) LinksAgree (Vfs.boot [fs] fs root) calls ∧
        EveryTry (nameStep fuel) (Unlinks fuel) (Vfs.boot [fs] fs root) calls := by
  intro h
  have hlinks := (h 2 0x1000 0x2000
    [⟨0, .make (.mkdir ['d'] 0o777)⟩, ⟨0, .unlink ['d']⟩]).1
  have hrun : ((runAll (nameStep 2) (Vfs.boot [0x1000] 0x1000 0x2000)
      [⟨0, .make (.mkdir ['d'] 0o777)⟩, ⟨0, .unlink ['d']⟩]).bind fun s =>
        (s.ramfs 0x1000).bind fun head => (head.getFileH 2).map fun f =>
          (f.links, head.namesFor 2)) = some (0, 1) := rfl
  obtain ⟨s, hs, hend⟩ := Option.bind_eq_some_iff.mp hrun
  obtain ⟨head, hhead, hend⟩ := Option.bind_eq_some_iff.mp hend
  obtain ⟨f, hf, hcounts⟩ := Option.map_eq_some_iff.mp hend
  have hagree := hlinks.last hs 0x1000 head 2 f hhead hf (by decide)
  obtain ⟨hzero, hone⟩ := Prod.mk.inj hcounts
  rw [hzero, hone] at hagree
  cases hagree

end OsThing.Fs
