/-
What `mkdir`, `mknod` and the making of files leave of a `ramfs`.

First, that the lists of `Fs/Ramfs` are what the chains in memory hold.  `Represents`
relates the two: the cells of the headers are linked in the order they were taken, and
the entries of two directories share no cell.  Appending keeps it, wherever in the chain
of headers it starts: `add_represents`.

Second, that the file system is a tree.  A new file gets the next number and one entry,
in a directory that was there before, so what `IsTree` says of entries stays true.
-/
import OsThing.Fs.RamfsStore
import OsThing.Lib.Runs
import OsThing.Proofs.Walk

namespace OsThing.Fs

open Chain Runs

namespace RamfsHeader

variable {head : RamfsHeader}

/-- Headers lie in the order of their numbers. -/
theorem inode_getElem {p : Nat} {f : FileHeader} (h : head.files[p]? = some f) :
    f.inode = p + 1 := by
  have hmap : (head.files.map FileHeader.inode)[p]? = some f.inode := by
    rw [List.getElem?_map, h]
    rfl
  rw [head.inodes] at hmap
  obtain ⟨hlt, hp⟩ := List.getElem?_eq_some_iff.mp hmap
  rw [List.getElem_range'] at hp
  omega

theorem getFileH_succ (head : RamfsHeader) (p : Nat) : head.getFileH (p + 1) = head.files[p]? := by
  rcases hp : head.files[p]? with _ | f
  · rcases hfile : head.getFileH (p + 1) with _ | f
    · rfl
    · have hlt := getFileH_lt hfile
      have hlen := List.getElem?_eq_none_iff.mp hp
      rw [head.count_eq] at hlt
      omega
  · have hsome : (head.getFileH (p + 1)).isSome :=
      List.find?_isSome.mpr ⟨f, List.mem_of_getElem? hp, decide_eq_true (inode_getElem hp)⟩
    obtain ⟨g, hg⟩ := Option.isSome_iff_exists.mp hsome
    obtain ⟨q, hq⟩ := List.mem_iff_getElem?.mp (List.mem_of_find?_eq_some hg)
    obtain rfl : q = p := by
      have hinode := getFileH_inode hg
      rw [inode_getElem hq] at hinode
      omega
    exact hg.trans (hq.symm.trans hp)

end RamfsHeader

/-! ### Chains and lists -/

/-- The header in a cell, of which `data` leads to these entries. -/
def HeaderBlock.file (b : HeaderBlock) (dirs : List RamfsDirent) : FileHeader where
  type := b.type
  name := b.name
  mask := b.mask
  uid := b.uid
  gid := b.gid
  inode := b.inode
  size := b.size
  links := b.links
  flags := b.flags
  mountId := b.mountId
  data := .entries dirs

/-- The store holds the headers of `head`, and the entries of the header in cell `p` are in the
cells `es p`. -/
structure Represents (s : RamfsStore) (head : RamfsHeader) (es : Nat → List Nat) : Prop where
  files : s.ramfsFiles = some 0
  headers : s.headers.Holds (some 0) (List.range s.headers.count)
  iCount : s.iCount = head.iCount
  count : head.files.length = s.headers.count
  file : ∀ p < s.headers.count,
    head.files[p]? = some ((s.headers.val p).file ((es p).map s.dirents.val))
  entries : ∀ p < s.headers.count, s.dirents.Holds (s.headers.val p).data (es p)
  apart : ∀ p < s.headers.count, ∀ q < s.headers.count, p ≠ q → (es p).Disjoint (es q)

/-- Both look for a header and find the same. -/
theorem Represents.getFileH {s : RamfsStore} {head : RamfsHeader} {es : Nat → List Nat}
    (h : Represents s head es) (inode : Nat) :
    (s.getFileH inode = none ∧ head.getFileH inode = none) ∨
      ∃ p < s.headers.count, inode = p + 1 ∧ s.getFileH inode = some p ∧
        head.getFileH inode = some ((s.headers.val p).file ((es p).map s.dirents.val)) := by
  have hinode : ∀ p < s.headers.count, (s.headers.val p).inode = p + 1 := fun p hp =>
    RamfsHeader.inode_getElem (h.file p hp)
  have hseek : s.getFileH inode =
      (List.range s.headers.count).find? fun p => (s.headers.val p).inode = inode := by
    unfold RamfsStore.getFileH
    rw [h.files, seek_eq h.headers.1 (by rw [List.length_range])]
    rfl
  by_cases hex : ∃ p < s.headers.count, inode = p + 1
  · obtain ⟨p, hp, rfl⟩ := hex
    refine Or.inr ⟨p, hp, rfl, ?_, (head.getFileH_succ p).trans (h.file p hp)⟩
    rw [hseek]
    refine List.find?_range_eq_some.mpr ⟨decide_eq_true (hinode p hp), List.mem_range.mpr hp,
      fun q hq => ?_⟩
    rw [hinode q (Nat.lt_trans hq hp)]
    simp
    omega
  · left
    constructor
    · rw [hseek, List.find?_eq_none]
      intro p hp
      have hp := List.mem_range.mp hp
      rw [hinode p hp]
      simpa using fun heq => hex ⟨p, hp, heq.symm⟩
    · rcases hfile : head.getFileH inode with _ | f
      · rfl
      · have hlt := RamfsHeader.getFileH_lt hfile
        have hpos := RamfsHeader.getFileH_pos hfile
        rw [head.count_eq, h.count] at hlt
        exact absurd ⟨inode - 1, by omega, by omega⟩ hex

/-- The entries in the cells of a directory that gets none. -/
theorem Represents.dirs_same {s s' : RamfsStore} {head : RamfsHeader} {es : Nat → List Nat}
    (h : Represents s head es) {dir : RamfsDirent} (hval : ∀ e, s'.dirents.val e =
      if e = s.dirents.count then dir else s.dirents.val e) {p : Nat} (hp : p < s.headers.count) :
    (es p).map s'.dirents.val = (es p).map s.dirents.val :=
  List.map_congr_left fun e he => by
    rw [hval, if_neg (Nat.ne_of_lt ((h.entries p hp).2 e he))]

/-- One entry more, in a cell of its own, at the end of the chain of the directory `p`. -/
theorem Represents.entered {s s' : RamfsStore} {head : RamfsHeader} {es : Nat → List Nat}
    (h : Represents s head es) {p : Nat} (hp : p < s.headers.count) {dir : RamfsDirent}
    {data : Option Nat} (hfiles : s'.ramfsFiles = s.ramfsFiles) (hcount : s'.iCount = s.iCount)
    (hheaders : s'.headers = s.headers.modify p fun b =>
      { b with data := data, size := b.size + dir.size })
    (hval : ∀ e, s'.dirents.val e = if e = s.dirents.count then dir else s.dirents.val e)
    (hown : s'.dirents.Holds data (es p ++ [s.dirents.count]))
    (hothers : ∀ q < s.headers.count, q ≠ p → s'.dirents.Holds (s.headers.val q).data (es q)) :
    Represents s' (head.enter (p + 1) ((es p).map s.dirents.val) dir)
      (Function.update es p (es p ++ [s.dirents.count])) := by
  have hlen : s'.headers.count = s.headers.count := by
    rw [hheaders]
    rfl
  have hnew : ∀ q < s.headers.count, s.dirents.count ∉ es q := fun q hq hmem =>
    Nat.lt_irrefl _ ((h.entries q hq).2 _ hmem)
  refine ⟨hfiles.trans h.files, ?_, hcount.trans h.iCount, ?_, fun q hq => ?_, fun q hq => ?_,
    fun q hq q' hq' hne => ?_⟩
  · rw [hheaders]
    exact h.headers
  · rw [hlen]
    show (head.files.map _).length = _
    rw [List.length_map, h.count]
  · rw [hlen] at hq
    have hold : (head.enter (p + 1) ((es p).map s.dirents.val) dir).files[q]? =
        (head.files[q]?).map fun f =>
          if f.inode = p + 1 then f.enter ((es p).map s.dirents.val) dir else f :=
      List.getElem?_map
    have hinode := RamfsHeader.inode_getElem (h.file q hq)
    rw [hold, h.file q hq, Option.map_some, hinode, hheaders, Cells.modify_val]
    by_cases heq : q = p
    · subst heq
      rw [if_pos rfl, if_pos rfl, Function.update_self, List.map_append, h.dirs_same hval hq,
        List.map_singleton, hval, if_pos rfl]
      rfl
    · rw [if_neg (by omega), if_neg heq, Function.update_of_ne heq, h.dirs_same hval hq]
  · rw [hlen] at hq
    rw [hheaders, Cells.modify_val]
    by_cases heq : q = p
    · rw [if_pos heq, heq, Function.update_self]
      exact hown
    · rw [if_neg heq, Function.update_of_ne heq]
      exact hothers q hq heq
  · exact update_append_apart h.apart hnew q (hlen ▸ hq) q' (hlen ▸ hq') hne

/-- One header more, at the end of the chain. -/
theorem Represents.extended {s s' : RamfsStore} {head : RamfsHeader} {es : Nat → List Nat}
    (h : Represents s head es) {b : HeaderBlock} (hb : b.data = none)
    (hinode : b.inode = head.iCount) (hfiles : s'.ramfsFiles = s.ramfsFiles)
    (hcount : s'.iCount = s.iCount + 1) (hdirents : s'.dirents = s.dirents)
    (hlen : s'.headers.count = s.headers.count + 1)
    (hval : ∀ p, s'.headers.val p = if p = s.headers.count then b else s.headers.val p)
    (hchain : s'.headers.Holds (some 0) (List.range s.headers.count ++ [s.headers.count])) :
    Represents s' (head.addFile (b.file [])) (Function.update es s.headers.count []) := by
  have hfile : (head.addFile (b.file [])).files = head.files ++ [b.file []] := by
    show head.files ++ [{ b.file [] with inode := head.iCount }] = _
    rw [← hinode]
    rfl
  have hold : ∀ {p}, p < s'.headers.count → p ≠ s.headers.count → p < s.headers.count :=
    fun {p} hp hne => by omega
  refine ⟨hfiles.trans h.files, ?_, ?_, ?_, fun p hp => ?_, fun p hp => ?_,
    fun p hp q hq hne => ?_⟩
  · rw [hlen, List.range_succ]
    exact hchain
  · rw [hcount, h.iCount]
    rfl
  · rw [hfile, List.length_append, List.length_singleton, h.count, hlen]
  · rw [hfile, hval, hdirents]
    by_cases heq : p = s.headers.count
    · rw [if_pos heq, heq, Function.update_self, ← h.count, List.getElem?_concat_length]
      rfl
    · rw [if_neg heq, Function.update_of_ne heq,
        List.getElem?_append_left (by rw [h.count]; exact hold hp heq)]
      exact h.file p (hold hp heq)
  · rw [hval, hdirents]
    by_cases heq : p = s.headers.count
    · rw [if_pos heq, heq, Function.update_self, hb]
      exact ⟨rfl, fun e he => absurd he List.not_mem_nil⟩
    · rw [if_neg heq, Function.update_of_ne heq]
      exact h.entries p (hold hp heq)
  · by_cases heq : p = s.headers.count
    · rw [heq, Function.update_self]
      exact List.disjoint_nil_left _
    · rw [Function.update_of_ne heq]
      by_cases heq' : q = s.headers.count
      · rw [heq', Function.update_self]
        exact List.disjoint_nil_right _
      · rw [Function.update_of_ne heq']
        exact h.apart p (hold hp heq) q (hold hq heq') hne

/-- The entry that `ramfs_mkdir_entry` makes. -/
def newDirent (name : Name) (inode : Nat) : RamfsDirent :=
  ⟨inode, UInt32.ofNat (264 + (name.length + 1)), name.length + 1, name⟩

theorem mkdirEntry_represents {s s' : RamfsStore} {head : RamfsHeader} {es : Nat → List Nat}
    (h : Represents s head es) {node : FileNode} {name : Name} {inode p : Nat} {ret : Int}
    (hp : p < s.headers.count) (hnode : node.inode = p + 1) (hget : s.getFileH node.inode = some p)
    (htype : (s.headers.val p).type = FS_DIR)
    (hentry : s.mkdirEntry node name inode = some (ret, s')) :
    s'.headers.count = s.headers.count ∧ Represents s'
      (head.enter node.inode ((es p).map s.dirents.val) (newDirent name inode))
      (Function.update es p (es p ++ [s.dirents.count])) := by
  unfold RamfsStore.mkdirEntry at hentry
  rw [hget, Option.bind_some, if_neg (not_not.mpr htype)] at hentry
  have hentries := h.entries p hp
  rw [hnode]
  dsimp only at hentry
  split at hentry
  · rename_i hdata
    obtain ⟨-, rfl⟩ := Prod.mk.inj (Option.some.inj hentry)
    rw [hdata] at hentries
    have hempty : es p = [] := isChain_none.mp hentries.1
    refine ⟨rfl, h.entered hp rfl rfl rfl (fun e => Cells.alloc_val _ e) ?_ fun q hq _ =>
      (h.entries q hq).alloc _⟩
    rw [hempty]
    exact Cells.holds_alloc s.dirents (newDirent name inode)
  · rename_i first hdata
    obtain ⟨dirents, happend, hentry⟩ := Option.map_eq_some_iff.mp hentry
    obtain ⟨-, rfl⟩ := Prod.mk.inj hentry
    rw [hdata] at hentries
    obtain ⟨rest, hes, -⟩ := isChain_some.mp hentries.1
    obtain ⟨last, hlast, heq, hown⟩ :=
      Cells.append_spec hentries (hes ▸ List.mem_cons_self) (newDirent name inode)
    obtain rfl : _ = dirents := Option.some.inj (heq.symm.trans happend)
    refine ⟨rfl, @Represents.entered _ _ _ _ h _ hp _ (some first) rfl rfl ?_ (fun e => ?_) hown
      fun q hq hne => ?_⟩
    · unfold Cells.modify
      dsimp only
      rw [hdata]
      rfl
    · rw [Cells.link_val]
      exact Cells.alloc_val _ e
    · exact ((h.entries q hq).alloc _).link (fun hmem => h.apart p hp q hq hne.symm hlast hmem) _

/-- **What a file that is made does to the lists is what it does to the chains.** -/
theorem add_represents {s s' : RamfsStore} {head : RamfsHeader} {es : Nat → List Nat}
    (h : Represents s head es) {node : FileNode} {name : Name} {mode : UInt32} {type : Nat}
    {ret : Int} (hadd : s.add node name mode type = some (ret, s')) :
    ∃ head' es', ramfsAdd head node name mode type = some (ret, head') ∧
      Represents s' head' es' := by
  unfold RamfsStore.add at hadd
  obtain ⟨p, hget, hadd⟩ := Option.bind_eq_some_iff.mp hadd
  rcases h.getFileH node.inode with ⟨hnone, -⟩ | ⟨p', hp, hnode, hget', hfile⟩
  · exact absurd (hnone.symm.trans hget) (Option.some_ne_none p).symm
  obtain rfl : p' = p := Option.some.inj (hget'.symm.trans hget)
  unfold ramfsAdd
  rw [hfile, Option.bind_some]
  split at hadd
  · rename_i htype
    obtain ⟨rfl, rfl⟩ := Prod.mk.inj (Option.some.inj hadd)
    exact ⟨head, es, if_pos htype, h⟩
  · rename_i htype
    obtain ⟨⟨r, entered⟩, hentry, hadd⟩ := Option.bind_eq_some_iff.mp hadd
    obtain ⟨headers, happend, hadd⟩ := Option.map_eq_some_iff.mp hadd
    obtain ⟨rfl, rfl⟩ := Prod.mk.inj hadd
    obtain ⟨hcount, hentered⟩ :=
      mkdirEntry_represents h hp hnode hget (not_not.mp htype) hentry
    have hmem : p' ∈ List.range entered.headers.count := List.mem_range.mpr (hcount ▸ hp)
    obtain ⟨last, -, heq, hchain⟩ := Cells.append_spec hentered.headers hmem
      { type := type, mask := mode, inode := s.iCount }
    obtain rfl := Option.some.inj (heq.symm.trans happend)
    have hsame : entered.iCount = s.iCount := hentered.iCount.trans h.iCount.symm
    refine ⟨_, _, ?_, hentered.extended rfl h.iCount rfl ?_ rfl rfl
      (fun q => Cells.alloc_val _ q) hchain⟩
    · have htype : ¬ (((s.headers.val p').file ((es p').map s.dirents.val)).type ≠ FS_DIR) := htype
      rw [if_neg htype]
      unfold ramfsMkdirEntry
      rw [hfile, Option.bind_some, if_neg htype, ← h.iCount]
      rfl
    · show s.iCount + 1 = entered.iCount + 1
      rw [hsame]

theorem openFile_represents {s s' : RamfsStore} {head : RamfsHeader} {es : Nat → List Nat}
    (h : Represents s head es) {node : FileNode} {name : Name} {mode : UInt32} {ret : Int}
    (hopen : s.openFile node name mode = some (ret, s')) :
    ∃ head' es', ramfsOpen head node name mode = some (ret, head') ∧ Represents s' head' es' := by
  unfold RamfsStore.openFile at hopen
  obtain ⟨p, hget, hopen⟩ := Option.bind_eq_some_iff.mp hopen
  rcases h.getFileH node.inode with ⟨hnone, -⟩ | ⟨p', -, -, hget', hfile⟩
  · exact absurd (hnone.symm.trans hget) (Option.some_ne_none p).symm
  obtain rfl : p' = p := Option.some.inj (hget'.symm.trans hget)
  unfold ramfsOpen
  rw [hfile, Option.bind_some]
  split at hopen
  · rename_i hcreat
    change ((s.headers.val p').file ((es p').map s.dirents.val)).type = FS_DIR ∧ _ at hcreat
    rw [if_pos hcreat]
    exact add_represents h hopen
  · rename_i hcreat
    obtain ⟨rfl, rfl⟩ := Prod.mk.inj (Option.some.inj hopen)
    change ¬ (((s.headers.val p').file ((es p').map s.dirents.val)).type = FS_DIR ∧ _) at hcreat
    rw [if_neg hcreat]
    exact ⟨head, es, rfl, h⟩

/-- The loops over the chains end, whatever the file. -/
theorem add_isSome {s : RamfsStore} {head : RamfsHeader} {es : Nat → List Nat}
    (h : Represents s head es) {node : FileNode} (hfile : (head.getFileH node.inode).isSome)
    (name : Name) (mode : UInt32) (type : Nat) : (s.add node name mode type).isSome := by
  rcases h.getFileH node.inode with ⟨-, hnone⟩ | ⟨p, hp, hnode, hget, -⟩
  · rw [hnone] at hfile
    cases hfile
  unfold RamfsStore.add
  rw [hget, Option.bind_some]
  by_cases htype : (s.headers.val p).type = FS_DIR
  · have hentry : ∃ r, s.mkdirEntry node name s.iCount = some r := by
      unfold RamfsStore.mkdirEntry
      rw [hget, Option.bind_some, if_neg (not_not.mpr htype)]
      dsimp only
      have hentries := h.entries p hp
      split
      · exact ⟨_, rfl⟩
      · rename_i first hdata
        rw [hdata] at hentries
        obtain ⟨rest, hes, -⟩ := isChain_some.mp hentries.1
        obtain ⟨last, -, heq, -⟩ :=
          Cells.append_spec hentries (hes ▸ List.mem_cons_self) (newDirent name s.iCount)
        exact ⟨_, Option.map_eq_some_iff.mpr ⟨_, heq, rfl⟩⟩
    obtain ⟨⟨ret, entered⟩, hentry⟩ := hentry
    obtain ⟨hcount, hentered⟩ := mkdirEntry_represents h hp hnode hget htype hentry
    obtain ⟨last, -, heq, -⟩ := Cells.append_spec hentered.headers
      (List.mem_range.mpr (hcount ▸ hp)) { type := type, mask := mode, inode := s.iCount }
    rw [if_neg (not_not.mpr htype), hentry, Option.bind_some]
    dsimp only
    rw [heq]
    rfl
  · rw [if_pos htype]
    rfl

theorem represents_init : Represents RamfsStore.init initRamfs fun _ => [] := by
  refine ⟨rfl, ⟨⟨rfl, rfl⟩, fun a ha => List.mem_range.mp ha⟩, rfl, rfl, fun p hp => ?_,
    fun p _ => ⟨rfl, fun e he => absurd he List.not_mem_nil⟩, fun p hp q hq hne => ?_⟩
  · obtain rfl : p = 0 := Nat.lt_one_iff.mp hp
    rfl
  · exact List.disjoint_nil_left _

/-! ### The tree -/

/-- Entry number `k` of the directory `d` names `i`. -/
def Names (head : RamfsHeader) (d k i : Nat) : Prop :=
  ∃ f dirs dir, head.getFileH d = some f ∧ f.type = FS_DIR ∧ f.data = .entries dirs ∧
    dirs[k]? = some dir ∧ dir.inode = i

structure IsTree (head : RamfsHeader) : Prop where
  /-- The headers have the numbers below `ramfs_i_count`, each once. -/
  inodes : head.files.map FileHeader.inode = List.range' 1 (head.iCount - 1)
  /-- Each but the root is named by one entry of one directory, -/
  named : ∀ i, (head.getFileH i).isSome → i ≠ 1 →
    ∃! entry : Nat × Nat, Names head entry.1 entry.2 i
  /-- which has a smaller number. -/
  smaller : ∀ d k i, Names head d k i → d < i
  /-- And every entry names a file. -/
  file : ∀ d k i, Names head d k i → (head.getFileH i).isSome

/-- The entries of a directory that is known. -/
theorem names_iff {head : RamfsHeader} {d k i : Nat} {f : FileHeader} {dirs : List RamfsDirent}
    (hf : head.getFileH d = some f) (htype : f.type = FS_DIR) (hdata : f.data = .entries dirs) :
    Names head d k i ↔ ∃ dir, dirs[k]? = some dir ∧ dir.inode = i := by
  constructor
  · rintro ⟨f', dirs', dir, hf', -, hdata', hdir, hi⟩
    obtain rfl : f = f' := Option.some.inj (hf.symm.trans hf')
    obtain rfl : dirs = dirs' := FileData.entries.inj (hdata.symm.trans hdata')
    exact ⟨dir, hdir, hi⟩
  · rintro ⟨dir, hdir, hi⟩
    exact ⟨f, dirs, dir, hf, htype, hdata, hdir, hi⟩

theorem getElem?_concat_eq_some {dirs : List RamfsDirent} {dir e : RamfsDirent} {k : Nat} :
    (dirs ++ [dir])[k]? = some e ↔ dirs[k]? = some e ∨ (k = dirs.length ∧ dir = e) := by
  rcases Nat.lt_trichotomy k dirs.length with hk | rfl | hk
  · rw [List.getElem?_append_left hk]
    exact ⟨Or.inl, fun h => h.resolve_right fun hend => Nat.ne_of_lt hk hend.1⟩
  · rw [List.getElem?_concat_length, List.getElem?_eq_none (Nat.le_refl _)]
    simp
  · rw [List.getElem?_eq_none (by simp; omega), List.getElem?_eq_none (Nat.le_of_lt hk)]
    simp
    omega

/-- The one entry that a new file adds. -/
theorem names_added {head head' : RamfsHeader} {inode type : Nat} {name : Name} {mode : UInt32}
    (h : Added head head' inode name mode type) :
    inode < head.iCount ∧
      (∀ i, (head'.getFileH i).isSome ↔ (head.getFileH i).isSome ∨ i = head.iCount) ∧
      ∃ n, (∀ k i, Names head inode k i → k < n) ∧ ∀ d k i, Names head' d k i ↔
        Names head d k i ∨ (d = inode ∧ k = n ∧ i = head.iCount) := by
  obtain ⟨filehead, dirs, dir, hfile, htype, hdata, hinode, -, hfiles⟩ := h.files
  have hlt := RamfsHeader.getFileH_lt hfile
  refine ⟨hlt, fun i => ?_, dirs.length, fun k i hnames => ?_, fun d k i => ?_⟩
  · rw [hfiles]
    split
    · rename_i hi
      exact iff_of_true rfl (Or.inr hi)
    · rename_i hi
      rw [Option.isSome_map]
      exact ⟨Or.inl, fun h => h.resolve_right hi⟩
  · obtain ⟨e, he, -⟩ := (names_iff hfile htype hdata).mp hnames
    exact (List.getElem?_eq_some_iff.mp he).1
  have hd' := hfiles d
  split at hd'
  · -- the new file has no entries
    rename_i hd
    refine iff_of_false (fun ⟨f, dirs', e, hf, _, hdata', he, _⟩ => ?_) fun hold => ?_
    · obtain rfl := Option.some.inj (hd'.symm.trans hf)
      obtain rfl : ([] : List RamfsDirent) = dirs' := FileData.entries.inj hdata'
      cases he
    · rcases hold with ⟨f, -, -, hf, -⟩ | ⟨hd', -, -⟩
      · exact absurd (RamfsHeader.getFileH_lt hf) (by omega)
      · omega
  by_cases hdir : d = inode
  · subst hdir
    rw [hfile, Option.map_some, if_pos rfl] at hd'
    rw [names_iff hfile htype hdata, names_iff hd' htype rfl]
    constructor
    · rintro ⟨e, he, hi⟩
      rcases getElem?_concat_eq_some.mp he with he | ⟨hk, rfl⟩
      · exact Or.inl ⟨e, he, hi⟩
      · exact Or.inr ⟨rfl, hk, hi.symm.trans hinode⟩
    · rintro (⟨e, he, hi⟩ | ⟨-, hk, rfl⟩)
      · exact ⟨e, getElem?_concat_eq_some.mpr (Or.inl he), hi⟩
      · exact ⟨dir, getElem?_concat_eq_some.mpr (Or.inr ⟨hk, rfl⟩), hinode⟩
  · have hsame : head'.getFileH d = head.getFileH d := by
      rw [hd']
      simp only [if_neg hdir, Option.map_id']
    unfold Names
    rw [hsame]
    exact ⟨Or.inl, fun h => h.resolve_right fun hnew => hdir hnew.1⟩

theorem IsTree.added {head head' : RamfsHeader} {inode type : Nat} {name : Name} {mode : UInt32}
    (h : IsTree head) (hadded : Added head head' inode name mode type) : IsTree head' := by
  obtain ⟨hlt, hfile, n, hbelow, hnames⟩ := names_added hadded
  have hold : ∀ {d k i}, Names head d k i → i < head.iCount := fun {d k i} hnamed => by
    obtain ⟨f, hf⟩ := Option.isSome_iff_exists.mp (h.file d k i hnamed)
    exact RamfsHeader.getFileH_lt hf
  refine ⟨?_, fun i hi hroot => ?_, fun d k i hnamed => ?_, fun d k i hnamed => ?_⟩
  · rw [head'.inodes, head'.count_eq, Nat.add_sub_cancel]
  · rcases (hfile i).mp hi with hi | rfl
    · obtain ⟨entry, hentry, hunique⟩ := h.named i hi hroot
      have hne : i ≠ head.iCount := Nat.ne_of_lt (hold hentry)
      refine ⟨entry, (hnames _ _ _).mpr (Or.inl hentry), fun entry' hentry' => ?_⟩
      exact hunique entry' (((hnames _ _ _).mp hentry').resolve_right fun hnew => hne hnew.2.2)
    · refine ⟨(inode, n), (hnames _ _ _).mpr (Or.inr ⟨rfl, rfl, rfl⟩), fun entry' hentry' => ?_⟩
      rcases (hnames _ _ _).mp hentry' with hnamed | ⟨hd, hk, -⟩
      · exact absurd (hold hnamed) (Nat.lt_irrefl _)
      · exact Prod.ext hd hk
  · rcases (hnames d k i).mp hnamed with hnamed | ⟨rfl, -, rfl⟩
    · exact h.smaller d k i hnamed
    · exact hlt
  · rw [hfile]
    exact ((hnames d k i).mp hnamed).imp (h.file d k i) fun hnew => hnew.2.2

theorem isTree_init : IsTree initRamfs := by
  have hfile : ∀ i f, initRamfs.getFileH i = some f → i = 1 ∧ f.data = .entries [] := fun i f hf => by
    have hmem := List.mem_of_find?_eq_some hf
    rw [← RamfsHeader.getFileH_inode hf, List.mem_singleton.mp hmem]
    exact ⟨rfl, rfl⟩
  have hnone : ∀ d k i, ¬ Names initRamfs d k i := by
    rintro d k i ⟨f, dirs, e, hf, -, hdata, he, -⟩
    obtain rfl : [] = dirs := FileData.entries.inj ((hfile d f hf).2.symm.trans hdata)
    cases he
  refine ⟨rfl, fun i hi hroot => ?_, fun d k i h => absurd h (hnone d k i),
    fun d k i h => absurd h (hnone d k i)⟩
  obtain ⟨f, hf⟩ := Option.isSome_iff_exists.mp hi
  exact absurd (hfile i f hf).1 hroot

/-! ### Lookups -/

/-- Every lookup that starts at a file of the file system and succeeds ends at one. -/
def LookupsFind (head : RamfsHeader) : Prop :=
  ∀ (s : Vfs) (fuel t : Nat) (path : Name) (buf : FileNode),
    s.ramfs (startNode s t path).fs = some head →
    (head.getFileH (startNode s t path).inode).isSome →
    ∀ ret node, fsFindPath s fuel t path buf = .ok (ret, node) → 0 ≤ ret →
      node.fs = (startNode s t path).fs ∧ (head.getFileH node.inode).isSome

theorem lookupsFind {head : RamfsHeader} (h : Closed head) : LookupsFind head := by
  intro s fuel t path buf hhead hfile ret node hfind hret
  rcases (fsFindPath_found hfind hret).2 with ⟨-, rfl⟩ | ⟨p, hp, rfl⟩
  · exact ⟨rfl, hfile⟩
  · obtain ⟨hfs, f, hf, -⟩ := locate_at hhead h rfl hfile hp
    exact ⟨hfs, Option.isSome_of_eq_some hf⟩

/-! ### A run -/

/-- The chains are the lists of a tree, in which lookups find files, and every call on a file
comes back. -/
def TreeStore (s : RamfsStore) : Prop :=
  ∃ head es, Represents s head es ∧ IsTree head ∧ LookupsFind head ∧
    ∀ node : FileNode, (head.getFileH node.inode).isSome →
      ∀ name mode type, (s.add node name mode type).isSome

theorem ramfsStep_keeps (s : RamfsStore) (op : RamfsOp) (s' : RamfsStore)
    (hs : ∃ head es, Represents s head es ∧ IsTree head ∧ Closed head)
    (hstep : ramfsStep s op = some s') (_ : True) :
    ∃ head es, Represents s' head es ∧ IsTree head ∧ Closed head := by
  obtain ⟨head, es, hrepr, htree, hclosed⟩ := hs
  have hadd : ∀ {node name mode type ret head' es'}, Represents s' head' es' →
      ramfsAdd head node name mode type = some (ret, head') →
      ∃ head es, Represents s' head es ∧ IsTree head ∧ Closed head := by
    intro node name mode type ret head' es' hrepr' hadd
    rcases ramfsAdd_cases hadd with ⟨-, rfl⟩ | ⟨-, hadded⟩
    · exact ⟨_, es', hrepr', htree, hclosed⟩
    · exact ⟨head', es', hrepr', htree.added hadded, hclosed.added hadded⟩
  cases op with
  | mkdir node name mode =>
      obtain ⟨⟨ret, s₁⟩, hcall, rfl⟩ := Option.map_eq_some_iff.mp hstep
      obtain ⟨head', es', hmkdir, hrepr'⟩ := add_represents hrepr hcall
      exact hadd hrepr' hmkdir
  | mknod node name mode dev =>
      obtain ⟨⟨ret, s₁⟩, hcall, rfl⟩ := Option.map_eq_some_iff.mp hstep
      obtain ⟨head', es', hmknod, hrepr'⟩ := add_represents hrepr hcall
      exact hadd hrepr' hmknod
  | «open» node name mode =>
      obtain ⟨⟨ret, s₁⟩, hcall, rfl⟩ := Option.map_eq_some_iff.mp hstep
      obtain ⟨head', es', hopen, hrepr'⟩ := openFile_represents hrepr hcall
      rcases ramfsOpen_cases hopen with rfl | hmknod
      · exact ⟨_, es', hrepr', htree, hclosed⟩
      · exact hadd hrepr' hmknod

/--
**A `ramfs` is a tree.**  In every run of `mkdir`, `mknod` and the making of files, in
whatever directories, from `init_ramfs`.
-/
theorem ramfs_is_tree (ops : List RamfsOp) : Always ramfsStep TreeStore RamfsStore.init ops := by
  have hinit : ∃ head es, Represents RamfsStore.init head es ∧ IsTree head ∧ Closed head :=
    ⟨initRamfs, _, represents_init, isTree_init, closed_init⟩
  refine Always.mono (fun s hs => ?_) (always_of_inv ramfsStep_keeps hinit (everyStep_true _))
  obtain ⟨head, es, hrepr, htree, hclosed⟩ := hs
  exact ⟨head, es, hrepr, htree, lookupsFind hclosed, fun _ hfile => add_isSome hrepr hfile⟩

end OsThing.Fs
