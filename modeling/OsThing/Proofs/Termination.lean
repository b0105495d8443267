/-
When every lookup comes to an end.

The inner loop of `fs_find_node` stops when `readdir` returns 0 or an entry has the name
that is looked for.  In a directory it gets there, after one call for each entry and one
more.  In anything else every call returns an error, which is not 0, and the entry buffer
stays what it is, so the loop does not stop at all.

It is kept from that by a test of the type, which is that of the last entry the walk went
through.  If that is a directory with a mount, the walk is at the node that was mounted,
and all depends on what that is.  `TreeOk` says that it is a directory.  Every call keeps
`TreeOk`, apart from mounts: each of them makes a new target, and takes away the one before
it.
-/
import OsThing.Proofs.MountTable
import OsThing.Proofs.Rights

namespace OsThing.Fs

open Runs

def IsDir (s : Vfs) (node : FileNode) : Prop :=
  ∃ h, s.header node = some h ∧ h.type = FS_DIR

/-- A directory that walks come to through an entry.  The root of a file system, with the
number 1, is none. -/
def IsSubdir (s : Vfs) (node : FileNode) : Prop := IsDir s node ∧ node.inode ≠ 1

/-- Where the mount with the id `i + 2` leads after the nodes `ns` were registered. -/
def mountTarget (s : Vfs) (ns : List FileNode) (i : Nat) : FileNode :=
  if i + 1 = ns.length then ns.getD i s.zeroPage else s.zeroPage

/-- The mount that was registered last leads to what was mounted, -/
theorem mountTarget_last (s : Vfs) (ns : List FileNode) (dir : FileNode) :
    mountTarget s (ns ++ [dir]) ns.length = dir := by
  have hlen : (ns ++ [dir]).length = ns.length + 1 := List.length_append
  unfold mountTarget
  rw [if_pos hlen.symm]
  simp

/-- and all others lead to address 0. -/
theorem mountTarget_lost (s : Vfs) {ns : List FileNode} (dir : FileNode) {i : Nat}
    (hi : i < ns.length) : mountTarget s (ns ++ [dir]) i = s.zeroPage := by
  unfold mountTarget
  rw [if_neg]
  rw [List.length_append, List.length_singleton]
  omega

/-- What the walks rely on. -/
structure TreeOk (s : Vfs) (ns : List FileNode) : Prop where
  /-- The entries of a directory name files, and no root. -/
  entries : ∀ node h, s.header node = some h → h.type = FS_DIR →
    ∃ dirs, h.data = .entries dirs ∧
      ∀ e ∈ dirs, e.inode ≠ 1 ∧ (s.header ⟨e.inode, node.fs⟩).isSome
  mounts : Registered s.mounts ns
  /-- A mount was registered, and on a directory it is a directory that is mounted. -/
  targets : ∀ node h, s.header node = some h → h.mountId ≠ 0 →
    ∃ i < ns.length, h.mountId = i + 2 ∧ (IsSubdir s node → IsDir s (mountTarget s ns i))

/-! ### One directory -/

/-- What `readdir` returns in a directory. -/
theorem readdir_dir {s : Vfs} {temp : FileNode} {h : FileHeader} {dirs : List RamfsDirent}
    (hh : s.header temp = some h) (htype : h.type = FS_DIR) (hdata : h.data = .entries dirs)
    (d : Nat) (b : Dirent) :
    (dirs[d]? = none → s.readdir temp b d = some (0, b)) ∧
      ∀ e, dirs[d]? = some e → s.readdir temp b d = some (1, e.copied) := by
  rw [readdir_eq, hh, Option.bind_some]
  unfold FileHeader.readEntry
  rw [if_neg (not_not.mpr htype), hdata]
  dsimp only
  rw [Int.toNat_natCast]
  refine ⟨fun hnone => ?_, fun e he => ?_⟩
  · rw [hnone]
  · rw [he]

/-- The inner loop ends in a directory, at none or at one of its entries. -/
theorem scanDir_ends {s : Vfs} (name : Name) {temp : FileNode} {h : FileHeader}
    {dirs : List RamfsDirent} (hh : s.header temp = some h) (htype : h.type = FS_DIR)
    (hdata : h.data = .entries dirs) :
    ∀ (left d : Nat) (b : Dirent), dirs.length ≤ d + left →
      ∃ r b', (∀ fuel > left, scanDir s name temp fuel d b = .ok (r, b')) ∧
        ∀ inode, r = some inode → ∃ e ∈ dirs, e.inode = inode := by
  have hstop : ∀ (d : Nat) (b : Dirent) (left : Nat), dirs[d]? = none →
      ∃ r b', (∀ fuel > left, scanDir s name temp fuel d b = .ok (r, b')) ∧
        ∀ inode, r = some inode → ∃ e ∈ dirs, e.inode = inode := by
    intro d b left hnone
    refine ⟨none, b, fun fuel hfuel => ?_, fun inode hi => absurd hi (Option.some_ne_none _).symm⟩
    obtain ⟨fuel, rfl⟩ := Nat.exists_eq_succ_of_ne_zero (Nat.ne_of_gt (Nat.zero_lt_of_lt hfuel))
    unfold scanDir
    rw [(readdir_dir hh htype hdata d b).1 hnone]
    exact if_pos rfl
  intro left
  induction left with
  | zero =>
      intro d b hd
      exact hstop d b 0 (List.getElem?_eq_none (by omega))
  | succ left ih =>
      intro d b hd
      rcases he : dirs[d]? with _ | e
      · exact hstop d b _ he
      · have hone : ∀ fuel, scanDir s name temp (fuel + 1) d b =
            if e.name = name then .ok (some e.inode, e.copied)
            else scanDir s name temp fuel (d + 1 : Nat) e.copied := by
          intro fuel
          conv => lhs; unfold scanDir
          rw [(readdir_dir hh htype hdata d b).2 e he]
          exact if_neg (by decide)
        by_cases hname : e.name = name
        · refine ⟨some e.inode, e.copied, fun fuel hfuel => ?_, fun inode hi => ?_⟩
          · obtain ⟨fuel, rfl⟩ := Nat.exists_eq_succ_of_ne_zero
              (Nat.ne_of_gt (Nat.zero_lt_of_lt hfuel))
            exact (hone fuel).trans (if_pos hname)
          · exact ⟨e, List.mem_of_getElem? he, Option.some.inj hi⟩
        · obtain ⟨r, b', hend, hr⟩ := ih (d + 1) e.copied (by omega)
          refine ⟨r, b', fun fuel hfuel => ?_, hr⟩
          obtain ⟨fuel, rfl⟩ := Nat.exists_eq_succ_of_ne_zero
            (Nat.ne_of_gt (Nat.zero_lt_of_lt hfuel))
          rw [hone fuel, if_neg hname]
          exact hend fuel (by omega)

/-- **Where there is no directory the inner loop never ends**, unless the buffer happens to
hold the name. -/
theorem scanDir_runs_on {s : Vfs} {name : Name} {temp : FileNode} {h : FileHeader} {b : Dirent}
    (hh : s.header temp = some h) (htype : h.type ≠ FS_DIR) (hname : b.name ≠ name) :
    ∀ (fuel : Nat) (d : Int), scanDir s name temp fuel d b = .error .fuel := by
  have hread : ∀ d : Int, s.readdir temp b d = some (-ENOTDIR, b) := by
    intro d
    rw [readdir_eq, hh, Option.bind_some]
    exact if_pos htype
  intro fuel
  induction fuel with
  | zero => intro d; rfl
  | succ fuel ih =>
      intro d
      unfold scanDir
      rw [hread]
      dsimp only
      rw [if_neg (by decide), if_neg hname]
      exact ih _

/-! ### The whole path -/

/-- Where a mount id leads. -/
theorem followMount_old {s : Vfs} {ns : List FileNode} (h : Registered s.mounts ns)
    {info : FileInfo} {i : Nat} (hi : i < ns.length) (hid : info.mountId = i + 2)
    (node : FileNode) : followMount s info node = .ok (mountTarget s ns i) := by
  unfold followMount
  rw [hid, if_neg (Nat.succ_ne_zero _), getMountNode_eq h hi]
  unfold mountTarget
  simp [hi]

/-- Following a mount leads somewhere, and from a directory to a directory. -/
theorem followMount_ends {s : Vfs} {ns : List FileNode} (hs : TreeOk s ns) {node : FileNode}
    {h : FileHeader} (hh : s.header node = some h) (hroot : node.inode ≠ 1) :
    ∃ temp, followMount s (h.info node) node = .ok temp ∧ (h.type = FS_DIR → IsDir s temp) := by
  by_cases hmount : h.mountId = 0
  · exact ⟨node, if_pos hmount, fun htype => ⟨h, hh, htype⟩⟩
  · obtain ⟨i, hi, hid, htarget⟩ := hs.targets node h hh hmount
    exact ⟨mountTarget s ns i, followMount_old hs.mounts hi hid node, fun htype =>
      htarget ⟨⟨h, hh, htype⟩, hroot⟩⟩

/-- **Every walk ends.**  The induction is on the names that are left; `info` is of a
directory only if the walk is at one. -/
theorem findLoop_ends {s : Vfs} {ns : List FileNode} (hs : TreeOk s ns) (nodebuf : FileNode) :
    ∀ (names : List Name) (temp : FileNode) (info : FileInfo) (b : Dirent),
      (info.type = FS_DIR → IsDir s temp) →
      ∃ turns, ∀ fuel > turns, ∃ r, findLoop s fuel nodebuf names temp info b = .ok r := by
  intro names
  induction names with
  | nil => intro temp info b _; exact ⟨0, fun fuel _ => ⟨_, rfl⟩⟩
  | cons name rest ih =>
      intro temp info b hinfo
      by_cases hdot : name = ['.']
      · obtain ⟨turns, hturns⟩ := ih temp info b hinfo
        refine ⟨turns, fun fuel hfuel => ?_⟩
        unfold findLoop
        rw [if_pos hdot]
        split
        · exact ⟨_, rfl⟩
        · exact hturns fuel hfuel
      by_cases hup : name = ['.', '.']
      · refine ⟨0, fun fuel _ => ⟨(-ENOTDIR, nodebuf), ?_⟩⟩
        unfold findLoop
        rw [if_neg hdot, if_pos hup]
      by_cases hdir : info.type = FS_DIR
      · obtain ⟨h, hh, htype⟩ := hinfo hdir
        obtain ⟨dirs, hdata, hentries⟩ := hs.entries temp h hh htype
        obtain ⟨r, b', hscan, hr⟩ := scanDir_ends name hh htype hdata dirs.length 0 b
          (by omega)
        rcases r with _ | inode
        · refine ⟨dirs.length, fun fuel hfuel => ⟨(-ENOENT, nodebuf), ?_⟩⟩
          unfold findLoop
          rw [if_neg hdot, if_neg hup, if_pos hdir,
            show scanDir s name temp fuel 0 b = _ from hscan fuel hfuel]
        · obtain ⟨e, he, rfl⟩ := hr inode rfl
          obtain ⟨hroot, hfile⟩ := hentries e he
          obtain ⟨h', hh'⟩ := Option.isSome_iff_exists.mp hfile
          have hget := getInfo_of_header hh' info
          obtain ⟨temp', hfollow, hdir'⟩ := followMount_ends hs hh' hroot
          obtain ⟨turns, hturns⟩ := ih temp' (h'.info ⟨e.inode, temp.fs⟩) b' hdir'
          refine ⟨max dirs.length turns, fun fuel hfuel => ?_⟩
          rw [findLoop_enter hdot hup hdir (hscan fuel (by omega)) hget hfollow]
          split
          · exact ⟨_, rfl⟩
          · exact hturns fuel (by omega)
      · refine ⟨0, fun fuel _ => ⟨(-ENOTDIR, nodebuf), ?_⟩⟩
        unfold findLoop
        rw [if_neg hdot, if_neg hup, if_neg hdir]

/-- Every lookup from a node of a file system ends, with as many `readdir` calls for one name
as it takes. -/
def LookupsEnd (s : Vfs) : Prop :=
  ∀ node, (s.ramfs node.fs).isSome → ∀ path nodebuf,
    ∃ turns, ∀ fuel > turns, ∃ r, fsFindNode s fuel node path nodebuf = .ok r

theorem TreeOk.lookupsEnd {s : Vfs} {ns : List FileNode} (hs : TreeOk s ns) : LookupsEnd s := by
  intro node hfs path nodebuf
  obtain ⟨head, hhead⟩ := Option.isSome_iff_exists.mp hfs
  unfold fsFindNode
  rcases hh : s.header node with _ | h
  · -- without a header the buffer is all zero, which is not the type of a directory
    have hget : s.getInfo node FileInfo.zero = some FileInfo.zero := by
      rw [header_of_ramfs hhead] at hh
      unfold Vfs.getInfo ramfsGetInfo
      rw [hhead, Option.map_some, hh]
    rw [hget]
    exact findLoop_ends hs nodebuf _ node _ _ fun htype => absurd htype (by decide)
  · rw [getInfo_of_header hh]
    exact findLoop_ends hs nodebuf _ node _ _ fun htype => ⟨h, hh, htype⟩

/-- **A walk through a directory over which something else is mounted never ends**, as soon as
it has another name to look for. -/
theorem lookup_runs_on {s : Vfs} {top target nodebuf : FileNode} {h f g : FileHeader} {e : Dirent}
    {next : Name} (htop : s.header top = some h) (hdir : h.type = FS_DIR)
    (hread : s.readdir top ⟨0, 0, 0, []⟩ 0 = some (1, e))
    (hentry : s.header ⟨e.inode, top.fs⟩ = some f) (hdir' : f.type = FS_DIR)
    (hmount : followMount s (f.info ⟨e.inode, top.fs⟩) ⟨e.inode, top.fs⟩ = .ok target)
    (htarget : s.header target = some g) (hfile : g.type ≠ FS_DIR) {path : Name}
    (hpath : components path = [e.name, next]) (hname : e.name ≠ ['.'] ∧ e.name ≠ ['.', '.'])
    (hnext : next ≠ ['.'] ∧ next ≠ ['.', '.'] ∧ e.name ≠ next) :
    ∀ fuel, fsFindNode s fuel top path nodebuf = .error .fuel := by
  have hdir : (h.info top).type = FS_DIR := hdir
  have hdir' : (f.info ⟨e.inode, top.fs⟩).type = FS_DIR := hdir'
  intro fuel
  unfold fsFindNode
  rw [getInfo_of_header htop, hpath]
  dsimp only
  rcases fuel with _ | fuel
  · -- not even one call was granted
    unfold findLoop
    rw [if_neg hname.1, if_neg hname.2, if_pos hdir]
    rfl
  · have hscan : scanDir s e.name top (fuel + 1) 0 ⟨0, 0, 0, []⟩ = .ok (some e.inode, e) := by
      unfold scanDir
      rw [hread]
      exact if_pos rfl
    rw [findLoop_enter hname.1 hname.2 hdir hscan (getInfo_of_header hentry _) hmount,
      if_neg (List.cons_ne_nil _ _)]
    unfold findLoop
    rw [if_neg hnext.1, if_neg hnext.2.1, if_pos hdir',
      scanDir_runs_on htarget hfile hnext.2.2]

/-! ### Trees grow -/

/-- The header `f'` is `f`, but for what is no directory, and for an entry more that names a
file of `head'`. -/
def FileGrows (head' : RamfsHeader) (f f' : FileHeader) : Prop :=
  f'.type = f.type ∧ f'.mountId = f.mountId ∧
    (f.type ≠ FS_DIR ∨ f'.data = f.data ∨
      ∃ dirs dir, f.data = .entries dirs ∧ f'.data = .entries (dirs ++ [dir]) ∧
        dir.inode ≠ 1 ∧ (head'.getFileH dir.inode).isSome)

/-- Every file is one there was, or it is new and empty. -/
def Grows (head head' : RamfsHeader) : Prop :=
  ∀ i f', head'.getFileH i = some f' → (f'.mountId = 0 ∧ f'.data = .entries []) ∨
    ∃ f, head.getFileH i = some f ∧ FileGrows head' f f'

theorem FileGrows.refl (head' : RamfsHeader) (f : FileHeader) : FileGrows head' f f :=
  ⟨rfl, rfl, Or.inr (Or.inl rfl)⟩

theorem Grows.refl (head : RamfsHeader) : Grows head head :=
  fun _ f hf => Or.inr ⟨f, hf, FileGrows.refl head f⟩

theorem Grows.of_added {head head' : RamfsHeader} {inode type : Nat} {name : Name}
    {mode : UInt32} (h : Added head head' inode name mode type) : Grows head head' := by
  obtain ⟨filehead, dirs, dir, hfile, -, hdata, hinode, -, hfiles⟩ := h.files
  intro i f' hf'
  rw [hfiles] at hf'
  split at hf'
  · obtain rfl := Option.some.inj hf'
    exact Or.inl ⟨rfl, rfl⟩
  · obtain ⟨f, hf, rfl⟩ := Option.map_eq_some_iff.mp hf'
    refine Or.inr ⟨f, hf, ?_⟩
    split
    · rename_i hi
      obtain rfl : filehead = f := Option.some.inj (hfile.symm.trans (hi ▸ hf))
      have hlt := RamfsHeader.getFileH_lt hfile
      have hpos := RamfsHeader.getFileH_pos hfile
      refine ⟨rfl, rfl, Or.inr (Or.inr ⟨dirs, dir, hdata, rfl, by omega, ?_⟩)⟩
      rw [hinode, hfiles, if_pos rfl]
      rfl
    · exact FileGrows.refl head' f

theorem Grows.of_modifyFile {head : RamfsHeader} {inode : Nat} {change : FileHeader → FileHeader}
    (hinode : ∀ h, (change h).inode = h.inode)
    (hchange : ∀ f, head.getFileH inode = some f →
      FileGrows (head.modifyFile inode change hinode) f (change f)) :
    Grows head (head.modifyFile inode change hinode) := by
  intro i f' hf'
  have hold := hf'
  rw [RamfsHeader.getFileH_modifyFile] at hold
  obtain ⟨f, hf, rfl⟩ := Option.map_eq_some_iff.mp hold
  refine Or.inr ⟨f, hf, ?_⟩
  split
  · rename_i hi
    exact hchange f (hi ▸ hf)
  · exact FileGrows.refl _ f

/-- Directories stay what they are as long as rights are kept. -/
theorem IsDir.keeps {s s' : Vfs} {node : FileNode} (h : IsDir s node) (hkeeps : KeepsRights s s') :
    IsDir s' node := by
  obtain ⟨f, hf, htype⟩ := h
  obtain ⟨f', hf', htype', -⟩ := hkeeps node f hf
  exact ⟨f', hf', htype'.trans htype⟩

theorem IsDir.of_header {s s' : Vfs} {node : FileNode} (h : IsDir s' node)
    (hheader : ∀ f', s'.header node = some f' → ∃ f, s.header node = some f ∧ f'.type = f.type) :
    IsDir s node := by
  obtain ⟨f', hf', htype⟩ := h
  obtain ⟨f, hf, htype'⟩ := hheader f' hf'
  exact ⟨f, hf, htype'.symm.trans htype⟩

theorem TreeOk.congr {s s' : Vfs} {ns : List FileNode} (h : TreeOk s ns)
    (hramfs : s'.ramfs = s.ramfs) (hmounts : s'.mounts = s.mounts)
    (hzero : s'.zeroPage = s.zeroPage) : TreeOk s' ns := by
  have hkeeps : KeepsRights s s' := KeepsRights.of_ramfs hramfs
  refine ⟨fun node f hf htype => ?_, hmounts ▸ h.mounts, fun node f hf hid => ?_⟩
  · rw [header_congr hramfs] at hf
    obtain ⟨dirs, hdata, hfiles⟩ := h.entries node f hf htype
    refine ⟨dirs, hdata, fun e he => ?_⟩
    rw [header_congr hramfs]
    exact hfiles e he
  · rw [header_congr hramfs] at hf
    obtain ⟨i, hi, hmount, htarget⟩ := h.targets node f hf hid
    refine ⟨i, hi, hmount, fun hsub => ?_⟩
    unfold mountTarget
    rw [hzero]
    refine (htarget ⟨hsub.1.of_header fun f' hf' => ⟨f', ?_, rfl⟩, hsub.2⟩).keeps hkeeps
    rw [← header_congr hramfs]
    exact hf'

/-- Where each header comes from when one file system grows: it is new, or it was there, and if
it is a directory its entries are the old ones with at most one more. -/
theorem Grows.header {s : Vfs} {fs : Nat} {head head' : RamfsHeader} (hgrows : Grows head head')
    (hhead : s.ramfs fs = some head) {node : FileNode} {f' : FileHeader}
    (hf' : (s.setRamfs fs head').header node = some f') :
    (f'.mountId = 0 ∧ f'.data = .entries []) ∨
      ∃ f, s.header node = some f ∧ f'.type = f.type ∧ f'.mountId = f.mountId ∧
        (f.type ≠ FS_DIR ∨ f'.data = f.data ∨
          ∃ dirs dir, f.data = .entries dirs ∧ f'.data = .entries (dirs ++ [dir]) ∧
            dir.inode ≠ 1 ∧ ((s.setRamfs fs head').header ⟨dir.inode, node.fs⟩).isSome) := by
  rw [header_setRamfs] at hf'
  split at hf'
  · rename_i hfs
    rcases hgrows node.inode f' hf' with hnew | ⟨f, hf, htype, hid, hdata⟩
    · exact Or.inl hnew
    · refine Or.inr ⟨f, (header_of_ramfs (hfs ▸ hhead)).trans hf, htype, hid, ?_⟩
      refine hdata.imp_right (Or.imp_right ?_)
      rintro ⟨dirs, dir, hold, hnew, hroot, hfile⟩
      refine ⟨dirs, dir, hold, hnew, hroot, ?_⟩
      rw [header_setRamfs, if_pos hfs]
      exact hfile
  · exact Or.inr ⟨f', hf', rfl, rfl, Or.inr (Or.inl rfl)⟩

/-- Growing one file system leaves every walk its ends. -/
theorem TreeOk.setRamfs {s : Vfs} {ns : List FileNode} {fs : Nat} {head head' : RamfsHeader}
    (h : TreeOk s ns) (hhead : s.ramfs fs = some head)
    (hkeeps : KeepsRights s (s.setRamfs fs head')) (hgrows : Grows head head') :
    TreeOk (s.setRamfs fs head') ns := by
  have hsome : ∀ node, (s.header node).isSome → ((s.setRamfs fs head').header node).isSome := by
    intro node hnode
    obtain ⟨f, hf⟩ := Option.isSome_iff_exists.mp hnode
    obtain ⟨f', hf', -⟩ := hkeeps node f hf
    exact Option.isSome_of_eq_some hf'
  refine ⟨fun node f' hf' htype => ?_, h.mounts, fun node f' hf' hid => ?_⟩
  · rcases hgrows.header hhead hf' with ⟨-, hdata⟩ | ⟨f, hf, htype', -, hdata⟩
    · exact ⟨[], hdata, fun e he => absurd he (List.not_mem_nil)⟩
    · have hdir : f.type = FS_DIR := htype'.symm.trans htype
      obtain ⟨dirs, hold, hfiles⟩ := h.entries node f hf hdir
      rcases hdata with hno | hsame | ⟨dirs', dir, hold', hnew, hfile⟩
      · exact absurd hdir hno
      · exact ⟨dirs, hsame.trans hold, fun e he => (hfiles e he).imp_right (hsome _)⟩
      · obtain rfl : dirs = dirs' := FileData.entries.inj (hold.symm.trans hold')
        refine ⟨dirs ++ [dir], hnew, fun e he => ?_⟩
        rcases List.mem_append.mp he with hmem | hlast
        · exact (hfiles e hmem).imp_right (hsome _)
        · rw [List.mem_singleton.mp hlast]
          exact hfile
  · rcases hgrows.header hhead hf' with ⟨hzero, -⟩ | ⟨f, hf, htype', hid', -⟩
    · exact absurd hzero hid
    · rw [hid'] at hid ⊢
      obtain ⟨i, hi, hmount, htarget⟩ := h.targets node f hf hid
      refine ⟨i, hi, hmount, fun hsub => (htarget ⟨?_, hsub.2⟩).keeps hkeeps⟩
      obtain ⟨g, hg, htype⟩ := hsub.1
      obtain rfl : g = f' := Option.some.inj (hg.symm.trans hf')
      exact ⟨f, hf, htype'.symm.trans htype⟩

/-- An operation on one file system that keeps rights and lets it grow. -/
theorem TreeOk.onRamfs {s s' : Vfs} {ns : List FileNode} {node : FileNode} {ret : Int}
    {op : RamfsHeader → Option (Int × RamfsHeader)} (h : TreeOk s ns)
    (hop : s.onRamfs node op = some (ret, s')) (hkeeps : KeepsRights s s')
    (hgrows : ∀ head head', s.ramfs node.fs = some head → op head = some (ret, head') →
      Grows head head') : TreeOk s' ns := by
  obtain ⟨head, head', hhead, hres, rfl⟩ := onRamfs_spec hop
  exact h.setRamfs hhead hkeeps (hgrows head head' hhead hres)

theorem ramfsAdd_grows {head head' : RamfsHeader} {node : FileNode} {name : Name} {mode : UInt32}
    {type : Nat} {ret : Int} (h : ramfsAdd head node name mode type = some (ret, head')) :
    Grows head head' := by
  rcases ramfsAdd_cases h with ⟨-, rfl⟩ | ⟨-, hadded⟩
  · exact Grows.refl head'
  · exact Grows.of_added hadded

theorem TreeOk.tree {s s' : Vfs} {ns : List FileNode} (h : TreeOk s ns) (htree : TreeChange s s') :
    TreeOk s' ns := by
  cases htree with
  | same => exact h
  | node a node => exact h.congr rfl rfl rfl
  | add hadd =>
      exact h.onRamfs hadd (TreeChange.add hadd).keeps fun _ _ _ hres => ramfsAdd_grows hres
  | unlink hunlink =>
      refine h.onRamfs hunlink (TreeChange.unlink hunlink).keeps fun head head' _ hres => ?_
      obtain ⟨f, -, hres⟩ := Option.map_eq_some_iff.mp hres
      obtain ⟨-, rfl⟩ := Prod.mk.inj hres
      exact Grows.of_modifyFile _ fun f _ => ⟨rfl, rfl, Or.inr (Or.inl rfl)⟩

/-! ### Mounting -/

/-- What `fs_mount` leaves: the mount of `type` is the one just registered. -/
theorem fsMount_header {s s' : Vfs} {ns : List FileNode} {type dir : FileNode} {ret : Int}
    (h : s.fsMount type dir = some (ret, s')) (hmounts : Registered s.mounts ns) :
    s'.zeroPage = s.zeroPage ∧ Registered s'.mounts (ns ++ [dir]) ∧
      ∀ node, s'.header node = (s.header node).map fun f =>
        if node = type then { f with mountId := ns.length + 2 } else f := by
  obtain ⟨id, mounts, head, f₀, hreg, hhead, -, rfl⟩ := fsMount_spec h
  obtain ⟨mounts', hreg', hmounts'⟩ := registerMountNode_spec hmounts dir
  obtain ⟨rfl, rfl⟩ := Prod.mk.inj (Option.some.inj (hreg.symm.trans hreg'))
  refine ⟨rfl, hmounts', fun node => ?_⟩
  rw [header_setRamfs]
  split
  · rename_i hfs
    rw [RamfsHeader.getFileH_modifyFile, header_of_ramfs (hfs ▸ hhead)]
    have hiff : node.inode = type.inode ↔ node = type := by
      refine ⟨fun hi => ?_, fun hn => congrArg FileNode.inode hn⟩
      cases node
      cases type
      exact FileNode.mk.injEq .. ▸ ⟨hi, hfs⟩
    simp only [hiff]
  · rename_i hfs
    have hne : node ≠ type := fun hn => hfs (congrArg FileNode.fs hn)
    simp only [if_neg hne, Option.map_id']
    rfl

def HasMount (s : Vfs) (node : FileNode) : Prop := ∃ f, s.header node = some f ∧ f.mountId ≠ 0

/-- **One mount.**  All other mounts are lost, and lead to address 0 from now on. -/
theorem TreeOk.mount {s s' : Vfs} {ns : List FileNode} {type dir : FileNode} {ret : Int}
    (h : TreeOk s ns) (hmount : s.fsMount type dir = some (ret, s'))
    (hdir : IsSubdir s type → IsDir s dir)
    (hlost : ∀ node ≠ type, IsSubdir s node → HasMount s node → IsDir s s.zeroPage) :
    TreeOk s' (ns ++ [dir]) := by
  have hkeeps := fsMount_keeps hmount
  obtain ⟨hzero, hmounts, hheader⟩ := fsMount_header hmount h.mounts
  have hlen : (ns ++ [dir]).length = ns.length + 1 := List.length_append
  have hsub : ∀ node, IsSubdir s' node → IsSubdir s node := by
    rintro node ⟨hnode, hroot⟩
    refine ⟨hnode.of_header fun f' hf' => ?_, hroot⟩
    rw [hheader] at hf'
    obtain ⟨f, hf, rfl⟩ := Option.map_eq_some_iff.mp hf'
    refine ⟨f, hf, ?_⟩
    split
    · rfl
    · rfl
  refine ⟨fun node f' hf' htype => ?_, hmounts, fun node f' hf' hid => ?_⟩
  · rw [hheader] at hf'
    obtain ⟨f, hf, rfl⟩ := Option.map_eq_some_iff.mp hf'
    have hsame : (if node = type then { f with mountId := ns.length + 2 } else f).type = f.type ∧
        (if node = type then { f with mountId := ns.length + 2 } else f).data = f.data := by
      split
      · exact ⟨rfl, rfl⟩
      · exact ⟨rfl, rfl⟩
    obtain ⟨dirs, hdata, hfiles⟩ := h.entries node f hf (hsame.1.symm.trans htype)
    refine ⟨dirs, hsame.2.trans hdata, fun e he => ?_⟩
    rw [hheader, Option.isSome_map]
    exact hfiles e he
  · rw [hheader] at hf'
    obtain ⟨f, hf, rfl⟩ := Option.map_eq_some_iff.mp hf'
    by_cases hnode : node = type
    · rw [if_pos hnode]
      refine ⟨ns.length, by omega, rfl, fun hdir' => ?_⟩
      rw [mountTarget_last]
      exact (hdir (hnode ▸ hsub node hdir')).keeps hkeeps
    · rw [if_neg hnode] at hid ⊢
      obtain ⟨i, hi, hmountId, -⟩ := h.targets node f hf hid
      refine ⟨i, by omega, hmountId, fun hdir' => ?_⟩
      rw [mountTarget_lost s' dir hi, hzero]
      exact (hlost node hnode (hsub node hdir') ⟨f, hf, hid⟩).keeps hkeeps

/-! ### Runs -/

/-- A call mounts only a directory over a directory that walks come to, and only if no other
such directory has a mount that would be lost, unless address 0 happens to name a directory.
And it writes file bytes to no directory. -/
def MountsDirs (fuel : Nat) (s : Vfs) (c : Call) (_ : Vfs) : Prop :=
  (∀ type dir, Mounts fuel s c type dir → (IsSubdir s type → IsDir s dir) ∧
    ∀ node ≠ type, IsSubdir s node → HasMount s node → IsDir s s.zeroPage) ∧
  ∀ fd input junk size, c.op = .write fd input junk size →
    ∀ d, goodFile (s.tasks c.task) fd = some d → ¬ IsDir s (s.nodes d.file)

theorem TreeOk.write {s s' : Vfs} {ns : List FileNode} {t : Nat} {fd ret : Int}
    {input junk : Nat → UInt8} {size : UInt32} (h : TreeOk s ns)
    (hwrite : s.write t fd input junk size = some (ret, s'))
    (hfile : ∀ d, goodFile (s.tasks t) fd = some d → ¬ IsDir s (s.nodes d.file)) :
    TreeOk s' ns := by
  have hkeeps := (write_spec hwrite).1
  rcases write_cases hwrite with rfl | ⟨d, i, s₁, hgood, hop, htrees, -⟩
  · exact h
  · refine TreeOk.congr ?_ htrees.ramfs htrees.mounts htrees.zeroPage
    refine h.onRamfs hop (hkeeps.trans (KeepsRights.of_ramfs htrees.ramfs.symm)) ?_
    intro head head' hhead hres
    obtain ⟨change, hinode, rfl, hchange⟩ := ramfsPwrite_cases hres
    refine Grows.of_modifyFile hinode fun f hf => ?_
    obtain ⟨⟨htype, -⟩, hid, -⟩ := hchange f
    exact ⟨htype, hid, Or.inl fun hdir =>
      hfile d hgood ⟨f, (header_of_ramfs hhead).trans hf, hdir⟩⟩

theorem treeOk_step {fuel : Nat} (s : Vfs) (c : Call) (s' : Vfs) (h : ∃ ns, TreeOk s ns)
    (hstep : vfsStep fuel s c = some s') (hcond : MountsDirs fuel s c s') :
    ∃ ns, TreeOk s' ns := by
  obtain ⟨ns, h⟩ := h
  cases vfsStep_cases hstep with
  | tree htree => exact ⟨ns, h.tree htree⟩
  | mountAt type dir ret hop hmount =>
      obtain ⟨hdir, hlost⟩ := hcond.1 type dir hop
      exact ⟨ns ++ [dir], h.mount hmount hdir hlost⟩
  | read fd size raw ret bytes hop hread =>
      have htrees := (read_spec hread).1
      exact ⟨ns, h.congr htrees.ramfs htrees.mounts htrees.zeroPage⟩
  | write fd input junk size ret hop hwrite =>
      exact ⟨ns, h.write hwrite (hcond.2 fd input junk size hop)⟩
  | offsets hsame htrees => exact ⟨ns, h.congr htrees.ramfs htrees.mounts htrees.zeroPage⟩
  | openAt path flags a err s₀ hop hlive hfile htrees hcases =>
      refine ⟨ns, TreeOk.congr ?_ htrees.ramfs htrees.mounts htrees.zeroPage⟩
      have hknew : TreeOk (s.knew a) ns := h.congr rfl rfl rfl
      obtain ⟨s₁, htree, hramfs, hmounts, hzero⟩ := openFile_tree hfile
      exact (hknew.tree htree).congr hramfs hmounts hzero
  | closeAt fd hop htrees hcases =>
      exact ⟨ns, h.congr htrees.ramfs htrees.mounts htrees.zeroPage⟩

/-- Every file system is new, and nothing is mounted. -/
structure Fresh (s : Vfs) : Prop where
  ramfs : ∀ fs head, s.ramfs fs = some head → head = initRamfs
  mounts : Registered s.mounts []

theorem fresh_boot (systems : List Nat) (fs root : Nat) : Fresh (Vfs.boot systems fs root) := by
  refine ⟨fun a head hhead => ?_, Registered.boot _⟩
  obtain ⟨-, hhead⟩ := Option.ite_none_right_eq_some.mp hhead
  exact (Option.some.inj hhead).symm

/-- The only file of a new file system is its root. -/
theorem Fresh.header {s : Vfs} (h : Fresh s) {node : FileNode} {f : FileHeader}
    (hf : s.header node = some f) : f.data = .entries [] ∧ f.mountId = 0 := by
  unfold Vfs.header at hf
  obtain ⟨head, hhead, hf⟩ := Option.bind_eq_some_iff.mp hf
  rw [h.ramfs _ head hhead] at hf
  have hmem := List.mem_of_find?_eq_some hf
  rw [List.mem_singleton.mp hmem]
  exact ⟨rfl, rfl⟩

theorem Fresh.treeOk {s : Vfs} (h : Fresh s) : TreeOk s [] := by
  refine ⟨fun node f hf _ => ⟨[], (h.header hf).1, ?_⟩, h.mounts, fun node f hf hid => ?_⟩
  · exact fun e he => absurd he List.not_mem_nil
  · exact absurd (h.header hf).2 hid

/--
**Every path lookup ends in every state of a run, as long as only directories are mounted
over directories, one at a time.**  For every run of calls by any tasks, from new file
systems.
-/
theorem lookups_end (fuel : Nat) (s : Vfs) (calls : List Call) (h : Fresh s)
    (hcond : EveryStep (vfsStep fuel) (MountsDirs fuel) s calls) :
    Always (vfsStep fuel) LookupsEnd s calls := by
  have hall := always_of_inv treeOk_step ⟨[], h.treeOk⟩ hcond
  refine hall.mono fun s' hs' => ?_
  obtain ⟨ns, hns⟩ := hs'
  exact hns.lookupsEnd

/-- The root of a second file system, after `/d` was made in the first one. -/
theorem second_root_after_mkdir {s : Vfs}
    (h : vfsStep 4 (Vfs.boot [0x1000, 0x5000] 0x1000 0x2000) ⟨0, .mkdir ['d'] 0o777⟩ = some s) :
    ∃ f, s.header ⟨1, 0x5000⟩ = some f ∧ f.type = FS_DIR := by
  have hrun : (vfsStep 4 (Vfs.boot [0x1000, 0x5000] 0x1000 0x2000) ⟨0, .mkdir ['d'] 0o777⟩).map
      (fun s => (s.header ⟨1, 0x5000⟩).map FileHeader.type) = some (some FS_DIR) := by
    decide
  rw [h] at hrun
  exact Option.map_eq_some_iff.mp (Option.some.inj hrun)

/-- Nothing is mounted yet when `/d` has been made. -/
theorem no_mount_after_mkdir {s : Vfs} {node : FileNode}
    (h : vfsStep 4 (Vfs.boot [0x1000, 0x5000] 0x1000 0x2000) ⟨0, .mkdir ['d'] 0o777⟩ = some s) :
    ¬ HasMount s node := by
  unfold vfsStep at h
  obtain ⟨⟨ret, s⟩, hmkdir, rfl⟩ := Option.map_eq_some_iff.mp h
  rintro ⟨f, hf, hid⟩
  have htree := (fresh_boot [0x1000, 0x5000] 0x1000 0x2000).treeOk.tree (mkdir_tree hmkdir)
  obtain ⟨i, hi, -⟩ := htree.targets node f hf hid
  exact absurd hi (Nat.not_lt_zero i)

/-- The root of a second file system is mounted on `/d`. -/
theorem lookups_end_mount :
    Always (vfsStep 4) LookupsEnd (Vfs.boot [0x1000, 0x5000] 0x1000 0x2000)
      [⟨0, .mkdir ['d'] 0o777⟩, ⟨0, .fsMount ⟨2, 0x1000⟩ ⟨1, 0x5000⟩⟩] := by
  have hfresh := fresh_boot [0x1000, 0x5000] 0x1000 0x2000
  have hfirst : MountsDirs 4 (Vfs.boot [0x1000, 0x5000] 0x1000 0x2000)
      ⟨0, .mkdir ['d'] 0o777⟩ (Vfs.boot [0x1000, 0x5000] 0x1000 0x2000) := by
    refine ⟨fun type dir hmounts => ?_, fun _ _ _ _ hop => (nomatch hop)⟩
    rcases hmounts with hop | ⟨_, _, hop, -⟩
    · cases hop
    · cases hop
  refine lookups_end 4 _ _ hfresh fun s₁ h₁ => ⟨hfirst, fun s₂ _ => ⟨⟨?_, ?_⟩, trivial⟩⟩
  · rintro type dir (hop | ⟨_, _, hop, -⟩)
    · obtain ⟨rfl, rfl⟩ := VfsOp.fsMount.inj hop
      refine ⟨fun _ => ?_, fun node _ _ hmount => ?_⟩
      · exact second_root_after_mkdir h₁
      · exact absurd hmount (no_mount_after_mkdir h₁)
    · cases hop
  · exact fun _ _ _ _ hop => (nomatch hop)

/-- The file `/b` is mounted on the directory `/d`, and `/d/x` is looked up. -/
theorem file_mount_runs_on :
    ¬ Always (vfsStep 4) LookupsEnd (Vfs.boot [0x1000] 0x1000 0x2000)
      [⟨0, .mkdir ['d'] 0o777⟩, ⟨0, .mknod ['b'] 0o777 FS_FILE ⟨0, 0⟩⟩,
        ⟨0, .fsMount ⟨2, 0x1000⟩ ⟨3, 0x1000⟩⟩] := by
  intro h
  have hrun : (runAll (vfsStep 4) (Vfs.boot [0x1000] 0x1000 0x2000)
      [⟨0, .mkdir ['d'] 0o777⟩, ⟨0, .mknod ['b'] 0o777 FS_FILE ⟨0, 0⟩⟩,
        ⟨0, .fsMount ⟨2, 0x1000⟩ ⟨3, 0x1000⟩⟩]).map (fun s =>
          ([1, 2, 3].map fun i => (s.header ⟨i, 0x1000⟩).map fun f => (f.type, f.mountId),
            s.readdir ⟨1, 0x1000⟩ ⟨0, 0, 0, []⟩ 0,
            getMountNode s.zeroPage s.mounts 2 ⟨2, 0x1000⟩)) =
      some ([some (FS_DIR, 0), some (FS_DIR, 2), some (FS_FILE, 0)],
        some (1, ⟨2, 266, 2, ['d']⟩), some (1, ⟨3, 0x1000⟩)) := by
    decide
  obtain ⟨s, hs, hend⟩ := Option.map_eq_some_iff.mp hrun
  obtain ⟨hheaders, hrest⟩ := Prod.mk.inj hend
  obtain ⟨hread, hmount⟩ := Prod.mk.inj hrest
  obtain ⟨hroot, hheaders⟩ := List.cons.inj hheaders
  obtain ⟨hd, hheaders⟩ := List.cons.inj hheaders
  obtain ⟨hb, -⟩ := List.cons.inj hheaders
  obtain ⟨f₁, hf₁, htype₁⟩ := Option.map_eq_some_iff.mp hroot
  obtain ⟨f₂, hf₂, htype₂⟩ := Option.map_eq_some_iff.mp hd
  obtain ⟨f₃, hf₃, htype₃⟩ := Option.map_eq_some_iff.mp hb
  have hfollow : followMount s (f₂.info ⟨2, 0x1000⟩) ⟨2, 0x1000⟩ = .ok ⟨3, 0x1000⟩ := by
    have hid : (f₂.info ⟨2, 0x1000⟩).mountId = 2 := (Prod.mk.inj htype₂).2
    unfold followMount
    rw [hid, if_neg (by decide), hmount]
  have hfile : f₃.type ≠ FS_DIR := by
    rw [(Prod.mk.inj htype₃).1]
    decide
  have hpath : components ['d', '/', 'x'] = [['d'], ['x']] := by decide
  have hforever : ∀ fuel,
      fsFindNode s fuel ⟨1, 0x1000⟩ ['d', '/', 'x'] ⟨0, 0⟩ = .error .fuel :=
    lookup_runs_on hf₁ (Prod.mk.inj htype₁).1 hread hf₂ (Prod.mk.inj htype₂).1 hfollow hf₃ hfile
      hpath (by decide) (by decide)
  have hhead : (s.ramfs 0x1000).isSome := by
    unfold Vfs.header at hf₁
    obtain ⟨head, hhead, -⟩ := Option.bind_eq_some_iff.mp hf₁
    exact Option.isSome_of_eq_some hhead
  obtain ⟨turns, hturns⟩ := h.last hs ⟨1, 0x1000⟩ hhead ['d', '/', 'x'] ⟨0, 0⟩
  obtain ⟨r, hr⟩ := hturns (turns + 1) (Nat.lt_succ_self turns)
  rw [hforever] at hr
  cases hr

end OsThing.Fs
