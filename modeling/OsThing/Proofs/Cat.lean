/-
What `cat` does to the files it is to show, when nothing else is its standard output.

No console is mounted, so `crt1_main` leaves descriptor 1 free, and that is what `open` gives
the file: `cat` writes each chunk back to the file it has read it from.  `ramfs_pwrite` makes the
size of a file that of the last write.  The first write therefore cuts the file down to the first
chunk, the next `read` is at the end, and the write of nothing that follows leaves nothing.

The names of the files stay: a lookup reads neither sizes nor bytes (`fsFindPath_shape`), so that
the induction over the paths goes on with a tree of the same shape.
-/
import OsThing.Proofs.FileCommands
import OsThing.User.Cat

namespace OsThing.Fs

/-! ### What a lookup reads -/

/-- The same for a lookup: two headers with the same type, mount and entries. -/
def SameLook (f f' : FileHeader) : Prop :=
  f'.type = f.type ∧ f'.mountId = f.mountId ∧ ∀ dirs, f'.data = .entries dirs ↔ f.data = .entries dirs

/-- The same tree, whatever the files hold. -/
structure SameShape (s s' : Vfs) (t : Nat) : Prop where
  systems : ∀ fs, (s'.ramfs fs).isSome = (s.ramfs fs).isSome
  missing : ∀ node, s.header node = none → s'.header node = none
  files : ∀ node f, s.header node = some f → ∃ f', s'.header node = some f' ∧ SameLook f f'
  mounts : s'.mounts = s.mounts
  zeroPage : s'.zeroPage = s.zeroPage
  root : s'.nodes (s'.tasks t).root = s.nodes (s.tasks t).root
  cwd : s'.nodes (s'.tasks t).cwd = s.nodes (s.tasks t).cwd

theorem SameLook.readEntry {f f' : FileHeader} (h : SameLook f f') (dirp : Dirent) (entry : Int) :
    f'.readEntry dirp entry = f.readEntry dirp entry := by
  obtain ⟨htype, -, hdata⟩ := h
  unfold FileHeader.readEntry
  rw [htype]
  split
  · rfl
  · cases hf : f.data with
    | entries dirs => rw [(hdata dirs).mpr hf]
    | buffer b =>
        cases hf' : f'.data with
        | entries dirs => exact absurd ((hdata dirs).mp hf') (by rw [hf]; exact nofun)
        | buffer b' => rfl

/-- What is known about an entry, as far as a lookup uses it. -/
def SameKnown (info info' : FileInfo) : Prop :=
  info'.type = info.type ∧ info'.mountId = info.mountId

namespace SameShape

variable {s s' : Vfs} {t : Nat}

theorem readdir (h : SameShape s s' t) (node : FileNode) (b : Dirent) (d : Int) :
    s'.readdir node b d = s.readdir node b d := by
  rw [readdir_eq, readdir_eq]
  rcases hf : s.header node with _ | f
  · rw [h.missing node hf]
  · obtain ⟨f', hf', hlook⟩ := h.files node f hf
    rw [hf']
    exact hlook.readEntry b d

theorem getInfo (h : SameShape s s' t) (node : FileNode) {info info' : FileInfo}
    (hinfo : SameKnown info info') :
    (s.getInfo node info = none ∧ s'.getInfo node info' = none) ∨
      ∃ i i', s.getInfo node info = some i ∧ s'.getInfo node info' = some i' ∧ SameKnown i i' := by
  have hsystem := h.systems node.fs
  have hmissing := h.missing node
  have hfiles := h.files node
  unfold Vfs.header at hmissing hfiles
  unfold Vfs.getInfo ramfsGetInfo
  rcases hs : s.ramfs node.fs with _ | head
  · rw [hs, Option.isSome_none, Option.isSome_eq_false_iff, Option.isNone_iff_eq_none] at hsystem
    rw [hsystem]
    exact Or.inl ⟨rfl, rfl⟩
  · rw [hs, Option.isSome_some] at hsystem
    obtain ⟨head', hs'⟩ := Option.isSome_iff_exists.mp hsystem
    rw [hs, hs', Option.bind_some, Option.bind_some] at hmissing
    rw [hs, hs', Option.bind_some, Option.bind_some] at hfiles
    rw [hs']
    refine Or.inr ⟨_, _, rfl, rfl, ?_⟩
    dsimp only
    rcases hf : head.getFileH node.inode with _ | f
    · rw [hmissing hf]
      exact hinfo
    · obtain ⟨f', hf', htype, hmount, -⟩ := hfiles f hf
      rw [hf']
      exact ⟨htype, hmount⟩

/-- **A lookup finds the same** in a tree of the same shape. -/
theorem fsFindPath_shape (h : SameShape s s' t) (fuel : Nat) (path : Name) (buf : FileNode) :
    fsFindPath s' fuel t path buf = fsFindPath s fuel t path buf := by
  have hscan : ∀ name temp turns d b,
      scanDir s' name temp turns d b = scanDir s name temp turns d b := fun name temp =>
    scanDir_congr (h.readdir temp) name
  have hfollow : ∀ {info info' : FileInfo} (temp : FileNode), SameKnown info info' →
      followMount s' info' temp = followMount s info temp := by
    intro info info' temp hinfo
    unfold followMount
    rw [h.mounts, h.zeroPage, hinfo.2]
  have hloop : ∀ names temp (info info' : FileInfo) b, SameKnown info info' →
      findLoop s' fuel buf names temp info' b = findLoop s fuel buf names temp info b := by
    intro names
    induction names with
    | nil => intro temp info info' b hinfo; rfl
    | cons name rest ih =>
        intro temp info info' b hinfo
        unfold findLoop
        rw [hscan, hinfo.1, ih temp info info' b hinfo]
        split
        · rfl
        split
        · rfl
        split
        · rcases scanDir s name temp fuel 0 b with stuck | ⟨_ | inode, b'⟩
          · rfl
          · rfl
          · dsimp only
            rcases h.getInfo ⟨inode, temp.fs⟩ hinfo with ⟨hnone, hnone'⟩ | ⟨i, i', hi, hi', hknown⟩
            · rw [hnone, hnone']
            · rw [hi, hi']
              dsimp only
              rw [hfollow _ hknown]
              rcases followMount s i ⟨inode, temp.fs⟩ with stuck | temp'
              · rfl
              · dsimp only
                rw [ih temp' i i' b' hknown]
        · rfl
  have hnode : ∀ node names,
      fsFindNode s' fuel node names buf = fsFindNode s fuel node names buf := by
    intro node names
    have hzero : SameKnown FileInfo.zero FileInfo.zero := ⟨rfl, rfl⟩
    unfold fsFindNode
    rcases h.getInfo node hzero with ⟨hnone, hnone'⟩ | ⟨i, i', hi, hi', hknown⟩
    · rw [hnone, hnone']
    · rw [hi, hi']
      exact hloop _ _ _ _ _ hknown
  unfold fsFindPath
  rw [h.root, h.cwd]
  simp only [hnode]

end SameShape

/-! ### Writing back -/

/-- The file at `node` has become `f`, and that is all but for descriptors. -/
structure Rewritten (s s' : Vfs) (node : FileNode) (f : FileHeader) : Prop where
  nodes : s'.nodes = s.nodes
  live : s'.live = s.live
  mounts : s'.mounts = s.mounts
  zeroPage : s'.zeroPage = s.zeroPage
  systems : ∀ fs, (s'.ramfs fs).isSome = (s.ramfs fs).isSome
  file : s'.header node = some f
  others : ∀ node' ≠ node, s'.header node' = s.header node'

theorem Rewritten.trans {s₁ s₂ s₃ : Vfs} {node : FileNode} {f f' : FileHeader}
    (h : Rewritten s₁ s₂ node f) (h' : Rewritten s₂ s₃ node f') : Rewritten s₁ s₃ node f' where
  nodes := h'.nodes.trans h.nodes
  live := h'.live.trans h.live
  mounts := h'.mounts.trans h.mounts
  zeroPage := h'.zeroPage.trans h.zeroPage
  systems fs := (h'.systems fs).trans (h.systems fs)
  file := h'.file
  others node' hne := (h'.others node' hne).trans (h.others node' hne)

/-- A change of the file alone. -/
theorem rewritten_modifyFile {s : Vfs} {node : FileNode} {head : RamfsHeader} {f : FileHeader}
    (change : FileHeader → FileHeader) (hinode : ∀ h, (change h).inode = h.inode)
    (hhead : s.ramfs node.fs = some head) (hf : head.getFileH node.inode = some f) :
    Rewritten s (s.setRamfs node.fs (head.modifyFile node.inode change hinode)) node (change f) where
  nodes := rfl
  live := rfl
  mounts := rfl
  zeroPage := rfl
  systems fs := by
    unfold Vfs.setRamfs
    dsimp only
    rw [Function.update_apply]
    split
    · rename_i hfs
      rw [hfs, hhead]
      rfl
    · rfl
  file := by
    rw [header_setRamfs, if_pos rfl, RamfsHeader.getFileH_modifyFile, hf, Option.map_some,
      if_pos rfl]
  others node' hne := by
    rw [header_setRamfs]
    split
    · rename_i hfs
      have hinode' : node'.inode ≠ node.inode := fun heq => hne (by
        cases node
        cases node'
        exact FileNode.mk.injEq .. ▸ ⟨heq, hfs⟩)
      rw [RamfsHeader.getFileH_modifyFile]
      unfold Vfs.header
      rw [hfs, hhead, Option.bind_some]
      rcases head.getFileH node'.inode with _ | g
      · rfl
      · rw [Option.map_some, if_neg hinode']
    · rfl

variable {s : Vfs} {t : Nat} {fd : Int} {d : FileDescript} {f : FileHeader} {b : Buffer}

/-- `size + offset + 1`. -/
theorem stop_toNat {size offset : UInt32} (hfits : offset.toNat + size.toNat + 1 < 2 ^ 31) :
    (size + offset + 1).toNat = offset.toNat + size.toNat + 1 := by
  have hone : (1 : UInt32).toNat = 1 := rfl
  rw [UInt32.toNat_add, UInt32.toNat_add, hone]
  omega

/-- A descriptor that was stored before is stored over. -/
theorem setFile_over {s s' : Vfs} {t : Nat} {fd : Int} {x : Option FileDescript}
    (h : s'.tasks = (s.setFile t fd x).tasks) (y : Option FileDescript) :
    (s'.setFile t fd y).tasks = (s.setFile t fd y).tasks := by
  rw [← setFile_again s t fd x y]
  show Function.update s'.tasks t ((s'.tasks t).setFile (fdIndex fd) y) = _
  rw [h]
  rfl

/-- **A write of no more than the file holds** makes the file that long, and returns a positive
number. -/
theorem write_back (input junk : Nat → UInt8) {size : UInt32}
    (hd : goodFile (s.tasks t) fd = some d) (hf : s.header (s.nodes d.file) = some f)
    (hdata : f.data = .buffer b) (hsize : size ≤ f.size)
    (hfits : d.wOffset.toNat + size.toNat + 1 < 2 ^ 31) :
    ∃ b' s' d', Rewritten s s' (s.nodes d.file) { f with data := .buffer b', size := size } ∧
      s'.tasks = s.tasks ∧ d'.file = d.file ∧ d'.rOffset = d.rOffset ∧
      d'.wOffset.toNat = d.wOffset.toNat + (d.wOffset.toNat + size.toNat + 1) ∧
      s.write t fd input junk size =
        some (((d.wOffset.toNat + size.toNat + 1 : Nat) : Int), s'.setFile t fd (some d')) := by
  obtain ⟨head, hhead, hfile⟩ := Option.bind_eq_some_iff.mp hf
  let stop : UInt32 := size + d.wOffset + 1
  have hstop : stop.toNat = d.wOffset.toNat + size.toNat + 1 := stop_toNat hfits
  have hlt : d.wOffset < stop := UInt32.lt_iff_toNat_lt.mpr (by omega)
  have hret : asInt stop = ((d.wOffset.toNat + size.toNat + 1 : Nat) : Int) := by
    rw [asInt_eq, hstop, if_pos hfits]
  let copied := copyLoop input d.wOffset.toNat (stop.toNat - d.wOffset.toNat) d.wOffset.toNat b.byte
  let b' : Buffer := { b with byte := copied }
  let change (h : FileHeader) : FileHeader := { h with data := .buffer b', size := size }
  have hwrite : ramfsPwrite head (s.nodes d.file) input junk size d.wOffset =
      some (asInt stop, head.modifyFile (s.nodes d.file).inode change fun _ => rfl) := by
    unfold ramfsPwrite
    rw [hfile, Option.bind_some]
    dsimp only
    rw [if_neg (UInt32.not_lt.mpr hsize), hdata, if_pos hlt]
  refine ⟨b', _, { d with wOffset := d.wOffset + (asInt stop).toInt32.toUInt32 },
    rewritten_modifyFile change (fun _ => rfl) hhead hfile, rfl, rfl, rfl, ?_, ?_⟩
  · dsimp only
    rw [asInt_toInt32]
    show (d.wOffset + stop).toNat = _
    rw [UInt32.toNat_add, hstop]
    omega
  · unfold Vfs.write
    rw [hd]
    dsimp only
    rw [onRamfs_some hhead hwrite, Option.map_some]
    dsimp only
    rw [if_pos (by rw [hret]; omega)]
    exact congrArg some (Prod.ext hret rfl)

end OsThing.Fs

namespace OsThing.Cat

open Fs Runs

/-! ### One file -/

section OneFile

variable {t : Nat} {d : FileDescript} {f : FileHeader} {b : Buffer}

/-- **A round** when the file is the standard output too: the file becomes what was read of it. -/
theorem round (raw junk buf : Nat → UInt8) {s : Vfs} (hd : goodFile (s.tasks t) stdout = some d)
    (hf : s.header (s.nodes d.file) = some f) (hdata : f.data = .buffer b)
    (hw : d.wOffset.toNat ≤ 513) {n : Nat} (hn : n = min 512 (f.size.toNat - d.rOffset.toNat)) :
    ∃ b' s' d' buf',
      Rewritten s s' (s.nodes d.file) { f with data := .buffer b', size := UInt32.ofNat n } ∧
        s'.tasks = (s.setFile t stdout (some d')).tasks ∧ d'.file = d.file ∧
        d'.rOffset = d.rOffset + UInt32.ofNat n ∧
        d'.wOffset.toNat = d.wOffset.toNat + (d.wOffset.toNat + n + 1) ∧
        ∀ turns, copyLoop t raw junk stdout (turns + 1) buf s =
          if n = 0 then some (true, buf', s') else copyLoop t raw junk stdout turns buf' s' := by
  have hnat : (UInt32.ofNat n).toNat = n := UInt32.toNat_ofNat_of_lt (by show n < 2 ^ 32; omega)
  let d₁ : FileDescript := { d with rOffset := d.rOffset + UInt32.ofNat n }
  let s₁ := s.setFile t stdout (some d₁)
  let buf' := fill (f.bytesFrom raw d.rOffset.toNat n) buf
  have hread : s.read t stdout 512 raw =
      some ((n : Int), f.bytesFrom raw d.rOffset.toNat n, s₁) :=
    read_chunk raw (by decide) hd hf hn
  have hgood : goodFile (s₁.tasks t) stdout = some d₁ := by
    rw [setFile_tasks, if_pos rfl]
    exact goodFile_setFile hd d₁
  have hle : UInt32.ofNat n ≤ f.size := UInt32.le_iff_toNat_le.mpr (by omega)
  obtain ⟨b', s₂, d', hrewritten, htasks, hfile, hr, hw', hwrite⟩ :=
    write_back buf' junk hgood hf hdata hle
      (by rw [hnat, show d₁.wOffset = d.wOffset from rfl]; omega)
  refine ⟨b', s₂.setFile t stdout (some d'), d', buf', ?_, ?_, hfile, hr, ?_, fun turns => ?_⟩
  · exact ⟨hrewritten.nodes, hrewritten.live, hrewritten.mounts, hrewritten.zeroPage,
      hrewritten.systems, hrewritten.file, hrewritten.others⟩
  · exact setFile_over htasks (some d')
  · rw [hw', hnat]
  · have hint : asInt (UInt32.ofNat n) = (n : Int) := by
      rw [asInt_eq, hnat, if_pos (by omega)]
    have hsize : (n : Int).toInt32.toUInt32 = UInt32.ofNat n := by
      rw [← hint, asInt_toInt32]
      rfl
    conv => lhs; unfold copyLoop
    rw [hread, Option.bind_some]
    dsimp only
    rw [if_neg (by omega), hsize, hwrite, Option.bind_some]
    dsimp only
    rw [if_neg (by omega)]
    by_cases hzero : n = 0
    · rw [if_neg (by omega), if_pos hzero]
    · rw [if_pos (by omega), if_neg hzero]

/-- **Two rounds leave nothing of the file.** -/
theorem copyLoop_empties (raw junk buf : Nat → UInt8) {s : Vfs}
    (hd : goodFile (s.tasks t) stdout = some d) (hr : d.rOffset = 0) (hw : d.wOffset = 0)
    (hf : s.header (s.nodes d.file) = some f) (hdata : f.data = .buffer b) (turns : Nat) :
    ∃ b' s' d' buf', Rewritten s s' (s.nodes d.file) { f with data := .buffer b', size := 0 } ∧
      s'.tasks = (s.setFile t stdout (some d')).tasks ∧ d'.file = d.file ∧
      copyLoop t raw junk stdout (turns + 2) buf s = some (true, buf', s') := by
  have hzero : d.rOffset.toNat = 0 := by rw [hr]; rfl
  have hstart : d.wOffset.toNat = 0 := by rw [hw]; rfl
  obtain ⟨n, hn⟩ : ∃ n, n = min 512 (f.size.toNat - d.rOffset.toNat) := ⟨_, rfl⟩
  obtain ⟨b₁, s₁, d₁, buf₁, hfirst, htasks, hfile, hr₁, hw₁, hloop⟩ :=
    round raw junk buf hd hf hdata (by omega) hn
  by_cases hnone : n = 0
  · subst hnone
    refine ⟨b₁, s₁, d₁, buf₁, hfirst, htasks, hfile, ?_⟩
    rw [hloop, if_pos rfl]
  have hgood : goodFile (s₁.tasks t) stdout = some d₁ := by
    rw [htasks, setFile_tasks, if_pos rfl]
    exact goodFile_setFile hd d₁
  have hnode : s₁.nodes d₁.file = s.nodes d.file := by rw [hfirst.nodes, hfile]
  have hend : 0 = min 512 ((UInt32.ofNat n).toNat - d₁.rOffset.toNat) := by
    rw [hr₁, hr, UInt32.zero_add, Nat.sub_self]
    rfl
  obtain ⟨b₂, s₂, d₂, buf₂, hsecond, htasks₂, hfile₂, -, -, hloop₂⟩ :=
    round raw junk buf₁ hgood (hnode ▸ hfirst.file) rfl (by omega) hend
  rw [hnode] at hsecond
  refine ⟨b₂, s₂, d₂, buf₂, hfirst.trans hsecond, ?_, hfile₂.trans hfile, ?_⟩
  · exact htasks₂.trans (setFile_over htasks (some d₂))
  · rw [hloop, if_neg hnone, hloop₂, if_pos rfl]

end OneFile

/-! ### Any number of files -/

/-- The files at the nodes of `P` have become empty, and nothing else has changed, but for blocks
that are not in use. -/
structure Emptied (s s' : Vfs) (P : FileNode → Prop) : Prop where
  tasks : s'.tasks = s.tasks
  live : s'.live = s.live
  nodes : ∀ p ∈ s.live, s'.nodes p = s.nodes p
  mounts : s'.mounts = s.mounts
  zeroPage : s'.zeroPage = s.zeroPage
  systems : ∀ fs, (s'.ramfs fs).isSome = (s.ramfs fs).isSome
  emptied : ∀ node, P node → ∃ f b b', s.header node = some f ∧ f.data = .buffer b ∧
    s'.header node = some { f with data := .buffer b', size := 0 }
  others : ∀ node, ¬ P node → s'.header node = s.header node

namespace Emptied

variable {s s₁ s₂ s₃ : Vfs} {P Q : FileNode → Prop}

theorem refl (s : Vfs) (h : ∀ node, ¬ P node) : Emptied s s P :=
  ⟨rfl, rfl, fun _ _ => rfl, rfl, rfl, fun _ => rfl, fun node hnode => absurd hnode (h node),
    fun _ _ => rfl⟩

theorem trans (h : Emptied s₁ s₂ P) (h' : Emptied s₂ s₃ Q) :
    Emptied s₁ s₃ fun node => P node ∨ Q node where
  tasks := h'.tasks.trans h.tasks
  live := h'.live.trans h.live
  nodes p hp := (h'.nodes p (h.live ▸ hp)).trans (h.nodes p hp)
  mounts := h'.mounts.trans h.mounts
  zeroPage := h'.zeroPage.trans h.zeroPage
  systems fs := (h'.systems fs).trans (h.systems fs)
  emptied := by
    intro node hnode
    by_cases hQ : Q node
    · obtain ⟨f₂, b₂, b₃, hf₂, hdata₂, hf₃⟩ := h'.emptied node hQ
      by_cases hP : P node
      · obtain ⟨f, b, b', hf, hdata, hf'⟩ := h.emptied node hP
        obtain rfl := Option.some.inj (hf'.symm.trans hf₂)
        exact ⟨f, b, b₃, hf, hdata, hf₃⟩
      · exact ⟨f₂, b₂, b₃, (h.others node hP).symm.trans hf₂, hdata₂, hf₃⟩
    · obtain ⟨f, b, b', hf, hdata, hf'⟩ := h.emptied node (hnode.resolve_right hQ)
      exact ⟨f, b, b', hf, hdata, (h'.others node hQ).trans hf'⟩
  others node hnode :=
    (h'.others node fun hQ => hnode (Or.inr hQ)).trans (h.others node fun hP => hnode (Or.inl hP))

theorem congr (h : Emptied s s₁ P) (hPQ : ∀ node, Q node ↔ P node) : Emptied s s₁ Q :=
  ⟨h.tasks, h.live, h.nodes, h.mounts, h.zeroPage, h.systems,
    fun node hQ => h.emptied node ((hPQ node).mp hQ),
    fun node hQ => h.others node fun hP => hQ ((hPQ node).mpr hP)⟩

/-- Names and directories are what they were. -/
theorem shape (h : Emptied s s₁ P) {t : Nat} (hroot : (s.tasks t).root ∈ s.live)
    (hcwd : (s.tasks t).cwd ∈ s.live) : SameShape s s₁ t where
  systems := h.systems
  missing node hnone := by
    by_cases hP : P node
    · obtain ⟨f, b, b', hf, -, -⟩ := h.emptied node hP
      exact absurd (hf.symm.trans hnone) nofun
    · exact (h.others node hP).trans hnone
  files node f hf := by
    by_cases hP : P node
    · obtain ⟨f₀, b, b', hf₀, hdata, hf'⟩ := h.emptied node hP
      obtain rfl := Option.some.inj (hf₀.symm.trans hf)
      refine ⟨_, hf', rfl, rfl, fun dirs => ⟨fun hdirs => absurd hdirs nofun, fun hdirs => ?_⟩⟩
      exact absurd (hdata.symm.trans hdirs) nofun
    · exact ⟨f, (h.others node hP).trans hf, rfl, rfl, fun dirs => Iff.rfl⟩
  mounts := h.mounts
  zeroPage := h.zeroPage
  root := by rw [h.tasks, h.nodes _ hroot]
  cwd := by rw [h.tasks, h.nodes _ hcwd]

end Emptied

section Files

variable {fuel t : Nat}

/-- What the commands need of a state, as far as `cat` keeps it. -/
structure Ready (s : Vfs) (t : Nat) : Prop where
  root : (s.tasks t).root ∈ s.live
  cwd : (s.tasks t).cwd ∈ s.live
  counted : Counted t s

/-- A path to a file of bytes that the task can read, and a block for its node: the file gets
the descriptor of the standard output. -/
structure Readable (s : Vfs) (fuel t : Nat) (p : Name × Nat) (node : FileNode) : Prop where
  block : p.2 ∉ s.live
  file : ∃ f b, CanRead s fuel t p.1 node f 1 ∧ f.data = .buffer b

theorem Emptied.ready {s s' : Vfs} {P : FileNode → Prop} (h : Emptied s s' P) (hs : Ready s t) :
    Ready s' t where
  root := by
    rw [h.tasks, h.live]
    exact hs.root
  cwd := by
    rw [h.tasks, h.live]
    exact hs.cwd
  counted := by
    obtain ⟨hcount, hfiles⟩ := hs.counted
    refine ⟨?_, ?_⟩
    · rw [h.tasks]
      exact hcount
    · rw [h.tasks]
      exact hfiles

/-- The next paths are as good as before. -/
theorem Emptied.readable {s s' : Vfs} {P : FileNode → Prop} (h : Emptied s s' P) (hs : Ready s t)
    {p : Name × Nat} {node : FileNode} (hp : Readable s fuel t p node) :
    Readable s' fuel t p node := by
  obtain ⟨hblock, f, b, hread, hdata⟩ := hp
  refine ⟨by rw [h.live]; exact hblock, ?_⟩
  have hfound : Resolves s' fuel t p.1 node := by
    unfold Resolves
    rw [(h.shape hs.root hs.cwd).fsFindPath_shape]
    exact hread.found
  have hroom : (s'.tasks t).fileCount < MAX_FILES := by rw [h.tasks]; exact hread.room
  have hslot : (s'.tasks t).freeSlot = some 1 := by rw [h.tasks]; exact hread.slot
  by_cases hP : P node
  · obtain ⟨f₀, b₀, b', hf₀, -, hf'⟩ := h.emptied node hP
    obtain rfl := Option.some.inj (hf₀.symm.trans hread.file)
    exact ⟨_, b', ⟨hfound, hf', by rw [h.tasks]; exact hread.allowed, hroom, hslot⟩, rfl⟩
  · refine ⟨f, b, ⟨hfound, ?_, by rw [h.tasks]; exact hread.allowed, hroom, hslot⟩, hdata⟩
    rw [h.others node hP]
    exact hread.file

/-- **One path**: opened as the standard output, emptied and closed. -/
theorem path_empties (raw junk buf : Nat → UInt8) {s : Vfs} (hs : Ready s t) {p : Name × Nat}
    {node : FileNode} (hp : Readable s fuel t p node) (turns : Nat) :
    ∃ s' buf', Emptied s s' (· = node) ∧ ∀ rest,
      main fuel (turns + 2) t raw junk (p :: rest) buf s =
        main fuel (turns + 2) t raw junk rest buf' s' := by
  obtain ⟨path, a⟩ := p
  obtain ⟨ha, f, b, hread, hdata⟩ := hp
  have hroot : (s.tasks t).root ≠ a := fun h => ha (h ▸ hs.root)
  have hcwd : (s.tasks t).cwd ≠ a := fun h => ha (h ▸ hs.cwd)
  obtain ⟨hgood, hheader⟩ := opening_good (a := a) hs.counted hread
  have hnode : (s.opening t 1 a node).nodes a = node := Function.update_self ..
  obtain ⟨b', s₁, d', buf', hrewritten, htasks, hfile, hloop⟩ :=
    copyLoop_empties raw junk buf (s := s.opening t 1 a node) hgood rfl rfl hheader hdata turns
  have hgood₁ : goodFile (s₁.tasks t) stdout = some d' := by
    rw [htasks, setFile_tasks, if_pos rfl]
    exact goodFile_setFile hgood d'
  have hheader₁ : s₁.header (s₁.nodes d'.file) = some { f with data := .buffer b', size := 0 } := by
    rw [hrewritten.nodes, hfile]
    exact hrewritten.file
  have htable : (s₁.modifyTask t fun task => task.dropFile (fdIndex stdout)).tasks = s.tasks := by
    have hdrop : (((s.opening t 1 a node).setFile t stdout (some d')).modifyTask t fun task =>
        task.dropFile (fdIndex stdout)) = s.setNode a node := opening_drop hread.slot (some d')
    rw [← show (s.setNode a node).tasks = s.tasks from rfl, ← hdrop]
    unfold Vfs.modifyTask
    dsimp only
    rw [htasks]
  refine ⟨s₁.modifyTask t fun task => task.dropFile (fdIndex stdout), buf', ?_, fun rest => ?_⟩
  · refine ⟨htable, hrewritten.live, fun p hp => ?_, hrewritten.mounts, hrewritten.zeroPage,
      hrewritten.systems, ?_, fun node' hne => ?_⟩
    · have hne : p ≠ a := fun h => ha (h ▸ hp)
      show s₁.nodes p = s.nodes p
      rw [hrewritten.nodes]
      exact Function.update_of_ne hne ..
    · rintro _ rfl
      exact ⟨f, b, b', hread.file, hdata, hnode ▸ hrewritten.file⟩
    · exact hrewritten.others node' fun h => hne (h.trans hnode)
  · conv => lhs; unfold main
    rw [open_reads hroot hcwd ha hread, Option.bind_some]
    dsimp only
    rw [if_neg (by decide), show ((1 : Nat) : Int) = stdout from rfl, hloop, Option.bind_some]
    dsimp only
    rw [if_pos rfl, close_good hgood₁ hheader₁, Option.bind_some]

/-- **Any number of paths**: by induction, with a state of the same shape for the next. -/
theorem main_empties (raw junk : Nat → UInt8) (turns : Nat) :
    ∀ (args : List (Name × Nat)) (buf : Nat → UInt8) (s : Vfs), Ready s t →
      (∀ p ∈ args, ∃ node, Readable s fuel t p node) →
        ∃ s', main fuel (turns + 2) t raw junk args buf s = some (0, s') ∧
          Emptied s s' fun node => ∃ p ∈ args, Resolves s fuel t p.1 node := by
  intro args
  induction args with
  | nil =>
      intro buf s hs hargs
      refine ⟨s, rfl, Emptied.refl s fun node h => ?_⟩
      obtain ⟨p, hp, -⟩ := h
      exact absurd hp List.not_mem_nil
  | cons p args ih =>
      intro buf s hs hargs
      obtain ⟨node, hp⟩ := hargs p List.mem_cons_self
      obtain ⟨s₁, buf₁, hemptied, hmain⟩ := path_empties raw junk buf hs hp turns
      have hargs₁ : ∀ q ∈ args, ∃ node, Readable s₁ fuel t q node := fun q hq =>
        let ⟨node, hq⟩ := hargs q (List.mem_cons_of_mem _ hq)
        ⟨node, hemptied.readable hs hq⟩
      obtain ⟨s', hrest, hothers⟩ := ih buf₁ s₁ (hemptied.ready hs) hargs₁
      refine ⟨s', (hmain args).trans hrest, (hemptied.trans hothers).congr fun node' => ?_⟩
      have hshape : ∀ path, Resolves s₁ fuel t path node' ↔ Resolves s fuel t path node' := fun path => by
        unfold Resolves
        rw [(hemptied.shape hs.root hs.cwd).fsFindPath_shape]
      have hfirst : Resolves s fuel t p.1 node' ↔ node' = node := by
        obtain ⟨-, f, b, hread, -⟩ := hp
        have hfound : Resolves s fuel t p.1 node := hread.found
        refine ⟨fun h => ?_, fun h => h ▸ hfound⟩
        unfold Resolves at h hfound
        rw [hfound] at h
        cases h
        rfl
      constructor
      · rintro ⟨q, hq, hresolves⟩
        rcases List.mem_cons.mp hq with rfl | hq
        · exact Or.inl (hfirst.mp hresolves)
        · exact Or.inr ⟨q, hq, (hshape q.1).mpr hresolves⟩
      · rintro (hnode | ⟨q, hq, hresolves⟩)
        · exact ⟨p, List.mem_cons_self, hfirst.mpr hnode⟩
        · exact ⟨q, List.mem_cons_of_mem _ hq, (hshape q.1).mp hresolves⟩

/--
**`cat` empties what it is to show.**  In every state that a run of calls gets to, with any number
of paths that lead to files of bytes which the task can read, and 1 the lowest descriptor that is
free: `cat` comes to its end, returns 0, and has made every one of the files empty, whether or not
the task may write them.  No other file and no descriptor has changed.
-/
theorem cat_empties {s : Vfs} {calls : List Fs.Call} {systems : List Nat} {fs root : Nat}
    (hrun : runAll (vfsStep fuel) (Vfs.boot systems fs root) calls = some s)
    {args : List (Name × Nat)} (hargs : ∀ p ∈ args, ∃ node, Readable s fuel t p node)
    (raw junk buf : Nat → UInt8) (turns : Nat) :
    ∃ s', main fuel (turns + 2) t raw junk args buf s = some (0, s') ∧
      Emptied s s' fun node => ∃ p ∈ args, Resolves s fuel t p.1 node := by
  obtain ⟨hsound, hcounted⟩ := Commands.reached (t := t) hrun
  exact main_empties raw junk turns args buf s ⟨hsound.root t, hsound.cwd t, hcounted⟩ hargs

/-- A file of one byte, next to the one that is descriptor 0. -/
theorem cat_empties_a : ∃ s, runAll (vfsStep 4) (Vfs.boot [0x1000] 0x1000 0x2000)
    [⟨0, .open ['k'] 68 0x3000⟩, ⟨0, .open ['a'] 68 0x3000⟩,
      ⟨0, .write 1 (fun _ => 0x61) (fun _ => 0) 1⟩, ⟨0, .close 1⟩] = some s ∧
    ∃ s', main 4 2 0 (fun _ => 0) (fun _ => 0) [(['a'], 0x3000)] (fun _ => 0) s = some (0, s') ∧
      Emptied s s' fun node => ∃ p ∈ [(['a'], 0x3000)], Resolves s 4 0 p.1 node := by
  have hfacts : (runAll (vfsStep 4) (Vfs.boot [0x1000] 0x1000 0x2000)
      [⟨0, .open ['k'] 68 0x3000⟩, ⟨0, .open ['a'] 68 0x3000⟩,
        ⟨0, .write 1 (fun _ => 0x61) (fun _ => 0) 1⟩, ⟨0, .close 1⟩]).map (fun s =>
          (fsFindPath s 4 0 ['a'] ⟨0, 0⟩, s.live, (s.tasks 0).fileCount, (s.tasks 0).freeSlot)) =
      some (.ok (0, ⟨3, 0x1000⟩), [0x2000], 1, some 1) := by
    decide
  have hfile : (runAll (vfsStep 4) (Vfs.boot [0x1000] 0x1000 0x2000)
      [⟨0, .open ['k'] 68 0x3000⟩, ⟨0, .open ['a'] 68 0x3000⟩,
        ⟨0, .write 1 (fun _ => 0x61) (fun _ => 0) 1⟩, ⟨0, .close 1⟩]).map (fun s =>
          (s.header ⟨3, 0x1000⟩).map fun f => (f.data matches .buffer _,
            goodOp ((s.tasks 0).perms f.uid f.gid f.mask) O_RDONLY)) =
      some (some (true, true)) := by
    decide
  obtain ⟨s, hrun, hfacts⟩ := Option.map_eq_some_iff.mp hfacts
  simp only [Prod.mk.injEq] at hfacts
  obtain ⟨hfind, hlive, hcount, hslot⟩ := hfacts
  rw [hrun, Option.map_some] at hfile
  obtain ⟨f, hf, hfile⟩ := Option.map_eq_some_iff.mp (Option.some.inj hfile)
  obtain ⟨hdata, hgood⟩ := Prod.mk.inj hfile
  have ha : 0x3000 ∉ s.live := by
    rw [hlive]
    decide
  have hread : CanRead s 4 0 ['a'] ⟨3, 0x1000⟩ f 1 :=
    ⟨hfind, hf, hgood, by rw [hcount]; decide, hslot⟩
  refine ⟨s, hrun, cat_empties hrun (fun p hp => ?_) _ _ _ 0⟩
  obtain rfl := List.mem_singleton.mp hp
  refine ⟨⟨3, 0x1000⟩, ha, f, ?_⟩
  cases hd : f.data with
  | entries dirs =>
      rw [hd] at hdata
      cases hdata
  | buffer b => exact ⟨b, hread, rfl⟩

end Files

end OsThing.Cat
