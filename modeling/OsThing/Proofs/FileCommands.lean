/-
`sh_cat` shows a file, and `sh_list` a directory.

A command opens, reads to the end and closes.  Opening for reading changes nothing but the block
of the node and the table of the task (`open_reads`); a read takes the next chunk and moves the
offset (`read_chunk`), so that by induction on what is left of the file the loop has shown all of
it; and the table that the close leaves is the one before, since the place was free.
-/
import OsThing.Proofs.FileCount
import OsThing.Proofs.OpenFrame
import OsThing.Proofs.Reading
import OsThing.Proofs.Listing
import OsThing.Proofs.Numbers
import OsThing.Sys.FileCommands

namespace OsThing.Fs

/-! ### Opening for reading -/

/-- The task can open the path for reading: what it leads to, and the descriptor it will be. -/
structure CanRead (s : Vfs) (fuel t : Nat) (path : Name) (node : FileNode) (f : FileHeader)
    (i : Nat) : Prop where
  found : Resolves s fuel t path node
  file : s.header node = some f
  allowed : goodOp ((s.tasks t).perms f.uid f.gid f.mask) O_RDONLY
  room : (s.tasks t).fileCount < MAX_FILES
  slot : (s.tasks t).freeSlot = some i

/-- The state once the node has been found, and the descriptor is there. -/
def Vfs.opening (s : Vfs) (t i a : Nat) (node : FileNode) : Vfs :=
  (s.setNode a node).modifyTask t fun task => task.addFile i a

theorem ramfsOpen_rdonly {head : RamfsHeader} {node : FileNode} {f : FileHeader} (name : Name)
    (hf : head.getFileH node.inode = some f) :
    ramfsOpen head node name O_RDONLY = some ((node.inode : Int), head) := by
  have hcreat : ¬ (f.type = FS_DIR ∧ O_RDONLY &&& O_CREAT ≠ 0) := fun h => h.2 (by decide)
  unfold ramfsOpen
  rw [hf, Option.bind_some, if_neg hcreat]

theorem setRamfs_same {s : Vfs} {fs : Nat} {head : RamfsHeader} (h : s.ramfs fs = some head) :
    s.setRamfs fs head = s := by
  unfold Vfs.setRamfs
  rw [← h, Function.update_eq_self]

/-- **Opening for reading.**  The descriptor is the lowest that is free, and nothing else is
changed but the block of the node. -/
theorem open_reads {s : Vfs} {fuel t a i : Nat} {path : Name} {node : FileNode} {f : FileHeader}
    (hroot : (s.tasks t).root ≠ a) (hcwd : (s.tasks t).cwd ≠ a) (ha : a ∉ s.live)
    (h : CanRead s fuel t path node f i) :
    s.openCall fuel t path O_RDONLY a = some ((i : Int), s.opening t i a node) := by
  let s₁ : Vfs := (s.knew a).setNode a node
  have hnode : s₁.nodes a = node := Function.update_self ..
  have hheader : s₁.header node = some f := h.file
  have hfind : (s.knew a).openFind fuel t path O_RDONLY a = some (0, true, s₁) := by
    unfold Vfs.openFind Vfs.findPath
    rw [fsFindPath_congr (knew_view hroot hcwd), h.found.found]
    rfl
  have hperms : checkPerms s₁ (s₁.tasks t) (s₁.nodes a) O_RDONLY = some true := by
    unfold checkPerms
    rw [hnode, getInfo_of_header hheader, Option.map_some]
    exact congrArg some h.allowed
  obtain ⟨head, hhead, hf⟩ := Option.bind_eq_some_iff.mp hheader
  have hopen : (s₁.onRamfs (s₁.nodes a) fun head =>
      ramfsOpen head (s₁.nodes a) (lastName path) O_RDONLY) = some ((node.inode : Int), s₁) := by
    rw [hnode, onRamfs_some hhead (ramfsOpen_rdonly _ hf), setRamfs_same hhead]
  have hinode : ¬ (node.inode : Int) < 0 := Int.not_lt.mpr (Int.natCast_nonneg _)
  have hfile : (s.knew a).openFile fuel t path O_RDONLY a = some ((node.inode : Int), s₁) := by
    unfold Vfs.openFile
    rw [hfind, Option.bind_some]
    dsimp only
    rw [if_neg (by decide), hperms, Option.bind_some, if_neg (by decide), hopen, Option.bind_some]
    dsimp only
    rw [if_neg hinode]
    rfl
  have hinstall : s₁.install t a = ((i : Int), s₁.modifyTask t fun task => task.addFile i a) := by
    unfold Vfs.install
    rw [if_neg (show ¬ MAX_FILES ≤ (s₁.tasks t).fileCount from Nat.not_le.mpr h.room),
      show (s₁.tasks t).freeSlot = some i from h.slot]
  unfold Vfs.openCall
  rw [if_neg ha, hfile, Option.map_some]
  dsimp only
  rw [if_neg hinode, hinstall]
  have hlive : (a :: s.live).erase a = s.live := List.erase_cons_head a s.live
  have hnodes : s₁.nodes = Function.update s.nodes a node := Function.update_idem ..
  unfold Vfs.kfree Vfs.opening Vfs.modifyTask Vfs.setNode
  dsimp only
  rw [← hnodes, ← hlive]
  rfl

theorem openFind_rdonly {s s₁ : Vfs} {fuel t a : Nat} {path : Name} {e : Int} {found : Bool}
    (h : s.openFind fuel t path O_RDONLY a = some (e, found, s₁)) :
    ∃ node, s₁ = s.setNode a node ∧
      (e = -EPERM ∨ (found = true ∧ e = 0 ∧ Resolves s fuel t path node)) := by
  unfold Vfs.openFind at h
  obtain ⟨⟨ret, s₂⟩, hfind, h⟩ := Option.bind_eq_some_iff.mp h
  unfold Vfs.findPath at hfind
  obtain ⟨⟨ret', node⟩, hpath, heq⟩ := Option.map_eq_some_iff.mp hfind
  obtain ⟨rfl, rfl⟩ := Prod.mk.inj heq
  dsimp only at h
  split at h
  · rw [if_neg (by decide)] at h
    obtain ⟨he, hrest⟩ := Prod.mk.inj (Option.some.inj h)
    exact ⟨node, (Prod.mk.inj hrest).2.symm, Or.inl he.symm⟩
  · rename_i hret
    obtain ⟨rfl, hrest⟩ := Prod.mk.inj (Option.some.inj h)
    rcases resolves_or_fails (toOption_eq_some hpath) with ⟨he, hresolves⟩ | hfails
    · exact ⟨node, (Prod.mk.inj hrest).2.symm, Or.inr ⟨(Prod.mk.inj hrest).1.symm, he, hresolves⟩⟩
    · exact absurd hfails.1 hret

/-- How an `open` for reading comes to its node: no file is changed, and if it has one, the task
may read that. -/
theorem openFile_rdonly {s s₀ : Vfs} {fuel t a : Nat} {path : Name} {err : Int}
    (h : s.openFile fuel t path O_RDONLY a = some (err, s₀)) :
    s₀.ramfs = s.ramfs ∧ (0 ≤ err → ∃ node f, Resolves s fuel t path node ∧
      s.header node = some f ∧ goodOp ((s.tasks t).perms f.uid f.gid f.mask) O_RDONLY) := by
  have hopen : ∀ {s₁ s₂ : Vfs} {ret : Int}, openNode s₁ path O_RDONLY a = some (ret, s₂) →
      s₂ = s₁ ∧ ∃ f, s₁.header (s₁.nodes a) = some f := by
    intro s₁ s₂ ret hopen
    obtain ⟨head, head', hhead, hop, rfl⟩ := onRamfs_spec hopen
    unfold ramfsOpen at hop
    obtain ⟨f, hf, hop⟩ := Option.bind_eq_some_iff.mp hop
    rw [if_neg (fun h => h.2 (by decide))] at hop
    obtain ⟨-, rfl⟩ := Prod.mk.inj (Option.some.inj hop)
    refine ⟨setRamfs_same hhead, f, ?_⟩
    unfold Vfs.header
    rw [hhead]
    exact hf
  cases openFile_ends h with
  | lost found herr hfind =>
      obtain ⟨node, rfl, -⟩ := openFind_rdonly hfind
      exact ⟨rfl, fun hge => absurd herr (Int.not_lt.mpr hge)⟩
  | refused e found he herr hfind hperms =>
      obtain ⟨node, rfl, -⟩ := openFind_rdonly hfind
      exact ⟨rfl, fun hge => absurd hge (by rw [herr]; decide)⟩
  | opened e found s₁ he hend hfind hperms hop =>
      obtain ⟨node, rfl, rfl | ⟨-, -, hresolves⟩⟩ := openFind_rdonly hfind
      · exact absurd he (by decide)
      obtain ⟨rfl, f, hf⟩ := hopen hop
      rw [show (s.setNode a node).nodes a = node from Function.update_self ..] at hf hperms
      refine ⟨rfl, fun _ => ⟨node, f, hresolves, hf, ?_⟩⟩
      unfold checkPerms at hperms
      rw [getInfo_of_header hf] at hperms
      exact Option.some.inj hperms
  | made e ret s₁ s₂ he hret hfind hperms hop hlast =>
      obtain ⟨node, -, rfl | ⟨hfound, -⟩⟩ := openFind_rdonly hfind
      · exact absurd he (by decide)
      · exact absurd hfound Bool.false_ne_true

/-- An `open` for reading that comes back leaves files and descriptors alone if it failed; and
it only succeeds where the task can read. -/
theorem open_rdonly_cases {s s' : Vfs} {fuel t a : Nat} {path : Name} {fp : Int}
    (hroot : (s.tasks t).root ≠ a) (hcwd : (s.tasks t).cwd ≠ a)
    (h : s.openCall fuel t path O_RDONLY a = some (fp, s')) :
    (fp < 0 ∧ s'.ramfs = s.ramfs ∧ s'.tasks = s.tasks) ∨
      ∃ node f i, CanRead s fuel t path node f i ∧ fp = (i : Int) := by
  obtain ⟨err, s₀, hfile, -, htrees, hcases⟩ := open_cases h
  obtain ⟨hsame, htasks⟩ := noteOpen_same s' t fp a O_RDONLY
  obtain ⟨hramfs, hreads⟩ := openFile_rdonly hfile
  rcases hcases with ⟨-, hfp, hfiles⟩ | ⟨herr, i, rfl, hopened⟩
  · refine Or.inl ⟨hfp, ?_, htasks.symm.trans hfiles.tasks⟩
    exact hsame.ramfs.symm.trans (htrees.ramfs.trans hramfs)
  · obtain ⟨node, f, hresolves, hf, hgood⟩ := hreads herr
    refine Or.inr ⟨node, f, i, ⟨?_, hf, hgood, hopened.room, ?_⟩, rfl⟩
    · exact (fsFindPath_congr (knew_view hroot hcwd) fuel path _).symm.trans hresolves
    · refine List.find?_range_eq_some.mpr ⟨decide_eq_true hopened.free,
        List.mem_range.mpr hopened.slot, fun j hj => ?_⟩
      simpa using hopened.lowest j hj

/-! ### Reading to the end -/

/-- The bytes of a file from an offset on. -/
def FileHeader.bytesFrom (f : FileHeader) (raw : Nat → UInt8) (offset count : Nat) : List UInt8 :=
  (List.range count).map fun j => f.data.byte raw (offset + j)

theorem FileHeader.bytesFrom_add (f : FileHeader) (raw : Nat → UInt8) (offset m n : Nat) :
    f.bytesFrom raw offset (m + n) = f.bytesFrom raw offset m ++ f.bytesFrom raw (offset + m) n := by
  unfold FileHeader.bytesFrom
  rw [List.range_add, List.map_append, List.map_map]
  refine congrArg (_ ++ ·) (List.map_congr_left fun j _ => ?_)
  show f.data.byte raw (offset + (m + j)) = f.data.byte raw (offset + m + j)
  rw [Nat.add_assoc]

variable {s : Vfs} {t : Nat} {fd : Int} {d : FileDescript} {f : FileHeader}

/-- **A read** takes what it is asked for or what is left, and moves on by as much. -/
theorem read_chunk (raw : Nat → UInt8) {size : UInt32} (hsize : size.toNat < 2 ^ 31)
    (hd : goodFile (s.tasks t) fd = some d) (hf : s.header (s.nodes d.file) = some f) {count : Nat}
    (hcount : count = min size.toNat (f.size.toNat - d.rOffset.toNat)) :
    s.read t fd size raw = some ((count : Int), f.bytesFrom raw d.rOffset.toNat count,
      s.setFile t fd (some { d with rOffset := d.rOffset + UInt32.ofNat count })) := by
  obtain ⟨head, hhead, hfile⟩ := Option.bind_eq_some_iff.mp hf
  have hlt : count < 2 ^ 31 := by omega
  have hret : asInt (UInt32.ofNat count) = (count : Int) := by
    have hnat : (UInt32.ofNat count).toNat = count :=
      UInt32.toNat_ofNat_of_lt (by show count < 2 ^ 32; omega)
    rw [asInt_eq, hnat, if_pos hlt]
  unfold Vfs.read
  rw [hd]
  dsimp only
  rw [hhead, Option.bind_some]
  unfold ramfsPread
  rw [hfile, Option.map_some, Option.map_some]
  dsimp only
  rw [← hcount, asInt_toInt32]
  exact congrArg some (Prod.ext hret (Prod.ext rfl rfl))

theorem setFile_again (s : Vfs) (t : Nat) (fd : Int) (x y : Option FileDescript) :
    (s.setFile t fd x).setFile t fd y = s.setFile t fd y := by
  unfold Vfs.setFile Vfs.modifyTask
  dsimp only
  rw [Function.update_idem, Function.update_self]
  unfold Task.setFile
  rw [Function.update_idem]

/-! ### Closing -/

theorem Task.add_drop (task : Task) {i : Nat} (hfree : task.files i = none) (a : Nat)
    (x : Option FileDescript) : ((task.addFile i a).setFile i x).dropFile i = task := by
  have hfiles : (((task.addFile i a).setFile i x).dropFile i).files = task.files := by
    funext j
    rw [Task.dropFile_files, Task.setFile_files, Task.addFile_files]
    split
    · rename_i hj
      rw [hj, hfree]
    · rfl
  have hcount : (((task.addFile i a).setFile i x).dropFile i).fileCount = task.fileCount :=
    Nat.add_sub_cancel task.fileCount 1
  cases task
  exact Task.mk.injEq .. ▸ ⟨rfl, rfl, rfl, rfl, hfiles, hcount⟩

theorem close_good (hd : goodFile (s.tasks t) fd = some d) (hf : s.header (s.nodes d.file) = some f) :
    s.close t fd = some (0, s.modifyTask t fun task => task.dropFile (fdIndex fd)) := by
  obtain ⟨head, hhead, -⟩ := Option.bind_eq_some_iff.mp hf
  unfold Vfs.close
  rw [hd]
  dsimp only
  rw [hhead]
  rfl

/-- A close looks at one node. -/
theorem close_setNode (hd : goodFile (s.tasks t) fd = some d) {e : Nat} (he : d.file ≠ e)
    (node : FileNode) :
    (s.setNode e node).close t fd = (s.close t fd).map fun (r, s) => (r, s.setNode e node) := by
  have hd' : goodFile ((s.setNode e node).tasks t) fd = some d := hd
  have hnode : (s.setNode e node).nodes d.file = s.nodes d.file := Function.update_of_ne he ..
  unfold Vfs.close
  rw [hd, hd']
  dsimp only
  rw [hnode, Option.map_map]
  rfl

/-! ### A command between its `open` and its `close` -/

section Opened

variable {fuel i a : Nat} {path : Name} {node : FileNode}

/-- The lowest free place is one of the next. -/
theorem slot_le_count (hcounted : Counted t s) (hslot : (s.tasks t).freeSlot = some i) :
    i ≤ (s.tasks t).fileCount := by
  obtain ⟨hlt, -, hlowest⟩ := freeSlot_eq_some hslot
  rw [hcounted.count, ← Finset.card_range i]
  refine Finset.card_le_card fun j hj => mem_usedFiles.mpr ?_
  have hj := Finset.mem_range.mp hj
  exact ⟨by omega, Option.isSome_iff_ne_none.mpr (hlowest j hj)⟩

/-- The descriptor is a good one, and stands for the file. -/
theorem opening_good (hcounted : Counted t s) (h : CanRead s fuel t path node f i) :
    goodFile ((s.opening t i a node).tasks t) i = some ⟨a, 0, 0, 0⟩ ∧
      (s.opening t i a node).header ((s.opening t i a node).nodes a) = some f := by
  obtain ⟨hlt, -, -⟩ := freeSlot_eq_some h.slot
  have hle := slot_le_count hcounted h.slot
  constructor
  · unfold Vfs.opening
    rw [modifyTask_tasks, if_pos rfl, goodFile_eq, fdIndex_natCast hlt, Task.addFile_files,
      if_pos rfl]
    exact if_neg (show ¬ (s.tasks t).fileCount + 1 ≤ i by omega)
  · rw [show (s.opening t i a node).nodes a = node from Function.update_self ..]
    exact h.file

/-- The table without the descriptor is the one before. -/
theorem opening_drop (hslot : (s.tasks t).freeSlot = some i) (x : Option FileDescript) :
    (((s.opening t i a node).setFile t i x).modifyTask t fun task => task.dropFile (fdIndex i)) =
      s.setNode a node := by
  obtain ⟨hlt, hfree, -⟩ := freeSlot_eq_some hslot
  unfold Vfs.opening Vfs.setFile Vfs.modifyTask
  dsimp only
  rw [Function.update_idem, Function.update_self, Function.update_idem, Function.update_self,
    fdIndex_natCast hlt, Task.add_drop ((s.setNode a node).tasks t) hfree a x,
    Function.update_eq_self]

/-- **Whatever a command does to its descriptor in between**, once it is closed the state is the
one before, but for the block of the node. -/
theorem opening_close (hcounted : Counted t s) (h : CanRead s fuel t path node f i)
    (x : FileDescript) (hx : x.file = a) :
    ((s.opening t i a node).setFile t i (some x)).close t i = some (0, s.setNode a node) := by
  obtain ⟨hgood, hheader⟩ := opening_good (a := a) hcounted h
  have hset : goodFile (((s.opening t i a node).setFile t i (some x)).tasks t) i = some x := by
    rw [setFile_tasks, if_pos rfl]
    exact goodFile_setFile hgood x
  have hnode : ((s.opening t i a node).setFile t i (some x)).nodes x.file =
      (s.opening t i a node).nodes a := by
    rw [hx]
    rfl
  rw [close_good hset (f := f) (by rw [hnode]; exact hheader), opening_drop h.slot]

end Opened

end OsThing.Fs

namespace OsThing.Commands

open Fs Stdio Runs Numerals

/-! ### What is printed -/

/-- The numeral that `%d` prints. -/
def decimal (i : Int) : List UInt8 := spell decimalLetter (numeral 10 i.toInt32.toUInt32.toNat)

theorem sayNum_eq (i : Int) : sayNum i = some (decimal i) := by
  unfold sayNum printNum
  rw [printDigits_eq decimalLetter (by decide) (by decide), Option.map_some]
  exact congrArg some (consoleBytes_kputchar _)

/-- The lines that `sh_list` prints for entries, of which there were `items` before. -/
def lines : Nat → List RamfsDirent → List UInt8
  | _, [] => []
  | items, e :: rest =>
      decimal e.inode ++ say ":" ++ Kshell.bytes e.name ++ say "\t" ++
        (if (items + 1) % 8 = 0 then say "\n" else []) ++ lines (items + 1) rest

/-! ### The loops -/

section Loops

variable {t : Nat} {fp : Int} {f : FileHeader}

/-- The last round, at the end of the file. -/
theorem catLoop_end (raw : Nat → UInt8) (turns : Nat) {s : Vfs} {d : FileDescript}
    (hd : goodFile (s.tasks t) fp = some d) (hf : s.header (s.nodes d.file) = some f)
    (hend : f.size.toNat - d.rOffset.toNat = 0) :
    ∃ d', d'.file = d.file ∧
      catLoop t fp raw (turns + 1) s = some ([], s.setFile t fp (some d')) := by
  have hcount : 0 = min (512 : UInt32).toNat (f.size.toNat - d.rOffset.toNat) := by omega
  refine ⟨{ d with rOffset := d.rOffset + UInt32.ofNat 0 }, rfl, ?_⟩
  unfold catLoop
  rw [read_chunk raw (by decide) hd hf hcount]
  rfl

/-- `sh_cat` shows what is left of the file, in as many rounds as it takes. -/
theorem catLoop_shows (raw : Nat → UInt8) : ∀ (k : Nat) (s : Vfs) (d : FileDescript),
    goodFile (s.tasks t) fp = some d → s.header (s.nodes d.file) = some f →
      d.rOffset.toNat ≤ f.size.toNat → f.size.toNat - d.rOffset.toNat ≤ 512 * k →
        ∃ d', d'.file = d.file ∧ catLoop t fp raw (k + 1) s =
          some (f.bytesFrom raw d.rOffset.toNat (f.size.toNat - d.rOffset.toNat),
            s.setFile t fp (some d')) := by
  intro k
  induction k with
  | zero =>
      intro s d hd hf hle hleft
      rw [show f.size.toNat - d.rOffset.toNat = 0 by omega]
      exact catLoop_end raw 0 hd hf (by omega)
  | succ k ih =>
      intro s d hd hf hle hleft
      by_cases hend : f.size.toNat - d.rOffset.toNat = 0
      · rw [hend]
        exact catLoop_end raw (k + 1) hd hf hend
      have h512 : (512 : UInt32).toNat = 512 := rfl
      obtain ⟨count, hcount⟩ : ∃ count,
          count = min (512 : UInt32).toNat (f.size.toNat - d.rOffset.toNat) := ⟨_, rfl⟩
      let d₁ : FileDescript := { d with rOffset := d.rOffset + UInt32.ofNat count }
      have hsize := f.size.toNat_lt
      have hoffset : d₁.rOffset.toNat = d.rOffset.toNat + count := by
        have hnat : (UInt32.ofNat count).toNat = count :=
          UInt32.toNat_ofNat_of_lt (by show count < 2 ^ 32; omega)
        show (d.rOffset + UInt32.ofNat count).toNat = _
        rw [UInt32.toNat_add, hnat, Nat.mod_eq_of_lt (by omega)]
      have hgood : goodFile ((s.setFile t fp (some d₁)).tasks t) fp = some d₁ := by
        rw [setFile_tasks, if_pos rfl]
        exact goodFile_setFile hd d₁
      obtain ⟨d', hd', hrest⟩ := ih (s.setFile t fp (some d₁)) d₁ hgood hf (by omega) (by omega)
      have hall : f.size.toNat - d.rOffset.toNat =
          count + (f.size.toNat - d₁.rOffset.toNat) := by omega
      have hlength : (f.bytesFrom raw d.rOffset.toNat count).length = count := by
        unfold FileHeader.bytesFrom
        rw [List.length_map, List.length_range]
      refine ⟨d', hd', ?_⟩
      unfold catLoop
      rw [read_chunk raw (by decide) hd hf hcount, Option.bind_some]
      dsimp only
      rw [if_pos (by omega), hrest, Option.map_some, setFile_again, hall,
        FileHeader.bytesFrom_add, ← hoffset, Int.toNat_natCast,
        List.take_of_length_le (Nat.le_of_eq hlength)]

/-- A `readdir` of an entry that there is, or of the end. -/
theorem readdir_entry {dirs : List RamfsDirent} {s : Vfs} {d : FileDescript} (hdir : f.type = FS_DIR)
    (hdata : f.data = .entries dirs) (hd : goodFile (s.tasks t) fp = some d)
    (hf : s.header (s.nodes d.file) = some f) (hfits : d.dOffset.toNat < 2 ^ 31) (dirp : Dirent) :
    let s' := s.setFile t fp (some { d with dOffset := d.dOffset + 1 })
    s.readdirCall t fp dirp =
      some ((dirs[d.dOffset.toNat]?).elim (0, dirp, s') fun e => (1, e.copied, s')) := by
  intro s'
  unfold Vfs.readdirCall
  rw [hd]
  dsimp only
  rw [readdir_eq, hf, Option.bind_some, asInt_eq, if_pos hfits]
  unfold FileHeader.readEntry
  rw [if_neg (not_not.mpr hdir), hdata]
  dsimp only
  rw [Int.toNat_natCast]
  rcases dirs[d.dOffset.toNat]? with _ | e
  · rfl
  · rfl

/-- Of two stores into a block the first is lost. -/
theorem setNode_setFile (s : Vfs) (t e : Nat) (fp : Int) (x y : FileNode)
    (d d' : Option FileDescript) :
    ((((s.setFile t fp d).setNode e x).setFile t fp d').setNode e y) =
      (s.setFile t fp d').setNode e y := by
  rw [← setFile_again s t fp d d']
  unfold Vfs.setNode Vfs.setFile Vfs.modifyTask
  dsimp only
  rw [Function.update_idem]

/-- `sh_list` prints a line for every entry that is left. -/
theorem listLoop_shows {dirs : List RamfsDirent} (hdir : f.type = FS_DIR)
    (hdata : f.data = .entries dirs) (hfits : dirs.length < 2 ^ 31)
    (hnames : ∀ entry ∈ dirs, entry.name.length < MAX_NAME_LEN) {e : Nat}
    (asNode : Dirent → FileNode) :
    ∀ (rest : List RamfsDirent) (turns : Nat) (entry : Dirent) (s : Vfs) (d : FileDescript),
      d.file ≠ e → goodFile (s.tasks t) fp = some d → s.header (s.nodes d.file) = some f →
        d.dOffset.toNat ≤ dirs.length → dirs.drop d.dOffset.toNat = rest → rest.length < turns →
          ∃ d' x, d'.file = d.file ∧ listLoop t fp e asNode turns d.dOffset.toNat entry s =
            some (lines d.dOffset.toNat rest, (s.setFile t fp (some d')).setNode e x) := by
  intro rest
  induction rest with
  | nil =>
      intro turns entry s d he hd hf hle hrest hturns
      obtain ⟨turns, rfl⟩ := Nat.exists_eq_succ_of_ne_zero (Nat.ne_of_gt hturns)
      have hnone : dirs[d.dOffset.toNat]? = none :=
        List.getElem?_eq_none (List.drop_eq_nil_iff.mp hrest)
      -- Nothing has been stored into the block, which is to say what was there.
      refine ⟨{ d with dOffset := d.dOffset + 1 }, s.nodes e, rfl, ?_⟩
      have hsame : (s.setFile t fp (some { d with dOffset := d.dOffset + 1 })).setNode e (s.nodes e) =
          s.setFile t fp (some { d with dOffset := d.dOffset + 1 }) := by
        unfold Vfs.setNode Vfs.setFile Vfs.modifyTask
        dsimp only
        rw [Function.update_eq_self]
      rw [hsame]
      unfold listLoop
      rw [readdir_entry hdir hdata hd hf (by omega), hnone]
      rfl
  | cons entry' rest ih =>
      intro turns entry s d he hd hf hle hrest hturns
      obtain ⟨turns, rfl⟩ := Nat.exists_eq_succ_of_ne_zero (Nat.ne_of_gt (Nat.zero_lt_of_lt hturns))
      have hsome : dirs[d.dOffset.toNat]? = some entry' := by
        rw [← List.head?_drop, hrest]
        rfl
      have hlt : d.dOffset.toNat < dirs.length := (List.getElem?_eq_some_iff.mp hsome).1
      have hname : ¬ MAX_NAME_LEN ≤ entry'.copied.name.length :=
        Nat.not_le.mpr (hnames entry' (List.mem_of_getElem? hsome))
      let d₁ : FileDescript := { d with dOffset := d.dOffset + 1 }
      let s₁ := (s.setFile t fp (some d₁)).setNode e (asNode entry'.copied)
      have hnext : d₁.dOffset.toNat = d.dOffset.toNat + 1 := toNat_succ (by omega)
      have hgood : goodFile (s₁.tasks t) fp = some d₁ := by
        show goodFile ((s.setFile t fp (some d₁)).tasks t) fp = some d₁
        rw [setFile_tasks, if_pos rfl]
        exact goodFile_setFile hd d₁
      have hheader : s₁.header (s₁.nodes d₁.file) = some f := by
        rw [show s₁.nodes d₁.file = s.nodes d.file from Function.update_of_ne he ..]
        exact hf
      have htail : dirs.drop d₁.dOffset.toNat = rest := by
        rw [hnext, ← List.tail_drop, hrest]
        rfl
      obtain ⟨d', x, hd', hlist⟩ := ih turns entry'.copied s₁ d₁ he hgood hheader (by omega)
        htail (Nat.lt_of_succ_lt_succ hturns)
      refine ⟨d', x, hd', ?_⟩
      unfold listLoop
      rw [readdir_entry hdir hdata hd hf (by omega), hsome, Option.bind_some]
      dsimp only [Option.elim_some]
      rw [if_pos (by decide), if_neg hname, sayNum_eq, Option.bind_some, ← hnext, hlist, Option.map_some,
        setNode_setFile, hnext]
      rfl

end Loops

/-! ### The commands -/

section Commands

variable {fuel t a : Nat} {s : Vfs} {calls : List Fs.Call} {systems : List Nat} {fs root : Nat}

/-- What every state has that a run of calls gets to. -/
theorem reached (hrun : runAll (vfsStep fuel) (Vfs.boot systems fs root) calls = some s) :
    Sound s ∧ Counted t s := by
  have hnone : Counted t (Vfs.boot systems fs root) := by
    refine ⟨?_, fun i hi => absurd hi Bool.false_ne_true⟩
    refine (Finset.card_eq_zero.mpr (Finset.eq_empty_of_forall_notMem fun i hi => ?_)).symm
    exact Bool.false_ne_true (mem_usedFiles.mp hi).2
  exact ⟨(sound_boot systems fs root).run hrun,
    runAll_keeps (fun s c s' hs hstep => counted_step s c s' hs hstep) hnone hrun⟩

/--
**`cat` shows the file.**  In every state that a run of calls gets to: if the task can read what
the path leads to, `cat` prints the bytes of the file, all of them and in order, and then the
number of its descriptor, and the state is the one before but for the block of the node.  If not,
and `open` comes back, it says so, and leaves files and descriptors alone.
-/
theorem cat_shows_file (hrun : runAll (vfsStep fuel) (Vfs.boot systems fs root) calls = some s)
    (ha : a ∉ s.live) (raw : Nat → UInt8) (cmd path : Name) (k : Nat) :
    (∀ node f i, CanRead s fuel t path node f i → f.size.toNat ≤ 512 * k →
      shCat fuel (k + 1) t a raw [cmd, path] s =
        some (0, f.bytesFrom raw 0 f.size.toNat ++ say "Got fp " ++ decimal i ++ say "\n",
          s.setNode a node)) ∧
      ∀ fp s', s.openCall fuel t path O_RDONLY a = some (fp, s') →
        (¬ ∃ node f i, CanRead s fuel t path node f i) →
          shCat fuel (k + 1) t a raw [cmd, path] s = some (1, say "Could not open file\n", s') ∧
            s'.ramfs = s.ramfs ∧ s'.tasks = s.tasks := by
  obtain ⟨hsound, hcounted⟩ := reached (t := t) hrun
  have hroot : (s.tasks t).root ≠ a := fun h => ha (h ▸ hsound.root t)
  have hcwd : (s.tasks t).cwd ≠ a := fun h => ha (h ▸ hsound.cwd t)
  constructor
  · intro node f i hread hk
    obtain ⟨hgood, hheader⟩ := opening_good (a := a) hcounted hread
    obtain ⟨d', hd', hloop⟩ := catLoop_shows raw k (s.opening t i a node) _ hgood hheader
      (Nat.zero_le _) hk
    unfold shCat
    dsimp only
    rw [open_reads hroot hcwd ha hread, Option.bind_some]
    dsimp only
    rw [if_neg (by omega), hloop, Option.bind_some]
    dsimp only
    rw [sayNum_eq, Option.bind_some, opening_close hcounted hread d' hd']
    rfl
  · intro fp s' hopen hcannot
    rcases open_rdonly_cases hroot hcwd hopen with ⟨hfp, hramfs, htasks⟩ | ⟨node, f, i, hread, -⟩
    · refine ⟨?_, hramfs, htasks⟩
      unfold shCat
      dsimp only
      rw [hopen, Option.bind_some]
      exact if_pos hfp
    · exact absurd ⟨node, f, i, hread⟩ hcannot

/-- A file of one byte, shown after it was written. -/
theorem cat_shows_file_a : ∃ s, runAll (vfsStep 4) (Vfs.boot [0x1000] 0x1000 0x2000)
    [⟨0, .open ['a'] 68 0x3000⟩, ⟨0, .write 0 (fun _ => 0x61) (fun _ => 0) 1⟩, ⟨0, .close 0⟩] =
      some s ∧
    shCat 4 2 0 0x3000 (fun _ => 0) [['c', 'a', 't'], ['a']] s =
      some (0, [0x61] ++ say "Got fp " ++ decimal 0 ++ say "\n", s.setNode 0x3000 ⟨2, 0x1000⟩) := by
  have hfacts : (runAll (vfsStep 4) (Vfs.boot [0x1000] 0x1000 0x2000)
      [⟨0, .open ['a'] 68 0x3000⟩, ⟨0, .write 0 (fun _ => 0x61) (fun _ => 0) 1⟩,
        ⟨0, .close 0⟩]).map (fun s => (fsFindPath s 4 0 ['a'] ⟨0, 0⟩, s.live,
          (s.tasks 0).fileCount, (s.tasks 0).freeSlot)) =
      some (.ok (0, ⟨2, 0x1000⟩), [0x2000], 0, some 0) := by
    decide
  have hfile : (runAll (vfsStep 4) (Vfs.boot [0x1000] 0x1000 0x2000)
      [⟨0, .open ['a'] 68 0x3000⟩, ⟨0, .write 0 (fun _ => 0x61) (fun _ => 0) 1⟩,
        ⟨0, .close 0⟩]).map (fun s => (s.header ⟨2, 0x1000⟩).map fun f =>
          (f.bytesFrom (fun _ => 0) 0 f.size.toNat, f.size,
            goodOp ((s.tasks 0).perms f.uid f.gid f.mask) O_RDONLY)) =
      some (some ([0x61], 1, true)) := by
    decide
  obtain ⟨s, hrun, hfacts⟩ := Option.map_eq_some_iff.mp hfacts
  simp only [Prod.mk.injEq] at hfacts
  obtain ⟨hfind, hlive, hcount, hslot⟩ := hfacts
  rw [hrun, Option.map_some] at hfile
  obtain ⟨f, hf, hfile⟩ := Option.map_eq_some_iff.mp (Option.some.inj hfile)
  simp only [Prod.mk.injEq] at hfile
  obtain ⟨hbytes, hsize, hgood⟩ := hfile
  refine ⟨s, hrun, ?_⟩
  have ha : 0x3000 ∉ s.live := by
    rw [hlive]
    decide
  have hshown := (cat_shows_file hrun ha (fun _ => 0) ['c', 'a', 't'] ['a'] 1).1 ⟨2, 0x1000⟩ f 0
    ⟨hfind, hf, hgood, by rw [hcount]; decide, hslot⟩ (by rw [hsize]; decide)
  rw [hbytes] at hshown
  exact hshown

/--
**`list` shows the directory.**  In every state that a run of calls gets to in which the task can
read a directory whose names are not too long, and with a block for the entry that is not the one
that `open` has freed: `list` prints one line for each of the entries, in the order in which they
were made, with a line feed behind every eighth, and the state is the one before but for the two
blocks.
-/
theorem list_shows_directory
    (hrun : runAll (vfsStep fuel) (Vfs.boot systems fs root) calls = some s) (ha : a ∉ s.live)
    (argv : List Name) {node : FileNode} {f : FileHeader} {i : Nat} {dirs : List RamfsDirent}
    (hread : CanRead s fuel t (argv.getD 1 ['.']) node f i) (hdir : f.type = FS_DIR)
    (hdata : f.data = .entries dirs) (hfits : dirs.length < 2 ^ 31)
    (hnames : ∀ entry ∈ dirs, entry.name.length < MAX_NAME_LEN) {turns : Nat} (hturns : dirs.length < turns)
    {e : Nat} (he : a ≠ e) (asNode : Dirent → FileNode) (entry : Dirent) :
    ∃ x, shList fuel turns t a e asNode entry argv s =
      some (0, lines 0 dirs ++ say "\n", (s.setNode a node).setNode e x) := by
  obtain ⟨hsound, hcounted⟩ := reached (t := t) hrun
  have hroot : (s.tasks t).root ≠ a := fun h => ha (h ▸ hsound.root t)
  have hcwd : (s.tasks t).cwd ≠ a := fun h => ha (h ▸ hsound.cwd t)
  obtain ⟨hgood, hheader⟩ := opening_good (a := a) hcounted hread
  obtain ⟨d', x, hd', hloop⟩ : ∃ d' x, d'.file = a ∧
      listLoop t i e asNode turns 0 entry (s.opening t i a node) =
        some (lines 0 dirs, ((s.opening t i a node).setFile t i (some d')).setNode e x) :=
    listLoop_shows hdir hdata hfits hnames asNode dirs turns entry (s.opening t i a node) _ he hgood
      hheader (Nat.zero_le _) rfl hturns
  have hset : goodFile (((s.opening t i a node).setFile t i (some d')).tasks t) i = some d' := by
    rw [setFile_tasks, if_pos rfl]
    exact goodFile_setFile hgood d'
  have hi : ¬ (i : Int) < 0 := Int.not_lt.mpr (Int.natCast_nonneg i)
  refine ⟨x, ?_⟩
  unfold shList
  dsimp only
  rw [open_reads hroot hcwd ha hread, Option.bind_some]
  dsimp only
  rw [hloop, Option.bind_some]
  dsimp only
  rw [close_setNode hset (by rw [hd']; exact he), opening_close hcounted hread d' hd', if_neg hi]
  rfl

/-- The root with two files, listed by its default. -/
theorem list_shows_directory_ab : ∃ s, runAll (vfsStep 4) (Vfs.boot [0x1000] 0x1000 0x2000)
    [⟨0, .open ['a'] 68 0x3000⟩, ⟨0, .open ['b'] 68 0x3000⟩] = some s ∧
    ∃ x, shList 4 3 0 0x3000 0x4000 (fun entry => ⟨entry.inode, 0⟩) ⟨0, 0, 0, []⟩ [['l', 's']] s =
      some (0, lines 0 (entriesAt s ⟨1, 0x1000⟩) ++ say "\n",
        (s.setNode 0x3000 ⟨1, 0x1000⟩).setNode 0x4000 x) := by
  have hfacts : (runAll (vfsStep 4) (Vfs.boot [0x1000] 0x1000 0x2000)
      [⟨0, .open ['a'] 68 0x3000⟩, ⟨0, .open ['b'] 68 0x3000⟩]).map (fun s =>
        (fsFindPath s 4 0 ['.'] ⟨0, 0⟩, s.live, (s.tasks 0).fileCount, (s.tasks 0).freeSlot)) =
      some (.ok (0, ⟨1, 0x1000⟩), [0x2000], 2, some 2) := by
    decide
  have hfile : (runAll (vfsStep 4) (Vfs.boot [0x1000] 0x1000 0x2000)
      [⟨0, .open ['a'] 68 0x3000⟩, ⟨0, .open ['b'] 68 0x3000⟩]).map (fun s =>
        ((entriesAt s ⟨1, 0x1000⟩).map fun entry => entry.name.length, (s.header ⟨1, 0x1000⟩).map fun f =>
          (f.type, goodOp ((s.tasks 0).perms f.uid f.gid f.mask) O_RDONLY))) =
      some ([1, 1], some (FS_DIR, true)) := by
    decide
  obtain ⟨s, hrun, hfacts⟩ := Option.map_eq_some_iff.mp hfacts
  simp only [Prod.mk.injEq] at hfacts
  obtain ⟨hfind, hlive, hcount, hslot⟩ := hfacts
  rw [hrun, Option.map_some] at hfile
  obtain ⟨hlength, hheader⟩ := Prod.mk.inj (Option.some.inj hfile)
  obtain ⟨f, hf, hfile⟩ := Option.map_eq_some_iff.mp hheader
  obtain ⟨hdir, hgood⟩ := Prod.mk.inj hfile
  refine ⟨s, hrun, ?_⟩
  have ha : 0x3000 ∉ s.live := by
    rw [hlive]
    decide
  have hdata : f.data = .entries (entriesAt s ⟨1, 0x1000⟩) := by
    unfold entriesAt at hlength ⊢
    rw [hf, Option.map_some] at hlength ⊢
    cases hd : f.data with
    | entries dirs => rfl
    | buffer b =>
        rw [hd] at hlength
        cases hlength
  have htwo : (entriesAt s ⟨1, 0x1000⟩).length = 2 := by
    have hmap := congrArg List.length hlength
    rwa [List.length_map] at hmap
  have hnames : ∀ entry ∈ entriesAt s ⟨1, 0x1000⟩, entry.name.length < MAX_NAME_LEN := by
    intro entry hentry
    have hmem : entry.name.length ∈ [1, 1] := hlength ▸ List.mem_map_of_mem hentry
    have hone : entry.name.length = 1 := by simpa using hmem
    rw [hone]
    decide
  exact list_shows_directory hrun ha [['l', 's']]
    ⟨hfind, hf, hgood, by rw [hcount]; decide, hslot⟩ hdir hdata (by rw [htwo]; decide) hnames
    (by rw [htwo]; decide) (by decide) _ _

end Commands

end OsThing.Commands
