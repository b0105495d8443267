/-
The walk to a directory before and after a file is made there.

The entry of a new file stands behind all others, so every name that was found before is
found again, at the same file.  What may change on the way is the file that the new one is:
a walk that has come through a mount can be led there by an entry it read elsewhere.  Such
a walk never gets to a directory again, `Lost`, and so a walk that does get to the
directory of the new file gets there again, `walk_created`.
-/
import OsThing.Proofs.Termination
import OsThing.Proofs.Walk

namespace OsThing.Fs

open Chain

/-- Entries name files that exist, and that were made after the directory. -/
def EntriesNamed (s : Vfs) : Prop :=
  ∀ node f dirs, s.header node = some f → f.data = .entries dirs →
    ∀ e ∈ dirs, node.inode < e.inode ∧ (s.header ⟨e.inode, node.fs⟩).isSome

/-! ### One turn -/

/-- The two walks are at the same node, and know the same of it as far as walks go. -/
structure SamePlace (p p' : Place) : Prop where
  temp : p'.temp = p.temp
  buffer : p'.buffer = p.buffer
  type : p'.info.type = p.info.type
  mountId : p'.info.mountId = p.info.mountId

/-- Following a mount leads nowhere else, or always to the same node. -/
theorem followMount_cases {s : Vfs} {info : FileInfo} {node temp : FileNode}
    (h : followMount s info node = .ok temp) :
    temp = node ∨ ∀ node', followMount s info node' = .ok temp := by
  unfold followMount getMountNode at h
  split at h
  · exact Or.inl (Except.ok.inj h).symm
  · rename_i hmount
    rcases hseek : seek s.mounts.store.next
        (fun p => (s.mounts.store.node p).val = info.mountId) s.mounts.store.count
        s.mounts.mountList with _ | (_ | move)
    · rw [hseek] at h
      cases h
    · rw [hseek] at h
      exact Or.inl (Except.ok.inj h).symm
    · refine Or.inr fun node' => ?_
      rw [hseek] at h
      unfold followMount getMountNode
      rw [if_neg hmount, hseek]
      exact h

/-- What is not a directory has no entries, and all that is found there is the entry that was
found before. -/
theorem scanDir_file {s : Vfs} {name : Name} {temp : FileNode} {h : FileHeader}
    (hh : s.header temp = some h) (htype : h.type ≠ FS_DIR) {fuel inode : Nat} {d : Int}
    {b b' : Dirent} (hscan : scanDir s name temp fuel d b = .ok (some inode, b')) :
    inode = b.inode ∧ b' = b := by
  by_cases hname : b.name = name
  · rcases fuel with _ | fuel
    · cases hscan
    · unfold scanDir at hscan
      rw [readdir_eq, hh, Option.bind_some] at hscan
      unfold FileHeader.readEntry at hscan
      rw [if_pos htype] at hscan
      dsimp only at hscan
      rw [if_neg (by decide), if_pos hname] at hscan
      obtain ⟨hinode, rfl⟩ := Prod.mk.inj (Except.ok.inj hscan)
      exact ⟨(Option.some.inj hinode).symm, rfl⟩
  · rw [scanDir_runs_on hh htype hname] at hscan
    cases hscan

/-- A walk that comes back from a node has found a header there. -/
theorem header_of_scanDir {s : Vfs} {name : Name} {temp : FileNode} {fuel : Nat} {d : Int}
    {b : Dirent} {r : Option Nat × Dirent} (h : scanDir s name temp fuel d b = .ok r) :
    ∃ f, s.header temp = some f := by
  rcases hheader : s.header temp with _ | f
  · rcases fuel with _ | fuel
    · cases h
    · unfold scanDir at h
      rw [readdir_eq, hheader, Option.bind_none] at h
      cases h
  · exact ⟨f, rfl⟩

/-- What is found in a header is found in one that reads the same as far as it goes. -/
theorem scanDir_kept {s s' : Vfs} {name : Name} {temp : FileNode} {f f' : FileHeader}
    (hf : s.header temp = some f) (hf' : s'.header temp = some f')
    (hread : ∀ b d r, f.readEntry b d = some r → r.1 ≠ 0 → f'.readEntry b d = some r)
    {fuel inode : Nat} {b' : Dirent} :
    ∀ {d : Int} {b : Dirent}, scanDir s name temp fuel d b = .ok (some inode, b') →
      scanDir s' name temp fuel d b = .ok (some inode, b') := by
  induction fuel with
  | zero => intro d b h; cases h
  | succ fuel ih =>
      intro d b h
      unfold scanDir at h ⊢
      rw [readdir_eq, hf, Option.bind_some] at h
      rw [readdir_eq, hf', Option.bind_some]
      rcases hentry : f.readEntry b d with _ | ⟨r, b₁⟩
      · rw [hentry] at h
        cases h
      rw [hentry] at h
      dsimp only at h
      split at h
      · cases h
      · rename_i hr
        rw [hread b d _ hentry hr]
        dsimp only
        rw [if_neg hr]
        split at h
        · rename_i hname
          rw [if_pos hname]
          exact h
        · rename_i hname
          rw [if_neg hname]
          exact ih h

/-- An entry more at the end of a directory. -/
theorem readEntry_enter {f : FileHeader} {dirs : List RamfsDirent} {e : RamfsDirent}
    (hdata : f.data = .entries dirs) {b : Dirent} {d : Int} {r : Int × Dirent}
    (h : f.readEntry b d = some r) (hr : r.1 ≠ 0) : (f.enter dirs e).readEntry b d = some r := by
  unfold FileHeader.readEntry at h ⊢
  rw [hdata] at h
  show (if f.type ≠ FS_DIR then _ else _) = _
  split at h
  · rename_i htype
    rw [if_pos htype]
    exact h
  · rename_i htype
    rw [if_neg htype]
    dsimp only [FileHeader.enter] at h ⊢
    rcases hentry : dirs[d.toNat]? with _ | dirty
    · rw [hentry] at h
      exact absurd (congrArg Prod.fst (Option.some.inj h)).symm hr
    · rw [hentry] at h
      rw [List.getElem?_append_left (List.getElem?_eq_some_iff.mp hentry).1, hentry]
      exact h

/-- A walk that takes its place for a directory is at one, or the mount it came through leads
to where it is. -/
def Arrived (s : Vfs) (p : Place) : Prop :=
  p.info.type = FS_DIR → IsDir s p.temp ∨ s.header p.temp = none ∨
    ∀ node, followMount s p.info node = .ok p.temp

/-- A walk that goes no further, or no further than where it is. -/
def Lost (s : Vfs) (p : Place) : Prop :=
  s.header p.temp = none ∨
    (¬ IsDir s p.temp ∧ s.header ⟨p.buffer.inode, p.temp.fs⟩ = none ∧
      ∀ node, followMount s p.info node = .ok p.temp)

theorem Lost.not_dir {s : Vfs} {p : Place} (h : Lost s p) : ¬ IsDir s p.temp := by
  rcases h with hnone | ⟨hdir, -⟩
  · rintro ⟨f, hf, -⟩
    rw [hnone] at hf
    cases hf
  · exact hdir

/-- What the walk knows of a file that is not there is what it knew before. -/
theorem getInfo_of_none {s : Vfs} {node : FileNode} {buf info : FileInfo}
    (hnone : s.header node = none) (h : s.getInfo node buf = some info) : info = buf := by
  rw [getInfo_eq_some h, hnone]
  rfl

theorem Lost.goName {s : Vfs} {fuel : Nat} {p q : Place} {name : Name} (h : Lost s p)
    (hgo : goName s fuel p name = .ok q) : Lost s q := by
  rcases goName_ok hgo with ⟨-, rfl⟩ | ⟨-, -, -, inode, hscan, hinfo, hfollow⟩
  · exact h
  obtain ⟨f, hf⟩ := header_of_scanDir hscan
  rcases h with hnone | ⟨hdir, hbuffer, hmount⟩
  · rw [hnone] at hf
    cases hf
  · have htype : f.type ≠ FS_DIR := fun htype => hdir ⟨f, hf, htype⟩
    obtain ⟨rfl, hbuf⟩ := scanDir_file hf htype hscan
    have hsame : q.info = p.info := getInfo_of_none hbuffer hinfo
    rw [hsame, hmount] at hfollow
    have htemp : p.temp = q.temp := Except.ok.inj hfollow
    refine Or.inr ⟨htemp ▸ hdir, ?_, fun node => ?_⟩
    · rw [hbuf, ← htemp]
      exact hbuffer
    · rw [hsame, ← htemp]
      exact hmount node

theorem Arrived.goName {s : Vfs} {fuel : Nat} {p q : Place} {name : Name} (h : Arrived s p)
    (hgo : goName s fuel p name = .ok q) : Arrived s q := by
  rcases goName_ok hgo with ⟨-, rfl⟩ | ⟨-, -, -, inode, -, hinfo, hfollow⟩
  · exact h
  intro htype
  rcases followMount_cases hfollow with htemp | hall
  · rcases hheader : s.header ⟨inode, p.temp.fs⟩ with _ | g
    · exact Or.inr (Or.inl (htemp ▸ hheader))
    · refine Or.inl ⟨g, htemp ▸ hheader, ?_⟩
      rw [getInfo_of_header hheader] at hinfo
      rwa [← Option.some.inj hinfo] at htype
  · exact Or.inr (Or.inr hall)

variable {s s' : Vfs} {dir new : FileNode} {name : Name} {type : Nat}

/-- What is in a header that was there. -/
theorem Created.header (hc : Created s s' dir new name type) {node : FileNode} {f : FileHeader}
    (hf : s.header node = some f) : ∃ f', s'.header node = some f' ∧ f'.type = f.type ∧
      f'.mountId = f.mountId ∧
      ∀ b d r, f.readEntry b d = some r → r.1 ≠ 0 → f'.readEntry b d = some r := by
  obtain ⟨f₀, dirs, e, g, hdir, -, hdata, -, -, -, -, -, hfiles⟩ := hc.files
  have hne : node ≠ new := by
    rintro rfl
    rw [hc.old] at hf
    cases hf
  refine ⟨_, (hfiles node).trans ((if_neg hne).trans (congrArg _ hf)), ?_⟩
  split
  · rename_i heq
    obtain rfl : f₀ = f := Option.some.inj (hdir.symm.trans (heq ▸ hf))
    exact ⟨rfl, rfl, fun _ _ _ => readEntry_enter hdata⟩
  · exact ⟨rfl, rfl, fun _ _ _ h _ => h⟩

theorem Created.followMount (hc : Created s s' dir new name type) {info info' : FileInfo}
    (h : info'.mountId = info.mountId) (node : FileNode) :
    followMount s' info' node = followMount s info node := by
  unfold OsThing.Fs.followMount
  rw [h, hc.mounts, hc.zeroPage]

/-- Entries of directories name files, so a name that leads to no file was looked up in no
directory, after a mount. -/
theorem goName_lost (hentries : EntriesNamed s) {fuel inode : Nat} {p q : Place} {n : Name}
    (harrived : Arrived s p) (hdir : p.info.type = FS_DIR)
    (hscan : scanDir s n p.temp fuel 0 p.buffer = .ok (some inode, q.buffer))
    (hinfo : s.getInfo ⟨inode, p.temp.fs⟩ p.info = some q.info)
    (hfollow : OsThing.Fs.followMount s q.info ⟨inode, p.temp.fs⟩ = .ok q.temp)
    (hheader : s.header ⟨inode, p.temp.fs⟩ = none) : Lost s q := by
  obtain ⟨f, hf⟩ := header_of_scanDir hscan
  have hinfo' : q.info = p.info := getInfo_of_none hheader hinfo
  have hfile : ¬ IsDir s p.temp := by
    rintro ⟨f', hf', htype⟩
    obtain rfl : f = f' := Option.some.inj (hf.symm.trans hf')
    obtain ⟨dirs, hdata, hfound⟩ := scanDir_dir hf htype hscan
    obtain ⟨e, he, rfl⟩ := Option.map_eq_some_iff.mp hfound.symm
    have hnamed := (hentries _ f dirs hf hdata e (List.mem_of_find?_eq_some he)).2
    rw [hheader] at hnamed
    cases hnamed
  rcases followMount_cases hfollow with htemp | hall
  · exact Or.inl (htemp ▸ hheader)
  · have hmount : ∀ node, OsThing.Fs.followMount s p.info node = .ok p.temp := by
      rcases harrived hdir with hd | hnone | hall'
      · exact absurd hd hfile
      · rw [hnone] at hf
        cases hf
      · exact hall'
    have htemp : p.temp = q.temp :=
      Except.ok.inj ((hmount p.temp).symm.trans (hinfo' ▸ hall p.temp))
    obtain ⟨rfl, hbuffer⟩ := scanDir_file hf (fun htype => hfile ⟨f, hf, htype⟩) hscan
    refine Or.inr ⟨htemp ▸ hfile, ?_, hall⟩
    rw [hbuffer, ← htemp]
    exact hheader

/-- A name that leads on leads to the same place, or the walk is lost. -/
theorem goName_created (hc : Created s s' dir new name type) (hentries : EntriesNamed s) {fuel : Nat}
    {p p' q : Place} {n : Name} (hsame : SamePlace p p') (harrived : Arrived s p)
    (hgo : goName s fuel p n = .ok q) :
    (∃ q', goName s' fuel p' n = .ok q' ∧ SamePlace q q') ∨ Lost s q := by
  rcases goName_ok hgo with ⟨rfl, rfl⟩ | ⟨hdot, hup, hdir, inode, hscan, hinfo, hfollow⟩
  · exact Or.inl ⟨p', if_pos rfl, hsame⟩
  rcases hheader : s.header ⟨inode, p.temp.fs⟩ with _ | g
  · exact Or.inr (goName_lost hentries harrived hdir hscan hinfo hfollow hheader)
  · left
    obtain ⟨f, hf⟩ := header_of_scanDir hscan
    obtain ⟨f', hf', -, -, hread⟩ := hc.header hf
    obtain ⟨g', hg', htype, hmount, -⟩ := hc.header hheader
    have hinfo' : q.info = g.info ⟨inode, p.temp.fs⟩ := by
      rw [getInfo_of_header hheader] at hinfo
      exact (Option.some.inj hinfo).symm
    refine ⟨⟨q.temp, g'.info ⟨inode, p.temp.fs⟩, q.buffer⟩, ?_, rfl, rfl, ?_, ?_⟩
    · unfold goName
      rw [if_neg hdot, if_neg hup, if_pos (hsame.type.trans hdir), hsame.temp, hsame.buffer,
        scanDir_kept hf hf' hread hscan]
      dsimp only
      rw [getInfo_of_header hg']
      dsimp only
      have hid : (g'.info ⟨inode, p.temp.fs⟩).mountId = q.info.mountId := hinfo' ▸ hmount
      rw [hc.followMount hid, hfollow]
    · rw [hinfo']
      exact htype
    · rw [hinfo']
      exact hmount

/-- **A walk that gets to a directory gets there again.** -/
theorem walk_created (hc : Created s s' dir new name type) (hentries : EntriesNamed s) {fuel : Nat} :
    ∀ {names : List Name} {p p' q : Place}, SamePlace p p' → Arrived s p →
      walk s fuel p names = .ok q → IsDir s q.temp →
      ∃ q', walk s' fuel p' names = .ok q' ∧ SamePlace q q' := by
  intro names
  induction names with
  | nil =>
      intro p p' q hsame _ hwalk _
      obtain rfl := Except.ok.inj hwalk
      exact ⟨p', rfl, hsame⟩
  | cons n rest ih =>
      intro p p' q hsame harrived hwalk hdir
      rw [walk_cons] at hwalk ⊢
      rcases hgo : goName s fuel p n with halt | p₁
      · rw [hgo] at hwalk
        cases hwalk
      rw [hgo] at hwalk
      have hwalk : walk s fuel p₁ rest = .ok q := hwalk
      rcases goName_created hc hentries hsame harrived hgo with ⟨p₁', hgo', hsame₁⟩ | hlost
      · rw [hgo']
        exact ih hsame₁ (harrived.goName hgo) hwalk hdir
      · have hlost' : Lost s q := walk_keeps (fun _ _ _ => Lost.goName) hlost hwalk
        exact absurd hdir hlost'.not_dir

/-- Both walks start at the same place. -/
theorem startAt_created (hc : Created s s' dir new name FS_FILE) {node : FileNode} {p : Place}
    (h : startAt s node = .ok p) :
    p.temp = node ∧ Arrived s p ∧ ∃ p', startAt s' node = .ok p' ∧ SamePlace p p' := by
  unfold startAt at h
  split at h
  · cases h
  rename_i info hinfo
  obtain rfl := Except.ok.inj h
  refine ⟨rfl, fun htype => ?_, ?_⟩
  · rcases hheader : s.header node with _ | f
    · exact Or.inr (Or.inl rfl)
    · rw [getInfo_of_header hheader] at hinfo
      obtain rfl := Option.some.inj hinfo
      exact Or.inl ⟨f, hheader, htype⟩
  · have hsystem : (s.ramfs node.fs).isSome := by
      unfold Vfs.getInfo at hinfo
      obtain ⟨head, hhead, -⟩ := Option.map_eq_some_iff.mp hinfo
      exact Option.isSome_of_eq_some hhead
    obtain ⟨head', hhead'⟩ := Option.isSome_iff_exists.mp (hc.systems _ hsystem)
    have hinfo' : s'.getInfo node FileInfo.zero =
        some (ramfsGetInfo head' node FileInfo.zero).2 := by
      unfold Vfs.getInfo
      rw [hhead', Option.map_some]
    have hsame : (ramfsGetInfo head' node FileInfo.zero).2.type = info.type ∧
        (ramfsGetInfo head' node FileInfo.zero).2.mountId = info.mountId := by
      rw [getInfo_eq_some hinfo, getInfo_eq_some hinfo']
      rcases hheader : s.header node with _ | f
      · obtain ⟨_, _, _, g, -, -, -, -, -, htype, hmount, -, hfiles⟩ := hc.files
        rw [hfiles, hheader]
        split
        · exact ⟨htype, hmount⟩
        · exact ⟨rfl, rfl⟩
      · obtain ⟨f', hf', htype, hmount, -⟩ := hc.header hheader
        rw [hf']
        exact ⟨htype, hmount⟩
    unfold startAt
    rw [hinfo']
    exact ⟨_, rfl, rfl, rfl, hsame.1, hsame.2⟩

/-- **The lookup of a directory gets there again.** -/
theorem locate_created (hc : Created s s' dir new name FS_FILE) (hentries : EntriesNamed s)
    {fuel t : Nat} {path : Name} {p : Place}
    (hstart : startNode s' t path = startNode s t path) (h : locate s fuel t path = .ok p)
    (hdir : IsDir s p.temp) : ∃ p', locate s' fuel t path = .ok p' ∧ SamePlace p p' := by
  unfold locate at h ⊢
  rw [hstart]
  rcases hp₀ : startAt s (startNode s t path) with halt | p₀
  · rw [hp₀] at h
    cases h
  rw [hp₀] at h
  obtain ⟨-, harrived, p₀', hp₀', hsame⟩ := startAt_created hc hp₀
  rw [hp₀']
  exact walk_created hc hentries hsame harrived h hdir

/-! ### The last turn -/

/-- Where nothing was found, the new entry is found now. -/
theorem scanDir_new {temp : FileNode} {f f' : FileHeader} {dirs : List RamfsDirent}
    {e : RamfsDirent} (hf : s.header temp = some f) (hf' : s'.header temp = some f')
    (hdata : f.data = .entries dirs) (hdata' : f'.data = .entries (dirs ++ [e]))
    (htype : f.type = FS_DIR) (htype' : f'.type = FS_DIR) (hname : e.name = name) {fuel : Nat}
    {b₁ : Dirent} :
    ∀ {d : Nat} {b : Dirent}, scanDir s name temp fuel d b = .ok (none, b₁) → d ≤ dirs.length →
      ∃ b₂, scanDir s' name temp fuel d b = .ok (some e.inode, b₂) := by
  induction fuel with
  | zero => intro d b h _; cases h
  | succ fuel ih =>
      intro d b h hd
      obtain ⟨hend, hmore⟩ := readdir_dir hf htype hdata d b
      obtain ⟨-, hmore'⟩ := readdir_dir hf' htype' hdata' d b
      unfold scanDir at h ⊢
      rcases hentry : dirs[d]? with _ | dirty
      · -- the old entries end here
        have hlen : d = dirs.length := Nat.le_antisymm hd (List.getElem?_eq_none_iff.mp hentry)
        rw [hmore' e (hlen ▸ List.getElem?_concat_length ..)]
        dsimp only
        rw [if_neg (by decide)]
        exact ⟨_, if_pos hname⟩
      · have hlt := (List.getElem?_eq_some_iff.mp hentry).1
        rw [hmore dirty hentry] at h
        rw [hmore' dirty ((List.getElem?_append_left hlt).trans hentry)]
        dsimp only at h ⊢
        rw [if_neg (by decide)] at h ⊢
        split at h
        · cases h
        · rename_i hne
          rw [if_neg hne]
          exact ih h hlt

/-- The name that was missing in the directory is there. -/
theorem goName_new (hc : Created s s' dir new name type) {fuel : Nat} {p p' : Place}
    (hsame : SamePlace p p') (htemp : p.temp = dir)
    (h : goName s fuel p name = .error (.failed (-ENOENT))) :
    ∃ q', goName s' fuel p' name = .ok q' := by
  obtain ⟨f, dirs, e, g, hf, htype, hdata, hinode, hname, -, hmount, -, hfiles⟩ := hc.files
  obtain ⟨hdot, ⟨-, herr⟩ | ⟨-, herr⟩ | ⟨hup, hdir, -, b₁, hscan⟩⟩ := goName_failed h
  · exact absurd herr (by decide)
  · exact absurd herr (by decide)
  have hne : dir ≠ new := by
    rintro rfl
    rw [hc.old] at hf
    cases hf
  have hf' : s'.header dir = some (f.enter dirs e) := by
    rw [hfiles, if_neg hne, hf, Option.map_some, if_pos rfl]
  have hnew : (⟨new.inode, p'.temp.fs⟩ : FileNode) = new := by
    rw [hsame.temp, htemp, ← hc.fs]
  have hg : s'.header new = some g := (hfiles new).trans (if_pos rfl)
  rw [htemp] at hscan
  obtain ⟨b₂, hscan'⟩ := scanDir_new hf hf' hdata rfl htype htype hname
    (d := 0) hscan (Nat.zero_le _)
  unfold goName
  rw [if_neg hdot, if_neg hup, if_pos (hsame.type.trans hdir), hsame.buffer]
  have hscan'' : scanDir s' name p'.temp fuel 0 p.buffer = .ok (some new.inode, b₂) := by
    rw [hsame.temp, htemp, ← hinode]
    exact hscan'
  rw [hscan'']
  dsimp only
  rw [hnew, getInfo_of_header hg]
  dsimp only
  rw [followMount_zero s' new hmount]
  exact ⟨_, rfl⟩

/-- Any other error, and any other directory, is as before. -/
theorem goName_again (hc : Created s s' dir new name type) {fuel : Nat} {p p' : Place}
    (hsame : SamePlace p p') {n : Name} {err : Int}
    (h : goName s fuel p n = .error (.failed err)) (hother : err ≠ -ENOENT ∨ p.temp ≠ dir) :
    goName s' fuel p' n = .error (.failed err) := by
  obtain ⟨hdot, ⟨hup, rfl⟩ | ⟨hdir, rfl⟩ | ⟨hup, hdir, rfl, b₁, hscan⟩⟩ := goName_failed h
  · unfold goName
    rw [if_neg hdot, if_pos hup]
  · unfold goName
    rw [if_neg hdot, if_neg (hsame.type ▸ hdir : ¬ p'.info.type = FS_DIR)]
    split
    · rfl
    · rfl
  · have hne : p.temp ≠ dir := hother.resolve_left (not_not.mpr rfl)
    obtain ⟨f, hf⟩ := header_of_scanDir hscan
    have hheader : s'.header p.temp = s.header p.temp := by
      obtain ⟨_, _, _, _, -, -, -, -, -, -, -, -, hfiles⟩ := hc.files
      rw [hfiles, if_neg fun heq => ?_]
      · simp only [if_neg hne, Option.map_id']
      · rw [heq, hc.old] at hf
        cases hf
    unfold goName
    rw [if_neg hdot, if_neg hup, if_pos (hsame.type.trans hdir), hsame.temp, hsame.buffer,
      scanDir_congr (readdir_congr hheader), hscan]

end OsThing.Fs
