/-
When lookups stay below the directory they start at.

From one node an entry leads to another one, and so does a mount.  `fs_find_node` goes along
these edges only, with two exceptions.  A mount that was lost leads it to address 0.  And
after a mount it tests the type of the directory that was mounted over: if something else
was mounted there, the name it looks for is compared with what the buffer holds, the name
that was found last.

`MountsLead` excludes both.  It is a statement about the mounts alone, so it is kept by
every call that mounts nothing.
-/
import OsThing.Proofs.MountSeen
import Mathlib.Logic.Relation

namespace OsThing.Fs

open Runs

/-! ### The graph -/

/-- The directory `a` has an entry for `b`. -/
def EntryEdge (s : Vfs) (a b : FileNode) : Prop :=
  ∃ f dirs, s.header a = some f ∧ f.type = FS_DIR ∧ f.data = .entries dirs ∧
    ∃ e ∈ dirs, b = ⟨e.inode, a.fs⟩

/-- The mount list holds `b` under the mount id of `a`. -/
def MountEdge (s : Vfs) (a b : FileNode) : Prop :=
  ∃ f, s.header a = some f ∧ f.mountId ≠ 0 ∧ ∃ p < s.mounts.store.count,
    (s.mounts.store.node p).val = f.mountId ∧ (s.mounts.store.node p).data = some b

def Reaches (s : Vfs) : FileNode → FileNode → Prop :=
  Relation.ReflTransGen fun a b => EntryEdge s a b ∨ MountEdge s a b

/-- Whatever a lookup finds can be reached from where it starts. -/
def Confined (s : Vfs) : Prop :=
  ∀ fuel t path buf ret node, fsFindPath s fuel t path buf = .ok (ret, node) → 0 ≤ ret →
    Reaches s (startNode s t path) node

/-! ### One turn -/

/-- Only the last registration is under a mount id that walks come to, and over a directory
it is one of a directory. -/
structure MountsLead (s : Vfs) (ns : List FileNode) : Prop where
  ids : MountIds s ns
  last : ∀ node f, s.header node = some f → node.inode ≠ 1 → f.mountId ≠ 0 →
    ∃ before b, ns = before ++ [b] ∧ f.mountId = before.length + 2 ∧
      (f.type = FS_DIR → IsDir s b)

/-- The mount list still holds the last registration. -/
theorem Registered.last {t : MountTable} {before : List FileNode} {b : FileNode}
    (h : Registered t (before ++ [b])) : ∃ p < t.store.count,
      (t.store.node p).val = before.length + 2 ∧ (t.store.node p).data = some b := by
  have hlen : (before ++ [b]).length = before.length + 1 := List.length_append
  rcases h.list with ⟨hnil, -, -⟩ | ⟨-, hheld⟩
  · exact absurd hnil (List.append_ne_nil_of_right_ne_nil _ (List.cons_ne_nil _ _))
  · refine ⟨before.length + 1, by rw [hheld.count]; omega, hheld.val _ (by omega), ?_⟩
    rw [hheld.data _ (by omega), if_pos hlen.symm]
    exact List.getElem?_concat_length

/-- Where a mount leads. -/
theorem MountsLead.follow {s : Vfs} {ns : List FileNode} (h : MountsLead s ns) {node : FileNode}
    {f : FileHeader} (hf : s.header node = some f) (hroot : node.inode ≠ 1) {temp : FileNode}
    (hfollow : followMount s (f.info node) node = .ok temp) :
    (temp = node ∨ MountEdge s node temp) ∧ (f.type = FS_DIR → IsDir s temp) := by
  by_cases hid : f.mountId = 0
  · have hsame := followMount_zero s node (show (f.info node).mountId = 0 from hid)
    obtain rfl := Except.ok.inj (hfollow.symm.trans hsame)
    exact ⟨Or.inl rfl, fun htype => ⟨f, hf, htype⟩⟩
  · obtain ⟨before, b, rfl, hlast, hdir⟩ := h.last node f hf hroot hid
    have hlen : (before ++ [b]).length = before.length + 1 := List.length_append
    have htarget := followMount_old h.ids.mounts
      (show before.length < (before ++ [b]).length by omega)
      (show (f.info node).mountId = before.length + 2 from hlast) node
    rw [mountTarget_last] at htarget
    obtain rfl := Except.ok.inj (hfollow.symm.trans htarget)
    obtain ⟨p, hp, hval, hdata⟩ := h.ids.mounts.last
    exact ⟨Or.inr ⟨f, hf, hid, p, hp, hval.trans hlast.symm, hdata⟩, hdir⟩

/-- What a walk from `start` keeps: it is at a node that can be reached, and what it takes for a
directory is one. -/
structure Below (s : Vfs) (start : FileNode) (p : Place) : Prop where
  reaches : Reaches s start p.temp
  isDir : p.info.type = FS_DIR → IsDir s p.temp

/-- **One turn goes along edges.** -/
theorem Below.goName {s : Vfs} {ns : List FileNode} {start : FileNode} {fuel : Nat} {p q : Place}
    {name : Name} (h : MountsLead s ns) (hentries : EntriesNamed s) (hp : Below s start p)
    (hgo : Fs.goName s fuel p name = .ok q) : Below s start q := by
  by_cases hdot : name = ['.']
  · rw [eq_of_goName_dot hdot hgo]
    exact hp
  obtain ⟨-, htype, hscan, hinfo, hfollow⟩ := goName_entry hdot hgo
  obtain ⟨f, hf, hdir⟩ := hp.isDir htype
  obtain ⟨dirs, hdata, hfound⟩ := scanDir_dir hf hdir hscan
  obtain ⟨e, he, hinode⟩ := Option.map_eq_some_iff.mp hfound.symm
  have hmem := List.mem_of_find?_eq_some he
  obtain ⟨hlt, hfile⟩ := hentries p.temp f dirs hf hdata e hmem
  rw [hinode] at hlt hfile
  obtain ⟨g, hg⟩ := Option.isSome_iff_exists.mp hfile
  have hroot : q.buffer.inode ≠ 1 := by
    obtain ⟨head, -, hget⟩ := Option.bind_eq_some_iff.mp hf
    have hpos := RamfsHeader.getFileH_pos hget
    omega
  have hstep : Reaches s start ⟨q.buffer.inode, p.temp.fs⟩ :=
    hp.reaches.tail (Or.inl ⟨f, dirs, hf, hdir, hdata, e, hmem, by rw [hinode]⟩)
  rw [getInfo_of_header hg] at hinfo
  have hinfo := (Option.some.inj hinfo).symm
  rw [hinfo] at hfollow
  obtain ⟨hlead, hdir'⟩ := h.follow hg hroot hfollow
  refine ⟨?_, fun htype' => hdir' (by rwa [hinfo] at htype')⟩
  rcases hlead with htemp | hmount
  · rw [htemp]
    exact hstep
  · exact hstep.tail (Or.inr hmount)

/-- **Lookups are confined** as long as mounts lead somewhere. -/
theorem MountsLead.confined {s : Vfs} {ns : List FileNode} (h : MountsLead s ns)
    (hentries : EntriesNamed s) : Confined s := by
  intro fuel t path buf ret node hfind hret
  rcases (fsFindPath_found hfind hret).2 with ⟨-, rfl⟩ | ⟨q, hq, rfl⟩
  · exact Relation.ReflTransGen.refl
  unfold locate at hq
  rcases hstart : startAt s (startNode s t path) with halt | p
  · rw [hstart] at hq
    cases hq
  rw [hstart] at hq
  have hp : Below s (startNode s t path) p := by
    unfold startAt at hstart
    split at hstart
    · cases hstart
    · rename_i info hinfo
      obtain rfl := Except.ok.inj hstart
      refine ⟨Relation.ReflTransGen.refl, fun htype => ?_⟩
      have htype : info.type = FS_DIR := htype
      rw [getInfo_eq_some hinfo] at htype
      rcases hheader : s.header (startNode s t path) with _ | f
      · -- without a header nothing is taken for a directory
        rw [hheader] at htype
        exact absurd htype (show FileInfo.zero.type ≠ FS_DIR by decide)
      · rw [hheader] at htype
        exact ⟨f, hheader, htype⟩
  exact (walk_keeps (fun _ _ _ hp hgo => Below.goName h hentries hp hgo) hp hq).reaches

/-! ### Runs -/

/-- A call mounts only a directory over a directory that walks come to, and only while no other
file that they come to has a mount. -/
def KeepsMounts (fuel : Nat) (s : Vfs) (c : Call) : Prop :=
  ∀ type dir, Mounts fuel s c type dir → (IsSubdir s type → IsDir s dir) ∧
    ∀ node ≠ type, node.inode ≠ 1 → ¬ HasMount s node

theorem MountsLead.same {s s' : Vfs} {ns : List FileNode} (h : MountsLead s ns)
    (hsame : SameMounts s s') : MountsLead s' ns := by
  refine ⟨h.ids.same hsame, fun node f' hf' hroot hid => ?_⟩
  rcases hsame.ids node f' hf' with hnone | ⟨f, hf, hold⟩
  · exact absurd hnone hid
  · rw [hold] at hid ⊢
    obtain ⟨before, b, hns, hlast, hdir⟩ := h.last node f hf hroot hid
    refine ⟨before, b, hns, hlast, fun htype => ?_⟩
    obtain ⟨f'', hf'', htype', -⟩ := hsame.keeps node f hf
    obtain rfl := Option.some.inj (hf'.symm.trans hf'')
    exact (hdir (htype'.symm.trans htype)).keeps hsame.keeps

/-- **One mount.**  It takes away the node of the one before it, which nothing needs. -/
theorem MountsLead.mount {s s' : Vfs} {ns : List FileNode} {type dir : FileNode} {ret : Int}
    (h : MountsLead s ns) (hmount : s.fsMount type dir = some (ret, s'))
    (hdir : IsSubdir s type → IsDir s dir)
    (hothers : ∀ node ≠ type, node.inode ≠ 1 → ¬ HasMount s node) :
    MountsLead s' (ns ++ [dir]) := by
  have hkeeps := fsMount_keeps hmount
  have hm := h.ids.mounted hmount
  refine ⟨hm.ids, fun node f' hf' hroot hid => ?_⟩
  by_cases hnode : node = type
  · obtain ⟨f, hf, hself⟩ := hm.header_self
    rw [hnode, hself] at hf'
    obtain rfl := Option.some.inj hf'
    refine ⟨ns, dir, rfl, rfl, fun htype => ?_⟩
    exact (hdir ⟨⟨f, hf, htype⟩, hnode ▸ hroot⟩).keeps hkeeps
  · rw [hm.header_ne hnode] at hf'
    exact absurd ⟨f', hf', hid⟩ (hothers node hnode hroot)

/-- What keeps lookups confined. -/
structure ConfinedInv (s : Vfs) : Prop where
  sound : Sound s
  mounts : ∃ ns, MountsLead s ns

theorem ConfinedInv.step {fuel : Nat} {s s' : Vfs} {c : Call} (h : ConfinedInv s)
    (hstep : vfsStep fuel s c = some s') (hcond : KeepsMounts fuel s c) : ConfinedInv s' := by
  obtain ⟨ns, hlead⟩ := h.mounts
  refine ⟨h.sound.step hstep, ?_⟩
  rcases vfsStep_mounts hstep with ⟨type, dir, ret, hop, hmount⟩ | hsame
  · obtain ⟨hdir, hothers⟩ := hcond type dir hop
    exact ⟨ns ++ [dir], hlead.mount hmount hdir hothers⟩
  · exact ⟨ns, hlead.same hsame⟩

theorem confinedInv_boot (systems : List Nat) (fs root : Nat) :
    ConfinedInv (Vfs.boot systems fs root) := by
  obtain ⟨ramfs, mounts⟩ := fresh_boot systems fs root
  refine ⟨sound_boot systems fs root, [], ⟨mounts, ?_⟩, ?_⟩
  · exact fun node f hf => Or.inl ((fresh_boot systems fs root).header hf).2
  · exact fun node f hf _ hid => absurd ((fresh_boot systems fs root).header hf).2 hid

/--
**Lookups never climb, as long as only directories are mounted over directories, one at a
time.**  In every run of calls by any tasks, and in every state of it, whatever `fs_find_path`
finds can be reached from the root or the working directory of the task by entries and mounts.
-/
theorem lookups_confined (systems : List Nat) (fs root fuel : Nat) (calls : List Call)
    (hcond : EveryTry (vfsStep fuel) (KeepsMounts fuel) (Vfs.boot systems fs root) calls) :
    Always (vfsStep fuel) Confined (Vfs.boot systems fs root) calls := by
  have hkeep : ∀ s c s', ConfinedInv s → vfsStep fuel s c = some s' → KeepsMounts fuel s c →
      ConfinedInv s' := fun _ _ _ h hstep hop => h.step hstep hop
  have hall := always_of_inv hkeep (confinedInv_boot systems fs root) hcond.everyStep
  refine hall.mono fun s h => ?_
  obtain ⟨ns, hlead⟩ := h.mounts
  exact hlead.confined h.sound.entries

/-- The root of a second file system is mounted on `/d`. -/
theorem lookups_confined_mount :
    Always (vfsStep 4) Confined (Vfs.boot [0x1000, 0x5000] 0x1000 0x2000)
      [⟨0, .mkdir ['d'] 0o777⟩, ⟨0, .fsMount ⟨2, 0x1000⟩ ⟨1, 0x5000⟩⟩] := by
  refine lookups_confined [0x1000, 0x5000] 0x1000 0x2000 4 _ ⟨fun type dir hmounts => ?_,
    fun s₁ h₁ => ⟨fun type dir hmounts => ?_, fun _ _ => trivial⟩⟩
  · rcases hmounts with hop | ⟨_, _, hop, -⟩
    · cases hop
    · cases hop
  · rcases hmounts with hop | ⟨_, _, hop, -⟩
    · obtain ⟨rfl, rfl⟩ := VfsOp.fsMount.inj hop
      exact ⟨fun _ => second_root_after_mkdir h₁, fun _ _ _ => no_mount_after_mkdir h₁⟩
    · cases hop

/--
**With a second mount the first one leads out of the file system.**  The root of a second one
is mounted on `/d` and on `/x`, and a lookup of `/d` finds what lies at address 0.
-/
theorem lookup_climbs :
    ¬ Always (vfsStep 4) Confined (Vfs.boot [0x1000, 0x5000] 0x1000 0x2000)
      [⟨0, .mkdir ['d'] 0o777⟩, ⟨0, .mkdir ['x'] 0o777⟩,
        ⟨0, .fsMount ⟨2, 0x1000⟩ ⟨1, 0x5000⟩⟩, ⟨0, .fsMount ⟨3, 0x1000⟩ ⟨1, 0x5000⟩⟩] := by
  intro h
  have hrun : (runAll (vfsStep 4) (Vfs.boot [0x1000, 0x5000] 0x1000 0x2000)
      [⟨0, .mkdir ['d'] 0o777⟩, ⟨0, .mkdir ['x'] 0o777⟩,
        ⟨0, .fsMount ⟨2, 0x1000⟩ ⟨1, 0x5000⟩⟩, ⟨0, .fsMount ⟨3, 0x1000⟩ ⟨1, 0x5000⟩⟩]).map
      (fun s => (fsFindPath s 4 0 ['/', 'd'] ⟨0, 0⟩, startNode s 0 ['/', 'd'],
        (List.range s.mounts.store.count).map fun p => (s.mounts.store.node p).data)) =
      some (.ok (0, ⟨0, 0⟩), ⟨1, 0x1000⟩, [none, none, some ⟨1, 0x5000⟩]) := by
    decide
  obtain ⟨s, hs, hend⟩ := Option.map_eq_some_iff.mp hrun
  obtain ⟨hfind, hend⟩ := Prod.mk.inj hend
  obtain ⟨hstart, hdata⟩ := Prod.mk.inj hend
  have hentries := ((sound_boot [0x1000, 0x5000] 0x1000 0x2000).run hs).entries
  have hreaches := h.last hs 4 0 ['/', 'd'] ⟨0, 0⟩ 0 ⟨0, 0⟩ hfind (Int.le_refl 0)
  rw [hstart] at hreaches
  -- no edge leads to the inode 0
  have hinode : ∀ node, Reaches s ⟨1, 0x1000⟩ node → node.inode ≠ 0 := by
    intro node hnode
    induction hnode with
    | refl => exact Nat.one_ne_zero
    | tail _ hedge _ =>
        rcases hedge with ⟨f, dirs, hf, -, hdirs, e, he, rfl⟩ | ⟨f, -, -, p, hp, -, hb⟩
        · exact Nat.ne_of_gt (Nat.zero_lt_of_lt (hentries _ f dirs hf hdirs e he).1)
        · have hmem := List.mem_map_of_mem (f := fun p => (s.mounts.store.node p).data)
            (List.mem_range.mpr hp)
          rw [hdata, hb] at hmem
          rcases List.mem_cons.mp hmem with hb | hmem
          · cases hb
          rcases List.mem_cons.mp hmem with hb | hmem
          · cases hb
          obtain rfl := Option.some.inj (List.mem_singleton.mp hmem)
          exact Nat.one_ne_zero
  exact hinode ⟨0, 0⟩ hreaches rfl

end OsThing.Fs
