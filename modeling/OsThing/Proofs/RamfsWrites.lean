/-
What the making of a file in a `ramfs` writes, and when that is what it should.

The entry, the header and the links go where they belong, at the ends of the two chains; but
the name is copied to `ramfs_files[ i ]` for an `i` of at least 2, and never to the new header.
So every call that finds a directory writes where it should not, whatever it does there.  The
calls that do as they should are those that are turned away because the node is no directory.
-/
import OsThing.Fs.RamfsWrites
import OsThing.Lib.Runs
import OsThing.Proofs.RamfsTree

namespace OsThing.Fs

open Runs Chain

/-- A piece that the making of a file has to write: new, or the last link of a chain. -/
def Piece.InLists (s : RamfsStore) : Piece → Prop
  | .entry dir => dir = s.dirents.count
  | .firstEntry filehead => (s.headers.val filehead).data = none
  | .nextEntry dir => dir < s.dirents.count ∧ s.dirents.next dir = none
  | .header file => file = s.headers.count
  | .nextHeader file => file < s.headers.count ∧ s.headers.next file = none
  | .size _ => False
  | .iCount => False
  | .fileName _ _ => False

/-- The call writes to the lists only, and to `extra`; it uses no header as an array of more
than one; and the inode it makes has the name that was given. -/
def CarriesName (stray : RamfsStore → Nat → Name → RamfsStore) (extra : Piece → Prop)
    (s : RamfsStore) (op : AddOp) : Prop :=
  ∀ w, addOpWrites stray s op = some w →
    (∀ p ∈ w.pieces, p.InLists s ∨ extra p) ∧
    (∀ index count, Piece.fileName index count ∈ w.pieces → index < 1) ∧
    ∀ s', w.after = some (0, s') → s'.infoName s.iCount = some op.name

/-- The node of the call is no directory. -/
def FindsNoDirectory (s : RamfsStore) (op : AddOp) : Prop :=
  ∀ p, s.getFileH op.node.inode = some p → (s.headers.val p).type ≠ FS_DIR

section Calls

variable {stray : RamfsStore → Nat → Name → RamfsStore} {s s' : RamfsStore} {node : FileNode}
  {name : Name} {mode : UInt32} {inode type count p : Nat} {w : Written}

/-! ### The pieces -/

theorem Represents.getFileH_lt {head : RamfsHeader} {es : Nat → List Nat}
    (h : Represents s head es) (hget : s.getFileH inode = some p) : p < s.headers.count := by
  rcases h.getFileH inode with ⟨hnone, -⟩ | ⟨q, hq, -, hq', -⟩
  · exact absurd (hnone.symm.trans hget) (Option.some_ne_none p).symm
  · exact Option.some.inj (hq'.symm.trans hget) ▸ hq

/-- The entry is made as before. -/
theorem mkdirEntryWrites_store : (s.mkdirEntryWrites node name inode).map Prod.snd =
    (s.mkdirEntry node name inode).map Prod.snd := by
  unfold RamfsStore.mkdirEntryWrites RamfsStore.mkdirEntry
  cases s.getFileH node.inode with
  | none => rfl
  | some filehead =>
      rw [Option.bind_some, Option.bind_some]
      by_cases htype : (s.headers.val filehead).type ≠ FS_DIR
      · rw [if_pos htype, if_pos htype]
        rfl
      · rw [if_neg htype, if_neg htype]
        cases (s.headers.val filehead).data with
        | none => rfl
        | some first =>
            dsimp only
            rw [Option.map_map, Option.map_map, Cells.append_eq, Option.map_map]
            rfl

/-- The entry is written in a new cell, and the link to it at the end of the chain. -/
theorem mkdirEntryWrites_pieces {head : RamfsHeader} {es : Nat → List Nat}
    (h : Represents s head es) (hget : s.getFileH node.inode = some p)
    (htype : (s.headers.val p).type = FS_DIR) (name : Name) (inode : Nat) :
    ∃ link entered, s.mkdirEntryWrites node name inode =
      some ([.entry s.dirents.count, link, .size p], entered) ∧ link.InLists s := by
  unfold RamfsStore.mkdirEntryWrites
  rw [hget, Option.bind_some, if_neg (not_not.mpr htype)]
  have hentries := h.entries p (h.getFileH_lt hget)
  cases hdata : (s.headers.val p).data with
  | none => exact ⟨_, _, rfl, hdata⟩
  | some first =>
      rw [hdata] at hentries
      obtain ⟨rest, hes, -⟩ := isChain_some.mp hentries.1
      obtain ⟨l, last, hl, hlast⟩ := Cells.lastFrom_alloc hentries
        (hes ▸ List.mem_cons_self) (newDirent name inode)
      rw [hl] at hentries
      unfold newDirent at hlast
      dsimp only
      rw [hlast]
      exact ⟨.nextEntry last, _, rfl, hentries.2 last (by simp), hentries.1.next_last⟩

/-- **Whatever else it does, a call that finds a directory uses it as an array.** -/
theorem addWrites_fileName {head : RamfsHeader} {es : Nat → List Nat}
    (h : Represents s head es) (hget : s.getFileH node.inode = some p)
    (htype : (s.headers.val p).type = FS_DIR) :
    ∃ w, s.addWrites stray node name mode type count = some w ∧
      Piece.fileName s.iCount count ∈ w.pieces := by
  obtain ⟨link, entered, hentry, -⟩ := mkdirEntryWrites_pieces h hget htype name s.iCount
  unfold RamfsStore.addWrites
  rw [hget, Option.bind_some, if_neg (not_not.mpr htype), hentry, Option.map_some]
  refine ⟨_, rfl, ?_⟩
  dsimp only
  split
  · simp
  · simp

/-- A file that was made has no name. -/
theorem infoName_added {head : RamfsHeader} {es : Nat → List Nat} (h : Represents s head es)
    (hadd : s.add node name mode type = some (0, s')) : s'.infoName s.iCount = some [] := by
  obtain ⟨head', es', hmade, h'⟩ := add_represents h hadd
  rcases ramfsAdd_cases hmade with ⟨hret, -⟩ | ⟨-, hadded⟩
  · cases hret
  obtain ⟨_, dirs, dir, -, -, -, -, -, hfiles⟩ := hadded.files
  have hnew : head'.getFileH s.iCount =
      some { type := type, mask := mode, inode := head.iCount } := by
    rw [hfiles, h.iCount]
    exact if_pos rfl
  rcases h'.getFileH s.iCount with ⟨-, hnone⟩ | ⟨q, -, -, hq, hfile⟩
  · rw [hnew] at hnone
    cases hnone
  · rw [hnew] at hfile
    rw [RamfsStore.infoName, hq, Option.map_some]
    exact congrArg some (congrArg FileHeader.name (Option.some.inj hfile)).symm

/-- **If the stray copy hits nothing, the calls do what they do without it.**  What they write
apart from it is where it belongs, and the new inode is left without a name. -/
theorem addWrites_apart {head : RamfsHeader} {es : Nat → List Nat}
    (h : Represents s head es) (hget : s.getFileH node.inode = some p)
    (htype : (s.headers.val p).type = FS_DIR) :
    ∃ link move s', s.addWrites (fun s _ _ => s) node name mode type count = some
        ⟨[.entry s.dirents.count, link, .size p, .header s.headers.count, .fileName s.iCount count,
          .nextHeader move, .iCount], some (0, s')⟩ ∧
      s.add node name mode type = some (0, s') ∧ link.InLists s ∧
      (Piece.nextHeader move).InLists s ∧ s'.infoName s.iCount = some [] := by
  obtain ⟨link, entered, hentry, hlink⟩ := mkdirEntryWrites_pieces h hget htype name s.iCount
  obtain ⟨⟨ret, entered'⟩, hstore, rfl⟩ : ∃ r, s.mkdirEntry node name s.iCount = some r ∧
      r.2 = entered := by
    refine Option.map_eq_some_iff.mp (mkdirEntryWrites_store.symm.trans ?_)
    rw [hentry]
    rfl
  have hp : p < s.headers.count := h.getFileH_lt hget
  have hnode : node.inode = p + 1 := by
    rcases h.getFileH node.inode with ⟨hnone, -⟩ | ⟨q, -, hq, hq', -⟩
    · exact absurd (hnone.symm.trans hget) (Option.some_ne_none p).symm
    · exact Option.some.inj (hq'.symm.trans hget) ▸ hq
  obtain ⟨hcount, hentered⟩ := mkdirEntry_represents h hp hnode hget htype hstore
  obtain ⟨l, last, hl, hlast⟩ := Cells.lastFrom_alloc hentered.headers
    (List.mem_range.mpr (hcount ▸ hp)) { type := type, mask := mode, inode := s.iCount }
  have hmove : (Piece.nextHeader last).InLists s := by
    have hheaders := h.headers
    rw [← hcount, hl] at hheaders
    exact ⟨hheaders.2 last (by simp), hheaders.1.next_last⟩
  have hadd : s.add node name mode type = some (0, { entered' with
      headers := (entered'.headers.alloc
        { type := type, mask := mode, inode := s.iCount }).link last entered'.headers.count
      iCount := entered'.iCount + 1 }) := by
    unfold RamfsStore.add
    rw [hget, Option.bind_some, if_neg (not_not.mpr htype), hstore, Option.bind_some]
    dsimp only
    rw [Cells.append_eq, hlast, hentered.iCount.trans h.iCount.symm]
    rfl
  refine ⟨link, last, _, ?_, hadd, hlink, hmove, infoName_added h hadd⟩
  unfold RamfsStore.addWrites
  rw [hget, Option.bind_some, if_neg (not_not.mpr htype), hentry, Option.map_some]
  dsimp only
  rw [hlast, hcount]
  rfl

theorem addWrites_notDir (hget : s.getFileH node.inode = some p)
    (htype : (s.headers.val p).type ≠ FS_DIR) :
    s.addWrites stray node name mode type count = some ⟨[], some (-1, s)⟩ := by
  unfold RamfsStore.addWrites
  rw [hget, Option.bind_some, if_pos htype]

theorem addWrites_none (hget : s.getFileH node.inode = none) :
    s.addWrites stray node name mode type count = none := by
  unfold RamfsStore.addWrites
  rw [hget, Option.bind_none]

end Calls

section Ops

variable {stray : RamfsStore → Nat → Name → RamfsStore} {extra : Piece → Prop} {s : RamfsStore}
  {op : AddOp}

/-- The two calls are one. -/
theorem addOpWrites_eq (stray : RamfsStore → Nat → Name → RamfsStore) (s : RamfsStore)
    (op : AddOp) : ∃ mode type count, addOpWrites stray s op =
    s.addWrites stray op.node op.name mode type count := by
  cases op with
  | mkdir node name mode behind => exact ⟨mode, _, _, rfl⟩
  | mknod node name mode dev => exact ⟨mode, dev, _, rfl⟩

/-- A call that finds no directory changes nothing. -/
theorem FindsNoDirectory.writes {w : Written} (h : FindsNoDirectory s op)
    (hw : addOpWrites stray s op = some w) : w = ⟨[], some (-1, s)⟩ := by
  obtain ⟨mode, type, count, heq⟩ := addOpWrites_eq stray s op
  rw [heq] at hw
  cases hget : s.getFileH op.node.inode with
  | none =>
      rw [addWrites_none hget] at hw
      cases hw
  | some p =>
      rw [addWrites_notDir hget (h p hget)] at hw
      exact (Option.some.inj hw).symm

theorem FindsNoDirectory.step {s' : RamfsStore} (h : FindsNoDirectory s op)
    (hstep : addOpStep stray s op = some s') : s' = s := by
  unfold addOpStep at hstep
  obtain ⟨⟨ret, s₁⟩, hafter, rfl⟩ := Option.map_eq_some_iff.mp hstep
  obtain ⟨w, hw, hafter⟩ := Option.bind_eq_some_iff.mp hafter
  rw [h.writes hw] at hafter
  exact (Prod.mk.inj (Option.some.inj hafter)).2.symm

/-- The exact condition for one call. -/
theorem carriesName_iff {head : RamfsHeader} {es : Nat → List Nat} (h : Represents s head es) :
    CarriesName stray extra s op ↔ FindsNoDirectory s op := by
  constructor
  · intro hcarries p hget htype
    obtain ⟨mode, type, count, heq⟩ := addOpWrites_eq stray s op
    obtain ⟨w, hw, hmem⟩ := addWrites_fileName h hget htype
    obtain ⟨-, hindex, -⟩ := hcarries w (heq.trans hw)
    have hcount := hindex _ _ hmem
    rw [h.iCount, head.count_eq] at hcount
    omega
  · intro hfinds w hw
    rw [hfinds.writes hw]
    refine ⟨fun p hp => absurd hp List.not_mem_nil,
      fun index count hp => absurd hp List.not_mem_nil, fun s' hafter => ?_⟩
    have hret := (Prod.mk.inj (Option.some.inj hafter)).1
    cases hret

end Ops

/--
**When the calls write what they should.**  In a run of `ramfs_mkdir` and `ramfs_mknod` over
chains of headers and entries, every call writes to the lists only, keeps to the one header that
`ramfs_files` points at and gives the new inode its name, exactly if none of them finds a
directory.  This is so wherever the stray copies of the names go, and whatever other pieces the
calls are granted.
-/
theorem new_inodes_named_iff (stray : RamfsStore → Nat → Name → RamfsStore)
    (extra : Piece → Prop) {s : RamfsStore} {head : RamfsHeader} {es : Nat → List Nat}
    (h : Represents s head es) (ops : List AddOp) :
    EveryTry (addOpStep stray) (CarriesName stray extra) s ops ↔
      EveryTry (addOpStep stray) FindsNoDirectory s ops := by
  have hkeep : ∀ s₁ op s₂, s₁ = s → addOpStep stray s₁ op = some s₂ → FindsNoDirectory s₁ op →
      s₂ = s := fun s₁ op s₂ hs hstep hfinds => (hfinds.step hstep).trans hs
  have hexact : ∀ s₁ op, s₁ = s →
      (CarriesName stray extra s₁ op ↔ FindsNoDirectory s₁ op) := fun s₁ op hs => by
    subst hs
    exact carriesName_iff h
  exact everyTry_iff hkeep hexact rfl

theorem new_inodes_named_iff_init :
    EveryTry (addOpStep fun s _ _ => s) (CarriesName (fun s _ _ => s) fun _ => False)
        RamfsStore.init [.mkdir ⟨1, 0⟩ ['a'] 0o777 0] ↔
      EveryTry (addOpStep fun s _ _ => s) FindsNoDirectory RamfsStore.init
        [.mkdir ⟨1, 0⟩ ['a'] 0o777 0] :=
  new_inodes_named_iff _ _ represents_init _

/-- The first directory under the root is number 2, and its name goes to `ramfs_files[2]`. -/
theorem new_inode_unnamed :
    ¬ ∀ (extra : Piece → Prop) (ops : List AddOp), EveryTry (addOpStep fun s _ _ => s)
      (CarriesName (fun s _ _ => s) extra) RamfsStore.init ops := by
  intro h
  obtain ⟨-, hindex, -⟩ := (h (fun _ => True) [.mkdir ⟨1, 0⟩ ['a'] 0o777 0]).1 _ rfl
  have hmem : Piece.fileName 2 0 ∈ [.entry 0, .firstEntry 0, .size 0, .header 1, .fileName 2 0,
      .nextHeader 0, .iCount] := by simp
  exact absurd (hindex 2 0 hmem) (by decide)

end OsThing.Fs
