/-
Slashes and dots in paths.

A path is looked up by the parts between its slashes.  A dot among them leads nowhere, and the
slashes at the start are skipped; but two slashes in a row, and a slash at the end, leave an empty
part, which is looked up like any other name.  So a path can be written without its dots, and with
one slash for many at its start, but not with one slash for many elsewhere: `tidy` leads where the
path does, for all files there may be, exactly if no empty part is looked up.

That the condition is needed is shown by a chain of directories that are called like the parts of
the path.
-/
import OsThing.Proofs.MakingFiles

namespace OsThing.Fs

open NameWalk

/-! ### Tidy paths -/

/-- The parts of a path that are neither empty nor a dot. -/
def tidyNames (path : Name) : List Name :=
  (components path).filter fun name => name ≠ [] ∧ name ≠ ['.']

def joinNames : List Name → Name
  | [] => []
  | [name] => name
  | name :: rest => name ++ '/' :: joinNames rest

/-- The path with one slash for many, without dots, and without a slash at its end. -/
def tidy (path : Name) : Name :=
  if path.head? = some '/' then '/' :: joinNames (tidyNames path) else joinNames (tidyNames path)

example : tidy ['/', '/', 'a', '/', '.', '/', '/', 'b', '/'] = ['/', 'a', '/', 'b'] := rfl

/-- The node that the lookup starts at is in a file system. -/
def Started (s : Vfs) (t : Nat) (path : Name) : Prop :=
  (s.ramfs (startNode s t path).fs).isSome

/-- If the path ends in a slash, it is one behind a directory. -/
def SlashedDir (s : Vfs) (fuel t : Nat) (path : Name) : Prop :=
  path.getLast? = some '/' → ∀ node, Resolves s fuel t (tidy path) node → IsDir s node

/-- The tidy path is looked up like the path. -/
def TidyAlike (path : Name) : Prop :=
  ∀ (s : Vfs) (fuel t : Nat) (buf : FileNode), Started s t path → SlashedDir s fuel t path →
    fsFindPath s fuel t (tidy path) buf = fsFindPath s fuel t path buf

/-- Behind the slashes at its start the path has no empty part, or only behind a `..`. -/
def NoEmptyPart (path : Name) : Prop :=
  [] ∉ (namesAfterSlashes path).takeWhile (· ≠ ['.', '.'])

instance (path : Name) : Decidable (NoEmptyPart path) := inferInstanceAs (Decidable (_ ∉ _))

/-! ### The parts of a tidy path -/

theorem components_no_slash : ∀ {path name : Name}, name ∈ components path → '/' ∉ name := by
  intro path
  induction path with
  | nil =>
      intro name h
      rw [List.mem_singleton.mp h]
      exact List.not_mem_nil
  | cons c rest ih =>
      intro name h
      by_cases hc : c = '/'
      · rw [hc, components_slash] at h
        rcases List.mem_cons.mp h with rfl | h
        · exact List.not_mem_nil
        · exact ih h
      · obtain ⟨first, more, hrest⟩ := List.exists_cons_of_ne_nil (components_ne_nil rest)
        rw [components_char hc hrest] at h
        rw [hrest] at ih
        rcases List.mem_cons.mp h with rfl | h
        · intro hmem
          rcases List.mem_cons.mp hmem with heq | hmem
          · exact hc heq.symm
          · exact ih List.mem_cons_self hmem
        · exact ih (List.mem_cons_of_mem _ h)

theorem components_join : ∀ {names : List Name}, names ≠ [] → (∀ name ∈ names, '/' ∉ name) →
    components (joinNames names) = names := by
  intro names
  induction names with
  | nil => intro h _; exact absurd rfl h
  | cons name rest ih =>
      intro _ h
      have hname := components_of_no_slash (h name List.mem_cons_self)
      cases rest with
      | nil => exact hname
      | cons next more =>
          show components (name ++ '/' :: joinNames (next :: more)) = _
          rw [components_append, hname,
            ih (List.cons_ne_nil _ _) fun n hn => h n (List.mem_cons_of_mem _ hn)]
          rfl

/-- The slashes at the start of a path leave empty parts only. -/
theorem tidyNames_eq (path : Name) :
    tidyNames path = (namesAfterSlashes path).filter fun name => name ≠ [] ∧ name ≠ ['.'] := by
  unfold tidyNames namesAfterSlashes
  induction path with
  | nil => rfl
  | cons c rest ih =>
      by_cases hc : c = '/'
      · rw [hc, components_slash, List.filter_cons_of_neg (by simp),
          List.dropWhile_cons_of_pos (by simp)]
        exact ih
      · rw [List.dropWhile_cons_of_neg (by simpa using hc), if_neg (List.cons_ne_nil _ _)]

theorem tidyNames_spec {path name : Name} (h : name ∈ tidyNames path) :
    name ≠ [] ∧ name ≠ ['.'] ∧ '/' ∉ name := by
  obtain ⟨hmem, hname⟩ := List.mem_filter.mp h
  obtain ⟨hne, hdot⟩ := of_decide_eq_true hname
  exact ⟨hne, hdot, components_no_slash hmem⟩

/-- The joined names do not start with a slash. -/
theorem joinNames_head {names : List Name} (h : ∀ name ∈ names, name ≠ [] ∧ '/' ∉ name) :
    (joinNames names).head? ≠ some '/' := by
  have hfirst : ∀ (name more : Name), name ≠ [] → '/' ∉ name →
      (name ++ more).head? ≠ some '/' := by
    intro name more hne hslash hhead
    rw [List.head?_append_of_ne_nil _ hne] at hhead
    exact hslash (List.mem_of_head? hhead)
  cases names with
  | nil => exact fun h => nomatch h
  | cons name rest =>
      obtain ⟨hne, hslash⟩ := h name List.mem_cons_self
      cases rest with
      | nil => exact fun hhead => hslash (List.mem_of_head? hhead)
      | cons next more => exact hfirst name _ hne hslash

theorem tidy_head (path : Name) : (tidy path).head? = some '/' ↔ path.head? = some '/' := by
  unfold tidy
  split
  · rename_i habs
    exact iff_of_true rfl habs
  · rename_i habs
    refine iff_of_false (joinNames_head fun name hname => ?_) habs
    obtain ⟨hne, -, hslash⟩ := tidyNames_spec hname
    exact ⟨hne, hslash⟩

/-- What is looked up of a tidy path are its parts. -/
theorem namesAfterSlashes_tidy (path : Name) : namesAfterSlashes (tidy path) = tidyNames path := by
  have hspec : ∀ name ∈ tidyNames path, name ≠ [] ∧ '/' ∉ name := fun name hname =>
    ⟨(tidyNames_spec hname).1, (tidyNames_spec hname).2.2⟩
  have hjoin : (joinNames (tidyNames path)).dropWhile (· = '/') = joinNames (tidyNames path) := by
    refine List.dropWhile_eq_self_iff.mpr fun hlen hfirst => joinNames_head hspec ?_
    rw [List.head?_eq_getElem?, List.getElem?_eq_getElem hlen]
    exact congrArg some (of_decide_eq_true hfirst)
  have hdrop : (tidy path).dropWhile (· = '/') = joinNames (tidyNames path) := by
    unfold tidy
    split
    · rw [List.dropWhile_cons_of_pos (by simp), hjoin]
    · exact hjoin
  unfold namesAfterSlashes
  rw [hdrop]
  by_cases hnil : tidyNames path = []
  · rw [hnil]
    rfl
  · have hcomponents := components_join hnil fun name hname => (hspec name hname).2
    have hne : joinNames (tidyNames path) ≠ [] := by
      intro hempty
      rw [hempty] at hcomponents
      have hmem : [] ∈ tidyNames path := hcomponents ▸ List.mem_singleton_self []
      exact (hspec [] hmem).1 rfl
    rw [if_neg hne, hcomponents]

/-! ### Lookups -/

section Lookups

variable {s : Vfs} {fuel t : Nat} {path : Name}

/-- Parts that are dots do not matter, and empty ones do not behind a `..`. -/
theorem walk_tidy : ∀ {names : List Name} {p : Place}, [] ∉ names.takeWhile (· ≠ ['.', '.']) →
    walk s fuel p (names.filter fun name => name ≠ [] ∧ name ≠ ['.']) = walk s fuel p names := by
  intro names
  induction names with
  | nil => intro p _; rfl
  | cons name rest ih =>
      intro p h
      by_cases hup : name = ['.', '.']
      · -- both walks end here
        rw [hup, List.filter_cons_of_pos (by decide), walk_cons, walk_cons]
        rfl
      rw [List.takeWhile_cons_of_pos (by simpa using hup)] at h
      have hne : name ≠ [] := fun heq => h (heq ▸ List.mem_cons_self)
      have hrest : ∀ p, walk s fuel p (rest.filter fun name => name ≠ [] ∧ name ≠ ['.']) =
          walk s fuel p rest := fun p => ih fun hmem => h (List.mem_cons_of_mem _ hmem)
      by_cases hdot : name = ['.']
      · rw [hdot, List.filter_cons_of_neg (by decide), hrest]
        rfl
      · rw [List.filter_cons_of_pos (by simpa using ⟨hne, hdot⟩), walk_cons, walk_cons]
        simp only [hrest]

theorem startNode_tidy (s : Vfs) (t : Nat) (path : Name) :
    startNode s t (tidy path) = startNode s t path := by
  unfold startNode
  simp only [tidy_head]

/-- **Where no empty part is looked up, the tidy path is looked up like the path.** -/
theorem NoEmptyPart.tidyAlike (h : NoEmptyPart path) : TidyAlike path := by
  intro s fuel t buf hstarted _
  have hstarted' : Started s t (tidy path) := by
    unfold Started
    rw [startNode_tidy]
    exact hstarted
  rw [fsFindPath_names hstarted, fsFindPath_names hstarted', startNode_tidy, namesAfterSlashes_tidy, tidyNames_eq]
  simp only [walk_tidy h]

end Lookups

/-! ### A chain of directories -/

/-- The directory with the number `i + 1` has one entry, for the next one; the last one is
empty. -/
def chainFile (names : List Name) (i : Nat) : FileHeader where
  type := FS_DIR
  mask := 0o777
  inode := i + 1
  data := .entries (names[i]?.elim [] fun name => [⟨i + 2, 0, name.length + 1, name⟩])

def chainHead (names : List Name) : RamfsHeader where
  files := (List.range (names.length + 1)).map (chainFile names)
  iCount := names.length + 2
  count_eq := by rw [List.length_map, List.length_range]
  inodes := by
    rw [List.map_map, List.length_map, List.length_range, List.range'_eq_map_range]
    exact List.map_congr_left fun i _ => Nat.add_comm i 1

/-- Every task is in the root of the chain. -/
def Vfs.chain (names : List Name) : Vfs :=
  { Vfs.boot [0x1000] 0x1000 0x2000 with
    ramfs := fun fs => if fs = 0x1000 then some (chainHead names) else none }

section Chain

variable {names : List Name}

theorem chain_header {i : Nat} (h : i ≤ names.length) :
    (Vfs.chain names).header ⟨i + 1, 0x1000⟩ = some (chainFile names i) := by
  show (chainHead names).getFileH (i + 1) = _
  rw [RamfsHeader.getFileH_succ]
  show ((List.range (names.length + 1)).map (chainFile names))[i]? = _
  rw [List.getElem?_map, List.getElem?_range (Nat.lt_succ_of_le h)]
  rfl

theorem chain_header_cases {node : FileNode} {f : FileHeader}
    (h : (Vfs.chain names).header node = some f) :
    node.fs = 0x1000 ∧ ∃ i ≤ names.length, f = chainFile names i := by
  obtain ⟨head, hhead, hf⟩ := Option.bind_eq_some_iff.mp h
  obtain ⟨hfs, hhead⟩ := Option.ite_none_right_eq_some.mp hhead
  obtain rfl := Option.some.inj hhead
  obtain ⟨i, hi, rfl⟩ := List.mem_map.mp (List.mem_of_find?_eq_some hf)
  exact ⟨hfs, i, Nat.le_of_lt_succ (List.mem_range.mp hi), rfl⟩

/-- What an entry of the chain tells. -/
theorem chain_entry {i : Nat} {e : RamfsDirent} {dirs : List RamfsDirent}
    (hdata : (chainFile names i).data = .entries dirs) (he : e ∈ dirs) :
    i < names.length ∧ e.inode = i + 2 ∧ dirs.length = 1 := by
  obtain rfl := FileData.entries.inj hdata
  cases hi : names[i]? with
  | none =>
      rw [hi] at he
      cases he
  | some name =>
      rw [hi] at he
      rw [List.mem_singleton.mp he]
      exact ⟨(List.getElem?_eq_some_iff.mp hi).1, rfl, rfl⟩

theorem mountFree_chain (names : List Name) : MountFree (Vfs.chain names) := by
  refine .of_files (fun t path => ?_) fun node f hf => ?_
  · have hstart : startNode (Vfs.chain names) t path = ⟨0 + 1, 0x1000⟩ := ite_self _
    rw [hstart, chain_header (Nat.zero_le _)]
    rfl
  · obtain ⟨hfs, i, -, rfl⟩ := chain_header_cases hf
    refine ⟨rfl, _, rfl, fun e he => ?_⟩
    obtain ⟨hi, hinode, -⟩ := chain_entry rfl he
    rw [hinode, hfs, chain_header hi]
    rfl

theorem hasTurns_chain (names : List Name) : HasTurns (Vfs.chain names) 2 := by
  intro node f dirs hf hdata
  obtain ⟨-, i, -, rfl⟩ := chain_header_cases hf
  cases dirs with
  | nil => decide
  | cons e rest =>
      rw [(chain_entry hdata List.mem_cons_self).2.2]
      decide

/-- One name in the chain leads on, and no other one. -/
theorem chain_next {i : Nat} (h : i ≤ names.length) {name : Name} (hdot : name ≠ ['.'])
    (hup : name ≠ ['.', '.']) : nextNode (Vfs.chain names) ⟨i + 1, 0x1000⟩ name =
      if names[i]? = some name then .ok ⟨i + 2, 0x1000⟩ else .error (-ENOENT) := by
  rw [nextNode_dir (chain_header h) rfl hdot hup]
  unfold FileHeader.lookup chainFile
  dsimp only
  cases names[i]? with
  | none => rfl
  | some first =>
      by_cases hname : first = name
      · rw [if_pos (congrArg some hname), hname]
        simp
      · rw [if_neg fun heq => hname (Option.some.inj heq)]
        simp [hname]

/-- The chain is walked along by its names, with or without dots. -/
theorem chain_resolve : ∀ {front : List Name} {i : Nat}, (∀ name ∈ front, name ≠ ['.', '.']) →
    (front.filter fun name => name ≠ ['.']) <+: names.drop i → i ≤ names.length →
    ∃ j ≤ names.length, resolve (Vfs.chain names) ⟨i + 1, 0x1000⟩ front = .ok ⟨j + 1, 0x1000⟩ := by
  intro front
  induction front with
  | nil => intro i _ _ hi; exact ⟨i, hi, rfl⟩
  | cons name rest ih =>
      intro i hup hprefix hi
      have hrest : ∀ n ∈ rest, n ≠ ['.', '.'] := fun n hn => hup n (List.mem_cons_of_mem _ hn)
      by_cases hdot : name = ['.']
      · rw [hdot, List.filter_cons_of_neg (by decide)] at hprefix
        obtain ⟨j, hj, hends⟩ := ih hrest hprefix hi
        refine ⟨j, hj, ?_⟩
        rw [hdot]
        exact hends
      · rw [List.filter_cons_of_pos (by simpa using hdot)] at hprefix
        obtain ⟨more, hmore⟩ := hprefix
        have hlt : i < names.length := by
          by_contra hge
          rw [List.drop_eq_nil_of_le (Nat.le_of_not_lt hge)] at hmore
          cases hmore
        rw [List.drop_eq_getElem_cons hlt, List.cons_append] at hmore
        obtain ⟨hname, htail⟩ := List.cons.inj hmore
        obtain ⟨j, hj, hends⟩ := ih hrest ⟨more, htail⟩ hlt
        refine ⟨j, hj, ?_⟩
        unfold resolve
        rw [follow_cons, chain_next hi hdot (hup name List.mem_cons_self), if_pos]
        · exact hends
        · rw [List.getElem?_eq_getElem hlt, hname]

end Chain

/-! ### Paths with empty parts -/

theorem resolve_names (s : Vfs) (node : FileNode) (path : Name) :
    resolve s node (pathNames path) = resolve s node (namesAfterSlashes path) := by
  rcases pathNames_cases path with hsame | ⟨hdot, hnil⟩
  · rw [hsame]
  · rw [hdot, hnil]
    rfl

/-- The names that the chain for a path is made of. -/
def chainNames (path : Name) : List Name :=
  ((namesAfterSlashes path).takeWhile (· ≠ ['.', '.'])).filter fun name => name ≠ [] ∧ name ≠ ['.']

theorem chain_slashedDir (names : List Name) (path : Name) :
    SlashedDir (Vfs.chain names) 2 0 path := by
  intro _ node hres
  obtain ⟨f, hf⟩ := (mountFree_chain names).header_of_resolves hres
  obtain ⟨-, i, -, rfl⟩ := chain_header_cases hf
  exact ⟨_, hf, rfl⟩

theorem mem_takeWhile_up {names : List Name} {name : Name}
    (h : name ∈ names.takeWhile (· ≠ ['.', '.'])) : name ≠ ['.', '.'] := by
  simpa using List.mem_takeWhile_imp h

/-- In its chain the path ends at its first empty part. -/
theorem chain_path {path : Name} (h : ¬ NoEmptyPart path) :
    resolve (Vfs.chain (chainNames path)) ⟨0 + 1, 0x1000⟩ (namesAfterSlashes path) =
      .error (-ENOENT) := by
  obtain ⟨front, back, hsplit, hfront⟩ := List.eq_append_cons_of_mem (not_not.mp h)
  have hall : namesAfterSlashes path =
      front ++ [] :: (back ++ (namesAfterSlashes path).dropWhile (· ≠ ['.', '.'])) := by
    rw [← List.cons_append, ← List.append_assoc, ← hsplit]
    exact List.takeWhile_append_dropWhile.symm
  have hup : ∀ name ∈ front, name ≠ ['.', '.'] := fun name hname =>
    mem_takeWhile_up (hsplit ▸ List.mem_append_left _ hname)
  have hdots : front.filter (fun name => name ≠ [] ∧ name ≠ ['.']) =
      front.filter fun name => name ≠ ['.'] := by
    refine List.filter_congr fun name hname => ?_
    have hne : name ≠ [] := fun heq => hfront (heq ▸ hname)
    simp [hne]
  have hprefix : (front.filter fun name => name ≠ ['.']) <+: (chainNames path).drop 0 := by
    unfold chainNames
    rw [hsplit, List.filter_append, hdots]
    exact List.prefix_append _ _
  obtain ⟨j, hj, hends⟩ := chain_resolve hup hprefix (Nat.zero_le _)
  have hmissing : (chainNames path)[j]? ≠ some [] := fun hget => by
    have hmem := (List.mem_filter.mp (List.mem_of_getElem? hget)).2
    exact (of_decide_eq_true hmem).1 rfl
  rw [hall, resolve_append, hends]
  show (nextNode _ _ _).bind _ = _
  rw [chain_next hj (by decide) (by decide), if_neg hmissing]
  rfl

/-- The tidy path gets to the end of the chain, and ends there or at a `..`. -/
theorem chain_tidy (path : Name) :
    resolve (Vfs.chain (chainNames path)) ⟨0 + 1, 0x1000⟩ (tidyNames path) ≠
      .error (-ENOENT) := by
  have hall : tidyNames path = chainNames path ++
      ((namesAfterSlashes path).dropWhile (· ≠ ['.', '.'])).filter
        fun name => name ≠ [] ∧ name ≠ ['.'] := by
    unfold chainNames
    rw [tidyNames_eq, ← List.filter_append, List.takeWhile_append_dropWhile]
  have hup : ∀ name ∈ chainNames path, name ≠ ['.', '.'] := fun name hname =>
    mem_takeWhile_up (List.mem_filter.mp hname).1
  have hdots : (chainNames path).filter (fun name => name ≠ ['.']) = chainNames path := by
    refine List.filter_eq_self.mpr fun name hname => ?_
    exact decide_eq_true (of_decide_eq_true (List.mem_filter.mp hname).2).2
  obtain ⟨j, -, hends⟩ := @chain_resolve (chainNames path) (chainNames path) 0 hup
    (by rw [hdots]; exact List.prefix_refl _) (Nat.zero_le _)
  rw [hall, resolve_append, hends]
  cases hrest : (namesAfterSlashes path).dropWhile (· ≠ ['.', '.']) with
  | nil => exact fun h => nomatch h
  | cons name more =>
      have hname : name = ['.', '.'] := by
        have h := List.head?_dropWhile_not (· ≠ ['.', '.']) (namesAfterSlashes path)
        rw [hrest] at h
        simpa using h
      rw [hname, List.filter_cons_of_pos (by decide)]
      show Except.error (-ENOTDIR) ≠ _
      exact fun h => absurd (Except.error.inj h) (by decide)

/-- **An empty part is looked up.** -/
theorem TidyAlike.noEmptyPart {path : Name} (h : TidyAlike path) : NoEmptyPart path := by
  by_contra hempty
  have hfree := mountFree_chain (chainNames path)
  have hturns := hasTurns_chain (chainNames path)
  have hstart : ∀ q, startNode (Vfs.chain (chainNames path)) 0 q = ⟨0 + 1, 0x1000⟩ :=
    fun q => ite_self _
  have hstarted : Started (Vfs.chain (chainNames path)) 0 path := by
    unfold Started
    rw [hstart]
    rfl
  have hsame := h _ 2 0 ⟨0, 0⟩ hstarted (chain_slashedDir _ path)
  rw [hfree.findPath hturns, hfree.findPath hturns, hstart, hstart, resolve_names, resolve_names,
    namesAfterSlashes_tidy, chain_path hempty] at hsame
  have htidy := chain_tidy path
  revert hsame htidy
  generalize resolve (Vfs.chain (chainNames path)) ⟨0 + 1, 0x1000⟩ (tidyNames path) = r
  intro hsame htidy
  cases r with
  | error e =>
      have herr : e = -ENOENT := (Prod.mk.inj (Except.ok.inj hsame)).1
      exact htidy (congrArg _ herr)
  | ok node => exact absurd (Prod.mk.inj (Except.ok.inj hsame)).1 (by decide)

/--
**When slashes and dots are neutral.**  Written with one slash for many, without dots, and without
a slash behind a directory, a path is looked up with the same result and the same node whatever
files there are, exactly if behind the slashes at its start it has no empty part, or only behind a
`..`.
-/
theorem tidy_alike_iff (path : Name) : TidyAlike path ↔ NoEmptyPart path :=
  ⟨TidyAlike.noEmptyPart, NoEmptyPart.tidyAlike⟩

/-- **`/d/` is not found where `/d` is a directory.** -/
theorem slash_behind_dir : ¬ ∀ path, TidyAlike path := by
  intro h
  have hsame := h ['/', 'd', '/'] Vfs.inSubdir 3 0 ⟨0, 0⟩ rfl fun _ node hres => by
    have hfound : Resolves Vfs.inSubdir 3 0 ['/', 'd'] ⟨2, 0x1000⟩ := rfl
    rw [hfound.unique hres]
    exact ⟨_, rfl, rfl⟩
  have htidy : fsFindPath Vfs.inSubdir 3 0 ['/', 'd'] ⟨0, 0⟩ = .ok (0, ⟨2, 0x1000⟩) := rfl
  have hslash : fsFindPath Vfs.inSubdir 3 0 ['/', 'd', '/'] ⟨0, 0⟩ = .ok (-ENOENT, ⟨0, 0⟩) := rfl
  have hboth := htidy.symm.trans (hsame.trans hslash)
  exact absurd (Prod.mk.inj (Except.ok.inj hboth)).1 (by decide)

end OsThing.Fs
