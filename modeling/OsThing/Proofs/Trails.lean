/-
The files that a lookup comes through.

`trail` is what a walk leaves behind: for every name it finds, the node of the entry and the
place it goes on from, which after a mount is at another node.  A `.` leaves nothing.
-/
import OsThing.Proofs.Walk

namespace OsThing.Fs

/-- The entries a walk comes through, and where each of them leads. -/
def trail (s : Vfs) (fuel : Nat) : List Name → Place → List (FileNode × Place)
  | [], _ => []
  | name :: rest, p =>
      match goName s fuel p name with
      | .error _ => []
      | .ok q =>
          if name = ['.'] then trail s fuel rest q
          else (⟨q.buffer.inode, p.temp.fs⟩, q) :: trail s fuel rest q

/-- The trail from where another walk has ended. -/
def trailFrom (s : Vfs) (fuel : Nat) (r : Except Halt Place) (names : List Name) :
    List (FileNode × Place) :=
  match r with
  | .error _ => []
  | .ok p => trail s fuel names p

/-- The trail of the lookup of a path. -/
def trailOf (s : Vfs) (fuel t : Nat) (path : Name) : List (FileNode × Place) :=
  trailFrom s fuel (startAt s (startNode s t path)) (pathNames path)

/-- The last component is a name. -/
def EndsInName (path : Name) : Prop :=
  ∃ names name, pathNames path = names ++ [name] ∧ name ≠ ['.'] ∧ name ≠ ['.', '.']

theorem goName_dot (s : Vfs) (fuel : Nat) (p : Place) : goName s fuel p ['.'] = .ok p :=
  if_pos rfl

theorem eq_of_goName_dot {s : Vfs} {fuel : Nat} {p q : Place} {name : Name} (hdot : name = ['.'])
    (h : goName s fuel p name = .ok q) : q = p := by
  rw [hdot, goName_dot] at h
  exact (Except.ok.inj h).symm

theorem trail_dot (s : Vfs) (fuel : Nat) (rest : List Name) (p : Place) :
    trail s fuel (['.'] :: rest) p = trail s fuel rest p := by
  unfold trail
  rw [goName_dot]
  dsimp only
  rw [if_pos rfl]
  cases rest with
  | nil => rfl
  | cons name rest => rfl

theorem trail_name {s : Vfs} {fuel : Nat} {p q : Place} {name : Name} (hdot : name ≠ ['.'])
    (h : goName s fuel p name = .ok q) (rest : List Name) :
    trail s fuel (name :: rest) p =
      (⟨q.buffer.inode, p.temp.fs⟩, q) :: trail s fuel rest q := by
  conv => lhs; unfold trail
  rw [h]
  exact if_neg hdot

theorem trail_halt {s : Vfs} {fuel : Nat} {p : Place} {name : Name} {halt : Halt}
    (h : goName s fuel p name = .error halt) (rest : List Name) :
    trail s fuel (name :: rest) p = [] := by
  unfold trail
  rw [h]

/-- The trail of a longer walk. -/
theorem trail_append {s : Vfs} {fuel : Nat} {rest : List Name} :
    ∀ {names : List Name} {p : Place}, trail s fuel (names ++ rest) p =
      trail s fuel names p ++ trailFrom s fuel (walk s fuel p names) rest := by
  intro names
  induction names with
  | nil => intro p; rfl
  | cons name names ih =>
      intro p
      rw [walk_cons, List.cons_append]
      by_cases hdot : name = ['.']
      · subst hdot
        rw [trail_dot, trail_dot, ih, goName_dot]
        rfl
      · rcases hgo : goName s fuel p name with halt | q
        · rw [trail_halt hgo, trail_halt hgo]
          rfl
        · rw [trail_name hdot hgo, trail_name hdot hgo, ih]
          rfl

/-- What the loop finds is what is in the entry buffer. -/
theorem scanDir_buffer {s : Vfs} {name : Name} {temp : FileNode} {fuel inode : Nat}
    {b' : Dirent} :
    ∀ {d : Int} {b : Dirent}, scanDir s name temp fuel d b = .ok (some inode, b') →
      b'.inode = inode := by
  induction fuel with
  | zero => intro d b h; cases h
  | succ fuel ih =>
      intro d b h
      unfold scanDir at h
      split at h
      · cases h
      · split at h
        · cases h
        · split at h
          · obtain ⟨hinode, rfl⟩ := Prod.mk.inj (Except.ok.inj h)
            exact Option.some.inj hinode
          · exact ih h

/-- A turn that finds a name. -/
theorem goName_entry {s : Vfs} {fuel : Nat} {p q : Place} {name : Name} (hdot : name ≠ ['.'])
    (h : goName s fuel p name = .ok q) : name ≠ ['.', '.'] ∧ p.info.type = FS_DIR ∧
      scanDir s name p.temp fuel 0 p.buffer = .ok (some q.buffer.inode, q.buffer) ∧
      s.getInfo ⟨q.buffer.inode, p.temp.fs⟩ p.info = some q.info ∧
      followMount s q.info ⟨q.buffer.inode, p.temp.fs⟩ = .ok q.temp := by
  rcases goName_ok h with ⟨hname, -⟩ | ⟨-, hup, hdir, inode, hscan, hinfo, hfollow⟩
  · exact absurd hname hdot
  · obtain rfl := scanDir_buffer hscan
    exact ⟨hup, hdir, hscan, hinfo, hfollow⟩

/-- A name that is no mount leads to the file of its entry. -/
theorem temp_of_unmounted {s : Vfs} {fuel : Nat} {p q : Place} {name : Name} (hdot : name ≠ ['.'])
    (hgo : goName s fuel p name = .ok q) (hid : q.info.mountId = 0) :
    q.temp = ⟨q.buffer.inode, p.temp.fs⟩ := by
  have hfollow := (goName_entry hdot hgo).2.2.2.2
  rw [followMount_zero s _ hid] at hfollow
  exact (Except.ok.inj hfollow).symm

/-! ### Paths that end in a name -/

theorem names_ne_nil {path name : Name} {names : List Name}
    (h : pathNames path = names ++ [name]) : pathNames path ≠ [] := by
  rw [h]
  exact List.append_ne_nil_of_right_ne_nil _ (List.cons_ne_nil _ _)

/-- The path without its last name. -/
theorem exists_dir {path name : Name} {names : List Name} (h : pathNames path = names ++ [name]) :
    names = [] ∨ ∃ dir, pathNames dir = names ∧
      ∀ (s : Vfs) t, startNode s t dir = startNode s t path := by
  by_cases hne : path = []
  · subst hne
    have hlen := congrArg List.length h
    rw [List.length_append] at hlen
    exact Or.inl (List.eq_nil_of_length_eq_zero (Nat.succ.inj hlen.symm))
  obtain ⟨hhead, hsplit | ⟨-, hsplit⟩⟩ := pathNames_dirPath hne (names_ne_nil h)
  · refine Or.inr ⟨dirPath path, ?_, fun s t => ?_⟩
    · exact (List.append_inj' (h.symm.trans hsplit) rfl).1.symm
    · unfold startNode
      simp only [hhead]
  · refine Or.inl ?_
    have happend : names ++ [name] = [] ++ [lastName path] := h.symm.trans hsplit
    exact (List.append_inj' happend rfl).1

/-- The last turn of a walk. -/
theorem walk_last {s : Vfs} {fuel : Nat} {names : List Name} {name : Name} {p q : Place}
    (h : walk s fuel p (names ++ [name]) = .ok q) :
    ∃ p₁, walk s fuel p names = .ok p₁ ∧ goName s fuel p₁ name = .ok q := by
  rw [walk_append] at h
  rcases hwalk : walk s fuel p names with halt | p₁
  · rw [hwalk] at h
    cases h
  · rw [hwalk] at h
    exact ⟨p₁, rfl, (walk_single s fuel p₁ name).symm.trans h⟩

/-- How the lookup of such a path goes. -/
theorem locate_name {s : Vfs} {fuel t : Nat} {path name : Name} {names : List Name} {q : Place}
    (hnames : pathNames path = names ++ [name]) (h : locate s fuel t path = .ok q) :
    ∃ p p₁, startAt s (startNode s t path) = .ok p ∧ walk s fuel p names = .ok p₁ ∧
      goName s fuel p₁ name = .ok q := by
  unfold locate at h
  rw [hnames] at h
  rcases hstart : startAt s (startNode s t path) with halt | p
  · rw [hstart] at h
    cases h
  rw [hstart] at h
  obtain ⟨p₁, hwalk, hgo⟩ := walk_last h
  exact ⟨p, p₁, rfl, hwalk, hgo⟩

theorem trailOf_eq {s : Vfs} {fuel t : Nat} {path : Name} {names : List Name} {p : Place}
    (hnames : pathNames path = names) (hstart : startAt s (startNode s t path) = .ok p) :
    trailOf s fuel t path = trail s fuel names p := by
  unfold trailOf
  rw [hstart, hnames]
  rfl

/-- Without its last name the path leaves the beginning of its trail. -/
theorem exists_dir_trail {s : Vfs} {fuel t : Nat} {path name : Name} {names : List Name}
    {p : Place} (hnames : pathNames path = names ++ [name])
    (hstart : startAt s (startNode s t path) = .ok p) :
    names = [] ∨ ∃ dir, pathNames dir = names ∧ trailOf s fuel t dir = trail s fuel names p := by
  rcases exists_dir hnames with hnil | ⟨dir, hdir, hsame⟩
  · exact Or.inl hnil
  · exact Or.inr ⟨dir, hdir, trailOf_eq hdir ((hsame s t).symm ▸ hstart)⟩

/-- What the last name leaves. -/
theorem mem_trail_last {s : Vfs} {fuel : Nat} {names : List Name} {name : Name} {p : Place}
    {e : FileNode × Place} (he : e ∈ trailFrom s fuel (walk s fuel p names) [name]) :
    name ≠ ['.'] ∧ ∃ p₁, walk s fuel p names = .ok p₁ ∧ goName s fuel p₁ name = .ok e.2 ∧
      e.1 = ⟨e.2.buffer.inode, p₁.temp.fs⟩ := by
  rcases hwalk : walk s fuel p names with halt | p₁
  · rw [hwalk] at he
    exact absurd he List.not_mem_nil
  rw [hwalk] at he
  have he : e ∈ trail s fuel [name] p₁ := he
  by_cases hdot : name = ['.']
  · rw [hdot, trail_dot] at he
    exact absurd he List.not_mem_nil
  rcases hgo : goName s fuel p₁ name with halt | q
  · rw [trail_halt hgo] at he
    exact absurd he List.not_mem_nil
  · rw [trail_name hdot hgo] at he
    rw [List.mem_singleton.mp he]
    exact ⟨hdot, p₁, rfl, hgo, rfl⟩

/-- The trail of such a walk ends with its last entry. -/
theorem trail_snoc {s : Vfs} {fuel : Nat} {names : List Name} {name : Name} {p p₁ q : Place}
    (hdot : name ≠ ['.']) (hwalk : walk s fuel p names = .ok p₁)
    (hgo : goName s fuel p₁ name = .ok q) : trail s fuel (names ++ [name]) p =
      trail s fuel names p ++ [(⟨q.buffer.inode, p₁.temp.fs⟩, q)] := by
  rw [trail_append, hwalk]
  show _ ++ trail s fuel [name] p₁ = _
  rw [trail_name hdot hgo]
  rfl

theorem walk_snoc {s : Vfs} {fuel : Nat} {names : List Name} {name : Name} {p p₁ q : Place}
    (hwalk : walk s fuel p names = .ok p₁) (hgo : goName s fuel p₁ name = .ok q) :
    walk s fuel p (names ++ [name]) = .ok q := by
  rw [walk_append, hwalk]
  show walk s fuel p₁ [name] = .ok q
  rw [walk_single, hgo]

/-- What a walk to the end of the path finds. -/
theorem find_of_walk {s : Vfs} {fuel t : Nat} {path name : Name} {names : List Name}
    {p q : Place} (hnames : pathNames path = names ++ [name])
    (hstart : startAt s (startNode s t path) = .ok p)
    (hwalk : walk s fuel p (names ++ [name]) = .ok q) (buf : FileNode) :
    fsFindPath s fuel t path buf = .ok (0, q.temp) := by
  rw [fsFindPath_eq s fuel t buf (names_ne_nil hnames)]
  unfold locate
  rw [hstart, hnames]
  show landing buf (walk s fuel p (names ++ [name])) = _
  rw [hwalk]
  rfl

end OsThing.Fs
