/-
When the boot command line is split into its words.

The two arrays after the loop took in some bytes are told by these bytes alone (`after`): each
of them, with zeros for the spaces, and a pointer behind each space.  A byte more takes `after`
of the bytes before to `after` of those with it.  So the loop ends with all of the line, or at
one of its limits, and there one of the two last stores is past the end of its array.

The init option is the first word that is `init` or begins with `init=`, so it is right unless
that one is the bare `init`.
-/
import OsThing.Kern.Prompt
import OsThing.Proofs.Shell
import Mathlib.Data.List.Count
import Mathlib.Data.List.Forall2
import Mathlib.Data.List.Infix
import Mathlib.Data.List.Nodup
import Mathlib.Tactic.Common

namespace OsThing.Prompt

open Shell (LineAt)

/-- What the spaces separate. -/
def words (cmd : List UInt8) : List (List UInt8) := cmd.splitOn 32

/-- Where the words begin. -/
def starts (cmd : List UInt8) : List Nat := 0 :: cmd.findIdxs (· == 32) 1

/-- `init`. -/
def bareInit : List UInt8 := [105, 110, 105, 116]

/-- `init=`. -/
def initEq : List UInt8 := [105, 110, 105, 116, 61]

/-- A word in `input`, with a zero behind it. -/
def WordAt (input : Nat → UInt8) (word : List UInt8) (start : Nat) : Prop :=
  start + word.length < INPUT_SIZE ∧ LineAt input start word

/-- The init option is the path of a word `init=PATH`, if there is one. -/
def InitTaken (cmd : List UInt8) : Option Nat → Prop
  | none => ∀ word ∈ words cmd, ¬ initEq <+: word
  | some p => ∃ (k start : Nat) (path : List UInt8), (words cmd)[k]? = some (initEq ++ path) ∧
      (starts cmd)[k]? = some start ∧ p = start + initEq.length

/-- The arguments are the words, with a null pointer behind them. -/
structure IsParsed (cmd : List UInt8) (p : Parsed) : Prop where
  words : List.Forall₂ (WordAt p.arrays.input) (words cmd) (starts cmd)
  args : ∀ k ≤ (starts cmd).length, p.arrays.args k = (starts cmd)[k]?
  init : InitTaken cmd p.init

/-- A word that the loop takes for the init option. -/
def takesInit (word : List UInt8) : Bool := word == bareInit || initEq.isPrefixOf word

namespace Arrays

variable {s : Arrays}

theorem setInput_some {i : Nat} (h : i < 256) (value : UInt8) :
    s.setInput i value = some { s with input := Function.update s.input i value } :=
  if_pos h

theorem setArg_some {j : Nat} (h : j < 16) (value : Option Nat) :
    s.setArg j value = some { s with args := Function.update s.args j value } :=
  if_pos h

theorem setInput_none {i : Nat} (h : ¬ i < 256) (value : UInt8) : s.setInput i value = none :=
  if_neg h

theorem setArg_none {j : Nat} (h : ¬ j < 16) (value : Option Nat) : s.setArg j value = none :=
  if_neg h

end Arrays

/-! ### The loop -/

/-- What is stored for a byte. -/
def cleared (c : UInt8) : UInt8 := if c = 32 then 0 else c

/-- The arrays after some bytes were taken in. -/
def after (s : Arrays) (p : List UInt8) : Arrays :=
  { input := fun i => (p.map cleared)[i]?.getD (s.input i)
    args := fun j => (starts p)[j]?.or (s.args j) }

section Loop

variable {s : Arrays} {p : List UInt8}

theorem length_starts (p : List UInt8) : (starts p).length = p.count 32 + 1 := by
  simp [starts, List.count]

theorem starts_space (p : List UInt8) : starts (p ++ [32]) = starts p ++ [p.length + 1] := by
  simp [starts, List.findIdxs_append, Nat.add_comm]

theorem starts_other (p : List UInt8) {c : UInt8} (hc : c ≠ 32) : starts (p ++ [c]) = starts p := by
  simp [starts, List.findIdxs_append, hc]

theorem starts_prefix {q : List UInt8} (h : q <+: p) : (starts q).length ≤ (starts p).length := by
  rw [length_starts, length_starts]
  exact Nat.succ_le_succ (h.sublist.count_le 32)

/-- One entry more in a table. -/
theorem getElem?_concat {α : Type} (l : List α) (a : α) (i : Nat) :
    (l ++ [a])[i]? = Function.update (fun i => l[i]?) l.length (some a) i := by
  by_cases hi : i = l.length
  · simp [hi]
  · rw [Function.update_of_ne hi]
    grind

theorem after_input (s : Arrays) (p : List UInt8) (c : UInt8) :
    (after s (p ++ [c])).input = Function.update (after s p).input p.length (cleared c) := by
  funext i
  simp only [after, List.map_append, List.map_singleton, getElem?_concat, List.length_map]
  by_cases hi : i = p.length
  · simp [hi]
  · simp [hi]

theorem after_space (s : Arrays) (p : List UInt8) :
    (after s (p ++ [32])).args =
      Function.update (after s p).args (starts p).length (some (p.length + 1)) := by
  funext j
  simp only [after, starts_space, getElem?_concat]
  by_cases hj : j = (starts p).length
  · simp [hj]
  · simp [hj]

theorem after_nil (s : Arrays) :
    after s [] = { s with args := Function.update s.args 0 (some 0) } := by
  unfold after
  congr 1
  funext j
  cases j with
  | zero => simp [starts]
  | succ j => simp [starts]

/-- **One byte of the command line.** -/
theorem splitLoop_step (s : Arrays) (p : List UInt8) (c : UInt8) (rest : List UInt8)
    (hi : p.length < 256) (hj : (starts p).length < 16) :
    splitLoop (c :: rest) p.length (starts p).length (after s p) =
      splitLoop rest (p ++ [c]).length (starts (p ++ [c])).length (after s (p ++ [c])) := by
  have hinput := after_input s p c
  simp only [splitLoop, Arrays.setInput_some hi, Arrays.setArg_some hj, if_pos (And.intro hi hj),
    Option.bind_some, List.length_append, List.length_singleton]
  by_cases hc : c = 32
  · subst hc
    rw [if_pos rfl, Function.update_idem, starts_space, List.length_append, List.length_singleton]
    congr 1
    rw [Arrays.mk.injEq]
    exact ⟨hinput.symm, (after_space s p).symm⟩
  · rw [if_neg hc, starts_other p hc]
    congr 1
    rw [show cleared c = c from if_neg hc] at hinput
    rw [← hinput]
    simp only [after, starts_other p hc]

/-- The loop ends with all of the line, or at a limit. -/
theorem splitLoop_after (s : Arrays) : ∀ (rest p : List UInt8), p.length ≤ 256 →
    (starts p).length ≤ 16 →
    ∃ q, splitLoop rest p.length (starts p).length (after s p) =
        some (q.length, (starts q).length, after s q) ∧
      q <+: p ++ rest ∧ (q = p ++ rest ∨ q.length = 256 ∨ (starts q).length = 16) := by
  intro rest
  induction rest with
  | nil =>
      intro p _ _
      exact ⟨p, by simp [splitLoop]⟩
  | cons c rest ih =>
      intro p hi hj
      by_cases hlimit : p.length < 256 ∧ (starts p).length < 16
      · rw [splitLoop_step s p c rest hlimit.1 hlimit.2]
        have hcount : (starts (p ++ [c])).length ≤ 16 := by
          rw [length_starts, List.count_append, List.count_singleton]
          have h := hlimit.2
          rw [length_starts] at h
          split <;> omega
        have h := ih (p ++ [c]) (by simp; omega) hcount
        simpa using h
      · refine ⟨p, ?_, List.prefix_append _ _, Or.inr (by omega)⟩
        rw [splitLoop, if_neg hlimit]

end Loop

/-- The arrays after the two last stores. -/
def ended (s : Arrays) (cmd : List UInt8) : Arrays :=
  { input := Function.update (after s cmd).input cmd.length 0
    args := Function.update (after s cmd).args (starts cmd).length none }

/-- A line that leaves room for the two last stores. -/
def Fits (cmd : List UInt8) : Prop := cmd.length < 256 ∧ (starts cmd).length < 16

/-- What is split, and what is written past the end of an array. -/
theorem split_eq (cmd : List UInt8) (s : Arrays) :
    (Fits cmd → split cmd s = some ((starts cmd).length, ended s cmd)) ∧
      (¬ Fits cmd → split cmd s = none) := by
  obtain ⟨q, hloop, hprefix, hend⟩ := splitLoop_after s cmd [] (by simp) (by simp [starts])
  rw [List.nil_append] at hprefix hend
  have hfirst : s.setArg 0 (some 0) = some (after s []) := by
    rw [after_nil, Arrays.setArg, if_pos (by decide)]
  have hsplit : split cmd s = ((after s q).setInput q.length 0).bind fun s =>
      (s.setArg (starts q).length none).map fun s => ((starts q).length, s) := by
    rw [split, hfirst, Option.bind_some]
    exact (congrArg (Option.bind · _) hloop).trans rfl
  rw [hsplit]
  constructor
  · intro hfits
    have hlength := hprefix.length_le
    have hcount := starts_prefix hprefix
    have hall : q = cmd := by
      unfold Fits at hfits
      rcases hend with hall | hlimit | hlimit
      · exact hall
      · omega
      · omega
    subst hall
    simp only [Arrays.setInput_some hfits.1, Arrays.setArg_some hfits.2, Option.bind_some,
      Option.map_some, ended]
  · intro hfits
    by_cases hi : q.length < 256
    · have hj : ¬ (starts q).length < 16 := by
        intro hj
        rcases hend with hall | hlimit | hlimit
        · exact hfits (hall ▸ ⟨hi, hj⟩)
        · omega
        · omega
      simp only [Arrays.setInput_some hi, Arrays.setArg_none hj, Option.bind_some, Option.map_none]
    · simp only [Arrays.setInput_none hi, Option.bind_none]

/-! ### The words -/

/-- Bytes that lie at `a` one by one. -/
theorem lineAt_of_getElem {input : Nat → UInt8} : ∀ {l : List UInt8} {a : Nat},
    (∀ i (hi : i < l.length), input (a + i) = l[i]) → input (a + l.length) = 0 →
    LineAt input a l := by
  intro l
  induction l with
  | nil =>
      intro a _ hend
      exact hend
  | cons c l ih =>
      intro a hbytes hend
      refine ⟨hbytes 0 (Nat.succ_pos _), ih ?_ ?_⟩
      · intro i hi
        have h := hbytes (i + 1) (Nat.succ_lt_succ hi)
        rw [Nat.add_assoc, Nat.add_comm 1 i]
        simpa using h
      · rw [Nat.add_assoc, Nat.add_comm 1 l.length]
        exact hend

theorem ended_input (s : Arrays) (cmd : List UInt8) :
    LineAt (ended s cmd).input 0 (cmd.map cleared) := by
  apply lineAt_of_getElem
  · intro i hi
    have hlt : i < cmd.length := by simpa using hi
    have hne : i ≠ cmd.length := by omega
    simp [ended, after, Function.update_of_ne hne, List.getElem?_eq_getElem hlt]
  · simp [ended]

theorem ended_args (s : Arrays) (cmd : List UInt8) {k : Nat} (hk : k ≤ (starts cmd).length) :
    (ended s cmd).args k = (starts cmd)[k]? := by
  by_cases hlast : k = (starts cmd).length
  · simp [ended, hlast]
  · have hlt : k < (starts cmd).length := by omega
    simp [ended, after, Function.update_of_ne hlast, List.getElem?_eq_getElem hlt]

/-- With zeros for the spaces, the words lie where they begin. -/
theorem words_lie {input : Nat → UInt8} : ∀ {cmd : List UInt8} {a : Nat},
    LineAt input a (cmd.map cleared) →
    List.Forall₂ (fun word start => start + word.length ≤ a + cmd.length ∧ LineAt input start word)
      (words cmd) (a :: cmd.findIdxs (· == 32) (a + 1)) := by
  intro cmd
  induction cmd with
  | nil =>
      intro a h
      simpa [words] using h
  | cons c cmd ih =>
      intro a h
      obtain ⟨hfirst, hrest⟩ := h
      have hlater := ih hrest
      have hlength : a + 1 + cmd.length = a + (c :: cmd).length := by simp; omega
      rw [hlength] at hlater
      unfold words at hlater ⊢
      rw [List.splitOn_cons_eq_if_modifyHead, List.findIdxs_cons]
      by_cases hc : c = 32
      · subst hc
        refine .cons ⟨Nat.le_add_right _ _, ?_⟩ hlater
        exact hfirst
      · have hb : ¬ (c == 32) = true := by simpa using hc
        rw [if_neg hb, if_neg hb]
        rw [show cleared c = c from if_neg hc] at hfirst
        cases hsplit : cmd.splitOn 32 with
        | nil => exact absurd hsplit (List.splitOn_ne_nil _ _)
        | cons word later =>
            rw [hsplit] at hlater
            cases hlater with
            | cons hword hlater =>
                refine .cons ⟨?_, hfirst, hword.2⟩ hlater
                rw [List.length_cons]
                have := hword.1
                omega

theorem ended_words (s : Arrays) {cmd : List UInt8} (h : Fits cmd) :
    List.Forall₂ (WordAt (ended s cmd).input) (words cmd) (starts cmd) := by
  refine (words_lie (ended_input s cmd)).imp ?_
  intro word start hword
  refine ⟨?_, hword.2⟩
  have hend := hword.1
  have hlength := h.1
  show start + word.length < 256
  omega

/-! ### The init option -/

section Comparison

variable {input : Nat → UInt8} {word l : Nat} {c x : UInt8} {pat : List UInt8}

theorem initLength_over (h : input (word + l) = 0 ∨ input (word + l) = 61) :
    initLength input word (x :: pat) l = l :=
  if_pos h

theorem initLength_next (h : input (word + l) = c) (hzero : c ≠ 0) (heq : c ≠ 61) :
    initLength input word (x :: pat) l = if c ≠ x then 0 else initLength input word pat (l + 1) := by
  rw [initLength, h]
  exact if_neg (not_or.mpr ⟨hzero, heq⟩)

/-- The comparison goes through `initstr` if the word does, with its end or `=` behind it. -/
theorem initLength_iff : ∀ (pat : List UInt8) {rest : List UInt8} {l : Nat},
    LineAt input (word + l) rest → 0 ∉ rest → 61 ∉ pat → 0 < l + pat.length →
    (initLength input word (pat ++ [0]) l = l + pat.length ↔ rest = pat ∨ pat ++ [61] <+: rest) := by
  intro pat
  induction pat with
  | nil =>
      intro rest l hrest hzero _ hpos
      cases rest with
      | nil => simp [initLength_over (Or.inl hrest)]
      | cons c rest =>
          by_cases hc : c = 61
          · simp [initLength_over (Or.inr (hrest.1.trans hc)), hc]
          · have hc₀ : c ≠ 0 := by
              intro h
              simp [h] at hzero
            rw [List.nil_append, initLength_next hrest.1 hc₀ hc, if_pos hc₀]
            have hl : ¬ 0 = l := by simpa using Nat.ne_of_lt hpos
            simpa [hl] using Ne.symm hc
  | cons x pat ih =>
      intro rest l hrest hzero heq hpos
      have hx : x ≠ 61 := by
        intro h
        simp [h] at heq
      cases rest with
      | nil => simp [initLength_over (Or.inl hrest)]
      | cons c rest =>
          by_cases hc : c = 61
          · rw [List.cons_append, initLength_over (Or.inr (hrest.1.trans hc))]
            simp [hc, hx, Ne.symm hx]
          · have hc₀ : c ≠ 0 := by
              intro h
              simp [h] at hzero
            rw [List.cons_append, initLength_next hrest.1 hc₀ hc]
            by_cases hcx : c = x
            · have hlater := ih (l := l + 1) hrest.2 (by simp_all) (by simp_all) (by omega)
              simpa [hcx, Nat.add_assoc, Nat.add_comm 1] using hlater
            · simp [hcx, Ne.symm hcx]

end Comparison

/-- A word that is taken is `init`, or begins with `init=`. -/
theorem initLength_takes {input : Nat → UInt8} {word : List UInt8} {start : Nat}
    (h : LineAt input start word) (hzero : 0 ∉ word) :
    initLength input start initstr 0 = 4 ↔ takesInit word = true := by
  have hiff := initLength_iff bareInit (l := 0) h hzero (by decide) (by decide)
  simpa [takesInit, bareInit, initEq, initstr] using hiff

/-- The first word that is taken gives the path. -/
theorem takeInit_eq {s : Arrays} : ∀ {ws : List (List UInt8)} {starts : List Nat} {i : Nat},
    List.Forall₂ (fun word start => 0 ∉ word ∧ LineAt s.input start word) ws starts →
    (∀ k < starts.length, s.args (i + k) = starts[k]?) →
    takeInit s starts.length i =
      ((ws.zip starts).find? fun p => takesInit p.1).map fun p => p.2 + 5 := by
  intro ws starts i hws
  induction hws generalizing i with
  | nil =>
      intro _
      rfl
  | @cons word start ws starts hword hws ih =>
      intro hargs
      have hfirst : s.args i = some start := by simpa using hargs 0 (Nat.succ_pos _)
      have hlater : ∀ k < starts.length, s.args (i + 1 + k) = starts[k]? := by
        intro k hk
        rw [Nat.add_assoc, Nat.add_comm 1 k]
        simpa using hargs (k + 1) (Nat.succ_lt_succ hk)
      rw [List.length_cons, takeInit, hfirst, Option.bind_some, List.zip_cons_cons, List.find?_cons]
      have htakes := initLength_takes hword.2 hword.1
      by_cases h : takesInit word = true
      · simp [htakes.mpr h, h]
      · simp [mt htakes.mp h, h, ih hlater]

theorem mem_of_mem_words : ∀ {cmd word : List UInt8} {c : UInt8}, word ∈ words cmd → c ∈ word →
    c ∈ cmd := by
  intro cmd
  induction cmd with
  | nil =>
      intro word c hword hc
      simp [words] at hword
      simp [hword] at hc
  | cons x cmd ih =>
      intro word c hword hc
      unfold words at hword ih
      rw [List.splitOn_cons_eq_if_modifyHead] at hword
      cases hsplit : cmd.splitOn 32 with
      | nil => exact absurd hsplit (List.splitOn_ne_nil _ _)
      | cons first later =>
          rw [hsplit] at hword ih
          by_cases hx : x = 32
          · simp only [hx, beq_self_eq_true, if_true, List.mem_cons] at hword
            rcases hword with rfl | hword
            · simp at hc
            · exact List.mem_cons_of_mem _ (ih (List.mem_cons.mpr hword) hc)
          · simp only [beq_iff_eq, hx, if_false, List.modifyHead_cons, List.mem_cons] at hword
            rcases hword with rfl | hword
            · rcases List.mem_cons.mp hc with rfl | hc
              · exact List.mem_cons_self
              · exact List.mem_cons_of_mem _ (ih List.mem_cons_self hc)
            · exact List.mem_cons_of_mem _ (ih (List.mem_cons_of_mem _ hword) hc)

/-- No two words begin at one place. -/
theorem starts_nodup (cmd : List UInt8) : (starts cmd).Nodup := by
  refine List.nodup_cons.mpr ⟨?_, List.nodup_findIdxs⟩
  intro h
  exact absurd (List.ge_of_mem_findIdxs 0 h) (by decide)

/-- The path is that of a word `init=PATH` unless the first word that is taken is `init`. -/
theorem initTaken_iff {cmd : List UInt8} (hlength : (words cmd).length = (starts cmd).length) :
    InitTaken cmd ((((words cmd).zip (starts cmd)).find? fun p => takesInit p.1).map
      fun p => p.2 + 5) ↔ (words cmd).find? takesInit ≠ some bareInit := by
  have hwords : (words cmd).find? takesInit =
      (((words cmd).zip (starts cmd)).find? fun p => takesInit p.1).map Prod.fst := by
    conv_lhs => rw [← List.map_fst_zip hlength.le]
    exact List.find?_map
  rw [hwords]
  cases hfind : ((words cmd).zip (starts cmd)).find? fun p => takesInit p.1 with
  | none =>
      refine iff_of_true ?_ (by simp)
      intro word hword hprefix
      rw [hfind] at hwords
      have hnot := List.find?_eq_none.mp hwords word hword
      simp [takesInit, List.isPrefixOf_iff_prefix.mpr hprefix] at hnot
  | some found =>
      obtain ⟨word, start⟩ := found
      have htakes : takesInit word = true := by simpa using List.find?_some hfind
      obtain ⟨k, hk⟩ := List.mem_iff_getElem?.mp (List.mem_of_find?_eq_some hfind)
      obtain ⟨hword, hstart⟩ := List.getElem?_zip_eq_some.mp hk
      by_cases hbare : word = bareInit
      · refine iff_of_false ?_ (by simp [hbare])
        rintro ⟨k', start', path, hword', hstart', hpath⟩
        have hsame : start' = start := by
          change start + 5 = start' + 5 at hpath
          omega
        rw [hsame] at hstart'
        obtain ⟨hlt, hget⟩ := List.getElem?_eq_some_iff.mp hstart
        obtain ⟨hlt', hget'⟩ := List.getElem?_eq_some_iff.mp hstart'
        have hindex : k' = k := (starts_nodup cmd).getElem_inj_iff.mp (hget'.trans hget.symm)
        rw [hindex, hword, hbare] at hword'
        have hlengths := congrArg List.length (Option.some.inj hword')
        simp [bareInit, initEq] at hlengths
      · refine iff_of_true ?_ (by simpa using hbare)
        simp [takesInit, hbare, List.isPrefixOf_iff_prefix] at htakes
        obtain ⟨path, rfl⟩ := htakes
        exact ⟨k, start, path, hword, hstart, rfl⟩

/-- A line that fits is split as it should be, but for the init option. -/
theorem parse_eq {cmd : List UInt8} (hcmd : 0 ∉ cmd) (hfits : Fits cmd) (s : Arrays) :
    parse cmd s = some ⟨ended s cmd,
      (((words cmd).zip (starts cmd)).find? fun p => takesInit p.1).map fun p => p.2 + 5⟩ := by
  have hwords : List.Forall₂ (fun word start => 0 ∉ word ∧ LineAt (ended s cmd).input start word)
      (words cmd) (starts cmd) := by
    refine (List.forall₂_and_left _ _).mpr ⟨?_, (ended_words s hfits).imp fun _ _ h => h.2⟩
    intro word hword hzero
    exact hcmd (mem_of_mem_words hword hzero)
  have hinit := takeInit_eq (i := 0) hwords fun k hk => by
    rw [Nat.zero_add]
    exact ended_args s cmd hk.le
  rw [parse, (split_eq cmd s).1 hfits, Option.map_some, ← hinit]

/--
**The boot command line is split as it should be** just if it has fewer than 256 bytes, fewer
than 15 spaces, and no bare `init` as the first of the words that are `init` or begin with
`init=`.  For every line and anything in the arrays before.
-/
theorem parses_iff (cmd : List UInt8) (hcmd : 0 ∉ cmd) (s : Arrays) :
    (∃ p, parse cmd s = some p ∧ IsParsed cmd p) ↔
      cmd.length < 256 ∧ cmd.count 32 < 15 ∧ (words cmd).find? takesInit ≠ some bareInit := by
  have hfits : Fits cmd ↔ cmd.length < 256 ∧ cmd.count 32 < 15 := by
    rw [Fits, length_starts]
    omega
  rw [← and_assoc, ← hfits]
  constructor
  · rintro ⟨p, hparse, hp⟩
    have h : Fits cmd := by
      by_contra h
      rw [parse, (split_eq cmd s).2 h] at hparse
      cases hparse
    refine ⟨h, ?_⟩
    rw [parse_eq hcmd h s] at hparse
    obtain rfl := Option.some.inj hparse
    exact (initTaken_iff hp.words.length_eq).mp hp.init
  · rintro ⟨h, hinit⟩
    have hwords := ended_words s h
    exact ⟨_, parse_eq hcmd h s, hwords, fun k hk => ended_args s cmd hk,
      (initTaken_iff hwords.length_eq).mpr hinit⟩

/-- `kernel init=sh`. -/
theorem parses_init_option :
    ∃ p, parse [107, 101, 114, 110, 101, 108, 32, 105, 110, 105, 116, 61, 115, 104]
        ⟨fun _ => 0, fun _ => none⟩ = some p ∧
      IsParsed [107, 101, 114, 110, 101, 108, 32, 105, 110, 105, 116, 61, 115, 104] p :=
  (parses_iff _ (by decide) _).mpr (by decide)

/-- **A line of 256 letters is written past the end of `input`.** -/
theorem long_line_not_parsed : ¬ ∀ (cmd : List UInt8) (s : Arrays), 0 ∉ cmd →
    ∃ p, parse cmd s = some p ∧ IsParsed cmd p := by
  intro h
  have hzero : (0 : UInt8) ∉ List.replicate 256 97 := by
    intro h
    exact absurd (List.eq_of_mem_replicate h) (by decide)
  obtain ⟨p, hparse, -⟩ := h (List.replicate 256 97) ⟨fun _ => 0, fun _ => none⟩ hzero
  have hfits : ¬ Fits (List.replicate 256 97) := by
    intro hfits
    exact absurd hfits.1 (by rw [List.length_replicate]; decide)
  rw [parse, (split_eq _ _).2 hfits] at hparse
  cases hparse

end OsThing.Prompt
