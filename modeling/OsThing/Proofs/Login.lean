/-
The passwords that `login` tries.

A line of at most thirty-two characters is one password.  Of a longer one the first thirty-two
are the password, the next is read and lost, and what is behind it is the beginning of another
password: so that thirty-three characters of any kind, and then the right password, are as good
as the password alone.  `tries` says which passwords a line is, and `Taken` carries it from one
byte to the next.
-/
import OsThing.Proofs.ShellCommands
import OsThing.Proofs.Typing
import OsThing.User.Login
import Mathlib.Data.List.Induction

namespace OsThing.Login

open Runs LineEdit Strings

/-! ### The pieces of a line -/

/-- The `k`-th password in a line: thirty-two characters, behind `k` times thirty-three. -/
def piece (line : List UInt8) (k : Nat) : List UInt8 :=
  (line.drop ((MAX_LEN + 1) * k)).take MAX_LEN

/-- The first `n` passwords in a line, each up to its zero if it has one. -/
def tries (line : List UInt8) (n : Nat) : List (List UInt8) :=
  (List.range n).map fun k => (piece line k).takeWhile (· ≠ 0)

theorem tries_succ (line : List UInt8) (n : Nat) :
    tries line (n + 1) = tries line n ++ [(piece line n).takeWhile (· ≠ 0)] := by
  unfold tries
  rw [List.range_succ, List.map_append, List.map_singleton]

/-- A character more does not change the pieces that are full. -/
theorem tries_concat {line : List UInt8} {n : Nat} (hn : (MAX_LEN + 1) * n ≤ line.length)
    (c : UInt8) : tries (line ++ [c]) n = tries line n := by
  refine List.map_congr_left fun k hk => congrArg (List.takeWhile _) ?_
  have hk := List.mem_range.mp hk
  have hmul : (MAX_LEN + 1) * (k + 1) ≤ (MAX_LEN + 1) * n := Nat.mul_le_mul_left _ hk
  have hsucc : (MAX_LEN + 1) * (k + 1) = (MAX_LEN + 1) * k + (MAX_LEN + 1) := Nat.mul_succ _ _
  have hfull : MAX_LEN ≤ (line.drop ((MAX_LEN + 1) * k)).length := by
    rw [List.length_drop]
    omega
  unfold piece
  rw [List.drop_append_of_le_length (by omega), List.take_append_of_le_length hfull]

theorem mod_lt (line : List UInt8) : line.length % (MAX_LEN + 1) < MAX_LEN + 1 :=
  Nat.mod_lt _ (Nat.succ_pos MAX_LEN)

/-! ### One byte -/

/-- What `login` has made of the input: the lines that have ended have been tried, and of the one
that has not what is behind its last full piece is in `buf`. -/
structure Taken (s : Login) (input : List UInt8) (ended : List (List UInt8)) (rest : List UInt8) :
    Prop where
  cut : Cut 10 input ended rest
  got : s.got = (ended.flatMap fun line => tries line (line.length / (MAX_LEN + 1) + 1)) ++
    tries rest (rest.length / (MAX_LEN + 1))
  correct : s.correct = s.got.map fun word => decide (word = pass)
  index : s.i = rest.length % (MAX_LEN + 1)
  text : (List.range s.i).map s.buf = rest.drop ((MAX_LEN + 1) * (rest.length / (MAX_LEN + 1)))

variable {s : Login} {input rest : List UInt8} {ended : List (List UInt8)}

/-- Only the password is correct. -/
theorem correct_iff {word : List UInt8} (hword : word.length < 2 ^ 32) :
    (strcmp word pass == 0) = decide (word = pass) := by
  rw [Bool.beq_eq_decide_eq]
  refine decide_eq_decide.mpr ⟨fun h => eq_of_strcmp hword (by decide) h, ?_⟩
  rintro rfl
  decide

/-- The password that is compared is the piece that is in `buf`. -/
theorem check_got (hi : s.i ≤ MAX_LEN) :
    s.check = some { s with
      buf := Function.update s.buf s.i 0
      i := 0
      got := s.got ++ [((List.range s.i).map s.buf).takeWhile (· ≠ 0)]
      correct := s.correct ++
        [decide (((List.range s.i).map s.buf).takeWhile (· ≠ 0) = pass)] } := by
  obtain ⟨k, hk⟩ : ∃ k, MAX_LEN + 1 = s.i + (k + 1) := ⟨MAX_LEN - s.i, by omega⟩
  have hstring : string { s with buf := Function.update s.buf s.i 0 } =
      ((List.range s.i).map s.buf).takeWhile (· ≠ 0) := by
    unfold string
    dsimp only
    rw [hk, List.range_add, List.map_append, Prompt.map_store, List.range_succ_eq_map,
      List.map_cons, List.map_cons, Nat.add_zero, Function.update_self, Prompt.takeWhile_zero]
  have hlength : (((List.range s.i).map s.buf).takeWhile (· ≠ 0)).length < 2 ^ 32 := by
    have hle := (List.takeWhile_sublist (· ≠ 0) (l := (List.range s.i).map s.buf)).length_le
    rw [List.length_map, List.length_range] at hle
    unfold MAX_LEN at hi
    omega
  unfold check store
  rw [if_pos (by omega), Option.map_some, hstring, correct_iff hlength]

/-- The line so far is its full pieces and what is in `buf`. -/
theorem Taken.inBuf (h : Taken s input ended rest) :
    piece rest (rest.length / (MAX_LEN + 1)) = (List.range s.i).map s.buf := by
  have hlt := mod_lt rest
  have hdiv := Nat.div_add_mod rest.length (MAX_LEN + 1)
  unfold piece
  rw [← h.text, List.take_of_length_le]
  rw [List.length_map, List.length_range, h.index]
  omega

/-- The end of the line. -/
theorem Taken.line (h : Taken s input ended rest) :
    ∃ s', s.feed 10 = some s' ∧ Taken s' (input ++ [10]) (ended ++ [rest]) [] := by
  have hi : s.i ≤ MAX_LEN := by
    have hlt := mod_lt rest
    rw [h.index]
    omega
  refine ⟨_, (if_neg fun hc => hc.2 rfl).trans (check_got hi), h.cut.line, ?_, ?_, rfl, rfl⟩
  · dsimp only
    rw [h.got, List.flatMap_append, List.flatMap_singleton, tries_succ, h.inBuf,
      List.append_assoc]
    exact (List.append_nil _).symm
  · dsimp only
    rw [h.correct, List.map_append, List.map_singleton]

/-- A character of the line. -/
theorem Taken.key (h : Taken s input ended rest) {c : UInt8} (hc : c ≠ 10) :
    ∃ s', s.feed c = some s' ∧ Taken s' (input ++ [c]) ended (rest ++ [c]) := by
  have hlt := mod_lt rest
  have hdiv := Nat.div_add_mod rest.length (MAX_LEN + 1)
  have hlength : (rest ++ [c]).length = rest.length + 1 := List.length_append
  have hindex := h.index
  by_cases hroom : s.i < MAX_LEN
  · -- The character goes into `buf`.
    have hsame : (rest ++ [c]).length / (MAX_LEN + 1) = rest.length / (MAX_LEN + 1) := by
      rw [hlength]
      unfold MAX_LEN at *
      omega
    have hfeed : s.feed c = some { s with buf := Function.update s.buf s.i c, i := s.i + 1 } := by
      unfold feed store
      rw [if_pos ⟨hroom, hc⟩, if_pos (by omega)]
      rfl
    refine ⟨_, hfeed, h.cut.key hc, ?_, h.correct, ?_, ?_⟩
    · rw [hsame, tries_concat (by omega)]
      exact h.got
    · dsimp only
      rw [hlength]
      unfold MAX_LEN at *
      omega
    · dsimp only
      rw [Prompt.map_put, h.text, hsame, List.drop_append_of_le_length (by omega)]
  · -- `buf` is full, and the character is lost.
    have hfull : s.i = MAX_LEN := by omega
    have hnext : (rest ++ [c]).length / (MAX_LEN + 1) = rest.length / (MAX_LEN + 1) + 1 := by
      rw [hlength]
      unfold MAX_LEN at *
      omega
    have hpiece : piece (rest ++ [c]) (rest.length / (MAX_LEN + 1)) =
        (List.range s.i).map s.buf := by
      unfold piece
      rw [List.drop_append_of_le_length (by omega), ← h.text, List.take_append_of_le_length]
      · exact List.take_of_length_le (by rw [List.length_map, List.length_range, hfull])
      · rw [List.length_map, List.length_range, hfull]
    refine ⟨_, (if_neg fun hc => hroom hc.1).trans (check_got (by omega)), h.cut.key hc, ?_, ?_,
      ?_, ?_⟩
    · dsimp only
      rw [hnext, tries_succ, tries_concat (by omega), hpiece, h.got, List.append_assoc]
    · dsimp only
      rw [h.correct, List.map_append, List.map_singleton]
    · dsimp only
      rw [hlength]
      unfold MAX_LEN at *
      omega
    · dsimp only
      rw [hnext, List.drop_eq_nil_of_le]
      · rfl
      · rw [hlength]
        unfold MAX_LEN at *
        omega

/-! ### Any input -/

theorem run_concat {s₀ s' : Login} {c : UInt8} (hrun : runAll feed s₀ input = some s)
    (hfeed : s.feed c = some s') : runAll feed s₀ (input ++ [c]) = some s' := by
  rw [runAll_append, hrun, Option.bind_some]
  unfold runAll
  rw [hfeed]
  rfl

/--
**The passwords that are tried.**  Whatever is typed, `login` stays inside `buf`.  The passwords
that it compares are those of the lines, in order: the first thirty-two characters of each, and
thirty-two more behind every thirty-third, which is lost.  It says that a password is correct
exactly if, up to its first zero, it is `pass`.
-/
theorem passwords_tried (buf : Nat → UInt8) (input : List UInt8) :
    ∃ s ended rest, runAll feed (start buf) input = some s ∧
      Cut 10 input ended rest ∧
      s.got = (ended.flatMap fun line => tries line (line.length / (MAX_LEN + 1) + 1)) ++
        tries rest (rest.length / (MAX_LEN + 1)) ∧
      s.correct = s.got.map fun word => decide (word = pass) := by
  suffices hall : ∃ s ended rest, runAll feed (start buf) input = some s ∧
      Taken s input ended rest by
    obtain ⟨s, ended, rest, hrun, htaken⟩ := hall
    exact ⟨s, ended, rest, hrun, htaken.cut, htaken.got, htaken.correct⟩
  induction input using List.reverseRecOn with
  | nil => exact ⟨_, [], [], rfl, cut_nil 10, rfl, rfl, rfl, rfl⟩
  | append_singleton input c ih =>
      obtain ⟨s, ended, rest, hrun, htaken⟩ := ih
      by_cases hc : c = 10
      · subst hc
        obtain ⟨s', hfeed, htaken'⟩ := htaken.line
        exact ⟨s', _, _, run_concat hrun hfeed, htaken'⟩
      · obtain ⟨s', hfeed, htaken'⟩ := htaken.key hc
        exact ⟨s', _, _, run_concat hrun hfeed, htaken'⟩

end OsThing.Login
