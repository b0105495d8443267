/-
What a command of the shell finds in `args`.

A line is the words that were meant, with a space in front of each but the first, and marks of
quotation around any of them but the first.  The loop that splits it puts a pointer to each word
into `args`, and takes the marks away.  Between two turns, a zero at `cmd` would make strings of
all the pointers that there are (`Spelled`), so the end of the line makes them the words.

The keys leave the line in the buffer that `edited` leaves of them.
-/
import OsThing.Lib.LineEdit
import OsThing.Proofs.Shell

namespace OsThing.Shell

open Bytes LineEdit Runs

/-- A byte of a word, if there are marks around it, and if there are none. -/
def IsText (c : UInt8) : Prop := c ≠ 0 ∧ isQuote c = false
def IsPlain (c : UInt8) : Prop := IsText c ∧ c ≠ 32

instance (c : UInt8) : Decidable (IsText c) := inferInstanceAs (Decidable (_ ∧ _))
instance (c : UInt8) : Decidable (IsPlain c) := inferInstanceAs (Decidable (_ ∧ _))

inductive Word
  | plain (text : List UInt8) (isPlain : ∀ c ∈ text, IsPlain c)
  | quoted (mark mark' : {c : UInt8 // isQuote c = true}) (text : List UInt8)
      (isText : ∀ c ∈ text, IsText c)

namespace Word

def text : Word → List UInt8
  | plain text _ => text
  | quoted _ _ text _ => text

/-- How the word is typed. -/
def typed : Word → List UInt8
  | plain text _ => text
  | quoted mark mark' text _ => mark :: (text ++ [mark'.val])

end Word

/-- Words behind others. -/
def more (words : List Word) : List UInt8 := (words.map fun w => 32 :: w.typed).flatten

/-- What the command finds, after the line was ended. -/
def Kshell.found (b : Blocks) (s : Kshell) : Option Cursor :=
  (split b.args (s.cmd + s.i) (2 ^ 32) ⟨(s.put 0).mem, s.cmd, 1, [.store (s.cmd + s.i)]⟩).map
    fun c => c.setArg b.args c.j 0

/-- The table points to the words, with a null pointer behind them. -/
structure Argv (mem : Memory) (args : Nat) (words : List (List UInt8)) : Prop where
  strings : ∀ k (hk : k < words.length), LineAt mem (read32 mem (args + 4 * k)) words[k]
  last : read32 mem (args + 4 * words.length) = 0

/-! ### Splitting -/

/-- `args[k]` points to a word that lies in front of `cmd`. -/
structure Held (b : Blocks) (c : Cursor) (k : Nat) (word : List UInt8) : Prop where
  start : b.line ≤ read32 c.mem (b.args + 4 * k)
  before : read32 c.mem (b.args + 4 * k) + word.length < c.cmd
  string : LineAt c.mem (read32 c.mem (b.args + 4 * k)) word

/-- The pointers are to the words, the last of which there would be if there were a zero at
`cmd`. -/
structure Spelled (b : Blocks) (words : List (List UInt8)) (word : List UInt8) (c : Cursor) :
    Prop where
  count : c.j = words.length + 1
  strings : ∀ k (hk : k < words.length), Held b c k words[k]
  start : b.line ≤ read32 c.mem (b.args + 4 * words.length)
  before : read32 c.mem (b.args + 4 * words.length) + word.length ≤ c.cmd
  string : LineAt (Function.update c.mem c.cmd 0) (read32 c.mem (b.args + 4 * words.length)) word

theorem Held.congr {b : Blocks} {c c' : Cursor} {k : Nat} {word : List UInt8} (h : Held b c k word)
    (hcmd : c.cmd ≤ c'.cmd) (hslot : read32 c'.mem (b.args + 4 * k) = read32 c.mem (b.args + 4 * k))
    (hline : ∀ x, b.line ≤ x → x < c.cmd → c'.mem x = c.mem x) : Held b c' k word := by
  have hstart := h.start
  have hbefore := h.before
  refine ⟨hslot ▸ hstart, by omega, ?_⟩
  rw [hslot]
  exact h.string.congr fun x hlo hhi => hline x (by omega) (by omega)

/-- The first bytes of a line, once there is a zero behind them. -/
theorem LineAt.text {mem mem' : Memory} : ∀ {text rest : List UInt8} {a : Nat},
    LineAt mem a (text ++ rest) → (∀ x, a ≤ x → x < a + text.length → mem' x = mem x) →
      mem' (a + text.length) = 0 → LineAt mem' a text := by
  intro text
  induction text with
  | nil => exact fun _ _ hzero => hzero
  | cons c text ih =>
      intro rest a h hsame hzero
      rw [List.length_cons] at hsame hzero
      refine ⟨(hsame a (Nat.le_refl a) (by omega)).trans h.1, ih h.2 (fun x hlo hhi => ?_) ?_⟩
      · exact hsame x (by omega) (by omega)
      · rw [Nat.add_right_comm, Nat.add_assoc]
        exact hzero

section Turns

variable {b : Blocks} {stop : Nat} {rest : List UInt8} {c : Cursor} {words : List (List UInt8)}
  {word : List UInt8}

/-- Bytes that are neither a space nor a mark are passed over. -/
theorem split_plain : ∀ {text : List UInt8} {c : Cursor}, (∀ x ∈ text, IsPlain x) →
    Ready b stop (text ++ rest) c → ∀ fuel, ∃ c',
      split b.args stop (fuel + text.length) c = split b.args stop fuel c' ∧
        Ready b stop rest c' ∧ c'.mem = c.mem ∧ c'.cmd = c.cmd + text.length ∧ c'.j = c.j := by
  intro text
  induction text with
  | nil => exact fun _ hready fuel => ⟨_, rfl, hready, rfl, rfl, rfl⟩
  | cons ch text ih =>
      intro c hplain hready fuel
      obtain ⟨⟨hzero, hquote⟩, hspace⟩ := hplain ch List.mem_cons_self
      have hlook := hready.look
      have hturned := turned_other (fuel + text.length) hlook hzero hspace hquote
      obtain ⟨c', hsplit, hready', hmem, hcmd, hj⟩ :=
        ih (fun x hx => hplain x (List.mem_cons_of_mem ch hx)) hlook.next fuel
      refine ⟨c', ?_, hready', hmem, ?_, hj⟩
      · rw [List.length_cons, ← Nat.add_assoc, split, hlook.char_cons, if_neg hzero, hturned.turn,
          Option.bind_some, hsplit]
      · rw [hcmd, List.length_cons]
        show c.cmd + 1 + text.length = c.cmd + (text.length + 1)
        omega

/-- The mark that closes a quotation is found behind its text. -/
theorem skipQuoted_text {mark : UInt8} (hmark : isQuote mark = true) :
    ∀ {text : List UInt8} {c : Cursor} {fuel : Nat}, (∀ x ∈ text, IsText x) →
      Ready b stop (text ++ mark :: rest) c → text.length < fuel → ∃ c',
        skipQuoted stop fuel c = some c' ∧ Ready b stop (mark :: rest) c' ∧ c'.mem = c.mem ∧
          c'.cmd = c.cmd + text.length ∧ c'.j = c.j := by
  intro text
  induction text with
  | nil =>
      intro c fuel _ hready hfuel
      obtain ⟨fuel, rfl⟩ := Nat.exists_eq_succ_of_ne_zero (Nat.ne_of_gt hfuel)
      have hlook := hready.look
      refine ⟨c.look stop, ?_, hlook, rfl, rfl, rfl⟩
      rw [skipQuoted, hlook.char_cons, if_pos (Or.inl hmark)]
  | cons ch text ih =>
      intro c fuel htext hready hfuel
      obtain ⟨fuel, rfl⟩ := Nat.exists_eq_succ_of_ne_zero (Nat.ne_of_gt (Nat.zero_lt_of_lt hfuel))
      obtain ⟨hzero, hquote⟩ := htext ch List.mem_cons_self
      have hlook := hready.look
      have hnot : ¬ (isQuote ch = true ∨ ch = 0) := by
        rw [hquote]
        simpa using hzero
      have hlt : text.length < fuel := Nat.lt_of_succ_lt_succ hfuel
      obtain ⟨c', hskip, hready', hmem, hcmd, hj⟩ :=
        ih (fun x hx => htext x (List.mem_cons_of_mem ch hx)) hlook.next hlt
      refine ⟨c', ?_, hready', hmem, ?_, hj⟩
      · rw [skipQuoted, hlook.char_cons, if_neg hnot, hskip]
      · rw [hcmd, List.length_cons]
        show c.cmd + 1 + text.length = c.cmd + (text.length + 1)
        omega

/-- The cursor after a space. -/
def Cursor.spaced (args : Nat) (c : Cursor) : Cursor :=
  { (c.setArg args c.j (c.cmd + 1)).clear with j := c.j + 1 }

theorem space_turn (hchar : c.char = 32) (args fuel : Nat) :
    (c.space args).quote args stop fuel = some (c.spaced args) := by
  have hcleared : (c.spaced args).char = 0 := Function.update_self c.cmd 0 _
  have hspaced : c.space args = c.spaced args := if_pos hchar
  rw [hspaced]
  unfold Cursor.quote
  rw [hcleared]
  rfl

/-- At a space, the last word is complete, and the next one begins. -/
theorem split_space (h : Ready b stop (32 :: rest) c) (hwords : Spelled b words word c)
    (hj : c.j ≤ 30) (fuel : Nat) : ∃ c',
      split b.args stop (fuel + 1) c = split b.args stop fuel c' ∧ Ready b stop rest c' ∧
        Spelled b (words ++ [word]) [] c' ∧
        read32 c'.mem (b.args + 4 * (words ++ [word]).length) = c'.cmd := by
  have hlook := h.look
  have hlength := h.length
  have hinside := h.inside
  have hstart := h.start
  have hcount := hwords.count
  have hbefore := hwords.before
  have hapart := b.apart
  have hend := b.lineEnd
  rw [List.length_cons] at hlength
  unfold STR_LIMIT at hapart hinside hend
  let c' := ((c.look stop).spaced b.args).next
  have hnew : (words ++ [word]).length = c.j := by
    rw [List.length_append, List.length_singleton, hcount]
  have hpointer : read32 c'.mem (b.args + 4 * c.j) = c.cmd + 1 := by
    refine (read32_congr fun x hlo hhi => Function.update_of_ne ?_ _ _).trans
      (read32_write32 c.mem (b.args + 4 * c.j) (show c.cmd + 1 < 2 ^ 32 by omega))
    show x ≠ c.cmd
    omega
  have hslot : ∀ k < c.j, read32 c'.mem (b.args + 4 * k) = read32 c.mem (b.args + 4 * k) := by
    intro k hk
    refine (read32_congr fun x hlo hhi => Function.update_of_ne ?_ _ _).trans
      (read32_write32_apart c.mem (c.cmd + 1) (a := b.args + 4 * c.j) ?_)
    · show x ≠ c.cmd
      omega
    · omega
  have hline : ∀ x, b.line ≤ x → x ≤ c.cmd → c'.mem x = Function.update c.mem c.cmd 0 x := by
    intro x hlo hhi
    show Function.update (write32 c.mem (b.args + 4 * c.j) (c.cmd + 1)) c.cmd 0 x = _
    by_cases hx : x = c.cmd
    · subst hx
      rw [Function.update_self, Function.update_self]
    · rw [Function.update_of_ne hx, Function.update_of_ne hx, write32_apply, if_neg (by omega)]
  refine ⟨c', ?_, ?_, ⟨?_, fun k hk => ?_, ?_, ?_, ?_⟩, ?_⟩
  · rw [split, hlook.char_cons, if_neg (by decide), space_turn hlook.char_cons, Option.bind_some]
  · have hready := (hlook.setArg hlook.slots (c.cmd + 1)).clear_next
    refine { hready with slots := ⟨Nat.succ_pos _, ?_⟩ }
    show c.j + 1 ≤ 31
    omega
  · exact congrArg (· + 1) hnew.symm
  · rw [hnew] at hk
    rcases Nat.lt_or_ge k words.length with hold | hlast
    · rw [List.getElem_append_left hold]
      refine (hwords.strings k hold).congr (Nat.le_succ c.cmd) (hslot k hk) fun x hlo hhi => ?_
      exact (hline x hlo (Nat.le_of_lt hhi)).trans (Function.update_of_ne (Nat.ne_of_lt hhi) _ _)
    · obtain rfl : k = words.length := by omega
      rw [List.getElem_concat_length rfl]
      rw [← hslot _ hk] at hbefore
      refine ⟨?_, Nat.lt_succ_of_le hbefore, ?_⟩
      · rw [hslot _ hk]
        exact hwords.start
      · have hstring := hwords.string
        rw [← hslot _ hk] at hstring
        refine hstring.congr fun x hlo hhi => hline x ?_ (Nat.le_trans hhi hbefore)
        exact Nat.le_trans (by rw [hslot _ hk]; exact hwords.start) hlo
  · rw [hnew, hpointer]
    omega
  · rw [hnew, hpointer]
    exact Nat.le_refl _
  · rw [hnew, hpointer]
    exact Function.update_self ..
  · rw [hnew, hpointer]
    rfl

/-- A word without marks is its text. -/
theorem split_word_plain {text : List UInt8} (hplain : ∀ x ∈ text, IsPlain x)
    (h : Ready b stop (text ++ rest) c) (hwords : Spelled b words [] c)
    (hpointer : read32 c.mem (b.args + 4 * words.length) = c.cmd) (fuel : Nat) : ∃ c',
      split b.args stop (fuel + text.length) c = split b.args stop fuel c' ∧
        Ready b stop rest c' ∧ Spelled b words text c' := by
  obtain ⟨c', hsplit, hready, hmem, hcmd, hj⟩ := split_plain hplain h fuel
  refine ⟨c', hsplit, hready, ⟨hj ▸ hwords.count, fun k hk => ?_, ?_, ?_, ?_⟩⟩
  · refine (hwords.strings k hk).congr (by omega) (by rw [hmem]) fun x _ _ => by rw [hmem]
  · rw [hmem]
    exact hwords.start
  · rw [hmem, hpointer, hcmd]
  · rw [hmem, hpointer, hcmd]
    refine h.text.text (fun x _ hhi => Function.update_of_ne (Nat.ne_of_lt hhi) _ _) ?_
    exact Function.update_self ..

/-- A word with marks is the text between them. -/
theorem split_word_quoted {mark mark' : UInt8} {text : List UInt8} (hmark : isQuote mark = true)
    (hmark' : isQuote mark' = true) (htext : ∀ x ∈ text, IsText x)
    (h : Ready b stop (mark :: (text ++ mark' :: rest)) c) (hwords : Spelled b words [] c)
    (hpointer : read32 c.mem (b.args + 4 * words.length) = c.cmd) (hfirst : words ≠ [])
    (fuel : Nat) (hfuel : text.length < fuel) : ∃ c',
      split b.args stop (fuel + 1) c = split b.args stop fuel c' ∧ Ready b stop rest c' ∧
        Spelled b words text c' := by
  have hlook := h.look
  have hlength := h.length
  have hinside := h.inside
  have hstart := h.start
  have hcount := hwords.count
  have hslots := h.slots
  have hpos : 0 < words.length := List.length_pos_iff.mpr hfirst
  have hapart := b.apart
  have hend := b.lineEnd
  rw [List.length_cons, List.length_append, List.length_cons] at hlength
  unfold STR_LIMIT at hapart hinside hend
  obtain ⟨hspace, hzero⟩ := isQuote_ne hmark
  have hj : c.j - 1 = words.length := by omega
  let moved : Cursor := (c.look stop).clear.setArg b.args (c.j - 1)
    ((read32 (c.look stop).clear.mem (b.args + 4 * (c.j - 1)) + 1) % 2 ^ 32)
  have hmoved : Ready b stop (text ++ mark' :: rest) moved.next := by
    refine hlook.clear_next.setArg (j := c.j - 1) ?_ _
    omega
  obtain ⟨c₁, hskip, hready, hmem, hcmd, hj₁⟩ := skipQuoted_text hmark' htext hmoved hfuel
  have hcmd₁ : c₁.cmd = c.cmd + 1 + text.length := hcmd
  have hvalue : (read32 (c.look stop).clear.mem (b.args + 4 * (c.j - 1)) + 1) % 2 ^ 32 =
      c.cmd + 1 := by
    have hsame : read32 (c.look stop).clear.mem (b.args + 4 * (c.j - 1)) = c.cmd := by
      rw [hj]
      refine (read32_congr fun x hlo hhi => Function.update_of_ne ?_ _ _).trans hpointer
      show x ≠ c.cmd
      omega
    rw [hsame]
    exact Nat.mod_eq_of_lt (by omega)
  have hmoved_mem : moved.mem =
      write32 (Function.update c.mem c.cmd 0) (b.args + 4 * words.length) (c.cmd + 1) := by
    show write32 _ (b.args + 4 * (c.j - 1)) _ = _
    rw [hvalue, hj]
    rfl
  have hmem' : c₁.clear.next.mem = Function.update
      (write32 (Function.update c.mem c.cmd 0) (b.args + 4 * words.length) (c.cmd + 1)) c₁.cmd 0 := by
    rw [← hmoved_mem]
    exact congrArg (Function.update · c₁.cmd 0) hmem
  have hslot : read32 c₁.clear.next.mem (b.args + 4 * words.length) = c.cmd + 1 := by
    rw [hmem']
    refine (read32_congr fun x hlo hhi => Function.update_of_ne (by omega) _ _).trans ?_
    exact read32_write32 _ _ (by omega)
  have hbytes : ∀ x, b.line ≤ x → x < c₁.cmd → x ≠ c.cmd → c₁.clear.next.mem x = c.mem x := by
    intro x hlo hhi hx
    rw [hmem', Function.update_of_ne (by omega), write32_apply, if_neg (by omega),
      Function.update_of_ne hx]
  refine ⟨c₁.clear.next, ?_, hready.clear_next, ⟨?_, fun k hk => ?_, ?_, ?_, ?_⟩⟩
  · have hturn : ((c.look stop).space b.args).quote b.args stop fuel = some c₁.clear := by
      unfold Cursor.space
      rw [if_neg (hlook.char_cons.symm ▸ hspace)]
      unfold Cursor.quote
      rw [if_pos (hlook.char_cons.symm ▸ hmark)]
      exact Option.map_eq_some_iff.mpr ⟨c₁, hskip, rfl⟩
    rw [split, hlook.char_cons, if_neg hzero, hturn, Option.bind_some]
  · exact hj₁.trans hcount
  · refine (hwords.strings k hk).congr ?_ ?_ fun x hlo hhi => ?_
    · show c.cmd ≤ c₁.cmd + 1
      omega
    · rw [hmem']
      refine (read32_congr fun x hlo hhi => ?_).trans
        (read32_write32_apart c.mem (c.cmd + 1) (a := b.args + 4 * words.length) (by omega))
      rw [Function.update_of_ne (by omega), write32_apply, write32_apply]
      split
      · rfl
      · exact Function.update_of_ne (by omega) _ _
    · exact hbytes x hlo (by omega) (Nat.ne_of_lt hhi)
  · rw [hslot]
    omega
  · rw [hslot]
    show c.cmd + 1 + text.length ≤ c₁.cmd + 1
    omega
  · rw [hslot]
    have htyped : LineAt c.mem (c.cmd + 1) (text ++ mark' :: rest) := h.text.2
    refine htyped.text (fun x hlo hhi => ?_) ?_
    · refine (Function.update_of_ne ?_ _ _).trans (hbytes x (by omega) (by omega) (by omega))
      show x ≠ c₁.cmd + 1
      omega
    · have hne : c₁.cmd ≠ c₁.clear.next.cmd := Nat.ne_of_lt (Nat.lt_succ_self c₁.cmd)
      rw [← hcmd₁, Function.update_of_ne hne, hmem']
      exact Function.update_self ..

/-- The text of a word behind a space. -/
theorem split_word (w : Word) (h : Ready b stop (w.typed ++ rest) c) (hwords : Spelled b words [] c)
    (hpointer : read32 c.mem (b.args + 4 * words.length) = c.cmd) (hfirst : words ≠ [])
    (fuel : Nat) (hfuel : w.typed.length + rest.length < fuel) : ∃ c' fuel',
      split b.args stop fuel c = split b.args stop fuel' c' ∧ rest.length < fuel' ∧
        Ready b stop rest c' ∧ Spelled b words w.text c' := by
  cases w with
  | plain text hplain =>
      have hfuel : text.length + rest.length < fuel := hfuel
      obtain ⟨k, rfl⟩ : ∃ k, fuel = k + text.length := ⟨fuel - text.length, by omega⟩
      obtain ⟨c', hsplit, hready, hspelled⟩ := split_word_plain hplain h hwords hpointer k
      exact ⟨c', k, hsplit, by omega, hready, hspelled⟩
  | quoted mark mark' text htext =>
      have htyped : (Word.quoted mark mark' text htext).typed ++ rest =
          mark.val :: (text ++ mark'.val :: rest) := by simp [Word.typed]
      have hlength := congrArg List.length htyped
      rw [List.length_append, List.length_cons, List.length_append, List.length_cons] at hlength
      rw [htyped] at h
      obtain ⟨k, rfl⟩ : ∃ k, fuel = k + 1 := ⟨fuel - 1, by omega⟩
      obtain ⟨c', hsplit, hready, hspelled⟩ := split_word_quoted mark.2 mark'.2 htext h hwords
        hpointer hfirst k (by omega)
      exact ⟨c', k, hsplit, by omega, hready, hspelled⟩

/-- **The words that are left go into the table.** -/
theorem split_words : ∀ {more : List Word} {words : List (List UInt8)} {word : List UInt8}
    {c : Cursor} {fuel : Nat}, Ready b stop (Shell.more more) c → Spelled b words word c →
      words.length + more.length ≤ 30 → (Shell.more more).length < fuel → ∃ c' last before,
        split b.args stop fuel c = some c' ∧ Ready b stop [] c' ∧ Spelled b before last c' ∧
          before ++ [last] = words ++ word :: more.map Word.text := by
  intro more
  induction more with
  | nil =>
      intro words word c fuel hready hwords _ hfuel
      obtain ⟨fuel, rfl⟩ := Nat.exists_eq_succ_of_ne_zero (Nat.ne_of_gt (Nat.zero_lt_of_lt hfuel))
      refine ⟨c.look stop, word, words, ?_, hready.look, ⟨hwords.count, fun k hk => ?_, hwords.start,
        hwords.before, hwords.string⟩, rfl⟩
      · rw [split, hready.look.char_nil, if_pos rfl]
      · exact (hwords.strings k hk).congr (Nat.le_refl _) rfl fun _ _ _ => rfl
  | cons w more ih =>
      intro words word c fuel hready hwords hcount hfuel
      have hsplit : Shell.more (w :: more) = 32 :: (w.typed ++ Shell.more more) := rfl
      rw [hsplit] at hready hfuel
      rw [List.length_cons, List.length_append] at hfuel
      rw [List.length_cons] at hcount
      obtain ⟨fuel, rfl⟩ := Nat.exists_eq_succ_of_ne_zero (Nat.ne_of_gt (Nat.zero_lt_of_lt hfuel))
      have hj : c.j ≤ 30 := by
        rw [hwords.count]
        omega
      obtain ⟨c₁, hspace, hready₁, hwords₁, hpointer⟩ := split_space hready hwords hj fuel
      obtain ⟨c₂, fuel₂, hword, hfuel₂, hready₂, hwords₂⟩ := split_word w hready₁ hwords₁ hpointer
        (by simp) fuel (by omega)
      obtain ⟨c', last, before, hrest, hready', hspelled, hall⟩ := ih hready₂ hwords₂ (by
        rw [List.length_append, List.length_singleton]
        omega) hfuel₂
      refine ⟨c', last, before, hspace.trans (hword.trans hrest), hready', hspelled, ?_⟩
      rw [hall, List.append_assoc]
      rfl

end Turns

/-! ### The end of a line -/

section Line

variable {b : Blocks} {s : Kshell}

/-- The last pointer is followed by a null pointer, and all of them are to the words. -/
theorem Spelled.argv {stop : Nat} {c : Cursor} {words : List (List UInt8)} {word : List UInt8}
    (h : Spelled b words word c) (hready : Ready b stop [] c) :
    Argv (c.setArg b.args c.j 0).mem b.args (words ++ [word]) := by
  have hlength := hready.length
  have hinside := hready.inside
  have hslots := hready.slots
  have hcount := h.count
  have hbefore := h.before
  have hapart := b.apart
  rw [List.length_nil] at hlength
  unfold STR_LIMIT at hapart hinside
  have hslot : ∀ k < c.j, read32 (c.setArg b.args c.j 0).mem (b.args + 4 * k) =
      read32 c.mem (b.args + 4 * k) :=
    fun k hk => read32_write32_apart c.mem 0 (by omega)
  have hline : ∀ x, b.line ≤ x → x ≤ c.cmd → (c.setArg b.args c.j 0).mem x = c.mem x :=
    fun x hlo hhi => (write32_apply _ _ _ _).trans (if_neg (by omega))
  have hnew : (words ++ [word]).length = c.j := by
    rw [List.length_append, List.length_singleton, hcount]
  constructor
  · intro k hk
    rw [hnew] at hk
    rcases Nat.lt_or_ge k words.length with hold | hlast
    · rw [List.getElem_append_left hold]
      have hheld : Held b (c.setArg b.args c.j 0) k words[k] :=
        (h.strings k hold).congr (Nat.le_refl c.cmd) (hslot k hk) fun x hlo hhi =>
          hline x hlo (Nat.le_of_lt hhi)
      exact hheld.string
    · obtain rfl : k = words.length := by omega
      have hzero : Function.update c.mem c.cmd 0 = c.mem :=
        Function.update_eq_self_iff.mpr hready.char_nil.symm
      have hstring := h.string
      have hstart := h.start
      rw [hzero] at hstring
      rw [List.getElem_concat_length rfl, hslot _ hk]
      exact hstring.congr fun x hlo hhi => hline x (by omega) (by omega)
  · rw [hnew]
    exact read32_write32 c.mem (b.args + 4 * c.j) (by decide)

/-- A line that is words leaves pointers to them. -/
theorem found_words (hs : KshellInv b s) (hlt : s.i < STR_LIMIT) {name : List UInt8}
    {words : List Word} (hplain : ∀ x ∈ name, IsPlain x) (hline : s.typed = name ++ more words)
    (hwords : words.length ≤ 30) : ∃ c, s.found b = some c ∧ c.j = words.length + 1 ∧
      Argv c.mem b.args (name :: words.map Word.text) := by
  have hready := ready_put hs hlt
  have hlong := typed_lt hlt
  rw [hline] at hready hlong
  rw [List.length_append] at hlong
  have hfirst : Spelled b [] [] ⟨(s.put 0).mem, s.cmd, 1, [.store (s.cmd + s.i)]⟩ := by
    have hpointer : read32 (s.put 0).mem (b.args + 4 * 0) = s.cmd := hready.first.trans hs.cmd.symm
    refine ⟨rfl, fun k hk => absurd hk (Nat.not_lt_zero k), ?_, ?_, ?_⟩
    · exact Nat.le_of_eq hready.first.symm
    · exact Nat.le_of_eq hpointer
    · show Function.update _ s.cmd 0 (read32 (s.put 0).mem (b.args + 4 * 0)) = 0
      rw [hpointer, Function.update_self]
  obtain ⟨k, hk⟩ : ∃ k, 2 ^ 32 = k + name.length := ⟨2 ^ 32 - name.length, by omega⟩
  obtain ⟨c₁, hname, hready₁, hspelled₁⟩ := split_word_plain hplain hready hfirst
    (hready.first.trans hs.cmd.symm) k
  obtain ⟨c, last, before, hrest, hready', hspelled, hall⟩ := split_words hready₁ hspelled₁
    (by rw [List.length_nil]; omega) (show _ < k by omega)
  have hcount := congrArg List.length hall
  rw [List.length_append, List.length_singleton, List.nil_append, List.length_cons,
    List.length_map] at hcount
  refine ⟨c.setArg b.args c.j 0, ?_, ?_, ?_⟩
  · rw [Kshell.found, hk, hname, hrest]
    rfl
  · exact hspelled.count.trans hcount
  · have hargv := hspelled.argv hready'
    rw [hall] at hargv
    exact hargv

end Line

/-! ### Typing -/

theorem textAt_put (mem : Memory) (value : UInt8) : ∀ n a,
    textAt (Function.update mem (a + n) value) a (n + 1) = textAt mem a n ++ [value] := by
  intro n
  induction n with
  | zero =>
      intro a
      show [Function.update mem a value a] = [value]
      rw [Function.update_self]
  | succ n ih =>
      intro a
      have h := ih (a + 1)
      rw [Nat.add_right_comm, Nat.add_assoc] at h
      rw [textAt, h, textAt, Function.update_of_ne (by omega), List.cons_append]

theorem textAt_congr {mem mem' : Memory} : ∀ {n a : Nat},
    (∀ x, a ≤ x → x < a + n → mem' x = mem x) → textAt mem' a n = textAt mem a n := by
  intro n
  induction n with
  | zero => exact fun _ => rfl
  | succ n ih =>
      intro a hsame
      rw [textAt, textAt, hsame a (Nat.le_refl a) (by omega),
        ih fun x hlo hhi => hsame x (by omega) (by omega)]

theorem textAt_back (mem : Memory) (n a : Nat) :
    textAt mem a (n - 1) = (textAt mem a n).dropLast := by
  cases n with
  | zero => rfl
  | succ n =>
      have hput := textAt_put mem (mem (a + n)) n a
      rw [Function.update_eq_self] at hput
      rw [hput, List.dropLast_concat, Nat.add_sub_cancel]

section Keys

variable {b : Blocks} {s : Kshell}

theorem Kshell.typed_length (s : Kshell) : s.typed.length = s.i := textAt_length s.mem s.i s.cmd

/-- A key that does not end the line. -/
theorem feed_key (hs : KshellInv b s) (hrunning : s.running = true) {key : Key}
    (hkey : key.byte ≠ 10) (hlt : s.i < STR_LIMIT) :
    ∃ s', kshellStep b s key = some s' ∧ KshellInv b s' ∧ s'.running = true ∧
      s'.typed = press 8 s.typed key.byte := by
  have hin : key.byte ≠ 10 ∧ s.i < STR_LIMIT := ⟨hkey, hlt⟩
  by_cases hback : key.byte = 8
  · have hstep : kshellStep b s key = some { s.put 0 with i := s.i - 1 } := by
      unfold kshellStep Kshell.feed
      rw [if_neg (not_not.mpr hrunning), if_pos hin, if_pos hback]
      rfl
    refine ⟨_, hstep, kshellStep_inv s key _ hs hstep fun _ hend => absurd hin hend, hrunning, ?_⟩
    rw [press, if_pos hback]
    refine (textAt_congr fun x _ hhi => Function.update_of_ne ?_ _ _).trans
      (textAt_back s.mem s.i s.cmd)
    show x ≠ s.cmd + s.i
    have hle : s.cmd + (s.i - 1) ≤ s.cmd + s.i := by omega
    exact Nat.ne_of_lt (Nat.lt_of_lt_of_le hhi hle)
  · have hstep : kshellStep b s key = some { s.put key.byte with i := s.i + 1 } := by
      unfold kshellStep Kshell.feed
      rw [if_neg (not_not.mpr hrunning), if_pos hin, if_neg hback]
      rfl
    refine ⟨_, hstep, kshellStep_inv s key _ hs hstep fun _ hend => absurd hin hend, hrunning, ?_⟩
    rw [press, if_neg hback]
    exact textAt_put s.mem key.byte s.i s.cmd

/-- Keys that do not end the line, and for which there is room. -/
theorem feed_keys : ∀ {keys : List Key} {s : Kshell}, KshellInv b s → s.running = true →
    (∀ key ∈ keys, key.byte ≠ 10) →
    (∀ n ≤ keys.length, (((keys.take n).map Key.byte).foldl (press 8) s.typed).length < STR_LIMIT) →
      ∃ s', runAll (kshellStep b) s keys = some s' ∧ KshellInv b s' ∧ s'.running = true ∧
        s'.typed = (keys.map Key.byte).foldl (press 8) s.typed := by
  intro keys
  induction keys with
  | nil => exact fun hs hrunning _ _ => ⟨_, rfl, hs, hrunning, rfl⟩
  | cons key keys ih =>
      intro s hs hrunning hkeys hroom
      have hlt : s.i < STR_LIMIT := s.typed_length ▸ hroom 0 (Nat.zero_le _)
      obtain ⟨s₁, hstep, hs₁, hrunning₁, htyped₁⟩ :=
        feed_key hs hrunning (hkeys key List.mem_cons_self) hlt
      obtain ⟨s', hrun, hs', hrunning', htyped'⟩ := ih hs₁ hrunning₁
        (fun k hk => hkeys k (List.mem_cons_of_mem key hk)) fun n hn => by
          rw [htyped₁]
          exact hroom (n + 1) (Nat.succ_le_succ hn)
      refine ⟨s', ?_, hs', hrunning', ?_⟩
      · rw [runAll, hstep, Option.bind_some, hrun]
      · rw [htyped', htyped₁]
        rfl

/-- What the command finds is what the shell has in memory when it calls it. -/
theorem endLine_found (b : Blocks) (s : Kshell) (after : Memory) :
    (s.endLine b after).map Prod.fst = (s.found b).map Cursor.log := by
  unfold Kshell.endLine Kshell.found
  rw [Option.map_map, Option.map_map]
  rfl

end Keys

/--
**A command finds the words that were meant.**  Whatever lines were typed before, each of which
fitted: if what the backspaces leave of the next one is a name and at most thirty words, with
marks or without, and it does not come to 128 bytes on the way, then `args` points to the name
and the words, without the marks, when the line is ended.
-/
theorem command_finds_words (b : Blocks) (mem : Memory) (before keys : List Key) (s₀ : Kshell)
    (name : List UInt8) (words : List Word)
    (hbefore : runAll (kshellStep b) (Kshell.start b mem) before = some s₀)
    (hfits : EveryTry (kshellStep b) LineFits (Kshell.start b mem) before)
    (hprompt : s₀.running = true ∧ s₀.i = 0)
    (hkeys : ∀ key ∈ keys, key.byte ≠ 10)
    (hroom : ∀ n ≤ keys.length, (edited 8 ((keys.take n).map Key.byte)).length < STR_LIMIT)
    (hline : edited 8 (keys.map Key.byte) = name ++ more words)
    (hplain : ∀ c ∈ name, IsPlain c) (hwords : words.length ≤ 30) :
    ∃ s c, runAll (kshellStep b) s₀ keys = some s ∧ s.found b = some c ∧
      c.j = words.length + 1 ∧ Argv c.mem b.args (name :: words.map Word.text) ∧
      ∀ after, (s.feed b ⟨10, after⟩).map Prod.fst = some c.log := by
  have hinv : KshellInv b s₀ := by
    have hall : Always (kshellStep b) (KshellInv b) (Kshell.start b mem) before :=
      always_of_inv (fun s key s' hs hstep hfit => kshellStep_inv s key s' hs hstep hfit)
        (kshellInv_start b mem) hfits.everyStep
    exact hall.last hbefore
  have hempty : s₀.typed = [] := List.eq_nil_of_length_eq_zero (s₀.typed_length.trans hprompt.2)
  obtain ⟨s, hrun, hs, hrunning, htyped⟩ := feed_keys hinv hprompt.1 hkeys (by
    rw [hempty]
    exact hroom)
  rw [hempty] at htyped
  have hlt : s.i < STR_LIMIT := by
    have hlast := hroom keys.length (Nat.le_refl _)
    rw [List.take_length] at hlast
    rw [← s.typed_length, htyped]
    exact hlast
  obtain ⟨c, hfound, hcount, hargv⟩ := found_words hs hlt hplain (htyped.trans hline) hwords
  refine ⟨s, c, hrun, hfound, hcount, hargv, fun after => ?_⟩
  have hfeed : s.feed b ⟨10, after⟩ = s.endLine b after := by
    unfold Kshell.feed
    rw [if_neg (not_not.mpr hrunning), if_neg (fun hgo => hgo.1 rfl)]
  rw [hfeed, endLine_found, hfound]
  rfl

/-- `cat "a b"`, with a letter that was taken back. -/
theorem command_finds_words_cat :
    ∃ s c, runAll (kshellStep someBlocks) (Kshell.start someBlocks fun _ => 0)
        ([99, 97, 116, 32, 34, 97, 120, 8, 32, 98, 34].map fun byte => ⟨byte, fun _ => 0⟩) = some s ∧
      s.found someBlocks = some c ∧ c.j = 2 ∧
      Argv c.mem someBlocks.args [[99, 97, 116], [97, 32, 98]] ∧
      ∀ after, (s.feed someBlocks ⟨10, after⟩).map Prod.fst = some c.log :=
  command_finds_words someBlocks (fun _ => 0) []
    ([99, 97, 116, 32, 34, 97, 120, 8, 32, 98, 34].map fun byte => ⟨byte, fun _ => 0⟩)
    (Kshell.start someBlocks fun _ => 0) [99, 97, 116]
    [.quoted ⟨34, rfl⟩ ⟨34, rfl⟩ [97, 32, 98] (by simp [IsText, isQuote])] rfl trivial ⟨rfl, rfl⟩
    (by simp) (by decide) (by decide) (by simp [IsPlain, IsText, isQuote]) (by decide)

end OsThing.Shell
