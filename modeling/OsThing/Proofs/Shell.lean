/-
When a shell stays inside its line buffer and its argument table.

Splitting a line writes zeros into it and pointers into the table.  Nothing but the line
itself keeps it in bounds, so a line has to be well behaved: `splits` reads it from left to
right, and says whether it has at most 30 separating spaces, has none of its quotations left
open, and no quotation in its first word, whose pointer is the one to the buffer.

The invariant between two bytes is that `cmd` and `args[0]` point to the buffer.  While a line
is split, what is left of it still lies there as it was typed: `Ready`.
-/
import OsThing.Lib.Runs
import OsThing.User.Shell

namespace OsThing.Shell

open Bytes Runs

/-- What an access must be. -/
def Access.Fine (b : Blocks) : Access → Prop
  | .store address => b.line ≤ address ∧ address < b.line + STR_LIMIT
  | .slot j => j < STR_LIMIT / 4
  | .scan address stop => address ≤ stop

/-- A line that can be split, of which the rest is left, after `spaces` separating spaces; if
`quoted`, a quotation is open.  A zero ends a line, and closes a quotation. -/
def splits : Bool → Nat → List UInt8 → Bool
  | quoted, _, [] => !quoted
  | true, spaces, c :: rest => splits (!(isQuote c || c == 0)) spaces rest
  | false, spaces, c :: rest =>
      if c = 0 then true
      else if c = 32 then decide (spaces < 30) && splits false (spaces + 1) rest
      else if isQuote c then decide (0 < spaces) && splits true spaces rest
      else splits false spaces rest

/-! ### The line in memory -/

/-- The bytes lie at `a`, with a zero behind them. -/
def LineAt (mem : Memory) : Nat → List UInt8 → Prop
  | a, [] => mem a = 0
  | a, c :: rest => mem a = c ∧ LineAt mem (a + 1) rest

/-- The `n` bytes from `a` on. -/
def textAt (mem : Memory) : Nat → Nat → List UInt8
  | _, 0 => []
  | a, n + 1 => mem a :: textAt mem (a + 1) n

theorem textAt_length (mem : Memory) : ∀ n a, (textAt mem a n).length = n
  | 0, _ => rfl
  | n + 1, a => congrArg (· + 1) (textAt_length mem n (a + 1))

theorem LineAt.congr {mem mem' : Memory} : ∀ {rest : List UInt8} {a : Nat}, LineAt mem a rest →
    (∀ x, a ≤ x → x ≤ a + rest.length → mem' x = mem x) → LineAt mem' a rest := by
  intro rest
  induction rest with
  | nil =>
      intro a h hsame
      exact (hsame a (Nat.le_refl a) (Nat.le_refl a)).trans h
  | cons c rest ih =>
      intro a h hsame
      rw [List.length_cons] at hsame
      exact ⟨(hsame a (by omega) (by omega)).trans h.1,
        ih h.2 fun x hlo hhi => hsame x (by omega) (by omega)⟩

/-- A zero behind them makes the bytes a line. -/
theorem lineAt_textAt (mem : Memory) : ∀ n a,
    LineAt (Function.update mem (a + n) 0) a (textAt mem a n) := by
  intro n
  induction n with
  | zero =>
      intro a
      exact Function.update_self a 0 mem
  | succ n ih =>
      intro a
      refine ⟨Function.update_of_ne (by omega) 0 mem, ?_⟩
      have h := ih (a + 1)
      rwa [Nat.add_right_comm, Nat.add_assoc] at h

/-! ### Splitting -/

/-- The rest of the line from `cmd` to `stop` is as it was typed, and all has been well. -/
structure Ready (b : Blocks) (stop : Nat) (rest : List UInt8) (c : Cursor) : Prop where
  start : b.line ≤ c.cmd
  length : c.cmd + rest.length = stop
  inside : stop < b.line + STR_LIMIT
  text : LineAt c.mem c.cmd rest
  first : read32 c.mem b.args = b.line
  slots : 1 ≤ c.j ∧ c.j ≤ 31
  fine : ∀ x ∈ c.log, x.Fine b

namespace Ready

variable {b : Blocks} {stop : Nat} {rest : List UInt8} {c : Cursor}

theorem cmd_lt (h : Ready b stop rest c) : c.cmd < b.line + STR_LIMIT := by
  have hlength := h.length
  have hinside := h.inside
  omega

theorem look (h : Ready b stop rest c) : Ready b stop rest (c.look stop) := by
  refine { h with fine := fun x hx => ?_ }
  rcases List.mem_cons.mp hx with rfl | hx
  · show c.cmd ≤ stop
    exact h.length ▸ Nat.le_add_right _ _
  · exact h.fine x hx

/-- A pointer in the table, other than the first, is not part of the line. -/
theorem setArg (h : Ready b stop rest c) {j : Nat} (hj : 1 ≤ j ∧ j ≤ 31) (value : Nat) :
    Ready b stop rest (c.setArg b.args j value) := by
  have hlt := h.cmd_lt
  have hstart := h.start
  have hlength := h.length
  have hinside := h.inside
  have hapart := b.apart
  unfold STR_LIMIT at *
  refine { h with text := h.text.congr fun x hlo hhi => ?_, first := ?_, fine := fun x hx => ?_ }
  · exact (write32_apply _ _ _ _).trans (if_neg (by omega))
  · exact (read32_write32_apart _ _ (by omega)).trans h.first
  · rcases List.mem_cons.mp hx with rfl | hx
    · show j < 128 / 4
      omega
    · exact h.fine x hx

/-- The byte at `cmd` is no longer needed. -/
theorem clear_next {ch : UInt8} (h : Ready b stop (ch :: rest) c) :
    Ready b stop rest c.clear.next := by
  have hlt := h.cmd_lt
  have hstart := h.start
  have hlength := h.length
  have hapart := b.apart
  rw [List.length_cons] at hlength
  unfold STR_LIMIT at *
  refine ⟨Nat.le_succ_of_le hstart, ?_, h.inside, ?_, ?_, h.slots, fun x hx => ?_⟩
  · show c.cmd + 1 + rest.length = stop
    omega
  · refine h.text.2.congr fun x hlo _ => Function.update_of_ne ?_ 0 c.mem
    omega
  · refine (read32_congr fun x hlo hhi => Function.update_of_ne ?_ 0 c.mem).trans h.first
    omega
  · rcases List.mem_cons.mp hx with rfl | hx
    · exact ⟨hstart, hlt⟩
    · exact h.fine x hx

theorem next {ch : UInt8} (h : Ready b stop (ch :: rest) c) : Ready b stop rest c.next := by
  have hlength := h.length
  rw [List.length_cons] at hlength
  refine ⟨Nat.le_succ_of_le h.start, ?_, h.inside, h.text.2, h.first, h.slots, h.fine⟩
  show c.cmd + 1 + rest.length = stop
  omega

theorem char_nil (h : Ready b stop [] c) : c.char = 0 := h.text

theorem char_cons {ch : UInt8} (h : Ready b stop (ch :: rest) c) : c.char = ch := h.text.1

end Ready

/-- There is an end to the quotation that is open. -/
def Closed (rest : List UInt8) : Prop := ∃ c ∈ rest, isQuote c = true ∨ c = 0

theorem splits_open {c : UInt8} {spaces : Nat} {rest : List UInt8} (hc : ¬ (isQuote c ∨ c = 0)) :
    splits true spaces (c :: rest) = splits true spaces rest := by
  have hnot : (isQuote c || c == 0) = false := by
    rw [Bool.eq_false_iff]
    simpa using hc
  rw [splits, hnot, Bool.not_false]

theorem splits_close {c : UInt8} {spaces : Nat} {rest : List UInt8} (hc : isQuote c ∨ c = 0) :
    splits true spaces (c :: rest) = splits false spaces rest := by
  have hyes : (isQuote c || c == 0) = true := by simpa using hc
  rw [splits, hyes, Bool.not_true]

theorem closed_of_splits {spaces : Nat} : ∀ {rest : List UInt8},
    splits true spaces rest = true → Closed rest := by
  intro rest
  induction rest with
  | nil => intro h; cases h
  | cons c rest ih =>
      intro h
      by_cases hc : isQuote c ∨ c = 0
      · exact ⟨c, List.mem_cons_self, hc⟩
      · obtain ⟨x, hx, hend⟩ := ih (splits_open hc ▸ h)
        exact ⟨x, List.mem_cons_of_mem c hx, hend⟩

section Loops

variable {b : Blocks} {stop : Nat}

/-- The end of a quotation is found, if it is in the line. -/
theorem skipQuoted_closed : ∀ {rest : List UInt8} {c : Cursor} {fuel : Nat},
    Ready b stop rest c → Closed rest → rest.length < fuel →
      ∃ c' ch tail, skipQuoted stop fuel c = some c' ∧ Ready b stop (ch :: tail) c' ∧
        (∀ spaces, splits true spaces rest = splits false spaces tail) ∧ c'.j = c.j ∧
        tail.length < rest.length := by
  intro rest
  induction rest with
  | nil =>
      rintro c fuel _ ⟨x, hx, -⟩
      cases hx
  | cons ch rest ih =>
      intro c fuel hready hclosed hfuel
      obtain ⟨fuel, rfl⟩ := Nat.exists_eq_succ_of_ne_zero (Nat.ne_of_gt (Nat.zero_lt_of_lt hfuel))
      have hlook := hready.look
      rw [skipQuoted, hlook.char_cons]
      rw [List.length_cons] at hfuel
      by_cases hend : isQuote ch ∨ ch = 0
      · rw [if_pos hend]
        exact ⟨_, ch, rest, rfl, hlook, fun _ => splits_close hend, rfl, Nat.lt_succ_self _⟩
      · rw [if_neg hend]
        have hrest : Closed rest := by
          obtain ⟨x, hx, hxend⟩ := hclosed
          rcases List.mem_cons.mp hx with rfl | hx
          · exact absurd hxend hend
          · exact ⟨x, hx, hxend⟩
        obtain ⟨c', ch', tail, hskip, hready', hsplits, hj, hlt⟩ :=
          @ih _ fuel hlook.next hrest (by omega)
        exact ⟨c', ch', tail, hskip, hready', fun spaces => (splits_open hend).trans (hsplits spaces),
          hj, Nat.lt_succ_of_lt hlt⟩

/-- What one turn of the loop leaves, if it goes well: the cursor before the next one. -/
structure Turned (b : Blocks) (stop fuel : Nat) (ch : UInt8) (rest : List UInt8) (c c' : Cursor)
    (tail : List UInt8) : Prop where
  turn : (c.space b.args).quote b.args stop fuel = some c'
  ready : Ready b stop tail c'.next
  splits : splits false (c'.j - 1) tail = splits false (c.j - 1) (ch :: rest)
  shorter : tail.length ≤ rest.length

theorem isQuote_ne {c : UInt8} (h : isQuote c = true) : c ≠ 32 ∧ c ≠ 0 := by
  constructor
  · rintro rfl
    cases h
  · rintro rfl
    cases h

/-- At a space a pointer to what follows goes into the table. -/
theorem turned_space {rest : List UInt8} {c : Cursor} (fuel : Nat)
    (h : Ready b stop (32 :: rest) c) (hj : c.j ≤ 30) :
    ∃ c', Turned b stop fuel 32 rest c c' rest := by
  have hslots := h.slots
  have hchar : c.char = 32 := h.char_cons
  have hready := (h.setArg hslots (c.cmd + 1)).clear_next
  let c' : Cursor := { (c.setArg b.args c.j (c.cmd + 1)).clear with j := c.j + 1 }
  have hzero : isQuote c'.char = false := by
    have hcleared : c'.char = 0 := Function.update_self c.cmd 0 _
    rw [hcleared]
    rfl
  refine ⟨c', ?_, { hready with slots := ⟨Nat.succ_pos _, ?_⟩ }, ?_, Nat.le_refl _⟩
  · unfold Cursor.space
    rw [if_pos hchar]
    unfold Cursor.quote
    rw [if_neg (Bool.eq_false_iff.mp hzero)]
  · show c.j + 1 ≤ 31
    omega
  · show splits false (c.j + 1 - 1) rest = splits false (c.j - 1) (32 :: rest)
    have hlt : c.j - 1 < 30 := by omega
    have hnext : c.j - 1 + 1 = c.j + 1 - 1 := by omega
    simp [splits, hlt, hnext]

/-- A quotation behind the first word moves the last pointer, and is skipped. -/
theorem turned_quote {ch : UInt8} {rest : List UInt8} {c : Cursor} {fuel : Nat}
    (h : Ready b stop (ch :: rest) c) (hquote : isQuote ch = true) (hj : 2 ≤ c.j)
    (hclosed : Closed rest) (hfuel : rest.length < fuel) :
    ∃ c' tail, Turned b stop fuel ch rest c c' tail := by
  obtain ⟨hspace, hzero⟩ := isQuote_ne hquote
  have hslots := h.slots
  have hchar : c.char = ch := h.char_cons
  let moved : Cursor := c.clear.setArg b.args (c.j - 1)
    ((read32 c.clear.mem (b.args + 4 * (c.j - 1)) + 1) % 2 ^ 32)
  have hmoved : Ready b stop rest moved.next := by
    refine h.clear_next.setArg (j := c.j - 1) ?_ _
    omega
  obtain ⟨c', ch', tail, hskip, hready, hsplits, hsame, hlt⟩ :=
    skipQuoted_closed hmoved hclosed hfuel
  refine ⟨c'.clear, tail, ?_, hready.clear_next, ?_, Nat.le_of_lt hlt⟩
  · unfold Cursor.space
    rw [if_neg (hchar ▸ hspace)]
    unfold Cursor.quote
    rw [if_pos (hchar ▸ hquote)]
    exact Option.map_eq_some_iff.mpr ⟨c', hskip, rfl⟩
  · have hsame : c'.clear.j = c.j := hsame
    have hpos : 0 < c.j - 1 := by omega
    rw [hsame, ← hsplits]
    simp [splits, hspace, hzero, hquote, hpos]

theorem turned_other {ch : UInt8} {rest : List UInt8} {c : Cursor} (fuel : Nat)
    (h : Ready b stop (ch :: rest) c) (hzero : ch ≠ 0) (hspace : ch ≠ 32)
    (hquote : isQuote ch = false) : Turned b stop fuel ch rest c c rest := by
  have hchar : c.char = ch := h.char_cons
  refine ⟨?_, h.next, by simp [splits, hzero, hspace, hquote], Nat.le_refl _⟩
  unfold Cursor.space
  rw [if_neg (hchar ▸ hspace)]
  unfold Cursor.quote
  rw [hchar, if_neg (Bool.eq_false_iff.mp hquote)]

/-- A turn goes well, if what is left of the line is well behaved. -/
theorem turned_of_splits {ch : UInt8} {rest : List UInt8} {c : Cursor} {fuel : Nat}
    (h : Ready b stop (ch :: rest) c) (hzero : ch ≠ 0)
    (hsplits : splits false (c.j - 1) (ch :: rest) = true) (hfuel : rest.length < fuel) :
    ∃ c' tail, Turned b stop fuel ch rest c c' tail := by
  by_cases hspace : ch = 32
  · subst hspace
    obtain ⟨hlt, -⟩ : c.j - 1 < 30 ∧ splits false (c.j - 1 + 1) rest = true := by
      simpa [splits] using hsplits
    obtain ⟨c', hturned⟩ := turned_space fuel h (by omega)
    exact ⟨c', rest, hturned⟩
  · by_cases hquote : isQuote ch = true
    · obtain ⟨hpos, hopen⟩ : 0 < c.j - 1 ∧ splits true (c.j - 1) rest = true := by
        simpa [splits, hspace, hzero, hquote] using hsplits
      exact turned_quote h hquote (by omega) (closed_of_splits hopen) hfuel
    · exact ⟨c, rest, turned_other fuel h hzero hspace (Bool.eq_false_iff.mpr hquote)⟩

/-- The end of the loop. -/
structure Split (b : Blocks) (c : Cursor) : Prop where
  first : read32 c.mem b.args = b.line
  slots : 1 ≤ c.j ∧ c.j ≤ 31
  fine : ∀ x ∈ c.log, x.Fine b

/-- **A line that is well behaved is split in bounds.** -/
theorem split_spec : ∀ {n : Nat} {rest : List UInt8} {c : Cursor} {fuel : Nat}, rest.length ≤ n →
    Ready b stop rest c → splits false (c.j - 1) rest = true → rest.length < fuel →
      ∃ c', split b.args stop fuel c = some c' ∧ Split b c' := by
  intro n
  induction n with
  | zero =>
      intro rest c fuel hn hready _ hfuel
      obtain rfl := List.eq_nil_of_length_eq_zero (Nat.le_zero.mp hn)
      obtain ⟨fuel, rfl⟩ := Nat.exists_eq_succ_of_ne_zero (Nat.ne_of_gt (Nat.zero_lt_of_lt hfuel))
      have hlook := hready.look
      refine ⟨c.look stop, ?_, hlook.first, hlook.slots, hlook.fine⟩
      rw [split]
      exact if_pos hlook.char_nil
  | succ n ih =>
      intro rest c fuel hn hready hsplits hfuel
      obtain ⟨fuel, rfl⟩ := Nat.exists_eq_succ_of_ne_zero (Nat.ne_of_gt (Nat.zero_lt_of_lt hfuel))
      have hlook := hready.look
      rw [split]
      cases rest with
      | nil =>
          refine ⟨c.look stop, if_pos hlook.char_nil, hlook.first, hlook.slots, hlook.fine⟩
      | cons ch rest =>
          rw [hlook.char_cons]
          rw [List.length_cons] at hn hfuel
          by_cases hzero : ch = 0
          · exact ⟨c.look stop, if_pos hzero, hlook.first, hlook.slots, hlook.fine⟩
          · rw [if_neg hzero]
            obtain ⟨c', tail, hturned⟩ := turned_of_splits hlook hzero hsplits
              (show rest.length < fuel by omega)
            have hshorter := hturned.shorter
            rw [hturned.turn, Option.bind_some]
            exact ih (by omega) hturned.ready (hturned.splits.trans hsplits) (by omega)

end Loops

/-! ### What cannot be undone -/

/-- The log has grown, and the cursor has gone on. -/
structure Later (c c' : Cursor) : Prop where
  log : ∀ x ∈ c.log, x ∈ c'.log
  j : c.j ≤ c'.j
  cmd : c.cmd ≤ c'.cmd

namespace Later

theorem refl (c : Cursor) : Later c c := ⟨fun _ hx => hx, Nat.le_refl _, Nat.le_refl _⟩

theorem trans {c c' c'' : Cursor} (h : Later c c') (h' : Later c' c'') : Later c c'' :=
  ⟨fun x hx => h'.log x (h.log x hx), Nat.le_trans h.j h'.j, Nat.le_trans h.cmd h'.cmd⟩

theorem look (c : Cursor) (stop : Nat) : Later c (c.look stop) :=
  ⟨fun _ hx => List.mem_cons_of_mem _ hx, Nat.le_refl _, Nat.le_refl _⟩

theorem clear (c : Cursor) : Later c c.clear :=
  ⟨fun _ hx => List.mem_cons_of_mem _ hx, Nat.le_refl _, Nat.le_refl _⟩

theorem setArg (c : Cursor) (args j value : Nat) : Later c (c.setArg args j value) :=
  ⟨fun _ hx => List.mem_cons_of_mem _ hx, Nat.le_refl _, Nat.le_refl _⟩

theorem next (c : Cursor) : Later c c.next :=
  ⟨fun _ hx => hx, Nat.le_refl _, Nat.le_succ _⟩

theorem space (c : Cursor) (args : Nat) : Later c (c.space args) := by
  unfold Cursor.space
  split
  · have h := (setArg c args c.j (c.cmd + 1)).trans (clear _)
    exact ⟨h.log, Nat.le_succ _, h.cmd⟩
  · exact refl c

theorem skipQuoted {stop : Nat} : ∀ {fuel : Nat} {c c' : Cursor},
    skipQuoted stop fuel c = some c' → Later c c' ∧ c'.mem = c.mem := by
  intro fuel
  induction fuel with
  | zero => intro c c' h; cases h
  | succ fuel ih =>
      intro c c' h
      rw [Shell.skipQuoted] at h
      split at h
      · obtain rfl := Option.some.inj h
        exact ⟨look c stop, rfl⟩
      · obtain ⟨hlater, hmem⟩ := ih h
        exact ⟨((look c stop).trans (next _)).trans hlater, hmem⟩

theorem quote {args stop fuel : Nat} {c c' : Cursor} (h : c.quote args stop fuel = some c') :
    Later c c' := by
  unfold Cursor.quote at h
  split at h
  · obtain ⟨c₁, hskip, rfl⟩ := Option.map_eq_some_iff.mp h
    exact ((clear c).trans (setArg _ _ _ _)).trans
      (((next _).trans (skipQuoted hskip).1).trans (clear c₁))
  · obtain rfl := Option.some.inj h
    exact refl c

/-- The loop looks where it starts, and ends later. -/
theorem split {args stop : Nat} : ∀ {fuel : Nat} {c c' : Cursor},
    split args stop fuel c = some c' → Later c c' ∧ .scan c.cmd stop ∈ c'.log := by
  intro fuel
  induction fuel with
  | zero => intro c c' h; cases h
  | succ fuel ih =>
      intro c c' h
      rw [Shell.split] at h
      split at h
      · obtain rfl := Option.some.inj h
        exact ⟨look c stop, List.mem_cons_self⟩
      · obtain ⟨c₁, hquote, hrest⟩ := Option.bind_eq_some_iff.mp h
        have hturn := ((space _ args).trans (quote hquote)).trans ((next c₁).trans (ih hrest).1)
        exact ⟨(look c stop).trans hturn, hturn.log _ List.mem_cons_self⟩

end Later

/-- An open quotation is left behind the end of the line. -/
theorem skipQuoted_open {b : Blocks} {stop : Nat} : ∀ {rest : List UInt8} {c c' : Cursor}
    {fuel : Nat}, Ready b stop rest c → ¬ Closed rest → skipQuoted stop fuel c = some c' →
      c'.cmd = stop := by
  intro rest
  induction rest with
  | nil =>
      intro c c' fuel hready _ h
      cases fuel with
      | zero => cases h
      | succ fuel =>
          have hzero : (c.look stop).char = 0 := hready.look.char_nil
          rw [skipQuoted, if_pos (Or.inr hzero)] at h
          obtain rfl := Option.some.inj h
          exact hready.length
  | cons ch rest ih =>
      intro c c' fuel hready hopen h
      cases fuel with
      | zero => cases h
      | succ fuel =>
          have hlook := hready.look
          have hend : ¬ (isQuote ch = true ∨ ch = 0) := fun hend =>
            hopen ⟨ch, List.mem_cons_self, hend⟩
          rw [skipQuoted, hlook.char_cons, if_neg hend] at h
          exact ih hlook.next (fun ⟨x, hx, hxend⟩ => hopen ⟨x, List.mem_cons_of_mem ch hx, hxend⟩) h

/-- How far the first pointer may have moved: by one for two bytes at most. -/
structure Drift (b : Blocks) (c : Cursor) : Prop where
  args : 1 ≤ c.j
  first : b.line ≤ read32 c.mem b.args
  bound : 2 * read32 c.mem b.args ≤ c.cmd + b.line

section Drift

variable {b : Blocks} {stop fuel : Nat} {c c' : Cursor}

/-- A byte of the line is not in the table. -/
theorem clear_first (hstore : Access.Fine b (.store c.cmd)) :
    read32 c.clear.mem b.args = read32 c.mem b.args := by
  obtain ⟨hlo, hhi⟩ : b.line ≤ c.cmd ∧ c.cmd < b.line + STR_LIMIT := hstore
  have hapart := b.apart
  unfold STR_LIMIT at *
  refine read32_congr fun x hxlo hxhi => Function.update_of_ne ?_ 0 c.mem
  omega

theorem Drift.space (h : Drift b c) (hfine : ∀ x ∈ (c.space b.args).log, x.Fine b) :
    Drift b (c.space b.args) ∧ read32 (c.space b.args).mem b.args = read32 c.mem b.args := by
  have hj := h.args
  unfold Cursor.space at hfine ⊢
  split at hfine
  · rename_i hchar
    rw [if_pos hchar]
    have hset : read32 (c.setArg b.args c.j (c.cmd + 1)).mem b.args = read32 c.mem b.args :=
      read32_write32_apart _ _ (by omega)
    have hsame := (@clear_first b (c.setArg b.args c.j (c.cmd + 1))
      (hfine _ List.mem_cons_self)).trans hset
    exact ⟨⟨Nat.succ_pos _, hsame ▸ h.first, hsame ▸ h.bound⟩, hsame⟩
  · rename_i hchar
    rw [if_neg hchar]
    exact ⟨h, rfl⟩

/-- `args[ j - 1 ]++` moves the first pointer, if `j` is 1. -/
theorem setArg_last (c : Cursor) (args : Nat) (hj : 1 ≤ c.j)
    (hlt : read32 c.mem args + 1 < 2 ^ 32) :
    read32 (c.setArg args (c.j - 1)
      ((read32 c.mem (args + 4 * (c.j - 1)) + 1) % 2 ^ 32)).mem args =
      if c.j = 1 then read32 c.mem args + 1 else read32 c.mem args := by
  show read32 (write32 c.mem (args + 4 * (c.j - 1)) _) args = _
  split
  · rename_i hone
    rw [hone, Nat.sub_self, Nat.mul_zero, Nat.add_zero, Nat.mod_eq_of_lt hlt]
    exact read32_write32 _ _ hlt
  · exact read32_write32_apart _ _ (by omega)

/-- A quotation moves the first pointer on by one, if it is the last one, and else not. -/
theorem Drift.quote (h : Drift b c) (hquote : c.quote b.args stop fuel = some c')
    (hfine : ∀ x ∈ c'.log, x.Fine b) :
    Drift b c'.next ∧ read32 c.mem b.args ≤ read32 c'.mem b.args ∧
      (isQuote c.char = true → c.j = 1 → read32 c.mem b.args < read32 c'.mem b.args) := by
  have hj := h.args
  have hfirst := h.first
  have hbound := h.bound
  unfold Cursor.quote at hquote
  split at hquote
  · obtain ⟨c₁, hskip, rfl⟩ := Option.map_eq_some_iff.mp hquote
    obtain ⟨hlater, hmem⟩ := Later.skipQuoted hskip
    have hle : c.cmd + 1 ≤ c₁.cmd := hlater.cmd
    have hlater₁ := (Later.setArg c.clear b.args (c.j - 1) _).trans ((Later.next _).trans
      (hlater.trans (Later.clear c₁)))
    have hstore : Access.Fine b (.store c.cmd) := hfine _ (hlater₁.log _ List.mem_cons_self)
    have hstore₁ : Access.Fine b (.store c₁.cmd) := hfine _ List.mem_cons_self
    have hcleared : read32 c.clear.mem b.args = read32 c.mem b.args := clear_first hstore
    have hlast : read32 c₁.clear.mem b.args = read32 c₁.mem b.args := clear_first hstore₁
    obtain ⟨-, hhi⟩ : b.line ≤ c.cmd ∧ c.cmd < b.line + STR_LIMIT := hstore
    have hend := b.lineEnd
    unfold STR_LIMIT at hhi hend
    have hmoved : read32 c₁.clear.mem b.args =
        if c.j = 1 then read32 c.mem b.args + 1 else read32 c.mem b.args := by
      rw [hlast, hmem, ← hcleared]
      exact setArg_last c.clear b.args hj (by omega)
    have hle : read32 c.mem b.args ≤ read32 c₁.clear.mem b.args := by
      rw [hmoved]
      split <;> omega
    have hle' : read32 c₁.clear.mem b.args ≤ read32 c.mem b.args + 1 := by
      rw [hmoved]
      split <;> omega
    refine ⟨⟨Nat.le_trans hj hlater.j, Nat.le_trans hfirst hle, ?_⟩, hle, fun _ hone => ?_⟩
    · show 2 * read32 c₁.clear.mem b.args ≤ c₁.cmd + 1 + b.line
      omega
    · rw [hmoved, if_pos hone]
      exact Nat.lt_succ_self _
  · rename_i hnone
    obtain rfl := Option.some.inj hquote
    refine ⟨⟨hj, hfirst, ?_⟩, Nat.le_refl _, fun hyes => absurd hyes hnone⟩
    show 2 * read32 c.mem b.args ≤ c.cmd + 1 + b.line
    omega

/-- The first pointer does not move back. -/
theorem Drift.split : ∀ {fuel : Nat} {c c' : Cursor}, Drift b c →
    Shell.split b.args stop fuel c = some c' → (∀ x ∈ c'.log, x.Fine b) →
      read32 c.mem b.args ≤ read32 c'.mem b.args := by
  intro fuel
  induction fuel with
  | zero => intro c c' _ h; cases h
  | succ fuel ih =>
      intro c c' hdrift h hfine
      rw [Shell.split] at h
      split at h
      · obtain rfl := Option.some.inj h
        exact Nat.le_refl _
      · obtain ⟨c₁, hquote, hrest⟩ := Option.bind_eq_some_iff.mp h
        have hlater := (Later.next c₁).trans (Later.split hrest).1
        have hfine₁ : ∀ x ∈ c₁.log, x.Fine b := fun x hx => hfine x (hlater.log x hx)
        have hlook : Drift b (c.look stop) := ⟨hdrift.args, hdrift.first, hdrift.bound⟩
        obtain ⟨hdrift', hsame⟩ := hlook.space fun x hx =>
          hfine₁ x ((Later.quote hquote).log x hx)
        obtain ⟨hnext, hle, -⟩ := hdrift'.quote hquote hfine₁
        have hstep : read32 c.mem b.args ≤ read32 c₁.mem b.args := hsame ▸ hle
        have hrest := ih hnext hrest hfine
        exact Nat.le_trans hstep hrest

end Drift

section Exact

variable {b : Blocks} {stop fuel : Nat} {ch : UInt8} {rest : List UInt8} {c c₁ c' : Cursor}

/-- A quotation in the first word moves the pointer to the buffer for good. -/
theorem behind_first (h : Ready b stop (ch :: rest) c) (hquote : isQuote c.char = true)
    (hturn : c.quote b.args stop fuel = some c₁)
    (hrest : split b.args stop fuel c₁.next = some c') (hfine : ∀ x ∈ c'.log, x.Fine b)
    (hfirst : read32 c'.mem b.args = b.line) : 2 ≤ c.j := by
  have hslots := h.slots
  have hstart := h.start
  have hline := h.first
  by_contra hone
  have hdrift : Drift b c := ⟨hslots.1, Nat.le_of_eq hline.symm, by omega⟩
  obtain ⟨hnext, -, hmoved⟩ := hdrift.quote hturn fun x hx =>
    hfine x ((Later.split hrest).1.log x hx)
  have hlt := hmoved hquote (by omega)
  have hle := hnext.split hrest hfine
  have hle : read32 c₁.mem b.args ≤ read32 c'.mem b.args := hle
  omega

/-- A quotation that is open goes on behind the end of the line. -/
theorem closed_of_fine (h : Ready b stop (ch :: rest) c) (hquote : isQuote c.char = true)
    (hj : 2 ≤ c.j) (hturn : c.quote b.args stop fuel = some c₁)
    (hrest : split b.args stop fuel c₁.next = some c') (hfine : ∀ x ∈ c'.log, x.Fine b) :
    Closed rest := by
  have hslots := h.slots
  by_contra hopen
  have hmoved := fun v => h.clear_next.setArg (j := c.j - 1)
    (show 1 ≤ c.j - 1 ∧ c.j - 1 ≤ 31 by omega) v
  unfold Cursor.quote at hturn
  rw [if_pos hquote] at hturn
  obtain ⟨c₂, hskip, rfl⟩ := Option.map_eq_some_iff.mp hturn
  have hend := skipQuoted_open (hmoved _) hopen hskip
  have hle : c₂.cmd + 1 ≤ stop := hfine _ (Later.split hrest).2
  omega

/-- A turn that does not go well shows in the end. -/
theorem turned_of_split (h : Ready b stop (ch :: rest) c) (hzero : ch ≠ 0)
    (hturn : (c.space b.args).quote b.args stop fuel = some c₁)
    (hrest : split b.args stop fuel c₁.next = some c') (hfine : ∀ x ∈ c'.log, x.Fine b)
    (hslots : c'.j ≤ 31) (hfirst : read32 c'.mem b.args = b.line) (hfuel : rest.length < fuel) :
    ∃ c₂ tail, Turned b stop fuel ch rest c c₂ tail := by
  have hchar : c.char = ch := h.char_cons
  by_cases hspace : ch = 32
  · -- the 31st space leaves no slot for the null pointer
    subst hspace
    have hj : (c.space b.args).j = c.j + 1 := by
      unfold Cursor.space
      rw [if_pos hchar]
    have hle := ((Later.quote hturn).trans ((Later.next c₁).trans (Later.split hrest).1)).j
    obtain ⟨c₂, hturned⟩ := turned_space fuel h (by omega)
    exact ⟨c₂, rest, hturned⟩
  · have hsame : c.space b.args = c := by
      unfold Cursor.space
      exact if_neg (hchar ▸ hspace)
    rw [hsame] at hturn
    by_cases hquote : isQuote ch = true
    · have hcquote : isQuote c.char = true := hchar ▸ hquote
      have hj := behind_first h hcquote hturn hrest hfine hfirst
      exact turned_quote h hquote hj (closed_of_fine h hcquote hj hturn hrest hfine) hfuel
    · exact ⟨c, rest, turned_other fuel h hzero hspace (Bool.eq_false_iff.mpr hquote)⟩

end Exact

/-- **Only a line that is well behaved is split in bounds**, with the first pointer where it was. -/
theorem split_exact {b : Blocks} {stop : Nat} : ∀ {n : Nat} {rest : List UInt8} {c c' : Cursor}
    {fuel : Nat}, rest.length ≤ n → rest.length < fuel → Ready b stop rest c →
      split b.args stop fuel c = some c' → (∀ x ∈ c'.log, x.Fine b) → c'.j ≤ 31 →
        read32 c'.mem b.args = b.line → splits false (c.j - 1) rest = true := by
  intro n
  induction n with
  | zero =>
      intro rest c c' fuel hn _ _ _ _ _ _
      obtain rfl := List.eq_nil_of_length_eq_zero (Nat.le_zero.mp hn)
      rfl
  | succ n ih =>
      intro rest c c' fuel hn hfuel hready hsplit hfine hslots hfirst
      obtain ⟨fuel, rfl⟩ := Nat.exists_eq_succ_of_ne_zero (Nat.ne_of_gt (Nat.zero_lt_of_lt hfuel))
      cases rest with
      | nil => rfl
      | cons ch rest =>
          have hlook := hready.look
          rw [split, hlook.char_cons] at hsplit
          rw [List.length_cons] at hn hfuel
          by_cases hzero : ch = 0
          · simp [splits, hzero]
          · rw [if_neg hzero] at hsplit
            obtain ⟨c₁, hturn, hrest⟩ := Option.bind_eq_some_iff.mp hsplit
            obtain ⟨c₂, tail, hturned⟩ := turned_of_split hlook hzero hturn hrest hfine hslots hfirst
              (by omega)
            obtain rfl : c₁ = c₂ := Option.some.inj (hturn.symm.trans hturned.turn)
            have hshorter := hturned.shorter
            have htail := @ih tail c₁.next c' fuel (by omega) (by omega) hturned.ready hrest hfine
              hslots hfirst
            exact hturned.splits.symm.trans htail

/-! ### A byte -/

/-- The bytes of the line so far. -/
def Kshell.typed (s : Kshell) : List UInt8 := textAt s.mem s.cmd s.i

/-- If the byte ends the line, the line is not full, and can be split. -/
def LineFits (s : Kshell) (key : Key) : Prop :=
  s.running = true → ¬ (key.byte ≠ 10 ∧ s.i < STR_LIMIT) →
    s.i < STR_LIMIT ∧ splits false 0 s.typed = true

/-- The byte is taken in, with all accesses in bounds, and `cmd` points to the buffer. -/
def InBounds (b : Blocks) (s : Kshell) (key : Key) : Prop :=
  s.running = true → ∃ log s', s.feed b key = some (log, s') ∧ (∀ x ∈ log, x.Fine b) ∧
    s'.cmd = b.line

/-- Between two bytes, `cmd` and `args[0]` point to the buffer. -/
structure KshellInv (b : Blocks) (s : Kshell) : Prop where
  cmd : s.cmd = b.line
  length : s.i ≤ STR_LIMIT
  first : read32 s.mem b.args = b.line

section Step

variable {b : Blocks} {s : Kshell}

theorem put_first (hs : KshellInv b s) (hlt : s.i < STR_LIMIT) (byte : UInt8) :
    read32 (s.put byte).mem b.args = b.line := by
  have hcmd := hs.cmd
  have hapart := b.apart
  refine (read32_congr fun x hlo hhi => Function.update_of_ne ?_ byte s.mem).trans hs.first
  unfold STR_LIMIT at *
  omega

/-- A line that is not full, when its end is typed. -/
theorem ready_put (hs : KshellInv b s) (hlt : s.i < STR_LIMIT) :
    Ready b (s.cmd + s.i) s.typed ⟨(s.put 0).mem, s.cmd, 1, [.store (s.cmd + s.i)]⟩ := by
  have hcmd := hs.cmd
  refine ⟨Nat.le_of_eq hcmd.symm, congrArg (s.cmd + ·) (textAt_length s.mem s.i s.cmd), by omega,
    lineAt_textAt s.mem s.i s.cmd, put_first hs hlt 0, ⟨Nat.le_refl 1, show 1 ≤ 31 by decide⟩,
    fun x hx => ?_⟩
  obtain rfl := List.mem_singleton.mp hx
  show b.line ≤ s.cmd + s.i ∧ s.cmd + s.i < b.line + STR_LIMIT
  omega

/-- A line that fits is shorter than what a counter holds. -/
theorem typed_lt (hlt : s.i < STR_LIMIT) : s.typed.length < 2 ^ 32 := by
  have htyped := textAt_length s.mem s.i s.cmd
  unfold Kshell.typed
  unfold STR_LIMIT at hlt
  omega

/-- **A line that fits is taken in and split in bounds**, and the next one starts where it did. -/
theorem endLine_spec (hs : KshellInv b s) (hlt : s.i < STR_LIMIT)
    (hsplits : splits false 0 s.typed = true) (after : Memory) :
    ∃ log s', s.endLine b after = some (log, s') ∧ (∀ x ∈ log, x.Fine b) ∧ KshellInv b s' := by
  have hlength := typed_lt hlt
  obtain ⟨c, hsplit, hfirst, hslots, hfine⟩ :=
    split_spec (Nat.le_refl _) (ready_put hs hlt) hsplits hlength
  unfold Kshell.endLine
  dsimp only
  rw [hsplit, Option.map_some]
  refine ⟨_, _, rfl, fun x hx => ?_, hfirst, Nat.zero_le _, ?_⟩
  · rcases List.mem_cons.mp hx with rfl | hx
    · show c.j < 128 / 4
      omega
    · exact hfine x hx
  · -- the last pointer is not the first one
    have hkept : read32 (c.setArg b.args c.j 0).mem b.args = b.line :=
      (read32_write32_apart _ _ (by omega)).trans hfirst
    refine (read32_congr fun x hlo hhi => if_pos ?_).trans hkept
    unfold STR_LIMIT
    omega

theorem feed_spec (hs : KshellInv b s) (hrunning : s.running = true) {key : Key}
    (hfits : LineFits s key) :
    ∃ log s', s.feed b key = some (log, s') ∧ (∀ x ∈ log, x.Fine b) ∧ KshellInv b s' := by
  unfold Kshell.feed
  rw [if_neg (not_not.mpr hrunning)]
  by_cases hin : key.byte ≠ 10 ∧ s.i < STR_LIMIT
  · have hcmd := hs.cmd
    have hfine : ∀ x ∈ [Access.store (s.cmd + s.i)], x.Fine b := fun x hx => by
      obtain rfl := List.mem_singleton.mp hx
      show b.line ≤ s.cmd + s.i ∧ s.cmd + s.i < b.line + STR_LIMIT
      omega
    rw [if_pos hin]
    by_cases hback : key.byte = 8
    · rw [if_pos hback]
      exact ⟨_, _, rfl, hfine, hcmd, Nat.le_trans (Nat.sub_le _ _) hs.length,
        put_first hs hin.2 0⟩
    · rw [if_neg hback]
      exact ⟨_, _, rfl, hfine, hcmd, hin.2, put_first hs hin.2 key.byte⟩
  · rw [if_neg hin]
    obtain ⟨hlt, hsplits⟩ := hfits hrunning hin
    exact endLine_spec hs hlt hsplits key.after

/-- **A line that does not fit is not taken in in bounds.** -/
theorem feed_exact (hs : KshellInv b s) {key : Key} (hin : InBounds b s key) : LineFits s key := by
  intro hrunning hend
  obtain ⟨log, s', hfeed, hfine, hcmd⟩ := hin hrunning
  unfold Kshell.feed at hfeed
  rw [if_neg (not_not.mpr hrunning), if_neg hend] at hfeed
  unfold Kshell.endLine at hfeed
  obtain ⟨c, hsplit, hpair⟩ := Option.map_eq_some_iff.mp hfeed
  obtain ⟨rfl, rfl⟩ := Prod.mk.inj hpair
  have hfine' : ∀ x ∈ c.log, x.Fine b := fun x hx => hfine x (List.mem_cons_of_mem _ hx)
  have hslots : c.j < 128 / 4 := hfine _ List.mem_cons_self
  -- the terminator is in the buffer
  have hterminator : Access.Fine b (.store (s.cmd + s.i)) :=
    hfine' _ ((Later.split hsplit).1.log _ List.mem_cons_self)
  obtain ⟨-, hhi⟩ : b.line ≤ s.cmd + s.i ∧ s.cmd + s.i < b.line + STR_LIMIT := hterminator
  have hstart := hs.cmd
  have hlt : s.i < STR_LIMIT := by omega
  have hlength := typed_lt hlt
  exact ⟨hlt, split_exact (Nat.le_refl _) hlength (ready_put hs hlt) hsplit hfine' (by omega) hcmd⟩

end Step

theorem kshellInv_start (b : Blocks) (mem : Memory) : KshellInv b (Kshell.start b mem) := by
  refine ⟨rfl, Nat.zero_le _, read32_write32 mem b.args ?_⟩
  have hend := b.lineEnd
  unfold STR_LIMIT at hend
  omega

/-! ### A run -/

theorem kshellStep_inv {b : Blocks} (s : Kshell) (key : Key) (s' : Kshell) (hs : KshellInv b s)
    (hstep : kshellStep b s key = some s') (hfits : LineFits s key) : KshellInv b s' := by
  have hrunning : s.running = true := by
    by_contra hstopped
    unfold kshellStep Kshell.feed at hstep
    rw [if_pos hstopped] at hstep
    cases hstep
  obtain ⟨log, s₁, hfeed, -, hs₁⟩ := feed_spec hs hrunning hfits
  unfold kshellStep at hstep
  rw [hfeed] at hstep
  obtain rfl := Option.some.inj hstep
  exact hs₁

/--
**A shell stays inside its buffer and its table exactly as long as every line fits.**  From the
start, for every sequence of bytes that are typed, whatever the commands do with the rest of
memory.
-/
theorem shell_in_bounds_iff (b : Blocks) (mem : Memory) (keys : List Key) :
    EveryTry (kshellStep b) (InBounds b) (Kshell.start b mem) keys ↔
      EveryTry (kshellStep b) LineFits (Kshell.start b mem) keys := by
  have hexact : ∀ s key, KshellInv b s → (InBounds b s key ↔ LineFits s key) := by
    intro s key hs
    refine ⟨feed_exact hs, fun hfits hrunning => ?_⟩
    obtain ⟨log, s', hfeed, hfine, hs'⟩ := feed_spec hs hrunning hfits
    exact ⟨log, s', hfeed, hfine, hs'.cmd⟩
  exact everyTry_iff kshellStep_inv hexact (kshellInv_start b mem)

/-- The byte after a full line ends it, and the zero behind it is out of bounds. -/
theorem full_line {b : Blocks} {key : Key} (hletter : key.byte ≠ 10) (hkey : key.byte ≠ 8) :
    ∀ (n : Nat) (s : Kshell), KshellInv b s → s.running = true → s.i + n = STR_LIMIT →
      ¬ EveryTry (kshellStep b) (InBounds b) s (List.replicate (n + 1) key) := by
  intro n
  induction n with
  | zero =>
      intro s hs hrunning hfull h
      have hin : ¬ (key.byte ≠ 10 ∧ s.i < STR_LIMIT) := fun hin => by omega
      exact hin ⟨hletter, (feed_exact hs h.1 hrunning hin).1⟩
  | succ n ih =>
      intro s hs hrunning hlength h
      have hin : key.byte ≠ 10 ∧ s.i < STR_LIMIT := ⟨hletter, by omega⟩
      have hfits : LineFits s key := fun _ hend => absurd hin hend
      have hstep : kshellStep b s key = some { s.put key.byte with i := s.i + 1 } := by
        unfold kshellStep Kshell.feed
        rw [if_neg (not_not.mpr hrunning), if_pos hin, if_neg hkey]
        rfl
      refine ih _ (kshellStep_inv s key _ hs hstep hfits) hrunning ?_ (h.2 _ hstep)
      show s.i + 1 + n = STR_LIMIT
      omega

/-- Two blocks as the heap hands them out, one behind the other. -/
def someBlocks : Blocks where
  line := 0xc03ff804
  args := 0xc03ffa04
  lineEnd := by decide
  argsEnd := by decide
  apart := .inl (by decide)

/-- **A line of 128 letters gets its zero behind the buffer.** -/
theorem shell_out_of_bounds :
    ¬ EveryTry (kshellStep someBlocks) (InBounds someBlocks)
      (Kshell.start someBlocks fun _ => 0) (List.replicate 129 ⟨97, fun _ => 0⟩) :=
  full_line (by decide) (by decide) 128 _ (kshellInv_start _ _) rfl rfl

end OsThing.Shell
