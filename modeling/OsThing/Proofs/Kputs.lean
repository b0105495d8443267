/-
What `kputs` does with a string, and where its characters come to stand.

The counter of `kputs` has 16 bits, so that it never gets to the end of a string of 65536
bytes or more.  A shorter one is passed on byte by byte.

On the cleared screen `kputchar` puts a line break behind the 81st character of a line, since
it compares the column with 80 after it has counted it up.  The last one of them is in the
first cell of the next line, `cellOf`, and the character after it takes the same cell.
-/
import OsThing.Drivers.Console
import Mathlib.Tactic.Common

namespace OsThing.Drivers

open Ram

/-! ### The loop -/

section Loop

variable {σ : Type*} (kputchar : σ → UInt8 → σ) {m : Memory} {a : UInt32} {s : List UInt8}

/-- From a place in a string that is short enough, the rest of it is passed on. -/
theorem kputsLoop_rest (h : IsString m a s) (hshort : s.length < 2 ^ 16) :
    ∀ (n i : Nat) (st : σ), i + n = s.length →
      ∀ fuel, n < fuel → kputsLoop kputchar m a fuel (UInt16.ofNat i) st =
        some ((s.drop i).foldl kputchar st) := by
  have hlength : strlen m (2 ^ 32) a = some s.length := strlen_eq s h h.length_lt
  intro n
  induction n with
  | zero =>
      intro i st hi fuel hfuel
      obtain ⟨fuel, rfl⟩ := Nat.exists_eq_add_of_lt hfuel
      have hi16 : (UInt16.ofNat i).toNat = i := UInt16.toNat_ofNat_of_lt' (show i < 2 ^ 16 by omega)
      have hend : ¬ i < s.length := by omega
      simp only [kputsLoop, hlength, Option.bind_some, hi16, if_neg hend]
      rw [List.drop_of_length_le (by omega), List.foldl_nil]
  | succ n ih =>
      intro i st hi fuel hfuel
      obtain ⟨fuel, rfl⟩ := Nat.exists_eq_add_of_lt hfuel
      have hi16 : (UInt16.ofNat i).toNat = i := UInt16.toNat_ofNat_of_lt' (show i < 2 ^ 16 by omega)
      have hlt : i < s.length := by omega
      have hbyte : m (a + (UInt16.ofNat i).toUInt32) = s[i] := by
        rw [← h.bytes i hlt]
        congr 2
        rw [← UInt32.toNat_inj, UInt16.toNat_toUInt32, hi16,
          UInt32.toNat_ofNat_of_lt' (show i < 2 ^ 32 by omega)]
      have hnext : UInt16.ofNat i + 1 = UInt16.ofNat (i + 1) := by
        rw [UInt16.ofNat_add]
        rfl
      simp only [kputsLoop, hlength, Option.bind_some, hi16, if_pos hlt]
      rw [hbyte, hnext, ih (i + 1) _ (by omega) _ (by omega), List.drop_eq_getElem_cons hlt,
        List.foldl_cons]

/-- The counter stays below the length of a long string, whatever it is. -/
theorem kputsLoop_long (h : IsString m a s) (hlong : 2 ^ 16 ≤ s.length) :
    ∀ (fuel : Nat) (i : UInt16) (st : σ), kputsLoop kputchar m a fuel i st = none := by
  have hlength : strlen m (2 ^ 32) a = some s.length := strlen_eq s h h.length_lt
  intro fuel
  induction fuel with
  | zero => intro i st; rfl
  | succ fuel ih =>
      intro i st
      have hlt : i.toNat < s.length := Nat.lt_of_lt_of_le i.toNat_lt hlong
      simp only [kputsLoop, hlength, Option.bind_some, if_pos hlt]
      exact ih _ _

theorem kputs_short (h : IsString m a s) (hshort : s.length < 2 ^ 16) (st : σ) :
    kputs kputchar m a st = some (s.foldl kputchar st) := by
  have hrest := kputsLoop_rest kputchar h hshort s.length 0 st (Nat.zero_add _) (2 ^ 16 + 1)
    (by omega)
  rwa [List.drop_zero] at hrest

/--
**`kputs` passes on a string just if it has less than 65536 bytes.**  Whatever `kputchar` does:
after some number of rounds the loop has ended, and has given it the bytes of the string one
after another.
-/
theorem kputs_passes_iff (h : IsString m a s) (st : σ) :
    (∃ fuel, kputsLoop kputchar m a fuel 0 st = some (s.foldl kputchar st)) ↔
      s.length < 2 ^ 16 := by
  constructor
  · rintro ⟨fuel, hends⟩
    by_contra hlong
    rw [kputsLoop_long kputchar h (Nat.le_of_not_lt hlong)] at hends
    exact absurd hends (by simp)
  · intro hshort
    exact ⟨2 ^ 16 + 1, kputs_short kputchar h hshort st⟩

end Loop

/-- What `kputchar` is given, one byte after another. -/
def note (given : List UInt8) (c : UInt8) : List UInt8 := given ++ [c]

theorem isString_letters {n : Nat} (hn : n < 2 ^ 32) :
    IsString (ofBytes (List.replicate n 97)) 0 (List.replicate n 97) := by
  apply IsString.ofBytes
  · simp [List.mem_replicate]
  · rwa [List.length_replicate]

/-- A line and one letter. -/
theorem kputs_passes_letters : ∃ fuel,
    kputsLoop note (ofBytes (List.replicate 81 97)) 0 fuel 0 [] =
      some ((List.replicate 81 97).foldl note []) :=
  (kputs_passes_iff note (isString_letters (by decide)) []).mpr (by decide)

/-- **A string of 65536 letters is passed on again and again.** -/
theorem kputs_goes_on : ¬ ∀ (m : Memory) (a : UInt32) (s : List UInt8), IsString m a s →
    ∃ fuel, kputsLoop note m a fuel 0 [] = some (s.foldl note []) := by
  intro h
  have hstring := isString_letters (n := 65536) (by decide)
  obtain ⟨fuel, hends⟩ := h _ _ _ hstring
  rw [kputsLoop_long note hstring (Nat.le_of_eq List.length_replicate.symm)] at hends
  cases hends

/-! ### Lines of characters -/

namespace Console

variable (c : Console)

/-- The character in a cell of the screen. -/
def shown (cell : Nat) : UInt8 := c.mem (videoram + 2 * cell)

/-- Where the character `k` after `cls` is put, if no other kind of byte comes. -/
def cellOf (k : Nat) : Nat := k / 81 * xsize + k % 81

variable {c}

@[simp] theorem draw_curXPos (input : UInt8) : (c.draw input).curXPos = c.curXPos := rfl

@[simp] theorem draw_curYPos (input : UInt8) : (c.draw input).curYPos = c.curYPos := rfl

@[simp] theorem moveCursor_curXPos : c.moveCursor.curXPos = c.curXPos := rfl

@[simp] theorem moveCursor_curYPos : c.moveCursor.curYPos = c.curYPos := rfl

/-- A character changes one cell and, on the screen, nothing else that is shown. -/
theorem draw_shown (input : UInt8) (hpos : c.pos < 2000) (j : Nat) (hj : j < 2000) :
    (c.draw input).shown j = if j = c.pos then input else c.shown j := by
  have haddress : ∀ offset < 4004, address offset = videoram + offset := by
    intro offset hoffset
    unfold address videoram
    omega
  unfold shown draw poke
  simp only [haddress (c.pos * 2) (by omega), haddress (c.pos * 2 + 1) (by omega),
    haddress (c.pos * 2 + 3) (by omega)]
  -- The colours have odd offsets.
  rw [Function.update_of_ne (by omega), Function.update_of_ne (by omega)]
  by_cases heq : j = c.pos
  · subst heq
    rw [if_pos rfl, Nat.mul_comm, Function.update_self]
  · rw [if_neg heq, Function.update_of_ne (by omega)]

theorem advance_shown (j : Nat) : c.advance.shown j = c.shown j := by
  unfold advance
  dsimp only
  split
  · rfl
  · rfl

/-- The column is compared with 80 after it was counted up. -/
theorem advance_pos (hx : c.curXPos.toNat ≤ 80) (hy : c.curYPos.toNat < 24) :
    (c.curXPos.toNat = 80 → c.advance.curXPos.toNat = 0 ∧
      c.advance.curYPos.toNat = c.curYPos.toNat + 1) ∧
    (c.curXPos.toNat ≠ 80 → c.advance.curXPos.toNat = c.curXPos.toNat + 1 ∧
      c.advance.curYPos.toNat = c.curYPos.toNat) := by
  have hx' : (c.curXPos + 1).toNat = c.curXPos.toNat + 1 := by
    rw [UInt16.toNat_add]
    simp
    omega
  have hy' : (c.curYPos + 1).toNat = c.curYPos.toNat + 1 := by
    rw [UInt16.toNat_add]
    simp
    omega
  have hlast : c.curXPos + 1 > 80 ↔ c.curXPos.toNat = 80 := by
    rw [gt_iff_lt, UInt16.lt_iff_toNat_lt, hx']
    simp
    omega
  unfold advance
  dsimp only
  constructor
  · intro hend
    rw [if_pos (hlast.mpr hend)]
    exact ⟨by simp, hy'⟩
  · intro hend
    rw [if_neg (mt hlast.mp hend)]
    exact ⟨hx', rfl⟩

/-- What the screen shows after the first `n` characters of `s`: a character stands in its cell
until another one takes it, and the other cells are blank. -/
structure Typed (s : List UInt8) (n : Nat) (c : Console) : Prop where
  x : c.curXPos.toNat = n % 81
  y : c.curYPos.toNat = n / 81
  last : ∀ k < n, (∀ k', k < k' → k' < n → cellOf k' ≠ cellOf k) → s[k]? = some (c.shown (cellOf k))
  blank : ∀ j < 2000, (∀ k < n, cellOf k ≠ j) → c.shown j = 0

theorem cls_typed (c : Console) (s : List UInt8) : Typed s 0 c.cls := by
  refine ⟨by simp [cls], by simp [cls], ?_, ?_⟩
  · intro k hk
    omega
  · intro j hj _
    show (if videoram + 0 ≤ videoram + 2 * j ∧ videoram + 2 * j < videoram + 0 + videoSize then 0
      else c.mem (videoram + 2 * j)) = 0
    rw [if_pos]
    unfold videoSize
    omega

theorem Typed.pos_eq {s : List UInt8} {n : Nat} (h : Typed s n c) : c.pos = cellOf n := by
  unfold pos cellOf
  rw [h.x, h.y]

/-- The next character. -/
theorem Typed.kputchar {s : List UInt8} {n : Nat} (h : Typed s n c) (hn : n < 1920)
    {input : UInt8} (hinput : s[n]? = some input) (hprint : Printable input) :
    Typed s (n + 1) (c.kputchar input) := by
  have hx := h.x
  have hy := h.y
  have hcell : cellOf n < 2000 := by
    unfold cellOf xsize
    omega
  obtain ⟨hend, hmore⟩ := advance_pos (c := c.draw input) (by simp; omega) (by simp; omega)
  simp only [draw_curXPos, draw_curYPos] at hend hmore
  -- There is nothing to scroll yet.
  have hstays : ¬ (c.draw input).advance.curYPos > 24 := by
    rw [gt_iff_lt, UInt16.lt_iff_toNat_lt]
    simp only [UInt16.reduceToNat]
    omega
  have hput : c.kputchar input = (c.draw input).advance.moveCursor := by
    unfold Console.kputchar put kcheckScroll
    rw [if_pos hprint]
    exact if_neg hstays
  have hshown : ∀ j < 2000,
      (c.kputchar input).shown j = if j = cellOf n then input else c.shown j := by
    intro j hj
    rw [hput, ← h.pos_eq, ← draw_shown input (h.pos_eq ▸ hcell) j hj]
    exact advance_shown j
  refine ⟨?_, ?_, ?_, ?_⟩
  · rw [hput, moveCursor_curXPos]
    omega
  · rw [hput, moveCursor_curYPos]
    omega
  · intro k hk hlast
    have hk2000 : cellOf k < 2000 := by
      unfold cellOf xsize
      omega
    rw [hshown _ hk2000]
    by_cases hkn : k = n
    · rw [hkn, if_pos rfl, hinput]
    · have hne : cellOf n ≠ cellOf k := hlast n (by omega) (by omega)
      rw [if_neg (Ne.symm hne)]
      exact h.last k (by omega) fun k' hlo hhi => hlast k' hlo (by omega)
  · intro j hj hfree
    have hne : cellOf n ≠ j := hfree n (Nat.lt_succ_self n)
    rw [hshown j hj, if_neg (Ne.symm hne)]
    exact h.blank j hj fun k hk => hfree k (Nat.lt_succ_of_lt hk)

/-- All characters of a string, from the ones that are there already. -/
theorem Typed.string {s : List UInt8} (hprint : ∀ b ∈ s, Printable b) (hlength : s.length ≤ 1920) :
    ∀ (n : Nat) (c : Console), Typed s n c → n ≤ s.length →
      Typed s s.length ((s.drop n).foldl Console.kputchar c) := by
  intro n c h hn
  induction hrest : s.length - n generalizing n c with
  | zero =>
      have hall : n = s.length := by omega
      rw [List.drop_of_length_le (by omega), List.foldl_nil]
      exact hall ▸ h
  | succ rest ih =>
      have hlt : n < s.length := by omega
      rw [List.drop_eq_getElem_cons hlt, List.foldl_cons]
      apply ih (n + 1)
      · exact h.kputchar (by omega) (List.getElem?_eq_getElem hlt) (hprint _ (List.getElem_mem hlt))
      · omega
      · omega

end Console

open Console

/-- The string is shown from the first cell on, one character in each. -/
def ShowsAll (c : Console) (s : List UInt8) : Prop := ∀ k (h : k < s.length), c.shown k = s[k]

/-- A string with a character that was taken over. -/
theorem Console.Typed.not_shows {c : Console} {s : List UInt8} (h : Typed s s.length c)
    (hprint : ∀ b ∈ s, Printable b) (hlength : s.length ≤ 1920) (hlong : 81 < s.length) :
    ¬ ShowsAll c s := by
  intro hall
  have hlast : s.length - 1 < s.length := by omega
  have hblank : c.shown (s.length - 1) = 0 := by
    apply h.blank _ (by omega)
    intro k hk
    unfold cellOf xsize
    omega
  have hchar : Printable (c.shown (s.length - 1)) := by
    rw [hall _ hlast]
    exact hprint _ (List.getElem_mem hlast)
  rw [hblank] at hchar
  exact absurd hchar (by decide)

/--
**A long line is shown without loss just if it has no more than 81 characters.**  For every
string of up to 1920 printable characters that is given to `kputs` after `cls`.
-/
theorem long_lines_shown_iff (c : Console) {m : Memory} {a : UInt32} {s : List UInt8}
    (hstring : IsString m a s) (hprint : ∀ b ∈ s, Printable b) (hlength : s.length ≤ 1920) :
    (∃ c', kputs Console.kputchar m a c.cls = some c' ∧ ShowsAll c' s) ↔ s.length ≤ 81 := by
  have htyped : Typed s s.length (s.foldl Console.kputchar c.cls) :=
    Typed.string hprint hlength 0 c.cls (cls_typed c s) (Nat.zero_le _)
  rw [kputs_short Console.kputchar hstring (by omega)]
  constructor
  · rintro ⟨c', hc', hall⟩
    obtain rfl := Option.some.inj hc'
    by_contra hlong
    exact htyped.not_shows hprint hlength (by omega) hall
  · intro hshort
    refine ⟨_, rfl, ?_⟩
    intro k hk
    have hcell : ∀ k < 81, cellOf k = k := by
      intro k hk
      unfold cellOf xsize
      omega
    have hlast := htyped.last k hk fun k' hlo hhi => by
      rw [hcell k' (by omega), hcell k (by omega)]
      omega
    rw [hcell k (by omega), List.getElem?_eq_getElem hk] at hlast
    exact (Option.some.inj hlast).symm

/-- The last of 81 letters is in the first cell of the second line. -/
theorem long_lines_shown_letters : ∃ c',
    kputs Console.kputchar (ofBytes (List.replicate 81 97)) 0 (boot fun _ => 0).cls = some c' ∧
      c'.shown 80 = 97 ∧ ShowsAll c' (List.replicate 81 97) := by
  have hprint : ∀ b ∈ List.replicate 81 (97 : UInt8), Printable b := by
    intro b hb
    rw [List.eq_of_mem_replicate hb]
    decide
  obtain ⟨c', hc', hall⟩ := (long_lines_shown_iff (boot fun _ => 0)
    (isString_letters (n := 81) (by decide)) hprint (by decide)).mpr (by decide)
  exact ⟨c', hc', hall 80 (by decide), hall⟩

/-- **Of 82 letters one is lost.** -/
theorem long_line_loses : ¬ ∀ (m : Memory) (a : UInt32) (s : List UInt8), IsString m a s →
    (∀ b ∈ s, Printable b) → s.length ≤ 1920 →
    ∃ c', kputs Console.kputchar m a (boot fun _ => 0).cls = some c' ∧ ShowsAll c' s := by
  intro h
  have hstring := isString_letters (n := 82) (by decide)
  have hprint : ∀ b ∈ List.replicate 82 (97 : UInt8), Printable b := by
    intro b hb
    rw [List.eq_of_mem_replicate hb]
    decide
  have htyped := Typed.string hprint (by decide) 0 _ (cls_typed (boot fun _ => 0) _) (by decide)
  obtain ⟨c', hc', hall⟩ := h _ _ _ hstring hprint (by decide)
  rw [kputs_short Console.kputchar hstring (by decide)] at hc'
  obtain rfl := Option.some.inj hc'
  exact htyped.not_shows hprint (by decide) (by decide) hall

end OsThing.Drivers
