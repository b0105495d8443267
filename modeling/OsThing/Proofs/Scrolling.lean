/-
What a newline does to the screen.

`kcheck_scroll` copies the rows from `con_scroll_offset` on from the row below, the upper ones
first, so that each is read before it is written: after some copies the rows above are those of
one row further down, and the others are still what they were, `copyLines_mem`.  The cursor is
the pair of counters.  `move_cursor` comes before the screen is scrolled, and what the CRT
controller shows is one row behind until the next byte, `newline_cursor`.
-/
import OsThing.Drivers.Console

namespace OsThing.Drivers

open Bytes

namespace Console

/-- The bytes of a row, which are the characters and colours of its 80 cells. -/
def row (c : Console) (i j : Nat) : UInt8 := c.mem (videoram + i * xsize * 2 + j)

/-- The address is one of the rows from `first` up to `last`, without `last` itself. -/
def InRows (first last a : Nat) : Prop :=
  videoram + first * xsize * 2 ≤ a ∧ a < videoram + last * xsize * 2

instance (first last a : Nat) : Decidable (InRows first last a) :=
  inferInstanceAs (Decidable (_ ∧ _))

theorem row_inRows {first last i j : Nat} (hj : j < xsize * 2) :
    InRows first last (videoram + i * xsize * 2 + j) ↔ first ≤ i ∧ i < last := by
  unfold InRows
  unfold xsize at hj ⊢
  omega

theorem InRows.mono {first last first' last' a : Nat} (h : InRows first last a)
    (hfirst : first' ≤ first) (hlast : last ≤ last') : InRows first' last' a := by
  unfold InRows xsize at *
  omega

/-- The loop of `kcheck_scroll` after `n` rows. -/
def copyLines (c : Console) (start n : Nat) : Console :=
  (List.range n).foldl (fun c i => c.copyLine (start + i)) c

theorem copyLines_succ (c : Console) (start n : Nat) :
    c.copyLines start (n + 1) = (c.copyLines start n).copyLine (start + n) := by
  unfold copyLines
  rw [List.range_succ, List.foldl_append]
  rfl

theorem copyLine_mem (c : Console) (i a : Nat) :
    (c.copyLine i).mem a = c.mem (if InRows i (i + 1) a then a + xsize * 2 else a) := by
  have hrow : InRows i (i + 1) a ↔
      videoram + i * xsize * 2 ≤ a ∧ a < videoram + i * xsize * 2 + xsize * 2 := by
    unfold InRows xsize
    omega
  simp only [hrow]
  rfl

theorem copyLines_mem (c : Console) (start n a : Nat) :
    (c.copyLines start n).mem a =
      c.mem (if InRows start (start + n) a then a + xsize * 2 else a) := by
  induction n generalizing a with
  | zero =>
      have hnone : ¬ InRows start (start + 0) a := by
        rintro ⟨hfirst, hlast⟩
        rw [Nat.add_zero] at hlast
        omega
      rw [if_neg hnone]
      rfl
  | succ n ih =>
      rw [copyLines_succ, copyLine_mem, ih]
      by_cases hrow : InRows (start + n) (start + n + 1) a
      · -- The row that is read lies below those that are copied so far.
        have hunread : ¬ InRows start (start + n) (a + xsize * 2) := by
          unfold InRows xsize at *
          omega
        have hcopied : InRows start (start + (n + 1)) a := by
          unfold InRows xsize at *
          omega
        rw [if_pos hrow, if_neg hunread, if_pos hcopied]
      · have hsame : InRows start (start + n) a ↔ InRows start (start + (n + 1)) a := by
          unfold InRows xsize at *
          omega
        rw [if_neg hrow]
        simp only [hsame]

/-- Copying leaves the counters alone, and does not tell the CRT controller anything. -/
theorem copyLines_cursor (c : Console) (start n : Nat) :
    (c.copyLines start n).curXPos = c.curXPos ∧ (c.copyLines start n).cursor = c.cursor := by
  induction n with
  | zero => exact ⟨rfl, rfl⟩
  | succ n ih =>
      rw [copyLines_succ]
      exact ih

/-- The memory after `kcheck_scroll` has found the cursor below the screen. -/
theorem kcheckScroll_mem {c : Console} (hy : c.curYPos > 24)
    (htop : c.conScrollOffset.toNat ≤ 24) (a : Nat) :
    c.kcheckScroll.mem a =
      if InRows 24 25 a then 0
      else c.mem (if InRows c.conScrollOffset.toNat 24 a then a + xsize * 2 else a) := by
  have hcopies := copyLines_mem c c.conScrollOffset.toNat (24 - c.conScrollOffset.toNat) a
  rw [Nat.add_sub_cancel' htop] at hcopies
  have hlast : InRows 24 25 a ↔ videoram + max c.conScrollOffset.toNat 24 * xsize * 2 ≤ a ∧
      a < videoram + max c.conScrollOffset.toNat 24 * xsize * 2 + xsize * 2 := by
    rw [Nat.max_eq_right htop]
    unfold InRows xsize
    omega
  rw [← hcopies]
  simp only [hlast]
  unfold kcheckScroll
  rw [if_pos hy]
  rfl

theorem kcheckScroll_cursor {c : Console} (hy : c.curYPos > 24) :
    c.kcheckScroll.curXPos = c.curXPos ∧ c.kcheckScroll.curYPos = 24 ∧
      c.kcheckScroll.cursor = c.cursor := by
  obtain ⟨hx, hcursor⟩ :=
    copyLines_cursor c c.conScrollOffset.toNat (24 - c.conScrollOffset.toNat)
  unfold kcheckScroll
  rw [if_pos hy]
  exact ⟨hx, rfl, hcursor⟩

/-- What `put` makes of a newline. -/
def newline (c : Console) : Console := { c with curYPos := c.curYPos + 1, curXPos := 0 }

theorem kputchar_newline (c : Console) :
    c.kputchar 0x0a = c.newline.moveCursor.kcheckScroll := rfl

theorem newline_below {c : Console} (hy : c.curYPos = 24) : c.newline.moveCursor.curYPos > 24 := by
  show c.curYPos + 1 > 24
  rw [hy]
  decide

/-- The screen `c'` is the screen `c` one line further down, less the lines that stay. -/
structure ScrolledOnce (c c' : Console) : Prop where
  above : ∀ i < c.conScrollOffset.toNat, ∀ j < xsize * 2, c'.row i j = c.row i j
  shifted : ∀ i < 24, c.conScrollOffset.toNat ≤ i → ∀ j < xsize * 2, c'.row i j = c.row (i + 1) j
  blank : ∀ j < xsize * 2, c'.row 24 j = 0
  outside : ∀ a, ¬ InRows 0 25 a → c'.mem a = c.mem a
  x : c'.curXPos = 0
  y : c'.curYPos = 24

theorem kputchar_scrolledOnce {c : Console} (htop : c.conScrollOffset.toNat ≤ 24)
    (hy : c.curYPos = 24) : ScrolledOnce c (c.kputchar 0x0a) := by
  have hbelow := newline_below hy
  have hmem : ∀ a, (c.kputchar 0x0a).mem a =
      if InRows 24 25 a then 0
      else c.mem (if InRows c.conScrollOffset.toNat 24 a then a + xsize * 2 else a) :=
    kcheckScroll_mem hbelow htop
  have hrow : ∀ i j, j < xsize * 2 → (c.kputchar 0x0a).row i j =
      if 24 ≤ i ∧ i < 25 then 0
      else if c.conScrollOffset.toNat ≤ i ∧ i < 24 then c.row (i + 1) j else c.row i j := by
    intro i j hj
    unfold row
    rw [hmem]
    simp only [row_inRows hj]
    have hnext : videoram + i * xsize * 2 + j + xsize * 2 =
        videoram + (i + 1) * xsize * 2 + j := by
      unfold xsize
      omega
    split_ifs
    · rfl
    · rw [hnext]
    · rfl
  refine ⟨?_, ?_, ?_, ?_, ?_, ?_⟩
  · intro i hi j hj
    rw [hrow i j hj, if_neg (by omega), if_neg (by omega)]
  · intro i hi hstart j hj
    rw [hrow i j hj, if_neg (by omega), if_pos ⟨hstart, hi⟩]
  · intro j hj
    rw [hrow 24 j hj, if_pos (by omega)]
  · intro a ha
    have hlast : ¬ InRows 24 25 a := fun h => ha (h.mono (Nat.zero_le _) (Nat.le_refl _))
    have hnone : ¬ InRows c.conScrollOffset.toNat 24 a := fun h =>
      ha (h.mono (Nat.zero_le _) (by decide))
    rw [hmem, if_neg hlast, if_neg hnone]
  · exact (kcheckScroll_cursor hbelow).1
  · exact (kcheckScroll_cursor hbelow).2.1

theorem kputchar_newline_above {c : Console} (hy : c.curYPos < 24) :
    c.kputchar 0x0a = c.newline.moveCursor := by
  rw [kputchar_newline, kcheckScroll, if_neg]
  show ¬ c.curYPos + 1 > 24
  have hlt := UInt16.lt_iff_toNat_lt.mp hy
  rw [gt_iff_lt, UInt16.lt_iff_toNat_lt, UInt16.toNat_add]
  simp only [UInt16.reduceToNat] at hlt ⊢
  omega

/-- The controller was told of the row below the screen. -/
theorem newline_cursor {c : Console} (hy : c.curYPos = 24) : (c.kputchar 0x0a).cursor = 2000 := by
  rw [kputchar_newline, (kcheckScroll_cursor (newline_below hy)).2.2]
  show (c.curYPos + 1) * 80 + 0 = 2000
  rw [hy]
  decide

end Console

open Console

/--
**Scrolling shifts one line.**  For every screen and every `con_scroll_offset` up to 24: a newline
in the last row moves the rows from there on up by one, and leaves the others and all other
memory alone; a newline in an earlier row changes nothing in memory.
-/
theorem newline_scrolls (c : Console) (htop : c.conScrollOffset ≤ 24) :
    (c.curYPos = 24 → ScrolledOnce c (c.kputchar 0x0a)) ∧
      (c.curYPos < 24 → (c.kputchar 0x0a).mem = c.mem) := by
  constructor
  · intro hy
    exact kputchar_scrolledOnce (UInt16.le_iff_toNat_le.mp htop) hy
  · intro hy
    rw [kputchar_newline_above hy]
    rfl

/-- With two lines of greeting that stay. -/
theorem newline_scrolls_greeting :
    ScrolledOnce { boot (fun a => UInt8.ofNat a) with curYPos := 24, conScrollOffset := 2 }
      (kputchar { boot (fun a => UInt8.ofNat a) with curYPos := 24, conScrollOffset := 2 } 0x0a) :=
  (newline_scrolls { boot (fun a => UInt8.ofNat a) with curYPos := 24, conScrollOffset := 2 }
    (by decide)).1 rfl

end OsThing.Drivers
