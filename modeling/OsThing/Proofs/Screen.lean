/-
The console is a window on a roll of paper.

`kputchar` moves bytes about in the video buffer.  What it is for is simpler: the bytes are
written on paper (`Paper.put`), and the screen is the window that follows the line that is
written (`Sees`).  This holds in just those runs in which the console stays on the screen.  With
`con_scroll_offset` at 0 the screen ends as the last lines of what was written.

One thing is odd on paper too.  In column 80 the cursor is behind the line: a character goes to
the start of the next line, and the one after it takes the same place.
-/
import OsThing.Lib.Paper
import OsThing.Proofs.Console
import OsThing.Proofs.Kputs
import OsThing.Proofs.Scrolling

namespace OsThing.Drivers

open Bytes Console Runs

/-! ### Paper -/

/-- A byte on paper. -/
def onPaper (p : Paper UInt8) (input : UInt8) : Paper UInt8 :=
  if Printable input then
    if p.col < 80 then { p.write p.line p.col input with col := p.col + 1 }
    else (p.write (p.line + 1) 0 input).down
  else if input = 0x0a then p.down
  else if input = 0x0d then { p with col := 0 }
  else if input = 0x09 then { p with col := p.col + (8 - p.col % 8) }
  else if input = 0x08 then { p.write p.line (p.col - 1) 0x20 with col := p.col - 1 }
  else p

/-- The console, and the paper that is written beside it, of which the window keeps the first
`keep` lines. -/
structure Beside where
  console : Console
  paper : Paper UInt8
  keep : Nat

def Beside.start (mem : Memory) : Beside := ⟨(boot mem).cls, .fresh 0, 0⟩

def besideStep (s : Beside) (op : ConsoleOp) : Option Beside :=
  (consoleStep s.console op).map fun c => match op with
    | .kputchar input => ⟨c, (onPaper s.paper input).follow 24 s.keep, s.keep⟩
    | .keepTop on => ⟨c, s.paper, if on then 2 else 0⟩

/-- The screen is what the window shows, with the cursor where the paper is written on. -/
structure Sees (c : Console) (p : Paper UInt8) : Prop where
  good : p.Good 24 0
  x : c.curXPos.toNat = p.col
  y : c.curYPos.toNat = p.line
  shown : ∀ i < 25, ∀ j < 80, c.shown (i * 80 + j) = p.seen i j

/-! ### One byte -/

section Byte

variable {c c' : Console} {p p' : Paper UInt8}

theorem Sees.cursor (h : Sees c p) (hshown : ∀ j < 2000, c'.shown j = c.shown j)
    (hpaper : p'.text = p.text ∧ p'.rows = p.rows) (hx : c'.curXPos.toNat = p'.col)
    (hy : c'.curYPos.toNat = p'.line) : Sees c' p' := by
  obtain ⟨htext, hrows⟩ := hpaper
  refine ⟨⟨hrows ▸ h.good.order, fun row hrow j => ?_⟩, hx, hy, fun i hi j hj => ?_⟩
  · rw [htext]
    exact h.good.below row (hrows ▸ hrow) j
  · rw [hshown _ (by omega), h.shown i hi j hj, Paper.seen, Paper.seen, htext, hrows]

/-- A character in a cell of the screen. -/
theorem Sees.write (h : Sees c p) {i j : Nat} (hi : i < 25) (hj : j < 80) {input : UInt8}
    (hshown : ∀ k < 2000, c'.shown k = if k = i * 80 + j then input else c.shown k)
    (hx : c'.curXPos = c.curXPos) (hy : c'.curYPos = c.curYPos) :
    Sees c' (p.write i j input) := by
  refine ⟨h.good.write (Nat.le_of_lt_succ hi) j input, hx ▸ h.x, hy ▸ h.y, fun i' hi' j' hj' => ?_⟩
  rw [hshown _ (by omega), h.good.seen_write, ← h.shown i' hi' j' hj']
  have hcell : i' * 80 + j' = i * 80 + j ↔ i' = i ∧ j' = j := by omega
  simp only [hcell]

/-- What was drawn is a character on paper. -/
theorem Sees.draw (h : Sees c p) (hgood : c.OnScreen) {input : UInt8}
    (hfits : c.curYPos = 24 → c.curXPos < 79) :
    Sees (c.draw input).advance
      (if p.col < 80 then { p.write p.line p.col input with col := p.col + 1 }
        else (p.write (p.line + 1) 0 input).down) := by
  have hx := h.x
  have hy := h.y
  have hx80 : c.curXPos.toNat ≤ 80 := UInt16.le_iff_toNat_le.mp hgood.x
  have hy24 : c.curYPos.toNat ≤ 24 := UInt16.le_iff_toNat_le.mp hgood.y
  have hpos : c.pos < 2000 := by
    have hnext := hgood.next_iff.mpr hfits
    unfold videoSize at hnext
    omega
  have hcell : c.pos = p.line * 80 + p.col := by
    unfold pos xsize
    rw [hx, hy]
  have hshown := draw_shown (c := c) input hpos
  rw [hcell] at hshown hpos
  by_cases hcol : p.col < 80
  · rw [if_pos hcol]
    have hdrawn : Sees (c.draw input) (p.write p.line p.col input) :=
      h.write (by omega) hcol hshown rfl rfl
    have hadvance : (c.draw input).advance.curXPos.toNat = c.curXPos.toNat + 1 ∧
        (c.draw input).advance.curYPos.toNat = c.curYPos.toNat := by
      have hx' : ((c.draw input).curXPos + 1).toNat = c.curXPos.toNat + 1 := by
        rw [draw_curXPos, UInt16.toNat_add]
        simp
        omega
      have hstays : ¬ (c.draw input).curXPos + 1 > 80 := by
        rw [gt_iff_lt, UInt16.lt_iff_toNat_lt, hx']
        simp
        omega
      unfold advance
      dsimp only
      rw [if_neg hstays]
      exact ⟨hx', rfl⟩
    refine hdrawn.cursor (fun j _ => advance_shown j) ⟨rfl, rfl⟩ ?_ ?_
    · rw [hadvance.1, hx]
    · rw [hadvance.2, hy]
      rfl
  · rw [if_neg hcol]
    have hend : p.col = 80 := by omega
    have hline : p.line + 1 < 25 := by omega
    have hdrawn : Sees (c.draw input) (p.write (p.line + 1) 0 input) := by
      refine h.write hline (by omega) (fun k hk => ?_) rfl rfl
      have hsame : k = p.line * 80 + p.col ↔ k = (p.line + 1) * 80 + 0 := by omega
      rw [hshown k hk]
      simp only [hsame]
    obtain ⟨hlast, -⟩ := advance_pos (c := c.draw input) (by rw [draw_curXPos]; omega)
      (by rw [draw_curYPos]; omega)
    obtain ⟨hx', hy'⟩ := hlast (by rw [draw_curXPos]; omega)
    refine hdrawn.cursor (fun j _ => advance_shown j) ⟨rfl, rfl⟩ hx' ?_
    rw [hy', draw_curYPos, hy]
    rfl

/-- A backspace puts a blank before the cell of the cursor. -/
theorem Sees.back (h : Sees c p) (hgood : c.OnScreen) (hcol : c.curXPos ≠ 0) :
    Sees c.back { p.write p.line (p.col - 1) 0x20 with col := p.col - 1 } := by
  have hx := h.x
  have hy := h.y
  have hx80 : c.curXPos.toNat ≤ 80 := UInt16.le_iff_toNat_le.mp hgood.x
  have hy24 : c.curYPos.toNat ≤ 24 := UInt16.le_iff_toNat_le.mp hgood.y
  have hpos : 0 < c.curXPos.toNat := Nat.pos_of_ne_zero fun hzero => hcol (UInt16.toNat_inj.mp hzero)
  have hoffset : address (c.pos * 2 + 2 ^ 32 - 2) = videoram + 2 * (p.line * 80 + (p.col - 1)) := by
    have hcell : c.pos = p.line * 80 + p.col := by
      unfold pos xsize
      rw [hx, hy]
    rw [hcell]
    unfold address videoram
    omega
  have hshown : ∀ k < 2000, c.back.shown k =
      if k = p.line * 80 + (p.col - 1) then 0x20 else c.shown k := by
    intro k _
    unfold Console.shown Console.back Console.poke
    dsimp only
    rw [hoffset]
    by_cases hk : k = p.line * 80 + (p.col - 1)
    · subst hk
      rw [Function.update_self, if_pos rfl]
    · rw [Function.update_of_ne (by omega), if_neg hk]
  have hwritten : Sees { c.back with curXPos := c.curXPos } (p.write p.line (p.col - 1) 0x20) :=
    h.write (by omega) (by omega) hshown rfl rfl
  refine hwritten.cursor (fun _ _ => rfl) ⟨rfl, rfl⟩ ?_ hy
  show (c.curXPos - 1).toNat = p.col - 1
  have hone : (1 : UInt16) ≤ c.curXPos := UInt16.le_iff_toNat_le.mpr hpos
  rw [UInt16.toNat_sub_of_le _ _ hone, hx]
  rfl

/-- The branches of `kputchar`. -/
theorem Sees.put (h : Sees c p) (hgood : c.OnScreen) {input : UInt8}
    (hfits : c.Fits (.kputchar input)) : Sees (c.put input) (onPaper p input) := by
  have hx80 : c.curXPos.toNat ≤ 80 := UInt16.le_iff_toNat_le.mp hgood.x
  have hy24 : c.curYPos.toNat ≤ 24 := UInt16.le_iff_toNat_le.mp hgood.y
  have hx := h.x
  have hy := h.y
  obtain ⟨hdraw, -, hback⟩ := hfits
  unfold Console.put onPaper
  by_cases hprint : Printable input
  · rw [if_pos hprint, if_pos hprint]
    exact h.draw hgood (hdraw hprint)
  rw [if_neg hprint, if_neg hprint]
  by_cases hnewline : input = 0x0a
  · rw [if_pos hnewline, if_pos hnewline]
    refine h.cursor (fun _ _ => rfl) ⟨rfl, rfl⟩ rfl ?_
    show (c.curYPos + 1).toNat = p.line + 1
    rw [UInt16.toNat_add, ← hy]
    simp
    omega
  rw [if_neg hnewline, if_neg hnewline]
  by_cases hreturn : input = 0x0d
  · rw [if_pos hreturn, if_pos hreturn]
    exact h.cursor (fun _ _ => rfl) ⟨rfl, rfl⟩ rfl hy
  rw [if_neg hreturn, if_neg hreturn]
  by_cases htab : input = 0x09
  · rw [if_pos htab, if_pos htab]
    refine h.cursor (fun _ _ => rfl) ⟨rfl, rfl⟩ ?_ hy
    show (c.curXPos + (8 - c.curXPos % 8)).toNat = p.col + (8 - p.col % 8)
    rw [UInt16.toNat_add, UInt16.toNat_sub, UInt16.toNat_mod, ← hx]
    simp only [UInt16.reduceToNat]
    omega
  rw [if_neg htab, if_neg htab]
  by_cases hrub : input = 0x08
  · rw [if_pos hrub, if_pos hrub]
    exact h.back hgood (hback hrub)
  rw [if_neg hrub, if_neg hrub]
  split
  · exact h.cursor (fun _ _ => rfl) ⟨rfl, rfl⟩ hx hy
  · exact h

/-- `kcheck_scroll`, once the cursor is below the screen. -/
theorem kcheckScroll_shown (hy : c.curYPos > 24) (htop : c.conScrollOffset.toNat ≤ 24) {i j : Nat}
    (hi : i < 25) (hj : j < 80) : c.kcheckScroll.shown (i * 80 + j) =
      if i = 24 then 0
      else if c.conScrollOffset.toNat ≤ i then c.shown ((i + 1) * 80 + j)
      else c.shown (i * 80 + j) := by
  have haddress : videoram + 2 * (i * 80 + j) = videoram + i * xsize * 2 + 2 * j := by
    unfold xsize
    omega
  have hnext : videoram + i * xsize * 2 + 2 * j + xsize * 2 = videoram + 2 * ((i + 1) * 80 + j) := by
    unfold xsize
    omega
  have hcell : 2 * j < xsize * 2 := by
    unfold xsize
    omega
  unfold shown
  rw [kcheckScroll_mem hy htop, haddress]
  simp only [row_inRows hcell, hnext]
  by_cases hlast : i = 24
  · rw [if_pos (by omega), if_pos hlast]
  · rw [if_neg (by omega), if_neg hlast]
    have hin : (c.conScrollOffset.toNat ≤ i ∧ i < 24) ↔ c.conScrollOffset.toNat ≤ i := by omega
    simp only [hin]
    split
    · rfl
    · rfl

/-- The window follows the cursor. -/
theorem Sees.kcheckScroll (h : Sees c p) {keep : Nat} (hkeep : c.conScrollOffset.toNat = keep)
    (htop : keep ≤ 2) : Sees c.kcheckScroll (p.follow 24 keep) := by
  have hy := h.y
  have hbelow : c.curYPos > 24 ↔ 24 < p.line := by
    rw [gt_iff_lt, UInt16.lt_iff_toNat_lt, hy]
    rfl
  by_cases hscroll : c.curYPos > 24
  · obtain ⟨hx', hy', -⟩ := kcheckScroll_cursor hscroll
    have hrolled : p.follow 24 keep = { p.roll keep with line := 24 } :=
      if_pos (hbelow.mp hscroll)
    have hgood := h.good.roll (show keep ≤ 24 by omega)
    rw [hrolled]
    refine ⟨⟨hgood.order, hgood.below⟩, hx'.symm ▸ h.x, hy' ▸ rfl, fun i hi j hj => ?_⟩
    rw [kcheckScroll_shown hscroll (by omega) hi hj, hkeep]
    refine Eq.trans ?_ (h.good.seen_roll (show keep ≤ 24 by omega) (Nat.le_of_lt_succ hi) j).symm
    split
    · rfl
    · split
      · exact h.shown (i + 1) (by omega) j hj
      · exact h.shown i hi j hj
  · rw [Console.kcheckScroll, if_neg hscroll, Paper.follow, if_neg (mt hbelow.mpr hscroll)]
    exact h

theorem Sees.kputchar (h : Sees c p) (hgood : c.Good) {input : UInt8}
    (hfits : c.Fits (.kputchar input)) :
    Sees (c.kputchar input) ((onPaper p input).follow 24 c.conScrollOffset.toNat) := by
  have htop : c.conScrollOffset.toNat ≤ 2 := UInt16.le_iff_toNat_le.mp hgood.top
  have hput := h.put hgood.toOnScreen hfits
  have hmoved : Sees (c.put input).moveCursor (onPaper p input) :=
    hput.cursor (fun _ _ => rfl) ⟨rfl, rfl⟩ hput.x hput.y
  exact hmoved.kcheckScroll (congrArg UInt16.toNat (put_offset c input)) htop

end Byte

theorem cls_sees (c : Console) : Sees c.cls (.fresh 0) := by
  have htyped := cls_typed c []
  refine ⟨Paper.fresh_good 24 0, rfl, rfl, fun i hi j hj => ?_⟩
  exact htyped.blank _ (by omega) fun k hk => absurd hk (Nat.not_lt_zero k)

/-! ### Runs -/

/-- The console and the paper beside it are what they should be. -/
structure BesideInv (s : Beside) : Prop where
  good : s.console.Good
  sees : Sees s.console s.paper
  keep : s.console.conScrollOffset.toNat = s.keep

theorem BesideInv.step {s s' : Beside} {op : ConsoleOp} (h : BesideInv s)
    (hstep : besideStep s op = some s') (hfits : s.console.Fits op) : BesideInv s' := by
  cases op with
  | kputchar input =>
      obtain rfl := Option.some.inj hstep
      have hgood : (s.console.kputchar input).Good := h.good.step rfl hfits
      have htop : (s.console.put input).moveCursor.conScrollOffset ≤ 2 :=
        (put_offset s.console input).symm ▸ h.good.top
      refine ⟨hgood, h.keep ▸ h.sees.kputchar h.good hfits, ?_⟩
      rw [← h.keep, ← put_offset s.console input]
      exact congrArg UInt16.toNat (kcheckScroll_spec htop).2.2.1
  | keepTop on =>
      obtain rfl := Option.some.inj hstep
      refine ⟨h.good.step rfl hfits, h.sees.cursor (fun _ _ => rfl) ⟨rfl, rfl⟩ h.sees.x h.sees.y, ?_⟩
      cases on <;> rfl

theorem beside_start (mem : Memory) : BesideInv (.start mem) :=
  ⟨cls_good mem, cls_sees _, rfl⟩

/--
**The console is a window on the paper in just the runs that stay on the screen.**  For every
sequence of bytes, with `con_scroll_offset` set by `kmain` in between or not.
-/
theorem console_is_window_iff (mem : Memory) (ops : List ConsoleOp) :
    Always besideStep (fun s => s.console.OnScreen ∧ Sees s.console s.paper) (.start mem) ops ↔
      EveryStep besideStep (fun s op _ => s.console.Fits op) (.start mem) ops := by
  refine always_iff (fun s h => ⟨h.good.toOnScreen, h.sees⟩)
    (fun s op s' h hstep hfits => h.step hstep hfits) (fun s op s' h hstep hseen => ?_)
    (beside_start mem)
  obtain ⟨c, hc, rfl⟩ := Option.map_eq_some_iff.mp hstep
  cases op with
  | kputchar input => exact fits_of_onScreen h.good hc hseen.1
  | keepTop on => exact trivial

/-! ### Lines -/

/-- The lines, each with its end. -/
def ended (lines : List (List UInt8)) : List UInt8 := (lines.map (· ++ [0x0a])).flatten

/-- The paper after some lines, and the start of the next one. -/
structure Lined (lines : List (List UInt8)) (rest : List UInt8) (p : Paper UInt8) : Prop where
  rows : ∀ i, p.rows i = i + (lines.length - 24)
  line : p.line = min lines.length 24
  col : p.col = rest.length
  text : ∀ row j, p.text row j = ((lines ++ [rest])[row]?.getD []).getD j 0

section Lines

variable {lines : List (List UInt8)} {rest : List UInt8} {p : Paper UInt8} {c : Console}

theorem Lined.row (h : Lined lines rest p) : p.rows p.line = lines.length := by
  rw [h.rows, h.line]
  omega

theorem Lined.fresh : Lined [] [] (.fresh 0) := by
  refine ⟨fun _ => rfl, rfl, rfl, fun row j => ?_⟩
  cases row with
  | zero => rfl
  | succ row => rfl

/-- A character in the line. -/
theorem Lined.print (h : Lined lines rest p) {input : UInt8} (hprint : Printable input)
    (hlength : rest.length < 79) : Lined lines (rest ++ [input]) ((onPaper p input).follow 24 0) := by
  have hcol : p.col < 80 := by
    rw [h.col]
    omega
  have hstays : ¬ 24 < p.line := by
    rw [h.line]
    omega
  have hput : (onPaper p input).follow 24 0 = { p.write p.line p.col input with col := p.col + 1 } := by
    rw [onPaper, if_pos hprint, if_pos hcol]
    exact if_neg hstays
  rw [hput]
  refine ⟨h.rows, h.line, ?_, fun row j => ?_⟩
  · rw [List.length_append, List.length_singleton]
    exact congrArg (· + 1) h.col
  · show Function.update p.text (p.rows p.line) (Function.update (p.text (p.rows p.line)) p.col input)
      row j = _
    rw [h.row, h.col]
    by_cases hrow : row = lines.length
    · subst hrow
      rw [Function.update_self, List.getElem?_concat_length, Option.getD_some]
      by_cases hj : j = rest.length
      · subst hj
        rw [Function.update_self, List.getD_eq_getElem?_getD, List.getElem?_concat_length,
          Option.getD_some]
      · rw [Function.update_of_ne hj, h.text, List.getElem?_concat_length, Option.getD_some,
          List.getD_eq_getElem?_getD, List.getD_eq_getElem?_getD, List.getElem?_append]
        split
        · rfl
        · next hge =>
            have hgt : rest.length < j := by omega
            rw [List.getElem?_eq_none (by omega), List.getElem?_eq_none (by simp; omega)]
    · rw [Function.update_of_ne hrow, h.text, List.getElem?_append, List.getElem?_append]
      split
      · rfl
      · have hgt : lines.length < row := by omega
        rw [List.getElem?_eq_none (by simp; omega), List.getElem?_eq_none (by simp; omega)]

/-- The end of the line. -/
theorem Lined.newline (h : Lined lines rest p) :
    Lined (lines ++ [rest]) [] ((onPaper p 0x0a).follow 24 0) := by
  have hdown : onPaper p 0x0a = p.down := by
    rw [onPaper, if_neg (by decide), if_pos rfl]
  have htext : ∀ row j, p.text row j = ((lines ++ [rest] ++ [[]])[row]?.getD []).getD j 0 := by
    intro row j
    have hsplit : (lines ++ [rest] ++ [[]])[row]? = if row < (lines ++ [rest]).length then
        (lines ++ [rest])[row]? else [([] : List UInt8)][row - (lines ++ [rest]).length]? :=
      List.getElem?_append
    rw [h.text, hsplit]
    split
    · rfl
    · rw [List.getElem?_eq_none (by omega)]
      cases hk : row - (lines ++ [rest]).length <;> simp
  have hline := h.line
  rw [hdown, Paper.follow]
  by_cases hscroll : 24 < p.line + 1
  · rw [if_pos (show 24 < p.down.line from hscroll)]
    refine ⟨fun i => ?_, ?_, rfl, htext⟩
    · show (if i < 0 then p.rows i else p.rows (i + 1)) = _
      rw [if_neg (Nat.not_lt_zero i), h.rows, List.length_append, List.length_singleton]
      omega
    · show 24 = _
      rw [List.length_append, List.length_singleton]
      omega
  · rw [if_neg (show ¬ 24 < p.down.line from hscroll)]
    refine ⟨fun i => ?_, ?_, rfl, htext⟩
    · show p.rows i = _
      rw [h.rows, List.length_append, List.length_singleton]
      omega
    · show p.line + 1 = _
      rw [List.length_append, List.length_singleton]
      omega

/-- The console after these lines. -/
structure Printed (lines : List (List UInt8)) (rest : List UInt8) (c : Console) : Prop where
  good : c.Good
  top : c.conScrollOffset = 0
  paper : ∃ p, Sees c p ∧ Lined lines rest p

theorem kputchar_offset (h : c.Good) (input : UInt8) :
    (c.kputchar input).conScrollOffset = c.conScrollOffset := by
  have htop : (c.put input).moveCursor.conScrollOffset ≤ 2 := (put_offset c input).symm ▸ h.top
  exact (kcheckScroll_spec htop).2.2.1.trans (put_offset c input)

theorem Printed.print (h : Printed lines rest c) {input : UInt8} (hprint : Printable input)
    (hlength : rest.length < 79) : Printed lines (rest ++ [input]) (c.kputchar input) := by
  obtain ⟨p, hsees, hlined⟩ := h.paper
  have hfits : c.Fits (.kputchar input) := by
    refine ⟨fun _ _ => ?_, fun htab => absurd htab hprint.ne.1, fun hback => absurd hback hprint.ne.2⟩
    rw [UInt16.lt_iff_toNat_lt, hsees.x, hlined.col]
    exact hlength
  refine ⟨h.good.step rfl hfits, (kputchar_offset h.good input).trans h.top, _,
    hsees.kputchar h.good hfits, ?_⟩
  rw [h.top]
  exact hlined.print hprint hlength

theorem Printed.newline (h : Printed lines rest c) :
    Printed (lines ++ [rest]) [] (c.kputchar 0x0a) := by
  obtain ⟨p, hsees, hlined⟩ := h.paper
  have hfits : c.Fits (.kputchar 0x0a) :=
    ⟨fun hprint => absurd hprint (by decide), nofun, nofun⟩
  refine ⟨h.good.step rfl hfits, (kputchar_offset h.good _).trans h.top, _,
    hsees.kputchar h.good hfits, ?_⟩
  rw [h.top]
  exact hlined.newline

theorem Printed.line : ∀ {more rest : List UInt8} {c : Console}, Printed lines rest c →
    (∀ b ∈ more, Printable b) → rest.length + more.length ≤ 79 →
      Printed lines (rest ++ more) (more.foldl Console.kputchar c) := by
  intro more
  induction more with
  | nil =>
      intro rest c h _ _
      rw [List.append_nil]
      exact h
  | cons b more ih =>
      intro rest c h hprint hlength
      rw [List.length_cons] at hlength
      have hnext := h.print (hprint b List.mem_cons_self) (by omega)
      rw [List.append_cons, List.foldl_cons]
      refine ih hnext (fun x hx => hprint x (List.mem_cons_of_mem b hx)) ?_
      rw [List.length_append, List.length_singleton]
      omega

theorem Printed.all : ∀ {more lines : List (List UInt8)} {c : Console}, Printed lines [] c →
    (∀ line ∈ more, (∀ b ∈ line, Printable b) ∧ line.length ≤ 79) →
      Printed (lines ++ more) [] ((ended more).foldl Console.kputchar c) := by
  intro more
  induction more with
  | nil =>
      intro lines c h _
      rw [List.append_nil]
      exact h
  | cons line more ih =>
      intro lines c h hlines
      obtain ⟨hprint, hlength⟩ := hlines line List.mem_cons_self
      have hline := h.line hprint (by rw [List.length_nil]; omega)
      have hend : ended (line :: more) = line ++ [0x0a] ++ ended more := rfl
      rw [hend, List.foldl_append, List.foldl_append, List.append_cons]
      exact ih hline.newline fun l hl => hlines l (List.mem_cons_of_mem line hl)

end Lines

/--
**The screen shows the last lines.**  After `cls` and any number of lines of up to 79 characters,
each with its end, the console has stayed on the screen, and this shows the last 24 of them (all
of them, if there are no more) and the line of the cursor, with blanks behind each.
-/
theorem last_lines_shown (mem : Memory) (lines : List (List UInt8))
    (hlines : ∀ line ∈ lines, (∀ b ∈ line, Printable b) ∧ line.length ≤ 79) :
    ((ended lines).foldl kputchar (boot mem).cls).OnScreen ∧
      ∀ i < 25, ∀ j < 80, ((ended lines).foldl kputchar (boot mem).cls).shown (i * 80 + j) =
        (lines[i + (lines.length - 24)]?.getD []).getD j 0 := by
  have hstart : Printed [] [] (boot mem).cls :=
    ⟨cls_good mem, rfl, _, cls_sees _, Lined.fresh⟩
  have hprinted : Printed lines [] _ := hstart.all hlines
  obtain ⟨p, hsees, hlined⟩ := hprinted.paper
  refine ⟨hprinted.good.toOnScreen, fun i hi j hj => ?_⟩
  rw [hsees.shown i hi j hj, Paper.seen, hlined.rows, hlined.text, List.getElem?_append]
  split
  · rfl
  · rw [List.getElem?_eq_none (show lines.length ≤ i + (lines.length - 24) by omega)]
    cases hk : i + (lines.length - 24) - lines.length <;> simp

/-- Thirty lines of one letter. -/
theorem last_lines_shown_thirty :
    ((ended (List.replicate 30 [97])).foldl kputchar (boot fun _ => 0).cls).OnScreen ∧
      ∀ i < 25, ∀ j < 80,
        ((ended (List.replicate 30 [97])).foldl kputchar (boot fun _ => 0).cls).shown (i * 80 + j) =
          ((List.replicate 30 [97])[i + ((List.replicate 30 [(97 : UInt8)]).length - 24)]?.getD []).getD
            j 0 :=
  last_lines_shown (fun _ => 0) (List.replicate 30 [97]) (by
    intro line hline
    rw [List.eq_of_mem_replicate hline]
    exact ⟨List.forall_mem_singleton.mpr (by decide), by decide⟩)

end OsThing.Drivers
