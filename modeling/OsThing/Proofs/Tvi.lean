/-
Where the editor starts to draw.

The lines of a file begin at its front and behind each `'\n'`.  `load_file` keeps the second
kind only: entry `n` of `linebuf` is where line `n + 1` begins, and there are as many entries
as there are `'\n'`.  `blit` looks at entry `pos_y` for line `pos_y`.  So the first line of a
file is never on the screen, every other one is shown a line too early, and from the last one
on an entry is looked at that nothing was stored in.  That is when `blit` has no result; above
the last line it draws what stands from that entry on.
-/
import OsThing.Lib.Runs
import OsThing.Proofs.Numbers
import OsThing.User.Tvi
import Mathlib.Data.List.Basic

namespace OsThing.Tvi

/-- The offsets at which the lines of a file begin. -/
def lineStarts (data : List UInt8) : List Nat := 0 :: data.idxsOf 10 1

/-- A screen that shows a file from line `pos_y` on. -/
structure ScrollsByLines (b : Fbuf) (s : Screen) : Prop where
  inFile : 0 ≤ s.posY.toInt ∧ s.posY.toInt ≤ b.data.count 10
  initialised : (blitStart s b).isSome
  atLine : blitStart s b = (lineStarts b.data)[s.posY.toInt.toNat]?

/-! ### The table -/

theorem countLines_eq : ∀ (data : List UInt8) (lines : Nat),
    countLines data lines = lines + data.count 10 := by
  intro data
  induction data with
  | nil => intro lines; rfl
  | cons c rest ih =>
      intro lines
      rw [countLines, ih, List.count_cons]
      by_cases hc : c = 10
      · simp only [hc, if_true, beq_self_eq_true]
        omega
      · simp [hc]

/-- The loop has stored `j` entries, and stores one for each `'\n'` that is left. -/
theorem fillLinebuf_apply {lines : Nat} : ∀ {rest : List UInt8} {i j : Nat}
    {linebuf : Nat → Option Nat}, lines = j + rest.count 10 → (∀ n, j ≤ n → linebuf n = none) →
      ∀ n, fillLinebuf lines rest i j linebuf n =
        if n < j then linebuf n else (rest.idxsOf 10 (i + 1))[n - j]? := by
  intro rest
  induction rest with
  | nil =>
      intro i j linebuf _ hnone n
      by_cases hn : n < j
      · rw [if_pos hn, fillLinebuf]
      · rw [if_neg hn, fillLinebuf, hnone n (Nat.le_of_not_lt hn)]
        rfl
  | cons c rest ih =>
      intro i j linebuf hlines hnone n
      rw [fillLinebuf]
      by_cases hc : c = 10
      · subst hc
        rw [List.count_cons_self] at hlines
        rw [if_pos (by omega), if_pos rfl, List.idxsOf_cons,
          if_pos (beq_self_eq_true (10 : UInt8))]
        rw [ih (by omega) fun m hm => ?_]
        · rcases Nat.lt_trichotomy n j with hn | rfl | hn
          · rw [if_pos hn, if_pos (by omega), Function.update_of_ne (by omega)]
          · rw [if_neg (lt_irrefl n), if_pos (by omega), Function.update_self, Nat.sub_self]
            rfl
          · rw [if_neg (by omega), if_neg (by omega), show n - j = n - (j + 1) + 1 by omega]
            rfl
        · rw [Function.update_of_ne (by omega), hnone m (by omega)]
      · rw [List.count_cons_of_ne hc] at hlines
        have hskip : (c :: rest).idxsOf 10 (i + 1) = rest.idxsOf 10 (i + 1 + 1) := by
          rw [List.idxsOf_cons, if_neg (by simpa using hc)]
        rw [if_neg hc, hskip]
        by_cases hj : j < lines
        · rw [if_pos hj, ih hlines hnone]
        · -- No `'\n'` is left, and the loop ends here.
          have hrest : rest.idxsOf 10 (i + 1 + 1) = [] :=
            List.eq_nil_of_length_eq_zero (by rw [List.length_idxsOf]; omega)
          rw [if_neg hj, hrest]
          by_cases hn : n < j
          · rw [if_pos hn]
          · rw [if_neg hn, hnone n (Nat.le_of_not_lt hn)]
            rfl

variable (name : List UInt8) (content : Content)

theorem loadFile_lines : (loadFile name content).lines = content.val.count 10 := by
  show countLines content.val 0 = _
  rw [countLines_eq, Nat.zero_add]

/-- Entry `n` is where line `n + 1` begins. -/
theorem linebuf_eq (n : Nat) :
    (loadFile name content).linebuf n = (lineStarts content.val)[n + 1]? := by
  show fillLinebuf (countLines content.val 0) content.val 0 0 (fun _ => none) n = _
  rw [fillLinebuf_apply (by rw [countLines_eq]) fun _ _ => rfl]
  rfl

theorem length_lineStarts (data : List UInt8) : (lineStarts data).length = data.count 10 + 1 := by
  rw [lineStarts, List.length_cons, List.length_idxsOf]

theorem lineStarts_lt (data : List UInt8) : (lineStarts data).Pairwise (· < ·) := by
  rw [lineStarts, List.pairwise_cons]
  exact ⟨fun start hstart => List.ge_of_mem_idxsOf start hstart, List.pairwise_idxsOf⟩

/-! ### The start of the screen -/

/-- Above the last line the screen starts a line too late. -/
theorem blitStart_of_lt (s : Screen) {n : Nat} (hpos : s.posY.toInt = n)
    (hn : n < content.val.count 10) :
    blitStart s (loadFile name content) = (lineStarts content.val)[n + 1]? := by
  rw [blitStart, loadFile_lines, hpos, if_pos (by exact_mod_cast hn), Fbuf.linebufAt,
    if_neg (by omega), Int.toNat_natCast, linebuf_eq]

/-- From the last line on it starts at something that nothing was stored in. -/
theorem blitStart_of_le (s : Screen) (hpos : (content.val.count 10 : Int) ≤ s.posY.toInt) :
    blitStart s (loadFile name content) = none := by
  rw [blitStart, loadFile_lines, if_neg (by omega), Fbuf.linebufAt, if_neg (by omega),
    Int.toNat_natCast, linebuf_eq, List.getElem?_eq_none (by rw [length_lineStarts])]

theorem not_scrollsByLines (s : Screen) : ¬ ScrollsByLines (loadFile name content) s := by
  intro h
  obtain ⟨n, hn⟩ := Int.eq_ofNat_of_zero_le h.inFile.1
  have hle : n ≤ content.val.count 10 := by
    have hlines : s.posY.toInt ≤ content.val.count 10 := h.inFile.2
    omega
  rcases Nat.lt_or_eq_of_le hle with hlt | rfl
  · have hstart := blitStart_of_lt name content s hn hlt
    have hline : blitStart s (loadFile name content) = (lineStarts content.val)[n]? := by
      rw [h.atLine, hn]
      rfl
    have hlength := length_lineStarts content.val
    rw [hline, List.getElem?_eq_getElem (by omega), List.getElem?_eq_getElem (by omega)] at hstart
    have hbefore := List.pairwise_iff_getElem.mp (lineStarts_lt content.val) n (n + 1) (by omega)
      (by omega) (Nat.lt_succ_self n)
    exact absurd (Option.some.inj hstart) (Nat.ne_of_lt hbefore)
  · have hnone := blitStart_of_le name content s (Int.le_of_eq hn.symm)
    exact absurd h.initialised (by rw [hnone]; exact Bool.false_ne_true)

/--
**A screen starts a line late, or at no line at all.**  Whatever is in the file and whatever is
typed, the screen is never drawn from line `pos_y` on: not before the first key and not after any
of them.
-/
theorem blit_late (keys : List UInt8) :
    Runs.Always (mainStep (loadFile name content))
      (fun s => ¬ ScrollsByLines (loadFile name content) s) (initScreen UserStdio.stdout) keys :=
  Runs.always_of_inv (fun _ _ s' _ _ _ => not_scrollsByLines name content s')
    (not_scrollsByLines name content _) (Runs.everyStep_true _)

/-- The keys that move the screen. -/
def moves : List UInt8 := ['j'.toUInt8, 'k'.toUInt8, 'g'.toUInt8, 'G'.toUInt8]

/-- Two lines, `a` and `b`. -/
def twoLines : Content := ⟨[97, 10, 98, 10], by decide⟩

/-- **Of two lines the second one is drawn first.** -/
theorem first_line_hidden :
    blitStart (initScreen UserStdio.stdout) (loadFile [102] twoLines) = some 2 ∧
      (lineStarts twoLines.val)[0]? = some 0 ∧
      ¬ ∀ (name : List UInt8) (content : Content) (keys : List UInt8), (∀ c ∈ keys, c ∈ moves) →
        Runs.Always (mainStep (loadFile name content))
          (fun s => ScrollsByLines (loadFile name content) s) (initScreen UserStdio.stdout) keys := by
  refine ⟨by decide, by decide, fun h => ?_⟩
  have hstart := (h [102] twoLines [] fun _ hc => absurd hc List.not_mem_nil).here.atLine
  exact absurd hstart (by decide)

/-! ### What is drawn -/

open Stdio (Call decimalLetter)
open UserStdio (printNum)

variable {name} {content}

theorem printNum_isSome (n : UInt32) : (printNum n).isSome := by
  rw [printNum, Stdio.printDigits_eq decimalLetter (by decide) (by decide)]
  rfl

theorem statusLine_isSome (s : Screen) (b : Fbuf) : (statusLine s b).isSome := by
  obtain ⟨lines, hlines⟩ := Option.isSome_iff_exists.mp (printNum_isSome (UInt32.ofNat b.lines))
  obtain ⟨curX, hcurX⟩ := Option.isSome_iff_exists.mp (printNum_isSome s.curX.toUInt32)
  obtain ⟨curY, hcurY⟩ := Option.isSome_iff_exists.mp (printNum_isSome s.curY.toUInt32)
  obtain ⟨posY, hposY⟩ := Option.isSome_iff_exists.mp (printNum_isSome s.posY.toUInt32)
  simp only [statusLine, hlines, hcurX, hcurY, hposY, Option.bind_some, Option.map_some,
    Option.isSome_some]

/-- A screen is drawn just if `blit` finds where to start. -/
theorem blit_isSome_iff (s : Screen) (b : Fbuf) : (blit s b).isSome ↔ (blitStart s b).isSome := by
  obtain ⟨status, hstatus⟩ := Option.isSome_iff_exists.mp (statusLine_isSome s b)
  unfold blit
  rw [hstatus]
  cases blitStart s b <;> rfl

/-- **When a screen is drawn from an entry that was stored**: from the first line on, down to the
one above the last. -/
theorem blit_isSome_loadFile_iff (s : Screen) :
    (blit s (loadFile name content)).isSome ↔
      0 ≤ s.posY.toInt ∧ s.posY.toInt < content.val.count 10 := by
  rw [blit_isSome_iff]
  rcases Int.lt_or_le s.posY.toInt 0 with hneg | hpos
  · have hnone : blitStart s (loadFile name content) = none := by
      rw [blitStart, loadFile_lines, if_pos (by omega), Fbuf.linebufAt, if_pos hneg]
    simp [hnone, hneg]
  · obtain ⟨n, hn⟩ := Int.eq_ofNat_of_zero_le hpos
    rcases Nat.lt_or_ge n (content.val.count 10) with hlt | hge
    · rw [blitStart_of_lt name content s hn hlt, List.getElem?_eq_getElem (by
        rw [length_lineStarts]; omega)]
      exact iff_of_true rfl ⟨hpos, by omega⟩
    · rw [blitStart_of_le name content s (by omega)]
      exact iff_of_false Bool.false_ne_true fun h => by omega

/-- Bytes, one call for each. -/
def puts (fd : Int) (bytes : List UInt8) : List Call := bytes.flatMap (putc · fd)

/-- A line without tabs that is shorter than a row. -/
structure Plain (width : Nat) (line : List UInt8) : Prop where
  noTab : 9 ∉ line
  noEnd : 10 ∉ line
  short : line.length < width

/-- Lines, each with its end. -/
def joined (lines : List (List UInt8)) : List UInt8 := lines.flatMap (· ++ [10])

theorem joined_cons (line : List UInt8) (lines : List (List UInt8)) :
    joined (line :: lines) = line ++ 10 :: joined lines := by
  simp [joined]

/-- What so many rows show of the lines that are left: a `~` where the file ends, and in each row
below. -/
def shownRows : Nat → List (List UInt8) → List UInt8
  | 0, _ => []
  | left + 1, [] => 10 :: 126 :: shownRows left []
  | left + 1, line :: rest =>
      line ++ (10 :: if rest = [] then 126 :: shownRows left rest else shownRows left rest)

example : shownRows 3 [[97], [98]] = [97, 10, 98, 10, 126, 10, 126] := by decide

section Rows

variable {s : Screen} {b : Fbuf}

theorem getD_of_drop {data rest : List UInt8} {j : Nat} {c : UInt8}
    (h : data.drop j = c :: rest) : data.getD j 0 = c ∧ j < data.length ∧
      data.drop (j + 1) = rest := by
  have hlt : j < data.length := by
    by_contra hge
    rw [List.drop_of_length_le (Nat.le_of_not_lt hge)] at h
    cases h
  rw [List.drop_eq_getElem_cons hlt] at h
  obtain ⟨hc, hrest⟩ := List.cons.inj h
  refine ⟨?_, hlt, hrest⟩
  rw [List.getD_eq_getElem?_getD, List.getElem?_eq_getElem hlt, hc]
  rfl

/-- The loop over a row draws the rest of a plain line, and stops behind its end. -/
theorem rowLoop_line (hsize : b.size = b.data.length) {rest : List UInt8} :
    ∀ {line : List UInt8} {fuel : Nat} {r : Row}, b.data.drop r.j = line ++ 10 :: rest →
      9 ∉ line → 10 ∉ line → line.length < fuel → (r.j + line.length : Int) < r.t →
        rowLoop s b fuel r =
          { r with j := r.j + line.length + 1, out := r.out ++ puts s.fd line } := by
  intro line
  induction line with
  | nil =>
      intro fuel r hdata _ _ hfuel hroom
      obtain ⟨fuel, rfl⟩ := Nat.exists_eq_succ_of_ne_zero (Nat.ne_of_gt hfuel)
      obtain ⟨hc, hlt, -⟩ := getD_of_drop hdata
      have hroom : (r.j : Int) < r.t := by simpa using hroom
      rw [rowLoop, if_pos ⟨hroom, hsize ▸ hlt⟩]
      dsimp only
      rw [hc, if_pos (by decide)]
      simp [puts]
  | cons c line ih =>
      intro fuel r hdata htab hend hfuel hroom
      obtain ⟨fuel, rfl⟩ := Nat.exists_eq_succ_of_ne_zero (Nat.ne_of_gt (Nat.zero_lt_of_lt hfuel))
      obtain ⟨hc, hlt, hrest⟩ := getD_of_drop hdata
      have hroom : (r.j : Int) + (line.length + 1) < r.t := by simpa using hroom
      have hctab : c ≠ '\t'.toUInt8 := fun h => htab (h ▸ List.mem_cons_self)
      have hcend : c ≠ '\n'.toUInt8 := fun h => hend (h ▸ List.mem_cons_self)
      have hlast : ((r.j : Int) == r.t - 1) = false := by
        rw [beq_eq_false_iff_ne]
        omega
      rw [rowLoop, if_pos ⟨by omega, hsize ▸ hlt⟩]
      dsimp only
      rw [hc, if_neg hcend, drawByte, if_neg hctab]
      dsimp only
      rw [hlast, Bool.or_false, ih hrest (fun h => htab (List.mem_cons_of_mem c h))
        (fun h => hend (List.mem_cons_of_mem c h)) (Nat.lt_of_succ_lt_succ hfuel)
        (by dsimp only; omega)]
      simp [puts, Nat.add_assoc, Nat.add_comm 1]

/-- A row that shows a plain line. -/
theorem drawRow_line (hsize : b.size = b.data.length) {line rest : List UInt8} {j : Nat}
    (hdata : b.data.drop j = line ++ 10 :: rest) (hplain : Plain s.screenX line) :
    drawRow s b j = (j + line.length + 1,
      puts s.fd (line ++ (10 :: if rest = [] then [126] else []))) := by
  have hlength : b.size = j + (line.length + (rest.length + 1)) := by
    have hj : j ≤ b.data.length := by
      by_contra hgt
      rw [List.drop_of_length_le (Nat.le_of_lt (Nat.lt_of_not_le hgt))] at hdata
      exact absurd hdata.symm (by simp)
    have hdrop := congrArg List.length hdata
    simp only [List.length_drop, List.length_append, List.length_cons] at hdrop
    omega
  have hroom := hplain.short
  unfold drawRow
  rw [rowLoop_line hsize hdata hplain.noTab hplain.noEnd (by omega) (by dsimp only; omega)]
  have hend : j + line.length + 1 = b.size ↔ rest = [] := by
    rw [hlength, ← List.length_eq_zero_iff]
    omega
  by_cases hrest : rest = []
  · simp [hend.mpr hrest, hrest, puts]
    rfl
  · simp [mt hend.mp hrest, hrest, puts]
    rfl

/-- A row behind the end of the file. -/
theorem drawRow_end : drawRow s b b.size = (b.size, puts s.fd [10, 126]) := by
  have hloop : rowLoop s b b.size ⟨b.size, b.size + s.screenX, false, []⟩ =
      ⟨b.size, b.size + s.screenX, false, []⟩ := by
    cases hsize : b.size with
    | zero => rfl
    | succ n => rw [rowLoop, if_neg fun h => Nat.lt_irrefl _ (hsize ▸ h.2)]
  unfold drawRow
  rw [hloop]
  simp [puts]
  rfl

theorem joined_eq_nil {lines : List (List UInt8)} : joined lines = [] ↔ lines = [] := by
  cases lines with
  | nil => exact iff_of_true rfl rfl
  | cons line rest => simp [joined_cons]

theorem drawRows_shown (hsize : b.size = b.data.length) :
    ∀ (left : Nat) {lines : List (List UInt8)} {j : Nat}, b.data.drop j = joined lines →
      j ≤ b.size → (∀ line ∈ lines, Plain s.screenX line) →
        drawRows s b left j = puts s.fd (shownRows left lines) := by
  intro left
  induction left with
  | zero => intro lines j _ _ _; rfl
  | succ left ih =>
      intro lines j hdata hj hplain
      rw [drawRows]
      cases lines with
      | nil =>
          have hend : j = b.size :=
            Nat.le_antisymm hj (hsize ▸ List.drop_eq_nil_iff.mp hdata)
          rw [hend, drawRow_end]
          dsimp only
          rw [ih (hend ▸ hdata) (Nat.le_refl _) hplain]
          rfl
      | cons line rest =>
          rw [joined_cons] at hdata
          have hrest : b.data.drop (j + line.length + 1) = joined rest := by
            rw [Nat.add_assoc, ← List.drop_drop, hdata, ← List.drop_drop, List.drop_left]
            rfl
          have hj' : j + line.length + 1 ≤ b.size := by
            have hlength := congrArg List.length hdata
            simp only [List.length_drop, List.length_append, List.length_cons] at hlength
            omega
          rw [drawRow_line hsize hdata (hplain line List.mem_cons_self)]
          dsimp only
          rw [ih hrest hj' fun l hl => hplain l (List.mem_cons_of_mem line hl), shownRows]
          by_cases hnone : rest = []
          · have hend : joined rest = [] := joined_eq_nil.mpr hnone
            rw [hend]
            simp [hnone, puts]
          · simp [mt joined_eq_nil.mp hnone, hnone, puts]

end Rows

/-- The next `'\n'` is the one behind the line. -/
theorem idxsOf_line {line rest : List UInt8} (hend : 10 ∉ line) :
    ∀ i, (line ++ 10 :: rest).idxsOf 10 i =
      (i + line.length) :: rest.idxsOf 10 (i + line.length + 1) := by
  induction line with
  | nil =>
      intro i
      rw [List.nil_append, List.idxsOf_cons, if_pos (beq_self_eq_true (10 : UInt8))]
      rfl
  | cons c line ih =>
      intro i
      have hc : c ≠ 10 := fun h => hend (h ▸ List.mem_cons_self)
      rw [List.cons_append, List.idxsOf_cons, if_neg (by simpa using hc),
        ih fun h => hend (List.mem_cons_of_mem c h)]
      simp [Nat.add_assoc, Nat.add_comm 1]

/-- A line begins behind all lines before it. -/
theorem starts_joined : ∀ {lines : List (List UInt8)}, (∀ line ∈ lines, 10 ∉ line) →
    ∀ (start : Nat) {n : Nat}, n ≤ lines.length →
      (start :: (joined lines).idxsOf 10 (start + 1))[n]? =
        some (start + (joined (lines.take n)).length) := by
  intro lines
  induction lines with
  | nil =>
      intro _ start n hn
      obtain rfl := Nat.le_zero.mp hn
      rfl
  | cons line rest ih =>
      intro hends start n hn
      cases n with
      | zero => rfl
      | succ n =>
          rw [List.getElem?_cons_succ, joined_cons, idxsOf_line (hends line List.mem_cons_self),
            show start + 1 + line.length = start + line.length + 1 by omega,
            ih (fun l hl => hends l (List.mem_cons_of_mem line hl)) _ (Nat.le_of_succ_le_succ hn),
            List.take_succ_cons, joined_cons]
          simp
          omega

/--
**What the screen shows**, of a file of lines that fit: with `pos_y` on a line, the rows begin
with the line behind it.
-/
theorem blit_shows {lines : List (List UInt8)} {s : Screen} {n : Nat}
    (hcontent : content.val = joined lines) (hplain : ∀ line ∈ lines, Plain s.screenX line)
    (hpos : s.posY.toInt = n) (hn : n < lines.length) :
    ∃ status, statusLine s (loadFile name content) = some status ∧
      blit s (loadFile name content) =
        some (puts s.fd (10 :: shownRows (s.screenY - 1) (lines.drop (n + 1))) ++ status) := by
  obtain ⟨status, hstatus⟩ :=
    Option.isSome_iff_exists.mp (statusLine_isSome s (loadFile name content))
  have hline : (lineStarts content.val)[n + 1]? =
      some (joined (lines.take (n + 1))).length := by
    have hstarts := starts_joined (fun line hl => (hplain line hl).noEnd) 0 hn
    rwa [Nat.zero_add, Nat.zero_add, ← hcontent] at hstarts
  have hcount : n < content.val.count 10 := by
    have hlt := (List.getElem?_eq_some_iff.mp hline).1
    rw [length_lineStarts] at hlt
    omega
  have hsplit : content.val = joined (lines.take (n + 1)) ++ joined (lines.drop (n + 1)) := by
    rw [hcontent, joined, joined, joined, ← List.flatMap_append, List.take_append_drop]
  have hdata : content.val.drop (joined (lines.take (n + 1))).length =
      joined (lines.drop (n + 1)) := by
    rw [hsplit, List.drop_left]
  have hle : (joined (lines.take (n + 1))).length ≤ content.val.length := by
    rw [hsplit, List.length_append]
    exact Nat.le_add_right ..
  refine ⟨status, hstatus, ?_⟩
  rw [blit, blitStart_of_lt name content s hpos hcount, hline, Option.bind_some, hstatus,
    Option.map_some, drawRows_shown (b := loadFile name content) rfl _ hdata hle fun line hl =>
      hplain line (List.mem_of_mem_drop hl)]
  rfl

end OsThing.Tvi
