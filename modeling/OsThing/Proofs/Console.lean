/-
When the console stays on the screen.

The cursor is kept on the screen by `kcheck_scroll`, which brings the line back, and by
the first branch of `kputchar`, which brings the column back.  Three kinds of byte get
past them: a character in the last two columns of the last line, for it colours the next
cell, which is below the screen; a tab in column 80; and a backspace in column 0.
The runs that stay on the screen are the runs without these.
-/
import OsThing.Drivers.Console
import OsThing.Lib.Runs

namespace OsThing.Drivers

open Bytes Runs

namespace Console

/-- Nothing outside of the video buffer has been written to. -/
def Inside (c : Console) : Prop := ∀ a ∈ c.written, videoram ≤ a ∧ a < videoram + videoSize

/-- The cursor is on the screen, or just behind a line, and all writes were inside. -/
structure OnScreen (c : Console) : Prop where
  x : c.curXPos ≤ 80
  y : c.curYPos ≤ 24
  inside : c.Inside

/-- What `kputchar` can do with the byte where the cursor is. -/
def Fits (c : Console) : ConsoleOp → Prop
  | .kputchar input =>
      (Printable input → c.curYPos = 24 → c.curXPos < 79) ∧
      (input = 0x09 → c.curXPos ≠ 80) ∧ (input = 0x08 → c.curXPos ≠ 0)
  | .keepTop _ => True

/-! ### Writes -/

theorem inside_cons {c c' : Console} {a : Nat} (h : c'.written = a :: c.written) :
    c'.Inside ↔ (videoram ≤ a ∧ a < videoram + videoSize) ∧ c.Inside := by
  unfold Inside
  rw [h]
  exact List.forall_mem_cons

/-- A write of several bytes that is inside. -/
theorem inside_range {c c' : Console} (offset size : Nat)
    (h : c'.written = (List.range size).map (videoram + offset + ·) ++ c.written)
    (hfits : offset + size ≤ videoSize) : c'.Inside ↔ c.Inside := by
  unfold Inside
  rw [h, List.forall_mem_append]
  refine and_iff_right fun a ha => ?_
  obtain ⟨i, hi, rfl⟩ := List.mem_map.mp ha
  have := List.mem_range.mp hi
  omega

theorem poke_inside {c : Console} {offset : Nat} {value : UInt8} (h : offset < 2 ^ 31) :
    (c.poke offset value).Inside ↔ offset < videoSize ∧ c.Inside := by
  rw [inside_cons (c := c) rfl]
  refine and_congr_left fun _ => ?_
  unfold address videoram videoSize
  omega

theorem clear_inside {c : Console} {offset size : Nat} (h : offset + size ≤ videoSize) :
    (c.clear offset size).Inside ↔ c.Inside := inside_range offset size rfl h

theorem copyLine_inside {c : Console} {i : Nat} (h : i < 25) : (c.copyLine i).Inside ↔ c.Inside :=
  inside_range (i * xsize * 2) (xsize * 2) rfl (by unfold xsize videoSize; omega)

theorem Inside.congr {c c' : Console} (h : c'.written = c.written) : c'.Inside ↔ c.Inside := by
  unfold Inside
  rw [h]

/-! ### Scrolling -/

theorem copyLines_spec (c : Console) (start : Nat) :
    ∀ n, start + n ≤ 24 →
      ((List.range n).foldl (fun c i => c.copyLine (start + i)) c).curXPos = c.curXPos ∧
      ((List.range n).foldl (fun c i => c.copyLine (start + i)) c).conScrollOffset =
        c.conScrollOffset ∧
      (((List.range n).foldl (fun c i => c.copyLine (start + i)) c).Inside ↔ c.Inside) := by
  intro n
  induction n with
  | zero => intro _; exact ⟨rfl, rfl, Iff.rfl⟩
  | succ n ih =>
      intro hn
      obtain ⟨hx, hoffset, hinside⟩ := ih (by omega)
      rw [List.range_succ, List.foldl_append]
      exact ⟨hx, hoffset, (copyLine_inside (by omega)).trans hinside⟩

/-- The line comes back onto the screen, and all that is written is. -/
theorem kcheckScroll_spec {c : Console} (htop : c.conScrollOffset ≤ 2) :
    c.kcheckScroll.curXPos = c.curXPos ∧ c.kcheckScroll.curYPos ≤ 24 ∧
      c.kcheckScroll.conScrollOffset = c.conScrollOffset ∧
      (c.kcheckScroll.Inside ↔ c.Inside) := by
  have htop : c.conScrollOffset.toNat ≤ 2 := UInt16.le_iff_toNat_le.mp htop
  unfold kcheckScroll
  split
  · obtain ⟨hx, hoffset, hinside⟩ :=
      copyLines_spec c c.conScrollOffset.toNat (24 - c.conScrollOffset.toNat) (by omega)
    refine ⟨hx, UInt16.le_refl _, hoffset, ?_⟩
    refine (clear_inside ?_).trans hinside
    rw [Nat.max_eq_right (by omega)]
    unfold xsize videoSize
    omega
  · exact ⟨rfl, UInt16.not_lt.mp ‹_›, rfl, Iff.rfl⟩

/-! ### One byte -/

variable {c : Console}

theorem OnScreen.pos_lt (h : c.OnScreen) : c.pos * 2 + 3 < 2 ^ 31 := by
  have hx : c.curXPos.toNat ≤ 80 := UInt16.le_iff_toNat_le.mp h.x
  have hy : c.curYPos.toNat ≤ 24 := UInt16.le_iff_toNat_le.mp h.y
  unfold pos xsize
  omega

/-- The cell after the one of the cursor is on the screen too. -/
theorem OnScreen.next_iff (h : c.OnScreen) :
    c.pos * 2 + 3 < videoSize ↔ (c.curYPos = 24 → c.curXPos < 79) := by
  have hx : c.curXPos.toNat ≤ 80 := UInt16.le_iff_toNat_le.mp h.x
  have hy : c.curYPos.toNat ≤ 24 := UInt16.le_iff_toNat_le.mp h.y
  rw [← UInt16.toNat_inj, UInt16.lt_iff_toNat_lt]
  simp only [UInt16.reduceToNat]
  unfold pos xsize videoSize
  omega

theorem draw_inside (h : c.OnScreen) (input : UInt8) :
    (c.draw input).Inside ↔ (c.curYPos = 24 → c.curXPos < 79) := by
  have hlt := h.pos_lt
  unfold draw
  rw [poke_inside hlt, poke_inside (by omega), poke_inside (by omega), ← h.next_iff]
  refine ⟨fun hin => hin.1, fun hin => ⟨hin, by omega, by omega, h.inside⟩⟩

theorem advance_inside : c.advance.Inside ↔ c.Inside := by
  unfold advance
  dsimp only
  split
  · exact Inside.congr rfl
  · exact Inside.congr rfl

/-- A character does not take the cursor off the screen. -/
theorem advance_x : c.advance.curXPos ≤ 80 := by
  unfold advance
  dsimp only
  split
  · exact UInt16.zero_le
  · exact UInt16.not_lt.mp ‹_›

/-- The cursor leaves the line to the right with a tab in its last column. -/
theorem tab_x (h : c.OnScreen) : c.curXPos + (8 - c.curXPos % 8) ≤ 80 ↔ c.curXPos ≠ 80 := by
  have hx : c.curXPos.toNat ≤ 80 := UInt16.le_iff_toNat_le.mp h.x
  rw [UInt16.le_iff_toNat_le, ne_eq, ← UInt16.toNat_inj, UInt16.toNat_add, UInt16.toNat_sub,
    UInt16.toNat_mod]
  simp only [UInt16.reduceToNat]
  omega

/-- And around to the right with a backspace in its first one. -/
theorem back_x (h : c.OnScreen) : c.back.curXPos ≤ 80 ↔ c.curXPos ≠ 0 := by
  have hx : c.curXPos.toNat ≤ 80 := UInt16.le_iff_toNat_le.mp h.x
  show c.curXPos - 1 ≤ 80 ↔ _
  rw [UInt16.le_iff_toNat_le, ne_eq, ← UInt16.toNat_inj, UInt16.toNat_sub]
  simp only [UInt16.reduceToNat]
  omega

theorem back_inside (h : c.OnScreen) (hx : c.curXPos ≠ 0) : c.back.Inside := by
  have hlt := h.pos_lt
  have hx : c.curXPos.toNat ≠ 0 := fun hzero => hx (UInt16.toNat_inj.mp hzero)
  have hx' : c.curXPos.toNat ≤ 80 := UInt16.le_iff_toNat_le.mp h.x
  have hy : c.curYPos.toNat ≤ 24 := UInt16.le_iff_toNat_le.mp h.y
  have hpos : c.pos ≠ 0 ∧ c.pos ≤ 2000 := by
    unfold pos xsize
    omega
  refine (inside_cons (c := c) rfl).mpr ⟨?_, h.inside⟩
  unfold address videoram videoSize
  omega

/-- A character is none of the bytes that move the cursor. -/
theorem Printable.ne {input : UInt8} (h : Printable input) : input ≠ 0x09 ∧ input ≠ 0x08 := by
  have h : 32 ≤ input.toNat := UInt8.le_iff_toNat_le.mp h.1
  constructor <;> rintro rfl <;> exact absurd h (by decide)

/-- **What `kputchar` does before it scrolls is all right just where the byte fits.** -/
theorem put_onScreen_iff (h : c.OnScreen) (input : UInt8) :
    (c.put input).curXPos ≤ 80 ∧ (c.put input).Inside ↔ c.Fits (.kputchar input) := by
  unfold put
  by_cases hprint : Printable input
  · rw [if_pos hprint, advance_inside, draw_inside h]
    exact ⟨fun hin => ⟨fun _ => hin.2, fun htab => absurd htab hprint.ne.1,
      fun hback => absurd hback hprint.ne.2⟩, fun hfits => ⟨advance_x, hfits.1 hprint⟩⟩
  rw [if_neg hprint]
  have hfits : c.Fits (.kputchar input) ↔
      (input = 0x09 → c.curXPos ≠ 80) ∧ (input = 0x08 → c.curXPos ≠ 0) :=
    and_iff_right fun hp => absurd hp hprint
  rw [hfits]
  by_cases htab : input = 0x09
  · rw [if_neg (by rw [htab]; decide), if_neg (by rw [htab]; decide), if_pos htab]
    have hback : input ≠ 0x08 := by rw [htab]; decide
    exact ⟨fun hon => ⟨fun _ => (tab_x h).mp hon.1, fun hb => absurd hb hback⟩,
      fun hon => ⟨(tab_x h).mpr (hon.1 htab), h.inside⟩⟩
  by_cases hback : input = 0x08
  · rw [if_neg (by rw [hback]; decide), if_neg (by rw [hback]; decide), if_neg htab, if_pos hback]
    exact ⟨fun hon => ⟨fun ht => absurd ht htab, fun _ => (back_x h).mp hon.1⟩,
      fun hon => ⟨(back_x h).mpr (hon.2 hback), back_inside h (hon.2 hback)⟩⟩
  refine iff_of_true ?_ ⟨fun ht => absurd ht htab, fun hb => absurd hb hback⟩
  -- The other bytes write nothing and do not move the cursor to the right.
  rw [if_neg htab, if_neg hback]
  split
  · exact ⟨UInt16.zero_le, h.inside⟩
  split
  · exact ⟨UInt16.zero_le, h.inside⟩
  split
  · exact ⟨h.x, h.inside⟩
  · exact ⟨h.x, h.inside⟩

theorem advance_offset (c : Console) : c.advance.conScrollOffset = c.conScrollOffset := by
  unfold advance
  dsimp only
  split
  · rfl
  · rfl

theorem put_offset (c : Console) (input : UInt8) :
    (c.put input).conScrollOffset = c.conScrollOffset := by
  unfold put
  split
  · exact advance_offset _
  repeat' split
  all_goals rfl

/-! ### A run -/

/-- On the screen, and `con_scroll_offset` is one that `kmain` gives it. -/
structure Good (c : Console) : Prop extends OnScreen c where
  top : c.conScrollOffset ≤ 2

theorem kputchar_onScreen_iff (h : c.Good) (input : UInt8) :
    (c.kputchar input).OnScreen ↔ c.Fits (.kputchar input) := by
  rw [← put_onScreen_iff h.toOnScreen]
  have htop : (c.put input).moveCursor.conScrollOffset ≤ 2 := (put_offset c input).symm ▸ h.top
  obtain ⟨hx, hy, -, hinside⟩ := kcheckScroll_spec htop
  unfold kputchar
  constructor
  · intro hon
    exact ⟨hx ▸ hon.x, hinside.mp hon.inside⟩
  · intro hput
    exact ⟨hx.symm ▸ hput.1, hy, hinside.mpr hput.2⟩

theorem Good.step {c' : Console} {op : ConsoleOp} (h : c.Good)
    (hstep : consoleStep c op = some c') (hfits : c.Fits op) : c'.Good := by
  cases op with
  | kputchar input =>
      obtain rfl := Option.some.inj hstep
      have htop : (c.put input).moveCursor.conScrollOffset ≤ 2 := (put_offset c input).symm ▸ h.top
      refine ⟨(kputchar_onScreen_iff h input).mpr hfits, ?_⟩
      exact (kcheckScroll_spec htop).2.2.1 ▸ htop
  | keepTop on =>
      obtain rfl := Option.some.inj hstep
      refine ⟨⟨h.x, h.y, h.inside⟩, ?_⟩
      show (if on then (2 : UInt16) else 0) ≤ 2
      cases on <;> decide

theorem fits_of_onScreen {c' : Console} {op : ConsoleOp} (h : c.Good)
    (hstep : consoleStep c op = some c') (hon : c'.OnScreen) : c.Fits op := by
  cases op with
  | kputchar input =>
      obtain rfl := Option.some.inj hstep
      exact (kputchar_onScreen_iff h input).mp hon
  | keepTop on => trivial

theorem cls_good (mem : Memory) : (boot mem).cls.Good :=
  ⟨⟨UInt16.zero_le, UInt16.zero_le,
    (clear_inside (c := boot mem) (Nat.le_refl _)).mpr fun _ ha => absurd ha List.not_mem_nil⟩,
    UInt16.zero_le⟩

end Console

open Console

/--
**The console stays on the screen in just the runs in which every byte fits.**  For every
sequence of bytes, with `con_scroll_offset` set by `kmain` in between or not.
-/
theorem console_on_screen_iff (mem : Memory) (ops : List ConsoleOp) :
    Always consoleStep OnScreen (boot mem).cls ops ↔
      EveryStep consoleStep (fun c op _ => c.Fits op) (boot mem).cls ops :=
  always_iff (fun _ h => h.toOnScreen) (fun _ _ _ h hstep hfits => h.step hstep hfits)
    (fun _ _ _ => fits_of_onScreen) (cls_good mem)

/-- **A backspace on the cleared screen takes the cursor to column 65535.** -/
theorem backspace_leaves_screen :
    ¬ Always consoleStep OnScreen (boot fun _ => 0).cls [.kputchar 0x08] := by
  intro h
  exact absurd (h.2 _ rfl).x (by decide)

end OsThing.Drivers
