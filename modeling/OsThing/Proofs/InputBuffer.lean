/-
When the input buffer keeps the characters in order.

While there is room the buffer is a queue: what was put is what was returned with what waits
behind it (`Waiting`), and what waits is the window of `got_input` slots behind `input_buf_i`.
A character that is put while 64 wait goes into the slot of the oldest one, and `got_input`
counts both.  From then on the newest character is returned before the second oldest.
-/
import OsThing.Lib.Ring
import OsThing.Lib.Runs
import OsThing.Sys.Skio
import Mathlib.Tactic.Common

namespace OsThing.Skio

open Runs Ring

/-- The characters returned are some of those put, in their order. -/
def InOrder (t : Traffic) : Prop := t.returned.Sublist t.put

/-- Each character put was returned or waits, in the order in which they were put. -/
def NothingLost (t : Traffic) : Prop := t.put = t.returned ++ t.buffer.rest

/-- A character is put while fewer than `IN_BUF_SIZE` wait. -/
def HasRoom (t : Traffic) : SkioOp → Prop
  | .putInChar _ => t.buffer.gotInput < IN_BUF_SIZE
  | .getInChar => True

instance (t : Traffic) : (op : SkioOp) → Decidable (HasRoom t op)
  | .putInChar _ => inferInstanceAs (Decidable (_ < _))
  | .getInChar => inferInstanceAs (Decidable True)

/-- The slots behind `input_buf_i` hold what was put and not yet returned. -/
structure Waiting (t : Traffic) : Prop where
  last : t.buffer.inputBufP.toNat = (t.buffer.inputBufI.toNat + t.buffer.gotInput.toNat) % 64
  count : t.buffer.gotInput.toNat ≤ 64
  put : t.put = t.returned ++
    window 64 t.buffer.inputBuf t.buffer.inputBufI.toNat t.buffer.gotInput.toNat

/-! ### One call -/

/-- An index goes round after 64. -/
theorem next_index (i : UInt32) : ((i + 1) % IN_BUF_SIZE).toNat = (i.toNat + 1) % 64 := by
  rw [UInt32.toNat_mod, UInt32.toNat_add]
  show (i.toNat + 1) % 2 ^ 32 % 64 = (i.toNat + 1) % 64
  exact Nat.mod_mod_of_dvd _ ⟨2 ^ 26, rfl⟩

theorem gotInput_succ {n : UInt32} (h : n.toNat ≤ 64) : (n + 1).toNat = n.toNat + 1 := by
  rw [UInt32.toNat_add]
  exact Nat.mod_eq_of_lt (by change n.toNat + 1 < _; omega)

theorem gotInput_pred {n : UInt32} (h : n ≠ 0) : n.toNat = (n - 1).toNat + 1 := by
  have hpos : 0 < n.toNat := Nat.pos_of_ne_zero fun hn => h (UInt32.toNat.inj hn)
  rw [UInt32.toNat_sub_of_le n 1 (UInt32.le_iff_toNat_le.mpr hpos)]
  exact (Nat.sub_add_cancel hpos).symm

namespace InputBuffer

variable {b : InputBuffer}

theorem getInChar_some (h : b.gotInput ≠ 0) :
    b.getInChar = (b.inputBuf ((b.inputBufI + 1) % IN_BUF_SIZE).toNat,
      { b with inputBufI := (b.inputBufI + 1) % IN_BUF_SIZE, gotInput := b.gotInput - 1 }) :=
  if_pos h

theorem getInChar_none (h : b.gotInput = 0) : b.getInChar = (0, b) :=
  if_neg (not_not_intro h)

/-- What `get_in_char` returns is the window of the slots behind `input_buf_i`. -/
theorem next_eq : ∀ (k : Nat) {b : InputBuffer}, k ≤ b.gotInput.toNat →
    b.next k = window 64 b.inputBuf b.inputBufI.toNat k := by
  intro k
  induction k with
  | zero => intro b _; rfl
  | succ k ih =>
      intro b hk
      have hne : b.gotInput ≠ 0 := fun h => by
        rw [h] at hk
        exact Nat.not_succ_le_zero k hk
      rw [gotInput_pred hne] at hk
      have hrest := ih (b := { b with
        inputBufI := (b.inputBufI + 1) % IN_BUF_SIZE, gotInput := b.gotInput - 1 })
        (Nat.le_of_succ_le_succ hk)
      rw [next, getInChar_some hne, hrest, window_succ, next_index]

theorem rest_eq : b.rest = window 64 b.inputBuf b.inputBufI.toNat b.gotInput.toNat :=
  next_eq _ (Nat.le_refl _)

/-- The slot that the next character goes into. -/
theorem putInChar_slot {i k : Nat} (hlast : b.inputBufP.toNat = (i + k) % 64) :
    ((b.inputBufP + 1) % IN_BUF_SIZE).toNat = (i + k + 1) % 64 := by
  rw [next_index, hlast, Nat.mod_add_mod]

end InputBuffer

section Step

variable {t t' : Traffic}

theorem Waiting.nothingLost (h : Waiting t) : NothingLost t :=
  h.put.trans (congrArg _ InputBuffer.rest_eq.symm)

theorem NothingLost.inOrder (h : NothingLost t) : InOrder t := by
  rw [InOrder, show t.put = _ from h]
  exact List.sublist_append_left _ _

/-- A character put into a buffer with room waits behind the others. -/
theorem Waiting.put_step (h : Waiting t) {buf : UInt8} (hroom : t.buffer.gotInput < IN_BUF_SIZE) :
    Waiting { t with buffer := t.buffer.putInChar buf, put := t.put ++ [buf] } := by
  have hlt : t.buffer.gotInput.toNat < 64 := UInt32.lt_iff_toNat_lt.mp hroom
  have hcount : (t.buffer.gotInput + 1).toNat = t.buffer.gotInput.toNat + 1 :=
    gotInput_succ (Nat.le_of_lt hlt)
  have hslot := InputBuffer.putInChar_slot h.last
  constructor
  · show ((t.buffer.inputBufP + 1) % IN_BUF_SIZE).toNat =
      (t.buffer.inputBufI.toNat + (t.buffer.gotInput + 1).toNat) % 64
    rw [hslot, hcount, Nat.add_assoc]
  · show (t.buffer.gotInput + 1).toNat ≤ 64
    rw [hcount]
    exact hlt
  · show t.put ++ [buf] = t.returned ++ window 64
      (Function.update t.buffer.inputBuf ((t.buffer.inputBufP + 1) % IN_BUF_SIZE).toNat buf)
      t.buffer.inputBufI.toNat (t.buffer.gotInput + 1).toNat
    rw [hslot, hcount, window_put hlt, ← List.append_assoc, ← h.put]

/-- A character that is returned is the oldest one. -/
theorem Waiting.get_step (h : Waiting t) (hne : t.buffer.gotInput ≠ 0) :
    Waiting { t with
      buffer := t.buffer.getInChar.2, returned := t.returned ++ [t.buffer.getInChar.1] } := by
  have hcount := gotInput_pred hne
  have hput := h.put
  rw [hcount, window_succ, ← next_index] at hput
  rw [InputBuffer.getInChar_some hne]
  constructor
  · show t.buffer.inputBufP.toNat =
      (((t.buffer.inputBufI + 1) % IN_BUF_SIZE).toNat + (t.buffer.gotInput - 1).toNat) % 64
    rw [h.last, next_index, Nat.mod_add_mod, hcount]
    congr 1
    omega
  · have hle := h.count
    show (t.buffer.gotInput - 1).toNat ≤ 64
    omega
  · exact hput.trans (List.append_cons _ _ _)

/-- One call, if there is room for what it puts. -/
theorem Waiting.step {op : SkioOp} (h : Waiting t) (hstep : skioStep t op = some t')
    (hroom : HasRoom t op) : Waiting t' := by
  cases op with
  | putInChar buf =>
      obtain rfl := Option.some.inj hstep
      exact h.put_step hroom
  | getInChar =>
      by_cases hzero : t.buffer.gotInput = 0
      · rw [skioStep, if_pos hzero, InputBuffer.getInChar_none hzero] at hstep
        exact Option.some.inj hstep ▸ h
      · rw [skioStep, if_neg hzero] at hstep
        exact Option.some.inj hstep ▸ h.get_step hzero

end Step

theorem waiting_boot : Waiting .boot := ⟨rfl, by decide, rfl⟩

/-- The calls of `get_in_char` that come next return what `next` says. -/
theorem runAll_gets : ∀ (k : Nat) {t t' : Traffic}, k ≤ t.buffer.gotInput.toNat →
    runAll skioStep t (List.replicate k .getInChar) = some t' →
      t'.returned = t.returned ++ t.buffer.next k ∧ t'.put = t.put := by
  intro k
  induction k with
  | zero =>
      intro t t' _ hrun
      obtain rfl := Option.some.inj hrun
      exact ⟨(List.append_nil _).symm, rfl⟩
  | succ k ih =>
      intro t t' hk hrun
      have hne : t.buffer.gotInput ≠ 0 := fun h => by
        rw [h] at hk
        exact Nat.not_succ_le_zero k hk
      rw [List.replicate_succ, runAll, skioStep, if_neg hne, Option.bind_some] at hrun
      have hleft : k ≤ t.buffer.getInChar.2.gotInput.toNat := by
        rw [gotInput_pred hne] at hk
        rw [InputBuffer.getInChar_some hne]
        exact Nat.le_of_succ_le_succ hk
      obtain ⟨hreturned, hput⟩ := ih hleft hrun
      exact ⟨hreturned.trans (List.append_cons _ _ _).symm, hput⟩

/-! ### A full buffer -/

/-- A character that is put into a full buffer is the next one to be returned, and the second
oldest one comes after it. -/
theorem Waiting.overrun {t : Traffic} (h : Waiting t) (hfull : t.buffer.gotInput = IN_BUF_SIZE)
    (buf : UInt8) :
    ∃ oldest second later, t.buffer.rest = oldest :: second :: later ∧
      (t.buffer.putInChar buf).next 2 = [buf, second] := by
  have hcount : t.buffer.gotInput.toNat = 64 := congrArg UInt32.toNat hfull
  have hmore : (t.buffer.gotInput + 1).toNat = 64 + 1 := by rw [gotInput_succ h.count, hcount]
  obtain ⟨oldest, second, later, hrest⟩ : ∃ oldest second later,
      window 64 t.buffer.inputBuf t.buffer.inputBufI.toNat 64 = oldest :: second :: later :=
    ⟨_, _, _, (window_succ _ _).trans (congrArg _ (window_succ _ _))⟩
  refine ⟨oldest, second, later, ?_, ?_⟩
  · rw [InputBuffer.rest_eq, hcount, hrest]
  · have hlong : 2 ≤ (t.buffer.putInChar buf).gotInput.toNat := hmore ▸ by decide
    rw [InputBuffer.next_eq 2 hlong, ← window_take _ (show 2 ≤ 64 + 1 by decide)]
    show List.take 2 (window 64
      (Function.update t.buffer.inputBuf ((t.buffer.inputBufP + 1) % IN_BUF_SIZE).toNat buf)
      t.buffer.inputBufI.toNat (64 + 1)) = [buf, second]
    rw [InputBuffer.putInChar_slot h.last, hcount, window_overrun rfl, hrest]
    rfl

/-- Nothing that is put comes before itself. -/
theorem not_sublist_last {put : List UInt8} {buf c : UInt8} (hnew : buf ∉ put) :
    ¬ [buf, c].Sublist (put ++ [buf]) := by
  intro h
  obtain ⟨l₁, l₂, hsplit, hput, hlast⟩ := List.sublist_append_iff.mp h
  cases l₁ with
  | nil =>
      obtain rfl : [buf, c] = l₂ := hsplit
      exact absurd hlast.length_le (by simp)
  | cons first l₁ =>
      obtain ⟨rfl, -⟩ := List.cons.inj hsplit
      exact hnew (hput.subset List.mem_cons_self)

/--
**Why there has to be room.**  If the characters that wait in a full buffer are followed by a
new one, the next two that are returned are out of order.
-/
theorem Waiting.out_of_order {t t' : Traffic} (h : Waiting t)
    (hfull : t.buffer.gotInput = IN_BUF_SIZE) {buf : UInt8} (hnew : buf ∉ t.put)
    (hrun : runAll skioStep t [.putInChar buf, .getInChar, .getInChar] = some t') :
    ¬ InOrder t' := by
  obtain ⟨oldest, second, later, -, hnext⟩ := h.overrun hfull buf
  have hmore : 2 ≤ (t.buffer.gotInput + 1).toNat := hfull ▸ by decide
  obtain ⟨hreturned, hput⟩ := runAll_gets 2
    (t := { t with buffer := t.buffer.putInChar buf, put := t.put ++ [buf] }) hmore hrun
  intro horder
  rw [InOrder, hreturned, hput] at horder
  rw [hnext] at horder
  exact not_sublist_last hnew ((List.sublist_append_right _ _).trans horder)

/-! ### Runs -/

/--
**The input buffer is a queue while it has room.**  In every run in which no character is put
while `IN_BUF_SIZE` others wait, the characters returned are some of those put, in their order,
and each of the others still waits and is returned next.
-/
theorem input_in_order (ops : List SkioOp) (hroom : EveryTry skioStep HasRoom .boot ops) :
    Always skioStep (fun t => InOrder t ∧ NothingLost t) .boot ops := by
  have hwaiting : Always skioStep Waiting .boot ops :=
    always_of_inv (fun t op t' ht hstep hop => ht.step hstep hop) waiting_boot hroom.everyStep
  exact hwaiting.mono fun t ht => ⟨ht.nothingLost.inOrder, ht.nothingLost⟩

/-- One character is returned before the second one is put. -/
theorem input_in_order_two :
    Always skioStep (fun t => InOrder t ∧ NothingLost t) .boot
      [.putInChar 65, .getInChar, .putInChar 66] := by
  refine input_in_order _ ⟨by decide, fun t₁ h₁ => ?_⟩
  obtain rfl := Option.some.inj h₁
  refine ⟨trivial, fun t₂ h₂ => ?_⟩
  obtain rfl := Option.some.inj h₂
  exact ⟨by decide, fun _ _ => trivial⟩

/-- The characters 0 to 64 are put, and two are returned: the last of them, and 1. -/
theorem input_out_of_order : ¬ ∀ ops : List SkioOp, Always skioStep InOrder .boot ops := by
  intro h
  let puts := (List.range 65).map fun n => SkioOp.putInChar (UInt8.ofNat n)
  have hlast : ∃ t, runAll skioStep .boot (puts ++ [.getInChar, .getInChar]) = some t ∧
      t.put = (List.range 65).map UInt8.ofNat ∧ t.returned = [64, 1] :=
    ⟨_, rfl, by decide +kernel, by decide +kernel⟩
  obtain ⟨t, hrun, hput, hreturned⟩ := hlast
  have horder := (h _).last hrun
  rw [InOrder, hput, hreturned] at horder
  revert horder
  decide

end OsThing.Skio
