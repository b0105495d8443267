/-
When a read from the keyboard loses nothing.

Left alone, a read stores the character that is in `read_buf`, if it has got that far, and
waits for more.  What it will have stored then is `settled`, and no step of the read changes
it.  So all depends on the interrupts: `Fits` says which characters may come at which point.
A character that comes while another one waits is a loss, and so is one that comes between the
copy and the clearing, or before the first one.
-/
import OsThing.Drivers.Keyboard
import OsThing.Lib.Runs
import Mathlib.Tactic.Common

namespace OsThing.Drivers

open Runs

namespace Reading

variable (r : Reading)

/-- The characters of the keys pressed since the call, other than zero. -/
def typed : List UInt8 := r.keys.filter (· ≠ 0)

/-- The read has returned, or sleeps until something comes. -/
def Idle : Prop := r.point = .done ∨ r.point = .poll ∧ r.kb.readBuf = 0

/-- If no more keys are pressed, the read stores the first `size` characters that were typed,
and no others. -/
def StoresTyped : Prop :=
  ∀ n r', runAll readStep r (List.replicate n .advance) = some r' → r'.Idle →
    r'.out = r'.typed.take r'.size

/-- A key that has the character `c` may be pressed now. -/
def Fits (c : UInt8) : Prop :=
  match r.point with
  | .start => c = 0 ∨ r.size = 0
  | .poll => r.kb.readBuf = 0 ∨ r.out.length + 1 = r.size ∧ c = r.kb.readBuf
  | .copy => r.out.length + 1 = r.size ∧ c = r.kb.readBuf
  | .clear => c = 0 ∨ r.out.length = r.size
  | .last => True
  | .done => True

/-- The same for an interrupt. -/
def KeyFits : ReadOp → Prop
  | .key scancode => ∀ c, r.kb.pressed scancode = some c → r.Fits c
  | .advance => True

/-- What will have been stored when the read is idle. -/
def settled : List UInt8 :=
  match r.point with
  | .start => []
  | .poll => if r.kb.readBuf = 0 then r.out else r.out ++ [r.kb.readBuf]
  | .copy => r.out ++ [r.kb.readBuf]
  | .clear => r.out
  | .last => r.out
  | .done => r.out

/-- How far the read is, at each point. -/
def InLoop : Prop :=
  match r.point with
  | .start => r.out = []
  | .poll => r.out.length < r.size
  | .copy => r.out.length < r.size
  | .clear => r.out.length ≤ r.size
  | .last => r.size = r.out.length
  | .done => r.size = r.out.length

variable {r}

/-! ### The steps of the read -/

theorem loop_inLoop (h : r.out.length ≤ r.size) :
    ({ r.setReadBuf 0 with point := r.loop } : Reading).InLoop ∧
      ({ r.setReadBuf 0 with point := r.loop } : Reading).settled = r.out := by
  unfold loop
  split
  next hlt =>
    refine ⟨hlt, ?_⟩
    rw [Reading.settled]
    exact if_pos rfl
  next hge => exact ⟨Nat.le_antisymm (Nat.not_lt.mp hge) h, rfl⟩

/-- What a step of the read leaves as it is. -/
structure Same (r r' : Reading) : Prop where
  inLoop : r'.InLoop
  settled : r'.settled = r.settled
  keys : r'.keys = r.keys
  size : r'.size = r.size

theorem InLoop.advance {r' : Reading} (h : r.InLoop) (hstep : r.advance = some r') :
    Same r r' := by
  unfold Reading.advance at hstep
  cases hpoint : r.point with
  | start =>
      rw [InLoop, hpoint] at h
      rw [hpoint] at hstep
      obtain rfl := Option.some.inj hstep
      have hnone : r.out.length ≤ r.size := by
        rw [show r.out = [] from h]
        exact Nat.zero_le _
      obtain ⟨hloop, hsettled⟩ := loop_inLoop hnone
      refine ⟨hloop, hsettled.trans ?_, rfl, rfl⟩
      rw [Reading.settled, hpoint]
      exact h
  | poll =>
      rw [hpoint] at hstep
      obtain rfl := Option.some.inj hstep
      by_cases hempty : r.kb.readBuf = 0
      · rw [if_pos hempty]
        exact ⟨h, rfl, rfl, rfl⟩
      · rw [if_neg hempty]
        rw [InLoop, hpoint] at h
        refine ⟨h, ?_, rfl, rfl⟩
        rw [Reading.settled, Reading.settled, hpoint]
        exact (if_neg hempty).symm
  | copy =>
      rw [InLoop, hpoint] at h
      rw [hpoint] at hstep
      obtain rfl := Option.some.inj hstep
      refine ⟨?_, ?_, rfl, rfl⟩
      · show (r.out ++ [r.kb.readBuf]).length ≤ r.size
        rw [List.length_append]
        exact h
      · rw [Reading.settled, Reading.settled, hpoint]
  | clear =>
      rw [InLoop, hpoint] at h
      rw [hpoint] at hstep
      obtain rfl := Option.some.inj hstep
      obtain ⟨hloop, hsettled⟩ := loop_inLoop h
      refine ⟨hloop, hsettled.trans ?_, rfl, rfl⟩
      rw [Reading.settled, hpoint]
  | last =>
      rw [InLoop, hpoint] at h
      rw [hpoint] at hstep
      obtain rfl := Option.some.inj hstep
      refine ⟨h, ?_, rfl, rfl⟩
      rw [Reading.settled, Reading.settled, hpoint]
      rfl
  | done =>
      rw [hpoint] at hstep
      cases hstep

theorem Same.trans {r₁ r₂ r₃ : Reading} (h₁ : Same r₁ r₂) (h₂ : Same r₂ r₃) : Same r₁ r₃ :=
  ⟨h₂.inLoop, h₂.settled.trans h₁.settled, h₂.keys.trans h₁.keys, h₂.size.trans h₁.size⟩

/-- A read that is left alone settles as it would have before. -/
theorem InLoop.alone : ∀ (n : Nat) {r r' : Reading}, r.InLoop →
    runAll readStep r (List.replicate n .advance) = some r' → Same r r' := by
  intro n
  induction n with
  | zero =>
      intro r r' h hrun
      obtain rfl := Option.some.inj hrun
      exact ⟨h, rfl, rfl, rfl⟩
  | succ n ih =>
      intro r r' h hrun
      obtain ⟨r₁, hstep, hrest⟩ := Option.bind_eq_some_iff.mp hrun
      have hsame := h.advance hstep
      exact hsame.trans (ih hsame.inLoop hrest)

theorem Idle.settled (h : r.Idle) : r.settled = r.out := by
  rcases h with hdone | ⟨hpoll, hempty⟩
  · rw [Reading.settled, hdone]
  · rw [Reading.settled, hpoll]
    exact if_pos hempty

/-- Left alone, the read becomes idle. -/
def BecomesIdle (r : Reading) : Prop :=
  ∃ n r', runAll readStep r (List.replicate n .advance) = some r' ∧ r'.Idle

theorem Idle.becomesIdle (h : r.Idle) : BecomesIdle r := ⟨0, r, rfl, h⟩

theorem BecomesIdle.after (r₁ : Reading) (hstep : r.advance = some r₁) (h : BecomesIdle r₁) :
    BecomesIdle r := by
  obtain ⟨n, r', hrun, hidle⟩ := h
  exact ⟨n + 1, r', Option.bind_eq_some_iff.mpr ⟨r₁, hstep, hrun⟩, hidle⟩

theorem becomesIdle_last (hpoint : r.point = .last) : BecomesIdle r := by
  refine .after { r.setReadBuf 0 with point := .done } ?_ (Idle.becomesIdle (.inl rfl))
  rw [Reading.advance, hpoint]

theorem becomesIdle_loop : BecomesIdle { r.setReadBuf 0 with point := r.loop } := by
  unfold loop
  split
  · exact Idle.becomesIdle (.inr ⟨rfl, rfl⟩)
  · exact becomesIdle_last rfl

theorem becomesIdle_clear (hpoint : r.point = .clear) : BecomesIdle r := by
  refine .after _ ?_ (becomesIdle_loop (r := r))
  rw [Reading.advance, hpoint]

theorem becomesIdle_copy (hpoint : r.point = .copy) : BecomesIdle r := by
  refine .after { r with out := r.out ++ [r.kb.readBuf], point := .clear } ?_
    (becomesIdle_clear rfl)
  rw [Reading.advance, hpoint]

theorem becomesIdle (r : Reading) : BecomesIdle r := by
  cases hpoint : r.point with
  | start =>
      refine .after _ ?_ (becomesIdle_loop (r := r))
      rw [Reading.advance, hpoint]
  | poll =>
      by_cases hempty : r.kb.readBuf = 0
      · exact Idle.becomesIdle (.inr ⟨hpoint, hempty⟩)
      · refine .after { r with point := .copy } ?_ (becomesIdle_copy rfl)
        rw [Reading.advance, hpoint]
        exact congrArg some (if_neg hempty)
  | copy => exact becomesIdle_copy hpoint
  | clear => exact becomesIdle_clear hpoint
  | last => exact becomesIdle_last hpoint
  | done => exact Idle.becomesIdle (.inl hpoint)

/-- So what the read stores if it is left alone can be told at once. -/
theorem InLoop.storesTyped_iff (h : r.InLoop) :
    r.StoresTyped ↔ r.settled = r.typed.take r.size := by
  constructor
  · intro hstores
    obtain ⟨n, r', hrun, hidle⟩ := becomesIdle r
    have hsame := h.alone n hrun
    have hout := hstores n r' hrun hidle
    rw [← hidle.settled, hsame.settled, typed, hsame.keys, hsame.size] at hout
    exact hout
  · intro hsettled n r' hrun hidle
    have hsame := h.alone n hrun
    rw [← hidle.settled, hsame.settled, typed, hsame.keys, hsame.size]
    exact hsettled

/-! ### An interrupt -/

theorem interrupt_none {scancode : UInt8} (h : r.kb.pressed scancode = none) :
    (r.interrupt scancode).kb.readBuf = r.kb.readBuf ∧ (r.interrupt scancode).keys = r.keys := by
  refine ⟨?_, ?_⟩
  · unfold Keyboard.pressed at h
    show (r.kb.keyboardHandler scancode).readBuf = r.kb.readBuf
    unfold Keyboard.keyboardHandler
    split
    · rfl
    next hmake =>
      rw [if_neg hmake] at h
      dsimp only
      split
      · rfl
      next hchar =>
        rw [if_neg hchar] at h
        cases h
  · show r.keys ++ (r.kb.pressed scancode).toList = r.keys
    rw [h, Option.toList_none, List.append_nil]

theorem interrupt_some {scancode c : UInt8} (h : r.kb.pressed scancode = some c) :
    (r.interrupt scancode).kb.readBuf = c ∧ (r.interrupt scancode).keys = r.keys ++ [c] := by
  refine ⟨?_, ?_⟩
  · unfold Keyboard.pressed at h
    show (r.kb.keyboardHandler scancode).readBuf = c
    unfold Keyboard.keyboardHandler
    split at h
    · cases h
    next hmake =>
      split at h
      · cases h
      next hchar =>
        rw [if_neg hmake]
        dsimp only
        rw [if_neg hchar]
        exact Option.some.inj h
  · show r.keys ++ (r.kb.pressed scancode).toList = r.keys ++ [c]
    rw [h]
    rfl

/-! ### Which characters fit -/

/-- Fewer than `size` were stored: they are all that was typed. -/
theorem take_all {out typed : List UInt8} {size : Nat} (h : out = typed.take size)
    (hlt : out.length < size) : typed = out := by
  rcases Nat.le_total typed.length size with hle | hge
  · exact (h.trans (List.take_of_length_le hle)).symm
  · rw [h, List.length_take_of_le hge] at hlt
    exact absurd hlt (Nat.lt_irrefl _)

/-- As many as `size` were stored: what is typed now does not count. -/
theorem take_full {out typed : List UInt8} {size : Nat} (h : out = typed.take size)
    (hfull : out.length = size) (c : UInt8) : (typed ++ [c]).take size = out := by
  rw [h, List.length_take] at hfull
  rw [List.take_append_of_le_length (by omega), ← h]

/-- A character that is typed while `b` waits is stored in its place. -/
theorem pending_iff {out typed : List UInt8} {size : Nat} {b c : UInt8}
    (h : out ++ [b] = typed.take size) (hlt : out.length < size) :
    out ++ [c] = (typed ++ [c]).take size ↔ out.length + 1 = size ∧ c = b := by
  have hlength : ∀ d : UInt8, (out ++ [d]).length = out.length + 1 := fun d => List.length_append
  constructor
  · intro hstored
    rcases Nat.lt_or_ge (out.length + 1) size with hmore | hlast
    · have htyped : typed = out ++ [b] := take_all h (by rw [hlength]; exact hmore)
      rw [htyped, List.take_of_length_le (by rw [List.length_append, hlength]; exact hmore)]
        at hstored
      have hlengths := congrArg List.length hstored
      rw [List.length_append, List.length_append, hlength] at hlengths
      exact absurd hlengths (Nat.ne_of_lt (Nat.lt_succ_self _))
    · have hsize : out.length + 1 = size := Nat.le_antisymm hlt hlast
      rw [take_full h ((hlength b).trans hsize)] at hstored
      exact ⟨hsize, List.singleton_inj.mp (List.append_cancel_left hstored)⟩
  · rintro ⟨hsize, rfl⟩
    exact (take_full h ((hlength c).trans hsize) c).symm

/-- The character `c` was put into `read_buf`. -/
structure Pressed (r r' : Reading) (c : UInt8) : Prop where
  readBuf : r'.kb.readBuf = c
  keys : r'.keys = r.keys ++ [c]
  point : r'.point = r.point
  out : r'.out = r.out
  size : r'.size = r.size

namespace Pressed

variable {r' : Reading} {c : UInt8}

theorem typed_zero (h : Pressed r r' 0) : r'.typed = r.typed := by
  rw [typed, h.keys, List.filter_append]
  exact List.append_nil _

theorem typed_char (h : Pressed r r' c) (hc : c ≠ 0) : r'.typed = r.typed ++ [c] := by
  rw [typed, h.keys, List.filter_append]
  exact congrArg _ (List.filter_cons_of_pos (decide_eq_true hc))

/-- A key without a character empties `read_buf`. -/
theorem fits_zero (h : Pressed r r' 0) (hs : r.settled = r.typed.take r.size) :
    r'.settled = r'.typed.take r'.size ↔ r.Fits 0 := by
  rw [h.typed_zero, h.size, ← hs]
  unfold settled Fits
  rw [h.point, h.out, h.readBuf]
  cases hpoint : r.point with
  | start => exact iff_of_true rfl (.inl rfl)
  | poll =>
      by_cases hempty : r.kb.readBuf = 0
      · exact iff_of_true (if_pos hempty).symm (.inl hempty)
      · refine iff_of_false (fun hlost => ?_) (fun hfits => ?_)
        · have hlengths := congrArg List.length (hlost.trans (if_neg hempty))
          rw [List.length_append] at hlengths
          exact absurd hlengths (Nat.ne_of_lt (Nat.lt_succ_self _))
        · exact hfits.elim hempty fun hsame => hempty hsame.2.symm
  | copy =>
      have hne : r.kb.readBuf ≠ 0 := by
        have hmem : r.kb.readBuf ∈ r.typed.take r.size := by
          rw [← hs, settled, hpoint]
          exact List.mem_append_right _ (List.mem_singleton_self _)
        exact of_decide_eq_true (List.mem_filter.mp (List.mem_of_mem_take hmem)).2
      refine iff_of_false (fun hlost => ?_) (fun hfits => hne hfits.2.symm)
      exact hne (List.singleton_inj.mp (List.append_cancel_left hlost)).symm
  | clear => exact iff_of_true rfl (.inl rfl)
  | last => exact iff_of_true rfl trivial
  | done => exact iff_of_true rfl trivial

/-- A key with a character. -/
theorem fits_char (h : Pressed r r' c) (hc : c ≠ 0) (hloop : r.InLoop)
    (hs : r.settled = r.typed.take r.size) :
    r'.settled = r'.typed.take r'.size ↔ r.Fits c := by
  rw [h.typed_char hc, h.size]
  unfold settled at hs ⊢
  unfold InLoop at hloop
  unfold Fits
  rw [h.point, h.out, h.readBuf]
  cases hpoint : r.point with
  | start =>
      show [] = (r.typed ++ [c]).take r.size ↔ c = 0 ∨ r.size = 0
      rw [or_iff_right hc, eq_comm, List.take_eq_nil_iff]
      exact or_iff_left (List.append_ne_nil_of_right_ne_nil _ (List.cons_ne_nil _ _))
  | poll =>
      rw [hpoint] at hs hloop
      change (if c = 0 then r.out else r.out ++ [c]) = _ ↔ _
      rw [if_neg hc]
      by_cases hempty : r.kb.readBuf = 0
      · have htyped : r.typed = r.out := take_all ((if_pos hempty).symm.trans hs) hloop
        refine iff_of_true ?_ (.inl hempty)
        rw [htyped, List.take_of_length_le]
        rw [List.length_append]
        exact hloop
      · rw [pending_iff ((if_neg hempty).symm.trans hs) hloop]
        exact (or_iff_right hempty).symm
  | copy =>
      rw [hpoint] at hs hloop
      exact pending_iff hs hloop
  | clear =>
      rw [hpoint] at hs hloop
      show r.out = (r.typed ++ [c]).take r.size ↔ c = 0 ∨ r.out.length = r.size
      rw [or_iff_right hc]
      refine ⟨fun hstored => ?_, fun hfull => (take_full hs hfull c).symm⟩
      by_contra hmore
      have hlt : r.out.length < r.size := Nat.lt_of_le_of_ne hloop hmore
      have hlengths := congrArg List.length hstored
      rw [take_all hs hlt, List.take_of_length_le (by rw [List.length_append]; exact hlt),
        List.length_append] at hlengths
      exact absurd hlengths (Nat.ne_of_lt (Nat.lt_succ_self _))
  | last =>
      rw [hpoint] at hs hloop
      exact iff_of_true (take_full hs hloop.symm c).symm trivial
  | done =>
      rw [hpoint] at hs hloop
      exact iff_of_true (take_full hs hloop.symm c).symm trivial

/-- The exact condition for one interrupt. -/
theorem fits_iff (h : Pressed r r' c) (hloop : r.InLoop) (hs : r.settled = r.typed.take r.size) :
    r'.settled = r'.typed.take r'.size ↔ r.Fits c := by
  by_cases hzero : c = 0
  · subst hzero
    exact h.fits_zero hs
  · exact h.fits_char hzero hloop hs

end Pressed

/-! ### Runs -/

/-- What holds as long as nothing was lost. -/
def Kept (r : Reading) : Prop := r.InLoop ∧ r.settled = r.typed.take r.size

theorem Kept.storesTyped (h : r.Kept) : r.StoresTyped := h.1.storesTyped_iff.mpr h.2

theorem kept_readKb (kb : Keyboard) (size : Nat) : (readKb kb size).Kept :=
  ⟨rfl, List.take_nil.symm⟩

/-- A step keeps what was typed exactly if it fits. -/
theorem Kept.step {r' : Reading} {op : ReadOp} (h : r.Kept) (hstep : readStep r op = some r') :
    r'.InLoop ∧ (r'.settled = r'.typed.take r'.size ↔ r.KeyFits op) := by
  cases op with
  | advance =>
      have hsame := h.1.advance hstep
      refine ⟨hsame.inLoop, iff_of_true ?_ trivial⟩
      rw [hsame.settled, h.2, typed, typed, hsame.keys, hsame.size]
  | key scancode =>
      obtain rfl := Option.some.inj hstep
      cases hpressed : r.kb.pressed scancode with
      | none =>
          obtain ⟨hbuf, hkeys⟩ := interrupt_none hpressed
          refine ⟨h.1, iff_of_true ?_ fun c hc => ?_⟩
          · rw [typed, hkeys]
            unfold settled
            rw [hbuf]
            exact h.2
          · rw [hpressed] at hc
            cases hc
      | some c =>
          obtain ⟨hbuf, hkeys⟩ := interrupt_some hpressed
          have hnew : Pressed r (r.interrupt scancode) c := ⟨hbuf, hkeys, rfl, rfl, rfl⟩
          refine ⟨h.1, (hnew.fits_iff h.1 h.2).trans ?_⟩
          constructor
          · intro hfits d hd
            exact Option.some.inj (hpressed.symm.trans hd) ▸ hfits
          · intro hfits
            exact hfits c hpressed

/-- Whatever comes in between, the loop is where it should be. -/
theorem InLoop.step {r' : Reading} {op : ReadOp} (h : r.InLoop) (hstep : readStep r op = some r') :
    r'.InLoop := by
  cases op with
  | advance => exact (h.advance hstep).inLoop
  | key scancode =>
      obtain rfl := Option.some.inj hstep
      exact h

end Reading

open Reading

/-- A read that returns has stored `size` bytes. -/
theorem read_stores_size (kb : Keyboard) (size : Nat) (ops : List ReadOp) :
    Always readStep (fun r => r.point = .done → r.size = r.out.length) (readKb kb size) ops := by
  have hloop : Always readStep InLoop (readKb kb size) ops :=
    always_of_inv (fun _ _ _ h hstep _ => h.step hstep) rfl (everyStep_true _)
  refine hloop.mono fun r h hdone => ?_
  rw [InLoop, hdone] at h
  exact h

/--
**When a read loses nothing.**  In every state of a run the read stores, if it is left alone
then, the first `size` characters other than zero of the keys pressed since the call, in order:
this holds exactly if each key is pressed at a point where its character fits.
-/
theorem read_loses_nothing_iff (kb : Keyboard) (size : Nat) (ops : List ReadOp) :
    Always readStep StoresTyped (readKb kb size) ops ↔
      EveryStep readStep (fun r op _ => r.KeyFits op) (readKb kb size) ops := by
  refine always_iff (fun _ h => h.storesTyped) (fun r op r' h hstep hfits => ?_)
    (fun r op r' h hstep hstores => ?_) (kept_readKb kb size)
  · obtain ⟨hloop, hkept⟩ := h.step hstep
    exact ⟨hloop, hkept.mpr hfits⟩
  · obtain ⟨hloop, hkept⟩ := h.step hstep
    exact hkept.mp (hloop.storesTyped_iff.mp hstores)

/-- The keys A and B are pressed between two polls, and B is stored. -/
theorem read_loses_key :
    ¬ ∀ kb size ops, Always readStep StoresTyped (readKb kb size) ops := by
  intro h
  have hstores := (h ⟨none, 0, .boot⟩ 1 [.advance, .key 0x1e, .key 0x30]).last rfl
  have hout : [(98 : UInt8)] = [97] := hstores 4 _ rfl (.inl rfl)
  revert hout
  decide

end OsThing.Drivers
