/-
Turns taken in a circle, by those who do not sleep.

The machine looks at one after the other, in the order `after`.  Whoever still wants to
sleep is passed over and has one turn less to sleep; whoever does not is selected, and
runs.  The one that runs may go to sleep for a number of turns.  A log of these events is
a run of the machine if `runAll (step after)` gets through it.

Of every such log three things are proved here.  The turns are taken in the order `after`
(`turns_eq`), one who goes to sleep for `n` turns is passed over `n` times before it is
selected (`passed_exactly`), and, in a circle of `k` where nobody sleeps, `k` turns are
one turn for each (`turns_perm`).
-/
import OsThing.Lib.Chain
import OsThing.Lib.Runs
import Mathlib.Data.List.Count
import Mathlib.Data.List.Iterate
import Mathlib.Data.List.Rotate

namespace RoundRobin

open Chain Runs

variable {α : Type*} [DecidableEq α]

inductive Event (α : Type*)
  | slept (a : α) (n : Nat)
  | passed (a : α)
  | selected (a : α)
  deriving DecidableEq

/-- Who had the last turn, whether it was selected then, and what all still want to sleep. -/
structure Turns (α : Type*) where
  sleep : α → Nat
  last : α
  running : Bool

def step (after : α → α) (s : Turns α) : Event α → Option (Turns α)
  | .slept a n =>
      if s.running ∧ a = s.last then some ⟨Function.update s.sleep a n, a, false⟩ else none
  | .passed a =>
      if a = after s.last ∧ 0 < s.sleep a then
        some ⟨Function.update s.sleep a (s.sleep a - 1), a, false⟩
      else none
  | .selected a =>
      if a = after s.last ∧ s.sleep a = 0 then some ⟨s.sleep, a, true⟩ else none

/-- Whose turn it was, if it was a turn. -/
def turn : Event α → Option α
  | .slept _ _ => none
  | .passed a => some a
  | .selected a => some a

def turns (log : List (Event α)) : List α := log.filterMap turn

variable {after : α → α}

/-! ### The order of turns -/

/-- A turn is the one after the last one. -/
theorem step_turn {s s' : Turns α} {e : Event α} {a : α} (h : step after s e = some s')
    (ha : turn e = some a) : a = after s.last ∧ s'.last = a := by
  cases e with
  | slept b n => cases ha
  | passed b =>
      obtain ⟨⟨hb, -⟩, h⟩ := Option.ite_none_right_eq_some.mp h
      obtain rfl := Option.some.inj h
      obtain rfl := Option.some.inj ha
      exact ⟨hb, rfl⟩
  | selected b =>
      obtain ⟨⟨hb, -⟩, h⟩ := Option.ite_none_right_eq_some.mp h
      obtain rfl := Option.some.inj h
      obtain rfl := Option.some.inj ha
      exact ⟨hb, rfl⟩

/-- Going to sleep is no turn. -/
theorem step_no_turn {s s' : Turns α} {e : Event α} (h : step after s e = some s')
    (he : turn e = none) : s'.last = s.last := by
  cases e with
  | slept a n =>
      obtain ⟨⟨-, rfl⟩, h⟩ := Option.ite_none_right_eq_some.mp h
      obtain rfl := Option.some.inj h
      rfl
  | passed a => cases he
  | selected a => cases he

/-- **Turns are taken in the order `after`**, from the last one on. -/
theorem turns_eq {log : List (Event α)} :
    ∀ {s s' : Turns α}, runAll (step after) s log = some s' →
      turns log = List.iterate after (after s.last) (turns log).length := by
  induction log with
  | nil => intro s s' _; rfl
  | cons e rest ih =>
      intro s s' h
      obtain ⟨s₁, hstep, hrest⟩ := Option.bind_eq_some_iff.mp h
      have hturns := ih hrest
      unfold turns at hturns ⊢
      rcases hturn : turn e with _ | a
      · rw [List.filterMap_cons_none hturn]
        rwa [step_no_turn hstep hturn] at hturns
      · obtain ⟨ha, hlast⟩ := step_turn hstep hturn
        rw [hlast] at hturns
        rw [List.filterMap_cons_some hturn, List.length_cons, List.iterate, ← ha, ← hturns]

/-- The turns stay in a set that the order does not leave. -/
theorem next_turn_mem {S : α → Prop} (hS : ∀ a, S a → S (after a)) {log : List (Event α)} :
    ∀ {s s' : Turns α}, runAll (step after) s log = some s' → S (after s.last) →
      S (after s'.last) := by
  induction log with
  | nil =>
      intro s s' h hs
      obtain rfl := Option.some.inj h
      exact hs
  | cons e rest ih =>
      intro s s' h hs
      obtain ⟨s₁, hstep, hrest⟩ := Option.bind_eq_some_iff.mp h
      refine ih hrest ?_
      rcases hturn : turn e with _ | a
      · rw [step_no_turn hstep hturn]
        exact hs
      · rw [(step_turn hstep hturn).2, (step_turn hstep hturn).1]
        exact hS _ hs

/-! ### Exact sleeps -/

/-- Who is not running stays that way until it is selected, and loses what it is passed over. -/
theorem step_sleep {s s' : Turns α} {e : Event α} {a : α} (h : step after s e = some s')
    (hidle : s.running → s.last ≠ a) (he : e ≠ .selected a) :
    s'.sleep a + List.count (.passed a) [e] = s.sleep a ∧ (s'.running → s'.last ≠ a) := by
  cases e with
  | slept b n =>
      obtain ⟨⟨hrun, rfl⟩, h⟩ := Option.ite_none_right_eq_some.mp h
      obtain rfl := Option.some.inj h
      have hne : a ≠ s.last := (hidle hrun).symm
      exact ⟨Function.update_of_ne hne .., fun hfalse => by cases hfalse⟩
  | passed b =>
      obtain ⟨⟨-, hpos⟩, h⟩ := Option.ite_none_right_eq_some.mp h
      obtain rfl := Option.some.inj h
      refine ⟨?_, fun hfalse => by cases hfalse⟩
      dsimp only
      by_cases hab : a = b
      · rw [hab, Function.update_self, List.count_singleton_self]
        omega
      · rw [Function.update_of_ne hab, List.count_eq_zero_of_not_mem]
        · rfl
        · intro hmem
          exact hab (Event.passed.inj (List.mem_singleton.mp hmem))
  | selected b =>
      obtain ⟨-, h⟩ := Option.ite_none_right_eq_some.mp h
      obtain rfl := Option.some.inj h
      exact ⟨rfl, fun _ hba => he (congrArg Event.selected hba)⟩

theorem run_sleep {log : List (Event α)} {a : α} :
    ∀ {s s' : Turns α}, runAll (step after) s log = some s' → (s.running → s.last ≠ a) →
      .selected a ∉ log → s'.sleep a + log.count (.passed a) = s.sleep a := by
  induction log with
  | nil =>
      intro s s' h _ _
      obtain rfl := Option.some.inj h
      rfl
  | cons e rest ih =>
      intro s s' h hidle hnot
      obtain ⟨s₁, hstep, hrest⟩ := Option.bind_eq_some_iff.mp h
      obtain ⟨he, hnot⟩ := not_or.mp (mt List.mem_cons.mpr hnot)
      obtain ⟨hsleep, hidle'⟩ := step_sleep hstep hidle (Ne.symm he)
      have hrun := ih hrest hidle' hnot
      rw [← List.singleton_append, List.count_append]
      omega

/-- What happens after `a` went to sleep for `n` turns and before it is selected. -/
theorem asleep {log pre mid : List (Event α)} {s s' : Turns α} {a : α} {n : Nat}
    (h : runAll (step after) s log = some s') (hlog : log = pre ++ .slept a n :: mid)
    (hnot : .selected a ∉ mid) : s'.sleep a + mid.count (.passed a) = n := by
  rw [hlog, runAll_append] at h
  obtain ⟨s₁, -, h⟩ := Option.bind_eq_some_iff.mp h
  obtain ⟨s₂, hstep, hmid⟩ := Option.bind_eq_some_iff.mp h
  obtain ⟨-, hstep⟩ := Option.ite_none_right_eq_some.mp hstep
  obtain rfl := Option.some.inj hstep
  have hrun := run_sleep hmid (fun hfalse => by cases hfalse) hnot
  exact hrun.trans (Function.update_self ..)

/-- **Whoever goes to sleep for `n` turns is passed over `n` times**, and then selected. -/
theorem passed_exactly {pre mid post : List (Event α)} {s s' : Turns α} {a : α} {n : Nat}
    (h : runAll (step after) s (pre ++ .slept a n :: (mid ++ .selected a :: post)) = some s')
    (hnot : .selected a ∉ mid) : mid.count (.passed a) = n := by
  rw [← List.cons_append, ← List.append_assoc, runAll_append] at h
  obtain ⟨s₁, hmid, h⟩ := Option.bind_eq_some_iff.mp h
  obtain ⟨s₂, hstep, -⟩ := Option.bind_eq_some_iff.mp h
  have hzero : s₁.sleep a = 0 := (Option.ite_none_right_eq_some.mp hstep).1.2
  have hrun := asleep hmid rfl hnot
  omega

/-- And it is never passed over more than that. -/
theorem passed_at_most {pre mid : List (Event α)} {s s' : Turns α} {a : α} {n : Nat}
    (h : runAll (step after) s (pre ++ .slept a n :: mid) = some s') (hnot : .selected a ∉ mid) :
    mid.count (.passed a) ≤ n :=
  Nat.le_of_add_left_le (Nat.le_of_eq (asleep h rfl hnot))

/-! ### The next one to be selected -/

/--
The turn `m` from now is the first one to find somebody awake: those who have a turn before
it still have to sleep when they have it, and the one who has it was passed over often enough.
-/
structure FirstAwake (after : α → α) (s : Turns α) (m : Nat) : Prop where
  awake : (List.iterate after (after s.last) m).count (after^[m] (after s.last)) =
    s.sleep (after^[m] (after s.last))
  asleep : ∀ j < m, (List.iterate after (after s.last) j).count (after^[j] (after s.last)) <
    s.sleep (after^[j] (after s.last))

theorem FirstAwake.unique {s : Turns α} {m m' : Nat} (h : FirstAwake after s m)
    (h' : FirstAwake after s m') : m = m' := by
  rcases Nat.lt_trichotomy m m' with hlt | heq | hlt
  · exact absurd h.awake (Nat.ne_of_lt (h'.asleep m hlt))
  · exact heq
  · exact absurd h'.awake (Nat.ne_of_lt (h.asleep m' hlt))

theorem firstAwake_zero {s : Turns α} (h : s.sleep (after s.last) = 0) : FirstAwake after s 0 :=
  ⟨h.symm, fun _ hj => absurd hj (Nat.not_lt_zero _)⟩

/-- One turn later everybody is one turn nearer, and the one passed over sleeps one less. -/
theorem FirstAwake.succ {s s' : Turns α} {m : Nat}
    (hstep : step after s (.passed (after s.last)) = some s') (h : FirstAwake after s' m) :
    FirstAwake after s (m + 1) := by
  obtain ⟨⟨-, hpos⟩, hstep⟩ := Option.ite_none_right_eq_some.mp hstep
  obtain rfl := Option.some.inj hstep
  have hsleep : ∀ a, s.sleep a =
      Function.update s.sleep (after s.last) (s.sleep (after s.last) - 1) a +
        if after s.last = a then 1 else 0 := by
    intro a
    by_cases ha : after s.last = a
    · rw [if_pos ha, ← ha, Function.update_self, Nat.sub_add_cancel hpos]
    · rw [if_neg ha, Function.update_of_ne (Ne.symm ha), Nat.add_zero]
  have hcount : ∀ j a, (List.iterate after (after s.last) (j + 1)).count a =
      (List.iterate after (after (after s.last)) j).count a + if after s.last = a then 1 else 0 := by
    intro j a
    rw [List.iterate, List.count_cons]
    simp only [beq_iff_eq]
  constructor
  · rw [hcount, hsleep, Function.iterate_succ_apply]
    exact congrArg (· + _) h.awake
  · intro j hj
    cases j with
    | zero => exact hpos
    | succ j =>
        rw [hcount, hsleep, Function.iterate_succ_apply]
        exact Nat.add_lt_add_right (h.asleep j (Nat.lt_of_succ_lt_succ hj)) _

/-! ### A circle -/

/-- The order `after` goes around in the list. -/
def Circle (after : α → α) (l : List α) : Prop :=
  ∀ i a, l[i]? = some a → l[(i + 1) % l.length]? = some (after a)

omit [DecidableEq α] in
theorem Circle.iterate {l : List α} {i : Nat} {a : α} (h : Circle after l) (ha : l[i]? = some a) :
    ∀ m, l[(i + m) % l.length]? = some (after^[m] a) := by
  intro m
  induction m with
  | zero =>
      obtain ⟨hi, -⟩ := List.getElem?_eq_some_iff.mp ha
      rwa [Nat.add_zero, Nat.mod_eq_of_lt hi]
  | succ m ih =>
      rw [Function.iterate_succ_apply', ← Nat.add_assoc, ← Nat.mod_add_mod]
      exact h _ _ ih

omit [DecidableEq α] in
/-- Once around the circle. -/
theorem Circle.around {l : List α} {i : Nat} {a : α} (h : Circle after l) (ha : l[i]? = some a) :
    List.iterate after a l.length = l.rotate i := by
  refine List.ext_getElem? fun j => ?_
  by_cases hj : j < l.length
  · rw [List.getElem?_iterate _ _ _ _ hj, List.getElem?_rotate hj, Nat.add_comm, h.iterate ha]
  · rw [List.getElem?_eq_none (by rw [List.length_iterate]; omega),
      List.getElem?_eq_none (by rw [List.length_rotate]; omega)]

omit [DecidableEq α] in
theorem Circle.after_mem {l : List α} (h : Circle after l) {a : α} (ha : a ∈ l) : after a ∈ l := by
  obtain ⟨i, hi⟩ := List.mem_iff_getElem?.mp ha
  exact List.mem_of_getElem? (h i a hi)

omit [DecidableEq α] in
/-- In a null-terminated list the next one is the next node, and after the last the first. -/
theorem circle_of_chain {next : α → Option α} {head : α} {l : List α}
    (h : IsChain next (some head) l) : Circle (fun a => (next a).getD head) l := by
  intro i a ha
  obtain ⟨rest, hl, -⟩ := isChain_some.mp h
  obtain ⟨hi, -⟩ := List.getElem?_eq_some_iff.mp ha
  have hnext := h.next_getElem? ha
  show _ = some ((next a).getD head)
  by_cases hlast : i + 1 < l.length
  · rw [Nat.mod_eq_of_lt hlast, hnext, List.getElem?_eq_getElem hlast]
    rfl
  · have hwrap : (i + 1) % l.length = 0 := by
      rw [show i + 1 = l.length by omega, Nat.mod_self]
    have hend : l[i + 1]? = none := List.getElem?_eq_none (Nat.le_of_not_lt hlast)
    rw [hnext, hwrap, hend, hl]
    rfl

/-- Who was selected, if somebody was. -/
def selected? : Event α → Option α
  | .selected a => some a
  | _ => none

def selections (log : List (Event α)) : List α := log.filterMap selected?

/-- Nobody in the circle sleeps, or goes to sleep. -/
theorem selections_awake {l : List α} (hafter : Circle after l) {log : List (Event α)} :
    ∀ {s s' : Turns α}, runAll (step after) s log = some s' → after s.last ∈ l →
      (∀ a ∈ l, s.sleep a = 0) → (∀ a n, .slept a n ∈ log → n = 0) →
      selections log = turns log := by
  induction log with
  | nil => intro s s' _ _ _ _; rfl
  | cons e rest ih =>
      intro s s' h hlast hawake hnone
      obtain ⟨s₁, hstep, hrest⟩ := Option.bind_eq_some_iff.mp h
      have hnone' : ∀ a n, .slept a n ∈ rest → n = 0 := fun a n hmem =>
        hnone a n (List.mem_cons_of_mem e hmem)
      cases e with
      | slept a n =>
          obtain rfl := hnone a n List.mem_cons_self
          obtain ⟨⟨-, rfl⟩, hstep⟩ := Option.ite_none_right_eq_some.mp hstep
          obtain rfl := Option.some.inj hstep
          refine ih hrest hlast (fun a ha => ?_) hnone'
          show Function.update s.sleep s.last 0 a = 0
          by_cases has : a = s.last
          · rw [has, Function.update_self]
          · rw [Function.update_of_ne has, hawake a ha]
      | passed a =>
          obtain ⟨⟨rfl, hpos⟩, -⟩ := Option.ite_none_right_eq_some.mp hstep
          exact absurd (hawake _ hlast) (Nat.ne_of_gt hpos)
      | selected a =>
          obtain ⟨⟨rfl, -⟩, hstep⟩ := Option.ite_none_right_eq_some.mp hstep
          obtain rfl := Option.some.inj hstep
          exact congrArg _ (ih hrest (hafter.after_mem hlast) hawake hnone')

/-- **In a circle of `k` where nobody sleeps, `k` turns are one turn for each.** -/
theorem selections_perm {l : List α} (hafter : Circle after l) {log : List (Event α)}
    {s s' : Turns α} (h : runAll (step after) s log = some s') (hlast : after s.last ∈ l)
    (hawake : ∀ a ∈ l, s.sleep a = 0) (hnone : ∀ a n, .slept a n ∈ log → n = 0)
    (hlen : (selections log).length = l.length) : (selections log).Perm l := by
  obtain ⟨i, hi⟩ := List.mem_iff_getElem?.mp hlast
  have hturns := turns_eq h
  rw [selections_awake hafter h hlast hawake hnone] at hlen ⊢
  rw [hlen, hafter.around hi] at hturns
  rw [hturns]
  exact List.rotate_perm l i

end RoundRobin
