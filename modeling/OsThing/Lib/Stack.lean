/-
A stack of words that grows down in byte memory.

`Holds m top ws` says that the words `ws` lie one behind the other from the address `top` on.
Pushing a word is `List.cons` and popping one is `List.tail`, as long as the stack is not so
long that its ends meet: a word takes four addresses of 2^32.
-/
import OsThing.Lib.Ram
import Mathlib.Tactic.Common

namespace Stack

open Ram

/-- The words lie one behind the other, the first of them at `top`. -/
def Holds (m : Memory) : UInt32 → List UInt32 → Prop
  | _, [] => True
  | top, w :: ws => word m top = w ∧ Holds m (top + 4) ws

/-- The memory after the words were pushed one after another below `top`. -/
def pushAll (m : Memory) (top : UInt32) : List UInt32 → Memory
  | [] => m
  | w :: ws => pushAll (setWord m (top - 4) w) (top - 4) ws

/-- Where the stack pointer is after `n` words were pushed. -/
def below (top : UInt32) (n : Nat) : UInt32 := top - UInt32.ofNat (4 * n)

variable {m m' : Memory} {top w : UInt32} {ws : List UInt32}

theorem below_zero (top : UInt32) : below top 0 = top := UInt32.sub_zero top

theorem below_succ (top : UInt32) (n : Nat) : below top (n + 1) = below (top - 4) n := by
  unfold below
  rw [show UInt32.ofNat (4 * (n + 1)) = UInt32.ofNat (4 * n) + 4 by
    rw [Nat.mul_add, UInt32.ofNat_add]
    rfl]
  grind

theorem below_add (top : UInt32) (m n : Nat) : below (below top m) n = below top (m + n) := by
  unfold below
  rw [show UInt32.ofNat (4 * (m + n)) = UInt32.ofNat (4 * m) + UInt32.ofNat (4 * n) by
    rw [← UInt32.ofNat_add, Nat.mul_add]]
  grind

/-- The words that are pushed onto `m` others are among `k` words, if there are no more. -/
theorem below_inside {k m n : Nat} (h : m + n ≤ k) (top : UInt32) :
    (⟨below top (m + n), 4 * n⟩ : Span).Inside ⟨below top k, 4 * k⟩ := by
  intro a (ha : (a - below top (m + n)).toNat < 4 * n)
  show (a - below top k).toNat < 4 * k
  have hsplit : a - below top k = a - below top (m + n) + UInt32.ofNat (4 * (k - (m + n))) := by
    have hk := below_add top (m + n) (k - (m + n))
    rw [show m + n + (k - (m + n)) = k by omega] at hk
    rw [← hk]
    unfold below
    grind
  have hle : (UInt32.ofNat (4 * (k - (m + n)))).toNat ≤ 4 * (k - (m + n)) := by
    rw [UInt32.toNat_ofNat']
    exact Nat.mod_le ..
  rw [hsplit, UInt32.toNat_add]
  exact Nat.lt_of_le_of_lt (Nat.mod_le ..) (by omega)

@[simp] theorem holds_nil : Holds m top [] := trivial

@[simp] theorem holds_cons : Holds m top (w :: ws) ↔ word m top = w ∧ Holds m (top + 4) ws := Iff.rfl

/-- The word behind a word is not in it. -/
theorem not_covers_next {n : Nat} (hn : n + 1 ≤ 2 ^ 30) {a : UInt32}
    (h : (⟨top + 4, 4 * n⟩ : Span).Covers a) : ¬ (⟨top, 4⟩ : Span).Covers a := by
  have hstep := toNat_sub_add top a (show 4 < 2 ^ 32 by decide)
  rw [show UInt32.ofNat 4 = 4 from rfl] at hstep
  change (a - (top + 4)).toNat < 4 * n at h
  have hlt := (a - top).toNat_lt
  intro (hcov : (a - top).toNat < 4)
  omega

/-- The words of a stack are told by the bytes they lie in. -/
theorem Holds.congr : ∀ {ws : List UInt32} {top : UInt32}, ws.length ≤ 2 ^ 30 → Holds m top ws →
    (∀ a, (⟨top, 4 * ws.length⟩ : Span).Covers a → m' a = m a) → Holds m' top ws := by
  intro ws
  induction ws with
  | nil => intro top _ _ _; exact trivial
  | cons w ws ih =>
      intro top hlen h hm
      rw [List.length_cons] at hlen hm
      constructor
      · refine (word_congr fun a ha => hm a ?_).trans h.1
        have hlt : (a - top).toNat < 4 := ha
        show (a - top).toNat < 4 * (ws.length + 1)
        omega
      · refine ih (by omega) h.2 fun a ha => hm a ?_
        have hstep := toNat_sub_add top a (show 4 < 2 ^ 32 by decide)
        rw [show UInt32.ofNat 4 = 4 from rfl] at hstep
        change (a - (top + 4)).toNat < 4 * ws.length at ha
        show (a - top).toNat < 4 * (ws.length + 1)
        have hlt := (a - top).toNat_lt
        omega

/-- A word that is pushed comes before the others. -/
theorem Holds.push (h : Holds m top ws) (hlen : ws.length + 1 ≤ 2 ^ 30) (w : UInt32) :
    Holds (setWord m (top - 4) w) (top - 4) (w :: ws) := by
  have htop : top - 4 + 4 = top := by grind
  refine ⟨word_setWord m _ w, ?_⟩
  rw [htop]
  refine h.congr (by omega) fun a ha => setWord_outside m w ?_
  rw [← htop] at ha
  exact not_covers_next hlen ha

/-- **Words that are pushed lie on the stack, the last one first.** -/
theorem Holds.pushAll : ∀ (new : List UInt32) {ws : List UInt32} {m : Memory} {top : UInt32},
    Holds m top ws → new.length + ws.length ≤ 2 ^ 30 →
    Holds (pushAll m top new) (below top new.length) (new.reverse ++ ws) := by
  intro new
  induction new with
  | nil =>
      intro ws m top h _
      rw [List.length_nil, below_zero]
      exact h
  | cons w new ih =>
      intro ws m top h hlen
      rw [List.length_cons] at hlen
      rw [List.length_cons, below_succ, List.reverse_cons, List.append_assoc]
      exact ih (h.push (by omega) w) (by rw [List.length_append, List.length_singleton]; omega)

/-- What is behind the first words. -/
theorem Holds.drop : ∀ {front : List UInt32} {top : UInt32}, Holds m top (front ++ ws) →
    Holds m (top + UInt32.ofNat (4 * front.length)) ws := by
  intro front
  induction front with
  | nil =>
      intro top h
      rw [List.length_nil, Nat.mul_zero, add_ofNat_zero]
      exact h
  | cons w front ih =>
      intro top h
      have hnext : top + UInt32.ofNat (4 * (front.length + 1)) =
          top + 4 + UInt32.ofNat (4 * front.length) := by
        rw [Nat.mul_add, UInt32.ofNat_add]
        grind
      rw [List.length_cons, hnext]
      exact ih h.2

end Stack
