/-
Singly linked lists in a store, and the two loops C code runs over them.

The store is only ever seen through the function `next` that reads the link of a
node; `none` is the null pointer.  `Chain next p l` says that the list which starts
at the pointer `p` is null-terminated and passes through exactly the nodes `l`, in
this order.  A cyclic list is the chain of no `l`, and `not_chain_of_closed` is how a
cycle is recognised: a set of nodes that no link leaves.

The loops take fuel, one unit for each node looked at, and are `none` when it runs
out.  On a chain the length of the chain is always enough, so what they return there
does not depend on the fuel.
-/
import Mathlib.Data.List.Basic
import Mathlib.Data.List.Nodup
import Mathlib.Data.List.Perm.Subperm
import Mathlib.Logic.Function.Basic

namespace Chain

variable {α : Type*}

/-- From the pointer `p` the links lead through the nodes `l` to the pointer `q`. -/
def Seg (next : α → Option α) : Option α → List α → Option α → Prop
  | p, [], q => p = q
  | p, a :: rest, q => p = some a ∧ Seg next (next a) rest q

/-- The list that starts at `p` is null-terminated, and its nodes are `l`. -/
def IsChain (next : α → Option α) (p : Option α) (l : List α) : Prop := Seg next p l none

/-- `for ( move = a; go( move ); move = move->next );` with the node it stops at. -/
def advance (next : α → Option α) (go : α → Bool) : Nat → α → Option α
  | 0, _ => none
  | fuel + 1, a => if go a then (next a).bind (advance next go fuel) else some a

/-- `for ( ; move && !hit( move ); move = move->next );` with the last `move`. -/
def seek (next : α → Option α) (hit : α → Bool) : Nat → Option α → Option (Option α)
  | _, none => some none
  | 0, some _ => none
  | fuel + 1, some a => if hit a then some (some a) else seek next hit fuel (next a)

/-- The nodes that `for ( move = a; move->next; move = move->next );` passes. -/
def passed (next : α → Option α) : Nat → α → Option (List α)
  | 0, _ => none
  | fuel + 1, a =>
      match next a with
      | none => some []
      | some b => (passed next fuel b).map (a :: ·)

variable {next next' : α → Option α}

/-! ### Segments -/

@[simp] theorem seg_nil {p q : Option α} : Seg next p [] q ↔ p = q := Iff.rfl

@[simp] theorem seg_cons {p q : Option α} {a : α} {l : List α} :
    Seg next p (a :: l) q ↔ p = some a ∧ Seg next (next a) l q := Iff.rfl

theorem seg_append {p q : Option α} {l₁ l₂ : List α} :
    Seg next p (l₁ ++ l₂) q ↔ ∃ m, Seg next p l₁ m ∧ Seg next m l₂ q := by
  induction l₁ generalizing p with
  | nil => simp
  | cons a rest ih => simp [ih, and_assoc]

/-- Only the links of the nodes passed through matter. -/
theorem Seg.congr {p q : Option α} {l : List α} (h : Seg next p l q)
    (heq : ∀ a ∈ l, next' a = next a) : Seg next' p l q := by
  induction l generalizing p with
  | nil => exact h
  | cons a rest ih =>
      refine ⟨h.1, ?_⟩
      rw [heq a List.mem_cons_self]
      exact ih h.2 fun b hb => heq b (List.mem_cons_of_mem a hb)

@[simp] theorem isChain_none {l : List α} : IsChain next none l ↔ l = [] := by
  cases l <;> simp [IsChain]

theorem isChain_some {a : α} {l : List α} :
    IsChain next (some a) l ↔ ∃ rest, l = a :: rest ∧ IsChain next (next a) rest := by
  cases l with
  | nil => simp [IsChain]
  | cons b rest =>
      simp only [IsChain, seg_cons, Option.some.injEq, List.cons.injEq]
      constructor
      · rintro ⟨rfl, hrest⟩
        exact ⟨rest, ⟨rfl, rfl⟩, hrest⟩
      · rintro ⟨_, ⟨rfl, rfl⟩, hrest⟩
        exact ⟨rfl, hrest⟩

theorem IsChain.congr {p : Option α} {l : List α} (h : IsChain next p l)
    (heq : ∀ a ∈ l, next' a = next a) : IsChain next' p l := Seg.congr h heq

/-- A pointer starts at most one chain. -/
theorem IsChain.unique {p : Option α} {l l' : List α} (h : IsChain next p l)
    (h' : IsChain next p l') : l = l' := by
  induction l generalizing p l' with
  | nil =>
      obtain rfl : p = none := h
      exact (isChain_none.mp h').symm
  | cons a rest ih =>
      obtain ⟨rfl, hrest⟩ := h
      obtain ⟨rest', rfl, hrest'⟩ := isChain_some.mp h'
      rw [ih hrest hrest']

/-- The rest of a chain, from any of its nodes on. -/
theorem IsChain.suffix {p : Option α} {l₁ l₂ : List α} {a : α}
    (h : IsChain next p (l₁ ++ a :: l₂)) : IsChain next (next a) l₂ := by
  obtain ⟨m, _, hm⟩ := seg_append.mp h
  exact hm.2

/-- The link of a node is the node at the next place, or null at the end. -/
theorem IsChain.next_getElem? {l : List α} :
    ∀ {p : Option α} {i : Nat} {a : α}, IsChain next p l → l[i]? = some a → next a = l[i + 1]? := by
  induction l with
  | nil => intro p i a _ ha; cases ha
  | cons b rest ih =>
      intro p i a h ha
      cases i with
      | succ i => exact ih h.2 ha
      | zero =>
          obtain rfl : b = a := Option.some.inj ha
          have hrest := h.2
          cases rest with
          | nil => exact hrest
          | cons c rest => exact hrest.1

/-- All nodes lie in every set that holds the start and that no link leaves. -/
theorem Seg.forall_mem {S : α → Prop} (hclosed : ∀ a, S a → ∀ b, next a = some b → S b)
    {l : List α} {q : Option α} :
    ∀ {p : Option α}, Seg next p l q → (∀ a, p = some a → S a) → ∀ b ∈ l, S b := by
  induction l with
  | nil => intro p _ _ b hb; cases hb
  | cons a rest ih =>
      intro p h hp b hb
      have ha := hp a h.1
      rcases List.mem_cons.mp hb with rfl | hb
      · exact ha
      · exact ih h.2 (hclosed a ha) b hb

/-- A null-terminated list passes through no node twice. -/
theorem IsChain.nodup {p : Option α} {l : List α} (h : IsChain next p l) : l.Nodup := by
  induction l generalizing p with
  | nil => exact List.nodup_nil
  | cons a rest ih =>
      refine List.nodup_cons.mpr ⟨fun hmem => ?_, ih h.2⟩
      obtain ⟨l₁, l₂, rfl⟩ := List.append_of_mem hmem
      have hlen := congrArg List.length (IsChain.unique h.2 (IsChain.suffix h.2))
      simp only [List.length_append, List.length_cons] at hlen
      omega

/-- No chain starts in a set of nodes that no link leaves. -/
theorem not_chain_of_closed {S : α → Prop} (hclosed : ∀ a, S a → ∃ b, next a = some b ∧ S b)
    {a : α} (ha : S a) : ∀ l, ¬ IsChain next (some a) l := by
  intro l
  induction l generalizing a with
  | nil => exact fun h => Option.some_ne_none a h
  | cons b rest ih =>
      intro h
      obtain rfl : a = b := Option.some.inj h.1
      obtain ⟨c, hc, hS⟩ := hclosed a ha
      exact ih hS (hc ▸ h.2)

/-- In a store with `n` nodes a chain has at most `n` of them. -/
theorem IsChain.length_le {next : Nat → Option Nat} {p : Option Nat} {l : List Nat} {n : Nat}
    (h : IsChain next p l) (hl : ∀ a ∈ l, a < n) : l.length ≤ n := by
  have hsub : l ⊆ List.range n := fun a ha => List.mem_range.mpr (hl a ha)
  simpa using (List.subperm_of_subset h.nodup hsub).length_le

/-- A chain with the length of a segment from the same start: the segment ends with null. -/
theorem Seg.end_none {p q : Option α} {l l' : List α} (h : Seg next p l q)
    (h' : IsChain next p l') (hlen : l'.length = l.length) : q = none := by
  induction l generalizing p l' with
  | nil =>
      obtain rfl := List.length_eq_zero_iff.mp hlen
      exact (show p = q from h) ▸ h'
  | cons a rest ih =>
      obtain ⟨rfl, hrest⟩ := h
      obtain ⟨rest', rfl, hrest'⟩ := isChain_some.mp h'
      exact ih hrest hrest' (Nat.succ.inj hlen)

theorem IsChain.next_last {p : Option α} {l : List α} {t : α}
    (h : IsChain next p (l ++ [t])) : next t = none := h.suffix

/-- Only the last node of a chain has a null link. -/
theorem IsChain.next_of_not_last {p : Option α} {l₁ l₂ : List α} {a b : α}
    (h : IsChain next p (l₁ ++ a :: b :: l₂)) : next a = some b := by
  exact h.suffix.1

/-! ### Several lists of which one grows -/

section Grow

variable {ι : Type*} [DecidableEq ι] {chain : ι → List α} {i : ι} {a : α}

theorem mem_update_append {j : ι} {b : α} :
    b ∈ Function.update chain i (chain i ++ [a]) j ↔ b ∈ chain j ∨ j = i ∧ b = a := by
  by_cases hj : j = i
  · subst hj
    simp
  · simp [hj]

/-- A node that is in none of the lists keeps them apart when it is put into one. -/
theorem update_append_apart {S : ι → Prop}
    (h : ∀ j, S j → ∀ k, S k → j ≠ k → (chain j).Disjoint (chain k))
    (hnew : ∀ j, S j → a ∉ chain j) : ∀ j, S j → ∀ k, S k → j ≠ k →
      (Function.update chain i (chain i ++ [a]) j).Disjoint
        (Function.update chain i (chain i ++ [a]) k) := by
  intro j hj k hk hne b hbj hbk
  rcases mem_update_append.mp hbj with hbj | ⟨hji, hba⟩
  · rcases mem_update_append.mp hbk with hbk | ⟨-, hba⟩
    · exact h j hj k hk hne hbj hbk
    · exact hnew j hj (hba ▸ hbj)
  · rcases mem_update_append.mp hbk with hbk | ⟨hki, -⟩
    · exact hnew k hk (hba ▸ hbk)
    · exact hne (hji.trans hki.symm)

end Grow

/-! ### Changing one link -/

/-- Every node but the last one leads to another node of the chain. -/
theorem IsChain.next_of_mem_init {p : Option α} {l : List α} {a e : α}
    (h : IsChain next p (l ++ [e])) (ha : a ∈ l) : ∃ b, next a = some b ∧ b ∈ l ++ [e] := by
  obtain ⟨l₁, l₂, rfl⟩ := List.append_of_mem ha
  rcases l₂ with _ | ⟨b, l₂⟩
  · have hseg : IsChain next p (l₁ ++ a :: e :: []) := by simpa using h
    exact ⟨e, hseg.next_of_not_last, by simp⟩
  · have hseg : IsChain next p (l₁ ++ a :: b :: (l₂ ++ [e])) := by simpa using h
    exact ⟨b, hseg.next_of_not_last, by simp⟩

/-- A chain contains where its links lead. -/
theorem IsChain.mem_of_next {p : Option α} {l : List α} {a b : α} (h : IsChain next p l)
    (ha : a ∈ l) (hb : next a = some b) : b ∈ l := by
  obtain ⟨l₁, l₂, rfl⟩ := List.append_of_mem ha
  have hrest := h.suffix
  rw [hb] at hrest
  obtain ⟨rest, rfl, _⟩ := isChain_some.mp hrest
  simp

/-- No node of a chain leads to itself. -/
theorem IsChain.next_ne_self {p : Option α} {l : List α} {a : α} (h : IsChain next p l)
    (ha : a ∈ l) : next a ≠ some a := by
  intro hnext
  obtain ⟨l₁, l₂, rfl⟩ := List.append_of_mem ha
  have hrest := h.suffix
  rw [hnext] at hrest
  have hmem : a ∈ l₂ := by
    obtain ⟨rest, rfl, _⟩ := isChain_some.mp hrest
    exact List.mem_cons_self
  exact (List.nodup_cons.mp (List.nodup_append.mp h.nodup).2.1).1 hmem

/-- No link of a chain leads back to where the chain starts. -/
theorem IsChain.next_ne_head {a b : α} {l : List α} (h : IsChain next (some a) l) (hb : b ∈ l) :
    next b ≠ some a := by
  intro hnext
  obtain ⟨l₁, l₂, rfl⟩ := List.append_of_mem hb
  have hrest := h.suffix
  rw [hnext] at hrest
  have hlen := congrArg List.length (hrest.unique h)
  simp only [List.length_append, List.length_cons] at hlen
  omega

/-- A chain contains every segment that starts where it does. -/
theorem Seg.subset_chain {p q : Option α} {l l' : List α} (h : Seg next p l q)
    (h' : IsChain next p l') : l ⊆ l' := by
  induction l generalizing p l' with
  | nil => exact List.nil_subset l'
  | cons a rest ih =>
      obtain ⟨rfl, hrest⟩ := h
      obtain ⟨rest', rfl, hrest'⟩ := isChain_some.mp h'
      exact List.cons_subset_cons a (ih hrest hrest')

/-- A new node at the end: the old last link points to it, and its own link is null. -/
theorem IsChain.snoc {p : Option α} {l : List α} {t a : α} (h : IsChain next p (l ++ [t]))
    (hlink : next' t = some a) (hend : next' a = none) (hrest : ∀ b ∈ l, next' b = next b) :
    IsChain next' p (l ++ [t, a]) := by
  obtain ⟨m, hl, hm⟩ := seg_append.mp h
  exact seg_append.mpr ⟨m, hl.congr hrest, hm.1, by rw [hlink]; exact ⟨rfl, hend⟩⟩

variable [DecidableEq α]

theorem Seg.update {p q r : Option α} {l : List α} {a : α} (h : Seg next p l q) (ha : a ∉ l) :
    Seg (Function.update next a r) p l q :=
  h.congr fun _ hb => Function.update_of_ne (ne_of_mem_of_not_mem hb ha) _ _

theorem IsChain.update {p r : Option α} {l : List α} {a : α} (h : IsChain next p l) (ha : a ∉ l) :
    IsChain (Function.update next a r) p l := Seg.update h ha

/-- Unlinking: the node before `b` gets the link of `b`. -/
theorem IsChain.unlink {p : Option α} {l₁ l₂ : List α} {a b : α}
    (h : IsChain next p (l₁ ++ a :: b :: l₂)) :
    IsChain (Function.update next a (next b)) p (l₁ ++ a :: l₂) := by
  have hnodup := h.nodup
  obtain ⟨m, h₁, hm⟩ := seg_append.mp h
  have ha₁ : a ∉ l₁ := fun hmem =>
    (List.nodup_append.mp hnodup).2.2 a hmem a List.mem_cons_self rfl
  have ha₂ : a ∉ l₂ := fun hmem =>
    (List.nodup_cons.mp (List.nodup_append.mp hnodup).2.1).1 (List.mem_cons_of_mem b hmem)
  refine seg_append.mpr ⟨m, h₁.update ha₁, hm.1, ?_⟩
  rw [Function.update_self]
  exact Seg.update hm.2.2 ha₂

/-! ### The loops on a chain -/

omit [DecidableEq α]

theorem seek_eq {hit : α → Bool} {p : Option α} {l : List α} (h : IsChain next p l) :
    ∀ {fuel}, l.length ≤ fuel → seek next hit fuel p = some (l.find? hit) := by
  induction l generalizing p with
  | nil =>
      intro fuel _
      obtain rfl : p = none := h
      cases fuel <;> rfl
  | cons a rest ih =>
      intro fuel hfuel
      obtain ⟨rfl, hrest⟩ := h
      obtain ⟨n, rfl⟩ := Nat.exists_eq_add_of_lt (Nat.lt_of_lt_of_le (Nat.succ_pos _) hfuel)
      simp only [List.length_cons, Nat.zero_add] at hfuel ⊢
      rw [seek, List.find?_cons]
      by_cases hhit : hit a
      · simp [hhit]
      · simpa [hhit] using ih hrest (by omega)

/-- What is found lies in every set that holds the start and that no link leaves, whether
or not the list has an end. -/
theorem seek_mem {hit : α → Bool} {S : α → Prop} (hclosed : ∀ a, S a → ∀ b, next a = some b → S b)
    {t : α} {fuel : Nat} :
    ∀ {p : Option α}, (∀ a, p = some a → S a) → seek next hit fuel p = some (some t) → S t := by
  induction fuel with
  | zero =>
      intro p _ h
      rcases p with _ | a <;> cases h
  | succ fuel ih =>
      intro p hp h
      rcases p with _ | a
      · cases h
      · unfold seek at h
        split at h
        · obtain rfl := Option.some.inj (Option.some.inj h)
          exact hp a rfl
        · exact ih (hclosed a (hp a rfl)) h

/-- So does the node where a walk stops. -/
theorem advance_mem {go : α → Bool} {S : α → Prop}
    (hclosed : ∀ a, S a → ∀ b, next a = some b → S b) {t : α} {fuel : Nat} :
    ∀ {a : α}, S a → advance next go fuel a = some t → S t ∧ go t = false := by
  induction fuel with
  | zero => intro a _ h; cases h
  | succ fuel ih =>
      intro a ha h
      unfold advance at h
      split at h
      · obtain ⟨b, hb, hrest⟩ := Option.bind_eq_some_iff.mp h
        exact ih (hclosed a ha b hb) hrest
      · rename_i hgo
        obtain rfl := Option.some.inj h
        exact ⟨ha, Bool.eq_false_iff.mpr hgo⟩

theorem advance_eq {go : α → Bool} {a : α} {l : List α} (h : IsChain next (some a) l) :
    ∀ {fuel}, l.length ≤ fuel → advance next go fuel a = l.find? fun b => !go b := by
  induction l generalizing a with
  | nil => exact absurd h (by simp [IsChain])
  | cons b rest ih =>
      intro fuel hfuel
      obtain ⟨hb, hrest⟩ := h
      obtain rfl : a = b := Option.some.inj hb
      obtain ⟨n, rfl⟩ := Nat.exists_eq_add_of_lt (Nat.lt_of_lt_of_le (Nat.succ_pos _) hfuel)
      simp only [List.length_cons, Nat.zero_add] at hfuel ⊢
      rw [advance, List.find?_cons]
      by_cases hgo : go a
      · simp only [hgo, if_true, Bool.not_true]
        rcases hnext : next a with _ | c
        · rw [hnext] at hrest
          obtain rfl := isChain_none.mp hrest
          rfl
        · rw [hnext] at hrest
          exact ih hrest (by omega)
      · simp [hgo]

/-- `while ( move->next ) move = move->next;` stops at the last node. -/
theorem advance_last {a : α} {l : List α} {t : α} (h : IsChain next (some a) (l ++ [t])) {fuel : Nat}
    (hfuel : l.length < fuel) : advance next (fun b => (next b).isSome) fuel a = some t := by
  rw [advance_eq h (by simpa using Nat.succ_le_of_lt hfuel), List.find?_append]
  have hnone : l.find? (fun b => !(next b).isSome) = none := by
    refine List.find?_eq_none.mpr fun b hb => ?_
    obtain ⟨c, hc, _⟩ := h.next_of_mem_init hb
    simp [hc]
  rw [hnone]
  simp [h.next_last]

/-- The loop passes every node but the last one. -/
theorem passed_eq {a t : α} {l : List α} (h : IsChain next (some a) (l ++ [t])) :
    ∀ {fuel}, l.length < fuel → passed next fuel a = some l := by
  induction l generalizing a with
  | nil =>
      intro fuel hfuel
      obtain ⟨n, rfl⟩ := Nat.exists_eq_add_of_lt hfuel
      obtain ⟨ha, hend⟩ := h
      obtain rfl := Option.some.inj ha
      rw [passed, show next a = none from hend]
  | cons b rest ih =>
      intro fuel hfuel
      obtain ⟨n, rfl⟩ := Nat.exists_eq_add_of_lt hfuel
      obtain ⟨ha, hrest⟩ := h
      obtain rfl := Option.some.inj ha
      obtain ⟨c, hc⟩ : ∃ c, next a = some c := by
        cases hnext : next a with
        | some c => exact ⟨c, rfl⟩
        | none =>
            rw [hnext] at hrest
            exact absurd (isChain_none.mp hrest) (by simp)
      rw [hc] at hrest
      have hmore : rest.length < (a :: rest).length + n := by
        rw [List.length_cons]
        omega
      rw [passed, hc]
      show (passed next ((a :: rest).length + n) c).map (a :: ·) = _
      rw [ih hrest hmore]
      rfl

/-! ### Looking for the node before another one

`while ( move->next && move->next != t ) move = move->next;`
-/

theorem advance_before [DecidableEq α] {a m t : α} {l₁ l₂ : List α}
    (h : IsChain next (some a) (l₁ ++ m :: t :: l₂)) {fuel : Nat}
    (hfuel : (l₁ ++ m :: t :: l₂).length ≤ fuel) :
    advance next (fun b => (next b).isSome && next b ≠ some t) fuel a = some m := by
  have hnodup := h.nodup
  rw [advance_eq h hfuel, List.find?_append]
  have hnone : l₁.find? (fun b => !((next b).isSome && decide (next b ≠ some t))) = none := by
    refine List.find?_eq_none.mpr fun b hb => ?_
    -- the node after `b` comes before `t`
    obtain ⟨l₃, l₄, rfl⟩ := List.append_of_mem hb
    obtain ⟨c, hc, hmem⟩ : ∃ c, next b = some c ∧ c ∈ l₄ ++ [m] := by
      rcases l₄ with _ | ⟨c, l₄⟩
      · have hseg : IsChain next (some a) (l₃ ++ b :: m :: (t :: l₂)) := by simpa using h
        exact ⟨m, hseg.next_of_not_last, by simp⟩
      · have hseg : IsChain next (some a) (l₃ ++ b :: c :: (l₄ ++ m :: t :: l₂)) := by simpa using h
        exact ⟨c, hseg.next_of_not_last, by simp⟩
    have hct : c ≠ t := by
      rintro rfl
      have happ : (l₃ ++ b :: l₄) ++ m :: c :: l₂ = (l₃ ++ [b]) ++ ((l₄ ++ [m]) ++ c :: l₂) := by
        simp
      rw [happ] at hnodup
      exact (List.nodup_append.mp (List.nodup_append.mp hnodup).2.1).2.2 c hmem c
        List.mem_cons_self rfl
    simp [hc, hct]
  rw [hnone]
  simp [h.next_of_not_last]

/-- If nothing leads to `t`, the walk ends at the last node. -/
theorem advance_before_none [DecidableEq α] {a e t : α} {l : List α}
    (h : IsChain next (some a) (l ++ [e])) (ht : ∀ b ∈ l, next b ≠ some t) {fuel : Nat}
    (hfuel : l.length < fuel) :
    advance next (fun b => (next b).isSome && next b ≠ some t) fuel a = some e := by
  rw [advance_eq h (by simpa using Nat.succ_le_of_lt hfuel), List.find?_append]
  have hnone : l.find? (fun b => !((next b).isSome && decide (next b ≠ some t))) = none := by
    refine List.find?_eq_none.mpr fun b hb => ?_
    obtain ⟨c, hc, _⟩ := h.next_of_mem_init hb
    have hct : c ≠ t := fun hct => ht b hb (hct ▸ hc)
    simp [hc, hct]
  rw [hnone]
  simp [h.next_last]

end Chain
