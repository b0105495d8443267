/-
What `kmain` finds in the list of file systems.

The nodes are numbered in the order of allocation, and the list runs through all of them.
There is one more than there are registrations: a file system is in the node that was the last
one when it was registered.  So the convention that every call keeps is that the last node is
empty, and the walk of `kmain`, which leaves it out, comes to every file system.
-/
import OsThing.Fs.Registry
import OsThing.Proofs.MountTable

namespace OsThing.Fs

open Chain

variable {δ : Type}

/-- The store of a list on which `fss` were registered, in this order. -/
structure Lists (s : LlistStore δ) (fss : List δ) : Prop where
  chain : IsChain s.next (some 0) (List.range (fss.length + 1))
  count : s.count = fss.length + 1
  data : ∀ i < fss.length, (s.node i).data = fss[i]?
  first : (s.node 0).prev = none
  prev : ∀ i < fss.length, (s.node (i + 1)).prev = some i

theorem Lists.first_node {s : LlistStore δ} (hempty : s.count = 0) :
    s.knew.1 = 0 ∧ Lists s.knew.2 [] := by
  obtain ⟨hzero, hchain, hcount, hnode⟩ := LlistStore.knew_first hempty
  refine ⟨hzero, ⟨hchain, hcount, ?_, ?_, ?_⟩⟩
  · intro i hi
    exact absurd hi (Nat.not_lt_zero i)
  · rw [hnode]
  · intro i hi
    exact absurd hi (Nat.not_lt_zero i)

/-- The old last node gets the file system, and the new one is empty. -/
theorem Lists.add {s : LlistStore δ} {fss : List δ} (h : Lists s fss) (newfs : δ) :
    ∃ p s', s.addNodeEnd (some 0) (some newfs) = some (p, s') ∧ Lists s' (fss ++ [newfs]) := by
  obtain ⟨s', hadd, hcount, hend, hprev, hold, hrest⟩ :=
    s.addNodeEnd_eq (some newfs) h.chain h.count
  refine ⟨_, s', hadd, ?_⟩
  have hlen : (fss ++ [newfs]).length = fss.length + 1 := by simp
  have hkept : ∀ p ≤ fss.length, (s'.node p).prev = (s.node p).prev := by
    intro p hp
    by_cases hlast : p = fss.length
    · rw [hlast, hold]
    · rw [hrest p (by omega)]
  constructor
  · have hchain := h.chain
    rw [List.range_succ] at hchain
    rw [hlen, List.range_succ, List.range_succ, List.append_assoc]
    refine hchain.snoc ?_ hend ?_
    · rw [LlistStore.next, hold]
    · intro p hp
      rw [LlistStore.next, hrest p (List.mem_range.mp hp), LlistStore.next]
  · rw [hlen, hcount]
  · intro i hi
    rw [hlen] at hi
    by_cases hlast : i = fss.length
    · rw [hlast, hold]
      simp
    · rw [hrest i (by omega), h.data i (by omega), List.getElem?_append_left (by omega)]
  · rw [hkept 0 (Nat.zero_le _)]
    exact h.first
  · intro i hi
    rw [hlen] at hi
    by_cases hlast : i = fss.length
    · rw [hlast]
      exact hprev
    · rw [hkept (i + 1) (by omega)]
      exact h.prev i (by omega)

/-- The list after as many registrations; there is none before the first one. -/
def FsRegistered (r : Registry δ) (fss : List δ) : Prop :=
  (fss = [] ∧ r.fileSystemList = none ∧ r.store.count = 0) ∨
    (r.fileSystemList = some 0 ∧ Lists r.store fss)

theorem registerFs_spec {r : Registry δ} {fss : List δ} (h : FsRegistered r fss) (newfs : δ) :
    ∃ r', registerFs r newfs = some r' ∧ r'.fileSystemList = some 0 ∧
      Lists r'.store (fss ++ [newfs]) := by
  have hadds : ∀ s, Lists s fss → ∃ r' : Registry δ,
      ((s.addNodeEnd (some 0) (some newfs)).map fun added => Registry.mk (some 0) added.2) =
        some r' ∧ r'.fileSystemList = some 0 ∧ Lists r'.store (fss ++ [newfs]) := by
    intro s hs
    obtain ⟨p, s', hadd, hlists⟩ := hs.add newfs
    rw [hadd]
    exact ⟨_, rfl, rfl, hlists⟩
  unfold registerFs
  rcases h with ⟨rfl, hnull, hempty⟩ | ⟨hhead, hlists⟩
  · obtain ⟨hfirst, hone⟩ := Lists.first_node hempty
    rw [hnull]
    simpa only [hfirst] using hadds _ hone
  · rw [hhead]
    exact hadds _ hlists

theorem registerAllFs_spec (rest : List δ) : ∀ {r : Registry δ} {fss : List δ},
    FsRegistered r fss → ∃ r', registerAllFs r rest = some r' ∧ FsRegistered r' (fss ++ rest) := by
  induction rest with
  | nil =>
      intro r fss h
      exact ⟨r, rfl, by simpa using h⟩
  | cons newfs rest ih =>
      intro r fss h
      obtain ⟨r₁, hone, hhead, hlists⟩ := registerFs_spec h newfs
      obtain ⟨r₂, hall, h₂⟩ := ih (Or.inr ⟨hhead, hlists⟩ : FsRegistered r₁ (fss ++ [newfs]))
      refine ⟨r₂, ?_, by simpa using h₂⟩
      rw [registerAllFs, hone]
      exact hall

/-! ### The walk -/

/-- The list from `head` on ends, and the links back are those forth, the other way round. -/
def Mirrored (s : LlistStore δ) (head : Nat) : Prop :=
  ∃ nodes, IsChain s.next (some head) nodes ∧ (s.node head).prev = none ∧
    ∀ p ∈ nodes, ∀ q ∈ nodes, s.next p = some q ↔ (s.node q).prev = some p

namespace Lists

variable {s : LlistStore δ} {fss : List δ} (h : Lists s fss)

include h

theorem next_eq {p : Nat} (hp : p < fss.length + 1) :
    s.next p = if p < fss.length then some (p + 1) else none := by
  rw [h.chain.next_getElem? (List.getElem?_range hp)]
  split_ifs with hlast
  · exact List.getElem?_range (by omega)
  · exact List.getElem?_eq_none (by rw [List.length_range]; omega)

theorem mirrored : Mirrored s 0 := by
  refine ⟨_, h.chain, h.first, ?_⟩
  intro p hp q hq
  have hp := List.mem_range.mp hp
  have hq := List.mem_range.mp hq
  rw [h.next_eq hp]
  cases q with
  | zero =>
      rw [h.first]
      split_ifs <;> simp
  | succ q =>
      rw [h.prev q (by omega)]
      split_ifs with hlast
      · simp only [Option.some.injEq, Nat.add_right_cancel_iff]
        omega
      · simp only [Option.some.injEq, false_iff]
        omega

theorem passed_eq : passed s.next s.count 0 = some (List.range fss.length) := by
  have hchain := h.chain
  rw [List.range_succ] at hchain
  refine Chain.passed_eq hchain ?_
  rw [List.length_range, h.count]
  exact Nat.lt_succ_self _

theorem data_eq : (List.range fss.length).map (fun p => (s.node p).data) = fss.map some := by
  refine List.ext_getElem (by simp) ?_
  intro i hi _
  have hi : i < fss.length := by simpa using hi
  simp [h.data i hi, hi]

end Lists

/--
**The file systems are found in the order of their registration.**  After any number of
registrations the list has a head if there was one at all, and from there the loop of `kmain`
comes to just the file systems that were registered, in this order; the links back mirror the
links forth.
-/
theorem registered_in_order (garbage : Nat → LlistNode δ) (fss : List δ) :
    ∃ r, registerAllFs (Registry.boot garbage) fss = some r ∧
      (fss ≠ [] → r.fileSystemList.isSome) ∧
      ∀ head, r.fileSystemList = some head →
        r.walk head = some (fss.map some) ∧ Mirrored r.store head := by
  obtain ⟨r, hall, hreg⟩ := registerAllFs_spec fss
    (Or.inl ⟨rfl, rfl, rfl⟩ : FsRegistered (Registry.boot garbage) [])
  refine ⟨r, hall, ?_, ?_⟩
  · intro hne
    rcases hreg with ⟨hnil, -, -⟩ | ⟨hhead, -⟩
    · exact absurd hnil hne
    · rw [hhead]
      rfl
  · intro head hhead
    rcases hreg with ⟨-, hnull, -⟩ | ⟨hfirst, hlists⟩
    · rw [hnull] at hhead
      cases hhead
    · obtain rfl := Option.some.inj (hfirst.symm.trans hhead)
      refine ⟨?_, hlists.mirrored⟩
      unfold Registry.walk
      rw [hlists.passed_eq]
      exact congrArg some hlists.data_eq

end OsThing.Fs
