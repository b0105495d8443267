/-
What is left of a mount table after any number of registrations.

The nodes of the list are the head, which no registration ever fills, and one node for
each registration after it, in order.  `Held` says what they hold: the ids are right
and stay right, and so does the chain, but each call to `l_add_node_end` clears the
data of the node that was last before it.  So the last registration is the only one
that can still be looked up, and every other id leads to what lies at address 0.
-/
import OsThing.Fs.Mount
import Mathlib.Data.List.Range
import Mathlib.Data.List.Nodup

namespace OsThing.Fs

open Chain

namespace LlistStore

variable {δ : Type} (s : LlistStore δ)

@[simp] theorem set_count (p : Nat) (n : LlistNode δ) : (s.set p n).count = s.count := rfl

@[simp] theorem set_node_self (p : Nat) (n : LlistNode δ) : (s.set p n).node p = n :=
  Function.update_self ..

theorem set_node_ne {p q : Nat} (h : q ≠ p) (n : LlistNode δ) : (s.set p n).node q = s.node q :=
  Function.update_of_ne h ..

theorem set_next_self (p : Nat) (n : LlistNode δ) : (s.set p n).next p = n.next := by
  simp [next]

/-- `l_add_node_end` on a list that runs through the whole store: the old last node is
linked to the new one and gets the data. -/
theorem addNodeEnd_eq {last : Nat} (data : Option δ)
    (hchain : IsChain s.next (some 0) (List.range (last + 1))) (hcount : s.count = last + 1) :
    ∃ s', s.addNodeEnd (some 0) data = some (last + 1, s') ∧ s'.count = last + 2 ∧
      (s'.node (last + 1)).next = none ∧ (s'.node (last + 1)).prev = some last ∧
      s'.node last = { s.node last with next := some (last + 1), data := data } ∧
      ∀ p < last, s'.node p = s.node p := by
  rw [List.range_succ] at hchain
  have hlast : advance s.next (fun p => (s.next p).isSome) s.count 0 = some last :=
    advance_last hchain (by rw [List.length_range, hcount]; exact Nat.lt_succ_self _)
  refine ⟨_, by rw [addNodeEnd, hlast, hcount.symm]; rfl, ?_, ?_, ?_, ?_, fun p hp => ?_⟩
  · simp [set, hcount]
  · simp [set, Function.update, hcount]
  · simp [set, Function.update, hcount]
  · simp [set, Function.update, hcount]
  · have hne : p ≠ last := by omega
    have hne' : p ≠ last + 1 := by omega
    simp [set, Function.update, hcount, hne, hne']

end LlistStore

/-! ### What the list holds -/

/-- The store of a mount list on which the nodes `ns` were registered, in this order. -/
structure Held (s : LlistStore FileNode) (ns : List FileNode) : Prop where
  /-- The list runs through every node there is, in order of allocation. -/
  chain : IsChain s.next (some 0) (List.range (ns.length + 1))
  count : s.count = ns.length + 1
  headVal : (s.node 0).val = 0
  val : ∀ i < ns.length, (s.node (i + 1)).val = i + 2
  /-- Only the last entry still has its data. -/
  data : ∀ i < ns.length, (s.node (i + 1)).data = if i + 1 = ns.length then ns[i]? else none

/-- The table after as many registrations: there is no list before the first one. -/
structure Registered (t : MountTable) (ns : List FileNode) : Prop where
  ids : t.mountIds = ns.length + 1
  list : (ns = [] ∧ t.mountList = none ∧ t.store.count = 0) ∨
    (t.mountList = some 0 ∧ Held t.store ns)

theorem Registered.boot (garbage : Nat → LlistNode FileNode) :
    Registered (MountTable.boot garbage) [] :=
  ⟨rfl, Or.inl ⟨rfl, rfl, rfl⟩⟩

/-- The first node of all is a list by itself, and empty. -/
theorem LlistStore.knew_first {δ : Type} {s : LlistStore δ} (hempty : s.count = 0) :
    s.knew.1 = 0 ∧ IsChain s.knew.2.next (some 0) [0] ∧ s.knew.2.count = 1 ∧
      s.knew.2.node 0 = ⟨none, none, none, 0⟩ := by
  have hnode : s.knew.2.node 0 = ⟨none, none, none, 0⟩ := by
    simp [LlistStore.knew, hempty]
  refine ⟨hempty, ⟨rfl, ?_⟩, ?_, hnode⟩
  · show s.knew.2.next 0 = none
    simp [LlistStore.next, hnode]
  · show s.count + 1 = 1
    rw [hempty]

theorem Held.first {s : LlistStore FileNode} (hempty : s.count = 0) :
    s.knew.1 = 0 ∧ Held s.knew.2 [] := by
  obtain ⟨hzero, hchain, hcount, hnode⟩ := LlistStore.knew_first hempty
  refine ⟨hzero, ⟨hchain, hcount, ?_, ?_, ?_⟩⟩
  · rw [hnode]
  · exact fun i hi => absurd hi (Nat.not_lt_zero i)
  · exact fun i hi => absurd hi (Nat.not_lt_zero i)

/-- One more registration: its own entry is right, and the one before it is cleared. -/
theorem Held.add {s : LlistStore FileNode} {ns : List FileNode} (h : Held s ns) (n : FileNode) :
    ∃ p s', s.addNodeEnd (some 0) none = some (p, s') ∧
      Held (s'.set p { s'.node p with data := some n, val := ns.length + 2 }) (ns ++ [n]) := by
  obtain ⟨s', hadd, hcount, hend, -, hold, hrest⟩ := s.addNodeEnd_eq none h.chain h.count
  refine ⟨_, s', hadd, ?_⟩
  have hlen : (ns ++ [n]).length = ns.length + 1 := by simp
  have hsame : ∀ p ≤ ns.length,
      (s'.set (ns.length + 1) { s'.node (ns.length + 1) with
        data := some n, val := ns.length + 2 }).node p = s'.node p :=
    fun p hp => s'.set_node_ne (by omega) _
  constructor
  · have hchain := h.chain
    rw [List.range_succ] at hchain
    rw [hlen, List.range_succ, List.range_succ, List.append_assoc]
    refine hchain.snoc ?_ ?_ fun p hp => ?_
    · rw [LlistStore.next, hsame _ le_rfl, hold]
    · rw [LlistStore.set_next_self]
      exact hend
    · have hp' : p < ns.length := List.mem_range.mp hp
      rw [LlistStore.next, hsame p hp'.le, hrest p hp', LlistStore.next]
  · simp [hcount]
  · rw [hsame 0 (Nat.zero_le _)]
    by_cases hns : ns.length = 0
    · rw [← hns, hold, hns]
      exact h.headVal
    · rw [hrest 0 (Nat.pos_of_ne_zero hns)]
      exact h.headVal
  · intro i hi
    rw [hlen] at hi
    rcases Nat.lt_succ_iff_lt_or_eq.mp hi with hlt | rfl
    · rw [hsame (i + 1) hlt]
      by_cases hl : i + 1 = ns.length
      · rw [hl, hold, ← hl]
        exact h.val i hlt
      · rw [hrest _ (by omega)]
        exact h.val i hlt
    · simp
  · intro i hi
    rw [hlen] at hi ⊢
    rcases Nat.lt_succ_iff_lt_or_eq.mp hi with hlt | rfl
    · rw [hsame (i + 1) hlt, if_neg (by omega)]
      by_cases hl : i + 1 = ns.length
      · rw [hl, hold]
      · rw [hrest _ (by omega), h.data i hlt, if_neg hl]
    · simp

/-! ### Any number of registrations -/

/-- **One registration.**  It returns the next id and never fails. -/
theorem registerMountNode_spec {t : MountTable} {ns : List FileNode} (h : Registered t ns)
    (n : FileNode) :
    ∃ t', registerMountNode t n = some (ns.length + 2, t') ∧ Registered t' (ns ++ [n]) := by
  have key : ∀ s, Held s ns →
      ∃ t', ((s.addNodeEnd (some 0) none).map fun added =>
          (t.mountIds + 1, MountTable.mk (some 0)
            (added.2.set added.1 { added.2.node added.1 with
              data := some n, val := t.mountIds + 1 })
            (t.mountIds + 1))) = some (ns.length + 2, t') ∧ Registered t' (ns ++ [n]) := by
    intro s hs
    obtain ⟨p, s', hadd, hheld⟩ := hs.add n
    rw [hadd, h.ids]
    exact ⟨_, rfl, by simp, Or.inr ⟨rfl, hheld⟩⟩
  unfold registerMountNode
  rcases h.list with ⟨rfl, hnull, hempty⟩ | ⟨hlist, hheld⟩
  · obtain ⟨hhead, hfirst⟩ := Held.first hempty
    obtain ⟨t', ht', hreg⟩ := key _ hfirst
    refine ⟨t', ?_, hreg⟩
    rw [hnull]
    simpa only [hhead] using ht'
  · obtain ⟨t', ht', hreg⟩ := key _ hheld
    exact ⟨t', by rw [hlist]; exact ht', hreg⟩

/-- The ids count up from where the table stands. -/
theorem registerAll_spec (nodes : List FileNode) :
    ∀ {t : MountTable} {ns : List FileNode}, Registered t ns →
      ∃ t', registerAll t nodes = some (List.range' (ns.length + 2) nodes.length, t') ∧
        Registered t' (ns ++ nodes) := by
  induction nodes with
  | nil => intro t ns h; exact ⟨t, rfl, by simpa using h⟩
  | cons n rest ih =>
      intro t ns h
      obtain ⟨t₁, hone, h₁⟩ := registerMountNode_spec h n
      obtain ⟨t₂, hrest, h₂⟩ := ih h₁
      refine ⟨t₂, ?_, by simpa using h₂⟩
      simp [registerAll, hone, hrest, List.range'_succ]

/-- What the id of the `i`-th registration leads to once all of them are made. -/
theorem getMountNode_eq {t : MountTable} {ns : List FileNode} (h : Registered t ns) {i : Nat}
    (hi : i < ns.length) (zeroPage nodebuf : FileNode) :
    getMountNode zeroPage t (i + 2) nodebuf =
      some (1, if i + 1 = ns.length then ns[i] else zeroPage) := by
  rcases h.list with ⟨rfl, -, -⟩ | ⟨hlist, hheld⟩
  · exact absurd hi (Nat.not_lt_zero i)
  have hfind : (List.range (ns.length + 1)).find?
      (fun p => decide ((t.store.node p).val = i + 2)) = some (i + 1) := by
    refine List.find?_range_eq_some.mpr ⟨by simpa using hheld.val i hi, by simpa using hi, ?_⟩
    intro j hj
    rcases j with _ | j
    · simp [hheld.headVal]
    · rw [hheld.val j (by omega)]
      simp
      omega
  unfold getMountNode
  rw [hlist, seek_eq hheld.chain (by rw [hheld.count, List.length_range]), hfind]
  simp only [Option.map_some, hheld.data i hi]
  split
  · simp [hi]
  · rfl

/-- Registering at boot: the ids, and what each of them leads to at the end. -/
theorem registerAll_boot (garbage : Nat → LlistNode FileNode) (nodes : List FileNode) :
    ∃ t, registerAll (MountTable.boot garbage) nodes = some (List.range' 2 nodes.length, t) ∧
      ∀ i (hi : i < nodes.length) (zeroPage nodebuf : FileNode),
        getMountNode zeroPage t (i + 2) nodebuf =
          some (1, if i + 1 = nodes.length then nodes[i] else zeroPage) := by
  obtain ⟨t, hall, hreg⟩ := registerAll_spec nodes (Registered.boot garbage)
  exact ⟨t, hall, fun i hi zeroPage nodebuf => getMountNode_eq hreg hi zeroPage nodebuf⟩

private theorem getElem?_ids {n i : Nat} (hi : i < n) : (List.range' 2 n)[i]? = some (i + 2) := by
  rw [List.getElem?_range' hi, Nat.one_mul, Nat.add_comm]

/-! ### Looking all of them up -/

/-- Registering `nodes` at boot gives distinct ids, and each id leads back to its node. -/
def MountsKept (zeroPage : FileNode) (garbage : Nat → LlistNode FileNode)
    (nodes : List FileNode) : Prop :=
  ∃ ids t, registerAll (MountTable.boot garbage) nodes = some (ids, t) ∧
    ids.length = nodes.length ∧ ids.Nodup ∧
    ∀ (i id : Nat) (node : FileNode), ids[i]? = some id → nodes[i]? = some node →
      ∀ nodebuf, getMountNode zeroPage t id nodebuf = some (1, node)

/-- Every registration but the last one is forgotten: its id leads to address 0. -/
theorem MountsKept.eq_zeroPage {zeroPage : FileNode} {garbage : Nat → LlistNode FileNode}
    {nodes : List FileNode} (h : MountsKept zeroPage garbage nodes) {i : Nat}
    (hi : i + 1 < nodes.length) : nodes[i] = zeroPage := by
  obtain ⟨ids, t, hall, -, -, hget⟩ := h
  obtain ⟨t', hall', hlookup⟩ := registerAll_boot garbage nodes
  obtain ⟨rfl, rfl⟩ := Prod.mk.inj (Option.some.inj (hall.symm.trans hall'))
  have hlt : i < nodes.length := Nat.lt_of_succ_lt hi
  have hnode := hget i (i + 2) nodes[i] (getElem?_ids hlt) (List.getElem?_eq_getElem hlt) zeroPage
  rw [hlookup i hlt, if_neg (Nat.ne_of_lt hi)] at hnode
  exact (congrArg Prod.snd (Option.some.inj hnode)).symm

/--
**When the mount table is a table.**  The ids are always distinct and every lookup
answers, but only the last one with what was registered: the property holds exactly
when each node before the last is the very node that lies at address 0.  With at most
one registration there is no such node.
-/
theorem mounts_kept_iff (zeroPage : FileNode) (garbage : Nat → LlistNode FileNode)
    (nodes : List FileNode) :
    MountsKept zeroPage garbage nodes ↔ ∀ node ∈ nodes.dropLast, node = zeroPage := by
  constructor
  · intro h node hmem
    obtain ⟨i, hi, rfl⟩ := List.mem_iff_getElem.mp hmem
    rw [List.length_dropLast] at hi
    rw [List.getElem_dropLast]
    exact h.eq_zeroPage (by omega)
  · intro h
    obtain ⟨t, hall, hlookup⟩ := registerAll_boot garbage nodes
    refine ⟨_, t, hall, by simp, List.nodup_range', ?_⟩
    intro i id node hid hnode nodebuf
    obtain ⟨hi, rfl⟩ := List.getElem?_eq_some_iff.mp hnode
    obtain rfl := Option.some.inj ((getElem?_ids hi).symm.trans hid)
    rw [hlookup i hi]
    by_cases hlast : i + 1 = nodes.length
    · rw [if_pos hlast]
    · have hmem : nodes[i] ∈ nodes.dropLast :=
        List.mem_iff_getElem.mpr ⟨i, by simp; omega, by simp⟩
      rw [if_neg hlast, h _ hmem]

/-- Two file systems are mounted on `/dev` and `/mnt`, with nothing at address 0: the
first of the two is lost. -/
theorem mounts_lost : ¬ MountsKept ⟨0, 0⟩ (fun _ => ⟨none, none, none, 0⟩)
    [⟨2, 0xc0200004⟩, ⟨3, 0xc0200004⟩] := fun h =>
  absurd (h.eq_zeroPage (Nat.lt_succ_self 1)) (by decide)

end OsThing.Fs
