/-
The buckets of the symbol table, and how they are counted.

`Denotes` has the lists of the buckets in order: each ends, has as many symbols as `entries`
says, and no two with one hash.  What is left is `used`, which goes up when a bucket gets its
first symbol.  No symbol is ever taken out, so a bucket that was counted stays one that counts:
`exportSymbol_counts` says which of the two an export does.
-/
import OsThing.Proofs.Symbols
import Mathlib.Data.Finset.Card

namespace OsThing.Symbols

open Chain

namespace Bin

/-- The buckets that have a symbol. -/
def filled (bin : Bin) : Finset Nat :=
  (Finset.range bin.nbuckets.toNat).filter fun i => (bin.buckets i).entries ≠ 0

/-- The list of bucket `i` is the nodes `l`. -/
structure Bucketed (bin : Bin) (i : Nat) (l : List Nat) : Prop where
  chain : IsChain bin.symbols.next (bin.buckets i).root l
  entries : (bin.buckets i).entries = l.length
  hashes : (l.map fun p => (bin.symbols.val p).hash).Nodup
  index : ∀ p ∈ l, ((bin.symbols.val p).hash % bin.nbuckets).toNat = i

/-- Every bucket is a list of its own symbols, and `used` counts those that are not empty. -/
structure Shaped (bin : Bin) : Prop where
  buckets : ∀ i < bin.nbuckets.toNat, ∃ l, bin.Bucketed i l
  used : bin.used =
    ((Finset.range bin.nbuckets.toNat).filter fun i => (bin.buckets i).root.isSome).card

variable {bin : Bin}

theorem Bucketed.isSome_root {i : Nat} {l : List Nat} (h : bin.Bucketed i l) :
    (bin.buckets i).root.isSome ↔ (bin.buckets i).entries ≠ 0 := by
  rw [h.entries]
  have hchain := h.chain
  cases hroot : (bin.buckets i).root with
  | none =>
      rw [hroot] at hchain
      obtain rfl := isChain_none.mp hchain
      simp
  | some p =>
      rw [hroot] at hchain
      obtain ⟨rest, rfl, _⟩ := isChain_some.mp hchain
      simp

end Bin

/-! ### The lists -/

theorem Denotes.bucketed {bin : Bin} {chain : Nat → List Nat} {m : UInt32 → Option UInt32}
    (h : Denotes bin chain m) (i : Nat) : bin.Bucketed i (chain i) where
  chain := (h.keyed.holds i).1
  entries := h.entries i
  hashes := by
    refine List.Nodup.map_on ?_ (h.keyed.holds i).1.nodup
    intro p hp q hq heq
    exact h.keyed.keys i p hp q hq heq
  index := h.keyed.slots i

/-! ### The number of buckets that are used -/

/-- **What an export counts.**  It gives an empty bucket its first symbol, or leaves the empty
buckets as they are. -/
theorem exportSymbol_counts {bin bin' : Bin} {string : CString} {address : UInt32}
    (h : exportSymbol bin string address = some bin') :
    bin'.nbuckets = bin.nbuckets ∧
      ((∃ i < bin.nbuckets.toNat, (bin.buckets i).entries = 0 ∧ bin'.used = bin.used + 1 ∧
        ∀ j, (bin'.buckets j).entries = if j = i then 1 else (bin.buckets j).entries) ∨
      (bin'.used = bin.used ∧
        ∀ j, (bin'.buckets j).entries = 0 ↔ (bin.buckets j).entries = 0)) := by
  unfold exportSymbol at h
  obtain ⟨i, hindex, h⟩ := Option.bind_eq_some_iff.mp h
  have hi : i < bin.nbuckets.toNat := by
    unfold Bin.index at hindex
    split at hindex
    · cases hindex
    · rename_i hzero
      obtain rfl := Option.some.inj hindex
      rw [UInt32.toNat_mod]
      exact Nat.mod_lt _ (Nat.pos_of_ne_zero fun hn => hzero (UInt32.toNat_inj.mp hn))
  dsimp only at h
  by_cases hempty : (bin.buckets i).entries = 0
  · rw [if_pos hempty] at h
    obtain rfl := Option.some.inj h
    refine ⟨rfl, Or.inl ⟨i, hi, hempty, rfl, ?_⟩⟩
    intro j
    by_cases hj : j = i
    · subst hj
      simp [Bin.count, makeSymbol, hempty]
    · simp [Bin.count, makeSymbol, hj]
  · rw [if_neg hempty] at h
    obtain ⟨⟨found, newNode⟩, _, h⟩ := Option.bind_eq_some_iff.mp h
    cases newNode with
    | none => cases found <;> cases h
    | some node =>
        cases found with
        | true =>
            obtain rfl := Option.some.inj h
            exact ⟨rfl, Or.inr ⟨rfl, fun _ => Iff.rfl⟩⟩
        | false =>
            obtain rfl := Option.some.inj h
            refine ⟨rfl, Or.inr ⟨rfl, ?_⟩⟩
            intro j
            by_cases hj : j = i
            · subst hj
              simp [Bin.count, makeSymbol, hempty]
            · simp [Bin.count, makeSymbol, hj]

theorem exportSymbol_used {bin bin' : Bin} {string : CString} {address : UInt32}
    (h : exportSymbol bin string address = some bin') (hused : bin.used = bin.filled.card) :
    bin'.used = bin'.filled.card := by
  obtain ⟨hsize, ⟨i, hi, hempty, hone, hentries⟩ | ⟨hsame, hentries⟩⟩ := exportSymbol_counts h
  · have hfilled : bin'.filled = insert i bin.filled := by
      ext j
      simp only [Bin.filled, hsize, hentries, Finset.mem_filter, Finset.mem_insert,
        Finset.mem_range]
      by_cases hj : j = i
      · subst hj
        simp [hi]
      · simp [hj]
    have hnew : i ∉ bin.filled := by
      simp [Bin.filled, hempty]
    rw [hfilled, Finset.card_insert_of_notMem hnew, hone, hused]
  · have hfilled : bin'.filled = bin.filled := by
      simp only [Bin.filled, hsize, ne_eq, hentries]
    rw [hfilled, hsame, hused]

theorem exportAll_used {exports : List (CString × UInt32)} :
    ∀ {bin bin' : Bin}, exportAll bin exports = some bin' → bin.used = bin.filled.card →
      bin'.nbuckets = bin.nbuckets ∧ bin'.used = bin'.filled.card := by
  induction exports with
  | nil =>
      intro bin bin' h hused
      obtain rfl := Option.some.inj h
      exact ⟨rfl, hused⟩
  | cons e rest ih =>
      intro bin bin' h hused
      obtain ⟨bin₁, hexport, hrest⟩ := Option.bind_eq_some_iff.mp h
      obtain ⟨hsize, hused'⟩ := ih hrest (exportSymbol_used hexport hused)
      exact ⟨hsize.trans (exportSymbol_counts hexport).1, hused'⟩

theorem init_used (garbage : Nat → Ksymbol) (size : UInt32) :
    (initSymbolBin garbage size).used = (initSymbolBin garbage size).filled.card := by
  simp [initSymbolBin, Bin.filled]

/--
**Symbol bins keep their shape.**  In a table of any size, after any exports: each bucket is a
list that ends, with `entries` symbols whose hashes differ and belong there; `used` is the
number of buckets that are not empty; and the address last exported under a hash is found.
-/
theorem bins_keep_shape (garbage : Nat → Ksymbol) {size : UInt32} (hsize : 0 < size)
    (exports : List (CString × UInt32)) :
    ∃ bin, exportAll (initSymbolBin garbage size) exports = some bin ∧ bin.nbuckets = size ∧
      bin.Shaped ∧ ∀ s, getSymbol bin s = some (latest exports s) := by
  obtain ⟨bin, chain, hall, h⟩ := exportAll_denotes (denotes_init garbage hsize) exports
  obtain ⟨hnbuckets, hused⟩ := exportAll_used hall (init_used garbage size)
  refine ⟨bin, hall, hnbuckets, ⟨?_, ?_⟩, h.getSymbol_latest⟩
  · intro i _
    exact ⟨chain i, h.bucketed i⟩
  · simp only [(h.bucketed _).isSome_root]
    exact hused

/-- Two symbols in the one bucket of a table of size 1. -/
theorem bins_keep_shape_two :
    0 < (1 : UInt32) ∧ ∃ bin, exportAll (initSymbolBin (fun _ => ⟨0, 0⟩) 1)
      [(⟨[97], by decide⟩, 5), (⟨[98], by decide⟩, 6)] = some bin ∧ bin.Shaped ∧
      getSymbol bin ⟨[98], by decide⟩ = some 6 := by
  obtain ⟨bin, hall, _, hshape, hget⟩ := bins_keep_shape (fun _ => ⟨0, 0⟩)
    (show 0 < (1 : UInt32) by decide) [(⟨[97], by decide⟩, 5), (⟨[98], by decide⟩, 6)]
  exact ⟨by decide, bin, hall, hshape, (hget _).trans (by decide)⟩

end OsThing.Symbols
