/-
What the table of kernel symbols remembers: one address for each hash.

A table stands for a map from hashes to addresses.  `export_symbol` updates the map at
the hash of the string and `get_symbol` looks there, whatever the number of buckets is,
so how the hashes share the buckets is never seen.  Nothing else of the string is kept.
Two strings with one hash are one symbol, and short ones exist: `ht` and `nh`.
-/
import OsThing.Kern.Symbols
import OsThing.Lib.KeyedLists

namespace OsThing.Symbols

open Chain

/-- The bucket for a hash. -/
def Bin.slot (bin : Bin) (hash : UInt32) : Nat := (hash % bin.nbuckets).toNat

/-- With the symbols of bucket `i` in the nodes `chain i`, the table is the map `m`. -/
structure Denotes (bin : Bin) (chain : Nat → List Nat) (m : UInt32 → Option UInt32) : Prop where
  nbuckets : bin.nbuckets ≠ 0
  keyed : Keyed bin.symbols Ksymbol.hash bin.slot (fun i => (bin.buckets i).root) chain
  entries : ∀ i, (bin.buckets i).entries = (chain i).length
  map : ∀ hash, (value bin.symbols Ksymbol.hash bin.slot chain hash).map Ksymbol.address = m hash

theorem denotes_init (garbage : Nat → Ksymbol) {size : UInt32} (hsize : 0 < size) :
    Denotes (initSymbolBin garbage size) (fun _ => []) (fun _ => none) where
  nbuckets := fun h => absurd hsize (by rw [show size = 0 from h]; decide)
  keyed := keyed_nil _ _ _
  entries := fun _ => rfl
  map := fun _ => rfl

namespace Denotes

variable {bin : Bin} {chain : Nat → List Nat} {m : UInt32 → Option UInt32}
  (h : Denotes bin chain m)

include h

theorem index (hash : UInt32) : bin.index hash = some (bin.slot hash) := if_neg h.nbuckets

/-- A list has no more nodes than there are in use, so the fuel of the loops suffices. -/
theorem length_le (i : Nat) : (chain i).length ≤ bin.symbols.count :=
  (h.keyed.holds i).1.length_le (h.keyed.holds i).2

/-- A bucket without entries has none of the keys that belong there. -/
theorem map_of_entries {hash : UInt32} (hempty : (bin.buckets (bin.slot hash)).entries = 0) :
    m hash = none := by
  have hnil : chain (bin.slot hash) = [] :=
    List.length_eq_zero_iff.mp ((h.entries _).symm.trans hempty)
  rw [← h.map, value, cellOf, hnil]
  rfl

/-- `get_symbol` looks up the hash of the string in the map. -/
theorem getSymbol (string : CString) :
    getSymbol bin string = some ((m (hashSymbol string)).getD 0) := by
  unfold Symbols.getSymbol
  dsimp only
  rw [h.index, Option.bind_some]
  by_cases hempty : (bin.buckets (bin.slot (hashSymbol string))).entries = 0
  · rw [if_pos hempty, h.map_of_entries hempty]
    rfl
  · rw [if_neg hempty, seek_eq (h.keyed.holds _).1 (h.length_le _), ← h.map]
    show some _ = _
    unfold value
    cases hcell : cellOf bin.symbols Ksymbol.hash bin.slot chain (hashSymbol string) with
    | none =>
        rw [show (chain (bin.slot (hashSymbol string))).find? (bin.hit (hashSymbol string)) = none
          from hcell]
        rfl
    | some ptr =>
        rw [show (chain (bin.slot (hashSymbol string))).find? (bin.hit (hashSymbol string)) =
          some ptr from hcell]
        rfl

end Denotes

/-! ### The loop of `export_symbol` -/

section Loop

variable {bin : Bin} {hash : UInt32}

theorem exportLoop_found {p : Option Nat} {l : List Nat} {ptr : Nat}
    (h : IsChain bin.symbols.next p l) (hfind : l.find? (bin.hit hash) = some ptr) :
    ∀ {fuel newNode}, l.length ≤ fuel →
      exportLoop bin hash fuel p newNode = some (true, some ptr) := by
  induction l generalizing p with
  | nil => cases hfind
  | cons a rest ih =>
      intro fuel newNode hfuel
      obtain ⟨rfl, hrest⟩ := h
      obtain ⟨n, rfl⟩ := Nat.exists_eq_add_of_lt (Nat.lt_of_lt_of_le (Nat.succ_pos _) hfuel)
      simp only [List.length_cons, Nat.zero_add] at hfuel ⊢
      unfold exportLoop
      by_cases hhit : bin.hit hash a
      · rw [List.find?_cons_of_pos hhit] at hfind
        rw [if_pos hhit, hfind]
      · rw [List.find?_cons_of_neg hhit] at hfind
        rw [if_neg hhit]
        exact ih hrest hfind (by omega)

/-- Without a hit the loop has looked at the last node last. -/
theorem exportLoop_last {p : Option Nat} {l : List Nat} {t : Nat}
    (h : IsChain bin.symbols.next p (l ++ [t])) (hmiss : ∀ q ∈ l ++ [t], ¬ bin.hit hash q) :
    ∀ {fuel newNode}, (l ++ [t]).length ≤ fuel →
      exportLoop bin hash fuel p newNode = some (false, some t) := by
  induction l generalizing p with
  | nil =>
      intro fuel newNode hfuel
      obtain ⟨rfl, hend⟩ := h
      obtain ⟨n, rfl⟩ := Nat.exists_eq_add_of_lt (Nat.lt_of_lt_of_le (Nat.succ_pos _) hfuel)
      have hnull : bin.symbols.next t = none := hend
      rw [Nat.zero_add, exportLoop, if_neg (hmiss t List.mem_cons_self), hnull, exportLoop]
  | cons a rest ih =>
      intro fuel newNode hfuel
      obtain ⟨rfl, hrest⟩ := h
      obtain ⟨n, rfl⟩ := Nat.exists_eq_add_of_lt (Nat.lt_of_lt_of_le (Nat.succ_pos _) hfuel)
      rw [Nat.zero_add, exportLoop, if_neg (hmiss a List.mem_cons_self)]
      refine ih hrest (fun q hq => hmiss q (List.mem_cons_of_mem a hq)) ?_
      simp only [List.cons_append, List.length_cons, Nat.zero_add] at hfuel ⊢
      omega

end Loop

/-! ### `export_symbol` -/

/-- The lists after a symbol was put in its bucket. -/
abbrev Bin.addedTo (bin : Bin) (chain : Nat → List Nat) (symbol : Ksymbol) : Nat → List Nat :=
  Keyed.added bin.symbols Ksymbol.hash bin.slot chain symbol

namespace Denotes

variable {bin : Bin} {chain : Nat → List Nat} {m : UInt32 → Option UInt32}
  (h : Denotes bin chain m)

include h

/-- A new symbol whose hash the table does not have, however it gets into its bucket. -/
theorem add {bin' : Bin} (symbol : Ksymbol) (hnbuckets : bin'.nbuckets = bin.nbuckets)
    (hval : bin'.symbols.val = (bin.symbols.alloc symbol).val)
    (hholds : ∀ i, bin'.symbols.Holds (bin'.buckets i).root (bin.addedTo chain symbol i))
    (hentries : ∀ i, (bin'.buckets i).entries = (bin.addedTo chain symbol i).length)
    (hfresh : m symbol.hash = none) :
    Denotes bin' (bin.addedTo chain symbol)
      (Function.update m symbol.hash (some symbol.address)) := by
  have hslot : bin'.slot = bin.slot := by
    funext hash
    rw [Bin.slot, hnbuckets, Bin.slot]
  have hnew : ∀ i, ∀ p ∈ chain i, (bin.symbols.val p).hash ≠ symbol.hash := by
    rw [← h.keyed.cellOf_eq_none]
    have hmap := h.map symbol.hash
    rw [hfresh] at hmap
    exact Option.map_eq_none_iff.mp (Option.map_eq_none_iff.mp hmap)
  refine ⟨hnbuckets ▸ h.nbuckets, ?_, hentries, fun hash => ?_⟩
  · rw [hslot]
    exact h.keyed.add hval hholds hnew
  · rw [hslot, h.keyed.value_add hval hholds hnew]
    by_cases hhash : hash = symbol.hash
    · subst hhash
      simp
    · rw [Function.update_of_ne hhash, Function.update_of_ne hhash]
      exact h.map hash

/-- The number of entries goes up where the new symbol goes. -/
theorem entries_count (symbol : Ksymbol) (root : Option Nat) (i : Nat) :
    ((bin.count (bin.slot symbol.hash) root).buckets i).entries =
      (bin.addedTo chain symbol i).length := by
  by_cases hi : i = bin.slot symbol.hash
  · subst hi
    simp [Bin.count, h.entries]
  · simp [Bin.count, hi, h.entries]

/-- The first symbol of a bucket is its root. -/
theorem exportSymbol_first {string : CString} {address : UInt32}
    (hempty : (bin.buckets (bin.slot (hashSymbol string))).entries = 0) :
    ∃ bin' chain', exportSymbol bin string address = some bin' ∧
      Denotes bin' chain' (Function.update m (hashSymbol string) (some address)) := by
  have hnil : chain (bin.slot (hashSymbol string)) = [] :=
    List.length_eq_zero_iff.mp ((h.entries _).symm.trans hempty)
  unfold exportSymbol
  dsimp only
  rw [h.index, Option.bind_some, if_pos hempty]
  refine ⟨_, _, rfl, h.add ⟨hashSymbol string, address⟩ rfl rfl
    (fun i => ?_) (h.entries_count ⟨hashSymbol string, address⟩ (some bin.symbols.count))
    (h.map_of_entries hempty)⟩
  by_cases hi : i = bin.slot (hashSymbol string)
  · subst hi
    simpa [Bin.count, makeSymbol, hnil] using
      Cells.holds_alloc bin.symbols ⟨hashSymbol string, address⟩
  · simpa [Bin.count, makeSymbol, hi] using (h.keyed.holds i).alloc ⟨hashSymbol string, address⟩

/-- A further symbol of a bucket goes behind its last one. -/
theorem exportSymbol_last {string : CString} {address : UInt32}
    (hentries : (bin.buckets (bin.slot (hashSymbol string))).entries ≠ 0)
    (hfresh : cellOf bin.symbols Ksymbol.hash bin.slot chain (hashSymbol string) = none) :
    ∃ bin' chain', exportSymbol bin string address = some bin' ∧
      Denotes bin' chain' (Function.update m (hashSymbol string) (some address)) := by
  have hne : chain (bin.slot (hashSymbol string)) ≠ [] := fun hnil =>
    hentries ((h.entries _).trans (by rw [hnil]; rfl))
  obtain ⟨l, last, hlast⟩ : ∃ l last, chain (bin.slot (hashSymbol string)) = l ++ [last] :=
    ⟨_, _, (List.dropLast_append_getLast hne).symm⟩
  have hlist := h.keyed.holds (bin.slot (hashSymbol string))
  have hlen := h.length_le (bin.slot (hashSymbol string))
  rw [hlast] at hlist hlen
  have hmiss : ∀ q ∈ l ++ [last], ¬ bin.hit (hashSymbol string) q := by
    rw [← hlast]
    exact List.find?_eq_none.mp hfresh
  have hnone : m (hashSymbol string) = none := by
    rw [← h.map, value, hfresh]
    rfl
  unfold exportSymbol
  dsimp only
  rw [h.index, Option.bind_some, if_neg hentries, exportLoop_last hlist.1 hmiss hlen]
  refine ⟨_, _, rfl, h.add ⟨hashSymbol string, address⟩ rfl rfl (fun i => ?_)
    (h.entries_count ⟨hashSymbol string, address⟩ _) hnone⟩
  by_cases hi : i = bin.slot (hashSymbol string)
  · subst hi
    simpa [Bin.count, makeSymbol, hlast] using hlist.snoc ⟨hashSymbol string, address⟩
  · -- the last node of this bucket is in no other one
    have hnmem : last ∉ chain i := fun hmem => hi <|
      (h.keyed.slots i last hmem).symm.trans <|
        h.keyed.slots (bin.slot (hashSymbol string)) last (by simp [hlast])
    simpa [Bin.count, makeSymbol, hi] using
      ((h.keyed.holds i).alloc ⟨hashSymbol string, address⟩).link hnmem bin.symbols.count

/-- A symbol that is there gets the new address. -/
theorem exportSymbol_over {string : CString} {address : UInt32} {ptr : Nat}
    (hentries : (bin.buckets (bin.slot (hashSymbol string))).entries ≠ 0)
    (hfound : cellOf bin.symbols Ksymbol.hash bin.slot chain (hashSymbol string) = some ptr) :
    ∃ bin' chain', exportSymbol bin string address = some bin' ∧
      Denotes bin' chain' (Function.update m (hashSymbol string) (some address)) := by
  obtain ⟨hmem, hkey⟩ := h.keyed.cellOf_eq_some.mp hfound
  unfold exportSymbol
  dsimp only
  rw [h.index, Option.bind_some, if_neg hentries,
    exportLoop_found (h.keyed.holds _).1 hfound (h.length_le _)]
  have hsame : ({ bin.symbols.val ptr with address } : Ksymbol).hash =
      (bin.symbols.val ptr).hash := rfl
  refine ⟨_, chain, rfl, h.nbuckets, h.keyed.modify (f := fun s => { s with address }) hsame,
    h.entries, fun hash => ?_⟩
  show (value (bin.symbols.modify ptr _) Ksymbol.hash bin.slot chain hash).map _ = _
  rw [h.keyed.value_modify hmem hsame, hkey]
  by_cases hhash : hash = hashSymbol string
  · subst hhash
    simp
  · rw [Function.update_of_ne hhash, Function.update_of_ne hhash]
    exact h.map hash

/-- **`export_symbol` updates the map at the hash of the string.** -/
theorem exportSymbol (string : CString) (address : UInt32) :
    ∃ bin' chain', exportSymbol bin string address = some bin' ∧
      Denotes bin' chain' (Function.update m (hashSymbol string) (some address)) := by
  by_cases hempty : (bin.buckets (bin.slot (hashSymbol string))).entries = 0
  · exact h.exportSymbol_first hempty
  · cases hcell : cellOf bin.symbols Ksymbol.hash bin.slot chain (hashSymbol string) with
    | none => exact h.exportSymbol_last hempty hcell
    | some ptr => exact h.exportSymbol_over hempty hcell

end Denotes

/-! ### Sequences of exports -/

/-- The address of the last export of a string with the hash of `string`, or 0. -/
def latest (exports : List (CString × UInt32)) (string : CString) : UInt32 :=
  ((exports.reverse.find? fun e => decide (hashSymbol e.1 = hashSymbol string)).map
    Prod.snd).getD 0

/-- The map after the exports. -/
def updates (m : UInt32 → Option UInt32) (exports : List (CString × UInt32)) :
    UInt32 → Option UInt32 :=
  exports.foldl (fun m e => Function.update m (hashSymbol e.1) (some e.2)) m

theorem updates_eq (m : UInt32 → Option UInt32) (exports : List (CString × UInt32))
    (hash : UInt32) :
    updates m exports hash =
      ((exports.reverse.find? fun e => decide (hashSymbol e.1 = hash)).map Prod.snd).or
        (m hash) := by
  induction exports generalizing m with
  | nil => rfl
  | cons e rest ih =>
      rw [updates, List.foldl_cons, ← updates, ih, List.reverse_cons, List.find?_append]
      by_cases hhash : hashSymbol e.1 = hash
      · subst hhash
        cases rest.reverse.find? fun e' => decide (hashSymbol e'.1 = hashSymbol e.1) <;> simp
      · rw [Function.update_of_ne (Ne.symm hhash)]
        simp [hhash]

theorem exportAll_denotes {bin : Bin} {chain : Nat → List Nat} {m : UInt32 → Option UInt32}
    (h : Denotes bin chain m) (exports : List (CString × UInt32)) :
    ∃ bin' chain', exportAll bin exports = some bin' ∧ Denotes bin' chain' (updates m exports) := by
  induction exports generalizing bin chain m with
  | nil => exact ⟨bin, chain, rfl, h⟩
  | cons e rest ih =>
      obtain ⟨bin₁, chain₁, hexport, h₁⟩ := h.exportSymbol e.1 e.2
      obtain ⟨bin₂, chain₂, hrest, h₂⟩ := ih h₁
      refine ⟨bin₂, chain₂, ?_, h₂⟩
      rw [exportAll, hexport]
      exact hrest

/-- The map of the exports has the latest ones. -/
theorem Denotes.getSymbol_latest {bin : Bin} {chain : Nat → List Nat}
    {exports : List (CString × UInt32)} (h : Denotes bin chain (updates (fun _ => none) exports))
    (s : CString) : Symbols.getSymbol bin s = some (latest exports s) := by
  rw [h.getSymbol, updates_eq, Option.or_none]
  rfl

/--
**The symbol table is a map from hashes.**  In a table of any size, after any exports,
`get_symbol` finds the address of the last export of a string with the same hash, and 0 if
there was none.  A further export changes what is found for the strings with the hash of the
exported one, and for no other string.
-/
theorem table_maps_hashes (garbage : Nat → Ksymbol) {size : UInt32} (hsize : 0 < size)
    (exports : List (CString × UInt32)) :
    ∃ bin, exportAll (initSymbolBin garbage size) exports = some bin ∧
      (∀ s, getSymbol bin s = some (latest exports s)) ∧
      ∀ t address, ∃ bin', exportSymbol bin t address = some bin' ∧
        ∀ s, getSymbol bin' s =
          if hashSymbol s = hashSymbol t then some address else getSymbol bin s := by
  obtain ⟨bin, chain, hall, h⟩ := exportAll_denotes (denotes_init garbage hsize) exports
  refine ⟨bin, hall, h.getSymbol_latest, fun t address => ?_⟩
  obtain ⟨bin', chain', hexport, h'⟩ := h.exportSymbol t address
  refine ⟨bin', hexport, fun s => ?_⟩
  rw [h'.getSymbol, h.getSymbol]
  split_ifs with hhash
  · rw [hhash, Function.update_self]
    rfl
  · rw [Function.update_of_ne hhash]

/-- One symbol exported to a table of the size that `kmain` makes, and found. -/
theorem table_maps_hashes_ht :
    0 < (128 : UInt32) ∧ ∃ bin,
      exportAll (initSymbolBin (fun _ => ⟨0, 0⟩) 128) [(⟨[104, 116], by decide⟩, 5)] = some bin ∧
      getSymbol bin ⟨[104, 116], by decide⟩ = some 5 := by
  obtain ⟨bin, hall, hget, _⟩ := table_maps_hashes (fun _ => ⟨0, 0⟩)
    (show 0 < (128 : UInt32) by decide) [(⟨[104, 116], by decide⟩, 5)]
  exact ⟨by decide, bin, hall, (hget _).trans (by decide)⟩

/-- After an export of `ht`, `nh` is found too; and exporting `nh` changes what `ht` is. -/
theorem ht_is_nh : ∃ ht nh : CString, ht ≠ nh ∧
    (exportSymbol (initSymbolBin (fun _ => ⟨0, 0⟩) 128) ht 5).bind (getSymbol · nh) = some 5 ∧
    (exportAll (initSymbolBin (fun _ => ⟨0, 0⟩) 128) [(ht, 5), (nh, 7)]).bind (getSymbol · ht) =
      some 7 := by
  refine ⟨⟨[104, 116], by decide⟩, ⟨[110, 104], by decide⟩, ?_, ?_, ?_⟩ <;> decide

end OsThing.Symbols
