/-
The descriptor tables, read back as the processor reads them.

An entry is taken apart into fields when it is set and put together again when the processor
uses it, so the first part is about the bits: a gate leads to the handler that it was set for,
and a segment is the one that was meant, but for its limit, of which 20 bits are kept.  The rest
is about the memory: what the runs of settings in `init_idt` and `init_gdt` leave there, when
the tables do not overlap.

The task state segment has the surprise.  It is cleared, so the map of the ports begins at its
first byte, and its own fields are the bits that say which ports are closed.
-/
import OsThing.Kern.InitTables
import OsThing.Proofs.Interrupts
import OsThing.Proofs.Memcpy

namespace OsThing.InitTables

open Ia32 Interrupts Ram Strings

/-! ### Fields -/

theorem low_half (x : UInt32) : (x &&& 0xffff).toUInt16.toNat = x.toNat % 0x10000 := by
  rw [UInt32.toNat_toUInt16, UInt32.toNat_and]
  show (x.toNat &&& (2 ^ 16 - 1)) % 2 ^ 16 = _
  rw [Nat.and_two_pow_sub_one_eq_mod, Nat.mod_mod]

theorem high_half (x : UInt32) :
    ((x >>> 16) &&& 0xffff).toUInt16.toNat = x.toNat / 0x10000 := by
  have hlt := x.toNat_lt
  rw [low_half, UInt32.toNat_shiftRight]
  show x.toNat >>> 16 % 0x10000 = _
  rw [Nat.shiftRight_eq_div_pow]
  omega

theorem shifted_byte (x : UInt32) {k : UInt32} (hk : k.toNat < 32) :
    ((x >>> k) &&& 0xff).toUInt8.toNat = x.toNat / 2 ^ k.toNat % 0x100 := by
  rw [UInt32.toNat_toUInt8, UInt32.toNat_and, UInt32.toNat_shiftRight]
  show (x.toNat >>> (k.toNat % 32) &&& (2 ^ 8 - 1)) % 2 ^ 8 = _
  rw [Nat.and_two_pow_sub_one_eq_mod, Nat.mod_mod, Nat.mod_eq_of_lt hk,
    Nat.shiftRight_eq_div_pow]

theorem high_nibble (b : UInt8) : (b &&& 0xf0).toNat = b.toNat / 16 * 16 := by
  have hall : ∀ n < 256, (UInt8.ofNat n &&& 0xf0).toNat = n / 16 * 16 := by decide +kernel
  have h := hall b.toNat b.toNat_lt
  rwa [UInt8.ofNat_toNat] at h

/-- The byte that the limit and the flags share. -/
theorem nibbles (a : UInt32) (b : UInt8) :
    (((a >>> 16) &&& 0x0f).toUInt8 ||| (b &&& 0xf0)).toNat =
      a.toNat / 0x10000 % 16 + b.toNat / 16 * 16 := by
  have hlow : ((a >>> 16) &&& 0x0f).toUInt8.toNat = a.toNat / 0x10000 % 16 := by
    rw [UInt32.toNat_toUInt8, UInt32.toNat_and, UInt32.toNat_shiftRight]
    show (a.toNat >>> 16 &&& (2 ^ 4 - 1)) % 2 ^ 8 = _
    rw [Nat.and_two_pow_sub_one_eq_mod, Nat.shiftRight_eq_div_pow]
    omega
  have hsum := Nat.two_pow_add_eq_or_of_lt (i := 4) (b := a.toNat / 0x10000 % 16)
    (Nat.mod_lt _ (by decide)) (b.toNat / 16)
  rw [UInt8.toNat_or, hlow, high_nibble, Nat.or_comm, Nat.mul_comm _ 16, ← hsum]
  exact Nat.add_comm ..

/-- The parts of a word that is put together from bytes. -/
theorem word_fields {x a g h w : Nat} (hx : x < 0x100) (ha : a < 0x100) (hg : g < 0x100)
    (hw : w = x + a * 0x100 + g * 0x10000 + h * 0x1000000) :
    w % 0x100 = x ∧ w / 0x100 % 0x100 = a ∧ w / 0x10000 % 0x10 = g % 0x10 ∧
      w / 0x800000 % 2 = g / 0x80 ∧ w / 0x1000000 = h := by
  omega

/-- The two words of a segment, as numbers. -/
theorem gdtGate_words (base limit : UInt32) (access gran : UInt8) :
    (gdtGate base limit access gran).descriptor.low.toNat =
        limit.toNat % 0x10000 + base.toNat % 0x10000 * 0x10000 ∧
      (gdtGate base limit access gran).descriptor.high.toNat =
        base.toNat / 0x10000 % 0x100 + access.toNat * 0x100 +
          (limit.toNat / 0x10000 % 16 + gran.toNat / 16 * 16) * 0x10000 +
          base.toNat / 0x1000000 * 0x1000000 := by
  have hbase := base.toNat_lt
  have haccess := access.toNat_lt
  have hgran := gran.toNat_lt
  unfold gdtGate GdtEntry.descriptor
  dsimp only
  rw [low_half, low_half, nibbles, shifted_byte base (by decide), shifted_byte base (by decide),
    UInt32.toNat_ofNat', UInt32.toNat_ofNat']
  show _ ∧ (base.toNat / 2 ^ 16 % 0x100 + _ + _ + base.toNat / 2 ^ 24 % 0x100 * _) % _ = _
  omega

/-- **A segment is read back with its base, its access byte and 20 bits of its limit.** -/
theorem gdtGate_spec (base limit : UInt32) (access gran : UInt8) :
    (gdtGate base limit access gran).descriptor.base = base.toNat ∧
      (gdtGate base limit access gran).descriptor.access = access.toNat ∧
      (gdtGate base limit access gran).descriptor.limit =
        if gran.toNat / 0x80 = 1 then limit.toNat % 0x100000 * 0x1000 + 0xfff
        else limit.toNat % 0x100000 := by
  obtain ⟨hlow, hhigh⟩ := gdtGate_words base limit access gran
  have hgran := gran.toNat_lt
  obtain ⟨hmiddle, haccess, hnibble, hbit, htop⟩ := word_fields (Nat.mod_lt _ (by decide))
    access.toNat_lt (by omega) hhigh
  unfold Descriptor.base Descriptor.access Descriptor.limit
  dsimp only
  rw [hmiddle, haccess, hnibble, hbit, htop, hlow]
  refine ⟨by omega, rfl, ?_⟩
  have hlimit : (limit.toNat % 0x10000 + base.toNat % 0x10000 * 0x10000) % 0x10000 +
      (limit.toNat / 0x10000 % 16 + gran.toNat / 16 * 16) % 0x10 * 0x10000 =
      limit.toNat % 0x100000 := by omega
  have hgranularity : (limit.toNat / 0x10000 % 16 + gran.toNat / 16 * 16) / 0x80 =
      gran.toNat / 0x80 := by omega
  rw [hlimit, hgranularity]

/-- **A gate is read back as it was set**, if its flags are those of an interrupt gate. -/
theorem idtGate_spec (base : UInt32) (sel : UInt16) (flags : UInt8) :
    (idtGate base sel flags).descriptor.gate =
      if flags.toNat / 0x80 = 1 ∧ flags.toNat % 0x20 = 0xe then
        some { offset := base, selector := sel, dpl := UInt16.ofNat (flags.toNat / 0x20 % 4) }
      else none := by
  have hbase := base.toNat_lt
  have hsel := sel.toNat_lt
  have hflags := flags.toNat_lt
  have hlow : (idtGate base sel flags).descriptor.low.toNat =
      base.toNat % 0x10000 + sel.toNat * 0x10000 := by
    unfold idtGate IdtEntry.descriptor
    dsimp only
    rw [low_half, UInt32.toNat_ofNat']
    omega
  have hhigh : (idtGate base sel flags).descriptor.high.toNat =
      flags.toNat * 0x100 + base.toNat / 0x10000 * 0x10000 := by
    unfold idtGate IdtEntry.descriptor
    dsimp only
    rw [high_half, UInt32.toNat_ofNat', UInt8.toNat_zero]
    omega
  have haccess : (idtGate base sel flags).descriptor.access = flags.toNat := by
    unfold Descriptor.access
    rw [hhigh]
    omega
  have hoffset : (idtGate base sel flags).descriptor.low.toNat % 0x10000 +
      (idtGate base sel flags).descriptor.high.toNat / 0x10000 * 0x10000 = base.toNat := by
    rw [hlow, hhigh]
    omega
  have hselector : (idtGate base sel flags).descriptor.low.toNat / 0x10000 = sel.toNat := by
    rw [hlow]
    omega
  unfold Descriptor.gate Descriptor.present Descriptor.dpl
  rw [haccess, hoffset, hselector, UInt32.ofNat_toNat, UInt16.ofNat_toNat]
  simp only [beq_iff_eq]

/-! ### The interrupt table -/

/-- The stub of an interrupt, and the ring that may raise it. -/
def vector (n : UInt8) : Option (Stub × UInt16) :=
  if n < 32 then some (.isr n, 0)
  else if n < 48 then some (.irq (n - 32), 0)
  else if n = 48 then some (.isr 48, 0)
  else if n = 80 then some (.isr 80, 3)
  else none

/-- What the calls of `idt_set_gate` say last of a number. -/
def lastGate (n : UInt8) : List (UInt8 × Stub × UInt8) → Option (Stub × UInt8)
  | [] => none
  | (num, g) :: rest => (lastGate n rest).or (if num = n then some g else none)

theorem lastSet_gates (l : Layout) (n : UInt8) : ∀ gates : List (UInt8 × Stub × UInt8),
    lastSet n.toNat (gates.map fun (num, stub, flags) =>
        (num.toNat, (idtGate (l.stub stub) 0x08 flags).descriptor)) =
      (lastGate n gates).map fun (stub, flags) => (idtGate (l.stub stub) 0x08 flags).descriptor := by
  intro gates
  induction gates with
  | nil => rfl
  | cons g rest ih =>
      rw [List.map_cons, lastSet, lastGate, ih, Option.map_or]
      congr 1
      by_cases hg : g.1 = n
      · rw [if_pos hg, if_pos (congrArg UInt8.toNat hg)]
        rfl
      · rw [if_neg hg, if_neg fun h => hg (UInt8.toNat_inj.mp h)]
        rfl

/-- The flags of the gates are those of interrupt gates, closed to outer rings but for one. -/
theorem lastGate_idtGates (n : UInt8) :
    (lastGate n idtGates).map (fun g => (g.1, UInt16.ofNat (g.2.toNat / 0x20 % 4))) = vector n ∧
      (lastGate n idtGates).all fun g => g.2.toNat / 0x80 = 1 ∧ g.2.toNat % 0x20 = 0xe := by
  have hall : ∀ k < 256,
      (lastGate (UInt8.ofNat k) idtGates).map
          (fun g => (g.1, UInt16.ofNat (g.2.toNat / 0x20 % 4))) = vector (UInt8.ofNat k) ∧
        (lastGate (UInt8.ofNat k) idtGates).all fun g =>
          g.2.toNat / 0x80 = 1 ∧ g.2.toNat % 0x20 = 0xe := by decide +kernel
  have h := hall n.toNat n.toNat_lt
  rwa [UInt8.ofNat_toNat] at h

theorem gate_zero {d : Descriptor} (hlow : d.high = 0) : d.gate = none := by
  unfold Descriptor.gate Descriptor.present Descriptor.access
  rw [hlow]
  rfl

/-- **After `init_idt` an interrupt leads to the stub with its number**, and one without a stub
leads nowhere. -/
theorem gate_initIdt (l : Layout) (m : Memory) (n : UInt8) :
    l.gate (l.initIdt m) n = (vector n).map fun (stub, dpl) =>
      { offset := l.stub stub, selector := 0x08, dpl := dpl } := by
  have hn := n.toNat_lt
  obtain ⟨hvector, hflags⟩ := lastGate_idtGates n
  have hindices : ∀ s ∈ idtGates.map fun (num, stub, flags) =>
      (num.toNat, (idtGate (l.stub stub) 0x08 flags).descriptor), 8 * (s.1 + 1) ≤ 2 ^ 32 := by
    intro s hs
    obtain ⟨g, -, rfl⟩ := List.mem_map.mp hs
    have hg := g.1.toNat_lt
    show 8 * (g.1.toNat + 1) ≤ _
    omega
  have hset : descriptor (l.initIdt m) l.idtEntries n.toNat = _ :=
    descriptor_foldl (by omega) _ _ hindices
  unfold Layout.gate
  rw [hset, lastSet_gates, ← hvector]
  cases hlast : lastGate n idtGates with
  | none =>
      refine gate_zero (word_congr (m := fun _ => 0) fun a ha => ?_)
      rw [memset_apply, if_pos]
      exact Span.inside_add l.idtEntries (i := 8 * n.toNat) (n := 8)
        (show 8 * n.toNat + 8 ≤ 8 * 256 by omega) a (high_inside _ a ha)
  | some g =>
      rw [hlast] at hflags
      show (idtGate (l.stub g.1) 0x08 g.2).descriptor.gate = _
      rw [idtGate_spec, if_pos (by simpa using hflags)]
      rfl

/-! ### The task state segment -/

/-- A byte of the segment after a run of stores to its fields. -/
def lastByte (i : Nat) : List (Nat × UInt32) → UInt8 → UInt8
  | [], b => b
  | (offset, v) :: rest, b =>
      lastByte i rest
        (if offset ≤ i ∧ i < offset + 4 then UInt8.ofNat (v.toNat / 0x100 ^ (i - offset)) else b)

variable {l : Layout}

theorem setTss_byte (l : Layout) (m : Memory) {offset i : Nat} (v : UInt32)
    (ho : offset + 4 ≤ tssSize) (hi : i < tssSize) :
    l.setTss m offset v (l.tssEntry + UInt32.ofNat i) =
      if offset ≤ i ∧ i < offset + 4 then UInt8.ofNat (v.toNat / 0x100 ^ (i - offset))
      else m (l.tssEntry + UInt32.ofNat i) := by
  unfold tssSize at ho hi
  have hdist := toNat_sub_add l.tssEntry (l.tssEntry + UInt32.ofNat i) (i := offset) (by omega)
  rw [toNat_add_sub l.tssEntry (i := i) (by omega)] at hdist
  unfold Layout.setTss setWord
  rw [hdist]
  by_cases hin : offset ≤ i ∧ i < offset + 4
  · rw [if_pos hin, show (i + (2 ^ 32 - offset)) % 2 ^ 32 = i - offset by omega,
      if_pos (by omega)]
  · rw [if_neg hin, if_neg (by omega)]

theorem setTss_foldl (l : Layout) {i : Nat} (hi : i < tssSize) :
    ∀ (stores : List (Nat × UInt32)) (m : Memory), (∀ s ∈ stores, s.1 + 4 ≤ tssSize) →
      stores.foldl (fun m s => l.setTss m s.1 s.2) m (l.tssEntry + UInt32.ofNat i) =
        lastByte i stores (m (l.tssEntry + UInt32.ofNat i)) := by
  intro stores
  induction stores with
  | nil => exact fun _ _ => rfl
  | cons s rest ih =>
      intro m hall
      refine (ih _ fun t ht => hall t (List.mem_cons_of_mem _ ht)).trans ?_
      exact congrArg (lastByte i rest) (setTss_byte l m s.2 (hall s (List.mem_cons_self ..)) hi)

/-- The stores to the segment change nothing outside it. -/
theorem setTss_outside {a : UInt32} (ha : ¬ (⟨l.tssEntry, tssSize⟩ : Span).Covers a) :
    ∀ (stores : List (Nat × UInt32)) (m : Memory), (∀ s ∈ stores, s.1 + 4 ≤ tssSize) →
      stores.foldl (fun m s => l.setTss m s.1 s.2) m a = m a := by
  intro stores
  induction stores with
  | nil => exact fun _ _ => rfl
  | cons s rest ih =>
      intro m hall
      refine (ih _ fun t ht => hall t (List.mem_cons_of_mem _ ht)).trans ?_
      refine setWord_outside _ _ fun hcov => ha ?_
      exact Span.inside_add l.tssEntry (hall s (List.mem_cons_self ..)) a hcov

/-- What `write_tss` stores for `init_gdt`, after it has cleared the segment. -/
def tssStores : List (Nat × UInt32) :=
  [(8, 0x10), (4, 0), (76, 0x0b), (92, 0x13), (88, 0x13), (72, 0x13), (84, 0x13), (80, 0x13)]

/-! ### The table of the segments -/

/-- What `init_gdt` says of the segments. -/
def gdtSettings (l : Layout) : List (Nat × Descriptor) :=
  [(0, (gdtGate 0 0 0 0).descriptor), (1, (gdtGate 0 0xffffffff 0x9a 0xcf).descriptor),
    (2, (gdtGate 0 0xffffffff 0x92 0xcf).descriptor),
    (3, (gdtGate 0 0xffffffff 0xfa 0xcf).descriptor),
    (4, (gdtGate 0 0xffffffff 0xf2 0xcf).descriptor),
    (5, (gdtGate l.tssEntry (l.tssEntry + 104) 0xe9 0).descriptor)]

/-- The words that `lgdt` is given. -/
def setGdtPtr (l : Layout) (m : Memory) : Memory :=
  setWord (setHalf m l.gdtPtr 47) (l.gdtPtr + 2) l.gdtEntries

theorem initGdt_eq (l : Layout) (m : Memory) : (l.initGdt m).1 =
    tssStores.foldl (fun m s => l.setTss m s.1 s.2)
      (memset l.tssEntry 0 tssSize (setDescriptors l.gdtEntries (setGdtPtr l m) (gdtSettings l))) :=
  rfl

/-- The table of six descriptors, the words for `lgdt` and the task state segment do not
overlap.  The array of the table has five. -/
structure TablesApart (l : Layout) : Prop where
  table_tss : (⟨l.gdtEntries, 48⟩ : Span).Apart ⟨l.tssEntry, tssSize⟩
  ptr_table : (⟨l.gdtPtr, 6⟩ : Span).Apart ⟨l.gdtEntries, 48⟩
  ptr_tss : (⟨l.gdtPtr, 6⟩ : Span).Apart ⟨l.tssEntry, tssSize⟩

theorem initGdt_outside_tss (l : Layout) (m : Memory) {a : UInt32}
    (ha : ¬ (⟨l.tssEntry, tssSize⟩ : Span).Covers a) : (l.initGdt m).1 a =
      setDescriptors l.gdtEntries (setGdtPtr l m) (gdtSettings l) a := by
  rw [initGdt_eq, setTss_outside ha _ _ (by decide), memset_apply, if_neg ha]

theorem gdtSettings_index (l : Layout) : ∀ s ∈ gdtSettings l, s.1 < 6 := by
  intro s hs
  have hindices : (gdtSettings l).map Prod.fst = List.range 6 := rfl
  exact List.mem_range.mp (hindices ▸ List.mem_map_of_mem hs)

/-- The descriptors of the table, as they were set. -/
theorem initGdt_descriptor (h : TablesApart l) (m : Memory) {n : Nat} (hn : n < 6) :
    descriptor (l.initGdt m).1 l.gdtEntries n =
      (lastSet n (gdtSettings l)).getD (descriptor (setGdtPtr l m) l.gdtEntries n) := by
  have hset : descriptor (setDescriptors l.gdtEntries (setGdtPtr l m) (gdtSettings l)) l.gdtEntries
      n = (lastSet n (gdtSettings l)).getD (descriptor (setGdtPtr l m) l.gdtEntries n) :=
    descriptor_foldl (by omega) (gdtSettings l) (setGdtPtr l m) fun s hs => by
      have := gdtSettings_index l s hs
      omega
  rw [← hset]
  refine descriptor_congr fun a ha => initGdt_outside_tss l m (h.table_tss a ?_)
  exact Span.inside_add l.gdtEntries (i := 8 * n) (n := 8) (by omega) a ha

/-- What `lgdt` loads is the table. -/
theorem initGdt_ptr (h : TablesApart l) (m : Memory) :
    (l.initGdt m).2 = { limit := 47, base := l.gdtEntries } := by
  have hkept : ∀ a, (⟨l.gdtPtr, 6⟩ : Span).Covers a → (l.initGdt m).1 a = setGdtPtr l m a := by
    intro a ha
    rw [initGdt_outside_tss l m (h.ptr_tss a ha)]
    exact setDescriptors_outside 6 (h.ptr_table a ha) _ _ (gdtSettings_index l)
  have hlimit : half (l.initGdt m).1 l.gdtPtr = 47 := by
    refine Eq.trans (half_congr fun a ha => ?_) (half_setHalf m l.gdtPtr 47)
    have ha' : (a - l.gdtPtr).toNat < 2 := ha
    rw [hkept a (show (a - l.gdtPtr).toNat < 6 by omega)]
    refine setWord_outside _ _ fun hcov => ?_
    have hoff := (covers_offset l.gdtPtr a (i := 2) (n := 4) (by decide) (by decide)).mp hcov
    omega
  have hbase : word (l.initGdt m).1 (l.gdtPtr + 2) = l.gdtEntries := by
    refine Eq.trans (word_congr fun a ha => hkept a ?_) (word_setWord ..)
    exact Span.inside_add l.gdtPtr (i := 2) (n := 4) (by decide) a ha
  exact TablePtr.mk.injEq .. ▸ ⟨hlimit, hbase⟩

/-- A segment of 32-bit code or data over the whole address space. -/
structure Flat (d : Descriptor) (dpl : Nat) (kind : Kind) : Prop where
  base : d.base = 0
  limit : d.limit = 0xffffffff
  present : d.present = true
  dpl : d.dpl = dpl
  kind : d.kind = kind
  big : d.big = true

/-- What the access byte says of a descriptor. -/
def accessKind (access : UInt8) : Kind := Descriptor.kind ⟨0, access.toUInt32 <<< 8⟩

theorem kind_gate (base limit : UInt32) (access gran : UInt8) :
    (gdtGate base limit access gran).descriptor.kind = accessKind access := by
  have hgate := (gdtGate_spec base limit access gran).2.1
  have hword : (⟨0, access.toUInt32 <<< 8⟩ : Descriptor).access = access.toNat := by
    have haccess := access.toNat_lt
    unfold Descriptor.access
    dsimp only
    rw [UInt32.toNat_shiftLeft, UInt8.toNat_toUInt32, Nat.shiftLeft_eq]
    show access.toNat * 2 ^ 8 % 2 ^ 32 / 0x100 % 0x100 = access.toNat
    omega
  unfold accessKind Descriptor.kind
  rw [hgate, hword]

theorem flat_gate (access : UInt8) (hpresent : access.toNat / 0x80 = 1) :
    Flat (gdtGate 0 0xffffffff access 0xcf).descriptor (access.toNat / 0x20 % 4)
      (accessKind access) := by
  obtain ⟨hbase, haccess, hlimit⟩ := gdtGate_spec 0 0xffffffff access 0xcf
  obtain ⟨-, hhigh⟩ := gdtGate_words 0 0xffffffff access 0xcf
  refine ⟨hbase, hlimit, ?_, ?_, kind_gate .., ?_⟩
  · rw [Descriptor.present, haccess, hpresent]
    rfl
  · rw [Descriptor.dpl, haccess]
  · have hbyte := access.toNat_lt
    have hbig : (gdtGate 0 0xffffffff access 0xcf).descriptor.high.toNat / 0x400000 % 2 = 1 := by
      rw [hhigh]
      show (0 / 0x10000 % 0x100 + access.toNat * 0x100 + (4294967295 / 0x10000 % 16 + 207 / 16 * 16) *
        0x10000 + 0 / 0x1000000 * 0x1000000) / 0x400000 % 2 = 1
      omega
    rw [Descriptor.big, hbig]
    rfl

/-- The segment of a task state, which ring 3 may use too. -/
structure IsTss (d : Descriptor) (base : UInt32) (limit : Nat) : Prop where
  base : d.base = base.toNat
  limit : d.limit = limit
  present : d.present = true
  dpl : d.dpl = 3
  kind : d.kind = .tss false

theorem tss_descriptor (h : TablesApart l) (m : Memory) :
    IsTss (descriptor (l.initGdt m).1 l.gdtEntries 5) l.tssEntry
      ((l.tssEntry.toNat + 104) % 0x100000) := by
  obtain ⟨hbase, haccess, hlimit⟩ := gdtGate_spec l.tssEntry (l.tssEntry + 104) 0xe9 0
  rw [initGdt_descriptor h m (by decide)]
  refine ⟨hbase, hlimit.trans ?_, ?_, ?_, (kind_gate ..).trans (by decide)⟩
  · rw [if_neg (by decide), UInt32.toNat_add]
    show (l.tssEntry.toNat + 104) % 2 ^ 32 % 0x100000 = _
    omega
  · exact congrArg (fun access : Nat => access / 0x80 == 1) haccess
  · exact congrArg (fun access : Nat => access / 0x20 % 4) haccess

/-- The addresses in the examples. -/
def exampleLayout : Layout where
  gdtEntries := 0x1000
  gdtPtr := 0x1800
  idtEntries := 0x2000
  tssEntry := 0x3000
  stub := fun s => 0x100000 + 16 * s.number.toUInt32

theorem exampleLayout_apart : TablesApart exampleLayout := by
  refine ⟨fun a h h' => ?_, fun a h h' => ?_, fun a h h' => ?_⟩
  · have hi := (covers_offset 0 a (i := 0x1000) (n := 48) (by decide) (by decide)).mp h
    have hi' := (covers_offset 0 a (i := 0x3000) (n := 104) (by decide) (by decide)).mp h'
    omega
  · have hi := (covers_offset 0 a (i := 0x1800) (n := 6) (by decide) (by decide)).mp h
    have hi' := (covers_offset 0 a (i := 0x1000) (n := 48) (by decide) (by decide)).mp h'
    omega
  · have hi := (covers_offset 0 a (i := 0x1800) (n := 6) (by decide) (by decide)).mp h
    have hi' := (covers_offset 0 a (i := 0x3000) (n := 104) (by decide) (by decide)).mp h'
    omega

/-- **The segments after `init_gdt`**: behind the null descriptor code that can be read and data
that can be written, of ring 0 and of ring 3 over the whole address space, and the task state
segment.  The limit of that one is the address behind it, of which 20 bits are left, and its
descriptor lies behind the array. -/
theorem gdt_segments (h : TablesApart l) (m : Memory) :
    (l.initGdt m).2 = { limit := 47, base := l.gdtEntries } ∧
      descriptor (l.initGdt m).1 l.gdtEntries 0 = ⟨0, 0⟩ ∧
      Flat (descriptor (l.initGdt m).1 l.gdtEntries 1) 0 (.code false true) ∧
      Flat (descriptor (l.initGdt m).1 l.gdtEntries 2) 0 (.data false true) ∧
      Flat (descriptor (l.initGdt m).1 l.gdtEntries 3) 3 (.code false true) ∧
      Flat (descriptor (l.initGdt m).1 l.gdtEntries 4) 3 (.data false true) ∧
      IsTss (descriptor (l.initGdt m).1 l.gdtEntries 5) l.tssEntry
        ((l.tssEntry.toNat + 104) % 0x100000) ∧
      ∀ a, ¬ (⟨l.gdtPtr, 6⟩ : Span).Covers a → ¬ (⟨l.gdtEntries, 48⟩ : Span).Covers a →
        ¬ (⟨l.tssEntry, tssSize⟩ : Span).Covers a → (l.initGdt m).1 a = m a := by
  refine ⟨initGdt_ptr h m, ?_, ?_, ?_, ?_, ?_, tss_descriptor h m, ?_⟩
  · rw [initGdt_descriptor h m (by decide)]
    exact (by decide : (gdtGate 0 0 0 0).descriptor = ⟨0, 0⟩)
  · rw [initGdt_descriptor h m (by decide)]
    exact flat_gate 0x9a rfl
  · rw [initGdt_descriptor h m (by decide)]
    exact flat_gate 0x92 rfl
  · rw [initGdt_descriptor h m (by decide)]
    exact flat_gate 0xfa rfl
  · rw [initGdt_descriptor h m (by decide)]
    exact flat_gate 0xf2 rfl
  · intro a hptr htable htss
    rw [initGdt_outside_tss l m htss,
      setDescriptors_outside 6 htable _ _ (gdtSettings_index l)]
    have hbase : ¬ (⟨l.gdtPtr + 2, 4⟩ : Span).Covers a := fun hcov =>
      hptr (Span.inside_add l.gdtPtr (i := 2) (n := 4) (by decide) a hcov)
    have hlimit : ¬ (⟨l.gdtPtr, 2⟩ : Span).Covers a := fun hcov => by
      have hlt : (a - l.gdtPtr).toNat < 2 := hcov
      exact hptr (show (a - l.gdtPtr).toNat < 6 by omega)
    exact (setWord_outside _ _ hbase).trans (setHalf_outside _ _ hlimit)

theorem gdt_segments_example : Flat
    (descriptor (exampleLayout.initGdt fun _ => 0).1 exampleLayout.gdtEntries 3) 3
      (.code false true) ∧
    IsTss (descriptor (exampleLayout.initGdt fun _ => 0).1 exampleLayout.gdtEntries 5) 0x3000
      0x3068 :=
  have h := gdt_segments exampleLayout_apart fun _ => 0
  ⟨h.2.2.2.2.1, h.2.2.2.2.2.2.1⟩

/-! ### The ports of ring 3 -/

/-- The stores to the segment, with the one of `set_kernel_stack`. -/
theorem kernelStack_byte (l : Layout) (m : Memory) (stack : UInt32) {i : Nat} (hi : i < tssSize) :
    l.setKernelStack stack (l.initGdt m).1 (l.tssEntry + UInt32.ofNat i) =
      lastByte i (tssStores ++ [(4, stack)]) 0 := by
  have hstores : l.setKernelStack stack (l.initGdt m).1 =
      (tssStores ++ [(4, stack)]).foldl (fun m (s : Nat × UInt32) => l.setTss m s.1 s.2)
        (memset l.tssEntry 0 tssSize
          (setDescriptors l.gdtEntries (setGdtPtr l m) (gdtSettings l))) := rfl
  have hindices : ∀ s : Nat × UInt32, s ∈ tssStores ++ [(4, stack)] → s.1 + 4 ≤ tssSize := by
    intro s hs
    rcases List.mem_append.mp hs with hs | hs
    · exact (show ∀ s ∈ tssStores, s.1 + 4 ≤ tssSize by decide) s hs
    · rw [List.mem_singleton.mp hs]
      exact (show 4 + 4 ≤ 104 by decide)
  rw [hstores, setTss_foldl l hi _ _ hindices, memset_apply,
    if_pos (covers_ofNat l.tssEntry hi (Nat.lt_trans hi (by decide)))]

/-- The last store is the one of the kernel stack. -/
theorem lastByte_append (i : Nat) (s : Nat × UInt32) :
    ∀ (stores : List (Nat × UInt32)) (b : UInt8), lastByte i (stores ++ [s]) b =
      if s.1 ≤ i ∧ i < s.1 + 4 then UInt8.ofNat (s.2.toNat / 0x100 ^ (i - s.1))
      else lastByte i stores b := by
  intro stores
  induction stores with
  | nil => exact fun _ => rfl
  | cons t rest ih => exact fun b => ih _

/-- The ports that are closed to ring 3 because a field of the segment has their bit. -/
def closedPorts : List Nat :=
  [68, 576, 577, 580, 608, 609, 611, 640, 641, 644, 672, 673, 676, 704, 705, 708, 736, 737, 740]

theorem testBit_byte (v : UInt32) (k : Nat) {j : Nat} (hj : j < 8) :
    (UInt8.ofNat (v.toNat / 0x100 ^ k)).toNat.testBit j = v.toNat.testBit (8 * k + j) := by
  rw [UInt8.toNat_ofNat', show 0x100 ^ k = 2 ^ (8 * k) by rw [Nat.pow_mul],
    Nat.testBit_mod_two_pow, Nat.testBit_div_two_pow, Nat.add_comm]
  simp [hj]

/-- **Which ports ring 3 may use**, of those whose bits lie in the task state segment: all but
the ones whose bits are set in a segment register or in the kernel stack pointer. -/
theorem user_ports (h : TablesApart l) (m : Memory) (stack : UInt32)
    (hlimit : 103 ≤ (l.tssEntry.toNat + 104) % 0x100000) (port : UInt16)
    (hport : port.toNat < 824) :
    portOpen (l.setKernelStack stack (l.initGdt m).1) l.tssEntry
        (descriptor (l.initGdt m).1 l.gdtEntries 5).limit port = true ↔
      port.toNat ∉ closedPorts ∧
        ¬ (32 ≤ port.toNat ∧ port.toNat < 64 ∧ stack.toNat.testBit (port.toNat - 32) = true) := by
  have hmap : half (l.setKernelStack stack (l.initGdt m).1) (l.tssEntry + 102) = 0 := by
    have hlow := kernelStack_byte l m stack (i := 102) (by decide)
    have hhigh := kernelStack_byte l m stack (i := 103) (by decide)
    rw [lastByte_append, if_neg (show ¬ (4 ≤ 102 ∧ 102 < 4 + 4) by decide)] at hlow
    rw [lastByte_append, if_neg (show ¬ (4 ≤ 103 ∧ 103 < 4 + 4) by decide)] at hhigh
    unfold half
    rw [show l.tssEntry + 102 + 1 = l.tssEntry + UInt32.ofNat 103 by
      rw [UInt32.add_assoc]; rfl, hhigh,
      show l.setKernelStack stack (l.initGdt m).1 (l.tssEntry + 102) = _ from hlow]
    decide
  have hbyte := kernelStack_byte l m stack (i := port.toNat / 8) (by unfold tssSize; omega)
  have hconst : ∀ p < 824, ¬ (32 ≤ p ∧ p < 64) →
      ((lastByte (p / 8) tssStores 0).toNat.testBit (p % 8) = true ↔ p ∈ closedPorts) := by
    decide +kernel
  have hnone : ∀ p ∈ closedPorts, ¬ (32 ≤ p ∧ p < 64) := by decide
  unfold portOpen
  dsimp only
  rw [hmap, (tss_descriptor h m).2, show (0 : UInt16).toNat + port.toNat / 8 = port.toNat / 8 by simp,
    hbyte, lastByte_append]
  rw [decide_eq_true (show port.toNat / 8 + 1 ≤ _ by omega), Bool.true_and]
  by_cases hstack : 32 ≤ port.toNat ∧ port.toNat < 64
  · rw [if_pos (show 4 ≤ port.toNat / 8 ∧ port.toNat / 8 < 4 + 4 by omega),
      testBit_byte stack _ (Nat.mod_lt _ (by decide)),
      show 8 * (port.toNat / 8 - 4) + port.toNat % 8 = port.toNat - 32 by omega]
    have hopen : port.toNat ∉ closedPorts := fun hmem => hnone _ hmem hstack
    simp [hopen, hstack]
  · rw [if_neg (show ¬ (4 ≤ port.toNat / 8 ∧ port.toNat / 8 < 4 + 4) by omega)]
    have hbit := hconst port.toNat hport hstack
    have hfree : ¬ (32 ≤ port.toNat ∧ port.toNat < 64 ∧
        stack.toNat.testBit (port.toNat - 32) = true) := fun hall => hstack ⟨hall.1, hall.2.1⟩
    rw [← hbit]
    simp [hfree]

/-- The keyboard may be read by a program. -/
theorem user_ports_keyboard : portOpen
    (exampleLayout.setKernelStack 0xd0004000 (exampleLayout.initGdt fun _ => 0).1)
    exampleLayout.tssEntry
    (descriptor (exampleLayout.initGdt fun _ => 0).1 exampleLayout.gdtEntries 5).limit 0x60 = true :=
  (user_ports exampleLayout_apart (fun _ => 0) 0xd0004000 (by decide) 0x60 (by decide)).mpr
    (by decide)

end OsThing.InitTables
