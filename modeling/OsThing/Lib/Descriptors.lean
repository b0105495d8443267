/-
Tables of descriptors, as a 32-bit x86 processor reads them.

A descriptor has eight bytes, that are taken as two words.  A table is read at eight times the
index, so descriptors with different indices do not overlap as long as the table does not reach
around the address space.  What a table holds after a run of settings is what the last setting
of an index says: `descriptor_foldl`.
-/
import OsThing.Lib.Ia32

namespace Ia32

open Ram

/-- The half word at an address. -/
def half (m : Memory) (a : UInt32) : UInt16 :=
  UInt16.ofNat ((m a).toNat + 0x100 * (m (a + 1)).toNat)

def setHalf (m : Memory) (a : UInt32) (v : UInt16) : Memory :=
  fun b => if (b - a).toNat < 2 then UInt8.ofNat (v.toNat / 0x100 ^ (b - a).toNat) else m b

theorem half_congr {m m' : Memory} {a : UInt32}
    (h : ∀ b, (⟨a, 2⟩ : Span).Covers b → m' b = m b) : half m' a = half m a := by
  have hfirst := h a (by simpa [add_ofNat_zero] using covers_ofNat a (i := 0) (n := 2) (by decide) (by decide))
  have hsecond := h (a + 1) (covers_ofNat a (i := 1) (n := 2) (by decide) (by decide))
  unfold half
  rw [hfirst, hsecond]

theorem half_setHalf (m : Memory) (a : UInt32) (v : UInt16) : half (setHalf m a v) a = v := by
  have hbyte : ∀ i < 2,
      (setHalf m a v (a + UInt32.ofNat i)).toNat = v.toNat / 0x100 ^ i % 0x100 := by
    intro i hi
    unfold setHalf
    rw [toNat_add_sub a (by omega), if_pos hi]
    rfl
  have hfirst := hbyte 0 (by decide)
  rw [add_ofNat_zero] at hfirst
  have hlt := v.toNat_lt
  unfold half
  rw [hfirst, show (setHalf m a v (a + 1)).toNat = _ from hbyte 1 (by decide), ← UInt16.toNat_inj,
    UInt16.toNat_ofNat']
  omega

theorem setHalf_outside (m : Memory) {a b : UInt32} (v : UInt16)
    (h : ¬ (⟨a, 2⟩ : Span).Covers b) : setHalf m a v b = m b := if_neg h

structure Descriptor where
  low : UInt32
  high : UInt32
  deriving DecidableEq, Repr

/-- Where the descriptor with the index `n` lies. -/
def entryAt (base : UInt32) (n : Nat) : UInt32 := base + UInt32.ofNat (8 * n)

def descriptor (m : Memory) (base : UInt32) (n : Nat) : Descriptor where
  low := word m (entryAt base n)
  high := word m (entryAt base n + 4)

def setDescriptor (base : UInt32) (m : Memory) (n : Nat) (d : Descriptor) : Memory :=
  setWord (setWord m (entryAt base n) d.low) (entryAt base n + 4) d.high

/-- What a descriptor stands for, as far as it is no gate. -/
inductive Kind
  | code (conforming readable : Bool)
  | data (down writable : Bool)
  | tss (busy : Bool)
  | other
  deriving DecidableEq, Repr

namespace Descriptor

variable (d : Descriptor)

/-- The byte with the type, the level and the present bit. -/
def access : Nat := d.high.toNat / 0x100 % 0x100

def dpl : Nat := d.access / 0x20 % 4

def present : Bool := d.access / 0x80 == 1

/-- What the type in the access byte says: a segment of code or of data, or one of the system. -/
def kind : Kind :=
  let bit := d.access.testBit
  if bit 4 then if bit 3 then .code (bit 2) (bit 1) else .data (bit 2) (bit 1)
  else if d.access % 0x10 = 0x9 then .tss false
  else if d.access % 0x10 = 0xb then .tss true
  else .other

/-- Whether operands and the stack have 32 bits. -/
def big : Bool := d.high.toNat / 0x400000 % 2 == 1

/-- The base of a segment. -/
def base : Nat :=
  d.low.toNat / 0x10000 + d.high.toNat % 0x100 * 0x10000 + d.high.toNat / 0x1000000 * 0x1000000

/-- The last address in a segment, which is given in pages if the granularity bit is set. -/
def limit : Nat :=
  let limit := d.low.toNat % 0x10000 + d.high.toNat / 0x10000 % 0x10 * 0x10000
  if d.high.toNat / 0x800000 % 2 = 1 then limit * 0x1000 + 0xfff else limit

/-- The gate to a handler: only a 32-bit interrupt gate is one. -/
def gate : Option Gate :=
  if d.present ∧ d.access % 0x20 = 0xe then
    some
      { offset := UInt32.ofNat (d.low.toNat % 0x10000 + d.high.toNat / 0x10000 * 0x10000)
        selector := UInt16.ofNat (d.low.toNat / 0x10000)
        dpl := UInt16.ofNat d.dpl }
  else none

end Descriptor

/-- Whether code of an outer ring may use a port: the task state segment at `tss`, that ends at
`limit`, says where the bits of the ports begin, and a bit that is set closes the port.  Two
bytes are read for every port. -/
def portOpen (m : Memory) (tss : UInt32) (limit : Nat) (port : UInt16) : Bool :=
  let i := (half m (tss + 102)).toNat + port.toNat / 8
  decide (i + 1 ≤ limit) && !(m (tss + UInt32.ofNat i)).toNat.testBit (port.toNat % 8)

/-- What a run of settings says last of the index `n`. -/
def lastSet (n : Nat) : List (Nat × Descriptor) → Option Descriptor
  | [] => none
  | s :: rest => (lastSet n rest).or (if s.1 = n then some s.2 else none)

/-- A run of settings, one after another. -/
def setDescriptors (base : UInt32) (m : Memory) (settings : List (Nat × Descriptor)) : Memory :=
  settings.foldl (fun m s => setDescriptor base m s.1 s.2) m

variable {base : UInt32} {m m' : Memory} {n n' : Nat}

/-- Eight bytes of the table. -/
theorem entry_offset (hn : 8 * (n + 1) ≤ 2 ^ 32) {a : UInt32}
    (ha : (⟨entryAt base n, 8⟩ : Span).Covers a) :
    8 * n ≤ (a - base).toNat ∧ (a - base).toNat < 8 * n + 8 := by
  have h := (covers_offset base a (i := 8 * n) (n := 8) (by omega) (by omega)).mp ha
  omega

theorem entry_apart (hn : 8 * (n + 1) ≤ 2 ^ 32) (hn' : 8 * (n' + 1) ≤ 2 ^ 32) (hne : n ≠ n') :
    (⟨entryAt base n, 8⟩ : Span).Apart ⟨entryAt base n', 8⟩ := by
  intro a ha ha'
  have h := entry_offset hn ha
  have h' := entry_offset hn' ha'
  omega

/-- Both words of a descriptor lie in its eight bytes. -/
theorem low_inside (a : UInt32) : (⟨a, 4⟩ : Span).Inside ⟨a, 8⟩ := by
  intro b (hb : (b - a).toNat < 4)
  show (b - a).toNat < 8
  omega

theorem high_inside (a : UInt32) : (⟨a + 4, 4⟩ : Span).Inside ⟨a, 8⟩ :=
  Span.inside_add a (i := 4) (n := 4) (by decide)

theorem descriptor_congr (h : ∀ a, (⟨entryAt base n, 8⟩ : Span).Covers a → m' a = m a) :
    descriptor m' base n = descriptor m base n := by
  unfold descriptor
  rw [word_congr fun a ha => h a (low_inside _ a ha),
    word_congr fun a ha => h a (high_inside _ a ha)]

/-- Setting a descriptor changes its eight bytes only. -/
theorem setDescriptor_outside (d : Descriptor) {a : UInt32}
    (h : ¬ (⟨entryAt base n, 8⟩ : Span).Covers a) : setDescriptor base m n d a = m a := by
  unfold setDescriptor
  rw [setWord_outside _ _ fun ha => h (high_inside _ a ha),
    setWord_outside _ _ fun ha => h (low_inside _ a ha)]

theorem descriptor_set_self (m : Memory) (base : UInt32) (n : Nat) (d : Descriptor) :
    descriptor (setDescriptor base m n d) base n = d := by
  have hlow : word (setDescriptor base m n d) (entryAt base n) = d.low := by
    refine (word_congr fun a ha => setWord_outside _ _ ?_).trans (word_setWord ..)
    have hstep := toNat_sub_add (entryAt base n) a (show 4 < 2 ^ 32 by decide)
    rw [show UInt32.ofNat 4 = 4 from rfl] at hstep
    change (a - entryAt base n).toNat < 4 at ha
    intro (hcov : (a - (entryAt base n + 4)).toNat < 4)
    omega
  have hhigh : word (setDescriptor base m n d) (entryAt base n + 4) = d.high := word_setWord ..
  unfold descriptor
  rw [hlow, hhigh]

theorem descriptor_set_ne (hn : 8 * (n + 1) ≤ 2 ^ 32) (hn' : 8 * (n' + 1) ≤ 2 ^ 32) (hne : n' ≠ n)
    (d : Descriptor) : descriptor (setDescriptor base m n d) base n' = descriptor m base n' :=
  descriptor_congr fun a ha => setDescriptor_outside d (entry_apart hn' hn hne a ha)

/-- **After a run of settings, a descriptor is what was said of it last.** -/
theorem descriptor_foldl (hn : 8 * (n + 1) ≤ 2 ^ 32) :
    ∀ (settings : List (Nat × Descriptor)) (m : Memory),
      (∀ s ∈ settings, 8 * (s.1 + 1) ≤ 2 ^ 32) →
      descriptor (setDescriptors base m settings) base n =
        (lastSet n settings).getD (descriptor m base n) := by
  intro settings
  induction settings with
  | nil => exact fun _ _ => rfl
  | cons s rest ih =>
      intro m hall
      have hrest := ih (setDescriptor base m s.1 s.2) fun t ht => hall t (List.mem_cons_of_mem _ ht)
      refine hrest.trans ?_
      rw [lastSet]
      cases hlast : lastSet n rest with
      | some d => rfl
      | none =>
          by_cases hs : s.1 = n
          · rw [if_pos hs, ← hs]
            exact descriptor_set_self ..
          · rw [if_neg hs]
            exact descriptor_set_ne (hall s (List.mem_cons_self ..)) hn (Ne.symm hs) s.2

/-- A run of settings changes nothing outside the table. -/
theorem setDescriptors_outside (size : Nat) {a : UInt32} (ha : ¬ (⟨base, 8 * size⟩ : Span).Covers a) :
    ∀ (settings : List (Nat × Descriptor)) (m : Memory), (∀ s ∈ settings, s.1 < size) →
      setDescriptors base m settings a = m a := by
  intro settings
  induction settings with
  | nil => exact fun _ _ => rfl
  | cons s rest ih =>
      intro m hall
      refine (ih _ fun t ht => hall t (List.mem_cons_of_mem _ ht)).trans ?_
      refine setDescriptor_outside _ fun hcov => ha ?_
      have hs := hall s (List.mem_cons_self ..)
      exact Span.inside_add base (i := 8 * s.1) (n := 8) (by omega) a hcov

end Ia32
