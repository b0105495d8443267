/-
Byte memory whose addresses wrap around.

An address is 32 bits wide, and the sum of one and an offset is again an address.  So a range
of bytes may lie around the end of the address space, and whether an address is in it is told
by its distance from the start: `Span.Covers`.  Where all addresses are taken relative to one
base, this is plain arithmetic of offsets again: `covers_offset`.

Words are little-endian, and strings end with a 0.
-/
import Mathlib.Algebra.Group.Nat.Defs
import Mathlib.Logic.Function.Basic

namespace Ram

abbrev Memory := UInt32 → UInt8

/-! ### Ranges of bytes -/

/-- The `size` bytes from `address` on. -/
structure Span where
  address : UInt32
  size : Nat

namespace Span

def Covers (s : Span) (a : UInt32) : Prop := (a - s.address).toNat < s.size

instance (s : Span) (a : UInt32) : Decidable (s.Covers a) := inferInstanceAs (Decidable (_ < _))

def Inside (s t : Span) : Prop := ∀ a, s.Covers a → t.Covers a

def Apart (s t : Span) : Prop := ∀ a, s.Covers a → ¬ t.Covers a

instance : Std.Symm Apart := ⟨fun _ _ h a ht hs => h a hs ht⟩

theorem Apart.mono {s s' t t' : Span} (h : s.Apart t) (hs : s'.Inside s) (ht : t'.Inside t) :
    s'.Apart t' :=
  fun a hs' ht' => h a (hs a hs') (ht a ht')

/-- What follows the first byte of a range is in the range. -/
theorem inside_succ {address : UInt32} {n : Nat} (hn : n < 2 ^ 32) :
    (⟨address + 1, n⟩ : Span).Inside ⟨address, n + 1⟩ := by
  intro a (ha : (a - (address + 1)).toNat < n)
  show (a - address).toNat < n + 1
  rw [show a - (address + 1) = a - address - 1 by grind, UInt32.toNat_sub] at ha
  have hlt := (a - address).toNat_lt
  change (2 ^ 32 - 1 + (a - address).toNat) % 2 ^ 32 < n at ha
  omega

end Span

theorem toNat_add_sub (a : UInt32) {i : Nat} (hi : i < 2 ^ 32) :
    (a + UInt32.ofNat i - a).toNat = i := by
  rw [show a + UInt32.ofNat i - a = UInt32.ofNat i by grind]
  exact UInt32.toNat_ofNat_of_lt' hi

theorem covers_ofNat (a : UInt32) {i n : Nat} (hi : i < n) (hlt : i < 2 ^ 32) :
    (⟨a, n⟩ : Span).Covers (a + UInt32.ofNat i) := by
  show (a + UInt32.ofNat i - a).toNat < n
  rw [toNat_add_sub a hlt]
  exact hi

theorem add_ofNat_zero (a : UInt32) : a + UInt32.ofNat 0 = a := UInt32.add_zero a

theorem add_ofNat_add (a : UInt32) (i j : Nat) :
    a + UInt32.ofNat i + UInt32.ofNat j = a + UInt32.ofNat (i + j) := by
  rw [UInt32.ofNat_add]
  grind

/-- The distance of `a` from the base, after a start that is `i` bytes behind it. -/
theorem toNat_sub_add (base a : UInt32) {i : Nat} (hi : i < 2 ^ 32) :
    (a - (base + UInt32.ofNat i)).toNat = ((a - base).toNat + (2 ^ 32 - i)) % 2 ^ 32 := by
  rw [show a - (base + UInt32.ofNat i) = a - base - UInt32.ofNat i by grind, UInt32.toNat_sub,
    UInt32.toNat_ofNat_of_lt' hi, Nat.add_comm]

/-- Seen from a base, a range that does not wrap around behind it is a range of offsets. -/
theorem covers_offset (base a : UInt32) {i n : Nat} (hi : i < 2 ^ 32) (hn : i + n ≤ 2 ^ 32) :
    (⟨base + UInt32.ofNat i, n⟩ : Span).Covers a ↔
      i ≤ (a - base).toNat ∧ (a - base).toNat < i + n := by
  have hlt := (a - base).toNat_lt
  show (a - (base + UInt32.ofNat i)).toNat < n ↔ _
  rw [toNat_sub_add base a hi]
  omega

/-- A part of a range, however long that is. -/
theorem Span.inside_add (base : UInt32) {i n size : Nat} (h : i + n ≤ size) :
    (⟨base + UInt32.ofNat i, n⟩ : Span).Inside ⟨base, size⟩ := by
  intro a ha
  show (a - base).toNat < size
  have hlt := (a - base).toNat_lt
  by_cases hsize : size ≤ 2 ^ 32
  · rcases Nat.eq_zero_or_pos n with rfl | hn
    · exact absurd ha (Nat.not_lt_zero _)
    · have hoffset := (covers_offset base a (by omega) (by omega)).mp ha
      omega
  · omega

/-- One byte further, the rest of the range is one byte shorter. -/
theorem covers_succ {address a : UInt32} {n : Nat} (h : ¬ (⟨address, n + 1⟩ : Span).Covers a) :
    a ≠ address ∧ ¬ (⟨address + 1, n⟩ : Span).Covers a := by
  unfold Span.Covers at *
  dsimp only at *
  have hstep := toNat_sub_add address a (show 1 < 2 ^ 32 by decide)
  rw [show UInt32.ofNat 1 = 1 from rfl] at hstep
  refine ⟨fun heq => h ?_, ?_⟩
  · rw [heq, show address - address = 0 by grind]
    exact Nat.succ_pos n
  · rw [hstep]
    have hlt := (a - address).toNat_lt
    omega

/-- A range of bytes is its first byte and the range behind it. -/
theorem covers_cons {address a : UInt32} {n : Nat} :
    (⟨address, n + 1⟩ : Span).Covers a ↔ a = address ∨ (⟨address + 1, n⟩ : Span).Covers a := by
  constructor
  · intro (h : (a - address).toNat < n + 1)
    by_cases heq : a = address
    · exact Or.inl heq
    · have hne : (a - address).toNat ≠ 0 := by
        intro hzero
        exact heq (by grind [UInt32.toNat_inj.mp (show (a - address).toNat = (0 : UInt32).toNat from hzero)])
      have hstep := toNat_sub_add address a (show 1 < 2 ^ 32 by decide)
      rw [show UInt32.ofNat 1 = 1 from rfl] at hstep
      have hlt := (a - address).toNat_lt
      exact Or.inr (show (a - (address + 1)).toNat < n by omega)
  · intro h
    by_contra hnot
    obtain ⟨hne, hrest⟩ := covers_succ hnot
    rcases h with heq | hcov
    · exact hne heq
    · exact hrest hcov

/-! ### Words -/

def word (m : Memory) (a : UInt32) : UInt32 :=
  UInt32.ofNat ((m a).toNat + 0x100 * (m (a + 1)).toNat + 0x10000 * (m (a + 2)).toNat +
    0x1000000 * (m (a + 3)).toNat)

def setWord (m : Memory) (a v : UInt32) : Memory :=
  fun b => if (b - a).toNat < 4 then UInt8.ofNat (v.toNat / 0x100 ^ (b - a).toNat) else m b

theorem word_congr {m m' : Memory} {a : UInt32}
    (h : ∀ b, (⟨a, 4⟩ : Span).Covers b → m' b = m b) : word m' a = word m a := by
  have hbyte : ∀ i < 4, m' (a + UInt32.ofNat i) = m (a + UInt32.ofNat i) := fun i hi =>
    h _ (covers_ofNat a hi (by omega))
  have h₀ := hbyte 0 (by decide)
  rw [add_ofNat_zero] at h₀
  unfold word
  rw [h₀, show m' (a + 1) = m (a + 1) from hbyte 1 (by decide),
    show m' (a + 2) = m (a + 2) from hbyte 2 (by decide),
    show m' (a + 3) = m (a + 3) from hbyte 3 (by decide)]

theorem word_setWord (m : Memory) (a v : UInt32) : word (setWord m a v) a = v := by
  have hbyte : ∀ i < 4,
      (setWord m a v (a + UInt32.ofNat i)).toNat = v.toNat / 0x100 ^ i % 0x100 := by
    intro i hi
    unfold setWord
    rw [toNat_add_sub a (by omega), if_pos hi]
    rfl
  have h₀ := hbyte 0 (by decide)
  rw [add_ofNat_zero] at h₀
  have hlt := v.toNat_lt
  unfold word
  rw [h₀, show (setWord m a v (a + 1)).toNat = _ from hbyte 1 (by decide),
    show (setWord m a v (a + 2)).toNat = _ from hbyte 2 (by decide),
    show (setWord m a v (a + 3)).toNat = _ from hbyte 3 (by decide), ← UInt32.toNat_inj,
    UInt32.toNat_ofNat']
  simp only [Nat.reducePow, Nat.pow_zero]
  omega

theorem setWord_outside (m : Memory) {a b : UInt32} (v : UInt32)
    (h : ¬ (⟨a, 4⟩ : Span).Covers b) : setWord m a v b = m b := if_neg h

/-! ### Copying -/

/-- `memcpy`, byte by byte from the front. -/
def memcpy (dest src : UInt32) : Nat → Memory → Memory
  | 0, m => m
  | n + 1, m => memcpy (dest + 1) (src + 1) n (Function.update m dest (m src))

theorem memcpy_outside : ∀ (n : Nat) (dest src : UInt32) (m : Memory) {b : UInt32},
    ¬ (⟨dest, n⟩ : Span).Covers b → memcpy dest src n m b = m b := by
  intro n
  induction n with
  | zero => exact fun _ _ _ _ _ => rfl
  | succ n ih =>
      intro dest src m b hb
      obtain ⟨hne, hrest⟩ := covers_succ hb
      rw [memcpy, ih _ _ _ hrest, Function.update_of_ne hne]

/-- Where the two ranges do not overlap, the bytes are those of the source. -/
theorem memcpy_inside : ∀ (n : Nat) (dest src : UInt32) (m : Memory), n ≤ 2 ^ 32 →
    (⟨src, n⟩ : Span).Apart ⟨dest, n⟩ → ∀ i < n,
      memcpy dest src n m (dest + UInt32.ofNat i) = m (src + UInt32.ofNat i) := by
  intro n
  induction n with
  | zero => exact fun _ _ _ _ _ i hi => absurd hi (Nat.not_lt_zero i)
  | succ n ih =>
      intro dest src m hn hapart i hi
      have hbefore : ¬ (⟨dest + 1, n⟩ : Span).Covers dest := by
        have hdist : (dest - (dest + 1)).toNat = 2 ^ 32 - 1 := by
          rw [show dest - (dest + 1) = 0 - 1 by grind]
          rfl
        show ¬ (dest - (dest + 1)).toNat < n
        omega
      have hfirst : (⟨dest, n + 1⟩ : Span).Covers dest := by
        show (dest - dest).toNat < n + 1
        rw [show dest - dest = 0 by grind]
        exact Nat.succ_pos n
      rcases i with _ | i
      · rw [add_ofNat_zero, add_ofNat_zero,
          memcpy, memcpy_outside _ _ _ _ hbefore, Function.update_self]
      · have hnext : ∀ a : UInt32, a + UInt32.ofNat (i + 1) = a + 1 + UInt32.ofNat i := fun a => by
          rw [UInt32.ofNat_add]
          grind
        have hsrc : src + UInt32.ofNat (i + 1) ≠ dest := fun heq =>
          hapart dest (heq ▸ covers_ofNat src hi (by omega)) hfirst
        rw [memcpy, hnext dest, ih _ _ _ (by omega) ?_ i (by omega), ← hnext src,
          Function.update_of_ne hsrc]
        exact hapart.mono (Span.inside_succ (by omega)) (Span.inside_succ (by omega))

/-! ### Strings -/

/-- `strlen`, which looks at `fuel` bytes at most. -/
def strlen (m : Memory) : Nat → UInt32 → Option Nat
  | 0, _ => none
  | fuel + 1, a => if m a = 0 then some 0 else (strlen m fuel (a + 1)).map (· + 1)

/-- The bytes of a string, and a 0 behind them. -/
structure IsString (m : Memory) (a : UInt32) (s : List UInt8) : Prop where
  bytes : ∀ i (h : i < s.length), m (a + UInt32.ofNat i) = s[i]
  nonzero : 0 ∉ s
  stop : m (a + UInt32.ofNat s.length) = 0

/-- A memory with the bytes from address 0 on, and zeros behind them. -/
def ofBytes (bytes : List UInt8) : Memory := fun a => bytes.getD a.toNat 0

namespace IsString

variable {m m' : Memory} {a : UInt32} {s : List UInt8}

/-- A string ends before its start comes around again. -/
theorem length_lt (h : IsString m a s) : s.length < 2 ^ 32 := by
  by_contra hge
  have hmod : s.length % 2 ^ 32 < s.length :=
    Nat.lt_of_lt_of_le (Nat.mod_lt _ (by decide)) (Nat.le_of_not_lt hge)
  have hbyte := h.bytes _ hmod
  rw [show UInt32.ofNat (s.length % 2 ^ 32) = UInt32.ofNat s.length from
    UInt32.ofNat_mod_size, h.stop] at hbyte
  exact h.nonzero (hbyte ▸ List.getElem_mem hmod)

theorem congr (h : IsString m a s)
    (hm : ∀ b, (⟨a, s.length + 1⟩ : Span).Covers b → m' b = m b) : IsString m' a s := by
  have hlt := h.length_lt
  have hsame : ∀ i ≤ s.length, m' (a + UInt32.ofNat i) = m (a + UInt32.ofNat i) := fun i hi =>
    hm _ (covers_ofNat a (Nat.lt_succ_of_le hi) (by omega))
  exact ⟨fun i hi => (hsame i (Nat.le_of_lt hi)).trans (h.bytes i hi), h.nonzero,
    (hsame _ (Nat.le_refl _)).trans h.stop⟩

/-- What follows the first byte of a string is a string. -/
theorem tail {c : UInt8} (h : IsString m a (c :: s)) : IsString m (a + 1) s := by
  have hnext : ∀ i, a + 1 + UInt32.ofNat i = a + UInt32.ofNat (i + 1) := fun i => by
    rw [UInt32.ofNat_add]
    grind
  refine ⟨fun i hi => ?_, fun hmem => h.nonzero (List.mem_cons_of_mem _ hmem), ?_⟩
  · rw [hnext]
    exact h.bytes (i + 1) (Nat.succ_lt_succ hi)
  · rw [hnext]
    exact h.stop

/-- A copy of a string, with its 0. -/
theorem copy (h : IsString m a s) {dest : UInt32}
    (hapart : (⟨a, s.length + 1⟩ : Span).Apart ⟨dest, s.length + 1⟩) :
    IsString (memcpy dest a (s.length + 1) m) dest s := by
  have hcopied := memcpy_inside (s.length + 1) dest a m h.length_lt hapart
  exact ⟨fun i hi => (hcopied i (by omega)).trans (h.bytes i hi), h.nonzero,
    (hcopied _ (Nat.lt_succ_self _)).trans h.stop⟩

/-- Bytes that are none of them zero make a string. -/
theorem ofBytes (hs : 0 ∉ s) (hlength : s.length < 2 ^ 32) : IsString (Ram.ofBytes s) 0 s := by
  have hbyte : ∀ i ≤ s.length, Ram.ofBytes s (0 + UInt32.ofNat i) = s.getD i 0 := by
    intro i hi
    have hi32 : (UInt32.ofNat i).toNat = i :=
      UInt32.toNat_ofNat_of_lt' (Nat.lt_of_le_of_lt hi hlength)
    simp [Ram.ofBytes, hi32]
  refine ⟨?_, hs, ?_⟩
  · intro i hi
    rw [hbyte i (Nat.le_of_lt hi)]
    simp [hi]
  · rw [hbyte s.length (Nat.le_refl _)]
    simp

end IsString

theorem strlen_eq {m : Memory} : ∀ (s : List UInt8) {a : UInt32} {fuel : Nat}, IsString m a s →
    s.length < fuel → strlen m fuel a = some s.length := by
  intro s
  induction s with
  | nil =>
      intro a fuel h hfuel
      obtain ⟨fuel, rfl⟩ := Nat.exists_eq_add_of_lt hfuel
      have hstop := h.stop
      rw [List.length_nil, add_ofNat_zero] at hstop
      rw [strlen, if_pos hstop]
      rfl
  | cons c s ih =>
      intro a fuel h hfuel
      obtain ⟨fuel, rfl⟩ := Nat.exists_eq_add_of_lt hfuel
      have hfirst := h.bytes 0 (Nat.succ_pos _)
      rw [add_ofNat_zero] at hfirst
      have hne : m a ≠ 0 := fun hzero =>
        h.nonzero (by rw [← hzero, hfirst]; exact List.mem_cons_self)
      rw [strlen, if_neg hne, ih h.tail (by rw [List.length_cons]; omega)]
      rfl

end Ram
