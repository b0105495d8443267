/-
Byte memory with 32-bit little-endian words.

A memory gives a byte for every address.  A word is read from and written to any
address, aligned or not; `read32_write32_apart` covers two words that do not overlap,
and an unaligned write can be split into bytes with `write32_apply`.
-/
import Mathlib.Algebra.Group.Nat.Defs
import Mathlib.Data.Nat.Basic

namespace Bytes

abbrev Memory := Nat → UInt8

def read32 (m : Memory) (a : Nat) : Nat :=
  (m a).toNat + 0x100 * (m (a + 1)).toNat + 0x10000 * (m (a + 2)).toNat +
    0x1000000 * (m (a + 3)).toNat

/-- The byte `i` of a number, from the low end. -/
def byteOf (v i : Nat) : UInt8 := UInt8.ofNat (v / 0x100 ^ i)

def write32 (m : Memory) (a v : Nat) : Memory :=
  fun b => if a ≤ b ∧ b < a + 4 then byteOf v (b - a) else m b

/-- `memset`. -/
def fill (m : Memory) (a : Nat) (value : UInt8) (n : Nat) : Memory :=
  fun b => if a ≤ b ∧ b < a + n then value else m b

theorem read32_lt (m : Memory) (a : Nat) : read32 m a < 2 ^ 32 := by
  have h₀ := (m a).toNat_lt
  have h₁ := (m (a + 1)).toNat_lt
  have h₂ := (m (a + 2)).toNat_lt
  have h₃ := (m (a + 3)).toNat_lt
  unfold read32
  omega

theorem read32_congr {m m' : Memory} {a : Nat} (h : ∀ b, a ≤ b → b < a + 4 → m' b = m b) :
    read32 m' a = read32 m a := by
  unfold read32
  rw [h a (by omega) (by omega), h (a + 1) (by omega) (by omega), h (a + 2) (by omega) (by omega),
    h (a + 3) (by omega) (by omega)]

theorem write32_apply (m : Memory) (a v b : Nat) :
    write32 m a v b = if a ≤ b ∧ b < a + 4 then byteOf v (b - a) else m b := rfl

theorem read32_write32 (m : Memory) (a : Nat) {v : Nat} (hv : v < 2 ^ 32) :
    read32 (write32 m a v) a = v := by
  have hbyte : ∀ i, i < 4 → (write32 m a v (a + i)).toNat = v / 0x100 ^ i % 0x100 := by
    intro i hi
    rw [write32_apply, if_pos ⟨by omega, by omega⟩, Nat.add_sub_cancel_left]
    rfl
  have h₀ := hbyte 0 (by omega)
  have h₁ := hbyte 1 (by omega)
  have h₂ := hbyte 2 (by omega)
  have h₃ := hbyte 3 (by omega)
  unfold read32
  rw [Nat.add_zero] at h₀
  rw [h₀, h₁, h₂, h₃]
  simp only [Nat.reducePow, Nat.pow_zero]
  omega

/-- Words that do not overlap do not see each other. -/
theorem read32_write32_apart (m : Memory) {a b : Nat} (v : Nat) (h : a + 4 ≤ b ∨ b + 4 ≤ a) :
    read32 (write32 m a v) b = read32 m b := by
  refine read32_congr fun c hb hc => ?_
  rw [write32_apply, if_neg]
  omega

theorem read32_fill_zero (m : Memory) {a n b : Nat} (hb : a ≤ b) (hn : b + 4 ≤ a + n) :
    read32 (fill m a 0 n) b = 0 := by
  have hzero : ∀ c, b ≤ c → c < b + 4 → fill m a 0 n c = 0 := by
    intro c hbc hc
    unfold fill
    rw [if_pos ⟨by omega, by omega⟩]
  unfold read32
  rw [hzero b (by omega) (by omega), hzero (b + 1) (by omega) (by omega),
    hzero (b + 2) (by omega) (by omega), hzero (b + 3) (by omega) (by omega)]
  rfl

theorem read32_fill_apart (m : Memory) {a n b : Nat} (value : UInt8) (h : a + n ≤ b ∨ b + 4 ≤ a) :
    read32 (fill m a value n) b = read32 m b := by
  refine read32_congr fun c hb hc => ?_
  unfold fill
  rw [if_neg]
  omega

end Bytes
