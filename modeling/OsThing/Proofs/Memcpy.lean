/-
What `memcpy` and `memset` leave in memory.

`memcpy` goes from the front, also where the ranges overlap.  If the destination is behind the
source, bytes that are still to be copied are written over by bytes that have been, so the
first of them are repeated: with a distance of `d` the destination holds the first `d` bytes of
the source again and again.  If it does not begin inside the source, the distance, which is taken
around the address space, is not shorter than the range, and the bytes are those of the source.
-/
import OsThing.Proofs.Memmove

namespace OsThing.Strings

open Ram

theorem memset_apply : ∀ (n : Nat) (dest : UInt32) (value : UInt8) (m : Memory) (a : UInt32),
    memset dest value n m a = if (⟨dest, n⟩ : Span).Covers a then value else m a := by
  intro n
  induction n with
  | zero =>
      intro dest value m a
      exact (if_neg (Nat.not_lt_zero _)).symm
  | succ n ih =>
      intro dest value m a
      rw [memset, ih]
      simp only [covers_cons]
      by_cases hrest : (⟨dest + 1, n⟩ : Span).Covers a
      · rw [if_pos hrest, if_pos (Or.inr hrest)]
      · rw [if_neg hrest]
        by_cases hhere : a = dest
        · rw [hhere, Function.update_self, if_pos (Or.inl rfl)]
        · rw [Function.update_of_ne hhere, if_neg (by simp [hhere, hrest])]

/-- The next byte of a period. -/
theorem mod_succ_eq {d j : Nat} (hlast : j % d + 1 ≠ d) : (j + 1) % d = j % d + 1 := by
  rcases Nat.eq_zero_or_pos d with rfl | hd
  · rw [Nat.mod_zero, Nat.mod_zero]
  · have hlt : j % d + 1 < d := Nat.lt_of_le_of_ne (Nat.mod_lt j hd) hlast
    rw [Nat.add_mod, Nat.mod_eq_of_lt (a := 1) (by omega), Nat.mod_eq_of_lt hlt]

theorem mod_succ_zero {d j : Nat} (hlast : j % d + 1 = d) : (j + 1) % d = 0 := by
  have hdiv := Nat.div_add_mod j d
  refine Nat.mod_eq_zero_of_dvd ⟨j / d + 1, ?_⟩
  rw [Nat.mul_add]
  omega

/-- **What every address holds after a call**, however the ranges lie. -/
theorem memcpy_apply : ∀ (n : Nat) (dest src : UInt32) (m : Memory) (a : UInt32), n ≤ 2 ^ 32 →
    memcpy dest src n m a =
      if (⟨dest, n⟩ : Span).Covers a then
        m (src + UInt32.ofNat ((a - dest).toNat % (dest - src).toNat))
      else m a := by
  intro n
  induction n with
  | zero =>
      intro dest src m a _
      exact (if_neg (Nat.not_lt_zero _)).symm
  | succ n ih =>
      intro dest src m a hn
      rw [memcpy, ih _ _ _ _ (Nat.le_of_succ_le hn), show dest + 1 - (src + 1) = dest - src by grind]
      have hstep := toNat_sub_add dest a (show 1 < 2 ^ 32 by decide)
      rw [show UInt32.ofNat 1 = 1 from rfl] at hstep
      have hlt := (a - dest).toNat_lt
      by_cases hrest : (⟨dest + 1, n⟩ : Span).Covers a
      · rw [if_pos hrest, if_pos (covers_cons.mpr (Or.inr hrest))]
        -- the byte before this one in the destination is `j` bytes behind its second byte
        obtain ⟨j, hj⟩ : ∃ j, (a - (dest + 1)).toNat = j := ⟨_, rfl⟩
        have hjn : j < n := hj ▸ hrest
        have hnext : (a - dest).toNat = j + 1 := by omega
        have hmod : j % (dest - src).toNat ≤ j := Nat.mod_le ..
        rw [hj, hnext, ← add_succ]
        by_cases hlast : j % (dest - src).toNat + 1 = (dest - src).toNat
        · rw [hlast, mod_succ_zero hlast, UInt32.ofNat_toNat, show src + (dest - src) = dest by grind,
            Function.update_self, add_ofNat_zero]
        · rw [mod_succ_eq hlast, Function.update_of_ne]
          intro heq
          have hdist := toNat_add_sub src (show j % (dest - src).toNat + 1 < 2 ^ 32 by omega)
          exact hlast (hdist.symm.trans (congrArg (fun x => (x - src).toNat) heq))
      · rw [if_neg hrest]
        by_cases hhere : a = dest
        · rw [if_pos (covers_cons.mpr (Or.inl hhere)), hhere, Function.update_self,
            show dest - dest = 0 by grind, UInt32.toNat_zero, Nat.zero_mod, add_ofNat_zero]
        · rw [if_neg fun h => (covers_cons.mp h).elim hhere hrest, Function.update_of_ne hhere]

/-! ### When the bytes are those of the source -/

/-- The bytes of a range repeat themselves with the period `d`. -/
def Repeats (m : Memory) (src : UInt32) (n d : Nat) : Prop :=
  ∀ i, i + d < n → m (src + UInt32.ofNat (i + d)) = m (src + UInt32.ofNat i)

/-- Then every byte is one of the first period. -/
theorem Repeats.mod {m : Memory} {src : UInt32} {n d : Nat} (h : Repeats m src n d) :
    ∀ i < n, m (src + UInt32.ofNat (i % d)) = m (src + UInt32.ofNat i) := by
  intro i
  induction i using Nat.strongRecOn with
  | _ i ih =>
      intro hi
      rcases Nat.lt_or_ge i d with hlt | hge
      · rw [Nat.mod_eq_of_lt hlt]
      · rcases Nat.eq_zero_or_pos d with rfl | hd
        · rw [Nat.mod_zero]
        · rw [Nat.mod_eq_sub_mod hge, ih (i - d) (by omega) (by omega), ← h (i - d) (by omega),
            Nat.sub_add_cancel hge]

theorem repeats_of_mod {m : Memory} {src : UInt32} {n d : Nat}
    (h : ∀ i < n, m (src + UInt32.ofNat (i % d)) = m (src + UInt32.ofNat i)) :
    Repeats m src n d := by
  intro i hi
  rw [← h (i + d) hi, Nat.add_mod_right, h i (by omega)]

/-- The destination holds the former bytes of the source, and nothing else is different. -/
structure Copies (dest src count : UInt32) (m m' : Memory) : Prop where
  copied : ∀ i < count.toNat, m' (dest + UInt32.ofNat i) = m (src + UInt32.ofNat i)
  frame : ∀ a, ¬ (⟨dest, count.toNat⟩ : Span).Covers a → m' a = m a

/-- **`memcpy` copies what it is asked to copy just if the source repeats itself with the
distance of the two ranges**, which it does if the destination does not begin inside the source. -/
theorem memcpy_copies_iff (dest src count : UInt32) (m : Memory) :
    (Copies dest src count m (memcpy dest src count.toNat m) ↔
      Repeats m src count.toNat (dest - src).toNat) ∧
      (¬ (⟨src, count.toNat⟩ : Span).Covers dest → Repeats m src count.toNat (dest - src).toNat) := by
  have hcount := count.toNat_lt
  have happly : ∀ i < count.toNat, memcpy dest src count.toNat m (dest + UInt32.ofNat i) =
      m (src + UInt32.ofNat (i % (dest - src).toNat)) := by
    intro i hi
    rw [memcpy_apply _ _ _ _ _ (Nat.le_of_lt hcount), if_pos (covers_ofNat dest hi (by omega)),
      toNat_add_sub dest (by omega)]
  refine ⟨⟨fun h => ?_, fun h => ?_⟩, fun hout i hi => ?_⟩
  · exact repeats_of_mod fun i hi => (happly i hi).symm.trans (h.copied i hi)
  · refine ⟨fun i hi => (happly i hi).trans (h.mod i hi), fun a hdest => ?_⟩
    exact memcpy_outside _ _ _ _ hdest
  · have hfar : ¬ (dest - src).toNat < count.toNat := hout
    exact absurd hi (by omega)

end OsThing.Strings
