/-
Numbers are printed as numerals, and numerals are read as numbers.

The loop over the digits divides until nothing is left, and stores what remains: the digits as
Mathlib has them, the last one first.  From the end of the buffer to its start they are a
numeral, and for zero, which has no digits, there is a zero to begin with.

`atoi` starts at the last character, with an index that is at -1 when it is done.  After the
characters from a place on, its power is that of the place, and all that is left to add is the
value of the characters before it.
-/
import OsThing.Lib.Numerals
import OsThing.User.Stdio
import Mathlib.Tactic.Common

namespace OsThing.Stdio

open Ram Numerals

/-! ### Digits -/

/-- What is left after a division. -/
theorem sub_div_mul (n base : UInt32) : n - n / base * base = n % base := by
  have hle : n.toNat / base.toNat * base.toNat ≤ n.toNat := Nat.div_mul_le_self _ _
  have hlt := n.toNat_lt
  have hmul : (n / base * base).toNat = n.toNat / base.toNat * base.toNat := by
    rw [UInt32.toNat_mul, UInt32.toNat_div, Nat.mod_eq_of_lt (by omega)]
  rw [← UInt32.toNat_inj, UInt32.toNat_sub_of_le _ _ (by rw [UInt32.le_iff_toNat_le, hmul]; exact hle),
    hmul, UInt32.toNat_mod]
  have hdiv := Nat.div_add_mod n.toNat base.toNat
  rw [Nat.mul_comm] at hdiv
  omega

variable {base : UInt32} (letter : UInt32 → UInt8)

/-- The letters of digits. -/
def spell (ds : List Nat) : List UInt8 := ds.map fun d => letter (UInt32.ofNat d)

@[simp] theorem spell_nil : spell letter [] = [] := rfl

@[simp] theorem spell_cons (d : Nat) (ds : List Nat) :
    spell letter (d :: ds) = letter (UInt32.ofNat d) :: spell letter ds := rfl

@[simp] theorem spell_length (ds : List Nat) : (spell letter ds).length = ds.length := by
  simp [spell]

theorem digitLoop_digits (hbase : 1 < base.toNat) :
    ∀ (fuel : Nat) (n d : UInt32) (buf : List UInt8), n.toNat < fuel →
      ∃ d', digitLoop base letter fuel ⟨n, n, d, buf⟩ =
        some ⟨0, 0, d', buf ++ spell letter (Nat.digits base.toNat n.toNat)⟩ := by
  intro fuel
  induction fuel with
  | zero => intro n d buf hn; omega
  | succ fuel ih =>
      intro n d buf hn
      by_cases hzero : n = 0
      · subst hzero
        exact ⟨d, by simp [digitLoop]⟩
      · have hpos : 0 < n.toNat := by
          rw [Nat.pos_iff_ne_zero]
          intro h
          exact hzero (UInt32.toNat_inj.mp h)
        have hless : (n / base).toNat < n.toNat := by
          rw [UInt32.toNat_div]
          exact Nat.div_lt_self hpos hbase
        obtain ⟨d', hloop⟩ := ih (n / base) (n / base)
          (buf ++ [letter (n - n / base * base)]) (by omega)
        refine ⟨d', ?_⟩
        simp only [digitLoop, if_neg hzero]
        have hdigit : UInt32.ofNat (n.toNat % base.toNat) = n - n / base * base := by
          rw [sub_div_mul, ← UInt32.toNat_mod, UInt32.ofNat_toNat]
        rw [hloop, Nat.digits_def' hbase hpos, spell_cons, hdigit, UInt32.toNat_div,
          List.append_assoc, List.singleton_append]

theorem storedDigits_eq (hbase : 1 < base.toNat) (n : UInt32) :
    storedDigits base letter n = some (spell letter (Nat.digits base.toNat n.toNat)) := by
  obtain ⟨d', hloop⟩ := digitLoop_digits letter hbase (n.toNat + 1) n 0 [] (Nat.lt_succ_self _)
  rw [storedDigits, hloop]
  simp

/-- **What is printed is the numeral.** -/
theorem printDigits_eq (hbase : 1 < base.toNat) (hletter : letter 0 = 48) (put : UInt8 → Call)
    (n : UInt32) :
    printDigits put base letter n =
      some ((spell letter (numeral base.toNat n.toNat)).map put) := by
  rw [printDigits, storedDigits_eq letter hbase, Option.map_some]
  by_cases hzero : n = 0
  · subst hzero
    simp [numeral, hletter]
  · have hne : n.toNat ≠ 0 := by
      intro h
      exact hzero (UInt32.toNat_inj.mp h)
    simp [numeral, spell, hzero, hne]

@[simp] theorem consoleBytes_kputchar (cs : List UInt8) :
    consoleBytes (cs.map .kputchar) = cs := by
  induction cs with
  | nil => rfl
  | cons c cs ih => simpa [consoleBytes] using ih

@[simp] theorem fileBytes_write (fd : Int) (cs : List UInt8) :
    fileBytes fd (cs.map fun c => .write fd [c]) = cs := by
  induction cs with
  | nil => rfl
  | cons c cs ih => simpa [fileBytes] using ih

/-! ### `atoi` -/

theorem charInt_digit {d : Nat} (hd : d < 10) :
    charInt (decimalLetter (UInt32.ofNat d)) - 48 = UInt32.ofNat d := by
  have hall : ∀ d < 10, charInt (decimalLetter (UInt32.ofNat d)) - 48 = UInt32.ofNat d := by
    decide
  exact hall d hd

/-- What is left to add when `k` digits are left. -/
theorem atoiLoop_digits {m : Memory} {a : UInt32} {ds : List Nat} (hds : ∀ d ∈ ds, d < 10)
    (h : IsString m a (spell decimalLetter ds)) :
    ∀ k ≤ ds.length, ∀ fuel p output, k < fuel →
      atoiLoop m a fuel (UInt32.ofNat k - 1) p output =
        some (output + p * UInt32.ofNat (value 10 (ds.take k))) := by
  have hlt : ds.length < 2 ^ 32 := by simpa using h.length_lt
  intro k
  induction k with
  | zero =>
      intro _ fuel p output hfuel
      obtain ⟨fuel, rfl⟩ := Nat.exists_eq_add_of_lt hfuel
      have hdone : UInt32.ofNat 0 - 1 + 1 = 0 := by decide
      rw [atoiLoop, if_neg (not_not.mpr hdone)]
      simp
  | succ k ih =>
      intro hk fuel p output hfuel
      obtain ⟨fuel, rfl⟩ := Nat.exists_eq_add_of_lt hfuel
      have hindex : UInt32.ofNat (k + 1) - 1 = UInt32.ofNat k := by
        rw [UInt32.ofNat_add]
        grind
      have hmore : UInt32.ofNat k + 1 ≠ 0 := by
        intro hzero
        have hnat := congrArg UInt32.toNat hzero
        rw [show UInt32.ofNat k + 1 = UInt32.ofNat (k + 1) by rw [UInt32.ofNat_add]; rfl,
          UInt32.toNat_ofNat_of_lt' (show k + 1 < 2 ^ 32 by omega)] at hnat
        exact absurd hnat (by simp)
      have hchar : m (a + UInt32.ofNat k) = decimalLetter (UInt32.ofNat ds[k]) := by
        rw [h.bytes k (by rw [spell_length]; omega)]
        simp [spell]
      have hdigit : ds[k] < 10 := hds _ (List.getElem_mem _)
      have hvalue : value 10 (ds.take (k + 1)) = ds[k] + 10 * value 10 (ds.take k) := by
        rw [List.take_succ_eq_append_getElem (by omega), value_append]
      rw [hindex, atoiLoop, if_pos hmore, hchar, charInt_digit hdigit,
        ih (by omega) _ _ _ (by omega), hvalue, UInt32.ofNat_add, UInt32.ofNat_mul]
      congr 1
      grind

/-- **A string of digits is read as its value.** -/
theorem atoi_digits {m : Memory} {a : UInt32} {ds : List Nat} (hds : ∀ d ∈ ds, d < 10)
    (h : IsString m a (spell decimalLetter ds)) :
    atoi m a = some (UInt32.ofNat (value 10 ds)).toInt32 := by
  have hlength : strlen m (2 ^ 32) a = some ds.length := by
    rw [strlen_eq _ h h.length_lt, spell_length]
  rw [atoi, hlength, Option.bind_some,
    atoiLoop_digits hds h ds.length (Nat.le_refl _) _ _ _ (Nat.lt_succ_self _),
    List.take_length, Option.map_some]
  congr 2
  grind

/-! ### Both ways -/

/-- A function prints every number as its numeral. -/
def PrintsNumerals (b : Nat) (letter : UInt32 → UInt8) (print : UInt32 → Option (List Call))
    (bytes : List Call → List UInt8) : Prop :=
  ∀ n : UInt32, ∃ calls ds, print n = some calls ∧ IsNumeral b n.toNat ds ∧
    bytes calls = spell letter ds

/-- The digits of every number fit into `buf[16]`. -/
def StaysInBuffer (base : UInt32) (letter : UInt32 → UInt8) : Prop :=
  ∀ n, ∃ buf, storedDigits base letter n = some buf ∧ buf.length ≤ 16

/-- A function reads digits as their value, as far as it fits into 32 bits. -/
structure ReadsNumerals (atoi : Memory → UInt32 → Option Int32) : Prop where
  digits : ∀ m a ds, (∀ d ∈ ds, d < 10) → IsString m a (spell decimalLetter ds) →
    ∃ n, atoi m a = some n ∧ n.toUInt32.toNat = value 10 ds % 2 ^ 32
  numeral : ∀ m a ds, ∀ n : UInt32, IsNumeral 10 n.toNat ds →
    IsString m a (spell decimalLetter ds) → atoi m a = some n.toInt32
  empty : ∀ m a, IsString m a [] → atoi m a = some 0

theorem printsNumerals_of_eq {b : Nat} {letter : UInt32 → UInt8} {put : UInt8 → Call}
    {print : UInt32 → Option (List Call)} {bytes : List Call → List UInt8} (hb : 1 < b)
    (hprint : ∀ n, print n = some ((spell letter (numeral b n.toNat)).map put))
    (hbytes : ∀ cs, bytes (cs.map put) = cs) : PrintsNumerals b letter print bytes := by
  intro n
  exact ⟨_, _, hprint n, numeral_isNumeral hb n.toNat, hbytes _⟩

theorem staysInBuffer (hbase : 10 ≤ base.toNat) : StaysInBuffer base letter := by
  intro n
  refine ⟨_, storedDigits_eq letter (by omega) n, ?_⟩
  rw [spell_length, Nat.digits_length_le_iff (by omega)]
  calc n.toNat < 10 ^ 16 := Nat.lt_of_lt_of_le n.toNat_lt (by decide)
    _ ≤ base.toNat ^ 16 := Nat.pow_le_pow_left hbase 16

theorem readsNumerals_atoi : ReadsNumerals atoi := by
  refine ⟨?_, ?_, ?_⟩
  · intro m a ds hds h
    refine ⟨_, atoi_digits hds h, ?_⟩
    simp
  · intro m a ds n hn h
    rw [atoi_digits hn.digit h, hn.value, UInt32.ofNat_toNat]
  · intro m a h
    have hempty : IsString m a (spell decimalLetter []) := h
    rw [atoi_digits (by simp) hempty, value_nil]
    rfl

/--
**Numbers survive printing.**  Every function of the two libraries that prints a number prints
its numeral, in decimal or in lower-case hexadecimal letters; the digits fit into the buffer;
and `atoi` reads a numeral as its number, and any digits as their value modulo 2^32.
-/
theorem numbers_survive_printing :
    (PrintsNumerals 10 decimalLetter printNum consoleBytes ∧
      PrintsNumerals 16 hexLetter printHex consoleBytes) ∧
    (∀ fd, PrintsNumerals 10 decimalLetter (fprintNum fd) (fileBytes fd) ∧
      PrintsNumerals 16 hexLetter (fprintHex fd) (fileBytes fd)) ∧
    (PrintsNumerals 10 decimalLetter UserStdio.printNum (fileBytes UserStdio.stdout) ∧
      PrintsNumerals 16 hexLetter UserStdio.printHex (fileBytes UserStdio.stdout)) ∧
    (StaysInBuffer 10 decimalLetter ∧ StaysInBuffer 16 hexLetter) ∧
    ReadsNumerals atoi ∧ ReadsNumerals UserStdio.atoi := by
  have hten : ∀ put n, printDigits put 10 decimalLetter n =
      some ((spell decimalLetter (numeral 10 n.toNat)).map put) :=
    printDigits_eq decimalLetter (by decide) (by decide)
  have hsixteen : ∀ put n, printDigits put 16 hexLetter n =
      some ((spell hexLetter (numeral 16 n.toNat)).map put) :=
    printDigits_eq hexLetter (by decide) (by decide)
  refine ⟨⟨?_, ?_⟩, ?_, ⟨?_, ?_⟩, ⟨?_, ?_⟩, readsNumerals_atoi, readsNumerals_atoi⟩
  · exact printsNumerals_of_eq (by decide) (hten _) consoleBytes_kputchar
  · exact printsNumerals_of_eq (by decide) (hsixteen _) consoleBytes_kputchar
  · intro fd
    constructor
    · exact printsNumerals_of_eq (by decide) (hten _) (fileBytes_write fd)
    · exact printsNumerals_of_eq (by decide) (hsixteen _) (fileBytes_write fd)
  · exact printsNumerals_of_eq (by decide) (hten _) (fileBytes_write _)
  · exact printsNumerals_of_eq (by decide) (hsixteen _) (fileBytes_write _)
  · exact staysInBuffer decimalLetter (by decide)
  · exact staysInBuffer hexLetter (by decide)

end OsThing.Stdio
