/-
What becomes of the arguments of a new task.

The room for the array is one byte and not one pointer more than its entries take, since the
`+ 1` in `sizeof( char * ) * argc + 1` is not multiplied.  So the null pointer that ends the
array starts in the last byte of the stack, and three bytes of it lie behind: for every `argv`,
the empty one included.

All else is as it should be where there is room for it: `passArgs_fits`.  What is written is at
all times one gapless range around the start of the array, and grows at either end: a slot goes
on top of it, a string or a pushed word below.  So no piece overlaps another, and nothing that
is there is touched again.
-/
import OsThing.Task.Arguments
import Mathlib.Algebra.BigOperators.Group.List.Basic
import Mathlib.Algebra.GroupWithZero.Nat
import Mathlib.Data.List.Pairwise

namespace OsThing.Arguments

open Ram

/-! ### What the child finds -/

/-- The block that `init_task` gets for the stack. -/
def stackBlock (top : UInt32) : Span := ⟨top - UInt32.ofNat KERNEL_STACK_SIZE, KERNEL_STACK_SIZE⟩

/-- The strings that an array of pointers leads to, up to the null pointer. -/
structure ArgvIs (m : Memory) (argv : UInt32) (args : List (List UInt8)) : Prop where
  entries : ∀ i (h : i < args.length),
    word m (slot argv i) ≠ 0 ∧ IsString m (word m (slot argv i)) args[i]
  stop : word m (slot argv args.length) = 0

/-- What the caller passes: no array at all is as good as an empty one. -/
def Passes (m : Memory) (argv : UInt32) (args : List (List UInt8)) : Prop :=
  argv = 0 ∧ args = [] ∨ argv ≠ 0 ∧ ArgvIs m argv args

/-- `argc`, `argv` and the strings, as the start of a program takes them from its stack. -/
structure Sees (t : NewTask) (args : List (List UInt8)) : Prop where
  argc : word t.mem t.esp = UInt32.ofNat args.length
  argv : word t.mem (t.esp + 4) = t.argv
  args : ArgvIs t.mem t.argv args

/-- The arguments are passed, and on the stack. -/
structure PassedOnStack (m : Memory) (top argv : UInt32) (t : NewTask) : Prop where
  inside : ∀ s ∈ t.stores, s.Inside (stackBlock top)
  apart : t.stores.Pairwise Span.Apart
  sees : ∀ args, Passes m argv args → Sees t args

/-! ### The null pointer -/

/-- The word that starts in the last byte of the stack. -/
def terminator (top : UInt32) : Span := ⟨top - 1, 4⟩

theorem terminator_leaves (top : UInt32) : ¬ (terminator top).Inside (stackBlock top) := by
  intro hinside
  have hcovers : (terminator top).Covers top := by
    show (top - (top - 1)).toNat < 4
    rw [show top - (top - 1) = 1 by grind]
    decide
  have hlt : (top - (top - UInt32.ofNat KERNEL_STACK_SIZE)).toNat < KERNEL_STACK_SIZE :=
    hinside top hcovers
  rw [show top - (top - UInt32.ofNat KERNEL_STACK_SIZE) = UInt32.ofNat KERNEL_STACK_SIZE by grind]
    at hlt
  exact absurd hlt (by decide)

/-- Wherever the array is, its end is in the same place. -/
theorem slot_argc (top : UInt32) (argc : Nat) :
    slot (top - UInt32.ofNat (4 * argc + 1)) argc = top - 1 := by
  unfold slot
  rw [UInt32.ofNat_add, show UInt32.ofNat 1 = 1 from rfl]
  grind

theorem passArgs_terminator {m : Memory} {top argv envp : UInt32} {t : NewTask}
    (h : passArgs m top argv envp = some t) : terminator top ∈ t.stores := by
  obtain ⟨argc, -, hbuilt⟩ := Option.bind_eq_some_iff.mp h
  obtain ⟨b, -, rfl⟩ := Option.map_eq_some_iff.mp hbuilt
  refine List.mem_cons_of_mem _ (List.mem_cons_of_mem _ (List.mem_cons_of_mem _ ?_))
  rw [terminator, ← slot_argc top argc]
  exact List.mem_cons_self

/-! ### What is written -/

/-- How far an address is from where the stack begins. -/
def offset (base a : UInt32) : Nat := (a - base).toNat

/-- What is written lies in a range of offsets, no two pieces of it overlap, and nothing else
is changed. -/
structure Built (m : Memory) (base : UInt32) (lo hi : Nat) (b : Builder) : Prop where
  outside : ∀ a, offset base a < lo ∨ hi ≤ offset base a → b.mem a = m a
  within : ∀ s ∈ b.stores, ∀ a, s.Covers a → lo ≤ offset base a ∧ offset base a < hi
  apart : b.stores.Pairwise Span.Apart

/-- What is in the range already is not touched. -/
def Keeps (base : UInt32) (lo hi : Nat) (mem mem' : Memory) : Prop :=
  ∀ a, lo ≤ offset base a → offset base a < hi → mem' a = mem a

/-- One more piece, at either end of the range. -/
theorem Built.store {m : Memory} {base : UInt32} {lo hi lo' hi' o n : Nat} {b b' : Builder}
    (hb : Built m base lo hi b) (hlo : lo' ≤ lo ∧ lo' ≤ o) (hhi : hi ≤ hi' ∧ o + n ≤ hi')
    (hspace : hi' < 2 ^ 32) (hend : hi ≤ o ∨ o + n ≤ lo)
    (hstores : b'.stores = ⟨base + UInt32.ofNat o, n⟩ :: b.stores)
    (hmem : ∀ a, ¬ (⟨base + UInt32.ofNat o, n⟩ : Span).Covers a → b'.mem a = b.mem a) :
    Built m base lo' hi' b' ∧ Keeps base lo hi b.mem b'.mem := by
  have hcovers : ∀ a, (⟨base + UInt32.ofNat o, n⟩ : Span).Covers a ↔
      o ≤ offset base a ∧ offset base a < o + n := fun a =>
    covers_offset base a (by omega) (by omega)
  refine ⟨⟨fun a ha => ?_, fun s hs a ha => ?_, ?_⟩, fun a halo hahi => hmem a fun ha => ?_⟩
  · exact (hmem a fun hcov => by have := (hcovers a).mp hcov; omega).trans
      (hb.outside a (by omega))
  · rw [hstores] at hs
    rcases List.mem_cons.mp hs with rfl | hs
    · have := (hcovers a).mp ha
      omega
    · have := hb.within s hs a ha
      omega
  · rw [hstores]
    refine List.pairwise_cons.mpr ⟨fun s hs a hnew hold => ?_, hb.apart⟩
    have := (hcovers a).mp hnew
    have := hb.within s hs a hold
    omega
  · have := (hcovers a).mp ha
    omega

/-- A word on top of the range, or below it. -/
theorem Built.setWord {m : Memory} {base : UInt32} {lo hi lo' hi' o : Nat} {b : Builder}
    (hb : Built m base lo hi b) (hlo : lo' ≤ lo ∧ lo' ≤ o) (hhi : hi ≤ hi' ∧ o + 4 ≤ hi')
    (hspace : hi' < 2 ^ 32) (hend : hi ≤ o ∨ o + 4 ≤ lo) {address : UInt32} (value : UInt32)
    (haddress : address = base + UInt32.ofNat o) :
    Built m base lo' hi' (b.setWord address value) ∧
      Keeps base lo hi b.mem (b.setWord address value).mem := by
  subst haddress
  exact hb.store hlo hhi hspace hend rfl fun a ha => setWord_outside _ _ ha

/-! ### What the caller has -/

/-- Behind the stack, and behind the bytes that follow it, or before it. -/
def Away (base : UInt32) (s : Span) : Prop :=
  ∀ a, s.Covers a → KERNEL_STACK_SIZE + 3 ≤ offset base a

/-- The array and the strings of the caller are not where the new task has its stack. -/
structure CallerAway (m : Memory) (base argv : UInt32) (args : List (List UInt8)) : Prop where
  slots : ∀ i < args.length, Away base ⟨slot argv i, 4⟩
  strings : ∀ i (h : i < args.length), Away base ⟨word m (slot argv i), args[i].length + 1⟩

section Reads

variable {m : Memory} {base a : UInt32} {lo hi : Nat} {b : Builder}

theorem Built.word_away (hb : Built m base lo hi b) (hhi : hi ≤ KERNEL_STACK_SIZE + 3)
    (haway : Away base ⟨a, 4⟩) : word b.mem a = word m a :=
  word_congr fun x hx => hb.outside x (Or.inr (Nat.le_trans hhi (haway x hx)))

theorem Built.string_away (hb : Built m base lo hi b) (hhi : hi ≤ KERNEL_STACK_SIZE + 3)
    {s : List UInt8} (haway : Away base ⟨a, s.length + 1⟩) (h : IsString m a s) :
    IsString b.mem a s :=
  h.congr fun x hx => hb.outside x (Or.inr (Nat.le_trans hhi (haway x hx)))

theorem Keeps.word_eq {mem mem' : Memory} (h : Keeps base lo hi mem mem') {o : Nat}
    (ho : lo ≤ o ∧ o + 4 ≤ hi) (hhi : hi < 2 ^ 32) :
    word mem' (base + UInt32.ofNat o) = word mem (base + UInt32.ofNat o) :=
  word_congr fun x hx => by
    have := (covers_offset base x (by omega) (by omega)).mp hx
    exact h x (by unfold offset; omega) (by unfold offset; omega)

theorem Keeps.isString {mem mem' : Memory} (h : Keeps base lo hi mem mem') {o : Nat}
    {s : List UInt8} (ho : lo ≤ o ∧ o + (s.length + 1) ≤ hi) (hhi : hi < 2 ^ 32)
    (hs : IsString mem (base + UInt32.ofNat o) s) : IsString mem' (base + UInt32.ofNat o) s :=
  hs.congr fun x hx => by
    have := (covers_offset base x (by omega) (by omega)).mp hx
    exact h x (by unfold offset; omega) (by unfold offset; omega)

theorem Keeps.trans {mem₁ mem₂ mem₃ : Memory} {lo' hi' : Nat} (h : Keeps base lo hi mem₁ mem₂)
    (h' : Keeps base lo' hi' mem₂ mem₃) (hlo : lo' ≤ lo) (hhi : hi ≤ hi') :
    Keeps base lo hi mem₁ mem₃ :=
  fun x hx hx' => (h' x (Nat.le_trans hlo hx) (Nat.lt_of_lt_of_le hx' hhi)).trans (h x hx hx')

end Reads

theorem sub_ofNat (base : UInt32) {o k : Nat} (h : k ≤ o) :
    base + UInt32.ofNat o - UInt32.ofNat k = base + UInt32.ofNat (o - k) := by
  have hsum : UInt32.ofNat o = UInt32.ofNat (o - k) + UInt32.ofNat k := by
    rw [← UInt32.ofNat_add, Nat.sub_add_cancel h]
  grind

/-! ### The loop -/

section Loop

variable {m : Memory} {base argv newArgv : UInt32} {args : List (List UInt8)}

/-- One turn: a slot on top, a string below. -/
theorem copyArg_spec (haway : CallerAway m base argv args) {lo hi i : Nat} {b : Builder}
    (hb : Built m base lo hi b) (hhi : hi + 4 ≤ KERNEL_STACK_SIZE + 3) (hlo : lo ≤ hi)
    (hi' : i < args.length) (harg : IsString m (word m (slot argv i)) args[i])
    (hroom : args[i].length + 1 ≤ lo) (hstack : b.stack = base + UInt32.ofNat lo)
    (hslot : slot newArgv i = base + UInt32.ofNat hi) :
    ∃ b', copyArg argv newArgv b i = some b' ∧
      Built m base (lo - (args[i].length + 1)) (hi + 4) b' ∧ Keeps base lo hi b.mem b'.mem ∧
      b'.stack = base + UInt32.ofNat (lo - (args[i].length + 1)) ∧
      word b'.mem (slot newArgv i) = b'.stack ∧ IsString b'.mem b'.stack args[i] := by
  have hsmall : hi + 4 < 2 ^ 32 := Nat.lt_of_le_of_lt hhi (by decide)
  have hstrlen : ∀ {mem : Memory}, IsString mem (word m (slot argv i)) args[i] →
      strlen mem space (word m (slot argv i)) = some args[i].length := fun h =>
    strlen_eq _ h h.length_lt
  have hslotAway := haway.slots i hi'
  have hargAway := haway.strings i hi'
  have hlowered : (b.lower (args[i].length + 1)).stack =
      base + UInt32.ofNat (lo - (args[i].length + 1)) := by
    show b.stack - UInt32.ofNat _ = _
    rw [hstack, sub_ofNat base hroom]
  -- the slot is written before the string is measured again
  have hslotted : Built m base lo (hi + 4) ((b.lower (args[i].length + 1)).setWord
      (slot newArgv i) (b.lower (args[i].length + 1)).stack) ∧ Keeps base lo hi b.mem _ :=
    Built.setWord (b := b.lower (args[i].length + 1)) ⟨hb.outside, hb.within, hb.apart⟩
      ⟨Nat.le_refl lo, hlo⟩ (by omega) hsmall (Or.inl (Nat.le_refl hi)) _ hslot
  generalize hb₂ : (b.lower (args[i].length + 1)).setWord (slot newArgv i)
    (b.lower (args[i].length + 1)).stack = b₂ at hslotted
  obtain ⟨hbuilt₂, hkeeps₂⟩ := hslotted
  have hstack₂ : b₂.stack = base + UInt32.ofNat (lo - (args[i].length + 1)) := by
    rw [← hb₂]
    exact hlowered
  have hdest : word b₂.mem (slot newArgv i) = b₂.stack := by
    rw [← hb₂]
    exact word_setWord _ _ _
  have hstring₂ := hbuilt₂.string_away hhi hargAway harg
  have hcopied : Built m base (lo - (args[i].length + 1)) (hi + 4)
      (b₂.copy b₂.stack (word m (slot argv i)) (args[i].length + 1)) ∧
        Keeps base lo (hi + 4) b₂.mem _ :=
    hbuilt₂.store (by omega) (by omega) hsmall (Or.inr (by omega))
      (congrArg (fun a => (⟨a, _⟩ : Span) :: b₂.stores) hstack₂)
      fun a ha => memcpy_outside _ _ _ _ (hstack₂ ▸ ha)
  obtain ⟨hbuilt₃, hkeeps₃⟩ := hcopied
  refine ⟨b₂.copy b₂.stack (word m (slot argv i)) (args[i].length + 1), ?_, hbuilt₃,
    hkeeps₂.trans hkeeps₃ (Nat.le_refl lo) (Nat.le_add_right hi 4), hstack₂, ?_, ?_⟩
  · unfold copyArg
    rw [hb.word_away (by omega) hslotAway,
      hstrlen (hb.string_away (by omega) hargAway harg), Option.bind_some]
    dsimp only
    rw [hb₂, hbuilt₂.word_away hhi hslotAway, hstrlen hstring₂, Option.map_some, hdest]
  · rw [hslot, hkeeps₃.word_eq ⟨hlo, Nat.le_refl _⟩ hsmall, ← hslot, hdest]
    rfl
  · refine hstring₂.copy fun a hsrc hdst => ?_
    rw [hstack₂] at hdst
    have := (covers_offset base a (by omega) (by omega)).mp hdst
    have := hargAway a hsrc
    unfold offset at this
    omega

/-- What the first `i` strings take, each with its 0. -/
def taken (args : List (List UInt8)) (i : Nat) : Nat := ((args.take i).map (·.length + 1)).sum

theorem taken_succ {i : Nat} (hi : i < args.length) :
    taken args (i + 1) = taken args i + (args[i].length + 1) := by
  unfold taken
  rw [List.take_succ_eq_append_getElem hi, List.map_append, List.sum_append, List.map_singleton,
    List.sum_singleton]

theorem taken_mono {i j : Nat} (h : i ≤ j) : taken args i ≤ taken args j := by
  unfold taken
  rw [← Nat.add_sub_cancel' h, List.take_add, List.map_append, List.sum_append]
  exact Nat.le_add_right _ _

/-- After `i` turns, where the array starts at the offset `start`. -/
structure Copied (m : Memory) (base newArgv : UInt32) (args : List (List UInt8)) (start i : Nat)
    (b : Builder) : Prop where
  built : Built m base (start - taken args i) (start + 4 * i) b
  stack : b.stack = base + UInt32.ofNat (start - taken args i)
  entries : ∀ j (h : j < args.length), j < i →
    word b.mem (slot newArgv j) = base + UInt32.ofNat (start - taken args (j + 1)) ∧
      IsString b.mem (base + UInt32.ofNat (start - taken args (j + 1))) args[j]

/-- What follows leaves the strings and their slots alone. -/
theorem Copied.entries_kept {start i : Nat} {b : Builder} {mem : Memory}
    (hc : Copied m base newArgv args start i b)
    (hkeeps : Keeps base (start - taken args i) (start + 4 * i) b.mem mem)
    (hnew : newArgv = base + UInt32.ofNat start) (hfits : taken args args.length ≤ start)
    (hsmall : start + 4 * i < 2 ^ 32) (j : Nat) (h : j < args.length) (hj : j < i) :
    word mem (slot newArgv j) = base + UInt32.ofNat (start - taken args (j + 1)) ∧
      IsString mem (base + UInt32.ofNat (start - taken args (j + 1))) args[j] := by
  obtain ⟨hword, hstring⟩ := hc.entries j h hj
  have htaken := taken_succ h
  have hle : taken args (j + 1) ≤ taken args i := taken_mono hj
  have hall : taken args (j + 1) ≤ taken args args.length := taken_mono h
  have hslot : slot newArgv j = base + UInt32.ofNat (start + 4 * j) := by
    rw [slot, hnew, add_ofNat_add]
  refine ⟨?_, hkeeps.isString (by omega) hsmall hstring⟩
  rw [hslot, hkeeps.word_eq (by omega) hsmall, ← hslot, hword]

theorem copyArgs_spec (haway : CallerAway m base argv args) {start : Nat} {b : Builder}
    (hb : Copied m base newArgv args start 0 b) (hnew : newArgv = base + UInt32.ofNat start)
    (hargs : ∀ i (h : i < args.length), IsString m (word m (slot argv i)) args[i])
    (hfits : taken args args.length ≤ start)
    (htop : start + 4 * args.length ≤ KERNEL_STACK_SIZE) :
    ∀ i ≤ args.length, ∃ b', (List.range i).foldlM (copyArg argv newArgv) b = some b' ∧
      Copied m base newArgv args start i b' := by
  intro i
  induction i with
  | zero => exact fun _ => ⟨b, rfl, hb⟩
  | succ i ih =>
      intro hi
      obtain ⟨b₁, hfold, hc⟩ := ih (Nat.le_of_succ_le hi)
      have htaken := taken_succ hi
      have hall : taken args (i + 1) ≤ taken args args.length := taken_mono hi
      have hslot : slot newArgv i = base + UInt32.ofNat (start + 4 * i) := by
        rw [slot, hnew, add_ofNat_add]
      obtain ⟨b₂, hcopy, hbuilt, hkeeps, hstack, hword, hstring⟩ := copyArg_spec haway hc.built
        (by omega) (by omega) hi (hargs i hi) (by omega) hc.stack hslot
      have hsmall : start + 4 * i < 2 ^ 32 :=
        Nat.lt_of_le_of_lt (by omega : _ ≤ KERNEL_STACK_SIZE) (by decide)
      rw [show start - taken args i - (args[i].length + 1) = start - taken args (i + 1) by omega]
        at hbuilt hstack
      refine ⟨b₂, ?_, hbuilt, hstack, fun j h hj => ?_⟩
      · rw [List.range_succ, List.foldlM_append, hfold, Option.bind_eq_bind, Option.bind_some,
          List.foldlM_cons, hcopy]
        rfl
      · rcases Nat.lt_succ_iff_lt_or_eq.mp hj with hlt | rfl
        · exact hc.entries_kept hkeeps hnew hfits hsmall j h hlt
        · exact ⟨hword.trans hstack, hstack ▸ hstring⟩

end Loop

/-! ### The whole -/

theorem countArgs_eq {m : Memory} : ∀ {args : List (List UInt8)} {argv : UInt32} {fuel : Nat},
    ArgvIs m argv args → args.length < fuel → countArgs m fuel argv = some args.length := by
  have hnext : ∀ (argv : UInt32) i, slot (argv + 4) i = slot argv (i + 1) := fun argv i => by
    unfold slot
    rw [Nat.mul_succ, UInt32.ofNat_add, show UInt32.ofNat 4 = 4 from rfl]
    grind
  have hfirst : ∀ argv, slot argv 0 = argv := add_ofNat_zero
  intro args
  induction args with
  | nil =>
      intro argv fuel h hfuel
      obtain ⟨fuel, rfl⟩ := Nat.exists_eq_add_of_lt hfuel
      have hstop := h.stop
      rw [List.length_nil, hfirst] at hstop
      rw [countArgs, if_pos hstop]
      rfl
  | cons arg args ih =>
      intro argv fuel h hfuel
      obtain ⟨fuel, rfl⟩ := Nat.exists_eq_add_of_lt hfuel
      have hne := (h.entries 0 (Nat.succ_pos _)).1
      rw [hfirst] at hne
      have hrest : ArgvIs m (argv + 4) args := by
        refine ⟨fun i hi => ?_, ?_⟩
        · rw [hnext]
          exact h.entries (i + 1) (Nat.succ_lt_succ hi)
        · rw [hnext]
          exact h.stop
      rw [countArgs, if_neg hne, ih hrest (by rw [List.length_cons]; omega)]
      rfl

theorem argCount_eq {m : Memory} {argv : UInt32} {args : List (List UInt8)}
    (h : Passes m argv args) (hlength : args.length < space) :
    argCount m argv = some args.length := by
  unfold argCount
  rcases h with ⟨hnull, rfl⟩ | ⟨hne, hargv⟩
  · rw [if_pos hnull]
    rfl
  · rw [if_neg hne]
    exact countArgs_eq hargv hlength

/-- A pushed word goes below everything. -/
theorem Built.push {m : Memory} {base : UInt32} {lo hi : Nat} {b : Builder}
    (hb : Built m base lo hi b) (hstack : b.stack = base + UInt32.ofNat lo) (hroom : 4 ≤ lo)
    (hlo : lo ≤ hi) (hspace : hi < 2 ^ 32) (data : UInt32) :
    Built m base (lo - 4) hi (b.push data) ∧ Keeps base lo hi b.mem (b.push data).mem ∧
      (b.push data).stack = base + UInt32.ofNat (lo - 4) ∧
      word (b.push data).mem (base + UInt32.ofNat (lo - 4)) = data := by
  have haddress : b.stack - 4 = base + UInt32.ofNat (lo - 4) := by
    rw [hstack, ← sub_ofNat base hroom]
    rfl
  obtain ⟨hbuilt, hkeeps⟩ : Built m base (lo - 4) hi (b.push data) ∧ Keeps base lo hi b.mem _ :=
    Built.setWord (b := b.lower 4) ⟨hb.outside, hb.within, hb.apart⟩ (by omega) (by omega) hspace
      (Or.inr (by omega)) data haddress
  refine ⟨hbuilt, hkeeps, haddress, ?_⟩
  rw [← haddress]
  exact word_setWord _ _ _

/-- Where there is room, only the null pointer does not lie on the stack. -/
structure PassedButEnd (top : UInt32) (args : List (List UInt8)) (t : NewTask) : Prop where
  inside : ∀ s ∈ t.stores, s ≠ terminator top → s.Inside (stackBlock top)
  apart : t.stores.Pairwise Span.Apart
  sees : Sees t args

section Finish

variable {m : Memory} {base newArgv envp : UInt32} {args : List (List UInt8)} {start : Nat}
  {b : Builder}

/-- The last four words, around what the loop has left. -/
theorem finish_spec (hc : Copied m base newArgv args start args.length b)
    (hnew : newArgv = base + UInt32.ofNat start) (hroom : taken args args.length + 12 ≤ start)
    (hend : start + 4 * args.length + 1 = KERNEL_STACK_SIZE)
    (hnull : ∀ o < KERNEL_STACK_SIZE, base + UInt32.ofNat o ≠ 0) :
    ∃ b', (((b.setWord (slot newArgv args.length) 0).push envp).push newArgv).push
        (UInt32.ofNat args.length) = b' ∧
      Built m base (start - taken args args.length - 12) (KERNEL_STACK_SIZE + 3) b' ∧
      Sees ⟨b'.mem, newArgv, b'.stack, b'.stores⟩ args := by
  have hK : KERNEL_STACK_SIZE = 0x800 := rfl
  have hslot : slot newArgv args.length = base + UInt32.ofNat (start + 4 * args.length) := by
    rw [slot, hnew, add_ofNat_add]
  obtain ⟨hbuilt₁, hkeeps₁⟩ : Built m base (start - taken args args.length) (KERNEL_STACK_SIZE + 3)
      (b.setWord (slot newArgv args.length) 0) ∧ Keeps base _ _ b.mem _ :=
    hc.built.setWord (by omega) (by omega) (by omega) (Or.inl (Nat.le_refl _)) 0 hslot
  have hzero : word (b.setWord (slot newArgv args.length) 0).mem (slot newArgv args.length) = 0 :=
    word_setWord _ _ _
  have hstack₁ : (b.setWord (slot newArgv args.length) 0).stack = _ := hc.stack
  generalize b.setWord (slot newArgv args.length) 0 = b₁ at *
  obtain ⟨hbuilt₂, hkeeps₂, hstack₂, -⟩ :=
    hbuilt₁.push hstack₁ (by omega) (by omega) (by omega) envp
  obtain ⟨hbuilt₃, hkeeps₃, hstack₃, hargv⟩ :=
    hbuilt₂.push hstack₂ (by omega) (by omega) (by omega) newArgv
  obtain ⟨hbuilt₄, hkeeps₄, hstack₄, hargc⟩ :=
    hbuilt₃.push hstack₃ (by omega) (by omega) (by omega) (UInt32.ofNat args.length)
  have hpushed := (hkeeps₂.trans hkeeps₃ (Nat.sub_le _ _) (Nat.le_refl _)).trans hkeeps₄
    (by omega) (Nat.le_refl _)
  have hall := hkeeps₁.trans hpushed (Nat.le_refl _) (by omega)
  refine ⟨_, rfl, hbuilt₄, hstack₄ ▸ hargc, ?_, fun j hj => ?_, ?_⟩
  · dsimp only
    rw [hstack₄, show (4 : UInt32) = UInt32.ofNat 4 from rfl, add_ofNat_add,
      show start - taken args args.length - 4 - 4 - 4 + 4 =
        start - taken args args.length - 4 - 4 by omega,
      hkeeps₄.word_eq (by omega) (by omega), hargv]
  · obtain ⟨hword, hstring⟩ := hc.entries_kept hall hnew (by omega) (by omega) j hj hj
    dsimp only
    rw [hword]
    exact ⟨hnull _ (by omega), hstring⟩
  · dsimp only
    rw [hslot, hpushed.word_eq (by omega) (by omega), ← hslot, hzero]

end Finish

theorem passArgs_fits {m : Memory} {top argv : UInt32} {args : List (List UInt8)}
    (hpasses : Passes m argv args)
    (haway : CallerAway m (top - UInt32.ofNat KERNEL_STACK_SIZE) argv args)
    (hfits : 4 * args.length + 1 + taken args args.length + 12 ≤ KERNEL_STACK_SIZE)
    (hnull : ¬ (stackBlock top).Covers 0) (envp : UInt32) :
    ∃ t, passArgs m top argv envp = some t ∧ PassedButEnd top args t := by
  have hK : KERNEL_STACK_SIZE = 0x800 := rfl
  generalize hbase : top - UInt32.ofNat KERNEL_STACK_SIZE = base at haway
  have htop : top = base + UInt32.ofNat KERNEL_STACK_SIZE := by grind
  have hnew : top - UInt32.ofNat (4 * args.length + 1) =
      base + UInt32.ofNat (KERNEL_STACK_SIZE - (4 * args.length + 1)) := by
    rw [htop, sub_ofNat base (by omega)]
  have hstrings : ∀ i (h : i < args.length), IsString m (word m (slot argv i)) args[i] := by
    rcases hpasses with ⟨-, rfl⟩ | ⟨-, hargv⟩
    · exact fun i h => absurd h (Nat.not_lt_zero i)
    · exact fun i h => (hargv.entries i h).2
  have hstart : Copied m base (top - UInt32.ofNat (4 * args.length + 1)) args
      (KERNEL_STACK_SIZE - (4 * args.length + 1)) 0
      (Builder.lower ⟨m, top, []⟩ (4 * args.length + 1)) :=
    ⟨⟨fun _ _ => rfl, fun s hs => absurd hs List.not_mem_nil, List.Pairwise.nil⟩, hnew,
      fun _ _ hj => absurd hj (Nat.not_lt_zero _)⟩
  obtain ⟨b, hfold, hc⟩ := copyArgs_spec haway hstart hnew hstrings (by omega) (by omega)
    args.length (Nat.le_refl _)
  obtain ⟨b', hb', hbuilt, hsees⟩ := @finish_spec m base _ envp args _ b hc hnew (by omega)
    (by omega) fun o ho hzero => hnull (by
      rw [stackBlock, hbase, ← hzero]
      exact covers_ofNat base ho (by omega))
  have hpass : passArgs m top argv envp =
      some ⟨b'.mem, top - UInt32.ofNat (4 * args.length + 1), b'.stack, b'.stores⟩ := by
    unfold passArgs
    rw [argCount_eq hpasses (by unfold space; omega), Option.bind_some, ← hb']
    exact congrArg (Option.map _) hfold
  refine ⟨_, hpass, fun s hs hne a ha => ?_, hbuilt.apart, hsees⟩
  have hapart : s.Apart (terminator top) :=
    hbuilt.apart.forall hs (passArgs_terminator hpass) hne
  have hlast : top - 1 = base + UInt32.ofNat (KERNEL_STACK_SIZE - 1) := by
    rw [htop, ← sub_ofNat base (by omega)]
    rfl
  have hwithin := hbuilt.within s hs a ha
  have hout := hapart a ha
  rw [terminator, hlast, covers_offset base a (by omega) (by omega)] at hout
  show (a - (top - UInt32.ofNat KERNEL_STACK_SIZE)).toNat < KERNEL_STACK_SIZE
  rw [hbase]
  unfold offset at hwithin
  omega

/--
**No task gets its arguments on its stack**, whatever they are.  `create_process` refuses none
either: there is no such way out of it.
-/
theorem create_process_leaves_stack (m : Memory) (top argv envp : UInt32) :
    ¬ ∃ t, passArgs m top argv envp = some t ∧ PassedOnStack m top argv t := by
  rintro ⟨t, hpass, hpassed⟩
  exact terminator_leaves top (hpassed.inside _ (passArgs_terminator hpass))

/-- An array of one string, `sh`, at 1 MB. -/
def shMemory : Memory := fun a =>
  if a = 0x100000 then 0x08 else if a = 0x100002 then 0x10 else if a = 0x100008 then 115
  else if a = 0x100009 then 104 else 0

theorem shMemory_passes : Passes shMemory 0x100000 [[115, 104]] := by
  refine Or.inr ⟨by decide, fun i hi => ?_, by decide⟩
  obtain rfl : i = 0 := by rw [List.length_singleton] at hi; omega
  have hword : word shMemory (slot 0x100000 0) = 0x100008 := by decide
  have hstring : IsString shMemory 0x100008 [115, 104] := ⟨by decide, by decide, by decide⟩
  exact hword ▸ ⟨by decide, hstring⟩

theorem shMemory_away : CallerAway shMemory 0xd0000000 0x100000 [[115, 104]] := by
  have haway : ∀ o n : Nat, o + n ≤ 0x1000 →
      Away 0xd0000000 ⟨0xd0000000 + UInt32.ofNat (0x30100000 + o), n⟩ := by
    intro o n hle a ha
    have hcov := (covers_offset 0xd0000000 a (by omega) (by omega)).mp ha
    have hK : KERNEL_STACK_SIZE = 0x800 := rfl
    unfold offset
    omega
  constructor
  · intro i hi
    obtain rfl : i = 0 := by rw [List.length_singleton] at hi; omega
    exact haway 0 4 (by omega)
  · intro i hi
    obtain rfl : i = 0 := by rw [List.length_singleton] at hi; omega
    exact haway 8 3 (by omega)

/-- **One short argument**, for which there is all the room in the world. -/
theorem create_process_leaves_stack_sh : ∃ t, passArgs shMemory 0xd0000800 0x100000 0 = some t ∧
    ¬ PassedOnStack shMemory 0xd0000800 0x100000 t := by
  obtain ⟨t, hpass, -⟩ := passArgs_fits shMemory_passes shMemory_away (by decide)
    (by decide : ¬ (stackBlock 0xd0000800).Covers 0) 0
  exact ⟨t, hpass, fun hpassed =>
    terminator_leaves _ (hpassed.inside _ (passArgs_terminator hpass))⟩

end OsThing.Arguments
