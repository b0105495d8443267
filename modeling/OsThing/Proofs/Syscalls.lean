/-
Which system calls are dispatched inside the table.

The bound that `eax` is compared with is the size of the table in bytes, and what is indexed
are its entries of four bytes.  So the numbers from 27 to 107 pass the test and have no entry.
`syscall_sigreturn` uses the first of them.
-/
import OsThing.Kern.Syscall
import Mathlib.Tactic.Common

namespace OsThing.Syscall

/-- The call goes to an address that was taken from an initialised entry of the table. -/
def Call.InTable (image : KernelImage) (call : Call) : Prop :=
  ∃ f, syscalls[call.index]? = some f ∧ call.location = image.address f

/-- The handler returns without a call, or its call is one of the table. -/
def StaysInTable (image : KernelImage) (regs : Registers) : Prop :=
  ∀ call, dispatch image regs = some call → call.InTable image

section Dispatch

variable {image : KernelImage} {regs : Registers} {call : Call}

theorem dispatch_none (h : numSyscalls ≤ regs.eax.toNat) : dispatch image regs = none :=
  if_pos h

theorem dispatch_some (h : regs.eax.toNat < numSyscalls) :
    dispatch image regs = some
      { index := regs.eax.toNat
        location := image.word regs.eax.toNat
        args := [regs.ebx, regs.ecx, regs.edx, regs.esi, regs.edi] } :=
  if_neg (Nat.not_le.mpr h)

/-- Where the address of a call comes from. -/
theorem dispatch_index (h : dispatch image regs = some call) :
    call.index = regs.eax.toNat ∧ call.location = image.word call.index := by
  rcases Nat.lt_or_ge regs.eax.toNat numSyscalls with hlt | hge
  · obtain rfl := Option.some.inj ((dispatch_some hlt).symm.trans h)
    exact ⟨rfl, rfl⟩
  · rw [dispatch_none hge] at h
    cases h

/-- A word of the table is the address of the function it names. -/
theorem word_entry {index : Nat} {f : Function} (h : syscalls[index]? = some f) :
    image.word index = image.address f := by
  rw [KernelImage.word, h]

end Dispatch

/--
**Which calls stay in the table.**  The handler returns, or calls what an initialised entry
names, exactly for the numbers that have an entry and for those that are not smaller than the
size of the table in bytes.
-/
theorem dispatch_in_table_iff (image : KernelImage) (regs : Registers) :
    StaysInTable image regs ↔
      regs.eax.toNat < syscalls.length ∨ numSyscalls ≤ regs.eax.toNat := by
  constructor
  · intro h
    by_contra hneither
    rw [not_or, Nat.not_lt, Nat.not_le] at hneither
    obtain ⟨f, hentry, -⟩ := h _ (dispatch_some hneither.2)
    rw [List.getElem?_eq_none hneither.1] at hentry
    cases hentry
  · rintro (hentry | hrefused) call hcall
    · obtain ⟨hindex, hlocation⟩ := dispatch_index hcall
      obtain ⟨f, hf⟩ : ∃ f, syscalls[call.index]? = some f :=
        ⟨_, List.getElem?_eq_getElem (hindex ▸ hentry)⟩
      exact ⟨f, hf, hlocation.trans (word_entry hf)⟩
    · rw [dispatch_none hrefused] at hcall
      cases hcall

/-- The number of `sigreturn` has no entry, and the word behind the table is called. -/
theorem sigreturn_leaves_table :
    ¬ ∀ (image : KernelImage) (regs : Registers), StaysInTable image regs := by
  intro h
  have hcall : dispatch ⟨fun _ => 0x100000, fun _ => 0xdeadbeef⟩ ⟨27, 0, 0, 0, 0, 0⟩ =
      some ⟨27, 0xdeadbeef, [0, 0, 0, 0, 0]⟩ := rfl
  obtain ⟨f, hf, -⟩ := h _ _ _ hcall
  cases hf

end OsThing.Syscall
