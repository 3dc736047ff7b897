import Xv6.ExecImage
import Xv6.ExecStack

/-!
# The second half of `exec`

The stack gets its pages and its arguments. Then the process is switched to the new page table
and the old one is freed; nothing can fail from there on.
-/
namespace Xv6.Exec

open Vm Prog Function

variable {L : Layout} {y R x : Multiset ℕ} {s s' s₀ : Vm.State} {σ σ' : State} {p : Pid}
  {r v sz tf old : ℕ}

/-- What a function leaves of the memory that was in use: all of it. -/
structure Restored (L : Layout) (y : Multiset ℕ) (s s' : Vm.State) : Prop where
  own : Own L s' (roots s) (frames s + s.pipes + y)
  others : Others (.user L) (roots s) s s'
  untouched : Untouched (frames s + s.pipes + y) s s'

lemma Restored.refl (h : MemInv L y s) : Restored L y s s := ⟨h.own, .refl, .refl⟩

lemma Restored.freelist (h : MemInv L y s) (hs' : Restored L y s s') :
    (s'.freelist : Multiset ℕ) = s.freelist := by
  have heq := hs'.own.eq
  rw [hs'.others.sum_eq, ← h.own.eq] at heq
  exact add_right_cancel (add_right_cancel heq)

/-- Without the lock, the reference and the transaction of the program's inode. -/
abbrev released (σ : State) : State :=
  { σ with locked := false, refs := σ.refs - 1, outstanding := σ.outstanding - 1 }

/-- The memory after `exec`: the user sees the program as it was loaded up to `sz`, and the arguments
in a stack page; the page between them is not for the user, and all zero. -/
structure StackReady (p : Pid) (r sz : ℕ) (argv : List (List UInt8)) (sp : ℕ) (s s' : Vm.State) :
    Prop where
  program : ∀ a, a / PGSIZE < npages sz → Data.userByte s' p r a = byteAt s r a
  guard : ∃ e, lookup s'.mem r (npages sz) = some e ∧ Pte.user e = false
  zero : ∀ a, a / PGSIZE = npages sz → byteAt s' r a = some 0
  stack : ∃ e, lookup s'.mem r (npages sz + 1) = some e ∧ Pte.user e = true ∧ Pte.writable e = true
  args : ∃ ptrs, ArgStack ((npages sz + 1) * PGSIZE) ((npages sz + 2) * PGSIZE) argv sp ptrs
    (Data.userByte s' p r)

/-- Where the stack pointer must be, as an integer, and the lowest address it may have. -/
def Fits (sz : ℕ) (argv : List (List UInt8)) : Prop :=
  ((npages sz + 1) * PGSIZE : ℕ) ≤ bottom ((npages sz + 2) * PGSIZE : ℕ) argv

end Xv6.Exec
