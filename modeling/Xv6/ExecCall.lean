import Xv6.ExecSafety

/-!
# `sys_exec`

The arguments are copied into pages of the kernel, which are freed again whatever `kexec` does. A
copy may allocate pages of the process that it has asked for; it sees the same memory.
-/
namespace Xv6.Exec

open Vm Prog Function

variable {L : Layout} {y a b : Multiset ℕ} {s s₁ s₂ : Vm.State} {σ : State} {p : Pid}
  {namei : List UInt8 → Option File} {r tf pa : ℕ}

/-- The process sees what it saw, and the kernel holds the pages `a` more than before. -/
structure Calm (L : Layout) (y a : Multiset ℕ) (p : Pid) (r : ℕ) (s s' : Vm.State) : Prop where
  space : Data.AddressSpace L (a + y) p r s'
  proc : s'.proc = s.proc
  pipes : s'.pipes = s.pipes
  view : ∀ c, Data.userByte s' p r c = Data.userByte s p r c
  held : Untouched (frames s + s.pipes + y) s s'

lemma Calm.refl (h : Data.AddressSpace L y p r s) : Calm L y 0 p r s s where
  space := by
    rw [zero_add]
    exact h
  proc := rfl
  pipes := rfl
  view _ := rfl
  held := .refl

lemma Calm.step (h : Calm L y a p r s s₁) (hothers : Others (.user L) (roots s₁) s₁ s₂)
    (hown : Own L s₂ (roots s₁) (frames s₁ + s₁.pipes + (b + y)))
    (hheld : Untouched (frames s + s.pipes + y) s₁ s₂) : Calm L y b p r s s₂ := by
  have hroots := roots_of_some h.space.table
  have hmem : r ∈ roots s₁ := hroots ▸ Multiset.mem_cons_self r _
  have hspace : Data.AddressSpace L (b + y) p r s₂ := by
    refine ⟨h.space.inv.of_others hothers hown, ?_, ?_⟩
    · rw [hothers.proc]
      exact h.space.table
    · rw [hothers.lookup hmem]
      exact h.space.traps
  refine ⟨hspace, hothers.proc.trans h.proc, hothers.pipes.trans h.pipes, ?_, h.held.trans hheld⟩
  intro c
  rw [← h.view c]
  by_cases hc : c / PGSIZE < trapVpn
  · rw [hroots] at hothers
    exact userByte_of_others hc hothers
  · rw [hspace.userByte_trap (not_lt.mp hc), h.space.userByte_trap (not_lt.mp hc)]

lemma Calm.frames_eq (h : Calm L y a p r s s₁) : frames s₁ = frames s := by
  rw [frames, frames, h.proc]

lemma Calm.le (h : Calm L y a p r s s₁) :
    frames s + s.pipes + y ≤ frames s₁ + s₁.pipes + (a + y) := by
  rw [h.frames_eq, h.pipes]
  exact Multiset.add_le_add_left (Multiset.le_add_left _ _)

end Xv6.Exec
