import Mathlib.Logic.Function.Basic
import Mathlib.Tactic

/-!
# Allocation maps

A free map with one bit for each block below `hi`, and a family of places that
may each refer to a block; place value 0 refers to none. The map is exact when no
two places refer to one block, every reference lies in `[lo, hi)`, and a bit is
set exactly for the blocks below `lo` and the referenced ones.
-/
namespace Owners

variable {ι : Type*} {lo hi : ℕ} {bits : ℕ → Bool} {R : ι → ℕ}

structure Exact (lo hi : ℕ) (bits : ℕ → Bool) (R : ι → ℕ) : Prop where
  inj : ∀ x y, R x ≠ 0 → R x = R y → x = y
  range : ∀ x, R x ≠ 0 → lo ≤ R x ∧ R x < hi
  bits : ∀ b, b < hi → (bits b = true ↔ b < lo ∨ ∃ x, R x = b)

namespace Exact

theorem bit_of_ref (h : Exact lo hi bits R) (x : ι) (hx : R x ≠ 0) : bits (R x) = true :=
  (h.bits _ (h.range x hx).2).mpr (Or.inr ⟨x, rfl⟩)

theorem free_of_bit (h : Exact lo hi bits R) {b : ℕ} (hb : b < hi) (hbit : bits b = false) :
    lo ≤ b ∧ ∀ x, R x ≠ b := by
  have hn : ¬ (b < lo ∨ ∃ x, R x = b) := by
    rw [← h.bits b hb, hbit]
    simp
  push Not at hn
  exact hn

/-- Two places that refer to blocks are the same as soon as the blocks are. -/
theorem ne_of_ne (h : Exact lo hi bits R) {x y : ι} (hx : R x ≠ 0) (hxy : x ≠ y) : R x ≠ R y :=
  fun he => hxy (h.inj x y hx he)

section Update

variable [DecidableEq ι]

/-- Taking a free block and storing its number in an empty place. -/
theorem alloc (h : Exact lo hi bits R) (hlo : 0 < lo) {x : ι} (hx : R x = 0) {b : ℕ}
    (hb : b < hi) (hbit : bits b = false) :
    Exact lo hi (Function.update bits b true) (Function.update R x b) := by
  obtain ⟨hge, hfree⟩ := h.free_of_bit hb hbit
  obtain ⟨hinj, hrange, hbits⟩ := h
  refine ⟨fun y z => ?_, fun y => ?_, fun c hc => ?_⟩
  · simp only [Function.update_apply]
    grind
  · simp only [Function.update_apply]
    grind
  · have hset : ∃ y, Function.update R x b y = b := ⟨x, Function.update_self ..⟩
    simp only [Function.update_apply] at hset ⊢
    grind

end Update

/-- Releasing the blocks of a set of places. -/
theorem release (h : Exact lo hi bits R) (hlo : 0 < lo) (S : ι → Prop) {bits' : ℕ → Bool}
    {R' : ι → ℕ} (hin : ∀ x, S x → R' x = 0) (hout : ∀ x, ¬ S x → R' x = R x)
    (hclear : ∀ x, S x → R x ≠ 0 → bits' (R x) = false)
    (hkeep : ∀ b, (∀ x, S x → R x ≠ 0 → R x ≠ b) → bits' b = bits b) :
    Exact lo hi bits' R' := by
  have hsub : ∀ x, R' x ≠ 0 → ¬ S x ∧ R' x = R x := by
    intro x hx
    have hns : ¬ S x := fun hs => hx (hin x hs)
    exact ⟨hns, hout x hns⟩
  obtain ⟨hinj, hrange, hbits⟩ := h
  refine ⟨by grind, by grind, fun b hb => ?_⟩
  by_cases hrel : ∃ x, S x ∧ R x ≠ 0 ∧ R x = b
  · grind
  · grind

end Exact

end Owners
