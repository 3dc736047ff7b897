import Mathlib.Data.List.Basic
import Mathlib.Logic.Function.Basic
import Mathlib.Tactic

/-!
# Items held by at most one holder

Holders take items from a free pool and give them back. Nobody holds an item twice, no
two holders hold the same one, and an item is free exactly when nobody holds it.
-/
namespace Holdings

open Function

variable {T ι : Type*} {free free' : ι → Prop} {held : T → List ι} {t u : T} {i : ι}

structure Partition (free : ι → Prop) (held : T → List ι) : Prop where
  nodup : ∀ t, (held t).Nodup
  disjoint : ∀ t u i, i ∈ held t → i ∈ held u → t = u
  free : ∀ i, free i ↔ ∀ t, i ∉ held t

namespace Partition

lemma not_free (h : Partition free held) (hi : i ∈ held t) : ¬ free i :=
  fun hf => (h.free i).mp hf t hi

theorem congr {held' : T → List ι} (h : Partition free held) (hfree : ∀ i, free' i ↔ free i)
    (hheld : held' = held) : Partition free' held' := by
  subst hheld
  exact ⟨h.nodup, h.disjoint, fun i => (hfree i).trans (h.free i)⟩

/-- A holder exchanges what it holds for `l`, which it held or which was free. -/
theorem exchange [DecidableEq T] (h : Partition free held) {l : List ι} (hnodup : l.Nodup)
    (hl : ∀ i ∈ l, i ∈ held t ∨ free i)
    (hfree : ∀ i, free' i ↔ i ∉ l ∧ (free i ∨ i ∈ held t)) :
    Partition free' (update held t l) := by
  obtain ⟨hnd, hdisj, hf⟩ := h
  constructor
  all_goals simp only [update_apply]
  all_goals grind

end Partition

end Holdings
