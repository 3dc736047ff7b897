import Mathlib.Tactic

/-!
# Traces of atomic writes

A store is a function from addresses to values and a trace is the list of the
writes issued to it, oldest first. A crash keeps a prefix of the trace, so the
lemmas say what a prefix can and cannot have changed.
-/
namespace WriteTrace

variable {α β : Type*} [DecidableEq α]

/-- The store after all writes of the trace, in order. -/
def apply (ws : List (α × β)) (d : α → β) : α → β :=
  ws.foldl (fun d w => Function.update d w.1 w.2) d

@[simp] theorem apply_nil (d : α → β) : apply [] d = d := rfl

theorem apply_append (ws vs : List (α × β)) (d : α → β) :
    apply (ws ++ vs) d = apply vs (apply ws d) := by
  simp [apply, List.foldl_append]

@[simp] theorem apply_singleton (a : α) (v : β) (d : α → β) :
    apply [(a, v)] d = Function.update d a v := rfl

/-- An address that no write names keeps its value. -/
theorem apply_of_forall_ne (ws : List (α × β)) (d : α → β) (a : α)
    (h : ∀ w ∈ ws, w.1 ≠ a) : apply ws d a = d a := by
  induction ws generalizing d with
  | nil => rfl
  | cons w ws ih =>
    have hw : a ≠ w.1 := (h w List.mem_cons_self).symm
    have hws : ∀ v ∈ ws, v.1 ≠ a := fun v hv => h v (List.mem_cons_of_mem _ hv)
    have hstep : apply (w :: ws) d = apply ws (Function.update d w.1 w.2) := rfl
    rw [hstep, ih _ hws, Function.update_of_ne hw]

/-- When all writes to an address carry the same value, that value is read
back after them. -/
theorem apply_of_forall_eq (ws : List (α × β)) (d : α → β) (a : α) (v : β)
    (hmem : ∃ w ∈ ws, w.1 = a) (hval : ∀ w ∈ ws, w.1 = a → w.2 = v) :
    apply ws d a = v := by
  induction ws generalizing d with
  | nil => simp at hmem
  | cons w ws ih =>
    have hws : ∀ u ∈ ws, u.1 = a → u.2 = v := fun u hu => hval u (List.mem_cons_of_mem _ hu)
    have hstep : apply (w :: ws) d = apply ws (Function.update d w.1 w.2) := rfl
    rw [hstep]
    by_cases hlater : ∃ u ∈ ws, u.1 = a
    · exact ih _ hlater hws
    · have hnone : ∀ u ∈ ws, u.1 ≠ a := fun u hu he => hlater ⟨u, hu, he⟩
      have hw : w.1 = a := by
        obtain ⟨u, hu, he⟩ := hmem
        rcases List.mem_cons.mp hu with rfl | hu
        · exact he
        · exact absurd he (hnone u hu)
      rw [apply_of_forall_ne _ _ _ hnone, ← hw, Function.update_self]
      exact hval w List.mem_cons_self hw

end WriteTrace
