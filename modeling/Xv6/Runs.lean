import Mathlib.Tactic

/-!
# Runs of a labelled step function

A step function takes a state and a label (who moves and how) to the next state,
or to `none` when that move is not possible. A run executes a list of labels.
A condition on steps is checked in the state before each step.
-/
namespace Runs

variable {σ ι : Type*}

/-- The state after executing the labels in order. -/
def exec (step : σ → ι → Option σ) : σ → List ι → Option σ
  | s, [] => some s
  | s, a :: as => (step s a).bind fun s' => exec step s' as

/-- Every executed step meets the condition in the state before it. -/
def Admitted (step : σ → ι → Option σ) (C : σ → ι → Prop) : σ → List ι → Prop
  | _, [] => True
  | s, a :: as => C s a ∧ ((step s a).elim True fun s' => Admitted step C s' as)

instance (step : σ → ι → Option σ) (C : σ → ι → Prop) [∀ s a, Decidable (C s a)] :
    ∀ s as, Decidable (Admitted step C s as)
  | _, [] => isTrue trivial
  | s, a :: as =>
    have : Decidable ((step s a).elim True fun s' => Admitted step C s' as) :=
      match step s a with
      | none => isTrue trivial
      | some s' => instDecidableAdmitted step C s' as
    inferInstanceAs (Decidable (C s a ∧ _))

variable {step : σ → ι → Option σ} {C : σ → ι → Prop}

theorem exec_append (as bs : List ι) (s : σ) :
    exec step s (as ++ bs) = (exec step s as).bind fun t => exec step t bs := by
  induction as generalizing s with
  | nil => rfl
  | cons a as ih =>
    rw [List.cons_append, exec, exec, Option.bind_assoc]
    congr 1
    funext t
    exact ih t

variable {I : σ → Prop} {as : List ι}

/-- An invariant kept by every step that meets the condition holds after every
run whose steps all meet it. -/
theorem invariant_of_admitted (hstep : ∀ s a s', I s → C s a → step s a = some s' → I s') {s s' : σ}
    (h0 : I s) (hC : Admitted step C s as) (h : exec step s as = some s') : I s' := by
  induction as generalizing s with
  | nil =>
    obtain rfl : s = s' := by simpa [exec] using h
    exact h0
  | cons a as ih =>
    obtain ⟨hCa, hCs⟩ := hC
    obtain ⟨t, ht, hrest⟩ := Option.bind_eq_some_iff.mp h
    rw [ht] at hCs
    exact ih (hstep s a t h0 hCa ht) hCs hrest

lemma admitted_of_forall {V : ι → Prop} (hV : ∀ a ∈ as, V a) {s : σ} :
    Admitted step (fun _ a => V a) s as := by
  induction as generalizing s with
  | nil => trivial
  | cons a as ih =>
    obtain ⟨hVa, hVas⟩ := List.forall_mem_cons.mp hV
    refine ⟨hVa, ?_⟩
    cases step s a with
    | none => trivial
    | some t => exact ih hVas

/-- The condition may be one on the inputs alone. -/
theorem invariant_of_mem {V : ι → Prop} (hstep : ∀ s a s', I s → V a → step s a = some s' → I s')
    {s s' : σ} (h0 : I s) (hV : ∀ a ∈ as, V a) (h : exec step s as = some s') : I s' :=
  invariant_of_admitted hstep h0 (admitted_of_forall hV) h

theorem invariant (hstep : ∀ s a s', I s → step s a = some s' → I s') {s s' : σ} (h0 : I s)
    (h : exec step s as = some s') : I s' :=
  invariant_of_mem (V := fun _ => True) (fun s a s' hI _ => hstep s a s' hI) h0 (fun _ _ => trivial) h

/-- If a property of the state after a step forces the condition on that step
and the property before it, then a run that ends with the property has met the
condition throughout. -/
theorem admitted_of_final {G : σ → Prop} (hback : ∀ s a s', step s a = some s' → G s' → C s a ∧ G s)
    {s s' : σ} (h : exec step s as = some s') (hG : G s') : Admitted step C s as ∧ G s := by
  induction as generalizing s with
  | nil =>
    obtain rfl : s = s' := by simpa [exec] using h
    exact ⟨trivial, hG⟩
  | cons a as ih =>
    obtain ⟨t, ht, hrest⟩ := Option.bind_eq_some_iff.mp h
    obtain ⟨hadm, hGt⟩ := ih hrest
    obtain ⟨hCa, hGs⟩ := hback s a t ht hGt
    refine ⟨⟨hCa, ?_⟩, hGs⟩
    rw [ht]
    exact hadm

theorem Admitted.and {D : σ → ι → Prop} {s : σ} (hC : Admitted step C s as)
    (hD : Admitted step D s as) : Admitted step (fun s a => C s a ∧ D s a) s as := by
  induction as generalizing s with
  | nil => trivial
  | cons a as ih =>
    refine ⟨⟨hC.1, hD.1⟩, ?_⟩
    have hCs := hC.2
    have hDs := hD.2
    cases hs : step s a with
    | none => trivial
    | some t =>
      rw [hs] at hCs hDs
      exact ih hCs hDs

/-- Two machines whose steps agree through `view` have the same runs. -/
theorem exec_view {τ : Type*} {step' : τ → ι → Option τ} (view : σ → τ) {V : ι → Prop}
    (hstep : ∀ s a s', I s → V a → step s a = some s' → I s')
    (hview : ∀ s a, I s → V a → step' (view s) a = (step s a).map view) {s : σ} (h0 : I s)
    (hV : ∀ a ∈ as, V a) : exec step' (view s) as = (exec step s as).map view := by
  induction as generalizing s with
  | nil => rfl
  | cons a as ih =>
    obtain ⟨hVa, hVas⟩ := List.forall_mem_cons.mp hV
    rw [exec, exec, hview s a h0 hVa]
    cases hs : step s a with
    | none => rfl
    | some t => exact ih (hstep s a t h0 hVa hs) hVas

end Runs
