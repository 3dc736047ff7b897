import Mathlib.Data.List.Basic
import Mathlib.Data.List.Range

/-!
# Stateful programs that may fail

Programs that read and change a state and may stop with an error, and their
weakest preconditions: `wp m s Q E` says that `m` started in `s` ends in a result
and a state with `Q`, or fails with an error that `E` allows.
-/
namespace Prog

variable {σ ε α β : Type}

/-- A program over states `σ` with errors `ε`. -/
abbrev M (σ ε α : Type) := StateT σ (Except ε) α

def wp (m : M σ ε α) (s : σ) (Q : α → σ → Prop) (E : ε → Prop) : Prop :=
  match m.run s with
  | .ok (a, s') => Q a s'
  | .error e => E e

variable {s : σ} {Q Q' : α → σ → Prop} {E E' : ε → Prop}

@[simp] lemma wp_pure (a : α) : wp (pure a : M σ ε α) s Q E ↔ Q a s := Iff.rfl

@[simp] lemma wp_bind (m : M σ ε α) (f : α → M σ ε β) (Q : β → σ → Prop) :
    wp (m >>= f) s Q E ↔ wp m s (fun a s' => wp (f a) s' Q E) E := by
  unfold wp
  rw [StateT.run_bind]
  cases m.run s with
  | ok x => rfl
  | error e => rfl

@[simp] lemma wp_get (Q : σ → σ → Prop) : wp (get : M σ ε σ) s Q E ↔ Q s s := Iff.rfl

@[simp] lemma wp_set (t : σ) (Q : PUnit → σ → Prop) :
    wp (set t : M σ ε PUnit) s Q E ↔ Q ⟨⟩ t := Iff.rfl

@[simp] lemma wp_modify (f : σ → σ) (Q : PUnit → σ → Prop) :
    wp (modify f : M σ ε PUnit) s Q E ↔ Q ⟨⟩ (f s) := Iff.rfl

@[simp] lemma wp_throw (e : ε) : wp (throw e : M σ ε α) s Q E ↔ E e := Iff.rfl

@[simp] lemma wp_ite {c : Prop} [Decidable c] (m m' : M σ ε α) :
    wp (if c then m else m') s Q E ↔ if c then wp m s Q E else wp m' s Q E := by
  split <;> rfl

variable {m : M σ ε α}

lemma wp_mono (h : wp m s Q E) (hQ : ∀ a s', Q a s' → Q' a s') (hE : ∀ e, E e → E' e) :
    wp m s Q' E' := by
  unfold wp at h ⊢
  cases hm : m.run s with
  | ok x =>
    rw [hm] at h
    exact hQ _ _ h
  | error e =>
    rw [hm] at h
    exact hE _ h

/-- Calling a program with a known specification. -/
lemma wp_call (h : wp m s Q E) (hQ : ∀ a s', Q a s' → Q' a s') : wp m s Q' E :=
  wp_mono h hQ fun _ he => he

lemma wp_and (h : wp m s Q E) (h' : wp m s Q' E') :
    wp m s (fun a t => Q a t ∧ Q' a t) fun e => E e ∧ E' e := by
  unfold wp at *
  cases hm : m.run s with
  | ok x => simp_all
  | error e => simp_all

/-- A second specification only adds to what is known of the result. -/
lemma wp_also (h : wp m s Q E) (h' : wp m s Q' E') : wp m s (fun a t => Q a t ∧ Q' a t) E :=
  wp_mono (wp_and h h') (fun _ _ hQ => hQ) fun _ hE => hE.1

/-- A program that certainly returns `a` and the state `t`. -/
lemma wp_of_run {a : α} {t : σ} (h : m.run s = .ok (a, t)) : wp m s Q E ↔ Q a t := by
  unfold wp
  rw [h]

/-- A program that starts with a part that certainly returns. -/
lemma run_bind {a : α} {t : σ} (h : m.run s = .ok (a, t)) (f : α → M σ ε β) :
    (m >>= f).run s = (f a).run t := by
  rw [StateT.run_bind, h]
  rfl

/-- What `wp` says about a run that ended well. -/
lemma wp_elim (h : wp m s Q E) {a : α} {t : σ} (hm : m.run s = .ok (a, t)) : Q a t := by
  unfold wp at h
  rwa [hm] at h

/-- A program that cannot fail ends. -/
lemma exists_run_of_wp (h : wp m s Q fun _ => False) : ∃ a t, m.run s = .ok (a, t) ∧ Q a t := by
  unfold wp at h
  cases hm : m.run s with
  | ok x =>
    rw [hm] at h
    exact ⟨x.1, x.2, rfl, h⟩
  | error e =>
    rw [hm] at h
    exact h.elim

lemma run_error_of_wp {e : ε} (h : wp m s (fun _ _ => False) (· = e)) : m.run s = .error e := by
  unfold wp at h
  split at h
  · exact h.elim
  · next hm => rw [hm, h]

/-- The two ways a program with a single panic can end. -/
lemma outcome_of_wp {e : ε} {P : Prop} (h : wp m s Q fun x => x = e ∧ P) :
    (m.run s = .error e ∧ P) ∨ ∃ a t, m.run s = .ok (a, t) ∧ Q a t := by
  unfold wp at h
  split at h
  · next a t hm => exact Or.inr ⟨a, t, hm, h⟩
  · next x hm =>
    obtain ⟨rfl, hp⟩ := h
    exact Or.inl ⟨hm, hp⟩

lemma run_bind_error {e : ε} (h : m.run s = .error e) (f : α → M σ ε β) :
    (m >>= f).run s = .error e := by
  rw [StateT.run_bind, h]
  rfl

section Zoom

variable {τ : Type}

/-- Run a program on a part of the state. -/
def zoom (view : σ → τ) (put : τ → σ → σ) (m : M τ ε α) : M σ ε α := fun s =>
  match m.run (view s) with
  | .ok (a, t) => .ok (a, put t s)
  | .error e => .error e

@[simp] lemma wp_zoom (view : σ → τ) (put : τ → σ → σ) (m : M τ ε α) :
    wp (zoom view put m) s Q E ↔ wp m (view s) (fun a t => Q a (put t s)) E := by
  unfold wp zoom StateT.run
  beta_reduce
  cases m (view s) with
  | ok x => rfl
  | error e => rfl

end Zoom

section Loops

/-- `for (i = 0; i < n; i++) f(i)`. -/
def loop : ℕ → (ℕ → M σ ε PUnit) → M σ ε PUnit
  | 0, _ => pure ⟨⟩
  | n + 1, f => do
    loop n f
    f n

/-- A loop keeps an invariant that each iteration keeps. -/
theorem wp_loop {n : ℕ} {f : ℕ → M σ ε PUnit} (I : ℕ → σ → Prop) (h0 : I 0 s)
    (hstep : ∀ i t, i < n → I i t → wp (f i) t (fun _ => I (i + 1)) E) :
    wp (loop n f) s (fun _ => I n) E := by
  induction n with
  | zero => exact h0
  | succ n ih =>
    rw [loop, wp_bind]
    refine wp_call (ih fun i t hi => hstep i t (by omega)) ?_
    exact fun _ t ht => hstep n t (by omega) ht

lemma wp_loop_one {f : ℕ → M σ ε PUnit} {Q : PUnit → σ → Prop} :
    wp (loop 1 f) s Q E ↔ wp (f 0) s Q E := by
  rw [loop, loop, wp_bind, wp_pure]

/-- `for (i = k; i < k + n; i++)` with an early return of the first result. -/
def search (f : ℕ → M σ ε (Option α)) : ℕ → ℕ → M σ ε (Option α)
  | _, 0 => pure none
  | k, n + 1 => do
    match ← f k with
    | some a => return some a
    | none => search f (k + 1) n

lemma wp_search_one {f : ℕ → M σ ε (Option α)} {k : ℕ} {Q : Option α → σ → Prop} :
    wp (search f k 1) s Q E ↔ wp (f k) s Q E := by
  rw [search, wp_bind]
  have hmatch (r : Option α) (t : σ) : wp (match r with
      | some a => return some a
      | none => search f (k + 1) 0) t Q E ↔ Q r t := by
    cases r <;> rfl
  simp only [hmatch]

/-- A search that keeps an invariant as long as it finds nothing. -/
theorem wp_search {f : ℕ → M σ ε (Option α)} {k n : ℕ} {Q : Option α → σ → Prop}
    (I : ℕ → σ → Prop) (h0 : I k s)
    (hstep : ∀ i t, k ≤ i → i < k + n → I i t → wp (f i) t
      (fun r t' => (∀ a, r = some a → Q r t') ∧ (r = none → I (i + 1) t')) E)
    (hend : ∀ t, I (k + n) t → Q none t) : wp (search f k n) s Q E := by
  induction n generalizing k s with
  | zero => exact hend s h0
  | succ n ih =>
    rw [search, wp_bind]
    refine wp_call (hstep k s le_rfl (by omega) h0) ?_
    rintro r t ⟨hsome, hnone⟩
    cases r with
    | some a => exact hsome a rfl
    | none =>
      refine ih (hnone rfl) (fun i u hi hn => hstep i u (by omega) (by omega)) fun u hu => ?_
      exact hend u (by rwa [Nat.add_right_comm, Nat.add_assoc] at hu)

end Loops

-- a loop over hundreds of iterations is never unfolded by unification
attribute [irreducible] loop search

end Prog
