import Mathlib.Tactic

/-!
# References

How many cells point to a target, and how that changes when a cell is written; and
items numbered as they are made, each of which is in one place until it is retired.
-/
namespace References

open Function

section Pointers

variable {ι β : Type*} [Fintype ι] [DecidableEq β]

def pointers (σ : ι → Option β) (b : β) : ℕ :=
  (Finset.univ.filter fun i => σ i = some b).card

lemma pointers_pos_iff {σ : ι → Option β} {b : β} : 0 < pointers σ b ↔ ∃ i, σ i = some b := by
  simp [pointers, Finset.card_pos, Finset.filter_nonempty_iff]

lemma pointers_eq_zero_iff {σ : ι → Option β} {b : β} : pointers σ b = 0 ↔ ∀ i, σ i ≠ some b := by
  simp [pointers, Finset.filter_eq_empty_iff]

/-- A write to a cell takes one pointer away from what it pointed to, and adds one. -/
theorem pointers_update [DecidableEq ι] (σ : ι → Option β) (i : ι) (v : Option β) (b : β) :
    pointers (update σ i v) b + (if σ i = some b then 1 else 0) =
      pointers σ b + if v = some b then 1 else 0 := by
  simp only [pointers, Finset.card_filter]
  rw [← Finset.add_sum_erase Finset.univ _ (Finset.mem_univ i),
    ← Finset.add_sum_erase Finset.univ (fun j => if σ j = some b then 1 else 0) (Finset.mem_univ i)]
  have hrest : ∑ j ∈ Finset.univ.erase i, (if update σ i v j = some b then 1 else 0) =
      ∑ j ∈ Finset.univ.erase i, if σ j = some b then 1 else 0 := by
    refine Finset.sum_congr rfl fun j hj => ?_
    rw [update_of_ne (Finset.ne_of_mem_erase hj)]
  rw [hrest, update_self]
  omega

end Pointers

section Targets

variable {ι β : Type*} [Fintype ι] {σ : ι → Option β} {i : ι} {b : β}

def target (o : Option β) : Multiset β := o.elim 0 fun b => {b}

@[simp] lemma target_none : target (none : Option β) = 0 := rfl

@[simp] lemma target_some : target (some b) = {b} := rfl

def targets (σ : ι → Option β) : Multiset β := ∑ i, target (σ i)

lemma mem_targets_iff : b ∈ targets σ ↔ ∃ i, σ i = some b := by
  rw [targets, Multiset.mem_sum]
  simp only [Finset.mem_univ, true_and]
  refine exists_congr fun i => ?_
  cases σ i with
  | none => simp [target]
  | some c => simp [target, eq_comm]

/-- A write to a cell takes away what it pointed to, and adds a target. -/
theorem targets_update [DecidableEq ι] (σ : ι → Option β) (i : ι) (o : Option β) :
    targets (update σ i o) + target (σ i) = targets σ + target o := by
  have hrest : ∑ j ∈ Finset.univ.erase i, target (update σ i o j) =
      ∑ j ∈ Finset.univ.erase i, target (σ j) :=
    Finset.sum_congr rfl fun j hj => by rw [update_of_ne (Finset.ne_of_mem_erase hj)]
  rw [targets, targets, ← Finset.add_sum_erase Finset.univ _ (Finset.mem_univ i),
    ← Finset.add_sum_erase Finset.univ (fun j => target (σ j)) (Finset.mem_univ i), hrest, update_self]
  abel

/-- The targets of one cell and of the others. -/
lemma targets_update_eq [DecidableEq ι] (σ : ι → Option β) (i : ι) (o : Option β) :
    targets (update σ i o) = target o + targets (update σ i none) := by
  have := targets_update (update σ i none) i o
  rw [update_idem, update_self, target_none, add_zero, add_comm] at this
  exact this

lemma targets_eq [DecidableEq ι] (σ : ι → Option β) (i : ι) :
    targets σ = target (σ i) + targets (update σ i none) := by
  rw [← targets_update_eq, update_eq_self]

lemma targets_none : targets (fun _ : ι => (none : Option β)) = 0 :=
  Finset.sum_eq_zero fun _ _ => rfl

/-- A sum over all targets, cell by cell. -/
lemma sum_map_targets {γ : Type*} [AddCommMonoid γ] (f : β → γ) (σ : ι → Option β) :
    ((targets σ).map f).sum = ∑ i, (σ i).elim 0 f := by
  rw [targets, ← Multiset.coe_mapAddMonoidHom, map_sum, ← Multiset.coe_sumAddMonoidHom, map_sum]
  refine Finset.sum_congr rfl fun i _ => ?_
  cases σ i <;> simp

end Targets

section Ledger

variable {ι : Type*} {made : ℕ} {place place' : ι → Option ℕ} {retired : List ℕ} {i : ι} {n : ℕ}

/-- Of the items `0, …, made - 1`, each is at one place, or was retired once. -/
structure Ledger (made : ℕ) (place : ι → Option ℕ) (retired : List ℕ) : Prop where
  bound : ∀ i n, place i = some n → n < made
  inj : ∀ i j n, place i = some n → place j = some n → i = j
  nodup : retired.Nodup
  retired : ∀ n, n ∈ retired ↔ n < made ∧ ∀ i, place i ≠ some n

namespace Ledger

theorem empty : Ledger 0 (fun _ : ι => none) [] where
  bound := fun _ _ h => (by cases h)
  inj := fun _ _ _ h => (by cases h)
  nodup := List.nodup_nil
  retired := fun n => by simp

lemma not_retired (h : Ledger made place retired) (hi : place i = some n) : n ∉ retired :=
  fun hn => ((h.retired n).mp hn).2 i hi

lemma made_not_retired (h : Ledger made place retired) : made ∉ retired :=
  fun hn => (lt_irrefl made) ((h.retired made).mp hn).1

/-- Either the item is at one place and was never retired, or it is nowhere and was
retired once. -/
theorem placed_or_retired (h : Ledger made place retired) (hn : n < made) :
    (∃! i, place i = some n) ∧ retired.count n = 0 ∨
      (∀ i, place i ≠ some n) ∧ retired.count n = 1 := by
  by_cases hp : ∃ i, place i = some n
  · obtain ⟨i, hi⟩ := hp
    exact .inl ⟨⟨i, hi, fun j hj => h.inj j i n hj hi⟩,
      List.count_eq_zero_of_not_mem (h.not_retired hi)⟩
  · have hall : ∀ i, place i ≠ some n := fun i hi => hp ⟨i, hi⟩
    exact .inr ⟨hall, List.count_eq_one_of_mem h.nodup ((h.retired n).mpr ⟨hn, hall⟩)⟩

/-- The next item is made and put at an empty place. -/
theorem make [DecidableEq ι] (h : Ledger made place retired) (hi : place i = none) :
    Ledger (made + 1) (update place i (some made)) retired := by
  have hcases (j : ι) (n : ℕ) (hj : update place i (some made) j = some n) :
      j = i ∧ n = made ∨ place j = some n := by
    by_cases hji : j = i
    · rw [hji, update_self] at hj
      exact .inl ⟨hji, (Option.some.inj hj).symm⟩
    · rw [update_of_ne hji] at hj
      exact .inr hj
  refine ⟨?_, ?_, h.nodup, ?_⟩
  · intro j n hj
    obtain ⟨-, rfl⟩ | hj := hcases j n hj
    · exact Nat.lt_succ_self _
    · exact Nat.lt_succ_of_lt (h.bound j n hj)
  · intro j k n hj hk
    obtain ⟨rfl, rfl⟩ | hj' := hcases j n hj <;> obtain ⟨rfl, hn⟩ | hk' := hcases k n hk
    · rfl
    · exact absurd (h.bound k _ hk') (lt_irrefl _)
    · exact absurd (hn ▸ h.bound j n hj') (lt_irrefl _)
    · exact h.inj j k n hj' hk'
  · intro n
    rw [h.retired]
    constructor
    · rintro ⟨hn, hall⟩
      refine ⟨Nat.lt_succ_of_lt hn, fun j hj => ?_⟩
      obtain ⟨-, rfl⟩ | hj := hcases j n hj
      · exact lt_irrefl _ hn
      · exact hall j hj
    · rintro ⟨hn, hall⟩
      have hne : n ≠ made := by
        rintro rfl
        exact hall i (update_self ..)
      refine ⟨by omega, fun j hj => ?_⟩
      by_cases hji : j = i
      · rw [hji, hi] at hj
        cases hj
      · exact hall j (by rwa [update_of_ne hji])

/-- The item at a place is retired. -/
theorem retire [DecidableEq ι] (h : Ledger made place retired) (hi : place i = some n) :
    Ledger made (update place i none) (retired ++ [n]) := by
  have hcases (j : ι) (m : ℕ) (hj : update place i none j = some m) : j ≠ i ∧ place j = some m := by
    by_cases hji : j = i
    · rw [hji, update_self] at hj
      cases hj
    · rw [update_of_ne hji] at hj
      exact ⟨hji, hj⟩
  refine ⟨?_, ?_, ?_, ?_⟩
  · exact fun j m hj => h.bound j m (hcases j m hj).2
  · exact fun j k m hj hk => h.inj j k m (hcases j m hj).2 (hcases k m hk).2
  · exact List.nodup_append.mpr ⟨h.nodup, List.nodup_singleton n, by
      rintro m hm _ hn rfl
      obtain rfl := List.mem_singleton.mp hn
      exact h.not_retired hi hm⟩
  · intro m
    rw [List.mem_append, List.mem_singleton, h.retired]
    constructor
    · rintro (⟨hm, hall⟩ | rfl)
      · exact ⟨hm, fun j hj => hall j (hcases j m hj).2⟩
      · refine ⟨h.bound i m hi, fun j hj => ?_⟩
        exact (hcases j m hj).1 (h.inj j i m (hcases j m hj).2 hi)
    · rintro ⟨hm, hall⟩
      by_cases hmn : m = n
      · exact .inr hmn
      · refine .inl ⟨hm, fun j hj => hall j ?_⟩
        rwa [update_of_ne]
        rintro rfl
        exact hmn (Option.some.inj (hj.symm.trans hi))

/-- The next item is made and retired at once. -/
theorem pass (h : Ledger made place retired) :
    Ledger (made + 1) place (retired ++ [made]) := by
  refine ⟨fun i n hi => Nat.lt_succ_of_lt (h.bound i n hi), h.inj, ?_, ?_⟩
  · exact List.nodup_append.mpr ⟨h.nodup, List.nodup_singleton made, by
      rintro m hm _ hn rfl
      obtain rfl := List.mem_singleton.mp hn
      exact h.made_not_retired hm⟩
  · intro n
    rw [List.mem_append, List.mem_singleton, h.retired]
    constructor
    · rintro (⟨hn, hall⟩ | rfl)
      · exact ⟨Nat.lt_succ_of_lt hn, hall⟩
      · exact ⟨Nat.lt_succ_self n, fun i hi => lt_irrefl n (h.bound i n hi)⟩
    · rintro ⟨hn, hall⟩
      obtain hlt | rfl := Nat.lt_succ_iff_lt_or_eq.mp hn
      · exact .inl ⟨hlt, hall⟩
      · exact .inr rfl

end Ledger

end Ledger

end References
