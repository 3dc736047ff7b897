import Mathlib.Tactic

/-!
# Spin locks and who holds them

A table of spin locks records the processor that holds each lock and how many locks
each processor holds. `Accounts` compares it with a list of held locks for each
processor that is read off the code the processors are executing; acquiring and
releasing keep the two in step.
-/
namespace Spinlocks

open Function

variable {Λ κ : Type*}

structure Table (Λ κ : Type*) where
  holder : Λ → Option κ
  noff : κ → ℕ

def Table.free : Table Λ κ := ⟨fun _ => none, fun _ => 0⟩

variable [DecidableEq Λ] [DecidableEq κ]

/-- Possible only once the lock is free. -/
def Table.acquire (T : Table Λ κ) (c : κ) (l : Λ) : Option (Table Λ κ) :=
  if T.holder l = none then
    some ⟨update T.holder l (some c), update T.noff c (T.noff c + 1)⟩
  else none

/-- Possible only for the holder. -/
def Table.release (T : Table Λ κ) (c : κ) (l : Λ) : Option (Table Λ κ) :=
  if T.holder l = some c ∧ 0 < T.noff c then
    some ⟨update T.holder l none, update T.noff c (T.noff c - 1)⟩
  else none

/-- The table records exactly the held locks. -/
structure Accounts (T : Table Λ κ) (held : κ → List Λ) : Prop where
  holder : ∀ l c, T.holder l = some c ↔ l ∈ held c
  noff : ∀ c, T.noff c = (held c).length

namespace Accounts

variable {T T' : Table Λ κ} {held held' : κ → List Λ} {c c' : κ} {l : Λ}

omit [DecidableEq Λ] [DecidableEq κ] in
theorem free : Accounts (Table.free : Table Λ κ) fun _ => [] :=
  ⟨fun l c => by simp [Table.free], fun c => rfl⟩

omit [DecidableEq Λ] [DecidableEq κ] in
/-- Two processors never hold the same lock. -/
theorem exclusive (h : Accounts T held) (hc : l ∈ held c) (hc' : l ∈ held c') : c = c' := by
  rw [← h.holder] at hc hc'
  exact Option.some.inj (hc.symm.trans hc')

omit [DecidableEq Λ] [DecidableEq κ] in
theorem congr (h : Accounts T held) (he : ∀ c, held' c = held c) : Accounts T held' := by
  obtain rfl : held' = held := funext he
  exact h

theorem acquire (h : Accounts T held) (ht : T.acquire c l = some T')
    (hc : held' c = l :: held c) (ho : ∀ c', c' ≠ c → held' c' = held c') :
    Accounts T' held' := by
  simp only [Table.acquire] at ht
  split_ifs at ht with hfree
  obtain rfl := Option.some.inj ht
  refine ⟨fun m d => ?_, fun d => ?_⟩
  · by_cases hd : d = c
    · subst hd
      by_cases hm : m = l
      · simp [hm, hc]
      · simp [hm, hc, h.holder]
    · rw [ho d hd, ← h.holder]
      by_cases hm : m = l
      · simp [hm, hfree, Ne.symm hd]
      · simp [hm]
  · by_cases hd : d = c
    · simp [hd, hc, h.noff]
    · simp [hd, ho d hd, h.noff]

/-- The lock given back need not be the one taken last. -/
theorem release (h : Accounts T held) (ht : T.release c l = some T')
    (hc : ∀ m, m ∈ held' c ↔ m ∈ held c ∧ m ≠ l)
    (hn : (held c).length = (held' c).length + 1)
    (ho : ∀ c', c' ≠ c → held' c' = held c') : Accounts T' held' := by
  simp only [Table.release] at ht
  split_ifs at ht with hheld
  obtain rfl := Option.some.inj ht
  refine ⟨fun m d => ?_, fun d => ?_⟩
  · by_cases hd : d = c
    · subst hd
      by_cases hm : m = l
      · simp [hm, hc]
      · simp [hm, hc, h.holder]
    · rw [ho d hd, ← h.holder]
      by_cases hm : m = l
      · simp [hm, hheld.1, Ne.symm hd]
      · simp [hm]
  · by_cases hd : d = c
    · simp [hd, h.noff, hn]
    · simp [hd, ho d hd, h.noff]

/-- The checks of `release` pass for a held lock. -/
theorem release_isSome (h : Accounts T held) (hl : l ∈ held c) : (T.release c l).isSome := by
  have hpos : 0 < T.noff c := by
    rw [h.noff]
    exact List.length_pos_of_mem hl
  simp [Table.release, (h.holder l c).mpr hl, hpos]

end Accounts

end Spinlocks
