import Mathlib.Tactic
import Mathlib.Data.List.TakeWhile

/-!
# The string functions of user programs

`strlen`, `strcmp`, `strcpy` and `memmove` of `user/ulib.c` over bytes from a pointer on. The
loops over a string carry a bound on their turns.
-/
namespace Xv6.UserString

open Function

abbrev Text := List UInt8

variable {s p q src dst : ℕ → UInt8} {t u : Text} {c : UInt8} {n k : ℕ}

/-- At `n` there is the text with its NUL. -/
def StringAt (s : ℕ → UInt8) : ℕ → Text → Prop
  | n, [] => s n = 0
  | n, c :: t => s n = c ∧ c ≠ 0 ∧ StringAt s (n + 1) t

/-- At `n` there is the text; what follows is open. -/
def BytesAt (s : ℕ → UInt8) : ℕ → Text → Prop
  | _, [] => True
  | n, c :: t => s n = c ∧ c ≠ 0 ∧ BytesAt s (n + 1) t

/-- The bytes of a text, with its NUL. -/
def chars (t : Text) (n : ℕ) : UInt8 := t.getD n 0

/-- `k` bytes from `n` on. -/
def text (s : ℕ → UInt8) (n k : ℕ) : Text := (List.range' n k).map s

def strlen (s : ℕ → UInt8) : ℕ → ℕ → Option ℕ
  | 0, _ => none
  | k + 1, n => if s n = 0 then some n else strlen s k (n + 1)

/-- Whether `strcmp` is 0. -/
def strcmp (p q : ℕ → UInt8) : ℕ → ℕ → ℕ → Option Bool
  | 0, _, _ => none
  | k + 1, i, j =>
    if p i ≠ 0 ∧ p i = q j then strcmp p q k (i + 1) (j + 1) else some (decide (p i = q j))

/-- The destination after `strcpy`. -/
def strcpy (src : ℕ → UInt8) : ℕ → ℕ → (ℕ → UInt8) → Option (ℕ → UInt8)
  | 0, _, _ => none
  | k + 1, n, dst =>
    if src n = 0 then some (update dst n (src n)) else strcpy src k (n + 1) (update dst n (src n))

/-- `n` bytes are copied to `dst + p`. -/
def memmove (dst : ℕ → UInt8) (p : ℕ) (src : ℕ → UInt8) (n : ℕ) : ℕ → UInt8 := fun i =>
  if p ≤ i ∧ i < p + n then src (i - p) else dst i

theorem stringAt_append :
    StringAt s n (t ++ u) ↔ BytesAt s n t ∧ StringAt s (n + t.length) u := by
  induction t generalizing n with
  | nil => exact (and_iff_right trivial).symm
  | cons c t ih =>
    rw [List.cons_append, StringAt, BytesAt, ih, List.length_cons, ← Nat.add_assoc,
      Nat.add_right_comm, and_assoc, and_assoc]

theorem bytesAt_append : BytesAt s n (t ++ u) ↔ BytesAt s n t ∧ BytesAt s (n + t.length) u := by
  induction t generalizing n with
  | nil => exact (and_iff_right trivial).symm
  | cons c t ih =>
    rw [List.cons_append, BytesAt, BytesAt, ih, List.length_cons, ← Nat.add_assoc,
      Nat.add_right_comm, and_assoc, and_assoc]

theorem BytesAt.congr (h : BytesAt s n t) (heq : ∀ i, n ≤ i → i < n + t.length → p i = s i) :
    BytesAt p n t := by
  induction t generalizing n with
  | nil => trivial
  | cons c t ih =>
    obtain ⟨hc, hne, ht⟩ := h
    rw [List.length_cons] at heq
    exact ⟨(heq n le_rfl (by omega)).trans hc, hne,
      ih ht fun i hi hi' => heq i (by omega) (by omega)⟩

theorem StringAt.move {m : ℕ} (h : StringAt s n t)
    (heq : ∀ i ≤ t.length, p (m + i) = s (n + i)) : StringAt p m t := by
  induction t generalizing n m with
  | nil => exact (heq 0 le_rfl).trans h
  | cons c t ih =>
    obtain ⟨hc, hne, ht⟩ := h
    refine ⟨(heq 0 (Nat.zero_le _)).trans hc, hne, ih ht fun i hi => ?_⟩
    rw [Nat.add_right_comm, Nat.add_right_comm n, Nat.add_assoc, Nat.add_assoc]
    exact heq (i + 1) (by rw [List.length_cons]; omega)

theorem StringAt.text_eq (h : StringAt s n t) : text s n t.length = t := by
  induction t generalizing n with
  | nil => rfl
  | cons c t ih =>
    obtain ⟨hc, -, ht⟩ := h
    have hrest : (List.range' (n + 1) t.length).map s = t := ih ht
    rw [text, List.length_cons, List.range'_succ, List.map_cons, hc, hrest]

/-- An array holds the text before its first NUL. -/
theorem stringAt_takeWhile (l : Text) : StringAt (chars l) 0 (l.takeWhile (· ≠ 0)) := by
  have hgen : ∀ u v : Text, StringAt (chars (u ++ v)) u.length (v.takeWhile (· ≠ 0)) := by
    intro u v
    induction v generalizing u with
    | nil => simp [StringAt, chars]
    | cons c v ih =>
      have hc : chars (u ++ c :: v) u.length = c := by simp [chars]
      by_cases hne : c = 0
      · rw [List.takeWhile_cons_of_neg (by simpa using hne)]
        exact hc.trans hne
      · rw [List.takeWhile_cons_of_pos (by simpa using hne)]
        refine ⟨hc, hne, ?_⟩
        have hrest := ih (u ++ [c])
        rwa [List.append_assoc, List.length_append] at hrest
  exact hgen [] l

theorem stringAt_chars (h : 0 ∉ t) : StringAt (chars t) 0 t := by
  have hall : t.takeWhile (· ≠ 0) = t := by
    rw [List.takeWhile_eq_self_iff]
    intro c hc
    have hne : c ≠ 0 := fun heq => h (heq ▸ hc)
    simpa using hne
  have hat := stringAt_takeWhile t
  rwa [hall] at hat

theorem strlen_eq (h : StringAt s n t) (hk : t.length < k) : strlen s k n = some (n + t.length) := by
  induction t generalizing n k with
  | nil =>
    obtain ⟨k, rfl⟩ : ∃ j, k = j + 1 := ⟨k - 1, by omega⟩
    have h0 : s n = 0 := h
    rw [strlen, if_pos h0]
    rfl
  | cons c t ih =>
    rw [List.length_cons] at hk
    obtain ⟨k, rfl⟩ : ∃ j, k = j + 1 := ⟨k - 1, by omega⟩
    obtain ⟨hc, hne, ht⟩ := h
    rw [strlen, hc, if_neg hne, ih ht (by omega), List.length_cons, Nat.add_right_comm, Nat.add_assoc]

theorem strcmp_eq {i j : ℕ} (hp : StringAt p i t) (hq : StringAt q j u) (hk : t.length < k) :
    strcmp p q k i j = some (decide (t = u)) := by
  induction t generalizing i j k u with
  | nil =>
    obtain ⟨k, rfl⟩ : ∃ j, k = j + 1 := ⟨k - 1, by omega⟩
    have h0 : p i = 0 := hp
    rw [strcmp, h0, if_neg (fun hc => hc.1 rfl)]
    cases u with
    | nil =>
      have hq0 : q j = 0 := hq
      rw [hq0]
      rfl
    | cons d u =>
      obtain ⟨hd, hne, -⟩ := hq
      rw [hd, decide_eq_false hne.symm, decide_eq_false (List.cons_ne_nil d u).symm]
  | cons c t ih =>
    rw [List.length_cons] at hk
    obtain ⟨k, rfl⟩ : ∃ j, k = j + 1 := ⟨k - 1, by omega⟩
    obtain ⟨hc, hne, ht⟩ := hp
    rw [strcmp, hc]
    cases u with
    | nil =>
      have hq0 : q j = 0 := hq
      rw [hq0, if_neg (fun hcq => hne hcq.2), decide_eq_false hne,
        decide_eq_false (List.cons_ne_nil c t)]
    | cons d u =>
      obtain ⟨hd, hdne, hu⟩ := hq
      rw [hd]
      by_cases hcd : c = d
      · subst hcd
        rw [if_pos ⟨hne, rfl⟩, ih ht hu (by omega)]
        simp
      · rw [if_neg (fun hcq => hcd hcq.2), decide_eq_false hcd]
        simp [hcd]

theorem strcpy_eq (h : StringAt src n t) (hk : t.length < k) :
    strcpy src k n dst = some fun i => if n ≤ i ∧ i ≤ n + t.length then src i else dst i := by
  induction t generalizing n k dst with
  | nil =>
    obtain ⟨k, rfl⟩ : ∃ j, k = j + 1 := ⟨k - 1, by omega⟩
    have h0 : src n = 0 := h
    rw [strcpy, if_pos h0]
    congr 1
    funext i
    rw [update_apply]
    by_cases hi : i = n
    · rw [if_pos hi, if_pos (by rw [List.length_nil]; omega), hi]
    · rw [if_neg hi, if_neg (by rw [List.length_nil]; omega)]
  | cons c t ih =>
    rw [List.length_cons] at hk
    obtain ⟨k, rfl⟩ : ∃ j, k = j + 1 := ⟨k - 1, by omega⟩
    obtain ⟨hc, hne, ht⟩ := h
    rw [strcpy, if_neg (hc ▸ hne), ih ht (by omega), List.length_cons]
    congr 1
    funext i
    by_cases hi : i = n
    · rw [if_neg (by omega), if_pos (by omega), hi, update_self]
    · rw [update_of_ne hi]
      refine if_congr ?_ rfl rfl
      omega

end Xv6.UserString
