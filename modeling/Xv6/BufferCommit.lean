import Xv6.BufferRefs

/-!
# The calls of a commit

What the list of calls of `commit` guarantees when it is run by one process while
no operation modifies blocks: a buffer is written before it is released or
unpinned, and `install_trans` puts into a home block what is there already.
-/
namespace Xv6.BufferCache
open Log (Block)

variable {P : Type*} {L : Layout}

/-- The blocks that the remaining calls unpin. -/
def unpins : List Instr → List ℕ
  | [] => []
  | .bunpin x :: is => x :: unpins is
  | _ :: is => unpins is

/-- Running the calls is safe if exactly the held buffers of the blocks in `dirty` have
been changed since the last `bwrite`, the disk is up to date for the blocks in
`synced`, and `m` gives the contents of all blocks. -/
def Safe (L : Layout) : List ℕ → List ℕ → (ℕ → Block) → List Instr → Prop
  | _, _, _, [] => True
  | dirty, synced, m, .bread _ :: is => Safe L dirty synced m is
  | dirty, synced, m, .memmove x y :: is =>
    if L.Home x then m x = m y ∧ Safe L (x :: dirty) synced m is
    else Safe L (x :: dirty) (synced.filter (· ≠ x)) (Function.update m x (m y)) is
  | dirty, synced, m, .putHeader :: is =>
    ∀ d, Safe L (L.start :: dirty) (synced.filter (· ≠ L.start)) (Function.update m L.start d) is
  | dirty, synced, m, .bwrite x :: is => Safe L (dirty.filter (· ≠ x)) (x :: synced) m is
  | dirty, synced, m, .bunpin x :: is => x ∈ synced ∧ Safe L dirty synced m is
  | dirty, synced, m, .brelse x :: is => x ∉ dirty ∧ Safe L dirty synced m is
  | dirty, synced, m, .clear :: is => Safe L dirty synced m is
  | _, _, _, .modify _ _ :: _ => False
  | _, _, _, .logWrite _ :: _ => False

lemma unpins_append (is js : List Instr) : unpins (is ++ js) = unpins is ++ unpins js := by
  induction is with
  | nil => rfl
  | cons i is ih => cases i <;> simp [unpins, ih]

lemma unpins_writeLog (start tail : ℕ) (lh : List ℕ) : unpins (writeLog start tail lh) = [] := by
  induction lh generalizing tail with
  | nil => rfl
  | cons x lh ih => simp [writeLog, unpins, ih]

lemma unpins_installTrans (start tail : ℕ) (lh : List ℕ) :
    unpins (installTrans start tail lh) = lh := by
  induction lh generalizing tail with
  | nil => rfl
  | cons x lh ih => simp [installTrans, unpins, ih]

lemma unpins_commit (start : ℕ) (lh : List ℕ) : unpins (commit start lh) = lh := by
  unfold commit
  split_ifs with hlh
  · simp [hlh, unpins]
  · simp [unpins_append, unpins_writeLog, unpins_installTrans, writeHead, unpins]

lemma clear_mem_commit {start : ℕ} {lh : List ℕ} (h : Instr.clear ∉ commit start lh) :
    lh = [] := by
  by_contra hlh
  exact h (by simp [commit, hlh])

lemma not_home_log {tail : ℕ} (h : tail < LOGBLOCKS) : ¬ L.Home (L.start + tail + 1) := by
  unfold Layout.Home
  omega

lemma not_home_start : ¬ L.Home L.start := by
  unfold Layout.Home
  omega

lemma filter_ne_self (x : ℕ) : [x].filter (· ≠ x) = [] := by simp

variable {rest : List Instr}

/-- `write_log` leaves a copy of each block in the log and every home block as it
was. -/
lemma safe_writeLog (lh : List ℕ) (tail : ℕ) (synced : List ℕ)
    (m : ℕ → Block) (hhome : ∀ x ∈ lh, L.Home x) (hlen : tail + lh.length ≤ LOGBLOCKS)
    (hrest : ∀ synced' m', (∀ y, L.Home y ∨ y ≤ L.start + tail → m' y = m y) →
      (∀ i x, lh[i]? = some x → m' (L.start + (tail + i) + 1) = m' x) →
      Safe L [] synced' m' rest) :
    Safe L [] synced m (writeLog L.start tail lh ++ rest) := by
  induction lh generalizing tail synced m with
  | nil => exact hrest synced m (fun _ _ => rfl) (by simp)
  | cons x lh ih =>
    simp only [List.length_cons] at hlen
    have hlog : ¬ L.Home (L.start + tail + 1) := not_home_log (by omega)
    have hx : L.Home x := hhome x (by simp)
    have hne : x ≠ L.start + tail + 1 := by
      rintro rfl
      exact hlog hx
    simp only [writeLog, List.cons_append, Safe, hlog, if_false]
    simp only [filter_ne_self, List.not_mem_nil, not_false_eq_true, true_and]
    refine ih (tail + 1) _ _ (fun y hy => hhome y (by simp [hy])) (by omega) ?_
    intro synced' m' hsame hcopy
    have hother : ∀ y, L.Home y ∨ y ≤ L.start + tail → m' y = m y := by
      intro y hy
      have hyt : y ≠ L.start + tail + 1 := by
        rintro rfl
        obtain hy | hy := hy
        · exact hlog hy
        · omega
      have hy' : L.Home y ∨ y ≤ L.start + (tail + 1) := hy.imp_right (by omega)
      rw [hsame y hy', Function.update_of_ne hyt]
    refine hrest synced' m' hother ?_
    intro i y hi
    cases i with
    | zero =>
      simp only [List.getElem?_cons_zero, Option.some.injEq] at hi
      subst hi
      have hcopied : m' (L.start + tail + 1) = m x := by
        rw [hsame _ (.inr (by omega)), Function.update_self]
      show m' (L.start + tail + 1) = m' x
      rw [hcopied, hother x (.inl hx)]
    | succ i =>
      have := hcopy i y (by simpa using hi)
      rwa [show tail + (i + 1) = tail + 1 + i by omega]

lemma safe_writeHead {synced : List ℕ} {m : ℕ → Block}
    (hrest : ∀ synced' m', (∀ y, y ≠ L.start → m' y = m y) → Safe L [] synced' m' rest) :
    Safe L [] synced m (writeHead L.start ++ rest) := by
  simp only [writeHead, List.cons_append, List.nil_append, Safe]
  intro d
  simp only [filter_ne_self, List.not_mem_nil, not_false_eq_true, true_and]
  exact hrest _ _ fun y hy => Function.update_of_ne hy _ _

/-- `install_trans` is safe once the log holds the contents of the home blocks. -/
lemma safe_installTrans (lh : List ℕ) (tail : ℕ) (synced : List ℕ) {m : ℕ → Block}
    (hhome : ∀ x ∈ lh, L.Home x)
    (hcopy : ∀ i x, lh[i]? = some x → m (L.start + (tail + i) + 1) = m x)
    (hrest : ∀ synced', Safe L [] synced' m rest) :
    Safe L [] synced m (installTrans L.start tail lh ++ rest) := by
  induction lh generalizing tail synced with
  | nil => exact hrest synced
  | cons x lh ih =>
    have hx : L.Home x := hhome x (by simp)
    have hcopy0 := hcopy 0 x (by simp)
    simp only [installTrans, List.cons_append, Safe, hx, if_true]
    refine ⟨hcopy0.symm, ?_⟩
    simp only [filter_ne_self, List.not_mem_nil, not_false_eq_true, true_and, List.mem_cons,
      true_or]
    refine ih (tail + 1) _ (fun y hy => hhome y (by simp [hy])) ?_
    intro i y hi
    have := hcopy (i + 1) y (by simpa using hi)
    rwa [show tail + (i + 1) = tail + 1 + i by omega] at this

/-- Every commit is safe to run, whatever the blocks contain. -/
theorem safe_commit {lh : List ℕ} (hhome : ∀ x ∈ lh, L.Home x) (hlen : lh.length ≤ LOGBLOCKS)
    (m : ℕ → Block) : Safe L [] [] m (commit L.start lh) := by
  unfold commit
  split_ifs
  · trivial
  · simp only [List.append_assoc]
    refine safe_writeLog lh 0 [] m hhome (by omega) fun synced₁ m₁ _ hcopy => ?_
    refine safe_writeHead fun synced₂ m₂ hsame => ?_
    refine safe_installTrans lh 0 synced₂ hhome ?_ fun synced₃ => ?_
    · intro i x hi
      have hx : x ≠ L.start := by
        rintro rfl
        exact not_home_start (hhome _ (List.mem_of_getElem? hi))
      rw [hsame _ (by omega), hsame x hx]
      exact hcopy i x hi
    · rw [Safe, ← List.append_nil (writeHead L.start)]
      exact safe_writeHead fun _ _ _ => trivial

end Xv6.BufferCache
