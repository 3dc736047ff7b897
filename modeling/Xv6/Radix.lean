import Mathlib.Tactic

/-!
# Radix trees in a memory of pages

A page has an entry for each index, and an entry may point to a page. The pages
reached from a root in at most `d` steps are the nodes of a tree, counted once for
each way to reach them; if no page is counted twice, a change of one page is seen
only below that page.
-/
namespace Radix

open Function

section Sums

variable {ι α : Type*} [Fintype ι] {f g : ι → Multiset α} {i j : ι} {a : α}

lemma nodup_of_sum (h : (∑ i, f i).Nodup) (i : ι) : (f i).Nodup :=
  Multiset.nodup_of_le (Finset.single_le_sum (fun _ _ => zero_le) (Finset.mem_univ i)) h

lemma mem_sum_iff : a ∈ ∑ i, f i ↔ ∃ i, a ∈ f i := by
  rw [Multiset.mem_sum]
  simp

/-- Parts of a sum without repetitions have nothing in common. -/
lemma eq_of_mem_sum (h : (∑ i, f i).Nodup) (hi : a ∈ f i) (hj : a ∈ f j) : i = j := by
  classical
  by_contra hne
  have hle : f i + f j ≤ ∑ i, f i := by
    rw [← Finset.sum_pair hne]
    exact Finset.sum_le_sum_of_subset (Finset.subset_univ _)
  have hdisj := (Multiset.nodup_add.mp (Multiset.nodup_of_le hle h)).2.2
  exact Multiset.disjoint_left.mp hdisj hi hj

/-- A sum of which one part changes. -/
lemma sum_eq_add_of_eq [DecidableEq ι] {b : Multiset α} (hi : g i = b + f i)
    (hne : ∀ j, j ≠ i → g j = f j) : ∑ j, g j = b + ∑ j, f j := by
  rw [← Finset.add_sum_erase Finset.univ g (Finset.mem_univ i),
    ← Finset.add_sum_erase Finset.univ f (Finset.mem_univ i), hi, add_assoc]
  congr 2
  exact Finset.sum_congr rfl fun j hj => hne j (Finset.ne_of_mem_erase hj)

lemma sum_drop_eq {n k : ℕ} {f : Fin n → Multiset α} (hk : k < n) :
    ∑ i ∈ Finset.univ.filter (fun i : Fin n => k ≤ i.val), f i =
      f ⟨k, hk⟩ + ∑ i ∈ Finset.univ.filter (fun i : Fin n => k + 1 ≤ i.val), f i := by
  have hinsert : (Finset.univ.filter fun i : Fin n => k ≤ i.val) =
      insert ⟨k, hk⟩ (Finset.univ.filter fun i : Fin n => k + 1 ≤ i.val) := by
    ext i
    simp only [Finset.mem_filter, Finset.mem_univ, true_and, Finset.mem_insert, Fin.ext_iff]
    omega
  rw [hinsert, Finset.sum_insert]
  simp

end Sums

variable {A ι : Type*}

/-- The page that a list of indices leads to. -/
def descend (c : A → ι → Option A) : A → List ι → Option A
  | q, [] => some q
  | q, i :: p => (c q i).bind fun q' => descend c q' p

variable {c c' : A → ι → Option A} {d : ℕ} {q q' r x : A} {i : ι} {p p' : List ι}

lemma descend_cons_eq_some (h : c q i = some q') : descend c q (i :: p) = descend c q' p := by
  rw [descend, h]
  rfl

lemma descend_cons_eq_none (h : c q i = none) : descend c q (i :: p) = none := by
  rw [descend, h]
  rfl

lemma descend_append : descend c q (p ++ p') = (descend c q p).bind fun q' => descend c q' p' := by
  induction p generalizing q with
  | nil => rfl
  | cons i p ih =>
    rw [List.cons_append, descend, descend, Option.bind_assoc]
    exact Option.bind_congr fun q' _ => ih

/-- Changes of pages that the path does not go through are not seen. -/
theorem descend_congr (h : ∀ p' x, p'.length < p.length → descend c q p' = some x → c' x = c x) :
    descend c' q p = descend c q p := by
  induction p generalizing q with
  | nil => rfl
  | cons i p ih =>
    have hq : c' q = c q := h [] q (Nat.succ_pos _) rfl
    rw [descend, descend, hq]
    refine Option.bind_congr fun q' hq' => ih fun p' x hp hx => ?_
    refine h (i :: p') x (Nat.succ_lt_succ hp) ?_
    rw [descend_cons_eq_some hq', hx]

variable [Fintype ι]

/-- The pages of a tree of depth `d`. -/
def nodes (c : A → ι → Option A) : ℕ → A → Multiset A
  | 0, q => {q}
  | d + 1, q => q ::ₘ ∑ i, (c q i).elim 0 (nodes c d)

lemma nodes_zero : nodes c 0 q = {q} := rfl

lemma nodes_succ : nodes c (d + 1) q = q ::ₘ ∑ i, (c q i).elim 0 (nodes c d) := rfl

lemma root_mem_nodes : q ∈ nodes c d q := by
  cases d with
  | zero => exact Multiset.mem_singleton_self q
  | succ d => exact Multiset.mem_cons_self q _

theorem nodes_congr (h : ∀ p x, p.length < d → descend c q p = some x → c' x = c x) :
    nodes c' d q = nodes c d q := by
  induction d generalizing q with
  | zero => rfl
  | succ d ih =>
    have hq : c' q = c q := h [] q (Nat.succ_pos _) rfl
    rw [nodes, nodes, hq]
    congr 1
    refine Finset.sum_congr rfl fun i _ => ?_
    cases hi : c q i with
    | none => rfl
    | some q' =>
      refine ih fun p x hp hx => h (i :: p) x (Nat.succ_lt_succ hp) ?_
      rw [descend_cons_eq_some hi, hx]

lemma child_mem_nodes (hi : c q i = some q') (hx : x ∈ nodes c d q') :
    x ∈ ∑ i, (c q i).elim 0 (nodes c d) :=
  mem_sum_iff.mpr ⟨i, by rwa [hi]⟩

lemma mem_nodes_of_child (hi : c q i = some q') (hx : x ∈ nodes c d q') : x ∈ nodes c (d + 1) q :=
  Multiset.mem_cons_of_mem (child_mem_nodes hi hx)

lemma nodup_child (h : (nodes c (d + 1) q).Nodup) (hi : c q i = some q') :
    (nodes c d q').Nodup := by
  have := nodup_of_sum (Multiset.nodup_cons.mp h).2 i
  rwa [hi] at this

lemma ne_of_mem_child (h : (nodes c (d + 1) q).Nodup) (hi : c q i = some q')
    (hx : x ∈ nodes c d q') : x ≠ q := by
  rintro rfl
  exact (Multiset.nodup_cons.mp h).1 (child_mem_nodes hi hx)

lemma index_eq_of_mem_child {j : ι} {q'' : A} (h : (nodes c (d + 1) q).Nodup)
    (hi : c q i = some q') (hj : c q j = some q'') (hx : x ∈ nodes c d q')
    (hx' : x ∈ nodes c d q'') : i = j :=
  eq_of_mem_sum (Multiset.nodup_cons.mp h).2 (by rwa [hi]) (by rwa [hj])

theorem mem_nodes_of_descend (hp : p.length ≤ d) (h : descend c q p = some x) : x ∈ nodes c d q := by
  induction p generalizing q d with
  | nil =>
    obtain rfl := Option.some.inj h
    exact root_mem_nodes
  | cons i p ih =>
    obtain ⟨q', hi, hx⟩ := Option.bind_eq_some_iff.mp h
    cases d with
    | zero => exact absurd hp (Nat.not_succ_le_zero _)
    | succ d =>
      exact mem_nodes_of_child hi (ih (Nat.le_of_succ_le_succ hp) hx)

/-- In a tree without repetitions there is one way to each page. -/
theorem descend_inj (h : (nodes c d q).Nodup) (hp : p.length ≤ d) (hp' : p'.length ≤ d)
    (hx : descend c q p = some x) (hx' : descend c q p' = some x) : p = p' := by
  induction d generalizing q p p' with
  | zero =>
    rw [List.length_eq_zero_iff.mp (Nat.le_zero.mp hp), List.length_eq_zero_iff.mp (Nat.le_zero.mp hp')]
  | succ d ih =>
    have hbelow {i : ι} {p : List ι} (hp : (i :: p).length ≤ d + 1)
        (hx : descend c q (i :: p) = some x) : ∃ q', c q i = some q' ∧ descend c q' p = some x ∧
          x ∈ nodes c d q' := by
      obtain ⟨q', hi, hx⟩ := Option.bind_eq_some_iff.mp hx
      exact ⟨q', hi, hx, mem_nodes_of_descend (Nat.le_of_succ_le_succ hp) hx⟩
    cases p with
    | nil =>
      obtain rfl := Option.some.inj hx
      cases p' with
      | nil => rfl
      | cons i p' =>
        obtain ⟨q', hi, -, hmem⟩ := hbelow hp' hx'
        exact absurd rfl (ne_of_mem_child h hi hmem)
    | cons i p =>
      obtain ⟨q₁, hi, hx₁, hmem⟩ := hbelow hp hx
      cases p' with
      | nil =>
        obtain rfl := Option.some.inj hx'
        exact absurd rfl (ne_of_mem_child h hi hmem)
      | cons j p' =>
        obtain ⟨q₂, hj, hx₂, hmem'⟩ := hbelow hp' hx'
        obtain rfl : i = j := index_eq_of_mem_child h hi hj hmem hmem'
        obtain rfl := Option.some.inj (hi.symm.trans hj)
        rw [ih (nodup_child h hi) (Nat.le_of_succ_le_succ hp) (Nat.le_of_succ_le_succ hp') hx₁ hx₂]

/-- A change of a page at the bottom of the tree is not seen by the tree. -/
theorem congr_of_bottom (h : (nodes c d q).Nodup) (hp : p.length = d) (hx : descend c q p = some x)
    (hc : ∀ y ∈ nodes c d q, y ≠ x → c' y = c y) :
    nodes c' d q = nodes c d q ∧ ∀ p', p'.length ≤ d → descend c' q p' = descend c q p' := by
  have hinner (p' : List ι) (y : A) (hp' : p'.length < d) (hy : descend c q p' = some y) :
      c' y = c y := by
    refine hc y (mem_nodes_of_descend hp'.le hy) ?_
    rintro rfl
    have := descend_inj h hp'.le hp.le hy hx
    rw [this] at hp'
    omega
  exact ⟨nodes_congr hinner, fun p' hp' => descend_congr fun p'' y hp'' hy =>
    hinner p'' y (hp''.trans_le hp') hy⟩

/-- A change of pages outside the tree is not seen by the tree. -/
theorem congr_of_not_mem (hc : ∀ y ∈ nodes c d q, c' y = c y) :
    nodes c' d q = nodes c d q ∧ ∀ p, p.length ≤ d → descend c' q p = descend c q p := by
  have hinner (p : List ι) (y : A) (hp : p.length < d) (hy : descend c q p = some y) :
      c' y = c y := hc y (mem_nodes_of_descend hp.le hy)
  exact ⟨nodes_congr hinner, fun p hp => descend_congr fun p' y hp' hy =>
    hinner p' y (hp'.trans_le hp) hy⟩

variable [DecidableEq ι]

/-- An empty page is linked into the tree. -/
theorem nodes_link (h : (nodes c d q).Nodup) (hp : p.length < d) (hx : descend c q p = some x)
    (hi : c x i = none) {f : A} (hf : f ∉ nodes c d q) (hempty : ∀ j, c' f j = none)
    (hc : ∀ y ∈ nodes c d q, y ≠ x → c' y = c y) (hcx : c' x = update (c x) i (some f)) :
    nodes c' d q = f ::ₘ nodes c d q := by
  induction d generalizing q p with
  | zero => exact absurd hp (Nat.not_lt_zero _)
  | succ d ih =>
    cases p with
    | nil =>
      obtain rfl := Option.some.inj hx
      have hsub (j : ι) (q' : A) (hj : c q j = some q') : nodes c' d q' = nodes c d q' :=
        (congr_of_not_mem fun y hy =>
          hc y (mem_nodes_of_child hj hy) (ne_of_mem_child h hj hy)).1
      have hfresh : nodes c' d f = {f} := by
        cases d with
        | zero => rfl
        | succ d => simp [nodes, hempty]
      rw [nodes, nodes, Multiset.cons_swap]
      congr 1
      rw [← Multiset.singleton_add]
      refine sum_eq_add_of_eq (i := i) ?_ fun j hj => ?_
      · rw [hcx, update_self, hi]
        simp [hfresh]
      · rw [hcx, update_of_ne hj]
        cases hj' : c q j with
        | none => rfl
        | some q' => exact hsub j q' hj'
    | cons j p =>
      obtain ⟨q', hj, hx'⟩ := Option.bind_eq_some_iff.mp hx
      have hp := Nat.lt_of_succ_lt_succ hp
      have hxq' : x ∈ nodes c d q' := mem_nodes_of_descend hp.le hx'
      have hcq : c' q = c q := hc q root_mem_nodes (ne_of_mem_child h hj hxq').symm
      have hchild := ih (nodup_child h hj) hp hx' (fun hmem => hf (mem_nodes_of_child hj hmem))
        fun y hy => hc y (mem_nodes_of_child hj hy)
      rw [nodes, nodes, Multiset.cons_swap, hcq]
      congr 1
      rw [← Multiset.singleton_add]
      refine sum_eq_add_of_eq (i := j) ?_ fun k hk => ?_
      · rw [hj]
        exact hchild
      · cases hk' : c q k with
        | none => rfl
        | some q'' =>
          refine (congr_of_not_mem fun y hy => hc y (mem_nodes_of_child hk' hy) ?_).1
          rintro rfl
          exact hk (index_eq_of_mem_child h hk' hj hy hxq')

/-- The paths after an empty page is linked into the tree. -/
theorem descend_link (h : (nodes c d q).Nodup) (hp : p.length < d) (hx : descend c q p = some x)
    (hi : c x i = none) {f : A} (hempty : ∀ j, c' f j = none)
    (hc : ∀ y ∈ nodes c d q, y ≠ x → c' y = c y) (hcx : c' x = update (c x) i (some f))
    (hp' : p'.length ≤ d) :
    descend c' q p' = if p' = p ++ [i] then some f else descend c q p' := by
  induction p generalizing q d p' with
  | nil =>
    obtain rfl := Option.some.inj hx
    cases d with
    | zero => exact absurd hp (Nat.not_lt_zero _)
    | succ d =>
      cases p' with
      | nil => exact (if_neg (by simp)).symm
      | cons k p' =>
        by_cases hki : k = i
        · subst hki
          rw [descend_cons_eq_none hi, descend_cons_eq_some (show _ = some f by rw [hcx, update_self])]
          cases p' with
          | nil => simp [descend]
          | cons j p' => rw [descend_cons_eq_none (hempty j), if_neg (by simp)]
        · rw [if_neg (by simp [hki]), descend, descend, hcx, update_of_ne hki]
          refine Option.bind_congr fun q' hq' => ?_
          refine (congr_of_not_mem (d := d) fun y hy => ?_).2 p' (Nat.le_of_succ_le_succ hp')
          exact hc y (mem_nodes_of_child hq' hy) (ne_of_mem_child h hq' hy)
  | cons j p ih =>
    cases d with
    | zero => exact absurd hp (Nat.not_lt_zero _)
    | succ d =>
      obtain ⟨q', hj, hx'⟩ := Option.bind_eq_some_iff.mp hx
      have hp := Nat.lt_of_succ_lt_succ hp
      have hxq' : x ∈ nodes c d q' := mem_nodes_of_descend hp.le hx'
      have hcq : c' q = c q := hc q root_mem_nodes (ne_of_mem_child h hj hxq').symm
      cases p' with
      | nil => exact (if_neg (by simp)).symm
      | cons k p' =>
        have hp' := Nat.le_of_succ_le_succ hp'
        by_cases hkj : k = j
        · subst hkj
          rw [descend_cons_eq_some hj, descend_cons_eq_some (hcq ▸ hj)]
          simp only [List.cons_append, List.cons.injEq, true_and]
          exact ih (nodup_child h hj) (Nat.lt_of_succ_lt_succ hp) hx'
            (fun y hy => hc y (mem_nodes_of_child hj hy)) hp'
        · rw [if_neg (by simp [hkj]), descend, descend, hcq]
          refine Option.bind_congr fun q'' hq'' => ?_
          refine (congr_of_not_mem (d := d) fun y hy => hc y (mem_nodes_of_child hq'' hy) ?_).2 p' hp'
          rintro rfl
          exact hkj (index_eq_of_mem_child h hq'' hj hy hxq')

-- a tree of many entries is never unfolded by unification
attribute [irreducible] nodes

end Radix
