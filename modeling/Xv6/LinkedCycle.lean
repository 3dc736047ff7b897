import Mathlib.Tactic

/-!
# Linked lists in memory

A path follows the pointers `next` from one node through a list of nodes to another. A cycle
is a path that comes back. A search goes along the pointers to the first node that stops it.
-/
namespace LinkedCycle

variable {α : Type*} {next next' : α → α} {x y z : α} {l l' : List α}

/-- From `x` the pointers lead through `l` to `y`. -/
def Path (next : α → α) : α → List α → α → Prop
  | x, [], y => next x = y
  | x, z :: l, y => next x = z ∧ Path next z l y

theorem path_append : Path next x (l ++ z :: l') y ↔ Path next x l z ∧ Path next z l' y := by
  induction l generalizing x with
  | nil => exact Iff.rfl
  | cons w l ih => rw [List.cons_append, Path, Path, ih, and_assoc]

/-- A path looks at the pointers of all its nodes but the last. -/
theorem Path.congr (h : Path next x l y) (heq : ∀ w ∈ x :: l, next' w = next w) :
    Path next' x l y := by
  induction l generalizing x with
  | nil => exact (heq x List.mem_cons_self).trans h
  | cons w l ih =>
    obtain ⟨hw, hpath⟩ := h
    exact ⟨(heq x List.mem_cons_self).trans hw,
      ih hpath fun v hv => heq v (List.mem_cons_of_mem x hv)⟩

/-- A cycle may start at any of its nodes. -/
theorem Path.rotate (h : Path next x (l ++ y :: l') x) : Path next y (l' ++ x :: l) y := by
  rw [path_append] at h ⊢
  exact h.symm

theorem Path.map_next (h : Path next x l y) : (x :: l).map next = l ++ [y] := by
  induction l generalizing x with
  | nil => exact congrArg (· :: []) h
  | cons w l ih =>
    have hw : next x = w := h.1
    rw [List.map_cons, hw, ih h.2]
    rfl

/-- The same pointers, with another first node. -/
theorem Path.start (h : Path next x l y) (hz : next' z = next x)
    (heq : ∀ w ∈ l, next' w = next w) : Path next' z l y := by
  cases l with
  | nil => exact hz.trans h
  | cons w l => exact ⟨hz.trans h.1, h.2.congr heq⟩

theorem Path.mem_next (h : Path next x l y) (hz : z ∈ x :: l) : next z ∈ l ++ [y] :=
  h.map_next ▸ List.mem_map_of_mem hz

/-- Follow the pointers to the first node that stops. -/
def search (stop : α → Bool) (next : α → α) : ℕ → α → Option α
  | 0, _ => none
  | k + 1, x => if stop x then some x else search stop next k (next x)

variable {stop : α → Bool}

theorem search_stop {k : ℕ} (h : stop x = true) : search stop next (k + 1) x = some x := if_pos h

theorem search_mono {k k' : ℕ} (hk : k ≤ k') (h : search stop next k x = some y) :
    search stop next k' x = some y := by
  induction k generalizing x k' with
  | zero => cases h
  | succ k ih =>
    obtain ⟨k', rfl⟩ : ∃ j, k' = j + 1 := ⟨k' - 1, by omega⟩
    rw [search] at h ⊢
    split at h
    · next hs => rwa [if_pos hs]
    · next hs =>
      rw [if_neg hs]
      exact ih (by omega) h

theorem exists_search (h : Path next x l y) (hstop : ∃ w ∈ x :: l, stop w = true) :
    ∃ w ∈ x :: l, stop w = true ∧ ∀ k, l.length < k → search stop next k x = some w := by
  induction l generalizing x with
  | nil =>
    obtain ⟨w, hw, hs⟩ := hstop
    obtain rfl := List.mem_singleton.mp hw
    refine ⟨w, hw, hs, fun k hk => ?_⟩
    obtain ⟨k, rfl⟩ : ∃ j, k = j + 1 := ⟨k - 1, by omega⟩
    exact search_stop hs
  | cons z l ih =>
    by_cases hx : stop x = true
    · refine ⟨x, List.mem_cons_self, hx, fun k hk => ?_⟩
      obtain ⟨k, rfl⟩ : ∃ j, k = j + 1 := ⟨k - 1, by omega⟩
      exact search_stop hx
    · obtain ⟨v, hv, hs⟩ := hstop
      have hv : v ∈ z :: l := (List.mem_cons.mp hv).resolve_left fun hvx => hx (hvx ▸ hs)
      obtain ⟨w, hw, hsw, hfound⟩ := ih h.2 ⟨v, hv, hs⟩
      refine ⟨w, List.mem_cons_of_mem x hw, hsw, fun k hk => ?_⟩
      rw [List.length_cons] at hk
      obtain ⟨k, rfl⟩ : ∃ j, k = j + 1 := ⟨k - 1, by omega⟩
      rw [search, if_neg hx, h.1]
      exact hfound k (by omega)

variable [LinearOrder α] {b p : α} {c c' : List α}

/-- The nodes ascend, except for one turn. -/
def Ascends (c : List α) : Prop := ∃ l l', c = l ++ l' ∧ (l' ++ l).Pairwise (· < ·)

/-- `b` belongs after `p`: between `p` and its successor, or at the turn. -/
def After (next : α → α) (b p : α) : Prop :=
  (p < b ∧ b < next p) ∨ (next p ≤ p ∧ (p < b ∨ b < next p))

theorem Ascends.nodup (h : Ascends c) : c.Nodup := by
  obtain ⟨l, l', rfl, hs⟩ := h
  exact List.perm_append_comm.nodup (hs.imp ne_of_lt)

theorem Ascends.sublist (h : Ascends c) (hsub : c'.Sublist c) : Ascends c' := by
  obtain ⟨l, l', rfl, hs⟩ := h
  obtain ⟨k, k', rfl, hk, hk'⟩ := List.sublist_append_iff.mp hsub
  exact ⟨k, k', rfl, hs.sublist (hk'.append hk)⟩

theorem Ascends.rotate (h : Ascends (l ++ l')) : Ascends (l' ++ l) := by
  obtain ⟨k, k', heq, hs⟩ := h
  obtain ⟨m, rfl, rfl⟩ | ⟨m, rfl, rfl⟩ := List.append_eq_append_iff.mp heq
  · exact ⟨m, k' ++ l, List.append_assoc _ _ _, by rwa [List.append_assoc]⟩
  · exact ⟨l' ++ k, m, (List.append_assoc _ _ _).symm, by rwa [← List.append_assoc]⟩

/-- In a list that ascends, a value between two neighbours lies between all before and after. -/
theorem pairwise_insert {k k' : List α} (h : (k ++ p :: k').Pairwise (· < ·)) (hp : p < b)
    (hb : ∀ q ∈ k'.head?, b < q) : (k ++ p :: b :: k').Pairwise (· < ·) := by
  obtain ⟨hk, hpk, hcross⟩ := List.pairwise_append.mp h
  obtain ⟨hpall, hk'⟩ := List.pairwise_cons.mp hpk
  have hball : ∀ q ∈ k', b < q := by
    cases k' with
    | nil => exact fun q hq => absurd hq List.not_mem_nil
    | cons q k' =>
      have hq : b < q := hb q rfl
      intro r hr
      obtain rfl | hr := List.mem_cons.mp hr
      · exact hq
      · exact hq.trans ((List.pairwise_cons.mp hk').1 r hr)
  refine List.pairwise_append.mpr ⟨hk, ?_, ?_⟩
  · refine List.pairwise_cons.mpr ⟨?_, List.pairwise_cons.mpr ⟨hball, hk'⟩⟩
    intro q hq
    obtain rfl | hq := List.mem_cons.mp hq
    · exact hp
    · exact hpall q hq
  · intro x hx q hq
    have hxp : x < p := hcross x hx p List.mem_cons_self
    obtain rfl | hq := List.mem_cons.mp hq
    · exact hxp
    · obtain rfl | hq := List.mem_cons.mp hq
      · exact hxp.trans hp
      · exact hcross x hx q (List.mem_cons_of_mem p hq)

theorem Ascends.order (h : Ascends (p :: l)) :
    ∃ m m', l = m' ++ m ∧ (m ++ p :: m').Pairwise (· < ·) := by
  obtain ⟨k, k', heq, hs⟩ := h
  cases k with
  | nil =>
    have heq : p :: l = k' := heq
    rw [← heq, List.append_nil] at hs
    exact ⟨[], l, (List.append_nil l).symm, hs⟩
  | cons x k =>
    obtain ⟨rfl, rfl⟩ := List.cons.inj heq
    exact ⟨k', k, rfl, hs⟩

/-- The cycle of `p` with `b` after it. -/
theorem Ascends.insert (h : Ascends (p :: l)) (hpath : Path next p l p) (hb : After next b p) :
    Ascends (p :: b :: l) := by
  obtain ⟨m, m', rfl, hs⟩ := h.order
  cases m' with
  | cons q m' =>
    -- `p` is not the last one
    have hq : next p = q := hpath.1
    have hpq : p < q :=
      (List.pairwise_cons.mp (List.pairwise_append.mp hs).2.1).1 q List.mem_cons_self
    rw [After, hq] at hb
    have hb : p < b ∧ b < q := hb.resolve_right fun hturn => absurd hturn.1 (not_le.mpr hpq)
    have hsb := pairwise_insert hs hb.1 (by simpa using hb.2)
    exact ⟨p :: b :: q :: m', m, rfl, hsb⟩
  | nil =>
    rw [List.nil_append] at hpath ⊢
    obtain hbp | hbp : p < b ∨ b < next p := by
      obtain hb | hb := hb
      · exact Or.inl hb.1
      · exact hb.2
    · have hsb := pairwise_insert hs hbp (by simp)
      exact ⟨[p, b], m, rfl, hsb⟩
    · -- `b` comes before all others
      refine ⟨[p], b :: m, rfl, List.pairwise_cons.mpr ⟨?_, hs⟩⟩
      cases m with
      | nil =>
        have hp : next p = p := hpath
        intro x hx
        obtain rfl := List.mem_singleton.mp hx
        exact hp ▸ hbp
      | cons q m =>
        have hq : next p = q := hpath.1
        intro x hx
        obtain rfl | hx := List.mem_cons.mp hx
        · exact hq ▸ hbp
        · exact (hq ▸ hbp).trans ((List.pairwise_cons.mp hs).1 x hx)

/-- Nothing of the cycle belongs between two neighbours. -/
theorem Ascends.not_after (h : Ascends (p :: l)) (hpath : Path next p l p) (hb : b ∈ l) :
    ¬ After next b p := by
  obtain ⟨m, m', rfl, hs⟩ := h.order
  obtain ⟨hm, hpm, hcross⟩ := List.pairwise_append.mp hs
  obtain ⟨hpall, hm'⟩ := List.pairwise_cons.mp hpm
  have hlow : ∀ x ∈ m, x < p := fun x hx => hcross x hx p List.mem_cons_self
  intro hafter
  cases m' with
  | cons q m' =>
    have hq : next p = q := hpath.1
    have hpq : p < q := hpall q List.mem_cons_self
    rw [After, hq] at hafter
    obtain ⟨hpb, hbq⟩ := hafter.resolve_right fun hturn => absurd hturn.1 (not_le.mpr hpq)
    obtain hb | hb := List.mem_append.mp hb
    · obtain rfl | hb := List.mem_cons.mp hb
      · exact lt_irrefl b hbq
      · exact lt_asymm hbq ((List.pairwise_cons.mp hm').1 b hb)
    · exact lt_asymm hpb (hlow b hb)
  | nil =>
    -- `p` is the last one, and its successor the first
    rw [List.nil_append] at hb hpath
    have hbp : b < p := hlow b hb
    obtain ⟨q, m, rfl⟩ : ∃ q m0, m = q :: m0 := List.exists_cons_of_ne_nil (List.ne_nil_of_mem hb)
    have hq : next p = q := hpath.1
    have hqb : q ≤ b := by
      obtain rfl | hb := List.mem_cons.mp hb
      · exact le_rfl
      · exact ((List.pairwise_cons.mp hm).1 b hb).le
    rw [After, hq] at hafter
    obtain hafter | hafter := hafter
    · exact lt_asymm hbp hafter.1
    · obtain hpb | hbq := hafter.2
      · exact lt_asymm hbp hpb
      · exact absurd hqb (not_le.mpr hbq)

theorem exists_after (hpath : Path next p l p) (hb : b ∉ p :: l) :
    ∃ w ∈ p :: l, After next b w := by
  have hclosed : ∀ w ∈ p :: l, next w ∈ p :: l := fun w hw =>
    (List.perm_append_singleton p l).mem_iff.mp (hpath.mem_next hw)
  by_cases hlow : ∃ w ∈ p :: l, w < b
  · -- the greatest node below `b`
    obtain ⟨w, hw, hmax⟩ := ((p :: l).toFinset.filter (· < b)).exists_max_image id (by
      obtain ⟨w, hw, hwb⟩ := hlow
      exact ⟨w, Finset.mem_filter.mpr ⟨List.mem_toFinset.mpr hw, hwb⟩⟩)
    obtain ⟨hw, hwb⟩ := Finset.mem_filter.mp hw
    have hw := List.mem_toFinset.mp hw
    refine ⟨w, hw, ?_⟩
    obtain hle | hlt := le_or_gt (next w) w
    · exact Or.inr ⟨hle, Or.inl hwb⟩
    · refine Or.inl ⟨hwb, lt_of_le_of_ne (le_of_not_gt fun hnb => ?_) fun heq => ?_⟩
      · have hn : next w ∈ (p :: l).toFinset.filter (· < b) :=
          Finset.mem_filter.mpr ⟨List.mem_toFinset.mpr (hclosed w hw), hnb⟩
        exact absurd (hmax _ hn) (not_le.mpr hlt)
      · exact hb (heq ▸ hclosed w hw)
  · -- the greatest node
    obtain ⟨w, hw, hmax⟩ := (p :: l).toFinset.exists_max_image id
      ⟨p, List.mem_toFinset.mpr List.mem_cons_self⟩
    have hw := List.mem_toFinset.mp hw
    have hn := hclosed w hw
    refine ⟨w, hw, Or.inr ⟨hmax _ (List.mem_toFinset.mpr hn), Or.inr ?_⟩⟩
    obtain hlt | heq | hgt := lt_trichotomy b (next w)
    · exact hlt
    · exact absurd (heq ▸ hn) hb
    · exact absurd ⟨next w, hn, hgt⟩ hlow

end LinkedCycle
