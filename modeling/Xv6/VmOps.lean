import Xv6.VmTables

/-!
# The functions on page tables

Specifications of the allocator and of `walk`, `mappages`, `uvmunmap` and `freewalk`.
They say what happens to the map that a page table implements and which pages change
their owner, and that no function panics.
-/
namespace Xv6.Vm

open Function Prog

variable {A : Account} {L : Layout} {s s' : State} {R x : Multiset ℕ} {r q v pa va : ℕ}

lemma setPage_eq (s : State) (pa : ℕ) (f : Fin 512 → Word) :
    s.setPage pa f = { s with mem := update s.mem pa f } := by
  rw [State.setPage]
  congr 1
  funext q
  rw [update_apply]

section Writes

variable {e : Word} {k : Fin 512} {Q : Unit → State → Prop} {E : Panic → Prop}

@[simp] lemma wp_memset :
    wp (memset pa e) s Q E ↔ Q () { s with mem := update s.mem pa fun _ => e } := by
  rw [memset, wp_modify, setPage_eq]

@[simp] lemma wp_memmove {src : ℕ} :
    wp (memmove pa src) s Q E ↔ Q () { s with mem := update s.mem pa (s.mem src) } := by
  rw [memmove, wp_modify, setPage_eq]

@[simp] lemma wp_setPte :
    wp (setPte q k e) s Q E ↔ Q () { s with mem := update s.mem q (update (s.mem q) k e) } := by
  have hentry : (fun i => if i = k then e else s.mem q i) = update (s.mem q) k e := by
    funext i
    rw [update_apply]
  rw [setPte, wp_modify, hentry, setPage_eq]

end Writes

theorem memset_spec (h : Held A s R x) (hpa : pa ∈ x) (e : Word) :
    wp (memset pa e) s (fun _ s' => Held A s' R x ∧ Others A R s s' ∧ s'.mem pa = fun _ => e)
      fun _ => False := by
  have hothers := h.others_of_held hpa fun _ => e
  rw [wp_memset]
  exact ⟨h.of_others hothers rfl, hothers, update_self ..⟩

lemma memset_mem {e : Word} :
    wp (memset pa e) s (fun _ s' => ∀ q ≠ pa, s'.mem q = s.mem q) fun _ => False := by
  rw [wp_memset]
  exact fun _ hq => update_of_ne hq ..

theorem kfree_spec (h : Own L s R (pa ::ₘ x)) :
    wp (kfree L pa) s (fun _ s' => Own L s' R x ∧ Others (.user L) R s s' ∧ ∀ y ≠ pa, s'.mem y = s.mem y)
      fun _ => False := by
  have hrange := h.mem_ram
  have hpanic : ¬ (pa < L.lo ∨ physTop ≤ pa) := by omega
  have hothers := h.others_of_held (Multiset.mem_cons_self pa x) fun _ => junk1
  unfold kfree
  simp only [wp_bind, if_neg hpanic, wp_memset, wp_modify]
  have hown := h.of_others hothers rfl
  refine ⟨⟨?_, hown.inner⟩, ⟨hothers.pages, hothers.proc, hothers.pipes, hothers.events⟩,
    fun y hy => update_of_ne hy ..⟩
  rw [← hown.eq, ← Multiset.singleton_add pa x]
  show ((pa :: s.freelist : List ℕ) : Multiset ℕ) + _ + _ = _
  rw [← Multiset.cons_coe, ← Multiset.singleton_add]
  abel

theorem kalloc_spec (h : Held A s R x) :
    wp kalloc s (fun o s' => Others A R s s' ∧ (o = none → Held A s' R x) ∧
      ∀ pa, o = some pa → Held A s' R (pa ::ₘ x)) fun _ => False := by
  unfold kalloc
  simp only [wp_bind, wp_get, wp_set, wp_ite]
  have hskip : Others A R s { s with refuse := s.refuse.tail } :=
    ⟨fun _ _ _ _ => rfl, rfl, rfl, fun _ he => .inl he⟩
  split_ifs
  · exact ⟨hskip, fun _ => ⟨h.eq, h.inner⟩, fun _ hpa => (by cases hpa)⟩
  · split
    next => exact ⟨hskip, fun _ => ⟨h.eq, h.inner⟩, fun _ hpa => (by cases hpa)⟩
    next pa l hfree =>
      have hothers : Others A R s { s with
          refuse := s.refuse.tail
          freelist := l
          mem := update s.mem pa fun _ => junk5 } := by
        refine ⟨fun r hr q hq => update_of_ne ?_ .., rfl, rfl, fun _ he => .inl he⟩
        rintro rfl
        exact h.not_mem_pages_of_free (hfree ▸ List.mem_cons_self) hr hq
      simp only [wp_bind, wp_modify, wp_memset, wp_pure]
      refine ⟨hothers, fun hpa => (by cases hpa), ?_⟩
      rintro _ ⟨⟩
      have heq := h.eq
      rw [hfree, ← Multiset.cons_coe, ← Multiset.singleton_add] at heq
      refine ⟨?_, fun r hr => (congr_of_tables (hothers.tables r hr)).2.2.2 (h.inner r hr)⟩
      rw [hothers.sum_eq, ← heq, ← Multiset.singleton_add pa x]
      abel

/-- Only the page that is returned is written, and it was free. -/
lemma kalloc_mem : wp kalloc s (fun o s' => (∀ pa, o = some pa → pa ∈ s.freelist) ∧
    ∀ q ∉ s.freelist, s'.mem q = s.mem q) fun _ => False := by
  unfold kalloc
  simp only [wp_bind, wp_get, wp_set, wp_ite]
  split_ifs
  · exact ⟨fun _ ho => (by cases ho), fun _ _ => rfl⟩
  · split
    next => exact ⟨fun _ ho => (by cases ho), fun _ _ => rfl⟩
    next pa l hfree =>
      have hmem : pa ∈ s.freelist := hfree ▸ List.mem_cons_self
      simp only [wp_bind, wp_modify, wp_memset, wp_pure]
      refine ⟨?_, fun q hq => update_of_ne ?_ ..⟩
      · rintro _ ⟨⟩
        exact hmem
      · rintro rfl
        exact hq hmem

variable {E : Panic → Prop}

@[simp] lemma wp_walkLevel_false {i : Fin 512} {Q : Option ℕ → State → Prop} :
    wp (walkLevel q i false) s Q E ↔ Q (child s.mem q i) s := by
  unfold walkLevel child
  simp only [wp_bind, wp_get, wp_ite, Bool.false_eq_true, if_false]
  split_ifs <;> rfl

/-- Without allocation `walk` only reads. -/
theorem wp_walk_false {Q : Option (ℕ × Fin 512) → State → Prop} (hva : va < MAXVA) :
    wp (walk r va false) s Q E ↔
      Q ((leafTable s.mem r (va / PGSIZE)).map fun q => (q, px 0 va)) s := by
  unfold walk leafTable
  simp only [wp_bind, if_neg (not_le.mpr hva), wp_walkLevel_false, ← px_eq_index]
  cases h2 : child s.mem r (px 2 va) with
  | none =>
    rw [Radix.descend_cons_eq_none h2]
    rfl
  | some q =>
    rw [Radix.descend_cons_eq_some h2]
    simp only [wp_bind, wp_walkLevel_false]
    cases h1 : child s.mem q (px 1 va) with
    | none =>
      rw [Radix.descend_cons_eq_none h1]
      rfl
    | some q' =>
      rw [Radix.descend_cons_eq_some h1]
      rfl

/-- A function leaves the page table `r` with the map `m`, and the other page tables
as they are. -/
structure Becomes (A : Account) (r : ℕ) (R x : Multiset ℕ) (m : ℕ → Option Word) (s s' : State) :
    Prop where
  own : Held A s' (r ::ₘ R) x
  lookup : lookup s'.mem r = m
  others : Others A R s s'

/-- A function keeps the map, though page-table pages may be added. -/
abbrev Kept (A : Account) (r : ℕ) (R x : Multiset ℕ) (s s' : State) : Prop :=
  Becomes A r R x (lookup s.mem r) s s'

lemma Becomes.trans {m m' : ℕ → Option Word} {s'' : State} (h : Becomes A r R x m s s')
    (h' : Becomes A r R x m' s' s'') : Becomes A r R x m' s s'' :=
  ⟨h'.own, h'.lookup, h.others.trans h'.others⟩

/-- Only free pages and the pages of the page table are written. -/
def Quiet (r : ℕ) (s s' : State) : Prop :=
  ∀ q ∉ s.freelist, q ∉ tables s.mem r → s'.mem q = s.mem q

/-- Pages that a page table gets come from the free list. -/
lemma Becomes.conserved (h : Held A s (r ::ₘ R) x) (hs' : Kept A r R x s s') :
    (s'.freelist : Multiset ℕ) + tables s'.mem r = s.freelist + tables s.mem r := by
  have heq := hs'.own.eq.trans h.eq.symm
  rw [Multiset.map_cons, Multiset.sum_cons, Multiset.map_cons, Multiset.sum_cons, hs'.others.sum_eq,
    Account.pages, Account.pages, hs'.lookup] at heq
  refine add_right_cancel (b := A.held (Vm.lookup s.mem r) + (R.map (A.pages s.mem)).sum + x) ?_
  calc _ = (s'.freelist : Multiset ℕ) + (tables s'.mem r + A.held (Vm.lookup s.mem r) +
        (R.map (A.pages s.mem)).sum) + x := by abel
    _ = _ := by
      rw [heq]
      abel

lemma Quiet.trans {s'' : State} (hq : Quiet r s s') (h : Held A s (r ::ₘ R) x)
    (hs' : Kept A r R x s s') (hq' : Quiet r s' s'') : Quiet r s s'' := by
  intro q hfree htables
  have hnot : q ∉ (s'.freelist : Multiset ℕ) + tables s'.mem r := by
    rw [hs'.conserved h, Multiset.mem_add, not_or]
    exact ⟨hfree, htables⟩
  rw [Multiset.mem_add, not_or] at hnot
  rw [hq' q hnot.1 hnot.2, hq q hfree htables]

def Untouched (x : Multiset ℕ) (s s' : State) : Prop := ∀ q ∈ x, s'.mem q = s.mem q

lemma Untouched.refl : Untouched x s s := fun _ _ => rfl

lemma Untouched.trans {s'' : State} (h : Untouched x s s') (h' : Untouched x s' s'') :
    Untouched x s s'' := fun q hq => (h' q hq).trans (h q hq)

lemma Held.not_free_of_mem (h : Held A s R x) (hpa : pa ∈ x) : pa ∉ s.freelist :=
  fun hfree => Multiset.disjoint_left.mp (Multiset.nodup_add.mp h.nodup).2.2
    (Multiset.mem_add.mpr (.inl hfree)) hpa

lemma Held.not_table (h : Held A s (r ::ₘ R) x) (hq : q ∈ x) : q ∉ tables s.mem r :=
  fun htable => (h.disjoint.2 q htable).2.1 hq

/-- Pages that are held are neither free nor pages of the page table. -/
lemma Quiet.untouched (hquiet : Quiet r s s') (h : Held A s (r ::ₘ R) x) : Untouched x s s' :=
  fun q hq => hquiet q (h.not_free_of_mem hq) (h.not_table hq)

lemma kalloc_untouched (h : Held A s R x) :
    wp kalloc s (fun _ s' => Untouched x s s') fun _ => False :=
  wp_call kalloc_mem fun _ _ hs' q hq => hs'.2 q (h.not_free_of_mem hq)

theorem walkLevel_spec {p : List (Fin 512)} {i : Fin 512} (h : Held A s (r ::ₘ R) x)
    (hp : p.length < 2) (hq : Radix.descend (child s.mem) r p = some q) :
    wp (walkLevel q i true) s (fun o s' => Kept A r R x s s' ∧ Quiet r s s' ∧
      ∀ q', o = some q' → Radix.descend (child s'.mem) r (p ++ [i]) = some q') fun _ => False := by
  unfold walkLevel
  simp only [wp_bind, wp_get, wp_ite]
  split_ifs with hvalid
  · refine ⟨⟨h, rfl, .refl⟩, fun _ _ _ => rfl, ?_⟩
    rintro _ ⟨⟩
    rw [Radix.descend_append, hq, Option.bind_some, Radix.descend_cons_eq_some (show child s.mem q i = some (Pte.ppn (s.mem q i)) by
      rw [child, if_pos hvalid])]
    rfl
  · refine wp_call (wp_also (kalloc_spec h) kalloc_mem) ?_
    rintro o s₁ ⟨⟨hothers, hnone, hsome⟩, hfrom, hquiet⟩
    have hlookup := hothers.lookup (Multiset.mem_cons_self r R)
    cases o with
    | none =>
      exact ⟨⟨hnone rfl, hlookup, hothers.mono (Multiset.subset_cons R r)⟩,
        fun y hy _ => hquiet y hy, fun _ h => (by cases h)⟩
    | some f =>
      have hown := hsome f rfl
      rw [wp_bind]
      refine wp_call (wp_also (memset_spec hown (Multiset.mem_cons_self f x) 0) memset_mem) ?_
      rintro _ s₂ ⟨⟨hown₂, hothers₂, hzero⟩, hquiet₂⟩
      have hall := hothers.trans hothers₂
      have hq₂ : Radix.descend (child s₂.mem) r p = some q := by
        rw [← hq]
        exact (Radix.congr_of_not_mem fun y hy =>
          child_congr (hall.tables r (Multiset.mem_cons_self r R) y hy)).2 p hp.le
      have hmem : s₂.mem q = s.mem q :=
        hall.tables r (Multiset.mem_cons_self r R) q (Radix.mem_nodes_of_descend hp.le hq)
      have hinvalid : Pte.valid (s₂.mem q i) = false := by rw [hmem, Bool.eq_false_iff]; exact hvalid
      obtain ⟨hown₃, hlookup₃, hothers₃, hdescend⟩ := hown₂.link hp hq₂ hinvalid
        (fun j => by rw [hzero, Pte.valid_zero]) rfl
      simp only [wp_bind, wp_setPte, wp_pure]
      refine ⟨⟨hown₃, ?_, ?_⟩, ?_, ?_⟩
      · exact hlookup₃.trans (hall.lookup (Multiset.mem_cons_self r R))
      · exact (hall.mono (Multiset.subset_cons R r)).trans hothers₃
      · intro y hy hytables
        have hyq : y ≠ q := by
          rintro rfl
          exact hytables (Radix.mem_nodes_of_descend hp.le hq)
        have hyf : y ≠ f := by
          rintro rfl
          exact hy (hfrom y rfl)
        exact ((update_of_ne hyq ..).trans (hquiet₂ y hyf)).trans (hquiet y hy)
      · rintro _ ⟨⟩
        refine (hdescend (p ++ [i]) ?_).trans (if_pos rfl)
        rw [List.length_append]
        exact hp

theorem walk_spec (h : Held A s (r ::ₘ R) x) (hva : va < MAXVA) :
    wp (walk r va true) s (fun o s' => Kept A r R x s s' ∧ Quiet r s s' ∧
      ∀ q k, o = some (q, k) → leafTable s'.mem r (va / PGSIZE) = some q ∧ k = px 0 va)
      fun _ => False := by
  unfold walk
  simp only [wp_bind, if_neg (not_le.mpr hva)]
  refine wp_call (walkLevel_spec (p := []) h (by decide) rfl) ?_
  rintro o s₁ ⟨hkept₁, hquiet₁, hsome₁⟩
  cases o with
  | none => exact ⟨hkept₁, hquiet₁, fun _ _ h => (by cases h)⟩
  | some q₁ =>
    rw [wp_bind]
    refine wp_call (walkLevel_spec (i := px 1 va) hkept₁.own (by simp) (hsome₁ q₁ rfl)) ?_
    rintro o s₂ ⟨hkept₂, hquiet₂, hsome₂⟩
    have hkept : Kept A r R x s s₂ :=
      ⟨hkept₂.own, hkept₂.lookup.trans hkept₁.lookup, hkept₁.others.trans hkept₂.others⟩
    have hquiet := hquiet₁.trans h hkept₁ hquiet₂
    cases o with
    | none => exact ⟨hkept, hquiet, fun _ _ h => (by cases h)⟩
    | some q₂ =>
      refine ⟨hkept, hquiet, ?_⟩
      rintro _ _ ⟨⟩
      exact ⟨hsome₂ q₂ rfl, rfl⟩

lemma mul_div_PGSIZE (v : ℕ) : v * PGSIZE / PGSIZE = v := Nat.mul_div_cancel v (by decide)

lemma mul_PGSIZE_lt_MAXVA (hv : v ≤ trampVpn) : v * PGSIZE < MAXVA := by
  unfold trampVpn at hv
  unfold PGSIZE MAXVA
  omega

lemma px_mul (level v : ℕ) : px level (v * PGSIZE) = index level v := by
  rw [px_eq_index, mul_div_PGSIZE]

lemma lt_NVPN (hv : v ≤ trampVpn) : v < NVPN := hv.trans_lt (by decide)

/-- What mapping one page does: it takes the page from `x`, unless memory runs out. -/
structure MapPage (A : Account) (r : ℕ) (R x : Multiset ℕ) (v : ℕ) (e : Word) (s : State) (ok : Bool)
    (s' : State) : Prop where
  done : ok = true → Becomes A r R x (update (lookup s.mem r) v (some e)) s s'
  failed : ok = false → Kept A r R (x + A.share v (some e)) s s'
  quiet : Quiet r s s'

theorem mappage_spec {perm : BitVec 10} (hv : v ≤ trampVpn)
    (h : Held A s (r ::ₘ R) (x + A.share v (some (Pte.mk pa (perm ||| PTE_V))))) (hfree : lookup s.mem r v = none) :
    wp (mappage r (v * PGSIZE) pa perm) s (MapPage A r R x v (Pte.mk pa (perm ||| PTE_V)) s) fun _ => False := by
  unfold mappage
  rw [wp_bind]
  refine wp_call (walk_spec h (mul_PGSIZE_lt_MAXVA hv)) ?_
  rintro o s₁ ⟨hkept, hquiet, hsome⟩
  cases o with
  | none => exact ⟨fun ho => (by cases ho), fun _ => hkept, hquiet⟩
  | some e =>
    obtain ⟨q, k⟩ := e
    obtain ⟨hq, rfl⟩ := hsome q k rfl
    rw [mul_div_PGSIZE] at hq
    rw [px_mul]
    have hinvalid : ¬ Pte.valid (s₁.mem q (index 0 v)) = true := by
      intro hvalid
      have hlook := congrFun hkept.lookup v
      rw [hfree, lookup, if_pos (lt_NVPN hv), hq, Option.bind_some, if_pos hvalid] at hlook
      cases hlook
    simp only [wp_bind, wp_get, if_neg hinvalid, wp_setPte, wp_pure]
    have hold : lookup s₁.mem r v = none := by rw [hkept.lookup, hfree]
    obtain ⟨hown, hlookup, hothers⟩ := hkept.own.setLeaf (y := x) (e := Pte.mk pa (perm ||| PTE_V))
      (by rw [Pte.valid_mk_or, if_pos rfl]) (by rw [hold, A.share_none, add_zero]) hq (lt_NVPN hv) rfl
    refine ⟨fun _ => ⟨hown, ?_, hkept.others.trans hothers⟩, fun ho => (by cases ho), ?_⟩
    · rw [← hkept.lookup]
      exact hlookup
    · refine hquiet.trans h hkept fun y _ hy => update_of_ne ?_ ..
      rintro rfl
      exact hy (leafTable_mem hq)

theorem mappages_spec {perm : BitVec 10} (hv : v ≤ trampVpn)
    (h : Held A s (r ::ₘ R) (x + A.share v (some (Pte.mk pa (perm ||| PTE_V))))) (hfree : lookup s.mem r v = none) :
    wp (mappages r (v * PGSIZE) PGSIZE pa perm) s (MapPage A r R x v (Pte.mk pa (perm ||| PTE_V)) s)
      fun _ => False := by
  have haligned : ¬ v * PGSIZE % PGSIZE ≠ 0 := by simp
  have hsize : ¬ (PGSIZE % PGSIZE ≠ 0 ∨ PGSIZE = 0) := by decide
  unfold mappages
  simp only [if_neg haligned, if_neg hsize]
  rw [wp_bind, Nat.div_self (by decide : 0 < PGSIZE), wp_search_one, wp_bind, Nat.zero_mul,
    Nat.add_zero, Nat.add_zero]
  refine wp_call (mappage_spec hv h hfree) ?_
  rintro ok s₁ hs₁
  cases ok with
  | true => exact hs₁
  | false => exact hs₁

lemma lookup_of_leafTable (hv : v < NVPN) (hq : leafTable s.mem r v = some q) :
    lookup s.mem r v = if Pte.valid (s.mem q (index 0 v)) then some (s.mem q (index 0 v)) else none := by
  rw [lookup, if_pos hv, hq, Option.bind_some]

lemma lookup_eq_none_of_leafTable (hq : leafTable s.mem r v = none) : lookup s.mem r v = none := by
  rw [lookup, hq, Option.bind_none, ite_self]

/-- What `walk` finds for an address: the page and the flags of a valid entry. -/
def entry (s : State) (pagetable va : ℕ) : Option (ℕ × BitVec 10) :=
  match (walk pagetable va false).run s with
  | .ok (some (q, k), _) =>
    if Pte.valid (s.mem q k) then some (Pte.ppn (s.mem q k), Pte.flags (s.mem q k)) else none
  | _ => none

/-- The page and the flags of an entry. -/
def Pte.decode (e : Word) : ℕ × BitVec 10 := (Pte.ppn e, Pte.flags e)

/-- `walk` reads the map that the page table implements. -/
theorem entry_eq (hva : va < MAXVA) : entry s r va = (lookup s.mem r (va / PGSIZE)).map Pte.decode := by
  have hv : va / PGSIZE < NVPN := by
    unfold MAXVA at hva
    unfold PGSIZE NVPN
    omega
  have hrun := (wp_walk_false (s := s) (r := r) (E := fun _ => False)
    (Q := fun o s' => o = (leafTable s.mem r (va / PGSIZE)).map (fun q => (q, px 0 va)) ∧ s' = s)
    hva).mpr ⟨rfl, rfl⟩
  unfold wp at hrun
  unfold entry
  cases hwalk : (walk r va false).run s with
  | error e =>
    rw [hwalk] at hrun
    exact hrun.elim
  | ok a =>
    obtain ⟨o, s'⟩ := a
    rw [hwalk] at hrun
    obtain ⟨rfl, rfl⟩ := hrun
    cases hq : leafTable s'.mem r (va / PGSIZE) with
    | none =>
      rw [lookup_eq_none_of_leafTable hq]
      rfl
    | some q =>
      rw [lookup_of_leafTable hv hq, px_eq_index]
      simp only [Option.map_some]
      split_ifs <;> rfl

lemma entry_mul (hv : v ≤ trampVpn) : entry s r (v * PGSIZE) = (lookup s.mem r v).map Pte.decode := by
  rw [entry_eq (mul_PGSIZE_lt_MAXVA hv), mul_div_PGSIZE]

end Xv6.Vm
