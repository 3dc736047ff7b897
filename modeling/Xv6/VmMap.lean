import Xv6.VmSafety

/-!
# A page table is a finite map

One page table from `uvmcreate` on: `mappages`, `uvmunmap` and `walk` are called in any
order, and during each call `kalloc` returns fresh pages or 0. Through `walk` the page
table is a map from pages to physical pages and flags. It may map any physical page,
its own page-table pages included, as the kernel's page table does.
-/
namespace Xv6.Vm

open Function Prog

inductive TableOp where
  | walk (va : ℕ)
  | mappages (va size pa : ℕ) (perm : BitVec 10)
  | uvmunmap (va npages : ℕ) (doFree : Bool)
  deriving DecidableEq, Repr

/-- What `kalloc` returns during a call: these pages in their order, and 0 where it is
refused or no page is left. -/
structure Supply where
  pages : List ℕ
  refuse : List Bool

def State.supply (s : State) (a : Supply) : State :=
  { s with freelist := a.pages, refuse := a.refuse }

def TableOp.body (L : Layout) (r : ℕ) : TableOp → VM Unit
  | .walk va => do
    let _ ← Vm.walk r va true
  | .mappages va size pa perm => do
    let _ ← Vm.mappages r va size pa perm
  | .uvmunmap va npages doFree => Vm.uvmunmap L r va npages doFree

/-- A call on the page table `r`, unless it panics. -/
def tableStep (L : Layout) (r : ℕ) (s : State) (a : TableOp × Supply) : Option State :=
  match (a.1.body L r).run (s.supply a.2) with
  | .ok (_, s') => some s'
  | .error _ => none

/-- Distinct pages of the allocator's range that are not among the pages `T`. -/
def Fresh (L : Layout) (T : Multiset ℕ) (pages : List ℕ) : Prop :=
  pages.Nodup ∧ ∀ pa ∈ pages, (L.lo ≤ pa ∧ pa < physTop) ∧ pa ∉ T

/-- The pages that `uvmunmap` has to free are not page-table pages of this page table. -/
def Detached (r : ℕ) (s : State) : TableOp → Prop
  | .uvmunmap va npages true =>
    ∀ i < npages, ∀ e ∈ entry s r (va + i * PGSIZE), e.1 ∉ tables s.mem r
  | _ => True

/-- `kalloc` returns fresh pages, and no page-table page is freed as a mapped page. -/
def Admissible (L : Layout) (r : ℕ) (s : State) (a : TableOp × Supply) : Prop :=
  Fresh L (tables s.mem r) a.2.pages ∧ Detached r s a.1

instance (L : Layout) (T : Multiset ℕ) (pages : List ℕ) : Decidable (Fresh L T pages) := by
  unfold Fresh
  infer_instance

instance (r : ℕ) (s : State) : DecidablePred (Detached r s) := fun op => by
  unfold Detached
  split <;> infer_instance

instance (L : Layout) (r : ℕ) (s : State) (a : TableOp × Supply) : Decidable (Admissible L r s a) := by
  unfold Admissible
  infer_instance

variable {A : Account} {L : Layout} {s s' : State} {mem : ℕ → Fin 512 → Word} {R x : Multiset ℕ}
  {r v n pa : ℕ} {perm : BitVec 10} {doFree : Bool}

/-- The pages of `r` form a page table. -/
structure IsTable (mem : ℕ → Fin 512 → Word) (r : ℕ) : Prop where
  nodup : (tables mem r).Nodup
  inner : Inner mem r
  small : ∀ q ∈ tables mem r, q < 2 ^ 52

/-- No page is held through the map: only page-table pages are accounted for. -/
def Account.bare (U : Multiset ℕ) (hnodup : U.Nodup) (hsmall : ∀ pa ∈ U, pa < 2 ^ 52) : Account where
  held := fun _ => 0
  share := fun _ _ => 0
  all := U
  share_none := fun _ => rfl
  held_none := rfl
  held_update := fun _ _ _ => rfl
  nodup := hnodup
  small := hsmall

/-- The mapped pages do not matter for the account. -/
def Account.Free (A : Account) : Prop := ∀ v o, A.share v o = 0

lemma Fresh.small {T : Multiset ℕ} {pages : List ℕ} (h : Fresh L T pages) : ∀ pa ∈ pages, pa < 2 ^ 52 :=
  fun pa hpa => (h.2 pa hpa).1.2.trans (by decide)

lemma Held.isTable (h : Held A s (r ::ₘ R) x) : IsTable s.mem r := by
  refine ⟨h.disjoint.1, h.inner r (Multiset.mem_cons_self r R), fun q hq => A.small q ?_⟩
  rw [← h.eq]
  refine Multiset.mem_add.mpr (.inl (Multiset.mem_add.mpr (.inr ?_)))
  exact mem_sum_pages (Multiset.mem_cons_self r R) (Multiset.mem_add.mpr (.inl hq))

lemma IsTable.held {a : Supply} (h : IsTable s.mem r) (hfresh : Fresh L (tables s.mem r) a.pages) :
    ∃ A : Account, A.Free ∧ Held A (s.supply a) (r ::ₘ 0) 0 := by
  have hnodup : ((a.pages : Multiset ℕ) + tables s.mem r).Nodup := by
    refine Multiset.nodup_add.mpr ⟨Multiset.coe_nodup.mpr hfresh.1, h.nodup, ?_⟩
    exact Multiset.disjoint_left.mpr fun hpa => (hfresh.2 _ hpa).2
  have hsmall : ∀ pa ∈ (a.pages : Multiset ℕ) + tables s.mem r, pa < 2 ^ 52 := by
    intro pa hpa
    obtain hpa | hpa := Multiset.mem_add.mp hpa
    · exact hfresh.small pa hpa
    · exact h.small pa hpa
  refine ⟨.bare _ hnodup hsmall, fun _ _ => rfl, ?_, Multiset.forall_mem_cons.mpr ⟨h.inner, by simp⟩⟩
  simp [Account.pages, Account.bare, State.supply]

/-- The map with `n` pages more, from `v` on. -/
def fill (m : ℕ → Option Word) (v n pa : ℕ) (perm : BitVec 10) : ℕ → Option Word :=
  fun w => if v ≤ w ∧ w < v + n then some (Pte.mk (pa + (w - v)) (perm ||| PTE_V)) else m w

lemma fill_zero (m : ℕ → Option Word) : fill m v 0 pa perm = m := by
  funext w
  exact if_neg (by omega)

lemma update_fill (m : ℕ → Option Word) : update (fill m v n pa perm) (v + n)
    (some (Pte.mk (pa + n) (perm ||| PTE_V))) = fill m v (n + 1) pa perm := by
  funext w
  unfold fill
  by_cases hw : w = v + n
  · rw [hw, update_self, if_pos (by omega), Nat.add_sub_cancel_left]
  · rw [update_of_ne hw]
    congr 1
    exact propext (by omega)

lemma wp_walk_above {va : ℕ} {alloc : Bool} {Q : Option (ℕ × Fin 512) → State → Prop}
    {E : Panic → Prop} (hva : MAXVA ≤ va) : wp (walk r va alloc) s Q E ↔ E .walk := by
  unfold walk
  rw [if_pos hva]
  rfl

lemma MAXVA_le_of_lt (hv : ¬ v ≤ trampVpn) : MAXVA ≤ v * PGSIZE := by
  unfold trampVpn at hv
  unfold MAXVA PGSIZE
  omega

/-- Mapping a page panics only if it is mapped, or above `MAXVA`. -/
theorem mappage_map (hA : A.Free) (h : Held A s (r ::ₘ R) x) :
    wp (mappage r (v * PGSIZE) pa perm) s (fun ok s' => Held A s' (r ::ₘ R) x ∧ (ok = true →
      lookup s'.mem r = update (lookup s.mem r) v (some (Pte.mk pa (perm ||| PTE_V)))))
      fun _ => ¬ (v ≤ trampVpn ∧ lookup s.mem r v = none) := by
  by_cases hv : v ≤ trampVpn
  · cases hfree : lookup s.mem r v with
    | none =>
      have hx : Held A s (r ::ₘ R) (x + A.share v (some (Pte.mk pa (perm ||| PTE_V)))) := by
        rw [hA, add_zero]
        exact h
      refine wp_mono (mappage_spec hv hx hfree) ?_ fun _ hfalse => hfalse.elim
      intro ok s' hs'
      cases ok with
      | true => exact ⟨(hs'.done rfl).own, fun _ => (hs'.done rfl).lookup⟩
      | false =>
        have hown := (hs'.failed rfl).own
        rw [hA, add_zero] at hown
        exact ⟨hown, fun hok => (by cases hok)⟩
    | some e =>
      unfold mappage
      rw [wp_bind]
      refine wp_call (wp_mono (walk_spec h (mul_PGSIZE_lt_MAXVA hv)) (fun _ _ hs' => hs')
        fun _ hfalse => hfalse.elim) ?_
      rintro o s₁ ⟨hkept, -, hsome⟩
      cases o with
      | none => exact ⟨hkept.own, fun hok => (by cases hok)⟩
      | some a =>
        obtain ⟨q, k⟩ := a
        obtain ⟨hq, rfl⟩ := hsome q k rfl
        rw [mul_div_PGSIZE] at hq
        have hlook := congrFun hkept.lookup v
        rw [hfree, lookup_of_leafTable (lt_NVPN hv) hq] at hlook
        have hvalid : Pte.valid (s₁.mem q (index 0 v)) = true := by
          by_contra hvalid
          rw [if_neg hvalid] at hlook
          cases hlook
        simp only [wp_bind, wp_get, px_mul, if_pos hvalid, wp_throw]
        intro hpre
        cases hpre.2
  · unfold mappage
    rw [wp_bind, wp_walk_above (MAXVA_le_of_lt hv)]
    exact fun hpre => hv hpre.1

theorem mappages_map (hA : A.Free) (h : Held A s (r ::ₘ R) x) (hn : 0 < n) :
    wp (mappages r (v * PGSIZE) (n * PGSIZE) pa perm) s (fun ok s' => Held A s' (r ::ₘ R) x ∧
      (ok = true → lookup s'.mem r = fill (lookup s.mem r) v n pa perm))
      fun _ => ¬ ∀ i < n, v + i ≤ trampVpn ∧ lookup s.mem r (v + i) = none := by
  have haligned : ¬ v * PGSIZE % PGSIZE ≠ 0 := by simp
  have hsize : ¬ (n * PGSIZE % PGSIZE ≠ 0 ∨ n * PGSIZE = 0) := by
    rintro (hmod | hzero)
    · exact hmod (Nat.mul_mod_left n PGSIZE)
    · exact absurd (Nat.mul_eq_zero.mp hzero) (by unfold PGSIZE; omega)
  unfold mappages
  simp only [if_neg haligned, if_neg hsize]
  rw [wp_bind, mul_div_PGSIZE]
  refine wp_search (fun i s' => Held A s' (r ::ₘ R) x ∧
    lookup s'.mem r = fill (lookup s.mem r) v i pa perm) ⟨h, (fill_zero _).symm⟩ ?_ ?_
  · rintro i s₁ - hi ⟨hown, hlookup⟩
    rw [Nat.zero_add] at hi
    rw [wp_bind, ← Nat.add_mul]
    refine wp_mono (mappage_map hA hown) ?_ ?_
    · rintro ok s₂ ⟨hown₂, hdone⟩
      cases ok with
      | true =>
        refine ⟨fun _ ho => (by cases ho), fun _ => ⟨hown₂, ?_⟩⟩
        rw [hdone rfl, hlookup, update_fill]
      | false => exact ⟨fun _ _ => ⟨hown₂, fun hok => (by cases hok)⟩, fun ho => (by cases ho)⟩
    · intro _ hpre hall
      refine hpre ⟨(hall i hi).1, ?_⟩
      rw [hlookup, fill, if_neg (by omega)]
      exact (hall i hi).2
  · rintro s₁ ⟨hown, hlookup⟩
    rw [Nat.zero_add] at hlookup
    exact ⟨hown, fun _ => hlookup⟩

/-- Whatever the arguments are, `mappages` that succeeds fills a range of the map. -/
lemma mappages_any {va size : ℕ} (hA : A.Free) (h : Held A s (r ::ₘ R) x) :
    wp (mappages r va size pa perm) s (fun ok s' => Held A s' (r ::ₘ R) x ∧ (ok = true →
      ∃ v n, va = v * PGSIZE ∧ size = n * PGSIZE ∧
        lookup s'.mem r = fill (lookup s.mem r) v n pa perm)) fun _ => True := by
  by_cases hva : va % PGSIZE = 0
  · by_cases hsize : size % PGSIZE = 0 ∧ size ≠ 0
    · obtain ⟨v, rfl⟩ := Nat.dvd_of_mod_eq_zero hva
      obtain ⟨n, rfl⟩ := Nat.dvd_of_mod_eq_zero hsize.1
      have hn : 0 < n := Nat.pos_of_ne_zero fun hn => hsize.2 (by rw [hn, Nat.mul_zero])
      rw [Nat.mul_comm PGSIZE v, Nat.mul_comm PGSIZE n]
      refine wp_mono (mappages_map hA h hn) ?_ fun _ _ => trivial
      rintro ok s' ⟨hown, hdone⟩
      exact ⟨hown, fun hok => ⟨v, n, rfl, rfl, hdone hok⟩⟩
    · unfold mappages
      rw [if_neg (not_not.mpr hva), if_pos (by tauto)]
      trivial
  · unfold mappages
    rw [if_pos hva]
    trivial

/-- The page-table pages stay, and the map changes to `m`. -/
structure Remaps (r : ℕ) (m : ℕ → Option Word) (s s' : State) : Prop where
  table : IsTable s'.mem r
  tables : tables s'.mem r = tables s.mem r
  lookup : lookup s'.mem r = m

/-- The page of an entry can be freed. -/
def Freeable (L : Layout) (e : Word) : Prop := L.lo ≤ Pte.ppn e ∧ Pte.ppn e < physTop

lemma IsTable.setLeaf {q : ℕ} (h : IsTable s.mem r) (hq : leafTable s.mem r v = some q) (hv : v < NVPN)
    (hs' : s'.mem = update s.mem q (update (s.mem q) (index 0 v) 0)) :
    Remaps r (update (lookup s.mem r) v none) s s' := by
  obtain ⟨htables, hlookup, hinner⟩ := Vm.setLeaf h.nodup hq hv 0 hs'
  refine ⟨⟨?_, hinner h.inner, ?_⟩, htables, hlookup⟩
  · rw [htables]
    exact h.nodup
  · rw [htables]
    exact h.small

lemma Remaps.of_tables {m : ℕ → Option Word} {s'' : State} (h : Remaps r m s s')
    (hmem : ∀ q ∈ Vm.tables s'.mem r, s''.mem q = s'.mem q) : Remaps r m s s'' := by
  obtain ⟨htables, hlookup, -, hinner⟩ := congr_of_tables hmem
  refine ⟨⟨?_, hinner h.table.inner, ?_⟩, htables.trans h.tables, hlookup.trans h.lookup⟩
  · exact htables ▸ h.table.nodup
  · exact htables ▸ h.table.small

lemma kfree_mem : wp (kfree L pa) s (fun _ s' => ∀ q ≠ pa, s'.mem q = s.mem q)
    fun _ => ¬ (L.lo ≤ pa ∧ pa < physTop) := by
  unfold kfree
  dsimp only
  split_ifs with hrange
  · rw [wp_bind, wp_throw]
    omega
  · simp only [wp_bind, wp_memset, wp_modify]
    exact fun q hq => update_of_ne hq ..

/-- Unmapping a page panics only if its page cannot be freed, or above `MAXVA`. -/
theorem unmapPage_map (h : IsTable s.mem r) (hfree : doFree = true → v ≤ trampVpn →
      ∀ e, lookup s.mem r v = some e → Pte.ppn e ∉ tables s.mem r) :
    wp (unmapPage L r (v * PGSIZE) doFree) s (fun _ => Remaps r (update (lookup s.mem r) v none) s)
      fun _ => ¬ (v ≤ trampVpn ∧ (doFree = true → ∀ e, lookup s.mem r v = some e → Freeable L e)) := by
  unfold unmapPage
  by_cases hv : v ≤ trampVpn
  · rw [wp_bind, wp_walk_false (mul_PGSIZE_lt_MAXVA hv), mul_div_PGSIZE]
    cases hq : leafTable s.mem r v with
    | none => exact ⟨h, rfl, (update_lookup_none (lookup_eq_none_of_leafTable hq)).symm⟩
    | some q =>
      have hlook := lookup_of_leafTable (lt_NVPN hv) hq
      rw [Option.map_some]
      simp only [wp_bind, wp_get, px_mul, wp_ite]
      split_ifs with hvalid hdo
      · rw [if_pos hvalid] at hlook
        have hnot := hfree hdo hv _ hlook
        have hne : q ≠ Pte.ppn (s.mem q (index 0 v)) := fun heq => hnot (heq ▸ leafTable_mem hq)
        rw [record, wp_modify, ← wp_bind, wp_kfree_setPte hne, wp_bind, wp_setPte]
        refine wp_mono kfree_mem ?_ fun _ hrange hpre => hrange (hpre.2 hdo _ hlook)
        intro _ s₁ hs₁
        obtain ⟨s₂, hs₂⟩ : ∃ s₂ : State, s₂ = { s with
          mem := update s.mem q (update (s.mem q) (index 0 v) 0) } := ⟨_, rfl⟩
        have hset : Remaps r (update (lookup s.mem r) v none) s s₂ :=
          h.setLeaf hq (lt_NVPN hv) (by rw [hs₂])
        -- the page that is freed is not seen by the page table
        refine hset.of_tables fun y hy => ?_
        rw [hset.tables] at hy
        rw [hs₂]
        refine hs₁ y ?_
        rintro rfl
        exact hnot hy
      · rw [wp_setPte]
        exact h.setLeaf hq (lt_NVPN hv) rfl
      · rw [if_neg hvalid] at hlook
        exact ⟨h, rfl, (update_lookup_none hlook).symm⟩
  · rw [wp_bind, wp_walk_above (MAXVA_le_of_lt hv)]
    exact fun hpre => hv hpre.1

theorem uvmunmap_map (h : IsTable s.mem r) (hfree : doFree = true → ∀ i < n, v + i ≤ trampVpn →
      ∀ e, lookup s.mem r (v + i) = some e → Pte.ppn e ∉ tables s.mem r) :
    wp (uvmunmap L r (v * PGSIZE) n doFree) s (fun _ => Remaps r (clear (lookup s.mem r) v n) s)
      fun _ => ¬ ∀ i < n, v + i ≤ trampVpn ∧
        (doFree = true → ∀ e, lookup s.mem r (v + i) = some e → Freeable L e) := by
  have haligned : ¬ v * PGSIZE % PGSIZE ≠ 0 := by simp
  unfold uvmunmap
  simp only [if_neg haligned]
  refine wp_loop (fun i => Remaps r (clear (lookup s.mem r) v i) s) ⟨h, rfl, (clear_zero ..).symm⟩ ?_
  intro i s₁ hi hs₁
  -- the entry that comes next is as it was
  have hnext : lookup s₁.mem r (v + i) = lookup s.mem r (v + i) := by
    rw [hs₁.lookup, clear, if_neg (by omega)]
  rw [← Nat.add_mul]
  refine wp_mono (unmapPage_map hs₁.table ?_) ?_ ?_
  · intro hdo hv e he
    rw [hs₁.tables]
    exact hfree hdo i hi hv e (hnext ▸ he)
  · rintro _ s₂ hs₂
    refine ⟨hs₂.table, hs₂.tables.trans hs₁.tables, ?_⟩
    rw [hs₂.lookup, hs₁.lookup, update_clear]
  · intro _ hpre hall
    refine hpre ⟨(hall i hi).1, fun hdo e he => (hall i hi).2 hdo e (hnext ▸ he)⟩

lemma entry_above {va : ℕ} (hva : MAXVA ≤ va) : entry s r va = none := by
  unfold entry walk
  rw [if_pos hva]
  rfl

/-- A call keeps a page table. -/
lemma tableStep_isTable (s : State) (a : TableOp × Supply) (s' : State) (h : IsTable s.mem r)
    (ha : Admissible L r s a) (hs' : tableStep L r s a = some s') : IsTable s'.mem r := by
  obtain ⟨op, a⟩ := a
  obtain ⟨hfresh, hdetached⟩ := ha
  obtain ⟨A, hA, hheld⟩ := h.held hfresh
  -- what holds whenever the call returns
  suffices hwp : wp (op.body L r) (s.supply a) (fun _ s' => IsTable s'.mem r) fun _ => True by
    unfold tableStep at hs'
    unfold wp at hwp
    cases hrun : (op.body L r).run (s.supply a) with
    | error e =>
      simp only [hrun] at hs'
      cases hs'
    | ok b =>
      simp only [hrun] at hs' hwp
      rw [← Option.some.inj hs']
      exact hwp
  cases op with
  | walk va =>
    rw [TableOp.body, wp_bind]
    by_cases hva : va < MAXVA
    · exact wp_mono (walk_spec hheld hva) (fun _ _ hs' => hs'.1.own.isTable) fun _ _ => trivial
    · rw [wp_walk_above (not_lt.mp hva)]
      trivial
  | mappages va size pa perm =>
    rw [TableOp.body, wp_bind]
    exact wp_call (mappages_any hA hheld) fun _ _ hs' => hs'.1.isTable
  | uvmunmap va n doFree =>
    rw [TableOp.body]
    by_cases hva : va % PGSIZE = 0
    · obtain ⟨v, rfl⟩ := Nat.dvd_of_mod_eq_zero hva
      rw [Nat.mul_comm PGSIZE v] at hdetached ⊢
      refine wp_mono (uvmunmap_map (s := s.supply a) h ?_) (fun _ _ hs' => hs'.table) fun _ _ => trivial
      rintro rfl i hi hv e he
      have hentry : entry s r (v * PGSIZE + i * PGSIZE) = some (Pte.decode e) := by
        rw [← Nat.add_mul, entry_mul hv]
        exact congrArg _ he
      exact hdetached i hi _ hentry
    · unfold Vm.uvmunmap
      rw [if_pos hva]
      trivial

/-- The page table behaves as a finite map. -/
structure IsMap (L : Layout) (r : ℕ) (s : State) : Prop where
  /-- `mappages` that succeeds adds its range. -/
  mappages : ∀ va size pa perm a s', Fresh L (tables s.mem r) a.pages →
    (Vm.mappages r va size pa perm).run (s.supply a) = .ok (true, s') →
    ∀ v ≤ trampVpn, entry s' r (v * PGSIZE) =
      if va ≤ v * PGSIZE ∧ v * PGSIZE < va + size then
        some ((pa + (v * PGSIZE - va) / PGSIZE) % 2 ^ 52, perm ||| PTE_V)
      else
        entry s r (v * PGSIZE)
  /-- `mappages` returns if its range is not mapped. -/
  mappages_returns : ∀ va size pa perm a, Fresh L (tables s.mem r) a.pages →
    va % PGSIZE = 0 → size % PGSIZE = 0 → 0 < size → va + size ≤ MAXVA →
    (∀ v, va ≤ v * PGSIZE → v * PGSIZE < va + size → entry s r (v * PGSIZE) = none) →
    ∃ ok s', (Vm.mappages r va size pa perm).run (s.supply a) = .ok (ok, s')
  /-- `uvmunmap` returns and removes its range. -/
  uvmunmap : ∀ va n doFree, va % PGSIZE = 0 → va + n * PGSIZE ≤ MAXVA →
    (doFree = true → ∀ i < n, ∀ e ∈ entry s r (va + i * PGSIZE),
      L.lo ≤ e.1 ∧ e.1 < physTop ∧ e.1 ∉ tables s.mem r) →
    ∃ s', (Vm.uvmunmap L r va n doFree).run s = .ok ((), s') ∧
      ∀ v ≤ trampVpn, entry s' r (v * PGSIZE) =
        if va ≤ v * PGSIZE ∧ v * PGSIZE < va + n * PGSIZE then none else entry s r (v * PGSIZE)
  /-- `walk` changes no entry, also when it runs out of memory. -/
  walk : ∀ va a o s', Fresh L (tables s.mem r) a.pages →
    (Vm.walk r va true).run (s.supply a) = .ok (o, s') →
    ∀ v ≤ trampVpn, entry s' r (v * PGSIZE) = entry s r (v * PGSIZE)
  /-- `walkaddr` finds the pages of the user. -/
  walkaddr : ∀ va, ∃ o, (Vm.walkaddr r va).run s = .ok (o, s) ∧ ∀ pa, o = some pa ↔
    ∃ flags, entry s r va = some (pa, flags) ∧ flags &&& PTE_U ≠ 0

lemma mem_range_iff (v w n : ℕ) :
    (v * PGSIZE ≤ w * PGSIZE ∧ w * PGSIZE < v * PGSIZE + n * PGSIZE) ↔ v ≤ w ∧ w < v + n := by
  unfold PGSIZE
  omega

lemma flags_and_user (e : Word) : Pte.flags e &&& PTE_U ≠ 0 ↔ Pte.user e = true := by
  have huser : Pte.user e = (Pte.flags e).getLsbD 4 := by
    rw [Pte.user, Pte.flags, BitVec.getLsbD_setWidth]
    rfl
  rw [huser]
  generalize Pte.flags e = flags
  revert flags
  decide +kernel

theorem IsTable.isMap (h : IsTable s.mem r) : IsMap L r s where
  mappages := by
    intro va size pa perm a s' hfresh hrun w hw
    obtain ⟨A, hA, hheld⟩ := h.held hfresh
    obtain ⟨v, n, rfl, rfl, hlookup⟩ := (wp_elim (mappages_any hA hheld) hrun).2 rfl
    rw [entry_mul hw, entry_mul hw, hlookup]
    simp only [mem_range_iff]
    unfold fill
    split_ifs with hrange
    · rw [Option.map_some, Pte.decode, Pte.ppn_mk, Pte.flags_mk, ← Nat.sub_mul, mul_div_PGSIZE]
    · rfl
  mappages_returns := by
    intro va size pa perm a hfresh hva hsize hpos hle hnone
    obtain ⟨A, hA, hheld⟩ := h.held hfresh
    obtain ⟨v, rfl⟩ := Nat.dvd_of_mod_eq_zero hva
    obtain ⟨n, rfl⟩ := Nat.dvd_of_mod_eq_zero hsize
    rw [Nat.mul_comm PGSIZE v, Nat.mul_comm PGSIZE n] at *
    have hfree : ∀ i < n, v + i ≤ trampVpn ∧ lookup s.mem r (v + i) = none := by
      intro i hi
      have hv : v + i ≤ trampVpn := by
        unfold PGSIZE MAXVA at hle
        unfold trampVpn
        omega
      obtain ⟨hlo, hhi⟩ := (mem_range_iff v (v + i) n).mpr ⟨by omega, by omega⟩
      have he := hnone (v + i) hlo hhi
      rw [entry_mul hv] at he
      exact ⟨hv, Option.map_eq_none_iff.mp he⟩
    have hn : 0 < n := Nat.pos_of_mul_pos_right hpos
    obtain ⟨ok, s', hrun, -⟩ := exists_run_of_wp (wp_mono (mappages_map hA hheld hn)
      (fun _ _ hs' => hs') fun _ hpre => hpre hfree)
    exact ⟨ok, s', hrun⟩
  uvmunmap := by
    intro va n doFree hva hle hfree
    obtain ⟨v, rfl⟩ := Nat.dvd_of_mod_eq_zero hva
    rw [Nat.mul_comm PGSIZE v] at *
    have hpage : doFree = true → ∀ i < n, v + i ≤ trampVpn → ∀ e, lookup s.mem r (v + i) = some e →
        Freeable L e ∧ Pte.ppn e ∉ tables s.mem r := by
      intro hdo i hi hv e he
      have hentry : entry s r (v * PGSIZE + i * PGSIZE) = some (Pte.decode e) := by
        rw [← Nat.add_mul, entry_mul hv, he]
        rfl
      obtain ⟨hlo, htop, hnot⟩ := hfree hdo i hi _ hentry
      exact ⟨⟨hlo, htop⟩, hnot⟩
    have hbelow : ∀ i < n, v + i ≤ trampVpn := by
      intro i hi
      unfold PGSIZE MAXVA at hle
      unfold trampVpn
      omega
    obtain ⟨⟨⟩, s', hrun, hs'⟩ := exists_run_of_wp (wp_mono
      (uvmunmap_map (L := L) h fun hdo i hi hv e he => (hpage hdo i hi hv e he).2)
      (fun _ _ hs' => hs') fun _ hpre => hpre fun i hi =>
        ⟨hbelow i hi, fun hdo e he => (hpage hdo i hi (hbelow i hi) e he).1⟩)
    refine ⟨s', hrun, fun w hw => ?_⟩
    rw [entry_mul hw, entry_mul hw, hs'.lookup]
    simp only [mem_range_iff]
    unfold clear
    split_ifs <;> rfl
  walk := by
    intro va a o s' hfresh hrun v hv
    obtain ⟨A, -, hheld⟩ := h.held hfresh
    by_cases hva : va < MAXVA
    · have hkept := (wp_elim (walk_spec hheld hva) hrun).1
      rw [entry_mul hv, entry_mul hv, hkept.lookup]
      rfl
    · have hpanic : wp (Vm.walk r va true) (s.supply a) (fun _ _ => False) fun _ => True := by
        rw [wp_walk_above (not_lt.mp hva)]
        trivial
      exact (wp_elim hpanic hrun).elim
  walkaddr := by
    intro va
    by_cases hva : va < MAXVA
    · obtain ⟨o, s', hrun, ho, hs'⟩ := exists_run_of_wp ((wp_walkaddr_of_lt (s := s) (r := r)
        (Q := fun o s' => o = ((lookup s.mem r (va / PGSIZE)).bind fun e =>
          if Pte.user e then some (Pte.ppn e) else none) ∧ s' = s) hva).mpr ⟨rfl, rfl⟩)
      rw [hs'] at hrun
      refine ⟨o, hrun, fun pa => ?_⟩
      rw [ho, entry_eq hva]
      cases lookup s.mem r (va / PGSIZE) with
      | none => simp
      | some e =>
        simp only [Option.bind_some, Option.map_some, Pte.decode, Option.some.injEq, Prod.mk.injEq]
        constructor
        · intro hpa
          split_ifs at hpa with huser
          exact ⟨_, ⟨Option.some.inj hpa, rfl⟩, (flags_and_user e).mpr huser⟩
        · rintro ⟨_, ⟨rfl, rfl⟩, huser⟩
          rw [if_pos ((flags_and_user e).mp huser)]
    · refine ⟨none, ?_, fun pa => ?_⟩
      · unfold Vm.walkaddr
        rw [if_pos (not_lt.mp hva)]
        rfl
      · rw [entry_above (not_lt.mp hva)]
        simp

/-- A page table that is built from an empty one, with fresh pages from `kalloc` and
without freeing its own page-table pages, is a finite map. -/
theorem pagetable_isMap (L : Layout) (s₀ s₁ : State) (r : ℕ) (hfresh : Fresh L 0 s₀.freelist)
    (hcreate : uvmcreate.run s₀ = .ok (some r, s₁)) (ops : List (TableOp × Supply))
    (hops : Runs.Admitted (tableStep L r) (Admissible L r) s₁ ops) (s : State)
    (hs : Runs.exec (tableStep L r) s₁ ops = some s) :
    (∀ v ≤ trampVpn, entry s₁ r (v * PGSIZE) = none) ∧ IsMap L r s := by
  have hheld : Held (.bare s₀.freelist (Multiset.coe_nodup.mpr hfresh.1) hfresh.small) s₀ 0 0 := by
    refine ⟨?_, by simp⟩
    simp [Account.bare]
  obtain ⟨-, -, -, hcreated⟩ := wp_elim (uvmcreate_spec hheld) hcreate
  obtain ⟨htable, hempty⟩ := hcreated r rfl
  have hfinal := Runs.invariant_of_admitted (I := fun s => IsTable s.mem r)
    tableStep_isTable htable.isTable hops hs
  refine ⟨fun v hv => ?_, hfinal.isMap⟩
  rw [entry_mul hv, hempty]
  rfl

/-- An empty page table at the first page of the allocator's range. -/
def created : State :=
  match uvmcreate.run smallInit with
  | .ok (_, s) => s
  | .error _ => smallInit

/-- Two pages are mapped, one is unmapped, and memory runs out for a third. -/
def tableRun : List (TableOp × Supply) :=
  [(.mappages 0 8192 5 PTE_R, ⟨[physTop - 23, physTop - 22], []⟩), (.uvmunmap 4096 1 false, ⟨[], []⟩),
    (.mappages 1073741824 4096 7 PTE_U, ⟨[physTop - 21], []⟩)]

theorem pagetable_isMap_tableRun : ∃ s,
    Runs.exec (tableStep smallLayout (physTop - 24)) created tableRun = some s ∧
      IsMap smallLayout (physTop - 24) s := by
  obtain ⟨s, hs⟩ : ∃ s, Runs.exec (tableStep smallLayout (physTop - 24)) created tableRun = some s :=
    Option.isSome_iff_exists.mp (by decide +kernel)
  exact ⟨s, hs, (pagetable_isMap smallLayout smallInit created (physTop - 24) (by decide +kernel) rfl tableRun
    (by decide +kernel) s hs).2⟩

/-- The page table maps its own root and another page. -/
def selfRun : List (TableOp × Supply) :=
  [(.mappages 0 4096 (physTop - 24) PTE_R, ⟨[physTop - 23, physTop - 22], []⟩),
    (.mappages 4096 4096 7 PTE_R, ⟨[], []⟩)]

/-- The entry of the other page is lost when the first one is unmapped and freed. -/
theorem entry_lost_after_selfRun :
    Runs.Admitted (tableStep smallLayout (physTop - 24)) (Admissible smallLayout (physTop - 24)) created
      selfRun ∧
    (Runs.exec (tableStep smallLayout (physTop - 24)) created selfRun).map
      (fun s => entry s (physTop - 24) 4096) = some (some (7, PTE_R ||| PTE_V)) ∧
    (Runs.exec (tableStep smallLayout (physTop - 24)) created
      (selfRun ++ [(.uvmunmap 0 1 true, ⟨[], []⟩)])).map
      (fun s => entry s (physTop - 24) 4096) = some none := by
  decide +kernel

end Xv6.Vm
