import Xv6.VmUnmap
import Xv6.VmProc

/-!
# Address spaces

Specifications of `freewalk` and of the functions that make, grow, shrink and free the
memory of a process.
-/
namespace Xv6.Vm

open Function Prog

variable {A : Account} {L : Layout} {s s' : State} {mem mem' : ℕ → Fin 512 → Word}
  {R x : Multiset ℕ} {r q v pa va d : ℕ}

/-- A tree of page-table pages that maps nothing. -/
def Clear (mem : ℕ → Fin 512 → Word) : ℕ → ℕ → Prop
  | 0, q => ∀ i, Pte.valid (mem q i) = false
  | d + 1, q => ∀ i, Pte.valid (mem q i) = true →
      Pte.leaf (mem q i) = false ∧ Clear mem d (Pte.ppn (mem q i))

lemma child_of_valid {i : Fin 512} (h : Pte.valid (mem q i) = true) :
    child mem q i = some (Pte.ppn (mem q i)) := if_pos h

lemma Clear.congr (h : Clear mem d q) (hmem : ∀ y ∈ Radix.nodes (child mem) d q, mem' y = mem y) :
    Clear mem' d q := by
  induction d generalizing q with
  | zero =>
    intro i
    rw [hmem q Radix.root_mem_nodes]
    exact h i
  | succ d ih =>
    intro i
    rw [hmem q Radix.root_mem_nodes]
    intro hvalid
    obtain ⟨hleaf, hclear⟩ := h i hvalid
    exact ⟨hleaf, ih hclear fun y hy =>
      hmem y (Radix.mem_nodes_of_child (child_of_valid hvalid) hy)⟩

lemma Inner.clear (h : Inner mem r) (hnone : ∀ v, lookup mem r v = none) : Clear mem 2 r := by
  intro i hi
  refine ⟨h [] r (by decide) rfl i hi, fun j hj => ?_⟩
  have hq : Radix.descend (child mem) r [i] = some (Pte.ppn (mem r i)) := by
    rw [Radix.descend_cons_eq_some (child_of_valid hi)]
    rfl
  refine ⟨h [i] _ (by simp) hq j hj, fun k => ?_⟩
  obtain ⟨v, hv, rfl, rfl, rfl⟩ := exists_of_index i j k
  have hleaf : leafTable mem r v = some (Pte.ppn (mem (Pte.ppn (mem r (index 2 v))) (index 1 v))) := by
    rw [leafTable, Radix.descend_cons_eq_some (child_of_valid hi),
      Radix.descend_cons_eq_some (child_of_valid hj)]
    rfl
  have hlook := hnone v
  rw [lookup, if_pos hv, hleaf, Option.bind_some] at hlook
  by_contra hvalid
  rw [if_pos (Bool.eq_true_of_not_eq_false hvalid)] at hlook
  cases hlook

/-- The pages below the entries of a page from the `k`-th on. -/
def below (mem : ℕ → Fin 512 → Word) (d q k : ℕ) : Multiset ℕ :=
  ∑ i ∈ Finset.univ.filter (fun i : Fin 512 => k ≤ i.val),
    (child mem q i).elim 0 (Radix.nodes (child mem) d)

lemma below_zero : q ::ₘ below mem d q 0 = Radix.nodes (child mem) (d + 1) q := by
  rw [Radix.nodes_succ, below]
  simp

lemma below_end : below mem d q 512 = 0 := by
  rw [below, Finset.filter_false_of_mem, Finset.sum_empty]
  intro i _
  have := i.isLt
  omega

lemma below_of_some {k : ℕ} (hk : k < 512) (h : Pte.valid (mem q ⟨k, hk⟩) = true) :
    below mem d q k =
      Radix.nodes (child mem) d (Pte.ppn (mem q ⟨k, hk⟩)) + below mem d q (k + 1) := by
  rw [below, Radix.sum_drop_eq hk, child_of_valid h, below]
  rfl

lemma below_of_none {k : ℕ} (hk : k < 512) (h : Pte.valid (mem q ⟨k, hk⟩) = false) :
    below mem d q k = below mem d q (k + 1) := by
  rw [below, Radix.sum_drop_eq hk, child_eq_none h, below]
  exact zero_add _

attribute [irreducible] below

lemma ofNat_eq {k : ℕ} (hk : k < 512) : Fin.ofNat 512 k = ⟨k, hk⟩ :=
  Fin.ext (Nat.mod_eq_of_lt hk)

/-- What `freewalk` leaves: the pages `x`, the page tables `R`, and the memory outside
the pages `y` it frees. -/
structure Freed (L : Layout) (R x y : Multiset ℕ) (s s' : State) : Prop where
  own : Own L s' R x
  others : Others (.user L) R s s'
  mem : ∀ q ∉ y, s'.mem q = s.mem q

/-- What holds after `k` entries: the pages below the others are still there. -/
structure Freeing (L : Layout) (R x : Multiset ℕ) (d q : ℕ) (s : State) (k : ℕ) (t : State) :
    Prop where
  freed : Freed L R (q ::ₘ below s.mem d q k + x) (Radix.nodes (child s.mem) (d + 1) q) s t
  entries : ∀ i : Fin 512, k ≤ i → t.mem q i = s.mem q i
  below : ∀ y ∈ below s.mem d q k, t.mem y = s.mem y

lemma Freeing.entry {t : State} {k : ℕ} (hk : k < 512) (h : Freeing L R x d q s k t)
    (hvalid : Pte.valid (s.mem q ⟨k, hk⟩) = true)
    (ih : ∀ x', Own L t R (Radix.nodes (child t.mem) d (Pte.ppn (s.mem q ⟨k, hk⟩)) + x') →
      wp (freewalk L (d + 1) (Pte.ppn (s.mem q ⟨k, hk⟩))) t
        (fun _ => Freed L R x' (Radix.nodes (child t.mem) d (Pte.ppn (s.mem q ⟨k, hk⟩))) t)
        fun _ => False) :
    wp (freewalk L (d + 1) (Pte.ppn (s.mem q ⟨k, hk⟩))) t
      (fun _ t' => wp (setPte q ⟨k, hk⟩ 0) t' (fun _ => Freeing L R x d q s (k + 1))
        fun _ => False) fun _ => False := by
  have hchild := child_of_valid hvalid
  have hbelow := h.below
  have hown := h.freed.own
  rw [below_of_some hk hvalid] at hbelow hown
  have hnodes : Radix.nodes (child t.mem) d (Pte.ppn (s.mem q ⟨k, hk⟩)) =
      Radix.nodes (child s.mem) d (Pte.ppn (s.mem q ⟨k, hk⟩)) :=
    (Radix.congr_of_not_mem fun y hy =>
      child_congr (hbelow y (Multiset.mem_add.mpr (.inl hy)))).1
  rw [hnodes] at ih
  set y := Radix.nodes (child s.mem) d (Pte.ppn (s.mem q ⟨k, hk⟩))
  have hsplit : q ::ₘ (y + Vm.below s.mem d q (k + 1)) + x =
      y + (q ::ₘ Vm.below s.mem d q (k + 1) + x) := by
    rw [← Multiset.singleton_add, ← Multiset.singleton_add]
    abel
  rw [hsplit] at hown
  have hnodup := Multiset.nodup_add.mp (Multiset.nodup_of_le (Multiset.le_add_left _ _) hown.nodup)
  have hdisj : ∀ w ∈ q ::ₘ Vm.below s.mem d q (k + 1), w ∉ y := fun w hw hwy =>
    Multiset.disjoint_left.mp hnodup.2.2 hwy (Multiset.mem_add.mpr (.inl hw))
  refine wp_call (ih _ hown) ?_
  intro _ t' hfreed
  have hothers := hfreed.own.others_of_held
    (Multiset.mem_add.mpr (.inl (Multiset.mem_cons_self q _))) (update (t'.mem q) ⟨k, hk⟩ 0)
  have hq : t'.mem q = t.mem q := hfreed.mem q (hdisj q (Multiset.mem_cons_self ..))
  rw [wp_setPte]
  refine ⟨⟨hfreed.own.of_others hothers rfl, (h.freed.others.trans hfreed.others).trans hothers,
    fun w hw => ?_⟩, fun i hi => ?_, fun w hw => ?_⟩
  · have hwq : w ≠ q := by
      rintro rfl
      exact hw Radix.root_mem_nodes
    refine (update_of_ne hwq ..).trans ?_
    rw [hfreed.mem w fun hwy => hw (Radix.mem_nodes_of_child hchild hwy), h.freed.mem w hw]
  · have hik : i ≠ ⟨k, hk⟩ := by
      rintro rfl
      simp at hi
    show update t'.mem q (update (t'.mem q) ⟨k, hk⟩ 0) q i = _
    rw [update_self, update_of_ne hik, hq, h.entries i (by omega)]
  · have hwq : w ≠ q := by
      rintro rfl
      have hrest := (Multiset.nodup_add.mp hnodup.2.1).1
      exact (Multiset.nodup_cons.mp hrest).1 hw
    refine (update_of_ne hwq ..).trans ?_
    rw [hfreed.mem w (hdisj w (Multiset.mem_cons_of_mem hw)),
      hbelow w (Multiset.mem_add.mpr (.inr hw))]

theorem freewalk_spec (h : Own L s R (Radix.nodes (child s.mem) d q + x)) (hclear : Clear s.mem d q) :
    wp (freewalk L (d + 1) q) s (fun _ => Freed L R x (Radix.nodes (child s.mem) d q) s)
      fun _ => False := by
  induction d generalizing q x s with
  | zero =>
    have hinvalid (i : Fin 512) : Pte.valid (s.mem q i) = false := hclear i
    rw [Radix.nodes_zero] at h ⊢
    rw [freewalk, wp_bind]
    refine wp_call (wp_loop (fun _ t => t = s) rfl fun i t _ ht => ?_) ?_
    · subst ht
      simp [hinvalid]
    · rintro _ t rfl
      refine wp_call (kfree_spec h) ?_
      rintro _ t' ⟨hown, hothers, hmem⟩
      exact ⟨hown, hothers, fun y hy => hmem y (by simpa using hy)⟩
  | succ d ih =>
    rw [freewalk, wp_bind]
    refine wp_call (wp_loop (Freeing L R x d q s) ?_ ?_) ?_
    · refine ⟨⟨?_, .refl, fun _ _ => rfl⟩, fun _ _ => rfl, fun _ _ => rfl⟩
      rw [below_zero]
      exact h
    · intro k t hk hs
      rw [ofNat_eq hk, wp_bind, wp_get, hs.entries ⟨k, hk⟩ le_rfl, wp_ite]
      by_cases hvalid : Pte.valid (s.mem q ⟨k, hk⟩) = true
      · obtain ⟨hleaf, hclear'⟩ := hclear ⟨k, hk⟩ hvalid
        rw [if_pos ⟨hvalid, hleaf⟩, wp_bind]
        refine hs.entry hk hvalid fun x' hx' => ih hx' (hclear'.congr fun y hy => ?_)
        have hbelow := hs.below
        rw [below_of_some hk hvalid] at hbelow
        exact hbelow y (Multiset.mem_add.mpr (.inl hy))
      · have hsame := below_of_none (d := d) hk (Bool.eq_false_iff.mpr hvalid)
        rw [if_neg (fun h => hvalid h.1), wp_ite, if_neg hvalid]
        exact ⟨hsame ▸ hs.freed, fun i hi => hs.entries i (by omega), hsame ▸ hs.below⟩
    · rintro _ t ⟨hfreed, -, -⟩
      have hown := hfreed.own
      rw [below_end] at hown
      refine wp_call (kfree_spec hown) ?_
      rintro _ t' ⟨hown', hothers, hmem⟩
      refine ⟨hown', hfreed.others.trans hothers, fun y hy => ?_⟩
      have hyq : y ≠ q := by
        rintro rfl
        exact hy Radix.root_mem_nodes
      rw [hmem y hyq, hfreed.mem y hy]

/-- A page table that maps nothing is freed. -/
theorem freewalk_root_spec (h : Own L s (r ::ₘ R) x) (hnone : ∀ v, lookup s.mem r v = none) :
    wp (freewalk L 3 r) s (fun _ s' => Own L s' R x ∧ Others (.user L) R s s' ∧ Untouched x s s')
      fun _ => False := by
  have hinner := h.inner r (Multiset.mem_cons_self r R)
  have hown : Own L s R (Radix.nodes (child s.mem) 2 r + x) := by
    refine ⟨?_, fun r' hr' => h.inner r' (Multiset.mem_cons_of_mem hr')⟩
    rw [← h.eq, Multiset.map_cons, Multiset.sum_cons, Account.pages, tables,
      show (Account.user L).held (lookup s.mem r) = 0 from userPages_none hnone]
    abel
  exact wp_call (freewalk_spec hown (hinner.clear hnone)) fun _ _ hs =>
    ⟨hs.own, hs.others, fun q hq => hs.mem q (h.not_table hq)⟩

variable {sz : ℕ}

/-- The number of pages of a size. -/
def npages (sz : ℕ) : ℕ := (sz + (PGSIZE - 1)) / PGSIZE

lemma pgroundup_eq (h : sz ≤ TRAPFRAME) : pgroundup sz = npages sz * PGSIZE := by
  unfold TRAPFRAME TRAMPOLINE MAXVA PGSIZE at h
  unfold pgroundup npages PGSIZE
  rw [Nat.mod_eq_of_lt (by omega)]

lemma npages_le (h : sz ≤ TRAPFRAME) : npages sz ≤ trapVpn := by
  unfold TRAPFRAME TRAMPOLINE MAXVA PGSIZE at h
  unfold npages PGSIZE trapVpn
  omega

lemma npages_mono {sz' : ℕ} (h : sz ≤ sz') : npages sz ≤ npages sz' :=
  Nat.div_le_div_right (by omega)

lemma npages_mul (n : ℕ) : npages (n * PGSIZE) = n := by
  unfold npages PGSIZE
  omega

lemma div_lt_npages (h : va < sz) : va / PGSIZE < npages sz := by
  unfold npages PGSIZE
  omega

/-- A map with entries below page `n`, and for the trapframe and the trampoline. -/
def Bounded (m : ℕ → Option Word) (n : ℕ) : Prop :=
  ∀ v, n ≤ v → v ≠ trapVpn → v ≠ trampVpn → m v = none

lemma Bounded.mono {m : ℕ → Option Word} {n n' : ℕ} (h : Bounded m n) (hn : n ≤ n') : Bounded m n' :=
  fun v hv => h v (hn.trans hv)

theorem uvmfree_spec (h : Own L s (r ::ₘ R) x) (htf : Trapframes s x) (hsz : sz ≤ TRAPFRAME)
    (hnone : ∀ v, npages sz ≤ v → lookup s.mem r v = none) :
    wp (uvmfree L r sz) s (fun _ s' => Own L s' R x ∧ Others (.user L) R s s' ∧ Untouched x s s')
      fun _ => False := by
  have hrest (s₁ : State) (hs₁ : Becomes (.user L) r R x (clear (lookup s.mem r) 0 (npages sz)) s s₁)
      (hsame : Untouched x s s₁) : wp (freewalk L 3 r) s₁
        (fun _ s' => Own L s' R x ∧ Others (.user L) R s s' ∧ Untouched x s s') fun _ => False := by
    have hnone₁ (v : ℕ) : lookup s₁.mem r v = none := by
      rw [hs₁.lookup, clear]
      split_ifs with hv
      · rfl
      · exact hnone v (by omega)
    refine wp_call (freewalk_root_spec hs₁.own hnone₁) ?_
    rintro _ s₂ ⟨hown, hothers, hsame₂⟩
    exact ⟨hown, hs₁.others.trans hothers, hsame.trans hsame₂⟩
  unfold uvmfree
  rw [pgroundup_eq hsz, mul_div_PGSIZE]
  simp only [wp_ite]
  split_ifs with hpos
  · have hunmap := uvmunmap_spec (v := 0) (n := npages sz) h htf (by have := npages_le hsz; omega)
    rw [Nat.zero_mul] at hunmap
    rw [wp_bind]
    exact wp_call hunmap fun _ s₁ hs₁ => hrest s₁ hs₁.1.becomes hs₁.2
  · obtain rfl : sz = 0 := by omega
    exact hrest s ⟨h, (clear_zero ..).symm, .refl⟩ .refl

theorem uvmcreate_spec (h : Held A s R x) :
    wp uvmcreate s (fun o s' => Others A R s s' ∧ Untouched x s s' ∧ (o = none → Held A s' R x) ∧
      ∀ r, o = some r → Held A s' (r ::ₘ R) x ∧ ∀ v, lookup s'.mem r v = none) fun _ => False := by
  unfold uvmcreate
  rw [wp_bind]
  refine wp_call (wp_also (wp_also (kalloc_spec h) kalloc_mem) (kalloc_untouched h)) ?_
  rintro o s₁ ⟨⟨⟨hothers, hnone, hsome⟩, hin, -⟩, hsame⟩
  cases o with
  | none => exact ⟨hothers, hsame, hnone, fun _ h => (by cases h)⟩
  | some f =>
    simp only [wp_bind]
    refine wp_call (wp_also (memset_spec (hsome f rfl) (Multiset.mem_cons_self f x) 0) memset_mem) ?_
    rintro _ s₂ ⟨⟨hown, hothers₂, hzero⟩, hmem⟩
    have hsame₂ : Untouched x s₁ s₂ := fun q hq =>
      hmem q fun heq => h.not_free_of_mem hq (heq ▸ hin f rfl)
    refine ⟨hothers.trans hothers₂, hsame.trans hsame₂, fun h => (by cases h), ?_⟩
    rintro _ ⟨⟩
    exact hown.root fun i => by rw [hzero, Pte.valid_zero]

/-- The map of a process without user memory. -/
def bare (L : Layout) (tf : ℕ) : ℕ → Option Word :=
  update (update (fun _ => none) trampVpn (some (Pte.mk L.trampoline (PTE_R ||| PTE_X ||| PTE_V))))
    trapVpn (some (Pte.mk tf (PTE_R ||| PTE_W ||| PTE_V)))

/-- The trampoline or the trapframe is mapped. -/
theorem mapSpecial_spec {perm : BitVec 10} (h : Own L s (r ::ₘ R) x) (hv : trapVpn ≤ v)
    (hle : v ≤ trampVpn) (hfree : lookup s.mem r v = none) :
    wp (mappages r (v * PGSIZE) PGSIZE pa perm) s (fun ok s' =>
      (ok = true → Becomes (.user L) r R x
        (update (lookup s.mem r) v (some (Pte.mk pa (perm ||| PTE_V)))) s s') ∧
      (ok = false → Kept (.user L) r R x s s') ∧ Untouched x s s') fun _ => False := by
  have hshare (o : Option Word) : (Account.user L).share v o = 0 := if_neg (not_lt.mpr hv)
  refine wp_call (mappages_spec (A := .user L) (R := R) (x := x) hle ?_ hfree) ?_
  · rw [hshare, add_zero]
    exact h
  · intro ok s' hs'
    refine ⟨hs'.done, fun hok => ?_, hs'.quiet.untouched h⟩
    have hkept := hs'.failed hok
    rwa [hshare, add_zero] at hkept

theorem procPagetable_spec {tf : ℕ} (h : Own L s R x) (htf : Trapframes s x) :
    wp (procPagetable L tf) s (fun o s' => Others (.user L) R s s' ∧ Untouched x s s' ∧
      (o = none → Own L s' R x) ∧
      ∀ r, o = some r → Own L s' (r ::ₘ R) x ∧ lookup s'.mem r = bare L tf) fun _ => False := by
  have htramp : TRAMPOLINE = trampVpn * PGSIZE := rfl
  have htrap : TRAPFRAME = trapVpn * PGSIZE := rfl
  unfold procPagetable
  rw [wp_bind]
  refine wp_call (uvmcreate_spec h) ?_
  rintro o s₁ ⟨hothers₁, hsame₁, hnone₁, hsome₁⟩
  cases o with
  | none => exact ⟨hothers₁, hsame₁, hnone₁, fun _ h => (by cases h)⟩
  | some r =>
    obtain ⟨hown₁, hempty⟩ := hsome₁ r rfl
    -- an empty page table is freed on failure
    have hfree (s' : State) (hown' : Own L s' (r ::ₘ R) x) (hothers : Others (.user L) R s s')
        (hsame : Untouched x s s') (hempty' : ∀ v, lookup s'.mem r v = none) :
        wp (do uvmfree L r 0; return none) s' (fun o s' => Others (.user L) R s s' ∧
          Untouched x s s' ∧ (o = none → Own L s' R x) ∧
          ∀ r, o = some r → Own L s' (r ::ₘ R) x ∧ lookup s'.mem r = bare L tf) fun _ => False := by
      rw [wp_bind]
      refine wp_call (uvmfree_spec hown' (htf.of_others hothers) (Nat.zero_le _) fun v _ => hempty' v) ?_
      rintro _ s'' ⟨hown'', hothers'', hsame''⟩
      exact ⟨hothers.trans hothers'', hsame.trans hsame'', fun _ => hown'', fun _ h => (by cases h)⟩
    dsimp only
    rw [htramp, htrap, wp_bind]
    refine wp_call (mapSpecial_spec hown₁ (by decide) le_rfl (hempty _)) ?_
    rintro ok s₂ ⟨hdone, hkept, hsame₂⟩
    have hsame₂ := hsame₁.trans hsame₂
    cases ok with
    | false =>
      have hkept := hkept rfl
      exact hfree s₂ hkept.own (hothers₁.trans hkept.others) hsame₂ fun v => by rw [hkept.lookup, hempty]
    | true =>
      have hdone := hdone rfl
      have hunmapped : lookup s₂.mem r trapVpn = none := by
        rw [hdone.lookup, update_of_ne (by decide), hempty]
      simp only [if_true, wp_bind]
      refine wp_call (mapSpecial_spec hdone.own le_rfl (by decide) hunmapped) ?_
      rintro ok s₃ ⟨hdone₃, hkept, hsame₃⟩
      have hsame₃ := hsame₂.trans hsame₃
      cases ok with
      | false =>
        have hkept := hkept rfl
        rw [if_neg Bool.false_ne_true, wp_bind]
        refine wp_call (unmapSpecial_spec hkept.own (by decide) le_rfl) ?_
        rintro _ s₄ ⟨hs₄, hsame₄⟩
        refine hfree s₄ hs₄.own (((hothers₁.trans hdone.others).trans hkept.others).trans hs₄.others)
          (hsame₃.trans hsame₄) fun v => ?_
        rw [hs₄.lookup, hkept.lookup, hdone.lookup, update_idem]
        exact (congrFun (update_lookup_none (hempty _)) v).trans (hempty v)
      | true =>
        have hdone₃ := hdone₃ rfl
        refine ⟨(hothers₁.trans hdone.others).trans hdone₃.others, hsame₃, fun h => (by cases h), ?_⟩
        rintro _ ⟨⟩
        refine ⟨hdone₃.own, ?_⟩
        rw [hdone₃.lookup, hdone.lookup, funext hempty]
        rfl

theorem procFreepagetable_spec (h : Own L s (r ::ₘ R) x) (htf : Trapframes s x)
    (hsz : sz ≤ TRAPFRAME) (hbound : Bounded (lookup s.mem r) (npages sz)) :
    wp (procFreepagetable L r sz) s
      (fun _ s' => Own L s' R x ∧ Others (.user L) R s s' ∧ Untouched x s s') fun _ => False := by
  have htramp : TRAMPOLINE = trampVpn * PGSIZE := rfl
  have htrap : TRAPFRAME = trapVpn * PGSIZE := rfl
  unfold procFreepagetable
  rw [wp_bind, htramp]
  refine wp_call (unmapSpecial_spec h (by decide) le_rfl) ?_
  rintro _ s₁ ⟨hs₁, hsame₁⟩
  rw [wp_bind, htrap]
  refine wp_call (unmapSpecial_spec hs₁.own le_rfl (by decide)) ?_
  rintro _ s₂ ⟨hs₂, hsame₂⟩
  have hothers := hs₁.others.trans hs₂.others
  refine wp_call (uvmfree_spec hs₂.own (htf.of_others hothers) hsz fun v hv => ?_) ?_
  · rw [hs₂.lookup, hs₁.lookup]
    have hold := hbound v hv
    grind [update_apply]
  · rintro _ s₃ ⟨hown, hothers₃, hsame₃⟩
    exact ⟨hown, hothers.trans hothers₃, (hsame₁.trans hsame₂).trans hsame₃⟩

theorem uvmdealloc_spec {oldsz newsz : ℕ} (h : Own L s (r ::ₘ R) x) (htf : Trapframes s x)
    (hsz : oldsz ≤ TRAPFRAME) :
    wp (uvmdealloc L r oldsz newsz) s (fun sz s' => sz = min oldsz newsz ∧
      Unmapped L r R x (npages newsz) (npages oldsz - npages newsz) s s' ∧ Untouched x s s')
      fun _ => False := by
  unfold uvmdealloc
  rw [wp_ite]
  by_cases hle : oldsz ≤ newsz
  · rw [if_pos hle, Nat.sub_eq_zero_of_le (npages_mono hle)]
    exact ⟨(min_eq_left hle).symm, .zero h, .refl⟩
  · have hmin : newsz = min oldsz newsz := by omega
    have hpages := npages_le hsz
    rw [if_neg hle, pgroundup_eq hsz, pgroundup_eq (show newsz ≤ TRAPFRAME by omega), ← Nat.sub_mul,
      mul_div_PGSIZE]
    dsimp only
    rw [wp_ite]
    split_ifs with hlt
    · have hlt' : npages newsz < npages oldsz := Nat.lt_of_mul_lt_mul_right hlt
      rw [wp_bind]
      refine wp_call (uvmunmap_spec h htf (by omega)) ?_
      exact fun _ s₁ hs₁ => ⟨hmin, hs₁⟩
    · have hle' : npages oldsz ≤ npages newsz := Nat.le_of_mul_le_mul_right (not_lt.mp hlt) (by decide)
      rw [Nat.sub_eq_zero_of_le hle']
      exact ⟨hmin, .zero h, .refl⟩

/-- A page from `x` is mapped below the trapframe. -/
theorem mapUser_spec {perm : BitVec 10} (h : Own L s (r ::ₘ R) (pa ::ₘ x)) (hv : v < trapVpn)
    (hfree : lookup s.mem r v = none) :
    wp (mappages r (v * PGSIZE) PGSIZE pa perm) s (fun ok s' =>
      (ok = true → Becomes (.user L) r R x
        (update (lookup s.mem r) v (some (Pte.mk pa (perm ||| PTE_V)))) s s') ∧
      (ok = false → Kept (.user L) r R (pa ::ₘ x) s s') ∧ Quiet r s s') fun _ => False := by
  have hppn : Pte.ppn (Pte.mk pa (perm ||| PTE_V)) = pa := by
    rw [Pte.ppn_mk, Nat.mod_eq_of_lt (h.mem_ram.2.trans (by decide))]
  have hshare : x + (Account.user L).share v (some (Pte.mk pa (perm ||| PTE_V))) = pa ::ₘ x := by
    rw [share_some hv, hppn, add_comm, Multiset.singleton_add]
  refine wp_call (mappages_spec (A := .user L) (R := R) (x := x) (hv.le.trans (by decide)) ?_ hfree) ?_
  · rw [hshare]
    exact h
  · intro ok s' hs'
    refine ⟨hs'.done, fun hok => ?_, hs'.quiet⟩
    have hkept := hs'.failed hok
    rwa [hshare] at hkept

/-- Pages that are all mapped fit in memory. -/
lemma Own.dense_le {n : ℕ} (h : Own L s (r ::ₘ R) x) (hn : n ≤ trapVpn)
    (hdense : ∀ v < n, lookup s.mem r v ≠ none) : n ≤ physTop := by
  have hone (v : ℕ) (hv : v ∈ Finset.range n) : (entryPage (lookup s.mem r v)).card = 1 := by
    obtain ⟨e, he⟩ := Option.ne_none_iff_exists'.mp (hdense v (Finset.mem_range.mp hv))
    rw [he]
    rfl
  have hcard : (∑ v ∈ Finset.range n, entryPage (lookup s.mem r v)).card = n := by
    rw [Multiset.card_sum, Finset.sum_congr rfl hone, Finset.sum_const, Finset.card_range,
      smul_eq_mul, Nat.mul_one]
  have hrange : Finset.range n ⊆ Finset.range trapVpn := by
    intro v hv
    exact Finset.mem_range.mpr ((Finset.mem_range.mp hv).trans_le hn)
  have hsub : ∑ v ∈ Finset.range n, entryPage (lookup s.mem r v) ≤ userPages (lookup s.mem r) := by
    rw [userPages]
    exact Finset.sum_le_sum_of_subset hrange
  have hle : userPages (lookup s.mem r) ≤ ram L := by
    rw [← Account.all_user, ← h.eq, Multiset.map_cons, Multiset.sum_cons,
      Account.pages]
    refine le_trans ?_ (Multiset.le_add_right _ _)
    refine le_trans ?_ (Multiset.le_add_left _ _)
    exact (Multiset.le_add_left _ _).trans (Multiset.le_add_right _ _)
  have hram : (ram L).card ≤ physTop := by
    rw [ram, Finset.card_val, Nat.card_Ico]
    exact Nat.sub_le ..
  have := (Multiset.card_le_card (hsub.trans hle)).trans hram
  rwa [hcard] at this

/-- Memory does not have room for all pages below the trapframe. -/
lemma Own.dense_lt {n : ℕ} (h : Own L s (r ::ₘ R) x) (hdense : ∀ v < n, lookup s.mem r v ≠ none) :
    n < trapVpn := by
  by_contra hn
  have hall := h.dense_le le_rfl fun v hv => hdense v (hv.trans_le (not_lt.mp hn))
  exact absurd hall (by decide)

/-- The entries from page `n` to `n'` are new, with the given flags. -/
structure Grown (m m' : ℕ → Option Word) (n n' : ℕ) (flags : BitVec 10) : Prop where
  new : ∀ v, n ≤ v → v < n' → ∃ pa, m' v = some (Pte.mk pa flags)
  old : ∀ v, ¬ (n ≤ v ∧ v < n') → m' v = m v

variable {flags : BitVec 10}

lemma Grown.refl {m : ℕ → Option Word} {n : ℕ} : Grown m m n n flags :=
  ⟨fun _ hv hv' => absurd hv' (not_lt.mpr hv), fun _ _ => rfl⟩

lemma Grown.update {m m' : ℕ → Option Word} {n i : ℕ} (h : Grown m m' n (n + i) flags) (pa : ℕ) :
    Grown m (update m' (n + i) (some (Pte.mk pa flags))) n (n + (i + 1)) flags := by
  refine ⟨fun v hv hv' => ?_, fun v hv => ?_⟩
  · by_cases hvi : v = n + i
    · exact ⟨pa, by rw [hvi, update_self]⟩
    · rw [update_of_ne hvi]
      exact h.new v hv (by omega)
  · rw [update_of_ne (by omega)]
    exact h.old v (by omega)

lemma Grown.clear {m m' : ℕ → Option Word} {n i : ℕ} (h : Grown m m' n (n + i) flags)
    (hfree : ∀ v, n ≤ v → v < n + i → m v = none) : clear m' n i = m := by
  funext v
  unfold Vm.clear
  split_ifs with hv
  · exact (hfree v hv.1 hv.2).symm
  · exact h.old v hv

end Xv6.Vm
