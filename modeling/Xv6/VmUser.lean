import Xv6.VmSpace

/-!
# User memory

Specifications of the functions that give pages of zeros to a process: the pages that it has
keep their bytes, also when memory runs out.
-/
namespace Xv6.Vm

open Function Prog

variable {L : Layout} {s s' s'' : State} {R x : Multiset ℕ} {r v pa n i : ℕ} {V : ℕ → Prop}
  {flags xperm : BitVec 10}

/-- Taking a page leaves the others on the free list. -/
lemma Held.freelist_cons {A : Account} (h : Held A s R x) (h' : Held A s' R (pa ::ₘ x))
    (hothers : Others A R s s') : (s.freelist : Multiset ℕ) = pa ::ₘ s'.freelist := by
  have heq := h.eq.trans h'.eq.symm
  rw [hothers.sum_eq, Multiset.add_cons, ← Multiset.cons_add, ← Multiset.cons_add] at heq
  exact add_right_cancel (add_right_cancel heq)

/-- A page is allocated, filled and mapped. If there is no page for the table, it is freed,
and the caller goes on as if there had been none. -/
theorem wp_mapFilled {α : Type} {perm : BitVec 10} {fill : ℕ → VM Unit} {f : Fin 512 → Word}
    {K : Option ℕ → VM α} {K' : ℕ → VM α} {Q : α → State → Prop} (hK : ∀ mem, K (some mem) = do
      fill mem
      if ← mappages r (v * PGSIZE) PGSIZE mem perm then
        K' mem
      else
        kfree L mem
        K none)
    (hfill : ∀ mem t, Others (.user L) (r ::ₘ R) s t → Own L t (r ::ₘ R) (mem ::ₘ x) →
      wp (fill mem) t (fun _ t' => (Own L t' (r ::ₘ R) (mem ::ₘ x) ∧
        Others (.user L) (r ::ₘ R) t t' ∧ t'.mem mem = f) ∧ ∀ q ≠ mem, t'.mem q = t.mem q)
        fun _ => False)
    (h : Own L s (r ::ₘ R) x) (hv : v < trapVpn) (hnone : lookup s.mem r v = none)
    (hfailed : ∀ s', Kept (.user L) r R x s s' → Quiet r s s' → wp (K none) s' Q fun _ => False)
    (hdone : ∀ mem s', Becomes (.user L) r R x
        (update (lookup s.mem r) v (some (Pte.mk mem (perm ||| PTE_V)))) s s' →
      Pte.ppn (Pte.mk mem (perm ||| PTE_V)) = mem → s'.mem mem = f → Quiet r s s' →
      wp (K' mem) s' Q fun _ => False) :
    wp (kalloc >>= K) s Q fun _ => False := by
  have hself := Multiset.mem_cons_self r R
  have hsub := Multiset.subset_cons R r
  rw [wp_bind]
  refine wp_call (wp_also (kalloc_spec h) kalloc_mem) ?_
  rintro o s₁ ⟨⟨hothers, hrefused, hsome⟩, hin, hmem₁⟩
  cases o with
  | none =>
    exact hfailed s₁ ⟨hrefused rfl, hothers.lookup hself, hothers.mono hsub⟩ fun q hq _ => hmem₁ q hq
  | some mem =>
    have hfree := hin mem rfl
    have hmem := Multiset.mem_cons_self mem x
    rw [hK]
    simp only [wp_bind]
    refine wp_call (hfill mem s₁ hothers (hsome mem rfl)) ?_
    rintro _ s₂ ⟨⟨hown₂, hothers₂, hzero⟩, hmem₂⟩
    have hall := hothers.trans hothers₂
    have hlist := h.freelist_cons hown₂ hall
    refine wp_call (mapUser_spec hown₂ hv (by rw [hall.lookup hself, hnone])) ?_
    rintro ok s₃ ⟨hmapped, hkept, hquiet₃⟩
    have hquiet : Quiet r s s₃ := by
      intro q hq ht
      have hq₂ : q ∉ s₂.freelist := by
        intro hfree₂
        apply hq
        rw [← Multiset.mem_coe, hlist]
        exact Multiset.mem_cons_of_mem hfree₂
      rw [hquiet₃ q hq₂ (by rwa [hall.tables_eq hself]), hmem₂ q fun heq => hq (heq ▸ hfree), hmem₁ q hq]
    cases ok with
    | true =>
      have hmapped := hmapped rfl
      rw [hall.lookup hself] at hmapped
      refine hdone mem s₃ ⟨hmapped.own, hmapped.lookup, (hall.mono hsub).trans hmapped.others⟩ ?_ ?_
        hquiet
      · rw [Pte.ppn_mk, Nat.mod_eq_of_lt ((Own.mem_ram hown₂).2.trans (by decide))]
      · rw [hquiet₃ mem (hown₂.not_free_of_mem hmem) (hown₂.not_table hmem), hzero]
    | false =>
      have hkept := hkept rfl
      rw [if_neg Bool.false_ne_true, wp_bind]
      refine wp_call (kfree_spec hkept.own) ?_
      rintro _ s₄ ⟨hown₄, hothers₄, hmem₄⟩
      refine hfailed s₄ ⟨hown₄, ?_, ((hall.mono hsub).trans hkept.others).trans (hothers₄.mono hsub)⟩
        fun q hq ht => ?_
      · rw [hothers₄.lookup hself, hkept.lookup, hall.lookup hself]
      · rw [hmem₄ q fun heq => hq (heq ▸ hfree), hquiet q hq ht]

lemma memset_fills {mem : ℕ} {t : State} (h : Own L t R (mem ::ₘ x)) (e : Word) :
    wp (memset mem e) t (fun _ t' => (Own L t' R (mem ::ₘ x) ∧ Others (.user L) R t t' ∧
      t'.mem mem = fun _ => e) ∧ ∀ q ≠ mem, t'.mem q = t.mem q) fun _ => False :=
  wp_also (memset_spec h (Multiset.mem_cons_self mem x) e) memset_mem

/-- The entry maps a page of zeros. -/
def ZeroAt (r v : ℕ) (flags : BitVec 10) (s : State) : Prop :=
  ∃ pa, lookup s.mem r v = some (Pte.mk pa flags) ∧ Pte.ppn (Pte.mk pa flags) = pa ∧
    s.mem pa = fun _ => 0

lemma ZeroAt.of_stays (h : ZeroAt r v flags s) (hv : v < trapVpn) (hV : V v) (hs' : Stays V r s s') :
    ZeroAt r v flags s' := by
  obtain ⟨pa, hlook, hppn, hzero⟩ := h
  refine ⟨pa, by rw [hs'.lookup v hV hv, hlook], hppn, ?_⟩
  have hpage := hs'.page v hV hv _ hlook
  rw [hppn] at hpage
  rw [hpage, hzero]

/-- The pages from `n` up to `n'` are new and zero, and the others are as before. -/
structure Enlarged (r n n' : ℕ) (flags : BitVec 10) (s s' : State) : Prop where
  stays : Stays (fun v => ¬ (n ≤ v ∧ v < n')) r s s'
  zero : ∀ v, n ≤ v → v < n' → ZeroAt r v flags s'

lemma Enlarged.refl : Enlarged r n n flags s s where
  stays := .refl
  zero _ h h' := absurd (h.trans_lt h') (lt_irrefl n)

lemma Enlarged.succ (h : Enlarged r n (n + i) flags s s') (hlt : n + i < trapVpn)
    (hstays : Stays (· ≠ n + i) r s' s'') (hzero : ZeroAt r (n + i) flags s'') :
    Enlarged r n (n + (i + 1)) flags s s'' := by
  constructor
  · exact (h.stays.mono fun v hv => by omega).trans (hstays.mono fun v hv => by omega)
  · intro v hge hv
    by_cases hlast : v = n + i
    · rw [hlast]
      exact hzero
    · exact (h.zero v hge (by omega)).of_stays (by omega) hlast hstays

/-- The flags of the entries that `uvmalloc` makes. -/
abbrev userFlags (xperm : BitVec 10) : BitVec 10 := PTE_R ||| PTE_U ||| xperm ||| PTE_V

/-- The permissions of the pages that `growproc` adds. -/
abbrev growFlags : BitVec 10 := PTE_R ||| PTE_W ||| PTE_U ||| PTE_V

theorem allocPage_spec {m : ℕ → Option Word} (htf : Trapframes s x) (hfree : Bounded m n)
    (hlt : n + i < trapVpn) (hown : Own L s (r ::ₘ R) x)
    (hgrown : Grown m (lookup s.mem r) n (n + i) (userFlags xperm)) :
    wp (allocPage L r (n * PGSIZE) ((n + i) * PGSIZE) xperm) s (fun o s' =>
      (∀ a, o = some a → Becomes (.user L) r R x m s s' ∧
        Stays (fun v => ¬ (n ≤ v ∧ v < n + i)) r s s') ∧
      (o = none → (∃ m', Grown m m' n (n + (i + 1)) (userFlags xperm) ∧
          Becomes (.user L) r R x m' s s') ∧
        Stays (· ≠ n + i) r s s' ∧ ZeroAt r (n + i) (userFlags xperm) s') ∧ Untouched x s s')
      fun _ => False := by
  have hunmapped (v : ℕ) (hv : n ≤ v) (hv' : v ≤ n + i) : m v = none := by
    have : trapVpn < trampVpn := by decide
    exact hfree v hv (by omega) (by omega)
  have hnone : lookup s.mem r (n + i) = none := by
    rw [hgrown.old _ (by omega)]
    exact hunmapped _ (by omega) le_rfl
  unfold allocPage
  refine wp_mapFilled (fun _ => rfl) (fun _ _ _ h => memset_fills h 0) hown hlt hnone ?_ ?_
  · -- on failure the pages mapped so far are freed
    intro s' hs' hquiet
    have hsize : (n + i) * PGSIZE ≤ TRAPFRAME := by
      rw [show TRAPFRAME = trapVpn * PGSIZE from rfl]
      exact Nat.mul_le_mul_right _ hlt.le
    have hstays : Stays (fun v => ¬ (n ≤ v ∧ v < n + i)) r s s' :=
      .of_quiet hown hquiet fun _ _ _ => by rw [hs'.lookup]
    rw [wp_bind]
    refine wp_call (uvmdealloc_spec hs'.own (htf.of_others hs'.others) hsize) ?_
    rintro _ s₁ ⟨-, hs₁, hsame⟩
    rw [npages_mul, npages_mul, Nat.add_sub_cancel_left] at hs₁
    have hcleared := hs₁.becomes
    rw [hs'.lookup, hgrown.clear fun v hv hv' => hunmapped v hv hv'.le] at hcleared
    exact ⟨fun _ _ => ⟨hs'.trans hcleared, hstays.trans hs₁.stays⟩, fun ho => (by cases ho),
      (hquiet.untouched hown).trans hsame⟩
  · intro mem s' hs' hppn hzero hquiet
    refine ⟨fun _ ho => (by cases ho), fun _ => ⟨⟨_, hgrown.update mem, hs'⟩, ?_, mem, ?_, hppn, hzero⟩,
      hquiet.untouched hown⟩
    · exact .of_quiet hown hquiet fun v hv _ => by rw [hs'.lookup, update_of_ne hv]
    · rw [hs'.lookup, update_self]

lemma sub_div_eq_npages (newsz n : ℕ) :
    (newsz - n * PGSIZE + (PGSIZE - 1)) / PGSIZE = npages newsz - n := by
  unfold npages PGSIZE
  omega

/-- `uvmalloc` returns 0 and changes nothing, or maps pages of zeros up to the new size.
The new size is below the trapframe, or else memory runs out before, as the old pages are
all mapped. -/
theorem uvmalloc_spec {oldsz newsz : ℕ} (h : Own L s (r ::ₘ R) x) (htf : Trapframes s x)
    (hsz : oldsz ≤ TRAPFRAME) (hfree : Bounded (lookup s.mem r) (npages oldsz))
    (hbound : newsz ≤ TRAPFRAME ∨ ∀ v < npages oldsz, lookup s.mem r v ≠ none) :
    wp (uvmalloc L r oldsz newsz xperm) s (fun sz s' =>
      ((sz = 0 ∧ Kept (.user L) r R x s s' ∧ Stays (· < npages oldsz) r s s') ∨
      (sz = max oldsz newsz ∧ sz ≤ TRAPFRAME ∧ (∃ m',
        Grown (lookup s.mem r) m' (npages oldsz) (npages sz) (userFlags xperm) ∧
        Becomes (.user L) r R x m' s s') ∧
        Enlarged r (npages oldsz) (npages sz) (userFlags xperm) s s')) ∧ Untouched x s s')
      fun _ => False := by
  unfold uvmalloc
  rw [wp_ite]
  split_ifs with hlt
  · rw [wp_pure, max_eq_left hlt.le]
    exact ⟨.inr ⟨rfl, hsz, ⟨_, .refl, h, rfl, .refl⟩, .refl⟩, .refl⟩
  · rw [wp_bind, pgroundup_eq hsz, sub_div_eq_npages]
    have hpages := npages_mono (not_lt.mp hlt)
    -- the pages mapped so far fit
    have hfits (i : ℕ) (m' : ℕ → Option Word) (t : State) (hi : i ≤ npages newsz - npages oldsz)
        (hgrown : Grown (lookup s.mem r) m' (npages oldsz) (npages oldsz + i) (userFlags xperm))
        (ht : Becomes (.user L) r R x m' s t) :
        newsz ≤ TRAPFRAME ∨ npages oldsz + i < trapVpn := by
      refine hbound.imp id fun hdense => Own.dense_lt ht.own fun v hv => ?_
      rw [ht.lookup]
      by_cases hv' : npages oldsz ≤ v
      · obtain ⟨pa, hpa⟩ := hgrown.new v hv' hv
        simp [hpa]
      · rw [hgrown.old v (by omega)]
        exact hdense v (by omega)
    refine wp_search (fun i t => (∃ m', Grown (lookup s.mem r) m' (npages oldsz) (npages oldsz + i)
      (userFlags xperm) ∧ Becomes (.user L) r R x m' s t) ∧
      Enlarged r (npages oldsz) (npages oldsz + i) (userFlags xperm) s t ∧ Untouched x s t)
      ⟨⟨_, .refl, h, rfl, .refl⟩, .refl, .refl⟩ ?_ ?_
    · rintro i t - hi ⟨⟨m', hgrown, ht⟩, henl, hsame⟩
      have hlt' : npages oldsz + i < trapVpn := by
        obtain hsz' | hsz' := hfits i m' t (by omega) hgrown ht
        · have := npages_le hsz'
          omega
        · exact hsz'
      rw [← ht.lookup] at hgrown
      rw [← Nat.add_mul]
      refine wp_call (allocPage_spec (htf.of_others ht.others) hfree hlt' ht.own hgrown) ?_
      rintro o t' ⟨hfailed, hdone, hsame'⟩
      refine ⟨?_, fun ho => ?_⟩
      · rintro a rfl
        obtain ⟨hkept, hstays⟩ := hfailed a rfl
        exact ⟨.inl ⟨rfl, ht.trans hkept, (henl.stays.mono fun v hv => by omega).trans
          (hstays.mono fun v hv => by omega)⟩, hsame.trans hsame'⟩
      · obtain ⟨⟨m'', hgrown', ht'⟩, hstays, hzero⟩ := hdone ho
        exact ⟨⟨m'', hgrown', ht.trans ht'⟩, henl.succ hlt' hstays hzero, hsame.trans hsame'⟩
    · rintro t ⟨⟨m', hgrown, ht⟩, henl, hsame⟩
      rw [Nat.zero_add] at hgrown henl
      have hsz' : newsz ≤ TRAPFRAME := by
        obtain hsz' | hsz' := hfits _ m' t le_rfl hgrown ht
        · exact hsz'
        · rw [Nat.add_sub_cancel' hpages] at hsz'
          unfold npages PGSIZE trapVpn at hsz'
          unfold TRAPFRAME TRAMPOLINE MAXVA PGSIZE
          omega
      rw [Nat.add_sub_cancel' hpages] at hgrown henl
      rw [max_eq_right (not_lt.mp hlt)]
      exact ⟨.inr ⟨rfl, hsz', ⟨m', hgrown, ht⟩, henl⟩, hsame⟩

end Xv6.Vm
