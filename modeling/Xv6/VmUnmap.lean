import Xv6.VmOps

/-!
# Removing pages

`uvmunmap` takes entries away and gives their pages back to the allocator. Pages that stay
mapped keep their bytes, and so do pages that someone else holds, such as trapframes.
-/
namespace Xv6.Vm

open Function Prog

variable {L : Layout} {s s' s'' : State} {R x : Multiset ℕ} {r q v w n pa : ℕ} {e f : Word}
  {V W : ℕ → Prop}

/-- A page can be freed before or after the entry that maps it is cleared. -/
lemma wp_kfree_setPte {k : Fin 512} {Q : Unit → State → Prop} {E : Panic → Prop}
    (hne : q ≠ pa) : wp (do kfree L pa; setPte q k e) s Q E ↔
      wp (do setPte q k e; kfree L pa) s Q E := by
  unfold kfree
  simp only [wp_bind, wp_setPte]
  split_ifs
  · rfl
  · simp only [wp_bind, wp_modify, wp_memset, update_of_ne hne]
    rw [update_comm hne]

/-- The processes hold their trapframes. -/
def Trapframes (s : State) (x : Multiset ℕ) : Prop :=
  ∀ p tf, (s.proc p).trapframe = some tf → tf ∈ x

lemma Trapframes.of_others {A : Account} (h : Trapframes s x) (ho : Others A R s s') :
    Trapframes s' x := by
  unfold Trapframes
  rw [ho.proc]
  exact h

lemma mem_pages_of_lookup (hv : v < trapVpn) (h : lookup s.mem r v = some e) :
    Pte.ppn e ∈ (Account.user L).pages s.mem r :=
  Multiset.mem_add.mpr (.inr (mem_userPages hv h))

/-- A page that is mapped below the trapframe belongs to this page table only. -/
lemma Own.of_lookup (h : Own L s (r ::ₘ R) x) (hv : v < trapVpn) (he : lookup s.mem r v = some e) :
    Pte.ppn e ∈ ram L ∧ Pte.ppn e ∉ tables s.mem r ∧ Pte.ppn e ∉ x := by
  have hpages := mem_pages_of_lookup (L := L) hv he
  have hr := Multiset.mem_cons_self r R
  refine ⟨?_, fun htable => ?_, fun hx => h.not_mem_pages hx hr hpages⟩
  · rw [← Account.all_user, ← h.eq]
    exact Multiset.mem_add.mpr (.inl (Multiset.mem_add.mpr (.inr (mem_sum_pages hr hpages))))
  · have hnodup := h.nodup
    rw [Multiset.map_cons, Multiset.sum_cons] at hnodup
    have hown := (Multiset.nodup_add.mp (Multiset.nodup_add.mp hnodup).1).2.1
    exact Multiset.disjoint_left.mp (Multiset.nodup_add.mp (Multiset.nodup_add.mp hown).1).2.2 htable
      (mem_userPages hv he)

/-- A page that a table maps is neither free nor a page of the table, nor elsewhere. -/
lemma Own.not_free_of_lookup (h : Own L s (r ::ₘ R) x) (hv : v < trapVpn)
    (he : lookup s.mem r v = some e) :
    Pte.ppn e ∉ s.freelist ∧ Pte.ppn e ∉ tables s.mem r ∧ Pte.ppn e ∉ x :=
  ⟨fun hfree => h.not_mem_pages_of_free hfree (Multiset.mem_cons_self r R) (mem_pages_of_lookup hv he),
    (h.of_lookup hv he).2⟩

lemma Others.contents (h : Others (.user L) R s s') (hr : r ∈ R) (hv : v < trapVpn)
    (he : Vm.lookup s.mem r v = some e) : s'.mem (Pte.ppn e) = s.mem (Pte.ppn e) :=
  h.pages r hr _ (mem_pages_of_lookup hv he)

lemma share_some (hv : v < trapVpn) (e : Word) :
    (Account.user L).share v (some e) = {Pte.ppn e} := if_pos hv

/-- Two entries of one table map different pages. -/
lemma Own.ppn_ne (h : Own L s (r ::ₘ R) x) (hv : v < trapVpn) (hw : w < trapVpn) (hne : v ≠ w)
    (he : lookup s.mem r v = some e) (hf : lookup s.mem r w = some f) : Pte.ppn e ≠ Pte.ppn f := by
  intro heq
  have hsplit := userPages_update (lookup s.mem r) v none
  rw [he, share, share, if_pos hv, if_pos hv, entryPage, entryPage, Option.elim_some,
    Option.elim_none, add_zero] at hsplit
  have hother : Pte.ppn f ∈ userPages (update (lookup s.mem r) v none) :=
    mem_userPages hw (by rw [update_of_ne hne.symm, hf])
  have hnodup : (userPages (lookup s.mem r)).Nodup := by
    have hall := (Multiset.nodup_add.mp (Multiset.nodup_add.mp h.nodup).1).2.1
    rw [Multiset.map_cons, Multiset.sum_cons] at hall
    exact (Multiset.nodup_add.mp (Multiset.nodup_add.mp hall).1).2.1
  rw [← hsplit] at hnodup
  have hdisj := Multiset.disjoint_left.mp (Multiset.nodup_add.mp hnodup).2.2 hother
  exact hdisj (by rw [heq]; exact Multiset.mem_singleton_self _)

/-- A page that is mapped below the trapframe is not special. -/
lemma Own.harmless (h : Own L s (r ::ₘ R) x) (htf : Trapframes s x) (hv : v < trapVpn)
    (he : lookup s.mem r v = some e) :
    Event.Harmless ⟨v * PGSIZE, Pte.ppn e, special L s (Pte.ppn e)⟩ := by
  obtain ⟨hram, -, hx⟩ := h.of_lookup hv he
  refine ⟨?_, ?_⟩
  · show v * PGSIZE < TRAPFRAME
    unfold trapVpn at hv
    unfold PGSIZE TRAPFRAME TRAMPOLINE MAXVA PGSIZE
    omega
  · refine decide_eq_false ?_
    rintro (htramp | ⟨p, hp⟩)
    · have := (Vm.mem_ram.mp hram).1
      have := L.text
      omega
    · exact hx (htf p _ hp)

/-- The user entries with `V` are as before, and so are the pages that they map. -/
structure Stays (V : ℕ → Prop) (r : ℕ) (s s' : State) : Prop where
  lookup : ∀ v, V v → v < trapVpn → lookup s'.mem r v = lookup s.mem r v
  page : ∀ v, V v → v < trapVpn → ∀ e, Vm.lookup s.mem r v = some e →
    s'.mem (Pte.ppn e) = s.mem (Pte.ppn e)

namespace Stays

lemma refl : Stays V r s s := ⟨fun _ _ _ => rfl, fun _ _ _ _ _ => rfl⟩

lemma mono (h : Stays V r s s') (hVW : ∀ v, W v → V v) : Stays W r s s' :=
  ⟨fun v hv => h.lookup v (hVW v hv), fun v hv => h.page v (hVW v hv)⟩

lemma trans (h : Stays V r s s') (h' : Stays V r s' s'') : Stays V r s s'' := by
  constructor
  · intro v hv hlt
    rw [h'.lookup v hv hlt, h.lookup v hv hlt]
  · intro v hv hlt e he
    have he' : Vm.lookup s'.mem r v = some e := by rw [h.lookup v hv hlt, he]
    rw [h'.page v hv hlt e he', h.page v hv hlt e he]

/-- Where the table is one of those that an operation leaves alone. -/
lemma of_others (h : Others (.user L) (r ::ₘ R) s s') : Stays V r s s' := by
  have hr := Multiset.mem_cons_self r R
  constructor
  · intro v _ _
    rw [h.lookup hr]
  · intro v _ hlt e he
    exact h.contents hr hlt he

lemma of_quiet (hown : Own L s (r ::ₘ R) x) (hquiet : Quiet r s s')
    (hlookup : ∀ v, V v → v < trapVpn → Vm.lookup s'.mem r v = Vm.lookup s.mem r v) :
    Stays V r s s' := by
  refine ⟨hlookup, ?_⟩
  intro v _ hlt e he
  obtain ⟨hfree, htables, -⟩ := hown.not_free_of_lookup hlt he
  exact hquiet _ hfree htables

end Stays

lemma update_lookup_none (h : lookup s.mem r v = none) :
    update (lookup s.mem r) v none = lookup s.mem r := update_eq_self_iff.mpr h.symm

/-- An entry below the trapframe is removed and its page freed. Nothing else is written
outside of the table. -/
theorem unmapPage_spec (h : Own L s (r ::ₘ R) x) (htf : Trapframes s x) (hv : v < trapVpn) :
    wp (unmapPage L r (v * PGSIZE) true) s (fun _ s' =>
      Becomes (.user L) r R x (update (lookup s.mem r) v none) s s' ∧
      tables s'.mem r = tables s.mem r ∧ ∀ y, y ∉ tables s.mem r →
        (∀ e, lookup s.mem r v = some e → y ≠ Pte.ppn e) → s'.mem y = s.mem y) fun _ => False := by
  have hle : v ≤ trampVpn := hv.le.trans (by decide)
  unfold unmapPage
  rw [wp_bind, wp_walk_false (mul_PGSIZE_lt_MAXVA hle), mul_div_PGSIZE]
  cases hq : leafTable s.mem r v with
  | none =>
    have hnone := lookup_eq_none_of_leafTable hq
    exact ⟨⟨h, (update_lookup_none hnone).symm, .refl⟩, rfl, fun _ _ _ => rfl⟩
  | some q =>
    have hlook := lookup_of_leafTable (lt_NVPN hle) hq
    rw [Option.map_some]
    simp only [wp_bind, wp_get, px_mul, wp_ite]
    split_ifs with hvalid
    · rw [if_pos hvalid] at hlook
      have hne : q ≠ Pte.ppn (s.mem q (index 0 v)) := by
        intro heq
        exact (h.of_lookup hv hlook).2.1 (heq ▸ leafTable_mem hq)
      have hharmless := h.harmless htf hv hlook
      rw [record, wp_modify, ← wp_bind, wp_kfree_setPte hne, wp_bind, wp_setPte]
      obtain ⟨hown, hlookup, hothers⟩ := Held.setLeaf (A := .user L) (R := R) (x := x)
        (y := Pte.ppn (s.mem q (index 0 v)) ::ₘ x) (o := none) (e := 0)
        (s := { s with events := s.events ++
          [⟨v * PGSIZE, Pte.ppn (s.mem q (index 0 v)), special L s (Pte.ppn (s.mem q (index 0 v)))⟩] })
        rfl ⟨h.eq, h.inner⟩ (by rw [Account.share_none, add_zero, hlook, share_some hv, add_comm,
          Multiset.singleton_add]) hq (lt_NVPN hle) rfl
      have htables := (Vm.setLeaf h.disjoint.1 hq (lt_NVPN hle) 0 rfl).1
      refine wp_call (kfree_spec hown) ?_
      rintro _ s₁ ⟨hown₁, hothers₁, hmem₁⟩
      have hr := Multiset.mem_cons_self r R
      refine ⟨⟨hown₁, (hothers₁.lookup hr).trans hlookup, ?_⟩, (hothers₁.tables_eq hr).trans htables,
        fun y hy hpage => (hmem₁ y (hpage _ hlook)).trans (update_of_ne ?_ ..)⟩
      · refine Others.trans ⟨hothers.pages, rfl, rfl, fun e he => ?_⟩
          (hothers₁.mono (Multiset.subset_cons R r))
        obtain he | he := List.mem_append.mp he
        · exact .inl he
        · exact .inr (List.mem_singleton.mp he ▸ hharmless)
      · rintro rfl
        exact hy (leafTable_mem hq)
    · rw [if_neg hvalid] at hlook
      exact ⟨⟨h, (update_lookup_none hlook).symm, .refl⟩, rfl, fun _ _ _ => rfl⟩

/-- The entry of the trampoline or of the trapframe is removed. -/
theorem unmapSpecial_spec (h : Own L s (r ::ₘ R) x) (hv : trapVpn ≤ v) (hle : v ≤ trampVpn) :
    wp (uvmunmap L r (v * PGSIZE) 1 false) s (fun _ s' =>
      Becomes (.user L) r R x (update (lookup s.mem r) v none) s s' ∧ Untouched x s s')
      fun _ => False := by
  have haligned : ¬ v * PGSIZE % PGSIZE ≠ 0 := by simp
  have hshare (o : Option Word) : (Account.user L).share v o = 0 := if_neg (by omega)
  unfold uvmunmap
  simp only [if_neg haligned]
  rw [wp_loop_one, Nat.zero_mul, Nat.add_zero, unmapPage, wp_bind,
    wp_walk_false (mul_PGSIZE_lt_MAXVA hle), mul_div_PGSIZE]
  cases hq : leafTable s.mem r v with
  | none => exact ⟨⟨h, (update_lookup_none (lookup_eq_none_of_leafTable hq)).symm, .refl⟩, .refl⟩
  | some q =>
    have hlook := lookup_of_leafTable (lt_NVPN hle) hq
    rw [Option.map_some]
    simp only [wp_bind, wp_get, px_mul, wp_ite]
    split_ifs with hvalid hfalse
    · cases hfalse
    · obtain ⟨hown, hlookup, hothers⟩ := h.setLeaf (y := x) (o := none) (e := 0) rfl
        (by rw [hshare, hshare]) hq (lt_NVPN hle) rfl
      rw [wp_setPte]
      refine ⟨⟨hown, hlookup, hothers⟩, fun y hy => update_of_ne ?_ ..⟩
      rintro rfl
      exact h.not_table hy (leafTable_mem hq)
    · rw [if_neg hvalid] at hlook
      exact ⟨⟨h, (update_lookup_none hlook).symm, .refl⟩, .refl⟩

/-- The map without the entries of `n` page numbers from `v`. -/
def clear (m : ℕ → Option Word) (v n : ℕ) : ℕ → Option Word :=
  fun w => if v ≤ w ∧ w < v + n then none else m w

lemma clear_zero (m : ℕ → Option Word) (v : ℕ) : clear m v 0 = m := by
  funext w
  exact if_neg (by omega)

lemma update_clear (m : ℕ → Option Word) (v n : ℕ) :
    update (clear m v n) (v + n) none = clear m v (n + 1) := by
  funext w
  unfold clear
  grind [update_apply]

/-- Pages are unmapped: the others keep their contents, and the table its pages. -/
structure Unmapped (L : Layout) (r : ℕ) (R x : Multiset ℕ) (v n : ℕ) (s s' : State) : Prop where
  becomes : Becomes (.user L) r R x (clear (lookup s.mem r) v n) s s'
  stays : Stays (fun w => ¬ (v ≤ w ∧ w < v + n)) r s s'
  tables : tables s'.mem r = tables s.mem r

lemma Unmapped.zero (h : Own L s (r ::ₘ R) x) : Unmapped L r R x v 0 s s where
  becomes := ⟨h, (clear_zero ..).symm, .refl⟩
  stays := .refl
  tables := rfl

theorem uvmunmap_spec (h : Own L s (r ::ₘ R) x) (htf : Trapframes s x) (hv : v + n ≤ trapVpn) :
    wp (uvmunmap L r (v * PGSIZE) n true) s
      (fun _ s' => Unmapped L r R x v n s s' ∧ Untouched x s s') fun _ => False := by
  have haligned : ¬ v * PGSIZE % PGSIZE ≠ 0 := by simp
  unfold uvmunmap
  simp only [if_neg haligned]
  refine wp_loop (fun i s' => Unmapped L r R x v i s s' ∧ Untouched x s s') ⟨.zero h, .refl⟩ ?_
  rintro i s₁ hi ⟨hs₁, hsame⟩
  have hvi : v + i < trapVpn := by omega
  have hown : Own L s₁ (r ::ₘ R) x := hs₁.becomes.own
  rw [← Nat.add_mul]
  refine wp_call (unmapPage_spec hown (htf.of_others hs₁.becomes.others) hvi) ?_
  rintro _ s₂ ⟨hs₂, htables, hmem⟩
  have hstays : Stays (fun w => w ≠ v + i) r s₁ s₂ := by
    refine ⟨fun w hw _ => by rw [hs₂.lookup, update_of_ne hw], fun w hw hlt e he => ?_⟩
    exact hmem _ (hown.of_lookup hlt he).2.1 fun f hf => hown.ppn_ne hlt hvi hw he hf
  refine ⟨⟨?_, ?_, htables.trans hs₁.tables⟩, hsame.trans fun y hy => ?_⟩
  · rw [hs₁.becomes.lookup, update_clear] at hs₂
    exact hs₁.becomes.trans hs₂
  · exact (hs₁.stays.mono fun w hw => by omega).trans (hstays.mono fun w hw => by omega)
  · refine hmem y (hown.not_table hy) fun e he heq => ?_
    exact (hown.of_lookup hvi he).2.2 (heq ▸ hy)

end Xv6.Vm
