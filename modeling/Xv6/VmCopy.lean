import Xv6.VmUser

/-!
# Copying user memory

`uvmcopy` gives the child the user pages of the parent, with the same flags and the same
contents, in pages of its own; if memory runs out the child has none.
-/
namespace Xv6.Vm

open Function Prog

variable {L : Layout} {s s' t : State} {R x : Multiset ℕ} {old r q v pa n sz : ℕ}

/-- The first `n` pages of `old` are copied: `r` has them with the same flags, in pages
with the same contents. -/
structure Copied (old r n : ℕ) (s t : State) : Prop where
  absent : ∀ v < n, lookup s.mem old v = none → lookup t.mem r v = none
  copy : ∀ v < n, ∀ e, lookup s.mem old v = some e → ∃ e', lookup t.mem r v = some e' ∧
    Pte.flags e' = Pte.flags e ∧ t.mem (Pte.ppn e') = s.mem (Pte.ppn e)
  rest : ∀ v, n ≤ v → lookup t.mem r v = lookup s.mem r v

variable {e : Word}

lemma flags_or_valid (h : Pte.valid e = true) : Pte.flags e ||| PTE_V = Pte.flags e := by
  apply BitVec.eq_of_getLsbD_eq
  intro i hi
  rw [Pte.valid_eq] at h
  rw [BitVec.getLsbD_or]
  by_cases hi0 : i = 0
  · rw [hi0, h, Bool.true_or]
  · have hbit : PTE_V.getLsbD i = false := by
      interval_cases i <;> first | omega | decide
    rw [hbit, Bool.or_false]

lemma valid_of_lookup {mem : ℕ → Fin 512 → Word} (h : lookup mem r v = some e) :
    Pte.valid e = true := by
  rw [lookup] at h
  split_ifs at h
  obtain ⟨q, -, hq⟩ := Option.bind_eq_some_iff.mp h
  split_ifs at hq with hvalid
  rwa [← Option.some.inj hq]

/-- A page that a table maps does not belong to another table. -/
lemma Own.not_mem_other {r' : ℕ} (h : Own L s (r ::ₘ R) x) (hr' : r' ∈ R) (hv : v < trapVpn)
    (he : lookup s.mem r v = some e) : Pte.ppn e ∉ (Account.user L).pages s.mem r' := by
  have hnodup := h.nodup
  rw [Multiset.map_cons, Multiset.sum_cons] at hnodup
  have hpages := (Multiset.nodup_add.mp (Multiset.nodup_add.mp hnodup).1).2.1
  intro hmem
  exact Multiset.disjoint_left.mp (Multiset.nodup_add.mp hpages).2.2 (mem_pages_of_lookup hv he)
    (mem_sum_pages hr' hmem)

lemma Own.ne_of_lookup {r' v' : ℕ} {e e' : Word} (h : Own L s (r ::ₘ R) x) (hr' : r' ∈ R)
    (hv : v < trapVpn) (hv' : v' < trapVpn) (he : lookup s.mem r v = some e)
    (he' : lookup s.mem r' v' = some e') : Pte.ppn e ≠ Pte.ppn e' := by
  intro heq
  have hnot := Own.not_mem_other h hr' hv he
  rw [heq] at hnot
  exact hnot (mem_pages_of_lookup hv' he')

lemma Own.harmless_of_mem (h : Own L s R x) (hr : r ∈ R) (htf : Trapframes s x) (hv : v < trapVpn)
    (he : lookup s.mem r v = some e) :
    Event.Harmless ⟨v * PGSIZE, Pte.ppn e, special L s (Pte.ppn e)⟩ := by
  obtain ⟨R', rfl⟩ := Multiset.exists_cons_of_mem hr
  exact Own.harmless h htf hv he

lemma undoCopy_spec (htf : Trapframes s x) (hempty : ∀ v < trapVpn, lookup s.mem r v = none)
    (hn : n < trapVpn) (hcopied : Copied old r n s t) (hown : Own L s' (r ::ₘ R) x)
    (hothers : Others (.user L) R s s') (hlookup : lookup s'.mem r = lookup t.mem r) :
    wp (uvmunmap L r 0 n true) s' (fun _ => Kept (.user L) r R x s) fun _ => False := by
  have hunmap := uvmunmap_spec (v := 0) (n := n) hown (htf.of_others hothers) (by omega)
  rw [Nat.zero_mul] at hunmap
  refine wp_call hunmap ?_
  rintro _ s₁ ⟨⟨hs₁, -, -⟩, -⟩
  refine ⟨hs₁.own, ?_, hothers.trans hs₁.others⟩
  rw [hs₁.lookup, hlookup]
  funext v
  unfold clear
  split_ifs with hv
  · exact (hempty v (by omega)).symm
  · exact hcopied.rest v (by omega)

/-- One more page is copied: the page `pa`, with the contents of the parent's, is mapped. -/
lemma Copied.succ (h : Copied old r n s t) (hn : n < trapVpn) (he : lookup s.mem old n = some e)
    (hown : Own L t (r ::ₘ R) x) (hquiet : Quiet r t s')
    (hlookup : lookup s'.mem r = update (lookup t.mem r) n (some (Pte.mk pa (Pte.flags e))))
    (hppn : Pte.ppn (Pte.mk pa (Pte.flags e)) = pa) (hcontents : s'.mem pa = s.mem (Pte.ppn e)) :
    Copied old r (n + 1) s s' := by
  have hlast : lookup s'.mem r n = some (Pte.mk pa (Pte.flags e)) := by rw [hlookup, update_self]
  have hrest (v : ℕ) (hv : v ≠ n) : lookup s'.mem r v = lookup t.mem r v := by
    rw [hlookup, update_of_ne hv]
  refine ⟨fun v hv hnone => ?_, fun v hv d hd => ?_, fun v hv => ?_⟩
  · have hvn : v ≠ n := by
      rintro rfl
      rw [he] at hnone
      cases hnone
    rw [hrest v hvn]
    exact h.absent v (by omega) hnone
  · by_cases hvn : v = n
    · subst hvn
      obtain rfl := Option.some.inj (he.symm.trans hd)
      exact ⟨_, hlast, Pte.flags_mk .., by rw [hppn, hcontents]⟩
    · obtain ⟨e', he', hflags, hmem⟩ := h.copy v (by omega) d hd
      obtain ⟨hfree, htables, -⟩ := Own.not_free_of_lookup hown (by omega) he'
      exact ⟨e', by rw [hrest v hvn, he'], hflags, by rw [hquiet _ hfree htables, hmem]⟩
  · rw [hrest v (by omega)]
    exact h.rest v (by omega)

/-- The parent's page is recorded, and then copied. -/
lemma recordMove_spec {mem : ℕ} (hown : Own L t R (mem ::ₘ x)) (hold : old ∈ R) (htf : Trapframes t x)
    (hn : n < trapVpn) (he : lookup t.mem old n = some e) :
    wp (do record L (n * PGSIZE) (Pte.ppn e); memmove mem (Pte.ppn e)) t (fun _ t' =>
      (Own L t' R (mem ::ₘ x) ∧ Others (.user L) R t t' ∧ t'.mem mem = t.mem (Pte.ppn e)) ∧
        ∀ q ≠ mem, t'.mem q = t.mem q) fun _ => False := by
  have hharmless := Own.harmless_of_mem hown hold
    (fun p tf hp => Multiset.mem_cons_of_mem (htf p tf hp)) hn he
  rw [wp_bind, record, wp_modify, wp_memmove]
  have hrecord : Others (.user L) R t { t with events := t.events ++
      [⟨n * PGSIZE, Pte.ppn e, special L t (Pte.ppn e)⟩] } := by
    refine ⟨fun _ _ _ _ => rfl, rfl, rfl, fun d hd => ?_⟩
    obtain hd | hd := List.mem_append.mp hd
    · exact .inl hd
    · exact .inr (List.mem_singleton.mp hd ▸ hharmless)
  have hown' := hown.of_others hrecord rfl
  have hmove := hown'.others_of_held (Multiset.mem_cons_self mem x) (t.mem (Pte.ppn e))
  exact ⟨⟨hown'.of_others hmove rfl, hrecord.trans hmove, update_self ..⟩,
    fun q hq => update_of_ne hq ..⟩

theorem copyPage_spec (hold : old ∈ R) (htf : Trapframes s x)
    (hempty : ∀ v < trapVpn, lookup s.mem r v = none) (hn : n < trapVpn)
    (hown : Own L t (r ::ₘ R) x) (hothers : Others (.user L) R s t) (hcopied : Copied old r n s t) :
    wp (copyPage L old r (n * PGSIZE)) t (fun o t' =>
      (∀ a, o = some a → Kept (.user L) r R x s t') ∧
      (o = none → Own L t' (r ::ₘ R) x ∧ Others (.user L) R s t' ∧ Copied old r (n + 1) s t'))
      fun _ => False := by
  have hle : n ≤ trampVpn := hn.le.trans (by decide)
  have hnew : lookup t.mem r n = none := by rw [hcopied.rest n le_rfl, hempty n hn]
  -- nothing is mapped at this page
  have hskip (hnone : lookup s.mem old n = none) : Copied old r (n + 1) s t := by
    refine ⟨fun v hv => ?_, fun v hv e he => ?_, fun v hv => hcopied.rest v (by omega)⟩
    · obtain hv | rfl := Nat.lt_succ_iff_lt_or_eq.mp hv
      · exact hcopied.absent v hv
      · exact fun _ => hnew
    · obtain hv | rfl := Nat.lt_succ_iff_lt_or_eq.mp hv
      · exact hcopied.copy v hv e he
      · rw [hnone] at he
        cases he
  unfold copyPage
  rw [wp_bind, wp_walk_false (mul_PGSIZE_lt_MAXVA hle), mul_div_PGSIZE]
  cases hq : leafTable t.mem old n with
  | none =>
    have hnone : lookup s.mem old n = none := by
      rw [← hothers.lookup hold, lookup_eq_none_of_leafTable hq]
    exact ⟨fun _ ho => (by cases ho), fun _ => ⟨hown, hothers, hskip hnone⟩⟩
  | some q =>
    have hlook := lookup_of_leafTable (lt_NVPN hle) hq
    rw [hothers.lookup hold] at hlook
    rw [Option.map_some]
    simp only [wp_bind, wp_get, px_mul]
    generalize t.mem q (index 0 n) = e at hlook
    rw [wp_ite]
    split_ifs with hvalid
    · rw [hvalid, if_neg Bool.false_ne_true] at hlook
      exact ⟨fun _ ho => (by cases ho), fun _ => ⟨hown, hothers, hskip hlook⟩⟩
    · rw [if_pos (Bool.eq_true_of_not_eq_false hvalid)] at hlook
      have hR : old ∈ r ::ₘ R := Multiset.mem_cons_of_mem hold
      have he : lookup t.mem old n = some e := by rw [hothers.lookup hold, hlook]
      refine wp_mapFilled (f := s.mem (Pte.ppn e)) (fun _ => (bind_assoc ..).symm) ?_ hown hn hnew ?_ ?_
      · intro mem t₁ hothers₁ hown₁
        have he₁ : lookup t₁.mem old n = some e := by rw [hothers₁.lookup hR, he]
        have hpage : t₁.mem (Pte.ppn e) = s.mem (Pte.ppn e) := by
          rw [hothers₁.contents hR hn he, hothers.contents hold hn hlook]
        rw [← hpage]
        exact recordMove_spec hown₁ hR ((htf.of_others hothers).of_others hothers₁) hn he₁
      · intro t₁ ht₁ _
        rw [wp_bind]
        refine wp_call (undoCopy_spec htf hempty hn hcopied ht₁.own (hothers.trans ht₁.others)
          ht₁.lookup) ?_
        exact fun _ t' ht' => ⟨fun _ _ => ht', fun ho => (by cases ho)⟩
      · intro mem t₁ ht₁ hppn hcontents hquiet
        rw [flags_or_valid (valid_of_lookup hlook)] at ht₁ hppn
        exact ⟨fun _ ho => (by cases ho), fun _ => ⟨ht₁.own, hothers.trans ht₁.others,
          hcopied.succ hn hlook hown hquiet ht₁.lookup hppn hcontents⟩⟩

/-- `uvmcopy` copies all pages, or leaves the child without user memory. -/
theorem uvmcopy_spec (h : Own L s (r ::ₘ R) x) (hold : old ∈ R) (htf : Trapframes s x)
    (hempty : ∀ v < trapVpn, lookup s.mem r v = none) (hsz : sz ≤ TRAPFRAME) :
    wp (uvmcopy L old r sz) s (fun ok s' =>
      (ok = true → Own L s' (r ::ₘ R) x ∧ Others (.user L) R s s' ∧ Copied old r (npages sz) s s') ∧
      (ok = false → Kept (.user L) r R x s s')) fun _ => False := by
  unfold uvmcopy
  rw [wp_bind, show (sz + (PGSIZE - 1)) / PGSIZE = npages sz from rfl]
  refine wp_search (fun i t => Own L t (r ::ₘ R) x ∧ Others (.user L) R s t ∧ Copied old r i s t)
    ⟨h, .refl, fun _ hv => absurd hv (Nat.not_lt_zero _), fun _ hv => absurd hv (Nat.not_lt_zero _),
      fun _ _ => rfl⟩ ?_ ?_
  · rintro i t - hi ⟨hown, hothers, hcopied⟩
    have hlt : i < trapVpn := by
      have := npages_le hsz
      omega
    refine wp_call (copyPage_spec hold htf hempty hlt hown hothers hcopied) ?_
    rintro o t' ⟨hfailed, hdone⟩
    refine ⟨?_, hdone⟩
    rintro a rfl
    exact ⟨fun hok => (by cases hok), fun _ => hfailed a rfl⟩
  · intro t ht
    rw [Nat.zero_add] at ht
    exact ⟨fun _ => ht, fun hok => (by cases hok)⟩

end Xv6.Vm
