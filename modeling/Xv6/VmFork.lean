import Xv6.VmSafety

/-!
# Fork gives an isolated copy

After `uvmcopy` the child sees what the parent sees, in pages of its own, and no store
through one page table is seen through the other.
-/
namespace Xv6.Vm

open Function Prog References

variable {L : Layout} {s s' : State} {R x : Multiset ℕ} {old new r r' sz v : ℕ}

/-- The word that a process sees in a page. -/
def view (s : State) (r v : ℕ) (k : Fin 512) : Option Word :=
  (entry s r (v * PGSIZE)).map fun e => s.mem e.1 k

/-- A word is stored to a page, if that is mapped. -/
def store (s : State) (r v : ℕ) (k : Fin 512) (w : Word) : State :=
  match entry s r (v * PGSIZE) with
  | some (pa, _) => { s with mem := update s.mem pa (update (s.mem pa) k w) }
  | none => s

/-- A store to user memory, through the first page table or the second. -/
structure Store where
  first : Bool
  page : Fin trapVpn
  index : Fin 512
  word : Word

/-- Stores through two page tables. -/
def stores (old new : ℕ) (s : State) (l : List Store) : State :=
  l.foldl (fun s a => store s (if a.first then old else new) a.page a.index a.word) s

lemma view_eq (hv : v < trapVpn) (k : Fin 512) :
    view s r v k = (lookup s.mem r v).map fun e => s.mem (Pte.ppn e) k := by
  rw [view, entry_mul (hv.le.trans (by decide)), Option.map_map]
  rfl

lemma store_tables (h : Own L s (r ::ₘ R) x) (hv : v < trapVpn) (k : Fin 512) (w : Word) :
    Own L (store s r v k w) (r ::ₘ R) x ∧
      ∀ r' ∈ r ::ₘ R, lookup (store s r v k w).mem r' = lookup s.mem r' := by
  unfold store
  rw [entry_mul (hv.le.trans (by decide))]
  cases he : lookup s.mem r v with
  | none => exact ⟨h, fun _ _ => rfl⟩
  | some e =>
    have hkeep : ∀ r' ∈ r ::ₘ R, ∀ q ∈ tables s.mem r', q ≠ Pte.ppn e := by
      refine Multiset.forall_mem_cons.mpr ⟨?_, fun r' hr' => ?_⟩
      · rintro q hq rfl
        exact (Own.of_lookup h hv he).2.1 hq
      · rintro q hq rfl
        exact Own.not_mem_other h hr' hv he (Multiset.mem_add.mpr (.inl hq))
    have htables : ∀ r' ∈ r ::ₘ R, ∀ q ∈ tables s.mem r',
        update s.mem (Pte.ppn e) (update (s.mem (Pte.ppn e)) k w) q = s.mem q :=
      fun r' hr' q hq => update_of_ne (hkeep r' hr' q hq) ..
    exact ⟨h.of_tables htables rfl, fun r' hr' => (congr_of_tables (htables r' hr')).2.1⟩

/-- A store is not seen through another page table. -/
theorem view_store (h : Own L s (r ::ₘ R) x) (hr' : r' ∈ R) (hv : v < trapVpn) (k : Fin 512) (w : Word)
    {v' : ℕ} (hv' : v' < trapVpn) (k' : Fin 512) :
    view (store s r v k w) r' v' k' = view s r' v' k' := by
  rw [view_eq hv', view_eq hv', (store_tables h hv k w).2 r' (Multiset.mem_cons_of_mem hr')]
  cases he' : lookup s.mem r' v' with
  | none => rfl
  | some e' =>
    unfold store
    rw [entry_mul (hv.le.trans (by decide))]
    cases he : lookup s.mem r v with
    | none => rfl
    | some e =>
      have hne := Own.ne_of_lookup h hr' hv hv' he he'
      simp only [Option.map_some, Pte.decode]
      rw [update_of_ne hne.symm]

lemma stores_own (h : Own L s (new ::ₘ old ::ₘ R) x) (l : List Store) :
    Own L (stores old new s l) (new ::ₘ old ::ₘ R) x := by
  induction l generalizing s with
  | nil => exact h
  | cons a l ih =>
    refine ih ?_
    dsimp only
    split
    · rw [Multiset.cons_swap] at h ⊢
      exact (store_tables h a.page.isLt a.index a.word).1
    · exact (store_tables h a.page.isLt a.index a.word).1

/-- The child has the pages of the parent with the same flags and contents, in pages of
its own, and after any stores through both page tables a store through one is not seen
through the other. -/
structure Isolated (L : Layout) (x : Multiset ℕ) (old new : ℕ) (s s' : State) : Prop where
  flags : ∀ v < trapVpn,
    (entry s' new (v * PGSIZE)).map Prod.snd = (entry s old (v * PGSIZE)).map Prod.snd
  contents : ∀ v < trapVpn, ∀ k, view s' new v k = view s old v k
  disjoint : ∀ v < trapVpn, ∀ pa flags, entry s' new (v * PGSIZE) = some (pa, flags) →
    pa ∉ (Account.user L).pages s'.mem old ∧ pa ∉ x ∧ pa ≠ L.trampoline
  later : ∀ l v k w v' k', v < trapVpn → v' < trapVpn →
    view (store (stores old new s' l) old v k w) new v' k' = view (stores old new s' l) new v' k' ∧
    view (store (stores old new s' l) new v k w) old v' k' = view (stores old new s' l) old v' k'

/-- The child has no user memory, and only its page table may have got pages. -/
structure Undone (new : ℕ) (s s' : State) : Prop where
  empty : ∀ v < trapVpn, entry s' new (v * PGSIZE) = none
  allocated : (s'.freelist : Multiset ℕ) + tables s'.mem new = s.freelist + tables s.mem new

/-- The parent's page table and memory are unchanged. -/
structure Unchanged (L : Layout) (old : ℕ) (s s' : State) : Prop where
  table : ∀ va < MAXVA, entry s' old va = entry s old va
  memory : ∀ q ∈ (Account.user L).pages s.mem old, s'.mem q = s.mem q

lemma Copied.isolated (h : Own L s' (new ::ₘ old ::ₘ R) x)
    (hcopied : Copied old new (npages sz) s s')
    (hparent : ∀ v < trapVpn, npages sz ≤ v → lookup s.mem old v = none)
    (hchild : ∀ v < trapVpn, lookup s.mem new v = none) : Isolated L x old new s s' := by
  have hold := Multiset.mem_cons_self old R
  -- page by page, the child has an entry if the parent has one
  have hpage (v : ℕ) (hv : v < trapVpn) : (lookup s.mem old v = none ∧ lookup s'.mem new v = none) ∨
      ∃ e e', lookup s.mem old v = some e ∧ lookup s'.mem new v = some e' ∧
        Pte.flags e' = Pte.flags e ∧ s'.mem (Pte.ppn e') = s.mem (Pte.ppn e) := by
    by_cases hsz : v < npages sz
    · cases he : lookup s.mem old v with
      | none => exact .inl ⟨rfl, hcopied.absent v hsz he⟩
      | some e =>
        obtain ⟨e', he', hflags, hmem⟩ := hcopied.copy v hsz e he
        exact .inr ⟨e, e', rfl, he', hflags, hmem⟩
    · refine .inl ⟨hparent v hv (not_lt.mp hsz), ?_⟩
      rw [hcopied.rest v (not_lt.mp hsz), hchild v hv]
  refine ⟨fun v hv => ?_, fun v hv k => ?_, fun v hv pa flags hpa => ?_, fun l v k w v' k' hv hv' => ?_⟩
  · have hle : v ≤ trampVpn := hv.le.trans (by decide)
    rw [entry_mul hle, entry_mul hle]
    obtain ⟨he, he'⟩ | ⟨e, e', he, he', hflags, -⟩ := hpage v hv
    · rw [he, he']
    · rw [he, he']
      exact congrArg some hflags
  · rw [view_eq hv, view_eq hv]
    obtain ⟨he, he'⟩ | ⟨e, e', he, he', -, hmem⟩ := hpage v hv
    · rw [he, he']
      rfl
    · rw [he, he']
      exact congrArg some (congrFun hmem k)
  · rw [entry_mul (hv.le.trans (by decide))] at hpa
    obtain ⟨e, he, hdecode⟩ := Option.map_eq_some_iff.mp hpa
    obtain ⟨rfl, -⟩ := Prod.mk.inj hdecode
    obtain ⟨hram, -, hx⟩ := Own.of_lookup h hv he
    refine ⟨Own.not_mem_other h hold hv he, hx, fun htramp => ?_⟩
    have hlo := (mem_ram.mp hram).1
    have htext := L.text
    omega
  · have hown := stores_own h l
    have hswap : Own L (stores old new s' l) (old ::ₘ new ::ₘ R) x := Multiset.cons_swap new old R ▸ hown
    exact ⟨view_store hswap (Multiset.mem_cons_self ..) hv k w hv' k',
      view_store hown hold hv k w hv' k'⟩

/-- For a parent whose user pages are below `PGROUNDUP(sz)` and a child without user
memory, `uvmcopy` ends; if it succeeds the child has an isolated copy, if it fails
nothing is left behind, and the parent is unchanged in both cases. -/
theorem uvmcopy_isolated_or_undone (L : Layout) (s : State) (old new sz : ℕ) (R x : Multiset ℕ)
    (hown : Own L s (new ::ₘ old ::ₘ R) x) (htf : Trapframes s x) (hsz : sz ≤ TRAPFRAME)
    (hparent : ∀ v < trapVpn, pgroundup sz ≤ v * PGSIZE → entry s old (v * PGSIZE) = none)
    (hchild : ∀ v < trapVpn, entry s new (v * PGSIZE) = none) :
    ∃ ok s', (uvmcopy L old new sz).run s = .ok (ok, s') ∧ Unchanged L old s s' ∧
      (ok = true → Isolated L x old new s s') ∧ (ok = false → Undone new s s') := by
  have hold := Multiset.mem_cons_self old R
  have hnone (r v : ℕ) (hv : v < trapVpn) (he : entry s r (v * PGSIZE) = none) :
      lookup s.mem r v = none := by
    rw [entry_mul (hv.le.trans (by decide))] at he
    exact Option.map_eq_none_iff.mp he
  have hempty (v : ℕ) (hv : v < trapVpn) := hnone new v hv (hchild v hv)
  obtain ⟨ok, s', hrun, hdone, hkept⟩ := exists_run_of_wp (uvmcopy_spec hown hold htf hempty hsz)
  refine ⟨ok, s', hrun, ?_⟩
  have hunchanged (hothers : Others (.user L) (old ::ₘ R) s s') : Unchanged L old s s' := by
    refine ⟨fun va hva => ?_, hothers.pages old hold⟩
    rw [entry_eq hva, entry_eq hva, hothers.lookup hold]
  cases ok with
  | true =>
    obtain ⟨hown', hothers, hcopied⟩ := hdone rfl
    refine ⟨hunchanged hothers, fun _ => ?_, fun hok => (by cases hok)⟩
    refine Copied.isolated hown' hcopied (fun v hv hle => ?_) hempty
    refine hnone old v hv (hparent v hv ?_)
    rw [pgroundup_eq hsz]
    exact Nat.mul_le_mul_right _ hle
  | false =>
    have hkept := hkept rfl
    refine ⟨hunchanged hkept.others, fun hok => (by cases hok), fun _ => ⟨fun v hv => ?_, ?_⟩⟩
    · rw [entry_mul (hv.le.trans (by decide)), hkept.lookup, hempty v hv]
      rfl
    · exact hkept.conserved hown

/-- Two processes, the first with a page below its size and one that a fault mapped. -/
def twoRun : List (Op × List Bool) :=
  [(.userinit, []), (.sbrk 0 100 1, []), (.sbrk 0 5000 2, []), (.fault 0 5000, []), (.userinit, [])]

/-- The page tables of the two, their sizes, and whether `uvmcopy` succeeds. -/
def twoTables (s : State) : Option ℕ × Option ℕ × ℕ × ℕ × Option Bool :=
  ((s.proc 0).pagetable, (s.proc 1).pagetable, (s.proc 0).sz, (s.proc 1).sz,
    match (uvmcopy smallLayout (physTop - 23) (physTop - 15) 5100).run s with
    | .ok (ok, _) => some ok
    | .error _ => none)

theorem uvmcopy_isolated_twoRun : ∃ s s', Runs.exec (step smallLayout) smallInit twoRun = some s ∧
    (uvmcopy smallLayout (physTop - 23) (physTop - 15) 5100).run s = .ok (true, s') ∧
    Isolated smallLayout (frames s + s.pipes + 0) (physTop - 23) (physTop - 15) s s' := by
  have hrun : (Runs.exec (step smallLayout) smallInit twoRun).map twoTables =
      some (some (physTop - 23), some (physTop - 15), 5100, 0, some true) := by decide +kernel
  have hfits : Runs.Admitted (step smallLayout) Fits smallInit twoRun := by decide +kernel
  obtain ⟨s, hs, htables⟩ := Option.map_eq_some_iff.mp hrun
  simp only [twoTables, Prod.mk.injEq] at htables
  obtain ⟨hold, hnew, hsz, hsz', hok⟩ := htables
  have hinv := (Runs.invariant_of_admitted step_inv (inv_init small_boot) hfits hs).mem
  -- the invariant, with the page table of the second process in front
  have hroots : roots s = (physTop - 15) ::ₘ (physTop - 23) ::ₘ
      targets (update (update (Proc.pagetable ∘ s.proc) 1 none) 0 none) := by
    rw [roots_of_some hnew, otherRoots, targets_eq _ 0, update_of_ne (by decide)]
    exact congrArg _ (congrArg (· + _) (congrArg target hold))
  have hown := hinv.own
  rw [hroots] at hown
  have hnone (p : Pid) (r v : ℕ) (hr : (s.proc p).pagetable = some r) (hv : v < trapVpn)
      (hle : npages (s.proc p).sz ≤ v) : entry s r (v * PGSIZE) = none := by
    have htramp : v < trampVpn := hv.trans (by decide)
    rw [entry_mul htramp.le, hinv.bound p r hr v hle hv.ne htramp.ne]
    rfl
  obtain ⟨ok, s', hrun', -, hisolated, -⟩ := uvmcopy_isolated_or_undone smallLayout s (physTop - 23)
    (physTop - 15) 5100 _ _ hown trapframes_frames (by decide)
    (fun v hv hle => hnone 0 _ v hold hv (by
      rw [hsz]
      exact Nat.le_of_mul_le_mul_right hle (by decide)))
    (fun v hv => hnone 1 _ v hnew hv (by rw [hsz']; exact Nat.zero_le v))
  rw [hrun'] at hok
  obtain rfl := Option.some.inj hok
  exact ⟨s, s', hs, hrun', hisolated rfl⟩

end Xv6.Vm
