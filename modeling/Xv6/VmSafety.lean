import Xv6.VmExec

/-!
# Page ownership and the limit of user memory

Every operation keeps the account of all pages and panics nowhere, as long as no
process grows beyond the trapframe. `sbrk` does not check that: lazy growth passes the
trapframe, and eager growth that reaches it panics.
-/
namespace Xv6.Vm

open Function Prog References

variable {L : Layout} {s s' : State} {y : Multiset ℕ} {p : Pid}

/-- Growth stays below the trapframe. -/
def Fits (s : State) : Op × List Bool → Prop
  | (.sbrk p n _, _) => 0 < n → (s.proc p).sz + n ≤ TRAPFRAME
  | _ => True

instance (s : State) : (a : Op × List Bool) → Decidable (Fits s a)
  | (.sbrk _ _ _, _) => inferInstanceAs (Decidable (_ → _))
  | (.userinit, _) | (.fork _, _) | (.exit _, _) | (.wait _ _ _, _) | (.exec _ _ _ _ _, _)
  | (.fault _ _, _) | (.pipe, _) | (.pipeclose _, _) => isTrue trivial

lemma Inv.refuse (h : Inv L y s) (refuse : List Bool) : Inv L y { s with refuse := refuse } :=
  ⟨⟨⟨h.mem.own.eq, h.mem.own.inner⟩, h.mem.sz, h.mem.bound, h.mem.events⟩, h.shape⟩

lemma Inv.tables (h : Inv L y s) (hused : (s.proc p).state = .used) :
    ∃ r tf, (s.proc p).pagetable = some r ∧ (s.proc p).trapframe = some tf :=
  (h.shape p).2 (by rw [hused]; exact ProcState.noConfusion)

theorem exit_spec (h : Inv L y s) (hused : (s.proc p).state = .used) :
    wp (modifyProc p fun pr => { pr with state := .zombie }) s (fun _ => Inv L y) fun _ => False := by
  obtain ⟨r, tf, hr, htf⟩ := h.tables hused
  refine ⟨h.mem.change rfl ?_ (Around.refl.setProc _) (h.mem.sz p) (h.mem.bound p),
    h.shape.update rfl (fun hstate => (by cases hstate)) fun _ => ⟨r, tf, hr, htf⟩⟩
  rw [← roots_eq, ← frames_eq]
  exact ⟨h.mem.own.eq, h.mem.own.inner⟩

lemma Inv.setPipes (h : Inv L y s) {l : List ℕ} (hproc : s'.proc = s.proc)
    (hothers : Others (.user L) (roots s) s { s' with pipes := s.pipes })
    (hown : Own L s' (roots s) (frames s + l + y)) (hpipes : s'.pipes = l) : Inv L y s' := by
  have hroots : roots s' = roots s := by rw [roots, roots, hproc]
  have hframes : frames s' = frames s := by rw [frames, frames, hproc]
  refine ⟨⟨?_, ?_, fun p r hr => ?_, fun e he => (hothers.events e he).elim (h.mem.events e) id⟩,
    h.shape.of_proc hproc⟩
  · rw [hroots, hframes, hpipes]
    exact hown
  · rw [hproc]
    exact h.mem.sz
  · rw [hproc] at hr ⊢
    have hlookup := hothers.lookup (mem_targets_iff.mpr ⟨p, hr⟩)
    dsimp only at hlookup
    rw [hlookup]
    exact h.mem.bound p r hr

theorem pipe_spec (h : Inv L y s) : wp (Op.body L .pipe) s (fun _ => Inv L y) fun _ => False := by
  unfold Op.body
  rw [wp_bind]
  refine wp_call (kalloc_spec h.mem.own) ?_
  rintro o s₁ ⟨hothers, hnone, hsome⟩
  cases o with
  | none => exact h.setPipes hothers.proc ⟨hothers.pages, hothers.proc, rfl, hothers.events⟩ (hnone rfl) hothers.pipes
  | some pa =>
    have hown := hsome pa rfl
    refine h.setPipes (l := pa :: s.pipes) hothers.proc
      ⟨hothers.pages, hothers.proc, rfl, hothers.events⟩ ?_ (congrArg (pa :: ·) hothers.pipes)
    rw [← Multiset.cons_coe, Multiset.add_cons, Multiset.cons_add]
    exact ⟨hown.eq, hown.inner⟩

theorem pipeclose_spec {pa : ℕ} (h : Inv L y s) (hpa : pa ∈ s.pipes) :
    wp (Op.body L (.pipeclose pa)) s (fun _ => Inv L y) fun _ => False := by
  have hown : Own L { s with pipes := s.pipes.erase pa } (roots s)
      (pa ::ₘ (frames s + (s.pipes.erase pa : List ℕ) + y)) := by
    rw [← Multiset.cons_add, ← Multiset.add_cons, Multiset.cons_coe,
      Multiset.coe_eq_coe.mpr (List.perm_cons_erase hpa).symm]
    exact ⟨h.mem.own.eq, h.mem.own.inner⟩
  unfold Op.body
  rw [wp_bind, wp_modify]
  refine wp_call (kfree_spec hown) ?_
  rintro _ s₁ ⟨hown₁, hothers, -⟩
  exact h.setPipes hothers.proc ⟨hothers.pages, hothers.proc, rfl, hothers.events⟩ hown₁ hothers.pipes

/-- Every operation that fits keeps the account of all pages, and does not panic. -/
theorem op_spec {op : Op} {refuse : List Bool} (h : Inv L y s) (hen : Enabled s op)
    (hfits : Fits s (op, refuse)) : wp (op.body L) s (fun _ => Inv L y) fun _ => False := by
  cases op with
  | userinit =>
    unfold Op.body
    rw [wp_bind]
    refine wp_call (allocproc_spec h.mem h.shape) ?_
    rintro o s₁ ⟨hmem, -, hnone, hsome⟩
    cases o with
    | none => exact ⟨hmem, h.shape.of_proc (hnone rfl)⟩
    | some np =>
      obtain ⟨-, r, tf, hproc, -⟩ := hsome np rfl
      exact ⟨hmem, h.shape.update hproc (fun hstate => (by cases hstate)) fun _ => ⟨r, tf, rfl, rfl⟩⟩
  | fork p => exact wp_call (kfork_spec h hen) fun _ _ hs' => hs'.1
  | exit p => exact exit_spec h hen
  | wait p child addr => exact wp_call (kwait_spec h hen.1) fun _ _ hs' => hs'.1
  | exec p uargv uargs header phs =>
    obtain ⟨r, tf, hr, htf⟩ := h.tables hen.1
    refine wp_call (sysExec_spec h.mem hr htf) fun _ s' hs' => ⟨hs'.inv, ?_⟩
    obtain hproc | ⟨r', sz, hproc⟩ := hs'.proc
    · exact h.shape.of_proc hproc
    · refine h.shape.update hproc (fun hstate => ?_) fun _ => ⟨r', tf, rfl, htf⟩
      cases hen.1.symm.trans hstate
  | sbrk p n t =>
    obtain ⟨r, tf, hr, -⟩ := h.tables hen.1
    exact wp_call (sysSbrk_spec h.mem hr hen.2 hfits) fun _ _ hs' => h.of_resized hen.1 hs'
  | fault p va =>
    obtain ⟨r, tf, hr, -⟩ := h.tables hen.1
    unfold Op.body
    rw [wp_bind, wp_get, hr]
    dsimp only
    rw [wp_bind]
    exact wp_call (vmfault_spec h.mem hr) fun _ _ hs' => h.of_steady hs'.1
  | pipe => exact pipe_spec h
  | pipeclose pa => exact pipeclose_spec h hen

/-- An operation that fits ends, and keeps the invariant. -/
theorem step_of_fits {a : Op × List Bool} (h : Inv L y s) (hen : Enabled s a.1) (hfits : Fits s a) :
    ∃ s', step L s a = some s' ∧ Inv L y s' := by
  obtain ⟨op, refuse⟩ := a
  dsimp only at hen
  have hspec := op_spec (h.refuse refuse) hen hfits
  unfold wp at hspec
  unfold step
  dsimp only
  rw [if_pos hen]
  cases hrun : (op.body L).run { s with refuse := refuse } with
  | ok a =>
    rw [hrun] at hspec
    exact ⟨a.2, rfl, hspec⟩
  | error e =>
    rw [hrun] at hspec
    exact hspec.elim

theorem step_inv (s : State) (a : Op × List Bool) (s' : State) (h : Inv L y s) (hfits : Fits s a)
    (hs' : step L s a = some s') : Inv L y s' := by
  have hen : Enabled s a.1 := by
    by_contra hen
    obtain ⟨op, refuse⟩ := a
    rw [step, if_neg hen] at hs'
    cases hs'
  obtain ⟨t, ht, hinv⟩ := step_of_fits h hen hfits
  rwa [Option.some.inj (hs'.symm.trans ht)]

lemma inv_init {mem : ℕ → Fin 512 → Word} {freelist boot : List ℕ}
    (h : (freelist : Multiset ℕ) + boot = ram L) : Inv L boot (init mem freelist) := by
  have hroots : roots (init mem freelist) = 0 := targets_none
  have hframes : frames (init mem freelist) = 0 := targets_none
  refine ⟨⟨⟨?_, ?_⟩, fun _ => Nat.zero_le _, fun _ _ hr => (by cases hr), fun _ he => (by cases he)⟩,
    fun _ => ⟨fun _ => rfl, fun hne => absurd rfl hne⟩⟩
  · rw [hroots, hframes, Multiset.map_zero, Multiset.sum_zero, add_zero, zero_add]
    show (freelist : Multiset ℕ) + (([] : List ℕ) + (boot : Multiset ℕ)) = ram L
    rw [Multiset.coe_nil, zero_add, h]
  · rw [hroots]
    exact fun r hr => absurd hr (Multiset.notMem_zero r)

/-- How often a page is owned: as a page of the page table or as user memory of a
process, as a trapframe, by a pipe, and by the kernel since boot. -/
def owners (s : State) (boot : List ℕ) (pa : ℕ) : ℕ :=
  ∑ p, ((s.proc p).pagetable.elim 0 fun r =>
    (tables s.mem r).count pa + (userPages (lookup s.mem r)).count pa) +
  (∑ p, if (s.proc p).trapframe = some pa then 1 else 0) + s.pipes.count pa + boot.count pa

lemma count_frames (s : State) (pa : ℕ) :
    (frames s).count pa = ∑ p, if (s.proc p).trapframe = some pa then 1 else 0 := by
  rw [frames, targets, Multiset.count_sum']
  refine Finset.sum_congr rfl fun p _ => ?_
  cases h : (s.proc p).trapframe with
  | none => simp [h]
  | some tf => simp [h, Multiset.count_singleton, eq_comm]

lemma count_pages (s : State) (pa : ℕ) : (((roots s).map ((Account.user L).pages s.mem)).sum).count pa =
    ∑ p, ((s.proc p).pagetable.elim 0 fun r =>
      (tables s.mem r).count pa + (userPages (lookup s.mem r)).count pa) := by
  rw [roots, sum_map_targets, Multiset.count_sum']
  refine Finset.sum_congr rfl fun p _ => ?_
  cases h : (s.proc p).pagetable with
  | none => simp [h]
  | some r =>
    rw [comp_apply, h, Option.elim_some, Option.elim_some, Account.pages, Account.held_user,
      Multiset.count_add]

lemma MemInv.count_eq {boot : List ℕ} (h : MemInv L boot s) (pa : ℕ) :
    s.freelist.count pa + owners s boot pa = (ram L).count pa := by
  rw [← Account.all_user, ← h.own.eq, Multiset.count_add, Multiset.count_add,
    Multiset.count_add, Multiset.count_add, count_pages, count_frames, owners]
  simp only [Multiset.coe_count]
  omega

/-- Two processes map no page in common. -/
lemma MemInv.ne_of_lookup (h : MemInv L y s) {p p' : Pid} {r r' v v' : ℕ} {e e' : Word} (hp : p ≠ p')
    (hr : (s.proc p).pagetable = some r) (hr' : (s.proc p').pagetable = some r') (hv : v < trapVpn)
    (hv' : v' < trapVpn) (he : lookup s.mem r v = some e) (he' : lookup s.mem r' v' = some e') :
    Pte.ppn e ≠ Pte.ppn e' :=
  Own.ne_of_lookup (h.own_cons hr) (mem_otherRoots hp.symm hr') hv hv' he he'

/-- The number of free pages is that of the pages nobody owns. -/
lemma MemInv.length_eq (h : MemInv L y s) (h' : MemInv L y s')
    (hproc : ∀ p, (s'.proc p).pagetable = (s.proc p).pagetable ∧
      (s'.proc p).trapframe = (s.proc p).trapframe)
    (htables : ∀ p r, (s.proc p).pagetable = some r → ∀ q ∈ tables s.mem r, s'.mem q = s.mem q)
    (hpipes : s'.pipes.Perm s.pipes) : s'.freelist.length = s.freelist.length := by
  have hroots : roots s' = roots s := congrArg targets (funext fun p => (hproc p).1)
  have hframes : frames s' = frames s := congrArg targets (funext fun p => (hproc p).2)
  have hpages : ((roots s).map ((Account.user L).pages s'.mem)).sum =
      ((roots s).map ((Account.user L).pages s.mem)).sum := by
    refine congrArg Multiset.sum (Multiset.map_congr rfl fun r hr => ?_)
    obtain ⟨p, hp⟩ := mem_targets_iff.mp hr
    obtain ⟨htables', hlookup, -, -⟩ := congr_of_tables (htables p r hp)
    rw [Account.pages, Account.pages, htables', hlookup]
  have heq := h'.own.eq.trans h.own.eq.symm
  rw [hroots, hframes, hpages, Multiset.coe_eq_coe.mpr hpipes] at heq
  have hfree := add_right_cancel (add_right_cancel heq)
  have := congrArg Multiset.card hfree
  simpa using this

/-- A machine with 24 pages. -/
def smallLayout : Layout := ⟨physTop - 24, 0, by decide⟩

def smallInit : State := init (fun _ _ => 0) (List.range' (physTop - 24) 24)

/-- A process forks and waits for the child. -/
def forkRun : List (Op × List Bool) :=
  [(.userinit, []), (.sbrk 0 100 1, []), (.sbrk 0 5000 2, []), (.fault 0 5000, []), (.fork 0, []),
    (.pipe, []), (.exit 1, []), (.wait 0 1 0, [])]

lemma small_boot : ((List.range' (physTop - 24) 24 : List ℕ) : Multiset ℕ) + ([] : List ℕ) =
    ram smallLayout := by decide +kernel

/-- A fault, a fork, a call that shrinks memory, or a wait that frees a child. -/
inductive Follows : Op → Prop
  | fault (p : Pid) (va : ℕ) : Follows (.fault p va)
  | fork (p : Pid) : Follows (.fork p)
  | shrink (p : Pid) (n t : ℤ) (hn : n < 0) : Follows (.sbrk p n t)
  | wait (p child : Pid) (addr : ℕ) : Follows (.wait p child addr)

lemma Follows.fits {op : Op} (h : Follows op) (refuse : List Bool) : Fits s (op, refuse) := by
  cases h with
  | fault p va => exact trivial
  | fork p => exact trivial
  | shrink p n t hn => exact fun hpos => absurd hpos (by omega)
  | wait p child addr => exact trivial

end Xv6.Vm
