import Xv6.VmInv

/-!
# Processes come and go

Specifications of `freeproc`, `allocproc`, `growproc`, `fork` and `wait`: they keep the
account of all pages.
-/
namespace Xv6.Vm

open Function Prog References

variable {L : Layout} {s s' : State} {y : Multiset ℕ} {p : Pid} {r sz : ℕ}

/-- A process that is not in use. -/
abbrev noProc : Proc := ⟨.unused, none, none, 0⟩

theorem freeproc_spec (h : MemInv L y s) :
    wp (freeproc L p) s (fun _ s' => MemInv L y s' ∧ s'.proc = update s.proc p noProc ∧
      Around L (otherRoots s p) s s') fun _ => False := by
  -- the page table is freed after the trapframe
  have htable (s₁ : State) (hown : Own L s₁ (roots s) (otherFrames s p + s.pipes + y))
      (hothers : Others (.user L) (roots s) s s₁) (m : State → VM Unit)
      (hnone : ∀ t, (t.proc p).pagetable = none → m t = modifyProc p fun _ => noProc)
      (hsome : ∀ t r, (t.proc p).pagetable = some r → m t = do
        procFreepagetable L r (t.proc p).sz
        modifyProc p fun _ => noProc) :
      wp (do
        modifyProc p fun pr => { pr with trapframe := none }
        m (← get)) s₁ (fun _ s' => MemInv L y s' ∧
          s'.proc = update s.proc p noProc ∧
          Around L (otherRoots s p) s s') fun _ => False := by
    simp only [modifyProc, wp_bind, wp_modify, wp_get]
    rw [hothers.proc]
    obtain ⟨s₂, hs₂⟩ : ∃ s₂ : State, s₂ = { s₁ with
      proc := update s.proc p ⟨(s.proc p).state, (s.proc p).pagetable, none, (s.proc p).sz⟩ } := ⟨_, rfl⟩
    rw [← hs₂]
    have hself : s₂.proc p = ⟨(s.proc p).state, (s.proc p).pagetable, none, (s.proc p).sz⟩ := by
      rw [hs₂]
      exact update_self ..
    have hsub : otherRoots s p ⊆ roots s := by
      rw [roots_eq s p]
      exact Multiset.subset_of_le (Multiset.le_add_left ..)
    have hown₂ : Own L s₂ (roots s) (otherFrames s p + s.pipes + y) := hs₂ ▸ ⟨hown.eq, hown.inner⟩
    -- the process is not in use any more
    have hend (s₃ : State) (hown₃ : Own L s₃ (otherRoots s p) (otherFrames s p + s.pipes + y))
        (hothers₃ : Others (.user L) (otherRoots s p) s₂ s₃) :
        MemInv L y { s₃ with proc := update s₃.proc p noProc } ∧
          update s₃.proc p noProc = update s.proc p noProc ∧
          Around L (otherRoots s p) s s₃ := by
      have hproc : update s₃.proc p noProc = update s.proc p noProc := by
        rw [hothers₃.proc, hs₂, update_idem]
      have haround : Around L (otherRoots s p) s s₂ := by
        rw [hs₂]
        exact (Around.of_others (hothers.mono hsub)).setProc _
      have hall := haround.trans (.of_others hothers₃)
      refine ⟨h.change hproc ?_ (hall.setProc _) (Nat.zero_le _) fun _ hr => (by cases hr), hproc, hall⟩
      rw [target_none, zero_add, zero_add]
      exact ⟨hown₃.eq, hown₃.inner⟩
    cases hr : (s.proc p).pagetable with
    | none =>
      have hroots := roots_eq s p
      rw [hr] at hroots
      rw [hroots.trans (zero_add _)] at hown₂
      rw [hnone s₂ (by rw [hself, hr]), modifyProc, wp_modify]
      exact hend s₂ hown₂ .refl
    | some r =>
      have htf₂ : Trapframes s₂ (otherFrames s p + s.pipes + y) := by
        have hframes : frames s₂ = otherFrames s p := by
          rw [frames_update p _ (by rw [hs₂])]
          exact zero_add _
        rw [← hframes]
        exact trapframes_frames
      have hlookup : lookup s₂.mem r = lookup s.mem r := by
        rw [hs₂]
        exact hothers.lookup (roots_of_some hr ▸ Multiset.mem_cons_self r _)
      rw [roots_of_some hr] at hown₂
      rw [hsome s₂ r (by rw [hself, hr]), hself, wp_bind]
      refine wp_call (procFreepagetable_spec hown₂ htf₂ (h.sz p) ?_) ?_
      · rw [hlookup]
        exact h.bound p r hr
      · rintro _ s₃ ⟨hown₃, hothers₃, -⟩
        exact hend s₃ hown₃ hothers₃
  unfold freeproc
  rw [wp_bind, wp_get]
  cases htf : (s.proc p).trapframe with
  | none =>
    refine htable s ?_ .refl _ (fun t ht => ?_) fun t r ht => ?_
    rotate_left
    · dsimp only
      rw [ht]
    · dsimp only
      rw [ht]
    have hframes := frames_eq s p
    rw [htf] at hframes
    rw [show otherFrames s p = frames s from (hframes.trans (zero_add _)).symm]
    exact h.own
  | some tf =>
    have hown := h.own
    rw [frames_eq s p, htf, show target (some tf) = {tf} from rfl, Multiset.singleton_add,
      Multiset.cons_add, Multiset.cons_add] at hown
    dsimp only
    rw [wp_bind]
    refine wp_call (kfree_spec hown) ?_
    rintro _ s₁ ⟨hown₁, hothers₁, -⟩
    refine htable s₁ hown₁ hothers₁ _ (fun t ht => ?_) fun t r ht => ?_
    · rw [ht]
    · rw [ht]

/-- The processes that are in use have a page table and a trapframe, the others have
nothing. -/
def Shape (s : State) : Prop :=
  ∀ p, ((s.proc p).state = .unused → s.proc p = noProc) ∧
    ((s.proc p).state ≠ .unused →
      ∃ r tf, (s.proc p).pagetable = some r ∧ (s.proc p).trapframe = some tf)

lemma bounded_bare {tf n : ℕ} : Bounded (bare L tf) n := by
  intro v _ htrap htramp
  rw [bare, update_of_ne htrap, update_of_ne htramp]

/-- `allocproc` takes a process that is not in use, and gives it a page table without
user memory. -/
theorem allocproc_spec (h : MemInv L y s) (hshape : Shape s) :
    wp (allocproc L) s (fun o s' => MemInv L y s' ∧ s'.pipes = s.pipes ∧
      (o = none → s'.proc = s.proc) ∧ ∀ np, o = some np → (s.proc np).state = .unused ∧
        ∃ r tf, s'.proc = update s.proc np ⟨.used, some r, some tf, 0⟩ ∧ lookup s'.mem r = bare L tf)
      fun _ => False := by
  unfold allocproc
  rw [wp_bind, wp_get]
  split
  next => exact ⟨h, rfl, fun _ => rfl, fun _ ho => (by cases ho)⟩
  next np hfind =>
    have hunused : (s.proc np).state = .unused := by simpa using List.find?_some hfind
    have hnone := (hshape np).1 hunused
    have hroots : roots s = otherRoots s np := by
      rw [roots_eq s np, hnone, target_none, zero_add]
    have hframes : frames s = otherFrames s np := by
      rw [frames_eq s np, hnone, target_none, zero_add]
    have hfreed (f : Proc) (s' : State) (h' : MemInv L y s') (hproc : s'.proc = update s.proc np f)
        (hpipes : s'.pipes = s.pipes) :
        wp (do freeproc L np; return none) s' (fun o s' => MemInv L y s' ∧ s'.pipes = s.pipes ∧
          (o = none → s'.proc = s.proc) ∧ ∀ np, o = some np → (s.proc np).state = .unused ∧
            ∃ r tf, s'.proc = update s.proc np ⟨.used, some r, some tf, 0⟩ ∧
              lookup s'.mem r = bare L tf) fun _ => False := by
      rw [wp_bind]
      refine wp_call (freeproc_spec h') ?_
      rintro _ s'' ⟨h'', hproc', haround⟩
      refine ⟨h'', haround.pipes.trans hpipes, fun _ => ?_, fun _ ho => (by cases ho)⟩
      rw [hproc', hproc, update_idem, ← hnone, update_eq_self]
    have hown := h.own
    rw [hroots, hframes] at hown
    simp only [modifyProc, wp_bind, wp_modify]
    rw [hnone]
    obtain ⟨s₁, hs₁⟩ : ∃ s₁ : State, s₁ = { s with proc := update s.proc np ⟨.used, none, none, 0⟩ } :=
      ⟨_, rfl⟩
    rw [← hs₁]
    have hown₁ : Own L s₁ (otherRoots s np) (otherFrames s np + s.pipes + y) :=
      hs₁ ▸ ⟨hown.eq, hown.inner⟩
    have haround₁ : Around L (otherRoots s np) s s₁ := hs₁ ▸ Around.refl.setProc _
    refine wp_call (kalloc_spec hown₁) ?_
    rintro o s₂ ⟨hothers₂, hrefused, hsome⟩
    have haround₂ := haround₁.trans (.of_others hothers₂)
    have hproc₂ : s₂.proc = update s.proc np ⟨.used, none, none, 0⟩ := by rw [hothers₂.proc, hs₁]
    rw [hproc₂, update_self, update_idem]
    cases o with
    | none =>
      refine hfreed ⟨.used, none, none, 0⟩ _ ?_ rfl haround₂.pipes
      refine h.change rfl ?_ (haround₂.setProc _) (Nat.zero_le _) fun _ hr => (by cases hr)
      have hown₂ := hrefused rfl
      rw [target_none, zero_add, zero_add]
      exact ⟨hown₂.eq, hown₂.inner⟩
    | some tf =>
      have hown₂ := hsome tf rfl
      obtain ⟨s₃, hs₃⟩ : ∃ s₃ : State, s₃ = { s₂ with
        proc := update s.proc np ⟨.used, none, some tf, 0⟩ } := ⟨_, rfl⟩
      rw [← hs₃]
      have haround₃ : Around L (otherRoots s np) s s₃ := hs₃ ▸ haround₂.setProc _
      have hown₃ : Own L s₃ (otherRoots s np) (target (some tf) + otherFrames s np + s.pipes + y) := by
        rw [target_some, Multiset.singleton_add, Multiset.cons_add, Multiset.cons_add, hs₃]
        exact ⟨hown₂.eq, hown₂.inner⟩
      have htf₃ : Trapframes s₃ (target (some tf) + otherFrames s np + s.pipes + y) := by
        have hframes : frames s₃ = target (some tf) + otherFrames s np :=
          frames_update np ⟨.used, none, some tf, 0⟩ (by rw [hs₃])
        rw [← hframes]
        exact trapframes_frames
      simp only [wp_bind, wp_modify]
      refine wp_call (procPagetable_spec hown₃ htf₃) ?_
      rintro o s₄ ⟨hothers₄, -, hrefused₄, hsome₄⟩
      have haround₄ := haround₃.trans (.of_others hothers₄)
      have hproc₄ : s₄.proc = update s.proc np ⟨.used, none, some tf, 0⟩ := by rw [hothers₄.proc, hs₃]
      rw [hproc₄, update_self, update_idem]
      cases o with
      | none =>
        refine hfreed ⟨.used, none, some tf, 0⟩ _ ?_ rfl haround₄.pipes
        refine h.change rfl ?_ (haround₄.setProc _) (Nat.zero_le _) fun _ hr => (by cases hr)
        have hown₄ := hrefused₄ rfl
        rw [target_none, zero_add]
        exact ⟨hown₄.eq, hown₄.inner⟩
      | some r =>
        obtain ⟨hown₄, hbare⟩ := hsome₄ r rfl
        refine ⟨h.change rfl ?_ (haround₄.setProc _) (Nat.zero_le _) ?_, haround₄.pipes,
          fun ho => (by cases ho), ?_⟩
        · rw [target_some, Multiset.singleton_add]
          exact ⟨hown₄.eq, hown₄.inner⟩
        · rintro _ ⟨⟩
          dsimp only
          rw [hbare]
          exact bounded_bare
        · rintro _ ⟨⟩
          exact ⟨hunused, r, tf, rfl, hbare⟩

lemma wrap_of_nonneg {z : ℤ} (h0 : 0 ≤ z) (h : z < 2 ^ 64) : wrap z = z.toNat := by
  rw [wrap, Int.emod_eq_of_lt h0 h]

lemma Bounded.grown {m m' : ℕ → Option Word} {n n' : ℕ} {flags : BitVec 10} (h : Bounded m n)
    (hn : n ≤ n') (hgrown : Grown m m' n n' flags) : Bounded m' n' := by
  intro v hv htrap htramp
  rw [hgrown.old v (by omega)]
  exact h v (hn.trans hv) htrap htramp

lemma Bounded.clear {m : ℕ → Option Word} {n n' : ℕ} (h : Bounded m n) :
    Bounded (clear m n' (n - n')) (min n n') := by
  intro v hv htrap htramp
  unfold Vm.clear
  split_ifs with hclear
  · rfl
  · exact h v (by omega) htrap htramp

lemma npages_min (a b : ℕ) : npages (min a b) = min (npages a) (npages b) := by
  obtain h | h := le_total a b
  · rw [min_eq_left h, min_eq_left (npages_mono h)]
  · rw [min_eq_right h, min_eq_right (npages_mono h)]

/-- What `sbrk` does to the processes: it sets a size. -/
structure Resized (L : Layout) (y : Multiset ℕ) (p : Pid) (s s' : State) : Prop where
  inv : MemInv L y s'
  proc : ∃ sz, s'.proc = update s.proc p { s.proc p with sz := sz }
  pipes : s'.pipes = s.pipes

lemma Resized.of_steady (h : Steady L y s s') : Resized L y p s s' :=
  ⟨h.inv, ⟨(s.proc p).sz, by rw [h.proc]; exact (update_eq_self ..).symm⟩, h.pipes⟩

theorem growproc_spec {n : ℤ} (h : MemInv L y s) (hr : (s.proc p).pagetable = some r)
    (hn : -2 ^ 31 ≤ n ∧ n < 2 ^ 31) (hfits : 0 < n → (s.proc p).sz + n ≤ TRAPFRAME) :
    wp (growproc L p n) s (fun _ => Resized L y p s) fun _ => False := by
  have hsz := h.sz p
  have hbound := h.bound p r hr
  unfold growproc
  rw [wp_bind, wp_get]
  dsimp only
  rw [hr]
  dsimp only
  rw [wp_ite]
  split_ifs with hpos hneg
  · have hnew : wrap ((s.proc p).sz + n) = (s.proc p).sz + n.toNat := by
      have := hfits hpos
      unfold TRAPFRAME TRAMPOLINE MAXVA PGSIZE at this
      rw [wrap_of_nonneg (by omega) (by omega)]
      omega
    have hfits' : (s.proc p).sz + n.toNat ≤ TRAPFRAME := by
      have := hfits hpos
      omega
    rw [hnew, wp_bind]
    refine wp_call (uvmalloc_spec (h.own_cons hr) trapframes_frames hsz hbound (.inl hfits')) ?_
    rintro sz s₁ ⟨⟨rfl, hkept, -⟩ | ⟨hsz₁, hle, ⟨m, hgrown, hs₁⟩, -⟩, -⟩
    · exact .of_steady ⟨h.becomes_same hr hkept hbound, hkept.others.proc, hkept.others.pipes⟩
    · have hmax : (s.proc p).sz ≤ sz := by omega
      rw [wp_ite, if_neg (by omega)]
      have hinv := h.becomes hr hs₁ (hbound.grown (npages_mono hmax) hgrown) hle
      simp only [modifyProc, wp_bind, wp_modify]
      rw [hs₁.others.proc] at hinv ⊢
      exact ⟨hinv, ⟨sz, rfl⟩, hs₁.others.pipes⟩
  · rw [wp_bind]
    refine wp_call (uvmdealloc_spec (h.own_cons hr) trapframes_frames hsz) ?_
    rintro sz s₁ ⟨rfl, ⟨hs₁, -, -⟩, -⟩
    have hinv := h.becomes hr hs₁ (npages_min .. ▸ hbound.clear) ((min_le_left ..).trans hsz)
    simp only [modifyProc, wp_bind, wp_modify]
    rw [hs₁.others.proc] at hinv ⊢
    exact ⟨hinv, ⟨_, rfl⟩, hs₁.others.pipes⟩
  · exact .of_steady (.refl h)

theorem sysSbrk_spec {n t : ℤ} (h : MemInv L y s) (hr : (s.proc p).pagetable = some r)
    (hn : -2 ^ 31 ≤ n ∧ n < 2 ^ 31) (hfits : 0 < n → (s.proc p).sz + n ≤ TRAPFRAME) :
    wp (sysSbrk L p n t) s (fun _ => Resized L y p s) fun _ => False := by
  unfold sysSbrk
  rw [wp_ite]
  split_ifs with hgrow
  · rw [wp_bind]
    exact wp_call (growproc_spec h hr hn hfits) fun _ _ hs' => hs'
  · rw [wp_bind, wp_get, wp_ite]
    split_ifs with hwrap
    · exact .of_steady (.refl h)
    · have hsz := h.sz p
      have hnonneg : 0 ≤ n := by omega
      have hfits' : (s.proc p).sz + n.toNat ≤ TRAPFRAME := by
        obtain rfl | hpos := hnonneg.eq_or_lt
        · simpa using hsz
        · have := hfits hpos
          omega
      have hnew : wrap ((s.proc p).sz + n) = (s.proc p).sz + n.toNat := by
        unfold TRAPFRAME TRAMPOLINE MAXVA PGSIZE at hfits'
        rw [wrap_of_nonneg (by omega) (by omega)]
        omega
      have hkept : Kept (.user L) r (otherRoots s p) (frames s + s.pipes + y) s s :=
        ⟨h.own_cons hr, rfl, .refl⟩
      have hinv := h.becomes hr hkept ((h.bound p r hr).mono (npages_mono (Nat.le_add_right ..))) hfits'
      simp only [modifyProc, wp_modify]
      rw [hnew]
      exact ⟨hinv, ⟨_, rfl⟩, rfl⟩

/-- What holds between the operations. -/
structure Inv (L : Layout) (y : Multiset ℕ) (s : State) : Prop where
  mem : MemInv L y s
  shape : Shape s

lemma Shape.update {pr : Proc} (h : Shape s) (hproc : s'.proc = update s.proc p pr)
    (hunused : pr.state = .unused → pr = noProc)
    (hused : pr.state ≠ .unused → ∃ r tf, pr.pagetable = some r ∧ pr.trapframe = some tf) :
    Shape s' := by
  intro p'
  rw [hproc]
  by_cases hp : p' = p
  · rw [hp, update_self]
    exact ⟨hunused, hused⟩
  · rw [update_of_ne hp]
    exact h p'

lemma Shape.free (h : Shape s) (hproc : s'.proc = Function.update s.proc p noProc) : Shape s' :=
  h.update hproc (fun _ => rfl) fun hne => absurd rfl hne

lemma Shape.of_proc (h : Shape s) (hproc : s'.proc = s.proc) : Shape s' := by
  unfold Shape
  rw [hproc]
  exact h

lemma Inv.of_steady (h : Inv L y s) (hs' : Steady L y s s') : Inv L y s' :=
  ⟨hs'.inv, h.shape.of_proc hs'.proc⟩

lemma Inv.of_resized (h : Inv L y s) (hused : (s.proc p).state = .used) (hs' : Resized L y p s s') :
    Inv L y s' := by
  obtain ⟨sz, hproc⟩ := hs'.proc
  have hne : (s.proc p).state ≠ .unused := by
    rw [hused]
    exact ProcState.noConfusion
  exact ⟨hs'.inv, h.shape.update hproc (fun hunused => absurd hunused hne) fun _ => (h.shape p).2 hne⟩

theorem kfork_spec (h : Inv L y s) (hused : (s.proc p).state = .used) :
    wp (kfork L p) s (fun _ s' => Inv L y s' ∧ s'.pipes = s.pipes) fun _ => False := by
  obtain ⟨old, tf, hold, -⟩ := (h.shape p).2 (by rw [hused]; exact ProcState.noConfusion)
  unfold kfork
  simp only [wp_bind, wp_get]
  refine wp_call (allocproc_spec h.mem h.shape) ?_
  rintro o s₁ ⟨hmem₁, hpipes₁, hnone, hsome⟩
  cases o with
  | none => exact ⟨⟨hmem₁, h.shape.of_proc (hnone rfl)⟩, hpipes₁⟩
  | some np =>
    obtain ⟨hunused, r, tf', hproc, hbare⟩ := hsome np rfl
    have hne : p ≠ np := by
      rintro rfl
      rw [hused] at hunused
      cases hunused
    have hr : (s₁.proc np).pagetable = some r := by rw [hproc, update_self]
    have hold₁ : old ∈ otherRoots s₁ np :=
      mem_otherRoots hne (by rw [hproc, update_of_ne hne]; exact hold)
    have hempty (v : ℕ) (hv : v < trapVpn) : lookup s₁.mem r v = none := by
      have htramp : trapVpn < trampVpn := by decide
      rw [hbare, bare, update_of_ne (by omega), update_of_ne (by omega)]
    simp only [wp_bind, wp_get]
    rw [hold, hr]
    dsimp only
    rw [wp_bind]
    refine wp_call (uvmcopy_spec (hmem₁.own_cons hr) hold₁ trapframes_frames hempty (h.mem.sz p)) ?_
    rintro ok s₂ ⟨hdone, hkept⟩
    cases ok with
    | true =>
      obtain ⟨hown, hothers, hcopied⟩ := hdone rfl
      have hbound : Bounded (lookup s₂.mem r) (npages (s.proc p).sz) := by
        intro v hv
        rw [hcopied.rest v hv, hbare]
        exact bounded_bare v hv
      have hmem₂ := hmem₁.becomes hr ⟨hown, rfl, hothers⟩ hbound (h.mem.sz p)
      rw [if_pos rfl, modifyProc, wp_modify]
      rw [hothers.proc] at hmem₂ ⊢
      refine ⟨⟨hmem₂, ?_⟩, hothers.pipes.trans hpipes₁⟩
      have hproc₂ : update s₁.proc np { s₁.proc np with sz := (s.proc p).sz } =
          update s.proc np ⟨.used, some r, some tf', (s.proc p).sz⟩ := by
        rw [hproc, update_self, update_idem]
      exact h.shape.update hproc₂ (fun hstate => (by cases hstate)) fun _ => ⟨r, tf', rfl, rfl⟩
    | false =>
      have hkept := hkept rfl
      have hbound : Bounded (lookup s₁.mem r) (npages (s₁.proc np).sz) := hmem₁.bound np r hr
      have hmem₂ := hmem₁.becomes_same hr hkept hbound
      rw [if_neg Bool.false_ne_true]
      refine wp_call (freeproc_spec hmem₂) ?_
      rintro _ s₃ ⟨hmem₃, hproc₃, haround⟩
      refine ⟨⟨hmem₃, h.shape.free (p := np) ?_⟩, (haround.pipes.trans hkept.others.pipes).trans hpipes₁⟩
      rw [hproc₃, hkept.others.proc, hproc, update_idem]

theorem kwait_spec {child : Pid} {addr : ℕ} (h : Inv L y s) (hused : (s.proc p).state = .used) :
    wp (kwait L p child addr) s (fun _ s' => Inv L y s' ∧ s'.pipes = s.pipes) fun _ => False := by
  obtain ⟨r, tf, hr, -⟩ := (h.shape p).2 (by rw [hused]; exact ProcState.noConfusion)
  have hfree (s₁ : State) (copied : Bool) (hs₁ : Steady L y s s₁) :
      wp (if copied then freeproc L child else pure ()) s₁
        (fun _ s' => Inv L y s' ∧ s'.pipes = s.pipes) fun _ => False := by
    rw [wp_ite]
    split_ifs
    · refine wp_call (freeproc_spec hs₁.inv) ?_
      rintro _ s₂ ⟨hmem, hproc, haround⟩
      exact ⟨⟨hmem, (h.of_steady hs₁).shape.free hproc⟩, haround.pipes.trans hs₁.pipes⟩
    · exact ⟨h.of_steady hs₁, hs₁.pipes⟩
  unfold kwait
  rw [wp_bind, wp_get, hr]
  dsimp only
  rw [wp_ite]
  split_ifs
  · exact hfree s true (.refl h.mem)
  · rw [wp_bind]
    exact wp_call (copyout_spec h.mem hr) fun copied s₁ hs₁ => hfree s₁ copied hs₁

end Xv6.Vm
