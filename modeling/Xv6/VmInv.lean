import Xv6.VmCopy
import Xv6.References

/-!
# The memory of all processes

The page tables of the processes, their trapframes, the pipes and what else is held
account for all pages, and the user pages of a process are below its size. Every
function keeps this.
-/
namespace Xv6.Vm

open Function Prog References

variable {L : Layout} {s s' : State} {y : Multiset ℕ} {m : ℕ → Option Word} {p : Pid}
  {r sz va : ℕ}

/-- The page tables of the processes. -/
def roots (s : State) : Multiset ℕ := targets (Proc.pagetable ∘ s.proc)

/-- The trapframes of the processes. -/
def frames (s : State) : Multiset ℕ := targets (Proc.trapframe ∘ s.proc)

def otherRoots (s : State) (p : Pid) : Multiset ℕ :=
  targets (update (Proc.pagetable ∘ s.proc) p none)

def otherFrames (s : State) (p : Pid) : Multiset ℕ :=
  targets (update (Proc.trapframe ∘ s.proc) p none)

lemma roots_eq (s : State) (p : Pid) :
    roots s = target (s.proc p).pagetable + otherRoots s p := targets_eq _ p

lemma frames_eq (s : State) (p : Pid) :
    frames s = target (s.proc p).trapframe + otherFrames s p := targets_eq _ p

lemma roots_of_some (hr : (s.proc p).pagetable = some r) : roots s = r ::ₘ otherRoots s p := by
  rw [roots_eq s p, hr]
  rfl

lemma roots_update (p : Pid) (pr : Proc) (h : s'.proc = update s.proc p pr) :
    roots s' = target pr.pagetable + otherRoots s p := by
  rw [roots, h, comp_update, targets_update_eq]
  rfl

lemma frames_update (p : Pid) (pr : Proc) (h : s'.proc = update s.proc p pr) :
    frames s' = target pr.trapframe + otherFrames s p := by
  rw [frames, h, comp_update, targets_update_eq]
  rfl

lemma mem_otherRoots {p' : Pid} (hp : p' ≠ p) (hr : (s.proc p').pagetable = some r) :
    r ∈ otherRoots s p :=
  mem_targets_iff.mpr ⟨p', by rw [update_of_ne hp]; exact hr⟩

lemma trapframes_frames {x : Multiset ℕ} : Trapframes s (frames s + x + y) := by
  intro p tf hp
  refine Multiset.mem_add.mpr (.inl (Multiset.mem_add.mpr (.inl ?_)))
  exact mem_targets_iff.mpr ⟨p, hp⟩

/-- What a function leaves as it is, apart from the processes. -/
def Around (L : Layout) (R : Multiset ℕ) (s s' : State) : Prop :=
  Others (.user L) R s { s' with proc := s.proc }

namespace Around

variable {R x : Multiset ℕ} {s'' : State}

lemma of_others (h : Others (.user L) R s s') : Around L R s s' :=
  ⟨h.pages, rfl, h.pipes, h.events⟩

lemma refl : Around L R s s := of_others .refl

lemma others (h : Around L R s s') : Others (.user L) R s { s' with proc := s.proc } := h

lemma lookup (h : Around L R s s') (hr : r ∈ R) : Vm.lookup s'.mem r = Vm.lookup s.mem r :=
  h.others.lookup hr

lemma pipes (h : Around L R s s') : s'.pipes = s.pipes := h.others.pipes

lemma events (h : Around L R s s') : ∀ e ∈ s'.events, e ∈ s.events ∨ e.Harmless := h.others.events

lemma trans (h : Around L R s s') (h' : Around L R s' s'') : Around L R s s'' :=
  h.others.trans ⟨h'.others.pages, rfl, h'.pipes, h'.events⟩

lemma setProc (h : Around L R s s') (f : Pid → Proc) : Around L R s { s' with proc := f } := h

end Around

/-- All pages are accounted for; the user pages of a process are below its size, which
is below the trapframe. -/
structure MemInv (L : Layout) (y : Multiset ℕ) (s : State) : Prop where
  own : Own L s (roots s) (frames s + s.pipes + y)
  sz : ∀ p, (s.proc p).sz ≤ TRAPFRAME
  bound : ∀ p r, (s.proc p).pagetable = some r → Bounded (lookup s.mem r) (npages (s.proc p).sz)
  events : ∀ e ∈ s.events, e.Harmless

namespace MemInv

lemma own_cons (h : MemInv L y s) (hr : (s.proc p).pagetable = some r) :
    Own L s (r ::ₘ otherRoots s p) (frames s + s.pipes + y) :=
  roots_of_some hr ▸ h.own

/-- A process gets new memory, and the others keep theirs. -/
theorem change {pr : Proc} (h : MemInv L y s) (hproc : s'.proc = update s.proc p pr)
    (hown : Own L s' (target pr.pagetable + otherRoots s p)
      (target pr.trapframe + otherFrames s p + s.pipes + y))
    (haround : Around L (otherRoots s p) s s') (hsz : pr.sz ≤ TRAPFRAME)
    (hbound : ∀ r, pr.pagetable = some r → Bounded (lookup s'.mem r) (npages pr.sz)) :
    MemInv L y s' := by
  refine ⟨?_, fun p' => ?_, fun p' r' hr' => ?_, fun e he => ?_⟩
  · rw [roots_update p pr hproc, frames_update p pr hproc, haround.pipes]
    exact hown
  · rw [hproc]
    by_cases hp : p' = p
    · rw [hp, update_self]
      exact hsz
    · rw [update_of_ne hp]
      exact h.sz p'
  · rw [hproc] at hr' ⊢
    by_cases hp : p' = p
    · rw [hp, update_self] at hr' ⊢
      exact hbound r' hr'
    · rw [update_of_ne hp] at hr' ⊢
      rw [haround.lookup (mem_otherRoots hp hr')]
      exact h.bound p' r' hr'
  · exact (haround.events e he).elim (h.events e) id

theorem becomes (h : MemInv L y s) (hr : (s.proc p).pagetable = some r)
    (hs' : Becomes (.user L) r (otherRoots s p) (frames s + s.pipes + y) m s s')
    (hm : Bounded m (npages sz)) (hsz : sz ≤ TRAPFRAME) :
    MemInv L y { s' with proc := update s'.proc p { s.proc p with sz := sz } } := by
  have hproc := hs'.others.proc
  have hproc' : ({ s' with proc := update s'.proc p { s.proc p with sz := sz } } : State).proc =
      update s.proc p { s.proc p with sz := sz } := by rw [hproc]
  refine h.change hproc' ?_ ?_ hsz ?_
  · dsimp only
    rw [hr, ← frames_eq]
    exact ⟨hs'.own.eq, hs'.own.inner⟩
  · exact (Around.of_others hs'.others).setProc _
  · intro r' hr'
    obtain rfl := Option.some.inj (hr.symm.trans hr')
    dsimp only
    rw [hs'.lookup]
    exact hm

theorem becomes_same (h : MemInv L y s) (hr : (s.proc p).pagetable = some r)
    (hs' : Becomes (.user L) r (otherRoots s p) (frames s + s.pipes + y) m s s')
    (hm : Bounded m (npages (s.proc p).sz)) : MemInv L y s' := by
  have hself : update s'.proc p { s.proc p with sz := (s.proc p).sz } = s'.proc := by
    rw [hs'.others.proc]
    exact update_eq_self ..
  have := h.becomes hr hs' hm (h.sz p)
  rwa [hself] at this

end MemInv

/-- A function keeps the processes and the pipes. -/
structure Steady (L : Layout) (y : Multiset ℕ) (s s' : State) : Prop where
  inv : MemInv L y s'
  proc : s'.proc = s.proc
  pipes : s'.pipes = s.pipes

lemma Steady.refl (h : MemInv L y s) : Steady L y s s := ⟨h, rfl, rfl⟩

lemma Steady.trans {s'' : State} (h : Steady L y s s') (h' : Steady L y s' s'') : Steady L y s s'' :=
  ⟨h'.inv, h'.proc.trans h.proc, h'.pipes.trans h.pipes⟩

variable {E : Panic → Prop}

lemma wp_ismapped {v : ℕ} {Q : Bool → State → Prop} (hv : v ≤ trampVpn) :
    wp (ismapped r (v * PGSIZE)) s Q E ↔ Q (lookup s.mem r v).isSome s := by
  unfold ismapped
  rw [wp_bind, wp_walk_false (mul_PGSIZE_lt_MAXVA hv), mul_div_PGSIZE]
  cases hq : leafTable s.mem r v with
  | none =>
    rw [lookup_eq_none_of_leafTable hq]
    rfl
  | some q =>
    rw [lookup_of_leafTable (lt_NVPN hv) hq, Option.map_some]
    simp only [wp_bind, wp_get, px_mul]
    cases Pte.valid (s.mem q (index 0 v)) <;> rfl

lemma Bounded.update {n v : ℕ} {o : Option Word} (h : Bounded m n) (hv : v < n) :
    Bounded (update m v o) n := by
  intro w hw htrap htramp
  rw [update_of_ne (by omega)]
  exact h w hw htrap htramp

lemma faultFlags_eq : PTE_W ||| PTE_U ||| PTE_R ||| PTE_V = growFlags := by decide

/-- What an allocation of a page by `vmfault` leaves. -/
structure FaultedIn (L : Layout) (p : Pid) (r : ℕ) (R x : Multiset ℕ) (v pa : ℕ) (s s' : State) :
    Prop where
  below : v * PGSIZE < (s.proc p).sz
  free : lookup s.mem r v = none
  becomes : Becomes (.user L) r R x (update (lookup s.mem r) v (some (Pte.mk pa growFlags))) s s'
  ppn : Pte.ppn (Pte.mk pa growFlags) = pa
  zero : s'.mem pa = fun _ => 0
  stays : Stays (· ≠ v) r s s'
  quiet : Quiet r s s'

/-- What it leaves when it fails. -/
structure NotFaulted (L : Layout) (r : ℕ) (R x : Multiset ℕ) (s s' : State) : Prop where
  kept : Kept (.user L) r R x s s'
  stays : Stays (fun _ => True) r s s'
  quiet : Quiet r s s'

lemma NotFaulted.refl (h : Own L s (r ::ₘ R) x) : NotFaulted L r R x s s :=
  ⟨⟨h, rfl, .refl⟩, .refl, fun _ _ _ => rfl⟩

/-- The two results of `vmfault`. -/
def FaultResult (L : Layout) (p : Pid) (r : ℕ) (R x : Multiset ℕ) (v : ℕ) (s : State) :
    Option ℕ → State → Prop
  | none, s' => NotFaulted L r R x s s'
  | some pa, s' => FaultedIn L p r R x v pa s s'

/-- `vmfault` allocates a zeroed page, or leaves the memory of the user as it was. -/
theorem vmfault_contents (h : MemInv L y s) (hr : (s.proc p).pagetable = some r) :
    wp (vmfault L p r va) s
      (FaultResult L p r (otherRoots s p) (frames s + s.pipes + y) (va / PGSIZE) s) fun _ => False := by
  have hown := h.own_cons hr
  unfold vmfault
  rw [wp_bind, wp_get, wp_ite]
  split_ifs with hva
  · exact NotFaulted.refl hown
  have hlt : va / PGSIZE < trapVpn := (div_lt_npages (not_le.mp hva)).trans_le (npages_le (h.sz p))
  rw [pgrounddown, wp_bind, wp_ismapped (hlt.le.trans (by decide)), wp_ite]
  split_ifs with hmapped
  · exact NotFaulted.refl hown
  have hnone : lookup s.mem r (va / PGSIZE) = none := by simpa using hmapped
  rw [hr]
  refine wp_mapFilled (fun _ => rfl) (fun _ _ _ h => memset_fills h 0) hown hlt hnone ?_ ?_
  · exact fun s' hs' hquiet =>
      NotFaulted.mk hs' (.of_quiet hown hquiet fun v _ _ => by rw [hs'.lookup]) hquiet
  · intro mem s' hs' hppn hzero hquiet
    rw [faultFlags_eq] at hs' hppn
    exact FaultedIn.mk ((Nat.div_mul_le_self ..).trans_lt (not_le.mp hva)) hnone hs' hppn hzero
      (.of_quiet hown hquiet fun v hv _ => by rw [hs'.lookup, update_of_ne hv]) hquiet

theorem vmfault_spec (h : MemInv L y s) (hr : (s.proc p).pagetable = some r) :
    wp (vmfault L p r va) s (fun o s' => Steady L y s s' ∧
      (o ≠ none → lookup s'.mem r (va / PGSIZE) ≠ none)) fun _ => False := by
  have hbound := h.bound p r hr
  refine wp_call (vmfault_contents h hr) ?_
  rintro (_ | pa) s' hs'
  · have hkept := NotFaulted.kept hs'
    exact ⟨⟨h.becomes_same hr hkept hbound, hkept.others.proc, hkept.others.pipes⟩,
      fun ho => absurd rfl ho⟩
  · have hv := div_lt_npages (FaultedIn.below hs')
    have hdone := FaultedIn.becomes hs'
    rw [mul_div_PGSIZE] at hv
    refine ⟨⟨h.becomes_same hr hdone (hbound.update hv), hdone.others.proc, hdone.others.pipes⟩,
      fun _ => ?_⟩
    rw [hdone.lookup, update_self]
    exact Option.some_ne_none _

theorem wp_walkaddr_of_lt {va : ℕ} {Q : Option ℕ → State → Prop} (hva : va < MAXVA) :
    wp (walkaddr r va) s Q E ↔ Q ((lookup s.mem r (va / PGSIZE)).bind fun e =>
      if Pte.user e then some (Pte.ppn e) else none) s := by
  have hv : va / PGSIZE < NVPN := by
    unfold MAXVA at hva
    unfold PGSIZE NVPN
    omega
  unfold walkaddr
  rw [wp_ite, if_neg (not_le.mpr hva), wp_bind, wp_walk_false hva]
  cases hq : leafTable s.mem r (va / PGSIZE) with
  | none =>
    rw [lookup_eq_none_of_leafTable hq]
    rfl
  | some q =>
    rw [lookup_of_leafTable hv hq, Option.map_some]
    simp only [wp_bind, wp_get, px_eq_index]
    by_cases hvalid : Pte.valid (s.mem q (index 0 (va / PGSIZE))) = true
    · by_cases huser : Pte.user (s.mem q (index 0 (va / PGSIZE))) = true <;> simp [hvalid, huser]
    · simp [hvalid]

lemma wp_walkaddr {v : ℕ} {Q : Option ℕ → State → Prop} (hv : v ≤ trampVpn) :
    wp (walkaddr r (v * PGSIZE)) s Q E ↔
      Q ((lookup s.mem r v).bind fun e => if Pte.user e then some (Pte.ppn e) else none) s := by
  rw [wp_walkaddr_of_lt (mul_PGSIZE_lt_MAXVA hv), mul_div_PGSIZE]

lemma le_trampVpn_of_lt {v : ℕ} (h : v * PGSIZE < MAXVA) : v ≤ trampVpn := by
  unfold PGSIZE MAXVA at h
  unfold trampVpn
  omega

theorem copyout_spec {fuel dstva len : ℕ} (h : MemInv L y s) (hr : (s.proc p).pagetable = some r) :
    wp (copyout L p r fuel dstva len) s (fun _ s' => Steady L y s s') fun _ => False := by
  induction fuel generalizing s dstva len with
  | zero => exact .refl h
  | succ fuel ih =>
    rw [copyout, wp_ite]
    split_ifs with hlen
    · exact .refl h
    dsimp only
    rw [pgrounddown, wp_ite]
    split_ifs with hva
    · exact .refl h
    have hv := le_trampVpn_of_lt (not_le.mp hva)
    -- once the page is mapped its entry is found
    have hcopy (s₁ : State) (hs₁ : Steady L y s s₁) (hmapped : lookup s₁.mem r (dstva / PGSIZE) ≠ none)
        (m : Option (ℕ × Fin 512) → VM Bool) (hm : ∀ q k, m (some (q, k)) = do
          if Pte.writable ((← get).mem q k) = false then
            return false
          else
            copyout L p r fuel (dstva / PGSIZE * PGSIZE + PGSIZE)
              (len - min (PGSIZE - (dstva - dstva / PGSIZE * PGSIZE)) len)) :
        wp (walk r (dstva / PGSIZE * PGSIZE) false >>= m) s₁ (fun _ s' => Steady L y s s')
          fun _ => False := by
      rw [wp_bind, wp_walk_false (mul_PGSIZE_lt_MAXVA hv), mul_div_PGSIZE]
      cases hq : leafTable s₁.mem r (dstva / PGSIZE) with
      | none => exact absurd (lookup_eq_none_of_leafTable hq) hmapped
      | some q =>
        simp only [Option.map_some, hm, wp_bind, wp_get, wp_ite]
        split_ifs
        · exact hs₁
        · exact wp_call (ih hs₁.inv (by rw [hs₁.proc, hr])) fun _ _ hs' => hs₁.trans hs'
    rw [wp_bind, wp_walkaddr hv]
    cases he : (lookup s.mem r (dstva / PGSIZE)).bind
        fun e => if Pte.user e then some (Pte.ppn e) else none with
    | some pa =>
      have hmapped : lookup s.mem r (dstva / PGSIZE) ≠ none := by
        intro hnone
        rw [hnone] at he
        cases he
      rw [wp_bind, wp_pure]
      refine hcopy s (.refl h) hmapped _ ?_
      exact fun _ _ => rfl
    | none =>
      dsimp only
      rw [wp_bind]
      refine wp_call (vmfault_spec h hr) ?_
      rintro o s₁ ⟨hs₁, hmapped⟩
      rw [mul_div_PGSIZE] at hmapped
      cases o with
      | none => exact hs₁
      | some pa =>
        refine hcopy s₁ hs₁ (hmapped (Option.some_ne_none pa)) _ ?_
        exact fun _ _ => rfl

theorem copyin_spec {fuel srcva len : ℕ} (h : MemInv L y s) (hr : (s.proc p).pagetable = some r) :
    wp (copyin L p r fuel srcva len) s (fun _ s' => Steady L y s s') fun _ => False := by
  induction fuel generalizing s srcva len with
  | zero => exact .refl h
  | succ fuel ih =>
    rw [copyin, wp_ite]
    split_ifs with hlen
    · exact .refl h
    dsimp only
    have hwalk : wp (walkaddr r (pgrounddown srcva)) s (fun _ s' => s' = s) fun _ => False := by
      rw [pgrounddown]
      by_cases hva : srcva / PGSIZE * PGSIZE < MAXVA
      · rw [wp_walkaddr (le_trampVpn_of_lt hva)]
      · rw [walkaddr, wp_ite, if_pos (not_lt.mp hva)]
        rfl
    rw [wp_bind]
    refine wp_call hwalk ?_
    rintro o _ rfl
    cases o with
    | some pa => exact ih h hr
    | none =>
      dsimp only
      rw [wp_bind]
      refine wp_call (vmfault_spec h hr) ?_
      rintro o s₁ ⟨hs₁, -⟩
      cases o with
      | none => exact hs₁
      | some pa => exact wp_call (ih hs₁.inv (by rw [hs₁.proc, hr])) fun _ _ hs' => hs₁.trans hs'

theorem fetchaddr_spec {addr : ℕ} (h : MemInv L y s) (hr : (s.proc p).pagetable = some r) :
    wp (fetchaddr L p addr) s (fun _ s' => Steady L y s s') fun _ => False := by
  unfold fetchaddr
  rw [wp_bind, wp_get, wp_ite]
  split_ifs
  · exact .refl h
  · rw [hr]
    exact copyin_spec h hr

end Xv6.Vm
