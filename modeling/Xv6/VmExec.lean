import Xv6.VmProcOps

/-!
# `exec` keeps the account of all pages

While a program is loaded its page table belongs to no process yet. All its pages are
mapped, so memory runs out before they reach the trapframe.
-/
namespace Xv6.Vm

open Function Prog References

variable {L : Layout} {s s' s₀ : State} {y R x : Multiset ℕ} {p : Pid} {r sz v w : ℕ}

/-- A page table `r` that belongs to no process, with entries below `sz`. -/
structure Built (L : Layout) (y : Multiset ℕ) (s₀ : State) (r sz : ℕ) (s : State) : Prop where
  own : Own L s (r ::ₘ roots s₀) (frames s₀ + s₀.pipes + y)
  others : Others (.user L) (roots s₀) s₀ s
  le : sz ≤ TRAPFRAME
  bound : Bounded (lookup s.mem r) (npages sz)

lemma Built.trapframes (h : Built L y s₀ r sz s) : Trapframes s (frames s₀ + s₀.pipes + y) :=
  trapframes_frames.of_others h.others

lemma Built.kept (h : Built L y s₀ r sz s)
    (hs' : Kept (.user L) r (roots s₀) (frames s₀ + s₀.pipes + y) s s') : Built L y s₀ r sz s' :=
  ⟨hs'.own, h.others.trans hs'.others, h.le, hs'.lookup ▸ h.bound⟩

def Reach (m : ℕ → Option Word) (v : ℕ) : Prop := ∃ e, m v = some e ∧ Pte.user e = true

/-- All pages below `sz` are mapped, and what the kernel holds is as in `s₀`. -/
structure Loading (L : Layout) (y : Multiset ℕ) (s₀ : State) (r sz : ℕ) (s : State) : Prop where
  built : Built L y s₀ r sz s
  untouched : Untouched (frames s₀ + s₀.pipes + y) s₀ s
  reach : ∀ v < npages sz, Reach (lookup s.mem r) v

lemma Loading.kept (h : Loading L y s₀ r sz s)
    (hs' : Kept (.user L) r (roots s₀) (frames s₀ + s₀.pipes + y) s s')
    (hsame : Untouched (frames s₀ + s₀.pipes + y) s s') : Loading L y s₀ r sz s' :=
  ⟨h.built.kept hs', h.untouched.trans hsame, hs'.lookup ▸ h.reach⟩

lemma Loading.ne_none (h : Loading L y s₀ r sz s) : ∀ v < npages sz, lookup s.mem r v ≠ none := by
  intro v hv
  obtain ⟨e, he, -⟩ := h.reach v hv
  rw [he]
  exact Option.some_ne_none e

lemma user_mk (pa : ℕ) (xperm : BitVec 10) : Pte.user (Pte.mk pa (userFlags xperm)) = true := by
  rw [Pte.user, Pte.getLsbD_mk, if_pos (by decide), BitVec.getLsbD_or, BitVec.getLsbD_or,
    show (PTE_R ||| PTE_U).getLsbD 4 = true from rfl, Bool.true_or, Bool.true_or]

/-- A larger part of the program gets its memory, or nothing changes. -/
theorem Loading.uvmalloc {newsz : ℕ} {xperm : BitVec 10} (h : Loading L y s₀ r sz s) :
    wp (uvmalloc L r sz newsz xperm) s (fun sz' s' => (sz' = 0 ∧ Loading L y s₀ r sz s') ∨
      (sz' = max sz newsz ∧ Loading L y s₀ r sz' s' ∧
        Enlarged r (npages sz) (npages sz') (userFlags xperm) s s')) fun _ => False := by
  have hb := h.built
  refine wp_call (uvmalloc_spec hb.own hb.trapframes hb.le hb.bound (.inr h.ne_none)) ?_
  rintro sz' s' ⟨⟨rfl, hkept, -⟩ | ⟨hsz', hle, ⟨m, hgrown, hs'⟩, henl⟩, hsame⟩
  · exact .inl ⟨rfl, h.kept hkept hsame⟩
  · have hmono := npages_mono (hsz' ▸ le_max_left sz newsz : sz ≤ sz')
    refine .inr ⟨hsz', ⟨⟨hs'.own, hb.others.trans hs'.others, hle, ?_⟩, h.untouched.trans hsame,
      fun v hv => ?_⟩, henl⟩
    · rw [hs'.lookup]
      exact hb.bound.grown hmono hgrown
    · rw [hs'.lookup, Reach]
      by_cases hnew : npages sz ≤ v
      · obtain ⟨pa, hpa⟩ := hgrown.new v hnew hv
        exact ⟨_, hpa, user_mk ..⟩
      · rw [hgrown.old v (by omega)]
        exact h.reach v (by omega)

lemma wp_walkaddr_of_reach {Q : Option ℕ → State → Prop} {E : Panic → Prop} (hv : v ≤ trampVpn)
    (h : Reach (lookup s.mem r) v) (hQ : ∀ pa, Q (some pa) s) : wp (walkaddr r (v * PGSIZE)) s Q E := by
  obtain ⟨e, he, huser⟩ := h
  rw [wp_walkaddr hv, he, Option.bind_some, if_pos huser]
  exact hQ _

theorem loadseg_spec {pages : ℕ → Bool} {n : ℕ} (hr : ∀ i < npages n, w + i ≤ trampVpn ∧
    Reach (lookup s.mem r) (w + i)) :
    wp (loadseg r (w * PGSIZE) pages n) s (fun _ s' => s' = s) fun _ => False := by
  unfold loadseg
  rw [wp_bind, show (n + (PGSIZE - 1)) / PGSIZE = npages n from rfl]
  refine wp_search (fun _ t => t = s) rfl ?_ fun t ht => ht
  rintro i t - hi rfl
  obtain ⟨hv, hreach⟩ := hr i (by omega)
  rw [← Nat.add_mul, wp_bind]
  refine wp_walkaddr_of_reach hv hreach fun pa => ?_
  exact ⟨fun _ _ => rfl, fun _ => rfl⟩

theorem loadProgram_spec {phs : List Ph} (h : Loading L y s₀ r sz s) :
    wp (loadProgram L r phs sz) s (fun a s' => Loading L y s₀ r a.1 s') fun _ => False := by
  induction phs generalizing sz s with
  | nil => exact h
  | cons ph phs ih =>
    rw [loadProgram]
    simp only [wp_ite]
    split_ifs with hread hload hbad
    · exact h
    · exact ih h
    · exact h
    rw [wp_bind]
    refine wp_call h.uvmalloc ?_
    rintro sz₁ s₁ (⟨rfl, h₁⟩ | ⟨hsz₁, h₁, -⟩)
    · exact h₁
    · rw [wp_ite]
      split_ifs with hzero
      · obtain rfl : sz = sz₁ := by omega
        exact h₁
      · simp only [not_or, not_lt, not_le, not_not, Fin.le_def] at hbad
        obtain ⟨hmemsz, -, haligned⟩ := hbad
        -- the segment is in the pages just mapped
        have hseg (i : ℕ) (hi : i < npages ((ph.filesz : ℕ) % 2 ^ 32)) :
            (ph.vaddr : ℕ) / PGSIZE + i < npages sz₁ := by
          have hmod := Nat.mod_le (ph.filesz : ℕ) (2 ^ 32)
          unfold npages PGSIZE at hi ⊢
          unfold PGSIZE at haligned
          omega
        have htop : npages sz₁ ≤ trampVpn := (npages_le h₁.built.le).trans (by decide)
        have hva : (ph.vaddr : ℕ) = ph.vaddr / PGSIZE * PGSIZE := by
          unfold PGSIZE at haligned ⊢
          omega
        rw [wp_bind, hva]
        refine wp_call (loadseg_spec fun i hi => ⟨(hseg i hi).le.trans htop, h₁.reach _ (hseg i hi)⟩) ?_
        rintro ok _ rfl
        rw [wp_ite]
        split_ifs
        · exact ih h₁
        · exact h₁

/-- An entry without `PTE_U`. -/
abbrev guard (e : Word) : Word := e &&& ~~~(PTE_U.setWidth 64)

lemma getLsbD_guard {e : Word} {i : ℕ} (hi : i < 64) (h4 : i ≠ 4) : (guard e).getLsbD i = e.getLsbD i := by
  have hbit : (PTE_U.setWidth 64).getLsbD i = false := by
    interval_cases i <;> first | omega | decide
  rw [BitVec.getLsbD_and, BitVec.getLsbD_not, hbit]
  simp [hi]

lemma valid_guard (e : Word) : Pte.valid (guard e) = Pte.valid e := getLsbD_guard (by decide) (by decide)

lemma ppn_guard (e : Word) : Pte.ppn (guard e) = Pte.ppn e := by
  have hshift : guard e >>> 10 = e >>> 10 := by
    apply BitVec.eq_of_getLsbD_eq
    intro i hi
    rw [BitVec.getLsbD_ushiftRight, BitVec.getLsbD_ushiftRight]
    by_cases h64 : 10 + i < 64
    · exact getLsbD_guard h64 (by omega)
    · rw [BitVec.getLsbD_of_ge _ _ (by omega), BitVec.getLsbD_of_ge _ _ (by omega)]
  rw [Pte.ppn, Pte.ppn, hshift]

lemma user_guard (e : Word) : Pte.user (guard e) = false := by
  rw [Pte.user, BitVec.getLsbD_and, BitVec.getLsbD_not,
    show (PTE_U.setWidth 64).getLsbD 4 = true from rfl, Bool.not_true, Bool.and_false, Bool.and_false]

lemma writable_mk (pa : ℕ) : Pte.writable (Pte.mk pa (userFlags PTE_W)) = true := by
  rw [Pte.writable, Pte.getLsbD_mk, if_pos (by decide)]
  rfl

theorem uvmclear_spec {e : Word} (h : Own L s (r ::ₘ R) x) (hv : v < trapVpn)
    (he : lookup s.mem r v = some e) :
    wp (uvmclear r (v * PGSIZE)) s
      (fun _ s' => Becomes (.user L) r R x (update (lookup s.mem r) v (some (guard e))) s s' ∧
        ∀ q ∉ tables s.mem r, s'.mem q = s.mem q) fun _ => False := by
  have hle : v ≤ trampVpn := hv.le.trans (by decide)
  unfold uvmclear
  rw [wp_bind, wp_walk_false (mul_PGSIZE_lt_MAXVA hle), mul_div_PGSIZE]
  cases hq : leafTable s.mem r v with
  | none =>
    rw [lookup_eq_none_of_leafTable hq] at he
    cases he
  | some q =>
    have hentry : s.mem q (index 0 v) = e := by
      rw [lookup_of_leafTable (lt_NVPN hle) hq] at he
      split_ifs at he
      exact Option.some.inj he
    simp only [Option.map_some, wp_bind, wp_get, px_mul]
    rw [hentry, wp_setPte]
    have hvalid : some (guard e) = if Pte.valid (guard e) then some (guard e) else none := by
      rw [valid_guard, if_pos (valid_of_lookup he)]
    obtain ⟨hown, hlookup, hothers⟩ := h.setLeaf (y := x) hvalid
      (by rw [he, share_some hv, share_some hv, ppn_guard]) hq (lt_NVPN hle) rfl
    refine ⟨⟨hown, hlookup, hothers⟩, fun q' hq' => update_of_ne ?_ ..⟩
    rintro rfl
    exact hq' (leafTable_mem hq)

/-- A stack page `n + 1` above a guard page `n`. -/
structure Stacked (L : Layout) (y : Multiset ℕ) (s₀ : State) (r n : ℕ) (s : State) : Prop where
  built : Built L y s₀ r ((n + 2) * PGSIZE) s
  untouched : Untouched (frames s₀ + s₀.pipes + y) s₀ s
  reach : ∀ v < n, Reach (lookup s.mem r) v
  guard : ∃ e, lookup s.mem r n = some e ∧ Pte.user e = false
  stack : ∃ e, lookup s.mem r (n + 1) = some e ∧ Pte.user e = true ∧ Pte.writable e = true

/-- The first of two new pages becomes the guard page. -/
theorem Loading.uvmclear {n : ℕ} (h : Loading L y s₀ r ((n + 2) * PGSIZE) s')
    (henl : Enlarged r n (n + 2) (userFlags PTE_W) s s') :
    wp (uvmclear r (n * PGSIZE)) s' (fun _ t => Stacked L y s₀ r n t ∧
      (∃ e, lookup s'.mem r n = some e ∧ lookup t.mem r = update (lookup s'.mem r) n (some (guard e))) ∧
      ∀ q ∉ tables s'.mem r, t.mem q = s'.mem q) fun _ => False := by
  have htop := npages_le h.built.le
  rw [npages_mul] at htop
  obtain ⟨pa, hpa, -⟩ := henl.zero n le_rfl (by omega)
  obtain ⟨pa', hpa', -⟩ := henl.zero (n + 1) (by omega) (by omega)
  refine wp_call (uvmclear_spec h.built.own (by omega) hpa) ?_
  rintro _ t ⟨ht, hmem⟩
  refine ⟨⟨⟨ht.own, h.built.others.trans ht.others, h.built.le, ?_⟩, h.untouched.trans ?_, fun v hv => ?_,
    ⟨guard _, by rw [ht.lookup, update_self], user_guard _⟩,
    ⟨_, (by rw [ht.lookup, update_of_ne (by omega), hpa']), user_mk .., writable_mk pa'⟩⟩,
    ⟨_, hpa, ht.lookup⟩, hmem⟩
  · rw [ht.lookup]
    exact h.built.bound.update (by rw [npages_mul]; omega)
  · exact fun q hq => hmem q (Held.not_table h.built.own hq)
  · rw [ht.lookup, Reach, update_of_ne hv.ne]
    exact h.reach v (by rw [npages_mul]; omega)

/-- Two pages above the program, if there is memory for them. -/
theorem Loading.extend (h : Loading L y s₀ r sz s) :
    wp (Vm.uvmalloc L r (npages sz * PGSIZE) ((npages sz + 2) * PGSIZE) PTE_W) s (fun sz' s' =>
      (sz' = 0 ∧ Loading L y s₀ r (npages sz * PGSIZE) s') ∨ (sz' = (npages sz + 2) * PGSIZE ∧
        Loading L y s₀ r ((npages sz + 2) * PGSIZE) s' ∧
        Enlarged r (npages sz) (npages sz + 2) (userFlags PTE_W) s s')) fun _ => False := by
  have hle : npages sz * PGSIZE ≤ TRAPFRAME := by
    rw [show TRAPFRAME = trapVpn * PGSIZE from rfl]
    exact Nat.mul_le_mul_right _ (npages_le h.built.le)
  have hbound := h.built.bound
  have hreach := h.reach
  rw [← npages_mul (npages sz)] at hbound hreach
  have hround : Loading L y s₀ r (npages sz * PGSIZE) s :=
    ⟨⟨h.built.own, h.built.others, hle, hbound⟩, h.untouched, hreach⟩
  refine wp_call hround.uvmalloc ?_
  rintro sz' s' (hnone | ⟨rfl, h', henl⟩)
  · exact .inl hnone
  · rw [max_eq_right (Nat.mul_le_mul_right _ (by omega))] at h' henl ⊢
    rw [npages_mul, npages_mul] at henl
    exact .inr ⟨rfl, h', henl⟩

lemma wrap_stack (hle : sz ≤ TRAPFRAME) :
    wrap ((npages sz * PGSIZE : ℕ) + ((USERSTACK : ℕ) + 1) * (PGSIZE : ℕ)) = (npages sz + 2) * PGSIZE := by
  have hn := npages_le hle
  unfold trapVpn at hn
  unfold USERSTACK PGSIZE
  rw [wrap_of_nonneg (by omega) (by omega)]
  omega

/-- Copying within one page that is mapped changes no page table. -/
theorem copyout_reach_spec {fuel sp len : ℕ} (hv : v ≤ trampVpn) (h : Reach (lookup s.mem r) v)
    (hsp : v * PGSIZE ≤ sp) (hend : sp + len ≤ (v + 1) * PGSIZE) :
    wp (copyout L p r fuel sp len) s (fun _ s' => s' = s) fun _ => False := by
  cases fuel with
  | zero => rfl
  | succ fuel =>
    rw [copyout, wp_ite]
    split_ifs with hlen
    · rfl
    have hpage : sp / PGSIZE = v := by
      unfold PGSIZE at hsp hend ⊢
      omega
    have hn : len - min (PGSIZE - (sp - v * PGSIZE)) len = 0 := by
      unfold PGSIZE at hsp hend ⊢
      omega
    dsimp only
    rw [pgrounddown, hpage, wp_ite, if_neg (not_le.mpr (mul_PGSIZE_lt_MAXVA hv)), wp_bind, hn]
    refine wp_walkaddr_of_reach hv h fun pa => ?_
    obtain ⟨e, he, -⟩ := h
    simp only [wp_bind]
    rw [wp_pure]
    dsimp only
    rw [wp_bind, wp_walk_false (mul_PGSIZE_lt_MAXVA hv), mul_div_PGSIZE]
    cases hq : leafTable s.mem r v with
    | none =>
      rw [lookup_eq_none_of_leafTable hq] at he
      cases he
    | some q =>
      simp only [Option.map_some, wp_bind, wp_get, wp_ite]
      split_ifs
      · rfl
      · cases fuel with
        | zero => rfl
        | succ fuel =>
          rw [copyout, if_pos rfl]
          rfl

theorem pushArgs_spec {argc sp : ℕ} {lens : List (Fin PGSIZE)} (hv : v ≤ trampVpn) (hpos : 0 < v)
    (h : Reach (lookup s.mem r) v) (hsp : sp ≤ (v + 1) * PGSIZE) :
    wp (pushArgs L p r (v * PGSIZE) argc lens sp) s
      (fun o s' => s' = s ∧ ∀ a, o = some a → a ≤ (v + 1) * PGSIZE) fun _ => False := by
  induction lens generalizing argc sp with
  | nil =>
    refine ⟨rfl, ?_⟩
    rintro _ ⟨⟩
    exact hsp
  | cons len lens ih =>
    rw [pushArgs, wp_ite]
    split_ifs with hbad
    · exact ⟨rfl, fun _ ho => (by cases ho)⟩
    · have hbase : v * PGSIZE ≤ (sp - (len + 1)) / 16 * 16 := by omega
      have hpage : 0 < v * PGSIZE := Nat.mul_pos hpos (by decide)
      rw [wp_bind]
      refine wp_call (copyout_reach_spec hv h hbase (by omega)) ?_
      rintro ok _ rfl
      rw [wp_ite]
      split_ifs
      · exact ih (by omega)
      · exact ⟨rfl, fun _ ho => (by cases ho)⟩

theorem makeStack_spec {args : List (Fin PGSIZE)} (h : Loading L y s₀ r sz s) :
    wp (makeStack L p r args sz) s (fun a s' => Built L y s₀ r a.1 s') fun _ => False := by
  unfold makeStack
  rw [pgroundup_eq h.built.le]
  dsimp only
  rw [wp_bind, wrap_stack h.built.le]
  refine wp_call h.extend ?_
  rintro sz₁ s₁ (⟨rfl, h₁⟩ | ⟨hsz₁, h₁, henl⟩)
  · rw [if_pos rfl]
    exact h₁.built
  rw [← hsz₁] at h₁
  have hguard : sz₁ - (USERSTACK + 1) * PGSIZE = npages sz * PGSIZE := by
    rw [hsz₁, ← Nat.sub_mul, show USERSTACK + 1 = 2 from rfl, Nat.add_sub_cancel]
  have hbase : sz₁ - USERSTACK * PGSIZE = (npages sz + 1) * PGSIZE := by
    rw [hsz₁, ← Nat.sub_mul, show npages sz + 2 = npages sz + 1 + USERSTACK from rfl,
      Nat.add_sub_cancel]
  have htop := npages_le h₁.built.le
  rw [hsz₁, npages_mul] at htop
  have hstack : npages sz + 1 ≤ trampVpn := (by omega : npages sz + 1 ≤ trapVpn).trans (by decide)
  rw [wp_ite, if_neg (by unfold PGSIZE at hsz₁; omega), hguard, hbase, wp_bind]
  refine wp_call ((hsz₁ ▸ h₁).uvmclear henl) ?_
  rintro _ s₂ ⟨hs₂, -⟩
  obtain ⟨e, he, huser, -⟩ := hs₂.stack
  have hbuilt : Built L y s₀ r sz₁ s₂ := hsz₁ ▸ hs₂.built
  have hreach : Reach (lookup s₂.mem r) (npages sz + 1) := ⟨e, he, huser⟩
  rw [wp_bind]
  refine wp_call (pushArgs_spec hstack (by omega) hreach (by rw [hsz₁])) ?_
  rintro o _ ⟨rfl, hsp⟩
  cases o with
  | none => exact hbuilt
  | some sp =>
    have hsp := hsp sp rfl
    dsimp only
    rw [wp_ite]
    split_ifs with hbad
    · exact hbuilt
    · have hpos : 0 < (npages sz + 1) * PGSIZE := Nat.mul_pos (by omega) (by decide)
      rw [wp_bind]
      refine wp_call (copyout_reach_spec hstack hreach (not_lt.mp hbad) (by omega)) ?_
      rintro ok _ rfl
      exact hbuilt

/-- Nothing changes for the processes, but what else is held may. -/
lemma MemInv.of_others {z : Multiset ℕ} (h : MemInv L y s) (hothers : Others (.user L) (roots s) s s')
    (hown : Own L s' (roots s) (frames s + s.pipes + z)) : MemInv L z s' := by
  have hroots : roots s' = roots s := by rw [roots, roots, hothers.proc]
  have hframes : frames s' = frames s := by rw [frames, frames, hothers.proc]
  refine ⟨?_, ?_, fun p r hr => ?_, fun e he => (hothers.events e he).elim (h.events e) id⟩
  · rw [hroots, hframes, hothers.pipes]
    exact hown
  · rw [hothers.proc]
    exact h.sz
  · rw [hothers.proc] at hr ⊢
    rw [hothers.lookup (mem_targets_iff.mpr ⟨p, hr⟩)]
    exact h.bound p r hr

/-- The process gets the new page table, and the old one is freed. -/
theorem Built.switch {old : ℕ} (hinv : MemInv L y s₀) (hold : (s₀.proc p).pagetable = some old)
    (h : Built L y s₀ r sz s)
    (hs' : s' = { s with proc := update s₀.proc p { s₀.proc p with pagetable := some r, sz := sz } }) :
    wp (procFreepagetable L old (s₀.proc p).sz) s' (fun _ t => MemInv L y t ∧ t.proc = s'.proc ∧
      Around L (otherRoots s₀ p) s₀ t ∧ Others (.user L) (r ::ₘ otherRoots s₀ p) s' t ∧
      Untouched (frames s₀ + s₀.pipes + y) s' t) fun _ => False := by
  have hroots := roots_of_some hold
  have hown : Own L s' (old ::ₘ r ::ₘ otherRoots s₀ p) (frames s₀ + s₀.pipes + y) := by
    rw [Multiset.cons_swap, ← hroots, hs']
    exact ⟨h.own.eq, h.own.inner⟩
  have hframes : frames s' = frames s₀ := by rw [frames_update p _ (by rw [hs']), frames_eq s₀ p]
  have hbound : Bounded (lookup s'.mem old) (npages (s₀.proc p).sz) := by
    rw [hs', h.others.lookup (hroots ▸ Multiset.mem_cons_self old _)]
    exact hinv.bound p old hold
  refine wp_call (procFreepagetable_spec hown (hframes ▸ trapframes_frames) (hinv.sz p) hbound) ?_
  rintro _ t ⟨hown', hothers, hsame⟩
  have hproc : t.proc = update s₀.proc p { s₀.proc p with pagetable := some r, sz := sz } := by
    rw [hothers.proc, hs']
  have hsub : otherRoots s₀ p ⊆ roots s₀ := hroots ▸ Multiset.subset_cons ..
  have haround : Around L (otherRoots s₀ p) s₀ t := by
    refine Around.trans ?_ (.of_others (hothers.mono (Multiset.subset_cons ..)))
    rw [hs']
    exact (Around.of_others (h.others.mono hsub)).setProc _
  refine ⟨hinv.change hproc ?_ haround h.le ?_, hothers.proc, haround, hothers, hsame⟩
  · rw [← frames_eq]
    exact hown'
  · rintro _ ⟨⟩
    rw [hothers.lookup (Multiset.mem_cons_self r _), hs']
    exact h.bound

/-- `kexec` changes the page table and the size of the process, or nothing. -/
structure Execed (L : Layout) (y : Multiset ℕ) (p : Pid) (s s' : State) : Prop where
  inv : MemInv L y s'
  proc : s'.proc = s.proc ∨ ∃ r sz, s'.proc = update s.proc p { s.proc p with pagetable := some r, sz := sz }
  pipes : s'.pipes = s.pipes

theorem kexec_spec {header : Bool} {phs : List Ph} {args : List (Fin PGSIZE)} {tf old : ℕ}
    (h : MemInv L y s) (hold : (s.proc p).pagetable = some old) (htf : (s.proc p).trapframe = some tf) :
    wp (kexec L p header phs args) s (fun _ => Execed L y p s) fun _ => False := by
  -- the new page table is freed on failure
  have hbad (r sz : ℕ) (s₁ : State) (h₁ : Built L y s r sz s₁) :
      wp (procFreepagetable L r sz) s₁ (fun _ => Execed L y p s) fun _ => False := by
    refine wp_call (procFreepagetable_spec h₁.own h₁.trapframes h₁.le h₁.bound) ?_
    rintro _ s₂ ⟨hown, hothers, -⟩
    have hall := h₁.others.trans hothers
    exact ⟨h.of_others hall hown, .inl hall.proc, hall.pipes⟩
  unfold kexec
  rw [wp_bind, wp_get]
  dsimp only
  rw [wp_ite]
  split_ifs
  · rw [htf]
    dsimp only
    rw [wp_bind]
    refine wp_call (procPagetable_spec h.own trapframes_frames) ?_
    rintro o s₁ ⟨hothers₁, hsame, hnone, hsome⟩
    cases o with
    | none => exact ⟨h.of_others hothers₁ (hnone rfl), .inl hothers₁.proc, hothers₁.pipes⟩
    | some r =>
      obtain ⟨hown₁, hbare⟩ := hsome r rfl
      have h₁ : Loading L y s r 0 s₁ :=
        ⟨⟨hown₁, hothers₁, Nat.zero_le _, hbare ▸ bounded_bare⟩, hsame,
          fun v hv => absurd hv (Nat.not_lt_zero v)⟩
      dsimp only
      rw [wp_bind]
      refine wp_call (loadProgram_spec h₁) ?_
      rintro ⟨sz, loaded⟩ s₂ h₂
      dsimp only at h₂ ⊢
      rw [wp_ite]
      split_ifs
      · rw [wp_bind]
        refine wp_call (makeStack_spec h₂) ?_
        rintro ⟨sz', pushed⟩ s₃ h₃
        dsimp only at h₃ ⊢
        rw [wp_ite]
        split_ifs
        · simp only [modifyProc, wp_bind, wp_modify]
          rw [hold, h₃.others.proc]
          refine wp_call (h₃.switch h hold rfl) ?_
          rintro _ s₅ ⟨hinv, hproc, haround, -⟩
          exact ⟨hinv, .inr ⟨r, sz', hproc⟩, haround.pipes⟩
        · exact hbad r sz' s₃ h₃
      · exact hbad r sz s₂ h₂.built
  · exact ⟨h, .inl rfl, rfl⟩

/-- The argument buffers taken so far are held. -/
theorem fetchArgs_spec {uargv i : ℕ} {uargs : List (Option (Fin PGSIZE))} {argv : List ℕ}
    (h : MemInv L (argv + y) s) (hr : (s.proc p).pagetable = some r) :
    wp (fetchArgs L p uargv i uargs argv) s
      (fun a s' => MemInv L (a.1 + y) s' ∧ s'.proc = s.proc ∧ s'.pipes = s.pipes) fun _ => False := by
  induction uargs generalizing i argv s with
  | nil =>
    rw [fetchArgs, wp_ite]
    split_ifs
    · exact ⟨h, rfl, rfl⟩
    · rw [wp_bind]
      refine wp_call (fetchaddr_spec h hr) fun ok s₁ hs₁ => ?_
      rw [wp_ite]
      split_ifs <;> exact ⟨hs₁.inv, hs₁.proc, hs₁.pipes⟩
  | cons uarg uargs ih =>
    rw [fetchArgs, wp_ite]
    by_cases hi : MAXARG ≤ i
    · rw [if_pos hi]
      exact ⟨h, rfl, rfl⟩
    rw [if_neg hi, wp_bind]
    refine wp_call (fetchaddr_spec h hr) fun ok s₁ hs₁ => ?_
    cases ok with
    | false => exact ⟨hs₁.inv, hs₁.proc, hs₁.pipes⟩
    | true =>
      rw [if_pos rfl, wp_bind]
      refine wp_call (kalloc_spec hs₁.inv.own) ?_
      rintro o s₂ ⟨hothers, hnone, hsome⟩
      have hproc := hothers.proc.trans hs₁.proc
      have hpipes := hothers.pipes.trans hs₁.pipes
      cases o with
      | none => exact ⟨hs₁.inv.of_others hothers (hnone rfl), hproc, hpipes⟩
      | some pa =>
        have hmem : MemInv L ((argv ++ [pa] : List ℕ) + y) s₂ := by
          refine hs₁.inv.of_others hothers ?_
          have hown := hsome pa rfl
          rw [← Multiset.coe_add, Multiset.coe_singleton]
          rw [← Multiset.singleton_add] at hown
          convert hown using 1
          abel
        dsimp only
        rw [wp_ite]
        split_ifs
        · refine wp_call (ih hmem (by rw [hproc, hr])) ?_
          rintro a s' ⟨hmem', hproc', hpipes'⟩
          exact ⟨hmem', hproc'.trans hproc, hpipes'.trans hpipes⟩
        · exact ⟨hmem, hproc, hpipes⟩

lemma freeArgs_spec {argv : List ℕ} (h : MemInv L (argv + y) s) :
    wp (argv.forM (kfree L)) s (fun _ s' => Steady L y s s') fun _ => False := by
  induction argv generalizing s with
  | nil =>
    rw [Multiset.coe_nil, zero_add] at h
    exact .refl h
  | cons pa argv ih =>
    have hown := h.own
    rw [← Multiset.cons_coe, Multiset.cons_add, Multiset.add_cons] at hown
    rw [List.forM_eq_forM, List.forM_cons, wp_bind]
    refine wp_call (kfree_spec hown) ?_
    rintro _ s₁ ⟨hown₁, hothers₁, -⟩
    rw [← List.forM_eq_forM]
    refine wp_call (ih (h.of_others hothers₁ hown₁)) fun _ s₂ hs₂ => ?_
    exact ⟨hs₂.inv, hs₂.proc.trans hothers₁.proc, hs₂.pipes.trans hothers₁.pipes⟩

theorem sysExec_spec {uargv tf : ℕ} {uargs : List (Option (Fin PGSIZE))} {header : Bool}
    {phs : List Ph} (h : MemInv L y s) (hr : (s.proc p).pagetable = some r)
    (htf : (s.proc p).trapframe = some tf) :
    wp (sysExec L p uargv uargs header phs) s (fun _ => Execed L y p s) fun _ => False := by
  have hfree (argv : List ℕ) (s₁ : State) (h₁ : Execed L (argv + y) p s s₁) :
      wp (argv.forM (kfree L)) s₁ (fun _ => Execed L y p s) fun _ => False := by
    refine wp_call (freeArgs_spec h₁.inv) fun _ s₂ hs₂ => ?_
    refine ⟨hs₂.inv, ?_, hs₂.pipes.trans h₁.pipes⟩
    rw [hs₂.proc]
    exact h₁.proc
  unfold sysExec
  rw [wp_bind]
  have hnil : MemInv L (([] : List ℕ) + y) s := by
    rw [Multiset.coe_nil, zero_add]
    exact h
  refine wp_call (fetchArgs_spec hnil hr) ?_
  rintro ⟨argv, fetched⟩ s₁ ⟨h₁, hproc, hpipes⟩
  dsimp only at h₁ ⊢
  rw [wp_ite]
  split_ifs
  · rw [wp_bind]
    refine wp_call (kexec_spec h₁ (by rw [hproc, hr]) (by rw [hproc, htf])) fun _ s₂ h₂ => ?_
    have h₂' : Execed L (argv + y) p s s₂ := by
      refine ⟨h₂.inv, ?_, h₂.pipes.trans hpipes⟩
      rw [← hproc]
      exact h₂.proc
    exact hfree argv s₂ h₂'
  · exact hfree argv s₁ ⟨h₁, .inl hproc, hpipes⟩

end Xv6.Vm
