import Xv6.VmSafety

/-!
# Growing and shrinking a process

`growproc` to the byte. It adds zeroed pages, or it fails and leaves the process as it was, or
it removes the pages above the new size and frees them.
-/
namespace Xv6.Vm

open Prog Function

variable {L : Layout} {s s' : State} {y R x : Multiset ℕ} {p : Pid} {r v n : ℕ}

/-- What all pages of a table and the free pages are together does not change. -/
lemma Becomes.conserved_user {m : ℕ → Option Word} (h : Own L s (r ::ₘ R) x)
    (hs' : Becomes (.user L) r R x m s s') :
    (s'.freelist : Multiset ℕ) + (tables s'.mem r + userPages m) =
      s.freelist + (tables s.mem r + userPages (Vm.lookup s.mem r)) := by
  have heq := hs'.own.eq.trans h.eq.symm
  rw [Multiset.map_cons, Multiset.sum_cons, Multiset.map_cons, Multiset.sum_cons, hs'.others.sum_eq,
    Account.pages, Account.pages, hs'.lookup, Account.held_user, Account.held_user] at heq
  have heq' := add_right_cancel heq
  apply add_right_cancel (b := (R.map ((Account.user L).pages s.mem)).sum)
  simpa only [add_assoc] using heq'

lemma userPages_clear (m : ℕ → Option Word) (hv : v + n ≤ trapVpn) :
    userPages m = userPages (clear m v n) + ∑ w ∈ Finset.Ico v (v + n), entryPage (m w) := by
  have hsub : Finset.Ico v (v + n) ⊆ Finset.range trapVpn := by
    intro w hw
    rw [Finset.mem_Ico] at hw
    exact Finset.mem_range.mpr (by omega)
  have hcleared : ∑ w ∈ Finset.Ico v (v + n), entryPage (clear m v n w) = 0 := by
    apply Finset.sum_eq_zero
    intro w hw
    rw [clear, if_pos (Finset.mem_Ico.mp hw)]
    rfl
  have hrest : ∑ w ∈ Finset.range trapVpn \ Finset.Ico v (v + n), entryPage (clear m v n w) =
      ∑ w ∈ Finset.range trapVpn \ Finset.Ico v (v + n), entryPage (m w) := by
    apply Finset.sum_congr rfl
    intro w hw
    rw [clear, if_neg]
    intro hin
    exact (Finset.mem_sdiff.mp hw).2 (Finset.mem_Ico.mpr hin)
  rw [userPages, userPages, ← Finset.sum_sdiff hsub, ← Finset.sum_sdiff hsub, hrest, hcleared, add_zero]

/-- The removed pages are free, and no others. -/
lemma Unmapped.freelist (h : Own L s (r ::ₘ R) x) (hv : v + n ≤ trapVpn)
    (hs' : Unmapped L r R x v n s s') : (s'.freelist : Multiset ℕ) =
      s.freelist + ∑ w ∈ Finset.Ico v (v + n), entryPage (lookup s.mem r w) := by
  have heq := hs'.becomes.conserved_user h
  rw [hs'.tables, userPages_clear (lookup s.mem r) hv, add_comm (userPages _) (∑ _ ∈ _, _),
    ← add_assoc, ← add_assoc, ← add_assoc] at heq
  have heq' := add_right_cancel heq
  rw [add_assoc, add_comm (Vm.tables s.mem r), ← add_assoc] at heq'
  exact add_right_cancel heq'

/-- Every page from the old end up to the new one is mapped and zero, and nothing else is
changed. -/
structure Grew (r oldsz newsz : ℕ) (s s' : State) : Prop where
  new : ∀ v, npages oldsz ≤ v → v < npages newsz → lookup s.mem r v = none ∧ ZeroAt r v growFlags s'
  entries : ∀ v, ¬ (npages oldsz ≤ v ∧ v < npages newsz) → lookup s'.mem r v = lookup s.mem r v
  bytes : ∀ v < trapVpn, ∀ e, lookup s.mem r v = some e → s'.mem (Pte.ppn e) = s.mem (Pte.ppn e)

/-- The entries, their pages, and what is allocated apart from page-table pages are as before. -/
structure Undisturbed (r : ℕ) (s s' : State) : Prop where
  entries : lookup s'.mem r = lookup s.mem r
  bytes : ∀ v < trapVpn, ∀ e, lookup s.mem r v = some e → s'.mem (Pte.ppn e) = s.mem (Pte.ppn e)
  allocated : (s'.freelist : Multiset ℕ) + tables s'.mem r = s.freelist + tables s.mem r

/-- Exactly the entries between the new end and the old one are removed, and their pages freed. -/
structure Shrank (r oldsz newsz : ℕ) (s s' : State) : Prop where
  removed : ∀ v, npages newsz ≤ v → v < npages oldsz → lookup s'.mem r v = none
  entries : ∀ v, ¬ (npages newsz ≤ v ∧ v < npages oldsz) → lookup s'.mem r v = lookup s.mem r v
  bytes : ∀ v < trapVpn, ¬ (npages newsz ≤ v ∧ v < npages oldsz) → ∀ e, lookup s.mem r v = some e →
    s'.mem (Pte.ppn e) = s.mem (Pte.ppn e)
  freed : (s'.freelist : Multiset ℕ) =
    s.freelist + ∑ v ∈ Finset.Ico (npages newsz) (npages oldsz), entryPage (lookup s.mem r v)

/-- The memory of the other processes is as before. -/
def OthersKeep (L : Layout) (p : Pid) (s s' : State) : Prop :=
  ∀ p' ≠ p, s'.proc p' = s.proc p' ∧ ∀ r', (s.proc p').pagetable = some r' →
    ∀ q ∈ (Account.user L).pages s.mem r', s'.mem q = s.mem q

def State.setSize (s : State) (p : Pid) (sz : ℕ) : State :=
  { s with proc := update s.proc p { s.proc p with sz := sz } }

lemma othersKeep_of_others (h : Others (.user L) (otherRoots s p) s s') : OthersKeep L p s s' :=
  fun _ hp' => ⟨by rw [h.proc], fun r' hr' q hq => h.pages r' (mem_otherRoots hp' hr') q hq⟩

lemma OthersKeep.setSize (h : OthersKeep L p s s') (sz : ℕ) : OthersKeep L p s (s'.setSize p sz) := by
  intro p' hp'
  obtain ⟨hproc, hpages⟩ := h p' hp'
  refine ⟨?_, hpages⟩
  show update s'.proc p _ p' = s.proc p'
  rw [update_of_ne hp', hproc]

lemma setSize_self (s : State) (p : Pid) : s.setSize p (s.proc p).sz = s := by
  unfold State.setSize
  rw [update_eq_self]

/-- `growproc`, with what it calls. -/
lemma wp_growproc {n : ℤ} {Q : Bool → State → Prop} {E : Panic → Prop}
    (hr : (s.proc p).pagetable = some r) : wp (growproc L p n) s Q E ↔
      if 0 < n then
        wp (uvmalloc L r (s.proc p).sz (wrap ((s.proc p).sz + n)) PTE_W) s
          (fun sz s' => if sz = 0 then Q false s' else Q true (s'.setSize p sz)) E
      else if n < 0 then
        wp (uvmdealloc L r (s.proc p).sz (wrap ((s.proc p).sz + n))) s
          (fun sz s' => Q true (s'.setSize p sz)) E
      else
        Q true s := by
  unfold growproc
  rw [wp_bind, wp_get]
  dsimp only
  rw [hr]
  dsimp only
  rw [wp_ite, wp_ite]
  simp only [wp_bind, wp_ite, wp_pure, modifyProc, wp_modify]
  rfl

lemma growFlags_eq : userFlags PTE_W = growFlags := by decide

lemma Grew.of_enlarged {m : ℕ → Option Word} {R x : Multiset ℕ} {oldsz newsz : ℕ}
    (hbound : Bounded (lookup s.mem r) (npages oldsz)) (hle : newsz ≤ TRAPFRAME)
    (hgrown : Grown (lookup s.mem r) m (npages oldsz) (npages newsz) growFlags)
    (hs' : Becomes (.user L) r R x m s s')
    (henl : Enlarged r (npages oldsz) (npages newsz) growFlags s s') : Grew r oldsz newsz s s' := by
  have hpages := npages_le hle
  have htramp : trapVpn < trampVpn := by decide
  have hnone (v : ℕ) (h1 : npages oldsz ≤ v) (h2 : v < npages newsz) : lookup s.mem r v = none :=
    hbound v h1 (by omega) (by omega)
  constructor
  · intro v h1 h2
    exact ⟨hnone v h1 h2, henl.zero v h1 h2⟩
  · intro v hv
    rw [hs'.lookup, hgrown.old v hv]
  · intro v hv e he
    by_cases hin : npages oldsz ≤ v ∧ v < npages newsz
    · rw [hnone v hin.1 hin.2] at he
      cases he
    · exact henl.stays.page v hin hv e he

lemma Shrank.of_unmapped {R x : Multiset ℕ} {oldsz newsz : ℕ} (h : Own L s (r ::ₘ R) x)
    (hsz : oldsz ≤ TRAPFRAME) (hle : newsz ≤ oldsz)
    (hs' : Unmapped L r R x (npages newsz) (npages oldsz - npages newsz) s s') :
    Shrank r oldsz newsz s s' := by
  have hpages := npages_le hsz
  have hmono := npages_mono hle
  have hfree := hs'.freelist h (by omega)
  rw [Nat.add_sub_cancel' hmono] at hfree
  have hlookup := hs'.becomes.lookup
  constructor
  · intro v h1 h2
    rw [hlookup, clear, if_pos (by omega)]
  · intro v hv
    rw [hlookup, clear, if_neg (by omega)]
  · intro v hlt hv e he
    exact hs'.stays.page v (by omega) hlt e he
  · exact hfree

/-- What `growproc` of a positive number leaves. -/
def GrowsBy (p : Pid) (r n : ℕ) (s : State) (ok : Bool) (s' : State) : Prop :=
  (ok = true ∧ s'.proc p = { s.proc p with sz := (s.proc p).sz + n } ∧
    Grew r (s.proc p).sz ((s.proc p).sz + n) s s') ∨
  (ok = false ∧ s'.proc p = s.proc p ∧ Undisturbed r s s')

/-- What `growproc` of a negative number leaves. The unsigned sum may underflow. -/
def ShrinksBy (p : Pid) (r n : ℕ) (s : State) (ok : Bool) (s' : State) : Prop :=
  ok = true ∧
    ((n ≤ (s.proc p).sz ∧ s'.proc p = { s.proc p with sz := (s.proc p).sz - n } ∧
      Shrank r (s.proc p).sz ((s.proc p).sz - n) s s') ∨
    ((s.proc p).sz < n ∧ s' = s))

section Grow

variable (h : MemInv L y s) (hr : (s.proc p).pagetable = some r)
include h hr

lemma uvmalloc_growsBy {n : ℕ} (hpos : 0 < n) (hfits : (s.proc p).sz + n ≤ TRAPFRAME) :
    wp (uvmalloc L r (s.proc p).sz ((s.proc p).sz + n) PTE_W) s (fun sz s' =>
      if sz = 0 then MemInv L y s' ∧ OthersKeep L p s s' ∧ GrowsBy p r n s false s'
      else MemInv L y (s'.setSize p sz) ∧ OthersKeep L p s (s'.setSize p sz) ∧
        GrowsBy p r n s true (s'.setSize p sz)) fun _ => False := by
  have hbound := h.bound p r hr
  have hown := h.own_cons hr
  apply wp_call (uvmalloc_spec hown trapframes_frames (h.sz p) hbound (.inl hfits))
  rintro sz s₁ ⟨⟨rfl, hkept, hstays⟩ | ⟨hmax, hle, ⟨m, hgrown, hs₁⟩, henl⟩, -⟩
  · -- there is no page, or none for the table
    rw [if_pos rfl]
    refine ⟨h.becomes_same hr hkept hbound, othersKeep_of_others hkept.others, .inr ⟨rfl, ?_, ?_⟩⟩
    · rw [hkept.others.proc]
    · refine ⟨hkept.lookup, ?_, hkept.conserved hown⟩
      intro v hv e he
      apply hstays.page v _ hv e he
      by_contra hge
      have htramp : trapVpn < trampVpn := by decide
      rw [hbound v (by omega) (by omega) (by omega)] at he
      cases he
  · obtain rfl : sz = (s.proc p).sz + n := by omega
    have hproc := hs₁.others.proc
    have hinv := h.becomes hr hs₁ (hbound.grown (npages_mono (by omega)) hgrown) hle
    rw [growFlags_eq] at hgrown henl
    have hgrew : Grew r (s.proc p).sz ((s.proc p).sz + n) s s₁ :=
      .of_enlarged hbound hfits hgrown hs₁ henl
    rw [if_neg (by omega)]
    refine ⟨?_, (othersKeep_of_others hs₁.others).setSize _, .inl ⟨rfl, ?_, ?_⟩⟩
    · rw [State.setSize, hproc]
      rw [hproc] at hinv
      exact hinv
    · show update s₁.proc p _ p = _
      rw [update_self, hproc]
    · exact ⟨hgrew.new, hgrew.entries, hgrew.bytes⟩

lemma uvmdealloc_shrinksBy {n : ℕ} (hn : n ≤ (s.proc p).sz) :
    wp (uvmdealloc L r (s.proc p).sz ((s.proc p).sz - n)) s (fun sz s' =>
      MemInv L y (s'.setSize p sz) ∧ OthersKeep L p s (s'.setSize p sz) ∧
        ShrinksBy p r n s true (s'.setSize p sz)) fun _ => False := by
  have hbound := h.bound p r hr
  have hown := h.own_cons hr
  apply wp_call (uvmdealloc_spec hown trapframes_frames (h.sz p))
  rintro sz s₁ ⟨rfl, hs₁, -⟩
  have hmin : min (s.proc p).sz ((s.proc p).sz - n) = (s.proc p).sz - n := by omega
  have hothers := hs₁.becomes.others
  have hproc := hothers.proc
  have hinv := h.becomes hr hs₁.becomes (npages_min .. ▸ hbound.clear) ((min_le_left ..).trans (h.sz p))
  have hshrank : Shrank r (s.proc p).sz ((s.proc p).sz - n) s s₁ :=
    .of_unmapped hown (h.sz p) (Nat.sub_le _ _) hs₁
  refine ⟨?_, (othersKeep_of_others hothers).setSize _, rfl, .inl ⟨hn, ?_, ?_⟩⟩
  · rw [State.setSize, hproc]
    rw [hproc] at hinv
    exact hinv
  · show update s₁.proc p _ p = _
    rw [update_self, hproc, hmin]
  · exact ⟨hshrank.removed, hshrank.entries, hshrank.bytes, hshrank.freed⟩

omit hr in
/-- The sum wraps around, and then nothing is to be removed. -/
lemma uvmdealloc_underflows {n : ℕ} (hn : (s.proc p).sz < n) (hlt : n < 2 ^ 32) :
    wp (uvmdealloc L r (s.proc p).sz ((s.proc p).sz + 2 ^ 64 - n)) s (fun sz s' =>
      MemInv L y (s'.setSize p sz) ∧ OthersKeep L p s (s'.setSize p sz) ∧
        ShrinksBy p r n s true (s'.setSize p sz)) fun _ => False := by
  unfold uvmdealloc
  rw [wp_ite, if_pos (by omega), wp_pure, setSize_self]
  exact ⟨h, fun _ _ => ⟨rfl, fun _ _ _ _ => rfl⟩, rfl, .inr ⟨hn, rfl⟩⟩

end Grow

lemma wrap_of_neg {z : ℤ} (h : z < 0) (h' : -2 ^ 64 ≤ z) : wrap z = (z + 2 ^ 64).toNat := by
  unfold wrap
  rw [← Int.add_emod_right, Int.emod_eq_of_lt (by omega) (by omega)]

/-- `growproc` of any `int`, with any refusals of `kalloc`. -/
theorem growproc_exact (L : Layout) (y : Multiset ℕ) (s : State) (p : Pid) (r : ℕ) (n : ℤ)
    (h : MemInv L y s) (hr : (s.proc p).pagetable = some r) (hsz : (s.proc p).sz ≤ TRAPFRAME - 2 ^ 31)
    (hn : -2 ^ 31 ≤ n ∧ n < 2 ^ 31) :
    ∃ ok s', (growproc L p n).run s = .ok (ok, s') ∧ MemInv L y s' ∧ OthersKeep L p s s' ∧
      (0 < n → GrowsBy p r n.toNat s ok s') ∧ (n < 0 → ShrinksBy p r (-n).toNat s ok s') ∧
      (n = 0 → ok = true ∧ s' = s) := by
  apply exists_run_of_wp
  rw [wp_growproc hr]
  split_ifs with hpos hneg
  · have hfits : (s.proc p).sz + n.toNat ≤ TRAPFRAME := by
      unfold TRAPFRAME TRAMPOLINE MAXVA PGSIZE at hsz ⊢
      omega
    have hnew : wrap ((s.proc p).sz + n) = (s.proc p).sz + n.toNat := by
      unfold TRAPFRAME TRAMPOLINE MAXVA PGSIZE at hfits
      rw [wrap_of_nonneg (by omega) (by omega)]
      omega
    rw [hnew]
    apply wp_call (uvmalloc_growsBy h hr (show 0 < n.toNat by omega) hfits)
    intro sz s' hs'
    split_ifs at hs' ⊢
    · exact ⟨hs'.1, hs'.2.1, fun _ => hs'.2.2, fun hlt => by omega, fun h0 => by omega⟩
    · exact ⟨hs'.1, hs'.2.1, fun _ => hs'.2.2, fun hlt => by omega, fun h0 => by omega⟩
  · have hsz' := h.sz p
    unfold TRAPFRAME TRAMPOLINE MAXVA PGSIZE at hsz'
    have hshrinks : wp (uvmdealloc L r (s.proc p).sz (wrap ((s.proc p).sz + n))) s (fun sz s' =>
        MemInv L y (s'.setSize p sz) ∧ OthersKeep L p s (s'.setSize p sz) ∧
          ShrinksBy p r (-n).toNat s true (s'.setSize p sz)) fun _ => False := by
      by_cases hunder : (-n).toNat ≤ (s.proc p).sz
      · rw [wrap_of_nonneg (by omega) (by omega),
          show ((s.proc p).sz + n : ℤ).toNat = (s.proc p).sz - (-n).toNat by omega]
        exact uvmdealloc_shrinksBy h hr hunder
      · rw [wrap_of_neg (by omega) (by omega),
          show ((s.proc p).sz + n + 2 ^ 64 : ℤ).toNat = (s.proc p).sz + 2 ^ 64 - (-n).toNat by omega]
        exact uvmdealloc_underflows h (by omega) (by omega)
    apply wp_call hshrinks
    intro sz s' hs'
    exact ⟨hs'.1, hs'.2.1, fun hlt => by omega, fun _ => hs'.2.2, fun h0 => by omega⟩
  · exact ⟨h, fun _ _ => ⟨rfl, fun _ _ _ _ => rfl⟩, fun hlt => absurd hlt hpos,
      fun hlt => absurd hlt hneg, fun _ => ⟨rfl, rfl⟩⟩

/-- A process that has grown by 100 bytes. -/
def smallRun : List (Op × List Bool) := [(.userinit, []), (.sbrk 0 100 1, [])]

theorem growproc_exact_smallRun : ∃ s ok s', Runs.exec (step smallLayout) smallInit smallRun = some s ∧
    (growproc smallLayout 0 5000).run s = .ok (ok, s') ∧ GrowsBy 0 (physTop - 23) 5000 s ok s' := by
  have hrun : (Runs.exec (step smallLayout) smallInit smallRun).map
      (fun s => ((s.proc 0).pagetable, (s.proc 0).sz)) = some (some (physTop - 23), 100) := by
    decide +kernel
  have hfits : Runs.Admitted (step smallLayout) Fits smallInit smallRun := by decide +kernel
  obtain ⟨s, hs, htables⟩ := Option.map_eq_some_iff.mp hrun
  obtain ⟨hr, hsz⟩ := Prod.mk.inj htables
  have hinv := (Runs.invariant_of_admitted step_inv (inv_init small_boot) hfits hs).mem
  obtain ⟨ok, s', hgrow, -, -, hgrows, -⟩ := growproc_exact smallLayout _ s 0 (physTop - 23) 5000 hinv hr
    (by rw [hsz]; decide) (by decide)
  exact ⟨s, ok, s', hs, hgrow, hgrows (by decide)⟩

end Xv6.Vm
