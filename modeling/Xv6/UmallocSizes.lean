import Xv6.UmallocRun
import Xv6.VmGrow

/-!
# The sizes of requests

`malloc` takes any `uint`, but `morecore` passes its size to `sbrk` as an `int`. Up to
`2 ^ 31 - 32` bytes every request is met from the memory of the process or refused. Beyond,
`sbrk` may take memory away, or give less than the header of the block says.
-/
namespace Xv6.Umalloc

open Function Tiling

/-- The memory of the machine, in bytes: `PHYSTOP - KERNBASE`. -/
def MEMORY : ℕ := 128 * 1024 * 1024

/-- What `sbrk(n)` answers to a process of the size `sz`, and the size after it. Growth may be
refused, and maps every page. A sum below 0 wraps around, and then nothing is removed. -/
inductive SbrkAnswer (sz : ℕ) : ℤ → Option ℕ → ℕ → Prop
  | grows (n : ℕ) : 0 < n → sz + n ≤ MEMORY → SbrkAnswer sz n (some sz) (sz + n)
  | refused (n : ℕ) : 0 < n → SbrkAnswer sz n none sz
  | stays : SbrkAnswer sz 0 (some sz) sz
  | shrinks (n : ℕ) : 0 < n → n ≤ sz → SbrkAnswer sz (-n) (some sz) (sz - n)
  | wraps (n : ℕ) : sz < n → SbrkAnswer sz (-n) (some sz) sz

lemma answer_of_growsBy {s s' : Vm.State} {p : Vm.Pid} {r n : ℕ} {ok : Bool} (hn : 0 < n)
    (h : Vm.GrowsBy p r n s ok s') (hmem : (s'.proc p).sz ≤ MEMORY) :
    SbrkAnswer (s.proc p).sz n (if ok then some (s.proc p).sz else none) (s'.proc p).sz := by
  obtain ⟨rfl, hproc, -⟩ | ⟨rfl, hproc, -⟩ := h
  · rw [hproc] at hmem ⊢
    exact .grows n hn hmem
  · rw [hproc]
    exact .refused n hn

lemma answer_of_shrinksBy {s s' : Vm.State} {p : Vm.Pid} {r n : ℕ} {ok : Bool} (hn : 0 < n)
    (h : Vm.ShrinksBy p r n s ok s') :
    SbrkAnswer (s.proc p).sz (-n) (if ok then some (s.proc p).sz else none) (s'.proc p).sz := by
  obtain ⟨rfl, ⟨hle, hproc, -⟩ | ⟨hlt, rfl⟩⟩ := h
  · rw [hproc]
    exact .shrinks n hn hle
  · exact .wraps n hlt

/-- The kernel's `growproc` gives these answers, as long as the process fits in memory. -/
theorem growproc_answer (L : Vm.Layout) (y : Multiset ℕ) (s : Vm.State) (p : Vm.Pid) (r : ℕ) (n : ℤ)
    (h : Vm.MemInv L y s) (hr : (s.proc p).pagetable = some r)
    (hsz : (s.proc p).sz ≤ Vm.TRAPFRAME - 2 ^ 31) (hn : -2 ^ 31 ≤ n ∧ n < 2 ^ 31) :
    ∃ ok s', (Vm.growproc L p n).run s = .ok (ok, s') ∧
      ((s'.proc p).sz ≤ MEMORY → SbrkAnswer (s.proc p).sz n
        (if ok then some (s.proc p).sz else none) (s'.proc p).sz) := by
  have hsz' : (s.proc p).sz ≤ 2 ^ 38 - 2 ^ 31 := hsz.trans (by decide)
  apply Prog.exists_run_of_wp
  rw [Vm.wp_growproc hr]
  obtain ⟨m, rfl | rfl⟩ := n.eq_nat_or_neg
  all_goals obtain rfl | hpos := m.eq_zero_or_pos
  · exact fun _ => .stays
  · have hfits : (s.proc p).sz + m ≤ Vm.TRAPFRAME := by
      unfold Vm.TRAPFRAME Vm.TRAMPOLINE Vm.MAXVA Vm.PGSIZE at hsz ⊢
      omega
    rw [if_pos (by omega), Vm.wrap_of_nonneg (by omega) (by omega),
      show ((s.proc p).sz + m : ℤ).toNat = (s.proc p).sz + m by omega]
    apply Prog.wp_call (Vm.uvmalloc_growsBy h hr hpos hfits)
    intro sz s' hs'
    by_cases h0 : sz = 0
    · rw [if_pos h0] at hs' ⊢
      exact answer_of_growsBy hpos hs'.2.2
    · rw [if_neg h0] at hs' ⊢
      exact answer_of_growsBy hpos hs'.2.2
  · exact fun _ => .stays
  · rw [if_neg (by omega), if_pos (by omega)]
    by_cases hunder : m ≤ (s.proc p).sz
    · rw [Vm.wrap_of_nonneg (by omega) (by omega),
        show ((s.proc p).sz + -m : ℤ).toNat = (s.proc p).sz - m by omega]
      exact Prog.wp_call (Vm.uvmdealloc_shrinksBy h hr hunder) fun _ _ hs' _ =>
        answer_of_shrinksBy hpos hs'.2.2
    · rw [Vm.wrap_of_neg (by omega) (by omega),
        show ((s.proc p).sz + -m + 2 ^ 64 : ℤ).toNat = (s.proc p).sz + 2 ^ 64 - m by omega]
      exact Prog.wp_call (Vm.uvmdealloc_underflows h (by omega) (by omega)) fun _ _ hs' _ =>
        answer_of_shrinksBy hpos hs'.2.2

theorem growproc_answer_smallRun : ∃ s ok s',
    Runs.exec (Vm.step Vm.smallLayout) Vm.smallInit Vm.smallRun = some s ∧
    (Vm.growproc Vm.smallLayout 0 5000).run s = .ok (ok, s') ∧
    ((s'.proc 0).sz ≤ MEMORY →
      SbrkAnswer 100 5000 (if ok then some 100 else none) (s'.proc 0).sz) := by
  have hrun : (Runs.exec (Vm.step Vm.smallLayout) Vm.smallInit Vm.smallRun).map
      (fun s => ((s.proc 0).pagetable, (s.proc 0).sz)) = some (some (Vm.physTop - 23), 100) := by
    decide +kernel
  have hfits : Runs.Admitted (Vm.step Vm.smallLayout) Vm.Fits Vm.smallInit Vm.smallRun := by
    decide +kernel
  obtain ⟨s, hs, htables⟩ := Option.map_eq_some_iff.mp hrun
  obtain ⟨hr, hsz⟩ := Prod.mk.inj htables
  have hinv := (Runs.invariant_of_admitted Vm.step_inv (Vm.inv_init Vm.small_boot) hfits hs).mem
  obtain ⟨ok, s', hgrow, hans⟩ := growproc_answer Vm.smallLayout _ s 0 (Vm.physTop - 23) 5000 hinv hr
    (by rw [hsz]; decide) (by decide)
  rw [hsz] at hans
  exact ⟨s, ok, s', hs, hgrow, hans⟩

section Process

variable {S : Type} {sbrk : S → ℤ → Option ℕ × S} {sz : S → ℕ} {base : ℕ}

end Process

end Xv6.Umalloc
