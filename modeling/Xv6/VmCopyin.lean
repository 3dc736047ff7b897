import Xv6.VmCopyout

/-!
# `copyin` to the byte

The copy succeeds exactly if every page of its range is mapped for the user or can be allocated
when the copy gets there, and it returns the bytes of the user's view. With `copyout` this says
how the kernel reaches user memory.
-/
namespace Xv6.Vm.Data

open Prog Function

variable {L : Layout} {s s₁ s' : State} {y : Multiset ℕ} {p : Pid} {r srcva n m : ℕ}

/-- A result with bytes that were copied before. -/
def withFront (front : List UInt8) (x : (Bool × List UInt8) × State) : (Bool × List UInt8) × State :=
  ((x.1.1, front ++ x.1.2), x.2)

lemma run_pure_withFront (b : Bool) (dst : List UInt8) :
    (pure (b, dst) : VM (Bool × List UInt8)).run s =
      ((pure (b, []) : VM (Bool × List UInt8)).run s).map (withFront dst) := by
  show Except.ok ((b, dst), s) = Except.ok ((b, dst ++ []), s)
  rw [List.append_nil]

/-- The bytes copied before do not matter to what follows. -/
lemma run_copyinLoop_append {fuel len : ℕ} {dst : List UInt8} :
    (copyinLoop L p r fuel srcva len dst).run s =
      ((copyinLoop L p r fuel srcva len []).run s).map (withFront dst) := by
  induction fuel generalizing srcva len dst s with
  | zero => exact run_pure_withFront ..
  | succ fuel ih =>
    rw [copyinLoop, copyinLoop]
    by_cases hlen : len = 0
    · rw [if_pos hlen, if_pos hlen]
      exact run_pure_withFront ..
    rw [if_neg hlen, if_neg hlen]
    dsimp only
    cases hpage : (userPage L p r (pgrounddown srcva)).run s with
    | error e =>
      rw [StateT.run_bind, StateT.run_bind, hpage]
      rfl
    | ok x =>
      obtain ⟨o, s₁⟩ := x
      rw [run_bind hpage, run_bind hpage]
      cases o with
      | none => exact run_pure_withFront ..
      | some pa =>
        have hget : (get : VM State).run s₁ = .ok (s₁, s₁) := rfl
        dsimp only
        rw [run_bind hget, run_bind hget, ih, List.nil_append]
        symm
        rw [ih]
        cases (copyinLoop L p r fuel ((pgrounddown srcva + PGSIZE) % 2 ^ 64)
          (len - min (PGSIZE - (srcva - pgrounddown srcva)) len) []).run s₁ with
        | error e => rfl
        | ok x =>
          show Except.ok (withFront dst (withFront _ x)) = Except.ok (withFront _ x)
          rw [withFront, withFront, withFront, List.append_assoc]

lemma copyinLoop_fuel {fuel fuel' len : ℕ} {dst : List UInt8} (h : len ≤ fuel) (h' : len ≤ fuel') :
    copyinLoop L p r fuel srcva len dst = copyinLoop L p r fuel' srcva len dst := by
  induction fuel generalizing fuel' srcva len dst with
  | zero =>
    obtain rfl : len = 0 := Nat.le_zero.mp h
    cases fuel' with
    | zero => rfl
    | succ fuel' => rfl
  | succ fuel ih =>
    cases fuel' with
    | zero =>
      obtain rfl : len = 0 := Nat.le_zero.mp h'
      rfl
    | succ fuel' =>
      by_cases hlen : len = 0
      · rw [copyinLoop, copyinLoop, if_pos hlen, if_pos hlen]
      · have hchunk := chunk_pos (a := srcva) (Nat.pos_of_ne_zero hlen)
        have hrest : len - min (PGSIZE - (srcva - pgrounddown srcva)) len < len := by
          rw [sub_pgrounddown]
          unfold chunk at hchunk
          omega
        have hnext (a : ℕ) (dst : List UInt8) :
            copyinLoop L p r fuel a (len - min (PGSIZE - (srcva - pgrounddown srcva)) len) dst =
              copyinLoop L p r fuel' a (len - min (PGSIZE - (srcva - pgrounddown srcva)) len) dst :=
          ih (by omega) (by omega)
        rw [copyinLoop, copyinLoop]
        dsimp only
        simp only [hnext]

section Round

variable {len : ℕ} (hlen : len ≠ 0)
include hlen

lemma run_copyin_missing (hpage : (userPage L p r (pgrounddown srcva)).run s = .ok (none, s₁)) :
    (copyin L p r srcva len).run s = .ok ((false, []), s₁) := by
  obtain ⟨k, rfl⟩ := Nat.exists_eq_succ_of_ne_zero hlen
  rw [copyin, copyinLoop, if_neg hlen]
  dsimp only
  rw [run_bind hpage]
  rfl

/-- A round reads the bytes that belong to its page. -/
lemma run_copyin_step {pa : ℕ} (hlt : pgrounddown srcva < MAXVA)
    (hpage : (userPage L p r (pgrounddown srcva)).run s = .ok (some pa, s₁)) :
    (copyin L p r srcva len).run s =
      ((copyin L p r (pgrounddown srcva + PGSIZE) (len - chunk srcva len)).run s₁).map
        (withFront (bytesOf s₁ pa (srcva % PGSIZE) (chunk srcva len))) := by
  have hget : (get : VM State).run s₁ = .ok (s₁, s₁) := rfl
  have hwrap : (pgrounddown srcva + PGSIZE) % 2 ^ 64 = pgrounddown srcva + PGSIZE := by
    apply Nat.mod_eq_of_lt
    unfold MAXVA at hlt
    unfold PGSIZE
    omega
  obtain ⟨k, rfl⟩ := Nat.exists_eq_succ_of_ne_zero hlen
  have hpos : 0 < chunk srcva (k + 1) := chunk_pos (by omega)
  rw [copyin, copyinLoop, if_neg hlen]
  dsimp only
  rw [run_bind hpage]
  dsimp only
  rw [run_bind hget, sub_pgrounddown, hwrap, run_copyinLoop_append, List.nil_append, copyin,
    copyinLoop_fuel le_rfl (show k + 1 - chunk srcva (k + 1) ≤ k by omega)]
  rfl

end Round

/-- Byte `n` starts a page that the copy can read: one that is mapped for the user, or one
that `vmfault` finds when the bytes before it are copied. -/
def GrantsRead (L : Layout) (p : Pid) (r srcva : ℕ) (s : State) (n : ℕ) : Prop :=
  (srcva + n) / PGSIZE * PGSIZE < MAXVA ∧
    (ReadOk r ((srcva + n) / PGSIZE) s ∨ Lazy p r ((srcva + n) / PGSIZE) s ∧
      ∃ dst t, (copyin L p r srcva n).run s = .ok ((true, dst), t) ∧
        Faults L p r ((srcva + n) / PGSIZE) t)

/-- What `copyin` leaves, and the bytes that it has copied. -/
structure CopiedIn (L : Layout) (y : Multiset ℕ) (p : Pid) (r srcva len : ℕ) (s : State)
    (x : (Bool × List UInt8) × State) : Prop where
  space : AddressSpace L y p r x.2
  proc : x.2.proc = s.proc
  view : ∀ a, userByte x.2 p r a = userByte s p r a
  ok_iff : x.1.1 = true ↔ ∀ n < len, PageStart srcva n → GrantsRead L p r srcva s n
  bytes : ∀ i (h : i < x.1.2.length), userByte s p r (srcva + i) = some x.1.2[i]
  done : x.1.1 = true → x.1.2.length = len
  failed : x.1.1 = false → x.1.2.length < len ∧ PageStart srcva x.1.2.length
  writes : ∀ q, x.2.mem q ≠ s.mem q → q ∈ s.freelist ∨ q ∈ tables s.mem r

lemma CopiedIn.zero (h : AddressSpace L y p r s) : CopiedIn L y p r srcva 0 s ((true, []), s) where
  space := h
  proc := rfl
  view _ := rfl
  ok_iff := ⟨fun _ _ hn => absurd hn (Nat.not_lt_zero _), fun _ => rfl⟩
  bytes _ hi := absurd hi (Nat.not_lt_zero _)
  done _ := rfl
  failed h := by cases h
  writes q hq := absurd rfl hq

lemma CopiedIn.stop {len : ℕ} (hlen : len ≠ 0) (htouched : Touched L y p r (srcva / PGSIZE) s none s₁) :
    CopiedIn L y p r srcva len s ((false, []), s₁) := by
  obtain ⟨hread, hlazy⟩ := htouched.missing rfl
  constructor
  · exact htouched.space
  · exact htouched.proc
  · exact htouched.view
  · constructor
    · intro hfalse
      cases hfalse
    · intro hall
      rcases (hall 0 (Nat.pos_of_ne_zero hlen) (.inl rfl)).2 with hok | ⟨hz, dst, t, hrun, hfault⟩
      · exact absurd hok hread
      · cases hrun
        exact absurd ⟨hz, hfault⟩ hlazy
  · intro i hi
    exact absurd hi (Nat.not_lt_zero i)
  · intro hfalse
    cases hfalse
  · intro _
    exact ⟨Nat.pos_of_ne_zero hlen, .inl rfl⟩
  · intro q hq
    exact owned_of_quiet htouched.quiet hq

section Step

variable {len pa : ℕ} (hlen : len ≠ 0) (hlt : pgrounddown srcva < MAXVA)
  (hpage : (userPage L p r (pgrounddown srcva)).run s = .ok (some pa, s₁))
  (htouched : Touched L y p r (srcva / PGSIZE) s (some pa) s₁)

include hlt hpage in
/-- A copy of more bytes goes on as the copy of the bytes after the first page. -/
lemma run_copyin_take (hm : chunk srcva len + m < len) :
    (copyin L p r srcva (chunk srcva len + m)).run s =
      ((copyin L p r (pgrounddown srcva + PGSIZE) m).run s₁).map
        (withFront (bytesOf s₁ pa (srcva % PGSIZE) (chunk srcva len))) := by
  obtain ⟨n, hn⟩ : ∃ n, chunk srcva len = n := ⟨_, rfl⟩
  have hfull := (add_chunk ((Nat.le_add_right _ m).trans_lt hm)).2
  have hpos := chunk_pos (a := srcva) (show 0 < len by omega)
  rw [hn] at hm hfull hpos ⊢
  have hchunk : chunk srcva (n + m) = n := by
    unfold chunk
    omega
  rw [run_copyin_step (show n + m ≠ 0 by omega) hlt hpage, hchunk, Nat.add_sub_cancel_left]

include hlt hpage htouched in
/-- The pages after the first one are granted before the first round as after it. -/
lemma grantsRead_iff (hm : chunk srcva len + m < len) :
    GrantsRead L p r srcva s (chunk srcva len + m) ↔
      GrantsRead L p r (pgrounddown srcva + PGSIZE) s₁ m := by
  obtain ⟨hne, haddr⟩ := div_ne_of_chunk_lt hm
  have hruns : (∃ dst t, (copyin L p r srcva (chunk srcva len + m)).run s = .ok ((true, dst), t) ∧
      Faults L p r ((srcva + (chunk srcva len + m)) / PGSIZE) t) ↔
      ∃ dst t, (copyin L p r (pgrounddown srcva + PGSIZE) m).run s₁ = .ok ((true, dst), t) ∧
        Faults L p r ((srcva + (chunk srcva len + m)) / PGSIZE) t := by
    rw [run_copyin_take hlt hpage hm]
    cases (copyin L p r (pgrounddown srcva + PGSIZE) m).run s₁ with
    | error e =>
      constructor
      · intro h
        obtain ⟨dst, t, hrun, -⟩ := h
        cases hrun
      · intro h
        obtain ⟨dst, t, hrun, -⟩ := h
        cases hrun
    | ok x =>
      obtain ⟨⟨ok, bs⟩, u⟩ := x
      constructor
      · intro h
        obtain ⟨dst, t, hrun, hfault⟩ := h
        cases hrun
        exact ⟨bs, u, rfl, hfault⟩
      · intro h
        obtain ⟨dst, t, hrun, hfault⟩ := h
        cases hrun
        exact ⟨_, u, rfl, hfault⟩
  unfold GrantsRead
  rw [hruns]
  unfold ReadOk Lazy
  rw [← haddr, htouched.entries _ hne, htouched.proc]

include hlen hlt hpage htouched in
lemma CopiedIn.step {x : (Bool × List UInt8) × State}
    (htail : CopiedIn L y p r (pgrounddown srcva + PGSIZE) (len - chunk srcva len) s₁ x) :
    CopiedIn L y p r srcva len s
      (withFront (bytesOf s₁ pa (srcva % PGSIZE) (chunk srcva len)) x) := by
  obtain ⟨⟨ok, dst⟩, s'⟩ := x
  have hfits : dst.length ≤ len - chunk srcva len := by
    cases hok : ok with
    | true => exact (htail.done hok).le
    | false => exact (htail.failed hok).1.le
  obtain ⟨e, hv, he, hu, rfl, hfrom⟩ := htouched.found pa rfl
  obtain ⟨front, hfront⟩ : ∃ front, bytesOf s₁ (Pte.ppn e) (srcva % PGSIZE) (chunk srcva len) = front :=
    ⟨_, rfl⟩
  have hlength : front.length = chunk srcva len := by
    rw [← hfront, bytesOf, List.length_map, List.length_range]
  have hpos := chunk_pos (a := srcva) (Nat.pos_of_ne_zero hlen)
  have hle := chunk_le srcva len
  have hbytes (i : ℕ) (hi : i < front.length) : userByte s p r (srcva + i) = some front[i] := by
    have hchunk : chunk srcva len ≤ PGSIZE - srcva % PGSIZE := min_le_left ..
    rw [← htouched.view]
    subst hfront
    have := userByte_bytesOf (p := p) (hv.le.trans (by decide)) he hu hchunk i
      (by rw [sub_pgrounddown]; exact hi)
    simp only [sub_pgrounddown] at this
    exact this
  have hfirst : GrantsRead L p r srcva s 0 := by
    refine ⟨hlt, ?_⟩
    rcases hfrom with hold | ⟨hlazy, hfaults, -⟩
    · exact .inl ⟨e, hold, hu⟩
    · exact .inr ⟨hlazy, [], s, rfl, hfaults⟩
  rw [hfront]
  show CopiedIn L y p r srcva len s ((ok, front ++ dst), s')
  constructor
  · exact htail.space
  · rw [← htouched.proc]
    exact htail.proc
  · intro a
    rw [← htouched.view]
    exact htail.view a
  · rw [show ok = true ↔ _ from htail.ok_iff]
    constructor
    · intro hall n hn hstart
      by_cases h0 : n = 0
      · rw [h0]
        exact hfirst
      · obtain ⟨m, rfl, hm⟩ := (PageStart.pos_iff (Nat.pos_of_ne_zero h0) hn).mp hstart
        rw [grantsRead_iff hlt hpage htouched hn]
        exact hall m (by omega) hm
    · intro hall m hm hstart
      have hn : chunk srcva len + m < len := by omega
      rw [← grantsRead_iff hlt hpage htouched hn]
      exact hall _ hn ((PageStart.pos_iff (by omega) hn).mpr ⟨m, rfl, hstart⟩)
  · intro i hi
    by_cases hin : i < front.length
    · rw [hbytes i hin]
      simp only [List.getElem_append_left hin]
    · have hi' : i - front.length < dst.length := by
        rw [List.length_append] at hi
        omega
      have hrest := htail.bytes (i - front.length) hi'
      rw [htouched.view, ← (add_chunk (a := srcva) (show chunk srcva len < len by omega)).1, ← hlength,
        Nat.add_assoc, Nat.add_sub_cancel' (not_lt.mp hin)] at hrest
      rw [hrest]
      simp only [List.getElem_append_right (not_lt.mp hin)]
  · intro hok
    have hdone : dst.length = len - chunk srcva len := htail.done hok
    rw [List.length_append]
    omega
  · intro hok
    obtain ⟨hshort, hstart⟩ : dst.length < len - chunk srcva len ∧
      PageStart (pgrounddown srcva + PGSIZE) dst.length := htail.failed hok
    show (front ++ dst).length < len ∧ PageStart srcva (front ++ dst).length
    rw [List.length_append, hlength]
    have hn : chunk srcva len + dst.length < len := by omega
    exact ⟨hn, (PageStart.pos_iff (by omega) hn).mpr ⟨_, rfl, hstart⟩⟩
  · intro q hq
    by_cases hq₁ : s'.mem q = s₁.mem q
    · exact owned_of_quiet htouched.quiet (hq₁ ▸ hq)
    · exact htouched.owned q (htail.writes q hq₁)

end Step

theorem copyin_copiedIn (srcva len : ℕ) (h : AddressSpace L y p r s) :
    ∃ x, (copyin L p r srcva len).run s = .ok x ∧ CopiedIn L y p r srcva len s x ∧
      x.2.pipes = s.pipes := by
  induction len using Nat.strong_induction_on generalizing srcva s with
  | _ len ih =>
  by_cases hlen : len = 0
  · subst hlen
    exact ⟨_, rfl, .zero h, rfl⟩
  obtain ⟨o, s₁, hpage, htouched⟩ := run_userPage (v := srcva / PGSIZE) h
  rw [← pgrounddown_eq] at hpage
  cases o with
  | none =>
    exact ⟨_, run_copyin_missing hlen hpage, .stop hlen htouched, htouched.pipes⟩
  | some pa =>
    obtain ⟨e, hv, -⟩ := htouched.found pa rfl
    have hlt : pgrounddown srcva < MAXVA := (le_trampVpn_iff _).mp (hv.le.trans (by decide))
    have hpos := chunk_pos (a := srcva) (Nat.pos_of_ne_zero hlen)
    obtain ⟨x, hrun, htail, hpipes⟩ := ih (len - chunk srcva len) (by omega) _ htouched.space
    refine ⟨_, ?_, .step hlen hlt hpage htouched htail, hpipes.trans htouched.pipes⟩
    rw [run_copyin_step hlen hlt hpage, hrun]
    rfl

/-- The pages of the kernel, the trapframes and the pages that are mapped without `PTE_U` are
as before. -/
structure KernelKept (L : Layout) (r : ℕ) (s s' : State) : Prop where
  outside : ∀ q ∉ ram L, s'.mem q = s.mem q
  trapframe : ∀ p tf, (s.proc p).trapframe = some tf → s'.mem tf = s.mem tf
  guard : ∀ v < trapVpn, ∀ e, lookup s.mem r v = some e → Pte.user e = false →
    s'.mem (Pte.ppn e) = s.mem (Pte.ppn e)

/-- Pages that a copy may write are in memory, and owned by no one but the process. -/
lemma AddressSpace.of_writes (h : AddressSpace L y p r s) {V : ℕ → Prop} {q : ℕ}
    (hq : Writes r V s q) : q ∈ ram L ∧ q ∉ frames s + s.pipes + y ∧
      ∀ v < trapVpn, ∀ e, lookup s.mem r v = some e → Pte.user e = false → Pte.ppn e ≠ q := by
  have hown : Own L s (r ::ₘ otherRoots s p) (frames s + s.pipes + y) := h.inv.own_cons h.table
  have hself := Multiset.mem_cons_self r (otherRoots s p)
  have hram {q : ℕ} (hin : q ∈ s.freelist ∨ q ∈ (Account.user L).pages s.mem r) : q ∈ ram L := by
    have heq := hown.eq
    rw [Account.all_user] at heq
    rw [← heq]
    apply Multiset.mem_add.mpr
    left
    apply Multiset.mem_add.mpr
    exact hin.imp_right (mem_sum_pages hself)
  have hpage {v : ℕ} {e : Word} (hv : v < trapVpn) (he : lookup s.mem r v = some e) :
      Pte.ppn e ∈ (Account.user L).pages s.mem r :=
    Multiset.mem_add.mpr (.inr (mem_userPages hv he))
  rcases hq with hfree | htable | ⟨w, f, -, hf, hu, -, rfl⟩
  · refine ⟨hram (.inl hfree), ?_, ?_⟩
    · intro hx
      have hnodup := Held.nodup hown
      exact Multiset.disjoint_left.mp (Multiset.nodup_add.mp hnodup).2.2
        (Multiset.mem_add.mpr (.inl hfree)) hx
    · intro v hv e he _ heq
      exact Held.not_mem_pages_of_free hown hfree hself (heq ▸ hpage hv he)
  · refine ⟨hram (.inr (Multiset.mem_add.mpr (.inl htable))), ?_, ?_⟩
    · exact ((Held.disjoint hown).2 q htable).2.1
    · intro v hv e he _ heq
      exact (hown.of_lookup hv he).2.1 (heq ▸ htable)
  · have hw : w < trapVpn := h.lt_of_readOk ⟨f, hf, hu⟩
    refine ⟨hram (.inr (hpage hw hf)), (hown.of_lookup hw hf).2.2, ?_⟩
    intro v hv e he hnot
    apply hown.ppn_ne hv hw _ he hf
    intro heq
    rw [heq, hf] at he
    rw [← Option.some.inj he, hu] at hnot
    cases hnot

lemma KernelKept.of_writes {V : ℕ → Prop} (h : AddressSpace L y p r s)
    (hwrites : ∀ q, s'.mem q ≠ s.mem q → Writes r V s q) : KernelKept L r s s' := by
  constructor
  · intro q hq
    by_contra hne
    exact hq (h.of_writes (hwrites q hne)).1
  · intro p' tf htf
    by_contra hne
    exact (h.of_writes (hwrites tf hne)).2.1 (trapframes_frames p' tf htf)
  · intro v hv e he hu
    by_contra hne
    exact (h.of_writes (hwrites _ hne)).2.2 v hv e he hu rfl

/-- `copyout` and `copyin` realise the user's view of memory, and neither touches a page that
is not for the user. -/
theorem copies_realise_view (L : Layout) (y : Multiset ℕ) (p : Pid) (r : ℕ) (s : State)
    (h : AddressSpace L y p r s) :
    (∀ dstva src, ∃ ok s', (copyout L p r dstva src).run s = .ok (ok, s') ∧
      CopiedOut L y p r dstva src s ok s' ∧ KernelKept L r s s') ∧
    ∀ srcva len, ∃ x, (copyin L p r srcva len).run s = .ok x ∧ CopiedIn L y p r srcva len s x ∧
      KernelKept L r s x.2 := by
  constructor
  · intro dstva src
    obtain ⟨ok, s', hrun, hs'⟩ := copyout_copiedOut dstva src h
    exact ⟨ok, s', hrun, hs', .of_writes h hs'.writes⟩
  · intro srcva len
    obtain ⟨x, hrun, hx, -⟩ := copyin_copiedIn srcva len h
    refine ⟨x, hrun, hx, .of_writes (V := fun _ => False) h ?_⟩
    intro q hq
    exact .of_owned (hx.writes q hq)

lemma smallRun_space : ∃ s, Runs.exec (step smallLayout) smallInit smallRun = some s ∧
    AddressSpace smallLayout 0 0 (physTop - 23) s ∧ (s.proc 0).trapframe = some (physTop - 24) := by
  have hrun : (Runs.exec (step smallLayout) smallInit smallRun).map
      (fun s => ((s.proc 0).pagetable, (lookup s.mem (physTop - 23) trapVpn).map Pte.user,
        (lookup s.mem (physTop - 23) trampVpn).map Pte.user, (s.proc 0).trapframe)) =
        some (some (physTop - 23), some false, some false, some (physTop - 24)) := by
    decide +kernel
  have hfits : Runs.Admitted (step smallLayout) Fits smallInit smallRun := by decide +kernel
  obtain ⟨s, hs, hfacts⟩ := Option.map_eq_some_iff.mp hrun
  obtain ⟨hr, htraps⟩ := Prod.mk.inj hfacts
  obtain ⟨htrap, htramps⟩ := Prod.mk.inj htraps
  obtain ⟨htramp, htf⟩ := Prod.mk.inj htramps
  refine ⟨s, hs, ⟨(Runs.invariant_of_admitted step_inv (inv_init small_boot) hfits hs).mem, hr, ?_⟩, htf⟩
  intro v e hge hle he
  obtain rfl | rfl : v = trapVpn ∨ v = trampVpn := by
    unfold trapVpn trampVpn at *
    omega
  · rw [he] at htrap
    exact Option.some.inj htrap
  · rw [he] at htramp
    exact Option.some.inj htramp

theorem copies_realise_view_smallRun : ∃ s ok s',
    Runs.exec (step smallLayout) smallInit smallRun = some s ∧
    (copyout smallLayout 0 (physTop - 23) 90 [1, 2]).run s = .ok (ok, s') ∧
    CopiedOut smallLayout 0 0 (physTop - 23) 90 [1, 2] s ok s' := by
  obtain ⟨s, hs, hspace, -⟩ := smallRun_space
  obtain ⟨ok, s', hcopy, hs', -⟩ :=
    (copies_realise_view smallLayout 0 0 (physTop - 23) s hspace).1 90 [1, 2]
  exact ⟨s, ok, s', hs, hcopy, hs'⟩

end Xv6.Vm.Data
