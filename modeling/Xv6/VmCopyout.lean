import Xv6.VmView

/-!
# `copyout` to the byte

The copy succeeds exactly if every page of its range is mapped for the user to write or can be
allocated when the copy gets there. It then replaces the bytes of the range in the user's view.
A copy that fails has written the pages in front of the one where it stops.
-/
namespace Xv6.Vm.Data

open Prog Function

variable {L : Layout} {s s₁ s' : State} {y : Multiset ℕ} {p : Pid} {r dstva n m : ℕ}
  {src : List UInt8}

/-- The number of bytes that one round copies. -/
def chunk (a len : ℕ) : ℕ := min (PGSIZE - a % PGSIZE) len

variable {a len : ℕ}

lemma chunk_pos (h : 0 < len) : 0 < chunk a len := by
  have : a % PGSIZE < PGSIZE := Nat.mod_lt _ (by decide)
  unfold chunk
  omega

lemma chunk_le (a len : ℕ) : chunk a len ≤ len := min_le_right ..

/-- Byte `n` of the range is the first one of the range in its page. -/
def PageStart (a n : ℕ) : Prop := n = 0 ∨ (a + n) % PGSIZE = 0

/-- If bytes are left after a round, then the page is at its end. -/
lemma add_chunk (h : chunk a len < len) :
    a + chunk a len = pgrounddown a + PGSIZE ∧ chunk a len = PGSIZE - a % PGSIZE := by
  have hmod : a % PGSIZE < PGSIZE := Nat.mod_lt _ (by decide)
  have ha := Nat.div_add_mod a PGSIZE
  have hchunk : chunk a len = PGSIZE - a % PGSIZE := by
    unfold chunk at h ⊢
    omega
  refine ⟨?_, hchunk⟩
  rw [hchunk, pgrounddown_eq, Nat.mul_comm]
  omega

/-- The other pages of a range start after the bytes of the first round. -/
lemma PageStart.pos_iff (hn : 0 < n) (hlt : n < len) :
    PageStart a n ↔ ∃ m, n = chunk a len + m ∧ PageStart (pgrounddown a + PGSIZE) m := by
  have hmod : a % PGSIZE < PGSIZE := Nat.mod_lt _ (by decide)
  have ha := Nat.div_add_mod a PGSIZE
  constructor
  · intro h
    have hn' : (a + n) % PGSIZE = 0 := h.resolve_left hn.ne'
    have hle : chunk a len ≤ n := by
      by_contra hcon
      have hfit : n < PGSIZE - a % PGSIZE := by
        unfold chunk at hcon
        omega
      have := (div_add_of_lt hfit).2
      omega
    have hnext := (add_chunk (hle.trans_lt hlt)).1
    refine ⟨n - chunk a len, by omega, .inr ?_⟩
    rw [← hnext, Nat.add_assoc, Nat.add_sub_cancel' hle]
    exact hn'
  · intro h
    obtain ⟨m, rfl, hm⟩ := h
    have hnext := (add_chunk ((Nat.le_add_right _ m).trans_lt hlt)).1
    right
    rw [← Nat.add_assoc, hnext]
    rcases hm with rfl | hm
    · rw [pgrounddown_eq, Nat.add_zero, ← Nat.succ_mul]
      exact Nat.mul_mod_left ..
    · exact hm

lemma copyoutLoop_fuel {fuel fuel' : ℕ} (h : src.length ≤ fuel) (h' : src.length ≤ fuel') :
    copyoutLoop L p r fuel dstva src = copyoutLoop L p r fuel' dstva src := by
  induction fuel generalizing fuel' dstva src with
  | zero =>
    obtain rfl : src = [] := List.length_eq_zero_iff.mp (Nat.le_zero.mp h)
    cases fuel' with
    | zero => rfl
    | succ fuel' => rfl
  | succ fuel ih =>
    cases fuel' with
    | zero =>
      obtain rfl : src = [] := List.length_eq_zero_iff.mp (Nat.le_zero.mp h')
      rfl
    | succ fuel' =>
      by_cases hsrc : src = []
      · rw [copyoutLoop, copyoutLoop, if_pos hsrc, if_pos hsrc]
      · have hpos : 0 < src.length := List.length_pos_iff.mpr hsrc
        have hchunk := chunk_pos (a := dstva) hpos
        have hrest : (src.drop (min (PGSIZE - (dstva - pgrounddown dstva)) src.length)).length <
            src.length := by
          rw [List.length_drop, sub_pgrounddown]
          unfold chunk at hchunk
          omega
        rw [copyoutLoop, copyoutLoop]
        dsimp only
        rw [ih (show _ ≤ fuel by omega) (show _ ≤ fuel' by omega)]

lemma run_copyout_nil : (copyout L p r dstva []).run s = .ok (true, s) := rfl

/-- The walk finds the entry of the page. -/
lemma exists_walk {e : Word} (hlt : pgrounddown dstva < MAXVA)
    (he : lookup s₁.mem r (dstva / PGSIZE) = some e) : ∃ q k,
      (walk r (pgrounddown dstva) false).run s₁ = .ok (some (q, k), s₁) ∧ s₁.mem q k = e := by
  have hdiv : pgrounddown dstva / PGSIZE = dstva / PGSIZE := by
    rw [pgrounddown_eq, mul_div_PGSIZE]
  have hwalk : wp (walk r (pgrounddown dstva) false) s₁ (fun o t => ∃ q k, o = some (q, k) ∧ t = s₁ ∧
      s₁.mem q k = e) fun _ => False := by
    rw [wp_walk_false hlt, hdiv]
    have hv : dstva / PGSIZE < NVPN := lt_NVPN (le_trampVpn_of_lt hlt)
    cases hq : leafTable s₁.mem r (dstva / PGSIZE) with
    | none =>
      rw [lookup_eq_none_of_leafTable hq] at he
      cases he
    | some q =>
      rw [lookup_of_leafTable hv hq] at he
      by_cases hvalid : Pte.valid (s₁.mem q (index 0 (dstva / PGSIZE))) = true
      · rw [if_pos hvalid] at he
        refine ⟨q, px 0 (pgrounddown dstva), rfl, rfl, ?_⟩
        rw [px_eq_index, hdiv]
        exact Option.some.inj he
      · rw [if_neg hvalid] at he
        cases he
  obtain ⟨_, _, hrun, q, k, rfl, rfl, hmem⟩ := exists_run_of_wp hwalk
  exact ⟨q, k, hrun, hmem⟩

section Round

variable (hsrc : src ≠ [])
include hsrc

lemma copyout_unfold : ∃ k, src.length = k + 1 ∧
    copyout L p r dstva src = copyoutLoop L p r (k + 1) dstva src := by
  obtain ⟨k, hk⟩ := Nat.exists_eq_succ_of_ne_zero (List.length_pos_iff.mpr hsrc).ne'
  exact ⟨k, hk, by rw [copyout, hk]⟩

lemma run_copyout_large (hlarge : MAXVA ≤ pgrounddown dstva) :
    (copyout L p r dstva src).run s = .ok (false, s) := by
  obtain ⟨k, -, hk⟩ := copyout_unfold hsrc
  rw [hk, copyoutLoop, if_neg hsrc]
  dsimp only
  rw [if_pos hlarge]
  rfl

variable (hlt : pgrounddown dstva < MAXVA)
include hlt

lemma run_copyout_missing (hpage : (userPage L p r (pgrounddown dstva)).run s = .ok (none, s₁)) :
    (copyout L p r dstva src).run s = .ok (false, s₁) := by
  obtain ⟨k, -, hk⟩ := copyout_unfold hsrc
  rw [hk, copyoutLoop, if_neg hsrc]
  dsimp only
  rw [if_neg (not_le.mpr hlt), run_bind hpage]
  rfl

variable {e : Word} {pa : ℕ}
  (hpage : (userPage L p r (pgrounddown dstva)).run s = .ok (some pa, s₁))
  (he : lookup s₁.mem r (dstva / PGSIZE) = some e)
include hpage he

lemma run_copyout_readOnly (hw : Pte.writable e = false) :
    (copyout L p r dstva src).run s = .ok (false, s₁) := by
  obtain ⟨k, -, hk⟩ := copyout_unfold hsrc
  obtain ⟨q, i, hwalk, hmem⟩ := exists_walk hlt he
  have hget : (get : VM State).run s₁ = .ok (s₁, s₁) := rfl
  rw [hk, copyoutLoop, if_neg hsrc]
  dsimp only
  rw [if_neg (not_le.mpr hlt), run_bind hpage]
  dsimp only
  rw [run_bind hwalk]
  dsimp only
  rw [run_bind hget, hmem, if_pos hw]
  rfl

/-- A round writes the bytes that belong to its page. -/
lemma run_copyout_step (hw : Pte.writable e = true) : (copyout L p r dstva src).run s =
    (copyout L p r (pgrounddown dstva + PGSIZE) (src.drop (chunk dstva src.length))).run
      (s₁.setPage pa (WordBytes.blit (s₁.mem pa) (dstva % PGSIZE)
        (src.take (chunk dstva src.length)))) := by
  obtain ⟨k, hlen, hk⟩ := copyout_unfold hsrc
  obtain ⟨q, i, hwalk, hmem⟩ := exists_walk hlt he
  have hget : (get : VM State).run s₁ = .ok (s₁, s₁) := rfl
  have hwrap : (pgrounddown dstva + PGSIZE) % 2 ^ 64 = pgrounddown dstva + PGSIZE := by
    apply Nat.mod_eq_of_lt
    unfold MAXVA at hlt
    unfold PGSIZE
    omega
  have hpos : 0 < chunk dstva src.length := chunk_pos (by omega)
  rw [hk, copyoutLoop, if_neg hsrc]
  dsimp only
  rw [if_neg (not_le.mpr hlt), run_bind hpage]
  dsimp only
  rw [run_bind hwalk]
  dsimp only
  rw [run_bind hget, hmem, if_neg (by rw [hw]; decide), sub_pgrounddown, hwrap]
  have hrest : (src.drop (chunk dstva src.length)).length ≤ k := by
    rw [List.length_drop]
    omega
  rw [copyout, copyoutLoop_fuel le_rfl hrest]
  rfl

end Round

/-- Byte `n` starts a page that the copy can write: one that is mapped for it, or one that
`vmfault` finds when the bytes before it are copied. -/
def GrantsWrite (L : Layout) (p : Pid) (r dstva : ℕ) (src : List UInt8) (s : State) (n : ℕ) : Prop :=
  (dstva + n) / PGSIZE * PGSIZE < MAXVA ∧
    (WriteOk r ((dstva + n) / PGSIZE) s ∨ Lazy p r ((dstva + n) / PGSIZE) s ∧
      ∃ t, (copyout L p r dstva (src.take n)).run s = .ok (true, t) ∧
        Faults L p r ((dstva + n) / PGSIZE) t)

structure CopiedOut (L : Layout) (y : Multiset ℕ) (p : Pid) (r dstva : ℕ) (src : List UInt8)
    (s : State) (ok : Bool) (s' : State) : Prop where
  space : AddressSpace L y p r s'
  proc : s'.proc = s.proc
  ok_iff : ok = true ↔ ∀ n < src.length, PageStart dstva n → GrantsWrite L p r dstva src s n
  done : ok = true → ∀ a, userByte s' p r a = put (userByte s p r) dstva src a
  failed : ok = false → ∃ k < src.length, PageStart dstva k ∧
    ∀ a, userByte s' p r a = put (userByte s p r) dstva (src.take k) a
  writes : ∀ q, s'.mem q ≠ s.mem q → Writes r (fun v => ∃ n < src.length, v = (dstva + n) / PGSIZE) s q

lemma CopiedOut.nil (h : AddressSpace L y p r s) : CopiedOut L y p r dstva [] s true s where
  space := h
  proc := rfl
  ok_iff := ⟨fun _ _ hn => absurd hn (Nat.not_lt_zero _), fun _ => rfl⟩
  done _ a := by rw [put_nil]
  failed h := by cases h
  writes q hq := absurd rfl hq

lemma Writes.of_owned {V : ℕ → Prop} {q : ℕ} (h : q ∈ s.freelist ∨ q ∈ tables s.mem r) :
    Writes r V s q :=
  h.elim .inl fun htable => .inr (.inl htable)

/-- Only free pages and page-table pages change when a page is touched. -/
lemma owned_of_quiet {q : ℕ} (hquiet : Quiet r s s') (hq : s'.mem q ≠ s.mem q) :
    q ∈ s.freelist ∨ q ∈ tables s.mem r := by
  by_contra hcon
  rw [not_or] at hcon
  exact hq (hquiet q hcon.1 hcon.2)

lemma CopiedOut.stop (hsrc : src ≠ []) (h : AddressSpace L y p r s') (hproc : s'.proc = s.proc)
    (hview : ∀ a, userByte s' p r a = userByte s p r a)
    (hquiet : Quiet r s s') (hno : ¬ GrantsWrite L p r dstva src s 0) :
    CopiedOut L y p r dstva src s false s' := by
  have hpos : 0 < src.length := List.length_pos_iff.mpr hsrc
  constructor
  · exact h
  · exact hproc
  · constructor
    · intro hfalse
      cases hfalse
    · intro hall
      exact absurd (hall 0 hpos (.inl rfl)) hno
  · intro hfalse
    cases hfalse
  · intro _
    refine ⟨0, hpos, .inl rfl, ?_⟩
    intro a
    rw [List.take_zero, put_nil, hview]
  · intro q hq
    exact .of_owned (owned_of_quiet hquiet hq)

/-- The pages after the one of `dstva` are other pages. -/
lemma div_ne_of_chunk_lt (h : chunk a len + m < len) :
    (a + (chunk a len + m)) / PGSIZE ≠ a / PGSIZE ∧
      a + (chunk a len + m) = pgrounddown a + PGSIZE + m := by
  have hnext := (add_chunk ((Nat.le_add_right _ m).trans_lt h)).1
  have heq : a + (chunk a len + m) = pgrounddown a + PGSIZE + m := by rw [← hnext, Nat.add_assoc]
  refine ⟨?_, heq⟩
  rw [heq, pgrounddown_eq]
  have : a / PGSIZE + 1 ≤ (a / PGSIZE * PGSIZE + PGSIZE + m) / PGSIZE := by
    rw [Nat.le_div_iff_mul_le (by decide), Nat.succ_mul]
    omega
  omega

section Step

variable (hsrc : src ≠ []) (hlt : pgrounddown dstva < MAXVA) {e : Word} {s₂ : State}
  (hpage : (userPage L p r (pgrounddown dstva)).run s = .ok (some (Pte.ppn e), s₁))
  (htouched : Touched L y p r (dstva / PGSIZE) s (some (Pte.ppn e)) s₁)
  (he : lookup s₁.mem r (dstva / PGSIZE) = some e) (hu : Pte.user e = true)
  (hw : Pte.writable e = true)
  (hs₂ : s₂ = s₁.setPage (Pte.ppn e) (WordBytes.blit (s₁.mem (Pte.ppn e)) (dstva % PGSIZE)
    (src.take (chunk dstva src.length))))

include hlt hpage he hw hs₂ in
/-- A copy of more bytes goes on as the copy of the bytes after the first page. -/
lemma run_copyout_take (hm : chunk dstva src.length + m < src.length) :
    (copyout L p r dstva (src.take (chunk dstva src.length + m))).run s =
      (copyout L p r (pgrounddown dstva + PGSIZE) ((src.drop (chunk dstva src.length)).take m)).run
        s₂ := by
  obtain ⟨n, hn⟩ : ∃ n, chunk dstva src.length = n := ⟨_, rfl⟩
  have hfull := (add_chunk ((Nat.le_add_right _ m).trans_lt hm)).2
  rw [hn] at hm hfull hs₂ ⊢
  have hlen : (src.take (n + m)).length = n + m := by
    rw [List.length_take]
    omega
  have hpos : 0 < n := by
    rw [← hn]
    exact chunk_pos (by omega)
  have hchunk : chunk dstva (n + m) = n := by
    unfold chunk
    omega
  have hne : src.take (n + m) ≠ [] := by
    apply List.length_pos_iff.mp
    omega
  rw [run_copyout_step hne hlt hpage he hw, hlen, hchunk, List.take_take, List.drop_take,
    Nat.min_eq_left (Nat.le_add_right n m), Nat.add_sub_cancel_left, hs₂]

include he hu hs₂ in
lemma putBytes_round (hspace : AddressSpace L y p r s₁) : AddressSpace L y p r s₂ ∧
    lookup s₂.mem r = lookup s₁.mem r ∧ tables s₂.mem r = tables s₁.mem r ∧
      ∀ b, userByte s₂ p r b = put (userByte s₁ p r) dstva (src.take (chunk dstva src.length)) b := by
  apply hspace.putBytes he hu _ hs₂
  rw [List.length_take]
  unfold chunk
  omega

include hlt hpage htouched he hu hw hs₂ in
/-- The pages after the first one are granted before the first round as after it. -/
lemma grantsWrite_iff (hm : chunk dstva src.length + m < src.length) :
    GrantsWrite L p r dstva src s (chunk dstva src.length + m) ↔
      GrantsWrite L p r (pgrounddown dstva + PGSIZE) (src.drop (chunk dstva src.length)) s₂ m := by
  obtain ⟨hne, haddr⟩ := div_ne_of_chunk_lt hm
  obtain ⟨-, hlookup, -⟩ := putBytes_round he hu hs₂ htouched.space
  have hentry : lookup s₂.mem r ((dstva + (chunk dstva src.length + m)) / PGSIZE) =
      lookup s.mem r ((dstva + (chunk dstva src.length + m)) / PGSIZE) := by
    rw [hlookup, htouched.entries _ hne]
  have hproc : s₂.proc = s.proc := by
    rw [hs₂]
    exact htouched.proc
  unfold GrantsWrite WriteOk Lazy
  rw [run_copyout_take hlt hpage he hw hs₂ hm, ← haddr, hentry, hproc]

include hsrc hlt hpage htouched he hu hw hs₂ in
lemma CopiedOut.step {ok : Bool}
    (hfrom : lookup s.mem r (dstva / PGSIZE) = some e ∨ Lazy p r (dstva / PGSIZE) s ∧
      Faults L p r (dstva / PGSIZE) s ∧ Pte.writable e = true ∧
        (Pte.ppn e ∈ s.freelist ∨ Pte.ppn e ∈ tables s.mem r))
    (htail : CopiedOut L y p r (pgrounddown dstva + PGSIZE) (src.drop (chunk dstva src.length)) s₂
      ok s') : CopiedOut L y p r dstva src s ok s' := by
  obtain ⟨hspace₂, hlookup, htables, hview₂⟩ := putBytes_round he hu hs₂ htouched.space
  have hlen : 0 < src.length := List.length_pos_iff.mpr hsrc
  have hdrop : (src.drop (chunk dstva src.length)).length = src.length - chunk dstva src.length :=
    List.length_drop
  have hview (a : ℕ) :
      userByte s₂ p r a = put (userByte s p r) dstva (src.take (chunk dstva src.length)) a := by
    rw [hview₂, funext htouched.view]
  have hfirst : GrantsWrite L p r dstva src s 0 := by
    refine ⟨hlt, ?_⟩
    rcases hfrom with hold | ⟨hlazy, hfaults, -⟩
    · exact .inl ⟨e, hold, hu, hw⟩
    · exact .inr ⟨hlazy, s, rfl, hfaults⟩
  have hput (k : ℕ) (hk : k ≤ (src.drop (chunk dstva src.length)).length) (hfull : k ≠ 0) :
      put (userByte s₂ p r) (pgrounddown dstva + PGSIZE) ((src.drop (chunk dstva src.length)).take k) =
        put (userByte s p r) dstva (src.take (chunk dstva src.length + k)) := by
    have hlt' : chunk dstva src.length < src.length := by omega
    have htake : (src.take (chunk dstva src.length)).length = chunk dstva src.length := by
      rw [List.length_take]
      omega
    rw [funext hview, List.take_add, ← put_put, htake, (add_chunk hlt').1]
  constructor
  · exact htail.space
  · rw [htail.proc, hs₂]
    exact htouched.proc
  · rw [htail.ok_iff]
    constructor
    · intro hall n hn hstart
      by_cases h0 : n = 0
      · rw [h0]
        exact hfirst
      · obtain ⟨m, rfl, hm⟩ := (PageStart.pos_iff (Nat.pos_of_ne_zero h0) hn).mp hstart
        rw [grantsWrite_iff hlt hpage htouched he hu hw hs₂ hn]
        exact hall m (by omega) hm
    · intro hall m hm hstart
      have hn : chunk dstva src.length + m < src.length := by omega
      have hpos := chunk_pos (a := dstva) hlen
      rw [← grantsWrite_iff hlt hpage htouched he hu hw hs₂ hn]
      exact hall _ hn ((PageStart.pos_iff (by omega) hn).mpr ⟨m, rfl, hstart⟩)
  · intro hok a
    rw [htail.done hok]
    by_cases hall : src.length ≤ chunk dstva src.length
    · rw [List.drop_of_length_le hall, put_nil, hview, List.take_of_length_le hall]
    · have hrest := hput (src.length - chunk dstva src.length) (by omega) (by omega)
      rw [← hdrop, List.take_length, hdrop, Nat.add_sub_cancel' (by omega), List.take_length] at hrest
      rw [hrest]
  · intro hok
    obtain ⟨k, hk, hstart, hk'⟩ := htail.failed hok
    have hn : chunk dstva src.length + k < src.length := by omega
    have hpos := chunk_pos (a := dstva) hlen
    refine ⟨chunk dstva src.length + k, hn,
      (PageStart.pos_iff (by omega) hn).mpr ⟨k, rfl, hstart⟩, ?_⟩
    intro a
    rw [hk' a]
    by_cases h0 : k = 0
    · rw [h0, List.take_zero, put_nil, hview, Nat.add_zero]
    · rw [hput k hk.le h0]
  · intro q hq
    by_cases hq₂ : s'.mem q = s₂.mem q
    · rw [hq₂] at hq
      by_cases hqe : q = Pte.ppn e
      · rw [hqe]
        rcases hfrom with hold | ⟨-, -, -, hmine⟩
        · exact .inr (.inr ⟨_, e, ⟨0, hlen, rfl⟩, hold, hu, hw, rfl⟩)
        · exact .of_owned hmine
      · have hmem : s₂.mem q = s₁.mem q := by
          rw [hs₂, setPage_eq]
          exact update_of_ne hqe ..
        rw [hmem] at hq
        exact .of_owned (owned_of_quiet htouched.quiet hq)
    · rcases htail.writes q hq₂ with hfree | htable | ⟨v, e', ⟨m, hm, rfl⟩, he', hu', hw', hq'⟩
      · have hfree₁ : q ∈ s₁.freelist := by
          rw [hs₂] at hfree
          exact hfree
        exact .of_owned (htouched.owned q (.inl hfree₁))
      · rw [htables] at htable
        exact .of_owned (htouched.owned q (.inr htable))
      · have hn : chunk dstva src.length + m < src.length := by omega
        obtain ⟨hne, haddr⟩ := div_ne_of_chunk_lt hn
        rw [← haddr, hlookup, htouched.entries _ hne] at he'
        exact .inr (.inr ⟨_, e', ⟨_, hn, rfl⟩, he', hu', hw', hq'⟩)

end Step

theorem copyout_copiedOut (dstva : ℕ) (src : List UInt8) (h : AddressSpace L y p r s) :
    ∃ ok s', (copyout L p r dstva src).run s = .ok (ok, s') ∧ CopiedOut L y p r dstva src s ok s' := by
  induction hlen : src.length using Nat.strong_induction_on generalizing src dstva s with
  | _ len ih =>
  by_cases hsrc : src = []
  · rw [hsrc]
    exact ⟨true, s, rfl, .nil h⟩
  by_cases hlarge : MAXVA ≤ pgrounddown dstva
  · refine ⟨false, s, run_copyout_large hsrc hlarge, .stop hsrc h rfl (fun _ => rfl) (fun _ _ _ => rfl) ?_⟩
    intro hgrants
    exact absurd hgrants.1 (not_lt.mpr hlarge)
  have hlt := not_le.mp hlarge
  obtain ⟨o, s₁, hpage, htouched⟩ := run_userPage (v := dstva / PGSIZE) h
  rw [← pgrounddown_eq] at hpage
  cases o with
  | none =>
    obtain ⟨hread, hlazy⟩ := htouched.missing rfl
    refine ⟨false, s₁, run_copyout_missing hsrc hlt hpage,
      .stop hsrc htouched.space htouched.proc htouched.view htouched.quiet ?_⟩
    intro hgrants
    rcases hgrants.2 with ⟨e, he, hu, -⟩ | ⟨hz, t, ht, hfault⟩
    · exact hread ⟨e, he, hu⟩
    · rw [List.take_zero, run_copyout_nil] at ht
      cases ht
      exact hlazy ⟨hz, hfault⟩
  | some pa =>
    obtain ⟨e, hv, he, hu, hppn, hfrom⟩ := htouched.found pa rfl
    cases hw : Pte.writable e with
    | false =>
      refine ⟨false, s₁, run_copyout_readOnly hsrc hlt hpage he hw,
        .stop hsrc htouched.space htouched.proc htouched.view htouched.quiet ?_⟩
      have hold : lookup s.mem r (dstva / PGSIZE) = some e := by
        rcases hfrom with hold | ⟨-, -, hw', -⟩
        · exact hold
        · rw [hw] at hw'
          cases hw'
      intro hgrants
      rcases hgrants.2 with ⟨e', he', -, hw'⟩ | ⟨hz, -⟩
      · rw [Nat.add_zero, hold] at he'
        rw [← Option.some.inj he', hw] at hw'
        cases hw'
      · have := hz.1
        rw [Nat.add_zero, hold] at this
        cases this
    | true =>
      subst hppn
      obtain ⟨s₂, hs₂⟩ : ∃ s₂, s₂ = s₁.setPage (Pte.ppn e) (WordBytes.blit (s₁.mem (Pte.ppn e))
        (dstva % PGSIZE) (src.take (chunk dstva src.length))) := ⟨_, rfl⟩
      obtain ⟨hspace₂, -⟩ := putBytes_round he hu hs₂ htouched.space
      have hpos := chunk_pos (a := dstva) (List.length_pos_iff.mpr hsrc)
      have hrest : (src.drop (chunk dstva src.length)).length < len := by
        have := List.length_pos_iff.mpr hsrc
        rw [List.length_drop]
        omega
      obtain ⟨ok, s', hrun, htail⟩ := ih _ hrest _ _ hspace₂ rfl
      refine ⟨ok, s', ?_, .step hsrc hlt hpage htouched he hu hw hs₂ hfrom htail⟩
      rw [run_copyout_step hsrc hlt hpage he hw, ← hs₂, hrun]

end Xv6.Vm.Data
