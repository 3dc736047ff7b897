import Mathlib.Data.List.GetD
import Xv6.VmString

/-!
# The user's view of memory

A page that a copy touches is either mapped already or is allocated by `vmfault`, and neither
changes what the user sees. A write to a page of the user changes exactly the bytes written.
-/
namespace Xv6.Vm

open Prog Function

variable {L : Layout} {s s' : State} {y R x : Multiset ℕ} {p : Pid} {r v pa : ℕ}

/-- A write to a page of the user leaves the tables and all other pages. -/
lemma Own.setPage (h : Own L s (r ::ₘ R) x) {e : Word} (hv : v < trapVpn)
    (he : lookup s.mem r v = some e) (f : Fin 512 → Word) :
    Kept (.user L) r R x s (s.setPage (Pte.ppn e) f) ∧ Stays (· ≠ v) r s (s.setPage (Pte.ppn e) f) ∧
      tables (s.setPage (Pte.ppn e) f).mem r = tables s.mem r := by
  have hmem (q : ℕ) (hq : q ≠ Pte.ppn e) : (s.setPage (Pte.ppn e) f).mem q = s.mem q := by
    rw [setPage_eq]
    exact update_of_ne hq ..
  have htable : ∀ q ∈ tables s.mem r, (s.setPage (Pte.ppn e) f).mem q = s.mem q := by
    intro q hq
    apply hmem
    intro heq
    exact (h.of_lookup hv he).2.1 (heq ▸ hq)
  have hpage : Pte.ppn e ∈ (Account.user L).pages s.mem r :=
    Multiset.mem_add.mpr (.inr (mem_userPages hv he))
  have hothers : Others (.user L) R s (s.setPage (Pte.ppn e) f) := by
    refine ⟨?_, rfl, rfl, fun e he => .inl he⟩
    intro r' hr' q hq
    apply hmem
    intro heq
    have hnodup := Held.nodup h
    rw [Multiset.map_cons, Multiset.sum_cons] at hnodup
    have hdisj := (Multiset.nodup_add.mp (Multiset.nodup_add.mp
      (Multiset.nodup_add.mp hnodup).1).2.1).2.2
    exact Multiset.disjoint_left.mp hdisj hpage (heq ▸ mem_sum_pages hr' hq)
  obtain ⟨htables, hlookup, -⟩ := congr_of_tables htable
  refine ⟨⟨?_, hlookup, hothers⟩, ⟨?_, ?_⟩, htables⟩
  · refine Held.of_tables h ?_ rfl
    intro r' hr'
    rcases Multiset.mem_cons.mp hr' with rfl | hr'
    · exact htable
    · exact hothers.tables r' hr'
  · intro w _ _
    rw [hlookup]
  · intro w hw hlt e' he'
    exact hmem _ (h.ppn_ne hlt hv hw he' he)

namespace Data

/-- The address space of a process: every page of memory has one owner, and the pages above
user memory are not for the user. -/
structure AddressSpace (L : Layout) (y : Multiset ℕ) (p : Pid) (r : ℕ) (s : State) : Prop where
  inv : MemInv L y s
  table : (s.proc p).pagetable = some r
  traps : ∀ v e, trapVpn ≤ v → v ≤ trampVpn → lookup s.mem r v = some e → Pte.user e = false

lemma TRAPFRAME_le_pgrounddown (a : ℕ) (ha : trapVpn ≤ a / PGSIZE) : TRAPFRAME ≤ pgrounddown a := by
  rw [pgrounddown_eq, show TRAPFRAME = trapVpn * PGSIZE from rfl]
  exact Nat.mul_le_mul_right _ ha

lemma AddressSpace.userByte_trap (h : AddressSpace L y p r s) {a : ℕ} (ha : trapVpn ≤ a / PGSIZE) :
    userByte s p r a = none := by
  unfold userByte
  by_cases hv : trampVpn < a / PGSIZE
  · exact if_pos hv
  · rw [if_neg hv]
    cases he : lookup s.mem r (a / PGSIZE) with
    | none =>
      apply if_neg
      exact not_lt.mpr ((h.inv.sz p).trans (TRAPFRAME_le_pgrounddown a ha))
    | some e =>
      have hu := h.traps _ e ha (not_lt.mp hv) he
      apply if_neg
      rw [hu]
      exact Bool.false_ne_true

lemma AddressSpace.userByte_of_stays (h : AddressSpace L y p r s) (h' : AddressSpace L y p r s')
    {V : ℕ → Prop} (hproc : s'.proc = s.proc) (hstays : Stays V r s s') {a : ℕ} (ha : V (a / PGSIZE)) :
    userByte s' p r a = userByte s p r a := by
  by_cases hlt : a / PGSIZE < trapVpn
  · unfold userByte
    rw [hstays.lookup _ ha hlt, hproc]
    cases he : lookup s.mem r (a / PGSIZE) with
    | none => rfl
    | some e =>
      dsimp only
      rw [hstays.page _ ha hlt e he]
  · rw [h.userByte_trap (not_lt.mp hlt), h'.userByte_trap (not_lt.mp hlt)]

/-- The pages that a copy to the pages `V` may write: free pages, page-table pages, and the
pages of `V` that are mapped for the user to write. -/
def Writes (r : ℕ) (V : ℕ → Prop) (s : State) (q : ℕ) : Prop :=
  q ∈ s.freelist ∨ q ∈ tables s.mem r ∨
    ∃ v e, V v ∧ lookup s.mem r v = some e ∧ Pte.user e = true ∧ Pte.writable e = true ∧ Pte.ppn e = q

/-- `vmfault` would find a page. -/
def Faults (L : Layout) (p : Pid) (r v : ℕ) (s : State) : Prop :=
  ∃ pa s', (vmfault L p r (v * PGSIZE)).run s = .ok (some pa, s')

/-- The page is mapped for the user. -/
def ReadOk (r v : ℕ) (s : State) : Prop :=
  ∃ e, lookup s.mem r v = some e ∧ Pte.user e = true

/-- The page is mapped for the user to write. -/
def WriteOk (r v : ℕ) (s : State) : Prop :=
  ∃ e, lookup s.mem r v = some e ∧ Pte.user e = true ∧ Pte.writable e = true

/-- The page belongs to the process and is not allocated yet. -/
def Lazy (p : Pid) (r v : ℕ) (s : State) : Prop :=
  lookup s.mem r v = none ∧ v * PGSIZE < (s.proc p).sz

/-- What `userPage` leaves: the user sees the same, and the page is mapped if there is one. -/
structure Touched (L : Layout) (y : Multiset ℕ) (p : Pid) (r v : ℕ) (s : State) (o : Option ℕ)
    (s' : State) : Prop where
  space : AddressSpace L y p r s'
  proc : s'.proc = s.proc
  pipes : s'.pipes = s.pipes
  view : ∀ a, userByte s' p r a = userByte s p r a
  entries : ∀ w ≠ v, lookup s'.mem r w = lookup s.mem r w
  quiet : Quiet r s s'
  owned : ∀ q, q ∈ s'.freelist ∨ q ∈ tables s'.mem r → q ∈ s.freelist ∨ q ∈ tables s.mem r
  found : ∀ pa, o = some pa → ∃ e, v < trapVpn ∧ lookup s'.mem r v = some e ∧ Pte.user e = true ∧
    Pte.ppn e = pa ∧ (lookup s.mem r v = some e ∨ Lazy p r v s ∧ Faults L p r v s ∧
      Pte.writable e = true ∧ (pa ∈ s.freelist ∨ pa ∈ tables s.mem r))
  missing : o = none → ¬ ReadOk r v s ∧ ¬ (Lazy p r v s ∧ Faults L p r v s)

lemma AddressSpace.lt_of_readOk (h : AddressSpace L y p r s) (hread : ReadOk r v s) :
    v < trapVpn := by
  obtain ⟨e, he, hu⟩ := hread
  by_contra hge
  by_cases hv : v ≤ trampVpn
  · have := h.traps v e (not_lt.mp hge) hv he
    rw [hu] at this
    cases this
  · have hn := npages_le (h.inv.sz p)
    have htramp : trapVpn < trampVpn := by decide
    have hnone := h.inv.bound p r h.table v (by omega) (by omega) (by omega)
    rw [he] at hnone
    cases hnone

lemma Touched.of_readOk (h : AddressSpace L y p r s) {e : Word} (he : lookup s.mem r v = some e)
    (hu : Pte.user e = true) : Touched L y p r v s (some (Pte.ppn e)) s where
  space := h
  proc := rfl
  pipes := rfl
  view _ := rfl
  entries _ _ := rfl
  quiet _ _ _ := rfl
  owned _ hq := hq
  found := by
    intro pa hpa
    exact ⟨e, h.lt_of_readOk ⟨e, he, hu⟩, he, hu, Option.some.inj hpa, .inl he⟩
  missing := by
    intro hnone
    cases hnone

section Fault

variable (h : AddressSpace L y p r s)
include h

lemma AddressSpace.becomes {m : ℕ → Option Word}
    (hs' : Becomes (.user L) r (otherRoots s p) (frames s + s.pipes + y) m s s')
    (hm : Bounded m (npages (s.proc p).sz)) (htraps : ∀ v, trapVpn ≤ v → m v = lookup s.mem r v) :
    AddressSpace L y p r s' where
  inv := h.inv.becomes_same h.table hs' hm
  table := by rw [hs'.others.proc, h.table]
  traps := by
    intro v e hge hle he
    rw [hs'.lookup, htraps v hge] at he
    exact h.traps v e hge hle he

lemma Touched.of_notFaulted (hread : ¬ ReadOk r v s)
    (hrun : (vmfault L p r (v * PGSIZE)).run s = .ok (none, s'))
    (hs' : NotFaulted L r (otherRoots s p) (frames s + s.pipes + y) s s') :
    Touched L y p r v s none s' := by
  have hspace := h.becomes hs'.kept (h.inv.bound p r h.table) fun _ _ => rfl
  have hconserved := hs'.kept.conserved (h.inv.own_cons h.table)
  constructor
  · exact hspace
  · exact hs'.kept.others.proc
  · exact hs'.kept.others.pipes
  · intro a
    exact h.userByte_of_stays hspace hs'.kept.others.proc hs'.stays trivial
  · intro w _
    rw [hs'.kept.lookup]
  · exact hs'.quiet
  · intro q hq
    rw [← Multiset.mem_coe, ← Multiset.mem_add, hconserved] at hq
    exact Multiset.mem_add.mp hq
  · intro pa hpa
    cases hpa
  · intro _
    refine ⟨hread, ?_⟩
    intro hlazy
    obtain ⟨-, pa, t, ht⟩ := hlazy
    rw [hrun] at ht
    cases ht

lemma Touched.of_faultedIn (hrun : (vmfault L p r (v * PGSIZE)).run s = .ok (some pa, s'))
    (hs' : FaultedIn L p r (otherRoots s p) (frames s + s.pipes + y) v pa s s') :
    Touched L y p r v s (some pa) s' := by
  have hvn : v < npages (s.proc p).sz := by
    rw [← mul_div_PGSIZE v]
    exact div_lt_npages hs'.below
  have hlt : v < trapVpn := hvn.trans_le (npages_le (h.inv.sz p))
  have hlookup : lookup s'.mem r v = some (Pte.mk pa growFlags) := by
    rw [hs'.becomes.lookup, update_self]
  have hspace := h.becomes hs'.becomes ((h.inv.bound p r h.table).update hvn) fun w hw =>
    update_of_ne (show w ≠ v by omega) ..
  have hproc := hs'.becomes.others.proc
  have hconserved : (s'.freelist : Multiset ℕ) + tables s'.mem r + {pa} =
      s.freelist + tables s.mem r := by
    have heq := hs'.becomes.conserved_user (h.inv.own_cons h.table)
    have hpages := userPages_update (lookup s.mem r) v (some (Pte.mk pa growFlags))
    rw [hs'.free, share, if_pos hlt, share, if_pos hlt, entryPage, Option.elim_none, add_zero, entryPage,
      Option.elim_some, hs'.ppn] at hpages
    rw [hpages, add_comm (userPages _), ← add_assoc, ← add_assoc, ← add_assoc] at heq
    exact add_right_cancel heq
  have huser : Pte.user (Pte.mk pa growFlags) = true := Pte.getLsbD_mk pa growFlags 4
  have hwrite : Pte.writable (Pte.mk pa growFlags) = true := Pte.getLsbD_mk pa growFlags 2
  constructor
  · exact hspace
  · exact hproc
  · exact hs'.becomes.others.pipes
  · intro a
    by_cases ha : a / PGSIZE = v
    · subst ha
      have htramp : ¬ trampVpn < a / PGSIZE := not_lt.mpr (hlt.le.trans (by decide))
      rw [userByte_of_user (not_lt.mp htramp) hlookup huser, hs'.ppn, hs'.zero, WordBytes.get_zero,
        userByte, if_neg htramp, hs'.free]
      exact (if_pos hs'.below).symm
    · exact h.userByte_of_stays hspace hproc hs'.stays ha
  · intro w hw
    rw [hs'.becomes.lookup, update_of_ne hw]
  · exact hs'.quiet
  · intro q hq
    rw [← Multiset.mem_coe, ← Multiset.mem_add] at hq
    rw [← Multiset.mem_coe, ← Multiset.mem_add, ← hconserved]
    exact Multiset.mem_add.mpr (.inl hq)
  · intro pa' hpa
    obtain rfl := Option.some.inj hpa
    refine ⟨_, hlt, hlookup, huser, hs'.ppn, .inr ⟨⟨hs'.free, hs'.below⟩, ⟨_, _, hrun⟩, hwrite, ?_⟩⟩
    rw [← Multiset.mem_coe, ← Multiset.mem_add, ← hconserved]
    exact Multiset.mem_add.mpr (.inr (Multiset.mem_singleton_self _))
  · intro hnone
    cases hnone

end Fault

lemma run_userPage_mapped {e : Word} (hv : v ≤ trampVpn) (he : lookup s.mem r v = some e)
    (hu : Pte.user e = true) : (userPage L p r (v * PGSIZE)).run s = .ok (some (Pte.ppn e), s) := by
  have hwalk : wp (walkaddr r (v * PGSIZE)) s (fun o t => o = some (Pte.ppn e) ∧ t = s)
      fun _ => False := by
    rw [wp_walkaddr hv, he, Option.bind_some, if_pos hu]
    exact ⟨rfl, rfl⟩
  obtain ⟨_, _, hrun, rfl, rfl⟩ := exists_run_of_wp hwalk
  rw [userPage, run_bind hrun]
  rfl

theorem run_userPage (h : AddressSpace L y p r s) : ∃ o s',
    (userPage L p r (v * PGSIZE)).run s = .ok (o, s') ∧ Touched L y p r v s o s' := by
  by_cases hread : ReadOk r v s
  · obtain ⟨e, he, hu⟩ := hread
    have hv : v ≤ trampVpn := (h.lt_of_readOk ⟨e, he, hu⟩).le.trans (by decide)
    exact ⟨_, s, run_userPage_mapped hv he hu, .of_readOk h he hu⟩
  · have hwalk : wp (walkaddr r (v * PGSIZE)) s (fun o t => o = none ∧ t = s) fun _ => False := by
      by_cases hv : v ≤ trampVpn
      · rw [wp_walkaddr hv]
        cases he : lookup s.mem r v with
        | none => exact ⟨rfl, rfl⟩
        | some e =>
          rw [Option.bind_some, if_neg fun hu => hread ⟨e, he, hu⟩]
          exact ⟨rfl, rfl⟩
      · unfold walkaddr
        rw [wp_ite, if_pos (not_lt.mp fun hlt => hv ((le_trampVpn_iff v).mpr hlt))]
        exact ⟨rfl, rfl⟩
    obtain ⟨_, _, hrun, rfl, rfl⟩ := exists_run_of_wp hwalk
    obtain ⟨o, s', hfault, hs'⟩ := exists_run_of_wp (vmfault_contents h.inv h.table)
    rw [mul_div_PGSIZE] at hs'
    refine ⟨o, s', ?_, ?_⟩
    · rw [userPage, run_bind hrun]
      exact hfault
    · cases o with
      | none => exact .of_notFaulted h hread hfault hs'
      | some pa => exact .of_faultedIn h hfault hs'

/-- Memory with bytes put at an address. -/
def put (f : ℕ → Option UInt8) (a : ℕ) (src : List UInt8) : ℕ → Option UInt8 :=
  fun b => if a ≤ b ∧ b < a + src.length then some (src.getD (b - a) 0) else f b

lemma put_nil (f : ℕ → Option UInt8) (a : ℕ) : put f a [] = f := by
  funext b
  apply if_neg
  rw [List.length_nil]
  omega

lemma put_put (f : ℕ → Option UInt8) (a : ℕ) (src src' : List UInt8) :
    put (put f a src) (a + src.length) src' = put f a (src ++ src') := by
  funext b
  unfold put
  rw [List.length_append]
  by_cases h' : a + src.length ≤ b ∧ b < a + src.length + src'.length
  · rw [if_pos h', if_pos (by omega), List.getD_append_right _ _ _ _ (by omega), Nat.sub_add_eq]
  · rw [if_neg h']
    by_cases h : a ≤ b ∧ b < a + src.length
    · rw [if_pos h, if_pos (by omega), List.getD_append _ _ _ _ (by omega)]
    · rw [if_neg h, if_neg (by omega)]

/-- What bytes written to a page of the user leave. -/
theorem AddressSpace.putBytes (h : AddressSpace L y p r s) {e : Word} {a : ℕ} {src : List UInt8}
    (he : lookup s.mem r (a / PGSIZE) = some e) (hu : Pte.user e = true)
    (hfit : src.length ≤ PGSIZE - a % PGSIZE)
    (hs' : s' = s.setPage (Pte.ppn e) (WordBytes.blit (s.mem (Pte.ppn e)) (a % PGSIZE) src)) :
    AddressSpace L y p r s' ∧ lookup s'.mem r = lookup s.mem r ∧ tables s'.mem r = tables s.mem r ∧
      ∀ b, userByte s' p r b = put (userByte s p r) a src b := by
  have hlt := h.lt_of_readOk ⟨e, he, hu⟩
  have hle : a / PGSIZE ≤ trampVpn := hlt.le.trans (by decide)
  obtain ⟨hkept, hstays, htables⟩ := Own.setPage (h.inv.own_cons h.table) hlt he
    (WordBytes.blit (s.mem (Pte.ppn e)) (a % PGSIZE) src)
  rw [← hs'] at hkept hstays htables
  have hspace := h.becomes hkept (h.inv.bound p r h.table) fun _ _ => rfl
  refine ⟨hspace, hkept.lookup, htables, ?_⟩
  intro b
  by_cases hb : b / PGSIZE = a / PGSIZE
  · have hlookup : lookup s'.mem r (b / PGSIZE) = some e := by rw [hb, hkept.lookup, he]
    have hpage : s'.mem (Pte.ppn e) = WordBytes.blit (s.mem (Pte.ppn e)) (a % PGSIZE) src := by
      rw [hs', setPage_eq]
      exact update_self ..
    have hmod : a % PGSIZE < PGSIZE := Nat.mod_lt _ (by decide)
    have hbmod : b % PGSIZE < PGSIZE := Nat.mod_lt _ (by decide)
    have ha := Nat.div_add_mod a PGSIZE
    have hb' := Nat.div_add_mod b PGSIZE
    rw [hb] at hb'
    rw [userByte_of_user (hb ▸ hle) hlookup hu, hpage,
      WordBytes.get_blit _ _ (show _ ≤ 8 * 512 by unfold PGSIZE at *; omega)
        (show _ < 8 * 512 from hbmod)]
    unfold put
    by_cases hin : a ≤ b ∧ b < a + src.length
    · rw [if_pos hin, if_pos (by omega), show b % PGSIZE - a % PGSIZE = b - a by omega]
    · rw [if_neg hin, if_neg (by omega), userByte_of_user (hb ▸ hle) (by rw [hb, he]) hu]
  · rw [h.userByte_of_stays hspace hkept.others.proc hstays hb]
    symm
    apply if_neg
    intro hin
    apply hb
    have := div_add_of_lt (a := a) (show b - a < PGSIZE - a % PGSIZE by omega)
    rw [← this.1, Nat.add_sub_cancel' hin.1]

end Data

end Xv6.Vm
