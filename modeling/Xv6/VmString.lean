import Xv6.VmData

/-!
# Strings from user memory

`copyinstr` finds the string that the user's view of memory holds, as long as no page on the
way is one that has not been allocated yet: unlike `copyin` it does not call `vmfault`.
-/
namespace Xv6.Vm.Data

open Prog

variable {L : Layout} {s : State} {p : Pid} {r a n m max srcva : ℕ} {f : ℕ → Option UInt8}
  {dst : List UInt8}

lemma pgrounddown_eq (a : ℕ) : pgrounddown a = a / PGSIZE * PGSIZE := rfl

lemma sub_pgrounddown (a : ℕ) : a - pgrounddown a = a % PGSIZE := by
  unfold pgrounddown PGSIZE
  omega

lemma div_add_of_lt {i : ℕ} (hi : i < PGSIZE - a % PGSIZE) :
    (a + i) / PGSIZE = a / PGSIZE ∧ (a + i) % PGSIZE = a % PGSIZE + i := by
  unfold PGSIZE at hi ⊢
  omega

lemma le_trampVpn_iff (v : ℕ) : v ≤ trampVpn ↔ v * PGSIZE < MAXVA := by
  unfold trampVpn PGSIZE MAXVA
  omega

lemma userByte_of_user {e : Word} (hv : a / PGSIZE ≤ trampVpn)
    (he : lookup s.mem r (a / PGSIZE) = some e) (hu : Pte.user e = true) :
    userByte s p r a = some (WordBytes.get (s.mem (Pte.ppn e)) (a % PGSIZE)) := by
  rw [userByte, if_neg (not_lt.mpr hv), he]
  exact if_pos hu

/-- No page that the string reaches is one that is still to be allocated. -/
def NoLazyPage (s : State) (p : Pid) (r srcva max : ℕ) : Prop :=
  ∀ i < max, (∀ j < i, ∃ c, userByte s p r (srcva + j) = some c ∧ c ≠ 0) →
    (srcva + i) / PGSIZE ≤ trampVpn → lookup s.mem r ((srcva + i) / PGSIZE) = none →
      (s.proc p).sz ≤ pgrounddown (srcva + i)

lemma NoLazyPage.drop (h : NoLazyPage s p r srcva (n + m))
    (hn : ∀ j < n, ∃ c, userByte s p r (srcva + j) = some c ∧ c ≠ 0) :
    NoLazyPage s p r (srcva + n) m := by
  intro i hi hchars hv hnone
  rw [Nat.add_assoc] at hv hnone ⊢
  apply h (n + i) (by omega) _ hv hnone
  intro j hj
  by_cases hjn : j < n
  · exact hn j hjn
  · have := hchars (j - n) (by omega)
    rwa [Nat.add_assoc, Nat.add_sub_cancel' (by omega)] at this

lemma userByte_bytesOf {e : Word} (hv : srcva / PGSIZE ≤ trampVpn)
    (he : lookup s.mem r (srcva / PGSIZE) = some e) (hu : Pte.user e = true)
    (hn : n ≤ PGSIZE - srcva % PGSIZE) (i : ℕ)
    (hi : i < (bytesOf s (Pte.ppn e) (srcva - pgrounddown srcva) n).length) :
    userByte s p r (srcva + i) = some (bytesOf s (Pte.ppn e) (srcva - pgrounddown srcva) n)[i] := by
  have hi' : i < n := by rwa [bytesOf, List.length_map, List.length_range] at hi
  obtain ⟨hdiv, hmod⟩ := div_add_of_lt (show i < PGSIZE - srcva % PGSIZE by omega)
  rw [userByte_of_user (by rw [hdiv]; exact hv) (by rw [hdiv]; exact he) hu, hmod]
  simp only [bytesOf, List.getElem_map, List.getElem_range, sub_pgrounddown]

/-- The string that a copy of at most `max` bytes finds, after the bytes `dst`. -/
structure Found (f : ℕ → Option UInt8) (srcva max : ℕ) (dst : List UInt8) (res : Bool × List UInt8) :
    Prop where
  string : ∀ str, stringAt f srcva max = some str → res = (true, dst ++ (str ++ [0]))
  missing : stringAt f srcva max = none → res.1 = false

lemma Found.stop (h : stringAt f srcva max = none) : Found f srcva max dst (false, dst) :=
  ⟨fun str hstr => absurd (h.symm.trans hstr) (Option.some_ne_none str).symm, fun _ => rfl⟩

end Xv6.Vm.Data
