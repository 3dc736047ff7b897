import Xv6.ExecLoad

/-!
# The stack of a new program

The argument strings are copied below the end of the stack, each at an address that is a multiple
of 16, and below them the array of their addresses. The guard page is larger than what one step
subtracts, so the arithmetic never goes below zero before the test against the base of the stack.
-/
namespace Xv6.Exec

open Prog Vm Function

variable {L : Layout} {s s' : Vm.State} {σ σ' : State} {R x : Multiset ℕ} {p : Pid}
  {r v base sp sp' n : ℕ} {argv : List (List UInt8)} {ptrs : List ℕ} {B B' : ℕ → Option UInt8}

/-- `push` without a limit. -/
def pushInt (sp : ℤ) (n : ℕ) : ℤ := (sp - n) / 16 * 16

def afterStrings (sp : ℤ) : List (List UInt8) → ℤ
  | [] => sp
  | arg :: argv => afterStrings (pushInt sp (arg.length + 1)) argv

/-- The stack pointer after the strings and the array of their addresses. -/
def bottom (sp : ℤ) (argv : List (List UInt8)) : ℤ :=
  pushInt (afterStrings sp argv) ((argv.length + 1) * 8)

/-- Strings are copied from the stack pointer down, and memory changes with them. -/
inductive Pushed (base : ℕ) :
    ℕ → List (List UInt8) → List ℕ → ℕ → (ℕ → Option UInt8) → (ℕ → Option UInt8) → Prop
  | nil (sp : ℕ) (B : ℕ → Option UInt8) : Pushed base sp [] [] sp B B
  | cons {sp sp' q : ℕ} {arg : List UInt8} {argv : List (List UInt8)} {ptrs : List ℕ}
      {B B' : ℕ → Option UInt8} (haligned : q % 16 = 0) (hbase : base ≤ q)
      (hroom : q + (arg.length + 1) ≤ sp)
      (hrest : Pushed base q argv ptrs sp' (Data.put B q (arg ++ [0])) B') :
      Pushed base sp (arg :: argv) (q :: ptrs) sp' B B'

namespace Pushed

lemma length_eq (h : Pushed base sp argv ptrs sp' B B') : ptrs.length = argv.length := by
  induction h with
  | nil => rfl
  | cons _ _ _ _ ih => rw [List.length_cons, List.length_cons, ih]

lemma le (h : Pushed base sp argv ptrs sp' B B') : sp' ≤ sp := by
  induction h with
  | nil => exact le_rfl
  | cons _ _ hroom _ ih => omega

lemma frame (h : Pushed base sp argv ptrs sp' B B') {a : ℕ} (ha : sp ≤ a ∨ a < base) : B' a = B a := by
  induction h with
  | nil => rfl
  | cons _ hbase hroom _ ih =>
    rw [ih (by omega), Data.put, if_neg]
    rw [List.length_append, List.length_singleton]
    omega

lemma string (h : Pushed base sp argv ptrs sp' B B') {i q : ℕ} {arg : List UInt8}
    (hq : ptrs[i]? = some q) (harg : argv[i]? = some arg) :
    q % 16 = 0 ∧ base ≤ q ∧ sp' ≤ q ∧ q + (arg.length + 1) ≤ sp ∧
      ∀ j ≤ arg.length, B' (q + j) = some ((arg ++ [0]).getD j 0) := by
  induction h generalizing i with
  | nil =>
    rw [List.getElem?_nil] at hq
    cases hq
  | cons haligned hbase hroom hrest ih =>
    cases i with
    | zero =>
      obtain rfl := Option.some.inj hq
      obtain rfl := Option.some.inj harg
      refine ⟨haligned, hbase, hrest.le, hroom, ?_⟩
      intro j hj
      rw [hrest.frame (.inl (Nat.le_add_right _ j)), Data.put, if_pos, Nat.add_sub_cancel_left]
      rw [List.length_append, List.length_singleton]
      omega
    | succ i =>
      obtain ⟨h1, h2, h3, h4, h5⟩ := ih hq harg
      exact ⟨h1, h2, h3, by omega, h5⟩

lemma disjoint (h : Pushed base sp argv ptrs sp' B B') {i j q q' : ℕ} {arg : List UInt8} (hij : i < j)
    (hq : ptrs[i]? = some q) (hq' : ptrs[j]? = some q') (harg : argv[j]? = some arg) :
    q' + (arg.length + 1) ≤ q := by
  induction h generalizing i j with
  | nil =>
    rw [List.getElem?_nil] at hq
    cases hq
  | cons _ _ _ hrest ih =>
    obtain ⟨j, rfl⟩ := Nat.exists_eq_succ_of_ne_zero (Nat.ne_of_gt (Nat.zero_lt_of_lt hij))
    cases i with
    | zero =>
      obtain rfl := Option.some.inj hq
      exact (hrest.string hq' harg).2.2.2.1
    | succ i => exact ih (Nat.lt_of_succ_lt_succ hij) hq hq' harg

end Pushed

/-- What copying the arguments changes: bytes of the stack page. -/
structure StackWrote (L : Layout) (r : ℕ) (R x : Multiset ℕ) (v : ℕ) (σ σ' : State) : Prop where
  rest : σ' = { σ with vm := σ'.vm }
  wrote : Wrote L r R x σ.vm σ'.vm
  stays : Stays (· ≠ v) r σ.vm σ'.vm

lemma StackWrote.refl (h : Own L σ.vm (r ::ₘ R) x) : StackWrote L r R x v σ σ := ⟨rfl, .refl h, .refl⟩

lemma StackWrote.trans {σ'' : State} (h : StackWrote L r R x v σ σ') (h' : StackWrote L r R x v σ' σ'') :
    StackWrote L r R x v σ σ'' := by
  refine ⟨?_, h.wrote.trans h'.wrote, h.stays.trans h'.stays⟩
  rw [h'.rest, h.rest]

variable {e : Word} (hv : v < trapVpn) (hu : Pte.user e = true) (hw : Pte.writable e = true)
include hv hu hw

omit hv hu hw

def bytesFrom (B : ℕ → Option UInt8) : ℕ → ℕ → Option (List UInt8)
  | _, 0 => some []
  | a, n + 1 => (B a).bind fun b => (bytesFrom B (a + 1) n).map (b :: ·)

def wordAt (B : ℕ → Option UInt8) (a : ℕ) : Option ℕ := (bytesFrom B a 8).map LittleEndian.value

/-- Arguments as a program finds them: at the stack pointer the addresses of the strings and a
null pointer, above them the strings. All of this is above the base of the stack. -/
structure ArgStack (base sz : ℕ) (argv : List (List UInt8)) (sp : ℕ) (ptrs : List ℕ)
    (B : ℕ → Option UInt8) : Prop where
  aligned : sp % 16 = 0
  low : base ≤ sp
  top : sp + (argv.length + 1) * 8 ≤ sz
  length_eq : ptrs.length = argv.length
  pointer : ∀ i q : ℕ, (ptrs ++ [0])[i]? = some q → wordAt B (sp + i * 8) = some q
  string : ∀ (i q : ℕ) arg, ptrs[i]? = some q → argv[i]? = some arg → q % 16 = 0 ∧
    sp + (argv.length + 1) * 8 ≤ q ∧ q + (arg.length + 1) ≤ sz ∧
    bytesFrom B q (arg.length + 1) = some (arg ++ [0])
  disjoint : ∀ (i j q q' : ℕ) arg, i < j → ptrs[i]? = some q → ptrs[j]? = some q' → argv[j]? = some arg →
    q' + (arg.length + 1) ≤ q

lemma bytesFrom_congr {a : ℕ} (h : ∀ b, a ≤ b → b < a + n → B' b = B b) :
    bytesFrom B' a n = bytesFrom B a n := by
  induction n generalizing a with
  | zero => rfl
  | succ n ih =>
    rw [bytesFrom, bytesFrom, h a le_rfl (by omega), ih fun b hb hb' => h b (by omega) (by omega)]

lemma ArgStack.congr {sz : ℕ} (h : ArgStack base sz argv sp ptrs B)
    (hB : ∀ a, base ≤ a → a < sz → B' a = B a) : ArgStack base sz argv sp ptrs B' where
  aligned := h.aligned
  low := h.low
  top := h.top
  length_eq := h.length_eq
  pointer i q hq := by
    have hi : i < ptrs.length + 1 := by
      have hlt := (List.getElem?_eq_some_iff.mp hq).1
      rwa [List.length_append, List.length_singleton] at hlt
    rw [wordAt, bytesFrom_congr fun b hb hb' => ?_]
    · exact h.pointer i q hq
    · have hlow := h.low
      have htop := h.top
      have hlen := h.length_eq
      exact hB b (by omega) (by omega)
  string i q arg hq harg := by
    obtain ⟨haligned, hlow, htop, hbytes⟩ := h.string i q arg hq harg
    refine ⟨haligned, hlow, htop, ?_⟩
    rw [bytesFrom_congr fun b hb hb' => ?_]
    · exact hbytes
    · have hbase := h.low
      exact hB b (by omega) (by omega)
  disjoint := h.disjoint

end Xv6.Exec
