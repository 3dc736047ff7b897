import Xv6.UserPrint

/-!
# The integers that the kernel prints

`printint` of `kernel/printf.c` with its buffer of 20 bytes and the index `i`. It stays within
the buffer and prints the shortest numeral of its argument.
-/
namespace Xv6.Printf

open Function

/-- `buf` and `i`. -/
structure Buf where
  bytes : ℕ → ℕ
  i : ℕ

/-- `buf[i++] = c`, if `i` is within the buffer. -/
def Buf.put (b : Buf) (c : ℕ) : Option Buf :=
  if b.i < 20 then some ⟨update b.bytes b.i c, b.i + 1⟩ else none

/-- The loop that fills the buffer, with a bound on its turns. -/
def fillLoop (digits : Digits) (base : ℕ) : ℕ → ℕ → Buf → Option Buf
  | 0, _, _ => none
  | k + 1, x, b => do
    let b ← b.put (digits (x % base))
    if x / base ≠ 0 then fillLoop digits base k (x / base) b else return b

/-- `while(--i >= 0) consputc(buf[i]);` -/
def drainLoop (bytes : ℕ → ℕ) : ℕ → List ℕ
  | 0 => []
  | i + 1 => bytes i :: drainLoop bytes i

/-- `printint` with its buffer, which holds `buf` before. -/
def Kernel.printintBuf (digits : Digits) (buf : ℕ → ℕ) (xx : BitVec 64) (base : ℕ) (sign : Bool) :
    Option (List ℕ) := do
  let sign := sign && xx.slt 0
  let x : BitVec 64 := if sign then -xx else xx
  let b ← fillLoop digits base 64 x.toNat ⟨buf, 0⟩
  let b ← if sign then b.put '-'.toNat else some b
  return drainLoop b.bytes b.i

def Buf.list (b : Buf) : List ℕ := drainLoop b.bytes b.i

lemma drainLoop_update (bytes : ℕ → ℕ) (c : ℕ) {i j : ℕ} (hij : i ≤ j) :
    drainLoop (update bytes j c) i = drainLoop bytes i := by
  induction i with
  | zero => rfl
  | succ i ih =>
    rw [drainLoop, drainLoop, update_of_ne (by omega), ih (by omega)]

lemma Buf.length_list (b : Buf) : b.list.length = b.i := by
  obtain ⟨bytes, i⟩ := b
  rw [Buf.list]
  induction i with
  | zero => rfl
  | succ i ih => rw [drainLoop, List.length_cons, ih]

/-- The characters are printed in the opposite order. -/
lemma Buf.put_eq {b : Buf} (hi : b.i < 20) (c : ℕ) :
    ∃ b', b.put c = some b' ∧ b'.list = c :: b.list := by
  refine ⟨_, if_pos hi, ?_⟩
  show update b.bytes b.i c b.i :: drainLoop (update b.bytes b.i c) b.i = c :: b.list
  rw [update_self, drainLoop_update _ _ le_rfl, Buf.list]

lemma length_lt_digitLoop (digits : Digits) (base k x : ℕ) (buf : List ℕ) :
    buf.length < (digitLoop digits base (k + 1) x buf).length := by
  induction k generalizing x buf with
  | zero =>
    rw [digitLoop]
    split_ifs
    · exact Nat.lt_succ_self _
    · exact Nat.lt_succ_self _
  | succ k ih =>
    rw [digitLoop]
    split_ifs
    · have hlt := ih (x / base) (digits (x % base) :: buf)
      rw [List.length_cons] at hlt
      omega
    · exact Nat.lt_succ_self _

/-- What fits into the buffer is there after the loop. -/
theorem fillLoop_eq (digits : Digits) (base : ℕ) {k x : ℕ} (b : Buf) (hx : x < base ^ (k + 1))
    (hlen : (digitLoop digits base (k + 1) x b.list).length ≤ 20) :
    ∃ b', fillLoop digits base (k + 1) x b = some b' ∧
      b'.list = digitLoop digits base (k + 1) x b.list := by
  induction k generalizing x b with
  | zero =>
    have hlt := length_lt_digitLoop digits base 0 x b.list
    rw [Buf.length_list] at hlt
    obtain ⟨b₁, hput, hlist⟩ := b.put_eq (by omega) (digits (x % base))
    have hdiv : ¬ x / base ≠ 0 := not_not.mpr (Nat.div_eq_of_lt (by rwa [zero_add, pow_one] at hx))
    refine ⟨b₁, ?_, ?_⟩
    · rw [fillLoop, hput, Option.bind_eq_bind, Option.bind_some, if_neg hdiv]
      rfl
    · rw [hlist, digitLoop, if_neg hdiv]
  | succ k ih =>
    have hlt := length_lt_digitLoop digits base (k + 1) x b.list
    rw [Buf.length_list] at hlt
    obtain ⟨b₁, hput, hlist⟩ := b.put_eq (by omega) (digits (x % base))
    rw [fillLoop, hput, Option.bind_eq_bind, Option.bind_some]
    rw [digitLoop] at hlen ⊢
    by_cases hdiv : x / base ≠ 0
    · rw [if_pos hdiv, ← hlist] at hlen
      rw [if_pos hdiv, if_pos hdiv, ← hlist]
      exact ih b₁ (Nat.div_lt_of_lt_mul (by rwa [← pow_succ'])) hlen
    · rw [if_neg hdiv, if_neg hdiv]
      exact ⟨b₁, rfl, hlist⟩

/-- The characters are a numeral of `v`: digits, the most significant one first, after a minus sign
or not. -/
def Numeral (digits : Digits) (base : ℕ) (v : ℤ) (out : List ℕ) : Prop :=
  ∃ ds : List ℕ, ds ≠ [] ∧ (∀ d ∈ ds, d < base) ∧
    (out = ds.map digits ∧ v = Nat.ofDigits base ds.reverse ∨
      out = '-'.toNat :: ds.map digits ∧ v = -(Nat.ofDigits base ds.reverse : ℕ))

section Numerals

variable {base : ℕ}

lemma numeral_ne_nil (n : ℕ) : numeral base n ≠ [] := by
  unfold numeral
  split_ifs with h0
  · exact List.cons_ne_nil _ _
  · rw [ne_eq, List.reverse_eq_nil_iff, Nat.digits_eq_nil_iff_eq_zero]
    exact h0

lemma ofDigits_numeral (n : ℕ) : Nat.ofDigits base (numeral base n).reverse = n := by
  unfold numeral
  split_ifs with h0
  · rw [h0]
    rfl
  · rw [List.reverse_reverse, Nat.ofDigits_digits]

variable (hbase : 1 < base)
include hbase

lemma lt_of_mem_numeral {n d : ℕ} (hd : d ∈ numeral base n) : d < base := by
  unfold numeral at hd
  split_ifs at hd
  · rw [List.mem_singleton.mp hd]
    omega
  · exact Nat.digits_lt_base hbase (List.mem_reverse.mp hd)

lemma length_numeral_le {n k : ℕ} (hn : n < base ^ (k + 1)) :
    (numeral base n).length ≤ k + 1 := by
  unfold numeral
  split_ifs
  · exact Nat.le_add_left 1 k
  · rw [List.length_reverse]
    exact (Nat.digits_length_le_iff hbase n).mpr hn

/-- Other digits of the same number are more. -/
theorem numeral_unique {ds : List ℕ} (hne : ds ≠ []) (hds : ∀ d ∈ ds, d < base) :
    (numeral base (Nat.ofDigits base ds.reverse)).length < ds.length ∨
      ds = numeral base (Nat.ofDigits base ds.reverse) := by
  have hlt : ∀ d ∈ ds.reverse, d < base := fun d hd => hds d (List.mem_reverse.mp hd)
  obtain ⟨n, hn⟩ : ∃ n, Nat.ofDigits base ds.reverse = n := ⟨_, rfl⟩
  have hle : (numeral base n).length ≤ ds.length := by
    obtain ⟨k, hk⟩ := Nat.exists_eq_succ_of_ne_zero (mt List.length_eq_zero_iff.mp hne)
    rw [hk]
    apply length_numeral_le hbase
    rw [← hn, ← Nat.succ_eq_add_one, ← hk, ← List.length_reverse]
    exact Nat.ofDigits_lt_base_pow_length hbase hlt
  rw [hn]
  obtain hless | hsame := hle.lt_or_eq
  · exact Or.inl hless
  · right
    apply List.reverse_injective
    apply Nat.ofDigits_inj_of_len_eq hbase _ hlt
    · exact fun d hd => lt_of_mem_numeral hbase (List.mem_reverse.mp hd)
    · rw [hn, ofDigits_numeral]
    · rw [List.length_reverse, List.length_reverse, hsame]

end Numerals

/-- The number that `printint` is to print. -/
def printed (xx : BitVec 64) (sign : Bool) : ℤ := if sign then xx.toInt else xx.toNat

/-- The sign is printed for a negative number, and its magnitude does not overflow, since it is
taken as unsigned. -/
lemma printed_cases (xx : BitVec 64) (sign : Bool) :
    ((sign && xx.slt 0) = true ↔ printed xx sign < 0) ∧
      (if (sign && xx.slt 0) = true then -xx else xx).toNat = (printed xx sign).natAbs := by
  have hlt := xx.isLt
  cases sign with
  | false =>
    refine ⟨⟨fun h => (Bool.false_ne_true h).elim, fun h => ?_⟩, ?_⟩
    · exact absurd h (not_lt.mpr (Int.natCast_nonneg _))
    · exact (Int.natAbs_natCast _).symm
  | true =>
    have hslt : (true && xx.slt 0) = true ↔ xx.toInt < 0 := by
      rw [Bool.true_and, BitVec.slt_eq_decide, decide_eq_true_iff]
      rfl
    refine ⟨hslt, ?_⟩
    show _ = xx.toInt.natAbs
    split_ifs with hneg
    · have hint := hslt.mp hneg
      rw [BitVec.toNat_neg]
      rw [BitVec.toInt_eq_toNat_cond] at hint ⊢
      split_ifs at hint ⊢ <;> omega
    · have hint := mt hslt.mpr hneg
      rw [BitVec.toInt_eq_toNat_cond] at hint ⊢
      split_ifs at hint ⊢ <;> omega

lemma Kernel.printint_eq (digits : Digits) (xx : BitVec 64) {base : ℕ} (hbase : 1 < base)
    (sign : Bool) :
    Kernel.printint digits xx base sign =
      if printed xx sign < 0 then '-'.toNat :: (numeral base (printed xx sign).natAbs).map digits
      else (numeral base (printed xx sign).natAbs).map digits := by
  obtain ⟨hneg, habs⟩ := printed_cases xx sign
  have hlt : (printed xx sign).natAbs < base ^ (63 + 1) := by
    rw [← habs]
    exact (BitVec.isLt _).trans_le (Nat.pow_le_pow_left hbase 64)
  have hloop := digitLoop_eq digits hbase 63 [] hlt
  rw [List.append_nil] at hloop
  unfold Kernel.printint
  dsimp only
  rw [habs, hloop]
  exact if_congr hneg rfl rfl

/-- The printer never needs more than the 20 characters of its buffer. -/
lemma Kernel.length_printint_le (digits : Digits) (xx : BitVec 64) {base : ℕ} (hbase : 10 ≤ base)
    (sign : Bool) : (Kernel.printint digits xx base sign).length ≤ 20 := by
  have hpow (n : ℕ) : 10 ^ n ≤ base ^ n := Nat.pow_le_pow_left hbase n
  obtain ⟨hlo, hhi⟩ : -2 ^ 63 ≤ printed xx sign ∧ printed xx sign < 2 ^ 64 := by
    have hlt := xx.isLt
    unfold printed
    rw [BitVec.toInt_eq_toNat_cond]
    split_ifs <;> omega
  rw [Kernel.printint_eq digits xx (by omega)]
  split_ifs with hneg
  · have h19 := hpow (18 + 1)
    rw [List.length_cons, List.length_map]
    exact Nat.succ_le_succ (length_numeral_le (by omega) (by omega))
  · have h20 := hpow (19 + 1)
    rw [List.length_map]
    exact length_numeral_le (by omega) (by omega)

theorem Kernel.printintBuf_eq (digits : Digits) (buf : ℕ → ℕ) (xx : BitVec 64) {base : ℕ}
    (hbase : 10 ≤ base) (sign : Bool) :
    Kernel.printintBuf digits buf xx base sign = some (Kernel.printint digits xx base sign) := by
  have hlen := Kernel.length_printint_le digits xx hbase sign
  have hpow : 2 ^ 64 ≤ base ^ (63 + 1) := Nat.pow_le_pow_left (by omega) 64
  unfold Kernel.printint at hlen ⊢
  unfold Kernel.printintBuf
  dsimp only at hlen ⊢
  generalize (if (sign && xx.slt 0) = true then -xx else xx) = x at hlen ⊢
  have hfits : (digitLoop digits base (63 + 1) x.toNat []).length ≤ 20 := by
    split_ifs at hlen
    · exact (Nat.le_succ _).trans hlen
    · exact hlen
  obtain ⟨b, hfill, hlist⟩ := fillLoop_eq digits base ⟨buf, 0⟩ (x.isLt.trans_le hpow) hfits
  rw [hfill, Option.bind_eq_bind, Option.bind_some]
  by_cases hneg : (sign && xx.slt 0) = true
  · rw [if_pos hneg, List.length_cons] at hlen
    obtain ⟨b', hput, hlist'⟩ := b.put_eq (by rw [← Buf.length_list, hlist]; exact hlen) '-'.toNat
    rw [if_pos hneg, if_pos hneg, hput, Option.bind_some]
    exact congrArg some (hlist'.trans (congrArg _ hlist))
  · rw [if_neg hneg, if_neg hneg, Option.bind_some]
    exact congrArg some hlist

/-- The kernel prints every integer by its one shortest numeral, signed or not, and does not leave
the 20 bytes of its buffer. -/
theorem Kernel.printint_exact (buf : ℕ → ℕ) (xx : BitVec 64) (base : ℕ)
    (hbase : base = 10 ∨ base = 16) (sign : Bool) :
    ∃ out, Kernel.printintBuf Kernel.digits buf xx base sign = some out ∧
      Numeral Kernel.digits base (if sign then xx.toInt else xx.toNat) out ∧
      ∀ out', Numeral Kernel.digits base (if sign then xx.toInt else xx.toNat) out' →
        out.length < out'.length ∨ out' = out := by
  have hb : 1 < base := by omega
  refine ⟨_, Kernel.printintBuf_eq _ buf xx (by omega) sign, ?_⟩
  rw [Kernel.printint_eq _ xx hb sign]
  show Numeral _ base (printed xx sign) _ ∧ ∀ out', Numeral _ base (printed xx sign) out' → _
  generalize printed xx sign = v
  have hvalue := @ofDigits_numeral base v.natAbs
  refine ⟨⟨numeral base v.natAbs, numeral_ne_nil _, fun d => lt_of_mem_numeral hb, ?_⟩, ?_⟩
  · split_ifs with hneg
    · exact Or.inr ⟨rfl, by omega⟩
    · exact Or.inl ⟨rfl, by omega⟩
  · rintro out ⟨ds, hne, hds, hout⟩
    have habs : v.natAbs = Nat.ofDigits base ds.reverse := by omega
    have hshort := numeral_unique hb hne hds
    rw [habs]
    obtain ⟨rfl, hv⟩ | ⟨rfl, hv⟩ := hout
    · rw [if_neg (by omega), List.length_map, List.length_map]
      exact hshort.imp_right (congrArg _)
    · split_ifs with hneg
      · rw [List.length_cons, List.length_cons, List.length_map, List.length_map]
        exact hshort.imp Nat.succ_lt_succ
          (congrArg fun l : List ℕ => '-'.toNat :: l.map Kernel.digits)
      · -- zero has no sign
        have hzero : Nat.ofDigits base ds.reverse = 0 := by omega
        rw [hzero, List.length_cons, List.length_map, List.length_map]
        exact Or.inl (Nat.succ_lt_succ (List.length_pos_iff.mpr hne))

theorem Kernel.printint_exact_min :
    ∃ out, Kernel.printintBuf Kernel.digits (fun _ => 0) (BitVec.intMin 64) 10 true = some out ∧
      Numeral Kernel.digits 10 (-2 ^ 63) out := by
  obtain ⟨out, hout, hnum, -⟩ :=
    Kernel.printint_exact (fun _ => 0) (BitVec.intMin 64) 10 (Or.inl rfl) true
  exact ⟨out, hout, hnum⟩

end Xv6.Printf
