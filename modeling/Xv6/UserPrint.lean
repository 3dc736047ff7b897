import Xv6.PrintfAgree

/-!
# What user programs print

The numeral that `printint` writes, and the output of the format strings that the programs
use. Output is a list of characters, each with the descriptor it goes to.
-/
namespace Xv6.Printf

/-- The digits of a number, the first one first. -/
def numeral (base n : ℕ) : List ℕ := if n = 0 then [0] else (Nat.digits base n).reverse

lemma numeral_of_lt {base n : ℕ} (h : n < base) : numeral base n = [n] := by
  rw [numeral]
  split
  · next h0 => rw [h0]
  · next h0 => rw [Nat.digits_of_lt base n h0 h, List.reverse_singleton]

lemma numeral_of_le {base n : ℕ} (hb : 1 < base) (h : base ≤ n) :
    numeral base n = numeral base (n / base) ++ [n % base] := by
  have hq : n / base ≠ 0 := (Nat.div_pos h (by omega)).ne'
  rw [numeral, if_neg (by omega), Nat.digits_def' hb (by omega), List.reverse_cons, numeral,
    if_neg hq]

/-- The loop of `printint` writes the numeral in front of the buffer. -/
lemma digitLoop_eq (digits : Digits) {base : ℕ} (hb : 1 < base) (k : ℕ) {x : ℕ} (buf : List ℕ)
    (hx : x < base ^ (k + 1)) :
    digitLoop digits base (k + 1) x buf = (numeral base x).map digits ++ buf := by
  induction k generalizing x buf with
  | zero =>
    rw [zero_add, pow_one] at hx
    rw [digitLoop, if_neg (by rw [Nat.div_eq_of_lt hx]; exact not_not.mpr rfl),
      numeral_of_lt hx, Nat.mod_eq_of_lt hx]
    rfl
  | succ k ih =>
    rw [digitLoop]
    split
    · next hq =>
      have hle : base ≤ x := by
        by_contra hlt
        exact hq (Nat.div_eq_of_lt (Nat.lt_of_not_le hlt))
      have hlt : x / base < base ^ (k + 1) := Nat.div_lt_of_lt_mul (by rwa [← pow_succ'])
      rw [ih _ hlt, numeral_of_le hb hle, List.map_append, List.append_assoc]
      rfl
    · next hq =>
      have hlt : x < base := by
        rw [not_not, Nat.div_eq_zero_iff] at hq
        omega
      rw [numeral_of_lt hlt, Nat.mod_eq_of_lt hlt]
      rfl

/-- Characters with the descriptors they are written to. -/
abbrev Output := List (ℕ × ℕ)

/-- `fprintf(fd, fmt, ...)`. -/
def fprintf (fd : ℕ) (fmt : List Char) (a : Args) : Output :=
  (User.vprintf User.digits (fmt.map fun c => c.toNat.toUInt8) a).map fun c => (fd, c)

/-- A text followed by a newline, on the standard output. -/
def printLine (text : List ℕ) : Output := (text ++ ['\n'.toNat]).map fun c => (1, c)

end Xv6.Printf
