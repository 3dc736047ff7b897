import Xv6.Printf

/-!
# The two `printf`s agree

A format means a list of pieces. Both programs print these one by one, and differ in what
they print for a conversion: a `uint` cannot hold every magnitude of 64 bits.
-/
namespace Xv6.Printf

inductive Directive where
  | int (long sgn : Bool) (base : ℕ)
  | ptr
  | char
  | str
  | percent
  | unknown (c : ℕ)
  deriving DecidableEq

/-- How many arguments a conversion takes. -/
def Directive.args : Directive → ℕ
  | .percent | .unknown _ => 0
  | .int .. | .ptr | .char | .str => 1

/-- The value that a conversion of integers prints. -/
def Args.value (a : Args) (ap : ℕ) (long sgn : Bool) : BitVec 64 :=
  if long then a.slot ap else if sgn then a.int ap else a.uint32 ap

/-- What a conversion prints, given the integer printer and the type of a character. -/
def output (printint : BitVec 64 → ℕ → Bool → List ℕ) (char : ℕ → ℕ) (digits : Digits) (a : Args) :
    Directive → ℕ → List ℕ
  | .int long sgn base, ap => printint (a.value ap long sgn) base sgn
  | .ptr, ap => printptr digits (a.slot ap)
  | .char, ap => [char (a.uint32 ap).toNat]
  | .str, ap => a.text ap
  | .percent, _ => ['%'.toNat]
  | .unknown c, _ => ['%'.toNat, c]

def User.output (digits : Digits) (a : Args) : Directive → ℕ → List ℕ :=
  Printf.output (User.printint digits) (· % 256) digits a

def Kernel.output (digits : Digits) (a : Args) : Directive → ℕ → List ℕ :=
  Printf.output (Kernel.printint digits) id digits a

section Refinement

variable (digits : Digits) (fmt : List UInt8) (a : Args)

end Refinement

/-- The magnitude that is printed: that of a signed number, or the number itself. -/
def magnitude (sgn : Bool) (w : BitVec 64) : BitVec 64 := if sgn && w.slt 0 then -w else w

lemma printint_eq (digits : Digits) {xx : BitVec 64} {sgn : Bool} (base : ℕ)
    (h : (magnitude sgn xx).toNat < 2 ^ 32) :
    User.printint digits xx base sgn = Kernel.printint digits xx base sgn := by
  have hx : (if sgn && xx.slt 0 then (-xx).setWidth 32 else xx.setWidth 32).toNat =
      (if sgn && xx.slt 0 then -xx else xx).toNat := by
    rw [← apply_ite (BitVec.setWidth 32), BitVec.toNat_setWidth]
    exact Nat.mod_eq_of_lt h
  unfold User.printint Kernel.printint
  dsimp only
  rw [hx]

/-- The same character, or the two cases of a hexadecimal digit. -/
def SameUpToCase (c c' : ℕ) : Prop :=
  c = c' ∨ ('A'.toNat ≤ c ∧ c ≤ 'F'.toNat ∧ c' = c + 32)

lemma SameUpToCase.refl (c : ℕ) : SameUpToCase c c := Or.inl rfl

section Tables

variable {R : ℕ → ℕ → Prop} {digits digits' : Digits} (hR : ∀ c, R c c)
  (hd : ∀ i, R (digits i) (digits' i))
include hd

include hR

end Tables

end Xv6.Printf
