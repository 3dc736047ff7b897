import Mathlib.Tactic

/-!
# Formatted output

`vprintf` of `user/printf.c`, a machine with a state, and `printf` of `kernel/printf.c`,
which looks ahead, with their own integer printers. A format is a list of bytes that reads
as 0 beyond its end. The arguments are the 64-bit slots that `va_arg` takes one by one, and
`str` gives the string at an address. A character of the output is the argument of `putc` or
of `consputc`.
-/
namespace Xv6.Printf

/-- Byte `i` of the format. -/
def fmtAt (fmt : List UInt8) (i : ℕ) : ℕ := (fmt.getD i 0).toNat

/-- What a conversion reads: the strings in memory and the arguments. -/
structure Args where
  str : BitVec 64 → List UInt8
  slot : ℕ → BitVec 64

/-- The string for `%s`; the null pointer has one of its own. -/
def Args.text (a : Args) (ap : ℕ) : List ℕ :=
  if a.slot ap = 0 then ['(', 'n', 'u', 'l', 'l', ')'].map Char.toNat
  else (a.str (a.slot ap)).map UInt8.toNat

/-- `va_arg(ap, int)` as a `long long`. -/
def Args.int (a : Args) (ap : ℕ) : BitVec 64 := ((a.slot ap).setWidth 32).signExtend 64

def Args.uint32 (a : Args) (ap : ℕ) : BitVec 64 := ((a.slot ap).setWidth 32).setWidth 64

/-- The characters for the digits. -/
abbrev Digits := ℕ → ℕ

/-- The loop that fills `buf` with digits, the last one first. A number of 64 bits has no
more than 64 digits. -/
def digitLoop (digits : Digits) (base : ℕ) : ℕ → ℕ → List ℕ → List ℕ
  | 0, _, buf => buf
  | k + 1, x, buf =>
    if x / base ≠ 0 then digitLoop digits base k (x / base) (digits (x % base) :: buf)
    else digits (x % base) :: buf

def ptrLoop (digits : Digits) : ℕ → BitVec 64 → List ℕ
  | 0, _ => []
  | k + 1, x => digits (x >>> 60).toNat :: ptrLoop digits k (x <<< 4)

/-- `printptr`, which is the same in both files. -/
def printptr (digits : Digits) (x : BitVec 64) : List ℕ :=
  '0'.toNat :: 'x'.toNat :: ptrLoop digits 16 x

namespace User

def digits : Digits := fun i =>
  (['0', '1', '2', '3', '4', '5', '6', '7', '8', '9', 'A', 'B', 'C', 'D', 'E', 'F'].getD i '0').toNat

/-- The magnitude is kept in a `uint`. -/
def printint (digits : Digits) (xx : BitVec 64) (base : ℕ) (sgn : Bool) : List ℕ :=
  let neg := sgn && xx.slt 0
  let x : BitVec 32 := if neg then (-xx).setWidth 32 else xx.setWidth 32
  let buf := digitLoop digits base 64 x.toNat []
  if neg then '-'.toNat :: buf else buf

/-- A conversion: what it prints, how many more characters of the format it takes, and how
many arguments. -/
def conversion (digits : Digits) (a : Args) (ap c0 c1 c2 : ℕ) : List ℕ × ℕ × ℕ :=
  if c0 = 'd'.toNat then (printint digits (a.int ap) 10 true, 0, 1)
  else if c0 = 'l'.toNat ∧ c1 = 'd'.toNat then (printint digits (a.slot ap) 10 true, 1, 1)
  else if c0 = 'l'.toNat ∧ c1 = 'l'.toNat ∧ c2 = 'd'.toNat then
    (printint digits (a.slot ap) 10 true, 2, 1)
  else if c0 = 'u'.toNat then (printint digits (a.uint32 ap) 10 false, 0, 1)
  else if c0 = 'l'.toNat ∧ c1 = 'u'.toNat then (printint digits (a.slot ap) 10 false, 1, 1)
  else if c0 = 'l'.toNat ∧ c1 = 'l'.toNat ∧ c2 = 'u'.toNat then
    (printint digits (a.slot ap) 10 false, 2, 1)
  else if c0 = 'x'.toNat then (printint digits (a.uint32 ap) 16 false, 0, 1)
  else if c0 = 'l'.toNat ∧ c1 = 'x'.toNat then (printint digits (a.slot ap) 16 false, 1, 1)
  else if c0 = 'l'.toNat ∧ c1 = 'l'.toNat ∧ c2 = 'x'.toNat then
    (printint digits (a.slot ap) 16 false, 2, 1)
  else if c0 = 'p'.toNat then (printptr digits (a.slot ap), 0, 1)
  else if c0 = 'c'.toNat then ([(a.uint32 ap).toNat % 256], 0, 1)
  else if c0 = 's'.toNat then (a.text ap, 0, 1)
  else if c0 = '%'.toNat then (['%'.toNat], 0, 0)
  else (['%'.toNat, c0], 0, 0)

/-- The loop of `vprintf`; `state` says if the last character was a `%`. Every turn moves on
in the format. -/
def vprintfLoop (digits : Digits) (fmt : List UInt8) (a : Args) : ℕ → ℕ → Bool → ℕ → List ℕ
  | 0, _, _, _ => []
  | k + 1, i, state, ap =>
    let c0 := fmtAt fmt i
    if c0 = 0 then
      []
    else if state = false then
      if c0 = '%'.toNat then vprintfLoop digits fmt a k (i + 1) true ap
      else c0 :: vprintfLoop digits fmt a k (i + 1) false ap
    else
      let c1 := if c0 ≠ 0 then fmtAt fmt (i + 1) else 0
      let c2 := if c1 ≠ 0 then fmtAt fmt (i + 2) else 0
      let r := conversion digits a ap c0 c1 c2
      r.1 ++ vprintfLoop digits fmt a k (i + 1 + r.2.1) false (ap + r.2.2)

def vprintf (digits : Digits) (fmt : List UInt8) (a : Args) : List ℕ :=
  vprintfLoop digits fmt a (fmt.length + 1) 0 false 0

end User

namespace Kernel

def digits : Digits := fun i =>
  (['0', '1', '2', '3', '4', '5', '6', '7', '8', '9', 'a', 'b', 'c', 'd', 'e', 'f'].getD i '0').toNat

/-- The magnitude is kept in an `unsigned long long`. -/
def printint (digits : Digits) (xx : BitVec 64) (base : ℕ) (sign : Bool) : List ℕ :=
  let sign := sign && xx.slt 0
  let x : BitVec 64 := if sign then -xx else xx
  let buf := digitLoop digits base 64 x.toNat []
  if sign then '-'.toNat :: buf else buf

/-- A conversion, but for the end of the format. -/
def conversion (digits : Digits) (a : Args) (ap c0 c1 c2 : ℕ) : List ℕ × ℕ × ℕ :=
  if c0 = 'd'.toNat then (printint digits (a.int ap) 10 true, 0, 1)
  else if c0 = 'l'.toNat ∧ c1 = 'd'.toNat then (printint digits (a.slot ap) 10 true, 1, 1)
  else if c0 = 'l'.toNat ∧ c1 = 'l'.toNat ∧ c2 = 'd'.toNat then
    (printint digits (a.slot ap) 10 true, 2, 1)
  else if c0 = 'u'.toNat then (printint digits (a.uint32 ap) 10 false, 0, 1)
  else if c0 = 'l'.toNat ∧ c1 = 'u'.toNat then (printint digits (a.slot ap) 10 false, 1, 1)
  else if c0 = 'l'.toNat ∧ c1 = 'l'.toNat ∧ c2 = 'u'.toNat then
    (printint digits (a.slot ap) 10 false, 2, 1)
  else if c0 = 'x'.toNat then (printint digits (a.uint32 ap) 16 false, 0, 1)
  else if c0 = 'l'.toNat ∧ c1 = 'x'.toNat then (printint digits (a.slot ap) 16 false, 1, 1)
  else if c0 = 'l'.toNat ∧ c1 = 'l'.toNat ∧ c2 = 'x'.toNat then
    (printint digits (a.slot ap) 16 false, 2, 1)
  else if c0 = 'p'.toNat then (printptr digits (a.slot ap), 0, 1)
  else if c0 = 'c'.toNat then ([(a.uint32 ap).toNat], 0, 1)
  else if c0 = 's'.toNat then (a.text ap, 0, 1)
  else if c0 = '%'.toNat then (['%'.toNat], 0, 0)
  else (['%'.toNat, c0], 0, 0)

end Kernel

end Xv6.Printf
