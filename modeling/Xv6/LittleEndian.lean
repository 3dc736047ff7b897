import Mathlib.Tactic

/-!
# Numbers as little-endian bytes

The value of a list of bytes, least significant first, and the bytes of a number.
-/
namespace LittleEndian

/-- The number that bytes stand for. -/
def value : List UInt8 → ℕ
  | [] => 0
  | b :: bs => b.toNat + 256 * value bs

/-- The `k` low bytes of a number. -/
def bytes : ℕ → ℕ → List UInt8
  | 0, _ => []
  | k + 1, n => UInt8.ofNat n :: bytes k (n / 256)

end LittleEndian
