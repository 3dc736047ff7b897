import Xv6.Vm

/-!
# User memory as the kernel's copies see it

`copyout` and `copyin` of `kernel/vm.c` over an address space that is a view of bytes,
with the pages that each of them may use; a page that can be allocated on demand is one
of these. They go page by page and stop at the first page that they may not use, so each
of them reaches a prefix of its range.
-/
namespace Xv6.UserMem

open Vm (PGSIZE MAXVA pgrounddown)

/-- An address space. A page is known by its number. -/
structure Space where
  byte : ℕ → UInt8
  readable : ℕ → Bool
  writable : ℕ → Bool
  readable_lt : ∀ pg, readable pg = true → pg * PGSIZE < MAXVA
  writable_lt : ∀ pg, writable pg = true → pg * PGSIZE < MAXVA

namespace Space

/-- The bytes `xs` are put at `a`. -/
def store (u : Space) (a : ℕ) (xs : List UInt8) : Space :=
  { u with byte := fun b => if a ≤ b ∧ b < a + xs.length then xs.getD (b - a) 0 else u.byte b }

/-- Can `copyout` write the byte at `a`? -/
def canWrite (u : Space) (a : ℕ) : Bool := u.writable (a / PGSIZE)

/-- Two views of one address space that differ at most in `[a, a + len)`. -/
def SameOutside (u v : Space) (a len : ℕ) : Prop := ∀ b, b < a ∨ a + len ≤ b → v.byte b = u.byte b

variable {u v : Space} {a : ℕ} {xs : List UInt8}

end Space

/-- The length of the longest prefix of `[a, a + len)` whose addresses all have `ok`. -/
def reach (ok : ℕ → Bool) : ℕ → ℕ → ℕ
  | _, 0 => 0
  | a, len + 1 => if ok a then reach ok (a + 1) len + 1 else 0

section Reach

variable {ok : ℕ → Bool} {a len : ℕ}

end Reach

/-- The rest of the page of `a`, and not more than `len` bytes. -/
def pagePart (a len : ℕ) : ℕ := min (PGSIZE - (a - pgrounddown a)) len

/-- The loop of `copyout`; every round copies some bytes, so that many rounds are enough. -/
def copyoutLoop : ℕ → Space → ℕ → List UInt8 → Bool × Space
  | 0, u, _, src => (src.isEmpty, u)
  | fuel + 1, u, dstva, src =>
    if src = [] then
      (true, u)
    else if u.writable (pgrounddown dstva / PGSIZE) then
      let n := pagePart dstva src.length
      copyoutLoop fuel (u.store dstva (src.take n)) (pgrounddown dstva + PGSIZE) (src.drop n)
    else
      (false, u)

/-- Returns if it succeeds. -/
def copyout (u : Space) (dstva : ℕ) (src : List UInt8) : Bool × Space :=
  copyoutLoop src.length u (dstva % 2 ^ 64) src

variable {a len : ℕ}

/-- The byte at `addr + i` can be written; the sum has 64 bits. -/
def dst (u : Space) (addr i : ℕ) : Bool := u.canWrite ((addr + i) % 2 ^ 64)

end Xv6.UserMem
