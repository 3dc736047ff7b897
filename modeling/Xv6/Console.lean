import Xv6.Runs
import Xv6.WrapRing

/-!
# The console

`consoleintr` and `consoleread` of `kernel/console.c`. Both hold `cons.lock`, so one
step is what a call does from taking the lock until it returns or sleeps. A reader that
sleeps may take the lock again at any time, woken or not. The echo to the uart and the
process list of `^P` are left out.
-/
namespace Xv6.Console

open Function WrapRing

abbrev INPUT_BUF_SIZE : ℕ := 128

def ctrl (x : Char) : UInt8 := x.toUInt8 - '@'.toUInt8

abbrev newline : UInt8 := 10
abbrev carriageReturn : UInt8 := 13
abbrev delete : UInt8 := 0x7f

/-- `struct cons`. The indices are `uint`s that are never reduced. -/
structure Cons where
  buf : ℕ → UInt8
  r : BitVec 32
  w : BitVec 32
  e : BitVec 32

/-- The loop of `^U`; it makes at most `e - w` turns. -/
def killLine : ℕ → Cons → Cons
  | 0, s => s
  | k + 1, s =>
    if s.e ≠ s.w ∧ s.buf (cell INPUT_BUF_SIZE (s.e - 1#32)) ≠ newline then
      killLine k { s with e := s.e - 1#32 }
    else
      s

def store (s : Cons) (c : UInt8) : Cons :=
  let c := if c = carriageReturn then newline else c
  let s := { s with buf := update s.buf (cell INPUT_BUF_SIZE s.e) c, e := s.e + 1#32 }
  if c = newline ∨ c = ctrl 'D' ∨ (s.e - s.r).toNat = INPUT_BUF_SIZE then
    { s with w := s.e }
  else
    s

def consoleintr (s : Cons) (c : UInt8) : Cons :=
  if c = ctrl 'P' then
    s
  else if c = ctrl 'U' then
    killLine (s.e - s.w).toNat s
  else if c = ctrl 'H' ∨ c = delete then
    if s.e ≠ s.w then { s with e := s.e - 1#32 } else s
  else if c ≠ 0 ∧ (s.e - s.r).toNat < INPUT_BUF_SIZE then
    store s c
  else
    s

/-- A call of `consoleread`: its variables `target` and `n`, if `either_copyout` can write
the byte at `dst + i`, and the bytes that it has written. -/
structure Read where
  dst : ℕ → Bool
  target : ℕ
  n : ℕ
  got : List UInt8

/-- How a call leaves the lock. -/
inductive Stop where
  | done
  | killed
  | sleep
  deriving DecidableEq, Repr

/-- The loop of `consoleread`, up to the end or the next sleep; with the rest `n`. -/
def readLoop (killed : Bool) (dst : ℕ → Bool) (target : ℕ) :
    ℕ → List UInt8 → Cons → Stop × ℕ × List UInt8 × Cons
  | 0, got, s => (.done, 0, got, s)
  | n + 1, got, s =>
    if s.r = s.w then
      (if killed then .killed else .sleep, n + 1, got, s)
    else
      let c := s.buf (cell INPUT_BUF_SIZE s.r)
      let s := { s with r := s.r + 1#32 }
      if c = ctrl 'D' then
        (.done, n + 1, got, if n + 1 < target then { s with r := s.r - 1#32 } else s)
      else if dst (target - (n + 1)) = false then
        (.done, n + 1, got, s)
      else if c = newline then
        (.done, n, got ++ [c], s)
      else
        readLoop killed dst target n (got ++ [c]) s

/-- The console and the processes that read it, with what their calls have returned. -/
structure State (P : Type*) where
  cons : Cons
  reader : P → Option Read
  returns : List (P × ℤ × List UInt8)

variable {P : Type*} [DecidableEq P]

/-- A reader holds the lock until it sleeps or returns. -/
def turn (s : State P) (p : P) (killed : Bool) (rd : Read) : State P :=
  match readLoop killed rd.dst rd.target rd.n rd.got s.cons with
  | (.sleep, n, got, c) =>
    { s with cons := c, reader := update s.reader p (some { rd with n := n, got := got }) }
  | (.killed, _, got, c) =>
    ⟨c, update s.reader p none, s.returns ++ [(p, -1, got)]⟩
  | (.done, n, got, c) =>
    ⟨c, update s.reader p none, s.returns ++ [(p, (rd.target : ℤ) - n, got)]⟩

/-- `killed` is what `killed(myproc())` says if the call asks. -/
inductive Event (P : Type*) where
  | intr (c : UInt8)
  | read (p : P) (n : ℤ) (dst : ℕ → Bool) (killed : Bool)
  | resume (p : P) (killed : Bool)

def step (s : State P) : Event P → Option (State P)
  | .intr c => some { s with cons := consoleintr s.cons c }
  | .read p n dst killed =>
    if (s.reader p).isNone then some (turn s p killed ⟨dst, n.toNat, n.toNat, []⟩) else none
  | .resume p killed => (s.reader p).map (turn s p killed)

def init : State P := ⟨⟨fun _ => 0, 0#32, 0#32, 0#32⟩, fun _ => none, []⟩

end Xv6.Console
