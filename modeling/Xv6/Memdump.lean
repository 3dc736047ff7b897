import Mathlib.Data.Bool.AllAny
import Mathlib.Data.List.TakeWhile
import Xv6.GrepLines
import Xv6.UserPrint

/-!
# `memdump`

`user/memdump.c` prints the bytes at a pointer as its format says. Nothing bounds the
pointer: a format that takes more than the 512 bytes of `data`, or a string without its zero,
goes on in what follows the array.
-/
namespace Xv6.Memdump

open Printf

/-- What a run did: the addresses it loaded from, what it printed, and whether a load was
from an address that the process does not have. -/
structure Trace where
  loads : List ℕ
  out : Output
  killed : Bool

/-- The bytes at the addresses of the process; `none` where it may not load from. -/
abbrev Memory := List (Option UInt8)

/-- A load of `n` bytes. -/
def load (mem : Memory) (a : ℕ) : ℕ → Option (List UInt8)
  | 0 => some []
  | n + 1 => (mem.getD a none).bind fun b => (load mem (a + 1) n).map (b :: ·)

/-- The number that bytes stand for, the lowest first. -/
def number (bytes : List UInt8) : ℕ := bytes.foldr (fun b v => b.toNat + 256 * v) 0

/-- The bytes up to a zero, and whether there is one. -/
def scan : Memory → List UInt8 × Bool
  | [] => ([], false)
  | none :: _ => ([], false)
  | some c :: s => if c = 0 then ([], true) else (c :: (scan s).1, (scan s).2)

/-- One argument for a conversion. -/
def arg (x : BitVec 64) : Args := ⟨fun _ => [], fun _ => x⟩

/-- The loads of `strlen(s)`. -/
def strlen (mem : Memory) (s : ℕ) : Trace :=
  ⟨List.range' s ((scan (mem.drop s)).1.length + 1), [], !(scan (mem.drop s)).2⟩

/-- The size of `data` in `main`. -/
abbrev DATA : ℕ := 512

/-- The loop of `main` that reads the standard input; the `i`-th `read` returns no more than
`chunk i` bytes. -/
def fill (chunk : ℕ → ℕ) (i : ℕ) (inp data : List UInt8) (n : ℕ) : List UInt8 :=
  if n < DATA then
    let nn := min (min (DATA - n) (chunk i)) inp.length
    if _h : nn = 0 then data
    else fill chunk (i + 1) (inp.drop nn) (Grep.store data n (inp.take nn)) (n + nn)
  else data
termination_by inp.length
decreasing_by
  rw [List.length_drop]
  omega

def padded (inp : List UInt8) : List UInt8 := (inp ++ List.replicate DATA 0).take DATA

def bytes (data : List UInt8) (off n : ℕ) : List UInt8 := (data.drop off).take n

def text (data : List UInt8) (off : ℕ) : List UInt8 := (data.drop off).takeWhile (· ≠ 0)

/-- How many bytes a format character takes. -/
def size (data : List UInt8) (c : UInt8) (off : ℕ) : ℕ :=
  if c = 'i'.toUInt8 then 4
  else if c = 'p'.toUInt8 then 8
  else if c = 'h'.toUInt8 then 2
  else if c = 'c'.toUInt8 then 1
  else (text data off).length + 1

/-- Every character finds its bytes in the array, and 32 bits hold what `p` prints. -/
def Fits (data : List UInt8) : List UInt8 → ℕ → Prop
  | [], _ => True
  | c :: fmt, off =>
    off + size data c off ≤ DATA ∧
      (c = 'p'.toUInt8 → number (bytes data off 8) < 2 ^ 32) ∧
      Fits data fmt (off + size data c off)

section Array

variable {below above : Memory} {data : List UInt8} {off : ℕ}

end Array

end Xv6.Memdump
