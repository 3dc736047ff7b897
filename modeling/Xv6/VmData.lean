import Xv6.VmGrow
import Xv6.WordBytes

/-!
# Copies between the kernel and user memory, with their bytes

`copyout`, `copyin` and `copyinstr` of `kernel/vm.c`, with the bytes that they move and the
64-bit arithmetic on addresses. What they do to page tables is what the functions of the same
names in `Xv6.Vm` do. The user's view of memory reads a page that is below the size of the
process and not yet allocated as zeros.
-/
namespace Xv6.Vm.Data

open Prog

variable (L : Layout)

/-- `memmove` to a page, from offset `o` on. -/
def putBytes (pa o : ℕ) (src : List UInt8) : VM Unit :=
  modify fun s => s.setPage pa (WordBytes.blit (s.mem pa) o src)

/-- `n` bytes of a page. -/
def bytesOf (s : State) (pa o n : ℕ) : List UInt8 :=
  (List.range n).map fun i => WordBytes.get (s.mem pa) (o + i)

/-- The page that a copy uses: the one that is mapped for the user, or else a new one. -/
def userPage (p : Pid) (pagetable va0 : ℕ) : VM (Option ℕ) := do
  match ← walkaddr pagetable va0 with
  | some pa0 => return some pa0
  | none => vmfault L p pagetable va0

/-- The loop of `copyout`; every round copies a byte. -/
def copyoutLoop (p : Pid) (pagetable : ℕ) : ℕ → ℕ → List UInt8 → VM Bool
  | 0, _, src => return src.isEmpty
  | fuel + 1, dstva, src =>
    if src = [] then
      return true
    else do
      let va0 := pgrounddown dstva
      if MAXVA ≤ va0 then
        return false
      else
        match ← userPage L p pagetable va0 with
        | none => return false
        | some pa0 =>
          match ← walk pagetable va0 false with
          | none => throw .null
          | some (q, k) =>
            if Pte.writable ((← get).mem q k) = false then
              return false
            else
              let n := min (PGSIZE - (dstva - va0)) src.length
              putBytes pa0 (dstva - va0) (src.take n)
              copyoutLoop p pagetable fuel ((va0 + PGSIZE) % 2 ^ 64) (src.drop n)

def copyout (p : Pid) (pagetable dstva : ℕ) (src : List UInt8) : VM Bool :=
  copyoutLoop L p pagetable src.length dstva src

/-- The loop of `copyin`; `dst` are the bytes copied so far. -/
def copyinLoop (p : Pid) (pagetable : ℕ) : ℕ → ℕ → ℕ → List UInt8 → VM (Bool × List UInt8)
  | 0, _, len, dst => return (len = 0, dst)
  | fuel + 1, srcva, len, dst =>
    if len = 0 then
      return (true, dst)
    else do
      let va0 := pgrounddown srcva
      match ← userPage L p pagetable va0 with
      | none => return (false, dst)
      | some pa0 =>
        let n := min (PGSIZE - (srcva - va0)) len
        let s ← get
        copyinLoop p pagetable fuel ((va0 + PGSIZE) % 2 ^ 64) (len - n)
          (dst ++ bytesOf s pa0 (srcva - va0) n)

/-- If it succeeds, and the bytes that it has copied when it stops. -/
def copyin (p : Pid) (pagetable srcva len : ℕ) : VM (Bool × List UInt8) :=
  copyinLoop L p pagetable len srcva len []

/-- The inner loop of `copyinstr`: copy up to a zero. -/
def copyChars : List UInt8 → List UInt8 → Bool × List UInt8
  | [], dst => (false, dst)
  | c :: cs, dst => if c = 0 then (true, dst ++ [0]) else copyChars cs (dst ++ [c])

def copyinstrLoop (pagetable : ℕ) : ℕ → ℕ → ℕ → List UInt8 → VM (Bool × List UInt8)
  | 0, _, _, dst => return (false, dst)
  | fuel + 1, srcva, max, dst =>
    if max = 0 then
      return (false, dst)
    else do
      let va0 := pgrounddown srcva
      match ← walkaddr pagetable va0 with
      | none => return (false, dst)
      | some pa0 =>
        let n := min (PGSIZE - (srcva - va0)) max
        let (gotNull, dst) := copyChars (bytesOf (← get) pa0 (srcva - va0) n) dst
        if gotNull then
          return (true, dst)
        else
          copyinstrLoop pagetable fuel ((va0 + PGSIZE) % 2 ^ 64) (max - n) dst

/-- If it succeeds, and the bytes that it has copied when it stops. -/
def copyinstr (pagetable srcva max : ℕ) : VM (Bool × List UInt8) :=
  copyinstrLoop pagetable max srcva max []

/-- The byte at an address as the process sees it, if it may read it: a page that is not
mapped and lies below the size reads as zero. -/
def userByte (s : State) (p : Pid) (r a : ℕ) : Option UInt8 :=
  if trampVpn < a / PGSIZE then
    none
  else
    match lookup s.mem r (a / PGSIZE) with
    | some e => if Pte.user e then some (WordBytes.get (s.mem (Pte.ppn e)) (a % PGSIZE)) else none
    | none => if pgrounddown a < (s.proc p).sz then some 0 else none

/-- The string at an address: the bytes before a zero that is one of the next `max` bytes,
all of them readable. -/
def stringAt (f : ℕ → Option UInt8) : ℕ → ℕ → Option (List UInt8)
  | _, 0 => none
  | a, max + 1 =>
    match f a with
    | none => none
    | some c => if c = 0 then some [] else (stringAt f (a + 1) max).map (c :: ·)

end Xv6.Vm.Data
