import Xv6.LinkedCycle

/-!
# The allocator of user programs

`malloc`, `free` and `morecore` of `user/umalloc.c`. An address is a number of bytes, and the
memory gives the header at an address; headers that the program uses never overlap in part.
The size of a block is a `uint`, counted in headers of 16 bytes. The loops carry a bound on
their turns. What `sbrk` does is a function of a state that `malloc` passes on.
-/
namespace Xv6.Umalloc

open Function LinkedCycle

structure Header where
  ptr : ℕ
  /-- A `uint`. -/
  size : ℕ

/-- `sizeof(Header)`. -/
abbrev HEADER : ℕ := 16

/-- The memory, and `freep`, which is 0 at first. -/
structure Heap where
  mem : ℕ → Header
  freep : ℕ

/-- `p->s.ptr = v`. -/
def setPtr (mem : ℕ → Header) (p v : ℕ) : ℕ → Header := update mem p { mem p with ptr := v }

/-- `p->s.size = v`. -/
def setSize (mem : ℕ → Header) (p v : ℕ) : ℕ → Header := update mem p { mem p with size := v }

def addSize (m k : ℕ) : ℕ := (m + k) % 2 ^ 32

def blockEnd (mem : ℕ → Header) (p : ℕ) : ℕ := p + HEADER * (mem p).size

/-- The loop of `free` ends at `p`: `bp` belongs after `p`, or at the end of the list. -/
def stops (mem : ℕ → Header) (bp p : ℕ) : Bool :=
  (bp > p && bp < (mem p).ptr) || (p ≥ (mem p).ptr && (bp > p || bp < (mem p).ptr))

/-- Put `bp` after `p`, joined to its neighbours. -/
def insertAfter (mem : ℕ → Header) (p bp : ℕ) : ℕ → Header :=
  let mem :=
    if blockEnd mem bp = (mem p).ptr then
      let mem' := setSize mem bp (addSize (mem bp).size (mem (mem p).ptr).size)
      setPtr mem' bp (mem' (mem' p).ptr).ptr
    else setPtr mem bp (mem p).ptr
  if blockEnd mem p = bp then
    let mem' := setSize mem p (addSize (mem p).size (mem bp).size)
    setPtr mem' p (mem' bp).ptr
  else setPtr mem p bp

def free (fuel : ℕ) (h : Heap) (ap : ℕ) : Option Heap :=
  let bp := ap - HEADER
  (search (stops h.mem bp) (fun p => (h.mem p).ptr) fuel h.freep).map fun p =>
    { mem := insertAfter h.mem p bp, freep := p }

variable {S : Type} (sbrk : S → ℤ → Option ℕ × S)

/-- The value of `nu * sizeof(Header)` as the `int` that `sbrk` takes. -/
def sbrkArg (nu : ℕ) : ℤ := (BitVec.ofNat 32 (nu * HEADER)).toInt

/-- `morecore`: 0 if there is no memory, else `freep`. -/
def morecore (fuel : ℕ) (h : Heap) (st : S) (nu : ℕ) : Option (ℕ × Heap × S) :=
  let nu := if nu < 4096 then 4096 else nu
  match sbrk st (sbrkArg nu) with
  | (none, st) => some (0, h, st)
  | (some hp, st) =>
    (free fuel { h with mem := setSize h.mem hp nu } (hp + HEADER)).map fun h => (h.freep, h, st)

/-- Take `nunits` from the block at `p`, which `prevp` points to. -/
def take (mem : ℕ → Header) (prevp p nunits : ℕ) : (ℕ → Header) × ℕ :=
  if (mem p).size = nunits then (setPtr mem prevp (mem p).ptr, p)
  else
    let mem := setSize mem p ((mem p).size - nunits)
    let p := p + HEADER * (mem p).size
    (setSize mem p nunits, p)

/-- The loop of `malloc`; the result is 0 or a pointer. -/
def mallocLoop (nunits : ℕ) : ℕ → Heap → S → ℕ → ℕ → Option (ℕ × Heap × S)
  | 0, _, _, _, _ => none
  | fuel + 1, h, st, prevp, p =>
    if (h.mem p).size ≥ nunits then
      let r := take h.mem prevp p nunits
      some (r.2 + HEADER, { mem := r.1, freep := prevp }, st)
    else if p = h.freep then
      (morecore sbrk fuel h st nunits).bind fun r =>
        if r.1 = 0 then some (0, r.2)
        else mallocLoop nunits fuel r.2.1 r.2.2 r.1 (r.2.1.mem r.1).ptr
    else mallocLoop nunits fuel h st p (h.mem p).ptr

/-- The number of headers for a request, with its own. -/
def units (nbytes : ℕ) : ℕ := (nbytes + HEADER - 1) / HEADER + 1

/-- `malloc`; `base` is the address of `base`. -/
def malloc (base fuel : ℕ) (h : Heap) (st : S) (nbytes : ℕ) : Option (ℕ × Heap × S) :=
  let nunits := units nbytes % 2 ^ 32
  let h :=
    if h.freep = 0 then { mem := setSize (setPtr h.mem base base) base 0, freep := base } else h
  mallocLoop sbrk nunits fuel h st h.freep (h.mem h.freep).ptr

end Xv6.Umalloc
