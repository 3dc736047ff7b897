import Xv6.Param
import Xv6.Prog
import Xv6.Radix

/-!
# Physical pages and page tables

`kernel/kalloc.c` and the page-table functions of `kernel/vm.c`. A physical address is
the number of its page, a virtual address is a number of bytes. A page of memory is
512 words. `kalloc` may return 0 at any call: the running operation carries a list of the calls that are refused.

The history records which entries `uvmunmap` frees and `uvmcopy` copies; no function
reads it.
-/
namespace Xv6.Vm

open Function

abbrev PGSIZE : ℕ := 4096
abbrev MAXVA : ℕ := 274877906944
abbrev TRAMPOLINE : ℕ := MAXVA - PGSIZE
abbrev TRAPFRAME : ℕ := TRAMPOLINE - PGSIZE

/-- The page of `PHYSTOP`. -/
abbrev physTop : ℕ := 0x88000

/-- What the linker decides: the page of `PGROUNDUP(end)`, and that of the trampoline
code in the kernel's text. -/
structure Layout where
  lo : ℕ
  trampoline : ℕ
  text : trampoline < lo

/-- Unsigned arithmetic in 64 bits. -/
def wrap (z : ℤ) : ℕ := (z % 2 ^ 64).toNat

def pgroundup (sz : ℕ) : ℕ := (sz + (PGSIZE - 1)) % 2 ^ 64 / PGSIZE * PGSIZE

def pgrounddown (a : ℕ) : ℕ := a / PGSIZE * PGSIZE

instance neZeroEntries : NeZero 512 := ⟨by decide⟩

/-- The index of an address in a page-table page of the level. -/
def px (level va : ℕ) : Fin 512 := Fin.ofNat _ (va / PGSIZE / 512 ^ level)

/-- A word of memory; a page-table entry is one. -/
abbrev Word := BitVec 64

abbrev PTE_V : BitVec 10 := 1
abbrev PTE_R : BitVec 10 := 2
abbrev PTE_W : BitVec 10 := 4
abbrev PTE_X : BitVec 10 := 8
abbrev PTE_U : BitVec 10 := 16

namespace Pte

/-- `PTE_FLAGS(pte)`. -/
def flags (e : Word) : BitVec 10 := e.setWidth 10

/-- The page of `PTE2PA(pte)`. -/
def ppn (e : Word) : ℕ := (e >>> 10).toNat

/-- `PA2PTE(pa) | flags`, for the address of a page, which has 64 bits. -/
def mk (pa : ℕ) (flags : BitVec 10) : Word :=
  (BitVec.ofNat 52 pa).setWidth 64 <<< 10 ||| flags.setWidth 64

def valid (e : Word) : Bool := e.getLsbD 0

def writable (e : Word) : Bool := e.getLsbD 2

def user (e : Word) : Bool := e.getLsbD 4

/-- Does the entry map a page, and not a page-table page? -/
def leaf (e : Word) : Bool := flags e &&& (PTE_R ||| PTE_W ||| PTE_X) ≠ 0

end Pte

/-- A page whose bytes are all 5, as `kalloc` fills it. -/
def junk5 : Word := 0x0505050505050505

/-- A page whose bytes are all 1, as `kfree` fills it. -/
def junk1 : Word := 0x0101010101010101

inductive ProcState where
  | unused
  | used
  | zombie
  deriving DecidableEq, Repr

/-- The fields of `struct proc` that concern memory. -/
structure Proc where
  state : ProcState
  pagetable : Option ℕ
  trapframe : Option ℕ
  sz : ℕ
  deriving DecidableEq, Repr

abbrev Pid := Fin NPROC

/-- An entry whose page is freed or copied as user memory: its address, its page, and
if that is the trampoline or the trapframe of a process. -/
structure Event where
  va : ℕ
  pa : ℕ
  special : Bool

structure State where
  mem : ℕ → Fin 512 → Word
  freelist : List ℕ
  proc : Pid → Proc
  /-- The pages that hold a pipe. -/
  pipes : List ℕ
  /-- Which of the next calls of `kalloc` are refused. -/
  refuse : List Bool
  events : List Event

inductive Panic where
  | kfree
  | walk
  | mappagesVa
  | mappagesSize
  | mappagesRemap
  | uvmunmap
  | freewalk
  | uvmclear
  | loadseg
  /-- No panic of the source: a pointer that is 0 is used. -/
  | null
  deriving DecidableEq, Repr

abbrev VM := Prog.M State Panic

variable (L : Layout)

def State.setPage (s : State) (pa : ℕ) (f : Fin 512 → Word) : State :=
  { s with mem := fun q => if q = pa then f else s.mem q }

def memset (pa : ℕ) (e : Word) : VM Unit := modify fun s => s.setPage pa fun _ => e

def memmove (dst src : ℕ) : VM Unit := modify fun s => s.setPage dst (s.mem src)

def kfree (pa : ℕ) : VM Unit := do
  if pa < L.lo ∨ physTop ≤ pa then
    throw .kfree
  memset pa junk1
  modify fun s => { s with freelist := pa :: s.freelist }

def kalloc : VM (Option ℕ) := do
  let s ← get
  set { s with refuse := s.refuse.tail }
  if s.refuse.head? = some true then
    return none
  else
    match s.freelist with
    | [] => return none
    | pa :: l => do
      modify fun s => { s with freelist := l }
      memset pa junk5
      return some pa

def setPte (q : ℕ) (k : Fin 512) (e : Word) : VM Unit :=
  modify fun s => s.setPage q fun i => if i = k then e else s.mem q i

/-- The body of the loop of `walk`: the next page-table page. -/
def walkLevel (q : ℕ) (i : Fin 512) (alloc : Bool) : VM (Option ℕ) := do
  let pte := (← get).mem q i
  if Pte.valid pte then
    return some (Pte.ppn pte)
  else if alloc then
    match ← kalloc with
    | none => return none
    | some pa => do
      memset pa 0
      setPte q i (Pte.mk pa PTE_V)
      return some pa
  else
    return none

/-- The address of an entry is its page and its index there. -/
def walk (pagetable va : ℕ) (alloc : Bool) : VM (Option (ℕ × Fin 512)) := do
  if MAXVA ≤ va then
    throw .walk
  match ← walkLevel pagetable (px 2 va) alloc with
  | none => return none
  | some q =>
    match ← walkLevel q (px 1 va) alloc with
    | none => return none
    | some q => return some (q, px 0 va)

/-- Look up a user page. -/
def walkaddr (pagetable va : ℕ) : VM (Option ℕ) := do
  if MAXVA ≤ va then
    return none
  else
    match ← walk pagetable va false with
    | none => return none
    | some (q, k) =>
      let pte := (← get).mem q k
      if Pte.valid pte = true ∧ Pte.user pte = true then
        return some (Pte.ppn pte)
      else
        return none

/-- Map one page. -/
def mappage (pagetable a pa : ℕ) (perm : BitVec 10) : VM Bool := do
  match ← walk pagetable a true with
  | none => return false
  | some (q, k) =>
    if Pte.valid ((← get).mem q k) then
      throw .mappagesRemap
    setPte q k (Pte.mk pa (perm ||| PTE_V))
    return true

/-- Returns if it succeeds. -/
def mappages (pagetable va size pa : ℕ) (perm : BitVec 10) : VM Bool := do
  if va % PGSIZE ≠ 0 then
    throw .mappagesVa
  if size % PGSIZE ≠ 0 ∨ size = 0 then
    throw .mappagesSize
  let failed ← Prog.search (fun i => do
    if ← mappage pagetable (va + i * PGSIZE) (pa + i) perm then
      return none
    else
      return some ()) 0 (size / PGSIZE)
  return failed.isNone

def uvmcreate : VM (Option ℕ) := do
  match ← kalloc with
  | none => return none
  | some pa =>
    memset pa 0
    return some pa

/-- Is the page the trampoline or the trapframe of a process? -/
def special (s : State) (pa : ℕ) : Bool :=
  pa = L.trampoline ∨ ∃ p, (s.proc p).trapframe = some pa

def record (va pa : ℕ) : VM Unit :=
  modify fun s => { s with events := s.events ++ [⟨va, pa, special L s pa⟩] }

/-- The body of the loop of `uvmunmap`. -/
def unmapPage (pagetable a : ℕ) (doFree : Bool) : VM Unit := do
  match ← walk pagetable a false with
  | none => pure ()
  | some (q, k) =>
    let pte := (← get).mem q k
    if Pte.valid pte then
      if doFree then
        record L a (Pte.ppn pte)
        kfree L (Pte.ppn pte)
      setPte q k 0

def uvmunmap (pagetable va npages : ℕ) (doFree : Bool) : VM Unit := do
  if va % PGSIZE ≠ 0 then
    throw .uvmunmap
  Prog.loop npages fun i => unmapPage L pagetable (va + i * PGSIZE) doFree

/-- The number of pages is an `int`; it is small wherever this is called. -/
def uvmdealloc (pagetable oldsz newsz : ℕ) : VM ℕ := do
  if oldsz ≤ newsz then
    return oldsz
  else
    if pgroundup newsz < pgroundup oldsz then
      uvmunmap L pagetable (pgroundup newsz) ((pgroundup oldsz - pgroundup newsz) / PGSIZE) true
    return newsz

/-- The body of the loop of `uvmalloc`, which returns on failure. -/
def allocPage (pagetable oldsz a : ℕ) (xperm : BitVec 10) : VM (Option Unit) := do
  match ← kalloc with
  | none =>
    let _ ← uvmdealloc L pagetable a oldsz
    return some ()
  | some mem =>
    memset mem 0
    if ← mappages pagetable a PGSIZE mem (PTE_R ||| PTE_U ||| xperm) then
      return none
    else
      kfree L mem
      let _ ← uvmdealloc L pagetable a oldsz
      return some ()

/-- Returns 0 on failure. -/
def uvmalloc (pagetable oldsz newsz : ℕ) (xperm : BitVec 10) : VM ℕ := do
  if newsz < oldsz then
    return oldsz
  else
    let oldsz := pgroundup oldsz
    let failed ← Prog.search (fun i => allocPage L pagetable oldsz (oldsz + i * PGSIZE) xperm) 0
      ((newsz - oldsz + (PGSIZE - 1)) / PGSIZE)
    return if failed.isSome then 0 else newsz

/-- Page tables have three levels, so `depth` 3 is enough for `freewalk`. -/
def freewalk : ℕ → ℕ → VM Unit
  | 0, _ => throw .freewalk
  | depth + 1, pagetable => do
    Prog.loop 512 fun i => do
      let pte := (← get).mem pagetable (Fin.ofNat _ i)
      if Pte.valid pte = true ∧ Pte.leaf pte = false then
        freewalk depth (Pte.ppn pte)
        setPte pagetable (Fin.ofNat _ i) 0
      else if Pte.valid pte then
        throw .freewalk
    kfree L pagetable

def uvmfree (pagetable sz : ℕ) : VM Unit := do
  if 0 < sz then
    uvmunmap L pagetable 0 (pgroundup sz / PGSIZE) true
  freewalk L 3 pagetable

/-- The body of the loop of `uvmcopy`, which returns on failure. -/
def copyPage (old new i : ℕ) : VM (Option Unit) := do
  match ← walk old i false with
  | none => return none
  | some (q, k) =>
    let pte := (← get).mem q k
    if Pte.valid pte = false then
      return none
    else
      match ← kalloc with
      | none =>
        uvmunmap L new 0 (i / PGSIZE) true
        return some ()
      | some mem =>
        record L i (Pte.ppn pte)
        memmove mem (Pte.ppn pte)
        if ← mappages new i PGSIZE mem (Pte.flags pte) then
          return none
        else
          kfree L mem
          uvmunmap L new 0 (i / PGSIZE) true
          return some ()

/-- Returns if it succeeds. -/
def uvmcopy (old new sz : ℕ) : VM Bool := do
  let failed ← Prog.search (fun i => copyPage L old new (i * PGSIZE)) 0
    ((sz + (PGSIZE - 1)) / PGSIZE)
  return failed.isNone

/-- Mark an entry invalid for user access. -/
def uvmclear (pagetable va : ℕ) : VM Unit := do
  match ← walk pagetable va false with
  | none => throw .uvmclear
  | some (q, k) =>
    let pte := (← get).mem q k
    setPte q k (pte &&& ~~~(PTE_U.setWidth 64))

def ismapped (pagetable va : ℕ) : VM Bool := do
  match ← walk pagetable va false with
  | none => return false
  | some (q, k) => return Pte.valid ((← get).mem q k)

/-- `vmfault` called by process `p` on a page table; the page, or `none` for 0. -/
def vmfault (p : Pid) (pagetable va : ℕ) : VM (Option ℕ) := do
  let pr := (← get).proc p
  if pr.sz ≤ va then
    return none
  else if ← ismapped pagetable (pgrounddown va) then
    return none
  else
    match pr.pagetable, ← kalloc with
    | some r, some mem =>
      memset mem 0
      if ← mappages r (pgrounddown va) PGSIZE mem (PTE_W ||| PTE_U ||| PTE_R) then
        return some mem
      else
        kfree L mem
        return none
    | none, some _ => throw .null
    | _, none => return none

/-- `copyout` by process `p` to a page table. The bytes themselves are not modelled; the
fuel is the number of bytes, as every round copies some. -/
def copyout (p : Pid) (pagetable : ℕ) : ℕ → ℕ → ℕ → VM Bool
  | 0, _, len => return len = 0
  | fuel + 1, dstva, len =>
    if len = 0 then
      return true
    else do
      let va0 := pgrounddown dstva
      if MAXVA ≤ va0 then
        return false
      else
        let pa0 ← do
          match ← walkaddr pagetable va0 with
          | some pa => pure (some pa)
          | none => vmfault L p pagetable va0
        match pa0 with
        | none => return false
        | some _ =>
          match ← walk pagetable va0 false with
          | none => throw .null
          | some (q, k) =>
            if Pte.writable ((← get).mem q k) = false then
              return false
            else
              let n := min (PGSIZE - (dstva - va0)) len
              copyout p pagetable fuel (va0 + PGSIZE) (len - n)

/-- `copyin`, from the page table of process `p`. -/
def copyin (p : Pid) (pagetable : ℕ) : ℕ → ℕ → ℕ → VM Bool
  | 0, _, len => return len = 0
  | fuel + 1, srcva, len =>
    if len = 0 then
      return true
    else do
      let va0 := pgrounddown srcva
      let pa0 ← do
        match ← walkaddr pagetable va0 with
        | some pa => pure (some pa)
        | none => vmfault L p pagetable va0
      match pa0 with
      | none => return false
      | some _ =>
        let n := min (PGSIZE - (srcva - va0)) len
        copyin p pagetable fuel (va0 + PGSIZE) (len - n)

end Xv6.Vm
