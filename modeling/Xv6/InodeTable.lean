import Xv6.Dinode

/-!
# The in-memory inode table

`iget`, `idup`, `ilock`, `iunlock`, `iput`, `iupdate` and `ialloc` of
`kernel/fs.c` as atomic steps of any number of processes. Each critical section
of `itable.lock`, each acquire and release of a sleep-lock and each read or
write of a dinode is one step; `iput` releases `itable.lock` in the middle of
freeing an inode and therefore takes several.

A reference to a table entry is a token. It belongs to one process (a local
variable or the working directory) or to an open file that several processes
share. A process locks an inode through a token that it may use, and gives a
token to `iput` only when nobody is locking through it, as all callers in `fs.c`
and `sysfile.c` do. The token ids, the token remembered with a lock and the
`dirty` flag are history: no function of the source reads them.
-/
namespace Xv6.InodeTable

variable {P : Type*}

/-- The index of a table entry, the model of a `struct inode *`. -/
abbrev Ip : Type := Fin NINODE

/-- `struct inode`. The lock records its holder and the token it was taken
through; `dirty` says that the holder has changed a field since its last
`iupdate`. -/
structure Entry (P : Type*) where
  dev : ℕ
  inum : ℕ
  ref : ℤ
  lock : Option (P × ℕ)
  valid : Bool
  dino : Dinode
  dirty : Bool

/-- One outstanding reference. The owner is `none` for a shared open file. -/
structure Token (P : Type*) where
  id : ℕ
  ip : Ip
  owner : Option P

/-- Where a process stands inside one of the functions. -/
inductive Pc where
  | idle
  /-- In `ilock`, waiting in `acquiresleep`. -/
  | acquiring (t : ℕ) (ip : Ip)
  /-- In `ilock` with the lock, about to read the dinode. -/
  | loading (t : ℕ) (ip : Ip)
  /-- In the freeing branch of `iput`, `itable.lock` released. -/
  | freeing (t : ℕ) (ip : Ip)
  /-- After `itrunc`. -/
  | truncated (t : ℕ) (ip : Ip)
  /-- After the `iupdate` that writes type 0. -/
  | freed (t : ℕ) (ip : Ip)
  /-- After `ip->valid = 0`. -/
  | invalidated (t : ℕ) (ip : Ip)
  /-- After `releasesleep`, about to reacquire `itable.lock`. -/
  | dropping (t : ℕ) (ip : Ip)
  /-- In `ialloc` after the dinode was marked allocated, about to call `iget`. -/
  | claimed (dev inum : ℕ)
  deriving DecidableEq

inductive Panic where
  | igetNoInodes
  | ilock
  | ilockNoType
  /-- `acquiresleep` in the freeing branch of `iput` would have to sleep. -/
  | iputBlocks
  deriving DecidableEq, Repr

structure State (P : Type*) where
  table : Ip → Entry P
  disk : ℕ × ℕ → Dinode
  pc : P → Pc
  refs : List (Token P)
  nextId : ℕ
  panicked : Option Panic

namespace State

/-- The inode an entry stands for. -/
def key (s : State P) (ip : Ip) : ℕ × ℕ := ((s.table ip).dev, (s.table ip).inum)

def setEntry (s : State P) (ip : Ip) (e : Entry P) : State P :=
  { s with table := Function.update s.table ip e }

variable [DecidableEq P]

def setPc (s : State P) (p : P) (c : Pc) : State P := { s with pc := Function.update s.pc p c }

def addToken (s : State P) (p : P) (ip : Ip) : State P :=
  { s with refs := ⟨s.nextId, ip, some p⟩ :: s.refs, nextId := s.nextId + 1 }

/-- The entry `iget` finds: one for this inode, else the first empty one. -/
def findEntry (s : State P) (dev inum : ℕ) : Option Ip :=
  (List.finRange NINODE).find? fun ip =>
    0 < (s.table ip).ref ∧ (s.table ip).dev = dev ∧ (s.table ip).inum = inum

def findEmpty (s : State P) : Option Ip :=
  (List.finRange NINODE).find? fun ip => (s.table ip).ref = 0

def iget (s : State P) (p : P) (dev inum : ℕ) : State P :=
  match s.findEntry dev inum with
  | some ip => (s.setEntry ip { s.table ip with ref := (s.table ip).ref + 1 }).addToken p ip
  | none =>
    match s.findEmpty with
    | none => { s with panicked := some .igetNoInodes }
    | some ip =>
      (s.setEntry ip { s.table ip with
        dev := dev, inum := inum, ref := 1, valid := false, dirty := false }).addToken p ip

def idup (s : State P) (p : P) (ip : Ip) : State P :=
  (s.setEntry ip { s.table ip with ref := (s.table ip).ref + 1 }).addToken p ip

/-- The entry test of `ilock`; the caller then waits for the sleep-lock. -/
def ilockStart (s : State P) (p : P) (t : ℕ) (ip : Ip) : State P :=
  if (s.table ip).ref < 1 then { s with panicked := some .ilock }
  else s.setPc p (.acquiring t ip)

/-- `acquiresleep` in `ilock` succeeds. -/
def ilockAcquire (s : State P) (p : P) (t : ℕ) (ip : Ip) : State P :=
  (s.setEntry ip { s.table ip with lock := some (p, t) }).setPc p
    (if (s.table ip).valid then .idle else .loading t ip)

/-- `ilock` copies the dinode and sets `valid`. -/
def ilockLoad (s : State P) (p : P) (ip : Ip) : State P :=
  let s' := (s.setEntry ip { s.table ip with
    dino := s.disk (s.key ip), valid := true, dirty := false }).setPc p .idle
  if (s.disk (s.key ip)).type = .free then { s' with panicked := some .ilockNoType } else s'

/-- The lock holder assigns to fields `ip->xxx`. -/
def modify (s : State P) (ip : Ip) (d : Dinode) : State P :=
  s.setEntry ip { s.table ip with dino := d, dirty := true }

def iupdate (s : State P) (ip : Ip) : State P :=
  { s.setEntry ip { s.table ip with dirty := false } with
    disk := Function.update s.disk (s.key ip) (s.table ip).dino }

def unlock (s : State P) (ip : Ip) : State P := s.setEntry ip { s.table ip with lock := none }

/-- `ip->ref--`, and the token is gone. -/
def dropRef (s : State P) (t : ℕ) (ip : Ip) : State P :=
  { s.setEntry ip { s.table ip with ref := (s.table ip).ref - 1 } with
    refs := s.refs.filter fun k => k.id ≠ t }

/-- The first critical section of `iput`. -/
def iputStart (s : State P) (p : P) (t : ℕ) (ip : Ip) : State P :=
  if (s.table ip).ref = 1 ∧ (s.table ip).valid ∧ (s.table ip).dino.nlink = 0 then
    match (s.table ip).lock with
    | some _ => { s with panicked := some .iputBlocks }
    | none =>
      { (s.setEntry ip { s.table ip with lock := some (p, t) }).setPc p (.freeing t ip) with
        refs := s.refs.map fun k => if k.id = t then { k with owner := some p } else k }
  else s.dropRef t ip

/-- `itrunc`: no addresses, size 0, and an `iupdate`. -/
def iputTrunc (s : State P) (p : P) (t : ℕ) (ip : Ip) : State P :=
  ((s.modify ip { (s.table ip).dino with size := 0, addrs := fun _ => 0 }).iupdate ip).setPc p
    (.truncated t ip)

/-- `ip->type = 0; iupdate(ip)`. -/
def iputFree (s : State P) (p : P) (t : ℕ) (ip : Ip) : State P :=
  ((s.modify ip { (s.table ip).dino with type := .free }).iupdate ip).setPc p (.freed t ip)

/-- `ip->valid = 0`. -/
def iputInvalidate (s : State P) (p : P) (t : ℕ) (ip : Ip) : State P :=
  (s.setEntry ip { s.table ip with valid := false }).setPc p (.invalidated t ip)

def iputRelease (s : State P) (p : P) (t : ℕ) (ip : Ip) : State P :=
  (s.unlock ip).setPc p (.dropping t ip)

/-- The second critical section of `iput`. -/
def iputDrop (s : State P) (p : P) (t : ℕ) (ip : Ip) : State P := (s.dropRef t ip).setPc p .idle

/-- `ialloc` marks a free dinode as allocated. -/
def ialloc (s : State P) (p : P) (dev inum : ℕ) (type : FileType) : State P :=
  { s.setPc p (.claimed dev inum) with
    disk := Function.update s.disk (dev, inum) (Dinode.fresh type) }

end State

/-- Process `p` may use the token: it is its own or belongs to an open file. -/
def Usable (p : P) (k : Token P) : Prop := k.owner = some p ∨ k.owner = none

/-- The token a process is locking through or giving to `iput`. -/
def Pc.token : Pc → Option (ℕ × Ip)
  | .idle => none
  | .acquiring t ip => some (t, ip)
  | .loading t ip => some (t, ip)
  | .freeing t ip => some (t, ip)
  | .truncated t ip => some (t, ip)
  | .freed t ip => some (t, ip)
  | .invalidated t ip => some (t, ip)
  | .dropping t ip => some (t, ip)
  | .claimed _ _ => none

/-- Nobody is between `ilock` and `iunlock` through token `t`. -/
def Unused (s : State P) (t : ℕ) : Prop :=
  (∀ q ip, (s.pc q).token ≠ some (t, ip)) ∧ ∀ ip q, (s.table ip).lock ≠ some (q, t)

inductive Act where
  | iget (dev inum : ℕ)
  | idup (t : ℕ)
  | transfer (t : ℕ)
  | ilockStart (t : ℕ)
  | ilockAcquire
  | ilockLoad
  | modify (ip : Ip) (d : Dinode)
  | iupdate (ip : Ip)
  | iunlock (ip : Ip)
  | iputStart (t : ℕ)
  | iputTrunc
  | iputFree
  | iputInvalidate
  | iputRelease
  | iputDrop
  | ialloc (dev inum : ℕ) (type : FileType)
  | iallocGet
  deriving DecidableEq

/-- One atomic step of process `p`. The premises say where the process is and
that it uses references as the callers do: fields are changed by the lock
holder, who keeps the type and calls `iupdate` before unlocking. -/
inductive Step [DecidableEq P] (s : State P) (p : P) : Act → State P → Prop where
  | iget (dev inum : ℕ) (idle : s.pc p = .idle) :
      Step s p (.iget dev inum) (s.iget p dev inum)
  | idup (k : Token P) (idle : s.pc p = .idle) (mem : k ∈ s.refs) (use : Usable p k) :
      Step s p (.idup k.id) (s.idup p k.ip)
  | transfer (k : Token P) (o : Option P) (idle : s.pc p = .idle) (mem : k ∈ s.refs)
      (own : k.owner = some p) :
      Step s p (.transfer k.id)
        { s with refs := s.refs.map fun j => if j.id = k.id then { j with owner := o } else j }
  | ilockStart (k : Token P) (idle : s.pc p = .idle) (mem : k ∈ s.refs) (use : Usable p k) :
      Step s p (.ilockStart k.id) (s.ilockStart p k.id k.ip)
  | ilockAcquire (t : ℕ) (ip : Ip) (pc : s.pc p = .acquiring t ip)
      (free : (s.table ip).lock = none) : Step s p .ilockAcquire (s.ilockAcquire p t ip)
  | ilockLoad (t : ℕ) (ip : Ip) (pc : s.pc p = .loading t ip) :
      Step s p .ilockLoad (s.ilockLoad p ip)
  | modify (t : ℕ) (ip : Ip) (d : Dinode) (idle : s.pc p = .idle)
      (held : (s.table ip).lock = some (p, t)) (type : d.type = (s.table ip).dino.type) :
      Step s p (.modify ip d) (s.modify ip d)
  | iupdate (t : ℕ) (ip : Ip) (idle : s.pc p = .idle) (held : (s.table ip).lock = some (p, t)) :
      Step s p (.iupdate ip) (s.iupdate ip)
  | iunlock (t : ℕ) (ip : Ip) (idle : s.pc p = .idle) (held : (s.table ip).lock = some (p, t))
      (clean : (s.table ip).dirty = false) : Step s p (.iunlock ip) (s.unlock ip)
  | iputStart (k : Token P) (idle : s.pc p = .idle) (mem : k ∈ s.refs) (use : Usable p k)
      (unused : Unused s k.id) : Step s p (.iputStart k.id) (s.iputStart p k.id k.ip)
  | iputTrunc (t : ℕ) (ip : Ip) (pc : s.pc p = .freeing t ip) :
      Step s p .iputTrunc (s.iputTrunc p t ip)
  | iputFree (t : ℕ) (ip : Ip) (pc : s.pc p = .truncated t ip) :
      Step s p .iputFree (s.iputFree p t ip)
  | iputInvalidate (t : ℕ) (ip : Ip) (pc : s.pc p = .freed t ip) :
      Step s p .iputInvalidate (s.iputInvalidate p t ip)
  | iputRelease (t : ℕ) (ip : Ip) (pc : s.pc p = .invalidated t ip) :
      Step s p .iputRelease (s.iputRelease p t ip)
  | iputDrop (t : ℕ) (ip : Ip) (pc : s.pc p = .dropping t ip) :
      Step s p .iputDrop (s.iputDrop p t ip)
  | ialloc (dev inum : ℕ) (type : FileType) (idle : s.pc p = .idle) (hinum : 1 ≤ inum)
      (free : (s.disk (dev, inum)).type = .free) (htype : type ≠ .free) :
      Step s p (.ialloc dev inum type) (s.ialloc p dev inum type)
  | iallocGet (dev inum : ℕ) (pc : s.pc p = .claimed dev inum) :
      Step s p .iallocGet ((s.iget p dev inum).setPc p .idle)

/-- `iget` is given the number of an allocated inode with a link, because a
directory entry names it, or of one that the process already refers to. -/
def Named (s : State P) (p : P) : Act → Prop
  | .iget dev inum => ((s.disk (dev, inum)).type ≠ .free ∧ (s.disk (dev, inum)).nlink ≠ 0) ∨
      ∃ k ∈ s.refs, Usable p k ∧ s.key k.ip = (dev, inum)
  | _ => True

/-- One step of any process, while no panic has stopped the machine. -/
def Next [DecidableEq P] (s s' : State P) : Prop := s.panicked = none ∧ ∃ p a, Step s p a s'

/-- A step that looks up named inodes only. -/
def NextNamed [DecidableEq P] (s s' : State P) : Prop :=
  s.panicked = none ∧ ∃ p a, Named s p a ∧ Step s p a s'

/-- An empty table over any disk. -/
structure Initial (s : State P) : Prop where
  empty : ∀ ip, (s.table ip).ref = 0 ∧ (s.table ip).lock = none
  idle : ∀ p, s.pc p = .idle
  noRefs : s.refs = []
  calm : s.panicked = none

def Reachable [DecidableEq P] (s : State P) : Prop :=
  ∃ s₀, Initial s₀ ∧ Relation.ReflTransGen Next s₀ s

/-- Reachable by lookups of named inodes. -/
def ReachableNamed [DecidableEq P] (s : State P) : Prop :=
  ∃ s₀, Initial s₀ ∧ Relation.ReflTransGen NextNamed s₀ s

end Xv6.InodeTable
