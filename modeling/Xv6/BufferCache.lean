import Xv6.LogDisk
import Xv6.Ring

/-!
# The buffer cache under the log

`kernel/bio.c` together with the parts of `kernel/log.c` that use it, as atomic
steps of any number of processes. Each critical section of `bcache.lock` or
`log.lock`, each acquire and release of a buffer's sleep-lock, each disk transfer
and each change of buffer data by its holder is one step.

A process outside of `commit` may call `bread` and `brelse` at any time, and
between `begin_op` and `end_op` it may change a buffer that it holds, provided that
it calls `log_write` before `brelse`. `commit` is the list of the calls that
`write_log`, `write_head` and `install_trans` make; their loops are unrolled when
it starts, since nothing adds to `log.lh` while it runs. All callers use the one
device of the log.

`latest` (what a process last left in each block), `pinned` (the outstanding
`bpin`s), `pend`, `running` and `dirty` are history: no step reads them.
-/
namespace Xv6.BufferCache
open Log (Block LogHeader)

variable {P : Type*}

/-- A `struct buf *` into `bcache.buf`. -/
abbrev Bp : Type := Fin NBUF

/-- `struct buf`. The flag `dirty` says that the holder has changed the data and
called neither `log_write` nor `bwrite` since. -/
structure Buf (P : Type*) where
  valid : Bool
  dev : ℕ
  blockno : ℕ
  lock : Option P
  refcnt : ℤ
  data : Block
  dirty : Bool

/-- What a process can call. Buffers are named by their block number. -/
inductive Instr where
  | bread (x : ℕ)
  | modify (x : ℕ) (d : Block)
  | logWrite (x : ℕ)
  | memmove (dst src : ℕ)
  | putHeader
  | bwrite (x : ℕ)
  | bunpin (x : ℕ)
  | brelse (x : ℕ)
  /-- `log.lh.n = 0`. -/
  | clear

/-- Where a process stands with respect to the log. -/
inductive Role where
  | idle
  | running
  /-- In `commit()`, with the calls still to be made. -/
  | committing (is : List Instr)

/-- Where a process stands inside `bread` or `brelse`. -/
inductive Pos where
  | ready
  /-- In `bget`, waiting in `acquiresleep`. -/
  | waiting (b : Bp)
  /-- In `bread` with the lock, about to read the disk. -/
  | reading (b : Bp)
  /-- In `brelse` after `releasesleep`. -/
  | releasing (b : Bp)
  deriving DecidableEq

inductive Panic where
  | bgetNoBuffers
  | tooBigATransaction
  | logWriteOutsideOfTrans
  | logCommitting
  deriving DecidableEq, Repr

/-- `log.dev` and `log.start`. -/
structure Layout where
  dev : ℕ
  start : ℕ
  dev_ne_zero : dev ≠ 0

/-- Blocks outside of the log's header and log blocks. -/
def Layout.Home (L : Layout) (x : ℕ) : Prop := x < L.start ∨ L.start + LOGBLOCKS < x

instance (L : Layout) (x : ℕ) : Decidable (L.Home x) := inferInstanceAs (Decidable (_ ∨ _))

structure State (P : Type*) where
  links : Ring.Links Bp
  buf : Bp → Buf P
  disk : ℕ → Block
  lh : List ℕ
  outstanding : ℤ
  committing : Bool
  role : P → Role
  pos : P → Pos
  panicked : Option Panic
  latest : ℕ → Block
  pinned : List ℕ
  pend : List (P × Bp)
  running : List P

/-- `write_log` from entry `tail` on. -/
def writeLog (start : ℕ) : ℕ → List ℕ → List Instr
  | _, [] => []
  | tail, x :: lh =>
    .bread (start + tail + 1) :: .bread x :: .memmove (start + tail + 1) x ::
      .bwrite (start + tail + 1) :: .brelse x :: .brelse (start + tail + 1) ::
      writeLog start (tail + 1) lh

/-- `install_trans(0)` from entry `tail` on. -/
def installTrans (start : ℕ) : ℕ → List ℕ → List Instr
  | _, [] => []
  | tail, x :: lh =>
    .bread (start + tail + 1) :: .bread x :: .memmove x (start + tail + 1) :: .bwrite x ::
      .bunpin x :: .brelse (start + tail + 1) :: .brelse x :: installTrans start (tail + 1) lh

def writeHead (start : ℕ) : List Instr :=
  [.bread start, .putHeader, .bwrite start, .brelse start]

def commit (start : ℕ) (lh : List ℕ) : List Instr :=
  if lh = [] then []
  else writeLog start 0 lh ++ writeHead start ++ installTrans start 0 lh ++
    .clear :: writeHead start

/-- The in-memory header as `write_head` stores it. -/
def logHeader (lh : List ℕ) : LogHeader :=
  { n := Int32.ofNat lh.length, block := fun i => UInt32.ofNat (lh.getD i 0) }

namespace State

@[simps -fullyApplied links disk lh role pos latest pinned pend]
def setBuf (s : State P) (b : Bp) (v : Buf P) : State P :=
  { s with buf := Function.update s.buf b v }

/-- The first loop of `bget`. -/
def find (s : State P) (dev x : ℕ) : Option Bp :=
  Ring.scan s.links (fun b => (s.buf b).dev = dev ∧ (s.buf b).blockno = x) (NBUF + 1)
    (s.links.next none)

/-- The second loop of `bget`: the least recently used buffer that is not in use. -/
def findUnused (s : State P) : Option Bp :=
  Ring.scan s.links.flip (fun b => (s.buf b).refcnt = 0) (NBUF + 1) (s.links.prev none)

def modify (s : State P) (b : Bp) (d : Block) : State P :=
  { s.setBuf b { s.buf b with data := d, dirty := true } with
    latest := Function.update s.latest (s.buf b).blockno d }

/-- `log_write` of a buffer that is held. -/
def logWrite (s : State P) (b : Bp) : State P :=
  let x := (s.buf b).blockno
  if LOGBLOCKS ≤ s.lh.length then { s with panicked := some .tooBigATransaction }
  else if s.outstanding < 1 then { s with panicked := some .logWriteOutsideOfTrans }
  else if x ∈ s.lh then s.setBuf b { s.buf b with dirty := false }
  else
    { s.setBuf b { s.buf b with refcnt := (s.buf b).refcnt + 1, dirty := false } with
      lh := s.lh ++ [x]
      pinned := s.pinned ++ [x] }

/-- `memmove` between two held buffers. A copy to a home block installs what was
left there before, so it is not a new content. -/
def memmove (s : State P) (L : Layout) (dst src : Bp) : State P :=
  { s.setBuf dst { s.buf dst with data := (s.buf src).data, dirty := true } with
    latest :=
      if L.Home (s.buf dst).blockno then s.latest
      else Function.update s.latest (s.buf dst).blockno (s.buf src).data }

/-- `write_head` stores `log.lh` in the header block's buffer. -/
def putHeader (s : State P) (b : Bp) : State P :=
  s.modify b (Log.putHeader (logHeader s.lh) (s.buf b).data)

def bwrite (s : State P) (b : Bp) : State P :=
  { s.setBuf b { s.buf b with dirty := false } with
    disk := Function.update s.disk (s.buf b).blockno (s.buf b).data }

def bunpin (s : State P) (b : Bp) : State P :=
  { s.setBuf b { s.buf b with refcnt := (s.buf b).refcnt - 1 } with
    pinned := s.pinned.erase (s.buf b).blockno }

variable [DecidableEq P]

@[simps -fullyApplied links buf disk lh role latest pinned pend]
def setPos (s : State P) (p : P) (c : Pos) : State P := { s with pos := Function.update s.pos p c }

@[simps -fullyApplied links buf disk lh pos latest pinned pend running outstanding committing]
def setRole (s : State P) (p : P) (r : Role) : State P :=
  { s with role := Function.update s.role p r }

/-- The critical section of `bget`; the caller then waits for the buffer's lock. -/
def bget (s : State P) (p : P) (dev x : ℕ) : State P :=
  match s.find dev x with
  | some b =>
    { (s.setBuf b { s.buf b with refcnt := (s.buf b).refcnt + 1 }).setPos p (.waiting b) with
      pend := (p, b) :: s.pend }
  | none =>
    match s.findUnused with
    | some b =>
      { (s.setBuf b { s.buf b with dev := dev, blockno := x, valid := false, refcnt := 1 }).setPos
          p (.waiting b) with
        pend := (p, b) :: s.pend }
    | none => { s with panicked := some .bgetNoBuffers }

/-- `acquiresleep` in `bget` succeeds, and `bread` tests `valid`. -/
def acquire (s : State P) (p : P) (b : Bp) : State P :=
  { (s.setBuf b { s.buf b with lock := some p }).setPos p
      (if (s.buf b).valid then .ready else .reading b) with
    pend := s.pend.erase (p, b) }

def read (s : State P) (p : P) (b : Bp) : State P :=
  (s.setBuf b { s.buf b with data := s.disk (s.buf b).blockno, valid := true }).setPos p .ready

def release (s : State P) (p : P) (b : Bp) : State P :=
  { (s.setBuf b { s.buf b with lock := none }).setPos p (.releasing b) with
    pend := (p, b) :: s.pend }

/-- The critical section of `brelse`. -/
def brelse (s : State P) (p : P) (b : Bp) : State P :=
  { (s.setBuf b { s.buf b with refcnt := (s.buf b).refcnt - 1 }).setPos p .ready with
    links := if (s.buf b).refcnt - 1 = 0 then (s.links.unlink b).pushFront b else s.links
    pend := s.pend.erase (p, b) }

/-- `begin_op` when it does not have to sleep. -/
def beginOp (s : State P) (p : P) : State P :=
  { s.setRole p .running with
    outstanding := s.outstanding + 1
    running := p :: s.running }

/-- The first critical section of `end_op`. -/
def endOp (s : State P) (L : Layout) (p : P) : State P :=
  let s' := { s with outstanding := s.outstanding - 1, running := s.running.erase p }
  if s.committing then { s' with panicked := some .logCommitting }
  else if s'.outstanding = 0 then
    { s'.setRole p (.committing (commit L.start s.lh)) with committing := true }
  else s'.setRole p .idle

/-- The second critical section of `end_op`. -/
def endCommit (s : State P) (p : P) : State P := { s.setRole p .idle with committing := false }

end State

/-- In a role a process may make a call and continue in another role. -/
inductive Calls (L : Layout) : Role → Instr → Role → Prop where
  | bread {r : Role} (x : ℕ) (h : ∀ is, r ≠ .committing is) : Calls L r (.bread x) r
  | brelse {r : Role} (x : ℕ) (h : ∀ is, r ≠ .committing is) : Calls L r (.brelse x) r
  | modify (x : ℕ) (d : Block) (home : L.Home x) : Calls L .running (.modify x d) .running
  | logWrite (x : ℕ) (home : L.Home x) : Calls L .running (.logWrite x) .running
  | commit (i : Instr) (is : List Instr) : Calls L (.committing (i :: is)) i (.committing is)

/-- Process `p` holds buffer `b` for block `x` and is not inside `bread` or `brelse`. -/
structure Holds (L : Layout) (s : State P) (p : P) (b : Bp) (x : ℕ) : Prop where
  ready : s.pos p = .ready
  lock : (s.buf b).lock = some p
  dev : (s.buf b).dev = L.dev
  blockno : (s.buf b).blockno = x

/-- One atomic step of process `p`. -/
inductive Step [DecidableEq P] (L : Layout) (s : State P) (p : P) : State P → Prop where
  | bget (x : ℕ) (r : Role) (ready : s.pos p = .ready) (call : Calls L (s.role p) (.bread x) r) :
      Step L s p ((s.bget p L.dev x).setRole p r)
  | acquire (b : Bp) (pos : s.pos p = .waiting b) (free : (s.buf b).lock = none) :
      Step L s p (s.acquire p b)
  | read (b : Bp) (pos : s.pos p = .reading b) : Step L s p (s.read p b)
  | modify (b : Bp) (x : ℕ) (d : Block) (r : Role) (hold : Holds L s p b x)
      (call : Calls L (s.role p) (.modify x d) r) : Step L s p ((s.modify b d).setRole p r)
  | logWrite (b : Bp) (x : ℕ) (r : Role) (hold : Holds L s p b x)
      (call : Calls L (s.role p) (.logWrite x) r) : Step L s p ((s.logWrite b).setRole p r)
  | memmove (b c : Bp) (x y : ℕ) (r : Role) (dst : Holds L s p b x) (src : Holds L s p c y)
      (call : Calls L (s.role p) (.memmove x y) r) : Step L s p ((s.memmove L b c).setRole p r)
  | putHeader (b : Bp) (r : Role) (hold : Holds L s p b L.start)
      (call : Calls L (s.role p) .putHeader r) : Step L s p ((s.putHeader b).setRole p r)
  | bwrite (b : Bp) (x : ℕ) (r : Role) (hold : Holds L s p b x)
      (call : Calls L (s.role p) (.bwrite x) r) : Step L s p ((s.bwrite b).setRole p r)
  | bunpin (b : Bp) (x : ℕ) (r : Role) (hold : Holds L s p b x)
      (call : Calls L (s.role p) (.bunpin x) r) : Step L s p ((s.bunpin b).setRole p r)
  | release (b : Bp) (x : ℕ) (r : Role) (hold : Holds L s p b x)
      (call : Calls L (s.role p) (.brelse x) r)
      (clean : (∀ is, s.role p ≠ .committing is) → (s.buf b).dirty = false) :
      Step L s p ((s.release p b).setRole p r)
  | brelse (b : Bp) (pos : s.pos p = .releasing b) : Step L s p (s.brelse p b)
  | clear (r : Role) (ready : s.pos p = .ready) (call : Calls L (s.role p) .clear r) :
      Step L s p ({ s with lh := [] }.setRole p r)
  | beginOp (idle : s.role p = .idle) (ready : s.pos p = .ready) (free : s.committing = false)
      (room : (s.lh.length : ℤ) + (s.outstanding + 1) * MAXOPBLOCKS ≤ LOGBLOCKS) :
      Step L s p (s.beginOp p)
  | endOp (run : s.role p = .running) (ready : s.pos p = .ready)
      (released : ∀ b, (s.buf b).lock ≠ some p) : Step L s p (s.endOp L p)
  | endCommit (done : s.role p = .committing []) (ready : s.pos p = .ready) :
      Step L s p (s.endCommit p)

/-- One step of any process, while no panic has stopped the machine. -/
def Next [DecidableEq P] (L : Layout) (s s' : State P) : Prop :=
  s.panicked = none ∧ ∃ p, Step L s p s'

/-- `binit`: every buffer is linked behind the head. -/
def binit : Ring.Links Bp :=
  (List.finRange NBUF).foldl Ring.Links.pushFront ⟨fun _ => none, fun _ => none⟩

/-- After boot nobody uses a buffer, the log is empty and what the cache holds of
the device is what the disk holds. -/
structure Initial (L : Layout) (s : State P) : Prop where
  ring : ∃ l, Ring.IsRing s.links l ∧ ∀ b, b ∈ l
  unique : ∀ b c, (s.buf b).dev ≠ 0 → (s.buf b).dev = (s.buf c).dev →
    (s.buf b).blockno = (s.buf c).blockno → b = c
  dev : ∀ b, (s.buf b).dev = 0 ∨ (s.buf b).dev = L.dev
  unused : ∀ b, (s.buf b).lock = none ∧ (s.buf b).refcnt = 0 ∧ (s.buf b).dirty = false
  data : ∀ b, (s.buf b).dev = L.dev → (s.buf b).valid = true →
    (s.buf b).data = s.disk (s.buf b).blockno
  latest : s.latest = s.disk
  empty : s.lh = [] ∧ s.pinned = [] ∧ s.pend = [] ∧ s.running = []
  quiet : s.outstanding = 0 ∧ s.committing = false ∧ s.panicked = none
  procs : ∀ p, s.role p = .idle ∧ s.pos p = .ready

def Reachable [DecidableEq P] (L : Layout) (s : State P) : Prop :=
  ∃ s₀, Initial L s₀ ∧ Relation.ReflTransGen (Next L) s₀ s

end Xv6.BufferCache
