import Xv6.Runs
import Xv6.WrapRing

/-!
# Pipes

`kernel/pipe.c` as a state machine at the grain of `pi->lock`: a process that holds
the lock takes one turn of a loop at a time, so that `kkill`, which does not take
the lock, can set its flag between any two turns. A call that sleeps resumes by
acquiring the lock again. The history records what writers append, readers remove
and calls of `pipewrite` return; no step reads it.
-/
namespace Xv6.Pipe

open Function

abbrev PIPESIZE : ℕ := 512

/-- `&pi->nread` and `&pi->nwrite`. -/
inductive Chan where
  | nread
  | nwrite
  deriving DecidableEq, Repr

/-- The arguments and the local variables of a call of `pipewrite`. `src j` is the
byte at `addr + j`, if `copyin` can read it; `id` identifies the call. -/
structure WriteCall where
  id : ℕ
  src : ℕ → Option UInt8
  n : ℤ
  i : ℕ

/-- The same for `piperead`; `dst j` says if `copyout` can write the byte at `addr + j`. -/
structure ReadCall where
  dst : ℕ → Bool
  n : ℤ
  i : ℕ

/-- Where a call of `pipewrite` is. -/
inductive WriteAt where
  | acquire
  | test
  | body
  | sleep
  | done
  deriving DecidableEq, Repr

/-- Where a call of `piperead` is. -/
inductive ReadAt where
  | acquire
  | test
  | sleep
  | copy
  | done
  deriving DecidableEq, Repr

inductive Pc where
  | idle
  | write (l : WriteAt) (c : WriteCall)
  | read (l : ReadAt) (c : ReadCall)
  | closeAcquire (writable : Bool)
  | close (writable : Bool)

/-- What a pipe has done. -/
structure History where
  calls : ℕ
  appended : List (ℕ × UInt8)
  removed : List UInt8
  returns : List (WriteCall × ℤ)

/-- A pipe and the processes that use it. `lock` is the holder of `pi->lock`. -/
structure State (P : Type*) where
  data : ℕ → UInt8
  nread : BitVec 32
  nwrite : BitVec 32
  readopen : Bool
  writeopen : Bool
  freed : Bool
  lock : Option P
  pc : P → Pc
  asleep : P → Option Chan
  killed : P → Bool
  hist : History

variable {P : Type*}

/-- The pipe that `pipealloc` makes. The page holds junk. -/
def pipealloc (junk : ℕ → UInt8) (killed : P → Bool) : State P where
  data := junk
  nread := 0#32
  nwrite := 0#32
  readopen := true
  writeopen := true
  freed := false
  lock := none
  pc := fun _ => .idle
  asleep := fun _ => none
  killed := killed
  hist := { calls := 0, appended := [], removed := [], returns := [] }

def Empty (s : State P) : Prop := s.nread = s.nwrite

def Full (s : State P) : Prop := s.nwrite = s.nread + BitVec.ofNat 32 PIPESIZE

instance (s : State P) : Decidable (Empty s) := inferInstanceAs (Decidable (_ = _))

instance (s : State P) : Decidable (Full s) := inferInstanceAs (Decidable (_ = _))

/-- Wake every process that sleeps on the channel. -/
def wakeup (s : State P) (ch : Chan) : State P :=
  { s with asleep := fun p => if s.asleep p = some ch then none else s.asleep p }

variable [DecidableEq P]

def State.goto (s : State P) (p : P) (pc : Pc) : State P := { s with pc := update s.pc p pc }

def release (s : State P) : State P := { s with lock := none }

/-- `sleep(ch, &pi->lock)`: give the lock up and sleep; `pc` is where to resume. -/
def sleep (s : State P) (p : P) (ch : Chan) (pc : Pc) : State P :=
  release { s.goto p pc with asleep := update s.asleep p (some ch) }

def acquire (s : State P) (p : P) (pc : Pc) : Option (State P) :=
  if s.lock = none then some { s.goto p pc with lock := some p } else none

/-- `pipewrite` releases the lock and returns `r`. -/
def writeReturn (s : State P) (p : P) (c : WriteCall) (r : ℤ) : State P :=
  release { s.goto p .idle with hist := { s.hist with returns := s.hist.returns ++ [(c, r)] } }

/-- `pi->data[pi->nwrite++ % PIPESIZE] = ch; i++`. -/
def append (s : State P) (p : P) (c : WriteCall) (ch : UInt8) : State P :=
  { s.goto p (.write .test { c with i := c.i + 1 }) with
    data := update s.data (WrapRing.cell PIPESIZE s.nwrite) ch
    nwrite := s.nwrite + 1#32
    hist := { s.hist with appended := s.hist.appended ++ [(c.id, ch)] } }

/-- `ch = pi->data[pi->nread++ % PIPESIZE]`. -/
def remove (s : State P) : State P :=
  { s with
    nread := s.nread + 1#32
    hist := { s.hist with
      removed := s.hist.removed ++ [s.data (WrapRing.cell PIPESIZE s.nread)] } }

/-- The next turn of a call of `pipewrite`. -/
def pipewrite (s : State P) (p : P) (c : WriteCall) : WriteAt → Option (State P)
  | .acquire => acquire s p (.write .test c)
  | .test => some <|
    if (c.i : ℤ) < c.n then
      if s.readopen = false ∨ s.killed p = true then
        writeReturn s p c (-1)
      else
        s.goto p (.write .body c)
    else
      s.goto p (.write .done c)
  | .body => some <|
    if Full s then
      (wakeup s .nread).goto p (.write .sleep c)
    else
      match c.src c.i with
      | none => s.goto p (.write .done c)
      | some ch => append s p c ch
  | .sleep => some (sleep s p .nwrite (.write .acquire c))
  | .done => some (writeReturn (wakeup s .nread) p c c.i)

/-- The next turn of a call of `piperead`. -/
def piperead (s : State P) (p : P) (c : ReadCall) : ReadAt → Option (State P)
  | .acquire => acquire s p (.read .test c)
  | .test => some <|
    if Empty s ∧ s.writeopen = true then
      if s.killed p = true then
        release (s.goto p .idle)
      else
        s.goto p (.read .sleep c)
    else
      s.goto p (.read .copy c)
  | .sleep => some (sleep s p .nread (.read .acquire c))
  | .copy => some <|
    if (c.i : ℤ) < c.n ∧ ¬ Empty s then
      if c.dst c.i then
        (remove s).goto p (.read .copy { c with i := c.i + 1 })
      else
        (remove s).goto p (.read .done c)
    else
      s.goto p (.read .done c)
  | .done => some (release ((wakeup s .nwrite).goto p .idle))

/-- Close one end and wake those who wait for the other side. -/
def closeEnd (s : State P) (writable : Bool) : State P :=
  if writable then wakeup { s with writeopen := false } .nread
  else wakeup { s with readopen := false } .nwrite

/-- `pipeclose` after it has the lock; with both ends closed the page is freed. -/
def pipeclose (s : State P) (p : P) (writable : Bool) : State P :=
  let t := closeEnd s writable
  release { t.goto p .idle with freed := t.readopen = false ∧ t.writeopen = false }

/-- `kkill` finds the process. -/
def kkill (s : State P) (p : P) : State P :=
  { s with killed := update s.killed p true, asleep := update s.asleep p none }

/-- What can happen at a process: a call begins, its call takes a turn, or it is
killed by somebody. -/
inductive Act where
  | write (src : ℕ → Option UInt8) (n : ℤ)
  | read (dst : ℕ → Bool) (n : ℤ)
  | close (writable : Bool)
  | turn
  | kill

def turn (s : State P) (p : P) : Option (State P) :=
  match s.pc p with
  | .idle => none
  | .write l c => pipewrite s p c l
  | .read l c => piperead s p c l
  | .closeAcquire writable => acquire s p (.close writable)
  | .close writable => some (pipeclose s p writable)

/-- A call begins in a process that is in none. -/
def call (s : State P) (p : P) (pc : Pc) : Option (State P) :=
  match s.pc p with
  | .idle => some { s.goto p pc with hist := { s.hist with calls := s.hist.calls + 1 } }
  | _ => none

/-- One step of process `a.1`. There are none once the pipe is freed, and a sleeping
process takes none. -/
def step (s : State P) (a : P × Act) : Option (State P) :=
  if s.freed = true then
    none
  else
    match a.2 with
    | .write src n => call s a.1 (.write .acquire { id := s.hist.calls, src := src, n := n, i := 0 })
    | .read dst n => call s a.1 (.read .acquire { dst := dst, n := n, i := 0 })
    | .close writable => call s a.1 (.closeAcquire writable)
    | .turn => if s.asleep a.1 = none then turn s a.1 else none
    | .kill => some (kkill s a.1)

end Xv6.Pipe
