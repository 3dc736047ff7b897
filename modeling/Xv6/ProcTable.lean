import Xv6.Param
import Xv6.Runs

/-!
# The process table

`kfork`, `kexit`, `kwait`, `kkill` and scheduling of `kernel/proc.c`. A step is one
critical section of a `p->lock`, together with the acquire or release of `wait_lock`
that happens in it; a loop over the table takes one step for each entry. What memory
allocation and `copyout` answer is part of the step. User memory, files and
directories are left out. The history numbers the processes that ever existed and
records what happened to them; no step reads it.
-/
namespace Xv6.ProcTable

open Function

/-- An entry of `proc[NPROC]`. -/
abbrev Slot := Fin NPROC

inductive ProcState where
  | unused
  | used
  | sleeping
  | runnable
  | running
  | zombie
  deriving DecidableEq, Repr

/-- `kwait` sleeps on the address of a process, other code on other addresses. -/
inductive Chan where
  | proc (p : Slot)
  | other (c : ℕ)
  deriving DecidableEq, Repr

/-- The fields of `struct proc` that these functions use. -/
structure Proc where
  state : ProcState
  chan : Option Chan
  killed : Bool
  xstate : Int32
  pid : Int32
  parent : Option Slot
  deriving DecidableEq

/-- What `freeproc` leaves. -/
def Proc.free : Proc where
  state := .unused
  chan := none
  killed := false
  xstate := 0
  pid := 0
  parent := none

/-- Where a process is, between two critical sections. `user` is anything outside of
these functions, in user space or in the kernel. -/
inductive Pc where
  | user
  | forkScan (i : ℕ)
  | forkParent (np : Slot)
  | forkRun (np : Slot)
  | exitAcquire (status : Int32)
  | reparent (status : Int32) (i : ℕ)
  | wakeup (status : Int32) (chan : Option Slot) (j : ℕ) (next : Option ℕ)
  | zombie (status : Int32)
  | dead
  | waitAcquire (addr : Bool)
  | waitScan (addr : Bool) (i : ℕ) (havekids : Bool)
  | waitKilled (addr : Bool)
  | waitSleep (addr : Bool)
  | killScan (pid : Int32) (i : ℕ)
  deriving DecidableEq

/-- A process that `allocproc` started, and the number of the one that forked it. -/
structure Birth where
  pid : Int32
  forker : Option ℕ

/-- A successful `kwait`: who called it, the child, and what it returned and copied out. -/
structure Reap where
  caller : ℕ
  child : ℕ
  pid : Int32
  xstate : Option Int32
  deriving DecidableEq

/-- A call of `kkill` that returned 0: the state it found, and how many processes had
been started. -/
structure Kill where
  pid : Int32
  found : ProcState
  births : ℕ

/-- A process is known by its position in `births`. -/
structure History where
  births : List Birth
  forked : List ℕ
  exits : List (ℕ × Int32)
  reaps : List Reap
  kills : List Kill
  setkills : List ℕ
  moves : List (Slot × ProcState × ProcState)

structure State where
  proc : Slot → Proc
  nextpid : Int32
  waitLock : Option Slot
  pc : Slot → Pc
  born : Slot → ℕ
  hist : History

def initproc : Slot := 0

/-- The table after `userinit`. -/
def userinit : State where
  proc := update (fun _ => Proc.free) initproc { Proc.free with state := .runnable, pid := 1 }
  nextpid := 2
  waitLock := none
  pc := fun _ => .user
  born := fun _ => 0
  hist :=
    { births := [{ pid := 1, forker := none }], forked := [], exits := [], reaps := [], kills := [],
      setkills := [], moves := [(initproc, .unused, .used), (initproc, .used, .runnable)] }

def State.goto (s : State) (p : Slot) (pc : Pc) : State := { s with pc := update s.pc p pc }

def State.modifyProc (s : State) (p : Slot) (f : Proc → Proc) : State :=
  { s with proc := update s.proc p (f (s.proc p)) }

def State.setState (s : State) (p : Slot) (st : ProcState) : State :=
  { s.modifyProc p fun v => { v with state := st } with
    hist := { s.hist with moves := s.hist.moves ++ [(p, (s.proc p).state, st)] } }

def State.setWaitLock (s : State) (holder : Option Slot) : State := { s with waitLock := holder }

def freeproc (s : State) (p : Slot) : State :=
  (s.setState p .unused).modifyProc p fun _ => Proc.free

/-- `allocproc` finds slot `np`: `allocpid` and `p->state = USED`. -/
def allocproc (s : State) (p np : Slot) : State :=
  State.setState
    { s with
      proc := update s.proc np { s.proc np with pid := s.nextpid }
      nextpid := s.nextpid + 1
      born := update s.born np s.hist.births.length
      pc := update s.pc np .user
      hist := { s.hist with
        births := s.hist.births ++ [{ pid := s.nextpid, forker := some (s.born p) }] } }
    np .used

/-- `kfork` looks at slot `np`. Without memory the new process is freed at once. -/
def forkScan (s : State) (p np : Slot) (ok : Bool) : State :=
  if (s.proc np).state = .unused then
    if ok then (allocproc s p np).goto p (.forkParent np)
    else (freeproc (allocproc s p np) np).goto p .user
  else
    s.goto p (.forkScan (np.val + 1))

def forkParent (s : State) (p np : Slot) : Option State :=
  if s.waitLock = none then
    some ((s.modifyProc np fun v => { v with parent := some p }).goto p (.forkRun np))
  else
    none

def forkRun (s : State) (p np : Slot) : State :=
  let t := (s.setState np .runnable).goto p .user
  { t with hist := { t.hist with forked := t.hist.forked ++ [s.born np] } }

/-- Take `wait_lock`, if it is free. -/
def acquire (s : State) (p : Slot) (pc : Pc) : Option State :=
  if s.waitLock = none then some ((s.setWaitLock (some p)).goto p pc) else none

/-- `reparent` looks at slot `pp`. -/
def reparent (s : State) (p pp : Slot) (status : Int32) : State :=
  if (s.proc pp).parent = some p then
    (s.modifyProc pp fun v => { v with parent := some initproc }).goto p
      (.wakeup status (some initproc) 0 (some (pp.val + 1)))
  else
    s.goto p (.reparent status (pp.val + 1))

/-- `wakeup(chan)`, called by `p`, looks at slot `q`. -/
def wakeup (s : State) (p q : Slot) (chan : Option Slot) : State :=
  if q ≠ p ∧ (s.proc q).state = .sleeping ∧ (s.proc q).chan = chan.map .proc then
    s.setState q .runnable
  else
    s

/-- The end of `kexit`. -/
def becomeZombie (s : State) (p : Slot) (status : Int32) : State :=
  (((s.modifyProc p fun v => { v with xstate := status }).setState p .zombie).setWaitLock none).goto
    p .dead

/-- `kwait` returns the zombie in slot `pp`. -/
def reap (s : State) (p pp : Slot) (addr : Bool) : State :=
  let v := s.proc pp
  let t := ((freeproc s pp).setWaitLock none).goto p .user
  { t with hist := { t.hist with reaps := t.hist.reaps ++
      [{ caller := s.born p, child := s.born pp, pid := v.pid,
         xstate := if addr then some v.xstate else none }] } }

/-- `kwait` looks at slot `pp`; `ok` is the answer of `copyout`. -/
def waitScan (s : State) (p pp : Slot) (addr havekids ok : Bool) : State :=
  if (s.proc pp).parent = some p then
    if (s.proc pp).state = .zombie then
      if addr = true ∧ ok = false then
        (s.setWaitLock none).goto p .user
      else
        reap s p pp addr
    else
      s.goto p (.waitScan addr (pp.val + 1) true)
  else
    s.goto p (.waitScan addr (pp.val + 1) havekids)

/-- `sleep(p, &wait_lock)`. -/
def waitSleep (s : State) (p : Slot) (addr : Bool) : State :=
  (((s.modifyProc p fun v => { v with chan := some (.proc p) }).setState p .sleeping).setWaitLock
    none).goto p (.waitAcquire addr)

/-- `kkill(pid)` looks at slot `q`. -/
def killScan (s : State) (p q : Slot) (pid : Int32) : State :=
  if (s.proc q).pid = pid then
    let t := s.modifyProc q fun v => { v with killed := true }
    let t := if (s.proc q).state = .sleeping then t.setState q .runnable else t
    { t.goto p .user with hist := { t.hist with kills := t.hist.kills ++
        [{ pid := pid, found := (s.proc q).state, births := t.hist.births.length }] } }
  else
    s.goto p (.killScan pid (q.val + 1))

/-- The next section of the call that `p` is in. -/
def turn (s : State) (p : Slot) (ok : Bool) : Option State :=
  match s.pc p with
  | .user => none
  | .forkScan i =>
    if h : i < NPROC then some (forkScan s p ⟨i, h⟩ ok) else some (s.goto p .user)
  | .forkParent np => forkParent s p np
  | .forkRun np => some (forkRun s p np)
  | .exitAcquire status => acquire s p (.reparent status 0)
  | .reparent status i =>
    if h : i < NPROC then some (reparent s p ⟨i, h⟩ status)
    else some (s.goto p (.wakeup status (s.proc p).parent 0 none))
  | .wakeup status chan j next =>
    if h : j < NPROC then
      some ((wakeup s p ⟨j, h⟩ chan).goto p (.wakeup status chan (j + 1) next))
    else
      some (s.goto p (next.elim (.zombie status) (.reparent status)))
  | .zombie status => some (becomeZombie s p status)
  | .dead => none
  | .waitAcquire addr => acquire s p (.waitScan addr 0 false)
  | .waitScan addr i havekids =>
    if h : i < NPROC then some (waitScan s p ⟨i, h⟩ addr havekids ok)
    else if havekids then some (s.goto p (.waitKilled addr))
    else some ((s.setWaitLock none).goto p .user)
  | .waitKilled addr =>
    if (s.proc p).killed then some ((s.setWaitLock none).goto p .user)
    else some (s.goto p (.waitSleep addr))
  | .waitSleep addr => some (waitSleep s p addr)
  | .killScan pid i =>
    if h : i < NPROC then some (killScan s p ⟨i, h⟩ pid) else some (s.goto p .user)

/-- The places where a process holds `wait_lock`. -/
def Pc.Holding : Pc → Prop
  | .reparent .. | .wakeup .. | .zombie _ | .waitScan .. | .waitKilled _ | .waitSleep _ => True
  | _ => False

instance (pc : Pc) : Decidable pc.Holding := by
  unfold Pc.Holding
  split <;> infer_instance

/-- What can happen at a process: it calls a function, or takes the next section of
its call; the kernel sets its `killed` flag, lets it run, or takes the processor from
it; it goes to sleep in other code, and is woken there. -/
inductive Act where
  | fork
  | exit (status : Int32)
  | wait (addr : Bool)
  | kill (pid : Int32)
  | turn (ok : Bool)
  | setkilled
  | run
  | yield
  | sleep (c : ℕ)
  | wakeup (c : ℕ)

/-- A running process calls one of the functions. -/
def call (s : State) (p : Slot) (pc : Pc) : Option State :=
  if (s.proc p).state = .running ∧ s.pc p = .user then some (s.goto p pc) else none

/-- `kexit(status)`; the first process must not exit. -/
def kexit (s : State) (p : Slot) (status : Int32) : Option State :=
  if p = initproc then
    none
  else
    (call s p (.exitAcquire status)).map fun t =>
      { t with hist := { t.hist with exits := t.hist.exits ++ [(s.born p, status)] } }

def setkilled (s : State) (p : Slot) : Option State :=
  if (s.proc p).state = .running ∧ s.pc p = .user then
    let t := s.modifyProc p fun v => { v with killed := true }
    some { t with hist := { t.hist with setkills := t.hist.setkills ++ [s.born p] } }
  else
    none

def step (s : State) (a : Slot × Act) : Option State :=
  let p := a.1
  match a.2 with
  | .fork => call s p (.forkScan 0)
  | .exit status => kexit s p status
  | .wait addr => call s p (.waitAcquire addr)
  | .kill pid => call s p (.killScan pid 0)
  | .turn ok => if (s.proc p).state = .running then turn s p ok else none
  | .setkilled => setkilled s p
  | .run =>
    -- a process that slept clears `chan` before it releases its lock
    if (s.proc p).state = .runnable then
      some ((s.modifyProc p fun v => { v with chan := none }).setState p .running)
    else
      none
  | .yield =>
    -- interrupts are off while `wait_lock` is held
    if (s.proc p).state = .running ∧ ¬ (s.pc p).Holding then some (s.setState p .runnable) else none
  | .sleep c =>
    if (s.proc p).state = .running ∧ s.pc p = .user then
      some ((s.modifyProc p fun v => { v with chan := some (.other c) }).setState p .sleeping)
    else
      none
  | .wakeup c =>
    if (s.proc p).state = .sleeping ∧ (s.proc p).chan = some (.other c) then
      some (s.setState p .runnable)
    else
      none

end Xv6.ProcTable
