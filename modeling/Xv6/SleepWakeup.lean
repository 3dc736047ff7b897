import Xv6.Runs
import Xv6.Spinlocks

/-!
# Sleep and wakeup

`sleep`, `wakeup`, `kkill`, `yield`, `sched` and `scheduler` of `kernel/proc.c`, one
statement a step. Processors take turns in any order. A channel has a condition and
the lock that protects it; several channels may share a lock. Under a lock, code waits
with `while(!cond) sleep(chan, lk)`, sets a condition and then calls `wakeup`, or
clears one, in any order and number. Interrupts are taken where no lock is held, and
their handlers do the same things; a timer interrupt yields.

The size of the table, the processors, the locks and the channels are arbitrary.
`acquire` has no step while the lock is taken, and a failed check of `release` or
`sched`, where the source panics, has none either. The pair `c->proc`, `swtch` is one
step: `c->proc` is read by its own processor only. `scheduler`'s `found` and `wfi` are
left out.
-/
namespace Xv6.SleepWakeup

open Function Spinlocks

inductive ProcState where
  | unused
  | sleeping
  | runnable
  | running
  deriving DecidableEq, Repr

/-- The fields of `struct proc` that these functions use. -/
structure Proc (Ch : Type*) where
  state : ProcState
  chan : Option Ch
  killed : Bool
  pid : ℤ
  deriving DecidableEq

/-- The condition locks `lk`, and `p->lock` of each process. -/
inductive Lock (n : ℕ) (L : Type*) where
  | cond (l : L)
  | proc (p : Fin n)
  deriving DecidableEq

/-- The next statement of `sleep`. -/
inductive SleepAt where
  | acquire
  | releaseLk
  | setChan
  | setState
  | sched
  | tidy
  | release
  | acquireLk
  deriving DecidableEq

/-- The next statement of `wakeup` for a process whose lock it holds. -/
inductive WakeAt where
  | test
  | setState
  | release
  deriving DecidableEq

/-- The next statement of `kkill` for a process whose lock it holds. -/
inductive KillAt where
  | testPid
  | setKilled
  | testState
  | setState
  | release (found : Bool)
  deriving DecidableEq

inductive YieldAt where
  | acquire
  | setState
  | sched
  | release
  deriving DecidableEq

/-- The next statement of `scheduler` for a process whose lock it holds. -/
inductive SchedAt where
  | test
  | setState
  | swtch
  | release
  deriving DecidableEq

/-- Where a thread is. `out` is any code outside of these functions with no lock held,
`inside l` any code with `l` held; `wakeup`, `kill` and `scheduler` with a number are at
the head of their loop over the table. -/
inductive Pc (n : ℕ) (L Ch : Type*) where
  | out
  | inside (l : L)
  | loop (ch : Ch)
  | sleep (ch : Ch) (l : SleepAt)
  | raised (ch : Ch)
  | wakeup (ch : Ch) (i : ℕ)
  | wakeupProc (ch : Ch) (i : Fin n) (l : WakeAt)
  | kill (pid : ℤ) (i : ℕ)
  | killProc (pid : ℤ) (i : Fin n) (l : KillAt)
  | yield (l : YieldAt)
  | forkret
  | schedulerStart
  | scheduler (i : ℕ)
  | schedulerProc (i : Fin n) (l : SchedAt)
  deriving DecidableEq

/-- A processor executes its scheduler or the kernel thread of a process. -/
inductive Thread (n : ℕ) (κ : Type*) where
  | proc (p : Fin n)
  | sched (c : κ)
  deriving DecidableEq

/-- `saved` is the interrupted code below `pc`. `since p ch` says that the condition of
`ch` was set since `p` last evaluated it; no step reads it. -/
structure State (n : ℕ) (κ L Ch : Type*) where
  proc : Fin n → Proc Ch
  locks : Table (Lock n L) κ
  cur : κ → Option (Fin n)
  pc : Thread n κ → Pc n L Ch
  saved : Thread n κ → List (Pc n L Ch)
  cond : Ch → Bool
  since : Fin n → Ch → Bool

variable {n : ℕ} {κ L Ch : Type*}

/-- Some entries of the table are processes that have not run yet; no lock is held. -/
def init (used : Fin n → Bool) (pid : Fin n → ℤ) (cond : Ch → Bool) : State n κ L Ch where
  proc := fun p => ⟨if used p then .runnable else .unused, none, false, pid p⟩
  locks := Table.free
  cur := fun _ => none
  pc := fun
    | .proc _ => .forkret
    | .sched _ => .schedulerStart
  saved := fun _ => []
  cond := cond
  since := fun _ _ => false

/-- The thread that a processor executes. -/
def State.thread (s : State n κ L Ch) (c : κ) : Thread n κ :=
  match s.cur c with
  | some p => .proc p
  | none => .sched c

variable [DecidableEq κ] [DecidableEq L] [DecidableEq Ch]

def State.goto (s : State n κ L Ch) (t : Thread n κ) (pc : Pc n L Ch) : State n κ L Ch :=
  { s with pc := update s.pc t pc }

def State.modifyProc (s : State n κ L Ch) (p : Fin n) (f : Proc Ch → Proc Ch) : State n κ L Ch :=
  { s with proc := update s.proc p (f (s.proc p)) }

def State.setState (s : State n κ L Ch) (p : Fin n) (st : ProcState) : State n κ L Ch :=
  s.modifyProc p fun v => { v with state := st }

def State.setChan (s : State n κ L Ch) (p : Fin n) (ch : Option Ch) : State n κ L Ch :=
  s.modifyProc p fun v => { v with chan := ch }

/-- `c->proc = p` and the switch to that process, or back to the scheduler. -/
def State.setCur (s : State n κ L Ch) (c : κ) (p : Option (Fin n)) : State n κ L Ch :=
  { s with cur := update s.cur c p }

/-- `acquire(l)`, then `pc`. -/
def acquire (s : State n κ L Ch) (c : κ) (l : Lock n L) (pc : Pc n L Ch) :
    Option (State n κ L Ch) :=
  (s.locks.acquire c l).map fun T => { s with locks := T }.goto (s.thread c) pc

/-- `release(l)`, then `pc`. -/
def release (s : State n κ L Ch) (c : κ) (l : Lock n L) (pc : Pc n L Ch) :
    Option (State n κ L Ch) :=
  (s.locks.release c l).map fun T => { s with locks := T }.goto (s.thread c) pc

/-- Return from the innermost interrupt. -/
def State.pop (s : State n κ L Ch) (t : Thread n κ) : State n κ L Ch :=
  { s with
    pc := update s.pc t ((s.saved t).headD .out)
    saved := update s.saved t (s.saved t).tail }

/-- `sched` of process `p`: back to the scheduler of processor `c`. -/
def sched (s : State n κ L Ch) (c : κ) (p : Fin n) (pc : Pc n L Ch) : Option (State n κ L Ch) :=
  if s.locks.holder (.proc p) = some c ∧ s.locks.noff c = 1 ∧ (s.proc p).state ≠ .running then
    some ((s.goto (.proc p) pc).setCur c none)
  else none

/-- The condition of a `while(!cond) sleep(chan, lk)` loop. -/
def evaluate (lk : Ch → L) (s : State n κ L Ch) (p : Fin n) (ch : Ch) : State n κ L Ch :=
  { s with since := update s.since p (update (s.since p) ch false) }.goto (.proc p)
    (if s.cond ch then .inside (lk ch) else .sleep ch .acquire)

/-- `sleep(chan, lk)` of process `p`. -/
def sleep (lk : Ch → L) (s : State n κ L Ch) (c : κ) (p : Fin n) (ch : Ch) :
    SleepAt → Option (State n κ L Ch)
  | .acquire => acquire s c (.proc p) (.sleep ch .releaseLk)
  | .releaseLk => release s c (.cond (lk ch)) (.sleep ch .setChan)
  | .setChan => some ((s.setChan p (some ch)).goto (.proc p) (.sleep ch .setState))
  | .setState => some ((s.setState p .sleeping).goto (.proc p) (.sleep ch .sched))
  | .sched => sched s c p (.sleep ch .tidy)
  | .tidy => some ((s.setChan p none).goto (.proc p) (.sleep ch .release))
  | .release => release s c (.proc p) (.sleep ch .acquireLk)
  | .acquireLk => acquire s c (.cond (lk ch)) (.loop ch)

/-- The head of the loop of `wakeup(chan)`: `myproc()` is passed over. -/
def wakeup (lk : Ch → L) (s : State n κ L Ch) (c : κ) (ch : Ch) (i : ℕ) :
    Option (State n κ L Ch) :=
  if h : i < n then
    if s.cur c = some ⟨i, h⟩ then some (s.goto (s.thread c) (.wakeup ch (i + 1)))
    else acquire s c (.proc ⟨i, h⟩) (.wakeupProc ch ⟨i, h⟩ .test)
  else some (s.goto (s.thread c) (.inside (lk ch)))

/-- The body of the loop of `wakeup(chan)`. -/
def wakeupProc (s : State n κ L Ch) (c : κ) (ch : Ch) (i : Fin n) :
    WakeAt → Option (State n κ L Ch)
  | .test => some (s.goto (s.thread c) (.wakeupProc ch i
      (if (s.proc i).state = .sleeping ∧ (s.proc i).chan = some ch then .setState else .release)))
  | .setState => some ((s.setState i .runnable).goto (s.thread c) (.wakeupProc ch i .release))
  | .release => release s c (.proc i) (.wakeup ch (i.val + 1))

/-- The head of the loop of `kkill(pid)`. -/
def kkill (s : State n κ L Ch) (c : κ) (pid : ℤ) (i : ℕ) : Option (State n κ L Ch) :=
  if h : i < n then acquire s c (.proc ⟨i, h⟩) (.killProc pid ⟨i, h⟩ .testPid)
  else some (s.goto (s.thread c) .out)

/-- The body of the loop of `kkill(pid)`. -/
def kkillProc (s : State n κ L Ch) (c : κ) (pid : ℤ) (i : Fin n) :
    KillAt → Option (State n κ L Ch)
  | .testPid => some (s.goto (s.thread c) (.killProc pid i
      (if (s.proc i).pid = pid then .setKilled else .release false)))
  | .setKilled => some ((s.modifyProc i fun v => { v with killed := true }).goto (s.thread c)
      (.killProc pid i .testState))
  | .testState => some (s.goto (s.thread c) (.killProc pid i
      (if (s.proc i).state = .sleeping then .setState else .release true)))
  | .setState => some ((s.setState i .runnable).goto (s.thread c) (.killProc pid i (.release true)))
  | .release found => release s c (.proc i) (if found then .out else .kill pid (i.val + 1))

def yield (s : State n κ L Ch) (c : κ) (p : Fin n) : YieldAt → Option (State n κ L Ch)
  | .acquire => acquire s c (.proc p) (.yield .setState)
  | .setState => some ((s.setState p .runnable).goto (.proc p) (.yield .sched))
  | .sched => sched s c p (.yield .release)
  | .release => release s c (.proc p) .out

/-- The body of the loop of `scheduler`; the step `swtch` continues process `i`. -/
def schedulerProc (s : State n κ L Ch) (c : κ) (i : Fin n) : SchedAt → Option (State n κ L Ch)
  | .test => some (s.goto (s.thread c) (.schedulerProc i
      (if (s.proc i).state = .runnable then .setState else .release)))
  | .setState => some ((s.setState i .running).goto (s.thread c) (.schedulerProc i .swtch))
  | .swtch => some ((s.goto (s.thread c) (.schedulerProc i .release)).setCur c (some i))
  | .release => release s c (.proc i) (.scheduler (i.val + 1))

/-- The next statement on processor `c`. -/
def statement (lk : Ch → L) (s : State n κ L Ch) (c : κ) : Option (State n κ L Ch) :=
  match s.pc (s.thread c), s.cur c with
  | .loop ch, some p => some (evaluate lk s p ch)
  | .sleep ch l, some p => sleep lk s c p ch l
  | .raised ch, _ => some (s.goto (s.thread c) (.wakeup ch 0))
  | .wakeup ch i, _ => wakeup lk s c ch i
  | .wakeupProc ch i l, _ => wakeupProc s c ch i l
  | .kill pid i, _ => kkill s c pid i
  | .killProc pid i l, _ => kkillProc s c pid i l
  | .yield l, some p => yield s c p l
  | .forkret, some p => release s c (.proc p) .out
  | .schedulerStart, _ => some (s.goto (s.thread c) (.scheduler 0))
  | .scheduler i, _ =>
    if h : i < n then acquire s c (.proc ⟨i, h⟩) (.schedulerProc ⟨i, h⟩ .test)
    else some (s.goto (s.thread c) .schedulerStart)
  | .schedulerProc i l, _ => schedulerProc s c i l
  | _, _ => none

/-- What a processor does next: the next statement of the code it is in, or a choice
where the code is not fixed. -/
inductive Act (L Ch : Type*) where
  | run
  | interrupt
  | iret
  | acquire (l : L)
  | release
  | wait (ch : Ch)
  | raise (ch : Ch)
  | clear (ch : Ch)
  | kill (pid : ℤ)
  | yield

/-- A step of one processor. The scheduler takes interrupts between two passes. -/
def step (lk : Ch → L) (s : State n κ L Ch) (a : κ × Act L Ch) : Option (State n κ L Ch) :=
  let t := s.thread a.1
  match a.2, s.pc t with
  | .run, _ => statement lk s a.1
  | .interrupt, pc =>
    if s.locks.noff a.1 = 0 ∧ ((s.cur a.1).isSome ∨ pc = .schedulerStart) then
      some { s with pc := update s.pc t .out, saved := update s.saved t (pc :: s.saved t) }
    else none
  | .iret, .out => if s.saved t = [] then none else some (s.pop t)
  | .acquire l, .out => acquire s a.1 (.cond l) (.inside l)
  | .kill pid, .out => some (s.goto t (.kill pid 0))
  | .yield, .out => if (s.cur a.1).isSome then some (s.goto t (.yield .acquire)) else none
  | .release, .inside l => release s a.1 (.cond l) .out
  | .wait ch, .inside l =>
    if lk ch = l ∧ (s.cur a.1).isSome then some (s.goto t (.loop ch)) else none
  | .raise ch, .inside l =>
    if lk ch = l then
      some ({ s with
        cond := update s.cond ch true
        since := fun p => update (s.since p) ch true }.goto t (.raised ch))
    else none
  | .clear ch, .inside l =>
    if lk ch = l then some { s with cond := update s.cond ch false } else none
  | _, _ => none

end Xv6.SleepWakeup
