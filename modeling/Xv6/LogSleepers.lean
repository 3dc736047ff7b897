import Xv6.GroupCommit

/-!
# Who sleeps in begin_op

`begin_op`, `log_write`, `end_op` and `commit` of `kernel/log.c` with the `sleep` and
`wakeup` of `kernel/proc.c` that they call, one statement a step. Processes take turns in
any order. `log.lock` and the lock of each process are variables; `acquire` has no step while
the lock is taken. Of what a process does elsewhere only `kill` matters here.

The scheduler releases the lock of a process that has called `sched`, in the same step, and
takes it again to run the process. `commit` writes to the disk, and clears `lh.n` without
`log.lock`.
-/
namespace Xv6.LogSleepers

open Function
open GroupCommit (absorb)

inductive ProcState where
  | running
  | sleeping
  | runnable
  deriving DecidableEq

/-- The next statement of `sleep`; at `off` the process is not on a processor. -/
inductive SleepAt where
  | acquire
  | releaseLk
  | setChan
  | setState
  | sched
  | off
  | tidy
  | release
  | acquireLk
  deriving DecidableEq

/-- The next statement of `wakeup` for one process. -/
inductive WakeAt where
  | acquire
  | test
  | release
  deriving DecidableEq

/-- The next statement of a process. -/
inductive Pc (n : ℕ) where
  | idle
  | beginAcquire
  | beginTest
  | sleep (l : SleepAt)
  | beginRelease
  /-- Between `begin_op` and `end_op`. -/
  | running
  | writeAcquire (b : ℕ)
  | writeBody (b : ℕ)
  | writeRelease
  | endAcquire
  | endDecrement
  | endTest
  /-- The head of the loop of `wakeup(&log)`. -/
  | wake (i : ℕ)
  | wakeProc (i : Fin n) (l : WakeAt)
  | endRelease (doCommit : Bool)
  | commitTest
  | commitClear
  | commitAcquire
  | commitDone
  | panicked
  deriving DecidableEq

/-- `log` with `lh.block[0..n)` as a list, and the processes; `chan p` says that `p->chan` is
`&log`. -/
structure State (n : ℕ) where
  lock : Option (Fin n)
  outstanding : ℤ
  committing : Bool
  lh : List ℕ
  plock : Fin n → Option (Fin n)
  state : Fin n → ProcState
  chan : Fin n → Bool
  pc : Fin n → Pc n

def init (n : ℕ) : State n where
  lock := none
  outstanding := 0
  committing := false
  lh := []
  plock := fun _ => none
  state := fun _ => .running
  chan := fun _ => false
  pc := fun _ => .idle

inductive Act where
  /-- A call of `begin_op`. -/
  | begin
  /-- A call of `log_write` for a block. -/
  | write (b : ℕ)
  /-- A call of `end_op`. -/
  | finish
  /-- The next statement. -/
  | go
  /-- The scheduler runs the process. -/
  | schedule
  /-- Someone kills the process. -/
  | kill

variable {n : ℕ}

namespace State

def goto (s : State n) (p : Fin n) (c : Pc n) : State n := { s with pc := update s.pc p c }

def acquire (s : State n) (p : Fin n) (c : Pc n) : Option (State n) :=
  if s.lock = none then some { s.goto p c with lock := some p } else none

def release (s : State n) (p : Fin n) (c : Pc n) : State n := { s.goto p c with lock := none }

def acquireProc (s : State n) (p i : Fin n) (c : Pc n) : Option (State n) :=
  if s.plock i = none then some { s.goto p c with plock := update s.plock i (some p) } else none

def releaseProc (s : State n) (p i : Fin n) (c : Pc n) : State n :=
  { s.goto p c with plock := update s.plock i none }

end State

/-- The test of `begin_op`: there is no room for another operation. -/
def Full (s : State n) : Prop :=
  (s.lh.length : ℤ) + (s.outstanding + 1) * MAXOPBLOCKS > LOGBLOCKS

instance decidableFull (s : State n) : Decidable (Full s) :=
  inferInstanceAs (Decidable ((s.lh.length : ℤ) + (s.outstanding + 1) * MAXOPBLOCKS > LOGBLOCKS))

/-- The next statement of `sleep(&log, &log.lock)`. -/
def sleepStep (s : State n) (p : Fin n) : SleepAt → Option (State n)
  | .acquire => s.acquireProc p p (.sleep .releaseLk)
  | .releaseLk => some (s.release p (.sleep .setChan))
  | .setChan => some { s.goto p (.sleep .setState) with chan := update s.chan p true }
  | .setState => some { s.goto p (.sleep .sched) with state := update s.state p .sleeping }
  | .sched => some (s.releaseProc p p (.sleep .off))
  | .off => none
  | .tidy => some { s.goto p (.sleep .release) with chan := update s.chan p false }
  | .release => some (s.releaseProc p p (.sleep .acquireLk))
  | .acquireLk => s.acquire p .beginTest

/-- The next statement of `wakeup` for process `i`. -/
def wakeStep (s : State n) (p i : Fin n) : WakeAt → Option (State n)
  | .acquire => s.acquireProc p i (.wakeProc i .test)
  | .test =>
    if s.state i = .sleeping ∧ s.chan i = true then
      some { s.goto p (.wakeProc i .release) with state := update s.state i .runnable }
    else some (s.goto p (.wakeProc i .release))
  | .release => some (s.releaseProc p i (.wake (i + 1)))

def go (s : State n) (p : Fin n) : Option (State n) :=
  match s.pc p with
  | .idle | .running | .panicked => none
  | .beginAcquire => s.acquire p .beginTest
  | .beginTest =>
    if s.committing then some (s.goto p (.sleep .acquire))
    else if Full s then some (s.goto p (.sleep .acquire))
    else some { s.goto p .beginRelease with outstanding := s.outstanding + 1 }
  | .sleep l => sleepStep s p l
  | .beginRelease => some (s.release p .running)
  | .writeAcquire b => s.acquire p (.writeBody b)
  | .writeBody b =>
    if LOGBLOCKS ≤ s.lh.length then some (s.goto p .panicked)
    else if s.outstanding < 1 then some (s.goto p .panicked)
    else some { s.goto p .writeRelease with lh := absorb s.lh b }
  | .writeRelease => some (s.release p .running)
  | .endAcquire => s.acquire p .endDecrement
  | .endDecrement => some { s.goto p .endTest with outstanding := s.outstanding - 1 }
  | .endTest =>
    if s.committing then some (s.goto p .panicked)
    else if s.outstanding = 0 then some { s.goto p (.endRelease true) with committing := true }
    else some (s.goto p (.wake 0))
  | .wake i =>
    if h : i < n then
      if (⟨i, h⟩ : Fin n) ≠ p then some (s.goto p (.wakeProc ⟨i, h⟩ .acquire))
      else some (s.goto p (.wake (i + 1)))
    else some (s.goto p (.endRelease false))
  | .wakeProc i l => wakeStep s p i l
  | .endRelease doCommit => some (s.release p (if doCommit then .commitTest else .idle))
  | .commitTest => some (s.goto p (if s.lh.length > 0 then .commitClear else .commitAcquire))
  | .commitClear => some { s.goto p .commitAcquire with lh := [] }
  | .commitAcquire => s.acquire p .commitDone
  | .commitDone => some { s.goto p (.wake 0) with committing := false }

def step (s : State n) (a : Fin n × Act) : Option (State n) :=
  let p := a.1
  match a.2 with
  | .begin => if s.pc p = .idle then some (s.goto p .beginAcquire) else none
  | .write b => if s.pc p = .running then some (s.goto p (.writeAcquire b)) else none
  | .finish => if s.pc p = .running then some (s.goto p .endAcquire) else none
  | .go => go s p
  | .schedule =>
    if s.pc p = .sleep .off ∧ s.state p = .runnable then
      (s.acquireProc p p (.sleep .tidy)).map fun s => { s with state := update s.state p .running }
    else none
  | .kill =>
    if s.plock p = none ∧ s.state p = .sleeping then
      some { s with state := update s.state p .runnable }
    else none

/-- The process holds `log.lock`. -/
def Pc.holds : Pc n → Bool
  | .beginTest | .beginRelease | .sleep .acquire | .sleep .releaseLk | .writeBody _ | .writeRelease
  | .endDecrement | .endTest | .wake _ | .wakeProc _ _ | .endRelease _ | .commitDone
  | .panicked => true
  | _ => false

/-- The lock of a process that process `p` holds. -/
def Pc.procLock (p : Fin n) : Pc n → Option (Fin n)
  | .sleep .releaseLk | .sleep .setChan | .sleep .setState | .sleep .sched | .sleep .tidy
  | .sleep .release => some p
  | .wakeProc i .test | .wakeProc i .release => some i
  | _ => none

/-- The process may be `SLEEPING`. -/
def Pc.parked : Pc n → Bool
  | .sleep .sched | .sleep .off => true
  | _ => false

/-- `p->chan` is `&log`. -/
def Pc.onChan : Pc n → Bool
  | .sleep .setState | .sleep .sched | .sleep .off | .sleep .tidy => true
  | _ => false

/-- The process is to sleep, as it has found the log full or committing. -/
def Pc.toSleep : Pc n → Bool
  | .sleep .acquire | .sleep .releaseLk | .sleep .setChan | .sleep .setState | .sleep .sched => true
  | _ => false

/-- The process is the one that commits. -/
def Pc.commits : Pc n → Bool
  | .endRelease true | .commitTest | .commitClear | .commitAcquire | .commitDone => true
  | _ => false

/-- The process has still to wake up process `q`. -/
def Pc.Waking (q : Fin n) : Pc n → Prop
  | .endTest => True
  | .wake i => i ≤ q
  | .wakeProc i .release => i < q
  | .wakeProc i _ => i ≤ q
  | _ => False

/-- A process that is asleep or about to be. -/
def Doomed (s : State n) (q : Fin n) : Prop := (s.pc q).toSleep = true ∨ s.state q = .sleeping

/-- `begin_op` has to wait. -/
def Blocked (s : State n) : Prop := s.committing = true ∨ Full s

lemma Pc.Waking.holds {q : Fin n} {c : Pc n} (h : c.Waking q) : c.holds = true := by
  cases c with
  | endTest => rfl
  | wake i => rfl
  | wakeProc i l => rfl
  | _ => exact h.elim

structure Inv (s : State n) : Prop where
  locked : ∀ p, (s.pc p).holds = true → s.lock = some p
  procLocked : ∀ p i, (s.pc p).procLock p = some i → s.plock i = some p
  asleep : ∀ p, s.state p = .sleeping → (s.pc p).parked = true
  chan : ∀ p, (s.pc p).onChan = true → s.chan p = true
  notSelf : ∀ p i l, s.pc p = .wakeProc i l → i ≠ p
  commits : ∀ p, (s.pc p).commits = true → s.committing = true
  one : ∀ p q, (s.pc p).commits = true → (s.pc q).commits = true → p = q
  doomed : ∀ q, Doomed s q → Blocked s ∨ ∃ r, r ≠ q ∧ (s.pc r).Waking q

theorem inv_init (n : ℕ) : Inv (init n) where
  locked := fun _ h => Bool.noConfusion h
  procLocked := fun _ _ h => by cases h
  asleep := fun _ h => by cases h
  chan := fun _ h => Bool.noConfusion h
  notSelf := fun _ _ _ h => by cases h
  commits := fun _ h => Bool.noConfusion h
  one := fun _ _ h => Bool.noConfusion h
  doomed := by
    intro q h
    obtain h | h := h
    · exact Bool.noConfusion h
    · cases h

attribute [local grind =] Pc.holds Pc.procLock Pc.parked Pc.onChan Pc.toSleep Pc.commits Pc.Waking

variable {s s' : State n} {p : Fin n} {i : Fin n}

/-- What a step of process `p` does to the others, and what `p` owes after it. -/
structure Move (s s' : State n) (p : Fin n) (c : Pc n) : Prop where
  pc : s'.pc = update s.pc p c
  lock : s'.lock = s.lock ∧ (c.holds = true → (s.pc p).holds = true) ∨
    s'.lock = some p ∧ s.lock = none ∨ c.holds = false ∧ (s.pc p).holds = true
  plock : ∀ i q, q ≠ p → s.plock i = some q → s'.plock i = some q
  procLocked : ∀ i, c.procLock p = some i → s'.plock i = some p
  state : ∀ q, q ≠ p → s'.state q = .sleeping → s.state q = .sleeping
  asleep : s'.state p = .sleeping → c.parked = true
  chan : ∀ q, q ≠ p → s'.chan q = s.chan q
  onChan : c.onChan = true → s'.chan p = true
  notSelf : ∀ i l, c = .wakeProc i l → i ≠ p
  commits : c.commits = true → s'.committing = true
  one : c.commits = true → (s.pc p).commits = true ∨ s.committing = false
  committing : s'.committing = s.committing ∨ s'.committing = true ∨ (s.pc p).commits = true
  self : c.toSleep = true ∨ s'.state p = .sleeping →
    Blocked s' ∨ Doomed s p ∧ (Blocked s → Blocked s')
  doomed : ∀ q, q ≠ p → (s.pc q).toSleep = true ∨ s'.state q = .sleeping →
    Blocked s ∨ (s.pc p).Waking q → Blocked s' ∨ c.Waking q

lemma Inv.move (h : Inv s) {c : Pc n} (m : Move s s' p c) : Inv s' := by
  obtain ⟨hlocked, hproc, hasleep, hchan, hself, hcommits, hone, hdoomed⟩ := h
  obtain ⟨pc, lock, plock, procLocked, state, asleep, chan, onChan, notSelf, commits, one, committing, self, doomed⟩ := m
  have hother : ∀ q, Doomed s' q → q ≠ p → Doomed s q := by
    intro q hd hq
    rw [Doomed, pc, update_of_ne hq] at hd
    exact hd.imp_right (state q hq)
  constructor
  case doomed =>
    intro q hd
    by_cases hq : q = p
    · subst hq
      rw [Doomed, pc, update_self] at hd
      obtain hb | ⟨hd, hb⟩ := self hd
      · exact Or.inl hb
      · obtain hb' | ⟨r, hr, hw⟩ := hdoomed _ hd
        · exact Or.inl (hb hb')
        · exact Or.inr ⟨r, hr, by rwa [pc, update_of_ne hr]⟩
    · have hd' := hother q hd hq
      rw [Doomed, pc, update_of_ne hq] at hd
      simp only [pc, update_apply]
      have := doomed q hq hd
      have := hdoomed q hd'
      clear plock doomed self
      grind
  all_goals
    simp only [pc, update_apply]
    clear doomed self hdoomed hother
    grind

attribute [local simp] Pc.holds Pc.procLock Pc.parked Pc.onChan Pc.toSleep Pc.commits Pc.Waking

lemma Pc.locks_of_toSleep {c : Pc n} (h : c.toSleep = true) :
    c.holds = true ∨ c.procLock i = some i := by
  cases c with
  | sleep l =>
    cases l with
    | acquire => exact Or.inl rfl
    | releaseLk | setChan | setState | sched => exact Or.inr rfl
    | off | tidy | release | acquireLk => cases h
  | _ => cases h

lemma Pc.off_of_parked {c : Pc n} (h : c.parked = true) :
    c.procLock i = some i ∨ c = .sleep .off := by
  cases c with
  | sleep l =>
    cases l with
    | sched => exact Or.inl rfl
    | off => exact Or.inr rfl
    | acquire | releaseLk | setChan | setState | tidy | release | acquireLk => cases h
  | _ => cases h

lemma Inv.not_toSleep (h : Inv s) (hne : i ≠ p) (hlock : s.plock i = some p)
    (hheld : (s.pc p).holds = true) : (s.pc i).procLock i ≠ some i ∧ (s.pc i).toSleep ≠ true := by
  have hown : (s.pc i).procLock i ≠ some i := by
    intro hi
    rw [h.procLocked i i hi] at hlock
    exact hne (Option.some.inj hlock)
  have hlog : (s.pc i).holds ≠ true := by
    intro hi
    have he := h.locked i hi
    rw [h.locked p hheld] at he
    exact hne (Option.some.inj he).symm
  exact ⟨hown, fun hd => (Pc.locks_of_toSleep hd).elim hlog hown⟩

lemma Inv.asleep_of_locked (h : Inv s) (hne : i ≠ p) (hlock : s.plock i = some p)
    (hheld : (s.pc p).holds = true) (hd : Doomed s i) :
    s.state i = .sleeping ∧ s.chan i = true := by
  obtain ⟨hown, hsleep⟩ := h.not_toSleep hne hlock hheld
  have hs := hd.resolve_left hsleep
  have hoff := (Pc.off_of_parked (h.asleep i hs)).resolve_left hown
  exact ⟨hs, h.chan i (by rw [hoff]; rfl)⟩

lemma length_le_absorb (lh : List ℕ) (b : ℕ) : lh.length ≤ (absorb lh b).length := by
  rw [absorb]
  split
  · exact le_rfl
  · rw [List.length_append]
    exact Nat.le_add_right _ _

/-- What the invariant says of one process. -/
lemma Inv.self (h : Inv s) (p : Fin n) : ((s.pc p).holds = true → s.lock = some p) ∧
    (∀ i, (s.pc p).procLock p = some i → s.plock i = some p) ∧
    (s.state p = .sleeping → (s.pc p).parked = true) ∧ ((s.pc p).onChan = true → s.chan p = true) ∧
    ((s.pc p).commits = true → s.committing = true) :=
  ⟨h.locked p, h.procLocked p, h.asleep p, h.chan p, h.commits p⟩

/-- The statements of `begin_op`, `log_write` and `end_op` themselves. A process begins to sleep
only when it has to wait. When `outstanding` falls, it is going to wake up the others or to
commit, and while it commits the others have to wait. -/
lemma Inv.log (h : Inv s) (hs : go s p = some s')
    (hsleep : ∀ l, s.pc p ≠ .sleep l) (hwake : ∀ i, s.pc p ≠ .wake i)
    (hproc : ∀ i l, s.pc p ≠ .wakeProc i l) : Inv s' := by
  have hself := h.self p
  have hle := length_le_absorb s.lh
  cases hc : s.pc p with
  | sleep l => exact (hsleep l hc).elim
  | wake i => exact (hwake i hc).elim
  | wakeProc i l => exact (hproc i l hc).elim
  | _ =>
    clear hsleep hwake hproc
    simp only [go, hc, State.acquire, State.release, State.goto] at hs hself
    try split_ifs at hs
    all_goals cases hs
    all_goals refine h.move (p := p) ⟨rfl, ?_, ?_, ?_, ?_, ?_, ?_, ?_, ?_, ?_, ?_, ?_, ?_, ?_⟩
    all_goals simp [hc, Doomed, Blocked, Full, MAXOPBLOCKS, LOGBLOCKS] at *
    all_goals grind

/-- The loop of `wakeup` passes over the process itself only. -/
lemma Inv.wake (h : Inv s) {i : ℕ} (hpc : s.pc p = .wake i) (hs : go s p = some s') : Inv s' := by
  have hself := h.self p
  simp only [go, hpc, State.goto] at hs hself
  split_ifs at hs <;> cases hs
  all_goals refine h.move (p := p) ⟨rfl, ?_, ?_, ?_, ?_, ?_, ?_, ?_, ?_, ?_, ?_, ?_, ?_, ?_⟩
  all_goals simp [hpc, Doomed, Blocked, Full] at *
  all_goals grind

lemma Inv.wakeProc (h : Inv s) {l : WakeAt} (hpc : s.pc p = .wakeProc i l) (hs : go s p = some s') :
    Inv s' := by
  have hself := h.self p
  have hne := h.notSelf p i l hpc
  have hsleep : l = .test → (s.pc i).toSleep ≠ true ∧
      (Doomed s i → s.state i = .sleeping ∧ s.chan i = true) := by
    rintro rfl
    have hlock := h.procLocked p i (by rw [hpc]; rfl)
    have hheld : (s.pc p).holds = true := by rw [hpc]; rfl
    exact ⟨(h.not_toSleep hne hlock hheld).2, h.asleep_of_locked hne hlock hheld⟩
  rw [go, hpc] at hs
  cases l
  all_goals
    simp only [wakeStep, State.acquireProc, State.releaseProc, State.goto, hpc] at hs hself
    try split_ifs at hs
    all_goals cases hs
    all_goals refine h.move (p := p) ⟨rfl, ?_, ?_, ?_, ?_, ?_, ?_, ?_, ?_, ?_, ?_, ?_, ?_, ?_⟩
    all_goals simp [hpc, Doomed, Blocked, Full, update_apply] at *
    all_goals grind

lemma Inv.sleep (h : Inv s) {l : SleepAt} (hpc : s.pc p = .sleep l) (hs : go s p = some s') :
    Inv s' := by
  have hself := h.self p
  rw [go, hpc] at hs
  cases l
  all_goals
    simp only [sleepStep, State.acquireProc, State.releaseProc, State.acquire, State.release,
      State.goto, hpc] at hs hself
    try split_ifs at hs
    all_goals cases hs
    all_goals refine h.move (p := p) ⟨rfl, ?_, ?_, ?_, ?_, ?_, ?_, ?_, ?_, ?_, ?_, ?_, ?_, ?_⟩
    all_goals simp [hpc, Doomed, Blocked, Full, update_apply] at *
    all_goals grind

lemma Inv.step (h : Inv s) {a : Fin n × Act} (hs : step s a = some s') : Inv s' := by
  obtain ⟨p, a⟩ := a
  cases a with
  | go =>
    cases hpc : s.pc p with
    | sleep l => exact h.sleep hpc hs
    | wake i => exact h.wake hpc hs
    | wakeProc i l => exact h.wakeProc hpc hs
    | _ => exact h.log hs (by simp [hpc]) (by simp [hpc]) (by simp [hpc])
  | kill =>
    have hself := h.self p
    obtain ⟨hlocked, hproc, hasleep, hchan, hnot, hcommits, hone, hdoomed⟩ := h
    simp only [LogSleepers.step] at hs
    split_ifs at hs
    cases hs
    constructor
    all_goals simp only [Doomed, Blocked, Full, update_apply] at hdoomed ⊢
    all_goals grind
  | _ =>
    have hself := h.self p
    simp only [LogSleepers.step, State.acquireProc, State.goto, Option.map_if] at hs
    split_ifs at hs with hpc
    cases hs
    refine h.move (p := p) ⟨rfl, ?_, ?_, ?_, ?_, ?_, ?_, ?_, ?_, ?_, ?_, ?_, ?_, ?_⟩
    all_goals simp [hpc, Doomed, Blocked, Full, update_apply] at *
    all_goals grind

/-- Whenever `log.lock` is free, a process that sleeps on `&log` has to wait: the log is
committing, or has no room for another operation. -/
theorem no_sleeper_misses_space {acts : List (Fin n × Act)} {s : State n}
    (h : Runs.exec step (init n) acts = some s) (hfree : s.lock = none) {p : Fin n}
    (hp : s.state p = .sleeping ∧ s.chan p = true) :
    s.committing = true ∨
      (s.lh.length : ℤ) + (s.outstanding + 1) * MAXOPBLOCKS > LOGBLOCKS := by
  have hinv : Inv s := Runs.invariant (fun _ _ _ hI hs => hI.step hs) (inv_init n) h
  obtain hb | ⟨r, -, hw⟩ := hinv.doomed p (Or.inr hp.1)
  · exact hb
  · -- who wakes up holds the lock
    rw [hinv.locked r hw.holds] at hfree
    cases hfree

/-- Three operations run, and the fourth process goes to sleep. -/
def fourBegin : List (Fin 4 × Act) :=
  ([0, 1, 2].flatMap fun p => [(p, .begin), (p, .go), (p, .go), (p, .go)]) ++
    [(3, .begin), (3, .go), (3, .go), (3, .go), (3, .go), (3, .go), (3, .go), (3, .go)]

theorem no_sleeper_misses_space_four :
    ∃ s, Runs.exec step (init 4) fourBegin = some s ∧ s.state 3 = .sleeping ∧
      (s.lh.length : ℤ) + (s.outstanding + 1) * MAXOPBLOCKS > LOGBLOCKS := by
  obtain ⟨s, hrun, hfree, hstate, hchan, hc⟩ : ∃ s, Runs.exec step (init 4) fourBegin = some s ∧
      s.lock = none ∧ s.state 3 = .sleeping ∧ s.chan 3 = true ∧ s.committing = false :=
    ⟨_, rfl, rfl, rfl, rfl, rfl⟩
  refine ⟨s, hrun, hstate, (no_sleeper_misses_space hrun hfree ⟨hstate, hchan⟩).resolve_left ?_⟩
  rw [hc]
  exact Bool.false_ne_true

end Xv6.LogSleepers
