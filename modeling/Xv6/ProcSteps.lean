import Xv6.ProcTable

/-!
# What a step of the process table can do

Every critical section with the place it is taken from, what it has found in the
table, and the state it leaves. All invariants of the table are proved by cases on it.
-/
namespace Xv6.ProcTable

open Function

variable {s s' : State} {p q : Slot}

section Fields

variable {pc : Pc} {f : Proc → Proc} {st : ProcState} {holder : Option Slot} {status : Int32}
  {addr : Bool} {np : Slot}

@[simp] lemma goto_proc : (s.goto p pc).proc = s.proc := rfl

@[simp] lemma goto_pc : (s.goto p pc).pc q = if q = p then pc else s.pc q :=
  update_apply s.pc p pc q

@[simp] lemma modifyProc_proc :
    (s.modifyProc p f).proc q = if q = p then f (s.proc q) else s.proc q := by
  show update s.proc p (f (s.proc p)) q = _
  rw [update_apply]
  split_ifs with h
  · rw [h]
  · rfl

@[simp] lemma modifyProc_pc : (s.modifyProc p f).pc = s.pc := rfl

@[simp] lemma setState_pc : (s.setState p st).pc = s.pc := rfl

@[simp] lemma setWaitLock_pc : (s.setWaitLock holder).pc = s.pc := rfl

@[simp] lemma setState_proc : (s.setState p st).proc q =
    if q = p then { s.proc q with state := st } else s.proc q :=
  modifyProc_proc (s := s) (p := p) (q := q) (f := fun v => { v with state := st })

@[simp] lemma freeproc_proc :
    (freeproc s p).proc q = if q = p then Proc.free else s.proc q := by
  rw [freeproc, modifyProc_proc]
  split_ifs with h
  · rfl
  · rw [setState_proc, if_neg h]

@[simp] lemma allocproc_proc : (allocproc s p np).proc q =
    if q = np then { s.proc q with pid := s.nextpid, state := .used } else s.proc q := by
  rw [allocproc, setState_proc]
  split_ifs with h
  · subst h
    simp
  · simp [h]

@[simp] lemma allocproc_pc : (allocproc s p np).pc q = if q = np then .user else s.pc q :=
  update_apply s.pc np .user q

@[simp] lemma allocproc_born :
    (allocproc s p np).born q = if q = np then s.hist.births.length else s.born q :=
  update_apply s.born np _ q

@[simp] lemma allocproc_hist : (allocproc s p np).hist =
    { s.hist with
      births := s.hist.births ++ [{ pid := s.nextpid, forker := some (s.born p) }]
      moves := s.hist.moves ++ [(np, (s.proc np).state, .used)] } := by
  simp [allocproc, State.setState, State.modifyProc]

end Fields

/-- Process `p` with action `a` takes `s` to `s'`. -/
inductive Section (s : State) (p : Slot) (a : Act) : State → Prop where
  | call (pc : Pc) (hr : (s.proc p).state = .running) (hu : s.pc p = .user)
      (hpc : pc = .forkScan 0 ∨ (∃ addr, pc = .waitAcquire addr) ∨
        ∃ pid, a = .kill pid ∧ pc = .killScan pid 0) :
      Section s p a (s.goto p pc)
  | exit (status : Int32) (hp : p ≠ initproc) (hr : (s.proc p).state = .running)
      (hu : s.pc p = .user) :
      Section s p a { s.goto p (.exitAcquire status) with
        hist := { s.hist with exits := s.hist.exits ++ [(s.born p, status)] } }
  | scanNext (pc : Pc) (hr : (s.proc p).state = .running)
      (hpc : (∃ i, s.pc p = .forkScan i ∧ (pc = .forkScan (i + 1) ∨ pc = .user)) ∨
        ∃ pid i, s.pc p = .killScan pid i ∧ (pc = .killScan pid (i + 1) ∨ pc = .user)) :
      Section s p a (s.goto p pc)
  | forkFound (np : Slot) (hr : (s.proc p).state = .running) (hpc : s.pc p = .forkScan np)
      (hfree : (s.proc np).state = .unused) :
      Section s p a ((allocproc s p np).goto p (.forkParent np))
  | forkFailed (np : Slot) (hr : (s.proc p).state = .running) (hpc : s.pc p = .forkScan np)
      (hfree : (s.proc np).state = .unused) :
      Section s p a ((freeproc (allocproc s p np) np).goto p .user)
  | forkParent (np : Slot) (hr : (s.proc p).state = .running) (hpc : s.pc p = .forkParent np)
      (hl : s.waitLock = none) :
      Section s p a ((s.modifyProc np fun v => { v with parent := some p }).goto p (.forkRun np))
  | forkRun (np : Slot) (hr : (s.proc p).state = .running) (hpc : s.pc p = .forkRun np) :
      Section s p a (ProcTable.forkRun s p np)
  | exitAcquire (status : Int32) (hr : (s.proc p).state = .running)
      (hpc : s.pc p = .exitAcquire status) (hl : s.waitLock = none) :
      Section s p a ((s.setWaitLock (some p)).goto p (.reparent status 0))
  | reparentChild (status : Int32) (pp : Slot) (hr : (s.proc p).state = .running)
      (hpc : s.pc p = .reparent status pp) (hparent : (s.proc pp).parent = some p) :
      Section s p a ((s.modifyProc pp fun v => { v with parent := some initproc }).goto p
        (.wakeup status (some initproc) 0 (some (pp.val + 1))))
  | reparentNext (status : Int32) (pp : Slot) (hr : (s.proc p).state = .running)
      (hpc : s.pc p = .reparent status pp) (hparent : (s.proc pp).parent ≠ some p) :
      Section s p a (s.goto p (.reparent status (pp.val + 1)))
  | reparentEnd (status : Int32) (i : ℕ) (hr : (s.proc p).state = .running)
      (hpc : s.pc p = .reparent status i) (hi : NPROC ≤ i) :
      Section s p a (s.goto p (.wakeup status (s.proc p).parent 0 none))
  | wakeupHit (status : Int32) (chan : Option Slot) (q : Slot) (next : Option ℕ)
      (hr : (s.proc p).state = .running) (hpc : s.pc p = .wakeup status chan q next) (hq : q ≠ p)
      (hsleep : (s.proc q).state = .sleeping) (hchan : (s.proc q).chan = chan.map .proc) :
      Section s p a ((s.setState q .runnable).goto p (.wakeup status chan (q.val + 1) next))
  | wakeupMiss (status : Int32) (chan : Option Slot) (q : Slot) (next : Option ℕ)
      (hr : (s.proc p).state = .running) (hpc : s.pc p = .wakeup status chan q next)
      (hmiss : ¬ (q ≠ p ∧ (s.proc q).state = .sleeping ∧ (s.proc q).chan = chan.map .proc)) :
      Section s p a (s.goto p (.wakeup status chan (q.val + 1) next))
  | wakeupEnd (status : Int32) (chan : Option Slot) (j : ℕ) (next : Option ℕ)
      (hr : (s.proc p).state = .running) (hpc : s.pc p = .wakeup status chan j next)
      (hj : NPROC ≤ j) : Section s p a (s.goto p (next.elim (.zombie status) (.reparent status)))
  | zombie (status : Int32) (hr : (s.proc p).state = .running) (hpc : s.pc p = .zombie status) :
      Section s p a (becomeZombie s p status)
  | waitAcquire (addr : Bool) (hr : (s.proc p).state = .running)
      (hpc : s.pc p = .waitAcquire addr) (hl : s.waitLock = none) :
      Section s p a ((s.setWaitLock (some p)).goto p (.waitScan addr 0 false))
  | waitReturn (hr : (s.proc p).state = .running)
      (hpc : (∃ addr i havekids, s.pc p = .waitScan addr i havekids) ∨
        ∃ addr, s.pc p = .waitKilled addr) :
      Section s p a ((s.setWaitLock none).goto p .user)
  | reap (addr : Bool) (pp : Slot) (havekids : Bool) (hr : (s.proc p).state = .running)
      (hpc : s.pc p = .waitScan addr pp havekids) (hparent : (s.proc pp).parent = some p)
      (hzombie : (s.proc pp).state = .zombie) : Section s p a (ProcTable.reap s p pp addr)
  | waitNext (addr : Bool) (pp : Slot) (havekids havekids' : Bool)
      (hr : (s.proc p).state = .running) (hpc : s.pc p = .waitScan addr pp havekids)
      (hnot : (s.proc pp).parent = some p → (s.proc pp).state ≠ .zombie) :
      Section s p a (s.goto p (.waitScan addr (pp.val + 1) havekids'))
  | waitEnd (addr : Bool) (i : ℕ) (havekids : Bool) (hr : (s.proc p).state = .running)
      (hpc : s.pc p = .waitScan addr i havekids) (hi : NPROC ≤ i) :
      Section s p a (s.goto p (.waitKilled addr))
  | waitAlive (addr : Bool) (hr : (s.proc p).state = .running)
      (hpc : s.pc p = .waitKilled addr) : Section s p a (s.goto p (.waitSleep addr))
  | waitSleep (addr : Bool) (hr : (s.proc p).state = .running)
      (hpc : s.pc p = .waitSleep addr) : Section s p a (ProcTable.waitSleep s p addr)
  | killHit (pid : Int32) (q : Slot) (hr : (s.proc p).state = .running)
      (hpc : s.pc p = .killScan pid q) (hpid : (s.proc q).pid = pid) :
      Section s p a (killScan s p q pid)
  | setkilled (hr : (s.proc p).state = .running) (hu : s.pc p = .user) :
      Section s p a { s.modifyProc p fun v => { v with killed := true } with
        hist := { s.hist with setkills := s.hist.setkills ++ [s.born p] } }
  | run (hr : (s.proc p).state = .runnable) :
      Section s p a ((s.modifyProc p fun v => { v with chan := none }).setState p .running)
  | yield (hr : (s.proc p).state = .running) (hpc : ¬ (s.pc p).Holding) :
      Section s p a (s.setState p .runnable)
  | sleep (c : ℕ) (hr : (s.proc p).state = .running) (hu : s.pc p = .user) :
      Section s p a ((s.modifyProc p fun v => { v with chan := some (.other c) }).setState p .sleeping)
  | wakeup (c : ℕ) (hsleep : (s.proc p).state = .sleeping)
      (hchan : (s.proc p).chan = some (.other c)) : Section s p a (s.setState p .runnable)

lemma section_of_turn {a : Act} {ok : Bool} (hr : (s.proc p).state = .running)
    (h : turn s p ok = some s') : Section s p a s' := by
  unfold turn at h
  split at h
  · cases h
  · next i hpc =>
    split at h
    · next hi =>
      obtain rfl := Option.some.inj h
      unfold forkScan
      split_ifs with hfree
      · exact .forkFound ⟨i, hi⟩ hr hpc hfree
      · exact .forkFailed ⟨i, hi⟩ hr hpc hfree
      · exact .scanNext _ hr (.inl ⟨i, hpc, .inl rfl⟩)
    · obtain rfl := Option.some.inj h
      exact .scanNext _ hr (.inl ⟨i, hpc, .inr rfl⟩)
  · next np hpc =>
    unfold forkParent at h
    split at h
    · next hl =>
      obtain rfl := Option.some.inj h
      exact .forkParent np hr hpc hl
    · cases h
  · next np hpc =>
    obtain rfl := Option.some.inj h
    exact .forkRun np hr hpc
  · next status hpc =>
    unfold acquire at h
    split at h
    · next hl =>
      obtain rfl := Option.some.inj h
      exact .exitAcquire status hr hpc hl
    · cases h
  · next status i hpc =>
    split at h
    · next hi =>
      obtain rfl := Option.some.inj h
      unfold reparent
      split_ifs with hparent
      · exact .reparentChild status ⟨i, hi⟩ hr hpc hparent
      · exact .reparentNext status ⟨i, hi⟩ hr hpc hparent
    · next hi =>
      obtain rfl := Option.some.inj h
      exact .reparentEnd status i hr hpc (not_lt.mp hi)
  · next status chan j next hpc =>
    split at h
    · next hj =>
      obtain rfl := Option.some.inj h
      unfold ProcTable.wakeup
      split_ifs with hhit
      · exact .wakeupHit status chan ⟨j, hj⟩ next hr hpc hhit.1 hhit.2.1 hhit.2.2
      · exact .wakeupMiss status chan ⟨j, hj⟩ next hr hpc hhit
    · next hj =>
      obtain rfl := Option.some.inj h
      exact .wakeupEnd status chan j next hr hpc (not_lt.mp hj)
  · next status hpc =>
    obtain rfl := Option.some.inj h
    exact .zombie status hr hpc
  · cases h
  · next addr hpc =>
    unfold acquire at h
    split at h
    · next hl =>
      obtain rfl := Option.some.inj h
      exact .waitAcquire addr hr hpc hl
    · cases h
  · next addr i havekids hpc =>
    split at h
    · next hi =>
      obtain rfl := Option.some.inj h
      unfold waitScan
      split_ifs with hparent hzombie hcopy
      · exact .waitReturn hr (.inl ⟨addr, i, havekids, hpc⟩)
      · exact .reap addr ⟨i, hi⟩ havekids hr hpc hparent hzombie
      · exact .waitNext addr ⟨i, hi⟩ havekids true hr hpc fun _ => hzombie
      · exact .waitNext addr ⟨i, hi⟩ havekids havekids hr hpc fun hp => absurd hp hparent
    · next hi =>
      split at h
      · obtain rfl := Option.some.inj h
        exact .waitEnd addr i havekids hr hpc (not_lt.mp hi)
      · obtain rfl := Option.some.inj h
        exact .waitReturn hr (.inl ⟨addr, i, havekids, hpc⟩)
  · next addr hpc =>
    split at h
    · obtain rfl := Option.some.inj h
      exact .waitReturn hr (.inr ⟨addr, hpc⟩)
    · obtain rfl := Option.some.inj h
      exact .waitAlive addr hr hpc
  · next addr hpc =>
    obtain rfl := Option.some.inj h
    exact .waitSleep addr hr hpc
  · next pid i hpc =>
    split at h
    · next hi =>
      obtain rfl := Option.some.inj h
      by_cases hpid : (s.proc ⟨i, hi⟩).pid = pid
      · exact .killHit pid ⟨i, hi⟩ hr hpc hpid
      · rw [killScan, if_neg hpid]
        exact .scanNext _ hr (.inr ⟨pid, i, hpc, .inl rfl⟩)
    · obtain rfl := Option.some.inj h
      exact .scanNext _ hr (.inr ⟨pid, i, hpc, .inr rfl⟩)

theorem section_of_step {a : Slot × Act} (h : step s a = some s') : Section s a.1 a.2 s' := by
  obtain ⟨p, act⟩ := a
  have hcall : ∀ pc, call s p pc = some s' →
      (pc = .forkScan 0 ∨ (∃ addr, pc = .waitAcquire addr) ∨
        ∃ pid, act = .kill pid ∧ pc = .killScan pid 0) → Section s p act s' := by
    intro pc h hpc
    unfold call at h
    split at h
    · next hc =>
      obtain rfl := Option.some.inj h
      exact .call pc hc.1 hc.2 hpc
    · cases h
  cases act with
  | fork => exact hcall _ h (.inl rfl)
  | wait addr => exact hcall _ h (.inr (.inl ⟨addr, rfl⟩))
  | kill pid => exact hcall _ h (.inr (.inr ⟨pid, rfl, rfl⟩))
  | exit status =>
    simp only [step, kexit, call] at h
    split_ifs at h with hp hc
    · obtain rfl := Option.some.inj h
      exact .exit status hp hc.1 hc.2
    · cases h
  | turn ok =>
    simp only [step] at h
    split_ifs at h with hr
    exact section_of_turn hr h
  | setkilled =>
    simp only [step, ProcTable.setkilled] at h
    split_ifs at h with hc
    obtain rfl := Option.some.inj h
    exact .setkilled hc.1 hc.2
  | run =>
    simp only [step] at h
    split_ifs at h with hr
    obtain rfl := Option.some.inj h
    exact .run hr
  | yield =>
    simp only [step] at h
    split_ifs at h with hc
    obtain rfl := Option.some.inj h
    exact .yield hc.1 hc.2
  | sleep c =>
    simp only [step] at h
    split_ifs at h with hc
    obtain rfl := Option.some.inj h
    exact .sleep c hc.1 hc.2
  | wakeup c =>
    simp only [step] at h
    split_ifs at h with hc
    obtain rfl := Option.some.inj h
    exact .wakeup c hc.1 hc.2

end Xv6.ProcTable
