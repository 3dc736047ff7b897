import Xv6.SleepLocks

/-!
# The state of a process and who relies on it

`p->state` and `p->chan` are written with `p->lock` held. What an executed process
knows of its own state, what the holder of another process's lock found, and what a
process left behind when it was switched out.
-/
namespace Xv6.SleepWakeup

open Function Spinlocks

variable {n : ℕ} {κ L Ch : Type*}

/-- The state of a process at one of its own program counters. -/
def OwnState (v : Proc Ch) : Pc n L Ch → Prop
  | .sleep ch .setState => v.state = .running ∧ v.chan = some ch
  | .sleep ch .sched => v.state = .sleeping ∧ v.chan = some ch
  | .yield .sched => v.state = .runnable
  | _ => v.state = .running

/-- What was found in the table under the lock of a process. -/
def Found (proc : Fin n → Proc Ch) : Pc n L Ch → Prop
  | .wakeupProc _ i .setState | .killProc _ i .setState => (proc i).state = .sleeping
  | .schedulerProc i .setState => (proc i).state = .runnable
  | .schedulerProc i .swtch => (proc i).state = .running
  | _ => True

/-- The state of a process that is not executed. -/
def Left (v : Proc Ch) : Pc n L Ch → Prop
  | .sleep ch _ => v.state = .sleeping → v.chan = some ch
  | _ => v.state ≠ .sleeping

structure States (s : State n κ L Ch) : Prop where
  own : ∀ c p, s.cur c = some p → OwnState (s.proc p) (s.pc (.proc p))
  found : ∀ c, Found s.proc (s.pc (s.thread c))
  left : ∀ p, (∀ c, s.cur c ≠ some p) → Left (s.proc p) (s.pc (.proc p))

variable {lk : Ch → L} {s s' : State n κ L Ch} {c c' : κ} {p i : Fin n} {t : Thread n κ}

theorem states_init (used : Fin n → Bool) (pid : Fin n → ℤ) (cond : Ch → Bool) :
    States (init used pid cond : State n κ L Ch) where
  own := fun _ _ h => (by cases h)
  found := fun _ => trivial
  left := by
    intro p _
    show (if used p then ProcState.runnable else .unused) ≠ .sleeping
    split_ifs <;> simp

variable {pc : Pc n L Ch}

lemma OwnState.congr {v v' : Proc Ch} (hstate : v'.state = v.state) (hchan : v'.chan = v.chan)
    (h : OwnState v pc) : OwnState v' pc := by
  revert h
  cases pc with
  | sleep ch l => cases l <;> simp [OwnState, hstate, hchan]
  | yield l => cases l <;> simp [OwnState, hstate]
  | _ => simp [OwnState, hstate]

/-- A process that runs without its own lock is `RUNNING`. -/
lemma OwnState.of_free {v : Proc Ch} (hfree : Lock.proc p ∉ held lk (.proc p : Thread n κ) pc) :
    OwnState v pc ↔ v.state = .running := by
  cases pc with
  | sleep ch l | yield l => cases l <;> simp_all [OwnState, held, Thread.own]
  | _ => simp [OwnState]

lemma Found.of_nil {proc : Fin n → Proc Ch} (hnil : held lk t pc = []) : Found proc pc := by
  cases pc <;> simp_all [Found, held]

lemma Found.congr {proc proc' : Fin n → Proc Ch}
    (hproc : ∀ q, Lock.proc q ∈ held lk t pc → (proc' q).state = (proc q).state) (h : Found proc pc) :
    Found proc' pc := by
  revert h
  cases pc with
  | wakeupProc ch i l | killProc pid i l | schedulerProc i l => cases l <;> simp_all [Found, held]
  | _ => simp [Found]

lemma Left.congr {v v' : Proc Ch} (hstate : v'.state = v.state) (hchan : v'.chan = v.chan)
    (h : Left v pc) : Left v' pc := by
  revert h
  cases pc <;> simp [Left, hstate, hchan]

lemma Left.of_awake {v : Proc Ch} (h : v.state ≠ .sleeping) : Left v pc := by
  cases pc <;> simp [Left, h]

namespace States

/-- A process whose lock is held elsewhere and that is not `RUNNING` is not executed. -/
lemma not_executed (h : States s) (hc : Control lk s) (hl : Lock.proc i ∈ s.held lk c)
    (hi : s.cur c ≠ some i) (hstate : (s.proc i).state ≠ .running) (c' : κ) :
    s.cur c' ≠ some i := by
  intro hcur
  have hown := h.own c' i hcur
  by_cases hfree : Lock.proc i ∈ held lk (.proc i : Thread n κ) (s.pc (.proc i))
  · have hl' : Lock.proc i ∈ s.held lk c' := by
      rwa [State.held, thread_of_cur hcur]
    rw [hc.exclusive hl' hl] at hcur
    exact hi hcur
  · exact hstate ((OwnState.of_free hfree).mp hown)

variable [DecidableEq κ]

/-- A step within the thread of processor `c`. Processes whose lock `c` does not hold keep
their state, and so do executed ones other than its own. -/
lemma move (h : States s) (hc : Control lk s) (pc : Pc n L Ch) (ht : s.thread c = t)
    (hcur : s'.cur = s.cur) (hpc : s'.pc = update s.pc t pc)
    (hkeep : ∀ q, (Lock.proc q ∉ s.held lk c ∨ ∃ c', c' ≠ c ∧ s.cur c' = some q) →
      (s'.proc q).state = (s.proc q).state ∧ (s'.proc q).chan = (s.proc q).chan)
    (hown : ∀ p, s.cur c = some p → OwnState (s'.proc p) pc) (hfound : Found s'.proc pc)
    (hleft : ∀ p, (∀ c, s.cur c ≠ some p) → Left (s'.proc p) (s.pc (.proc p))) : States s' := by
  have hinj := hc.cur_inj
  have hthread : ∀ d, s.thread d = s.thread c → d = c := fun _ => hc.thread_inj
  have hothers : ∀ d q, d ≠ c → s.cur d = some q → OwnState (s'.proc q) (s.pc (.proc q)) := by
    intro d q hd hq
    obtain ⟨hstate, hchan⟩ := hkeep q (.inr ⟨d, hd, hq⟩)
    exact (h.own d q hq).congr hstate hchan
  have hfounds : ∀ d, d ≠ c → Found s'.proc (s.pc (s.thread d)) := fun d hd =>
    Found.congr (fun q (hq : _ ∈ s.held lk d) =>
      (hkeep q (.inl fun hqc => hd (hc.exclusive hq hqc))).1) (h.found d)
  constructor
  all_goals simp only [hcur, hpc, update_apply, State.thread] at *
  all_goals grind

/-- A step that leaves every state and channel as it is. -/
lemma goto (h : States s) (hc : Control lk s) (pc : Pc n L Ch) (ht : s.thread c = t)
    (hcur : s'.cur = s.cur) (hpc : s'.pc = update s.pc t pc)
    (hproc : ∀ q, (s'.proc q).state = (s.proc q).state ∧ (s'.proc q).chan = (s.proc q).chan)
    (hown : ∀ p, t = .proc p → ∀ v : Proc Ch, OwnState v (s.pc t) → OwnState v pc) (hfound : Found s.proc pc) :
    States s' := by
  refine h.move hc pc ht hcur hpc (fun q _ => hproc q) (fun p hp => ?_) ?_ fun p hp => ?_
  · obtain rfl : t = .proc p := ht.symm.trans (thread_of_cur hp)
    exact (hown p rfl _ (h.own c p hp)).congr (hproc p).1 (hproc p).2
  · have hsame (q : Fin n) (_ : Lock.proc q ∈ held lk t pc) : (s'.proc q).state = (s.proc q).state :=
      (hproc q).1
    exact Found.congr hsame hfound
  · exact (h.left p hp).congr (hproc p).1 (hproc p).2

/-- A process writes its own state or channel. -/
lemma modifyOwn (h : States s) (hc : Control lk s) (pc : Pc n L Ch) (f : Proc Ch → Proc Ch)
    (hp : s.cur c = some p) (hl : Lock.proc p ∈ s.held lk c) (hown : OwnState (f (s.proc p)) pc)
    (hfound : ∀ proc : Fin n → Proc Ch, Found proc pc) :
    States ((s.modifyProc p f).goto (.proc p) pc) := by
  have hinj := hc.cur_inj
  have hleft := h.left
  refine h.move hc pc (thread_of_cur hp) rfl rfl ?_ ?_ (hfound _) ?_
  all_goals simp only [State.modifyProc, State.goto, update_apply]
  all_goals grind

/-- The holder of the lock of a process that is not executed changes its state. -/
lemma setOther (h : States s) (hc : Control lk s) (pc : Pc n L Ch) (st : ProcState)
    (ht : s.thread c = t) (hl : Lock.proc i ∈ s.held lk c) (hi : ∀ c, s.cur c ≠ some i)
    (hst : st ≠ .sleeping) (hown : ∀ p, t = .proc p → ∀ v : Proc Ch, OwnState v (s.pc t) → OwnState v pc)
    (hfound : Found (s.setState i st).proc pc) :
    States ((s.setState i st).goto t pc) := by
  have hsleep : ∀ q, Left { s.proc i with state := st } (s.pc (.proc q)) := fun _ => Left.of_awake hst
  have howns := h.own
  have hleft := h.left
  have hthread := fun q => thread_of_cur (s := s) (c := c) (p := q)
  refine h.move hc pc ht rfl rfl ?_ ?_ hfound ?_
  all_goals simp only [State.setState, State.modifyProc, State.goto, update_apply]
  all_goals grind

/-- A sleeping process is made `RUNNABLE` by a thread that is not inside `sched`. -/
lemma setRunnable (h : States s) (hc : Control lk s) (pc : Pc n L Ch) (ht : s.thread c = t)
    (hl : Lock.proc i ∈ s.held lk c) (hsleeping : (s.proc i).state = .sleeping)
    (hrunning : ∀ v : Proc Ch, OwnState v (s.pc t) → v.state = .running)
    (hown : ∀ v : Proc Ch, v.state = .running → OwnState v pc)
    (hfound : ∀ proc : Fin n → Proc Ch, Found proc pc) :
    States ((s.setState i .runnable).goto t pc) := by
  have hi : s.cur c ≠ some i := by
    intro hcur
    have hst := h.own c i hcur
    rw [← thread_of_cur hcur, ht] at hst
    rw [hrunning _ hst] at hsleeping
    cases hsleeping
  exact h.setOther hc pc .runnable ht hl
    (h.not_executed hc hl hi (by rw [hsleeping]; simp)) (by simp)
    (fun _ _ v hv => hown v (hrunning v hv)) (hfound _)

lemma leave (h : States s) (hc : Control lk s) (pc : Pc n L Ch) (hp : s.cur c = some p)
    (hleft : Left (s.proc p) pc) : States ((s.goto (.proc p) pc).setCur c none) := by
  have hinj := hc.cur_inj
  have hswitched := hc.switched
  obtain ⟨howns, hfounds, hlefts⟩ := h
  constructor
  all_goals simp only [State.setCur, State.goto, State.thread, update_apply] at *
  all_goals grind [Found]

lemma enter (h : States s) (hc : Control lk s)
    (hpc : s.pc (s.thread c) = .schedulerProc p .swtch) :
    States ((s.goto (s.thread c) (.schedulerProc p .release)).setCur c (some p)) := by
  have hidle : s.cur c = none := hc.idle_of_scheduling (by rw [hpc]; trivial)
  have hrunning : (s.proc p).state = .running := by
    have := h.found c
    rwa [hpc] at this
  rw [thread_of_idle hidle] at hpc ⊢
  have hfree := hc.claimed c p hpc
  have hparked := hc.parked p hfree
  have hown : OwnState (s.proc p) (s.pc (.proc p)) ∧ Found s.proc (s.pc (.proc p)) := by
    revert hparked
    cases s.pc (.proc p) with
    | sleep ch l | yield l => cases l <;> simp [Pc.Parked, OwnState, Found, hrunning]
    | _ => simp [Pc.Parked, OwnState, Found, hrunning]
  obtain ⟨howns, hfounds, hlefts⟩ := h
  constructor
  all_goals simp only [State.setCur, State.goto, State.thread, update_apply] at *
  all_goals grind

end States

variable [DecidableEq κ] [DecidableEq L] [DecidableEq Ch]

omit [DecidableEq κ] [DecidableEq L] [DecidableEq Ch] in
/-- The scheduler switches to a process that no processor executes. -/
lemma States.chosen_not_executed (h : States s) (hc : Control lk s)
    (hpc : s.pc (s.thread c) = .schedulerProc i .setState) (c' : κ) : s.cur c' ≠ some i := by
  have hfound := h.found c
  rw [hpc] at hfound
  have hidle : s.cur c = none := hc.idle_of_scheduling (by rw [hpc]; trivial)
  refine h.not_executed hc (c := c) ?_ (by rw [hidle]; simp) ?_ c'
  · rw [State.held, hpc]
    exact List.mem_singleton_self _
  · rw [show (s.proc i).state = .runnable from hfound]
    simp

theorem Control.step (h : Control lk s) (hs : States s) (hstep : Step lk s c s') :
    Control lk s' := by
  cases hstep with
  | evaluate hc hpc =>
    refine h.goto _ (thread_of_cur hc) ⟨rfl, rfl, rfl, rfl⟩ ?_ ?_
    · rw [hpc]
      split_ifs <;> rfl
    · split_ifs <;> exact False.elim
  | sleepAcquire hc hpc hT | sleepAcquireLk hc hpc hT | yieldAcquire hc hpc hT =>
    exact h.acquire _ (thread_of_cur hc) hT (by rw [hpc]; rfl) False.elim
  | wakeupAcquire hc hpc hT | killAcquire hpc hT | acquireLk hpc hT =>
    exact h.acquire _ rfl hT (by rw [hpc]; rfl) False.elim
  | sleepReleaseLk hc hpc hT | sleepRelease hc hpc hT =>
    refine h.release _ (thread_of_cur hc) hT (fun m => ?_) (by rw [hpc]; rfl) False.elim
    cases m <;> simp [hpc, held, Thread.own]
  | wakeupRelease hpc hT | releaseLk hpc hT =>
    refine h.release _ rfl hT (fun m => ?_) (by rw [hpc]; rfl) False.elim
    cases m <;> simp [hpc, held]
  | sleepSetChan hc hpc | sleepSetState hc hpc | sleepTidy hc hpc | yieldSet hc hpc =>
    exact h.goto _ (thread_of_cur hc) ⟨rfl, rfl, rfl, rfl⟩ (by rw [hpc]; rfl) False.elim
  | sleepSched hc hpc | yieldSched hc hpc => exact h.leave _ hc (by rw [hpc]; rfl) trivial id
  | wakeupCall hpc | wakeupSelf hc hpc | wakeupDone hi hpc | wakeupFound hpc _ _ | wakeupOther hpc _
  | wakeupSet hpc | killNone hi hpc | killTest l' hpc _ | killSetKilled hpc | killSet hpc
  | wait hc hpc | raise hpc | kill hpc | yield hc hpc =>
    exact h.goto _ rfl ⟨rfl, rfl, rfl, rfl⟩ (by rw [hpc]; rfl) False.elim
  | clear hpc =>
    exact h.goto _ rfl ⟨rfl, rfl, rfl, (update_eq_self _ _).symm⟩ rfl (by rw [hpc]; exact False.elim)
  | killRelease pc hpc hT hnext =>
    obtain rfl | rfl := hnext
    all_goals
      refine h.release _ rfl hT (fun m => ?_) (by rw [hpc]; rfl) False.elim
      rw [hpc]
      simp [held]
  | resumed hc hpc hT =>
    refine h.release _ (thread_of_cur hc) hT (fun m => ?_) ?_ False.elim
    · obtain hpc | hpc := hpc <;> rw [hpc] <;> simp [held, Thread.own]
    · obtain hpc | hpc := hpc <;> rw [hpc] <;> rfl
  | schedulerPass pc hpc =>
    have hidle : s.cur c = none := by
      refine h.idle_of_scheduling ?_
      obtain ⟨hpc, -⟩ | ⟨i, hpc, -⟩ := hpc <;> rw [hpc] <;> trivial
    refine h.goto _ rfl ⟨rfl, rfl, rfl, rfl⟩ ?_ fun _ => ⟨hidle, fun i hi => ?_⟩
    · obtain ⟨hpc, rfl⟩ | ⟨i, hpc, rfl⟩ := hpc <;> rw [hpc] <;> rfl
    · obtain ⟨-, rfl⟩ | ⟨j, -, rfl⟩ := hpc <;> cases hi
  | schedulerAcquire hpc hT =>
    refine h.acquire _ rfl hT (by rw [hpc]; rfl) fun _ => ⟨?_, fun i hi => (by cases hi)⟩
    exact h.idle_of_scheduling (by rw [hpc]; trivial)
  | schedulerChoose hpc _ | schedulerOther hpc =>
    refine h.goto _ rfl ⟨rfl, rfl, rfl, rfl⟩ (by rw [hpc]; rfl) fun _ => ⟨?_, fun i hi => (by cases hi)⟩
    exact h.idle_of_scheduling (by rw [hpc]; trivial)
  | schedulerSet hpc =>
    refine h.goto _ rfl ⟨rfl, rfl, rfl, rfl⟩ (by rw [hpc]; rfl) fun _ => ⟨?_, fun i hi => ?_⟩
    · exact h.idle_of_scheduling (by rw [hpc]; trivial)
    · obtain rfl : _ = i := (Pc.schedulerProc.inj hi).1
      exact hs.chosen_not_executed h hpc
  | swtch hpc => exact h.enter hpc
  | schedulerRelease hpc hT =>
    refine h.release _ rfl hT (fun m => ?_) (by rw [hpc]; rfl) fun _ => ⟨?_, fun i hi => (by cases hi)⟩
    · rw [hpc]
      simp [held]
    · exact h.idle_of_scheduling (by rw [hpc]; trivial)
  | interrupt hn => exact h.interrupt hn
  | iret hpc hsaved => exact h.iret hpc hsaved

theorem States.step (h : States s) (hc : Control lk s) (hstep : Step lk s c s') : States s' := by
  cases hstep with
  | evaluate hp hpc | resumed hp hpc _ =>
    refine h.goto hc _ (thread_of_cur hp) rfl rfl (fun _ => ⟨rfl, rfl⟩) (fun _ _ _ hv => ?_) ?_
    all_goals grind [OwnState, Found]
  | @sleepSetChan p _ hp hpc | @sleepSetState p _ hp hpc | @sleepTidy p _ hp hpc | @yieldSet p hp hpc =>
    have hown := h.own c p hp
    rw [hpc] at hown
    refine h.modifyOwn hc _ _ hp ?_ ?_ fun _ => trivial
    · simp [State.held, thread_of_cur hp, hpc, held, Thread.own]
    · simp_all [OwnState]
  | @sleepSched p _ hp hpc | @yieldSched p hp hpc =>
    have hown := h.own c p hp
    rw [hpc] at hown
    refine h.leave hc _ hp ?_
    simp_all [OwnState, Left]
  | @killSetKilled pid i hpc =>
    refine h.goto hc _ rfl rfl rfl (fun q => ?_) (fun _ _ _ hv => by rw [hpc] at hv; exact hv) trivial
    simp only [State.goto, State.modifyProc, update_apply]
    split_ifs with hq <;> simp [hq]
  | killTest l' hpc hl =>
    refine h.goto hc _ rfl rfl rfl (fun _ => ⟨rfl, rfl⟩) (fun _ _ _ hv => by rw [hpc] at hv; exact hv) ?_
    cases l' with
    | setState => exact hl rfl
    | _ => trivial
  | @wakeupSet _ i hpc | @killSet _ i hpc =>
    have hfound := h.found c
    rw [hpc] at hfound
    exact h.setRunnable hc _ rfl (by simp [State.held, hpc, held]) hfound
      (fun v hv => by rw [hpc] at hv; exact hv) (fun _ hv => hv) fun _ => trivial
  | @schedulerSet i hpc =>
    refine h.setOther hc _ .running rfl ?_ (h.chosen_not_executed hc hpc) (by simp)
      (fun _ _ _ hv => by rw [hpc] at hv; exact hv) ?_
    · simp [State.held, hpc, held]
    · simp [Found, State.setState, State.modifyProc]
  | swtch hpc => exact h.enter hc hpc
  | interrupt hn =>
    have hnil := hc.held_nil hn
    refine h.goto hc .out rfl rfl rfl (fun _ => ⟨rfl, rfl⟩) (fun p hp v hv => ?_) trivial
    rw [State.held, hp] at hnil
    rw [hp] at hv
    exact (OwnState.of_free (by rw [hnil]; exact List.not_mem_nil)).mp hv
  | @iret pc fs hpc hsaved =>
    have hmem : pc ∈ s.saved (s.thread c) := by rw [hsaved]; exact List.mem_cons_self ..
    have hnil := hc.saved _ pc hmem
    refine h.goto hc pc rfl rfl rfl (fun _ => ⟨rfl, rfl⟩) (fun p hp v hv => ?_) (Found.of_nil hnil)
    rw [hpc] at hv
    rw [hp] at hnil
    exact (OwnState.of_free (by rw [hnil]; exact List.not_mem_nil)).mpr hv
  | clear _ => exact ⟨h.own, h.found, h.left⟩
  | _ =>
    refine h.goto hc _ (by first | rfl | exact thread_of_cur ‹_›) rfl rfl (fun _ => ⟨rfl, rfl⟩) ?_ ?_
    all_goals grind [OwnState, Found]

end Xv6.SleepWakeup
