import Xv6.SleepWakeup

/-!
# What a step of a processor does

The locks that a thread holds can be read off its program counter. `Step` lists every
way a processor can move, with what it found; the invariants are proved by cases on it.
-/
namespace Xv6.SleepWakeup

open Function Spinlocks

variable {n : ℕ} {κ L Ch : Type*}

/-- The lock of the process that the thread belongs to. -/
def Thread.own : Thread n κ → List (Lock n L)
  | .proc p => [.proc p]
  | .sched _ => []

/-- The locks held at a program counter, the last taken first. -/
def held (lk : Ch → L) (t : Thread n κ) : Pc n L Ch → List (Lock n L)
  | .inside l => [.cond l]
  | .loop ch | .raised ch | .wakeup ch _ => [.cond (lk ch)]
  | .sleep ch .acquire => [.cond (lk ch)]
  | .sleep ch .releaseLk => t.own ++ [.cond (lk ch)]
  | .sleep _ .acquireLk => []
  | .sleep _ _ => t.own
  | .wakeupProc ch i _ => [.proc i, .cond (lk ch)]
  | .killProc _ i _ | .schedulerProc i _ => [.proc i]
  | .yield .acquire => []
  | .yield _ | .forkret => t.own
  | .out | .kill _ _ | .schedulerStart | .scheduler _ => []

/-- The locks that a processor holds. -/
def State.held (lk : Ch → L) (s : State n κ L Ch) (c : κ) : List (Lock n L) :=
  SleepWakeup.held lk (s.thread c) (s.pc (s.thread c))

variable {s : State n κ L Ch}

lemma thread_of_cur {c : κ} {p : Fin n} (h : s.cur c = some p) : s.thread c = .proc p := by
  simp [State.thread, h]

lemma thread_of_idle {c : κ} (h : s.cur c = none) : s.thread c = .sched c := by
  simp [State.thread, h]

lemma cur_of_thread {c : κ} {p : Fin n} (h : s.thread c = .proc p) : s.cur c = some p := by
  unfold State.thread at h
  split at h
  · next q hq => rw [hq, Thread.proc.inj h]
  · cases h

lemma idle_of_thread {c d : κ} (h : s.thread c = .sched d) : s.cur c = none ∧ d = c := by
  unfold State.thread at h
  split at h
  · cases h
  · next hq => exact ⟨hq, (Thread.sched.inj h).symm⟩

variable [DecidableEq κ] [DecidableEq L] [DecidableEq Ch]

namespace State

variable (s : State n κ L Ch) (t : Thread n κ) (pc : Pc n L Ch) (c : κ) (q : Option (Fin n))
  (p : Fin n) (f : Proc Ch → Proc Ch)

omit [DecidableEq L] [DecidableEq Ch]

@[simp] lemma goto_pc : (s.goto t pc).pc = update s.pc t pc := rfl
@[simp] lemma goto_proc : (s.goto t pc).proc = s.proc := rfl
@[simp] lemma goto_locks : (s.goto t pc).locks = s.locks := rfl
@[simp] lemma goto_cur : (s.goto t pc).cur = s.cur := rfl
@[simp] lemma goto_saved : (s.goto t pc).saved = s.saved := rfl
@[simp] lemma goto_cond : (s.goto t pc).cond = s.cond := rfl
@[simp] lemma goto_since : (s.goto t pc).since = s.since := rfl

@[simp] lemma setCur_cur : (s.setCur c q).cur = update s.cur c q := rfl
@[simp] lemma setCur_pc : (s.setCur c q).pc = s.pc := rfl
@[simp] lemma setCur_proc : (s.setCur c q).proc = s.proc := rfl
@[simp] lemma setCur_locks : (s.setCur c q).locks = s.locks := rfl
@[simp] lemma setCur_saved : (s.setCur c q).saved = s.saved := rfl
@[simp] lemma setCur_cond : (s.setCur c q).cond = s.cond := rfl
@[simp] lemma setCur_since : (s.setCur c q).since = s.since := rfl

end State

/-- A step of processor `c` from `s`. -/
inductive Step (lk : Ch → L) (s : State n κ L Ch) (c : κ) : State n κ L Ch → Prop where
  | evaluate {p ch} (hc : s.cur c = some p) (hpc : s.pc (.proc p) = .loop ch) :
    Step lk s c (evaluate lk s p ch)
  | sleepAcquire {p ch T} (hc : s.cur c = some p) (hpc : s.pc (.proc p) = .sleep ch .acquire)
    (hT : s.locks.acquire c (.proc p) = some T) :
    Step lk s c ({ s with locks := T }.goto (.proc p) (.sleep ch .releaseLk))
  | sleepReleaseLk {p ch T} (hc : s.cur c = some p) (hpc : s.pc (.proc p) = .sleep ch .releaseLk)
    (hT : s.locks.release c (.cond (lk ch)) = some T) :
    Step lk s c ({ s with locks := T }.goto (.proc p) (.sleep ch .setChan))
  | sleepSetChan {p ch} (hc : s.cur c = some p) (hpc : s.pc (.proc p) = .sleep ch .setChan) :
    Step lk s c ((s.setChan p (some ch)).goto (.proc p) (.sleep ch .setState))
  | sleepSetState {p ch} (hc : s.cur c = some p) (hpc : s.pc (.proc p) = .sleep ch .setState) :
    Step lk s c ((s.setState p .sleeping).goto (.proc p) (.sleep ch .sched))
  | sleepSched {p ch} (hc : s.cur c = some p) (hpc : s.pc (.proc p) = .sleep ch .sched) :
    Step lk s c ((s.goto (.proc p) (.sleep ch .tidy)).setCur c none)
  | sleepTidy {p ch} (hc : s.cur c = some p) (hpc : s.pc (.proc p) = .sleep ch .tidy) :
    Step lk s c ((s.setChan p none).goto (.proc p) (.sleep ch .release))
  | sleepRelease {p ch T} (hc : s.cur c = some p) (hpc : s.pc (.proc p) = .sleep ch .release)
    (hT : s.locks.release c (.proc p) = some T) :
    Step lk s c ({ s with locks := T }.goto (.proc p) (.sleep ch .acquireLk))
  | sleepAcquireLk {p ch T} (hc : s.cur c = some p) (hpc : s.pc (.proc p) = .sleep ch .acquireLk)
    (hT : s.locks.acquire c (.cond (lk ch)) = some T) :
    Step lk s c ({ s with locks := T }.goto (.proc p) (.loop ch))
  | wakeupCall {ch} (hpc : s.pc (s.thread c) = .raised ch) :
    Step lk s c (s.goto (s.thread c) (.wakeup ch 0))
  | wakeupSelf {ch} {p : Fin n} (hc : s.cur c = some p)
    (hpc : s.pc (s.thread c) = .wakeup ch p.val) :
    Step lk s c (s.goto (s.thread c) (.wakeup ch (p.val + 1)))
  | wakeupAcquire {ch T} {i : Fin n} (hc : s.cur c ≠ some i)
    (hpc : s.pc (s.thread c) = .wakeup ch i.val) (hT : s.locks.acquire c (.proc i) = some T) :
    Step lk s c ({ s with locks := T }.goto (s.thread c) (.wakeupProc ch i .test))
  | wakeupDone {ch i} (hi : n ≤ i) (hpc : s.pc (s.thread c) = .wakeup ch i) :
    Step lk s c (s.goto (s.thread c) (.inside (lk ch)))
  | wakeupFound {ch i} (hpc : s.pc (s.thread c) = .wakeupProc ch i .test)
    (hs : (s.proc i).state = .sleeping) (hch : (s.proc i).chan = some ch) :
    Step lk s c (s.goto (s.thread c) (.wakeupProc ch i .setState))
  | wakeupOther {ch i} (hpc : s.pc (s.thread c) = .wakeupProc ch i .test)
    (hs : ¬ ((s.proc i).state = .sleeping ∧ (s.proc i).chan = some ch)) :
    Step lk s c (s.goto (s.thread c) (.wakeupProc ch i .release))
  | wakeupSet {ch i} (hpc : s.pc (s.thread c) = .wakeupProc ch i .setState) :
    Step lk s c ((s.setState i .runnable).goto (s.thread c) (.wakeupProc ch i .release))
  | wakeupRelease {ch i T} (hpc : s.pc (s.thread c) = .wakeupProc ch i .release)
    (hT : s.locks.release c (.proc i) = some T) :
    Step lk s c ({ s with locks := T }.goto (s.thread c) (.wakeup ch (i.val + 1)))
  | killAcquire {pid T} {i : Fin n} (hpc : s.pc (s.thread c) = .kill pid i.val)
    (hT : s.locks.acquire c (.proc i) = some T) :
    Step lk s c ({ s with locks := T }.goto (s.thread c) (.killProc pid i .testPid))
  | killNone {pid i} (hi : n ≤ i) (hpc : s.pc (s.thread c) = .kill pid i) :
    Step lk s c (s.goto (s.thread c) .out)
  | killTest {pid i l} (l' : KillAt) (hpc : s.pc (s.thread c) = .killProc pid i l)
    (hl : l' = .setState → (s.proc i).state = .sleeping) :
    Step lk s c (s.goto (s.thread c) (.killProc pid i l'))
  | killSetKilled {pid i} (hpc : s.pc (s.thread c) = .killProc pid i .setKilled) :
    Step lk s c ((s.modifyProc i fun v => { v with killed := true }).goto (s.thread c)
      (.killProc pid i .testState))
  | killSet {pid i} (hpc : s.pc (s.thread c) = .killProc pid i .setState) :
    Step lk s c ((s.setState i .runnable).goto (s.thread c) (.killProc pid i (.release true)))
  | killRelease {pid i found T} (pc : Pc n L Ch)
    (hpc : s.pc (s.thread c) = .killProc pid i (.release found))
    (hT : s.locks.release c (.proc i) = some T) (h : pc = .out ∨ pc = .kill pid (i.val + 1)) :
    Step lk s c ({ s with locks := T }.goto (s.thread c) pc)
  | yieldAcquire {p T} (hc : s.cur c = some p) (hpc : s.pc (.proc p) = .yield .acquire)
    (hT : s.locks.acquire c (.proc p) = some T) :
    Step lk s c ({ s with locks := T }.goto (.proc p) (.yield .setState))
  | yieldSet {p} (hc : s.cur c = some p) (hpc : s.pc (.proc p) = .yield .setState) :
    Step lk s c ((s.setState p .runnable).goto (.proc p) (.yield .sched))
  | yieldSched {p} (hc : s.cur c = some p) (hpc : s.pc (.proc p) = .yield .sched) :
    Step lk s c ((s.goto (.proc p) (.yield .release)).setCur c none)
  | resumed {p T} (hc : s.cur c = some p)
    (hpc : s.pc (.proc p) = .yield .release ∨ s.pc (.proc p) = .forkret)
    (hT : s.locks.release c (.proc p) = some T) :
    Step lk s c ({ s with locks := T }.goto (.proc p) .out)
  | schedulerPass (pc : Pc n L Ch)
    (hpc : (s.pc (s.thread c) = .schedulerStart ∧ pc = .scheduler 0) ∨
      ∃ i, s.pc (s.thread c) = .scheduler i ∧ pc = .schedulerStart) :
    Step lk s c (s.goto (s.thread c) pc)
  | schedulerAcquire {T} {i : Fin n} (hpc : s.pc (s.thread c) = .scheduler i.val)
    (hT : s.locks.acquire c (.proc i) = some T) :
    Step lk s c ({ s with locks := T }.goto (s.thread c) (.schedulerProc i .test))
  | schedulerChoose {i} (hpc : s.pc (s.thread c) = .schedulerProc i .test)
    (hs : (s.proc i).state = .runnable) :
    Step lk s c (s.goto (s.thread c) (.schedulerProc i .setState))
  | schedulerOther {i} (hpc : s.pc (s.thread c) = .schedulerProc i .test) :
    Step lk s c (s.goto (s.thread c) (.schedulerProc i .release))
  | schedulerSet {i} (hpc : s.pc (s.thread c) = .schedulerProc i .setState) :
    Step lk s c ((s.setState i .running).goto (s.thread c) (.schedulerProc i .swtch))
  | swtch {i} (hpc : s.pc (s.thread c) = .schedulerProc i .swtch) :
    Step lk s c ((s.goto (s.thread c) (.schedulerProc i .release)).setCur c (some i))
  | schedulerRelease {i T} (hpc : s.pc (s.thread c) = .schedulerProc i .release)
    (hT : s.locks.release c (.proc i) = some T) :
    Step lk s c ({ s with locks := T }.goto (s.thread c) (.scheduler (i.val + 1)))
  | interrupt (hn : s.locks.noff c = 0) :
    Step lk s c { s with
      pc := update s.pc (s.thread c) .out
      saved := update s.saved (s.thread c) (s.pc (s.thread c) :: s.saved (s.thread c)) }
  | iret {pc fs} (hpc : s.pc (s.thread c) = .out) (hsaved : s.saved (s.thread c) = pc :: fs) :
    Step lk s c { s with
      pc := update s.pc (s.thread c) pc, saved := update s.saved (s.thread c) fs }
  | acquireLk {l T} (hpc : s.pc (s.thread c) = .out)
    (hT : s.locks.acquire c (.cond l) = some T) :
    Step lk s c ({ s with locks := T }.goto (s.thread c) (.inside l))
  | releaseLk {l T} (hpc : s.pc (s.thread c) = .inside l)
    (hT : s.locks.release c (.cond l) = some T) :
    Step lk s c ({ s with locks := T }.goto (s.thread c) .out)
  | wait {ch p} (hc : s.cur c = some p) (hpc : s.pc (s.thread c) = .inside (lk ch)) :
    Step lk s c (s.goto (s.thread c) (.loop ch))
  | raise {ch} (hpc : s.pc (s.thread c) = .inside (lk ch)) :
    Step lk s c ({ s with
      cond := update s.cond ch true
      since := fun p => update (s.since p) ch true }.goto (s.thread c) (.raised ch))
  | clear {ch} (hpc : s.pc (s.thread c) = .inside (lk ch)) :
    Step lk s c { s with cond := update s.cond ch false }
  | kill {pid} (hpc : s.pc (s.thread c) = .out) :
    Step lk s c (s.goto (s.thread c) (.kill pid 0))
  | yield {p} (hc : s.cur c = some p) (hpc : s.pc (s.thread c) = .out) :
    Step lk s c (s.goto (s.thread c) (.yield .acquire))

variable {lk : Ch → L} {s s' : State n κ L Ch} {c : κ}

omit [DecidableEq Ch] in
lemma acquire_eq_some {l : Lock n L} {pc : Pc n L Ch} (h : acquire s c l pc = some s') :
    ∃ T, s.locks.acquire c l = some T ∧ { s with locks := T }.goto (s.thread c) pc = s' := by
  simpa [acquire] using h

omit [DecidableEq Ch] in
lemma release_eq_some {l : Lock n L} {pc : Pc n L Ch} (h : release s c l pc = some s') :
    ∃ T, s.locks.release c l = some T ∧ { s with locks := T }.goto (s.thread c) pc = s' := by
  simpa [release] using h

omit [DecidableEq L] [DecidableEq Ch] in
lemma sched_eq_some {p : Fin n} {pc : Pc n L Ch} (h : sched s c p pc = some s') :
    (s.goto (.proc p) pc).setCur c none = s' := by
  simp only [sched] at h
  split_ifs at h
  exact Option.some.inj h

lemma step_of_sleep {p : Fin n} {ch : Ch} {l : SleepAt} (hc : s.cur c = some p)
    (hpc : s.pc (.proc p) = .sleep ch l) (h : sleep lk s c p ch l = some s') : Step lk s c s' := by
  have ht := thread_of_cur hc
  cases l with
  | acquire =>
    obtain ⟨T, hT, rfl⟩ := acquire_eq_some h
    rw [ht]
    exact .sleepAcquire hc hpc hT
  | releaseLk =>
    obtain ⟨T, hT, rfl⟩ := release_eq_some h
    rw [ht]
    exact .sleepReleaseLk hc hpc hT
  | setChan =>
    obtain rfl := Option.some.inj h
    exact .sleepSetChan hc hpc
  | setState =>
    obtain rfl := Option.some.inj h
    exact .sleepSetState hc hpc
  | sched =>
    obtain rfl := sched_eq_some h
    exact .sleepSched hc hpc
  | tidy =>
    obtain rfl := Option.some.inj h
    exact .sleepTidy hc hpc
  | release =>
    obtain ⟨T, hT, rfl⟩ := release_eq_some h
    rw [ht]
    exact .sleepRelease hc hpc hT
  | acquireLk =>
    obtain ⟨T, hT, rfl⟩ := acquire_eq_some h
    rw [ht]
    exact .sleepAcquireLk hc hpc hT

lemma step_of_wakeup {ch : Ch} {i : ℕ} (hpc : s.pc (s.thread c) = .wakeup ch i)
    (h : wakeup lk s c ch i = some s') : Step lk s c s' := by
  simp only [wakeup] at h
  split_ifs at h with hi hc
  · obtain rfl := Option.some.inj h
    exact .wakeupSelf (p := ⟨i, hi⟩) hc hpc
  · obtain ⟨T, hT, rfl⟩ := acquire_eq_some h
    exact .wakeupAcquire (i := ⟨i, hi⟩) hc hpc hT
  · obtain rfl := Option.some.inj h
    exact .wakeupDone (not_lt.mp hi) hpc

lemma step_of_wakeupProc {ch : Ch} {i : Fin n} {l : WakeAt}
    (hpc : s.pc (s.thread c) = .wakeupProc ch i l) (h : wakeupProc s c ch i l = some s') :
    Step lk s c s' := by
  cases l with
  | test =>
    obtain rfl := Option.some.inj h
    split_ifs with hs
    · exact .wakeupFound hpc hs.1 hs.2
    · exact .wakeupOther hpc hs
  | setState =>
    obtain rfl := Option.some.inj h
    exact .wakeupSet hpc
  | release =>
    obtain ⟨T, hT, rfl⟩ := release_eq_some h
    exact .wakeupRelease hpc hT

lemma step_of_kkill {pid : ℤ} {i : ℕ} (hpc : s.pc (s.thread c) = .kill pid i)
    (h : kkill s c pid i = some s') : Step lk s c s' := by
  simp only [kkill] at h
  split_ifs at h with hi
  · obtain ⟨T, hT, rfl⟩ := acquire_eq_some h
    exact .killAcquire (i := ⟨i, hi⟩) hpc hT
  · obtain rfl := Option.some.inj h
    exact .killNone (not_lt.mp hi) hpc

lemma step_of_kkillProc {pid : ℤ} {i : Fin n} {l : KillAt}
    (hpc : s.pc (s.thread c) = .killProc pid i l) (h : kkillProc s c pid i l = some s') :
    Step lk s c s' := by
  cases l with
  | testPid =>
    obtain rfl := Option.some.inj h
    refine .killTest _ hpc fun hl => ?_
    split_ifs at hl
  | setKilled =>
    obtain rfl := Option.some.inj h
    exact .killSetKilled hpc
  | testState =>
    obtain rfl := Option.some.inj h
    refine .killTest _ hpc fun hl => ?_
    split_ifs at hl with hs
    exact hs
  | setState =>
    obtain rfl := Option.some.inj h
    exact .killSet hpc
  | release found =>
    obtain ⟨T, hT, rfl⟩ := release_eq_some h
    refine .killRelease _ hpc hT ?_
    cases found
    · exact .inr rfl
    · exact .inl rfl

lemma step_of_yield {p : Fin n} {l : YieldAt} (hc : s.cur c = some p)
    (hpc : s.pc (.proc p) = .yield l) (h : yield s c p l = some s') : Step lk s c s' := by
  have ht := thread_of_cur hc
  cases l with
  | acquire =>
    obtain ⟨T, hT, rfl⟩ := acquire_eq_some h
    rw [ht]
    exact .yieldAcquire hc hpc hT
  | setState =>
    obtain rfl := Option.some.inj h
    exact .yieldSet hc hpc
  | sched =>
    obtain rfl := sched_eq_some h
    exact .yieldSched hc hpc
  | release =>
    obtain ⟨T, hT, rfl⟩ := release_eq_some h
    rw [ht]
    exact .resumed hc (.inl hpc) hT

lemma step_of_schedulerProc {i : Fin n} {l : SchedAt}
    (hpc : s.pc (s.thread c) = .schedulerProc i l) (h : schedulerProc s c i l = some s') :
    Step lk s c s' := by
  cases l with
  | test =>
    obtain rfl := Option.some.inj h
    split_ifs with hs
    · exact .schedulerChoose hpc hs
    · exact .schedulerOther hpc
  | setState =>
    obtain rfl := Option.some.inj h
    exact .schedulerSet hpc
  | swtch =>
    obtain rfl := Option.some.inj h
    exact .swtch hpc
  | release =>
    obtain ⟨T, hT, rfl⟩ := release_eq_some h
    exact .schedulerRelease hpc hT

theorem step_of_statement (h : statement lk s c = some s') : Step lk s c s' := by
  unfold statement at h
  split at h
  · next ch p hpc hc =>
    rw [thread_of_cur hc] at hpc
    obtain rfl := Option.some.inj h
    exact .evaluate hc hpc
  · next ch l p hpc hc =>
    rw [thread_of_cur hc] at hpc
    exact step_of_sleep hc hpc h
  · next ch hpc =>
    obtain rfl := Option.some.inj h
    exact .wakeupCall hpc
  · next hpc => exact step_of_wakeup hpc h
  · next hpc => exact step_of_wakeupProc hpc h
  · next hpc => exact step_of_kkill hpc h
  · next hpc => exact step_of_kkillProc hpc h
  · next hpc hc =>
    rw [thread_of_cur hc] at hpc
    exact step_of_yield hc hpc h
  · next p hpc hc =>
    rw [thread_of_cur hc] at hpc
    obtain ⟨T, hT, rfl⟩ := release_eq_some h
    rw [thread_of_cur hc]
    exact .resumed hc (.inr hpc) hT
  · next hpc =>
    obtain rfl := Option.some.inj h
    exact .schedulerPass _ (.inl ⟨hpc, rfl⟩)
  · next i hpc =>
    split_ifs at h with hi
    · obtain ⟨T, hT, rfl⟩ := acquire_eq_some h
      exact .schedulerAcquire (i := ⟨i, hi⟩) hpc hT
    · obtain rfl := Option.some.inj h
      exact .schedulerPass _ (.inr ⟨i, hpc, rfl⟩)
  · next hpc => exact step_of_schedulerProc hpc h
  · cases h

theorem step_of_step {a : κ × Act L Ch} (h : step lk s a = some s') : Step lk s a.1 s' := by
  obtain ⟨c, a⟩ := a
  simp only [step] at h
  split at h
  · exact step_of_statement h
  · split_ifs at h with hn
    obtain rfl := Option.some.inj h
    exact .interrupt hn.1
  · next hpc =>
    split_ifs at h with hsaved
    obtain ⟨pc, fs, hfs⟩ := List.exists_cons_of_ne_nil hsaved
    obtain rfl := Option.some.inj h
    simp only [State.pop, hfs]
    exact .iret hpc hfs
  · next hpc =>
    obtain ⟨T, hT, rfl⟩ := acquire_eq_some h
    exact .acquireLk hpc hT
  · next hpc =>
    obtain rfl := Option.some.inj h
    exact .kill hpc
  · next hpc =>
    split_ifs at h with hc
    obtain ⟨p, hc⟩ := Option.isSome_iff_exists.mp hc
    obtain rfl := Option.some.inj h
    exact .yield hc hpc
  · next hpc =>
    obtain ⟨T, hT, rfl⟩ := release_eq_some h
    exact .releaseLk hpc hT
  · next hpc =>
    split_ifs at h with hl
    obtain ⟨rfl, hc⟩ := hl
    obtain ⟨p, hc⟩ := Option.isSome_iff_exists.mp hc
    obtain rfl := Option.some.inj h
    exact .wait hc hpc
  · next hpc =>
    split_ifs at h with hl
    subst hl
    obtain rfl := Option.some.inj h
    exact .raise hpc
  · next hpc =>
    split_ifs at h with hl
    subst hl
    obtain rfl := Option.some.inj h
    exact .clear hpc
  · cases h

end Xv6.SleepWakeup
