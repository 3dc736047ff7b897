import Xv6.SleepStates

/-!
# No wakeup is lost

A process that has found its condition false, and has not been made `RUNNABLE` since,
sleeps on a condition that nobody has set, or a waker is on its way to it. It keeps `lk`
until it holds its own lock and keeps that one until it is `SLEEPING`, so that a waker,
which holds `lk`, cannot have passed it by.
-/
namespace Xv6.SleepWakeup

open Function Spinlocks

variable {n : ℕ} {κ L Ch : Type*}

/-- The process has found the condition of `ch` false and is going to sleep, or sleeps. -/
def Committed (v : Proc Ch) (ch : Ch) : Pc n L Ch → Prop
  | .sleep ch' l => ch' = ch ∧ match l with
    | .acquire | .releaseLk | .setChan | .setState | .sched => True
    | .tidy => v.state = .sleeping
    | .release | .acquireLk => False
  | _ => False

/-- Between setting the condition of `ch` and the end of `wakeup`. -/
def Pc.Waking (ch : Ch) : Pc n L Ch → Prop
  | .raised ch' | .wakeup ch' _ | .wakeupProc ch' _ _ => ch' = ch
  | _ => False

/-- A waker of `ch` that has not been at process `p` yet. -/
def Pc.WillWake (p : Fin n) (ch : Ch) : Pc n L Ch → Prop
  | .raised ch' => ch' = ch
  | .wakeup ch' i => ch' = ch ∧ i ≤ p
  | .wakeupProc ch' i l => ch' = ch ∧ (i < p ∨ i = p ∧ l ≠ .release)
  | _ => False

/-- Nobody has set the condition since the process found it false. -/
def Unset (s : State n κ L Ch) (p : Fin n) (ch : Ch) : Prop :=
  s.since p ch = false ∧ s.cond ch = false

/-- Every process that is committed to sleep may sleep on, or is going to be woken. -/
def Evaluated (s : State n κ L Ch) : Prop :=
  ∀ p ch, Committed (s.proc p) ch (s.pc (.proc p)) →
    Unset s p ch ∨ ∃ t, (s.pc t).WillWake p ch

variable {lk : Ch → L} {s s' : State n κ L Ch} {c : κ} {p : Fin n} {ch : Ch} {t : Thread n κ}

variable {pc : Pc n L Ch}

lemma Pc.WillWake.waking (h : pc.WillWake p ch) : pc.Waking ch := by
  revert h
  cases pc <;> simp +contextual [Pc.WillWake, Pc.Waking]

lemma Pc.Waking.holds (h : pc.Waking ch) : Lock.cond (lk ch) ∈ held lk t pc := by
  revert h
  cases pc <;> simp +contextual [Pc.Waking, held]

lemma Pc.Waking.executed (h : (s.pc t).Waking ch) (hc : Control lk s) : ∃ c, s.thread c = t := by
  cases t with
  | proc p =>
    obtain ⟨c, hcur⟩ : ∃ c, s.cur c = some p := by
      refine hc.executed fun hparked => ?_
      revert h hparked
      cases s.pc (.proc p) <;> simp [Pc.Waking, Pc.Parked]
    exact ⟨c, thread_of_cur hcur⟩
  | sched c =>
    refine ⟨c, thread_of_idle ?_⟩
    cases hcur : s.cur c with
    | none => rfl
    | some q =>
      rw [hc.switched c q hcur] at h
      cases h

/-- A committed process holds the lock of its channel, or its own lock, or was switched out
as `SLEEPING` on the channel. -/
lemma Committed.cases (h : Committed (s.proc p) ch (s.pc (.proc p))) (hc : Control lk s)
    (hs : States s) :
    (∃ c, s.cur c = some p ∧
      (Lock.cond (lk ch) ∈ s.held lk c ∨ Lock.proc p ∈ s.held lk c)) ∨
    ((∀ c, s.cur c ≠ some p) ∧ (s.proc p).state = .sleeping ∧ (s.proc p).chan = some ch) := by
  by_cases hrun : ∃ c, s.cur c = some p
  · obtain ⟨c, hcur⟩ := hrun
    refine .inl ⟨c, hcur, ?_⟩
    have hown := hs.own c p hcur
    rw [State.held, thread_of_cur hcur]
    revert h hown
    cases s.pc (.proc p) with
    | sleep ch' l =>
      cases l
      all_goals simp +contextual [Committed, OwnState, held, Thread.own]
    | _ => simp [Committed]
  · have hrun (c : κ) : s.cur c ≠ some p := fun hcur => hrun ⟨c, hcur⟩
    have hparked := hc.parked p hrun
    have hleft := hs.left p hrun
    refine .inr ⟨hrun, ?_⟩
    revert h hparked hleft
    cases s.pc (.proc p) with
    | sleep ch' l =>
      cases l
      all_goals simp +contextual [Committed, Pc.Parked, Left]
    | _ => simp [Committed]

lemma committed_of_sleeping (hc : Control lk s) (hs : States s)
    (hstate : (s.proc p).state = .sleeping) (hchan : (s.proc p).chan = some ch) :
    Committed (s.proc p) ch (s.pc (.proc p)) := by
  by_cases hrun : ∃ c, s.cur c = some p
  · obtain ⟨c, hcur⟩ := hrun
    have hown := hs.own c p hcur
    revert hown
    cases s.pc (.proc p) with
    | sleep ch' l => cases l <;> simp [Committed, OwnState, hstate, hchan, eq_comm]
    | yield l => cases l <;> simp [OwnState, hstate]
    | _ => simp [OwnState, hstate]
  · have hrun (c : κ) : s.cur c ≠ some p := fun hcur => hrun ⟨c, hcur⟩
    have hparked := hc.parked p hrun
    have hleft := hs.left p hrun
    revert hparked hleft
    cases s.pc (.proc p) with
    | sleep ch' l => cases l <;> simp [Committed, Pc.Parked, Left, hstate, hchan, eq_comm]
    | _ => simp [Pc.Parked, Left, hstate]

lemma Committed.holds {v : Proc Ch} (h : Committed v ch pc) :
    held lk (.proc p : Thread n κ) pc ≠ [] := by
  revert h
  cases pc with
  | sleep ch' l => cases l <;> simp [Committed, held, Thread.own]
  | _ => simp [Committed]

/-- Committed but not asleep: the process is still on its way. -/
lemma Committed.not_parked {v : Proc Ch} (h : Committed v ch pc) (hv : v.state ≠ .sleeping) :
    ¬ pc.Parked := by
  revert h
  cases pc with
  | sleep ch' l => cases l <;> simp [Committed, Pc.Parked, hv]
  | _ => simp [Committed]

theorem evaluated_init (used : Fin n → Bool) (pid : Fin n → ℤ) (cond : Ch → Bool) :
    Evaluated (init used pid cond : State n κ L Ch) :=
  fun _ _ h => h.elim

lemma sleeping_of_setState {i q : Fin n} {st : ProcState} (hst : st ≠ .sleeping)
    (h : ((s.setState i st).proc q).state = .sleeping) : (s.proc q).state = .sleeping := by
  by_cases hq : q = i
  · subst hq
    exact absurd (by simpa [State.setState, State.modifyProc] using h) hst
  · simpa [State.setState, State.modifyProc, hq] using h

variable [DecidableEq κ]

namespace Evaluated

/-- A step of thread `t` that sets no condition. It wakes nobody else up without turning
it to `RUNNABLE`, and a waker that leaves a process behind leaves none committed. -/
lemma move (h : Evaluated s) (pc : Pc n L Ch) (hpc : s'.pc = update s.pc t pc)
    (hunset : ∀ p ch, Unset s p ch → Unset s' p ch)
    (hother : ∀ q, t ≠ .proc q → (s'.proc q).state = .sleeping → (s.proc q).state = .sleeping)
    (hown : ∀ p ch, t = .proc p → Committed (s'.proc p) ch pc →
      Committed (s.proc p) ch (s.pc t) ∨ Unset s' p ch)
    (hwake : ∀ p ch, (s.pc t).WillWake p ch → Committed (s'.proc p) ch (s'.pc (.proc p)) →
      pc.WillWake p ch) : Evaluated s' := by
  intro p ch
  have hold := h p ch
  have hmono : ∀ pc : Pc n L Ch, ((s'.proc p).state = .sleeping → (s.proc p).state = .sleeping) →
      Committed (s'.proc p) ch pc → Committed (s.proc p) ch pc := by
    intro pc himp
    cases pc with
    | sleep ch' l => cases l <;> simp +contextual [Committed, himp]
    | _ => simp [Committed]
  simp only [hpc, update_apply] at hwake ⊢
  grind

/-- A step that neither wakes anybody nor leads towards sleep. -/
lemma goto (h : Evaluated s) (pc : Pc n L Ch) (hpc : s'.pc = update s.pc t pc)
    (hproc : ∀ q, (s'.proc q).state = .sleeping → (s.proc q).state = .sleeping)
    (hunset : ∀ p ch, Unset s p ch → Unset s' p ch)
    (hown : ∀ p ch, t = .proc p → ∀ v : Proc Ch, ¬ Committed v ch pc)
    (hwake : ∀ p ch, ¬ (s.pc t).WillWake p ch) : Evaluated s' :=
  h.move pc hpc hunset (fun q _ => hproc q) (fun p ch hp hcom => absurd hcom (hown p ch hp _))
    fun p ch hw => absurd hw (hwake p ch)

variable [DecidableEq L] [DecidableEq Ch]

omit [DecidableEq L] in
/-- The condition is evaluated with its lock held, so that its value is the current one. -/
lemma evaluate (h : Evaluated s) (hpc : s.pc (.proc p) = .loop ch) :
    Evaluated (evaluate lk s p ch) := by
  intro q ch'
  have hold := h q ch'
  simp only [SleepWakeup.evaluate, State.goto, Unset, update_apply] at hold ⊢
  grind [Committed, Pc.WillWake]

omit [DecidableEq L] in
/-- Whoever is committed when the condition is set is going to be woken. -/
lemma raise (h : Evaluated s) {l : L} (hpc : s.pc t = .inside l) :
    Evaluated ({ s with
      cond := update s.cond ch true
      since := fun p => update (s.since p) ch true }.goto t (.raised ch)) := by
  intro q ch'
  have hold := h q ch'
  simp only [State.goto, Unset, update_apply] at hold ⊢
  grind [Committed, Pc.WillWake]

omit [DecidableEq κ] [DecidableEq L] [DecidableEq Ch] in
/-- A waker that passes a process by without waking it has not found it committed: it
could not have had both locks. -/
lemma not_committed (hc : Control lk s) (hs : States s) {i : Fin n} {l : WakeAt}
    (hpc : s.pc (s.thread c) = .wakeupProc ch i l)
    (hfound : ¬ ((s.proc i).state = .sleeping ∧ (s.proc i).chan = some ch)) :
    ¬ Committed (s.proc i) ch (s.pc (.proc i)) := by
  intro hcom
  have hheld : s.held lk c = [.proc i, .cond (lk ch)] := by
    rw [State.held, hpc]
    rfl
  obtain ⟨d, hd, hlock⟩ | ⟨-, hstate, hchan⟩ := hcom.cases hc hs
  · have hdc : d = c := by
      obtain hlock | hlock := hlock
      · exact hc.exclusive hlock (by simp [hheld])
      · exact hc.exclusive hlock (by simp [hheld])
    rw [hdc] at hd
    rw [thread_of_cur hd] at hpc
    rw [hpc] at hcom
    exact hcom
  · exact hfound ⟨hstate, hchan⟩

omit [DecidableEq L] [DecidableEq Ch] in
/-- A process that the waker has just made `RUNNABLE` was switched out. -/
lemma not_committed_of_woken (hc : Control lk s) (hs : States s) {i : Fin n}
    (hpc : s.pc (s.thread c) = .wakeupProc ch i .setState) :
    ¬ Committed ((s.setState i .runnable).proc i) ch
      (update s.pc (s.thread c) (.wakeupProc ch i .release) (.proc i)) := by
  intro hcom
  have hne : .proc i ≠ s.thread c := by
    intro he
    rw [he, update_self] at hcom
    exact hcom
  rw [update_of_ne hne] at hcom
  obtain ⟨d, hd⟩ := hc.executed (hcom.not_parked (by simp [State.setState, State.modifyProc]))
  have hfound := hs.found c
  rw [hpc] at hfound
  refine hs.not_executed hc (c := c) ?_ (fun he => hne (thread_of_cur he).symm) ?_ d hd
  · rw [State.held, hpc]
    exact List.mem_cons_self ..
  · rw [show (s.proc i).state = .sleeping from hfound]
    simp

theorem step (h : Evaluated s) (hc : Control lk s) (hs : States s) (hstep : Step lk s c s') :
    Evaluated s' := by
  cases hstep with
  | evaluate hp hpc => exact h.evaluate hpc
  | raise hpc => exact h.raise hpc
  | @wakeupOther ch i hpc hfound =>
    have hnot := not_committed hc hs hpc hfound
    refine h.move _ rfl (fun _ _ => id) (fun _ _ => id) (fun _ _ _ hcom => hcom.elim) ?_
    simp only [State.goto, update_apply, hpc]
    grind [Committed, Pc.WillWake]
  | @wakeupSet ch i hpc =>
    refine h.move _ rfl (fun _ _ => id) (fun _ _ => sleeping_of_setState (by simp))
      (fun _ _ _ hcom => hcom.elim) fun q ch' hw hcom => ?_
    rw [hpc] at hw
    obtain ⟨rfl, hlt | ⟨rfl, -⟩⟩ := hw
    · exact ⟨rfl, .inl hlt⟩
    · exact absurd hcom (not_committed_of_woken hc hs hpc)
  | interrupt hn =>
    refine h.goto _ rfl (fun _ => id) (fun _ _ => id) (fun _ _ _ _ hcom => hcom) fun p ch hw => ?_
    have hheld : Lock.cond (lk ch) ∈ s.held lk c := hw.waking.holds
    rw [hc.held_nil hn] at hheld
    cases hheld
  | @iret pc fs hpc hsaved =>
    refine h.goto _ rfl (fun _ => id) (fun _ _ => id) (fun p ch hp v hcom => ?_)
      fun _ _ hw => by rw [hpc] at hw; exact hw
    have hempty : held lk (.proc p : Thread n κ) pc = [] := by
      refine hc.saved _ pc ?_
      rw [← hp, hsaved]
      exact List.mem_cons_self ..
    exact hcom.holds hempty
  | clear hpc =>
    refine h.move _ (update_eq_self (s.thread c) _).symm (fun p ch hunset => ⟨hunset.1, ?_⟩)
      (fun _ _ => id) (fun _ _ _ hcom => .inl hcom) fun _ _ hw _ => hw
    simp only [update_apply]
    split_ifs
    · rfl
    · exact hunset.2
  | _ =>
    refine h.move _ rfl (fun _ _ => id) ?_ ?_ ?_
    all_goals simp only [State.goto, State.setCur, State.setState, State.setChan, State.modifyProc,
      update_apply]
    all_goals grind [Committed, Pc.WillWake, thread_of_cur]

end Evaluated

variable [DecidableEq L] [DecidableEq Ch]

/-- What holds in every state of every run. -/
theorem invariants_of_exec {used : Fin n → Bool} {pid : Fin n → ℤ} {cond : Ch → Bool}
    {run : List (κ × Act L Ch)} (h : Runs.exec (step lk) (init used pid cond) run = some s) :
    Control lk s ∧ States s ∧ Evaluated s := by
  refine Runs.invariant (I := fun s => Control lk s ∧ States s ∧ Evaluated s) ?_
    ⟨control_init used pid cond, states_init used pid cond, evaluated_init used pid cond⟩ h
  rintro s a s' ⟨hc, hs, he⟩ ha
  have hstep := step_of_step ha
  exact ⟨hc.step hs hstep, hs.step hc hstep, he.step hc hs hstep⟩

/-- No wakeup is lost. In every run, whenever the lock of a channel is free, or no waker is
between setting the condition and the end of `wakeup`, a process that is `SLEEPING` on the
channel found the condition false when it last evaluated it, and it has not been set since. -/
theorem no_lost_wakeup (lk : Ch → L) (used : Fin n → Bool) (pid : Fin n → ℤ) (cond : Ch → Bool)
    (run : List (κ × Act L Ch)) (s : State n κ L Ch)
    (h : Runs.exec (step lk) (init used pid cond) run = some s) (ch : Ch)
    (hquiet : s.locks.holder (.cond (lk ch)) = none ∨ ∀ t, ¬ (s.pc t).Waking ch) (p : Fin n)
    (hstate : (s.proc p).state = .sleeping) (hchan : (s.proc p).chan = some ch) :
    s.since p ch = false ∧ s.cond ch = false := by
  obtain ⟨hc, hs, he⟩ := invariants_of_exec h
  obtain hunset | ⟨t, ht⟩ := he p ch (committed_of_sleeping hc hs hstate hchan)
  · exact hunset
  · obtain hfree | hnone := hquiet
    · obtain ⟨c, rfl⟩ := ht.waking.executed hc
      have hheld : Lock.cond (lk ch) ∈ s.held lk c := ht.waking.holds
      rw [← hc.accounts.holder, hfree] at hheld
      cases hheld
    · exact absurd ht.waking (hnone t)

/-- On processor 0 a process waits; on processor 1 another sets the condition and wakes it;
the first clears the condition and waits again. -/
def sleepTwiceRun : List (Fin 2 × Act Unit Unit) :=
  let sleeper (k : ℕ) : List (Fin 2 × Act Unit Unit) := List.replicate k (0, .run)
  let waker (k : ℕ) : List (Fin 2 × Act Unit Unit) := List.replicate k (1, .run)
  List.flatten [sleeper 6, [(0, .acquire ()), (0, .wait ())], sleeper 7,
    waker 9, [(1, .acquire ()), (1, .raise ())], waker 7, [(1, .release)],
    sleeper 13, [(0, .clear ()), (0, .wait ())], sleeper 7]

theorem no_lost_wakeup_twice :
    ∃ s : State 2 (Fin 2) Unit Unit, Runs.exec (step fun _ => ())
        (init (fun _ => true) (fun p => p.val + 1) fun _ => false) sleepTwiceRun = some s ∧
      s.locks.holder (.cond ()) = none ∧ (s.proc 0).state = .sleeping ∧
      s.since 0 () = false ∧ s.cond () = false := by
  have h : (Runs.exec (step (n := 2) (κ := Fin 2) fun _ => ())
      (init (fun _ => true) (fun p => p.val + 1) fun _ => false) sleepTwiceRun).map
        (fun s => (s.locks.holder (.cond ()), (s.proc 0).state, (s.proc 0).chan)) =
      some (none, .sleeping, some ()) := by decide +kernel
  obtain ⟨s, hs, he⟩ := Option.map_eq_some_iff.mp h
  simp only [Prod.mk.injEq] at he
  obtain ⟨hfree, hstate, hchan⟩ := he
  exact ⟨s, hs, hfree, hstate,
    no_lost_wakeup _ _ _ _ _ s hs () (.inl hfree) 0 hstate hchan⟩

end Xv6.SleepWakeup
