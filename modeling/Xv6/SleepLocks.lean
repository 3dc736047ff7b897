import Xv6.SleepSteps

/-!
# Locks and the threads that processors execute

Which processor executes which thread, and that the table of locks records what the
executed threads hold. A process that no processor executes is inside `sched`, or has
not run yet: its lock stays with the processor that it leaves, and is held again by the
one that continues it.
-/
namespace Xv6.SleepWakeup

open Function Spinlocks

variable {n : ℕ} {κ L Ch : Type*}

/-- Where a process continues when `sched` returns, or starts. -/
def Pc.Parked : Pc n L Ch → Prop
  | .sleep _ .tidy | .yield .release | .forkret => True
  | _ => False

def Pc.Scheduling : Pc n L Ch → Prop
  | .schedulerStart | .scheduler _ | .schedulerProc _ _ => True
  | _ => False

/-- Who executes what. The last field concerns a process that the scheduler is about to
continue. -/
structure Control (lk : Ch → L) (s : State n κ L Ch) : Prop where
  accounts : Accounts s.locks (s.held lk)
  cur_inj : ∀ c c' p, s.cur c = some p → s.cur c' = some p → c = c'
  switched : ∀ c p, s.cur c = some p → s.pc (.sched c) = .schedulerProc p .release
  parked : ∀ p, (∀ c, s.cur c ≠ some p) → (s.pc (.proc p)).Parked
  saved : ∀ t, ∀ f ∈ s.saved t, held lk t f = []
  process : ∀ p, ¬ (s.pc (.proc p)).Scheduling ∧ ∀ f ∈ s.saved (.proc p), ¬ f.Scheduling
  claimed : ∀ c i, s.pc (.sched c) = .schedulerProc i .swtch → ∀ c', s.cur c' ≠ some i

variable {lk : Ch → L} {s s' : State n κ L Ch} {c c' : κ} {p : Fin n} {t : Thread n κ}

theorem control_init (used : Fin n → Bool) (pid : Fin n → ℤ) (cond : Ch → Bool) :
    Control lk (init used pid cond : State n κ L Ch) where
  accounts := Accounts.free
  cur_inj := fun _ _ _ h => (by cases h)
  switched := fun _ _ h => (by cases h)
  parked := fun _ _ => trivial
  saved := fun _ _ hf => (by cases hf)
  process := fun _ => ⟨id, fun _ hf => (by cases hf)⟩
  claimed := fun _ _ h => (by cases h)

namespace Control

lemma thread_inj (h : Control lk s) (ht : s.thread c = s.thread c') : c = c' := by
  cases hc : s.thread c' with
  | proc p =>
    rw [hc] at ht
    exact h.cur_inj c c' p (cur_of_thread ht) (cur_of_thread hc)
  | sched d =>
    rw [hc] at ht
    exact (idle_of_thread ht).2.symm.trans (idle_of_thread hc).2

lemma executed (h : Control lk s) (hp : ¬ (s.pc (.proc p)).Parked) : ∃ c, s.cur c = some p := by
  by_contra hno
  exact hp (h.parked p fun c hc => hno ⟨c, hc⟩)

lemma exclusive (h : Control lk s) {l : Lock n L} (hc : l ∈ s.held lk c)
    (hc' : l ∈ s.held lk c') : c = c' :=
  h.accounts.exclusive hc hc'

/-- Code of the scheduler runs on a processor without a process. -/
lemma idle_of_scheduling (h : Control lk s) (hpc : (s.pc (s.thread c)).Scheduling) :
    s.cur c = none := by
  cases hc : s.cur c with
  | none => rfl
  | some p =>
    rw [thread_of_cur hc] at hpc
    exact absurd hpc (h.process p).1

section Moves

attribute [local grind =] State.thread Pc.Parked Pc.Scheduling

variable [DecidableEq κ]

lemma held_of_goto (h : Control lk s) {pc : Pc n L Ch} (ht : s.thread c = t)
    (hcur : s'.cur = s.cur) (hpc : s'.pc = update s.pc t pc) :
    s'.held lk c' = if c' = c then SleepWakeup.held lk t pc else s.held lk c' := by
  subst ht
  have ht : s'.thread c' = s.thread c' := by simp only [State.thread, hcur]
  rw [State.held, ht, hpc]
  split_ifs with hc
  · subst hc
    rw [update_self]
  · rw [update_of_ne fun he => hc (h.thread_inj he)]
    rfl

/-- A step within a thread. Only the scheduler enters its own code, and claims a process
that no processor executes. -/
lemma move (h : Control lk s) (pc : Pc n L Ch) (ht : s.thread c = t) (hcur : s'.cur = s.cur)
    (hpc : s'.pc = update s.pc t pc)
    (haccounts : (∀ d, s'.held lk d = if d = c then held lk t pc else s.held lk d) →
      Accounts s'.locks (s'.held lk))
    (hsaved : ∀ u, ∀ f ∈ s'.saved u, f ∈ s.saved u ∨ (f = s.pc u ∧ held lk u f = []))
    (hsched : pc.Scheduling →
      s.cur c = none ∧ ∀ i, pc = .schedulerProc i .swtch → ∀ c', s.cur c' ≠ some i) :
    Control lk s' := by
  have haccounts := haccounts fun d => h.held_of_goto ht hcur hpc
  obtain ⟨_, hinj, hswitched, hparked, hsave, hprocess, hclaimed⟩ := h
  constructor
  case accounts => exact haccounts
  case saved => grind
  all_goals simp only [hcur, hpc, update_apply]
  all_goals grind

/-- A step within a thread that takes and gives back no lock. -/
lemma stay (h : Control lk s) (pc : Pc n L Ch) (ht : s.thread c = t) (hlocks : s'.locks = s.locks)
    (hcur : s'.cur = s.cur) (hpc : s'.pc = update s.pc t pc)
    (hheld : held lk t pc = held lk t (s.pc t))
    (hsaved : ∀ u, ∀ f ∈ s'.saved u, f ∈ s.saved u ∨ (f = s.pc u ∧ held lk u f = []))
    (hsched : pc.Scheduling →
      s.cur c = none ∧ ∀ i, pc = .schedulerProc i .swtch → ∀ c', s.cur c' ≠ some i) :
    Control lk s' := by
  refine h.move pc ht hcur hpc (fun hgoto => ?_) hsaved hsched
  rw [hlocks]
  refine h.accounts.congr fun d => ?_
  rw [hgoto]
  split_ifs with hd
  · rw [hheld, hd, ← ht]
    rfl
  · rfl

/-- A statement that takes and gives back no lock. -/
lemma goto (h : Control lk s) (pc : Pc n L Ch) (ht : s.thread c = t)
    (hs' : s'.locks = s.locks ∧ s'.cur = s.cur ∧ s'.saved = s.saved ∧ s'.pc = update s.pc t pc)
    (hheld : held lk t pc = held lk t (s.pc t))
    (hsched : pc.Scheduling →
      s.cur c = none ∧ ∀ i, pc = .schedulerProc i .swtch → ∀ c', s.cur c' ≠ some i) :
    Control lk s' := by
  obtain ⟨hlocks, hcur, hsaved, hpc⟩ := hs'
  exact h.stay pc ht hlocks hcur hpc hheld (fun u f hf => .inl (by rwa [hsaved] at hf)) hsched

omit [DecidableEq κ] in
lemma held_nil (h : Control lk s) (hn : s.locks.noff c = 0) : s.held lk c = [] :=
  List.length_eq_zero_iff.mp ((h.accounts.noff c).symm.trans hn)

/-- An interrupt is taken where no lock is held. -/
lemma interrupt (h : Control lk s) (hn : s.locks.noff c = 0) :
    Control lk { s with
      pc := update s.pc (s.thread c) .out
      saved := update s.saved (s.thread c) (s.pc (s.thread c) :: s.saved (s.thread c)) } := by
  have hnil := h.held_nil hn
  refine h.stay .out rfl rfl rfl rfl hnil.symm (fun u f hf => ?_) False.elim
  change f ∈ update s.saved (s.thread c) (s.pc (s.thread c) :: s.saved (s.thread c)) u at hf
  by_cases hu : u = s.thread c
  · subst hu
    rw [update_self] at hf
    obtain rfl | hf := List.mem_cons.mp hf
    · exact .inr ⟨rfl, hnil⟩
    · exact .inl hf
  · rw [update_of_ne hu] at hf
    exact .inl hf

lemma iret (h : Control lk s) {pc : Pc n L Ch} {fs : List (Pc n L Ch)}
    (hpc : s.pc (s.thread c) = .out) (hsaved : s.saved (s.thread c) = pc :: fs) :
    Control lk { s with
      pc := update s.pc (s.thread c) pc, saved := update s.saved (s.thread c) fs } := by
  have hmem : pc ∈ s.saved (s.thread c) := by
    rw [hsaved]
    exact List.mem_cons_self ..
  have hnil := h.saved _ pc hmem
  refine h.stay pc rfl rfl rfl rfl (by rw [hpc, hnil]; rfl) (fun u f hf => ?_)
    fun hsched => ⟨?_, fun i hi => ?_⟩
  · change f ∈ update s.saved (s.thread c) fs u at hf
    by_cases hu : u = s.thread c
    · subst hu
      rw [update_self] at hf
      rw [hsaved]
      exact .inl (List.mem_cons_of_mem _ hf)
    · rw [update_of_ne hu] at hf
      exact .inl hf
  · cases hc : s.cur c with
    | none => rfl
    | some q =>
      rw [thread_of_cur hc] at hmem
      exact absurd hsched ((h.process q).2 pc hmem)
  · rw [hi] at hnil
    cases hnil

variable [DecidableEq L]

lemma acquire (h : Control lk s) {l : Lock n L} {T : Table (Lock n L) κ} (pc : Pc n L Ch)
    (ht : s.thread c = t) (hT : s.locks.acquire c l = some T)
    (hheld : held lk t pc = l :: held lk t (s.pc t))
    (hsched : pc.Scheduling → s.cur c = none ∧ ∀ i, pc ≠ .schedulerProc i .swtch) :
    Control lk ({ s with locks := T }.goto t pc) := by
  refine h.move pc ht rfl rfl (fun hgoto => ?_) (fun u f hf => .inl hf)
    fun hs => ⟨(hsched hs).1, fun i hi => absurd hi ((hsched hs).2 i)⟩
  refine h.accounts.acquire hT ?_ fun d hd => ?_
  · rw [hgoto, if_pos rfl, hheld, ← ht]
    rfl
  · rw [hgoto, if_neg hd]

lemma release (h : Control lk s) {l : Lock n L} {T : Table (Lock n L) κ} (pc : Pc n L Ch)
    (ht : s.thread c = t) (hT : s.locks.release c l = some T)
    (hheld : ∀ m, m ∈ held lk t pc ↔ m ∈ held lk t (s.pc t) ∧ m ≠ l)
    (hlength : (held lk t (s.pc t)).length = (held lk t pc).length + 1)
    (hsched : pc.Scheduling → s.cur c = none ∧ ∀ i, pc ≠ .schedulerProc i .swtch) :
    Control lk ({ s with locks := T }.goto t pc) := by
  refine h.move pc ht rfl rfl (fun hgoto => ?_) (fun u f hf => .inl hf)
    fun hs => ⟨(hsched hs).1, fun i hi => absurd hi ((hsched hs).2 i)⟩
  have hself : s.held lk c = held lk t (s.pc t) := by rw [← ht]; rfl
  refine h.accounts.release hT (fun m => ?_) ?_ fun d hd => ?_
  · rw [hgoto, if_pos rfl, hself]
    exact hheld m
  · rw [hgoto, if_pos rfl, hself]
    exact hlength
  · rw [hgoto, if_neg hd]

omit [DecidableEq L] in
/-- `sched`: the scheduler holds what the process held, its lock. -/
lemma leave (h : Control lk s) (pc : Pc n L Ch) (hc : s.cur c = some p)
    (hheld : held lk (.proc p : Thread n κ) (s.pc (.proc p)) = [.proc p]) (hpark : pc.Parked)
    (hprocess : ¬ pc.Scheduling) :
    Control lk ((s.goto (.proc p) pc).setCur c none) := by
  have haccounts : Accounts s.locks (State.held lk ((s.goto (.proc p) pc).setCur c none)) := by
    refine h.accounts.congr fun d => ?_
    by_cases hd : d = c
    · subst hd
      have hself : s.held lk d = [.proc p] := by rw [State.held, thread_of_cur hc, hheld]
      rw [hself]
      simp [State.held, State.thread, h.switched d p hc, SleepWakeup.held]
    · have hne : s.thread d ≠ .proc p := fun he => hd (h.cur_inj d c p (cur_of_thread he) hc)
      have ht : State.thread ((s.goto (.proc p) pc).setCur c none) d =
          s.thread d := by
        simp [State.thread, hd]
      rw [State.held, ht]
      simp [State.held, hne]
  obtain ⟨_, hinj, hswitched, hparked, hsave, hproc, hclaimed⟩ := h
  constructor
  case accounts => exact haccounts
  all_goals simp only [State.setCur, State.goto, update_apply]
  all_goals grind

omit [DecidableEq L] in
/-- `swtch` in the scheduler: the process continues with the lock that the scheduler took. -/
lemma enter (h : Control lk s) (hpc : s.pc (s.thread c) = .schedulerProc p .swtch) :
    Control lk ((s.goto (s.thread c) (.schedulerProc p .release)).setCur c (some p)) := by
  have hidle : s.cur c = none := h.idle_of_scheduling (by rw [hpc]; trivial)
  rw [thread_of_idle hidle] at hpc ⊢
  have hfree := h.claimed c p hpc
  have hparked := h.parked p hfree
  have howned : held lk (.proc p : Thread n κ) (s.pc (.proc p)) = [.proc p] := by
    revert hparked
    cases s.pc (.proc p) with
    | sleep ch l | yield l => cases l <;> simp [Pc.Parked, held, Thread.own]
    | _ => simp [Pc.Parked, held, Thread.own]
  have haccounts : Accounts s.locks
      (State.held lk ((s.goto (.sched c) (.schedulerProc p .release)).setCur c (some p))) := by
    refine h.accounts.congr fun d => ?_
    by_cases hd : d = c
    · subst hd
      have hself : s.held lk d = [.proc p] := by
        rw [State.held, thread_of_idle hidle, hpc]
        rfl
      rw [hself, ← howned]
      simp [State.held, State.thread]
    · have ht : State.thread ((s.goto (.sched c) (.schedulerProc p .release)).setCur c (some p)) d = s.thread d := by
        simp [State.thread, hd]
      have hne : s.thread d ≠ .sched c := fun he => hd (idle_of_thread he).2.symm
      rw [State.held, ht]
      simp [State.held, hne]
  -- two schedulers do not hold the lock of one process
  have hone : ∀ d, s.pc (.sched d) = .schedulerProc p .swtch → d = c := by
    intro d hd
    have hdidle : s.cur d = none := by
      cases hdc : s.cur d with
      | none => rfl
      | some q =>
        rw [h.switched d q hdc] at hd
        cases hd
    refine h.exclusive (l := .proc p) ?_ ?_
    · rw [State.held, thread_of_idle hdidle, hd]
      exact List.mem_singleton_self _
    · rw [State.held, thread_of_idle hidle, hpc]
      exact List.mem_singleton_self _
  obtain ⟨_, hinj, hswitched, hparked, hsave, hproc, hclaimed⟩ := h
  constructor
  case accounts => exact haccounts
  all_goals simp only [State.setCur, State.goto, update_apply]
  all_goals grind

end Moves

end Control

end Xv6.SleepWakeup
