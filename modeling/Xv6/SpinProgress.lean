import Xv6.LostWakeup

/-!
# Spin locks do not stop the machine

A processor that cannot go on waits for a lock that another one holds: the checks of `acquire`,
`release` and `sched` do not fail. A condition lock is taken with no lock held and a `p->lock`
with at most a condition lock held, so that who waits for whom never goes around.
-/
namespace Xv6.SleepWakeup

open Function Spinlocks

variable {n : ℕ} {κ L Ch : Type*}

/-- Code that only processes execute. -/
def Pc.ofProcess : Pc n L Ch → Bool
  | .loop _ | .sleep _ _ | .yield _ | .forkret => true
  | _ => false

/-- A scheduler executes no such code, nor do its interrupts. -/
def Idle (s : State n κ L Ch) : Prop :=
  ∀ c, ∀ f ∈ s.pc (.sched c) :: s.saved (.sched c), f.ofProcess = false

/-- The lock that the next statement of a processor acquires. -/
def wants (lk : Ch → L) (s : State n κ L Ch) (c : κ) : Option (Lock n L) :=
  match s.pc (s.thread c), s.cur c with
  | .sleep _ .acquire, some p | .yield .acquire, some p => some (.proc p)
  | .sleep ch .acquireLk, _ => some (.cond (lk ch))
  | .wakeup _ i, cur =>
    if h : i < n then if cur = some ⟨i, h⟩ then none else some (.proc ⟨i, h⟩) else none
  | .kill _ i, _ | .scheduler i, _ => if h : i < n then some (.proc ⟨i, h⟩) else none
  | _, _ => none

/-- Processor `c` spins on a lock of processor `d`. -/
def WaitsFor (lk : Ch → L) (s : State n κ L Ch) (c d : κ) : Prop :=
  ∃ l, wants lk s c = some l ∧ s.locks.holder l = some d

variable {lk : Ch → L} {s s' : State n κ L Ch} {c d : κ} {l m : Lock n L} {pc : Pc n L Ch}
  {t : Thread n κ}

/-- The order of the locks. -/
lemma order_of_wants (hw : wants lk s c = some l) (hm : m ∈ s.held lk c) :
    (∃ i, l = .proc i) ∧ ∃ k, m = .cond k := by
  unfold wants at hw
  unfold State.held at hm
  split at hw
  all_goals simp_all [held]
  all_goals grind

variable [DecidableEq κ]

lemma Idle.goto (h : Idle s) (hpc : s'.pc = update s.pc t pc) (hsaved : s'.saved = s.saved)
    (ht : ∀ c, t = .sched c → pc.ofProcess = false) : Idle s' := by
  intro c f hf
  rw [hpc, hsaved, List.mem_cons, update_apply] at hf
  split_ifs at hf with hc
  · obtain rfl | hf := hf
    · exact ht c hc.symm
    · exact h c f (List.mem_cons_of_mem _ hf)
  · exact h c f (List.mem_cons.mpr hf)

variable [DecidableEq L] [DecidableEq Ch]

lemma Idle.step (h : Idle s) (hs : Step lk s c s') : Idle s' := by
  cases hs with
  | interrupt _ | iret _ _ =>
    intro d f hf
    have hd := h d
    simp only [update_apply] at hf
    split_ifs at hf with hc
    · rw [hc] at hd
      simp_all [Pc.ofProcess]
      try grind
    · exact h d f hf
  | killRelease pc _ _ hpc => obtain rfl | rfl := hpc <;> exact h.goto rfl rfl fun _ _ => rfl
  | schedulerPass pc hpc =>
    obtain ⟨-, rfl⟩ | ⟨i, -, rfl⟩ := hpc <;> exact h.goto rfl rfl fun _ _ => rfl
  | wait hc _ | yield hc _ =>
    refine h.goto rfl rfl fun d hd => ?_
    rw [thread_of_cur hc] at hd
    cases hd
  | clear _ => exact h
  | _ => exact h.goto rfl rfl (by first | rintro _ ⟨⟩ | exact fun _ _ => rfl)

omit [DecidableEq Ch] in
lemma acquire_next (hw : wants lk s c = some l) :
    (acquire s c l pc).isSome ∨ ∃ d, WaitsFor lk s c d := by
  cases hl : s.locks.holder l with
  | none => exact Or.inl (by simp [acquire, Table.acquire, hl])
  | some d => exact Or.inr ⟨d, l, hw, hl⟩

omit [DecidableEq Ch] in
lemma release_next (hc : Control lk s) (hl : l ∈ s.held lk c) : (release s c l pc).isSome := by
  simpa [release] using hc.accounts.release_isSome hl

omit [DecidableEq L] [DecidableEq Ch] in
lemma sched_next {p : Fin n} (hc : Control lk s) (hheld : s.held lk c = [.proc p])
    (hstate : (s.proc p).state ≠ .running) : (sched s c p pc).isSome := by
  have hholder := (hc.accounts.holder (.proc p) c).mpr (by simp [hheld])
  simp [sched, hholder, hc.accounts.noff, hheld, hstate]

/-- The code of a process. -/
lemma process_next {p : Fin n} (hc : Control lk s) (hs : States s) (hp : s.cur c = some p)
    (hpc : (s.pc (s.thread c)).ofProcess = true) :
    (statement lk s c).isSome ∨ ∃ d, WaitsFor lk s c d := by
  have hown := hs.own c p hp
  have hheld : s.held lk c = held lk (.proc p : Thread n κ) (s.pc (s.thread c)) := by
    rw [← thread_of_cur hp]
    rfl
  rw [← thread_of_cur hp] at hown
  unfold statement
  cases hl : s.pc (s.thread c)
  all_goals
    simp only [hl, hp, OwnState, held, Thread.own, Pc.ofProcess, Bool.false_eq_true] at hpc hown hheld ⊢
  case loop ch => exact Or.inl rfl
  case forkret => exact Or.inl (release_next hc (by simp [hheld]))
  case sleep ch l | yield l =>
    cases l
    all_goals first
      | exact Or.inl rfl
      | exact acquire_next (by simp [wants, hl, hp])
      | exact Or.inl (release_next hc (by simp [hheld]))
      | exact Or.inl (sched_next hc hheld (by simp [hown]))

/-- A processor goes on, or waits, where the code is fixed. -/
lemma next (hc : Control lk s) (hs : States s) (hi : Idle s) (c : κ)
    (hout : s.pc (s.thread c) ≠ .out) (hinside : ∀ l, s.pc (s.thread c) ≠ .inside l) :
    (statement lk s c).isSome ∨ ∃ d, WaitsFor lk s c d := by
  by_cases hof : (s.pc (s.thread c)).ofProcess = true
  · cases hp : s.cur c with
    | some p => exact process_next hc hs hp hof
    | none =>
      rw [thread_of_idle hp, hi c _ (List.mem_cons_self ..)] at hof
      cases hof
  unfold statement
  cases hl : s.pc (s.thread c)
  case out => exact absurd hl hout
  case inside l => exact absurd hl (hinside l)
  case loop | forkret | sleep | yield => simp [hl, Pc.ofProcess] at hof
  case raised | schedulerStart => exact Or.inl rfl
  case wakeup ch i =>
    simp only [wakeup]
    split_ifs
    · exact Or.inl rfl
    · exact acquire_next (by simp_all [wants])
    · exact Or.inl rfl
  case kill | scheduler =>
    simp only [kkill]
    split_ifs
    · exact acquire_next (by simp_all [wants])
    · exact Or.inl rfl
  case wakeupProc ch i l | killProc pid i l | schedulerProc i l =>
    have hheld : .proc i ∈ s.held lk c := by simp [State.held, hl, held]
    cases l <;> first | exact Or.inl rfl | exact Or.inl (release_next hc hheld)

/-- In every run a processor executes the next statement of its code, unless it spins on a lock
that another one holds. A chain of processors that spin on each other's locks has at most two
links, so one of them goes on. -/
theorem spinlocks_go_on {used : Fin n → Bool} {pid : Fin n → ℤ} {cond : Ch → Bool}
    {run : List (κ × Act L Ch)} (h : Runs.exec (step lk) (init used pid cond) run = some s) :
    (∀ c, s.pc (s.thread c) ≠ .out → (∀ l, s.pc (s.thread c) ≠ .inside l) →
      (statement lk s c).isSome ∨ ∃ d, d ≠ c ∧ WaitsFor lk s c d) ∧
    ∀ c₁ c₂ c₃ c₄, WaitsFor lk s c₁ c₂ → WaitsFor lk s c₂ c₃ → ¬ WaitsFor lk s c₃ c₄ := by
  obtain ⟨hc, hs, -⟩ := invariants_of_exec h
  have hi : Idle s := Runs.invariant (fun _ _ _ hI ha => Idle.step hI (step_of_step ha))
    (fun _ _ hf => by cases hf with | head => rfl | tail _ hf => cases hf) h
  refine ⟨fun c hout hinside => ?_, ?_⟩
  · obtain hn | ⟨d, l, hl, hd⟩ := next hc hs hi c hout hinside
    · exact Or.inl hn
    · refine Or.inr ⟨d, ?_, l, hl, hd⟩
      rintro rfl
      obtain ⟨⟨i, rfl⟩, k, hk⟩ := order_of_wants hl ((hc.accounts.holder ..).mp hd)
      cases hk
  · rintro c₁ c₂ c₃ c₄ ⟨l₁, -, h₁⟩ ⟨l₂, hw₂, h₂⟩ ⟨l₃, hw₃, -⟩
    obtain ⟨⟨i, rfl⟩, -⟩ := order_of_wants hw₂ ((hc.accounts.holder ..).mp h₁)
    obtain ⟨-, k, hk⟩ := order_of_wants hw₃ ((hc.accounts.holder ..).mp h₂)
    cases hk

theorem spinlocks_go_on_twice :
    ∃ s : State 2 (Fin 2) Unit Unit, Runs.exec (step fun _ => ())
        (init (fun _ => true) (fun p => p.val + 1) fun _ => false) sleepTwiceRun = some s ∧
      ¬ (WaitsFor (fun _ => ()) s 0 1 ∧ WaitsFor (fun _ => ()) s 1 0) := by
  have h : (Runs.exec (step (n := 2) (κ := Fin 2) fun _ => ())
      (init (fun _ => true) (fun p => p.val + 1) fun _ => false) sleepTwiceRun).isSome := by
    decide +kernel
  obtain ⟨s, hs⟩ := Option.isSome_iff_exists.mp h
  exact ⟨s, hs, fun ⟨h₁, h₂⟩ => (spinlocks_go_on hs).2 0 1 0 1 h₁ h₂ h₁⟩

end Xv6.SleepWakeup
