import Xv6.ProcKill
import Xv6.ProcWait

/-!
# Process ids

`allocpid` hands out the values of a 32-bit counter and does not look at the table. As
long as the counter is positive when a number is taken, the ids of the processes in the
table are positive and distinct. After the largest `int` it goes on with the smallest.
-/
namespace Xv6.ProcTable

open Function

variable {s s' : State} {p q : Slot}

/-- A process that looks for a slot in `kfork` does so while the counter is positive. -/
def CounterPositive (s : State) (a : Slot × Act) : Prop :=
  match s.pc a.1 with
  | .forkScan _ => 0 < s.nextpid
  | _ => True

instance decidableCounterPositive (s : State) (a : Slot × Act) : Decidable (CounterPositive s a) := by
  unfold CounterPositive
  split <;> infer_instance

/-- The processes ever started have the numbers from 1 on, and they fit in an `int`. -/
structure Counted (s : State) : Prop where
  nextpid : s.nextpid = Int32.ofNat (s.hist.births.length + 1)
  births : ∀ i b, s.hist.births[i]? = some b → b.pid = Int32.ofNat (i + 1)
  few : s.hist.births.length < 2 ^ 31

/-- The ids of the processes in the table are positive and distinct. -/
def PidsDistinct (s : State) : Prop :=
  (∀ p, (s.proc p).state ≠ .unused → 0 < (s.proc p).pid) ∧
    ∀ p q, (s.proc p).state ≠ .unused → (s.proc q).state ≠ .unused →
      (s.proc p).pid = (s.proc q).pid → p = q

namespace Counted

lemma frame (h : Counted s) (hnext : s'.nextpid = s.nextpid)
    (hbirths : s'.hist.births = s.hist.births) : Counted s' := by
  refine ⟨?_, ?_, ?_⟩
  · rw [hnext, hbirths]
    exact h.nextpid
  · rw [hbirths]
    exact h.births
  · rw [hbirths]
    exact h.few

lemma alloc {b : Birth} (h : Counted s) (hpos : 0 < s.nextpid) (hb : b.pid = s.nextpid)
    (hnext : s'.nextpid = s.nextpid + 1) (hbirths : s'.hist.births = s.hist.births ++ [b]) :
    Counted s' := by
  refine ⟨?_, ?_, ?_⟩
  · rw [hnext, hbirths, h.nextpid, List.length_append, List.length_singleton]
    exact (Int32.ofNat_add _ _).symm
  · intro i c hi
    rw [hbirths] at hi
    by_cases hlt : i < s.hist.births.length
    · rw [List.getElem?_append_left hlt] at hi
      exact h.births i c hi
    · rw [List.getElem?_append_right (not_lt.mp hlt), List.getElem?_singleton] at hi
      split_ifs at hi with h0
      obtain rfl := Option.some.inj hi
      have hlen : i = s.hist.births.length := by omega
      rw [hb, h.nextpid, hlen]
  · rw [hbirths, List.length_append, List.length_singleton]
    by_contra hge
    have hlen : s.hist.births.length + 1 = 2 ^ 31 := by
      have := h.few
      omega
    rw [h.nextpid, hlen] at hpos
    exact absurd hpos (by decide)

theorem step {a : Slot × Act} (h : Counted s) (hc : CounterPositive s a)
    (hs : ProcTable.step s a = some s') : Counted s' := by
  have hpos : ∀ i, s.pc a.1 = .forkScan i → 0 < s.nextpid := by
    intro i hi
    unfold CounterPositive at hc
    rwa [hi] at hc
  cases section_of_step hs with
  | forkFound np hr hpc hfree | forkFailed np hr hpc hfree =>
    exact h.alloc (b := { pid := s.nextpid, forker := some (s.born a.1) }) (hpos _ hpc) rfl rfl rfl
  | killHit pid q hr hpc hpid =>
    apply h.frame <;> unfold killScan <;> rw [if_pos hpid] <;> dsimp only <;> split_ifs <;> rfl
  | _ => exact h.frame rfl rfl

end Counted

theorem counted_userinit : Counted userinit where
  nextpid := rfl
  births i b hi := by
    obtain ⟨hlt, rfl⟩ := List.getElem?_eq_some_iff.mp hi
    obtain rfl : i = 0 := Nat.lt_one_iff.mp hlt
    rfl
  few := by decide

lemma ofNat_inj_of_lt {i j : ℕ} (hi : i < 2 ^ 31) (hj : j < 2 ^ 31)
    (h : Int32.ofNat i = Int32.ofNat j) : i = j := by
  have hint := congrArg Int32.toInt h
  rw [Int32.toInt_ofNat_of_lt hi, Int32.toInt_ofNat_of_lt hj] at hint
  exact Int.ofNat_inj.mp hint

lemma Counted.pidsDistinct (h : Counted s) (hl : Lineage s) : PidsDistinct s := by
  have hpid : ∀ p, (s.proc p).state ≠ .unused → (s.proc p).pid = Int32.ofNat (s.born p + 1) := by
    intro p hp
    obtain ⟨b, hb, hpid⟩ := hl.number p hp
    rw [← hpid, h.births _ b hb]
  have hlt : ∀ p, (s.proc p).state ≠ .unused → s.born p + 1 < 2 ^ 31 := by
    intro p hp
    have hborn := hl.born_lt hp
    have hfew := h.few
    omega
  constructor
  · intro p hp
    rw [hpid p hp]
    exact ofNat_pos (hlt p hp)
  · intro p q hp hq heq
    rw [hpid p hp, hpid q hq] at heq
    have hnum := ofNat_inj_of_lt (hlt p hp) (hlt q hq) heq
    exact hl.inj p q hp hq (by omega)

/-- In every run in which numbers are taken while the counter is positive, the processes in
the table have positive and distinct ids. -/
theorem pids_distinct (run : List (Slot × Act))
    (hrun : Runs.Admitted step CounterPositive userinit run)
    (h : Runs.exec step userinit run = some s) : PidsDistinct s := by
  have hI : Counted s ∧ Protocol s := by
    refine Runs.invariant_of_admitted (I := fun s => Counted s ∧ Protocol s) ?_
      ⟨counted_userinit, protocol_userinit⟩ hrun h
    intro t a t' hI hc hs
    exact ⟨hI.1.step hc hs, hI.2.step hs⟩
  exact hI.1.pidsDistinct hI.2.lineage

/-- The first process forks a child. -/
def forkChildRun : List (Slot × Act) :=
  [(0, .run), (0, .fork), (0, .turn true), (0, .turn true), (0, .turn true), (0, .turn true)]

theorem pids_distinct_forkChild :
    ∃ s, Runs.exec step userinit forkChildRun = some s ∧ (s.proc 1).pid = 2 ∧ PidsDistinct s := by
  have hrun : Runs.Admitted step CounterPositive userinit forkChildRun := by decide +kernel
  have hpid : (Runs.exec step userinit forkChildRun).map (fun s => (s.proc 1).pid) = some 2 := by
    decide +kernel
  obtain ⟨s, hs, h2⟩ := Option.map_eq_some_iff.mp hpid
  exact ⟨s, hs, h2, pids_distinct _ hrun hs⟩

/-- The first process runs, and there is no other. -/
structure Alone (s : State) : Prop where
  proc : ∀ p, s.proc p =
    if p = initproc then { Proc.free with state := .running, pid := 1 } else Proc.free
  pc : s.pc initproc = .user

/-- The steps of a `kfork` that takes slot 1; `ok` says if it finds memory. -/
def forkSteps (ok : Bool) : List (Slot × Act) := [(0, .fork), (0, .turn ok), (0, .turn ok)]

lemma step_forkScan (np : Slot) (ok : Bool) (hr : (s.proc p).state = .running) :
    step (s.goto p (.forkScan np)) (p, .turn ok) =
      some (forkScan (s.goto p (.forkScan np)) p np ok) := by
  have hpc : (s.goto p (.forkScan np)).pc p = .forkScan np := update_self ..
  show (if ((s.goto p (.forkScan np)).proc p).state = .running then _ else none) = _
  rw [if_pos (show ((s.goto p (.forkScan np)).proc p).state = .running from hr), turn, hpc]
  exact dif_pos np.isLt

namespace Alone

lemma running (h : Alone s) : (s.proc 0).state = .running := by
  rw [show s.proc 0 = _ from h.proc 0]
  rfl

lemma free (h : Alone s) : (s.proc 1).state = .unused := by
  rw [h.proc]
  rfl

lemma exec_fork (h : Alone s) (ok : Bool) :
    Runs.exec step s (forkSteps ok) =
      some (if ok then (allocproc (s.goto 0 (.forkScan 1)) 0 1).goto 0 (.forkParent 1)
        else (freeproc (allocproc (s.goto 0 (.forkScan 1)) 0 1) 1).goto 0 .user) := by
  have hcall : step s (0, .fork) = some (s.goto 0 (.forkScan (0 : Slot))) :=
    if_pos ⟨h.running, h.pc⟩
  have hzero : step (s.goto 0 (.forkScan (0 : Slot))) (0, .turn ok) =
      some (s.goto 0 (.forkScan (1 : Slot))) := by
    have hused : ¬ ((s.goto 0 (.forkScan (0 : Slot))).proc 0).state = .unused := by
      rw [goto_proc, h.running]
      decide
    rw [step_forkScan 0 ok h.running, forkScan, if_neg hused, State.goto, State.goto, update_idem]
    rfl
  have hone : step (s.goto 0 (.forkScan (1 : Slot))) (0, .turn ok) = _ :=
    step_forkScan 1 ok h.running
  rw [forkSteps, Runs.exec, hcall, Option.bind_some, Runs.exec, hzero, Option.bind_some, Runs.exec,
    hone, Option.bind_some, Runs.exec, forkScan,
    if_pos (show ((s.goto 0 (.forkScan (1 : Slot))).proc 1).state = .unused from h.free)]
  rfl

/-- Without memory `kfork` takes a number and leaves the table as it was. -/
lemma fork_fails (h : Alone s) :
    ∃ t, Runs.exec step s (forkSteps false) = some t ∧ Alone t ∧ t.nextpid = s.nextpid + 1 := by
  refine ⟨(freeproc (allocproc (s.goto 0 (.forkScan 1)) 0 1) 1).goto 0 .user, h.exec_fork false,
    ⟨?_, by rw [goto_pc, if_pos (show initproc = 0 from rfl)]⟩, rfl⟩
  intro p
  rw [goto_proc, freeproc_proc]
  split_ifs with h1 h0 h0
  · exact absurd (h1.symm.trans h0) (by decide)
  · rfl
  · rw [allocproc_proc, if_neg h1, goto_proc, h.proc, if_pos h0]
  · rw [allocproc_proc, if_neg h1, goto_proc, h.proc, if_neg h0]

lemma fork_fails_often (h : Alone s) (n : ℕ) :
    ∃ run t, Runs.exec step s run = some t ∧ Alone t ∧ t.nextpid = s.nextpid + Int32.ofNat n := by
  induction n with
  | zero => exact ⟨[], s, rfl, h, (Int32.add_zero _).symm⟩
  | succ n ih =>
    obtain ⟨run, t, hrun, ht, hnext⟩ := ih
    obtain ⟨t', hstep, ht', hnext'⟩ := ht.fork_fails
    refine ⟨run ++ forkSteps false, t', ?_, ht', ?_⟩
    · rw [Runs.exec_append, hrun]
      exact hstep
    · rw [hnext', hnext, Int32.add_assoc, Int32.ofNat_add]
      rfl

end Alone

/-- The first process begins to run. -/
lemma exists_alone :
    ∃ s, Runs.exec step userinit [(0, .run)] = some s ∧ Alone s ∧ s.nextpid = 2 := by
  refine ⟨(userinit.modifyProc initproc fun v => { v with chan := none }).setState initproc .running,
    rfl, ⟨?_, rfl⟩, rfl⟩
  intro p
  by_cases hp : p = initproc
  · rw [hp, if_pos rfl]
    rfl
  · rw [setState_proc, if_neg hp, modifyProc_proc, if_neg hp, if_neg hp]
    simp [userinit, hp]

/-- After 2147483646 calls of `kfork` that found no memory, the child of the next one has a
negative id. -/
theorem pid_negative_after_wrap :
    ∃ run s, Runs.exec step userinit run = some s ∧ ¬ PidsDistinct s := by
  obtain ⟨s₀, hs₀, halone, htwo⟩ := exists_alone
  obtain ⟨run, s, hrun, hs, hnext⟩ := halone.fork_fails_often 2147483646
  refine ⟨[(0, .run)] ++ run ++ forkSteps true,
    (allocproc (s.goto 0 (.forkScan 1)) 0 1).goto 0 (.forkParent 1), ?_, ?_⟩
  · rw [Runs.exec_append, Runs.exec_append, hs₀, Option.bind_some, hrun, Option.bind_some,
      hs.exec_fork true]
    rfl
  · intro hdistinct
    have hchild : ((allocproc (s.goto 0 (.forkScan 1)) 0 1).goto 0 (.forkParent 1)).proc 1 =
        { s.proc 1 with pid := s.nextpid, state := .used } := by
      rw [goto_proc, allocproc_proc, if_pos rfl]
      rfl
    have hpos := hdistinct.1 1 (by rw [hchild]; exact ProcState.noConfusion)
    rw [hchild] at hpos
    dsimp only at hpos
    rw [hnext, htwo] at hpos
    exact absurd hpos (by decide)

end Xv6.ProcTable
