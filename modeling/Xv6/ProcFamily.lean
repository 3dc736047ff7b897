import Xv6.ProcControl

/-!
# Parents, children and waiting

A parent is alive as long as it has children: `kexit` gives them to the first process
before the slot becomes a zombie. A process that sleeps in `kwait` has no zombie child:
whoever holds `wait_lock` wakes it before the lock is free again.
-/
namespace Xv6.ProcTable

open Function

variable {s s' s'' : State} {p q : Slot} {a : Act}

/-- Neither free, nor being filled, nor a zombie. -/
def Live (st : ProcState) : Prop := st = .running ∨ st = .runnable ∨ st = .sleeping

/-- The process sleeps in `kwait`. -/
def WaitSleeping (s : State) (y : Slot) : Prop :=
  (s.proc y).state = .sleeping ∧ (s.proc y).chan = some (.proc y)

/-- How many slots `reparent` has passed. -/
def Pc.swept : Pc → Option ℕ
  | .reparent _ i => some i
  | .wakeup _ _ _ (some i) => some i
  | .wakeup _ _ _ none => some NPROC
  | .zombie _ => some NPROC
  | _ => none

/-- How many slots `kwait` has passed. -/
def Pc.scanned : Pc → Option ℕ
  | .waitScan _ i _ => some i
  | .waitKilled _ => some NPROC
  | .waitSleep _ => some NPROC
  | _ => none

/-- How many slots the `wakeup` of the parent has passed. -/
def Pc.notified : Pc → Option ℕ
  | .wakeup _ _ j none => some j
  | .zombie _ => some NPROC
  | _ => none

/-- Process `x` is about to wake process `y` for a child that it was given. -/
def AboutToWake (s : State) (x y : Slot) : Prop :=
  ∃ status j i, s.pc x = .wakeup status (some y) j (some i) ∧ j ≤ y.val

lemma Pc.loops_of_not_holding {pc : Pc} (h : ¬ pc.Holding) :
    pc.swept = none ∧ pc.scanned = none ∧ pc.notified = none := by
  cases pc <;> simp_all [Pc.Holding, Pc.swept, Pc.scanned, Pc.notified]

structure Family (s : State) : Prop where
  alive : ∀ c y, (s.proc c).parent = some y → Live (s.proc y).state
  swept : ∀ x n, (s.pc x).swept = some n → ∀ j : Slot, j.val < n → (s.proc j).parent ≠ some x
  scanned : ∀ y n, (s.pc y).scanned = some n → ∀ j : Slot, j.val < n →
    (s.proc j).parent = some y → (s.proc j).state ≠ .zombie
  notified : ∀ x n, (s.pc x).notified = some n → ∀ y : Slot, y.val < n →
    (s.proc x).parent = some y → ¬ WaitSleeping s y
  target : ∀ x status chan j, s.pc x = .wakeup status chan j none →
    ∀ y, (s.proc x).parent = some y → chan = some y
  quiet : ∀ y z, WaitSleeping s y → (s.proc z).parent = some y → (s.proc z).state = .zombie →
    ∃ x, AboutToWake s x y

theorem family_userinit : Family userinit := by
  constructor
  all_goals simp only [userinit, Proc.free, Pc.swept, Pc.scanned, Pc.notified, update_apply]
  all_goals grind

lemma live_iff {st : ProcState} : Live st ↔ st ≠ .unused ∧ st ≠ .used ∧ st ≠ .zombie := by
  cases st <;> simp [Live]

namespace Family

lemma swept_wakeup {status : Int32} {chan : Option Slot} {j : ℕ} {next : Option ℕ} :
    (Pc.wakeup status chan j next).swept = some (next.getD NPROC) := by
  cases next <;> rfl

lemma notified_wakeup {status : Int32} {chan : Option Slot} {j : ℕ} {next : Option ℕ} :
    (Pc.wakeup status chan j next).notified = if next = none then some j else none := by
  cases next <;> rfl

attribute [local grind =] Pc.Holding Pc.forking Pc.Exiting Pc.swept Pc.scanned Pc.notified live_iff
  swept_wakeup notified_wakeup

/-! The loops as lower bounds on the slots that are still to come. -/

lemma swept_le (h : Family s) (x j : Slot) (hj : (s.proc j).parent = some x) :
    (s.pc x).swept.getD 0 ≤ j.val := by
  cases hn : (s.pc x).swept with
  | none => exact Nat.zero_le _
  | some n => exact not_lt.mp fun hlt => h.swept x n hn j hlt hj

lemma scanned_le (h : Family s) (y j : Slot) (hj : (s.proc j).parent = some y)
    (hz : (s.proc j).state = .zombie) : (s.pc y).scanned.getD 0 ≤ j.val := by
  cases hn : (s.pc y).scanned with
  | none => exact Nat.zero_le _
  | some n => exact not_lt.mp fun hlt => h.scanned y n hn j hlt hj hz

lemma notified_le (h : Family s) (x y : Slot) (hx : (s.proc x).parent = some y)
    (hy : WaitSleeping s y) : (s.pc x).notified.getD 0 ≤ y.val := by
  cases hn : (s.pc x).notified with
  | none => exact Nat.zero_le _
  | some n => exact not_lt.mp fun hlt => h.notified x n hn y hlt hx hy

lemma loops_lock (hc : Control s) (x : Slot) (n : ℕ) :
    ((s.pc x).swept = some n → s.waitLock = some x) ∧
    ((s.pc x).scanned = some n → s.waitLock = some x) ∧
    ((s.pc x).notified = some n → s.waitLock = some x) := by
  have := @Pc.loops_of_not_holding (s.pc x)
  rw [hc.holding] at this
  grind

section Step

variable (h : Family s) (hc : Control s) (hs : Section s p a s')
include h hc hs

lemma swept_step : (∀ c y, (s'.proc c).parent = some y → Live (s'.proc y).state) ∧
    ∀ x n, (s'.pc x).swept = some n → ∀ j : Slot, j.val < n → (s'.proc j).parent ≠ some x := by
  have halive := h.alive
  have hswept := h.swept_le
  have hholding := hc.holding
  have hlock := loops_lock hc
  have hinit := hc.init
  cases hs
  all_goals simp only [State.goto, allocproc, freeproc, State.setState, State.modifyProc,
    State.setWaitLock, forkRun, becomeZombie, reap, waitSleep, killScan, apply_ite State.proc,
    apply_ite State.pc, Option.elim, Proc.free, ite_apply, update_apply, if_true]
  all_goals refine ⟨?_, by clear halive; grind⟩
  all_goals grind

lemma scanned_step : (∀ y n, (s'.pc y).scanned = some n → ∀ j : Slot, j.val < n →
      (s'.proc j).parent = some y → (s'.proc j).state ≠ .zombie) ∧
    ∀ x status chan j, s'.pc x = .wakeup status chan j none →
      ∀ y, (s'.proc x).parent = some y → chan = some y := by
  have hscanned := h.scanned_le
  have htarget := h.target
  have hholding := hc.holding
  have hlock := loops_lock hc
  cases hs
  all_goals simp only [State.goto, allocproc, freeproc, State.setState, State.modifyProc,
    State.setWaitLock, forkRun, becomeZombie, reap, waitSleep, killScan, apply_ite State.proc,
    apply_ite State.pc, Option.elim, Proc.free, ite_apply, update_apply, if_true]
  all_goals refine ⟨?_, ?_⟩
  all_goals grind

lemma notified_step (x : Slot) (n : ℕ) : (s'.pc x).notified = some n → ∀ y : Slot, y.val < n →
    (s'.proc x).parent = some y → ¬ WaitSleeping s' y := by
  have hnotified := h.notified_le
  have hholding := hc.holding
  have hlock := loops_lock hc
  have htarget := h.target
  simp only [WaitSleeping] at hnotified ⊢
  cases hs
  all_goals simp only [State.goto, allocproc, freeproc, State.setState, State.modifyProc,
    State.setWaitLock, forkRun, becomeZombie, reap, waitSleep, killScan, apply_ite State.proc,
    apply_ite State.pc, Option.elim, Proc.free, ite_apply, update_apply, if_true]
  case reparentChild status pp hr hpc hparent =>
    intro hn
    split_ifs at hn with hx
    · cases hn
    · -- the lock is with `p`
      have hp := (hc.holding p).mp (by rw [hpc]; trivial)
      exact absurd (Option.some.inj (hp.symm.trans ((hlock x n).2.2 hn))).symm hx
  all_goals grind

lemma quiet_step (y z : Slot) : WaitSleeping s' y → (s'.proc z).parent = some y →
    (s'.proc z).state = .zombie → ∃ x, AboutToWake s' x y := by
  have hquiet := h.quiet
  have hnotified := h.notified_le
  have hscanned := h.scanned_le
  have hholding := hc.holding
  have hfits := hc.fits
  simp only [fits_iff] at hfits
  simp only [WaitSleeping, AboutToWake] at hquiet hnotified ⊢
  cases hs
  case reparentChild status pp hr hpc hparent =>
    -- the children of `p` go to the first process, which is woken next
    by_cases hy : y = initproc
    · exact fun _ _ _ => ⟨p, status, 0, pp.val + 1, by simp [hy], Nat.zero_le _⟩
    · simp only [State.goto, State.modifyProc, update_apply]
      grind
  case wakeupMiss status chan q next hr hpc hmiss =>
    simp only [State.goto, update_apply]
    intro hy hz hzz
    obtain ⟨x, st, j, i, hx, hj⟩ := hquiet y z hy hz hzz
    exact ⟨x, st, if x = p then q + 1 else j, i, by grind, by grind⟩
  all_goals simp only [State.goto, allocproc, freeproc, State.setState, State.modifyProc,
    State.setWaitLock, forkRun, becomeZombie, reap, waitSleep, killScan, apply_ite State.proc,
    apply_ite State.pc, Option.elim, Proc.free, ite_apply, update_apply, if_true]
  all_goals grind

end Step

theorem step (h : Family s) (hc : Control s) (hs : Section s p a s') : Family s' := by
  obtain ⟨halive, hswept⟩ := h.swept_step hc hs
  obtain ⟨hscanned, htarget⟩ := h.scanned_step hc hs
  exact ⟨halive, hswept, hscanned, h.notified_step hc hs, htarget, h.quiet_step hc hs⟩

end Family

end Xv6.ProcTable
