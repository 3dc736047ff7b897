import Xv6.ProcSteps

/-!
# Where processes are

The place of a process in its call, the state of its slot and the holder of
`wait_lock` fit together. In particular a slot that `kfork` is filling stays `USED`,
and the first process neither exits nor is freed.
-/
namespace Xv6.ProcTable

open Function

variable {s s' : State} {p q : Slot} {a : Act}

/-- The slot that a call of `kfork` is filling. -/
def Pc.forking : Pc → Option Slot
  | .forkParent np | .forkRun np => some np
  | _ => none

/-- The places in `kexit`. -/
def Pc.Exiting : Pc → Prop
  | .exitAcquire _ | .reparent .. | .wakeup .. | .zombie _ | .dead => True
  | .user | .forkScan _ | .forkParent _ | .forkRun _ | .waitAcquire _ | .waitScan .. | .waitKilled _
  | .waitSleep _ | .killScan .. => False

/-- The places that a process in slot `p` can be at in each state. -/
def Fits (p : Slot) (pc : Pc) (v : Proc) : Prop :=
  match v.state with
  | .unused => pc = .user ∨ pc = .dead
  | .used => pc = .user
  | .sleeping => (pc = .user ∧ ∃ c, v.chan = some (.other c)) ∨
      ((∃ addr, pc = .waitAcquire addr) ∧ v.chan = some (.proc p))
  | .runnable => ¬ pc.Holding ∧ pc ≠ .dead
  | .running => pc ≠ .dead
  | .zombie => pc = .dead

structure Control (s : State) : Prop where
  fits : ∀ p, Fits p (s.pc p) (s.proc p)
  holding : ∀ p, (s.pc p).Holding ↔ s.waitLock = some p
  forking : ∀ p np, (s.pc p).forking = some np → (s.proc np).state = .used
  forker : ∀ p q np, (s.pc p).forking = some np → (s.pc q).forking = some np → p = q
  init : (s.proc initproc).state ≠ .unused ∧ (s.proc initproc).state ≠ .used ∧
    (s.proc initproc).state ≠ .zombie ∧ ¬ (s.pc initproc).Exiting

theorem control_userinit : Control userinit where
  fits p := by
    by_cases hp : p = initproc
    · subst hp
      simp [userinit, Fits, Pc.Holding]
    · simp [userinit, Fits, hp, Proc.free]
  holding p := by simp [userinit, Pc.Holding]
  forking p np h := by simp [userinit, Pc.forking] at h
  forker p q np h := by simp [userinit, Pc.forking] at h
  init := by simp [userinit, Pc.Exiting]

lemma fits_iff {pc : Pc} {v : Proc} : Fits p pc v ↔
    (v.state = .unused → pc = .user ∨ pc = .dead) ∧ (v.state = .used → pc = .user) ∧
    (v.state = .sleeping → (pc = .user ∧ ∃ c, v.chan = some (.other c)) ∨
      ((∃ addr, pc = .waitAcquire addr) ∧ v.chan = some (.proc p))) ∧
    (v.state = .runnable → ¬ pc.Holding ∧ pc ≠ .dead) ∧ (v.state = .running → pc ≠ .dead) ∧
    (v.state = .zombie → pc = .dead) := by
  unfold Fits
  cases v.state <;> simp

namespace Control

/-! Each field is kept by every section: what the section writes is read off, and the cases are
who moves and which slot changes. -/

attribute [local grind =] Pc.Holding Pc.forking Pc.Exiting

section Step

variable (h : Control s) (hs : Section s p a s')
include h hs

lemma fits_step (q : Slot) : Fits q (s'.pc q) (s'.proc q) := by
  have hfits := h.fits
  have hholding := h.holding
  have hforking := h.forking
  have hforker := h.forker
  simp only [fits_iff] at hfits ⊢
  cases hs
  all_goals simp only [State.goto, allocproc, freeproc, State.setState, State.modifyProc,
    State.setWaitLock, forkRun, becomeZombie, reap, waitSleep, killScan, apply_ite State.proc,
    apply_ite State.pc, apply_ite State.waitLock, Option.elim, Proc.free, ite_apply, update_apply]
  all_goals grind

lemma lock_step : (∀ q, (s'.pc q).Holding ↔ s'.waitLock = some q) ∧
    (s'.proc initproc).state ≠ .unused ∧ (s'.proc initproc).state ≠ .used ∧
    (s'.proc initproc).state ≠ .zombie ∧ ¬ (s'.pc initproc).Exiting := by
  obtain ⟨hfits, hholding, -, -, hinit⟩ := h
  simp only [fits_iff] at hfits
  cases hs
  all_goals simp only [State.goto, allocproc, freeproc, State.setState, State.modifyProc,
    State.setWaitLock, forkRun, becomeZombie, reap, waitSleep, killScan, apply_ite State.proc,
    apply_ite State.pc, apply_ite State.waitLock, Option.elim, ite_apply, update_apply]
  all_goals refine ⟨?_, ?_⟩
  all_goals grind

lemma fork_step : (∀ q np, (s'.pc q).forking = some np → (s'.proc np).state = .used) ∧
    ∀ q r np, (s'.pc q).forking = some np → (s'.pc r).forking = some np → q = r := by
  have hforking := h.forking
  have hforker := h.forker
  cases hs
  all_goals simp only [State.goto, allocproc, freeproc, State.setState, State.modifyProc,
    State.setWaitLock, forkRun, becomeZombie, reap, waitSleep, killScan, apply_ite State.proc,
    apply_ite State.pc, apply_ite State.waitLock, Option.elim, ite_apply, update_apply]
  all_goals refine ⟨?_, ?_⟩
  all_goals grind

end Step

theorem step (h : Control s) (hs : Section s p a s') : Control s' :=
  ⟨h.fits_step hs, (h.lock_step hs).1, (h.fork_step hs).1, (h.fork_step hs).2, (h.lock_step hs).2⟩

end Control

end Xv6.ProcTable
