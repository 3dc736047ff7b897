import Xv6.ProcControl

/-!
# Whom kill reaches

Free slots keep pid 0, so `kkill(0)` finds one, marks it killed and reports success;
`allocproc` does not clear the mark, and the next process in that slot is born killed.
With positive arguments a process has its flag set only by a `kkill` of its own pid or
by `setkilled`, in its own lifetime.
-/
namespace Xv6.ProcTable

open Function

variable {s s' : State} {p q : Slot}

/-- `kkill` is called with positive numbers only. -/
def PositiveKill (_ : State) (a : Slot × Act) : Prop :=
  match a.2 with
  | .kill pid => 0 < pid
  | _ => True

instance (s : State) (a : Slot × Act) : Decidable (PositiveKill s a) := by
  unfold PositiveKill
  split <;> infer_instance

/-- Somebody asked for this process to be killed after it was started. -/
def Condemned (h : History) (id : ℕ) (pid : Int32) : Prop :=
  (∃ k ∈ h.kills, k.pid = pid ∧ 0 < pid ∧ id < k.births) ∨ id ∈ h.setkills

/-- Killed processes were condemned, and free slots are clean. -/
structure Targeted (s : State) : Prop where
  free : ∀ p, (s.proc p).state = .unused → (s.proc p).killed = false ∧ (s.proc p).pid = 0
  scan : ∀ p pid i, s.pc p = .killScan pid i → 0 < pid
  nextpid : s.nextpid = Int32.ofNat (s.hist.births.length + 1)
  births : ∀ i b, s.hist.births[i]? = some b → b.pid = Int32.ofNat (i + 1)
  born : ∀ p, (s.proc p).state ≠ .unused →
    ∃ b, s.hist.births[s.born p]? = some b ∧ b.pid = (s.proc p).pid
  killed : ∀ p, (s.proc p).killed = true → Condemned s.hist (s.born p) (s.proc p).pid
  found : ∀ k ∈ s.hist.kills, k.found ≠ .unused

namespace Targeted

attribute [local grind =] Condemned

lemma goto (h : Targeted s) (pc : Pc)
    (hpc : ∀ pid i, pc = .killScan pid i → 0 < pid) : Targeted (s.goto p pc) := by
  have hs := h.scan
  refine { h with scan := ?_ }
  simp only [State.goto, update_apply]
  grind

lemma modifyProc {f : Proc → Proc} (h : Targeted s)
    (hstate : (f (s.proc p)).state = .unused ↔ (s.proc p).state = .unused)
    (hpid : (f (s.proc p)).pid = (s.proc p).pid)
    (hkilled : (f (s.proc p)).killed = (s.proc p).killed) : Targeted (s.modifyProc p f) := by
  cases h
  constructor
  all_goals simp only [State.modifyProc, update_apply]
  all_goals first | assumption | grind

lemma setWaitLock {holder : Option Slot} (h : Targeted s) : Targeted (s.setWaitLock holder) :=
  { h with }

/-- Only `p->killed` and the records of it are read from the history. -/
lemma of_hist {hist : History} (h : Targeted s) (hbirths : hist.births = s.hist.births)
    (hkills : hist.kills = s.hist.kills) (hset : hist.setkills = s.hist.setkills) :
    Targeted { s with hist := hist } := by
  cases h
  constructor
  all_goals simp only [hbirths, hkills, hset, Condemned] at *
  all_goals assumption

lemma setState (h : Targeted s) (st : ProcState)
    (hst : st = .unused ↔ (s.proc p).state = .unused) : Targeted (s.setState p st) :=
  (h.modifyProc (p := p) (f := fun v => { v with state := st }) hst rfl rfl).of_hist rfl rfl rfl

lemma freeproc (h : Targeted s) : Targeted (freeproc s p) := by
  cases h
  constructor
  all_goals simp only [ProcTable.freeproc, State.setState, State.modifyProc, Proc.free, update_apply]
  all_goals first | assumption | grind

lemma allocproc {np : Slot} (h : Targeted s) (hfree : (s.proc np).state = .unused) :
    Targeted (allocproc s p np) := by
  have hnext : s.nextpid + 1 = Int32.ofNat (s.hist.births.length + 1 + 1) := by
    rw [h.nextpid]
    exact (Int32.ofNat_add _ _).symm
  cases h
  constructor
  all_goals simp only [ProcTable.allocproc, State.setState, State.modifyProc, update_apply, if_true,
    List.length_append, List.length_singleton]
  case born =>
    intro q hq
    by_cases hqn : q = np
    · exact ⟨{ pid := s.nextpid, forker := some (s.born p) }, by simp [hqn], by simp [hqn]⟩
    · grind
  all_goals first | assumption | grind

lemma mark (h : Targeted s) (hist : History) (hlive : (s.proc q).state ≠ .unused)
    (hbirths : hist.births = s.hist.births) (hkills : ∀ k ∈ s.hist.kills, k ∈ hist.kills)
    (hset : ∀ id ∈ s.hist.setkills, id ∈ hist.setkills)
    (hfound : ∀ k ∈ hist.kills, k.found ≠ .unused)
    (hmark : Condemned hist (s.born q) (s.proc q).pid) :
    Targeted { s.modifyProc q fun v => { v with killed := true } with hist := hist } := by
  cases h
  constructor
  all_goals simp only [State.modifyProc, update_apply, hbirths]
  all_goals first | assumption | grind

theorem step {a : Slot × Act} (h : Targeted s) (hctl : Control s) (hc : PositiveKill s a)
    (hs : ProcTable.step s a = some s') : Targeted s' := by
  obtain ⟨p, act⟩ := a
  cases section_of_step hs with
  | call pc hr hu hpc =>
    refine h.goto _ fun pid i he => ?_
    obtain rfl | ⟨addr, rfl⟩ | ⟨pid', rfl, rfl⟩ := hpc
    · cases he
    · cases he
    · cases he
      exact hc
  | exit status => exact (h.goto _ (by simp)).of_hist rfl rfl rfl
  | scanNext pc hr hpc =>
    refine h.goto _ fun pid i he => ?_
    obtain ⟨i', -, rfl | rfl⟩ | ⟨pid', i', hpc, rfl | rfl⟩ := hpc
    · cases he
    · cases he
    · cases he
      exact h.scan p pid i' hpc
    · cases he
  | forkFound np hr hpc hfree => exact (h.allocproc hfree).goto _ (by simp)
  | forkFailed np hr hpc hfree => exact (h.allocproc hfree).freeproc.goto _ (by simp)
  | forkParent np | reparentChild status pp => exact (h.modifyProc Iff.rfl rfl rfl).goto _ (by simp)
  | forkRun np hr hpc =>
    have hu := hctl.forking p np (by rw [hpc]; rfl)
    exact ((h.setState _ (by simp [hu])).goto _ (by simp)).of_hist rfl rfl rfl
  | exitAcquire status | waitAcquire addr | waitReturn => exact h.setWaitLock.goto _ (by simp)
  | reparentNext status pp => exact h.goto _ (by simp)
  | reparentEnd status i => exact h.goto _ (by simp)
  | wakeupHit status chan q next hr hpc hq hsleep =>
    exact (h.setState _ (by simp [hsleep])).goto _ (by simp)
  | wakeupMiss status chan q next => exact h.goto _ (by simp)
  | wakeupEnd status chan j next => exact h.goto _ (by cases next <;> simp)
  | zombie status hr | waitSleep addr hr =>
    exact (((h.modifyProc Iff.rfl rfl rfl).setState _ (by simp [hr])).setWaitLock).goto _ (by simp)
  | reap addr pp => exact (h.freeproc.setWaitLock.goto _ (by simp)).of_hist rfl rfl rfl
  | waitNext addr pp havekids havekids' => exact h.goto _ (by simp)
  | waitEnd addr i havekids => exact h.goto _ (by simp)
  | waitAlive addr => exact h.goto _ (by simp)
  | killHit pid q hr hpc hpid =>
    have hpos := h.scan p pid q hpc
    have hlive : (s.proc q).state ≠ .unused := fun hu => by
      rw [← hpid, (h.free q hu).2] at hpos
      exact absurd hpos (by decide)
    have hid : s.born q < s.hist.births.length := by
      obtain ⟨b, hb, -⟩ := h.born q hlive
      exact (List.getElem?_eq_some_iff.mp hb).1
    have hm := h.mark (q := q) { s.hist with kills := s.hist.kills ++
        [{ pid := pid, found := (s.proc q).state, births := s.hist.births.length }] } hlive rfl
      (fun k hk => List.mem_append_left _ hk) (fun _ hi => hi) (fun k hk => ?_)
      (.inl ⟨_, List.mem_append_right _ (List.mem_singleton_self _), hpid.symm, hpid ▸ hpos, hid⟩)
    · rw [killScan, if_pos hpid]
      dsimp only
      split
      · next hsleep =>
        exact ((hm.setState .runnable (p := q) (by simp [hsleep])).goto .user (p := p) (by simp)).of_hist rfl rfl rfl
      · exact (hm.goto .user (p := p) (by simp)).of_hist rfl rfl rfl
    · obtain hk | hk := List.mem_append.mp hk
      · exact h.found k hk
      · rw [List.mem_singleton.mp hk]
        exact hlive
  | setkilled hr hu =>
    refine h.mark _ (by simp [hr]) rfl (fun _ hk => hk) (fun id hid => ?_) h.found ?_
    · exact List.mem_append_left _ hid
    · exact .inr (List.mem_append_right _ (List.mem_singleton_self _))
  | run hr | sleep c hr => exact (h.modifyProc Iff.rfl rfl rfl).setState _ (by simp [hr])
  | yield hr => exact h.setState _ (by simp [hr])
  | wakeup c hsleep => exact h.setState _ (by simp [hsleep])

end Targeted

lemma ofNat_pos {i : ℕ} (h : i + 1 < 2 ^ 31) : (0 : Int32) < Int32.ofNat (i + 1) := by
  rw [Int32.lt_iff_toInt_lt, Int32.toInt_ofNat_of_lt h]
  simp

end Xv6.ProcTable
