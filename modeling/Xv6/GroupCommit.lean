import Xv6.Param
import Xv6.Runs

/-!
# Group commit

`begin_op`, `log_write` and `end_op` as atomic steps of any number of processes.
Each critical section of `log.lock` is one step, and `commit()`, which runs
without the lock, is one more. A process calls `log_write` and `end_op` only
between `begin_op` and `end_op`, and sleeps in `begin_op` until a `wakeup(&log)`.

Beside the code's own variables the state carries a history: which operations
are running, which have ended since the last commit, and what every commit
wrote. No step reads it.
-/
namespace Xv6.GroupCommit

variable {P : Type*}

/-- Where a process stands with respect to the log. -/
inductive Pc where
  | idle
  /-- In `begin_op`, asleep on `&log`. -/
  | sleeping
  /-- In `begin_op`, woken up and about to test the log again. -/
  | retry
  /-- Between `begin_op` and `end_op`. -/
  | running
  /-- In `end_op` with `do_commit = 1`, about to call `commit()`. -/
  | mustCommit
  /-- In `end_op` after `commit()`, about to clear `log.committing`. -/
  | committed
  deriving DecidableEq, Repr

inductive Panic where
  | logCommitting
  | logWriteOutsideOfTrans
  | tooBigATransaction
  deriving DecidableEq, Repr

/-- One file-system operation and the blocks it has log_written, newest first. -/
structure Op (P : Type*) where
  id : ℕ
  proc : P
  blocks : List ℕ

/-- What one `commit()` wrote and the operations it was made for. -/
structure Commit (P : Type*) where
  blocks : List ℕ
  ops : List (Op P)

structure History (P : Type*) where
  next : ℕ
  running : List (Op P)
  ended : List (Op P)
  commits : List (Commit P)

namespace History

variable [DecidableEq P]

def begin (h : History P) (p : P) : History P :=
  { h with next := h.next + 1, running := ⟨h.next, p, []⟩ :: h.running }

def write (h : History P) (p : P) (b : ℕ) : History P :=
  { h with running :=
      h.running.map fun o => if o.proc = p then { o with blocks := b :: o.blocks } else o }

def finish (h : History P) (p : P) : History P :=
  { h with
    running := h.running.filter fun o => o.proc ≠ p
    ended := (h.running.filter fun o => o.proc = p) ++ h.ended }

def commit (h : History P) (lh : List ℕ) : History P :=
  { h with ended := [], commits := ⟨lh, h.ended⟩ :: h.commits }

def ops (h : History P) : List (Op P) :=
  h.running ++ h.ended ++ h.commits.flatMap Commit.ops

end History

/-- `struct log` (with `lh.block[0..n)` as a list), the processes, and a panic if
one has stopped the machine. -/
structure State (P : Type*) where
  outstanding : ℤ
  committing : Bool
  lh : List ℕ
  pc : P → Pc
  panicked : Option Panic
  hist : History P

namespace State

def setPc [DecidableEq P] (s : State P) (p : P) (c : Pc) : State P := { s with pc := Function.update s.pc p c }

/-- `wakeup(&log)`. -/
def wakeup (s : State P) : State P :=
  { s with pc := fun q => if s.pc q = .sleeping then .retry else s.pc q }

end State

/-- The machine at boot, after recovery has emptied the log. -/
def init : State P :=
  { outstanding := 0, committing := false, lh := [], pc := fun _ => .idle, panicked := none
    hist := ⟨0, [], [], []⟩ }

section Steps

variable [DecidableEq P]

/-- One pass through the loop of `begin_op`. -/
def beginOp (s : State P) (p : P) : State P :=
  if s.committing then s.setPc p .sleeping
  else if (s.lh.length : ℤ) + (s.outstanding + 1) * MAXOPBLOCKS > LOGBLOCKS then
    s.setPc p .sleeping
  else
    { s.setPc p .running with
      outstanding := s.outstanding + 1
      hist := s.hist.begin p }

/-- Log absorption: an entry for the block is reused, else one is added. -/
def absorb (lh : List ℕ) (b : ℕ) : List ℕ := if b ∈ lh then lh else lh ++ [b]

/-- `log_write` of a buffer for block `b`. The test for a full log comes before
the search for an entry to absorb the write. -/
def logWrite (s : State P) (p : P) (b : ℕ) : State P :=
  if LOGBLOCKS ≤ s.lh.length then { s with panicked := some .tooBigATransaction }
  else if s.outstanding < 1 then { s with panicked := some .logWriteOutsideOfTrans }
  else
    { s with
      lh := absorb s.lh b
      hist := s.hist.write p b }

/-- The first critical section of `end_op`. -/
def endOp (s : State P) (p : P) : State P :=
  let s' := { s with outstanding := s.outstanding - 1, hist := s.hist.finish p }
  if s.committing then { s' with panicked := some .logCommitting }
  else if s'.outstanding = 0 then { s'.setPc p .mustCommit with committing := true }
  else s'.wakeup.setPc p .idle

/-- `commit()`: the transaction is on disk and `log.lh.n` is zero again. -/
def commit (s : State P) (p : P) : State P :=
  { s.setPc p .committed with
    lh := []
    hist := s.hist.commit s.lh }

/-- The second critical section of `end_op`. -/
def endCommit (s : State P) (p : P) : State P :=
  { s.wakeup.setPc p .idle with committing := false }

inductive Act where
  | beginOp
  | logWrite (b : ℕ)
  | endOp
  | commit
  | endCommit
  deriving DecidableEq, Repr

/-- Process `p` performs an action, if it is at a point where it can. -/
def step (s : State P) (l : P × Act) : Option (State P) :=
  if s.panicked.isSome then none
  else match l.2, s.pc l.1 with
    | .beginOp, .idle => some (beginOp s l.1)
    | .beginOp, .retry => some (beginOp s l.1)
    | .logWrite b, .running => some (logWrite s l.1 b)
    | .endOp, .running => some (endOp s l.1)
    | .commit, .mustCommit => some (commit s l.1)
    | .endCommit, .committed => some (endCommit s l.1)
    | _, _ => none

lemma step_cases {s s' : State P} {p : P} {a : Act} (h : step s (p, a) = some s') :
    s.panicked = none ∧
      ((a = .beginOp ∧ (s.pc p = .idle ∨ s.pc p = .retry) ∧ s' = beginOp s p) ∨
        (∃ b, a = .logWrite b ∧ s.pc p = .running ∧ s' = logWrite s p b) ∨
        (a = .endOp ∧ s.pc p = .running ∧ s' = endOp s p) ∨
        (a = .commit ∧ s.pc p = .mustCommit ∧ s' = commit s p) ∨
        (a = .endCommit ∧ s.pc p = .committed ∧ s' = endCommit s p)) := by
  unfold step at h
  split_ifs at h with hp
  have hnone : s.panicked = none := by simpa using hp
  refine ⟨hnone, ?_⟩
  cases a <;> cases hpc : s.pc p <;> simp_all

end Steps

/-- The running operations are those counted by `outstanding`, the log header
lists exactly what running and ended operations wrote, and nothing runs while
a commit is in progress. -/
structure Inv (s : State P) : Prop where
  sound : s.panicked = none ∨ s.panicked = some .tooBigATransaction
  running_pc : ∀ p, s.pc p = .running ↔ p ∈ s.hist.running.map Op.proc
  running_nodup : (s.hist.running.map Op.proc).Nodup
  outstanding : s.outstanding = s.hist.running.length
  committing : s.committing = true → s.hist.running = []
  committer : ∀ p, s.pc p = .mustCommit ∨ s.pc p = .committed → s.committing = true
  committer_unique : ∀ p q, s.pc p = .mustCommit ∨ s.pc p = .committed →
    s.pc q = .mustCommit ∨ s.pc q = .committed → p = q
  lh_nodup : s.lh.Nodup
  lh_mem : ∀ b, b ∈ s.lh ↔ ∃ o ∈ s.hist.running ++ s.hist.ended, b ∈ o.blocks
  ids : (s.hist.ops.map Op.id).Perm (List.range s.hist.next)
  commits : ∀ c ∈ s.hist.commits, c.blocks.Nodup ∧ ∀ b, b ∈ c.blocks ↔ ∃ o ∈ c.ops, b ∈ o.blocks

theorem inv_init : Inv (init : State P) where
  sound := Or.inl rfl
  running_pc p := by simp [init]
  running_nodup := by simp [init]
  outstanding := rfl
  committing h := by simp [init] at h
  committer p h := by simp [init] at h
  committer_unique p q h := by simp [init] at h
  lh_nodup := by simp [init]
  lh_mem b := by simp [init]
  ids := by simp [init, History.ops]
  commits c hc := by simp [init] at hc

variable [DecidableEq P] {p : P} {s : State P}

lemma Inv.setPc_outside (h : Inv s) {c : Pc} (hp : s.pc p ≠ .running)
    (hc : c = .idle ∨ c = .sleeping ∨ c = .retry) : Inv (s.setPc p c) := by
  have hrunning := h.running_pc
  have hcommitter := h.committer
  have hunique := h.committer_unique
  refine { h with running_pc := fun q => ?_, committer := fun q => ?_, committer_unique := fun q r => ?_ }
  all_goals simp only [State.setPc, Function.update_apply]
  all_goals grind

/-- A process enters an operation only when no commit is in progress. -/
lemma Inv.beginOp (h : Inv s) (hpc : s.pc p = .idle ∨ s.pc p = .retry) : Inv (beginOp s p) := by
  have hp : s.pc p ≠ .running := by rcases hpc with hpc | hpc <;> simp [hpc]
  have hnew : p ∉ s.hist.running.map Op.proc := fun hmem => hp ((h.running_pc p).mpr hmem)
  unfold GroupCommit.beginOp
  split_ifs with hc hfull
  · exact h.setPc_outside hp (by simp)
  · exact h.setPc_outside hp (by simp)
  · have hcf : s.committing = false := by simpa using hc
    have hrunning := h.running_pc
    have hcommitter := h.committer
    refine { h with
      running_pc := fun q => ?_, committer := fun q => ?_, committer_unique := fun q r => ?_,
      committing := ?_, running_nodup := ?nodup, outstanding := ?count, lh_mem := fun b => ?mem
      ids := ?ids }
    case nodup => simpa [History.begin] using ⟨by simpa using hnew, h.running_nodup⟩
    case count => simp [History.begin, h.outstanding]
    case mem => simpa [State.setPc, History.begin] using h.lh_mem b
    case ids =>
      have hids := h.ids
      simp only [History.ops, History.begin, List.cons_append, List.map_cons,
        List.range_succ] at hids ⊢
      exact (List.Perm.cons _ hids).trans (List.perm_append_singleton _ _).symm
    all_goals simp only [State.setPc, History.begin, Function.update_apply, List.map_cons,
      List.mem_cons]
    all_goals grind

lemma History.write_proc (h : History P) (p : P) (b : ℕ) :
    (h.write p b).running.map Op.proc = h.running.map Op.proc := by
  simp only [History.write, List.map_map]
  refine List.map_congr_left fun o _ => ?_
  rw [Function.comp_apply]
  split_ifs <;> rfl

lemma History.write_id (h : History P) (p : P) (b : ℕ) :
    (h.write p b).running.map Op.id = h.running.map Op.id := by
  simp only [History.write, List.map_map]
  refine List.map_congr_left fun o _ => ?_
  rw [Function.comp_apply]
  split_ifs <;> rfl

/-- The blocks written by running operations after one more write of `b`. -/
lemma History.mem_write_running {h : History P} {b c : ℕ} (hp : p ∈ h.running.map Op.proc) :
    (∃ o ∈ (h.write p b).running, c ∈ o.blocks) ↔ c = b ∨ ∃ o ∈ h.running, c ∈ o.blocks := by
  constructor
  · rintro ⟨o, ho, hc⟩
    obtain ⟨o', ho', rfl⟩ := List.mem_map.mp ho
    split_ifs at hc with he
    · rcases List.mem_cons.mp hc with rfl | hc
      · exact Or.inl rfl
      · exact Or.inr ⟨o', ho', hc⟩
    · exact Or.inr ⟨o', ho', hc⟩
  · rintro (rfl | ⟨o, ho, hc⟩)
    · obtain ⟨o, ho, rfl⟩ := List.mem_map.mp hp
      exact ⟨_, List.mem_map.mpr ⟨o, ho, rfl⟩, by simp⟩
    · refine ⟨_, List.mem_map.mpr ⟨o, ho, rfl⟩, ?_⟩
      split_ifs
      · exact List.mem_cons_of_mem _ hc
      · exact hc

lemma mem_absorb {lh : List ℕ} {b c : ℕ} : c ∈ absorb lh b ↔ c = b ∨ c ∈ lh := by
  grind [absorb]

lemma nodup_absorb {lh : List ℕ} (h : lh.Nodup) (b : ℕ) : (absorb lh b).Nodup := by
  grind [absorb]

/-- `log_write` by a running operation reaches no panic but the full log. -/
lemma Inv.logWrite (h : Inv s) (hpc : s.pc p = .running) (b : ℕ) : Inv (logWrite s p b) := by
  have hp : p ∈ s.hist.running.map Op.proc := (h.running_pc p).mp hpc
  unfold GroupCommit.logWrite
  split_ifs with hfull hout
  · exact { h with sound := Or.inr rfl }
  · have hlen := List.length_pos_of_mem hp
    have ho := h.outstanding
    simp only [List.length_map] at hlen
    omega
  · exact { h with
      running_pc := fun q => by rw [History.write_proc]; exact h.running_pc q
      running_nodup := by rw [History.write_proc]; exact h.running_nodup
      outstanding := by simp only [History.write, List.length_map, h.outstanding]
      committing := fun hc => by
        have hnil := h.committing hc
        simp [hnil] at hp
      lh_nodup := nodup_absorb h.lh_nodup b
      lh_mem := fun c => by
        have hold := h.lh_mem c
        have hrun := History.mem_write_running (b := b) (c := c) hp
        simp only [List.mem_append, or_and_right, exists_or] at hold ⊢
        rw [mem_absorb, hold, hrun, or_assoc]
        rfl
      ids := by
        have hids := h.ids
        simp only [History.ops, List.map_append] at hids ⊢
        rw [History.write_id]
        exact hids }

/-- One operation leaves the running list when its process ends it. -/
lemma length_filter_ne_of_nodup {l : List (Op P)} (hnd : (l.map Op.proc).Nodup)
    (hp : p ∈ l.map Op.proc) : (l.filter fun o => o.proc ≠ p).length + 1 = l.length := by
  induction l with
  | nil => simp at hp
  | cons o l ih =>
    simp only [List.map_cons, List.nodup_cons] at hnd
    by_cases ho : o.proc = p
    · have hrest : l.filter (fun o => o.proc ≠ p) = l := by
        rw [List.filter_eq_self]
        grind
      rw [List.filter_cons_of_neg (by simpa using ho), hrest, List.length_cons]
    · rw [List.filter_cons_of_pos (by simpa using ho), List.length_cons, List.length_cons,
        ih hnd.2 (by grind)]

lemma Inv.finish (h : Inv s) (hpc : s.pc p = .running) {s' : State P}
    (hpan : s'.panicked = s.panicked) (hlh : s'.lh = s.lh) (hhist : s'.hist = s.hist.finish p)
    (hout : s'.outstanding = s.outstanding - 1)
    (hpcs : ∀ q, s'.pc q = .running ↔ q ≠ p ∧ s.pc q = .running)
    (hcomm : s'.committing = true → s'.outstanding = 0)
    (hcr : ∀ q, s'.pc q = .mustCommit ∨ s'.pc q = .committed → q = p ∧ s'.committing = true) :
    Inv s' := by
  have hp : p ∈ s.hist.running.map Op.proc := (h.running_pc p).mp hpc
  have hlen := length_filter_ne_of_nodup h.running_nodup hp
  have hcount : s'.outstanding = s'.hist.running.length := by
    have ho := h.outstanding
    rw [hhist, hout]
    simp only [History.finish]
    omega
  have hperm : (s.hist.running.filter (fun o => o.proc ≠ p) ++
      s.hist.running.filter (fun o => o.proc = p)).Perm s.hist.running := by
    have := List.filter_append_perm (fun o : Op P => decide (o.proc ≠ p)) s.hist.running
    simpa using this
  exact {
    sound := hpan ▸ h.sound
    running_pc := fun q => by
      have hq := h.running_pc q
      rw [hpcs q, hq, hhist]
      simp only [History.finish, List.mem_map, List.mem_filter, decide_eq_true_eq]
      constructor
      · rintro ⟨hne, o, ho, rfl⟩
        exact ⟨o, ⟨ho, hne⟩, rfl⟩
      · rintro ⟨o, ⟨ho, hne⟩, rfl⟩
        exact ⟨hne, o, ho, rfl⟩
    running_nodup := by
      rw [hhist]
      exact h.running_nodup.sublist (List.Sublist.map _ List.filter_sublist)
    outstanding := hcount
    committing := fun hc => by
      have hz := hcomm hc
      rw [hcount] at hz
      exact List.length_eq_zero_iff.mp (by exact_mod_cast hz)
    committer := fun q hq => (hcr q hq).2
    committer_unique := fun q r hq hr => (hcr q hq).1.trans (hcr r hr).1.symm
    lh_nodup := hlh ▸ h.lh_nodup
    lh_mem := fun b => by
      rw [hlh, h.lh_mem b, hhist]
      simp only [History.finish, ← List.append_assoc, (hperm.append_right s.hist.ended).mem_iff]
    ids := by
      rw [hhist]
      refine List.Perm.trans ?_ h.ids
      apply List.Perm.map
      simp only [History.ops, History.finish, ← List.append_assoc]
      exact (hperm.append_right _).append_right _
    commits := by rw [hhist]; exact h.commits }

lemma Inv.endOp (h : Inv s) (hpc : s.pc p = .running) : Inv (endOp s p) := by
  have hp : p ∈ s.hist.running.map Op.proc := (h.running_pc p).mp hpc
  have hcf : s.committing = false := by
    by_contra hc
    have hnil := h.committing (by simpa using hc)
    simp [hnil] at hp
  have hno := h.committer
  unfold GroupCommit.endOp
  dsimp only
  rw [if_neg (by simp [hcf])]
  split_ifs with hz
  all_goals refine h.finish hpc rfl rfl rfl rfl (fun q => ?_) ?_ fun q => ?_
  all_goals simp only [State.setPc, State.wakeup, Function.update_apply]
  all_goals grind

lemma Inv.commit (h : Inv s) (hpc : s.pc p = .mustCommit) : Inv (commit s p) := by
  have hc := h.committer p (Or.inl hpc)
  have hnil := h.committing hc
  have hrunning := h.running_pc
  have hunique := h.committer_unique
  refine { h with
    running_pc := fun q => ?_, committing := fun _ => hnil, committer := fun _ _ => hc,
    committer_unique := fun q r => ?_, lh_nodup := List.nodup_nil, lh_mem := fun b => ?mem
    ids := ?ids, commits := fun c hcm => ?commits }
  case mem => simp [GroupCommit.commit, History.commit, hnil]
  case ids => simpa [GroupCommit.commit, History.commit, History.ops] using h.ids
  case commits =>
    rcases List.mem_cons.mp hcm with rfl | hcm
    · have hmem := h.lh_mem
      rw [hnil, List.nil_append] at hmem
      exact ⟨h.lh_nodup, hmem⟩
    · exact h.commits c hcm
  all_goals simp only [GroupCommit.commit, State.setPc, History.commit, Function.update_apply]
  all_goals grind

lemma Inv.endCommit (h : Inv s) (hpc : s.pc p = .committed) : Inv (endCommit s p) := by
  have hrunning := h.running_pc
  have hunique := h.committer_unique p
  refine { h with
    running_pc := fun q => ?_, committing := ?_, committer := fun q => ?_,
    committer_unique := fun q r => ?_ }
  all_goals simp only [GroupCommit.endCommit, State.setPc, State.wakeup, Function.update_apply]
  all_goals grind

theorem inv_step (s : State P) (l : P × Act) (s' : State P) (h : Inv s)
    (hs : step s l = some s') : Inv s' := by
  obtain ⟨p, a⟩ := l
  obtain ⟨_, hcase⟩ := step_cases hs
  rcases hcase with ⟨_, hpc, rfl⟩ | ⟨b, _, hpc, rfl⟩ | ⟨_, hpc, rfl⟩ | ⟨_, hpc, rfl⟩ | ⟨_, hpc, rfl⟩
  · exact h.beginOp hpc
  · exact h.logWrite hpc b
  · exact h.endOp hpc
  · exact h.commit hpc
  · exact h.endCommit hpc

theorem inv_of_run {tr : List (P × Act)} (h : Runs.exec step init tr = some s) : Inv s :=
  Runs.invariant inv_step inv_init h

/-- Group commit keeps every operation in one transaction, in every reachable
state of any number of processes. While a commit is in progress nothing is
outstanding, `log_write` is not possible and `begin_op` only sleeps; the two
panics about a misused log are unreachable. The header never lists a block
twice, and when `commit()` starts it lists exactly what the operations that
ended since the previous commit have written, with none of them still running.
Every operation that ever began is running, waiting for the next commit, or part
of exactly one commit, which contains all its blocks. -/
theorem group_commit {tr : List (P × Act)} {s : State P} (h : Runs.exec step init tr = some s) :
    (s.committing = true → s.outstanding = 0 ∧ (∀ p b, step s (p, .logWrite b) = none) ∧
      ∀ p s', step s (p, .beginOp) = some s' → s' = s.setPc p .sleeping) ∧
    (s.panicked ≠ some .logCommitting ∧ s.panicked ≠ some .logWriteOutsideOfTrans) ∧
    s.lh.Nodup ∧
    (∀ p, s.pc p = .mustCommit →
      (∀ b, b ∈ s.lh ↔ ∃ o ∈ s.hist.ended, b ∈ o.blocks) ∧ s.hist.running = []) ∧
    (∀ c ∈ s.hist.commits, ∀ b, b ∈ c.blocks ↔ ∃ o ∈ c.ops, b ∈ o.blocks) ∧
    (s.hist.ops.map Op.id).Perm (List.range s.hist.next) := by
  have hinv := inv_of_run h
  refine ⟨?_, ?_, hinv.lh_nodup, ?_, fun c hc => (hinv.commits c hc).2, hinv.ids⟩
  · intro hc
    have hnil := hinv.committing hc
    refine ⟨by rw [hinv.outstanding, hnil]; rfl, ?_, ?_⟩
    · intro p b
      cases hs : step s (p, .logWrite b) with
      | none => rfl
      | some s' =>
        exfalso
        obtain ⟨_, hcase⟩ := step_cases hs
        have hrun : s.pc p = .running ∧ s' = logWrite s p b := by simpa using hcase
        simpa [hnil] using (hinv.running_pc p).mp hrun.1
    · intro p s' hs
      obtain ⟨_, hcase⟩ := step_cases hs
      have hs' : s' = beginOp s p := by
        rcases hcase with ⟨_, _, rfl⟩ | ⟨b, hb, _⟩ | ⟨hb, _⟩ | ⟨hb, _⟩ | ⟨hb, _⟩
        · rfl
        all_goals cases hb
      rw [hs', beginOp, if_pos hc]
  · rcases hinv.sound with hs | hs <;> simp [hs]
  · intro p hp
    have hnil := hinv.committing (hinv.committer p (Or.inl hp))
    have hmem := hinv.lh_mem
    rw [hnil, List.nil_append] at hmem
    exact ⟨hmem, hnil⟩

theorem group_commit_two_processes :
    ∃ s : State ℕ, Runs.exec step init [(0, .beginOp), (1, .beginOp), (0, .logWrite 7),
        (1, .logWrite 7), (1, .logWrite 9), (0, .endOp), (1, .endOp)] = some s ∧
      s.lh = [7, 9] ∧ s.hist.running = [] ∧ s.outstanding = 0 := by
  refine ⟨_, rfl, rfl, ?_, ?_⟩
  · exact ((group_commit (show Runs.exec step init [(0, .beginOp), (1, .beginOp), (0, .logWrite 7),
      (1, .logWrite 7), (1, .logWrite 9), (0, .endOp), (1, .endOp)] = _ from rfl)).2.2.2.1 1 rfl).2
  · exact ((group_commit (show Runs.exec step init [(0, .beginOp), (1, .beginOp), (0, .logWrite 7),
      (1, .logWrite 7), (1, .logWrite 9), (0, .endOp), (1, .endOp)] = _ from rfl)).1 rfl).1

end Xv6.GroupCommit
