import Xv6.Pipe

/-!
# Who may sleep on a pipe

Every exit of `pipewrite` and `piperead` that has changed the buffer wakes the other
side, except the one taken by a writer that finds itself killed: bytes that it has
appended since it took the lock stay unannounced. Apart from it, a reader sleeps only
on an empty pipe and a writer only on a full one.
-/
namespace Xv6.Pipe

open Function

variable {P : Type*} {s s' : State P} {p q : P}

/-- The places where a call holds `pi->lock`. -/
def Pc.Holding : Pc → Prop
  | .write l _ => l ≠ .acquire
  | .read l _ => l ≠ .acquire
  | .close _ => True
  | _ => False

/-- A writer that is about to append or to look for the next byte. -/
def Pc.InLoop : Pc → Prop
  | .write l _ => l = .test ∨ l = .body
  | _ => False

instance (pc : Pc) : Decidable pc.InLoop := by
  unfold Pc.InLoop
  split <;> infer_instance

/-- No process is killed in the loop of `pipewrite`. -/
def NoKillInLoop (s : State P) (a : P × Act) : Prop :=
  match a.2 with
  | .kill => ¬ (s.pc a.1).InLoop
  | _ => True

instance (s : State P) (a : P × Act) : Decidable (NoKillInLoop s a) := by
  unfold NoKillInLoop
  split <;> infer_instance

/-- The process is going to wake the readers before it releases the lock. -/
def WakesReaders (s : State P) (p : P) : Prop :=
  match s.pc p with
  | .write .test _ => s.readopen = true ∧ s.killed p = false
  | .write .body _ => True
  | .write .done _ => True
  | _ => False

/-- The process is going to wake the writers before it releases the lock. -/
def WakesWriters (s : State P) (p : P) : Prop :=
  match s.pc p with
  | .read .copy _ => True
  | .read .done _ => True
  | _ => False

/-- A process sleeps only for a reason, or is about to be woken. -/
structure Sleepers (s : State P) : Prop where
  locked : ∀ p, (s.pc p).Holding ↔ s.lock = some p
  readers : ∀ q, s.asleep q = some .nread →
    (Empty s ∧ s.writeopen = true) ∨ ∃ p, WakesReaders s p
  writers : ∀ q, s.asleep q = some .nwrite →
    (Full s ∧ s.readopen = true) ∨ ∃ p, WakesWriters s p
  body : ∀ p c, s.pc p = .write .body c → s.readopen = true ∧ s.killed p = false
  readSleep : ∀ p c, s.pc p = .read .sleep c → Empty s ∧ s.writeopen = true
  writeSleep : ∀ p c, s.pc p = .write .sleep c → Full s ∧ s.readopen = true

lemma WakesReaders.holding (h : WakesReaders s p) : (s.pc p).Holding := by
  unfold WakesReaders at h
  split at h <;> simp_all [Pc.Holding]

lemma WakesWriters.holding (h : WakesWriters s p) : (s.pc p).Holding := by
  unfold WakesWriters at h
  split at h <;> simp_all [Pc.Holding]

namespace Sleepers

attribute [local grind =] Pc.Holding Pc.InLoop

lemma others (h : Sleepers s) (hl : s.lock = none ∨ s.lock = some p) (hq : q ≠ p) :
    ¬ (s.pc q).Holding := by
  intro hh
  have hs := (h.locked q).mp hh
  obtain hl | hl := hl
  · rw [hl] at hs
    cases hs
  · rw [hl] at hs
    exact hq (Option.some.inj hs).symm

/-- A sleeping reader has its reason when the holder owes no wakeup. -/
lemma reader_reason (h : Sleepers s) (hl : s.lock = none ∨ s.lock = some p)
    (hw : ¬ WakesReaders s p) (hq : s.asleep q = some .nread) :
    Empty s ∧ s.writeopen = true := by
  obtain hr | ⟨p', hp'⟩ := h.readers q hq
  · exact hr
  · by_cases hne : p' = p
    · exact absurd (hne ▸ hp') hw
    · exact absurd hp'.holding (h.others hl hne)

lemma writer_reason (h : Sleepers s) (hl : s.lock = none ∨ s.lock = some p)
    (hw : ¬ WakesWriters s p) (hq : s.asleep q = some .nwrite) :
    Full s ∧ s.readopen = true := by
  obtain hr | ⟨p', hp'⟩ := h.writers q hq
  · exact hr
  · by_cases hne : p' = p
    · exact absurd (hne ▸ hp') hw
    · exact absurd hp'.holding (h.others hl hne)

/-- With the lock free, every sleeper has its reason. -/
lemma of_free (h : Sleepers s) (hl : s.lock = none) :
    (s.asleep q = some .nread → Empty s ∧ s.writeopen = true) ∧
      (s.asleep q = some .nwrite → Full s ∧ s.readopen = true) := by
  have hnot : ¬ (s.pc q).Holding := fun hq => by
    rw [h.locked q, hl] at hq
    cases hq
  exact ⟨h.reader_reason (.inl hl) fun hw => hnot hw.holding,
    h.writer_reason (.inl hl) fun hw => hnot hw.holding⟩

/-- The invariant reads the program counters of the holder only. -/
lemma of_holders (h : Sleepers s)
    (hpc : ∀ q, (s.pc q).Holding ∨ (s'.pc q).Holding → s'.pc q = s.pc q)
    (hlock : s'.lock = s.lock) (hasleep : s'.asleep = s.asleep) (hkilled : s'.killed = s.killed)
    (hr : s'.nread = s.nread) (hw : s'.nwrite = s.nwrite) (hro : s'.readopen = s.readopen)
    (hwo : s'.writeopen = s.writeopen) : Sleepers s' := by
  cases h
  constructor
  all_goals simp only [WakesReaders, WakesWriters, Empty, Full, hlock, hasleep, hkilled, hr, hw, hro,
    hwo] at *
  all_goals grind

variable [DecidableEq P]

/-- What has to be checked when the process that holds or takes the lock moves on. -/
lemma move (h : Sleepers s) (pc : Pc) (hl : s.lock = none ∨ s.lock = some p)
    (hpc : s'.pc = update s.pc p pc)
    (hlock : pc.Holding ∧ s'.lock = some p ∨ ¬ pc.Holding ∧ s'.lock = none)
    (hreaders : ∀ q, s'.asleep q = some .nread →
      (Empty s' ∧ s'.writeopen = true) ∨ WakesReaders s' p)
    (hwriters : ∀ q, s'.asleep q = some .nwrite →
      (Full s' ∧ s'.readopen = true) ∨ WakesWriters s' p)
    (hbody : ∀ c, pc = .write .body c → s'.readopen = true ∧ s'.killed p = false)
    (hread : ∀ c, pc = .read .sleep c → Empty s' ∧ s'.writeopen = true)
    (hwrite : ∀ c, pc = .write .sleep c → Full s' ∧ s'.readopen = true) : Sleepers s' := by
  have hother := fun q => h.others (q := q) hl
  constructor
  case readers => exact fun q hq => (hreaders q hq).imp_right fun hw => ⟨p, hw⟩
  case writers => exact fun q hq => (hwriters q hq).imp_right fun hw => ⟨p, hw⟩
  all_goals simp only [hpc, update_apply]
  all_goals grind

lemma acquire {pc : Pc} (h : Sleepers s) (hpc : pc.Holding)
    (hbody : ∀ c, pc ≠ .write .body c) (hread : ∀ c, pc ≠ .read .sleep c)
    (hwrite : ∀ c, pc ≠ .write .sleep c) (hs : Pipe.acquire s p pc = some s') :
    Sleepers s' := by
  unfold Pipe.acquire at hs
  split at hs
  · next hl =>
    obtain rfl := Option.some.inj hs
    refine h.move _ (.inl hl) rfl (.inl ⟨hpc, rfl⟩) (fun q hq => ?_) (fun q hq => ?_)
      (fun c hc => absurd hc (hbody c)) (fun c hc => absurd hc (hread c))
      fun c hc => absurd hc (hwrite c)
    · exact .inl ((h.of_free hl).1 hq)
    · exact .inl ((h.of_free hl).2 hq)
  · cases hs

/-- A turn of the call of a process: it takes the lock, or it has it and goes on. -/
lemma turn (h : Sleepers s) (hs : Pipe.turn s p = some s') : Sleepers s' := by
  have hl : (s.pc p).Holding → s.lock = some p := (h.locked p).mp
  have hreader := fun hh q => h.reader_reason (q := q) (.inr (hl hh))
  have hwriter := fun hh q => h.writer_reason (q := q) (.inr (hl hh))
  have hbody := h.body p
  have hread := h.readSleep p
  have hwrite := h.writeSleep p
  simp only [WakesReaders, WakesWriters] at hreader hwriter
  rcases hpc : s.pc p with _ | ⟨_ | _, c⟩ | ⟨_ | _, c⟩ | writable | ⟨_ | _⟩
  all_goals simp only [Pipe.turn, Pipe.pipewrite, Pipe.piperead, hpc, Pc.Holding] at *
  any_goals exact h.acquire (by simp [Pc.Holding]) (by simp) (by simp) (by simp) hs
  all_goals cases hs
  -- the sleepers that could have lost their reason are woken
  all_goals repeat' split
  all_goals refine h.move _ (.inr (hl (by simp))) rfl ?_ ?_ ?_ ?_ ?_ ?_
  all_goals simp only [State.goto, writeReturn, append, remove, release, wakeup, Pipe.sleep,
    Pipe.pipeclose, closeEnd, WakesReaders, WakesWriters, Empty, Full, update_apply] at *
  all_goals grind

lemma call {pc : Pc} (h : Sleepers s) (hpc : ¬ pc.Holding) (hs : Pipe.call s p pc = some s') :
    Sleepers s' := by
  unfold Pipe.call at hs
  split at hs
  · next hidle =>
    obtain rfl := Option.some.inj hs
    refine h.of_holders (fun q hq => ?_) rfl rfl rfl rfl rfl rfl rfl
    by_cases hqp : q = p
    · subst hqp
      rw [hidle] at hq
      simp [Pc.Holding, State.goto] at hq
      exact absurd hq hpc
    · exact update_of_ne hqp _ _
  · cases hs

lemma kkill (h : Sleepers s) (hp : ¬ (s.pc p).InLoop) : Sleepers (Pipe.kkill s p) := by
  cases h
  constructor
  all_goals simp only [Pipe.kkill, WakesReaders, WakesWriters, Empty, Full, update_apply] at *
  all_goals grind

/-- Every step but a kill in the loop of `pipewrite` keeps the sleepers' reasons. -/
theorem step {a : P × Act} (h : Sleepers s) (hc : NoKillInLoop s a) (hs : Pipe.step s a = some s') :
    Sleepers s' := by
  obtain ⟨p, act⟩ := a
  unfold Pipe.step at hs
  split at hs
  · cases hs
  cases act with
  | write src n | read dst n | close writable => exact h.call (by simp [Pc.Holding]) hs
  | kill =>
    obtain rfl := Option.some.inj hs
    exact h.kkill hc
  | turn =>
    dsimp only at hs
    split at hs
    · exact h.turn hs
    · cases hs

end Sleepers

lemma sleepers_pipealloc (junk : ℕ → UInt8) (killed : P → Bool) :
    Sleepers (pipealloc junk killed) := by
  refine ⟨fun p => ?_, ?_, ?_, ?_, ?_, ?_⟩ <;> simp [pipealloc, Pc.Holding]

variable [DecidableEq P]

/-- In a run in which no process is killed in the loop of `pipewrite`, whenever the
lock is free a reader sleeps only on an empty pipe with a write end, and a writer only
on a full pipe with a read end. -/
theorem sleepers_not_stranded (junk : ℕ → UInt8) (killed : P → Bool) (run : List (P × Act))
    (hrun : Runs.Admitted step NoKillInLoop (pipealloc junk killed) run)
    (h : Runs.exec step (pipealloc junk killed) run = some s) (hl : s.lock = none) (q : P) :
    (s.asleep q = some .nread → s.nread = s.nwrite ∧ s.writeopen = true) ∧
      (s.asleep q = some .nwrite →
        s.nwrite = s.nread + BitVec.ofNat 32 PIPESIZE ∧ s.readopen = true) :=
  (Runs.invariant_of_admitted (fun _ _ _ hs hc ht => Sleepers.step hs hc ht)
    (sleepers_pipealloc junk killed) hrun h).of_free hl

/-- A reader sleeps on the empty pipe and a writer of one byte wakes it. -/
def announcedRun : List (Bool × Act) :=
  [(true, .read (fun _ => true) 1), (true, .turn), (true, .turn), (true, .turn),
    (false, .write (fun _ => some 7) 1), (false, .turn), (false, .turn), (false, .turn),
    (false, .turn), (false, .turn)]

theorem sleepers_not_stranded_announced :
    ∃ s, Runs.exec step (pipealloc (fun _ => 0) fun _ => false) announcedRun = some s ∧
      s.lock = none ∧ (s.asleep true = some .nread → s.nread = s.nwrite ∧ s.writeopen = true) := by
  have hrun : Runs.Admitted step NoKillInLoop (pipealloc (fun _ => 0) fun _ => false)
      announcedRun := by decide +kernel
  have hfree : (Runs.exec step (pipealloc (fun _ => 0) fun _ => false) announcedRun).map
      State.lock = some none := by decide +kernel
  obtain ⟨s, hs, hl⟩ := Option.map_eq_some_iff.mp hfree
  exact ⟨s, hs, hl, (sleepers_not_stranded _ _ _ hrun hs hl true).1⟩

/-- A reader sleeps on the empty pipe. A writer of two bytes appends the first, is
killed, and leaves at the next turn of its loop. -/
def strandedRun : List (Bool × Act) :=
  [(true, .read (fun _ => true) 1), (true, .turn), (true, .turn), (true, .turn),
    (false, .write (fun _ => some 7) 2), (false, .turn), (false, .turn), (false, .turn),
    (false, .kill), (false, .turn)]

/-- The lock is free and the reader sleeps, but there is a byte to read. -/
theorem reader_stranded :
    ∃ s, Runs.exec step (pipealloc (fun _ => 0) fun _ => false) strandedRun = some s ∧
      s.lock = none ∧ s.asleep true = some .nread ∧ s.nread ≠ s.nwrite ∧ s.freed = false := by
  have h : (Runs.exec step (pipealloc (fun _ => 0) fun _ => false) strandedRun).map
      (fun s => (s.lock, s.asleep true, decide (s.nread = s.nwrite), s.freed)) =
        some (none, some .nread, false, false) := by decide +kernel
  obtain ⟨s, hs, he⟩ := Option.map_eq_some_iff.mp h
  simp only [Prod.mk.injEq, decide_eq_false_iff_not] at he
  exact ⟨s, hs, he.1, he.2.1, he.2.2.1, he.2.2.2⟩

end Xv6.Pipe
