import Xv6.ProcFamily

/-!
# Every child is waited for once

The processes that ever existed are numbered in the order of `allocproc`. A slot that
is in use holds one of them; it leaves the table when a `kwait` of its parent, or of
the first process after its parent has exited, returns it with its pid and status.
-/
namespace Xv6.ProcTable

open Function

variable {s s' : State} {p q : Slot} {a : Act}

/-- Process number `id` is the one to wait for a process: it forked it, or it is the
first process and the forker has called `kexit`. -/
def Guardian (h : History) (b : Birth) (id : ℕ) : Prop :=
  b.forker = some id ∨ (id = 0 ∧ ∃ f, b.forker = some f ∧ f ∈ h.exits.map Prod.fst)

/-- A return of `kwait` names a process that exited, with its pid and its status, to
its guardian. -/
def Reaped (h : History) (r : Reap) : Prop :=
  ∃ b, h.births[r.child]? = some b ∧ r.pid = b.pid ∧
    (∃ status, (r.child, status) ∈ h.exits ∧ (r.xstate = none ∨ r.xstate = some status)) ∧
    Guardian h b r.caller

/-- The argument of the `kexit` that a process is in. -/
def Pc.status : Pc → Option Int32
  | .exitAcquire status | .reparent status _ | .wakeup status _ _ _ | .zombie status => some status
  | _ => none

structure Lineage (s : State) : Prop where
  init : s.born initproc = 0
  free : ∀ p, (s.proc p).state = .unused → (s.proc p).parent = none
  number : ∀ p, (s.proc p).state ≠ .unused →
    ∃ b, s.hist.births[s.born p]? = some b ∧ b.pid = (s.proc p).pid
  inj : ∀ p q, (s.proc p).state ≠ .unused → (s.proc q).state ≠ .unused →
    s.born p = s.born q → p = q
  status : ∀ p status, (s.pc p).status = some status → (s.born p, status) ∈ s.hist.exits
  zombie : ∀ p, (s.proc p).state = .zombie → (s.born p, (s.proc p).xstate) ∈ s.hist.exits
  alive : ∀ p, (s.proc p).state ≠ .unused → ¬ (s.pc p).Exiting →
    s.born p ∉ s.hist.exits.map Prod.fst
  exits : (s.hist.exits.map Prod.fst).Nodup
  exit_lt : ∀ x ∈ s.hist.exits, x.1 < s.hist.births.length
  parent : ∀ c p, (s.proc c).parent = some p →
    ∃ b, s.hist.births[s.born c]? = some b ∧ Guardian s.hist b (s.born p)
  forking : ∀ p np, s.pc p = .forkParent np →
    ∃ b, s.hist.births[s.born np]? = some b ∧ b.forker = some (s.born p)
  reaped : ∀ r ∈ s.hist.reaps, Reaped s.hist r
  gone : ∀ r ∈ s.hist.reaps, ∀ p, (s.proc p).state ≠ .unused → s.born p ≠ r.child
  once : (s.hist.reaps.map Reap.child).Nodup
  forked : ∀ id ∈ s.hist.forked, id ∈ s.hist.reaps.map Reap.child ∨
    ∃ p, (s.proc p).state ≠ .unused ∧ s.born p = id

theorem lineage_userinit : Lineage userinit := by
  constructor
  all_goals simp only [userinit, Proc.free, Pc.status, update_apply]
  case number => exact fun p hp => ⟨{ pid := 1, forker := none }, rfl, by grind⟩
  all_goals grind

namespace Lineage

lemma born_lt (h : Lineage s) (hp : (s.proc p).state ≠ .unused) :
    s.born p < s.hist.births.length := by
  obtain ⟨b, hb, -⟩ := h.number p hp
  exact (List.getElem?_eq_some_iff.mp hb).1

attribute [local grind =] Pc.Exiting Pc.status Pc.forking Guardian Reaped Live

lemma goto (h : Lineage s) (pc : Pc)
    (hstatus : ∀ status, pc.status = some status → (s.born p, status) ∈ s.hist.exits)
    (halive : ¬ pc.Exiting → ¬ (s.pc p).Exiting ∨ (s.proc p).state = .unused)
    (hfork : ∀ np, pc = .forkParent np →
      ∃ b, s.hist.births[s.born np]? = some b ∧ b.forker = some (s.born p)) :
    Lineage (s.goto p pc) := by
  have hs := h.status
  have ha := h.alive
  have hf := h.forking
  refine { h with status := ?_, alive := ?_, forking := ?_ }
  all_goals simp only [State.goto, update_apply]
  all_goals grind

/-- A slot changes its state, but neither becomes free nor a zombie. -/
lemma modifyProc (h : Lineage s) (f : Proc → Proc)
    (hfree : (f (s.proc q)).state = .unused ↔ (s.proc q).state = .unused)
    (hpid : (f (s.proc q)).pid = (s.proc q).pid)
    (hparent : (f (s.proc q)).parent = (s.proc q).parent)
    (hzombie : (f (s.proc q)).state = .zombie → (s.proc q).state = .zombie ∧
      (f (s.proc q)).xstate = (s.proc q).xstate) : Lineage (s.modifyProc q f) := by
  cases h
  constructor
  all_goals simp only [State.modifyProc, update_apply]
  all_goals first | assumption | grind

lemma setWaitLock {holder : Option Slot} (h : Lineage s) : Lineage (s.setWaitLock holder) :=
  { h with }

lemma of_hist (h : Lineage s) {hist : History} (hbirths : hist.births = s.hist.births)
    (hexits : hist.exits = s.hist.exits) (hreaps : hist.reaps = s.hist.reaps)
    (hforked : hist.forked = s.hist.forked) : Lineage { s with hist := hist } := by
  cases h
  constructor
  all_goals simp only [hbirths, hexits, hreaps, hforked, Reaped, Guardian] at *
  all_goals assumption

lemma setState (h : Lineage s) (st : ProcState) (hfree : st = .unused ↔ (s.proc q).state = .unused)
    (hz : st ≠ .zombie) : Lineage (s.setState q st) :=
  (h.modifyProc (q := q) (fun v => { v with state := st }) hfree rfl rfl
    fun he => absurd he hz).of_hist rfl rfl rfl rfl

lemma exit {status : Int32} (h : Lineage s) (hr : (s.proc p).state = .running)
    (hu : s.pc p = .user) :
    Lineage { s.goto p (.exitAcquire status) with
      hist := { s.hist with exits := s.hist.exits ++ [(s.born p, status)] } } := by
  have hlt := h.born_lt (p := p) (by simp [hr])
  cases h
  constructor
  all_goals simp only [State.goto, update_apply, List.map_append, List.nodup_append]
  all_goals first | assumption | grind

/-- `allocproc` starts the next process. -/
lemma allocproc {np : Slot} (h : Lineage s) (hc : Control s) (hf : Family s)
    (hfree : (s.proc np).state = .unused) : Lineage (allocproc s p np) := by
  have hlt : ∀ q, (s.proc q).state ≠ .unused → s.born q < s.hist.births.length := fun q hq =>
    h.born_lt hq
  have hinit := hc.init
  have hforking := hc.forking
  have halive := hf.alive
  cases h
  constructor
  all_goals simp only [ProcTable.allocproc, State.setState, State.modifyProc, update_apply, if_true]
  all_goals first | assumption | grind

/-- A slot is freed: its process was never forked, or `kwait` returns it. -/
lemma freeproc (h : Lineage s) (R : List Reap)
    (hR : R = s.hist.reaps ∧ s.born q ∉ s.hist.forked ∨
      ∃ r, R = s.hist.reaps ++ [r] ∧ r.child = s.born q ∧ (s.proc q).state ≠ .unused ∧
        Reaped s.hist r) :
    Lineage { freeproc s q with hist := { (freeproc s q).hist with reaps := R } } := by
  cases h
  constructor
  all_goals simp only [ProcTable.freeproc, State.setState, State.modifyProc, update_apply, if_true,
    Proc.free]
  all_goals first | assumption | grind

lemma setParent {np y : Slot} (h : Lineage s) (hfree : (s.proc np).state ≠ .unused)
    (hg : ∃ b, s.hist.births[s.born np]? = some b ∧ Guardian s.hist b (s.born y)) :
    Lineage (s.modifyProc np fun v => { v with parent := some y }) := by
  cases h
  constructor
  all_goals simp only [State.modifyProc, update_apply]
  all_goals first | assumption | grind

lemma becomeZombie {status : Int32} (h : Lineage s) (hr : (s.proc p).state = .running)
    (hpc : s.pc p = .zombie status) : Lineage (becomeZombie s p status) := by
  cases h
  constructor
  all_goals simp only [ProcTable.becomeZombie, State.setState, State.modifyProc, State.goto,
    State.setWaitLock, update_apply, if_true]
  all_goals first | assumption | grind

lemma not_forked (h : Lineage s) {id : ℕ} (hid : s.hist.births.length ≤ id) :
    id ∉ s.hist.forked := by
  intro hf
  obtain hr | ⟨q, hq, he⟩ := h.forked id hf
  · obtain ⟨r, hr, he⟩ := List.mem_map.mp hr
    obtain ⟨b, hb, -⟩ := h.reaped r hr
    have := (List.getElem?_eq_some_iff.mp hb).1
    omega
  · have := h.born_lt hq
    omega

theorem step (h : Lineage s) (hc : Control s) (hf : Family s) (hs : Section s p a s') :
    Lineage s' := by
  -- a move within `kexit`
  have hexit : ∀ t : State, Lineage t → t.born = s.born → t.hist.exits = s.hist.exits →
      ∀ (pc : Pc) (status : Int32), (s.pc p).status = some status → pc.status = some status →
      pc.Exiting → (∀ np, pc ≠ .forkParent np) → Lineage (t.goto p pc) := by
    intro t ht hb he pc status hold hnew hex hnf
    refine ht.goto pc (fun st hst => ?_) (fun hne => absurd hex hne) fun np hnp => absurd hnp (hnf np)
    rw [hnew] at hst
    cases hst
    rw [hb, he]
    exact h.status p status hold
  -- a move outside of `kexit`
  have hmove : ∀ t : State, Lineage t → ∀ pc : Pc, pc.status = none → ¬ (t.pc p).Exiting →
      (∀ np, pc ≠ .forkParent np) → Lineage (t.goto p pc) := by
    intro t ht pc hst hex hnf
    refine ht.goto pc (fun st he => ?_) (fun _ => .inl hex) fun np hnp => absurd hnp (hnf np)
    rw [hst] at he
    cases he
  cases hs with
  | call pc hr hu hpc =>
    obtain rfl | ⟨addr, rfl⟩ | ⟨pid, -, rfl⟩ := hpc <;>
      exact hmove s h _ rfl (by simp [hu, Pc.Exiting]) (by simp)
  | exit status hp hr hu => exact h.exit hr hu
  | scanNext pc hr hpc =>
    obtain ⟨i, hpc, rfl | rfl⟩ | ⟨pid, i, hpc, rfl | rfl⟩ := hpc <;>
      exact hmove s h _ rfl (by simp [hpc, Pc.Exiting]) (by simp)
  | forkFound np hr hpc hfree =>
    have hne : p ≠ np := fun he => by simp [← he, hr] at hfree
    refine (h.allocproc hc hf hfree).goto _ (by simp [Pc.status]) (fun _ => .inl ?_) fun np' hnp => ?_
    · simp [hne, hpc, Pc.Exiting]
    · cases hnp
      exact ⟨{ pid := s.nextpid, forker := some (s.born p) }, by simp, by simp [hne]⟩
  | forkFailed np hr hpc hfree =>
    have hne : p ≠ np := fun he => by simp [← he, hr] at hfree
    have ha := h.allocproc (p := p) hc hf hfree
    have hnew : (ProcTable.allocproc s p np).born np ∉ (ProcTable.allocproc s p np).hist.forked := by
      rw [allocproc_born, if_pos rfl, allocproc_hist]
      exact h.not_forked le_rfl
    exact hmove _ (ha.freeproc _ (.inl ⟨rfl, hnew⟩)) _ rfl
      (by
        show ¬ ((ProcTable.allocproc s p np).pc p).Exiting
        simp [hne, hpc, Pc.Exiting]) (by simp)
  | forkParent np hr hpc hl =>
    have hu := hc.forking p np (by rw [hpc]; rfl)
    obtain ⟨b, hb, hfk⟩ := h.forking p np hpc
    exact hmove _ (h.setParent (y := p) (by simp [hu]) ⟨b, hb, .inl hfk⟩) _ rfl
      (by simp [hpc, Pc.Exiting]) (by simp)
  | forkRun np hr hpc =>
    have hu := hc.forking p np (by rw [hpc]; rfl)
    have hg := hmove _ (h.setState (q := np) .runnable (by simp [hu]) (by simp)) .user rfl
      (by simp [hpc, Pc.Exiting]) (by simp)
    refine { hg with forked := fun id hid => ?_ }
    obtain hid | hid := List.mem_append.mp hid
    · exact hg.forked id hid
    · refine .inr ⟨np, ?_, (List.mem_singleton.mp hid).symm⟩
      show ((s.setState np .runnable).proc np).state ≠ .unused
      simp
  | exitAcquire status hr hpc hl =>
    exact hexit (s.setWaitLock (some p)) h.setWaitLock rfl rfl _ status (by rw [hpc]; rfl) rfl trivial (by simp)
  | reparentChild status pp hr hpc hparent =>
    have hex := h.status p status (by rw [hpc]; rfl)
    have hpp : (s.proc pp).state ≠ .unused := fun hu => by simp [h.free pp hu] at hparent
    obtain ⟨b, hb, hg⟩ := h.parent pp p hparent
    refine hexit _ (h.setParent (y := initproc) hpp ⟨b, hb, .inr ⟨h.init, ?_⟩⟩) rfl rfl _ status
      (by rw [hpc]; rfl) rfl trivial (by simp)
    obtain hg | ⟨-, hg⟩ := hg
    · exact ⟨s.born p, hg, List.mem_map_of_mem hex⟩
    · exact hg
  | reparentNext status _ _ hpc | reparentEnd status _ _ hpc | wakeupMiss status _ _ _ _ hpc =>
    exact hexit _ h rfl rfl _ status (by rw [hpc]; rfl) rfl trivial (by simp)
  | wakeupHit status chan q next hr hpc hq hsleep hchan =>
    exact hexit _ (h.setState (q := q) .runnable (by simp [hsleep]) (by simp)) rfl rfl _ status
      (by rw [hpc]; rfl) rfl trivial (by simp)
  | wakeupEnd status chan j next hr hpc hj =>
    cases next <;> exact hexit _ h rfl rfl _ status (by rw [hpc]; rfl) rfl trivial (by simp)
  | zombie status hr hpc => exact h.becomeZombie hr hpc
  | waitAcquire addr hr hpc hl =>
    exact hmove _ h.setWaitLock _ rfl (by simp [hpc, Pc.Exiting]) (by simp)
  | waitReturn hr hpc =>
    refine hmove _ h.setWaitLock _ rfl ?_ (by simp)
    obtain ⟨_, _, _, hpc⟩ | ⟨_, hpc⟩ := hpc <;> simp [hpc, Pc.Exiting]
  | reap addr pp havekids hr hpc hparent hzombie =>
    have hlive : (s.proc pp).state ≠ .unused := by simp [hzombie]
    obtain ⟨b, hb, hg⟩ := h.parent pp p hparent
    obtain ⟨b', hb', hpid⟩ := h.number pp hlive
    obtain rfl : b = b' := Option.some.inj (hb.symm.trans hb')
    have hr' : Reaped s.hist ⟨s.born p, s.born pp, (s.proc pp).pid,
        if addr then some (s.proc pp).xstate else none⟩ := by
      refine ⟨b, hb, hpid.symm, ⟨(s.proc pp).xstate, h.zombie pp hzombie, ?_⟩, hg⟩
      cases addr
      · exact .inl rfl
      · exact .inr rfl
    exact hmove _ (h.freeproc _ (.inr ⟨_, rfl, rfl, hlive, hr'⟩)).setWaitLock _ rfl
      (by
        show ¬ (s.pc p).Exiting
        simp [hpc, Pc.Exiting]) (by simp)
  | waitNext _ _ _ _ _ hpc | waitEnd _ _ _ _ hpc | waitAlive _ _ hpc =>
    exact hmove _ h _ rfl (by simp [hpc, Pc.Exiting]) (by simp)
  | waitSleep addr hr hpc =>
    have hm := h.modifyProc (q := p) (fun v => { v with chan := some (.proc p) }) Iff.rfl rfl rfl
      fun hz => ⟨hz, rfl⟩
    exact hmove _ (hm.setState (q := p) .sleeping (by simp [hr]) (by simp)).setWaitLock _ rfl
      (by simp [hpc, Pc.Exiting]) (by simp)
  | killHit pid q hr hpc hpid =>
    have hm := h.modifyProc (q := q) (fun v => { v with killed := true }) Iff.rfl rfl rfl
      fun hz => ⟨hz, rfl⟩
    rw [killScan, if_pos hpid]
    dsimp only
    split
    · next hsleep =>
      exact (hmove _ (hm.setState (q := q) .runnable (by simp [hsleep]) (by simp)) .user rfl
        (by simp [hpc, Pc.Exiting]) (by simp)).of_hist rfl rfl rfl rfl
    · exact (hmove _ hm .user rfl (by simp [hpc, Pc.Exiting]) (by simp)).of_hist rfl rfl rfl rfl
  | setkilled hr hu =>
    exact (h.modifyProc (q := p) (fun v => { v with killed := true }) Iff.rfl rfl rfl
      fun hz => ⟨hz, rfl⟩).of_hist rfl rfl rfl rfl
  | run hr =>
    have hm := h.modifyProc (q := p) (fun v => { v with chan := none }) Iff.rfl rfl rfl
      fun hz => ⟨hz, rfl⟩
    exact hm.setState _ (by simp [hr]) (by simp)
  | yield hr hpc => exact h.setState _ (by simp [hr]) (by simp)
  | sleep c hr hu =>
    have hm := h.modifyProc (q := p) (fun v => { v with chan := some (.other c) }) Iff.rfl rfl rfl
      fun hz => ⟨hz, rfl⟩
    exact hm.setState _ (by simp [hr]) (by simp)
  | wakeup c hsleep hchan => exact h.setState _ (by simp [hsleep]) (by simp)

end Lineage

/-- The state changes of a process. -/
def Allowed : ProcState → ProcState → Prop
  | .unused, .used => True
  | .used, .runnable => True
  | .used, .unused => True
  | .runnable, .running => True
  | .running, .runnable => True
  | .running, .sleeping => True
  | .running, .zombie => True
  | .sleeping, .runnable => True
  | .zombie, .unused => True
  | _, _ => False

/-- What is added to the record of changes is allowed, and the record is complete. -/
structure Transition (s s' : State) : Prop where
  moves : ∀ m ∈ s'.hist.moves, m ∈ s.hist.moves ∨ Allowed m.2.1 m.2.2
  state : ∀ q, (s'.proc q).state = (s.proc q).state ∨ Allowed (s.proc q).state (s'.proc q).state

namespace Transition

attribute [local grind =] Allowed Pc.forking

theorem of_section (hc : Control s) (hs : Section s p a s') : Transition s s' := by
  have hforking := hc.forking
  cases hs
  all_goals constructor
  all_goals simp only [State.goto, ProcTable.allocproc, ProcTable.freeproc, State.setState,
    State.modifyProc, State.setWaitLock, ProcTable.forkRun, ProcTable.becomeZombie, ProcTable.reap,
    ProcTable.waitSleep, killScan, apply_ite State.proc, apply_ite State.hist, Proc.free,
    update_apply, if_true]
  all_goals grind

end Transition

structure Protocol (s : State) : Prop where
  control : Control s
  family : Family s
  lineage : Lineage s
  moves : ∀ m ∈ s.hist.moves, Allowed m.2.1 m.2.2

theorem protocol_userinit : Protocol userinit where
  control := control_userinit
  family := family_userinit
  lineage := lineage_userinit
  moves := by
    intro m hm
    simp only [userinit, List.mem_cons, List.not_mem_nil, or_false] at hm
    obtain rfl | rfl := hm <;> trivial

theorem Protocol.step {a : Slot × Act} (h : Protocol s) (hs : ProcTable.step s a = some s') :
    Protocol s' := by
  have hsec := section_of_step hs
  refine ⟨h.control.step hsec, h.family.step h.control hsec,
    h.lineage.step h.control h.family hsec, fun m hm => ?_⟩
  obtain hm | hm := (Transition.of_section h.control hsec).moves m hm
  · exact h.moves m hm
  · exact hm

/-- A child that `kfork` started is in the table and was not returned by `kwait`, or has
left it and was returned by exactly one. -/
def ReturnedOnce (s : State) (id : ℕ) : Prop :=
  ((∃ p, (s.proc p).state ≠ .unused ∧ s.born p = id) ∧ (s.hist.reaps.map Reap.child).count id = 0) ∨
    ((∀ p, (s.proc p).state ≠ .unused → s.born p ≠ id) ∧
      (s.hist.reaps.map Reap.child).count id = 1)

lemma Protocol.returnedOnce (h : Protocol s) {id : ℕ} (hid : id ∈ s.hist.forked) :
    ReturnedOnce s id := by
  by_cases hr : id ∈ s.hist.reaps.map Reap.child
  · refine .inr ⟨fun p hp he => ?_, List.count_eq_one_of_mem h.lineage.once hr⟩
    obtain ⟨r, hr, hrc⟩ := List.mem_map.mp hr
    exact h.lineage.gone r hr p hp (he.trans hrc.symm)
  · exact .inl ⟨(h.lineage.forked id hid).resolve_left hr, List.count_eq_zero_of_not_mem hr⟩

/-- In every run from the table that `userinit` leaves:
states change only as allowed; every forked child is returned by exactly one `kwait`,
unless it is still in the table; what a `kwait` returns is the pid and the status of a
process that exited, to its parent or, once that has exited, to the first process; a
`kwait` whose `copyout` fails leaves the table alone; and while `wait_lock` is free,
parents are neither free nor zombies and nobody sleeps in `kwait` with a zombie child. -/
theorem fork_exit_wait_protocol (run : List (Slot × Act))
    (h : Runs.exec step userinit run = some s) :
    ((∀ m ∈ s.hist.moves, Allowed m.2.1 m.2.2) ∧
      ∀ a s', step s a = some s' → ∀ p, (s'.proc p).state = (s.proc p).state ∨
        Allowed (s.proc p).state (s'.proc p).state) ∧
    ((∀ id ∈ s.hist.forked, ReturnedOnce s id) ∧
      (∀ r ∈ s.hist.reaps, Reaped s.hist r) ∧ (s.hist.exits.map Prod.fst).Nodup ∧
      ∀ (p pp : Slot) (havekids : Bool) (s' : State), s.pc p = .waitScan true pp havekids →
        (s.proc pp).parent = some p → (s.proc pp).state = .zombie →
        step s (p, .turn false) = some s' →
          s'.proc = s.proc ∧ s'.waitLock = none ∧ s'.hist.reaps = s.hist.reaps) ∧
    (s.waitLock = none →
      (∀ c y, (s.proc c).state ≠ .unused → (s.proc c).parent = some y →
        (s.proc y).state ≠ .unused ∧ (s.proc y).state ≠ .zombie) ∧
      ∀ y z, (s.proc y).state = .sleeping → (s.proc y).chan = some (.proc y) →
        (s.proc z).parent = some y → (s.proc z).state ≠ .zombie) := by
  have hI : Protocol s := Runs.invariant (fun _ _ _ hs ht => Protocol.step hs ht)
    protocol_userinit h
  refine ⟨⟨hI.moves, fun a s' hs => (Transition.of_section hI.control (section_of_step hs)).state⟩,
    ⟨fun id hid => hI.returnedOnce hid, hI.lineage.reaped, hI.lineage.exits, ?_⟩, fun hl => ⟨?_, ?_⟩⟩
  · intro p pp havekids s' hpc hparent hzombie hs
    simp only [step] at hs
    split_ifs at hs with hr
    rw [turn, hpc] at hs
    simp only [pp.isLt, dite_true, waitScan, Fin.eta, hparent, hzombie, if_true, true_and] at hs
    obtain rfl := Option.some.inj hs
    exact ⟨rfl, rfl, rfl⟩
  · intro c y _ hc
    obtain hy | hy | hy := hI.family.alive c y hc <;> simp [hy]
  · intro y z hst hch hz
    intro hzz
    obtain ⟨x, status, j, i, hx, -⟩ := hI.family.quiet y z ⟨hst, hch⟩ hz hzz
    -- whoever is about to wake `y` holds the lock
    have hhold := (hI.control.holding x).mp (by rw [hx]; trivial)
    rw [hl] at hhold
    cases hhold

/-- The first process forks a child, the child exits with status 7, and the first
process waits for it. -/
def forkExitWaitRun : List (Slot × Act) :=
  let child : Slot := 1
  [(initproc, .run), (initproc, .fork)] ++ List.replicate 4 (initproc, Act.turn true) ++
    [(child, .run), (child, .exit 7)] ++ List.replicate 132 (child, Act.turn true) ++
    [(initproc, .wait true)] ++ List.replicate 3 (initproc, Act.turn true)

theorem fork_exit_wait_protocol_child :
    ∃ s, Runs.exec step userinit forkExitWaitRun = some s ∧
      s.hist.reaps = [⟨0, 1, 2, some 7⟩] ∧
      s.waitLock = none ∧ ∀ id ∈ s.hist.forked, ReturnedOnce s id := by
  have h : (Runs.exec step userinit forkExitWaitRun).map (fun s => (s.hist.reaps, s.waitLock)) =
      some ([⟨0, 1, 2, some 7⟩], none) := by decide +kernel
  obtain ⟨s, hs, he⟩ := Option.map_eq_some_iff.mp h
  simp only [Prod.mk.injEq] at he
  exact ⟨s, hs, he.1, he.2, (fork_exit_wait_protocol _ hs).2.1.1⟩

end Xv6.ProcTable
