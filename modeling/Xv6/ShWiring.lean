import Xv6.ShRun

/-!
# Which descriptors a command gets

A process at some place of the tree has the descriptors that the redirections and pipes
around that place give it, whatever the other processes do. What is still to be called by a
process determines what it must have now, and one call of `runcmd` is checked for each kind
of command.
-/
namespace Xv6.Sh

variable {W : Type}

/-- What a descriptor stands for at a place: the innermost redirection of it, or the end of
the innermost pipe that gives it one. -/
def binding : Place W → ℕ → Obj W
  | [], fd => .inherited fd
  | .redir r :: place, fd => if fd = r.fd then .file r.file r.mode else binding place fd
  | .pipeLeft pipe :: place, fd => if fd = 1 then .writeEnd pipe else binding place fd
  | .pipeRight pipe :: place, fd => if fd = 0 then .readEnd pipe else binding place fd
  | .listLeft :: place, fd => binding place fd
  | .listRight :: place, fd => binding place fd
  | .back :: place, fd => binding place fd

/-- The descriptors at a place: 0, 1 and 2. -/
def base (place : Place W) : Fds W :=
  standard (binding place 0) (binding place 1) (binding place 2)

/-- The redirections around a place, the outermost first. -/
def opened : Place W → List (Redir W)
  | [] => []
  | .redir r :: place => opened place ++ [r]
  | .pipeLeft _ :: place => opened place
  | .pipeRight _ :: place => opened place
  | .listLeft :: place => opened place
  | .listRight :: place => opened place
  | .back :: place => opened place

/-- A command of the tree with its place; a pipe is the one that the command around made. -/
inductive Located (pipes : List (Place W)) (root : Cmd W) : Place W → Cmd W → Prop where
  | root : Located pipes root [] root
  | redir {place : Place W} {cmd : Cmd W} {file : W} {mode fd : ℕ}
      (h : Located pipes root place (.redir cmd file mode fd)) :
      Located pipes root (.redir ⟨file, mode, fd⟩ :: place) cmd
  | pipeLeft {place : Place W} {left right : Cmd W} {pipe : ℕ}
      (h : Located pipes root place (.pipe left right)) (hpipe : pipes[pipe]? = some place) :
      Located pipes root (.pipeLeft pipe :: place) left
  | pipeRight {place : Place W} {left right : Cmd W} {pipe : ℕ}
      (h : Located pipes root place (.pipe left right)) (hpipe : pipes[pipe]? = some place) :
      Located pipes root (.pipeRight pipe :: place) right
  | listLeft {place : Place W} {left right : Cmd W} (h : Located pipes root place (.list left right)) :
      Located pipes root (.listLeft :: place) left
  | listRight {place : Place W} {left right : Cmd W} (h : Located pipes root place (.list left right)) :
      Located pipes root (.listRight :: place) right
  | back {place : Place W} {cmd : Cmd W} (h : Located pipes root place (.back cmd)) :
      Located pipes root (.back :: place) cmd

/-- Every redirection is one of the standard descriptors. -/
def Cmd.Std : Cmd W → Prop
  | .exec _ => True
  | .redir cmd _ _ fd => fd < 3 ∧ cmd.Std
  | .pipe left right => left.Std ∧ right.Std
  | .list left right => left.Std ∧ right.Std
  | .back cmd => cmd.Std

/-- An end of a pipe belongs at a place: the write end on the left, the read end on the
right. Anything else belongs anywhere. -/
def Belongs (place : Place W) : Obj W → Prop
  | .readEnd pipe => .pipeRight pipe ∈ place
  | .writeEnd pipe => .pipeLeft pipe ∈ place
  | .inherited _ | .file _ _ | .other => True

/-- What a process must have for what it is still to call. -/
def Ready (root : Cmd W) : List (Place W) → Code W → Fds W → List (Redir W) → Prop
  | pipes, .run place cmd, fds, opens =>
    fds = base place ∧ opens = opened place ∧ Located pipes root place cmd
  | pipes, .close fd k, fds, opens => Ready root pipes k (fds.set fd none) opens
  | pipes, .open file mode fail k, fds, opens =>
    Ready root pipes fail fds opens ∧ ∃ r, fdalloc fds (.file file mode) = some r ∧
      Ready root pipes k r.2 (opens ++ [⟨file, mode, r.1⟩])
  | pipes, .dup fd k, fds, opens =>
    ∃ o r, fds.getD fd none = some o ∧ fdalloc fds o = some r ∧ Ready root pipes k r.2 opens
  | pipes, .pipe place fail k, fds, opens =>
    fds = base place ∧ Ready root pipes fail fds opens ∧
      ∀ pipes' pipe, pipes <+: pipes' → pipes'[pipe]? = some place →
        ∃ r w, fdalloc fds (.readEnd pipe) = some r ∧ fdalloc r.2 (.writeEnd pipe) = some w ∧
          Ready root pipes' (k pipe r.1 w.1) w.2 opens
  | pipes, .fork child parent fail, fds, opens =>
    Ready root pipes child fds opens ∧ Ready root pipes parent fds opens ∧
      Ready root pipes fail fds opens
  | pipes, .wait place k, fds, opens => fds = base place ∧ Ready root pipes k fds opens
  | pipes, .exec place argv fail, fds, opens =>
    fds = base place ∧ opens = opened place ∧ Located pipes root place (.exec argv) ∧
      Ready root pipes fail fds opens
  | _, .program place, fds, _ => ∀ o, some o ∈ fds → Belongs place o
  | pipes, .complain _ _ k, fds, opens => Ready root pipes k fds opens
  | _, .exit _, _, _ => True
  | _, .exited _, fds, _ => ∀ o, some o ∉ fds

variable {root : Cmd W} {pipes pipes' : List (Place W)}

lemma getElem?_mono (hpre : pipes <+: pipes') {i : ℕ} {place : Place W}
    (h : pipes[i]? = some place) : pipes'[i]? = some place := by
  obtain ⟨made, rfl⟩ := hpre
  rw [List.getElem?_append_left (List.getElem?_eq_some_iff.mp h).1, h]

lemma Located.mono (hpre : pipes <+: pipes') {place : Place W} {cmd : Cmd W}
    (h : Located pipes root place cmd) : Located pipes' root place cmd := by
  induction h with
  | root => exact .root
  | redir _ ih => exact .redir ih
  | pipeLeft _ hpipe ih => exact .pipeLeft ih (getElem?_mono hpre hpipe)
  | pipeRight _ hpipe ih => exact .pipeRight ih (getElem?_mono hpre hpipe)
  | listLeft _ ih => exact .listLeft ih
  | listRight _ ih => exact .listRight ih
  | back _ ih => exact .back ih

variable {fds : Fds W}

lemma Ready.mono (hpre : pipes <+: pipes') {code : Code W} {opens : List (Redir W)}
    (h : Ready root pipes code fds opens) : Ready root pipes' code fds opens := by
  induction code generalizing fds opens with
  | run place cmd => exact ⟨h.1, h.2.1, h.2.2.mono hpre⟩
  | close fd k ih => exact ih h
  | «open» file mode fail k ihf ihk =>
    obtain ⟨hf, r, hr, hk⟩ := h
    exact ⟨ihf hf, r, hr, ihk hk⟩
  | dup fd k ih =>
    obtain ⟨o, r, ho, hr, hk⟩ := h
    exact ⟨o, r, ho, hr, ih hk⟩
  | pipe place fail k ihf ihk =>
    obtain ⟨hb, hf, hk⟩ := h
    exact ⟨hb, ihf hf, fun pipes'' pipe hpre' => hk pipes'' pipe (hpre.trans hpre')⟩
  | fork child parent fail ihc ihp ihf => exact ⟨ihc h.1, ihp h.2.1, ihf h.2.2⟩
  | wait place k ih => exact ⟨h.1, ih h.2⟩
  | exec place argv fail ih => exact ⟨h.1, h.2.1, h.2.2.1.mono hpre, ih h.2.2.2⟩
  | program place => exact h
  | complain fmt arg k ih => exact ih h
  | exit status => trivial
  | exited reaped => exact h

lemma Located.std (hroot : root.Std) {place : Place W} {cmd : Cmd W}
    (h : Located pipes root place cmd) : cmd.Std := by
  induction h with
  | root => exact hroot
  | redir _ ih => exact ih.2
  | pipeLeft _ _ ih => exact ih.1
  | pipeRight _ _ ih => exact ih.2
  | listLeft _ ih => exact ih.1
  | listRight _ ih => exact ih.2
  | back _ ih => exact ih

variable {fd : ℕ}

/-- The lowest free descriptor after `close(fd)` is `fd`. -/
lemma fdalloc_close (hfd : fd < 3) (o0 o1 o2 o : Obj W) :
    fdalloc ((standard o0 o1 o2).set fd none) o =
      some (fd, standard (if 0 = fd then o else o0) (if 1 = fd then o else o1)
        (if 2 = fd then o else o2)) := by
  interval_cases fd
  · rfl
  · rfl
  · rfl

lemma ready_runcmd (hroot : root.Std) {place : Place W} {cmd : Cmd W}
    (h : Located pipes root place cmd) :
    Ready root pipes (runcmd place cmd) (base place) (opened place) := by
  cases cmd with
  | exec argv =>
    cases argv with
    | nil => trivial
    | cons w ws => exact ⟨rfl, rfl, h, trivial⟩
  | redir cmd file mode fd =>
    refine ⟨trivial, _, fdalloc_close (h.std hroot).1 _ _ _ _, rfl, rfl, .redir h⟩
  | pipe left right =>
    refine ⟨rfl, trivial, ?_⟩
    intro pipes' pipe hpre hpipe
    have h' := h.mono hpre
    refine ⟨_, _, rfl, rfl, ?_, ⟨?_, ?_, trivial⟩, trivial⟩
    · exact ⟨_, _, rfl, rfl, rfl, rfl, .pipeLeft h' hpipe⟩
    · exact ⟨_, _, rfl, rfl, rfl, rfl, .pipeRight h' hpipe⟩
    · exact ⟨rfl, rfl, trivial⟩
  | list left right => exact ⟨⟨rfl, rfl, .listLeft h⟩, ⟨rfl, rfl, rfl, .listRight h⟩, trivial⟩
  | back cmd => exact ⟨⟨rfl, rfl, .back h⟩, trivial, trivial⟩

variable {o : Obj W}

lemma Belongs.cons {place : Place W} (h : Belongs place o) (f : Frame W) :
    Belongs (f :: place) o := by
  cases o with
  | readEnd pipe => exact List.mem_cons_of_mem f h
  | writeEnd pipe => exact List.mem_cons_of_mem f h
  | inherited fd => trivial
  | file name mode => trivial
  | other => trivial

lemma binding_belongs (place : Place W) (fd : ℕ) : Belongs place (binding place fd) := by
  induction place with
  | nil => trivial
  | cons f place ih =>
    cases f with
    | redir r =>
      rw [binding]
      split
      · trivial
      · exact ih.cons _
    | pipeLeft pipe | pipeRight pipe =>
      rw [binding]
      split
      · exact List.mem_cons_self
      · exact ih.cons _
    | listLeft => exact ih.cons _
    | listRight => exact ih.cons _
    | back => exact ih.cons _

lemma base_belongs {place : Place W} (h : some o ∈ base place) : Belongs place o := by
  rw [base, standard, List.mem_append] at h
  obtain h | h := h
  · simp only [List.mem_cons, Option.some.injEq, List.not_mem_nil, or_false] at h
    obtain rfl | rfl | rfl := h
    · exact binding_belongs place 0
    · exact binding_belongs place 1
    · exact binding_belongs place 2
  · cases List.eq_of_mem_replicate h

/-- What `fdalloc` does to a table. -/
lemma fdalloc_spec {r : ℕ × Fds W} (h : fdalloc fds o = some r) :
    fds.getD r.1 none = none ∧ r.2 = fds.set r.1 (some o) := by
  obtain ⟨fd, hfd, rfl⟩ := Option.map_eq_some_iff.mp h
  obtain ⟨hlt, hnone, -⟩ := List.findIdx?_eq_some_iff_getElem.mp hfd
  refine ⟨?_, rfl⟩
  rw [List.getD_eq_getElem?_getD, List.getElem?_eq_getElem hlt]
  exact Option.isNone_iff_eq_none.mp hnone

lemma dupFd_eq {r : ℕ × Fds W} (ho : fds.getD fd none = some o) (hr : fdalloc fds o = some r) :
    dupFd fds fd = r.2 := by
  rw [dupFd, ho, Option.bind_some, hr]
  rfl

lemma mem_of_getD (h : fds.getD fd none = some o) : some o ∈ fds := by
  rw [List.getD_eq_getElem?_getD] at h
  cases hget : fds[fd]? with
  | none =>
    rw [hget] at h
    cases h
  | some x =>
    rw [hget, Option.getD_some] at h
    exact h ▸ List.mem_of_getElem? hget

lemma mem_dupFd (h : some o ∈ dupFd fds fd) : some o ∈ fds := by
  rw [dupFd] at h
  cases ho : fds.getD fd none with
  | none =>
    rw [ho] at h
    exact h
  | some o' =>
    rw [ho, Option.bind_some] at h
    cases hr : fdalloc fds o' with
    | none =>
      rw [hr] at h
      exact h
    | some r =>
      rw [hr, Option.map_some, Option.getD_some, (fdalloc_spec hr).2] at h
      obtain h | h := List.mem_or_eq_of_mem_set h
      · exact h
      · rw [h, ← ho]
        exact ho ▸ mem_of_getD ho

def Proc.Ready (root : Cmd W) (pipes : List (Place W)) (p : Proc W) : Prop :=
  Sh.Ready root pipes p.code p.fds p.opens

structure Effect.Ready (root : Cmd W) (pipes : List (Place W)) (e : Effect W) : Prop where
  proc : e.proc.Ready root (pipes ++ e.made)
  forked : ∀ q ∈ e.forked, q.Ready root (pipes ++ e.made)

variable {p : Proc W}

lemma Proc.Ready.alone (h : p.Ready root pipes) : Effect.Ready root pipes { proc := p } where
  proc := (List.append_nil pipes).symm ▸ h
  forked := fun _ hq => absurd hq List.not_mem_nil

variable {e : Effect W}

lemma Proc.Ready.go (hroot : root.Std) (h : p.Ready root pipes) {pid : ℕ}
    (he : p.go pid pipes.length = some e) : e.Ready root pipes := by
  obtain ⟨parent, code, fds, opens⟩ := p
  cases code with
  | run place cmd =>
    obtain ⟨hfds, hopens, hloc⟩ := h
    subst hfds hopens
    cases he
    exact Proc.Ready.alone (ready_runcmd hroot hloc)
  | close fd k | complain fmt arg k =>
    cases he
    exact Proc.Ready.alone h
  | «open» file mode fail k =>
    obtain ⟨-, r, hr, hk⟩ := h
    obtain ⟨r', hr', rfl⟩ := Option.map_eq_some_iff.mp he
    cases hr.symm.trans hr'
    exact Proc.Ready.alone hk
  | dup fd k =>
    obtain ⟨o, r, ho, hr, hk⟩ := h
    cases he
    exact Proc.Ready.alone ((dupFd_eq ho hr).symm ▸ hk)
  | pipe place fail k =>
    obtain ⟨-, -, hk⟩ := h
    obtain ⟨r, w, hr, hw, hready⟩ := hk (pipes ++ [place]) pipes.length (List.prefix_append ..)
      List.getElem?_concat_length
    obtain ⟨r', hr', he⟩ := Option.bind_eq_some_iff.mp he
    cases hr.symm.trans hr'
    obtain ⟨w', hw', rfl⟩ := Option.map_eq_some_iff.mp he
    cases hw.symm.trans hw'
    exact ⟨hready, fun _ hq => absurd hq List.not_mem_nil⟩
  | fork child parent fail =>
    cases he
    refine ⟨h.2.1.mono (List.prefix_append ..), fun q hq => ?_⟩
    rw [List.mem_singleton.mp hq]
    exact h.1.mono (List.prefix_append ..)
  | wait place k => cases he
  | exec place argv fail =>
    obtain ⟨hfds, -, -, -⟩ := h
    subst hfds
    cases he
    exact Proc.Ready.alone fun o ho => base_belongs ho
  | program place => cases he
  | exit status =>
    cases he
    apply Proc.Ready.alone
    intro o ho
    cases List.eq_of_mem_replicate ho
  | exited reaped => cases he

lemma Proc.Ready.fail (h : p.Ready root pipes) (he : p.fail = some e) : e.Ready root pipes := by
  obtain ⟨parent, code, fds, opens⟩ := p
  cases code with
  | «open» file mode fail k =>
    cases he
    exact Proc.Ready.alone h.1
  | pipe place fail k =>
    cases he
    exact Proc.Ready.alone h.2.1
  | fork child parent fail =>
    cases he
    exact Proc.Ready.alone h.2.2
  | exec place argv fail =>
    cases he
    exact Proc.Ready.alone h.2.2.2
  | run _ _ | close _ _ | dup _ _ | wait _ _ | program _ | complain _ _ _ | exit _ | exited _ =>
    cases he

lemma Proc.Ready.own (h : p.Ready root pipes) {pid : ℕ} {a : Act} (he : p.own pid a = some e) :
    e.Ready root pipes := by
  obtain ⟨parent, code, fds, opens⟩ := p
  cases code with
  | program place =>
    have hfds : ∀ o, some o ∈ fds → Belongs place o := h
    cases a with
    | close fd =>
      cases he
      apply Proc.Ready.alone
      intro o ho
      obtain ho | ho := List.mem_or_eq_of_mem_set ho
      · exact hfds o ho
      · cases ho
    | dup fd =>
      cases he
      exact Proc.Ready.alone fun o ho => hfds o (mem_dupFd ho)
    | «open» =>
      obtain ⟨r, hr, rfl⟩ := Option.map_eq_some_iff.mp he
      apply Proc.Ready.alone
      intro o ho
      rw [(fdalloc_spec hr).2] at ho
      obtain ho | ho := List.mem_or_eq_of_mem_set ho
      · exact hfds o ho
      · cases ho
        trivial
    | fork =>
      cases he
      refine ⟨hfds, fun q hq => ?_⟩
      rw [List.mem_singleton.mp hq]
      exact hfds
    | exit =>
      cases he
      apply Proc.Ready.alone
      intro o ho
      cases List.eq_of_mem_replicate ho
    | go | fail | reap _ => cases he
  | run _ _ | close _ _ | «open» _ _ _ _ | dup _ _ | pipe _ _ _ | fork _ _ _ | wait _ _ | exec _ _ _
    | complain _ _ _ | exit _ | exited _ => cases he

/-- Every process has what it needs. -/
def Wired (root : Cmd W) (s : State W) : Prop :=
  ∀ p ∈ s.procs, p.Ready root s.pipes

lemma Wired.apply {s : State W} (h : Wired root s) (he : e.Ready root s.pipes) (pid : ℕ) :
    Wired root (s.apply pid e) := by
  intro p hp
  obtain hp | hp := List.mem_append.mp hp
  · obtain hp | rfl := List.mem_or_eq_of_mem_set hp
    · exact (h p hp).mono (List.prefix_append ..)
    · exact he.proc
  · exact he.forked p hp

lemma Wired.set {s : State W} (h : Wired root s) (hp : p.Ready root s.pipes) (pid : ℕ) :
    Wired root { s with procs := s.procs.set pid p } := by
  intro q hq
  obtain hq | rfl := List.mem_or_eq_of_mem_set hq
  · exact h q hq
  · exact hp

lemma Proc.Ready.reaped {q : Proc W} (h : q.Ready root pipes) (hzombie : q.isZombie = true) :
    Proc.Ready root pipes { q with code := .exited true } := by
  obtain ⟨parent, code, fds, opens⟩ := q
  cases code with
  | exited reaped => exact h
  | _ => cases hzombie

lemma Wired.wait {s s' : State W} (h : Wired root s) {pid : ℕ} {k : Code W} {a : Act}
    (hp : Ready root s.pipes k p.fds p.opens) (hs : s.wait pid p k a = some s') :
    Wired root s' := by
  cases a with
  | reap child =>
    rw [State.wait] at hs
    cases hq : s.procs[child]? with
    | none =>
      rw [hq] at hs
      cases hs
    | some q =>
      rw [hq] at hs
      dsimp only at hs
      split at hs
      · next hzombie =>
        cases hs
        have hreaped : Proc.Ready root s.pipes { q with code := .exited true } :=
          (h q (List.mem_of_getElem? hq)).reaped hzombie.2
        exact (h.set hreaped child).set (p := { p with code := k }) hp pid
      · cases hs
  | go =>
    rw [State.wait] at hs
    split at hs
    · cases hs
    · cases hs
      exact h.set (p := { p with code := k }) hp pid
  | _ => cases hs

lemma Wired.step (hroot : root.Std) {s s' : State W} (h : Wired root s) {a : ℕ × Act}
    (hs : step s a = some s') : Wired root s' := by
  obtain ⟨pid, a⟩ := a
  obtain ⟨p, hp, hs⟩ := Option.bind_eq_some_iff.mp hs
  have hready := h p (List.mem_of_getElem? hp)
  dsimp only at hs
  split at hs
  · next place k hcode =>
    rw [Proc.Ready, hcode] at hready
    exact h.wait hready.2 hs
  · split at hs
    · obtain ⟨e, he, rfl⟩ := Option.map_eq_some_iff.mp hs
      exact h.apply (hready.go hroot he) pid
    · obtain ⟨e, he, rfl⟩ := Option.map_eq_some_iff.mp hs
      exact h.apply (hready.fail he) pid
    · obtain ⟨e, he, rfl⟩ := Option.map_eq_some_iff.mp hs
      exact h.apply (hready.own he) pid

lemma wired_initial (root : Cmd W) : Wired root (initial root) := by
  intro p hp
  rw [List.mem_singleton.mp hp]
  exact ⟨rfl, rfl, .root⟩

theorem Wired.of_run (hroot : root.Std) {acts : List (ℕ × Act)} {s : State W}
    (h : Runs.exec Sh.step (initial root) acts = some s) : Wired root s :=
  Runs.invariant (fun _ _ _ hI hs => Wired.step hroot hI hs) (wired_initial root) h

/-- The process is still to close the descriptor before it does anything else. -/
def Code.Closes : Code W → ℕ → Prop
  | .close fd' k, fd => fd = fd' ∨ k.Closes fd
  | .open _ _ _ k, fd => k.Closes fd
  | .dup _ k, fd => k.Closes fd
  | .fork _ parent _, fd => parent.Closes fd
  | .complain _ _ k, fd => k.Closes fd
  | .exit _, _ => True
  | .run .., _ | .pipe .., _ | .wait .., _ | .exec .., _ | .program _, _ | .exited _, _ => False

def Code.place : Code W → Place W
  | .run place _ => place
  | .close _ k => k.place
  | .open _ _ _ k => k.place
  | .dup _ k => k.place
  | .pipe place _ _ => place
  | .fork _ parent _ => parent.place
  | .wait place _ => place
  | .exec place _ _ => place
  | .program place => place
  | .complain _ _ k => k.place
  | .exit _ | .exited _ => []

lemma getD_fdalloc {o o' : Obj W} {r : ℕ × Fds W} (h : fdalloc fds o = some r)
    (hfd : fds.getD fd none = some o') : r.2.getD fd none = some o' := by
  obtain ⟨hnone, hset⟩ := fdalloc_spec h
  have hne : r.1 ≠ fd := by
    rintro rfl
    rw [hnone] at hfd
    cases hfd
  rw [List.getD_eq_getElem?_getD] at hfd ⊢
  rw [hset, List.getElem?_set_ne hne, hfd]

/-- An end of a pipe that a process has is one that it is going to close, or belongs at its
place. -/
lemma Ready.belongs {code : Code W} {opens : List (Redir W)} (h : Ready root pipes code fds opens)
    (hfd : fds.getD fd none = some o) : code.Closes fd ∨ Belongs code.place o := by
  induction code generalizing fds opens with
  | run place cmd | pipe place fail k | wait place k | exec place argv fail =>
    exact Or.inr (base_belongs (h.1 ▸ mem_of_getD hfd))
  | close fd' k ih =>
    by_cases he : fd = fd'
    · exact Or.inl (Or.inl he)
    · have hset : (fds.set fd' none).getD fd none = some o := by
        rw [List.getD_eq_getElem?_getD] at hfd ⊢
        rwa [List.getElem?_set_ne (Ne.symm he)]
      exact (ih h hset).imp_left Or.inr
  | «open» file mode fail k _ ih =>
    obtain ⟨-, r, hr, hk⟩ := h
    exact ih hk (getD_fdalloc hr hfd)
  | dup fd' k ih =>
    obtain ⟨o', r, -, hr, hk⟩ := h
    exact ih hk (getD_fdalloc hr hfd)
  | fork child parent fail _ ih _ => exact ih h.2.1 hfd
  | program place => exact Or.inr (h o (mem_of_getD hfd))
  | complain fmt arg k ih => exact ih h hfd
  | exit status => exact Or.inl trivial
  | exited reaped => exact absurd (mem_of_getD hfd) (h o)

/-- In every run of `runcmd` a command is executed with the descriptors 0, 1 and 2 that its
place in the tree gives it and no others, and a process has an end of a pipe only until it
has called `close`, or when it runs a command on that side of the pipe. -/
theorem runcmd_wires (root : Cmd W) (hroot : root.Std) {acts : List (ℕ × Act)} {s : State W}
    (h : Runs.exec step (initial root) acts = some s) {p : Proc W} (hp : p ∈ s.procs) :
    (∀ place argv fail, p.code = .exec place argv fail →
      Located s.pipes root place (.exec argv) ∧ p.fds = base place) ∧
    ∀ fd o, p.fds.getD fd none = some o → p.code.Closes fd ∨ Belongs p.code.place o := by
  have hready := Wired.of_run hroot h p hp
  constructor
  · intro place argv fail hcode
    rw [Proc.Ready, hcode] at hready
    exact ⟨hready.2.2.1, hready.1⟩
  · intro fd o hfd
    exact hready.belongs hfd

/-- `a | b > c`. -/
def pipeline : Cmd Char :=
  .pipe (.exec ['a']) (.redir (.exec ['b']) 'c' (O_WRONLY ||| O_CREATE ||| O_TRUNC) 1)

/-- The shell makes the pipe and forks twice, then each side goes on to its `exec`. -/
def pipelineRun : List (ℕ × Act) :=
  List.replicate 4 (0, .go) ++ List.replicate 5 (1, .go) ++ List.replicate 8 (2, .go)

theorem runcmd_wires_pipeline :
    ∃ s p, Runs.exec step (initial pipeline) pipelineRun = some s ∧ s.procs[2]? = some p ∧
      p.fds = standard (.readEnd 0) (.file 'c' (O_WRONLY ||| O_CREATE ||| O_TRUNC))
        (.inherited 2) := by
  have hstd : pipeline.Std := ⟨trivial, by decide, trivial⟩
  obtain ⟨s, p, hrun, hp, hcode⟩ : ∃ s p,
      Runs.exec step (initial pipeline) pipelineRun = some s ∧ s.procs[2]? = some p ∧
      p.code = .exec [.redir ⟨'c', O_WRONLY ||| O_CREATE ||| O_TRUNC, 1⟩, .pipeRight 0] ['b']
        (.complain "exec %s failed\n" (some 'b') (.exit 0)) := ⟨_, _, rfl, rfl, rfl⟩
  exact ⟨s, p, hrun, hp,
    ((runcmd_wires pipeline hstd hrun (List.mem_of_getElem? hp)).1 _ _ _ hcode).2⟩

end Xv6.Sh
