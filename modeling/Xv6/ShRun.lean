import Xv6.Runs
import Xv6.Sh

/-!
# How the shell runs a command

`runcmd` of `user/sh.c` as the system calls that it makes, and the processes that make them,
each with its own table of descriptors. `runcmd` calls itself as the last thing it does, so a
call is a program of its own. A call carries the place of its command in the tree, which the
program never looks at.
-/
namespace Xv6.Sh

variable {W : Type}

/-- The number of descriptors of a process. -/
abbrev NOFILE : ℕ := 16

/-- What a descriptor stands for. -/
inductive Obj (W : Type) where
  /-- What the shell's descriptor stands for. -/
  | inherited (fd : ℕ)
  | file (name : W) (mode : ℕ)
  | readEnd (pipe : ℕ)
  | writeEnd (pipe : ℕ)
  /-- What a program has opened by itself. -/
  | other
  deriving DecidableEq

abbrev Fds (W : Type) := List (Option (Obj W))

/-- `fdalloc`: the lowest descriptor that is free. -/
def fdalloc (fds : Fds W) (o : Obj W) : Option (ℕ × Fds W) :=
  (fds.findIdx? Option.isNone).map fun fd => (fd, fds.set fd (some o))

/-- A step down the tree of commands. -/
inductive Frame (W : Type) where
  | redir (r : Redir W)
  | pipeLeft (pipe : ℕ)
  | pipeRight (pipe : ℕ)
  | listLeft
  | listRight
  | back

/-- Where a command stands in the tree, from the command outwards. -/
abbrev Place (W : Type) := List (Frame W)

/-- What a process is still to do. A call that may fail has a program for that. -/
inductive Code (W : Type) where
  /-- `runcmd(cmd)`. -/
  | run (place : Place W) (cmd : Cmd W)
  | close (fd : ℕ) (k : Code W)
  | open (file : W) (mode : ℕ) (fail k : Code W)
  | dup (fd : ℕ) (k : Code W)
  /-- The program goes on with the number of the pipe, `p[0]` and `p[1]`. -/
  | pipe (place : Place W) (fail : Code W) (k : ℕ → ℕ → ℕ → Code W)
  | fork (child parent fail : Code W)
  | wait (place : Place W) (k : Code W)
  | exec (place : Place W) (argv : List W) (fail : Code W)
  /-- The program that `exec` has started. -/
  | program (place : Place W)
  /-- `fprintf(2, fmt, arg)`. -/
  | complain (fmt : String) (arg : Option W) (k : Code W)
  | exit (status : ℕ)
  | exited (reaped : Bool)

def panic (s : String) : Code W := .complain s none (.exit 1)

def fork1 (child parent : Code W) : Code W := .fork child parent (panic "fork")

/-- The body of `runcmd`. -/
def runcmd (place : Place W) : Cmd W → Code W
  | .exec [] => .exit 1
  | .exec (w :: ws) =>
    .exec place (w :: ws) (.complain "exec %s failed\n" (some w) (.exit 0))
  | .redir cmd file mode fd =>
    .close fd
      (.open file mode (.complain "open %s failed\n" (some file) (.exit 1))
        (.run (.redir ⟨file, mode, fd⟩ :: place) cmd))
  | .list left right =>
    fork1 (.run (.listLeft :: place) left)
      (.wait place (.run (.listRight :: place) right))
  | .pipe left right =>
    .pipe place (panic "pipe") fun pipe p0 p1 =>
      fork1
        (.close 1 (.dup p1 (.close p0 (.close p1 (.run (.pipeLeft pipe :: place) left)))))
        (fork1
          (.close 0 (.dup p0 (.close p0 (.close p1 (.run (.pipeRight pipe :: place) right)))))
          (.close p0 (.close p1 (.wait place (.wait place (.exit 0))))))
  | .back cmd => fork1 (.run (.back :: place) cmd) (.exit 0)

structure Proc (W : Type) where
  parent : ℕ
  code : Code W
  fds : Fds W
  /-- The redirections that the process and those it was forked from have opened. -/
  opens : List (Redir W)

/-- The processes, and for each pipe of the shell the place of the command that made it. -/
structure State (W : Type) where
  procs : List (Proc W)
  pipes : List (Place W)

/-- What a process does next. -/
inductive Act where
  /-- The next call of its code, which succeeds. -/
  | go
  /-- The next call of its code, which fails. -/
  | fail
  /-- `wait` finds a child that has exited. -/
  | reap (child : ℕ)
  /-- A program started by `exec` makes a call of its own. -/
  | close (fd : ℕ)
  | dup (fd : ℕ)
  | open
  | fork
  | exit

/-- A process after a step, the processes it has forked and the pipes it has made. -/
structure Effect (W : Type) where
  proc : Proc W
  forked : List (Proc W) := []
  made : List (Place W) := []

def dupFd (fds : Fds W) (fd : ℕ) : Fds W :=
  ((fds.getD fd none).bind fun o => (fdalloc fds o).map Prod.snd).getD fds

/-- The next call succeeds; `pid` is the process and `pipe` the number of the next pipe. -/
def Proc.go (p : Proc W) (pid pipe : ℕ) : Option (Effect W) :=
  match p.code with
  | .run place cmd => some { proc := { p with code := runcmd place cmd } }
  | .close fd k => some { proc := { p with code := k, fds := p.fds.set fd none } }
  | .open file mode _ k =>
    (fdalloc p.fds (.file file mode)).map fun r =>
      { proc := { p with code := k, fds := r.2, opens := p.opens ++ [⟨file, mode, r.1⟩] } }
  | .dup fd k => some { proc := { p with code := k, fds := dupFd p.fds fd } }
  | .pipe place _ k =>
    (fdalloc p.fds (.readEnd pipe)).bind fun r =>
      (fdalloc r.2 (.writeEnd pipe)).map fun w =>
        { proc := { p with code := k pipe r.1 w.1, fds := w.2 }, made := [place] }
  | .fork child parent _ =>
    some { proc := { p with code := parent }, forked := [{ p with parent := pid, code := child }] }
  | .exec place _ _ => some { proc := { p with code := .program place } }
  | .complain _ _ k => some { proc := { p with code := k } }
  | .exit _ =>
    some { proc := { p with code := .exited false, fds := List.replicate NOFILE none } }
  | .wait .. | .program _ | .exited _ => none

/-- The next call fails. -/
def Proc.fail (p : Proc W) : Option (Effect W) :=
  match p.code with
  | .open _ _ k _ | .pipe _ k _ | .fork _ _ k | .exec _ _ k => some { proc := { p with code := k } }
  | _ => none

/-- A program started by `exec` does as it likes with its descriptors. -/
def Proc.own (p : Proc W) (pid : ℕ) (a : Act) : Option (Effect W) :=
  match p.code, a with
  | .program _, .close fd => some { proc := { p with fds := p.fds.set fd none } }
  | .program _, .dup fd => some { proc := { p with fds := dupFd p.fds fd } }
  | .program _, .open => (fdalloc p.fds .other).map fun r => { proc := { p with fds := r.2 } }
  | .program _, .fork => some { proc := p, forked := [{ p with parent := pid }] }
  | .program _, .exit =>
    some { proc := { p with code := .exited false, fds := List.replicate NOFILE none } }
  | _, _ => none

/-- A child that has not been waited for. -/
def Proc.isChild (p : Proc W) (pid : ℕ) : Bool :=
  p.parent = pid && match p.code with
    | .exited true => false
    | _ => true

def Proc.isZombie (p : Proc W) : Bool :=
  match p.code with
  | .exited false => true
  | _ => false

/-- `wait`: it returns when a child has exited, or when there is none. -/
def State.wait (s : State W) (pid : ℕ) (p : Proc W) (k : Code W) : Act → Option (State W)
  | .reap child =>
    match s.procs[child]? with
    | some q =>
      if q.isChild pid ∧ q.isZombie then
        let procs := s.procs.set child { q with code := .exited true }
        some { s with procs := procs.set pid { p with code := k } }
      else none
    | none => none
  | .go =>
    if s.procs.any (·.isChild pid) then none
    else some { s with procs := s.procs.set pid { p with code := k } }
  | _ => none

def State.apply (s : State W) (pid : ℕ) (e : Effect W) : State W :=
  { procs := s.procs.set pid e.proc ++ e.forked, pipes := s.pipes ++ e.made }

/-- One step of a process. -/
def step (s : State W) (a : ℕ × Act) : Option (State W) :=
  s.procs[a.1]?.bind fun p =>
    match p.code with
    | .wait _ k => s.wait a.1 p k a.2
    | _ =>
      match a.2 with
      | .go => (p.go a.1 s.pipes.length).map (s.apply a.1)
      | .fail => p.fail.map (s.apply a.1)
      | act => (p.own a.1 act).map (s.apply a.1)

/-- The table with the descriptors 0, 1 and 2. -/
def standard (o0 o1 o2 : Obj W) : Fds W :=
  [some o0, some o1, some o2] ++ List.replicate (NOFILE - 3) none

/-- A process that calls `runcmd`. -/
def initial (root : Cmd W) : State W where
  procs := [{ parent := 0, code := .run [] root,
              fds := standard (.inherited 0) (.inherited 1) (.inherited 2), opens := [] }]
  pipes := []

end Xv6.Sh
