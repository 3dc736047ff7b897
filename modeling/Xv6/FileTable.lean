import Xv6.Param
import Xv6.Prog
import Xv6.References
import Xv6.Runs

/-!
# The file table, with pipes

`kernel/file.c`, `pipealloc` and `pipeclose` of `kernel/pipe.c`, and the calls that make
and drop references to open files. What these functions ask of the rest of the kernel
is an answer given with the call: the locked inode that `create` or `namei` found, the
page that `kalloc` handed out, the slot that `allocproc` found, and if `uvmcopy` and
`copyout` succeeded.

The history numbers the pipes and the inode references that `sys_open` obtained. It
records which of them were freed and dropped and what pointed to an entry or a page at
that moment; no function reads it.
-/
namespace Xv6.FileTable

open Function

variable (I PG : Type)

inductive FdType where
  | none
  | pipe
  | inode
  | device
  deriving DecidableEq, Repr

/-- `struct file`, for inodes `I` and pages `PG`. `opened` is the number of the inode
reference that `ip` stands for. -/
structure File where
  type : FdType
  ref : ℕ
  readable : Bool
  writable : Bool
  pipe : Option PG
  ip : Option I
  off : ℕ
  major : Int16
  opened : ℕ

/-- The flags of `struct pipe`, and the number of the pipe. -/
structure Pipe where
  readopen : Bool
  writeopen : Bool
  id : ℕ
  deriving DecidableEq, Repr

abbrev Fp := Fin NFILE

abbrev Pid := Fin NPROC

/-- A call of `kfree` on a pipe's page: the pipe, and how many entries of the file
table pointed to the page. -/
structure Kfree where
  id : ℕ
  files : ℕ

/-- An allocation of a file table entry, and how many descriptors pointed to it. -/
structure Filealloc where
  f : Fp
  slots : ℕ

structure History where
  fileallocs : List Filealloc
  pipes : ℕ
  kfrees : List Kfree
  /-- The inodes of the references that `sys_open` obtained. -/
  obtained : List I
  /-- The references dropped by `iput`, with the inode it was called on. -/
  iputs : List (ℕ × Option I)

/-- The process table is here its open files, `ofile (p, fd)`, and which of its slots
hold a process that has not exited. -/
structure State where
  file : Fp → File I PG
  ofile : Pid × Fin NOFILE → Option Fp
  live : Pid → Bool
  pipe : PG → Option Pipe
  hist : History I

/-- `badPipe` is no panic of the source: a pipe used after its page was freed. -/
inductive Panic where
  | filedup
  | fileclose
  | initExiting
  | badPipe
  deriving DecidableEq, Repr

abbrev FM := Prog.M (State I PG) Panic

variable {I PG}

def State.slots (s : State I PG) (f : Fp) : ℕ := References.pointers s.ofile f

/-- The entry is in use as an end of the pipe: its write end, or its read end. -/
def State.refersTo (s : State I PG) (f : Fp) (pa : PG) (writable : Bool) : Prop :=
  0 < (s.file f).ref ∧ (s.file f).type = .pipe ∧ (s.file f).pipe = some pa ∧
    (s.file f).writable = writable

def State.holdsRef (s : State I PG) (f : Fp) (n : ℕ) : Prop :=
  0 < (s.file f).ref ∧ ((s.file f).type = .inode ∨ (s.file f).type = .device) ∧
    (s.file f).opened = n

variable [DecidableEq PG]

instance (s : State I PG) (f : Fp) (pa : PG) (w : Bool) : Decidable (s.refersTo f pa w) :=
  inferInstanceAs (Decidable (_ ∧ _))

def State.files (s : State I PG) (pa : PG) : ℕ :=
  (List.finRange NFILE).countP fun f => s.refersTo f pa true ∨ s.refersTo f pa false

def modifyFile (f : Fp) (g : File I PG → File I PG) : FM I PG Unit :=
  modify fun s => { s with file := update s.file f (g (s.file f)) }

def setOfile (p : Pid) (fd : Fin NOFILE) (f : Option Fp) : FM I PG Unit :=
  modify fun s => { s with ofile := update s.ofile (p, fd) f }

def recordFilealloc (f : Fp) : FM I PG Unit :=
  modify fun s => { s with hist := { s.hist with
    fileallocs := s.hist.fileallocs ++ [{ f := f, slots := s.slots f }] } }

def recordIput (n : ℕ) (ip : Option I) : FM I PG Unit :=
  modify fun s => { s with hist := { s.hist with iputs := s.hist.iputs ++ [(n, ip)] } }

/-- Number the reference that the running `sys_open` obtained. -/
def obtain (ip : I) : FM I PG ℕ := do
  let n := (← get).hist.obtained.length
  modify fun s => { s with hist := { s.hist with obtained := s.hist.obtained ++ [ip] } }
  return n

def filealloc : FM I PG (Option Fp) := do
  let s ← get
  match (List.finRange NFILE).find? fun f => (s.file f).ref = 0 with
  | some f =>
    recordFilealloc f
    modifyFile f fun v => { v with ref := 1 }
    return some f
  | none => return none

def filedup (f : Fp) : FM I PG Unit := do
  if ((← get).file f).ref < 1 then
    throw .filedup
  modifyFile f fun v => { v with ref := v.ref + 1 }

def kfree (pa : PG) (pi : Pipe) : FM I PG Unit :=
  modify fun s => { s with
    pipe := update s.pipe pa none
    hist := { s.hist with kfrees := s.hist.kfrees ++ [{ id := pi.id, files := s.files pa }] } }

def pipeclose (pa : Option PG) (writable : Bool) : FM I PG Unit := do
  match pa with
  | none => throw .badPipe
  | some pa =>
    match (← get).pipe pa with
    | none => throw .badPipe
    | some pi =>
      let pi := if writable then { pi with writeopen := false } else { pi with readopen := false }
      modify fun s => { s with pipe := update s.pipe pa (some pi) }
      if pi.readopen = false ∧ pi.writeopen = false then
        kfree pa pi

def fileclose (f : Fp) : FM I PG Unit := do
  let ff := (← get).file f
  if ff.ref < 1 then
    throw .fileclose
  if 1 < ff.ref then
    modifyFile f fun v => { v with ref := v.ref - 1 }
  else
    modifyFile f fun v => { v with ref := 0, type := .none }
    match ff.type with
    | .pipe => pipeclose ff.pipe ff.writable
    | .inode => recordIput ff.opened ff.ip
    | .device => recordIput ff.opened ff.ip
    | .none => pure ()

/-- `pipealloc` from the point where both entries are allocated. -/
def pipeinit (f0 f1 : Fp) (page : Option PG) : FM I PG (Option (Fp × Fp)) := do
  match page with
  | none =>
    fileclose f0
    fileclose f1
    return none
  | some pa =>
    modify fun s => { s with
      pipe := update s.pipe pa (some ⟨true, true, s.hist.pipes⟩)
      hist := { s.hist with pipes := s.hist.pipes + 1 } }
    modifyFile f0 fun v =>
      { v with type := .pipe, readable := true, writable := false, pipe := some pa }
    modifyFile f1 fun v =>
      { v with type := .pipe, readable := false, writable := true, pipe := some pa }
    return some (f0, f1)

/-- `page` is what `kalloc` returned, if it was called. -/
def pipealloc (page : Option PG) : FM I PG (Option (Fp × Fp)) := do
  match ← filealloc with
  | none => return none
  | some f0 =>
    match ← filealloc with
    | none =>
      fileclose f0
      return none
    | some f1 => pipeinit f0 f1 page

abbrev O_WRONLY : ℕ := 0x001
abbrev O_RDWR : ℕ := 0x002
abbrev O_CREATE : ℕ := 0x200

/-- The file that `argfd` finds for a descriptor. -/
def argfd (p : Pid) (fd : ℤ) : FM I PG (Option (Fin NOFILE × Fp)) := do
  let s ← get
  if h : 0 ≤ fd ∧ fd < NOFILE then
    let fd : Fin NOFILE := ⟨fd.toNat, by omega⟩
    return (s.ofile (p, fd)).map fun f => (fd, f)
  else
    return none

def fdalloc (p : Pid) (f : Fp) : FM I PG (Option (Fin NOFILE)) := do
  let s ← get
  match (List.finRange NOFILE).find? fun fd => s.ofile (p, fd) = none with
  | some fd =>
    setOfile p fd (some f)
    return some fd
  | none => return none

inductive FileType where
  | dir
  | file
  | device
  deriving DecidableEq, Repr

/-- What `create`, or `namei` and `ilock`, returned. -/
structure Locked (I : Type) where
  ip : I
  type : FileType
  major : Int16

/-- `iunlockput` of the reference that the running `sys_open` obtained. -/
def iunlockput (ip : I) : FM I PG Unit := do
  let n ← obtain ip
  recordIput n (some ip)

/-- `sys_open` once it has an inode, an entry of the file table and a descriptor. -/
def openFile (f : Fp) (ip : Locked I) (omode : ℕ) : FM I PG Unit := do
  let n ← obtain ip.ip
  modifyFile f fun v =>
    if ip.type = .device then { v with type := .device, major := ip.major }
    else { v with type := .inode, off := 0 }
  modifyFile f fun v => { v with
    ip := some ip.ip
    opened := n
    readable := omode &&& O_WRONLY = 0
    writable := omode &&& O_WRONLY ≠ 0 ∨ omode &&& O_RDWR ≠ 0 }

/-- `found` is `none` if `argstr`, `create` or `namei` fails. -/
def sysOpen (p : Pid) (found : Option (Locked I)) (omode : ℕ) : FM I PG ℤ := do
  match found with
  | none => return -1
  | some ip =>
    if omode &&& O_CREATE = 0 ∧ ip.type = .dir ∧ omode ≠ 0 then
      iunlockput ip.ip
      return -1
    else if ip.type = .device ∧ (ip.major < 0 ∨ (NDEV : ℤ) ≤ ip.major.toInt) then
      iunlockput ip.ip
      return -1
    else
      match ← filealloc with
      | none =>
        iunlockput ip.ip
        return -1
      | some f =>
        match ← fdalloc p f with
        | none =>
          fileclose f
          iunlockput ip.ip
          return -1
        | some fd =>
          openFile f ip omode
          return fd

def sysDup (p : Pid) (fd : ℤ) : FM I PG ℤ := do
  match ← argfd p fd with
  | none => return -1
  | some (_, f) =>
    match ← fdalloc p f with
    | none => return -1
    | some fd =>
      filedup f
      return fd

def sysClose (p : Pid) (fd : ℤ) : FM I PG ℤ := do
  match ← argfd p fd with
  | none => return -1
  | some (fd, f) =>
    setOfile p fd none
    fileclose f
    return 0

/-- `sys_pipe`; `copied` says if both calls of `copyout` succeed. -/
def sysPipe (p : Pid) (page : Option PG) (copied : Bool) : FM I PG ℤ := do
  match ← pipealloc page with
  | none => return -1
  | some (rf, wf) =>
    match ← fdalloc p rf with
    | none =>
      fileclose rf
      fileclose wf
      return -1
    | some fd0 =>
      match ← fdalloc p wf with
      | none =>
        setOfile p fd0 none
        fileclose rf
        fileclose wf
        return -1
      | some fd1 =>
        if copied then
          return 0
        else
          setOfile p fd0 none
          setOfile p fd1 none
          fileclose rf
          fileclose wf
          return -1

def setLive (p : Pid) (b : Bool) : FM I PG Unit :=
  modify fun s => { s with live := update s.live p b }

/-- `np` is the slot that `allocproc` found, if there was one and memory for it;
`copied` says if `uvmcopy` succeeds. -/
def kfork (p : Pid) (np : Option Pid) (copied : Bool) : FM I PG ℤ := do
  match np with
  | none => return -1
  | some np =>
    setLive np true
    if copied then
      Prog.loop NOFILE fun i => do
        match (← get).ofile (p, Fin.ofNat _ i) with
        | some f =>
          filedup f
          setOfile np (Fin.ofNat _ i) (some f)
        | none => pure ()
      return np
    else
      setLive np false
      return -1

def initproc : Pid := 0

def kexit (p : Pid) : FM I PG ℤ := do
  if p = initproc then
    throw .initExiting
  Prog.loop NOFILE fun i => do
    match (← get).ofile (p, Fin.ofNat _ i) with
    | some f =>
      fileclose f
      setOfile p (Fin.ofNat _ i) none
    | none => pure ()
  setLive p false
  return 0

variable (I PG)

inductive Call where
  | open (p : Pid) (found : Option (Locked I)) (omode : ℕ)
  | dup (p : Pid) (fd : ℤ)
  | pipe (p : Pid) (page : Option PG) (copied : Bool)
  | close (p : Pid) (fd : ℤ)
  | fork (p : Pid) (np : Option Pid) (copied : Bool)
  | exit (p : Pid)

variable {I PG}

def Call.caller : Call I PG → Pid
  | .open p _ _ => p
  | .dup p _ => p
  | .pipe p _ _ => p
  | .close p _ => p
  | .fork p _ _ => p
  | .exit p => p

def Call.body : Call I PG → FM I PG ℤ
  | .open p found omode => sysOpen p found omode
  | .dup p fd => sysDup p fd
  | .pipe p page copied => sysPipe p page copied
  | .close p fd => sysClose p fd
  | .fork p np copied => kfork p np copied
  | .exit p => kexit p

/-- `kalloc` hands out no page that is a pipe, and `allocproc` no slot that holds a
running process. -/
def Answers (s : State I PG) : Call I PG → Prop
  | .pipe _ (some pa) _ => s.pipe pa = none
  | .fork _ (some np) _ => s.live np = false
  | _ => True

instance (s : State I PG) : (c : Call I PG) → Decidable (Answers s c)
  | .pipe _ (some pa) _ => inferInstanceAs (Decidable (s.pipe pa = none))
  | .fork _ (some np) _ => inferInstanceAs (Decidable (s.live np = false))
  | .pipe _ none _ => isTrue trivial
  | .fork _ none _ => isTrue trivial
  | .open _ _ _ => isTrue trivial
  | .dup _ _ => isTrue trivial
  | .close _ _ => isTrue trivial
  | .exit _ => isTrue trivial

/-- A call of a running process from start to end; there is no next state if it panics. -/
def step (s : State I PG) (c : Call I PG) : Option (State I PG) :=
  if s.live c.caller = true ∧ Answers s c then
    match c.body.run s with
    | .ok (_, s') => some s'
    | .error _ => none
  else
    none

/-- After boot the first process runs, without open files. -/
def init : State I PG where
  file := fun _ => ⟨.none, 0, false, false, none, none, 0, 0, 0⟩
  ofile := fun _ => none
  live := fun p => p = initproc
  pipe := fun _ => none
  hist := ⟨[], 0, [], [], []⟩

end Xv6.FileTable
