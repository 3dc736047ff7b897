import Xv6.Vm
import Xv6.Runs

/-!
# The memory of processes

What `kernel/proc.c`, `kernel/exec.c`, `kernel/pipe.c` and the calls `sbrk` and `exec` do with
pages, as a sequence of operations. What they read from the disk and from user memory
is given with the operation: the program headers, if reading them and the segments
succeeds, and the strings that `sys_exec` fetches.
-/
namespace Xv6.Vm

open Function

variable (L : Layout)

def modifyProc (p : Pid) (f : Proc → Proc) : VM Unit :=
  modify fun s => { s with proc := update s.proc p (f (s.proc p)) }

/-- For the process with this trapframe. -/
def procPagetable (trapframe : ℕ) : VM (Option ℕ) := do
  match ← uvmcreate with
  | none => return none
  | some pagetable =>
    if ← mappages pagetable TRAMPOLINE PGSIZE L.trampoline (PTE_R ||| PTE_X) then
      if ← mappages pagetable TRAPFRAME PGSIZE trapframe (PTE_R ||| PTE_W) then
        return some pagetable
      else
        uvmunmap L pagetable TRAMPOLINE 1 false
        uvmfree L pagetable 0
        return none
    else
      uvmfree L pagetable 0
      return none

def procFreepagetable (pagetable sz : ℕ) : VM Unit := do
  uvmunmap L pagetable TRAMPOLINE 1 false
  uvmunmap L pagetable TRAPFRAME 1 false
  uvmfree L pagetable sz

def freeproc (p : Pid) : VM Unit := do
  match ((← get).proc p).trapframe with
  | some tf => kfree L tf
  | none => pure ()
  modifyProc p fun pr => { pr with trapframe := none }
  let pr := (← get).proc p
  match pr.pagetable with
  | some pagetable => procFreepagetable L pagetable pr.sz
  | none => pure ()
  modifyProc p fun _ => ⟨.unused, none, none, 0⟩

def allocproc : VM (Option Pid) := do
  let s ← get
  match (List.finRange NPROC).find? fun p => (s.proc p).state = .unused with
  | none => return none
  | some p =>
    modifyProc p fun pr => { pr with state := .used }
    let tf ← kalloc
    modifyProc p fun pr => { pr with trapframe := tf }
    match tf with
    | none =>
      freeproc L p
      return none
    | some tf =>
      let pagetable ← procPagetable L tf
      modifyProc p fun pr => { pr with pagetable := pagetable }
      match pagetable with
      | none =>
        freeproc L p
        return none
      | some _ => return some p

/-- Returns if it succeeds. -/
def growproc (p : Pid) (n : ℤ) : VM Bool := do
  let pr := (← get).proc p
  match pr.pagetable with
  | none => throw .null
  | some pagetable =>
    if 0 < n then
      let sz ← uvmalloc L pagetable pr.sz (wrap (pr.sz + n)) PTE_W
      if sz = 0 then
        return false
      else
        modifyProc p fun pr => { pr with sz := sz }
        return true
    else if n < 0 then
      let sz ← uvmdealloc L pagetable pr.sz (wrap (pr.sz + n))
      modifyProc p fun pr => { pr with sz := sz }
      return true
    else
      return true

abbrev SBRK_EAGER : ℤ := 1

def sysSbrk (p : Pid) (n t : ℤ) : VM Unit := do
  if t = SBRK_EAGER ∨ n < 0 then
    let _ ← growproc L p n
  else
    let addr := ((← get).proc p).sz
    if wrap (addr + n) < addr then
      pure ()
    else
      modifyProc p fun pr => { pr with sz := wrap (pr.sz + n) }

def kfork (p : Pid) : VM Unit := do
  let pr := (← get).proc p
  match ← allocproc L with
  | none => pure ()
  | some np =>
    match pr.pagetable, ((← get).proc np).pagetable with
    | some old, some new =>
      if ← uvmcopy L old new pr.sz then
        modifyProc np fun npr => { npr with sz := pr.sz }
      else
        freeproc L np
    | _, _ => throw .null

/-- The exit status is copied to `addr` unless that is 0; then the child is freed. -/
def kwait (p child : Pid) (addr : ℕ) : VM Unit := do
  match ((← get).proc p).pagetable with
  | none => throw .null
  | some pagetable =>
    let copied ← if addr = 0 then pure true else copyout L p pagetable 4 addr 4
    if copied then
      freeproc L child

abbrev MAXARG : ℕ := 32
abbrev USERSTACK : ℕ := 1

/-- A program header: if it could be read, if it is of type `ELF_PROG_LOAD`, and which
of the segment's pages can be read. -/
structure Ph where
  read : Bool
  load : Bool
  filesz : Fin (2 ^ 64)
  memsz : Fin (2 ^ 64)
  vaddr : Fin (2 ^ 64)
  flags : BitVec 32
  pages : ℕ → Bool

/-- ELF permissions as permission bits of an entry. -/
def flags2perm (flags : BitVec 32) : BitVec 10 :=
  (if flags &&& 1 ≠ 0 then PTE_X else 0) ||| if flags &&& 2 ≠ 0 then PTE_W else 0

def loadseg (pagetable va : ℕ) (pages : ℕ → Bool) (sz : ℕ) : VM Bool := do
  let failed ← Prog.search (fun i => do
    match ← walkaddr pagetable (va + i * PGSIZE) with
    | none => throw .loadseg
    | some _ => return if pages i then none else some ()) 0 ((sz + (PGSIZE - 1)) / PGSIZE)
  return failed.isNone

/-- The loop over the program headers: the size reached, and if all were loaded. -/
def loadProgram (pagetable : ℕ) : List Ph → ℕ → VM (ℕ × Bool)
  | [], sz => return (sz, true)
  | ph :: phs, sz =>
    if ph.read = false then
      return (sz, false)
    else if ph.load = false then
      loadProgram pagetable phs sz
    else if ph.memsz < ph.filesz ∨ 2 ^ 64 ≤ ph.vaddr.val + ph.memsz ∨ ph.vaddr.val % PGSIZE ≠ 0 then
      return (sz, false)
    else do
      let sz1 ← uvmalloc L pagetable sz (ph.vaddr + ph.memsz) (flags2perm ph.flags)
      if sz1 = 0 then
        return (sz, false)
      else if ← loadseg pagetable ph.vaddr ph.pages (ph.filesz % 2 ^ 32) then
        loadProgram pagetable phs sz1
      else
        return (sz1, false)

/-- The loop that copies the argument strings; the stack pointer, if it succeeds. -/
def pushArgs (p : Pid) (pagetable stackbase : ℕ) : ℕ → List (Fin PGSIZE) → ℕ → VM (Option ℕ)
  | _, [], sp => return some sp
  | argc, len :: lens, sp => do
    let sp := (sp - (len + 1)) / 16 * 16
    if MAXARG ≤ argc ∨ sp < stackbase then
      return none
    else if ← copyout L p pagetable (len + 1) sp (len + 1) then
      pushArgs p pagetable stackbase (argc + 1) lens sp
    else
      return none

/-- The stack: its size and if its arguments could be copied. -/
def makeStack (p : Pid) (pagetable : ℕ) (args : List (Fin PGSIZE)) (sz : ℕ) : VM (ℕ × Bool) := do
  let sz := pgroundup sz
  let sz1 ← uvmalloc L pagetable sz (wrap (sz + (USERSTACK + 1) * PGSIZE)) PTE_W
  if sz1 = 0 then
    return (sz, false)
  else
    uvmclear pagetable (sz1 - (USERSTACK + 1) * PGSIZE)
    let stackbase := sz1 - USERSTACK * PGSIZE
    match ← pushArgs L p pagetable stackbase 0 args sz1 with
    | none => return (sz1, false)
    | some sp =>
      let sp := (sp - (args.length + 1) * 8) / 16 * 16
      if sp < stackbase then
        return (sz1, false)
      else
        return (sz1, ← copyout L p pagetable ((args.length + 1) * 8) sp ((args.length + 1) * 8))

/-- `kexec`, once the file is open; `header` says if its header is that of a program. -/
def kexec (p : Pid) (header : Bool) (phs : List Ph) (args : List (Fin PGSIZE)) : VM Unit := do
  let pr := (← get).proc p
  if header then
    match pr.trapframe with
    | none => throw .null
    | some tf =>
      match ← procPagetable L tf with
      | none => pure ()
      | some pagetable =>
        let (sz, loaded) ← loadProgram L pagetable phs 0
        if loaded then
          let (sz, pushed) ← makeStack L p pagetable args sz
          if pushed then
            modifyProc p fun pr => { pr with pagetable := some pagetable, sz := sz }
            match pr.pagetable with
            | none => throw .null
            | some old => procFreepagetable L old pr.sz
          else
            procFreepagetable L pagetable sz
        else
          procFreepagetable L pagetable sz

def fetchaddr (p : Pid) (addr : ℕ) : VM Bool := do
  let pr := (← get).proc p
  if pr.sz ≤ addr ∨ pr.sz < wrap (addr + 8) then
    return false
  else
    match pr.pagetable with
    | none => throw .null
    | some pagetable => copyin L p pagetable 8 addr 8

/-- The loop of `sys_exec` that fetches the arguments: the pages in `argv`, and if all
were fetched. A string is `none` if `fetchstr` fails; the list ends with a null
pointer. -/
def fetchArgs (p : Pid) (uargv : ℕ) : ℕ → List (Option (Fin PGSIZE)) → List ℕ → VM (List ℕ × Bool)
  | i, uargs, argv =>
    if MAXARG ≤ i then
      return (argv, false)
    else do
      if ← fetchaddr L p (wrap (uargv + 8 * i)) then
        match uargs with
        | [] => return (argv, true)
        | uarg :: uargs =>
          match ← kalloc with
          | none => return (argv, false)
          | some pa =>
            if uarg.isSome then
              fetchArgs p uargv (i + 1) uargs (argv ++ [pa])
            else
              return (argv ++ [pa], false)
      else
        return (argv, false)

def sysExec (p : Pid) (uargv : ℕ) (uargs : List (Option (Fin PGSIZE))) (header : Bool)
    (phs : List Ph) : VM Unit := do
  let (argv, fetched) ← fetchArgs L p uargv 0 uargs []
  if fetched then
    kexec L p header phs (uargs.filterMap id)
  argv.forM (kfree L)

/-- `userinit` makes the first process, and `pipe` and `pipeclose` are the page of a pipe. -/
inductive Op where
  | userinit
  | fork (p : Pid)
  | exit (p : Pid)
  | wait (p child : Pid) (addr : ℕ)
  | exec (p : Pid) (uargv : ℕ) (uargs : List (Option (Fin PGSIZE))) (header : Bool) (phs : List Ph)
  | sbrk (p : Pid) (n t : ℤ)
  | fault (p : Pid) (va : ℕ)
  | pipe
  | pipeclose (pa : ℕ)

def Op.body : Op → VM Unit
  | .userinit => do
    let _ ← allocproc L
  | .fork p => kfork L p
  | .exit p => modifyProc p fun pr => { pr with state := .zombie }
  | .wait p child addr => kwait L p child addr
  | .exec p uargv uargs header phs => sysExec L p uargv uargs header phs
  | .sbrk p n t => sysSbrk L p n t
  | .fault p va => do
    match ((← get).proc p).pagetable with
    | none => throw .null
    | some pagetable =>
      let _ ← vmfault L p pagetable va
  | .pipe => do
    match ← kalloc with
    | none => pure ()
    | some pa => modify fun s => { s with pipes := pa :: s.pipes }
  | .pipeclose pa => do
    modify fun s => { s with pipes := s.pipes.erase pa }
    kfree L pa

/-- The processes that take part are running, the child has exited, the pipe is open,
and an `int` and an address have their range. -/
def Enabled (s : State) : Op → Prop
  | .userinit => True
  | .fork p => (s.proc p).state = .used
  | .exit p => (s.proc p).state = .used
  | .wait p child addr => (s.proc p).state = .used ∧ (s.proc child).state = .zombie ∧ addr < 2 ^ 64
  | .exec p uargv _ _ _ => (s.proc p).state = .used ∧ uargv < 2 ^ 64
  | .sbrk p n _ => (s.proc p).state = .used ∧ -2 ^ 31 ≤ n ∧ n < 2 ^ 31
  | .fault p va => (s.proc p).state = .used ∧ va < 2 ^ 64
  | .pipe => True
  | .pipeclose pa => pa ∈ s.pipes

instance (s : State) : (op : Op) → Decidable (Enabled s op)
  | .userinit => isTrue trivial
  | .fork p => inferInstanceAs (Decidable ((s.proc p).state = .used))
  | .exit p => inferInstanceAs (Decidable ((s.proc p).state = .used))
  | .wait _ _ _ => inferInstanceAs (Decidable (_ ∧ _ ∧ _))
  | .exec _ _ _ _ _ => inferInstanceAs (Decidable (_ ∧ _))
  | .sbrk _ _ _ => inferInstanceAs (Decidable (_ ∧ _ ∧ _))
  | .fault _ _ => inferInstanceAs (Decidable (_ ∧ _))
  | .pipe => isTrue trivial
  | .pipeclose pa => inferInstanceAs (Decidable (pa ∈ s.pipes))

/-- An operation from start to end, with the calls of `kalloc` that are refused. There
is no next state if it panics. -/
def step (s : State) : Op × List Bool → Option State
  | (op, refuse) =>
    if Enabled s op then
      match (op.body L).run { s with refuse := refuse } with
      | .ok (_, s') => some s'
      | .error _ => none
    else
      none

/-- After boot: the pages that the kernel has not taken are free. -/
def init (mem : ℕ → Fin 512 → Word) (freelist : List ℕ) : State where
  mem := mem
  freelist := freelist
  proc := fun _ => ⟨.unused, none, none, 0⟩
  pipes := []
  refuse := []
  events := []

end Xv6.Vm
