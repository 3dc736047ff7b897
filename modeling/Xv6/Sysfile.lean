import Xv6.DirOps

/-!
# Files, processes and the file-system calls

`kernel/file.c`, the calls of `kernel/sysfile.c`, and what `kfork` and `kexit` of
`kernel/proc.c` do to open files and working directories. Pipes and the calls that
make them are left out, so every open file is an inode or a device.
-/
namespace Xv6.Fs

inductive FdType where
  | none
  | inode
  | device
  deriving DecidableEq, Repr

structure File where
  type : FdType
  ref : ℕ
  readable : Bool
  writable : Bool
  ip : Ip
  off : ℕ
  major : Int16

abbrev Fp := Fin NFILE

abbrev Pid := Fin NPROC

/-- The fields of `struct proc` that concern files. -/
structure Proc where
  cwd : Ip
  ofile : Fin NOFILE → Option Fp

structure Kernel where
  fs : State
  ftable : Fp → File
  proc : Pid → Option Proc

abbrev KM := Prog.M Kernel Panic

variable {α : Type}

/-- Run a program of the file system. -/
def onFs (m : FsM α) : KM α := Prog.zoom Kernel.fs (fun fs k => { k with fs := fs }) m

def modifyFile (f : Fp) (g : File → File) : KM Unit :=
  modify fun k => { k with ftable := Function.update k.ftable f (g (k.ftable f)) }

def modifyProc (p : Pid) (g : Proc → Proc) : KM Unit :=
  modify fun k => { k with proc := Function.update k.proc p ((k.proc p).map g) }

def filealloc : KM (Option Fp) := do
  let k ← get
  match (List.finRange NFILE).find? fun f => (k.ftable f).ref = 0 with
  | some f =>
    modifyFile f fun v => { v with ref := 1 }
    return some f
  | none => return none

def filedup (f : Fp) : KM Unit := do
  if ((← get).ftable f).ref < 1 then
    throw .filedup
  modifyFile f fun v => { v with ref := v.ref + 1 }

variable (sb : Superblock)

/-- The `iput` of `fileclose` and of `kexit`, in a transaction of its own. -/
def iputOp (ip : Ip) : FsM Unit := do
  beginOp
  iput sb ip
  endOp

def fileclose (f : Fp) : KM Unit := do
  let ff := (← get).ftable f
  if ff.ref < 1 then
    throw .fileclose
  if 1 < ff.ref then
    modifyFile f fun v => { v with ref := v.ref - 1 }
  else
    modifyFile f fun v => { v with ref := 0, type := .none }
    if ff.type ≠ .none then
      onFs (iputOp sb ff.ip)

/-- Read from a file. `dst` says which bytes of the user's buffer can be written;
`devread` is the result of the device's `read` function, if it has one. -/
def fileread (f : Fp) (dst : ℕ → Bool) (n : ℕ) (devread : Option ℤ) : KM ℤ := do
  let v := (← get).ftable f
  if v.readable = false then
    return -1
  else
    match v.type with
    | .device =>
      if v.major < 0 ∨ (NDEV : ℤ) ≤ v.major.toInt then
        return -1
      else
        return devread.getD (-1)
    | .inode => do
      onFs (ilock v.ip)
      let r ← onFs (readi sb v.ip dst v.off n)
      modifyFile f fun v => { v with off := v.off + (r.getD []).length }
      onFs (iunlock v.ip)
      return match r with
        | some l => l.length
        | none => -1
    | .none => throw .fileread

/-- The largest number of bytes written in one transaction. -/
def filewriteMax : ℕ := (MAXOPBLOCKS - 1 - 1 - 2) / 2 * BSIZE

/-- One transaction of `filewrite`. -/
def filewriteChunk (ip : Ip) (src : ℕ → Option UInt8) (off n1 : ℕ) : FsM (Option ℕ) := do
  beginOp
  ilock ip
  let r ← writei sb ip src off n1
  iunlock ip
  endOp
  return r

/-- The loop of `filewrite`; `i` bytes are written. -/
def filewriteLoop (f : Fp) (src : ℕ → Option UInt8) (n : ℕ) : ℕ → ℕ → KM ℕ
  | 0, i => return i
  | fuel + 1, i =>
    if n ≤ i then
      return i
    else do
      let n1 := min (n - i) filewriteMax
      let v := (← get).ftable f
      let r ← onFs (filewriteChunk sb v.ip (fun j => src (i + j)) v.off n1)
      modifyFile f fun v => { v with off := v.off + r.getD 0 }
      if r = some n1 then
        filewriteLoop f src n fuel (i + n1)
      else
        return i

def filewrite (f : Fp) (src : ℕ → Option UInt8) (n : ℤ) (devwrite : Option ℤ) : KM ℤ := do
  let v := (← get).ftable f
  if v.writable = false then
    return -1
  else
    match v.type with
    | .device =>
      if v.major < 0 ∨ (NDEV : ℤ) ≤ v.major.toInt then
        return -1
      else
        return devwrite.getD (-1)
    | .inode => do
      let i ← filewriteLoop sb f src n.toNat n.toNat 0
      return if (i : ℤ) = n then n else -1
    | .none => throw .filewrite

abbrev O_WRONLY : ℕ := 0x001
abbrev O_RDWR : ℕ := 0x002
abbrev O_CREATE : ℕ := 0x200
abbrev O_TRUNC : ℕ := 0x400

def fdalloc (p : Pid) (f : Fp) : KM (Option (Fin NOFILE)) := do
  let k ← get
  match (List.finRange NOFILE).find? fun fd => ((k.proc p).bind fun pr => pr.ofile fd) = none with
  | some fd =>
    modifyProc p fun pr => { pr with ofile := Function.update pr.ofile fd (some f) }
    return some fd
  | none => return none

/-- `filealloc` and `fdalloc`; if there is no descriptor the file is closed again. -/
def fileAndFd (p : Pid) : KM (Option (Fp × Fin NOFILE)) := do
  match ← filealloc with
  | none => return none
  | some f =>
    match ← fdalloc p f with
    | none =>
      fileclose sb f
      return none
    | some fd => return some (f, fd)

/-- The inode that `sys_open` opens, locked. -/
def openInode (cwd : Ip) (path : List UInt8) (omode : ℕ) : FsM (Option Ip) := do
  if omode &&& O_CREATE ≠ 0 then
    create sb cwd path .file 0 0
  else
    match ← namei sb cwd path with
    | none => return none
    | some ip =>
      ilock ip
      if (← inode ip).dino.type = .dir ∧ omode ≠ 0 then
        iunlockput sb ip
        return none
      else
        return some ip

def sysOpen (p : Pid) (pr : Proc) (path : List UInt8) (omode : ℕ) : KM ℤ := do
  onFs beginOp
  match ← onFs (openInode sb pr.cwd path omode) with
  | none =>
    onFs endOp
    return -1
  | some ip =>
    let d := ((← get).fs.itable ip).dino
    if d.type = .device ∧ (d.major < 0 ∨ (NDEV : ℤ) ≤ d.major.toInt) then
      onFs (iunlockput sb ip)
      onFs endOp
      return -1
    else
      match ← fileAndFd sb p with
      | none =>
        onFs (iunlockput sb ip)
        onFs endOp
        return -1
      | some (f, fd) =>
        modifyFile f fun v =>
          if d.type = .device then { v with type := .device, major := d.major }
          else { v with type := .inode, off := 0 }
        modifyFile f fun v => { v with
          ip := ip
          readable := omode &&& O_WRONLY = 0
          writable := omode &&& O_WRONLY ≠ 0 ∨ omode &&& O_RDWR ≠ 0 }
        if omode &&& O_TRUNC ≠ 0 ∧ d.type = .file then
          onFs (itrunc sb ip)
        onFs (iunlock ip)
        onFs endOp
        return fd

/-- `sys_mkdir` and `sys_mknod`: create, and drop the new inode. -/
def sysMake (cwd : Ip) (path : List UInt8) (type : FileType) (major minor : Int16) : FsM ℤ := do
  beginOp
  match ← create sb cwd path type major minor with
  | none =>
    endOp
    return -1
  | some ip =>
    iunlockput sb ip
    endOp
    return 0

def sysMkdir (cwd : Ip) (path : List UInt8) : FsM ℤ := sysMake sb cwd path .dir 0 0

def sysMknod (cwd : Ip) (path : List UInt8) (major minor : Int16) : FsM ℤ :=
  sysMake sb cwd path .device major minor

/-- `sys_chdir` up to its `end_op`: the new working directory. -/
def chdirInode (cwd : Ip) (path : List UInt8) : FsM (Option Ip) := do
  beginOp
  match ← namei sb cwd path with
  | none =>
    endOp
    return none
  | some ip =>
    ilock ip
    if (← inode ip).dino.type ≠ .dir then
      iunlockput sb ip
      endOp
      return none
    else
      iunlock ip
      iput sb cwd
      endOp
      return some ip

def sysChdir (p : Pid) (pr : Proc) (path : List UInt8) : KM ℤ := do
  match ← onFs (chdirInode sb pr.cwd path) with
  | none => return -1
  | some ip =>
    modifyProc p fun pr => { pr with cwd := ip }
    return 0

def sysClose (p : Pid) (pr : Proc) (fd : Fin NOFILE) : KM ℤ := do
  match pr.ofile fd with
  | none => return -1
  | some f =>
    modifyProc p fun pr => { pr with ofile := Function.update pr.ofile fd none }
    fileclose sb f
    return 0

def sysDup (p : Pid) (pr : Proc) (fd : Fin NOFILE) : KM ℤ := do
  match pr.ofile fd with
  | none => return -1
  | some f =>
    match ← fdalloc p f with
    | none => return -1
    | some fd' =>
      filedup f
      return fd'

/-- `kfork` with the slot `np` that `allocproc` found; `none` if there is none or
the memory cannot be copied. -/
def kfork (pr : Proc) (np : Option Pid) : KM ℤ := do
  match np with
  | none => return -1
  | some np =>
    if ((← get).proc np).isSome then
      return -1
    else
      Prog.loop NOFILE fun fd =>
        match pr.ofile (Fin.ofNat _ fd) with
        | some f => filedup f
        | none => pure ()
      let cwd ← onFs (idup pr.cwd)
      modify fun k =>
        { k with proc := Function.update k.proc np (some { cwd := cwd, ofile := pr.ofile }) }
      return np

/-- `kexit`: close everything and give the working directory up. The first
process of the table is `init`. -/
def kexit (p : Pid) (pr : Proc) : KM ℤ := do
  if p.val = 0 then
    throw .initExiting
  Prog.loop NOFILE fun fd =>
    match pr.ofile (Fin.ofNat _ fd) with
    | some f => do
      fileclose sb f
      modifyProc p fun pr => { pr with ofile := Function.update pr.ofile (Fin.ofNat _ fd) none }
    | none => pure ()
  onFs (iputOp sb pr.cwd)
  modify fun k => { k with proc := Function.update k.proc p none }
  return 0

/-- A path as `argstr` fetches it: a string without zeros that fits the buffer. -/
structure Path where
  chars : List UInt8
  nonzero : 0 ∉ chars
  fits : chars.length < MAXPATH

/-- The file-system calls. A path is `none` if `argstr` fails. -/
inductive Call where
  | open (path : Option Path) (omode : ℕ)
  | mkdir (path : Option Path)
  | mknod (path : Option Path) (major minor : Int16)
  | link (old new : Option Path)
  | unlink (path : Option Path)
  | chdir (path : Option Path)
  | close (fd : Fin NOFILE)
  | dup (fd : Fin NOFILE)
  | read (fd : Fin NOFILE) (dst : ℕ → Bool) (n : ℕ) (devread : Option ℤ)
  | write (fd : Fin NOFILE) (src : ℕ → Option UInt8) (n : ℤ) (devwrite : Option ℤ)
  | fork (np : Option Pid)
  | exit

/-- What a call of process `p` runs. -/
def Call.body (p : Pid) (pr : Proc) : Call → KM ℤ
  | .open (some path) omode => sysOpen sb p pr path.chars omode
  | .mkdir (some path) => onFs (sysMkdir sb pr.cwd path.chars)
  | .mknod (some path) major minor => onFs (sysMknod sb pr.cwd path.chars major minor)
  | .link (some old) (some new) => onFs (sysLink sb pr.cwd old.chars new.chars)
  | .unlink (some path) => onFs (sysUnlink sb pr.cwd path.chars)
  | .chdir (some path) => sysChdir sb p pr path.chars
  | .close fd => sysClose sb p pr fd
  | .dup fd => sysDup p pr fd
  | .read fd dst n devread =>
    match pr.ofile fd with
    | some f => fileread sb f dst n devread
    | none => return -1
  | .write fd src n devwrite =>
    match pr.ofile fd with
    | some f => filewrite sb f src n devwrite
    | none => return -1
  | .fork np => kfork pr np
  | .exit => kexit sb p pr
  | _ => return -1

/-- A call of process `p`; nothing happens if there is no such process. -/
def syscall (p : Pid) (c : Call) : KM ℤ := do
  match (← get).proc p with
  | some pr => c.body sb p pr
  | none => return -1

end Xv6.Fs
