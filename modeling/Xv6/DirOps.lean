import Xv6.Dir

/-!
# Creating, linking and unlinking

The operations of `kernel/sysfile.c` that change directories, for a caller whose
working directory is `cwd`, and the boot-time cleanup of `kernel/fs.c`. Paths are
as `argstr` leaves them in kernel memory.
-/
namespace Xv6.Fs

variable (sb : Superblock)

def isdirempty (dp : Ip) : FsM Bool := do
  let v ← inode dp
  let r ← Prog.search (fun k => do
    let de ← readDirent sb dp (DIRENT * k) .isdiremptyReadi
    return if de.inum ≠ 0 then some () else none) 2 (slots v.dino.size - 2)
  return r.isNone

/-- `ip->type != T_DIR || isdirempty(ip)`: may the inode be unlinked? -/
def removable (ip : Ip) : FsM Bool := do
  let v ← inode ip
  if v.dino.type = .dir then isdirempty sb ip else return true

def setNlink (ip : Ip) (f : Int16 → Int16) : FsM Unit := do
  modifyDino ip fun d => { d with nlink := f d.nlink }
  iupdate sb ip

/-- The links that `create` makes: `.` and `..` of a new directory, then the name
in the parent. False as soon as one fails. -/
def createLinks (dp ip : Ip) (name : Name) (type : FileType) : FsM Bool := do
  let inum := (← inode ip).inum
  if type = .dir then
    if ← dirlink sb ip dot inum then
      if ← dirlink sb ip dotdot (← inode dp).inum then
        dirlink sb dp name inum
      else
        return false
    else
      return false
  else
    dirlink sb dp name inum

/-- Make a new inode under a path, or open the file that is there. The inode is
returned locked. -/
def create (cwd : Ip) (path : List UInt8) (type : FileType) (major minor : Int16) :
    FsM (Option Ip) := do
  match ← nameiparent sb cwd path with
  | none => return none
  | some (dp, name) =>
    ilock dp
    match ← dirlookup sb dp name with
    | some (ip, _) =>
      iunlockput sb dp
      ilock ip
      let v ← inode ip
      if type = .file ∧ (v.dino.type = .file ∨ v.dino.type = .device) then
        return some ip
      else
        iunlockput sb ip
        return none
    | none =>
      match ← ialloc sb type with
      | none =>
        iunlockput sb dp
        return none
      | some ip =>
        ilock ip
        modifyDino ip fun d => { d with major := major, minor := minor, nlink := 1 }
        iupdate sb ip
        if ← createLinks sb dp ip name type then
          if type = .dir then
            setNlink sb dp (· + 1)
          iunlockput sb dp
          return some ip
        else
          setNlink sb ip fun _ => 0
          iunlockput sb ip
          iunlockput sb dp
          return none

/-- The `bad` exit of `sys_link`: take the link count back. -/
def linkBad (ip : Ip) : FsM ℤ := do
  ilock ip
  setNlink sb ip (· - 1)
  iunlockput sb ip
  endOp
  return -1

def sysLink (cwd : Ip) (old new : List UInt8) : FsM ℤ := do
  beginOp
  match ← namei sb cwd old with
  | none =>
    endOp
    return -1
  | some ip =>
    ilock ip
    if (← inode ip).dino.type = .dir then
      iunlockput sb ip
      endOp
      return -1
    else
      setNlink sb ip (· + 1)
      iunlock ip
      match ← nameiparent sb cwd new with
      | none => linkBad sb ip
      | some (dp, name) =>
        ilock dp
        if ← dirlink sb dp name (← inode ip).inum then
          iunlockput sb dp
          iput sb ip
          endOp
          return 0
        else
          iunlockput sb dp
          linkBad sb ip

def unlinkBad (dp : Ip) : FsM ℤ := do
  iunlockput sb dp
  endOp
  return -1

/-- The part of `sys_unlink` that removes the entry at `off` for `ip`. -/
def unlinkEntry (dp ip : Ip) (off : ℕ) : FsM ℤ := do
  if ← writeDirent sb dp (List.replicate DIRENT 0) off then
    if (← inode ip).dino.type = .dir then
      setNlink sb dp (· - 1)
    iunlockput sb dp
    setNlink sb ip (· - 1)
    iunlockput sb ip
    endOp
    return 0
  else
    throw .unlinkWritei

def sysUnlink (cwd : Ip) (path : List UInt8) : FsM ℤ := do
  beginOp
  match ← nameiparent sb cwd path with
  | none =>
    endOp
    return -1
  | some (dp, name) =>
    ilock dp
    if namecmp name dot = 0 ∨ namecmp name dotdot = 0 then
      unlinkBad sb dp
    else
      match ← dirlookup sb dp name with
      | none => unlinkBad sb dp
      | some (ip, off) =>
        ilock ip
        let v ← inode ip
        if v.dino.nlink < 1 then
          throw .unlinkNlink
        if ← removable sb ip then
          unlinkEntry sb dp ip off
        else
          iunlockput sb ip
          unlinkBad sb dp

/-- Free inode `inum` if it is allocated but has no links. -/
def ireclaimStep (inum : ℕ) : FsM Unit := do
  let d := (← get).dinode inum
  if d.type ≠ .free ∧ d.nlink = 0 then
    let ip ← iget inum
    beginOp
    ilock ip
    iunlock ip
    iput sb ip
    endOp

def ireclaim : FsM Unit := Prog.loop (sb.ninodes - 1) fun i => ireclaimStep sb (i + 1)

end Xv6.Fs
