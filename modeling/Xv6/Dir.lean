import Xv6.Fs

/-!
# The file system: directories and paths

The rest of `kernel/fs.c` and the directory operations of `kernel/sysfile.c`.
A directory is a file of 16-byte entries: an inode number, two bytes, and a name,
`DIRSIZ` bytes padded with zeros. Names in memory are lists of characters without
the terminating zero. Every inode is on the one mounted device, so device numbers
are left out.
-/
namespace Xv6.Fs

abbrev Name := List UInt8

/-- `strncmp`: the difference of the first characters that differ; what lies
behind the end of a list reads as zero. -/
def strncmp : ℕ → Name → Name → ℤ
  | 0, _, _ => 0
  | n + 1, p, q =>
    if p.headD 0 ≠ 0 ∧ p.headD 0 = q.headD 0 then
      strncmp n p.tail q.tail
    else
      (p.headD 0).toNat - (q.headD 0).toNat

/-- `strncpy`: exactly `n` characters, zeros after the end of the string. -/
def strncpy : ℕ → Name → Name
  | 0, _ => []
  | n + 1, t =>
    if t.headD 0 = 0 then List.replicate (n + 1) 0 else t.headD 0 :: strncpy n t.tail

def namecmp (s t : Name) : ℤ := strncmp DIRSIZ s t

structure Dirent where
  inum : ℕ
  name : Name
  deriving DecidableEq

/-- `sizeof(struct dirent)`. -/
abbrev DIRENT : ℕ := 16

namespace Dirent

def ofBytes (l : List UInt8) : Dirent where
  inum := (l.getD 0 0).toNat + 256 * (l.getD 1 0).toNat
  name := l.drop 2

/-- The bytes of an entry as `dirlink` fills it in: the number is cut to 16 bits. -/
def toBytes (de : Dirent) : List UInt8 :=
  UInt8.ofNat de.inum :: UInt8.ofNat (de.inum / 256) :: strncpy DIRSIZ de.name

end Dirent

/-- The name `"."`. -/
def dot : Name := [46]

/-- The name `".."`. -/
def dotdot : Name := [46, 46]

variable (sb : Superblock)

/-- Read the entry at offset `off`; a short read panics. -/
def readDirent (dp : Ip) (off : ℕ) (p : Panic) : FsM Dirent := do
  match ← readi sb dp (fun _ => true) off DIRENT with
  | some l => if l.length = DIRENT then return .ofBytes l else throw p
  | none => throw p

/-- Write 16 bytes of kernel memory at offset `off`; false unless all are written. -/
def writeDirent (dp : Ip) (l : List UInt8) (off : ℕ) : FsM Bool := do
  let r ← writei sb dp (fun i => some (l.getD i 0)) off DIRENT
  return r = some DIRENT

/-- Number of iterations of `for (off = 0; off < size; off += sizeof(de))`. -/
def slots (size : ℕ) : ℕ := (size + 15) / DIRENT

/-- Look a name up: the inode and the offset of the entry. -/
def dirlookup (dp : Ip) (name : Name) : FsM (Option (Ip × ℕ)) := do
  let v ← inode dp
  if v.dino.type ≠ .dir then
    throw .dirlookupNotDir
  Prog.search (fun k => do
    let de ← readDirent sb dp (DIRENT * k) .dirlookupRead
    if de.inum = 0 then
      return none
    else if namecmp name de.name = 0 then
      let ip ← iget de.inum
      return some (ip, DIRENT * k)
    else
      return none) 0 (slots v.dino.size)

/-- Add the entry `(name, inum)`, in the first empty slot or at the end; false if
the name exists or the write fails. -/
def dirlink (dp : Ip) (name : Name) (inum : ℕ) : FsM Bool := do
  match ← dirlookup sb dp name with
  | some (ip, _) =>
    iput sb ip
    return false
  | none =>
    let v ← inode dp
    let off ← Prog.search (fun k => do
      let de ← readDirent sb dp (DIRENT * k) .dirlinkRead
      return if de.inum = 0 then some (DIRENT * k) else none) 0 (slots v.dino.size)
    writeDirent sb dp (Dirent.toBytes ⟨inum, name⟩) (off.getD (DIRENT * slots v.dino.size))

/-- The character `'/'`. -/
def slash : UInt8 := 47

/-- Split off the next path element: what follows it, and the element cut to
`DIRSIZ` characters; `none` if only slashes are left. -/
def skipelem (path : List UInt8) : Option (List UInt8 × Name) :=
  let s := path.dropWhile (· = slash)
  if s = [] then
    none
  else
    some ((s.dropWhile (· ≠ slash)).dropWhile (· = slash), (s.takeWhile (· ≠ slash)).take DIRSIZ)

/-- The elements that repeated calls of `skipelem` give. -/
def elements : ℕ → List UInt8 → List Name
  | 0, _ => []
  | fuel + 1, path =>
    match skipelem path with
    | none => []
    | some (rest, name) => name :: elements fuel rest

/-- The loop of `namex` over the path elements. With `parent` it stops at the
last element and returns its directory, unlocked. -/
def namexLoop (parent : Bool) : Ip → List Name → FsM (Option (Ip × Name))
  | ip, [] =>
    if parent then do
      iput sb ip
      return none
    else
      return some (ip, [])
  | ip, name :: rest => do
    ilock ip
    let v ← inode ip
    if v.dino.type ≠ .dir then
      iunlockput sb ip
      return none
    else if parent ∧ rest = [] then
      iunlock ip
      return some (ip, name)
    else
      match ← dirlookup sb ip name with
      | none =>
        iunlockput sb ip
        return none
      | some (next, _) =>
        iunlockput sb ip
        namexLoop parent next rest

/-- Where a path starts: at the root or in the working directory. -/
def namexStart (cwd : Ip) (path : List UInt8) : FsM Ip :=
  if path.head? = some slash then iget ROOTINO else idup cwd

def namex (cwd : Ip) (path : List UInt8) (parent : Bool) : FsM (Option (Ip × Name)) := do
  let ip ← namexStart cwd path
  namexLoop sb parent ip (elements path.length path)

def namei (cwd : Ip) (path : List UInt8) : FsM (Option Ip) := do
  return (← namex sb cwd path false).map Prod.fst

def nameiparent (cwd : Ip) (path : List UInt8) : FsM (Option (Ip × Name)) :=
  namex sb cwd path true

end Xv6.Fs
