import Xv6.Dinode
import Xv6.Bytes
import Xv6.Prog

/-!
# The file system: blocks, inodes and their contents

`kernel/fs.c` up to `writei`, as programs over the state of one mounted disk.
The disk is kept in the three kinds of blocks the code uses: the bits of the free
map, the inodes, and the data blocks (indirect blocks among them), as the buffer
cache presents them. The system calls run one at a time, so a sleep-lock that its
own caller holds already is a deadlock.
-/
namespace Xv6.Fs

abbrev Block : Type := Bytes.Buf BSIZE

/-- The fields of `struct superblock` that the file system reads. The size is a
`uint`, and there is an inode for the root directory. -/
structure Superblock where
  size : ℕ
  ninodes : ℕ
  inodestart : ℕ
  bmapstart : ℕ
  size_lt : size < 2 ^ 32
  root_lt : ROOTINO < ninodes

namespace Superblock

/-- `IBLOCK`: the block that holds inode `i`. -/
def iblock (sb : Superblock) (i : ℕ) : ℕ := i / IPB + sb.inodestart

/-- `BBLOCK`: the block of the free map that holds the bit of block `b`. -/
def bblock (sb : Superblock) (b : ℕ) : ℕ := b / BPB + sb.bmapstart

/-- The first block after the free map, as `mkfs` lays the disk out. -/
def dataStart (sb : Superblock) : ℕ := sb.bmapstart + (sb.size / BPB + 1)

end Superblock

/-- The ways the file system stops the machine. `deadlock` is a sleep-lock taken
twice by the same caller; the others are calls of `panic`. -/
inductive Panic where
  | freeingFreeBlock
  | igetNoInodes
  | ilock
  | ilockNoType
  | iunlock
  | bmapOutOfRange
  | dirlookupNotDir
  | dirlookupRead
  | dirlinkRead
  | isdiremptyReadi
  | unlinkNlink
  | unlinkWritei
  | filedup
  | fileclose
  | fileread
  | filewrite
  | initExiting
  | deadlock
  deriving DecidableEq, Repr

/-- A slot of the inode table: `struct inode` with its copy of the disk inode. -/
structure Inode where
  inum : ℕ
  ref : ℕ
  valid : Bool
  locked : Bool
  dino : Dinode

/-- A pointer into the inode table. -/
abbrev Ip := Fin NINODE

structure State where
  bitmap : ℕ → Bool
  dinode : ℕ → Dinode
  data : ℕ → Block
  itable : Ip → Inode
  /-- The blocks passed to `log_write` since the last `begin_op`. -/
  logged : List ℕ
  /-- How often each inode was allocated: a history variable, read by nothing. -/
  gen : ℕ → ℕ

abbrev FsM := Prog.M State Panic

def beginOp : FsM Unit := modify fun s => { s with logged := [] }

/-- What was logged is handed over for the commit. -/
def endOp : FsM Unit := pure ()

def logWrite (b : ℕ) : FsM Unit := modify fun s => { s with logged := b :: s.logged }

def setData (b : ℕ) (v : Block) : FsM Unit :=
  modify fun s => { s with data := Function.update s.data b v }

def inode (ip : Ip) : FsM Inode := do return (← get).itable ip

def modifyInode (ip : Ip) (f : Inode → Inode) : FsM Unit :=
  modify fun s => { s with itable := Function.update s.itable ip (f (s.itable ip)) }

def modifyDino (ip : Ip) (f : Dinode → Dinode) : FsM Unit :=
  modifyInode ip fun v => { v with dino := f v.dino }

def setAddr (ip : Ip) (i : Fin (NDIRECT + 1)) (a : ℕ) : FsM Unit :=
  modifyDino ip fun d => d.withAddr i a

def bzero (b : ℕ) : FsM Unit := do
  setData b fun _ => 0
  logWrite b

variable (sb : Superblock)

/-- Allocate a zeroed block: the first one whose bit is clear, 0 if there is none. -/
def balloc : FsM ℕ := do
  let s ← get
  match (List.range sb.size).find? fun b => !s.bitmap b with
  | some b =>
    modify fun s => { s with bitmap := Function.update s.bitmap b true }
    logWrite (sb.bblock b)
    bzero b
    return b
  | none => return 0

def bfree (b : ℕ) : FsM Unit := do
  let s ← get
  if s.bitmap b = false then
    throw .freeingFreeBlock
  modify fun s => { s with bitmap := Function.update s.bitmap b false }
  logWrite (sb.bblock b)

/-- Find the slot of inode `inum`, or recycle the first empty one. -/
def iget (inum : ℕ) : FsM Ip := do
  let s ← get
  match (List.finRange NINODE).find? fun ip =>
    0 < (s.itable ip).ref ∧ (s.itable ip).inum = inum with
  | some ip =>
    modifyInode ip fun v => { v with ref := v.ref + 1 }
    return ip
  | none =>
    match (List.finRange NINODE).find? fun ip => (s.itable ip).ref = 0 with
    | some ip =>
      modifyInode ip fun v => { v with inum := inum, ref := 1, valid := false }
      return ip
    | none => throw .igetNoInodes

/-- Allocate the first free inode with the given type. -/
def ialloc (type : FileType) : FsM (Option Ip) := do
  let s ← get
  match (List.range' 1 (sb.ninodes - 1)).find? fun i => (s.dinode i).type = .free with
  | some i =>
    modify fun s => { s with
      dinode := Function.update s.dinode i (Dinode.fresh type)
      gen := Function.update s.gen i (s.gen i + 1) }
    logWrite (sb.iblock i)
    return some (← iget i)
  | none => return none

/-- Copy the inode to disk. -/
def iupdate (ip : Ip) : FsM Unit := do
  let v ← inode ip
  modify fun s => { s with dinode := Function.update s.dinode v.inum v.dino }
  logWrite (sb.iblock v.inum)

def idup (ip : Ip) : FsM Ip := do
  modifyInode ip fun v => { v with ref := v.ref + 1 }
  return ip

def acquiresleep (ip : Ip) : FsM Unit := do
  if (← inode ip).locked then
    throw .deadlock
  modifyInode ip fun v => { v with locked := true }

def releasesleep (ip : Ip) : FsM Unit := modifyInode ip fun v => { v with locked := false }

def ilock (ip : Ip) : FsM Unit := do
  if (← inode ip).ref < 1 then
    throw .ilock
  acquiresleep ip
  if (← inode ip).valid = false then
    let s ← get
    modifyInode ip fun v => { v with dino := s.dinode v.inum, valid := true }
    if (← inode ip).dino.type = .free then
      throw .ilockNoType

def iunlock (ip : Ip) : FsM Unit := do
  let v ← inode ip
  if v.locked = false ∨ v.ref < 1 then
    throw .iunlock
  releasesleep ip

/-- `ip->addrs[i]`, allocating the block if there is none; 0 when the disk is full. -/
def addrOrAlloc (ip : Ip) (i : Fin (NDIRECT + 1)) : FsM ℕ := do
  let v ← inode ip
  if v.dino.addrs i ≠ 0 then
    return v.dino.addrs i
  else
    let addr ← balloc sb
    if addr = 0 then
      return 0
    else
      setAddr ip i addr
      return addr

/-- Entry `j` of the indirect block `ind`, allocating the block if there is none. -/
def entryOrAlloc (ind j : ℕ) : FsM ℕ := do
  let s ← get
  let addr := (Bytes.word (s.data ind) (4 * j)).toNat
  if addr ≠ 0 then
    return addr
  else
    let addr ← balloc sb
    if addr ≠ 0 then
      let s ← get
      setData ind (Bytes.setWord (s.data ind) (4 * j) (UInt32.ofNat addr))
      logWrite ind
    return addr

/-- The address of block `bn` of the inode, allocating it if there is none. -/
def bmap (ip : Ip) (bn : ℕ) : FsM ℕ :=
  if bn < NDIRECT then
    addrOrAlloc sb ip (Fin.ofNat _ bn)
  else if bn - NDIRECT < NINDIRECT then do
    let ind ← addrOrAlloc sb ip (Fin.last NDIRECT)
    if ind = 0 then
      return 0
    else
      entryOrAlloc sb ind (bn - NDIRECT)
  else
    throw .bmapOutOfRange

/-- Discard the contents of the inode. -/
def itrunc (ip : Ip) : FsM Unit := do
  Prog.loop NDIRECT fun i => do
    let v ← inode ip
    if v.dino.addrs (Fin.ofNat _ i) ≠ 0 then
      bfree sb (v.dino.addrs (Fin.ofNat _ i))
      setAddr ip (Fin.ofNat _ i) 0
  let v ← inode ip
  let ind := v.dino.addrs (Fin.last NDIRECT)
  if ind ≠ 0 then
    let a := (← get).data ind
    Prog.loop NINDIRECT fun j => do
      if (Bytes.word a (4 * j)).toNat ≠ 0 then
        bfree sb (Bytes.word a (4 * j)).toNat
    bfree sb ind
    setAddr ip (Fin.last NDIRECT) 0
  modifyDino ip fun d => { d with size := 0 }
  iupdate sb ip

/-- Drop a reference; the last one to an inode without links frees it on disk. -/
def iput (ip : Ip) : FsM Unit := do
  let v ← inode ip
  if v.ref = 1 ∧ v.valid ∧ v.dino.nlink = 0 then
    acquiresleep ip
    itrunc sb ip
    modifyDino ip fun d => { d with type := .free }
    iupdate sb ip
    modifyInode ip fun v => { v with valid := false }
    releasesleep ip
  modifyInode ip fun v => { v with ref := v.ref - 1 }

def iunlockput (ip : Ip) : FsM Unit := do
  iunlock ip
  iput sb ip

/-- The copying loop of `readi`: `n` bytes are left, `acc` are read. `dst` says
which bytes of the destination can be written. -/
def readLoop (ip : Ip) (dst : ℕ → Bool) : ℕ → ℕ → ℕ → List UInt8 → FsM (Option (List UInt8))
  | 0, _, _, acc => return some acc
  | fuel + 1, off, n, acc =>
    if n = 0 then
      return some acc
    else do
      let addr ← bmap sb ip (off / BSIZE)
      if addr = 0 then
        return some acc
      else
        let s ← get
        let m := min n (BSIZE - off % BSIZE)
        if (List.range m).all fun i => dst (acc.length + i) then
          readLoop ip dst fuel (off + m) (n - m)
            (acc ++ (List.range m).map fun i => Bytes.get (s.data addr) (off % BSIZE + i))
        else
          return none

/-- Read `n` bytes from offset `off`: the bytes read, or `none` for `-1`. -/
def readi (ip : Ip) (dst : ℕ → Bool) (off n : ℕ) : FsM (Option (List UInt8)) := do
  let size := (← inode ip).dino.size
  if size < off ∨ 2 ^ 32 ≤ off + n then
    return some []
  else
    let n := if size < off + n then size - off else n
    readLoop sb ip dst n off n []

/-- How many of the next `m` source bytes are copied before one is not mapped. -/
def copied (src : ℕ → Option UInt8) (tot m : ℕ) : ℕ :=
  ((List.range m).takeWhile fun i => (src (tot + i)).isSome).length

/-- The copying loop of `writei`: `n` bytes are left, `tot` are written. Ends with
the offset and the count reached. -/
def writeLoop (ip : Ip) (src : ℕ → Option UInt8) : ℕ → ℕ → ℕ → ℕ → FsM (ℕ × ℕ)
  | 0, off, _, tot => return (off, tot)
  | fuel + 1, off, n, tot =>
    if n = 0 then
      return (off, tot)
    else do
      let addr ← bmap sb ip (off / BSIZE)
      if addr = 0 then
        return (off, tot)
      else
        let s ← get
        let m := min n (BSIZE - off % BSIZE)
        let k := copied src tot m
        setData addr (Bytes.blit (s.data addr) (off % BSIZE) k fun i => (src (tot + i)).getD 0)
        if k < m then
          -- either_copyin failed; what it had copied stays in the buffer
          return (off, tot)
        else
          logWrite addr
          writeLoop ip src fuel (off + m) (n - m) (tot + m)

/-- Write `n` bytes at offset `off`: the number written, or `none` for `-1`. -/
def writei (ip : Ip) (src : ℕ → Option UInt8) (off n : ℕ) : FsM (Option ℕ) := do
  let size := (← inode ip).dino.size
  if size < off ∨ 2 ^ 32 ≤ off + n then
    return none
  else if MAXFILE * BSIZE < off + n then
    return none
  else
    let (off, tot) ← writeLoop sb ip src n off n 0
    modifyDino ip fun d => { d with size := max d.size off }
    iupdate sb ip
    return some tot

end Xv6.Fs
