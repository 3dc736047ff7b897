import Xv6.Param
import Xv6.Bytes
import Xv6.WriteTrace

/-!
# The redo log on disk

`kernel/log.c` below the transaction interface: the header block, the copies
between cache and log, commit and recovery. The buffer cache appears here only
through what `bread` returns, one current content per block number, and the
disk changes only in `bwrite`. Every `bwrite` is appended to a trace, so a crash
is a prefix of that trace. Pins (`bunpin` in `install_trans`) do not touch
contents and belong to the buffer-cache model. There is one device.
-/
namespace Xv6.Log
open Bytes

abbrev Block : Type := Buf BSIZE

abbrev Disk : Type := ℕ → Block

/-- `struct logheader`: how many blocks a transaction has and their home block
numbers. Only the entries below `n` are ever read. -/
structure LogHeader where
  n : Int32
  block : ℕ → UInt32

namespace LogHeader

/-- The number of iterations of a loop `for (i = 0; i < lh.n; i++)`. -/
def count (lh : LogHeader) : ℕ := lh.n.toNatClampNeg

def home (lh : LogHeader) (i : ℕ) : ℕ := (lh.block i).toNat

end LogHeader

/-- Memory and disk as the log code sees them. `bwrites` is the history of the
block writes issued so far, oldest first. -/
structure LogState where
  disk : Disk
  cache : Disk
  lh : LogHeader
  bwrites : List (ℕ × Block)

/-- Write the cached contents of block `b` to disk. -/
def bwrite (b : ℕ) (s : LogState) : LogState :=
  { s with
    disk := Function.update s.disk b (s.cache b)
    bwrites := s.bwrites ++ [(b, s.cache b)] }

/-- `memmove(dst->data, src->data, BSIZE)` between two cached blocks. -/
def memmove (dst src : ℕ) (s : LogState) : LogState :=
  { s with cache := Function.update s.cache dst (s.cache src) }

/-- The state after the first `k` iterations of `write_log`. -/
def writeLogLoop (start : ℕ) : ℕ → LogState → LogState
  | 0, s => s
  | tail + 1, s =>
    let s := writeLogLoop start tail s
    bwrite (start + tail + 1) (memmove (start + tail + 1) (s.lh.home tail) s)

/-- Copy modified blocks from cache to log. -/
def writeLog (start : ℕ) (s : LogState) : LogState := writeLogLoop start s.lh.count s

/-- The state after the first `k` iterations of `install_trans`. -/
def installTransLoop (start : ℕ) : ℕ → LogState → LogState
  | 0, s => s
  | tail + 1, s =>
    let s := installTransLoop start tail s
    bwrite (s.lh.home tail) (memmove (s.lh.home tail) (start + tail + 1) s)

/-- Copy committed blocks from log to their home location. The flag
`recovering` selects a message and a `bunpin` only, so it is not a parameter. -/
def installTrans (start : ℕ) (s : LogState) : LogState := installTransLoop start s.lh.count s

/-- `lh->n` of a header block. -/
def headerN (b : Block) : Int32 := (word b 0).toInt32

/-- `lh->block[i]` of a header block. -/
def headerBlock (b : Block) (i : ℕ) : UInt32 := word b (4 + 4 * i)

/-- Read the log header from disk into the in-memory log header. -/
def readHead (start : ℕ) (s : LogState) : LogState :=
  let buf := s.cache start
  let n := headerN buf
  { s with lh :=
    { n := n
      block := fun i => if i < n.toNatClampNeg then headerBlock buf i else s.lh.block i } }

/-- The first `k` iterations of the loop that fills `hb->block`. -/
def fillBlocks (lh : LogHeader) : ℕ → Block → Block
  | 0, hb => hb
  | i + 1, hb => setWord (fillBlocks lh i hb) (4 + 4 * i) (lh.block i)

/-- The header block `hb` after `lh` has been stored in it. -/
def putHeader (lh : LogHeader) (hb : Block) : Block :=
  fillBlocks lh lh.count (setWord hb 0 lh.n.toUInt32)

/-- Write the in-memory log header to disk. This is the true point at which
the current transaction commits. -/
def writeHead (start : ℕ) (s : LogState) : LogState :=
  bwrite start { s with cache := Function.update s.cache start (putHeader s.lh (s.cache start)) }

/-- `log.lh.n = 0`. -/
def clearCount (s : LogState) : LogState := { s with lh := { s.lh with n := 0 } }

def recoverFromLog (start : ℕ) (s : LogState) : LogState :=
  writeHead start (clearCount (installTrans start (readHead start s)))

def commit (start : ℕ) (s : LogState) : LogState :=
  if 0 < s.lh.n then
    writeHead start (clearCount (installTrans start (writeHead start (writeLog start s))))
  else s

/-- Memory after a reboot: nothing is cached, so `bread` returns the disk's
contents, and the static `log` structure is zero. -/
def reboot (d : Disk) : LogState :=
  { disk := d, cache := d, lh := ⟨0, fun _ => 0⟩, bwrites := [] }

/-- The disk left by a crash after the first `k` block writes of a trace that
started on `d`. -/
def crashDisk (d : Disk) (bwrites : List (ℕ × Block)) (k : ℕ) : Disk :=
  WriteTrace.apply (bwrites.take k) d

/-- One boot whose recovery is crashed after some number of block writes. -/
def RecoveryCrash (start : ℕ) (d d' : Disk) : Prop :=
  ∃ k, d' = crashDisk d (recoverFromLog start (reboot d)).bwrites k

/-- A transaction that `commit` can be given: it fits the log and its home
blocks lie outside the header and the log blocks. -/
structure GoodTransaction (start : ℕ) (lh : LogHeader) : Prop where
  fits : lh.count ≤ LOGBLOCKS
  outside : ∀ i, i < lh.count → lh.home i < start ∨ start + LOGBLOCKS < lh.home i

end Xv6.Log
