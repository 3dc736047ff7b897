import Mathlib.Tactic

/-!
# Configuration constants

The values of `kernel/param.h` and `kernel/fs.h` for the configured build
(`conf/lab.mk` sets `LAB=util`). They are plain numerals, so that arithmetic
side conditions can be closed after unfolding them.
-/
namespace Xv6

abbrev NINODE : ℕ := 50

/-- Maximum number of blocks any file-system operation writes. -/
abbrev MAXOPBLOCKS : ℕ := 10

abbrev LOGBLOCKS : ℕ := MAXOPBLOCKS * 3

abbrev NBUF : ℕ := MAXOPBLOCKS * 3

abbrev BSIZE : ℕ := 1024

abbrev NDIRECT : ℕ := 12

abbrev NINDIRECT : ℕ := 256

abbrev MAXFILE : ℕ := NDIRECT + NINDIRECT

/-- Inodes per block: `BSIZE / sizeof(struct dinode)`. -/
abbrev IPB : ℕ := 16

abbrev BPB : ℕ := BSIZE * 8

abbrev DIRSIZ : ℕ := 14

abbrev ROOTINO : ℕ := 1

abbrev NDEV : ℕ := 10

abbrev NOFILE : ℕ := 16

abbrev NFILE : ℕ := 100

abbrev NPROC : ℕ := 64

instance neZeroNPROC : NeZero NPROC := ⟨by decide⟩

instance neZeroNOFILE : NeZero NOFILE := ⟨by decide⟩

instance (priority := high) neZeroAddrs : NeZero (NDIRECT + 1) := ⟨by decide⟩

/-- Maximum length of a path name, its terminating zero included. -/
abbrev MAXPATH : ℕ := 128

end Xv6
