import Xv6.Param

/-!
# On-disk inodes
-/
namespace Xv6

/-- The `type` of an inode; `free` is the value 0 of an unallocated one. -/
inductive FileType where
  | free
  | dir
  | file
  | device
  deriving DecidableEq, Repr

/-- `struct dinode`. The link count is a signed 16-bit field and wraps. -/
structure Dinode where
  type : FileType
  major : Int16
  minor : Int16
  nlink : Int16
  size : ℕ
  addrs : Fin (NDIRECT + 1) → ℕ
  deriving DecidableEq

namespace Dinode

/-- What `ialloc` leaves on disk: all zero but the type. -/
def fresh (type : FileType) : Dinode :=
  { type := type, major := 0, minor := 0, nlink := 0, size := 0, addrs := fun _ => 0 }

/-- `addrs[x] = a`. -/
def withAddr (d : Dinode) (x : Fin (NDIRECT + 1)) (a : ℕ) : Dinode :=
  { d with addrs := Function.update d.addrs x a }

@[simp] lemma withAddr_self (d : Dinode) (x : Fin (NDIRECT + 1)) (a : ℕ) :
    (d.withAddr x a).addrs x = a := Function.update_self ..

lemma withAddr_of_ne (d : Dinode) {x y : Fin (NDIRECT + 1)} (h : y ≠ x) (a : ℕ) :
    (d.withAddr x a).addrs y = d.addrs y := Function.update_of_ne h ..

end Dinode

end Xv6
