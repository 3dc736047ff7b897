import Xv6.Console
import Xv6.InodeBlocks
import Xv6.PipeRead

/-!
# `fileread` and the memory of its caller

`fileread` of `kernel/file.c` for the three kinds of open files, with what each of
`piperead`, `consoleread` and `readi` writes to user memory.
-/
namespace Xv6.FileRead

open Function Prog UserMem Fs

/-- The loop of `consoleread` up to its end or its next sleep, as `Console.readLoop` but with
the memory; `n` is what is left of `target`. -/
def consoleLoop (killed : Bool) (addr target : ℕ) :
    ℕ → Space → Console.Cons → Console.Stop × ℕ × Space × Console.Cons
  | 0, u, s => (.done, 0, u, s)
  | n + 1, u, s =>
    if s.r = s.w then
      (if killed then .killed else .sleep, n + 1, u, s)
    else
      let c := s.buf (WrapRing.cell Console.INPUT_BUF_SIZE s.r)
      let s := { s with r := s.r + 1#32 }
      if c = Console.ctrl 'D' then
        (.done, n + 1, u, if n + 1 < target then { s with r := s.r - 1#32 } else s)
      else
        let res := copyout u (addr + (target - (n + 1))) [c]
        if res.1 = false then
          (.done, n + 1, res.2, s)
        else if c = Console.newline then
          (.done, n, res.2, s)
        else
          consoleLoop killed addr target n res.2 s

/-- `consoleread`, from the console that it finds each time it has the lock, and if the
process is killed then. Without a result the call still sleeps. -/
def consoleread (addr target : ℕ) : List (Bool × Console.Cons) → ℕ → Space → Option (ℤ × Space)
  | [], _, _ => none
  | (killed, s) :: turns, n, u =>
    match consoleLoop killed addr target n u s with
    | (.done, n, u, _) => some ((target : ℤ) - n, u)
    | (.killed, _, u, _) => some (-1, u)
    | (.sleep, n, u, _) => consoleread addr target turns n u

variable (sb : Superblock)

/-- The loop of `readi`, as `Fs.readLoop` but with the memory: `n` bytes are left, `tot` read. -/
def readLoop (ip : Ip) (addr : ℕ) : ℕ → Space → ℕ → ℕ → ℕ → FsM (ℤ × Space)
  | 0, u, _, _, tot => return (tot, u)
  | fuel + 1, u, off, n, tot =>
    if n = 0 then
      return (tot, u)
    else do
      let a ← bmap sb ip (off / BSIZE)
      if a = 0 then
        return (tot, u)
      else
        let s ← get
        let m := min n (BSIZE - off % BSIZE)
        let res := copyout u (addr + tot)
          ((List.range m).map fun i => Bytes.get (s.data a) (off % BSIZE + i))
        if res.1 then
          readLoop ip addr fuel res.2 (off + m) (n - m) (tot + m)
        else
          return (-1, res.2)

def readi (ip : Ip) (u : Space) (addr off n : ℕ) : FsM (ℤ × Space) := do
  let size := (← inode ip).dino.size
  if size < off ∨ 2 ^ 32 ≤ off + n then
    return (0, u)
  else
    let n := if size < off + n then size - off else n
    readLoop sb ip addr n u off n 0

/-- What a file refers to, and what the call meets there. For a pipe that is the pipe when
the copying begins, or `none` if the process is killed before. -/
inductive Source (P : Type*) where
  | none
  | pipe (wait : Option (Pipe.State P))
  | device (major : Int16) (turns : List (Bool × Console.Cons))
  | inode (ip : Ip)

/-- The fields of `struct file` that `fileread` uses. -/
structure File (P : Type*) where
  readable : Bool
  source : Source P
  off : ℕ

abbrev CONSOLE : ℕ := 1

variable {P : Type*}

/-- The result, the memory and `f->off`. The console is the only device with a `read`. -/
def fileread (f : File P) (u : Space) (addr : ℕ) (n : Int32) : FsM (Option (ℤ × Space × ℕ)) :=
  if f.readable = false then
    return some (-1, u, f.off)
  else
    match f.source with
    | .pipe none => return some (-1, u, f.off)
    | .pipe (some s) =>
      let r := Pipe.pipereadCopy s u addr n.toInt
      return some (r.2.2, r.2.1, f.off)
    | .device major turns =>
      if major < 0 ∨ (NDEV : ℤ) ≤ major.toInt ∨ major.toInt ≠ CONSOLE then
        return some (-1, u, f.off)
      else
        return (consoleread addr n.toInt.toNat turns n.toInt.toNat u).map fun r => (r.1, r.2, f.off)
    | .inode ip => do
      ilock ip
      -- the count becomes a `uint` here
      let r ← readi sb ip u addr f.off n.toUInt32.toNat
      iunlock ip
      return some (r.1, r.2, if 0 < r.1 then (f.off + r.1.toNat) % 2 ^ 32 else f.off)
    | .none => throw .fileread

/-- The bytes stored at `addr` so far are at addresses that can be written. -/
def Stored (u : Space) (addr : ℕ) (xs : List UInt8) : Prop := ∀ j, j < xs.length → dst u addr j = true

variable {addr : ℕ} {u : Space}

lemma Stored.nil : Stored u addr [] := by
  intro j hj
  exact absurd hj (Nat.not_lt_zero j)

variable {xs : List UInt8}

lemma Stored.append {xs bs : List UInt8} (h : Stored u addr xs)
    (hbs : ∀ i, i < bs.length → u.canWrite (addr + xs.length + i) = true) :
    Stored u addr (xs ++ bs) := by
  intro j hj
  rw [List.length_append] at hj
  by_cases hx : j < xs.length
  · exact h j hx
  · obtain ⟨i, rfl⟩ := Nat.exists_eq_add_of_le (Nat.le_of_not_lt hx)
    have hok := hbs i (by omega)
    have hlt := u.writable_lt _ hok
    have hwrap : addr + (xs.length + i) < 2 ^ 64 := by
      simp only [Vm.PGSIZE, Vm.MAXVA] at hlt
      omega
    rw [dst, Nat.mod_eq_of_lt hwrap, ← Nat.add_assoc]
    exact hok

/-- `r` is not more than was asked for, and the memory is changed in the buffer only. -/
def Bounded (u : Space) (addr : ℕ) (n : ℤ) (r : ℤ) (v : Space) : Prop :=
  r ≤ max n 0 ∧ u.SameOutside v addr (max n 0).toNat

/-- What stays of the slot of an inode while it is read. -/
structure SameSlot (s s' : State) (ip : Ip) : Prop where
  ref : (s'.itable ip).ref = (s.itable ip).ref
  locked : (s'.itable ip).locked = (s.itable ip).locked
  size : (s'.itable ip).dino.size = (s.itable ip).dino.size

lemma SameSlot.refl (s : State) (ip : Ip) : SameSlot s s ip := ⟨rfl, rfl, rfl⟩

lemma SameSlot.trans {s s' t : State} {ip : Ip} (h : SameSlot s s' ip) (h' : SameSlot s' t ip) :
    SameSlot s t ip :=
  ⟨h'.ref.trans h.ref, h'.locked.trans h.locked, h'.size.trans h.size⟩

variable {sb} {s : State} {ip : Ip} {E : Panic → Prop}

/-- The inode as `ilock` presents it. -/
def loaded (s : State) (ip : Ip) : Dinode :=
  if (s.itable ip).valid then (s.itable ip).dino else s.dinode (s.itable ip).inum

section Examples

end Examples

end Xv6.FileRead
