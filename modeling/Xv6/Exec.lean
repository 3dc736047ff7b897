import Xv6.LittleEndian
import Xv6.VmCopyin

/-!
# `exec`

`kexec` of `kernel/exec.c` and `sys_exec` of `kernel/sysfile.c`, with the bytes of the program
and of the stack. What a path names, and the contents of the file while its inode is locked, are
given. The other state is that of the calling process and of the program's inode.
-/
namespace Xv6.Exec

open Prog Vm Function

/-- A file whose inode is locked: its bytes, and the blocks that `bmap` cannot give. -/
structure File where
  bytes : List UInt8
  missing : ℕ → Bool
  le : bytes.length ≤ MAXFILE * BSIZE

/-- The loop of `readi`, a block a round. -/
def readLoop (f : File) : ℕ → ℕ → ℕ → List UInt8
  | 0, _, _ => []
  | fuel + 1, off, n =>
    if n = 0 ∨ f.missing (off / BSIZE) = true then
      []
    else
      let m := min n (BSIZE - off % BSIZE)
      (f.bytes.drop off).take m ++ readLoop f fuel (off + m) (n - m)

/-- `readi` to kernel memory: the bytes that it copies; their number is what it returns. -/
def readi (f : File) (off n : ℕ) : List UInt8 :=
  if f.bytes.length < off ∨ 2 ^ 32 ≤ off + n then
    []
  else
    let n := min n (f.bytes.length - off)
    readLoop f n off n

/-- The little-endian field of `k` bytes at offset `o`. -/
def field (bs : List UInt8) (o k : ℕ) : ℕ := LittleEndian.value ((bs.drop o).take k)

/-- The fields of `struct elfhdr` that `kexec` reads. -/
structure Elfhdr where
  magic : ℕ
  entry : ℕ
  phoff : ℕ
  phnum : ℕ

def Elfhdr.size : ℕ := 64

def Elfhdr.parse (bs : List UInt8) : Elfhdr := ⟨field bs 0 4, field bs 24 8, field bs 32 8, field bs 56 2⟩

abbrev ELF_MAGIC : ℕ := 0x464C457F

/-- The fields of `struct proghdr` that `kexec` reads. -/
structure Proghdr where
  type : ℕ
  flags : ℕ
  off : ℕ
  vaddr : ℕ
  filesz : ℕ
  memsz : ℕ

def Proghdr.size : ℕ := 56

def Proghdr.parse (bs : List UInt8) : Proghdr :=
  ⟨field bs 0 4, field bs 4 4, field bs 8 8, field bs 16 8, field bs 32 8, field bs 40 8⟩

abbrev ELF_PROG_LOAD : ℕ := 1

/-- What `exec` can change: memory, the name, open files and directory of the calling process, the
references and the lock of the program's inode, and the number of running transactions. -/
structure State where
  vm : Vm.State
  name : List UInt8
  ofile : Fin NOFILE → Option ℕ
  cwd : ℕ
  refs : ℕ
  locked : Bool
  outstanding : ℕ

/-- A panic, or a loop that never ends. -/
inductive Stop where
  | panic (e : Vm.Panic)
  | forever
  deriving DecidableEq

abbrev Ex := Prog.M State Stop

/-- A function of `kernel/vm.c`. -/
def vm {α : Type} (m : VM α) : Ex α := fun s =>
  match m.run s.vm with
  | .ok (a, t) => .ok (a, { s with vm := t })
  | .error e => .error (.panic e)

def beginOp : Ex Unit := modify fun s => { s with outstanding := s.outstanding + 1 }

def endOp : Ex Unit := modify fun s => { s with outstanding := s.outstanding - 1 }

/-- The reference that `namei` returns. -/
def igot : Ex Unit := modify fun s => { s with refs := s.refs + 1 }

def ilock : Ex Unit := modify fun s => { s with locked := true }

def iunlockput : Ex Unit := modify fun s => { s with locked := false, refs := s.refs - 1 }

/-- A word of the trapframe of the process. -/
def setTrapframe (p : Pid) (k : Fin 512) (x : ℕ) : VM Unit := do
  match ((← get).proc p).trapframe with
  | none => throw .null
  | some tf => setPte tf k (BitVec.ofNat 64 x)

/-- `p->trapframe->epc`, `sp`, `a0` and `a1` as words of the trapframe. -/
abbrev regEpc : Fin 512 := ⟨3, by decide⟩
abbrev regSp : Fin 512 := ⟨6, by decide⟩
abbrev regA0 : Fin 512 := ⟨14, by decide⟩
abbrev regA1 : Fin 512 := ⟨15, by decide⟩

/-- The loop of `loadseg`; `i` is a `uint`. -/
def loadsegLoop (pagetable va : ℕ) (f : File) (offset sz : ℕ) : ℕ → ℕ → Ex Bool
  | 0, i => if i < sz then throw .forever else return true
  | fuel + 1, i =>
    if i < sz then do
      match ← vm (walkaddr pagetable (wrap (va + i))) with
      | none => throw (.panic .loadseg)
      | some pa =>
        let n := if sz - i < PGSIZE then sz - i else PGSIZE
        let bs := readi f ((offset + i) % 2 ^ 32) n
        vm (Data.putBytes pa 0 bs)
        if bs.length ≠ n then
          return false
        else
          loadsegLoop pagetable va f offset sz fuel ((i + PGSIZE) % 2 ^ 32)
    else
      return true

/-- Returns if it succeeds. After 2 ^ 20 rounds a `uint` has had all its values. -/
def loadseg (pagetable va : ℕ) (f : File) (offset sz : ℕ) : Ex Bool :=
  loadsegLoop pagetable va f offset sz (2 ^ 20) 0

variable (L : Layout)

/-- The loop over the program headers: the size reached, and if all were loaded. The offset is
an `int`, here the `uint` that `readi` makes of it. -/
def loadProgram (pagetable : ℕ) (f : File) : ℕ → ℕ → ℕ → Ex (ℕ × Bool)
  | 0, _, sz => return (sz, true)
  | k + 1, off, sz =>
    let bs := readi f off Proghdr.size
    let ph := Proghdr.parse bs
    let next := (off + Proghdr.size) % 2 ^ 32
    if bs.length ≠ Proghdr.size then
      return (sz, false)
    else if ph.type ≠ ELF_PROG_LOAD then
      loadProgram pagetable f k next sz
    else if ph.memsz < ph.filesz ∨ wrap (ph.vaddr + ph.memsz) < ph.vaddr ∨ ph.vaddr % PGSIZE ≠ 0 then
      return (sz, false)
    else do
      let sz1 ← vm (uvmalloc L pagetable sz (wrap (ph.vaddr + ph.memsz))
        (flags2perm (BitVec.ofNat 32 ph.flags)))
      if sz1 = 0 then
        return (sz, false)
      else if ← loadseg pagetable ph.vaddr f (ph.off % 2 ^ 32) (ph.filesz % 2 ^ 32) then
        loadProgram pagetable f k next sz1
      else
        return (sz1, false)

/-- `sp -= n; sp -= sp % 16`. -/
def push (sp n : ℕ) : ℕ :=
  let sp := wrap (sp - n)
  sp - sp % 16

/-- The loop that copies the argument strings: the stack pointer and `ustack`, if it succeeds. -/
def pushArgs (p : Pid) (pagetable stackbase : ℕ) :
    List (List UInt8) → ℕ → List ℕ → Ex (Option (ℕ × List ℕ))
  | [], sp, ustack => return some (sp, ustack)
  | arg :: argv, sp, ustack =>
    if MAXARG ≤ ustack.length then
      return none
    else do
      let sp := push sp (arg.length + 1)
      if sp < stackbase then
        return none
      else if ← vm (Data.copyout L p pagetable sp (arg ++ [0])) then
        pushArgs p pagetable stackbase argv sp (ustack ++ [sp])
      else
        return none

/-- The arguments on the stack: the strings, then the array of their addresses. -/
def copyArgs (p : Pid) (pagetable stackbase sz : ℕ) (argv : List (List UInt8)) : Ex (Option ℕ) := do
  match ← pushArgs L p pagetable stackbase argv sz [] with
  | none => return none
  | some (sp, ustack) =>
    let sp := push sp ((ustack.length + 1) * 8)
    if sp < stackbase then
      return none
    else if ← vm (Data.copyout L p pagetable sp ((ustack ++ [0]).flatMap (LittleEndian.bytes 8))) then
      return some sp
    else
      return none

/-- The pages of the stack below a guard page: the size, and if there was memory. -/
def makeStack (pagetable sz : ℕ) : Ex (ℕ × Bool) := do
  let sz := pgroundup sz
  let sz1 ← vm (uvmalloc L pagetable sz (wrap (sz + (USERSTACK + 1) * PGSIZE)) PTE_W)
  if sz1 = 0 then
    return (sz, false)
  else
    vm (uvmclear pagetable (wrap (sz1 - (USERSTACK + 1) * PGSIZE)))
    return (sz1, true)

/-- What follows the last slash of a path. -/
def lastElement (path : List UInt8) : List UInt8 := (path.reverse.takeWhile (· ≠ 47)).reverse

/-- `sizeof(p->name)`. -/
abbrev nameSize : ℕ := 16

/-- `bad:`, with the page table if there is one and the inode if it is still held. -/
def bad (pagetable : Option ℕ) (sz : ℕ) (ip : Bool) : Ex Unit := do
  match pagetable with
  | some pagetable => vm (procFreepagetable L pagetable sz)
  | none => pure ()
  if ip then
    iunlockput
    endOp

def commit (p : Pid) (path : List UInt8) (pagetable sz entry sp : ℕ) : Ex Unit := do
  vm (setTrapframe p regA1 sp)
  modify fun s => { s with name := (lastElement path).take (nameSize - 1) }
  let old := (← get).vm.proc p
  vm (modifyProc p fun pr => { pr with pagetable := some pagetable, sz := sz })
  vm (setTrapframe p regEpc entry)
  vm (setTrapframe p regSp sp)
  match old.pagetable with
  | none => throw (.panic .null)
  | some oldpagetable => vm (procFreepagetable L oldpagetable old.sz)

/-- The first half of `kexec`: the page table into which the program is loaded, its size and the
entry point. The function `namei` says what a path names. -/
def loadImage (p : Pid) (namei : List UInt8 → Option File) (path : List UInt8) :
    Ex (Option (ℕ × ℕ × ℕ)) := do
  beginOp
  match namei path with
  | none =>
    endOp
    return none
  | some f =>
    igot
    ilock
    let bs := readi f 0 Elfhdr.size
    let elf := Elfhdr.parse bs
    if bs.length ≠ Elfhdr.size ∨ elf.magic ≠ ELF_MAGIC then
      bad L none 0 true
      return none
    else
      match ((← get).vm.proc p).trapframe with
      | none => throw (.panic .null)
      | some tf =>
        match ← vm (procPagetable L tf) with
        | none =>
          bad L none 0 true
          return none
        | some pagetable =>
          let (sz, loaded) ← loadProgram L pagetable f elf.phnum (elf.phoff % 2 ^ 32) 0
          if loaded = false then
            bad L (some pagetable) sz true
            return none
          else
            iunlockput
            endOp
            return some (pagetable, sz, elf.entry)

/-- The second half of `kexec`: the stack, its arguments, and the switch to the new program. -/
def finish (p : Pid) (path : List UInt8) (pagetable sz entry : ℕ) (argv : List (List UInt8)) :
    Ex (Option ℕ) := do
  let (sz, made) ← makeStack L pagetable sz
  if made = false then
    bad L (some pagetable) sz false
    return none
  else
    match ← copyArgs L p pagetable (wrap (sz - USERSTACK * PGSIZE)) sz argv with
    | none =>
      bad L (some pagetable) sz false
      return none
    | some sp =>
      commit L p path pagetable sz entry sp
      return some argv.length

/-- `kexec`; `none` is -1. -/
def kexec (p : Pid) (namei : List UInt8 → Option File) (path : List UInt8)
    (argv : List (List UInt8)) : Ex (Option ℕ) := do
  match ← loadImage L p namei path with
  | none => return none
  | some (pagetable, sz, entry) => finish L p path pagetable sz entry argv

/-- The 64-bit number at a user address, if it can be fetched. -/
def fetchaddr (p : Pid) (addr : ℕ) : VM (Option ℕ) := do
  let pr := (← get).proc p
  if pr.sz ≤ addr ∨ pr.sz < wrap (addr + 8) then
    return none
  else
    match pr.pagetable with
    | none => throw .null
    | some pagetable =>
      let (ok, bs) ← Data.copyin L p pagetable addr 8
      return if ok then some (LittleEndian.value bs) else none

/-- The string at a user address as bytes with its zero, if it can be fetched, and what was
copied. -/
def fetchstr (p : Pid) (addr max : ℕ) : VM (Bool × List UInt8) := do
  match ((← get).proc p).pagetable with
  | none => throw .null
  | some pagetable => Data.copyinstr pagetable addr max

/-- The loop of `sys_exec` that fetches the arguments: the pages in `argv`, and the strings if
all were fetched. -/
def fetchArgs (p : Pid) (uargv : ℕ) :
    ℕ → ℕ → List ℕ → List (List UInt8) → VM (List ℕ × Option (List (List UInt8)))
  | 0, _, argv, _ => return (argv, none)
  | fuel + 1, i, argv, strs => do
    match ← fetchaddr L p (wrap (uargv + 8 * i)) with
    | none => return (argv, none)
    | some uarg =>
      if uarg = 0 then
        return (argv, some strs)
      else
        match ← kalloc with
        | none => return (argv, none)
        | some pa =>
          let (ok, bs) ← fetchstr p uarg PGSIZE
          Data.putBytes pa 0 bs
          if ok then
            fetchArgs p uargv fuel (i + 1) (argv ++ [pa]) (strs ++ [bs.dropLast])
          else
            return (argv ++ [pa], none)

def argraw (p : Pid) (k : Fin 512) : VM ℕ := do
  match ((← get).proc p).trapframe with
  | none => throw .null
  | some tf => return ((← get).mem tf k).toNat

def sysExec (p : Pid) (namei : List UInt8 → Option File) : Ex (Option ℕ) := do
  let uargv ← vm (argraw p regA1)
  let upath ← vm (argraw p regA0)
  let (ok, bs) ← vm (fetchstr p upath MAXPATH)
  if ok = false then
    return none
  else
    let (argv, strs) ← vm (fetchArgs L p uargv MAXARG 0 [] [])
    match strs with
    | none =>
      vm (argv.forM (kfree L))
      return none
    | some strs =>
      let ret ← kexec L p namei bs.dropLast strs
      vm (argv.forM (kfree L))
      return ret

/-- `syscall` stores the result in `a0`. -/
def storeResult (p : Pid) (m : Ex (Option ℕ)) : Ex (Option ℕ) := do
  let ret ← m
  vm (setTrapframe p regA0 (ret.getD (2 ^ 64 - 1)))
  return ret

def syscallExec (p : Pid) (namei : List UInt8 → Option File) : Ex (Option ℕ) :=
  storeResult p (sysExec L p namei)

end Xv6.Exec
