import Xv6.Param
import Xv6.Runs
import Xv6.WrapRing

/-!
# The virtio disk driver

`kernel/virtio_disk.c` with the device it talks to. Threads call `virtio_disk_rw` for a
buffer whose sleep lock they hold, as `bread` and `bwrite` do, or run
`virtio_disk_intr`. A step of a thread is what it does under `vdisk_lock` between two
points where the device can see a difference: allocation, formatting, the entry of the
avail ring, `avail->idx`, one round of a waiting loop, freeing the chain, one round of
the interrupt handler's loop. The device takes heads from the avail ring in order,
reads the chain, and completes what it has taken in any order and at any time. The
notify and acknowledge registers are left out: the device may look at the ring, and the
handler may run, whenever they like.
-/
namespace Xv6.Virtio

open Function WrapRing

/-- The number of descriptors. -/
abbrev NUM : ℕ := 8

def VRING_DESC_F_NEXT : BitVec 16 := 1
def VRING_DESC_F_WRITE : BitVec 16 := 2

def VIRTIO_BLK_T_IN : BitVec 32 := 0
def VIRTIO_BLK_T_OUT : BitVec 32 := 1

/-- The addresses that descriptors hold: a command header, the data of a buffer, the
status byte of a command. -/
inductive Addr (B : Type*) where
  | null
  | op (i : Fin NUM)
  | data (b : B)
  | status (i : Fin NUM)
  deriving DecidableEq

structure Desc (B : Type*) where
  addr : Addr B
  len : ℕ
  flags : BitVec 16
  next : ℕ
  deriving DecidableEq

/-- `memset(disk.desc, 0, PGSIZE)`, and what `free_desc` leaves. -/
def Desc.zero {B : Type*} : Desc B := ⟨.null, 0, 0, 0⟩

structure BlkReq where
  type : BitVec 32
  reserved : BitVec 32
  sector : BitVec 64
  deriving DecidableEq

structure Info (B : Type*) where
  b : Option B
  status : BitVec 8

/-- `struct disk` and the memory it shares with the device: `used_idx` is the driver's
count, `usedRingIdx` is `used->idx`. -/
structure Disk (B : Type*) where
  desc : Fin NUM → Desc B
  availRing : ℕ → ℕ
  availIdx : BitVec 16
  usedRing : ℕ → ℕ
  usedRingIdx : BitVec 16
  free : Fin NUM → Bool
  usedIdx : BitVec 16
  info : Fin NUM → Info B
  ops : Fin NUM → BlkReq

variable {T B α : Type*}

/-- What the device makes of a chain. -/
structure Request (B : Type*) where
  head : ℕ
  type : BitVec 32
  sector : BitVec 64
  buf : B
  status : Fin NUM

/-- `written` holds between writing an entry of the used ring and incrementing its index. -/
structure Device (B : Type*) where
  lastAvail : BitVec 16
  taken : List (Request B)
  written : Bool

inductive Chan (B : Type*) where
  | free
  | buf (b : B)
  deriving DecidableEq

/-- The local variable `idx[3]`. -/
abbrev Idx := Fin NUM × Fin NUM × Fin NUM

/-- Where a thread is. -/
inductive Pc (B : Type*) where
  | idle
  | acquire (b : B) (write : Bool)
  | alloc (b : B) (write : Bool)
  | format (b : B) (write : Bool) (idx : Idx)
  | ring (b : B) (write : Bool) (idx : Idx)
  | bump (b : B) (write : Bool) (idx : Idx)
  | wait (b : B) (write : Bool) (idx : Idx)
  | waitAcquire (b : B) (write : Bool) (idx : Idx)
  | free (b : B) (write : Bool) (idx : Idx)
  | intrAcquire
  | intrLoop
  | intrBody

/-- How often `b->disk` was set, a request for `b` was completed by the device, and
`b->disk` was cleared; the heads that were submitted and taken. No step reads it. -/
structure History (B : Type*) where
  issued : B → ℕ
  completed : B → ℕ
  cleared : B → ℕ
  submitted : List ℕ
  taken : List ℕ

/-- `inDisk` is `b->disk`, `bufLock` is `b->lock`, `blocks` the contents of the disk. -/
structure State (T B α : Type*) where
  disk : Disk B
  dev : Device B
  inDisk : B → Bool
  blockno : B → BitVec 32
  data : B → α
  blocks : BitVec 64 → α
  bufLock : B → Option T
  vdiskLock : Option T
  pc : T → Pc B
  asleep : T → Option (Chan B)
  hist : History B

/-- After `virtio_disk_init`. -/
def init (blockno : B → BitVec 32) (data : B → α) (blocks : BitVec 64 → α) : State T B α where
  disk :=
    { desc := fun _ => .zero, availRing := fun _ => 0, availIdx := 0, usedRing := fun _ => 0
      usedRingIdx := 0, free := fun _ => true, usedIdx := 0, info := fun _ => ⟨none, 0⟩
      ops := fun _ => ⟨0, 0, 0⟩ }
  dev := ⟨0, [], false⟩
  inDisk := fun _ => false
  blockno := blockno
  data := data
  blocks := blocks
  bufLock := fun _ => none
  vdiskLock := none
  pc := fun _ => .idle
  asleep := fun _ => none
  hist := ⟨fun _ => 0, fun _ => 0, fun _ => 0, [], []⟩

/-- The first free descriptor, now marked as in use. -/
def allocDesc (d : Disk B) : Option (Fin NUM × Disk B) :=
  ((List.finRange NUM).find? d.free).map fun i => (i, { d with free := update d.free i false })

/-- `none` is a panic. -/
def freeDesc (d : Disk B) (i : ℕ) : Option (Disk B) :=
  if h : i < NUM then
    if d.free ⟨i, h⟩ then none
    else some { d with
      desc := update d.desc ⟨i, h⟩ .zero
      free := update d.free ⟨i, h⟩ true }
  else none

/-- The loop of `free_chain`. A round that does not panic frees a descriptor, so there are
at most `NUM` of them. -/
def freeChainLoop : ℕ → Disk B → ℕ → Option (Disk B)
  | 0, _, _ => none
  | fuel + 1, d, i =>
    if h : i < NUM then
      let flag := (d.desc ⟨i, h⟩).flags
      let nxt := (d.desc ⟨i, h⟩).next
      (freeDesc d i).bind fun d' =>
        if flag &&& VRING_DESC_F_NEXT ≠ 0 then freeChainLoop fuel d' nxt else some d'
    else none

def freeChain (d : Disk B) (i : ℕ) : Option (Disk B) := freeChainLoop (NUM + 1) d i

/-- The loop of `alloc3_desc`, with the rounds left and the descriptors taken so far. -/
def allocLoop : ℕ → List (Fin NUM) → Disk B → Option (Disk B × Option (List (Fin NUM)))
  | 0, idx, d => some (d, some idx)
  | k + 1, idx, d =>
    match allocDesc d with
    | some (i, d') => allocLoop k (idx ++ [i]) d'
    | none => (idx.foldlM (fun d (i : Fin NUM) => freeDesc d i) d).map fun d' => (d', none)

/-- The outer `none` is a panic, the inner one the return value -1. -/
def alloc3Desc (d : Disk B) : Option (Disk B × Option (List (Fin NUM))) := allocLoop 3 [] d

variable [DecidableEq T] [DecidableEq B]

def State.goto (s : State T B α) (t : T) (pc : Pc B) : State T B α :=
  { s with pc := update s.pc t pc }

def State.wakeup (s : State T B α) (ch : Chan B) : State T B α :=
  { s with asleep := fun t => if s.asleep t = some ch then none else s.asleep t }

/-- `sleep(ch, &disk.vdisk_lock)`; the lock is taken again at `pc`. -/
def State.sleep (s : State T B α) (t : T) (ch : Chan B) (pc : Pc B) : State T B α :=
  { s with vdiskLock := none, asleep := update s.asleep t (some ch) }.goto t pc

/-- `acquire(&disk.vdisk_lock)`, once it is free. -/
def acquire (s : State T B α) (t : T) (pc : Pc B) : Option (State T B α) :=
  if s.vdiskLock = none then some ({ s with vdiskLock := some t }.goto t pc) else none

/-- `b->blockno * (BSIZE / 512)`, an `uint` that is widened. -/
def sector (s : State T B α) (b : B) : BitVec 64 := (s.blockno b * 2).setWidth 64

/-- The three descriptors, the command header, and the book-keeping for the handler. -/
def Disk.format (d : Disk B) (b : B) (write : Bool) (sector : BitVec 64) (idx : Idx) : Disk B :=
  let (i₀, i₁, i₂) := idx
  { d with
    ops := update d.ops i₀
      ⟨if write then VIRTIO_BLK_T_OUT else VIRTIO_BLK_T_IN, 0, sector⟩
    desc := update (update (update d.desc
      i₀ ⟨.op i₀, 16, VRING_DESC_F_NEXT, i₁⟩)
      i₁ ⟨.data b, BSIZE, (if write then 0 else VRING_DESC_F_WRITE) ||| VRING_DESC_F_NEXT, i₂⟩)
      i₂ ⟨.status i₀, 1, VRING_DESC_F_WRITE, 0⟩
    info := update d.info i₀ ⟨some b, 0xff⟩ }

def format (s : State T B α) (b : B) (write : Bool) (idx : Idx) : State T B α :=
  { s with
    disk := s.disk.format b write (sector s b) idx
    inDisk := update s.inDisk b true
    hist := { s.hist with issued := update s.hist.issued b (s.hist.issued b + 1) } }

/-- `disk.avail->ring[disk.avail->idx % NUM] = idx[0]`. -/
def writeAvail (s : State T B α) (i : Fin NUM) : State T B α :=
  { s with
    disk := { s.disk with availRing := update s.disk.availRing (cell NUM s.disk.availIdx) i } }

/-- `disk.avail->idx += 1`. -/
def bumpAvail (s : State T B α) (i : Fin NUM) : State T B α :=
  { s with
    disk := { s.disk with availIdx := s.disk.availIdx + 1#16 }
    hist := { s.hist with submitted := s.hist.submitted ++ [i.val] } }

/-- `disk.info[idx[0]].b = 0; free_chain(idx[0])`. -/
def finish (d : Disk B) (i : Fin NUM) : Option (Disk B) :=
  freeChain { d with info := update d.info i { d.info i with b := none } } i

/-- A round of the loop of `virtio_disk_intr`. It reads `info[id]` only if `id` is an index,
and writes through `b` only if it is a buffer. -/
def complete (s : State T B α) : Option (State T B α) :=
  let id := s.disk.usedRing (cell NUM s.disk.usedIdx)
  if h : id < NUM then
    if (s.disk.info ⟨id, h⟩).status ≠ 0 then none
    else
      (s.disk.info ⟨id, h⟩).b.map fun b =>
        { s with
          inDisk := update s.inDisk b false
          disk := { s.disk with usedIdx := s.disk.usedIdx + 1#16 }
          hist := { s.hist with cleared := update s.hist.cleared b (s.hist.cleared b + 1) }
        }.wakeup (.buf b)
  else none

/-- What thread `t` does next. -/
def turn (s : State T B α) (t : T) : Option (State T B α) :=
  match s.pc t with
  | .idle => none
  | .acquire b write => acquire s t (.alloc b write)
  | .alloc b write =>
    match alloc3Desc s.disk with
    | some (d, some [i₀, i₁, i₂]) => some ({ s with disk := d }.goto t (.format b write (i₀, i₁, i₂)))
    | some (d, none) =>
      -- `free_desc` has called `wakeup` for each descriptor given back
      let s' := if ∃ i, s.disk.free i then s.wakeup .free else s
      some ({ s' with disk := d }.sleep t .free (.acquire b write))
    | _ => none
  | .format b write idx => some ((format s b write idx).goto t (.ring b write idx))
  | .ring b write idx => some ((writeAvail s idx.1).goto t (.bump b write idx))
  | .bump b write idx => some ((bumpAvail s idx.1).goto t (.wait b write idx))
  | .wait b write idx =>
    if s.inDisk b then some (s.sleep t (.buf b) (.waitAcquire b write idx))
    else some (s.goto t (.free b write idx))
  | .waitAcquire b write idx => acquire s t (.wait b write idx)
  | .free _ _ idx =>
    (finish s.disk idx.1).map fun d =>
      ({ s with disk := d, vdiskLock := none }.wakeup .free).goto t .idle
  | .intrAcquire => acquire s t .intrLoop
  | .intrLoop =>
    if s.disk.usedIdx ≠ s.disk.usedRingIdx then some (s.goto t .intrBody)
    else some ({ s with vdiskLock := none }.goto t .idle)
  | .intrBody => (complete s).map fun s' => s'.goto t .intrLoop

/-- The device follows a chain of three descriptors. -/
def fetch (d : Disk B) (head : ℕ) : Option (Request B) :=
  if h₀ : head < NUM then
    let d₀ := d.desc ⟨head, h₀⟩
    if h₁ : d₀.flags &&& VRING_DESC_F_NEXT ≠ 0 ∧ d₀.next < NUM then
      let d₁ := d.desc ⟨d₀.next, h₁.2⟩
      if h₂ : d₁.flags &&& VRING_DESC_F_NEXT ≠ 0 ∧ d₁.next < NUM then
        let d₂ := d.desc ⟨d₁.next, h₂.2⟩
        match d₀.addr, d₁.addr, d₂.addr with
        | .op i, .data b, .status j => some ⟨head, (d.ops i).type, (d.ops i).sector, b, j⟩
        | _, _, _ => none
      else none
    else none
  else none

/-- The device takes the next head. -/
def take (s : State T B α) : Option (State T B α) :=
  if s.dev.lastAvail ≠ s.disk.availIdx then
    let head := s.disk.availRing (cell NUM s.dev.lastAvail)
    (fetch s.disk head).map fun r =>
      { s with
        dev := { s.dev with
          lastAvail := s.dev.lastAvail + 1#16
          taken := s.dev.taken ++ [r] }
        hist := { s.hist with taken := s.hist.taken ++ [head] } }
  else none

/-- The transfer of a request. -/
def transfer (s : State T B α) (r : Request B) : State T B α :=
  if r.type = VIRTIO_BLK_T_OUT then { s with blocks := update s.blocks r.sector (s.data r.buf) }
  else { s with data := update s.data r.buf (s.blocks r.sector) }

/-- The device completes the request at position `k` of those taken. -/
def serve (s : State T B α) (k : ℕ) : Option (State T B α) :=
  if s.dev.written then none
  else
    s.dev.taken[k]?.map fun r =>
      { transfer s r with
        disk := { s.disk with
          info := update s.disk.info r.status { s.disk.info r.status with status := 0 }
          usedRing := update s.disk.usedRing (cell NUM s.disk.usedRingIdx) r.head }
        dev := { s.dev with taken := s.dev.taken.eraseIdx k, written := true }
        hist := { s.hist with
          completed := update s.hist.completed r.buf (s.hist.completed r.buf + 1) } }

/-- The device increments `used->idx`. -/
def publish (s : State T B α) : Option (State T B α) :=
  if s.dev.written then
    some { s with
      disk := { s.disk with usedRingIdx := s.disk.usedRingIdx + 1#16 }
      dev := { s.dev with written := false } }
  else none

/-- `bget` locks a buffer and names its block; its holder changes the data, calls
`virtio_disk_rw`, or gives the lock back. `wake` is `kkill` of a sleeping thread. -/
inductive Act (T B α : Type*) where
  | bget (t : T) (b : B) (blockno : BitVec 32)
  | brelse (t : T) (b : B)
  | modify (t : T) (b : B) (x : α)
  | rw (t : T) (b : B) (write : Bool)
  | intr (t : T)
  | turn (t : T)
  | wake (t : T)
  | take
  | serve (k : ℕ)
  | publish

def Pc.isIdle : Pc B → Bool
  | .idle => true
  | _ => false

def step (s : State T B α) : Act T B α → Option (State T B α)
  | .bget t b blockno =>
    if (s.pc t).isIdle ∧ s.bufLock b = none then
      some { s with
        bufLock := update s.bufLock b (some t)
        blockno := update s.blockno b blockno }
    else none
  | .brelse t b =>
    if (s.pc t).isIdle ∧ s.bufLock b = some t then
      some { s with bufLock := update s.bufLock b none }
    else none
  | .modify t b x =>
    if (s.pc t).isIdle ∧ s.bufLock b = some t then some { s with data := update s.data b x } else none
  | .rw t b write =>
    if (s.pc t).isIdle ∧ s.bufLock b = some t then some (s.goto t (.acquire b write)) else none
  | .intr t => if (s.pc t).isIdle then some (s.goto t .intrAcquire) else none
  | .turn t => if s.asleep t = none then turn s t else none
  | .wake t => some { s with asleep := update s.asleep t none }
  | .take => take s
  | .serve k => serve s k
  | .publish => publish s

end Xv6.Virtio
