import Xv6.Holdings
import Xv6.VirtioDesc

/-!
# Requests in flight

What is known of a call of `virtio_disk_rw` from the allocation of its descriptors to
the end of `free_chain`, and of the heads on their way through the two rings.
-/
namespace Xv6.Virtio

open Function WrapRing

variable {T B α : Type*}

/-- How far a request is: `submitted` lasts from `avail->idx += 1` until the waiting loop
is left. -/
inductive Phase where
  | format
  | ring
  | bump
  | submitted
  | free
  deriving DecidableEq

structure Call (B : Type*) where
  phase : Phase
  b : B
  write : Bool
  idx : Idx

namespace Call

def chain (k : Call B) : List (Fin NUM) := [k.idx.1, k.idx.2.1, k.idx.2.2]

def head (k : Call B) : ℕ := k.idx.1

/-- The request that the device is to read. -/
def request (k : Call B) (sector : BitVec 64) : Request B :=
  ⟨k.head, if k.write then VIRTIO_BLK_T_OUT else VIRTIO_BLK_T_IN, sector, k.b, k.idx.1⟩

end Call

namespace Pc

/-- The request that a thread has descriptors for. -/
def call : Pc B → Option (Call B)
  | .format b write idx => some ⟨.format, b, write, idx⟩
  | .ring b write idx => some ⟨.ring, b, write, idx⟩
  | .bump b write idx => some ⟨.bump, b, write, idx⟩
  | .wait b write idx | .waitAcquire b write idx => some ⟨.submitted, b, write, idx⟩
  | .free b write idx => some ⟨.free, b, write, idx⟩
  | _ => none

def buf : Pc B → Option B
  | .acquire b _ | .alloc b _ | .format b _ _ | .ring b _ _ | .bump b _ _ | .wait b _ _
  | .waitAcquire b _ _ | .free b _ _ => some b
  | .idle | .intrAcquire | .intrLoop | .intrBody => none

/-- The places where `vdisk_lock` is held. -/
def Holding : Pc B → Prop
  | .alloc _ _ | .format _ _ _ | .ring _ _ _ | .bump _ _ _ | .wait _ _ _ | .free _ _ _
  | .intrLoop | .intrBody => True
  | .idle | .acquire _ _ | .waitAcquire _ _ _ | .intrAcquire => False

lemma buf_of_call {pc : Pc B} {k : Call B} (h : pc.call = some k) : pc.buf = some k.b := by
  cases pc <;> cases h <;> rfl

/-- Only a waiting call gives the lock away. -/
lemma holding_of_call {pc : Pc B} {k : Call B} (h : pc.call = some k)
    (hk : k.phase ≠ .submitted) : pc.Holding := by
  cases pc <;> cases h <;> simp_all [Holding]

end Pc

namespace State

def call (s : State T B α) (t : T) : Option (Call B) := (s.pc t).call

/-- The descriptors of a thread's request. -/
def chain (s : State T B α) (t : T) : List (Fin NUM) := (s.call t).elim [] Call.chain

/-- The heads in the avail ring that the device has not taken. -/
def queued (s : State T B α) : List ℕ :=
  contents NUM s.disk.availRing s.dev.lastAvail s.disk.availIdx

/-- The heads that the device has completed and the handler has not seen. -/
def completed (s : State T B α) : List ℕ :=
  contents NUM s.disk.usedRing s.disk.usedIdx s.disk.usedRingIdx ++
    if s.dev.written then [s.disk.usedRing (cell NUM s.disk.usedRingIdx)] else []

/-- The heads on their way: in the avail ring, in the device, in the used ring. -/
def outstanding (s : State T B α) : List ℕ :=
  s.queued ++ (s.dev.taken.map Request.head ++ s.completed)

end State

/-- The chain of a request is as the driver formatted it. -/
structure Formatted (d : Disk B) (sector : BitVec 64) (k : Call B) : Prop where
  first : d.desc k.idx.1 = ⟨.op k.idx.1, 16, VRING_DESC_F_NEXT, k.idx.2.1⟩
  second : d.desc k.idx.2.1 = ⟨.data k.b, BSIZE,
    (if k.write then 0 else VRING_DESC_F_WRITE) ||| VRING_DESC_F_NEXT, k.idx.2.2⟩
  third : d.desc k.idx.2.2 = ⟨.status k.idx.1, 1, VRING_DESC_F_WRITE, 0⟩
  op : d.ops k.idx.1 = ⟨if k.write then VIRTIO_BLK_T_OUT else VIRTIO_BLK_T_IN, 0, sector⟩
  buf : (d.info k.idx.1).b = some k.b

/-- Who holds the locks; the handler has something to read in its loop. -/
structure Control (s : State T B α) : Prop where
  locked : ∀ t, (s.pc t).Holding ↔ s.vdiskLock = some t
  buf : ∀ t b, (s.pc t).buf = some b → s.bufLock b = some t
  body : ∀ t, s.pc t = .intrBody → s.disk.usedIdx ≠ s.disk.usedRingIdx

/-- The heads on their way belong to submitted requests, each at one place. -/
structure Rings (s : State T B α) : Prop where
  nodup : s.outstanding.Nodup
  call : ∀ h ∈ s.outstanding, ∃ t k, s.call t = some k ∧ k.phase = .submitted ∧ k.head = h
  bump : ∀ t k, s.call t = some k → k.phase = .bump →
    s.disk.availRing (cell NUM s.disk.availIdx) = k.head
  taken : ∀ r ∈ s.dev.taken, ∃ t k, s.call t = some k ∧ k.phase = .submitted ∧
    r = k.request (sector s k.b)
  status : ∀ i : Fin NUM, i.val ∈ s.completed → (s.disk.info i).status = 0
  order : s.hist.submitted = s.hist.taken ++ s.queued

/-- The device has completed the request for `b` and the handler has not seen it. -/
def Done (s : State T B α) (b : B) : Prop :=
  ∃ t k, s.call t = some k ∧ k.b = b ∧ k.head ∈ s.completed

/-- A request that the handler has to see yet. -/
def Active (s : State T B α) (k : Call B) : Prop :=
  k.phase = .ring ∨ k.phase = .bump ∨ k.head ∈ s.outstanding

/-- `b->disk` is set from the formatting of a request until the handler has seen its head,
and what is counted goes with it. -/
structure Flags (s : State T B α) : Prop where
  inDisk : ∀ b, s.inDisk b = true ↔ ∃ t k, s.call t = some k ∧ k.b = b ∧ Active s k
  issued : ∀ b, s.hist.issued b = s.hist.cleared b + (s.inDisk b).toNat
  done : ∀ b, Done s b → s.hist.completed b = s.hist.cleared b + 1
  notDone : ∀ b, ¬ Done s b → s.hist.completed b = s.hist.cleared b

structure Protocol (s : State T B α) : Prop where
  control : Control s
  chains : Holdings.Partition (fun i => s.disk.free i = true) s.chain
  formatted : ∀ t k, s.call t = some k → k.phase ≠ .format → Formatted s.disk (sector s k.b) k
  rings : Rings s
  flags : Flags s

variable {s s' : State T B α} {t u : T} {k l : Call B} {b : B}

theorem protocol_init (blockno : B → BitVec 32) (data : B → α) (blocks : BitVec 64 → α) :
    Protocol (init blockno data blocks : State T B α) := by
  have hout : (init blockno data blocks : State T B α).outstanding = [] := by
    simp [State.outstanding, State.queued, State.completed, init, contents_self]
  have hdone (b : B) : ¬ Done (init blockno data blocks : State T B α) b := by
    rintro ⟨t, k, hk, -⟩
    cases hk
  exact
  { control :=
      { locked := fun t => ⟨False.elim, fun h => (by cases h)⟩
        buf := fun t b h => (by cases h)
        body := fun t h => (by cases h) }
    chains :=
      { nodup := fun t => List.nodup_nil
        disjoint := fun t u i hi => (by cases hi)
        free := fun i => ⟨fun _ t hi => (by cases hi), fun _ => rfl⟩ }
    formatted := fun t k h => (by cases h)
    rings :=
      { nodup := hout ▸ List.nodup_nil
        call := by simp [hout]
        bump := fun t k h => (by cases h)
        taken := fun r h => (by cases h)
        status := by simp [State.completed, init, contents_self]
        order := by simp [State.queued, init, contents_self] }
    flags :=
      { inDisk := fun b => ⟨fun h => (by cases h), by
          rintro ⟨t, k, hk, _⟩
          cases hk⟩
        issued := fun b => rfl
        done := fun b h => absurd h (hdone b)
        notDone := fun b _ => rfl } }

namespace Protocol

lemma chain_of_call (hk : s.call t = some k) : s.chain t = k.chain := by
  simp [State.chain, hk]

lemma holder_unique (h : Protocol s) (ht : (s.pc t).Holding) (hu : (s.pc u).Holding) : t = u := by
  rw [h.control.locked] at ht hu
  exact Option.some.inj (ht.symm.trans hu)

lemma eq_of_buf (h : Protocol s) (hk : s.call t = some k) (hl : s.call u = some l)
    (hb : k.b = l.b) : t = u := by
  have ht := h.control.buf t k.b (Pc.buf_of_call hk)
  have hu := h.control.buf u l.b (Pc.buf_of_call hl)
  rw [hb, hu] at ht
  exact (Option.some.inj ht).symm

lemma eq_of_mem (h : Protocol s) (hk : s.call t = some k) (hl : s.call u = some l)
    {i : Fin NUM} (hi : i ∈ k.chain) (hj : i ∈ l.chain) : t = u := by
  refine h.chains.disjoint t u i ?_ ?_
  · rwa [chain_of_call hk]
  · rwa [chain_of_call hl]

lemma eq_of_head (h : Protocol s) (hk : s.call t = some k) (hl : s.call u = some l)
    (hh : k.head = l.head) : t = u := by
  have hidx : k.idx.1 = l.idx.1 := Fin.ext hh
  exact h.eq_of_mem hk hl (i := k.idx.1) (by simp [Call.chain]) (by simp [Call.chain, hidx])

lemma used_of_mem (h : Protocol s) (hk : s.call t = some k) {i : Fin NUM} (hi : i ∈ k.chain) :
    s.disk.free i = false := by
  have hn := h.chains.not_free (t := t) (by rwa [chain_of_call hk])
  simpa using hn

lemma nodup_of_call (h : Protocol s) (hk : s.call t = some k) : k.chain.Nodup := by
  rw [← chain_of_call hk]
  exact h.chains.nodup t

/-- A head on its way belongs to a submitted request. -/
lemma submitted_of_head (h : Protocol s) (hk : s.call t = some k) (hh : k.head ∈ s.outstanding) :
    k.phase = .submitted := by
  obtain ⟨u, l, hl, hphase, hhead⟩ := h.rings.call _ hh
  obtain rfl := h.eq_of_head hk hl hhead.symm
  obtain rfl := Option.some.inj (hk.symm.trans hl)
  exact hphase

lemma lt_of_mem (h : Protocol s) {i : ℕ} (hi : i ∈ s.outstanding) : i < NUM := by
  obtain ⟨t, k, -, -, rfl⟩ := h.rings.call i hi
  exact k.idx.1.isLt

/-- There are never more heads on their way than descriptors. -/
lemma length_outstanding_le (h : Protocol s) : s.outstanding.length ≤ NUM := by
  have hsub : s.outstanding ⊆ List.range NUM := fun i hi => List.mem_range.mpr (h.lt_of_mem hi)
  simpa using (h.rings.nodup.subperm hsub).length_le

/-- A request that is not submitted leaves room in the rings. -/
lemma length_outstanding_lt (h : Protocol s) (hk : s.call t = some k)
    (hphase : k.phase ≠ .submitted) : s.outstanding.length < NUM := by
  have hnot : k.head ∉ s.outstanding := fun hh => hphase (h.submitted_of_head hk hh)
  have hsub : k.head :: s.outstanding ⊆ List.range NUM := by
    intro i hi
    rw [List.mem_range]
    obtain rfl | hi := List.mem_cons.mp hi
    · exact k.idx.1.isLt
    · exact h.lt_of_mem hi
  have hle := ((List.nodup_cons.mpr ⟨hnot, h.rings.nodup⟩).subperm hsub).length_le
  rw [List.length_cons, List.length_range] at hle
  omega

lemma size_queued : size s.dev.lastAvail s.disk.availIdx ≤ s.outstanding.length := by
  have hlen : s.queued.length = size s.dev.lastAvail s.disk.availIdx := length_contents
  rw [State.outstanding, List.length_append, hlen]
  omega

lemma size_completed : size s.disk.usedIdx s.disk.usedRingIdx ≤ s.completed.length := by
  rw [State.completed, List.length_append, length_contents]
  omega

lemma completed_sublist : s.completed.Sublist s.outstanding :=
  (List.sublist_append_right ..).trans (List.sublist_append_right ..)

lemma completed_subset : s.completed ⊆ s.outstanding := completed_sublist.subset

/-- The flag of a request's buffer tells whether the handler has seen it. -/
lemma inDisk_iff (h : Protocol s) (hk : s.call t = some k) : s.inDisk k.b = true ↔ Active s k := by
  rw [h.flags.inDisk]
  constructor
  · rintro ⟨u, l, hl, hb, hactive⟩
    obtain rfl := h.eq_of_buf hk hl hb.symm
    obtain rfl := Option.some.inj (hk.symm.trans hl)
    exact hactive
  · exact fun hactive => ⟨t, k, hk, rfl, hactive⟩

end Protocol

end Xv6.Virtio
