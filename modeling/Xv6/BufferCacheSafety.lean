import Xv6.BufferCommit

/-!
# Buffer cache and log together are a block map

Every interleaving keeps three invariants: the buffers' identities and counts, the
log's bookkeeping (who runs, who commits, what is pinned), and the contents: a
valid buffer holds what was last left in its block, and the disk holds it for every
block that is neither pinned nor being changed.
-/
namespace Xv6.BufferCache
open Log (Block)

variable {P : Type*} {L : Layout} {s s' : State P}

structure LogInv (L : Layout) (s : State P) : Prop where
  running : ∀ p, p ∈ s.running ↔ s.role p = .running
  running_nodup : s.running.Nodup
  outstanding : s.outstanding = s.running.length
  committing : ∀ p is, s.role p = .committing is → s.committing = true
  alone : s.committing = true → s.running = []
  committer : ∀ p q is js, s.role p = .committing is → s.role q = .committing js → p = q
  lh_nodup : s.lh.Nodup
  lh_home : ∀ x ∈ s.lh, L.Home x
  lh_length : s.lh.length ≤ LOGBLOCKS
  pinned_open : (∀ p is, s.role p ≠ .committing is) → s.pinned = s.lh
  pinned_commit : ∀ p is, s.role p = .committing is → s.pinned = unpins is
  pinned_nodup : s.pinned.Nodup
  cleared : ∀ p is, s.role p = .committing is → Instr.clear ∉ is → s.lh = []

@[simp, grind =] lemma setRole_role [DecidableEq P] (s : State P) (p q : P) (r : Role) :
    (s.setRole p r).role q = if q = p then r else s.role q := by
  simp [State.setRole, Function.update_apply]

namespace LogInv

lemma frame (h : LogInv L s) (hrole : s'.role = s.role) (hrun : s'.running = s.running)
    (hout : s'.outstanding = s.outstanding) (hcom : s'.committing = s.committing)
    (hlh : s'.lh = s.lh) (hpin : s'.pinned = s.pinned) : LogInv L s' := by
  cases h
  constructor <;> simp only [hrole, hrun, hout, hcom, hlh, hpin]
  all_goals assumption

variable {p : P}

/-- `log_write` by a running operation adds a block to header and pins. -/
lemma logWrite (h : LogInv L s) {b : Bp} (hrun : s.role p = .running)
    (home : L.Home (s.buf b).blockno) : LogInv L (s.logWrite b) := by
  have hopen : ∀ q is, s.role q ≠ .committing is := by
    intro q is hq
    have hnone := h.alone (h.committing q is hq)
    have hmem := (h.running p).mpr hrun
    simp [hnone] at hmem
  have hpinned := h.pinned_open hopen
  unfold State.logWrite
  simp only
  split_ifs with hfull hout hmem
  iterate 3 exact { h with }
  have hnodup : (s.lh ++ [(s.buf b).blockno]).Nodup :=
    h.lh_nodup.append (List.nodup_singleton _) (by simpa using hmem)
  cases h
  constructor <;> simp only [State.setBuf]
  all_goals grind

variable [DecidableEq P]

/-- The committer makes its next call. -/
lemma advance (h : LogInv L s) {i : Instr} {is : List Instr} (hp : s.role p = .committing (i :: is))
    {lh pinned : List ℕ} (hlh : lh = s.lh ∨ lh = []) (hpin : pinned = unpins is)
    (hnodup : pinned.Nodup) (hclear : Instr.clear ∉ is → lh = []) :
    LogInv L ({ s with lh := lh, pinned := pinned }.setRole p (.committing is)) := by
  cases h
  constructor <;> simp only [State.setRole, Function.update_apply]
  all_goals grind

lemma setRole_self (p : P) : s.setRole p (s.role p) = s := by
  simp [State.setRole]

/-- A call by a process in some role. The committer's calls other than `bunpin` and
`clear` leave what is pinned and what is in the header. -/
lemma call (h : LogInv L s) {i : Instr} {r : Role} (call : Calls L (s.role p) i r)
    (hunpin : ∀ x, i ≠ .bunpin x) (hclear : i ≠ .clear) : LogInv L (s.setRole p r) := by
  generalize hr : s.role p = r₀ at call
  cases call with
  | bread x _ => rwa [← hr, setRole_self]
  | brelse x _ => rwa [← hr, setRole_self]
  | modify x d _ => rwa [← hr, setRole_self]
  | logWrite x _ => rwa [← hr, setRole_self]
  | commit i is =>
    have hunpins : unpins (i :: is) = unpins is := by
      cases i <;> simp_all [unpins]
    refine h.advance hr (.inl rfl) ?_ h.pinned_nodup ?_
    · rw [h.pinned_commit p _ hr, hunpins]
    · intro his
      exact h.cleared p _ hr (by simp [his, hclear.symm])

lemma beginOp (h : LogInv L s) (idle : s.role p = .idle) (free : s.committing = false) :
    LogInv L (s.beginOp p) := by
  cases h
  constructor <;> simp only [State.beginOp, State.setRole, Function.update_apply]
  all_goals grind

lemma endOp (h : LogInv L s) (run : s.role p = .running) : LogInv L (s.endOp L p) := by
  have hmem : p ∈ s.running := (h.running p).mpr run
  have hfree : s.committing = false := by
    by_contra hcom
    have := h.alone (by simpa using hcom)
    simp [this] at hmem
  have hlength : (s.running.length : ℤ) = (s.running.erase p).length + 1 := by
    rw [List.length_erase_of_mem hmem]
    have := List.length_pos_of_mem hmem
    omega
  have hrunning := fun q => h.running_nodup.mem_erase_iff (a := q) (b := p)
  have hclear := @clear_mem_commit L.start s.lh
  have hpins := unpins_commit L.start s.lh
  unfold State.endOp
  simp only [hfree, Bool.false_eq_true, if_false]
  cases h
  split_ifs with hzero
  · have hnil : s.running.erase p = [] := List.eq_nil_of_length_eq_zero (by omega)
    constructor <;> simp only [State.setRole, Function.update_apply]
    all_goals grind
  · constructor <;> simp only [State.setRole, Function.update_apply]
    all_goals grind

lemma endCommit (h : LogInv L s) (done : s.role p = .committing []) : LogInv L (s.endCommit p) := by
  cases h
  constructor <;> simp only [State.endCommit, State.setRole, Function.update_apply]
  all_goals grind [unpins]

end LogInv

structure ContentInv (L : Layout) (s : State P) : Prop where
  lock_valid : ∀ p b, (s.buf b).lock = some p → (s.buf b).valid = true ∨ s.pos p = .reading b
  reading : ∀ p b, s.pos p = .reading b → (s.buf b).valid = false
  pinned_valid : ∀ b, (s.buf b).dev = L.dev → (s.buf b).blockno ∈ s.pinned →
    (s.buf b).valid = true
  data : ∀ b, (s.buf b).dev = L.dev → (s.buf b).valid = true →
    (s.buf b).data = s.latest (s.buf b).blockno
  disk : ∀ x, s.disk x = s.latest x ∨ x ∈ s.pinned ∨
    ∃ b, (s.buf b).dev = L.dev ∧ (s.buf b).blockno = x ∧ (s.buf b).dirty = true
  dirty : ∀ b, (s.buf b).dirty = true → (s.buf b).lock ≠ none ∧ (s.buf b).valid = true
  script : ∀ p is, s.role p = .committing is → ∃ dirty synced, Safe L dirty synced s.latest is ∧
    (∀ b, (s.buf b).lock = some p → (s.buf b).dirty = true → (s.buf b).blockno ∈ dirty) ∧
    ∀ x ∈ synced, s.disk x = s.latest x

variable {i : Instr}

/-- Outside of `commit` the role stays; the committer goes on to its next call. -/
lemma Calls.cases {r r' : Role} (h : Calls L r i r') : (r' = r ∧ ∀ is, r ≠ .committing is) ∨
      ∃ is, r = .committing (i :: is) ∧ r' = .committing is := by
  cases h <;> simp_all

namespace ContentInv

lemma panic (h : ContentInv L s) (x : Option Panic) : ContentInv L { s with panicked := x } :=
  { h with }

variable {b : Bp} {p : P} {x : ℕ}

lemma holds (h : ContentInv L s) (hold : Holds L s p b x) :
    (s.buf b).valid = true ∧ (s.buf b).data = s.latest x := by
  have hvalid : (s.buf b).valid = true := by
    obtain hv | hv := h.lock_valid p b hold.lock
    · exact hv
    · simp [hold.ready] at hv
  refine ⟨hvalid, ?_⟩
  rw [h.data b hold.dev hvalid, hold.blockno]

lemma disk_of_reading (hc : CacheInv L s) (h : ContentInv L s) (pos : s.pos p = .reading b) :
    s.disk (s.buf b).blockno = s.latest (s.buf b).blockno := by
  have hinvalid := h.reading p b pos
  have hlock := hc.reading p b pos
  have hdev := hc.used_dev b (uses_pos_of_lock (by simp [hlock]))
  obtain hd | hpin | ⟨c, hcdev, hcx, hcd⟩ := h.disk (s.buf b).blockno
  · exact hd
  · simp [h.pinned_valid b hdev hpin] at hinvalid
  · have hcb := hc.eq_of_blockno hcdev hdev hcx
    simp [← hcb, (h.dirty c hcd).2] at hinvalid

/-- A running operation changes a buffer, while nobody commits. -/
lemma modify (hc : CacheInv L s) (h : ContentInv L s) {d : Block} (hold : Holds L s p b x)
    (hopen : ∀ q is, s.role q ≠ .committing is) : ContentInv L (s.modify b d) := by
  have hvalid := (h.holds hold).1
  obtain ⟨hready, hlock, hdev, rfl⟩ := hold
  have hunique := fun c hcd => hc.eq_of_blockno (b := c) hcd hdev
  clear hc
  cases h
  constructor <;> simp only [State.modify, State.setBuf, Function.update_apply]
  all_goals grind

/-- `log_write` by a running operation, while nobody commits. -/
lemma logWrite (hc : CacheInv L s) (hl : LogInv L s) (h : ContentInv L s) (hold : Holds L s p b x)
    (hopen : ∀ q is, s.role q ≠ .committing is) : ContentInv L (s.logWrite b) := by
  have hvalid := (h.holds hold).1
  have hpinned := hl.pinned_open hopen
  obtain ⟨hready, hlock, hdev, rfl⟩ := hold
  unfold State.logWrite
  simp only
  split_ifs with hfull hout hmem
  · exact h.panic _
  · exact h.panic _
  · rw [← hpinned] at hmem
    clear hl hc
    cases h
    constructor <;> simp only [State.setBuf, Function.update_apply]
    all_goals grind
  · -- the block is pinned from now on
    have hunique := fun c hcd => hc.eq_of_blockno (b := c) hcd hdev
    clear hl hc
    cases h
    constructor <;> simp only [State.setBuf, Function.update_apply, List.mem_append, List.mem_singleton]
    all_goals grind

variable [DecidableEq P]

/-- Only the position in `commit` moves on, past a call without effect on contents. -/
lemma setRole (h : ContentInv L s) {r : Role}
    (hr : ∀ is, r = .committing is → ∃ dirty synced, Safe L dirty synced s.latest is ∧
      (∀ b, (s.buf b).lock = some p → (s.buf b).dirty = true → (s.buf b).blockno ∈ dirty) ∧
      ∀ x ∈ synced, s.disk x = s.latest x) : ContentInv L (s.setRole p r) := by
  refine { h with script := fun q is hq => ?_ }
  by_cases hqp : q = p
  · subst hqp
    exact hr is (by simpa using hq)
  · exact h.script q is (by simpa [hqp] using hq)

lemma bget_found (h : ContentInv L s) {l : List (P × Bp)} (ready : s.pos p = .ready) :
    ContentInv L { (s.setBuf b { s.buf b with refcnt := (s.buf b).refcnt + 1 }).setPos p
      (.waiting b) with pend := l } := by
  cases h
  constructor <;> simp only [State.setBuf, State.setPos, Function.update_apply]
  all_goals grind

lemma bget_recycle (hc : CacheInv L s) (h : ContentInv L s) {l : List (P × Bp)}
    (ready : s.pos p = .ready) (hnone : s.find L.dev x = none) (hfree : (s.buf b).refcnt = 0) :
    ContentInv L { (s.setBuf b { s.buf b with
      dev := L.dev, blockno := x, valid := false, refcnt := 1 }).setPos p (.waiting b) with
      pend := l } := by
  have huses : uses L s b = 0 := by
    have := hc.refcnt b
    omega
  have hlock : (s.buf b).lock = none := by
    by_contra hl
    have := uses_pos_of_lock (L := L) hl
    omega
  have hxpin : x ∉ s.pinned := by
    intro hx
    obtain ⟨c, hcx⟩ := hc.pinned x hx
    exact hc.find_eq_none hnone c hcx
  have hreading : ∀ q, s.pos q ≠ .reading b := by
    intro q hq
    simpa [hlock] using hc.reading q b hq
  clear hc
  cases h
  constructor <;> simp only [State.setBuf, State.setPos, Function.update_apply]
  all_goals grind

lemma acquire (h : ContentInv L s) (pos : s.pos p = .waiting b) (free : (s.buf b).lock = none) :
    ContentInv L (s.acquire p b) := by
  have hclean : (s.buf b).dirty = false := by
    by_contra hd
    exact (h.dirty b (by simpa using hd)).1 free
  cases h
  constructor <;> simp only [State.acquire, State.setBuf, State.setPos, Function.update_apply]
  all_goals grind

lemma read (hc : CacheInv L s) (h : ContentInv L s) (pos : s.pos p = .reading b) :
    ContentInv L (s.read p b) := by
  have hlatest := disk_of_reading hc h pos
  have hlock := hc.reading p b pos
  have hreader : ∀ q, s.pos q = .reading b → q = p := by
    intro q hq
    have := hc.reading q b hq
    rw [hlock] at this
    exact (Option.some.inj this).symm
  clear hc
  cases h
  constructor <;> simp only [State.read, State.setBuf, State.setPos, Function.update_apply]
  all_goals grind

lemma release (h : ContentInv L s) (ready : s.pos p = .ready) (clean : (s.buf b).dirty = false) :
    ContentInv L (s.release p b) := by
  cases h
  constructor <;> simp only [State.release, State.setBuf, State.setPos, Function.update_apply]
  all_goals grind

lemma brelse (h : ContentInv L s) (pos : s.pos p = .releasing b) : ContentInv L (s.brelse p b) := by
  cases h
  constructor <;> simp only [State.brelse, State.setBuf, State.setPos, Function.update_apply]
  all_goals grind

variable {is : List Instr}

lemma committer_eq (hl : LogInv L s) (hp : s.role p = .committing (i :: is)) (q : P)
    (js : List Instr) (hq : (if q = p then Role.committing is else s.role q) = .committing js) :
    q = p ∧ is = js := by
  by_cases hqp : q = p
  · exact ⟨hqp, by simpa [hqp] using hq⟩
  · exact absurd (hl.committer q p js _ (by simpa [hqp] using hq) hp) hqp

/-- The committer copies between two buffers that it holds. -/
lemma memmove (hc : CacheInv L s) (hl : LogInv L s) (h : ContentInv L s) {b c : Bp} {x y : ℕ}
    (dst : Holds L s p b x) (src : Holds L s p c y)
    (hp : s.role p = .committing (.memmove x y :: is)) :
    ContentInv L ((s.memmove L b c).setRole p (.committing is)) := by
  have hvalid := (h.holds dst).1
  have hsrc := (h.holds src).2
  obtain ⟨dirty, synced, hsafe, hdirties, hsynced⟩ := h.script p _ hp
  have hrole := committer_eq hl hp
  obtain ⟨hready, hlock, hdev, rfl⟩ := dst
  have hunique := fun c hcd => hc.eq_of_blockno (b := c) hcd hdev
  clear hc hl src
  cases h
  simp only [Safe] at hsafe
  unfold State.memmove
  split_ifs at hsafe ⊢ with hhome
  · -- `install_trans` copies what the home block contains already
    obtain ⟨hcopy, hsafe⟩ := hsafe
    rw [hsrc]
    constructor <;> simp only [State.setBuf, State.setRole, Function.update_apply]
    case script =>
      intro q js hq
      obtain ⟨rfl, rfl⟩ := hrole q js hq
      refine ⟨(s.buf b).blockno :: dirty, synced, hsafe, ?_, hsynced⟩
      grind
    all_goals grind
  · rw [hsrc]
    constructor <;> simp only [State.setBuf, State.setRole, Function.update_apply]
    case script =>
      intro q js hq
      obtain ⟨rfl, rfl⟩ := hrole q js hq
      refine ⟨(s.buf b).blockno :: dirty, synced.filter (· ≠ (s.buf b).blockno), hsafe, ?_, ?_⟩
      · grind
      · grind
    all_goals grind

lemma putHeader (hc : CacheInv L s) (hl : LogInv L s) (h : ContentInv L s)
    (hold : Holds L s p b L.start) (hp : s.role p = .committing (.putHeader :: is)) :
    ContentInv L ((s.putHeader b).setRole p (.committing is)) := by
  have hvalid := (h.holds hold).1
  obtain ⟨dirty, synced, hsafe, hdirties, hsynced⟩ := h.script p _ hp
  have hrole := committer_eq hl hp
  obtain ⟨hready, hlock, hdev, hstart⟩ := hold
  have hunique := fun c hcd => hc.eq_of_blockno (b := c) hcd hdev
  clear hc hl
  cases h
  simp only [Safe] at hsafe
  unfold State.putHeader State.modify
  generalize Log.putHeader (logHeader s.lh) (s.buf b).data = d
  constructor <;> simp only [State.setBuf, State.setRole, Function.update_apply]
  case script =>
    intro q js hq
    obtain ⟨rfl, rfl⟩ := hrole q js hq
    refine ⟨L.start :: dirty, synced.filter (· ≠ L.start), ?_, ?_, ?_⟩
    · rw [hstart]
      exact hsafe d
    · grind
    · grind
  all_goals grind

lemma bwrite (hc : CacheInv L s) (hl : LogInv L s) (h : ContentInv L s) (hold : Holds L s p b x)
    (hp : s.role p = .committing (.bwrite x :: is)) :
    ContentInv L ((s.bwrite b).setRole p (.committing is)) := by
  obtain ⟨hvalid, hlatest⟩ := h.holds hold
  obtain ⟨dirty, synced, hsafe, hdirties, hsynced⟩ := h.script p _ hp
  have hrole := committer_eq hl hp
  obtain ⟨hready, hlock, hdev, rfl⟩ := hold
  have hunique := fun c hcd => hc.eq_of_blockno (b := c) hcd hdev
  have hlocked : ∀ c, (s.buf c).lock = some p → (s.buf c).dev = L.dev :=
    fun c hcl => hc.used_dev c (uses_pos_of_lock (by simp [hcl]))
  clear hc hl
  cases h
  simp only [Safe] at hsafe
  unfold State.bwrite
  constructor <;> simp only [State.setBuf, State.setRole, Function.update_apply]
  case script =>
    intro q js hq
    obtain ⟨rfl, rfl⟩ := hrole q js hq
    refine ⟨_, _, hsafe, ?_, ?_⟩
    · grind
    · grind
  all_goals grind

lemma bunpin (hl : LogInv L s) (h : ContentInv L s) (hold : Holds L s p b x)
    (hp : s.role p = .committing (.bunpin x :: is)) :
    ContentInv L ((s.bunpin b).setRole p (.committing is)) := by
  obtain ⟨dirty, synced, hsafe, hdirties, hsynced⟩ := h.script p _ hp
  have hrole := committer_eq hl hp
  have hmem := fun y => hl.pinned_nodup.mem_erase_iff (a := y) (b := x)
  obtain ⟨hready, hlock, hdev, rfl⟩ := hold
  clear hl
  cases h
  simp only [Safe] at hsafe
  unfold State.bunpin
  constructor <;> simp only [State.setBuf, State.setRole, Function.update_apply]
  case script =>
    intro q js hq
    obtain ⟨rfl, rfl⟩ := hrole q js hq
    refine ⟨dirty, synced, hsafe.2, ?_, hsynced⟩
    grind
  all_goals grind

/-- A call without effect on the contents that the remaining calls rely on. -/
lemma skip (h : ContentInv L s) {r : Role} (call : Calls L (s.role p) i r)
    (hskip : ∀ dirty synced is, Safe L dirty synced s.latest (i :: is) →
      Safe L dirty synced s.latest is) : ContentInv L (s.setRole p r) := by
  refine h.setRole fun js hjs => ?_
  obtain ⟨hr, hnot⟩ | ⟨is, hr, his⟩ := call.cases
  · exact absurd (hr ▸ hjs) (hnot js)
  · obtain rfl : is = js := by simpa [his] using hjs
    obtain ⟨dirty, synced, hsafe, hdirties, hsynced⟩ := h.script p _ hr
    exact ⟨dirty, synced, hskip dirty synced is hsafe, hdirties, hsynced⟩

lemma beginOp (h : ContentInv L s) (p : P) : ContentInv L (s.beginOp p) := by
  have hrole : ContentInv L (s.setRole p .running) := h.setRole (by simp)
  exact { hrole with }

/-- A commit starts with no buffer held by the committer. -/
lemma endOp (hl : LogInv L s) (h : ContentInv L s) (released : ∀ b, (s.buf b).lock ≠ some p) :
    ContentInv L (s.endOp L p) := by
  have hcommit : ContentInv L (s.setRole p (.committing (commit L.start s.lh))) := by
    refine h.setRole fun js hjs => ⟨[], [], ?_, fun b hb => absurd hb (released b), by simp⟩
    obtain rfl : commit L.start s.lh = js := by simpa using hjs
    exact safe_commit hl.lh_home hl.lh_length s.latest
  have hidle : ContentInv L (s.setRole p .idle) := h.setRole (by simp)
  unfold State.endOp
  simp only
  split_ifs
  · exact { h with }
  · exact { hcommit with }
  · exact { hidle with }

lemma endCommit (h : ContentInv L s) (p : P) : ContentInv L (s.endCommit p) := by
  have hidle : ContentInv L (s.setRole p .idle) := h.setRole (by simp)
  exact { hidle with }

end ContentInv

structure Inv (L : Layout) (s : State P) : Prop where
  cache : CacheInv L s
  log : LogInv L s
  content : ContentInv L s

namespace Inv

variable {p : P}

lemma not_committing (h : Inv L s) (hrun : s.role p = .running) (q : P) (is : List Instr) :
    s.role q ≠ .committing is := by
  intro hq
  have hnone := h.log.alone (h.log.committing q is hq)
  have hmem := (h.log.running p).mpr hrun
  simp [hnone] at hmem

variable {r : Role}

lemma running_of_call (h : Inv L s) (call : Calls L (s.role p) i r)
    (hi : (∃ x d, i = .modify x d) ∨ ∃ x, i = .logWrite x) :
    s.role p = .running ∧ r = .running := by
  generalize hr : s.role p = r₀ at call
  cases call with
  | commit i is =>
    obtain ⟨dirty, synced, hsafe, -⟩ := h.content.script p _ hr
    obtain ⟨x, d, rfl⟩ | ⟨x, rfl⟩ := hi <;> exact hsafe.elim
  | _ => simp_all

lemma committing_of_call (call : Calls L (s.role p) i r)
    (hi : (∀ x, i ≠ .bread x) ∧ (∀ x, i ≠ .brelse x) ∧ (∀ x d, i ≠ .modify x d) ∧
      ∀ x, i ≠ .logWrite x) :
    ∃ is, s.role p = .committing (i :: is) ∧ r = .committing is := by
  generalize s.role p = r₀ at call
  cases call <;> simp_all

/-- A change of one buffer's data keeps identities and counts. -/
lemma cache_data (h : Inv L s) {b : Bp} {v : Buf P} (hbuf : s'.buf = (s.setBuf b v).buf)
    (hv : v.dev = (s.buf b).dev ∧ v.blockno = (s.buf b).blockno ∧ v.lock = (s.buf b).lock ∧
      v.refcnt = (s.buf b).refcnt) (hlinks : s'.links = s.links) (hpend : s'.pend = s.pend)
    (hpos : s'.pos = s.pos) (hpinned : s'.pinned = s.pinned) : CacheInv L s' := by
  refine h.cache.frame hlinks hpend hpos hpinned fun c => ?_
  rw [hbuf]
  exact ⟨setBuf_same Buf.dev hv.1 c, setBuf_same Buf.blockno hv.2.1 c, setBuf_same Buf.lock hv.2.2.1 c,
    setBuf_same Buf.refcnt hv.2.2.2 c⟩

variable [DecidableEq P] {x : ℕ}

/-- The critical section of `bget`, called by a process in any role. -/
lemma bget (h : Inv L s) (ready : s.pos p = .ready) (call : Calls L (s.role p) (.bread x) r) :
    Inv L ((s.bget p L.dev x).setRole p r) := by
  obtain ⟨hc, hl, ht⟩ := h
  have hsame : ∀ t : State P, CacheInv L t → CacheInv L (t.setRole p r) :=
    fun t htc => { htc with }
  have hlog : ∀ t : State P, t.role = s.role → t.running = s.running →
      t.outstanding = s.outstanding → t.committing = s.committing → t.lh = s.lh →
      t.pinned = s.pinned → LogInv L (t.setRole p r) := by
    intro t hr hrun hout hcom hlh hpin
    refine (hl.frame hr hrun hout hcom hlh hpin).call (i := .bread x) ?_ (by simp) (by simp)
    rwa [hr]
  unfold State.bget
  split
  next b hfind =>
    refine ⟨hsame _ (hc.bget_found ready (hc.find_eq_some hfind).1), hlog _ rfl rfl rfl rfl rfl rfl,
      (ht.bget_found ready).skip (i := .bread x) call ?_⟩
    exact fun _ _ _ hsafe => hsafe
  next hfind =>
    split
    next b hunused =>
      have hfree := hc.findUnused_eq_some hunused
      refine ⟨hsame _ (hc.bget_recycle ready hfind hfree), hlog _ rfl rfl rfl rfl rfl rfl,
        (ht.bget_recycle hc ready hfind hfree).skip (i := .bread x) call ?_⟩
      exact fun _ _ _ hsafe => hsafe
    next =>
      refine ⟨hsame _ { hc with },
        hlog _ rfl rfl rfl rfl rfl rfl, (ht.panic _).skip (i := .bread x) call ?_⟩
      exact fun _ _ _ hsafe => hsafe

lemma logWrite (h : Inv L s) {b : Bp} (hold : Holds L s p b x)
    (call : Calls L (s.role p) (.logWrite x) r) : Inv L ((s.logWrite b).setRole p r) := by
  obtain ⟨hrun, rfl⟩ := h.running_of_call call (.inr ⟨x, rfl⟩)
  have home : L.Home (s.buf b).blockno := by
    rw [hrun] at call
    cases call with
    | logWrite x home => rwa [hold.blockno]
  have hrole : (s.logWrite b).role = s.role := by
    unfold State.logWrite
    simp only
    split_ifs <;> rfl
  have hself : (s.logWrite b).setRole p .running = s.logWrite b := by
    rw [← hrun, ← hrole, LogInv.setRole_self]
  rw [hself]
  refine ⟨?_, h.log.logWrite hrun home, h.content.logWrite h.cache h.log hold (h.not_committing hrun)⟩
  unfold State.logWrite
  simp only
  split_ifs
  · exact { h.cache with }
  · exact { h.cache with }
  · exact h.cache_data rfl ⟨rfl, rfl, rfl, rfl⟩ rfl rfl rfl rfl
  · exact h.cache.pin hold.dev ⟨rfl, rfl, rfl, rfl⟩

/-- `releasesleep` in `brelse`: the buffer has been logged or written if it was
changed. -/
lemma release (h : Inv L s) {b : Bp} (hold : Holds L s p b x)
    (call : Calls L (s.role p) (.brelse x) r)
    (clean : (∀ is, s.role p ≠ .committing is) → (s.buf b).dirty = false) :
    Inv L ((s.release p b).setRole p r) := by
  have hclean : (s.buf b).dirty = false := by
    obtain ⟨-, hnot⟩ | ⟨is, hr, -⟩ := call.cases
    · exact clean hnot
    · obtain ⟨dirty, synced, hsafe, hdirties, -⟩ := h.content.script p _ hr
      by_contra hd
      have hmem := hdirties b hold.lock (by simpa using hd)
      exact hsafe.1 (hold.blockno ▸ hmem)
  have hcache := h.cache.release hold.ready hold.lock
  have hlog : LogInv L (s.release p b) := { h.log with }
  refine ⟨{ hcache with },
    hlog.call (i := .brelse x) call (by simp) (by simp), ?_⟩
  exact (h.content.release hold.ready hclean).skip (i := .brelse x) call fun _ _ _ hsafe => hsafe.2

lemma bunpin (h : Inv L s) {b : Bp} (hold : Holds L s p b x)
    (call : Calls L (s.role p) (.bunpin x) r) : Inv L ((s.bunpin b).setRole p r) := by
  obtain ⟨is, hp, rfl⟩ := committing_of_call call (by simp)
  have hpinned : s.pinned = x :: unpins is := h.log.pinned_commit p _ hp
  have hmem : (s.buf b).blockno ∈ s.pinned := by simp [hpinned, hold.blockno]
  have hcache := h.cache.bunpin hold.dev hmem
  refine ⟨{ hcache with }, ?_,
    h.content.bunpin h.log hold hp⟩
  have hlog : LogInv L ({ s with lh := s.lh, pinned := s.pinned.erase (s.buf b).blockno }.setRole p
      (.committing is)) := by
    refine h.log.advance hp (.inl rfl) ?_ (h.log.pinned_nodup.erase _) ?_
    · rw [hpinned, hold.blockno, List.erase_cons_head]
    · intro his
      exact h.log.cleared p _ hp (by simp [his])
  exact { hlog with }

lemma clear (h : Inv L s) (call : Calls L (s.role p) .clear r) :
    Inv L ({ s with lh := [] }.setRole p r) := by
  obtain ⟨is, hp, rfl⟩ := committing_of_call call (by simp)
  refine ⟨{ h.cache with }, ?_, ?_⟩
  · exact h.log.advance hp (.inr rfl) (h.log.pinned_commit p (.clear :: is) hp) h.log.pinned_nodup
      fun _ => rfl
  · have hskip := h.content.skip (i := .clear) call fun _ _ _ hsafe => hsafe
    exact { hskip with }

theorem step (h : Inv L s) (hs : Step L s p s') : Inv L s' := by
  cases hs with
  | bget x r ready call => exact h.bget ready call
  | acquire b pos free =>
    exact ⟨h.cache.acquire pos free, { h.log with },
      h.content.acquire pos free⟩
  | read b pos =>
    exact ⟨h.cache.read pos, { h.log with }, h.content.read h.cache pos⟩
  | modify b x d r hold call =>
    obtain ⟨hrun, rfl⟩ := h.running_of_call call (.inl ⟨x, d, rfl⟩)
    have hself : (s.modify b d).setRole p .running = s.modify b d := by
      rw [← hrun]
      exact LogInv.setRole_self p
    rw [hself]
    exact ⟨h.cache_data rfl ⟨rfl, rfl, rfl, rfl⟩ rfl rfl rfl rfl,
      { h.log with }, h.content.modify h.cache hold (h.not_committing hrun)⟩
  | logWrite b x r hold call => exact h.logWrite hold call
  | memmove b c x y r dst src call =>
    obtain ⟨is, hp, rfl⟩ := committing_of_call call (by simp)
    have hlog : LogInv L (s.memmove L b c) := { h.log with }
    exact ⟨h.cache_data rfl ⟨rfl, rfl, rfl, rfl⟩ rfl rfl rfl rfl,
      hlog.call (i := .memmove x y) call (by simp) (by simp),
      h.content.memmove h.cache h.log dst src hp⟩
  | putHeader b r hold call =>
    obtain ⟨is, hp, rfl⟩ := committing_of_call call (by simp)
    have hlog : LogInv L (s.putHeader b) := { h.log with }
    exact ⟨h.cache_data rfl ⟨rfl, rfl, rfl, rfl⟩ rfl rfl rfl rfl,
      hlog.call (i := .putHeader) call (by simp) (by simp),
      h.content.putHeader h.cache h.log hold hp⟩
  | bwrite b x r hold call =>
    obtain ⟨is, hp, rfl⟩ := committing_of_call call (by simp)
    have hlog : LogInv L (s.bwrite b) := { h.log with }
    exact ⟨h.cache_data rfl ⟨rfl, rfl, rfl, rfl⟩ rfl rfl rfl rfl,
      hlog.call (i := .bwrite x) call (by simp) (by simp), h.content.bwrite h.cache h.log hold hp⟩
  | bunpin b x r hold call => exact h.bunpin hold call
  | release b x r hold call clean => exact h.release hold call clean
  | brelse b pos =>
    exact ⟨h.cache.brelse pos, { h.log with }, h.content.brelse pos⟩
  | clear r ready call => exact h.clear call
  | beginOp idle ready free room =>
    exact ⟨{ h.cache with }, h.log.beginOp idle free,
      h.content.beginOp p⟩
  | endOp run ready released =>
    refine ⟨?_, h.log.endOp run, h.content.endOp h.log released⟩
    unfold State.endOp
    simp only
    split_ifs
    all_goals exact { h.cache with }
  | endCommit done ready =>
    exact ⟨{ h.cache with }, h.log.endCommit done,
      h.content.endCommit p⟩

end Inv

section Runs

lemma binit_ring : Ring.IsRing binit (List.finRange NBUF).reverse := by
  have hhead : Ring.IsRing (⟨fun _ => none, fun _ => none⟩ : Ring.Links Bp) [] :=
    ⟨List.nodup_nil, rfl, rfl⟩
  simpa [binit] using hhead.foldl_pushFront (List.finRange NBUF) (by simp [List.nodup_finRange])

lemma Inv.initial (h : Initial L s) : Inv L s := by
  obtain ⟨hlh, hpinned, hpend, hrun⟩ := h.empty
  have huses : ∀ b, uses L s b = 0 := by
    intro b
    simp [uses, (h.unused b).1, hpend, hpinned]
  refine ⟨⟨h.ring, h.unique, h.dev, ?_, ?_, ?_, ?_, ?_, ?_⟩, ?_, ?_⟩
  case refine_7 => constructor <;> simp [hlh, hpinned, hrun, h.quiet, h.procs]
  case refine_8 =>
    cases h
    constructor <;> grind
  all_goals simp [huses, hpend, hpinned, h.procs, h.unused]

theorem inv_of_reachable [DecidableEq P] {s : State P} (h : Reachable L s) : Inv L s := by
  obtain ⟨s₀, hinit, hrun⟩ := h
  induction hrun with
  | refl => exact .initial hinit
  | tail _ hnext ih =>
    obtain ⟨-, p, hstep⟩ := hnext
    exact ih.step hstep

end Runs

section FirstRead

/-- The log of device 1 starts at block 2. -/
def rootLayout : Layout := ⟨1, 2, by decide⟩

/-- One process, the cache as `binit` leaves it and a disk of zeros. -/
def boot : State Unit where
  links := binit
  buf := fun _ => ⟨false, 0, 0, none, 0, fun _ => 0, false⟩
  disk := fun _ _ => 0
  lh := []
  outstanding := 0
  committing := false
  role := fun _ => .idle
  pos := fun _ => .ready
  panicked := none
  latest := fun _ _ => 0
  pinned := []
  pend := []
  running := []

/-- The process reads block 100. -/
def firstRead : State Unit :=
  (((boot.bget () 1 100).setRole () .idle).acquire () 0).read () 0

lemma boot_initial : Initial rootLayout boot where
  ring := ⟨_, binit_ring, fun b => List.mem_reverse.mpr (List.mem_finRange b)⟩
  unique b c hb := absurd rfl hb
  dev b := .inl rfl
  unused b := ⟨rfl, rfl, rfl⟩
  data b _ hv := by simp [boot] at hv
  latest := rfl
  empty := ⟨rfl, rfl, rfl, rfl⟩
  quiet := ⟨rfl, rfl, rfl⟩
  procs p := ⟨rfl, rfl⟩

lemma firstRead_reachable : Reachable rootLayout firstRead := by
  refine ⟨boot, boot_initial, ?_⟩
  have hget : Next rootLayout boot ((boot.bget () 1 100).setRole () .idle) :=
    ⟨rfl, (), .bget 100 .idle rfl (.bread 100 (by simp [boot]))⟩
  have hacquire : Next rootLayout ((boot.bget () 1 100).setRole () .idle)
      (((boot.bget () 1 100).setRole () .idle).acquire () 0) :=
    ⟨by decide +kernel, (), .acquire 0 (by decide +kernel) (by decide +kernel)⟩
  have hread : Next rootLayout (((boot.bget () 1 100).setRole () .idle).acquire () 0) firstRead :=
    ⟨by decide +kernel, (), .read 0 (by decide +kernel)⟩
  exact ((Relation.ReflTransGen.single hget).tail hacquire).tail hread

end FirstRead

end Xv6.BufferCache
