import Xv6.BufferCache

/-!
# Identity and reference counts of buffers

No two buffers stand for one block of the device, the links form one ring of all
buffers, and `refcnt` counts the holder, the processes that wait for the buffer or
have just released it, and the pin of the log.
-/
namespace Xv6.BufferCache
open Log (Block)

variable {P : Type*} {L : Layout} {s s' : State P}

/-- The references that keep buffer `b` from being recycled. -/
def uses (L : Layout) (s : State P) (b : Bp) : ℕ :=
  (if (s.buf b).lock = none then 0 else 1) + s.pend.countP (fun x => x.2 = b) +
    if (s.buf b).dev = L.dev then s.pinned.count (s.buf b).blockno else 0

structure CacheInv (L : Layout) (s : State P) : Prop where
  ring : ∃ l, Ring.IsRing s.links l ∧ ∀ b, b ∈ l
  unique : ∀ b c, (s.buf b).dev ≠ 0 → (s.buf b).dev = (s.buf c).dev →
    (s.buf b).blockno = (s.buf c).blockno → b = c
  dev : ∀ b, (s.buf b).dev = 0 ∨ (s.buf b).dev = L.dev
  refcnt : ∀ b, (s.buf b).refcnt = uses L s b
  used_dev : ∀ b, 0 < uses L s b → (s.buf b).dev = L.dev
  pend : ∀ p b, (p, b) ∈ s.pend ↔ s.pos p = .waiting b ∨ s.pos p = .releasing b
  pend_nodup : s.pend.Nodup
  reading : ∀ p b, s.pos p = .reading b → (s.buf b).lock = some p
  pinned : ∀ x ∈ s.pinned, ∃ b, (s.buf b).dev = L.dev ∧ (s.buf b).blockno = x

section Fields

variable (s : State P)

@[simp, grind =] lemma setBuf_buf (b c : Bp) (v : Buf P) :
    (s.setBuf b v).buf c = if c = b then v else s.buf c := by
  simp [State.setBuf, Function.update_apply]

lemma setBuf_same {s : State P} {b : Bp} {v : Buf P} {β : Type*} (f : Buf P → β)
    (hf : f v = f (s.buf b)) (c : Bp) : f ((s.setBuf b v).buf c) = f (s.buf c) := by
  by_cases hc : c = b
  · rw [hc, setBuf_buf, if_pos rfl, hf]
  · rw [setBuf_buf, if_neg hc]

/-- To recycle a buffer is to give it another block and then to count the caller. -/
lemma setBuf_recycle {s : State P} {b : Bp} {dev x : ℕ} (hfree : (s.buf b).refcnt = 0) :
    s.setBuf b { s.buf b with dev := dev, blockno := x, valid := false, refcnt := 1 } =
      let s₁ := s.setBuf b { s.buf b with dev := dev, blockno := x, valid := false }
      s₁.setBuf b { s₁.buf b with refcnt := (s₁.buf b).refcnt + 1 } := by
  simp [State.setBuf, hfree]

@[simp, grind =] lemma setPos_pos [DecidableEq P] (p q : P) (c : Pos) :
    (s.setPos p c).pos q = if q = p then c else s.pos q := by
  simp [State.setPos, Function.update_apply]

end Fields

variable {b : Bp}

lemma uses_pos_of_lock (hb : (s.buf b).lock ≠ none) : 0 < uses L s b := by
  simp [uses, hb]

variable {p : P}

lemma uses_pos_of_pend (hb : (p, b) ∈ s.pend) : 0 < uses L s b := by
  have hpos : 0 < s.pend.countP fun x => x.2 = b := List.countP_pos_iff.mpr ⟨(p, b), hb, by simp⟩
  unfold uses
  omega

lemma uses_pos_of_pinned (hdev : (s.buf b).dev = L.dev) (hb : (s.buf b).blockno ∈ s.pinned) :
    0 < uses L s b := by
  have hpos := List.count_pos_iff.mpr hb
  unfold uses
  rw [if_pos hdev]
  omega

namespace CacheInv

lemma eq_of_blockno (h : CacheInv L s) {b c : Bp} (hb : (s.buf b).dev = L.dev)
    (hc : (s.buf c).dev = L.dev) (hx : (s.buf b).blockno = (s.buf c).blockno) : b = c :=
  h.unique b c (hb ▸ L.dev_ne_zero) (hb.trans hc.symm) hx

lemma exists_ring (h : CacheInv L s) :
    ∃ l, Ring.IsRing s.links l ∧ (∀ b, b ∈ l) ∧ l.length < NBUF + 1 := by
  obtain ⟨l, hring, hall⟩ := h.ring
  have hlen := hring.nodup.length_le_card
  rw [Fintype.card_fin] at hlen
  exact ⟨l, hring, hall, by omega⟩

lemma find_eq_none (h : CacheInv L s) {dev x : ℕ} (hf : s.find dev x = none) (b : Bp) :
    ¬ ((s.buf b).dev = dev ∧ (s.buf b).blockno = x) := by
  obtain ⟨l, hring, hall, hlen⟩ := h.exists_ring
  rw [State.find, hring.scan_next hlen] at hf
  simpa using List.find?_eq_none.mp hf b (hall b)

lemma find_eq_some (h : CacheInv L s) {dev x : ℕ} (hf : s.find dev x = some b) :
    (s.buf b).dev = dev ∧ (s.buf b).blockno = x := by
  obtain ⟨l, hring, hall, hlen⟩ := h.exists_ring
  rw [State.find, hring.scan_next hlen] at hf
  simpa using List.find?_some hf

lemma findUnused_eq_some (h : CacheInv L s) (hf : s.findUnused = some b) :
    (s.buf b).refcnt = 0 := by
  obtain ⟨l, hring, hall, hlen⟩ := h.exists_ring
  rw [State.findUnused, hring.scan_prev hlen] at hf
  simpa using List.find?_some hf

/-- Steps that change neither the links nor who uses which buffer. -/
lemma frame (h : CacheInv L s) (hlinks : s'.links = s.links) (hpend : s'.pend = s.pend)
    (hpos : s'.pos = s.pos) (hpinned : s'.pinned = s.pinned)
    (hbuf : ∀ b, (s'.buf b).dev = (s.buf b).dev ∧ (s'.buf b).blockno = (s.buf b).blockno ∧
      (s'.buf b).lock = (s.buf b).lock ∧ (s'.buf b).refcnt = (s.buf b).refcnt) :
    CacheInv L s' := by
  simp only [forall_and] at hbuf
  obtain ⟨hdev, hno, hlock, hrefcnt⟩ := hbuf
  cases h
  constructor
  all_goals simp only [uses, hlinks, hpend, hpos, hpinned, hdev, hno, hlock, hrefcnt] at *
  all_goals assumption

/-- A change of the pins of the block of buffer `b`, counted in `refcnt`. -/
lemma pins (h : CacheInv L s) (hdev : (s.buf b).dev = L.dev) (hlinks : s'.links = s.links)
    (hpend : s'.pend = s.pend) (hpos : s'.pos = s.pos)
    (hbuf : ∀ c, (s'.buf c).dev = (s.buf c).dev ∧ (s'.buf c).blockno = (s.buf c).blockno ∧
      (s'.buf c).lock = (s.buf c).lock ∧ (c ≠ b → (s'.buf c).refcnt = (s.buf c).refcnt))
    (hcount : ∀ y, y ≠ (s.buf b).blockno → s'.pinned.count y = s.pinned.count y)
    (href : (s'.buf b).refcnt + s.pinned.count (s.buf b).blockno =
      (s.buf b).refcnt + s'.pinned.count (s.buf b).blockno) : CacheInv L s' := by
  have huses : ∀ c, c ≠ b → uses L s' c = uses L s c := by
    intro c hc
    obtain ⟨hd, hno, hlock, -⟩ := hbuf c
    simp only [uses, hd, hno, hlock, hpend]
    congr 1
    split_ifs with hcd
    · rw [hcount _ fun he => hc (h.eq_of_blockno hcd hdev he)]
    · rfl
  have hmem (x : ℕ) (hx : x ≠ (s.buf b).blockno) : x ∈ s'.pinned ↔ x ∈ s.pinned := by
    rw [← List.count_pos_iff, hcount x hx, List.count_pos_iff]
  have hnew : uses L s' b + s.pinned.count (s.buf b).blockno =
      uses L s b + s'.pinned.count (s.buf b).blockno := by
    grind [uses]
  cases h
  constructor
  all_goals grind

/-- `bpin` by `log_write`, and the changes of data that come with it. -/
lemma pin (h : CacheInv L s) {v : Buf P} {l : List ℕ} {o : ℤ}
    (hdev : (s.buf b).dev = L.dev) (hv : v.dev = (s.buf b).dev ∧ v.blockno = (s.buf b).blockno ∧
      v.lock = (s.buf b).lock ∧ v.refcnt = (s.buf b).refcnt + 1) :
    CacheInv L { s.setBuf b v with
      lh := l, outstanding := o, pinned := s.pinned ++ [(s.buf b).blockno] } := by
  obtain ⟨hvd, hvb, hvl, hvr⟩ := hv
  refine h.pins hdev rfl rfl rfl (fun c => ⟨setBuf_same Buf.dev hvd c,
    setBuf_same Buf.blockno hvb c, setBuf_same Buf.lock hvl c, fun hc => by simp [hc]⟩) ?_ ?_
  · intro y hy
    simp [hy.symm]
  · simp [hvr]
    omega

lemma bunpin (h : CacheInv L s) (hdev : (s.buf b).dev = L.dev) (hb : (s.buf b).blockno ∈ s.pinned) :
    CacheInv L (s.bunpin b) := by
  refine h.pins hdev rfl rfl rfl (fun c => ?_) ?_ ?_
  · by_cases hc : c = b <;> simp [State.bunpin, hc]
  · intro y hy
    exact List.count_erase_of_ne hy
  · have hpos := List.count_pos_iff.mpr hb
    simp [State.bunpin, List.count_erase_self]
    omega

/-- A buffer that nobody uses is given another block, one that is not cached. -/
lemma rename (h : CacheInv L s) {x : ℕ} (hnone : s.find L.dev x = none)
    (hfree : (s.buf b).refcnt = 0) :
    CacheInv L (s.setBuf b { s.buf b with dev := L.dev, blockno := x, valid := false }) := by
  have hnew := h.find_eq_none hnone
  have huses : uses L s b = 0 := by
    have := h.refcnt b
    omega
  have hxpin : x ∉ s.pinned := fun hx => (h.pinned x hx).elim hnew
  have huses' : ∀ c, uses L (s.setBuf b { s.buf b with
      dev := L.dev, blockno := x, valid := false }) c = uses L s c := by
    intro c
    by_cases hcb : c = b
    · rw [hcb, huses]
      simp [uses] at huses
      simpa [uses, huses] using ⟨huses.1.2, List.count_eq_zero_of_not_mem hxpin⟩
    · simp [uses, hcb]
  have hother (c : Bp) (hc : (s.buf c).dev = L.dev) (hcpin : (s.buf c).blockno ∈ s.pinned) : c ≠ b := by
    rintro rfl
    have := uses_pos_of_pinned hc hcpin
    omega
  cases h
  constructor
  all_goals simp only [huses', setBuf_buf, State.setBuf_pinned, State.setBuf_links, State.setBuf_pend,
    State.setBuf_pos]
  all_goals grind

end CacheInv

/-- One for the holder of a buffer. -/
def locked (v : Buf P) : ℕ := if v.lock = none then 0 else 1

/-- A step of process `p` that changes buffer `b`, which keeps its block. -/
structure Touches (s s' : State P) (p : P) (b : Bp) : Prop where
  ring : ∃ l, Ring.IsRing s'.links l ∧ ∀ c, c ∈ l
  other : ∀ c, c ≠ b → s'.buf c = s.buf c
  dev : (s'.buf b).dev = (s.buf b).dev
  blockno : (s'.buf b).blockno = (s.buf b).blockno
  pos : ∀ q, q ≠ p → s'.pos q = s.pos q
  pinned : s'.pinned = s.pinned
  lock : ∀ q, q ≠ p → (s.buf b).lock = some q → (s'.buf b).lock = some q
  reading : ∀ c, s'.pos p = .reading c → c = b ∧ (s'.buf b).lock = some p

namespace Touches

variable {p : P} {b : Bp} (t : Touches s s' p b) (h : CacheInv L s)
include t h

/-- What remains to be shown: that the count of `b` is right, and who waits. -/
lemma inv (hdev : (s.buf b).dev = L.dev) (href : (s'.buf b).refcnt = uses L s' b)
    (hcount : ∀ c, c ≠ b →
      s'.pend.countP (fun x => x.2 = c) = s.pend.countP fun x => x.2 = c)
    (hpend : ∀ c, (p, c) ∈ s'.pend ↔ s'.pos p = .waiting c ∨ s'.pos p = .releasing c)
    (hother : ∀ q c, q ≠ p → ((q, c) ∈ s'.pend ↔ (q, c) ∈ s.pend)) (hnodup : s'.pend.Nodup) :
    CacheInv L s' := by
  have huses : ∀ c, c ≠ b → uses L s' c = uses L s c := by
    intro c hc
    simp only [uses, t.other c hc, t.pinned, hcount c hc]
  cases h
  cases t
  constructor
  case reading =>
    intro q c hread
    by_cases hq : q = p <;> by_cases hc : c = b <;> grind
  all_goals grind

lemma join (hdev : (s.buf b).dev = L.dev) (ready : s.pos p = .ready)
    (hpend : s'.pend = (p, b) :: s.pend) (hpos : s'.pos p = .waiting b ∨ s'.pos p = .releasing b)
    (href : (s'.buf b).refcnt + locked (s.buf b) = (s.buf b).refcnt + 1 + locked (s'.buf b)) :
    CacheInv L s' := by
  have hp : ∀ c, (p, c) ∉ s.pend := by
    intro c hc
    simpa [ready] using (h.pend p c).mp hc
  refine t.inv h hdev ?_ ?_ ?_ ?_ (hpend ▸ List.nodup_cons.mpr ⟨hp b, h.pend_nodup⟩)
  · have hold := h.refcnt b
    simp [uses, hpend, t.dev, t.blockno, t.pinned, locked] at hold href ⊢
    omega
  · intro c hc
    simp [hpend, hc.symm]
  · intro c
    obtain hpos | hpos := hpos <;> simp [hpend, hpos, hp, eq_comm]
  · intro q c hq
    simp [hpend, hq]

lemma leave [DecidableEq P] (hpos : s.pos p = .waiting b ∨ s.pos p = .releasing b)
    (hpend : s'.pend = s.pend.erase (p, b))
    (hnew : ∀ c, s'.pos p ≠ .waiting c ∧ s'.pos p ≠ .releasing c)
    (href : (s'.buf b).refcnt + 1 + locked (s.buf b) = (s.buf b).refcnt + locked (s'.buf b)) :
    CacheInv L s' := by
  have hp : (p, b) ∈ s.pend := (h.pend p b).mpr hpos
  have hperm := List.perm_cons_erase hp
  refine t.inv h (h.used_dev b (uses_pos_of_pend hp)) ?_ ?_ ?_ ?_ (hpend ▸ h.pend_nodup.erase _)
  · have hold := h.refcnt b
    rw [uses, hperm.countP_eq, List.countP_cons] at hold
    simp [uses, hpend, t.dev, t.blockno, t.pinned, locked] at hold href ⊢
    omega
  · intro c hc
    rw [hperm.countP_eq, hpend]
    simp [hc.symm]
  · intro c
    have hmem := h.pend_nodup.mem_erase_iff (a := (p, c)) (b := (p, b))
    have hc := h.pend p c
    obtain hpos | hpos := hpos <;> simp_all [eq_comm]
  · intro q c hq
    rw [hpend, h.pend_nodup.mem_erase_iff]
    simp [hq]

end Touches

namespace CacheInv

variable [DecidableEq P]

lemma bget_found (h : CacheInv L s) (ready : s.pos p = .ready) (hdev : (s.buf b).dev = L.dev) :
    CacheInv L { (s.setBuf b { s.buf b with refcnt := (s.buf b).refcnt + 1 }).setPos p
      (.waiting b) with pend := (p, b) :: s.pend } := by
  have t : Touches s { (s.setBuf b { s.buf b with refcnt := (s.buf b).refcnt + 1 }).setPos p
      (.waiting b) with pend := (p, b) :: s.pend } p b := by
    constructor <;> simp +contextual [h.ring]
  exact t.join h hdev ready rfl (by simp) (by simp [locked])

lemma bget_recycle (h : CacheInv L s) {x : ℕ} (ready : s.pos p = .ready)
    (hnone : s.find L.dev x = none) (hfree : (s.buf b).refcnt = 0) :
    CacheInv L { (s.setBuf b { s.buf b with
      dev := L.dev, blockno := x, valid := false, refcnt := 1 }).setPos p (.waiting b) with
      pend := (p, b) :: s.pend } := by
  rw [setBuf_recycle hfree]
  exact (h.rename hnone hfree).bget_found ready (by simp)

lemma acquire (h : CacheInv L s) (pos : s.pos p = .waiting b) (free : (s.buf b).lock = none) :
    CacheInv L (s.acquire p b) := by
  have t : Touches s (s.acquire p b) p b := by
    constructor
    case reading =>
      intro c
      by_cases hv : (s.buf b).valid <;> simp +contextual [State.acquire, hv]
    all_goals simp +contextual [State.acquire, h.ring, free]
  refine t.leave h (.inl pos) rfl (fun c => ?_) (by simp [locked, State.acquire, free])
  simp only [State.acquire, setPos_pos, if_true]
  split_ifs <;> simp

lemma read (h : CacheInv L s) (pos : s.pos p = .reading b) : CacheInv L (s.read p b) := by
  have hlock := h.reading p b pos
  have t : Touches s (s.read p b) p b := by
    constructor <;> simp +contextual [State.read, h.ring]
  refine t.inv h (h.used_dev b (uses_pos_of_lock (by simp [hlock]))) ?_ (fun _ _ => rfl) ?_
    (fun _ _ _ => Iff.rfl) h.pend_nodup
  · have hold := h.refcnt b
    simpa [uses, State.read] using hold
  · intro c
    have hold := h.pend p c
    simpa [State.read, pos] using hold

lemma release (h : CacheInv L s) (ready : s.pos p = .ready) (held : (s.buf b).lock = some p) :
    CacheInv L (s.release p b) := by
  have t : Touches s (s.release p b) p b := by
    constructor <;> simp +contextual [State.release, h.ring, held, eq_comm (a := p)]
  exact t.join h (h.used_dev b (uses_pos_of_lock (by simp [held]))) ready rfl
    (by simp [State.release]) (by simp [locked, State.release, held])

lemma brelse (h : CacheInv L s) (pos : s.pos p = .releasing b) : CacheInv L (s.brelse p b) := by
  have hring : ∃ l, Ring.IsRing (s.brelse p b).links l ∧ ∀ c, c ∈ l := by
    obtain ⟨l, hring, hall⟩ := h.ring
    by_cases hzero : (s.buf b).refcnt - 1 = 0
    · refine ⟨b :: l.erase b, ?_, by grind⟩
      simpa [State.brelse, hzero] using hring.moveFront (hall b)
    · exact ⟨l, by simpa [State.brelse, hzero] using hring, hall⟩
  have t : Touches s (s.brelse p b) p b := by
    refine ⟨hring, ?_, ?_, ?_, ?_, ?_, ?_, ?_⟩ <;> simp +contextual [State.brelse]
  exact t.leave h (.inr pos) rfl (by simp [State.brelse]) (by simp [locked, State.brelse])

end CacheInv

end Xv6.BufferCache
