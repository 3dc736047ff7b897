import Xv6.BufferCacheSafety

/-!
# When the buffer cache runs dry

`bget` stops the machine exactly when the block is not cached and every buffer is in use. A
process keeps a buffer while it waits for the disk, and the log keeps those it has pinned.
-/
namespace Xv6.BufferCache

variable {P : Type*} {L : Layout} {s : State P}

/-- The buffers that a process holds, waits for or is about to give back. -/
def busy (s : State P) : Finset Bp :=
  {b | (s.buf b).lock.isSome ∨ ∃ x ∈ s.pend, x.2 = b}

lemma CacheInv.findUnused_eq_none (h : CacheInv L s) :
    s.findUnused = none ↔ ∀ b, 0 < uses L s b := by
  obtain ⟨l, hring, hall, hlen⟩ := h.exists_ring
  rw [State.findUnused, hring.scan_prev hlen, List.find?_eq_none]
  simp [h.refcnt, Nat.pos_iff_ne_zero, hall]

/-- A pinned block has one buffer. -/
lemma CacheInv.card_pinned (h : CacheInv L s) :
    (Finset.univ.filter fun b => (s.buf b).dev = L.dev ∧ (s.buf b).blockno ∈ s.pinned).card ≤
      s.pinned.length := by
  refine le_trans (Finset.card_le_card_of_injOn (t := s.pinned.toFinset)
    (fun b => (s.buf b).blockno) ?_ ?_) s.pinned.toFinset_card_le
  · intro b hb
    simpa using (Finset.mem_filter.mp hb).2.2
  · intro b hb c hc he
    simp only [Finset.coe_filter, Set.mem_ofPred_eq, Finset.mem_univ, true_and] at hb hc
    exact h.eq_of_blockno hb.1 hc.1 he

lemma CacheInv.card_le_of_used (h : CacheInv L s) (hall : ∀ b, 0 < uses L s b) :
    NBUF ≤ (busy s).card + s.pinned.length := by
  have hcover : (Finset.univ : Finset Bp) ⊆ busy s ∪
      Finset.univ.filter fun b => (s.buf b).dev = L.dev ∧ (s.buf b).blockno ∈ s.pinned := by
    intro b _
    have hpos := hall b
    simp only [uses] at hpos
    simp only [busy, Finset.mem_union, Finset.mem_filter, Finset.mem_univ, true_and]
    by_contra hno
    push Not at hno
    obtain ⟨⟨hlock, hpend⟩, hpin⟩ := hno
    have hcount : s.pend.countP (fun x => x.2 = b) = 0 := by simpa [List.countP_eq_zero] using hpend
    have hnone : (s.buf b).lock = none := by simpa using hlock
    rw [if_pos hnone, hcount] at hpos
    split_ifs at hpos with hdev
    · simp [List.count_eq_zero.mpr (hpin hdev)] at hpos
    · simp at hpos
  have hcard := Finset.card_le_card hcover
  rw [Finset.card_univ, Fintype.card_fin] at hcard
  have hunion := Finset.card_union_le (busy s) (Finset.univ.filter fun b =>
    (s.buf b).dev = L.dev ∧ (s.buf b).blockno ∈ s.pinned)
  have := h.card_pinned
  omega

/-- In every reachable state `bget` fails exactly when the block is not cached and every buffer is
in use, and it does not while the buffers that processes use and the pins of the log are fewer
than `NBUF`. -/
theorem bget_fails_iff [DecidableEq P] (h : Reachable L s) (hs : s.panicked = none) (p : P) (x : ℕ) :
    ((s.bget p L.dev x).panicked = some .bgetNoBuffers ↔
      (∀ b, ¬ ((s.buf b).dev = L.dev ∧ (s.buf b).blockno = x)) ∧ ∀ b, 0 < uses L s b) ∧
    ((busy s).card + s.pinned.length < NBUF → (s.bget p L.dev x).panicked = none) := by
  have hc := (inv_of_reachable h).cache
  have hiff := hc.findUnused_eq_none
  unfold State.bget
  cases hf : s.find L.dev x with
  | some b =>
    have hb := hc.find_eq_some hf
    exact ⟨⟨fun hp => by simp [State.setPos, State.setBuf, hs] at hp, fun hn => absurd hb (hn.1 b)⟩,
      fun _ => hs⟩
  | none =>
    cases hu : s.findUnused with
    | some b =>
      refine ⟨⟨fun hp => by simp [State.setPos, State.setBuf, hs] at hp, fun hn => ?_⟩, fun _ => hs⟩
      rw [hiff.mpr hn.2] at hu
      cases hu
    | none =>
      have hall := hiff.mp hu
      refine ⟨⟨fun _ => ⟨hc.find_eq_none hf, hall⟩, fun _ => rfl⟩, fun hlt => ?_⟩
      exact absurd (hc.card_le_of_used hall) (by omega)

theorem bget_fails_iff_firstRead : (firstRead.bget () 1 101).panicked = none :=
  (bget_fails_iff firstRead_reachable (by decide +kernel) () 101).2 (by decide +kernel)

end Xv6.BufferCache
