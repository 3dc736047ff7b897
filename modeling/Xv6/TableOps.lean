import Xv6.InodeOps

/-!
# References and locks

Specifications of the functions of `kernel/fs.c` that manage the inode table.
References are counted against the callers: `base` counts those of open files and
working directories, and a list holds the ones of the running call.
-/
namespace Xv6.Fs

open Function Prog

variable {sb : Superblock} {T : FileType → Prop} {D : ℕ → Dinode} {s s' s'' : State} {ip jp : Ip}
  {E : Panic → Prop} {Q : Unit → State → Prop} {v : Inode} {i : ℕ}

@[simp] lemma nodes_setSlot : nodes sb (s.setSlot ip v) = nodes sb s := rfl

/-- A slot may change freely as long as it is empty or names an inode that no other
slot names, with a copy that is current. -/
lemma Inv.setSlot (h : Inv sb T D s)
    (hinum : 0 < v.ref → 1 ≤ v.inum ∧ v.inum < sb.ninodes)
    (huniq : 0 < v.ref → ∀ jp, jp ≠ ip → 0 < (s.itable jp).ref → (s.itable jp).inum ≠ v.inum)
    (hcoh : 0 < v.ref → v.valid = true → v.dino = D v.inum ∧ v.dino.type ≠ .free) :
    Inv sb T D (s.setSlot ip v) := by
  have hslot (jp : Ip) : (s.setSlot ip v).itable jp = if jp = ip then v else s.itable jp :=
    update_apply ..
  have hinums := h.inums
  refine { h with uniq := ?_, inums := ?_, coh := fun jp ⟨hl, hv⟩ => ?_ }
  all_goals grind [h.uniq, h.coh, Ready]

/-- A slot that keeps its inode, and its copy or drops it. -/
lemma Inv.keepSlot (h : Inv sb T D s) (hlive : 0 < v.ref → 0 < (s.itable ip).ref)
    (hinum : v.inum = (s.itable ip).inum)
    (hcoh : 0 < v.ref → v.valid = true → v.dino = D v.inum ∧ v.dino.type ≠ .free) :
    Inv sb T D (s.setSlot ip v) := by
  refine h.setSlot (fun hv => ?_) (fun hv jp hjp hj he => ?_) hcoh
  · rw [hinum]
    exact h.inums ip (hlive hv)
  · exact hjp (h.uniq jp ip hj (hlive hv) (he.trans hinum))

/-- Slot `ip` was found or filled for inode `i` and has one more reference. -/
structure Got (s : State) (i : ℕ) (ip : Ip) (s' : State) : Prop where
  state : s' = s.setSlot ip (s'.itable ip)
  inum : (s'.itable ip).inum = i
  ref : (s'.itable ip).ref = (s.itable ip).ref + 1
  locked : (s'.itable ip).locked = (s.itable ip).locked
  found : 0 < (s.itable ip).ref → (s.itable ip).inum = i ∧
    (s'.itable ip).valid = (s.itable ip).valid ∧ (s'.itable ip).dino = (s.itable ip).dino
  filled : (s.itable ip).ref = 0 → (∀ jp, 0 < (s.itable jp).ref → (s.itable jp).inum ≠ i) ∧
    (s'.itable ip).valid = false

lemma Got.slots (h : Got s i ip s') (hjp : jp ≠ ip) : s'.itable jp = s.itable jp := by
  rw [h.state, setSlot_of_ne hjp]

lemma Got.nodes (h : Got s i ip s') : nodes sb s' = Fs.nodes sb s := by
  rw [h.state, nodes_setSlot]

/-- Giving the reference back leaves the referenced slots as they were. -/
lemma Got.put (h : Got s i ip s') (hl : 0 < (s.itable jp).ref) :
    (s'.setSlot ip { s'.itable ip with ref := (s'.itable ip).ref - 1 }).itable jp =
      s.itable jp := by
  by_cases hjp : jp = ip
  · subst hjp
    obtain ⟨hi, hv, hd⟩ := h.found hl
    rw [setSlot_self]
    simp only [h.ref, hd, hv, h.locked, h.inum, ← hi]
    rfl
  · rw [setSlot_of_ne hjp, h.slots hjp]

lemma Got.put_fields (h : Got s i ip s') (jp : Ip) :
    ((s'.setSlot ip { s'.itable ip with ref := (s'.itable ip).ref - 1 }).itable jp).ref =
      (s.itable jp).ref ∧
    ((s'.setSlot ip { s'.itable ip with ref := (s'.itable ip).ref - 1 }).itable jp).locked =
      (s.itable jp).locked := by
  by_cases hjp : jp = ip
  · rw [hjp, setSlot_self, h.ref]
    exact ⟨rfl, h.locked⟩
  · rw [setSlot_of_ne hjp, h.slots hjp]
    exact ⟨rfl, rfl⟩

lemma Got.inv (h : FsInv sb T s) (g : Got s i ip s') (h1 : 1 ≤ i) (h2 : i < sb.ninodes) :
    FsInv sb T s' := by
  rw [g.state]
  refine Inv.setSlot h (fun _ => by rw [g.inum]; exact ⟨h1, h2⟩) (fun _ jp hjp hj => ?_) ?_
  · grind [g.inum, g.filled, g.found, h.uniq jp ip]
  · intro _ hv
    have hpos : 0 < (s.itable ip).ref := by grind [g.filled]
    obtain ⟨hi, hvalid, hd⟩ := g.found hpos
    rw [g.inum, hd, ← hi]
    exact h.coh ip ⟨hpos, hvalid ▸ hv⟩

/-- Every slot is taken by another inode. -/
def NoSlot (s : State) (i : ℕ) : Prop := ∀ jp, 0 < (s.itable jp).ref ∧ (s.itable jp).inum ≠ i

/-- `iget` stops the machine only if there is no slot for the inode. -/
lemma wp_iget {Q : Ip → State → Prop} (hE : NoSlot s i → E .igetNoInodes)
    (hQ : ∀ ip s', Got s i ip s' → Q ip s') : wp (iget i) s Q E := by
  unfold iget
  rw [wp_bind, wp_get]
  cases hf : (List.finRange NINODE).find? fun ip =>
      decide (0 < (s.itable ip).ref ∧ (s.itable ip).inum = i) with
  | some ip =>
    have hp : 0 < (s.itable ip).ref ∧ (s.itable ip).inum = i := by
      simpa using List.find?_some hf
    simp only [wp_bind, wp_modifyInode, wp_pure]
    refine hQ ip _ ⟨?_, ?_, ?_, ?_, fun _ => ⟨hp.2, ?_, ?_⟩, fun h0 => absurd h0 hp.1.ne'⟩ <;>
      simp [hp.2]
  | none =>
    have hnone : ∀ jp, 0 < (s.itable jp).ref → (s.itable jp).inum ≠ i := by
      intro jp hj he
      have := List.find?_eq_none.mp hf jp (List.mem_finRange jp)
      exact this (by simp [hj, he])
    simp only
    cases he : (List.finRange NINODE).find? fun ip => decide ((s.itable ip).ref = 0) with
    | none =>
      apply hE
      intro jp
      have hjp := List.find?_eq_none.mp he jp (List.mem_finRange jp)
      have hpos : 0 < (s.itable jp).ref := Nat.pos_of_ne_zero (by simpa using hjp)
      exact ⟨hpos, hnone jp hpos⟩
    | some ip =>
      have h0 : (s.itable ip).ref = 0 := by simpa using List.find?_some he
      simp only [wp_bind, wp_modifyInode, wp_pure]
      refine hQ ip _ ⟨?_, ?_, ?_, ?_, fun hpos => absurd h0 hpos.ne', fun _ => ⟨hnone, ?_⟩⟩ <;>
        simp [h0]

lemma wp_idup {Q : Ip → State → Prop} (hlive : 0 < (s.itable ip).ref)
    (hQ : ∀ s', Got s (s.itable ip).inum ip s' → Q ip s') : wp (idup ip) s Q E := by
  unfold idup
  simp only [wp_bind, wp_modifyInode, wp_pure]
  refine hQ _ ⟨?_, ?_, ?_, ?_, fun _ => ⟨rfl, ?_, ?_⟩, fun h0 => absurd h0 hlive.ne'⟩ <;> simp

/-- The panics that do not come from a wrong block, inode or link count. -/
def Panic.soft : Panic → Bool
  | .freeingFreeBlock | .ilockNoType | .unlinkNlink | .unlinkWritei => false
  | _ => true

def Soft (E : Panic → Prop) : Prop := ∀ e, e.soft = true → E e

/-- Slot `ip` after `ilock`. -/
def State.lockSlot (s : State) (ip : Ip) : State :=
  s.setSlot ip { s.itable ip with
    locked := true, valid := true, dino := s.dinode (s.itable ip).inum }

/-- Slot `ip` after `iunlock`. -/
def State.unlockSlot (s : State) (ip : Ip) : State :=
  s.setSlot ip { s.itable ip with locked := false }

/-- `ilock` loads the inode; it does not return for a free one, or if the lock is held. -/
lemma wp_ilock_of (h : FsInv sb T s) (hE : (s.itable ip).ref = 0 → E .ilock)
    (hlocked : (s.itable ip).locked = true → E .deadlock)
    (hfree : 0 < (s.itable ip).ref → (s.dinode (s.itable ip).inum).type = .free → E .ilockNoType)
    (hQ : (s.itable ip).locked = false → FsInv sb T (s.lockSlot ip) → Ready (s.lockSlot ip) ip →
      Q () (s.lockSlot ip)) :
    wp (ilock ip) s Q E := by
  unfold ilock acquiresleep
  simp only [wp_bind, wp_inode, wp_ite, wp_throw, wp_pure]
  split
  · next hdead => exact hE (by omega)
  · next hlive =>
    have hlive : 0 < (s.itable ip).ref := by omega
    split
    · next hheld => exact hlocked hheld
    · next hheld =>
      simp only [wp_modifyInode, setSlot_self]
      have hlock : (s.dinode (s.itable ip).inum).type ≠ .free → Q () (s.lockSlot ip) := by
        intro ht
        refine hQ (by simpa using hheld)
          (h.keepSlot (fun _ => hlive) rfl fun _ _ => ⟨rfl, ht⟩) ⟨?_, ?_⟩
        · rw [State.lockSlot, setSlot_self]
          exact hlive
        · rw [State.lockSlot, setSlot_self]
      split
      · simp only [wp_get, setSlot_self, setSlot_dinode, setSlot_setSlot]
        split
        · next ht => exact hfree hlive ht
        · next ht => exact hlock ht
      · next hv =>
        have hv : (s.itable ip).valid = true := by simpa using hv
        obtain ⟨hd, ht⟩ := h.coh ip ⟨hlive, hv⟩
        have heq : s.setSlot ip { s.itable ip with locked := true } = s.lockSlot ip := by
          simp only [State.lockSlot, ← hd, hv]
        rw [heq]
        exact hlock (hd ▸ ht)

lemma wp_ilock (h : FsInv sb T s) (hE : Soft E)
    (hfree : 0 < (s.itable ip).ref → (s.dinode (s.itable ip).inum).type = .free → E .ilockNoType)
    (hQ : (s.itable ip).locked = false → FsInv sb T (s.lockSlot ip) → Ready (s.lockSlot ip) ip →
      Q () (s.lockSlot ip)) :
    wp (ilock ip) s Q E :=
  wp_ilock_of h (fun _ => hE _ rfl) (fun _ => hE _ rfl) hfree hQ

lemma wp_iunlock_of (h : FsInv sb T s)
    (hE : (s.itable ip).locked = false ∨ (s.itable ip).ref = 0 → E .iunlock)
    (hQ : FsInv sb T (s.unlockSlot ip) → 0 < (s.itable ip).ref → Q () (s.unlockSlot ip)) :
    wp (iunlock ip) s Q E := by
  unfold iunlock releasesleep
  simp only [wp_bind, wp_inode, wp_ite, wp_throw, wp_modifyInode]
  split
  · next hbad => exact hE (hbad.imp_right fun hlt => by omega)
  · next hlive =>
    have hlive : 0 < (s.itable ip).ref := by omega
    exact hQ (h.keepSlot (fun _ => hlive) rfl fun _ hv => h.coh ip ⟨hlive, hv⟩) hlive

end Xv6.Fs
