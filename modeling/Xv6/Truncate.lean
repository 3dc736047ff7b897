import Xv6.TableOps

/-!
# Truncation and the freeing of inodes
-/
namespace Xv6.Fs

open Function Bytes Prog

variable {sb : Superblock} {T : FileType → Prop} {s s' t : State} {ip : Ip} {E : Panic → Prop}
  {P : ℕ → Prop} {A : Fin (NDIRECT + 1) → ℕ} {l : ℕ} {d : Dinode} {i : ℕ}

/-- The blocks at the places `P` of the inode in slot `ip` have been freed, and its
addresses are `A` now. -/
structure Truncating (sb : Superblock) (s : State) (ip : Ip) (P : ℕ → Prop)
    (A : Fin (NDIRECT + 1) → ℕ) (t : State) : Prop where
  dinode : t.dinode = s.dinode
  data : t.data = s.data
  slots : ∀ jp, jp ≠ ip → t.itable jp = s.itable jp
  slot : t.itable ip = { s.itable ip with dino := { (s.itable ip).dino with addrs := A } }
  clear : ∀ l, P l → slotRef s ip l ≠ 0 → t.bitmap (slotRef s ip l) = false
  keep : ∀ b, (∀ l, P l → slotRef s ip l ≠ 0 → slotRef s ip l ≠ b) → t.bitmap b = s.bitmap b
  log : ∀ b ∈ t.logged, b ∈ s.logged ∨ ∃ x < sb.size, b = sb.bblock x

namespace Truncating

lemma start : Truncating sb s ip (fun _ => False) (s.itable ip).dino.addrs s where
  dinode := rfl
  data := rfl
  slots _ _ := rfl
  slot := rfl
  clear _ h := h.elim
  keep _ _ := rfl
  log _ h := Or.inl h

lemma skip (h : Truncating sb s ip P A t) {P' : ℕ → Prop}
    (hP : ∀ l, P' l → P l ∨ slotRef s ip l = 0) (hP' : ∀ l, P l → P' l ∨ slotRef s ip l = 0) :
    Truncating sb s ip P' A t := by
  have hclear := h.clear
  have hkeep := h.keep
  exact { h with clear := by grind, keep := by grind }

lemma setAddr (h : Truncating sb s ip P A t) (x : Fin (NDIRECT + 1)) (a : ℕ) :
    Truncating sb s ip P (update A x a)
      (t.setSlot ip { t.itable ip with dino := (t.itable ip).dino.withAddr x a }) :=
  { h with
    slots := fun jp hjp => (setSlot_of_ne hjp).trans (h.slots jp hjp)
    slot := by
      rw [setSlot_self, h.slot]
      rfl }

/-- The bit of a block not yet freed is set, so `bfree` frees it. -/
lemma wp_bfree (h : Truncating sb s ip P A t) (hg : Growing sb s ip) (hl : ¬ P l)
    (h0 : slotRef s ip l ≠ 0) {Q : Unit → State → Prop}
    (hQ : ∀ t', Truncating sb s ip (fun m => P m ∨ m = l) A t' → Q () t') :
    wp (bfree sb (slotRef s ip l)) t Q E := by
  have hbit : t.bitmap (slotRef s ip l) = true := by
    rw [h.keep _ fun m hm hm0 => ?_, hg.bit_of_slot h0]
    exact hg.slot_ne hm0 fun he => hl (he ▸ hm)
  have hlt : slotRef s ip l < sb.size := by
    rw [← hg.refs_slot] at h0 ⊢
    exact (hg.own.range _ h0).2
  unfold bfree
  simp only [wp_bind, wp_get, wp_ite, hbit, wp_throw, wp_modify, wp_logWrite,
    Bool.true_eq_false, if_false]
  have hclear := h.clear
  have hkeep := h.keep
  have hlog := h.log
  refine hQ _ { h with clear := ?_, keep := ?_, log := by grind }
  all_goals simp only [update_apply]
  all_goals grind

/-- The first loop of `itrunc` frees the direct blocks. -/
lemma wp_direct (hg : Growing sb s ip) :
    wp (loop NDIRECT fun i => do
      let v ← inode ip
      if v.dino.addrs (Fin.ofNat _ i) ≠ 0 then
        bfree sb (v.dino.addrs (Fin.ofNat _ i))
        Fs.setAddr ip (Fin.ofNat _ i) 0) s
      (fun _ t => ∃ A, Truncating sb s ip (· < NDIRECT) A t ∧ (∀ x, x.val < NDIRECT → A x = 0) ∧
        A indirect = (s.itable ip).dino.addrs indirect) E := by
  refine wp_call (wp_loop (fun k t => ∃ A, Truncating sb s ip (· < k) A t ∧
    (∀ x, x.val < k → A x = 0) ∧ ∀ x, k ≤ x.val → A x = (s.itable ip).dino.addrs x) ?_ ?_) ?_
  · exact ⟨_, start.skip (fun l hl => absurd hl (Nat.not_lt_zero l)) fun l hl => hl.elim,
      fun x hx => absurd hx (Nat.not_lt_zero _), fun _ _ => rfl⟩
  · rintro i t hi ⟨A, h, hlow, hhigh⟩
    set x : Fin (NDIRECT + 1) := Fin.ofNat _ i with hx
    have hxi : x.val = i := by
      rw [hx, Fin.val_ofNat, Nat.mod_eq_of_lt (by omega)]
    have hAx : A x = slotRef s ip i := by
      rw [hhigh x hxi.ge, ← hxi]
      exact (refAt_direct x).symm
    have hext : ∀ B : Fin (NDIRECT + 1) → ℕ, B x = 0 → (∀ y, y ≠ x → B y = A y) →
        (∀ y, y.val < i + 1 → B y = 0) ∧ ∀ y, i + 1 ≤ y.val → B y = (s.itable ip).dino.addrs y := by
      intro B hBx hB
      have hval (y : Fin (NDIRECT + 1)) : y = x ↔ y.val = i := by rw [← hxi, Fin.ext_iff]
      grind
    have hP : ∀ l, (l < i ∨ l = i) ↔ l < i + 1 := fun l => by omega
    rw [wp_bind, wp_inode, h.slot, wp_ite]
    split
    · next h0 =>
      rw [wp_bind]
      show wp (bfree sb (A x)) t _ E
      rw [hAx]
      refine h.wp_bfree hg (by omega) (hAx ▸ h0) fun t' h' => ?_
      refine ⟨_, (h'.setAddr x 0).skip (fun l hl => Or.inl ((hP l).mpr hl))
        fun l hl => Or.inl ((hP l).mp hl), ?_⟩
      exact hext _ (update_self ..) fun y hy => update_of_ne hy ..
    · next h0 =>
      have h0 : A x = 0 := not_not.mp h0
      refine ⟨A, h.skip (fun l hl => ?_) fun l hl => Or.inl (Nat.lt_succ_of_lt hl), ?_⟩
      · by_cases hli : l = i
        · exact Or.inr (by rw [hli, ← hAx, h0])
        · exact Or.inl (by omega)
      · exact hext A h0 fun _ _ => rfl
  · rintro _ t ⟨A, h, hlow, hhigh⟩
    exact ⟨A, h, hlow, hhigh indirect le_rfl⟩

/-- The second loop frees the blocks listed in the indirect block. -/
lemma wp_entries (h : Truncating sb s ip (· < NDIRECT) A t) (hg : Growing sb s ip)
    (hind : (s.itable ip).dino.addrs indirect ≠ 0) {n : ℕ} (hn : n ≤ NINDIRECT) :
    wp (loop n fun j => do
      if (word (s.data ((s.itable ip).dino.addrs indirect)) (4 * j)).toNat ≠ 0 then
        bfree sb (word (s.data ((s.itable ip).dino.addrs indirect)) (4 * j)).toNat) t
      (fun _ t => Truncating sb s ip
        (fun l => l < NDIRECT ∨ NDIRECT < l ∧ l < NDIRECT + 1 + n) A t) E := by
  refine wp_loop (fun k t => Truncating sb s ip
    (fun l => l < NDIRECT ∨ NDIRECT < l ∧ l < NDIRECT + 1 + k) A t) ?_ ?_
  · exact h.skip (fun l hl => Or.inl (by omega)) fun l hl => Or.inl (Or.inl hl)
  · intro j t' hj h'
    have hw : (word (s.data ((s.itable ip).dino.addrs indirect)) (4 * j)).toNat =
        slotRef s ip (NDIRECT + 1 + j) := (refAt_entry (hj.trans_le hn) hind).symm
    rw [hw, wp_ite]
    split
    · next h0 =>
      refine h'.wp_bfree hg (by omega) h0 fun t'' h'' => ?_
      exact h''.skip (fun l hl => Or.inl (by omega)) fun l hl => Or.inl (by omega)
    · next h0 =>
      refine h'.skip (fun l hl => ?_) fun l hl => Or.inl (by omega)
      by_cases hlj : l = NDIRECT + 1 + j
      · exact Or.inr (hlj ▸ not_not.mp h0)
      · exact Or.inl (by omega)

end Truncating

variable {Q : Unit → State → Prop}

/-- `itrunc` frees every block of the inode. -/
lemma wp_itrunc_truncating (hg : Growing sb s ip)
    (hQ : ∀ t, Truncating sb s ip (fun _ => True) (fun _ => 0) t →
      Q () (t.commitInode sb ip
        { (s.itable ip).dino with size := 0, addrs := fun _ => 0 })) :
    wp (itrunc sb ip) s Q E := by
  unfold itrunc
  rw [wp_bind]
  refine wp_call (Truncating.wp_direct hg) ?_
  rintro _ t ⟨A, h, hlow, hindA⟩
  have hfin : ∀ t' B, Truncating sb s ip (fun _ => True) B t' → (∀ x, B x = 0) →
      wp (modifyDino ip fun d => { d with size := 0 }) t'
        (fun _ s' => wp (iupdate sb ip) s' Q E) E := by
    intro t' B h' hB
    have hB : B = fun _ => 0 := funext hB
    subst hB
    rw [wp_writeBack, h'.slot]
    exact hQ t' h'
  have hall : ∀ x : Fin (NDIRECT + 1), x ≠ indirect → x.val < NDIRECT := by
    intro x hx
    have hne : x.val ≠ NDIRECT := fun he => hx (Fin.ext he)
    omega
  simp only [wp_bind, wp_inode, h.slot, wp_ite, wp_get]
  rw [hindA, h.data]
  split
  · next hind =>
    have hent := h.wp_entries (n := NINDIRECT) (E := E) hg hind le_rfl
    refine wp_call hent fun _ t₁ h₁ => ?_
    -- the indirect block itself goes last
    have hslot : slotRef s ip NDIRECT = (s.itable ip).dino.addrs indirect := refAt_indirect
    rw [← hslot] at hind ⊢
    refine h₁.wp_bfree hg (by omega) hind fun t₂ h₂ => ?_
    refine hfin _ _ ((h₂.setAddr indirect 0).skip (fun l _ => ?_) fun _ _ => Or.inl trivial) ?_
    · by_cases hl : l < NDIRECT + 1 + NINDIRECT
      · exact Or.inl (by omega)
      · exact Or.inr (refAt_out_of_range (by omega))
    · intro x
      by_cases hx : x = indirect
      · rw [hx, update_self]
      · rw [update_of_ne hx, hlow x (hall x hx)]
  · next hind =>
    have hind : (s.itable ip).dino.addrs indirect = 0 := not_not.mp hind
    refine hfin _ A (h.skip (fun l _ => ?_) fun _ _ => Or.inl trivial) ?_
    · by_cases hl : l < NDIRECT
      · exact Or.inl hl
      · by_cases hl' : l = NDIRECT
        · exact Or.inr (by rw [hl', slotRef, refAt_indirect, hind])
        · exact Or.inr (refAt_of_no_indirect (by omega) hind)
    · intro x
      by_cases hx : x = indirect
      · rw [hx, hindA, hind]
      · exact hlow x (hall x hx)

lemma Inv.empty_contents (h : FsInv sb T s) (hd : d.size = 0) :
    (∀ j, Allocated sb (update s.dinode i d) j → T (update s.dinode i d j).type →
      ∀ bn, bn * BSIZE < (update s.dinode i d j).size →
        blockAt s.data (update s.dinode i d j) bn ≠ 0) ∧
    (∀ j, Allocated sb (update s.dinode i d) j → (update s.dinode i d j).type = .dir →
      ∀ k, DIRENT * k < (update s.dinode i d j).size →
        (direntAt s.data (update s.dinode i d j) k).inum < sb.ninodes) := by
  have hhole := h.noHole
  have hent := h.entries
  constructor
  all_goals simp only [Allocated, update_apply]
  all_goals grind [Allocated]

lemma nodes_replace (hD : s'.dinode = update s.dinode i d) (hdata : s'.data = s.data)
    (hi : 1 ≤ i) (hi' : i < sb.ninodes) :
    nodes sb s' = update (nodes sb s) i (if d.type = .free then .free else node s.data d) := by
  funext j
  rw [nodes, hD, hdata]
  simp only [nodes, Allocated, update_apply]
  grind

lemma nodes_commitInode (hi : 1 ≤ (s.itable ip).inum) (hi' : (s.itable ip).inum < sb.ninodes) :
    nodes sb (s.commitInode sb ip d) = update (nodes sb s) (s.itable ip).inum
      (if d.type = .free then .free else node s.data d) :=
  nodes_replace rfl rfl hi hi'

lemma node_empty (hd : d.size = 0) (data : ℕ → Block) :
    node data d = { type := d.type, nlink := d.nlink, entries := [] } := by
  simp [node, hd, slots]

lemma Truncating.inv (h : FsInv sb T s) (hr : Ready s ip)
    (ht : Truncating sb s ip (fun _ => True) A t) (hty : d.type = (s.itable ip).dino.type)
    (hsize : d.size = 0) (ha : ∀ x, d.addrs x = 0) : FsInv sb T (t.commitInode sb ip d) := by
  have hinum : (t.itable ip).inum = (s.itable ip).inum := by rw [ht.slot]
  have hD : (t.commitInode sb ip d).dinode = update s.dinode (s.itable ip).inum d := by
    rw [State.commitInode, ht.dinode, hinum]
  have hslot : (t.commitInode sb ip d).itable ip = { s.itable ip with dino := d } := by
    rw [State.commitInode, ht.slot]
    exact update_self ..
  have hother : ∀ jp, jp ≠ ip → (t.commitInode sb ip d).itable jp = s.itable jp :=
    fun jp hjp => (update_of_ne hjp ..).trans (ht.slots jp hjp)
  obtain ⟨hd, hfree⟩ := h.coh ip hr
  have hal := h.allocated hr
  obtain ⟨hhole, hent⟩ := h.empty_contents (i := (s.itable ip).inum) hsize
  have hfields : ∀ jp, ((t.commitInode sb ip d).itable jp).inum = (s.itable jp).inum ∧
      ((t.commitInode sb ip d).itable jp).ref = (s.itable jp).ref := by
    intro jp
    by_cases hjp : jp = ip
    · simp [hjp, hslot]
    · simp [hother jp hjp]
  unfold FsInv
  rw [hD]
  have hdata : (t.commitInode sb ip d).data = s.data := ht.data
  constructor
  · rw [hdata]
    refine h.own.truncate hal ha (fun l hl => ?_) fun b hb => ?_
    · rw [← hd] at hl ⊢
      exact ht.clear l trivial hl
    · rw [← hd] at hb
      exact ht.keep b fun l _ hl => hb l hl
  · rw [hdata]
    exact hhole
  · rw [hdata]
    exact hent
  · have huniq := h.uniq
    grind
  · have hinums := h.inums
    grind
  · intro jp hj
    have hrj : jp ≠ ip → Ready s jp := fun hjp =>
      ⟨(hfields jp).2 ▸ hj.live, by rw [← hother jp hjp]; exact hj.valid⟩
    have huniq := h.uniq jp ip
    have hcoh := h.coh jp
    have hlive := hr.live
    have hlive' := fun hjp => (hrj hjp).live
    simp only [(hfields jp).1, update_apply]
    grind

/-- Only this inode was changed, and only it and the free map were logged. -/
lemma Truncating.only (ht : Truncating sb s ip P A t) :
    Local sb [(s.itable ip).inum] 0 s (t.commitInode sb ip d) := by
  have hinum : (t.itable ip).inum = (s.itable ip).inum := by rw [ht.slot]
  have hfree : Local sb [] 0 s t :=
    { same := fun j _ _ => .of_eq (by rw [ht.dinode]) ht.data
      logs := ⟨∅, le_rfl, fun b hb => (ht.log b hb).imp_right Or.inl⟩ }
  have hcommit := hfree.trans (.commit t ip d)
  rw [hinum] at hcommit
  exact hcommit

def Node.truncated (n : Node) : Node := { n with entries := [] }

/-- `itrunc` leaves the inode without contents. -/
theorem wp_itrunc (h : FsInv sb T s) (hr : Ready s ip) :
    wp (itrunc sb ip) s (fun _ s' =>
      Touched sb T ip (nodes sb s (s.itable ip).inum).truncated 0 s s' ∧
        (s'.itable ip).dino.size = 0 ∧ ∀ x, (s'.itable ip).dino.addrs x = 0) E := by
  refine wp_itrunc_truncating (h.growing hr) fun t ht => ?_
  have hinum : (t.itable ip).inum = (s.itable ip).inum := by rw [ht.slot]
  have hslot : ∀ d, (t.commitInode sb ip d).itable ip = { s.itable ip with dino := d } := by
    intro d
    rw [State.commitInode, ht.slot]
    exact update_self ..
  refine ⟨⟨ht.inv h hr rfl rfl fun _ => rfl, ?_, ?_, ⟨_, hslot _⟩, ht.only⟩, ?_, ?_⟩
  · obtain ⟨h1, h2⟩ := h.inums ip hr.live
    have hD : ∀ d, (t.commitInode sb ip d).dinode = update s.dinode (s.itable ip).inum d := by
      intro d
      rw [State.commitInode, ht.dinode, hinum]
    rw [nodes_replace (hD _) ht.data h1 h2, if_neg (h.coh ip hr).2, node_empty rfl,
      nodes_of_ready h hr]
    rfl
  · exact fun jp hjp => (update_of_ne hjp ..).trans (ht.slots jp hjp)
  · rw [hslot]
  · rw [hslot]
    exact fun _ => rfl

/-- The inode in slot `ip` was freed and its slot given up. -/
structure Freed (sb : Superblock) (T : FileType → Prop) (ip : Ip) (s s' : State) : Prop where
  inv : FsInv sb T s'
  nodes : nodes sb s' = update (nodes sb s) (s.itable ip).inum .free
  slots : ∀ jp, jp ≠ ip → s'.itable jp = s.itable jp
  ref : (s'.itable ip).ref = 0
  locked : (s'.itable ip).locked = (s.itable ip).locked
  only : Local sb [(s.itable ip).inum] 0 s s'

/-- Marking an inode without blocks free, while its slot is given up. -/
lemma Inv.free (h : FsInv sb T s) (hr : Ready s ip) (hsize : (s.itable ip).dino.size = 0)
    (haddrs : ∀ x, (s.itable ip).dino.addrs x = 0) {v : Inode} (hv : v.ref = 0) :
    FsInv sb T ((s.commitInode sb ip { (s.itable ip).dino with type := .free }).setSlot ip v) := by
  obtain ⟨hd, -⟩ := h.coh ip hr
  have hrefs : ∀ l, refs sb s.dinode s.data ((s.itable ip).inum, l) = 0 := by
    intro l
    rw [refs_of_allocated (h.allocated hr), ← hd]
    exact refAt_of_no_addrs haddrs
  obtain ⟨hhole, hent⟩ := h.empty_contents (i := (s.itable ip).inum)
    (d := { (s.itable ip).dino with type := .free }) hsize
  have hother : ∀ jp, jp ≠ ip → ((s.commitInode sb ip { (s.itable ip).dino with
      type := .free }).setSlot ip v).itable jp = s.itable jp :=
    fun jp hjp => (setSlot_of_ne hjp).trans (update_of_ne hjp ..)
  have hlive : ∀ jp, 0 < (((s.commitInode sb ip { (s.itable ip).dino with
      type := .free }).setSlot ip v).itable jp).ref → jp ≠ ip := by
    rintro jp hj rfl
    rw [setSlot_self, hv] at hj
    exact absurd hj (lt_irrefl 0)
  constructor
  · exact h.own.reset hrefs haddrs
  · exact hhole
  · exact hent
  · have huniq := h.uniq
    grind
  · have hinums := h.inums
    grind
  · rintro jp ⟨hj, hjv⟩
    have hjp := hlive jp hj
    rw [hother jp hjp] at hj hjv ⊢
    have hne : (s.itable jp).inum ≠ (s.itable ip).inum :=
      fun he => hjp (h.uniq jp ip hj hr.live he)
    have hD : ((s.commitInode sb ip { (s.itable ip).dino with type := .free }).setSlot ip v).dinode
        (s.itable jp).inum = s.dinode (s.itable jp).inum := update_of_ne hne ..
    rw [hD]
    exact h.coh jp ⟨hj, hjv⟩

/-- The last reference to an inode without links frees it; any other `iput` only
gives the reference back. -/
theorem wp_iput_of (h : FsInv sb T s)
    (hE : (s.itable ip).ref = 1 → (s.itable ip).valid = true → (s.itable ip).dino.nlink = 0 →
      (s.itable ip).locked = true → E .deadlock)
    (hdrop : ¬ ((s.itable ip).ref = 1 ∧ (s.itable ip).valid ∧ (s.itable ip).dino.nlink = 0) →
      FsInv sb T (s.setSlot ip { s.itable ip with ref := (s.itable ip).ref - 1 }) →
      Q () (s.setSlot ip { s.itable ip with ref := (s.itable ip).ref - 1 }))
    (hfree : (s.itable ip).ref = 1 → (s.itable ip).valid = true →
      (s.itable ip).dino.nlink = 0 → ∀ s', Freed sb T ip s s' → Q () s') :
    wp (iput sb ip) s Q E := by
  unfold iput acquiresleep releasesleep
  simp only [wp_bind, wp_inode, wp_ite, wp_throw, wp_modifyInode]
  split
  · next hc =>
    obtain ⟨href, hvalid, hnlink⟩ := hc
    split
    · next hheld => exact hE href hvalid hnlink hheld
    · next hheld =>
      -- the lock, and then the whole inode goes
      have hr : Ready s ip := ⟨by omega, hvalid⟩
      set s₁ := s.setSlot ip { s.itable ip with locked := true } with hs₁
      have h₁ : FsInv sb T s₁ := h.keepSlot (fun _ => hr.live) rfl fun _ _ => h.coh ip hr
      have hslot₁ : s₁.itable ip = { s.itable ip with locked := true } := setSlot_self
      have hr₁ : Ready s₁ ip := ⟨by rw [hslot₁]; exact hr.live, by rw [hslot₁]; exact hvalid⟩
      refine wp_call (wp_itrunc h₁ hr₁) ?_
      rintro _ s₂ ⟨ht, hsize, haddrs⟩
      have hr₂ := ht.ready hr₁
      rw [wp_writeBack]
      refine hfree href hvalid hnlink _ ?_
      obtain ⟨hinum, href₂, -, -⟩ := ht.fields ip
      have hinum₂ : (s₂.itable ip).inum = (s.itable ip).inum := by rw [hinum, hslot₁]
      have href₂ : (s₂.itable ip).ref = 1 := by rw [href₂, hslot₁, href]
      have hI := h.inums ip hr.live
      have hslot₃ : (s₂.commitInode sb ip { (s₂.itable ip).dino with type := .free }).itable ip =
          { s₂.itable ip with dino := { (s₂.itable ip).dino with type := .free } } :=
        update_self ..
      simp only [setSlot_self, setSlot_setSlot, hslot₃]
      refine ⟨ht.inv.free hr₂ hsize haddrs (by simp [href₂]), ?_, fun jp hjp => ?_, ?_, ?_, ?_⟩
      · rw [nodes_setSlot, nodes_commitInode (hinum₂ ▸ hI.1) (hinum₂ ▸ hI.2),
          ht.nodes, hinum₂, hslot₁, update_idem, if_pos rfl]
        rfl
      · rw [setSlot_of_ne hjp, ← setSlot_of_ne (s := s) (v := { s.itable ip with locked := true }) hjp,
          ← hs₁, ← ht.slots jp hjp]
        exact update_of_ne hjp ..
      · simp [href₂]
      · rw [setSlot_self]
        simpa using hheld
      · have hlock : Local sb [] 0 s s₁ := .of_eq rfl rfl rfl
        have hfreed : Local sb [(s.itable ip).inum] 0 s₂ (s₂.commitInode sb ip
            { (s₂.itable ip).dino with type := .free }) := by
          rw [← hinum₂]
          exact .commit s₂ ip _
        have hall := (hlock.trans ht.only).trans hfreed
        rw [hslot₁] at hall
        exact (hall.mono (by simp) le_rfl).setSlot ..
  · next hc =>
    refine hdrop hc (h.keepSlot (fun hp => ?_) rfl fun hp hv => h.coh ip ⟨?_, hv⟩) <;>
      exact lt_of_lt_of_le hp (Nat.sub_le _ 1)

/-- The state after `ialloc` marked inode `i` as allocated. -/
def State.allocInode (sb : Superblock) (s : State) (i : ℕ) (type : FileType) : State :=
  { s with
    dinode := update s.dinode i (.fresh type)
    gen := update s.gen i (s.gen i + 1)
    logged := sb.iblock i :: s.logged }

lemma Inv.allocInode (h : FsInv sb T s) (hfree : (s.dinode i).type = .free) (type : FileType) :
    FsInv sb T (s.allocInode sb i type) := by
  have hnot : ¬ Allocated sb s.dinode i := fun hal => hal.2.2 hfree
  obtain ⟨hhole, hent⟩ := h.empty_contents (i := i) (d := .fresh type) rfl
  constructor
  · refine h.own.reset (fun l => ?_) fun _ => rfl
    simp [refs, hnot]
  · exact hhole
  · exact hent
  · exact h.uniq
  · exact h.inums
  · rintro jp ⟨hl, hv⟩
    have hj : Ready s jp := ⟨hl, hv⟩
    have hne : (s.itable jp).inum ≠ i := fun he => hnot (he ▸ h.allocated hj)
    have hD : (s.allocInode sb i type).dinode (s.itable jp).inum = s.dinode (s.itable jp).inum :=
      update_of_ne hne ..
    show (s.itable jp).dino = (s.allocInode sb i type).dinode (s.itable jp).inum ∧ _
    rw [hD]
    exact h.coh jp hj

lemma nodes_allocInode (hi : 1 ≤ i) (hi' : i < sb.ninodes) {type : FileType} (ht : type ≠ .free) :
    nodes sb (s.allocInode sb i type) =
      update (nodes sb s) i { type := type, nlink := 0, entries := [] } := by
  have hn : nodes sb (s.allocInode sb i type) = update (nodes sb s) i
      (if (Dinode.fresh type).type = .free then .free else node s.data (.fresh type)) :=
    nodes_replace rfl rfl hi hi'
  have hty : ¬ (Dinode.fresh type).type = .free := ht
  rw [hn, if_neg hty, node_empty rfl]
  rfl

/-- `ialloc` takes an inode that is free on disk, and a reference to it. -/
lemma wp_ialloc {Q : Option Ip → State → Prop} {type : FileType} (hE : Soft E) (hnone : Q none s)
    (hsome : ∀ i ip s', 1 ≤ i → i < sb.ninodes → (s.dinode i).type = .free →
      Got (s.allocInode sb i type) i ip s' → Q (some ip) s') :
    wp (ialloc sb type) s Q E := by
  unfold ialloc
  rw [wp_bind, wp_get]
  cases hf : (List.range' 1 (sb.ninodes - 1)).find? fun i =>
      decide ((s.dinode i).type = .free) with
  | none => exact hnone
  | some i =>
    have hmem := List.mem_range'_1.mp (List.mem_of_find?_eq_some hf)
    have hfree : (s.dinode i).type = .free := by simpa using List.find?_some hf
    simp only [wp_bind, wp_modify, wp_logWrite]
    refine wp_iget (fun _ => hE _ rfl) fun ip s' hg => ?_
    exact hsome i ip s' (by omega) (by omega) hfree hg

end Xv6.Fs
