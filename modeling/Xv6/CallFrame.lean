import Xv6.PathWalk

/-!
# What a call leaves alone

Calls change a directory, and an inode that it names. The relations here say what
stays: the contents of the other inodes, the references and locks, and the inodes
that others refer to.
-/
namespace Xv6.Fs

open Function Prog

variable {sb : Superblock} {T : FileType → Prop} {s s' s'' : State} {ip jp dp : Ip}
  {E : Panic → Prop} {base : Ip → ℕ} {L M : List Ip} {n : Node} {c c' : ℕ} {is is' : List ℕ}
  {X P : ℕ → Prop}

/-- All inodes but those in `X` keep their contents, and of them only those in `P`
may have a new indirect block. -/
structure Preserved (sb : Superblock) (X P : ℕ → Prop) (s s' : State) : Prop where
  kept : ∀ j, Allocated sb s.dinode j → ¬ X j → Kept j s s'
  indirect : ∀ j, Allocated sb s.dinode j → ¬ X j → ¬ P j →
    (s'.dinode j).addrs indirect = (s.dinode j).addrs indirect

lemma Kept.allocated {j : ℕ} (h : Kept j s s') (hj : Allocated sb s.dinode j) :
    Allocated sb s'.dinode j := by
  obtain ⟨m, a, ha⟩ := h.fields
  rw [Allocated, ha]
  exact hj

namespace Preserved

lemma of_local (h : Local sb is c s s') (hX : ∀ j ∈ is, X j) : Preserved sb X P s s' where
  kept j hj hx := (h.same j hj fun hm => hx (hX j hm)).kept
  indirect j hj hx _ := by rw [(h.same j hj fun hm => hx (hX j hm)).dinode]

lemma of_quiet (q : Quiet base s s') : Preserved sb X P s s' :=
  of_local (q.only : Local sb [] 0 s s') fun _ hj => absurd hj List.not_mem_nil

lemma of_kept {p : ℕ} (h : Local sb [p] c s s') (hk : Kept p s s') (hp : P p) :
    Preserved sb X P s s' where
  kept j hj _ := by
    by_cases hjp : j = p
    · exact hjp ▸ hk
    · exact (h.same j hj (by simpa using hjp)).kept
  indirect j hj _ hP := by
    have hjp : j ≠ p := fun he => hP (he ▸ hp)
    rw [(h.same j hj (by simpa using hjp)).dinode]

lemma trans (h : Preserved sb X P s s') (h' : Preserved sb X P s' s'') :
    Preserved sb X P s s'' where
  kept j hj hx := (h.kept j hj hx).trans (h'.kept j ((h.kept j hj hx).allocated hj) hx)
  indirect j hj hx hp := by
    rw [h'.indirect j ((h.kept j hj hx).allocated hj) hx hp, h.indirect j hj hx hp]

lemma weaken {X' P' : ℕ → Prop} (h : Preserved sb X P s s')
    (hX : ∀ j, Allocated sb s.dinode j → X j → X' j) (hP : ∀ j, P j → P' j) :
    Preserved sb X' P' s s' where
  kept j hj hx := h.kept j hj fun hc => hx (hX j hj hc)
  indirect j hj hx hp := h.indirect j hj (fun hc => hx (hX j hj hc)) fun hc => hp (hP j hc)

lemma commit_nlink (h : FsInv sb T s) (hr : Ready s ip) (k : Int16) :
    Preserved sb X P s (s.commitInode sb ip { (s.itable ip).dino with nlink := k }) := by
  obtain ⟨hd, -⟩ := h.coh ip hr
  have hl : Local sb [(s.itable ip).inum] 0 s _ :=
    .commit s ip { (s.itable ip).dino with nlink := k }
  have hself : (s.commitInode sb ip { (s.itable ip).dino with nlink := k }).dinode
      (s.itable ip).inum = { s.dinode (s.itable ip).inum with nlink := k } := by
    rw [← hd]
    exact update_self ..
  have href : ∀ l, refAt s.data { s.dinode (s.itable ip).inum with nlink := k } l =
      refAt s.data (s.dinode (s.itable ip).inum) l := fun l => refAt_congr rfl fun _ => rfl
  constructor
  · intro j hj _
    by_cases hji : j = (s.itable ip).inum
    · subst hji
      refine ⟨⟨k, _, hself⟩, fun _ => by rw [hself], fun l _ => ?_, fun l _ _ => rfl⟩
      rw [hself]
      exact href l
    · exact (hl.same j hj (by simpa using hji)).kept
  · intro j hj _ _
    by_cases hji : j = (s.itable ip).inum
    · rw [hji, hself]
    · rw [(hl.same j hj (by simpa using hji)).dinode]

end Preserved

/-- Inodes were written back; references, locks and loaded inodes stayed. -/
structure Rewritten (sb : Superblock) (T : FileType → Prop) (is : List ℕ) (c : ℕ)
    (s s' : State) : Prop where
  inv : FsInv sb T s'
  refs : ∀ jp, (s'.itable jp).ref = (s.itable jp).ref
  locked : ∀ jp, (s'.itable jp).locked = (s.itable jp).locked
  inums : ∀ jp, 0 < (s.itable jp).ref → (s'.itable jp).inum = (s.itable jp).inum
  ready : ∀ jp, Ready s jp → Ready s' jp
  only : Local sb is c s s'

namespace Rewritten

lemma refl (h : FsInv sb T s) : Rewritten sb T is c s s where
  inv := h
  refs _ := rfl
  locked _ := rfl
  inums _ _ := rfl
  ready _ hr := hr
  only := .of_eq rfl rfl rfl

lemma of_edited (h : Edited sb T ip n c s s') : Rewritten sb T [(s.itable ip).inum] c s s' where
  inv := h.inv
  refs := h.refs
  locked := h.locked
  inums _ := h.inum_of_live
  ready _ := h.ready
  only := h.only

lemma of_touched (h : Touched sb T ip n c s s') : Rewritten sb T [(s.itable ip).inum] c s s' :=
  of_edited (.of_touched h)

lemma trans (h : Rewritten sb T is c s s') (h' : Rewritten sb T is' c' s' s'') :
    Rewritten sb T (is ++ is') (c + c') s s'' where
  inv := h'.inv
  refs jp := (h'.refs jp).trans (h.refs jp)
  locked jp := (h'.locked jp).trans (h.locked jp)
  inums jp hl := (h'.inums jp (by rwa [h.refs jp])).trans (h.inums jp hl)
  ready jp hr := h'.ready jp (h.ready jp hr)
  only := h.only.trans h'.only

lemma mono (h : Rewritten sb T is c s s') (hi : ∀ i ∈ is, i ∈ is') (hc : c ≤ c') :
    Rewritten sb T is' c' s s' :=
  { h with only := h.only.mono hi hc }

lemma holds (h : Rewritten sb T is c s s') (hh : Holds base L M s) : Holds base L M s' where
  refs jp := by rw [h.refs jp, hh.refs jp]
  locks jp := by rw [h.locked jp, hh.locks jp]

end Rewritten

lemma Holds.swap (h : Holds base [ip, jp] [ip, jp] s) : Holds base [jp, ip] [jp, ip] s where
  refs kp := by rw [h.refs kp, (List.Perm.swap jp ip []).count_eq kp]
  locks kp := by
    rw [h.locks kp]
    simp only [(List.Perm.swap jp ip []).mem_iff]

lemma nodes_type_ne_free_iff {i : ℕ} : (nodes sb s i).type ≠ .free ↔ Allocated sb s.dinode i := by
  constructor
  · intro h
    by_contra hc
    rw [nodes, if_neg hc] at h
    exact h rfl
  · exact type_ne_free

lemma nodes_nlink {i : ℕ} (hi : Allocated sb s.dinode i) :
    (nodes sb s i).nlink = (s.dinode i).nlink := by
  rw [nodes, if_pos hi]
  rfl

def Steady (base : Ip → ℕ) (s s' : State) : Prop :=
  ∀ jp, 0 < base jp → (s'.itable jp).inum = (s.itable jp).inum

lemma Steady.trans (h : Steady base s s') (h' : Steady base s' s'') : Steady base s s'' :=
  fun jp hb => (h' jp hb).trans (h jp hb)

lemma Steady.mono {base' : Ip → ℕ} (h : Steady base' s s')
    (hle : ∀ jp, base jp ≤ base' jp) : Steady base s s' :=
  fun jp hb => h jp (hb.trans_le (hle jp))

lemma Quiet.steady (q : Quiet base s s') : Steady base s s' := fun jp hb => (q.keep jp hb).1

lemma Rewritten.steady (h : Rewritten sb T is c s s') (hh : Holds base L M s) :
    Steady base s s' := fun jp hb => h.inums jp (hh.live hb)

/-- What dropping a locked inode guarantees, whether it was the last reference or not. -/
structure Dropped (sb : Superblock) (T : FileType → Prop) (base : Ip → ℕ) (ip : Ip)
    (L M : List Ip) (s s' : State) : Prop where
  inv : FsInv sb T s'
  steady : Steady base s s'
  holds : Holds base L M s'
  only : Local sb [(s.itable ip).inum] 0 s s'
  slots : ∀ jp, jp ≠ ip → s'.itable jp = s.itable jp
  quiet : NoOrphan sb base s → Quiet base s s'
  free : (s.itable ip).ref = 1 → Ready s ip → (s.itable ip).dino.nlink = 0 →
    nodes sb s' = update (nodes sb s) (s.itable ip).inum .free

lemma Put.dropped (h : FsInv sb T s) (hh : Holds base (ip :: L) M s) (hp : Put sb T ip s s') :
    Dropped sb T base ip L M s s' where
  inv := hp.inv
  steady jp hb := by
    by_cases hjp : jp = ip
    · -- others hold the inode too, so it is not freed
      subst hjp
      have hnf : ¬ Freeing s jp := by
        intro hf
        have hr := hh.refs jp
        rw [hf.1, List.count_cons_self] at hr
        omega
      exact hp.inum hnf jp
    · rw [hp.slots jp hjp]
  holds := hh.put hp
  only := hp.only
  slots := hp.slots
  quiet hn := hp.quiet (not_freeing h hh hn)
  free href hr hz := hp.free ⟨href, hr.valid, hz⟩

lemma wp_iput_drop (h : FsInv sb T s) (hh : Holds base (ip :: L) M s) (hM : ip ∉ M) :
    wp (iput sb ip) s (fun _ s' => Dropped sb T base ip L M s s') E := by
  refine wp_call (wp_iput_put h fun hc => ?_) fun _ s' hp => hp.dropped h hh
  rw [hh.locks ip, decide_eq_true_eq] at hc
  exact absurd hc hM

lemma wp_iunlockput_drop (h : FsInv sb T s) (hh : Holds base (ip :: L) (ip :: M) s)
    (hM : ip ∉ M) :
    wp (iunlockput sb ip) s (fun _ s' => Dropped sb T base ip L M s s') E := by
  refine wp_call (wp_iunlockput_holds h hh hM) fun _ s' hp => ?_
  obtain ⟨h₁, hp, -⟩ := hp
  have hd := hp.dropped h₁ (hh.unlock hM)
  have q : Quiet base s (s.unlockSlot ip) := quiet_unlockSlot
  have hslot : (s.unlockSlot ip).itable ip = { s.itable ip with locked := false } := by
    rw [State.unlockSlot, setSlot_self]
  have hinum : ((s.unlockSlot ip).itable ip).inum = (s.itable ip).inum := by rw [hslot]
  constructor
  · exact hd.inv
  · exact q.steady.trans hd.steady
  · exact hd.holds
  · rw [← hinum]
    exact q.only.trans hd.only
  · intro jp hjp
    rw [hd.slots jp hjp, State.unlockSlot, setSlot_of_ne hjp]
  · intro hn
    exact q.trans (hd.quiet (q.noOrphan hn))
  · intro href hr hz
    have hf := hd.free (by rw [hslot]; exact href)
      ⟨by rw [hslot]; exact hr.live, by rw [hslot]; exact hr.valid⟩ (by rw [hslot]; exact hz)
    rw [hf, hinum, q.nodes]

lemma NoOrphan.of_nodes (hn : NoOrphan sb base s) (hs : Steady base s s')
    (hN : ∀ i, (nodes sb s' i).type ≠ .free → (nodes sb s' i).nlink = 0 →
      ((nodes sb s i).type ≠ .free ∧ (nodes sb s i).nlink = 0) ∨
        ∃ jp, 0 < base jp ∧ (s.itable jp).inum = i) : NoOrphan sb base s' := by
  intro i hi hz
  rw [← nodes_nlink hi] at hz
  have hheld : ∃ jp, 0 < base jp ∧ (s.itable jp).inum = i := by
    obtain ⟨ht, hz'⟩ | hheld := hN i (type_ne_free hi) hz
    · have hi' := nodes_type_ne_free_iff.mp ht
      exact hn i hi' (by rw [← nodes_nlink hi', hz'])
    · exact hheld
  obtain ⟨jp, hb, he⟩ := hheld
  exact ⟨jp, hb, (hs jp hb).trans he⟩

lemma NoOrphan.congr (hn : NoOrphan sb base s) (hs : Steady base s s')
    (hN : nodes sb s' = nodes sb s) : NoOrphan sb base s' :=
  hn.of_nodes hs fun _ hi hz => .inl (hN ▸ ⟨hi, hz⟩)

lemma NoOrphan.edited (hn : NoOrphan sb base s) (hh : Holds base L M s)
    (he : Edited sb T ip n c s s') (ht : n.type = (nodes sb s (s.itable ip).inum).type)
    (hl : n.nlink = (nodes sb s (s.itable ip).inum).nlink) : NoOrphan sb base s' := by
  refine hn.of_nodes ((Rewritten.of_edited he).steady hh) fun j hj hj' => ?_
  rw [he.nodes] at hj hj'
  by_cases hji : j = (s.itable ip).inum
  · rw [hji, update_self, ht] at hj
    rw [hji, update_self, hl] at hj'
    exact .inl (hji ▸ ⟨hj, hj'⟩)
  · rw [update_of_ne hji] at hj hj'
    exact .inl ⟨hj, hj'⟩

/-- What a call by a process in directory `cwd` starts from: nothing is locked, every
inode in use is allocated and an inode without links is in use. -/
structure Outset (sb : Superblock) (T : FileType → Prop) (base : Ip → ℕ) (cwd : Ip)
    (s : State) : Prop where
  inv : FsInv sb T s
  holds : Holds base [] [] s
  linked : NoOrphan sb base s
  cwd : 0 < base cwd
  held : ∀ jp, 0 < base jp → Allocated sb s.dinode (s.itable jp).inum

lemma Calm.outset {cwd : Ip} (h : Calm sb T s) (hcwd : 0 < (s.itable cwd).ref) :
    Outset sb T (fun jp => (s.itable jp).ref) cwd s :=
  ⟨h.inv, h.holds, h.linked, hcwd, h.held⟩

/-- The state in which `begin_op` lets a call start. -/
def State.begun (s : State) : State := { s with logged := [] }

lemma Outset.begun {cwd : Ip} (o : Outset sb T base cwd s) : Outset sb T base cwd s.begun where
  inv := ⟨o.inv.own, o.inv.noHole, o.inv.entries, o.inv.uniq, o.inv.inums,
    fun jp hr => o.inv.coh jp ⟨hr.live, hr.valid⟩⟩
  holds := ⟨o.holds.refs, o.holds.locks⟩
  linked := o.linked
  cwd := o.cwd
  held := o.held

end Xv6.Fs
