import Xv6.FsInv
import Xv6.DirOps

/-!
# Changing one inode

Specifications of the functions of `kernel/fs.c` that change an inode its caller
has loaded: what they do to the inodes in use, to the table and to the log.
-/
namespace Xv6.Fs

open Function Bytes Prog

variable {sb : Superblock} {T : FileType → Prop} {s s' s'' : State} {ip : Ip} {E : Panic → Prop}
  {W L : ℕ → Prop} {d : Dinode} {n n' : Node} {c c' : ℕ} {is is' : List ℕ}

/-- Between `s` and `s'` only blocks of the free map, blocks of the inodes `is`, and
at most `c` other blocks were logged. -/
def LogsOnly (sb : Superblock) (is : List ℕ) (c : ℕ) (s s' : State) : Prop :=
  ∃ X : Finset ℕ, X.card ≤ c ∧ ∀ b ∈ s'.logged, b ∈ s.logged ∨
    (∃ x < sb.size, b = sb.bblock x) ∨ (∃ i ∈ is, b = sb.iblock i) ∨ b ∈ X

namespace LogsOnly

lemma of_eq (h : s'.logged = s.logged) : LogsOnly sb is c s s' :=
  ⟨∅, Nat.zero_le _, fun _ hb => Or.inl (h ▸ hb)⟩

lemma trans (h : LogsOnly sb is c s s') (h' : LogsOnly sb is' c' s' s'') :
    LogsOnly sb (is ++ is') (c + c') s s'' := by
  obtain ⟨X, hX, hb⟩ := h
  obtain ⟨X', hX', hb'⟩ := h'
  refine ⟨X ∪ X', (Finset.card_union_le X X').trans (Nat.add_le_add hX hX'), fun b hbs => ?_⟩
  grind

lemma mono (h : LogsOnly sb is c s s') (hi : ∀ i ∈ is, i ∈ is') (hc : c ≤ c') :
    LogsOnly sb is' c' s s' := by
  obtain ⟨X, hX, hb⟩ := h
  refine ⟨X, hX.trans hc, fun b hbs => ?_⟩
  grind

lemma commit (s : State) (ip : Ip) (d : Dinode) :
    LogsOnly sb [(s.itable ip).inum] 0 s (s.commitInode sb ip d) := by
  refine ⟨∅, le_rfl, fun b hb => ?_⟩
  obtain rfl | hb := List.mem_cons.mp hb
  · exact Or.inr (Or.inr (Or.inl ⟨_, List.mem_singleton_self _, rfl⟩))
  · exact Or.inl hb

end LogsOnly

/-- Only the inodes `is` were changed, and only they, free map blocks and `c` other
blocks were logged. -/
structure Local (sb : Superblock) (is : List ℕ) (c : ℕ) (s s' : State) : Prop where
  same : ∀ j, Allocated sb s.dinode j → j ∉ is → Same j s s'
  logs : LogsOnly sb is c s s'

namespace Local

lemma of_eq (hD : s'.dinode = s.dinode) (hd : s'.data = s.data) (hl : s'.logged = s.logged) :
    Local sb is c s s' where
  same j _ _ := .of_eq (by rw [hD]) hd
  logs := .of_eq hl

lemma trans (h : Local sb is c s s') (h' : Local sb is' c' s' s'') :
    Local sb (is ++ is') (c + c') s s'' where
  same j hj hi := by
    have hs := h.same j hj fun hm => hi (List.mem_append_left _ hm)
    have hj' : Allocated sb s'.dinode j := by
      rw [Allocated, hs.dinode]
      exact hj
    exact hs.trans (h'.same j hj' fun hm => hi (List.mem_append_right _ hm))
  logs := h.logs.trans h'.logs

lemma mono (h : Local sb is c s s') (hi : ∀ i ∈ is, i ∈ is') (hc : c ≤ c') :
    Local sb is' c' s s' where
  same j hj hm := h.same j hj fun hc => hm (hi j hc)
  logs := h.logs.mono hi hc

lemma setSlot (h : Local sb is c s s') (ip : Ip) (v : Inode) :
    Local sb is c s (s'.setSlot ip v) where
  same j hj hi := ⟨(h.same j hj hi).dinode, (h.same j hj hi).data⟩
  logs := h.logs

lemma commit (s : State) (ip : Ip) (d : Dinode) :
    Local sb [(s.itable ip).inum] 0 s (s.commitInode sb ip d) where
  same j _ hj := .of_eq (update_of_ne (by simpa using hj) ..) rfl
  logs := .commit s ip d

end Local

/-- The inode in slot `ip` was changed and written back: it is `n` now, everything
else is as it was, and at most `c` blocks of contents were logged. -/
structure Touched (sb : Superblock) (T : FileType → Prop) (ip : Ip) (n : Node) (c : ℕ)
    (s s' : State) : Prop where
  inv : FsInv sb T s'
  nodes : nodes sb s' = update (nodes sb s) (s.itable ip).inum n
  slots : ∀ jp, jp ≠ ip → s'.itable jp = s.itable jp
  slot : ∃ d, s'.itable ip = { s.itable ip with dino := d }
  only : Local sb [(s.itable ip).inum] c s s'

namespace Touched

lemma refl (h : FsInv sb T s) : Touched sb T ip (Fs.nodes sb s (s.itable ip).inum) c s s where
  inv := h
  nodes := (update_eq_self ..).symm
  slots _ _ := rfl
  slot := ⟨_, rfl⟩
  only := .of_eq rfl rfl rfl

lemma fields (h : Touched sb T ip n c s s') (jp : Ip) :
    (s'.itable jp).inum = (s.itable jp).inum ∧ (s'.itable jp).ref = (s.itable jp).ref ∧
      (s'.itable jp).valid = (s.itable jp).valid ∧
      (s'.itable jp).locked = (s.itable jp).locked := by
  obtain ⟨d, hd⟩ := h.slot
  grind [h.slots]

lemma ready (h : Touched sb T ip n c s s') {jp : Ip} (hr : Ready s jp) : Ready s' jp := by
  obtain ⟨-, href, hvalid, -⟩ := h.fields jp
  exact ⟨href ▸ hr.live, hvalid ▸ hr.valid⟩

lemma trans (h : Touched sb T ip n c s s') (h' : Touched sb T ip n' c' s' s'') :
    Touched sb T ip n' (c + c') s s'' where
  inv := h'.inv
  nodes := by
    rw [h'.nodes, h.nodes, (h.fields ip).1, update_idem]
  slots jp hjp := (h'.slots jp hjp).trans (h.slots jp hjp)
  slot := by
    obtain ⟨d, hd⟩ := h.slot
    obtain ⟨d', hd'⟩ := h'.slot
    exact ⟨d', by rw [hd', hd]⟩
  only := by
    have hl := h.only.trans h'.only
    rw [(h.fields ip).1] at hl
    exact hl.mono (by simp) le_rfl

end Touched

lemma card_span (off m : ℕ) (f : ℕ → ℕ) :
    ∃ X : Finset ℕ, X.card ≤ 1 + ((off + m + (BSIZE - 1)) / BSIZE - off / BSIZE) ∧
      ∀ l, span off m l → f l ∈ X := by
  refine ⟨insert (f NDIRECT) ((Finset.Ico (off / BSIZE) ((off + m + (BSIZE - 1)) / BSIZE)).image
    fun bn => f (place bn)), ?_, ?_⟩
  · have h1 := Finset.card_insert_le (f NDIRECT)
      ((Finset.Ico (off / BSIZE) ((off + m + (BSIZE - 1)) / BSIZE)).image fun bn => f (place bn))
    have h2 := Finset.card_image_le (s := Finset.Ico (off / BSIZE) ((off + m + (BSIZE - 1)) / BSIZE))
      (f := fun bn => f (place bn))
    rw [Nat.card_Ico] at h2
    omega
  · rintro l (rfl | ⟨bn, hle, hlt, rfl⟩)
    · exact Finset.mem_insert_self ..
    · refine Finset.mem_insert_of_mem (Finset.mem_image.mpr ⟨bn, Finset.mem_Ico.mpr ⟨hle, ?_⟩, rfl⟩)
      simp only [BSIZE] at *
      omega

lemma LogsOnly.of_grow {off m : ℕ} (g : Grow sb ip W (span off m) s s') :
    LogsOnly sb [(s.itable ip).inum] (1 + ((off + m + (BSIZE - 1)) / BSIZE - off / BSIZE)) s
      (s'.commitInode sb ip d) := by
  obtain ⟨X, hX, hmem⟩ := card_span off m (slotRef s' ip)
  refine ⟨X, hX, fun b hb => ?_⟩
  obtain rfl | hb := List.mem_cons.mp hb
  · exact Or.inr (Or.inr (Or.inl ⟨_, List.mem_singleton_self _, by rw [g.slot_fields.1]⟩))
  · grind [g.log b hb]

lemma Touched.of_grow (hT : T .dir) (h : FsInv sb T s) (hr : Ready s ip)
    (h' : Growing sb s' ip) (g : Grow sb ip W L s s')
    (ht : d.type = (s.itable ip).dino.type) (ha : d.addrs = (s'.itable ip).dino.addrs)
    (hhole : T d.type → ∀ bn, bn * BSIZE < d.size → blockAt s'.data d bn ≠ 0)
    (hent : d.type = .dir → ∀ k, DIRENT * k < d.size →
      (direntAt s'.data d k).inum < sb.ninodes)
    (hlog : LogsOnly sb [(s.itable ip).inum] c s (s'.commitInode sb ip d)) :
    Touched sb T ip (node s'.data d) c s (s'.commitInode sb ip d) where
  inv := h.commit hT hr g h' ht ha hhole hent
  nodes := g.nodes_commit hT h hr ht
  slots jp hjp := (update_of_ne hjp ..).trans (g.slots jp hjp)
  slot := by
    obtain ⟨a, ha⟩ := g.slot
    refine ⟨d, (update_self ..).trans ?_⟩
    rw [ha]
  only := {
    same := fun j hj hne => g.same h hr hj (by simpa using hne)
    logs := hlog }

lemma nodes_of_ready (h : FsInv sb T s) (hr : Ready s ip) :
    nodes sb s (s.itable ip).inum = node s.data (s.itable ip).dino := by
  rw [nodes, if_pos (h.allocated hr), (h.coh ip hr).1]

lemma Touched.of_fields (hT : T .dir) (h : FsInv sb T s) (hr : Ready s ip)
    (ht : d.type = (s.itable ip).dino.type) (hs : d.size = (s.itable ip).dino.size)
    (ha : d.addrs = (s.itable ip).dino.addrs) :
    Touched sb T ip ((Fs.nodes sb s (s.itable ip).inum).withNlink d.nlink) 0 s
      (s.commitInode sb ip d) := by
  obtain ⟨hd, -⟩ := h.coh ip hr
  have hal := h.allocated hr
  have hblk : ∀ bn, blockAt s.data d bn = blockAt s.data (s.itable ip).dino bn :=
    fun bn => refAt_congr ha fun _ => rfl
  have hk : direntAt s.data d = direntAt s.data (s.itable ip).dino :=
    funext fun k => direntAt_congr (by rw [hblk])
  have hnode : node s.data d = (Fs.nodes sb s (s.itable ip).inum).withNlink d.nlink := by
    rw [nodes_of_ready h hr]
    simp [node, Node.withNlink, ht, hs, hk]
  rw [← hnode]
  refine .of_grow hT h hr (h.growing hr) (.refl (W := fun _ => False) (L := fun _ => False))
    ht ha ?_ ?_ ?_
  · intro hTd bn hbn
    rw [hblk, hd]
    exact h.noHole _ hal (by rwa [← hd, ← ht]) bn (by rwa [← hd, ← hs])
  · intro hdir k hlt
    rw [hk, hd]
    exact h.entries _ hal (by rwa [← hd, ← ht]) k (by rwa [← hd, ← hs])
  · exact .commit ..

lemma wp_setNlink_iff {Q : Unit → State → Prop} (f : Int16 → Int16) :
    wp (setNlink sb ip f) s Q E ↔ Q () (s.commitInode sb ip
      { (s.itable ip).dino with nlink := f (s.itable ip).dino.nlink }) := by
  rw [setNlink, wp_bind, wp_writeBack]

theorem wp_setNlink (hT : T .dir) (h : FsInv sb T s) (hr : Ready s ip) (f : Int16 → Int16) :
    wp (setNlink sb ip f) s (fun _ s' => Touched sb T ip
      ((nodes sb s (s.itable ip).inum).withNlink (f (nodes sb s (s.itable ip).inum).nlink)) 0
        s s') E := by
  rw [setNlink, wp_bind, wp_writeBack]
  have hn : (nodes sb s (s.itable ip).inum).nlink = (s.itable ip).dino.nlink := by
    rw [nodes_of_ready h hr]
    rfl
  rw [hn]
  exact Touched.of_fields
    (d := { (s.itable ip).dino with nlink := f (s.itable ip).dino.nlink }) hT h hr rfl rfl rfl

end Xv6.Fs
