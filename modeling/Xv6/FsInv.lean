import Xv6.InodeBlocks
import Xv6.Dir

/-!
# The invariant of the file system

The free map is exact, contents have no holes, directory entries name inodes of
the disk, and the inode table agrees with the disk.
-/
namespace Xv6.Fs

open Function Bytes Prog

def byteAt (data : ℕ → Block) (d : Dinode) (off : ℕ) : UInt8 :=
  Bytes.get (data (blockAt data d (off / BSIZE))) (off % BSIZE)

def direntAt (data : ℕ → Block) (d : Dinode) (k : ℕ) : Dirent :=
  .ofBytes ((List.range DIRENT).map fun i => byteAt data d (DIRENT * k + i))

/-- What the directory layer sees of an inode. -/
structure Node where
  type : FileType
  nlink : Int16
  entries : List Dirent

def node (data : ℕ → Block) (d : Dinode) : Node where
  type := d.type
  nlink := d.nlink
  entries := if d.type = .dir then (List.range (slots d.size)).map (direntAt data d) else []

def Node.withNlink (n : Node) (k : Int16) : Node := { n with nlink := k }

def Node.free : Node := { type := .free, nlink := 0, entries := [] }

def nodes (sb : Superblock) (s : State) (i : ℕ) : Node :=
  if Allocated sb s.dinode i then node s.data (s.dinode i) else .free

/-- The inode in the slot is referenced and its copy is loaded. -/
structure Ready (s : State) (ip : Ip) : Prop where
  live : 0 < (s.itable ip).ref
  valid : (s.itable ip).valid = true

/-- The invariant, for the inodes `D`; inodes of the types `T` have no holes. -/
structure Inv (sb : Superblock) (T : FileType → Prop) (D : ℕ → Dinode) (s : State) : Prop where
  own : Own sb s.bitmap D s.data
  noHole : ∀ i, Allocated sb D i → T (D i).type → ∀ bn, bn * BSIZE < (D i).size →
    blockAt s.data (D i) bn ≠ 0
  entries : ∀ i, Allocated sb D i → (D i).type = .dir → ∀ k, DIRENT * k < (D i).size →
    (direntAt s.data (D i) k).inum < sb.ninodes
  uniq : ∀ ip jp, 0 < (s.itable ip).ref → 0 < (s.itable jp).ref →
    (s.itable ip).inum = (s.itable jp).inum → ip = jp
  inums : ∀ ip, 0 < (s.itable ip).ref →
    1 ≤ (s.itable ip).inum ∧ (s.itable ip).inum < sb.ninodes
  coh : ∀ ip, Ready s ip →
    (s.itable ip).dino = D (s.itable ip).inum ∧ (s.itable ip).dino.type ≠ .free

/-- The invariant between two changes of inodes: the table agrees with the disk. -/
abbrev FsInv (sb : Superblock) (T : FileType → Prop) (s : State) : Prop := Inv sb T s.dinode s

variable {sb : Superblock} {T : FileType → Prop} {D : ℕ → Dinode} {s s' : State} {ip : Ip}
  {data data' : ℕ → Block} {d d' : Dinode} {W L : ℕ → Prop} {i k : ℕ}

lemma lt_slots : k < slots d.size ↔ DIRENT * k < d.size := by
  simp only [slots, DIRENT]
  omega

lemma direntAt_congr (h : data' (blockAt data' d' (k / 64)) = data (blockAt data d (k / 64))) :
    direntAt data' d' k = direntAt data d k := by
  unfold direntAt
  congr 1
  refine List.map_congr_left fun i hi => ?_
  have hblk : (DIRENT * k + i) / BSIZE = k / 64 := by
    have := List.mem_range.mp hi
    simp only [DIRENT, BSIZE] at *
    omega
  rw [byteAt, byteAt, hblk, h]

lemma block_lt_size (h : DIRENT * k < d.size) : k / 64 * BSIZE < d.size := by
  simp only [DIRENT, BSIZE] at *
  omega

lemma node_congr (ht : d'.type = d.type) (hn : d'.nlink = d.nlink) (hs : d'.size = d.size)
    (hb : d.type = .dir → ∀ bn, bn * BSIZE < d.size →
      data' (blockAt data' d' bn) = data (blockAt data d bn)) :
    node data' d' = node data d := by
  unfold node
  rw [ht, hn, hs]
  congr 1
  split
  · next hdir =>
    refine List.map_congr_left fun k hk => direntAt_congr (hb hdir _ (block_lt_size ?_))
    exact lt_slots.mp (List.mem_range.mp hk)
  · rfl

namespace Inv

lemma allocated (h : Inv sb T D s) (hr : Ready s ip) : Allocated sb D (s.itable ip).inum := by
  obtain ⟨hd, ht⟩ := h.coh ip hr
  obtain ⟨h1, h2⟩ := h.inums ip hr.live
  exact ⟨h1, h2, hd ▸ ht⟩

lemma entry_lt (h : FsInv sb T s) {de : Dirent} (hde : (nodes sb s i).entries[k]? = some de) :
    de.inum < sb.ninodes := by
  unfold nodes at hde
  split at hde
  · next hal =>
    unfold node at hde
    split at hde
    · next hdir =>
      obtain ⟨hk, rfl⟩ := List.getElem?_eq_some_iff.mp hde
      rw [List.length_map, List.length_range] at hk
      rw [List.getElem_map, List.getElem_range]
      exact h.entries i hal hdir k (lt_slots.mp hk)
    · simp at hde
  · simp [Node.free] at hde

/-- A loaded slot agrees with the disk. -/
lemma view_eq (h : FsInv sb T s) (hr : Ready s ip) : view s ip = s.dinode := by
  unfold view
  rw [(h.coh ip hr).1, update_eq_self]

lemma growing (h : FsInv sb T s) (hr : Ready s ip) : Growing sb s ip where
  own := h.view_eq hr ▸ h.own
  alloc := h.view_eq hr ▸ h.allocated hr

end Inv

namespace Grow

lemma view_of_ne (g : Grow sb ip W L s s') {j : ℕ} (hj : j ≠ (s.itable ip).inum) :
    view s' ip j = view s ip j := by
  obtain ⟨hinum, -⟩ := g.slot_fields
  rw [view, view, hinum, g.dinode, update_of_ne hj, update_of_ne hj]

lemma data_other (g : Grow sb ip W L s s') (h : Growing sb s ip) {j l : ℕ}
    (hj : Allocated sb (view s ip) j) (hne : j ≠ (s.itable ip).inum)
    (hl : refAt s.data (view s ip j) l ≠ 0) :
    s'.data (refAt s.data (view s ip j) l) = s.data (refAt s.data (view s ip j) l) := by
  have hr : refs sb (view s ip) s.data (j, l) = refAt s.data (view s ip j) l :=
    refs_of_allocated hj
  rw [← hr] at hl ⊢
  refine g.frame _ (h.own.bit_of_ref _ hl) fun m _ => ?_
  rw [← h.refs_slot]
  exact Ne.symm (h.own.ne_of_ne hl (by simp [hne]))

lemma refAt_other (g : Grow sb ip W L s s') (h : Growing sb s ip) {j : ℕ}
    (hj : Allocated sb (view s ip) j) (hne : j ≠ (s.itable ip).inum) (l : ℕ) :
    refAt s'.data (view s ip j) l = refAt s.data (view s ip j) l := by
  refine refAt_congr rfl fun hind => ?_
  have hi : refAt s.data (view s ip j) NDIRECT = (view s ip j).addrs indirect := refAt_indirect
  rw [← hi] at hind ⊢
  exact g.data_other h hj hne hind

lemma contents_other (g : Grow sb ip W L s s') (h : Growing sb s ip) {j : ℕ}
    (hj : Allocated sb (view s ip) j) (hne : j ≠ (s.itable ip).inum) (bn : ℕ)
    (hbn : blockAt s.data (view s ip j) bn ≠ 0) :
    s'.data (blockAt s'.data (view s' ip j) bn) = s.data (blockAt s.data (view s ip j) bn) := by
  rw [g.view_of_ne hne, blockAt, g.refAt_other h hj hne]
  exact g.data_other h hj hne hbn

end Grow

/-- Inode `j` and the blocks it refers to are as they were. -/
structure Same (j : ℕ) (s s' : State) : Prop where
  dinode : s'.dinode j = s.dinode j
  data : ∀ l, refAt s.data (s.dinode j) l ≠ 0 →
    s'.data (refAt s.data (s.dinode j) l) = s.data (refAt s.data (s.dinode j) l)

namespace Same

variable {s'' : State} {j : ℕ}

lemma of_eq (hD : s'.dinode j = s.dinode j) (hd : s'.data = s.data) : Same j s s' where
  dinode := hD
  data l _ := by rw [hd]

lemma refAt (h : Same j s s') (l : ℕ) :
    refAt s'.data (s'.dinode j) l = Fs.refAt s.data (s.dinode j) l := by
  rw [h.dinode]
  apply refAt_congr rfl
  intro hind
  have hd := h.data NDIRECT
  rw [refAt_indirect] at hd
  exact hd hind

lemma trans (h : Same j s s') (h' : Same j s' s'') : Same j s s'' where
  dinode := h'.dinode.trans h.dinode
  data l hl := by
    have hd := h'.data l
    rw [h.refAt] at hd
    rw [hd hl, h.data l hl]

end Same

/-- Inode `j` has its contents; at most its link count is another and its indirect
block is new. -/
structure Kept (j : ℕ) (s s' : State) : Prop where
  fields : ∃ n a, s'.dinode j = { s.dinode j with nlink := n, addrs := a }
  indirect : (s.dinode j).addrs indirect ≠ 0 →
    (s'.dinode j).addrs indirect = (s.dinode j).addrs indirect
  refs : ∀ l, l ≠ NDIRECT → refAt s'.data (s'.dinode j) l = refAt s.data (s.dinode j) l
  data : ∀ l, l ≠ NDIRECT → refAt s.data (s.dinode j) l ≠ 0 →
    s'.data (refAt s.data (s.dinode j) l) = s.data (refAt s.data (s.dinode j) l)

variable {j : ℕ}

lemma Same.kept (h : Same j s s') : Kept j s s' where
  fields := ⟨_, _, h.dinode⟩
  indirect _ := by rw [h.dinode]
  refs l _ := h.refAt l
  data l _ := h.data l

lemma Kept.trans {s'' : State} (h : Kept j s s') (h' : Kept j s' s'') : Kept j s s'' where
  fields := by
    obtain ⟨m, a, ha⟩ := h.fields
    obtain ⟨n, b, hb⟩ := h'.fields
    exact ⟨n, b, by rw [hb, ha]⟩
  indirect hi := by
    rw [h'.indirect (by rwa [h.indirect hi]), h.indirect hi]
  refs l hl := (h'.refs l hl).trans (h.refs l hl)
  data l hl h0 := by
    have hd := h'.data l hl
    rw [h.refs l hl] at hd
    rw [hd h0, h.data l hl h0]

/-- The state after the copy in the slot became `d` and was written to disk. -/
def State.commitInode (sb : Superblock) (s : State) (ip : Ip) (d : Dinode) : State :=
  { s with
    itable := update s.itable ip { s.itable ip with dino := d }
    dinode := update s.dinode (s.itable ip).inum d
    logged := sb.iblock (s.itable ip).inum :: s.logged }

lemma commitInode_slot (d : Dinode) :
    (s.commitInode sb ip d).itable ip = { s.itable ip with dino := d } := update_self ..

lemma wp_iupdate {Q : Unit → State → Prop} {E : Panic → Prop} :
    wp (iupdate sb ip) s Q E ↔
      Q () { s with
        dinode := update s.dinode (s.itable ip).inum (s.itable ip).dino
        logged := sb.iblock (s.itable ip).inum :: s.logged } := Iff.rfl

/-- Changing the copy of an inode and writing it back. -/
lemma wp_writeBack {Q : Unit → State → Prop} {E : Panic → Prop} (f : Dinode → Dinode) :
    wp (modifyDino ip f) s (fun _ s' => wp (iupdate sb ip) s' Q E) E ↔
      Q () (s.commitInode sb ip (f (s.itable ip).dino)) := by
  rw [wp_modifyDino, wp_iupdate, setSlot_self]
  rfl

lemma Grow.dinode_of_ne (g : Grow sb ip W L s s') (hj : j ≠ (s.itable ip).inum) :
    (s'.commitInode sb ip d).dinode j = s.dinode j := by
  obtain ⟨hinum, -⟩ := g.slot_fields
  show update s'.dinode (s'.itable ip).inum d j = s.dinode j
  rw [hinum, update_of_ne hj, g.dinode]

lemma Grow.allocated_iff (g : Grow sb ip W L s s') (h : FsInv sb T s) (hr : Ready s ip)
    (ht : d.type = (s.itable ip).dino.type) (j : ℕ) :
    Allocated sb (s'.commitInode sb ip d).dinode j ↔ Allocated sb s.dinode j := by
  obtain ⟨hinum, -⟩ := g.slot_fields
  have hcoh := (h.coh ip hr).1
  simp only [Allocated, State.commitInode, hinum, g.dinode, update_apply]
  grind

lemma Grow.same (g : Grow sb ip W L s s') (h : FsInv sb T s) (hr : Ready s ip)
    (hj : Allocated sb s.dinode j) (hne : j ≠ (s.itable ip).inum) :
    Same j s (s'.commitInode sb ip d) where
  dinode := g.dinode_of_ne hne
  data l hl := by
    have hv := h.view_eq hr
    have hd := g.data_other (h.growing hr) (l := l) (hv ▸ hj) hne
    rw [hv] at hd
    exact hd hl

section Commit

variable (hT : T .dir) (h : FsInv sb T s) (hr : Ready s ip) (g : Grow sb ip W L s s')
include hT h hr g

lemma Grow.dir_other (hj : Allocated sb s.dinode j) (hne : j ≠ (s.itable ip).inum)
    (hdir : (s.dinode j).type = .dir) {bn : ℕ} (hbn : bn * BSIZE < (s.dinode j).size) :
    s'.data (blockAt s'.data (s.dinode j) bn) = s.data (blockAt s.data (s.dinode j) bn) := by
  have hv := h.view_eq hr
  have h0 := h.noHole j hj (hdir ▸ hT) bn hbn
  have hc := g.contents_other (h.growing hr) (hv ▸ hj) hne bn (by rwa [hv])
  rwa [g.view_of_ne hne, hv] at hc

lemma Grow.node_other (hj : Allocated sb s.dinode j) (hne : j ≠ (s.itable ip).inum) :
    node s'.data (s.dinode j) = node s.data (s.dinode j) :=
  node_congr rfl rfl rfl fun hdir _ hbn => g.dir_other hT h hr hj hne hdir hbn

omit hT in
lemma Grow.noHole_commit (ht : d.type = (s.itable ip).dino.type)
    (hhole : T d.type → ∀ bn, bn * BSIZE < d.size → blockAt s'.data d bn ≠ 0) (i : ℕ)
    (hi : Allocated sb (s'.commitInode sb ip d).dinode i)
    (hTi : T ((s'.commitInode sb ip d).dinode i).type) (bn : ℕ)
    (hbn : bn * BSIZE < ((s'.commitInode sb ip d).dinode i).size) :
    blockAt s'.data ((s'.commitInode sb ip d).dinode i) bn ≠ 0 := by
  by_cases hii : i = (s.itable ip).inum
  · have hself : (s'.commitInode sb ip d).dinode (s.itable ip).inum = d := by
      rw [← g.slot_fields.1]
      exact update_self ..
    rw [hii, hself] at hTi hbn ⊢
    exact hhole hTi bn hbn
  · rw [g.dinode_of_ne hii] at hTi hbn ⊢
    have hi := (g.allocated_iff h hr ht i).mp hi
    have hv := h.view_eq hr
    have href := g.refAt_other (h.growing hr) (hv ▸ hi) hii (place bn)
    rw [hv] at href
    rw [blockAt, href]
    exact h.noHole i hi hTi bn hbn

omit hT h hr in
lemma Grow.own_commit (h' : Growing sb s' ip) (ht : d.type = (s.itable ip).dino.type)
    (ha : d.addrs = (s'.itable ip).dino.addrs) :
    Own sb s'.bitmap (s'.commitInode sb ip d).dinode s'.data := by
  have hD : (s'.commitInode sb ip d).dinode = update (view s' ip) (s'.itable ip).inum d := by
    simp [State.commitInode, view]
  rw [hD]
  exact h'.own.setFields (by rw [view_self, ht, g.slot_fields.2.2.2.2.1]) (by rw [view_self, ha])

/-- Writing an inode back after it grew keeps the invariant. -/
theorem Inv.commit (h' : Growing sb s' ip) (ht : d.type = (s.itable ip).dino.type)
    (ha : d.addrs = (s'.itable ip).dino.addrs)
    (hhole : T d.type → ∀ bn, bn * BSIZE < d.size → blockAt s'.data d bn ≠ 0)
    (hent : d.type = .dir → ∀ k, DIRENT * k < d.size →
      (direntAt s'.data d k).inum < sb.ninodes) :
    FsInv sb T (s'.commitInode sb ip d) := by
  obtain ⟨hinum, href, hvalid, -⟩ := g.slot_fields
  have hself : (s'.commitInode sb ip d).dinode (s.itable ip).inum = d := by
    rw [← hinum]
    exact update_self ..
  have hslot : (s'.commitInode sb ip d).itable ip = { s'.itable ip with dino := d } :=
    update_self ..
  have hother : ∀ jp, jp ≠ ip → (s'.commitInode sb ip d).itable jp = s.itable jp := by
    intro jp hjp
    rw [← g.slots jp hjp]
    exact update_of_ne hjp ..
  have hfields : ∀ jp, ((s'.commitInode sb ip d).itable jp).inum = (s.itable jp).inum ∧
      ((s'.commitInode sb ip d).itable jp).ref = (s.itable jp).ref := by
    intro jp
    by_cases hjp : jp = ip
    · simp [hjp, hslot, hinum, href]
    · simp [hother jp hjp]
  have hal := g.allocated_iff h hr (d := d) ht
  constructor
  · exact g.own_commit h' ht ha
  · exact g.noHole_commit h hr ht hhole
  · intro i hi hdir k hk
    by_cases hii : i = (s.itable ip).inum
    · rw [hii, hself] at hdir hk ⊢
      exact hent hdir k hk
    · rw [g.dinode_of_ne hii] at hdir hk ⊢
      have hi := (hal i).mp hi
      show (direntAt s'.data (s.dinode i) k).inum < sb.ninodes
      rw [direntAt_congr (g.dir_other hT h hr hi hii hdir (block_lt_size hk))]
      exact h.entries i hi hdir k hk
  · have huniq := h.uniq
    grind
  · have hinums := h.inums
    grind
  · intro jp hj
    by_cases hjp : jp = ip
    · subst hjp
      rw [(hfields jp).1, hself, hslot]
      exact ⟨rfl, by rw [ht]; exact (h.coh jp hr).2⟩
    · have hrj : Ready s jp :=
        ⟨(hfields jp).2 ▸ hj.live, by rw [← hother jp hjp]; exact hj.valid⟩
      have hne : (s.itable jp).inum ≠ (s.itable ip).inum :=
        fun he => hjp (h.uniq jp ip hrj.live hr.live he)
      rw [hother jp hjp, g.dinode_of_ne hne]
      exact h.coh jp hrj

/-- What the directory layer sees of it. -/
theorem Grow.nodes_commit (ht : d.type = (s.itable ip).dino.type) :
    nodes sb (s'.commitInode sb ip d) =
      update (nodes sb s) (s.itable ip).inum (node s'.data d) := by
  funext j
  have hal := g.allocated_iff h hr (d := d) ht j
  have hself : (s'.commitInode sb ip d).dinode (s.itable ip).inum = d := by
    rw [← g.slot_fields.1]
    exact update_self ..
  have hold := h.allocated hr
  have hdata : (s'.commitInode sb ip d).data = s'.data := rfl
  by_cases hj : j = (s.itable ip).inum
  · grind [nodes]
  · have hsame := g.dinode_of_ne (d := d) hj
    have hnode := fun ha => g.node_other hT h hr ha hj
    simp only [nodes, update_of_ne hj, hal, hsame, hdata]
    grind

end Commit

end Xv6.Fs
