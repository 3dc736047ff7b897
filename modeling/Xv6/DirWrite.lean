import Xv6.InodeWrite

/-!
# Writing directory entries

`dirlink` and `sys_unlink` write one entry with `writei`. It lies in one block, so
the write happens completely or, when the disk is full, not at all.
-/
namespace Xv6.Fs

open Function Bytes Prog

variable {sb : Superblock} {T : FileType → Prop} {s s₁ s' : State} {dp : Ip} {E : Panic → Prop}
  {k : ℕ} {de : Dirent}

/-- A directory with entry `k` set; the number after the last appends it. -/
def Node.setEntry (n : Node) (k : ℕ) (de : Dirent) : Node :=
  { n with entries := if k < n.entries.length then n.entries.set k de else n.entries ++ [de] }

/-- The entry that 16 bytes encode; missing bytes are zero. -/
def direntOf (l : List UInt8) : Dirent := .ofBytes ((List.range DIRENT).map fun i => l.getD i 0)

lemma map_range_set {α : Type} {f g : ℕ → α} {m k : ℕ} (hk : k ≤ m)
    (hg : ∀ j, j < m → j ≠ k → g j = f j) :
    (List.range (max m (k + 1))).map g =
      if k < ((List.range m).map f).length then ((List.range m).map f).set k (g k)
      else (List.range m).map f ++ [g k] := by
  rw [List.length_map, List.length_range]
  split
  · next hlt =>
    rw [max_eq_left hlt]
    refine List.ext_getElem (by simp) fun j h₁ _ => ?_
    have hj : j < m := by simpa using h₁
    rw [List.getElem_set]
    split
    · next h => simp [h]
    · next h => simp [hg j hj (Ne.symm h)]
  · next hge =>
    obtain rfl : k = m := by omega
    rw [max_eq_right (Nat.le_succ k), List.range_succ, List.map_append, List.map_singleton]
    congr 1
    exact List.map_congr_left fun j hj => hg j (List.mem_range.mp hj) (List.mem_range.mp hj).ne

section Entry

variable {l : List UInt8} {tot : ℕ}
  (w : Wrote sb dp (fun i => some (l.getD i 0)) (DIRENT * k) DIRENT tot s s₁)
include w

lemma tot_dirent : tot = 0 ∨ tot = DIRENT := by
  have := w.le
  have := w.align
  simp only [DIRENT, BSIZE] at *
  omega

/-- The entry that was written, and the others of blocks that were there. -/
lemma direntAt_wrote {j : ℕ} (hj : slotRef s dp (place (j / 64)) ≠ 0 ∨ j = k ∧ tot = DIRENT) :
    direntAt s₁.data (s₁.itable dp).dino j =
      if j = k ∧ tot = DIRENT then direntOf l else direntAt s.data (s.itable dp).dino j := by
  have hbyte : ∀ i ∈ List.range DIRENT, byteAt s₁.data (s₁.itable dp).dino (DIRENT * j + i) =
      if j = k ∧ tot = DIRENT then l.getD i 0
      else byteAt s.data (s.itable dp).dino (DIRENT * j + i) := by
    intro i hi
    have hi := List.mem_range.mp hi
    have hblk : (DIRENT * j + i) / BSIZE = j / 64 := by
      simp only [DIRENT, BSIZE] at *
      omega
    refine (w.bytes (DIRENT * j + i) ?_).trans ?_
    · rw [hblk]
      exact hj.imp_right fun ⟨hjk, ht⟩ => by subst hjk ht; omega
    · by_cases hjk : j = k ∧ tot = DIRENT
      · obtain ⟨rfl, rfl⟩ := hjk
        rw [if_pos (by omega), if_pos ⟨rfl, rfl⟩, Nat.add_sub_cancel_left]
        rfl
      · rw [if_neg hjk, if_neg]
        · rfl
        · have := tot_dirent w
          simp only [DIRENT] at *
          omega
  unfold direntAt direntOf
  rw [List.map_congr_left hbyte]
  split <;> rfl

end Entry

lemma slots_max (size k : ℕ) : slots (max size (DIRENT * k + DIRENT)) = max (slots size) (k + 1) := by
  simp only [slots, DIRENT]
  omega

lemma span_entry {l : ℕ} (h : span (DIRENT * k) DIRENT l) : l = NDIRECT ∨ l = place (k / 64) := by
  refine h.imp_right ?_
  rintro ⟨bn, hle, hlt, rfl⟩
  congr 1
  simp only [DIRENT, BSIZE] at *
  omega

/-- Entry `k` fits into the file, and the disk has the blocks that it needs. -/
def Room (sb : Superblock) (s : State) (dp : Ip) (k : ℕ) : Prop :=
  DIRENT * k + DIRENT ≤ MAXFILE * BSIZE ∧ missing s dp (k / 64) ≤ freeBlocks sb s.bitmap

instance Room.decidable (k : ℕ) : Decidable (Room sb s dp k) :=
  inferInstanceAs (Decidable (_ ∧ _))

section Slot

variable (hT : T .dir) (h : FsInv sb T s) (hr : Ready s dp) (hdir : (s.itable dp).dino.type = .dir)
include hT h hr hdir

lemma slotRef_dir (bn : ℕ) (hbn : bn * BSIZE < (s.itable dp).dino.size) :
    slotRef s dp (place bn) ≠ 0 :=
  h.slotRef_ne_zero hr (hdir ▸ hT) hbn

lemma size_dir : (s.itable dp).dino.size ≤ MAXFILE * BSIZE := by
  by_contra hgt
  refine slotRef_dir hT h hr hdir MAXFILE (by omega) ?_
  refine refAt_out_of_range ?_
  decide

lemma touched_dirent {l : List UInt8} {tot : ℕ}
    (w : Wrote sb dp (fun i => some (l.getD i 0)) (DIRENT * k) DIRENT tot s s₁)
    (hk : k ≤ slots (s.itable dp).dino.size) (hoff : DIRENT * k ≤ (s.itable dp).dino.size)
    (hde : (direntOf l).inum < sb.ninodes) :
    Touched sb T dp (if tot = DIRENT then (nodes sb s (s.itable dp).inum).setEntry k (direntOf l)
      else nodes sb s (s.itable dp).inum) 2 s (s₁.sized sb dp (DIRENT * k + tot)) := by
  obtain ⟨hd, -⟩ := h.coh dp hr
  obtain ⟨-, -, -, -, hty, hnl, hsz⟩ := w.grow.slot_fields
  have htot := tot_dirent w
  have hold (j : ℕ) (hj : j < slots (s.itable dp).dino.size) : slotRef s dp (place (j / 64)) ≠ 0 :=
    slotRef_dir hT h hr hdir _ (block_lt_size (lt_slots.mp hj))
  have hnode : node s₁.data { (s₁.itable dp).dino with
      size := max (s₁.itable dp).dino.size (DIRENT * k + tot) } =
      if tot = DIRENT then (nodes sb s (s.itable dp).inum).setEntry k (direntOf l)
      else nodes sb s (s.itable dp).inum := by
    rw [nodes_of_ready h hr]
    simp only [node, Node.setEntry, hdir, hty, hnl, hsz, if_true]
    obtain rfl | rfl := htot
    · rw [if_neg (by decide), Nat.add_zero, max_eq_left hoff]
      congr 1
      refine List.map_congr_left fun j hj => (direntAt_wrote w (.inl (hold j ?_))).trans (if_neg ?_)
      · exact List.mem_range.mp hj
      · simp [DIRENT]
    · rw [if_pos rfl, slots_max, ← (direntAt_wrote w (.inr ⟨rfl, rfl⟩)).trans (if_pos ⟨rfl, rfl⟩)]
      congr 1
      refine map_range_set hk fun j hj hjk => (direntAt_wrote w (.inl (hold j hj))).trans (if_neg ?_)
      exact fun hc => hjk hc.1
  rw [← hnode]
  refine w.touched hT h hr ?_ hoff fun _ j hj => ?_
  · simp only [DIRENT, BSIZE]
    omega
  · by_cases hjk : j = k ∧ tot = DIRENT
    · rw [direntAt_wrote w (.inr hjk), if_pos hjk]
      exact hde
    · have hlt : j < slots (s.itable dp).dino.size := by
        simp only [slots, DIRENT] at *
        omega
      rw [direntAt_wrote w (.inl (hold j hlt)), if_neg hjk, hd]
      exact h.entries _ (h.allocated hr) (hd ▸ hdir) j (hd ▸ lt_slots.mp hlt)

lemma room_of_le (hk : DIRENT * k + DIRENT ≤ (s.itable dp).dino.size) : Room sb s dp k := by
  have hlt : DIRENT * k < (s.itable dp).dino.size :=
    (Nat.lt_add_of_pos_right (by norm_num)).trans_le hk
  have hold := slotRef_dir hT h hr hdir (k / 64) (block_lt_size hlt)
  refine ⟨hk.trans (size_dir hT h hr hdir), ?_⟩
  rw [missing, if_pos hold]
  exact Nat.zero_le _

omit hT hdir in
lemma kept_full {src : ℕ → Option UInt8} (w : Wrote sb dp src (DIRENT * k) DIRENT 0 s s₁)
    (h0 : slotRef s₁ dp (place (k / 64)) = 0) (hk : DIRENT * k ≤ (s.itable dp).dino.size) :
    Kept (s.itable dp).inum s (s₁.sized sb dp (DIRENT * k)) := by
  obtain ⟨hd, -⟩ := h.coh dp hr
  have g := w.grow
  obtain ⟨a, ha⟩ := g.slot
  obtain ⟨hinum, -⟩ := g.slot_fields
  have hself : (s₁.sized sb dp (DIRENT * k)).dinode (s.itable dp).inum =
      { (s₁.itable dp).dino with size := max (s₁.itable dp).dino.size (DIRENT * k) } := by
    rw [← hinum]
    exact update_self ..
  have href : ∀ l, refAt s₁.data { (s₁.itable dp).dino with
      size := max (s₁.itable dp).dino.size (DIRENT * k) } l = slotRef s₁ dp l :=
    fun l => refAt_congr rfl fun _ => rfl
  -- no place but the indirect block has changed
  have hsame : ∀ l, l ≠ NDIRECT → slotRef s₁ dp l = slotRef s dp l := by
    intro l hl
    by_cases hlp : l = place (k / 64)
    · by_contra hne
      rw [hlp, h0] at hne
      exact hne ((g.mono _ (Ne.symm hne)).symm.trans h0).symm
    · exact g.only l fun hc => (span_entry hc).elim hl hlp
  constructor
  · refine ⟨(s.itable dp).dino.nlink, a, ?_⟩
    rw [hself, ha, ← hd]
    simp only
    rw [max_eq_left hk]
  · intro hi
    rw [hself]
    have hm := g.mono NDIRECT
    rw [slotRef, slotRef, refAt_indirect, refAt_indirect, hd] at hm
    exact hm hi
  · intro l hl
    rw [hself, ← hd]
    exact (href l).trans (hsame l hl)
  · intro l hl hl0
    rw [← hd] at hl0 ⊢
    refine g.frame _ ((h.growing hr).bit_of_slot hl0) ?_
    rintro m (rfl | ⟨hc, -⟩) hm
    · exact (h.growing hr).slot_ne hl0 hl hm.symm
    · exact absurd hc (lt_irrefl 0)

/-- `writei` of one entry: it is written, or nothing changes for want of room. -/
theorem wp_writeDirent (hk : k ≤ slots (s.itable dp).dino.size)
    (l : List UInt8) (hde : (direntOf l).inum < sb.ninodes) :
    wp (writeDirent sb dp l (DIRENT * k)) s (fun r s' =>
      Touched sb T dp (if r then (nodes sb s (s.itable dp).inum).setEntry k (direntOf l)
        else nodes sb s (s.itable dp).inum) 2 s s' ∧
      (DIRENT * k ≤ (s.itable dp).dino.size → (r = true ↔ Room sb s dp k)) ∧
      (r = true → (s'.itable dp).dino.size = max (s.itable dp).dino.size (DIRENT * k + DIRENT)) ∧
      (r = false → Kept (s.itable dp).inum s s')) E := by
  have hsize := size_dir hT h hr hdir
  have hbn : DIRENT * k / BSIZE = k / 64 := by
    simp only [DIRENT, BSIZE]
    omega
  rw [writeDirent, wp_bind]
  refine wp_writei (h.growing hr) (fun t m _ _ _ => .inl (copied_all fun _ _ => rfl))
    (fun href => ?_) fun tot s₁ href w hstop => ?_
  · refine ⟨.refl h, fun hin => ⟨fun hc => by simp at hc, fun hroom => ?_⟩, fun hc => by simp at hc,
      fun _ => (Same.of_eq rfl rfl).kept⟩
    have := hroom.1
    simp only [Refused, MAXFILE, NDIRECT, NINDIRECT, BSIZE, DIRENT] at *
    omega
  · simp only [Refused, not_or, not_lt] at href
    have ht := touched_dirent hT h hr hdir w hk href.1 hde
    have hroom := w.room
    rw [hbn] at hroom
    obtain rfl | rfl := tot_dirent w
    · obtain hd | ⟨i, -, hi⟩ | ⟨s₂, -, hs₂, hfree, h0⟩ := hstop
      · cases hd
      · cases hi
      · rw [hs₂ rfl, Nat.add_zero, hbn] at hfree
        rw [Nat.add_zero, hbn] at h0
        refine ⟨by simpa using ht, fun _ => ⟨fun hc => by simp at hc, fun hr' => ?_⟩,
          fun hc => by simp at hc, fun _ => kept_full h hr w h0 href.1⟩
        exact absurd hr'.2 (not_le.mpr hfree)
    · obtain ⟨-, -, -, -, -, -, hsz⟩ := w.grow.slot_fields
      refine ⟨by simpa using ht, fun _ => ⟨fun _ => ⟨href.2.2, hroom (by norm_num)⟩, fun _ => by simp⟩,
        fun _ => ?_, fun hc => by simp at hc⟩
      rw [← hsz, State.sized, commitInode_slot]

end Slot

end Xv6.Fs
