import Xv6.Fs
import Xv6.Owners

/-!
# Which inode owns which block

An inode refers to blocks at numbered places: its direct addresses are places 0 to
11, its indirect block is place 12, and the entries of the indirect block follow.
The free map is exact for the places of all allocated inodes.
-/
namespace Xv6.Fs

open Function Bytes

abbrev indirect : Fin (NDIRECT + 1) := Fin.last NDIRECT

/-- The block number at place `l` of an inode. -/
def refAt (data : ℕ → Block) (d : Dinode) (l : ℕ) : ℕ :=
  if l ≤ NDIRECT then
    d.addrs (Fin.ofNat _ l)
  else if l ≤ NDIRECT + NINDIRECT ∧ d.addrs indirect ≠ 0 then
    (word (data (d.addrs indirect)) (4 * (l - NDIRECT - 1))).toNat
  else
    0

/-- The place of block `bn` of the contents. -/
def place (bn : ℕ) : ℕ := if bn < NDIRECT then bn else bn + 1

/-- The address of block `bn` of the contents, 0 if there is none. -/
def blockAt (data : ℕ → Block) (d : Dinode) (bn : ℕ) : ℕ := refAt data d (place bn)

variable {sb : Superblock} {D D' : ℕ → Dinode} {data data' : ℕ → Block} {bm : ℕ → Bool}
  {d d' : Dinode} {i l b bn j : ℕ}

lemma place_ne_indirect : place bn ≠ NDIRECT := by
  unfold place
  split <;> omega

lemma place_inj (h : place bn = place j) : bn = j := by
  unfold place at h
  split at h <;> split at h <;> omega

lemma refAt_direct (x : Fin (NDIRECT + 1)) : refAt data d x.val = d.addrs x := by
  have hx : x.val ≤ NDIRECT := by omega
  simp [refAt, hx]

lemma refAt_indirect : refAt data d NDIRECT = d.addrs indirect := refAt_direct indirect

lemma refAt_entry (hj : j < NINDIRECT) (hind : d.addrs indirect ≠ 0) :
    refAt data d (NDIRECT + 1 + j) = (word (data (d.addrs indirect)) (4 * j)).toNat := by
  grind [refAt]

/-- The places after the direct ones are empty without an indirect block. -/
lemma refAt_of_no_indirect (hl : NDIRECT < l) (hind : d.addrs indirect = 0) :
    refAt data d l = 0 := by
  simp [refAt, hind, Nat.not_le.mpr hl]

lemma refAt_out_of_range (hl : NDIRECT + NINDIRECT < l) : refAt data d l = 0 := by
  grind [refAt]

lemma place_cases (l : ℕ) :
    (∃ x : Fin (NDIRECT + 1), l = x.val) ∨ (∃ j < NINDIRECT, l = NDIRECT + 1 + j) ∨
      NDIRECT + NINDIRECT < l := by
  by_cases h1 : l ≤ NDIRECT
  · exact Or.inl ⟨⟨l, by omega⟩, rfl⟩
  · by_cases h2 : l ≤ NDIRECT + NINDIRECT
    · exact Or.inr (Or.inl ⟨l - NDIRECT - 1, by omega, by omega⟩)
    · exact Or.inr (Or.inr (by omega))

lemma refAt_congr (ha : d'.addrs = d.addrs)
    (hd : d.addrs indirect ≠ 0 → data' (d.addrs indirect) = data (d.addrs indirect)) :
    refAt data' d' l = refAt data d l := by
  grind [refAt]

lemma refAt_of_no_addrs (h : ∀ x, d.addrs x = 0) : refAt data d l = 0 := by
  grind [refAt]

/-- Storing a new, zeroed block at an empty direct address or as the indirect block
changes that place only. -/
lemma refAt_withAddr (x : Fin (NDIRECT + 1)) (hx : d.addrs x = 0)
    (hb : d.addrs indirect ≠ 0 → d.addrs indirect ≠ b) :
    refAt (update data b fun _ => 0) (d.withAddr x b) l =
      update (refAt data d) x.val b l := by
  obtain ⟨y, rfl⟩ | ⟨j, hj, rfl⟩ | hl := place_cases l
  · have hne : y.val = x.val ↔ y = x := Fin.ext_iff.symm
    simp only [refAt_direct, update_apply, hne, Dinode.withAddr]
  · have hne : NDIRECT + 1 + j ≠ x.val := by omega
    rw [update_of_ne hne]
    by_cases hxi : x = indirect
    · subst hxi
      rw [refAt_of_no_indirect (d := d) (by omega) hx]
      by_cases hb0 : b = 0
      · exact refAt_of_no_indirect (by omega) (by rw [Dinode.withAddr_self, hb0])
      · have hind : (d.withAddr indirect b).addrs indirect = b := d.withAddr_self indirect b
        rw [refAt_entry hj (hind ▸ hb0), hind, update_self]
        simp [word, Bytes.get]
    · have hind : (d.withAddr x b).addrs indirect = d.addrs indirect :=
        d.withAddr_of_ne (Ne.symm hxi) b
      by_cases h0 : d.addrs indirect = 0
      · rw [refAt_of_no_indirect (by omega) (hind ▸ h0), refAt_of_no_indirect (by omega) h0]
      · rw [refAt_entry hj (hind ▸ h0), refAt_entry hj h0, hind, update_of_ne (hb h0)]
  · have hne : l ≠ x.val := by omega
    rw [refAt_out_of_range hl, update_of_ne hne, refAt_out_of_range hl]

lemma refAt_setWord (hj : j < NINDIRECT) (hind : d.addrs indirect ≠ 0) (hb : b < 2 ^ 32)
    (hne : d.addrs indirect ≠ b) (v : Block) :
    refAt (update (update data b v) (d.addrs indirect)
        (setWord (update data b v (d.addrs indirect)) (4 * j) (UInt32.ofNat b))) d l =
      update (refAt data d) (NDIRECT + 1 + j) b l := by
  obtain ⟨y, rfl⟩ | ⟨m, hm, rfl⟩ | hl := place_cases l
  · have hyj : y.val ≠ NDIRECT + 1 + j := by omega
    rw [update_of_ne hyj, refAt_direct, refAt_direct]
  · rw [refAt_entry hm hind, update_self, update_of_ne hne]
    by_cases hmj : m = j
    · subst hmj
      have hfit : 4 * m + 4 ≤ BSIZE := by
        simp only [NINDIRECT, BSIZE] at hm ⊢
        omega
      rw [update_self, word_setWord_self _ _ _ hfit, UInt32.toNat_ofNat']
      omega
    · have hmj' : NDIRECT + 1 + m ≠ NDIRECT + 1 + j := by omega
      rw [update_of_ne hmj', refAt_entry hm hind, word_setWord_of_disjoint _ _ _ _ (by omega)]
  · have hlj : l ≠ NDIRECT + 1 + j := by omega
    rw [refAt_out_of_range hl, update_of_ne hlj, refAt_out_of_range hl]

def Allocated (sb : Superblock) (D : ℕ → Dinode) (i : ℕ) : Prop :=
  1 ≤ i ∧ i < sb.ninodes ∧ (D i).type ≠ .free

instance : Decidable (Allocated sb D i) := inferInstanceAs (Decidable (_ ∧ _ ∧ _))

/-- The block at place `x.2` of inode `x.1`, 0 for an inode that is not in use. -/
def refs (sb : Superblock) (D : ℕ → Dinode) (data : ℕ → Block) (x : ℕ × ℕ) : ℕ :=
  if Allocated sb D x.1 then refAt data (D x.1) x.2 else 0

lemma refs_of_allocated (h : Allocated sb D i) : refs sb D data (i, l) = refAt data (D i) l :=
  if_pos h

/-- The ownership invariant: every block of the data area has one owner or is free,
and the free map says which. -/
abbrev Own (sb : Superblock) (bm : ℕ → Bool) (D : ℕ → Dinode) (data : ℕ → Block) : Prop :=
  Owners.Exact sb.dataStart sb.size bm (refs sb D data)

lemma dataStart_pos (sb : Superblock) : 0 < sb.dataStart := Nat.add_pos_right _ (Nat.succ_pos _)

lemma refs_congr (hal : ∀ i, Allocated sb D' i ↔ Allocated sb D i)
    (ha : ∀ i, Allocated sb D i → (D' i).addrs = (D i).addrs)
    (hd : ∀ i, Allocated sb D i → (D i).addrs indirect ≠ 0 →
      data' ((D i).addrs indirect) = data ((D i).addrs indirect)) :
    refs sb D' data' = refs sb D data := by
  funext x
  obtain ⟨i, l⟩ := x
  by_cases hi : Allocated sb D i
  · rw [refs_of_allocated hi, refs_of_allocated ((hal i).mpr hi)]
    exact refAt_congr (ha i hi) (hd i hi)
  · simp [refs, hi, hal]

lemma allocated_update (ht : d.type = (D i).type) (j : ℕ) :
    Allocated sb (update D i d) j ↔ Allocated sb D j := by
  simp only [Allocated, update_apply]
  grind

namespace Own

lemma indirect_ne (h : Own sb bm D data) (hi : Allocated sb D i) (hj : Allocated sb D j)
    (hind : (D j).addrs indirect ≠ 0) (hl : (i, l) ≠ (j, NDIRECT)) :
    refAt data (D i) l ≠ (D j).addrs indirect := by
  intro he
  have hri : refs sb D data (i, l) = refAt data (D i) l := refs_of_allocated hi
  have hrj : refs sb D data (j, NDIRECT) = (D j).addrs indirect := by
    rw [refs_of_allocated hj, refAt_indirect]
  exact hl (h.inj _ _ (by rw [hri, he]; exact hind) (by rw [hri, hrj, he]))

lemma write (h : Own sb bm D data)
    (hb : ∀ i, Allocated sb D i → (D i).addrs indirect ≠ 0 → (D i).addrs indirect ≠ b)
    (v : Block) : Own sb bm D (update data b v) := by
  have hr : refs sb D (update data b v) = refs sb D data := by
    refine refs_congr (fun _ => Iff.rfl) (fun _ _ => rfl) fun i hi hind => ?_
    rw [update_of_ne (hb i hi hind)]
  unfold Own
  rw [hr]
  exact h

lemma setFields (h : Own sb bm D data) (ht : d.type = (D i).type) (ha : d.addrs = (D i).addrs) :
    Own sb bm (update D i d) data := by
  have hr : refs sb (update D i d) data = refs sb D data := by
    refine refs_congr (allocated_update ht) (fun j _ => ?_) fun _ _ _ => rfl
    simp only [update_apply]
    grind
  unfold Own
  rw [hr]
  exact h

lemma free_ne_indirect (h : Own sb bm D data) (hb : b < sb.size) (hbit : bm b = false)
    (hi : Allocated sb D i) : (D i).addrs indirect ≠ b := by
  have hne := (h.free_of_bit hb hbit).2 (i, NDIRECT)
  rwa [refs_of_allocated hi, refAt_indirect] at hne

/-- Allocation of a block for a direct address or as the indirect block. -/
lemma alloc_addr (h : Own sb bm D data) (hi : Allocated sb D i) (x : Fin (NDIRECT + 1))
    (hx : (D i).addrs x = 0) (hb : b < sb.size) (hbit : bm b = false) :
    Own sb (update bm b true) (update D i ((D i).withAddr x b))
      (update data b fun _ => 0) := by
  have hr : refs sb (update D i ((D i).withAddr x b)) (update data b fun _ => 0) =
      update (refs sb D data) (i, x.val) b := by
    funext y
    obtain ⟨j, l⟩ := y
    have hal : ∀ j, Allocated sb (update D i ((D i).withAddr x b)) j ↔ Allocated sb D j :=
      allocated_update rfl
    have hself : refAt (update data b fun _ => 0) ((D i).withAddr x b) l = _ :=
      refAt_withAddr x hx fun _ => h.free_ne_indirect hb hbit hi
    have hother (hj : Allocated sb D j) : refAt (update data b fun _ => 0) (D j) l = refAt data (D j) l :=
      refAt_congr rfl fun _ => update_of_ne (h.free_ne_indirect hb hbit hj) ..
    simp only [refs, hal, update_apply, Prod.mk.injEq] at hself ⊢
    grind
  unfold Own
  rw [hr]
  refine Owners.Exact.alloc h (dataStart_pos sb) ?_ hb hbit
  rw [refs_of_allocated hi, refAt_direct, hx]

lemma alloc_entry (h : Own sb bm D data) (hi : Allocated sb D i)
    (hind : (D i).addrs indirect ≠ 0) (hj : j < NINDIRECT)
    (hw : (word (data ((D i).addrs indirect)) (4 * j)).toNat = 0) (hb : b < sb.size)
    (hbit : bm b = false) :
    Own sb (update bm b true) D (update (update data b fun _ => 0) ((D i).addrs indirect)
      (setWord ((update data b fun _ => 0) ((D i).addrs indirect)) (4 * j) (UInt32.ofNat b))) := by
  have hsize := sb.size_lt
  have hr : refs sb D (update (update data b fun _ => 0) ((D i).addrs indirect)
      (setWord ((update data b fun _ => 0) ((D i).addrs indirect)) (4 * j) (UInt32.ofNat b))) =
      update (refs sb D data) (i, NDIRECT + 1 + j) b := by
    funext y
    obtain ⟨k, l⟩ := y
    have hself : refAt _ (D i) l = update (refAt data (D i)) (NDIRECT + 1 + j) b l :=
      refAt_setWord hj hind (hb.trans hsize) (h.free_ne_indirect hb hbit hi) fun _ => 0
    have hother (hk : Allocated sb D k) (hki : k ≠ i) (v : Block) :
        refAt (update (update data b fun _ => 0) ((D i).addrs indirect) v) (D k) l =
          refAt data (D k) l := by
      refine refAt_congr rfl fun hk0 => ?_
      have hkind := h.indirect_ne (l := NDIRECT) hk hi hind (by simp [hki])
      rw [refAt_indirect] at hkind
      rw [update_of_ne hkind, update_of_ne (h.free_ne_indirect hb hbit hk)]
    simp only [refs, update_apply (refs sb D data), update_apply (refAt data (D i)),
      Prod.mk.injEq] at hself ⊢
    grind
  unfold Own
  rw [hr]
  refine Owners.Exact.alloc h (dataStart_pos sb) ?_ hb hbit
  rw [refs_of_allocated hi, refAt_entry hj hind, hw]

lemma refs_reset (hd : ∀ x, d.addrs x = 0) (x : ℕ × ℕ) :
    refs sb (update D i d) data x = if x.1 = i then 0 else refs sb D data x := by
  obtain ⟨j, l⟩ := x
  have hnone : refAt data d l = 0 := refAt_of_no_addrs hd
  simp only [refs, Allocated, update_apply]
  grind

/-- Replacing an inode without blocks by another one without blocks. -/
lemma reset (h : Own sb bm D data) (hi : ∀ l, refs sb D data (i, l) = 0)
    (hd : ∀ x, d.addrs x = 0) : Own sb bm (update D i d) data := by
  have hr : refs sb (update D i d) data = refs sb D data := by
    funext x
    rw [refs_reset hd]
    split
    · next hx => rw [← hi x.2, ← hx]
    · rfl
  unfold Own
  rw [hr]
  exact h

/-- Clearing the bits of all blocks of an inode and forgetting them. -/
lemma truncate (h : Own sb bm D data) (hi : Allocated sb D i) (hd : ∀ x, d.addrs x = 0)
    {bm' : ℕ → Bool} (hclear : ∀ l, refAt data (D i) l ≠ 0 → bm' (refAt data (D i) l) = false)
    (hkeep : ∀ b, (∀ l, refAt data (D i) l ≠ 0 → refAt data (D i) l ≠ b) → bm' b = bm b) :
    Own sb bm' (update D i d) data := by
  refine Owners.Exact.release h (dataStart_pos sb) (fun x => x.1 = i) ?_ ?_ ?_ ?_
  · intro x hx
    rw [refs_reset hd, if_pos hx]
  · intro x hx
    rw [refs_reset hd, if_neg hx]
  · rintro ⟨j, l⟩ rfl hx
    rw [refs_of_allocated hi] at hx ⊢
    exact hclear l hx
  · intro b hb
    refine hkeep b fun l hl => ?_
    have hbl := hb (i, l) rfl
    rw [refs_of_allocated hi] at hbl
    exact hbl hl

end Own

end Xv6.Fs
