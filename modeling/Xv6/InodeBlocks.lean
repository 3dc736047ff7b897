import Xv6.BlockOwner

/-!
# Growing an inode

What `bmap` and the loop of `writei` do to an inode of the table and its blocks.
While they run the copy in the table is ahead of the disk, so ownership is stated
for the inodes on disk with that copy in place of its original.
-/
namespace Xv6.Fs

open Function Bytes Prog

def State.setSlot (s : State) (ip : Ip) (v : Inode) : State :=
  { s with itable := update s.itable ip v }

section Primitives

variable {s : State} {E : Panic → Prop} {ip jp : Ip} {v : Inode} {Q : Unit → State → Prop}

@[simp] lemma setSlot_self : (s.setSlot ip v).itable ip = v := update_self ..

lemma setSlot_of_ne (h : jp ≠ ip) : (s.setSlot ip v).itable jp = s.itable jp := update_of_ne h ..

@[simp] lemma setSlot_dinode : (s.setSlot ip v).dinode = s.dinode := rfl
@[simp] lemma setSlot_data : (s.setSlot ip v).data = s.data := rfl
@[simp] lemma setSlot_bitmap : (s.setSlot ip v).bitmap = s.bitmap := rfl
@[simp] lemma setSlot_logged : (s.setSlot ip v).logged = s.logged := rfl

@[simp] lemma setSlot_setSlot (w : Inode) : (s.setSlot ip v).setSlot ip w = s.setSlot ip w := by
  simp [State.setSlot]

@[simp] lemma wp_inode {Q : Inode → State → Prop} :
    wp (inode ip) s Q E ↔ Q (s.itable ip) s := Iff.rfl

@[simp] lemma wp_modifyInode (f : Inode → Inode) :
    wp (modifyInode ip f) s Q E ↔ Q () (s.setSlot ip (f (s.itable ip))) := Iff.rfl

@[simp] lemma wp_modifyDino (f : Dinode → Dinode) :
    wp (modifyDino ip f) s Q E ↔
      Q () (s.setSlot ip { s.itable ip with dino := f (s.itable ip).dino }) := Iff.rfl

@[simp] lemma wp_setData (b : ℕ) (v : Block) :
    wp (setData b v) s Q E ↔ Q () { s with data := update s.data b v } := Iff.rfl

@[simp] lemma wp_logWrite (b : ℕ) :
    wp (logWrite b) s Q E ↔ Q () { s with logged := b :: s.logged } := Iff.rfl

@[simp] lemma wp_beginOp : wp beginOp s Q E ↔ Q () { s with logged := [] } := Iff.rfl

@[simp] lemma wp_endOp : wp endOp s Q E ↔ Q () s := Iff.rfl

end Primitives

/-- The inodes on disk, but inode `ip` as its slot has it. -/
def view (s : State) (ip : Ip) : ℕ → Dinode :=
  update s.dinode (s.itable ip).inum (s.itable ip).dino

/-- The block at place `l` of the inode in slot `ip`. -/
def slotRef (s : State) (ip : Ip) (l : ℕ) : ℕ := refAt s.data (s.itable ip).dino l

variable {sb : Superblock} {s s' s'' : State} {ip : Ip} {E : Panic → Prop} {b bn j : ℕ}
  {W W' L L' : ℕ → Prop}

lemma view_self : view s ip (s.itable ip).inum = (s.itable ip).dino := update_self ..

/-- The changes made while the inode in slot `ip` grows: empty places may receive
blocks that were free, the blocks at the places `W` may be overwritten, and the
blocks at the places `L` and of the free map may be logged. -/
structure Grow (sb : Superblock) (ip : Ip) (W L : ℕ → Prop) (s s' : State) : Prop where
  dinode : s'.dinode = s.dinode
  slots : ∀ jp, jp ≠ ip → s'.itable jp = s.itable jp
  slot : ∃ a, s'.itable ip = { s.itable ip with dino := { (s.itable ip).dino with addrs := a } }
  mono : ∀ l, slotRef s ip l ≠ 0 → slotRef s' ip l = slotRef s ip l
  new : ∀ l, slotRef s ip l = 0 → slotRef s' ip l ≠ 0 → s.bitmap (slotRef s' ip l) = false
  only : ∀ l, ¬ L l → slotRef s' ip l = slotRef s ip l
  bits : ∀ b, s.bitmap b = true → s'.bitmap b = true
  frame : ∀ b, s.bitmap b = true → (∀ l, W l → slotRef s ip l ≠ b) → s'.data b = s.data b
  log : ∀ b ∈ s'.logged, b ∈ s.logged ∨ (∃ x < sb.size, b = sb.bblock x) ∨
    ∃ l, L l ∧ slotRef s' ip l = b ∧ b ≠ 0

namespace Grow

lemma refl : Grow sb ip W L s s where
  dinode := rfl
  slots _ _ := rfl
  slot := ⟨_, rfl⟩
  mono _ _ := rfl
  new _ h h' := absurd h h'
  only _ _ := rfl
  bits _ h := h
  frame _ _ _ := rfl
  log _ h := Or.inl h

lemma weaken (h : Grow sb ip W L s s') (hW : ∀ l, W l → W' l) (hL : ∀ l, L l → L' l) :
    Grow sb ip W' L' s s' := by
  have honly := h.only
  have hframe := h.frame
  have hlog := h.log
  exact { h with only := by grind, frame := by grind, log := by grind }

lemma slot_fields (h : Grow sb ip W L s s') :
    (s'.itable ip).inum = (s.itable ip).inum ∧ (s'.itable ip).ref = (s.itable ip).ref ∧
      (s'.itable ip).valid = (s.itable ip).valid ∧ (s'.itable ip).locked = (s.itable ip).locked ∧
      (s'.itable ip).dino.type = (s.itable ip).dino.type ∧
      (s'.itable ip).dino.nlink = (s.itable ip).dino.nlink ∧
      (s'.itable ip).dino.size = (s.itable ip).dino.size := by
  obtain ⟨a, ha⟩ := h.slot
  rw [ha]
  exact ⟨rfl, rfl, rfl, rfl, rfl, rfl, rfl⟩

lemma trans (h : Grow sb ip W L s s') (h' : Grow sb ip W L s' s'') :
    Grow sb ip W L s s'' := by
  obtain ⟨a, ha⟩ := h.slot
  obtain ⟨a', ha'⟩ := h'.slot
  cases h
  cases h'
  refine ⟨?_, ?_, ⟨a', by rw [ha', ha]⟩, ?_, ?_, ?_, ?_, ?_, ?_⟩
  all_goals grind

end Grow

/-- The state after `balloc` took block `b`. -/
def State.allocBlock (sb : Superblock) (s : State) (b : ℕ) : State :=
  { s with
    bitmap := update s.bitmap b true
    data := update s.data b fun _ => 0
    logged := b :: sb.bblock b :: s.logged }

/-- The number of blocks whose bit is clear. -/
def freeBlocks (sb : Superblock) (bm : ℕ → Bool) : ℕ :=
  ((Finset.range sb.size).filter fun b => bm b = false).card

lemma freeBlocks_alloc {bm : ℕ → Bool} (hb : b < sb.size) (hbit : bm b = false) :
    freeBlocks sb (update bm b true) = freeBlocks sb bm - 1 := by
  have hmem : b ∈ (Finset.range sb.size).filter fun b => bm b = false := by
    simp [hb, hbit]
  rw [freeBlocks, freeBlocks, ← Finset.card_erase_of_mem hmem]
  congr 1
  ext c
  by_cases hc : c = b
  · simp [hc]
  · simp [hc]

lemma freeBlocks_pos {bm : ℕ → Bool} (hb : b < sb.size) (hbit : bm b = false) :
    0 < freeBlocks sb bm :=
  Finset.card_pos.mpr ⟨b, by simp [hb, hbit]⟩

variable {Q : ℕ → State → Prop}

/-- `balloc` takes a block below the size whose bit is clear, or returns 0 if there
is none. -/
lemma wp_balloc (hfull : freeBlocks sb s.bitmap = 0 → Q 0 s)
    (hok : ∀ b, b < sb.size → s.bitmap b = false → Q b (s.allocBlock sb b)) :
    wp (balloc sb) s Q E := by
  unfold balloc
  rw [wp_bind, wp_get]
  cases hf : (List.range sb.size).find? fun b => !s.bitmap b with
  | none =>
    apply hfull
    rw [freeBlocks, Finset.card_eq_zero, Finset.filter_eq_empty_iff]
    intro b hb
    simpa using List.find?_eq_none.mp hf b (by simpa using hb)
  | some b =>
    have hb : b < sb.size := List.mem_range.mp (List.mem_of_find?_eq_some hf)
    have hbit : s.bitmap b = false := by simpa using List.find?_some hf
    exact hok b hb hbit

/-- The invariant of a growing inode: it is allocated, and ownership is exact with
the copy in the table. -/
structure Growing (sb : Superblock) (s : State) (ip : Ip) : Prop where
  own : Own sb s.bitmap (view s ip) s.data
  alloc : Allocated sb (view s ip) (s.itable ip).inum

namespace Growing

lemma refs_slot (h : Growing sb s ip) (l : ℕ) :
    refs sb (view s ip) s.data ((s.itable ip).inum, l) = slotRef s ip l := by
  rw [refs_of_allocated h.alloc, view_self, slotRef]

lemma bit_of_slot (h : Growing sb s ip) {l : ℕ} (hl : slotRef s ip l ≠ 0) :
    s.bitmap (slotRef s ip l) = true := by
  rw [← h.refs_slot] at hl ⊢
  exact h.own.bit_of_ref _ hl

lemma slot_ne (h : Growing sb s ip) {l m : ℕ} (hl : slotRef s ip l ≠ 0) (hlm : l ≠ m) :
    slotRef s ip l ≠ slotRef s ip m := by
  rw [← h.refs_slot] at hl
  rw [← h.refs_slot, ← h.refs_slot]
  exact h.own.ne_of_ne hl (by simp [hlm])

lemma free_ne_zero (h : Growing sb s ip) (hb : b < sb.size) (hbit : s.bitmap b = false) :
    b ≠ 0 := by
  have hge := (h.own.free_of_bit hb hbit).1
  have hpos := dataStart_pos sb
  omega

lemma free_ne_slot (h : Growing sb s ip) (hb : b < sb.size) (hbit : s.bitmap b = false)
    (l : ℕ) : slotRef s ip l ≠ b := by
  rw [← h.refs_slot]
  exact (h.own.free_of_bit hb hbit).2 _

end Growing

/-- The state after a new block was stored as address `x` of the inode. -/
def State.allocAddr (sb : Superblock) (s : State) (ip : Ip) (x : Fin (NDIRECT + 1)) (b : ℕ) :
    State :=
  { s.allocBlock sb b with
    itable := update s.itable ip
      { s.itable ip with dino := (s.itable ip).dino.withAddr x b } }

/-- The state after a new block was stored as entry `j` of the indirect block. -/
def State.allocEntry (sb : Superblock) (s : State) (ind j b : ℕ) : State :=
  { s.allocBlock sb b with
    data := update (s.allocBlock sb b).data ind
      (setWord ((s.allocBlock sb b).data ind) (4 * j) (UInt32.ofNat b))
    logged := ind :: b :: sb.bblock b :: s.logged }

section Alloc

variable (h : Growing sb s ip) (hb : b < sb.size) (hbit : s.bitmap b = false)
include h hb hbit

variable {x : Fin (NDIRECT + 1)}

lemma slotRef_allocAddr (hx : (s.itable ip).dino.addrs x = 0) (l : ℕ) :
    slotRef (s.allocAddr sb ip x b) ip l = update (slotRef s ip) x.val b l := by
  have hne : (s.itable ip).dino.addrs indirect ≠ b := by
    have := h.free_ne_slot hb hbit NDIRECT
    rwa [slotRef, refAt_indirect] at this
  have hslot : ((s.allocAddr sb ip x b).itable ip).dino = (s.itable ip).dino.withAddr x b := by
    simp [State.allocAddr]
  rw [slotRef, hslot]
  exact refAt_withAddr x hx fun _ => hne

lemma growing_allocAddr (hx : (s.itable ip).dino.addrs x = 0) :
    Growing sb (s.allocAddr sb ip x b) ip := by
  have hview : view (s.allocAddr sb ip x b) ip =
      update (view s ip) (s.itable ip).inum
        ((view s ip (s.itable ip).inum).withAddr x b) := by
    simp [view, State.allocAddr, State.allocBlock]
  have hinum : ((s.allocAddr sb ip x b).itable ip).inum = (s.itable ip).inum := by
    simp [State.allocAddr]
  constructor
  · rw [hview]
    exact Own.alloc_addr h.own h.alloc x (by rw [view_self, hx]) hb hbit
  · rw [hview, hinum]
    refine (allocated_update ?_ _).mpr h.alloc
    rfl

lemma grow_allocAddr (hx : (s.itable ip).dino.addrs x = 0) :
    Grow sb ip W (· = x.val) s (s.allocAddr sb ip x b) where
  dinode := rfl
  slots jp hjp := update_of_ne hjp ..
  slot := ⟨_, update_self ..⟩
  mono l hl := by
    have hlx : slotRef s ip x.val = 0 := (refAt_direct x).trans hx
    grind [slotRef_allocAddr]
  new := by grind [slotRef_allocAddr]
  only := by grind [slotRef_allocAddr]
  bits c hc := by
    simp only [State.allocAddr, State.allocBlock, update_apply]
    grind
  frame c hc _ := by
    simp only [State.allocAddr, State.allocBlock, update_apply]
    grind
  log c hc := by
    have hself := slotRef_allocAddr h hb hbit hx x.val
    have hb0 := h.free_ne_zero hb hbit
    grind [State.allocAddr, State.allocBlock]

lemma slotRef_allocEntry (hind : (s.itable ip).dino.addrs indirect ≠ 0) (hj : j < NINDIRECT)
    (l : ℕ) :
    slotRef (s.allocEntry sb ((s.itable ip).dino.addrs indirect) j b) ip l =
      update (slotRef s ip) (NDIRECT + 1 + j) b l := by
  have hne : (s.itable ip).dino.addrs indirect ≠ b := by
    have := h.free_ne_slot hb hbit NDIRECT
    rwa [slotRef, refAt_indirect] at this
  have hsize := sb.size_lt
  exact refAt_setWord hj hind (by omega) hne _

lemma growing_allocEntry (hind : (s.itable ip).dino.addrs indirect ≠ 0) (hj : j < NINDIRECT)
    (hw : slotRef s ip (NDIRECT + 1 + j) = 0) :
    Growing sb (s.allocEntry sb ((s.itable ip).dino.addrs indirect) j b) ip := by
  rw [slotRef, refAt_entry hj hind] at hw
  constructor
  · have hown := Own.alloc_entry h.own h.alloc (by rwa [view_self]) hj (by rwa [view_self]) hb hbit
    rw [view_self] at hown
    exact hown
  · exact h.alloc

lemma grow_allocEntry (hind : (s.itable ip).dino.addrs indirect ≠ 0) (hj : j < NINDIRECT)
    (hw : slotRef s ip (NDIRECT + 1 + j) = 0) :
    Grow sb ip (· = NDIRECT) (fun l => l = NDIRECT ∨ l = NDIRECT + 1 + j) s
      (s.allocEntry sb ((s.itable ip).dino.addrs indirect) j b) where
  dinode := rfl
  slots _ _ := rfl
  slot := ⟨_, rfl⟩
  mono := by grind [slotRef_allocEntry]
  new := by grind [slotRef_allocEntry]
  only := by grind [slotRef_allocEntry]
  bits c hc := by
    simp only [State.allocEntry, State.allocBlock, update_apply]
    grind
  frame c hc hl := by
    have hind := hl NDIRECT rfl
    rw [slotRef, refAt_indirect] at hind
    simp only [State.allocEntry, State.allocBlock, update_apply]
    grind
  log c hc := by
    have hnew := slotRef_allocEntry h hb hbit hind hj (NDIRECT + 1 + j)
    have hold := slotRef_allocEntry h hb hbit hind hj NDIRECT
    have hb0 := h.free_ne_zero hb hbit
    have hi : slotRef s ip NDIRECT = (s.itable ip).dino.addrs indirect := refAt_indirect
    simp only [State.allocEntry, List.mem_cons] at hc
    simp only [update_apply] at hnew hold
    grind

end Alloc

/-- The address of a place, new if there was none and the disk had room. -/
structure Filled (sb : Superblock) (ip : Ip) (l : ℕ) (s s' : State) : Prop where
  zero_iff : slotRef s' ip l = 0 ↔ slotRef s ip l = 0 ∧ freeBlocks sb s.bitmap = 0
  free : freeBlocks sb s'.bitmap =
    freeBlocks sb s.bitmap - if slotRef s ip l = 0 then 1 else 0

lemma Filled.of_ne (h0 : slotRef s ip j ≠ 0) : Filled sb ip j s s where
  zero_iff := ⟨fun h => absurd h h0, fun h => absurd h.1 h0⟩
  free := by rw [if_neg h0, Nat.sub_zero]

lemma Filled.of_full (hfull : freeBlocks sb s.bitmap = 0) :
    Filled sb ip j s s where
  zero_iff := ⟨fun h => ⟨h, hfull⟩, fun h => h.1⟩
  free := by rw [hfull, Nat.zero_sub]

lemma Filled.of_alloc (h0 : slotRef s ip j = 0) (hb : b < sb.size) (hbit : s.bitmap b = false)
    (hj : slotRef s' ip j = b) (hb0 : b ≠ 0) (hbm : s'.bitmap = update s.bitmap b true) :
    Filled sb ip j s s' where
  zero_iff := by
    constructor
    · intro h
      exact absurd (hj.symm.trans h) hb0
    · intro h
      have := freeBlocks_pos hb hbit
      omega
  free := by rw [hbm, freeBlocks_alloc hb hbit, if_pos h0]

lemma wp_addrOrAlloc (h : Growing sb s ip) (x : Fin (NDIRECT + 1))
    (hQ : ∀ s', Growing sb s' ip → Grow sb ip (fun _ => False) (· = x.val) s s' →
      Filled sb ip x.val s s' → Q (slotRef s' ip x.val) s') :
    wp (addrOrAlloc sb ip x) s Q E := by
  have hslot : slotRef s ip x.val = (s.itable ip).dino.addrs x := refAt_direct x
  rw [addrOrAlloc, wp_bind, wp_inode, wp_ite]
  split
  · next hx =>
    rw [← hslot] at hx
    rw [wp_pure, ← hslot]
    exact hQ s h .refl (.of_ne hx)
  · next hx =>
    have hx : (s.itable ip).dino.addrs x = 0 := not_not.mp hx
    have h0 : slotRef s ip x.val = 0 := hslot.trans hx
    rw [wp_bind]
    refine wp_balloc (fun hfull => ?_) fun b hb hbit => ?_
    · have hres := hQ s h .refl (.of_full hfull)
      rw [h0] at hres
      rw [if_pos rfl]
      exact hres
    · have hb0 := h.free_ne_zero hb hbit
      have hnew : slotRef (s.allocAddr sb ip x b) ip x.val = b := by
        rw [slotRef_allocAddr h hb hbit hx, update_self]
      rw [if_neg hb0]
      have hres := hQ (s.allocAddr sb ip x b) (growing_allocAddr h hb hbit hx)
        (grow_allocAddr h hb hbit hx) (.of_alloc h0 hb hbit hnew hb0 rfl)
      rw [hnew] at hres
      exact hres

lemma wp_entryOrAlloc (h : Growing sb s ip)
    (hind : (s.itable ip).dino.addrs indirect ≠ 0) (hj : j < NINDIRECT)
    (hQ : ∀ s', Growing sb s' ip →
      Grow sb ip (· = NDIRECT) (fun l => l = NDIRECT ∨ l = NDIRECT + 1 + j) s s' →
        Filled sb ip (NDIRECT + 1 + j) s s' → Q (slotRef s' ip (NDIRECT + 1 + j)) s') :
    wp (entryOrAlloc sb ((s.itable ip).dino.addrs indirect) j) s Q E := by
  have hslot : slotRef s ip (NDIRECT + 1 + j) =
      (word (s.data ((s.itable ip).dino.addrs indirect)) (4 * j)).toNat := refAt_entry hj hind
  rw [entryOrAlloc, wp_bind, wp_get, wp_ite, ← hslot]
  split
  · next hw => exact hQ s h .refl (.of_ne hw)
  · next hw =>
    have hw : slotRef s ip (NDIRECT + 1 + j) = 0 := not_not.mp hw
    rw [wp_bind]
    refine wp_balloc (fun hfull => ?_) fun b hb hbit => ?_
    · have hres := hQ s h .refl (.of_full hfull)
      rw [hw] at hres
      exact hres
    · have hb0 := h.free_ne_zero hb hbit
      have hnew := slotRef_allocEntry h hb hbit hind hj (NDIRECT + 1 + j)
      rw [update_self] at hnew
      have hres := hQ _ (growing_allocEntry h hb hbit hind hj hw)
        (grow_allocEntry h hb hbit hind hj hw) (.of_alloc hw hb hbit hnew hb0 rfl)
      rw [hnew] at hres
      rw [if_pos hb0]
      exact hres

/-- The number of blocks that `bmap` allocates for block `bn`. -/
def missing (s : State) (ip : Ip) (bn : ℕ) : ℕ :=
  if slotRef s ip (place bn) ≠ 0 then 0
  else if bn < NDIRECT ∨ slotRef s ip NDIRECT ≠ 0 then 1
  else 2

lemma Filled.missing_iff (h : Filled sb ip (place bn) s s')
    (hone : bn < NDIRECT ∨ slotRef s ip NDIRECT ≠ 0) :
    slotRef s' ip (place bn) = 0 ↔ freeBlocks sb s.bitmap < missing s ip bn := by
  rw [h.zero_iff, missing]
  by_cases h0 : slotRef s ip (place bn) = 0
  · simp [h0, hone]
  · simp [h0]

/-- `bmap` gives the address at the place of block `bn`, after it was filled if the
disk had room. -/
theorem wp_bmap (h : Growing sb s ip) (hE : MAXFILE ≤ bn → E .bmapOutOfRange)
    (hQ : ∀ s', Growing sb s' ip →
      Grow sb ip (· = NDIRECT) (fun l => l = NDIRECT ∨ l = place bn) s s' →
        (slotRef s' ip (place bn) = 0 ↔ freeBlocks sb s.bitmap < missing s ip bn) →
          Q (slotRef s' ip (place bn)) s') :
    wp (bmap sb ip bn) s Q E := by
  rw [bmap, wp_ite]
  split
  · next hd =>
    -- a direct block
    have hpl : place bn = (Fin.ofNat (NDIRECT + 1) bn).val := by
      rw [place, if_pos hd, Fin.val_ofNat, Nat.mod_eq_of_lt (by omega)]
    refine wp_addrOrAlloc h _ fun s' h' hg hf => ?_
    rw [← hpl] at hf hg ⊢
    exact hQ s' h' (hg.weaken (fun _ hl => hl.elim) fun _ hl => Or.inr hl)
      (hf.missing_iff (Or.inl hd))
  · next hd =>
    rw [wp_ite]
    split
    · next hn =>
      -- through the indirect block, which comes first
      have hpl : place bn = NDIRECT + 1 + (bn - NDIRECT) := by
        rw [place, if_neg hd]
        omega
      rw [wp_bind]
      refine wp_addrOrAlloc h indirect fun s₁ h₁ g₁ hf => ?_
      have f₁ : Filled sb ip NDIRECT s s₁ := hf
      have hind : slotRef s₁ ip indirect.val = (s₁.itable ip).dino.addrs indirect :=
        refAt_direct indirect
      have g₁' : Grow sb ip (· = NDIRECT) (fun l => l = NDIRECT ∨ l = place bn)
          s s₁ := g₁.weaken (fun _ hl => hl.elim) fun _ hl => Or.inl hl
      have hsame : slotRef s₁ ip (place bn) = slotRef s ip (place bn) :=
        g₁.only _ place_ne_indirect
      rw [wp_ite, hind]
      split
      · next h0 =>
        have hz : slotRef s₁ ip (place bn) = 0 := by
          rw [hpl]
          exact refAt_of_no_indirect (by omega) h0
        obtain ⟨hi, hfull⟩ := f₁.zero_iff.mp (hind.trans h0)
        have hres := hQ s₁ h₁ g₁' (by grind [missing])
        rw [hz] at hres
        exact hres
      · next h0 =>
        refine wp_entryOrAlloc h₁ h0 hn fun s₂ h₂ g₂ f₂ => ?_
        rw [← hpl] at g₂ f₂ ⊢
        refine hQ s₂ h₂ (g₁'.trans g₂) ?_
        have hboth (hi : slotRef s ip NDIRECT = 0) : slotRef s ip (place bn) = 0 := by
          rw [hpl]
          refine refAt_of_no_indirect (by omega) ?_
          rw [← hi, slotRef, refAt_indirect]
        have hz₁ := f₁.zero_iff
        have hfree₁ := f₁.free
        have hz₂ := f₂.zero_iff
        rw [missing]
        grind
    · next hn =>
      apply hE
      unfold MAXFILE
      omega

section Write

variable {l : ℕ} (h : Growing sb s ip) (hl : l ≠ NDIRECT)
include h hl

/-- The block at a place of the contents is nobody's indirect block. -/
lemma slot_ne_indirect {i : ℕ} (hi : Allocated sb (view s ip) i)
    (hind : (view s ip i).addrs indirect ≠ 0) : (view s ip i).addrs indirect ≠ slotRef s ip l := by
  have hne := Own.indirect_ne (l := l) h.own h.alloc hi hind (by simp [hl])
  rw [view_self] at hne
  exact Ne.symm hne

lemma slotRef_write (v : Block) (lg : List ℕ) (m : ℕ) :
    slotRef { s with data := update s.data (slotRef s ip l) v, logged := lg } ip m =
      slotRef s ip m := by
  refine refAt_congr rfl fun hind => ?_
  have hne : (view s ip (s.itable ip).inum).addrs indirect ≠ slotRef s ip l :=
    slot_ne_indirect h hl h.alloc (by rwa [view_self])
  rw [view_self] at hne
  exact update_of_ne hne ..

lemma growing_write (v : Block) (lg : List ℕ) :
    Growing sb { s with data := update s.data (slotRef s ip l) v, logged := lg } ip where
  own := h.own.write (fun _ hi hind => slot_ne_indirect h hl hi hind) v
  alloc := h.alloc

lemma grow_write (h0 : slotRef s ip l ≠ 0) (v : Block) {lg : List ℕ}
    (hlg : ∀ b ∈ lg, b = slotRef s ip l ∨ b ∈ s.logged) :
    Grow sb ip (· = l) (· = l) s
      { s with data := update s.data (slotRef s ip l) v, logged := lg } where
  dinode := rfl
  slots _ _ := rfl
  slot := ⟨_, rfl⟩
  mono m _ := slotRef_write h hl v lg m
  new m hm hm' := absurd ((slotRef_write h hl v lg m).trans hm) hm'
  only m _ := slotRef_write h hl v lg m
  bits _ hb := hb
  frame b _ hb := update_of_ne (Ne.symm (hb l rfl)) ..
  log b hb := by
    obtain rfl | hb := hlg b hb
    · exact Or.inr (Or.inr ⟨l, rfl, slotRef_write h hl v lg l, h0⟩)
    · exact Or.inl hb

end Write

/-- The places that a write of `n` bytes at `off` works on: the indirect block and
the blocks of that range. -/
def span (off n l : ℕ) : Prop :=
  l = NDIRECT ∨ ∃ bn, off / BSIZE ≤ bn ∧ bn * BSIZE < off + n ∧ l = place bn

end Xv6.Fs
