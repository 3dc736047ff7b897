import Xv6.InodeOps

/-!
# Writing to an inode

The loop of `writei` as a copy into a byte array: it writes block after block until all bytes
are there, the disk is full or the source ends, and changes no other byte of the file.
-/
namespace Xv6.Fs

open Function Bytes Prog

variable {sb : Superblock} {T : FileType → Prop} {s s₁ s₂ s' : State} {ip : Ip} {E : Panic → Prop}
  {src : ℕ → Option UInt8} {off n tot m : ℕ}

lemma Grow.contents_slot {L : ℕ → Prop} (g : Grow sb ip (· = NDIRECT) L s s₁)
    (h : Growing sb s ip) {bn : ℕ} (hbn : slotRef s ip (place bn) ≠ 0) :
    s₁.data (slotRef s₁ ip (place bn)) = s.data (slotRef s ip (place bn)) := by
  rw [g.mono _ hbn]
  refine g.frame _ (h.bit_of_slot hbn) ?_
  rintro l rfl
  exact Ne.symm (h.slot_ne hbn place_ne_indirect)

lemma copied_all (h : ∀ i < m, (src (tot + i)).isSome) : copied src tot m = m := by
  rw [copied, ← List.append_nil (List.range m),
    List.takeWhile_append_of_pos fun i hi => h i (List.mem_range.mp hi)]
  simp

lemma blit_zero (b : Block) (o : ℕ) (f : ℕ → UInt8) : blit b o 0 f = b := by
  funext j
  exact if_neg (by omega)

/-- The byte at offset `j` of the inode in slot `ip`. -/
def slotByte (s : State) (ip : Ip) (j : ℕ) : UInt8 := byteAt s.data (s.itable ip).dino j

/-- Of the `n` bytes of `src` for offset `off`, `tot` are written. -/
structure Wrote (sb : Superblock) (ip : Ip) (src : ℕ → Option UInt8) (off n tot : ℕ)
    (s s' : State) : Prop where
  growing : Growing sb s' ip
  grow : Grow sb ip (fun l => l = NDIRECT ∨ 0 < tot ∧ span off n l) (span off n) s s'
  le : tot ≤ n
  align : tot = 0 ∨ (off + tot) % BSIZE = 0 ∨ tot = n
  room : 0 < tot → missing s ip (off / BSIZE) ≤ freeBlocks sb s.bitmap
  mapped : ∀ j, off ≤ j → j < off + tot → slotRef s' ip (place (j / BSIZE)) ≠ 0
  bytes : ∀ j, slotRef s ip (place (j / BSIZE)) ≠ 0 ∨ off ≤ j ∧ j < off + tot →
    slotByte s' ip j = if off ≤ j ∧ j < off + tot then (src (j - off)).getD 0 else slotByte s ip j

namespace Wrote

lemma start (h : Growing sb s ip) : Wrote sb ip src off n 0 s s where
  growing := h
  grow := .refl
  le := Nat.zero_le n
  align := Or.inl rfl
  room h0 := absurd h0 (lt_irrefl 0)
  mapped j h₁ h₂ := by omega
  bytes j _ := by rw [if_neg (by omega)]

lemma span_next (htot : tot < n) : span off n (place ((off + tot) / BSIZE)) := by
  refine Or.inr ⟨_, Nat.div_le_div_right (Nat.le_add_right ..), ?_, rfl⟩
  have := Nat.div_mul_le_self (off + tot) BSIZE
  omega

lemma still_mapped (w : Wrote sb ip src off n tot s s₁) {j : ℕ}
    (hj : slotRef s ip (place (j / BSIZE)) ≠ 0 ∨ off ≤ j ∧ j < off + tot) :
    slotRef s₁ ip (place (j / BSIZE)) ≠ 0 := by
  obtain hj | ⟨h₁, h₂⟩ := hj
  · rwa [w.grow.mono _ hj]
  · exact w.mapped j h₁ h₂

/-- The block for the next bytes is found or added. -/
lemma bmap (w : Wrote sb ip src off n tot s s₁) (htot : tot < n) (h₂ : Growing sb s₂ ip)
    (g : Grow sb ip (· = NDIRECT) (fun l => l = NDIRECT ∨ l = place ((off + tot) / BSIZE)) s₁ s₂) :
    Wrote sb ip src off n tot s s₂ where
  growing := h₂
  grow := w.grow.trans (g.weaken (fun _ hl => Or.inl hl) fun l hl =>
    hl.elim Or.inl fun hl => hl ▸ span_next htot)
  le := w.le
  align := w.align
  room := w.room
  mapped j hj hj' := by
    rw [g.mono _ (w.mapped j hj hj')]
    exact w.mapped j hj hj'
  bytes j hj := by
    rw [← w.bytes j hj]
    exact congrArg (Bytes.get · _) (g.contents_slot w.growing (w.still_mapped hj))

/-- The next bytes are copied into their block. -/
lemma write (w : Wrote sb ip src off n tot s s₁) (htot : tot < n)
    (hm : m = min (n - tot) (BSIZE - (off + tot) % BSIZE))
    (hroom : tot = 0 → missing s ip (off / BSIZE) ≤ freeBlocks sb s.bitmap)
    (h0 : slotRef s₁ ip (place ((off + tot) / BSIZE)) ≠ 0) :
    Wrote sb ip src off n (tot + m) s { s₁ with
      data := update s₁.data (slotRef s₁ ip (place ((off + tot) / BSIZE)))
        (blit (s₁.data (slotRef s₁ ip (place ((off + tot) / BSIZE)))) ((off + tot) % BSIZE) m
          fun i => (src (tot + i)).getD 0)
      logged := slotRef s₁ ip (place ((off + tot) / BSIZE)) :: s₁.logged } := by
  have hmod : (off + tot) % BSIZE < BSIZE := Nat.mod_lt _ (by norm_num)
  have hfit : (off + tot) % BSIZE + m ≤ BSIZE := by omega
  have hpos : 0 < m := by omega
  refine ⟨growing_write w.growing place_ne_indirect _ _, ?_, by omega, ?_, fun _ => ?_,
    fun j hj hj' => ?_, fun j hj => ?_⟩
  · exact (w.grow.weaken (fun _ hl => hl.imp_right fun hl => ⟨by omega, hl.2⟩) fun _ hl => hl).trans
      ((grow_write w.growing place_ne_indirect h0 _ fun _ hb => List.mem_cons.mp hb).weaken
        (fun _ hl => Or.inr ⟨by omega, hl ▸ span_next htot⟩) fun _ hl => hl ▸ span_next htot)
  · clear hroom h0
    simp only [BSIZE] at *
    omega
  · exact tot.eq_zero_or_pos.elim hroom w.room
  · rw [slotRef_write w.growing place_ne_indirect]
    by_cases hlt : j < off + tot
    · exact w.mapped j hj hlt
    · rwa [show j / BSIZE = (off + tot) / BSIZE by simp only [BSIZE] at *; omega]
  · have hmod : j % BSIZE < BSIZE := Nat.mod_lt _ (by norm_num)
    change Bytes.get (update s₁.data _ _ (slotRef _ ip (place (j / BSIZE)))) _ = _
    rw [slotRef_write w.growing place_ne_indirect]
    by_cases hnew : off + tot ≤ j ∧ j < off + tot + m
    · have hblk : j / BSIZE = (off + tot) / BSIZE := by
        simp only [BSIZE] at *
        omega
      have hin : (off + tot) % BSIZE ≤ j % BSIZE ∧ j % BSIZE < (off + tot) % BSIZE + m := by
        simp only [BSIZE] at *
        omega
      have hsrc : tot + (j % BSIZE - (off + tot) % BSIZE) = j - off := by
        simp only [BSIZE] at *
        omega
      rw [hblk, update_self, get_blit _ _ _ _ _ hmod, if_pos hin, if_pos (by omega), hsrc]
    · have hold : slotRef s ip (place (j / BSIZE)) ≠ 0 ∨ off ≤ j ∧ j < off + tot :=
        hj.imp_right fun _ => by omega
      have hs : slotByte s₁ ip j = _ := w.bytes j hold
      rw [← if_congr (by omega : off ≤ j ∧ j < off + tot ↔ off ≤ j ∧ j < off + (tot + m)) rfl rfl, ← hs]
      by_cases hblk : j / BSIZE = (off + tot) / BSIZE
      · rw [hblk, update_self, get_blit _ _ _ _ _ hmod, if_neg, ← hblk]
        · rfl
        · simp only [BSIZE] at *
          omega
      · rw [update_of_ne (w.growing.slot_ne (w.still_mapped hold) fun he => hblk (place_inj he))]
        rfl

end Wrote

/-- Of the bytes for one block, all can be read or none. -/
def Whole (src : ℕ → Option UInt8) (off n : ℕ) : Prop :=
  ∀ t m, t + m ≤ n → (t = 0 ∨ (off + t) % BSIZE = 0) → (off + t) % BSIZE + m ≤ BSIZE →
    copied src t m = m ∨ copied src t m = 0

/-- Why the loop of `writei` stops after `tot` bytes: all are written, one cannot be read, or the
disk has no block for the next one. -/
inductive Stopped (sb : Superblock) (ip : Ip) (src : ℕ → Option UInt8) (off n tot : ℕ)
    (s s' : State) : Prop
  | done (h : tot = n)
  | fault (i : ℕ) (hi : i < n) (h : src i = none)
  | full (s₁ : State) (w : Wrote sb ip src off n tot s s₁) (hstart : tot = 0 → s₁ = s)
      (h : freeBlocks sb s₁.bitmap < missing s₁ ip ((off + tot) / BSIZE))
      (h0 : slotRef s' ip (place ((off + tot) / BSIZE)) = 0)

lemma wp_writeLoop (hsrc : Whole src off n) (hmax : off + n ≤ MAXFILE * BSIZE) (fuel : ℕ)
    (w : Wrote sb ip src off n tot s s₁) (hfuel : n - tot ≤ fuel) (hstart : tot = 0 → s₁ = s) :
    wp (writeLoop sb ip src fuel (off + tot) (n - tot) tot) s₁ (fun r s' => r.1 = off + r.2 ∧
      Wrote sb ip src off n r.2 s s' ∧ Stopped sb ip src off n r.2 s s') E := by
  induction fuel generalizing tot s₁ with
  | zero => exact ⟨rfl, w, .done (le_antisymm w.le (by omega))⟩
  | succ fuel ih =>
    rw [writeLoop, wp_ite]
    split
    · exact ⟨rfl, w, .done (le_antisymm w.le (by omega))⟩
    · next hn =>
      have hlt : tot < n := by omega
      have hrange : ¬ MAXFILE ≤ (off + tot) / BSIZE := by
        simp only [MAXFILE, NDIRECT, NINDIRECT, BSIZE] at *
        omega
      rw [wp_bind]
      refine wp_bmap w.growing (fun hout => absurd hout hrange) fun s₂ h₂ g hfull => ?_
      have w₂ := w.bmap hlt h₂ g
      rw [wp_ite]
      split
      · next h0 => exact ⟨rfl, w₂, .full s₁ w hstart (hfull.mp h0) h0⟩
      · next h0 =>
        set m := min (n - tot) (BSIZE - (off + tot) % BSIZE) with hm
        have hmod := Nat.mod_lt (off + tot) (show 0 < BSIZE by norm_num)
        have hcopy := hsrc tot m (by omega) (by have := w.align; omega) (by omega)
        simp only [wp_bind, wp_get, wp_setData, wp_ite]
        split
        · next hshort =>
          -- nothing was copied into the block
          rw [hcopy.resolve_left hshort.ne, blit_zero, update_eq_self, wp_pure]
          obtain ⟨i, hi, hnone⟩ : ∃ i < m, src (tot + i) = none := by
            by_contra hsome
            push Not at hsome
            exact hshort.ne (copied_all fun i hi => Option.isSome_iff_ne_none.mpr (hsome i hi))
          exact ⟨rfl, w₂, .fault _ (by omega) hnone⟩
        · next hall =>
          rw [show copied src tot m = m by omega, wp_logWrite, Nat.add_assoc, Nat.sub_sub]
          have hroom (h : tot = 0) : missing s ip (off / BSIZE) ≤ freeBlocks sb s.bitmap := by
            rw [← hstart h]
            rw [h] at hfull
            exact not_lt.mp fun hc => h0 (by rw [h]; exact hfull.mpr hc)
          exact ih (w₂.write hlt hm hroom h0) (by omega) (by omega)

/-- What `writei` refuses. -/
def Refused (s : State) (ip : Ip) (off n : ℕ) : Prop :=
  (s.itable ip).dino.size < off ∨ 2 ^ 32 ≤ off + n ∨ MAXFILE * BSIZE < off + n

/-- The inode was written back with a size of at least `e`. -/
def State.sized (sb : Superblock) (s : State) (ip : Ip) (e : ℕ) : State :=
  s.commitInode sb ip { (s.itable ip).dino with size := max (s.itable ip).dino.size e }

lemma wp_writei {Q : Option ℕ → State → Prop} (h : Growing sb s ip) (hsrc : Whole src off n)
    (hnone : Refused s ip off n → Q none s)
    (hsome : ∀ tot s₁, ¬ Refused s ip off n → Wrote sb ip src off n tot s s₁ →
      Stopped sb ip src off n tot s s₁ → Q (some tot) (s₁.sized sb ip (off + tot))) :
    wp (writei sb ip src off n) s Q E := by
  rw [writei, wp_bind, wp_inode, wp_ite]
  split
  · next hoff => exact hnone (by unfold Refused; omega)
  · next hoff =>
    rw [wp_ite]
    split
    · next hmax => exact hnone (by unfold Refused; omega)
    · next hmax =>
      rw [wp_bind]
      refine wp_call (wp_writeLoop hsrc (by omega) n (.start h) (by omega) fun _ => rfl) ?_
      rintro ⟨e, tot⟩ s₁ ⟨he, w, hstop⟩
      obtain rfl : e = off + tot := he
      simp only [wp_bind, wp_writeBack, wp_pure]
      exact hsome tot s₁ (by unfold Refused; omega) w hstop

lemma Inv.slotRef_ne_zero (h : FsInv sb T s) (hr : Ready s ip) (ht : T (s.itable ip).dino.type)
    {bn : ℕ} (hbn : bn * BSIZE < (s.itable ip).dino.size) : slotRef s ip (place bn) ≠ 0 := by
  obtain ⟨hd, -⟩ := h.coh ip hr
  rw [slotRef, hd]
  exact h.noHole _ (h.allocated hr) (hd ▸ ht) bn (hd ▸ hbn)

/-- A write at most at the end leaves no hole. -/
lemma Wrote.no_hole (h : FsInv sb T s) (hr : Ready s ip) (ht : T (s.itable ip).dino.type)
    (w : Wrote sb ip src off n tot s s₁) (hoff : off ≤ (s.itable ip).dino.size) (bn : ℕ)
    (hbn : bn * BSIZE < max (s₁.itable ip).dino.size (off + tot)) : slotRef s₁ ip (place bn) ≠ 0 := by
  obtain ⟨-, -, -, -, -, -, hsz⟩ := w.grow.slot_fields
  rw [hsz] at hbn
  by_cases hlt : bn * BSIZE < (s.itable ip).dino.size
  · have hold := h.slotRef_ne_zero hr ht hlt
    rwa [w.grow.mono _ hold]
  · have hm := w.mapped (bn * BSIZE) (by omega) (by omega)
    rwa [Nat.mul_div_cancel _ (by norm_num)] at hm

lemma Wrote.touched {c : ℕ} (hT : T .dir) (h : FsInv sb T s) (hr : Ready s ip)
    (w : Wrote sb ip src off n tot s s₁)
    (hc : 1 + ((off + n + (BSIZE - 1)) / BSIZE - off / BSIZE) ≤ c)
    (hoff : off ≤ (s.itable ip).dino.size)
    (hent : (s.itable ip).dino.type = .dir → ∀ k,
      DIRENT * k < max (s.itable ip).dino.size (off + tot) →
      (direntAt s₁.data (s₁.itable ip).dino k).inum < sb.ninodes) :
    Touched sb T ip (node s₁.data { (s₁.itable ip).dino with
      size := max (s₁.itable ip).dino.size (off + tot) }) c s (s₁.sized sb ip (off + tot)) := by
  obtain ⟨-, -, -, -, hty, -, hsz⟩ := w.grow.slot_fields
  refine .of_grow hT h hr w.growing w.grow hty rfl (fun ht => w.no_hole h hr (hty ▸ ht) hoff)
    (fun hdir k hk => ?_) (LogsOnly.mono (.of_grow w.grow) (fun _ hi => hi) hc)
  rw [hsz] at hk
  exact hent (hty ▸ hdir) k hk

end Xv6.Fs
