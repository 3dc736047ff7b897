import Xv6.DirMap
import Xv6.Sysfile

/-!
# Files as byte arrays

`writei` puts bytes over the contents of an inode and `readi` returns a part of them. A call of
`filewrite` does the same in pieces, one for each transaction.
-/
namespace Xv6.Fs

open Function Prog

variable {sb : Superblock} {T : FileType → Prop} {s s₁ s' : State} {ip : Ip} {E : Panic → Prop}
  {src : ℕ → Option UInt8} {off n tot i j : ℕ} {c : List UInt8}

/-- The bytes of inode `i`. -/
def contents (s : State) (i : ℕ) : List UInt8 := bytesAt s.data (s.dinode i) 0 (s.dinode i).size

/-- `new` over `old` from `off` on. -/
def splice (old new : List UInt8) (off : ℕ) : List UInt8 :=
  old.take off ++ new ++ old.drop (off + new.length)

/-- Every block has one owner, and no inode has a hole. -/
structure Sound (sb : Superblock) (s : State) : Prop where
  own : Own sb s.bitmap s.dinode s.data
  noHole : ∀ i, Allocated sb s.dinode i → ∀ bn, bn * BSIZE < (s.dinode i).size →
    blockAt s.data (s.dinode i) bn ≠ 0

lemma length_contents : (contents s i).length = (s.dinode i).size := by simp [contents, bytesAt]

lemma splice_nil : splice c [] off = c := by simp [splice]

lemma length_splice (hoff : off ≤ c.length) (new : List UInt8) :
    (splice c new off).length = max c.length (off + new.length) := by
  simp only [splice, List.length_append, List.length_take, List.length_drop]
  omega

lemma splice_splice (hoff : off ≤ c.length) (a b : List UInt8) :
    splice (splice c a off) b (off + a.length) = splice c (a ++ b) off := by
  have hlen : (c.take off ++ a).length = off + a.length := by simp [hoff]
  rw [splice, splice, List.take_append_of_le_length hlen.ge, List.take_of_length_le hlen.le,
    List.drop_append, List.drop_of_length_le (by omega), hlen, List.drop_drop, Nat.add_sub_cancel_left]
  simp [splice, Nat.add_assoc]

lemma contents_congr (h : Same j s s')
    (hmap : ∀ bn, bn * BSIZE < (s.dinode j).size → blockAt s.data (s.dinode j) bn ≠ 0) :
    contents s' j = contents s j := by
  rw [contents, contents, h.dinode]
  refine List.map_congr_left fun k hk => ?_
  have hk : k < (s.dinode j).size := List.mem_range.mp hk
  have h0 := hmap (k / BSIZE) (lt_of_le_of_lt (Nat.div_mul_le_self ..) hk)
  have href := h.refAt (place (k / BSIZE))
  rw [h.dinode] at href
  simp only [byteAt, Nat.zero_add, blockAt] at h0 ⊢
  rw [href, h.data _ h0]

/-- A write puts the bytes over the contents. -/
lemma Wrote.contents_eq (h : FsInv sb T s) (hr : Ready s ip) (ht : T (s.itable ip).dino.type)
    (w : Wrote sb ip src off n tot s s₁) (hoff : off ≤ (s.itable ip).dino.size) :
    contents (s₁.sized sb ip (off + tot)) (s.itable ip).inum =
      splice (contents s (s.itable ip).inum) ((List.range tot).map fun k => (src k).getD 0) off := by
  obtain ⟨hinum, -, -, -, -, -, hsz⟩ := w.grow.slot_fields
  have hself : (s₁.sized sb ip (off + tot)).dinode (s.itable ip).inum =
      { (s₁.itable ip).dino with size := max (s.itable ip).dino.size (off + tot) } := by
    rw [← hinum, ← hsz]
    exact update_self ..
  have hold : contents s (s.itable ip).inum =
      bytesAt s.data (s.itable ip).dino 0 (s.itable ip).dino.size := by
    rw [contents, (h.coh ip hr).1]
  have hbyte (k : ℕ) (hk : k < max (s.itable ip).dino.size (off + tot)) :
      slotByte s₁ ip k = if off ≤ k ∧ k < off + tot then (src (k - off)).getD 0 else slotByte s ip k := by
    refine w.bytes k ?_
    by_cases hlt : k < (s.itable ip).dino.size
    · exact .inl (h.slotRef_ne_zero hr ht (lt_of_le_of_lt (Nat.div_mul_le_self ..) hlt))
    · exact .inr (by omega)
  have hlen : (contents (s₁.sized sb ip (off + tot)) (s.itable ip).inum).length =
      max (s.itable ip).dino.size (off + tot) := by
    rw [length_contents, hself]
  rw [hold]
  refine List.ext_getElem ?_ fun k hk hk' => ?_
  · rw [hlen, length_splice (by simpa [bytesAt] using hoff)]
    simp [bytesAt]
  · rw [hlen] at hk
    have hget : (contents (s₁.sized sb ip (off + tot)) (s.itable ip).inum)[k] = slotByte s₁ ip k := by
      simp only [contents, hself, bytesAt, List.getElem_map, List.getElem_range, Nat.zero_add]
      rfl
    rw [hget, hbyte k hk]
    simp only [splice, bytesAt, List.getElem_append, List.getElem_take, List.getElem_drop,
      List.getElem_map, List.getElem_range, List.length_append, List.length_take, List.length_map,
      List.length_range, Nat.zero_add]
    grind [slotByte]

/-- Slot `ip` is in use for file `i`, which holds `c`. -/
structure FileAt (sb : Superblock) (ip : Ip) (i : ℕ) (c : List UInt8) (s : State) : Prop where
  inv : FsInv sb (fun _ => True) s
  live : 0 < (s.itable ip).ref
  unlocked : (s.itable ip).locked = false
  inum : (s.itable ip).inum = i
  type : (s.dinode i).type ≠ .free ∧ (s.dinode i).type ≠ .dir
  contents : Fs.contents s i = c

lemma wp_filewriteChunk (h : FileAt sb ip i c s) (hsrc : ∀ k, (src k).isSome) (off n : ℕ) :
    wp (filewriteChunk sb ip src off n) s (fun r s' => r.getD 0 ≤ n ∧
      FileAt sb ip i (splice c ((List.range (r.getD 0)).map fun k => (src k).getD 0) off) s' ∧
      (r ≠ none → off ≤ c.length)) fun _ => False := by
  obtain ⟨hinv, hlive, hunlocked, rfl, ⟨hfree, hdir⟩, rfl⟩ := h
  have hbegun : FsInv sb (fun _ => True) { s with logged := [] } :=
    { hinv with coh := fun jp hr => hinv.coh jp ⟨hr.live, hr.valid⟩ }
  simp only [filewriteChunk, wp_bind, wp_beginOp]
  refine wp_ilock_of hbegun hlive.ne' (fun hl => Bool.false_ne_true (hunlocked.symm.trans hl))
    (fun _ ht => hfree ht) fun _ hlock hr => ?_
  set t : State := State.lockSlot { s with logged := [] } ip with ht
  have hslot : t.itable ip = { s.itable ip with
      locked := true, valid := true, dino := s.dinode (s.itable ip).inum } := setSlot_self
  refine wp_writei (hlock.growing hr) (fun _ _ _ _ _ => .inl (copied_all fun _ _ => hsrc _))
    (fun _ => ?_) fun tot s₁ href w _ => ?_
  · refine wp_iunlock_of hlock (fun hc => by simp [hslot] at hc; omega) fun hun _ => ?_
    rw [wp_endOp, wp_pure]
    refine ⟨Nat.zero_le n, ⟨hun, ?_, ?_, ?_, ⟨hfree, hdir⟩, splice_nil.symm⟩, fun hc => absurd rfl hc⟩
    all_goals simp [State.unlockSlot, hslot, hlive]
  · have hoff : off ≤ (t.itable ip).dino.size := not_lt.mp fun hc => href (Or.inl hc)
    have hcont := w.contents_eq hlock hr trivial hoff
    have htouch := w.touched trivial hlock hr le_rfl hoff fun hd => by
      rw [hslot] at hd
      exact absurd hd hdir
    obtain ⟨hinum, href', -, hlocked⟩ := htouch.fields ip
    obtain ⟨hinum₁, -, -, -, hty, -⟩ := w.grow.slot_fields
    rw [hslot] at hcont hinum href' hlocked hoff hinum₁ hty
    refine wp_iunlock_of htouch.inv (fun hc => by simp [hlocked, href'] at hc; omega) fun hun _ => ?_
    have hself : (s₁.sized sb ip (off + tot)).dinode (s.itable ip).inum =
        { (s₁.itable ip).dino with size := max (s₁.itable ip).dino.size (off + tot) } := by
      rw [← hinum₁]
      exact update_self ..
    rw [wp_endOp, wp_pure]
    refine ⟨w.le, ⟨hun, ?_, ?_, ?_, ?_, hcont⟩, fun _ => by rwa [length_contents]⟩
    · simp [State.unlockSlot, href', hlive]
    · simp [State.unlockSlot]
    · simp [State.unlockSlot, hinum]
    · rw [State.unlockSlot, setSlot_dinode, hself]
      simpa [hty] using ⟨hfree, hdir⟩

/-- The first `n` bytes of a source. -/
def firstBytes (src : ℕ → Option UInt8) (n : ℕ) : List UInt8 :=
  (List.range n).map fun k => (src k).getD 0

lemma firstBytes_add (m : ℕ) : firstBytes src (n + m) =
    firstBytes src n ++ firstBytes (fun k => src (n + k)) m := by
  rw [firstBytes, List.range_add, List.map_append, List.map_map]
  rfl

lemma length_firstBytes : (firstBytes src n).length = n := by simp [firstBytes]

/-- After `m` bytes of a call of `filewrite`. -/
lemma wp_filewriteLoop {f : Fp} {m : ℕ} (hsrc : ∀ k, (src k).isSome) (fuel : ℕ) {k : Kernel}
    (h : FileAt sb (k.ftable f).ip i (splice c (firstBytes src m) off) k.fs)
    (hoff : (k.ftable f).off = off + m) (hm : 0 < m → off ≤ c.length) (hmn : m ≤ n) :
    wp (filewriteLoop sb f src n fuel m) k (fun r k' => r = n →
      FileAt sb (k'.ftable f).ip i (splice c (firstBytes src n) off) k'.fs ∧
        (k'.ftable f).off = off + n) fun _ => False := by
  induction fuel generalizing m k with
  | zero =>
    rintro rfl
    exact ⟨h, hoff⟩
  | succ fuel ih =>
    rw [filewriteLoop, wp_ite]
    split
    · rintro rfl
      exact ⟨h, hoff⟩
    · next hlt =>
      simp only [wp_bind, wp_get, onFs, wp_zoom]
      refine wp_call (wp_filewriteChunk h (fun k => hsrc (m + k)) _ _) ?_
      rintro r s' ⟨-, h', hle⟩
      simp only [modifyFile, wp_modify, wp_ite]
      split
      · next hr =>
        subst hr
        have hc : off ≤ c.length := by
          by_cases hm0 : m = 0
          · have := hle (by simp)
            rw [hoff, hm0] at this
            simpa [firstBytes, splice] using this
          · exact hm (by omega)
        have hs := splice_splice hc (firstBytes src m)
          (firstBytes (fun k => src (m + k)) (min (n - m) filewriteMax))
        rw [length_firstBytes, ← firstBytes_add, ← hoff] at hs
        refine ih ?_ (by simp [hoff, Nat.add_assoc]) (fun _ => hc) (by omega)
        simp only [update_self]
        rw [← hs]
        exact h'
      · exact fun hr => absurd hr (by omega)

lemma drop_bytesAt {data : ℕ → Block} {d : Dinode} (hoff : off ≤ n) :
    (bytesAt data d 0 n).drop off = bytesAt data d off (n - off) := by
  obtain ⟨m, rfl⟩ := Nat.exists_eq_add_of_le hoff
  rw [bytesAt_add, List.drop_left' (by simp [bytesAt]), Nat.zero_add, Nat.add_sub_cancel_left]

lemma take_bytesAt {data : ℕ → Block} {d : Dinode} {m : ℕ} :
    (bytesAt data d off m).take n = bytesAt data d off (min n m) := by
  rw [bytesAt, ← List.map_take, List.take_range, bytesAt]

/-- `readi` and `writei` on any inode of a sound file system, and `filewrite` on a file. -/
theorem inode_is_byte_array (sb : Superblock) (s : State) (ip : Ip) (off n : ℕ) (src : ℕ → UInt8)
    (h : FsInv sb (fun _ => True) s) (hr : Ready s ip) :
    (∃ r s', (writei sb ip (fun k => some (src k)) off n).run s = .ok (r, s') ∧
      (r = none ↔ Refused s ip off n) ∧ (r = none → s' = s) ∧
      ∀ tot, r = some tot → tot ≤ n ∧
        (tot < n → ∃ s₁, Wrote sb ip (fun k => some (src k)) off n tot s s₁ ∧
          freeBlocks sb s₁.bitmap < missing s₁ ip ((off + tot) / BSIZE)) ∧
        contents s' (s.itable ip).inum =
          splice (contents s (s.itable ip).inum) ((List.range tot).map src) off ∧
        Sound sb s' ∧ ∀ j, Allocated sb s.dinode j → j ≠ (s.itable ip).inum →
          s'.dinode j = s.dinode j ∧ contents s' j = contents s j) ∧
    (readi sb ip (fun _ => true) off n).run s = .ok (some (if 2 ^ 32 ≤ off + n then []
      else ((contents s (s.itable ip).inum).drop off).take n), s) ∧
    ∀ (k : Kernel) (f : Fp) (i : ℕ) (c : List UInt8), FileAt sb (k.ftable f).ip i c k.fs →
      (k.ftable f).type = .inode → (k.ftable f).writable = true →
      ∃ r k', (filewrite sb f (fun k => some (src k)) n none).run k = .ok (r, k') ∧
        (r = n → contents k'.fs i = splice c ((List.range n).map src) (k.ftable f).off ∧
          (k'.ftable f).off = (k.ftable f).off + n) := by
  have hmap : ∀ bn, bn * BSIZE < (s.itable ip).dino.size → slotRef s ip (place bn) ≠ 0 :=
    fun bn hbn => h.slotRef_ne_zero hr trivial hbn
  refine ⟨exists_run_of_wp (wp_writei (h.growing hr)
    (fun _ _ _ _ _ => .inl (copied_all fun _ _ => rfl)) ?_ ?_), ?_, ?_⟩
  · exact fun href => ⟨⟨fun _ => href, fun _ => rfl⟩, fun _ => rfl, nofun⟩
  · intro tot s₁ href w hstop
    have hoff : off ≤ (s.itable ip).dino.size := not_lt.mp fun hc => href (Or.inl hc)
    refine ⟨⟨nofun, fun hc => absurd hc href⟩, nofun, ?_⟩
    rintro _ ⟨⟩
    refine ⟨w.le, fun hlt => ?_, w.contents_eq h hr trivial hoff, ⟨?_, ?_⟩, fun j hj hne => ?_⟩
    · obtain hd | ⟨_, _, hc⟩ | ⟨s₂, w₂, -, hfree, -⟩ := hstop
      · omega
      · cases hc
      · exact ⟨s₂, w₂, hfree⟩
    · exact w.grow.own_commit w.growing w.grow.slot_fields.2.2.2.2.1 rfl
    · exact fun j hj => w.grow.noHole_commit h hr (by exact w.grow.slot_fields.2.2.2.2.1)
        (fun _ => w.no_hole h hr trivial hoff) j hj trivial
    · have hsame : Same j s (s₁.sized sb ip (off + tot)) := w.grow.same h hr hj hne
      exact ⟨hsame.dinode, contents_congr hsame fun bn => h.noHole j hj trivial bn⟩
  · obtain ⟨r, hrun, hin, hout⟩ := @run_readi sb s ip off n (fun _ => true) hmap
    rw [hrun, contents, ← (h.coh ip hr).1]
    split_ifs with hbig
    · rw [hout (.inr hbig)]
    · by_cases hlt : (s.itable ip).dino.size < off
      · rw [hout (.inl hlt), List.drop_of_length_le (by simp [bytesAt, hlt.le]), List.take_nil]
      · rw [hin (by omega) (by omega) fun _ => rfl, drop_bytesAt (by omega), take_bytesAt]
  · intro k f i c hf hty hw
    apply exists_run_of_wp
    rw [filewrite, wp_bind, wp_get, wp_ite, if_neg (by simp [hw]), hty]
    dsimp only
    rw [wp_bind]
    have hstart : FileAt sb (k.ftable f).ip i
        (splice c (firstBytes (fun k => some (src k)) 0) (k.ftable f).off) k.fs := by
      rwa [show firstBytes _ 0 = [] from rfl, splice_nil]
    refine wp_call (wp_filewriteLoop (fun _ => rfl) _ hstart rfl (by omega) (Nat.zero_le _)) ?_
    intro m k' hm hr
    obtain rfl : m = n := by
      split_ifs at hr
      omega
    exact ⟨(hm rfl).1.contents, (hm rfl).2⟩

/-- The root directory, and an empty file as inode 2. -/
def notePlan (i : ℕ) : Planned :=
  if i = 2 then { type := .file, major := 0, nlink := 1, entries := [] } else rootPlan rootEntries i

lemma one_lt_ninode : 1 < NINODE := by decide

/-- The file is open for writing. -/
def noteKernel : Kernel where
  fs := plain notePlan (firstSlots notePlan 2)
  ftable _ := ⟨.inode, 1, true, true, ⟨1, one_lt_ninode⟩, 0, 0⟩
  proc _ := none

lemma noteKernel_inv : FsInv plainSb T noteKernel.fs := by
  have hroot : PlanOk (rootPlan rootEntries) := planOk_root (by decide) (by decide)
  refine plain_inv ⟨fun i => ?_, fun i => ?_⟩ (tableOk_firstSlots (by decide))
  · unfold notePlan
    split
    exacts [Nat.zero_le _, hroot.length i]
  · unfold notePlan
    split
    exacts [fun _ h => absurd h List.not_mem_nil, hroot.inums i]

theorem inode_is_byte_array_note : ∃ r k',
    (filewrite plainSb 0 (fun _ => some 7) 3 none).run noteKernel = .ok (r, k') ∧
      (r = 3 → contents k'.fs 2 = [7, 7, 7] ∧ (k'.ftable 0).off = 3) :=
  (inode_is_byte_array plainSb noteKernel.fs rootSlot 0 3 (fun _ => 7) noteKernel_inv
    ⟨by decide, rfl⟩).2.2 noteKernel 0 2 []
    ⟨noteKernel_inv, by decide, rfl, rfl, ⟨by decide, by decide⟩, rfl⟩ rfl rfl

end Xv6.Fs
