import Xv6.LogDisk

/-!
# Crash atomicity of commit and recovery

The block writes of `commit` are listed explicitly: the log blocks, the header,
the home blocks, and the header again. A crash keeps a prefix of that list, and
two properties of a disk survive everything that can follow. `Clean` disks have
an empty log and fixed home contents, `Committed` disks have the whole
transaction in the log, whatever part of it is installed. Recovery keeps the
first and turns the second into the first.
-/
namespace Xv6.Log
open Bytes

lemma fillBlocks_word_lt (lh : LogHeader) (k o : ℕ) (hb : Block) (ho : o + 4 ≤ 4) :
    word (fillBlocks lh k hb) o = word hb o := by
  induction k with
  | zero => rfl
  | succ k ih => rw [fillBlocks, word_setWord_of_disjoint _ _ _ _ (by omega), ih]

lemma headerBlock_fillBlocks (lh : LogHeader) (k i : ℕ) (hb : Block) (hk : k ≤ LOGBLOCKS)
    (hi : i < k) : headerBlock (fillBlocks lh k hb) i = lh.block i := by
  induction k with
  | zero => omega
  | succ k ih =>
    unfold headerBlock at *
    by_cases he : i = k
    · subst he
      exact word_setWord_self _ _ _ (by unfold BSIZE LOGBLOCKS MAXOPBLOCKS at *; omega)
    · rw [fillBlocks, word_setWord_of_disjoint _ _ _ _ (by omega)]
      exact ih (by omega) (by omega)

lemma headerN_putHeader (lh : LogHeader) (hb : Block) : headerN (putHeader lh hb) = lh.n := by
  unfold headerN putHeader
  rw [fillBlocks_word_lt _ _ _ _ le_rfl, word_setWord_self _ _ _ (by decide)]
  rfl

lemma headerBlock_putHeader (lh : LogHeader) (hb : Block) (hfit : lh.count ≤ LOGBLOCKS) (i : ℕ)
    (hi : i < lh.count) : headerBlock (putHeader lh hb) i = lh.block i :=
  headerBlock_fillBlocks lh lh.count i _ hfit hi

/-- The block writes of `write_log`: log block `tail` receives what is cached
for home block `tail`. -/
def logWrites (start : ℕ) (lh : LogHeader) (new : Disk) : List (ℕ × Block) :=
  (List.range lh.count).map fun tail => (start + tail + 1, new (lh.home tail))

/-- The block writes of `install_trans`: home block `tail` receives log block
`tail`. -/
def homeWrites (lh : LogHeader) (logged : ℕ → Block) : List (ℕ × Block) :=
  (List.range lh.count).map fun tail => (lh.home tail, logged tail)

@[simp] lemma bwrite_lh (b : ℕ) (s : LogState) : (bwrite b s).lh = s.lh := rfl

@[simp] lemma memmove_lh (dst src : ℕ) (s : LogState) : (memmove dst src s).lh = s.lh := rfl

@[simp] lemma writeHead_lh (start : ℕ) (s : LogState) : (writeHead start s).lh = s.lh := rfl

@[simp] lemma clearCount_cache (s : LogState) : (clearCount s).cache = s.cache := rfl

@[simp] lemma clearCount_bwrites (s : LogState) : (clearCount s).bwrites = s.bwrites := rfl

@[simp] lemma clearCount_disk (s : LogState) : (clearCount s).disk = s.disk := rfl

@[simp] lemma writeLogLoop_lh (start k : ℕ) (s : LogState) :
    (writeLogLoop start k s).lh = s.lh := by
  induction k with
  | zero => rfl
  | succ k ih => simp [writeLogLoop, ih]

@[simp] lemma installTransLoop_lh (start k : ℕ) (s : LogState) :
    (installTransLoop start k s).lh = s.lh := by
  induction k with
  | zero => rfl
  | succ k ih => simp [installTransLoop, ih]

/-- After `k` iterations of `write_log` the first `k` log blocks hold the cached
home blocks and no other cached block has changed. -/
lemma writeLogLoop_spec (start : ℕ) (s : LogState) (hgood : GoodTransaction start s.lh) (k : ℕ)
    (hk : k ≤ s.lh.count) :
    (writeLogLoop start k s).bwrites = s.bwrites ++
        (List.range k).map (fun tail => (start + tail + 1, s.cache (s.lh.home tail))) ∧
      (∀ tail, tail < k → (writeLogLoop start k s).cache (start + tail + 1) =
        s.cache (s.lh.home tail)) ∧
      ∀ b, (b ≤ start ∨ start + k < b) → (writeLogLoop start k s).cache b = s.cache b := by
  induction k with
  | zero => simp [writeLogLoop]
  | succ k ih =>
    obtain ⟨hw, hlog, hother⟩ := ih (by omega)
    have hout := hgood.outside k (by omega)
    have hfit := hgood.fits
    have hnew : (writeLogLoop start k s).cache (s.lh.home k) = s.cache (s.lh.home k) :=
      hother _ (by omega)
    refine ⟨?_, ?_, ?_⟩
    · simp [writeLogLoop, bwrite, memmove, hw, hnew, List.range_succ]
    · intro tail ht
      by_cases he : tail = k
      · subst he
        simp [writeLogLoop, bwrite, memmove, hnew]
      · have hne : start + tail + 1 ≠ start + k + 1 := by omega
        simpa [writeLogLoop, bwrite, memmove, Function.update_of_ne hne] using hlog tail (by omega)
    · intro b hb
      have hne : b ≠ start + k + 1 := by omega
      simpa [writeLogLoop, bwrite, memmove, Function.update_of_ne hne] using hother b (by omega)

/-- After `k` iterations of `install_trans` the first `k` home blocks have been
written with the log blocks, which are still what they were. -/
lemma installTransLoop_spec (start : ℕ) (s : LogState) (hgood : GoodTransaction start s.lh) (k : ℕ)
    (hk : k ≤ s.lh.count) :
    (installTransLoop start k s).bwrites = s.bwrites ++
        (List.range k).map (fun tail => (s.lh.home tail, s.cache (start + tail + 1))) ∧
      ∀ b, start ≤ b → b ≤ start + LOGBLOCKS → (installTransLoop start k s).cache b = s.cache b := by
  induction k with
  | zero => simp [installTransLoop]
  | succ k ih =>
    obtain ⟨hw, hlog⟩ := ih (by omega)
    have hout := hgood.outside k (by omega)
    have hfit := hgood.fits
    have hsrc : (installTransLoop start k s).cache (start + k + 1) = s.cache (start + k + 1) :=
      hlog _ (by omega) (by omega)
    refine ⟨?_, ?_⟩
    · simp [installTransLoop, bwrite, memmove, hw, hsrc, List.range_succ]
    · intro b hlo hhi
      have hne : b ≠ s.lh.home k := by omega
      simpa [installTransLoop, bwrite, memmove, Function.update_of_ne hne] using hlog b hlo hhi

/-- The disk is what the traced writes made of the disk at the start. -/
def Traced (d : Disk) (s : LogState) : Prop := s.disk = WriteTrace.apply s.bwrites d

lemma traced_bwrite {d : Disk} {s : LogState} (h : Traced d s) (b : ℕ) : Traced d (bwrite b s) := by
  unfold Traced at *
  simp [bwrite, WriteTrace.apply_append, h]

lemma traced_installTransLoop {d : Disk} {s : LogState} (start k : ℕ) (h : Traced d s) :
    Traced d (installTransLoop start k s) := by
  induction k with
  | zero => exact h
  | succ k ih => exact traced_bwrite (s := memmove _ _ _) ih _

/-- The disk after a completed recovery is the result of all its block writes. -/
lemma recoverFromLog_disk (start : ℕ) (d : Disk) :
    (recoverFromLog start (reboot d)).disk =
      WriteTrace.apply (recoverFromLog start (reboot d)).bwrites d := by
  have h : Traced d (readHead start (reboot d)) := rfl
  exact traced_bwrite (s := { clearCount (installTrans start (readHead start (reboot d))) with
    cache := _ }) (traced_installTransLoop start _ h) start

/-- All block writes of `commit`, in program order. -/
lemma commit_bwrites (start : ℕ) (s : LogState) (hgood : GoodTransaction start s.lh)
    (hpos : 0 < s.lh.n) (hnil : s.bwrites = []) :
    ∃ hb, (commit start s).bwrites = logWrites start s.lh s.cache ++
      [(start, putHeader s.lh (s.cache start))] ++
      homeWrites s.lh (fun tail => s.cache (s.lh.home tail)) ++
      [(start, putHeader { s.lh with n := 0 } hb)] := by
  obtain ⟨hw, hlog, hother⟩ := writeLogLoop_spec start s hgood s.lh.count le_rfl
  have hw' : (writeLog start s).bwrites = logWrites start s.lh s.cache := by
    simpa [writeLog, logWrites, hnil] using hw
  have hstart : (writeLog start s).cache start = s.cache start := hother start (Or.inl le_rfl)
  have hlh : (writeLog start s).lh = s.lh := by simp [writeLog]
  -- the header write changes no log block, so the installed contents are those just logged
  let s1 := writeHead start (writeLog start s)
  have hlh1 : s1.lh = s.lh := by simp [s1, hlh]
  have hlog1 : ∀ tail, tail < s.lh.count → s1.cache (start + tail + 1) = s.cache (s.lh.home tail) := by
    intro tail ht
    have hne : start + tail + 1 ≠ start := by omega
    simpa [s1, writeHead, writeLog, bwrite, Function.update_of_ne hne] using hlog tail ht
  have hinst := (installTransLoop_spec start s1 (hlh1 ▸ hgood) s1.lh.count le_rfl).1
  have hmap : (List.range s.lh.count).map
        (fun tail => (s.lh.home tail, s1.cache (start + tail + 1))) =
      homeWrites s.lh (fun tail => s.cache (s.lh.home tail)) := by
    apply List.map_congr_left
    intro tail ht
    rw [hlog1 tail (List.mem_range.mp ht)]
  refine ⟨(installTrans start s1).cache start, ?_⟩
  rw [commit, if_pos hpos]
  change (installTrans start s1).bwrites ++ [(start, _)] = _
  rw [installTrans, hinst, hlh1, hmap]
  simp [s1, writeHead, bwrite, hw', hstart, hlh, clearCount]

/-- The in-memory header that recovery reads from a disk. -/
def bootHeader (start : ℕ) (d : Disk) : LogHeader := (readHead start (reboot d)).lh

/-- All block writes of a recovery, in program order. -/
lemma recoverFromLog_bwrites (start : ℕ) (d : Disk)
    (hgood : GoodTransaction start (bootHeader start d)) :
    ∃ lh hb, lh.n = 0 ∧ (recoverFromLog start (reboot d)).bwrites =
      homeWrites (bootHeader start d) (fun tail => d (start + tail + 1)) ++
        [(start, putHeader lh hb)] := by
  have hinst := (installTransLoop_spec start (readHead start (reboot d)) hgood _ le_rfl).1
  refine ⟨{ bootHeader start d with n := 0 },
    (installTrans start (readHead start (reboot d))).cache start, rfl, ?_⟩
  change (installTrans start (readHead start (reboot d))).bwrites ++ [(start, _)] = _
  rw [installTrans, hinst]
  simp [readHead, reboot, homeWrites, bootHeader, clearCount]

/-- Blocks that neither the transaction nor the log owns are as on `d₀`. -/
def Frame (start : ℕ) (lh : LogHeader) (d₀ d : Disk) : Prop :=
  ∀ b, (b < start ∨ start + LOGBLOCKS < b) → (∀ i, i < lh.count → b ≠ lh.home i) → d b = d₀ b

/-- The log is empty and the home blocks hold `c`. -/
structure Clean (start : ℕ) (lh : LogHeader) (d₀ c d : Disk) : Prop where
  empty : headerN (d start) = 0
  homes : ∀ i, i < lh.count → d (lh.home i) = c (lh.home i)
  frame : Frame start lh d₀ d

/-- The header and all log blocks of the transaction are on disk; any part of
the home blocks may have been installed. -/
structure Committed (start : ℕ) (lh : LogHeader) (d₀ c d : Disk) : Prop where
  count : headerN (d start) = lh.n
  blocks : ∀ i, i < lh.count → headerBlock (d start) i = lh.block i
  logged : ∀ i, i < lh.count → d (start + i + 1) = c (lh.home i)
  frame : Frame start lh d₀ d

variable {lh : LogHeader}

lemma mem_homeWrites {f : ℕ → Block} {w : ℕ × Block} (h : w ∈ homeWrites lh f) :
    ∃ i, i < lh.count ∧ w = (lh.home i, f i) := by
  obtain ⟨i, hi, rfl⟩ := List.mem_map.mp h
  exact ⟨i, List.mem_range.mp hi, rfl⟩

variable {start : ℕ}

lemma mem_logWrites {c : Disk} {w : ℕ × Block} (h : w ∈ logWrites start lh c) :
    ∃ i, i < lh.count ∧ w = (start + i + 1, c (lh.home i)) := by
  obtain ⟨i, hi, rfl⟩ := List.mem_map.mp h
  exact ⟨i, List.mem_range.mp hi, rfl⟩

lemma take_concat_cases {α : Type*} (l : List α) (x : α) (k : ℕ) :
    (∃ j, (l ++ [x]).take k = l.take j) ∨ (l.length < k ∧ (l ++ [x]).take k = l ++ [x]) := by
  by_cases hk : k ≤ l.length
  · exact Or.inl ⟨k, List.take_append_of_le_length hk⟩
  · exact Or.inr ⟨by omega, List.take_of_length_le (by simp; omega)⟩

variable {d₀ c d : Disk}

lemma Clean.update_header {b : Block} (hgood : GoodTransaction start lh)
    (hhomes : ∀ i, i < lh.count → d (lh.home i) = c (lh.home i)) (hframe : Frame start lh d₀ d)
    (hb : headerN b = 0) : Clean start lh d₀ c (Function.update d start b) where
  empty := by simpa using hb
  homes i hi := by
    have hout := hgood.outside i hi
    rw [Function.update_of_ne (by omega)]
    exact hhomes i hi
  frame x hx hne := by
    rw [Function.update_of_ne (by omega)]
    exact hframe x hx hne

lemma bootHeader_of_empty {d : Disk} (h : headerN (d start) = 0) :
    (bootHeader start d).count = 0 := by
  simp [bootHeader, readHead, reboot, LogHeader.count, h]

lemma Committed.bootHeader_count (h : Committed start lh d₀ c d) :
    (bootHeader start d).count = lh.count := by
  simp [bootHeader, readHead, reboot, LogHeader.count, h.count]

lemma Committed.bootHeader_home (h : Committed start lh d₀ c d) (i : ℕ) (hi : i < lh.count) :
    (bootHeader start d).home i = lh.home i := by
  have hlt : i < lh.n.toNatClampNeg := hi
  simp [bootHeader, readHead, reboot, LogHeader.home, h.count, hlt, h.blocks i hi]

/-- Recovery of a clean disk, crashed or not, leaves it clean. -/
lemma Clean.recovery (h : Clean start lh d₀ c d) (hgood : GoodTransaction start lh) (k : ℕ) :
    Clean start lh d₀ c (crashDisk d (recoverFromLog start (reboot d)).bwrites k) := by
  have hz := bootHeader_of_empty h.empty
  obtain ⟨lh', hb, hn, hw⟩ := recoverFromLog_bwrites start d
    ⟨by rw [hz]; omega, fun i hi => by omega⟩
  have hnil : homeWrites (bootHeader start d) (fun tail => d (start + tail + 1)) = [] := by
    simp [homeWrites, hz]
  rw [hw, hnil, crashDisk]
  rcases take_concat_cases [] (start, putHeader lh' hb) k with ⟨j, hj⟩ | ⟨_, hj⟩
  · rw [hj]
    simpa using h
  · rw [hj]
    exact Clean.update_header hgood h.homes h.frame (by rw [headerN_putHeader, hn])

lemma Committed.recovery_bwrites (h : Committed start lh d₀ c d) (hgood : GoodTransaction start lh) :
    ∃ b, headerN b = 0 ∧ (recoverFromLog start (reboot d)).bwrites =
      homeWrites lh (fun i => c (lh.home i)) ++ [(start, b)] := by
  have hc := h.bootHeader_count
  obtain ⟨lh', hb, hn, hw⟩ := recoverFromLog_bwrites start d
    ⟨by rw [hc]; exact hgood.fits, fun i hi => by
      rw [hc] at hi
      rw [h.bootHeader_home i hi]
      exact hgood.outside i hi⟩
  refine ⟨putHeader lh' hb, by rw [headerN_putHeader, hn], ?_⟩
  rw [hw, homeWrites, hc]
  congr 1
  apply List.map_congr_left
  intro i hi
  have hi' := List.mem_range.mp hi
  rw [h.bootHeader_home i hi', h.logged i hi']

/-- Some of the home writes keep a committed disk committed. -/
lemma Committed.take_homeWrites (h : Committed start lh d₀ c d) (hgood : GoodTransaction start lh)
    (f : ℕ → Block) (j : ℕ) :
    Committed start lh d₀ c (WriteTrace.apply ((homeWrites lh f).take j) d) := by
  have hlog : ∀ b, start ≤ b → b ≤ start + LOGBLOCKS →
      WriteTrace.apply ((homeWrites lh f).take j) d b = d b := by
    intro b hlo hhi
    apply WriteTrace.apply_of_forall_ne
    intro w hw
    obtain ⟨i, hi, rfl⟩ := mem_homeWrites (List.mem_of_mem_take hw)
    have := hgood.outside i hi
    dsimp only
    omega
  have hfit := hgood.fits
  refine ⟨?_, ?_, ?_, ?_⟩
  · rw [hlog start le_rfl (by omega)]
    exact h.count
  · intro i hi
    rw [hlog start le_rfl (by omega)]
    exact h.blocks i hi
  · intro i hi
    rw [hlog (start + i + 1) (by omega) (by omega)]
    exact h.logged i hi
  · intro b hb hne
    rw [WriteTrace.apply_of_forall_ne]
    · exact h.frame b hb hne
    · intro w hw
      obtain ⟨i, hi, rfl⟩ := mem_homeWrites (List.mem_of_mem_take hw)
      exact (hne i hi).symm

/-- All home writes followed by an empty header give a clean disk with the new
contents. -/
lemma Committed.install {b : Block} (h : Committed start lh d₀ c d)
    (hgood : GoodTransaction start lh) (hb : headerN b = 0) : Clean start lh d₀ c
      (WriteTrace.apply (homeWrites lh (fun i => c (lh.home i)) ++ [(start, b)]) d) := by
  rw [WriteTrace.apply_append, WriteTrace.apply_singleton]
  refine Clean.update_header hgood ?_ ?_ hb
  · intro i hi
    apply WriteTrace.apply_of_forall_eq
    · exact ⟨(lh.home i, c (lh.home i)), List.mem_map.mpr ⟨i, List.mem_range.mpr hi, rfl⟩, rfl⟩
    · intro w hw he
      obtain ⟨j, _, rfl⟩ := mem_homeWrites hw
      dsimp only at he ⊢
      rw [he]
  · have hall := (h.take_homeWrites hgood (fun i => c (lh.home i)) lh.count).frame
    rwa [List.take_of_length_le (by simp [homeWrites])] at hall

/-- Recovery of a committed disk, crashed or not, leaves it committed or
completes the installation. -/
lemma Committed.recovery (h : Committed start lh d₀ c d) (hgood : GoodTransaction start lh) (k : ℕ) :
    Committed start lh d₀ c (crashDisk d (recoverFromLog start (reboot d)).bwrites k) ∨
      Clean start lh d₀ c (crashDisk d (recoverFromLog start (reboot d)).bwrites k) := by
  obtain ⟨b, hb, hw⟩ := h.recovery_bwrites hgood
  rw [hw, crashDisk]
  rcases take_concat_cases (homeWrites lh fun i => c (lh.home i)) (start, b) k with ⟨j, hj⟩ | ⟨_, hj⟩
  · rw [hj]
    exact Or.inl (h.take_homeWrites hgood _ j)
  · rw [hj]
    exact Or.inr (h.install hgood hb)

lemma Clean.recoveries {d₀ c d d' : Disk} (h : Clean start lh d₀ c d)
    (hgood : GoodTransaction start lh) (hrun : Relation.ReflTransGen (RecoveryCrash start) d d') :
    Clean start lh d₀ c d' := by
  induction hrun with
  | refl => exact h
  | tail _ hstep ih =>
    obtain ⟨k, rfl⟩ := hstep
    exact ih.recovery hgood k

lemma Committed.recoveries {d₀ c d d' : Disk} (h : Committed start lh d₀ c d)
    (hgood : GoodTransaction start lh) (hrun : Relation.ReflTransGen (RecoveryCrash start) d d') :
    Committed start lh d₀ c d' ∨ Clean start lh d₀ c d' := by
  induction hrun with
  | refl => exact Or.inl h
  | tail _ hstep ih =>
    obtain ⟨k, rfl⟩ := hstep
    rcases ih with ih | ih
    · exact ih.recovery hgood k
    · exact Or.inr (ih.recovery hgood k)

lemma Clean.recovered (h : Clean start lh d₀ c d) (hgood : GoodTransaction start lh) :
    Clean start lh d₀ c (recoverFromLog start (reboot d)).disk := by
  have hall := h.recovery hgood (recoverFromLog start (reboot d)).bwrites.length
  rwa [crashDisk, List.take_length, ← recoverFromLog_disk] at hall

lemma Committed.recovered (h : Committed start lh d₀ c d) (hgood : GoodTransaction start lh) :
    Clean start lh d₀ c (recoverFromLog start (reboot d)).disk := by
  obtain ⟨b, hb, hw⟩ := h.recovery_bwrites hgood
  rw [recoverFromLog_disk, hw]
  exact h.install hgood hb

lemma Clean.take_logWrites (h : Clean start lh d₀ c d) (hgood : GoodTransaction start lh)
    (new : Disk) (j : ℕ) :
    Clean start lh d₀ c (WriteTrace.apply ((logWrites start lh new).take j) d) := by
  have hfit := hgood.fits
  have hother : ∀ b, (b ≤ start ∨ start + LOGBLOCKS < b) →
      WriteTrace.apply ((logWrites start lh new).take j) d b = d b := by
    intro b hb
    apply WriteTrace.apply_of_forall_ne
    intro w hw
    obtain ⟨i, hi, rfl⟩ := mem_logWrites (List.mem_of_mem_take hw)
    dsimp only
    omega
  refine ⟨?_, ?_, ?_⟩
  · rw [hother start (Or.inl le_rfl)]
    exact h.empty
  · intro i hi
    have hout := hgood.outside i hi
    rw [hother _ (by omega)]
    exact h.homes i hi
  · intro b hb hne
    rw [hother b (by omega)]
    exact h.frame b hb hne

/-- The header write after all log writes is the commit point. -/
lemma committed_of_logWrites (hb : Block) (hgood : GoodTransaction start lh)
    (hframe : Frame start lh d₀ d) : Committed start lh d₀ c
      (WriteTrace.apply (logWrites start lh c ++ [(start, putHeader lh hb)]) d) := by
  have hfit := hgood.fits
  rw [WriteTrace.apply_append, WriteTrace.apply_singleton]
  refine ⟨?_, ?_, ?_, ?_⟩
  · rw [Function.update_self, headerN_putHeader]
  · intro i hi
    rw [Function.update_self, headerBlock_putHeader lh hb hfit i hi]
  · intro i hi
    rw [Function.update_of_ne (by omega)]
    apply WriteTrace.apply_of_forall_eq
    · exact ⟨_, List.mem_map.mpr ⟨i, List.mem_range.mpr hi, rfl⟩, rfl⟩
    · intro w hw he
      obtain ⟨j, _, rfl⟩ := mem_logWrites hw
      have hij : j = i := by dsimp only at he; omega
      rw [hij]
  · intro b hb' hne
    rw [Function.update_of_ne (by omega), WriteTrace.apply_of_forall_ne]
    · exact hframe b hb' hne
    · intro w hw
      obtain ⟨i, hi, rfl⟩ := mem_logWrites hw
      dsimp only
      omega

/-- A crash of `commit` leaves a clean disk with the old contents if no header
write was completed, and otherwise a disk from which only the new contents can
be recovered. -/
lemma commit_crash {s : LogState} (hclean : headerN (s.disk start) = 0)
    (hgood : GoodTransaction start s.lh) (hnil : s.bwrites = []) (k : ℕ) :
    (start ∉ ((commit start s).bwrites.take k).map Prod.fst ∧
        Clean start s.lh s.disk s.disk (crashDisk s.disk (commit start s).bwrites k)) ∨
      Committed start s.lh s.disk s.cache (crashDisk s.disk (commit start s).bwrites k) ∨
      Clean start s.lh s.disk s.cache (crashDisk s.disk (commit start s).bwrites k) := by
  have hold : Clean start s.lh s.disk s.disk s.disk :=
    ⟨hclean, fun _ _ => rfl, fun _ _ _ => rfl⟩
  by_cases hpos : 0 < s.lh.n
  · obtain ⟨hb, hw⟩ := commit_bwrites start s hgood hpos hnil
    have hcommitted := committed_of_logWrites (c := s.cache) (s.cache start) hgood hold.frame
    rw [hw, crashDisk]
    rcases take_concat_cases (logWrites start s.lh s.cache ++
        [(start, putHeader s.lh (s.cache start))] ++
        homeWrites s.lh (fun tail => s.cache (s.lh.home tail)))
        (start, putHeader { s.lh with n := 0 } hb) k with ⟨j, hj⟩ | ⟨_, hj⟩
    · rw [hj, List.take_append]
      rcases take_concat_cases (logWrites start s.lh s.cache)
          (start, putHeader s.lh (s.cache start)) j with ⟨i, hi⟩ | ⟨hlen, hi⟩
      · -- the header write is still missing, so nothing after it can have happened
        by_cases hlate : j ≤ (logWrites start s.lh s.cache).length
        · left
          have hz : j - (logWrites start s.lh s.cache ++
              [(start, putHeader s.lh (s.cache start))]).length = 0 := by simp; omega
          rw [hi, hz, List.take_zero, List.append_nil]
          refine ⟨?_, hold.take_logWrites hgood _ i⟩
          intro hmem
          obtain ⟨w, hw', he⟩ := List.mem_map.mp hmem
          obtain ⟨t, _, rfl⟩ := mem_logWrites (List.mem_of_mem_take hw')
          dsimp only at he
          omega
        · right; left
          rw [List.take_of_length_le (by simp; omega), WriteTrace.apply_append]
          exact hcommitted.take_homeWrites hgood _ _
      · right; left
        rw [hi, WriteTrace.apply_append]
        exact hcommitted.take_homeWrites hgood _ _
    · right; right
      rw [hj, List.append_assoc, WriteTrace.apply_append]
      exact hcommitted.install hgood (headerN_putHeader _ _)
  · left
    have hskip : commit start s = s := if_neg hpos
    rw [hskip, hnil, crashDisk, List.take_nil]
    exact ⟨by simp, hold⟩

/-- Crash atomicity of the redo log. `commit` is crashed after `k` block writes,
then any number of recoveries are crashed, then one completes. The home blocks
are all old or all new, and all new once the first header write was done; all
other blocks outside the log are untouched and the log is empty again. The home
block numbers need not be distinct for this. -/
theorem commit_crash_atomic (start : ℕ) (s : LogState) (hclean : headerN (s.disk start) = 0)
    (hgood : GoodTransaction start s.lh) (hnil : s.bwrites = []) (k : ℕ) (d : Disk)
    (hrun : Relation.ReflTransGen (RecoveryCrash start)
      (crashDisk s.disk (commit start s).bwrites k) d) :
    ((∀ i, i < s.lh.count → (recoverFromLog start (reboot d)).disk (s.lh.home i) =
          s.disk (s.lh.home i)) ∨
        ∀ i, i < s.lh.count → (recoverFromLog start (reboot d)).disk (s.lh.home i) =
          s.cache (s.lh.home i)) ∧
      (start ∈ ((commit start s).bwrites.take k).map Prod.fst →
        ∀ i, i < s.lh.count → (recoverFromLog start (reboot d)).disk (s.lh.home i) =
          s.cache (s.lh.home i)) ∧
      Frame start s.lh s.disk (recoverFromLog start (reboot d)).disk ∧
      headerN ((recoverFromLog start (reboot d)).disk start) = 0 := by
  rcases commit_crash hclean hgood hnil k with ⟨hnone, h⟩ | h
  · have hfin := (h.recoveries hgood hrun).recovered hgood
    exact ⟨Or.inl hfin.homes, fun hmem => absurd hmem hnone, hfin.frame, hfin.empty⟩
  · have hfin : Clean start s.lh s.disk s.cache (recoverFromLog start (reboot d)).disk := by
      rcases h with h | h
      · rcases h.recoveries hgood hrun with h' | h'
        · exact h'.recovered hgood
        · exact h'.recovered hgood
      · exact (h.recoveries hgood hrun).recovered hgood
    exact ⟨Or.inr hfin.homes, fun _ => hfin.homes, hfin.frame, hfin.empty⟩

/-- One cached block, full of ones, to be committed to block 50 of a zero disk. -/
def oneBlock : LogState :=
  { disk := fun _ _ => 0
    cache := fun b _ => if b = 50 then 1 else 0
    lh := ⟨1, fun _ => 50⟩
    bwrites := [] }

theorem oneBlock_crash_after_header :
    headerN (oneBlock.disk 2) = 0 ∧ GoodTransaction 2 oneBlock.lh ∧
      (recoverFromLog 2 (reboot (crashDisk oneBlock.disk (commit 2 oneBlock).bwrites 2))).disk 50 =
        fun _ => 1 := by
  have hclean : headerN (oneBlock.disk 2) = 0 := by decide
  have hgood : GoodTransaction 2 oneBlock.lh := ⟨by decide, by decide⟩
  refine ⟨hclean, hgood, ?_⟩
  have h := commit_crash_atomic 2 oneBlock hclean hgood rfl 2 _ Relation.ReflTransGen.refl
  exact h.2.1 (by decide) 0 (by decide)

end Xv6.Log
