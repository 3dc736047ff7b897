import Xv6.DirWrite
import Xv6.Truncate

/-!
# Reading directories

Reading an inode without holes changes nothing, so what `dirlookup` finds is a
function of the entries on disk.
-/
namespace Xv6.Fs

open Function Bytes Prog

variable {sb : Superblock} {T : FileType → Prop} {s s' : State} {ip dp : Ip} {E : Panic → Prop}
  {bn off n k : ℕ}

lemma run_bmap (h0 : slotRef s ip (place bn) ≠ 0) :
    (bmap sb ip bn).run s = .ok (slotRef s ip (place bn), s) := by
  unfold bmap
  by_cases hd : bn < NDIRECT
  · have hx : (Fin.ofNat (NDIRECT + 1) bn).val = bn := by
      rw [Fin.val_ofNat, Nat.mod_eq_of_lt (by omega)]
    have hslot : slotRef s ip (place bn) = (s.itable ip).dino.addrs (Fin.ofNat _ bn) := by
      rw [slotRef, ← refAt_direct (Fin.ofNat _ bn), hx, place, if_pos hd]
    rw [hslot] at h0 ⊢
    rw [if_pos hd]
    show (if (s.itable ip).dino.addrs (Fin.ofNat _ bn) ≠ 0 then _ else _ : FsM ℕ).run s = _
    rw [if_pos h0]
    rfl
  · have hpl : place bn = NDIRECT + 1 + (bn - NDIRECT) := by
      rw [place, if_neg hd]
      omega
    have hn : bn - NDIRECT < NINDIRECT := by
      by_contra hn
      exact h0 (refAt_out_of_range (by omega))
    have hind : (s.itable ip).dino.addrs indirect ≠ 0 := by
      intro hz
      exact h0 (by rw [hpl]; exact refAt_of_no_indirect (by omega) hz)
    have hslot : slotRef s ip (place bn) =
        (word (s.data ((s.itable ip).dino.addrs indirect)) (4 * (bn - NDIRECT))).toNat := by
      rw [hpl]
      exact refAt_entry hn hind
    rw [hslot] at h0 ⊢
    rw [if_neg hd, if_pos hn]
    have hfst : (addrOrAlloc sb ip (Fin.last NDIRECT)).run s =
        .ok ((s.itable ip).dino.addrs indirect, s) := by
      show (if (s.itable ip).dino.addrs (Fin.last NDIRECT) ≠ 0 then _ else _ : FsM ℕ).run s = _
      rw [if_pos hind]
      rfl
    rw [StateT.run_bind, hfst]
    show (if (s.itable ip).dino.addrs indirect = 0 then _ else _ : FsM ℕ).run s = _
    rw [if_neg hind]
    show (if (word (s.data ((s.itable ip).dino.addrs indirect)) (4 * (bn - NDIRECT))).toNat ≠ 0
      then _ else _ : FsM ℕ).run s = _
    rw [if_pos h0]
    rfl

/-- The bytes of the contents from `off` on. -/
def bytesAt (data : ℕ → Block) (d : Dinode) (off n : ℕ) : List UInt8 :=
  (List.range n).map fun i => byteAt data d (off + i)

lemma bytesAt_add (data : ℕ → Block) (d : Dinode) (off m n : ℕ) :
    bytesAt data d off (m + n) = bytesAt data d off m ++ bytesAt data d (off + m) n := by
  unfold bytesAt
  rw [List.range_add, List.map_append, List.map_map]
  congr 1
  refine List.map_congr_left fun i _ => ?_
  simp [Nat.add_assoc]

/-- The loop of `readi` over blocks that are there only reads; it ends with the bytes
if all of them can be copied out. -/
lemma run_readLoop (dst : ℕ → Bool) (fuel : ℕ) {acc : List UInt8} (hn : n ≤ fuel)
    (hmap : ∀ bn, off / BSIZE ≤ bn → bn * BSIZE < off + n → slotRef s ip (place bn) ≠ 0) :
    ∃ r, (readLoop sb ip dst fuel off n acc).run s = .ok (r, s) ∧
      ((∀ i, dst i = true) → r = some (acc ++ bytesAt s.data (s.itable ip).dino off n)) := by
  induction fuel generalizing off n acc with
  | zero =>
    obtain rfl : n = 0 := by omega
    exact ⟨some acc, rfl, fun _ => by simp [bytesAt]⟩
  | succ fuel ih =>
    by_cases hn0 : n = 0
    · subst hn0
      exact ⟨some acc, by rw [readLoop, if_pos rfl]; rfl, fun _ => by simp [bytesAt]⟩
    · have hcur : slotRef s ip (place (off / BSIZE)) ≠ 0 := by
        refine hmap _ le_rfl ?_
        have := Nat.div_mul_le_self off BSIZE
        omega
      have hmod : off % BSIZE < BSIZE := Nat.mod_lt _ (by norm_num)
      set m := min n (BSIZE - off % BSIZE) with hm
      have hmn : m ≤ n := min_le_left ..
      have hmb : m ≤ BSIZE - off % BSIZE := min_le_right ..
      have hbytes : (List.range m).map (fun i =>
          Bytes.get (s.data (slotRef s ip (place (off / BSIZE)))) (off % BSIZE + i)) =
          bytesAt s.data (s.itable ip).dino off m := by
        refine List.map_congr_left fun i hi => ?_
        have hi := List.mem_range.mp hi
        have hdiv : (off + i) / BSIZE = off / BSIZE := by
          simp only [BSIZE] at *
          omega
        have hmod' : (off + i) % BSIZE = off % BSIZE + i := by
          simp only [BSIZE] at *
          omega
        rw [byteAt, hdiv, hmod']
        rfl
      have hstep : (readLoop sb ip dst (fuel + 1) off n acc).run s =
          (if (List.range m).all fun i => dst (acc.length + i) then
            readLoop sb ip dst fuel (off + m) (n - m) (acc ++ bytesAt s.data (s.itable ip).dino off m)
          else pure none : FsM (Option (List UInt8))).run s := by
        rw [readLoop, if_neg hn0, StateT.run_bind, run_bmap hcur, ← hbytes]
        show (if slotRef s ip (place (off / BSIZE)) = 0 then _ else _ : FsM _).run s = _
        rw [if_neg hcur]
        rfl
      rw [hstep]
      split
      · have hrest : ∀ bn, (off + m) / BSIZE ≤ bn → bn * BSIZE < off + m + (n - m) →
            slotRef s ip (place bn) ≠ 0 := fun bn hle hlt =>
          hmap bn ((Nat.div_le_div_right (Nat.le_add_right off m)).trans hle) (by omega)
        obtain ⟨r, hrun, hr⟩ := @ih (off + m) (n - m)
          (acc ++ bytesAt s.data (s.itable ip).dino off m) (by omega) hrest
        refine ⟨r, hrun, fun hdst => ?_⟩
        rw [hr hdst, List.append_assoc, ← bytesAt_add, Nat.add_sub_cancel' hmn]
      · next hall =>
        refine ⟨none, rfl, fun hdst => absurd ?_ hall⟩
        simp [hdst]

lemma run_readi (dst : ℕ → Bool)
    (hmap : ∀ bn, bn * BSIZE < (s.itable ip).dino.size → slotRef s ip (place bn) ≠ 0) :
    ∃ r, (readi sb ip dst off n).run s = .ok (r, s) ∧
      (off ≤ (s.itable ip).dino.size → off + n < 2 ^ 32 → (∀ i, dst i = true) →
        r = some (bytesAt s.data (s.itable ip).dino off (min n ((s.itable ip).dino.size - off)))) ∧
      ((s.itable ip).dino.size < off ∨ 2 ^ 32 ≤ off + n → r = some []) := by
  by_cases hout : (s.itable ip).dino.size < off ∨ 2 ^ 32 ≤ off + n
  · refine ⟨some [], ?_, fun h1 h2 => absurd hout (by omega), fun _ => rfl⟩
    show (if (s.itable ip).dino.size < off ∨ 2 ^ 32 ≤ off + n then _ else _ : FsM _).run s = _
    rw [if_pos hout]
    rfl
  · set m := min n ((s.itable ip).dino.size - off) with hm
    have hmin : (if (s.itable ip).dino.size < off + n then (s.itable ip).dino.size - off else n) =
        m := by
      split <;> omega
    have hrun : (readi sb ip dst off n).run s = (readLoop sb ip dst m off m []).run s := by
      show (if (s.itable ip).dino.size < off ∨ 2 ^ 32 ≤ off + n then _ else _ : FsM _).run s = _
      rw [if_neg hout, hmin]
    have hmapped : ∀ bn, off / BSIZE ≤ bn → bn * BSIZE < off + m → slotRef s ip (place bn) ≠ 0 :=
      fun bn _ hlt => hmap bn (by omega)
    obtain ⟨r, hr, hbytes⟩ := @run_readLoop sb s ip off m dst m [] le_rfl hmapped
    refine ⟨r, hrun.trans hr, fun _ _ hdst => ?_, fun hc => absurd hc hout⟩
    rw [hbytes hdst, List.nil_append]

lemma entries_dir (h : FsInv sb T s) (hr : Ready s dp)
    (hdir : (s.itable dp).dino.type = .dir) : (nodes sb s (s.itable dp).inum).entries =
    (List.range (slots (s.itable dp).dino.size)).map (direntAt s.data (s.itable dp).dino) := by
  rw [nodes_of_ready h hr, node, if_pos hdir]

lemma entry_dir (h : FsInv sb T s) (hr : Ready s dp) (hdir : (s.itable dp).dino.type = .dir)
    (hk : k < slots (s.itable dp).dino.size) :
    (nodes sb s (s.itable dp).inum).entries[k]? = some (direntAt s.data (s.itable dp).dino k) := by
  rw [entries_dir h hr hdir]
  simp [hk]

section Dir

variable (hT : T .dir) (h : FsInv sb T s) (hr : Ready s dp) (hdir : (s.itable dp).dino.type = .dir)
include hT h hr hdir

lemma run_readDirent (p : Panic) :
    (readDirent sb dp (DIRENT * k) p).run s =
      if DIRENT * k + DIRENT ≤ (s.itable dp).dino.size then
        .ok (direntAt s.data (s.itable dp).dino k, s)
      else
        .error p := by
  have hsize := size_dir hT h hr hdir
  simp only [MAXFILE, NDIRECT, NINDIRECT, BSIZE] at hsize
  obtain ⟨r, hrun, hin, hout⟩ := @run_readi sb s dp (DIRENT * k) DIRENT (fun _ => true)
    fun bn hbn => slotRef_dir hT h hr hdir bn hbn
  unfold readDirent
  rw [StateT.run_bind, hrun]
  by_cases hlt : (s.itable dp).dino.size < DIRENT * k
  · rw [hout (Or.inl hlt), if_neg (by omega)]
    rfl
  · have hr := hin (by omega) (by simp only [DIRENT] at *; omega) fun _ => rfl
    rw [hr]
    split
    · next hfit =>
      have hmin : min DIRENT ((s.itable dp).dino.size - DIRENT * k) = DIRENT := by omega
      rw [hmin]
      rfl
    · next hfit =>
      have hlen : (bytesAt s.data (s.itable dp).dino (DIRENT * k)
          (min DIRENT ((s.itable dp).dino.size - DIRENT * k))).length ≠ DIRENT := by
        rw [bytesAt, List.length_map, List.length_range]
        omega
      show (if _ = DIRENT then _ else _ : FsM Dirent).run s = _
      rw [if_neg hlen]
      rfl

lemma wp_readDirent {Q : Dirent → State → Prop} {p : Panic}
    (hE : (s.itable dp).dino.size % DIRENT ≠ 0 → E p) (hk : k < slots (s.itable dp).dino.size)
    (hQ : ∀ de, (nodes sb s (s.itable dp).inum).entries[k]? = some de →
      DIRENT * k + DIRENT ≤ (s.itable dp).dino.size → Q de s) :
    wp (readDirent sb dp (DIRENT * k) p) s Q E := by
  unfold wp
  rw [run_readDirent hT h hr hdir]
  split
  · next hres =>
    split at hres
    · next hfit =>
      cases hres
      exact hQ _ (entry_dir h hr hdir hk) hfit
    · cases hres
  · next hres =>
    split at hres
    · cases hres
    · next hfit =>
      cases hres
      apply hE
      have hlt := lt_slots.mp hk
      simp only [DIRENT] at hfit hlt ⊢
      omega

end Dir

/-- The panics of the directory functions, each where it can happen. -/
structure Tolerates (E : Panic → Prop) (s : State) (dp : Ip) : Prop where
  notDir : (s.itable dp).dino.type ≠ .dir → E .dirlookupNotDir
  lookup : (s.itable dp).dino.size % DIRENT ≠ 0 → E .dirlookupRead
  link : (s.itable dp).dino.size % DIRENT ≠ 0 → E .dirlinkRead
  empty : (s.itable dp).dino.size % DIRENT ≠ 0 → E .isdiremptyReadi

lemma Soft.tolerates (hE : Soft E) : Tolerates E s dp where
  notDir _ := hE _ rfl
  lookup _ := hE _ rfl
  link _ := hE _ rfl
  empty _ := hE _ rfl

def Dirent.Matches (name : Name) (de : Dirent) : Prop := de.inum ≠ 0 ∧ namecmp name de.name = 0

instance (name : Name) (de : Dirent) : Decidable (de.Matches name) :=
  inferInstanceAs (Decidable (_ ∧ _))

def Node.find (n : Node) (name : Name) : Option ℕ :=
  n.entries.findIdx? fun de => de.Matches name

variable {n : Node} {name : Name}

lemma find_eq_some_iff : n.find name = some k ↔
    (∃ de, n.entries[k]? = some de ∧ de.Matches name) ∧
      ∀ j de, j < k → n.entries[j]? = some de → ¬ de.Matches name := by
  rw [Node.find, List.findIdx?_eq_some_iff_getElem]
  constructor
  · rintro ⟨hk, hm, hlt⟩
    refine ⟨⟨_, List.getElem?_eq_getElem hk, by simpa using hm⟩, fun j de hj hde => ?_⟩
    obtain ⟨hj', rfl⟩ := List.getElem?_eq_some_iff.mp hde
    simpa using hlt j hj
  · rintro ⟨⟨de, hde, hm⟩, hlt⟩
    obtain ⟨hk, rfl⟩ := List.getElem?_eq_some_iff.mp hde
    refine ⟨hk, by simpa using hm, fun j hj => ?_⟩
    simpa using hlt j _ hj (List.getElem?_eq_getElem (hj.trans hk))

lemma find_eq_none_iff : n.find name = none ↔
    ∀ (k : ℕ) (de : Dirent), n.entries[k]? = some de → ¬ de.Matches name := by
  rw [Node.find, List.findIdx?_eq_none_iff]
  constructor
  · intro hall k de hde
    simpa using hall de (List.mem_of_getElem? hde)
  · intro hall de hde
    obtain ⟨k, hk⟩ := List.mem_iff_getElem?.mp hde
    simpa using hall k de hk

def Node.target (n : Node) (name : Name) : Option ℕ :=
  (n.find name).bind fun k => n.entries[k]?.map Dirent.inum

lemma target_of_find {k : ℕ} {de : Dirent} (hf : n.find name = some k)
    (hde : n.entries[k]? = some de) : n.target name = some de.inum := by
  rw [Node.target, hf, Option.bind_some, hde]
  rfl

lemma target_of_find_none (hf : n.find name = none) : n.target name = none := by
  rw [Node.target, hf]
  rfl

lemma Soft.noSlot (hE : Soft E) (i : ℕ) (_ : n.target name = some i) (_ : NoSlot s i) :
    E .igetNoInodes :=
  hE _ rfl

/-- `dirlookup` finds the first entry with the name and takes a reference to its inode. -/
theorem wp_dirlookup (hT : T .dir) (h : FsInv sb T s) (hr : Ready s dp) (hE : Tolerates E s dp)
    (hfull : ∀ i, (nodes sb s (s.itable dp).inum).target name = some i →
      NoSlot s i → E .igetNoInodes)
    {Q : Option (Ip × ℕ) → State → Prop}
    (hnone : (nodes sb s (s.itable dp).inum).type = .dir →
      (nodes sb s (s.itable dp).inum).find name = none → Q none s)
    (hsome : ∀ k de ip s', (nodes sb s (s.itable dp).inum).type = .dir →
      (nodes sb s (s.itable dp).inum).find name = some k →
      (nodes sb s (s.itable dp).inum).entries[k]? = some de → de.Matches name →
      Got s de.inum ip s' → Q (some (ip, DIRENT * k)) s') :
    wp (dirlookup sb dp name) s Q E := by
  have hty : (nodes sb s (s.itable dp).inum).type = (s.itable dp).dino.type := by
    rw [nodes_of_ready h hr]
    rfl
  unfold dirlookup
  simp only [wp_bind, wp_inode, wp_ite, wp_throw]
  split
  · next hdir => exact hE.notDir hdir
  · next hdir =>
    have hdir : (s.itable dp).dino.type = .dir := not_not.mp hdir
    set es := (nodes sb s (s.itable dp).inum).entries with hes
    have hlen : es.length = slots (s.itable dp).dino.size := by
      rw [hes, entries_dir h hr hdir]
      simp
    refine wp_search (fun k t => t = s ∧ ∀ j de, j < k → es[j]? = some de → ¬ de.Matches name)
      ⟨rfl, fun j _ hj => absurd hj (Nat.not_lt_zero j)⟩ ?_ ?_
    · rintro k t - hk ⟨rfl, hlt⟩
      rw [wp_bind]
      refine wp_readDirent hT h hr hdir hE.lookup (by omega) fun de hde _ => ?_
      have hskip : ¬ de.Matches name →
          ∀ j de, j < k + 1 → es[j]? = some de → ¬ de.Matches name := by
        intro hm j de' hj hde'
        by_cases hjk : j = k
        · subst hjk
          rw [hes, hde] at hde'
          exact Option.some.inj hde' ▸ hm
        · exact hlt j de' (by omega) hde'
      simp only [wp_ite, wp_pure, wp_bind]
      split
      · next h0 => exact ⟨fun _ hc => (by cases hc), fun _ => ⟨trivial, hskip fun hm => hm.1 h0⟩⟩
      · next h0 =>
        split
        · next hn =>
          have hfind := find_eq_some_iff.mpr ⟨⟨de, hde, h0, hn⟩, fun j de' hj => hlt j de' hj⟩
          refine wp_iget (hfull _ (target_of_find hfind hde)) fun ip s' hg =>
            ⟨fun _ _ => ?_, fun hc => (by cases hc)⟩
          exact hsome k de ip s' (hty.trans hdir) hfind hde ⟨h0, hn⟩ hg
        · next hn => exact ⟨fun _ hc => (by cases hc), fun _ => ⟨trivial, hskip fun hm => hn hm.2⟩⟩
    · rintro t ⟨rfl, hall⟩
      refine hnone (hty.trans hdir) (find_eq_none_iff.mpr fun k de hde => ?_)
      have hk : k < es.length := (List.getElem?_eq_some_iff.mp hde).1
      exact hall k de (by omega) hde

end Xv6.Fs
