import Xv6.DirRead

/-!
# Names, and adding entries
-/
namespace Xv6.Fs

open Function Prog

variable {sb : Superblock} {T : FileType → Prop} {s s' : State} {ip dp : Ip} {E : Panic → Prop}
  {n : Node} {c k : ℕ} {name : Name}

/-- The characters of a name that count: up to a zero, at most `m`. -/
def cstr (m : ℕ) (l : Name) : Name := (l.take m).takeWhile (· ≠ 0)

lemma cstr_succ (m : ℕ) (l : Name) :
    cstr (m + 1) l = if l.headD 0 = 0 then [] else l.headD 0 :: cstr m l.tail := by
  cases l with
  | nil => rfl
  | cons a l => by_cases ha : a = 0 <;> simp [cstr, ha]

lemma strncmp_eq_zero (m : ℕ) (p q : Name) : strncmp m p q = 0 ↔ cstr m p = cstr m q := by
  induction m generalizing p q with
  | zero => simp [strncmp, cstr]
  | succ m ih =>
    rw [strncmp, cstr_succ, cstr_succ]
    by_cases hp : p.headD 0 = 0
    · rw [if_neg fun h => h.1 hp, if_pos hp, hp]
      by_cases hq : q.headD 0 = 0
      · rw [if_pos hq, hq]
        exact iff_of_true rfl rfl
      · have hne : (q.headD 0).toNat ≠ 0 := fun h => hq (UInt8.toNat_inj.mp h)
        rw [if_neg hq]
        constructor
        · intro h
          simp only [UInt8.toNat_zero, Nat.cast_zero] at h
          omega
        · intro h
          simp at h
    · by_cases hpq : p.headD 0 = q.headD 0
      · rw [if_pos ⟨hp, hpq⟩, ih, if_neg hp, if_neg (hpq ▸ hp), hpq]
        simp
      · rw [if_neg fun h => hpq h.2, if_neg hp]
        have hne : (p.headD 0).toNat ≠ (q.headD 0).toNat := fun h => hpq (UInt8.toNat_inj.mp h)
        constructor
        · intro h
          omega
        · intro h
          split at h
          · simp at h
          · exact absurd (List.cons.inj h).1 hpq

lemma cstr_strncpy (m : ℕ) (t : Name) : cstr m (strncpy m t) = cstr m t := by
  induction m generalizing t with
  | zero => rfl
  | succ m ih =>
    rw [strncpy, cstr_succ m t]
    split
    · simp [cstr]
    · next h0 =>
      rw [cstr_succ]
      simp only [List.headD_cons, h0, if_false, List.tail_cons, ih]

lemma length_strncpy (m : ℕ) (t : Name) : (strncpy m t).length = m := by
  induction m generalizing t with
  | zero => rfl
  | succ m ih =>
    rw [strncpy]
    split
    · simp
    · simp [ih]

lemma namecmp_eq_zero {p q : Name} : namecmp p q = 0 ↔ cstr DIRSIZ p = cstr DIRSIZ q :=
  strncmp_eq_zero ..

def Dirent.padded (inum : ℕ) (name : Name) : Dirent := ⟨inum % 65536, strncpy DIRSIZ name⟩

lemma direntOf_toBytes (inum : ℕ) (name : Name) :
    direntOf (Dirent.toBytes ⟨inum, name⟩) = .padded inum name := by
  have hlen : (Dirent.toBytes ⟨inum, name⟩).length = DIRENT := by
    simp [Dirent.toBytes, length_strncpy]
  have hmap : (List.range DIRENT).map (fun i => (Dirent.toBytes ⟨inum, name⟩).getD i 0) =
      Dirent.toBytes ⟨inum, name⟩ := by
    refine List.ext_getElem (by simp [hlen]) fun i h₁ h₂ => ?_
    simp [List.getElem?_eq_getElem h₂]
  rw [direntOf, hmap]
  simp only [Dirent.toBytes, Dirent.ofBytes, Dirent.padded, List.getD_cons_zero,
    List.getD_cons_succ, List.drop_succ_cons, List.drop_zero, UInt8.toNat_ofNat']
  congr 1
  omega

/-- No entry after the first two is in use. -/
def Node.Empty (n : Node) : Prop :=
  ∀ (k : ℕ) (de : Dirent), 2 ≤ k → n.entries[k]? = some de → de.inum = 0

lemma wp_isdirempty (hT : T .dir) (h : FsInv sb T s) (hr : Ready s dp)
    (hdir : (s.itable dp).dino.type = .dir) (hE : Tolerates E s dp) {Q : Bool → State → Prop}
    (hQ : ∀ r : Bool, (r = true ↔ (nodes sb s (s.itable dp).inum).Empty) → Q r s) :
    wp (isdirempty sb dp) s Q E := by
  set es := (nodes sb s (s.itable dp).inum).entries with hes
  have hlen : es.length = slots (s.itable dp).dino.size := by
    rw [hes, entries_dir h hr hdir]
    simp
  unfold isdirempty
  simp only [wp_bind, wp_inode, wp_pure]
  refine wp_search (fun k t => t = s ∧ ∀ j de, 2 ≤ j → j < k → es[j]? = some de → de.inum = 0)
    ⟨rfl, fun j _ h1 h2 => by omega⟩ ?_ ?_
  · rintro k t hk2 hk ⟨rfl, hlt⟩
    rw [wp_bind]
    refine wp_readDirent hT h hr hdir hE.empty (by omega) fun de hde _ => ?_
    rw [wp_pure]
    split
    · next h0 =>
      refine ⟨fun _ _ => hQ _ ⟨fun hc => ?_, fun he => absurd (he k de hk2 hde) h0⟩, ?_⟩
      · simp at hc
      · intro hc
        cases hc
    · next h0 =>
      refine ⟨fun _ hc => (by cases hc), fun _ => ⟨rfl, fun j de' h2 hj hde' => ?_⟩⟩
      by_cases hjk : j = k
      · subst hjk
        rw [hes, hde] at hde'
        exact Option.some.inj hde' ▸ not_not.mp h0
      · exact hlt j de' h2 (by omega) hde'
  · rintro t ⟨rfl, hall⟩
    refine hQ _ ⟨fun _ k de hk hde => ?_, fun _ => rfl⟩
    have hklen : k < es.length := (List.getElem?_eq_some_iff.mp hde).1
    exact hall k de hk (by omega) hde

/-- Like `Touched`, but slots without references may have been used in between. -/
structure Edited (sb : Superblock) (T : FileType → Prop) (ip : Ip) (n : Node) (c : ℕ)
    (s s' : State) : Prop where
  inv : FsInv sb T s'
  nodes : nodes sb s' = update (nodes sb s) (s.itable ip).inum n
  refs : ∀ jp, (s'.itable jp).ref = (s.itable jp).ref
  keep : ∀ jp, 0 < (s.itable jp).ref → jp ≠ ip → s'.itable jp = s.itable jp
  slot : ∃ d, s'.itable ip = { s.itable ip with dino := d }
  locked : ∀ jp, (s'.itable jp).locked = (s.itable jp).locked
  only : Local sb [(s.itable ip).inum] c s s'

namespace Edited

lemma of_touched (h : Touched sb T ip n c s s') : Edited sb T ip n c s s' where
  inv := h.inv
  nodes := h.nodes
  refs jp := (h.fields jp).2.1
  keep jp _ hjp := h.slots jp hjp
  slot := h.slot
  locked jp := (h.fields jp).2.2.2
  only := h.only

lemma inum (h : Edited sb T ip n c s s') : (s'.itable ip).inum = (s.itable ip).inum := by
  obtain ⟨d, hd⟩ := h.slot
  rw [hd]

lemma ready (h : Edited sb T ip n c s s') {jp : Ip} (hr : Ready s jp) : Ready s' jp := by
  by_cases hjp : jp = ip
  · subst hjp
    obtain ⟨d, hd⟩ := h.slot
    exact ⟨by rw [h.refs]; exact hr.live, by rw [hd]; exact hr.valid⟩
  · exact ⟨by rw [h.refs]; exact hr.live, by rw [h.keep jp hr.live hjp]; exact hr.valid⟩

lemma inum_of_live (h : Edited sb T ip n c s s') {jp : Ip} (hl : 0 < (s.itable jp).ref) :
    (s'.itable jp).inum = (s.itable jp).inum := by
  by_cases hjp : jp = ip
  · rw [hjp, h.inum]
  · rw [h.keep jp hl hjp]

end Edited

/-- The first entry that is not in use, or the end. -/
def Node.slotFor (n : Node) : ℕ := n.entries.findIdx fun de => de.inum = 0

lemma slotFor_le : n.slotFor ≤ n.entries.length := List.findIdx_le_length

lemma wp_findSlot (hT : T .dir) (h : FsInv sb T s) (hr : Ready s dp)
    (hdir : (s.itable dp).dino.type = .dir) (hE : Tolerates E s dp) {Q : Option ℕ → State → Prop}
    (hQ : ∀ r : Option ℕ, r.getD (DIRENT * slots (s.itable dp).dino.size) =
        DIRENT * (nodes sb s (s.itable dp).inum).slotFor →
      ((nodes sb s (s.itable dp).inum).slotFor <
          (nodes sb s (s.itable dp).inum).entries.length →
        DIRENT * (nodes sb s (s.itable dp).inum).slotFor + DIRENT ≤ (s.itable dp).dino.size) →
      Q r s) :
    wp (search (fun k => do
      let de ← readDirent sb dp (DIRENT * k) .dirlinkRead
      return if de.inum = 0 then some (DIRENT * k) else none) 0 (slots (s.itable dp).dino.size))
      s Q E := by
  set n := nodes sb s (s.itable dp).inum with hn
  have hlen : n.entries.length = slots (s.itable dp).dino.size := by
    rw [hn, entries_dir h hr hdir]
    simp
  refine wp_search (fun k t => t = s ∧ ∀ j de, j < k → n.entries[j]? = some de → de.inum ≠ 0)
    ⟨rfl, fun j _ hj => absurd hj (Nat.not_lt_zero j)⟩ ?_ ?_
  · rintro k t - hk ⟨rfl, hlt⟩
    rw [wp_bind]
    refine wp_readDirent hT h hr hdir hE.link (by omega) fun de hde hfit => ?_
    rw [wp_pure]
    split
    · next h0 =>
      refine ⟨fun _ _ => ?_, fun hc => (by cases hc)⟩
      obtain ⟨hk', hget⟩ := List.getElem?_eq_some_iff.mp hde
      have hslot : n.slotFor = k := by
        rw [Node.slotFor, List.findIdx_eq hk']
        refine ⟨by rw [hget]; simpa using h0, fun j hj => ?_⟩
        simpa using hlt j _ hj (List.getElem?_eq_getElem (hj.trans hk'))
      exact hQ _ (by rw [hslot]; rfl) fun _ => by rw [hslot]; exact hfit
    · next h0 =>
      refine ⟨fun _ hc => (by cases hc), fun _ => ⟨rfl, fun j de' hj hde' => ?_⟩⟩
      by_cases hjk : j = k
      · subst hjk
        rw [hn, hde] at hde'
        exact Option.some.inj hde' ▸ h0
      · exact hlt j de' (by omega) hde'
  · rintro t ⟨rfl, hall⟩
    have hslot : n.slotFor = n.entries.length := by
      rw [Node.slotFor, List.findIdx_eq_length]
      intro de hde
      obtain ⟨k, hk⟩ := List.mem_iff_getElem?.mp hde
      have hklen : k < n.entries.length := (List.getElem?_eq_some_iff.mp hk).1
      simpa using hall k de (by omega) hk
    refine hQ _ (by rw [hslot, hlen]; rfl) fun hlt => ?_
    omega

/-- A reference that was just taken goes back without consequences. -/
lemma wp_iput_got (h : FsInv sb T s') {i : ℕ} (hg : Got s i ip s')
    {Q : Unit → State → Prop}
    (hQ : FsInv sb T (s'.setSlot ip { s'.itable ip with ref := (s'.itable ip).ref - 1 }) →
      Q () (s'.setSlot ip { s'.itable ip with ref := (s'.itable ip).ref - 1 })) :
    wp (iput sb ip) s' Q E := by
  have hnot : ¬ ((s'.itable ip).ref = 1 ∧ (s'.itable ip).valid = true) := by
    rintro ⟨href, hvalid⟩
    have h0 : (s.itable ip).ref = 0 := by
      have := hg.ref
      omega
    rw [(hg.filled h0).2] at hvalid
    exact absurd hvalid (by simp)
  refine wp_iput_of h (fun href hvalid _ _ => absurd ⟨href, hvalid⟩ hnot) (fun _ hinv => hQ hinv)
    fun href hvalid => absurd ⟨href, hvalid⟩ hnot

/-- `dirlink`: the entry is added if the name is new and there is room; otherwise
no entry changes. -/
theorem wp_dirlink (hT : T .dir) (h : FsInv sb T s) (hr : Ready s dp) (hE : Tolerates E s dp)
    (hfull : ∀ i, (nodes sb s (s.itable dp).inum).target name = some i →
      NoSlot s i → E .igetNoInodes)
    {inum : ℕ} (hi : inum < sb.ninodes) {Q : Bool → State → Prop}
    (hok : ∀ s', (nodes sb s (s.itable dp).inum).type = .dir →
      (nodes sb s (s.itable dp).inum).find name = none →
      (DIRENT * (nodes sb s (s.itable dp).inum).slotFor ≤ (s.itable dp).dino.size →
        Room sb s dp (nodes sb s (s.itable dp).inum).slotFor) →
      (s'.itable dp).dino.size = max (s.itable dp).dino.size
        (DIRENT * (nodes sb s (s.itable dp).inum).slotFor + DIRENT) →
      Edited sb T dp ((nodes sb s (s.itable dp).inum).setEntry
        (nodes sb s (s.itable dp).inum).slotFor (.padded inum name)) 2 s s' → Q true s')
    (hfail : ∀ s', ((nodes sb s (s.itable dp).inum).find name = none →
        (nodes sb s (s.itable dp).inum).entries.length ≤
          (nodes sb s (s.itable dp).inum).slotFor ∧
        (DIRENT * (nodes sb s (s.itable dp).inum).slotFor ≤ (s.itable dp).dino.size →
          ¬ Room sb s dp (nodes sb s (s.itable dp).inum).slotFor)) →
      Kept (s.itable dp).inum s s' →
      Edited sb T dp (nodes sb s (s.itable dp).inum) 2 s s' → Q false s') :
    wp (dirlink sb dp name inum) s Q E := by
  have hty : (nodes sb s (s.itable dp).inum).type = (s.itable dp).dino.type := by
    rw [nodes_of_ready h hr]
    rfl
  unfold dirlink
  rw [wp_bind]
  refine wp_dirlookup hT h hr hE hfull (fun hdir hfind => ?_)
    fun k de ip s₁ _ hfind hget hde hg => ?_
  · have hdir' := hty.symm.trans hdir
    simp only [wp_bind, wp_inode]
    refine wp_findSlot hT h hr hdir' hE fun r hoff hroom => ?_
    rw [hoff]
    have hk : (nodes sb s (s.itable dp).inum).slotFor ≤ slots (s.itable dp).dino.size := by
      refine slotFor_le.trans (le_of_eq ?_)
      rw [entries_dir h hr hdir']
      simp
    have hde : (direntOf (Dirent.toBytes ⟨inum, name⟩)).inum < sb.ninodes := by
      rw [direntOf_toBytes]
      exact (Nat.mod_le _ _).trans_lt hi
    refine wp_call (wp_writeDirent hT h hr hdir' hk _ hde) ?_
    rintro r s' ⟨ht, hin, hsize, hkept⟩
    cases r with
    | true =>
      rw [if_pos rfl, direntOf_toBytes] at ht
      exact hok s' hdir hfind (fun hle => (hin hle).mp rfl) (hsize rfl) (.of_touched ht)
    | false =>
      refine hfail s' (fun _ => ⟨?_, fun hle hr => ?_⟩) (hkept rfl) (.of_touched ht)
      · by_contra hlt
        have hle := hroom (by omega)
        have hr := room_of_le hT h hr hdir' hle
        exact absurd ((hin ((Nat.le_add_right ..).trans hle)).mpr hr) (by simp)
      · exact absurd ((hin hle).mpr hr) (by simp)
  · -- the name exists
    have h₁ : FsInv sb T s₁ := hg.inv h (Nat.pos_of_ne_zero hde.1) (h.entry_lt hget)
    rw [wp_bind]
    refine wp_iput_got h₁ hg fun h₂ => ?_
    rw [wp_pure]
    have hD : s₁.dinode = s.dinode := by rw [hg.state, setSlot_dinode]
    have hdata : s₁.data = s.data := by rw [hg.state, setSlot_data]
    have hlog : s₁.logged = s.logged := by rw [hg.state, setSlot_logged]
    refine hfail _ (fun hc => absurd hc (by rw [hfind]; simp))
      (Same.of_eq (by rw [setSlot_dinode, hD]) (by rw [setSlot_data, hdata])).kept
      ⟨h₂, ?_, fun jp => (hg.put_fields jp).1, fun jp hl _ => hg.put hl,
        ⟨(s.itable dp).dino, hg.put hr.live⟩, fun jp => (hg.put_fields jp).2, ?_⟩
    · rw [nodes_setSlot, hg.nodes, update_eq_self]
    · exact (Local.of_eq hD hdata hlog).setSlot ..

end Xv6.Fs
