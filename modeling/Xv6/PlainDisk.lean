import Xv6.DirLink

/-!
# Disks with direct blocks only

A disk on which inode `i` has the blocks `100 + 12 * i` and following, and no
indirect block. It is given by the types, link counts and directory entries of its
inodes; files are empty. Every such plan is a well-formed file system.
-/
namespace Xv6.Fs

open Function Bytes

/-- What a plan says of one inode. -/
structure Planned where
  type : FileType
  major : Int16
  nlink : Int16
  entries : List Dirent

namespace Planned

def free : Planned := { type := .free, major := 0, nlink := 0, entries := [] }

def blocks (p : Planned) : ℕ := (p.entries.length + 63) / 64

def dinode (p : Planned) (i : ℕ) : Dinode where
  type := p.type
  major := p.major
  minor := 0
  nlink := p.nlink
  size := DIRENT * p.entries.length
  addrs x := if x.val < p.blocks ∧ x.val < NDIRECT then 100 + 12 * i + x.val else 0

def block (p : Planned) (bn : ℕ) : Block := fun j =>
  (p.entries.getD (64 * bn + j.val / DIRENT) ⟨0, []⟩).toBytes.getD (j.val % DIRENT) 0

end Planned

/-- The layout: the free map is block 99, and there are 300 inodes. -/
def plainSb : Superblock where
  size := 4000
  ninodes := 300
  inodestart := 2
  bmapstart := 99
  size_lt := by norm_num
  root_lt := by norm_num

/-- The disk of a plan, with the given inode table. -/
def plain (plan : ℕ → Planned) (table : Ip → Inode) : State where
  bitmap b := b < 100 ∨ 1 ≤ (b - 100) / 12 ∧ (b - 100) / 12 < 300 ∧
    (plan ((b - 100) / 12)).type ≠ .free ∧ (b - 100) % 12 < (plan ((b - 100) / 12)).blocks
  dinode i := (plan i).dinode i
  data b := if b < 100 then fun _ => 0 else (plan ((b - 100) / 12)).block ((b - 100) % 12)
  itable := table
  logged := []
  gen _ := 0

variable {plan : ℕ → Planned} {table : Ip → Inode} {T : FileType → Prop} {i l k bn : ℕ}

lemma plainSb_dataStart : plainSb.dataStart = 100 := rfl

lemma plain_allocated :
    Allocated plainSb (plain plan table).dinode i ↔ 1 ≤ i ∧ i < 300 ∧ (plan i).type ≠ .free :=
  Iff.rfl

lemma refAt_plain (data : ℕ → Block) (p : Planned) :
    refAt data (p.dinode i) l = if l < p.blocks ∧ l < NDIRECT then 100 + 12 * i + l else 0 := by
  have hind : (p.dinode i).addrs indirect = 0 := by simp [Planned.dinode, indirect]
  by_cases hl : l ≤ NDIRECT
  · have hval : (Fin.ofNat (NDIRECT + 1) l).val = l := by
      rw [Fin.val_ofNat, Nat.mod_eq_of_lt (by omega)]
    rw [refAt, if_pos hl, Planned.dinode]
    simp only [hval]
  · rw [refAt_of_no_indirect (by omega) hind, if_neg (by omega)]

lemma refs_plain (plan : ℕ → Planned) (table : Ip → Inode) (x : ℕ × ℕ) :
    refs plainSb (plain plan table).dinode (plain plan table).data x =
    if (1 ≤ x.1 ∧ x.1 < 300 ∧ (plan x.1).type ≠ .free) ∧ x.2 < (plan x.1).blocks ∧ x.2 < NDIRECT
    then 100 + 12 * x.1 + x.2 else 0 := by
  unfold refs
  by_cases hal : Allocated plainSb (plain plan table).dinode x.1
  · rw [if_pos hal]
    have hplan := plain_allocated.mp hal
    show refAt _ ((plan x.1).dinode x.1) x.2 = _
    rw [refAt_plain]
    simp only [hplan, ne_eq, not_false_eq_true, and_self, true_and]
  · rw [if_neg hal, if_neg fun hc => hal (plain_allocated.mpr hc.1)]

lemma plain_own (hlen : ∀ i, (plan i).entries.length ≤ 768) :
    Own plainSb (plain plan table).bitmap (plain plan table).dinode (plain plan table).data where
  inj x y hx hxy := by
    rw [refs_plain] at hx
    rw [refs_plain, refs_plain] at hxy
    have hxc := (ite_ne_right_iff.mp hx).1
    rw [if_pos hxc] at hxy
    split at hxy
    · next hyc =>
      have h1 : x.1 = y.1 := by
        simp only [NDIRECT] at hxc hyc
        omega
      exact Prod.ext h1 (by omega)
    · omega
  range x hx := by
    rw [refs_plain] at hx ⊢
    have hxc := (ite_ne_right_iff.mp hx).1
    rw [if_pos hxc, plainSb_dataStart]
    simp only [NDIRECT, plainSb] at hxc ⊢
    omega
  bits b _ := by
    have hblocks : ∀ i, (plan i).blocks ≤ 12 := by
      intro i
      have := hlen i
      rw [Planned.blocks]
      omega
    rw [plainSb_dataStart]
    simp only [plain, decide_eq_true_eq]
    constructor
    · rintro (hb | ⟨h1, h2, h3, h4⟩)
      · exact Or.inl hb
      · refine Or.inr ⟨((b - 100) / 12, (b - 100) % 12), ?_⟩
        have := hblocks ((b - 100) / 12)
        refine (refs_plain plan table _).trans ?_
        rw [if_pos ⟨⟨h1, h2, h3⟩, h4, by simp only [NDIRECT]; omega⟩]
        simp only
        omega
    · rintro (hb | ⟨x, hx⟩)
      · exact Or.inl hb
      · have hx' := (refs_plain plan table x).symm.trans hx
        split at hx'
        · next hc =>
          have hdiv : (b - 100) / 12 = x.1 := by
            simp only [NDIRECT] at hc
            omega
          have hmod : (b - 100) % 12 = x.2 := by
            simp only [NDIRECT] at hc
            omega
          rw [hdiv, hmod]
          exact Or.inr ⟨hc.1.1, hc.1.2.1, hc.1.2.2, hc.2.1⟩
        · exact Or.inl (by omega)

lemma blockAt_plain (hlen : (plan i).entries.length ≤ 768)
    (hbn : 64 * bn < (plan i).entries.length) :
    blockAt (plain plan table).data ((plan i).dinode i) bn = 100 + 12 * i + bn := by
  have hlt : bn < NDIRECT := by
    simp only [NDIRECT]
    omega
  rw [blockAt, place, if_pos hlt, refAt_plain, if_pos]
  refine ⟨?_, hlt⟩
  rw [Planned.blocks]
  omega

/-- The entries on the disk are those of the plan, padded to `DIRSIZ` characters. -/
lemma direntAt_plain (hlen : (plan i).entries.length ≤ 768)
    (hk : k < (plan i).entries.length) :
    direntAt (plain plan table).data ((plan i).dinode i) k =
      .padded ((plan i).entries.getD k ⟨0, []⟩).inum ((plan i).entries.getD k ⟨0, []⟩).name := by
  rw [← direntOf_toBytes, direntAt, direntOf]
  congr 1
  apply List.map_congr_left
  intro r hr
  have hr := List.mem_range.mp hr
  have hbn : (DIRENT * k + r) / BSIZE = k / 64 := by
    simp only [DIRENT, BSIZE] at hr ⊢
    omega
  have hlt : k / 64 < 12 := by omega
  rw [byteAt, hbn, blockAt_plain hlen (by omega)]
  have hnot : ¬ 100 + 12 * i + k / 64 < 100 := by omega
  have hdiv : (100 + 12 * i + k / 64 - 100) / 12 = i := by omega
  have hmod : (100 + 12 * i + k / 64 - 100) % 12 = k / 64 := by omega
  have hj : (DIRENT * k + r) % BSIZE < BSIZE := Nat.mod_lt _ (by norm_num)
  simp only [plain, if_neg hnot, hdiv, hmod]
  rw [Bytes.get, dif_pos hj, Planned.block]
  have hq : 64 * (k / 64) + (DIRENT * k + r) % BSIZE / DIRENT = k := by
    simp only [DIRENT, BSIZE] at hr ⊢
    omega
  have hm : (DIRENT * k + r) % BSIZE % DIRENT = r := by
    simp only [DIRENT, BSIZE] at hr ⊢
    omega
  simp only [hq, hm]

/-- An inode table that agrees with a plan. -/
structure TableOk (plan : ℕ → Planned) (table : Ip → Inode) : Prop where
  uniq : ∀ ip jp, 0 < (table ip).ref → 0 < (table jp).ref →
    (table ip).inum = (table jp).inum → ip = jp
  inums : ∀ ip, 0 < (table ip).ref → 1 ≤ (table ip).inum ∧ (table ip).inum < 300
  coh : ∀ ip, 0 < (table ip).ref → (table ip).valid = true →
    (table ip).dino = (plan (table ip).inum).dinode (table ip).inum ∧
      (table ip).dino.type ≠ .free

/-- A plan that fits the layout, and whose entries name inodes. -/
structure PlanOk (plan : ℕ → Planned) : Prop where
  length : ∀ i, (plan i).entries.length ≤ 768
  inums : ∀ i, ∀ de ∈ (plan i).entries, de.inum < 300

theorem plain_inv (hp : PlanOk plan) (ht : TableOk plan table) :
    FsInv plainSb T (plain plan table) where
  own := plain_own hp.length
  noHole i hal _ bn hbn := by
    have hlt : bn * BSIZE < DIRENT * (plan i).entries.length := hbn
    have h64 : 64 * bn < (plan i).entries.length := by
      simp only [BSIZE, DIRENT] at hlt
      omega
    show blockAt _ ((plan i).dinode i) bn ≠ 0
    rw [blockAt_plain (hp.length i) h64]
    omega
  entries i hal _ k hk := by
    have hlt : k < (plan i).entries.length := by
      have hk' : DIRENT * k < DIRENT * (plan i).entries.length := hk
      exact Nat.lt_of_mul_lt_mul_left hk'
    show (direntAt _ ((plan i).dinode i) k).inum < 300
    rw [direntAt_plain (hp.length i) hlt]
    refine (Nat.mod_le _ _).trans_lt (hp.inums i _ ?_)
    rw [List.getD_eq_getElem?_getD, List.getElem?_eq_getElem hlt, Option.getD_some]
    exact List.getElem_mem hlt
  uniq := ht.uniq
  inums := ht.inums
  coh ip hr := ht.coh ip hr.live hr.valid

/-- What the directory layer sees of the disk. -/
theorem nodes_plain (hp : PlanOk plan) (i : ℕ) :
    nodes plainSb (plain plan table) i =
      if 1 ≤ i ∧ i < 300 ∧ (plan i).type ≠ .free then
        { type := (plan i).type
          nlink := (plan i).nlink
          entries := if (plan i).type = .dir then
            (plan i).entries.map fun de => .padded de.inum de.name else [] }
      else .free := by
  unfold nodes
  by_cases hal : 1 ≤ i ∧ i < 300 ∧ (plan i).type ≠ .free
  · rw [if_pos hal, if_pos (plain_allocated.mpr hal)]
    show node _ ((plan i).dinode i) = _
    have hslots : slots ((plan i).dinode i).size = (plan i).entries.length := by
      simp only [slots, Planned.dinode, DIRENT]
      omega
    have hty : ((plan i).dinode i).type = (plan i).type := rfl
    rw [node, hslots, hty]
    congr 1
    by_cases hdir : (plan i).type = .dir
    · rw [if_pos hdir, if_pos hdir]
      refine List.ext_getElem (by simp) fun k h1 h2 => ?_
      rw [List.length_map, List.length_range] at h1
      rw [List.getElem_map, List.getElem_range, List.getElem_map,
        direntAt_plain (hp.length i) h1, List.getD_eq_getElem?_getD,
        List.getElem?_eq_getElem h1, Option.getD_some]
    · rw [if_neg hdir, if_neg hdir]
  · rw [if_neg hal, if_neg fun hc => hal (plain_allocated.mp hc)]

/-- The root directory with the entries `es`, and nothing else. -/
def rootPlan (es : List Dirent) (i : ℕ) : Planned :=
  if i = 1 then { type := .dir, major := 0, nlink := 1, entries := es } else .free

/-- The first `n` slots hold the inodes 1 to `n`; the root is loaded. -/
def firstSlots (plan : ℕ → Planned) (n : ℕ) (ip : Ip) : Inode where
  inum := ip.val + 1
  ref := if ip.val < n then 1 else 0
  valid := ip.val = 0
  locked := false
  dino := (plan 1).dinode 1

def rootSlot : Ip := ⟨0, by decide⟩

lemma planOk_root {es : List Dirent} (hlen : es.length ≤ 768) (hes : ∀ de ∈ es, de.inum < 300) :
    PlanOk (rootPlan es) where
  length i := by
    unfold rootPlan
    split
    · exact hlen
    · exact Nat.zero_le _
  inums i de hde := by
    unfold rootPlan at hde
    split at hde
    · exact hes de hde
    · exact absurd hde List.not_mem_nil

lemma tableOk_firstSlots {n : ℕ} (hroot : (plan 1).type ≠ .free) :
    TableOk plan (firstSlots plan n) where
  uniq ip jp _ _ he := by
    have hv : ip.val + 1 = jp.val + 1 := he
    exact Fin.ext (by omega)
  inums ip _ := by
    have hlt := ip.isLt
    simp only [firstSlots, NINODE] at hlt ⊢
    omega
  coh ip _ hv := by
    have h0 : ip.val = 0 := of_decide_eq_true hv
    simp only [firstSlots, h0]
    exact ⟨trivial, hroot⟩

end Xv6.Fs
