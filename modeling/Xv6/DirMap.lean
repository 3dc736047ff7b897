import Xv6.PlainDisk
import Xv6.SlotMap

/-!
# Directories as finite maps

The entries of a directory bind names to inode numbers. What of a name counts is
its first `DIRSIZ` characters up to the first zero, so long names are bound
without a terminator. `dirlookup` reads the map, `dirlink` adds a name, and
`sys_unlink` removes one by clearing the entry that `dirlookup` found.
-/
namespace Xv6.Fs

open Function Prog

/-- What an entry binds: nothing if its inode number is 0. -/
def Dirent.binding (de : Dirent) : Option (Name × ℕ) :=
  if de.inum = 0 then none else some (cstr DIRSIZ de.name, de.inum)

namespace Node

/-- The finite map of a directory. -/
def map (n : Node) : Name → Option ℕ := SlotMap.lookup Dirent.binding n.entries

def Distinct (n : Node) : Prop := SlotMap.Distinct Dirent.binding n.entries

end Node

def dirMap (sb : Superblock) (s : State) (dp : Ip) : Name → Option ℕ :=
  (nodes sb s (s.itable dp).inum).map

/-- A locked directory of a well-formed file system: its size is a multiple of 16
and its names are distinct. -/
structure Directory (sb : Superblock) (dp : Ip) (s : State) : Prop where
  inv : FsInv sb (· = .dir) s
  ready : Ready s dp
  type : (s.itable dp).dino.type = .dir
  size : (s.itable dp).dino.size % DIRENT = 0
  distinct : (nodes sb s (s.itable dp).inum).Distinct

/-- The part of `sys_unlink` that finds an entry and clears it. -/
def clearEntry (sb : Superblock) (dp : Ip) (name : Name) : FsM (Option Ip) := do
  match ← dirlookup sb dp name with
  | none => return none
  | some (ip, off) =>
    if ← writeDirent sb dp (List.replicate DIRENT 0) off then
      return some ip
    else
      throw .unlinkWritei

inductive DirOp where
  | lookup (name : Name)
  | link (name : Name) (inum : ℕ)
  | clear (name : Name)

namespace DirOp

/-- The numbers that are linked are those of inodes, and fit an entry. -/
def Valid (sb : Superblock) : DirOp → Prop
  | .link _ inum => 0 < inum ∧ inum < sb.ninodes ∧ inum < 65536
  | _ => True

/-- One operation on the directory in slot `dp`: was the name found, was it added?
The reference that `dirlookup` took is given back. -/
def exec (sb : Superblock) (dp : Ip) : DirOp → FsM Bool
  | .lookup name => do
    match ← dirlookup sb dp name with
    | some (ip, _) =>
      iput sb ip
      return true
    | none => return false
  | .link name inum => dirlink sb dp name inum
  | .clear name => do
    match ← clearEntry sb dp name with
    | some ip =>
      iput sb ip
      return true
    | none => return false

/-- What an operation with result `r` does to the map. -/
def apply (m : Name → Option ℕ) (op : DirOp) (r : Bool) : Name → Option ℕ :=
  match op with
  | .lookup _ => m
  | .link name inum => if r then update m (cstr DIRSIZ name) (some inum) else m
  | .clear name => if r then update m (cstr DIRSIZ name) none else m

end DirOp

/-- Operations one after the other, with their results. -/
def runOps (sb : Superblock) (dp : Ip) : List DirOp → FsM (List Bool)
  | [] => return []
  | op :: ops => do
    let r ← op.exec sb dp
    let rs ← runOps sb dp ops
    return r :: rs

def applyOps : (Name → Option ℕ) → List DirOp → List Bool → Name → Option ℕ
  | m, op :: ops, r :: rs => applyOps (op.apply m r) ops rs
  | m, _, _ => m

variable {sb : Superblock} {s s' : State} {ip dp : Ip} {E : Panic → Prop} {n : Node} {name : Name}
  {inum i k : ℕ}

lemma binding_eq_some_iff {de : Dirent} : de.binding = some (cstr DIRSIZ name, i) ↔
    de.Matches name ∧ de.inum = i := by
  unfold Dirent.binding Dirent.Matches
  rw [namecmp_eq_zero]
  by_cases h0 : de.inum = 0
  · simp [h0]
  · simp only [h0, if_false, Option.some.injEq, Prod.mk.injEq, ne_eq, not_false_eq_true, true_and]
    rw [eq_comm (a := cstr DIRSIZ name)]

lemma target_eq_map : n.target name = n.map (cstr DIRSIZ name) := by
  cases hf : n.find name with
  | none =>
    rw [target_of_find_none hf]
    symm
    refine SlotMap.lookup_eq_none_iff.mpr fun k de v hde hb => ?_
    exact find_eq_none_iff.mp hf k de hde (binding_eq_some_iff.mp hb).1
  | some k =>
    obtain ⟨⟨de, hde, hm⟩, hlt⟩ := find_eq_some_iff.mp hf
    rw [target_of_find hf hde]
    symm
    rw [Node.map, SlotMap.lookup, List.findSome?_eq_some_iff]
    obtain ⟨hk, hget⟩ := List.getElem?_eq_some_iff.mp hde
    refine ⟨n.entries.take k, de, n.entries.drop (k + 1), ?_, ?_, fun e he => ?_⟩
    · rw [← hget, List.getElem_cons_drop, List.take_append_drop]
    · rw [binding_eq_some_iff.mpr ⟨hm, rfl⟩]
      simp
    · obtain ⟨j, hj⟩ := List.mem_iff_getElem?.mp he
      rw [List.getElem?_take] at hj
      split at hj
      · next hjk =>
        cases hb : e.binding with
        | none => rfl
        | some p =>
          by_contra hne
          simp only [Option.bind_some, ite_eq_right_iff, reduceCtorEq, imp_false, not_not] at hne
          have hp : e.binding = some (cstr DIRSIZ name, p.2) := by rw [hb, ← hne]
          exact hlt j e hjk hj (binding_eq_some_iff.mp hp).1
      · cases hj

lemma map_eq_none_iff : n.map (cstr DIRSIZ name) = none ↔ n.find name = none := by
  rw [← target_eq_map]
  refine ⟨fun h => ?_, target_of_find_none⟩
  by_contra hne
  obtain ⟨k, hk⟩ := Option.ne_none_iff_exists'.mp hne
  obtain ⟨⟨de, hde, -⟩, -⟩ := find_eq_some_iff.mp hk
  cases (target_of_find hk hde).symm.trans h

lemma slotFor_free {de : Dirent} (hde : n.entries[n.slotFor]? = some de) : de.binding = none := by
  obtain ⟨hk, rfl⟩ := List.getElem?_eq_some_iff.mp hde
  have h0 : n.entries[n.slotFor].inum = 0 := by
    exact of_decide_eq_true (List.findIdx_getElem (w := hk))
  rw [Dirent.binding, if_pos h0]

lemma binding_padded (h0 : 0 < inum) (h16 : inum < 65536) :
    (Dirent.padded inum name).binding = some (cstr DIRSIZ name, inum) := by
  have hmod : inum % 65536 = inum := Nat.mod_eq_of_lt h16
  rw [Dirent.binding, Dirent.padded]
  simp only [hmod, h0.ne', if_false, cstr_strncpy]

lemma binding_zeros : (direntOf (List.replicate DIRENT 0)).binding = none := by decide

/-- The name is there, but there is no slot for its inode in the table. -/
def Stuck (sb : Superblock) (dp : Ip) (name : Name) (s : State) : Prop :=
  ∃ i, dirMap sb s dp (cstr DIRSIZ name) = some i ∧ NoSlot s i

structure LookupSpec (sb : Superblock) (dp : Ip) (name : Name) (s : State) : Prop where
  stuck : Stuck sb dp name s → (dirlookup sb dp name).run s = .error .igetNoInodes
  absent : dirMap sb s dp (cstr DIRSIZ name) = none → (dirlookup sb dp name).run s = .ok (none, s)
  found : ∀ i, dirMap sb s dp (cstr DIRSIZ name) = some i → ¬ NoSlot s i → ∃ ip k de s',
    (dirlookup sb dp name).run s = .ok (some (ip, DIRENT * k), s') ∧ Got s i ip s' ∧
      (nodes sb s (s.itable dp).inum).entries[k]? = some de ∧
      de.binding = some (cstr DIRSIZ name, i)

structure LinkSpec (sb : Superblock) (dp : Ip) (name : Name) (inum : ℕ) (s : State) : Prop where
  stuck : Stuck sb dp name s → (dirlink sb dp name inum).run s = .error .igetNoInodes
  ok : ¬ Stuck sb dp name s → ∃ r s', (dirlink sb dp name inum).run s = .ok (r, s') ∧
    Directory sb dp s' ∧
    (r = false ↔ dirMap sb s dp (cstr DIRSIZ name) ≠ none ∨
      ¬ Room sb s dp (nodes sb s (s.itable dp).inum).slotFor) ∧
    (r = false → nodes sb s' = nodes sb s ∧ dirMap sb s' dp = dirMap sb s dp) ∧
    (r = true → nodes sb s' = update (nodes sb s) (s.itable dp).inum
        ((nodes sb s (s.itable dp).inum).setEntry (nodes sb s (s.itable dp).inum).slotFor
          (.padded inum name)) ∧
      dirMap sb s' dp = update (dirMap sb s dp) (cstr DIRSIZ name) (some inum)) ∧
    ∀ jp, (s'.itable jp).ref = (s.itable jp).ref

structure ClearSpec (sb : Superblock) (dp : Ip) (name : Name) (s : State) : Prop where
  stuck : Stuck sb dp name s → (clearEntry sb dp name).run s = .error .igetNoInodes
  absent : dirMap sb s dp (cstr DIRSIZ name) = none → (clearEntry sb dp name).run s = .ok (none, s)
  found : ∀ i, dirMap sb s dp (cstr DIRSIZ name) = some i → ¬ NoSlot s i → ∃ ip k s',
    (clearEntry sb dp name).run s = .ok (some ip, s') ∧ (s'.itable ip).inum = i ∧
      Directory sb dp s' ∧
      nodes sb s' = update (nodes sb s) (s.itable dp).inum
        ((nodes sb s (s.itable dp).inum).setEntry k (direntOf (List.replicate DIRENT 0))) ∧
      dirMap sb s' dp = update (dirMap sb s dp) (cstr DIRSIZ name) none

lemma Got.not_noSlot (hg : Got s i ip s') : ¬ NoSlot s i := by
  intro hc
  obtain ⟨hpos, hne⟩ := hc ip
  exact hne (hg.found hpos).1

namespace Directory

lemma tolerates (h : Directory sb dp s) : Tolerates E s dp where
  notDir hc := absurd h.type hc
  lookup hc := absurd h.size hc
  link hc := absurd h.size hc
  empty hc := absurd h.size hc

lemma got (h : Directory sb dp s) (hg : Got s i ip s') (h1 : 1 ≤ i) (h2 : i < sb.ninodes) :
    Directory sb dp s' ∧ (s'.itable dp).inum = (s.itable dp).inum ∧
      (s'.itable dp).dino = (s.itable dp).dino := by
  have hdp : (s'.itable dp).inum = (s.itable dp).inum ∧
      (s'.itable dp).dino = (s.itable dp).dino ∧ Ready s' dp := by
    obtain ⟨hlive, hvalid⟩ := h.ready
    by_cases he : dp = ip
    · subst he
      obtain ⟨hi, hv, hd⟩ := hg.found hlive
      exact ⟨hg.inum.trans hi.symm, hd, by simp [hg.ref], hv.trans hvalid⟩
    · have hs := hg.slots he
      exact ⟨by rw [hs], by rw [hs], by rwa [hs], by rwa [hs]⟩
  obtain ⟨hinum, hdino, hready⟩ := hdp
  refine ⟨⟨hg.inv h.inv h1 h2, hready, hdino ▸ h.type, hdino ▸ h.size, ?_⟩, hinum, hdino⟩
  rw [hg.nodes, hinum]
  exact h.distinct

lemma edited (h : Directory sb dp s) {c : ℕ} (he : Edited sb (· = .dir) dp n c s s')
    (hty : n.type = .dir) (hsize : (s'.itable dp).dino.size % DIRENT = 0) (hd : n.Distinct) :
    Directory sb dp s' ∧ (nodes sb s' (s'.itable dp).inum) = n := by
  have hr := he.ready h.ready
  have hn : nodes sb s' (s'.itable dp).inum = n := by
    rw [he.nodes, he.inum, update_self]
  refine ⟨⟨he.inv, hr, ?_, hsize, hn ▸ hd⟩, hn⟩
  rw [nodes_of_ready he.inv hr] at hn
  rw [← hty, ← hn]
  rfl

lemma length (h : Directory sb dp s) :
    DIRENT * (nodes sb s (s.itable dp).inum).entries.length = (s.itable dp).dino.size := by
  have hsize := h.size
  rw [entries_dir h.inv h.ready h.type, List.length_map, List.length_range, slots]
  simp only [DIRENT] at hsize ⊢
  omega

end Directory

theorem Directory.lookup (h : Directory sb dp s) (name : Name) : LookupSpec sb dp name s where
  stuck hs := by
    obtain ⟨i, hi, hno⟩ := hs
    rw [dirMap, ← target_eq_map] at hi
    apply run_error_of_wp
    refine wp_dirlookup (T := (· = .dir)) (E := (· = .igetNoInodes)) rfl h.inv h.ready
      h.tolerates (fun _ _ _ => rfl) (fun _ hf => ?_) fun k de ip s' _ hf hde _ hg => ?_
    · rw [target_of_find_none hf] at hi
      cases hi
    · rw [target_of_find hf hde] at hi
      cases hi
      exact hg.not_noSlot hno
  absent hm := by
    rw [dirMap, ← target_eq_map] at hm
    have hw : wp (dirlookup sb dp name) s (fun r s' => r = none ∧ s' = s) fun _ => False := by
      refine wp_dirlookup (T := (· = .dir)) rfl h.inv h.ready h.tolerates (fun i hi _ => ?_) (fun _ _ => ⟨rfl, rfl⟩)
        fun k de ip s' _ hf hde _ _ => ?_
      · rw [hm] at hi
        cases hi
      · rw [target_of_find hf hde] at hm
        cases hm
    obtain ⟨r, s', hrun, hr, hs⟩ := exists_run_of_wp hw
    rw [hrun, hr, hs]
  found i hi hno := by
    rw [dirMap, ← target_eq_map] at hi
    have hw : wp (dirlookup sb dp name) s (fun r s' => ∃ ip k de, r = some (ip, DIRENT * k) ∧
        Got s i ip s' ∧ (nodes sb s (s.itable dp).inum).entries[k]? = some de ∧
        de.binding = some (cstr DIRSIZ name, i)) fun _ => False := by
      refine wp_dirlookup (T := (· = .dir)) rfl h.inv h.ready h.tolerates (fun j hj hc => ?_) (fun _ hf => ?_)
        fun k de ip s' _ hf hde hm hg => ?_
      · rw [hi] at hj
        cases hj
        exact hno hc
      · rw [target_of_find_none hf] at hi
        cases hi
      · rw [target_of_find hf hde] at hi
        cases hi
        exact ⟨ip, k, de, rfl, hg, hde, binding_eq_some_iff.mpr ⟨hm, rfl⟩⟩
    obtain ⟨r, s', hrun, ip, k, de, rfl, hg, hde, hb⟩ := exists_run_of_wp hw
    exact ⟨ip, k, de, s', hrun, hg, hde, hb⟩

lemma Directory.insert (h : Directory sb dp s)
    (hf : (nodes sb s (s.itable dp).inum).find name = none) (h0 : 0 < inum) (h16 : inum < 65536) :
    ((nodes sb s (s.itable dp).inum).setEntry (nodes sb s (s.itable dp).inum).slotFor
        (.padded inum name)).Distinct ∧
      ((nodes sb s (s.itable dp).inum).setEntry (nodes sb s (s.itable dp).inum).slotFor
        (.padded inum name)).map = update (dirMap sb s dp) (cstr DIRSIZ name) (some inum) :=
  SlotMap.insert h.distinct slotFor_le (fun _ => slotFor_free) (map_eq_none_iff.mpr hf)
    (binding_padded h0 h16)

theorem Directory.link (h : Directory sb dp s) (name : Name) (h0 : 0 < inum)
    (hi : inum < sb.ninodes) (h16 : inum < 65536) : LinkSpec sb dp name inum s where
  stuck hs := run_bind_error ((h.lookup name).stuck hs) _
  ok hs := by
    have hle : DIRENT * (nodes sb s (s.itable dp).inum).slotFor ≤ (s.itable dp).dino.size := by
      rw [← h.length]
      exact Nat.mul_le_mul_left _ slotFor_le
    have hty : (nodes sb s (s.itable dp).inum).type = .dir := by
      rw [nodes_of_ready h.inv h.ready]
      exact h.type
    apply exists_run_of_wp
    refine wp_dirlink (T := (· = .dir)) rfl h.inv h.ready h.tolerates (fun i ht hc => ?_) hi
      (fun s' _ hf hroom hsize he => ?_) fun s' hno hkept he => ?_
    · rw [target_eq_map] at ht
      exact hs ⟨i, ht, hc⟩
    · obtain ⟨hdist, hmap⟩ := h.insert hf h0 h16
      have hmod : (s'.itable dp).dino.size % DIRENT = 0 := by
        have hold := h.size
        rw [hsize]
        simp only [DIRENT] at hold ⊢
        omega
      obtain ⟨hdir, hn⟩ := h.edited he hty hmod hdist
      refine ⟨hdir, ⟨fun hc => (by cases hc), fun hc => ?_⟩, fun hc => (by cases hc), fun _ => ?_,
        he.refs⟩
      · obtain hc | hc := hc
        · exact absurd (map_eq_none_iff.mpr hf) hc
        · exact absurd (hroom hle) hc
      · refine ⟨he.nodes, ?_⟩
        rw [dirMap, hn, hmap]
    · have hmod : (s'.itable dp).dino.size % DIRENT = 0 := by
        obtain ⟨m, a, ha⟩ := hkept.fields
        have hold := h.size
        rw [(he.inv.coh dp (he.ready h.ready)).1, he.inum, ha, ← (h.inv.coh dp h.ready).1]
        exact hold
      obtain ⟨hdir, hn⟩ := h.edited he hty hmod h.distinct
      refine ⟨hdir, ⟨fun _ => ?_, fun _ => rfl⟩, fun _ => ⟨?_, ?_⟩, fun hc => (by cases hc), he.refs⟩
      · by_cases hf : (nodes sb s (s.itable dp).inum).find name = none
        · exact Or.inr ((hno hf).2 hle)
        · exact Or.inl fun hc => hf (map_eq_none_iff.mp hc)
      · rw [he.nodes, update_eq_self]
      · rw [dirMap, hn]
        rfl

/-- Clearing entry `k` after the inode of its name was taken. -/
lemma Directory.wp_clear (h : Directory sb dp s) {de : Dirent} (hg : Got s i ip s')
    (hde : (nodes sb s (s.itable dp).inum).entries[k]? = some de)
    (hb : de.binding = some (cstr DIRSIZ name, i)) :
    wp (do
      if ← writeDirent sb dp (List.replicate DIRENT 0) (DIRENT * k) then
        return some ip
      else
        throw .unlinkWritei) s' (fun r t => r = some ip ∧
      Touched sb (· = .dir) dp ((nodes sb s (s.itable dp).inum).setEntry k
        (direntOf (List.replicate DIRENT 0))) 2 s' t ∧ Directory sb dp t ∧
      nodes sb t = update (nodes sb s) (s.itable dp).inum
        ((nodes sb s (s.itable dp).inum).setEntry k (direntOf (List.replicate DIRENT 0))) ∧
      dirMap sb t dp = update (dirMap sb s dp) (cstr DIRSIZ name) none) fun _ => False := by
  obtain ⟨hm, hi⟩ := binding_eq_some_iff.mp hb
  have hi0 : i ≠ 0 := hi ▸ hm.1
  have hlt : i < sb.ninodes := hi ▸ h.inv.entry_lt hde
  obtain ⟨h', hinum, hdino⟩ := h.got hg (Nat.pos_of_ne_zero hi0) hlt
  have hk := (List.getElem?_eq_some_iff.mp hde).1
  have hlen := h.length
  have hfit : DIRENT * k + DIRENT ≤ (s'.itable dp).dino.size := by
    rw [hdino, ← hlen]
    exact (Nat.mul_succ DIRENT k).symm.le.trans (Nat.mul_le_mul_left _ hk)
  have hslots : k ≤ slots (s'.itable dp).dino.size :=
    (lt_slots.mpr (by simp only [DIRENT] at hfit ⊢; omega)).le
  have hty : (nodes sb s (s.itable dp).inum).type = .dir := by
    rw [nodes_of_ready h.inv h.ready]
    exact h.type
  have hN : nodes sb s' = nodes sb s := hg.nodes
  have hzero : (direntOf (List.replicate DIRENT 0)).inum < sb.ninodes := by
    have hz : (direntOf (List.replicate DIRENT 0)).inum = 0 := by decide
    rw [hz]
    exact Nat.pos_of_ne_zero fun hc => absurd sb.root_lt (by omega)
  rw [wp_bind]
  refine wp_call (wp_writeDirent (T := (· = .dir)) rfl h'.inv h'.ready h'.type hslots _ hzero)
    fun r t ht => ?_
  obtain ⟨ht, hroom, hsize, -⟩ := ht
  have hr : r = true := (hroom (by omega)).mpr
    (room_of_le (T := (· = .dir)) rfl h'.inv h'.ready h'.type hfit)
  subst hr
  rw [if_pos rfl, hinum, hN] at ht
  obtain ⟨hdist, hmap⟩ := SlotMap.erase h.distinct hde hb binding_zeros
  have hmod : (t.itable dp).dino.size % DIRENT = 0 := by
    have hold := h'.size
    rw [hsize rfl]
    simp only [DIRENT] at hold ⊢
    omega
  obtain ⟨hdir, hn⟩ := h'.edited (.of_touched ht) hty hmod hdist
  refine ⟨rfl, ht, hdir, ?_, ?_⟩
  · rw [ht.nodes, hinum, hN]
  · rw [dirMap, hn]
    exact hmap

theorem Directory.clear (h : Directory sb dp s) (name : Name) : ClearSpec sb dp name s where
  stuck hs := run_bind_error ((h.lookup name).stuck hs) _
  absent hm := by
    rw [clearEntry, run_bind ((h.lookup name).absent hm)]
    rfl
  found i hi hno := by
    obtain ⟨ip, k, de, s₁, hrun, hg, hde, hb⟩ := (h.lookup name).found i hi hno
    obtain ⟨r, t, hclear, rfl, ht, hdir, hn, hmap⟩ :=
      exists_run_of_wp (h.wp_clear hg hde hb)
    refine ⟨ip, k, t, ?_, ?_, hdir, hn, hmap⟩
    · rw [clearEntry, run_bind hrun]
      exact hclear
    · rw [(ht.fields ip).1, hg.inum]

lemma Directory.setRef (h : Directory sb dp s) {r : ℕ} (hr : ip = dp → 0 < r)
    (hinv : FsInv sb (· = .dir) (s.setSlot ip { s.itable ip with ref := r })) :
    Directory sb dp (s.setSlot ip { s.itable ip with ref := r }) ∧
      dirMap sb (s.setSlot ip { s.itable ip with ref := r }) dp = dirMap sb s dp := by
  have hslot : ((s.setSlot ip { s.itable ip with ref := r }).itable dp).inum = (s.itable dp).inum ∧
      ((s.setSlot ip { s.itable ip with ref := r }).itable dp).dino = (s.itable dp).dino ∧
      Ready (s.setSlot ip { s.itable ip with ref := r }) dp := by
    obtain ⟨hlive, hvalid⟩ := h.ready
    by_cases he : dp = ip
    · subst he
      exact ⟨by simp, by simp, by simp [hr rfl], by simp [hvalid]⟩
    · have hs : (s.setSlot ip { s.itable ip with ref := r }).itable dp = s.itable dp :=
        setSlot_of_ne he
      exact ⟨by rw [hs], by rw [hs], by rwa [hs], by rwa [hs]⟩
  obtain ⟨hinum, hdino, hready⟩ := hslot
  refine ⟨⟨hinv, hready, hdino ▸ h.type, hdino ▸ h.size, ?_⟩, ?_⟩
  · rw [nodes_setSlot, hinum]
    exact h.distinct
  · rw [dirMap, dirMap, nodes_setSlot, hinum]

def OpPost (sb : Superblock) (dp : Ip) (op : DirOp) (s : State) (r : Bool) (s' : State) : Prop :=
  Directory sb dp s' ∧ dirMap sb s' dp = op.apply (dirMap sb s dp) r ∧
    ∀ jp, (s'.itable jp).ref = (s.itable jp).ref

/-- The one panic that remains: the inode table is full. -/
def OpPanic (s : State) (e : Panic) : Prop := e = .igetNoInodes ∧ ∀ jp, 0 < (s.itable jp).ref

/-- The reference to what was found goes back, whatever happened to the directory
in between. -/
lemma Directory.wp_put (h : Directory sb dp s) (hg : Got s i ip s') {t : State}
    (ht : Directory sb dp t)
    (hfields : ∀ jp, (t.itable jp).ref = (s'.itable jp).ref ∧
      (t.itable jp).valid = (s'.itable jp).valid) :
    wp (iput sb ip) t (fun _ t' => Directory sb dp t' ∧ dirMap sb t' dp = dirMap sb t dp ∧
      ∀ jp, (t'.itable jp).ref = (s.itable jp).ref) E := by
  obtain ⟨href, hvalid⟩ := hfields ip
  have hnot : ¬ ((t.itable ip).ref = 1 ∧ (t.itable ip).valid = true) := by
    rintro ⟨h1, hv⟩
    rw [href, hg.ref] at h1
    rw [hvalid, (hg.filled (by omega)).2] at hv
    cases hv
  refine wp_iput_of ht.inv (fun h1 hv _ _ => absurd ⟨h1, hv⟩ hnot) (fun _ hinv => ?_)
    fun h1 hv => absurd ⟨h1, hv⟩ hnot
  have hlive : ip = dp → 0 < (t.itable ip).ref - 1 := by
    intro he
    rw [href, hg.ref, he]
    exact h.ready.live
  obtain ⟨hdir, hmap⟩ := ht.setRef hlive hinv
  refine ⟨hdir, hmap, fun jp => ?_⟩
  by_cases hjp : jp = ip
  · rw [hjp, setSlot_self, href, hg.ref]
    rfl
  · rw [setSlot_of_ne hjp, (hfields jp).1, hg.slots hjp]

theorem Directory.wp_exec (h : Directory sb dp s) (op : DirOp) (hop : op.Valid sb) :
    wp (op.exec sb dp) s (OpPost sb dp op s) (OpPanic s) := by
  cases op with
  | lookup name =>
    rw [DirOp.exec, wp_bind]
    refine wp_dirlookup (T := (· = .dir)) rfl h.inv h.ready h.tolerates
      (fun i _ hc => ⟨rfl, fun jp => (hc jp).1⟩) (fun _ _ => ⟨h, rfl, fun _ => rfl⟩)
      fun k de ip s₁ _ hf hget hde hg => ?_
    obtain ⟨h₁, hinum, -⟩ := h.got hg (Nat.pos_of_ne_zero hde.1) (h.inv.entry_lt hget)
    rw [wp_bind]
    refine wp_call (h.wp_put hg h₁ fun _ => ⟨rfl, rfl⟩) fun _ t ht => ?_
    obtain ⟨hdir, hmap, href⟩ := ht
    refine ⟨hdir, ?_, href⟩
    rw [hmap, dirMap, hg.nodes, hinum]
    rfl
  | link name inum =>
    obtain ⟨h0, hi, h16⟩ := hop
    by_cases hs : Stuck sb dp name s
    · obtain ⟨i, hi', hno⟩ := id hs
      unfold wp
      rw [DirOp.exec, (h.link name h0 hi h16).stuck hs]
      exact ⟨rfl, fun jp => (hno jp).1⟩
    · obtain ⟨r, s', hrun, hdir, -, hfail, hok, href⟩ := (h.link name h0 hi h16).ok hs
      rw [DirOp.exec, wp_of_run hrun]
      refine ⟨hdir, ?_, href⟩
      cases r with
      | false => exact (hfail rfl).2
      | true => exact (hok rfl).2
  | clear name =>
    rw [DirOp.exec, wp_bind, clearEntry, wp_bind]
    refine wp_dirlookup (T := (· = .dir)) rfl h.inv h.ready h.tolerates
      (fun i _ hc => ⟨rfl, fun jp => (hc jp).1⟩) (fun _ _ => ⟨h, rfl, fun _ => rfl⟩)
      fun k de ip s₁ _ hf hget hde hg => ?_
    have hb := binding_eq_some_iff.mpr ⟨hde, rfl⟩
    refine wp_mono (h.wp_clear hg hget hb) (fun r t ht => ?_) fun _ hc => hc.elim
    obtain ⟨rfl, htouch, hdir, -, hmap⟩ := ht
    rw [wp_bind]
    refine wp_call (h.wp_put hg hdir fun jp => ?_) fun _ t' ht' => ?_
    · obtain ⟨-, href, hvalid, -⟩ := htouch.fields jp
      exact ⟨href, hvalid⟩
    · obtain ⟨hdir', hmap', href⟩ := ht'
      exact ⟨hdir', hmap'.trans hmap, href⟩

/-- A sequence keeps the directory well formed and computes the finite map. -/
theorem Directory.wp_run (h : Directory sb dp s) (ops : List DirOp)
    (hops : ∀ op ∈ ops, op.Valid sb) :
    wp (runOps sb dp ops) s (fun rs s' => Directory sb dp s' ∧
      dirMap sb s' dp = applyOps (dirMap sb s dp) ops rs) (OpPanic s) := by
  induction ops generalizing s with
  | nil => exact ⟨h, rfl⟩
  | cons op ops ih =>
    obtain ⟨hop, hops⟩ := List.forall_mem_cons.mp hops
    rw [runOps, wp_bind]
    refine wp_call (h.wp_exec op hop) fun r s₁ h₁ => ?_
    obtain ⟨hdir, hmap, href⟩ := h₁
    rw [wp_bind]
    refine wp_mono (ih hdir hops) (fun rs s' h' => ?_) fun e he => ⟨he.1, fun jp => ?_⟩
    · refine ⟨h'.1, ?_⟩
      rw [h'.2, hmap]
      rfl
    · rw [← href jp]
      exact he.2 jp

/-- A directory is a finite map from names to inode numbers. A call stops only when
the name it finds belongs to an inode that has no slot in the inode table and
there is no free one; with a free slot no sequence of calls stops. -/
theorem directory_is_finite_map (h : Directory sb dp s) :
    (∀ name, LookupSpec sb dp name s) ∧
    (∀ name inum, 0 < inum → inum < sb.ninodes → inum < 65536 → LinkSpec sb dp name inum s) ∧
    (∀ name, ClearSpec sb dp name s) ∧
    ∀ ops : List DirOp, (∀ op ∈ ops, op.Valid sb) →
      ((∃ jp, (s.itable jp).ref = 0) → ∃ rs s', (runOps sb dp ops).run s = .ok (rs, s')) ∧
      ∀ rs s', (runOps sb dp ops).run s = .ok (rs, s') → Directory sb dp s' ∧
        dirMap sb s' dp = applyOps (dirMap sb s dp) ops rs := by
  refine ⟨h.lookup, fun name inum h0 hi h16 => h.link name h0 hi h16, h.clear, fun ops hops => ?_⟩
  have hrun := h.wp_run ops hops
  refine ⟨fun hfree => ?_, fun rs s' hr => wp_elim hrun hr⟩
  obtain ⟨jp, hjp⟩ := hfree
  have hno : ∀ e, OpPanic s e → False := fun e he => absurd hjp (he.2 jp).ne'
  obtain ⟨rs, s', hr, -⟩ := exists_run_of_wp (wp_mono hrun (fun _ _ h => h) hno)
  exact ⟨rs, s', hr⟩

def rootEntries : List Dirent := [⟨1, dot⟩, ⟨1, dotdot⟩]

/-- A root directory, and only it in the inode table. -/
def rootFs : State := plain (rootPlan rootEntries) (firstSlots (rootPlan rootEntries) 1)

/-- A root directory with an entry `x` for inode 60, and 50 other inodes in the table. -/
def fullFs : State :=
  plain (rootPlan (rootEntries ++ [⟨60, [120]⟩]))
    (firstSlots (rootPlan (rootEntries ++ [⟨60, [120]⟩])) NINODE)

lemma directory_root {es : List Dirent} {m : ℕ} (hm : 0 < m) (hlen : es.length ≤ 768)
    (hes : ∀ de ∈ es, de.inum < 300)
    (hd : SlotMap.Distinct Dirent.binding (es.map fun de => .padded de.inum de.name)) :
    Directory plainSb rootSlot (plain (rootPlan es) (firstSlots (rootPlan es) m)) where
  inv := plain_inv (planOk_root hlen hes) (tableOk_firstSlots (by simp [rootPlan]))
  ready := by
    refine ⟨?_, rfl⟩
    show 0 < if 0 < m then 1 else 0
    rw [if_pos hm]
    exact Nat.one_pos
  type := rfl
  size := by
    show DIRENT * es.length % DIRENT = 0
    exact Nat.mul_mod_right ..
  distinct := by
    rw [nodes_plain (planOk_root hlen hes)]
    exact hd

lemma rootFs_directory : Directory plainSb rootSlot rootFs :=
  directory_root (by decide) (by decide) (by decide) (SlotMap.distinct_of_pairwise (by decide))

lemma fullFs_directory : Directory plainSb rootSlot fullFs :=
  directory_root (by decide) (by decide) (by decide) (SlotMap.distinct_of_pairwise (by decide))

theorem directory_is_finite_map_root :
    LookupSpec plainSb rootSlot dot rootFs ∧ ClearSpec plainSb rootSlot dotdot rootFs :=
  ⟨(directory_is_finite_map rootFs_directory).1 dot,
    (directory_is_finite_map rootFs_directory).2.2.1 dotdot⟩

/-- With a full inode table `dirlookup` stops the machine although the name is there;
and `dirlink` of the number 65536 reports success and adds nothing. -/
theorem directory_loses_names :
    (Directory plainSb rootSlot fullFs ∧ dirMap plainSb fullFs rootSlot [120] = some 60 ∧
      (dirlookup plainSb rootSlot [120]).run fullFs = .error .igetNoInodes) ∧
    Directory plainSb rootSlot rootFs ∧
      ((dirlink plainSb rootSlot [120] 65536).run rootFs).map
        (fun p => (p.1, dirMap plainSb p.2 rootSlot [120])) = .ok (true, none) := by
  have hmap : dirMap plainSb fullFs rootSlot (cstr DIRSIZ [120]) = some 60 := by decide +kernel
  refine ⟨⟨fullFs_directory, hmap, ?_⟩, rootFs_directory, by decide +kernel⟩
  refine (fullFs_directory.lookup [120]).stuck ⟨60, hmap, fun jp => ?_⟩
  have hlt := jp.isLt
  show 0 < (if jp.val < NINODE then 1 else 0) ∧ jp.val + 1 ≠ 60
  rw [if_pos hlt]
  simp only [NINODE] at hlt
  omega

end Xv6.Fs
