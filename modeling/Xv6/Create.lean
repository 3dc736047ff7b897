import Xv6.CallFrame

/-!
# Creating inodes

`create` makes an inode, gives a directory its first two entries and enters the
name in the parent. When one of these links fails it takes the link count back,
and dropping the last reference frees the inode and its blocks.
-/
namespace Xv6.Fs

open Function Prog

variable {sb : Superblock} {T : FileType → Prop} {s s' t : State} {ip dp : Ip}
  {E : Panic → Prop} {base : Ip → ℕ} {L M : List Ip} {n : Node} {c : ℕ} {name : Name}

def Node.withDots (n : Node) (i p : ℕ) : Node :=
  (n.setEntry n.slotFor (.padded i dot)).setEntry
    (n.setEntry n.slotFor (.padded i dot)).slotFor (.padded p dotdot)

/-- What the links make of a new inode `i` in directory `p`. -/
def Node.created (n : Node) (type : FileType) (i p : ℕ) : Node :=
  if type = .dir then n.withDots i p else n

/-- What `createLinks` guarantees, `i` being the inode and `p` the directory. -/
structure Linking (sb : Superblock) (T : FileType → Prop) (i p : ℕ) (name : Name) (n : Node)
    (r : Bool) (s s' : State) : Prop where
  rewritten : Rewritten sb T [i, p] 6 s s'
  ok : r = true → (nodes sb s p).type = .dir ∧ (nodes sb s p).find name = none ∧
    nodes sb s' = update (update (nodes sb s) i n) p
      ((nodes sb s p).setEntry (nodes sb s p).slotFor (.padded i name))
  fail : r = false → Preserved sb (· = i) (· = p) s s' ∧
    ∃ n', n'.type = (nodes sb s i).type ∧ nodes sb s' = update (nodes sb s) i n'

section Links

variable (hT : T .dir) (hE : Soft E)
include hT hE

lemma wp_linkParent (hdp : Ready s dp) (hip : Ready s ip)
    (hne : (s.itable ip).inum ≠ (s.itable dp).inum)
    (hrw : Rewritten sb T [(s.itable ip).inum] c s t) (hc : c ≤ 4)
    (hN : nodes sb t = update (nodes sb s) (s.itable ip).inum n)
    (hty : n.type = (nodes sb s (s.itable ip).inum).type) :
    wp (dirlink sb dp name (s.itable ip).inum) t
      (Linking sb T (s.itable ip).inum (s.itable dp).inum name n · s ·) E := by
  have hinum : (t.itable dp).inum = (s.itable dp).inum := hrw.inums dp hdp.live
  have hi : (s.itable ip).inum < sb.ninodes := by
    rw [← hrw.inums ip hip.live]
    exact (hrw.inv.inums ip (hrw.ready ip hip).live).2
  have hnode : nodes sb t (t.itable dp).inum = nodes sb s (s.itable dp).inum := by
    rw [hN, hinum, update_of_ne (Ne.symm hne)]
  have hmem : ∀ j ∈ [(s.itable ip).inum] ++ [(s.itable dp).inum],
      j ∈ [(s.itable ip).inum, (s.itable dp).inum] := fun j hj => hj
  refine wp_dirlink hT hrw.inv (hrw.ready dp hdp) hE.tolerates hE.noSlot hi
    (fun s' hdir hfind _ _ he => ?_) fun s' _ hkept he => ?_
  · have hr := Rewritten.of_edited he
    rw [hinum] at hr
    rw [hnode] at hdir hfind he
    refine ⟨(hrw.trans hr).mono hmem (by omega), fun _ => ⟨hdir, hfind, ?_⟩, fun h => absurd h (by decide)⟩
    rw [he.nodes, hN, hinum]
  · have hr := Rewritten.of_edited he
    rw [hinum] at hr hkept
    refine ⟨(hrw.trans hr).mono hmem (by omega), fun h => absurd h (by decide),
      fun _ => ⟨?_, n, hty, ?_⟩⟩
    · exact (Preserved.of_local hrw.only (by simp)).trans (.of_kept hr.only hkept rfl)
    · rw [he.nodes, update_eq_self, hN]

theorem wp_createLinks (h : FsInv sb T s) (hdp : Ready s dp) (hip : Ready s ip)
    (hne : (s.itable ip).inum ≠ (s.itable dp).inum) (type : FileType) :
    wp (createLinks sb dp ip name type) s (Linking sb T (s.itable ip).inum (s.itable dp).inum name
      ((nodes sb s (s.itable ip).inum).created type (s.itable ip).inum (s.itable dp).inum) · s ·)
      E := by
  have hfirst : ∀ j ∈ [(s.itable ip).inum], j ∈ [(s.itable ip).inum, (s.itable dp).inum] := by
    simp
  obtain ⟨-, hi⟩ := h.inums ip hip.live
  obtain ⟨-, hp⟩ := h.inums dp hdp.live
  unfold createLinks
  simp only [wp_bind, wp_inode, wp_ite]
  split
  · next hdir =>
    subst hdir
    refine wp_dirlink hT h hip hE.tolerates hE.noSlot hi (fun s₁ _ _ _ _ he₁ => ?_)
      fun s₁ _ _ he₁ => ?_
    · -- `.` is there
      have hrw₁ := Rewritten.of_edited he₁
      have hip₁ := he₁.ready hip
      rw [if_pos rfl, hrw₁.inums dp hdp.live]
      refine wp_dirlink hT he₁.inv hip₁ hE.tolerates hE.noSlot hp (fun s₂ _ _ _ _ he₂ => ?_)
        fun s₂ _ _ he₂ => ?_
      · -- and `..`
        have hrw₂ := Rewritten.of_edited he₂
        rw [he₁.inum] at hrw₂
        have hrw : Rewritten sb T [(s.itable ip).inum] 4 s s₂ :=
          (hrw₁.trans hrw₂).mono (by simp) le_rfl
        have hN₂ : nodes sb s₂ = update (nodes sb s) (s.itable ip).inum
            ((nodes sb s (s.itable ip).inum).withDots (s.itable ip).inum (s.itable dp).inum) := by
          rw [he₂.nodes, he₁.inum, he₁.nodes, update_idem, update_self]
          rfl
        rw [if_pos rfl]
        exact wp_linkParent hT hE hdp hip hne hrw le_rfl hN₂ rfl
      · have hrw₂ := Rewritten.of_edited he₂
        rw [he₁.inum] at hrw₂
        have hrw := hrw₁.trans hrw₂
        have hN₂ : nodes sb s₂ = nodes sb s₁ := by rw [he₂.nodes, update_eq_self]
        rw [if_neg (by simp)]
        refine ⟨hrw.mono (by simp) (by omega), fun hc => absurd hc (by decide),
          fun _ => ⟨?_, _, by rfl, hN₂.trans he₁.nodes⟩⟩
        exact .of_local hrw.only (by simp)
    · have hrw₁ := Rewritten.of_edited he₁
      rw [if_neg (by simp)]
      refine ⟨hrw₁.mono hfirst (by omega), fun hc => absurd hc (by decide),
        fun _ => ⟨?_, _, by rfl, he₁.nodes⟩⟩
      exact .of_local hrw₁.only (by simp)
  · next hdir =>
    have hcre : (nodes sb s (s.itable ip).inum).created type (s.itable ip).inum
        (s.itable dp).inum = nodes sb s (s.itable ip).inum := if_neg hdir
    rw [hcre]
    exact wp_linkParent hT hE hdp hip hne (.refl h) (Nat.zero_le 4) (update_eq_self ..).symm rfl

end Links

lemma Local.allocInode (s : State) (i : ℕ) (type : FileType) :
    Local sb [i] 0 s (s.allocInode sb i type) where
  same j _ hj := .of_eq (update_of_ne (by simpa using hj) ..) rfl
  logs := by
    refine ⟨∅, le_rfl, fun b hb => ?_⟩
    obtain hb | hb := List.mem_cons.mp hb
    · exact .inr (.inr (.inl ⟨i, by simp, hb⟩))
    · exact .inl hb

/-- Inode `i` was allocated, locked in slot `ip` and given a link, with the
directory `dp` locked all the time. -/
structure Fresh (sb : Superblock) (T : FileType → Prop) (base : Ip → ℕ) (dp ip : Ip) (i : ℕ)
    (type : FileType) (s s' : State) : Prop where
  inv : FsInv sb T s'
  ready : Ready s' ip
  dir : Ready s' dp
  holds : Holds base [ip, dp] [ip, dp] s'
  alone : base ip = 0
  ne : ip ≠ dp
  inum : (s'.itable ip).inum = i
  dirInum : (s'.itable dp).inum = (s.itable dp).inum
  steady : Steady base s s'
  nodes : nodes sb s' = update (nodes sb s) i { type := type, nlink := 1, entries := [] }
  only : Local sb [i] 0 s s'

variable {Q : Unit → State → Prop}

lemma wp_initInode {type : FileType} {i : ℕ} {major minor : Int16} (hT : T .dir) (ht : type ≠ .free)
    (h : FsInv sb T s) (hdp : Ready s dp) (hh : Holds base [dp] [dp] s)
    (hheld : ∀ jp, 0 < base jp → Allocated sb s.dinode (s.itable jp).inum) (hi : 1 ≤ i)
    (hi' : i < sb.ninodes) (hfree : (s.dinode i).type = .free)
    (hg : Got (s.allocInode sb i type) i ip t)
    (hQ : ∀ s', Fresh sb T base dp ip i type s s' → Q () s') : wp (ilock ip) t (fun _ s₁ =>
      wp (modifyDino ip fun d => { d with major := major, minor := minor, nlink := 1 }) s₁
        (fun _ s₂ => wp (iupdate sb ip) s₂ Q E) E) E := by
  have hnot : ¬ Allocated sb s.dinode i := fun ha => ha.2.2 hfree
  -- every inode in use is allocated, so the slot was empty
  have href : (s.itable ip).ref = 0 := by
    by_contra hc
    obtain ⟨he, -⟩ := hg.found (Nat.pos_of_ne_zero hc)
    have hin : (s.itable ip).inum = i := he
    by_cases hipdp : ip = dp
    · subst hipdp
      exact hnot (hin ▸ h.allocated hdp)
    · have hb : 0 < base ip := by
        have := hh.refs ip
        rw [List.count_singleton, if_neg (by simpa using Ne.symm hipdp)] at this
        omega
      exact hnot (hin ▸ hheld ip hb)
  have hne : ip ≠ dp := by
    intro he
    have := hdp.live
    rw [← he, href] at this
    exact absurd this (lt_irrefl 0)
  have hbase : base ip = 0 := by
    have := hh.refs ip
    omega
  have h₁ : FsInv sb T t := hg.inv (h.allocInode hfree type) hi hi'
  have hh₁ : Holds base [ip, dp] [dp] t :=
    Holds.got (s := s.allocInode sb i type) ⟨hh.refs, hh.locks⟩ hg
  have hty : (t.dinode (t.itable ip).inum).type ≠ .free := by
    have hD : t.dinode i = .fresh type := by
      rw [hg.state]
      exact update_self ..
    rw [hg.inum, hD]
    exact ht
  refine wp_ilock_holds h₁ hh₁ (by simp) (by simpa using hne) (fun hc => absurd hc hty)
    fun s₂ h₂ hr₂ hh₂ q hin hslots => ?_
  rw [hg.inum] at hin
  have hslot : ∀ jp, jp ≠ ip → s₂.itable jp = s.itable jp := fun jp hjp =>
    (hslots jp hjp).trans (hg.slots hjp)
  rw [wp_writeBack]
  apply hQ
  have ht₂ := Touched.of_fields hT h₂ hr₂
    (d := { (s₂.itable ip).dino with major := major, minor := minor, nlink := 1 }) rfl rfl rfl
  have hdp₂ : Ready s₂ dp := by
    have he := hslot dp (Ne.symm hne)
    exact ⟨he ▸ hdp.live, he ▸ hdp.valid⟩
  constructor
  · exact ht₂.inv
  · exact ht₂.ready hr₂
  · exact ht₂.ready hdp₂
  · exact (Rewritten.of_touched ht₂).holds hh₂
  · exact hbase
  · exact hne
  · rw [(ht₂.fields ip).1, hin]
  · rw [(ht₂.fields dp).1, hslot dp (Ne.symm hne)]
  · intro jp hb
    have hjp : jp ≠ ip := by
      rintro rfl
      omega
    rw [(ht₂.fields jp).1, hslot jp hjp]
  · have hN : nodes sb s₂ =
        update (nodes sb s) i { type := type, nlink := 0, entries := [] } := by
      rw [q.nodes, hg.nodes, nodes_allocInode hi hi' ht]
    rw [ht₂.nodes, hin, hN, update_self, update_idem]
    rfl
  · have h₀ : Local sb [i] 0 s t := by
      rw [hg.state]
      exact (Local.allocInode s i type).setSlot ip _
    have h₃ := (h₀.trans (q.only : Local sb [] 0 t s₂)).trans (hin ▸ ht₂.only)
    exact h₃.mono (by simp) le_rfl

/-- The directory with the new inode entered. A new directory has a link to it. -/
def Node.entered (n : Node) (name : Name) (i : ℕ) (type : FileType) : Node :=
  (n.setEntry n.slotFor (.padded i name)).withNlink (if type = .dir then n.nlink + 1 else n.nlink)

/-- The inodes after inode `i` was created under a name in directory `p`. -/
def createdNodes (N : ℕ → Node) (type : FileType) (i p : ℕ) (name : Name) : ℕ → Node :=
  update (update N i
      ((Node.mk type 1 []).created type i p)) p ((N p).entered name i type)

lemma createdNodes_orphan {N : ℕ → Node} {type : FileType} {i p j : ℕ}
    (hl : type = .dir → (N p).nlink ≠ -1) (hj : (createdNodes N type i p name j).type ≠ .free)
    (hz : (createdNodes N type i p name j).nlink = 0) : (N j).type ≠ .free ∧ (N j).nlink = 0 := by
  simp only [createdNodes, update_apply, Node.entered, Node.created, Node.withNlink, Node.withDots,
    Node.setEntry] at hj hz
  grind

/-- A successful `create` holds inode `i`, locked. -/
structure Finished (sb : Superblock) (T : FileType → Prop) (base : Ip → ℕ) (ip : Ip) (i p : ℕ)
    (name : Name) (type : FileType) (s s' : State) : Prop where
  inv : FsInv sb T s'
  steady : Steady base s s'
  holds : Holds base [ip] [ip] s'
  ready : Ready s' ip
  inum : (s'.itable ip).inum = i
  dir : (nodes sb s p).type = .dir
  absent : (nodes sb s p).find name = none
  nodes : (type = .dir → (nodes sb s p).nlink ≠ -1) →
    nodes sb s' = createdNodes (nodes sb s) type i p name
  only : Local sb [i, p] 6 s s'

/-- A failed `create` gave up inode `i` and the directory `p`. -/
structure Aborted (sb : Superblock) (T : FileType → Prop) (base : Ip → ℕ) (i p : ℕ)
    (s s' : State) : Prop where
  inv : FsInv sb T s'
  steady : Steady base s s'
  holds : Holds base [] [] s'
  nodes : nodes sb s' = nodes sb s
  kept : Preserved sb (· = i) (· = p) s s'
  only : Local sb [i, p] 6 s s'

section Exits

variable {type : FileType} {i : ℕ} {s₁ s₂ : State}
  (hf : Fresh sb T base dp ip i type s s₁) (hn : NoOrphan sb base s)
include hf hn

lemma wp_createFail (hT : T .dir) (hfree : ¬ Allocated sb s.dinode i)
    (hl : Linking sb T i (s.itable dp).inum name n false s₁ s₂)
    (hQ : ∀ s', Aborted sb T base i (s.itable dp).inum s s' → Q () s') :
    wp (setNlink sb ip fun _ => 0) s₂ (fun _ s₃ => wp (iunlockput sb ip) s₃
      (fun _ s₄ => wp (iunlockput sb dp) s₄ Q E) E) E := by
  have hrw := hl.rewritten
  obtain ⟨hkept, n', -, hN₂⟩ := hl.fail rfl
  have hr₂ := hrw.ready ip hf.ready
  have hin₂ : (s₂.itable ip).inum = i := (hrw.inums ip hf.ready.live).trans hf.inum
  refine wp_call (wp_setNlink hT hrw.inv hr₂ _) fun _ s₃ ht => ?_
  have hr₃ := ht.ready hr₂
  have hin₃ : (s₃.itable ip).inum = i := (ht.fields ip).1.trans hin₂
  have hh₃ := (Rewritten.of_touched ht).holds (hrw.holds hf.holds)
  refine wp_call (wp_iunlockput_drop ht.inv hh₃ (by simpa using hf.ne)) fun _ s₄ hd => ?_
  -- the call holds the only reference, and the inode has no links left
  have href : (s₃.itable ip).ref = 1 := by
    rw [hh₃.refs ip, hf.alone, List.count_cons_self,
      List.count_singleton, if_neg (by simpa using Ne.symm hf.ne)]
  have hz : (s₃.itable ip).dino.nlink = 0 := by
    have hnode := nodes_of_ready ht.inv hr₃
    rw [hin₃, ht.nodes, hin₂, update_self] at hnode
    exact (congrArg Node.nlink hnode).symm
  have hN₄ : nodes sb s₄ = nodes sb s := by
    rw [hd.free href hr₃ hz, hin₃, ht.nodes, hin₂, hN₂, hf.nodes]
    simp only [update_idem]
    have hi : nodes sb s i = .free := if_neg hfree
    rw [← hi, update_eq_self]
  have hst : Steady base s s₄ := ((hf.steady.trans (hrw.steady hf.holds)).trans
    ((Rewritten.of_touched ht).steady (hrw.holds hf.holds))).trans hd.steady
  have hn₄ : NoOrphan sb base s₄ := hn.congr hst hN₄
  have hd₄ : (s₄.itable dp).inum = (s.itable dp).inum := by
    rw [hd.slots dp hf.ne.symm, (ht.fields dp).1, hrw.inums dp hf.dir.live, hf.dirInum]
  refine wp_call (wp_iunlockput_drop hd.inv hd.holds (by simp)) fun _ s₅ hd' => hQ s₅ ?_
  have q := hd'.quiet hn₄
  have honly₃ := ht.only
  have honly₄ := hd.only
  rw [hin₂] at honly₃
  rw [hin₃] at honly₄
  constructor
  · exact hd'.inv
  · exact hst.trans hd'.steady
  · exact hd'.holds
  · rw [q.nodes, hN₄]
  · have k₁ : Preserved sb (· = i) (· = (s.itable dp).inum) s s₁ := .of_local hf.only (by simp)
    have k₃ : Preserved sb (· = i) (· = (s.itable dp).inum) s₂ s₃ := .of_local honly₃ (by simp)
    have k₄ : Preserved sb (· = i) (· = (s.itable dp).inum) s₃ s₄ := .of_local honly₄ (by simp)
    exact (((k₁.trans hkept).trans k₃).trans k₄).trans (.of_quiet q)
  · have honly := (((hf.only.trans hrw.only).trans honly₃).trans honly₄).trans
      (q.only : Local sb [] 0 s₄ s₅)
    exact honly.mono (by simp) le_rfl

lemma wp_createDrop {s₃ : State} {p : ℕ} (hp : p = (s.itable dp).inum) (hpi : p ≠ i)
    (hl : Linking sb T i p name ((Node.mk type 1 []).created type i p) true s₁ s₂)
    (hrw : Rewritten sb T [p] 0 s₂ s₃) (hN : nodes sb s₃ = createdNodes (nodes sb s) type i p name)
    (hQ : ∀ s', Finished sb T base ip i p name type s s' → Q () s') :
    wp (iunlockput sb dp) s₃ Q E := by
  have hrw₂ := hl.rewritten
  obtain ⟨hdir, habs, -⟩ := hl.ok rfl
  rw [hf.nodes, update_of_ne hpi] at hdir habs
  have hh₃ := hrw.holds (hrw₂.holds hf.holds)
  have hin₂ : (s₂.itable dp).inum = p := by rw [hrw₂.inums dp hf.dir.live, hf.dirInum, hp]
  have hin₃ : (s₃.itable dp).inum = p := by
    rw [hrw.inums dp (hrw₂.ready dp hf.dir).live, hin₂]
  have hst : Steady base s s₃ := (hf.steady.trans (hrw₂.steady hf.holds)).trans
    (hrw.steady (hrw₂.holds hf.holds))
  have hr₃ : Ready s₃ ip := hrw.ready ip (hrw₂.ready ip hf.ready)
  refine wp_call (wp_iunlockput_drop hrw.inv hh₃.swap (by simpa using hf.ne.symm))
    fun _ s₄ hd => hQ s₄ ?_
  have hslot := hd.slots ip hf.ne
  have honly := hd.only
  rw [hin₃] at honly
  constructor
  · exact hd.inv
  · exact hst.trans hd.steady
  · exact hd.holds
  · exact ⟨hslot ▸ hr₃.live, hslot ▸ hr₃.valid⟩
  · rw [hslot, hrw.inums ip (hrw₂.ready ip hf.ready).live, hrw₂.inums ip hf.ready.live, hf.inum]
  · exact hdir
  · exact habs
  · intro hlt
    have hn₃ : NoOrphan sb base s₃ := by
      refine hn.of_nodes hst fun j hj hj' => ?_
      rw [hN] at hj hj'
      exact .inl (createdNodes_orphan hlt hj hj')
    rw [(hd.quiet hn₃).nodes, hN]
  · have := ((hf.only.trans hrw₂.only).trans hrw.only).trans honly
    exact this.mono (by simp) le_rfl

end Exits

/-- What `create` guarantees, `w` being the directory and the name that the path gives. -/
structure Created (sb : Superblock) (T : FileType → Prop) (base : Ip → ℕ)
    (w : Option (ℕ × Name)) (type : FileType) (r : Option Ip) (s s' : State) : Prop where
  inv : FsInv sb T s'
  steady : Steady base s s'
  only : ∃ i p, Local sb [i, p] 6 s s' ∧ ∀ ip, r = some ip → (s'.itable ip).inum = i
  fail : r = none → Holds base [] [] s' ∧ nodes sb s' = nodes sb s ∧
    Preserved sb (fun _ => False) (fun j => ∃ name, w = some (j, name)) s s'
  ok : ∀ ip, r = some ip → Holds base [ip] [ip] s' ∧ Ready s' ip ∧ ∃ p name,
    w = some (p, name) ∧ (nodes sb s p).type = .dir ∧
    (Quiet base s s' ∧ type = .file ∧ (nodes sb s p).target name = some (s'.itable ip).inum ∧
        ((s'.itable ip).dino.type = .file ∨ (s'.itable ip).dino.type = .device) ∨
      (nodes sb s p).find name = none ∧ ¬ Allocated sb s.dinode (s'.itable ip).inum ∧
        ((type = .dir → (nodes sb s p).nlink ≠ -1) →
          nodes sb s' = createdNodes (nodes sb s) type (s'.itable ip).inum p name))

section Call

variable {w : Option (ℕ × Name)} {type : FileType}

lemma Created.of_quiet (h : FsInv sb T s') (q : Quiet base s s') (hh : Holds base [] [] s') :
    Created sb T base w type none s s' where
  inv := h
  steady := q.steady
  only := ⟨0, 0, q.only.mono (by simp) (Nat.zero_le 6), fun _ hc => by cases hc⟩
  fail _ := ⟨hh, q.nodes, .of_quiet q⟩
  ok _ hc := by cases hc

lemma Created.of_aborted {i p : ℕ} (q : Quiet base s t) (ha : Aborted sb T base i p t s')
    (hi : ¬ Allocated sb s.dinode i) (hw : w = some (p, name)) :
    Created sb T base w type none s s' where
  inv := ha.inv
  steady := q.steady.trans ha.steady
  only := ⟨i, p, ((q.only : Local sb [] 0 s t).trans ha.only).mono (by simp) (by omega),
    fun _ hc => by cases hc⟩
  fail _ := by
    have hk : Preserved sb (· = i) (· = p) s s' := (Preserved.of_quiet q).trans ha.kept
    refine ⟨ha.holds, ha.nodes.trans q.nodes, hk.weaken ?_ ?_⟩
    · intro j hj he
      exact hi (he ▸ hj)
    · intro j he
      exact ⟨name, he ▸ hw⟩
  ok _ hc := by cases hc

lemma Created.of_finished {i p : ℕ} (q : Quiet base s t)
    (hf : Finished sb T base ip i p name type t s') (hi : ¬ Allocated sb s.dinode i)
    (hw : w = some (p, name)) : Created sb T base w type (some ip) s s' where
  inv := hf.inv
  steady := q.steady.trans hf.steady
  only := by
    refine ⟨i, p, ((q.only : Local sb [] 0 s t).trans hf.only).mono (by simp) (by omega), ?_⟩
    intro jp hc
    cases hc
    exact hf.inum
  fail hc := by cases hc
  ok jp hc := by
    cases hc
    have hnodes := hf.nodes
    have hdir := hf.dir
    have habs := hf.absent
    rw [q.nodes] at hnodes hdir habs
    refine ⟨hf.holds, hf.ready, p, name, hw, hdir, .inr ⟨habs, ?_, ?_⟩⟩
    · rw [hf.inum]
      exact hi
    · rw [hf.inum]
      exact hnodes

lemma wp_createFound {i : ℕ} {p : ℕ} (hnt : E .ilockNoType) (h : FsInv sb T t)
    (q : Quiet base s t) (hn : NoOrphan sb base s) (hh : Holds base [ip, dp] [dp] t)
    (hin : (t.itable ip).inum = i) (hw : w = some (p, name)) (hdir : (nodes sb s p).type = .dir)
    (htar : (nodes sb s p).target name = some i) :
    wp (do
      iunlockput sb dp
      ilock ip
      let v ← inode ip
      if type = .file ∧ (v.dino.type = .file ∨ v.dino.type = .device) then
        return some ip
      else
        iunlockput sb ip
        return none) t (Created sb T base w type · s ·) E := by
  have hn₁ := q.noOrphan hn
  rw [wp_bind]
  refine wp_call (wp_iunlockput_quiet h (hh.perm (.swap dp ip [])) (by simp) hn₁) fun _ s₁ hp => ?_
  obtain ⟨h₁, q₁, hh₁, hin₁⟩ := hp
  rw [wp_bind]
  refine wp_ilock_holds h₁ hh₁ (by simp) (by simp) (fun _ => hnt)
    fun s₂ h₂ hr₂ hh₂ q' hin₂ _ => ?_
  have q₂ := (q.trans q₁).trans q'
  rw [hin₁ ip, hin] at hin₂
  simp only [wp_bind, wp_inode, wp_ite]
  split
  · next hty =>
    refine ⟨h₂, q₂.steady, ⟨i, 0, q₂.only.mono (by simp) (Nat.zero_le 6), fun jp hc => ?_⟩,
      fun hc => (by cases hc), fun jp hc => ?_⟩
    · cases hc
      exact hin₂
    cases hc
    exact ⟨hh₂, hr₂, p, name, hw, hdir, .inl ⟨q₂, hty.1, hin₂ ▸ htar, hty.2⟩⟩
  · refine wp_call (wp_iunlockput_quiet h₂ hh₂ (by simp) (q₂.noOrphan hn)) fun _ s₃ hp => ?_
    obtain ⟨h₃, q₃, hh₃, -⟩ := hp
    exact .of_quiet h₃ (q₂.trans q₃) hh₃

theorem wp_create (hT : T .dir) (hE : Soft E) (hnt : E .ilockNoType) (ht : type ≠ .free)
    {cwd : Ip} (path : List UInt8) (major minor : Int16) (o : Outset sb T base cwd s) :
    wp (create sb cwd path type major minor) s (Created sb T base
      (walk (nodes sb s) true (startOf s cwd path) (elements path.length path)) type · s ·)
      E := by
  obtain ⟨h, hh, hn, hcwd, hheld⟩ := o
  unfold create
  rw [wp_bind]
  refine wp_call (wp_namex hT true path h (.of_soft hE) hh hn hcwd (.inl hnt)) fun r s₁ hw => ?_
  obtain - | ⟨dp, name⟩ := r
  · exact .of_quiet hw.inv hw.quiet (hw.none rfl).2
  obtain ⟨hwalk, hh₁⟩ := hw.some dp name rfl
  rw [wp_bind]
  refine wp_ilock_holds hw.inv hh₁ (by simp) (by simp) (fun _ => hnt)
    fun s₂ h₂ hr₂ hh₂ q hin₂ _ => ?_
  have q₂ := hw.quiet.trans q
  have hn₂ := q₂.noOrphan hn
  rw [← hin₂] at hwalk
  rw [wp_bind]
  refine wp_dirlookup hT h₂ hr₂ hE.tolerates hE.noSlot (fun _ _ => ?_)
    fun k de ip s₃ hdir hfind hde hmatch hg => ?_
  · -- the name is new
    rw [wp_bind]
    refine wp_ialloc hE ?_ fun i ip s₃ hi hi' hfree hg => ?_
    · rw [wp_bind]
      refine wp_call (wp_iunlockput_quiet h₂ hh₂ (by simp) hn₂) fun _ s₃ hp => ?_
      obtain ⟨h₃, q₃, hh₃, -⟩ := hp
      exact .of_quiet h₃ (q₂.trans q₃) hh₃
    · have hnot₂ : ¬ Allocated sb s₂.dinode i := fun ha => ha.2.2 hfree
      have hnot : ¬ Allocated sb s.dinode i := by
        rw [← q₂.dinode]
        exact hnot₂
      have hheld₂ : ∀ jp, 0 < base jp → Allocated sb s₂.dinode (s₂.itable jp).inum := by
        intro jp hb
        rw [q₂.dinode, q₂.steady jp hb]
        exact hheld jp hb
      simp only [wp_bind]
      refine wp_initInode hT ht h₂ hr₂ hh₂ hheld₂ hi hi' hfree hg fun s₄ hf => ?_
      have hne : (s₄.itable ip).inum ≠ (s₄.itable dp).inum := fun he =>
        hf.ne (hf.inv.uniq ip dp hf.ready.live hf.dir.live he)
      refine wp_call (wp_createLinks hT hE hf.inv hf.dir hf.ready hne type) fun r s₅ hl => ?_
      rw [hf.inum, hf.dirInum] at hl hne
      rw [hf.nodes, update_self] at hl
      cases r with
      | true =>
        rw [if_pos rfl]
        obtain ⟨-, -, hN⟩ := hl.ok rfl
        rw [hf.nodes, update_idem, update_of_ne hne.symm] at hN
        split
        · next hdir =>
          have hr₅ := hl.rewritten.ready dp hf.dir
          have hin₅ : (s₅.itable dp).inum = (s₂.itable dp).inum :=
            (hl.rewritten.inums dp hf.dir.live).trans hf.dirInum
          rw [wp_bind]
          refine wp_call (wp_setNlink hT hl.rewritten.inv hr₅ _) fun _ s₆ ht₆ => ?_
          have hrw₆ := Rewritten.of_touched ht₆
          rw [hin₅] at hrw₆
          rw [wp_bind]
          refine wp_createDrop hf hn₂ rfl hne.symm hl hrw₆ ?_ fun s₇ hf₇ => ?_
          · rw [ht₆.nodes, hin₅, hN, update_self, update_idem, createdNodes, Node.entered,
              if_pos hdir]
            rfl
          · exact .of_finished q₂ hf₇ hnot hwalk
        · next hdir =>
          rw [wp_bind]
          refine wp_createDrop hf hn₂ rfl hne.symm hl (.refl hl.rewritten.inv) ?_ fun s₆ hf₆ => ?_
          · rw [hN, createdNodes, Node.entered, if_neg hdir]
            rfl
          · exact .of_finished q₂ hf₆ hnot hwalk
      | false =>
        rw [if_neg (by simp)]
        simp only [wp_bind]
        refine wp_createFail hf hn₂ hT hnot₂ hl fun s₆ ha => ?_
        exact .of_aborted q₂ ha hnot hwalk
  · have h₃ := hg.inv h₂ (Nat.pos_of_ne_zero hmatch.1) (h₂.entry_lt hde)
    have q₃ := q₂.trans (hg.quiet hh₂)
    have htar := target_of_find hfind hde
    rw [q₂.nodes] at hdir htar
    exact wp_createFound hnt h₃ q₃ hn (hh₂.got hg) hg.inum hwalk hdir htar

end Call

end Xv6.Fs
