import Xv6.DirLink

/-!
# Walking paths

A walk takes references and drops them again. It leaves the disk alone unless a
reference it drops is the last one to an inode without links, which cannot happen
when every such inode is held by somebody else.
-/
namespace Xv6.Fs

open Function Prog

variable {sb : Superblock} {T : FileType → Prop} {s s' s'' : State} {ip jp : Ip} {E : Panic → Prop}
  {base : Ip → ℕ} {L M : List Ip} {i : ℕ}

/-- Dropping this reference frees the inode. -/
def Freeing (s : State) (ip : Ip) : Prop :=
  (s.itable ip).ref = 1 ∧ (s.itable ip).valid = true ∧ (s.itable ip).dino.nlink = 0

/-- A reference to slot `ip` was dropped. -/
structure Put (sb : Superblock) (T : FileType → Prop) (ip : Ip) (s s' : State) : Prop where
  inv : FsInv sb T s'
  free : Freeing s ip → nodes sb s' = update (nodes sb s) (s.itable ip).inum .free
  drop : ¬ Freeing s ip → s'.bitmap = s.bitmap ∧ s'.dinode = s.dinode ∧ s'.data = s.data ∧
    s'.logged = s.logged ∧ (s'.itable ip).inum = (s.itable ip).inum ∧
    (s'.itable ip).valid = (s.itable ip).valid
  slots : ∀ jp, jp ≠ ip → s'.itable jp = s.itable jp
  ref : (s'.itable ip).ref = (s.itable ip).ref - 1
  locked : (s'.itable ip).locked = (s.itable ip).locked
  only : Local sb [(s.itable ip).inum] 0 s s'

lemma wp_iput_put (h : FsInv sb T s) (hE : (s.itable ip).locked = true → E .deadlock) :
    wp (iput sb ip) s (fun _ s' => Put sb T ip s s') E := by
  refine wp_iput_of h (fun _ _ _ => hE) (fun hc hinv => ?_) fun h1 h2 h3 s' hf => ?_
  · exact { inv := hinv
            free := fun hf => absurd hf hc
            drop := fun _ => by simp
            slots := fun jp hjp => setSlot_of_ne hjp
            only := .of_eq rfl rfl rfl
            ref := by simp
            locked := by simp }
  · exact { inv := hf.inv
            free := fun _ => hf.nodes
            drop := fun hc => absurd ⟨h1, h2, h3⟩ hc
            slots := hf.slots
            ref := by rw [hf.ref, h1]
            locked := hf.locked
            only := hf.only }

lemma wp_iunlockput (h : FsInv sb T s)
    (hE : (s.itable ip).locked = false ∨ (s.itable ip).ref = 0 → E .iunlock) :
    wp (iunlockput sb ip) s (fun _ s' =>
      FsInv sb T (s.unlockSlot ip) ∧ Put sb T ip (s.unlockSlot ip) s') E := by
  unfold iunlockput
  rw [wp_bind]
  refine wp_iunlock_of h hE fun h₁ _ => ?_
  have hfree : ((s.unlockSlot ip).itable ip).locked = false := by
    rw [State.unlockSlot, setSlot_self]
  refine wp_call (wp_iput_put h₁ fun hc => ?_) fun _ s' hp => ⟨h₁, hp⟩
  rw [hfree] at hc
  exact absurd hc (by simp)

/-- The references are those of others, `base`, and the list `L` of the running
call; it alone has locks, those of the slots in `M`. -/
structure Holds (base : Ip → ℕ) (L M : List Ip) (s : State) : Prop where
  refs : ∀ jp, (s.itable jp).ref = base jp + L.count jp
  locks : ∀ jp, (s.itable jp).locked = decide (jp ∈ M)

namespace Holds

lemma live (h : Holds base L M s) (hb : 0 < base jp) : 0 < (s.itable jp).ref := by
  rw [h.refs jp]
  omega

lemma live_of_mem (h : Holds base L M s) (hL : jp ∈ L) : 0 < (s.itable jp).ref := by
  have hc := List.count_pos_iff.mpr hL
  rw [h.refs jp]
  omega

lemma perm {L' : List Ip} (h : Holds base L M s) (hp : L.Perm L') : Holds base L' M s where
  refs jp := by rw [h.refs jp, hp.count_eq]
  locks := h.locks

lemma count_head (jp : Ip) : (ip :: L).count jp = [ip].count jp + L.count jp := by
  rw [← List.count_append]
  rfl

/-- A call may see a reference of its own as one of another. -/
lemma lend (h : Holds base (ip :: L) M s) :
    Holds (fun jp => base jp + [ip].count jp) L M s where
  refs jp := by
    rw [h.refs jp, count_head, Nat.add_assoc]
  locks := h.locks

lemma unlend (h : Holds (fun jp => base jp + [ip].count jp) L M s) :
    Holds base (ip :: L) M s where
  refs jp := by
    rw [h.refs jp, Nat.add_assoc, ← count_head]
  locks := h.locks

lemma lock (h : Holds base L M s) : Holds base L (ip :: M) (s.lockSlot ip) := by
  obtain ⟨hrefs, hlocks⟩ := h
  constructor <;> intro jp <;> by_cases hjp : jp = ip
  all_goals simp [State.lockSlot, setSlot_of_ne, hjp, hrefs, hlocks]

lemma unlock (h : Holds base L (ip :: M) s) (hM : ip ∉ M) : Holds base L M (s.unlockSlot ip) := by
  obtain ⟨hrefs, hlocks⟩ := h
  constructor <;> intro jp <;> by_cases hjp : jp = ip
  all_goals simp [State.unlockSlot, setSlot_of_ne, hjp, hrefs, hlocks, hM]

lemma got (h : Holds base L M s) (hg : Got s i ip s') : Holds base (ip :: L) M s' := by
  obtain ⟨hrefs, hlocks⟩ := h
  have hslots (jp : Ip) : jp ≠ ip → s'.itable jp = s.itable jp := hg.slots
  constructor <;> grind [hg.ref, hg.locked]

lemma put (h : Holds base (ip :: L) M s) (hp : Put sb T ip s s') : Holds base L M s' := by
  obtain ⟨hrefs, hlocks⟩ := h
  constructor <;> grind [hp.ref, hp.locked, hp.slots]

lemma edit {n : Node} {c : ℕ} (h : Holds base L M s) (he : Edited sb T ip n c s s') :
    Holds base L M s' where
  refs jp := by rw [he.refs jp, h.refs jp]
  locks jp := by rw [he.locked jp, h.locks jp]

end Holds

lemma wp_iunlock_holds (h : FsInv sb T s) (hh : Holds base L (ip :: M) s) (hL : ip ∈ L)
    (hM : ip ∉ M) {Q : Unit → State → Prop}
    (hQ : FsInv sb T (s.unlockSlot ip) → Holds base L M (s.unlockSlot ip) →
      Q () (s.unlockSlot ip)) :
    wp (iunlock ip) s Q E := by
  refine wp_iunlock_of h (fun hc => ?_) fun h₁ _ => hQ h₁ (hh.unlock hM)
  obtain hc | hc := hc
  · rw [hh.locks ip] at hc
    simp at hc
  · exact absurd hc (hh.live_of_mem hL).ne'

lemma wp_iunlockput_holds (h : FsInv sb T s) (hh : Holds base (ip :: L) (ip :: M) s)
    (hM : ip ∉ M) :
    wp (iunlockput sb ip) s (fun _ s' => FsInv sb T (s.unlockSlot ip) ∧
      Put sb T ip (s.unlockSlot ip) s' ∧ Holds base L M s') E := by
  refine wp_call (wp_iunlockput h fun hc => ?_) fun _ s' hp =>
    ⟨hp.1, hp.2, (hh.unlock hM).put hp.2⟩
  obtain hc | hc := hc
  · rw [hh.locks ip] at hc
    simp at hc
  · exact absurd hc (hh.live_of_mem (List.mem_cons_self ..)).ne'

/-- Every inode in use without links is referenced by others. -/
def NoOrphan (sb : Superblock) (base : Ip → ℕ) (s : State) : Prop :=
  ∀ i, Allocated sb s.dinode i → (s.dinode i).nlink = 0 →
    ∃ jp, 0 < base jp ∧ (s.itable jp).inum = i

/-- The disk is as before, and the slots that others refer to keep their inodes. -/
structure Quiet (base : Ip → ℕ) (s s' : State) : Prop where
  bitmap : s'.bitmap = s.bitmap
  dinode : s'.dinode = s.dinode
  data : s'.data = s.data
  logged : s'.logged = s.logged
  keep : ∀ jp, 0 < base jp → (s'.itable jp).inum = (s.itable jp).inum ∧
    ((s.itable jp).valid = true → (s'.itable jp).valid = true)

namespace Quiet

lemma refl : Quiet base s s := ⟨rfl, rfl, rfl, rfl, fun _ _ => ⟨rfl, fun h => h⟩⟩

lemma trans (h : Quiet base s s') (h' : Quiet base s' s'') : Quiet base s s'' where
  bitmap := h'.bitmap.trans h.bitmap
  dinode := h'.dinode.trans h.dinode
  data := h'.data.trans h.data
  logged := h'.logged.trans h.logged
  keep jp hb := by
    obtain ⟨h1, h2⟩ := h.keep jp hb
    obtain ⟨h3, h4⟩ := h'.keep jp hb
    exact ⟨h3.trans h1, fun hv => h4 (h2 hv)⟩

lemma nodes (h : Quiet base s s') : nodes sb s' = Fs.nodes sb s := by
  funext i
  rw [Fs.nodes, Fs.nodes, h.dinode, h.data]

lemma noOrphan (h : Quiet base s s') (hn : NoOrphan sb base s) : NoOrphan sb base s' := by
  intro i hi hz
  rw [h.dinode] at hi hz
  obtain ⟨jp, hb, he⟩ := hn i hi hz
  exact ⟨jp, hb, (h.keep jp hb).1.trans he⟩

lemma only (h : Quiet base s s') : Local sb [] 0 s s' := .of_eq h.dinode h.data h.logged

end Quiet

lemma Got.quiet (hg : Got s i ip s') (h : Holds base L M s) : Quiet base s s' := by
  have hdisk := hg.state
  refine ⟨by rw [hdisk]; rfl, by rw [hdisk]; rfl, by rw [hdisk]; rfl, by rw [hdisk]; rfl,
    fun jp hb => ?_⟩
  have hslots : jp ≠ ip → s'.itable jp = s.itable jp := hg.slots
  grind [hg.found, hg.inum, h.live hb]

lemma quiet_setSlot {v : Inode} (hi : v.inum = (s.itable ip).inum)
    (hv : (s.itable ip).valid = true → v.valid = true) : Quiet base s (s.setSlot ip v) := by
  refine ⟨rfl, rfl, rfl, rfl, fun jp _ => ?_⟩
  grind [setSlot_self, setSlot_of_ne]

lemma quiet_lockSlot : Quiet base s (s.lockSlot ip) := quiet_setSlot rfl fun _ => rfl

lemma quiet_unlockSlot : Quiet base s (s.unlockSlot ip) := quiet_setSlot rfl fun hv => hv

/-- `ilock` by a call that holds a reference and not the lock. -/
lemma wp_ilock_holds (h : FsInv sb T s) (hh : Holds base L M s) (hL : ip ∈ L) (hM : ip ∉ M)
    (hfree : (s.dinode (s.itable ip).inum).type = .free → E .ilockNoType)
    {Q : Unit → State → Prop}
    (hQ : ∀ s', FsInv sb T s' → Ready s' ip → Holds base L (ip :: M) s' → Quiet base s s' →
      (s'.itable ip).inum = (s.itable ip).inum → (∀ jp, jp ≠ ip → s'.itable jp = s.itable jp) →
      Q () s') :
    wp (ilock ip) s Q E := by
  refine wp_ilock_of h (fun h0 => ?_) (fun hc => ?_) (fun _ => hfree) fun _ h₁ hr₁ =>
    hQ _ h₁ hr₁ hh.lock quiet_lockSlot ?_ fun _ => setSlot_of_ne
  · exact absurd h0 (hh.live_of_mem hL).ne'
  · rw [hh.locks ip] at hc
    exact absurd (of_decide_eq_true hc) hM
  · rw [State.lockSlot, setSlot_self]

/-- A reference of the call is not the last one to an inode without links. -/
lemma not_freeing (h : FsInv sb T s) (hh : Holds base (ip :: L) M s) (hn : NoOrphan sb base s) :
    ¬ Freeing s ip := by
  rintro ⟨href, hvalid, hz⟩
  have hr : Ready s ip := ⟨by omega, hvalid⟩
  obtain ⟨hd, -⟩ := h.coh ip hr
  obtain ⟨jp, hb, he⟩ := hn _ (h.allocated hr) (by rw [← hd, hz])
  have hjp : jp = ip := h.uniq jp ip (hh.live hb) hr.live he
  have hc := hh.refs ip
  rw [List.count_cons_self] at hc
  subst hjp
  omega

lemma Put.inum (hp : Put sb T ip s s') (hf : ¬ Freeing s ip) (jp : Ip) :
    (s'.itable jp).inum = (s.itable jp).inum := by
  grind [hp.drop hf, hp.slots]

lemma Put.quiet (hp : Put sb T ip s s') (hf : ¬ Freeing s ip) : Quiet base s s' := by
  obtain ⟨hbm, hdi, hda, hlg, hin, hva⟩ := hp.drop hf
  refine ⟨hbm, hdi, hda, hlg, fun jp _ => ?_⟩
  grind [hp.slots]

/-- The inode and the last name that a walk from inode `i` ends with. -/
def walk (N : ℕ → Node) (parent : Bool) : ℕ → List Name → Option (ℕ × Name)
  | i, [] => if parent then none else some (i, [])
  | i, name :: rest =>
    if (N i).type ≠ .dir then
      none
    else if parent ∧ rest = [] then
      some (i, name)
    else
      match (N i).target name with
      | none => none
      | some j => walk N parent j rest

/-- The inode where the walk of a path starts. -/
def startOf (s : State) (cwd : Ip) (path : List UInt8) : ℕ :=
  if path.head? = some slash then ROOTINO else (s.itable cwd).inum

/-- The inodes that a walk from inode `i` locks are in use. -/
def WalkSafe (N : ℕ → Node) (parent : Bool) : ℕ → List Name → Prop
  | _, [] => True
  | i, name :: rest => (N i).type ≠ .free ∧ ((N i).type = .dir → ¬ (parent ∧ rest = []) →
      ∀ j, (N i).target name = some j → WalkSafe N parent j rest)

/-- What a walk with result `r` ensures: the references and the place it leads to. -/
structure Walked (sb : Superblock) (T : FileType → Prop) (base : Ip → ℕ) (w : Option (ℕ × Name))
    (r : Option (Ip × Name)) (s s' : State) : Prop where
  inv : FsInv sb T s'
  quiet : Quiet base s s'
  none : r = none → w = none ∧ Holds base [] [] s'
  some : ∀ jp name, r = some (jp, name) →
    w = some ((s'.itable jp).inum, name) ∧ Holds base [jp] [] s'

lemma nodes_type_free (h : FsInv sb T s) (hl : 0 < (s.itable ip).ref) :
    (s.dinode (s.itable ip).inum).type = (nodes sb s (s.itable ip).inum).type := by
  obtain ⟨h1, h2⟩ := h.inums ip hl
  by_cases ht : (s.dinode (s.itable ip).inum).type = .free
  · have hal : ¬ Allocated sb s.dinode (s.itable ip).inum := fun ha => ha.2.2 ht
    rw [nodes, if_neg hal, ht]
    rfl
  · rw [nodes, if_pos ⟨h1, h2, ht⟩]
    rfl

/-- The panics of a walk, each where it can happen. -/
structure WalkTolerates (E : Panic → Prop) (sb : Superblock) (base : Ip → ℕ) (s : State) :
    Prop where
  size : ∀ i, Allocated sb s.dinode i → (s.dinode i).type = .dir →
    (s.dinode i).size % DIRENT ≠ 0 → E .dirlookupRead ∧ E .dirlinkRead ∧ E .isdiremptyReadi
  full : (∀ jp kp, base jp = 0 → base kp = 0 → jp = kp) → E .igetNoInodes

namespace WalkTolerates

lemma of_soft (hE : Soft E) : WalkTolerates E sb base s where
  size _ _ _ _ := ⟨hE _ rfl, hE _ rfl, hE _ rfl⟩
  full _ := hE _ rfl

lemma quiet (h : WalkTolerates E sb base s) (q : Quiet base s s') :
    WalkTolerates E sb base s' where
  size := by rw [q.dinode]; exact h.size
  full := h.full

lemma tolerates (h : WalkTolerates E sb base s) (hi : FsInv sb T s) (hr : Ready s ip)
    (hdir : (s.itable ip).dino.type = .dir) : Tolerates E s ip := by
  obtain ⟨hd, -⟩ := hi.coh ip hr
  have hsize := h.size _ (hi.allocated hr) (hd ▸ hdir)
  rw [← hd] at hsize
  exact ⟨fun hc => absurd hdir hc, fun hc => (hsize hc).1, fun hc => (hsize hc).2.1,
    fun hc => (hsize hc).2.2⟩

lemma noSlot (h : WalkTolerates E sb base s) (hh : Holds base [ip] M s) (hc : NoSlot s i) :
    E .igetNoInodes := by
  apply h.full
  have hall : ∀ jp, base jp = 0 → jp = ip := by
    intro jp hb
    by_contra hne
    have href := hh.refs jp
    rw [hb, List.count_singleton, if_neg (by simpa using Ne.symm hne)] at href
    exact absurd href (hc jp).1.ne'
  intro jp kp hj hk
  rw [hall jp hj, hall kp hk]

end WalkTolerates

lemma wp_iunlockput_quiet (h : FsInv sb T s) (hh : Holds base (ip :: L) (ip :: M) s)
    (hM : ip ∉ M) (hn : NoOrphan sb base s) :
    wp (iunlockput sb ip) s (fun _ s' => FsInv sb T s' ∧ Quiet base s s' ∧ Holds base L M s' ∧
      ∀ jp, (s'.itable jp).inum = (s.itable jp).inum) E := by
  refine wp_call (wp_iunlockput_holds h hh hM) fun _ s' hp => ?_
  obtain ⟨h₁, hp, hh'⟩ := hp
  have q₁ : Quiet base s (s.unlockSlot ip) := quiet_unlockSlot
  have hnf := not_freeing h₁ (hh.unlock hM) (q₁.noOrphan hn)
  refine ⟨hp.inv, q₁.trans (hp.quiet hnf), hh', fun jp => ?_⟩
  grind [hp.inum hnf jp, State.unlockSlot, setSlot_self, setSlot_of_ne]

section Walk

variable (hT : T .dir)
include hT

/-- The walk of a call that holds the one reference to where it starts. -/
theorem wp_namexLoop (parent : Bool) (elems : List Name) (h : FsInv sb T s)
    (hE : WalkTolerates E sb base s) (hh : Holds base [ip] [] s) (hn : NoOrphan sb base s)
    (hsafe : E .ilockNoType ∨ WalkSafe (nodes sb s) parent (s.itable ip).inum elems) :
    wp (namexLoop sb parent ip elems) s (fun r s' =>
      Walked sb T base (walk (nodes sb s) parent (s.itable ip).inum elems) r s s') E := by
  induction elems generalizing s ip with
  | nil =>
    rw [namexLoop, wp_ite]
    split
    · next hp =>
      rw [wp_bind]
      refine wp_call (wp_iput_put h fun hc => ?_) fun _ s' hput => ?_
      · rw [hh.locks ip] at hc
        simp at hc
      · refine ⟨hput.inv, hput.quiet (not_freeing h hh hn), fun _ => ?_, fun _ _ hc => ?_⟩
        · exact ⟨by rw [walk, if_pos hp], hh.put hput⟩
        · cases hc
    · next hp =>
      refine ⟨h, .refl, fun hc => (by cases hc), fun jp name hc => ?_⟩
      cases hc
      exact ⟨by rw [walk, if_neg hp], hh⟩
  | cons name rest ih =>
    rw [namexLoop, wp_bind]
    refine wp_ilock_holds h hh (by simp) (by simp) (fun ht => ?_)
      fun s₁ h₁ hr₁ hh₁ q₁ hinum _ => ?_
    · obtain hE' | hw := hsafe
      · exact hE'
      · rw [nodes_type_free h (hh.live_of_mem (by simp))] at ht
        exact absurd ht hw.1
    have hn₁ := q₁.noOrphan hn
    have hN : nodes sb s₁ = nodes sb s := q₁.nodes
    have hty : (nodes sb s (s.itable ip).inum).type = (s₁.itable ip).dino.type := by
      rw [← hN, ← hinum, nodes_of_ready h₁ hr₁]
      rfl
    simp only [wp_bind, wp_inode, wp_ite]
    split
    · next hdir =>
      -- not a directory
      refine wp_call (wp_iunlockput_quiet h₁ hh₁ (by simp) hn₁) fun _ s' hput => ?_
      obtain ⟨h', q', hh', -⟩ := hput
      refine ⟨h', q₁.trans q', fun _ => ?_, fun _ _ hc => (by cases hc)⟩
      exact ⟨by rw [walk, if_pos (hty ▸ hdir)], hh'⟩
    · next hdir =>
      have hdir' : ¬ (nodes sb s (s.itable ip).inum).type ≠ .dir := hty ▸ hdir
      split
      · next hp =>
        refine wp_iunlock_holds h₁ hh₁ (by simp) (by simp) fun h₂ hh₂ => ?_
        refine ⟨h₂, q₁.trans quiet_unlockSlot, fun hc => (by cases hc), fun jp nm hc => ?_⟩
        cases hc
        have hi₂ : ((s₁.unlockSlot ip).itable ip).inum = (s.itable ip).inum := by
          rw [State.unlockSlot, setSlot_self]
          exact hinum
        exact ⟨by rw [walk, if_neg hdir', if_pos hp, hi₂], hh₂⟩
      · next hp =>
        -- the next inode is taken before the reference to this one is dropped
        have hE₁ := hE.quiet q₁
        refine wp_dirlookup hT h₁ hr₁ (hE₁.tolerates h₁ hr₁ (not_not.mp hdir))
          (fun _ _ hc => hE₁.noSlot hh₁ hc) (fun _ hf => ?_) fun k de jp s₂ _ hf hget hde hg => ?_
        · rw [hN, hinum] at hf
          rw [wp_bind]
          refine wp_call (wp_iunlockput_quiet h₁ hh₁ (by simp) hn₁) fun _ s' hput => ?_
          obtain ⟨h', q', hh', -⟩ := hput
          refine ⟨h', q₁.trans q', fun _ => ?_, fun _ _ hc => (by cases hc)⟩
          exact ⟨by rw [walk, if_neg hdir', if_neg hp, target_of_find_none hf], hh'⟩
        · have h₂ := hg.inv h₁ (Nat.pos_of_ne_zero hde.1) (h₁.entry_lt hget)
          have q₂ := q₁.trans (hg.quiet hh₁)
          have hh₂ : Holds base [ip, jp] [ip] s₂ := (hh₁.got hg).perm (List.Perm.swap ip jp [])
          rw [hN, hinum] at hf hget
          have htar := target_of_find hf hget
          simp only [wp_bind]
          refine wp_call (wp_iunlockput_quiet h₂ hh₂ (by simp) (q₂.noOrphan hn))
            fun _ s₃ hput => ?_
          obtain ⟨h₃, q', hh₃, hinums⟩ := hput
          have q₃ := q₂.trans q'
          have hjp : (s₃.itable jp).inum = de.inum := (hinums jp).trans hg.inum
          have hwalk : walk (nodes sb s) parent (s.itable ip).inum (name :: rest) =
              walk (nodes sb s₃) parent (s₃.itable jp).inum rest := by
            rw [walk, if_neg hdir', if_neg hp, htar, q₃.nodes, hjp]
          have hsafe₃ : E .ilockNoType ∨
              WalkSafe (nodes sb s₃) parent (s₃.itable jp).inum rest := by
            refine hsafe.imp_right fun hw => ?_
            rw [q₃.nodes, hjp]
            exact hw.2 (not_not.mp hdir') hp _ htar
          refine wp_call (ih h₃ (hE.quiet q₃) hh₃ (q₃.noOrphan hn) hsafe₃) fun r s' hw => ?_
          exact ⟨hw.inv, q₃.trans hw.quiet, hwalk ▸ hw.none, hwalk ▸ hw.some⟩

theorem wp_namex (parent : Bool) {cwd : Ip} (path : List UInt8) (h : FsInv sb T s)
    (hE : WalkTolerates E sb base s) (hh : Holds base [] [] s) (hn : NoOrphan sb base s)
    (hcwd : 0 < base cwd)
    (hsafe : E .ilockNoType ∨
      WalkSafe (nodes sb s) parent (startOf s cwd path) (elements path.length path)) :
    wp (namex sb cwd path parent) s (fun r s' => Walked sb T base
      (walk (nodes sb s) parent (startOf s cwd path) (elements path.length path)) r s s') E := by
  have hrun : ∀ ip s', Got s (startOf s cwd path) ip s' → FsInv sb T s' →
      wp (namexLoop sb parent ip (elements path.length path)) s' (fun r s'' => Walked sb T base
        (walk (nodes sb s) parent (startOf s cwd path) (elements path.length path)) r s s'') E := by
    intro ip s' hg h'
    have q := hg.quiet hh
    rw [← q.nodes, ← hg.inum] at hsafe ⊢
    refine wp_call (wp_namexLoop hT parent _ h' (hE.quiet q) (hh.got hg) (q.noOrphan hn) hsafe)
      fun r s'' hw => ?_
    exact ⟨hw.inv, q.trans hw.quiet, hw.none, hw.some⟩
  unfold namex namexStart
  rw [wp_bind, wp_ite]
  split
  · next hp =>
    rw [startOf, if_pos hp] at hrun ⊢
    refine wp_iget (fun hc => hE.full fun jp kp hj _ => ?_) fun ip s' hg =>
      hrun ip s' hg (hg.inv h le_rfl sb.root_lt)
    have href := hh.refs jp
    rw [hj, List.count_nil] at href
    exact absurd href (hc jp).1.ne'
  · next hp =>
    rw [startOf, if_neg hp] at hrun ⊢
    have hlive := hh.live hcwd
    obtain ⟨h1, h2⟩ := h.inums cwd hlive
    exact wp_idup hlive fun s' hg => hrun cwd s' hg (hg.inv h h1 h2)

end Walk

end Xv6.Fs
