import Xv6.LinkCalls

/-!
# Unlinking

`sys_unlink` refuses or clears the entry, and then counts down the links. The
inode is freed with its last link unless somebody still uses it.
-/
namespace Xv6.Fs

open Function Prog

variable {sb : Superblock} {T : FileType → Prop} {s s' t : State} {ip dp : Ip}
  {E : Panic → Prop} {base : Ip → ℕ} {n : Node} {i p k : ℕ} {name : Name}
  {w : Option (ℕ × Name)}

/-- Directory `p` after entry `k`, for an inode of the given type, was cleared. -/
def Node.cleared (n : Node) (k : ℕ) (type : FileType) : Node :=
  (n.setEntry k (direntOf (List.replicate DIRENT 0))).withNlink
    (if type = .dir then n.nlink - 1 else n.nlink)

/-- Somebody uses inode `i`. -/
def InUse (base : Ip → ℕ) (s : State) (i : ℕ) : Prop := ∃ jp, 0 < base jp ∧ (s.itable jp).inum = i

/-- The inode `n'` that remains of `n`, which lost a link. -/
structure Remains (base : Ip → ℕ) (s : State) (i : ℕ) (n n' : Node) : Prop where
  freed : n.nlink = 1 → ¬ InUse base s i → n' = .free
  kept : ¬ (n.nlink = 1 ∧ ¬ InUse base s i) → n' = n.withNlink (n.nlink - 1)

/-- What `sys_unlink` guarantees, `w` being the directory and the name of its path. -/
structure Unlinked (sb : Superblock) (T : FileType → Prop) (base : Ip → ℕ)
    (w : Option (ℕ × Name)) (r : ℤ) (s s' : State) : Prop extends
    Returned sb T base 2 s s' where
  fail : r = -1 → Undone sb none s s'
  ok : r ≠ -1 → r = 0 ∧ ∃ p name k de, w = some (p, name) ∧ (nodes sb s p).type = .dir ∧
    ¬ (namecmp name dot = 0 ∨ namecmp name dotdot = 0) ∧
    (nodes sb s p).find name = some k ∧ (nodes sb s p).entries[k]? = some de ∧ de.inum ≠ p ∧
    (nodes sb s de.inum).type ≠ .free ∧ ¬ (nodes sb s de.inum).nlink < 1 ∧
    ((nodes sb s de.inum).type = .dir → (nodes sb s de.inum).Empty) ∧
    (((nodes sb s de.inum).type = .dir → (nodes sb s p).nlink = 1 → InUse base s p) →
      ∃ n', Remains base s de.inum (nodes sb s de.inum) n' ∧
        nodes sb s' = update (update (nodes sb s) p
          ((nodes sb s p).cleared k (nodes sb s de.inum).type)) de.inum n')

lemma Unlinked.of_quiet (h : FsInv sb T s') (q : Quiet base s s') (hh : Holds base [] [] s') :
    Unlinked sb T base w (-1) s s' :=
  ⟨.of_quiet h q hh, fun _ => .of_quiet q, fun hc => absurd rfl hc⟩

lemma wp_removable (hT : T .dir) (hE : Soft E) (h : FsInv sb T s) (hr : Ready s ip)
    {Q : Bool → State → Prop}
    (hQ : ∀ r : Bool, (r = true ↔ ((nodes sb s (s.itable ip).inum).type = .dir →
      (nodes sb s (s.itable ip).inum).Empty)) → Q r s) :
    wp (removable sb ip) s Q E := by
  have hty : (nodes sb s (s.itable ip).inum).type = (s.itable ip).dino.type := by
    rw [nodes_of_ready h hr]
    rfl
  unfold removable
  rw [wp_bind, wp_inode, wp_ite]
  split
  · next hdir =>
    refine wp_isdirempty hT h hr hdir hE.tolerates fun r hr => hQ r ?_
    rw [hr, hty]
    exact ⟨fun he _ => he, fun he => he hdir⟩
  · next hdir =>
    refine hQ true ⟨fun _ hc => ?_, fun _ => rfl⟩
    rw [hty] at hc
    exact absurd hc hdir

lemma cleared_orphan {N : ℕ → Node} {j : ℕ}
    (hc : (N i).type = .dir → (N p).nlink = 1 → InUse base s p)
    (hj : (update N p ((N p).cleared k (N i).type) j).type ≠ .free)
    (hz : (update N p ((N p).cleared k (N i).type) j).nlink = 0) :
    ((N j).type ≠ .free ∧ (N j).nlink = 0) ∨ InUse base s j := by
  by_cases hjp : j = p
  · subst hjp
    rw [update_self, Node.cleared] at hj hz
    by_cases hdir : (N i).type = .dir
    · rw [if_pos hdir] at hz
      have hone : (N j).nlink - 1 = 0 := hz
      exact .inr (hc hdir (by grind))
    · rw [if_neg hdir] at hz
      exact .inl ⟨hj, hz⟩
  · rw [update_of_ne hjp] at hj hz
    exact .inl ⟨hj, hz⟩

section Unlink

variable (q : Quiet base s t) (hn : NoOrphan sb base s)
include q hn

lemma wp_unlinkBad (h : FsInv sb T t) (hh : Holds base [dp] [dp] t) :
    wp (unlinkBad sb dp) t (Unlinked sb T base w · s ·) E := by
  unfold unlinkBad
  rw [wp_bind]
  refine wp_call (wp_iunlockput_quiet h hh (by simp) (q.noOrphan hn)) fun _ s' hp => ?_
  obtain ⟨h', q', hh', -⟩ := hp
  exact .of_quiet h' (q.trans q') hh'

/-- From the clearing of the entry on: both inodes are given up, the directory first. -/
lemma wp_unlinkDrop (hT : T .dir) (hh : Holds base [ip, dp] [ip, dp] t) (hip : Ready t ip)
    (hi : (t.itable ip).inum = i) (hp : (t.itable dp).inum = p) (hpi : i ≠ p) {t₂ : State}
    (ht : Touched sb T dp ((nodes sb s p).cleared k (nodes sb s i).type) 2 t t₂)
    {Q : Unit → State → Prop} (hQ : ∀ s', Returned sb T base 2 s s' →
      (((nodes sb s i).type = .dir → (nodes sb s p).nlink = 1 → InUse base s p) →
        ∃ n', Remains base s i (nodes sb s i) n' ∧
          nodes sb s' = update (update (nodes sb s) p
            ((nodes sb s p).cleared k (nodes sb s i).type)) i n') → Q () s') :
    wp (iunlockput sb dp) t₂ (fun _ t₃ => wp (setNlink sb ip (· - 1)) t₃
      (fun _ t₄ => wp (iunlockput sb ip) t₄ Q E) E) E := by
  have hne : ip ≠ dp := fun he => hpi (by rw [← hi, ← hp, he])
  have hrw := Rewritten.of_touched ht
  have hh₂ := hrw.holds hh
  have hN₂ : nodes sb t₂ = update (nodes sb s) p
      ((nodes sb s p).cleared k (nodes sb s i).type) := by rw [ht.nodes, hp, q.nodes]
  have hst₂ : Steady base s t₂ := q.steady.trans (hrw.steady hh)
  refine wp_call (wp_iunlockput_drop ht.inv hh₂.swap (by simpa using hne.symm)) fun _ t₃ hd₃ => ?_
  have hslot : t₃.itable ip = t.itable ip := (hd₃.slots ip hne).trans (ht.slots ip hne)
  have hip₃ : Ready t₃ ip := ⟨hslot ▸ hip.live, hslot ▸ hip.valid⟩
  refine wp_call (wp_setNlink hT hd₃.inv hip₃ _) fun _ t₄ ht₄ => ?_
  have hrw₄ := Rewritten.of_touched ht₄
  rw [hslot, hi] at ht₄ hrw₄
  have hh₄ := hrw₄.holds hd₃.holds
  have hin₄ : (t₄.itable ip).inum = i := by rw [(ht₄.fields ip).1, hslot, hi]
  have hst₄ : Steady base s t₄ := (hst₂.trans hd₃.steady).trans (hrw₄.steady hd₃.holds)
  refine wp_call (wp_iunlockput_drop ht₄.inv hh₄ (by simp)) fun _ t₅ hd₅ => hQ t₅ ?_ ?_
  · have honly₂ := ht.only
    have honly₃ := hd₃.only
    have honly₅ := hd₅.only
    rw [hp] at honly₂
    rw [(ht.fields dp).1, hp] at honly₃
    rw [hin₄] at honly₅
    refine ⟨hd₅.inv, hst₄.trans hd₅.steady, hd₅.holds, p, i, ?_⟩
    exact (((((q.only : Local sb [] 0 s t).trans honly₂).trans honly₃).trans hrw₄.only).trans
      honly₅).mono (by simp) le_rfl
  intro hcond
  have horph : ∀ j, (nodes sb t₂ j).type ≠ .free → (nodes sb t₂ j).nlink = 0 →
      ((nodes sb s j).type ≠ .free ∧ (nodes sb s j).nlink = 0) ∨ InUse base s j := by
    rw [hN₂]
    exact fun j => cleared_orphan hcond
  have q₃ := hd₃.quiet (hn.of_nodes hst₂ horph)
  have hN₄ : nodes sb t₄ = update (nodes sb t₂) i
      ((nodes sb s i).withNlink ((nodes sb s i).nlink - 1)) := by
    have hsame : nodes sb t₃ i = nodes sb s i := by rw [q₃.nodes, hN₂, update_of_ne hpi]
    rw [ht₄.nodes, hslot, hi, hsame, q₃.nodes]
  by_cases hlast : (nodes sb s i).nlink = 1 ∧ ¬ InUse base s i
  · have hbase : base ip = 0 := by
      by_contra hb
      have hpos := Nat.pos_of_ne_zero hb
      exact hlast.2 ⟨ip, hpos, (q.steady ip hpos).symm.trans hi⟩
    have href : (t₄.itable ip).ref = 1 := by
      rw [hh₄.refs ip, hbase, List.count_singleton_self]
    have hip₄ := ht₄.ready hip₃
    have hz : (t₄.itable ip).dino.nlink = 0 := by
      have hnode := nodes_of_ready ht₄.inv hip₄
      rw [hin₄, hN₄, update_self, hlast.1] at hnode
      exact (congrArg Node.nlink hnode).symm
    refine ⟨.free, ⟨fun _ _ => rfl, fun hc => absurd hlast hc⟩, ?_⟩
    rw [hd₅.free href hip₄ hz, hin₄, hN₄, update_idem, hN₂]
  · have hn₄ : NoOrphan sb base t₄ := by
      refine hn.of_nodes hst₄ fun j hj hj' => ?_
      rw [hN₄] at hj hj'
      by_cases hji : j = i
      · subst hji
        rw [update_self] at hj'
        have hone : (nodes sb s j).nlink - 1 = 0 := hj'
        exact .inr (by_contra fun hu => hlast ⟨by grind, hu⟩)
      · rw [update_of_ne hji] at hj hj'
        exact horph j hj hj'
    refine ⟨_, ⟨fun h1 hu => absurd ⟨h1, hu⟩ hlast, fun _ => rfl⟩, ?_⟩
    rw [(hd₅.quiet hn₄).nodes, hN₄, hN₂]

lemma wp_unlinkEntry (hT : T .dir) (hw : E .unlinkWritei) (h : FsInv sb T t)
    (hh : Holds base [ip, dp] [ip, dp] t) (hip : Ready t ip) (hdp : Ready t dp)
    (hi : (t.itable ip).inum = i) (hp : (t.itable dp).inum = p) (hpi : i ≠ p)
    (hdir : (nodes sb s p).type = .dir) (hk : k < (nodes sb s p).entries.length)
    {Q : ℤ → State → Prop} (hQ : ∀ s', Returned sb T base 2 s s' →
      (((nodes sb s i).type = .dir → (nodes sb s p).nlink = 1 → InUse base s p) →
        ∃ n', Remains base s i (nodes sb s i) n' ∧
          nodes sb s' = update (update (nodes sb s) p
            ((nodes sb s p).cleared k (nodes sb s i).type)) i n') → Q 0 s') :
    wp (unlinkEntry sb dp ip (DIRENT * k)) t Q E := by
  have hne : ip ≠ dp := fun he => hpi (by rw [← hi, ← hp, he])
  have hnode := nodes_of_ready h hdp
  rw [hp, q.nodes] at hnode
  have hdir' : (t.itable dp).dino.type = .dir := by
    rw [hnode] at hdir
    exact hdir
  have hk' : k < slots (t.itable dp).dino.size := by
    rw [hnode, node, if_pos hdir', List.length_map, List.length_range] at hk
    exact hk
  have hzero : (direntOf (List.replicate DIRENT 0)).inum < sb.ninodes :=
    lt_of_le_of_lt (by decide) sb.root_lt
  have hty : (t.itable ip).dino.type = (nodes sb s i).type := by
    have := nodes_of_ready h hip
    rw [hi, q.nodes] at this
    rw [this]
    rfl
  unfold unlinkEntry
  rw [wp_bind]
  refine wp_call (wp_writeDirent hT h hdp hdir' hk'.le _ hzero) fun r t₁ hr => ?_
  obtain ⟨ht₁, -⟩ := hr
  rw [hp, q.nodes] at ht₁
  cases r with
  | false =>
    rw [if_neg (by simp)]
    exact hw
  | true =>
    rw [if_pos rfl] at ht₁ ⊢
    simp only [wp_bind, wp_inode, ht₁.slots ip hne, hty, wp_ite, wp_endOp, wp_pure]
    split
    · next hd =>
      refine wp_call (wp_setNlink hT ht₁.inv (ht₁.ready hdp) _) fun _ t₂ ht₂ => ?_
      refine wp_unlinkDrop q hn hT hh hip hi hp hpi ?_ hQ
      have ht := ht₁.trans ht₂
      rw [(ht₁.fields dp).1, hp, ht₁.nodes, hp, update_self] at ht
      rw [Node.cleared, if_pos hd]
      exact ht
    · next hd =>
      refine wp_unlinkDrop q hn hT hh hip hi hp hpi ?_ hQ
      rw [Node.cleared, if_neg hd]
      exact ht₁

end Unlink

theorem wp_sysUnlink (hT : T .dir) (hE : Soft E) (hnt : E .ilockNoType) (hwr : E .unlinkWritei)
    {cwd : Ip} (path : List UInt8) (o : Outset sb T base cwd s)
    (hlow : ∀ p name i,
      walk (nodes sb s) true (startOf s cwd path) (elements path.length path) = some (p, name) →
      (nodes sb s p).target name = some i → (nodes sb s i).nlink < 1 → E .unlinkNlink) :
    wp (sysUnlink sb cwd path) s (Unlinked sb T base
      (walk (nodes sb s) true (startOf s cwd path) (elements path.length path)) · s.begun ·)
      E := by
  unfold sysUnlink
  rw [wp_bind, wp_beginOp]
  show wp _ s.begun _ _
  have hw : walk (nodes sb s) true (startOf s cwd path) (elements path.length path) =
    walk (nodes sb s.begun) true (startOf s.begun cwd path) (elements path.length path) := rfl
  have hN : nodes sb s = nodes sb s.begun := rfl
  rw [hw, hN] at hlow
  rw [hw]
  replace o := o.begun
  generalize s.begun = s at *
  clear hw hN
  obtain ⟨h, hh, hn, hcwd, -⟩ := o
  rw [wp_bind]
  refine wp_call (wp_namex hT true path h (.of_soft hE) hh hn hcwd (.inl hnt)) fun r s₁ hwk => ?_
  obtain - | ⟨dp, name⟩ := r
  · exact .of_quiet hwk.inv hwk.quiet (hwk.none rfl).2
  obtain ⟨hwalk, hh₁⟩ := hwk.some dp name rfl
  show wp (ilock dp >>= _) s₁ _ _
  rw [wp_bind]
  refine wp_ilock_holds hwk.inv hh₁ (by simp) (by simp) (fun _ => hnt)
    fun s₂ h₂ hr₂ hh₂ q hin₂ _ => ?_
  have q₂ := hwk.quiet.trans q
  rw [← hin₂] at hwalk
  rw [wp_ite]
  split
  · exact wp_unlinkBad q₂ hn h₂ hh₂
  next hdots =>
  rw [wp_bind]
  refine wp_dirlookup hT h₂ hr₂ hE.tolerates hE.noSlot (fun _ _ => ?_)
    fun k de ip s₃ hdir hfind hde hmatch hg => ?_
  · exact wp_unlinkBad q₂ hn h₂ hh₂
  have h₃ := hg.inv h₂ (Nat.pos_of_ne_zero hmatch.1) (h₂.entry_lt hde)
  have q₃ := q₂.trans (hg.quiet hh₂)
  have hh₃ := hh₂.got hg
  have hlt := (List.getElem?_eq_some_iff.mp hde).1
  have htar := target_of_find hfind hde
  rw [q₂.nodes] at hdir hfind hde hlt htar
  show wp (ilock ip >>= _) s₃ _ _
  rw [wp_bind]
  by_cases hne : ip = dp
  · -- the name leads back to the directory, which is locked
    subst hne
    refine wp_ilock h₃ hE (fun _ _ => hnt) fun hfree => ?_
    rw [hh₃.locks ip] at hfree
    simp at hfree
  refine wp_ilock_holds h₃ hh₃ (by simp) (by simpa using hne) (fun _ => hnt)
    fun s₄ h₄ hr₄ hh₄ q hin₄ hslots => ?_
  have q₄ := q₃.trans q
  have hslot : s₄.itable dp = s₂.itable dp := by
    rw [hslots dp (Ne.symm hne), hg.slots (Ne.symm hne)]
  rw [hg.inum] at hin₄
  have hdp₄ : Ready s₄ dp := ⟨hslot ▸ hr₂.live, hslot ▸ hr₂.valid⟩
  have hpi : de.inum ≠ (s₂.itable dp).inum := by
    rw [← hin₄, ← hslot]
    exact fun he => hne (h₄.uniq ip dp hr₄.live hdp₄.live he)
  have hnode := nodes_of_ready h₄ hr₄
  rw [hin₄, q₄.nodes] at hnode
  have hnl : (s₄.itable ip).dino.nlink = (nodes sb s de.inum).nlink := by
    rw [hnode]
    rfl
  simp only [wp_bind, wp_inode, wp_ite, wp_throw, hnl]
  split
  · next hlt' => exact hlow _ _ _ hwalk htar hlt'
  next hlink =>
  refine wp_removable hT hE h₄ hr₄ fun r hr => ?_
  rw [hin₄, q₄.nodes] at hr
  cases r with
  | false =>
    rw [if_neg (by simp)]
    refine wp_call (wp_iunlockput_quiet h₄ hh₄ (by simpa using hne) (q₄.noOrphan hn))
      fun _ s₅ hp => ?_
    obtain ⟨h₅, q₅, hh₅, -⟩ := hp
    exact wp_unlinkBad (q₄.trans q₅) hn h₅ hh₅
  | true =>
    rw [if_pos rfl]
    refine wp_unlinkEntry q₄ hn hT hwr h₄ hh₄ hr₄ hdp₄ hin₄ (congrArg Inode.inum hslot) hpi hdir
      hlt fun s₅ hret hnodes => ?_
    refine ⟨hret, fun hc => absurd hc (by decide), fun _ => ⟨rfl, _, name, k, de, hwalk, hdir,
      hdots, hfind, hde, hpi, ?_, hlink, hr.mp rfl, hnodes⟩⟩
    rw [hnode]
    exact (h₄.coh ip hr₄).2

end Xv6.Fs
