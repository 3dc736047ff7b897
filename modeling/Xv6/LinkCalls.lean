import Xv6.Create

/-!
# Linking and unlinking

`sys_link` counts the new link before it enters it, and takes the count back when
the entry cannot be made. `sys_unlink` clears the entry first. Both return with
the references and locks they found.
-/
namespace Xv6.Fs

open Function Prog

variable {sb : Superblock} {T : FileType → Prop} {s s' t : State} {ip dp : Ip}
  {E : Panic → Prop} {base : Ip → ℕ} {L M : List Ip} {n : Node} {c i p : ℕ} {name : Name}
  {v w : Option (ℕ × Name)} {X P : ℕ → Prop}

/-- A call is back with the references it started from. -/
structure Returned (sb : Superblock) (T : FileType → Prop) (base : Ip → ℕ) (c : ℕ)
    (s s' : State) : Prop where
  inv : FsInv sb T s'
  steady : Steady base s s'
  holds : Holds base [] [] s'
  only : ∃ i p, Local sb [i, p] c s s'

lemma Returned.of_quiet (h : FsInv sb T s') (q : Quiet base s s') (hh : Holds base [] [] s') :
    Returned sb T base c s s' :=
  ⟨h, q.steady, hh, 0, 0, q.only.mono (by simp) (Nat.zero_le c)⟩

/-- No inode was changed, but for an indirect block of the directory that `w` gives. -/
structure Undone (sb : Superblock) (w : Option (ℕ × Name)) (s s' : State) : Prop where
  nodes : nodes sb s' = nodes sb s
  kept : Preserved sb (fun _ => False) (fun j => ∃ name, w = some (j, name)) s s'

lemma Undone.of_quiet (q : Quiet base s s') : Undone sb w s s' := ⟨q.nodes, .of_quiet q⟩

lemma wp_setNlink_frame (hT : T .dir) (h : FsInv sb T s) (hr : Ready s ip) (f : Int16 → Int16) :
    wp (setNlink sb ip f) s (fun _ s' => Touched sb T ip
      ((nodes sb s (s.itable ip).inum).withNlink (f (nodes sb s (s.itable ip).inum).nlink)) 0
        s s' ∧ ∀ X P, Preserved sb X P s s') E := by
  rw [wp_setNlink_iff]
  exact ⟨(wp_setNlink_iff f).mp (wp_setNlink (E := E) hT h hr f), fun X P => .commit_nlink h hr _⟩

lemma walk_congr {N N' : ℕ → Node} (parent : Bool)
    (h : ∀ i, (N' i).type = (N i).type ∧ (N' i).entries = (N i).entries) (i : ℕ)
    (names : List Name) : walk N' parent i names = walk N parent i names := by
  induction names generalizing i with
  | nil => rfl
  | cons name rest ih =>
    have htar : (N' i).target name = (N i).target name := by
      rw [Node.target, Node.find, (h i).2]
      rfl
    rw [walk, walk, (h i).1, htar]
    simp only [ih]

lemma walk_false_name {N : ℕ → Node} {j : ℕ} {names : List Name}
    (h : walk N false i names = some (j, name)) : name = [] := by
  rw [walk_eq_resolve] at h
  obtain ⟨k, -, hk⟩ := Option.map_eq_some_iff.mp h
  exact (Prod.mk.inj hk).2.symm

lemma wp_namei (hT : T .dir) (hE : Soft E) (hnt : E .ilockNoType) {cwd : Ip} (path : List UInt8)
    (o : Outset sb T base cwd s) {Q : Option Ip → State → Prop}
    (hnone : ∀ s', FsInv sb T s' → Quiet base s s' → Holds base [] [] s' → Q none s')
    (hsome : ∀ ip s', FsInv sb T s' → Quiet base s s' → Holds base [ip] [] s' →
      walk (nodes sb s) false (startOf s cwd path) (elements path.length path) =
        some ((s'.itable ip).inum, []) → Q (some ip) s') :
    wp (namei sb cwd path) s Q E := by
  rw [namei, wp_bind]
  refine wp_call (wp_namex hT false path o.inv (.of_soft hE) o.holds o.linked o.cwd (.inl hnt))
    fun r s' hw => ?_
  obtain - | ⟨ip, name⟩ := r
  · exact hnone s' hw.inv hw.quiet (hw.none rfl).2
  · obtain ⟨hwalk, hh⟩ := hw.some ip name rfl
    obtain rfl := walk_false_name hwalk
    exact hsome ip s' hw.inv hw.quiet hh hwalk

/-- The inodes after inode `i` was linked under a name in directory `p`. -/
def linkedNodes (N : ℕ → Node) (i p : ℕ) (name : Name) : ℕ → Node :=
  update (update N i ((N i).withNlink ((N i).nlink + 1))) p
    ((N p).setEntry (N p).slotFor (.padded i name))

lemma linkedNodes_orphan {N : ℕ → Node} {j : ℕ} (hl : (N i).nlink ≠ -1)
    (hj : (linkedNodes N i p name j).type ≠ .free) (hz : (linkedNodes N i p name j).nlink = 0) :
    (N j).type ≠ .free ∧ (N j).nlink = 0 := by
  rw [linkedNodes] at hj hz
  by_cases hjp : j = p
  · rw [hjp, update_self] at hj hz
    exact hjp ▸ ⟨hj, hz⟩
  · rw [update_of_ne hjp] at hj hz
    by_cases hji : j = i
    · rw [hji, update_self] at hz
      have hz' : (N i).nlink + 1 = 0 := hz
      exact absurd (by grind : (N i).nlink = -1) hl
    · rw [update_of_ne hji] at hj hz
      exact ⟨hj, hz⟩

/-- What `sys_link` guarantees, for the inode `v` and the place `w` that its paths give. -/
structure Linked (sb : Superblock) (T : FileType → Prop) (base : Ip → ℕ)
    (v w : Option (ℕ × Name)) (r : ℤ) (s s' : State) : Prop extends
    Returned sb T base 2 s s' where
  fail : r = -1 → Undone sb w s s'
  ok : r ≠ -1 → r = 0 ∧ ∃ i p name, v = some (i, []) ∧ w = some (p, name) ∧
    (nodes sb s i).type ≠ .dir ∧ (nodes sb s i).type ≠ .free ∧ (nodes sb s p).type = .dir ∧
    (nodes sb s p).find name = none ∧
    ((nodes sb s i).nlink ≠ -1 → nodes sb s' = linkedNodes (nodes sb s) i p name)

lemma Linked.of_quiet (h : FsInv sb T s') (q : Quiet base s s') (hh : Holds base [] [] s') :
    Linked sb T base v w (-1) s s' :=
  ⟨.of_quiet h q hh, fun _ => .of_quiet q, fun hc => absurd rfl hc⟩

/-- The link to inode `i` is counted but not entered. -/
structure Counted (sb : Superblock) (T : FileType → Prop) (base : Ip → ℕ) (ip : Ip) (i : ℕ)
    (w : Option (ℕ × Name)) (s s' : State) : Prop where
  inv : FsInv sb T s'
  steady : Steady base s s'
  holds : Holds base [ip] [] s'
  inum : (s'.itable ip).inum = i
  nodes : nodes sb s' = update (nodes sb s) i
    ((nodes sb s i).withNlink ((nodes sb s i).nlink + 1))
  kept : Preserved sb (fun _ => False) (fun j => ∃ name, w = some (j, name)) s s'
  only : ∃ p, Local sb [i, p] 2 s s'

lemma Counted.quiet (hc : Counted sb T base ip i w s t)
    (q : Quiet (fun jp => base jp + [ip].count jp) t s') (h : FsInv sb T s')
    (hh : Holds (fun jp => base jp + [ip].count jp) [] [] s') :
    Counted sb T base ip i w s s' where
  inv := h
  steady := hc.steady.trans (q.steady.mono fun _ => Nat.le_add_right ..)
  holds := hh.unlend
  inum := (q.steady ip (by simp)).trans hc.inum
  nodes := q.nodes.trans hc.nodes
  kept := hc.kept.trans (.of_quiet q)
  only := by
    obtain ⟨p, hl⟩ := hc.only
    exact ⟨p, (hl.trans (q.only : Local sb [] 0 t s')).mono (by simp) le_rfl⟩

section Link

variable (hT : T .dir) (hnt : E .ilockNoType) (hn : NoOrphan sb base s)
include hT hnt hn

lemma wp_linkBad (hc : Counted sb T base ip i w s t) :
    wp (linkBad sb ip) t (Linked sb T base v w · s ·) E := by
  unfold linkBad
  rw [wp_bind]
  refine wp_ilock_holds hc.inv hc.holds (by simp) (by simp) (fun _ => hnt)
    fun t₁ h₁ hr₁ hh₁ q₁ hin₁ _ => ?_
  rw [hc.inum] at hin₁
  have hN₁ : nodes sb t₁ = nodes sb t := q₁.nodes
  rw [wp_bind]
  refine wp_call (wp_setNlink_frame hT h₁ hr₁ _) fun _ t₂ ht => ?_
  obtain ⟨ht, hk₂⟩ := ht
  have hrw := Rewritten.of_touched ht
  rw [hin₁] at hrw
  have hh₂ := hrw.holds hh₁
  -- one up and one down: the inodes are those of the start
  have hN₂ : nodes sb t₂ = nodes sb s := by
    have hback : (nodes sb s i).nlink + 1 - 1 = (nodes sb s i).nlink := by grind
    rw [ht.nodes, hin₁, hN₁, hc.nodes, update_self, update_idem]
    simp only [Node.withNlink, hback]
    exact update_eq_self ..
  have hst : Steady base s t₂ :=
    (hc.steady.trans q₁.steady).trans (hrw.steady hh₁)
  have hn₂ : NoOrphan sb base t₂ := hn.congr hst hN₂
  rw [wp_bind]
  refine wp_call (wp_iunlockput_drop ht.inv hh₂ (by simp)) fun _ t₃ hd => ?_
  have q₃ := hd.quiet hn₂
  rw [wp_bind, wp_endOp]
  refine ⟨⟨hd.inv, hst.trans q₃.steady, hd.holds, ?_⟩, fun _ => ⟨q₃.nodes.trans hN₂, ?_⟩,
    fun hr => absurd rfl hr⟩
  · obtain ⟨p, hl⟩ := hc.only
    exact ⟨i, p, (((hl.trans (q₁.only : Local sb [] 0 t t₁)).trans hrw.only).trans
      (q₃.only : Local sb [] 0 t₂ t₃)).mono (by simp) le_rfl⟩
  · exact ((hc.kept.trans (.of_quiet q₁)).trans (hk₂ _ _)).trans (.of_quiet q₃)

/-- From the second path of `sys_link` on, `k` being what it does with the result. -/
lemma wp_linkEntry (hE : Soft E) {cwd : Ip} (hcwd : 0 < base cwd) (new : List UInt8)
    {k : Option (Ip × Name) → FsM ℤ} (hnone : k none = linkBad sb ip)
    (hsome : ∀ dp name, k (some (dp, name)) = do
      ilock dp
      if ← dirlink sb dp name (← inode ip).inum then
        iunlockput sb dp
        iput sb ip
        endOp
        return 0
      else
        iunlockput sb dp
        linkBad sb ip)
    (hc : Counted sb T base ip i w s t) (honly : Local sb [i] 0 s t)
    (hfile : (nodes sb s i).type ≠ .dir)
    (hal : (nodes sb s i).type ≠ .free) (hv : v = some (i, []))
    (hw : w = walk (nodes sb s) true (startOf s cwd new) (elements new.length new)) :
    wp (nameiparent sb cwd new) t
      (fun r t' => wp (k r) t' (Linked sb T base v w · s ·) E) E := by
  -- the reference to the inode is lent to the walk
  have hh : Holds (fun jp => base jp + [ip].count jp) [] [] t := hc.holds.lend
  have hlive : 0 < base ip + [ip].count ip := by simp
  have hle : ∀ jp, base jp ≤ base jp + [ip].count jp := fun _ => Nat.le_add_right ..
  have hn₀ : NoOrphan sb (fun jp => base jp + [ip].count jp) t := by
    intro j hj hz
    by_cases hji : j = i
    · exact ⟨ip, hlive, hc.inum.trans hji.symm⟩
    · have hne : nodes sb t j = nodes sb s j := by rw [hc.nodes, update_of_ne hji]
      have ht := type_ne_free hj
      rw [hne] at ht
      have hj' := nodes_type_ne_free_iff.mp ht
      obtain ⟨jp, hb, he⟩ := hn j hj' (by rw [← nodes_nlink hj', ← hne, nodes_nlink hj, hz])
      exact ⟨jp, Nat.add_pos_left hb _, (hc.steady jp hb).trans he⟩
  have hwalk : walk (nodes sb t) true (startOf t cwd new) (elements new.length new) = w := by
    have hst : startOf t cwd new = startOf s cwd new := by
      rw [startOf, startOf, hc.steady cwd hcwd]
    rw [hw, hst]
    refine walk_congr true (fun j => ?_) _ _
    rw [hc.nodes]
    by_cases hji : j = i
    · rw [hji, update_self]
      exact ⟨rfl, rfl⟩
    · rw [update_of_ne hji]
      exact ⟨rfl, rfl⟩
  refine wp_call (wp_namex hT true new hc.inv (.of_soft hE) hh hn₀ (Nat.add_pos_left hcwd _)
    (.inl hnt)) fun r t₁ hwk => ?_
  rw [hwalk] at hwk
  obtain - | ⟨dp, name⟩ := r
  · rw [hnone]
    exact wp_linkBad hT hnt hn (hc.quiet hwk.quiet hwk.inv (hwk.none rfl).2)
  obtain ⟨hwp, hh₁⟩ := hwk.some dp name rfl
  rw [hsome, wp_bind]
  refine wp_ilock_holds hwk.inv hh₁ (by simp) (by simp) (fun _ => hnt)
    fun t₂ h₂ hr₂ hh₂ q₁ hin₂ _ => ?_
  have q₂ := hwk.quiet.trans q₁
  rw [← hin₂] at hwp
  have hip₂ : (t₂.itable ip).inum = i := (q₂.steady ip hlive).trans hc.inum
  have hi : i < sb.ninodes := by
    rw [← hc.inum]
    exact (hc.inv.inums ip (hh.live hlive)).2
  have hn₂ := q₂.noOrphan hn₀
  have hN₂ : nodes sb t₂ = update (nodes sb s) i
      ((nodes sb s i).withNlink ((nodes sb s i).nlink + 1)) := q₂.nodes.trans hc.nodes
  simp only [wp_bind, wp_inode, hip₂]
  refine wp_dirlink hT h₂ hr₂ hE.tolerates hE.noSlot hi (fun t₃ hdir hfind _ _ he => ?_)
    fun t₃ _ hkept he => ?_
  · have hpi : (t₂.itable dp).inum ≠ i := by
      intro hpi
      rw [hpi, hN₂, update_self] at hdir
      exact hfile hdir
    have hN₃ : nodes sb t₃ = linkedNodes (nodes sb s) i (t₂.itable dp).inum name := by
      rw [he.nodes, hN₂, update_of_ne hpi, linkedNodes]
    rw [hN₂, update_of_ne hpi] at hdir hfind
    rw [if_pos rfl, wp_bind]
    have hn₃ := hn₂.edited hh₂ he rfl rfl
    refine wp_call (wp_iunlockput_drop he.inv (hh₂.edit he) (by simp)) fun _ t₄ hd => ?_
    have q₄ := hd.quiet hn₃
    have hst : Steady base s t₄ := ((hc.steady.trans (q₂.steady.mono hle)).trans
      (((Rewritten.of_edited he).steady hh₂).mono hle)).trans (q₄.steady.mono hle)
    rw [wp_bind]
    refine wp_call (wp_iput_drop hd.inv hd.holds.unlend (by simp)) fun _ t₅ hd₅ => ?_
    have hin₄ : (t₄.itable ip).inum = i := by
      rw [q₄.steady ip hlive, he.inum_of_live (hh₂.live hlive), hip₂]
    have honly₅ := hd₅.only
    rw [hin₄] at honly₅
    rw [wp_bind, wp_endOp]
    refine ⟨⟨hd₅.inv, hst.trans hd₅.steady, hd₅.holds, i, (t₂.itable dp).inum, ?_⟩,
      fun hr => absurd hr (by decide), fun _ => ⟨rfl, i, _, name, hv, hwp, hfile, hal, hdir,
        hfind, fun hnl => ?_⟩⟩
    · exact ((((honly.trans (q₂.only : Local sb [] 0 t t₂)).trans he.only).trans
        (q₄.only : Local sb [] 0 t₃ t₄)).trans honly₅).mono (by simp) le_rfl
    · have hn₄ : NoOrphan sb base t₄ := by
        refine hn.of_nodes hst fun j hj hj' => ?_
        rw [q₄.nodes, hN₃] at hj hj'
        exact .inl (linkedNodes_orphan hnl hj hj')
      rw [(hd₅.quiet hn₄).nodes, q₄.nodes, hN₃]
  · rw [if_neg (by simp), wp_bind]
    have hn₃ := hn₂.edited hh₂ he rfl rfl
    refine wp_call (wp_iunlockput_drop he.inv (hh₂.edit he) (by simp)) fun _ t₄ hd => ?_
    have q₄ := hd.quiet hn₃
    have hc₄ : Counted sb T base ip i w s t₄ := by
      constructor
      · exact hd.inv
      · exact ((hc.steady.trans (q₂.steady.mono hle)).trans
          (((Rewritten.of_edited he).steady hh₂).mono hle)).trans (q₄.steady.mono hle)
      · exact hd.holds.unlend
      · rw [q₄.steady ip hlive, he.inum_of_live (hh₂.live hlive), hip₂]
      · rw [q₄.nodes, he.nodes, update_eq_self, hN₂]
      · exact ((hc.kept.trans (.of_quiet q₂)).trans (.of_kept he.only hkept ⟨name, hwp⟩)).trans
          (.of_quiet q₄)
      · exact ⟨(t₂.itable dp).inum, (((honly.trans (q₂.only : Local sb [] 0 t t₂)).trans
          he.only).trans (q₄.only : Local sb [] 0 t₃ t₄)).mono (by simp) le_rfl⟩
    exact wp_linkBad hT hnt hn hc₄

end Link

theorem wp_sysLink (hT : T .dir) (hE : Soft E) (hnt : E .ilockNoType) {cwd : Ip}
    (old new : List UInt8) (o : Outset sb T base cwd s) :
    wp (sysLink sb cwd old new) s (Linked sb T base
      (walk (nodes sb s) false (startOf s cwd old) (elements old.length old))
      (walk (nodes sb s) true (startOf s cwd new) (elements new.length new)) · s.begun ·) E := by
  unfold sysLink
  rw [wp_bind, wp_beginOp]
  show wp _ s.begun _ _
  have hv : walk (nodes sb s) false (startOf s cwd old) (elements old.length old) =
    walk (nodes sb s.begun) false (startOf s.begun cwd old) (elements old.length old) := rfl
  have hw : walk (nodes sb s) true (startOf s cwd new) (elements new.length new) =
    walk (nodes sb s.begun) true (startOf s.begun cwd new) (elements new.length new) := rfl
  rw [hv, hw]
  replace o := o.begun
  generalize s.begun = s at *
  rw [wp_bind]
  refine wp_namei hT hE hnt old o (fun s₁ h₁ q₁ hh₁ => ?_) fun ip s₁ h₁ q₁ hh₁ hwalk => ?_
  · exact .of_quiet h₁ q₁ hh₁
  show wp (ilock ip >>= _) s₁ _ _
  rw [wp_bind]
  refine wp_ilock_holds h₁ hh₁ (by simp) (by simp) (fun _ => hnt)
    fun s₂ h₂ hr₂ hh₂ q hin₂ _ => ?_
  have q₂ := q₁.trans q
  rw [← hin₂] at hwalk
  have hnode := nodes_of_ready h₂ hr₂
  rw [q₂.nodes] at hnode
  simp only [wp_bind, wp_inode, wp_ite]
  split
  · refine wp_call (wp_iunlockput_quiet h₂ hh₂ (by simp) (q₂.noOrphan o.linked)) fun _ s₃ hp => ?_
    obtain ⟨h₃, q₃, hh₃, -⟩ := hp
    exact .of_quiet h₃ (q₂.trans q₃) hh₃
  · next hfile =>
    refine wp_call (wp_setNlink_frame hT h₂ hr₂ _) fun _ s₃ ht => ?_
    obtain ⟨ht, hk⟩ := ht
    have hrw := Rewritten.of_touched ht
    refine wp_iunlock_holds ht.inv (hrw.holds hh₂) (by simp) (by simp) fun h₄ hh₄ => ?_
    have q₄ : Quiet base s₃ (s₃.unlockSlot ip) := quiet_unlockSlot
    have honly : Local sb [(s₂.itable ip).inum] 0 s (s₃.unlockSlot ip) :=
      (((q₂.only : Local sb [] 0 s s₂).trans ht.only).trans
        (q₄.only : Local sb [] 0 s₃ _)).mono (by simp) le_rfl
    refine wp_linkEntry hT hnt o.linked hE o.cwd new rfl (fun _ _ => rfl) ?_ honly ?_ ?_ hwalk rfl
    · constructor
      · exact h₄
      · exact (q₂.steady.trans (hrw.steady hh₂)).trans q₄.steady
      · exact hh₄
      · rw [State.unlockSlot, setSlot_self]
        exact (ht.fields ip).1
      · rw [q₄.nodes, ht.nodes, q₂.nodes]
      · exact ((Preserved.of_quiet q₂).trans (hk _ _)).trans (.of_quiet q₄)
      · exact ⟨0, honly.mono (by simp) (Nat.zero_le 2)⟩
    · rw [hnode]
      exact hfile
    · rw [hnode]
      exact (h₂.coh ip hr₂).2

end Xv6.Fs
