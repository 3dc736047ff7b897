import Xv6.Sysfile
import Xv6.UnlinkCall

/-!
# Failed calls

A call that makes or removes a name and returns -1 leaves the inodes, their contents
and the free map as they were. The one trace it may leave is the indirect block of
the directory in which the name could not be entered.
-/
namespace Xv6.Fs

open Function Prog

variable {sb : Superblock} {T : FileType → Prop} {s s' t : State} {ip dp : Ip}
  {E : Panic → Prop} {base : Ip → ℕ} {name : Name} {w : Option (ℕ × Name)}

/-- What `sys_mkdir` and `sys_mknod` guarantee. -/
structure Made (sb : Superblock) (T : FileType → Prop) (base : Ip → ℕ) (w : Option (ℕ × Name))
    (type : FileType) (r : ℤ) (s s' : State) : Prop extends Returned sb T base 6 s s' where
  fail : r = -1 → Undone sb w s s'
  ok : r ≠ -1 → r = 0 ∧ ∃ i p name, w = some (p, name) ∧ (nodes sb s p).type = .dir ∧
    (nodes sb s p).find name = none ∧ 1 ≤ i ∧ i < sb.ninodes ∧ ¬ Allocated sb s.dinode i ∧
    ((type = .dir → (nodes sb s p).nlink ≠ -1) →
      nodes sb s' = createdNodes (nodes sb s) type i p name)

theorem wp_sysMake (hT : T .dir) (hE : Soft E) (hnt : E .ilockNoType) (type : FileType)
    (hfree : type ≠ .free) (hfile : type ≠ .file) {cwd : Ip} (path : List UInt8) (major minor : Int16)
    (o : Outset sb T base cwd s) :
    wp (sysMake sb cwd path type major minor) s (Made sb T base
      (walk (nodes sb s) true (startOf s cwd path) (elements path.length path)) type
      · s.begun ·) E := by
  unfold sysMake
  rw [wp_bind, wp_beginOp]
  show wp _ s.begun _ _
  have hw : walk (nodes sb s) true (startOf s cwd path) (elements path.length path) =
    walk (nodes sb s.begun) true (startOf s.begun cwd path) (elements path.length path) := rfl
  rw [hw]
  replace o := o.begun
  generalize s.begun = s at *
  clear hw
  rw [wp_bind]
  refine wp_call (wp_create hT hE hnt hfree path major minor o) fun r s₁ hc => ?_
  obtain ⟨i, p, honly, hin⟩ := hc.only
  cases r with
  | none =>
    obtain ⟨hh, hN, hk⟩ := hc.fail rfl
    exact ⟨⟨hc.inv, hc.steady, hh, i, p, honly⟩, fun _ => ⟨hN, hk⟩, fun hr => absurd rfl hr⟩
  | some ip =>
    obtain ⟨hh, hr, p', name, hwalk, hdir, hcase⟩ := hc.ok ip rfl
    obtain ⟨-, htype, -⟩ | ⟨habs, hnot, hN⟩ := hcase
    · exact absurd htype hfile
    show wp (iunlockput sb ip >>= _) s₁ _ _
    rw [wp_bind]
    refine wp_call (wp_iunlockput_drop hc.inv hh (by simp)) fun _ s₂ hd => ?_
    obtain ⟨h1, h2⟩ := hc.inv.inums ip hr.live
    have honly₂ := hd.only
    rw [hin ip rfl] at honly₂ h1 h2 hnot hN
    refine ⟨⟨hd.inv, hc.steady.trans hd.steady, hd.holds, i, p, ?_⟩,
      fun hr => absurd hr (by decide), fun _ => ⟨rfl, i, p', name, hwalk, hdir, habs, h1, h2, hnot,
        fun hl => ?_⟩⟩
    · exact (honly.trans honly₂).mono (by simp) le_rfl
    · have hn₁ : NoOrphan sb base s₁ := by
        refine o.linked.of_nodes hc.steady fun j hj hj' => ?_
        rw [hN hl] at hj hj'
        exact .inl (createdNodes_orphan hl hj hj')
      rw [(hd.quiet hn₁).nodes, hN hl]

/-- Inodes, contents and directories are the same, and so are the free blocks, but for
one that became the indirect block of `parent`. -/
structure Unchanged (sb : Superblock) (parent : Option ℕ) (s s' : State) : Prop where
  allocated : ∀ i, Allocated sb s'.dinode i ↔ Allocated sb s.dinode i
  inodes : ∀ i, Allocated sb s.dinode i →
    s'.dinode i = { s.dinode i with addrs := (s'.dinode i).addrs }
  blocks : ∀ i, Allocated sb s.dinode i → ∀ bn,
    blockAt s'.data (s'.dinode i) bn = blockAt s.data (s.dinode i) bn
  contents : ∀ i, Allocated sb s.dinode i → ∀ off,
    blockAt s.data (s.dinode i) (off / BSIZE) ≠ 0 →
    byteAt s'.data (s'.dinode i) off = byteAt s.data (s.dinode i) off
  entries : ∀ i, (nodes sb s' i).entries = (nodes sb s i).entries
  free : ∀ b, b < sb.size → s'.bitmap b = s.bitmap b ∨
    s.bitmap b = false ∧ s'.bitmap b = true ∧ ∃ p, parent = some p ∧
      (s.dinode p).addrs indirect = 0 ∧ (s'.dinode p).addrs indirect = b

lemma Unchanged.refl (sb : Superblock) (parent : Option ℕ) (s : State) :
    Unchanged sb parent s s :=
  ⟨fun _ => .rfl, fun _ _ => rfl, fun _ _ _ => rfl, fun _ _ _ _ => rfl, fun _ => rfl,
    fun _ _ => .inl rfl⟩

lemma Undone.allocated (hu : Undone sb w s s') (i : ℕ) :
    Allocated sb s'.dinode i ↔ Allocated sb s.dinode i := by
  rw [← nodes_type_ne_free_iff, hu.nodes, nodes_type_ne_free_iff]

lemma Undone.refs (hu : Undone sb w s s') {x : ℕ × ℕ}
    (hx : Fs.refs sb s.dinode s.data x ≠ 0 ∨ x.2 ≠ NDIRECT ∨ ∀ name, w ≠ some (x.1, name)) :
    Fs.refs sb s'.dinode s'.data x = Fs.refs sb s.dinode s.data x := by
  obtain ⟨i, l⟩ := x
  by_cases hi : Allocated sb s.dinode i
  · have hk := hu.kept.kept i hi not_false
    rw [refs_of_allocated hi, refs_of_allocated ((hu.allocated i).mpr hi)]
    rw [refs_of_allocated hi] at hx
    by_cases hl : l = NDIRECT
    · subst hl
      rw [refAt_indirect] at hx
      rw [refAt_indirect, refAt_indirect]
      obtain hx | hx | hx := hx
      · exact hk.indirect hx
      · exact absurd rfl hx
      · exact hu.kept.indirect i hi not_false fun ⟨name, he⟩ => hx name he
    · exact hk.refs l hl
  · rw [Fs.refs, Fs.refs, if_neg hi, if_neg fun hc => hi ((hu.allocated i).mp hc)]

lemma Undone.free (hu : Undone sb w s s') (h : FsInv sb T s) (h' : FsInv sb T s') {b : ℕ}
    (hb : b < sb.size) : s'.bitmap b = s.bitmap b ∨
    s.bitmap b = false ∧ s'.bitmap b = true ∧ ∃ p, w.map Prod.fst = some p ∧
      (s.dinode p).addrs indirect = 0 ∧ (s'.dinode p).addrs indirect = b := by
  have hold := h.own.bits b hb
  have hnew := h'.own.bits b hb
  cases hs : s.bitmap b with
  | true =>
    -- a block in use stays with its owner
    refine .inl (hnew.mpr ?_)
    obtain hlow | ⟨x, hx⟩ := hold.mp hs
    · exact .inl hlow
    by_cases h0 : b = 0
    · exact .inl (h0 ▸ dataStart_pos sb)
    · exact .inr ⟨x, (hu.refs (.inl (hx ▸ h0))).trans hx⟩
  | false =>
    cases hs' : s'.bitmap b with
    | false => exact .inl rfl
    | true =>
      have hfree := h.own.free_of_bit hb hs
      obtain hlow | ⟨⟨j, l⟩, hx⟩ := hnew.mp hs'
      · exact absurd hlow (Nat.not_lt.mpr hfree.1)
      have hmoved : Fs.refs sb s'.dinode s'.data (j, l) ≠ Fs.refs sb s.dinode s.data (j, l) :=
        fun he => hfree.2 (j, l) (he ▸ hx)
      have h0 : Fs.refs sb s.dinode s.data (j, l) = 0 :=
        by_contra fun hc => hmoved (hu.refs (.inl hc))
      have hl : l = NDIRECT := by_contra fun hc => hmoved (hu.refs (.inr (.inl hc)))
      obtain ⟨name, hw⟩ : ∃ name, w = some (j, name) :=
        by_contra fun hc => hmoved (hu.refs (.inr (.inr (not_exists.mp hc))))
      have hj : Allocated sb s.dinode j := by
        by_contra hc
        refine hmoved ?_
        rw [Fs.refs, Fs.refs, if_neg hc, if_neg fun ha => hc ((hu.allocated j).mp ha)]
      subst hl
      rw [refs_of_allocated hj, refAt_indirect] at h0
      rw [refs_of_allocated ((hu.allocated j).mpr hj), refAt_indirect] at hx
      exact .inr ⟨rfl, rfl, j, by rw [hw]; rfl, h0, hx⟩

theorem Undone.unchanged (hu : Undone sb w s s') (h : FsInv sb T s) (h' : FsInv sb T s') :
    Unchanged sb (w.map Prod.fst) s s' where
  allocated := hu.allocated
  inodes i hi := by
    obtain ⟨m, a, ha⟩ := (hu.kept.kept i hi not_false).fields
    have hm : m = (s.dinode i).nlink := by
      rw [← nodes_nlink hi, ← hu.nodes, nodes_nlink ((hu.allocated i).mpr hi), ha]
    rw [ha, hm]
  blocks i hi bn := (hu.kept.kept i hi not_false).refs _ place_ne_indirect
  contents i hi off hoff := by
    have hk := hu.kept.kept i hi not_false
    have hb : blockAt s'.data (s'.dinode i) (off / BSIZE) =
        blockAt s.data (s.dinode i) (off / BSIZE) := hk.refs _ place_ne_indirect
    have hd : s'.data (blockAt s.data (s.dinode i) (off / BSIZE)) =
        s.data (blockAt s.data (s.dinode i) (off / BSIZE)) := hk.data _ place_ne_indirect hoff
    rw [byteAt, byteAt, hb, hd]
  entries i := by rw [hu.nodes]
  free b hb := hu.free h h' hb

namespace Call

/-- The calls that make or remove names. -/
def Names : Call → Prop
  | .mkdir _ | .mknod .. | .link .. | .unlink _ => True
  | _ => False

/-- The path under which the call is to enter a name. -/
def target : Call → Option Path
  | .mkdir path | .mknod path .. | .link _ path => path
  | _ => none

/-- The directory in which the call is to enter a name. -/
def parent (sb : Superblock) (s : State) (cwd : Ip) (c : Call) : Option ℕ :=
  c.target.bind fun path =>
    (resolveParent (nodes sb s) (startOf s cwd path.chars) (components path.chars)).map Prod.fst

end Call

lemma walk_parent (N : ℕ → Node) (i : ℕ) (path : List UInt8) :
    walk N true i (elements path.length path) = resolveParent N i (components path) := by
  rw [elements_eq_components le_rfl, walk_eq_resolveParent]

lemma run_syscall {k : Kernel} {p : Pid} {pr : Proc} (hp : k.proc p = some pr) (c : Call) :
    (syscall sb p c).run k = (c.body sb p pr).run k := by
  unfold syscall
  rw [run_bind rfl, hp]

/-- A call of the file system that undoes what it did when it returns -1. -/
lemma unchanged_of_wp {k k' : Kernel} {m : FsM ℤ} (h : FsInv sb T k.fs)
    (hwp : wp m k.fs (fun r s' => r = -1 → FsInv sb T s' ∧ Undone sb w k.fs.begun s')
      fun _ => True)
    (hrun : (onFs m).run k = .ok (-1, k')) :
    k'.ftable = k.ftable ∧ k'.proc = k.proc ∧ Unchanged sb (w.map Prod.fst) k.fs k'.fs := by
  have hk : wp (onFs m) k (fun r k' => r = -1 → k'.ftable = k.ftable ∧ k'.proc = k.proc ∧
      Unchanged sb (w.map Prod.fst) k.fs k'.fs) fun _ => True := by
    rw [onFs, wp_zoom]
    refine wp_call hwp fun r s' hr hr1 => ⟨rfl, rfl, ?_⟩
    obtain ⟨h', hu⟩ := hr hr1
    have h₀ : FsInv sb T k.fs.begun := ⟨h.own, h.noHole, h.entries, h.uniq, h.inums,
      fun jp hr => h.coh jp ⟨hr.live, hr.valid⟩⟩
    have hun := hu.unchanged h₀ h'
    exact ⟨hun.allocated, hun.inodes, hun.blocks, hun.contents, hun.entries, hun.free⟩
  exact wp_elim hk hrun rfl

theorem failed_call_keeps_namespace {k k' : Kernel} {p : Pid} {pr : Proc} {c : Call}
    (h : Calm sb (· = .dir) k.fs) (hp : k.proc p = some pr) (hcwd : 0 < (k.fs.itable pr.cwd).ref)
    (hc : c.Names) (hrun : (syscall sb p c).run k = .ok (-1, k')) :
    k'.ftable = k.ftable ∧ k'.proc = k.proc ∧
      Unchanged sb (c.parent sb k.fs pr.cwd) k.fs k'.fs := by
  have o := h.outset hcwd
  have hsoft : Soft fun _ => True := fun _ _ => trivial
  rw [run_syscall hp] at hrun
  have hbad : ∀ {w}, (pure (-1) : KM ℤ).run k = .ok (-1, k') → k'.ftable = k.ftable ∧
      k'.proc = k.proc ∧ Unchanged sb w k.fs k'.fs := by
    intro w hr
    cases hr
    exact ⟨rfl, rfl, .refl ..⟩
  have hpar : ∀ path : Path, (walk (nodes sb k.fs) true (startOf k.fs pr.cwd path.chars)
      (elements path.chars.length path.chars)).map Prod.fst =
      (resolveParent (nodes sb k.fs) (startOf k.fs pr.cwd path.chars)
        (components path.chars)).map Prod.fst := fun path => by rw [walk_parent]
  cases c with
  | mkdir path =>
    cases path with
    | none => exact hbad hrun
    | some path =>
      have hwp := wp_sysMake (T := (· = .dir)) rfl hsoft trivial .dir (by decide) (by decide)
        path.chars 0 0 o
      have := unchanged_of_wp h.inv (wp_call hwp fun r s' hm hr => ⟨hm.inv, hm.fail hr⟩) hrun
      rwa [hpar] at this
  | mknod path major minor =>
    cases path with
    | none => exact hbad hrun
    | some path =>
      have hwp := wp_sysMake (T := (· = .dir)) rfl hsoft trivial .device (by decide) (by decide)
        path.chars major minor o
      have := unchanged_of_wp h.inv (wp_call hwp fun r s' hm hr => ⟨hm.inv, hm.fail hr⟩) hrun
      rwa [hpar] at this
  | link old new =>
    cases old with
    | none => exact hbad hrun
    | some old =>
      cases new with
      | none => exact hbad hrun
      | some new =>
        have hwp := wp_sysLink (T := (· = .dir)) rfl hsoft trivial old.chars new.chars o
        have := unchanged_of_wp h.inv (wp_call hwp fun r s' hm hr => ⟨hm.inv, hm.fail hr⟩) hrun
        rwa [hpar] at this
  | unlink path =>
    cases path with
    | none => exact hbad hrun
    | some path =>
      have hwp := wp_sysUnlink (T := (· = .dir)) rfl hsoft trivial trivial path.chars o
        fun _ _ _ _ _ _ => trivial
      exact unchanged_of_wp h.inv (wp_call hwp fun r s' hm hr => ⟨hm.inv, hm.fail hr⟩) hrun
  | _ => exact absurd hc id

def firstPid : Pid := ⟨0, by decide⟩

/-- One process in the root directory, and no open files. -/
def rootKernel : Kernel where
  fs := rootFs
  ftable _ := ⟨.none, 0, false, false, rootSlot, 0, 0⟩
  proc p := if p = firstPid then some ⟨rootSlot, fun _ => none⟩ else none

/-- The path `/.`, which is there already. -/
def dotPath : Path := ⟨[47, 46], by decide, by decide⟩

theorem failed_mkdir_keeps_root : ∃ k', (syscall plainSb firstPid (.mkdir (some dotPath))).run
      rootKernel = .ok (-1, k') ∧ k'.ftable = rootKernel.ftable ∧ k'.proc = rootKernel.proc ∧
      Unchanged plainSb (some 1) rootFs k'.fs := by
  have hret : ((syscall plainSb firstPid (.mkdir (some dotPath))).run rootKernel).map Prod.fst =
      .ok (-1) := by decide +kernel
  generalize hrun : (syscall plainSb firstPid (.mkdir (some dotPath))).run rootKernel = x at hret
  obtain e | ⟨r, k'⟩ := x
  · cases hret
  · cases hret
    have hpar : (Call.mkdir (some dotPath)).parent plainSb rootFs rootSlot = some 1 := by
      decide +kernel
    have hp : rootKernel.proc firstPid = some ⟨rootSlot, fun _ => none⟩ := rfl
    refine ⟨k', rfl, ?_⟩
    rw [← hpar]
    exact failed_call_keeps_namespace rootFs_walkable.calm hp (by decide) trivial hrun

end Xv6.Fs
