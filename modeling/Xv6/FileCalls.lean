import Xv6.FileOps

/-!
# Every call keeps the file table

The calls are built from the functions of `FileOps`, so that between calls an entry's
count is the number of descriptors that point to it. What follows holds after every
sequence of calls: an end of a pipe is open while an entry in use refers to it, a
pipe's page is freed once, and an inode reference is dropped once.
-/
namespace Xv6.FileTable

open Function References Prog

variable {I PG : Type} {s s' : State I PG} {x : Fp → ℤ} {f : Fp} {p : Pid} {fd : Fin NOFILE}

lemma holds_some (f : Fp) : holds (some f) = Pi.single f 1 := rfl

lemma holds_none : holds none = 0 := rfl

/-- A descriptor takes a reference over from the running call. -/
theorem fdalloc_spec (h : Inv s x) (hp : s.live p = true) :
    wp (fdalloc p f) s (fun r s' => (r = none → s' = s) ∧ ∀ fd, r = some fd →
      s.ofile (p, fd) = none ∧ s' = { s with ofile := update s.ofile (p, fd) (some f) } ∧
        Inv s' (x - Pi.single f 1)) fun _ => False := by
  unfold fdalloc
  rw [wp_bind, wp_get]
  cases hfind : (List.finRange NOFILE).find? fun fd => s.ofile (p, fd) = none with
  | none => exact ⟨fun _ => rfl, fun f hf => (by cases hf)⟩
  | some fd =>
    have hfd : s.ofile (p, fd) = none := by simpa using List.find?_some hfind
    refine ⟨fun hr => (by cases hr), ?_⟩
    rintro _ ⟨⟩
    have hset : Inv { s with ofile := update s.ofile (p, fd) (some f) } _ := h.setSlot fun _ => hp
    rw [hfd, holds_none, add_zero, holds_some] at hset
    exact ⟨hfd, rfl, hset⟩

lemma Inv.clearSlot (h : Inv s x) (hfd : s.ofile (p, fd) = some f) :
    Inv { s with ofile := update s.ofile (p, fd) none } (x + Pi.single f 1) := by
  have hset : Inv { s with ofile := update s.ofile (p, fd) none } _ := h.setSlot fun ho => (by cases ho)
  rwa [hfd, holds_some, holds_none, sub_zero] at hset

lemma argfd_spec {fd : ℤ} {Q : Option (Fin NOFILE × Fp) → State I PG → Prop} {E : Panic → Prop}
    (hnone : Q none s) (hsome : ∀ fd f, s.ofile (p, fd) = some f → Q (some (fd, f)) s) :
    wp (argfd p fd) s Q E := by
  unfold argfd
  rw [wp_bind, wp_get]
  split
  · rw [wp_pure]
    cases hf : s.ofile (p, _) with
    | none => exact hnone
    | some f => exact hsome _ f hf
  · exact hnone

theorem sysDup_spec (h : Inv s 0) (hp : s.live p = true) (fd : ℤ) :
    wp (sysDup p fd) s (fun _ s' => Inv s' 0) fun _ => False := by
  unfold sysDup
  rw [wp_bind]
  refine argfd_spec h fun fd f hf => ?_
  rw [wp_bind]
  refine wp_call (fdalloc_spec h hp) ?_
  rintro r s' ⟨hnone, hsome⟩
  cases r with
  | none =>
    obtain rfl := hnone rfl
    exact h
  | some fd' =>
    obtain ⟨-, rfl, hinv⟩ := hsome fd' rfl
    rw [wp_bind]
    refine wp_call (filedup_spec hinv (h.ref_pos le_rfl hf)) ?_
    rintro _ s' ⟨hdup, -⟩
    rwa [sub_add_cancel] at hdup

lemma iunlockput_spec (h : Inv s x) (ip : I) :
    wp (iunlockput ip) s (fun _ s' => Inv s' x) fun _ => False :=
  ⟨h.counts.congr rfl rfl rfl fun _ => rfl, h.idle,
    h.pipes.congr (fun _ => rfl) h.pipes.pointer rfl rfl rfl, h.opens.pass rfl rfl rfl⟩

lemma openFile_spec (h : Inv s x) (hf : (s.file f).type = .none) (href : (s.file f).ref = 1)
    (ip : Locked I) (omode : ℕ) :
    wp (openFile f ip omode) s (fun _ s' => Inv s' x) fun _ => False := by
  unfold openFile obtain
  simp only [wp_bind, wp_get, wp_pure, modifyFile, wp_modify, update_self, update_idem]
  by_cases hdev : ip.type = .device
  · simp only [if_pos hdev]
    exact h.openFile hf rfl rfl rfl (href.trans_ne one_ne_zero) rfl
  · simp only [if_neg hdev]
    exact h.openFile hf rfl rfl rfl (href.trans_ne one_ne_zero) rfl

variable [DecidableEq PG]

theorem sysClose_spec (h : Inv s 0) (fd : ℤ) :
    wp (sysClose p fd) s (fun _ s' => Inv s' 0) fun _ => False := by
  unfold sysClose
  rw [wp_bind]
  refine argfd_spec h fun fd f hf => ?_
  simp only [wp_bind, setOfile, wp_modify]
  refine wp_call (fileclose_spec (h.clearSlot hf) (h.ref_pos le_rfl hf)) ?_
  rintro _ s' ⟨hclose, -⟩
  rwa [add_sub_cancel_right] at hclose

/-- Both ends of a pipe, or both entries meant for one, are given up. -/
lemma closeBoth_spec {α : Type} {f0 f1 : Fp} (a : α)
    (h : Inv s (Pi.single f0 1 + Pi.single f1 1)) (hne : f0 ≠ f1) (h0 : 0 < (s.file f0).ref)
    (h1 : 0 < (s.file f1).ref) :
    wp (do fileclose f0; fileclose f1; return a) s (fun r s' => r = a ∧ Inv s' 0)
      fun _ => False := by
  rw [wp_bind]
  refine wp_call (fileclose_spec h h0) ?_
  rintro _ s₁ ⟨hinv, hframe⟩
  rw [wp_bind]
  rw [add_sub_cancel_left] at hinv
  refine wp_call (fileclose_spec hinv (by rwa [hframe.file f1 hne.symm])) ?_
  rintro _ s₂ ⟨hinv, -⟩
  rw [sub_self] at hinv
  exact ⟨rfl, hinv⟩

theorem pipeinit_spec {f0 f1 : Fp} {page : Option PG}
    (h : Inv s (Pi.single f0 1 + Pi.single f1 1)) (hne : f0 ≠ f1)
    (h0 : (s.file f0).ref = 1 ∧ (s.file f0).type = .none)
    (h1 : (s.file f1).ref = 1 ∧ (s.file f1).type = .none)
    (hpage : ∀ pa, page = some pa → s.pipe pa = none) :
    wp (pipeinit f0 f1 page) s (fun r s' => (r = none → Inv s' 0) ∧ ∀ e, r = some e →
      e = (f0, f1) ∧ Inv s' (Pi.single f0 1 + Pi.single f1 1) ∧ s'.ofile = s.ofile ∧
        s'.live = s.live ∧ (s'.file f0).ref = 1 ∧ (s'.file f1).ref = 1) fun _ => False := by
  cases page with
  | none =>
    refine wp_call (closeBoth_spec none h hne (by omega) (by omega)) ?_
    rintro _ s' ⟨rfl, hinv⟩
    exact ⟨fun _ => hinv, fun e he => (by cases he)⟩
  | some pa =>
    refine ⟨fun hr => (by cases hr), ?_⟩
    rintro _ ⟨⟩
    have hf1 (v : File I PG) : update s.file f0 v f1 = s.file f1 := update_of_ne hne.symm ..
    refine ⟨rfl, ?_, rfl, rfl, ?_, ?_⟩
    · refine h.makePipe h0.2 h1.2 hne (hpage pa rfl) rfl rfl ⟨rfl, ?_⟩ ⟨?_, ?_⟩ rfl
      · exact h0.1.trans_ne one_ne_zero
      · show (update s.file f0 _ f1).ref = (s.file f1).ref
        rw [hf1]
      · show (update s.file f0 _ f1).ref ≠ 0
        rw [hf1, h1.1]
        exact one_ne_zero
    · show (update (update s.file f0 _) f1 _ f0).ref = 1
      rw [update_of_ne hne, update_self]
      exact h0.1
    · show (update (update s.file f0 _) f1 _ f1).ref = 1
      rw [update_self]
      show (update s.file f0 _ f1).ref = 1
      rw [hf1, h1.1]

theorem pipealloc_spec {page : Option PG} (h : Inv s 0)
    (hpage : ∀ pa, page = some pa → s.pipe pa = none) :
    wp (pipealloc page) s (fun r s' => (r = none → Inv s' 0) ∧ ∀ f0 f1, r = some (f0, f1) →
      f0 ≠ f1 ∧ Inv s' (Pi.single f0 1 + Pi.single f1 1) ∧ s'.ofile = s.ofile ∧
        s'.live = s.live ∧ (s'.file f0).ref = 1 ∧ (s'.file f1).ref = 1) fun _ => False := by
  unfold pipealloc
  rw [wp_bind]
  refine wp_call (filealloc_spec h fun _ => le_rfl) ?_
  rintro r s₁ ⟨hnone, hsome⟩
  cases r with
  | none =>
    obtain rfl := hnone rfl
    exact ⟨fun _ => h, fun _ _ hr => (by cases hr)⟩
  | some f0 =>
    obtain ⟨hinv, hframe, -, href, htype⟩ := hsome f0 rfl
    rw [zero_add] at hinv
    rw [wp_bind]
    refine wp_call (filealloc_spec hinv ?_) ?_
    · exact fun f => (Pi.single_nonneg.mpr zero_le_one : (0 : Fp → ℤ) ≤ Pi.single f0 1) f
    rintro r s₂ ⟨hnone, hsome⟩
    cases r with
    | none =>
      obtain rfl := hnone rfl
      rw [wp_bind]
      refine wp_call (fileclose_spec hinv (by omega)) ?_
      rintro _ s₃ ⟨hinv, -⟩
      rw [sub_self] at hinv
      exact ⟨fun _ => hinv, fun _ _ hr => (by cases hr)⟩
    | some f1 =>
      obtain ⟨hinv', hframe', hfree, href', htype'⟩ := hsome f1 rfl
      have hne : f0 ≠ f1 := by
        rintro rfl
        exact one_ne_zero (href.symm.trans hfree)
      have hf0 : s₂.file f0 = s₁.file f0 := hframe'.file f0 hne
      refine wp_call (pipeinit_spec hinv' hne (hf0 ▸ ⟨href, htype⟩) ⟨href', htype'⟩ ?_) ?_
      · exact fun pa hpa => hframe'.page pa (hframe.page pa (hpage pa hpa))
      · rintro r s₃ ⟨hnone, hsome⟩
        refine ⟨hnone, fun g0 g1 hr => ?_⟩
        obtain ⟨he, hinv'', hofile, hlive, hrefs⟩ := hsome _ hr
        obtain ⟨rfl, rfl⟩ := Prod.mk.inj he
        exact ⟨hne, hinv'', hofile.trans (hframe'.ofile.trans hframe.ofile),
          hlive.trans (hframe'.live.trans hframe.live), hrefs⟩

/-- Two descriptors are cleared again, and the ends they stood for given up. -/
theorem sysPipe_spec {page : Option PG} (h : Inv s 0) (hp : s.live p = true)
    (hpage : ∀ pa, page = some pa → s.pipe pa = none) (copied : Bool) :
    wp (sysPipe p page copied) s (fun _ s' => Inv s' 0) fun _ => False := by
  unfold sysPipe
  rw [wp_bind]
  refine wp_call (pipealloc_spec h hpage) ?_
  rintro r s₁ ⟨hnone, hsome⟩
  cases r with
  | none => exact hnone rfl
  | some e =>
    obtain ⟨rf, wf⟩ := e
    obtain ⟨hne, hinv, -, hlive, hrf, hwf⟩ := hsome rf wf rfl
    have hpos : 0 < (s₁.file rf).ref ∧ 0 < (s₁.file wf).ref := ⟨by omega, by omega⟩
    rw [wp_bind]
    refine wp_call (fdalloc_spec hinv (hlive ▸ hp)) ?_
    rintro r s₂ ⟨hnone, hsome⟩
    cases r with
    | none =>
      obtain rfl := hnone rfl
      exact wp_call (closeBoth_spec (-1) hinv hne hpos.1 hpos.2) fun _ _ h => h.2
    | some fd0 =>
      obtain ⟨hfree0, rfl, hinv0⟩ := hsome fd0 rfl
      rw [wp_bind]
      refine wp_call (fdalloc_spec hinv0 (hlive ▸ hp)) ?_
      rintro r s₃ ⟨hnone, hsome⟩
      cases r with
      | none =>
        obtain rfl := hnone rfl
        have hslot : (update s₁.ofile (p, fd0) (some rf)) (p, fd0) = some rf := update_self ..
        have hclear := hinv0.clearSlot hslot
        rw [sub_add_cancel] at hclear
        rw [wp_bind, setOfile, wp_modify]
        exact wp_call (closeBoth_spec (-1) hclear hne hpos.1 hpos.2) fun _ _ h => h.2
      | some fd1 =>
        obtain ⟨hfree1, rfl, hinv1⟩ := hsome fd1 rfl
        rw [wp_ite]
        split_ifs
        · rwa [add_sub_cancel_left, sub_self] at hinv1
        · have hfd : fd0 ≠ fd1 := by
            rintro rfl
            have hslot : update s₁.ofile (p, fd0) (some rf) (p, fd0) = some rf := update_self ..
            cases hslot.symm.trans hfree1
          have hslot0 : update (update s₁.ofile (p, fd0) (some rf)) (p, fd1) (some wf) (p, fd0) =
              some rf := (update_of_ne (by simp [hfd]) ..).trans (update_self ..)
          have hslot1 : update (update (update s₁.ofile (p, fd0) (some rf)) (p, fd1) (some wf))
              (p, fd0) none (p, fd1) = some wf :=
            (update_of_ne (by simp [hfd.symm]) ..).trans (update_self ..)
          have hclear := (hinv1.clearSlot hslot0).clearSlot hslot1
          rw [add_sub_cancel_left, sub_self, zero_add] at hclear
          rw [wp_bind, setOfile, wp_modify, wp_bind, setOfile, wp_modify]
          exact wp_call (closeBoth_spec (-1) hclear hne hpos.1 hpos.2) fun _ _ h => h.2

theorem sysOpen_spec (h : Inv s 0) (hp : s.live p = true) (found : Option (Locked I)) (omode : ℕ) :
    wp (sysOpen p found omode) s (fun _ s' => Inv s' 0) fun _ => False := by
  have hfail (s' : State I PG) (ip : I) (h : Inv s' 0) :
      wp (do iunlockput ip; return -1) s' (fun _ s' => Inv s' 0) fun _ => False := by
    rw [wp_bind]
    exact iunlockput_spec h ip
  unfold sysOpen
  cases found with
  | none => exact h
  | some ip =>
    simp only [wp_ite]
    split_ifs
    · exact hfail s ip.ip h
    · exact hfail s ip.ip h
    · rw [wp_bind]
      refine wp_call (filealloc_spec h fun _ => le_rfl) ?_
      rintro r s₁ ⟨hnone, hsome⟩
      cases r with
      | none =>
        obtain rfl := hnone rfl
        exact hfail s₁ ip.ip h
      | some f =>
        obtain ⟨hinv, hframe, -, href, htype⟩ := hsome f rfl
        rw [zero_add] at hinv
        rw [wp_bind]
        refine wp_call (fdalloc_spec hinv (hframe.live ▸ hp)) ?_
        rintro r s₂ ⟨hnone, hsome⟩
        cases r with
        | none =>
          obtain rfl := hnone rfl
          rw [wp_bind]
          refine wp_call (fileclose_spec hinv (by omega)) ?_
          rintro _ s₃ ⟨hinv, -⟩
          rw [sub_self] at hinv
          exact hfail s₃ ip.ip hinv
        | some fd =>
          obtain ⟨-, rfl, hinv⟩ := hsome fd rfl
          rw [sub_self] at hinv
          rw [wp_bind]
          exact openFile_spec hinv htype href ip omode

/-- During `kfork` the child's descriptors from `i` on are still free. -/
structure Copied (np : Pid) (i : ℕ) (s : State I PG) : Prop where
  inv : Inv s 0
  live : s.live np = true
  free : ∀ fd : Fin NOFILE, i ≤ fd → s.ofile (np, fd) = none

omit [DecidableEq PG] in
lemma Copied.next {np : Pid} {i : ℕ} (h : Copied np i s) {o : Option Fp} (hinv : Inv s' 0)
    (hlive : s'.live np = true)
    (hofile : s'.ofile = update s.ofile (np, Fin.ofNat NOFILE i) o) (hi : i < NOFILE) :
    Copied np (i + 1) s' := by
  refine ⟨hinv, hlive, fun fd hfd => ?_⟩
  rw [hofile, update_of_ne, h.free fd (by omega)]
  intro heq
  have := congrArg Fin.val (Prod.mk.inj heq).2
  rw [Fin.val_ofNat, Nat.mod_eq_of_lt hi] at this
  omega

omit [DecidableEq PG] in
theorem kfork_spec (h : Inv s 0) {np : Option Pid} (hnp : ∀ q, np = some q → s.live q = false)
    (copied : Bool) : wp (kfork p np copied) s (fun _ s' => Inv s' 0) fun _ => False := by
  unfold kfork
  cases np with
  | none => exact h
  | some np =>
    have hdead (fd : Fin NOFILE) : s.ofile (np, fd) = none := h.counts.dead np fd (hnp np rfl)
    have hstart := h.setLive (p := np) (b := true) fun hb => (by cases hb)
    rw [wp_bind, setLive, wp_modify, wp_ite]
    split_ifs
    · rw [wp_bind]
      refine wp_call (wp_loop (Copied np) ⟨hstart, update_self .., fun fd _ => hdead fd⟩ ?_)
        fun _ s' hs' => hs'.inv
      intro i s₁ hi hs₁
      have hfree : s₁.ofile (np, Fin.ofNat NOFILE i) = none := by
        refine hs₁.free _ ?_
        rw [Fin.val_ofNat, Nat.mod_eq_of_lt hi]
      rw [wp_bind, wp_get]
      cases hf : s₁.ofile (p, Fin.ofNat NOFILE i) with
      | none => exact hs₁.next hs₁.inv hs₁.live (update_eq_self_iff.mpr hfree.symm).symm hi
      | some f =>
        rw [wp_bind]
        refine wp_call (filedup_spec hs₁.inv (hs₁.inv.ref_pos le_rfl hf)) ?_
        rintro _ s₂ ⟨hinv, hframe⟩
        have hlive : s₂.live np = true := by rw [hframe.live, hs₁.live]
        have hset : Inv { s₂ with ofile := update s₂.ofile (np, Fin.ofNat NOFILE i) (some f) } _ :=
          hinv.setSlot fun _ => hlive
        have hold := congrFun hframe.ofile (np, Fin.ofNat NOFILE i)
        rw [hold, hfree, holds_none, add_zero, holds_some, zero_add, sub_self] at hset
        exact hs₁.next hset hlive (congrArg (update · _ _) hframe.ofile) hi
    · exact hstart.setLive fun _ => hdead

/-- During `kexit` the descriptors up to `i` are closed. -/
structure Closed (p : Pid) (i : ℕ) (s : State I PG) : Prop where
  inv : Inv s 0
  closed : ∀ fd : Fin NOFILE, fd < i → s.ofile (p, fd) = none

omit [DecidableEq PG] in
lemma Closed.next {i : ℕ} (h : Closed p i s) (hinv : Inv s' 0)
    (hofile : s'.ofile = update s.ofile (p, Fin.ofNat NOFILE i) none) : Closed p (i + 1) s' := by
  refine ⟨hinv, fun fd hfd => ?_⟩
  rw [hofile]
  by_cases heq : fd = Fin.ofNat NOFILE i
  · rw [heq, update_self]
  · rw [update_of_ne (fun h => heq (Prod.mk.inj h).2)]
    refine h.closed fd (Nat.lt_of_le_of_ne (Nat.le_of_lt_succ hfd) fun hval => heq (Fin.ext ?_))
    rw [Fin.val_ofNat, ← hval, Nat.mod_eq_of_lt fd.isLt]

theorem kexit_spec (h : Inv s 0) :
    wp (kexit p) s (fun _ s' => Inv s' 0) fun e => e = .initExiting := by
  unfold kexit
  dsimp only
  rw [wp_ite]
  split_ifs
  · rfl
  · rw [wp_bind]
    refine wp_call (wp_loop (Closed p) ⟨h, fun fd hfd => absurd hfd (Nat.not_lt_zero _)⟩ ?_) ?_
    · intro i s₁ hi hs₁
      rw [wp_bind, wp_get]
      cases hf : s₁.ofile (p, Fin.ofNat NOFILE i) with
      | none => exact hs₁.next hs₁.inv (update_eq_self_iff.mpr hf.symm).symm
      | some f =>
        rw [wp_bind]
        refine wp_mono (fileclose_spec hs₁.inv (hs₁.inv.ref_pos le_rfl hf)) ?_ fun _ he => he.elim
        rintro _ s₂ ⟨hinv, hframe⟩
        -- the descriptor still points to the file that has lost its reference
        have hold := (congrFun hframe.ofile (p, Fin.ofNat NOFILE i)).trans hf
        have hclear := hinv.clearSlot hold
        rw [sub_add_cancel] at hclear
        exact hs₁.next hclear (congrArg (update · _ _) hframe.ofile)
    · intro _ s₁ hs₁
      exact hs₁.inv.setLive fun _ fd => hs₁.closed fd fd.isLt

theorem body_spec (h : Inv s 0) {c : Call I PG} (hlive : s.live c.caller = true)
    (hc : Answers s c) :
    wp c.body s (fun _ s' => Inv s' 0) fun e => e = .initExiting := by
  cases c with
  | «open» p found omode =>
    exact wp_mono (sysOpen_spec h hlive found omode) (fun _ _ h => h) fun _ he => he.elim
  | dup p fd => exact wp_mono (sysDup_spec h hlive fd) (fun _ _ h => h) fun _ he => he.elim
  | pipe p page copied =>
    refine wp_mono (sysPipe_spec h hlive ?_ copied) (fun _ _ h => h) fun _ he => he.elim
    rintro pa rfl
    exact hc
  | close p fd => exact wp_mono (sysClose_spec h fd) (fun _ _ h => h) fun _ he => he.elim
  | fork p np copied =>
    refine wp_mono (kfork_spec h ?_ copied) (fun _ _ h => h) fun _ he => he.elim
    rintro q rfl
    exact hc
  | exit p => exact kexit_spec h

omit [DecidableEq PG] in
lemma inv_init : Inv (init : State I PG) 0 where
  counts :=
    { ref := fun f => by
        have hslots : (init : State I PG).slots f = 0 :=
          pointers_eq_zero_iff.mpr fun i hi => (by cases hi)
        rw [hslots]
        rfl
      dead := fun _ _ _ => rfl
      allocs := fun a ha => (by cases ha) }
  idle := fun _ _ => rfl
  pipes :=
    { pointer := fun _ ht => (by cases ht)
      page := fun _ _ _ he => (by cases he)
      opened := fun _ _ _ hpa => (by cases hpa)
      inj := fun _ _ _ he => (by cases he)
      alive := fun _ _ hpa => (by cases hpa)
      ledger := Ledger.empty
      kfrees := fun k hk => (by cases hk) }
  opens :=
    { ledger := Ledger.empty
      held := fun _ _ hn => (by cases hn)
      dropped := fun d hd => (by cases hd) }

theorem inv_of_exec {calls : List (Call I PG)} (h : Runs.exec step init calls = some s) :
    Inv s 0 := by
  refine Runs.invariant (I := fun s => Inv s 0) (fun s c s' hs hstep => ?_) inv_init h
  unfold step at hstep
  split_ifs at hstep with hc
  cases hrun : c.body.run s with
  | error e =>
    rw [hrun] at hstep
    cases hstep
  | ok r =>
    rw [hrun] at hstep
    obtain rfl := Option.some.inj hstep
    exact wp_elim (body_spec hs hc.1 hc.2) hrun

omit [DecidableEq PG] in
/-- An inode reference is in one file in use and was not dropped, or it is in none and
was dropped once. -/
lemma Inv.held_or_dropped (h : Inv s x) {n : ℕ} {ip : I} (hn : s.hist.obtained[n]? = some ip) :
    (∃ f, s.holdsRef f n ∧ (s.file f).ip = some ip ∧ ∀ g, s.holdsRef g n → g = f) ∧
        s.hist.iputs.filter (·.1 = n) = [] ∨
      (∀ f, ¬ s.holdsRef f n) ∧ s.hist.iputs.filter (·.1 = n) = [(n, some ip)] := by
  have hlength : (s.hist.iputs.filter (·.1 = n)).length = (s.hist.iputs.map Prod.fst).count n := by
    rw [List.count, List.countP_map, List.countP_eq_length_filter]
    rfl
  simp only [h.holdsRef_iff]
  obtain ⟨⟨f, hf, huniq⟩, hcount⟩ | ⟨hnone, hcount⟩ :=
    h.opens.ledger.placed_or_retired (List.getElem?_eq_some_iff.mp hn).1
  · refine .inl ⟨⟨f, hf, (h.opens.held f n hf).symm.trans hn, huniq⟩, ?_⟩
    exact List.length_eq_zero_iff.mp (hlength.trans hcount)
  · refine .inr ⟨hnone, ?_⟩
    obtain ⟨d, hd⟩ := List.length_eq_one_iff.mp (hlength.trans hcount)
    obtain ⟨hmem, hdn⟩ := List.mem_filter.mp (hd ▸ List.mem_singleton_self d)
    have hfst : d.1 = n := of_decide_eq_true hdn
    have hsnd : some ip = d.2 := hn.symm.trans (hfst ▸ h.opens.dropped d hmem)
    rw [hd, hsnd, ← hfst]

/-- After every sequence of calls, failed ones included: every count is the number of
descriptors that point to the entry; `filealloc` has only handed out entries without
descriptors; no call panics, but for the exit of the first process; the flags of a
pipe say which of its ends an entry in use refers to; the page of a pipe is there
while an entry in use refers to it and was freed once otherwise, when none did; and an inode
reference that `sys_open` obtained is in one file, or was dropped by one `iput`. -/
theorem open_file_references {calls : List (Call I PG)}
    (h : Runs.exec step init calls = some s) :
    (∀ f, (s.file f).ref = s.slots f) ∧
    (∀ a ∈ s.hist.fileallocs, a.slots = 0) ∧
    (∀ (c : Call I PG) e, s.live c.caller = true → Answers s c → c.body.run s = .error e →
      e = .initExiting) ∧
    (∀ pa pi, s.pipe pa = some pi → (pi.readopen = true ↔ ∃ f, s.refersTo f pa false) ∧
      (pi.writeopen = true ↔ ∃ f, s.refersTo f pa true)) ∧
    (∀ pa, (s.pipe pa).isSome ↔ ∃ f w, s.refersTo f pa w) ∧
    (∀ k ∈ s.hist.kfrees, k.files = 0) ∧
    (∀ n < s.hist.pipes,
      (∃! pa, (s.pipe pa).map Pipe.id = some n) ∧ (s.hist.kfrees.map Kfree.id).count n = 0 ∨
      (∀ pa, (s.pipe pa).map Pipe.id ≠ some n) ∧ (s.hist.kfrees.map Kfree.id).count n = 1) ∧
    ∀ n ip, s.hist.obtained[n]? = some ip →
      (∃ f, s.holdsRef f n ∧ (s.file f).ip = some ip ∧ ∀ g, s.holdsRef g n → g = f) ∧
        s.hist.iputs.filter (·.1 = n) = [] ∨
      (∀ f, ¬ s.holdsRef f n) ∧ s.hist.iputs.filter (·.1 = n) = [(n, some ip)] := by
  have hinv := inv_of_exec h
  refine ⟨fun f => ?_, hinv.counts.allocs, fun c e hlive hc hrun => ?_, fun pa pi hpa => ?_,
    fun pa => ?_, hinv.pipes.kfrees, fun n hn => hinv.pipes.ledger.placed_or_retired hn,
    fun n ip hn => hinv.held_or_dropped hn⟩
  · have := hinv.counts.ref f
    rw [Pi.zero_apply] at this
    omega
  · have := body_spec hinv hlive hc
    unfold wp at this
    rwa [hrun] at this
  · simp only [hinv.refersTo_iff]
    exact ⟨hinv.pipes.opened pa pi false hpa, hinv.pipes.opened pa pi true hpa⟩
  · simp only [hinv.refersTo_iff]
    constructor
    · intro hpa
      obtain ⟨pi, hpa⟩ := Option.isSome_iff_exists.mp hpa
      obtain ⟨w, hw⟩ := hinv.pipes.alive pa pi hpa
      obtain ⟨f, hf⟩ := (hinv.pipes.opened pa pi w hpa).mp hw
      exact ⟨f, w, hf⟩
    · rintro ⟨f, w, hf⟩
      exact hinv.pipes.page f pa w hf

/-- The parent makes a pipe and forks, both open a file, the child exits, and the
parent closes the pipe. -/
def pipeRun : List (Call ℕ ℕ) :=
  [.pipe 0 (some 7) true, .fork 0 (some 1) true, .open 0 (some ⟨3, .file, 0⟩) 0,
    .open 1 (some ⟨4, .file, 0⟩) 0, .dup 0 2, .exit 1, .close 0 0, .close 0 1]

theorem open_file_references_pipeRun : ∃ s, Runs.exec step (init : State ℕ ℕ) pipeRun = some s ∧
    s.slots 2 = 2 ∧ s.hist.kfrees.map Kfree.id = [0] ∧ s.hist.iputs = [(1, some 4)] := by
  have hrun : (Runs.exec step (init : State ℕ ℕ) pipeRun).map (fun s => ((s.file 2).ref,
      s.hist.kfrees.map Kfree.id, s.hist.iputs)) = some (2, [0], [(1, some 4)]) := by
    decide +kernel
  obtain ⟨s, hs, heq⟩ := Option.map_eq_some_iff.mp hrun
  simp only [Prod.mk.injEq] at heq
  exact ⟨s, hs, ((open_file_references hs).1 2).symm.trans heq.1, heq.2⟩

end Xv6.FileTable
