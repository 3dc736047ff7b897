import Xv6.FileRefs

/-!
# The functions of the file table

Specifications of `filealloc`, `filedup`, `fileclose` and `pipealloc`: each keeps the
file table and the number of references that the running call holds, and none panics
when it is called on an entry in use.
-/
namespace Xv6.FileTable

open Function References Prog

variable {I PG : Type} {s s' s'' : State I PG} {x : Fp → ℤ} {f : Fp} {p : Pid}
  {fd : Fin NOFILE}

/-- A function that works on the entry `f` leaves descriptors, processes and other
entries as they are, and takes no page. -/
structure Frame (f : Fp) (s s' : State I PG) : Prop where
  ofile : s'.ofile = s.ofile
  live : s'.live = s.live
  file : ∀ g, g ≠ f → s'.file g = s.file g
  page : ∀ pa, s.pipe pa = none → s'.pipe pa = none

lemma Frame.of_update {v : File I PG} {hist : History I} :
    Frame f s { s with file := update s.file f v, hist := hist } :=
  ⟨rfl, rfl, fun _ hg => update_of_ne hg .., fun _ h => h⟩

lemma Inv.ref_pos (h : Inv s x) (hx : 0 ≤ x f) {i : Pid × Fin NOFILE} (hi : s.ofile i = some f) :
    0 < (s.file f).ref := by
  have hslots : 0 < s.slots f := pointers_pos_iff.mpr ⟨i, hi⟩
  have := h.counts.ref f
  omega

lemma Inv.logFilealloc (h : Inv s x) {a : Filealloc} (ha : a.slots = 0) :
    Inv { s with hist := { s.hist with fileallocs := s.hist.fileallocs ++ [a] } } x where
  counts :=
    { ref := h.counts.ref
      dead := h.counts.dead
      allocs := by
        have hallocs := h.counts.allocs
        grind }
  idle := h.idle
  pipes := h.pipes.congr (fun _ => rfl) h.pipes.pointer rfl rfl rfl
  opens := h.opens.congr (fun _ => rfl) (fun _ _ _ => rfl) rfl rfl

/-- A free entry has no descriptor, and now one reference. -/
theorem filealloc_spec (h : Inv s x) (hx : ∀ f, 0 ≤ x f) :
    wp filealloc s (fun r s' => (r = none → s' = s) ∧
      ∀ f, r = some f → Inv s' (x + Pi.single f 1) ∧ Frame f s s' ∧ (s.file f).ref = 0 ∧
        (s'.file f).ref = 1 ∧ (s'.file f).type = .none) fun _ => False := by
  unfold filealloc
  rw [wp_bind, wp_get]
  cases hfind : (List.finRange NFILE).find? fun f => (s.file f).ref = 0 with
  | none => exact ⟨fun _ => rfl, fun f hf => (by cases hf)⟩
  | some f =>
    have href : (s.file f).ref = 0 := by simpa using List.find?_some hfind
    refine ⟨fun hr => (by cases hr), ?_⟩
    rintro _ ⟨⟩
    have hslots : s.slots f = 0 := by
      have := h.counts.ref f
      have := hx f
      omega
    have hset := h.setRef (f := f) (n := 1) fun h1 => absurd h1 one_ne_zero
    rw [href, Nat.cast_zero, sub_zero, Nat.cast_one] at hset
    have hlog := hset.logFilealloc (a := ⟨f, s.slots f⟩) (by dsimp only; exact hslots)
    refine ⟨hlog, .of_update, href, ?_, ?_⟩
    · show (update s.file f _ f).ref = 1
      rw [update_self]
    · show (update s.file f _ f).type = .none
      rw [update_self]
      exact h.idle f href

theorem filedup_spec (h : Inv s x) (hf : 0 < (s.file f).ref) :
    wp (filedup f) s (fun _ s' => Inv s' (x + Pi.single f 1) ∧ Frame f s s') fun _ => False := by
  unfold filedup
  have hset := h.setRef (f := f) (n := (s.file f).ref + 1) fun h0 => absurd h0 (by omega)
  rw [Nat.cast_add, Nat.cast_one, add_sub_cancel_left] at hset
  have hlt : ¬ (s.file f).ref < 1 := by omega
  simp only [wp_bind, wp_get, wp_ite, if_neg hlt]
  exact ⟨hset, .of_update⟩

/-- The last reference to an entry is given up and the entry is marked free. -/
theorem Inv.last (h : Inv s x) (hf : (s.file f).ref = 1)
    (hfile : s'.file = update s.file f { s.file f with ref := 0, type := .none })
    (hframe : Frame f s s') (hallocs : s'.hist.fileallocs = s.hist.fileallocs)
    (hpipes : Pipes s') (hopens : Opens s') : Inv s' (x - Pi.single f 1) where
  counts := by
    refine h.counts.congr hframe.ofile hframe.live hallocs fun g => ?_
    simp only [hfile, update_apply, Pi.sub_apply, Pi.single_apply]
    grind
  idle := by
    have hidle := h.idle
    simp only [hfile, update_apply]
    grind
  pipes := hpipes
  opens := hopens

lemma Pipes.markFree (h : Pipes s) (hf : (s.file f).type ≠ .pipe)
    (hfile : s'.file = update s.file f { s.file f with ref := 0, type := .none })
    (hpipe : s'.pipe = s.pipe) (hmade : s'.hist.pipes = s.hist.pipes)
    (hfrees : s'.hist.kfrees = s.hist.kfrees) : Pipes s' := by
  have hend := endOf_of_type hf
  have hfree : File.endOf { s.file f with ref := 0, type := .none } = none := rfl
  have hpointer := h.pointer
  refine h.congr (fun g => ?_) (fun g => ?_) hpipe hmade hfrees
  all_goals simp only [hfile, update_apply]
  all_goals grind

lemma Opens.markFree (h : Opens s) (hf : (s.file f).type = .none ∨ (s.file f).type = .pipe)
    (hfile : s'.file = update s.file f { s.file f with ref := 0, type := .none })
    (hobtained : s'.hist.obtained = s.hist.obtained) (hiputs : s'.hist.iputs = s.hist.iputs) :
    Opens s' := by
  have href := inodeRef_of_type hf
  have hfree : File.inodeRef { s.file f with ref := 0, type := .none } = none := rfl
  refine h.congr (fun g => ?_) (fun g => ?_) hobtained hiputs
  all_goals simp only [hfile, update_apply]
  all_goals grind

variable [DecidableEq PG]

lemma files_eq_zero {pa : PG} (h : ∀ g w, (s.file g).endOf ≠ some (pa, w)) : s.files pa = 0 := by
  have hnone (g : Fp) (w : Bool) : ¬ s.refersTo g pa w := by
    rintro ⟨-, ht, hp, hw⟩
    refine h g w ?_
    rw [File.endOf, if_pos ht, hp, hw]
    rfl
  rw [State.files, List.countP_eq_zero]
  intro g _
  simp [hnone]

lemma opened_eq_false_iff (pi : Pipe) :
    pi.readopen = false ∧ pi.writeopen = false ↔ ∀ w, pi.opened w = false := by
  rw [Bool.forall_bool]
  rfl

/-- What `fileclose` does with the last reference to an entry of type `FD_PIPE`. -/
theorem pipeclose_spec (h : Inv s x) {pa : PG} {w : Bool}
    (he : (s.file f).endOf = some (pa, w)) :
    wp (pipeclose (some pa) w)
      { s with file := update s.file f { s.file f with ref := 0, type := .none } }
      (fun _ s' => Pipes s' ∧ Frame f s s' ∧
        s'.file = update s.file f { s.file f with ref := 0, type := .none } ∧
        s'.hist.fileallocs = s.hist.fileallocs ∧ s'.hist.obtained = s.hist.obtained ∧
        s'.hist.iputs = s.hist.iputs) fun _ => False := by
  obtain ⟨pi, hpa⟩ := Option.isSome_iff_exists.mp (h.pipes.page f pa w he)
  have hflags := opened_close pi w
  have hid : (if w then { pi with writeopen := false } else { pi with readopen := false } :
      Pipe).id = pi.id := by cases w <;> rfl
  unfold pipeclose
  simp only [wp_bind, wp_get, hpa, wp_modify, wp_ite]
  generalize (if w then { pi with writeopen := false } else { pi with readopen := false } :
    Pipe) = pi' at hflags hid ⊢
  have hpage (o : Option Pipe) (pa' : PG) (hpa' : s.pipe pa' = none) :
      update s.pipe pa o pa' = none := by
    rw [update_of_ne, hpa']
    rintro rfl
    have hclash := hpa.symm.trans hpa'
    cases hclash
  have hother (w' : Bool) (hw : w' ≠ w) : pi'.opened w' = pi.opened w' := by
    simp [hflags, hw]
  split_ifs with hboth <;> rw [opened_eq_false_iff] at hboth
  · -- the other end is closed too, so nothing points to the page that is freed
    have hlast (w' : Bool) (hw : w' ≠ w) : pi.opened w' = false := hother w' hw ▸ hboth w'
    refine ⟨?_, ⟨rfl, rfl, fun g hg => update_of_ne hg .., ?_⟩, rfl, rfl, rfl, rfl⟩
    · refine h.pipes.close (o := none) he hpa rfl (fun _ ho => (by cases ho)) (fun _ ho => (by cases ho))
        (fun _ => hlast) rfl (update_idem ..) ?_ ?_
      · have hplace : (fun pa' => (update (update s.pipe pa (some pi')) pa none pa').map Pipe.id) =
            update (fun pa' => (s.pipe pa').map Pipe.id) pa none := by
          rw [update_idem]
          exact comp_update (Option.map Pipe.id) s.pipe pa none
        rw [List.map_append]
        refine (congrArg₂ (Ledger _) hplace ?_).mpr (h.pipes.ledger.retire (i := pa) (n := pi.id) ?_)
        · exact congrArg (fun n => List.map Kfree.id s.hist.kfrees ++ [n]) hid
        · rw [hpa]
          rfl
      · intro k hk
        obtain hk | hk := List.mem_append.mp hk
        · exact h.pipes.kfrees k hk
        · rw [List.mem_singleton.mp hk]
          refine files_eq_zero fun g w' hg => ?_
          obtain ⟨hg, hw⟩ := (h.pipes.endOf_close he rfl g _).mp hg
          have hopen := (h.pipes.opened pa pi w' hpa).mpr ⟨g, hg⟩
          rw [hlast w' fun hw' => hw (by rw [hw'])] at hopen
          cases hopen
    · intro pa' hpa'
      exact (congrFun (update_idem ..) pa').trans (hpage none pa' hpa')
  · have hopen : ∃ w', pi'.opened w' = true := by
      simpa only [not_forall, Bool.not_eq_false] using hboth
    refine ⟨?_, ⟨rfl, rfl, fun g hg => update_of_ne hg .., hpage _⟩, rfl, rfl, rfl, rfl⟩
    refine h.pipes.close (o := some pi') he hpa rfl ?_ ?_ (fun ho => (by cases ho)) rfl rfl ?_
      h.pipes.kfrees
    · rintro _ ⟨⟩
      exact hflags
    · rintro _ ⟨⟩
      exact hopen
    · have hplace : (fun pa' => (update s.pipe pa (some pi') pa').map Pipe.id) =
          fun pa' => (s.pipe pa').map Pipe.id := by
        refine (comp_update (Option.map Pipe.id) s.pipe pa (some pi')).trans ?_
        refine update_eq_self_iff.mpr ?_
        rw [comp_apply, hpa]
        exact congrArg some hid
      exact hplace ▸ h.pipes.ledger

theorem fileclose_spec (h : Inv s x) (hf : 0 < (s.file f).ref) :
    wp (fileclose f) s (fun _ s' => Inv s' (x - Pi.single f 1) ∧ Frame f s s')
      fun _ => False := by
  have hlt : ¬ (s.file f).ref < 1 := by omega
  unfold fileclose
  simp only [wp_bind, wp_get, wp_ite, if_neg hlt]
  split_ifs with hmany
  · have hset := h.setRef (f := f) (n := (s.file f).ref - 1) fun h0 => absurd h0 (by omega)
    rw [Nat.cast_sub (by omega), Nat.cast_one, sub_sub_cancel_left, Pi.single_neg,
      ← sub_eq_add_neg] at hset
    exact ⟨hset, .of_update⟩
  · have hone : (s.file f).ref = 1 := by omega
    have hiput {n : ℕ} (ht : (s.file f).type ≠ .pipe) (hn : (s.file f).inodeRef = some n) :
        wp (recordIput n (s.file f).ip)
          { s with file := update s.file f { s.file f with ref := 0, type := .none } }
          (fun _ s' => Inv s' (x - Pi.single f 1) ∧ Frame f s s') fun _ => False :=
      ⟨h.last hone rfl .of_update rfl (h.pipes.markFree ht rfl rfl rfl rfl)
        (h.opens.drop hn rfl rfl rfl rfl), .of_update⟩
    simp only [modifyFile, wp_modify]
    cases ht : (s.file f).type with
    | none =>
      exact ⟨h.last hone rfl .of_update rfl (h.pipes.markFree (by rw [ht]; decide) rfl rfl rfl rfl)
        (h.opens.markFree (.inl ht) rfl rfl rfl), .of_update⟩
    | pipe =>
      obtain ⟨pa, hpa⟩ := Option.isSome_iff_exists.mp (h.pipes.pointer f ht)
      have he : (s.file f).endOf = some (pa, (s.file f).writable) := by
        rw [File.endOf, if_pos ht, hpa]
        rfl
      have hclose : pipeclose (s.file f).pipe (s.file f).writable =
          (pipeclose (some pa) (s.file f).writable : FM I PG Unit) := by rw [hpa]
      show wp (pipeclose (s.file f).pipe (s.file f).writable) _ _ _
      rw [hclose]
      refine wp_call (pipeclose_spec h he) ?_
      rintro _ s' ⟨hpipes, hframe, hfile, hallocs, hobtained, hiputs⟩
      exact ⟨h.last hone hfile hframe hallocs hpipes
        (h.opens.markFree (.inr ht) hfile hobtained hiputs), hframe⟩
    | inode => exact hiput (by rw [ht]; decide) (if_pos (.inl ht))
    | device => exact hiput (by rw [ht]; decide) (if_pos (.inr ht))

end Xv6.FileTable
