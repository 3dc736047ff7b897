import Xv6.FileTable

/-!
# What the file table keeps

An entry's count is the number of descriptors that point to it, up to the references
that the running call holds or owes. An open end of a pipe is one entry in use, a pipe
without open ends has no page, and an inode reference is in one entry until it is
dropped. Each is proved of the changes that the functions of `FileTable` make.
-/
namespace Xv6.FileTable

open Function References

variable {I PG : Type}

def File.endOf (v : File I PG) : Option (PG × Bool) :=
  if v.type = .pipe then v.pipe.map fun pa => (pa, v.writable) else none

def File.inodeRef (v : File I PG) : Option ℕ :=
  if v.type = .inode ∨ v.type = .device then some v.opened else none

def Pipe.opened (pi : Pipe) (writable : Bool) : Bool := if writable then pi.writeopen else pi.readopen

/-- The counts, with `x f` references to `f` in the running call. -/
structure Counts (s : State I PG) (x : Fp → ℤ) : Prop where
  ref : ∀ f, ((s.file f).ref : ℤ) = s.slots f + x f
  dead : ∀ p fd, s.live p = false → s.ofile (p, fd) = none
  allocs : ∀ a ∈ s.hist.fileallocs, a.slots = 0

structure Pipes (s : State I PG) : Prop where
  pointer : ∀ f, (s.file f).type = .pipe → (s.file f).pipe.isSome
  page : ∀ f pa w, (s.file f).endOf = some (pa, w) → (s.pipe pa).isSome
  opened : ∀ pa pi w, s.pipe pa = some pi →
    (pi.opened w = true ↔ ∃ f, (s.file f).endOf = some (pa, w))
  inj : ∀ f g e, (s.file f).endOf = some e → (s.file g).endOf = some e → f = g
  alive : ∀ pa pi, s.pipe pa = some pi → ∃ w, pi.opened w = true
  ledger : Ledger s.hist.pipes (fun pa => (s.pipe pa).map Pipe.id) (s.hist.kfrees.map Kfree.id)
  kfrees : ∀ k ∈ s.hist.kfrees, k.files = 0

structure Opens (s : State I PG) : Prop where
  ledger : Ledger s.hist.obtained.length (fun f => (s.file f).inodeRef)
    (s.hist.iputs.map Prod.fst)
  held : ∀ f n, (s.file f).inodeRef = some n → s.hist.obtained[n]? = (s.file f).ip
  dropped : ∀ d ∈ s.hist.iputs, s.hist.obtained[d.1]? = d.2

structure Inv (s : State I PG) (x : Fp → ℤ) : Prop where
  counts : Counts s x
  idle : ∀ f, (s.file f).ref = 0 → (s.file f).type = .none
  pipes : Pipes s
  opens : Opens s

variable {s s' : State I PG} {x : Fp → ℤ} {f g : Fp} {v : File I PG} {p : Pid} {fd : Fin NOFILE}

lemma endOf_of_type (h : v.type ≠ .pipe) : v.endOf = none := if_neg h

lemma inodeRef_of_type (h : v.type = .none ∨ v.type = .pipe) : v.inodeRef = none := by
  refine if_neg fun hv => ?_
  obtain h | h := h <;> rw [h] at hv <;> exact absurd hv (by decide)

lemma type_of_endOf {e : PG × Bool} (h : v.endOf = some e) :
    v.type = .pipe ∧ v.pipe = some e.1 ∧ v.writable = e.2 := by
  unfold File.endOf at h
  split_ifs at h with ht
  obtain ⟨pa, hpa, rfl⟩ := Option.map_eq_some_iff.mp h
  exact ⟨ht, hpa, rfl⟩

variable {pa : PG}

/-- An entry in use is an end of a pipe exactly when its type, pointer and mode say so. -/
theorem Inv.refersTo_iff (h : Inv s x) {w : Bool} :
    s.refersTo f pa w ↔ (s.file f).endOf = some (pa, w) := by
  have hidle := h.idle f
  constructor
  · rintro ⟨-, ht, hp, hw⟩
    simp [File.endOf, ht, hp, hw]
  · intro he
    have hend := type_of_endOf he
    simp only [State.refersTo]
    grind

theorem Inv.holdsRef_iff (h : Inv s x) {n : ℕ} :
    s.holdsRef f n ↔ (s.file f).inodeRef = some n := by
  have hidle := h.idle f
  simp only [State.holdsRef, File.inodeRef]
  grind

theorem Counts.congr (h : Counts s x) {y : Fp → ℤ} (hofile : s'.ofile = s.ofile)
    (hlive : s'.live = s.live) (hallocs : s'.hist.fileallocs = s.hist.fileallocs)
    (href : ∀ f, ((s'.file f).ref : ℤ) - y f = (s.file f).ref - x f) : Counts s' y := by
  cases h
  constructor
  all_goals simp only [State.slots, hofile, hlive, hallocs] at *
  all_goals grind

theorem Pipes.congr (h : Pipes s) (hend : ∀ f, (s'.file f).endOf = (s.file f).endOf)
    (htype : ∀ f, (s'.file f).type = .pipe → (s'.file f).pipe.isSome)
    (hpipe : s'.pipe = s.pipe) (hmade : s'.hist.pipes = s.hist.pipes)
    (hfrees : s'.hist.kfrees = s.hist.kfrees) : Pipes s' := by
  cases h
  constructor
  all_goals try simp only [hend, hpipe, hmade, hfrees]
  all_goals assumption

theorem Opens.congr (h : Opens s) (href : ∀ f, (s'.file f).inodeRef = (s.file f).inodeRef)
    (hip : ∀ f n, (s'.file f).inodeRef = some n → (s'.file f).ip = (s.file f).ip)
    (hobtained : s'.hist.obtained = s.hist.obtained) (hiputs : s'.hist.iputs = s.hist.iputs) :
    Opens s' := by
  cases h
  constructor
  all_goals simp only [href, hobtained, hiputs] at *
  all_goals grind

/-- An entry is written that stays the end and holds the reference it was and held. -/
theorem Inv.setFile (h : Inv s x) (hend : v.endOf = (s.file f).endOf)
    (hpointer : v.type = .pipe → v.pipe.isSome) (href : v.inodeRef = (s.file f).inodeRef)
    (hip : ∀ n, v.inodeRef = some n → v.ip = (s.file f).ip) (hidle : v.ref = 0 → v.type = .none) :
    Inv { s with file := update s.file f v } (x + Pi.single f (v.ref - (s.file f).ref : ℤ)) := by
  have hidle' := h.idle
  have hpointer' := h.pipes.pointer
  refine ⟨h.counts.congr rfl rfl rfl fun g => ?_, fun g => ?_,
    h.pipes.congr (fun g => ?_) (fun g => ?_) rfl rfl rfl,
    h.opens.congr (fun g => ?_) (fun g => ?_) rfl rfl⟩
  all_goals simp only [update_apply, Pi.add_apply, Pi.single_apply]
  all_goals grind

/-- Only the count of an entry in use changes, and the entry stays in use. -/
theorem Inv.setRef (h : Inv s x) {n : ℕ} (hn : n = 0 → (s.file f).type = .none) :
    Inv { s with file := update s.file f { s.file f with ref := n } }
      (x + Pi.single f (n - (s.file f).ref : ℤ)) :=
  h.setFile rfl (h.pipes.pointer f) rfl (fun _ _ => rfl) hn

def holds : Option Fp → Fp → ℤ
  | none => 0
  | some f => Pi.single f 1

lemma holds_apply (o : Option Fp) (f : Fp) : holds o f = if o = some f then 1 else 0 := by
  cases o with
  | none => simp [holds]
  | some g =>
    rw [holds, Pi.single_apply]
    simp only [Option.some.injEq, eq_comm]

/-- A descriptor is written: the running call gets the reference it held, and gives
the one it holds now. -/
theorem Inv.setSlot (h : Inv s x) {o : Option Fp} (ho : o.isSome → s.live p = true) :
    Inv { s with ofile := update s.ofile (p, fd) o } (x + holds (s.ofile (p, fd)) - holds o) where
  counts :=
    { ref := fun f => by
        have hf := h.counts.ref f
        have hup := pointers_update s.ofile (p, fd) o f
        simp only [State.slots, Pi.sub_apply, Pi.add_apply, holds_apply] at hf ⊢
        split_ifs at hup ⊢ <;> omega
      dead := fun q fd' hq => by
        have hdead := h.counts.dead q fd' hq
        simp only [update_apply]
        cases o <;> grind
      allocs := h.counts.allocs }
  idle := h.idle
  pipes := h.pipes.congr (fun _ => rfl) h.pipes.pointer rfl rfl rfl
  opens := h.opens.congr (fun _ => rfl) (fun _ _ _ => rfl) rfl rfl

/-- A process starts, or ends without descriptors. -/
theorem Inv.setLive (h : Inv s x) {b : Bool} (hb : b = false → ∀ fd, s.ofile (p, fd) = none) :
    Inv { s with live := update s.live p b } x where
  counts :=
    { ref := h.counts.ref
      dead := fun q fd hq => by
        have hdead := h.counts.dead q fd
        simp only [update_apply] at hq
        grind
      allocs := h.counts.allocs }
  idle := h.idle
  pipes := h.pipes.congr (fun _ => rfl) h.pipes.pointer rfl rfl rfl
  opens := h.opens.congr (fun _ => rfl) (fun _ _ _ => rfl) rfl rfl

lemma opened_close (pi : Pipe) (w w' : Bool) :
    (if w then { pi with writeopen := false } else { pi with readopen := false } : Pipe).opened w' =
      (pi.opened w' && w' != w) := by
  cases w <;> cases w' <;> simp [Pipe.opened]

lemma pointer_update {file : Fp → File I PG} (hv : v.type = .pipe → v.pipe.isSome)
    (h : ∀ g, (file g).type = .pipe → (file g).pipe.isSome) (g : Fp) :
    (update file f v g).type = .pipe → (update file f v g).pipe.isSome := by
  have hg := h g
  simp only [update_apply]
  grind

lemma Pipes.endOf_close (h : Pipes s) {w : Bool} (hf : (s.file f).endOf = some (pa, w))
    (hv : v.type = .none) (g : Fp) (e : PG × Bool) :
    (update s.file f v g).endOf = some e ↔ (s.file g).endOf = some e ∧ e ≠ (pa, w) := by
  have hnone : v.endOf = none := endOf_of_type (by rw [hv]; decide)
  have hinj := h.inj g f e
  simp only [update_apply]
  grind

/-- `fileclose` of the last reference to a file with an inode reference drops it. -/
theorem Opens.drop (h : Opens s) {n : ℕ} (hf : (s.file f).inodeRef = some n)
    (hv : v.type = .none) (hfile : s'.file = update s.file f v)
    (hobtained : s'.hist.obtained = s.hist.obtained)
    (hiputs : s'.hist.iputs = s.hist.iputs ++ [(n, (s.file f).ip)]) : Opens s' where
  ledger := by
    have hplace : (fun g => (s'.file g).inodeRef) =
        update (fun g => (s.file g).inodeRef) f none := by
      rw [hfile, ← inodeRef_of_type (.inl hv)]
      exact (comp_update File.inodeRef s.file f v)
    rw [hobtained, hiputs, hplace, List.map_append]
    exact h.ledger.retire hf
  held := by
    rw [hfile, hobtained]
    have hnone := inodeRef_of_type (.inl hv)
    have hheld := h.held
    simp only [update_apply]
    grind
  dropped := by
    rw [hobtained, hiputs]
    have hheld := h.held f n hf
    have hdropped := h.dropped
    grind

lemma Opens.obtained_append (h : Opens s) (ip : I) :
    (∀ f n, (s.file f).inodeRef = some n → (s.hist.obtained ++ [ip])[n]? = (s.file f).ip) ∧
      ∀ d ∈ s.hist.iputs, (s.hist.obtained ++ [ip])[d.1]? = d.2 := by
  constructor
  · intro f n hf
    rw [List.getElem?_append_left (h.ledger.bound f n hf)]
    exact h.held f n hf
  · intro d hd
    have hlt := ((h.ledger.retired d.1).mp (List.mem_map_of_mem hd)).1
    rw [List.getElem?_append_left hlt]
    exact h.dropped d hd

/-- `sys_open` succeeds and stores the reference in an idle entry. -/
theorem Opens.keep (h : Opens s) {ip : I} (hf : (s.file f).type = .none)
    (hv : v.inodeRef = some s.hist.obtained.length) (hip : v.ip = some ip)
    (hfile : s'.file = update s.file f v) (hobtained : s'.hist.obtained = s.hist.obtained ++ [ip])
    (hiputs : s'.hist.iputs = s.hist.iputs) : Opens s' where
  ledger := by
    have hplace : (fun g => (s'.file g).inodeRef) =
        update (fun g => (s.file g).inodeRef) f (some s.hist.obtained.length) := by
      rw [hfile, ← hv]
      exact (comp_update File.inodeRef s.file f v)
    rw [hobtained, hiputs, hplace, List.length_append]
    exact h.ledger.make (inodeRef_of_type (.inl hf))
  held := by
    rw [hfile, hobtained]
    have hheld := (h.obtained_append ip).1
    simp only [update_apply]
    grind
  dropped := by
    rw [hobtained, hiputs]
    exact (h.obtained_append ip).2

/-- `sys_open` makes an idle entry that it holds a file with the reference. -/
theorem Inv.openFile (h : Inv s x) {ip : I} {hist : History I} (hf : (s.file f).type = .none)
    (hv : v.inodeRef = some s.hist.obtained.length) (hip : v.ip = some ip)
    (href : v.ref = (s.file f).ref) (hpos : v.ref ≠ 0)
    (hhist : hist = { s.hist with obtained := s.hist.obtained ++ [ip] }) :
    Inv { s with file := update s.file f v, hist := hist } x := by
  subst hhist
  have htype : v.type ≠ .pipe := by
    intro ht
    rw [inodeRef_of_type (.inr ht)] at hv
    cases hv
  have hidle := h.idle
  have hpointer := h.pipes.pointer
  have hend : v.endOf = none := endOf_of_type htype
  have hend' : (s.file f).endOf = none := endOf_of_type (by rw [hf]; decide)
  refine ⟨h.counts.congr rfl rfl rfl fun g => ?_, fun g => ?_,
    h.pipes.congr (fun g => ?_) (fun g => ?_) rfl rfl rfl, h.opens.keep hf hv hip rfl rfl rfl⟩
  all_goals simp only [update_apply]
  all_goals grind

/-- `sys_open` fails and drops the reference. -/
theorem Opens.pass (h : Opens s) {ip : I} (hfile : s'.file = s.file)
    (hobtained : s'.hist.obtained = s.hist.obtained ++ [ip])
    (hiputs : s'.hist.iputs = s.hist.iputs ++ [(s.hist.obtained.length, some ip)]) : Opens s' where
  ledger := by
    rw [hobtained, hiputs, hfile, List.map_append, List.length_append]
    exact h.ledger.pass
  held := by
    rw [hfile, hobtained]
    exact (h.obtained_append ip).1
  dropped := by
    rw [hobtained, hiputs]
    have hdropped := (h.obtained_append ip).2
    grind

variable [DecidableEq PG]

/-- `fileclose` of the last reference to an end of the pipe at `pa`: `o` is what is left
of the pipe. -/
theorem Pipes.close (h : Pipes s) {w : Bool} {pi : Pipe} {o : Option Pipe}
    (hf : (s.file f).endOf = some (pa, w)) (hpa : s.pipe pa = some pi) (hv : v.type = .none)
    (hflags : ∀ pi', o = some pi' → ∀ w', pi'.opened w' = (pi.opened w' && w' != w))
    (halive : ∀ pi', o = some pi' → ∃ w', pi'.opened w' = true)
    (hlast : o = none → ∀ w', w' ≠ w → pi.opened w' = false)
    (hfile : s'.file = update s.file f v) (hpipe : s'.pipe = update s.pipe pa o)
    (hledger : Ledger s'.hist.pipes (fun pa => (s'.pipe pa).map Pipe.id)
      (s'.hist.kfrees.map Kfree.id))
    (hkfrees : ∀ k ∈ s'.hist.kfrees, k.files = 0) : Pipes s' := by
  have hend := h.endOf_close hf hv
  have hopened := h.opened
  have hpage := h.page
  have hinj := h.inj
  have halive' := h.alive
  refine ⟨hfile ▸ pointer_update (by simp [hv]) h.pointer, ?_, ?_, ?_, ?_, hledger, hkfrees⟩
  case refine_1 =>
    intro g pa' w' hg
    rw [hfile, hend] at hg
    have hw := (hopened pa pi w' hpa).mpr
    have hg' := hpage g pa' w' hg.1
    simp only [hpipe, update_apply]
    cases o <;> grind
  all_goals try simp only [hfile, hend]
  all_goals try simp only [hpipe, update_apply]
  all_goals grind

/-- A new pipe at the page `pa`, with the idle entries `f0` and `f1` as its ends. -/
theorem Pipes.make (h : Pipes s) {f0 f1 : Fp} {v0 v1 : File I PG} (h0 : (s.file f0).type = .none)
    (h1 : (s.file f1).type = .none) (hne : f0 ≠ f1) (hpa : s.pipe pa = none)
    (hv0 : v0.endOf = some (pa, false)) (hv1 : v1.endOf = some (pa, true))
    (hfile : s'.file = update (update s.file f0 v0) f1 v1)
    (hpipe : s'.pipe = update s.pipe pa (some ⟨true, true, s.hist.pipes⟩))
    (hmade : s'.hist.pipes = s.hist.pipes + 1) (hkfrees : s'.hist.kfrees = s.hist.kfrees) :
    Pipes s' := by
  have hend (g : Fp) (e : PG × Bool) : (s'.file g).endOf = some e ↔
      (s.file g).endOf = some e ∨ g = f0 ∧ e = (pa, false) ∨ g = f1 ∧ e = (pa, true) := by
    have hn0 : (s.file f0).endOf = none := endOf_of_type (by rw [h0]; decide)
    have hn1 : (s.file f1).endOf = none := endOf_of_type (by rw [h1]; decide)
    simp only [hfile, update_apply]
    grind
  have hold (g : Fp) (w : Bool) : (s.file g).endOf ≠ some (pa, w) := by
    intro he
    have := h.page g pa w he
    rw [hpa] at this
    cases this
  have hpointer (g : Fp) : (s'.file g).type = .pipe → (s'.file g).pipe.isSome := by
    have hg := h.pointer g
    have hp0 := (type_of_endOf hv0).2.1
    have hp1 := (type_of_endOf hv1).2.1
    simp only [hfile, update_apply]
    grind
  have hplace : (fun pa' => (s'.pipe pa').map Pipe.id) =
      update (fun pa' => (s.pipe pa').map Pipe.id) pa (some s.hist.pipes) := by
    funext pa'
    simp only [hpipe, update_apply]
    grind
  have hopened := h.opened
  have hpage := h.page
  have hinj := h.inj
  have halive := h.alive
  have hnew (w : Bool) : (⟨true, true, s.hist.pipes⟩ : Pipe).opened w = true := by cases w <;> rfl
  refine ⟨hpointer, ?_, ?_, ?_, ?_, ?_, hkfrees ▸ h.kfrees⟩
  case refine_5 =>
    rw [hmade, hkfrees, hplace]
    exact h.ledger.make (by rw [hpa]; rfl)
  case refine_2 =>
    intro pa' pi w
    simp only [hend, hpipe, update_apply]
    cases w <;> grind
  all_goals have hread := hnew true
  all_goals simp only [hend, hpipe, update_apply]
  all_goals grind

/-- `pipealloc` turns two idle entries that it holds into the ends of a new pipe. -/
theorem Inv.makePipe (h : Inv s x) {f0 f1 : Fp} {v0 v1 : File I PG} {hist : History I}
    (h0 : (s.file f0).type = .none) (h1 : (s.file f1).type = .none) (hne : f0 ≠ f1)
    (hpa : s.pipe pa = none) (hv0 : v0.endOf = some (pa, false)) (hv1 : v1.endOf = some (pa, true))
    (hr0 : v0.ref = (s.file f0).ref ∧ v0.ref ≠ 0) (hr1 : v1.ref = (s.file f1).ref ∧ v1.ref ≠ 0)
    (hhist : hist = { s.hist with pipes := s.hist.pipes + 1 }) :
    Inv { s with
      file := update (update s.file f0 v0) f1 v1
      pipe := update s.pipe pa (some ⟨true, true, s.hist.pipes⟩)
      hist := hist } x := by
  subst hhist
  have hidle := h.idle
  have ht0 : v0.inodeRef = none := inodeRef_of_type (.inr (type_of_endOf hv0).1)
  have ht1 : v1.inodeRef = none := inodeRef_of_type (.inr (type_of_endOf hv1).1)
  have hi0 : (s.file f0).inodeRef = none := inodeRef_of_type (.inl h0)
  have hi1 : (s.file f1).inodeRef = none := inodeRef_of_type (.inl h1)
  refine ⟨h.counts.congr rfl rfl rfl fun g => ?_, fun g => ?_,
    h.pipes.make h0 h1 hne hpa hv0 hv1 rfl rfl rfl rfl,
    h.opens.congr (fun g => ?_) (fun g => ?_) rfl rfl⟩
  all_goals simp only [update_apply]
  all_goals grind

end Xv6.FileTable
