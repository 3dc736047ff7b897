import Xv6.GroupCommit

/-!
# The reservation made by begin_op

`begin_op` admits an operation when the log could take `MAXOPBLOCKS` blocks for
it and for every operation already running. The invariant behind it bounds the
logged blocks together with what the running operations have not used of their
reservations. It keeps the header within `LOGBLOCKS`, but a full header is
reached, and there `log_write` panics even on a write that it would absorb.
-/
namespace Xv6.GroupCommit

variable {P : Type*}

section Conditions

variable [DecidableEq P]

/-- The operation that log_writes stays within `MAXOPBLOCKS` distinct blocks. -/
def WithinReservation (s : State P) (l : P × Act) : Prop :=
  match l.2 with
  | .logWrite b => ∀ o ∈ s.hist.running, o.proc = l.1 → (b :: o.blocks).dedup.length ≤ MAXOPBLOCKS
  | _ => True

/-- A block already in the header is log_written again only while the header
has room. -/
def AbsorbsBelowFull (s : State P) (l : P × Act) : Prop :=
  match l.2 with
  | .logWrite b => b ∈ s.lh → s.lh.length < LOGBLOCKS
  | _ => True

instance (s : State P) (l : P × Act) : Decidable (WithinReservation s l) := by
  unfold WithinReservation
  split <;> infer_instance

end Conditions

/-- The blocks an operation may still add to the log. -/
def Op.unused (o : Op P) : ℕ := MAXOPBLOCKS - o.blocks.dedup.length

/-- Logged blocks plus unused reservations fit the log. -/
structure Reserved (s : State P) : Prop where
  inv : Inv s
  calm : s.panicked = none
  used : ∀ o ∈ s.hist.running, o.blocks.dedup.length ≤ MAXOPBLOCKS
  room : s.lh.length + (s.hist.running.map Op.unused).sum ≤ LOGBLOCKS

theorem reserved_init : Reserved (init : State P) where
  inv := inv_init
  calm := rfl
  used := by simp [init]
  room := by simp [init]

lemma unused_le (l : List (Op P)) : (l.map Op.unused).sum ≤ l.length * MAXOPBLOCKS := by
  have h := List.sum_le_card_nsmul (l.map Op.unused) MAXOPBLOCKS (by
    intro x hx
    obtain ⟨o, _, rfl⟩ := List.mem_map.mp hx
    exact Nat.sub_le _ _)
  simpa using h

lemma dedup_length_le_cons (b : ℕ) (l : List ℕ) :
    l.dedup.length ≤ (b :: l).dedup.length := by
  by_cases hb : b ∈ l
  · rw [List.dedup_cons_of_mem hb]
  · rw [List.dedup_cons_of_notMem hb, List.length_cons]
    omega

variable [DecidableEq P] {s : State P}

/-- Admission leaves room for the new reservation. -/
lemma Reserved.beginOp (h : Reserved s) {p : P} (hpc : s.pc p = .idle ∨ s.pc p = .retry) :
    Reserved (beginOp s p) := by
  have hinv := h.inv.beginOp hpc
  unfold GroupCommit.beginOp at hinv ⊢
  split_ifs at hinv ⊢ with hc hfull
  · exact ⟨hinv, h.calm, h.used, h.room⟩
  · exact ⟨hinv, h.calm, h.used, h.room⟩
  · refine ⟨hinv, h.calm, ?_, ?_⟩
    · intro o ho
      rcases List.mem_cons.mp ho with rfl | ho
      · simp
      · exact h.used o ho
    · have hsum := unused_le s.hist.running
      have hout := h.inv.outstanding
      simp only [State.setPc, History.begin, List.map_cons, List.sum_cons, Op.unused,
        List.dedup_nil, List.length_nil]
      push_cast at hfull
      rw [hout] at hfull
      unfold LOGBLOCKS MAXOPBLOCKS at *
      change s.lh.length + (10 + (s.hist.running.map Op.unused).sum) ≤ _
      omega

/-- Recording a write never enlarges the unused reservations. -/
lemma sum_unused_write_le (h : History P) (p : P) (b : ℕ) :
    ((h.write p b).running.map Op.unused).sum ≤ (h.running.map Op.unused).sum := by
  simp only [History.write, List.map_map]
  apply List.sum_le_sum
  intro o _
  dsimp only [Function.comp_apply]
  split_ifs
  · have := dedup_length_le_cons b o.blocks
    dsimp only [Op.unused]
    omega
  · exact le_rfl

variable {b : ℕ}

/-- A block new to the operation uses up one block of its reservation. -/
lemma sum_unused_write_lt {l : List (Op P)} {p : P} (hp : p ∈ l.map Op.proc)
    (hb : ∀ o ∈ l, b ∉ o.blocks)
    (hres : ∀ o ∈ l, o.proc = p → (b :: o.blocks).dedup.length ≤ MAXOPBLOCKS) :
    (l.map fun o => (if o.proc = p then { o with blocks := b :: o.blocks } else o).unused).sum + 1 ≤
      (l.map Op.unused).sum := by
  obtain ⟨o, ho, hop⟩ := List.mem_map.mp hp
  have hstep : ∀ o ∈ l, o.proc = p →
      ({ o with blocks := b :: o.blocks } : Op P).unused + 1 = o.unused := by
    intro o ho hop
    have hlen := hres o ho hop
    rw [List.dedup_cons_of_notMem (hb o ho), List.length_cons] at hlen
    simp only [Op.unused, List.dedup_cons_of_notMem (hb o ho), List.length_cons]
    omega
  apply Nat.succ_le_of_lt
  apply List.sum_lt_sum
  · intro o ho
    split_ifs with hop
    · have := hstep o ho hop
      omega
    · exact le_rfl
  · refine ⟨o, ho, ?_⟩
    rw [if_pos hop]
    have := hstep o ho hop
    omega

lemma absorb_of_mem {lh : List ℕ} (h : b ∈ lh) : absorb lh b = lh := if_pos h

lemma length_absorb_of_notMem {lh : List ℕ} (h : b ∉ lh) :
    (absorb lh b).length = lh.length + 1 := by
  rw [absorb, if_neg h, List.length_append, List.length_singleton]

omit [DecidableEq P] in
lemma Inv.mem_lh (h : Inv s) {o : Op P} (ho : o ∈ s.hist.running) (hb : b ∈ o.blocks) : b ∈ s.lh :=
  (h.lh_mem b).mpr ⟨o, List.mem_append_left _ ho, hb⟩

lemma Reserved.lt_of_notMem (h : Reserved s) {p : P} (hpc : s.pc p = .running) (hb : b ∉ s.lh)
    (hres : WithinReservation s (p, .logWrite b)) : s.lh.length < LOGBLOCKS := by
  have hlt := sum_unused_write_lt ((h.inv.running_pc p).mp hpc)
    (fun o ho hbo => hb (h.inv.mem_lh ho hbo)) hres
  have hroom := h.room
  omega

lemma Reserved.logWrite (h : Reserved s) {p : P} (hpc : s.pc p = .running)
    (hres : WithinReservation s (p, .logWrite b)) (habs : AbsorbsBelowFull s (p, .logWrite b)) :
    Reserved (logWrite s p b) := by
  have hinv := h.inv.logWrite hpc b
  have hroom := h.room
  have hp := (h.inv.running_pc p).mp hpc
  have hlt : s.lh.length < LOGBLOCKS := by
    by_cases hb : b ∈ s.lh
    · exact habs hb
    · exact h.lt_of_notMem hpc hb hres
  have hpos : ¬ s.outstanding < 1 := by
    have hlen := List.length_pos_of_mem hp
    have ho := h.inv.outstanding
    simp only [List.length_map] at hlen
    omega
  unfold GroupCommit.logWrite at hinv ⊢
  rw [if_neg (by omega), if_neg hpos] at hinv ⊢
  refine ⟨hinv, h.calm, ?_, ?_⟩
  · intro o ho
    obtain ⟨o', ho', rfl⟩ := List.mem_map.mp ho
    split_ifs with hop
    · exact hres o' ho' hop
    · exact h.used o' ho'
  · by_cases hb : b ∈ s.lh
    · have hsum := sum_unused_write_le s.hist p b
      dsimp only
      rw [absorb_of_mem hb]
      omega
    · have hsum := sum_unused_write_lt hp (fun o ho hbo => hb (h.inv.mem_lh ho hbo)) hres
      dsimp only
      rw [length_absorb_of_notMem hb]
      simp only [History.write, List.map_map, Function.comp_def]
      omega

lemma Reserved.endOp (h : Reserved s) {p : P} (hpc : s.pc p = .running) : Reserved (endOp s p) := by
  have hinv := h.inv.endOp hpc
  have hfields : (GroupCommit.endOp s p).lh = s.lh ∧
      (GroupCommit.endOp s p).hist = s.hist.finish p := by
    unfold GroupCommit.endOp
    dsimp only
    split_ifs <;> exact ⟨rfl, rfl⟩
  have hcf : s.committing = false := by
    by_contra hc
    have hnil := h.inv.committing (by simpa using hc)
    simpa [hnil] using (h.inv.running_pc p).mp hpc
  have hsub : List.Sublist (s.hist.finish p).running s.hist.running := List.filter_sublist
  refine ⟨hinv, ?_, ?_, ?_⟩
  · unfold GroupCommit.endOp
    dsimp only
    rw [if_neg (by simp [hcf])]
    split_ifs <;> exact h.calm
  · intro o ho
    rw [hfields.2] at ho
    exact h.used o (hsub.subset ho)
  · rw [hfields.1, hfields.2]
    have hle := (hsub.map Op.unused).sum_le_sum (fun _ _ => Nat.zero_le _)
    have hroom := h.room
    omega

/-- Every step that stays within the reservations and absorbs only below a full
header keeps the header within the log. -/
theorem reserved_step (s : State P) (l : P × Act) (s' : State P) (h : Reserved s)
    (hC : WithinReservation s l ∧ AbsorbsBelowFull s l) (hs : step s l = some s') :
    Reserved s' := by
  obtain ⟨p, a⟩ := l
  obtain ⟨_, hcase⟩ := step_cases hs
  rcases hcase with ⟨_, hpc, rfl⟩ | ⟨b, rfl, hpc, rfl⟩ | ⟨_, hpc, rfl⟩ | ⟨_, hpc, rfl⟩ | ⟨_, hpc, rfl⟩
  · exact h.beginOp hpc
  · exact h.logWrite hpc hC.1 hC.2
  · exact h.endOp hpc
  · have hroom := h.room
    refine ⟨h.inv.commit hpc, h.calm, h.used, ?_⟩
    simp only [GroupCommit.commit, History.commit, List.length_nil]
    omega
  · exact ⟨h.inv.endCommit hpc, h.calm, h.used, h.room⟩

/-- A step after which the log was not too big has absorbed only below a full
header. -/
lemma absorbsBelowFull_of_step (s : State P) (l : P × Act) (s' : State P)
    (hs : step s l = some s') (hG : s'.panicked ≠ some .tooBigATransaction) :
    AbsorbsBelowFull s l ∧ s.panicked ≠ some .tooBigATransaction := by
  obtain ⟨p, a⟩ := l
  obtain ⟨hnp, hcase⟩ := step_cases hs
  refine ⟨?_, by simp [hnp]⟩
  cases a with
  | logWrite b =>
    intro _
    by_contra hfull
    have hs' : s' = GroupCommit.logWrite s p b := by simpa using (by simpa using hcase : _ ∧ _).2
    apply hG
    rw [hs', GroupCommit.logWrite, if_pos (by omega)]
  | _ => trivial

/-- Operations that log_write at most `MAXOPBLOCKS` distinct blocks each never
make the transaction too big, exactly when no write is absorbed by a full
header. -/
theorem too_big_unreachable_iff {tr : List (P × Act)} {s : State P}
    (hrun : Runs.exec step init tr = some s)
    (hres : Runs.Admitted step WithinReservation init tr) :
    s.panicked ≠ some .tooBigATransaction ↔ Runs.Admitted step AbsorbsBelowFull init tr := by
  constructor
  · intro hG
    exact (Runs.admitted_of_final absorbsBelowFull_of_step hrun hG).1
  · intro habs
    have h := Runs.invariant_of_admitted reserved_step reserved_init (hres.and habs) hrun
    simp [h.calm]

/-- Three operations that fill the log with ten blocks each. -/
def fillLog : List (Fin 3 × Act) :=
  [(0, .beginOp), (1, .beginOp), (2, .beginOp)] ++
    (List.range 30).map fun b => (⟨b % 3, by omega⟩, .logWrite b)

/-- The first of them then writes one of its own blocks again. -/
theorem rewrite_of_full_log_panics :
    Runs.Admitted step WithinReservation init (fillLog ++ [(0, .logWrite 0)]) ∧
      (Runs.exec step init (fillLog ++ [(0, .logWrite 0)])).map State.panicked =
        some (some .tooBigATransaction) := by
  decide +kernel

theorem fillLog_is_not_too_big :
    Runs.Admitted step WithinReservation init fillLog ∧
      ∃ s, Runs.exec step init fillLog = some s ∧ s.lh.length = LOGBLOCKS ∧
        Runs.Admitted step AbsorbsBelowFull init fillLog := by
  have hres : Runs.Admitted step WithinReservation init fillLog := by decide +kernel
  have hend : (Runs.exec step init fillLog).map (fun s => (s.lh.length, s.panicked)) =
      some (LOGBLOCKS, none) := by decide +kernel
  obtain ⟨s, hrun, hs⟩ := Option.map_eq_some_iff.mp hend
  obtain ⟨hlen, hcalm⟩ := Prod.mk.inj hs
  exact ⟨hres, s, hrun, hlen, (too_big_unreachable_iff hrun hres).mp (by simp [hcalm])⟩

end Xv6.GroupCommit
