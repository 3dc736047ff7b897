import Xv6.VirtioCalls

/-!
# Steps of the driver and the device keep the protocol

One lemma for each step that changes a request, the rings or the flags; the other steps
leave all that alone.
-/
namespace Xv6.Virtio

open Function WrapRing

variable {T B α : Type*} [DecidableEq T] [DecidableEq B]
variable {s s' : State T B α} {t u : T} {k l : Call B} {b : B}

section Formats

omit [DecidableEq B]

lemma Formatted.congr {d d' : Disk B} {sec : BitVec 64} (h : Formatted d sec k)
    (hdesc : ∀ i ∈ k.chain, d'.desc i = d.desc i) (hop : d'.ops k.idx.1 = d.ops k.idx.1)
    (hbuf : (d'.info k.idx.1).b = (d.info k.idx.1).b) : Formatted d' sec k where
  first := by rw [hdesc _ (by simp [Call.chain]), h.first]
  second := by rw [hdesc _ (by simp [Call.chain]), h.second]
  third := by rw [hdesc _ (by simp [Call.chain]), h.third]
  op := by rw [hop, h.op]
  buf := by rw [hbuf, h.buf]

lemma flags_first : VRING_DESC_F_NEXT &&& VRING_DESC_F_NEXT ≠ 0 := by decide

lemma flags_second (write : Bool) :
    ((if write then 0 else VRING_DESC_F_WRITE) ||| VRING_DESC_F_NEXT) &&& VRING_DESC_F_NEXT ≠ 0 := by
  cases write <;> decide

lemma flags_third : VRING_DESC_F_WRITE &&& VRING_DESC_F_NEXT = 0 := by decide

lemma Formatted.linked {d : Disk B} {sec : BitVec 64} (h : Formatted d sec k) :
    Linked d k.idx.1 k.idx.2.1 k.idx.2.2 where
  first := by
    rw [h.first]
    exact ⟨flags_first, rfl⟩
  second := by
    rw [h.second]
    exact ⟨flags_second k.write, rfl⟩
  third := by
    rw [h.third]
    exact flags_third

/-- The device reads the request that the driver formatted. -/
lemma Formatted.fetch {d : Disk B} {sec : BitVec 64} (h : Formatted d sec k) :
    fetch d k.head = some (k.request sec) := by
  simp only [Virtio.fetch, Call.head, Fin.is_lt, dite_true, Fin.eta, h.first, h.second, h.third,
    h.op, Call.request, and_true]
  rw [dif_pos flags_first, dif_pos (flags_second k.write)]

/-- The chain is formatted as the device expects it. -/
lemma formatted_format (d : Disk B) (sec : BitVec 64) (hnodup : k.chain.Nodup) :
    Formatted (d.format k.b k.write sec k.idx) sec k := by
  obtain ⟨phase, b, write, i₀, i₁, i₂⟩ := k
  simp only [Call.chain, List.nodup_cons, List.mem_cons, List.not_mem_nil, or_false, not_or] at hnodup
  obtain ⟨⟨h01, h02⟩, h12, -⟩ := hnodup
  constructor <;> simp [Disk.format, h01, h02, h12]

end Formats

section Same

omit [DecidableEq T] [DecidableEq B]

/-- The rings when no request changes. -/
lemma Protocol.rings_of_same (h : Protocol s) (hcall : s'.call = s.call)
    (hnodup : s'.outstanding.Nodup) (hsub : s'.outstanding ⊆ s.outstanding)
    (hcell : ∀ t k, s.call t = some k → k.phase = .bump →
      s'.disk.availRing (cell NUM s'.disk.availIdx) = s.disk.availRing (cell NUM s.disk.availIdx))
    (hsector : ∀ t k, s.call t = some k → sector s' k.b = sector s k.b)
    (htaken : ∀ r ∈ s'.dev.taken, r ∈ s.dev.taken ∨ ∃ t k, s.call t = some k ∧
      k.phase = .submitted ∧ r = k.request (sector s k.b))
    (hstatus : ∀ i : Fin NUM, i.val ∈ s'.completed → (s'.disk.info i).status = 0)
    (horder : s'.hist.submitted = s'.hist.taken ++ s'.queued) : Rings s' := by
  obtain ⟨-, hrings, hbump, htakens, -, -⟩ := h.rings
  refine ⟨hnodup, fun i hi => hcall ▸ hrings i (hsub hi), ?_, ?_, hstatus, horder⟩
  all_goals
    simp only [hcall]
    grind

/-- The flags when no request changes and the heads on their way stay, in whatever order. -/
lemma Protocol.flags_of_same (h : Protocol s) (hcall : s'.call = s.call)
    (hout : ∀ i, i ∈ s'.outstanding ↔ i ∈ s.outstanding) (hin : s'.inDisk = s.inDisk)
    (hhist : s'.hist.issued = s.hist.issued ∧ s'.hist.cleared = s.hist.cleared)
    (hdone : ∀ b, Done s' b → s'.hist.completed b = s.hist.cleared b + 1)
    (hnotDone : ∀ b, ¬ Done s' b → s'.hist.completed b = s.hist.cleared b) : Flags s' := by
  refine ⟨?_, ?_, hhist.2 ▸ hdone, hhist.2 ▸ hnotDone⟩
  · simp only [hin, hcall, Active, hout]
    exact h.flags.inDisk
  · rw [hhist.1, hhist.2, hin]
    exact h.flags.issued

/-- A step that leaves the requests, the rings and the flags alone. -/
lemma Protocol.quiet (h : Protocol s) (hc : Control s') (hcall : s'.call = s.call)
    (hfree : s'.disk.free = s.disk.free)
    (hformat : ∀ t k, s.call t = some k → k.phase ≠ .format →
      Formatted s'.disk (sector s' k.b) k)
    (hsector : ∀ t k, s.call t = some k → sector s' k.b = sector s k.b)
    (hqueued : s'.queued = s.queued) (hcompleted : s'.completed = s.completed)
    (hdev : s'.dev.taken = s.dev.taken)
    (hcell : ∀ t k, s.call t = some k → k.phase = .bump →
      s'.disk.availRing (cell NUM s'.disk.availIdx) = s.disk.availRing (cell NUM s.disk.availIdx))
    (hinfo : s'.disk.info = s.disk.info) (hin : s'.inDisk = s.inDisk)
    (hhist : s'.hist = s.hist) : Protocol s' := by
  have hout : s'.outstanding = s.outstanding := by
    rw [State.outstanding, hqueued, hdev, hcompleted, State.outstanding]
  refine ⟨hc, h.chains.congr (fun i => by rw [hfree]) ?_, hcall ▸ hformat, ?_, ?_⟩
  · funext u
    rw [State.chain, hcall, State.chain]
  · refine h.rings_of_same hcall (hout ▸ h.rings.nodup) (by rw [hout]; exact fun _ => id) hcell
      hsector (fun r hr => .inl (hdev ▸ hr)) ?_ ?_
    · rw [hcompleted, hinfo]
      exact h.rings.status
    · rw [hhist, hqueued]
      exact h.rings.order
  · refine h.flags_of_same hcall (by simp [hout]) hin ⟨by rw [hhist], by rw [hhist]⟩ ?_ ?_
    all_goals simp only [Done, hcall, hcompleted, hhist]
    exacts [h.flags.done, h.flags.notDone]

end Same

section Calls

omit [DecidableEq B]

variable {k' : Option (Call B)}

lemma chain_of_call (hcall : s'.call = update s.call t k') :
    s'.chain = update s.chain t (k'.elim [] Call.chain) := by
  funext u
  simp only [State.chain, hcall, update_apply]
  split_ifs <;> rfl

/-- The holder of `vdisk_lock` changes its request, which is not on its way. -/
lemma Rings.of_call (h : Protocol s) (hhold : (s.pc t).Holding)
    (hcall : s'.call = update s.call t k')
    (hnot : ∀ k, s.call t = some k → k.head ∉ s.outstanding) (hnodup : s'.outstanding.Nodup)
    (hout : ∀ i ∈ s'.outstanding, i ∈ s.outstanding ∨
      ∃ l, k' = some l ∧ l.phase = .submitted ∧ l.head = i)
    (hbump : ∀ l, k' = some l → l.phase = .bump →
      s'.disk.availRing (cell NUM s'.disk.availIdx) = l.head)
    (htaken : s'.dev.taken = s.dev.taken) (hsector : ∀ b, sector s' b = sector s b)
    (hstatus : ∀ i : Fin NUM, i.val ∈ s'.completed → (s'.disk.info i).status = 0)
    (horder : s'.hist.submitted = s'.hist.taken ++ s'.queued) : Rings s' := by
  have hmem (r : Request B) (hr : r ∈ s.dev.taken) : r.head ∈ s.outstanding :=
    List.mem_append_right _ (List.mem_append_left _ (List.mem_map_of_mem hr))
  have hlock (u : T) (l : Call B) (hl : s.call u = some l) (hphase : l.phase = .bump) : u = t :=
    h.holder_unique (Pc.holding_of_call hl (by simp [hphase])) hhold
  have hhead (k : Call B) (sec : BitVec 64) : (k.request sec).head = k.head := rfl
  obtain ⟨-, hrings, -, htakens, -, -⟩ := h.rings
  constructor
  case call | bump | taken =>
    simp only [hcall, htaken, hsector, update_apply]
    grind
  all_goals assumption

lemma done_of_call (hcall : s'.call = update s.call t k') (hcompleted : s'.completed = s.completed)
    (hnot : ∀ k, s.call t = some k → k.head ∉ s.completed)
    (hnot' : ∀ l, k' = some l → l.head ∉ s.completed) (b : B) : Done s' b ↔ Done s b := by
  simp only [Done, hcall, hcompleted, update_apply]
  grind

/-- The flags when a request that the handler has not seen changes otherwise. -/
lemma Flags.of_call (h : Flags s) (hcall : s'.call = update s.call t k')
    (hcompleted : s'.completed = s.completed)
    (hnot : ∀ k, s.call t = some k → k.head ∉ s.completed)
    (hnot' : ∀ l, k' = some l → l.head ∉ s.completed) (hin : s'.inDisk = s.inDisk)
    (hhist : s'.hist.issued = s.hist.issued ∧ s'.hist.completed = s.hist.completed ∧
      s'.hist.cleared = s.hist.cleared)
    (hout : ∀ u l, s.call u = some l → u ≠ t → (Active s' l ↔ Active s l))
    (hactive : ∀ b, (∃ l, k' = some l ∧ l.b = b ∧ Active s' l) ↔
      ∃ k, s.call t = some k ∧ k.b = b ∧ Active s k) : Flags s' := by
  obtain ⟨hissued, hcount, hcleared⟩ := hhist
  have hdone := done_of_call hcall hcompleted hnot hnot'
  refine ⟨fun b => ?_, by rw [hissued, hcleared, hin]; exact h.issued,
    fun b hd => by rw [hcount, hcleared]; exact h.done b ((hdone b).mp hd),
    fun b hd => by rw [hcount, hcleared]; exact h.notDone b fun hd' => hd ((hdone b).mpr hd')⟩
  have hb := hactive b
  simp only [hin, h.inDisk, hcall, update_apply]
  grind

end Calls

lemma cap_dvd : NUM ∣ 2 ^ 16 := by decide

/-- The same heads are on their way, and the flags and the counts are the same. -/
structure Still (s s' : State T B α) : Prop where
  queued : s'.queued = s.queued
  completed : s'.completed = s.completed
  dev : s'.dev = s.dev
  inDisk : s'.inDisk = s.inDisk
  hist : s'.hist = s.hist
  blockno : s'.blockno = s.blockno

omit [DecidableEq T] [DecidableEq B] in
lemma outstanding_congr (hqueued : s'.queued = s.queued) (hcompleted : s'.completed = s.completed)
    (hdev : s'.dev = s.dev) : s'.outstanding = s.outstanding := by
  rw [State.outstanding, hqueued, hdev, hcompleted, State.outstanding]

omit [DecidableEq T] [DecidableEq B] in
lemma sector_congr (h : s'.blockno = s.blockno) (b : B) : sector s' b = sector s b := by
  rw [sector, h, sector]

namespace Protocol

omit [DecidableEq T] [DecidableEq B] in
lemma head_not_outstanding (h : Protocol s) (hk : s.call t = some k)
    (hphase : k.phase ≠ .submitted) : k.head ∉ s.outstanding :=
  fun hh => hphase (h.submitted_of_head hk hh)

omit [DecidableEq T] [DecidableEq B] in
lemma not_mem_of_ne (h : Protocol s) (hk : s.call t = some k) (hl : s.call u = some l) (hu : u ≠ t)
    {i : Fin NUM} (hi : i ∈ l.chain) : i ∉ k.chain :=
  fun hik => hu (h.eq_of_mem hl hk hi hik)

omit [DecidableEq T] [DecidableEq B] in
lemma not_outstanding (h : Protocol s) (hk : s.call t = some k) (hhead : k.head ∉ s.outstanding) :
    ∀ l, s.call t = some l → l.head ∉ s.outstanding := by
  grind

omit [DecidableEq B] in
/-- A request that is not on its way changes, and nothing that is. -/
lemma of_call {k' : Option (Call B)} (h : Protocol s) (hc : Control s') (hhold : (s.pc t).Holding)
    (hcall : s'.call = update s.call t k') (hs : Still s s')
    (hnot : ∀ k, s.call t = some k → k.head ∉ s.outstanding)
    (hnot' : ∀ l, k' = some l → l.head ∉ s.outstanding)
    (hchains : Holdings.Partition (fun i => s'.disk.free i = true) s'.chain)
    (hformatted : ∀ u l, s'.call u = some l → l.phase ≠ .format →
      Formatted s'.disk (sector s l.b) l)
    (hbump : ∀ l, k' = some l → l.phase = .bump →
      s'.disk.availRing (cell NUM s'.disk.availIdx) = l.head)
    (hstatus : ∀ i : Fin NUM, i.val ∈ s.completed → (s'.disk.info i).status = 0)
    (hactive : ∀ b, (∃ l, k' = some l ∧ l.b = b ∧ Active s l) ↔
      ∃ k, s.call t = some k ∧ k.b = b ∧ Active s k) : Protocol s' := by
  have hout := outstanding_congr hs.queued hs.completed hs.dev
  have hsec := sector_congr hs.blockno
  have hact (l : Call B) : Active s' l ↔ Active s l := by rw [Active, hout, Active]
  refine ⟨hc, hchains, fun u l hl hphase => hsec l.b ▸ hformatted u l hl hphase, ?_, ?_⟩
  · refine Rings.of_call h hhold hcall hnot (hout ▸ h.rings.nodup) (fun i hi => .inl (hout ▸ hi))
      hbump (by rw [hs.dev]) hsec (hs.completed ▸ hstatus) ?_
    rw [hs.hist, hs.queued]
    exact h.rings.order
  · refine h.flags.of_call hcall hs.completed (fun k hk hm => hnot k hk (completed_subset hm))
      (fun l hl hm => hnot' l hl (completed_subset hm)) hs.inDisk
      ⟨by rw [hs.hist], by rw [hs.hist], by rw [hs.hist]⟩ (fun u l _ _ => hact l) fun b => ?_
    simp only [hact]
    exact hactive b

omit [DecidableEq B] in
theorem alloc (h : Protocol s) (hc : Control s') (hhold : (s.pc t).Holding) {write : Bool}
    {i₀ i₁ i₂ : Fin NUM} (hnone : s.call t = none) (hnodup : [i₀, i₁, i₂].Nodup)
    (hfree : ∀ i ∈ [i₀, i₁, i₂], s.disk.free i = true)
    (hcall : s'.call = update s.call t (some ⟨.format, b, write, i₀, i₁, i₂⟩))
    (hs' : s'.disk = { s.disk with
        free := fun i => if i ∈ [i₀, i₁, i₂] then false else s.disk.free i } ∧
      s'.dev = s.dev ∧ s'.inDisk = s.inDisk ∧ s'.hist = s.hist ∧ s'.blockno = s.blockno) :
    Protocol s' := by
  obtain ⟨hdisk, hdev, hin, hhist, hblockno⟩ := hs'
  -- a free descriptor is not the head of a request
  have hhead : i₀.val ∉ s.outstanding := by
    intro hmem
    obtain ⟨u, l, hl, -, hlh⟩ := h.rings.call _ hmem
    have hused := h.used_of_mem hl (i := i₀) (by simp [Call.chain, ← Fin.ext hlh])
    simp [hfree i₀ (by simp)] at hused
  have hstill : Still s s' :=
    ⟨by rw [State.queued, hdisk, hdev, State.queued],
      by rw [State.completed, hdisk, hdev, State.completed], hdev, hin, hhist, hblockno⟩
  refine h.of_call hc hhold hcall hstill (by simp [hnone]) (fun l hl => ?_) ?_
    (fun u l hl hphase => ?_) (by grind) (by rw [hdisk]; exact h.rings.status) fun b => ?_
  · obtain rfl := Option.some.inj hl
    exact hhead
  · have hempty : s.chain t = [] := by simp [State.chain, hnone]
    rw [Virtio.chain_of_call hcall, Option.elim_some, Call.chain]
    refine h.chains.exchange hnodup (fun i hi => .inr (hfree i hi)) fun i => ?_
    rw [hdisk, hempty]
    by_cases hi : i ∈ [i₀, i₁, i₂] <;> simp [hi]
  · have hu : u ≠ t := by
      rintro rfl
      rw [hcall, update_self] at hl
      obtain rfl := Option.some.inj hl
      exact hphase rfl
    rw [hcall, update_of_ne hu] at hl
    rw [hdisk]
    exact (h.formatted u l hl hphase).congr (fun _ _ => rfl) rfl rfl
  · simp [hnone, Active, Call.head, hhead]

omit [DecidableEq B] in
lemma chains_of_phase (h : Protocol s) (hk : s.call t = some k) {phase : Phase}
    (hcall : s'.call = update s.call t (some { k with phase := phase }))
    (hfree : s'.disk.free = s.disk.free) :
    Holdings.Partition (fun i => s'.disk.free i = true) s'.chain :=
  h.chains.congr (fun i => by rw [hfree])
    (by rw [Virtio.chain_of_call hcall, update_eq_self_iff, chain_of_call hk]; rfl)

omit [DecidableEq B] in
lemma formatted_of_phase (h : Protocol s) (hk : s.call t = some k) (hphase : k.phase ≠ .format)
    {phase : Phase} (hcall : s'.call = update s.call t (some { k with phase := phase }))
    (hdesc : s'.disk.desc = s.disk.desc) (hops : s'.disk.ops = s.disk.ops)
    (hinfo : s'.disk.info = s.disk.info) (u : T) (l : Call B) (hl : s'.call u = some l)
    (hlphase : l.phase ≠ .format) : Formatted s'.disk (sector s l.b) l := by
  rw [hcall] at hl
  by_cases hu : u = t
  · subst hu
    rw [update_self] at hl
    obtain rfl := Option.some.inj hl
    have hfmt : Formatted s'.disk (sector s k.b) k := (h.formatted u k hk hphase).congr
      (by simp [hdesc]) (by rw [hops]) (by rw [hinfo])
    exact ⟨hfmt.first, hfmt.second, hfmt.third, hfmt.op, hfmt.buf⟩
  · rw [update_of_ne hu] at hl
    exact (h.formatted u l hl hlphase).congr (by simp [hdesc]) (by rw [hops]) (by rw [hinfo])

/-- The descriptors are formatted and `b->disk` is set. -/
theorem format (h : Protocol s) (hc : Control s') (hk : s.call t = some k)
    (hphase : k.phase = .format)
    (hcall : s'.call = update s.call t (some { k with phase := .ring }))
    (hs' : s'.disk = s.disk.format k.b k.write (sector s k.b) k.idx ∧ s'.dev = s.dev ∧
      s'.inDisk = update s.inDisk k.b true ∧
      s'.hist = { s.hist with issued := update s.hist.issued k.b (s.hist.issued k.b + 1) } ∧
      s'.blockno = s.blockno) : Protocol s' := by
  obtain ⟨hdisk, hdev, hin, hhist, hblockno⟩ := hs'
  have hsec := sector_congr hblockno
  have hhead := h.head_not_outstanding hk (by simp [hphase])
  have hhold : (s.pc t).Holding := Pc.holding_of_call hk (by simp [hphase])
  have hqueued : s'.queued = s.queued := by rw [State.queued, hdisk, hdev]; rfl
  have hcompleted : s'.completed = s.completed := by rw [State.completed, hdisk, hdev]; rfl
  have hout := outstanding_congr hqueued hcompleted hdev
  have hnot := h.not_outstanding hk hhead
  refine ⟨hc, h.chains_of_phase hk hcall (by rw [hdisk]; rfl), fun u l hl hlphase => ?_, ?_, ?_⟩
  · rw [hsec, hdisk]
    by_cases hu : u = t
    · subst hu
      rw [hcall, update_self] at hl
      obtain rfl := Option.some.inj hl
      have hfmt := formatted_format s.disk (sector s k.b) (h.nodup_of_call hk)
      exact ⟨hfmt.first, hfmt.second, hfmt.third, hfmt.op, hfmt.buf⟩
    · rw [hcall, update_of_ne hu] at hl
      have hne (i : Fin NUM) (hi : i ∈ l.chain) :
          i ≠ k.idx.1 ∧ i ≠ k.idx.2.1 ∧ i ≠ k.idx.2.2 := by
        simpa [Call.chain] using h.not_mem_of_ne hk hl hu hi
      have hne₀ := (hne l.idx.1 (by simp [Call.chain])).1
      refine (h.formatted u l hl hlphase).congr (fun i hi => ?_) ?_ ?_
      · obtain ⟨h0, h1, h2⟩ := hne i hi
        simp [Disk.format, h0, h1, h2]
      · simp [Disk.format, hne₀]
      · simp [Disk.format, hne₀]
  · refine Rings.of_call h hhold hcall hnot (hout ▸ h.rings.nodup) (fun i hi => .inl (hout ▸ hi))
      (fun l hl hlphase => ?_) (by rw [hdev]) hsec (fun i hi => ?_) ?_
    · obtain rfl := Option.some.inj hl
      cases hlphase
    · have hi' : i ≠ k.idx.1 := by
        rintro rfl
        exact hhead (completed_subset (hcompleted ▸ hi))
      rw [hdisk]
      simpa [Disk.format, hi'] using h.rings.status i (hcompleted ▸ hi)
    · rw [hhist, hqueued]
      exact h.rings.order
  · have hoff := h.inDisk_iff hk
    have hbuf := fun v l (hl : s.call v = some l) => h.eq_of_buf hl hk
    have hnone : k.head ∉ s.completed := fun hm => hhead (completed_subset hm)
    have hsame : ({ k with phase := .ring } : Call B).head = k.head := rfl
    obtain ⟨hinDisk, hissued, hdone, hnotDone⟩ := h.flags
    constructor
    all_goals intro b
    all_goals simp only [Done, Active, hin, hcall, hout, hcompleted, hhist, update_apply] at *
    all_goals grind

omit [DecidableEq B] in
/-- The entry of the avail ring is written: its cell holds no head that the device has to
take yet. -/
theorem ring (h : Protocol s) (hc : Control s') (hk : s.call t = some k) (hphase : k.phase = .ring)
    (hcall : s'.call = update s.call t (some { k with phase := .bump }))
    (hs' : s'.disk = { s.disk with
        availRing := update s.disk.availRing (cell NUM s.disk.availIdx) k.head } ∧
      s'.dev = s.dev ∧ s'.inDisk = s.inDisk ∧ s'.hist = s.hist ∧ s'.blockno = s.blockno) :
    Protocol s' := by
  obtain ⟨hdisk, hdev, hin, hhist, hblockno⟩ := hs'
  have hhead := h.head_not_outstanding hk (by simp [hphase])
  have hroom : size s.dev.lastAvail s.disk.availIdx < NUM :=
    lt_of_le_of_lt size_queued (h.length_outstanding_lt hk (by simp [hphase]))
  have hstill : Still s s' := by
    refine ⟨?_, by rw [State.completed, hdisk, hdev]; rfl, hdev, hin, hhist, hblockno⟩
    rw [State.queued, hdisk, hdev]
    exact contents_write cap_dvd hroom
  refine h.of_call hc (Pc.holding_of_call hk (by simp [hphase])) hcall hstill
    (h.not_outstanding hk hhead) (fun l hl => ?_) (h.chains_of_phase hk hcall (by rw [hdisk]))
    (h.formatted_of_phase hk (by simp [hphase]) hcall (by rw [hdisk]) (by rw [hdisk]) (by rw [hdisk]))
    (fun l hl _ => ?_) (by rw [hdisk]; exact h.rings.status) fun b => ?_
  · obtain rfl := Option.some.inj hl
    exact hhead
  · obtain rfl := Option.some.inj hl
    rw [hdisk]
    exact update_self ..
  · simp [hk, Active, hphase]

omit [DecidableEq B] in
/-- `avail->idx += 1`: the head joins those that the device is to take. -/
theorem bump (h : Protocol s) (hc : Control s') (hk : s.call t = some k) (hphase : k.phase = .bump)
    (hcall : s'.call = update s.call t (some { k with phase := .submitted }))
    (hs' : s'.disk = { s.disk with availIdx := s.disk.availIdx + 1#16 } ∧ s'.dev = s.dev ∧
      s'.inDisk = s.inDisk ∧
      s'.hist = { s.hist with submitted := s.hist.submitted ++ [k.head] } ∧
      s'.blockno = s.blockno) : Protocol s' := by
  obtain ⟨hdisk, hdev, hin, hhist, hblockno⟩ := hs'
  have hsec := sector_congr hblockno
  have hhead := h.head_not_outstanding hk (by simp [hphase])
  have hhold : (s.pc t).Holding := Pc.holding_of_call hk (by simp [hphase])
  have hroom : size s.dev.lastAvail s.disk.availIdx < NUM :=
    lt_of_le_of_lt size_queued (h.length_outstanding_lt hk (by simp [hphase]))
  have hqueued : s'.queued = s.queued ++ [k.head] := by
    rw [State.queued, hdisk, hdev, ← h.rings.bump t k hk hphase]
    exact contents_advance cap_dvd ((Nat.succ_lt_succ hroom).trans (by decide))
  have hcompleted : s'.completed = s.completed := by rw [State.completed, hdisk, hdev]; rfl
  have hperm : s'.outstanding.Perm (k.head :: s.outstanding) := by
    rw [State.outstanding, hqueued, hdev, hcompleted, List.append_assoc, List.singleton_append]
    exact List.perm_middle
  have hmem (i : ℕ) : i ∈ s'.outstanding ↔ i = k.head ∨ i ∈ s.outstanding := by
    rw [hperm.mem_iff, List.mem_cons]
  have hnot := h.not_outstanding hk hhead
  refine ⟨hc, h.chains_of_phase hk hcall (by rw [hdisk]), fun u l hl hlphase => ?_, ?_, ?_⟩
  · rw [hsec]
    exact h.formatted_of_phase hk (by simp [hphase]) hcall (by rw [hdisk]) (by rw [hdisk])
      (by rw [hdisk]) u l hl hlphase
  · refine Rings.of_call h hhold hcall hnot
      (hperm.nodup_iff.mpr (List.nodup_cons.mpr ⟨hhead, h.rings.nodup⟩)) (fun i hi => ?_)
      (fun l hl hlphase => ?_) (by rw [hdev]) hsec ?_ ?_
    · obtain rfl | hi := (hmem i).mp hi
      · exact .inr ⟨_, rfl, rfl, rfl⟩
      · exact .inl hi
    · obtain rfl := Option.some.inj hl
      cases hlphase
    · rw [hcompleted, hdisk]
      exact h.rings.status
    · rw [hhist, hqueued, ← List.append_assoc]
      exact congrArg (· ++ [k.head]) h.rings.order
  · refine h.flags.of_call hcall hcompleted (fun l hl hm => hnot l hl (completed_subset hm))
      (fun l hl hm => ?_) hin ⟨by rw [hhist], by rw [hhist], by rw [hhist]⟩
      (fun u l hl hu => ?_) fun b => ?_
    · obtain rfl := Option.some.inj hl
      exact hhead (completed_subset hm)
    · have hne : l.head ≠ k.head := fun he => hu (h.eq_of_head hl hk he)
      simp [Active, hmem, hne]
    · have hself : ({ k with phase := .submitted } : Call B).head ∈ s'.outstanding :=
        (hmem _).mpr (.inl rfl)
      simp [hk, Active, hphase, hself]

omit [DecidableEq B] in
/-- The waiting loop ends once the handler has seen the request. -/
theorem leave (h : Protocol s) (hc : Control s') (hk : s.call t = some k)
    (hphase : k.phase = .submitted) (hhold : (s.pc t).Holding) (hoff : s.inDisk k.b = false)
    (hcall : s'.call = update s.call t (some { k with phase := .free }))
    (hs' : s'.disk = s.disk ∧ s'.dev = s.dev ∧ s'.inDisk = s.inDisk ∧ s'.hist = s.hist ∧
      s'.blockno = s.blockno) : Protocol s' := by
  obtain ⟨hdisk, hdev, hin, hhist, hblockno⟩ := hs'
  have hinactive : ¬ Active s k := by rw [← h.inDisk_iff hk, hoff]; simp
  have hhead : k.head ∉ s.outstanding := fun hm => hinactive (.inr (.inr hm))
  have hstill : Still s s' :=
    ⟨by rw [State.queued, hdisk, hdev, State.queued],
      by rw [State.completed, hdisk, hdev, State.completed], hdev, hin, hhist, hblockno⟩
  have hself : ({ k with phase := .free } : Call B).head ∉ s.outstanding := hhead
  refine h.of_call hc hhold hcall hstill (h.not_outstanding hk hhead) (by grind)
    (h.chains_of_phase hk hcall (by rw [hdisk]))
    (h.formatted_of_phase hk (by simp [hphase]) hcall (by rw [hdisk]) (by rw [hdisk]) (by rw [hdisk]))
    (by grind) (by rw [hdisk]; exact h.rings.status) fun b => ?_
  simp [hk, Active, hphase, hself, hhead]

omit [DecidableEq T] [DecidableEq B] in
/-- `free_chain` does not panic and gives back the three descriptors of the request. -/
lemma finish_spec (h : Protocol s) (hk : s.call t = some k) (hphase : k.phase = .free) :
    ∃ d, finish s.disk k.idx.1 = some d ∧ GivenBack k.chain
      { s.disk with
        info := update s.disk.info k.idx.1 { s.disk.info k.idx.1 with b := none } } d := by
  have hlinked := (h.formatted t k hk (by simp [hphase])).linked
  exact freeChain_spec ⟨hlinked.first, hlinked.second, hlinked.third⟩ (h.nodup_of_call hk)
    fun i hi => h.used_of_mem hk hi

omit [DecidableEq B] in
theorem free (h : Protocol s) (hc : Control s') (hk : s.call t = some k) (hphase : k.phase = .free)
    {d : Disk B} (hd : GivenBack k.chain
      { s.disk with
        info := update s.disk.info k.idx.1 { s.disk.info k.idx.1 with b := none } } d)
    (hcall : s'.call = update s.call t none)
    (hs' : s'.disk = d ∧ s'.dev = s.dev ∧ s'.inDisk = s.inDisk ∧ s'.hist = s.hist ∧
      s'.blockno = s.blockno) : Protocol s' := by
  obtain ⟨rfl, hdev, hin, hhist, hblockno⟩ := hs'
  have hrest := hd.rest
  have hhead := h.head_not_outstanding hk (by simp [hphase])
  have hinfo : s'.disk.info =
      update s.disk.info k.idx.1 { s.disk.info k.idx.1 with b := none } := by rw [hrest]
  have hops : s'.disk.ops = s.disk.ops := by rw [hrest]
  have hstill : Still s s' :=
    ⟨by rw [State.queued, hrest, hdev]; rfl, by rw [State.completed, hrest, hdev]; rfl, hdev, hin,
      hhist, hblockno⟩
  refine h.of_call hc (Pc.holding_of_call hk (by simp [hphase])) hcall hstill
    (h.not_outstanding hk hhead) (by simp) ?_ (fun u l hl hlphase => ?_) (by simp)
    (fun i hi => ?_) fun b => by simp [hk, Active, hphase, hhead]
  · rw [Virtio.chain_of_call hcall]
    refine h.chains.exchange List.nodup_nil (fun i hi => by simp at hi) fun i => ?_
    rw [hd.free, chain_of_call hk]
    simp [or_comm]
  · have hu : u ≠ t := by
      rintro rfl
      rw [hcall, update_self] at hl
      cases hl
    rw [hcall, update_of_ne hu] at hl
    have hne (i : Fin NUM) (hi : i ∈ l.chain) : i ∉ k.chain := h.not_mem_of_ne hk hl hu hi
    have hne₀ : l.idx.1 ≠ k.idx.1 := fun he =>
      hne l.idx.1 (by simp [Call.chain]) (by simp [Call.chain, he])
    refine (h.formatted u l hl hlphase).congr (fun i hi => ?_) (by rw [hops]) ?_
    · exact hd.desc i (h.used_of_mem hl hi) (hne i hi)
    · rw [hinfo, update_of_ne hne₀]
  · have hi' : i ≠ k.idx.1 := by
      rintro rfl
      exact hhead (completed_subset hi)
    rw [hinfo, update_of_ne hi']
    exact h.rings.status i hi

end Protocol

end Xv6.Virtio
