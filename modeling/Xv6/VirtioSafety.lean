import Xv6.VirtioDevice

/-!
# The protocol of the disk driver holds in every run
-/
namespace Xv6.Virtio

open Function WrapRing

variable {T B α : Type*} [DecidableEq T] [DecidableEq B]
variable {s s' : State T B α} {t : T} {b : B} {write : Bool} {idx : Idx}

namespace Control

omit [DecidableEq B]

/-- Thread `t` moves to `pc`; the other threads have the lock or not as before. -/
lemma move (h : Control s) (pc : Pc B) (hpc : s'.pc = update s.pc t pc)
    (hbufLock : s'.bufLock = s.bufLock) (hbuf : ∀ b, pc.buf = some b → s.bufLock b = some t)
    (hlock : pc.Holding ↔ s'.vdiskLock = some t)
    (hothers : ∀ u, u ≠ t → (s.vdiskLock = some u ↔ s'.vdiskLock = some u))
    (hbody : pc ≠ .intrBody ∧ (s'.disk.usedIdx = s.disk.usedIdx ∧
        s'.disk.usedRingIdx = s.disk.usedRingIdx ∨ (s.pc t).Holding) ∨
      s'.disk.usedIdx ≠ s'.disk.usedRingIdx) : Control s' := by
  have hbody' : (Pc.intrBody : Pc B).Holding := trivial
  cases h
  constructor
  all_goals simp only [hpc, hbufLock, update_apply]
  all_goals grind

lemma keep (h : Control s) (pc : Pc B) (hpc : s'.pc = update s.pc t pc)
    (hlocks : s'.bufLock = s.bufLock ∧ s'.vdiskLock = s.vdiskLock)
    (hbuf : ∀ b, pc.buf = some b → s.bufLock b = some t)
    (hhold : pc.Holding ↔ (s.pc t).Holding)
    (hbody : pc ≠ .intrBody ∧ (s'.disk.usedIdx = s.disk.usedIdx ∧
        s'.disk.usedRingIdx = s.disk.usedRingIdx ∨ (s.pc t).Holding) ∨
      s'.disk.usedIdx ≠ s'.disk.usedRingIdx) : Control s' := by
  refine h.move pc hpc hlocks.1 hbuf ?_ (fun u _ => by rw [hlocks.2]) hbody
  rw [hhold, hlocks.2]
  exact h.locked t

lemma acquire (h : Control s) (pc : Pc B) (hfree : s.vdiskLock = none) (hhold : pc.Holding)
    (hbuf : ∀ b, pc.buf = some b → s.bufLock b = some t) (hbody : pc ≠ .intrBody) :
    Control ({ s with vdiskLock := some t }.goto t pc) := by
  refine h.move pc rfl rfl hbuf ⟨fun _ => rfl, fun _ => hhold⟩ (fun u hu => ?_)
    (.inl ⟨hbody, .inl ⟨rfl, rfl⟩⟩)
  simp [hfree, State.goto, Ne.symm hu]

lemma release (h : Control s) (pc : Pc B) (hpc : s'.pc = update s.pc t pc)
    (hlocks : s'.bufLock = s.bufLock ∧ s'.vdiskLock = none) (hheld : (s.pc t).Holding)
    (hhold : ¬ pc.Holding) (hbuf : ∀ b, pc.buf = some b → s.bufLock b = some t)
    (hbody : pc ≠ .intrBody) : Control s' := by
  refine h.move pc hpc hlocks.1 hbuf ⟨fun hp => absurd hp hhold, fun hl => ?_⟩ (fun u hu => ?_)
    (.inl ⟨hbody, .inr hheld⟩)
  · rw [hlocks.2] at hl
    cases hl
  · rw [(h.locked t).mp hheld, hlocks.2]
    simp [Ne.symm hu]

end Control

omit [DecidableEq B] in
/-- The requests stay when a thread moves within one, or outside of any. -/
lemma call_of_move {pc : Pc B} (hpc : s'.pc = update s.pc t pc) (hcall : pc.call = (s.pc t).call) :
    s'.call = s.call := by
  funext u
  simp only [State.call, hpc, update_apply]
  grind

omit [DecidableEq B] in
lemma call_of_update (pc : Pc B) (hpc : s'.pc = update s.pc t pc) :
    s'.call = update s.call t pc.call := by
  funext u
  simp only [State.call, hpc, update_apply]
  grind

namespace Protocol

omit [DecidableEq T] [DecidableEq B] in
/-- A step that changes locks, program counters or data only. -/
lemma quiet' (h : Protocol s) (hc : Control s') (hcall : s'.call = s.call)
    (hs' : s'.disk = s.disk ∧ s'.dev = s.dev ∧ s'.inDisk = s.inDisk ∧ s'.hist = s.hist)
    (hblockno : ∀ t k, s.call t = some k → s'.blockno k.b = s.blockno k.b) : Protocol s' := by
  obtain ⟨hdisk, hdev, hin, hhist⟩ := hs'
  have hsec (t : T) (k : Call B) (hk : s.call t = some k) : sector s' k.b = sector s k.b := by
    rw [sector, hblockno t k hk, sector]
  refine h.quiet hc hcall (by rw [hdisk]) (fun t k hk hphase => ?_) hsec ?_ ?_ (by rw [hdev])
    (fun _ _ _ _ => by rw [hdisk]) (by rw [hdisk]) hin hhist
  · rw [hdisk, hsec t k hk]
    exact h.formatted t k hk hphase
  · rw [State.queued, hdisk, hdev, State.queued]
  · rw [State.completed, hdisk, hdev, State.completed]

omit [DecidableEq B] in
lemma acquire (h : Protocol s) (pc : Pc B) (hs : acquire s t pc = some s') (hhold : pc.Holding)
    (hbuf : pc.buf = (s.pc t).buf) (hcall : pc.call = (s.pc t).call) (hbody : pc ≠ .intrBody) :
    Protocol s' := by
  simp only [Virtio.acquire] at hs
  split_ifs at hs with hfree
  obtain rfl := Option.some.inj hs
  exact h.quiet' (h.control.acquire pc hfree hhold (fun b hb => h.control.buf t b (hbuf ▸ hb)) hbody)
    (call_of_move rfl hcall) ⟨rfl, rfl, rfl, rfl⟩ fun _ _ _ => rfl

omit [DecidableEq B] in
lemma sleep (h : Protocol s) (ch : Chan B) {pc pc' : Pc B} (hpc : s.pc t = pc) (hheld : pc.Holding)
    (hhold : ¬ pc'.Holding) (hbuf : pc'.buf = pc.buf) (hcall : pc'.call = pc.call)
    (hbody : pc' ≠ .intrBody) : Protocol (s.sleep t ch pc') := by
  subst hpc
  exact h.quiet' (h.control.release pc' rfl ⟨rfl, rfl⟩ hheld hhold
    (fun b hb => h.control.buf t b (hbuf ▸ hb)) hbody) (call_of_move rfl hcall) ⟨rfl, rfl, rfl, rfl⟩
    fun _ _ _ => rfl

omit [DecidableEq T] [DecidableEq B] in
/-- `alloc3_desc` found less than three descriptors. -/
lemma giveBack (h : Protocol s) {d : Disk B} (hd : GivenBack [] s.disk d) :
    Protocol { s with disk := d } := by
  have hfree : d.free = s.disk.free := by
    funext i
    rw [Bool.eq_iff_iff, hd.free i]
    simp
  have hrest := hd.rest
  have hinfo : d.info = s.disk.info := by rw [hrest]
  have hidx : d.usedIdx = s.disk.usedIdx ∧ d.usedRingIdx = s.disk.usedRingIdx := by
    rw [hrest]
    exact ⟨rfl, rfl⟩
  refine h.quiet ⟨h.control.locked, h.control.buf, fun t ht => ?_⟩ rfl hfree
    (fun t k hk hphase => ?_) (fun _ _ _ => rfl) ?_ ?_ rfl (fun _ _ _ _ => ?_) hinfo rfl rfl
  · show d.usedIdx ≠ d.usedRingIdx
    rw [hidx.1, hidx.2]
    exact h.control.body t ht
  · refine (h.formatted t k hk hphase).congr (fun i hi => ?_) ?_ ?_
    · exact hd.desc i (h.used_of_mem hk hi) (by simp)
    · show d.ops _ = _
      rw [hrest]
    · show (d.info _).b = _
      rw [hinfo]
  · show contents NUM d.availRing s.dev.lastAvail d.availIdx = _
    rw [hrest]
    rfl
  · show contents NUM d.usedRing d.usedIdx d.usedRingIdx ++ _ = _
    rw [hrest]
    rfl
  · show d.availRing (cell NUM d.availIdx) = _
    rw [hrest]

omit [DecidableEq T] in
lemma wakeup (h : Protocol s) (ch : Chan B) : Protocol (s.wakeup ch) :=
  h.quiet' ⟨h.control.locked, h.control.buf, h.control.body⟩ rfl ⟨rfl, rfl, rfl, rfl⟩ fun _ _ _ => rfl

omit [DecidableEq T] [DecidableEq B] in
lemma call_eq {pc : Pc B} (hpc : s.pc t = pc) : s.call t = pc.call := by rw [State.call, hpc]

omit [DecidableEq B] in
/-- The holder of `vdisk_lock` goes on to the next statement of its call. -/
lemma within (h : Protocol s) {pc pc' : Pc B} (hpc : s.pc t = pc)
    (hpc' : s'.pc = update s.pc t pc')
    (hs' : s'.bufLock = s.bufLock ∧ s'.vdiskLock = s.vdiskLock ∧
      s'.disk.usedIdx = s.disk.usedIdx ∧ s'.disk.usedRingIdx = s.disk.usedRingIdx)
    (hbuf : pc'.buf = pc.buf) (hhold : pc'.Holding ∧ pc.Holding) (hbody : pc' ≠ .intrBody) :
    Control s' := by
  subst hpc
  exact h.control.keep pc' hpc' ⟨hs'.1, hs'.2.1⟩ (fun b hb => h.control.buf t b (hbuf ▸ hb))
    ⟨fun _ => hhold.2, fun _ => hhold.1⟩ (.inl ⟨hbody, .inl hs'.2.2⟩)

lemma turn_alloc (h : Protocol s) (hpc : s.pc t = .alloc b write) (hs : turn s t = some s') :
    Protocol s' := by
  have hheld : (s.pc t).Holding := by simp [hpc, Pc.Holding]
  rw [turn, hpc] at hs
  obtain ⟨i, j, k, hnodup, hfree, halloc⟩ | ⟨d, hd, halloc⟩ := alloc3Desc_spec s.disk
  · simp only [halloc] at hs
    obtain rfl := Option.some.inj hs
    exact h.alloc (h.within hpc rfl ⟨rfl, rfl, rfl, rfl⟩ rfl ⟨trivial, trivial⟩ (by simp)) hheld
      (call_eq hpc) hnodup hfree (call_of_update (.format b write (i, j, k)) rfl)
      ⟨rfl, rfl, rfl, rfl, rfl⟩
  · simp only [halloc] at hs
    obtain rfl := Option.some.inj hs
    have hwoken : Protocol { s.wakeup .free with disk := d } := (h.wakeup .free).giveBack hd
    split_ifs
    · exact hwoken.sleep .free hpc trivial id rfl rfl (by simp)
    · exact (h.giveBack hd).sleep .free hpc trivial id rfl rfl (by simp)

theorem turn (h : Protocol s) (hs : turn s t = some s') : Protocol s' := by
  cases hpc : s.pc t with
  | idle =>
    rw [Virtio.turn, hpc] at hs
    cases hs
  | acquire b write | waitAcquire b write idx | intrAcquire =>
    rw [Virtio.turn, hpc] at hs
    exact h.acquire _ hs trivial (by rw [hpc]; rfl) (by rw [hpc]; rfl) (by simp)
  | alloc b write => exact h.turn_alloc hpc hs
  | format b write idx =>
    rw [Virtio.turn, hpc] at hs
    obtain rfl := Option.some.inj hs
    exact h.format (h.within hpc rfl ⟨rfl, rfl, rfl, rfl⟩ rfl ⟨trivial, trivial⟩ (by simp))
      (call_eq hpc) rfl (call_of_update (.ring b write idx) rfl) ⟨rfl, rfl, rfl, rfl, rfl⟩
  | ring b write idx =>
    rw [Virtio.turn, hpc] at hs
    obtain rfl := Option.some.inj hs
    exact h.ring (h.within hpc rfl ⟨rfl, rfl, rfl, rfl⟩ rfl ⟨trivial, trivial⟩ (by simp))
      (call_eq hpc) rfl (call_of_update (.bump b write idx) rfl) ⟨rfl, rfl, rfl, rfl, rfl⟩
  | bump b write idx =>
    rw [Virtio.turn, hpc] at hs
    obtain rfl := Option.some.inj hs
    exact h.bump (h.within hpc rfl ⟨rfl, rfl, rfl, rfl⟩ rfl ⟨trivial, trivial⟩ (by simp))
      (call_eq hpc) rfl (call_of_update (.wait b write idx) rfl) ⟨rfl, rfl, rfl, rfl, rfl⟩
  | wait b write idx =>
    have hheld : (s.pc t).Holding := by simp [hpc, Pc.Holding]
    simp only [Virtio.turn, hpc] at hs
    split_ifs at hs with hin
    · obtain rfl := Option.some.inj hs
      exact h.sleep _ hpc trivial id rfl rfl (by simp)
    · obtain rfl := Option.some.inj hs
      exact h.leave (h.within hpc rfl ⟨rfl, rfl, rfl, rfl⟩ rfl ⟨trivial, trivial⟩ (by simp))
        (call_eq hpc) rfl hheld (by simpa using hin) (call_of_update (.free b write idx) rfl)
        ⟨rfl, rfl, rfl, rfl, rfl⟩
  | free b write idx =>
    have hheld : (s.pc t).Holding := by simp [hpc, Pc.Holding]
    obtain ⟨d, hd, hback⟩ := h.finish_spec (call_eq hpc) rfl
    have hd : finish s.disk idx.1 = some d := hd
    simp only [Virtio.turn, hpc, hd, Option.map_some] at hs
    obtain rfl := Option.some.inj hs
    exact h.free (h.control.release .idle rfl ⟨rfl, rfl⟩ hheld id (fun _ hb => (by cases hb)) (by simp))
      (call_eq hpc) rfl hback (call_of_update .idle rfl) ⟨rfl, rfl, rfl, rfl, rfl⟩
  | intrLoop =>
    have hheld : (s.pc t).Holding := by simp [hpc, Pc.Holding]
    simp only [Virtio.turn, hpc] at hs
    split_ifs at hs with hne
    · obtain rfl := Option.some.inj hs
      exact h.quiet' (h.control.keep .intrBody rfl ⟨rfl, rfl⟩ (fun _ hb => (by cases hb))
        ⟨fun _ => hheld, fun _ => trivial⟩ (.inr hne)) (call_of_move rfl (by rw [hpc]; rfl))
        ⟨rfl, rfl, rfl, rfl⟩ fun _ _ _ => rfl
    · obtain rfl := Option.some.inj hs
      exact h.quiet' (h.control.release .idle rfl ⟨rfl, rfl⟩ hheld id (fun _ hb => (by cases hb))
        (by simp)) (call_of_move rfl (by rw [hpc]; rfl)) ⟨rfl, rfl, rfl, rfl⟩ fun _ _ _ => rfl
  | intrBody =>
    have hheld : (s.pc t).Holding := by simp [hpc, Pc.Holding]
    have hne := h.control.body t hpc
    obtain ⟨u, k, hk, -, -, -, hhead, hcomplete⟩ := h.complete_spec hne
    simp only [Virtio.turn, hpc, hcomplete, Option.map_some] at hs
    obtain rfl := Option.some.inj hs
    exact h.handled (h.control.keep .intrLoop rfl ⟨rfl, rfl⟩ (fun _ hb => (by cases hb))
      ⟨fun _ => hheld, fun _ => trivial⟩ (.inl ⟨by simp, .inr hheld⟩)) hk hne hhead
      (call_of_move rfl (by rw [hpc]; rfl)) ⟨rfl, rfl, rfl, rfl, rfl⟩

omit [DecidableEq T] [DecidableEq B] in
lemma eq_idle {pc : Pc B} (h : pc.isIdle = true) : pc = .idle := by
  cases pc <;> first | rfl | cases h

theorem step (h : Protocol s) {a : Act T B α} (hs : step s a = some s') : Protocol s' := by
  cases a with
  | bget t b blockno =>
    simp only [Virtio.step] at hs
    split_ifs at hs with hg
    obtain rfl := Option.some.inj hs
    refine h.quiet' ⟨h.control.locked, fun u b' hb => ?_, h.control.body⟩ rfl ⟨rfl, rfl, rfl, rfl⟩
      fun u k hk => ?_
    · have hl := h.control.buf u b' hb
      grind
    · have hl := h.control.buf u k.b (Pc.buf_of_call hk)
      grind
  | brelse t b =>
    simp only [Virtio.step] at hs
    split_ifs at hs with hg
    obtain rfl := Option.some.inj hs
    refine h.quiet' ⟨h.control.locked, fun u b' hb => ?_, h.control.body⟩ rfl ⟨rfl, rfl, rfl, rfl⟩
      fun _ _ _ => rfl
    have hl := h.control.buf u b' hb
    have hidle := eq_idle hg.1
    have hnone : (Pc.idle : Pc B).buf = none := rfl
    grind
  | modify t b x =>
    simp only [Virtio.step] at hs
    split_ifs at hs with hg
    obtain rfl := Option.some.inj hs
    exact h.quiet' ⟨h.control.locked, h.control.buf, h.control.body⟩ rfl ⟨rfl, rfl, rfl, rfl⟩
      fun _ _ _ => rfl
  | rw t b write =>
    simp only [Virtio.step] at hs
    split_ifs at hs with hg
    obtain rfl := Option.some.inj hs
    have hpc := eq_idle hg.1
    refine h.quiet' (h.control.keep (.acquire b write) rfl ⟨rfl, rfl⟩ (fun b' hb => ?_)
      (by rw [hpc]; rfl) (.inl ⟨by simp, .inl ⟨rfl, rfl⟩⟩)) (call_of_move rfl (by rw [hpc]; rfl))
      ⟨rfl, rfl, rfl, rfl⟩ fun _ _ _ => rfl
    obtain rfl := Option.some.inj hb
    exact hg.2
  | intr t =>
    simp only [Virtio.step] at hs
    split_ifs at hs with hg
    obtain rfl := Option.some.inj hs
    have hpc := eq_idle hg
    exact h.quiet' (h.control.keep .intrAcquire rfl ⟨rfl, rfl⟩ (fun _ hb => (by cases hb))
      (by rw [hpc]; rfl) (.inl ⟨by simp, .inl ⟨rfl, rfl⟩⟩)) (call_of_move rfl (by rw [hpc]; rfl))
      ⟨rfl, rfl, rfl, rfl⟩ fun _ _ _ => rfl
  | turn t =>
    simp only [Virtio.step] at hs
    split_ifs at hs
    exact h.turn hs
  | wake t =>
    obtain rfl := Option.some.inj hs
    exact h.quiet' ⟨h.control.locked, h.control.buf, h.control.body⟩ rfl ⟨rfl, rfl, rfl, rfl⟩
      fun _ _ _ => rfl
  | take => exact (h.take hs).1
  | serve j => exact (h.serve hs).1
  | publish => exact h.publish hs

/-- What a step does to the flags: nothing, or it formats a request, or it is a round of the
handler for a request that the device has completed. -/
inductive Effect (s s' : State T B α) : Prop where
  | none (hin : s'.inDisk = s.inDisk) (hissued : s'.hist.issued = s.hist.issued)
    (hcleared : s'.hist.cleared = s.hist.cleared)
  | issue (b : B) (hin : s'.inDisk = update s.inDisk b true)
    (hissued : s'.hist.issued = update s.hist.issued b (s.hist.issued b + 1))
    (hcleared : s'.hist.cleared = s.hist.cleared)
  | clear (b : B) (hdone : Done s b) (hon : s.inDisk b = true)
    (hin : s'.inDisk = update s.inDisk b false) (hissued : s'.hist.issued = s.hist.issued)
    (hcleared : s'.hist.cleared = update s.hist.cleared b (s.hist.cleared b + 1))

lemma effect_of_turn (h : Protocol s) (hs : Virtio.turn s t = some s') : Effect s s' := by
  cases hpc : s.pc t with
  | alloc b write =>
    rw [Virtio.turn, hpc] at hs
    obtain ⟨i, j, k, -, -, halloc⟩ | ⟨d, -, halloc⟩ := alloc3Desc_spec s.disk
    all_goals
      simp only [halloc] at hs
      cases hs
      try split_ifs
      all_goals exact .none rfl rfl rfl
  | format b write idx =>
    rw [Virtio.turn, hpc] at hs
    obtain rfl := Option.some.inj hs
    exact .issue b rfl rfl rfl
  | free b write idx =>
    simp only [Virtio.turn, hpc, Option.map_eq_some_iff] at hs
    obtain ⟨d, -, rfl⟩ := hs
    exact .none rfl rfl rfl
  | intrBody =>
    obtain ⟨u, k, -, -, hon, hdone, -, hcomplete⟩ := h.complete_spec (h.control.body t hpc)
    simp only [Virtio.turn, hpc, hcomplete, Option.map_some] at hs
    obtain rfl := Option.some.inj hs
    exact .clear k.b hdone hon rfl rfl rfl
  | _ =>
    simp only [Virtio.turn, hpc, Virtio.acquire] at hs
    try split_ifs at hs
    all_goals cases hs
    all_goals exact .none rfl rfl rfl

lemma effect_of_step (h : Protocol s) {a : Act T B α} (hs : Virtio.step s a = some s') :
    Effect s s' := by
  cases a with
  | turn t =>
    simp only [Virtio.step] at hs
    split_ifs at hs
    exact h.effect_of_turn hs
  | take | serve j =>
    simp only [Virtio.step, Virtio.take, Virtio.serve] at hs
    split_ifs at hs
    obtain ⟨r, -, rfl⟩ := Option.map_eq_some_iff.mp hs
    refine .none ?_ rfl rfl
    first
      | rfl
      | simp only [transfer]
        split_ifs <;> rfl
  | _ =>
    simp only [Virtio.step, Virtio.publish] at hs
    try split_ifs at hs
    all_goals cases hs
    all_goals exact .none rfl rfl rfl

/-- `issued` counts how often `b->disk` goes from 0 to 1 and `cleared` how often it goes from
1 to 0, which needs the last request for `b` completed. -/
lemma counts_of_step (h : Protocol s) {a : Act T B α} (hs : Virtio.step s a = some s') (b : B) :
    s'.hist.issued b =
      s.hist.issued b + (if s.inDisk b = false ∧ s'.inDisk b = true then 1 else 0) ∧
    s'.hist.cleared b =
      s.hist.cleared b + (if s.inDisk b = true ∧ s'.inDisk b = false then 1 else 0) ∧
    (s.inDisk b = true → s'.inDisk b = false → s.hist.completed b = s.hist.issued b) := by
  have hissued := h.flags.issued b
  have hissued' := (h.step hs).flags.issued b
  obtain ⟨hin, hi, hc⟩ | ⟨b', hin, hi, hc⟩ | ⟨b', hdone, hon, hin, hi, hc⟩ := h.effect_of_step hs
  · rw [hin, hi, hc]
    simp +contextual
  · rw [hin, hi, hc] at hissued'
    rw [hin, hi, hc]
    by_cases hb : b = b'
    · subst hb
      cases hoff : s.inDisk b
      · simp
      · simp [hoff] at hissued hissued'
        omega
    · simp +contextual [hb]
  · have hcompleted := h.flags.done b'  hdone
    rw [hin, hi, hc]
    by_cases hb : b = b'
    · subst hb
      simp_all
    · simp +contextual [hb]

omit [DecidableEq T] [DecidableEq B] in
lemma length_chain (t : T) (h : s.chain t ≠ []) : (s.chain t).length = 3 := by
  cases hk : s.call t with
  | none => simp [State.chain, hk] at h
  | some k => simp [State.chain, hk, Call.chain]

omit [DecidableEq T] [DecidableEq B] in
lemma counts_le (h : Protocol s) (b : B) :
    s.hist.cleared b ≤ s.hist.completed b ∧ s.hist.completed b ≤ s.hist.issued b := by
  have hissued := h.flags.issued b
  by_cases hd : Done s b
  · have hcompleted := h.flags.done b hd
    obtain ⟨t, k, hk, rfl, hm⟩ := hd
    have hon := (h.inDisk_iff hk).mpr (.inr (.inr (completed_subset hm)))
    rw [hon, Bool.toNat_true] at hissued
    omega
  · have hcompleted := h.flags.notDone b hd
    omega

end Protocol

theorem protocol_of_exec {blockno : B → BitVec 32} {data : B → α} {blocks : BitVec 64 → α}
    {run : List (Act T B α)} (h : Runs.exec step (init blockno data blocks) run = some s) :
    Protocol s :=
  Runs.invariant (fun _ _ _ hs ha => Protocol.step hs ha) (protocol_init blockno data blocks) h

/-- In every state of every run of the driver and the device:
the chains of the requests in flight are disjoint triples of the descriptors in use;
`alloc3_desc` takes three free descriptors or leaves `free[]` as it is, and does not panic;
`free_chain` gives back exactly the chain of its request, and does not panic;
the entry of the avail ring that is about to be written is none that the device has to take
yet, and the device takes what was submitted in order; the handler finds a status of 0 and a
buffer; `b->disk` goes to 0 only once the last request for `b` is completed; and for each
buffer as many requests were completed as issued, and `b->disk` cleared as often, but for the
one that is in flight while `b->disk` is 1. -/
theorem virtio_disk_protocol (blockno : B → BitVec 32) (data : B → α) (blocks : BitVec 64 → α)
    (run : List (Act T B α)) (s : State T B α)
    (h : Runs.exec step (init blockno data blocks) run = some s) :
    ((∀ t, s.chain t ≠ [] → (s.chain t).length = 3 ∧ (s.chain t).Nodup) ∧
      (∀ t u i, i ∈ s.chain t → i ∈ s.chain u → t = u) ∧
      ∀ i, s.disk.free i = true ↔ ∀ t, i ∉ s.chain t) ∧
    ((∃ idx d, alloc3Desc s.disk = some (d, some idx) ∧ idx.length = 3 ∧ idx.Nodup ∧
        ∀ i, (i ∈ idx → s.disk.free i = true) ∧
          (d.free i = true ↔ s.disk.free i = true ∧ i ∉ idx)) ∨
      ∃ d, alloc3Desc s.disk = some (d, none) ∧ d.free = s.disk.free) ∧
    (∀ t b write idx, s.pc t = .free b write idx →
      ∃ d, finish s.disk idx.1 = some d ∧
        ∀ i, d.free i = true ↔ s.disk.free i = true ∨ i ∈ s.chain t) ∧
    ((∀ t b write idx, s.pc t = .ring b write idx →
        ∀ k < size s.dev.lastAvail s.disk.availIdx,
          (s.dev.lastAvail.toNat + k) % NUM ≠ cell NUM s.disk.availIdx) ∧
      s.hist.submitted = s.hist.taken ++ s.queued) ∧
    (∀ t, s.pc t = .intrBody → (complete s).isSome) ∧
    (∀ a s', step s a = some s' → ∀ b,
      s'.hist.issued b =
        s.hist.issued b + (if s.inDisk b = false ∧ s'.inDisk b = true then 1 else 0) ∧
      s'.hist.cleared b =
        s.hist.cleared b + (if s.inDisk b = true ∧ s'.inDisk b = false then 1 else 0) ∧
      (s.inDisk b = true → s'.inDisk b = false → s.hist.completed b = s.hist.issued b)) ∧
    ∀ b, s.hist.issued b = s.hist.cleared b + (s.inDisk b).toNat ∧
      s.hist.cleared b ≤ s.hist.completed b ∧ s.hist.completed b ≤ s.hist.issued b := by
  have hI : Protocol s := protocol_of_exec h
  refine ⟨⟨fun t ht => ⟨Protocol.length_chain t ht, hI.chains.nodup t⟩, hI.chains.disjoint,
    hI.chains.free⟩, ?_, fun t b write idx hpc => ?_, ⟨fun t b write idx hpc k hk => ?_,
    hI.rings.order⟩, fun t hpc => ?_, fun a s' hs b => hI.counts_of_step hs b,
    fun b => ⟨hI.flags.issued b, hI.counts_le b⟩⟩
  · obtain ⟨i, j, k, hnodup, hfree, halloc⟩ | ⟨d, hd, halloc⟩ := alloc3Desc_spec s.disk
    · refine .inl ⟨_, _, halloc, rfl, hnodup, fun l => ⟨hfree l, ?_⟩⟩
      by_cases hl : l ∈ [i, j, k] <;> simp [hl]
    · refine .inr ⟨d, halloc, funext fun i => ?_⟩
      rw [Bool.eq_iff_iff, hd.free i]
      simp
  · have hk := Protocol.call_eq hpc
    obtain ⟨d, hd, hback⟩ := hI.finish_spec hk rfl
    refine ⟨d, hd, fun i => ?_⟩
    rw [hback.free, Protocol.chain_of_call hk, or_comm]
  · have hroom := lt_of_le_of_lt Protocol.size_queued
      (hI.length_outstanding_lt (Protocol.call_eq hpc) (by simp))
    exact cell_ne_producer cap_dvd hk hroom
  · obtain ⟨u, k, -, -, -, -, -, hcomplete⟩ := hI.complete_spec (hI.control.body t hpc)
    rw [hcomplete]
    rfl

/-- One thread reads block 5, which the device completes, and another runs the handler. -/
def readRun : List (Act Bool Unit ℕ) :=
  List.flatten [[.bget false () 5, .rw false () false], List.replicate 6 (.turn false),
    [.take, .serve 0, .publish, .intr true], List.replicate 4 (.turn true),
    List.replicate 3 (.turn false)]

theorem virtio_disk_protocol_read :
    ∃ s : State Bool Unit ℕ,
      Runs.exec step (init (fun _ => 0) (fun _ => 0) fun i => i.toNat + 1) readRun = some s ∧
      s.data () = 11 ∧ s.inDisk () = false ∧ s.hist.cleared () = 1 ∧
      s.hist.issued () = s.hist.cleared () + (s.inDisk ()).toNat := by
  have h : (Runs.exec step (init (T := Bool) (B := Unit) (fun _ => 0) (fun _ => 0)
      fun i => i.toNat + 1) readRun).map
        (fun s => (s.data (), s.inDisk (), s.hist.cleared ())) = some (11, false, 1) := by
    decide +kernel
  obtain ⟨s, hs, he⟩ := Option.map_eq_some_iff.mp h
  simp only [Prod.mk.injEq] at he
  obtain ⟨hdata, hin, hcleared⟩ := he
  exact ⟨s, hs, hdata, hin, hcleared, ((virtio_disk_protocol _ _ _ _ s hs).2.2.2.2.2.2 ()).1⟩

end Xv6.Virtio
