import Xv6.VirtioSteps

/-!
# Steps of the device and of the interrupt handler

A head moves from the avail ring into the device, from there to the used ring, and
leaves it when the handler clears `b->disk`.
-/
namespace Xv6.Virtio

open Function WrapRing

variable {T B α : Type*} [DecidableEq T] [DecidableEq B]
variable {s s' : State T B α} {t : T} {k : Call B}

namespace Protocol

omit [DecidableEq T]

omit [DecidableEq B] in
/-- What the requests have in common when no thread moves and the heads on their way stay. -/
lemma of_device (h : Protocol s) (hc : Control s') (hcall : s'.call = s.call)
    (hdisk : s'.disk.free = s.disk.free ∧ s'.disk.desc = s.disk.desc ∧ s'.disk.ops = s.disk.ops ∧
      ∀ i, (s'.disk.info i).b = (s.disk.info i).b)
    (hblockno : s'.blockno = s.blockno) (hrings : Rings s') (hflags : Flags s') : Protocol s' where
  control := hc
  chains := h.chains.congr (fun i => by rw [hdisk.1]) (by funext u; rw [State.chain, hcall, State.chain])
  formatted := by
    intro u l hl hphase
    rw [hcall] at hl
    rw [sector_congr hblockno]
    exact (h.formatted u l hl hphase).congr (fun i _ => by rw [hdisk.2.1]) (by rw [hdisk.2.2.1])
      (hdisk.2.2.2 _)
  rings := hrings
  flags := hflags

lemma perm_shift (x : ℕ) (q tk c : List ℕ) : (q ++ (tk ++ [x] ++ c)).Perm (x :: q ++ (tk ++ c)) := by
  rw [List.perm_iff_count]
  intro a
  simp only [List.count_append, List.count_cons, List.count_nil]
  omega

omit [DecidableEq B] in
/-- The device takes the oldest head of the avail ring, and reads its request. -/
theorem take (h : Protocol s) (hs : take s = some s') :
    Protocol s' ∧ ∃ t k, s.call t = some k ∧ k.phase = .submitted ∧
      s'.dev.taken = s.dev.taken ++ [k.request (sector s k.b)] := by
  simp only [Virtio.take] at hs
  split_ifs at hs with hne
  obtain ⟨r, hr, rfl⟩ := Option.map_eq_some_iff.mp hs
  clear hs
  have hpop : s.queued = s.disk.availRing (cell NUM s.dev.lastAvail) ::
      contents NUM s.disk.availRing (s.dev.lastAvail + 1#16) s.disk.availIdx :=
    contents_pop cap_dvd hne
  obtain ⟨t, k, hk, hphase, hhead⟩ := h.rings.call (s.disk.availRing (cell NUM s.dev.lastAvail))
    (List.mem_append_left _ (by rw [hpop]; exact List.mem_cons_self ..))
  have hfetch := (h.formatted t k hk (by simp [hphase])).fetch
  rw [hhead, hr] at hfetch
  obtain rfl := Option.some.inj hfetch
  refine ⟨?_, t, k, hk, hphase, rfl⟩
  set s₁ : State T B α := { s with
    dev := { s.dev with
      lastAvail := s.dev.lastAvail + 1#16
      taken := s.dev.taken ++ [k.request (sector s k.b)] }
    hist := { s.hist with taken := s.hist.taken ++ [s.disk.availRing (cell NUM s.dev.lastAvail)] } }
    with hs₁
  have hqueued : s.queued = k.head :: s₁.queued := by rw [hpop, hhead]; rfl
  have hperm : s₁.outstanding.Perm s.outstanding := by
    rw [State.outstanding, State.outstanding, hqueued]
    simp only [hs₁, List.map_append, List.map_cons, List.map_nil]
    exact perm_shift ..
  refine h.of_device ⟨h.control.locked, h.control.buf, h.control.body⟩ rfl
    ⟨rfl, rfl, rfl, fun _ => rfl⟩ rfl ?_ ?_
  · refine h.rings_of_same rfl (hperm.nodup_iff.mpr h.rings.nodup) hperm.subset
      (fun _ _ _ _ => rfl) (fun _ _ _ => rfl) (fun r hr => ?_) h.rings.status ?_
    · obtain hr | hr := List.mem_append.mp hr
      · exact .inl hr
      · exact .inr ⟨t, k, hk, hphase, List.mem_singleton.mp hr⟩
    · show s.hist.submitted = s.hist.taken ++ [_] ++ s₁.queued
      rw [← hhead, List.append_assoc, List.singleton_append, ← hqueued]
      exact h.rings.order
  · exact h.flags_of_same rfl (fun i => hperm.mem_iff) rfl ⟨rfl, rfl⟩ h.flags.done h.flags.notDone

/-- The device completes a request that it has taken, which is for the buffer of the call
that submitted it. -/
theorem serve (h : Protocol s) {j : ℕ} (hs : serve s j = some s') :
    Protocol s' ∧ ∃ t k, s.call t = some k ∧ k.phase = .submitted ∧
      s.dev.taken[j]? = some (k.request (sector s k.b)) := by
  simp only [Virtio.serve] at hs
  split_ifs at hs with hwritten
  obtain ⟨r, hr, rfl⟩ := Option.map_eq_some_iff.mp hs
  clear hs
  have hmem : r ∈ s.dev.taken := List.mem_of_getElem? hr
  obtain ⟨t, k, hk, hphase, rfl⟩ := h.rings.taken r hmem
  refine ⟨?_, t, k, hk, hphase, hr⟩
  set s₁ : State T B α := { transfer s (k.request (sector s k.b)) with
    disk := { s.disk with
      info := update s.disk.info k.idx.1 { s.disk.info k.idx.1 with status := 0 }
      usedRing := update s.disk.usedRing (cell NUM s.disk.usedRingIdx) k.head }
    dev := { s.dev with taken := s.dev.taken.eraseIdx j, written := true }
    hist := { s.hist with completed := update s.hist.completed k.b (s.hist.completed k.b + 1) } }
    with hs₁
  show Protocol s₁
  obtain ⟨hpc, hblockno, hin, hvdisk, hbufLock⟩ : s₁.pc = s.pc ∧ s₁.blockno = s.blockno ∧
      s₁.inDisk = s.inDisk ∧ s₁.vdiskLock = s.vdiskLock ∧ s₁.bufLock = s.bufLock := by
    simp only [hs₁, transfer]
    split_ifs <;> exact ⟨rfl, rfl, rfl, rfl, rfl⟩
  have hcall : s₁.call = s.call := by
    funext u
    rw [State.call, hpc, State.call]
  have htaken : (k.head :: (s.dev.taken.eraseIdx j).map Request.head).Perm
      (s.dev.taken.map Request.head) := by
    obtain ⟨hj, hget⟩ := List.getElem?_eq_some_iff.mp hr
    have := (List.getElem_cons_eraseIdx_perm hj).map Request.head
    rwa [hget, List.map_cons] at this
  have hhead : k.head ∈ s.dev.taken.map Request.head :=
    htaken.subset (List.mem_cons_self ..)
  -- a taken head is not in the used ring, and leaves room there
  have hnot : k.head ∉ s.completed := by
    have hnodup := (List.nodup_append.mp h.rings.nodup).2.1
    exact fun hm => (List.nodup_append.mp hnodup).2.2 _ hhead _ hm rfl
  have hroom : size s.disk.usedIdx s.disk.usedRingIdx < NUM := by
    have hlen := h.length_outstanding_le
    have hpos : 0 < (s.dev.taken.map Request.head).length := List.length_pos_of_mem hhead
    have hsize := size_completed (s := s)
    rw [State.outstanding, List.length_append, List.length_append] at hlen
    omega
  have hcompleted : s₁.completed = s.completed ++ [k.head] := by
    have hwrite : contents NUM (update s.disk.usedRing (cell NUM s.disk.usedRingIdx) k.head)
        s.disk.usedIdx s.disk.usedRingIdx =
        contents NUM s.disk.usedRing s.disk.usedIdx s.disk.usedRingIdx :=
      contents_write cap_dvd hroom
    simp only [State.completed, hs₁, hwrite, hwritten, Bool.false_eq_true, if_false, if_true,
      List.append_nil, update_self]
  have hperm : s₁.outstanding.Perm s.outstanding := by
    rw [State.outstanding, State.outstanding, hcompleted]
    refine List.Perm.append_left _ ?_
    have hshift := perm_shift k.head ((s.dev.taken.eraseIdx j).map Request.head) s.completed []
    rw [List.append_nil, List.append_nil] at hshift
    exact hshift.trans (htaken.append_right _)
  have hinfo : s₁.disk.info = update s.disk.info k.idx.1 { s.disk.info k.idx.1 with status := 0 } := rfl
  have hcount : s₁.hist.completed = update s.hist.completed k.b (s.hist.completed k.b + 1) := rfl
  have hstatus := h.rings.status
  refine h.of_device ⟨?_, ?_, ?_⟩ hcall ⟨rfl, rfl, rfl, fun i => ?_⟩ hblockno ?_ ?_
  · rw [hpc, hvdisk]
    exact h.control.locked
  · rw [hpc, hbufLock]
    exact h.control.buf
  · rw [hpc]
    exact h.control.body
  · rw [hinfo, update_apply]
    split_ifs with hi <;> simp [hi]
  · refine h.rings_of_same hcall (hperm.nodup_iff.mpr h.rings.nodup) hperm.subset
      (fun _ _ _ _ => rfl) (fun _ _ _ => sector_congr hblockno _)
      (fun r hr => .inl (List.mem_of_mem_eraseIdx hr)) (fun i hi => ?_) h.rings.order
    rw [hinfo, update_apply]
    rw [hcompleted, List.mem_append, List.mem_singleton] at hi
    split_ifs with hik
    · rfl
    · exact h.rings.status i (hi.resolve_right fun he => hik (Fin.ext he))
  · have hbuf := fun v l (hl : s.call v = some l) => h.eq_of_buf hl hk
    have hheads := fun v l (hl : s.call v = some l) => h.eq_of_head hl hk
    obtain ⟨-, -, hdone, hnotDone⟩ := h.flags
    refine h.flags_of_same hcall (fun i => hperm.mem_iff) hin ⟨rfl, rfl⟩ ?_ ?_
    all_goals intro b
    all_goals simp only [Done, hcall, hcompleted, hcount, update_apply, List.mem_append,
      List.mem_singleton] at hdone hnotDone ⊢
    all_goals grind

omit [DecidableEq B] in
theorem publish (h : Protocol s) (hs : publish s = some s') : Protocol s' := by
  simp only [Virtio.publish] at hs
  split_ifs at hs with hwritten
  obtain rfl := Option.some.inj hs
  have hroom : size s.disk.usedIdx s.disk.usedRingIdx + 1 < 2 ^ 16 := by
    have hlen := h.length_outstanding_le
    have hsize := size_completed (s := s)
    have hle := (completed_sublist (s := s)).length_le
    have hnum : NUM = 8 := rfl
    omega
  refine h.quiet ⟨h.control.locked, h.control.buf, fun t ht he => ?_⟩ rfl rfl
    (fun t k hk hphase => (h.formatted t k hk hphase).congr (fun _ _ => rfl) rfl rfl)
    (fun _ _ _ => rfl) rfl ?_ rfl (fun _ _ _ _ => rfl) rfl rfl rfl
  · have hsize : size s.disk.usedIdx (s.disk.usedRingIdx + 1#16) =
        size s.disk.usedIdx s.disk.usedRingIdx + 1 := size_push hroom
    have hzero : size s.disk.usedIdx (s.disk.usedRingIdx + 1#16) = 0 := size_eq_zero.mpr he
    omega
  · simp only [State.completed, contents_advance cap_dvd hroom, hwritten, Bool.false_eq_true,
      if_false, if_true, List.append_nil]

/-- The handler finds the head of a submitted request whose status is 0, and clears
`b->disk` of the buffer that the request is for. -/
lemma complete_spec (h : Protocol s) (hne : s.disk.usedIdx ≠ s.disk.usedRingIdx) :
    ∃ t k, s.call t = some k ∧ k.phase = .submitted ∧ s.inDisk k.b = true ∧ Done s k.b ∧
      s.disk.usedRing (cell NUM s.disk.usedIdx) = k.head ∧
      complete s = some ({ s with
          inDisk := update s.inDisk k.b false
          disk := { s.disk with usedIdx := s.disk.usedIdx + 1#16 }
          hist := { s.hist with cleared := update s.hist.cleared k.b (s.hist.cleared k.b + 1) }
        }.wakeup (.buf k.b)) := by
  have hpop : contents NUM s.disk.usedRing _ _ = _ := contents_pop cap_dvd hne
  have hmem : s.disk.usedRing (cell NUM s.disk.usedIdx) ∈ s.completed :=
    List.mem_append_left _ (by rw [hpop]; exact List.mem_cons_self ..)
  obtain ⟨t, k, hk, hphase, hhead⟩ := h.rings.call _ (completed_subset hmem)
  rw [← hhead] at hmem
  have hstatus := h.rings.status k.idx.1 hmem
  have hbuf := (h.formatted t k hk (by simp [hphase])).buf
  refine ⟨t, k, hk, hphase, (h.inDisk_iff hk).mpr (.inr (.inr (completed_subset hmem))),
    ⟨t, k, hk, rfl, hmem⟩, hhead.symm, ?_⟩
  rw [complete]
  simp only [← hhead, Call.head, Fin.is_lt, dite_true, Fin.eta, hstatus, ne_eq, not_true_eq_false,
    if_false, hbuf, Option.map_some]

/-- A round of the handler's loop. -/
theorem handled (h : Protocol s) (hc : Control s') {u : T} (hk : s.call u = some k)
    (hne : s.disk.usedIdx ≠ s.disk.usedRingIdx)
    (hhead : s.disk.usedRing (cell NUM s.disk.usedIdx) = k.head) (hcall : s'.call = s.call)
    (hs' : s'.disk = { s.disk with usedIdx := s.disk.usedIdx + 1#16 } ∧ s'.dev = s.dev ∧
      s'.inDisk = update s.inDisk k.b false ∧
      s'.hist = { s.hist with cleared := update s.hist.cleared k.b (s.hist.cleared k.b + 1) } ∧
      s'.blockno = s.blockno) : Protocol s' := by
  obtain ⟨hdisk, hdev, hin, hhist, hblockno⟩ := hs'
  have hpop : contents NUM s.disk.usedRing _ _ = _ := contents_pop cap_dvd hne
  rw [hhead] at hpop
  have hqueued : s'.queued = s.queued := by rw [State.queued, hdisk, hdev, State.queued]
  have hcompleted : s.completed = k.head :: s'.completed := by
    rw [State.completed, hpop, State.completed, hdisk, hdev]
    rfl
  have hperm : s.outstanding.Perm (k.head :: s'.outstanding) := by
    rw [State.outstanding, State.outstanding, hcompleted, hqueued, hdev, ← List.append_assoc,
      ← List.append_assoc]
    exact List.perm_middle
  have hnodup := List.nodup_cons.mp (hperm.nodup_iff.mp h.rings.nodup)
  have hmem (i : ℕ) : i ∈ s.outstanding ↔ i = k.head ∨ i ∈ s'.outstanding := by
    rw [hperm.mem_iff, List.mem_cons]
  have hnotin : k.head ∉ s'.completed := fun hm => hnodup.1 (completed_subset hm)
  have hphase := h.submitted_of_head hk ((hmem _).mpr (.inl rfl))
  have hbuf := fun v l (hl : s.call v = some l) => h.eq_of_buf hl hk
  have hheads := fun v l (hl : s.call v = some l) => h.eq_of_head hl hk
  refine h.of_device hc hcall (by rw [hdisk]; exact ⟨rfl, rfl, rfl, fun _ => rfl⟩) hblockno ?_ ?_
  · refine h.rings_of_same hcall hnodup.2 (fun i hi => (hmem i).mpr (.inr hi))
      (fun _ _ _ _ => by rw [hdisk]) (fun _ _ _ => sector_congr hblockno _)
      (fun r hr => .inl (hdev ▸ hr)) (fun i hi => ?_) ?_
    · rw [hdisk]
      exact h.rings.status i (by rw [hcompleted]; exact List.mem_cons_of_mem _ hi)
    · rw [hhist, hqueued]
      exact h.rings.order
  · obtain ⟨hinDisk, hissued, hdone, hnotDone⟩ := h.flags
    constructor
    all_goals intro b
    all_goals simp only [Done, Active, hcall, hin, hhist, hcompleted, hmem, update_apply, List.mem_cons] at hinDisk hissued hdone hnotDone ⊢
    all_goals grind

end Protocol

end Xv6.Virtio
