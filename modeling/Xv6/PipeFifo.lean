import Xv6.Pipe

/-!
# A pipe is a queue

The removed bytes followed by the buffered ones are the appended bytes, also when the
32-bit counters wrap. The bytes of a call carry its number, so that what one call of
`pipewrite` appended can be read off the history.
-/
namespace Xv6.Pipe

open Function

variable {P : Type*} {s s' : State P} {p q : P}

def buffered (s : State P) : List UInt8 := WrapRing.contents PIPESIZE s.data s.nread s.nwrite

def History.sent (h : History) (id : ℕ) : List UInt8 :=
  (h.appended.filter fun x => x.1 = id).map Prod.snd

/-- The first `i` bytes of the source were appended by the call. -/
def Sent (h : History) (c : WriteCall) : Prop :=
  (h.sent c.id).map some = (List.range c.i).map c.src

/-- The pipe holds a queue of the bytes on their way. -/
structure Queue (s : State P) : Prop where
  size : WrapRing.size s.nread s.nwrite ≤ PIPESIZE
  bytes : s.hist.removed ++ buffered s = s.hist.appended.map Prod.snd

/-- The calls of `pipewrite` that run have different numbers, and each call, running
or returned, has appended a part of its source. -/
structure Calls (s : State P) : Prop where
  ids : ∀ x ∈ s.hist.appended, x.1 < s.hist.calls
  id_lt : ∀ p l c, s.pc p = .write l c → c.id < s.hist.calls
  distinct : ∀ p q l l' c c', s.pc p = .write l c → s.pc q = .write l' c' → c.id = c'.id → p = q
  sent : ∀ p l c, s.pc p = .write l c → Sent s.hist c
  returned : ∀ x ∈ s.hist.returns, Sent s.hist x.1 ∧ x.1.id < s.hist.calls ∧
    (0 ≤ x.2 → x.2 = x.1.i) ∧ ∀ p l c, s.pc p = .write l c → c.id ≠ x.1.id

lemma pipesize_dvd : PIPESIZE ∣ 2 ^ 32 := by norm_num

lemma full_of_size (h : WrapRing.size s.nread s.nwrite = PIPESIZE) : Full s :=
  WrapRing.eq_add_of_size h

lemma sent_append (h : History) (id : ℕ) (c : WriteCall) (ch : UInt8) :
    { h with appended := h.appended ++ [(c.id, ch)] }.sent id =
      h.sent id ++ if c.id = id then [ch] else [] := by
  unfold History.sent
  rw [List.filter_append, List.map_append]
  congr 1
  split_ifs with hid
  · simp [hid]
  · simp [hid]

namespace Queue

lemma of_eq (h : Queue s) (hd : s'.data = s.data) (hr : s'.nread = s.nread)
    (hw : s'.nwrite = s.nwrite) (ha : s'.hist.appended = s.hist.appended)
    (hm : s'.hist.removed = s.hist.removed) : Queue s' := by
  refine ⟨by rw [hr, hw]; exact h.size, ?_⟩
  rw [hm, ha, ← h.bytes, buffered, buffered, hd, hr, hw]

lemma remove (h : Queue s) (hempty : ¬ Empty s) : Queue (Pipe.remove s) := by
  have hpop := WrapRing.size_pop hempty
  constructor
  · have := h.size
    show WrapRing.size (s.nread + 1#32) s.nwrite ≤ PIPESIZE
    omega
  · show (s.hist.removed ++ [s.data (WrapRing.cell PIPESIZE s.nread)]) ++
      WrapRing.contents PIPESIZE s.data (s.nread + 1#32) s.nwrite = s.hist.appended.map Prod.snd
    rw [← h.bytes, buffered, WrapRing.contents_pop pipesize_dvd hempty, List.append_assoc]
    rfl

variable [DecidableEq P]

lemma append (h : Queue s) (hfull : ¬ Full s) (c : WriteCall) (ch : UInt8) :
    Queue (Pipe.append s p c ch) := by
  have hlt : WrapRing.size s.nread s.nwrite < PIPESIZE :=
    lt_of_le_of_ne h.size fun he => hfull (full_of_size he)
  have hwrap : WrapRing.size s.nread s.nwrite + 1 < 2 ^ 32 :=
    lt_of_lt_of_le (Nat.succ_lt_succ hlt) (by norm_num)
  constructor
  · show WrapRing.size s.nread (s.nwrite + 1#32) ≤ PIPESIZE
    rw [WrapRing.size_push hwrap]
    omega
  · show s.hist.removed ++ WrapRing.contents PIPESIZE
        (update s.data (WrapRing.cell PIPESIZE s.nwrite) ch) s.nread (s.nwrite + 1#32) =
      (s.hist.appended ++ [(c.id, ch)]).map Prod.snd
    rw [WrapRing.contents_push pipesize_dvd hlt hwrap, ← List.append_assoc, List.map_append,
      ← h.bytes]
    rfl

end Queue

namespace Calls

lemma wakeup {ch : Chan} (h : Calls s) : Calls (wakeup s ch) :=
  { h with }

variable [DecidableEq P]

lemma move (h : Calls s) (pc : Pc) (hpc : s'.pc = update s.pc p pc)
    (ha : s'.hist.appended = s.hist.appended) (hc : s.hist.calls ≤ s'.hist.calls)
    (hr : s'.hist.returns = s.hist.returns)
    (hsame : ∀ l c, pc = .write l c → ∃ l', s.pc p = .write l' c) : Calls s' := by
  have hsent : ∀ c, Sent s'.hist c ↔ Sent s.hist c := fun c => by
    rw [Sent, Sent, History.sent, History.sent, ha]
  cases h
  constructor
  all_goals simp only [hpc, ha, hr, hsent, update_apply]
  all_goals grind

lemma append {l : WriteAt} {c : WriteCall} {ch : UInt8} (h : Calls s) (hp : s.pc p = .write l c)
    (hch : c.src c.i = some ch) : Calls (Pipe.append s p c ch) := by
  have hsent : ∀ c', c'.id ≠ c.id → Sent s.hist c' →
      Sent { s.hist with appended := s.hist.appended ++ [(c.id, ch)] } c' := by
    intro c' hne hs
    rw [Sent, sent_append, if_neg (Ne.symm hne), List.append_nil]
    exact hs
  have hnext : Sent { s.hist with appended := s.hist.appended ++ [(c.id, ch)] }
      { c with i := c.i + 1 } := by
    have hs := h.sent p l c hp
    rw [Sent] at hs ⊢
    rw [sent_append, if_pos rfl, List.map_append, hs, List.range_succ, List.map_append,
      List.map_singleton, List.map_singleton, hch]
  cases h
  constructor
  all_goals simp only [Pipe.append, State.goto, update_apply]
  all_goals grind

lemma writeReturn {l : WriteAt} {c : WriteCall} {r : ℤ} (h : Calls s) (hp : s.pc p = .write l c)
    (hr : 0 ≤ r → r = c.i) : Calls (Pipe.writeReturn s p c r) := by
  have hsent : ∀ c', Sent { s.hist with returns := s.hist.returns ++ [(c, r)] } c' ↔ Sent s.hist c' :=
    fun _ => Iff.rfl
  cases h
  constructor
  all_goals simp only [Pipe.writeReturn, release, State.goto, update_apply, hsent]
  all_goals grind

lemma call {c : WriteCall} (h : Calls s) (hid : c.id = s.hist.calls) (hi : c.i = 0)
    (hs : Pipe.call s p (.write .acquire c) = some s') : Calls s' := by
  unfold Pipe.call at hs
  split at hs
  swap
  · cases hs
  obtain rfl := Option.some.inj hs
  have hnew : s.hist.sent c.id = [] := by
    have hnone : s.hist.appended.filter (fun x => x.1 = c.id) = [] := by
      rw [List.filter_eq_nil_iff]
      intro x hx he
      have := h.ids x hx
      simp only [decide_eq_true_eq] at he
      omega
    rw [History.sent, hnone, List.map_nil]
  have hempty : Sent s.hist c := by
    rw [Sent, hnew, hi]
    rfl
  have hsent : ∀ c', Sent { s.hist with calls := s.hist.calls + 1 } c' ↔ Sent s.hist c' :=
    fun _ => Iff.rfl
  cases h
  constructor
  all_goals simp only [State.goto, update_apply, hsent]
  all_goals grind

end Calls

/-- What every step keeps. -/
def Fifo (s : State P) : Prop := Queue s ∧ Calls s

lemma fifo_pipealloc (junk : ℕ → UInt8) (killed : P → Bool) : Fifo (pipealloc junk killed) := by
  refine ⟨⟨?_, ?_⟩, ⟨?_, ?_, ?_, ?_, ?_⟩⟩ <;>
    simp [pipealloc, buffered, WrapRing.contents_self]

section Step

variable [DecidableEq P]

lemma Fifo.move (h : Fifo s) (pc : Pc) (hpc : s'.pc = update s.pc p pc) (hd : s'.data = s.data)
    (hr : s'.nread = s.nread) (hw : s'.nwrite = s.nwrite) (hh : s'.hist = s.hist)
    (hsame : ∀ l c, pc = .write l c → ∃ l', s.pc p = .write l' c) : Fifo s' :=
  ⟨h.1.of_eq hd hr hw (by rw [hh]) (by rw [hh]),
    h.2.move pc hpc (by rw [hh]) (by rw [hh]) (by rw [hh]) hsame⟩

lemma Fifo.acquire {pc : Pc} (h : Fifo s) (hs : Pipe.acquire s p pc = some s')
    (hsame : ∀ l c, pc = .write l c → ∃ l', s.pc p = .write l' c) : Fifo s' := by
  unfold Pipe.acquire at hs
  split at hs
  · obtain rfl := Option.some.inj hs
    exact h.move pc rfl rfl rfl rfl rfl hsame
  · cases hs

lemma Fifo.pipewrite {l : WriteAt} {c : WriteCall} (h : Fifo s) (hp : s.pc p = .write l c)
    (hs : Pipe.pipewrite s p c l = some s') : Fifo s' := by
  have hsame : ∀ m, ∀ l' c', Pc.write m c = .write l' c' → ∃ l'', s.pc p = .write l'' c' := by
    intro m l' c' he
    cases he
    exact ⟨l, hp⟩
  have hret : ∀ t : State P, Calls t → t.pc p = .write l c → Queue t → ∀ r : ℤ, (0 ≤ r → r = c.i) →
      Fifo (writeReturn t p c r) := fun t ht htp hq r hr =>
    ⟨hq.of_eq rfl rfl rfl rfl rfl, ht.writeReturn htp hr⟩
  cases l with
  | acquire => exact h.acquire hs (hsame .test)
  | test =>
    obtain rfl := Option.some.inj hs
    split_ifs
    · exact hret s h.2 hp h.1 (-1) (by omega)
    · exact h.move _ rfl rfl rfl rfl rfl (hsame .body)
    · exact h.move _ rfl rfl rfl rfl rfl (hsame .done)
  | body =>
    obtain rfl := Option.some.inj hs
    split_ifs with hfull
    · exact h.move _ rfl rfl rfl rfl rfl (hsame .sleep)
    · cases hc : c.src c.i with
      | none => exact h.move _ rfl rfl rfl rfl rfl (hsame .done)
      | some ch => exact ⟨h.1.append hfull c ch, h.2.append hp hc⟩
  | sleep =>
    obtain rfl := Option.some.inj hs
    exact h.move _ rfl rfl rfl rfl rfl (hsame .acquire)
  | done =>
    obtain rfl := Option.some.inj hs
    exact hret _ h.2.wakeup hp (h.1.of_eq rfl rfl rfl rfl rfl) c.i fun _ => rfl

lemma Fifo.piperead {l : ReadAt} {c : ReadCall} (h : Fifo s)
    (hs : Pipe.piperead s p c l = some s') : Fifo s' := by
  have hremove : ∀ (hempty : ¬ Empty s) (pc : Pc), (∀ l c, pc ≠ .write l c) →
      Fifo ((remove s).goto p pc) := fun hempty pc hpc =>
    ⟨(h.1.remove hempty).of_eq rfl rfl rfl rfl rfl,
      h.2.move pc rfl rfl le_rfl rfl fun l c he => absurd he (hpc l c)⟩
  cases l with
  | acquire => exact h.acquire hs (by simp)
  | test =>
    obtain rfl := Option.some.inj hs
    split_ifs
    · exact h.move .idle rfl rfl rfl rfl rfl (by simp)
    · exact h.move _ rfl rfl rfl rfl rfl (by simp)
    · exact h.move _ rfl rfl rfl rfl rfl (by simp)
  | sleep =>
    obtain rfl := Option.some.inj hs
    exact h.move _ rfl rfl rfl rfl rfl (by simp)
  | copy =>
    obtain rfl := Option.some.inj hs
    split_ifs with hn
    · exact hremove hn.2 _ (by simp)
    · exact hremove hn.2 _ (by simp)
    · exact h.move _ rfl rfl rfl rfl rfl (by simp)
  | done =>
    obtain rfl := Option.some.inj hs
    exact h.move .idle rfl rfl rfl rfl rfl (by simp)

lemma Fifo.pipeclose {writable : Bool} (h : Fifo s) : Fifo (Pipe.pipeclose s p writable) := by
  cases writable with
  | true | false => exact h.move .idle rfl rfl rfl rfl rfl (by simp)

lemma Fifo.call {pc : Pc} (h : Fifo s) (hpc : ∀ l c, pc ≠ .write l c)
    (hs : Pipe.call s p pc = some s') : Fifo s' := by
  unfold Pipe.call at hs
  split at hs
  · obtain rfl := Option.some.inj hs
    exact ⟨h.1.of_eq rfl rfl rfl rfl rfl,
      h.2.move pc rfl rfl (Nat.le_succ _) rfl fun l c he => absurd he (hpc l c)⟩
  · cases hs

theorem Fifo.step {a : P × Act} (h : Fifo s) (hs : Pipe.step s a = some s') : Fifo s' := by
  obtain ⟨p, act⟩ := a
  unfold Pipe.step at hs
  split at hs
  · cases hs
  cases act with
  | write src n =>
    refine ⟨?_, h.2.call rfl rfl hs⟩
    dsimp only [Pipe.call] at hs
    split at hs
    · obtain rfl := Option.some.inj hs
      exact h.1.of_eq rfl rfl rfl rfl rfl
    · cases hs
  | read dst n => exact h.call (by simp) hs
  | close writable => exact h.call (by simp) hs
  | kill =>
    obtain rfl := Option.some.inj hs
    exact ⟨h.1.of_eq rfl rfl rfl rfl rfl, ⟨h.2.ids, h.2.id_lt, h.2.distinct, h.2.sent, h.2.returned⟩⟩
  | turn =>
    dsimp only at hs
    split at hs
    · unfold turn at hs
      split at hs
      · cases hs
      · next l c hpc => exact h.pipewrite hpc hs
      · next l c hpc => exact h.piperead hs
      · exact h.acquire hs (by simp)
      · obtain rfl := Option.some.inj hs
        exact h.pipeclose
    · cases hs

/-- In every run the counters are at most `PIPESIZE` apart, the bytes removed followed
by the bytes buffered are the bytes appended, and a call of `pipewrite` that returned
`i ≥ 0` has appended the first `i` bytes of its source. -/
theorem pipe_fifo (junk : ℕ → UInt8) (killed : P → Bool) (run : List (P × Act))
    (h : Runs.exec step (pipealloc junk killed) run = some s) :
    (s.nwrite - s.nread).toNat ≤ PIPESIZE ∧
      s.hist.removed ++ buffered s = s.hist.appended.map Prod.snd ∧
      ∀ c i, (c, i) ∈ s.hist.returns → 0 ≤ i →
        (s.hist.sent c.id).map some = (List.range i.toNat).map c.src := by
  obtain ⟨hq, hc⟩ := Runs.invariant (fun _ _ _ hs ht => Fifo.step hs ht)
    (fifo_pipealloc junk killed) h
  refine ⟨hq.size, hq.bytes, fun c i hi h0 => ?_⟩
  obtain ⟨hsent, -, hret, -⟩ := hc.returned (c, i) hi
  rw [show i = c.i from hret h0, Int.toNat_natCast]
  exact hsent

/-- A writer of two bytes and a reader of one. -/
def fifoRun : List (Bool × Act) :=
  [(false, .write (fun j => some (UInt8.ofNat j)) 2)] ++ List.replicate 7 (false, .turn) ++
    [(true, .read (fun _ => true) 1)] ++ List.replicate 5 (true, .turn)

theorem pipe_fifo_two_bytes :
    ∃ s, Runs.exec step (pipealloc (fun _ => 0) fun _ => false) fifoRun = some s ∧
      s.hist.removed = [0] ∧ s.hist.appended.map Prod.snd = [0, 1] ∧
      s.hist.removed ++ buffered s = s.hist.appended.map Prod.snd := by
  have h : (Runs.exec step (pipealloc (fun _ => 0) fun _ => false) fifoRun).map
      (fun s => (s.hist.removed, s.hist.appended.map Prod.snd)) = some ([0], [0, 1]) := by
    decide +kernel
  obtain ⟨s, hs, he⟩ := Option.map_eq_some_iff.mp h
  simp only [Prod.mk.injEq] at he
  exact ⟨s, hs, he.1, he.2, (pipe_fifo _ _ _ hs).2.1⟩

end Step

end Xv6.Pipe
