import Xv6.InodeTable

/-!
# References to the in-memory inode table

The part of the table's invariant that concerns references and locks: every
reference is counted in its entry, no two live entries stand for one inode, and a
lock is held through an outstanding reference. It holds whatever inode numbers
`iget` is given.
-/
namespace Xv6.InodeTable

variable {P : Type*}

/-- The lock a process holds inside `ilock` or `iput`. -/
def Pc.holds : Pc → Option (ℕ × Ip)
  | .loading t ip => some (t, ip)
  | .freeing t ip => some (t, ip)
  | .truncated t ip => some (t, ip)
  | .freed t ip => some (t, ip)
  | .invalidated t ip => some (t, ip)
  | _ => none

/-- The token a process is giving up in `iput`. -/
def Pc.drops : Pc → Option (ℕ × Ip)
  | .freeing t ip => some (t, ip)
  | .truncated t ip => some (t, ip)
  | .freed t ip => some (t, ip)
  | .invalidated t ip => some (t, ip)
  | .dropping t ip => some (t, ip)
  | _ => none

lemma Pc.token_of_drops {c : Pc} {x : ℕ × Ip} (h : c.drops = some x) : c.token = some x := by
  cases c <;> simp_all [Pc.drops, Pc.token]

lemma Pc.token_of_holds {c : Pc} {x : ℕ × Ip} (h : c.holds = some x) : c.token = some x := by
  cases c <;> simp_all [Pc.holds, Pc.token]

/-- References, locks and processes agree. -/
structure RefInv (s : State P) : Prop where
  ids : (s.refs.map Token.id).Nodup
  fresh : ∀ k ∈ s.refs, k.id < s.nextId
  count : ∀ ip, (s.table ip).ref = (s.refs.countP fun k => k.ip = ip : ℕ)
  unique : ∀ i j, 0 < (s.table i).ref → 0 < (s.table j).ref → s.key i = s.key j → i = j
  lock_token : ∀ ip q t, (s.table ip).lock = some (q, t) → ∃ k ∈ s.refs, k.id = t ∧ k.ip = ip
  pc_token : ∀ q t ip, (s.pc q).token = some (t, ip) → ∃ k ∈ s.refs, k.id = t ∧ k.ip = ip
  pc_lock : ∀ q t ip, (s.pc q).holds = some (t, ip) → (s.table ip).lock = some (q, t)
  drops_owner : ∀ q t ip, (s.pc q).drops = some (t, ip) →
    ∀ k ∈ s.refs, k.id = t → k.owner = some q
  drops_alone : ∀ q t ip, (s.pc q).drops = some (t, ip) →
    ∀ q' ip', (s.pc q').token = some (t, ip') → q' = q
  drops_lock : ∀ q t ip, (s.pc q).drops = some (t, ip) →
    ∀ ip' q', (s.table ip').lock = some (q', t) → (s.pc q).holds = some (t, ip')

section Fields

variable (s : State P)

@[simp] lemma setEntry_table (ip j : Ip) (e : Entry P) :
    (s.setEntry ip e).table j = if j = ip then e else s.table j := by
  simp [State.setEntry, Function.update_apply]

@[simp] lemma setEntry_pc (ip : Ip) (e : Entry P) : (s.setEntry ip e).pc = s.pc := rfl

variable [DecidableEq P]

@[simp] lemma setPc_pc (p q : P) (c : Pc) :
    (s.setPc p c).pc q = if q = p then c else s.pc q := by
  simp [State.setPc, Function.update_apply]

end Fields

variable {k : Token P}

lemma countP_filter_id {l : List (Token P)} (hl : (l.map Token.id).Nodup) (hk : k ∈ l)
    (f : Token P → Bool) :
    l.countP f = (l.filter fun j => j.id ≠ k.id).countP f + if f k then 1 else 0 := by
  induction l with
  | nil => simp at hk
  | cons j l ih =>
    simp only [List.map_cons, List.nodup_cons, List.mem_map, not_exists, not_and] at hl
    obtain rfl | hk := List.mem_cons.mp hk
    · have hrest : l.filter (fun j => j.id ≠ k.id) = l := by
        refine List.filter_eq_self.mpr fun j hj => ?_
        simpa using hl.1 j hj
      rw [List.filter_cons_of_neg (by simp), hrest, List.countP_cons]
    · have hne : j.id ≠ k.id := fun he => hl.1 k hk he.symm
      rw [List.filter_cons_of_pos (by simpa using hne), List.countP_cons, List.countP_cons,
        ih hl.2 hk]
      omega

namespace RefInv

variable {s s' : State P}

lemma token_unique (h : RefInv s) {k k' : Token P} (hk : k ∈ s.refs) (hk' : k' ∈ s.refs)
    (hid : k.id = k'.id) : k = k' :=
  List.inj_on_of_nodup_map h.ids hk hk' hid

lemma ref_pos (h : RefInv s) (hk : k ∈ s.refs) : 0 < (s.table k.ip).ref := by
  rw [h.count]
  exact_mod_cast List.countP_pos_iff.mpr ⟨k, hk, by simp⟩

lemma token_of_ref_one (h : RefInv s) {k k' : Token P} (hk : k ∈ s.refs) (hk' : k' ∈ s.refs)
    (hip : k.ip = k'.ip) (hone : (s.table k.ip).ref = 1) : k = k' := by
  have hlen : (s.refs.filter fun j => j.ip = k.ip).length = 1 := by
    have hc := h.count k.ip
    rw [hone, List.countP_eq_length_filter] at hc
    exact_mod_cast hc.symm
  obtain ⟨j, hj⟩ := List.length_eq_one_iff.mp hlen
  have hmem : ∀ i ∈ s.refs, i.ip = k.ip → i = j := by
    intro i hi hip
    have : i ∈ s.refs.filter fun j => j.ip = k.ip := by simp [hi, hip]
    simpa [hj] using this
  rw [hmem k hk rfl, hmem k' hk' hip.symm]

variable {ip : Ip}

/-- A process that is giving up a token is the only one that may use it. -/
lemma not_drops_of_usable (h : RefInv s) {p q : P} (hk : k ∈ s.refs) (use : Usable p k)
    (idle : s.pc p = .idle) : (s.pc q).drops ≠ some (k.id, ip) := by
  intro hd
  have hown := h.drops_owner q _ _ hd k hk rfl
  obtain huse | huse := use
  · rw [huse] at hown
    obtain rfl := Option.some.inj hown
    simp [idle, Pc.drops] at hd
  · simp [huse] at hown

/-- A new reference to an entry that keeps its lock and stands for an inode that
no other live entry stands for. -/
lemma addToken (h : RefInv s) (p : P) {e : Entry P} (href : e.ref = (s.table ip).ref + 1)
    (hlock : e.lock = (s.table ip).lock)
    (hkey : ∀ j, j ≠ ip → 0 < (s.table j).ref → s.key j ≠ (e.dev, e.inum)) :
    RefInv ((s.setEntry ip e).addToken p ip) := by
  have htoken := fun q x => Pc.token_of_drops (c := s.pc q) (x := x)
  cases h
  constructor
  all_goals simp only [State.addToken, State.setEntry, State.key, Function.update_apply,
    List.map_cons, List.nodup_cons, List.countP_cons] at *
  all_goals first | assumption | grind

/-- `ref--` on a token through which nobody works. -/
lemma dropRef (h : RefInv s) (hk : k ∈ s.refs) (hpc : ∀ q ip, (s.pc q).token ≠ some (k.id, ip))
    (hlock : ∀ ip q, (s.table ip).lock ≠ some (q, k.id)) : RefInv (s.dropRef k.id k.ip) := by
  have hcount := fun ip => countP_filter_id h.ids hk fun j => j.ip = ip
  have hids := (List.filter_sublist (p := fun j => j.id ≠ k.id) |>.map Token.id).nodup h.ids
  have hpos := h.ref_pos hk
  have href := h.count
  cases h
  constructor
  all_goals simp only [State.dropRef, State.setEntry, State.key, Function.update_apply] at *
  case count =>
    intro ip
    rw [apply_ite Entry.ref, href, href, hcount, hcount ip]
    grind
  all_goals first | assumption | grind

/-- A token that nobody is giving up changes hands. -/
lemma setOwner (h : RefInv s) (t : ℕ) (o : Option P)
    (hfree : ∀ q ip, (s.pc q).drops ≠ some (t, ip)) :
    RefInv { s with
      refs := s.refs.map fun k => if k.id = t then { k with owner := o } else k } := by
  have hids : (s.refs.map fun k => if k.id = t then { k with owner := o } else k).map Token.id =
      s.refs.map Token.id := by
    rw [List.map_map]
    refine List.map_congr_left fun k _ => ?_
    simp only [Function.comp_apply]
    split_ifs <;> rfl
  have hcount : ∀ ip, ((s.refs.map fun k => if k.id = t then { k with owner := o } else k).countP
      fun k => k.ip = ip) = s.refs.countP fun k => k.ip = ip := by
    intro ip
    rw [List.countP_map]
    refine List.countP_congr fun k _ => ?_
    simp only [Function.comp_apply]
    split_ifs <;> rfl
  have hmem := fun j hj => List.mem_map_of_mem (f := fun k : Token P =>
    if k.id = t then { k with owner := o } else k) (a := j) (l := s.refs) hj
  cases h
  constructor
  all_goals simp only [hids, hcount] at *
  all_goals first | assumption | grind

lemma panic (h : RefInv s) (x : Option Panic) : RefInv { s with panicked := x } := { h with }

lemma iget (h : RefInv s) (p : P) (dev inum : ℕ) : RefInv (s.iget p dev inum) := by
  unfold State.iget
  split
  next ip hfind =>
    have hip := List.find?_some hfind
    simp only [decide_eq_true_eq] at hip
    obtain ⟨hpos, hdev, hinum⟩ := hip
    refine h.addToken p rfl rfl fun j hj hjpos hkey => hj ?_
    exact h.unique j ip hjpos hpos hkey
  next hfind =>
    split
    next => exact h.panic _
    next ip hempty =>
      have hip := List.find?_some hempty
      simp only [decide_eq_true_eq] at hip
      refine h.addToken p (by simp [hip]) rfl fun j _ hjpos hkey => ?_
      have hnone := List.find?_eq_none.mp hfind j (List.mem_finRange j)
      simp only [decide_eq_true_eq, not_and] at hnone
      simp only [State.key, Prod.mk.injEq] at hkey
      exact hnone hjpos hkey.1 hkey.2

lemma idup (h : RefInv s) (p : P) (hk : k ∈ s.refs) : RefInv (s.idup p k.ip) := by
  refine h.addToken p rfl rfl fun j hj hjpos hkey => hj ?_
  exact h.unique j k.ip hjpos (h.ref_pos hk) hkey

lemma initial (h : Initial s) : RefInv s := by
  constructor <;> simp [h.noRefs, h.idle, (h.empty _).1, (h.empty _).2, Pc.token, Pc.holds, Pc.drops]

lemma setEntry (h : RefInv s) {e : Entry P} (href : e.ref = (s.table ip).ref)
    (hkey : (e.dev, e.inum) = s.key ip) (hlock : e.lock = (s.table ip).lock) :
    RefInv (s.setEntry ip e) := by
  cases h
  constructor
  all_goals simp only [State.setEntry, State.key, Function.update_apply] at *
  all_goals first | assumption | grind

lemma setDisk (h : RefInv s) (d : ℕ × ℕ → Dinode) : RefInv { s with disk := d } := { h with }

lemma modify (h : RefInv s) (ip : Ip) (d : Dinode) : RefInv (s.modify ip d) :=
  h.setEntry rfl rfl rfl

lemma iupdate (h : RefInv s) (ip : Ip) : RefInv (s.iupdate ip) := by
  have hclean : RefInv (s.setEntry ip { s.table ip with dirty := false }) := h.setEntry rfl rfl rfl
  exact hclean.setDisk _

variable [DecidableEq P] {p : P}

/-- A process takes a free lock through token `t` and moves on to `c`, which is
`iput` only if the token is its own and nobody else works with it. -/
lemma lock (h : RefInv s) {t : ℕ} {c : Pc}
    (free : (s.table ip).lock = none) (htok : ∃ k ∈ s.refs, k.id = t ∧ k.ip = ip)
    (hnot : ∀ q j, (s.pc q).drops ≠ some (t, j))
    (htoken : ∀ x, c.token = some x → x = (t, ip)) (hholds : ∀ x, c.holds = some x → x = (t, ip))
    (hdrops : ∀ x, c.drops = some x → c.holds = some x ∧
      (∀ k ∈ s.refs, k.id = t → k.owner = some p) ∧ ∀ q j, (s.pc q).token ≠ some (t, j)) :
    RefInv ((s.setEntry ip { s.table ip with lock := some (p, t) }).setPc p c) := by
  have huniq := fun k k' => @token_unique _ s h k k'
  cases h
  constructor
  all_goals simp only [State.setEntry, State.setPc, State.key, Function.update_apply] at *
  all_goals first | assumption | grind

/-- Only the position of process `p` changes, to one that works with no new token
and holds the same lock. -/
lemma setPc (h : RefInv s) {c : Pc} (htoken : ∀ x, c.token = some x → (s.pc p).token = some x)
    (hdrops : ∀ x, c.drops = some x → (s.pc p).drops = some x)
    (hholds : ∀ x, c.holds = some x → (s.pc p).holds = some x)
    (hstill : ∀ x, (s.pc p).holds = some x → c.drops = some x → c.holds = some x) :
    RefInv (s.setPc p c) := by
  have hheld := fun q x => Pc.token_of_holds (c := s.pc q) (x := x)
  have hdropped := fun q x => Pc.token_of_drops (c := s.pc q) (x := x)
  cases h
  constructor
  all_goals simp only [State.setPc, State.key, Function.update_apply] at *
  all_goals first | assumption | grind

lemma unlock (h : RefInv s) {t : ℕ} {c : Pc} (held : (s.table ip).lock = some (p, t))
    (htoken : c.token = (s.pc p).token) (hdrops : c.drops = (s.pc p).drops)
    (hholds : c.holds = none) (hheld : ∀ t' j, (s.pc p).holds = some (t', j) → j = ip) :
    RefInv ((s.unlock ip).setPc p c) := by
  cases h
  constructor
  all_goals simp only [State.unlock, State.setEntry, State.setPc, State.key,
    Function.update_apply] at *
  all_goals first | assumption | grind

/-- A process starts to wait for a lock through a token that it may use. -/
lemma acquiring (h : RefInv s) (hk : k ∈ s.refs) (use : Usable p k) (idle : s.pc p = .idle) :
    RefInv (s.setPc p (.acquiring k.id k.ip)) := by
  have hnot : ∀ q ip, (s.pc q).drops ≠ some (k.id, ip) := fun q ip =>
    h.not_drops_of_usable hk use idle
  cases h
  constructor
  all_goals simp only [State.setPc, State.key, Function.update_apply] at *
  all_goals first | assumption | grind [Pc.token, Pc.drops, Pc.holds]

/-- The freeing branch of `iput` and the plain `ref--`. -/
lemma iputStart (h : RefInv s) (hk : k ∈ s.refs) (unused : Unused s k.id) :
    RefInv (s.iputStart p k.id k.ip) := by
  have hnot : ∀ q j, (s.pc q).drops ≠ some (k.id, j) :=
    fun q j hd => unused.1 q j (Pc.token_of_drops hd)
  unfold State.iputStart
  split_ifs with hfree
  · split
    next => exact h.panic _
    next hlock =>
      have howned := h.setOwner k.id (some p) hnot
      refine howned.lock hlock ?_ hnot ?_ ?_ ?_
      · exact ⟨_, List.mem_map_of_mem hk, by simp⟩
      · simp [Pc.token]
      · simp [Pc.holds]
      · intro x hx
        refine ⟨by simpa [Pc.drops, Pc.holds] using hx, ?_, unused.1⟩
        intro j hj hid
        obtain ⟨i, hi, rfl⟩ := List.mem_map.mp hj
        by_cases hik : i.id = k.id
        · simp [hik]
        · simp [hik] at hid
  · exact h.dropRef hk unused.1 unused.2

theorem step (h : RefInv s) {a : Act} (hs : Step s p a s') : RefInv s' := by
  cases hs with
  | iget dev inum idle => exact h.iget p dev inum
  | idup k idle mem use => exact h.idup p mem
  | transfer k o idle mem own =>
    exact h.setOwner k.id o fun q ip => h.not_drops_of_usable mem (.inl own) idle
  | ilockStart k idle mem use =>
    unfold State.ilockStart
    split_ifs
    · exact h.panic _
    · exact h.acquiring mem use idle
  | ilockAcquire t ip pc free =>
    obtain ⟨k, hk, hid, hip⟩ := h.pc_token p t ip (by simp [pc, Pc.token])
    refine h.lock free ⟨k, hk, hid, hip⟩ ?_ ?_ ?_ ?_
    · intro q j hd
      have hq := h.drops_alone q t j hd p ip (by simp [pc, Pc.token])
      subst hq
      simp [pc, Pc.drops] at hd
    all_goals split_ifs <;> simp [Pc.token, Pc.holds, Pc.drops]
  | ilockLoad t ip pc =>
    have hentry : RefInv (s.setEntry ip { s.table ip with
        dino := s.disk (s.key ip), valid := true, dirty := false }) := h.setEntry rfl rfl rfl
    have hload := hentry.setPc (p := p) (c := .idle) (by simp [Pc.token]) (by simp [Pc.drops])
      (by simp [Pc.holds]) (by simp [Pc.drops])
    unfold State.ilockLoad
    simp only
    split_ifs
    · exact hload.panic _
    · exact hload
  | modify t ip d idle held type => exact h.modify ip d
  | iupdate t ip idle held => exact h.iupdate ip
  | iunlock t ip idle held clean =>
    have hun : RefInv ((s.unlock ip).setPc p .idle) :=
      h.unlock held (by rw [idle]) (by rw [idle]) rfl (by simp [idle, Pc.holds])
    have heq : (s.unlock ip).setPc p .idle = s.unlock ip := by
      simp [State.setPc, State.unlock, State.setEntry, ← idle]
    rwa [heq] at hun
  | iputStart k idle mem use unused => exact h.iputStart mem unused
  | iputTrunc t ip pc | iputFree t ip pc =>
    refine RefInv.setPc ((h.modify ip _).iupdate ip) ?_ ?_ ?_ ?_ <;>
      simp [State.iupdate, State.modify, pc, Pc.token, Pc.drops, Pc.holds]
  | iputInvalidate t ip pc =>
    have hentry : RefInv (s.setEntry ip { s.table ip with valid := false }) :=
      h.setEntry rfl rfl rfl
    refine hentry.setPc ?_ ?_ ?_ ?_ <;> simp [pc, Pc.token, Pc.drops, Pc.holds]
  | iputRelease t ip pc =>
    have held := h.pc_lock p t ip (by simp [pc, Pc.holds])
    refine h.unlock held ?_ ?_ rfl ?_ <;> simp [pc, Pc.token, Pc.drops, Pc.holds]
  | iputDrop t ip pc =>
    obtain ⟨k, hk, rfl, rfl⟩ := h.pc_token p t ip (by simp [pc, Pc.token])
    have hidle : RefInv (s.setPc p .idle) := by
      refine h.setPc ?_ ?_ ?_ ?_ <;> simp [Pc.token, Pc.drops, Pc.holds]
    refine hidle.dropRef hk ?_ ?_
    · intro q j ht
      by_cases hq : q = p
      · simp [hq, Pc.token] at ht
      · exact hq (h.drops_alone p k.id k.ip (by simp [pc, Pc.drops]) q j (by simpa [hq] using ht))
    · intro j q hl
      have := h.drops_lock p k.id k.ip (by simp [pc, Pc.drops]) j q hl
      simp [pc, Pc.holds] at this
  | ialloc dev inum type idle hinum free htype =>
    refine RefInv.setDisk (s := s.setPc p (.claimed dev inum)) ?_ _
    refine h.setPc ?_ ?_ ?_ ?_ <;> simp [idle, Pc.token, Pc.drops, Pc.holds]
  | iallocGet dev inum pc =>
    refine RefInv.setPc (h.iget p dev inum) ?_ ?_ ?_ ?_ <;> simp [Pc.token, Pc.drops, Pc.holds]

end RefInv

theorem refInv_of_reachable [DecidableEq P] {s : State P} (h : Reachable s) : RefInv s := by
  obtain ⟨s₀, hinit, hrun⟩ := h
  induction hrun with
  | refl => exact .initial hinit
  | tail _ hnext ih =>
    obtain ⟨-, p, a, hstep⟩ := hnext
    exact ih.step hstep

end Xv6.InodeTable
