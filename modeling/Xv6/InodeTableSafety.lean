import Xv6.InodeTableRefs

/-!
# Safety of the in-memory inode table

What the entries and the on-disk inodes contain, over every interleaving in which
`iget` is given named inodes. Between the decision of `iput` to free an inode and
the `iupdate` that does it, the process keeps the only reference; from then on it
writes nothing to the inode, which `ialloc` may give away again at once.
-/
namespace Xv6.InodeTable

variable {P : Type*}

/-- The process has decided to free the inode and has not yet done so. -/
def Pc.beforeFree : Pc → Option (ℕ × Ip)
  | .freeing t ip => some (t, ip)
  | .truncated t ip => some (t, ip)
  | _ => none

/-- The process has freed the inode on disk and has not finished `iput`. -/
def Pc.pastFree : Pc → Option (ℕ × Ip)
  | .freed t ip => some (t, ip)
  | .invalidated t ip => some (t, ip)
  | .dropping t ip => some (t, ip)
  | _ => none

/-- Some process is past freeing the inode of `ip` and has the only reference. -/
def LastUse (s : State P) (ip : Ip) : Prop :=
  ∃ q t, (s.pc q).pastFree = some (t, ip) ∧ (s.table ip).ref = 1

/-- The entry has the type of the on-disk inode, and all of its contents unless
the lock holder has changed them. -/
def Agrees (s : State P) (ip : Ip) : Prop :=
  (s.table ip).dino.type ≠ .free ∧ (s.disk (s.key ip)).type = (s.table ip).dino.type ∧
    ((s.table ip).dirty = false → s.disk (s.key ip) = (s.table ip).dino)

structure DataInv (s : State P) : Prop where
  last : ∀ q t ip, (s.pc q).beforeFree = some (t, ip) →
    (s.table ip).ref = 1 ∧ (s.table ip).valid = true ∧ (s.table ip).dino.nlink = 0
  clean : ∀ q t ip, (s.pc q).drops = some (t, ip) → (s.pc q).holds = some (t, ip) →
    (s.table ip).dirty = false
  lock_valid : ∀ ip q t, (s.table ip).lock = some (q, t) →
    (s.table ip).valid = true ∨ s.pc q = .loading t ip ∨ s.pc q = .invalidated t ip
  dirty_locked : ∀ ip, 0 < (s.table ip).ref → (s.table ip).dirty = true →
    (s.table ip).lock ≠ none
  coherent : ∀ ip, 0 < (s.table ip).ref → (s.table ip).valid = true →
    (∃ q t, s.pc q = .freed t ip) ∨ Agrees s ip
  quiet : ∀ ip, 0 < (s.table ip).ref → (s.disk (s.key ip)).type = .free → LastUse s ip
  claim : ∀ p dev inum, s.pc p = .claimed dev inum → (s.disk (dev, inum)).type ≠ .free ∧
    (s.disk (dev, inum)).nlink = 0 ∧
    ∀ ip, 0 < (s.table ip).ref → s.key ip = (dev, inum) → LastUse s ip
  claim_unique : ∀ p q dev inum, s.pc p = .claimed dev inum → s.pc q = .claimed dev inum → p = q

lemma Pc.drops_of_beforeFree {c : Pc} {x : ℕ × Ip} (h : c.beforeFree = some x) :
    c.drops = some x := by
  cases c <;> simp_all [Pc.beforeFree, Pc.drops]

lemma Pc.holds_of_beforeFree {c : Pc} {x : ℕ × Ip} (h : c.beforeFree = some x) :
    c.holds = some x := by
  cases c <;> simp_all [Pc.beforeFree, Pc.holds]

lemma Pc.drops_of_pastFree {c : Pc} {x : ℕ × Ip} (h : c.pastFree = some x) :
    c.drops = some x := by
  cases c <;> simp_all [Pc.pastFree, Pc.drops]

namespace DataInv

open Function

attribute [local grind =] Pc.beforeFree Pc.pastFree Pc.drops Pc.holds

variable {s s' : State P} {ip : Ip} {t : ℕ}

lemma not_pastFree (hr : RefInv s) (h : DataInv s) {r : P} {u : ℕ} {q : P}
    (hb : (s.pc r).beforeFree = some (u, ip)) : (s.pc q).pastFree ≠ some (t, ip) := by
  intro hp
  have hd := Pc.drops_of_beforeFree hb
  have hd' := Pc.drops_of_pastFree hp
  obtain ⟨k, hk, rfl, rfl⟩ := hr.pc_token r u ip (Pc.token_of_drops hd)
  obtain ⟨k', hk', rfl, hip⟩ := hr.pc_token q t _ (Pc.token_of_drops hd')
  have hkk := hr.token_of_ref_one hk hk' hip.symm (h.last r _ _ hb).1
  subst hkk
  have hqq := hr.drops_alone r _ _ hd q _ (Pc.token_of_drops hd')
  subst hqq
  cases hc : s.pc q <;> simp_all [Pc.beforeFree, Pc.pastFree]

lemma agrees_of_beforeFree (hr : RefInv s) (h : DataInv s) {q : P}
    (hb : (s.pc q).beforeFree = some (t, ip)) : Agrees s ip := by
  obtain ⟨hone, hvalid, -⟩ := h.last q t ip hb
  obtain ⟨q', t', hf⟩ | ha := h.coherent ip (by omega) hvalid
  · exact absurd (by simp [hf, Pc.pastFree]) (h.not_pastFree hr hb (q := q') (t := t'))
  · exact ha

variable {k : Token P}

/-- A process that is giving up the last token of an entry is the only one with a
usable token for it. -/
lemma false_of_usable (hr : RefInv s) {p q : P} (hk : k ∈ s.refs) (use : Usable p k)
    (idle : s.pc p = .idle) (hip : k.ip = ip) (hone : (s.table ip).ref = 1)
    (hd : (s.pc q).drops = some (t, ip)) : False := by
  obtain ⟨k', hk', rfl, hip'⟩ := hr.pc_token q t ip (Pc.token_of_drops hd)
  have hkk := hr.token_of_ref_one hk hk' (hip.trans hip'.symm) (by rwa [hip])
  subst hkk
  exact hr.not_drops_of_usable hk use idle hd

variable {p : P}

lemma not_lastUse_of_usable (hr : RefInv s) (hk : k ∈ s.refs) (use : Usable p k)
    (idle : s.pc p = .idle) : ¬ LastUse s k.ip := by
  rintro ⟨q, t, hp, hone⟩
  exact false_of_usable hr hk use idle rfl hone (Pc.drops_of_pastFree hp)

lemma not_beforeFree_of_usable (hr : RefInv s) (h : DataInv s) {p q : P} (hk : k ∈ s.refs)
    (use : Usable p k) (idle : s.pc p = .idle) (t : ℕ) : (s.pc q).beforeFree ≠ some (t, k.ip) := by
  intro hb
  exact false_of_usable hr hk use idle rfl (h.last q t _ hb).1 (Pc.drops_of_beforeFree hb)

lemma holder_eq (hr : RefInv s) {q : P} {u : ℕ} (held : (s.table ip).lock = some (p, t))
    (hh : (s.pc q).holds = some (u, ip)) : q = p := by
  have hl := hr.pc_lock q u ip hh
  rw [held] at hl
  exact (Prod.mk.inj (Option.some.inj hl)).1.symm

/-- The holder of a lock, unless it is in `iput`, shares the entry with any process
that is freeing it. -/
lemma not_lastUse_of_lock (hr : RefInv s) (held : (s.table ip).lock = some (p, t))
    (hpc : (s.pc p).drops = none) : ¬ LastUse s ip := by
  rintro ⟨q, t', hp, hone⟩
  have hd := Pc.drops_of_pastFree hp
  obtain ⟨k, hk, rfl, hip⟩ := hr.lock_token ip p t held
  obtain ⟨k', hk', rfl, hip'⟩ := hr.pc_token q t' ip (Pc.token_of_drops hd)
  have hkk := hr.token_of_ref_one hk hk' (hip.trans hip'.symm) (by rwa [hip])
  subst hkk
  obtain rfl := holder_eq hr held (hr.drops_lock q _ _ hd ip p held)
  simp [hpc] at hd

lemma not_beforeFree_of_lock (hr : RefInv s) {p q : P} {t u : ℕ}
    (held : (s.table ip).lock = some (p, t)) (hpc : (s.pc p).drops = none) :
    (s.pc q).beforeFree ≠ some (u, ip) := by
  intro hb
  obtain rfl := holder_eq hr held (Pc.holds_of_beforeFree hb)
  simp [Pc.drops_of_beforeFree hb] at hpc

/-- What a lock holder outside of `iput` finds in a valid entry. -/
lemma agrees_of_lock (hr : RefInv s) (h : DataInv s) (held : (s.table ip).lock = some (p, t))
    (hpc : (s.pc p).drops = none) (hvalid : (s.table ip).valid = true) : Agrees s ip := by
  obtain ⟨k, hk, -, rfl⟩ := hr.lock_token ip p t held
  obtain ⟨q, t', hf⟩ | ha := h.coherent _ (hr.ref_pos hk) hvalid
  · obtain rfl := holder_eq hr held (q := q) (u := t') (by simp [hf, Pc.holds])
    simp [hf, Pc.drops] at hpc
  · exact ha

lemma valid_of_lock (h : DataInv s) (held : (s.table ip).lock = some (p, t)) (idle : s.pc p = .idle) :
    (s.table ip).valid = true := by
  obtain hv | hv | hv := h.lock_valid ip p t held
  · exact hv
  · simp [idle] at hv
  · simp [idle] at hv

lemma panic (h : DataInv s) (x : Option Panic) : DataInv { s with panicked := x } :=
  { h with }

lemma setRefs (h : DataInv s) (l : List (Token P)) : DataInv { s with refs := l } :=
  { h with }

lemma addToken (h : DataInv s) (p : P) (ip : Ip) : DataInv (s.addToken p ip) :=
  { h with }

lemma unlock (h : DataInv s) (clean : (s.table ip).dirty = false) : DataInv (s.unlock ip) := by
  obtain ⟨_, _, _, _, h₅, h₆, h₇, _⟩ := h
  unfold State.unlock
  constructor <;> simp only [LastUse, Agrees, State.key, State.setEntry, update_apply] at *
  case last | clean | lock_valid | dirty_locked | claim_unique => clear h₅ h₆ h₇; grind
  all_goals grind

lemma modify (hr : RefInv s) (h : DataInv s) {d : Dinode} (idle : s.pc p = .idle)
    (held : (s.table ip).lock = some (p, t)) (type : d.type = (s.table ip).dino.type) :
    DataInv (s.modify ip d) := by
  have hbefore := fun q t' => not_beforeFree_of_lock hr (q := q) (u := t') held (by simp [idle, Pc.drops])
  have hheld := fun q u => holder_eq hr (q := q) (u := u) held
  have hidle : ∀ x, (s.pc p).drops ≠ some x := by simp [idle, Pc.drops]
  obtain ⟨_, _, _, _, h₅, h₆, h₇, _⟩ := h
  clear hr
  unfold State.modify
  constructor <;> simp only [LastUse, Agrees, State.key, State.setEntry, update_apply] at *
  case last | clean | lock_valid | dirty_locked | claim_unique => clear h₅ h₆ h₇; grind
  all_goals grind

lemma addRef (h : DataInv s) (hpos : 0 < (s.table ip).ref)
    (htype : (s.disk (s.key ip)).type ≠ .free)
    (hclaim : ∀ q dev inum, s.pc q = .claimed dev inum → s.key ip ≠ (dev, inum))
    (hbefore : ∀ q t, (s.pc q).beforeFree ≠ some (t, ip)) :
    DataInv (s.setEntry ip { s.table ip with ref := (s.table ip).ref + 1 }) := by
  obtain ⟨_, _, _, _, h₅, h₆, h₇, _⟩ := h
  constructor <;> simp only [LastUse, Agrees, State.key, State.setEntry, update_apply] at *
  case last | clean | lock_valid | dirty_locked | claim_unique => clear h₅ h₆ h₇; grind
  all_goals grind

variable {dev inum : ℕ}

lemma recycle (hr : RefInv s) (h : DataInv s) (hempty : (s.table ip).ref = 0)
    (htype : (s.disk (dev, inum)).type ≠ .free) (hclaim : ∀ q, s.pc q ≠ .claimed dev inum) :
    DataInv (s.setEntry ip { s.table ip with
      dev := dev, inum := inum, ref := 1, valid := false, dirty := false }) := by
  have hnotoken : ∀ k ∈ s.refs, k.ip ≠ ip := by
    rintro k hk rfl
    have := hr.ref_pos hk
    omega
  have hlock : (s.table ip).lock = none := by
    cases hl : (s.table ip).lock with
    | none => rfl
    | some x =>
      obtain ⟨k, hk, -, hip⟩ := hr.lock_token ip x.1 x.2 hl
      exact absurd hip (hnotoken k hk)
  have hpc : ∀ q t, (s.pc q).token ≠ some (t, ip) := by
    intro q t ht
    obtain ⟨k, hk, -, hip⟩ := hr.pc_token q t ip ht
    exact hnotoken k hk hip
  have hpast : ∀ q t, (s.pc q).pastFree ≠ some (t, ip) :=
    fun q t hp => hpc q t (Pc.token_of_drops (Pc.drops_of_pastFree hp))
  obtain ⟨_, _, _, _, h₅, h₆, h₇, _⟩ := h
  clear hr
  constructor <;> simp only [LastUse, Agrees, State.key, State.setEntry, update_apply] at *
  case last | clean | lock_valid | dirty_locked | claim_unique => clear h₅ h₆ h₇; grind
  all_goals grind

lemma idup (hr : RefInv s) (h : DataInv s) (hk : k ∈ s.refs) (use : Usable p k)
    (idle : s.pc p = .idle) : DataInv (s.idup p k.ip) := by
  have hlast := not_lastUse_of_usable hr hk use idle
  have hpos := hr.ref_pos hk
  refine (h.addRef hpos ?_ ?_ ?_).addToken p k.ip
  · exact fun htype => hlast (h.quiet _ hpos htype)
  · exact fun q dev inum hc hkey => hlast ((h.claim q dev inum hc).2.2 _ hpos hkey)
  · exact fun q t => h.not_beforeFree_of_usable hr hk use idle t

/-- `iget` of an allocated inode that nobody is just allocating or freeing. -/
lemma iget (hr : RefInv s) (h : DataInv s) (p : P) (htype : (s.disk (dev, inum)).type ≠ .free)
    (hclaim : ∀ q, s.pc q ≠ .claimed dev inum)
    (hbefore : ∀ ip q t, s.key ip = (dev, inum) → (s.pc q).beforeFree ≠ some (t, ip)) :
    DataInv (s.iget p dev inum) := by
  unfold State.iget
  split
  next ip hfind =>
    have hip := List.find?_some hfind
    simp only [decide_eq_true_eq] at hip
    obtain ⟨hpos, rfl, rfl⟩ := hip
    refine (h.addRef hpos htype ?_ fun q t => hbefore ip q t rfl).addToken p ip
    rintro q dev inum hc hkey
    obtain ⟨rfl, rfl⟩ := Prod.mk.inj hkey
    exact hclaim q hc
  next =>
    split
    next => exact h.panic _
    next ip hempty =>
      have hip := List.find?_some hempty
      simp only [decide_eq_true_eq] at hip
      exact (h.recycle hr hip htype hclaim).addToken p ip

/-- A named inode is allocated, and nobody is allocating or freeing it. -/
lemma iget_named (hr : RefInv s) (h : DataInv s) (idle : s.pc p = .idle)
    (named : Named s p (.iget dev inum)) : DataInv (s.iget p dev inum) := by
  obtain ⟨htype, hnlink⟩ | ⟨k, hk, use, hkey⟩ := named
  · refine h.iget hr p htype (fun q hc => hnlink (h.claim q dev inum hc).2.1) ?_
    rintro ip q t hkey hb
    have hagree := h.agrees_of_beforeFree hr hb
    have hdirty := h.clean q t ip (Pc.drops_of_beforeFree hb) (Pc.holds_of_beforeFree hb)
    rw [← hkey, hagree.2.2 hdirty] at hnlink
    exact hnlink (h.last q t ip hb).2.2
  · have hlast := not_lastUse_of_usable hr hk use idle
    have hpos := hr.ref_pos hk
    refine h.iget hr p ?_ ?_ ?_
    · exact fun htype => hlast (h.quiet _ hpos (hkey ▸ htype))
    · exact fun q hc => hlast ((h.claim q dev inum hc).2.2 _ hpos hkey)
    · intro ip q t hip hb
      have hone := (h.last q t ip hb).1
      have hkip := hr.unique k.ip ip hpos (by omega) (hkey.trans hip.symm)
      exact h.not_beforeFree_of_usable hr hk use idle t (hkip ▸ hb)

lemma dropRef (h : DataInv s) (hlast : ¬ LastUse s ip)
    (hbefore : ∀ q u, (s.pc q).beforeFree ≠ some (u, ip)) : DataInv (s.dropRef t ip) := by
  have hpast : ∀ q u, (s.pc q).pastFree = some (u, ip) → (s.table ip).ref ≠ 1 :=
    fun q u hp hone => hlast ⟨q, u, hp, hone⟩
  clear hlast
  obtain ⟨_, _, _, _, h₅, h₆, h₇, _⟩ := h
  unfold State.dropRef
  refine DataInv.setRefs (s := s.setEntry ip { s.table ip with ref := (s.table ip).ref - 1 }) ?_ _
  constructor <;> simp only [LastUse, Agrees, State.key, State.setEntry, update_apply] at *
  case last | clean | lock_valid | dirty_locked | claim_unique => clear h₅ h₆ h₇; grind
  all_goals grind

lemma iupdate (hr : RefInv s) (h : DataInv s) (held : (s.table ip).lock = some (p, t))
    (hagree : Agrees s ip) (hlast : ¬ LastUse s ip) : DataInv (s.iupdate ip) := by
  obtain ⟨k, hk, -, rfl⟩ := hr.lock_token ip p t held
  have hpos := hr.ref_pos hk
  have hunique := fun j hj => hr.unique j k.ip hj hpos
  obtain ⟨_, _, _, _, h₅, h₆, h₇, _⟩ := h
  clear hr
  unfold State.iupdate
  constructor <;>
    simp only [LastUse, Agrees, State.key, State.setEntry, update_apply] at *
  case last | clean | lock_valid | dirty_locked | claim_unique => clear h₅ h₆ h₇; grind
  all_goals grind

/-- The inode that `ilock` reads from disk is allocated. -/
lemma type_of_loading (hr : RefInv s) (h : DataInv s) (pc : s.pc p = .loading t ip) :
    (s.disk (s.key ip)).type ≠ .free := by
  have held := hr.pc_lock p t ip (by simp [pc, Pc.holds])
  obtain ⟨k, hk, -, rfl⟩ := hr.lock_token ip p t held
  intro htype
  exact not_lastUse_of_lock hr held (by simp [pc, Pc.drops]) (h.quiet _ (hr.ref_pos hk) htype)

/-- The freeing branch of `iput`: the lock is free, as no other token exists. -/
lemma lock_free (hr : RefInv s) (hk : k ∈ s.refs) (unused : Unused s k.id)
    (hone : (s.table k.ip).ref = 1) : (s.table k.ip).lock = none := by
  cases hl : (s.table k.ip).lock with
  | none => rfl
  | some x =>
    obtain ⟨k', hk', hid, hip⟩ := hr.lock_token k.ip x.1 x.2 hl
    have hkk := hr.token_of_ref_one hk hk' hip.symm hone
    subst hkk
    exact absurd (hid ▸ hl) (unused.2 k.ip x.1)

lemma initial (h : Initial s) : DataInv s := by
  constructor <;> simp [h.idle, h.empty, Pc.beforeFree, Pc.drops]

variable [DecidableEq P]

/-- A process moves between positions outside of `iput` and `ialloc`. -/
lemma setPc (h : DataInv s) {c : Pc} (hfrom : s.pc p = .idle) (hto : c.drops = none)
    (hclaim : ∀ dev inum, c ≠ .claimed dev inum) : DataInv (s.setPc p c) := by
  have hbefore : c.beforeFree = none := by cases c <;> simp_all [Pc.drops, Pc.beforeFree]
  have hpast : c.pastFree = none := by cases c <;> simp_all [Pc.drops, Pc.pastFree]
  have hpast' : (s.pc p).pastFree = none := by simp [hfrom, Pc.pastFree]
  obtain ⟨_, _, _, _, h₅, h₆, h₇, _⟩ := h
  constructor <;> simp only [LastUse, Agrees, State.key, State.setPc, update_apply] at *
  case last | clean | lock_valid | dirty_locked | claim_unique => clear h₅ h₆ h₇; grind
  all_goals grind

lemma ilockAcquire (h : DataInv s) (pc : s.pc p = .acquiring t ip) (free : (s.table ip).lock = none) :
    DataInv (s.ilockAcquire p t ip) := by
  have hpast : (s.pc p).pastFree = none := by simp [pc, Pc.pastFree]
  obtain ⟨_, _, _, _, h₅, h₆, h₇, _⟩ := h
  unfold State.ilockAcquire
  constructor <;>
    simp only [LastUse, Agrees, State.key, State.setPc, State.setEntry, update_apply] at *
  case last | clean | lock_valid | dirty_locked | claim_unique => clear h₅ h₆ h₇; grind
  all_goals grind

lemma ilockLoad (hr : RefInv s) (h : DataInv s) (pc : s.pc p = .loading t ip) :
    DataInv (s.ilockLoad p ip) := by
  have htype := h.type_of_loading hr pc
  have held := hr.pc_lock p t ip (by simp [pc, Pc.holds])
  have hbefore := fun q u => not_beforeFree_of_lock hr (q := q) (u := u) held (by simp [pc, Pc.drops])
  have hpast : (s.pc p).pastFree = none := by simp [pc, Pc.pastFree]
  obtain ⟨_, _, _, _, h₅, h₆, h₇, _⟩ := h
  clear hr
  unfold State.ilockLoad
  simp only [htype, if_false]
  constructor <;>
    simp only [LastUse, Agrees, State.key, State.setPc, State.setEntry, update_apply] at *
  case last | clean | lock_valid | dirty_locked | claim_unique => clear h₅ h₆ h₇; grind
  all_goals grind

lemma iputStart (hr : RefInv s) (h : DataInv s) (hk : k ∈ s.refs) (use : Usable p k)
    (idle : s.pc p = .idle) (unused : Unused s k.id) : DataInv (s.iputStart p k.id k.ip) := by
  unfold State.iputStart
  split_ifs with hfree
  · obtain ⟨hone, hval, hnlink⟩ := hfree
    rw [lock_free hr hk unused hone]
    refine DataInv.setRefs (s := (s.setEntry k.ip { s.table k.ip with lock := some (p, k.id) }).setPc
      p (.freeing k.id k.ip)) ?_ _
    have hpast : (s.pc p).pastFree = none := by simp [idle, Pc.pastFree]
    have hlock := lock_free hr hk unused hone
    obtain ⟨_, _, _, _, h₅, h₆, h₇, _⟩ := h
    clear hr
    constructor <;>
    simp only [LastUse, Agrees, State.key, State.setPc, State.setEntry, update_apply] at *
    case last | clean | lock_valid | dirty_locked | claim_unique => clear h₅ h₆ h₇; grind
    all_goals grind
  · exact h.dropRef (not_lastUse_of_usable hr hk use idle)
      (fun q u => h.not_beforeFree_of_usable hr hk use idle u)

/-- `iput` writes an inode it is about to free and moves on to `c`: it stays before
the freeing with the same type, or the inode is free on disk. -/
lemma iputWrite (hr : RefInv s) (h : DataInv s) {c : Pc} {d : Dinode}
    (hb : (s.pc p).beforeFree = some (t, ip)) (hnlink : d.nlink = 0)
    (hc : c = .truncated t ip ∧ d.type = (s.table ip).dino.type ∨ c = .freed t ip) :
    DataInv (((s.modify ip d).iupdate ip).setPc p c) := by
  have hone := (h.last p t ip hb).1
  have hunique := fun j hj => hr.unique j ip hj (by omega)
  have hagree := h.agrees_of_beforeFree hr hb
  have hpast := fun q u => h.not_pastFree hr hb (q := q) (t := u)
  have hheld := hr.pc_lock p t ip (Pc.holds_of_beforeFree hb)
  have hother : ∀ q u, (s.pc q).beforeFree = some (u, ip) → q = p :=
    fun q u hq => holder_eq hr hheld (Pc.holds_of_beforeFree hq)
  have hpc : s.pc p = .freeing t ip ∨ s.pc p = .truncated t ip := by
    cases hc : s.pc p <;> simp_all [Pc.beforeFree]
  have hquiet := h.quiet
  obtain ⟨_, _, _, _, h₅, h₆, h₇, _⟩ := h
  clear hr
  unfold State.iupdate State.modify
  constructor <;>
    simp only [LastUse, Agrees, State.key, State.setPc, State.setEntry, update_apply] at *
  case quiet =>
    intro j hpos hfree
    by_cases hj : j = ip
    · -- the inode is free on disk only if this was the second write
      subst hj
      obtain ⟨rfl, htype⟩ | rfl := hc
      · simp only [if_true] at hfree
        exact absurd (htype ▸ hfree) hagree.1
      · exact ⟨p, t, by simp [Pc.pastFree], by simpa using hone⟩
    · have hkey : ((s.table j).dev, (s.table j).inum) ≠ ((s.table ip).dev, (s.table ip).inum) :=
        fun hk => hj (hunique j (by simpa [hj] using hpos) hk)
      obtain ⟨q, u, hq, hj1⟩ := hquiet j (by simpa [hj] using hpos) (by simpa [hj, hkey] using hfree)
      have hqp : q ≠ p := by
        rintro rfl
        obtain hq' | hq' := hpc <;> simp [hq', Pc.pastFree] at hq
      exact ⟨q, u, by simpa [hqp] using hq, by simpa [hj] using hj1⟩
  case last | clean | lock_valid | dirty_locked | claim_unique => clear h₅ h₆ h₇; grind
  all_goals grind

lemma iputInvalidate (hr : RefInv s) (h : DataInv s) (pc : s.pc p = .freed t ip) :
    DataInv (s.iputInvalidate p t ip) := by
  have held := hr.pc_lock p t ip (by simp [pc, Pc.holds])
  have hbefore (q : P) (u : ℕ) (hb : (s.pc q).beforeFree = some (u, ip)) : False :=
    h.not_pastFree hr hb (q := p) (t := t) (by simp [pc, Pc.pastFree])
  obtain ⟨_, _, _, _, h₅, h₆, h₇, _⟩ := h
  clear hr
  unfold State.iputInvalidate
  constructor <;>
    simp only [LastUse, Agrees, State.key, State.setPc, State.setEntry, update_apply] at *
  case last | clean | lock_valid | dirty_locked | claim_unique => clear h₅ h₆ h₇; grind
  all_goals grind

lemma iputRelease (hr : RefInv s) (h : DataInv s) (pc : s.pc p = .invalidated t ip) :
    DataInv (s.iputRelease p t ip) := by
  have held := hr.pc_lock p t ip (by simp [pc, Pc.holds])
  have hdirty' := h.clean p t ip (by simp [pc, Pc.drops]) (by simp [pc, Pc.holds])
  obtain ⟨_, _, _, _, h₅, h₆, h₇, _⟩ := h
  clear hr
  unfold State.iputRelease State.unlock
  constructor <;>
    simp only [LastUse, Agrees, State.key, State.setPc, State.setEntry, update_apply] at *
  case last | clean | lock_valid | dirty_locked | claim_unique => clear h₅ h₆ h₇; grind
  all_goals grind

lemma iputDrop (hr : RefInv s) (h : DataInv s) (pc : s.pc p = .dropping t ip) :
    DataInv (s.iputDrop p t ip) := by
  have hbefore (q : P) (u : ℕ) (hb : (s.pc q).beforeFree = some (u, ip)) : False :=
    h.not_pastFree hr hb (q := p) (t := t) (by simp [pc, Pc.pastFree])
  obtain ⟨_, _, _, _, h₅, h₆, h₇, _⟩ := h
  clear hr
  refine DataInv.setRefs (s := (s.setEntry ip { s.table ip with
    ref := (s.table ip).ref - 1 }).setPc p .idle) ?_ _
  constructor <;>
    simp only [LastUse, Agrees, State.key, State.setPc, State.setEntry, update_apply] at *
  case last | clean | lock_valid | dirty_locked | claim_unique => clear h₅ h₆ h₇; grind
  all_goals grind

lemma ialloc (h : DataInv s) {type : FileType} (idle : s.pc p = .idle)
    (free : (s.disk (dev, inum)).type = .free) (htype : type ≠ .free) :
    DataInv (s.ialloc p dev inum type) := by
  have hpast : (s.pc p).pastFree = none := by simp [idle, Pc.pastFree]
  have hfresh : (Dinode.fresh type).type ≠ .free ∧ (Dinode.fresh type).nlink = 0 :=
    ⟨htype, rfl⟩
  cases h
  unfold State.ialloc
  constructor <;>
    simp only [LastUse, Agrees, State.key, State.setPc, update_apply] at *
  all_goals grind

/-- The `iget` at the end of `ialloc` finds the inode still allocated and unused. -/
lemma iallocGet (hr : RefInv s) (h : DataInv s) (pc : s.pc p = .claimed dev inum) :
    DataInv ((s.iget p dev inum).setPc p .idle) := by
  obtain ⟨htype, -, hlast⟩ := h.claim p dev inum pc
  have hidle : DataInv (s.setPc p .idle) := by
    have hpast : (s.pc p).pastFree = none := by simp [pc, Pc.pastFree]
    obtain ⟨_, _, _, _, h₅, h₆, h₇, _⟩ := h
    clear hr
    constructor <;> simp only [LastUse, Agrees, State.key, State.setPc, update_apply] at *
    case last | clean | lock_valid | dirty_locked | claim_unique => clear h₅ h₆ h₇; grind
    all_goals grind
  have hridle : RefInv (s.setPc p .idle) := by
    refine hr.setPc ?_ ?_ ?_ ?_ <;> simp [Pc.token, Pc.drops, Pc.holds]
  have hswap : (s.iget p dev inum).setPc p .idle = (s.setPc p .idle).iget p dev inum := by
    have hfind : (s.setPc p .idle).findEntry dev inum = s.findEntry dev inum := rfl
    have hempty : (s.setPc p .idle).findEmpty = s.findEmpty := rfl
    unfold State.iget
    rw [hfind, hempty]
    cases s.findEntry dev inum with
    | some ip => rfl
    | none => cases s.findEmpty <;> rfl
  rw [hswap]
  refine hidle.iget hridle p htype ?_ ?_
  · intro q hq
    by_cases hqp : q = p
    · simp [hqp] at hq
    · exact hqp (h.claim_unique q p dev inum (by simpa [hqp] using hq) pc)
  · intro ip q t hkey hb
    by_cases hqp : q = p
    · simp [hqp, Pc.beforeFree] at hb
    · have hb' : (s.pc q).beforeFree = some (t, ip) := by simpa [hqp] using hb
      obtain ⟨r, u, hpast, -⟩ := hlast ip (by simp [(h.last q t ip hb').1]) hkey
      exact h.not_pastFree hr hb' hpast

theorem step (hr : RefInv s) (h : DataInv s) {a : Act} (named : Named s p a) (hs : Step s p a s') :
    DataInv s' := by
  cases hs with
  | iget dev inum idle => exact h.iget_named hr idle named
  | idup k idle mem use => exact h.idup hr mem use idle
  | transfer k o idle mem own => exact h.setRefs _
  | ilockStart k idle mem use =>
    unfold State.ilockStart
    split_ifs
    · exact h.panic _
    · exact h.setPc idle rfl (by simp)
  | ilockAcquire t ip pc free => exact h.ilockAcquire pc free
  | ilockLoad t ip pc => exact h.ilockLoad hr pc
  | modify t ip d idle held type => exact h.modify hr idle held type
  | iupdate t ip idle held =>
    have hidle : (s.pc p).drops = none := by simp [idle, Pc.drops]
    exact h.iupdate hr held (h.agrees_of_lock hr held hidle (h.valid_of_lock held idle))
      (not_lastUse_of_lock hr held hidle)
  | iunlock t ip idle held clean => exact h.unlock clean
  | iputStart k idle mem use unused => exact h.iputStart hr mem use idle unused
  | iputTrunc t ip pc =>
    have hb : (s.pc p).beforeFree = some (t, ip) := by simp [pc, Pc.beforeFree]
    exact h.iputWrite hr hb (h.last p t ip hb).2.2 (.inl ⟨rfl, rfl⟩)
  | iputFree t ip pc =>
    have hb : (s.pc p).beforeFree = some (t, ip) := by simp [pc, Pc.beforeFree]
    exact h.iputWrite hr hb (h.last p t ip hb).2.2 (.inr rfl)
  | iputInvalidate t ip pc => exact h.iputInvalidate hr pc
  | iputRelease t ip pc => exact h.iputRelease hr pc
  | iputDrop t ip pc => exact h.iputDrop hr pc
  | ialloc dev inum type idle hinum free htype => exact h.ialloc idle free htype
  | iallocGet dev inum pc => exact h.iallocGet hr pc

end DataInv

section Runs

variable {s s' : State P}

variable [DecidableEq P]

lemma ReachableNamed.reachable {s : State P} (h : ReachableNamed s) : Reachable s := by
  obtain ⟨s₀, hinit, hrun⟩ := h
  refine ⟨s₀, hinit, Relation.ReflTransGen.mono ?_ _ _ hrun⟩
  rintro a b ⟨hcalm, p, act, -, hstep⟩
  exact ⟨hcalm, p, act, hstep⟩

lemma ReachableNamed.step {s : State P} (h : ReachableNamed s) (hcalm : s.panicked = none) {p : P}
    {a : Act} (hs : Step s p a s') (named : Named s p a) : ReachableNamed s' := by
  obtain ⟨s₀, hinit, hrun⟩ := h
  exact ⟨s₀, hinit, hrun.tail ⟨hcalm, p, a, named, hs⟩⟩

theorem dataInv_of_reachable {s : State P} (h : ReachableNamed s) : DataInv s := by
  obtain ⟨s₀, hinit, hrun⟩ := h
  induction hrun with
  | refl => exact .initial hinit
  | tail hrun hnext ih =>
    have hr := refInv_of_reachable (ReachableNamed.reachable ⟨s₀, hinit, hrun⟩)
    obtain ⟨-, p, a, hnamed, hstep⟩ := hnext
    exact ih.step hr hnamed hstep

/-- An inode becomes free on disk only in the second `iupdate` of `iput`. -/
lemma freed_by_iput (hr : RefInv s) (h : DataInv s) {p : P} {a : Act} (hs : Step s p a s')
    {x : ℕ × ℕ} (hx : (s.disk x).type ≠ .free) (hx' : (s'.disk x).type = .free) :
    ∃ t ip, s.pc p = .truncated t ip ∧ x = s.key ip := by
  have hlock := fun t ip (held : (s.table ip).lock = some (p, t)) (idle : s.pc p = .idle) =>
    h.agrees_of_lock hr held (by rw [idle]; rfl) (h.valid_of_lock held idle)
  have hbefore := fun t ip (pc : s.pc p = .freeing t ip) =>
    h.agrees_of_beforeFree hr (show (s.pc p).beforeFree = some (t, ip) by rw [pc]; rfl)
  simp only [Agrees, State.key] at hlock hbefore ⊢
  cases hs
  all_goals simp only [State.iget, State.idup, State.addToken, State.ilockStart, State.ilockAcquire,
    State.ilockLoad, State.modify, State.iupdate, State.unlock, State.dropRef, State.iputStart,
    State.iputTrunc, State.iputFree, State.iputInvalidate, State.iputRelease, State.iputDrop,
    State.ialloc, State.setEntry, State.setPc, State.key, Dinode.fresh, Function.update_apply] at hx'
  all_goals grind

/-- Past the freeing `iupdate`, `iput` does not write to the disk. -/
lemma disk_of_pastFree {p : P} {a : Act} (hs : Step s p a s') {t : ℕ} {ip : Ip}
    (hp : (s.pc p).pastFree = some (t, ip)) :
    s'.disk = s.disk ∧ ((s'.pc p).pastFree = some (t, ip) ∨ s'.pc p = .idle) := by
  cases hs <;> simp_all [Pc.pastFree, State.iputInvalidate, State.iputRelease, State.iputDrop,
    State.unlock, State.dropRef, State.setEntry, State.setPc]

end Runs

/-- The inode table is safe. Whatever inode numbers `iget` is given, live entries
stand for distinct inodes, `ref` counts the outstanding references, and the lock is
free when `iput` finds its own reference to be the last. If lookups are of named
inodes: an inode is truncated and freed with no links and by the holder of the last
reference; an inode that `ialloc` may take is past the last write of every `iput`
that still works on it; and the holder of a valid entry's lock sees the on-disk
inode, except an `iput` between freeing the inode and clearing `valid`. -/
theorem inode_table_safe [DecidableEq P] (s : State P) :
    (Reachable s →
      (∀ i j, 0 < (s.table i).ref → 0 < (s.table j).ref → s.key i = s.key j → i = j) ∧
      (∀ ip, (s.table ip).ref = (s.refs.filter fun k => k.ip = ip).length) ∧
      (∀ k ∈ s.refs, Unused s k.id → (s.table k.ip).ref = 1 → (s.table k.ip).valid = true →
        (s.table k.ip).dino.nlink = 0 → (s.table k.ip).lock = none)) ∧
    (ReachableNamed s →
      (∀ p t ip, (s.pc p).beforeFree = some (t, ip) →
        (s.table ip).dino.nlink = 0 ∧ (s.disk (s.key ip)).nlink = 0 ∧ (s.table ip).ref = 1 ∧
          ∃ k ∈ s.refs, k.id = t ∧ k.ip = ip ∧ k.owner = some p) ∧
      (∀ p a s', Step s p a s' → ∀ x, (s.disk x).type ≠ .free → (s'.disk x).type = .free →
        ∃ t ip, s.pc p = .truncated t ip ∧ x = s.key ip) ∧
      (∀ p t ip, (s.pc p).drops = some (t, ip) → (s.disk (s.key ip)).type = .free →
        (s.pc p).pastFree = some (t, ip)) ∧
      (∀ p a s', Step s p a s' → ∀ t ip, (s.pc p).pastFree = some (t, ip) →
        s'.disk = s.disk ∧ ((s'.pc p).pastFree = some (t, ip) ∨ s'.pc p = .idle)) ∧
      (∀ ip p t, (s.table ip).lock = some (p, t) → (s.table ip).valid = true →
        s.pc p ≠ .freed t ip → (s.table ip).dirty = false →
          (s.table ip).dino = s.disk (s.key ip))) := by
  constructor
  · intro hreach
    have hr := refInv_of_reachable hreach
    refine ⟨hr.unique, ?_, ?_⟩
    · intro ip
      rw [hr.count, List.countP_eq_length_filter]
    · intro k hk unused hone _ _
      exact DataInv.lock_free hr hk unused hone
  · intro hreach
    have hr := refInv_of_reachable hreach.reachable
    have h := dataInv_of_reachable hreach
    refine ⟨?_, fun p a s' hs x => freed_by_iput hr h hs, ?_, fun p a s' hs t ip => disk_of_pastFree hs, ?_⟩
    · intro p t ip hb
      have hd := Pc.drops_of_beforeFree hb
      obtain ⟨hone, -, hnlink⟩ := h.last p t ip hb
      have hagree := h.agrees_of_beforeFree hr hb
      have hdisk := hagree.2.2 (h.clean p t ip hd (Pc.holds_of_beforeFree hb))
      obtain ⟨k, hk, hid, hip⟩ := hr.pc_token p t ip (Pc.token_of_drops hd)
      exact ⟨hnlink, by rw [hdisk, hnlink], hone, k, hk, hid, hip, hr.drops_owner p t ip hd k hk hid⟩
    · intro p t ip hd hfree
      by_contra hpast
      have hb : (s.pc p).beforeFree = some (t, ip) := by
        cases hc : s.pc p <;> simp_all [Pc.drops, Pc.pastFree, Pc.beforeFree]
      have hagree := h.agrees_of_beforeFree hr hb
      exact hagree.1 (hagree.2.1 ▸ hfree)
    · intro ip p t hlock hvalid hfreed hdirty
      obtain ⟨k, hk, -, rfl⟩ := hr.lock_token ip p t hlock
      obtain ⟨q, u, hq⟩ | hagree := h.coherent k.ip (hr.ref_pos hk) hvalid
      · have hl := hr.pc_lock q u k.ip (by simp [hq, Pc.holds])
        rw [hlock] at hl
        obtain ⟨rfl, rfl⟩ := Prod.mk.inj (Option.some.inj hl)
        exact absurd hq hfreed
      · exact (hagree.2.2 hdirty).symm

section TwoProcesses

/-- An empty table over a disk on which every inode is a file with one link. -/
def oneLinkDisk : State Bool where
  table := fun _ => ⟨0, 0, 0, none, false, Dinode.fresh .free, false⟩
  disk := fun _ => { Dinode.fresh .file with nlink := 1 }
  pc := fun _ => .idle
  refs := []
  nextId := 0
  panicked := none

/-- Process `false` looks up inode 1 and locks it, -/
def locked : State Bool :=
  (((oneLinkDisk.iget false 1 1).ilockStart false 0 0).ilockAcquire false 0 0).ilockLoad false 0

/-- removes its last link and gives up the reference. -/
def lastPut : State Bool :=
  (((locked.modify 0 (Dinode.fresh .file)).iupdate 0).unlock 0).iputStart false 0 0

/-- `iput` frees the inode and process `true` allocates it again. -/
def reallocated : State Bool :=
  ((lastPut.iputTrunc false 0 0).iputFree false 0 0).ialloc true 1 1 .dir

def firstToken : Token Bool := ⟨0, 0, some false⟩

lemma locked_reachable : ReachableNamed locked := by
  have hinit : Initial oneLinkDisk := ⟨fun _ => ⟨rfl, rfl⟩, fun _ => rfl, rfl, rfl⟩
  have hstart : ReachableNamed oneLinkDisk := ⟨oneLinkDisk, hinit, .refl⟩
  have higet := hstart.step rfl (.iget (p := false) 1 1 rfl) (.inl ⟨by decide, by decide⟩)
  have hwait := higet.step rfl
    (.ilockStart firstToken rfl (List.mem_singleton.mpr rfl) (.inl rfl)) trivial
  have hlock := hwait.step rfl (.ilockAcquire (p := false) 0 0 rfl rfl) trivial
  exact hlock.step rfl (.ilockLoad (p := false) 0 0 rfl) trivial

lemma lastPut_reachable : ReachableNamed lastPut := by
  have hmodify := locked_reachable.step rfl
    (.modify (p := false) 0 0 (Dinode.fresh .file) rfl rfl rfl) trivial
  have hupdate := hmodify.step rfl (.iupdate (p := false) 0 0 rfl rfl) trivial
  have hunlock := hupdate.step rfl (.iunlock (p := false) 0 0 rfl rfl rfl) trivial
  have hpc : ∀ q, (((locked.modify 0 (Dinode.fresh .file)).iupdate 0).unlock 0).pc q = .idle := by
    intro q
    cases q <;> rfl
  have hlock : ∀ ip, ((((locked.modify 0 (Dinode.fresh .file)).iupdate 0).unlock 0).table ip).lock =
      none := by
    decide
  refine hunlock.step rfl
    (.iputStart firstToken rfl (List.mem_singleton.mpr rfl) (.inl rfl) ⟨?_, ?_⟩) trivial
  · intro q ip
    simp [hpc, Pc.token]
  · intro ip q
    simp [hlock]

lemma reallocated_reachable : ReachableNamed reallocated := by
  have htrunc := lastPut_reachable.step rfl (.iputTrunc (p := false) 0 0 rfl) trivial
  have hfree := htrunc.step rfl (.iputFree (p := false) 0 0 rfl) trivial
  exact hfree.step rfl (.ialloc (p := true) 1 1 .dir rfl (by decide) rfl (by decide)) trivial

end TwoProcesses

/-- While `iput` is about to truncate an inode, its reference is the last and the
inode has no links on disk. -/
theorem inode_table_safe_lastPut : Reachable lastPut ∧ ReachableNamed lastPut ∧
    (lastPut.disk (lastPut.key 0)).nlink = 0 ∧ (lastPut.table 0).ref = 1 := by
  have hsafe := (inode_table_safe lastPut).2 lastPut_reachable
  obtain ⟨-, hnlink, hone, -⟩ := hsafe.1 false 0 0 rfl
  exact ⟨lastPut_reachable.reachable, lastPut_reachable, hnlink, hone⟩

/-- An `iput` that has freed the inode holds the lock of a valid entry that no
longer agrees with the disk, where `ialloc` has given the inode away. -/
theorem iput_holds_stale_copy : ReachableNamed reallocated ∧
    (reallocated.table 0).lock = some (false, 0) ∧ (reallocated.table 0).valid = true ∧
    (reallocated.table 0).dirty = false ∧
    (reallocated.table 0).dino ≠ reallocated.disk (reallocated.key 0) := by
  refine ⟨reallocated_reachable, rfl, rfl, rfl, ?_⟩
  intro heq
  have htype : (reallocated.table 0).dino.type = (reallocated.disk (reallocated.key 0)).type := by
    rw [heq]
  exact absurd htype (by decide)

end Xv6.InodeTable
