import Xv6.Vm

/-!
# What a page table holds

A page table is seen as its pages, a multiset, and as the map from page numbers to
entries that `walk` implements. All pages of the allocator's range are on the free
list, in one of the page tables, mapped below the trapframe by one of them, or held
elsewhere; the functions of `Vm` move pages between these.
-/
namespace Xv6.Vm

open Function

/-- The number of entries at the lowest level. -/
abbrev NVPN : ℕ := 134217728

/-- The page numbers of `TRAPFRAME` and `TRAMPOLINE`. -/
abbrev trapVpn : ℕ := 67108862
abbrev trampVpn : ℕ := 67108863

/-- The page that an entry points to. -/
def child (mem : ℕ → Fin 512 → Word) (q : ℕ) (i : Fin 512) : Option ℕ :=
  if Pte.valid (mem q i) then some (Pte.ppn (mem q i)) else none

/-- The index of a page number at a level. -/
def index (level v : ℕ) : Fin 512 := Fin.ofNat _ (v / 512 ^ level)

/-- The page-table page with the entry of a page number. -/
def leafTable (mem : ℕ → Fin 512 → Word) (r v : ℕ) : Option ℕ :=
  Radix.descend (child mem) r [index 2 v, index 1 v]

/-- The valid entry of a page number. -/
def lookup (mem : ℕ → Fin 512 → Word) (r v : ℕ) : Option Word :=
  if v < NVPN then
    (leafTable mem r v).bind fun q =>
      if Pte.valid (mem q (index 0 v)) then some (mem q (index 0 v)) else none
  else
    none

/-- The page-table pages. -/
def tables (mem : ℕ → Fin 512 → Word) (r : ℕ) : Multiset ℕ := Radix.nodes (child mem) 2 r

/-- The page of an entry, or nothing. -/
def entryPage (o : Option Word) : Multiset ℕ := o.elim 0 fun e => {Pte.ppn e}

/-- The pages that a map gives to the process: those mapped below the trapframe. -/
def userPages (m : ℕ → Option Word) : Multiset ℕ := ∑ v ∈ Finset.range trapVpn, entryPage (m v)

/-- How pages are accounted for: which pages a page table holds through its map, how
much of that is an entry's share, and which pages there are. -/
structure Account where
  held : (ℕ → Option Word) → Multiset ℕ
  share : ℕ → Option Word → Multiset ℕ
  all : Multiset ℕ
  share_none : ∀ v, share v none = 0
  held_none : held (fun _ => none) = 0
  held_update : ∀ m v o, held (update m v o) + share v (m v) = held m + share v o
  nodup : all.Nodup
  small : ∀ pa ∈ all, pa < 2 ^ 52

/-- The pages of a page table: its own pages, and those that it holds. -/
def Account.pages (A : Account) (mem : ℕ → Fin 512 → Word) (r : ℕ) : Multiset ℕ :=
  tables mem r + A.held (lookup mem r)

/-- Entries above the lowest level only point to page-table pages. -/
def Inner (mem : ℕ → Fin 512 → Word) (r : ℕ) : Prop :=
  ∀ p q, p.length < 2 → Radix.descend (child mem) r p = some q →
    ∀ i, Pte.valid (mem q i) = true → Pte.leaf (mem q i) = false

/-- Every page is on the free list, belongs to one of the page tables `R`, or is
in `x`. -/
structure Held (A : Account) (s : State) (R x : Multiset ℕ) : Prop where
  eq : (s.freelist : Multiset ℕ) + (R.map (A.pages s.mem)).sum + x = A.all
  inner : ∀ r ∈ R, Inner s.mem r

variable {A : Account} {L : Layout} {s s' : State} {mem mem' : ℕ → Fin 512 → Word} {R x : Multiset ℕ}
  {r r' q v w pa : ℕ}

lemma px_eq_index (level va : ℕ) : px level va = index level (va / PGSIZE) := rfl

namespace Pte

lemma getLsbD_mk (pa : ℕ) (flags : BitVec 10) (i : ℕ) : (mk pa flags).getLsbD i =
    if i < 10 then flags.getLsbD i else (BitVec.ofNat 52 pa).getLsbD (i - 10) := by
  unfold mk
  rw [BitVec.getLsbD_or, BitVec.getLsbD_shiftLeft, BitVec.getLsbD_setWidth, BitVec.getLsbD_setWidth]
  split_ifs with hi
  · simp [hi, (show i < 64 by omega)]
  · have hflags : flags.getLsbD i = false := BitVec.getLsbD_of_ge _ _ (by omega)
    by_cases h64 : i < 64
    · simp [hi, h64, hflags, (show i - 10 < 64 by omega)]
    · have hbit : (BitVec.ofNat 52 pa).getLsbD (i - 10) = false :=
        BitVec.getLsbD_of_ge _ _ (by omega)
      simp [h64, hbit]

@[simp] lemma flags_mk (pa : ℕ) (flags : BitVec 10) : Pte.flags (mk pa flags) = flags := by
  apply BitVec.eq_of_getLsbD_eq
  intro i hi
  rw [Pte.flags, BitVec.getLsbD_setWidth, getLsbD_mk, if_pos hi]
  simp [hi]

lemma ppn_mk (pa : ℕ) (flags : BitVec 10) : ppn (mk pa flags) = pa % 2 ^ 52 := by
  have hshift : mk pa flags >>> 10 = (BitVec.ofNat 52 pa).setWidth 64 := by
    apply BitVec.eq_of_getLsbD_eq
    intro i hi
    rw [BitVec.getLsbD_ushiftRight, getLsbD_mk, if_neg (by omega), BitVec.getLsbD_setWidth]
    simp [hi]
  rw [ppn, hshift, BitVec.toNat_setWidth, BitVec.toNat_ofNat]
  omega

lemma valid_eq (e : Word) : valid e = (flags e).getLsbD 0 := by
  rw [valid, flags, BitVec.getLsbD_setWidth]
  rfl

@[simp] lemma valid_mk (pa : ℕ) (flags : BitVec 10) : valid (mk pa flags) = flags.getLsbD 0 := by
  rw [valid_eq, flags_mk]

@[simp] lemma valid_zero : valid 0 = false := by decide

@[simp] lemma valid_mk_or (pa : ℕ) (perm : BitVec 10) : valid (mk pa (perm ||| PTE_V)) = true := by
  rw [valid_mk, BitVec.getLsbD_or, Bool.or_eq_true]
  exact .inr (by decide)

end Pte

lemma index_inj (hv : v < NVPN) (hw : w < NVPN) (h0 : index 0 v = index 0 w)
    (h1 : index 1 v = index 1 w) (h2 : index 2 v = index 2 w) : v = w := by
  have h0 := congrArg Fin.val h0
  have h1 := congrArg Fin.val h1
  have h2 := congrArg Fin.val h2
  simp only [index, Fin.val_ofNat] at h0 h1 h2
  norm_num at h0 h1 h2
  unfold NVPN at hv hw
  omega

lemma exists_of_index (i j k : Fin 512) :
    ∃ v < NVPN, index 2 v = i ∧ index 1 v = j ∧ index 0 v = k := by
  refine ⟨i * 262144 + j * 512 + k, by unfold NVPN; omega, ?_, ?_, ?_⟩ <;>
  · apply Fin.ext
    simp only [index, Fin.val_ofNat]
    norm_num
    omega

lemma userPages_congr {m m' : ℕ → Option Word} (h : ∀ v < trapVpn, m' v = m v) :
    userPages m' = userPages m :=
  Finset.sum_congr rfl fun v hv => by rw [h v (Finset.mem_range.mp hv)]

/-- What an entry counts for. -/
def share (v : ℕ) (o : Option Word) : Multiset ℕ := if v < trapVpn then entryPage o else 0

theorem userPages_update (m : ℕ → Option Word) (v : ℕ) (o : Option Word) :
    userPages (update m v o) + share v (m v) = userPages m + share v o := by
  unfold share
  split_ifs with hv
  · have hmem : v ∈ Finset.range trapVpn := Finset.mem_range.mpr hv
    have hrest : ∑ w ∈ (Finset.range trapVpn).erase v, entryPage (update m v o w) =
        ∑ w ∈ (Finset.range trapVpn).erase v, entryPage (m w) :=
      Finset.sum_congr rfl fun w hw => by rw [update_of_ne (Finset.ne_of_mem_erase hw)]
    rw [userPages, userPages, ← Finset.add_sum_erase _ _ hmem,
      ← Finset.add_sum_erase _ (fun w => entryPage (m w)) hmem, hrest, update_self]
    abel
  · rw [add_zero, add_zero]
    exact userPages_congr fun w hw => update_of_ne (by omega) ..

lemma mem_userPages {m : ℕ → Option Word} {e : Word} (hv : v < trapVpn) (he : m v = some e) :
    Pte.ppn e ∈ userPages m := by
  rw [userPages, Multiset.mem_sum]
  exact ⟨v, Finset.mem_range.mpr hv, by rw [he]; exact Multiset.mem_singleton_self _⟩

lemma userPages_none {m : ℕ → Option Word} (h : ∀ v, m v = none) : userPages m = 0 :=
  Finset.sum_eq_zero fun v _ => by rw [h v]; rfl

-- a sum over the whole address space is never unfolded by unification
attribute [irreducible] userPages

/-- The pages that `kinit` frees. -/
def ram (L : Layout) : Multiset ℕ := (Finset.Ico L.lo physTop).val

lemma mem_ram : pa ∈ ram L ↔ L.lo ≤ pa ∧ pa < physTop := by
  rw [ram, Finset.mem_val, Finset.mem_Ico]

/-- A page table holds the pages it maps below the trapframe. -/
def Account.user (L : Layout) : Account where
  held := userPages
  share := Vm.share
  all := ram L
  share_none := fun v => by simp [Vm.share, entryPage]
  held_none := userPages_none fun _ => rfl
  held_update := userPages_update
  nodup := Finset.nodup _
  small := fun pa hpa => (mem_ram.mp hpa).2.trans (by decide)

@[simp] lemma Account.held_user (m : ℕ → Option Word) : (Account.user L).held m = userPages m := rfl

lemma Account.all_user : (Account.user L).all = ram L := rfl

abbrev Own (L : Layout) (s : State) (R x : Multiset ℕ) : Prop := Held (.user L) s R x

lemma child_congr (h : mem' q = mem q) : child mem' q = child mem q := by
  funext i
  rw [child, child, h]

lemma leafTable_mem (h : leafTable mem r v = some q) : q ∈ tables mem r :=
  Radix.mem_nodes_of_descend le_rfl h

/-- A page table does not see changes of pages that are not its own. -/
theorem congr_of_tables (h : ∀ q ∈ tables mem r, mem' q = mem q) :
    tables mem' r = tables mem r ∧ lookup mem' r = lookup mem r ∧
      leafTable mem' r = leafTable mem r ∧ (Inner mem r → Inner mem' r) := by
  obtain ⟨htables, hdescend⟩ := Radix.congr_of_not_mem fun q hq => child_congr (h q hq)
  have hleaf (v : ℕ) : leafTable mem' r v = leafTable mem r v := hdescend _ le_rfl
  refine ⟨htables, ?_, funext hleaf, fun hinner p q hp hq => ?_⟩
  rotate_left
  · rw [hdescend p hp.le] at hq
    rw [h q (Radix.mem_nodes_of_descend hp.le hq)]
    exact hinner p q hp hq
  funext v
  unfold lookup
  rw [hleaf]
  split_ifs
  · refine Option.bind_congr fun q hq => ?_
    rw [h q (leafTable_mem hq)]
  · rfl

/-- A page at the lowest level has the entries of one block of page numbers. -/
lemma leafTable_inj (h : (tables mem r).Nodup) (hv : leafTable mem r v = some q)
    (hw : leafTable mem r w = some q) : index 2 v = index 2 w ∧ index 1 v = index 1 w := by
  have := Radix.descend_inj h le_rfl le_rfl hv hw
  simpa using this

variable {p : List (Fin 512)}

/-- A page at the lowest level is not at a higher one. -/
lemma ne_of_descend {y : ℕ} (h : (tables mem r).Nodup) (hp : p.length < 2)
    (hy : Radix.descend (child mem) r p = some y) (hq : leafTable mem r v = some q) : y ≠ q := by
  rintro rfl
  have := congrArg List.length (Radix.descend_inj h hp.le le_rfl hy hq)
  simp only [List.length_cons, List.length_nil] at this
  omega

theorem setLeaf (h : (tables mem r).Nodup) (hq : leafTable mem r v = some q) (hv : v < NVPN)
    (e : Word) (hmem' : mem' = update mem q (update (mem q) (index 0 v) e)) :
    tables mem' r = tables mem r ∧
      lookup mem' r = update (lookup mem r) v (if Pte.valid e then some e else none) ∧
      (Inner mem r → Inner mem' r) := by
  have hother (y : ℕ) (hy : y ≠ q) : mem' y = mem y := by rw [hmem', update_of_ne hy]
  obtain ⟨htables, hdescend⟩ := Radix.congr_of_bottom h rfl hq fun y _ hy => child_congr (hother y hy)
  have hleaf (w : ℕ) : leafTable mem' r w = leafTable mem r w := hdescend _ le_rfl
  refine ⟨htables, ?_, fun hinner p y hp hy => ?_⟩
  rotate_left
  · rw [hdescend p hp.le] at hy
    rw [hother y (ne_of_descend h hp hy hq)]
    exact hinner p y hp hy
  funext w
  by_cases hwv : w = v
  · subst hwv
    rw [update_self, lookup, if_pos hv, hleaf, hq, hmem', Option.bind_some, update_self, update_self]
  · rw [update_of_ne hwv, lookup, lookup, hleaf]
    split_ifs with hw
    · refine Option.bind_congr fun q' hq' => ?_
      by_cases hqq : q' = q
      · subst hqq
        obtain ⟨h2, h1⟩ := leafTable_inj h hq' hq
        have h0 : index 0 w ≠ index 0 v := fun h0 => hwv (index_inj hw hv h0 h1 h2)
        rw [hmem', update_self, update_of_ne h0]
      · rw [hother q' hqq]
    · rfl

lemma child_eq_none {i : Fin 512} (h : Pte.valid (mem q i) = false) : child mem q i = none := by
  rw [child, h]
  rfl

theorem link {i : Fin 512} {f : ℕ} (h : (tables mem r).Nodup) (hp : p.length < 2)
    (hq : Radix.descend (child mem) r p = some q) (hi : Pte.valid (mem q i) = false)
    (hf : f ∉ tables mem r) (hf52 : f < 2 ^ 52) (hzero : ∀ j, Pte.valid (mem f j) = false)
    (hmem' : mem' = update mem q (update (mem q) i (Pte.mk f PTE_V))) :
    tables mem' r = f ::ₘ tables mem r ∧ lookup mem' r = lookup mem r ∧
      (Inner mem r → Inner mem' r) ∧ ∀ p', p'.length ≤ 2 → Radix.descend (child mem') r p' =
        if p' = p ++ [i] then some f else Radix.descend (child mem) r p' := by
  have hother (y : ℕ) (hy : y ≠ q) : mem' y = mem y := by rw [hmem', update_of_ne hy]
  have hfq : f ≠ q := by
    rintro rfl
    exact hf (Radix.mem_nodes_of_descend hp.le hq)
  have hempty (j : Fin 512) : child mem' f j = none :=
    child_eq_none (by rw [hother f hfq, hzero])
  have hchild (y : ℕ) (_ : y ∈ tables mem r) (hy : y ≠ q) : child mem' y = child mem y :=
    child_congr (hother y hy)
  have hlinked : child mem' q = update (child mem q) i (some f) := by
    funext j
    rw [child, hmem', update_self]
    by_cases hj : j = i
    · rw [hj, update_self, update_self, Pte.valid_mk, if_pos (by decide), Pte.ppn_mk,
        Nat.mod_eq_of_lt hf52]
    · rw [update_of_ne hj, update_of_ne hj, child]
  have hdescend (p' : List (Fin 512)) (hp' : p'.length ≤ 2) :=
    Radix.descend_link h hp hq (child_eq_none hi) hempty hchild hlinked hp'
  refine ⟨Radix.nodes_link h hp hq (child_eq_none hi) hf hempty hchild hlinked, ?_, ?_, hdescend⟩
  rotate_left
  · intro hinner p' y hp' hy j hvalid
    rw [hdescend p' hp'.le] at hy
    split_ifs at hy with hpath
    · obtain rfl := Option.some.inj hy
      rw [hother f hfq, hzero] at hvalid
      exact absurd hvalid Bool.false_ne_true
    · by_cases hyq : y = q
      · subst hyq
        rw [hmem', update_self] at hvalid ⊢
        by_cases hj : j = i
        · rw [hj, update_self, Pte.leaf, Pte.flags_mk]
          decide
        · rw [update_of_ne hj] at hvalid ⊢
          exact hinner p y hp hq j hvalid
      · rw [hother y hyq] at hvalid ⊢
        exact hinner p' y hp' hy j hvalid
  funext v
  unfold lookup leafTable
  rw [hdescend _ le_rfl]
  split_ifs with hv hpath
  · -- the entry is in the new page, which is empty
    rw [hpath, Radix.descend_append, hq, Option.bind_some, Option.bind_some,
      Radix.descend_cons_eq_none (child_eq_none hi), hother f hfq, hzero]
    rfl
  · refine Option.bind_congr fun q' hq' => ?_
    rw [hother q' (ne_of_descend h hp hq hq').symm]
  · rfl

lemma Held.nodup (h : Held A s R x) :
    ((s.freelist : Multiset ℕ) + (R.map (A.pages s.mem)).sum + x).Nodup := by
  rw [h.eq]
  exact A.nodup

lemma Held.mem_all (h : Held A s R (pa ::ₘ x)) : pa ∈ A.all := by
  rw [← h.eq]
  simp

lemma Own.mem_ram (h : Own L s R (pa ::ₘ x)) : L.lo ≤ pa ∧ pa < physTop := Vm.mem_ram.mp h.mem_all

/-- What is freed or copied as user memory is mapped below the trapframe, and is no
trampoline or trapframe. -/
def Event.Harmless (e : Event) : Prop := e.va < TRAPFRAME ∧ e.special = false

/-- What a function leaves as it is: the pages of the page tables `R`, the processes and
the pipes; and what it frees and copies is harmless. -/
structure Others (A : Account) (R : Multiset ℕ) (s s' : State) : Prop where
  pages : ∀ r ∈ R, ∀ q ∈ A.pages s.mem r, s'.mem q = s.mem q
  proc : s'.proc = s.proc
  pipes : s'.pipes = s.pipes
  events : ∀ e ∈ s'.events, e ∈ s.events ∨ e.Harmless

namespace Others

variable {s'' : State}

lemma tables (h : Others A R s s') : ∀ r ∈ R, ∀ q ∈ tables s.mem r, s'.mem q = s.mem q :=
  fun r hr q hq => h.pages r hr q (Multiset.mem_add.mpr (.inl hq))

lemma lookup (h : Others A R s s') (hr : r ∈ R) : Vm.lookup s'.mem r = Vm.lookup s.mem r :=
  (congr_of_tables (h.tables r hr)).2.1

lemma tables_eq (h : Others A R s s') (hr : r ∈ R) : Vm.tables s'.mem r = Vm.tables s.mem r :=
  (congr_of_tables (h.tables r hr)).1

lemma pages_eq (h : Others A R s s') (hr : r ∈ R) : A.pages s'.mem r = A.pages s.mem r := by
  rw [Account.pages, Account.pages, h.tables_eq hr, h.lookup hr]

lemma sum_eq (h : Others A R s s') : (R.map (A.pages s'.mem)).sum = (R.map (A.pages s.mem)).sum := by
  rw [Multiset.map_congr rfl fun r hr => h.pages_eq hr]

lemma refl : Others A R s s := ⟨fun _ _ _ _ => rfl, rfl, rfl, fun _ he => .inl he⟩

lemma trans (h : Others A R s s') (h' : Others A R s' s'') : Others A R s s'' where
  pages := fun r hr q hq => by
    rw [h'.pages r hr q (h.pages_eq hr ▸ hq), h.pages r hr q hq]
  proc := h'.proc.trans h.proc
  pipes := h'.pipes.trans h.pipes
  events := fun e he => (h'.events e he).elim (h.events e) .inr

lemma mono {R' : Multiset ℕ} (h : Others A R s s') (hR : R' ⊆ R) : Others A R' s s' :=
  ⟨fun r hr => h.pages r (hR hr), h.proc, h.pipes, h.events⟩

end Others

/-- Pages outside the page tables may be written. -/
lemma Held.of_tables (h : Held A s R x) (ht : ∀ r ∈ R, ∀ q ∈ tables s.mem r, s'.mem q = s.mem q)
    (hfree : s'.freelist = s.freelist) : Held A s' R x := by
  refine ⟨?_, fun r hr => (congr_of_tables (ht r hr)).2.2.2 (h.inner r hr)⟩
  have hpages : (R.map (A.pages s'.mem)).sum = (R.map (A.pages s.mem)).sum := by
    refine congrArg Multiset.sum (Multiset.map_congr rfl fun r hr => ?_)
    obtain ⟨htables, hlookup, -, -⟩ := congr_of_tables (ht r hr)
    rw [Account.pages, Account.pages, htables, hlookup]
  rw [hpages, hfree]
  exact h.eq

lemma Held.of_others (h : Held A s R x) (ho : Others A R s s') (hfree : s'.freelist = s.freelist) :
    Held A s' R x := h.of_tables ho.tables hfree

lemma inner_cons (h : ∀ r' ∈ r ::ₘ R, Inner s.mem r') (ho : Others A R s s')
    (hr : Inner s.mem r → Inner s'.mem r) : ∀ r' ∈ r ::ₘ R, Inner s'.mem r' :=
  Multiset.forall_mem_cons.mpr ⟨hr (h r (Multiset.mem_cons_self r R)), fun r' hr' =>
    (congr_of_tables (ho.tables r' hr')).2.2.2 (h r' (Multiset.mem_cons_of_mem hr'))⟩

lemma mem_sum_pages (hr : r ∈ R) (hq : q ∈ A.pages mem r) : q ∈ (R.map (A.pages mem)).sum :=
  Multiset.mem_of_le (Multiset.le_sum_of_mem (Multiset.mem_map_of_mem _ hr)) hq

lemma Held.disjoint (h : Held A s (r ::ₘ R) x) :
    (tables s.mem r).Nodup ∧ ∀ q ∈ tables s.mem r, q ∉ s.freelist ∧ q ∉ x ∧
      ∀ r' ∈ R, q ∉ A.pages s.mem r' := by
  have hnodup := h.nodup
  rw [Multiset.map_cons, Multiset.sum_cons, Account.pages] at hnodup
  have hsplit : (s.freelist : Multiset ℕ) + (tables s.mem r + A.held (lookup s.mem r) +
      (R.map (A.pages s.mem)).sum) + x = tables s.mem r + (s.freelist + A.held (lookup s.mem r) +
      (R.map (A.pages s.mem)).sum + x) := by abel
  rw [hsplit, Multiset.nodup_add] at hnodup
  refine ⟨hnodup.1, fun q hq => ?_⟩
  have hrest := Multiset.disjoint_left.mp hnodup.2.2 hq
  simp only [Multiset.mem_add, Multiset.mem_coe, not_or] at hrest
  exact ⟨hrest.1.1.1, hrest.2, fun r' hr' hq' => hrest.1.2 (mem_sum_pages hr' hq')⟩

lemma Held.not_mem_pages_of_free (h : Held A s R x) (hpa : pa ∈ s.freelist) (hr : r ∈ R) :
    pa ∉ A.pages s.mem r := by
  intro hq
  have hnodup := (Multiset.nodup_add.mp h.nodup).1
  exact Multiset.disjoint_left.mp (Multiset.nodup_add.mp hnodup).2.2 hpa (mem_sum_pages hr hq)

lemma Held.not_mem_pages (h : Held A s R x) (hpa : pa ∈ x) (hr : r ∈ R) : pa ∉ A.pages s.mem r := by
  intro hq
  exact Multiset.disjoint_left.mp (Multiset.nodup_add.mp h.nodup).2.2
    (Multiset.mem_add.mpr (.inr (mem_sum_pages hr hq))) hpa

/-- A page that is not in a page table is written. -/
lemma Held.others_of_held (h : Held A s R x) (hpa : pa ∈ x) (f : Fin 512 → Word) :
    Others A R s { s with mem := update s.mem pa f } where
  pages := fun r hr q hq => by
    refine update_of_ne ?_ ..
    rintro rfl
    exact h.not_mem_pages hpa hr hq
  proc := rfl
  pipes := rfl
  events := fun _ he => .inl he

/-- An entry at the lowest level is written. The page table takes what the entry
counts for, and gives what it counted for. -/
theorem Held.setLeaf {o : Option Word} {e : Word} {y : Multiset ℕ}
    (ho : o = if Pte.valid e then some e else none) (h : Held A s (r ::ₘ R) x)
    (hx : y + A.share v o = x + A.share v (lookup s.mem r v)) (hq : leafTable s.mem r v = some q)
    (hv : v < NVPN) (hs' : s' = { s with mem := update s.mem q (update (s.mem q) (index 0 v) e) }) :
    Held A s' (r ::ₘ R) y ∧ lookup s'.mem r = update (lookup s.mem r) v o ∧ Others A R s s' := by
  subst hs' ho
  obtain ⟨hnodup, hdisj⟩ := h.disjoint
  obtain ⟨htables, hlookup, hinner⟩ := Vm.setLeaf hnodup hq hv e rfl
  have hothers : Others A R s { s with mem := update s.mem q (update (s.mem q) (index 0 v) e) } := by
    refine ⟨fun r' hr' q' hq' => update_of_ne ?_ .., rfl, rfl, fun _ he => .inl he⟩
    rintro rfl
    exact (hdisj q' (leafTable_mem hq)).2.2 r' hr' hq'
  refine ⟨⟨?_, inner_cons h.inner hothers hinner⟩, hlookup, hothers⟩
  have heq := h.eq
  rw [Multiset.map_cons, Multiset.sum_cons, Account.pages] at heq ⊢
  rw [hothers.sum_eq, htables, hlookup, ← heq]
  set o := if Pte.valid e then some e else none
  refine add_right_cancel (b := A.share v (lookup s.mem r v) + A.share v o) ?_
  calc _ = (s.freelist : Multiset ℕ) + (tables s.mem r + (R.map (A.pages s.mem)).sum) +
        (A.held (update (lookup s.mem r) v o) + A.share v (lookup s.mem r v)) +
        (y + A.share v o) := by abel
    _ = _ := by
      rw [A.held_update, hx]
      abel

/-- An empty page from `x` is linked into the page table. -/
theorem Held.link {i : Fin 512} {f : ℕ} (h : Held A s (r ::ₘ R) (f ::ₘ x)) (hp : p.length < 2)
    (hq : Radix.descend (child s.mem) r p = some q) (hi : Pte.valid (s.mem q i) = false)
    (hzero : ∀ j, Pte.valid (s.mem f j) = false)
    (hs' : s' = { s with mem := update s.mem q (update (s.mem q) i (Pte.mk f PTE_V)) }) :
    Held A s' (r ::ₘ R) x ∧ lookup s'.mem r = lookup s.mem r ∧ Others A R s s' ∧
      ∀ p', p'.length ≤ 2 → Radix.descend (child s'.mem) r p' =
        if p' = p ++ [i] then some f else Radix.descend (child s.mem) r p' := by
  subst hs'
  obtain ⟨hnodup, hdisj⟩ := h.disjoint
  have hf : f ∉ tables s.mem r := fun hf => (hdisj f hf).2.1 (Multiset.mem_cons_self f x)
  have hf52 : f < 2 ^ 52 := A.small f h.mem_all
  obtain ⟨htables, hlookup, hinner, hdescend⟩ := Vm.link hnodup hp hq hi hf hf52 hzero rfl
  have hothers : Others A R s { s with mem := update s.mem q (update (s.mem q) i (Pte.mk f PTE_V)) } := by
    refine ⟨fun r' hr' q' hq' => update_of_ne ?_ .., rfl, rfl, fun _ he => .inl he⟩
    rintro rfl
    exact (hdisj q' (Radix.mem_nodes_of_descend hp.le hq)).2.2 r' hr' hq'
  refine ⟨⟨?_, inner_cons h.inner hothers hinner⟩, hlookup, hothers, hdescend⟩
  have heq := h.eq
  rw [Multiset.map_cons, Multiset.sum_cons, Account.pages] at heq ⊢
  rw [hothers.sum_eq, htables, hlookup, ← heq, ← Multiset.singleton_add, ← Multiset.singleton_add]
  abel

/-- An empty page from `x` is a page table that maps nothing. -/
theorem Held.root {f : ℕ} (h : Held A s R (f ::ₘ x)) (hzero : ∀ i, Pte.valid (s.mem f i) = false) :
    Held A s (f ::ₘ R) x ∧ ∀ v, lookup s.mem f v = none := by
  have hchild (i : Fin 512) : child s.mem f i = none := child_eq_none (hzero i)
  have hlookup (v : ℕ) : lookup s.mem f v = none := by
    rw [lookup, leafTable, Radix.descend_cons_eq_none (hchild _), Option.bind_none, ite_self]
  have htables : tables s.mem f = {f} := by
    rw [tables, Radix.nodes_succ, Finset.sum_eq_zero fun i _ => by rw [hchild]; rfl]
    rfl
  refine ⟨⟨?_, Multiset.forall_mem_cons.mpr ⟨?_, h.inner⟩⟩, hlookup⟩
  · rw [Multiset.map_cons, Multiset.sum_cons, Account.pages, htables, funext hlookup, A.held_none,
      ← h.eq, ← Multiset.singleton_add f x]
    abel
  · intro p q _ hq i hvalid
    cases p with
    | nil =>
      obtain rfl := Option.some.inj hq
      rw [hzero] at hvalid
      exact absurd hvalid Bool.false_ne_true
    | cons j p =>
      rw [Radix.descend_cons_eq_none (hchild j)] at hq
      cases hq

end Xv6.Vm
