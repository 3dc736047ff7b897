import Xv6.Umalloc
import Xv6.Tiling

/-!
# The free list

The free list is a cycle through `base` that ascends except for one turn, and its blocks and
the blocks that the program holds tile the memory from `sbrk`. To free a block is to link it
in, and to join it and the block before it to what follows them.
-/
namespace Xv6.Umalloc

open Function LinkedCycle Tiling

variable {base : ℕ} {mem mem' : ℕ → Header} {x y z p bp : ℕ} {c c' l l' held held' : List ℕ}
  {regions : List Block}

abbrev next (mem : ℕ → Header) (p : ℕ) : ℕ := (mem p).ptr

/-- The block at `p`, in bytes. -/
def block (mem : ℕ → Header) (p : ℕ) : Block := (p, HEADER * (mem p).size)

/-- The addresses of the blocks: those of the free list `c` but `base`, and those that the
program holds. -/
def used (base : ℕ) (c held : List ℕ) : List ℕ := c.filter (· ≠ base) ++ held

theorem mem_used : x ∈ used base c held ↔ (x ∈ c ∧ x ≠ base) ∨ x ∈ held := by
  simp [used]

theorem used_cons (hx : x ≠ base) : used base (x :: c) held = x :: used base c held := by
  simp [used, hx]

theorem used_perm (h : c.Perm c') : (used base c held).Perm (used base c' held) :=
  (h.filter _).append_right held

theorem used_move (hx : x ≠ base) :
    (used base (x :: c) held).Perm (used base c (x :: held)) := by
  rw [used_cons hx]
  exact List.perm_middle.symm

/-- Memory from `sbrk` is apart from `base`, and is not before it without a gap. -/
def Away (base : ℕ) (r : Block) : Prop := r.1 + r.2 < base ∨ base + HEADER ≤ r.1

/-- The blocks tile the memory, of less than `2 ^ 36` bytes. -/
structure Arena (base : ℕ) (mem : ℕ → Header) (c held : List ℕ) (regions : List Block) :
    Prop where
  base_pos : 0 < base
  base_mem : base ∈ c
  base_size : (mem base).size = 0
  tiles : Tiles ((used base c held).map (block mem)) regions
  away : ∀ r ∈ regions, Away base r ∧ 0 < r.1
  total : (regions.map Prod.snd).sum < 2 ^ 36

namespace Arena

theorem size_pos (h : Arena base mem c held regions) (hx : x ∈ used base c held) :
    0 < (mem x).size := by
  have hpos : 0 < HEADER * (mem x).size := h.tiles.pos _ (List.mem_map_of_mem hx)
  exact Nat.pos_of_mul_pos_left hpos

theorem not_covered (h : Arena base mem c held regions) :
    ¬ Covered base regions ∧ ¬ (0 < base ∧ Covered (base - 1) regions) := by
  constructor
  · intro hcov
    obtain ⟨r, hr, hin⟩ := hcov
    obtain ⟨haway, -⟩ := h.away r hr
    unfold Away HEADER at haway
    unfold Inside at hin
    omega
  · intro hcov
    obtain ⟨hpos, r, hr, hin⟩ := hcov
    obtain ⟨haway, -⟩ := h.away r hr
    unfold Away HEADER at haway
    unfold Inside at hin
    omega

theorem not_inside_base (h : Arena base mem c held regions) (hx : x ∈ used base c held) :
    ¬ Inside base (block mem x) := fun hin =>
  h.not_covered.1 ((h.tiles.cover base).mp ⟨_, List.mem_map_of_mem hx, hin⟩)

theorem ne_base (h : Arena base mem c held regions) (hx : x ∈ used base c held) : x ≠ base := by
  intro heq
  have hpos := h.size_pos hx
  apply h.not_inside_base hx
  unfold Inside block HEADER
  omega

theorem blockEnd_ne_base (h : Arena base mem c held regions) (hx : x ∈ used base c held) :
    blockEnd mem x ≠ base := by
  intro heq
  have hpos := h.size_pos hx
  unfold blockEnd HEADER at heq
  apply h.not_covered.2
  refine ⟨by omega, (h.tiles.cover _).mp ⟨_, List.mem_map_of_mem hx, ?_⟩⟩
  unfold Inside block HEADER
  omega

theorem apart (h : Arena base mem c held regions) : (used base c held).Pairwise fun x y =>
    Apart (block mem x) (block mem y) :=
  List.pairwise_map.mp h.tiles.apart

theorem eq_of_inside (h : Arena base mem c held regions) (hx : x ∈ used base c held)
    (hy : y ∈ used base c held) (hzx : Inside z (block mem x)) (hzy : Inside z (block mem y)) :
    x = y := by
  by_contra hne
  have hsymm : Std.Symm fun x y => Apart (block mem x) (block mem y) := ⟨fun _ _ => Apart.symm⟩
  have hapart : Apart (block mem x) (block mem y) := h.apart.forall hx hy hne
  unfold Apart at hapart
  unfold Inside at hzx hzy
  omega

theorem nodup (h : Arena base mem c held regions) : (used base c held).Nodup := by
  refine h.apart.imp_of_mem ?_
  intro x y hx _ hapart heq
  have hpos := h.size_pos hx
  subst heq
  unfold Apart block HEADER at hapart
  omega

theorem perm (h : Arena base mem c held regions) (hc : base ∈ c')
    (hperm : (used base c held).Perm (used base c' held'))
    (hsize : ∀ x, (mem' x).size = (mem x).size) : Arena base mem' c' held' regions where
  base_pos := h.base_pos
  base_mem := hc
  base_size := (hsize base).trans h.base_size
  tiles := by
    have hblock : block mem' = block mem := funext fun x => by rw [block, block, hsize]
    rw [hblock]
    exact h.tiles.perm (hperm.map _)
  away := h.away
  total := h.total

end Arena

/-- The free list from `p` on. -/
structure FreeList (base : ℕ) (mem : ℕ → Header) (p : ℕ) (l held : List ℕ)
    (regions : List Block) : Prop extends Arena base mem (p :: l) held regions where
  path : Path (next mem) p l p
  ascends : Ascends (p :: l)

/-- The block at `x` does not end where the next one starts. -/
def Gap (base : ℕ) (mem : ℕ → Header) (x : ℕ) : Prop := x ≠ base → blockEnd mem x ≠ next mem x

/-- The free list between two calls: no two of its blocks touch. -/
structure Tidy (base : ℕ) (mem : ℕ → Header) (p : ℕ) (l held : List ℕ)
    (regions : List Block) : Prop extends FreeList base mem p l held regions where
  gap : ∀ x ∈ p :: l, Gap base mem x

theorem setPtr_size (mem : ℕ → Header) (p v x : ℕ) : (setPtr mem p v x).size = (mem x).size := by
  unfold setPtr
  by_cases hx : x = p
  · subst hx
    rw [update_self]
  · rw [update_of_ne hx]

theorem setSize_ptr (mem : ℕ → Header) (p v x : ℕ) : (setSize mem p v x).ptr = (mem x).ptr := by
  unfold setSize
  by_cases hx : x = p
  · subst hx
    rw [update_self]
  · rw [update_of_ne hx]

@[simp] theorem setPtr_self (mem : ℕ → Header) (p v : ℕ) :
    setPtr mem p v p = { mem p with ptr := v } := update_self ..

@[simp] theorem setSize_self (mem : ℕ → Header) (p v : ℕ) :
    setSize mem p v p = { mem p with size := v } := update_self ..

theorem setPtr_of_ne {v : ℕ} (h : x ≠ p) : setPtr mem p v x = mem x := update_of_ne h ..

theorem setSize_of_ne {v : ℕ} (h : x ≠ p) : setSize mem p v x = mem x := update_of_ne h ..

/-- Put `bp` after `p`. -/
def link (mem : ℕ → Header) (p bp : ℕ) : ℕ → Header :=
  setPtr (setPtr mem bp (mem p).ptr) p bp

theorem link_of_ne (hp : x ≠ p) (hbp : x ≠ bp) : link mem p bp x = mem x := by
  rw [link, setPtr_of_ne hp, setPtr_of_ne hbp]

theorem link_size (mem : ℕ → Header) (p bp x : ℕ) : (link mem p bp x).size = (mem x).size := by
  rw [link, setPtr_size, setPtr_size]

theorem next_link_self : next (link mem p bp) p = bp := by
  rw [next, link, setPtr_self]

theorem next_link_new (h : bp ≠ p) : next (link mem p bp) bp = next mem p := by
  rw [next, link, setPtr_of_ne h, setPtr_self]

/-- Join the block at `x` to the one it points to. -/
def absorb (mem : ℕ → Header) (x : ℕ) : ℕ → Header :=
  update mem x
    { ptr := next mem (next mem x), size := addSize (mem x).size (mem (next mem x)).size }

theorem absorb_of_ne (h : z ≠ x) : absorb mem x z = mem z := update_of_ne h ..

/-- Join the block at `x` to the next one if there is no gap. -/
def coalesce (mem : ℕ → Header) (x : ℕ) : ℕ → Header :=
  if blockEnd mem x = next mem x then absorb mem x else mem

theorem setPtr_setSize (mem : ℕ → Header) (p v w : ℕ) :
    setPtr (setSize mem p v) p w = update mem p { ptr := w, size := v } := by
  rw [setPtr, setSize_self, setSize, update_idem]

theorem update_setPtr (mem : ℕ → Header) (p v : ℕ) (w : Header) :
    update (setPtr mem p v) p w = update mem p w := by
  rw [setPtr, update_idem]

theorem setPtr_comm (mem : ℕ → Header) {p q : ℕ} (h : p ≠ q) (v : ℕ) (w : Header) :
    setPtr (update mem q w) p v = update (setPtr mem p v) q w := by
  rw [setPtr, setPtr, update_of_ne h, update_comm h.symm]

theorem lower_eq (hp : bp ≠ p) :
    (if blockEnd mem p = bp then
      setPtr (setSize mem p (addSize (mem p).size (mem bp).size)) p
        (setSize mem p (addSize (mem p).size (mem bp).size) bp).ptr
    else setPtr mem p bp) = coalesce (setPtr mem p bp) p := by
  have hend : blockEnd (setPtr mem p bp) p = blockEnd mem p := by
    rw [blockEnd, setPtr_size, blockEnd]
  have hself : next (setPtr mem p bp) p = bp := by rw [next, setPtr_self]
  rw [coalesce, hend, hself]
  split
  · rw [setPtr_setSize, setSize_of_ne hp, absorb, hself, next, setPtr_of_ne hp, update_setPtr,
      setPtr_size]
  · rfl

/-- `free` links the block in, joins it to the one after it, then the one before to it. -/
theorem insertAfter_eq (hp : bp ≠ p) (hnext : next mem p ≠ bp)
    (hlast : blockEnd mem bp = next mem p → next mem p ≠ p) :
    insertAfter mem p bp = coalesce (coalesce (link mem p bp) bp) p := by
  have hend : blockEnd (link mem p bp) bp = blockEnd mem bp := by
    rw [blockEnd, link_size, blockEnd]
  rw [insertAfter, lower_eq hp]
  congr 1
  rw [coalesce, hend, next_link_new hp]
  split
  · next hjoin =>
    have hq : link mem p bp (mem p).ptr = mem (mem p).ptr := link_of_ne (hlast hjoin) hnext
    have hnq : next (link mem p bp) (mem p).ptr = (mem (mem p).ptr).ptr := congrArg Header.ptr hq
    have hlink : link mem p bp =
        update (setPtr mem p bp) bp { mem bp with ptr := (mem p).ptr } :=
      setPtr_comm mem hp.symm bp _
    rw [setPtr_setSize, setSize_of_ne hp.symm, setSize_of_ne hnext, setPtr_comm mem hp.symm, absorb,
      next_link_new hp, hnq, hq, link_size, hlink, update_idem]
  · rfl

namespace FreeList

theorem rotate (h : FreeList base mem p (l ++ x :: l') held regions) :
    FreeList base mem x (l' ++ p :: l) held regions where
  toArena := by
    have hperm : (p :: (l ++ x :: l')).Perm (x :: (l' ++ p :: l)) := by
      rw [← List.cons_append, ← List.cons_append]
      exact List.perm_append_comm
    exact h.toArena.perm (hperm.mem_iff.mp h.base_mem) (used_perm hperm) fun _ => rfl
  path := h.path.rotate
  ascends := Ascends.rotate (l := p :: l) h.ascends

theorem exists_rotate (h : FreeList base mem p l held regions) (hx : x ∈ p :: l) :
    ∃ l', FreeList base mem x l' held regions ∧ (x :: l').Perm (p :: l) := by
  obtain rfl | hx := List.mem_cons.mp hx
  · exact ⟨l, h, List.Perm.refl _⟩
  · obtain ⟨k, k', rfl⟩ := List.append_of_mem hx
    refine ⟨k' ++ p :: k, h.rotate, ?_⟩
    rw [← List.cons_append, ← List.cons_append]
    exact List.perm_append_comm

theorem held_notMem (h : FreeList base mem p l held regions) (hx : x ∈ held) : x ∉ p :: l := by
  intro hxl
  have hbase := h.ne_base (mem_used.mpr (Or.inr hx))
  exact (List.disjoint_of_nodup_append h.nodup) (List.mem_filter.mpr ⟨hxl, by simpa using hbase⟩) hx

theorem linked (h : FreeList base mem p l (bp :: held) regions) (hafter : After (next mem) bp p) :
    FreeList base (link mem p bp) p (bp :: l) held regions := by
  have hnot : bp ∉ p :: l := h.held_notMem List.mem_cons_self
  have hbase : bp ≠ base := h.ne_base (mem_used.mpr (Or.inr List.mem_cons_self))
  have hp : bp ≠ p := fun heq => hnot (heq ▸ List.mem_cons_self)
  have hl : bp ∉ l := fun hin => hnot (List.mem_cons_of_mem p hin)
  have hpl : p ∉ l := (List.nodup_cons.mp h.ascends.nodup).1
  constructor
  · apply h.toArena.perm
    · exact (List.mem_cons.mp h.base_mem).elim (fun heq => heq ▸ List.mem_cons_self)
        fun hin => List.mem_cons_of_mem p (List.mem_cons_of_mem bp hin)
    · exact (used_move hbase).symm.trans (used_perm (List.Perm.swap p bp l))
    · exact link_size mem p bp
  · refine ⟨next_link_self, h.path.start (next_link_new hp) fun w hw => ?_⟩
    have hwp : w ≠ p := fun heq => hpl (heq ▸ hw)
    have hwb : w ≠ bp := fun heq => hl (heq ▸ hw)
    rw [next, link_of_ne hwp hwb]
  · exact h.ascends.insert h.path hafter

theorem addSize_eq (h : FreeList base mem x (y :: l) held regions) (hx : x ≠ base) (hy : y ≠ base) :
    addSize (mem x).size (mem y).size = (mem x).size + (mem y).size := by
  have hsum := h.tiles.total
  have htotal := h.total
  rw [used_cons hx, used_cons hy, List.map_cons, List.map_cons, List.map_cons, List.map_cons,
    List.sum_cons, List.sum_cons, block, block] at hsum
  unfold HEADER at hsum
  exact Nat.mod_eq_of_lt (by omega)

theorem blockEnd_next_ne_base (h : FreeList base mem x l held regions) (hx : x ≠ base)
    (hend : blockEnd mem x = y) : y ≠ base :=
  hend ▸ h.blockEnd_ne_base (mem_used.mpr (Or.inl ⟨List.mem_cons_self, hx⟩))

theorem absorbed (h : FreeList base mem x (y :: l) held regions) (hx : x ≠ base)
    (hend : blockEnd mem x = y) : FreeList base (absorb mem x) x l held regions := by
  have hy : y ≠ base := h.blockEnd_next_ne_base hx hend
  have hused : used base (x :: y :: l) held = x :: y :: used base l held := by
    rw [used_cons hx, used_cons hy]
  have hnodup := h.nodup
  rw [hused] at hnodup
  have hnext : next mem x = y := h.path.1
  have hself : absorb mem x x =
      { ptr := next mem y, size := addSize (mem x).size (mem y).size } := by
    rw [absorb, update_self, hnext]
  have hxl : x ∉ y :: l := (List.nodup_cons.mp h.ascends.nodup).1
  constructor
  · have htiles := h.tiles
    rw [hused, List.map_cons, List.map_cons] at htiles
    have hy' : block mem y = (x + HEADER * (mem x).size, HEADER * (mem y).size) := by
      rw [block, ← hend, blockEnd]
    rw [hy', block] at htiles
    have hjoin := htiles.join
    constructor
    · exact h.base_pos
    · have hmem := h.base_mem
      simp only [List.mem_cons, hx.symm, hy.symm, false_or] at hmem
      exact List.mem_cons_of_mem x hmem
    · rw [absorb_of_ne hx.symm]
      exact h.base_size
    · rw [used_cons hx, List.map_cons]
      have hblock : block (absorb mem x) x =
          (x, HEADER * (mem x).size + HEADER * (mem y).size) := by
        rw [block, hself, h.addSize_eq hx hy, Nat.mul_add]
      have hrest : (used base l held).map (block (absorb mem x)) =
          (used base l held).map (block mem) := by
        refine List.map_congr_left fun w hw => ?_
        have hwx : w ≠ x := fun heq =>
          (List.nodup_cons.mp hnodup).1 (List.mem_cons_of_mem y (heq ▸ hw))
        rw [block, block, absorb_of_ne hwx]
      rw [hblock, hrest]
      exact hjoin
    · exact h.away
    · exact h.total
  · refine h.path.2.start ?_ fun w hw => ?_
    · rw [next, hself]
    · have hwx : w ≠ x := fun heq => hxl (List.mem_cons_of_mem y (heq ▸ hw))
      rw [next, absorb_of_ne hwx]
  · exact h.ascends.sublist ((List.sublist_cons_self y l).cons_cons x)

theorem absorb_size (h : FreeList base mem x (y :: l) held regions) (hx : x ≠ base)
    (hend : blockEnd mem x = y) : (absorb mem x x).size = (mem x).size + (mem y).size := by
  have hnext : next mem x = y := h.path.1
  rw [absorb, update_self, hnext]
  exact h.addSize_eq hx (h.blockEnd_next_ne_base hx hend)

/-- A block joined to the next one ends where that one did. -/
theorem gap_absorb (h : FreeList base mem x (y :: l) held regions) (hx : x ≠ base)
    (hend : blockEnd mem x = y) (hgap : Gap base mem y) : Gap base (absorb mem x) x := by
  have hy : y ≠ base := h.blockEnd_next_ne_base hx hend
  have hnext : next mem x = y := h.path.1
  have hy' : blockEnd mem y ≠ next mem y := hgap hy
  intro _
  rw [blockEnd, next, absorb, update_self, hnext, h.addSize_eq hx hy, Nat.mul_add, ← Nat.add_assoc]
  rw [← blockEnd, hend]
  exact hy'

end FreeList

theorem coalesce_of_ne (h : z ≠ x) : coalesce mem x z = mem z := by
  unfold coalesce
  split
  · exact absorb_of_ne h
  · rfl

theorem gap_congr (heq : mem' x = mem x) (h : Gap base mem x) : Gap base mem' x := by
  unfold Gap blockEnd next at h ⊢
  rwa [heq]

theorem insertAfter_of_ne (hp : z ≠ p) (hbp : z ≠ bp) : insertAfter mem p bp z = mem z := by
  unfold insertAfter
  dsimp only
  split
  all_goals
    split
    all_goals
      simp only [setPtr_of_ne hp, setPtr_of_ne hbp, setSize_of_ne hp, setSize_of_ne hbp]

namespace FreeList

theorem next_ne (h : FreeList base mem p l held regions) (hp : p ≠ base) : next mem p ≠ p := by
  cases l with
  | nil =>
    have hbase := List.mem_singleton.mp h.base_mem
    exact absurd hbase.symm hp
  | cons q l =>
    have hq : next mem p = q := h.path.1
    intro heq
    exact (List.nodup_cons.mp h.ascends.nodup).1 ((hq.symm.trans heq) ▸ List.mem_cons_self)

theorem next_mem (h : FreeList base mem p l held regions) (hx : x ∈ p :: l) :
    next mem x ∈ p :: l :=
  (List.perm_append_singleton p l).mem_iff.mp (h.path.mem_next hx)

end FreeList

/-- `free`, once it has found `p`. The block is in the list, or in a larger one. -/
theorem Tidy.inserted (h : Tidy base mem p l (bp :: held) regions)
    (hafter : After (next mem) bp p) :
    ∃ l', Tidy base (insertAfter mem p bp) p l' held regions ∧
      ∃ x ∈ p :: l', (mem bp).size ≤ (insertAfter mem p bp x).size := by
  have hheld : bp ∈ used base (p :: l) (bp :: held) := mem_used.mpr (Or.inr List.mem_cons_self)
  have hnot : bp ∉ p :: l := h.held_notMem List.mem_cons_self
  have hp : bp ≠ p := fun heq => hnot (heq ▸ List.mem_cons_self)
  have hbase : bp ≠ base := h.ne_base hheld
  have hnext : next mem p ≠ bp := fun heq => hnot (heq ▸ h.next_mem List.mem_cons_self)
  have hlast : blockEnd mem bp = next mem p → next mem p ≠ p := by
    intro hend hself
    have hpb : p = base := by
      by_contra hne
      exact h.next_ne hne hself
    exact h.blockEnd_ne_base hheld (hend.trans (hself.trans hpb))
  rw [insertAfter_eq hp hnext hlast]
  have hlink := h.linked hafter
  have hgap1 : ∀ z ∈ l, Gap base (link mem p bp) z := by
    intro z hz
    have hzp : z ≠ p := fun heq => (List.nodup_cons.mp h.ascends.nodup).1 (heq ▸ hz)
    have hzb : z ≠ bp := fun heq => hnot (List.mem_cons_of_mem p (heq ▸ hz))
    exact gap_congr (link_of_ne hzp hzb) (h.gap z (List.mem_cons_of_mem p hz))
  -- join `bp` to what follows
  obtain ⟨l1, hl1, hup, hgapb, hsize⟩ : ∃ l1, (∀ z ∈ l1, z ∈ l) ∧
      FreeList base (coalesce (link mem p bp) bp) p (bp :: l1) held regions ∧
      Gap base (coalesce (link mem p bp) bp) bp ∧
      (mem bp).size ≤ (coalesce (link mem p bp) bp bp).size := by
    rw [coalesce]
    split
    · next hjoin =>
      have hrot : FreeList base (link mem p bp) bp (l ++ [p]) held regions :=
        hlink.rotate (l := [])
      rw [next_link_new hp] at hjoin
      cases l with
      | nil =>
        have hself : next mem p = p := h.path
        have hpb := List.mem_singleton.mp h.base_mem
        exact absurd (hself.trans hpb.symm) (hrot.blockEnd_next_ne_base hbase hjoin)
      | cons q l =>
        have hq : next mem p = q := h.path.1
        rw [hq] at hjoin
        refine ⟨l, fun z hz => List.mem_cons_of_mem q hz, (hrot.absorbed hbase hjoin).rotate,
          hrot.gap_absorb hbase hjoin (hgap1 q List.mem_cons_self), ?_⟩
        rw [hrot.absorb_size hbase hjoin, link_size]
        exact Nat.le_add_right _ _
    · next hjoin => exact ⟨l, fun _ hz => hz, hlink, fun _ => hjoin, (link_size mem p bp bp).ge⟩
  have hne : ∀ z ∈ l1, z ≠ p ∧ z ≠ bp := fun z hz =>
    ⟨fun heq => (List.nodup_cons.mp h.ascends.nodup).1 (heq ▸ hl1 z hz),
      fun heq => hnot (List.mem_cons_of_mem p (heq ▸ hl1 z hz))⟩
  have hgap2 : ∀ z ∈ bp :: l1, Gap base (coalesce (link mem p bp) bp) z := by
    intro z hz
    obtain rfl | hz := List.mem_cons.mp hz
    · exact hgapb
    · exact gap_congr (coalesce_of_ne (hne z hz).2) (hgap1 z (hl1 z hz))
  -- join `p` to what follows
  generalize coalesce (link mem p bp) bp = mem2 at hup hgap2 hsize
  have hnext2 : next mem2 p = bp := hup.path.1
  rw [coalesce, hnext2]
  split
  · next hjoin =>
    have hpb : p ≠ base := by
      intro heq
      rw [blockEnd, heq, hup.base_size] at hjoin
      exact hbase hjoin.symm
    refine ⟨l1, ⟨hup.absorbed hpb hjoin, fun z hz => ?_⟩, p, List.mem_cons_self, ?_⟩
    · obtain rfl | hz := List.mem_cons.mp hz
      · exact hup.gap_absorb hpb hjoin (hgap2 bp List.mem_cons_self)
      · exact gap_congr (absorb_of_ne (hne z hz).1) (hgap2 z (List.mem_cons_of_mem bp hz))
    · rw [hup.absorb_size hpb hjoin]
      exact hsize.trans (Nat.le_add_left _ _)
  · next hjoin =>
    refine ⟨bp :: l1, ⟨hup, fun z hz => ?_⟩, bp, List.mem_cons_of_mem p List.mem_cons_self, hsize⟩
    obtain rfl | hz := List.mem_cons.mp hz
    · exact fun _ => hnext2.symm ▸ hjoin
    · exact hgap2 z hz

end Xv6.Umalloc
