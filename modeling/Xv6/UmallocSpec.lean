import Xv6.UmallocHeap

/-!
# What `free` and `malloc` do

Both take a tidy free list to a tidy free list and leave the headers of the other blocks. Both
return: `free` finds the place of a block in one turn around the list, and `malloc` finds a
block that is large enough in one turn, or in the turn after `morecore`.
-/
namespace Xv6.Umalloc

open Function LinkedCycle Tiling

variable {base : ℕ} {mem mem' : ℕ → Header} {x y z p bp n : ℕ} {c c' l l' held held' : List ℕ}
  {regions : List Block}

theorem stops_iff : stops mem bp p = true ↔ After (next mem) bp p := by
  simp [stops, After]

namespace Tidy

theorem exists_rotate (h : Tidy base mem p l held regions) (hx : x ∈ p :: l) :
    ∃ l', Tidy base mem x l' held regions ∧ (x :: l').Perm (p :: l) := by
  obtain ⟨l', hl, hperm⟩ := h.toFreeList.exists_rotate hx
  exact ⟨l', ⟨hl, fun y hy => h.gap y (hperm.mem_iff.mp hy)⟩, hperm⟩

theorem held_perm (h : Tidy base mem p l held regions) (hperm : held.Perm held') :
    Tidy base mem p l held' regions where
  toFreeList :=
    { toArena := h.toArena.perm h.base_mem (hperm.append_left _) fun _ => rfl
      path := h.path
      ascends := h.ascends }
  gap := h.gap

theorem pos (h : Tidy base mem p l held regions) (hx : x ∈ p :: l) : 0 < x := by
  by_cases hxb : x = base
  · exact hxb ▸ h.base_pos
  · obtain ⟨r, hr, hin⟩ := h.tiles.start (List.mem_map_of_mem (mem_used.mpr (Or.inl ⟨hx, hxb⟩)))
    exact (h.away r hr).2.trans_le hin.1

theorem blockEnd_ne (h : Tidy base mem p l held regions) (hx : x ∈ p :: l) (hy : y ∈ p :: l)
    (hxy : x ≠ y) : blockEnd mem x ≠ y := by
  intro hend
  by_cases hbase : x = base
  · rw [blockEnd, hbase, h.base_size] at hend
    exact hxy (hbase.trans hend)
  have hused : ∀ w ∈ p :: l, w ≠ base → w ∈ used base (p :: l) held := fun w hw hb =>
    mem_used.mpr (Or.inl ⟨hw, hb⟩)
  have hpos := h.size_pos (hused x hx hbase)
  obtain ⟨l', hl, hperm⟩ := h.toFreeList.exists_rotate hx
  have hyl : y ∈ l' := (List.mem_cons.mp (hperm.mem_iff.mpr hy)).resolve_left hxy.symm
  have hafter := hl.ascends.not_after hl.path hyl
  have hgap := h.gap x hx hbase
  -- the next block starts inside this one
  have hin : Inside (next mem x) (block mem x) := by
    unfold After at hafter
    unfold Inside block
    unfold blockEnd at hend hgap
    unfold HEADER at hend hgap ⊢
    dsimp only at *
    omega
  have hz : next mem x ∈ p :: l := h.next_mem hx
  by_cases hzb : next mem x = base
  · exact h.not_inside_base (hused x hx hbase) (hzb ▸ hin)
  · have hself : Inside (next mem x) (block mem (next mem x)) :=
      ⟨le_rfl, Nat.lt_add_of_pos_right
        (h.tiles.pos _ (List.mem_map_of_mem (hused _ hz hzb)))⟩
    have heq := h.eq_of_inside (hused x hx hbase) (hused _ hz hzb) hin hself
    exact hl.next_ne hbase heq.symm

theorem freed {h : Heap} (ht : Tidy base h.mem h.freep l (bp :: held) regions) :
    ∃ h' l', Tidy base h'.mem h'.freep l' held regions ∧
      (∃ x ∈ h'.freep :: l', (h.mem bp).size ≤ (h'.mem x).size) ∧
      (∀ x ∈ held, h'.mem x = h.mem x) ∧
      ∀ fuel, l.length < fuel → free fuel h (bp + HEADER) = some h' := by
  have hnot : bp ∉ h.freep :: l := ht.held_notMem List.mem_cons_self
  have hex : ∃ w ∈ h.freep :: l, stops h.mem bp w = true := by
    obtain ⟨w, hw, hafter⟩ := exists_after ht.path hnot
    exact ⟨w, hw, stops_iff.mpr hafter⟩
  obtain ⟨p, hp, hstop, hsearch⟩ := exists_search ht.path hex
  obtain ⟨k, hk, -⟩ := ht.exists_rotate hp
  obtain ⟨l', hl', hlarge⟩ := hk.inserted (stops_iff.mp hstop)
  refine ⟨⟨insertAfter h.mem p bp, p⟩, l', hl', hlarge, fun x hx => ?_, fun fuel hfuel => ?_⟩
  · have hxp : x ≠ p := fun heq =>
      hk.held_notMem (List.mem_cons_of_mem bp hx) (heq ▸ List.mem_cons_self)
    have hnodup : (bp :: held).Nodup := (List.nodup_append.mp ht.nodup).2.1
    have hxb : x ≠ bp := fun heq => (List.nodup_cons.mp hnodup).1 (heq ▸ hx)
    exact insertAfter_of_ne hxp hxb
  · rw [free, Nat.add_sub_cancel, hsearch fuel hfuel]
    rfl

theorem take_all (h : Tidy base mem p (y :: l) held regions) (hy : y ≠ base) :
    Tidy base (setPtr mem p (next mem y)) p l (y :: held) regions := by
  have hpy : p ∉ y :: l := (List.nodup_cons.mp h.ascends.nodup).1
  have hother : ∀ w ∈ l, setPtr mem p (next mem y) w = mem w := fun w hw => by
    have hwp : w ≠ p := fun heq => hpy (List.mem_cons_of_mem y (heq ▸ hw))
    exact setPtr_of_ne hwp
  have hbase : base ∈ p :: l := by
    have hmem := h.base_mem
    simp only [List.mem_cons, hy.symm, false_or] at hmem ⊢
    exact hmem
  constructor
  · constructor
    · apply h.toArena.perm hbase
      · exact (used_perm (List.Perm.swap y p l)).trans (used_move hy)
      · exact setPtr_size mem p _
    · refine h.path.2.start ?_ fun w hw => ?_
      · rw [next, setPtr_self]
      · rw [next, hother w hw]
    · exact h.ascends.sublist ((List.sublist_cons_self y l).cons_cons p)
  · intro x hx
    obtain rfl | hx := List.mem_cons.mp hx
    · -- the block before: the one after `y` does not start at its end
      intro hxb
      have hyn : next mem y ∈ x :: y :: l := h.next_mem (List.mem_cons_of_mem x List.mem_cons_self)
      have hend : blockEnd (setPtr mem x (next mem y)) x = blockEnd mem x := by
        rw [blockEnd, setPtr_size, blockEnd]
      rw [hend, next, setPtr_self]
      by_cases heq : x = next mem y
      · have hpos := h.size_pos (mem_used.mpr (Or.inl ⟨List.mem_cons_self, hxb⟩))
        unfold blockEnd HEADER
        dsimp only
        omega
      · exact h.blockEnd_ne List.mem_cons_self hyn heq
    · exact gap_congr (hother x hx) (h.gap x (List.mem_cons_of_mem p (List.mem_cons_of_mem y hx)))

theorem take_tail (h : Tidy base mem p l held regions) (hy : y ∈ p :: l) (hyb : y ≠ base)
    (hn : 0 < n) (hlt : n < (mem y).size) (hz : z = y + HEADER * ((mem y).size - n)) :
    Tidy base (setSize (setSize mem y ((mem y).size - n)) z n) p l (z :: held) regions ∧
      ∀ x ∈ held, setSize (setSize mem y ((mem y).size - n)) z n x = mem x := by
  have hyu : y ∈ used base (p :: l) held := mem_used.mpr (Or.inl ⟨hy, hyb⟩)
  have hzin : Inside z (block mem y) := by
    unfold Inside block
    unfold HEADER at hz ⊢
    dsimp only
    omega
  have hzy : z ≠ y := by
    unfold HEADER at hz
    omega
  -- nothing else starts at `z`
  have hfresh : z ∉ used base (p :: l) held := by
    intro hzu
    have hself : Inside z (block mem z) :=
      ⟨le_rfl, Nat.lt_add_of_pos_right (h.tiles.pos _ (List.mem_map_of_mem hzu))⟩
    exact hzy (h.eq_of_inside hzu hyu hself hzin)
  have hzb : z ≠ base := fun heq => h.not_inside_base hyu (heq ▸ hzin)
  have hzl : z ∉ p :: l := fun hin => hfresh (mem_used.mpr (Or.inl ⟨hin, hzb⟩))
  have hother : ∀ w, w ≠ z → w ≠ y →
      setSize (setSize mem y ((mem y).size - n)) z n w = mem w := fun w hwz hwy => by
    rw [setSize_of_ne hwz, setSize_of_ne hwy]
  have hnext : next (setSize (setSize mem y ((mem y).size - n)) z n) = next mem :=
    funext fun w => by rw [next, setSize_ptr, setSize_ptr]
  refine ⟨⟨⟨?_, hnext.symm ▸ h.path, h.ascends⟩, ?_⟩, ?_⟩
  · refine ⟨h.base_pos, h.base_mem, ?_, ?_, h.away, h.total⟩
    · rw [hother base hzb.symm hyb.symm]
      exact h.base_size
    · have hperm := List.perm_cons_erase hyu
      have htiles := h.tiles.perm (hperm.map _)
      have hblock : block mem y =
          (y, HEADER * ((mem y).size - n) + HEADER * n) := by
        rw [block, ← Nat.mul_add, Nat.sub_add_cancel hlt.le]
      rw [List.map_cons, hblock] at htiles
      have hsplit := htiles.split (Nat.mul_pos (by decide) (Nat.sub_pos_of_lt hlt))
        (Nat.mul_pos (by decide) hn)
      have hperm' : (y :: z :: (used base (p :: l) held).erase y).Perm
          (used base (p :: l) (z :: held)) :=
        (List.Perm.swap z y _).trans ((hperm.symm.cons z).trans List.perm_middle.symm)
      refine Tiles.perm ?_ (hperm'.map _)
      rw [List.map_cons, List.map_cons]
      have hy' : block (setSize (setSize mem y ((mem y).size - n)) z n) y =
          (y, HEADER * ((mem y).size - n)) := by
        rw [block, setSize_of_ne hzy.symm, setSize_self]
      have hz' : block (setSize (setSize mem y ((mem y).size - n)) z n) z =
          (y + HEADER * ((mem y).size - n), HEADER * n) := by
        rw [block, setSize_self, hz]
      have hrest : ((used base (p :: l) held).erase y).map
          (block (setSize (setSize mem y ((mem y).size - n)) z n)) =
          ((used base (p :: l) held).erase y).map (block mem) := by
        refine List.map_congr_left fun w hw => ?_
        have hwu := List.mem_of_mem_erase hw
        have hwy : w ≠ y := (h.nodup.mem_erase_iff.mp hw).1
        rw [block, block, hother w (fun heq => hfresh (heq ▸ hwu)) hwy]
      rw [hy', hz', hrest]
      exact hsplit
  · intro x hx
    have hxz : x ≠ z := fun heq => hzl (heq ▸ hx)
    by_cases hxy : x = y
    · intro _
      rw [hxy, hnext, blockEnd, setSize_of_ne hzy.symm, setSize_self]
      intro heq
      exact hzl ((hz.trans heq) ▸ h.next_mem hy)
    · exact gap_congr (hother x hxz hxy) (h.gap x hx)
  · intro x hx
    have hxu : x ∈ used base (p :: l) held := mem_used.mpr (Or.inr hx)
    exact hother x (fun heq => hfresh (heq ▸ hxu)) fun heq => h.held_notMem hx (heq ▸ hy)

/-- `malloc`, once it has found the block at `y`. -/
theorem taken (h : Tidy base mem p (y :: l) held regions) (hy : y ≠ base) (hn : 0 < n)
    (hfit : n ≤ (mem y).size) :
    ∃ l', Tidy base (take mem p y n).1 p l' ((take mem p y n).2 :: held) regions ∧
      ((take mem p y n).1 (take mem p y n).2).size = n ∧
      ∀ x ∈ held, ((take mem p y n).1 x).size = (mem x).size := by
  unfold take
  split
  · next heq => exact ⟨l, h.take_all hy, (setPtr_size ..).trans heq, fun x _ => setPtr_size ..⟩
  · next hne =>
    have hlt : n < (mem y).size := lt_of_le_of_ne hfit (Ne.symm hne)
    have hsize : (setSize mem y ((mem y).size - n) y).size = (mem y).size - n := by
      rw [setSize_self]
    obtain ⟨htidy, hheld⟩ := h.take_tail (List.mem_cons_of_mem p List.mem_cons_self) hy hn hlt rfl
    dsimp only
    rw [hsize]
    exact ⟨y :: l, htidy, by rw [setSize_self], fun x hx => congrArg Header.size (hheld x hx)⟩

end Tidy

section Loop

variable {S : Type} (sbrk : S → ℤ → Option ℕ × S) {h : Heap} (st : S) {q : ℕ}

theorem mallocLoop_pass (n : ℕ) (hpath : Path (next h.mem) q l y)
    (hsmall : ∀ x ∈ l, (h.mem x).size < n ∧ x ≠ h.freep) :
    ∃ p ∈ q :: l, next h.mem p = y ∧ ∀ fuel,
      mallocLoop sbrk n (fuel + l.length) h st q (next h.mem q) =
        mallocLoop sbrk n fuel h st p y := by
  induction l generalizing q with
  | nil =>
    have hy : next h.mem q = y := hpath
    exact ⟨q, List.mem_cons_self, hy, fun fuel => by rw [hy]; rfl⟩
  | cons x l ih =>
    obtain ⟨hx, hpath⟩ := hpath
    obtain ⟨p, hp, hpy, hloop⟩ := ih hpath fun w hw => hsmall w (List.mem_cons_of_mem x hw)
    refine ⟨p, List.mem_cons_of_mem q hp, hpy, fun fuel => ?_⟩
    obtain ⟨hlt, hne⟩ := hsmall x List.mem_cons_self
    rw [hx, List.length_cons, ← Nat.add_assoc, mallocLoop, if_neg (not_le.mpr hlt), if_neg hne]
    exact hloop fuel

theorem exists_first {P : ℕ → Prop} [DecidablePred P] (hex : ∃ x ∈ c, P x) :
    ∃ l y l', c = l ++ y :: l' ∧ P y ∧ ∀ x ∈ l, ¬ P x := by
  obtain ⟨y, hy⟩ : ∃ y, c.find? (P ·) = some y := by
    rw [← Option.isSome_iff_exists, List.find?_isSome]
    obtain ⟨x, hx, hp⟩ := hex
    exact ⟨x, hx, decide_eq_true hp⟩
  obtain ⟨hp, l, l', rfl, hl⟩ := List.find?_eq_some_iff_append.mp hy
  exact ⟨l, y, l', rfl, of_decide_eq_true hp, fun x hx => by simpa using hl x hx⟩

theorem mallocLoop_fit (ht : Tidy base h.mem h.freep l held regions) (hn : 0 < n)
    (hex : ∃ x ∈ h.freep :: l, n ≤ (h.mem x).size) :
    ∃ a h' l', Tidy base h'.mem h'.freep l' (a :: held) regions ∧ (h'.mem a).size = n ∧
      (∀ x ∈ held, (h'.mem x).size = (h.mem x).size) ∧
      ∀ fuel, l.length < fuel →
        mallocLoop sbrk n fuel h st h.freep (next h.mem h.freep) = some (a + HEADER, h', st) := by
  -- the blocks in the order of the loop
  have hex' : ∃ x ∈ l ++ [h.freep], n ≤ (h.mem x).size := by
    obtain ⟨x, hx, hfit⟩ := hex
    exact ⟨x, (List.perm_append_singleton h.freep l).mem_iff.mpr hx, hfit⟩
  obtain ⟨m, y, m', hlm, hfit, hsmall⟩ := exists_first hex'
  have hnot : h.freep ∉ l := (List.nodup_cons.mp ht.ascends.nodup).1
  obtain ⟨hpath, hml, hlen⟩ : Path (next h.mem) h.freep m y ∧ (∀ x ∈ m, x ∈ l) ∧
      m.length ≤ l.length := by
    obtain rfl | ⟨k, w, rfl⟩ := List.eq_nil_or_concat m'
    · obtain ⟨rfl, hy⟩ := List.append_inj' hlm rfl
      obtain rfl := (List.cons.inj hy).1
      exact ⟨ht.path, fun _ hx => hx, le_rfl⟩
    · have heq : l ++ [h.freep] = (m ++ y :: k) ++ [w] := by
        rw [hlm, List.concat_eq_append, List.append_assoc]
        rfl
      obtain ⟨rfl, -⟩ := List.append_inj' heq rfl
      refine ⟨(path_append.mp ht.path).1, fun x hx => List.mem_append_left _ hx, ?_⟩
      rw [List.length_append]
      exact Nat.le_add_right _ _
  obtain ⟨p, hp, hpy, hloop⟩ := mallocLoop_pass sbrk st n hpath
    fun x hx => ⟨not_le.mp (hsmall x hx), fun heq => hnot (heq ▸ hml x hx)⟩
  have hyb : y ≠ base := by
    intro heq
    rw [heq, ht.base_size] at hfit
    exact absurd hn (not_lt.mpr hfit)
  have hpl : p ∈ h.freep :: l := by
    obtain rfl | hp := List.mem_cons.mp hp
    · exact List.mem_cons_self
    · exact List.mem_cons_of_mem _ (hml p hp)
  obtain ⟨k, hk, -⟩ := ht.exists_rotate hpl
  obtain ⟨k, rfl⟩ : ∃ k', k = y :: k' := by
    cases k with
    | nil =>
      have hself : next h.mem p = p := hk.path
      have hpb := List.mem_singleton.mp hk.base_mem
      exact absurd (hpy.symm.trans (hself.trans hpb.symm)) hyb
    | cons w k => exact ⟨k, by rw [← hpy, hk.path.1]⟩
  obtain ⟨l', hl', hsize, hheld⟩ := hk.taken hyb hn hfit
  refine ⟨(take h.mem p y n).2, ⟨(take h.mem p y n).1, p⟩, l', hl', hsize, hheld, ?_⟩
  intro fuel hfuel
  obtain ⟨j, rfl⟩ : ∃ j, fuel = j + 1 + m.length := ⟨fuel - 1 - m.length, by omega⟩
  rw [hloop, mallocLoop, if_pos hfit]

/-- A list without such a block: `malloc` asks for memory. -/
theorem mallocLoop_small (ht : Tidy base h.mem h.freep l held regions)
    (hsmall : ∀ x ∈ h.freep :: l, (h.mem x).size < n) (fuel : ℕ) :
    mallocLoop sbrk n (fuel + 1 + l.length) h st h.freep (next h.mem h.freep) =
      (morecore sbrk fuel h st n).bind fun r =>
        if r.1 = 0 then some (0, r.2)
        else mallocLoop sbrk n fuel r.2.1 r.2.2 r.1 (r.2.1.mem r.1).ptr := by
  have hnot : h.freep ∉ l := (List.nodup_cons.mp ht.ascends.nodup).1
  obtain ⟨p, -, -, hloop⟩ := mallocLoop_pass sbrk st n ht.path fun x hx =>
    ⟨hsmall x (List.mem_cons_of_mem _ hx), fun heq => hnot (heq ▸ hx)⟩
  have hself := hsmall h.freep List.mem_cons_self
  rw [hloop, mallocLoop, if_neg (not_le.mpr hself), if_pos rfl]

theorem free_mono {k k' : ℕ} {ap : ℕ} {h' : Heap} (hk : k ≤ k') (hf : free k h ap = some h') :
    free k' h ap = some h' := by
  obtain ⟨p, hp, rfl⟩ := Option.map_eq_some_iff.mp hf
  rw [free, search_mono hk hp]
  rfl

theorem morecore_mono {st : S} {k k' : ℕ} {r : ℕ × Heap × S} (hk : k ≤ k')
    (hm : morecore sbrk k h st n = some r) : morecore sbrk k' h st n = some r := by
  unfold morecore at hm ⊢
  dsimp only at hm ⊢
  generalize sbrk st (sbrkArg (if n < 4096 then 4096 else n)) = a at hm ⊢
  obtain ⟨o, st'⟩ := a
  cases o with
  | none => exact hm
  | some a =>
    obtain ⟨h', hf, rfl⟩ := Option.map_eq_some_iff.mp hm
    dsimp only
    rw [free_mono hk hf]
    rfl

theorem mallocLoop_mono {st : S} {k k' p : ℕ} {r : ℕ × Heap × S} (hk : k ≤ k')
    (hm : mallocLoop sbrk n k h st q p = some r) : mallocLoop sbrk n k' h st q p = some r := by
  induction k generalizing k' h st q p with
  | zero => cases hm
  | succ k ih =>
    obtain ⟨k', rfl⟩ : ∃ j, k' = j + 1 := ⟨k' - 1, by omega⟩
    have hk : k ≤ k' := Nat.le_of_succ_le_succ hk
    rw [mallocLoop] at hm ⊢
    by_cases hfit : (h.mem p).size ≥ n
    · rwa [if_pos hfit] at hm ⊢
    rw [if_neg hfit] at hm ⊢
    by_cases hp : p = h.freep
    · rw [if_pos hp] at hm ⊢
      obtain ⟨a, ha, hrest⟩ := Option.bind_eq_some_iff.mp hm
      rw [morecore_mono sbrk hk ha, Option.bind_some]
      by_cases hzero : a.1 = 0
      · rwa [if_pos hzero] at hrest ⊢
      · rw [if_neg hzero] at hrest ⊢
        exact ih hk hrest
    · rw [if_neg hp] at hm ⊢
      exact ih hk hm

/-- A new region as a block that the program holds. -/
theorem Tidy.grow (ht : Tidy base mem p l held regions) {a m : ℕ} (hm : 0 < m)
    (hapart : ∀ r ∈ regions, Apart (a, HEADER * m) r) (haway : Away base (a, HEADER * m))
    (ha : 0 < a) (htotal : HEADER * m + (regions.map Prod.snd).sum < 2 ^ 36) :
    Tidy base (setSize mem a m) p l (a :: held) ((a, HEADER * m) :: regions) ∧
      ∀ x ∈ held, setSize mem a m x = mem x := by
  have hab : a ≠ base := by
    intro heq
    unfold Away HEADER at haway
    dsimp only at haway
    omega
  have hfresh : a ∉ used base (p :: l) held := by
    intro hau
    obtain ⟨r, hr, hin⟩ := ht.tiles.start (List.mem_map_of_mem hau)
    have hr := hapart r hr
    unfold Apart HEADER at hr
    unfold Inside block at hin
    dsimp only at hr hin
    omega
  have hother : ∀ x ∈ used base (p :: l) held, setSize mem a m x = mem x := fun x hx => by
    have hxa : x ≠ a := fun heq => hfresh (heq ▸ hx)
    exact setSize_of_ne hxa
  have hal : ∀ x ∈ p :: l, setSize mem a m x = mem x := by
    intro x hx
    by_cases hxb : x = base
    · exact setSize_of_ne (hxb ▸ hab.symm)
    · exact hother x (mem_used.mpr (Or.inl ⟨hx, hxb⟩))
  have hnext : next (setSize mem a m) = next mem := funext fun w => by rw [next, setSize_ptr]
  refine ⟨⟨⟨⟨ht.base_pos, ht.base_mem, ?_, ?_, ?_, ?_⟩, hnext.symm ▸ ht.path, ht.ascends⟩, ?_⟩, ?_⟩
  · rw [hal base ht.base_mem]
    exact ht.base_size
  · have hgrow := ht.tiles.grow (a := a) (Nat.mul_pos (by decide) hm) hapart
    have hperm : (a :: used base (p :: l) held).Perm (used base (p :: l) (a :: held)) :=
      List.perm_middle.symm
    refine Tiles.perm ?_ (hperm.map _)
    have hself : block (setSize mem a m) a = (a, HEADER * m) := by rw [block, setSize_self]
    have hrest : (used base (p :: l) held).map (block (setSize mem a m)) =
        (used base (p :: l) held).map (block mem) :=
      List.map_congr_left fun w hw => by rw [block, block, hother w hw]
    rw [List.map_cons, hself, hrest]
    exact hgrow
  · intro r hr
    obtain rfl | hr := List.mem_cons.mp hr
    · exact ⟨haway, ha⟩
    · exact ht.away r hr
  · rw [List.map_cons, List.sum_cons]
    exact htotal
  · intro x hx
    exact gap_congr (hal x hx) (ht.gap x hx)
  · intro x hx
    exact hother x (mem_used.mpr (Or.inr hx))

end Loop

/-- `sbrk` fails, or hands out memory apart from all it has handed out, and from the variable
`base`. -/
structure Fresh {S : Type} (base : ℕ) (sbrk : S → ℤ → Option ℕ × S) (regions : S → List Block) :
    Prop where
  failed : ∀ st n, (sbrk st n).1 = none → regions (sbrk st n).2 = regions st
  grown : ∀ st n a, 0 < n → (sbrk st n).1 = some a →
    regions (sbrk st n).2 = (a, n.toNat) :: regions st
  apart : ∀ st n a, 0 < n → (sbrk st n).1 = some a → ∀ r ∈ regions st, Apart (a, n.toNat) r
  away : ∀ st n a, 0 < n → (sbrk st n).1 = some a → Apart (base, HEADER) (a, n.toNat) ∧ 0 < a

/-- The sizes are in the range of `uint`, and no memory ends at the variable `base`. -/
def Room (base : ℕ) (regions : List Block) : Prop :=
  (regions.map Prod.snd).sum < 2 ^ 36 ∧ ∀ r ∈ regions, r.1 + r.2 ≠ base

/-- The same for a relation between the states of `sbrk` and the memory it has handed out. -/
structure Supplies {S : Type} (base : ℕ) (sbrk : S → ℤ → Option ℕ × S)
    (R : S → List Block → Prop) : Prop where
  room : ∀ st rs, R st rs → Room base rs
  failed : ∀ st rs n, 0 < n → R st rs → (sbrk st n).1 = none → R (sbrk st n).2 rs
  grown : ∀ st rs n a, 0 < n → R st rs → (sbrk st n).1 = some a →
    R (sbrk st n).2 ((a, n.toNat) :: rs) ∧ (∀ r ∈ rs, Apart (a, n.toNat) r) ∧
      Apart (base, HEADER) (a, n.toNat) ∧ 0 < a

theorem Fresh.supplies {S : Type} {sbrk : S → ℤ → Option ℕ × S} {regions : S → List Block}
    (h : Fresh base sbrk regions) (hroom : ∀ st, Room base (regions st)) :
    Supplies base sbrk fun st rs => regions st = rs where
  room := by
    intro st rs hst
    exact hst ▸ hroom st
  failed := by
    intro st rs n _ hst hsb
    exact (h.failed st n hsb).trans hst
  grown := by
    intro st rs n a hn hst hsb
    refine ⟨?_, hst ▸ h.apart st n a hn hsb, h.away st n a hn hsb⟩
    rw [h.grown st n a hn hsb, hst]

section Malloc

variable {S : Type} {sbrk : S → ℤ → Option ℕ × S} {R : S → List Block → Prop} {h : Heap} {st : S}
  {rs : List Block}

/-- What `malloc` of `n` units leaves. -/
inductive Allocated (base n : ℕ) (held : List ℕ) (R : S → List Block → Prop) (h : Heap) :
    ℕ × Heap × S → Prop
  | failed {h' : Heap} {st' : S} {l : List ℕ} {rs : List Block} : R st' rs →
    Tidy base h'.mem h'.freep l held rs →
    (∀ x ∈ held, (h'.mem x).size = (h.mem x).size) → Allocated base n held R h (0, h', st')
  | block {a : ℕ} {h' : Heap} {st' : S} {l : List ℕ} {rs : List Block} : R st' rs →
    Tidy base h'.mem h'.freep l (a :: held) rs → (h'.mem a).size = n →
    (∀ x ∈ held, (h'.mem x).size = (h.mem x).size) →
    Allocated base n held R h (a + HEADER, h', st')

theorem sbrkArg_eq {nu : ℕ} (h : HEADER * nu < 2 ^ 31) : sbrkArg nu = (HEADER * nu : ℕ) := by
  have hmul : nu * HEADER = HEADER * nu := Nat.mul_comm _ _
  unfold sbrkArg
  rw [hmul, BitVec.toInt_eq_toNat_of_lt, BitVec.toNat_ofNat]
  · rw [Nat.mod_eq_of_lt (by omega)]
  · rw [BitVec.toNat_ofNat, Nat.mod_eq_of_lt (by omega)]
    omega

variable {fuel nu a : ℕ}

theorem morecore_none (hnu : (if n < 4096 then 4096 else n) = nu)
    (hsb : (sbrk st (sbrkArg nu)).1 = none) :
    morecore sbrk fuel h st n = some (0, h, (sbrk st (sbrkArg nu)).2) := by
  unfold morecore
  dsimp only
  rw [hnu]
  generalize sbrk st (sbrkArg nu) = r at hsb ⊢
  obtain ⟨o, st'⟩ := r
  obtain rfl : o = none := hsb
  rfl

theorem morecore_some (hnu : (if n < 4096 then 4096 else n) = nu)
    (hsb : (sbrk st (sbrkArg nu)).1 = some a) :
    morecore sbrk fuel h st n =
      (free fuel { h with mem := setSize h.mem a nu } (a + HEADER)).map fun h =>
        (h.freep, h, (sbrk st (sbrkArg nu)).2) := by
  unfold morecore
  dsimp only
  rw [hnu]
  generalize sbrk st (sbrkArg nu) = r at hsb ⊢
  obtain ⟨o, st'⟩ := r
  obtain rfl : o = some a := hsb
  rfl

theorem mallocLoop_spec (hsup : Supplies base sbrk R) (hst : R st rs)
    (ht : Tidy base h.mem h.freep l held rs) (hn : 0 < n) (hsmall : HEADER * n < 2 ^ 31) :
    ∃ r k, Allocated base n held R h r ∧ ∀ fuel, k ≤ fuel →
      mallocLoop sbrk n fuel h st h.freep (next h.mem h.freep) = some r := by
  by_cases hex : ∃ x ∈ h.freep :: l, n ≤ (h.mem x).size
  · obtain ⟨a, h', l', ht', hsize, hheld, hloop⟩ := mallocLoop_fit sbrk st ht hn hex
    exact ⟨(a + HEADER, h', st), l.length + 1, .block hst ht' hsize hheld, hloop⟩
  · have hnone : ∀ x ∈ h.freep :: l, (h.mem x).size < n := fun x hx =>
      not_le.mp fun hfit => hex ⟨x, hx, hfit⟩
    have hloop := mallocLoop_small sbrk st ht hnone
    -- the number of units that `morecore` asks for
    obtain ⟨nu, hnu, hle, hlt⟩ : ∃ nu, (if n < 4096 then 4096 else n) = nu ∧ n ≤ nu ∧
        HEADER * nu < 2 ^ 31 := by
      unfold HEADER at hsmall ⊢
      exact ⟨_, rfl, by split <;> omega, by split <;> omega⟩
    have hpos : (0 : ℤ) < sbrkArg nu := by
      rw [sbrkArg_eq hlt]
      unfold HEADER
      omega
    have hnat : (sbrkArg nu).toNat = HEADER * nu := by
      rw [sbrkArg_eq hlt]
      exact Int.toNat_natCast _
    cases hsb : (sbrk st (sbrkArg nu)).1 with
    | none =>
      refine ⟨(0, h, (sbrk st (sbrkArg nu)).2), l.length + 1,
        .failed (hsup.failed st rs _ hpos hst hsb) ht fun _ _ => rfl, ?_⟩
      · intro fuel hfuel
        obtain ⟨j, rfl⟩ : ∃ j, fuel = j + 1 + l.length := ⟨fuel - 1 - l.length, by omega⟩
        rw [hloop, morecore_none hnu hsb]
        rfl
    | some a =>
      obtain ⟨hgrown, hapart, hoff, ha⟩ := hsup.grown st rs _ a hpos hst hsb
      obtain ⟨htotal, hend⟩ := hsup.room _ _ hgrown
      have hend := hend _ List.mem_cons_self
      rw [List.map_cons, List.sum_cons, hnat] at htotal
      rw [hnat] at hgrown hapart hoff hend
      have haway : Away base (a, HEADER * nu) := by
        unfold Apart at hoff
        unfold Away
        dsimp only at hoff hend ⊢
        omega
      obtain ⟨ht1, hheld1⟩ := ht.grow (hn.trans_le hle) hapart haway ha htotal
      obtain ⟨h2, l2, ht2, ⟨x, hx, hlarge⟩, hheld2, hfree⟩ :=
        Tidy.freed (h := { h with mem := setSize h.mem a nu }) ht1
      have hself : (setSize h.mem a nu a).size = nu := by rw [setSize_self]
      have hfit : n ≤ (h2.mem x).size := hle.trans (hself.ge.trans hlarge)
      obtain ⟨b, h3, l3, ht3, hsize, hheld3, hloop3⟩ :=
        mallocLoop_fit sbrk (sbrk st (sbrkArg nu)).2 ht2 hn ⟨x, hx, hfit⟩
      refine ⟨(b + HEADER, h3, (sbrk st (sbrkArg nu)).2), l.length + 1 + (l.length + l2.length + 1),
        .block hgrown ht3 hsize fun y hy => ?_, fun fuel hfuel => ?_⟩
      · rw [hheld3 y hy, hheld2 y hy]
        exact congrArg Header.size (hheld1 y hy)
      · obtain ⟨j, rfl⟩ : ∃ j, fuel = j + 1 + l.length := ⟨fuel - 1 - l.length, by omega⟩
        have hfreep : h2.freep ≠ 0 := (ht2.pos List.mem_cons_self).ne'
        rw [hloop, morecore_some hnu hsb, hfree j (by omega)]
        show (if h2.freep = 0 then _ else _) = _
        rw [if_neg hfreep]
        exact hloop3 j (by omega)

/-- The heap before the first `malloc`, or with a tidy free list. -/
inductive Valid (base : ℕ) (h : Heap) : List ℕ → List Block → Prop
  | unused : h.freep = 0 → Valid base h [] []
  | list {l held : List ℕ} {regions : List Block} :
    Tidy base h.mem h.freep l held regions → Valid base h held regions

/-- The free list that the first `malloc` starts with. -/
theorem tidy_base (hbase : 0 < base) (mem : ℕ → Header) :
    Tidy base (setSize (setPtr mem base base) base 0) base [] [] [] := by
  have hself : setSize (setPtr mem base base) base 0 base = { ptr := base, size := 0 } := by
    rw [setSize_self, setPtr_self]
  refine ⟨⟨⟨hbase, List.mem_cons_self, ?_, ?_, ?_, by decide⟩, ?_, ?_⟩, ?_⟩
  · rw [hself]
  · have hused : used base [base] [] = [] := by simp [used]
    rw [hused]
    exact tiles_nil
  · exact fun r hr => absurd hr List.not_mem_nil
  · exact congrArg Header.ptr hself
  · exact ⟨[], [base], rfl, List.pairwise_singleton _ _⟩
  · intro x hx hne
    exact absurd (List.mem_singleton.mp hx) hne

/-- `malloc` returns, with a block or with nothing. -/
theorem malloc_spec (hbase : 0 < base) (hsup : Supplies base sbrk R) (hst : R st rs)
    (hv : Valid base h held rs) {nbytes : ℕ} (hsmall : HEADER * units nbytes < 2 ^ 31) :
    ∃ r k, Allocated base (units nbytes) held R h r ∧
      ∀ fuel, k ≤ fuel → malloc sbrk base fuel h st nbytes = some r := by
  have hn : 0 < units nbytes := Nat.succ_pos _
  have hmod : units nbytes % 2 ^ 32 = units nbytes := by
    unfold HEADER at hsmall
    exact Nat.mod_eq_of_lt (by omega)
  unfold malloc
  rw [hmod]
  cases hv with
  | unused hfreep =>
    rw [if_pos hfreep]
    obtain ⟨r, k, halloc, hloop⟩ :=
      mallocLoop_spec (h := ⟨_, base⟩) hsup hst (tidy_base hbase h.mem) hn hsmall
    refine ⟨r, k, ?_, hloop⟩
    cases halloc with
    | failed hst ht _ => exact .failed hst ht fun x hx => absurd hx List.not_mem_nil
    | block hst ht hsize _ => exact .block hst ht hsize fun x hx => absurd hx List.not_mem_nil
  | list ht =>
    rw [if_neg (ht.pos List.mem_cons_self).ne']
    exact mallocLoop_spec hsup hst ht hn hsmall

end Malloc

end Xv6.Umalloc
