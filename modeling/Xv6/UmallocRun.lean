import Xv6.UmallocSpec
import Xv6.Runs

/-!
# Programs that use the allocator

A run is a sequence of calls of `malloc` and `free` and of writes of the program into its
blocks. After every run the free list is a cycle through `base` in ascending order, no two of
its blocks touch, and with the blocks of the program they are the memory from `sbrk`.
-/
namespace Xv6.Umalloc

open Function LinkedCycle Tiling

/-- The heap, `sbrk`, and the pointers that the program holds with the bytes it asked for. -/
structure State (S : Type) where
  heap : Heap
  env : S
  live : List (ℕ × ℕ)

inductive Act
  | malloc (nbytes fuel : ℕ)
  | free (ap fuel : ℕ)
  /-- The program writes to one of its blocks. -/
  | write (a : ℕ) (v : Header)

/-- The number of bytes for a request is a positive `int`. -/
abbrev Small (nbytes : ℕ) : Prop := HEADER * units nbytes < 2 ^ 31

variable {S : Type} (sbrk : S → ℤ → Option ℕ × S) (base : ℕ)

def State.held (s : State S) : List ℕ := s.live.map fun x => x.1 - HEADER

def step (s : State S) : Act → Option (State S)
  | .malloc nbytes fuel =>
    if Small nbytes then
      (malloc sbrk base fuel s.heap s.env nbytes).map fun r =>
        { heap := r.2.1, env := r.2.2, live := if r.1 = 0 then s.live else (r.1, nbytes) :: s.live }
    else none
  | .free ap fuel =>
    if ∃ x ∈ s.live, x.1 = ap then
      (free fuel s.heap ap).map fun h =>
        { s with heap := h, live := s.live.eraseP fun x => x.1 = ap }
    else none
  | .write a v =>
    if ∃ x ∈ s.held, x < a ∧ a < blockEnd s.heap.mem x then
      some { s with heap := { s.heap with mem := update s.heap.mem a v } }
    else none

def initial (mem : ℕ → Header) (env : S) : State S := { heap := ⟨mem, 0⟩, env := env, live := [] }

variable {sbrk base} {R : S → List Block → Prop} {s s' : State S}

structure Inv (base : ℕ) (R : S → List Block → Prop) (s : State S) : Prop where
  valid : ∃ rs, R s.env rs ∧ Valid base s.heap s.held rs
  /-- A block has room for what was asked for, after its header. -/
  room : ∀ x ∈ s.live, HEADER ≤ x.1 ∧ x.1 + x.2 ≤ blockEnd s.heap.mem (x.1 - HEADER)

theorem inv_initial {mem : ℕ → Header} {env : S} (henv : R env []) :
    Inv base R (initial mem env) where
  valid := ⟨[], henv, .unused rfl⟩
  room := fun _ hx => absurd hx List.not_mem_nil

theorem room_units (nbytes a : ℕ) : a + HEADER + nbytes ≤ a + HEADER * units nbytes := by
  unfold units HEADER
  omega

variable {l held : List ℕ} {rs : List Block}

/-- A tidy list whose blocks did not change. -/
theorem Tidy.congr {mem mem' : ℕ → Header} {p : ℕ} (h : Tidy base mem p l held rs)
    (hl : ∀ x ∈ p :: l, mem' x = mem x) (hheld : ∀ x ∈ held, mem' x = mem x) :
    Tidy base mem' p l held rs := by
  refine ⟨⟨⟨h.base_pos, h.base_mem, ?_, ?_, h.away, h.total⟩, ?_, h.ascends⟩, ?_⟩
  · rw [hl base h.base_mem]
    exact h.base_size
  · have hblocks : (used base (p :: l) held).map (block mem') =
        (used base (p :: l) held).map (block mem) := by
      refine List.map_congr_left fun x hx => ?_
      obtain hx | hx := mem_used.mp hx
      · rw [block, block, hl x hx.1]
      · rw [block, block, hheld x hx]
    rw [hblocks]
    exact h.tiles
  · exact h.path.congr fun x hx => congrArg Header.ptr (hl x hx)
  · exact fun x hx => gap_congr (hl x hx) (h.gap x hx)

/-- A write inside a block changes no header. -/
theorem Tidy.write {mem : ℕ → Header} {p x a : ℕ} (h : Tidy base mem p l held rs) (hx : x ∈ held)
    (hxa : x < a) (ha : a < blockEnd mem x) : a ∉ p :: l ∧ a ∉ held := by
  have hxu : x ∈ used base (p :: l) held := mem_used.mpr (Or.inr hx)
  have hin : Inside a (block mem x) := ⟨hxa.le, ha⟩
  have hab : a ≠ base := fun heq => h.not_inside_base hxu (heq ▸ hin)
  have hfresh : a ∉ used base (p :: l) held := by
    intro hau
    have hself : Inside a (block mem a) :=
      ⟨le_rfl, Nat.lt_add_of_pos_right (h.tiles.pos _ (List.mem_map_of_mem hau))⟩
    exact hxa.ne (h.eq_of_inside hxu hau hin hself)
  exact ⟨fun hl => hfresh (mem_used.mpr (Or.inl ⟨hl, hab⟩)),
    fun hh => hfresh (mem_used.mpr (Or.inr hh))⟩

theorem blockEnd_congr {mem mem' : ℕ → Header} {x : ℕ} (h : (mem' x).size = (mem x).size) :
    blockEnd mem' x = blockEnd mem x := by
  rw [blockEnd, blockEnd, h]

/-- A program that holds a block has a free list. -/
theorem Inv.tidy (h : Inv base R s) {x : ℕ} (hx : x ∈ s.held) :
    ∃ rs l, R s.env rs ∧ Tidy base s.heap.mem s.heap.freep l s.held rs := by
  obtain ⟨rs, hrs, hvalid⟩ := h.valid
  generalize s.held = held at hx hvalid
  cases hvalid with
  | unused => exact absurd hx List.not_mem_nil
  | list ht => exact ⟨rs, _, hrs, ht⟩

theorem step_malloc_mono {nbytes k k' : ℕ} (hk : k ≤ k')
    (h : step sbrk base s (.malloc nbytes k) = some s') :
    step sbrk base s (.malloc nbytes k') = some s' := by
  rw [step] at h ⊢
  by_cases hsmall : Small nbytes
  · rw [if_pos hsmall] at h ⊢
    obtain ⟨r, hr, rfl⟩ := Option.map_eq_some_iff.mp h
    have hr' : malloc sbrk base k' s.heap s.env nbytes = some r := mallocLoop_mono sbrk hk hr
    rw [hr']
    rfl
  · rw [if_neg hsmall] at h
    cases h

theorem step_free_mono {ap k k' : ℕ} (hk : k ≤ k')
    (h : step sbrk base s (.free ap k) = some s') :
    step sbrk base s (.free ap k') = some s' := by
  rw [step] at h ⊢
  by_cases hap : ∃ x ∈ s.live, x.1 = ap
  · rw [if_pos hap] at h ⊢
    obtain ⟨r, hr, rfl⟩ := Option.map_eq_some_iff.mp h
    rw [free_mono hk hr]
    rfl
  · rw [if_neg hap] at h
    cases h

variable (sbrk) in
theorem Inv.free (h : Inv base R s) {ap : ℕ} (hap : ∃ x ∈ s.live, x.1 = ap) :
    ∃ s' k, Inv base R s' ∧
      ∀ fuel, k ≤ fuel → step sbrk base s (.free ap fuel) = some s' := by
  obtain ⟨x, hx, hxap⟩ := hap
  obtain ⟨y, l1, l2, -, hy, hlive, herase⟩ := List.exists_of_eraseP (p := fun x => x.1 = ap) hx
    (decide_eq_true hxap)
  have hy : y.1 = ap := of_decide_eq_true hy
  have hyroom := h.room y (hlive ▸ List.mem_append_right l1 List.mem_cons_self)
  have hrest : ∀ z ∈ l1 ++ l2, z ∈ s.live := fun z hz => by
    rw [hlive]
    exact (List.perm_middle.mem_iff).mpr (List.mem_cons_of_mem y hz)
  have hperm : s.held.Perm ((ap - HEADER) :: (l1 ++ l2).map fun x => x.1 - HEADER) := by
    rw [State.held, hlive, ← hy]
    exact List.perm_middle.map _
  obtain ⟨rs, l, hrs, ht⟩ := h.tidy (hperm.mem_iff.mpr List.mem_cons_self)
  obtain ⟨h', l', ht', -, hsize, hfree⟩ := (ht.held_perm hperm).freed
  have hback : ap - HEADER + HEADER = ap := Nat.sub_add_cancel (hy ▸ hyroom.1)
  rw [hback] at hfree
  refine ⟨{ s with heap := h', live := l1 ++ l2 }, l.length + 1, ⟨⟨rs, hrs, .list ht'⟩, ?_⟩, ?_⟩
  · intro z hz
    have hzs : (h'.mem (z.1 - HEADER)).size = (s.heap.mem (z.1 - HEADER)).size :=
      congrArg Header.size (hsize _ (List.mem_map_of_mem hz))
    dsimp only
    rw [blockEnd_congr hzs]
    exact h.room z (hrest z hz)
  · intro fuel hfuel
    rw [step, if_pos ⟨x, hx, hxap⟩, hfree fuel hfuel, herase]
    rfl

theorem Inv.write (h : Inv base R s) {a : ℕ} {v : Header}
    (ha : ∃ x ∈ s.held, x < a ∧ a < blockEnd s.heap.mem x) :
    Inv base R { s with heap := { s.heap with mem := update s.heap.mem a v } } := by
  obtain ⟨x, hx, hxa, hend⟩ := ha
  obtain ⟨rs, l, hrs, ht⟩ := h.tidy hx
  obtain ⟨hl, hheld⟩ := ht.write hx hxa hend
  have hother : ∀ y ∈ s.held, update s.heap.mem a v y = s.heap.mem y := fun y hy => by
    have hya : y ≠ a := fun heq => hheld (heq ▸ hy)
    exact update_of_ne hya ..
  constructor
  · refine ⟨rs, hrs, .list (ht.congr (fun y hy => ?_) hother)⟩
    have hya : y ≠ a := fun heq => hl (heq ▸ hy)
    exact update_of_ne hya ..
  · intro y hy
    have hsize := congrArg Header.size (hother _ (List.mem_map_of_mem hy))
    dsimp only
    rw [blockEnd_congr hsize]
    exact h.room y hy

section Steps

variable (hbase : 0 < base) (hsup : Supplies base sbrk R)

include hbase hsup

theorem Inv.malloc (h : Inv base R s) {nbytes : ℕ} (hsmall : Small nbytes) :
    ∃ s' k, Inv base R s' ∧
      ∀ fuel, k ≤ fuel → step sbrk base s (.malloc nbytes fuel) = some s' := by
  obtain ⟨rs, hrs, hvalid⟩ := h.valid
  obtain ⟨r, k, halloc, hmalloc⟩ := malloc_spec hbase hsup hrs hvalid hsmall
  refine ⟨⟨r.2.1, r.2.2, if r.1 = 0 then s.live else (r.1, nbytes) :: s.live⟩, k, ?_, ?_⟩
  · have hroom : ∀ h' : Heap, (∀ x ∈ s.held, (h'.mem x).size = (s.heap.mem x).size) →
        ∀ x ∈ s.live, HEADER ≤ x.1 ∧ x.1 + x.2 ≤ blockEnd h'.mem (x.1 - HEADER) := by
      intro h' hsize x hx
      rw [blockEnd_congr (hsize _ (List.mem_map_of_mem hx))]
      exact h.room x hx
    cases halloc with
    | failed hst ht hsize => exact ⟨⟨_, hst, .list ht⟩, hroom _ hsize⟩
    | @block a h' st' l rs hst ht hn hsize =>
      have hne : a + HEADER ≠ 0 := Nat.succ_ne_zero _
      dsimp only
      rw [if_neg hne]
      refine ⟨?_, fun x hx => ?_⟩
      · show ∃ rs, R st' rs ∧ Valid base h' ((a + HEADER - HEADER) :: s.held) rs
        rw [Nat.add_sub_cancel]
        exact ⟨rs, hst, .list ht⟩
      · obtain rfl | hx := List.mem_cons.mp hx
        · refine ⟨Nat.le_add_left _ _, ?_⟩
          dsimp only
          rw [Nat.add_sub_cancel, blockEnd, hn]
          exact room_units nbytes a
        · exact hroom h' hsize x hx
  · intro fuel hfuel
    rw [step, if_pos hsmall, hmalloc fuel hfuel]
    rfl

theorem inv_step (h : Inv base R s) (a : Act) (hstep : step sbrk base s a = some s') :
    Inv base R s' := by
  cases a with
  | malloc nbytes fuel =>
    by_cases hsmall : Small nbytes
    · obtain ⟨t, k, ht, hfuel⟩ := h.malloc hbase hsup hsmall
      have hmax := step_malloc_mono (le_max_left fuel k) hstep
      rw [hfuel _ (le_max_right fuel k)] at hmax
      exact Option.some.inj hmax ▸ ht
    · rw [step, if_neg hsmall] at hstep
      cases hstep
  | free ap fuel =>
    by_cases hap : ∃ x ∈ s.live, x.1 = ap
    · obtain ⟨t, k, ht, hfuel⟩ := h.free sbrk hap
      have hmax := step_free_mono (le_max_left fuel k) hstep
      rw [hfuel _ (le_max_right fuel k)] at hmax
      exact Option.some.inj hmax ▸ ht
    · rw [step, if_neg hap] at hstep
      cases hstep
  | write a v =>
    by_cases ha : ∃ x ∈ s.held, x < a ∧ a < blockEnd s.heap.mem x
    · rw [step, if_pos ha] at hstep
      cases hstep
      exact h.write ha
    · rw [step, if_neg ha] at hstep
      cases hstep

end Steps

/-- The free list is a cycle through `base` from `freep` that ascends except for one turn, and
no block of it ends where another one starts. -/
structure Ring (base : ℕ) (h : Heap) (c : List ℕ) : Prop where
  cycle : ∃ l, c = h.freep :: l ∧ Path (next h.mem) h.freep l h.freep
  base_mem : base ∈ c
  ascends : Ascends c
  apart : ∀ x ∈ c, ∀ y ∈ c, x ≠ y → blockEnd h.mem x ≠ y

theorem Tidy.ring {h : Heap} (ht : Tidy base h.mem h.freep l held rs) :
    Ring base h (h.freep :: l) where
  cycle := ⟨l, rfl, ht.path⟩
  base_mem := ht.base_mem
  ascends := ht.ascends
  apart := fun _ hx _ hy hxy => ht.blockEnd_ne hx hy hxy

/-- With no block left, the free blocks are the contiguous stretches of memory. -/
theorem Tidy.stretches {h : Heap} {l : List ℕ} (ht : Tidy base h.mem h.freep l [] rs) (b : Block) :
    b ∈ (used base (h.freep :: l) []).map (block h.mem) ↔ Stretch rs b := by
  refine ht.tiles.mem_iff_stretch (fun b hb c hc => ?_) b
  obtain ⟨x, hx, rfl⟩ := List.mem_map.mp hb
  obtain ⟨y, hy, rfl⟩ := List.mem_map.mp hc
  have hpos := ht.size_pos hx
  obtain ⟨hxl, -⟩ := (mem_used.mp hx).resolve_right List.not_mem_nil
  obtain ⟨hyl, -⟩ := (mem_used.mp hy).resolve_right List.not_mem_nil
  by_cases hxy : x = y
  · subst hxy
    unfold block HEADER
    dsimp only
    omega
  · exact ht.blockEnd_ne hxl hyl hxy

/-- After every run, with memory from `sbrk` that leaves `Room`: the free list is a ring; its
blocks and those of the program are apart and are the memory from `sbrk`; a block of the
program has room for what was asked for; with no block left, the free blocks are the contiguous
stretches. Every further `malloc` and `free` returns. -/
theorem heap_after_run {regions : S → List Block} (hbase : 0 < base) (hfresh : Fresh base sbrk regions)
    (hroom : ∀ st, Room base (regions st)) {mem : ℕ → Header} {env : S} {acts : List Act}
    (henv : regions env = []) (hrun : Runs.exec (step sbrk base) (initial mem env) acts = some s) :
    (∃ c, (c = [] ∧ s.heap.freep = 0 ∨ Ring base s.heap c) ∧
      Tiles ((used base c s.held).map (block s.heap.mem)) (regions s.env) ∧
      (∀ x ∈ s.live, HEADER ≤ x.1 ∧ x.1 + x.2 ≤ blockEnd s.heap.mem (x.1 - HEADER)) ∧
      (s.live = [] → ∀ b,
        b ∈ (used base c []).map (block s.heap.mem) ↔ Stretch (regions s.env) b)) ∧
    (∀ nbytes, Small nbytes → ∃ k, ∀ fuel, k ≤ fuel →
      ∃ s', step sbrk base s (.malloc nbytes fuel) = some s') ∧
    ∀ x ∈ s.live, ∃ k, ∀ fuel, k ≤ fuel → ∃ s', step sbrk base s (.free x.1 fuel) = some s' := by
  have hsup := hfresh.supplies hroom
  have h : Inv base (fun st rs => regions st = rs) s := Runs.invariant
    (fun _ a _ hs hstep => inv_step hbase hsup hs a hstep) (inv_initial henv) hrun
  refine ⟨?_, fun nbytes hsmall => ?_, fun x hx => ?_⟩
  · obtain ⟨rs, hrs, hvalid⟩ := h.valid
    rw [hrs]
    have hlive : s.live = [] → s.held = [] := fun heq => by rw [State.held, heq]; rfl
    generalize s.held = held at hvalid hlive ⊢
    cases hvalid with
    | unused hfreep =>
      refine ⟨[], Or.inl ⟨rfl, hfreep⟩, tiles_nil, h.room, fun _ b => ?_⟩
      exact tiles_nil.mem_iff_stretch (fun b hb => absurd hb List.not_mem_nil) b
    | list ht =>
      refine ⟨_, Or.inr ht.ring, ht.tiles, h.room, fun heq b => ?_⟩
      rw [hlive heq] at ht
      exact ht.stretches b
  · obtain ⟨s', k, -, hk⟩ := h.malloc hbase hsup hsmall
    exact ⟨k, fun fuel hfuel => ⟨s', hk fuel hfuel⟩⟩
  · obtain ⟨s', k, -, hk⟩ := h.free sbrk ⟨x, hx, rfl⟩
    exact ⟨k, fun fuel hfuel => ⟨s', hk fuel hfuel⟩⟩

/-- Memory of less than `2 ^ 20` bytes at address 4096, once. The state is its length. -/
def once (st : ℕ) (n : ℤ) : Option ℕ × ℕ :=
  if st = 0 ∧ 0 < n ∧ n < 2 ^ 20 then (some 4096, n.toNat) else (none, st)

def onceRegions (st : ℕ) : List Block := if 0 < st ∧ st < 2 ^ 20 then [(4096, st)] else []

theorem fresh_once : Fresh 16 once onceRegions where
  failed := by
    intro st n h
    unfold once at h ⊢
    split at h
    · cases h
    · next hn => rw [if_neg hn]
  grown := by
    intro st n a _ h
    unfold once at h ⊢
    split at h
    · next hn =>
      obtain rfl := Option.some.inj h
      have hlt : 0 < n.toNat ∧ n.toNat < 2 ^ 20 := by omega
      rw [if_pos hn, hn.1, onceRegions, if_pos hlt]
      rfl
    · cases h
  apart := by
    intro st n a _ h r hr
    unfold once at h
    split at h
    · next hn =>
      rw [hn.1] at hr
      exact absurd hr List.not_mem_nil
    · cases h
  away := by
    intro st n a _ h
    unfold once at h
    split at h
    · obtain rfl := Option.some.inj h
      exact ⟨Or.inl (by unfold HEADER; dsimp only; omega), by decide⟩
    · cases h

theorem room_once (st : ℕ) : Room 16 (onceRegions st) := by
  unfold onceRegions
  split
  · next h =>
    refine ⟨?_, fun r hr => ?_⟩
    · rw [List.map_cons, List.map_nil, List.sum_singleton]
      omega
    · obtain rfl := List.mem_singleton.mp hr
      dsimp only
      omega
  · exact ⟨by decide, fun r hr => absurd hr List.not_mem_nil⟩

theorem heap_after_run_once :
    ∃ s, Runs.exec (step once 16) (initial (fun _ => ⟨0, 0⟩) 0)
        [.malloc 100 9, .malloc 5000 9, .free 69520 9] = some s ∧
      s.live = [(64496, 5000)] ∧ ∃ c, Ring 16 s.heap c ∧
        Tiles ((used 16 c s.held).map (block s.heap.mem)) [(4096, 65536)] := by
  have hrun : ((Runs.exec (step once 16) (initial (fun _ => ⟨0, 0⟩) 0)
      [.malloc 100 9, .malloc 5000 9, .free 69520 9]).map fun s =>
        (s.live, s.heap.freep, s.env)) = some ([(64496, 5000)], 4096, 65536) := by decide +kernel
  obtain ⟨s, hexec, heq⟩ := Option.map_eq_some_iff.mp hrun
  obtain ⟨hlive, heq⟩ := Prod.mk.inj heq
  obtain ⟨hfreep, henv⟩ := Prod.mk.inj heq
  obtain ⟨⟨c, hring, htiles, -⟩, -⟩ :=
    heap_after_run (by decide) fresh_once room_once (rfl : onceRegions 0 = []) hexec
  rw [henv] at htiles
  exact ⟨s, hexec, hlive, c, hring.resolve_left fun h => absurd (hfreep.symm.trans h.2) (by decide),
    htiles⟩

end Xv6.Umalloc
