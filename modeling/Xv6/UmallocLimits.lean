import Xv6.UmallocRun

/-!
# Where the allocator's sizes end

With contiguous memory of more than `2 ^ 36` bytes, the size of a joined block wraps around in
its `uint`. With memory that ends at the variable `base`, `base` is joined to a block and
leaves the free list.
-/
namespace Xv6.Umalloc

open Function LinkedCycle Tiling

/-- The end of the memory so far. -/
def top (st : List Block) : ℕ := st.foldr (fun r m => max (r.1 + r.2) m) 4096

/-- Contiguous memory from address 4096 on, without end. -/
def upwards (st : List Block) (n : ℤ) : Option ℕ × List Block :=
  if 0 < n then (some (top st), (top st, n.toNat) :: st) else (none, st)

theorem le_top (st : List Block) : 4096 ≤ top st := by
  induction st with
  | nil => exact le_rfl
  | cons r st ih => exact ih.trans (le_max_right _ _)

theorem end_le_top {st : List Block} {a n : ℕ} (h : (a, n) ∈ st) : a + n ≤ top st := by
  induction st with
  | nil => exact absurd h List.not_mem_nil
  | cons q st ih =>
    obtain rfl | h := List.mem_cons.mp h
    · exact le_max_left _ _
    · exact (ih h).trans (le_max_right _ _)

theorem fresh_upwards : Fresh 16 upwards id := by
  constructor
  all_goals unfold upwards
  all_goals grind [Apart, le_top, end_le_top]

/-- The largest small request, and its number of units. -/
def largest : ℕ := 2 ^ 31 - 32

def largestUnits : ℕ := 2 ^ 27 - 1

/-- The address of the region `i`. -/
def region (i : ℕ) : ℕ := 4096 + i * (HEADER * largestUnits)

/-- The pointers after `i` requests. -/
def pointers : ℕ → List (ℕ × ℕ)
  | 0 => []
  | i + 1 => (region i + HEADER, largest) :: pointers i

/-- `n` requests, then all blocks freed. -/
def fillAndFree (n : ℕ) : List Act :=
  List.replicate n (.malloc largest 3) ++
    (pointers n).map fun x => .free x.1 1

theorem Ring.eq_pair {h : Heap} {c : List ℕ} {x : ℕ} (hr : Ring 16 h c) (hfreep : h.freep = 16)
    (hx : x ≠ 16) (hbase : (h.mem 16).ptr = x) (hself : (h.mem x).ptr = 16) : c = [16, x] := by
  obtain ⟨l, rfl, hpath⟩ := hr.cycle
  have hnodup := hr.ascends.nodup
  rw [hfreep] at hpath hnodup ⊢
  cases l with
  | nil =>
    have h16 : (h.mem 16).ptr = 16 := hpath
    exact absurd (hbase.symm.trans h16) hx
  | cons y l =>
    obtain ⟨hy, hpath⟩ := hpath
    obtain rfl : x = y := hbase.symm.trans hy
    cases l with
    | nil => rfl
    | cons z l =>
      obtain rfl : 16 = z := hself.symm.trans hpath.1
      simp at hnodup

/-- After 33 requests of the largest size, and all blocks freed, there is one free block. Its size
is a `uint`, and does not cover the memory. -/
lemma exec_fillAndFree :
    ∃ s, Runs.exec (step upwards 16) (initial (fun _ => ⟨0, 0⟩) []) (fillAndFree 33) = some s ∧
      s.live = [] ∧ ¬ ∃ c, Ring 16 s.heap c ∧
        Tiles ((used 16 c s.held).map (block s.heap.mem)) s.env := by
  have hrun : ((Runs.exec (step upwards 16) (initial (fun _ => ⟨0, 0⟩) []) (fillAndFree 33)).map
      fun s => (s.heap.freep, (s.heap.mem 16).ptr, (s.heap.mem 4096).ptr, (s.heap.mem 4096).size,
        s.live.length, (s.env.map Prod.snd).sum)) =
      some (16, 4096, 16, 33 * largestUnits % 2 ^ 32, 0, 33 * (HEADER * largestUnits)) := by
    decide +kernel
  obtain ⟨s, hexec, heq⟩ := Option.map_eq_some_iff.mp hrun
  simp only [Prod.mk.injEq, List.length_eq_zero_iff] at heq
  obtain ⟨hfreep, hbase, hptr, hsize, hlive, htotal⟩ := heq
  refine ⟨s, hexec, hlive, ?_⟩
  rintro ⟨c, hring, htiles⟩
  obtain rfl := hring.eq_pair hfreep (by decide) hbase hptr
  have hused : used 16 [16, 4096] s.held = [4096] := by
    rw [State.held, hlive]
    simp [used]
  have hsum := htiles.total
  rw [hused, htotal, List.map_cons, List.map_nil, List.map_cons, List.map_nil, List.sum_singleton,
    block, hsize] at hsum
  exact absurd hsum (by decide)

/-- Here `base` is at `2 ^ 20`. The first memory is above it, the second ends at it. -/
def around : List ℕ → ℤ → Option ℕ × List ℕ
  | [], n => if 0 < n then (some (2 ^ 20 + 4096), [n.toNat]) else (none, [])
  | [k], n => if 0 < n ∧ n < 2 ^ 20 then (some (2 ^ 20 - n.toNat), [n.toNat, k]) else (none, [k])
  | st, _ => (none, st)

def aroundRegions : List ℕ → List Block
  | [] => []
  | [k] => [(2 ^ 20 + 4096, k)]
  | m :: k :: _ => [(2 ^ 20 - m, m), (2 ^ 20 + 4096, k)]

theorem fresh_around : Fresh (2 ^ 20) around aroundRegions := by
  constructor
  all_goals unfold around
  all_goals grind [aroundRegions, Apart]

theorem heap_breaks :
    (Fresh 16 upwards id ∧
      ∃ s, Runs.exec (step upwards 16) (initial (fun _ => ⟨0, 0⟩) []) (fillAndFree 33) = some s ∧
        s.live = [] ∧ ¬ ∃ c, Ring 16 s.heap c ∧
          Tiles ((used 16 c s.held).map (block s.heap.mem)) s.env) ∧
    Fresh (2 ^ 20) around aroundRegions ∧
      ∃ s, Runs.exec (step around (2 ^ 20)) (initial (fun _ => ⟨0, 0⟩) [])
          [.malloc 16 9, .malloc 80000 9] = some s ∧
        s.heap.freep ≠ 0 ∧ ¬ ∃ c, Ring (2 ^ 20) s.heap c := by
  refine ⟨⟨fresh_upwards, exec_fillAndFree⟩, fresh_around, ?_⟩
  · have hrun : ((Runs.exec (step around (2 ^ 20)) (initial (fun _ => ⟨0, 0⟩) [])
        [.malloc 16 9, .malloc 80000 9]).map fun s =>
          (s.heap.freep, (s.heap.mem s.heap.freep).ptr)) =
        some (2 ^ 20 + 4096, 2 ^ 20 + 4096) := by decide +kernel
    obtain ⟨s, hexec, heq⟩ := Option.map_eq_some_iff.mp hrun
    obtain ⟨hfreep, hptr⟩ := Prod.mk.inj heq
    refine ⟨s, hexec, by rw [hfreep]; decide, fun hex => ?_⟩
    obtain ⟨c, hring⟩ := hex
    obtain ⟨l, rfl, hpath⟩ := hring.cycle
    have hnodup := hring.ascends.nodup
    have hbase := hring.base_mem
    cases l with
    | nil =>
      rw [hfreep] at hbase
      exact absurd (List.mem_singleton.mp hbase) (by decide)
    | cons y l =>
      have hy : s.heap.freep = y := hfreep.trans (hptr.symm.trans hpath.1)
      exact (List.nodup_cons.mp hnodup).1 (hy ▸ List.mem_cons_self)

end Xv6.Umalloc
