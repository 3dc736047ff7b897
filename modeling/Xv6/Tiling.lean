import Mathlib.Tactic

/-!
# Blocks that tile regions

A block is a pair of an address and a length. Blocks tile regions when no two of them overlap
and together they are the regions.
-/
namespace Tiling

abbrev Block := ℕ × ℕ

def Inside (x : ℕ) (b : Block) : Prop := b.1 ≤ x ∧ x < b.1 + b.2

def Apart (b c : Block) : Prop := b.1 + b.2 ≤ c.1 ∨ c.1 + c.2 ≤ b.1

theorem Apart.symm {b c : Block} (h : Apart b c) : Apart c b := Or.symm h

def Covered (x : ℕ) (bs : List Block) : Prop := ∃ b ∈ bs, Inside x b

theorem covered_cons {x : ℕ} {b : Block} {bs : List Block} :
    Covered x (b :: bs) ↔ Inside x b ∨ Covered x bs := by
  simp [Covered]

structure Tiles (bs rs : List Block) : Prop where
  apart : bs.Pairwise Apart
  pos : ∀ b ∈ bs, 0 < b.2
  cover : ∀ x, Covered x bs ↔ Covered x rs
  total : (bs.map Prod.snd).sum = (rs.map Prod.snd).sum

variable {bs bs' rs : List Block} {a m k : ℕ}

theorem tiles_nil : Tiles [] [] where
  apart := List.Pairwise.nil
  pos := fun _ hb => absurd hb List.not_mem_nil
  cover := fun _ => Iff.rfl
  total := rfl

theorem Tiles.perm (h : Tiles bs rs) (hp : bs.Perm bs') : Tiles bs' rs where
  apart := h.apart.perm hp Apart.symm
  pos := fun b hb => h.pos b (hp.mem_iff.mpr hb)
  cover := fun x => by
    rw [← h.cover x]
    exact exists_congr fun b => and_congr_left fun _ => hp.mem_iff.symm
  total := (hp.map Prod.snd).sum_eq.symm.trans h.total

/-- The start of a block lies in a region. -/
theorem Tiles.start (h : Tiles bs rs) {b : Block} (hb : b ∈ bs) : ∃ r ∈ rs, Inside b.1 r :=
  (h.cover b.1).mp ⟨b, hb, le_rfl, Nat.lt_add_of_pos_right (h.pos b hb)⟩

theorem inside_join {x : ℕ} :
    Inside x (a, m + k) ↔ Inside x (a, m) ∨ Inside x (a + m, k) := by
  unfold Inside
  omega

/-- Two blocks, one after the other, are one. -/
theorem Tiles.join (h : Tiles ((a, m) :: (a + m, k) :: bs) rs) : Tiles ((a, m + k) :: bs) rs := by
  obtain ⟨hfirst, hrest⟩ := List.pairwise_cons.mp h.apart
  obtain ⟨hsecond, hrest⟩ := List.pairwise_cons.mp hrest
  have hm := h.pos (a, m) List.mem_cons_self
  have hk := h.pos (a + m, k) (List.mem_cons_of_mem _ List.mem_cons_self)
  have hpos : ∀ b ∈ bs, 0 < b.2 := fun b hb =>
    h.pos b (List.mem_cons_of_mem _ (List.mem_cons_of_mem _ hb))
  refine ⟨List.pairwise_cons.mpr ⟨?_, hrest⟩, ?_, ?_, ?_⟩
  · intro c hc
    have h1 := hfirst c (List.mem_cons_of_mem _ hc)
    have h2 := hsecond c hc
    have h3 := hpos c hc
    unfold Apart at *
    dsimp only at *
    omega
  · intro b hb
    obtain rfl | hb := List.mem_cons.mp hb
    · exact Nat.add_pos_left hm k
    · exact hpos b hb
  · intro x
    rw [← h.cover x, covered_cons, covered_cons, covered_cons, inside_join, or_assoc]
  · rw [← h.total, List.map_cons, List.map_cons, List.map_cons, List.sum_cons, List.sum_cons,
      List.sum_cons, Nat.add_assoc]

/-- A block may be cut in two. -/
theorem Tiles.split (h : Tiles ((a, m + k) :: bs) rs) (hm : 0 < m) (hk : 0 < k) :
    Tiles ((a, m) :: (a + m, k) :: bs) rs := by
  obtain ⟨hfirst, hrest⟩ := List.pairwise_cons.mp h.apart
  refine ⟨List.pairwise_cons.mpr ⟨?_, List.pairwise_cons.mpr ⟨?_, hrest⟩⟩, ?_, ?_, ?_⟩
  · intro c hc
    obtain rfl | hc := List.mem_cons.mp hc
    · exact Or.inl le_rfl
    · have h1 := hfirst c hc
      unfold Apart at *
      dsimp only at *
      omega
  · intro c hc
    have h1 := hfirst c hc
    unfold Apart at *
    dsimp only at *
    omega
  · intro b hb
    obtain rfl | hb := List.mem_cons.mp hb
    · exact hm
    · obtain rfl | hb := List.mem_cons.mp hb
      · exact hk
      · exact h.pos b (List.mem_cons_of_mem _ hb)
  · intro x
    rw [← h.cover x, covered_cons, covered_cons, covered_cons, inside_join, or_assoc]
  · rw [← h.total, List.map_cons, List.map_cons, List.map_cons, List.sum_cons, List.sum_cons,
      List.sum_cons, Nat.add_assoc]

/-- A new region is a block. -/
theorem Tiles.grow (h : Tiles bs rs) (hm : 0 < m) (hapart : ∀ r ∈ rs, Apart (a, m) r) :
    Tiles ((a, m) :: bs) ((a, m) :: rs) := by
  refine ⟨List.pairwise_cons.mpr ⟨?_, h.apart⟩, ?_, ?_, ?_⟩
  · intro c hc
    by_contra hno
    -- an address in both lies in a region
    have hpos := h.pos c hc
    obtain ⟨r, hr, hin⟩ := (h.cover (max a c.1)).mp ⟨c, hc, by
      unfold Apart at hno
      unfold Inside
      dsimp only at *
      omega⟩
    have hr := hapart r hr
    unfold Apart at *
    unfold Inside at hin
    dsimp only at *
    omega
  · intro b hb
    obtain rfl | hb := List.mem_cons.mp hb
    · exact hm
    · exact h.pos b hb
  · intro x
    rw [covered_cons, covered_cons, h.cover x]
  · rw [List.map_cons, List.map_cons, List.sum_cons, List.sum_cons, h.total]

/-- A stretch of the regions that no address of theirs touches. -/
structure Stretch (rs : List Block) (b : Block) : Prop where
  pos : 0 < b.2
  covered : ∀ x, Inside x b → Covered x rs
  after : ¬ Covered (b.1 + b.2) rs
  before : 0 < b.1 → ¬ Covered (b.1 - 1) rs

/-- Blocks that do not touch are the contiguous stretches. -/
theorem Tiles.mem_iff_stretch (h : Tiles bs rs)
    (hgap : ∀ b ∈ bs, ∀ c ∈ bs, b.1 + b.2 ≠ c.1) (b : Block) : b ∈ bs ↔ Stretch rs b := by
  have hsymm : Std.Symm Apart := ⟨fun _ _ => Apart.symm⟩
  have hstretch : ∀ b ∈ bs, Stretch rs b := by
    intro b hb
    have hpos := h.pos b hb
    refine ⟨hpos, fun x hx => (h.cover x).mp ⟨b, hb, hx⟩, fun hcov => ?_, fun hlow hcov => ?_⟩
    · obtain ⟨c, hc, hin⟩ := (h.cover _).mpr hcov
      have hne : b ≠ c := by
        intro heq
        subst heq
        unfold Inside at hin
        omega
      have hapart : Apart b c := h.apart.forall hb hc hne
      have hbc := hgap b hb c hc
      unfold Apart at hapart
      unfold Inside at hin
      omega
    · obtain ⟨c, hc, hin⟩ := (h.cover _).mpr hcov
      have hne : b ≠ c := by
        intro heq
        subst heq
        unfold Inside at hin
        omega
      have hapart : Apart b c := h.apart.forall hb hc hne
      have hcb := hgap c hc b hb
      unfold Apart at hapart
      unfold Inside at hin
      omega
  constructor
  · exact hstretch b
  · intro hb
    have hpos := hb.pos
    -- the block at the start of the stretch ends where the stretch ends
    obtain ⟨c, hc, hin⟩ := (h.cover b.1).mpr (hb.covered b.1 ⟨le_rfl, Nat.lt_add_of_pos_right hpos⟩)
    have hcs := hstretch c hc
    have hstart : c.1 = b.1 := by
      by_contra hne
      unfold Inside at hin
      exact hb.before (by omega) (hcs.covered _ ⟨by omega, by omega⟩)
    have hend : c.2 = b.2 := by
      unfold Inside at hin
      obtain hlt | heq | hgt := Nat.lt_trichotomy c.2 b.2
      · exact absurd (hb.covered (c.1 + c.2) ⟨by omega, by omega⟩) hcs.after
      · exact heq
      · exact absurd (hcs.covered (b.1 + b.2) ⟨by omega, by omega⟩) hb.after
    exact (Prod.ext hstart hend : c = b) ▸ hc

end Tiling
