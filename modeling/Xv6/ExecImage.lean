import Xv6.ExecLoad

/-!
# The image of a program

What loading the segments of a program leaves in memory, if no two segments share a page and no
offset in the file is truncated: the bytes of the file, and zeros after them.
-/
namespace Xv6.Exec

open Prog Vm Function

variable {f : File} {k off sz sz₁ sz' : ℕ} {B B₁ B' : ℕ → Option UInt8} {ph : Proghdr}

def Proghdr.Page (ph : Proghdr) (v : ℕ) : Prop := ∃ j < ph.memsz, (ph.vaddr + j) / PGSIZE = v

/-- Memory has the bytes of a segment, and zeros where the file has none for it. -/
def Proghdr.In (ph : Proghdr) (f : File) (B : ℕ → Option UInt8) : Prop :=
  ∀ j < ph.memsz, B (ph.vaddr + j) = some (if j < ph.filesz then f.bytes.getD (ph.off + j) 0 else 0)

lemma SegLoaded.outside (h : SegLoaded f ph sz B sz₁ B₁) {a : ℕ} (hpage : ¬ ph.Page (a / PGSIZE)) :
    B₁ a = if npages sz ≤ a / PGSIZE ∧ a / PGSIZE < npages sz₁ then some 0 else B a := by
  rw [h.bytes]
  apply if_neg
  intro hin
  rw [List.length_take] at hin
  have hfilesz := h.filesz_le
  apply hpage
  refine ⟨a - ph.vaddr, by omega, ?_⟩
  rw [Nat.add_sub_cancel' hin.1]

lemma SegLoaded.frame (h : SegLoaded f ph sz B sz₁ B₁) {a : ℕ} (ha : a / PGSIZE < npages sz)
    (hpage : ¬ ph.Page (a / PGSIZE)) : B₁ a = B a := by
  rw [h.outside hpage, if_neg (by omega)]

lemma SegLoaded.inMemory (h : SegLoaded f ph sz B sz₁ B₁) (hoff : ph.off < 2 ^ 32)
    (hzero : ∀ a, a / PGSIZE < npages sz → ph.Page (a / PGSIZE) → B a = some 0) : ph.In f B₁ := by
  intro j hj
  have hin := h.inFile
  rw [Nat.mod_eq_of_lt hoff] at hin
  rw [h.bytes, Data.put, Nat.mod_eq_of_lt hoff, List.length_take, List.length_drop]
  by_cases hfile : j < ph.filesz
  · have hlen := hin (by omega)
    rw [if_pos (by omega), if_pos hfile, Nat.add_sub_cancel_left, List.getD_eq_getElem?_getD,
      List.getD_eq_getElem?_getD, List.getElem?_take_of_lt hfile, List.getElem?_drop]
  · have hend : ph.vaddr + j < sz₁ := by
      have := h.size
      omega
    have hpage := div_lt_npages hend
    rw [if_neg (by omega), if_neg hfile]
    by_cases hnew : npages sz ≤ (ph.vaddr + j) / PGSIZE
    · exact if_pos ⟨hnew, hpage⟩
    · rw [if_neg (by omega)]
      exact hzero _ (by omega) ⟨j, hj, rfl⟩

/-- The header of number `i` when the table is at an offset. -/
abbrev header (f : File) (off i : ℕ) : Proghdr := headerAt f (off + i * Proghdr.size)

def Disjoint (f : File) (off k : ℕ) : Prop :=
  ∀ i < k, ∀ j < k, i ≠ j → (header f off i).type = ELF_PROG_LOAD →
    (header f off j).type = ELF_PROG_LOAD → ∀ v, (header f off i).Page v → ¬ (header f off j).Page v

/-- What the loaded program has of header number `i`. -/
structure HasSegment (f : File) (off sz : ℕ) (B : ℕ → Option UInt8) (i : ℕ) : Prop where
  table : off + (i + 1) * Proghdr.size ≤ f.bytes.length
  size : (header f off i).type = ELF_PROG_LOAD → (header f off i).vaddr + (header f off i).memsz ≤ sz
  file : (header f off i).type = ELF_PROG_LOAD → 0 < (header f off i).filesz →
    (header f off i).off + (header f off i).filesz ≤ f.bytes.length
  memory : (header f off i).type = ELF_PROG_LOAD → (header f off i).In f B

lemma header_succ (f : File) (off i : ℕ) : header f off (i + 1) = header f (off + Proghdr.size) i := by
  rw [header, header, Nat.succ_mul, Nat.add_assoc, Nat.add_comm (i * _)]

lemma header_zero (f : File) (off : ℕ) : header f off 0 = headerAt f off := by
  rw [header, Nat.zero_mul, Nat.add_zero]

lemma next_eq (h : off + Proghdr.size ≤ f.bytes.length) :
    (off + Proghdr.size) % 2 ^ 32 = off + Proghdr.size := by
  have := f.length_lt
  exact Nat.mod_eq_of_lt (by omega)

lemma headers_tail {P : Proghdr → Prop} (h : ∀ i < k + 1, P (header f off i)) :
    ∀ i < k, P (header f (off + Proghdr.size) i) := by
  intro i hi
  rw [← header_succ]
  exact h (i + 1) (Nat.succ_lt_succ hi)

lemma Disjoint.tail (h : Disjoint f off (k + 1)) : Disjoint f (off + Proghdr.size) k := by
  intro i hi j hj hne
  rw [← header_succ, ← header_succ]
  exact h (i + 1) (Nat.succ_lt_succ hi) (j + 1) (Nat.succ_lt_succ hj) (by omega)

lemma HasSegment.succ {i : ℕ} (h : HasSegment f (off + Proghdr.size) sz B i) :
    HasSegment f off sz B (i + 1) := by
  obtain ⟨htable, hsize, hfile, hmemory⟩ := h
  rw [← header_succ] at hsize hfile hmemory
  refine ⟨?_, hsize, hfile, hmemory⟩
  rw [Nat.succ_mul (i + 1)]
  omega

lemma HasSegment.mono {i : ℕ} (h : HasSegment f off sz B i) (hsz : sz ≤ sz')
    (hB : ∀ a < sz, B' a = B a) : HasSegment f off sz' B' i where
  table := h.table
  size htype := (h.size htype).trans hsz
  file := h.file
  memory htype j hj := by
    have hsize := h.size htype
    rw [hB _ (by omega)]
    exact h.memory htype j hj

lemma Loads.size_le (h : Loads f k off sz B sz' B') : sz ≤ sz' := by
  induction h with
  | done => exact le_rfl
  | skip _ _ _ ih => exact ih
  | load _ _ hseg _ ih =>
    have := hseg.size
    omega

lemma Loads.frame (h : Loads f k off sz B sz' B') {a : ℕ} (ha : a / PGSIZE < npages sz)
    (hpage : ∀ i < k, (header f off i).type = ELF_PROG_LOAD → ¬ (header f off i).Page (a / PGSIZE)) :
    B' a = B a := by
  induction h with
  | done => rfl
  | skip hread _ _ ih =>
    apply ih ha
    rw [next_eq hread]
    exact headers_tail (P := fun ph => ph.type = ELF_PROG_LOAD → ¬ ph.Page (a / PGSIZE)) hpage
  | load hread htype hseg _ ih =>
    have hfirst := hpage 0 (Nat.succ_pos _)
    rw [header_zero] at hfirst
    rw [← hseg.frame ha (hfirst htype)]
    apply ih
    · have := hseg.size
      exact ha.trans_le (npages_mono (by omega))
    · rw [next_eq hread]
      exact headers_tail (P := fun ph => ph.type = ELF_PROG_LOAD → ¬ ph.Page (a / PGSIZE)) hpage

/-- The segments of the headers, if the pages that are not in `Z` were zero. -/
theorem Loads.image (h : Loads f k off sz B sz' B')
    (hoffs : ∀ i < k, (header f off i).type = ELF_PROG_LOAD → (header f off i).off < 2 ^ 32)
    (hdisj : Disjoint f off k) (Z : ℕ → Prop)
    (hzero : ∀ a, a / PGSIZE < npages sz → ¬ Z (a / PGSIZE) → B a = some 0)
    (hZ : ∀ i < k, (header f off i).type = ELF_PROG_LOAD → ∀ v, (header f off i).Page v → ¬ Z v) :
    ∀ i < k, HasSegment f off sz' B' i := by
  induction h generalizing Z with
  | done => exact fun i hi => absurd hi (Nat.not_lt_zero i)
  | @skip k off sz sz' B B' hread htype hrest ih =>
    rw [next_eq hread] at ih
    have htail := ih (headers_tail (P := fun ph => ph.type = ELF_PROG_LOAD → ph.off < 2 ^ 32) hoffs)
      hdisj.tail Z hzero
      (headers_tail (P := fun ph => ph.type = ELF_PROG_LOAD → ∀ v, ph.Page v → ¬ Z v) hZ)
    intro i hi
    cases i with
    | zero =>
      have hnot : (header f off 0).type ≠ ELF_PROG_LOAD := by rwa [header_zero]
      exact ⟨by omega, fun h => absurd h hnot, fun h => absurd h hnot, fun h => absurd h hnot⟩
    | succ i => exact (htail i (Nat.lt_of_succ_lt_succ hi)).succ
  | @load k off sz sz₁ sz' B B₁ B' hread htype hseg hrest ih =>
    rw [next_eq hread] at ih hrest
    rw [← header_zero] at htype hseg
    have hfirst : (header f off 0).In f B₁ := by
      apply hseg.inMemory (hoffs 0 (Nat.succ_pos k) htype)
      intro a ha hpage
      exact hzero a ha (hZ 0 (Nat.succ_pos k) htype _ hpage)
    -- the pages of this segment are not those of a later one
    have hlater (v : ℕ) (hv : (header f off 0).Page v) (i : ℕ) (hi : i < k)
        (hload : (header f (off + Proghdr.size) i).type = ELF_PROG_LOAD) :
        ¬ (header f (off + Proghdr.size) i).Page v := by
      rw [← header_succ] at hload ⊢
      exact hdisj 0 (Nat.succ_pos k) (i + 1) (Nat.succ_lt_succ hi) (by omega) htype hload v hv
    have htail := ih (headers_tail (P := fun ph => ph.type = ELF_PROG_LOAD → ph.off < 2 ^ 32) hoffs)
      hdisj.tail (fun v => Z v ∨ (header f off 0).Page v)
      (by
        intro a ha hnot
        rw [not_or] at hnot
        rw [hseg.outside hnot.2]
        by_cases hnew : npages sz ≤ a / PGSIZE ∧ a / PGSIZE < npages sz₁
        · exact if_pos hnew
        · rw [if_neg hnew]
          exact hzero a (by omega) hnot.1)
      (by
        intro i hi hload v hv hin
        rcases hin with hin | hin
        · exact headers_tail (P := fun ph => ph.type = ELF_PROG_LOAD → ∀ v, ph.Page v → ¬ Z v) hZ i hi hload v hv hin
        · exact hlater v hin i hi hload hv)
    intro i hi
    cases i with
    | zero =>
      have hend := hseg.size
      have hmono := hrest.size_le
      refine ⟨by omega, fun _ => by omega, ?_, ?_⟩
      · intro _ hpos
        have hin := hseg.inFile hpos
        rwa [Nat.mod_eq_of_lt (hoffs 0 (Nat.succ_pos k) htype)] at hin
      · intro _ j hj
        rw [← hfirst j hj]
        apply hrest.frame
        · exact div_lt_npages (by omega)
        · exact hlater _ ⟨j, hj, rfl⟩
    | succ i => exact (htail i (Nat.lt_of_succ_lt_succ hi)).succ

end Xv6.Exec
