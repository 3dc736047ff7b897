import Mathlib.Tactic

/-!
# Fixed-size byte arrays and the little-endian words stored in them

A byte array is a function from its index range. Reads and writes take natural
offsets; a read beyond the end gives zero and a write there changes nothing, so
the laws below need a bound only where it matters. Words are four bytes, least
significant first.
-/
namespace Bytes

/-- An array of exactly `n` bytes. -/
abbrev Buf (n : ℕ) : Type := Fin n → UInt8

variable {n : ℕ}

def get (b : Buf n) (i : ℕ) : UInt8 := if h : i < n then b ⟨i, h⟩ else 0

def set (b : Buf n) (i : ℕ) (v : UInt8) : Buf n := fun j => if j.val = i then v else b j

theorem get_set (b : Buf n) (i j : ℕ) (v : UInt8) (hi : i < n) :
    get (set b i v) j = if j = i then v else get b j := by
  unfold get set
  by_cases hj : j < n
  · simp [hj]
  · have hne : j ≠ i := by omega
    simp [hj, hne]

theorem get_set_ne (b : Buf n) (i j : ℕ) (v : UInt8) (h : j ≠ i) :
    get (set b i v) j = get b j := by
  unfold get set
  by_cases hj : j < n <;> simp [hj, h]

/-- The word at byte offset `o`, least significant byte first. -/
def word (b : Buf n) (o : ℕ) : UInt32 :=
  UInt32.ofNat ((get b o).toNat + 256 * (get b (o + 1)).toNat +
    65536 * (get b (o + 2)).toNat + 16777216 * (get b (o + 3)).toNat)

/-- Store a word at byte offset `o`. -/
def setWord (b : Buf n) (o : ℕ) (v : UInt32) : Buf n :=
  set (set (set (set b o (UInt8.ofNat v.toNat)) (o + 1) (UInt8.ofNat (v.toNat / 256)))
    (o + 2) (UInt8.ofNat (v.toNat / 65536))) (o + 3) (UInt8.ofNat (v.toNat / 16777216))

theorem get_setWord_of_disjoint (b : Buf n) (o i : ℕ) (v : UInt32)
    (h : i < o ∨ o + 4 ≤ i) : get (setWord b o v) i = get b i := by
  unfold setWord
  rw [get_set_ne _ _ _ _ (by omega), get_set_ne _ _ _ _ (by omega),
    get_set_ne _ _ _ _ (by omega), get_set_ne _ _ _ _ (by omega)]

@[simp] theorem word_setWord_self (b : Buf n) (o : ℕ) (v : UInt32) (h : o + 4 ≤ n) :
    word (setWord b o v) o = v := by
  have hv := v.toNat_lt
  have h0 : get (setWord b o v) o = UInt8.ofNat v.toNat := by
    unfold setWord
    rw [get_set_ne _ _ _ _ (by omega), get_set_ne _ _ _ _ (by omega),
      get_set_ne _ _ _ _ (by omega), get_set _ _ _ _ (by omega), if_pos rfl]
  have h1 : get (setWord b o v) (o + 1) = UInt8.ofNat (v.toNat / 256) := by
    unfold setWord
    rw [get_set_ne _ _ _ _ (by omega), get_set_ne _ _ _ _ (by omega),
      get_set _ _ _ _ (by omega), if_pos rfl]
  have h2 : get (setWord b o v) (o + 2) = UInt8.ofNat (v.toNat / 65536) := by
    unfold setWord
    rw [get_set_ne _ _ _ _ (by omega), get_set _ _ _ _ (by omega), if_pos rfl]
  have h3 : get (setWord b o v) (o + 3) = UInt8.ofNat (v.toNat / 16777216) := by
    unfold setWord
    rw [get_set _ _ _ _ (by omega), if_pos rfl]
  unfold word
  rw [h0, h1, h2, h3]
  apply UInt32.toNat_inj.mp
  simp only [UInt8.toNat_ofNat', UInt32.toNat_ofNat']
  omega

theorem word_setWord_of_disjoint (b : Buf n) (o p : ℕ) (v : UInt32)
    (h : p + 4 ≤ o ∨ o + 4 ≤ p) : word (setWord b o v) p = word b p := by
  unfold word
  rw [get_setWord_of_disjoint _ _ _ _ (by omega), get_setWord_of_disjoint _ _ _ _ (by omega),
    get_setWord_of_disjoint _ _ _ _ (by omega), get_setWord_of_disjoint _ _ _ _ (by omega)]

def blit (b : Buf n) (o k : ℕ) (src : ℕ → UInt8) : Buf n := fun j =>
  if o ≤ j.val ∧ j.val < o + k then src (j.val - o) else b j

theorem get_blit (b : Buf n) (o k i : ℕ) (src : ℕ → UInt8) (hi : i < n) :
    get (blit b o k src) i = if o ≤ i ∧ i < o + k then src (i - o) else get b i := by
  unfold get blit
  simp [hi]

end Bytes
