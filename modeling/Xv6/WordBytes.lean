import Mathlib.Tactic

/-!
# Bytes of an array of words

An array of 64-bit words read and written byte by byte, the least significant byte of a word
first. Offsets are natural numbers; an offset beyond the end wraps around, so the laws ask for
offsets within the array.
-/
namespace WordBytes

open Function

/-- Byte `k` of a word. -/
def byte (w : BitVec 64) (k : ℕ) : UInt8 := .ofBitVec (w.extractLsb' (8 * k) 8)

/-- The word with byte `k` replaced. -/
def setByte (w : BitVec 64) (k : ℕ) (b : UInt8) : BitVec 64 :=
  w &&& ~~~(BitVec.ofNat 64 255 <<< (8 * k)) ||| b.toBitVec.setWidth 64 <<< (8 * k)

lemma getLsbD_byte (w : BitVec 64) (k i : ℕ) :
    (byte w k).toBitVec.getLsbD i = (decide (i < 8) && w.getLsbD (8 * k + i)) := by
  rw [byte, BitVec.getLsbD_extractLsb']

lemma getLsbD_255 (i : ℕ) : (BitVec.ofNat 64 255).getLsbD i = decide (i < 8) := by
  rw [show (255 : ℕ) = 2 ^ 8 - 1 from rfl, BitVec.getLsbD_ofNat, Nat.testBit_two_pow_sub_one]
  by_cases hi : i < 8
  · simp [hi, hi.trans (show 8 < 64 by decide)]
  · simp [hi]

lemma getLsbD_setByte (w : BitVec 64) {k : ℕ} (hk : k < 8) (b : UInt8) (i : ℕ) :
    (setByte w k b).getLsbD i =
      if 8 * k ≤ i ∧ i < 8 * k + 8 then b.toBitVec.getLsbD (i - 8 * k) else w.getLsbD i := by
  rw [setByte, BitVec.getLsbD_or, BitVec.getLsbD_and, BitVec.getLsbD_not, BitVec.getLsbD_shiftLeft,
    BitVec.getLsbD_shiftLeft, getLsbD_255, BitVec.getLsbD_setWidth]
  by_cases hin : 8 * k ≤ i ∧ i < 8 * k + 8
  · have h64 : i < 64 := by omega
    have hsub : i - 8 * k < 8 := by omega
    have hsub' : i - 8 * k < 64 := by omega
    simp [hin, h64, hsub, hsub', not_lt.mpr hin.1]
  · rw [if_neg hin]
    by_cases hlt : i < 8 * k
    · have h64 : i < 64 := by omega
      simp [hlt, h64]
    · have hsub : ¬ i - 8 * k < 8 := by omega
      have hb : b.toBitVec.getLsbD (i - 8 * k) = false := BitVec.getLsbD_of_ge _ _ (by omega)
      by_cases h64 : i < 64
      · simp [hsub, h64, hb]
      · simp [h64, BitVec.getLsbD_of_ge w i (by omega)]

lemma byte_setByte (w : BitVec 64) {k j : ℕ} (hk : k < 8) (b : UInt8) :
    byte (setByte w k b) j = if j = k then b else byte w j := by
  apply UInt8.toBitVec_inj.mp
  apply BitVec.eq_of_getLsbD_eq
  intro i hi
  rw [getLsbD_byte, getLsbD_setByte w hk]
  by_cases hjk : j = k
  · subst hjk
    rw [if_pos rfl, if_pos (by omega), Nat.add_sub_cancel_left]
    simp [hi]
  · rw [if_neg hjk, if_neg (by omega), getLsbD_byte]

variable {n : ℕ} [NeZero n]

/-- The byte at offset `o`. -/
def get (f : Fin n → BitVec 64) (o : ℕ) : UInt8 := byte (f (Fin.ofNat n (o / 8))) (o % 8)

def set (f : Fin n → BitVec 64) (o : ℕ) (b : UInt8) : Fin n → BitVec 64 :=
  update f (Fin.ofNat n (o / 8)) (setByte (f (Fin.ofNat n (o / 8))) (o % 8) b)

lemma get_set (f : Fin n → BitVec 64) {o p : ℕ} (ho : o < 8 * n) (hp : p < 8 * n) (b : UInt8) :
    get (set f o b) p = if p = o then b else get f p := by
  rw [get, set]
  by_cases hidx : p / 8 = o / 8
  · rw [hidx, update_self, byte_setByte _ (Nat.mod_lt _ (by decide)), get, hidx]
    by_cases hpo : p = o
    · subst hpo
      rw [if_pos rfl, if_pos rfl]
    · rw [if_neg hpo, if_neg (by omega)]
  · have hne : Fin.ofNat n (p / 8) ≠ Fin.ofNat n (o / 8) := by
      intro heq
      have hval := Fin.val_eq_of_eq heq
      rw [Fin.val_ofNat, Fin.val_ofNat, Nat.mod_eq_of_lt (by omega), Nat.mod_eq_of_lt (by omega)]
        at hval
      exact hidx hval
    rw [update_of_ne hne, if_neg (by rintro rfl; exact hidx rfl), get]

/-- The bytes `src` are put at offset `o`. -/
def blit (f : Fin n → BitVec 64) : ℕ → List UInt8 → Fin n → BitVec 64
  | _, [] => f
  | o, b :: src => blit (set f o b) (o + 1) src

theorem get_blit (f : Fin n → BitVec 64) {o p : ℕ} (src : List UInt8) (ho : o + src.length ≤ 8 * n)
    (hp : p < 8 * n) :
    get (blit f o src) p = if o ≤ p ∧ p < o + src.length then src.getD (p - o) 0 else get f p := by
  induction src generalizing f o with
  | nil => rw [blit, if_neg (by rw [List.length_nil]; omega)]
  | cons b src ih =>
    rw [List.length_cons] at ho ⊢
    rw [blit, ih _ (by omega), get_set _ (by omega) hp]
    by_cases hpo : p = o
    · subst hpo
      rw [if_neg (by omega), if_pos rfl, if_pos (by omega), Nat.sub_self, List.getD_cons_zero]
    · by_cases hin : o + 1 ≤ p ∧ p < o + 1 + src.length
      · rw [if_pos hin, if_pos (by omega), show p - o = p - (o + 1) + 1 by omega, List.getD_cons_succ]
      · rw [if_neg hin, if_neg hpo, if_neg (by omega)]

lemma get_zero (o : ℕ) : get (fun _ => 0 : Fin n → BitVec 64) o = 0 := by
  rw [get, byte]
  exact congrArg UInt8.ofBitVec (by simp)

end WordBytes
