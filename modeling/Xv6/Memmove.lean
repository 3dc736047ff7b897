import Mathlib.Tactic

/-!
# Both `memmove`s

`memmove` of `kernel/string.c` and of `user/ulib.c` over a memory of bytes. Pointers are 64-bit
words and move modulo `2 ^ 64`. The kernel counts in a `uint` and copies from the end if the
destination begins inside the source; user programs count in an `int` and copy from the end if
the source does not begin above the destination.
-/
namespace Xv6.Memmove

open Function

abbrev Addr := BitVec 64

abbrev Mem := Addr → UInt8

/-- `while(n-- > 0) *d++ = *s++;` -/
def copyUp (m : Mem) (d s : Addr) : ℕ → Mem
  | 0 => m
  | n + 1 => copyUp (update m d (m s)) (d + 1) (s + 1) n

/-- `while(n-- > 0) *--d = *--s;` -/
def copyDown (m : Mem) (d s : Addr) : ℕ → Mem
  | 0 => m
  | n + 1 => copyDown (update m (d - 1) (m (s - 1))) (d - 1) (s - 1) n

/-- The memory after the call, and the pointer that it returns. -/
def Kernel.memmove (m : Mem) (dst src : Addr) (n : BitVec 32) : Mem × Addr :=
  if n = 0 then (m, dst)
  else if src < dst ∧ src + n.setWidth 64 > dst then
    (copyDown m (dst + n.setWidth 64) (src + n.setWidth 64) n.toNat, dst)
  else (copyUp m dst src n.toNat, dst)

@[inherit_doc Kernel.memmove]
def User.memmove (m : Mem) (vdst vsrc : Addr) (n : BitVec 32) : Mem × Addr :=
  if vsrc > vdst then (copyUp m vdst vsrc n.toInt.toNat, vdst)
  else (copyDown m (vdst + n.signExtend 64) (vsrc + n.signExtend 64) n.toInt.toNat, vdst)

/-- In `m'` the `n` bytes from `dst` on are what the `n` bytes from `src` on are in `m`; nothing
else has changed. -/
structure Copied (m : Mem) (dst src : Addr) (n : ℕ) (m' : Mem) : Prop where
  copied : ∀ i < n, m' (dst + BitVec.ofNat 64 i) = m (src + BitVec.ofNat 64 i)
  frame : ∀ a, (∀ i < n, a ≠ dst + BitVec.ofNat 64 i) → m' a = m a

/-- The memory after a copy, by the offset of an address in the destination. -/
def shifted (m : Mem) (d s : Addr) (n : ℕ) : Mem := fun a =>
  if (a - d).toNat < n then m (s + (a - d)) else m a

theorem copied_shifted (m : Mem) (d s : Addr) {n : ℕ} (hn : n ≤ 2 ^ 64) :
    Copied m d s n (shifted m d s n) where
  copied := by
    intro i hi
    have hoff : d + BitVec.ofNat 64 i - d = BitVec.ofNat 64 i := by
      rw [BitVec.add_comm, BitVec.add_sub_cancel]
    have hlt : (BitVec.ofNat 64 i).toNat < n := by
      rw [BitVec.toNat_ofNat, Nat.mod_eq_of_lt (by omega)]
      exact hi
    rw [shifted, hoff, if_pos hlt]
  frame := by
    intro a ha
    rw [shifted, if_neg]
    intro hlt
    apply ha _ hlt
    rw [BitVec.ofNat_toNat, BitVec.setWidth_eq, BitVec.add_comm, BitVec.sub_add_cancel]

/-- Copying upwards is right if the destination does not begin inside the source. -/
theorem copyUp_eq (m : Mem) (d s : Addr) {n : ℕ} (hn : n ≤ 2 ^ 64)
    (hds : d = s ∨ n ≤ (d - s).toNat) : copyUp m d s n = shifted m d s n := by
  induction n generalizing m d s with
  | zero =>
    funext a
    rw [copyUp, shifted, if_neg (Nat.not_lt_zero _)]
  | succ n ih =>
    rw [copyUp, ih _ _ _ (by omega) (by bv_omega)]
    funext a
    rw [shifted, shifted]
    by_cases had : a = d
    · -- the byte that was copied first
      subst had
      rw [if_neg (by bv_omega), if_pos (by bv_omega), update_self, BitVec.sub_self,
        BitVec.add_zero]
    · by_cases hin : (a - d).toNat < n + 1
      · have hoff : s + 1 + (a - (d + 1)) = s + (a - d) := by bv_omega
        have hsrc : s + (a - d) ≠ d := by bv_omega
        rw [if_pos (by bv_omega), if_pos hin, hoff, update_of_ne hsrc]
      · rw [if_neg (by bv_omega), if_neg hin, update_of_ne had]

/-- Copying downwards is right if the source does not begin inside the destination. -/
theorem copyDown_eq (m : Mem) (d s : Addr) {n : ℕ} (hn : n ≤ 2 ^ 64)
    (hsd : d = s ∨ n ≤ (s - d).toNat) :
    copyDown m (d + BitVec.ofNat 64 n) (s + BitVec.ofNat 64 n) n = shifted m d s n := by
  induction n generalizing m with
  | zero =>
    funext a
    rw [copyDown, shifted, if_neg (Nat.not_lt_zero _)]
  | succ n ih =>
    have hend (p : Addr) : p + BitVec.ofNat 64 (n + 1) - 1 = p + BitVec.ofNat 64 n := by bv_omega
    rw [copyDown, hend, hend, ih _ (by omega) (by bv_omega)]
    funext a
    rw [shifted, shifted]
    by_cases had : a = d + BitVec.ofNat 64 n
    · -- the byte that was copied first
      have hoff : a - d = BitVec.ofNat 64 n := by bv_omega
      rw [if_neg (by bv_omega), if_pos (by bv_omega), had, update_self, ← had, hoff]
    · by_cases hin : (a - d).toNat < n
      · have hsrc : s + (a - d) ≠ d + BitVec.ofNat 64 n := by bv_omega
        rw [if_pos hin, if_pos (by omega), update_of_ne hsrc]
      · rw [if_neg hin, if_neg (by bv_omega), update_of_ne had]

section Ranges

variable (m : Mem) {dst src : Addr} {n : BitVec 32} (hdst : dst.toNat + n.toNat ≤ 2 ^ 64)
  (hsrc : src.toNat + n.toNat ≤ 2 ^ 64)
include hdst hsrc

theorem Kernel.memmove_eq : Kernel.memmove m dst src n = (shifted m dst src n.toNat, dst) := by
  have hn := n.isLt
  have hwidth : n.setWidth 64 = BitVec.ofNat 64 n.toNat := (BitVec.ofNat_toNat ..).symm
  unfold Kernel.memmove
  split_ifs with h0 hinside
  · have hzero : n.toNat = 0 := by rw [h0]; rfl
    rw [hzero]
    rfl
  · rw [hwidth, copyDown_eq m dst src (by omega) (by bv_omega)]
  · rw [copyUp_eq m dst src (by omega) (by bv_omega)]

theorem User.memmove_eq (hpos : 0 ≤ n.toInt) :
    User.memmove m dst src n = (shifted m dst src n.toNat, dst) := by
  have hn := n.isLt
  have hcount : n.toInt.toNat = n.toNat := by
    rw [BitVec.toInt_eq_toNat_cond] at hpos ⊢
    split_ifs at hpos ⊢ <;> omega
  have hwidth : n.signExtend 64 = BitVec.ofNat 64 n.toNat := by
    have hmsb : n.msb = false := by
      rw [BitVec.msb_eq_toInt]
      exact decide_eq_false (not_lt.mpr hpos)
    rw [BitVec.signExtend_eq_setWidth_of_msb_false hmsb, BitVec.ofNat_toNat]
  unfold User.memmove
  rw [hcount, hwidth]
  split_ifs with habove
  · rw [copyUp_eq m dst src (by omega) (by bv_omega)]
  · rw [copyDown_eq m dst src (by omega) (by bv_omega)]

end Ranges

/-- Both functions copy the source as it was, whatever the ranges have in common, change nothing
else, and so agree. -/
theorem memmove_copies (m : Mem) (dst src : Addr) (n : BitVec 32)
    (hdst : dst.toNat + n.toNat ≤ 2 ^ 64) (hsrc : src.toNat + n.toNat ≤ 2 ^ 64) :
    Copied m dst src n.toNat (Kernel.memmove m dst src n).1 ∧
    (0 ≤ n.toInt → Copied m dst src n.toNat (User.memmove m dst src n).1 ∧
      User.memmove m dst src n = Kernel.memmove m dst src n) := by
  have hcopied := copied_shifted m dst src (n := n.toNat) (by omega)
  refine ⟨?_, fun hpos => ?_⟩
  · rw [Kernel.memmove_eq m hdst hsrc]
    exact hcopied
  · rw [User.memmove_eq m hdst hsrc hpos, Kernel.memmove_eq m hdst hsrc]
    exact ⟨hcopied, rfl⟩

/-- Three bytes move up by one over themselves, and end at the last address. -/
theorem memmove_copies_overlap :
    (Kernel.memmove (fun a => UInt8.ofNat a.toNat) (-3) (-4) 3).1 (-1) = 254 ∧
    User.memmove (fun a => UInt8.ofNat a.toNat) (-3) (-4) 3 =
      Kernel.memmove (fun a => UInt8.ofNat a.toNat) (-3) (-4) 3 := by
  obtain ⟨hkernel, huser⟩ := memmove_copies (fun a => UInt8.ofNat a.toNat) (-3) (-4) 3
    (by decide) (by decide)
  exact ⟨hkernel.copied 2 (by decide), (huser (by decide)).2⟩

end Xv6.Memmove
