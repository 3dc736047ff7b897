import Mathlib.Data.BitVec
import Mathlib.Data.List.Basic
import Mathlib.Logic.Function.Basic
import Mathlib.Tactic

/-!
# Rings indexed by counters that wrap

A ring of `cap` cells between a producer's counter `w` and a consumer's counter `r`.
The counters have `n` bits and are never reduced; cell `i % cap` belongs to count `i`.
When `cap` divides `2 ^ n` the cells stay in order across the wrap.
-/
namespace WrapRing

open Function

variable {n cap : ℕ} {α : Type*} {data : ℕ → α} {r w : BitVec n}

/-- The number of counts between the consumer and the producer. -/
def size (r w : BitVec n) : ℕ := (w - r).toNat

/-- The cell that a count uses. -/
def cell (cap : ℕ) (c : BitVec n) : ℕ := c.toNat % cap

/-- What the ring holds, oldest first. -/
def contents (cap : ℕ) (data : ℕ → α) (r w : BitVec n) : List α :=
  (List.range (size r w)).map fun k => data ((r.toNat + k) % cap)

@[simp] lemma size_self : size r r = 0 := by simp [size]

lemma size_eq_zero : size r w = 0 ↔ r = w := by
  constructor
  · intro h
    have hz : w - r = 0#n := BitVec.eq_of_toNat_eq (by simpa [size] using h)
    calc r = (w - r) + r := by rw [hz, BitVec.zero_add]
      _ = w := BitVec.sub_add_cancel w r
  · rintro rfl
    exact size_self

lemma size_lt : size r w < 2 ^ n := (w - r).isLt

lemma eq_add_of_size {k : ℕ} (h : size r w = k) : w = r + BitVec.ofNat n k := by
  have hk : w - r = BitVec.ofNat n k := by
    rw [← h, size, BitVec.ofNat_toNat, BitVec.setWidth_eq]
  rw [← hk, BitVec.add_comm, BitVec.sub_add_cancel]

lemma size_add_ofNat {k : ℕ} (hk : k < 2 ^ n) : size r (r + BitVec.ofNat n k) = k := by
  rw [size, BitVec.add_comm, BitVec.add_sub_cancel, BitVec.toNat_ofNat, Nat.mod_eq_of_lt hk]

lemma toNat_producer : w.toNat = (r.toNat + size r w) % 2 ^ n := by
  have h := eq_add_of_size (rfl : size r w = size r w)
  calc w.toNat = (r + BitVec.ofNat n (size r w)).toNat := by rw [← h]
    _ = (r.toNat + size r w) % 2 ^ n := by rw [BitVec.toNat_add, BitVec.toNat_ofNat, Nat.add_mod_mod]

lemma size_push (h : size r w + 1 < 2 ^ n) : size r (w + 1#n) = size r w + 1 := by
  have hw := eq_add_of_size (rfl : size r w = size r w)
  have hs : w + 1#n = r + BitVec.ofNat n (size r w + 1) := by
    rw [BitVec.ofNat_add, ← BitVec.add_assoc, ← hw]
  rw [hs, size_add_ofNat h]

lemma size_pop (h : r ≠ w) : size (r + 1#n) w + 1 = size r w := by
  have hpos : 0 < size r w := Nat.pos_of_ne_zero fun h0 => h (size_eq_zero.mp h0)
  obtain ⟨k, hk⟩ := Nat.exists_eq_add_of_le' hpos
  have hlt : k < 2 ^ n := by have := size_lt (r := r) (w := w); omega
  have hw : w = (r + 1#n) + BitVec.ofNat n k := by
    rw [eq_add_of_size hk, BitVec.ofNat_add, BitVec.add_assoc, BitVec.add_comm (1#n)]
  rw [hk, hw, size_add_ofNat hlt]

lemma size_add {e : BitVec n} (h : size r w + size w e < 2 ^ n) :
    size r e = size r w + size w e := by
  have he : e = r + BitVec.ofNat n (size r w + size w e) := by
    rw [BitVec.ofNat_add, ← BitVec.add_assoc, ← eq_add_of_size rfl, ← eq_add_of_size rfl]
  conv_lhs => rw [he]
  exact size_add_ofNat h

/-- The producer takes a count back. -/
lemma size_retreat (h : r ≠ w) : size r (w - 1#n) + 1 = size r w := by
  have hpos : 0 < size r w := Nat.pos_of_ne_zero fun h0 => h (size_eq_zero.mp h0)
  obtain ⟨k, hk⟩ := Nat.exists_eq_add_of_le' hpos
  have hlt : k < 2 ^ n := by have := size_lt (r := r) (w := w); omega
  have hw : w - 1#n = r + BitVec.ofNat n k := by
    rw [eq_add_of_size hk, BitVec.ofNat_add, ← BitVec.add_assoc, BitVec.add_sub_cancel]
  rw [hk, hw, size_add_ofNat hlt]

lemma length_contents : (contents cap data r w).length = size r w := by simp [contents]

lemma contents_self : contents cap data r r = [] := by simp [contents]

variable (hcap : cap ∣ 2 ^ n)
include hcap

lemma cell_producer : cell cap w = (r.toNat + size r w) % cap := by
  rw [cell, toNat_producer (r := r) (w := w), Nat.mod_mod_of_dvd _ hcap]

/-- Counts less than a lap ahead of the consumer have different cells. -/
lemma cell_ne_producer {k : ℕ} (hk : k < size r w) (hfull : size r w < cap) :
    (r.toNat + k) % cap ≠ cell cap w := by
  rw [cell_producer hcap (r := r)]
  intro heq
  have hmod : r.toNat + k ≡ r.toNat + size r w [MOD cap] := heq
  have := Nat.ModEq.add_left_cancel' _ hmod
  rw [Nat.ModEq, Nat.mod_eq_of_lt (by omega), Nat.mod_eq_of_lt hfull] at this
  omega

/-- Writing the producer's cell does not change what a ring that is not full holds. -/
theorem contents_write {x : α} (hfull : size r w < cap) :
    contents cap (update data (cell cap w) x) r w = contents cap data r w := by
  rw [contents, contents]
  apply List.map_congr_left
  intro k hk
  exact update_of_ne (cell_ne_producer hcap (List.mem_range.mp hk) hfull) ..

/-- The producer's cell joins what the ring holds when its counter moves on. -/
theorem contents_advance (hlt : size r w + 1 < 2 ^ n) :
    contents cap data r (w + 1#n) = contents cap data r w ++ [data (cell cap w)] := by
  rw [contents, size_push hlt, List.range_succ, List.map_append, contents, List.map_singleton,
    ← cell_producer hcap (w := w)]

/-- Writing the producer's cell appends to a ring that is not full. -/
theorem contents_push {x : α} (hfull : size r w < cap) (hlt : size r w + 1 < 2 ^ n) :
    contents cap (update data (cell cap w) x) r (w + 1#n) = contents cap data r w ++ [x] := by
  rw [contents_advance hcap hlt, contents_write hcap hfull, update_self]

/-- The consumer's cell holds the oldest element. -/
theorem contents_pop (h : r ≠ w) :
    contents cap data r w = data (cell cap r) :: contents cap data (r + 1#n) w := by
  rw [contents, ← size_pop h, List.range_succ_eq_map, List.map_cons, List.map_map, contents, cell]
  congr 1
  apply List.map_congr_left
  intro k _
  have hmod : (r + 1#n).toNat % cap = (r.toNat + 1) % cap := by
    rw [BitVec.toNat_add, Nat.mod_mod_of_dvd _ hcap, BitVec.toNat_ofNat]
    conv_rhs => rw [Nat.add_mod]
    conv_lhs => rw [Nat.add_mod, Nat.mod_mod_of_dvd _ hcap]
  show data ((r.toNat + (k + 1)) % cap) = data (((r + 1#n).toNat + k) % cap)
  congr 1
  rw [Nat.add_mod (r + 1#n).toNat, hmod, ← Nat.add_mod]
  congr 1
  omega

/-- What the ring held before the producer's last count. -/
theorem contents_retreat (h : r ≠ w) :
    contents cap data r w = contents cap data r (w - 1#n) ++ [data (cell cap (w - 1#n))] := by
  have hlt : size r (w - 1#n) + 1 < 2 ^ n := by
    rw [size_retreat h]
    exact size_lt
  rw [← contents_advance hcap hlt, BitVec.sub_add_cancel]

/-- A ring that is divided by a third counter. -/
theorem contents_append {e : BitVec n} (h : size r w + size w e < 2 ^ n) :
    contents cap data r e = contents cap data r w ++ contents cap data w e := by
  rw [contents, size_add h, List.range_add, List.map_append, List.map_map, contents, contents]
  congr 1
  apply List.map_congr_left
  intro k _
  show data ((r.toNat + (size r w + k)) % cap) = data ((w.toNat + k) % cap)
  rw [toNat_producer (r := r) (w := w), Nat.add_mod (_ % 2 ^ n), Nat.mod_mod_of_dvd _ hcap,
    ← Nat.add_mod, Nat.add_assoc]

/-- Writing the producer's cell does not change either part of a ring that is not full. -/
theorem contents_write_parts {e : BitVec n} {x : α} (h : size r w + size w e < 2 ^ n)
    (hfull : size r w + size w e < cap) :
    contents cap (update data (cell cap e) x) r w = contents cap data r w ∧
      contents cap (update data (cell cap e) x) w e = contents cap data w e := by
  have hall : contents cap (update data (cell cap e) x) r e = contents cap data r e :=
    contents_write hcap ((size_add h).trans_lt hfull)
  rw [contents_append hcap h, contents_append hcap h] at hall
  exact List.append_inj hall (by rw [length_contents, length_contents])

end WrapRing
